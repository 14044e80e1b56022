import Veejay.EditList.Failed
import Veejay.EditList.Moves
import Veejay.Sample.EditCommands

/-!
# The crop of a list

`vj_event_el_crop` deletes the frames in front of the range and then those behind it (`veejay/vj-event.c`).  A deletion
takes its last frame with it, and the first of the two ends at the first frame of the range.

* `cropParts` — the two deletions, and whether both were made;
* `cropParts_holds` — what they leave of a list;
* `CropKeeps` — the frames of the range are left, or the range is called invalid and nothing is changed;
* `cropKeeps_iff` — **that is so exactly where no frame can be deleted.**
-/

namespace Veejay.SampleEdits

open CLib Veejay.Edl Veejay.Sample

/-- The two deletions of `vj_event_el_crop`.  Unless both are made, it says that the range is invalid. -/
def cropParts (a b : Int32) (s : Session) : Exec (Bool × Session) := do
  let front ← veejayEditDelete s 0 a.toInt
  if front.1 then veejayEditDelete front.2 (b.toInt - a.toInt) front.2.el.totalFrames.toInt64.toInt
  else .ok (false, front.2)

/-- The part of its list that the sample plays is the same, with its marker and the place to go on. -/
structure SameWindow (s s' : SampleInfo) : Prop where
  firstFrame : s'.firstFrame = s.firstFrame
  lastFrame : s'.lastFrame = s.lastFrame
  markerStart : s'.markerStart = s.markerStart
  markerEnd : s'.markerEnd = s.markerEnd
  resumePos : s'.resumePos = s.resumePos

/-- The frames `a .. b` of the list are left, and the sample is all of them. -/
structure Cropped (st' : State) (edl : List UInt64) (a b : ℕ) : Prop where
  holds : HoldsEntries st'.session.el (block edl a b)
  firstFrame : st'.sample.firstFrame = 0
  lastFrame : st'.sample.lastFrame = b - a

/-- **The property**: a crop leaves the frames of the range, or it says that the range is invalid and leaves the list,
the clipboard and the sample as they were. -/
def CropKeeps (st : State) (edl : List UInt64) (a b : Int32) : Prop :=
  ∃ r st', cropParts a b st.session = .ok r ∧ vjEventElCrop a b st = .ok st' ∧
    (r.1 = true → Cropped st' edl a.toInt.toNat b.toInt.toNat) ∧
    (r.1 = false → Unchanged st.session st'.session ∧ SameWindow st.sample st'.sample)

section Crop

variable {st st' : State} {edl : List UInt64} {a b : Int32}

/-- The handler, behind its checks. -/
theorem vjEventElCrop_parts (hplaying : st.samplePlaying = true) (hother : st.otherPlaying = false)
    (husable : sampleUsableEdl st.sample = true) (ha : outOfBounds st.session.el a = false)
    (hb : outOfBounds st.session.el b = false) (hlt : a.toInt < b.toInt) :
    vjEventElCrop a b st = cropParts a b st.session >>= fun r =>
      if r.1 then repair (setFrame 0 (st.withSession r.2)) else .ok (st.withSession r.2) := by
  rw [vjEventElCrop, hplaying, hother, husable, ha, hb, if_neg Bool.false_ne_true, if_neg (by decide),
    if_neg (by decide), if_neg (by decide), if_neg (not_le.mpr hlt), cropParts]
  cases veejayEditDelete st.session 0 a.toInt with
  | error f => rfl
  | ok front =>
    obtain ⟨deleted, s₁⟩ := front
    cases deleted with
    | false => rfl
    | true => rfl

/-- The setters leave the session. -/
theorem repair_session (h : repair st = .ok st') : st'.session = st.session := by
  unfold repair at h
  obtain ⟨last, -, h⟩ := bind_eq_ok.mp h
  obtain rfl := Except.ok.inj h
  rfl

/-- The handler leaves the list of the two deletions. -/
theorem vjEventElCrop_el {r : Bool × Session}
    (h : (if r.1 then repair (setFrame 0 (st.withSession r.2)) else .ok (st.withSession r.2)) = .ok st') :
    st'.session.el = r.2.el := by
  split_ifs at h
  · rw [repair_session h]
    rfl
  · obtain rfl := Except.ok.inj h
    rfl

/-- **What the two deletions leave**: the frames behind the first one of the range, up to the last one; up to the end of
the list, they are all there is, and the second deletion is refused. -/
theorem cropParts_holds (h : Plays st.session edl) (hdummy : st.session.dummyActive = false) (ha : 0 ≤ a.toInt)
    (hlt : a.toInt < b.toInt) (hb : b.toInt < edl.length) :
    ∃ s', cropParts a b st.session = .ok (decide (b.toInt + 1 < edl.length), s') ∧
      HoldsEntries s'.el ((edl.drop (a.toInt.toNat + 1)).take (b.toInt.toNat - a.toInt.toNat)) := by
  obtain ⟨a', ha'⟩ := Int.eq_ofNat_of_zero_le ha
  obtain ⟨b', hb'⟩ := Int.eq_ofNat_of_zero_le (show 0 ≤ b.toInt by omega)
  rw [ha', hb'] at hlt
  rw [hb'] at hb
  have hmax := b.toInt_lt
  rw [cropParts, ha', hb', Int.toNat_natCast, Int.toNat_natCast]
  obtain ⟨s₁, hfront, hleft⟩ := veejayEditDelete_holds h (Nat.zero_le a') (show a' < edl.length by omega) hdummy
  obtain ⟨hplays₁, -, hdummy₁, -⟩ := hleft (by omega)
  have hothers : others edl 0 a' = edl.drop (a' + 1) := rfl
  have hlen : (others edl 0 a').length = edl.length - (a' + 1) := by rw [hothers, List.length_drop]
  have hgap : ((b' : ℤ) - a') = ((b' - a' : ℕ) : ℤ) := by omega
  have htotal₁ := hplays₁.total
  have hlast : s₁.el.totalFrames.toInt64.toInt = ((edl.length - (a' + 1) - 1 : ℕ) : ℤ) := by
    obtain ⟨-, block, hblock, htake⟩ := hplays₁.holds
    have hsize := (take_eq_map_iff.mp htake).1
    have hbound : block.size < 2 ^ 60 := block.bounded
    rw [uint64_toInt64_toInt_of_lt (by omega), htotal₁, hlen]
  rw [show veejayEditDelete st.session 0 (a' : ℤ) = .ok (true, s₁) from hfront, ok_bind, if_pos rfl, hgap, hlast]
  by_cases hend : b' + 1 < edl.length
  · obtain ⟨s₂, hback, hleft₂⟩ := veejayEditDelete_holds hplays₁
      (show b' - a' ≤ edl.length - (a' + 1) - 1 by omega) (by omega) (hdummy₁.trans hdummy)
    have hplays₂ := (hleft₂ (by omega)).plays
    refine ⟨s₂, ?_, ?_⟩
    · rw [hback, decide_eq_true (by omega)]
    · have hrest : (others edl 0 a').drop (edl.length - (a' + 1) - 1 + 1) = [] :=
        List.drop_eq_nil_of_le (by omega)
      have hkept := hplays₂.holds
      rw [others, hrest, List.append_nil, hothers] at hkept
      exact hkept
  · refine ⟨s₁, ?_, ?_⟩
    · rw [decide_eq_false (by omega)]
      refine veejayEditDelete_refused (.inr (.inr fun hrange => ?_))
      have hle := hrange.1
      rw [UInt64.le_iff_toNat_le, uint64_toNat_ofInt_of_nonneg (Int.natCast_nonneg _) (by omega),
        uint64_toNat_ofInt_of_nonneg (Int.natCast_nonneg _) (by omega)] at hle
      omega
    · have hkept := hplays₁.holds
      rw [hothers] at hkept
      rw [List.take_of_length_le (by rw [List.length_drop]; omega)]
      exact hkept

/-- The handler, for a range in the list. -/
theorem vjEventElCrop_inside (hplaying : st.samplePlaying = true) (hother : st.otherPlaying = false)
    (husable : sampleUsableEdl st.sample = true) (ha : 0 ≤ a.toInt) (hlt : a.toInt < b.toInt)
    (hb : b.toInt ≤ st.session.el.totalFrames.toNat) :
    vjEventElCrop a b st = cropParts a b st.session >>= fun r =>
      if r.1 then repair (setFrame 0 (st.withSession r.2)) else .ok (st.withSession r.2) := by
  have hinside : ∀ n : Int32, 0 ≤ n.toInt → n.toInt ≤ st.session.el.totalFrames.toNat →
      outOfBounds st.session.el n = false := by
    intro n hpos hle
    have hmax := n.toInt_lt
    have hnat : (UInt64.ofInt n.toInt).toNat = n.toInt.toNat := uint64_toNat_ofInt_of_nonneg hpos (by omega)
    rw [outOfBounds, decide_eq_false (by omega), Bool.false_or, decide_eq_false_iff_not, UInt64.lt_iff_toNat_lt, hnat]
    omega
  exact vjEventElCrop_parts hplaying hother husable (hinside a ha (by omega)) (hinside b (by omega) hb) hlt

/-- **Where frames can be deleted, the crop does not keep its range**: one frame less than the range has is left, or all
frames up to the first one of the range are gone. -/
theorem not_cropKeeps (hplaying : st.samplePlaying = true) (hother : st.otherPlaying = false)
    (husable : sampleUsableEdl st.sample = true) (h : Plays st.session edl) (hdummy : st.session.dummyActive = false)
    (ha : 0 ≤ a.toInt) (hlt : a.toInt < b.toInt) (hb : b.toInt < edl.length) : ¬ CropKeeps st edl a b := by
  rintro ⟨r, st', hparts, hcrop, hdone, hrefused⟩
  have hholds := h.holds
  have htotal := h.total
  obtain ⟨s', hparts', hleft⟩ := cropParts_holds h hdummy ha hlt hb
  obtain rfl := Except.ok.inj (hparts'.symm.trans hparts)
  rw [vjEventElCrop_inside hplaying hother husable ha hlt (by omega), hparts, ok_bind] at hcrop
  have hel := vjEventElCrop_el hcrop
  by_cases hend : b.toInt + 1 < edl.length
  · have hkept := (hdone (decide_eq_true hend)).holds
    rw [hel] at hkept
    have hlen := congrArg List.length (HoldsEntries.unique hleft hkept)
    rw [List.length_take, List.length_drop, block, List.length_take, List.length_drop] at hlen
    omega
  · have hsame := (hrefused (decide_eq_false hend)).1.el
    rw [hel] at hsame
    rw [show s'.el = st.session.el from hsame] at hleft
    have hlen := congrArg List.length (HoldsEntries.unique hleft hholds)
    rw [List.length_take, List.length_drop] at hlen
    omega

end Crop

/-- **A crop keeps its range, or changes nothing, exactly where no frame can be deleted**: in an empty list, or while
the dummy is active. -/
theorem cropKeeps_iff (st : State) (edl : List UInt64) (a b : Int32) (hplaying : st.samplePlaying = true)
    (hother : st.otherPlaying = false) (husable : sampleUsableEdl st.sample = true)
    (hlist : st.session.el.isEmpty = false →
      HoldsEntries st.session.el edl ∧ st.session.el.totalFrames.toNat = edl.length - 1)
    (ha : 0 ≤ a.toInt) (hlt : a.toInt < b.toInt) (hb : b.toInt ≤ st.session.el.totalFrames.toNat) :
    CropKeeps st edl a b ↔ st.session.el.isEmpty = true ∨ st.session.dummyActive = true := by
  constructor
  · intro hkeeps
    by_contra hnone
    obtain ⟨hempty, hdummy⟩ := not_or.mp hnone
    have hempty := Bool.eq_false_iff.mpr hempty
    obtain ⟨hholds, htotal⟩ := hlist hempty
    exact not_cropKeeps hplaying hother husable ⟨hempty, hholds, htotal⟩ (Bool.eq_false_iff.mpr hdummy) ha hlt
      (by omega) hkeeps
  · intro hnone
    have hfront : veejayEditDelete st.session 0 a.toInt = .ok (false, st.session) :=
      veejayEditDelete_refused (hnone.imp_right Or.inl)
    have hparts : cropParts a b st.session = .ok (false, st.session) := by
      rw [cropParts, hfront]
      rfl
    refine ⟨(false, st.session), st.withSession st.session, hparts, ?_, fun hdone => absurd hdone Bool.false_ne_true,
      fun _ => ⟨Unchanged.refl _, ⟨rfl, rfl, rfl, rfl, rfl⟩⟩⟩
    rw [vjEventElCrop_inside hplaying hother husable ha hlt hb, hparts]
    rfl

/-- Frames 1 to 3 of five are to be left. -/
theorem cropKeeps_middle :
    CropKeeps (playingAll [1, 2, 3, 4, 5]) [1, 2, 3, 4, 5] 1 3 ↔
      (playingAll [1, 2, 3, 4, 5]).session.el.isEmpty = true ∨
        (playingAll [1, 2, 3, 4, 5]).session.dummyActive = true :=
  cropKeeps_iff (playingAll [1, 2, 3, 4, 5]) [1, 2, 3, 4, 5] 1 3 rfl rfl rfl (fun _ => ⟨⟨rfl, _, rfl, rfl⟩, rfl⟩)
    (by decide) (by decide) (by decide)

/-- Frames 1 to 3 of five are to be left, and frame 1 goes; frames 1 to 4 are, and the range is called invalid after
frames 0 and 1 went. -/
theorem crop_loses_first_frame :
    (∃ s', cropParts 1 3 (playingAll [1, 2, 3, 4, 5]).session = .ok (true, s') ∧ HoldsEntries s'.el [3, 4]) ∧
      (∃ s', cropParts 1 4 (playingAll [1, 2, 3, 4, 5]).session = .ok (false, s') ∧ HoldsEntries s'.el [3, 4, 5]) ∧
      ¬ CropKeeps (playingAll [1, 2, 3, 4, 5]) [1, 2, 3, 4, 5] 1 3 := by
  have hplays : Plays (playingAll [1, 2, 3, 4, 5]).session [1, 2, 3, 4, 5] := sessionOver_plays
  exact ⟨@cropParts_holds _ _ 1 3 hplays rfl (by decide) (by decide) (by decide),
    @cropParts_holds _ _ 1 4 hplays rfl (by decide) (by decide) (by decide),
    @not_cropKeeps _ _ 1 3 rfl rfl rfl hplays rfl (by decide) (by decide) (by decide)⟩

end Veejay.SampleEdits
