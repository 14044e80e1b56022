import Veejay.EditList.Cut

/-!
# Edits that fail

A cut is a copy followed by a delete, and a move is a cut followed by a paste.  Each part has checks of its own, made
when the parts before it have taken effect: what they did is not undone.  A copy checks nothing but whether the list is
empty.

* `Unchanged` — the list, the counters, the clipboard and the play window are as before;
* `FailsClean` — a failed command leaves them unchanged, and a copy that succeeds is of a range of the list;
* `LeavesAlone` — the states and arguments for which it does;
* `failsClean_iff` — **exactly these.**
-/

namespace Veejay.Edl

open CLib

/-- The list with its counters, the clipboard and the play window are the same. -/
structure Unchanged (s s' : Session) : Prop where
  el : s'.el = s.el
  saveList : s'.settings.saveList = s.settings.saveList
  saveListLen : s'.settings.saveListLen = s.settings.saveListLen
  minFrameNum : s'.settings.minFrameNum = s.settings.minFrameNum
  maxFrameNum : s'.settings.maxFrameNum = s.settings.maxFrameNum
  currentFrameNum : s'.settings.currentFrameNum = s.settings.currentFrameNum

theorem Unchanged.refl (s : Session) : Unchanged s s := ⟨rfl, rfl, rfl, rfl, rfl, rfl⟩

/-- A command that returns 0 changes nothing. -/
def FailsUnchanged (s : Session) (x : Exec (Bool × Session)) : Prop :=
  ∀ s', x = .ok (false, s') → Unchanged s s'

/-- The range `start .. stop` lies inside the list. -/
def InsideList (s : Session) (start stop : ℤ) : Prop :=
  0 ≤ start ∧ start ≤ stop ∧ stop < s.el.videoFrames.toInt

/-- **The property**: a command that returns 0 changes nothing, and a copy of a range that is not inside the list
returns 0. -/
def FailsClean (mem : Allocator) (s : Session) : EditOp → Prop
  | .copy start stop =>
      FailsUnchanged s (veejayEditCopy mem s start.toInt stop.toInt) ∧
        (InsideList s start.toInt stop.toInt ∨
          Ensures (veejayEditCopy mem s start.toInt stop.toInt) fun r => r.1 = false)
  | .cut start stop => FailsUnchanged s (veejayEditCut mem s start.toInt stop.toInt)
  | .delete start stop => FailsUnchanged s (veejayEditDelete s start.toInt stop.toInt)
  | .paste destination => FailsUnchanged s (veejayEditPaste mem s destination.toInt)
  | .move start stop destination =>
      FailsUnchanged s (veejayEditMove mem s start.toInt stop.toInt destination.toInt)
  | .addmovie _ => True

/-! ## The condition -/

/-- The memory for the clipboard is refused, and there is no clipboard that could get lost. -/
def NothingLost (mem : Allocator) (s : Session) (start stop : ℤ) : Prop :=
  ClipboardRefused mem start stop ∧ s.settings.saveList = none

/-- The clipboard holds what a copy of `start .. stop` puts on it. -/
def SameClip (s : Session) (start stop : ℤ) : Prop :=
  s.settings.saveList.map Block.cells = some (clipCells s.el (UInt64.ofInt start) (UInt64.ofInt stop)) ∧
    s.settings.saveListLen = clipLen (UInt64.ofInt start) (UInt64.ofInt stop)

/-- Deleting `start .. stop` moves no cells from behind the end of the array. -/
def CloseInside (s : Session) (stop : ℤ) : Prop :=
  s.el.videoFrames.toUInt64.toNat ≤ (UInt64.ofInt stop).toNat + 1 ∨
    s.el.videoFrames.toUInt64.toNat ≤ s.el.capacity

/-- The paste of a move is let through and gets its memory: the block that was cut out did not reach to the end of the
list, or was not to be put where it was. -/
def PasteFollows (mem : Allocator) (s : Session) (start stop destination : ℤ) : Prop :=
  ¬ (0 < start ∧ UInt64.ofInt stop = s.el.totalFrames ∧ start ≤ destination ∧ destination ≤ stop) ∧
    (mem.realloc s.el.frameList (s.el.videoFrames.toUInt64 * 8).toNat).isSome = true

/-- **The condition** under which a command that fails changes nothing.  (A copy that leaves the array does not
return.) -/
def LeavesAlone (mem : Allocator) (s : Session) : EditOp → Prop
  | .copy start stop =>
      s.el.isEmpty = true ∨ NothingLost mem s start.toInt stop.toInt ∨
        ¬ ClipboardRefused mem start.toInt stop.toInt ∧ InsideList s start.toInt stop.toInt
  | .cut start stop =>
      s.el.isEmpty = true ∨ NothingLost mem s start.toInt stop.toInt ∨
        ¬ ClipboardRefused mem start.toInt stop.toInt ∧
          (¬ CopyInside s start.toInt stop.toInt ∨ SameClip s start.toInt stop.toInt ∨
            s.dummyActive = false ∧ InRange s start.toInt stop.toInt)
  | .delete _ _ => True
  | .paste destination =>
      s.settings.saveListLen ≠ 0 → s.settings.saveList.isSome = true →
        (s.el.isEmpty = false → 0 ≤ destination.toInt ∧ UInt64.ofInt destination.toInt ≤ s.el.totalFrames) →
          s.el.frameList = none ∨
            (mem.realloc s.el.frameList ((keptFrames s + s.settings.saveListLen) * 8).toNat).isSome = true
  | .move start stop destination =>
      s.el.isEmpty = false → MoveRange s start.toInt stop.toInt destination.toInt →
        NothingLost mem s start.toInt stop.toInt ∨
          ¬ ClipboardRefused mem start.toInt stop.toInt ∧
            (¬ CopyInside s start.toInt stop.toInt ∨
              (s.dummyActive = true ∧ SameClip s start.toInt stop.toInt) ∨
              (s.dummyActive = false ∧
                (CloseInside s stop.toInt → PasteFollows mem s start.toInt stop.toInt destination.toInt)))
  | .addmovie _ => True

/-! ## What is unchanged -/

section Unchanged

variable {s s' : Session}

theorem failsUnchanged_false : FailsUnchanged s (.ok (false, s')) ↔ Unchanged s s' := by
  constructor
  · exact fun h => h s' rfl
  · rintro h t ht
    obtain rfl := (Prod.mk.inj (Except.ok.inj ht)).2
    exact h

theorem failsUnchanged_of_not_false {x : Exec (Bool × Session)} (h : ∀ r, x = .ok r → r.1 = true) :
    FailsUnchanged s x := by
  intro t ht
  exact absurd (h _ ht) Bool.false_ne_true

theorem unchanged_clipboardLost_iff : Unchanged s s.clipboardLost ↔ s.settings.saveList = none :=
  ⟨fun h => h.saveList.symm, fun h => ⟨rfl, h.symm, rfl, rfl, rfl, rfl⟩⟩

theorem unchanged_arrayLost_iff : Unchanged s s.arrayLost ↔ s.el.frameList = none := by
  constructor
  · exact fun h => (congrArg EditList.frameList h.el).symm
  · intro h
    refine ⟨?_, rfl, rfl, rfl, rfl, rfl⟩
    show { s.el with frameList := none } = s.el
    rw [← h]

theorem unchanged_copied_iff {clip : Block UInt64} {start stop : ℤ}
    (hcells : clip.cells = clipCells s.el (UInt64.ofInt start) (UInt64.ofInt stop)) :
    Unchanged s (s.copied (some clip) (clipLen (UInt64.ofInt start) (UInt64.ofInt stop))) ↔ SameClip s start stop := by
  rw [SameClip, ← hcells]
  constructor
  · intro h
    have hsave : some clip = s.settings.saveList := h.saveList
    exact ⟨by rw [← hsave]; rfl, h.saveListLen.symm⟩
  · rintro ⟨hsave, hlen⟩
    obtain ⟨old, hold, hsame⟩ := Option.map_eq_some_iff.mp hsave
    obtain rfl : old = clip := Block.ext hsame
    exact ⟨rfl, hold.symm, hlen.symm, rfl, rfl, rfl⟩

end Unchanged

/-! ## The operations -/

section Operations

variable {mem : Allocator} {s : Session} {start stop destination : ℤ}

theorem copy_failsClean_iff :
    (FailsUnchanged s (veejayEditCopy mem s start stop) ∧
      (InsideList s start stop ∨ Ensures (veejayEditCopy mem s start stop) fun r => r.1 = false)) ↔
    s.el.isEmpty = true ∨ NothingLost mem s start stop ∨
      ¬ ClipboardRefused mem start stop ∧ InsideList s start stop := by
  cases hempty : s.el.isEmpty with
  | true =>
    rw [veejayEditCopy_empty hempty, failsUnchanged_false, ensures_ok]
    exact iff_of_true ⟨Unchanged.refl s, Or.inr rfl⟩ (Or.inl rfl)
  | false =>
    rw [NothingLost]
    by_cases hrefused : ClipboardRefused mem start stop
    · rw [veejayEditCopy_refused hempty hrefused, failsUnchanged_false, unchanged_clipboardLost_iff, ensures_ok]
      simp [hrefused]
    · have htrue : ∀ r, veejayEditCopy mem s start stop = .ok r → r.1 = true := by
        intro r hr
        by_cases hinside : CopyInside s start stop
        · obtain ⟨clip, -, hcopy⟩ := veejayEditCopy_served hempty hrefused hinside
          rw [hcopy] at hr
          obtain rfl := Except.ok.inj hr
          rfl
        · exact absurd hr (veejayEditCopy_faults hempty hrefused hinside r)
      have hnot : ¬ Ensures (veejayEditCopy mem s start stop) fun r => r.1 = false := by
        rintro ⟨r, hr, hfalse⟩
        rw [htrue r hr] at hfalse
        cases hfalse
      simp [failsUnchanged_of_not_false htrue, hrefused, hnot]

theorem delete_failsUnchanged : FailsUnchanged s (veejayEditDelete s start stop) := by
  intro s' h
  rcases veejayEditDelete_cases h with ⟨-, rfl, -⟩ | ⟨hres, -⟩
  · exact Unchanged.refl _
  · cases hres

/-- A delete of cells that is let through does not return 0. -/
theorem delete_accepted_true (hfull : s.el.isEmpty = false) (hdummy : s.dummyActive = false)
    (hrange : InRange s start stop) (r : Bool × Session) (h : veejayEditDelete s start stop = .ok r) : r.1 = true := by
  rw [veejayEditDelete_accepted hfull hdummy hrange] at h
  obtain ⟨loop, -, h⟩ := bind_eq_ok.mp h
  obtain rfl := Except.ok.inj h
  rfl

theorem cut_failsUnchanged_iff :
    FailsUnchanged s (veejayEditCut mem s start stop) ↔
    s.el.isEmpty = true ∨ NothingLost mem s start stop ∨
      ¬ ClipboardRefused mem start stop ∧
        (¬ CopyInside s start stop ∨ SameClip s start stop ∨ s.dummyActive = false ∧ InRange s start stop) := by
  cases hempty : s.el.isEmpty with
  | true =>
    rw [veejayEditCut, if_pos hempty, failsUnchanged_false]
    exact iff_of_true (Unchanged.refl s) (Or.inl rfl)
  | false =>
    rw [NothingLost]
    by_cases hrefused : ClipboardRefused mem start stop
    · rw [veejayEditCut_refused hempty hrefused, failsUnchanged_false, unchanged_clipboardLost_iff]
      simp [hrefused]
    · by_cases hinside : CopyInside s start stop
      · obtain ⟨clip, hcells, hcut⟩ := veejayEditCut_served hempty hrefused hinside
        rw [hcut]
        by_cases haccept : s.dummyActive = false ∧ InRange s start stop
        · have htrue := @delete_accepted_true (s.copied (some clip) (clipLen (UInt64.ofInt start) (UInt64.ofInt stop)))
            start stop hempty haccept.1 haccept.2
          exact iff_of_true (failsUnchanged_of_not_false htrue)
            (Or.inr (Or.inr ⟨hrefused, Or.inr (Or.inr haccept)⟩))
        · have hdelete := @veejayEditDelete_refused
            (s.copied (some clip) (clipLen (UInt64.ofInt start) (UInt64.ofInt stop))) start stop
            (Or.inr ((Decidable.not_and_iff_or_not.mp haccept).imp_left Bool.eq_true_of_not_eq_false))
          rw [hdelete, failsUnchanged_false, unchanged_copied_iff hcells]
          simp [hrefused, hinside, haccept]
      · have hfaults := veejayEditCut_faults hempty hrefused hinside
        exact iff_of_true (fun s' h => absurd h (hfaults _)) (Or.inr (Or.inr ⟨hrefused, Or.inl hinside⟩))

theorem paste_failsUnchanged_iff :
    FailsUnchanged s (veejayEditPaste mem s destination) ↔
    (s.settings.saveListLen ≠ 0 → s.settings.saveList.isSome = true →
      (s.el.isEmpty = false → 0 ≤ destination ∧ UInt64.ofInt destination ≤ s.el.totalFrames) →
        s.el.frameList = none ∨
          (mem.realloc s.el.frameList ((keptFrames s + s.settings.saveListLen) * 8).toNat).isSome = true) := by
  by_cases hclip : s.settings.saveListLen = 0 ∨ s.settings.saveList.isNone = true
  · rw [veejayEditPaste, if_pos hclip, failsUnchanged_false]
    refine iff_of_true (Unchanged.refl s) fun hlen hsave => ?_
    rcases hclip with hzero | hnone
    · exact absurd hzero hlen
    · rw [Option.isNone_iff_eq_none.mp hnone] at hsave
      cases hsave
  · by_cases hrange : s.el.isEmpty = false ∧ (destination < 0 ∨ s.el.totalFrames < UInt64.ofInt destination)
    · rw [veejayEditPaste, if_neg hclip, if_pos hrange, failsUnchanged_false]
      refine iff_of_true (Unchanged.refl s) fun _ _ haccept => ?_
      obtain ⟨hnonneg, hle⟩ := haccept hrange.1
      rcases hrange.2 with hneg | hlt
      · exact absurd hneg (not_lt.mpr hnonneg)
      · exact absurd hlt (UInt64.not_lt.mpr hle)
    · have hlen : s.settings.saveListLen ≠ 0 := (not_or.mp hclip).1
      have hsave : s.settings.saveList.isSome = true := by
        simpa [Option.isNone_iff_eq_none, Option.isSome_iff_ne_none] using (not_or.mp hclip).2
      have haccept : s.el.isEmpty = false → 0 ≤ destination ∧ UInt64.ofInt destination ≤ s.el.totalFrames := by
        intro hfull
        obtain ⟨hneg, hlt⟩ := not_or.mp fun h => hrange ⟨hfull, h⟩
        exact ⟨not_lt.mp hneg, UInt64.not_lt.mp hlt⟩
      rw [veejayEditPaste, if_neg hclip, if_neg hrange]
      cases hresize : mem.realloc s.el.frameList ((keptFrames s + s.settings.saveListLen) * 8).toNat with
      | none =>
        rw [failsUnchanged_false, unchanged_arrayLost_iff]
        exact ⟨fun h _ _ _ => Or.inl h, fun h => (h hlen hsave haccept).resolve_right (by simp)⟩
      | some frameList =>
        refine iff_of_true (failsUnchanged_of_not_false fun r hr => ?_) fun _ _ _ => Or.inr rfl
        exact (pasteInto_ok (show pasteInto s (pasteDest s destination) frameList = .ok (r.1, r.2) from hr)).1

/-! ## Moving -/

/-- The number of frames that a range within the list has. -/
theorem clipLen_toNat (hle : UInt64.ofInt start ≤ UInt64.ofInt stop) (hlt : (UInt64.ofInt stop).toNat < 2 ^ 60) :
    (clipLen (UInt64.ofInt start) (UInt64.ofInt stop)).toNat =
      (UInt64.ofInt stop).toNat + 1 - (UInt64.ofInt start).toNat := by
  rw [clipLen, if_pos hle]
  exact rangeLength_toNat (UInt64.le_iff_toNat_le.mp hle) hlt

/-- A resize that is served for one block is served for every other one. -/
theorem realloc_isSome_congr (mem : Allocator) (p q : Block UInt64) (bytes : ℕ) :
    (mem.realloc (some p) bytes).isSome = (mem.realloc (some q) bytes).isSome := by
  unfold Allocator.realloc
  split_ifs <;> rfl

/-- Whether the paste of a move is let through. -/
theorem destReal_fits_iff {total : UInt64} (hrange : MoveRange s start stop destination)
    (hstop : stop < 2 ^ 60) (hdest : destination < 2 ^ 63)
    (htotal : total = s.el.totalFrames - (UInt64.ofInt stop - UInt64.ofInt start + 1)) :
    (0 ≤ destReal start stop destination ∧ UInt64.ofInt (destReal start stop destination) ≤ total) ↔
      ¬ (0 < start ∧ UInt64.ofInt stop = s.el.totalFrames ∧ start ≤ destination ∧ destination ≤ stop) := by
  obtain ⟨hstart, horder, hdest0, hlt, hle, hdle⟩ := hrange
  have hstartNat := uint64_toNat_ofInt_of_nonneg hstart (by omega)
  have hstopNat := uint64_toNat_ofInt_of_nonneg (hstart.trans horder) (by omega)
  have hdestNat := uint64_toNat_ofInt_of_nonneg hdest0 (by omega)
  rw [UInt64.lt_iff_toNat_lt] at hlt
  rw [UInt64.le_iff_toNat_le] at hle hdle
  have hlen := @rangeLength_toNat (UInt64.ofInt start) (UInt64.ofInt stop) (by omega) (by omega)
  have hT := s.el.totalFrames.toNat_lt
  have htotalNat : total.toNat =
      (s.el.totalFrames.toNat + 2 ^ 64 - ((UInt64.ofInt stop).toNat + 1 - (UInt64.ofInt start).toNat)) % 2 ^ 64 := by
    rw [htotal, UInt64.toNat_sub, hlen]
    congr 1
    omega
  have hreal : 0 ≤ destReal start stop destination := by
    unfold destReal
    split_ifs <;> omega
  have hrealNat := uint64_toNat_ofInt_of_nonneg hreal (by unfold destReal; split_ifs <;> omega)
  have heq : UInt64.ofInt stop = s.el.totalFrames ↔ (UInt64.ofInt stop).toNat = s.el.totalFrames.toNat :=
    UInt64.toNat_inj.symm
  rw [UInt64.le_iff_toNat_le, hrealNat, htotalNat, heq, destReal]
  split_ifs <;> omega

/-- A range that passes the checks of a move passes those of a delete. -/
theorem MoveRange.inRange (h : MoveRange s start stop destination) (hstop : stop < 2 ^ 64) : InRange s start stop := by
  have hstartNat := uint64_toNat_ofInt_of_nonneg h.startNonneg (by have := h.order; omega)
  have hstopNat := uint64_toNat_ofInt_of_nonneg (h.startNonneg.trans h.order) hstop
  refine ⟨?_, h.stop_le⟩
  rw [UInt64.le_iff_toNat_le, hstartNat, hstopNat]
  exact Int.toNat_le_toNat h.order

/-- The paste at the end of a move, in the list that the cut has left: it changes nothing only by not returning 0. -/
theorem move_paste_iff (hfull : s.el.isEmpty = false) (hrange : MoveRange s start stop destination)
    (hstop : stop < 2 ^ 60) (hdest : destination < 2 ^ 63) {clip b b' : Block UInt64} (hb : s.el.frameList = some b) :
    FailsUnchanged s (veejayEditPaste mem ((s.copied (some clip) (clipLen (UInt64.ofInt start) (UInt64.ofInt stop))).deleted
      (UInt64.ofInt start) (UInt64.ofInt stop) (some b')) (destReal start stop destination)) ↔
    PasteFollows mem s start stop destination := by
  have hle := (hrange.inRange (by omega)).1
  have hstopNat := uint64_toNat_ofInt_of_nonneg (hrange.startNonneg.trans hrange.order) (show stop < 2 ^ 64 by omega)
  have hclip := clipLen_toNat hle (by omega)
  have hlen : clipLen (UInt64.ofInt start) (UInt64.ofInt stop) = UInt64.ofInt stop - UInt64.ofInt start + 1 := if_pos hle
  have hpos : 0 < (UInt64.ofInt stop - UInt64.ofInt start + 1).toNat := by
    have := UInt64.le_iff_toNat_le.mp hle
    rw [← hlen, hclip]
    omega
  -- the number of entries is made up for by the clipboard
  have hkept : keptFrames ((s.copied (some clip) (clipLen (UInt64.ofInt start) (UInt64.ofInt stop))).deleted
      (UInt64.ofInt start) (UInt64.ofInt stop) (some b')) + clipLen (UInt64.ofInt start) (UInt64.ofInt stop) =
      s.el.videoFrames.toUInt64 := by
    have hvideo : keptFrames ((s.copied (some clip) (clipLen (UInt64.ofInt start) (UInt64.ofInt stop))).deleted
        (UInt64.ofInt start) (UInt64.ofInt stop) (some b')) =
        s.el.videoFrames.toUInt64 - (UInt64.ofInt stop - UInt64.ofInt start + 1) := by
      rw [keptFrames]
      show (if s.el.isEmpty = true then _ else _) = _
      rw [if_neg (by rw [hfull]; exact Bool.false_ne_true)]
      rfl
    rw [hvideo, hlen, UInt64.sub_add_cancel]
  have hfits := destReal_fits_iff hrange hstop hdest rfl
  generalize hs₂ : (s.copied (some clip) (clipLen (UInt64.ofInt start) (UInt64.ofInt stop))).deleted
      (UInt64.ofInt start) (UInt64.ofInt stop) (some b') = s₂ at hkept ⊢
  have hempty₂ : s₂.el.isEmpty = false := hs₂ ▸ hfull
  have hlen₂ : s₂.settings.saveListLen = UInt64.ofInt stop - UInt64.ofInt start + 1 := hs₂ ▸ hlen
  have hsave₂ : s₂.settings.saveList = some clip := hs₂ ▸ rfl
  have hlist₂ : s₂.el.frameList = some b' := hs₂ ▸ rfl
  have htotal₂ : s₂.el.totalFrames = s.el.totalFrames - (UInt64.ofInt stop - UInt64.ofInt start + 1) := hs₂ ▸ rfl
  have hchanged : ∀ t : Session, t.el.totalFrames = s₂.el.totalFrames → ¬ Unchanged s t := by
    intro t ht hsame
    have heq : s.el.totalFrames - (UInt64.ofInt stop - UInt64.ofInt start + 1) = s.el.totalFrames := by
      rw [← htotal₂, ← ht]
      exact congrArg EditList.totalFrames hsame.el
    have hnat := congrArg UInt64.toNat heq
    have hlt := (UInt64.ofInt stop - UInt64.ofInt start + 1).toNat_lt
    rw [UInt64.toNat_sub] at hnat
    have := s.el.totalFrames.toNat_lt
    omega
  have hnonzero : s₂.settings.saveListLen ≠ 0 := by
    intro h0
    rw [← hlen₂, h0, UInt64.toNat_zero] at hpos
    exact Nat.lt_irrefl 0 hpos
  have hsome : s₂.settings.saveList.isNone = false := by rw [hsave₂]; rfl
  rw [PasteFollows, ← hfits, ← htotal₂]
  by_cases haccept : 0 ≤ destReal start stop destination ∧
      UInt64.ofInt (destReal start stop destination) ≤ s₂.el.totalFrames
  · rw [veejayEditPaste_of_accepted hnonzero hsome fun _ h => ?_]
    · have hbytes : (keptFrames s₂ + s₂.settings.saveListLen) * 8 = s.el.videoFrames.toUInt64 * 8 := by
        rw [hlen₂, ← hlen, hkept]
      rw [hbytes, hlist₂, hb, realloc_isSome_congr mem b b']
      cases hresize : mem.realloc (some b') (s.el.videoFrames.toUInt64 * 8).toNat with
      | none =>
        show FailsUnchanged s (.ok (false, s₂.arrayLost)) ↔ _
        rw [failsUnchanged_false]
        exact iff_of_false (hchanged s₂.arrayLost rfl) fun h => by cases h.2
      | some frameList =>
        refine iff_of_true (failsUnchanged_of_not_false fun r hr => ?_) ⟨haccept, rfl⟩
        exact (pasteInto_ok (show pasteInto s₂ (pasteDest s₂ _) frameList = .ok (r.1, r.2) from hr)).1
    · rcases h with hneg | hlt
      · exact absurd hneg (not_lt.mpr haccept.1)
      · exact absurd hlt (UInt64.not_lt.mpr haccept.2)
  · have hrefused : veejayEditPaste mem s₂ (destReal start stop destination) = .ok (false, s₂) := by
      rw [veejayEditPaste, if_neg (not_or.mpr ⟨hnonzero, by rw [hsome]; exact Bool.false_ne_true⟩), if_pos]
      refine ⟨hempty₂, ?_⟩
      rcases Decidable.not_and_iff_or_not.mp haccept with hneg | hlt
      · exact Or.inl (not_le.mp hneg)
      · exact Or.inr (UInt64.not_le.mp hlt)
    rw [hrefused, failsUnchanged_false]
    exact iff_of_false (hchanged s₂ rfl) fun h => haccept h.1

theorem move_failsUnchanged_iff (hdest : destination < 2 ^ 63) (hstop63 : stop < 2 ^ 63) :
    FailsUnchanged s (veejayEditMove mem s start stop destination) ↔
    (s.el.isEmpty = false → MoveRange s start stop destination →
      NothingLost mem s start stop ∨
        ¬ ClipboardRefused mem start stop ∧
          (¬ CopyInside s start stop ∨ (s.dummyActive = true ∧ SameClip s start stop) ∨
            (s.dummyActive = false ∧ (CloseInside s stop → PasteFollows mem s start stop destination)))) := by
  cases hempty : s.el.isEmpty with
  | true =>
    rw [veejayEditMove, if_pos hempty, failsUnchanged_false]
    exact iff_of_true (Unchanged.refl s) fun h => by cases h
  | false =>
    rw [veejayEditMove, if_neg (by rw [hempty]; exact Bool.false_ne_true)]
    by_cases hrange : MoveRange s start stop destination
    swap
    · have hbad := not_not.mp (mt moveRange_iff.mpr hrange)
      rw [if_pos hbad, failsUnchanged_false]
      exact iff_of_true (Unchanged.refl s) fun _ h => absurd h hrange
    have hin := hrange.inRange (by omega)
    rw [if_neg (moveRange_iff.mp hrange), NothingLost]
    by_cases hrefused : ClipboardRefused mem start stop
    · rw [veejayEditCut_refused hempty hrefused, ok_bind, if_pos rfl, failsUnchanged_false, unchanged_clipboardLost_iff]
      simp [hrefused, hrange]
    by_cases hinside : CopyInside s start stop
    swap
    · have hfaults : ∀ s', ¬ ((do
          let moved ← veejayEditCut mem s start stop
          if moved.1 = false then Except.ok (false, moved.2)
          else
            let pasted ← veejayEditPaste mem moved.2 (destReal start stop destination)
            if pasted.1 = false then Except.ok (false, pasted.2) else Except.ok (true, pasted.2)) =
            Except.ok (false, s')) := by
        intro s' h
        obtain ⟨moved, hmoved, -⟩ := bind_eq_ok.mp h
        exact veejayEditCut_faults hempty hrefused hinside moved hmoved
      exact iff_of_true (fun s' h => absurd h (hfaults s')) fun _ _ => Or.inr ⟨hrefused, Or.inl hinside⟩
    obtain ⟨clip, hcells, hcut⟩ := veejayEditCut_served hempty hrefused hinside
    rw [hcut]
    cases hdummy : s.dummyActive with
    | true =>
      rw [@veejayEditDelete_refused (s.copied (some clip) (clipLen (UInt64.ofInt start) (UInt64.ofInt stop))) start stop
        (Or.inr (Or.inl hdummy)), ok_bind, if_pos rfl, failsUnchanged_false, unchanged_copied_iff hcells]
      simp [hrefused, hrange, hinside]
    | false =>
      have hcap := hinside hin.1
      obtain ⟨b, hb⟩ : ∃ b, s.el.frameList = some b := by
        cases hb : s.el.frameList with
        | some b => exact ⟨b, rfl⟩
        | none =>
          rw [EditList.capacity, hb] at hcap
          exact absurd hcap (Nat.not_lt_zero _)
      rw [EditList.capacity, hb, Option.map_some, Option.getD_some] at hcap
      have hbound : b.size < 2 ^ 60 := b.bounded
      have hstopNat := uint64_toNat_ofInt_of_nonneg (hrange.startNonneg.trans hrange.order) (show stop < 2 ^ 64 by omega)
      have hreturns := @closeGap_returns_iff b (UInt64.ofInt start) (UInt64.ofInt stop) s.el.videoFrames
        (UInt64.le_iff_toNat_le.mp hin.1) hcap
      have hclose : CloseInside s stop ↔
          ∃ loop, closeGap s.el.videoFrames (UInt64.ofInt start) (UInt64.ofInt stop) (some b) = .ok loop := by
        rw [hreturns, CloseInside, EditList.capacity, hb]
        rfl
      rw [@veejayEditDelete_accepted (s.copied (some clip) (clipLen (UInt64.ofInt start) (UInt64.ofInt stop))) start stop
        hempty hdummy hin]
      show FailsUnchanged s ((closeGap s.el.videoFrames _ _ s.el.frameList >>= _) >>= _) ↔ _
      rw [hb]
      cases hloop : closeGap s.el.videoFrames (UInt64.ofInt start) (UInt64.ofInt stop) (some b) with
      | error f =>
        have hno : ¬ CloseInside s stop := by
          rw [hclose, hloop]
          rintro ⟨loop, h⟩
          cases h
        exact iff_of_true (fun s' h => by cases h) fun _ _ =>
          Or.inr ⟨hrefused, Or.inr (Or.inr ⟨rfl, fun h => absurd h hno⟩)⟩
      | ok loop =>
        have hyes : CloseInside s stop := hclose.mpr ⟨loop, hloop⟩
        obtain ⟨-, b', hb', -⟩ := closeGap_ok hcap hloop
        have hpaste := @move_paste_iff mem s start stop destination hempty hrange (by omega) hdest clip b b' hb
        have hsame : ∀ x : Exec (Bool × Session),
            (x >>= fun pasted => if pasted.1 = false then .ok (false, pasted.2) else .ok (true, pasted.2)) = x := by
          intro x
          cases x with
          | error f => rfl
          | ok r =>
            obtain ⟨res, s'⟩ := r
            cases res with
            | false => rfl
            | true => rfl
        rw [ok_bind, ok_bind, if_neg (by simp), hb']
        show FailsUnchanged s (veejayEditPaste mem _ _ >>= _) ↔ _
        rw [hsame, hpaste]
        simp [hrefused, hrange, hinside, hyes]

end Operations

/-- **Exactly when a command that fails changes nothing.** -/
theorem failsClean_iff (mem : Allocator) (s : Session) (op : EditOp) :
    FailsClean mem s op ↔ LeavesAlone mem s op := by
  cases op with
  | copy start stop => exact copy_failsClean_iff
  | cut start stop => exact cut_failsUnchanged_iff
  | delete start stop => exact iff_of_true delete_failsUnchanged trivial
  | paste destination => exact paste_failsUnchanged_iff
  | move start stop destination => exact move_failsUnchanged_iff destination.toInt_lt stop.toInt_lt
  | addmovie movie => exact iff_of_true trivial trivial

/-- The last two of five frames, moved to where they are, are lost: the move returns 0. -/
theorem move_last_frames_lost :
    ¬ FailsClean plentyOfMemory (sessionOver [1, 2, 3, 4, 5] []) (.move 3 4 4) := by
  intro h
  obtain ⟨s', hrun, htotal⟩ : ∃ s', veejayEditMove plentyOfMemory (sessionOver [1, 2, 3, 4, 5] [])
      (Int64.toInt 3) (Int64.toInt 4) (Int64.toInt 4) = .ok (false, s') ∧ s'.el.totalFrames = 2 := ⟨_, rfl, rfl⟩
  have hsame : s'.el.totalFrames = (sessionOver [1, 2, 3, 4, 5] []).el.totalFrames :=
    congrArg EditList.totalFrames (h s' hrun).el
  rw [htotal] at hsame
  exact absurd hsame (by decide)

end Veejay.Edl
