import Veejay.EditList.Edit

/-!
# What each edit command can do

One inversion lemma for every operation: the ways in which it can have returned, with the guards that
let it through and the session it leaves.  Later results read an operation back through these lemmas
and never unfold it.
-/

namespace Veejay.Edl

open CLib

/-- The range of a copy, cut or delete that passes the checks of `veejay_edit_delete`. -/
def InRange (s : Session) (start stop : ℤ) : Prop :=
  UInt64.ofInt start ≤ UInt64.ofInt stop ∧ UInt64.ofInt stop ≤ s.el.totalFrames

instance (s : Session) (start stop : ℤ) : Decidable (InRange s start stop) :=
  inferInstanceAs (Decidable (_ ∧ _))

theorem inRange_iff {s : Session} {start stop : ℤ} :
    InRange s start stop ↔
      ¬(UInt64.ofInt stop < UInt64.ofInt start ∨ s.el.totalFrames < UInt64.ofInt start ∨
        s.el.totalFrames < UInt64.ofInt stop) := by
  simp only [InRange, UInt64.le_iff_toNat_le, UInt64.lt_iff_toNat_lt]
  omega

/-- A copy is refused, loses the clipboard for want of memory, or replaces the clipboard. -/
theorem veejayEditCopy_cases {mem : Allocator} {s s' : Session} {start stop : ℤ} {res : Bool}
    (h : veejayEditCopy mem s start stop = .ok (res, s')) :
    (res = false ∧ (s' = s ∨ s' = s.clipboardLost)) ∨
    (res = true ∧ s.el.isEmpty = false ∧ ∃ clip loop,
      mem.calloc 0 ((UInt64.ofInt stop - UInt64.ofInt start + 1) * 8).toNat = some clip ∧
      copyFrames s.el.frameList (UInt64.ofInt start) (UInt64.ofInt stop) clip = .ok loop ∧
      s' = s.copied loop.saveList loop.k) := by
  unfold veejayEditCopy at h
  cases hempty : s.el.isEmpty with
  | true =>
    rw [if_pos hempty] at h
    obtain ⟨rfl, rfl⟩ := Prod.mk.inj (Except.ok.inj h)
    exact Or.inl ⟨rfl, Or.inl rfl⟩
  | false =>
    rw [if_neg (by simp [hempty])] at h
    cases hclip : mem.calloc (0 : UInt64) ((UInt64.ofInt stop - UInt64.ofInt start + 1) * 8).toNat with
    | none =>
      simp only [hclip] at h
      obtain ⟨rfl, rfl⟩ := Prod.mk.inj (Except.ok.inj h)
      exact Or.inl ⟨rfl, Or.inr rfl⟩
    | some clip =>
      simp only [hclip] at h
      obtain ⟨loop, hloop, hrest⟩ := bind_eq_ok.mp h
      obtain ⟨rfl, rfl⟩ := Prod.mk.inj (Except.ok.inj hrest)
      exact Or.inr ⟨rfl, rfl, clip, loop, rfl, hloop, rfl⟩

/-- A delete is refused, or closes the gap. -/
theorem veejayEditDelete_cases {s s' : Session} {start stop : ℤ} {res : Bool}
    (h : veejayEditDelete s start stop = .ok (res, s')) :
    (res = false ∧ s' = s ∧
      (s.el.isEmpty = true ∨ s.dummyActive = true ∨ ¬InRange s start stop)) ∨
    (res = true ∧ s.el.isEmpty = false ∧ s.dummyActive = false ∧ InRange s start stop ∧
      ∃ loop, closeGap s.el.videoFrames (UInt64.ofInt start) (UInt64.ofInt stop) s.el.frameList =
          .ok loop ∧
        s' = s.deleted (UInt64.ofInt start) (UInt64.ofInt stop) loop.frameList) := by
  unfold veejayEditDelete at h
  dsimp only at h
  split_ifs at h with hempty hdummy hrange
  · obtain ⟨rfl, rfl⟩ := Prod.mk.inj (Except.ok.inj h)
    exact Or.inl ⟨rfl, rfl, Or.inl hempty⟩
  · obtain ⟨rfl, rfl⟩ := Prod.mk.inj (Except.ok.inj h)
    exact Or.inl ⟨rfl, rfl, Or.inr (Or.inl hdummy)⟩
  · obtain ⟨rfl, rfl⟩ := Prod.mk.inj (Except.ok.inj h)
    exact Or.inl ⟨rfl, rfl, Or.inr (Or.inr fun hin => inRange_iff.mp hin hrange)⟩
  · obtain ⟨loop, hloop, hrest⟩ := bind_eq_ok.mp h
    obtain ⟨rfl, rfl⟩ := Prod.mk.inj (Except.ok.inj hrest)
    exact Or.inr ⟨rfl, by simpa using hempty, by simpa using hdummy, inRange_iff.mpr hrange, loop,
      hloop, rfl⟩

/-- A cut that succeeds is a copy and then a delete. -/
theorem veejayEditCut_eq_true {mem : Allocator} {s s' : Session} {start stop : ℤ}
    (h : veejayEditCut mem s start stop = .ok (true, s')) :
    ∃ s₁, veejayEditCopy mem s start stop = .ok (true, s₁) ∧
      veejayEditDelete s₁ start stop = .ok (true, s') := by
  unfold veejayEditCut at h
  split_ifs at h with hempty
  · cases h
  · obtain ⟨⟨copied, s₁⟩, hcopy, hrest⟩ := bind_eq_ok.mp h
    cases copied with
    | false => cases hrest
    | true =>
      obtain ⟨⟨deleted, s₂⟩, hdelete, hrest⟩ := bind_eq_ok.mp hrest
      cases deleted with
      | false => cases hrest
      | true =>
        obtain rfl : s₂ = s' := (Prod.mk.inj (Except.ok.inj hrest)).2
        exact ⟨s₁, hcopy, hdelete⟩

/-- A paste is refused, loses the array for want of memory, or writes into the resized array. -/
theorem veejayEditPaste_cases {mem : Allocator} {s s' : Session} {destination : ℤ} {res : Bool}
    (h : veejayEditPaste mem s destination = .ok (res, s')) :
    (res = false ∧ (s' = s ∨ s' = s.arrayLost)) ∨
    (s.settings.saveListLen ≠ 0 ∧
      (s.el.isEmpty = false → 0 ≤ destination ∧ UInt64.ofInt destination ≤ s.el.totalFrames) ∧
      ∃ frameList, pasteInto s (pasteDest s destination) frameList = .ok (res, s')) := by
  unfold veejayEditPaste at h
  split_ifs at h with hclip hrange
  · obtain ⟨rfl, rfl⟩ := Prod.mk.inj (Except.ok.inj h)
    exact Or.inl ⟨rfl, Or.inl rfl⟩
  · obtain ⟨rfl, rfl⟩ := Prod.mk.inj (Except.ok.inj h)
    exact Or.inl ⟨rfl, Or.inl rfl⟩
  · split at h
    · obtain ⟨rfl, rfl⟩ := Prod.mk.inj (Except.ok.inj h)
      exact Or.inl ⟨rfl, Or.inr rfl⟩
    · rename_i frameList _
      refine Or.inr ⟨(not_or.mp hclip).1, fun hfull => ?_, frameList, h⟩
      have hbounds := not_or.mp fun h => hrange ⟨hfull, h⟩
      exact ⟨not_lt.mp hbounds.1, UInt64.not_lt.mp hbounds.2⟩

/-- A move that succeeds is a cut and then a paste, of a range within the list. -/
theorem veejayEditMove_eq_true {mem : Allocator} {s s' : Session} {start stop destination : ℤ}
    (h : veejayEditMove mem s start stop destination = .ok (true, s')) :
    s.el.isEmpty = false ∧ 0 ≤ start ∧ start ≤ stop ∧ 0 ≤ destination ∧
      UInt64.ofInt stop ≤ s.el.totalFrames ∧ UInt64.ofInt destination ≤ s.el.totalFrames ∧
    ∃ s₁, veejayEditCut mem s start stop = .ok (true, s₁) ∧
      veejayEditPaste mem s₁ (destReal start stop destination) = .ok (true, s') := by
  unfold veejayEditMove at h
  split_ifs at h with hempty hrange
  · cases h
  · cases h
  · obtain ⟨⟨moved, s₁⟩, hcut, hrest⟩ := bind_eq_ok.mp h
    simp only [not_or, not_lt, UInt64.not_lt] at hrange
    obtain ⟨hdest, hdest', hstart, hstop, -, hstop', hle⟩ := hrange
    refine ⟨by simpa using hempty, hstart, hle, hdest', hstop', hdest, s₁, ?_⟩
    cases moved with
    | false => cases hrest
    | true =>
      obtain ⟨⟨pasted, s₂⟩, hpaste, hrest⟩ := bind_eq_ok.mp hrest
      cases pasted with
      | false => cases hrest
      | true =>
        obtain rfl : s₂ = s' := (Prod.mk.inj (Except.ok.inj hrest)).2
        exact ⟨hcut, hpaste⟩

/-- Adding a movie fails to open it, loses the list for want of memory, or appends the frames of the
file it has opened. -/
theorem veejayEditAddmovie_cases {mem : Allocator} {lib : MediaLib} {s s' : Session} {movie : CStr}
    {res : Bool} (h : veejayEditAddmovie mem lib s movie = .ok (res, s')) :
    ∃ fd el, openVideoFile lib s.flags movie s.el = .ok (fd, el) ∧
      ((fd < 0 ∧ res = false ∧ s' = { s with el }) ∨
      (0 ≤ fd ∧ res = false ∧ s' = { s with el := vjElFree el }) ∨
      (0 ≤ fd ∧ res = true ∧ ∃ loop, s' = s.appended el loop)) := by
  unfold veejayEditAddmovie at h
  obtain ⟨⟨fd, el⟩, hopen, hrest⟩ := bind_eq_ok.mp h
  refine ⟨fd, el, hopen, ?_⟩
  dsimp only at hrest
  split_ifs at hrest with hfd
  · obtain ⟨rfl, rfl⟩ := Prod.mk.inj (Except.ok.inj hrest)
    exact Or.inl ⟨hfd, rfl, rfl⟩
  · obtain ⟨cells, -, hrest⟩ := bind_eq_ok.mp hrest
    split at hrest
    · obtain ⟨rfl, rfl⟩ := Prod.mk.inj (Except.ok.inj hrest)
      exact Or.inr (Or.inl ⟨not_lt.mp hfd, rfl, rfl⟩)
    · obtain ⟨loop, -, hrest⟩ := bind_eq_ok.mp hrest
      obtain ⟨rfl, rfl⟩ := Prod.mk.inj (Except.ok.inj hrest)
      exact Or.inr (Or.inr ⟨not_lt.mp hfd, rfl, loop, rfl⟩)

end Veejay.Edl
