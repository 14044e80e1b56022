import Veejay.EditList.Invariant
import Veejay.EditList.Window

/-!
# What a copy and a cut leave

A copy reads the cells of its range and puts them on a clipboard of its own; it neither looks at the length of the list
nor at the order of its arguments.  A cut deletes the range afterwards.

* `clipCells`, `clipLen` — the clipboard that a copy leaves;
* `veejayEditCopy_served`, `veejayEditCopy_faults` — the copy, where it gets its memory;
* `closeGap_ok`, `closeGap_returns_iff` — when the loop of a delete stays within the array;
* `veejayEditCut_served`, `veejayEditCut_faults` — the cut.
-/

namespace Veejay.Edl

open CLib

/-! ## Copying -/

/-- The cells of the array. -/
def EditList.cells (el : EditList) : List (Option UInt64) := (el.frameList.map Block.cells).getD []

/-- The bytes that are asked for to hold `n1 .. n2`. -/
def clipBytes (n1 n2 : UInt64) : ℕ := ((n2 - n1 + 1) * 8).toNat

/-- The cells of the clipboard after `n1 .. n2` has been copied. -/
def clipCells (el : EditList) (n1 n2 : UInt64) : List (Option UInt64) :=
  if n1 ≤ n2 then (el.cells.drop n1.toNat).take (n2.toNat + 1 - n1.toNat)
  else List.replicate (clipBytes n1 n2 / 8) (some 0)

/-- The length of the clipboard after `n1 .. n2` has been copied. -/
def clipLen (n1 n2 : UInt64) : UInt64 := if n1 ≤ n2 then n2 - n1 + 1 else 0

/-- What is known inside the loop of a copy: the cells below `k` have been copied. -/
structure Copying (b clip : Block UInt64) (n1 n2 : UInt64) (s : CopyLoop) : Prop where
  i_eq : s.i.toNat = n1.toNat + s.k.toNat
  i_le : s.i.toNat ≤ n2.toNat + 1
  read : s.i.toNat ≤ n1.toNat ∨ s.i.toNat ≤ b.size
  block : ∃ b', s.saveList = some b' ∧ b'.size = clip.size ∧ s.k.toNat ≤ clip.size ∧
    ∀ j < s.k.toNat, b'.cells[j]? = b.cells[n1.toNat + j]?

theorem copyStep_copying {b clip : Block UInt64} {n1 n2 : UInt64} {s s' : CopyLoop} (h : Copying b clip n1 n2 s)
    (hcond : s.i.toNat ≤ n2.toNat) (hstep : copyStep (some b) s = .ok s') : Copying b clip n1 n2 s' := by
  obtain ⟨hi, -, -, b₁, hb₁, hsize₁, -, hcells₁⟩ := h
  rw [copyStep, hb₁] at hstep
  obtain ⟨entry, hload, hstep⟩ := bind_eq_ok.mp hstep
  obtain ⟨saveList, hstore, hstep⟩ := bind_eq_ok.mp hstep
  obtain rfl := Except.ok.inj hstep
  obtain ⟨b₂, hb₂, hib, hentry⟩ := Block.loadAt_eq_ok hload
  obtain rfl := Option.some.inj hb₂
  obtain ⟨b₃, b₄, hb₃, rfl, hk, hcells₄⟩ := Block.storeAt_eq_ok hstore
  obtain rfl := Option.some.inj hb₃
  have hbound : b.size < 2 ^ 60 := b.bounded
  have hbound₁ : b₁.size < 2 ^ 60 := b₁.bounded
  have hi1 : (s.i + 1).toNat = s.i.toNat + 1 := uint64_toNat_add_of_lt (by rw [UInt64.toNat_one]; omega)
  have hk1 : (s.k + 1).toNat = s.k.toNat + 1 := uint64_toNat_add_of_lt (by rw [UInt64.toNat_one]; omega)
  have hsize₄ : b₄.size = b₁.size := by rw [Block.size, Block.size, hcells₄, List.length_set]
  refine ⟨?_, ?_, Or.inr ?_, b₄, rfl, hsize₄.trans hsize₁, ?_, fun j hj => ?_⟩ <;> dsimp only at *
  · omega
  · omega
  · omega
  · omega
  · rw [hcells₄, List.getElem?_set]
    by_cases hlast : s.k.toNat = j
    · rw [if_pos hlast, if_pos (show s.k.toNat < b₁.cells.length from hk), ← hentry, hi, hlast]
    · rw [if_neg hlast]
      exact hcells₁ j (by omega)

/-- **A copy that has returned** has read its range and put it on the clipboard. -/
theorem copyFrames_ok {frameList : Option (Block UInt64)} {n1 n2 : UInt64} {clip : Block UInt64} {loop : CopyLoop}
    (h : copyFrames frameList n1 n2 clip = .ok loop) (hle : n1 ≤ n2) :
    ∃ b b', frameList = some b ∧ n2.toNat < b.size ∧ loop.k.toNat = n2.toNat + 1 - n1.toNat ∧
      loop.saveList = some b' ∧ b'.size = clip.size ∧ loop.k.toNat ≤ clip.size ∧
        ∀ j < loop.k.toNat, b'.cells[j]? = b.cells[n1.toNat + j]? := by
  have hnat := UInt64.le_iff_toNat_le.mp hle
  obtain ⟨b, rfl⟩ : ∃ b, frameList = some b := by
    obtain ⟨s', hfirst⟩ := whileLoop_first h (decide_eq_true hle)
    rw [copyStep] at hfirst
    obtain ⟨entry, hload, -⟩ := bind_eq_ok.mp hfirst
    obtain ⟨b, hb, -⟩ := Block.loadAt_eq_ok hload
    exact ⟨b, hb⟩
  have hstart : Copying b clip n1 n2 ⟨n1, 0, some clip⟩ :=
    ⟨by simp, by dsimp only; omega, Or.inl (Nat.le_refl _), clip, rfl, rfl, Nat.zero_le _,
      fun j hj => absurd hj (Nat.not_lt_zero j)⟩
  obtain ⟨⟨hi, hile, hread, b', hb', hsize, hk, hcells⟩, hexit⟩ := whileLoop_ok (Copying b clip n1 n2)
    (fun s s' hs hcond hstep => copyStep_copying hs (UInt64.le_iff_toNat_le.mp (of_decide_eq_true hcond)) hstep) h hstart
  rw [decide_eq_false_iff_not, UInt64.le_iff_toNat_le] at hexit
  exact ⟨b, b', rfl, by omega, by omega, hb', hsize, hk, hcells⟩

/-- The loop does not run where the range is reversed. -/
theorem copyFrames_reversed (frameList : Option (Block UInt64)) {n1 n2 : UInt64} (clip : Block UInt64)
    (h : ¬ n1 ≤ n2) : copyFrames frameList n1 n2 clip = .ok ⟨n1, 0, some clip⟩ := by
  refine whileLoop_of_false ?_ _
  exact decide_eq_false h

section Copy

variable {mem : Allocator} {s : Session} {start stop : ℤ}

theorem clipBytes_of_inside (hle : UInt64.ofInt start ≤ UInt64.ofInt stop)
    (hinside : (UInt64.ofInt stop).toNat < 2 ^ 60) :
    clipBytes (UInt64.ofInt start) (UInt64.ofInt stop) =
      ((UInt64.ofInt stop).toNat + 1 - (UInt64.ofInt start).toNat) * 8 := by
  have hlen := rangeLength_toNat (UInt64.le_iff_toNat_le.mp hle) hinside
  rw [clipBytes, UInt64.toNat_mul, hlen]
  show _ * 8 % 2 ^ 64 = _
  omega

theorem veejayEditCopy_empty (h : s.el.isEmpty = true) : veejayEditCopy mem s start stop = .ok (false, s) :=
  if_pos h

theorem veejayEditCopy_refused (hfull : s.el.isEmpty = false) (h : ClipboardRefused mem start stop) :
    veejayEditCopy mem s start stop = .ok (false, s.clipboardLost) := by
  rw [ClipboardRefused] at h
  rw [veejayEditCopy, if_neg (by rw [hfull]; exact Bool.false_ne_true)]
  dsimp only
  rw [h]

/-- A block for the clipboard is cleared. -/
theorem clip_of_served (h : ¬ ClipboardRefused mem start stop) :
    ∃ clip : Block UInt64, mem.calloc (0 : UInt64) (clipBytes (UInt64.ofInt start) (UInt64.ofInt stop)) = some clip ∧
      clip.cells = List.replicate (clipBytes (UInt64.ofInt start) (UInt64.ofInt stop) / 8) (some 0) := by
  obtain ⟨clip, hclip⟩ := Option.ne_none_iff_exists'.mp h
  refine ⟨clip, hclip, ?_⟩
  rw [Allocator.calloc] at hclip
  split_ifs at hclip
  exact congrArg Block.cells (Option.some.inj hclip).symm

theorem veejayEditCopy_of_clip (hfull : s.el.isEmpty = false) {clip : Block UInt64}
    (hclip : mem.calloc (0 : UInt64) (clipBytes (UInt64.ofInt start) (UInt64.ofInt stop)) = some clip) :
    veejayEditCopy mem s start stop =
      copyFrames s.el.frameList (UInt64.ofInt start) (UInt64.ofInt stop) clip >>= fun loop =>
        .ok (true, s.copied loop.saveList loop.k) := by
  rw [clipBytes] at hclip
  rw [veejayEditCopy, if_neg (by rw [hfull]; exact Bool.false_ne_true)]
  dsimp only
  rw [hclip]

theorem cells_of_some {el : EditList} {b : Block UInt64} (h : el.frameList = some b) : el.cells = b.cells := by
  rw [EditList.cells, h]
  rfl

/-- **A copy that gets its memory**, of cells of the array. -/
theorem veejayEditCopy_served (hfull : s.el.isEmpty = false) (hserved : ¬ ClipboardRefused mem start stop)
    (hinside : CopyInside s start stop) :
    ∃ clip : Block UInt64, clip.cells = clipCells s.el (UInt64.ofInt start) (UInt64.ofInt stop) ∧
      veejayEditCopy mem s start stop =
        .ok (true, s.copied (some clip) (clipLen (UInt64.ofInt start) (UInt64.ofInt stop))) := by
  obtain ⟨clip, hclip, hzero⟩ := clip_of_served hserved
  rw [veejayEditCopy_of_clip hfull hclip, clipCells, clipLen]
  by_cases hle : UInt64.ofInt start ≤ UInt64.ofInt stop
  · have hnat := UInt64.le_iff_toNat_le.mp hle
    have hcap := hinside hle
    obtain ⟨b, hb⟩ : ∃ b, s.el.frameList = some b := by
      cases hb : s.el.frameList with
      | some b => exact ⟨b, rfl⟩
      | none =>
        rw [EditList.capacity, hb] at hcap
        exact absurd hcap (Nat.not_lt_zero _)
    rw [EditList.capacity, hb, Option.map_some, Option.getD_some] at hcap
    have hbound : b.size < 2 ^ 60 := b.bounded
    have hsize : clip.size = (UInt64.ofInt stop).toNat + 1 - (UInt64.ofInt start).toNat := by
      rw [Block.size, hzero, List.length_replicate, clipBytes_of_inside hle (by omega)]
      omega
    obtain ⟨loop, hloop, -⟩ := @copyFrames_ensures b clip _ _ (fun _ => hcap) fun _ => hsize
    obtain ⟨b₁, b', hb₁, -, hk, hsave, hsize', -, hcells⟩ := copyFrames_ok hloop hle
    obtain rfl := Option.some.inj hb₁
    have hlen : loop.k = UInt64.ofInt stop - UInt64.ofInt start + 1 :=
      UInt64.toNat_inj.mp (by rw [hk, rangeLength_toNat hnat (by omega)])
    refine ⟨b', ?_, ?_⟩
    · rw [if_pos hle, cells_of_some hb]
      refine List.ext_getElem? fun j => ?_
      rw [List.getElem?_take, List.getElem?_drop]
      by_cases hj : j < (UInt64.ofInt stop).toNat + 1 - (UInt64.ofInt start).toNat
      · rw [if_pos hj]
        exact hcells j (by omega)
      · rw [if_neg hj, List.getElem?_eq_none]
        show b'.size ≤ j
        omega
    · rw [hb, hloop, ok_bind, hsave, hlen, if_pos hle]
  · refine ⟨clip, ?_, ?_⟩
    · rw [if_neg hle, hzero]
    · rw [copyFrames_reversed _ _ hle, ok_bind, if_neg hle]

/-- A copy of a range that leaves the array. -/
theorem veejayEditCopy_faults (hfull : s.el.isEmpty = false) (hserved : ¬ ClipboardRefused mem start stop)
    (houtside : ¬ CopyInside s start stop) (r : Bool × Session) : veejayEditCopy mem s start stop ≠ .ok r := by
  intro h
  obtain ⟨clip, hclip, -⟩ := clip_of_served hserved
  rw [veejayEditCopy_of_clip hfull hclip] at h
  obtain ⟨loop, hloop, -⟩ := bind_eq_ok.mp h
  refine houtside fun hle => ?_
  obtain ⟨b, -, hb, hlast, -⟩ := copyFrames_ok hloop hle
  rw [EditList.capacity, hb]
  exact hlast

end Copy

/-! ## Closing the gap -/

/-- **A delete that has returned** has moved cells of the array only. -/
theorem closeGap_ok {b : Block UInt64} {n1 n2 : UInt64} {videoFrames : Int64} {loop : MoveLoop} (hlast : n2.toNat < b.size)
    (h : closeGap videoFrames n1 n2 (some b) = .ok loop) :
    (videoFrames.toUInt64.toNat ≤ n2.toNat + 1 ∨ videoFrames.toUInt64.toNat ≤ b.size) ∧
      ∃ b', loop.frameList = some b' ∧ b'.size = b.size := by
  have hbound : b.size < 2 ^ 60 := b.bounded
  have hnext : (n2 + 1).toNat = n2.toNat + 1 := uint64_toNat_add_of_lt (by rw [UInt64.toNat_one]; omega)
  -- every cell below `i` has been read
  have hreads : ∀ s s' : MoveLoop,
      ((s.i.toNat ≤ n2.toNat + 1 ∨ s.i.toNat ≤ b.size) ∧ ∃ b', s.frameList = some b' ∧ b'.size = b.size) →
      decide (s.i < videoFrames.toUInt64) = true → closeStep n1 n2 s = .ok s' →
      (s'.i.toNat ≤ n2.toNat + 1 ∨ s'.i.toNat ≤ b.size) ∧ ∃ b', s'.frameList = some b' ∧ b'.size = b.size := by
    rintro s s' ⟨-, b₁, hb₁, hsize₁⟩ - hstep
    rw [closeStep, hb₁] at hstep
    obtain ⟨entry, hload, hstep⟩ := bind_eq_ok.mp hstep
    obtain ⟨frameList, hstore, hstep⟩ := bind_eq_ok.mp hstep
    obtain rfl := Except.ok.inj hstep
    obtain ⟨b₂, hb₂, hib, -⟩ := Block.loadAt_eq_ok hload
    obtain rfl := Option.some.inj hb₂
    obtain ⟨b₃, b₄, hb₃, rfl, -, hcells₄⟩ := Block.storeAt_eq_ok hstore
    obtain rfl := Option.some.inj hb₃
    have hi1 : (s.i + 1).toNat = s.i.toNat + 1 := uint64_toNat_add_of_lt (by rw [UInt64.toNat_one]; omega)
    refine ⟨Or.inr (by dsimp only; omega), b₄, rfl, ?_⟩
    rw [Block.size, hcells₄, List.length_set]
    exact hsize₁
  obtain ⟨⟨hread, hblock⟩, hexit⟩ := whileLoop_ok _ hreads h ⟨Or.inl hnext.le, b, rfl, rfl⟩
  rw [decide_eq_false_iff_not, UInt64.lt_iff_toNat_lt] at hexit
  exact ⟨by omega, hblock⟩

/-- The loop of a delete returns exactly where it has nothing to move, or moves cells of the array. -/
theorem closeGap_returns_iff {b : Block UInt64} {n1 n2 : UInt64} {videoFrames : Int64} (hle : n1.toNat ≤ n2.toNat)
    (hlast : n2.toNat < b.size) :
    (∃ loop, closeGap videoFrames n1 n2 (some b) = .ok loop) ↔
      videoFrames.toUInt64.toNat ≤ n2.toNat + 1 ∨ videoFrames.toUInt64.toNat ≤ b.size := by
  have hbound : b.size < 2 ^ 60 := b.bounded
  have hnext : (n2 + 1).toNat = n2.toNat + 1 := uint64_toNat_add_of_lt (by rw [UInt64.toNat_one]; omega)
  constructor
  · rintro ⟨loop, hloop⟩
    exact (closeGap_ok hlast hloop).1
  · intro h
    by_cases hnone : videoFrames.toUInt64.toNat ≤ n2.toNat + 1
    · refine ⟨⟨n2 + 1, some b⟩, whileLoop_of_false ?_ _⟩
      rw [decide_eq_false_iff_not, UInt64.lt_iff_toNat_lt, hnext]
      exact Nat.not_lt.mpr hnone
    · obtain ⟨loop, hloop, -⟩ := @closeGap_ensures b n1 n2 videoFrames hle (by omega) (h.resolve_left hnone)
      exact ⟨loop, hloop⟩

/-! ## Deleting and cutting -/

section Cut

variable {mem : Allocator} {s : Session} {start stop : ℤ}

theorem veejayEditDelete_refused (h : s.el.isEmpty = true ∨ s.dummyActive = true ∨ ¬ InRange s start stop) :
    veejayEditDelete s start stop = .ok (false, s) := by
  rw [veejayEditDelete]
  dsimp only
  split_ifs with hempty hdummy hrange
  · rfl
  · rfl
  · rfl
  · exact absurd (inRange_iff.mpr hrange) ((h.resolve_left hempty).resolve_left hdummy)

/-- A delete that is let through closes the gap. -/
theorem veejayEditDelete_accepted (hfull : s.el.isEmpty = false) (hdummy : s.dummyActive = false)
    (hrange : InRange s start stop) :
    veejayEditDelete s start stop =
      closeGap s.el.videoFrames (UInt64.ofInt start) (UInt64.ofInt stop) s.el.frameList >>= fun loop =>
        .ok (true, s.deleted (UInt64.ofInt start) (UInt64.ofInt stop) loop.frameList) := by
  rw [veejayEditDelete, if_neg (by rw [hfull]; exact Bool.false_ne_true),
    if_neg (by rw [hdummy]; exact Bool.false_ne_true)]
  exact if_neg (inRange_iff.mp hrange)

theorem veejayEditCut_refused (hfull : s.el.isEmpty = false) (h : ClipboardRefused mem start stop) :
    veejayEditCut mem s start stop = .ok (false, s.clipboardLost) := by
  rw [veejayEditCut, if_neg (by rw [hfull]; exact Bool.false_ne_true), veejayEditCopy_refused hfull h, ok_bind,
    if_pos rfl]

theorem veejayEditCut_faults (hfull : s.el.isEmpty = false) (hserved : ¬ ClipboardRefused mem start stop)
    (houtside : ¬ CopyInside s start stop) (r : Bool × Session) : veejayEditCut mem s start stop ≠ .ok r := by
  intro h
  rw [veejayEditCut, if_neg (by rw [hfull]; exact Bool.false_ne_true)] at h
  obtain ⟨copied, hcopied, -⟩ := bind_eq_ok.mp h
  exact veejayEditCopy_faults hfull hserved houtside copied hcopied

/-- **A cut whose copy goes through** is a delete with the new clipboard. -/
theorem veejayEditCut_served (hfull : s.el.isEmpty = false) (hserved : ¬ ClipboardRefused mem start stop)
    (hinside : CopyInside s start stop) :
    ∃ clip : Block UInt64, clip.cells = clipCells s.el (UInt64.ofInt start) (UInt64.ofInt stop) ∧
      veejayEditCut mem s start stop =
        veejayEditDelete (s.copied (some clip) (clipLen (UInt64.ofInt start) (UInt64.ofInt stop))) start stop := by
  obtain ⟨clip, hcells, hcopy⟩ := veejayEditCopy_served hfull hserved hinside
  refine ⟨clip, hcells, ?_⟩
  rw [veejayEditCut, if_neg (by rw [hfull]; exact Bool.false_ne_true), hcopy, ok_bind, if_neg (by simp)]
  cases veejayEditDelete (s.copied (some clip) (clipLen (UInt64.ofInt start) (UInt64.ofInt stop))) start stop with
  | error f => rfl
  | ok r =>
    obtain ⟨res, s'⟩ := r
    cases res with
    | false => rfl
    | true => rfl

/-- The checks of a move. -/
theorem moveRange_iff {destination : ℤ} :
    MoveRange s start stop destination ↔
      ¬ (s.el.totalFrames < UInt64.ofInt destination ∨ destination < 0 ∨ start < 0 ∨ stop < 0 ∨
        s.el.totalFrames ≤ UInt64.ofInt start ∨ s.el.totalFrames < UInt64.ofInt stop ∨ stop < start) := by
  simp only [not_or, not_lt, UInt64.not_lt, UInt64.not_le]
  constructor
  · exact fun h => ⟨h.dest_le, h.destNonneg, h.startNonneg, h.startNonneg.trans h.order, h.start_lt, h.stop_le, h.order⟩
  · exact fun ⟨hdest, hdest0, hstart, _, hlt, hle, horder⟩ => ⟨hstart, horder, hdest0, hlt, hle, hdest⟩

end Cut

end Veejay.Edl
