import Veejay.EditList.Cut

/-!
# Cutting, pasting back, and moving

A cut followed by a paste at the same place, and a move, which is a cut followed by a paste elsewhere.  Both go wrong
with the paste: it is refused behind the last entry that is left, and it does not move entry `0` out of the way.

* `veejayEditCut_holds` — what a cut leaves of a list;
* `paste_holds_iff` — when a paste puts the clipboard into a list;
* `CutPasteRestores`, `MovesBlock` — the list is as it was, or has the block in its new place;
* `cutPaste_move_iff` — **when they are.**
-/

namespace Veejay.Edl

open CLib

/-! ## Lists of entries -/

/-- The entries `start .. stop`. -/
def block (edl : List UInt64) (start stop : ℕ) : List UInt64 := (edl.drop start).take (stop + 1 - start)

/-- The entries without those of `start .. stop`. -/
def others (edl : List UInt64) (start stop : ℕ) : List UInt64 := edl.take start ++ edl.drop (stop + 1)

/-- The entries with those of `start .. stop` at place `dest` of the others. -/
def placed (edl : List UInt64) (start stop dest : ℕ) : List UInt64 :=
  (others edl start stop).take dest ++ block edl start stop ++ (others edl start stop).drop dest

/-- The entries `xs` are those of `edl`, with the block `start .. stop` in order at place `dest`, and the other ones in
their order. -/
structure Moved (edl : List UInt64) (start stop dest : ℕ) (xs : List UInt64) : Prop where
  perm : xs.Perm edl
  block : (xs.drop dest).take (stop + 1 - start) = block edl start stop
  others : xs.take dest ++ xs.drop (dest + (stop + 1 - start)) = others edl start stop

section Lists

variable {edl xs : List UInt64} {start stop dest : ℕ}

theorem block_length (horder : start ≤ stop) (hstop : stop < edl.length) :
    (block edl start stop).length = stop + 1 - start := by
  rw [block, List.length_take, List.length_drop]
  omega

theorem others_length (horder : start ≤ stop) (hstop : stop < edl.length) :
    (others edl start stop).length = edl.length - (stop + 1 - start) := by
  rw [others, List.length_append, List.length_take, List.length_drop]
  omega

/-- The block put back where it was. -/
theorem placed_start (horder : start ≤ stop) (hstop : stop < edl.length) : placed edl start stop start = edl := by
  have hlen : (edl.take start).length = start := by
    rw [List.length_take]
    omega
  have hsplit : block edl start stop ++ edl.drop (stop + 1) = edl.drop start := by
    have hnext : stop + 1 = start + (stop + 1 - start) := by omega
    rw [block, hnext, ← List.drop_drop, Nat.add_sub_cancel_left, List.take_append_drop]
  rw [placed, others, List.take_left' hlen, List.drop_left' hlen, List.append_assoc, hsplit, List.take_append_drop]

theorem placed_perm (horder : start ≤ stop) (hstop : stop < edl.length) (dest : ℕ) :
    (placed edl start stop dest).Perm edl := by
  have hback := placed_start horder hstop
  have hfront : ∀ d, (placed edl start stop d).Perm (block edl start stop ++ others edl start stop) := by
    intro d
    rw [placed, List.append_assoc]
    refine List.perm_append_comm_assoc _ _ _ |>.trans ?_
    rw [List.take_append_drop]
  exact (hfront dest).trans ((hfront start).symm.trans (List.Perm.of_eq hback))

/-- **The claim's description of a moved list is the list.** -/
theorem moved_iff (horder : start ≤ stop) (hstop : stop < edl.length)
    (hdest : dest ≤ edl.length - (stop + 1 - start)) : Moved edl start stop dest xs ↔ xs = placed edl start stop dest := by
  have hblock := block_length horder hstop
  have hothers := others_length horder hstop
  have htake : ((others edl start stop).take dest).length = dest := by
    rw [List.length_take]
    omega
  constructor
  · rintro ⟨hperm, hb, ho⟩
    have hlen := hperm.length_eq
    have hfront : (xs.take dest).length = dest := by
      rw [List.length_take]
      omega
    rw [placed, ← ho, List.take_left' hfront, List.drop_left' hfront, ← hb, List.append_assoc]
    rw [← List.drop_drop, List.take_append_drop, List.take_append_drop]
  · rintro rfl
    refine ⟨placed_perm horder hstop dest, ?_, ?_⟩
    · rw [placed, List.append_assoc, List.drop_left' htake, List.take_left' hblock]
    · have hboth : ((others edl start stop).take dest ++ block edl start stop).length = dest + (stop + 1 - start) := by
        rw [List.length_append, htake, hblock]
      rw [placed, List.drop_left' hboth, List.append_assoc, List.take_left' htake, List.take_append_drop]

end Lists

/-! ## The list after a cut -/

/-- The session is about the list `edl`. -/
structure Plays (s : Session) (edl : List UInt64) : Prop where
  notEmpty : s.el.isEmpty = false
  holds : HoldsEntries s.el edl
  total : s.el.totalFrames.toNat = edl.length - 1

/-- The play window after `start .. stop` has been deleted. -/
def windowAfterCut (st : Settings) (start stop : ℕ) : Settings :=
  { st with
    minFrameNum := minAfterDelete (UInt64.ofNat start) (UInt64.ofNat stop) st.minFrameNum
    maxFrameNum := maxAfterDelete (UInt64.ofNat start) (UInt64.ofNat stop) st.maxFrameNum }

/-- The entry in cell `k` of the array after `start .. stop` has been deleted. -/
def cellAfterCut (edl : List UInt64) (start stop k : ℕ) : Option UInt64 :=
  if start ≤ k ∧ k + (stop + 1 - start) < edl.length then edl[k + (stop + 1 - start)]? else edl[k]?

theorem HoldsEntries.unique {el : EditList} {xs ys : List UInt64} (hx : HoldsEntries el xs) (hy : HoldsEntries el ys) :
    xs = ys := by
  obtain ⟨hxlen, b, hb, hxs⟩ := hx
  obtain ⟨hylen, b', hb', hys⟩ := hy
  obtain rfl := Option.some.inj (hb.symm.trans hb')
  have hlen : xs.length = ys.length := by omega
  rw [hlen, hys] at hxs
  exact (List.map_injective_iff.mpr (Option.some_injective _) hxs).symm

section Sessions

variable {mem : Allocator} {s : Session} {edl : List UInt64} {start stop : ℕ}

theorem uint64_ofInt_natCast (n : ℕ) : UInt64.ofInt (n : ℤ) = UInt64.ofNat n := by
  apply UInt64.toNat_inj.mp
  rw [uint64_toNat_ofInt, UInt64.toNat_ofNat']
  omega

/-- What a delete leaves. -/
structure DeletedList (s s' : Session) (edl : List UInt64) (start stop : ℕ) : Prop where
  plays : Plays s' (others edl start stop)
  settings : s'.settings = { windowAfterCut s.settings start stop with
    currentFrameNum := currentAfterDelete (UInt64.ofNat start) (UInt64.ofNat stop) s.settings.currentFrameNum }
  dummy : s'.dummyActive = s.dummyActive
  cell : ∀ k < edl.length, s'.el.entryAt k = cellAfterCut edl start stop k

/-- **A delete of a part of a list.** -/
theorem veejayEditDelete_holds (h : Plays s edl) (horder : start ≤ stop) (hstop : stop < edl.length)
    (hdummy : s.dummyActive = false) :
    ∃ s', veejayEditDelete s start stop = .ok (true, s') ∧
      (stop + 1 - start < edl.length → DeletedList s s' edl start stop) := by
  obtain ⟨hvideo, b, hb, htake⟩ := h.holds
  obtain ⟨hsize, hcellsEdl⟩ := take_eq_map_iff.mp htake
  have htotal := h.total
  have hbound : b.size < 2 ^ 60 := b.bounded
  have hstartNat : (UInt64.ofInt (start : ℤ)).toNat = start := by
    rw [uint64_toNat_ofInt_of_nonneg (Int.natCast_nonneg _) (by omega), Int.toNat_natCast]
  have hstopNat : (UInt64.ofInt (stop : ℤ)).toNat = stop := by
    rw [uint64_toNat_ofInt_of_nonneg (Int.natCast_nonneg _) (by omega), Int.toNat_natCast]
  have hle : UInt64.ofInt (start : ℤ) ≤ UInt64.ofInt (stop : ℤ) := by
    rw [UInt64.le_iff_toNat_le]
    omega
  have hrange : InRange s start stop := by
    refine ⟨hle, ?_⟩
    rw [UInt64.le_iff_toNat_le]
    omega
  have hframes : s.el.videoFrames.toUInt64.toNat = edl.length := by
    rw [int64_toUInt64_toNat]
    omega
  have hlen := rangeLength_toNat (UInt64.le_iff_toNat_le.mp hle) (by omega)
  rw [hstartNat, hstopNat] at hlen
  obtain ⟨loop, hloop, b', hb', hsize', hcells⟩ := @closeGap_ensures b _ _ s.el.videoFrames
    (UInt64.le_iff_toNat_le.mp hle) (by omega) (by omega)
  rw [hstartNat, hstopNat, hframes] at hcells
  have hrun : veejayEditDelete s start stop =
      .ok (true, s.deleted (UInt64.ofInt start) (UInt64.ofInt stop) (some b')) := by
    rw [veejayEditDelete_accepted h.notEmpty hdummy hrange, hb, hloop, ok_bind, hb']
  have hothers := others_length horder hstop
  refine ⟨_, hrun, fun hpart => ⟨⟨h.notEmpty, ⟨?_, b', rfl, take_eq_map_iff.mpr ⟨by omega, fun j hj => ?_⟩⟩, ?_⟩,
    ?_, rfl, fun k hk => ?_⟩⟩
  · show (s.el.videoFrames.toUInt64 - (UInt64.ofInt stop - UInt64.ofInt start + 1)).toInt64.toInt = _
    have hsub : (s.el.videoFrames.toUInt64 - (UInt64.ofInt stop - UInt64.ofInt start + 1)).toNat =
        edl.length - (stop + 1 - start) := by
      rw [uint64_toNat_sub_of_le (by omega), hlen, hframes]
    rw [uint64_toInt64_toInt_of_lt (by omega), hsub, hothers]
  · -- behind the gap, the entries come from further up
    rw [hcells, others]
    by_cases hbehind : start ≤ j
    · rw [if_pos ⟨hbehind, by omega⟩, hcellsEdl _ (by omega), List.getElem?_append_right
        (by rw [List.length_take]; omega), List.getElem?_drop, List.length_take]
      congr 2
      omega
    · rw [if_neg (by omega), hcellsEdl j (by omega), List.getElem?_append_left (by rw [List.length_take]; omega),
        List.getElem?_take_of_lt (by omega)]
  · show (s.el.totalFrames - (UInt64.ofInt stop - UInt64.ofInt start + 1)).toNat = _
    rw [uint64_toNat_sub_of_le (by omega), hlen, hothers]
    omega
  · rw [← uint64_ofInt_natCast, ← uint64_ofInt_natCast, windowAfterCut, ← uint64_ofInt_natCast, ← uint64_ofInt_natCast]
    rfl
  · show (b'.cells[k]?).join = _
    rw [hcells, cellAfterCut]
    split_ifs with hbehind
    · rw [hcellsEdl _ hbehind.2]
      cases edl[k + (stop + 1 - start)]? <;> rfl
    · rw [hcellsEdl k hk]
      cases edl[k]? <;> rfl

/-- What a cut leaves. -/
structure CutList (s s' : Session) (edl : List UInt64) (start stop : ℕ) : Prop where
  plays : Plays s' (others edl start stop)
  clipboard : Clipboard s'.settings (block edl start stop)
  minFrameNum : s'.settings.minFrameNum = (windowAfterCut s.settings start stop).minFrameNum
  maxFrameNum : s'.settings.maxFrameNum = (windowAfterCut s.settings start stop).maxFrameNum
  cell : ∀ k < edl.length, s'.el.entryAt k = cellAfterCut edl start stop k

/-- **A cut of a part of a list** that gets its memory. -/
theorem veejayEditCut_holds (h : Plays s edl) (horder : start ≤ stop) (hstop : stop < edl.length)
    (hpart : stop + 1 - start < edl.length) (hserved : ¬ ClipboardRefused mem start stop)
    (hdummy : s.dummyActive = false) :
    ∃ s', veejayEditCut mem s start stop = .ok (true, s') ∧ CutList s s' edl start stop := by
  obtain ⟨hvideo, b, hb, htake⟩ := h.holds
  obtain ⟨hsize, hcellsEdl⟩ := take_eq_map_iff.mp htake
  have hbound : b.size < 2 ^ 60 := b.bounded
  have hstartNat : (UInt64.ofInt (start : ℤ)).toNat = start := by
    rw [uint64_toNat_ofInt_of_nonneg (Int.natCast_nonneg _) (by omega), Int.toNat_natCast]
  have hstopNat : (UInt64.ofInt (stop : ℤ)).toNat = stop := by
    rw [uint64_toNat_ofInt_of_nonneg (Int.natCast_nonneg _) (by omega), Int.toNat_natCast]
  have hle : UInt64.ofInt (start : ℤ) ≤ UInt64.ofInt (stop : ℤ) := by
    rw [UInt64.le_iff_toNat_le]
    omega
  have hinside : CopyInside s start stop := by
    intro _
    rw [EditList.capacity, hb, Option.map_some, Option.getD_some, hstopNat]
    omega
  have hlen := rangeLength_toNat (UInt64.le_iff_toNat_le.mp hle) (by omega)
  rw [hstartNat, hstopNat] at hlen
  obtain ⟨clip, hclip, hcut⟩ := veejayEditCut_served h.notEmpty hserved hinside
  -- the list is not touched by the copy
  have hplays : Plays (s.copied (some clip) (clipLen (UInt64.ofInt start) (UInt64.ofInt stop))) edl :=
    ⟨h.notEmpty, h.holds, h.total⟩
  obtain ⟨s', hdelete, hleaves⟩ := veejayEditDelete_holds hplays horder hstop hdummy
  obtain ⟨hplays', hsettings, -, hcell⟩ := hleaves hpart
  have hblock := block_length horder hstop
  have hrun : veejayEditCut mem s start stop = .ok (true, s') := by
    rw [hcut, hdelete]
  refine ⟨s', hrun, ⟨hplays', ?_, ?_, ?_, hcell⟩⟩
  · rw [hsettings]
    refine ⟨?_, clip, rfl, ?_⟩
    · show (clipLen (UInt64.ofInt start) (UInt64.ofInt stop)).toNat = _
      rw [clipLen, if_pos hle, hlen, hblock]
    · have hcellsB : s.el.cells = b.cells := cells_of_some hb
      rw [hclip, clipCells, if_pos hle, hcellsB, hstartNat, hstopNat, List.take_take, hblock, Nat.min_self, block,
        List.map_take, List.map_drop, ← htake, List.drop_take, List.take_take]
      congr 1
      omega
  · rw [hsettings]
    rfl
  · rw [hsettings]
    rfl

/-! ## The list after a paste -/

/-- The paste of a clipboard into a list that it fits. -/
theorem paste_holds_iff {save : List UInt64} {dest : ℕ} (h : Plays s edl) (hsave : Clipboard s.settings save)
    (hpos : 1 ≤ save.length) (hdest : dest < edl.length) :
    (Ensures (veejayEditPaste mem s dest) fun r => HoldsEntries r.2.el (edl.take dest ++ save ++ edl.drop dest)) ↔
      mem.Serves (edl.length + save.length) ∧ Insertable s dest edl save := by
  obtain ⟨hframes, old, hold, htake⟩ := h.holds
  have htotal := h.total
  have hlen := hsave.1
  obtain ⟨clip, hclip, hclipSize, -⟩ := hsave.block
  have hclipBound : clip.size < 2 ^ 60 := clip.bounded
  have holdBound : old.size < 2 ^ 60 := old.bounded
  have holdSize := (take_eq_map_iff.mp htake).1
  have hdestNat : (UInt64.ofInt (dest : ℤ)).toNat = dest := by
    rw [uint64_toNat_ofInt_of_nonneg (Int.natCast_nonneg _) (by omega), Int.toNat_natCast]
  have hnonzero : s.settings.saveListLen ≠ 0 := by
    intro h0
    rw [h0, UInt64.toNat_zero] at hlen
    omega
  have hbytes : ((keptFrames s + s.settings.saveListLen) * 8).toNat = (edl.length + save.length) * 8 := by
    rw [keptFrames, if_neg (by rw [h.notEmpty]; exact Bool.false_ne_true), UInt64.toNat_mul, UInt64.toNat_add,
      int64_toUInt64_toNat, hframes, hlen]
    show (((edl.length : ℤ) % 2 ^ 64).toNat + save.length) % 2 ^ 64 * 8 % 2 ^ 64 = _
    omega
  have haccept : ¬((dest : ℤ) < 0 ∨ s.el.totalFrames < UInt64.ofInt dest) := by
    rw [UInt64.lt_iff_toNat_lt, hdestNat]
    omega
  rw [veejayEditPaste_of_accepted hnonzero (by rw [hclip]; rfl) fun _ => haccept, hbytes]
  by_cases hserve : mem.Serves (edl.length + save.length)
  · obtain ⟨b, hb, hcells⟩ := Allocator.realloc_of_serves (p := s.el.frameList) (by omega) hserve
    rw [hold] at hcells
    have hdest' : (pasteDest s dest).toNat = dest := by
      rw [pasteDest, if_neg (by rw [h.notEmpty]; exact Bool.false_ne_true), hdestNat]
    have hpaste := pasteInto_iff hdest' h.notEmpty hsave hpos hframes hold htake (by omega) htotal (by omega) hcells
    rw [hb, and_iff_right hserve, ← hpaste]
    constructor
    · exact fun hr => hr.mono fun r hr _ => by rwa [Spliced, if_neg (by rw [h.notEmpty]; exact Bool.false_ne_true)]
    · rintro ⟨r, hr, hspliced⟩
      have hholds := hspliced (pasteInto_ok (show pasteInto s (pasteDest s dest) b = .ok (r.1, r.2) from hr)).1
      rw [Spliced, if_neg (by rw [h.notEmpty]; exact Bool.false_ne_true)] at hholds
      exact ⟨r, hr, hholds⟩
  · rw [Allocator.realloc_of_refused (by omega) hserve]
    refine iff_of_false ?_ fun hno => hserve hno.1
    rintro ⟨r, hr, -, b, hb, -⟩
    obtain rfl := Except.ok.inj hr
    cases hb

/-- A paste behind the last entry is refused. -/
theorem paste_behind {dest : ℤ} (hfull : s.el.isEmpty = false) (hdest : 0 ≤ dest) (hlt : dest < 2 ^ 63)
    (hbehind : (s.el.totalFrames.toNat : ℤ) < dest) : veejayEditPaste mem s dest = .ok (false, s) := by
  rw [veejayEditPaste]
  split_ifs with hclip hrange
  · rfl
  · rfl
  · refine absurd ⟨hfull, Or.inr ?_⟩ hrange
    rw [UInt64.lt_iff_toNat_lt, uint64_toNat_ofInt_of_nonneg hdest (by omega)]
    omega

end Sessions

/-! ## The claims about cut, paste and move -/

/-- A cut that succeeds, followed by a paste where the entries were cut out, restores the list. -/
def CutPasteRestores (mem : Allocator) (s : Session) (edl : List UInt64) (start stop : ℕ) : Prop :=
  Ensures (veejayEditCut mem s start stop) fun r =>
    r.1 = true → Ensures (veejayEditPaste mem r.2 start) fun q => HoldsEntries q.2.el edl

/-- The place of a moved block among the other entries. -/
def adjusted (start stop dest : ℕ) : ℕ := if dest < start then dest else dest - (stop + 1 - start)

/-- A move leaves the entries with the block in its new place. -/
def MovesBlock (mem : Allocator) (s : Session) (edl : List UInt64) (start stop dest : ℕ) : Prop :=
  Ensures (veejayEditMove mem s start stop dest) fun r =>
    ∃ xs, HoldsEntries r.2.el xs ∧ Moved edl start stop (adjusted start stop dest) xs

/-- The paste of a block that has been cut out puts it at place `dest` of the others: it gets its memory, the play window
stays in its type, and at the front of the list the cell above the block happens to hold the entry that the paste does
not move there. -/
def PutsBack (mem : Allocator) (s : Session) (edl : List UInt64) (start stop dest : ℕ) : Prop :=
  mem.Serves edl.length ∧ WindowRoom (windowAfterCut s.settings start stop) dest (stop + 1 - start) ∧
    (dest ≠ 0 ∨ cellAfterCut edl start stop (stop + 1 - start) = (others edl start stop)[0]?)

/-- The cut is refused: for want of memory, or because the dummy video is playing. -/
def CutRefused (mem : Allocator) (s : Session) (start stop : ℕ) : Prop :=
  ClipboardRefused mem start stop ∨ s.dummyActive = true

/-- A move is refused with its cut, or because it begins with the last entry. -/
def MoveRefused (mem : Allocator) (s : Session) (edl : List UInt64) (start stop : ℕ) : Prop :=
  CutRefused mem s start stop ∨ start + 1 = edl.length

/-- The condition for a cut and a paste. -/
def CutPasteOk (mem : Allocator) (s : Session) (edl : List UInt64) (start stop : ℕ) : Prop :=
  CutRefused mem s start stop ∨ stop + 1 < edl.length ∧ PutsBack mem s edl start stop start

/-- The condition for a move: one that is refused leaves the list as it is. -/
def MoveOk (mem : Allocator) (s : Session) (edl : List UInt64) (start stop dest : ℕ) : Prop :=
  (MoveRefused mem s edl start stop → edl = placed edl start stop (adjusted start stop dest)) ∧
    (¬ MoveRefused mem s edl start stop → PutsBack mem s edl start stop (adjusted start stop dest))

section Claims

variable {mem : Allocator} {s s' : Session} {edl : List UInt64} {start stop dest : ℕ}

/-- The paste behind a cut, with the condition in terms of the list before. -/
theorem CutList.paste_iff (h : CutList s s' edl start stop) (horder : start ≤ stop) (hstop : stop < edl.length)
    (hdest : dest < (others edl start stop).length) :
    (Ensures (veejayEditPaste mem s' dest) fun r => HoldsEntries r.2.el (placed edl start stop dest)) ↔
      PutsBack mem s edl start stop dest := by
  have hblock := block_length horder hstop
  have hothers := others_length horder hstop
  have hsum : (others edl start stop).length + (block edl start stop).length = edl.length := by omega
  have hroom : WindowRoom s'.settings dest (stop + 1 - start) ↔
      WindowRoom (windowAfterCut s.settings start stop) dest (stop + 1 - start) := by
    rw [WindowRoom, WindowRoom, h.minFrameNum, h.maxFrameNum]
  rw [placed, paste_holds_iff h.plays h.clipboard (by omega) hdest, hsum, Insertable,
    if_neg (by rw [h.plays.notEmpty]; exact Bool.false_ne_true), hblock, hroom, h.cell _ (by omega), PutsBack]

theorem CutRefused.cut (h : Plays s edl) (hstop : stop < edl.length)
    (hrefused : CutRefused mem s start stop) :
    ∃ s', veejayEditCut mem s start stop = .ok (false, s') ∧ s'.el = s.el := by
  by_cases hclip : ClipboardRefused mem start stop
  · exact ⟨_, veejayEditCut_refused h.notEmpty hclip, rfl⟩
  · obtain ⟨-, b, hb, htake⟩ := h.holds
    have hsize := (take_eq_map_iff.mp htake).1
    have hbound : b.size < 2 ^ 60 := b.bounded
    have hinside : CopyInside s start stop := by
      intro _
      rw [EditList.capacity, hb, Option.map_some, Option.getD_some,
        uint64_toNat_ofInt_of_nonneg (Int.natCast_nonneg _) (by omega), Int.toNat_natCast]
      omega
    obtain ⟨clip, -, hcut⟩ := veejayEditCut_served h.notEmpty hclip hinside
    refine ⟨_, hcut.trans (veejayEditDelete_refused (Or.inr (Or.inl ?_))), rfl⟩
    exact hrefused.resolve_left hclip

theorem cutPasteRestores_iff (h : Plays s edl) (horder : start ≤ stop) (hstop : stop < edl.length)
    (hpart : stop + 1 - start < edl.length) :
    CutPasteRestores mem s edl start stop ↔ CutPasteOk mem s edl start stop := by
  rw [CutPasteRestores, CutPasteOk]
  by_cases hrefused : CutRefused mem s start stop
  · obtain ⟨s', hcut, -⟩ := hrefused.cut h hstop
    rw [hcut, ensures_ok]
    exact iff_of_true (fun hfalse => by cases hfalse) (Or.inl hrefused)
  · obtain ⟨hserved, hactive⟩ := not_or.mp hrefused
    obtain ⟨s', hcut, hlist⟩ := veejayEditCut_holds h horder hstop hpart hserved (by simpa using hactive)
    have hothers := others_length horder hstop
    rw [hcut, ensures_ok, or_iff_right hrefused]
    by_cases hlast : stop + 1 < edl.length
    · rw [and_iff_right hlast, ← hlist.paste_iff horder hstop (by omega), placed_start horder hstop]
      exact ⟨fun hr => hr rfl, fun hr _ => hr⟩
    · -- the place of the block is behind the last entry that is left
      obtain ⟨-, b, hb, htake⟩ := h.holds
      have hsize := (take_eq_map_iff.mp htake).1
      have hbound : b.size < 2 ^ 60 := b.bounded
      have htotal := hlist.plays.total
      rw [paste_behind hlist.plays.notEmpty (Int.natCast_nonneg _) (by omega) (by omega), ensures_ok]
      refine iff_of_false (fun hr => ?_) fun hno => hlast hno.1
      have hsame := congrArg List.length (hlist.plays.holds.unique (hr rfl))
      omega

theorem movesBlock_iff (h : Plays s edl) (horder : start ≤ stop) (hstop : stop < edl.length)
    (hdest : dest < edl.length) (houtside : dest < start ∨ stop < dest) :
    MovesBlock mem s edl start stop dest ↔ MoveOk mem s edl start stop dest := by
  obtain ⟨-, b, hb, htake⟩ := h.holds
  have hsize := (take_eq_map_iff.mp htake).1
  have hbound : b.size < 2 ^ 60 := b.bounded
  have hothers := others_length horder hstop
  have htotal := h.total
  have hnat : ∀ k < edl.length, (UInt64.ofInt (k : ℤ)).toNat = k := fun k hk => by
    rw [uint64_toNat_ofInt_of_nonneg (Int.natCast_nonneg _) (by omega), Int.toNat_natCast]
  have hplace : adjusted start stop dest ≤ edl.length - (stop + 1 - start) := by
    unfold adjusted
    split_ifs <;> omega
  have hreal : destReal start stop dest = (adjusted start stop dest : ℕ) := by
    unfold destReal adjusted
    split_ifs <;> omega
  -- a move that leaves the entries as they are
  have hsame : ∀ s', s'.el = s.el → veejayEditMove mem s start stop dest = .ok (false, s') →
      (MovesBlock mem s edl start stop dest ↔ edl = placed edl start stop (adjusted start stop dest)) := by
    intro s' hel hmove
    rw [MovesBlock, hmove, ensures_ok, hel]
    constructor
    · rintro ⟨xs, hxs, hmoved⟩
      obtain rfl := h.holds.unique hxs
      exact (moved_iff horder hstop hplace).mp hmoved
    · exact fun heq => ⟨edl, h.holds, (moved_iff horder hstop hplace).mpr heq⟩
  have hempty : ¬ s.el.isEmpty = true := by
    rw [h.notEmpty]
    exact Bool.false_ne_true
  by_cases hlast : start + 1 = edl.length
  · -- the check of `start` refuses the last entry
    have hbad : ¬ MoveRange s start stop dest := by
      intro hrange
      have hlt := UInt64.lt_iff_toNat_lt.mp hrange.start_lt
      rw [hnat start (by omega)] at hlt
      omega
    have hmove : veejayEditMove mem s start stop dest = .ok (false, s) := by
      rw [veejayEditMove, if_neg hempty, if_pos (not_not.mp (mt moveRange_iff.mpr hbad))]
    rw [hsame s rfl hmove, MoveOk]
    exact ⟨fun heq => ⟨fun _ => heq, fun hno => absurd (Or.inr hlast) hno⟩, fun hok => hok.1 (Or.inr hlast)⟩
  · have hrange : MoveRange s start stop dest := by
      refine ⟨Int.natCast_nonneg _, by exact_mod_cast horder, Int.natCast_nonneg _, ?_, ?_, ?_⟩
      · rw [UInt64.lt_iff_toNat_lt, hnat start (by omega)]
        omega
      · rw [UInt64.le_iff_toNat_le, hnat stop hstop]
        omega
      · rw [UInt64.le_iff_toNat_le, hnat dest hdest]
        omega
    by_cases hrefused : CutRefused mem s start stop
    · obtain ⟨s', hcut, hel⟩ := hrefused.cut h hstop
      have hmove : veejayEditMove mem s start stop dest = .ok (false, s') := by
        rw [veejayEditMove, if_neg hempty, if_neg (moveRange_iff.mp hrange), hcut, ok_bind, if_pos rfl]
      rw [hsame s' hel hmove, MoveOk]
      exact ⟨fun heq => ⟨fun _ => heq, fun hno => absurd (Or.inl hrefused) hno⟩, fun hok => hok.1 (Or.inl hrefused)⟩
    · obtain ⟨hserved, hactive⟩ := not_or.mp hrefused
      obtain ⟨s', hcut, hlist⟩ := veejayEditCut_holds h horder hstop (by omega) hserved (by simpa using hactive)
      have hnot : ¬ MoveRefused mem s edl start stop := not_or.mpr ⟨hrefused, hlast⟩
      have hmove : veejayEditMove mem s start stop dest =
          veejayEditPaste mem s' (adjusted start stop dest : ℕ) >>= fun pasted =>
            if pasted.1 = false then .ok (false, pasted.2) else .ok (true, pasted.2) := by
        rw [veejayEditMove, if_neg hempty, if_neg (moveRange_iff.mp hrange), hcut, ok_bind, if_neg (by simp), hreal]
      have hfits : adjusted start stop dest < (others edl start stop).length := by
        unfold adjusted
        split_ifs <;> omega
      have hok : MoveOk mem s edl start stop dest ↔ PutsBack mem s edl start stop (adjusted start stop dest) :=
        ⟨fun hok => hok.2 hnot, fun hputs => ⟨fun hyes => absurd hyes hnot, fun _ => hputs⟩⟩
      rw [hok, ← hlist.paste_iff horder hstop hfits, MovesBlock, hmove, ensures_bind]
      constructor
      · intro hr
        refine hr.mono fun r hr => ?_
        obtain ⟨xs, hxs, hmoved⟩ : ∃ xs, HoldsEntries r.2.el xs ∧ Moved edl start stop (adjusted start stop dest) xs := by
          split_ifs at hr <;> simpa using hr
        rwa [(moved_iff horder hstop hplace).mp hmoved] at hxs
      · intro hr
        refine hr.mono fun r hr => ?_
        have hmoved := (moved_iff horder hstop hplace).mpr (Eq.refl (placed edl start stop (adjusted start stop dest)))
        split_ifs
        · exact (ensures_ok _ _).mpr ⟨_, hr, hmoved⟩
        · exact (ensures_ok _ _).mpr ⟨_, hr, hmoved⟩

end Claims

theorem sessionOver_plays : Plays (sessionOver [1, 2, 3, 4, 5] []) [1, 2, 3, 4, 5] :=
  ⟨rfl, ⟨rfl, _, rfl, rfl⟩, rfl⟩

end Veejay.Edl
