import Veejay.EditList.Cases
import Veejay.EditList.Opening

/-!
# The representation invariant over a run of edit commands

`total_frames` is `video_frames - 1` and every entry up to it is valid: true of a list that has just
been opened, and kept by every command that neither reads beyond the array nor changes the number of
entries by any other way than deleting a part of the list.  A paste adds the length of the clipboard to
`video_frames` and one less to `total_frames`, adding a movie does not touch `total_frames` at all, and
deleting the whole list wraps it around.

* `copyFrames_ensures`, `closeGap_ensures` — what the loops of a copy and of a delete do;
* `StepOk` — the condition on a command, read in the session it is issued in;
* `editRun_repInv` — **every run of such commands keeps the invariant.**
-/

namespace Veejay.Edl

open CLib

/-- The length of the range `n1 .. n2`. -/
theorem rangeLength_toNat {n1 n2 : UInt64} (hle : n1.toNat ≤ n2.toNat) (hlt : n2.toNat < 2 ^ 60) :
    (n2 - n1 + 1).toNat = n2.toNat + 1 - n1.toNat := by
  have hsub : (n2 - n1).toNat = n2.toNat - n1.toNat := uint64_toNat_sub_of_le hle
  rw [uint64_toNat_add_of_lt (by rw [hsub, UInt64.toNat_one]; omega), hsub, UInt64.toNat_one]
  omega

/-! ## Copying -/

/-- The number of cells of the array. -/
def EditList.capacity (el : EditList) : ℕ := (el.frameList.map Block.size).getD 0

/-- After the entries below `i` have been copied. -/
def CopyInv (n1 : UInt64) (size : ℕ) (s : CopyLoop) : Prop :=
  n1.toNat ≤ s.i.toNat ∧ s.k.toNat = s.i.toNat - n1.toNat ∧
    ∃ b, s.saveList = some b ∧ b.size = size

/-- **A copy within the array** fills a clipboard of the right size. -/
theorem copyFrames_ensures {b clip : Block UInt64} {n1 n2 : UInt64}
    (hread : n1 ≤ n2 → n2.toNat < b.size) (hclip : n1 ≤ n2 → clip.size = n2.toNat + 1 - n1.toNat) :
    Ensures (copyFrames (some b) n1 n2 clip) fun _ => True := by
  have hbound : b.size < 2 ^ 60 := b.bounded
  have hstart : CopyInv n1 clip.size ⟨n1, 0, some clip⟩ := by
    refine ⟨le_rfl, ?_, clip, rfl, rfl⟩
    rw [UInt64.toNat_zero, Nat.sub_self]
  refine (whileLoop_ensures (CopyInv n1 clip.size) (fun s => n2.toNat + 1 - s.i.toNat) ?_ _ _ hstart
    le_rfl).mono fun _ _ => trivial
  rintro s ⟨hlo, hk, b', hb', hsize⟩ hcond
  rw [decide_eq_true_eq, UInt64.le_iff_toNat_le] at hcond
  have hle : n1 ≤ n2 := UInt64.le_iff_toNat_le.mpr (by omega)
  have hroom := hread hle
  have hfit := hclip hle
  obtain ⟨entry, b'', hload, hstore, hsize', -⟩ :=
    Block.copy_cell (show s.i.toNat < b.size by omega) (show s.k.toNat < b'.size by omega)
  have hi1 : (s.i + 1).toNat = s.i.toNat + 1 :=
    uint64_toNat_add_of_lt (by rw [UInt64.toNat_one]; omega)
  have hk1 : (s.k + 1).toNat = s.k.toNat + 1 :=
    uint64_toNat_add_of_lt (by rw [UInt64.toNat_one]; omega)
  rw [copyStep, hload, ok_bind, hb', hstore, ok_bind, ensures_ok]
  refine ⟨⟨?_, ?_, b'', rfl, hsize'.trans hsize⟩, ?_⟩ <;> dsimp only <;> omega

/-! ## Deleting -/

/-- After the entries below `i` have been moved down over the gap. -/
def CloseInv (b : Block UInt64) (n1 n2 : UInt64) (videoFrames : ℕ) (s : MoveLoop) : Prop :=
  n2.toNat < s.i.toNat ∧ s.i.toNat ≤ videoFrames ∧
    ∃ b', s.frameList = some b' ∧ b'.size = b.size ∧ ∀ j, b'.cells[j]? =
      if n1.toNat ≤ j ∧ j + (n2.toNat + 1 - n1.toNat) < s.i.toNat then
        b.cells[j + (n2.toNat + 1 - n1.toNat)]?
      else b.cells[j]?

theorem closeStep_ensures {b : Block UInt64} {n1 n2 : UInt64} {videoFrames : ℕ} {s : MoveLoop}
    (hrange : n1.toNat ≤ n2.toNat) (hsize : videoFrames ≤ b.size)
    (hs : CloseInv b n1 n2 videoFrames s) (hcond : s.i.toNat < videoFrames) :
    Ensures (closeStep n1 n2 s) fun s' => CloseInv b n1 n2 videoFrames s' ∧
      videoFrames - s'.i.toNat < videoFrames - s.i.toNat := by
  obtain ⟨hlo, hhi, b', hb', hsize', hcells⟩ := hs
  have hbound : b.size < 2 ^ 60 := b.bounded
  have hlen := rangeLength_toNat hrange (by omega)
  have hdst : (s.i - (n2 - n1 + 1)).toNat = s.i.toNat - (n2.toNat + 1 - n1.toNat) := by
    rw [uint64_toNat_sub_of_le (by omega), hlen]
  have hi1 : (s.i + 1).toNat = s.i.toNat + 1 :=
    uint64_toNat_add_of_lt (by rw [UInt64.toNat_one]; omega)
  have hread : b'.cells[s.i.toNat]? = b.cells[s.i.toNat]? := by
    rw [hcells, if_neg (by omega)]
  obtain ⟨entry, b'', hload, hstore, hsize'', hcells'⟩ :=
    Block.copy_cell (show s.i.toNat < b'.size by omega)
      (show (s.i - (n2 - n1 + 1)).toNat < b'.size by omega)
  rw [closeStep, hb', hload, ok_bind, hstore, ok_bind, ensures_ok]
  refine ⟨⟨?_, ?_, b'', rfl, hsize''.trans hsize', fun j => ?_⟩, ?_⟩ <;> dsimp only
  · omega
  · omega
  · rw [hcells', hread, hdst, hi1]
    by_cases hj : j = s.i.toNat - (n2.toNat + 1 - n1.toNat)
    · rw [if_pos hj, if_pos (by omega), show j + (n2.toNat + 1 - n1.toNat) = s.i.toNat by omega]
    · rw [if_neg hj, hcells j]
      congr 1
      simp only [eq_iff_iff]
      omega
  · omega

/-- **The gap is closed**: every entry behind it is moved down by its length. -/
theorem closeGap_ensures {b : Block UInt64} {n1 n2 : UInt64} {videoFrames : Int64}
    (hrange : n1.toNat ≤ n2.toNat) (hlast : n2.toNat < videoFrames.toUInt64.toNat)
    (hsize : videoFrames.toUInt64.toNat ≤ b.size) :
    Ensures (closeGap videoFrames n1 n2 (some b)) fun s =>
      ∃ b', s.frameList = some b' ∧ b'.size = b.size ∧ ∀ j, b'.cells[j]? =
        if n1.toNat ≤ j ∧ j + (n2.toNat + 1 - n1.toNat) < videoFrames.toUInt64.toNat then
          b.cells[j + (n2.toNat + 1 - n1.toNat)]?
        else b.cells[j]? := by
  have hbound : b.size < 2 ^ 60 := b.bounded
  have hnext : (n2 + 1).toNat = n2.toNat + 1 :=
    uint64_toNat_add_of_lt (by rw [UInt64.toNat_one]; omega)
  have hstart : CloseInv b n1 n2 videoFrames.toUInt64.toNat ⟨n2 + 1, some b⟩ := by
    refine ⟨?_, ?_, b, rfl, rfl, fun j => ?_⟩ <;> dsimp only
    · omega
    · omega
    · rw [if_neg (by omega)]
  refine (whileLoop_ensures _ _ (fun s hs hcond => closeStep_ensures hrange hsize hs ?_) _ _ hstart
    le_rfl).mono ?_
  · rwa [decide_eq_true_eq, UInt64.lt_iff_toNat_lt] at hcond
  · rintro s ⟨⟨-, hhi, b', hb', hsize', hcells⟩, hexit⟩
    rw [decide_eq_false_iff_not, UInt64.lt_iff_toNat_lt] at hexit
    have hi : s.i.toNat = videoFrames.toUInt64.toNat := by omega
    exact ⟨b', hb', hsize', fun j => by rw [hcells j, hi]⟩

/-! ## The invariant and the conditions -/

/-- What holds of the edit list between two commands. -/
structure EditInv (s : Session) : Prop where
  sound : Sound s.el
  rep : RepInv s.el

/-- The invariant is about the edit list alone. -/
theorem EditInv.of_el {s s' : Session} (h : EditInv s) (hel : s'.el = s.el) : EditInv s' :=
  ⟨hel ▸ h.sound, hel ▸ h.rep⟩

/-- The allocation of a clipboard for `start .. stop` is refused. -/
def ClipboardRefused (mem : Allocator) (start stop : ℤ) : Prop :=
  mem.calloc (0 : UInt64) ((UInt64.ofInt stop - UInt64.ofInt start + 1) * 8).toNat = none

/-- A copy of `start .. stop` reads cells of the array only. -/
def CopyInside (s : Session) (start stop : ℤ) : Prop :=
  UInt64.ofInt start ≤ UInt64.ofInt stop → (UInt64.ofInt stop).toNat < s.el.capacity

/-- A delete of `start .. stop` is refused, or leaves an entry. -/
def DeleteLeaves (s : Session) (start stop : ℤ) : Prop :=
  s.dummyActive = true ∨ ¬(UInt64.ofInt start = 0 ∧ UInt64.ofInt stop = s.el.totalFrames)

/-- A paste is refused. -/
def PasteRefused (s : Session) (destination : ℤ) : Prop :=
  s.settings.saveListLen = 0 ∨ s.settings.saveList = none ∨ destination < 0 ∨
    s.el.totalFrames < UInt64.ofInt destination

/-- The arguments that pass the checks of `veejay_edit_move`. -/
structure MoveRange (s : Session) (start stop destination : ℤ) : Prop where
  startNonneg : 0 ≤ start
  order : start ≤ stop
  destNonneg : 0 ≤ destination
  start_lt : UInt64.ofInt start < s.el.totalFrames
  stop_le : UInt64.ofInt stop ≤ s.el.totalFrames
  dest_le : UInt64.ofInt destination ≤ s.el.totalFrames

/-- **The condition on a command** under which it keeps the invariant. -/
def StepOk (s : Session) (c : Command) : Prop :=
  match c.op with
  | .copy start stop =>
      ClipboardRefused c.mem start.toInt stop.toInt ∨ CopyInside s start.toInt stop.toInt
  | .cut start stop =>
      ClipboardRefused c.mem start.toInt stop.toInt ∨
        CopyInside s start.toInt stop.toInt ∧ DeleteLeaves s start.toInt stop.toInt
  | .delete start stop => DeleteLeaves s start.toInt stop.toInt
  | .paste destination => PasteRefused s destination.toInt
  | .move start stop destination =>
      MoveRange s start.toInt stop.toInt destination.toInt →
        ClipboardRefused c.mem start.toInt stop.toInt ∨ s.dummyActive = true ∨
        -- what is left is too short for the paste, which is then refused
        0 < start.toInt ∧ UInt64.ofInt stop.toInt = s.el.totalFrames ∧ start ≤ destination
  | .addmovie movie =>
      ∀ fd el, openVideoFile c.lib s.flags movie s.el = .ok (fd, el) → fd < 0

/-! ## Every operation -/

section Operations

variable {s : Session}

/-- The array of a list that meets the invariant. -/
theorem EditInv.array (h : EditInv s) : ∃ b, s.el.frameList = some b ∧
    s.el.totalFrames.toNat + 1 ≤ b.size ∧
    s.el.videoFrames.toUInt64.toNat = s.el.totalFrames.toNat + 1 := by
  obtain ⟨x, hx, -⟩ := h.rep.entries _ le_rfl
  have htotal := h.rep.total
  have hlt := s.el.videoFrames.toInt_lt
  rw [EditList.entryAt] at hx
  cases hb : s.el.frameList with
  | none =>
    rw [hb] at hx
    cases hx
  | some b =>
    rw [hb, Option.bind_some, Option.join_eq_some_iff] at hx
    have hsize : s.el.totalFrames.toNat < b.size := (List.getElem?_eq_some_iff.mp hx).1
    refine ⟨b, rfl, hsize, ?_⟩
    rw [int64_toUInt64_toNat]
    omega

theorem veejayEditCopy_ensures (h : EditInv s) (mem : Allocator) {start stop : ℤ}
    (hok : ClipboardRefused mem start stop ∨ CopyInside s start stop) :
    Ensures (veejayEditCopy mem s start stop) fun r =>
      r.2.el = s.el ∧ r.2.dummyActive = s.dummyActive ∧
        (r.1 = true → ¬ClipboardRefused mem start stop) := by
  obtain ⟨b, hb, -⟩ := h.array
  unfold veejayEditCopy
  rw [if_neg (by simp [h.sound.notEmpty])]
  dsimp only
  cases hclip : mem.calloc (0 : UInt64) ((UInt64.ofInt stop - UInt64.ofInt start + 1) * 8).toNat with
  | none => simp [Session.clipboardLost, Session.stopped]
  | some clip =>
    have hserved : ¬ClipboardRefused mem start stop := by
      rw [ClipboardRefused, hclip]
      exact Option.some_ne_none clip
    have hinside := hok.resolve_left hserved
    rw [CopyInside, EditList.capacity, hb, Option.map_some, Option.getD_some] at hinside
    have hsize : UInt64.ofInt start ≤ UInt64.ofInt stop →
        clip.size = (UInt64.ofInt stop).toNat + 1 - (UInt64.ofInt start).toNat := by
      intro hle
      have hbound : b.size < 2 ^ 60 := b.bounded
      have hroom := hinside hle
      have hlen := rangeLength_toNat (UInt64.le_iff_toNat_le.mp hle) (by omega)
      have hbytes : ((UInt64.ofInt stop - UInt64.ofInt start + 1) * 8).toNat =
          ((UInt64.ofInt stop).toNat + 1 - (UInt64.ofInt start).toNat) * 8 := by
        rw [UInt64.toNat_mul, hlen]
        show _ * 8 % 2 ^ 64 = _
        omega
      rw [hbytes] at hclip
      rcases Allocator.calloc_cases mem (0 : UInt64)
          ((UInt64.ofInt stop).toNat + 1 - (UInt64.ofInt start).toNat) with hnone | ⟨clip', hsome, hcells⟩
      · rw [hnone] at hclip
        cases hclip
      · obtain rfl := Option.some.inj (hclip.symm.trans hsome)
        rw [Block.size, hcells, List.length_replicate]
    obtain ⟨loop, hloop, -⟩ := copyFrames_ensures hinside hsize
    dsimp only
    rw [hb, hloop, ok_bind, ensures_ok]
    exact ⟨rfl, rfl, fun _ => hserved⟩

/-- Closing a gap keeps the invariant, where an entry is left. -/
theorem EditInv.deleted (h : EditInv s) {n1 n2 : UInt64} {b b' : Block UInt64}
    (hle : n1.toNat ≤ n2.toNat) (hlast : n2.toNat ≤ s.el.totalFrames.toNat)
    (hpart : ¬(n1.toNat = 0 ∧ n2.toNat = s.el.totalFrames.toNat)) (hb : s.el.frameList = some b)
    (hcells : ∀ j, b'.cells[j]? =
      if n1.toNat ≤ j ∧ j + (n2.toNat + 1 - n1.toNat) < s.el.videoFrames.toUInt64.toNat then
        b.cells[j + (n2.toNat + 1 - n1.toNat)]?
      else b.cells[j]?) :
    EditInv (s.deleted n1 n2 (some b')) ∧ (s.deleted n1 n2 (some b')).el.totalFrames.toNat =
      s.el.totalFrames.toNat - (n2.toNat + 1 - n1.toNat) := by
  obtain ⟨b₁, hb₁, hsize, hframes⟩ := h.array
  have hbound : b₁.size < 2 ^ 60 := b₁.bounded
  have hlen := rangeLength_toNat hle (by omega)
  have htotal : (s.deleted n1 n2 (some b')).el.totalFrames.toNat =
      s.el.totalFrames.toNat - (n2.toNat + 1 - n1.toNat) := by
    show (s.el.totalFrames - (n2 - n1 + 1)).toNat = _
    rw [uint64_toNat_sub_of_le (by omega), hlen]
  have hvideo : (s.deleted n1 n2 (some b')).el.videoFrames.toInt =
      (s.el.totalFrames.toNat + 1 - (n2.toNat + 1 - n1.toNat) : ℕ) := by
    have hsub : (s.el.videoFrames.toUInt64 - (n2 - n1 + 1)).toNat =
        s.el.totalFrames.toNat + 1 - (n2.toNat + 1 - n1.toNat) := by
      rw [uint64_toNat_sub_of_le (by omega), hlen, hframes]
    show (s.el.videoFrames.toUInt64 - (n2 - n1 + 1)).toInt64.toInt = _
    rw [uint64_toInt64_toInt_of_lt (by omega), hsub]
  refine ⟨⟨⟨h.sound.notEmpty, h.sound.live, h.sound.names⟩, ?_, fun i hi => ?_⟩, htotal⟩
  · rw [htotal, hvideo]
    omega
  · -- an entry behind the gap comes from further up
    have hold : ∀ j ≤ s.el.totalFrames.toNat, b'.cells[i]? = b.cells[j]? →
        ∃ x, (s.deleted n1 n2 (some b')).el.entryAt i = some x ∧
          EntryValid (s.deleted n1 n2 (some b')).el x := by
      intro j hj hcell
      obtain ⟨x, hx, hvalid⟩ := h.rep.entries j hj
      rw [EditList.entryAt, hb, Option.bind_some, ← hcell] at hx
      exact ⟨x, hx, hvalid⟩
    rw [htotal] at hi
    have hcell := hcells i
    split_ifs at hcell with hbehind
    · exact hold _ (by omega) hcell
    · exact hold i (by omega) hcell

theorem veejayEditDelete_ensures (h : EditInv s) {start stop : ℤ} (hok : DeleteLeaves s start stop) :
    Ensures (veejayEditDelete s start stop) fun r => EditInv r.2 ∧
      (r.1 = true → s.dummyActive = false ∧ r.2.el.totalFrames.toNat =
        s.el.totalFrames.toNat - ((UInt64.ofInt stop).toNat + 1 - (UInt64.ofInt start).toNat)) := by
  unfold veejayEditDelete
  dsimp only
  split_ifs with hempty hdummy hrange
  · exact absurd hempty (by simp [h.sound.notEmpty])
  · exact (ensures_ok _ _).mpr ⟨h, fun hfalse => by cases hfalse⟩
  · exact (ensures_ok _ _).mpr ⟨h, fun hfalse => by cases hfalse⟩
  · obtain ⟨b, hb, hsize, hframes⟩ := h.array
    obtain ⟨hle, hlast⟩ := inRange_iff.mpr hrange
    have hpart := hok.resolve_left hdummy
    rw [← UInt64.toNat_inj, ← UInt64.toNat_inj, UInt64.toNat_zero] at hpart
    rw [UInt64.le_iff_toNat_le] at hle hlast
    obtain ⟨loop, hloop, b', hb', -, hcells⟩ := closeGap_ensures (b := b) hle
      (show (UInt64.ofInt stop).toNat < s.el.videoFrames.toUInt64.toNat by omega) (by omega)
    obtain ⟨hinv, htotal⟩ := h.deleted hle hlast hpart hb hcells
    rw [hb, hloop, ok_bind, ensures_ok, hb']
    exact ⟨hinv, fun _ => ⟨by simpa using hdummy, htotal⟩⟩

/-- What a cut leaves, where it is allowed. -/
theorem veejayEditCut_ensures (h : EditInv s) (mem : Allocator) {start stop : ℤ}
    (hok : ClipboardRefused mem start stop ∨ CopyInside s start stop ∧ DeleteLeaves s start stop) :
    Ensures (veejayEditCut mem s start stop) fun r => EditInv r.2 ∧
      (r.1 = true → ¬ClipboardRefused mem start stop ∧ s.dummyActive = false ∧
        r.2.el.totalFrames.toNat =
          s.el.totalFrames.toNat - ((UInt64.ofInt stop).toNat + 1 - (UInt64.ofInt start).toNat)) := by
  unfold veejayEditCut
  rw [if_neg (by simp [h.sound.notEmpty])]
  obtain ⟨⟨copied, s₁⟩, hcopy, hel, hdummy, hserved⟩ :=
    veejayEditCopy_ensures h mem (hok.imp_right And.left)
  rw [hcopy, ok_bind]
  cases copied with
  | false =>
    rw [if_pos rfl, ensures_ok]
    exact ⟨h.of_el hel, fun hfalse => by cases hfalse⟩
  | true =>
    have hleaves : DeleteLeaves s₁ start stop := by
      rw [DeleteLeaves, hel, hdummy]
      exact (hok.resolve_left (hserved rfl)).2
    obtain ⟨⟨deleted, s₂⟩, hdelete, hinv, htotal⟩ := veejayEditDelete_ensures (h.of_el hel) hleaves
    rw [if_neg (by simp), hdelete, ok_bind]
    cases deleted with
    | false =>
      rw [if_pos rfl, ensures_ok]
      exact ⟨hinv, fun hfalse => by cases hfalse⟩
    | true =>
      rw [if_neg (by simp), ensures_ok]
      obtain ⟨hactive, htotal⟩ := htotal rfl
      rw [hdummy] at hactive
      rw [hel] at htotal
      exact ⟨hinv, fun _ => ⟨hserved rfl, hactive, htotal⟩⟩

theorem veejayEditPaste_refused (h : EditInv s) (mem : Allocator) {destination : ℤ}
    (hok : PasteRefused s destination) : veejayEditPaste mem s destination = .ok (false, s) := by
  unfold veejayEditPaste
  rcases hok with hlen | hsave | hrange
  · rw [if_pos (Or.inl hlen)]
  · rw [if_pos (Or.inr (by rw [hsave]; rfl))]
  · split_ifs with hclip hbounds
    · rfl
    · rfl
    · exact absurd ⟨h.sound.notEmpty, hrange⟩ hbounds

/-- A move that is let through keeps the invariant where its paste is refused. -/
theorem veejayEditMove_ensures (h : EditInv s) (mem : Allocator) {start stop destination : ℤ}
    (hstop : stop < 2 ^ 63) (hdestination : destination < 2 ^ 63)
    (hok : MoveRange s start stop destination →
      ClipboardRefused mem start stop ∨ s.dummyActive = true ∨
        0 < start ∧ UInt64.ofInt stop = s.el.totalFrames ∧ start ≤ destination) :
    Ensures (veejayEditMove mem s start stop destination) fun r => EditInv r.2 := by
  unfold veejayEditMove
  split_ifs with hempty hrange
  · exact absurd hempty (by simp [h.sound.notEmpty])
  · exact (ensures_ok _ _).mpr h
  · simp only [not_or, not_lt, UInt64.not_lt, UInt64.not_le] at hrange
    obtain ⟨hdest, hdest', hstart, -, hstart', hstop', hle⟩ := hrange
    have hcase := hok ⟨hstart, hle, hdest', hstart', hstop', hdest⟩
    obtain ⟨b, hb, hsize, hframes⟩ := h.array
    have hstartNat := uint64_toNat_ofInt_of_nonneg hstart (by omega)
    have hstopNat := uint64_toNat_ofInt_of_nonneg (hstart.trans hle) (by omega)
    have hdestNat := uint64_toNat_ofInt_of_nonneg hdest' (by omega)
    rw [UInt64.le_iff_toNat_le] at hstop' hdest
    have hinside : CopyInside s start stop := by
      intro _
      rw [EditList.capacity, hb, Option.map_some, Option.getD_some]
      omega
    have hcut : ClipboardRefused mem start stop ∨
        CopyInside s start stop ∧ DeleteLeaves s start stop := by
      rcases hcase with hrefused | hdummy | ⟨hpos, -⟩
      · exact Or.inl hrefused
      · exact Or.inr ⟨hinside, Or.inl hdummy⟩
      · refine Or.inr ⟨hinside, Or.inr fun hwhole => ?_⟩
        rw [hwhole.1, UInt64.toNat_zero] at hstartNat
        omega
    obtain ⟨⟨cut, s₁⟩, hrun, hinv, htotal⟩ := veejayEditCut_ensures h mem hcut
    rw [hrun, ok_bind]
    cases cut with
    | false =>
      rw [if_pos rfl, ensures_ok]
      exact hinv
    | true =>
      obtain ⟨hserved, hactive, htotal⟩ := htotal rfl
      rcases hcase with hrefused | hdummy | ⟨hpos, hlast, hbehind⟩
      · exact absurd hrefused hserved
      · rw [hactive] at hdummy
        cases hdummy
      · -- everything from `start` on was cut out, so `start` is beyond the last entry
        have hlastNat := congrArg UInt64.toNat hlast
        have hreal : destReal start stop destination = start := by
          rw [destReal, if_neg (by omega), if_neg (by omega)]
        have hbeyond : s₁.el.totalFrames < UInt64.ofInt start := by
          rw [UInt64.lt_iff_toNat_lt]
          dsimp only at htotal
          omega
        rw [if_neg (by simp), hreal, veejayEditPaste_refused hinv mem
          (Or.inr (Or.inr (Or.inr hbeyond))), ok_bind, if_pos rfl, ensures_ok]
        exact hinv

theorem veejayEditAddmovie_ensures (h : EditInv s) (mem : Allocator) (lib : MediaLib) {movie : CStr}
    (hok : ∀ fd el, openVideoFile lib s.flags movie s.el = .ok (fd, el) → fd < 0) :
    Ensures (veejayEditAddmovie mem lib s movie) fun r => EditInv r.2 := by
  obtain ⟨fd, el, hopen⟩ := openVideoFile_returns lib s.flags movie _ h.sound.names
  rw [veejayEditAddmovie, hopen, ok_bind, if_pos (hok fd el hopen), ensures_ok]
  rcases openVideoFile_cases hopen with ⟨-, hsame⟩ | ⟨rfl, -⟩
  · refine ⟨h.sound.openVideoFile hopen, ?_, fun i hi => ?_⟩
    · show ((el.totalFrames.toNat : ℕ) : ℤ) = el.videoFrames.toInt - 1
      rw [hsame.totalFrames, hsame.videoFrames]
      exact h.rep.total
    · have hi' : i ≤ s.el.totalFrames.toNat := hsame.totalFrames ▸ hi
      obtain ⟨x, hx, hvalid⟩ := h.rep.entries i hi'
      refine ⟨x, ?_, EntryValid.of_same hsame hvalid⟩
      rw [EditList.entryAt] at hx ⊢
      rw [hsame.frameList]
      exact hx
  · exact absurd (hok _ _ hopen) (by omega)

end Operations

/-! ## Runs -/

/-- **The step.**  A command that meets its condition keeps the invariant. -/
theorem applyEdit_ensures (s : Session) (c : Command) (h : EditInv s) (hok : StepOk s c) :
    Ensures (applyEdit s c) fun r => EditInv r.2 := by
  obtain ⟨op, mem, lib⟩ := c
  unfold applyEdit
  rw [if_neg (by simp [h.sound.live])]
  cases op with
  | copy start stop => exact (veejayEditCopy_ensures h mem hok).mono fun r hr => h.of_el hr.1
  | cut start stop => exact (veejayEditCut_ensures h mem hok).mono fun r hr => hr.1
  | delete start stop => exact (veejayEditDelete_ensures h hok).mono fun r hr => hr.1
  | paste destination =>
    dsimp only
    rw [veejayEditPaste_refused h mem hok, ensures_ok]
    exact h
  | move start stop destination =>
    refine veejayEditMove_ensures h mem stop.toInt_lt destination.toInt_lt fun hrange => ?_
    exact (hok hrange).imp_right (Or.imp_right fun ⟨hpos, hlast, hle⟩ =>
      ⟨hpos, hlast, Int64.le_iff_toInt_le.mp hle⟩)
  | addmovie movie => exact veejayEditAddmovie_ensures h mem lib hok

/-- **The invariant holds all along a run.**  A list that the program has opened with valid entries
keeps them, and `total_frames` stays the index of the last one, after every command of a run whose
commands meet their conditions. -/
theorem editRun_repInv (mem : Allocator) (lib : MediaLib) (fl : OpenFlags) (filename : List CStr)
    (s : Session) (cmds : List Command)
    (hload : vjElInitWithArgs mem lib fl filename = .ok (some s.el))
    (hstart : OpensCleanly mem lib fl filename ∨ EntriesValid s.el)
    (hrun : RunMeets applyEdit StepOk s cmds) :
    ∀ issued rest, cmds = issued ++ rest →
      Ensures (runOps applyEdit s issued) fun r => RepInv r.2.el := by
  rintro issued rest rfl
  obtain ⟨hsound, htotal⟩ := vjElInitWithArgs_sound hload
  have hvalid : EntriesValid s.el := by
    rcases hstart with hclean | hvalid
    · exact vjElInitWithArgs_entriesValid hclean hload
    · exact hvalid
  exact (runOps_ensures applyEdit_ensures issued s ⟨hsound, htotal, hvalid⟩ hrun.of_append).mono
    fun r hr => hr.rep

/-! ## Two runs over a movie of ten frames -/

/-- The session that starts playing a list. -/
def playing (el : EditList) : Session where
  settings :=
    { saveList := none
      saveListLen := 0
      minFrameNum := 0
      maxFrameNum := narrow el.totalFrames
      currentFrameNum := 0
      state := .running }
  el := el
  dummyActive := false
  playbackMode := .plain
  flags := ⟨false, false, 112⟩

/-- A command that gets all the memory it asks for. -/
def plainCommand (op : EditOp) : Command := ⟨op, plentyOfMemory, noMovies⟩

/-- Deleting twice within the list keeps the invariant. -/
theorem delete_twice_keeps_repInv :
    ∃ el, vjElInitWithArgs plentyOfMemory tenFrames ⟨false, false, 112⟩ [lit "list"] = .ok (some el) ∧
      ∀ issued rest,
        [plainCommand (.delete 2 5), plainCommand (.delete 1 1)] = issued ++ rest →
          Ensures (runOps applyEdit (playing el) issued) fun r => RepInv r.2.el := by
  obtain ⟨el, hload⟩ : ∃ el, vjElInitWithArgs plentyOfMemory tenFrames ⟨false, false, 112⟩
    [lit "list"] = .ok (some el) := ⟨_, rfl⟩
  have hclean : OpensCleanly plentyOfMemory tenFrames ⟨false, false, 112⟩ [lit "list"] :=
    Or.inr ⟨lit "list", oneRun (lit "0 0 9"), rfl, rfl, tenFrames_loadable⟩
  have htwo : UInt64.ofInt (Int64.toInt 2) ≠ 0 := by decide
  have hone : UInt64.ofInt (Int64.toInt 1) ≠ 0 := by decide
  refine ⟨el, hload, editRun_repInv plentyOfMemory tenFrames ⟨false, false, 112⟩ [lit "list"]
    (playing el) _ hload (Or.inl hclean) ?_⟩
  exact ⟨Or.inr fun h => htwo h.1, fun _ _ _ => ⟨Or.inr fun h => hone h.1, fun _ _ _ => trivial⟩⟩

/-- Pasting two copied frames at entry `5` makes twelve frames, but `10` the index of the last one. -/
theorem paste_loses_count :
    ∃ el, vjElInitWithArgs plentyOfMemory tenFrames ⟨false, false, 112⟩ [lit "list"] = .ok (some el) ∧
      Ensures (runOps applyEdit (playing el)
        [plainCommand (.copy 0 1), plainCommand (.paste 5)]) fun r => ¬RepInv r.2.el := by
  refine ⟨_, rfl, _, rfl, fun h => ?_⟩
  have htotal := h.total
  revert htotal
  decide

end Veejay.Edl
