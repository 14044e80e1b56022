import Veejay.EditList.Load

/-!
# The runs of an edit list

What the last part of an edit list does, for a list with one movie file: `askedRanges` reads the lines
as a list of ranges (every range already cut to the file as the loop cuts it), and
`readEntries_ensures` says that the loop appends exactly the entries of these ranges, or gives up.
-/

namespace Veejay.Edl

open CLib

/-! ## The array so far -/

/-- The array starts with the entries `xs`, which `video_frames` counts. -/
def Holds (el : EditList) (xs : List UInt64) : Prop :=
  el.videoFrames.toInt = xs.length ∧
    ((el.frameList.map Block.cells).getD []).take xs.length = xs.map some

theorem Holds.length_lt {el : EditList} {xs : List UInt64} (h : Holds el xs) :
    xs.length < 2 ^ 60 := by
  have hlen := congrArg List.length h.2
  rw [List.length_take, List.length_map] at hlen
  cases hb : el.frameList with
  | none =>
    rw [hb] at hlen
    simp at hlen
    omega
  | some b =>
    rw [hb] at hlen
    have hbound := b.bounded
    simp only [Option.map_some, Option.getD_some] at hlen
    omega

/-- The entries `lo .. hi` of one file. -/
def rangeEntries (file : UInt64) (lo hi : ℤ) : List UInt64 :=
  (List.range (hi + 1 - lo).toNat).map fun j : ℕ => elEntry file (UInt64.ofInt (lo + j))

@[simp] theorem rangeEntries_length (file : UInt64) (lo hi : ℤ) :
    (rangeEntries file lo hi).length = (hi + 1 - lo).toNat := by
  simp [rangeEntries]

theorem mem_rangeEntries {file : UInt64} {lo hi : ℤ} {x : UInt64} :
    x ∈ rangeEntries file lo hi ↔ ∃ i, lo ≤ i ∧ i ≤ hi ∧ x = elEntry file (UInt64.ofInt i) := by
  simp only [rangeEntries, List.mem_map, List.mem_range]
  constructor
  · rintro ⟨j, hj, rfl⟩
    exact ⟨lo + j, by omega, by omega, rfl⟩
  · rintro ⟨i, hlo, hhi, rfl⟩
    refine ⟨(i - lo).toNat, by omega, ?_⟩
    congr 2
    omega

/-- Writing the next cell extends the entries at the front. -/
theorem take_succ_set {cells : List (Option UInt64)} {i : ℕ} (h : i < cells.length)
    (c : Option UInt64) : (cells.set i c).take (i + 1) = cells.take i ++ [c] := by
  rw [List.take_add_one, List.take_set_of_le le_rfl, List.getElem?_set_self h]
  rfl

/-- The loop that appends has written the first `j` entries. -/
def EntryInv (file : UInt64) (lo : ℤ) (xs : List UInt64) (size j : ℕ) (s : EntryLoop) : Prop :=
  s.i = lo + j ∧ s.videoFrames.toInt = xs.length + j ∧
    ∃ b, s.frameList = some b ∧ b.size = size ∧ b.cells.take (xs.length + j) =
      (xs ++ (List.range j).map fun j : ℕ => elEntry file (UInt64.ofInt (lo + j))).map some

theorem entryStep_ensures {file : UInt64} {lo : ℤ} {xs : List UInt64} {size j : ℕ} {s : EntryLoop}
    (hs : EntryInv file lo xs size j s) (hfit : xs.length + j < size) :
    Ensures (entryStep file s) (EntryInv file lo xs size (j + 1)) := by
  obtain ⟨hi, hv, b, hb, hsize, hcells⟩ := hs
  have hbound : b.size < 2 ^ 60 := b.bounded
  have hindex : s.videoFrames.toUInt64.toNat = xs.length + j := by
    rw [int64_toUInt64_toNat, hv]
    omega
  obtain ⟨b', hstore, hset⟩ := Block.storeAt_of_lt (b := b)
    (some (elEntry file (UInt64.ofInt s.i))) (show xs.length + j < b.size by omega)
  rw [entryStep, hb, hindex, hstore, ok_bind, ensures_ok]
  refine ⟨?_, ?_, b', rfl, ?_, ?_⟩
  · show s.i + 1 = lo + (j + 1 : ℕ)
    omega
  · rw [Int64.toInt_add, hv, show (1 : Int64).toInt = 1 from rfl, Int.bmod_eq_of_le] <;> omega
  · rw [← hsize, Block.size, Block.size, hset, List.length_set]
  · rw [hset, ← Nat.add_assoc, take_succ_set (show xs.length + j < b.cells.length by
      unfold Block.size at hsize; omega), hcells, hi, List.range_succ]
    simp

/-- **A loop that appends entries appends the entries of its range.** -/
theorem appendEntries_ensures {el : EditList} {xs : List UInt64} {b : Block UInt64} (file : UInt64)
    (lo hi : ℤ) (h : Holds el xs) (hb : el.frameList = some b)
    (hfit : xs.length + (hi + 1 - lo).toNat ≤ b.size) :
    Ensures (appendEntries file lo hi el) fun el' =>
      Holds el' (xs ++ rangeEntries file lo hi) ∧
      ∃ videoFrames frameList, el' = { el with videoFrames, frameList } := by
  have htake : b.cells.take xs.length = xs.map some := by
    simpa [hb] using h.2
  have hstart : EntryInv file lo xs b.size 0 ⟨lo, el.videoFrames, el.frameList⟩ :=
    ⟨by simp, by simpa using h.1, b, hb, rfl, by simpa using htake⟩
  have hloop := whileLoop_ensures
    (fun s : EntryLoop => ∃ j ≤ (hi + 1 - lo).toNat, EntryInv file lo xs b.size j s)
    (fun s => (hi + 1 - s.i).toNat) (?_ : ∀ s, _ → decide (s.i ≤ hi) = true →
      Ensures (entryStep file s) _) (hi + 1 - lo).toNat ⟨lo, el.videoFrames, el.frameList⟩
    ⟨0, Nat.zero_le _, hstart⟩ le_rfl
  · obtain ⟨s, hs, ⟨j, hj, hi', hv, b', hb', hsize, hcells⟩, hexit⟩ := hloop
    simp only [decide_eq_false_iff_not] at hexit
    obtain rfl : j = (hi + 1 - lo).toNat := by omega
    rw [appendEntries, hs, ok_bind, ensures_ok]
    refine ⟨⟨?_, ?_⟩, _, _, rfl⟩
    · rw [List.length_append, rangeEntries_length]
      push_cast
      exact hv
    · rw [List.length_append, rangeEntries_length, hb']
      exact hcells
  · rintro s ⟨j, hj, hs⟩ hcond
    simp only [decide_eq_true_eq] at hcond
    have hi' := hs.1
    refine (entryStep_ensures hs (by omega)).mono fun s' hs' => ⟨⟨j + 1, by omega, hs'⟩, ?_⟩
    rw [hs'.1]
    omega

/-- `el'` differs from `el` in its entries only. -/
def SameFiles (el el' : EditList) : Prop :=
  ∃ videoFrames frameList, el' = { el with videoFrames, frameList }

theorem SameFiles.refl (el : EditList) : SameFiles el el := ⟨_, _, rfl⟩

theorem SameFiles.trans {el₁ el₂ el₃ : EditList} (h : SameFiles el₁ el₂) (h' : SameFiles el₂ el₃) :
    SameFiles el₁ el₃ := by
  obtain ⟨v, f, rfl⟩ := h
  obtain ⟨v', f', rfl⟩ := h'
  exact ⟨v', f', rfl⟩

theorem appendEntries_sameFiles {file : UInt64} {lo hi : ℤ} {el el' : EditList}
    (h : appendEntries file lo hi el = .ok el') : SameFiles el el' := by
  obtain ⟨loop, -, hel⟩ := bind_eq_ok.mp h
  exact ⟨_, _, (Except.ok.inj hel).symm⟩

theorem growFrames_sameFiles {mem : Allocator} {extra : ℤ} {el el' : EditList}
    (h : growFrames mem extra el = some el') : SameFiles el el' := by
  unfold growFrames at h
  split at h
  · cases h
  · exact ⟨_, _, (Option.some.inj h).symm⟩

/-- A loop that has appended at least one entry has found the old ones in the array. -/
theorem appendEntries_ok {el el' : EditList} {xs : List UInt64} {b : Block UInt64} {file : UInt64}
    {lo hi : ℤ} (hv : el.videoFrames.toInt = xs.length) (hsmall : xs.length < 2 ^ 60)
    (hb : el.frameList = some b)
    (htake : xs.length ≤ b.size → b.cells.take xs.length = xs.map some) (hle : lo ≤ hi)
    (h : appendEntries file lo hi el = .ok el') : Holds el' (xs ++ rangeEntries file lo hi) := by
  have hindex : el.videoFrames.toUInt64.toNat = xs.length := by
    rw [int64_toUInt64_toNat, hv]
    omega
  have hsteps : ∀ (j : ℕ) (s s' : EntryLoop), EntryInv file lo xs b.size j s →
      entryStep file s = .ok s' → EntryInv file lo xs b.size (j + 1) s' := by
    intro j s s' hs hstep
    obtain ⟨p, hstore, -⟩ := bind_eq_ok.mp hstep
    obtain ⟨b', -, hb', -, hlt, -⟩ := Block.storeAt_eq_ok hstore
    have hbound : b'.size < 2 ^ 60 := b'.bounded
    have hfit : xs.length + j < b.size := by
      obtain ⟨-, hv', b'', hb'', hsize, -⟩ := hs
      obtain rfl : b' = b'' := Option.some.inj (hb'.symm.trans hb'')
      have hlong := s.videoFrames.toInt_lt
      rw [int64_toUInt64_toNat, hv'] at hlt
      omega
    exact (entryStep_ensures hs hfit).apply hstep
  obtain ⟨loop, hloop, hel⟩ := bind_eq_ok.mp h
  obtain ⟨s₁, hfirst⟩ := whileLoop_first hloop (by simpa using hle)
  obtain ⟨p, hstore, -⟩ := bind_eq_ok.mp hfirst
  obtain ⟨b', -, hb', -, hlt, -⟩ := Block.storeAt_eq_ok hstore
  obtain rfl : b = b' := Option.some.inj (hb.symm.trans hb')
  dsimp only at hlt
  have hstart : EntryInv file lo xs b.size 0 ⟨lo, el.videoFrames, el.frameList⟩ :=
    ⟨by simp, by simpa using hv, b, hb, rfl, by simpa using htake (by omega)⟩
  have hinv := whileLoop_ok
    (fun s : EntryLoop => ∃ j ≤ (hi + 1 - lo).toNat, EntryInv file lo xs b.size j s)
    (fun s s' hs hcond hstep => ?_) hloop ⟨0, Nat.zero_le _, hstart⟩
  · obtain ⟨⟨j, hj, hi', hv', b', hb', -, hcells⟩, hexit⟩ := hinv
    simp only [decide_eq_false_iff_not] at hexit
    obtain rfl : j = (hi + 1 - lo).toNat := by omega
    obtain rfl := Except.ok.inj hel
    refine ⟨?_, ?_⟩
    · rw [List.length_append, rangeEntries_length]
      push_cast
      exact hv'
    · rw [List.length_append, rangeEntries_length]
      dsimp only
      rw [hb']
      exact hcells
  · obtain ⟨j, hj, hs⟩ := hs
    rw [decide_eq_true_eq, hs.1] at hcond
    exact ⟨j + 1, by omega, hsteps j s s' hs hstep⟩

/-- Room for `n` more entries is made exactly when the heap serves the request. -/
theorem growFrames_of_serves {mem : Allocator} {el : EditList} {xs : List UInt64} {n : ℤ}
    (h : Holds el xs) (hn : 1 ≤ n) (hsmall : n < 2 ^ 32)
    (hserve : mem.Serves (xs.length + n.toNat)) :
    ∃ b, growFrames mem n el = some { el with frameList := some b } ∧
      b.size = xs.length + n.toNat ∧ Holds { el with frameList := some b } xs := by
  have hlt := h.length_lt
  have hbytes : ((el.videoFrames.toUInt64 + UInt64.ofInt n) * 8).toNat =
      (xs.length + n.toNat) * 8 := by
    rw [UInt64.toNat_mul, UInt64.toNat_add, int64_toUInt64_toNat, h.1,
      uint64_toNat_ofInt_of_nonneg (by omega) (by omega)]
    show (((xs.length : ℤ) % 2 ^ 64).toNat + n.toNat) % 2 ^ 64 * 8 % 2 ^ 64 = _
    omega
  obtain ⟨b, hb, hcells⟩ := Allocator.realloc_of_serves (p := el.frameList) (by omega) hserve
  refine ⟨b, by rw [growFrames, hbytes, hb], by rw [Block.size, hcells, Allocator.resized_length],
    h.1, ?_⟩
  have hlen := congrArg List.length h.2
  rw [List.length_take, List.length_map] at hlen
  show b.cells.take xs.length = _
  rw [hcells, Allocator.resized_take (by omega) (by omega), h.2]

theorem growFrames_of_refused {mem : Allocator} {el : EditList} {xs : List UInt64} {n : ℤ}
    (h : Holds el xs) (hn : 1 ≤ n) (hsmall : n < 2 ^ 32)
    (hserve : ¬mem.Serves (xs.length + n.toNat)) : growFrames mem n el = none := by
  have hlt := h.length_lt
  have hbytes : ((el.videoFrames.toUInt64 + UInt64.ofInt n) * 8).toNat =
      (xs.length + n.toNat) * 8 := by
    rw [UInt64.toNat_mul, UInt64.toNat_add, int64_toUInt64_toNat, h.1,
      uint64_toNat_ofInt_of_nonneg (by omega) (by omega)]
    show (((xs.length : ℤ) % 2 ^ 64).toNat + n.toNat) % 2 ^ 64 * 8 % 2 ^ 64 = _
    omega
  rw [growFrames, hbytes, Allocator.realloc_of_refused (by omega) hserve]

/-! ## The lines -/

/-- Reading runs changes neither the files nor anything that describes the movie. -/
theorem appendRun_sameFiles {mem : Allocator} {index : UInt64} {lo hi : ℤ} {st st' : Loader}
    (h : appendRun mem index lo hi st = .ok (some st')) : SameFiles st.el st'.el := by
  unfold appendRun at h
  split_ifs at h
  · obtain rfl := Option.some.inj (Except.ok.inj h)
    exact SameFiles.refl _
  · split at h
    · cases h
    · rename_i el₁ hgrow
      obtain ⟨el₂, happend, h⟩ := bind_eq_ok.mp h
      obtain rfl := Option.some.inj (Except.ok.inj h)
      exact (growFrames_sameFiles hgrow).trans (appendEntries_sameFiles happend)

theorem readEntry_sameFiles {mem : Allocator} {line : CStr} {st st' : Loader}
    (h : readEntry mem line st = .ok (some st')) : SameFiles st.el st'.el := by
  unfold readEntry at h
  dsimp only at h
  split at h
  · obtain rfl := Option.some.inj (Except.ok.inj h)
    exact SameFiles.refl _
  · split at h
    · cases h
    · split_ifs at h
      · cases h
      · split at h
        · cases h
        · obtain ⟨frames, -, h⟩ := bind_eq_ok.mp h
          have hrun := appendRun_sameFiles h
          exact hrun

theorem readEntries_sameFiles {mem : Allocator} {input : List CStr} :
    ∀ {st st' : Loader}, readEntries mem input st = .ok (some st') → SameFiles st.el st'.el := by
  induction input with
  | nil =>
    intro st st' h
    obtain rfl := Option.some.inj (Except.ok.inj h)
    exact SameFiles.refl _
  | cons line input ih =>
    intro st st' h
    obtain ⟨next, hentry, h⟩ := bind_eq_ok.mp h
    cases next with
    | none => cases h
    | some st₁ => exact (readEntry_sameFiles hentry).trans (ih h)

/-- What a line leaves in `nl`, `n1` and `n2`: the range is cut to the file, but only down to
`num_frames` itself. -/
def cutEntry (numFrames : ℤ) (line : CStr) (args : ℤ × ℤ × ℤ) : ℤ × ℤ × ℤ :=
  let args := scanEntry line args
  (args.1, max args.2.1 0, min args.2.2 numFrames)

/-- The ranges the lines ask for, in a list with one movie file; a line that names another file makes
the whole list unreadable. -/
def askedRanges (numFrames : ℤ) : ℤ × ℤ × ℤ → List CStr → Option (List (ℤ × ℤ))
  | _, [] => some []
  | args, line :: input =>
      if line.headD 0 = 58 then askedRanges numFrames args input
      else if (cutEntry numFrames line args).1 ≠ 0 then none
      else (askedRanges numFrames (cutEntry numFrames line args) input).map
        ((cutEntry numFrames line args).2 :: ·)

/-- The heap serves every request that appending the ranges makes. -/
def Granted (mem : Allocator) : ℕ → List (ℤ × ℤ) → Prop
  | _, [] => True
  | k, r :: ranges =>
      (r.1 ≤ r.2 → mem.Serves (k + (r.2 + 1 - r.1).toNat)) ∧
        Granted mem (k + (r.2 + 1 - r.1).toNat) ranges

/-- The entries the ranges of one file stand for. -/
def rangesEntries (file : UInt64) (ranges : List (ℤ × ℤ)) : List UInt64 :=
  ranges.flatMap fun r => rangeEntries file r.1 r.2

/-- The list has one movie file, in slot `index`. -/
structure OneFile (st : Loader) (index : UInt64) (numFrames : ℤ) : Prop where
  numListFiles : st.numListFiles = some 1
  indexList : st.indexList 0 = some index
  inTable : index.toNat < maxEditListFiles
  numFrames : (st.el.numFrames index.toNat).toInt = numFrames
  fits : st.n2 < 2 ^ 31

theorem scanEntry_fits {line : CStr} {args : ℤ × ℤ × ℤ} (h : args.2.2 < 2 ^ 31) :
    (scanEntry line args).2.2 < 2 ^ 31 := by
  unfold scanEntry
  repeat' split
  · exact intValue_lt _
  · exact h
  · exact h
  · exact h

section Entries

variable {mem : Allocator} {st : Loader} {xs : List UInt64} {index : UInt64} {numFrames : ℤ}
  {line : CStr}

theorem readEntry_comment (hline : line.headD 0 = 58) :
    readEntry mem line st = .ok (some { st with line }) := by
  rw [readEntry, if_pos hline]

theorem readEntry_wrongFile (hfile : OneFile st index numFrames) (hline : line.headD 0 ≠ 58)
    (hwrong : (cutEntry numFrames line (st.nl, st.n1, st.n2)).1 ≠ 0) :
    readEntry mem line st = .ok none := by
  have hrange : (scanEntry line (st.nl, st.n1, st.n2)).1 < 0 ∨
      1 ≤ (scanEntry line (st.nl, st.n1, st.n2)).1 := by
    have : (scanEntry line (st.nl, st.n1, st.n2)).1 ≠ 0 := hwrong
    omega
  rw [readEntry, if_neg hline]
  simp only [hfile.numListFiles]
  rw [if_pos hrange]

/-- The loader after a line that named the file. -/
def Loader.cut (st : Loader) (numFrames : ℤ) (line : CStr) : Loader :=
  { st with
    line
    nl := (cutEntry numFrames line (st.nl, st.n1, st.n2)).1
    n1 := (cutEntry numFrames line (st.nl, st.n1, st.n2)).2.1
    n2 := (cutEntry numFrames line (st.nl, st.n1, st.n2)).2.2 }

theorem readEntry_range (hfile : OneFile st index numFrames) (hline : line.headD 0 ≠ 58)
    (hright : (cutEntry numFrames line (st.nl, st.n1, st.n2)).1 = 0) :
    readEntry mem line st =
      appendRun mem index (st.cut numFrames line).n1 (st.cut numFrames line).n2
        (st.cut numFrames line) := by
  have hzero : (scanEntry line (st.nl, st.n1, st.n2)).1 = 0 := hright
  have hslot : loadSlot st.el.numFrames index = .ok (st.el.numFrames index.toNat) :=
    if_pos hfile.inTable
  rw [readEntry, if_neg hline]
  simp only [hfile.numListFiles, hzero, hfile.indexList, hslot, ok_bind, Int.toNat_zero]
  rw [if_neg (by omega), if_neg (by decide)]
  simp only [Loader.cut, cutEntry, hzero, hfile.numFrames, hfile.numListFiles]

/-- The loader after a line is ready for the next one. -/
theorem OneFile.cut (hfile : OneFile st index numFrames) {el : EditList} (hel : SameFiles st.el el) :
    OneFile { st.cut numFrames line with el } index numFrames where
  numListFiles := hfile.numListFiles
  indexList := hfile.indexList
  inTable := hfile.inTable
  numFrames := by
    obtain ⟨v, f, rfl⟩ := hel
    exact hfile.numFrames
  fits := lt_of_le_of_lt (min_le_left _ _) (scanEntry_fits hfile.fits)

/-- **One run** is appended, or the load is given up for want of memory. -/
theorem appendRun_ensures (mem : Allocator) (st : Loader) (index : UInt64) {lo hi : ℤ} (h : Holds st.el xs) (hlo : 0 ≤ lo)
    (hhi : hi < 2 ^ 31) :
    Ensures (appendRun mem index lo hi st) fun r =>
      match r with
      | none => lo ≤ hi ∧ ¬mem.Serves (xs.length + (hi + 1 - lo).toNat)
      | some st' => (lo ≤ hi → mem.Serves (xs.length + (hi + 1 - lo).toNat)) ∧
          ∃ el, st' = { st with el } ∧ SameFiles st.el el ∧
            Holds el (xs ++ rangeEntries index lo hi) := by
  unfold appendRun
  by_cases hempty : hi < lo
  · rw [if_pos hempty, ensures_ok]
    have hnil : rangeEntries index lo hi = [] := by
      rw [rangeEntries, Int.toNat_of_nonpos (by omega)]
      rfl
    exact ⟨fun hle => absurd hle (by omega), st.el, rfl, SameFiles.refl _, by
      rwa [hnil, List.append_nil]⟩
  · rw [if_neg hempty]
    have hcount : (hi - lo + 1).toNat = (hi + 1 - lo).toNat := by omega
    by_cases hserve : mem.Serves (xs.length + (hi - lo + 1).toNat)
    · obtain ⟨b, hgrow, hsize, hb⟩ := growFrames_of_serves h (by omega) (by omega) hserve
      obtain ⟨el, hel, hholds, v, f, hsame⟩ :=
        appendEntries_ensures index lo hi hb rfl (by omega)
      rw [hgrow]
      simp only [hel, ok_bind, ensures_ok]
      exact ⟨fun _ => hcount ▸ hserve, el, rfl, ⟨v, f, hsame⟩, hholds⟩
    · rw [growFrames_of_refused h (by omega) (by omega) hserve]
      simp only [ensures_ok]
      exact ⟨by omega, hcount ▸ hserve⟩

/-- **The whole loop.**  It appends the entries of the ranges the lines ask for; it gives up exactly
when a line names another file or the heap refuses a request. -/
theorem readEntries_ensures (mem : Allocator) (input : List CStr) :
    ∀ {st : Loader} {xs : List UInt64}, OneFile st index numFrames → Holds st.el xs →
      Ensures (readEntries mem input st) fun r =>
        match r with
        | none => ∀ ranges, askedRanges numFrames (st.nl, st.n1, st.n2) input = some ranges →
            ¬Granted mem xs.length ranges
        | some st' => ∃ ranges, askedRanges numFrames (st.nl, st.n1, st.n2) input = some ranges ∧
            Granted mem xs.length ranges ∧ SameFiles st.el st'.el ∧
            Holds st'.el (xs ++ rangesEntries index ranges) := by
  induction input with
  | nil =>
    intro st xs hfile h
    simp only [readEntries, ensures_ok]
    exact ⟨[], rfl, trivial, SameFiles.refl _, by simpa [rangesEntries] using h⟩
  | cons line input ih =>
    intro st xs hfile h
    rw [readEntries]
    by_cases hline : line.headD 0 = 58
    · -- a comment
      rw [readEntry_comment hline, ok_bind]
      have hrec := @ih { st with line } xs
        ⟨hfile.1, hfile.2, hfile.3, hfile.4, hfile.5⟩ h
      simpa only [askedRanges, if_pos hline] using hrec
    · by_cases hright : (cutEntry numFrames line (st.nl, st.n1, st.n2)).1 = 0
      · -- a run of frames
        have hasked : askedRanges numFrames (st.nl, st.n1, st.n2) (line :: input) =
            (askedRanges numFrames (cutEntry numFrames line (st.nl, st.n1, st.n2)) input).map
              ((cutEntry numFrames line (st.nl, st.n1, st.n2)).2 :: ·) := by
          rw [askedRanges, if_neg hline, if_neg (not_not.mpr hright)]
        have hlo : 0 ≤ (st.cut numFrames line).n1 := le_max_right _ _
        have hhi : (st.cut numFrames line).n2 < 2 ^ 31 :=
          lt_of_le_of_lt (min_le_left _ _) (scanEntry_fits hfile.fits)
        obtain ⟨r, hr, hcases⟩ := appendRun_ensures mem (st.cut numFrames line) index
          h hlo hhi
        rw [readEntry_range hfile hline hright, hr, ok_bind, hasked]
        cases r with
        | none =>
          obtain ⟨hle, hrefused⟩ := hcases
          rw [ensures_ok]
          rintro ranges hranges hgranted
          obtain ⟨rest, -, rfl⟩ := Option.map_eq_some_iff.mp hranges
          exact hrefused (hgranted.1 hle)
        | some st' =>
          obtain ⟨hserve, el, rfl, hel, hholds⟩ := hcases
          refine (ih (hfile.cut hel) hholds).mono fun r' hr' => ?_
          rw [List.length_append, rangeEntries_length] at hr'
          cases r' with
          | none =>
            rintro ranges hranges hgranted
            obtain ⟨rest, hrest, rfl⟩ := Option.map_eq_some_iff.mp hranges
            exact hr' rest hrest hgranted.2
          | some st'' =>
            obtain ⟨rest, hrest, hgranted, hsame, hholds'⟩ := hr'
            have hrest' : askedRanges numFrames (cutEntry numFrames line (st.nl, st.n1, st.n2)) input =
              some rest := hrest
            rw [List.append_assoc] at hholds'
            exact ⟨(cutEntry numFrames line (st.nl, st.n1, st.n2)).2 :: rest, by rw [hrest']; rfl,
              ⟨hserve, hgranted⟩, hel.trans hsame, hholds'⟩
      · -- another file is named
        rw [readEntry_wrongFile hfile hline hright, ok_bind, ensures_ok]
        intro ranges hranges
        rw [askedRanges, if_neg hline, if_pos hright] at hranges
        cases hranges

end Entries

end Veejay.Edl
