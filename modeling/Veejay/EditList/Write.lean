import Veejay.EditList.LoadEntries
import Veejay.EditList.Paste

/-!
# Writing an edit list

`vj_el_write_editlist` writes the entries `n1 .. n2` as text: the norm, the movie files these entries
use, renumbered from `0`, and one line `file first last` for every run of consecutive frames.

* `vjElWriteEditlist` — the function; its result is the text, or `none` where nothing is written;
* `splitRuns`, `runText_eq` — the lines are those of the runs the entries fall into;
* `rangesEntries_splitRuns` — **the runs of one file, put together again, are its frames.**
-/

namespace Veejay.Edl

open CLib

/-! ## The function -/

/-- `frame_list[i]`, where its value is used. -/
def loadEntry (frameList : Option (Block UInt64)) (i : ℕ) : Exec UInt64 := do
  let cell ← Block.loadAt frameList i
  match cell with
  | none => .error .uninitialised
  | some entry => .ok entry

/-- The values of `count` entries from `i` on. -/
def loadEntries (frameList : Option (Block UInt64)) : ℕ → ℕ → Exec (List UInt64)
  | _, 0 => .ok []
  | i, count + 1 => do
      let entry ← loadEntry frameList i
      let entries ← loadEntries frameList (i + 1) count
      .ok (entry :: entries)

/-- `index[i]` has been set to `1`. -/
def isUsed (used : List UInt64) (i : ℕ) : Bool := used.any fun x => (nElFile x).toNat == i

/-- `num_files` after the first `i` rounds of the loop that numbers the files. -/
def numFiles (used : List UInt64) : ℕ → ℕ
  | 0 => 0
  | i + 1 => if isUsed used i then numFiles used i + 1 else numFiles used i

/-- `index[i]`, once the files have been numbered. -/
def fileIndex (used : List UInt64) (i : ℕ) : ℤ := if isUsed used i then numFiles used i else -1

/-- The lines of the first `i` slots of the file table. -/
def nameLines (el : EditList) (used : List UInt64) : ℕ → List UInt8
  | 0 => []
  | i + 1 =>
      nameLines el used i ++
        if 0 ≤ fileIndex used i then
          match el.videoFileList i with
          | none => []
          | some name => name ++ [newline]
        else []

/-- The loop that writes the runs, from inside one. -/
def writeRuns (used : List UInt64) (oldfile oldframe : ℤ) : List UInt64 → List UInt8
  | [] => decimalInt oldframe ++ [newline]
  | n :: rest =>
      let file := fileIndex used (nElFile n).toNat
      let frame : ℤ := (nElFrame n).toNat
      (if file ≠ oldfile ∨ frame ≠ oldframe + 1 then
        decimalInt oldframe ++ newline :: (decimalInt file ++ 32 :: (decimalInt frame ++ [32]))
      else []) ++ writeRuns used file frame rest

/-- The runs, from the first entry on. -/
def runText (used : List UInt64) (first : UInt64) (rest : List UInt64) : List UInt8 :=
  let oldfile := fileIndex used (nElFile first).toNat
  let oldframe : ℤ := (nElFrame first).toNat
  decimalInt oldfile ++ 32 :: (decimalInt oldframe ++ 32 :: writeRuns used oldfile oldframe rest)

/-- The second line. -/
def normName (el : EditList) : CStr := if el.videoNorm = 110 then lit "NTSC" else lit "PAL"

/-- The last frame that is written. -/
def lastWritten (el : EditList) (n1 n2 : ℤ) : ℤ :=
  if el.totalFrames < UInt64.ofInt n2 ∨ n2 < n1 then el.totalFrames.toInt64.toInt else n2

/-- `vj_el_write_editlist`, where the file can be opened and written. -/
def vjElWriteEditlist (el : EditList) (start stop : Int64) : Exec (Option (List UInt8)) :=
  if el.isEmpty then .ok none
  else do
    let n1 := max start.toInt 0
    let n2 := lastWritten el n1 stop.toInt
    let used ← loadEntries el.frameList n1.toNat (n2 + 1 - n1).toNat
    let first ← loadEntry el.frameList n1.toNat
    let rest ← loadEntries el.frameList (n1.toNat + 1) (n2 - n1).toNat
    .ok (some (editListHeader ++ (normName el ++ newline ::
      (decimalInt (numFiles used maxEditListFiles) ++ newline ::
        (nameLines el used maxEditListFiles ++ runText used first rest)))))

/-! ## The entries that are read -/

theorem loadEntry_eq_ok {el : EditList} {i : ℕ} {x : UInt64} (h : el.entryAt i = some x) :
    loadEntry el.frameList i = .ok x := by
  rw [EditList.entryAt] at h
  cases hb : el.frameList with
  | none =>
    rw [hb] at h
    cases h
  | some b =>
    rw [hb, Option.bind_some, Option.join_eq_some_iff] at h
    rw [loadEntry, Block.loadAt_eq h, ok_bind]

/-- The entries `i .. i + count - 1` of a list in which they are initialised. -/
theorem loadEntries_eq_ok {el : EditList} (count : ℕ) :
    ∀ {i : ℕ}, (∀ j < count, ∃ x, el.entryAt (i + j) = some x) →
      ∃ xs, loadEntries el.frameList i count = .ok xs ∧ xs.length = count ∧
        ∀ j < count, el.entryAt (i + j) = xs[j]? := by
  induction count with
  | zero => exact fun _ => ⟨[], rfl, rfl, fun j hj => absurd hj (Nat.not_lt_zero j)⟩
  | succ count ih =>
    intro i h
    obtain ⟨x, hx⟩ := h 0 (Nat.succ_pos count)
    obtain ⟨xs, hxs, hlen, hentries⟩ := ih (i := i + 1) fun j hj => by
      obtain ⟨y, hy⟩ := h (j + 1) (by omega)
      exact ⟨y, by rw [show i + 1 + j = i + (j + 1) by omega, hy]⟩
    refine ⟨x :: xs, ?_, by rw [List.length_cons, hlen], fun j hj => ?_⟩
    · rw [loadEntries, loadEntry_eq_ok (i := i) hx, ok_bind, hxs, ok_bind]
    · cases j with
      | zero => exact hx
      | succ j =>
        rw [List.getElem?_cons_succ, ← hentries j (by omega), show i + 1 + j = i + (j + 1) by omega]

/-! ## The files that are listed -/

theorem isUsed_iff {used : List UInt64} {i : ℕ} :
    isUsed used i = true ↔ ∃ x ∈ used, (nElFile x).toNat = i := by
  simp [isUsed]

theorem numFiles_mono (used : List UInt64) {i j : ℕ} (h : i ≤ j) :
    numFiles used i ≤ numFiles used j := by
  induction h with
  | refl => exact le_rfl
  | step _ ih =>
    rw [numFiles]
    split_ifs <;> omega

/-- Two files that are used are two lines. -/
theorem two_le_numFiles {used : List UInt64} {i j n : ℕ} (hij : i < j) (hj : j < n)
    (hi : isUsed used i = true) (hj' : isUsed used j = true) : 2 ≤ numFiles used n := by
  have hfirst : 1 ≤ numFiles used (i + 1) := by
    rw [numFiles, if_pos hi]
    omega
  have hsecond : numFiles used (j + 1) = numFiles used j + 1 := by rw [numFiles, if_pos hj']
  have hle := numFiles_mono used (show i + 1 ≤ j by omega)
  have hle' := numFiles_mono used (show j + 1 ≤ n by omega)
  omega

theorem numFiles_le (used : List UInt64) (n : ℕ) : numFiles used n ≤ n := by
  induction n with
  | zero => exact le_rfl
  | succ n ih =>
    rw [numFiles]
    split_ifs <;> omega

section OneUsed

variable {used : List UInt64} {f : ℕ}

/-- Every entry is of file `f`. -/
theorem isUsed_eq (hne : used ≠ []) (h : ∀ x ∈ used, (nElFile x).toNat = f) (i : ℕ) :
    isUsed used i = decide (i = f) := by
  rw [Bool.eq_iff_iff, isUsed_iff, decide_eq_true_eq]
  constructor
  · rintro ⟨x, hx, rfl⟩
    exact h x hx
  · rintro rfl
    obtain ⟨x, hx⟩ := List.exists_mem_of_ne_nil used hne
    exact ⟨x, hx, h x hx⟩

theorem numFiles_one (hne : used ≠ []) (h : ∀ x ∈ used, (nElFile x).toNat = f) (n : ℕ) :
    numFiles used n = if f < n then 1 else 0 := by
  induction n with
  | zero => rfl
  | succ n ih =>
    rw [numFiles, isUsed_eq hne h, ih]
    simp only [decide_eq_true_eq]
    split_ifs <;> omega

/-- The only file is number `0`. -/
theorem fileIndex_one (hne : used ≠ []) (h : ∀ x ∈ used, (nElFile x).toNat = f) (i : ℕ) :
    fileIndex used i = if i = f then 0 else -1 := by
  rw [fileIndex, isUsed_eq hne h, numFiles_one hne h]
  by_cases hi : i = f
  · rw [if_pos (by simpa using hi), if_pos hi, if_neg (by omega)]
    rfl
  · rw [if_neg (by simpa using hi), if_neg hi]

theorem nameLines_one (hne : used ≠ []) (h : ∀ x ∈ used, (nElFile x).toNat = f) {el : EditList}
    {name : CStr} (hname : el.videoFileList f = some name) (n : ℕ) :
    nameLines el used n = if f < n then name ++ [newline] else [] := by
  induction n with
  | zero => rfl
  | succ n ih =>
    rw [nameLines, ih, fileIndex_one hne h]
    by_cases hn : n = f
    · rw [hn, if_pos rfl, if_neg (lt_irrefl f), if_pos le_rfl, hname, if_pos (Nat.lt_succ_self f)]
      rfl
    · rw [if_neg hn, if_neg (show ¬(0 : ℤ) ≤ -1 by decide), List.append_nil]
      congr 1
      simp only [eq_iff_iff]
      omega

end OneUsed

/-! ## The runs -/

/-- The runs of consecutive frames of one file that the entries fall into, from inside a run. -/
def splitRuns (used : List UInt64) (file first last : ℤ) : List UInt64 → List (ℤ × ℤ × ℤ)
  | [] => [(file, first, last)]
  | n :: rest =>
      let file' := fileIndex used (nElFile n).toNat
      let frame : ℤ := (nElFrame n).toNat
      if file' ≠ file ∨ frame ≠ last + 1 then (file, first, last) :: splitRuns used file' frame frame rest
      else splitRuns used file' first frame rest

/-- The line of a run. -/
def runLine (r : ℤ × ℤ × ℤ) : CStr :=
  decimalInt r.1 ++ 32 :: (decimalInt r.2.1 ++ 32 :: decimalInt r.2.2)

theorem writeRuns_eq (used : List UInt64) (rest : List UInt64) : ∀ file first last : ℤ,
    decimalInt file ++ 32 :: (decimalInt first ++ 32 :: writeRuns used file last rest) =
      (splitRuns used file first last rest).flatMap fun r => runLine r ++ [newline] := by
  induction rest with
  | nil =>
    intro file first last
    simp [writeRuns, splitRuns, runLine]
  | cons n rest ih =>
    intro file first last
    rw [writeRuns, splitRuns]
    by_cases hbreak : fileIndex used (nElFile n).toNat ≠ file ∨ ((nElFrame n).toNat : ℤ) ≠ last + 1
    · rw [if_pos hbreak, if_pos hbreak, List.flatMap_cons, ← ih]
      simp [runLine]
    · obtain ⟨hfile, -⟩ := not_or.mp hbreak
      rw [if_neg hbreak, if_neg hbreak, ← ih, List.nil_append, not_not.mp hfile]

/-- **The lines are those of the runs.** -/
theorem runText_eq (used : List UInt64) (first : UInt64) (rest : List UInt64) :
    runText used first rest =
      (splitRuns used (fileIndex used (nElFile first).toNat) (nElFrame first).toNat
        (nElFrame first).toNat rest).flatMap fun r => runLine r ++ [newline] :=
  writeRuns_eq used rest _ _ _

/-- The entry of frame `nElFrame x` of file `0`. -/
def asFileZero (x : UInt64) : UInt64 := elEntry 0 (UInt64.ofInt (nElFrame x).toNat)

theorem rangeEntries_single (file : UInt64) (i : ℤ) :
    rangeEntries file i i = [elEntry file (UInt64.ofInt i)] := by
  rw [rangeEntries, show (i + 1 - i).toNat = 1 by omega]
  show [elEntry file (UInt64.ofInt (i + (0 : ℕ)))] = _
  rw [Nat.cast_zero, add_zero]

theorem rangeEntries_snoc (file : UInt64) {lo hi : ℤ} (h : lo ≤ hi + 1) :
    rangeEntries file lo (hi + 1) =
      rangeEntries file lo hi ++ [elEntry file (UInt64.ofInt (hi + 1))] := by
  have hlen : (hi + 1 + 1 - lo).toNat = (hi + 1 - lo).toNat + 1 := by omega
  have hlast : lo + ((hi + 1 - lo).toNat : ℤ) = hi + 1 := by omega
  rw [rangeEntries, hlen, List.range_succ, List.map_append, List.map_singleton, hlast]
  rfl

/-- **The runs of one file, put together again**, are its frames. -/
theorem rangesEntries_splitRuns {used : List UInt64} {rest : List UInt64}
    (hzero : ∀ x ∈ rest, fileIndex used (nElFile x).toNat = 0) :
    ∀ {first last : ℤ}, first ≤ last →
      rangesEntries 0 ((splitRuns used 0 first last rest).map Prod.snd) =
        rangeEntries 0 first last ++ rest.map asFileZero := by
  induction rest with
  | nil =>
    intro first last _
    simp [splitRuns, rangesEntries]
  | cons n rest ih =>
    intro first last hle
    have hn : fileIndex used (nElFile n).toNat = 0 := hzero n (by simp)
    have hrest : ∀ x ∈ rest, fileIndex used (nElFile x).toNat = 0 :=
      fun x hx => hzero x (by simp [hx])
    rw [splitRuns, hn]
    by_cases hbreak : ((0 : ℤ) ≠ 0) ∨ ((nElFrame n).toNat : ℤ) ≠ last + 1
    · have hnew := ih hrest (le_refl ((nElFrame n).toNat : ℤ))
      rw [rangesEntries] at hnew
      rw [if_pos hbreak, List.map_cons, rangesEntries, List.flatMap_cons, hnew, rangeEntries_single]
      rfl
    · have hnext : ((nElFrame n).toNat : ℤ) = last + 1 := not_not.mp (not_or.mp hbreak).2
      have hlong := ih hrest (show first ≤ ((nElFrame n).toNat : ℤ) by omega)
      rw [if_neg hbreak, hlong, hnext, rangeEntries_snoc 0 (by omega), ← hnext, List.append_assoc]
      rfl

/-- Every frame of a run is the frame of an entry. -/
theorem mem_splitRuns {used : List UInt64} {rest : List UInt64} {r : ℤ × ℤ × ℤ} :
    ∀ {file first last : ℤ}, r ∈ splitRuns used file first last rest →
      (r.1 = file ∨ ∃ x ∈ rest, r.1 = fileIndex used (nElFile x).toNat) ∧
      (r.2.1 = first ∨ ∃ x ∈ rest, r.2.1 = (nElFrame x).toNat) ∧
      (r.2.2 = last ∨ ∃ x ∈ rest, r.2.2 = (nElFrame x).toNat) := by
  induction rest with
  | nil =>
    intro file first last hr
    obtain rfl : r = (file, first, last) := by simpa [splitRuns] using hr
    exact ⟨Or.inl rfl, Or.inl rfl, Or.inl rfl⟩
  | cons n rest ih =>
    intro file first last hr
    have hin : ∀ {z : ℤ} {g : UInt64 → ℤ} {w : ℤ}, (z = g n ∨ ∃ x ∈ rest, z = g x) →
        z = w ∨ ∃ x ∈ n :: rest, z = g x := by
      rintro z g w (h | ⟨x, hx, h⟩)
      · exact Or.inr ⟨n, by simp, h⟩
      · exact Or.inr ⟨x, by simp [hx], h⟩
    rw [splitRuns] at hr
    split_ifs at hr
    · rcases List.mem_cons.mp hr with rfl | hr
      · exact ⟨Or.inl rfl, Or.inl rfl, Or.inl rfl⟩
      · obtain ⟨hfile, hfirst, hlast⟩ := ih hr
        exact ⟨hin hfile, hin hfirst, hin hlast⟩
    · obtain ⟨hfile, hfirst, hlast⟩ := ih hr
      refine ⟨hin hfile, ?_, hin hlast⟩
      rcases hfirst with h | ⟨x, hx, h⟩
      · exact Or.inl h
      · exact Or.inr ⟨x, by simp [hx], h⟩

end Veejay.Edl
