import Veejay.EditList.Ascii

/-!
# The buffer of an edit list that is sent

`vj_el_write_line_ascii` counts the breaks between the runs once to estimate the size of its buffer and once more while
it writes.  The first count starts behind the place whose *number* is the first entry, the second one behind the first
entry.

* `Printable` — the edit lists whose files can be asked for their codec;
* `fileSize`, `lineSize`, `lineRoom` — the bytes of a file, those of the line, and the buffer;
* `vjElWriteLineAscii_run` — what the writer does with any of these lists;
* `asciiFits_iff` — **the lists whose line stays in its buffer.**
-/

namespace Veejay.ElReply

open CLib Veejay.Edl

/-- The edit lists that can be printed: the frame list holds the entries, the files that are listed are open, and the
texts are C strings. -/
structure Printable (el : EditList) (xs : List UInt64) : Prop where
  holds : Holds el xs
  ne_nil : xs ≠ []
  total : el.totalFrames.toNat + 1 = xs.length
  opened : ∀ j ∈ listed el xs maxEditListFiles, j < el.numVideoFiles → (el.lavFd j).isSome = true
  names : ∀ j, ∀ name ∈ el.videoFileList j, (0 : UInt8) ∉ name
  codecs : ∀ j, ∀ compr ∈ codec el j, (0 : UInt8) ∉ compr

/-- The line stays in its buffer, and the length that is returned (`strlen`) is that of the text written. -/
def AsciiFits (el : EditList) : Prop :=
  Ensures (vjElWriteLineAscii el) fun r => ∀ line ∈ r, (cstring line).length = line.length

/-! ## Sizes -/

/-- The text that is written for the codec of a file. -/
def writtenFourcc (el : EditList) (j : ℕ) : CStr := if el.numVideoFiles ≤ j then lit "????" else sentFourcc el j

/-- The fields of a file. -/
def writtenFile (el : EditList) (j : ℕ) : CStr :=
  (CLib.counted 3 ((el.videoFileList j).getD []) ++ (zeroPadded 4 j ++
    (zeroPadded 10 (el.numFrames j).toUInt64.toNat ++ CLib.counted 2 (writtenFourcc el j)))).take 2047

/-- The bytes of the fields of a file: the name and the codec behind their lengths, the slot, and the frames. -/
def fileSize (el : EditList) (j : ℕ) : ℕ :=
  min 2047 (max 3 (decimal (nameLength el j)).length + nameLength el j + 4 +
    max 10 (decimal (el.numFrames j).toUInt64.toNat).length + 2 + (writtenFourcc el j).length)

/-- The breaks of a frame list behind an entry, the files told apart by their numbers in the line. -/
def breaksBehind (el : EditList) (xs : List UInt64) (x : UInt64) (rest : List UInt64) : ℕ :=
  countBreaks (asciiIndex el xs) (asciiIndex el xs (nElFile x).toNat) (nElFrame x).toNat rest

/-- The bytes of the line. -/
def lineSize (el : EditList) : List UInt64 → ℕ
  | [] => 0
  | x :: rest =>
      4 + (((listed el (x :: rest) maxEditListFiles).map (fileSize el)).sum +
        48 * (breaksBehind el (x :: rest) x rest + 1))

/-- The bytes that are counted: 45 and the name for each file, and 64 for each break behind the place whose number is
the first entry. -/
def countedBytes (el : EditList) : List UInt64 → ℕ
  | [] => 0
  | x :: rest =>
      ((listed el (x :: rest) maxEditListFiles).map fun j => nameLength el j + 45).sum +
        64 * breaksBehind el (x :: rest) x ((x :: rest).drop (x + 1).toNat)

/-- The size of the buffer: the double of these bytes, as an `int`. -/
def lineRoom (el : EditList) (xs : List UInt64) : ℤ := Int.bmod (2 * countedBytes el xs) (2 ^ 32)

/-- The place behind the one whose number is the first entry is one that a frame list can have. -/
def FirstInReach (xs : List UInt64) : Prop := ∀ x ∈ xs.head?, (x + 1).toNat < 2 ^ 63

theorem lineSize_cons (el : EditList) (x : UInt64) (rest : List UInt64) :
    lineSize el (x :: rest) = 4 + (((listed el (x :: rest) maxEditListFiles).map (fileSize el)).sum +
      48 * (breaksBehind el (x :: rest) x rest + 1)) := rfl

theorem countedBytes_cons (el : EditList) (x : UInt64) (rest : List UInt64) :
    countedBytes el (x :: rest) = ((listed el (x :: rest) maxEditListFiles).map fun j => nameLength el j + 45).sum +
      64 * breaksBehind el (x :: rest) x ((x :: rest).drop (x + 1).toNat) := rfl

theorem estLen_countedBytes (el : EditList) (xs : List UInt64) : estLen (countedBytes el xs) = lineRoom el xs :=
  Int32.toInt_ofInt

theorem lineRoom_of_lt {el : EditList} {xs : List UInt64} (h : countedBytes el xs < 2 ^ 30) :
    lineRoom el xs = 2 * countedBytes el xs := by
  rw [← estLen_countedBytes]
  exact int32_toInt_ofInt (by omega) (by omega)

theorem zeroPadded_length_eq (w n : ℕ) : (zeroPadded w n).length = max w (decimal n).length := by
  rw [zeroPadded, List.length_append, List.length_replicate]
  omega

theorem writtenFourcc_length_le (el : EditList) (j : ℕ) : (writtenFourcc el j).length ≤ 4 := by
  rw [writtenFourcc]
  split_ifs
  · decide
  · exact sentFourcc_length_le el j

theorem writtenFile_length {el : EditList} {j : ℕ} (hj : j < maxEditListFiles) :
    (writtenFile el j).length = fileSize el j := by
  have hfourcc := writtenFourcc_length_le el j
  rw [maxEditListFiles] at hj
  rw [writtenFile, List.length_take, List.length_append, List.length_append, List.length_append,
    (counted_length_iff (w := 2) (by decide)).mpr (by omega), zeroPadded_length (w := 4) (by decide) (by omega),
    CLib.counted, List.length_append, zeroPadded_length_eq, zeroPadded_length_eq, fileSize, nameLength]
  congr 1
  omega

theorem mem_listed {el : EditList} {xs : List UInt64} {n j : ℕ} (h : j ∈ listed el xs n) : j < n :=
  List.mem_range.mp (List.mem_filter.mp h).1

theorem listed_length_le (el : EditList) (xs : List UInt64) (n : ℕ) : (listed el xs n).length ≤ n := by
  have hle := (List.filter_sublist (l := List.range n)
    (p := fun j => isUsed xs j && (el.videoFileList j).isSome)).length_le
  rw [List.length_range] at hle
  exact hle

/-- The numbers of the files fit their fields. -/
theorem asciiIndex_fits (el : EditList) (xs : List UInt64) {j : ℕ} (hj : j < maxEditListFiles) :
    Fits 16 (asciiIndex el xs j) := by
  have hle := listed_length_le el xs j
  rw [maxEditListFiles] at hj
  rw [asciiIndex]
  split_ifs
  · exact fits_of_nat.mpr (by omega)
  · decide
  · decide

theorem asciiRuns_length {index : ℕ → ℤ} (hindex : ∀ j < maxEditListFiles, Fits 16 (index j)) (rest : List UInt64) :
    ∀ (oldfile : ℤ) {oldframe : ℤ}, Fits 16 oldframe →
      (asciiRuns index oldfile oldframe rest).length = 16 + 48 * countBreaks index oldfile oldframe rest := by
  induction rest with
  | nil =>
    intro oldfile oldframe hframe
    exact (zeroPaddedInt_length_iff (by decide)).mpr hframe
  | cons x rest ih =>
    intro oldfile oldframe hframe
    have hx : Fits 16 ((nElFrame x).toNat : ℤ) := by
      rw [fits_of_nat, nElFrame_toNat]
      omega
    have hrest := ih (index (nElFile x).toNat) hx
    rw [asciiRuns, countBreaks, List.length_append, hrest]
    split_ifs with hbreak
    · rw [List.length_append, List.length_append, (zeroPaddedInt_length_iff (by decide)).mpr hframe,
        (zeroPaddedInt_length_iff (by decide)).mpr (hindex _ (nElFile_lt x)),
        zeroPadded_length (by decide) (fits_of_nat.mp hx)]
      omega
    · rw [List.length_nil]
      omega

/-! ## The line -/

/-- The text that is printed. -/
def writtenLine (el : EditList) : List UInt64 → CStr
  | [] => []
  | x :: rest =>
      zeroPadded 4 (listed el (x :: rest) maxEditListFiles).length ++
        ((listed el (x :: rest) maxEditListFiles).flatMap (writtenFile el) ++
          (zeroPaddedInt 16 (asciiIndex el (x :: rest) (nElFile x).toNat) ++ (zeroPaddedInt 16 (nElFrame x).toNat ++
            asciiRuns (asciiIndex el (x :: rest)) (asciiIndex el (x :: rest) (nElFile x).toNat) (nElFrame x).toNat
              rest)))

section Print

variable {el : EditList} {xs : List UInt64}

theorem writtenLine_length (x : UInt64) (rest : List UInt64) :
    (writtenLine el (x :: rest)).length = lineSize el (x :: rest) := by
  have hx : Fits 16 ((nElFrame x).toNat : ℤ) := by
    rw [fits_of_nat, nElFrame_toNat]
    omega
  have hindex := fun j hj => asciiIndex_fits el (x :: rest) (j := j) hj
  have hcount := listed_length_le el (x :: rest) maxEditListFiles
  have hfiles : ((listed el (x :: rest) maxEditListFiles).flatMap (writtenFile el)).length =
      ((listed el (x :: rest) maxEditListFiles).map (fileSize el)).sum := by
    rw [List.length_flatMap]
    exact congrArg List.sum (List.map_congr_left fun j hj => writtenFile_length (mem_listed hj))
  rw [maxEditListFiles] at hcount
  rw [writtenLine, List.length_append, List.length_append, List.length_append, List.length_append, hfiles,
    zeroPadded_length (by decide) (by rw [maxEditListFiles]; omega),
    (zeroPaddedInt_length_iff (by decide)).mpr (hindex _ (nElFile_lt x)),
    (zeroPaddedInt_length_iff (by decide)).mpr hx, asciiRuns_length hindex rest _ hx, lineSize, breaksBehind]
  omega

theorem asciiRuns_no_zero (index : ℕ → ℤ) (rest : List UInt64) :
    ∀ oldfile oldframe : ℤ, (0 : UInt8) ∉ asciiRuns index oldfile oldframe rest := by
  induction rest with
  | nil => exact fun _ oldframe => zeroPaddedInt_no_zero 16 oldframe
  | cons x rest ih =>
    intro oldfile oldframe
    rw [asciiRuns, List.mem_append, not_or]
    refine ⟨?_, ih _ _⟩
    split_ifs
    · rw [List.mem_append, List.mem_append, not_or, not_or]
      exact ⟨zeroPaddedInt_no_zero 16 _, zeroPaddedInt_no_zero 16 _, zeroPadded_no_zero 16 _⟩
    · exact List.not_mem_nil

theorem writtenFile_no_zero (h : Printable el xs) (j : ℕ) : (0 : UInt8) ∉ writtenFile el j := by
  have hname : (0 : UInt8) ∉ (el.videoFileList j).getD [] := by
    cases hj : el.videoFileList j with
    | none => exact List.not_mem_nil
    | some name => exact h.names j name hj
  have hfourcc : (0 : UInt8) ∉ writtenFourcc el j := by
    rw [writtenFourcc]
    split_ifs
    · decide
    · rw [sentFourcc]
      cases hj : codec el j with
      | none => decide
      | some compr => exact fun hmem => h.codecs j compr hj (List.mem_of_mem_take hmem)
  intro hmem
  rcases List.mem_append.mp (List.mem_of_mem_take hmem) with hmem | hmem
  · exact counted_no_zero hname hmem
  rcases List.mem_append.mp hmem with hmem | hmem
  · exact zeroPadded_no_zero _ _ hmem
  rcases List.mem_append.mp hmem with hmem | hmem
  · exact zeroPadded_no_zero _ _ hmem
  · exact counted_no_zero hfourcc hmem

theorem writtenLine_no_zero (h : Printable el xs) : (0 : UInt8) ∉ writtenLine el xs := by
  cases xs with
  | nil => exact List.not_mem_nil
  | cons x rest =>
    rw [writtenLine, List.mem_append, List.mem_append, List.mem_append, List.mem_append, not_or, not_or, not_or, not_or]
    refine ⟨zeroPadded_no_zero _ _, fun hmem => ?_, zeroPaddedInt_no_zero _ _, zeroPaddedInt_no_zero _ _,
      asciiRuns_no_zero _ _ _ _⟩
    obtain ⟨j, -, hj⟩ := List.mem_flatMap.mp hmem
    exact writtenFile_no_zero h j hj

theorem fileFields_run (h : Printable el xs) (js : List ℕ) (hjs : ∀ j ∈ js, j ∈ listed el xs maxEditListFiles) :
    fileFields el js = .ok (js.flatMap (writtenFile el)) := by
  induction js with
  | nil => rfl
  | cons j js ih =>
    have hget : vjElGetFileFourcc el j (lit "????") = .ok (writtenFourcc el j) := by
      rw [vjElGetFileFourcc, writtenFourcc]
      by_cases hnum : el.numVideoFiles ≤ j
      · rw [if_pos hnum, if_pos hnum]
      · obtain ⟨fd, hfd⟩ := Option.isSome_iff_exists.mp (h.opened j (hjs j List.mem_cons_self) (by omega))
        rw [if_neg hnum, if_neg hnum, sentFourcc, codec, hfd]
        rfl
    rw [fileFields, fileField, hget, ok_bind, ok_bind, ih fun i hi => hjs i (List.mem_cons_of_mem j hi), ok_bind,
      List.flatMap_cons, writtenFile]

/-- **What the writer does**: it prints the line into the buffer. -/
theorem vjElWriteLineAscii_run (h : Printable el xs) (hempty : el.isEmpty = false) (hfirst : FirstInReach xs) :
    vjElWriteLineAscii el = printInto (lineRoom el xs).toNat (writtenLine el xs) >>= fun result => .ok (some result) := by
  obtain ⟨x, rest, rfl⟩ := List.exists_cons_of_ne_nil h.ne_nil
  obtain ⟨hn2, hall, hrest, hload⟩ := read_whole h.holds h.total
  have hvisited := visited_eq h.holds (hfirst x rfl)
  rw [List.length_cons, show ((rest.length + 1 : ℕ) : ℤ) - 1 = rest.length by omega] at hvisited
  have hfiles := fileFields_run h (listed el (x :: rest) maxEditListFiles) fun j hj => hj
  rw [vjElWriteLineAscii, if_neg (by rw [hempty]; exact Bool.false_ne_true)]
  dsimp only
  rw [hn2, show ((rest.length : ℤ) + 1).toNat = rest.length + 1 by omega, hall, ok_bind, hload, ok_bind, hvisited,
    ok_bind, hfiles, ok_bind, Int.toNat_natCast, hrest, ok_bind]
  rw [writtenLine, ← estLen_countedBytes, countedBytes]
  rfl

/-- Otherwise, it does not come to the buffer. -/
theorem vjElWriteLineAscii_fault (h : Printable el xs) (hempty : el.isEmpty = false) (hfirst : ¬ FirstInReach xs) :
    ∃ f, vjElWriteLineAscii el = .error f := by
  obtain ⟨x, rest, rfl⟩ := List.exists_cons_of_ne_nil h.ne_nil
  obtain ⟨hn2, hall, -, hload⟩ := read_whole h.holds h.total
  have hbig : 2 ^ 63 ≤ (x + 1).toNat := by
    by_contra hsmall
    refine hfirst fun y hy => ?_
    obtain rfl := Option.some.inj hy
    omega
  have hlt := x.toNat_lt
  have hreach : 2 ^ 63 ≤ x.toNat + 1 ∧ x.toNat < 2 ^ 64 - 1 := by
    rw [UInt64.toNat_add, UInt64.toNat_one] at hbig
    omega
  obtain ⟨f, hf⟩ := @visited_error el x hreach.1 hreach.2 rest.length
  refine ⟨f, ?_⟩
  rw [vjElWriteLineAscii, if_neg (by rw [hempty]; exact Bool.false_ne_true)]
  dsimp only
  rw [hn2, show ((rest.length : ℤ) + 1).toNat = rest.length + 1 by omega, hall, ok_bind, hload, ok_bind, hf]
  rfl

/-- **The lists whose line stays in its buffer**: the first loop stays in the frame list, and finds enough breaks. -/
theorem asciiFits_iff (h : el.isEmpty = false → Printable el xs) :
    AsciiFits el ↔ el.isEmpty = true ∨ (FirstInReach xs ∧ (lineSize el xs : ℤ) < lineRoom el xs) := by
  cases hempty : el.isEmpty with
  | true =>
    refine iff_of_true ?_ (.inl rfl)
    rw [AsciiFits, vjElWriteLineAscii, if_pos hempty, ensures_ok]
    intro line hline
    cases hline
  | false =>
    have hprint := h hempty
    rw [AsciiFits, or_iff_right Bool.false_ne_true]
    by_cases hfirst : FirstInReach xs
    · obtain ⟨x, rest, rfl⟩ := List.exists_cons_of_ne_nil hprint.ne_nil
      have hlength := @writtenLine_length el x rest
      rw [vjElWriteLineAscii_run hprint hempty hfirst, printInto, hlength, and_iff_right hfirst]
      by_cases hroom : lineSize el (x :: rest) < (lineRoom el (x :: rest)).toNat
      · rw [if_pos hroom, ok_bind, ensures_ok]
        refine iff_of_true (fun line hline => ?_) (by omega)
        obtain rfl := Option.some.inj hline
        rw [cstring_of_not_mem (writtenLine_no_zero hprint)]
      · rw [if_neg hroom]
        exact iff_of_false (ensures_error _ _) (by omega)
    · obtain ⟨f, hf⟩ := vjElWriteLineAscii_fault hprint hempty hfirst
      rw [hf]
      exact iff_of_false (ensures_error _ _) fun hfit => hfirst hfit.1

end Print

/-! ## Two edit lists -/

/-- A list over one movie, whose name has one letter. -/
def movieA (xs : List UInt64) : EditList :=
  { (sessionOver xs []).el with
    numVideoFiles := 1
    videoFileList := fun j => if j = 0 then some (lit "a") else none
    lavFd := fun _ => some
      { videoFrames := 10
        videoWidth := 352
        videoHeight := 288
        videoInterlacing := 0
        frameRate := 25
        mjpgChroma := 0
        audioChannels := 0
        audioRate := 0
        audioBits := 0
        frameSize := fun _ => 0
        videoCompressor := none }
    numFrames := fun _ => 10 }

theorem movieA_printable {xs : List UInt64} (hne : xs ≠ []) (hholds : Holds (movieA xs) xs)
    (htotal : (movieA xs).totalFrames.toNat + 1 = xs.length) : Printable (movieA xs) xs where
  holds := hholds
  ne_nil := hne
  total := htotal
  opened := fun _ _ _ => rfl
  names := by
    intro j name hname
    show (0 : UInt8) ∉ name
    change name ∈ (if j = 0 then some (lit "a") else none) at hname
    split_ifs at hname
    · obtain rfl := Option.some.inj hname
      decide
    · cases hname
  codecs := fun _ _ hcompr => nomatch hcompr

/-- The first two frames that are not in a row: the count starts behind the first entry. -/
theorem asciiFits_first_frame : AsciiFits (movieA [0, 5]) := by
  have hlisted : listed (movieA [0, 5]) [0, 5] maxEditListFiles = [0] := by decide +kernel
  refine (asciiFits_iff fun _ => movieA_printable (by decide) ⟨rfl, rfl⟩ rfl).mpr (.inr ⟨?_, ?_⟩)
  · intro x hx
    obtain rfl := Option.some.inj hx
    decide
  · have hsize : lineSize (movieA [0, 5]) [0, 5] = 124 := by
      rw [lineSize_cons, hlisted]
      decide
    have hcounted : countedBytes (movieA [0, 5]) [0, 5] = 110 := by
      rw [countedBytes_cons, hlisted]
      decide
    rw [hsize, lineRoom_of_lt (by omega), hcounted]
    decide

/-- The same frames of the movie's end: the count starts behind the list, and the buffer is too small. -/
theorem ascii_overrun : Printable (movieA [5, 7]) [5, 7] ∧ (movieA [5, 7]).isEmpty = false ∧
    vjElWriteLineAscii (movieA [5, 7]) = .error .overrun := by
  have hlisted : listed (movieA [5, 7]) [5, 7] maxEditListFiles = [0] := by decide +kernel
  have hprint : Printable (movieA [5, 7]) [5, 7] := movieA_printable (by decide) ⟨rfl, rfl⟩ rfl
  have hfirst : FirstInReach [5, 7] := by
    intro x hx
    obtain rfl := Option.some.inj hx
    decide
  refine ⟨hprint, rfl, ?_⟩
  have hsize : lineSize (movieA [5, 7]) [5, 7] = 124 := by
    rw [lineSize_cons, hlisted]
    decide
  have hcounted : countedBytes (movieA [5, 7]) [5, 7] = 46 := by
    rw [countedBytes_cons, hlisted]
    decide
  rw [vjElWriteLineAscii_run hprint rfl hfirst, printInto, writtenLine_length, hsize, lineRoom_of_lt (by omega),
    hcounted]
  rfl

end Veejay.ElReply
