import Veejay.EditList.LoadValid
import Veejay.EditList.Write

/-!
# Writing an edit list and loading it again

A written list is loaded again in any setting in which its movie files reopen with as many frames as
before and the heap serves what the entries need.  The loader gives up every list with two or more
names (`readRest_twoFiles`), so what comes back is what was written exactly where the range uses one
movie file, whose name fits its line and whose frames fit the numbers of the loader.

* `Listed`, `LoadSetting`, `RoundTrips` — the lists, the settings and the property;
* `FitsOneFile` — the ranges that come back;
* `vjElWriteEditlist_roundTrips_iff` — **the round trip, exactly.**
-/

namespace Veejay.Edl

open CLib

/-! ## The property -/

/-- A list whose file table is in order: every open file has a name of its own and a frame. -/
structure Listed (el : EditList) : Prop where
  notEmpty : el.isEmpty = false
  inTable : el.numVideoFiles ≤ maxEditListFiles
  names : ∀ i < el.numVideoFiles, ∃ name, el.videoFileList i = some name ∧ name ≠ [] ∧
    (0 : UInt8) ∉ name
  distinct : ∀ i < el.numVideoFiles, ∀ j < el.numVideoFiles,
    el.videoFileList i = el.videoFileList j → i = j
  frames : ∀ i < el.numVideoFiles, 1 ≤ (el.numFrames i).toInt

/-- A movie file can be opened, and has that many frames and a picture. -/
def Reopens (lib : MediaLib) (fl : OpenFlags) (name : CStr) (frames : Int64) : Prop :=
  ∀ norm, ∃ el, openVideoFile lib fl name (freshEl norm) = .ok (0, el) ∧ el.numFrames 0 = frames ∧
    el.videoWidth ≠ 0 ∧ el.videoHeight ≠ 0

/-- A setting in which the text that was written from the entries `used` is loaded. -/
structure LoadSetting (el : EditList) (used : List UInt64) (text : List UInt8) (mem : Allocator)
    (lib : MediaLib) (fl : OpenFlags) (name : CStr) : Prop where
  contents : lib.contents name = some text
  notNorm : isNormArgument name = false
  serves : ∀ k, 1 ≤ k → k ≤ used.length → mem.Serves k
  reopens : ∀ x ∈ used, ∀ file, el.videoFileList (nElFile x).toNat = some file →
    Reopens lib fl file (el.numFrames (nElFile x).toNat)

/-- The entries of `el'` are the entries `used`, with the file numbers of the written text. -/
def SameEntries (used : List UInt64) (el' : EditList) : Prop :=
  ∃ ys, Holds el' ys ∧
    ys.map (fun y => (((nElFile y).toNat : ℤ), nElFrame y)) =
      used.map fun x => (fileIndex used (nElFile x).toNat, nElFrame x)

/-- Writing `n1 .. n2` and loading the text gives these entries back, in every setting. -/
def RoundTrips (el : EditList) (n1 n2 : ℕ) : Prop :=
  Ensures (loadEntries el.frameList n1 (n2 + 1 - n1)) fun used =>
    Ensures (vjElWriteEditlist el (Int64.ofNat n1) (Int64.ofNat n2)) fun out =>
      ∃ text, out = some text ∧ ∀ mem lib fl name, LoadSetting el used text mem lib fl name →
        Ensures (vjElInitWithArgs mem lib fl [name]) fun r =>
          ∃ el', r = some el' ∧ SameEntries used el'

/-- The entries `n1 .. n2` are of one file with a short name of one line, and their frames are not
beyond it and fit an `int`. -/
def FitsOneFile (el : EditList) (n1 n2 : ℕ) : Prop :=
  ∃ f name, el.videoFileList f = some name ∧ newline ∉ name ∧ name.length ≤ 1022 ∧
    ∀ i, n1 ≤ i → i ≤ n2 → ∀ x, el.entryAt i = some x →
      (nElFile x).toNat = f ∧ (nElFrame x).toNat < 2 ^ 31 ∧
        ((nElFrame x).toNat : ℤ) ≤ (el.numFrames f).toInt

/-! ## The first lines -/

/-- The norm a written list is loaded with. -/
def writtenNorm (el : EditList) : UInt8 := if el.videoNorm = 110 then 110 else 112

/-- The loader once the count has been read. -/
def counted (norm : UInt8) (num : ℕ) : Loader :=
  { startLoad 0 with
    line := decimalInt num ++ [newline]
    numListFiles := some num
    el := freshEl norm }

theorem normName_line (el : EditList) (rest : List UInt8) :
    fgetsLines 1024 (normName el ++ newline :: rest) =
      (normName el ++ [newline]) :: fgetsLines 1024 rest := by
  unfold normName
  split_ifs
  · exact fgetsLines_cons (n := 1022) (by decide) (by decide) (by decide)
  · exact fgetsLines_cons (n := 1022) (by decide) (by decide) (by decide)

theorem normName_head (el : EditList) :
    isNorm ((normName el ++ [newline]).headD 0) = true ∧
      toLower ((normName el ++ [newline]).headD 0) = writtenNorm el := by
  unfold normName writtenNorm
  split_ifs
  · decide
  · decide

theorem count_line {num : ℕ} (hnum : num ≤ maxEditListFiles) (rest : List UInt8) :
    fgetsLines 1024 (decimalInt num ++ newline :: rest) =
      (decimalInt num ++ [newline]) :: fgetsLines 1024 rest := by
  obtain ⟨hnl, h0⟩ := not_mem_decimalInt num
  have hlen : (decimalInt num).length ≤ 4 + 1 :=
    decimalInt_length_le (by norm_num) (by unfold maxEditListFiles at hnum; omega)
  exact fgetsLines_cons (n := 1022) hnl h0 (by omega)

/-- **The first three lines** of a written list are read as they were written. -/
theorem vjElInitWithArgs_written {mem : Allocator} {lib : MediaLib} {fl : OpenFlags} {name : CStr}
    {el : EditList} {num : ℕ} {body : List UInt8} (hnum : num ≤ maxEditListFiles)
    (harg : isNormArgument name = false)
    (htext : lib.contents name = some (editListHeader ++ (normName el ++ newline ::
      (decimalInt num ++ newline :: body)))) :
    vjElInitWithArgs mem lib fl [name] =
      readRest mem lib fl num (fgetsLines 1024 body) (counted (writtenNorm el) num) >>= fun read =>
        match read with
        | none => .ok none
        | some st => .ok (finishLoad st.el) := by
  obtain ⟨hnorm, hlower⟩ := normName_head el
  have hread : readFile mem lib fl name (startLoad 0) =
      readRest mem lib fl num (fgetsLines 1024 body) (counted (writtenNorm el) num) := by
    have hcount : scanCount { startLoad 0 with
        line := decimalInt num ++ [newline], el := freshEl (writtenNorm el) } =
          counted (writtenNorm el) num := by
      unfold maxEditListFiles at hnum
      have hscan := scanInt_decimalInt num [newline] (by simp [newline, isDigit])
      rw [scanCount]
      simp only [hscan, intValue_of_fits (show (-2 ^ 31 : ℤ) ≤ num by omega)
        (show (num : ℤ) < 2 ^ 31 by omega)]
      rfl
    have hadopt : adoptNorm { startLoad 0 with line := normName el ++ [newline] } =
        { startLoad 0 with line := normName el ++ [newline], el := freshEl (writtenNorm el) } := by
      rw [adoptNorm, if_neg (show ¬(startLoad 0).el.videoNorm ≠ 0 from fun h => h rfl), ← hlower]
      rfl
    rw [readFile, htext]
    simp only [fgets_eq, fgetsLines_header, nextLine, if_true]
    rw [readEditList]
    simp only [fgets_eq, normName_line, nextLine]
    rw [if_neg (by rw [hnorm]; decide), count_line hnum, hadopt]
    simp only [hcount, counted]
  rw [vjElInitWithArgs, if_neg (by simp [harg])]
  simp only [readFiles]
  rw [hread]
  cases readRest mem lib fl num (fgetsLines 1024 body) (counted (writtenNorm el) num) with
  | error f => rfl
  | ok read => cases read <;> rfl

/-! ## The names -/

/-- **A list of two or more names is given up**, or faults. -/
theorem readRest_twoFiles {mem : Allocator} {lib : MediaLib} {fl : OpenFlags} {num : ℕ}
    {input : List CStr} {norm : UInt8} (hnum : 2 ≤ num) (hle : num ≤ maxEditListFiles)
    (hinput : ∀ l ∈ input, l.length ≤ 1023) (st : Loader) :
    readRest mem lib fl num input (counted norm num) ≠ .ok (some st) := by
  have hline : (counted norm num).line.length ≤ 1023 := by
    have hlen : (decimalInt num).length ≤ 4 + 1 :=
      decimalInt_length_le (by norm_num) (by unfold maxEditListFiles at hle; omega)
    show (decimalInt num ++ [newline]).length ≤ 1023
    rw [List.length_append, List.length_singleton]
    omega
  obtain ⟨hname, hinput'⟩ := nextLine_length _ hline hinput
  rw [readRest, readNames, if_pos (by omega), fgets_eq]
  generalize nextLine (counted norm num).line input = next at *
  obtain ⟨name, rest⟩ := next
  dsimp only at hname hinput' ⊢
  by_cases hne : name = []
  · rw [readName_nil (by exact hne)]
    exact fun h => by cases h
  by_cases hlast : name.getLast? = some newline
  · obtain ⟨fd, el, hopen, h⟩ := openVideoFile_fresh lib fl name.dropLast norm
    have hfirst := readName_first mem { counted norm num with line := name } rfl
      hname hlast hopen h
    rw [hfirst, ok_bind]
    dsimp only
    rw [readNames, if_pos (by omega), fgets_eq]
    have hlen : name.dropLast.length ≤ 1023 := by
      rw [List.length_dropLast]
      omega
    obtain ⟨hsecond, -⟩ := nextLine_length _ hlen hinput'
    have hstop := readName_second mem lib fl
      { (({ counted norm num with line := name } : Loader).named fd el) with
        line := (nextLine name.dropLast rest).1 } h rfl hsecond
    by_cases hnil : (nextLine name.dropLast rest).1 = []
    · simp only [Loader.named, hnil]
      rw [readName_nil rfl]
      exact fun h => by cases h
    · obtain ⟨r, hr, rfl⟩ := hstop.mpr hnil
      simp only [Loader.named] at hr ⊢
      rw [hr]
      exact fun h => by cases h
  · rw [readName_tooLong { counted norm num with line := name } hne hlast]
    exact fun h => by cases h

/-- The only name of a list. -/
theorem readRest_oneFile {mem : Allocator} {lib : MediaLib} {fl : OpenFlags} {name : CStr}
    {lines : List CStr} {norm : UInt8} {fd : ℤ} {el : EditList} (hlen : name.length ≤ 1022)
    (hopen : openVideoFile lib fl name (freshEl norm) = .ok (fd, el)) (h : Opened norm fd el) :
    readRest mem lib fl (1 : ℕ) ((name ++ [newline]) :: lines) (counted norm 1) =
      readEntries mem lines
        (({ counted norm 1 with line := name ++ [newline] } : Loader).named fd el) := by
  have hfirst := readName_first mem { counted norm 1 with line := name ++ [newline] } rfl
    (by simp only [List.length_append, List.length_singleton]; omega) (by simp)
    (by simp only [List.dropLast_concat]; exact hopen) h
  rw [readRest, readNames, if_pos (by norm_num), fgets]
  dsimp only
  rw [hfirst, ok_bind]
  dsimp only
  rw [readNames_of_le (by norm_num), ok_bind]

/-- A name that does not fit its line ends the load. -/
theorem readRest_longName {mem : Allocator} {lib : MediaLib} {fl : OpenFlags} {l rest : List UInt8}
    {norm : UInt8} (hnl : newline ∉ l) (h0 : (0 : UInt8) ∉ l) (hlen : 1023 ≤ l.length) :
    readRest mem lib fl (1 : ℕ) (fgetsLines 1024 (l ++ rest)) (counted norm 1) = .ok none := by
  obtain ⟨lines, hlines⟩ := fgetsLines_long (n := 1022) rest hnl h0 hlen
  have hne : l.take 1023 ≠ [] := by
    intro h
    have := congrArg List.length h
    rw [List.length_take, List.length_nil] at this
    omega
  have hlast : (l.take 1023).getLast? ≠ some newline := fun h =>
    hnl (List.mem_of_mem_take (List.mem_of_getLast? h))
  rw [hlines, readRest, readNames, if_pos (by norm_num), fgets]
  dsimp only
  rw [readName_tooLong { counted norm 1 with line := l.take 1023 } hne hlast, ok_bind]
  rfl

/-- A name that is no line of its own is not the name that is opened. -/
theorem readRest_badName {mem : Allocator} {lib : MediaLib} {fl : OpenFlags} {name : CStr}
    {body : List UInt8} {norm : UInt8} (h0 : (0 : UInt8) ∉ name)
    (hbad : newline ∈ name ∨ 1022 < name.length)
    (honly : ∀ file, file ≠ name → lib.lavOpenInputFile file = none) {st : Loader}
    (hread : readRest mem lib fl (1 : ℕ) (fgetsLines 1024 (name ++ newline :: body))
      (counted norm 1) = .ok (some st)) : st.el.numVideoFiles = 0 := by
  by_cases hmem : newline ∈ name
  · -- the line ends within the name
    obtain ⟨front, back, rfl, hnl⟩ := List.eq_append_cons_of_mem hmem
    have h0' : (0 : UInt8) ∉ front := fun h => h0 (by simp [h])
    rw [List.append_assoc, List.cons_append] at hread
    by_cases hlen : front.length ≤ 1022
    · obtain ⟨fd, el, hopen, h⟩ := openVideoFile_fresh lib fl front norm
      have hother : front ≠ front ++ newline :: back := fun h => by
        have := congrArg List.length h
        simp only [List.length_append, List.length_cons] at this
        omega
      have hfd := (openVideoFile_missing (honly front hother) hopen).1
      rw [fgetsLines_cons (n := 1022) hnl h0' (by omega), readRest_oneFile hlen hopen h] at hread
      obtain ⟨v, f, hel⟩ := readEntries_sameFiles hread
      rcases h.cases with ⟨-, hfiles⟩ | ⟨hzero, -⟩
      · rw [hel]
        exact hfiles
      · rw [hfd] at hzero
        cases hzero
    · rw [readRest_longName hnl h0' (by omega)] at hread
      cases hread
  · have hlen : 1022 < name.length := hbad.resolve_left hmem
    rw [readRest_longName hmem h0 (by omega)] at hread
    cases hread

/-! ## The runs -/

/-- The bounds within which a run can be read back. -/
def ShortRun (r : ℤ × ℤ × ℤ) : Prop :=
  r.1 = 0 ∧ (0 ≤ r.2.1 ∧ r.2.1 < 2 ^ 31) ∧ 0 ≤ r.2.2 ∧ r.2.2 < 2 ^ 31

theorem runLine_line {r : ℤ × ℤ × ℤ} (h : ShortRun r) :
    newline ∉ runLine r ∧ (0 : UInt8) ∉ runLine r ∧ (runLine r).length < 1022 + 1 := by
  obtain ⟨hfile, ⟨hlo, hfirst⟩, hlo', hlast⟩ := h
  obtain ⟨hnl₀, h₀⟩ := not_mem_decimalInt r.1
  obtain ⟨hnl₁, h₁⟩ := not_mem_decimalInt r.2.1
  obtain ⟨hnl₂, h₂⟩ := not_mem_decimalInt r.2.2
  have hlen₀ : (decimalInt r.1).length ≤ 10 + 1 :=
    decimalInt_length_le (by norm_num) (by omega)
  have hlen₁ : (decimalInt r.2.1).length ≤ 10 + 1 :=
    decimalInt_length_le (by norm_num) (by omega)
  have hlen₂ : (decimalInt r.2.2).length ≤ 10 + 1 :=
    decimalInt_length_le (by norm_num) (by omega)
  unfold runLine
  refine ⟨?_, ?_, ?_⟩
  · simp only [List.mem_append, List.mem_cons, not_or]
    exact ⟨hnl₀, by decide, hnl₁, by decide, hnl₂⟩
  · simp only [List.mem_append, List.mem_cons, not_or]
    exact ⟨h₀, by decide, h₁, by decide, h₂⟩
  · simp only [List.length_append, List.length_cons]
    omega

theorem scanEntry_runLine {r : ℤ × ℤ × ℤ} (h : ShortRun r) (args : ℤ × ℤ × ℤ) :
    scanEntry (runLine r ++ [newline]) args = r := by
  obtain ⟨hfile, ⟨hlo, hfirst⟩, hlo', hlast⟩ := h
  have hscan₀ : scanInt (runLine r ++ [newline]) =
      .val r.1 (32 :: (decimalInt r.2.1 ++ 32 :: (decimalInt r.2.2 ++ [newline]))) := by
    rw [runLine, List.append_assoc, List.cons_append, List.append_assoc, List.cons_append]
    exact scanInt_decimalInt _ _ (by simp [isDigit])
  have hscan₁ : scanInt (32 :: (decimalInt r.2.1 ++ 32 :: (decimalInt r.2.2 ++ [newline]))) =
      .val r.2.1 (32 :: (decimalInt r.2.2 ++ [newline])) :=
    scanInt_blank_decimalInt _ _ (by simp [isDigit])
  have hscan₂ : scanInt (32 :: (decimalInt r.2.2 ++ [newline])) = .val r.2.2 [newline] :=
    scanInt_blank_decimalInt _ _ (by simp [isDigit, newline])
  rw [scanEntry, hscan₀]
  dsimp only
  rw [hscan₁]
  dsimp only
  rw [hscan₂]
  dsimp only
  rw [longValue_of_fits (by omega) (by omega), intValue_of_fits (by omega) hfirst,
    intValue_of_fits (by omega) hlast]

theorem runLine_head (r : ℤ × ℤ × ℤ) : (runLine r ++ [newline]).headD 0 ≠ 58 := by
  obtain ⟨c, t, hct, hc⟩ := decimalInt_head r.1
  rw [runLine, hct]
  show c ≠ 58
  rcases hc with hdigit | rfl
  · exact (isDigit_ne hdigit).2.2.2.2.2
  · decide

theorem fgetsLines_runLines {runs : List (ℤ × ℤ × ℤ)} (h : ∀ r ∈ runs, ShortRun r) :
    fgetsLines 1024 (runs.flatMap fun r => runLine r ++ [newline]) =
      runs.map fun r => runLine r ++ [newline] := by
  have hlines := fgetsLines_flatMap (n := 1022) (runs.map runLine) fun l hl => by
    obtain ⟨r, hr, rfl⟩ := List.mem_map.mp hl
    exact runLine_line (h r hr)
  rwa [List.flatMap_map, List.map_map] at hlines

/-- **The runs are asked for as they were written**, where they are short and inside the file. -/
theorem askedRanges_runLines {numFrames : ℤ} {runs : List (ℤ × ℤ × ℤ)}
    (hruns : ∀ r ∈ runs, ShortRun r ∧ r.2.2 ≤ numFrames) : ∀ args : ℤ × ℤ × ℤ,
    askedRanges numFrames args (runs.map fun r => runLine r ++ [newline]) =
      some (runs.map Prod.snd) := by
  induction runs with
  | nil => exact fun _ => rfl
  | cons r runs ih =>
    intro args
    obtain ⟨hshort, hinside⟩ := hruns r (by simp)
    have hcut : cutEntry numFrames (runLine r ++ [newline]) args = r := by
      obtain ⟨hfile, ⟨hlo, hfirst⟩, hlo', hlast⟩ := hshort
      rw [cutEntry, scanEntry_runLine ⟨hfile, ⟨hlo, hfirst⟩, hlo', hlast⟩]
      rw [max_eq_left hlo, min_eq_left hinside]
    rw [List.map_cons, askedRanges, if_neg (runLine_head r), hcut, if_neg (not_not.mpr hshort.1),
      ih fun r' hr' => hruns r' (by simp [hr'])]
    rfl

/-- The heap serves the runs where it serves every number of entries up to their sum. -/
theorem granted_of_serves {mem : Allocator} {ranges : List (ℤ × ℤ)} : ∀ {k : ℕ},
    (∀ n, 1 ≤ n → n ≤ k + (rangesEntries 0 ranges).length → mem.Serves n) →
      Granted mem k ranges := by
  induction ranges with
  | nil => exact fun _ => trivial
  | cons r ranges ih =>
    intro k h
    rw [rangesEntries, List.flatMap_cons, List.length_append, rangeEntries_length] at h
    refine ⟨fun hle => h _ (by omega) (by omega), ih fun n hn hle => h n hn ?_⟩
    rw [rangesEntries] at hle
    omega

/-! ## The text that is written -/

/-- The text of the entries `first :: rest`. -/
def writtenText (el : EditList) (first : UInt64) (rest : List UInt64) : List UInt8 :=
  editListHeader ++ (normName el ++ newline ::
    (decimalInt (numFiles (first :: rest) maxEditListFiles) ++ newline ::
      (nameLines el (first :: rest) maxEditListFiles ++ runText (first :: rest) first rest)))

/-- **What is written** of a range of initialised entries. -/
theorem vjElWriteEditlist_eq {el : EditList} {n1 n2 : ℕ} (hfull : el.isEmpty = false) (h12 : n1 ≤ n2)
    (hlast : n2 ≤ el.totalFrames.toNat)
    (hentries : ∀ i, n1 ≤ i → i ≤ n2 → ∃ x, el.entryAt i = some x) :
    n2 + 1 < 2 ^ 60 ∧ ∃ first rest, loadEntries el.frameList n1 (n2 + 1 - n1) = .ok (first :: rest) ∧
      (first :: rest).length = n2 + 1 - n1 ∧
      (∀ j < n2 + 1 - n1, el.entryAt (n1 + j) = (first :: rest)[j]?) ∧
      vjElWriteEditlist el (Int64.ofNat n1) (Int64.ofNat n2) =
        .ok (some (writtenText el first rest)) := by
  have hbound : n2 + 1 < 2 ^ 60 := by
    obtain ⟨x, hx⟩ := hentries n2 h12 le_rfl
    rw [EditList.entryAt] at hx
    cases hb : el.frameList with
    | none =>
      rw [hb] at hx
      cases hx
    | some b =>
      rw [hb, Option.bind_some, Option.join_eq_some_iff] at hx
      exact lt_of_le_of_lt (List.getElem?_eq_some_iff.mp hx).1 b.bounded
  obtain ⟨used, hused, hlen, hcells⟩ := loadEntries_eq_ok (i := n1) (n2 + 1 - n1)
    fun j hj => hentries (n1 + j) (by omega) (by omega)
  have hcount : n2 + 1 - n1 = (n2 - n1) + 1 := by omega
  have hused' := hused
  rw [hcount, loadEntries] at hused'
  obtain ⟨first, hfirst, hused'⟩ := bind_eq_ok.mp hused'
  obtain ⟨rest, hrest, hused'⟩ := bind_eq_ok.mp hused'
  obtain rfl := Except.ok.inj hused'
  refine ⟨hbound, first, rest, hused, hlen, hcells, ?_⟩
  have hn1 : (Int64.ofNat n1).toInt = n1 := Int64.toInt_ofNat_of_lt (by omega)
  have hn2 : (Int64.ofNat n2).toInt = n2 := Int64.toInt_ofNat_of_lt (by omega)
  have hstop : lastWritten el n1 n2 = n2 := by
    rw [lastWritten, if_neg]
    rw [UInt64.lt_iff_toNat_lt, uint64_toNat_ofInt_of_nonneg (by omega) (by omega)]
    omega
  rw [vjElWriteEditlist, if_neg (by simp [hfull])]
  simp only [hn1, hn2, max_eq_left (Int.natCast_nonneg n1), hstop, Int.toNat_natCast]
  rw [show ((n2 : ℤ) + 1 - n1).toNat = n2 + 1 - n1 by omega,
    show ((n2 : ℤ) - n1).toNat = n2 - n1 by omega, hused, ok_bind, hfirst, ok_bind, hrest, ok_bind]
  rfl

/-- What comes back of a list that was loaded is what its array holds. -/
theorem Holds.of_finish {el el' : EditList} {xs : List UInt64} (h : Holds el xs)
    (hfin : finishLoad el = some el') : Holds el' xs := by
  obtain ⟨-, rfl⟩ := finishLoad_eq_some.mp hfin
  exact h

theorem Holds.unique {el : EditList} {xs ys : List UInt64} (hx : Holds el xs) (hy : Holds el ys) :
    xs = ys := by
  have hlen : xs.length = ys.length := by
    have := hx.1.symm.trans hy.1
    omega
  have hmap : xs.map some = ys.map some := by rw [← hx.2, ← hy.2, hlen]
  exact List.map_injective_iff.mpr (Option.some_injective _) hmap

/-- The entries that are written are those of the range. -/
theorem forall_mem_used {el : EditList} {n1 n2 : ℕ} {used : List UInt64} (h12 : n1 ≤ n2)
    (hlen : used.length = n2 + 1 - n1) (hcells : ∀ j < n2 + 1 - n1, el.entryAt (n1 + j) = used[j]?)
    (P : UInt64 → Prop) :
    (∀ i, n1 ≤ i → i ≤ n2 → ∀ x, el.entryAt i = some x → P x) ↔ ∀ x ∈ used, P x := by
  constructor
  · intro h x hx
    obtain ⟨j, hj⟩ := List.getElem?_of_mem hx
    have hlt : j < used.length := (List.getElem?_eq_some_iff.mp hj).1
    exact h (n1 + j) (by omega) (by omega) x ((hcells j (by omega)).trans hj)
  · intro h i hlo hhi x hx
    have hcell := hcells (i - n1) (by omega)
    rw [show n1 + (i - n1) = i by omega, hx] at hcell
    exact h x (List.mem_of_getElem? hcell.symm)

/-! ## One file comes back -/

theorem nElFile_asFileZero (x : UInt64) : (nElFile (asFileZero x)).toNat = 0 := nElFile_zero _

theorem nElFrame_asFileZero (x : UInt64) : nElFrame (asFileZero x) = nElFrame x := by
  have hlt := nElFrame_toNat x
  refine UInt64.toNat_inj.mp ?_
  rw [asFileZero, nElFrame_elEntry, uint64_toNat_ofInt_of_nonneg (by omega) (by omega)]
  omega

section OneFile

variable {el : EditList} {first : UInt64} {rest : List UInt64} {f : ℕ} {name : CStr}

/-- The text of entries of one file has one name. -/
theorem writtenText_oneFile (hname : el.videoFileList f = some name)
    (hfile : ∀ x ∈ first :: rest, (nElFile x).toNat = f) :
    writtenText el first rest = editListHeader ++ (normName el ++ newline ::
      (decimalInt (1 : ℕ) ++ newline :: (name ++ newline :: runText (first :: rest) first rest))) := by
  have hne : first :: rest ≠ [] := List.cons_ne_nil _ _
  have hf : f < maxEditListFiles := by
    have hx := nElFile_toNat first
    have hlt := first.toNat_lt
    rw [hfile first (by simp)] at hx
    unfold maxEditListFiles
    omega
  rw [writtenText, numFiles_one hne hfile, if_pos hf, nameLines_one hne hfile hname, if_pos hf,
    List.append_assoc, List.singleton_append]

/-- The runs of entries of one file are read back as ranges that are put together to its entries. -/
theorem runText_oneFile (numFrames : ℤ) (hfile : ∀ x ∈ first :: rest, (nElFile x).toNat = f)
    (hfits : ∀ x ∈ first :: rest,
      (nElFrame x).toNat < 2 ^ 31 ∧ ((nElFrame x).toNat : ℤ) ≤ numFrames) (args : ℤ × ℤ × ℤ) :
    ∃ ranges, askedRanges numFrames args (fgetsLines 1024 (runText (first :: rest) first rest)) =
        some ranges ∧ rangesEntries 0 ranges = (first :: rest).map asFileZero := by
  have hindex : ∀ x ∈ first :: rest, fileIndex (first :: rest) (nElFile x).toNat = 0 := fun x hx => by
    rw [fileIndex_one (List.cons_ne_nil _ _) hfile, if_pos (hfile x hx)]
  have hruns : runText (first :: rest) first rest =
      (splitRuns (first :: rest) 0 (nElFrame first).toNat (nElFrame first).toNat rest).flatMap
        fun r => runLine r ++ [newline] := by
    rw [runText_eq, hindex first (by simp)]
  have hshort : ∀ r ∈ splitRuns (first :: rest) 0 (nElFrame first).toNat (nElFrame first).toNat rest,
      ShortRun r ∧ r.2.2 ≤ numFrames := by
    intro r hr
    obtain ⟨hr0, hr1, hr2⟩ := mem_splitRuns hr
    have hframe : ∀ {z : ℤ}, (z = (nElFrame first).toNat ∨ ∃ x ∈ rest, z = (nElFrame x).toNat) →
        0 ≤ z ∧ z < 2 ^ 31 ∧ z ≤ numFrames := by
      rintro z (rfl | ⟨x, hx, rfl⟩)
      · obtain ⟨hlt, hle⟩ := hfits first (by simp)
        exact ⟨by omega, by omega, hle⟩
      · obtain ⟨hlt, hle⟩ := hfits x (by simp [hx])
        exact ⟨by omega, by omega, hle⟩
    obtain ⟨hlo, hhi, -⟩ := hframe hr1
    obtain ⟨hlo', hhi', hin⟩ := hframe hr2
    refine ⟨⟨?_, ⟨hlo, hhi⟩, hlo', hhi'⟩, hin⟩
    rcases hr0 with h | ⟨x, hx, h⟩
    · exact h
    · rw [h, hindex x (by simp [hx])]
  have hrest : ∀ x ∈ rest, fileIndex (first :: rest) (nElFile x).toNat = 0 :=
    fun x hx => hindex x (by simp [hx])
  have hentries := rangesEntries_splitRuns hrest (le_refl ((nElFrame first).toNat : ℤ))
  refine ⟨_, ?_, hentries.trans ?_⟩
  · rw [hruns, fgetsLines_runLines fun r hr => (hshort r hr).1]
    exact askedRanges_runLines hshort args
  · rw [rangeEntries_single]
    rfl

/-- The setting opens the only file of the list. -/
theorem LoadSetting.opened {mem : Allocator} {lib : MediaLib} {fl : OpenFlags} {list : CStr}
    {text : List UInt8} (hset : LoadSetting el (first :: rest) text mem lib fl list)
    (hname : el.videoFileList f = some name) (hfile : (nElFile first).toNat = f) (norm : UInt8) :
    ∃ el₁, openVideoFile lib fl name (freshEl norm) = .ok (0, el₁) ∧ Opened norm 0 el₁ ∧
      el₁.numFrames 0 = el.numFrames f ∧ el₁.numVideoFiles = 1 ∧ el₁.videoWidth ≠ 0 ∧
      el₁.videoHeight ≠ 0 := by
  subst hfile
  obtain ⟨el₁, hopen, hframes, hwidth, hheight⟩ := hset.reopens first (by simp) name hname norm
  obtain ⟨fd, el₂, hopen', h⟩ := openVideoFile_fresh lib fl name norm
  obtain ⟨rfl, rfl⟩ := Prod.mk.inj (Except.ok.inj (hopen.symm.trans hopen'))
  refine ⟨el₁, hopen, h, hframes, ?_, hwidth, hheight⟩
  rcases h.cases with ⟨h, -⟩ | ⟨-, h, -⟩
  · cases h
  · exact h

/-- The loader at the first run is ready to read runs of its one file. -/
theorem Opened.ready {norm : UInt8} {el₁ : EditList} (h : Opened norm 0 el₁) (line : CStr) :
    OneFile (({ counted norm 1 with line } : Loader).named 0 el₁) 0 (el₁.numFrames 0).toInt ∧
      Holds (({ counted norm 1 with line } : Loader).named 0 el₁).el [] := by
  refine ⟨⟨rfl, by simp [Loader.named]; rfl, by decide, rfl, show (0 : ℤ) < 2 ^ 31 by decide⟩, ?_,
    rfl⟩
  show el₁.videoFrames.toInt = _
  rw [h.videoFrames]
  rfl

/-- **One file comes back**, in every setting. -/
theorem load_writtenText (hname : el.videoFileList f = some name) (hnl : newline ∉ name)
    (h0 : (0 : UInt8) ∉ name) (hlen : name.length ≤ 1022)
    (hfits : ∀ x ∈ first :: rest, (nElFile x).toNat = f ∧ (nElFrame x).toNat < 2 ^ 31 ∧
      ((nElFrame x).toNat : ℤ) ≤ (el.numFrames f).toInt)
    {mem : Allocator} {lib : MediaLib} {fl : OpenFlags} {list : CStr}
    (hset : LoadSetting el (first :: rest) (writtenText el first rest) mem lib fl list) :
    Ensures (vjElInitWithArgs mem lib fl [list]) fun r =>
      ∃ el', r = some el' ∧ SameEntries (first :: rest) el' := by
  have hfile : ∀ x ∈ first :: rest, (nElFile x).toNat = f := fun x hx => (hfits x hx).1
  obtain ⟨el₁, hopen, hopened, hframes, hnum, hwidth, hheight⟩ :=
    hset.opened hname (hfile first (by simp)) (writtenNorm el)
  obtain ⟨ranges, hranges, hentries⟩ := runText_oneFile (el.numFrames f).toInt hfile
    (fun x hx => (hfits x hx).2) (0, 0, 0)
  have htext := hset.contents
  rw [writtenText_oneFile hname hfile] at htext
  rw [vjElInitWithArgs_written (by decide) hset.notNorm htext,
    fgetsLines_cons (n := 1022) hnl h0 (by omega), readRest_oneFile hlen hopen hopened]
  obtain ⟨hready, hempty⟩ := hopened.ready (name ++ [newline])
  rw [hframes] at hready
  obtain ⟨r, hr, hcases⟩ := readEntries_ensures mem
    (fgetsLines 1024 (runText (first :: rest) first rest)) hready hempty
  rw [hr, ok_bind]
  cases r with
  | none =>
    refine absurd (granted_of_serves fun n hn hle => hset.serves n hn ?_) (hcases ranges hranges)
    rwa [hentries, List.length_map, List.length_nil, Nat.zero_add] at hle
  | some st =>
    obtain ⟨ranges', hranges', -, ⟨v, p, hel⟩, hholds⟩ := hcases
    obtain rfl : ranges = ranges' := Option.some.inj (hranges.symm.trans hranges')
    rw [hentries, List.nil_append] at hholds
    have hpos : 1 ≤ st.el.videoFrames.toInt := by
      rw [hholds.1, List.length_map, List.length_cons]
      omega
    have hfiles : st.el.numVideoFiles ≠ 0 := by
      rw [hel]
      show el₁.numVideoFiles ≠ 0
      rw [hnum]
      exact one_ne_zero
    have hfin : finishLoad st.el = some _ := finishLoad_eq_some.mpr
      ⟨⟨hfiles, by rw [hel]; exact hwidth, by rw [hel]; exact hheight, hpos⟩, rfl⟩
    dsimp only
    rw [hfin, ensures_ok]
    refine ⟨_, rfl, _, hholds.of_finish hfin, ?_⟩
    rw [List.map_map]
    refine List.map_congr_left fun x hx => ?_
    have hindex : fileIndex (first :: rest) (nElFile x).toNat = 0 := by
      rw [fileIndex_one (List.cons_ne_nil _ _) hfile, if_pos (hfile x hx)]
    rw [Function.comp_apply, nElFile_asFileZero, nElFrame_asFileZero, hindex]
    rfl

end OneFile

/-! ## Nothing else comes back -/

/-- A disk on which exactly the files of the entries `used` reopen, with a list of the given text. -/
def reopening (el : EditList) (used : List UInt64) (text : List UInt8) : MediaLib where
  contents := fun name => if name = lit "list" then some text else none
  canonicalizeFileName := some
  lavOpenInputFile := fun name =>
    if name = [] then none
    else (used.find? fun x => decide (el.videoFileList (nElFile x).toNat = some name)).map fun x =>
      plainMovie (el.numFrames (nElFile x).toNat)
  noEmptyPath := if_pos rfl
  avhelperGetDecoder := fun _ => some 0
  testVideoFrame := fun _ => 0
  elNewDecoder := fun _ _ => true
  requireSameResolution := false

theorem finishOpen_decoded {lib : MediaLib} {lav : LavFile} {n : ℕ} {el : EditList} (comprType : CStr)
    (hcompr : lav.videoCompressor = some comprType)
    (hdecoder : lib.elNewDecoder (el.ctx n) comprType = true) :
    finishOpen lib lav n el = ((n : ℤ), { el with
      decoders := Function.update el.decoders n true
      videoFrames := openedFrames el
      isEmpty := false
      hasVideo := true
      numVideoFiles := n + 1 }) := by
  rw [finishOpen, hcompr]
  simp [hdecoder]

/-- A plain movie opens. -/
theorem reopens_plainMovie {lib : MediaLib} {name : CStr} {frames : Int64}
    (hpath : lib.canonicalizeFileName = some)
    (hlav : lib.lavOpenInputFile name = some (plainMovie frames)) (hframes : 1 ≤ frames.toInt)
    (hctx : lib.avhelperGetDecoder name = some 0)
    (hdecoder : ∀ ctx comprType, lib.elNewDecoder ctx comprType = true) :
    Reopens lib ⟨false, false, 112⟩ name frames := by
  intro norm
  have hopen : openVideoFile lib ⟨false, false, 112⟩ name (freshEl norm) =
      .ok (openIntoSlot lib ⟨false, false, 112⟩ name name (freshEl norm)) := by
    rw [openVideoFile, hpath]
    rfl
  have hlong : ¬(plainMovie frames).videoFrames.toInt < 1 := not_lt.mpr hframes
  have hchroma : ¬validChroma (plainMovie frames).mjpgChroma = false := by
    show ¬validChroma 1 = false
    decide
  rw [hopen, openIntoSlot, hlav]
  simp only [hctx, hlong, hchroma, if_false, reduceCtorEq, false_and]
  rw [if_pos (show (freshEl norm).numVideoFiles = 0 from rfl),
    finishOpen_decoded (lit "mjpg") rfl (hdecoder _ _)]
  exact ⟨_, rfl, rfl, show (720 : ℤ) ≠ 0 by decide, show (576 : ℤ) ≠ 0 by decide⟩

theorem reopening_setting {el : EditList} (hel : Listed el) {used : List UInt64}
    (hused : ∀ x ∈ used, (nElFile x).toNat < el.numVideoFiles) (hlen : used.length < 2 ^ 60)
    (text : List UInt8) :
    LoadSetting el used text plentyOfMemory (reopening el used text) ⟨false, false, 112⟩
      (lit "list") := by
  have hcontents : (reopening el used text).contents (lit "list") = some text := by
    show (if lit "list" = lit "list" then some text else none) = some text
    rw [if_pos rfl]
  refine ⟨hcontents, by decide, fun k hk hle => ⟨by omega, rfl⟩, fun x hx file hfile => ?_⟩
  obtain ⟨name, hname, hne, -⟩ := hel.names _ (hused x hx)
  obtain rfl : name = file := Option.some.inj (hname.symm.trans hfile)
  refine reopens_plainMovie rfl ?_ (hel.frames _ (hused x hx)) rfl fun _ _ => rfl
  show (if name = [] then none else _) = _
  rw [if_neg hne]
  cases hfind : used.find? fun x => decide (el.videoFileList (nElFile x).toNat = some name) with
  | none =>
    have hnot := List.find?_eq_none.mp hfind x hx
    exact absurd hfile (by simpa using hnot)
  | some y =>
    have hy : el.videoFileList (nElFile y).toNat = some name := by
      simpa using List.find?_some hfind
    have hsame := hel.distinct _ (hused y (List.mem_of_find?_eq_some hfind)) _ (hused x hx)
      (hy.trans hfile.symm)
    rw [Option.map_some, hsame]

section Converse

variable {el el' : EditList} {first : UInt64} {rest : List UInt64} {mem : Allocator}
  {lib : MediaLib} {fl : OpenFlags} {list : CStr}

/-- What was loaded names one file. -/
theorem sameFile_of_load (hused : ∀ x ∈ first :: rest, (nElFile x).toNat < maxEditListFiles)
    (hset : LoadSetting el (first :: rest) (writtenText el first rest) mem lib fl list)
    (hload : vjElInitWithArgs mem lib fl [list] = .ok (some el')) :
    ∀ x ∈ first :: rest, (nElFile x).toNat = (nElFile first).toNat := by
  intro x hx
  by_contra hne
  have htwo : 2 ≤ numFiles (first :: rest) maxEditListFiles := by
    have hx' := isUsed_iff.mpr ⟨x, hx, rfl⟩
    have hfirst := isUsed_iff.mpr ⟨first, List.mem_cons_self (a := first) (l := rest), rfl⟩
    rcases lt_or_gt_of_ne hne with hlt | hlt
    · exact two_le_numFiles hlt (hused first (by simp)) hx' hfirst
    · exact two_le_numFiles hlt (hused x hx) hfirst hx'
  rw [vjElInitWithArgs_written (numFiles_le _ _) hset.notNorm hset.contents] at hload
  obtain ⟨read, hread, hload⟩ := bind_eq_ok.mp hload
  cases read with
  | none => cases hload
  | some st =>
    exact readRest_twoFiles htwo (numFiles_le _ _) (fun l hl => length_of_mem_fgetsLines hl) st hread

/-- What was loaded of one file stays inside it. -/
theorem frames_of_load {name : CStr} {st : Loader}
    (hname : el.videoFileList (nElFile first).toNat = some name) (hnl : newline ∉ name)
    (h0 : (0 : UInt8) ∉ name) (hlen : name.length ≤ 1022)
    (hset : LoadSetting el (first :: rest) (writtenText el first rest) mem lib fl list)
    (hread : readRest mem lib fl (1 : ℕ)
      (fgetsLines 1024 (name ++ newline :: runText (first :: rest) first rest))
      (counted (writtenNorm el) 1) = .ok (some st))
    (hfin : finishLoad st.el = some el') (hsame : SameEntries (first :: rest) el') :
    ∀ x ∈ first :: rest, (nElFrame x).toNat < 2 ^ 31 ∧
      ((nElFrame x).toNat : ℤ) ≤ (el.numFrames (nElFile first).toNat).toInt := by
  intro x hx
  obtain ⟨ys, hholds, hmap⟩ := hsame
  obtain ⟨el₁, hopen, hopened, hframes, -⟩ := hset.opened hname rfl (writtenNorm el)
  obtain ⟨hready, hempty⟩ := hopened.ready (name ++ [newline])
  rw [hframes] at hready
  rw [fgetsLines_cons (n := 1022) hnl h0 (by omega), readRest_oneFile hlen hopen hopened] at hread
  obtain ⟨ranges, hranges, -, -, hholds'⟩ := (readEntries_ensures mem
    (fgetsLines 1024 (runText (first :: rest) first rest)) hready hempty).apply hread
  rw [List.nil_append] at hholds'
  obtain rfl := hholds.unique (hholds'.of_finish hfin)
  -- the frame of `x` is in one of the ranges that were read
  obtain ⟨y, hy, hxy⟩ : ∃ y ∈ rangesEntries 0 ranges, nElFrame y = nElFrame x := by
    have hmem : (fileIndex (first :: rest) (nElFile x).toNat, nElFrame x) ∈
        (rangesEntries 0 ranges).map fun y => (((nElFile y).toNat : ℤ), nElFrame y) := by
      rw [hmap]
      exact List.mem_map.mpr ⟨x, hx, rfl⟩
    obtain ⟨y, hy, hxy⟩ := List.mem_map.mp hmem
    exact ⟨y, hy, (Prod.mk.inj hxy).2⟩
  obtain ⟨range, hrange, hy⟩ := List.mem_flatMap.mp hy
  obtain ⟨i, hlo, hhi, rfl⟩ := mem_rangeEntries.mp hy
  obtain ⟨hlo', hhi', hin⟩ :=
    askedRanges_bounds _ (show (0 : ℤ) < 2 ^ 31 by decide) hranges range hrange
  have hframe := nElFrame_elEntry 0 (UInt64.ofInt i)
  rw [uint64_toNat_ofInt_of_nonneg (by omega) (by omega), hxy] at hframe
  omega

/-- **Nothing else comes back.** -/
theorem fits_of_roundTrips (hel : Listed el)
    (hused : ∀ x ∈ first :: rest, (nElFile x).toNat < el.numVideoFiles)
    (hlen : (first :: rest).length < 2 ^ 60)
    (htrip : ∀ mem lib fl list,
      LoadSetting el (first :: rest) (writtenText el first rest) mem lib fl list →
        Ensures (vjElInitWithArgs mem lib fl [list]) fun r =>
          ∃ el', r = some el' ∧ SameEntries (first :: rest) el') :
    ∃ f name, el.videoFileList f = some name ∧ newline ∉ name ∧ name.length ≤ 1022 ∧
      ∀ x ∈ first :: rest, (nElFile x).toNat = f ∧ (nElFrame x).toNat < 2 ^ 31 ∧
        ((nElFrame x).toNat : ℤ) ≤ (el.numFrames f).toInt := by
  have hset := reopening_setting hel hused hlen (writtenText el first rest)
  obtain ⟨r, hload, el', rfl, hsame⟩ := htrip _ _ _ _ hset
  have hfile := sameFile_of_load (fun x hx => lt_of_lt_of_le (hused x hx) hel.inTable) hset hload
  obtain ⟨name, hname, -, h0⟩ := hel.names _ (hused first (by simp))
  have htext := hset.contents.trans (congrArg some (writtenText_oneFile hname hfile))
  rw [vjElInitWithArgs_written (by decide) hset.notNorm htext] at hload
  obtain ⟨read, hread, hload⟩ := bind_eq_ok.mp hload
  cases read with
  | none => cases hload
  | some st =>
    have hfin : finishLoad st.el = some el' := Except.ok.inj hload
    have honly : ∀ file, file ≠ name →
        (reopening el (first :: rest) (writtenText el first rest)).lavOpenInputFile file = none := by
      intro file hother
      have hnone : (first :: rest).find? (fun x =>
          decide (el.videoFileList (nElFile x).toNat = some file)) = none := by
        refine List.find?_eq_none.mpr fun x hx => ?_
        rw [hfile x hx, hname]
        simpa using Ne.symm hother
      show (if file = [] then none else _) = none
      rw [hnone]
      split_ifs <;> rfl
    have hgood : ¬(newline ∈ name ∨ 1022 < name.length) := fun hbad =>
      (finishLoad_eq_some.mp hfin).1.1 (readRest_badName h0 hbad honly hread)
    obtain ⟨hnl, hshort⟩ := not_or.mp hgood
    rw [not_lt] at hshort
    have hframes := frames_of_load hname hnl h0 hshort hset hread hfin hsame
    exact ⟨_, name, hname, hnl, hshort, fun x hx => ⟨hfile x hx, hframes x hx⟩⟩

end Converse

/-! ## The round trip -/

section Range

variable {el : EditList} {n1 n2 : ℕ}

/-- The entries of a range are of open files. -/
theorem range_used (h12 : n1 ≤ n2)
    (hentries : ∀ i, n1 ≤ i → i ≤ n2 →
      ∃ x, el.entryAt i = some x ∧ (nElFile x).toNat < el.numVideoFiles) {used : List UInt64}
    (hlen : used.length = n2 + 1 - n1)
    (hcells : ∀ j < n2 + 1 - n1, el.entryAt (n1 + j) = used[j]?) :
    ∀ x ∈ used, (nElFile x).toNat < el.numVideoFiles := by
  refine (forall_mem_used h12 hlen hcells _).mp fun i hlo hhi x hx => ?_
  obtain ⟨y, hy, hlt⟩ := hentries i hlo hhi
  obtain rfl : x = y := Option.some.inj (hx.symm.trans hy)
  exact hlt

theorem fitsOneFile_of_roundTrips (hel : Listed el) (h12 : n1 ≤ n2)
    (hlast : n2 ≤ el.totalFrames.toNat)
    (hentries : ∀ i, n1 ≤ i → i ≤ n2 →
      ∃ x, el.entryAt i = some x ∧ (nElFile x).toNat < el.numVideoFiles)
    (htrip : RoundTrips el n1 n2) : FitsOneFile el n1 n2 := by
  obtain ⟨hbound, first, rest, hload, hlen, hcells, hwrite⟩ := vjElWriteEditlist_eq hel.notEmpty h12
    hlast fun i hlo hhi => (hentries i hlo hhi).imp fun x hx => hx.1
  rw [RoundTrips, hload, ensures_ok, hwrite, ensures_ok] at htrip
  obtain ⟨text, htext, htrip⟩ := htrip
  obtain rfl := Option.some.inj htext
  rw [FitsOneFile]
  simp only [forall_mem_used h12 hlen hcells]
  exact fits_of_roundTrips hel (range_used h12 hentries hlen hcells) (by omega) htrip

theorem roundTrips_of_fitsOneFile (hel : Listed el) (h12 : n1 ≤ n2)
    (hlast : n2 ≤ el.totalFrames.toNat)
    (hentries : ∀ i, n1 ≤ i → i ≤ n2 →
      ∃ x, el.entryAt i = some x ∧ (nElFile x).toNat < el.numVideoFiles)
    (hfits : FitsOneFile el n1 n2) : RoundTrips el n1 n2 := by
  obtain ⟨hbound, first, rest, hload, hlen, hcells, hwrite⟩ := vjElWriteEditlist_eq hel.notEmpty h12
    hlast fun i hlo hhi => (hentries i hlo hhi).imp fun x hx => hx.1
  have hused := range_used h12 hentries hlen hcells
  rw [FitsOneFile] at hfits
  simp only [forall_mem_used h12 hlen hcells] at hfits
  obtain ⟨f, name, hname, hnl, hshort, hfits⟩ := hfits
  rw [RoundTrips, hload, ensures_ok, hwrite, ensures_ok]
  refine ⟨_, rfl, fun mem lib fl list hset => load_writtenText hname hnl ?_ hshort hfits hset⟩
  have hf : f < el.numVideoFiles := by
    rw [← (hfits first (by simp)).1]
    exact hused first (by simp)
  obtain ⟨name', hname', -, h0⟩ := hel.names f hf
  rwa [Option.some.inj (hname.symm.trans hname')]

end Range

/-- **When an edit list comes back.**  A range of an edit list in order is written and loaded again,
in every setting, exactly where it is one file whose name is a line and whose frames fit. -/
theorem vjElWriteEditlist_roundTrips_iff (el : EditList) (n1 n2 : ℕ) (hel : Listed el)
    (h12 : n1 ≤ n2) (hlast : n2 ≤ el.totalFrames.toNat)
    (hentries : ∀ i, n1 ≤ i → i ≤ n2 →
      ∃ x, el.entryAt i = some x ∧ (nElFile x).toNat < el.numVideoFiles) :
    RoundTrips el n1 n2 ↔ FitsOneFile el n1 n2 :=
  ⟨fitsOneFile_of_roundTrips hel h12 hlast hentries,
    roundTrips_of_fitsOneFile hel h12 hlast hentries⟩

/-- A list with the entries `edl` over two movies of ten frames each. -/
def twoMovies (edl : List UInt64) : EditList :=
  { callocEditList with
    hasVideo := true
    numVideoFiles := 2
    videoFileList := fun i => if i = 0 then some (lit "m") else if i = 1 then some (lit "n") else none
    numFrames := fun _ => 10
    videoFrames := Int64.ofInt edl.length
    totalFrames := UInt64.ofInt (edl.length - 1)
    frameList := entryBlock edl }

theorem twoMovies_listed (edl : List UInt64) : Listed (twoMovies edl) where
  notEmpty := rfl
  inTable := by
    show 2 ≤ maxEditListFiles
    decide
  names := fun i hi => by
    have hi' : i < 2 := hi
    interval_cases i
    · exact ⟨lit "m", rfl, by decide, by decide⟩
    · exact ⟨lit "n", rfl, by decide, by decide⟩
  distinct := fun i hi j hj h => by
    have hi' : i < 2 := hi
    have hj' : j < 2 := hj
    have hne : some (lit "m") ≠ some (lit "n") := by decide
    interval_cases i <;> interval_cases j
    · rfl
    · exact absurd h hne
    · exact absurd h.symm hne
    · rfl
  frames := fun i _ => by
    show 1 ≤ (10 : Int64).toInt
    decide

/-- Three runs of the second movie come back. -/
theorem roundTrip_second_movie :
    RoundTrips (twoMovies [elEntry 1 4, elEntry 1 5, elEntry 1 0, elEntry 1 9]) 0 3 :=
  (vjElWriteEditlist_roundTrips_iff _ 0 3 (twoMovies_listed _) (by decide) (by decide) (by
    intro i _ hi
    interval_cases i <;> exact ⟨_, rfl, by decide⟩)).mpr ⟨1, lit "n", rfl, by decide, by decide, by
      intro i _ hi x hx
      interval_cases i <;> obtain rfl := Option.some.inj hx <;> decide⟩

/-- A list that uses both movies is written, and cannot be loaded. -/
theorem roundTrip_two_movies :
    Listed (twoMovies [elEntry 0 0, elEntry 1 0]) ∧
      ¬RoundTrips (twoMovies [elEntry 0 0, elEntry 1 0]) 0 1 := by
  refine ⟨twoMovies_listed _, fun htrip => ?_⟩
  have hentries : ∀ i, 0 ≤ i → i ≤ 1 → ∃ x, (twoMovies [elEntry 0 0, elEntry 1 0]).entryAt i = some x ∧
      (nElFile x).toNat < (twoMovies [elEntry 0 0, elEntry 1 0]).numVideoFiles := by
    intro i _ hi
    interval_cases i <;> exact ⟨_, rfl, by decide⟩
  obtain ⟨f, name, -, -, -, hfits⟩ := fitsOneFile_of_roundTrips (twoMovies_listed _) (by decide)
    (by decide) hentries htrip
  have hfirst : (nElFile (elEntry 0 0)).toNat = f := (hfits 0 le_rfl (by decide) _ rfl).1
  have hsecond : (nElFile (elEntry 1 0)).toNat = f := (hfits 1 (by decide) le_rfl _ rfl).1
  exact absurd (hfirst.trans hsecond.symm) (by decide)

end Veejay.Edl
