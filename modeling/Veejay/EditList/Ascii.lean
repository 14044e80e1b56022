import Veejay.CLib.FixedWidth
import Veejay.EditList.LoadValid
import Veejay.EditList.Write

/-!
# Sending an edit list

`vj_el_write_line_ascii` writes an edit list as one line of fields of a fixed width: the movie files that its entries
use, each with its slot of the file table, and the runs of consecutive frames, whose files are numbered anew.

* `vjElWriteLineAscii`, `vjEventSendEditlist` — the functions;
* `runs`, `runs_frames` — the runs of a frame list, and that they are its frames;
* `Sendable` — the edit lists whose fields fit the wire;
* `lineText`, `vjElWriteLineAscii_eq` — **the line that is written, and where its buffer is large enough.**
-/

namespace Veejay.ElReply

open CLib Veejay.Edl

/-! ## The functions -/

/-- `vj_el_get_file_fourcc`: the text that is in `fourcc` after it. -/
def vjElGetFileFourcc (el : EditList) (num : ℕ) (fourcc : CStr) : Exec CStr :=
  if el.numVideoFiles ≤ num then .ok fourcc
  else
    match el.lavFd num with
    | none => .error .nullPointer
    | some fd => .ok (fd.videoCompressor.elim fourcc fun compr => compr.take 3)

/-- The slots below `n` that are listed: their files are used, and have a name. -/
def listed (el : EditList) (used : List UInt64) (n : ℕ) : List ℕ :=
  (List.range n).filter fun j => isUsed used j && (el.videoFileList j).isSome

/-- `index[j]`, once the files have been numbered. -/
def asciiIndex (el : EditList) (used : List UInt64) (j : ℕ) : ℤ :=
  if isUsed used j then
    if (el.videoFileList j).isSome then (listed el used j).length else 1
  else -1

/-- `strlen (el->video_file_list[j])` -/
def nameLength (el : EditList) (j : ℕ) : ℕ := ((el.videoFileList j).getD []).length

/-- The fields of a file, cut down to the buffer they are printed to. -/
def fileField (el : EditList) (j : ℕ) : Exec CStr := do
  let fourcc ← vjElGetFileFourcc el j (lit "????")
  .ok ((CLib.counted 3 ((el.videoFileList j).getD []) ++ (zeroPadded 4 j ++
    (zeroPadded 10 (el.numFrames j).toUInt64.toNat ++ CLib.counted 2 fourcc))).take 2047)

/-- The fields of all files that are listed. -/
def fileFields (el : EditList) : List ℕ → Exec CStr
  | [] => .ok []
  | j :: js => do
      let field ← fileField el j
      let fields ← fileFields el js
      .ok (field ++ fields)

/-- The loop that counts the breaks between two runs. -/
def countBreaks (index : ℕ → ℤ) (oldfile oldframe : ℤ) : List UInt64 → ℕ
  | [] => 0
  | n :: rest =>
      let file := index (nElFile n).toNat
      let frame : ℤ := (nElFrame n).toNat
      (if file ≠ oldfile ∨ frame ≠ oldframe + 1 then 1 else 0) + countBreaks index file frame rest

/-- The loop that writes the runs, from inside one. -/
def asciiRuns (index : ℕ → ℤ) (oldfile oldframe : ℤ) : List UInt64 → CStr
  | [] => zeroPaddedInt 16 oldframe
  | n :: rest =>
      let file := index (nElFile n).toNat
      let frame : ℤ := (nElFrame n).toNat
      (if file ≠ oldfile ∨ frame ≠ oldframe + 1 then
        zeroPaddedInt 16 oldframe ++ (zeroPaddedInt 16 file ++ zeroPadded 16 (nElFrame n).toNat)
      else []) ++ asciiRuns index file frame rest

/-- The entries that the first loop over the breaks visits: it starts behind the place whose number is the first
entry. -/
def visited (el : EditList) (first : UInt64) (n2 : ℤ) : Exec (List UInt64) := do
  let j ← int64Add first.toInt64 1
  if n2 < j.toInt then .ok []
  else if j.toInt < 0 then .error .outOfBounds
  else loadEntries el.frameList j.toInt.toNat (n2 + 1 - j.toInt).toNat

/-- `est_len = 2 * len`, an `int` -/
def estLen (len : ℕ) : ℤ := (Int32.ofInt (2 * len)).toInt

/-- `vj_el_write_line_ascii` -/
def vjElWriteLineAscii (el : EditList) : Exec (Option CStr) :=
  if el.isEmpty then .ok none
  else do
    let n2 := el.totalFrames.toInt64.toInt
    let used ← loadEntries el.frameList 0 (n2 + 1).toNat
    let index := asciiIndex el used
    let slots := listed el used maxEditListFiles
    let first ← loadEntry el.frameList 0
    let oldfile := index (nElFile first).toNat
    let oldframe : ℤ := (nElFrame first).toNat
    let counted ← visited el first n2
    let len := (slots.map fun j => nameLength el j + 45).sum + 64 * countBreaks index oldfile oldframe counted
    let files ← fileFields el slots
    let rest ← loadEntries el.frameList 1 n2.toNat
    -- there is no buffer where `est_len` is not positive
    let result ← printInto (estLen len).toNat (zeroPadded 4 slots.length ++ (files ++
      (zeroPaddedInt 16 oldfile ++ (zeroPaddedInt 16 oldframe ++ asciiRuns index oldfile oldframe rest))))
    .ok (some result)

/-- `vj_event_send_editlist` -/
def vjEventSendEditlist (el : EditList) : Exec CStr :=
  if el.numVideoFiles = 0 then .ok (lit "000000")
  else do
    match ← vjElWriteLineAscii el with
    | none => .error .nullPointer
    | some msg => .ok ((zeroPadded 6 msg.length ++ msg).take (msg.length + 7))

/-! ## Runs -/

/-- Consecutive frames of one file. -/
structure Run where
  file : ℕ
  first : ℕ
  last : ℕ
  deriving DecidableEq

/-- The frames of a run. -/
def Run.frames (r : Run) : List (ℕ × ℕ) := (List.range (r.last + 1 - r.first)).map fun k => (r.file, r.first + k)

/-- The file and the frame of an entry. -/
def place (x : UInt64) : ℕ × ℕ := ((nElFile x).toNat, (nElFrame x).toNat)

/-- The runs of a frame list, from inside one. -/
def runsFrom (file first last : ℕ) : List UInt64 → List Run
  | [] => [⟨file, first, last⟩]
  | x :: rest =>
      if (nElFile x).toNat ≠ file ∨ (nElFrame x).toNat ≠ last + 1 then
        ⟨file, first, last⟩ :: runsFrom (nElFile x).toNat (nElFrame x).toNat (nElFrame x).toNat rest
      else runsFrom file first (nElFrame x).toNat rest

/-- The runs of a frame list. -/
def runs : List UInt64 → List Run
  | [] => []
  | x :: rest => runsFrom (nElFile x).toNat (nElFrame x).toNat (nElFrame x).toNat rest

/-- The breaks of a frame list behind an entry. -/
def breaks (file last : ℕ) : List UInt64 → ℕ
  | [] => 0
  | x :: rest =>
      (if (nElFile x).toNat ≠ file ∨ (nElFrame x).toNat ≠ last + 1 then 1 else 0) +
        breaks (nElFile x).toNat (nElFrame x).toNat rest

theorem runFrames_single (file first : ℕ) : Run.frames ⟨file, first, first⟩ = [(file, first)] := by
  rw [Run.frames, Nat.add_sub_cancel_left]
  rfl

theorem runFrames_snoc (file : ℕ) {first last : ℕ} (h : first ≤ last + 1) :
    Run.frames ⟨file, first, last + 1⟩ = Run.frames ⟨file, first, last⟩ ++ [(file, last + 1)] := by
  have hlen : last + 1 + 1 - first = last + 1 - first + 1 := by omega
  have hlast : first + (last + 1 - first) = last + 1 := by omega
  rw [Run.frames, Run.frames, hlen, List.range_succ, List.map_append, List.map_singleton, hlast]

theorem runsFrom_frames (rest : List UInt64) : ∀ {file first last : ℕ}, first ≤ last →
    (runsFrom file first last rest).flatMap Run.frames = Run.frames ⟨file, first, last⟩ ++ rest.map place := by
  induction rest with
  | nil =>
    intro file first last _
    rw [runsFrom, List.flatMap_singleton, List.map_nil, List.append_nil]
  | cons x rest ih =>
    intro file first last hle
    rw [runsFrom]
    by_cases hbreak : (nElFile x).toNat ≠ file ∨ (nElFrame x).toNat ≠ last + 1
    · rw [if_pos hbreak, List.flatMap_cons, ih (Nat.le_refl _), runFrames_single]
      rfl
    · obtain ⟨hfile, hframe⟩ := not_or.mp hbreak
      have hfile := not_not.mp hfile
      have hframe := not_not.mp hframe
      rw [if_neg hbreak, ih (by omega), hframe, runFrames_snoc file (by omega), List.append_assoc, List.map_cons, place,
        hfile, hframe]
      rfl

/-- **The runs are the frames of the list.** -/
theorem runs_frames (xs : List UInt64) : (runs xs).flatMap Run.frames = xs.map place := by
  cases xs with
  | nil => rfl
  | cons x rest =>
    rw [runs, runsFrom_frames rest (Nat.le_refl _), runFrames_single]
    rfl

theorem runsFrom_length (rest : List UInt64) : ∀ file first last : ℕ,
    (runsFrom file first last rest).length = breaks file last rest + 1 := by
  induction rest with
  | nil => exact fun _ _ _ => rfl
  | cons x rest ih =>
    intro file first last
    rw [runsFrom, breaks]
    by_cases hbreak : (nElFile x).toNat ≠ file ∨ (nElFrame x).toNat ≠ last + 1
    · rw [if_pos hbreak, if_pos hbreak, List.length_cons, ih]
      omega
    · rw [if_neg hbreak, if_neg hbreak, ih, not_not.mp (not_or.mp hbreak).1]
      omega

theorem runsFrom_ordered (rest : List UInt64) : ∀ {file first last : ℕ}, first ≤ last →
    ∀ r ∈ runsFrom file first last rest, r.first ≤ r.last := by
  induction rest with
  | nil =>
    intro file first last hle r hr
    obtain rfl := List.mem_singleton.mp hr
    exact hle
  | cons x rest ih =>
    intro file first last hle r hr
    rw [runsFrom] at hr
    split_ifs at hr with hbreak
    · rcases List.mem_cons.mp hr with rfl | hr
      · exact hle
      · exact ih (Nat.le_refl _) r hr
    · exact ih (by omega) r hr

theorem runs_ordered (xs : List UInt64) : ∀ r ∈ runs xs, r.first ≤ r.last := by
  cases xs with
  | nil => exact fun r hr => absurd hr List.not_mem_nil
  | cons x rest => exact runsFrom_ordered rest (Nat.le_refl _)

theorem mem_frames {r : Run} {p : ℕ × ℕ} : p ∈ r.frames ↔ p.1 = r.file ∧ r.first ≤ p.2 ∧ p.2 ≤ r.last := by
  rw [Run.frames, List.mem_map]
  constructor
  · rintro ⟨k, hk, rfl⟩
    have := List.mem_range.mp hk
    exact ⟨rfl, by omega, by omega⟩
  · rintro ⟨hfile, hfirst, hlast⟩
    exact ⟨p.2 - r.first, List.mem_range.mpr (by omega), Prod.ext hfile.symm (by dsimp only; omega)⟩

/-- A frame of a run is that of an entry. -/
theorem mem_of_run {xs : List UInt64} {r : Run} (hr : r ∈ runs xs) {n : ℕ} (hfirst : r.first ≤ n) (hlast : n ≤ r.last) :
    ∃ x ∈ xs, place x = (r.file, n) := by
  have hmem : (r.file, n) ∈ (runs xs).flatMap Run.frames :=
    List.mem_flatMap.mpr ⟨r, hr, mem_frames.mpr ⟨rfl, hfirst, hlast⟩⟩
  rw [runs_frames, List.mem_map] at hmem
  exact hmem

/-- An entry is a frame of a run. -/
theorem run_of_mem {xs : List UInt64} {x : UInt64} (hx : x ∈ xs) : ∃ r ∈ runs xs, r.file = (nElFile x).toNat := by
  have hmem : place x ∈ (runs xs).flatMap Run.frames := by
    rw [runs_frames]
    exact List.mem_map_of_mem hx
  obtain ⟨r, hr, hp⟩ := List.mem_flatMap.mp hmem
  exact ⟨r, hr, (mem_frames.mp hp).1.symm⟩

/-! ## The runs that are written -/

/-- The fields of a run. -/
def runField (index : ℕ → ℤ) (r : Run) : CStr :=
  zeroPaddedInt 16 (index r.file) ++ (zeroPadded 16 r.first ++ zeroPadded 16 r.last)

section Index

variable {index : ℕ → ℤ} {xs : List UInt64}

/-- The breaks are the same for the numbers of the files as for the files. -/
theorem break_iff (hinj : ∀ x ∈ xs, ∀ y ∈ xs, index (nElFile x).toNat = index (nElFile y).toNat →
    (nElFile x).toNat = (nElFile y).toNat) {x y : UInt64} (hx : x ∈ xs) (hy : y ∈ xs) (last : ℕ) :
    (index (nElFile x).toNat ≠ index (nElFile y).toNat ∨ ((nElFrame x).toNat : ℤ) ≠ (last : ℤ) + 1) ↔
      ((nElFile x).toNat ≠ (nElFile y).toNat ∨ (nElFrame x).toNat ≠ last + 1) := by
  refine or_congr (not_congr ⟨hinj x hx y hy, fun h => congrArg index h⟩) (not_congr ?_)
  omega

theorem asciiRuns_eq (hinj : ∀ x ∈ xs, ∀ y ∈ xs, index (nElFile x).toNat = index (nElFile y).toNat →
    (nElFile x).toNat = (nElFile y).toNat) (rest : List UInt64) (hrest : ∀ x ∈ rest, x ∈ xs) :
    ∀ {y : UInt64} (_ : y ∈ xs) (first last : ℕ),
      zeroPaddedInt 16 (index (nElFile y).toNat) ++ (zeroPadded 16 first ++
          asciiRuns index (index (nElFile y).toNat) last rest) =
        (runsFrom (nElFile y).toNat first last rest).flatMap (runField index) := by
  induction rest with
  | nil =>
    intro y _ first last
    rw [asciiRuns, runsFrom, List.flatMap_singleton, runField, zeroPaddedInt_of_nat]
  | cons x rest ih =>
    intro y hy first last
    have hx := hrest x List.mem_cons_self
    have hiff := break_iff hinj hx hy last
    have htail : ∀ z ∈ rest, z ∈ xs := fun z hz => hrest z (List.mem_cons_of_mem x hz)
    rw [asciiRuns, runsFrom]
    by_cases hbreak : (nElFile x).toNat ≠ (nElFile y).toNat ∨ (nElFrame x).toNat ≠ last + 1
    · rw [if_pos hbreak, if_pos (hiff.mpr hbreak), List.flatMap_cons, ← ih htail hx, runField, zeroPaddedInt_of_nat]
      simp only [List.append_assoc]
    · have hfile := not_not.mp (not_or.mp hbreak).1
      rw [if_neg hbreak, if_neg (fun h => hbreak (hiff.mp h)), List.nil_append, hfile, ih htail hy]

theorem countBreaks_eq (hinj : ∀ x ∈ xs, ∀ y ∈ xs, index (nElFile x).toNat = index (nElFile y).toNat →
    (nElFile x).toNat = (nElFile y).toNat) (rest : List UInt64) (hrest : ∀ x ∈ rest, x ∈ xs) :
    ∀ {y : UInt64} (_ : y ∈ xs) (last : ℕ),
      countBreaks index (index (nElFile y).toNat) last rest = breaks (nElFile y).toNat last rest := by
  induction rest with
  | nil => exact fun _ _ => rfl
  | cons x rest ih =>
    intro y hy last
    have hx := hrest x List.mem_cons_self
    have hnext := ih (fun z hz => hrest z (List.mem_cons_of_mem x hz)) hx (nElFrame x).toNat
    rw [countBreaks, breaks, hnext, if_congr (break_iff hinj hx hy last) rfl rfl]

end Index

/-! ## The edit lists that are sent -/

/-- The files that the entries use. -/
def usedFiles (xs : List UInt64) : List ℕ := (List.range maxEditListFiles).filter (isUsed xs)

/-- What the movie library says of the codec of a file. -/
def codec (el : EditList) (j : ℕ) : Option CStr := (el.lavFd j).bind LavFile.videoCompressor

/-- The text that is sent for the codec. -/
def sentFourcc (el : EditList) (j : ℕ) : CStr := (codec el j).elim (lit "????") fun compr => compr.take 3

/-- The fields of a file fit: its name takes three digits, its frames ten. -/
structure FileFits (el : EditList) (j : ℕ) : Prop where
  name : ∃ name, el.videoFileList j = some name ∧ (0 : UInt8) ∉ name ∧ name.length < 10 ^ 3
  opened : (el.lavFd j).isSome = true
  fourcc : ∀ compr, codec el j = some compr → (0 : UInt8) ∉ compr
  frames : (el.numFrames j).toInt < 10 ^ 10

/-- The length of the line. -/
def lineLength (el : EditList) (xs : List UInt64) : ℕ :=
  4 + (((usedFiles xs).map fun j => 19 + nameLength el j + (sentFourcc el j).length).sum + 48 * (runs xs).length)

/-- **The edit lists whose fields fit the wire**: those of valid entries, whose files fit, and whose line is counted in
six digits. -/
structure Sendable (el : EditList) (xs : List UInt64) : Prop where
  notEmpty : el.isEmpty = false
  holds : Holds el xs
  ne_nil : xs ≠ []
  total : el.totalFrames.toNat + 1 = xs.length
  valid : ∀ x ∈ xs, EntryValid el x
  files : ∀ x ∈ xs, FileFits el (nElFile x).toNat
  size : lineLength el xs < 10 ^ 6

/-- The buffer of the line is large enough. -/
def Roomy (el : EditList) : List UInt64 → Prop
  | [] => False
  | x :: rest =>
      x.toNat < 2 ^ 63 ∧ lineLength el (x :: rest) <
        2 * (((usedFiles (x :: rest)).map fun j => nameLength el j + 45).sum +
          64 * breaks (nElFile x).toNat (nElFrame x).toNat ((x :: rest).drop (x.toNat + 1)))

/-- The fields of a file. -/
def fileText (el : EditList) (j : ℕ) : CStr :=
  CLib.counted 3 ((el.videoFileList j).getD []) ++ (zeroPadded 4 j ++
    (zeroPadded 10 (el.numFrames j).toUInt64.toNat ++ CLib.counted 2 (sentFourcc el j)))

/-- The line. -/
def lineText (el : EditList) (xs : List UInt64) : CStr :=
  zeroPadded 4 (usedFiles xs).length ++ ((usedFiles xs).flatMap (fileText el) ++
    (runs xs).flatMap (runField (asciiIndex el xs)))

/-! ## The numbers of the files -/

theorem nElFile_lt (x : UInt64) : (nElFile x).toNat < maxEditListFiles := by
  have hx := x.toNat_lt
  rw [nElFile_toNat, maxEditListFiles]
  omega

theorem mem_usedFiles {xs : List UInt64} {j : ℕ} : j ∈ usedFiles xs ↔ ∃ x ∈ xs, (nElFile x).toNat = j := by
  rw [usedFiles, List.mem_filter, List.mem_range, isUsed_iff]
  constructor
  · exact fun h => h.2
  · rintro ⟨x, hx, rfl⟩
    exact ⟨nElFile_lt x, x, hx, rfl⟩

/-- How many files come before one in the file table. -/
def rank (xs : List UInt64) (j : ℕ) : ℕ := ((List.range j).filter (isUsed xs)).length

theorem rank_succ (xs : List UInt64) (j : ℕ) : rank xs (j + 1) = rank xs j + if isUsed xs j then 1 else 0 := by
  rw [rank, rank, List.range_succ, List.filter_append, List.length_append]
  cases hj : isUsed xs j with
  | true => rw [List.filter_cons_of_pos hj]; rfl
  | false => rw [List.filter_cons_of_neg (by rw [hj]; exact Bool.false_ne_true)]; rfl

theorem rank_mono (xs : List UInt64) : Monotone (rank xs) := by
  apply monotone_nat_of_le_succ
  intro j
  rw [rank_succ]
  exact Nat.le_add_right _ _

theorem rank_lt {xs : List UInt64} {i j : ℕ} (hi : isUsed xs i = true) (hij : i < j) : rank xs i < rank xs j := by
  have hle : rank xs (i + 1) ≤ rank xs j := rank_mono xs hij
  have hsucc := rank_succ xs i
  rw [if_pos hi] at hsucc
  exact Nat.lt_of_lt_of_le (by omega) hle

theorem rank_inj {xs : List UInt64} {i j : ℕ} (hi : isUsed xs i = true) (hj : isUsed xs j = true)
    (h : rank xs i = rank xs j) : i = j := by
  rcases Nat.lt_trichotomy i j with hlt | heq | hlt
  · exact absurd h (rank_lt hi hlt).ne
  · exact heq
  · exact absurd h (rank_lt hj hlt).ne'

theorem rank_maxEditListFiles (xs : List UInt64) : rank xs maxEditListFiles = (usedFiles xs).length := rfl

section Sent

variable {el : EditList} {xs : List UInt64}

theorem Sendable.named (h : Sendable el xs) {j : ℕ} (hj : isUsed xs j = true) : (el.videoFileList j).isSome = true := by
  obtain ⟨x, hx, rfl⟩ := isUsed_iff.mp hj
  obtain ⟨name, hname, -, -⟩ := (h.files x hx).name
  rw [hname]
  rfl

theorem Sendable.listed_eq (h : Sendable el xs) (n : ℕ) : listed el xs n = (List.range n).filter (isUsed xs) := by
  apply List.filter_congr
  intro j _
  cases hj : isUsed xs j with
  | true => rw [h.named hj]; rfl
  | false => rfl

/-- The number of a file is its rank. -/
theorem Sendable.asciiIndex_eq (h : Sendable el xs) {x : UInt64} (hx : x ∈ xs) :
    asciiIndex el xs (nElFile x).toNat = rank xs (nElFile x).toNat := by
  have hused : isUsed xs (nElFile x).toNat = true := isUsed_iff.mpr ⟨x, hx, rfl⟩
  rw [asciiIndex, if_pos hused, if_pos (h.named hused), h.listed_eq, rank]

theorem Sendable.index_inj (h : Sendable el xs) :
    ∀ x ∈ xs, ∀ y ∈ xs, asciiIndex el xs (nElFile x).toNat = asciiIndex el xs (nElFile y).toNat →
      (nElFile x).toNat = (nElFile y).toNat := by
  intro x hx y hy heq
  rw [h.asciiIndex_eq hx, h.asciiIndex_eq hy] at heq
  exact rank_inj (isUsed_iff.mpr ⟨x, hx, rfl⟩) (isUsed_iff.mpr ⟨y, hy, rfl⟩) (Int.ofNat_inj.mp heq)

/-! ## The line -/

theorem fileFits_frames {j : ℕ} {x : UInt64} (hvalid : EntryValid el x) (hfits : FileFits el j)
    (hx : (nElFile x).toNat = j) : (el.numFrames j).toUInt64.toNat = (el.numFrames j).toInt.toNat ∧
      0 < (el.numFrames j).toInt := by
  have hpos := hvalid.2
  rw [hx] at hpos
  have hmax := hfits.frames
  rw [int64_toUInt64_toNat]
  omega

theorem sentFourcc_length_le (el : EditList) (j : ℕ) : (sentFourcc el j).length ≤ 4 := by
  rw [sentFourcc]
  cases codec el j with
  | none => decide
  | some compr =>
    rw [Option.elim_some, List.length_take]
    omega

theorem fileText_length (h : Sendable el xs) {j : ℕ} (hj : j ∈ usedFiles xs) :
    (fileText el j).length = 19 + nameLength el j + (sentFourcc el j).length := by
  obtain ⟨x, hx, hxj⟩ := mem_usedFiles.mp hj
  have hfits := h.files x hx
  rw [hxj] at hfits
  obtain ⟨name, hname, -, hlen⟩ := hfits.name
  obtain ⟨hframes, -⟩ := fileFits_frames (h.valid x hx) hfits hxj
  have hmax := hfits.frames
  have hslot := nElFile_lt x
  rw [hxj, maxEditListFiles] at hslot
  have hfourcc := sentFourcc_length_le el j
  rw [fileText, nameLength, hname, Option.getD_some, List.length_append, List.length_append, List.length_append,
    (counted_length_iff (by decide)).mpr hlen, (counted_length_iff (by decide)).mpr (by omega),
    zeroPadded_length (by decide) (by omega), zeroPadded_length (by decide) (by omega)]
  omega

theorem fileField_eq (h : Sendable el xs) {j : ℕ} (hj : j ∈ usedFiles xs) : fileField el j = .ok (fileText el j) := by
  have hlength := fileText_length h hj
  obtain ⟨x, hx, hxj⟩ := mem_usedFiles.mp hj
  have hfits := h.files x hx
  have hvalid := (h.valid x hx).1
  rw [hxj] at hfits hvalid
  obtain ⟨name, hname, -, hlen⟩ := hfits.name
  obtain ⟨fd, hfd⟩ := Option.isSome_iff_exists.mp hfits.opened
  have hfourcc := sentFourcc_length_le el j
  have hget : vjElGetFileFourcc el j (lit "????") = .ok (sentFourcc el j) := by
    rw [vjElGetFileFourcc, if_neg (Nat.not_le.mpr hvalid), sentFourcc, codec, hfd]
    rfl
  rw [nameLength, hname, Option.getD_some] at hlength
  rw [fileField, hget, ok_bind]
  exact congrArg Except.ok (List.take_of_length_le (by rw [← fileText]; omega))

theorem fileFields_eq (h : Sendable el xs) (js : List ℕ) (hjs : ∀ j ∈ js, j ∈ usedFiles xs) :
    fileFields el js = .ok (js.flatMap (fileText el)) := by
  induction js with
  | nil => rfl
  | cons j js ih =>
    rw [fileFields, fileField_eq h (hjs j List.mem_cons_self), ok_bind,
      ih fun i hi => hjs i (List.mem_cons_of_mem j hi), ok_bind, List.flatMap_cons]

/-- The entries that are read of a list. -/
theorem loadEntries_holds (h : Holds el xs) (count : ℕ) : ∀ {i : ℕ}, i + count ≤ xs.length →
    loadEntries el.frameList i count = .ok ((xs.drop i).take count) := by
  induction count with
  | zero => exact fun _ => rfl
  | succ count ih =>
    intro i hle
    have hi : i < xs.length := by omega
    have hentry : el.entryAt i = some xs[i] := by rw [h.entryAt hi, List.getElem?_eq_getElem hi]
    rw [loadEntries, loadEntry_eq_ok hentry, ok_bind, ih (by omega), ok_bind, List.drop_eq_getElem_cons hi,
      List.take_succ_cons]

theorem runField_length (h : Sendable el xs) {r : Run} (hr : r ∈ runs xs) :
    (runField (asciiIndex el xs) r).length = 48 := by
  obtain ⟨x, hx, hxr⟩ := mem_of_run hr (Nat.le_refl _) (runs_ordered xs r hr)
  obtain ⟨y, hy, hyr⟩ := mem_of_run hr (runs_ordered xs r hr) (Nat.le_refl _)
  have hfile : (nElFile x).toNat = r.file := congrArg Prod.fst hxr
  have hfirst : (nElFrame x).toNat = r.first := congrArg Prod.snd hxr
  have hlast : (nElFrame y).toNat = r.last := congrArg Prod.snd hyr
  have hx52 := nElFrame_toNat x
  have hy52 := nElFrame_toNat y
  have hrank : rank xs (nElFile x).toNat ≤ (nElFile x).toNat := by
    have hle := (List.filter_sublist (l := List.range (nElFile x).toNat) (p := isUsed xs)).length_le
    rw [List.length_range] at hle
    exact hle
  have hslot := nElFile_lt x
  rw [maxEditListFiles] at hslot
  rw [runField, ← hfile, h.asciiIndex_eq hx, zeroPaddedInt_of_nat, List.length_append, List.length_append,
    zeroPadded_length (by decide) (by omega), zeroPadded_length (by decide) (by omega),
    zeroPadded_length (by decide) (by omega)]

theorem lineText_length (h : Sendable el xs) : (lineText el xs).length = lineLength el xs := by
  have hfiles : ((usedFiles xs).flatMap (fileText el)).length =
      ((usedFiles xs).map fun j => 19 + nameLength el j + (sentFourcc el j).length).sum := by
    rw [List.length_flatMap]
    exact congrArg List.sum (List.map_congr_left fun j hj => fileText_length h hj)
  have hruns : ((runs xs).flatMap (runField (asciiIndex el xs))).length = 48 * (runs xs).length := by
    rw [List.length_flatMap, List.map_congr_left fun r hr => runField_length h hr, List.map_const', List.sum_replicate,
      smul_eq_mul, Nat.mul_comm]
  have hcount : (usedFiles xs).length ≤ maxEditListFiles := by
    have hle := (List.filter_sublist (l := List.range maxEditListFiles) (p := isUsed xs)).length_le
    rw [List.length_range] at hle
    exact hle
  rw [maxEditListFiles] at hcount
  rw [lineText, lineLength, List.length_append, List.length_append, hfiles, hruns,
    zeroPadded_length (by decide) (by omega)]

/-- The place behind the first entry, as a number. -/
theorem int64Add_one {x : UInt64} (hx : x.toNat + 1 ≠ 2 ^ 63) : int64Add x.toInt64 1 = .ok (x + 1).toInt64 := by
  have hlt := x.toNat_lt
  have hint := uint64_toInt64_toInt x
  rw [Int.bmod_def] at hint
  have hone : Int64.toInt 1 = 1 := rfl
  rw [int64Add, if_pos (by rw [hint, hone]; split_ifs <;> omega)]
  rfl

/-- The reads of a whole list. -/
theorem read_whole {x : UInt64} {rest : List UInt64} (h : Holds el (x :: rest))
    (htotal : el.totalFrames.toNat + 1 = (x :: rest).length) :
    el.totalFrames.toInt64.toInt = rest.length ∧ loadEntries el.frameList 0 (rest.length + 1) = .ok (x :: rest) ∧
      loadEntries el.frameList 1 rest.length = .ok rest ∧ loadEntry el.frameList 0 = .ok x := by
  have hlen := h.length_lt
  rw [List.length_cons] at hlen htotal
  refine ⟨?_, ?_, ?_, ?_⟩
  · rw [uint64_toInt64_toInt_of_lt (by omega)]
    omega
  · rw [loadEntries_holds h _ (by rw [List.length_cons]; omega), List.drop_zero,
      List.take_of_length_le (by rw [List.length_cons])]
  · rw [loadEntries_holds h _ (by rw [List.length_cons]; omega), List.drop_one, List.tail_cons,
      List.take_of_length_le (Nat.le_refl _)]
  · exact loadEntry_eq_ok (by rw [h.entryAt (by rw [List.length_cons]; omega)]; rfl)

/-- The entries that the first loop visits; -/
theorem visited_eq {x : UInt64} (h : Holds el xs) (hx : (x + 1).toNat < 2 ^ 63) :
    visited el x (xs.length - 1) = .ok (xs.drop (x + 1).toNat) := by
  have hlen := h.length_lt
  have hlt := x.toNat_lt
  have hedge : x.toNat + 1 ≠ 2 ^ 63 := by
    intro heq
    rw [uint64_toNat_add_of_lt (by rw [UInt64.toNat_one]; omega), UInt64.toNat_one] at hx
    omega
  rw [visited, int64Add_one hedge, ok_bind, uint64_toInt64_toInt_of_lt hx]
  by_cases hbehind : (xs.length : ℤ) - 1 < ((x + 1).toNat : ℤ)
  · rw [if_pos hbehind, List.drop_of_length_le (by omega)]
  · rw [if_neg hbehind, if_neg (by omega), Int.toNat_natCast, loadEntries_holds h _ (by omega), List.take_of_length_le]
    rw [List.length_drop]
    omega

/-- otherwise, it reads in front of the list. -/
theorem visited_error {x : UInt64} (hx : 2 ^ 63 ≤ x.toNat + 1) (hmax : x.toNat < 2 ^ 64 - 1) (n : ℕ) :
    ∃ f, visited el x n = .error f := by
  have hlt := x.toNat_lt
  by_cases hedge : x.toNat + 1 = 2 ^ 63
  · have hint : x.toInt64.toInt = 2 ^ 63 - 1 := by
      rw [uint64_toInt64_toInt_of_lt (by omega)]
      omega
    refine ⟨.overflow, ?_⟩
    have hno : ¬ (-2 ^ 63 ≤ x.toInt64.toInt + Int64.toInt 1 ∧ x.toInt64.toInt + Int64.toInt 1 < 2 ^ 63) := by
      rw [hint]
      exact fun h => absurd h.2 (by decide)
    rw [visited, int64Add, if_neg hno]
    rfl
  · have hnext : (x + 1).toNat = x.toNat + 1 := uint64_toNat_add_of_lt (by rw [UInt64.toNat_one]; omega)
    have hneg : (x + 1).toInt64.toInt = x.toNat + 1 - 2 ^ 64 := by
      have hmod : ((x.toNat + 1 : ℕ) : ℤ) % (2 ^ 64 : ℕ) = x.toNat + 1 := by omega
      rw [uint64_toInt64_toInt, hnext, Int.bmod_def, hmod, if_neg (by omega)]
      rfl
    refine ⟨.outOfBounds, ?_⟩
    rw [visited, int64Add_one hedge, ok_bind, hneg, if_neg (by omega), if_pos (by omega)]

/-- Behind an entry, at most the first one is an additional break. -/
theorem breaks_drop_le (rest : List UInt64) : ∀ (k file last file' last' : ℕ),
    breaks file' last' (rest.drop k) ≤ breaks file last rest + 1 := by
  induction rest with
  | nil =>
    intro k file last file' last'
    rw [List.drop_nil]
    exact Nat.zero_le _
  | cons x rest ih =>
    intro k file last file' last'
    cases k with
    | zero =>
      rw [List.drop_zero, breaks, breaks]
      split_ifs <;> omega
    | succ k =>
      have hrest := ih k (nElFile x).toNat (nElFrame x).toNat file' last'
      rw [List.drop_succ_cons, breaks]
      omega

/-- The length that is estimated for a line that is sent is an `int`. -/
theorem estLen_of_sendable {x : UInt64} {rest : List UInt64} (h : Sendable el (x :: rest)) (k : ℕ) :
    (estLen (((usedFiles (x :: rest)).map fun j => nameLength el j + 45).sum +
        64 * breaks (nElFile x).toNat (nElFrame x).toNat ((x :: rest).drop k))).toNat =
      2 * (((usedFiles (x :: rest)).map fun j => nameLength el j + 45).sum +
        64 * breaks (nElFile x).toNat (nElFrame x).toNat ((x :: rest).drop k)) := by
  have hsize := h.size
  have hbreaks := breaks_drop_le (x :: rest) k (nElFile x).toNat (nElFrame x).toNat (nElFile x).toNat (nElFrame x).toNat
  have hruns : (runs (x :: rest)).length = breaks (nElFile x).toNat (nElFrame x).toNat rest + 1 :=
    runsFrom_length rest _ _ _
  have hfirst : breaks (nElFile x).toNat (nElFrame x).toNat (x :: rest) ≤
      1 + breaks (nElFile x).toNat (nElFrame x).toNat rest := by
    rw [breaks]
    split_ifs <;> omega
  have hcount : (usedFiles (x :: rest)).length ≤ maxEditListFiles := by
    have hle := (List.filter_sublist (l := List.range maxEditListFiles) (p := isUsed (x :: rest))).length_le
    rw [List.length_range] at hle
    exact hle
  have hsum : ((usedFiles (x :: rest)).map fun j => nameLength el j + 45).sum ≤
      ((usedFiles (x :: rest)).map fun j => 19 + nameLength el j + (sentFourcc el j).length).sum +
        26 * (usedFiles (x :: rest)).length := by
    generalize usedFiles (x :: rest) = js
    induction js with
    | nil => exact Nat.le_refl 0
    | cons j js ih =>
      rw [List.map_cons, List.map_cons, List.sum_cons, List.sum_cons, List.length_cons]
      omega
  rw [lineLength] at hsize
  rw [maxEditListFiles] at hcount
  rw [estLen, int32_toInt_ofInt (by omega) (by omega)]
  omega

/-- **The line that is written**, where its buffer is large enough; otherwise, the writer leaves it. -/
theorem vjElWriteLineAscii_eq (h : Sendable el xs) :
    (Roomy el xs → vjElWriteLineAscii el = .ok (some (lineText el xs))) ∧
      (¬ Roomy el xs → ∃ f, vjElWriteLineAscii el = .error f) := by
  obtain ⟨x, rest, rfl⟩ := List.exists_cons_of_ne_nil h.ne_nil
  have hx : x ∈ x :: rest := List.mem_cons_self
  obtain ⟨hn2, hall, hrest, hfirst⟩ := read_whole h.holds h.total
  have hfiles := fileFields_eq h (usedFiles (x :: rest)) fun j hj => hj
  have hruns := asciiRuns_eq h.index_inj rest (fun z hz => List.mem_cons_of_mem x hz) hx
    (nElFrame x).toNat (nElFrame x).toNat
  have hwrite : vjElWriteLineAscii el =
      visited el x rest.length >>= fun counted =>
        printInto (estLen (((usedFiles (x :: rest)).map fun j => nameLength el j + 45).sum + 64 *
          countBreaks (asciiIndex el (x :: rest)) (asciiIndex el (x :: rest) (nElFile x).toNat) (nElFrame x).toNat
            counted)).toNat (lineText el (x :: rest)) >>= fun result => .ok (some result) := by
    rw [vjElWriteLineAscii, if_neg (by rw [h.notEmpty]; exact Bool.false_ne_true)]
    dsimp only
    rw [hn2, show ((rest.length : ℤ) + 1).toNat = rest.length + 1 by omega, hall, ok_bind, hfirst, ok_bind,
      h.listed_eq, ← usedFiles, hfiles, Int.toNat_natCast, hrest]
    simp only [ok_bind]
    rw [← zeroPaddedInt_of_nat] at hruns
    rw [lineText, runs, ← hruns]
  have hvalid := (h.valid x hx).2
  have hframes := (h.files x hx).frames
  have hmod := nElFrame_toNat x
  have hlt := x.toNat_lt
  rw [hwrite, Roomy]
  by_cases hpos : x.toNat < 2 ^ 63
  · have hnext : (x + 1).toNat = x.toNat + 1 := uint64_toNat_add_of_lt (by rw [UInt64.toNat_one]; omega)
    have hvisited := @visited_eq el (x :: rest) x h.holds (by omega)
    rw [List.length_cons, hnext, show ((rest.length + 1 : ℕ) : ℤ) - 1 = rest.length by omega] at hvisited
    have hcount := countBreaks_eq h.index_inj ((x :: rest).drop (x.toNat + 1))
      (fun z hz => List.mem_of_mem_drop hz) hx (nElFrame x).toNat
    rw [hvisited, ok_bind, hcount, estLen_of_sendable h, printInto,
      lineText_length h]
    constructor
    · rintro ⟨-, hlt⟩
      rw [if_pos hlt, ok_bind]
    · intro hnot
      rw [if_neg fun hlt => hnot ⟨hpos, hlt⟩]
      exact ⟨.overrun, rfl⟩
  · refine ⟨fun hroomy => absurd hroomy.1 hpos, fun _ => ?_⟩
    obtain ⟨f, hf⟩ := @visited_error el x (by omega) (by omega) rest.length
    rw [hf]
    exact ⟨f, rfl⟩

end Sent

end Veejay.ElReply
