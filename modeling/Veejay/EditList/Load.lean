import Veejay.CLib.Loop
import Veejay.EditList.OpenVideo

/-!
# Opening an edit list

`vj_el_init_with_args` opens a list of files.  A file whose first line is `LAV Edit List` is an edit
list: a norm, a number of movie files, their names, and then one line `file first last` for every run
of frames.  Any other file is a movie, all of whose frames are appended.

The function keeps its scratch variables across lines and files: a line that `fgets` cannot read
leaves the buffer as it was, and a number that `sscanf` cannot read leaves the old number in place.
The state `Loader` therefore carries all of them.

* `readNames` — the loop over the names, which counts with the same variable as the loop inside it;
* `scanEntry`, `readEntries` — the loop over the runs;
* `vjElInitWithArgs` — the whole function; the result `none` is the null pointer.
-/

namespace Veejay.Edl

open CLib

/-- The variables of `vj_el_init_with_args`. -/
structure Loader where
  el : EditList
  line : CStr
  numListFiles : Option ℤ
  indexList : ℕ → Option UInt64
  nl : ℤ
  n1 : ℤ
  n2 : ℤ

/-- `fgets(line, 1024, fd)`: at the end of the file the buffer is left as it is. -/
def fgets (st : Loader) : List CStr → Loader × List CStr
  | [] => (st, [])
  | line :: input => ({ st with line }, input)

/-! ## Appending entries -/

/-- `realloc(frame_list, (video_frames + extra) * sizeof(uint64_t))` -/
def growFrames (mem : Allocator) (extra : ℤ) (el : EditList) : Option EditList :=
  match mem.realloc el.frameList ((el.videoFrames.toUInt64 + UInt64.ofInt extra) * 8).toNat with
  | none => none
  | some frameList => some { el with frameList := some frameList }

/-- The variables of a loop that appends entries. -/
structure EntryLoop where
  i : ℤ
  videoFrames : Int64
  frameList : Option (Block UInt64)

/-- `frame_list[video_frames++] = EL_ENTRY(file, i); i++` -/
def entryStep (file : UInt64) (s : EntryLoop) : Exec EntryLoop := do
  let frameList ← Block.storeAt s.frameList s.videoFrames.toUInt64.toNat
    (some (elEntry file (UInt64.ofInt s.i)))
  .ok ⟨s.i + 1, s.videoFrames + 1, frameList⟩

/-- `for (i = lo; i <= hi; i++)` -/
def appendEntries (file : UInt64) (lo hi : ℤ) (el : EditList) : Exec EditList := do
  let loop ← whileLoop (fun s => decide (s.i ≤ hi)) (entryStep file) (hi + 1 - lo).toNat
    ⟨lo, el.videoFrames, el.frameList⟩
  .ok { el with videoFrames := loop.videoFrames, frameList := loop.frameList }

/-! ## The names -/

/-- One round of the loop over the names.  It reads a line, opens the movie it names, and then takes
`num_frames[n]`, where `n` is the length of the line; the loop that appends these frames leaves its
own count in `i`. -/
def readName (mem : Allocator) (lib : MediaLib) (fl : OpenFlags) (i : ℤ) (st : Loader) :
    Exec (Option (ℤ × Loader)) :=
  match st.line.getLast? with
  | none => .error .outOfBounds
  | some c =>
      if c ≠ newline then .ok none
      else do
        let opened ← openVideoFile lib fl st.line.dropLast st.el
        if maxEditListFiles ≤ i.toNat then .error .outOfBounds
        else
          let frames ← loadSlot opened.2.numFrames (UInt64.ofNat st.line.length)
          match growFrames mem frames.toInt opened.2 with
          | none => .ok none
          | some el => do
              let el ← appendEntries (UInt64.ofNat st.line.length) 0 (frames.toInt - 1) el
              .ok (some (max 0 frames.toInt + 1, { st with
                line := st.line.dropLast
                indexList := Function.update st.indexList i.toNat (some (UInt64.ofInt opened.1))
                el }))

/-- `for (i = 0; i < num_list_files; i++)`.  Every round uses up a line, or cuts the last one. -/
def readNames (mem : Allocator) (lib : MediaLib) (fl : OpenFlags) (num : ℤ) :
    ℕ → ℤ → List CStr → Loader → Exec (Option (List CStr × Loader))
  | 0, i, input, st => if i < num then .error .outOfFuel else .ok (some (input, st))
  | fuel + 1, i, input, st =>
      if i < num then do
        let next := fgets st input
        let named ← readName mem lib fl i next.1
        match named with
        | none => .ok none
        | some (i, st) => readNames mem lib fl num fuel i next.2 st
      else .ok (some (input, st))

/-! ## The runs of frames -/

/-- `sscanf(line, "%ld %d %d", &nl, &n1, &n2)` -/
def scanEntry (line : CStr) (args : ℤ × ℤ × ℤ) : ℤ × ℤ × ℤ :=
  match scanInt line with
  | .val nl rest =>
      match scanInt rest with
      | .val n1 rest =>
          match scanInt rest with
          | .val n2 _ => (longValue nl, intValue n1, intValue n2)
          | _ => (longValue nl, intValue n1, args.2.2)
      | _ => (longValue nl, args.2)
  | _ => args

/-- Append the entries `lo .. hi` of a file, if there are any. -/
def appendRun (mem : Allocator) (index : UInt64) (lo hi : ℤ) (st : Loader) :
    Exec (Option Loader) :=
  if hi < lo then .ok (some st)
  else
    match growFrames mem (hi - lo + 1) st.el with
    | none => .ok none
    | some el => do
        let el ← appendEntries index lo hi el
        .ok (some { st with el })

/-- One line of the last part of an edit list. -/
def readEntry (mem : Allocator) (line : CStr) (st : Loader) : Exec (Option Loader) :=
  if line.headD 0 = 58 then .ok (some { st with line })
  else
    let args := scanEntry line (st.nl, st.n1, st.n2)
    match st.numListFiles with
    | none => .error .uninitialised
    | some num =>
        if args.1 < 0 ∨ num ≤ args.1 then .ok none
        else if maxEditListFiles ≤ args.1.toNat then .error .outOfBounds
        else
          match st.indexList args.1.toNat with
          | none => .error .uninitialised
          | some index => do
              let frames ← loadSlot st.el.numFrames index
              let lo := max args.2.1 0
              let hi := min args.2.2 frames.toInt
              appendRun mem index lo hi { st with line, nl := args.1, n1 := lo, n2 := hi }

/-- `while (fgets(line, 1024, fd))` -/
def readEntries (mem : Allocator) : List CStr → Loader → Exec (Option Loader)
  | [], st => .ok (some st)
  | line :: input, st => do
      let next ← readEntry mem line st
      match next with
      | none => .ok none
      | some st => readEntries mem input st

/-! ## Files -/

/-- The line that makes a file an edit list. -/
def editListHeader : CStr := lit "LAV Edit List" ++ [newline]

/-- The first byte of the second line names a norm. -/
def isNorm (c : UInt8) : Bool :=
  c == 78 || c == 110 || c == 80 || c == 112 || c == 83 || c == 115

/-- `tolower`. -/
def toLower (c : UInt8) : UInt8 := if 65 ≤ c ∧ c ≤ 90 then c + 32 else c

/-- `el->video_norm`, which a norm given before takes precedence over. -/
def adoptNorm (st : Loader) : Loader :=
  if st.el.videoNorm ≠ 0 then st
  else { st with el := { st.el with videoNorm := toLower (st.line.headD 0) } }

/-- `sscanf(line, "%d", &num_list_files)` -/
def scanCount (st : Loader) : Loader :=
  match scanInt st.line with
  | .val v _ => { st with numListFiles := some (intValue v) }
  | _ => st

/-- The part for edit lists, from the names on. -/
def readRest (mem : Allocator) (lib : MediaLib) (fl : OpenFlags) (num : ℤ) (input : List CStr)
    (st : Loader) : Exec (Option Loader) := do
  let named ← readNames mem lib fl num (input.length + 2) 0 input st
  match named with
  | none => .ok none
  | some (input, st) => readEntries mem input st

/-- The part for edit lists, from the second line on. -/
def readEditList (mem : Allocator) (lib : MediaLib) (fl : OpenFlags) (input : List CStr)
    (st : Loader) : Exec (Option Loader) :=
  let norm := fgets st input
  if isNorm (norm.1.line.headD 0) = false then .ok none
  else
    let count := fgets (adoptNorm norm.1) norm.2
    let st := scanCount count.1
    match st.numListFiles with
    | none => .error .uninitialised
    | some num => readRest mem lib fl num count.2 st

/-- `RUP8`. -/
def rup8 (num : UInt64) : UInt64 := (num + 8) &&& 0xfffffffffffffff7

/-- The part for movie files.  The result of `open_video_file` is kept in a `uint64_t`, so the test
`n >= 0` is always true. -/
def readMovie (mem : Allocator) (lib : MediaLib) (fl : OpenFlags) (name : CStr) (st : Loader) :
    Exec (Option Loader) := do
  let opened ← openVideoFile lib fl name st.el
  let el := opened.2
  let n := UInt64.ofInt opened.1
  let frames ← loadSlot el.numFrames n
  match mem.realloc el.frameList (rup8 (el.videoFrames.toUInt64 + frames.toUInt64) * 8).toNat with
  | none => .ok none
  | some frameList => do
      let el ← appendEntries n 0 (frames.toInt - 1) { el with frameList := some frameList }
      .ok (some { st with el })

/-- One round of the loop over the files. -/
def readFile (mem : Allocator) (lib : MediaLib) (fl : OpenFlags) (name : CStr) (st : Loader) :
    Exec (Option Loader) :=
  match lib.contents name with
  | none => .ok none
  | some text =>
      let first := fgets st (fgetsLines 1024 text)
      if first.1.line = editListHeader then readEditList mem lib fl first.2 first.1
      else readMovie mem lib fl name first.1

/-- `for (; nf < num_files; nf++)` -/
def readFiles (mem : Allocator) (lib : MediaLib) (fl : OpenFlags) :
    List CStr → Loader → Exec (Option Loader)
  | [], st => .ok (some st)
  | name :: names, st => do
      let next ← readFile mem lib fl name st
      match next with
      | none => .ok none
      | some st => readFiles mem lib fl names st

/-- `get_max_frame_size`. -/
def getMaxFrameSize (lav : LavFile) : ℤ :=
  let res := (List.range lav.videoFrames.toInt.toNat).foldl (fun m i => max m (lav.frameSize i)) 0
  (rup8 (UInt64.ofInt res)).toNat

/-- The largest frame of the open files. -/
def curMaxFrameSize (el : EditList) : ℤ :=
  (List.range el.numVideoFiles).foldl
    (fun m i => max m ((el.lavFd i).elim 0 getMaxFrameSize)) 0

/-- The checks and the fields at the end of `vj_el_init_with_args`. -/
def finishLoad (el : EditList) : Option EditList :=
  if el.numVideoFiles = 0 ∨ el.videoWidth = 0 ∨ el.videoHeight = 0 ∨ el.videoFrames.toInt < 1 then
    none
  else
    some { el with
      maxFrameSize := curMaxFrameSize el
      totalFrames := (el.videoFrames - 1).toUInt64
      autoDeinter := false }

/-- The variables before the first file is read. -/
def startLoad (videoNorm : UInt8) : Loader where
  el := { callocEditList with hasVideo := true, mjpgChroma := 1, videoNorm }
  line := []
  numListFiles := none
  indexList := fun _ => none
  nl := 0
  n1 := 0
  n2 := 0

/-- A first argument that names a norm: `+p`, `+n` or `+s`. -/
def isNormArgument (name : CStr) : Bool := name == lit "+p" || name == lit "+n" || name == lit "+s"

/-- `vj_el_init_with_args`. -/
def vjElInitWithArgs (mem : Allocator) (lib : MediaLib) (fl : OpenFlags) (filename : List CStr) :
    Exec (Option EditList) :=
  match filename with
  | [] => .ok none
  | first :: others => do
      let read ←
        if isNormArgument first then readFiles mem lib fl others (startLoad (first.getD 1 0))
        else readFiles mem lib fl filename (startLoad 0)
      match read with
      | none => .ok none
      | some st => .ok (finishLoad st.el)

/-! ## A disk with one movie -/

/-- A movie of the given length. -/
def plainMovie (videoFrames : Int64) : LavFile where
  videoFrames
  videoWidth := 720
  videoHeight := 576
  videoInterlacing := 0
  frameRate := 25
  mjpgChroma := 1
  audioChannels := 0
  audioRate := 0
  audioBits := 0
  frameSize := fun _ => 0
  videoCompressor := some (lit "mjpg")

/-- A disk with the edit list `list`, whose text is given, and the movie `m`. -/
def oneMovie (text : List UInt8) (videoFrames : Int64) : MediaLib where
  contents := fun name => if name = lit "list" then some text else none
  canonicalizeFileName := some
  lavOpenInputFile := fun name => if name = lit "m" then some (plainMovie videoFrames) else none
  noEmptyPath := if_neg (by decide)
  avhelperGetDecoder := fun _ => some 0
  testVideoFrame := fun _ => 0
  elNewDecoder := fun _ _ => true
  requireSameResolution := false

end Veejay.Edl
