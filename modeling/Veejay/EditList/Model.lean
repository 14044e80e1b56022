import Veejay.CLib.Block
import Veejay.CLib.Text

/-!
# The edit list and the state it is edited in

An edit list (`editlist`) is an array of 64-bit *entries*, each naming a movie file in its upper 12
bits and a frame of that file in its lower 52, next to the table of the open movie files.  The counters
`video_frames` (a `long`) and `total_frames` (a `uint64_t`, meant to be the index of the last entry)
are kept by hand by every operation.

* `elEntry`, `nElFile`, `nElFrame` — the entry codec of `vj-el.h`, with the laws that it packs and
  unpacks;
* `EditList` — the record of `vj-el.h`, less the fields no function of this development reads;
* `MediaLib` — the movie reading libraries behind `open_video_file`, as parameters;
* `Settings`, `Session` — the playback settings and what else an edit command sees.
-/

namespace Veejay.Edl

open CLib

/-! ## Frame entries -/

/-- `N_EL_FRAME`. -/
def nElFrame (x : UInt64) : UInt64 := x &&& 0xfffffffffffff

/-- `N_EL_FILE`. -/
def nElFile (x : UInt64) : UInt32 := ((x >>> 52) &&& 0xfff).toUInt32

/-- `EL_ENTRY`. -/
def elEntry (file frame : UInt64) : UInt64 := (file <<< 52) ||| (frame &&& 0xfffffffffffff)

theorem nElFrame_toNat (x : UInt64) : (nElFrame x).toNat = x.toNat % 2 ^ 52 := by
  rw [nElFrame, UInt64.toNat_and]
  exact Nat.and_two_pow_sub_one_eq_mod x.toNat 52

theorem nElFile_toNat (x : UInt64) : (nElFile x).toNat = x.toNat / 2 ^ 52 := by
  have hx := x.toNat_lt
  have hshift : (x >>> 52).toNat = x.toNat / 2 ^ 52 := by
    rw [UInt64.toNat_shiftRight, Nat.shiftRight_eq_div_pow]
    rfl
  have hand : ((x >>> 52) &&& 0xfff).toNat = x.toNat / 2 ^ 52 % 2 ^ 12 := by
    rw [UInt64.toNat_and, hshift]
    exact Nat.and_two_pow_sub_one_eq_mod _ 12
  rw [nElFile, UInt64.toNat_toUInt32, hand]
  omega

theorem elEntry_toNat (file frame : UInt64) :
    (elEntry file frame).toNat = file.toNat % 2 ^ 12 * 2 ^ 52 + frame.toNat % 2 ^ 52 := by
  have hfile : (file <<< 52).toNat = file.toNat % 2 ^ 12 * 2 ^ 52 := by
    rw [UInt64.toNat_shiftLeft, Nat.shiftLeft_eq]
    show file.toNat * 2 ^ 52 % 2 ^ 64 = _
    omega
  have hframe : (frame &&& 0xfffffffffffff).toNat = frame.toNat % 2 ^ 52 := nElFrame_toNat frame
  rw [elEntry, UInt64.toNat_or, hfile, hframe, Nat.mul_comm, Nat.two_pow_add_eq_or_of_lt]
  omega

theorem nElFile_elEntry (file frame : UInt64) :
    (nElFile (elEntry file frame)).toNat = file.toNat % 2 ^ 12 := by
  rw [nElFile_toNat, elEntry_toNat]
  omega

theorem nElFrame_elEntry (file frame : UInt64) :
    (nElFrame (elEntry file frame)).toNat = frame.toNat % 2 ^ 52 := by
  rw [nElFrame_toNat, elEntry_toNat]
  omega

/-! ## The edit list -/

/-- `MAX_EDIT_LIST_FILES`. -/
def maxEditListFiles : ℕ := 4096

/-- `DUMMY_FRAMES`. -/
def dummyFrames : ℕ := 2

/-- What the movie library reports about an opened file (`lav_file_t`). -/
structure LavFile where
  videoFrames : Int64
  videoWidth : ℤ
  videoHeight : ℤ
  videoInterlacing : ℤ
  frameRate : ℚ
  mjpgChroma : ℤ
  audioChannels : ℤ
  audioRate : ℤ
  audioBits : ℤ
  frameSize : ℕ → ℤ
  videoCompressor : Option CStr

/-- `editlist`.  The per-file tables have `maxEditListFiles` slots. -/
structure EditList where
  hasVideo : Bool
  isEmpty : Bool
  videoWidth : ℤ
  videoHeight : ℤ
  videoInter : ℤ
  videoFps : ℚ
  videoNorm : UInt8
  hasAudio : Bool
  audioRate : ℤ
  audioChans : ℤ
  audioBits : ℤ
  audioBps : ℤ
  videoFrames : Int64
  numVideoFiles : ℕ
  totalFrames : UInt64
  maxFrameSize : ℤ
  mjpgChroma : ℤ
  videoFileList : ℕ → Option CStr
  lavFd : ℕ → Option LavFile
  pixfmt : ℕ → ℤ
  ctx : ℕ → Option ℤ
  decoders : ℕ → Bool
  numFrames : ℕ → Int64
  frameList : Option (Block UInt64)
  autoDeinter : Bool
  /-- `vj_el_free` has run on the record: any further use is a fault. -/
  freed : Bool

/-- Read slot `i` of a per-file table. -/
def loadSlot {α : Type} (table : ℕ → α) (i : UInt64) : Exec α :=
  if i.toNat < maxEditListFiles then .ok (table i.toNat) else .error .outOfBounds

/-- `calloc(sizeof(editlist))`. -/
def callocEditList : EditList where
  hasVideo := false
  isEmpty := false
  videoWidth := 0
  videoHeight := 0
  videoInter := 0
  videoFps := 0
  videoNorm := 0
  hasAudio := false
  audioRate := 0
  audioChans := 0
  audioBits := 0
  audioBps := 0
  videoFrames := 0
  numVideoFiles := 0
  totalFrames := 0
  maxFrameSize := 0
  mjpgChroma := 0
  videoFileList := fun _ => none
  lavFd := fun _ => none
  pixfmt := fun _ => 0
  ctx := fun _ => none
  decoders := fun _ => false
  numFrames := fun _ => 0
  frameList := none
  autoDeinter := false
  freed := false

/-- An entry names an open movie file and one of its frames. -/
def EntryValid (el : EditList) (x : UInt64) : Prop :=
  (nElFile x).toNat < el.numVideoFiles ∧
    ((nElFrame x).toNat : ℤ) < (el.numFrames (nElFile x).toNat).toInt

/-- The disk, the movie reading libraries and the path functions of the C library. -/
structure MediaLib where
  /-- What reading a file gives, if it can be read. -/
  contents : CStr → Option (List UInt8)
  canonicalizeFileName : CStr → Option CStr
  lavOpenInputFile : CStr → Option LavFile
  /-- `lav_open_input_file` calls `stat` first, which refuses the empty path. -/
  noEmptyPath : lavOpenInputFile [] = none
  /-- The pixel format of the decoder `avhelper_get_decoder` finds for a file. -/
  avhelperGetDecoder : CStr → Option ℤ
  testVideoFrame : LavFile → ℤ
  elNewDecoder : Option ℤ → CStr → Bool
  requireSameResolution : Bool

/-- The arguments every opening of a movie file passes on. -/
structure OpenFlags where
  preservePathname : Bool
  deinter : Bool
  overrideNorm : UInt8

/-! ## The state of an edit command -/

/-- `settings->state`, as far as editing changes it. -/
inductive PlayState where
  | stop
  | running
  deriving DecidableEq, Repr

/-- `video_playback_setup`. -/
structure Settings where
  saveList : Option (Block UInt64)
  saveListLen : UInt64
  minFrameNum : Int32
  maxFrameNum : Int32
  currentFrameNum : Int32
  state : PlayState

/-- `info->uc->playback_mode`; in sample mode with the range of the playing sample. -/
inductive PlaybackMode where
  | plain
  | sample (startFrame endFrame : ℤ)
  | tag
  deriving DecidableEq, Repr

/-- What an edit command reads and writes: the settings, the edit list it is given, and the rest of
`veejay_t` it looks at. -/
structure Session where
  settings : Settings
  el : EditList
  dummyActive : Bool
  playbackMode : PlaybackMode
  flags : OpenFlags

end Veejay.Edl
