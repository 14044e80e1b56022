import Veejay.CLib.FixedWidth

/-!
# The recorders of samples and of streams

A sample and a stream each carry the state of their own recorder: the encoder, the file it writes, and three counters
(`libsamplerec/samplerecord.c`, `libstream/vj-tag.c`).

* `Recorder`, `Disk` — that state, and the files that were opened, with the frames in each;
* `sampleStartEncoder`, `vjTagStartEncoder` — the encoder and its file are opened;
* `recordFrame`, `continueRecord` — one frame is written; whether the file is full, or the recording at its end;
* `Writing` — a recorder that writes the last file; `recordFrame_writing` — **one more frame in it**;
* `sampleStartEncoder_succeeds`, `vjTagStartEncoder_succeeds` — the next file.
-/

namespace Veejay.Record

open CLib

variable {φ : Type}

/-! ## Formats -/

def encoderMjpeg : ℤ := 0
def encoderDvvideo : ℤ := 1
def encoderYuv420 : ℤ := 4
def encoderYuv422 : ℤ := 5
def encoderQuicktimeDv : ℤ := 6
def encoderQuicktimeMjpeg : ℤ := 7
def encoderLzo : ℤ := 8
def encoderYuv420f : ℤ := 9
def encoderYuv422f : ℤ := 10
def encoderMjpegb : ℤ := 11
def encoderLjpeg : ℤ := 12
def encoderYuv4mpeg : ℤ := 13
def encoderYuv4mpeg420 : ℤ := 14
def encoderHuffyuv : ℤ := 15
def numEncoders : ℤ := 16

/-- `df == ENCODER_YUV4MPEG || df == ENCODER_YUV4MPEG420` -/
def isYuv4mpeg (df : ℤ) : Bool := df == encoderYuv4mpeg || df == encoderYuv4mpeg420

/-- `vj_avcodec_find_lav`; nothing for the terminator. -/
def vjAvcodecFindLav (encoder : ℤ) : Option Char :=
  if encoder = encoderMjpeg ∨ encoder = encoderHuffyuv then some 'a'
  else if encoder = encoderQuicktimeMjpeg then some 'q'
  else if encoder = encoderDvvideo then some 'd'
  else if encoder = encoderQuicktimeDv then some 'Q'
  else if encoder = encoderMjpegb then some 'c'
  else if encoder = encoderLjpeg then some 'l'
  else if encoder = encoderYuv420 then some 'Y'
  else if encoder = encoderYuv422 then some 'P'
  else if encoder = encoderYuv422f then some 'V'
  else if encoder = encoderYuv420f then some 'v'
  else if encoder = encoderLzo then some 'L'
  else if encoder = encoderYuv4mpeg ∨ encoder = encoderYuv4mpeg420 then some 'S'
  else none

/-- The extension of a file, in `sample_try_filename` and `vj_tag_try_filename`. -/
def fileExt (format : ℤ) : CStr :=
  if format = encoderDvvideo then lit "dv"
  else if format = encoderYuv4mpeg then lit "yuv"
  else if format = encoderQuicktimeMjpeg ∨ format = encoderQuicktimeDv then lit "mov"
  else lit "avi"

/-! ## Files -/

/-- A file that was opened for writing. -/
structure OutFile (φ : Type) where
  name : CStr
  frames : List φ
  deriving DecidableEq

/-- The files, in the order in which they were opened. -/
abbrev Disk (φ : Type) := List (OutFile φ)

/-- A file is opened. -/
def Disk.create (d : Disk φ) (name : CStr) : Disk φ := d ++ [⟨name, []⟩]

/-- A frame is written behind the others. -/
def Disk.write (d : Disk φ) (file : ℕ) (frame : φ) : Disk φ :=
  d.modify file fun f => { f with frames := f.frames ++ [frame] }

theorem Disk.write_last (before : Disk φ) (file : OutFile φ) (frame : φ) :
    Disk.write (before ++ [file]) before.length frame = before ++ [⟨file.name, file.frames ++ [frame]⟩] := by
  rw [Disk.write]
  induction before with
  | nil => rfl
  | cons b before ih => exact congrArg (b :: ·) ih

/-! ## Recorders -/

/-- `vj_encoder`: the encoder of a YUV4MPEG stream has the file itself. -/
structure Encoder where
  y4m : Option ℕ
  deriving DecidableEq

/-- The fields of `sample_info` and of `vj_tag` that a recording uses. -/
structure Recorder where
  encoder : Option Encoder
  encoderActive : Bool
  encoderFile : Option ℕ
  encoderFormat : ℤ
  encoderBase : CStr
  encoderDestination : Option CStr
  sequenceNum : ℕ
  encoderFramesRecorded : ℤ
  encoderTotalFramesRecorded : ℤ
  encoderFramesToRecord : ℤ
  deriving DecidableEq

/-- Which of the steps of a start succeed: `vj_avcodec_start`, `sufficient_space` and `lav_open_output_file`. -/
structure Outcome where
  codec : Bool
  space : Bool
  file : Bool
  deriving DecidableEq

/-- `vj_avcodec_start`; that of a YUV4MPEG stream opens the file. -/
def vjAvcodecStart (o : Outcome) (format : ℤ) (name : CStr) (d : Disk φ) : Option Encoder × Disk φ :=
  if !o.codec then (none, d)
  else if isYuv4mpeg format then (some ⟨some d.length⟩, d.create name)
  else (some ⟨none⟩, d)

/-- `"%s-%04d.%s"` -/
def fileName (base : CStr) (num : ℕ) (format : ℤ) : CStr :=
  base ++ 45 :: (zeroPaddedInt 4 (intValue num) ++ 46 :: fileExt format)

/-- `sample_try_filename`, for a sample that exists. -/
def sampleTryFilename (sampleId : ℤ) (filename : Option CStr) (format : ℤ) (r : Recorder) : Recorder :=
  let tmp := match filename with
    | none => (lit "Sample_" ++ zeroPaddedInt 4 sampleId).take 31
    | some name => name.take 31
  let tmp := tmp.map fun c => if c = 32 then 95 else c
  { r with encoderDestination := some ((fileName tmp r.sequenceNum format).take (2 * tmp.length + 9)) }

/-- `vj_tag_try_filename`, for a stream that exists. -/
def vjTagTryFilename (filename : Option CStr) (format : ℤ) (r : Recorder) : Recorder :=
  let base := match filename with
    | none => r.encoderBase
    | some name => name.take 254
  { r with encoderBase := base, encoderDestination := some (fileName base r.sequenceNum format) }

/-- The recorder once the encoder is there. -/
def begun (e : Encoder) (format nframes : ℤ) (r : Recorder) : Recorder :=
  { r with
    encoder := some e
    encoderActive := true
    encoderFormat := format
    encoderFramesRecorded := 0
    encoderFramesToRecord := if r.encoderTotalFramesRecorded = 0 then nframes else r.encoderFramesToRecord }

/-- `sample_start_encoder`.  Where the file cannot be opened, the recorder is left active. -/
def sampleStartEncoder (o : Outcome) (format nframes : ℤ) (r : Recorder) (d : Disk φ) : Bool × Recorder × Disk φ :=
  match vjAvcodecFindLav format with
  | none => (false, r, d)
  | some cformat =>
    let name := r.encoderDestination.getD []
    let start := vjAvcodecStart o format name d
    match start.1 with
    | none => (false, { r with encoder := none }, start.2)
    | some e =>
      let r := begun e format nframes r
      if !o.space then (false, { r with encoder := none, encoderActive := false }, start.2)
      else if cformat = 'S' then (true, r, start.2)
      else if o.file then (true, { r with encoderFile := some start.2.length }, start.2.create name)
      else (false, { r with encoder := none, encoderFile := none }, start.2)

/-- `vj_tag_start_encoder` -/
def vjTagStartEncoder (o : Outcome) (format nframes : ℤ) (r : Recorder) (d : Disk φ) : Bool × Recorder × Disk φ :=
  let name := r.encoderDestination.getD []
  let start := vjAvcodecStart o format name d
  match start.1 with
  | none => (false, { r with encoder := none }, start.2)
  | some e =>
    let r := begun e format nframes r
    if !o.space then (false, { r with encoder := none, encoderActive := false }, start.2)
    else if vjAvcodecFindLav format = some 'S' then (true, r, start.2)
    else if o.file then (true, { r with encoderFile := some start.2.length }, start.2.create name)
    else (false, { r with encoder := none, encoderFile := none, encoderActive := false }, start.2)

/-- What the lines of `sample_stop_encoder` and `vj_tag_stop_encoder` leave of a recorder. -/
def stopEncoder (r : Recorder) : Recorder :=
  if r.encoderActive then { r with encoderActive := false, encoderFile := none, encoder := none } else r

/-- `sample_stop_encoder` -/
abbrev sampleStopEncoder : Recorder → Recorder := stopEncoder

/-- `vj_tag_stop_encoder` -/
abbrev vjTagStopEncoder : Recorder → Recorder := stopEncoder

/-- `vj_tag_reset_encoder` -/
def vjTagResetEncoder (r : Recorder) : Recorder :=
  { r with
    encoderFormat := 0
    encoderActive := false
    encoderTotalFramesRecorded := 0
    encoderFramesToRecord := 0
    encoderFramesRecorded := 0 }

/-- `sample_reset_encoder` -/
def sampleResetEncoder (r : Recorder) : Recorder :=
  { vjTagResetEncoder r with encoderFile := none, encoder := none }

/-- `sample_reset_autosplit` -/
def sampleResetAutosplit (r : Recorder) : Recorder := { r with sequenceNum := 0 }

/-- `vj_tag_reset_autosplit` -/
def vjTagResetAutosplit (r : Recorder) : Recorder :=
  { r with encoderBase := [], encoderDestination := some [], sequenceNum := 0 }

/-- `sample_get_frames_left`, `vj_tag_get_frames_left` -/
def framesLeft (r : Recorder) : ℤ := r.encoderFramesToRecord - r.encoderTotalFramesRecorded

/-! ## One frame -/

/-- What the recording of a frame meets: the frame, `vj_avcodec_encode_frame`, `lav_write_frame`, and the bytes that
`lav_bytes_remain` gives for the file behind it. -/
structure Write (φ : Type) where
  frame : φ
  encodes : Bool
  writes : Bool
  bytesRemain : ℤ

/-- The file is full. -/
def Write.splits (w : Write φ) : Bool := decide (0 ≤ w.bytesRemain ∧ w.bytesRemain < 512 * 1024)

/-- `sample_continue_record`, `vj_tag_continue_record`: `lav_bytes_remain` reads the file it is given. -/
def continueRecord (w : Write φ) (r : Recorder) : Exec (ℤ × Recorder) :=
  match r.encoderFile with
  | none => .error .nullPointer
  | some _ =>
    if w.splits then .ok (2, { r with sequenceNum := r.sequenceNum + 1, encoderFramesRecorded := 0 })
    else if r.encoderFramesToRecord ≤ r.encoderTotalFramesRecorded then .ok (1, r)
    else .ok (0, r)

/-- One more frame is counted. -/
def counted (r : Recorder) : Recorder :=
  { r with
    encoderFramesRecorded := r.encoderFramesRecorded + 1
    encoderTotalFramesRecorded := r.encoderTotalFramesRecorded + 1 }

/-- The frame of a YUV4MPEG stream is written by its encoder. -/
def encodeFrame (w : Write φ) (e : Encoder) (d : Disk φ) : Disk φ :=
  match e.y4m with
  | some file => d.write file w.frame
  | none => d

/-- A frame for a recorder that is active; `failed` is returned where the file cannot be written. -/
def recordFrame (failed : ℤ) (w : Write φ) (r : Recorder) (d : Disk φ) : Exec (ℤ × Recorder × Disk φ) :=
  match r.encoder with
  | none => .error .nullPointer
  | some e =>
    if !w.encodes then .ok (-1, r, d)
    else match r.encoderFile with
      | none => do
        let (res, r) ← continueRecord w (counted r)
        .ok (res, r, encodeFrame w e d)
      | some file =>
        if !w.writes then .ok (failed, r, encodeFrame w e d)
        else do
          let (res, r) ← continueRecord w (counted r)
          .ok (res, r, (encodeFrame w e d).write file w.frame)

/-- `sample_record_frame`, once the recorder of the sample is found. -/
def sampleRecordFrame (w : Write φ) (r : Recorder) (d : Disk φ) : Exec (ℤ × Recorder × Disk φ) :=
  if !r.encoderActive then .ok (-1, r, d) else recordFrame 1 w r d

/-- `vj_tag_record_frame`, once the recorder of the stream is found. -/
def vjTagRecordFrame (w : Write φ) (r : Recorder) (d : Disk φ) : Exec (ℤ × Recorder × Disk φ) :=
  if !r.encoderActive then .ok (-1, r, d) else recordFrame (-1) w r d

/-! ## Names -/

/-- The number in the name of a file. -/
def HasNumber (name : CStr) (num : ℕ) : Prop :=
  ∃ base ext, (45 : UInt8) ∉ ext ∧ name = base ++ 45 :: (zeroPadded 4 num ++ 46 :: ext)

/-- What is behind the last dash of a name. -/
theorem behind_dash {x y : CStr} (hx : (45 : UInt8) ∉ x) (hy : (45 : UInt8) ∉ y) :
    ∀ {a b : CStr}, a ++ 45 :: x = b ++ 45 :: y → x = y := by
  intro a
  induction a with
  | nil =>
    intro b h
    cases b with
    | nil => exact (List.cons.inj h).2
    | cons c b => exact absurd ((List.cons.inj h).2 ▸ List.mem_append_right _ List.mem_cons_self) hx
  | cons c a ih =>
    intro b h
    cases b with
    | nil => exact absurd ((List.cons.inj h).2.symm ▸ List.mem_append_right _ List.mem_cons_self) hy
    | cons c' b => exact ih (List.cons.inj h).2

theorem not_mem_numbered {ext : CStr} (h : (45 : UInt8) ∉ ext) (num : ℕ) :
    (45 : UInt8) ∉ zeroPadded 4 num ++ 46 :: ext := by
  intro hmem
  rcases List.mem_append.mp hmem with hmem | hmem
  · exact absurd (isDigit_of_mem_zeroPadded hmem) (by decide)
  · rcases List.mem_cons.mp hmem with heq | hmem
    · exact absurd heq (by decide)
    · exact h hmem

/-- **A name has one number**, so that files of different numbers have different names. -/
theorem HasNumber.unique {name : CStr} {m n : ℕ} (hm : HasNumber name m) (hn : HasNumber name n) : m = n := by
  obtain ⟨a, x, hx, rfl⟩ := hm
  obtain ⟨b, y, hy, h⟩ := hn
  have hbehind := behind_dash (not_mem_numbered hx m) (not_mem_numbered hy n) h
  have htake : ∀ (k : ℕ) (ext : CStr), (zeroPadded 4 k ++ 46 :: ext).takeWhile isDigit = zeroPadded 4 k := by
    intro k ext
    rw [List.takeWhile_append_of_pos fun c => isDigit_of_mem_zeroPadded, List.takeWhile_cons_of_neg (by decide),
      List.append_nil]
  have hpad := congrArg (List.takeWhile isDigit) hbehind
  rw [htake, htake] at hpad
  rw [← digitsValue_zeroPadded 4 m, hpad, digitsValue_zeroPadded]

theorem not_mem_fileExt (format : ℤ) : (45 : UInt8) ∉ fileExt format := by
  rw [fileExt]
  split_ifs <;> decide

theorem fileName_number (base : CStr) {num : ℕ} (hnum : num < 2 ^ 31) (format : ℤ) :
    HasNumber (fileName base num format) num := by
  refine ⟨base, fileExt format, not_mem_fileExt format, ?_⟩
  rw [fileName, intValue_of_fits (by omega) (by omega), zeroPaddedInt_of_nat]

theorem vjTagTryFilename_number (filename : Option CStr) (format : ℤ) {r : Recorder} (hnum : r.sequenceNum < 2 ^ 31) :
    ∃ name, (vjTagTryFilename filename format r).encoderDestination = some name ∧ HasNumber name r.sequenceNum :=
  ⟨_, rfl, fileName_number _ hnum format⟩

/-- The room for the name of a file is enough for names that are not too short. -/
theorem sampleTryFilename_number (sampleId : ℤ) (filename : Option CStr) (format : ℤ) {r : Recorder}
    (hnum : r.sequenceNum < 2 ^ 31) (hlen : ∀ name ∈ filename, 6 ≤ name.length) :
    ∃ name, (sampleTryFilename sampleId filename format r).encoderDestination = some name ∧
      HasNumber name r.sequenceNum := by
  have hext : (fileExt format).length ≤ 3 := by
    rw [fileExt]
    split_ifs <;> decide
  have hdigits : (zeroPadded 4 r.sequenceNum).length ≤ 10 :=
    zeroPadded_length_le (by omega) (by omega) (hnum.trans (by norm_num))
  have hroom : ∀ tmp : CStr, 6 ≤ tmp.length →
      (fileName tmp r.sequenceNum format).take (2 * tmp.length + 9) = fileName tmp r.sequenceNum format := by
    intro tmp htmp
    refine List.take_of_length_le ?_
    rw [fileName, intValue_of_fits (by omega) (by omega), zeroPaddedInt_of_nat]
    simp only [List.length_append, List.length_cons]
    omega
  refine ⟨_, rfl, ?_⟩
  rw [hroom]
  · exact fileName_number _ hnum format
  · rw [List.length_map]
    cases filename with
    | none =>
      have hlit : (lit "Sample_").length = 7 := by decide
      simp only [List.length_take, List.length_append, hlit]
      omega
    | some name =>
      have hname := hlen name rfl
      simp only [List.length_take]
      omega

/-! ## A recorder at work -/

/-- The recorder writes the last file of the disk, and `n` frames are to come. -/
structure Writing (r : Recorder) (before : Disk φ) (file : OutFile φ) (n : ℕ) : Prop where
  encoder : r.encoder = some ⟨none⟩
  active : r.encoderActive = true
  open_ : r.encoderFile = some before.length
  destination : r.encoderDestination = some file.name
  left : r.encoderFramesToRecord = r.encoderTotalFramesRecorded + n
  total : 0 ≤ r.encoderTotalFramesRecorded
  number : HasNumber file.name r.sequenceNum
  room : r.sequenceNum + n < 2 ^ 31

/-- What the code of a frame says: go on, the end, or the next file. -/
def frameCode (splits : Bool) (left : ℕ) : ℤ := if splits then 2 else if left = 0 then 1 else 0

/-- The recorder behind a frame. -/
def advanced (splits : Bool) (r : Recorder) : Recorder :=
  if splits then { counted r with sequenceNum := r.sequenceNum + 1, encoderFramesRecorded := 0 } else counted r

/-- **One frame** goes into the file. -/
theorem recordFrame_writing {r : Recorder} {before : Disk φ} {file : OutFile φ} {n : ℕ}
    (h : Writing r before file (n + 1)) {w : Write φ} (henc : w.encodes = true) (hwr : w.writes = true) (failed : ℤ) :
    recordFrame failed w r (before ++ [file]) =
      .ok (frameCode w.splits n, advanced w.splits r, before ++ [⟨file.name, file.frames ++ [w.frame]⟩]) := by
  have hleft : (counted r).encoderFramesToRecord ≤ (counted r).encoderTotalFramesRecorded ↔ n = 0 := by
    show r.encoderFramesToRecord ≤ r.encoderTotalFramesRecorded + 1 ↔ n = 0
    rw [h.left]
    omega
  have hopen : (counted r).encoderFile = some before.length := h.open_
  have hcont : continueRecord w (counted r) = .ok (frameCode w.splits n, advanced w.splits r) := by
    rw [continueRecord]
    split
    · next hnone =>
      rw [hopen] at hnone
      cases hnone
    · cases w.splits with
      | true => rfl
      | false =>
        by_cases hn : n = 0
        · rw [if_neg Bool.false_ne_true, if_pos (hleft.mpr hn)]
          rw [frameCode, if_neg Bool.false_ne_true, if_pos hn]
          rfl
        · rw [if_neg Bool.false_ne_true, if_neg fun h => hn (hleft.mp h)]
          rw [frameCode, if_neg Bool.false_ne_true, if_neg hn]
          rfl
  rw [recordFrame, h.encoder]
  dsimp only
  rw [henc, h.open_]
  dsimp only
  rw [hwr, Bool.not_true, if_neg Bool.false_ne_true, if_neg Bool.false_ne_true, hcont, ok_bind]
  dsimp only [encodeFrame]
  rw [Disk.write_last]

/-- More frames go into the same file. -/
theorem Writing.more {r : Recorder} {before : Disk φ} {file : OutFile φ} {n : ℕ} (h : Writing r before file (n + 1))
    (frame : φ) : Writing (advanced false r) before ⟨file.name, file.frames ++ [frame]⟩ n where
  encoder := h.encoder
  active := h.active
  open_ := h.open_
  destination := h.destination
  left := by
    show r.encoderFramesToRecord = r.encoderTotalFramesRecorded + 1 + n
    rw [h.left]
    push_cast
    ring
  total := Int.add_nonneg h.total Int.one_nonneg
  number := h.number
  room := by
    have hroom : r.sequenceNum + (n + 1) < 2 ^ 31 := h.room
    exact Nat.lt_of_le_of_lt (Nat.add_le_add_left (Nat.le_succ n) _) hroom

/-! ## The next file -/

/-- What a recorder is left as at the end of a file. -/
theorem stopEncoder_idle (r : Recorder) : (stopEncoder r).encoderActive = false := by
  rw [stopEncoder]
  split_ifs with h
  · rfl
  · exact Bool.eq_false_of_not_eq_true h

theorem ite_ne_right {p : Prop} [Decidable p] {α : Type} {x y z : α} (hx : x ≠ z) (hy : y ≠ z) :
    (if p then x else y) ≠ z := by
  split_ifs
  · exact hx
  · exact hy

/-- A format whose file is opened for the recorder. -/
def Plain (format : ℤ) : Prop := isYuv4mpeg format = false ∧ (vjAvcodecFindLav format).isSome = true

instance (format : ℤ) : Decidable (Plain format) := inferInstanceAs (Decidable (_ ∧ _))

theorem findLav_ne {format : ℤ} (h : isYuv4mpeg format = false) : vjAvcodecFindLav format ≠ some 'S' := by
  rw [isYuv4mpeg, Bool.or_eq_false_iff, beq_eq_false_iff_ne, beq_eq_false_iff_ne] at h
  rw [vjAvcodecFindLav, if_neg (not_or.mpr h)]
  -- all other formats have letters of their own
  iterate 11 refine ite_ne_right ?_ ?_; · decide
  exact fun h => nomatch h

theorem vjAvcodecStart_plain {o : Outcome} {format : ℤ} (h : isYuv4mpeg format = false) (name : CStr) (d : Disk φ) :
    vjAvcodecStart o format name d = if o.codec then (some ⟨none⟩, d) else (none, d) := by
  rw [vjAvcodecStart, h, if_neg Bool.false_ne_true]
  cases o.codec <;> rfl

/-- The steps of a start that all succeed. -/
def Outcome.succeeds (o : Outcome) : Bool := o.codec && o.space && o.file

/-- **The next file of a sample.** -/
theorem sampleStartEncoder_succeeds {o : Outcome} (ho : o.succeeds = true) {format : ℤ} (hf : Plain format) (n : ℤ)
    {r : Recorder} {name : CStr} (hname : r.encoderDestination = some name) (d : Disk φ) :
    sampleStartEncoder o format n r d =
      (true, { begun ⟨none⟩ format n r with encoderFile := some d.length }, d.create name) := by
  rw [Outcome.succeeds, Bool.and_eq_true, Bool.and_eq_true] at ho
  obtain ⟨⟨hcodec, hspace⟩, hfile⟩ := ho
  obtain ⟨c, hc⟩ := Option.isSome_iff_exists.mp hf.2
  have hS : c ≠ 'S' := fun h => findLav_ne hf.1 (h ▸ hc)
  rw [sampleStartEncoder, hc]
  dsimp only
  rw [vjAvcodecStart_plain hf.1, hcodec, if_pos rfl]
  dsimp only
  rw [hspace, Bool.not_true, if_neg Bool.false_ne_true, if_neg hS, hfile, if_pos rfl, hname]
  rfl

/-- **The next file of a stream.** -/
theorem vjTagStartEncoder_succeeds {o : Outcome} (ho : o.succeeds = true) {format : ℤ} (hf : isYuv4mpeg format = false)
    (n : ℤ) {r : Recorder} {name : CStr} (hname : r.encoderDestination = some name) (d : Disk φ) :
    vjTagStartEncoder o format n r d =
      (true, { begun ⟨none⟩ format n r with encoderFile := some d.length }, d.create name) := by
  rw [Outcome.succeeds, Bool.and_eq_true, Bool.and_eq_true] at ho
  obtain ⟨⟨hcodec, hspace⟩, hfile⟩ := ho
  rw [vjTagStartEncoder]
  dsimp only
  rw [vjAvcodecStart_plain hf, hcodec, if_pos rfl]
  dsimp only
  rw [hspace, Bool.not_true, if_neg Bool.false_ne_true, if_neg (findLav_ne hf), hfile, if_pos rfl, hname]
  rfl

/-- A start of a sample that fails, for another reason than that the file cannot be opened, leaves it idle. -/
theorem sampleStartEncoder_fails {o : Outcome} {format : ℤ} (hf : isYuv4mpeg format = false)
    (hfail : o.succeeds = false ∨ vjAvcodecFindLav format = none) (hfile : o.codec = true → o.space = true → o.file = true)
    (n : ℤ) {r : Recorder} (hr : r.encoderActive = false) (d : Disk φ) :
    ∃ r', sampleStartEncoder o format n r d = (false, r', d) ∧ r'.encoderActive = false := by
  rw [sampleStartEncoder]
  cases hc : vjAvcodecFindLav format with
  | none => exact ⟨r, rfl, hr⟩
  | some c =>
    dsimp only
    rw [vjAvcodecStart_plain hf]
    cases hcodec : o.codec with
    | false => exact ⟨_, rfl, hr⟩
    | true =>
      cases hspace : o.space with
      | false => exact ⟨_, rfl, rfl⟩
      | true =>
        rcases hfail with hfail | hfail
        · rw [Outcome.succeeds, hcodec, hspace, hfile hcodec hspace] at hfail
          cases hfail
        · rw [hc] at hfail
          cases hfail

/-- A start of a stream that fails leaves it idle. -/
theorem vjTagStartEncoder_fails {o : Outcome} {format : ℤ} (hf : isYuv4mpeg format = false) (hfail : o.succeeds = false)
    (n : ℤ) {r : Recorder} (hr : r.encoderActive = false) (d : Disk φ) :
    ∃ r', vjTagStartEncoder o format n r d = (false, r', d) ∧ r'.encoderActive = false := by
  rw [vjTagStartEncoder]
  dsimp only
  rw [vjAvcodecStart_plain hf]
  cases hcodec : o.codec with
  | false => exact ⟨_, rfl, hr⟩
  | true =>
    cases hspace : o.space with
    | false => exact ⟨_, rfl, rfl⟩
    | true =>
      cases hfile : o.file with
      | false =>
        rw [if_pos rfl]
        dsimp only
        rw [Bool.not_true, if_neg Bool.false_ne_true, if_neg (findLav_ne hf), if_neg Bool.false_ne_true]
        exact ⟨_, rfl, rfl⟩
      | true =>
        rw [Outcome.succeeds, hcodec, hspace, hfile] at hfail
        cases hfail

/-! ## YUV4MPEG streams -/

end Veejay.Record
