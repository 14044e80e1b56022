import Veejay.Record.Recorder

/-!
# The performer and its recorders

After each frame the performer records it into the sample or the stream that plays (`veejay/vj-perform.c`); a file that
is full is closed and added as a new sample, and the recorder goes on with the next one.  The file that is added is
that of the sample or stream that plays.

* `Player`, `Round` — what the performer reads and changes, and what it meets while it renders one frame;
* `vjPerformRecordCommitSingle`, `vjPerformRecordStop` — the file is added; the recording is ended;
* `vjPerformRecordSampleFrame`, `vjPerformRecordTagFrame` — one frame;
* `playRound` — one round of the player, with the part of it that records a stream that does not play;
* `vjEventSampleRecStart` — a recording is started.
-/

namespace Veejay.Record

open CLib

variable {φ : Type}

/-! ## The player -/

inductive PlaybackMode where
  | sample
  | stream
  | plain
  deriving DecidableEq

/-- What plays: `uc->playback_mode`, `uc->sample_id` and `seq->active`. -/
structure Playing where
  mode : PlaybackMode
  sampleId : ℤ
  seqActive : Bool
  deriving DecidableEq

/-- Whose recorder it is. -/
inductive Slot where
  | sample (id : ℤ)
  | stream (id : ℤ)
  deriving DecidableEq

/-- A file that was added, as a sample or as a stream. -/
inductive Commit where
  | sample (file : CStr)
  | stream (file : CStr)
  deriving DecidableEq

/-- `veejay_t`, `video_playback_setup` and the sequencer, as far as they have to do with recording. -/
structure Player (φ : Type) where
  playing : Playing
  recId : ℤ
  sampleRecord : Bool
  sampleRecordId : ℤ
  sampleRecordSwitch : Bool
  tagRecord : Bool
  tagRecordSwitch : Bool
  offlineRecord : Bool
  offlineTagId : ℤ
  offlineCreatedSample : Bool
  recorders : Slot → Option Recorder
  disk : Disk φ
  commits : List Commit

/-- What the performer meets in one round: what plays while the frame is rendered and once it is recorded, whether there
is space on the disk, whether `vj_tag_get_frame` gives a frame, the frame and what becomes of it, the format that is
selected, the outcome of a start, and the sample that is the newest. -/
structure Round (φ : Type) where
  playing : Playing
  next : Playing
  diskspace : Bool
  fetched : Bool
  write : Write φ
  df : ℤ
  restart : Outcome
  newest : ℤ

/-- Something else plays. -/
def Player.play (p : Player φ) (playing : Playing) : Player φ := { p with playing := playing }

/-- `info->seq->rec_id` is set. -/
def Player.setRecId (p : Player φ) (id : ℤ) : Player φ := { p with recId := id }

/-- The recorder of a sample or a stream is changed. -/
def Player.setRecorder (p : Player φ) (slot : Slot) (r : Recorder) : Player φ :=
  { p with recorders := fun s => if s = slot then some r else p.recorders s }

/-- The recorder of a sample or a stream is changed, if there is one. -/
def Player.updRecorder (p : Player φ) (slot : Slot) (f : Recorder → Recorder) : Player φ :=
  match p.recorders slot with
  | none => p
  | some r => p.setRecorder slot (f r)

/-- The recorder of a sample or a stream, and the disk. -/
def Player.setSession (p : Player φ) (slot : Slot) (x : Recorder × Disk φ) : Player φ :=
  { p.setRecorder slot x.1 with disk := x.2 }

/-! ## Starting and recording by id -/

/-- `sample_init_encoder` -/
def sampleInitEncoder (o : Outcome) (sampleId : ℤ) (filename : Option CStr) (format nframes : ℤ) (p : Player φ) :
    Bool × Player φ :=
  match p.recorders (.sample sampleId) with
  | none => (false, p)
  | some r =>
    let r := sampleTryFilename sampleId filename format r
    if format < 0 ∨ numEncoders < format ∨ nframes ≤ 0 ∨ r.encoderActive = true then
      (false, p.setRecorder (.sample sampleId) r)
    else
      let x := sampleStartEncoder o format nframes r p.disk
      (x.1, p.setSession (.sample sampleId) x.2)

/-- `vj_tag_init_encoder` -/
def vjTagInitEncoder (o : Outcome) (t1 : ℤ) (filename : Option CStr) (format nframes : ℤ) (p : Player φ) :
    Bool × Player φ :=
  match p.recorders (.stream t1) with
  | none => (false, p)
  | some r =>
    if r.encoderActive = true then (false, p)
    else
      let r := vjTagTryFilename filename format r
      if nframes ≤ 0 then (false, p.setRecorder (.stream t1) r)
      else
        let x := vjTagStartEncoder o format nframes r p.disk
        (x.1, p.setSession (.stream t1) x.2)

/-- A frame for the recorder of a sample or a stream; nothing is recorded where there is none. -/
def recordInto (record : Recorder → Disk φ → Exec (ℤ × Recorder × Disk φ)) (slot : Slot) (p : Player φ) :
    Exec (ℤ × Player φ) :=
  match p.recorders slot with
  | none => .ok (-1, p)
  | some r => do
    let (res, x) ← record r p.disk
    .ok (res, p.setSession slot x)

/-- `vj_perform_render_sample_frame`, where there is space on the disk -/
def vjPerformRenderSampleFrame (e : Round φ) (sample : ℤ) (p : Player φ) : Exec (ℤ × Player φ) :=
  if !e.diskspace then .ok (1, p) else recordInto (sampleRecordFrame e.write) (.sample sample) p

/-- The stream that is recorded: `settings->offline_tag_id` or `uc->sample_id`. -/
def Player.streamId (p : Player φ) : ℤ := if p.offlineRecord then p.offlineTagId else p.playing.sampleId

/-- `vj_perform_render_tag_frame`, where there is space on the disk -/
def vjPerformRenderTagFrame (e : Round φ) (p : Player φ) : Exec (ℤ × Player φ) :=
  if !e.diskspace then .ok (1, p)
  else if p.offlineRecord && !e.fetched then .ok (0, p)
  else recordInto (vjTagRecordFrame e.write) (.stream p.streamId) p

/-- `sample_get_frames_left`, `vj_tag_get_frames_left` -/
def Player.framesLeft (p : Player φ) (slot : Slot) : ℤ :=
  match p.recorders slot with
  | none => 0
  | some r => Record.framesLeft r

/-! ## The end of a file -/

/-- A sample or a stream is added. -/
def Player.commit (p : Player φ) (c : Commit) : Player φ := { p with commits := p.commits ++ [c] }

/-- `veejay_create_tag` or `veejay_edit_addmovie_sample` -/
def Player.add (p : Player φ) (df : ℤ) (file : CStr) : Player φ :=
  p.commit (if isYuv4mpeg df then .stream file else .sample file)

/-- `vj_perform_record_commit_single`: `sample_get_encoded_file` answers for samples that are not there, too. -/
def vjPerformRecordCommitSingle (e : Round φ) (p : Player φ) : Exec (Player φ) :=
  match p.playing.mode with
  | .sample =>
    match p.recorders (.sample p.playing.sampleId) with
    | none => .error .uninitialised
    | some r =>
      match r.encoderDestination with
      | none => .error .nullPointer
      | some file => .ok (p.add e.df file)
  | .stream =>
    match p.recorders (.stream p.streamId) with
    | none => .ok p
    | some r =>
      match r.encoderDestination with
      | none => .error .nullPointer
      | some file => .ok (p.add e.df file)
  | .plain => .ok p

/-- `if (play)`, and no streams are recorded: `veejay_set_sample (info, sample_size () - 1)` -/
def Player.autoplay (p : Player φ) (e : Round φ) (play : Bool) : Player φ :=
  if play && !isYuv4mpeg e.df then
    p.play { p.playing with mode := .sample, sampleId := e.newest }
  else p

/-- The settings of a recording of a sample. -/
def Player.clearSample (p : Player φ) : Player φ :=
  { p with sampleRecord := false, sampleRecordId := 0, sampleRecordSwitch := false }

/-- The settings of a recording of the stream that plays. -/
def Player.clearTag (p : Player φ) : Player φ := { p with tagRecord := false, tagRecordSwitch := false }

/-- The settings of a recording of a stream that does not play. -/
def Player.clearOffline (p : Player φ) : Player φ :=
  { p with offlineRecord := false, offlineCreatedSample := false, offlineTagId := 0 }

/-- `vj_perform_record_stop` -/
def vjPerformRecordStop (e : Round φ) (p : Player φ) : Player φ :=
  match p.playing.mode with
  | .sample =>
    let q := p.updRecorder (.sample p.playing.sampleId) fun r => sampleResetAutosplit (sampleResetEncoder r)
    (q.autoplay e (p.sampleRecord && p.sampleRecordSwitch)).clearSample
  | .stream =>
    let q := p.updRecorder (.stream p.streamId) fun r => vjTagResetAutosplit (vjTagResetEncoder r)
    if p.offlineRecord then q.clearOffline.autoplay e p.offlineCreatedSample
    else q.clearTag.autoplay e p.tagRecordSwitch
  | .plain => p

/-! ## One frame -/

/-- `if (info->seq->active && info->seq->rec_id) info->seq->rec_id = 0;` -/
def Player.endSequence (p : Player φ) : Player φ :=
  if p.playing.seqActive && p.recId != 0 then p.setRecId 0 else p

/-- The lines for a sample whose file is full. -/
def splitSample (e : Round φ) (sample : ℤ) (p : Player φ) : Exec (Player φ) := do
  let left := p.framesLeft (.sample sample)
  let p ← vjPerformRecordCommitSingle e (p.updRecorder (.sample sample) sampleStopEncoder)
  if 0 < left then .ok (sampleInitEncoder e.restart sample none e.df left p).2
  else .ok (p.updRecorder (.sample sample) fun r => sampleResetAutosplit (sampleResetEncoder r))

/-- The lines for a stream whose file is full. -/
def splitStream (e : Round φ) (p : Player φ) : Exec (Player φ) := do
  let streamId := p.streamId
  let left := p.framesLeft (.stream streamId)
  let p ← vjPerformRecordCommitSingle e (p.updRecorder (.stream streamId) vjTagStopEncoder)
  let p := p.updRecorder (.stream streamId) vjTagResetEncoder
  if 0 < left then .ok (vjTagInitEncoder e.restart streamId none e.df left p).2
  else .ok (p.updRecorder (.stream streamId) fun r => vjTagResetAutosplit (vjTagResetEncoder r))

/-- `vj_perform_record_sample_frame` -/
def vjPerformRecordSampleFrame (e : Round φ) (sample : ℤ) (p : Player φ) : Exec (Player φ) := do
  let (res, p) ← vjPerformRenderSampleFrame e sample p
  if res = 2 then splitSample e sample p
  else if res = 1 then do
    let p ← vjPerformRecordCommitSingle e (p.endSequence.updRecorder (.sample sample) sampleStopEncoder)
    .ok (vjPerformRecordStop e p)
  else if res = -1 then .ok (vjPerformRecordStop e (p.endSequence.updRecorder (.sample sample) sampleStopEncoder))
  else .ok p

/-- `vj_perform_record_tag_frame` -/
def vjPerformRecordTagFrame (e : Round φ) (p : Player φ) : Exec (Player φ) := do
  let streamId := p.streamId
  let (res, p) ← vjPerformRenderTagFrame e p
  if res = 2 then splitStream e p
  else if res = 1 then do
    let p ← vjPerformRecordCommitSingle e (p.updRecorder (.stream streamId) vjTagStopEncoder)
    .ok (vjPerformRecordStop e p)
  else if res = -1 then .ok (vjPerformRecordStop e (p.updRecorder (.stream streamId) vjTagStopEncoder))
  else .ok p

/-- `vj_perform_record_frame` -/
def vjPerformRecordFrame (e : Round φ) (p : Player φ) : Exec (Player φ) :=
  match p.playing.mode with
  | .stream => vjPerformRecordTagFrame e p
  | .sample =>
    vjPerformRecordSampleFrame e (if p.playing.seqActive && p.recId != 0 then p.recId else p.playing.sampleId) p
  | .plain => .ok p

/-- The encoder of a sample or a stream is active. -/
def Player.active (p : Player φ) (slot : Slot) : Bool := (p.recorders slot).any Recorder.encoderActive

/-- `pvar_.enc_active`, as `vj_perform_queue_video_frame` sets it. -/
def Player.encActive (p : Player φ) : Bool :=
  match p.playing.mode with
  | .sample => (p.playing.seqActive && p.recId != 0) || p.active (.sample p.playing.sampleId)
  | .stream => p.active (.stream p.playing.sampleId)
  | .plain => false

/-- What `vj_perform_queue_video_frame` does for a stream that is recorded while it does not play. -/
def recordOffline (e : Round φ) (p : Player φ) : Exec (Player φ) :=
  if p.offlineRecord then vjPerformRecordTagFrame e p else .ok p

/-- One round of the player: `vj_perform_queue_video_frame`, `vj_perform_queue_frame`, which may go on to something
else, and `vj_perform_record_video_frame`. -/
def playRound (e : Round φ) (p : Player φ) : Exec (Player φ) := do
  let p ← recordOffline e (p.play e.playing)
  if p.encActive then vjPerformRecordFrame e (p.play e.next) else .ok (p.play e.next)

/-! ## The start -/

/-- `vj_event_sample_rec_start`, once the temporary file has its name and the number of frames is known; `start` is
where the sequence begins. -/
def vjEventSampleRecStart (o : Outcome) (tmp : CStr) (format n : ℤ) (switch : Bool) (start : Playing) (p : Player φ) :
    Player φ :=
  if p.playing.mode ≠ .sample then p
  else if format = -1 then p
  else if p.playing.seqActive && p.recId != 0 then p
  else if n ≤ 1 then p
  else
    let sampleId := p.playing.sampleId
    let x := sampleInitEncoder o sampleId (some tmp) format n p
    if x.1 then
      let p := { x.2 with sampleRecordId := sampleId, sampleRecordSwitch := switch, sampleRecord := true }
      if p.playing.seqActive then (p.setRecId sampleId).play start else p.setRecId 0
    else { x.2.updRecorder (.sample sampleId) sampleStopEncoder with sampleRecord := false }

end Veejay.Record
