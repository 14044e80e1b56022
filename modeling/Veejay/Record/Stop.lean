import Veejay.Record.FailedStart

/-!
# Stopping the recording of a stream

There are two commands that stop the recording of a stream: one for the stream that plays, one for a stream that does
not (`veejay/vj-event.c`).  Each has its own lines for the file that was recorded.

* `vjEventTagRecStop`, `vjEventTagRecOfflineStop` — the commands;
* `RecordsInto` — a stream whose encoder is active, and its file;
* `Concluded` — the file is added, the recorder and its settings are reset, and nothing else is changed;
* `vjEventTagRecOfflineStop_commits` — **the second command adds no file**;
* `stopRecording_iff` — **which command stops the recording of a stream**, whatever plays.
-/

namespace Veejay.Record

open CLib

variable {φ : Type}

/-! ## The commands -/

/-- What a command meets: whether the file can be added, `sample_size () - 1`, and whether there is that sample. -/
structure StopRound where
  added : Bool
  newest : ℤ
  newestExists : Bool

/-- `vj_tag_stop_encoder`: what it returns, and the player. -/
def vjTagStop (t1 : ℤ) (p : Player φ) : ℤ × Player φ :=
  match p.recorders (.stream t1) with
  | none => (-1, p)
  | some r => (if r.encoderActive = true then 1 else 0, p.setRecorder (.stream t1) (vjTagStopEncoder r))

/-- `vj_tag_get_encoded_file`: what it returns, and the name if it is written; `%s` reads the destination. -/
def vjTagGetEncodedFile (t1 : ℤ) (p : Player φ) : Exec (ℤ × Option CStr) :=
  match p.recorders (.stream t1) with
  | none => .ok (0, none)
  | some r =>
    match r.encoderDestination with
    | none => .error .nullPointer
    | some file => .ok (1, some file)

/-- `veejay_edit_addmovie_sample`, for a new sample: the name is read. -/
def veejayEditAddmovieSample (e : StopRound) (file : Option CStr) (p : Player φ) : Exec (Player φ) :=
  match file with
  | none => .error .uninitialised
  | some file => .ok (if e.added = true then p.commit (.sample file) else p)

/-- `veejay_change_playback_mode (v, VJ_PLAYBACK_MODE_SAMPLE, sample_size () - 1)` -/
def playNewest (e : StopRound) (p : Player φ) : Player φ :=
  if e.newestExists = true then p.play { p.playing with mode := .sample, sampleId := e.newest } else p

/-- `vj_event_tag_rec_stop` -/
def vjEventTagRecStop (e : StopRound) (p : Player φ) : Exec (Player φ) :=
  if p.playing.mode = .stream ∧ p.tagRecord = true then do
    let id := p.playing.sampleId
    let playNow := p.tagRecordSwitch
    let (stopped, p) := vjTagStop id p
    if stopped = 0 then .ok p
    else do
      let (found, file) ← vjTagGetEncodedFile id p
      if found = 0 then .ok p
      else do
        let p ← veejayEditAddmovieSample e file p
        let p := (p.updRecorder (.stream id) vjTagResetEncoder).clearTag
        .ok (if playNow = true then playNewest e p else p)
  else .ok p

/-- `vj_event_tag_rec_offline_stop` -/
def vjEventTagRecOfflineStop (e : StopRound) (p : Player φ) : Exec (Player φ) :=
  if p.offlineRecord = true then do
    let (stopped, p) := vjTagStop p.offlineTagId p
    if stopped = 0 then do
      let id := p.playing.sampleId
      let (found, file) ← vjTagGetEncodedFile id p
      if found ≠ 0 then .ok p
      else do
        let p ← veejayEditAddmovieSample e file p
        let p := p.updRecorder (.stream id) vjTagResetEncoder
        let p := if p.offlineCreatedSample = true then playNewest e p else p
        .ok p.clearOffline
    else .ok p.clearOffline
  else .ok p

/-- The two commands. -/
inductive StopCommand where
  | visible
  | offline
  deriving DecidableEq

/-- A command. -/
def stopRecording (cmd : StopCommand) (e : StopRound) (p : Player φ) : Exec (Player φ) :=
  match cmd with
  | .visible => vjEventTagRecStop e p
  | .offline => vjEventTagRecOfflineStop e p

/-! ## Streams that are recorded -/

/-- The encoder of a stream is active, and writes to a file. -/
structure RecordsInto (p : Player φ) (t : ℤ) (r : Recorder) (file : CStr) : Prop where
  recorder : p.recorders (.stream t) = some r
  active : r.encoderActive = true
  destination : r.encoderDestination = some file

/-! ## What a stop is to leave -/

/-- The settings of the recording that a command stops. -/
def StopCommand.Reset (cmd : StopCommand) (q : Player φ) : Prop :=
  match cmd with
  | .visible => q.tagRecord = false ∧ q.tagRecordSwitch = false
  | .offline => q.offlineRecord = false ∧ q.offlineTagId = 0 ∧ q.offlineCreatedSample = false

/-- The settings of the other recordings of streams. -/
def StopCommand.Keeps (cmd : StopCommand) (p q : Player φ) : Prop :=
  match cmd with
  | .visible => q.offlineRecord = p.offlineRecord ∧ q.offlineTagId = p.offlineTagId ∧
      q.offlineCreatedSample = p.offlineCreatedSample
  | .offline => q.tagRecord = p.tagRecord ∧ q.tagRecordSwitch = p.tagRecordSwitch

/-- The settings of recordings of samples. -/
def Player.sampleSettings (p : Player φ) : ℤ × Bool × ℤ × Bool :=
  (p.recId, p.sampleRecord, p.sampleRecordId, p.sampleRecordSwitch)

/-- A sample was made of the file, the recorder of the stream and the settings of its recording are reset, and no
other recording was touched. -/
structure Concluded (cmd : StopCommand) (p : Player φ) (t : ℤ) (r : Recorder) (file : CStr) (q : Player φ) : Prop where
  created : q.commits = p.commits ++ [.sample file]
  encoder : q.recorders (.stream t) = some (vjTagResetEncoder (vjTagStopEncoder r))
  settings : cmd.Reset q
  others : ∀ slot, slot ≠ .stream t → q.recorders slot = p.recorders slot
  kept : cmd.Keeps p q
  samples : q.sampleSettings = p.sampleSettings

/-- A command stops the recording of a stream. -/
def Stops (cmd : StopCommand) (e : StopRound) (p : Player φ) (t : ℤ) (r : Recorder) (file : CStr) : Prop :=
  Ensures (stopRecording cmd e p) (Concluded cmd p t r file)

/-! ## The steps -/

section Steps

variable {p : Player φ} {e : StopRound} {t : ℤ} {r : Recorder} {file : CStr}

theorem vjTagStop_commits (t : ℤ) (p : Player φ) : (vjTagStop t p).2.commits = p.commits := by
  rw [vjTagStop]
  cases p.recorders (.stream t) <;> rfl

theorem vjTagStop_some (hr : p.recorders (.stream t) = some r) :
    vjTagStop t p = (if r.encoderActive = true then 1 else 0, p.setRecorder (.stream t) (vjTagStopEncoder r)) := by
  rw [vjTagStop, hr]

/-- Where nothing was added, no recording was stopped. -/
theorem Concluded.not_of_commits {cmd : StopCommand} {q : Player φ} (h : Concluded cmd p t r file q) :
    q.commits ≠ p.commits := by
  rw [h.created]
  exact fun heq => List.cons_ne_nil _ _ (List.append_right_eq_self.mp heq)

/-- **The second command adds no file**: it goes on where there was nothing to stop, and returns where it finds one. -/
theorem vjEventTagRecOfflineStop_commits {q : Player φ} (h : vjEventTagRecOfflineStop e p = .ok q) :
    q.commits = p.commits := by
  rw [vjEventTagRecOfflineStop] at h
  split_ifs at h with hoffline
  · dsimp only at h
    split_ifs at h with hstopped
    · obtain ⟨⟨found, name⟩, hfile, h⟩ := bind_eq_ok.mp h
      dsimp only at h
      split_ifs at h with hfound
      · obtain rfl := Except.ok.inj h
        exact vjTagStop_commits _ _
      · -- there is no such stream, and the name was never written
        rw [vjTagGetEncodedFile] at hfile
        have hname : name = none := by
          split at hfile
          · exact (Prod.mk.inj (Except.ok.inj hfile)).2.symm
          · split at hfile
            · cases hfile
            · exact absurd (Prod.mk.inj (Except.ok.inj hfile)).1.symm (by
                rw [not_not.mp hfound]
                decide)
        rw [hname] at h
        cases h
    · obtain rfl := Except.ok.inj h
      exact vjTagStop_commits _ _
  · obtain rfl := Except.ok.inj h
    rfl

/-- The file of a stream that is recorded. -/
theorem RecordsInto.getEncodedFile (h : RecordsInto p t r file) :
    vjTagGetEncodedFile t (p.setRecorder (.stream t) (vjTagStopEncoder r)) = .ok (1, some file) := by
  have hfile : (vjTagStopEncoder r).encoderDestination = some file := by
    rw [vjTagStopEncoder, stopEncoder, if_pos h.active]
    exact h.destination
  rw [vjTagGetEncodedFile, setRecorder_same]
  dsimp only
  rw [hfile]

/-- Something else may play; the recordings stay. -/
theorem playNewest_eq (e : StopRound) (p : Player φ) : ∃ playing, playNewest e p = p.play playing := by
  rw [playNewest]
  split_ifs
  · exact ⟨_, rfl⟩
  · exact ⟨p.playing, rfl⟩

/-- The player after the stream that plays was stopped, less what plays then. -/
def stoppedVisible (e : StopRound) (p : Player φ) (t : ℤ) (r : Recorder) (file : CStr) : Player φ :=
  { p with
    recorders := fun slot => if slot = .stream t then some (vjTagResetEncoder (vjTagStopEncoder r)) else p.recorders slot
    commits := if e.added = true then p.commits ++ [.sample file] else p.commits
    tagRecord := false
    tagRecordSwitch := false }

/-- **The stream that plays** is stopped by the first command. -/
theorem vjEventTagRecStop_eq (h : RecordsInto p t r file) (hmode : p.playing.mode = .stream)
    (hid : p.playing.sampleId = t) (htag : p.tagRecord = true) :
    ∃ playing, vjEventTagRecStop e p = .ok ((stoppedVisible e p t r file).play playing) := by
  obtain ⟨added, hadded⟩ : ∃ q, q = if e.added = true
      then (p.setRecorder (.stream t) (vjTagStopEncoder r)).commit (.sample file)
      else p.setRecorder (.stream t) (vjTagStopEncoder r) := ⟨_, rfl⟩
  have hrecorders : added.recorders = (p.setRecorder (.stream t) (vjTagStopEncoder r)).recorders := by
    rw [hadded]
    split_ifs <;> rfl
  have hreset : (added.updRecorder (.stream t) vjTagResetEncoder).clearTag = stoppedVisible e p t r file := by
    rw [Player.updRecorder, hrecorders, setRecorder_same]
    dsimp only
    rw [Player.setRecorder, hrecorders, hadded]
    have htwice : (fun s => if s = Slot.stream t then some (vjTagResetEncoder (vjTagStopEncoder r))
        else (p.setRecorder (.stream t) (vjTagStopEncoder r)).recorders s) =
        fun s => if s = Slot.stream t then some (vjTagResetEncoder (vjTagStopEncoder r)) else p.recorders s := by
      funext s
      split_ifs with hs
      · rfl
      · exact if_neg hs
    rw [htwice]
    unfold Player.clearTag stoppedVisible
    split_ifs <;> rfl
  have hrun : vjEventTagRecStop e p = .ok (if p.tagRecordSwitch = true
      then playNewest e (stoppedVisible e p t r file) else stoppedVisible e p t r file) := by
    rw [vjEventTagRecStop, if_pos ⟨hmode, htag⟩]
    dsimp only
    rw [hid, vjTagStop_some h.recorder, if_pos h.active, if_neg Int.one_ne_zero, h.getEncodedFile, ok_bind]
    dsimp only
    rw [if_neg Int.one_ne_zero, veejayEditAddmovieSample, ok_bind, ← hadded, hreset]
  rw [hrun]
  split_ifs
  · obtain ⟨playing, heq⟩ := playNewest_eq e (stoppedVisible e p t r file)
    exact ⟨playing, by rw [heq]⟩
  · exact ⟨p.playing, rfl⟩

section Visible

variable {s : ℤ} (hgate : p.playing.mode = .stream ∧ p.tagRecord = true) (hid : p.playing.sampleId = s)
include hgate hid

/-- There is no such stream, and no name of a file. -/
theorem vjEventTagRecStop_missing (hr : p.recorders (.stream s) = none) : vjEventTagRecStop e p = .ok p := by
  rw [vjEventTagRecStop, if_pos hgate]
  dsimp only
  rw [hid, vjTagStop, hr]
  dsimp only
  rw [if_neg (by decide), vjTagGetEncodedFile, hr]
  rfl

/-- An encoder that is not active is stopped, and nothing follows. -/
theorem vjEventTagRecStop_idle (hr : p.recorders (.stream s) = some r) (hactive : r.encoderActive ≠ true) :
    vjEventTagRecStop e p = .ok (p.setRecorder (.stream s) (vjTagStopEncoder r)) := by
  rw [vjEventTagRecStop, if_pos hgate]
  dsimp only
  rw [hid, vjTagStop_some hr, if_neg hactive]
  rfl

/-- An encoder that is active has a file. -/
theorem vjEventTagRecStop_nameless (hr : p.recorders (.stream s) = some r) (hactive : r.encoderActive = true)
    (hdest : r.encoderDestination = none) : vjEventTagRecStop e p = .error .nullPointer := by
  rw [vjEventTagRecStop, if_pos hgate]
  dsimp only
  rw [hid, vjTagStop_some hr, if_pos hactive, if_neg Int.one_ne_zero, vjTagGetEncodedFile, setRecorder_same,
    vjTagStopEncoder, stopEncoder, if_pos hactive]
  dsimp only
  rw [hdest]
  rfl

end Visible

/-- A command that adds no file stops no recording. -/
theorem Stops.not_of_commits {cmd : StopCommand} (h : Stops cmd e p t r file) {q : Player φ}
    (hrun : stopRecording cmd e p = .ok q) : q.commits ≠ p.commits := by
  obtain ⟨q', hrun', hconcluded⟩ := h
  obtain rfl := Except.ok.inj (hrun.symm.trans hrun')
  exact hconcluded.not_of_commits

/-- What the first command stops is the stream that plays. -/
theorem Stops.visible (h : Stops .visible e p t r file) :
    e.added = true ∧ p.tagRecord = true ∧ p.playing.mode = .stream ∧ p.playing.sampleId = t := by
  by_cases hgate : p.playing.mode = .stream ∧ p.tagRecord = true
  · obtain ⟨s, hs⟩ : ∃ s, p.playing.sampleId = s := ⟨_, rfl⟩
    cases hrec : p.recorders (.stream s) with
    | none => exact (h.not_of_commits (vjEventTagRecStop_missing hgate hs hrec) rfl).elim
    | some r' =>
      by_cases hactive : r'.encoderActive = true
      · cases hdest : r'.encoderDestination with
        | none =>
          obtain ⟨q, hq, -⟩ := h
          cases (vjEventTagRecStop_nameless hgate hs hrec hactive hdest).symm.trans hq
        | some file' =>
          obtain ⟨q, hq, hstopped⟩ := h
          obtain ⟨playing, hrun⟩ := vjEventTagRecStop_eq (e := e) ⟨hrec, hactive, hdest⟩ hgate.1 hs hgate.2
          obtain rfl := Except.ok.inj (hrun.symm.trans hq)
          by_cases hst : s = t
          · refine ⟨?_, hgate.2, hgate.1, hs.trans hst⟩
            by_contra hadded
            exact hstopped.not_of_commits (if_neg hadded)
          · -- the encoder of another stream was stopped
            have hreset : ((stoppedVisible e p s r' file').play playing).recorders (.stream s) =
                some (vjTagResetEncoder (vjTagStopEncoder r')) := if_pos rfl
            have hother := hstopped.others (.stream s) fun heq => hst (Slot.stream.inj heq)
            rw [hreset, hrec] at hother
            rw [← Option.some.inj hother] at hactive
            cases hactive
      · exact (h.not_of_commits (vjEventTagRecStop_idle hgate hs hrec hactive) rfl).elim
  · exact (h.not_of_commits (if_neg hgate) rfl).elim

end Steps

/-! ## Which command stops what -/

/-- **Which command stops the recording of a stream**, whatever plays: the first one, if it is the stream that plays. -/
theorem stopRecording_iff (cmd : StopCommand) (e : StopRound) {p : Player φ} {t : ℤ} {r : Recorder} {file : CStr}
    (h : RecordsInto p t r file) :
    Stops cmd e p t r file ↔ cmd = .visible ∧ e.added = true ∧ p.tagRecord = true ∧ p.playing.mode = .stream ∧
      p.playing.sampleId = t := by
  cases cmd with
  | visible =>
    constructor
    · exact fun hstops => ⟨rfl, hstops.visible⟩
    · rintro ⟨-, hadded, htag, hmode, hid⟩
      obtain ⟨playing, hrun⟩ := vjEventTagRecStop_eq (e := e) h hmode hid htag
      exact ⟨_, hrun, {
        created := if_pos hadded
        encoder := if_pos rfl
        settings := ⟨rfl, rfl⟩
        others := fun slot hslot => if_neg hslot
        kept := ⟨rfl, rfl, rfl⟩
        samples := rfl }⟩
  | offline =>
    refine iff_of_false ?_ fun hvisible => nomatch hvisible.1
    rintro ⟨q, hq, hstopped⟩
    exact hstopped.not_of_commits (vjEventTagRecOfflineStop_commits hq)

/-! ## A stream that is recorded -/

/-- A recorder that writes to a file. -/
def busyRecorder : Recorder where
  encoder := some ⟨none⟩
  encoderActive := true
  encoderFile := some 0
  encoderFormat := encoderMjpeg
  encoderBase := lit "rec"
  encoderDestination := some (lit "rec-0000.avi")
  sequenceNum := 0
  encoderFramesRecorded := 5
  encoderTotalFramesRecorded := 5
  encoderFramesToRecord := 25

/-- Stream 1 is recorded; it plays if the recording is that of the stream that plays. -/
def busyPlayer (cmd : StopCommand) : Player ℕ where
  playing := if cmd = .visible then ⟨.stream, 1, false⟩ else ⟨.sample, 7, false⟩
  recId := 0
  sampleRecord := false
  sampleRecordId := 0
  sampleRecordSwitch := false
  tagRecord := decide (cmd = .visible)
  tagRecordSwitch := false
  offlineRecord := decide (cmd = .offline)
  offlineTagId := if cmd = .offline then 1 else 0
  offlineCreatedSample := false
  recorders slot := if slot = .stream 1 then some busyRecorder else none
  disk := [⟨lit "rec-0000.avi", [1, 2, 3, 4, 5]⟩]
  commits := []

/-- A file that can be added, as sample 8. -/
def addable : StopRound := ⟨true, 8, true⟩

theorem busyPlayer_recordsInto (cmd : StopCommand) :
    RecordsInto (busyPlayer cmd) 1 busyRecorder (lit "rec-0000.avi") := ⟨rfl, rfl, rfl⟩

theorem busyPlayer_stops : Stops .visible addable (busyPlayer .visible) 1 busyRecorder (lit "rec-0000.avi") :=
  (stopRecording_iff .visible addable (busyPlayer_recordsInto .visible)).mpr ⟨rfl, rfl, rfl, rfl, rfl⟩

/-- The recording that a command is to stop: that of the stream that plays, or of the one that does not. -/
def StopCommand.Concerns (cmd : StopCommand) (p : Player φ) (t : ℤ) : Prop :=
  match cmd with
  | .visible => p.tagRecord = true ∧ p.playing.mode = .stream ∧ p.playing.sampleId = t
  | .offline => p.offlineRecord = true ∧ p.offlineTagId = t

/-- **The recording of a stream that does not play** is stopped, and its file is not added. -/
theorem offlineStop_adds_nothing : ¬ ∀ (cmd : StopCommand) (e : StopRound) (p : Player ℕ) (t : ℤ) (r : Recorder)
    (file : CStr), RecordsInto p t r file → cmd.Concerns p t → e.added = true → Stops cmd e p t r file := by
  intro h
  obtain ⟨q, hq, hstopped⟩ := h .offline addable (busyPlayer .offline) 1 busyRecorder (lit "rec-0000.avi")
    (busyPlayer_recordsInto .offline) ⟨rfl, rfl⟩ rfl
  exact hstopped.not_of_commits (vjEventTagRecOfflineStop_commits hq)

end Veejay.Record
