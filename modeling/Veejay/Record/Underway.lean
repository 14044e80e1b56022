import Veejay.Record.Recording

/-!
# The states of a recording

While a recording goes on, its recorder writes the last file of the disk, and the files before it are closed and added;
what one round does to such a state, for a sample, for the stream that plays and for one that does not.

* `Underway`, `Holds` — a recording that goes on, and the state behind a log;
* `Calms` — steps that leave the files as they are, and neither start an encoder nor set a flag;
* `playRound_idle` — **a round after the end**;
* `Underway.more`, `Underway.restarted`, `Underway.stopped` — the same file, the next file, and no other;
* `vjPerformRecordSampleFrame_underway`, `vjPerformRecordTagFrame_underway` — one frame;
* `playRound_holds` — **one round.**
-/

namespace Veejay.Record

open CLib

variable {φ : Type}

/-! ## The states of a recording -/

/-- The flags of a recording that goes on. -/
def Source.Flags (src : Source) (p : Player φ) : Prop :=
  match src with
  | .sample id seq =>
    p.sampleRecord = true ∧ p.offlineRecord = false ∧ p.recId = (if seq then id else 0) ∧ (seq = true → id ≠ 0)
  | .stream _ => p.tagRecord = true ∧ p.offlineRecord = false ∧ p.recId = 0
  | .offline id => p.offlineRecord = true ∧ p.offlineTagId = id ∧ p.recId = 0

/-- A recording that goes on: `n` frames are to come. -/
structure Underway (src : Source) (d₀ : Disk φ) (c₀ : List Commit) (frames : List φ) (n : ℕ) (p : Player φ)
    (done : List (OutFile φ)) (current : OutFile φ) (r : Recorder) : Prop where
  files : Files d₀ c₀ p frames done [current]
  recorder : p.recorders src.slot = some r
  writing : Writing r (d₀ ++ done) current n
  numbers : ∀ f ∈ done, ∃ k < r.sequenceNum, HasNumber f.name k
  others : ∀ s, s ≠ src.slot → p.active s = false
  flags : src.Flags p

/-- The state behind a log. -/
def Holds (src : Source) (d₀ : Disk φ) (c₀ : List Commit) (p : Player φ) (log : Log φ) : Prop :=
  match log.status with
  | .running n => 0 < n ∧ ∃ done current r, Underway src d₀ c₀ log.frames n p done current r
  | .complete => src.flag p = false ∧ Idle p ∧ ∃ done, Files d₀ c₀ p log.frames done []
  | .broken => Idle p ∧ ∃ done, Files d₀ c₀ p log.frames done []

section Players

variable {src : Source} {d₀ : Disk φ} {c₀ : List Commit} {frames : List φ} {p : Player φ}

@[simp] theorem setRecorder_self (p : Player φ) (slot : Slot) (r : Recorder) :
    (p.setRecorder slot r).recorders slot = some r := if_pos rfl

theorem setRecorder_setRecorder (p : Player φ) (slot : Slot) (r r' : Recorder) :
    (p.setRecorder slot r).setRecorder slot r' = p.setRecorder slot r' := by
  show { p with recorders := _ } = ({ p with recorders := _ } : Player φ)
  congr 1
  funext s
  by_cases hs : s = slot
  · rw [if_pos hs, if_pos hs]
  · rw [if_neg hs, if_neg hs]
    exact if_neg hs

theorem active_setRecorder (p : Player φ) (slot s : Slot) (r : Recorder) :
    (p.setRecorder slot r).active s = if s = slot then r.encoderActive else p.active s := by
  show Option.any _ (if s = slot then some r else p.recorders s) = _
  split_ifs
  · rfl
  · rfl

/-- A recorder that is made idle leaves the others as they are. -/
theorem Idle.setRecorder {slot : Slot} {r : Recorder} (hr : r.encoderActive = false)
    (hothers : ∀ s, s ≠ slot → p.active s = false) : Idle (p.setRecorder slot r) := by
  intro s
  rw [active_setRecorder]
  split_ifs with hs
  · exact hr
  · exact hothers s hs

theorem Idle.updRecorder (h : Idle p) (slot : Slot) {f : Recorder → Recorder}
    (hf : ∀ r, r.encoderActive = false → (f r).encoderActive = false) : Idle (p.updRecorder slot f) := by
  rw [Player.updRecorder]
  cases hr : p.recorders slot with
  | none => exact h
  | some r =>
    have hidle : r.encoderActive = false := by
      have hslot := h slot
      rw [Player.active, hr] at hslot
      exact hslot
    exact Idle.setRecorder (hf r hidle) fun s _ => h s

/-! ## Adding a file, and the end -/

/-- **The file of what is recorded** is added where it is what plays. -/
theorem commit_of_plays {q : Player φ} {r : Recorder} {file : CStr} {e : Round φ} (hplays : src.Plays q.playing)
    (hstream : ∀ id, src.slot = .stream id → q.streamId = id) (hr : q.recorders src.slot = some r)
    (hfile : r.encoderDestination = some file) (hdf : isYuv4mpeg e.df = false) :
    vjPerformRecordCommitSingle e q = .ok (q.commit (.sample file)) := by
  have hadd : q.add e.df file = q.commit (.sample file) := by
    rw [Player.add, hdf, if_neg Bool.false_ne_true]
  rw [← hadd, vjPerformRecordCommitSingle]
  cases src with
  | sample id seq =>
    obtain ⟨hmode, rfl⟩ := hplays
    have hr : q.recorders (.sample q.playing.sampleId) = some r := hr
    rw [hmode]
    dsimp only
    rw [hr]
    dsimp only
    rw [hfile]
  | stream id =>
    rw [hplays.1]
    dsimp only
    rw [hstream id rfl, show q.recorders (.stream id) = some r from hr]
    dsimp only
    rw [hfile]
  | offline id =>
    rw [show q.playing.mode = .stream from hplays]
    dsimp only
    rw [hstream id rfl, show q.recorders (.stream id) = some r from hr]
    dsimp only
    rw [hfile]

/-- What the steps that end a recording, or that find none, do to the player: they leave the files as they are, and
neither start an encoder nor set a flag. -/
structure Calms (p q : Player φ) : Prop where
  disk : q.disk = p.disk
  commits : q.commits = p.commits
  idle : Idle p → Idle q
  sampleRecord : q.sampleRecord = true → p.sampleRecord = true
  tagRecord : q.tagRecord = true → p.tagRecord = true
  offlineRecord : q.offlineRecord = true → p.offlineRecord = true

theorem Calms.refl (p : Player φ) : Calms p p := ⟨rfl, rfl, id, id, id, id⟩

theorem Calms.trans {q t : Player φ} (h : Calms p q) (h' : Calms q t) : Calms p t where
  disk := h'.disk.trans h.disk
  commits := h'.commits.trans h.commits
  idle := fun hidle => h'.idle (h.idle hidle)
  sampleRecord := fun hflag => h.sampleRecord (h'.sampleRecord hflag)
  tagRecord := fun hflag => h.tagRecord (h'.tagRecord hflag)
  offlineRecord := fun hflag => h.offlineRecord (h'.offlineRecord hflag)

theorem Calms.files {q : Player φ} {done current : List (OutFile φ)} (h : Calms p q)
    (hfiles : Files d₀ c₀ p frames done current) : Files d₀ c₀ q frames done current :=
  ⟨h.disk.trans hfiles.disk, h.commits.trans hfiles.commits, hfiles.frames, hfiles.names⟩

theorem Calms.flag {q : Player φ} (h : Calms p q) (hflag : src.flag p = false) : src.flag q = false := by
  cases src with
  | sample id seq => exact Bool.eq_false_iff.mpr fun hq => Bool.false_ne_true (hflag.symm.trans (h.sampleRecord hq))
  | stream id => exact Bool.eq_false_iff.mpr fun hq => Bool.false_ne_true (hflag.symm.trans (h.tagRecord hq))
  | offline id => exact Bool.eq_false_iff.mpr fun hq => Bool.false_ne_true (hflag.symm.trans (h.offlineRecord hq))

theorem calms_updRecorder (p : Player φ) (slot : Slot) {f : Recorder → Recorder}
    (hf : ∀ r, r.encoderActive = false → (f r).encoderActive = false) : Calms p (p.updRecorder slot f) := by
  have hidle : Idle p → Idle (p.updRecorder slot f) := fun h => h.updRecorder slot hf
  rw [Player.updRecorder] at hidle ⊢
  cases hr : p.recorders slot with
  | none => exact .refl p
  | some r =>
    rw [hr] at hidle
    exact ⟨rfl, rfl, hidle, id, id, id⟩

theorem calms_autoplay (p : Player φ) (e : Round φ) (play : Bool) : Calms p (p.autoplay e play) := by
  rw [Player.autoplay]
  split_ifs
  · exact ⟨rfl, rfl, id, id, id, id⟩
  · exact .refl p

theorem calms_clearSample (p : Player φ) : Calms p p.clearSample := ⟨rfl, rfl, id, (fun h => nomatch h), id, id⟩

theorem calms_clearTag (p : Player φ) : Calms p p.clearTag := ⟨rfl, rfl, id, id, (fun h => nomatch h), id⟩

theorem calms_clearOffline (p : Player φ) : Calms p p.clearOffline := ⟨rfl, rfl, id, id, id, (fun h => nomatch h)⟩

theorem calms_endSequence (p : Player φ) : Calms p p.endSequence := by
  rw [Player.endSequence]
  split_ifs
  · exact ⟨rfl, rfl, id, id, id, id⟩
  · exact .refl p

theorem calms_stopEncoder (p : Player φ) (slot : Slot) : Calms p (p.updRecorder slot stopEncoder) :=
  calms_updRecorder p slot fun r _ => stopEncoder_idle r

theorem calms_recordStop (e : Round φ) (p : Player φ) : Calms p (vjPerformRecordStop e p) := by
  rw [vjPerformRecordStop]
  cases p.playing.mode with
  | sample => exact ((calms_updRecorder p _ fun _ _ => rfl).trans (calms_autoplay _ e _)).trans (calms_clearSample _)
  | stream =>
    dsimp only
    split_ifs
    · exact ((calms_updRecorder p _ fun _ _ => rfl).trans (calms_clearOffline _)).trans (calms_autoplay _ e _)
    · exact ((calms_updRecorder p _ fun _ _ => rfl).trans (calms_clearTag _)).trans (calms_autoplay _ e _)
  | plain => exact .refl p

/-- **The flag is cleared** where what is recorded plays. -/
theorem recordStop_flag {e : Round φ} (hplays : src.Plays p.playing)
    (hoffline : p.offlineRecord = true ↔ ∃ id, src = .offline id) : src.flag (vjPerformRecordStop e p) = false := by
  rw [vjPerformRecordStop]
  cases src with
  | sample id seq =>
    rw [hplays.1]
    rfl
  | stream id =>
    have hoff : ¬ p.offlineRecord = true := fun h => by
      obtain ⟨id', h'⟩ := hoffline.mp h
      cases h'
    rw [hplays.1]
    dsimp only
    rw [if_neg hoff]
    exact (calms_autoplay _ e _).flag rfl
  | offline id =>
    rw [show p.playing.mode = .stream from hplays]
    dsimp only
    rw [if_pos (hoffline.mpr ⟨id, rfl⟩)]
    exact (calms_autoplay _ e _).flag rfl

/-! ## Rounds after the end -/

theorem calms_play (p : Player φ) (playing : Playing) : Calms p (p.play playing) :=
  ⟨rfl, rfl, id, id, id, id⟩

/-- A recorder that is not active records nothing. -/
theorem recordInto_idle {record : Recorder → Disk φ → Exec (ℤ × Recorder × Disk φ)} {slot : Slot}
    (hrecord : ∀ r d, r.encoderActive = false → record r d = .ok (-1, r, d)) (hidle : Idle p) :
    ∃ q, recordInto record slot p = .ok (-1, q) ∧ Calms p q := by
  rw [recordInto]
  cases hr : p.recorders slot with
  | none => exact ⟨p, rfl, .refl p⟩
  | some r =>
    have hactive : r.encoderActive = false := by
      have h := hidle slot
      rw [Player.active, hr] at h
      exact h
    dsimp only
    rw [hrecord r _ hactive]
    exact ⟨_, rfl, rfl, rfl, fun _ => Idle.setRecorder hactive fun s _ => hidle s, id, id, id⟩

theorem sampleRecordFrame_idle (w : Write φ) (r : Recorder) (d : Disk φ) (h : r.encoderActive = false) :
    sampleRecordFrame w r d = .ok (-1, r, d) := by
  rw [sampleRecordFrame, h]
  rfl

theorem vjTagRecordFrame_idle (w : Write φ) (r : Recorder) (d : Disk φ) (h : r.encoderActive = false) :
    vjTagRecordFrame w r d = .ok (-1, r, d) := by
  rw [vjTagRecordFrame, h]
  rfl

theorem vjPerformRecordSampleFrame_idle {e : Round φ} (hspace : e.diskspace = true) (hidle : Idle p) (sample : ℤ) :
    ∃ q, vjPerformRecordSampleFrame e sample p = .ok q ∧ Calms p q := by
  obtain ⟨q, hq, hcalm⟩ : ∃ q, recordInto (sampleRecordFrame e.write) (.sample sample) p = .ok (-1, q) ∧ Calms p q :=
    recordInto_idle (sampleRecordFrame_idle e.write) hidle
  rw [vjPerformRecordSampleFrame, vjPerformRenderSampleFrame, hspace, Bool.not_true, if_neg Bool.false_ne_true, hq,
    ok_bind]
  exact ⟨_, rfl, ((hcalm.trans (calms_endSequence q)).trans (calms_stopEncoder _ _)).trans (calms_recordStop e _)⟩

theorem vjPerformRecordTagFrame_idle {e : Round φ} (hspace : e.diskspace = true) (hidle : Idle p) :
    ∃ q, vjPerformRecordTagFrame e p = .ok q ∧ Calms p q := by
  obtain ⟨q, hq, hcalm⟩ : ∃ q, recordInto (vjTagRecordFrame e.write) (.stream p.streamId) p = .ok (-1, q) ∧
      Calms p q := recordInto_idle (vjTagRecordFrame_idle e.write) hidle
  rw [vjPerformRecordTagFrame, vjPerformRenderTagFrame, hspace, Bool.not_true, if_neg Bool.false_ne_true]
  dsimp only
  split_ifs
  · exact ⟨p, rfl, .refl p⟩
  · rw [hq, ok_bind]
    exact ⟨_, rfl, (hcalm.trans (calms_stopEncoder _ _)).trans (calms_recordStop e _)⟩

theorem vjPerformRecordFrame_idle {e : Round φ} (hspace : e.diskspace = true) (hidle : Idle p) :
    ∃ q, vjPerformRecordFrame e p = .ok q ∧ Calms p q := by
  rw [vjPerformRecordFrame]
  cases p.playing.mode with
  | sample => exact vjPerformRecordSampleFrame_idle hspace hidle _
  | stream => exact vjPerformRecordTagFrame_idle hspace hidle
  | plain => exact ⟨p, rfl, .refl p⟩

/-- **A round after the end** of a recording. -/
theorem playRound_idle {e : Round φ} (hspace : e.diskspace = true) (hidle : Idle p) :
    ∃ q, playRound e p = .ok q ∧ Calms p q := by
  have hplay := calms_play p e.playing
  obtain ⟨q, hq, hcalm⟩ : ∃ q, recordOffline e (p.play e.playing) = .ok q ∧ Calms p q := by
    rw [recordOffline]
    split_ifs
    · obtain ⟨q, hq, hcalm⟩ := vjPerformRecordTagFrame_idle (p := (p.play e.playing)) hspace hidle
      exact ⟨q, hq, hplay.trans hcalm⟩
    · exact ⟨_, rfl, hplay⟩
  have hnext := hcalm.trans (calms_play q e.next)
  rw [playRound, hq, ok_bind]
  split_ifs
  · obtain ⟨t, ht, hcalm'⟩ := vjPerformRecordFrame_idle (p := (q.play e.next)) hspace (hnext.idle hidle)
    exact ⟨t, ht, hnext.trans hcalm'⟩
  · exact ⟨_, rfl, hnext⟩

/-! ## A frame of a recording -/

variable {n : ℕ} {done : List (OutFile φ)} {current : OutFile φ} {r : Recorder}

theorem Underway.active (h : Underway src d₀ c₀ frames n p done current r) : p.active src.slot = true := by
  rw [Player.active, h.recorder]
  exact h.writing.active

/-- The flags that a recording depends on. -/
theorem Source.Flags.same {q : Player φ} (h : src.Flags p) (hsample : q.sampleRecord = p.sampleRecord)
    (htag : q.tagRecord = p.tagRecord) (hoff : q.offlineRecord = p.offlineRecord)
    (hid : q.offlineTagId = p.offlineTagId) (hrec : q.recId = p.recId) : src.Flags q := by
  cases src with
  | sample id seq => exact ⟨hsample.trans h.1, hoff.trans h.2.1, hrec.trans h.2.2.1, h.2.2.2⟩
  | stream id => exact ⟨htag.trans h.1, hoff.trans h.2.1, hrec.trans h.2.2⟩
  | offline id => exact ⟨hoff.trans h.1, hid.trans h.2.1, hrec.trans h.2.2⟩

/-- What plays makes no difference. -/
theorem Underway.play (h : Underway src d₀ c₀ frames n p done current r) (playing : Playing) :
    Underway src d₀ c₀ frames n (p.play playing) done current r where
  files := (calms_play p playing).files h.files
  recorder := h.recorder
  writing := h.writing
  numbers := h.numbers
  others := h.others
  flags := h.flags.same rfl rfl rfl rfl rfl

/-- The state behind a frame. -/
def recorded (w : Write φ) (slot : Slot) (d₀ : Disk φ) (p : Player φ) (done : List (OutFile φ)) (current : OutFile φ)
    (r : Recorder) : Player φ :=
  p.setSession slot (advanced w.splits r, d₀ ++ done ++ [⟨current.name, current.frames ++ [w.frame]⟩])

/-- **A frame** goes into the file that is written. -/
theorem recordInto_underway (h : Underway src d₀ c₀ frames (n + 1) p done current r) {w : Write φ}
    (henc : w.encodes = true) (hwr : w.writes = true) {record : Recorder → Disk φ → Exec (ℤ × Recorder × Disk φ)}
    {failed : ℤ} (hrecord : ∀ r d, r.encoderActive = true → record r d = recordFrame failed w r d) :
    recordInto record src.slot p =
      .ok (frameCode w.splits n, recorded w src.slot d₀ p done current r) := by
  have hdisk : p.disk = d₀ ++ done ++ [current] := by
    rw [h.files.disk, List.append_assoc]
  rw [recordInto, h.recorder]
  dsimp only
  rw [hrecord r _ h.writing.active, hdisk, recordFrame_writing h.writing henc hwr failed]
  rfl

/-- The files behind a frame. -/
theorem Underway.files_recorded (h : Underway src d₀ c₀ frames (n + 1) p done current r) (w : Write φ) :
    Files d₀ c₀ (recorded w src.slot d₀ p done current r) (frames ++ [w.frame]) done
      [⟨current.name, current.frames ++ [w.frame]⟩] where
  disk := List.append_assoc _ _ _
  commits := h.files.commits
  frames := by
    have hframes := h.files.frames
    rw [List.flatMap_append, List.flatMap_singleton] at hframes ⊢
    rw [hframes, List.append_assoc]
  names := by
    have hnames := h.files.names
    rw [List.map_append] at hnames ⊢
    exact hnames

theorem Underway.others_recorded (h : Underway src d₀ c₀ frames (n + 1) p done current r) (w : Write φ) (s : Slot)
    (hs : s ≠ src.slot) : (recorded w src.slot d₀ p done current r).active s = false := by
  have hset := active_setRecorder p src.slot s (advanced w.splits r)
  rw [if_neg hs, h.others s hs] at hset
  exact hset

/-- **More frames are to come** for the same file. -/
theorem Underway.more (h : Underway src d₀ c₀ frames (n + 1) p done current r) {w : Write φ} (hw : w.splits = false) :
    Underway src d₀ c₀ (frames ++ [w.frame]) n (recorded w src.slot d₀ p done current r) done
      ⟨current.name, current.frames ++ [w.frame]⟩ (advanced false r) where
  files := h.files_recorded w
  recorder := by
    rw [recorded, hw]
    exact setRecorder_self p src.slot (advanced false r)
  writing := h.writing.more w.frame
  numbers := h.numbers
  others := h.others_recorded w
  flags := h.flags.same rfl rfl rfl rfl rfl

/-! ## The end of a file -/

/-- A file that is added is done. -/
theorem Files.added (h : Files d₀ c₀ p frames done [current]) :
    Files d₀ c₀ (p.commit (.sample current.name)) frames (done ++ [current]) [] where
  disk := by
    rw [List.append_nil]
    exact h.disk
  commits := by
    show p.commits ++ [_] = _
    rw [h.commits, List.map_append, List.append_assoc]
    rfl
  frames := by
    rw [List.append_nil]
    exact h.frames
  names := by
    rw [List.append_nil]
    exact h.names

/-- A file that is opened, of another name. -/
theorem Files.opened {q : Player φ} {name : CStr} (h : Files d₀ c₀ p frames done [])
    (hname : ∀ f ∈ done, f.name ≠ name) (hdisk : q.disk = p.disk.create name) (hcommits : q.commits = p.commits) :
    Files d₀ c₀ q frames done [⟨name, []⟩] where
  disk := by
    rw [hdisk, h.disk, Disk.create, List.append_nil, List.append_assoc]
  commits := hcommits.trans h.commits
  frames := by
    rw [h.frames, List.append_nil, List.flatMap_append, List.flatMap_singleton, List.append_nil]
  names := by
    have hnames := h.names
    rw [List.append_nil] at hnames
    rw [List.map_append, List.nodup_append]
    refine ⟨hnames, List.nodup_singleton _, ?_⟩
    rintro a ha b hb rfl
    obtain ⟨f, hf, rfl⟩ := List.mem_map.mp ha
    exact hname f hf (List.mem_singleton.mp hb)

theorem Source.Flags.streamId (h : src.Flags p) (hplays : src.Plays p.playing) (id : ℤ) (hid : src.slot = .stream id) :
    p.streamId = id := by
  rw [Player.streamId]
  cases src with
  | sample id' seq => cases hid
  | stream id' =>
    obtain rfl := Slot.stream.inj hid
    rw [h.2.1, if_neg Bool.false_ne_true]
    exact hplays.2
  | offline id' =>
    obtain rfl := Slot.stream.inj hid
    rw [h.1, if_pos rfl]
    exact h.2.1

/-- The state once the file of a recording is closed and added. -/
def closed (w : Write φ) (slot : Slot) (d₀ : Disk φ) (p : Player φ) (done : List (OutFile φ)) (current : OutFile φ)
    (r : Recorder) : Player φ :=
  ((recorded w slot d₀ p done current r).setRecorder slot (stopEncoder (advanced w.splits r))).commit
    (.sample current.name)

theorem recorded_stop (w : Write φ) (p : Player φ) (slot : Slot) :
    (recorded w slot d₀ p done current r).updRecorder slot stopEncoder =
      (recorded w slot d₀ p done current r).setRecorder slot (stopEncoder (advanced w.splits r)) := by
  rw [Player.updRecorder, show (recorded w slot d₀ p done current r).recorders slot = some (advanced w.splits r) from
    setRecorder_self p slot _]

theorem destination_stop (h : Writing r (d₀ ++ done) current (n + 1)) (splits : Bool) :
    (stopEncoder (advanced splits r)).encoderDestination = some current.name := by
  rw [stopEncoder, advanced]
  split_ifs <;> exact h.destination

theorem sequenceNum_stop (r : Recorder) : (stopEncoder r).sequenceNum = r.sequenceNum := by
  rw [stopEncoder]
  split_ifs <;> rfl

/-- **The file of a recording is added**, where what is recorded plays. -/
theorem Underway.commit (h : Underway src d₀ c₀ frames (n + 1) p done current r) {e : Round φ}
    (hplays : src.Plays p.playing) (hdf : isYuv4mpeg e.df = false) :
    vjPerformRecordCommitSingle e ((recorded e.write src.slot d₀ p done current r).updRecorder src.slot stopEncoder) =
      .ok (closed e.write src.slot d₀ p done current r) := by
  rw [recorded_stop]
  refine commit_of_plays hplays (fun id hid => ?_) (setRecorder_self _ _ _) (destination_stop h.writing _) hdf
  exact h.flags.streamId hplays id hid

theorem Underway.files_closed (h : Underway src d₀ c₀ frames (n + 1) p done current r) (w : Write φ) :
    Files d₀ c₀ (closed w src.slot d₀ p done current r) (frames ++ [w.frame])
      (done ++ [⟨current.name, current.frames ++ [w.frame]⟩]) [] :=
  have hfiles := (h.files_recorded w).added
  ⟨hfiles.disk, hfiles.commits, hfiles.frames, hfiles.names⟩

theorem Underway.idle_closed (h : Underway src d₀ c₀ frames (n + 1) p done current r) (w : Write φ) :
    Idle (closed w src.slot d₀ p done current r) :=
  Idle.setRecorder (stopEncoder_idle _) (h.others_recorded w)

/-! ## The next file -/

/-- The numbers of the files that are done, behind one more. -/
theorem Underway.numbers_closed (h : Underway src d₀ c₀ frames (n + 1) p done current r) (frame : φ) :
    ∀ f ∈ done ++ [⟨current.name, current.frames ++ [frame]⟩], ∃ k < r.sequenceNum + 1, HasNumber f.name k := by
  intro f hf
  rcases List.mem_append.mp hf with hf | hf
  · obtain ⟨k, hk, hnum⟩ := h.numbers f hf
    exact ⟨k, Nat.lt_succ_of_lt hk, hnum⟩
  · obtain rfl := List.mem_singleton.mp hf
    exact ⟨r.sequenceNum, Nat.lt_succ_self _, h.writing.number⟩

/-- **The recorder goes on with the next file.** -/
theorem Underway.next (h : Underway src d₀ c₀ frames (n + 1) p done current r) (w : Write φ) {q : Player φ}
    {r' : Recorder} {name : CStr} (hdisk : q.disk = (closed w src.slot d₀ p done current r).disk.create name)
    (hcommits : q.commits = (closed w src.slot d₀ p done current r).commits)
    (hrec : q.recorders src.slot = some r') (hothers : ∀ s, s ≠ src.slot → q.active s = false) (hflags : src.Flags q)
    (hnum : r'.sequenceNum = r.sequenceNum + 1) (hname : HasNumber name (r.sequenceNum + 1))
    (hwriting : Writing r' (closed w src.slot d₀ p done current r).disk ⟨name, []⟩ n) :
    Underway src d₀ c₀ (frames ++ [w.frame]) n q (done ++ [⟨current.name, current.frames ++ [w.frame]⟩]) ⟨name, []⟩ r'
      where
  files := by
    refine (h.files_closed w).opened (fun f hf heq => ?_) hdisk hcommits
    obtain ⟨k, hk, hk'⟩ := h.numbers_closed w.frame f hf
    exact Nat.ne_of_lt hk (hk'.unique (heq ▸ hname))
  recorder := hrec
  writing := by
    have hclosed := (h.files_closed w).disk
    rw [List.append_nil] at hclosed
    exact hclosed ▸ hwriting
  numbers := by
    rw [hnum]
    exact h.numbers_closed w.frame
  others := hothers
  flags := hflags

/-- The counters behind a frame that fills the file: at least one frame was recorded. -/
theorem begun_writing (h : Writing r (d₀ ++ done) current (n + 1)) {r' : Recorder} {before : Disk φ} {name : CStr} (format : ℤ)
    (htotal : r'.encoderTotalFramesRecorded = 0 ∨ r'.encoderTotalFramesRecorded = r.encoderTotalFramesRecorded + 1 ∧
      r'.encoderFramesToRecord = r.encoderFramesToRecord)
    (hnum : r'.sequenceNum = r.sequenceNum + 1) (hname : HasNumber name (r.sequenceNum + 1))
    (hdest : r'.encoderDestination = some name) :
    Writing { begun ⟨none⟩ format n r' with encoderFile := some before.length } before ⟨name, []⟩ n where
  encoder := rfl
  active := rfl
  open_ := rfl
  destination := hdest
  left := by
    show (if r'.encoderTotalFramesRecorded = 0 then (n : ℤ) else r'.encoderFramesToRecord) =
      r'.encoderTotalFramesRecorded + n
    have hleft := h.left
    have hpos := h.total
    push_cast at hleft
    rcases htotal with hzero | ⟨htotal, hto⟩
    · rw [if_pos hzero, hzero, zero_add]
    · rw [if_neg (by omega), hto, htotal]
      omega
  total := by
    have hpos := h.total
    show 0 ≤ r'.encoderTotalFramesRecorded
    omega
  number := by
    show HasNumber name r'.sequenceNum
    rw [hnum]
    exact hname
  room := by
    have hroom := h.room
    show r'.sequenceNum + n < 2 ^ 31
    omega

/-- The recorder with its next file. -/
def nextFile (format : ℤ) (n : ℕ) (r' : Recorder) (name : CStr) (d : Disk φ) : Recorder × Disk φ :=
  ({ begun ⟨none⟩ format n r' with encoderFile := some d.length }, d.create name)

/-- **A recorder that was started again** goes on with the recording. -/
theorem Underway.restarted (h : Underway src d₀ c₀ frames (n + 1) p done current r) (hn : n ≠ 0) (w : Write φ)
    (format : ℤ) {r' : Recorder} {name : CStr}
    (htotal : r'.encoderTotalFramesRecorded = 0 ∨ r'.encoderTotalFramesRecorded = r.encoderTotalFramesRecorded + 1 ∧
      r'.encoderFramesToRecord = r.encoderFramesToRecord)
    (hnum : r'.sequenceNum = r.sequenceNum + 1) (hname : HasNumber name (r.sequenceNum + 1))
    (hdest : r'.encoderDestination = some name) :
    Holds src d₀ c₀ ((closed w src.slot d₀ p done current r).setSession src.slot
        (nextFile format n r' name (closed w src.slot d₀ p done current r).disk))
      ⟨frames ++ [w.frame], .running n⟩ := by
  have hwriting : Writing (nextFile format n r' name (closed w src.slot d₀ p done current r).disk).1
      (closed w src.slot d₀ p done current r).disk ⟨name, []⟩ n :=
    begun_writing h.writing format htotal hnum hname hdest
  have hnext := h.next w
    (q := (closed w src.slot d₀ p done current r).setSession src.slot
      (nextFile format n r' name (closed w src.slot d₀ p done current r).disk)) rfl rfl
    (setRecorder_self _ _ _) ?_ ?_ hnum hname hwriting
  · exact ⟨Nat.pos_of_ne_zero hn, _, _, _, hnext⟩
  · intro s hs
    have hset := active_setRecorder (closed w src.slot d₀ p done current r) src.slot s
      (nextFile format n r' name (closed w src.slot d₀ p done current r).disk).1
    rw [if_neg hs, h.idle_closed w s] at hset
    exact hset
  · simp only [Player.setSession, Player.setRecorder, closed, Player.commit, recorded]
    exact h.flags.same rfl rfl rfl rfl rfl

/-- A recorder that could not be started again is idle. -/
theorem Underway.stopped (h : Underway src d₀ c₀ frames (n + 1) p done current r) (w : Write φ) {r' : Recorder}
    (hr : r'.encoderActive = false) :
    Holds src d₀ c₀ ((closed w src.slot d₀ p done current r).setRecorder src.slot r')
      ⟨frames ++ [w.frame], .broken⟩ := by
  have hfiles := h.files_closed w
  exact ⟨Idle.setRecorder hr fun s _ => h.idle_closed w s, _,
    ⟨hfiles.disk, hfiles.commits, hfiles.frames, hfiles.names⟩⟩

/-! ## One frame of a sample -/

section Sample

variable {id : ℤ} {seq : Bool} {e : Round φ}

/-- The end of a sequence changes nothing else. -/
theorem endSequence_stop (p : Player φ) (slot : Slot) (w : Write φ) :
    ∃ x, (recorded w slot d₀ p done current r).endSequence.updRecorder slot stopEncoder =
      ((recorded w slot d₀ p done current r).setRecorder slot (stopEncoder (advanced w.splits r))).setRecId x := by
  have hrec : ((recorded w slot d₀ p done current r).setRecId 0).recorders slot = some (advanced w.splits r) :=
    setRecorder_self p slot _
  rw [Player.endSequence]
  split_ifs
  · refine ⟨0, ?_⟩
    rw [Player.updRecorder, hrec]
    rfl
  · exact ⟨(recorded w slot d₀ p done current r).recId, recorded_stop w p slot⟩

theorem calms_setRecId (p : Player φ) (x : ℤ) : Calms p (p.setRecId x) := ⟨rfl, rfl, fun h => h, fun h => h, fun h => h,
  fun h => h⟩

/-- **The last frame of a sample.** -/
theorem sample_last (h : Underway (.sample id seq) d₀ c₀ frames (n + 1) p done current r)
    (hplays : (Source.sample id seq).Plays p.playing) (hdf : isYuv4mpeg e.df = false) :
    ∃ q, (vjPerformRecordCommitSingle e ((recorded e.write (.sample id) d₀ p done current r).endSequence.updRecorder
        (.sample id) stopEncoder) >>= fun p => .ok (vjPerformRecordStop e p)) = .ok q ∧
      Holds (.sample id seq) d₀ c₀ q ⟨frames ++ [e.write.frame], .complete⟩ := by
  obtain ⟨x, hx⟩ : ∃ x, (recorded e.write (.sample id) d₀ p done current r).endSequence.updRecorder (.sample id)
      stopEncoder = ((recorded e.write (.sample id) d₀ p done current r).setRecorder (.sample id)
        (stopEncoder (advanced e.write.splits r))).setRecId x := endSequence_stop p (.sample id) e.write
  have hcommit := commit_of_plays (e := e)
    (q := ((recorded e.write (.sample id) d₀ p done current r).setRecorder (.sample id)
      (stopEncoder (advanced e.write.splits r))).setRecId x)
    hplays (fun _ hid => nomatch hid) (setRecorder_self _ _ _) (destination_stop h.writing _) hdf
  rw [hx, hcommit, ok_bind]
  have hcalm := (calms_setRecId (closed e.write (.sample id) d₀ p done current r) x).trans (calms_recordStop e _)
  have hfiles := hcalm.files (h.files_closed e.write)
  refine ⟨_, rfl, recordStop_flag hplays ?_, hcalm.idle (h.idle_closed e.write), _, hfiles⟩
  refine ⟨fun hoff => ?_, fun ⟨_, hoff⟩ => nomatch hoff⟩
  exact absurd (hoff.symm.trans h.flags.2.1) (by decide)

theorem framesLeft_recorded (h : Underway src d₀ c₀ frames (n + 1) p done current r) (w : Write φ) :
    (recorded w src.slot d₀ p done current r).framesLeft src.slot = n := by
  have hrec : (recorded w src.slot d₀ p done current r).recorders src.slot = some (advanced w.splits r) :=
    setRecorder_self p src.slot _
  have hleft : (advanced w.splits r).encoderFramesToRecord - (advanced w.splits r).encoderTotalFramesRecorded =
      r.encoderFramesToRecord - (r.encoderTotalFramesRecorded + 1) := by
    rw [advanced]
    split_ifs <;> rfl
  rw [Player.framesLeft, hrec]
  dsimp only
  rw [framesLeft, hleft, h.writing.left]
  push_cast
  ring

/-- The counters of a recorder that was stopped behind a frame that fills the file. -/
structure Stopped (r r' : Recorder) : Prop where
  idle : r'.encoderActive = false
  num : r'.sequenceNum = r.sequenceNum + 1
  total : r'.encoderTotalFramesRecorded = r.encoderTotalFramesRecorded + 1
  toRecord : r'.encoderFramesToRecord = r.encoderFramesToRecord

theorem stopped_advanced (r : Recorder) : Stopped r (stopEncoder (advanced true r)) := by
  refine ⟨stopEncoder_idle _, ?_, ?_, ?_⟩
  · rw [sequenceNum_stop]
    rfl
  · rw [stopEncoder]
    split_ifs <;> rfl
  · rw [stopEncoder]
    split_ifs <;> rfl

/-- **A frame that fills the file of a sample**, where it is not the last one. -/
theorem sample_split (h : Underway (.sample id seq) d₀ c₀ frames (n + 1) p done current r) (hw : e.write.splits = true)
    (hn : n ≠ 0) (hplays : (Source.sample id seq).Plays p.playing) (hdf : isYuv4mpeg e.df = false)
    (hopens : e.restart.codec = true → e.restart.space = true → e.restart.file = true) :
    ∃ q, splitSample e id (recorded e.write (.sample id) d₀ p done current r) = .ok q ∧
      Holds (.sample id seq) d₀ c₀ q ⟨frames ++ [e.write.frame], behind (.sample id seq) e n⟩ := by
  have hroom : r.sequenceNum + (n + 1) < 2 ^ 31 := h.writing.room
  have hleft : (recorded e.write (.sample id) d₀ p done current r).framesLeft (.sample id) = n :=
    framesLeft_recorded h e.write
  have hcommit : vjPerformRecordCommitSingle e
      ((recorded e.write (.sample id) d₀ p done current r).updRecorder (.sample id) sampleStopEncoder) =
        .ok (closed e.write (.sample id) d₀ p done current r) := h.commit hplays hdf
  have hrec : (closed e.write (.sample id) d₀ p done current r).recorders (.sample id) =
      some (stopEncoder (advanced true r)) := by
    rw [← hw]
    exact setRecorder_self _ _ _
  -- the recorder with the name of the next file
  have hstopped := stopped_advanced r
  obtain ⟨name, hdest, hname⟩ := sampleTryFilename_number id none e.df (r := stopEncoder (advanced true r))
    (by rw [hstopped.num]; omega) (fun name hname => nomatch hname)
  rw [hstopped.num] at hname
  have hnext : Stopped r (sampleTryFilename id none e.df (stopEncoder (advanced true r))) :=
    ⟨hstopped.idle, hstopped.num, hstopped.total, hstopped.toRecord⟩
  rw [splitSample, hleft, hcommit, ok_bind, if_pos (by omega), sampleInitEncoder, hrec]
  dsimp only
  generalize sampleTryFilename id none e.df (stopEncoder (advanced true r)) = r' at hdest hnext ⊢
  refine ⟨_, rfl, ?_⟩
  rw [behind, if_neg hn, hw, Bool.true_and]
  cases hre : restarts (.sample id seq) e with
  | true =>
    rw [restarts, Bool.and_eq_true, Bool.and_eq_true, decide_eq_true_eq] at hre
    obtain ⟨⟨hsucc, hlo, hhi⟩, hlav⟩ := hre
    have hgood : ¬ (e.df < 0 ∨ numEncoders < e.df ∨ (n : ℤ) ≤ 0 ∨ r'.encoderActive = true) := by
      rintro (hlt | hgt | hle | hact)
      · omega
      · omega
      · omega
      · exact Bool.false_ne_true (hnext.idle.symm.trans hact)
    rw [if_neg hgood, sampleStartEncoder_succeeds hsucc ⟨hdf, hlav⟩ n hdest]
    exact h.restarted hn e.write e.df (.inr ⟨hnext.total, hnext.toRecord⟩) hnext.num hname hdest
  | false =>
    rw [Bool.not_false, if_pos rfl]
    by_cases hbad : e.df < 0 ∨ numEncoders < e.df ∨ (n : ℤ) ≤ 0 ∨ r'.encoderActive = true
    · rw [if_pos hbad]
      exact h.stopped e.write hnext.idle
    · have hfail : e.restart.succeeds = false ∨ vjAvcodecFindLav e.df = none := by
        rw [restarts] at hre
        by_contra hcon
        obtain ⟨hsucc, hlav⟩ := not_or.mp hcon
        obtain ⟨hlo, hbad⟩ := not_or.mp hbad
        obtain ⟨hhi, -⟩ := not_or.mp hbad
        rw [Bool.eq_true_of_not_eq_false hsucc, Option.isSome_iff_ne_none.mpr hlav,
          decide_eq_true ⟨not_lt.mp hlo, not_lt.mp hhi⟩] at hre
        cases hre
      obtain ⟨r'', hr'', hidle⟩ := sampleStartEncoder_fails hdf hfail hopens n hnext.idle
        (closed e.write (.sample id) d₀ p done current r).disk
      rw [if_neg hbad, hr'']
      exact h.stopped e.write hidle

/-- **One frame of a sample.** -/
theorem vjPerformRecordSampleFrame_underway (h : Underway (.sample id seq) d₀ c₀ frames (n + 1) p done current r)
    (hspace : e.diskspace = true) (henc : e.write.encodes = true) (hwr : e.write.writes = true)
    (hok : TakenOk (.sample id seq) n e) (hplaying : p.playing = e.playing) :
    ∃ q, vjPerformRecordSampleFrame e id p = .ok q ∧
      Holds (.sample id seq) d₀ c₀ q ⟨frames ++ [e.write.frame], behind (.sample id seq) e n⟩ := by
  have hrecord : ∀ (r : Recorder) (d : Disk φ), r.encoderActive = true →
      sampleRecordFrame e.write r d = recordFrame (1) e.write r d := by
    intro r d hr
    rw [sampleRecordFrame, hr]
    rfl
  have hinto := recordInto_underway h henc hwr hrecord
  rw [show (Source.sample id seq).slot = .sample id from rfl] at hinto
  rw [vjPerformRecordSampleFrame, vjPerformRenderSampleFrame, hspace, Bool.not_true, if_neg Bool.false_ne_true, hinto,
    ok_bind]
  dsimp only
  cases hw : e.write.splits with
  | true =>
    rw [if_pos (by rfl)]
    exact sample_split h hw (hok.last hw) (hplaying ▸ hok.played (.inl hw)) (hok.format (.inl hw))
      (hok.opens hw ⟨id, seq, rfl⟩)
  | false =>
    by_cases hn : n = 0
    · subst hn
      rw [if_neg (by decide), if_pos (by rfl), behind, if_pos rfl]
      exact sample_last h (hplaying ▸ hok.played (.inr rfl)) (hok.format (.inr rfl))
    · have hcode : frameCode false n = 0 := by
        rw [frameCode, if_neg Bool.false_ne_true, if_neg hn]
      rw [hcode, if_neg (by decide), if_neg (by decide), if_neg (by decide), behind, if_neg hn, hw, Bool.false_and,
        if_neg Bool.false_ne_true]
      exact ⟨_, rfl, Nat.pos_of_ne_zero hn, _, _, _, h.more hw⟩

end Sample

/-! ## One frame of a stream -/

section Stream

variable {id : ℤ} {e : Round φ}

/-- A recording of a stream, with the setting that tells which one it is. -/
theorem Source.Flags.offline (h : src.Flags p) (hslot : src.slot = .stream id) :
    p.offlineRecord = true ↔ ∃ id, src = .offline id := by
  cases src with
  | sample id' seq => cases hslot
  | stream id' => exact ⟨fun hoff => absurd (hoff.symm.trans h.2.1) (by decide), fun ⟨_, hoff⟩ => nomatch hoff⟩
  | offline id' => exact ⟨fun _ => ⟨id', rfl⟩, fun _ => h.1⟩

/-- **The last frame of a stream.** -/
theorem stream_last (h : Underway src d₀ c₀ frames (n + 1) p done current r) (hslot : src.slot = .stream id)
    (hplays : src.Plays p.playing) (hdf : isYuv4mpeg e.df = false) :
    ∃ q, (vjPerformRecordCommitSingle e ((recorded e.write src.slot d₀ p done current r).updRecorder src.slot
        vjTagStopEncoder) >>= fun p => .ok (vjPerformRecordStop e p)) = .ok q ∧
      Holds src d₀ c₀ q ⟨frames ++ [e.write.frame], .complete⟩ := by
  rw [show vjTagStopEncoder = stopEncoder from rfl, h.commit hplays hdf, ok_bind]
  have hcalm := calms_recordStop e (closed e.write src.slot d₀ p done current r)
  exact ⟨_, rfl, recordStop_flag hplays (h.flags.offline hslot), hcalm.idle (h.idle_closed e.write), _,
    hcalm.files (h.files_closed e.write)⟩

/-- **A frame that fills the file of a stream**, where it is not the last one. -/
theorem stream_split (h : Underway src d₀ c₀ frames (n + 1) p done current r) (hslot : src.slot = .stream id)
    (hw : e.write.splits = true) (hn : n ≠ 0) (hplays : src.Plays p.playing) (hstream : p.streamId = id)
    (hdf : isYuv4mpeg e.df = false) :
    ∃ q, splitStream e (recorded e.write src.slot d₀ p done current r) = .ok q ∧
      Holds src d₀ c₀ q ⟨frames ++ [e.write.frame], behind src e n⟩ ∧
      ∀ m, behind src e n = .running m → q.playing = p.playing := by
  have hroom : r.sequenceNum + (n + 1) < 2 ^ 31 := h.writing.room
  have hleft := framesLeft_recorded h e.write
  have hcommit := h.commit hplays hdf
  have hid : (recorded e.write src.slot d₀ p done current r).streamId = id := hstream
  have hrestarts : restarts src e = e.restart.succeeds := by
    cases src with
    | sample id' seq => cases hslot
    | stream id' => rfl
    | offline id' => rfl
  -- the recorder with the name of the next file
  have hstopped := stopped_advanced r
  obtain ⟨name, hdest, hname⟩ := vjTagTryFilename_number none e.df
    (r := vjTagResetEncoder (stopEncoder (advanced true r))) (by
      show (stopEncoder (advanced true r)).sequenceNum < 2 ^ 31
      rw [hstopped.num]
      omega)
  rw [show (vjTagResetEncoder (stopEncoder (advanced true r))).sequenceNum = r.sequenceNum + 1 from hstopped.num] at hname
  have hupd : (closed e.write src.slot d₀ p done current r).updRecorder src.slot vjTagResetEncoder =
      (closed e.write src.slot d₀ p done current r).setRecorder src.slot
        (vjTagResetEncoder (stopEncoder (advanced true r))) := by
    rw [Player.updRecorder, show (closed e.write src.slot d₀ p done current r).recorders src.slot =
      some (stopEncoder (advanced true r)) by rw [← hw]; exact setRecorder_self _ _ _]
  rw [splitStream]
  dsimp only
  rw [hid, ← hslot, hleft, hcommit, ok_bind, hupd, if_pos (by omega), hslot, vjTagInitEncoder, setRecorder_self]
  dsimp only
  have hinactive : ¬ (vjTagResetEncoder (stopEncoder (advanced true r))).encoderActive = true := Bool.false_ne_true
  rw [if_neg hinactive, if_neg (by omega), ← hslot]
  refine ⟨_, rfl, ?_⟩
  have hset : ∀ x : Recorder × Disk φ, ((closed e.write src.slot d₀ p done current r).setRecorder src.slot
      (vjTagResetEncoder (stopEncoder (advanced true r)))).setSession src.slot x =
        (closed e.write src.slot d₀ p done current r).setSession src.slot x := by
    intro x
    rw [Player.setSession, setRecorder_setRecorder]
    rfl
  rw [hset, behind, if_neg hn, hw, Bool.true_and, hrestarts]
  cases hsucc : e.restart.succeeds with
  | true =>
    rw [vjTagStartEncoder_succeeds hsucc hdf n hdest]
    refine ⟨h.restarted hn e.write e.df (.inl rfl) hstopped.num hname hdest, fun _ _ => ?_⟩
    simp only [Player.setSession, Player.setRecorder, closed, Player.commit, recorded]
  | false =>
    obtain ⟨r'', hr'', hidle⟩ := vjTagStartEncoder_fails hdf hsucc n
      (r := vjTagTryFilename none e.df (vjTagResetEncoder (stopEncoder (advanced true r)))) rfl
      ((closed e.write src.slot d₀ p done current r).setRecorder src.slot
        (vjTagResetEncoder (stopEncoder (advanced true r)))).disk
    rw [hr'', Bool.not_false, if_pos rfl]
    refine ⟨h.stopped e.write hidle, ?_⟩
    intro _ hm
    cases hm

/-- **One frame of a stream.** -/
theorem vjPerformRecordTagFrame_underway (h : Underway src d₀ c₀ frames (n + 1) p done current r)
    (hslot : src.slot = .stream id) (hstream : p.streamId = id) (hspace : e.diskspace = true)
    (hfetched : p.offlineRecord = true → e.fetched = true) (henc : e.write.encodes = true)
    (hwr : e.write.writes = true) (hok : TakenOk src n e) (hplaying : p.playing = e.playing) :
    ∃ q, vjPerformRecordTagFrame e p = .ok q ∧
      Holds src d₀ c₀ q ⟨frames ++ [e.write.frame], behind src e n⟩ ∧
      ∀ m, behind src e n = .running m → q.playing = p.playing := by
  have hrecord : ∀ (r : Recorder) (d : Disk φ), r.encoderActive = true →
      vjTagRecordFrame e.write r d = recordFrame (-1) e.write r d := by
    intro r d hr
    rw [vjTagRecordFrame, hr]
    rfl
  have hinto := recordInto_underway h henc hwr hrecord
  have hskip : ¬ (p.offlineRecord && !e.fetched) = true := by
    rw [Bool.and_eq_true]
    rintro ⟨hoff, hno⟩
    rw [hfetched hoff] at hno
    cases hno
  rw [vjPerformRecordTagFrame, vjPerformRenderTagFrame, hspace, Bool.not_true, if_neg Bool.false_ne_true,
    if_neg hskip]
  dsimp only
  rw [hstream, ← hslot, hinto, ok_bind]
  dsimp only
  cases hw : e.write.splits with
  | true =>
    rw [if_pos (by rfl)]
    exact stream_split h hslot hw (hok.last hw) (hplaying ▸ hok.played (.inl hw)) hstream (hok.format (.inl hw))
  | false =>
    by_cases hn : n = 0
    · subst hn
      rw [if_neg (by decide), if_pos (by rfl), behind, if_pos rfl]
      obtain ⟨q, hq, hholds⟩ := stream_last h hslot (hplaying ▸ hok.played (.inr rfl)) (hok.format (.inr rfl))
      refine ⟨q, hq, hholds, ?_⟩
      intro _ hm
      cases hm
    · have hcode : frameCode false n = 0 := by
        rw [frameCode, if_neg Bool.false_ne_true, if_neg hn]
      rw [hcode, if_neg (by decide), if_neg (by decide), if_neg (by decide), behind, if_neg hn, hw, Bool.false_and,
        if_neg Bool.false_ne_true]
      exact ⟨_, rfl, ⟨Nat.pos_of_ne_zero hn, _, _, _, h.more hw⟩, fun _ _ => rfl⟩

end Stream

/-! ## One round -/

/-- What follows in a round once no encoder is active. -/
theorem rest_idle {e : Round φ} (hspace : e.diskspace = true) (hidle : Idle p) :
    ∃ q, (if p.encActive then vjPerformRecordFrame e (p.play e.next)
      else .ok (p.play e.next)) = .ok q ∧ Calms p q := by
  have hnext := calms_play p e.next
  split_ifs
  · obtain ⟨q, hq, hcalm⟩ := vjPerformRecordFrame_idle (p := (p.play e.next)) hspace (hnext.idle hidle)
    exact ⟨q, hq, hnext.trans hcalm⟩
  · exact ⟨_, rfl, hnext⟩

/-- What holds of a recording that has ended is kept by what calms. -/
theorem Holds.calms {q : Player φ} {log : Log φ} (h : Holds src d₀ c₀ p log) (hended : ∀ m, log.status ≠ .running m)
    (hcalm : Calms p q) : Holds src d₀ c₀ q log ∧ Idle p := by
  rw [Holds] at h ⊢
  cases hs : log.status with
  | running m => exact absurd hs (hended m)
  | complete =>
    rw [hs] at h
    obtain ⟨hflag, hidle, done, hfiles⟩ := h
    exact ⟨⟨hcalm.flag hflag, hcalm.idle hidle, done, hcalm.files hfiles⟩, hidle⟩
  | broken =>
    rw [hs] at h
    obtain ⟨hidle, done, hfiles⟩ := h
    exact ⟨⟨hcalm.idle hidle, done, hcalm.files hfiles⟩, hidle⟩

section Round

variable {id : ℤ} {seq : Bool} {e : Round φ}

theorem encActive_play (p : Player φ) (playing : Playing) : (p.play playing).encActive =
    match playing.mode with
    | .sample => (playing.seqActive && p.recId != 0) || p.active (.sample playing.sampleId)
    | .stream => p.active (.stream playing.sampleId)
    | .plain => false := rfl

/-- The encoder of a sample is active in the rounds that render a frame of it. -/
theorem encActive_sample (h : Underway (.sample id seq) d₀ c₀ frames n p done current r) :
    (p.play e.playing).encActive = takes (.sample id seq) e := by
  obtain ⟨-, -, hrec, hid⟩ := h.flags
  rw [encActive_play, takes]
  cases hmode : e.playing.mode with
  | stream =>
    rw [decide_eq_false (fun hm => nomatch hm.1)]
    exact h.others (.stream e.playing.sampleId) (fun hs => nomatch hs)
  | plain => exact (decide_eq_false (fun hm => nomatch hm.1)).symm
  | sample =>
    dsimp only
    by_cases heq : e.playing.sampleId = id
    · have hactive : p.active (.sample id) = true := h.active
      rw [decide_eq_true ⟨rfl, .inl heq⟩, heq, hactive, Bool.or_true]
    · have hother : p.active (.sample e.playing.sampleId) = false :=
        h.others _ fun hs => heq (Slot.sample.inj hs)
      rw [hother, Bool.or_false, hrec]
      cases hseq : seq with
      | false =>
        rw [decide_eq_false (by rintro ⟨-, h | ⟨h, -⟩⟩ <;> contradiction), if_neg Bool.false_ne_true]
        exact Bool.and_false _
      | true =>
        rw [if_pos rfl, bne_iff_ne.mpr (hid hseq), Bool.and_true]
        cases e.playing.seqActive with
        | false => rw [decide_eq_false (by rintro ⟨-, h | ⟨-, h⟩⟩ <;> contradiction)]
        | true => rw [decide_eq_true ⟨rfl, .inr ⟨rfl, rfl⟩⟩]

/-- The encoder of a stream is active in the rounds in which it plays. -/
theorem encActive_stream (h : Underway (.stream id) d₀ c₀ frames n p done current r) :
    (p.play e.playing).encActive = takes (.stream id) e := by
  obtain ⟨-, -, hrec⟩ := h.flags
  rw [encActive_play, takes, hrec]
  cases hmode : e.playing.mode with
  | sample =>
    dsimp only
    rw [decide_eq_false (fun hm => nomatch hm.1), show ((0 : ℤ) != 0) = false from rfl, Bool.and_false, Bool.false_or]
    exact h.others (.sample e.playing.sampleId) (fun hs => nomatch hs)
  | plain => exact (decide_eq_false (fun hm => nomatch hm.1)).symm
  | stream =>
    dsimp only
    by_cases heq : e.playing.sampleId = id
    · rw [decide_eq_true ⟨rfl, heq⟩, heq]
      exact h.active
    · rw [decide_eq_false (fun hm => heq hm.2)]
      exact h.others _ fun hs => heq (Slot.stream.inj hs)

/-- What plays while a stream is recorded that does not play has no active encoder. -/
theorem encActive_offline (h : Underway (.offline id) d₀ c₀ frames n p done current r)
    (hunseen : ¬ (p.playing.mode = .stream ∧ p.playing.sampleId = id)) : p.encActive = false := by
  obtain ⟨-, -, hrec⟩ := h.flags
  rw [Player.encActive, hrec]
  cases hmode : p.playing.mode with
  | sample =>
    dsimp only
    rw [show ((0 : ℤ) != 0) = false from rfl, Bool.and_false, Bool.false_or]
    exact h.others (.sample p.playing.sampleId) (fun hs => nomatch hs)
  | plain => rfl
  | stream => exact h.others _ fun hs => hunseen ⟨hmode, Slot.stream.inj hs⟩

/-- The sample that a frame is recorded into. -/
theorem recorded_sample (h : Underway (.sample id seq) d₀ c₀ frames n p done current r)
    (hwhich : e.playing.sampleId = id ∨ seq = true ∧ e.playing.seqActive = true) :
    (if e.playing.seqActive && p.recId != 0 then p.recId else e.playing.sampleId) = id := by
  obtain ⟨-, -, hrec, hid⟩ := h.flags
  rw [hrec]
  cases hseq : seq with
  | false =>
    rw [if_neg Bool.false_ne_true, show ((0 : ℤ) != 0) = false from rfl, Bool.and_false,
      if_neg Bool.false_ne_true]
    rcases hwhich with heq | ⟨hseq', -⟩
    · exact heq
    · exact absurd (hseq.symm.trans hseq') Bool.false_ne_true
  | true =>
    rw [if_pos rfl, bne_iff_ne.mpr (hid hseq), Bool.and_true]
    cases hact : e.playing.seqActive with
    | true => exact if_pos rfl
    | false =>
      rw [if_neg Bool.false_ne_true]
      rcases hwhich with heq | ⟨-, hact'⟩
      · exact heq
      · exact absurd (hact.symm.trans hact') Bool.false_ne_true

/-- One round of the recording of a sample. -/
theorem playRound_sample (h : Underway (.sample id seq) d₀ c₀ frames (n + 1) p done current r)
    (hok : RoundOk (.sample id seq) ⟨frames, .running (n + 1)⟩ e) :
    ∃ q, playRound e p = .ok q ∧
      Holds (.sample id seq) d₀ c₀ q (Log.step (.sample id seq) ⟨frames, .running (n + 1)⟩ e) := by
  have hplay := h.play e.playing
  have hoff : ¬ (p.play e.playing).offlineRecord = true := fun hoff => Bool.false_ne_true (h.flags.2.1.symm.trans hoff)
  rw [playRound, recordOffline, if_neg hoff, ok_bind, encActive_sample h, Log.step]
  dsimp only
  cases htakes : takes (.sample id seq) e with
  | false =>
    rw [if_neg Bool.false_ne_true, if_neg Bool.false_ne_true]
    exact ⟨_, rfl, Nat.succ_pos n, _, _, _, (h.play e.playing).play e.next⟩
  | true =>
    have htaken := hok.taken n rfl htakes
    rw [if_pos rfl, if_pos rfl, htaken.steady (by intro _ h; cases h)]
    rw [takes, decide_eq_true_eq] at htakes
    obtain ⟨hmode, hwhich⟩ := htakes
    have hsample := recorded_sample h hwhich
    have hframe : vjPerformRecordFrame e ((p.play e.playing).play e.playing) =
        vjPerformRecordSampleFrame e id ((p.play e.playing).play e.playing) := by
      rw [vjPerformRecordFrame, show ((p.play e.playing).play e.playing).playing.mode = .sample from hmode]
      exact congrArg (fun x => vjPerformRecordSampleFrame e x _) hsample
    rw [hframe]
    exact vjPerformRecordSampleFrame_underway (hplay.play e.playing) hok.diskspace hok.encodes hok.writes htaken rfl

/-- One round of the recording of a stream. -/
theorem playRound_stream (h : Underway (.stream id) d₀ c₀ frames (n + 1) p done current r)
    (hok : RoundOk (.stream id) ⟨frames, .running (n + 1)⟩ e) :
    ∃ q, playRound e p = .ok q ∧ Holds (.stream id) d₀ c₀ q (Log.step (.stream id) ⟨frames, .running (n + 1)⟩ e) := by
  have hplay := h.play e.playing
  have hoff : (p.play e.playing).offlineRecord = false := h.flags.2.1
  rw [playRound, recordOffline, hoff, if_neg Bool.false_ne_true, ok_bind, encActive_stream h, Log.step]
  dsimp only
  cases htakes : takes (.stream id) e with
  | false =>
    rw [if_neg Bool.false_ne_true, if_neg Bool.false_ne_true]
    exact ⟨_, rfl, Nat.succ_pos n, _, _, _, (h.play e.playing).play e.next⟩
  | true =>
    have htaken := hok.taken n rfl htakes
    rw [if_pos rfl, if_pos rfl, htaken.steady (by intro _ h; cases h)]
    rw [takes, decide_eq_true_eq] at htakes
    obtain ⟨hmode, hid⟩ := htakes
    have hstream : ((p.play e.playing).play e.playing).streamId = id := by
      rw [Player.streamId, show ((p.play e.playing).play e.playing).offlineRecord = false from hoff,
        if_neg Bool.false_ne_true]
      exact hid
    rw [vjPerformRecordFrame, show ((p.play e.playing).play e.playing).playing.mode = .stream from hmode]
    obtain ⟨q, hq, hholds, -⟩ := vjPerformRecordTagFrame_underway (hplay.play e.playing) rfl hstream hok.diskspace
      (fun h => absurd (hoff.symm.trans h) Bool.false_ne_true) hok.encodes hok.writes htaken rfl
    exact ⟨q, hq, hholds⟩

/-- One round of the recording of a stream that does not play. -/
theorem playRound_offline (h : Underway (.offline id) d₀ c₀ frames (n + 1) p done current r)
    (hok : RoundOk (.offline id) ⟨frames, .running (n + 1)⟩ e) :
    ∃ q, playRound e p = .ok q ∧ Holds (.offline id) d₀ c₀ q (Log.step (.offline id) ⟨frames, .running (n + 1)⟩ e) := by
  have hplay := h.play e.playing
  obtain ⟨hoff, htag, -⟩ := h.flags
  have hstream : (p.play e.playing).streamId = id := by
    rw [Player.streamId, show (p.play e.playing).offlineRecord = true from hoff, if_pos rfl]
    exact htag
  have hunseen := hok.unseen (n + 1) id rfl rfl
  rw [playRound, recordOffline, show (p.play e.playing).offlineRecord = true from hoff, if_pos rfl, Log.step]
  dsimp only
  cases htakes : takes (.offline id) e with
  | false =>
    have hskip : vjPerformRecordTagFrame e (p.play e.playing) = .ok (p.play e.playing) := by
      have hfetched : e.fetched = false := htakes
      rw [vjPerformRecordTagFrame, vjPerformRenderTagFrame, hok.diskspace, Bool.not_true, if_neg Bool.false_ne_true,
        show (p.play e.playing).offlineRecord = true from hoff, hfetched]
      rfl
    rw [hskip, ok_bind, encActive_offline hplay hunseen, if_neg Bool.false_ne_true, if_neg Bool.false_ne_true]
    exact ⟨_, rfl, Nat.succ_pos n, _, _, _, hplay.play e.next⟩
  | true =>
    obtain ⟨q, hq, hholds, hplaying⟩ := vjPerformRecordTagFrame_underway hplay rfl hstream hok.diskspace
      (fun _ => htakes) hok.encodes hok.writes (hok.taken n rfl htakes) rfl
    rw [hq, ok_bind, if_pos rfl]
    -- while the recording goes on, nothing else is recorded; at its end, nothing at all
    cases hbehind : behind (.offline id) e n with
    | running m =>
      rw [hbehind] at hholds
      obtain ⟨hpos, done', current', r', hunder⟩ := hholds
      have hidle : q.encActive = false := by
        refine encActive_offline hunder ?_
        rw [hplaying m hbehind]
        exact hunseen
      rw [hidle, if_neg Bool.false_ne_true]
      exact ⟨_, rfl, hpos, done', current', r', hunder.play e.next⟩
    | complete =>
      rw [hbehind] at hholds
      obtain ⟨t, ht, hcalm⟩ := rest_idle hok.diskspace (hholds.2.1)
      exact ⟨t, ht, (hholds.calms (by intro m hm; cases hm) hcalm).1⟩
    | broken =>
      rw [hbehind] at hholds
      obtain ⟨t, ht, hcalm⟩ := rest_idle hok.diskspace (hholds.1)
      exact ⟨t, ht, (hholds.calms (by intro m hm; cases hm) hcalm).1⟩

/-- **One round of a recording.** -/
theorem playRound_underway (h : Underway src d₀ c₀ frames (n + 1) p done current r)
    (hok : RoundOk src ⟨frames, .running (n + 1)⟩ e) :
    ∃ q, playRound e p = .ok q ∧ Holds src d₀ c₀ q (Log.step src ⟨frames, .running (n + 1)⟩ e) := by
  cases src with
  | sample id seq => exact playRound_sample h hok
  | stream id => exact playRound_stream h hok
  | offline id => exact playRound_offline h hok

/-- **One round**, whether the recording goes on or has ended. -/
theorem playRound_holds {log : Log φ} (h : Holds src d₀ c₀ p log) (hok : RoundOk src log e) :
    ∃ q, playRound e p = .ok q ∧ Holds src d₀ c₀ q (log.step src e) := by
  obtain ⟨frames, status⟩ := log
  cases status with
  | running n =>
    obtain ⟨hpos, done, current, r, hunder⟩ := h
    obtain ⟨n, rfl⟩ := Nat.exists_eq_add_one.mpr hpos
    exact playRound_underway hunder hok
  | complete =>
    obtain ⟨q, hq, hcalm⟩ := playRound_idle hok.diskspace (show Idle p from h.2.1)
    exact ⟨q, hq, (h.calms (by intro m hm; cases hm) hcalm).1⟩
  | broken =>
    obtain ⟨q, hq, hcalm⟩ := playRound_idle hok.diskspace (show Idle p from h.1)
    exact ⟨q, hq, (h.calms (by intro m hm; cases hm) hcalm).1⟩

end Round

end Players

end Veejay.Record
