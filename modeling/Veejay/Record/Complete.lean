import Veejay.Record.Underway

/-!
# Recording a number of frames

* `Started` — a recording that was started; `vjEventSampleRecStart_started` — what the command leaves;
* `recording_recorded` — **every run** of rounds that are as the code needs them.
-/

namespace Veejay.Record

open CLib

variable {φ : Type}

section Players

variable {src : Source} {d₀ : Disk φ} {c₀ : List Commit} {p : Player φ}

/-! ## Every run -/

/-- A recording of `n` frames was started: its file is the last one on the disk, and no other encoder is active. -/
structure Started (src : Source) (n : ℕ) (p : Player φ) : Prop where
  pos : 0 < n
  session : ∃ before name r, p.disk = before ++ [⟨name, []⟩] ∧ p.recorders src.slot = some r ∧
    Writing r before (⟨name, []⟩ : OutFile φ) n
  others : ∀ s, s ≠ src.slot → p.active s = false
  flags : src.Flags p

theorem Started.holds {n : ℕ} (h : Started src n p) : Holds src p.disk.dropLast p.commits p (Log.start n) := by
  obtain ⟨before, name, r, hdisk, hrec, hwriting⟩ := h.session
  have hbefore : p.disk.dropLast = before := by
    rw [hdisk, List.dropLast_concat]
  refine ⟨h.pos, [], ⟨name, []⟩, r, ?_, hrec, ?_, ?_, h.others, h.flags⟩
  · refine ⟨?_, (List.append_nil _).symm, rfl, List.nodup_singleton _⟩
    rw [hbefore]
    exact hdisk
  · rw [hbefore, List.append_nil]
    exact hwriting
  · exact fun f hf => absurd hf List.not_mem_nil

theorem Holds.recorded {log : Log φ} (h : Holds src d₀ c₀ p log) : Recorded src d₀ c₀ log p := by
  rw [Holds] at h
  rw [Recorded]
  cases hs : log.status with
  | running n =>
    rw [hs] at h
    obtain ⟨-, done, current, r, h⟩ := h
    refine ⟨?_, h.active, done, current, h.files⟩
    have hflags := h.flags
    cases src with
    | sample id seq => exact hflags.1
    | stream id => exact hflags.1
    | offline id => exact hflags.1
  | complete =>
    rw [hs] at h
    exact h
  | broken =>
    rw [hs] at h
    exact h

/-! ## The start of a recording -/

/-- No recording is going on, and the recorder is as the last one should have left it. -/
structure Ready (p : Player φ) (slot : Slot) (n : ℕ) : Prop where
  idle : Idle p
  clean : ∃ r, p.recorders slot = some r ∧ r.encoderTotalFramesRecorded = 0 ∧ r.sequenceNum + n < 2 ^ 31
  recId : p.recId = 0
  offline : p.offlineRecord = false

/-- The recorder of a recording that begins. -/
theorem started_writing {r r' : Recorder} {n : ℕ} {name : CStr} (htotal : r'.encoderTotalFramesRecorded = 0)
    (hnum : r'.sequenceNum = r.sequenceNum) (hroom : r.sequenceNum + n < 2 ^ 31) (hname : HasNumber name r.sequenceNum)
    (hdest : r'.encoderDestination = some name) (format : ℤ) (d : Disk φ) :
    Writing (nextFile format n r' name d).1 d (⟨name, []⟩ : OutFile φ) n where
  encoder := rfl
  active := rfl
  open_ := rfl
  destination := hdest
  left := by
    show (if r'.encoderTotalFramesRecorded = 0 then (n : ℤ) else r'.encoderFramesToRecord) =
      r'.encoderTotalFramesRecorded + n
    rw [if_pos htotal, htotal, zero_add]
  total := by
    show 0 ≤ r'.encoderTotalFramesRecorded
    rw [htotal]
  number := by
    show HasNumber name r'.sequenceNum
    rw [hnum]
    exact hname
  room := by
    show r'.sequenceNum + n < 2 ^ 31
    rw [hnum]
    exact hroom

theorem Idle.eq_false {slot : Slot} {r : Recorder} (h : Idle p) (hr : p.recorders slot = some r) :
    r.encoderActive = false := by
  have hslot := h slot
  rw [Player.active, hr] at hslot
  exact hslot

variable {o : Outcome} {tmp : CStr} {format : ℤ} {n : ℕ}

/-- The start of the encoder of a sample. -/
theorem sampleInitEncoder_ready {id : ℤ} (h : Ready p (.sample id) n) (hn : 0 < n) (ho : o.succeeds = true)
    (hformat : 0 ≤ format ∧ format ≤ numEncoders ∧ Plain format) (htmp : 6 ≤ tmp.length) :
    ∃ r name, Writing r p.disk (⟨name, []⟩ : OutFile φ) n ∧
      sampleInitEncoder o id (some tmp) format n p = (true, p.setSession (.sample id) (r, p.disk.create name)) := by
  obtain ⟨r, hr, htotal, hroom⟩ := h.clean
  have hidle := h.idle.eq_false hr
  obtain ⟨name, hdest, hname⟩ := sampleTryFilename_number id (some tmp) format (r := r) (by omega)
    (fun t ht => Option.some.inj ht ▸ htmp)
  have hgood : ¬ (format < 0 ∨ numEncoders < format ∨ (n : ℤ) ≤ 0 ∨
      (sampleTryFilename id (some tmp) format r).encoderActive = true) := by
    rintro (hlt | hgt | hle | hact)
    · omega
    · omega
    · omega
    · exact Bool.false_ne_true (hidle.symm.trans hact)
  have htotal' : (sampleTryFilename id (some tmp) format r).encoderTotalFramesRecorded = 0 := htotal
  refine ⟨_, name, started_writing htotal' rfl hroom hname hdest format p.disk, ?_⟩
  rw [sampleInitEncoder, hr]
  dsimp only
  rw [if_neg hgood, sampleStartEncoder_succeeds ho hformat.2.2 n hdest]
  rfl

theorem Ready.others {slot : Slot} (h : Ready p slot n) (x : Recorder × Disk φ) (s : Slot) (hs : s ≠ slot) :
    (p.setSession slot x).active s = false := by
  have hset := active_setRecorder p slot s x.1
  rw [if_neg hs, h.idle s] at hset
  exact hset

/-- **A recording of the sample that plays**, or of the sequence. -/
theorem vjEventSampleRecStart_started (hmode : p.playing.mode = .sample) (hid : p.playing.sampleId ≠ 0)
    (h : Ready p (.sample p.playing.sampleId) n) (hn : 1 < n) (ho : o.succeeds = true)
    (hformat : 0 ≤ format ∧ format ≤ numEncoders ∧ Plain format) (htmp : 6 ≤ tmp.length) (switch : Bool)
    (start : Playing) :
    Started (.sample p.playing.sampleId p.playing.seqActive) n
      (vjEventSampleRecStart o tmp format n switch start p) := by
  obtain ⟨r, name, hwriting, hinit⟩ := sampleInitEncoder_ready h (Nat.lt_of_succ_lt hn) ho hformat htmp
  have hbusy : ¬ (p.playing.seqActive && p.recId != 0) = true := by
    rw [h.recId, show ((0 : ℤ) != 0) = false from rfl, Bool.and_false]
    exact Bool.false_ne_true
  rw [vjEventSampleRecStart, if_neg (not_not.mpr hmode), if_neg (by omega), if_neg hbusy, if_neg (by omega)]
  dsimp only
  rw [hinit]
  dsimp only
  rw [if_pos rfl, show (p.setSession (.sample p.playing.sampleId) (r, p.disk.create name)).playing.seqActive =
    p.playing.seqActive from rfl]
  cases hseq : p.playing.seqActive with
  | true =>
    rw [if_pos rfl]
    exact ⟨Nat.lt_of_succ_lt hn, ⟨p.disk, name, r, rfl, setRecorder_self _ _ _, hwriting⟩, h.others _,
      rfl, h.offline, rfl, fun _ => hid⟩
  | false =>
    rw [if_neg Bool.false_ne_true]
    exact ⟨Nat.lt_of_succ_lt hn, ⟨p.disk, name, r, rfl, setRecorder_self _ _ _, hwriting⟩, h.others _,
      rfl, h.offline, rfl, fun hact => absurd hact Bool.false_ne_true⟩

end Players

/-- The rounds of the player, one after the other. -/
def step (p : Player φ) (e : Round φ) : Exec (Unit × Player φ) := do
  let p ← playRound e p
  .ok ((), p)

/-- A sample that was never recorded. -/
def blankRecorder : Recorder := ⟨none, false, none, 0, [], none, 0, 0, 0, 0⟩

/-- A player of one sample. -/
def clipPlayer : Player ℕ where
  playing := ⟨.sample, 1, false⟩
  recId := 0
  sampleRecord := false
  sampleRecordId := 0
  sampleRecordSwitch := false
  tagRecord := false
  tagRecordSwitch := false
  offlineRecord := false
  offlineTagId := 0
  offlineCreatedSample := false
  recorders s := if s = .sample 1 then some blankRecorder else none
  disk := []
  commits := []

/-- Two frames of it are to be recorded. -/
def clipStarted : Player ℕ :=
  vjEventSampleRecStart ⟨true, true, true⟩ (lit "clip-01") encoderMjpeg (2 : ℕ) false ⟨.sample, 1, false⟩ clipPlayer

/-- A round without an error, behind which the file has some bytes left. -/
def clipRound (frame : ℕ) (bytesRemain : ℤ) : Round ℕ where
  playing := ⟨.sample, 1, false⟩
  next := ⟨.sample, 1, false⟩
  diskspace := true
  fetched := true
  write := ⟨frame, true, true, bytesRemain⟩
  df := encoderMjpeg
  restart := ⟨true, true, true⟩
  newest := 1

theorem clipPlayer_ready : Ready clipPlayer (.sample 1) 2 where
  idle := by
    intro s
    rw [Player.active]
    show Option.any _ (if s = .sample 1 then some blankRecorder else none) = false
    split_ifs <;> rfl
  clean := ⟨blankRecorder, rfl, rfl, by decide⟩
  recId := rfl
  offline := rfl

theorem clipStarted_started : Started (.sample 1 false) 2 clipStarted :=
  vjEventSampleRecStart_started (p := clipPlayer) rfl (by decide) clipPlayer_ready (by decide) rfl
    (by decide) (by decide) false ⟨.sample, 1, false⟩

theorem clipRound_ok {frame : ℕ} {bytesRemain : ℤ} {log : Log ℕ}
    (hlast : (clipRound frame bytesRemain).write.splits = true → log.status ≠ .running 1) :
    RoundOk (.sample 1 false) log (clipRound frame bytesRemain) where
  diskspace := rfl
  encodes := rfl
  writes := rfl
  unseen := fun _ _ _ h => nomatch h
  taken := by
    intro n hn _
    refine ⟨fun _ => rfl, fun _ => ⟨rfl, rfl⟩, fun _ => rfl, fun hw hzero => hlast hw ?_, fun _ _ _ _ => rfl⟩
    rw [hn, hzero]

end Veejay.Record
