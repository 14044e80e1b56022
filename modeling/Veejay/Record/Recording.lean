import Veejay.Record.Performer

/-!
# What a recording is for

A recording is to end with its last frame: the frames are in the files, each file was added once, and nothing is left
open.

* `Source`, `takes` — what is recorded, and the rounds that render a frame of it;
* `Log`, `Log.step` — the frames that were recorded, and how many are to come;
* `log_frames` — **the first frames that were rendered**, and the end;
* `TakenOk`, `RoundOk` — what the code needs of a round;
* `Files`, `Recorded` — the files, the samples that were added, the flag and the encoders, against the log.
-/

namespace Veejay.Record

open CLib

variable {φ : Type}

/-! ## What a recording is for -/

/-- What is recorded: a sample, or the sequence under the id of a sample; the stream that plays; a stream that does
not. -/
inductive Source where
  | sample (id : ℤ) (seq : Bool)
  | stream (id : ℤ)
  | offline (id : ℤ)
  deriving DecidableEq

/-- Whose recorder is used. -/
def Source.slot : Source → Slot
  | .sample id _ => .sample id
  | .stream id => .stream id
  | .offline id => .stream id

/-- The recording flag. -/
def Source.flag (src : Source) (p : Player φ) : Bool :=
  match src with
  | .sample _ _ => p.sampleRecord
  | .stream _ => p.tagRecord
  | .offline _ => p.offlineRecord

/-- The round renders a frame of what is recorded. -/
def takes (src : Source) (e : Round φ) : Bool :=
  match src with
  | .sample id seq =>
    decide (e.playing.mode = .sample ∧ (e.playing.sampleId = id ∨ (seq = true ∧ e.playing.seqActive = true)))
  | .stream id => decide (e.playing.mode = .stream ∧ e.playing.sampleId = id)
  | .offline _ => e.fetched

/-- The encoder is started again for the next file. -/
def restarts (src : Source) (e : Round φ) : Bool :=
  match src with
  | .sample _ _ =>
    e.restart.succeeds && decide (0 ≤ e.df ∧ e.df ≤ numEncoders) && (vjAvcodecFindLav e.df).isSome
  | _ => e.restart.succeeds

/-- How far a recording is: it has frames to come, it is complete, or the encoder could not be started again. -/
inductive Status where
  | running (left : ℕ)
  | complete
  | broken
  deriving DecidableEq

/-- The frames that were recorded, and how far the recording is. -/
structure Log (φ : Type) where
  frames : List φ
  status : Status

/-- A recording that begins. -/
def Log.start (n : ℕ) : Log φ := ⟨[], .running n⟩

/-- How far a recording with `n + 1` frames to come is behind a frame. -/
def behind (src : Source) (e : Round φ) (n : ℕ) : Status :=
  if n = 0 then .complete else if e.write.splits && !restarts src e then .broken else .running n

/-- One round of a recording. -/
def Log.step (src : Source) (log : Log φ) (e : Round φ) : Log φ :=
  match log.status with
  | .running (n + 1) => if takes src e then ⟨log.frames ++ [e.write.frame], behind src e n⟩ else log
  | _ => log

/-- The frames that were rendered of what is recorded. -/
def rendered (src : Source) (rs : List (Round φ)) : List φ := (rs.filter (takes src)).map fun e => e.write.frame

theorem rendered_cons (src : Source) (e : Round φ) (rs : List (Round φ)) :
    rendered src (e :: rs) = if takes src e then e.write.frame :: rendered src rs else rendered src rs := by
  rw [rendered, List.filter_cons]
  split_ifs <;> rfl

theorem foldl_ended (src : Source) {log : Log φ} (h : ∀ n, log.status ≠ .running n) (rs : List (Round φ)) :
    rs.foldl (Log.step src) log = log := by
  induction rs with
  | nil => rfl
  | cons e rs ih =>
    have hstep : log.step src e = log := by
      obtain ⟨frames, status⟩ := log
      cases status with
      | running n => exact absurd rfl (h n)
      | complete => rfl
      | broken => rfl
    rw [List.foldl_cons, hstep, ih]

theorem complete_ended (frames : List φ) : ∀ n, (⟨frames, .complete⟩ : Log φ).status ≠ .running n :=
  fun _ h => nomatch h

theorem broken_ended (frames : List φ) : ∀ n, (⟨frames, .broken⟩ : Log φ).status ≠ .running n :=
  fun _ h => nomatch h

/-- The log of the rounds behind one that was reached. -/
theorem foldl_running (src : Source) (rs : List (Round φ)) : ∀ (frames : List φ) (n : ℕ), 0 < n →
    (rs.foldl (Log.step src) ⟨frames, .running n⟩).frames <+: frames ++ (rendered src rs).take n ∧
    ((rs.foldl (Log.step src) ⟨frames, .running n⟩).status ≠ .broken →
      (rs.foldl (Log.step src) ⟨frames, .running n⟩).frames = frames ++ (rendered src rs).take n ∧
      (n ≤ (rendered src rs).length → (rs.foldl (Log.step src) ⟨frames, .running n⟩).status = .complete)) := by
  induction rs with
  | nil =>
    intro frames n hn
    have hnil : frames ++ (rendered src ([] : List (Round φ))).take n = frames := by
      rw [rendered, List.filter_nil, List.map_nil, List.take_nil, List.append_nil]
    rw [List.foldl_nil, hnil]
    exact ⟨List.prefix_rfl, fun _ => ⟨rfl, fun hle => absurd hle (Nat.not_le.mpr hn)⟩⟩
  | cons e rs ih =>
    intro frames n hn
    obtain ⟨n, rfl⟩ := Nat.exists_eq_add_one.mpr hn
    rw [List.foldl_cons, rendered_cons]
    cases htakes : takes src e with
    | false =>
      have hstep : Log.step src ⟨frames, .running (n + 1)⟩ e = ⟨frames, .running (n + 1)⟩ := by
        rw [Log.step]
        dsimp only
        rw [htakes, if_neg Bool.false_ne_true]
      rw [hstep, if_neg Bool.false_ne_true]
      exact ih frames (n + 1) hn
    | true =>
      have hstep : Log.step src ⟨frames, .running (n + 1)⟩ e = ⟨frames ++ [e.write.frame], behind src e n⟩ := by
        rw [Log.step]
        dsimp only
        rw [htakes, if_pos rfl]
      have htake : frames ++ (e.write.frame :: rendered src rs).take (n + 1) =
          frames ++ [e.write.frame] ++ (rendered src rs).take n := by
        rw [List.take_succ_cons, List.append_assoc]
        rfl
      rw [hstep, if_pos rfl, htake, List.length_cons, behind]
      split_ifs with hzero hbroken
      · rw [foldl_ended src (complete_ended _), hzero, List.take_zero, List.append_nil]
        exact ⟨List.prefix_rfl, fun _ => ⟨rfl, fun _ => rfl⟩⟩
      · rw [foldl_ended src (broken_ended _)]
        exact ⟨List.prefix_append _ _, fun h => absurd rfl h⟩
      · obtain ⟨hpre, hrest⟩ := ih (frames ++ [e.write.frame]) n (Nat.pos_of_ne_zero hzero)
        exact ⟨hpre, fun hne => ⟨(hrest hne).1, fun hle => (hrest hne).2 (Nat.le_of_succ_le_succ hle)⟩⟩

/-- The log of a recording of `n` frames behind some rounds. -/
def logOf (src : Source) (n : ℕ) (rs : List (Round φ)) : Log φ := rs.foldl (Log.step src) (Log.start n)

/-- **The frames of a log** are the first ones that were rendered; all of them, and the recording is at its end with the
last one, unless the encoder could not be started again. -/
theorem log_frames (src : Source) {n : ℕ} (hn : 0 < n) (rs : List (Round φ)) :
    (logOf src n rs).frames <+: (rendered src rs).take n ∧
      ((logOf src n rs).status ≠ .broken → (logOf src n rs).frames = (rendered src rs).take n ∧
        (n ≤ (rendered src rs).length → (logOf src n rs).status = .complete)) :=
  foldl_running src rs [] n hn

/-! ## What the code needs -/

/-- What is recorded is what plays; for a stream that does not play, it is a stream that plays. -/
def Source.Plays (src : Source) (playing : Playing) : Prop :=
  match src with
  | .sample id _ => playing.mode = .sample ∧ playing.sampleId = id
  | .stream id => playing.mode = .stream ∧ playing.sampleId = id
  | .offline _ => playing.mode = .stream

/-- What the code needs of a round that renders a frame, behind which `n` are to come. -/
structure TakenOk (src : Source) (n : ℕ) (e : Round φ) : Prop where
  /-- What plays is the same when the frame is recorded as when it was rendered. -/
  steady : (∀ id, src ≠ .offline id) → e.next = e.playing
  /-- At the end of a file, what plays is what is recorded. -/
  played : e.write.splits = true ∨ n = 0 → src.Plays e.playing
  /-- At the end of a file, no YUV4MPEG format is selected. -/
  format : e.write.splits = true ∨ n = 0 → isYuv4mpeg e.df = false
  /-- The last frame does not fill the file. -/
  last : e.write.splits = true → n ≠ 0
  /-- The file that the next frames of a sample go to can be opened. -/
  opens : e.write.splits = true → (∃ id seq, src = .sample id seq) →
    e.restart.codec = true → e.restart.space = true → e.restart.file = true

/-- What the code needs of a round: there is space on the disk and no error, a stream that is recorded while it does
not play does not play, and the frames are recorded undisturbed. -/
structure RoundOk (src : Source) (log : Log φ) (e : Round φ) : Prop where
  diskspace : e.diskspace = true
  encodes : e.write.encodes = true
  writes : e.write.writes = true
  unseen : ∀ n id, log.status = .running n → src = .offline id →
    ¬ (e.playing.mode = .stream ∧ e.playing.sampleId = id)
  taken : ∀ n, log.status = .running (n + 1) → takes src e = true → TakenOk src n e

/-! ## What there is to show -/

/-- The files of the recording, closed and added as samples (`done`) or open (`current`). -/
structure Files (d₀ : Disk φ) (c₀ : List Commit) (p : Player φ) (frames : List φ) (done current : List (OutFile φ)) :
    Prop where
  disk : p.disk = d₀ ++ (done ++ current)
  commits : p.commits = c₀ ++ done.map fun f => .sample f.name
  frames : frames = (done ++ current).flatMap OutFile.frames
  names : ((done ++ current).map OutFile.name).Nodup

/-- No encoder is active. -/
def Idle (p : Player φ) : Prop := ∀ s, p.active s = false

/-- **What is to hold** of the player: the files together have the frames that were recorded, in order; they are closed
and added, but for the one that is written; at the end the flag is cleared and no encoder is active. -/
def Recorded (src : Source) (d₀ : Disk φ) (c₀ : List Commit) (log : Log φ) (p : Player φ) : Prop :=
  match log.status with
  | .running _ => src.flag p = true ∧ p.active src.slot = true ∧
      ∃ done current, Files d₀ c₀ p log.frames done [current]
  | .complete => src.flag p = false ∧ Idle p ∧ ∃ done, Files d₀ c₀ p log.frames done []
  | .broken => Idle p ∧ ∃ done, Files d₀ c₀ p log.frames done []

end Veejay.Record
