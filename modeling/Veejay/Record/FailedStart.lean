import Veejay.Record.Performer

/-!
# Starts of a recorder that fail

`sample_init_encoder` gives the destination a name before it looks at its arguments, and `sample_start_encoder` sets
the state of the recorder before its last steps, which may fail.  Two of the failing steps take some of that back
(`libsamplerec/samplerecord.c`).

* `Start`, `initEncoder` — the arguments of a start, and `sample_init_encoder` with all of them;
* `Unchanged` — the fields that a failed start is to leave alone;
* `Start.Opens` — what a start that succeeds meets; `startEncoder_fst`, `initEncoder_fst` — exactly then it does;
* `startEncoder_unchanged_iff`, `initEncoder_unchanged_iff` — what a failed start leaves alone;
* `keepsOnFailure_iff` — **which failed starts leave the sample as it was.**
-/

namespace Veejay.Record

open CLib

variable {φ : Type}

/-! ## The function -/

/-- The arguments of `sample_init_encoder` (`given`: an edit list and a frame), and what its steps meet. -/
structure Start where
  sampleId : ℤ
  filename : Option CStr
  format : ℤ
  given : Bool
  nframes : ℤ
  outcome : Outcome

/-- `sample_init_encoder` -/
def initEncoder (a : Start) (p : Player φ) : Bool × Player φ :=
  match p.recorders (.sample a.sampleId) with
  | none => (false, p)
  | some r =>
    let r := sampleTryFilename a.sampleId a.filename a.format r
    if a.format < 0 ∨ numEncoders < a.format ∨ a.nframes ≤ 0 ∨ a.given = false ∨ r.encoderActive = true then
      (false, p.setRecorder (.sample a.sampleId) r)
    else
      let x := sampleStartEncoder a.outcome a.format a.nframes r p.disk
      (x.1, p.setSession (.sample a.sampleId) x.2)

/-! ## What a failed start is to leave alone -/

/-- The flag, the destination, the encoder, the file and the counters are what they were. -/
structure Unchanged (r r' : Recorder) : Prop where
  active : r'.encoderActive = r.encoderActive
  destination : r'.encoderDestination = r.encoderDestination
  encoder : r'.encoder = r.encoder
  file : r'.encoderFile = r.encoderFile
  recorded : r'.encoderFramesRecorded = r.encoderFramesRecorded
  total : r'.encoderTotalFramesRecorded = r.encoderTotalFramesRecorded
  toRecord : r'.encoderFramesToRecord = r.encoderFramesToRecord

/-- **A failed start leaves the sample as it was.** -/
def KeepsOnFailure (a : Start) (p : Player φ) : Prop :=
  (initEncoder a p).1 = false →
    Option.Rel Unchanged (p.recorders (.sample a.sampleId)) ((initEncoder a p).2.recorders (.sample a.sampleId))

/-- The base of the name that `sample_try_filename` gives. -/
def baseName (sampleId : ℤ) (filename : Option CStr) : CStr :=
  ((filename.getD (lit "Sample_" ++ zeroPaddedInt 4 sampleId)).take 31).map fun c => if c = 32 then 95 else c

/-- The name of the destination. -/
def destinationName (a : Start) (sequenceNum : ℕ) : CStr :=
  let tmp := baseName a.sampleId a.filename
  (fileName tmp sequenceNum a.format).take (2 * tmp.length + 9)

theorem sampleTryFilename_eq (a : Start) (r : Recorder) :
    sampleTryFilename a.sampleId a.filename a.format r =
      { r with encoderDestination := some (destinationName a r.sequenceNum) } := by
  unfold sampleTryFilename destinationName baseName
  cases a.filename <;> rfl

/-- The arguments and the recorder pass the tests. -/
def Start.Accepted (a : Start) (r : Recorder) : Prop :=
  0 ≤ a.format ∧ a.format ≤ numEncoders ∧ 0 < a.nframes ∧ a.given = true ∧ r.encoderActive = false

/-- The encoder is created, there is space, and the file is opened. -/
def Start.Opens (a : Start) : Prop :=
  ∃ cformat, vjAvcodecFindLav a.format = some cformat ∧ a.outcome.codec = true ∧ a.outcome.space = true ∧
    (cformat = 'S' ∨ a.outcome.file = true)

/-- What a start that got this far did not have to change. -/
def Start.Spares (a : Start) (r : Recorder) : Prop :=
  vjAvcodecFindLav a.format = none ∨ r.encoder = none ∧ (a.outcome.codec = false ∨
    a.outcome.space = false ∧ r.encoderFramesRecorded = 0 ∧
      (r.encoderTotalFramesRecorded = 0 → r.encoderFramesToRecord = a.nframes))

/-! ## Starting the encoder -/

section StartEncoder

variable (a : Start) {r : Recorder} {d : Disk φ}

/-- An encoder is created. -/
theorem vjAvcodecStart_codec {o : Outcome} (h : o.codec = true) (format : ℤ) (name : CStr) (d : Disk φ) :
    ∃ e d', vjAvcodecStart o format name d = (some e, d') := by
  rw [vjAvcodecStart, h, Bool.not_true, if_neg Bool.false_ne_true]
  split
  · exact ⟨_, _, rfl⟩
  · exact ⟨_, _, rfl⟩

theorem vjAvcodecStart_noCodec {o : Outcome} (h : o.codec = false) (format : ℤ) (name : CStr) (d : Disk φ) :
    vjAvcodecStart o format name d = (none, d) := by
  rw [vjAvcodecStart, h, Bool.not_false, if_pos rfl]

/-- **When the encoder is started.** -/
theorem startEncoder_fst :
    (sampleStartEncoder a.outcome a.format a.nframes r d).1 = true ↔ a.Opens := by
  rw [sampleStartEncoder, Start.Opens]
  cases hlav : vjAvcodecFindLav a.format with
  | none =>
    refine iff_of_false Bool.false_ne_true ?_
    rintro ⟨c, hc, -⟩
    cases hc
  | some cformat =>
    cases hcodec : a.outcome.codec with
    | false =>
      dsimp only
      rw [vjAvcodecStart_noCodec hcodec]
      refine iff_of_false Bool.false_ne_true ?_
      rintro ⟨c, -, hc, -⟩
      cases hc
    | true =>
      obtain ⟨e, d', hstart⟩ := vjAvcodecStart_codec hcodec a.format (r.encoderDestination.getD []) d
      dsimp only
      rw [hstart]
      dsimp only
      cases hspace : a.outcome.space with
      | false =>
        refine iff_of_false Bool.false_ne_true ?_
        rintro ⟨c, -, -, hs, -⟩
        cases hs
      | true =>
        rw [Bool.not_true, if_neg Bool.false_ne_true]
        by_cases hS : cformat = 'S'
        · rw [if_pos hS]
          exact iff_of_true rfl ⟨cformat, rfl, rfl, rfl, .inl hS⟩
        · rw [if_neg hS]
          cases hfile : a.outcome.file with
          | false =>
            refine iff_of_false Bool.false_ne_true ?_
            rintro ⟨c, hc, -, -, h⟩
            obtain rfl := Option.some.inj hc
            rcases h with h | h
            · exact hS h
            · cases h
          | true => exact iff_of_true rfl ⟨cformat, rfl, rfl, rfl, .inr rfl⟩

/-- **What a failed start of the encoder leaves alone.**  Where the file cannot be opened, the recorder stays active. -/
theorem startEncoder_unchanged_iff (hr : r.encoderActive = false) (hfail : ¬ a.Opens) :
    Unchanged r (sampleStartEncoder a.outcome a.format a.nframes r d).2.1 ↔ a.Spares r := by
  rw [sampleStartEncoder, Start.Spares]
  cases hlav : vjAvcodecFindLav a.format with
  | none => exact iff_of_true ⟨rfl, rfl, rfl, rfl, rfl, rfl, rfl⟩ (.inl rfl)
  | some cformat =>
    rw [or_iff_right (Option.some_ne_none cformat)]
    cases hcodec : a.outcome.codec with
    | false =>
      dsimp only
      rw [vjAvcodecStart_noCodec hcodec]
      exact ⟨fun h => ⟨h.encoder.symm, .inl rfl⟩, fun h => ⟨rfl, rfl, h.1.symm, rfl, rfl, rfl, rfl⟩⟩
    | true =>
      obtain ⟨e, d', hstart⟩ := vjAvcodecStart_codec hcodec a.format (r.encoderDestination.getD []) d
      dsimp only
      rw [hstart, or_iff_right Bool.noConfusion]
      dsimp only
      cases hspace : a.outcome.space with
      | false =>
        rw [Bool.not_false, if_pos rfl]
        constructor
        · intro h
          refine ⟨h.encoder.symm, rfl, h.recorded.symm, fun htotal => ?_⟩
          have htoRecord := h.toRecord
          rw [begun] at htoRecord
          dsimp only at htoRecord
          rw [if_pos htotal] at htoRecord
          exact htoRecord.symm
        · rintro ⟨hencoder, -, hrecorded, htoRecord⟩
          refine ⟨hr.symm, rfl, hencoder.symm, rfl, hrecorded.symm, rfl, ?_⟩
          rw [begun]
          dsimp only
          split_ifs with htotal
          · exact (htoRecord htotal).symm
          · rfl
      | true =>
        -- only the file is left to fail
        have hS : cformat ≠ 'S' := fun h => hfail ⟨cformat, hlav, hcodec, hspace, .inl h⟩
        have hfile : a.outcome.file = false := by
          rw [Bool.eq_false_iff]
          exact fun h => hfail ⟨cformat, hlav, hcodec, hspace, .inr h⟩
        rw [Bool.not_true, if_neg Bool.false_ne_true, if_neg hS, hfile, if_neg Bool.false_ne_true]
        refine iff_of_false (fun h => ?_) fun h => Bool.false_ne_true h.2.1.symm
        have hactive := h.active
        rw [hr] at hactive
        cases hactive

end StartEncoder

/-! ## Starts -/

section Starts

variable {a : Start} {p : Player φ} {r : Recorder}

theorem setRecorder_same (p : Player φ) (slot : Slot) (r : Recorder) :
    (p.setRecorder slot r).recorders slot = some r := by
  rw [Player.setRecorder]
  exact Function.update_self _ _ _

/-- A start that is refused has a destination. -/
theorem initEncoder_refused (hr : p.recorders (.sample a.sampleId) = some r) (h : ¬ a.Accepted r) :
    initEncoder a p = (false, p.setRecorder (.sample a.sampleId)
      { r with encoderDestination := some (destinationName a r.sequenceNum) }) := by
  have hrefused : a.format < 0 ∨ numEncoders < a.format ∨ a.nframes ≤ 0 ∨ a.given = false ∨ r.encoderActive = true := by
    by_contra hnot
    simp only [not_or, not_lt, not_le, Bool.not_eq_false, Bool.not_eq_true] at hnot
    exact h hnot
  rw [initEncoder, hr]
  dsimp only
  rw [sampleTryFilename_eq, if_pos hrefused]

/-- A start that is accepted. -/
theorem initEncoder_accepted (hr : p.recorders (.sample a.sampleId) = some r) (h : a.Accepted r) :
    initEncoder a p =
      let x := sampleStartEncoder a.outcome a.format a.nframes
        { r with encoderDestination := some (destinationName a r.sequenceNum) } p.disk
      (x.1, p.setSession (.sample a.sampleId) x.2) := by
  obtain ⟨hlo, hhi, hn, hgiven, hactive⟩ := h
  have haccepted : ¬ (a.format < 0 ∨ numEncoders < a.format ∨ a.nframes ≤ 0 ∨ a.given = false ∨
      r.encoderActive = true) := by
    rw [hgiven, hactive]
    simp only [Bool.true_eq_false, Bool.false_eq_true, or_self, or_false, not_or]
    omega
  rw [initEncoder, hr]
  dsimp only
  rw [sampleTryFilename_eq, if_neg haccepted]

/-- **When a start succeeds.** -/
theorem initEncoder_fst (hr : p.recorders (.sample a.sampleId) = some r) :
    (initEncoder a p).1 = true ↔ a.Accepted r ∧ a.Opens := by
  by_cases haccepted : a.Accepted r
  · rw [initEncoder_accepted hr haccepted, and_iff_right haccepted]
    exact startEncoder_fst a
  · rw [initEncoder_refused hr haccepted]
    exact iff_of_false Bool.false_ne_true fun h => haccepted h.1

theorem unchanged_destination {r' : Recorder} {name : CStr} :
    Unchanged r r' → r'.encoderDestination = some name → r.encoderDestination = some name :=
  fun h hname => h.destination.symm.trans hname

/-- The name is the only difference that the destination makes. -/
theorem unchanged_named (h : r.encoderDestination = some (destinationName a r.sequenceNum)) :
    { r with encoderDestination := some (destinationName a r.sequenceNum) } = r := by
  rw [← h]

theorem sampleStartEncoder_destination {o : Outcome} {format n : ℤ} {d : Disk φ} :
    (sampleStartEncoder o format n r d).2.1.encoderDestination = r.encoderDestination := by
  rw [sampleStartEncoder]
  cases vjAvcodecFindLav format with
  | none => rfl
  | some cformat =>
    dsimp only
    cases (vjAvcodecStart o format (r.encoderDestination.getD []) d).1 with
    | none => rfl
    | some e =>
      dsimp only
      split_ifs <;> rfl

/-- **What a failed start leaves alone.** -/
theorem initEncoder_unchanged_iff (hr : p.recorders (.sample a.sampleId) = some r)
    (hfail : ¬ (a.Accepted r ∧ a.Opens)) :
    Option.Rel Unchanged (some r) ((initEncoder a p).2.recorders (.sample a.sampleId)) ↔
      r.encoderDestination = some (destinationName a r.sequenceNum) ∧ (a.Accepted r → a.Spares r) := by
  have hrel : ∀ r' : Recorder, Option.Rel Unchanged (some r) (some r') ↔ Unchanged r r' :=
    fun r' => ⟨fun h => by cases h; assumption, .some⟩
  by_cases haccepted : a.Accepted r
  · have hclosed : ¬ a.Opens := fun h => hfail ⟨haccepted, h⟩
    rw [initEncoder_accepted hr haccepted]
    dsimp only
    rw [Player.setSession]
    dsimp only
    rw [setRecorder_same, hrel, forall_prop_of_true haccepted]
    constructor
    · intro h
      have hnamed := unchanged_destination h sampleStartEncoder_destination
      rw [unchanged_named hnamed] at h
      exact ⟨hnamed, (startEncoder_unchanged_iff a haccepted.2.2.2.2 hclosed).mp h⟩
    · rintro ⟨hnamed, hspares⟩
      rw [unchanged_named hnamed]
      exact (startEncoder_unchanged_iff a haccepted.2.2.2.2 hclosed).mpr hspares
  · rw [initEncoder_refused hr haccepted]
    dsimp only
    rw [setRecorder_same, hrel, forall_prop_of_false haccepted, and_true]
    exact ⟨fun h => h.destination.symm, fun h => ⟨rfl, h.symm, rfl, rfl, rfl, rfl, rfl⟩⟩

end Starts

/-- **Failed starts.**  A start that fails leaves the sample as it was exactly if there is no sample, or the start does
not fail, or the destination had the name already, and what the start got to before it failed had its values already. -/
theorem keepsOnFailure_iff (a : Start) (p : Player φ) :
    KeepsOnFailure a p ↔ ∀ r, p.recorders (.sample a.sampleId) = some r →
      a.Accepted r ∧ a.Opens ∨
        r.encoderDestination = some (destinationName a r.sequenceNum) ∧ (a.Accepted r → a.Spares r) := by
  rw [KeepsOnFailure]
  cases hr : p.recorders (.sample a.sampleId) with
  | none =>
    have hsame : initEncoder a p = (false, p) := by rw [initEncoder, hr]
    rw [hsame, hr]
    exact iff_of_true (fun _ => .none) fun r h => nomatch h
  | some r =>
    have hfst := @initEncoder_fst φ a p r hr
    by_cases hopens : a.Accepted r ∧ a.Opens
    · rw [hfst.mpr hopens]
      refine iff_of_true (fun h => nomatch h) fun r' hr' => ?_
      obtain rfl := Option.some.inj hr'
      exact .inl hopens
    · have hfalse : (initEncoder a p).1 = false := Bool.eq_false_iff.mpr fun h => hopens (hfst.mp h)
      rw [hfalse, forall_prop_of_true rfl, initEncoder_unchanged_iff hr hopens]
      constructor
      · intro h r' hr'
        obtain rfl := Option.some.inj hr'
        exact .inr h
      · exact fun h => (h r rfl).resolve_left hopens

/-- A recorder that was never started. -/
def idleRecorder : Recorder where
  encoder := none
  encoderActive := false
  encoderFile := none
  encoderFormat := 0
  encoderBase := []
  encoderDestination := none
  sequenceNum := 0
  encoderFramesRecorded := 0
  encoderTotalFramesRecorded := 0
  encoderFramesToRecord := 0

/-- A file that cannot be opened. -/
def closedFile : Start where
  sampleId := 1
  filename := none
  format := encoderMjpeg
  given := true
  nframes := 25
  outcome := ⟨true, true, false⟩

theorem not_opens_closedFile : ¬ closedFile.Opens := by
  rintro ⟨cformat, hlav, -, -, h | h⟩
  · rw [h] at hlav
    exact absurd hlav (by decide)
  · cases h

/-- A player with one sample, which was never recorded. -/
def idlePlayer : Player ℕ where
  playing := ⟨.sample, 1, false⟩
  recId := 0
  sampleRecord := false
  sampleRecordId := 0
  sampleRecordSwitch := false
  tagRecord := false
  tagRecordSwitch := false
  offlineRecord := false
  offlineTagId := 0
  offlineCreatedSample := false
  recorders slot := if slot = .sample 1 then some idleRecorder else none
  disk := []
  commits := []

/-- **A file that cannot be opened** leaves a sample with another destination, and active. -/
theorem not_keepsOnFailure_file : ¬ ∀ (a : Start) (p : Player ℕ), KeepsOnFailure a p := by
  intro h
  have hr : idlePlayer.recorders (.sample closedFile.sampleId) = some idleRecorder := rfl
  have hfail : ¬ (closedFile.Accepted idleRecorder ∧ closedFile.Opens) := fun h => not_opens_closedFile h.2
  have hfalse : (initEncoder closedFile idlePlayer).1 = false :=
    Bool.eq_false_iff.mpr fun htrue => hfail ((initEncoder_fst hr).mp htrue)
  have hkept := h closedFile idlePlayer hfalse
  rw [hr, initEncoder_unchanged_iff hr hfail] at hkept
  cases hkept.1

end Veejay.Record
