import Veejay.Client.Receive
import Veejay.Sample.Bank

/-!
# The lists of samples and of sequences

The server lists its samples (`vj_event_send_sample_list`) and the slots of its sequencer
(`vj_event_get_sample_sequences`) in fields of a fixed width; the client takes the lists apart
(`load_samplelist_info`, `load_sequence_list`).

* `vjEventSendSampleList`, `vjEventGetSampleSequences` — the replies;
* `loadSamplelistInfo`, `loadSequenceList` — what the client makes of them;
* `sampleList_iff`, `sequenceList_iff` — where each list comes through;
* `lists_recovered_iff` — **both lists are recovered** exactly where the list of samples fits its buffer and the ids
  in the sequencer fit their fields.
-/

namespace Veejay.Client

open CLib Samples

/-! ## The server -/

/-- `SEND_BUF` -/
def sendBuf : ℕ := 256000

/-- `SAMPLE_MAX_DESCR_LEN` -/
def sampleMaxDescrLen : ℕ := 24

/-- `MAX_SEQUENCES` -/
def maxSequences : ℕ := 100

/-- What a sample tells of itself in the list; its description is what `snprintf` left in `descr`. -/
structure SampleInfo where
  firstFrame : ℤ
  lastFrame : ℤ
  markerStart : ℤ
  markerEnd : ℤ
  descr : CStr
  descr_lt : descr.length < sampleMaxDescrLen
  descr_text : (0 : UInt8) ∉ descr

/-- `sample_get_startFrame`; the result is an `int`. -/
def SampleInfo.startFrame (s : SampleInfo) : ℤ :=
  (if 0 ≤ s.markerStart ∨ 0 < s.markerEnd then s.markerStart else s.firstFrame).bmod (2 ^ 32)

/-- `sample_get_endFrame`; the result is an `int`. -/
def SampleInfo.endFrame (s : SampleInfo) : ℤ :=
  (if 0 < s.markerEnd ∧ 0 ≤ s.markerStart then s.markerEnd else s.lastFrame).bmod (2 ^ 32)

/-- The frames of a sample have at most nine digits. -/
structure SampleInfo.FramesFit (s : SampleInfo) : Prop where
  firstFrame : Fits 9 s.firstFrame
  lastFrame : Fits 9 s.lastFrame
  markerStart : Fits 9 s.markerStart
  markerEnd : Fits 9 s.markerEnd

/-- The live samples; `sample_size ()` is the number of the next one. -/
structure SampleBank where
  sampleSize : ℤ
  sample : ℤ → Option SampleInfo
  known : ∀ i s, sample i = some s → 0 < i ∧ i < sampleSize ∧ i < sampleMaxSamples

/-- `%05d%09d%09d%03zu%s` of a sample. -/
def sampleLine (i : ℤ) (s : SampleInfo) : CStr :=
  zeroPaddedInt 5 i ++ (zeroPaddedInt 9 s.startFrame ++ (zeroPaddedInt 9 s.endFrame ++ counted 3 s.descr))

/-- One round of the loop of `vj_event_send_sample_list`. -/
def appendSample (bank : SampleBank) (printBuf : CStr) (i : ℤ) : Exec CStr :=
  match bank.sample i with
  | none => .ok printBuf
  | some s => do
    let cmd ← printInto 512 (sampleLine i s)
    let line ← printInto 400 (counted 3 cmd)
    appendInto sendBuf printBuf line

/-- The ids from `start` on, up to `size`. -/
def sampleIds (start size : ℤ) : List ℤ := (List.range (size + 1 - start).toNat).map fun k : ℕ => start + k

/-- `vj_event_send_sample_list` -/
def vjEventSendSampleList (bank : SampleBank) (arg : ℤ) : Exec CStr :=
  if 1 < bank.sampleSize then do
    let printBuf ← (sampleIds (if 0 < arg then arg else 1) bank.sampleSize).foldlM (appendSample bank) []
    printInto sendBuf (counted 8 printBuf)
  else printInto sendBuf (lit "00000000")

/-- The sequencer: a slot holds the id of a sample, or zero. -/
structure Sequencer where
  current : ℤ
  size : ℤ
  active : ℤ
  samples : List ℤ
  slots : samples.length = maxSequences
  ids : ∀ id ∈ samples, 0 ≤ id
  playing : 0 ≤ current ∧ current < maxSequences
  switch : active = 0 ∨ active = 1
  empty : size ≤ 0 → ∀ id ∈ samples, id = 0

/-- The size of the buffer of `vj_event_get_sample_sequences`. -/
def sequenceBuf : ℕ := 32 + maxSequences * 4

/-- `vj_event_get_sample_sequences` -/
def vjEventGetSampleSequences (seq : Sequencer) : Exec CStr :=
  if seq.size ≤ 0 then .ok (lit "000000")
  else do
    let printBuf ← printInto sequenceBuf (zeroPaddedInt 6 (12 + 4 * maxSequences) ++ (zeroPaddedInt 4 seq.current ++
      (zeroPaddedInt 4 maxSequences ++ zeroPaddedInt 4 seq.active)))
    seq.samples.foldlM (fun buf id => appendInto sequenceBuf buf ((zeroPaddedInt 4 id).take 4)) printBuf

/-! ## The client -/

/-- What the client reads of a sample. -/
structure SampleRow where
  id : ℤ
  startFrame : ℤ
  endFrame : ℤ
  title : Option CStr
  deriving DecidableEq

/-- A line of the list of samples; `utf8` is `_utf8str`. -/
def parseSample (utf8 : CStr → Option CStr) (line : CStr) : Exec (List SampleRow) := do
  let values := scanFields [5, 9, 9, 3] line
  let descr ← copyInto 255 (line.drop (5 + 9 + 9 + 3)) (values.getD 3 0)
  .ok [⟨values.getD 0 0, values.getD 1 0, values.getD 2 0, utf8 descr⟩]

/-- `load_samplelist_info`: what it reads of the samples. -/
def loadSamplelistInfo (utf8 : CStr → Option CStr) (fuel : ℕ) : Option CStr → Exec (List SampleRow)
  | none => .ok []
  | some fxtext => loadRecords 300 (parseSample utf8) fuel fxtext

/-- Where the client is in the list of sequences; the labels are those of the sequencer's slots. -/
structure SlotCursor where
  offset : ℤ
  id : ℕ
  labels : List (Option ℤ)

/-- The label of a slot. -/
def slotLabel (sampleId : ℤ) : Option ℤ := if 0 < sampleId then some sampleId else none

/-- One round of the loop of `load_sequence_list`; there is no slot after the last one. -/
def nextSlot (text : CStr) (s : SlotCursor) : Exec SlotCursor := do
  let at_ ← textFrom text (12 + s.offset)
  let sampleId := (scanFields [4] at_).getD 0 0
  if s.id < s.labels.length then .ok ⟨s.offset + 4, s.id + 1, s.labels.set s.id (slotLabel sampleId)⟩
  else .error .nullPointer

/-- `load_sequence_list`: the labels after it. -/
def loadSequenceList (fuel : ℕ) (labels : List (Option ℤ)) : Option CStr → Exec (List (Option ℤ))
  | none => .ok labels
  | some text => do
    let s ← whileLoop (fun s : SlotCursor => decide (s.offset < (text.length : ℤ) - 12)) (nextSlot text) fuel
      ⟨0, 0, labels⟩
    .ok s.labels

/-! ## The list of samples -/

/-- The live samples, by their ids. -/
def listedSamples (bank : SampleBank) : List (ℤ × SampleInfo) :=
  (sampleIds 1 bank.sampleSize).filterMap fun i => (bank.sample i).map fun s => (i, s)

/-- The bytes that the samples take in the list: a frame takes nine, or its digits if it has more. -/
def sampleBytes (bank : SampleBank) : ℕ :=
  ((listedSamples bank).map fun p =>
    11 + (zeroPaddedInt 9 p.2.startFrame).length + (zeroPaddedInt 9 p.2.endFrame).length + p.2.descr.length).sum

/-- What is to be read of a sample. -/
def sampleRow (utf8 : CStr → Option CStr) (p : ℤ × SampleInfo) : SampleRow :=
  ⟨p.1, p.2.startFrame, p.2.endFrame, utf8 p.2.descr⟩

/-- **The list has all live samples**, and no others. -/
theorem mem_listedSamples {bank : SampleBank} {p : ℤ × SampleInfo} :
    p ∈ listedSamples bank ↔ bank.sample p.1 = some p.2 := by
  obtain ⟨i, s⟩ := p
  rw [listedSamples, List.mem_filterMap]
  constructor
  · rintro ⟨j, -, hj⟩
    obtain ⟨t, ht, heq⟩ := Option.map_eq_some_iff.mp hj
    obtain ⟨rfl, rfl⟩ := Prod.mk.inj heq
    exact ht
  · intro hs
    obtain ⟨hpos, hlt, -⟩ := bank.known i s hs
    refine ⟨i, List.mem_map.mpr ⟨(i - 1).toNat, List.mem_range.mpr (by omega), by omega⟩, ?_⟩
    show (bank.sample i).map _ = _
    rw [show bank.sample i = some s from hs]
    rfl

theorem Fits.bmod {z : ℤ} (h : Fits 9 z) : z.bmod (2 ^ 32) = z := by
  obtain ⟨hlo, hhi⟩ := h
  rw [Int.bmod_eq_of_le (by omega) (by omega)]

theorem SampleInfo.FramesFit.startFrame {s : SampleInfo} (h : s.FramesFit) : Fits 9 s.startFrame := by
  rw [SampleInfo.startFrame]
  split_ifs
  · rw [Fits.bmod h.markerStart]
    exact h.markerStart
  · rw [Fits.bmod h.firstFrame]
    exact h.firstFrame

theorem SampleInfo.FramesFit.endFrame {s : SampleInfo} (h : s.FramesFit) : Fits 9 s.endFrame := by
  rw [SampleInfo.endFrame]
  split_ifs
  · rw [Fits.bmod h.markerEnd]
    exact h.markerEnd
  · rw [Fits.bmod h.lastFrame]
    exact h.lastFrame

/-- A frame has at most ten digits and a sign. -/
theorem frame_length_le (z : ℤ) : (zeroPaddedInt 9 (z.bmod (2 ^ 32))).length ≤ 11 := by
  have hlo := @Int.le_bmod z (2 ^ 32) (by norm_num)
  have hhi := @Int.bmod_lt z (2 ^ 32) (by norm_num)
  exact zeroPaddedInt_length_le (by decide) (by decide) (by omega)

theorem SampleInfo.frames_length_le (s : SampleInfo) :
    (zeroPaddedInt 9 s.startFrame).length ≤ 11 ∧ (zeroPaddedInt 9 s.endFrame).length ≤ 11 :=
  ⟨frame_length_le _, frame_length_le _⟩

section Listed

variable {bank : SampleBank} {p : ℤ × SampleInfo}

theorem fits_id (hp : p ∈ listedSamples bank) : Fits 5 p.1 := by
  obtain ⟨hpos, -, hlt⟩ := bank.known p.1 p.2 (mem_listedSamples.mp hp)
  have hmax : (sampleMaxSamples : ℤ) = 16384 := rfl
  exact ⟨by norm_num; omega, by norm_num; omega⟩

/-- A line has its fields, and the description. -/
theorem sampleLine_length (hp : p ∈ listedSamples bank) :
    (sampleLine p.1 p.2).length = 8 + (zeroPaddedInt 9 p.2.startFrame).length + (zeroPaddedInt 9 p.2.endFrame).length +
      p.2.descr.length := by
  have hdescr : p.2.descr.length < 10 ^ 3 := by
    have := p.2.descr_lt
    rw [sampleMaxDescrLen] at this
    omega
  rw [sampleLine, List.length_append, List.length_append, List.length_append,
    (zeroPaddedInt_length_iff (by decide)).mpr (fits_id hp), (counted_length_iff (by decide)).mpr hdescr]
  omega

theorem sampleLine_length_le (hp : p ∈ listedSamples bank) :
    0 < (sampleLine p.1 p.2).length ∧ (sampleLine p.1 p.2).length < 100 := by
  have hlen := sampleLine_length hp
  obtain ⟨hstart, hend⟩ := p.2.frames_length_le
  have hdescr := p.2.descr_lt
  rw [sampleMaxDescrLen] at hdescr
  omega

theorem sampleLine_no_zero (p : ℤ × SampleInfo) : (0 : UInt8) ∉ sampleLine p.1 p.2 := by
  rw [sampleLine, List.mem_append, List.mem_append, List.mem_append, not_or, not_or, not_or]
  exact ⟨zeroPaddedInt_no_zero _ _, zeroPaddedInt_no_zero _ _, zeroPaddedInt_no_zero _ _,
    counted_no_zero p.2.descr_text⟩

/-- A line is one record of the list. -/
theorem sampleLine_line (hp : p ∈ listedSamples bank) : Line 300 (sampleLine p.1 p.2) := by
  obtain ⟨hpos, hlt⟩ := sampleLine_length_le hp
  exact ⟨List.ne_nil_of_length_pos (by omega), by omega, by omega, sampleLine_no_zero p⟩

/-- **A line is taken apart** into what it was made of. -/
theorem parseSample_sampleLine (utf8 : CStr → Option CStr) (hp : p ∈ listedSamples bank) (hf : p.2.FramesFit) :
    parseSample utf8 (sampleLine p.1 p.2) = .ok [sampleRow utf8 p] := by
  have hid := fits_id hp
  have hstart := hf.startFrame
  have hend := hf.endFrame
  have hdescr := p.2.descr_lt
  rw [sampleMaxDescrLen] at hdescr
  have hint : ∀ {w : ℕ} {z : ℤ}, w ≤ 9 → Fits w z → -2 ^ 31 ≤ z ∧ z < 2 ^ 31 := by
    intro w z hw hz
    obtain ⟨hlo, hhi⟩ := hz
    have h1 : (10 : ℤ) ^ w ≤ 10 ^ 9 := pow_le_pow_right₀ (by norm_num) hw
    have h2 : (10 : ℤ) ^ (w - 1) ≤ 10 ^ 9 := pow_le_pow_right₀ (by norm_num) (by omega)
    exact ⟨by omega, by omega⟩
  have hscan : scanFields [5, 9, 9, 3] (sampleLine p.1 p.2) =
      [p.1, p.2.startFrame, p.2.endFrame, (p.2.descr.length : ℤ)] := by
    rw [sampleLine, scanFields_cons (by decide) hid (hint (by decide) hid),
      scanFields_cons (by decide) hstart (hint (by decide) hstart),
      scanFields_cons (by decide) hend (hint (by decide) hend), counted,
      scanFields_cons_nat (by decide) (by omega) (by omega)]
    rfl
  have hdrop : (sampleLine p.1 p.2).drop (5 + 9 + 9 + 3) = p.2.descr := by
    have hfront : (zeroPaddedInt 5 p.1 ++ (zeroPaddedInt 9 p.2.startFrame ++ (zeroPaddedInt 9 p.2.endFrame ++
        zeroPadded 3 p.2.descr.length))).length = 5 + 9 + 9 + 3 := by
      rw [List.length_append, List.length_append, List.length_append,
        (zeroPaddedInt_length_iff (by decide)).mpr hid, (zeroPaddedInt_length_iff (by decide)).mpr hstart,
        (zeroPaddedInt_length_iff (by decide)).mpr hend, zeroPadded_length (by decide) (by omega)]
    have hsplit : sampleLine p.1 p.2 = (zeroPaddedInt 5 p.1 ++ (zeroPaddedInt 9 p.2.startFrame ++
        (zeroPaddedInt 9 p.2.endFrame ++ zeroPadded 3 p.2.descr.length))) ++ p.2.descr := by
      rw [sampleLine, counted]
      simp only [List.append_assoc]
    rw [hsplit]
    exact List.drop_left' hfront
  have hcopy := @copyInto_append 255 p.2.descr [] (by omega) p.2.descr_text
  rw [List.append_nil] at hcopy
  rw [parseSample, hscan, hdrop]
  show (copyInto 255 p.2.descr p.2.descr.length >>= _) = _
  rw [hcopy]
  rfl

end Listed

/-- What the loop appends for the live samples. -/
def sampleRecords (bank : SampleBank) : CStr := (listedSamples bank).flatMap fun p => counted 3 (sampleLine p.1 p.2)

theorem sampleRecords_length (bank : SampleBank) : (sampleRecords bank).length = sampleBytes bank := by
  rw [sampleRecords, List.length_flatMap, sampleBytes]
  refine congrArg List.sum (List.map_congr_left fun p hp => ?_)
  have hlen := sampleLine_length hp
  have hlt := (sampleLine_length_le hp).2
  show (counted 3 (sampleLine p.1 p.2)).length = _
  rw [(counted_length_iff (by decide)).mpr (by omega), hlen]
  omega

/-- **One sample after the other** is appended. -/
theorem foldlM_appendSample (bank : SampleBank) (ids : List ℤ) (buf : CStr) :
    ids.foldlM (appendSample bank) buf =
      ((ids.filterMap fun i => (bank.sample i).map fun s => (i, s)).map
        fun p => counted 3 (sampleLine p.1 p.2)).foldlM (appendInto sendBuf) buf := by
  induction ids generalizing buf with
  | nil => rfl
  | cons i ids ih =>
    cases hs : bank.sample i with
    | none =>
      have hstep : appendSample bank buf i = .ok buf := by rw [appendSample, hs]
      rw [List.foldlM_cons, hstep, List.filterMap_cons_none (by rw [hs]; rfl)]
      exact ih buf
    | some s =>
      have hp : (i, s) ∈ listedSamples bank := mem_listedSamples.mpr hs
      have hlt : (sampleLine i s).length < 100 := (sampleLine_length_le hp).2
      have hcmd : (sampleLine i s).length < 512 := by omega
      have hline : (counted 3 (sampleLine i s)).length < 400 := by
        rw [(counted_length_iff (by decide)).mpr (by omega)]
        omega
      have hstep : appendSample bank buf i = appendInto sendBuf buf (counted 3 (sampleLine i s)) := by
        rw [appendSample, hs]
        show (printInto 512 _ >>= _) = _
        rw [printInto_of_lt hcmd, ok_bind, printInto_of_lt hline, ok_bind]
      rw [List.foldlM_cons, hstep, List.filterMap_cons_some (by rw [hs]; rfl), List.map_cons, List.foldlM_cons]
      congr 1
      funext b
      exact ih b

/-- **The reply**, where it fits the buffers. -/
theorem vjEventSendSampleList_iff {bank : SampleBank} {reply : CStr} :
    vjEventSendSampleList bank 0 = .ok reply ↔
      sampleBytes bank + 8 < sendBuf ∧ reply = counted 8 (sampleRecords bank) := by
  have hlen := sampleRecords_length bank
  have hsize : sampleBytes bank + 8 < sendBuf → (counted 8 (sampleRecords bank)).length =
      8 + sampleBytes bank := by
    intro h
    rw [sendBuf] at h
    rw [(counted_length_iff (by decide)).mpr (by rw [hlen]; omega), hlen]
  rw [vjEventSendSampleList]
  by_cases hn : 1 < bank.sampleSize
  · rw [if_pos hn, bind_eq_ok]
    have hloop : ∀ buf, (sampleIds 1 bank.sampleSize).foldlM (appendSample bank) [] = .ok buf ↔
        sampleBytes bank < sendBuf ∧ buf = sampleRecords bank := by
      intro buf
      rw [foldlM_appendSample, foldlM_appendInto _ (by rw [sendBuf]; decide), List.nil_append, ← List.flatMap_def]
      show (sampleRecords bank).length < sendBuf ∧ _ ↔ _
      rw [hlen]
      rfl
    constructor
    · rintro ⟨buf, hbuf, hprint⟩
      obtain ⟨hlt, rfl⟩ := (hloop buf).mp hbuf
      obtain ⟨hfit, rfl⟩ := printInto_eq_ok.mp hprint
      have hle := le_counted_length 8 (sampleRecords bank)
      rw [hlen] at hle
      exact ⟨by omega, rfl⟩
    · rintro ⟨hfit, rfl⟩
      refine ⟨_, (hloop _).mpr ⟨by omega, rfl⟩, printInto_of_lt ?_⟩
      rw [hsize hfit]
      omega
  · have hnone : listedSamples bank = [] := by
      apply List.eq_nil_iff_forall_not_mem.mpr
      intro p hp
      have := bank.known p.1 p.2 (mem_listedSamples.mp hp)
      omega
    have hrecords : sampleRecords bank = [] := by rw [sampleRecords, hnone]; rfl
    have hbytes : sampleBytes bank = 0 := by rw [sampleBytes, hnone]; rfl
    have hzero : counted 8 [] = lit "00000000" := by decide
    rw [if_neg hn, hrecords, hbytes, hzero, printInto_of_lt (by rw [sendBuf]; decide)]
    constructor
    · intro h
      exact ⟨by rw [sendBuf]; decide, (Except.ok.inj h).symm⟩
    · rintro ⟨-, rfl⟩
      rfl

/-- The list of samples comes through: the reply stays inside its buffers, its prefix is the number of bytes that
follow, and the client reads the samples from it. -/
def SampleListRecovered (utf8 : CStr → Option CStr) (bank : SampleBank) : Prop :=
  ∃ reply fxtext, vjEventSendSampleList bank 0 = .ok reply ∧ Framed 8 reply ∧ recvVims 8 reply = some (fxtext, []) ∧
    ∀ fuel, reply.length ≤ fuel →
      loadSamplelistInfo utf8 fuel fxtext = .ok ((listedSamples bank).map (sampleRow utf8))

/-- **The list of samples** comes through exactly where it fits the buffer. -/
theorem sampleList_iff {bank : SampleBank} (hf : ∀ p ∈ listedSamples bank, p.2.FramesFit)
    (utf8 : CStr → Option CStr) : SampleListRecovered utf8 bank ↔ sampleBytes bank + 8 < sendBuf := by
  have hlen := sampleRecords_length bank
  constructor
  · rintro ⟨reply, -, hsend, -⟩
    exact (vjEventSendSampleList_iff.mp hsend).1
  · intro hfit
    have hbody : (sampleRecords bank).length < 10 ^ 8 := by
      rw [sendBuf] at hfit
      rw [hlen]
      omega
    have hrecv := recvVims_framed (by decide) (by decide) hbody []
    rw [List.append_nil] at hrecv
    refine ⟨_, _, vjEventSendSampleList_iff.mpr ⟨hfit, rfl⟩, ⟨_, hbody, rfl⟩, hrecv, ?_⟩
    intro fuel hfuel
    have hitems : (listedSamples bank).length ≤ (sampleRecords bank).length :=
      length_le_records (listedSamples bank) fun p => sampleLine p.1 p.2
    have hle := le_counted_length 8 (sampleRecords bank)
    have hload : loadRecords 300 (parseSample utf8) fuel (sampleRecords bank) =
        .ok ((listedSamples bank).map (sampleRow utf8)) := by
      rw [sampleRecords, loadRecords_counted (fun p hp => sampleLine_line hp)
        (fun p hp => parseSample_sampleLine utf8 hp (hf p hp)) (by omega)]
      exact congrArg Except.ok (List.flatMap_pure_eq_map (sampleRow utf8) _)
    rw [received]
    by_cases hempty : sampleRecords bank = []
    · rw [if_pos hempty]
      have hnone : listedSamples bank = [] := by
        rw [hempty] at hitems
        exact List.length_eq_zero_iff.mp (Nat.le_zero.mp hitems)
      rw [hnone]
      rfl
    · rw [if_neg hempty]
      exact hload

/-! ## The list of sequences -/

/-- A slot in the list: the first four bytes of its number. -/
def slotText (id : ℤ) : CStr := (zeroPaddedInt 4 id).take 4

/-- The text of the list: the position, the number of slots and the switch, and the slots. -/
def sequenceBody (seq : Sequencer) : CStr :=
  zeroPaddedInt 4 seq.current ++ (zeroPaddedInt 4 maxSequences ++ zeroPaddedInt 4 seq.active) ++
    (seq.samples.map slotText).flatten

/-- What the client reads of a slot. -/
def slotValue (id : ℤ) : ℤ := digitsValue (slotText id)

theorem slotText_length (id : ℤ) : (slotText id).length = 4 := by
  rw [slotText, List.length_take]
  exact Nat.min_eq_left (le_zeroPaddedInt_length 4 id)

theorem slotText_digits {id : ℤ} (hid : 0 ≤ id) : ∀ c ∈ slotText id, isDigit c = true := by
  intro c hc
  rw [slotText, zeroPaddedInt, if_neg (by omega)] at hc
  exact isDigit_of_mem_zeroPadded (List.mem_of_mem_take hc)

theorem slotTexts_length (ids : List ℤ) : (ids.map slotText).flatten.length = 4 * ids.length := by
  induction ids with
  | nil => rfl
  | cons id ids ih =>
    rw [List.map_cons, List.flatten_cons, List.length_append, slotText_length, ih, List.length_cons]
    omega

/-- A slot is read as it is **where its number has four digits**; -/
theorem slotValue_of_lt {id : ℤ} (hid : 0 ≤ id) (hlt : id < 10 ^ 4) : slotValue id = id := by
  obtain ⟨n, rfl⟩ := Int.eq_ofNat_of_zero_le hid
  have hn : n < 10 ^ 4 := by exact_mod_cast hlt
  have hlen := zeroPadded_length (w := 4) (by decide) hn
  rw [slotValue, slotText, zeroPaddedInt_of_nat, List.take_of_length_le (Nat.le_of_eq hlen), digitsValue_zeroPadded]

/-- **otherwise it is read as another sample.** -/
theorem slotValue_of_le {id : ℤ} (hle : 10 ^ 4 ≤ id) : 0 < slotValue id ∧ slotValue id < id := by
  obtain ⟨n, rfl⟩ := Int.eq_ofNat_of_zero_le (show 0 ≤ id by omega)
  have hn : 10 ^ 4 ≤ n := by exact_mod_cast hle
  rw [slotValue, slotText, zeroPaddedInt_of_nat]
  exact ⟨by exact_mod_cast zeroPadded_take_pos (by decide) hn, by exact_mod_cast zeroPadded_take_lt hn⟩

theorem slotLabel_slotValue_iff {id : ℤ} (hid : 0 ≤ id) : slotLabel (slotValue id) = slotLabel id ↔ id < 10 ^ 4 := by
  constructor
  · intro h
    by_contra hge
    obtain ⟨hpos, hlt⟩ := slotValue_of_le (show 10 ^ 4 ≤ id by omega)
    rw [slotLabel, slotLabel, if_pos hpos, if_pos (by omega), Option.some.injEq] at h
    omega
  · intro hlt
    rw [slotValue_of_lt hid hlt]

section Sequences

variable {seq : Sequencer}

theorem sequenceHead_length (seq : Sequencer) :
    (zeroPaddedInt 4 seq.current ++ (zeroPaddedInt 4 maxSequences ++ zeroPaddedInt 4 seq.active)).length = 12 := by
  have hmax : (maxSequences : ℤ) = 100 := rfl
  have hplay := seq.playing
  have hcur : Fits 4 seq.current := ⟨by norm_num; omega, by norm_num; omega⟩
  have hactive : Fits 4 seq.active := by
    rcases seq.switch with h | h
    · rw [h]; decide
    · rw [h]; decide
  rw [List.length_append, List.length_append, (zeroPaddedInt_length_iff (by decide)).mpr hcur,
    (zeroPaddedInt_length_iff (by decide)).mpr hactive,
    (zeroPaddedInt_length_iff (by decide)).mpr (show Fits 4 maxSequences by decide)]

theorem sequenceBody_length (seq : Sequencer) : (sequenceBody seq).length = 12 + 4 * maxSequences := by
  rw [sequenceBody, List.length_append, sequenceHead_length, slotTexts_length, seq.slots]

/-- **The reply** fits its buffer, whatever the slots hold. -/
theorem vjEventGetSampleSequences_eq (h : 0 < seq.size) :
    vjEventGetSampleSequences seq = .ok (counted 6 (sequenceBody seq)) := by
  have hhead := sequenceHead_length seq
  have hsix : zeroPaddedInt 6 (12 + 4 * maxSequences) = zeroPadded 6 (sequenceBody seq).length := by
    rw [sequenceBody_length, ← zeroPaddedInt_of_nat]
    push_cast
    rfl
  have hsixlen : (zeroPadded 6 (sequenceBody seq).length).length = 6 := by
    rw [sequenceBody_length]
    exact zeroPadded_length (by decide) (by decide)
  have hbuf : sequenceBuf = 432 := rfl
  rw [vjEventGetSampleSequences, if_neg (by omega), hsix, printInto_of_lt (by
    rw [List.length_append, hsixlen, hhead, hbuf]
    decide), ok_bind]
  have hloop := (@foldlM_appendInto sequenceBuf (seq.samples.map slotText)
    (zeroPadded 6 (sequenceBody seq).length ++
      (zeroPaddedInt 4 seq.current ++ (zeroPaddedInt 4 maxSequences ++ zeroPaddedInt 4 seq.active))) _
    (by rw [List.length_append, hsixlen, hhead, hbuf]; decide)).mpr ⟨by
      rw [List.length_append, List.length_append, hsixlen, hhead, slotTexts_length, seq.slots, hbuf]
      decide, rfl⟩
  rw [List.foldlM_map] at hloop
  rw [counted]
  refine hloop.trans ?_
  rw [List.append_assoc]
  rfl

/-- **One slot** of the list. -/
theorem nextSlot_slotText {id : ℤ} (hid : 0 ≤ id) {front : CStr} {done : List (Option ℤ)}
    (hfront : front.length = 12 + 4 * done.length) (rest : CStr) (old : Option ℤ) (left : List (Option ℤ)) :
    nextSlot (front ++ (slotText id ++ rest)) ⟨4 * done.length, done.length, done ++ old :: left⟩ =
      .ok ⟨4 * (done.length + 1 : ℕ), done.length + 1, (done ++ [slotLabel (slotValue id)]) ++ left⟩ := by
  have hlen := slotText_length id
  have hfrom : textFrom (front ++ (slotText id ++ rest)) (12 + 4 * done.length) = .ok (slotText id ++ rest) := by
    have h := textFrom_append front (slotText id ++ rest)
    rw [hfront] at h
    exact_mod_cast h
  have hval : slotValue id < 2 ^ 31 := by
    have h := digitsValue_lt (slotText_digits hid)
    rw [hlen] at h
    rw [slotValue]
    omega
  have hscan : scanFields [4] (slotText id ++ rest) = [slotValue id] := by
    rw [scanFields, scanField_digits (List.ne_nil_of_length_pos (by omega)) (slotText_digits hid) (by omega)
      (.inl hlen.symm)]
    show [intValue (slotValue id)] = _
    rw [intValue_of_fits (by rw [slotValue]; omega) hval]
  rw [nextSlot, hfrom]
  show (if done.length < (done ++ old :: left).length then _ else _) = _
  rw [hscan, if_pos (by rw [List.length_append, List.length_cons]; omega)]
  show Except.ok _ = Except.ok _
  rw [List.set_append_right _ _ (Nat.le_refl _), Nat.sub_self, List.append_assoc]
  push_cast
  congr 2

/-- **The slots of the list**, from one of them on. -/
theorem whileLoop_slots {text : CStr} {ids : List ℤ} (hids : ∀ id ∈ ids, 0 ≤ id) {front : CStr}
    (htext : text = front ++ (ids.map slotText).flatten) {done left : List (Option ℤ)}
    (hfront : front.length = 12 + 4 * done.length) (hleft : left.length = ids.length) {fuel : ℕ}
    (hfuel : ids.length ≤ fuel) :
    whileLoop (fun s : SlotCursor => decide (s.offset < (text.length : ℤ) - 12)) (nextSlot text) fuel
      ⟨4 * done.length, done.length, done ++ left⟩ =
      .ok ⟨4 * (done.length + ids.length : ℕ), done.length + ids.length,
        done ++ ids.map fun id => slotLabel (slotValue id)⟩ := by
  induction ids generalizing front done left fuel with
  | nil =>
    obtain rfl := List.length_eq_zero_iff.mp hleft
    obtain rfl : text = front := htext.trans (List.append_nil front)
    have hcond : decide (4 * (done.length : ℤ) < (text.length : ℤ) - 12) = false := decide_eq_false (by omega)
    rw [whileLoop_of_false (by exact hcond)]
    rfl
  | cons id ids ih =>
    obtain ⟨fuel, rfl⟩ : ∃ f, fuel = f + 1 := ⟨fuel - 1, by rw [List.length_cons] at hfuel; omega⟩
    obtain ⟨old, left, rfl⟩ := List.exists_cons_of_length_pos (show 0 < left.length by rw [hleft]; exact Nat.succ_pos _)
    have hid := hids id List.mem_cons_self
    rw [List.map_cons, List.flatten_cons] at htext
    have hcond : decide (4 * (done.length : ℤ) < (text.length : ℤ) - 12) = true := by
      rw [htext, List.length_append, List.length_append, slotText_length, hfront]
      exact decide_eq_true (by push_cast; omega)
    have hstep := nextSlot_slotText hid hfront (ids.map slotText).flatten old left
    rw [← htext] at hstep
    rw [whileLoop_succ_of_true (by exact hcond), hstep, ok_bind]
    have hdone : (done ++ [slotLabel (slotValue id)]).length = done.length + 1 := by
      rw [List.length_append, List.length_singleton]
    have hnext : text = (front ++ slotText id) ++ (ids.map slotText).flatten := by rw [htext, List.append_assoc]
    have hplace : (front ++ slotText id).length = 12 + 4 * (done ++ [slotLabel (slotValue id)]).length := by
      rw [List.length_append, hfront, slotText_length, hdone]
      omega
    have hrest := ih (fun i hi => hids i (List.mem_cons_of_mem _ hi)) hnext hplace (Nat.succ.inj hleft)
      (Nat.le_of_succ_le_succ hfuel)
    rw [hdone] at hrest
    rw [hrest, List.map_cons, List.append_assoc, List.length_cons]
    congr 2
    · push_cast
      ring
    · omega

end Sequences

/-- The list of sequences comes through: the reply stays inside its buffer, its prefix is the number of bytes that
follow, and the labels of the client are those of the slots. -/
def SequenceListRecovered (seq : Sequencer) (labels : List (Option ℤ)) : Prop :=
  ∃ reply text, vjEventGetSampleSequences seq = .ok reply ∧ Framed 6 reply ∧ recvVims 6 reply = some (text, []) ∧
    ∀ fuel, reply.length ≤ fuel → loadSequenceList fuel labels text = .ok (seq.samples.map slotLabel)

/-- **The list of sequences** comes through exactly where its ids fit their fields; where it is empty, the labels stay
as they are. -/
theorem sequenceList_iff (seq : Sequencer) {labels : List (Option ℤ)} (hlabels : labels.length = maxSequences) :
    SequenceListRecovered seq labels ↔
      (0 < seq.size ∧ ∀ id ∈ seq.samples, id < 10 ^ 4) ∨ (seq.size ≤ 0 ∧ ∀ l ∈ labels, l = none) := by
  by_cases hsize : 0 < seq.size
  · have hsend := vjEventGetSampleSequences_eq hsize
    have hbody : (sequenceBody seq).length < 10 ^ 6 := by
      rw [sequenceBody_length]
      decide
    have hne : sequenceBody seq ≠ [] := List.ne_nil_of_length_pos (by rw [sequenceBody_length]; decide)
    have hrecv := recvVims_framed (by decide) (by decide) hbody []
    rw [List.append_nil, received, if_neg hne] at hrecv
    have hload : ∀ fuel, (counted 6 (sequenceBody seq)).length ≤ fuel →
        loadSequenceList fuel labels (some (sequenceBody seq)) =
          .ok (seq.samples.map fun id => slotLabel (slotValue id)) := by
      intro fuel hfuel
      have hle := le_counted_length 6 (sequenceBody seq)
      have hlen := sequenceBody_length seq
      have hslots := seq.slots
      have hmax : maxSequences = 100 := rfl
      have hrun := @whileLoop_slots (sequenceBody seq) seq.samples seq.ids _ rfl [] labels (sequenceHead_length seq)
        (hlabels.trans hslots.symm) fuel (by omega)
      rw [loadSequenceList]
      refine (congrArg (fun x => x >>= fun s : SlotCursor => Except.ok s.labels) hrun).trans ?_
      rfl
    constructor
    · rintro ⟨reply, text, hreply, -, htext, hall⟩
      rw [hsend] at hreply
      obtain rfl := Except.ok.inj hreply
      rw [hrecv] at htext
      obtain rfl : some (sequenceBody seq) = text := congrArg Prod.fst (Option.some.inj htext)
      have heq := Except.ok.inj ((hload _ (Nat.le_refl _)).symm.trans (hall _ (Nat.le_refl _)))
      refine .inl ⟨hsize, fun id hid => ?_⟩
      exact (slotLabel_slotValue_iff (seq.ids id hid)).mp (List.map_inj_left.mp heq id hid)
    · rintro (⟨-, hids⟩ | ⟨hle, -⟩)
      · refine ⟨_, _, hsend, ⟨_, hbody, rfl⟩, hrecv, fun fuel hfuel => (hload fuel hfuel).trans ?_⟩
        congr 1
        exact List.map_congr_left fun id hid => (slotLabel_slotValue_iff (seq.ids id hid)).mpr (hids id hid)
      · omega
  · have hsend : vjEventGetSampleSequences seq = .ok (counted 6 []) := by
      rw [vjEventGetSampleSequences, if_pos (by omega)]
      rfl
    have hrecv := @recvVims_framed 6 [] (by decide) (by decide) (by decide) []
    rw [List.append_nil] at hrecv
    have hslots : seq.samples.map slotLabel = List.replicate maxSequences none := by
      rw [List.eq_replicate_iff]
      refine ⟨by rw [List.length_map, seq.slots], fun l hl => ?_⟩
      obtain ⟨id, hid, rfl⟩ := List.mem_map.mp hl
      rw [seq.empty (by omega) id hid]
      rfl
    constructor
    · rintro ⟨reply, text, hreply, -, htext, hall⟩
      rw [hsend] at hreply
      obtain rfl := Except.ok.inj hreply
      rw [hrecv] at htext
      obtain rfl : none = text := congrArg Prod.fst (Option.some.inj htext)
      have heq : labels = List.replicate maxSequences none := by
        rw [← hslots]
        exact Except.ok.inj (hall _ (Nat.le_refl _))
      refine .inr ⟨by omega, fun l hl => ?_⟩
      rw [heq] at hl
      exact List.eq_of_mem_replicate hl
    · rintro (⟨hpos, -⟩ | ⟨-, hnone⟩)
      · exact absurd hpos hsize
      · refine ⟨_, _, hsend, ⟨[], by decide, rfl⟩, hrecv, fun fuel _ => ?_⟩
        rw [hslots, ← hlabels]
        exact congrArg Except.ok (List.eq_replicate_iff.mpr ⟨rfl, hnone⟩)

/-- **Both lists are recovered** exactly where the list of samples fits its buffer and the ids in the sequencer fit
their fields; an empty sequencer leaves the labels as they are. -/
theorem lists_recovered_iff (utf8 : CStr → Option CStr) (bank : SampleBank)
    (hframes : ∀ i s, bank.sample i = some s → s.FramesFit) (seq : Sequencer) (labels : List (Option ℤ))
    (hlabels : labels.length = maxSequences) :
    (SampleListRecovered utf8 bank ∧ SequenceListRecovered seq labels) ↔
      sampleBytes bank + 8 < sendBuf ∧
        ((0 < seq.size ∧ ∀ id ∈ seq.samples, id < 10 ^ 4) ∨ (seq.size ≤ 0 ∧ ∀ l ∈ labels, l = none)) := by
  have hsamples := @sampleList_iff bank (fun p hp => hframes p.1 p.2 (mem_listedSamples.mp hp)) utf8
  rw [hsamples, sequenceList_iff seq hlabels]

/-- A sample of 25 frames. -/
def introSample : SampleInfo where
  firstFrame := 0
  lastFrame := 24
  markerStart := 0
  markerEnd := 0
  descr := lit "intro"
  descr_lt := by decide
  descr_text := by decide

/-- A bank with that sample, under the id `i`. -/
def introBank (i : ℤ) (hi : 0 < i ∧ i < sampleMaxSamples) : SampleBank where
  sampleSize := i + 1
  sample j := if j = i then some introSample else none
  known j s hs := by
    split_ifs at hs with hj
    omega

/-- A sequencer that plays the sample `i` from its first slot. -/
def introSequencer (i : ℤ) (hi : 0 < i) : Sequencer where
  current := 0
  size := 1
  active := 1
  samples := i :: List.replicate 99 0
  slots := rfl
  ids j hj := by
    rcases List.mem_cons.mp hj with rfl | hj
    · exact hi.le
    · exact (List.eq_of_mem_replicate hj).ge
  playing := by decide
  switch := .inr rfl
  empty h := absurd h (by decide)

theorem introBank_frames {i : ℤ} (hi : 0 < i ∧ i < sampleMaxSamples) :
    ∀ j s, (introBank i hi).sample j = some s → s.FramesFit := by
  intro j s hs
  change (if j = i then some introSample else none) = some s at hs
  split_ifs at hs
  obtain rfl := Option.some.inj hs
  exact ⟨by decide, by decide, by decide, by decide⟩

/-- A small bank and its sequence are recovered; -/
theorem lists_recovered_intro :
    SampleListRecovered some (introBank 3 (by decide)) ∧
      SequenceListRecovered (introSequencer 3 (by decide)) (List.replicate 100 none) :=
  (lists_recovered_iff some (introBank 3 (by decide)) (introBank_frames _) (introSequencer 3 (by decide))
    (List.replicate 100 none) rfl).mpr ⟨by decide, .inl ⟨by decide, by decide⟩⟩

/-- a sample with a number of five digits is not. -/
theorem lists_lost_late :
    ¬ (SampleListRecovered some (introBank 10000 (by decide)) ∧
      SequenceListRecovered (introSequencer 10000 (by decide)) (List.replicate 100 none)) := by
  rintro ⟨-, h⟩
  rcases (sequenceList_iff (introSequencer 10000 (by decide)) rfl).mp h with ⟨-, hids⟩ | ⟨hsize, -⟩
  · exact absurd (hids 10000 List.mem_cons_self) (by decide)
  · exact absurd hsize (by decide)

end Veejay.Client
