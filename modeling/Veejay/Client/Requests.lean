import Veejay.CLib.Memory
import Veejay.Client.EffectList
import Veejay.Client.SampleList
import Veejay.Sample.Mixing

/-!
# Requests and replies

The client sends a request and reads the reply from the same socket, with a number of digits that it knows; what it
leaves there is read as the beginning of the next reply.

* `ServerState`, `serverReply` — what the server sends for a request, in any state of it;
* `clientRead`, `exchange`, `exchanges` — what the client reads of it, and a sequence of requests;
* `Answerable` — the states in which a request is answered as the client expects;
* `requests_in_step` — **in every sequence of answerable requests** each reply is well framed and read to its end.
-/

namespace Veejay.Client

open CLib Samples

/-! ## The server -/

/-- The playback modes. -/
inductive PlaybackMode where
  | sample
  | tag
  | plain
  | pattern
  | mem
  deriving DecidableEq

/-- An entry of an effect chain, as far as it is sent. -/
structure ChainEntry where
  effectId : Int32
  kfType : Int32
  kfStatus : Int32
  source : Int32
  channel : Int32
  status : Int32
  arg : ℕ → Int32

/-- The effect chain of a sample or of a stream. -/
structure EffectChain where
  selectedEntry : Int32
  entries : List ChainEntry
  slots : entries.length = sampleMaxEffects

/-- A stream, as far as it is sent: its properties, where it is a capture device, and its calibration buffer. -/
structure Tag where
  v4l : Bool
  brightness : Int32
  contrast : Int32
  hue : Int32
  color : Int32
  white : Int32
  blackframe : Option (List UInt8)

/-- What the answers depend on. -/
structure ServerState where
  effects : EffectTable
  bank : SampleBank
  sequencer : Sequencer
  /-- `uc->playback_mode`, and the mode of the link -/
  playbackMode : PlaybackMode
  rmode : PlaybackMode
  /-- `uc->sample_id` -/
  sampleId : Int32
  sampleChain : Int32 → Option EffectChain
  tagChain : Int32 → Option EffectChain
  /-- `vj_effect_get_extra_frame`, `vj_effect_get_num_params` -/
  extraFrame : Int32 → Int32
  numParams : Int32 → ℕ
  numParams_le : ∀ id, numParams id ≤ sampleMaxParameters
  tagSize : Int32
  tag : Int32 → Option Tag
  /-- the pixels and the chroma samples of a captured frame, and the size of the output -/
  len : ℕ
  uvLen : ℕ
  outputWidth : Int32
  outputHeight : Int32
  blackframe_length : ∀ id t buf, tag id = some t → t.blackframe = some buf → buf.length = 5 * (len + 2 * uvLen)

/-- A number, printed with `%d`. -/
def printed (x : Int32) : CStr := decimalInt x.toInt

/-- An entry of a chain: the numbers of it, and the arguments of the effect. -/
def appendEntry (st : ServerState) (e : ChainEntry) (line : CStr) : Exec CStr := do
  let n := st.numParams e.effectId
  let param : ℕ → Int32 := fun p => if p < n then e.arg p else 0
  let line ← appendInto 1024 line (printed e.effectId ++ lit " " ++ printed (st.extraFrame e.effectId) ++ lit " " ++
    decimal n ++ lit " " ++ printed e.kfType ++ lit " 0 0 " ++ printed e.kfStatus ++ lit " " ++ printed e.source ++
    lit " " ++ printed e.channel ++ lit " " ++ printed e.status ++ lit " 0 ")
  let line ← (List.range (n - 1)).foldlM (fun line p => appendInto 1024 line (printed (param p) ++ lit " ")) line
  appendInto 1024 line (printed (param (n - 1)))

/-- The text so far, the arguments, and whether nothing has been found yet. -/
structure EntryReply where
  id : Int32
  entry : Int32
  line : CStr
  error : Bool

/-- What `vj_event_send_chain_entry` does while samples play, and, with the chains of the streams, while streams do. -/
def sendEntryOf (st : ServerState) (playing : Bool) (chain : Int32 → Option EffectChain) (r : EntryReply) :
    Exec EntryReply :=
  if playing then
    let id := if r.id = 0 then st.sampleId else r.id
    let entry := if r.entry = -1 then ((chain id).map EffectChain.selectedEntry).getD (-1) else r.entry
    match chain id with
    | none => .ok { r with id := id, entry := entry }
    | some c =>
      if entry < 0 then .error .outOfBounds
      else
        match c.entries[entry.toInt.toNat]? with
        | none => .error .outOfBounds
        | some e =>
          if 0 < e.effectId then do
            let line ← appendEntry st e r.line
            .ok ⟨id, entry, line, false⟩
          else .ok { r with id := id, entry := entry }
  else .ok r

/-- `vj_event_send_chain_entry` -/
def vjEventSendChainEntry (st : ServerState) (id entry : Int32) : Exec CStr := do
  let samplePlaying := decide (st.playbackMode = .sample) || decide (st.rmode = .sample)
  let streamPlaying := decide (st.playbackMode = .tag) || decide (st.rmode = .tag)
  let r ← sendEntryOf st samplePlaying st.sampleChain ⟨id, entry, zeroPadded 3 0, true⟩
  let r ← sendEntryOf st streamPlaying st.tagChain r
  if r.error then .ok r.line else printInto 1024 (counted 3 r.line)

/-- `vj_tag_get_v4l_properties`: its result, and the values, which only a capture device sets. -/
def vjTagGetV4lProperties (t : Tag) : ℤ × List Int32 :=
  if t.v4l then (0, [t.brightness, t.contrast, t.hue, t.color, t.white, 0]) else (-1, [0, 0, 0, 0, 0, 0])

/-- `vj_event_v4l_get_info` -/
def vjEventV4lGetInfo (st : ServerState) (id : Int32) : Exec CStr :=
  let id := if id = 0 then st.sampleId else id
  let id := if id = -1 then st.tagSize - 1 else id
  match st.tag id with
  | none => .ok (lit "000")
  | some t =>
    if (vjTagGetV4lProperties t).1 ≠ 0 then
      let message := ((vjTagGetV4lProperties t).2.map fun x => zeroPaddedInt 5 x.toInt).flatten.take 127
      printInto 128 (counted 3 message)
    else .ok (lit "000")

/-- `cali_get`: the frame of a kind, in the calibration buffer. -/
def caliGet (st : ServerState) (t : Tag) (type : ℕ) : Exec (Option (List UInt8)) :=
  match t.blackframe with
  | none => if type = 0 then .ok none else .error .wildPointer
  | some buf => do
    let frame ← slice buf (type * (st.len + 2 * st.uvLen)) st.len
    .ok (some frame)

/-- `vj_event_get_cali_image` -/
def vjEventGetCaliImage (st : ServerState) (id type : Int32) : Exec (List UInt8) :=
  match st.tag id with
  | none => .ok (lit "000000000")
  | some t =>
    if t.v4l = false ∨ type < 0 ∨ 2 < type then .ok (lit "000000000")
    else do
      match ← caliGet st t type.toInt.toNat with
      | none => .ok (lit "00000000")
      | some buf =>
        let header := zeroPadded 3 (8 + 6 + 6 + 6 + 6) ++ zeroPadded 8 st.len ++ zeroPadded 6 st.len ++ zeroPadded 6 0 ++
          zeroPaddedInt 6 st.outputWidth.toInt ++ zeroPaddedInt 6 st.outputHeight.toInt
        .ok (header.take 63 ++ buf)

/-! ## The client -/

/-- The requests: the client asks for the entry that is selected in it, which is one of the chain. -/
inductive Request where
  | effectList
  | sampleList
  | sequenceList
  | chainEntry (entry : Fin sampleMaxEffects)
  | v4lProperties (id : Int32)
  | calibrationImage (id type : Int32)

/-- The reply of the server. -/
def serverReply (st : ServerState) : Request → Exec (List UInt8)
  | .effectList => vjEventSendEffectList st.effects
  | .sampleList => vjEventSendSampleList st.bank 0
  | .sequenceList => vjEventGetSampleSequences st.sequencer
  | .chainEntry entry => vjEventSendChainEntry st 0 (Int32.ofNat entry)
  | .v4lProperties id => vjEventV4lGetInfo st id
  | .calibrationImage id type => vjEventGetCaliImage st id type

/-- The digits that the client reads first. -/
def digits : Request → ℕ
  | .effectList => 6
  | .sampleList => 8
  | .sequenceList => 6
  | .chainEntry _ => 3
  | .v4lProperties _ => 3
  | .calibrationImage _ _ => 3

/-- The numbers in the header of a calibration image. -/
def caliHeader (buf : CStr) : List ℤ := scanFields [8, 6, 6, 6, 6] buf

/-- `get_and_draw_frame`: the bytes that it leaves; it reads the image into a buffer of the second number's size. -/
def getAndDrawFrame (wire : List UInt8) : Exec (Option (List UInt8)) :=
  match recvVims 3 wire with
  | none => .ok none
  | some (none, wire) => .ok (some wire)
  | some (some buf, wire) =>
    if (caliHeader buf).length ≠ 5 then .ok (some wire)
    else if (caliHeader buf).getD 1 0 < (caliHeader buf).getD 0 0 then .error .overrun
    else .ok ((vjClientRead ((caliHeader buf).getD 0 0).toNat wire).map Prod.snd)

/-- What the client leaves of the bytes it has been sent; nothing is known where it waits for more. -/
def clientRead (rq : Request) (wire : List UInt8) : Exec (Option (List UInt8)) :=
  match rq with
  | .calibrationImage _ _ => getAndDrawFrame wire
  | rq => .ok ((recvVims (digits rq) wire).map Prod.snd)

/-- A request, with the bytes that were left before it. -/
def exchange (st : ServerState) (rq : Request) (unread : List UInt8) : Exec (Option (List UInt8)) := do
  let reply ← serverReply st rq
  clientRead rq (unread ++ reply)

/-- A sequence of requests; the state of the server may be another one each time. -/
def exchanges : List UInt8 → List (ServerState × Request) → Exec (Option (List UInt8))
  | unread, [] => .ok (some unread)
  | unread, (st, rq) :: rest => do
    match ← exchange st rq unread with
    | none => .ok none
    | some unread => exchanges unread rest

/-- The reply has the digits that the client reads, and as many bytes as they say; an image is as long as its header
says. -/
def WellFramed (st : ServerState) (rq : Request) : Prop :=
  match rq with
  | .calibrationImage _ _ => ∃ header image, serverReply st rq = .ok (counted 3 header ++ image) ∧
      header.length < 10 ^ 3 ∧ (caliHeader header).getD 0 0 = image.length
  | rq => ∃ reply, serverReply st rq = .ok reply ∧ Framed (digits rq) reply

/-- **The connection stays in step.**  Every reply is well framed, and after each request nothing is left of it. -/
def InStep (run : List (ServerState × Request)) : Prop :=
  (∀ p ∈ run, WellFramed p.1 p.2) ∧ ∀ k, exchanges [] (run.take k) = .ok (some [])

/-- The states in which a request is answered as the client expects. -/
def Answerable (st : ServerState) : Request → Prop
  | .effectList => ListFits st.effects
  | .sampleList => sampleBytes st.bank + 8 < sendBuf
  | .sequenceList => True
  | .chainEntry _ => True
  | .v4lProperties _ => True
  | .calibrationImage id type => 0 ≤ type ∧ type ≤ 2 ∧ (∃ t, st.tag id = some t ∧ t.v4l = true ∧ t.blackframe ≠ none) ∧
      st.len < 10 ^ 6 ∧ Fits 6 st.outputWidth.toInt ∧ Fits 6 st.outputHeight.toInt

/-! ## The chain entry -/

theorem printed_length_le (x : Int32) : (printed x).length ≤ 11 := by
  have hlo := Int32.le_toInt x
  have hhi := Int32.toInt_lt x
  exact decimalInt_length_le (by decide) (show x.toInt.natAbs < 10 ^ 10 by omega)

/-- The arguments but the last one. -/
theorem foldlM_params (param : ℕ → Int32) (n : ℕ) {line : CStr} (h : line.length + 12 * n < 1024) :
    ∃ line', (List.range n).foldlM (fun line p => appendInto 1024 line (printed (param p) ++ lit " ")) line = .ok line' ∧
      line'.length ≤ line.length + 12 * n := by
  induction n with
  | zero => exact ⟨line, rfl, Nat.le_refl _⟩
  | succ n ih =>
    obtain ⟨line', hline', hlen⟩ := ih (by omega)
    have hnum := printed_length_le (param n)
    have hblank : (lit " ").length = 1 := rfl
    have hroom : (line' ++ (printed (param n) ++ lit " ")).length < 1024 := by
      rw [List.length_append, List.length_append, hblank]
      omega
    refine ⟨line' ++ (printed (param n) ++ lit " "), ?_, ?_⟩
    · rw [List.range_succ, List.foldlM_append, hline', ok_bind, List.foldlM_cons, appendInto, printInto_of_lt hroom]
      rfl
    · rw [List.length_append, List.length_append, hblank]
      omega

/-- **An entry takes at most 480 bytes.** -/
theorem appendEntry_fits (st : ServerState) (e : ChainEntry) {line : CStr} (h : line.length < 500) :
    ∃ line', appendEntry st e line = .ok line' ∧ line'.length ≤ line.length + 490 := by
  have hn := st.numParams_le e.effectId
  rw [sampleMaxParameters] at hn
  have hcount : (decimal (st.numParams e.effectId)).length ≤ 2 := decimal_length_le (by decide) (by omega)
  have h1 := printed_length_le e.effectId
  have h2 := printed_length_le (st.extraFrame e.effectId)
  have h3 := printed_length_le e.kfType
  have h4 := printed_length_le e.kfStatus
  have h5 := printed_length_le e.source
  have h6 := printed_length_le e.channel
  have h7 := printed_length_le e.status
  have hblank : (lit " ").length = 1 := rfl
  have hzeros : (lit " 0 0 ").length = 5 := rfl
  have hzero : (lit " 0 ").length = 3 := rfl
  have hhead : (printed e.effectId ++ lit " " ++ printed (st.extraFrame e.effectId) ++ lit " " ++
      decimal (st.numParams e.effectId) ++ lit " " ++ printed e.kfType ++ lit " 0 0 " ++ printed e.kfStatus ++ lit " " ++
      printed e.source ++ lit " " ++ printed e.channel ++ lit " " ++ printed e.status ++ lit " 0 ").length ≤ 93 := by
    simp only [List.length_append]
    omega
  generalize hdef : printed e.effectId ++ lit " " ++ printed (st.extraFrame e.effectId) ++ lit " " ++
      decimal (st.numParams e.effectId) ++ lit " " ++ printed e.kfType ++ lit " 0 0 " ++ printed e.kfStatus ++ lit " " ++
      printed e.source ++ lit " " ++ printed e.channel ++ lit " " ++ printed e.status ++ lit " 0 " = head at hhead
  obtain ⟨line', hline', hlen⟩ := foldlM_params (fun p => if p < st.numParams e.effectId then e.arg p else 0)
    (st.numParams e.effectId - 1) (show (line ++ head).length + 12 * (st.numParams e.effectId - 1) < 1024 by
      rw [List.length_append]
      omega)
  rw [List.length_append] at hlen
  generalize hlast : (if st.numParams e.effectId - 1 < st.numParams e.effectId then
    e.arg (st.numParams e.effectId - 1) else 0) = last
  have hnum := printed_length_le last
  have hroom : (line' ++ printed last).length < 1024 := by
    rw [List.length_append]
    omega
  refine ⟨line' ++ printed last, ?_, ?_⟩
  · have hfirst : appendInto 1024 line head = .ok (line ++ head) :=
      printInto_of_lt (by rw [List.length_append]; omega)
    rw [appendEntry]
    simp only
    rw [hdef, hfirst, ok_bind, hline', ok_bind, hlast]
    exact printInto_of_lt hroom
  · rw [List.length_append]
    omega

/-- **Each half of the handler** finds the entry, or leaves the text. -/
theorem sendEntryOf_fits (st : ServerState) (playing : Bool) (chain : Int32 → Option EffectChain) {r : EntryReply}
    (hentry : 0 ≤ r.entry.toInt ∧ r.entry.toInt < sampleMaxEffects) (hline : r.line.length < 500) :
    ∃ r', sendEntryOf st playing chain r = .ok r' ∧ r'.entry = r.entry ∧
      r'.line.length ≤ r.line.length + 490 ∧ (r'.error = true → r'.line = r.line ∧ r.error = true) := by
  have hmax : sampleMaxEffects = 20 := rfl
  have hneg : ¬ r.entry < 0 := by
    rw [Int32.lt_iff_toInt_lt]
    show ¬ r.entry.toInt < 0
    omega
  have hone : r.entry ≠ -1 := by
    intro h
    rw [h] at hentry
    exact absurd hentry.1 (by decide)
  cases playing with
  | false => exact ⟨r, rfl, rfl, by omega, fun h => ⟨rfl, h⟩⟩
  | true =>
    rw [sendEntryOf, if_pos rfl]
    simp only [if_neg hone]
    cases hc : chain (if r.id = 0 then st.sampleId else r.id) with
    | none => exact ⟨_, rfl, rfl, by simp only; omega, fun h => ⟨rfl, h⟩⟩
    | some c =>
      simp only [if_neg hneg]
      have hslots := c.slots
      have hlt : r.entry.toInt.toNat < c.entries.length := by omega
      rw [List.getElem?_eq_getElem hlt]
      by_cases heffect : 0 < c.entries[r.entry.toInt.toNat].effectId
      · obtain ⟨line', hline', hlen⟩ := appendEntry_fits st c.entries[r.entry.toInt.toNat] hline
        simp only [if_pos heffect, hline', ok_bind]
        exact ⟨_, rfl, rfl, hlen, fun h => by cases h⟩
      · simp only [if_neg heffect]
        exact ⟨_, rfl, rfl, by simp only; omega, fun h => ⟨rfl, h⟩⟩

/-- **The reply with a chain entry** is well framed in every state. -/
theorem vjEventSendChainEntry_framed (st : ServerState) (id : Int32) {entry : Int32}
    (hentry : 0 ≤ entry.toInt ∧ entry.toInt < sampleMaxEffects) :
    ∃ reply, vjEventSendChainEntry st id entry = .ok reply ∧ Framed 3 reply := by
  have hzero : (zeroPadded 3 0).length = 3 := zeroPadded_length (by decide) (by decide)
  rw [vjEventSendChainEntry]
  obtain ⟨r, hr, hsame, hlen, herror⟩ := sendEntryOf_fits st
    (decide (st.playbackMode = .sample) || decide (st.rmode = .sample)) st.sampleChain
    (r := ⟨id, entry, zeroPadded 3 0, true⟩) hentry (show (zeroPadded 3 0).length < 500 by omega)
  have hlen : r.line.length ≤ (zeroPadded 3 0).length + 490 := hlen
  obtain ⟨r', hr', -, hlen', herror'⟩ := sendEntryOf_fits st
    (decide (st.playbackMode = .tag) || decide (st.rmode = .tag)) st.tagChain
    (r := r) (by rw [hsame]; exact hentry) (by omega)
  rw [hr, ok_bind, hr', ok_bind]
  by_cases hnone : r'.error = true
  · obtain ⟨hline', herr⟩ := herror' hnone
    obtain ⟨hline, -⟩ := herror herr
    rw [if_pos hnone, hline', hline]
    exact ⟨_, rfl, [], by decide, (List.append_nil _).symm⟩
  · have hsmall : r'.line.length < 10 ^ 3 := by omega
    rw [if_neg hnone, printInto_of_lt (by rw [(counted_length_iff (by decide)).mpr hsmall]; omega)]
    exact ⟨_, rfl, r'.line, hsmall, rfl⟩

/-! ## The other replies -/

/-- **The reply with the properties of a device** is well framed in every state. -/
theorem vjEventV4lGetInfo_framed (st : ServerState) (id : Int32) :
    ∃ reply, vjEventV4lGetInfo st id = .ok reply ∧ Framed 3 reply := by
  have hempty : Framed 3 (lit "000") := ⟨[], by decide, by decide⟩
  rw [vjEventV4lGetInfo]
  simp only
  cases st.tag (if (if id = 0 then st.sampleId else id) = -1 then st.tagSize - 1
    else if id = 0 then st.sampleId else id) with
  | none => exact ⟨_, rfl, hempty⟩
  | some t =>
    by_cases hfail : (vjTagGetV4lProperties t).1 ≠ 0
    · have hsmall : (((vjTagGetV4lProperties t).2.map fun x => zeroPaddedInt 5 x.toInt).flatten.take 127).length < 125 := by
        have hzeros : (vjTagGetV4lProperties t).2 = [0, 0, 0, 0, 0, 0] := by
          rw [vjTagGetV4lProperties] at hfail ⊢
          split_ifs at hfail ⊢
          · exact absurd rfl hfail
          · rfl
        rw [hzeros]
        decide
      simp only [if_pos hfail]
      rw [printInto_of_lt (by rw [(counted_length_iff (by decide)).mpr (by omega)]; omega)]
      exact ⟨_, rfl, _, by omega, rfl⟩
    · simp only [if_neg hfail]
      exact ⟨_, rfl, hempty⟩

theorem vjEventSendSampleList_framed {bank : SampleBank} (h : sampleBytes bank + 8 < sendBuf) :
    ∃ reply, vjEventSendSampleList bank 0 = .ok reply ∧ Framed 8 reply := by
  refine ⟨_, vjEventSendSampleList_iff.mpr ⟨h, rfl⟩, _, ?_, rfl⟩
  rw [sampleRecords_length]
  rw [sendBuf] at h
  omega

theorem vjEventGetSampleSequences_framed (seq : Sequencer) :
    ∃ reply, vjEventGetSampleSequences seq = .ok reply ∧ Framed 6 reply := by
  by_cases hsize : 0 < seq.size
  · refine ⟨_, vjEventGetSampleSequences_eq hsize, _, ?_, rfl⟩
    rw [sequenceBody_length]
    decide
  · rw [vjEventGetSampleSequences, if_pos (by omega)]
    exact ⟨_, rfl, [], by decide, by decide⟩

theorem vjEventSendEffectList_framed {t : EffectTable} (h : ListFits t) :
    ∃ reply, vjEventSendEffectList t = .ok reply ∧ Framed 6 reply := by
  refine ⟨_, vjEventSendEffectList_of_fits h, _, ?_, rfl⟩
  rw [effectRecords_length h]
  exact h.total

/-! ## The calibration image -/

/-- The header of an image. -/
def imageHeader (st : ServerState) : CStr :=
  zeroPadded 8 st.len ++ (zeroPadded 6 st.len ++ (zeroPadded 6 0 ++
    (zeroPaddedInt 6 st.outputWidth.toInt ++ zeroPaddedInt 6 st.outputHeight.toInt)))

section Image

variable {st : ServerState}

theorem imageHeader_length (hlen : st.len < 10 ^ 6) (hw : Fits 6 st.outputWidth.toInt)
    (hh : Fits 6 st.outputHeight.toInt) : (imageHeader st).length = 32 := by
  rw [imageHeader, List.length_append, List.length_append, List.length_append, List.length_append,
    zeroPadded_length (by decide) (show st.len < 10 ^ 8 by omega), zeroPadded_length (by decide) hlen,
    zeroPadded_length (by decide) (show 0 < 10 ^ 6 by decide), (zeroPaddedInt_length_iff (by decide)).mpr hw,
    (zeroPaddedInt_length_iff (by decide)).mpr hh]

theorem caliHeader_imageHeader (hlen : st.len < 10 ^ 6) (hw : Fits 6 st.outputWidth.toInt)
    (hh : Fits 6 st.outputHeight.toInt) :
    caliHeader (imageHeader st) = [(st.len : ℤ), st.len, 0, st.outputWidth.toInt, st.outputHeight.toInt] := by
  have hwint := And.intro (Int32.le_toInt st.outputWidth) (Int32.toInt_lt st.outputWidth)
  have hhint := And.intro (Int32.le_toInt st.outputHeight) (Int32.toInt_lt st.outputHeight)
  have hlast := @scanFields_cons 6 [] _ [] (by decide) hh hhint
  rw [List.append_nil] at hlast
  rw [caliHeader, imageHeader, scanFields_cons_nat (by decide) (by omega) (by omega),
    scanFields_cons_nat (by decide) hlen (by omega), scanFields_cons_nat (by decide) (by decide) (by decide),
    scanFields_cons (by decide) hw hwint, hlast]
  rfl

/-- The frame of a kind lies in the calibration buffer. -/
theorem caliGet_eq_ok {id : Int32} {t : Tag} (ht : st.tag id = some t) {buf : List UInt8} (hbuf : t.blackframe = some buf)
    {type : ℕ} (htype : type ≤ 2) : ∃ frame, caliGet st t type = .ok (some frame) ∧ frame.length = st.len := by
  have hlen := st.blackframe_length id t buf ht hbuf
  have hmul : type * (st.len + 2 * st.uvLen) ≤ 2 * (st.len + 2 * st.uvLen) := Nat.mul_le_mul_right _ htype
  have hslice : slice buf ((type : ℤ) * (st.len + 2 * st.uvLen)) st.len =
      .ok ((buf.drop ((type : ℤ) * (st.len + 2 * st.uvLen)).toNat).take st.len) := by
    rw [slice, if_pos]
    refine .inr ⟨by positivity, ?_⟩
    rw [hlen]
    zify at hmul
    push_cast
    omega
  rw [caliGet, hbuf]
  simp only
  rw [hslice]
  refine ⟨_, rfl, ?_⟩
  have htoNat : ((type : ℤ) * (st.len + 2 * st.uvLen)).toNat = type * (st.len + 2 * st.uvLen) := by
    rw [← Int.toNat_natCast (type * (st.len + 2 * st.uvLen))]
    push_cast
    rfl
  rw [List.length_take, List.length_drop, hlen, htoNat]
  omega

/-- **The reply with an image**, where there is one. -/
theorem vjEventGetCaliImage_of_answerable {id type : Int32} (h : Answerable st (.calibrationImage id type)) :
    ∃ frame, vjEventGetCaliImage st id type = .ok (counted 3 (imageHeader st) ++ frame) ∧ frame.length = st.len := by
  obtain ⟨hpos, hle, ⟨t, ht, hv4l, hbuf⟩, hlen, hw, hh⟩ := h
  obtain ⟨buf, hbuf⟩ := Option.ne_none_iff_exists'.mp hbuf
  have htype : type.toInt.toNat ≤ 2 := by
    have := Int32.le_iff_toInt_le.mp hle
    have htwo : (2 : Int32).toInt = 2 := rfl
    omega
  have hsmall : ¬ (t.v4l = false ∨ type < 0 ∨ 2 < type) := by
    rw [hv4l]
    rintro (h | h | h)
    · cases h
    · exact absurd (Int32.le_iff_toInt_le.mp hpos) (by rw [Int32.lt_iff_toInt_lt] at h; omega)
    · exact absurd (Int32.le_iff_toInt_le.mp hle) (by rw [Int32.lt_iff_toInt_lt] at h; omega)
  obtain ⟨frame, hframe, hframelen⟩ := caliGet_eq_ok ht hbuf htype
  refine ⟨frame, ?_, hframelen⟩
  have hheader : (zeroPadded 3 (8 + 6 + 6 + 6 + 6) ++ zeroPadded 8 st.len ++ zeroPadded 6 st.len ++ zeroPadded 6 0 ++
      zeroPaddedInt 6 st.outputWidth.toInt ++ zeroPaddedInt 6 st.outputHeight.toInt) = counted 3 (imageHeader st) := by
    rw [counted, imageHeader_length hlen hw hh, imageHeader]
    simp only [List.append_assoc]
  have hcounted : (counted 3 (imageHeader st)).length = 35 := by
    rw [(counted_length_iff (by decide)).mpr (by rw [imageHeader_length hlen hw hh]; decide), imageHeader_length hlen hw hh]
  rw [vjEventGetCaliImage, ht]
  simp only [if_neg hsmall, hframe, ok_bind]
  rw [hheader, List.take_of_length_le (by omega)]

/-- **The image is read to its end.** -/
theorem getAndDrawFrame_image (hlen : st.len < 10 ^ 6) (hw : Fits 6 st.outputWidth.toInt)
    (hh : Fits 6 st.outputHeight.toInt) {frame : List UInt8} (hframe : frame.length = st.len) :
    getAndDrawFrame (counted 3 (imageHeader st) ++ frame) = .ok (some []) := by
  have h32 := imageHeader_length hlen hw hh
  have hne : imageHeader st ≠ [] := List.ne_nil_of_length_pos (by omega)
  have hrecv := @recvVims_framed 3 (imageHeader st) (by decide) (by decide) (by omega) frame
  rw [received, if_neg hne] at hrecv
  have hvalues := caliHeader_imageHeader hlen hw hh
  have hread := vjClientRead_append frame []
  rw [List.append_nil, hframe] at hread
  rw [getAndDrawFrame, hrecv]
  simp only
  rw [hvalues, if_neg (by simp)]
  show (if (st.len : ℤ) < st.len then _ else Except.ok (Option.map _ (vjClientRead (st.len : ℤ).toNat frame))) = _
  rw [if_neg (lt_irrefl _), Int.toNat_natCast, hread]
  rfl

end Image

/-! ## Sequences of requests -/

/-- A well framed reply is read to its end. -/
theorem recvVims_of_framed {w : ℕ} {reply : List UInt8} (hw : 1 ≤ w) (hw9 : w ≤ 9) (h : Framed w reply) :
    (recvVims w reply).map Prod.snd = some [] := by
  obtain ⟨body, hbody, rfl⟩ := h
  have hrecv := recvVims_framed hw hw9 hbody []
  rw [List.append_nil] at hrecv
  rw [hrecv]
  rfl

/-- **One request** that is answerable. -/
theorem exchange_of_answerable {st : ServerState} {rq : Request} (h : Answerable st rq) :
    WellFramed st rq ∧ exchange st rq [] = .ok (some []) := by
  have hplain : ∀ w : ℕ, 1 ≤ w → w ≤ 9 → (∃ reply, serverReply st rq = .ok reply ∧ Framed w reply) →
      (∃ reply, serverReply st rq = .ok reply ∧ Framed w reply) ∧
        (serverReply st rq >>= fun reply => Except.ok ((recvVims w ([] ++ reply)).map Prod.snd)) = .ok (some []) := by
    intro w hw hw9 hreply
    refine ⟨hreply, ?_⟩
    obtain ⟨reply, hsend, hframed⟩ := hreply
    rw [hsend, ok_bind, List.nil_append, recvVims_of_framed hw hw9 hframed]
  cases rq with
  | effectList => exact hplain 6 (by decide) (by decide) (vjEventSendEffectList_framed h)
  | sampleList => exact hplain 8 (by decide) (by decide) (vjEventSendSampleList_framed h)
  | sequenceList => exact hplain 6 (by decide) (by decide) (vjEventGetSampleSequences_framed st.sequencer)
  | chainEntry entry =>
    have hlt : (entry : ℕ) < 20 := entry.isLt
    have hval : (Int32.ofNat entry).toInt = (entry : ℕ) := by
      rw [Int32.toInt_ofNat_of_lt (by omega)]
    have hentry : 0 ≤ (Int32.ofNat entry).toInt ∧ (Int32.ofNat entry).toInt < sampleMaxEffects := by
      rw [hval]
      exact ⟨Int.natCast_nonneg _, by exact_mod_cast entry.isLt⟩
    exact hplain 3 (by decide) (by decide) (vjEventSendChainEntry_framed st 0 hentry)
  | v4lProperties id => exact hplain 3 (by decide) (by decide) (vjEventV4lGetInfo_framed st id)
  | calibrationImage id type =>
    obtain ⟨frame, hsend, hframe⟩ := vjEventGetCaliImage_of_answerable h
    obtain ⟨-, -, -, hlen, hw, hh⟩ := h
    have h32 := imageHeader_length hlen hw hh
    refine ⟨⟨imageHeader st, frame, hsend, by omega, ?_⟩, ?_⟩
    · rw [caliHeader_imageHeader hlen hw hh, hframe]
      rfl
    · show (vjEventGetCaliImage st id type >>= _) = _
      rw [hsend, ok_bind, List.nil_append]
      show getAndDrawFrame (counted 3 (imageHeader st) ++ frame) = _
      rw [getAndDrawFrame_image hlen hw hh hframe]

/-- **In every sequence of answerable requests**, whatever the states of the server, each reply is well framed and
read to its end, and the next one is read from its first byte. -/
theorem requests_in_step (run : List (ServerState × Request)) (h : ∀ p ∈ run, Answerable p.1 p.2) : InStep run := by
  refine ⟨fun p hp => (exchange_of_answerable (h p hp)).1, fun k => ?_⟩
  have hall : ∀ p ∈ run.take k, Answerable p.1 p.2 := fun p hp => h p (List.mem_of_mem_take hp)
  revert hall
  generalize run.take k = rs
  intro hall
  induction rs with
  | nil => rfl
  | cons p rest ih =>
    obtain ⟨st, rq⟩ := p
    have hfirst := (exchange_of_answerable (hall (st, rq) List.mem_cons_self)).2
    show (exchange st rq [] >>= _) = _
    rw [hfirst, ok_bind]
    exact ih fun p hp => hall p (List.mem_cons_of_mem _ hp)

/-- A server with an empty bank of samples, which plays the sample 1, and a capture device as its stream 1; a dark
frame of four pixels may have been taken. -/
def cameraServer (blackframe : Option (List UInt8)) (h : ∀ buf, blackframe = some buf → buf.length = 20) : ServerState where
  effects := ⟨[], by decide⟩
  bank := ⟨1, fun _ => none, fun _ _ h => by cases h⟩
  sequencer := introSequencer 1 (by decide)
  playbackMode := .sample
  rmode := .plain
  sampleId := 1
  sampleChain := fun _ => none
  tagChain := fun _ => none
  extraFrame := fun _ => 0
  numParams := fun _ => 0
  numParams_le := fun _ => Nat.zero_le _
  tagSize := 2
  tag := fun id => if id = 1 then some ⟨true, 0, 0, 0, 0, 0, blackframe⟩ else none
  len := 4
  uvLen := 0
  outputWidth := 2
  outputHeight := 2
  blackframe_length id t buf ht hbuf := by
    split_ifs at ht
    obtain rfl := Option.some.inj ht
    exact h buf hbuf

/-- Three requests, the second of them for the image. -/
theorem requests_in_step_camera :
    InStep [(cameraServer (some (List.replicate 20 7)) (by decide), .effectList),
      (cameraServer (some (List.replicate 20 7)) (by decide), .calibrationImage 1 0),
      (cameraServer (some (List.replicate 20 7)) (by decide), .v4lProperties 1)] := by
  apply requests_in_step
  intro p hp
  rcases List.mem_cons.mp hp with rfl | hp
  · exact ⟨fun _ h => absurd h List.not_mem_nil, fun _ h => absurd h List.not_mem_nil, by decide⟩
  · rcases List.mem_cons.mp hp with rfl | hp
    · exact ⟨by decide, by decide, ⟨_, rfl, rfl, Option.some_ne_none _⟩, by decide, by decide, by decide⟩
    · obtain rfl := List.mem_singleton.mp hp
      exact trivial

/-- The image of a stream that is not there leaves six bytes behind. -/
theorem requests_out_of_step :
    ¬ InStep [(cameraServer none (by decide), .calibrationImage 2 0)] := by
  intro h
  have hrun : exchanges [] [(cameraServer none (by decide), .calibrationImage 2 0)] = .ok (some (lit "000000")) := rfl
  have hempty := hrun.symm.trans (h.2 1)
  exact absurd (Option.some.inj (Except.ok.inj hempty)) (by decide)

end Veejay.Client
