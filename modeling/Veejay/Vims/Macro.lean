import Veejay.Vevo.Port
import Veejay.Vims.IdMessage

/-!
# Recording and replaying macros

While a macro is recorded, `vj_event_parse_msg` stores every message that `valid_for_macro` admits, under the position
of playback: a text made of the frame and the frame duplication.  A message with arguments is stored before it is
fired, one without after.  While the macro is played, every pass retrieves the messages of the position and interprets
them.

* `Deck`, `Position` — what the recorder reads of playback;
* `Recorder` — the banks of macros; `storeMacro`, `retrieveMacro`, `setMacroStatus`, `macroSelect`;
* `recorderEvents` — the interpreter of messages with the recorder in its state;
* `replayPass` — one pass: the messages it interprets;
* `Recorded` — the blocks hold what was heard; `record_step` is one message, `record_run` the run;
* `replay_exactly` — **a pass replays what was recorded at its position**;
* `replay_moved` — a message that moves playback.

A macro port is a list-backed vevo port, which is a map of the hash codes of its names; its properties are pointers to
blocks, and stand for the blocks.
-/

namespace Veejay.Macro

open CLib Veejay.Vims Veejay.Vevo

/-! ## Positions -/

/-- A position of playback. -/
structure Position where
  frame : ℕ
  dup : ℕ
  deriving DecidableEq

/-- What the recorder uses of a server whose other state is `W`. -/
structure Deck (W : Type) where
  /-- `v->uc->playback_mode` -/
  playbackMode : W → ℤ
  /-- `v->uc->sample_id` -/
  sampleId : W → ℤ
  /-- `sample_get_framedups (v->uc->sample_id)` -/
  sampleGetFramedups : W → ℕ
  /-- `v->settings->simple_frame_dup` -/
  simpleFrameDup : W → ℕ
  /-- `v->settings->current_frame_num` -/
  currentFrameNum : W → ℕ
  /-- `veejay_change_playback_mode`, then `veejay_set_frame` -/
  goBack : ℤ × ℤ × ℤ → W → W
  /-- `vj_event_sample_next` -/
  sampleNext : W → W

variable {W : Type}

/-- The position that the recorder sees: 0 is `VJ_PLAYBACK_MODE_SAMPLE`, 2 is `VJ_PLAYBACK_MODE_PLAIN`. -/
def Deck.position (deck : Deck W) (w : W) : Position where
  frame := deck.currentFrameNum w
  dup :=
    if deck.playbackMode w = 0 then deck.sampleGetFramedups w
    else if deck.playbackMode w = 2 then deck.simpleFrameDup w
    else 0

/-- `"%08d%02d"` -/
def Position.text (p : Position) : CStr := zeroPadded 8 p.frame ++ zeroPadded 2 p.dup

/-- `key` of `store_macro_`, of 16 bytes -/
def Position.storeKey (p : Position) : CStr := p.text.take 15

/-- `key` of `vj_event_update_remote`, of 32 bytes -/
def Position.replayKey (p : Position) : CStr := p.text.take 31

/-! ## The recorder -/

/-- `MAX_MACROS` -/
def maxMacros : ℕ := 16

/-- `macro_block_t` -/
abbrev MacroBlock := Fin maxMacros → Option CStr

/-- A port with the blocks. -/
abbrev MacroPort := UInt64 → Option MacroBlock

/-- `macro_bank_`, `current_macro_`, `macro_status_` and `macro_line_`; `macro_port_` is the current bank. -/
structure Recorder where
  banks : Fin 12 → Option MacroPort
  current : Fin 12
  status : ℤ
  line : ℤ × ℤ × ℤ

/-- `macro_port_` -/
def Recorder.port (r : Recorder) : Option MacroPort := r.banks r.current

/-- `macro_port_` and the current bank change. -/
def Recorder.setPort (r : Recorder) (port : Option MacroPort) : Recorder :=
  { r with banks := Function.update r.banks r.current port }

/-- The ids that `init_vims_for_macro` takes out, in its order. -/
def notForMacro : List ℤ :=
  [33, 5, 333, 150, 151, 100, 120, 220, 125, 126, 121, 127, 143, 146, 147, 145, 240, 241, 242, 243, 245, 246, 247, 203,
    103, 216, 340, 341, 342, 358, 40, 41, 42, 45, 46, 22, 23, 334, 331, 330, 329, 326, 325, 323, 324, 306, 307, 302, 304,
    254, 9, 8, 6, 90, 7]

/-- `valid_for_macro` -/
def validForMacro (netId : ℤ) : Bool :=
  if 400 < netId ∨ 388 ≤ netId ∨ (80 ≤ netId ∧ netId ≤ 86) ∨ (50 ≤ netId ∧ netId ≤ 59) then false
  else !notForMacro.contains netId

/-- `store_macro_` -/
def storeMacro (r : Recorder) (p : Position) (str : CStr) : Recorder :=
  match r.port with
  | none => r
  | some port =>
    let h := hashKeyCode p.storeKey
    match port h with
    | none => r.setPort (some (Function.update port h (some (Function.update (fun _ => none) ⟨0, by decide⟩ (some str)))))
    | some c =>
      match (List.finRange maxMacros).find? fun k => decide (1 ≤ k.val) && (c k).isNone with
      | none => r
      | some k => r.setPort (some (Function.update port h (some (Function.update c k (some str)))))

/-- `retrieve_macro_` -/
def retrieveMacro (r : Recorder) (idx : Fin maxMacros) (key : CStr) : Option CStr :=
  match r.port with
  | none => none
  | some port =>
    match port (hashKeyCode key) with
    | none => none
    | some m => m idx

/-- `reset_macro_` -/
def resetMacro (r : Recorder) : Recorder :=
  match r.port with
  | none => r
  | some _ => r.setPort none

/-- `macro_select` -/
def macroSelect (r : Recorder) (slot : ℤ) : Recorder :=
  if h : 0 ≤ slot ∧ slot < 12 then
    let i : Fin 12 := ⟨slot.toNat, by omega⟩
    match r.banks i with
    | none => { r with banks := Function.update r.banks i (some fun _ => none), current := i }
    | some _ => { r with current := i }
  else r

/-- The recorder starts in an empty port. -/
def startRecorder (deck : Deck W) (s : Recorder × W) : Recorder × W :=
  ({ (resetMacro s.1).setPort (some fun _ => none) with
    status := 1
    line := (deck.currentFrameNum s.2, deck.playbackMode s.2, deck.sampleId s.2) }, s.2)

/-- The macro is played, from where its recording was started. -/
def playMacro (deck : Deck W) (s : Recorder × W) : Recorder × W :=
  if s.1.status = 0 ∧ s.1.port.isSome then ({ s.1 with status := 2 }, s.2)
  else if 0 ≤ s.1.line.1 ∧ s.1.port.isSome then ({ s.1 with status := 2 }, deck.goBack s.1.line s.2)
  else s

/-- The macro is reset, if it is to be. -/
def dropMacro (s : Recorder × W) (reset : Bool) : Recorder × W :=
  if reset then ({ resetMacro s.1 with status := 0, line := (-1, 0, 0) }, s.2) else s

/-- `vj_event_set_macro_status` -/
def setMacroStatus (deck : Deck W) (arg₀ arg₁ : ℤ) (s : Recorder × W) : Recorder × W :=
  let s := dropMacro s (arg₁ = 0)
  let arg₀ := if arg₁ = 0 then 0 else arg₀
  if arg₀ = 0 then
    if s.1.port.isSome then ({ s.1 with status := 0 }, s.2) else s
  else if arg₀ = 1 then startRecorder deck s
  else if arg₀ = 2 then playMacro deck s
  else if arg₀ = 3 then (s.1, deck.sampleNext s.2)
  else s

/-! ## The interpreter -/

/-- `VIMS_MACRO` -/
def vimsMacro : ℤ := 33

/-- `VIMS_MACRO_SELECT` -/
def vimsMacroSelect : ℤ := 34

/-- `P_A`: an argument that is not there is 0. -/
def argAt (args : List (Option ℤ)) (i : ℕ) : ℤ := ((args[i]?).getD none).getD 0

/-- The interpreter with the recorder: `ev` has the other events, which do not know it. -/
def recorderEvents (ev : Events W) (deck : Deck W) : Events (Recorder × W) where
  bundleGet s := ev.bundleGet s.2
  textAt s := ev.textAt s.2
  numArgs := ev.numArgs
  format := ev.format
  defaultValue := ev.defaultValue
  allowAny := ev.allowAny
  longParams := ev.longParams
  requireAll := ev.requireAll
  fire netId str args s :=
    if netId = vimsMacro then setMacroStatus deck (argAt args 0) (argAt args 1) s
    else if netId = vimsMacroSelect then (macroSelect s.1 (argAt args 0), s.2)
    else (s.1, ev.fire netId str args s.2)
  parseKf m s := (s.1, ev.parseKf m s.2)
  storeMacro netId str s :=
    if s.1.status = 1 ∧ s.1.port.isSome ∧ validForMacro netId then (storeMacro s.1 (deck.position s.2) str, s.2) else s

/-- The loop of a pass over the messages of a position, and the messages that it interprets. -/
def replayLoop (ev : Events (Recorder × W)) (fuel : ℕ) (key : CStr) :
    List (Fin maxMacros) → Recorder × W → Exec (List CStr × (Recorder × W))
  | [], s => .ok ([], s)
  | i :: is, s =>
    match retrieveMacro s.1 i key with
    | none => replayLoop ev fuel key is s
    | some macroMsg => do
      let s ← parseMsg ev fuel (message macroMsg) s
      let r ← replayLoop ev fuel key is s
      .ok (macroMsg :: r.1, r.2)

/-- A pass, at the end of `vj_event_update_remote`. -/
def replayPass (ev : Events W) (deck : Deck W) (fuel : ℕ) (s : Recorder × W) : Exec (List CStr × (Recorder × W)) :=
  if s.1.status = 2 ∧ s.1.port.isSome then
    replayLoop (recorderEvents ev deck) fuel (deck.position s.2).replayKey (List.finRange maxMacros) s
  else .ok ([], s)

/-! ## Keys -/

/-- A position whose text has ten digits. -/
def Position.Short (p : Position) : Prop := p.frame < 10 ^ 8 ∧ p.dup < 10 ^ 2

instance (p : Position) : Decidable p.Short := inferInstanceAs (Decidable (_ ∧ _))

/-- The hash code of a text of digits, without overflow. -/
def digitsHash : ℕ → CStr → ℕ
  | x, [] => x
  | x, c :: cs => digitsHash (33 * x + c.toNat) cs

theorem isDigit_range {c : UInt8} (h : isDigit c = true) : 48 ≤ c.toNat ∧ c.toNat ≤ 57 := by
  rw [isDigit, Bool.and_eq_true, decide_eq_true_eq, decide_eq_true_eq] at h
  exact ⟨UInt8.le_iff_toNat_le.mp h.1, UInt8.le_iff_toNat_le.mp h.2⟩

theorem le_digitsHash (cs : CStr) (x : ℕ) : x ≤ digitsHash x cs := by
  induction cs generalizing x with
  | nil => exact Nat.le_refl x
  | cons c cs ih =>
    have h := ih (33 * x + c.toNat)
    rw [digitsHash]
    omega

theorem digitsHash_lt (cs : CStr) (hcs : ∀ c ∈ cs, isDigit c = true) (x : ℕ) :
    digitsHash x cs + 2 ≤ (x + 2) * 33 ^ cs.length := by
  induction cs generalizing x with
  | nil => simp [digitsHash]
  | cons c cs ih =>
    have h := ih (fun d hd => hcs d (List.mem_cons_of_mem c hd)) (33 * x + c.toNat)
    have hc := isDigit_range (hcs c List.mem_cons_self)
    rw [digitsHash, List.length_cons, pow_succ']
    calc digitsHash (33 * x + c.toNat) cs + 2
        ≤ (33 * x + c.toNat + 2) * 33 ^ cs.length := h
      _ ≤ (33 * (x + 2)) * 33 ^ cs.length := Nat.mul_le_mul_right _ (by omega)
      _ = (x + 2) * (33 * 33 ^ cs.length) := by ring

/-- A digit of a name, sign-extended. -/
theorem digit_extend {c : UInt8} (h : isDigit c = true) : c.toInt8.toInt64.toUInt64.toNat = c.toNat := by
  obtain ⟨hlo, hhi⟩ := isDigit_range h
  obtain ⟨n, hn⟩ : ∃ n, c.toNat = n := ⟨_, rfl⟩
  have hc : c = UInt8.ofNat n := by
    rw [← hn, UInt8.ofNat_toNat]
  rw [hn] at hlo hhi
  rw [hc]
  interval_cases n <;> rfl

theorem hash_step {x : UInt64} {c : UInt8} (h : isDigit c = true) (hlt : 33 * x.toNat + c.toNat < 2 ^ 64) :
    ((x <<< 5) + x + c.toInt8.toInt64.toUInt64).toNat = 33 * x.toNat + c.toNat := by
  have h5 : (x <<< 5).toNat = x.toNat * 32 % 2 ^ 64 := by
    rw [UInt64.toNat_shiftLeft, Nat.shiftLeft_eq]
    rfl
  rw [UInt64.toNat_add, UInt64.toNat_add, h5, digit_extend h]
  omega

theorem foldl_hash (cs : CStr) (hcs : ∀ c ∈ cs, isDigit c = true) (x : UInt64) (hlt : digitsHash x.toNat cs < 2 ^ 64) :
    (cs.foldl (fun (hash : UInt64) (c : UInt8) => (hash <<< 5) + hash + c.toInt8.toInt64.toUInt64) x : UInt64).toNat =
      digitsHash x.toNat cs := by
  induction cs generalizing x with
  | nil => rfl
  | cons c cs ih =>
    rw [digitsHash] at hlt
    have hc := hcs c List.mem_cons_self
    have hstep := hash_step hc (lt_of_le_of_lt (le_digitsHash cs _) hlt)
    rw [List.foldl_cons, digitsHash, ← hstep]
    exact ih (fun d hd => hcs d (List.mem_cons_of_mem c hd)) _ (by rw [hstep]; exact hlt)

theorem digitsHash_inj {cs ds : CStr} (hcs : ∀ c ∈ cs, isDigit c = true) (hds : ∀ c ∈ ds, isDigit c = true)
    (hlen : cs.length = ds.length) {x y : ℕ} (h : digitsHash x cs = digitsHash y ds) : x = y ∧ cs = ds := by
  induction cs generalizing ds x y with
  | nil =>
    obtain rfl := List.length_eq_zero_iff.mp hlen.symm
    exact ⟨h, rfl⟩
  | cons c cs ih =>
    obtain ⟨d, ds, rfl⟩ := List.exists_cons_of_length_eq_add_one hlen.symm
    have hrec := ih (fun e he => hcs e (List.mem_cons_of_mem c he)) (fun e he => hds e (List.mem_cons_of_mem d he))
      (Nat.succ_injective hlen) h
    have hc := isDigit_range (hcs c List.mem_cons_self)
    have hd := isDigit_range (hds d List.mem_cons_self)
    have hcd : c.toNat = d.toNat := by omega
    exact ⟨by omega, by rw [UInt8.toNat_inj.mp hcd, hrec.2]⟩

theorem Position.Short.text_length {p : Position} (hp : p.Short) : p.text.length = 10 := by
  rw [Position.text, List.length_append, zeroPadded_length (by decide) hp.1, zeroPadded_length (by decide) hp.2]

theorem Position.text_digits (p : Position) : ∀ c ∈ p.text, isDigit c = true := by
  intro c hc
  rcases List.mem_append.mp hc with hc | hc
  · exact isDigit_of_mem_zeroPadded hc
  · exact isDigit_of_mem_zeroPadded hc

theorem Position.Short.hash {p : Position} (hp : p.Short) : (hashKeyCode p.text).toNat = digitsHash 5381 p.text := by
  have hlt := digitsHash_lt p.text p.text_digits 5381
  rw [hp.text_length] at hlt
  refine foldl_hash p.text p.text_digits 5381 ?_
  show digitsHash 5381 p.text < 2 ^ 64
  norm_num at hlt ⊢
  omega

/-- **Positions have different keys.** -/
theorem hashKeyCode_text_inj {p q : Position} (hp : p.Short) (hq : q.Short)
    (h : hashKeyCode p.text = hashKeyCode q.text) : p = q := by
  have hnat := congrArg UInt64.toNat h
  rw [hp.hash, hq.hash] at hnat
  have htext := (digitsHash_inj p.text_digits q.text_digits (by rw [hp.text_length, hq.text_length]) hnat).2
  have hframe : (zeroPadded 8 p.frame).length = (zeroPadded 8 q.frame).length := by
    rw [zeroPadded_length (by decide) hp.1, zeroPadded_length (by decide) hq.1]
  obtain ⟨h8, h2⟩ := List.append_inj htext hframe
  have hf := congrArg digitsValue h8
  have hd := congrArg digitsValue h2
  rw [digitsValue_zeroPadded, digitsValue_zeroPadded] at hf hd
  obtain ⟨pf, pd⟩ := p
  obtain ⟨qf, qd⟩ := q
  obtain rfl : pf = qf := hf
  obtain rfl : pd = qd := hd
  rfl

theorem Position.Short.storeKey {p : Position} (hp : p.Short) : p.storeKey = p.text :=
  List.take_of_length_le (by rw [hp.text_length]; decide)

theorem Position.Short.replayKey {p : Position} (hp : p.Short) : p.replayKey = p.text :=
  List.take_of_length_le (by rw [hp.text_length]; decide)

/-! ## Arrivals -/

/-- A message comes in, in some state of the server. -/
structure Arrival (W : Type) where
  world : W
  id : ℤ
  rest : CStr

/-- The message. -/
def Arrival.msg (a : Arrival W) : Message := message (idMessage a.id a.rest)

/-- Its text without the newline. -/
def Arrival.text (a : Arrival W) : CStr := idMessage a.id (unlined a.rest)

/-- `valid_for_macro` admits the message. -/
def Arrival.Admitted (a : Arrival W) : Prop := 0 < a.id ∧ validForMacro a.id = true ∧ (0 : UInt8) ∉ a.rest

/-- One message is interpreted, by a recorder; the server that it leaves is the answer. -/
def arrive (ev : Events W) (deck : Deck W) (fuel : ℕ) (r : Recorder) (a : Arrival W) : Exec (W × Recorder) := do
  let s ← parseMsg (recorderEvents ev deck) (fuel + 1) a.msg (r, a.world)
  .ok (s.2, s.1)

/-- The message reaches its event: it is not dropped for what its arguments are. -/
def heard (ev : Events W) (deck : Deck W) (a : Arrival W) : Bool :=
  match select (recorderEvents ev deck) (ev.bundleGet a.world) a.msg with
  | .ok (.event _) => true
  | _ => false

/-- What is said of the positions after one more message. -/
def noteArrival (ev : Events W) (deck : Deck W) (h : Position → List CStr) (a : Arrival W) : Position → List CStr :=
  if heard ev deck a then
    Function.update h (deck.position a.world) (h (deck.position a.world) ++ [a.text])
  else h

/-- The messages that arrived at each position, in their order. -/
def history (ev : Events W) (deck : Deck W) (as : List (Arrival W)) : Position → List CStr :=
  as.foldl (noteArrival ev deck) fun _ => []

/-- The defaults of an event. -/
def defaultArgs (ev : Events W) (id : ℤ) : List (Option ℤ) :=
  (List.range (ev.numArgs id)).map fun i => some (ev.defaultValue id i)

/-- The arguments of the message are scanned without a fault. -/
def Scans (ev : Events W) (deck : Deck W) (id : ℤ) (rest : CStr) : Prop :=
  ∀ get, ∃ sel, select (recorderEvents ev deck) get (message (idMessage id rest)) = .ok sel

/-- The message is recorded where it arrives, and can be replayed. -/
structure Arrival.Recordable (ev : Events W) (deck : Deck W) (a : Arrival W) : Prop where
  /-- it does not select another bank -/
  keepsBank : a.id ≠ vimsMacroSelect
  /-- the text of the position has ten digits -/
  short : (deck.position a.world).Short
  /-- a message without arguments does not move playback -/
  stays : (unlined a.rest).length ≤ 1 →
    deck.position (ev.fire a.id none (defaultArgs ev a.id) a.world) = deck.position a.world
  scans : Scans ev deck a.id a.rest
  scansText : Scans ev deck a.id (unlined a.rest)

/-! ## What a message does -/

section Acts

variable {S : Type}

/-- **What a message does**: a short one is stored after it is fired, a long one before. -/
theorem selectEvent_acts (ev : Events S) (get : ℤ → Option ℕ) {id : ℤ} (hid : id ≠ vimsBundle) {m : Message}
    {sel : Selected S} (h : selectEvent ev get id m = .ok sel) :
    sel = .nothing ∨
      (m.len - 1 ≤ msgMinLen ∧ ∃ f : S → S,
        (f = (fun s => s) ∨
          f = ev.fire id none ((List.range (ev.numArgs id)).map fun i => some (ev.defaultValue id i))) ∧
        sel = .event fun s => ev.storeMacro id m.text (f s)) ∨
      ∃ f : S → S, (f = (fun s => s) ∨ ∃ str args, f = ev.fire id str args) ∧
        sel = .event fun s => f (ev.storeMacro id m.text s) := by
  rw [selectEvent] at h
  dsimp only at h
  by_cases hlen : m.len - 1 ≤ msgMinLen
  · rw [if_pos hlen] at h
    obtain rfl := Except.ok.inj h
    refine .inr (.inl ⟨hlen, ?_⟩)
    rcases fireNetEvent_acts ev get hid none ((List.range (ev.numArgs id)).map fun i => some (ev.defaultValue id i))
      (ev.numArgs id) (fun s => s) (ev.storeMacro id m.text) with hf | hf
    · exact ⟨fun s => s, .inl rfl, hf⟩
    · exact ⟨_, .inr rfl, hf⟩
  · rw [if_neg hlen] at h
    obtain ⟨c, -, h⟩ := bind_eq_ok.mp h
    obtain ⟨arguments, -, h⟩ := bind_eq_ok.mp h
    by_cases hnp : ev.numArgs id = 0
    · rw [if_pos hnp] at h
      exact .inl (Except.ok.inj h).symm
    · rw [if_neg hnp] at h
      obtain ⟨scanned, -, h⟩ := bind_eq_ok.mp h
      cases scanned with
      | none => exact .inl (Except.ok.inj h).symm
      | some r =>
        obtain ⟨i, str, args⟩ := r
        obtain rfl := Except.ok.inj h
        refine .inr (.inr ?_)
        rcases fireNetEvent_acts ev get hid str args (if ev.allowAny id then ev.numArgs id else i)
          (ev.storeMacro id m.text) (fun s => s) with hf | hf
        · exact ⟨fun s => s, .inl rfl, hf⟩
        · exact ⟨_, .inr ⟨str, args, rfl⟩, hf⟩

end Acts

/-! ## The blocks -/

/-- A block holds a list of messages, as far as it goes. -/
def BlockHolds : Option MacroBlock → List CStr → Prop
  | none, l => l = []
  | some m, l => l ≠ [] ∧ ∀ k : Fin maxMacros, m k = l[k.val]?

/-- The first place of a block that is free. -/
theorem find_free {m : MacroBlock} {l : List CStr} (hne : l ≠ []) (hm : ∀ k : Fin maxMacros, m k = l[k.val]?) :
    ((List.finRange maxMacros).find? fun k => decide (1 ≤ k.val) && (m k).isNone) =
      if h : l.length < maxMacros then some ⟨l.length, h⟩ else none := by
  have hfree : ∀ k : Fin maxMacros, (decide (1 ≤ k.val) && (m k).isNone) = true ↔ l.length ≤ k.val := by
    intro k
    have hpos := List.length_pos_of_ne_nil hne
    rw [hm k, Bool.and_eq_true, decide_eq_true_eq, Option.isNone_iff_eq_none, List.getElem?_eq_none_iff]
    omega
  split_ifs with h
  · rw [List.find?_eq_some_iff_getElem]
    refine ⟨(hfree ⟨l.length, h⟩).mpr (Nat.le_refl _), l.length, by rw [List.length_finRange]; exact h, ?_, ?_⟩
    · rw [List.getElem_finRange]
      rfl
    · intro j hj
      rw [List.getElem_finRange, Bool.not_eq_true', Bool.eq_false_iff]
      intro hk
      exact Nat.not_le.mpr hj ((hfree _).mp hk)
  · rw [List.find?_eq_none]
    intro k _ hk
    have hle := (hfree k).mp hk
    exact h (lt_of_le_of_lt hle k.isLt)

/-- What a position has after one more message. -/
theorem BlockHolds.snoc {m : MacroBlock} {l : List CStr} (h : BlockHolds (some m) l) (str : CStr) :
    BlockHolds (some (match (List.finRange maxMacros).find? fun k => decide (1 ≤ k.val) && (m k).isNone with
      | none => m
      | some k => Function.update m k (some str))) (l ++ [str]) := by
  obtain ⟨hne, hm⟩ := h
  rw [find_free hne hm]
  refine ⟨by simp, fun k => ?_⟩
  by_cases hlen : l.length < maxMacros
  · rw [dif_pos hlen]
    show Function.update m ⟨l.length, hlen⟩ (some str) k = _
    rw [Function.update_apply]
    by_cases hk : k = ⟨l.length, hlen⟩
    · rw [if_pos hk, hk]
      exact (List.getElem?_concat_length (l := l) (a := str)).symm
    · have hne' : k.val ≠ l.length := fun h => hk (Fin.ext h)
      rw [if_neg hk, hm k]
      rcases Nat.lt_or_gt_of_ne hne' with hlt | hgt
      · exact (List.getElem?_append_left hlt).symm
      · rw [List.getElem?_eq_none hgt.le, List.getElem?_eq_none]
        rw [List.length_append, List.length_singleton]
        exact hgt
  · rw [dif_neg hlen]
    show m k = _
    rw [hm k, List.getElem?_append_left]
    exact lt_of_lt_of_le k.isLt (Nat.le_of_not_lt hlen)

/-- The messages of a block, in their order. -/
theorem filterMap_finRange {α : Type} (l : List α) (n : ℕ) :
    (List.finRange n).filterMap (fun k => l[k.val]?) = l.take n := by
  induction n generalizing l with
  | zero => rfl
  | succ n ih =>
    rw [List.finRange_succ]
    cases l with
    | nil => simp
    | cons a l =>
      have hrest := ih l
      rw [List.filterMap_cons_some (by rfl), List.filterMap_map, List.take_succ_cons]
      exact congrArg (a :: ·) hrest

/-! ## Recording -/

/-- The text of a message that can be replayed. -/
def Replayable (ev : Events W) (deck : Deck W) (t : CStr) : Prop :=
  ∃ id rest, t = idMessage id rest ∧ 0 < id ∧ validForMacro id = true ∧ id ≠ vimsMacroSelect ∧ (0 : UInt8) ∉ rest ∧
    Scans ev deck id rest

/-- The current port holds what was heard at each position. -/
structure Holds (ev : Events W) (deck : Deck W) (r : Recorder) (h : Position → List CStr) : Prop where
  held : ∃ port, r.port = some port ∧ ∀ p : Position, p.Short → BlockHolds (port (hashKeyCode p.text)) (h p)
  replayable : ∀ p, ∀ t ∈ h p, Replayable ev deck t

/-- The recorder is on, and holds what was heard. -/
structure Recorded (ev : Events W) (deck : Deck W) (r : Recorder) (h : Position → List CStr) : Prop where
  status : r.status = 1
  line : 0 ≤ r.line.1
  holds : Holds ev deck r h

theorem Recorder.setPort_port (r : Recorder) (port : Option MacroPort) : (r.setPort port).port = port := by
  show Function.update r.banks r.current port r.current = port
  rw [Function.update_self]

/-- The block of a position after a message is stored, and the blocks of the others. -/
theorem storeMacro_port {r : Recorder} {port : MacroPort} (hport : r.port = some port) {p : Position} (hp : p.Short)
    (str : CStr) {l : List CStr} (hl : BlockHolds (port (hashKeyCode p.text)) l) :
    ∃ port', (storeMacro r p str).port = some port' ∧ BlockHolds (port' (hashKeyCode p.text)) (l ++ [str]) ∧
      ∀ h, h ≠ hashKeyCode p.text → port' h = port h := by
  rw [storeMacro, hport]
  simp only [hp.storeKey]
  cases hblock : port (hashKeyCode p.text) with
  | none =>
    rw [hblock] at hl
    obtain rfl : l = [] := hl
    dsimp only
    refine ⟨_, Recorder.setPort_port r _, ?_, fun h hne => Function.update_of_ne hne _ _⟩
    rw [Function.update_self]
    refine ⟨List.cons_ne_nil _ _, fun k => ?_⟩
    rw [Function.update_apply]
    split_ifs with hk
    · rw [hk]
      rfl
    · have hpos : 1 ≤ k.val := Nat.one_le_iff_ne_zero.mpr fun h => hk (Fin.ext h)
      exact (List.getElem?_eq_none hpos).symm
  | some m =>
    rw [hblock] at hl
    have hsnoc := hl.snoc str
    cases hfind : (List.finRange maxMacros).find? fun k => decide (1 ≤ k.val) && (m k).isNone with
    | none =>
      rw [hfind] at hsnoc
      simp only [hfind]
      refine ⟨port, hport, ?_, fun _ _ => rfl⟩
      rw [hblock]
      exact hsnoc
    | some k =>
      rw [hfind] at hsnoc
      simp only [hfind]
      refine ⟨_, Recorder.setPort_port r _, ?_, fun h hne => Function.update_of_ne hne _ _⟩
      rw [Function.update_self]
      exact hsnoc

/-- Only the banks change when a message is stored. -/
theorem storeMacro_banks (r : Recorder) (p : Position) (str : CStr) :
    ∃ banks, storeMacro r p str = { r with banks := banks } := by
  rw [storeMacro]
  cases r.port with
  | none => exact ⟨r.banks, rfl⟩
  | some port =>
    dsimp only
    cases port (hashKeyCode p.storeKey) with
    | none => exact ⟨_, rfl⟩
    | some m =>
      dsimp only
      split
      · exact ⟨r.banks, rfl⟩
      · exact ⟨_, rfl⟩

/-- **A message is stored** under its position. -/
theorem Recorded.store {ev : Events W} {deck : Deck W} {r : Recorder} {h : Position → List CStr}
    (hr : Recorded ev deck r h) {p : Position} (hp : p.Short) {str : CStr} (hstr : Replayable ev deck str) :
    Recorded ev deck (storeMacro r p str) (Function.update h p (h p ++ [str])) := by
  obtain ⟨hstatus, hline, ⟨port, hport, hheld⟩, hrep⟩ := hr
  obtain ⟨port', hport', hnew, hother⟩ := storeMacro_port hport hp str (hheld p hp)
  obtain ⟨banks, hbanks⟩ := storeMacro_banks r p str
  refine ⟨by rw [hbanks]; exact hstatus, by rw [hbanks]; exact hline, ⟨port', hport', fun q hq => ?_⟩, fun q t ht => ?_⟩
  · rw [Function.update_apply]
    split_ifs with hqp
    · rw [hqp]
      exact hnew
    · rw [hother _ fun hhash => hqp (hashKeyCode_text_inj hq hp hhash)]
      exact hheld q hq
  · rw [Function.update_apply] at ht
    split_ifs at ht with hqp
    · rcases List.mem_append.mp ht with ht | ht
      · exact hrep p t ht
      · rw [List.mem_singleton.mp ht]
        exact hstr
    · exact hrep q t ht

/-- An id that `valid_for_macro` admits is that of an event, and not of the recorder itself. -/
theorem validForMacro_id {id : ℤ} (h : validForMacro id = true) : id < 388 ∧ id ≠ vimsBundle ∧ id ≠ vimsMacro := by
  rw [validForMacro] at h
  split_ifs at h with hno
  refine ⟨by omega, fun h80 => hno ?_, fun h33 => ?_⟩
  · rw [vimsBundle] at h80
    omega
  · rw [h33] at h
    exact absurd h (by decide)

section Messages

variable {ev : Events W} {deck : Deck W} {id : ℤ} {rest : CStr}

/-- The events that a macro holds do not know the recorder. -/
theorem fire_recorder (hvalid : validForMacro id = true) (hbank : id ≠ vimsMacroSelect) (str : Option CStr)
    (args : List (Option ℤ)) (s : Recorder × W) :
    (recorderEvents ev deck).fire id str args s = (s.1, ev.fire id str args s.2) := by
  show (if id = vimsMacro then _ else if id = vimsMacroSelect then _ else _) = _
  rw [if_neg (validForMacro_id hvalid).2.2, if_neg hbank]

/-- **What an admitted message asks for.** -/
theorem select_acts (hpos : 0 < id) (hvalid : validForMacro id = true) (h0 : (0 : UInt8) ∉ rest)
    (hscans : Scans ev deck id rest) (get : ℤ → Option ℕ) :
    select (recorderEvents ev deck) get (message (idMessage id rest)) = .ok .nothing ∨
      ((unlined rest).length ≤ 1 ∧ ∃ f : Recorder × W → Recorder × W,
        (f = (fun s => s) ∨ f = (recorderEvents ev deck).fire id none (defaultArgs ev id)) ∧
        select (recorderEvents ev deck) get (message (idMessage id rest)) =
          .ok (.event fun s => (recorderEvents ev deck).storeMacro id (idMessage id (unlined rest)) (f s))) ∨
      ∃ f : Recorder × W → Recorder × W,
        (f = (fun s => s) ∨ ∃ str args, f = (recorderEvents ev deck).fire id str args) ∧
        select (recorderEvents ev deck) get (message (idMessage id rest)) =
          .ok (.event fun s => f ((recorderEvents ev deck).storeMacro id (idMessage id (unlined rest)) s)) := by
  obtain ⟨hlt, hbundle, -⟩ := validForMacro_id hvalid
  have hid : ValidId id := ⟨hpos, by rw [vimsMax]; omega⟩
  obtain ⟨sel, hsel⟩ := hscans get
  rw [hsel]
  rw [select_idMessage _ get hid h0, if_neg (by rw [vimsBundleStart]; omega)] at hsel
  obtain ⟨tail, hchomp⟩ := chompStr_idMessage hid h0
  have htext := chompStr_idMessage_text hid h0
  rcases selectEvent_acts _ get hbundle hsel with rfl | ⟨hlen, f, hf, rfl⟩ | ⟨f, hf, rfl⟩
  · exact .inl rfl
  · rw [hchomp, msgMinLen] at hlen
    rw [htext]
    refine .inr (.inl ⟨?_, f, hf, rfl⟩)
    dsimp only at hlen
    omega
  · rw [htext]
    exact .inr (.inr ⟨f, hf, rfl⟩)

theorem parse_event {fuel : ℕ} {m : Message} {s : Recorder × W} {act : Recorder × W → Recorder × W}
    (h : select (recorderEvents ev deck) (ev.bundleGet s.2) m = .ok (.event act)) :
    parseMsg (recorderEvents ev deck) (fuel + 1) m s = .ok (act s) := by
  have h' : select (recorderEvents ev deck) ((recorderEvents ev deck).bundleGet s) m = .ok (.event act) := h
  rw [parseMsg, h']
  rfl

theorem parse_nothing {fuel : ℕ} {m : Message} {s : Recorder × W}
    (h : select (recorderEvents ev deck) (ev.bundleGet s.2) m = .ok .nothing) :
    parseMsg (recorderEvents ev deck) (fuel + 1) m s = .ok s := by
  have h' : select (recorderEvents ev deck) ((recorderEvents ev deck).bundleGet s) m = .ok .nothing := h
  rw [parseMsg, h']
  rfl

end Messages

/-- The recorder takes a message. -/
theorem storeMacro_recording {ev : Events W} {deck : Deck W} {r : Recorder} {h : Position → List CStr}
    (hr : Recorded ev deck r h) {id : ℤ} (hvalid : validForMacro id = true) (str : CStr) (w : W) :
    (recorderEvents ev deck).storeMacro id str (r, w) = (storeMacro r (deck.position w) str, w) := by
  obtain ⟨port, hport, -⟩ := hr.holds.held
  show (if r.status = 1 ∧ r.port.isSome = true ∧ validForMacro id = true then _ else _) = _
  rw [if_pos ⟨hr.status, by rw [hport]; rfl, hvalid⟩]

/-- **One message of a run**: it is stored under the position where it arrived. -/
theorem record_step {ev : Events W} {deck : Deck W} {r : Recorder} {h : Position → List CStr} (fuel : ℕ)
    (hr : Recorded ev deck r h) {a : Arrival W} (hadm : a.Admitted) (hrec : a.Recordable ev deck) :
    Ensures (arrive ev deck fuel r a) fun x => Recorded ev deck x.2 (noteArrival ev deck h a) := by
  obtain ⟨hpos, hvalid, h0⟩ := hadm
  have hstr : Replayable ev deck a.text :=
    ⟨a.id, unlined a.rest, rfl, hpos, hvalid, hrec.keepsBank, unlined_no_zero h0, hrec.scansText⟩
  have hstored := hr.store hrec.short hstr
  rw [arrive]
  rcases select_acts hpos hvalid h0 hrec.scans (ev.bundleGet a.world) with hsel | ⟨hshort, f, hf, hsel⟩ | ⟨f, hf, hsel⟩
  · have hnote : noteArrival ev deck h a = h := by
      rw [noteArrival, heard, Arrival.msg, hsel]
      rfl
    rw [Arrival.msg, parse_nothing (s := (r, a.world)) hsel, hnote]
    exact ⟨_, rfl, hr⟩
  · -- a short message is stored after it is fired: playback must not have moved
    have hnote : noteArrival ev deck h a =
        Function.update h (deck.position a.world) (h (deck.position a.world) ++ [a.text]) := by
      rw [noteArrival, heard, Arrival.msg, hsel]
      rfl
    have hfire : ∃ w, f (r, a.world) = (r, w) ∧ deck.position w = deck.position a.world := by
      rcases hf with rfl | rfl
      · exact ⟨a.world, rfl, rfl⟩
      · exact ⟨_, fire_recorder hvalid hrec.keepsBank _ _ _, hrec.stays hshort⟩
    obtain ⟨w, hw, hsame⟩ := hfire
    rw [Arrival.msg, parse_event (s := (r, a.world)) hsel, hw, storeMacro_recording hr hvalid, hsame, hnote]
    exact ⟨_, rfl, hstored⟩
  · have hnote : noteArrival ev deck h a =
        Function.update h (deck.position a.world) (h (deck.position a.world) ++ [a.text]) := by
      rw [noteArrival, heard, Arrival.msg, hsel]
      rfl
    have hfire : ∀ s : Recorder × W, ∃ w, f s = (s.1, w) := by
      intro s
      rcases hf with rfl | ⟨str, args, rfl⟩
      · exact ⟨s.2, rfl⟩
      · exact ⟨_, fire_recorder hvalid hrec.keepsBank _ _ _⟩
    rw [Arrival.msg, parse_event (s := (r, a.world)) hsel, storeMacro_recording hr hvalid, hnote]
    obtain ⟨w, hw⟩ := hfire (storeMacro r (deck.position a.world) a.text, a.world)
    exact ⟨_, rfl, by
      show Recorded ev deck (f (storeMacro r (deck.position a.world) a.text, a.world)).1 _
      rw [hw]
      exact hstored⟩

/-- The recorder that is started has heard nothing. -/
theorem start_recorded (ev : Events W) (deck : Deck W) (r : Recorder) (w : W) :
    Recorded ev deck (setMacroStatus deck 1 1 (r, w)).1 fun _ => [] := by
  refine ⟨rfl, ?_, ⟨fun _ => none, ?_, fun _ _ => rfl⟩, fun _ t ht => absurd ht List.not_mem_nil⟩
  · exact Int.natCast_nonneg _
  · exact Recorder.setPort_port (resetMacro r) (some fun _ => none)

/-- **A run of messages.** -/
theorem record_run {ev : Events W} {deck : Deck W} {r : Recorder} {h : Position → List CStr} (fuel : ℕ)
    (hr : Recorded ev deck r h) (as : List (Arrival W)) (has : ∀ a ∈ as, a.Admitted ∧ a.Recordable ev deck) :
    Ensures (runOps (arrive ev deck fuel) r as) fun x => Recorded ev deck x.2 (as.foldl (noteArrival ev deck) h) := by
  have hmeets : HistoryMeets (noteArrival ev deck) (fun _ a => (a.Admitted ∧ a.Recordable ev deck) ∧ True) h as :=
    HistoryMeets.and_of_mem (historyMeets_of_forall (fun _ _ => trivial) as h) has
  have hstep : ∀ (r : Recorder) (h : Position → List CStr) (a : Arrival W), Recorded ev deck r h →
      (a.Admitted ∧ a.Recordable ev deck) ∧ True →
      Ensures (arrive ev deck fuel r a) fun x => Recorded ev deck x.2 (noteArrival ev deck h a) :=
    fun r h a hr ha => record_step fuel hr ha.1.1 ha.1.2
  exact runOps_refines hstep as r h hr hmeets

/-! ## Replaying -/

/-- A message that is replayed leaves the recorder as it is. -/
theorem replay_message {ev : Events W} {deck : Deck W} (fuel : ℕ) {t : CStr} (ht : Replayable ev deck t)
    {s : Recorder × W} (hs : s.1.status = 2) :
    ∃ w, parseMsg (recorderEvents ev deck) (fuel + 1) (message t) s = .ok (s.1, w) := by
  obtain ⟨id, rest, rfl, hpos, hvalid, hbank, h0, hscans⟩ := ht
  have hstore : ∀ str w, (recorderEvents ev deck).storeMacro id str (s.1, w) = (s.1, w) := by
    intro str w
    show (if s.1.status = 1 ∧ s.1.port.isSome = true ∧ validForMacro id = true then _ else _) = _
    rw [if_neg fun h => by rw [hs] at h; exact absurd h.1 (by decide)]
  have hfire : ∀ (f : Recorder × W → Recorder × W),
      (f = (fun s => s) ∨ ∃ str args, f = (recorderEvents ev deck).fire id str args) → ∀ w, ∃ w', f (s.1, w) = (s.1, w') := by
    intro f hf w
    rcases hf with rfl | ⟨str, args, rfl⟩
    · exact ⟨w, rfl⟩
    · exact ⟨_, fire_recorder hvalid hbank _ _ _⟩
  rcases select_acts hpos hvalid h0 hscans (ev.bundleGet s.2) with hsel | ⟨-, f, hf, hsel⟩ | ⟨f, hf, hsel⟩
  · exact ⟨s.2, parse_nothing hsel⟩
  · obtain ⟨w, hw⟩ := hfire f (hf.imp_right fun hf => ⟨_, _, hf⟩) s.2
    refine ⟨w, ?_⟩
    rw [parse_event hsel]
    show Except.ok ((recorderEvents ev deck).storeMacro id _ (f (s.1, s.2))) = _
    rw [hw, hstore]
  · obtain ⟨w, hw⟩ := hfire f hf s.2
    refine ⟨w, ?_⟩
    rw [parse_event hsel]
    show Except.ok (f ((recorderEvents ev deck).storeMacro id _ (s.1, s.2))) = _
    rw [hstore, hw]

/-- **The loop of a pass** interprets the messages of its block, one after the other. -/
theorem replayLoop_block {ev : Events W} {deck : Deck W} (fuel : ℕ) {r : Recorder} (hr : r.status = 2) {key : CStr}
    {l : List CStr} (hkey : ∀ i, retrieveMacro r i key = l[i.val]?) (hl : ∀ t ∈ l, Replayable ev deck t)
    (is : List (Fin maxMacros)) (w : W) :
    ∃ w', replayLoop (recorderEvents ev deck) (fuel + 1) key is (r, w) = .ok (is.filterMap (fun i => l[i.val]?), (r, w')) := by
  induction is generalizing w with
  | nil => exact ⟨w, rfl⟩
  | cons i is ih =>
    rw [replayLoop]
    dsimp only
    rw [hkey i]
    cases hi : l[i.val]? with
    | none =>
      obtain ⟨w', hw'⟩ := ih w
      rw [List.filterMap_cons_none (f := fun i : Fin maxMacros => l[i.val]?) hi]
      exact ⟨w', hw'⟩
    | some t =>
      have ht : t ∈ l := List.mem_of_getElem? hi
      obtain ⟨w₁, hw₁⟩ := replay_message fuel (hl t ht) (s := (r, w)) hr
      obtain ⟨w', hw'⟩ := ih w₁
      refine ⟨w', ?_⟩
      rw [List.filterMap_cons_some (f := fun i : Fin maxMacros => l[i.val]?) hi]
      dsimp only
      rw [hw₁, ok_bind, hw', ok_bind]

/-- What is retrieved for a position. -/
theorem Holds.retrieve {ev : Events W} {deck : Deck W} {r : Recorder} {h : Position → List CStr} (hr : Holds ev deck r h)
    {p : Position} (hp : p.Short) (i : Fin maxMacros) : retrieveMacro r i p.replayKey = (h p)[i.val]? := by
  obtain ⟨port, hport, hheld⟩ := hr.held
  have hblock := hheld p hp
  rw [retrieveMacro, hport, hp.replayKey]
  dsimp only
  cases hm : port (hashKeyCode p.text) with
  | none =>
    rw [hm] at hblock
    have hnil : h p = [] := hblock
    rw [hnil]
    rfl
  | some m =>
    rw [hm] at hblock
    exact hblock.2 i

/-- **A pass** interprets the messages that are held for the position. -/
theorem Holds.replay {ev : Events W} {deck : Deck W} {r : Recorder} {h : Position → List CStr} (hr : Holds ev deck r h)
    (hstatus : r.status = 2) (fuel : ℕ) (w : W) (hp : (deck.position w).Short)
    (hmax : (h (deck.position w)).length ≤ maxMacros) :
    ∃ w', replayPass ev deck (fuel + 1) (r, w) = .ok (h (deck.position w), (r, w')) := by
  obtain ⟨port, hport, -⟩ := hr.held
  obtain ⟨w', hw'⟩ := replayLoop_block fuel hstatus (hr.retrieve hp) (hr.replayable _) (List.finRange maxMacros) w
  refine ⟨w', ?_⟩
  rw [replayPass, if_pos ⟨hstatus, by rw [hport]; rfl⟩, hw', filterMap_finRange, List.take_of_length_le hmax]

/-- The macro is played. -/
theorem Recorded.play {ev : Events W} {deck : Deck W} {r : Recorder} {h : Position → List CStr}
    (hr : Recorded ev deck r h) (w : W) :
    (setMacroStatus deck 2 1 (r, w)).1.status = 2 ∧ Holds ev deck (setMacroStatus deck 2 1 (r, w)).1 h := by
  obtain ⟨hstatus, hline, hholds⟩ := hr
  obtain ⟨port, hport, hheld⟩ := hholds.held
  have hplay : setMacroStatus deck 2 1 (r, w) = ({ r with status := 2 }, deck.goBack r.line w) := by
    show playMacro deck (r, w) = _
    rw [playMacro, if_neg fun h => by rw [hstatus] at h; exact absurd h.1 (by decide),
      if_pos ⟨hline, by rw [hport]; rfl⟩]
  rw [hplay]
  exact ⟨rfl, ⟨port, hport, hheld⟩, hholds.replayable⟩

/-- **A pass replays what was recorded at its position**: exactly the messages that arrived there, in their order. -/
theorem replay_exactly (ev : Events W) (deck : Deck W) (fuel : ℕ) (r₀ : Recorder) (w₀ : W) (as : List (Arrival W))
    (has : ∀ a ∈ as, a.Admitted ∧ a.Recordable ev deck) (w w' : W) (hw' : (deck.position w').Short)
    (hmax : (history ev deck as (deck.position w')).length ≤ maxMacros) :
    Ensures (runOps (arrive ev deck fuel) (setMacroStatus deck 1 1 (r₀, w₀)).1 as) fun x =>
      Ensures (replayPass ev deck (fuel + 1) ((setMacroStatus deck 2 1 (x.2, w)).1, w')) fun y =>
        y.1 = history ev deck as (deck.position w') := by
  refine (record_run fuel (start_recorded ev deck r₀ w₀) as has).mono fun x hx => ?_
  obtain ⟨hstatus, hholds⟩ := hx.play w
  obtain ⟨w'', hpass⟩ := hholds.replay hstatus fuel w' hw' hmax
  exact ⟨_, hpass, rfl⟩

/-- Playback of the edit list: the state is the frame. -/
def plainDeck : Deck ℕ where
  playbackMode _ := 2
  sampleId _ := 0
  sampleGetFramedups _ := 0
  simpleFrameDup _ := 0
  currentFrameNum w := w
  goBack line _ := line.1.toNat
  sampleNext w := w

/-- `VIMS_VIDEO_GOTO_START`, of no argument, and `VIMS_VIDEO_SET_SPEED`, of one. -/
def plainEvents : Events ℕ where
  bundleGet _ _ := none
  textAt _ _ := none
  numArgs id := if id = 20 then 1 else 0
  format id := if id = 20 then lit "%d" else []
  defaultValue _ _ := 0
  allowAny id := id = 17
  longParams _ := false
  requireAll _ := false
  fire id _ _ w := if id = 17 then 0 else w
  parseKf _ w := w
  storeMacro _ _ w := w

/-- The speed is set at frame 5; the pass at frame 5 sets it again. -/
theorem replay_exactly_speed :
    Ensures (runOps (arrive plainEvents plainDeck 0)
        (setMacroStatus plainDeck 1 1 (⟨fun _ => none, 0, 0, (-1, 0, 0)⟩, 5)).1 [⟨5, 20, lit "2;"⟩]) fun x =>
      Ensures (replayPass plainEvents plainDeck 1 ((setMacroStatus plainDeck 2 1 (x.2, 9)).1, 5)) fun y =>
        y.1 = history plainEvents plainDeck [⟨5, 20, lit "2;"⟩] (plainDeck.position 5) := by
  refine replay_exactly plainEvents plainDeck 0 _ 5 [⟨5, 20, lit "2;"⟩] ?_ 9 5 (by decide) (by decide)
  intro a ha
  obtain rfl := List.mem_singleton.mp ha
  exact ⟨⟨by decide, by decide, by decide⟩, by decide, by decide, fun h => absurd h (by decide), fun _ => ⟨_, rfl⟩,
    fun _ => ⟨_, rfl⟩⟩

/-- **A message that moves playback** arrives at frame 5, and is replayed at frame 0. -/
theorem replay_moved :
    (⟨5, 17, lit ";"⟩ : Arrival ℕ).Admitted ∧
    history plainEvents plainDeck [⟨5, 17, lit ";"⟩] (plainDeck.position 5) = [lit "017:;"] ∧
    Ensures (runOps (arrive plainEvents plainDeck 0)
        (setMacroStatus plainDeck 1 1 (⟨fun _ => none, 0, 0, (-1, 0, 0)⟩, 5)).1 [⟨5, 17, lit ";"⟩]) fun x =>
      Ensures (replayPass plainEvents plainDeck 1 ((setMacroStatus plainDeck 2 1 (x.2, 9)).1, 5)) (fun y => y.1 = []) ∧
      Ensures (replayPass plainEvents plainDeck 1 ((setMacroStatus plainDeck 2 1 (x.2, 9)).1, 0))
        fun y => y.1 = [lit "017:;"] :=
  ⟨⟨by decide, by decide, by decide⟩, by decide, _, rfl, ⟨_, rfl, rfl⟩, ⟨_, rfl, rfl⟩⟩

end Veejay.Macro
