import Veejay.CLib.Traced
import Veejay.Effects.PresetValues

/-!
# Lookups in the table of effects

The table `vj_effects` has the descriptions of the effects: 140 of the program, and behind them those of the plugins
(`libvje/vj-effect.c`).  An id comes with a message or from an entry of a chain, and `vj_effect_real_to_sequence` makes a
place of the table of it; for ids from 500 on, there is no upper bound.

* `EffectTable`, `vjEffects`, `vjEffectReady` — the table, the flags beside it, and what is looked at;
* `vjEffectGetNumParams`, `vjEffectGetDefault`, `vjEffectValidValue`, … — the lookups, each with its own guards;
* `chainAdd`, `chainAdd_meets` — **a new effect, with the lookups that it takes**: it is the one of the chains;
* `LookupCommand` — the commands that set an effect, a preset, or a parameter, of samples and of streams.
-/

namespace Veejay.Effects.Lookup

open CLib Veejay.Samples

/-! ## The table -/

/-- `FX_LIMIT` -/
def fxLimit : ℤ := 1024

/-- A description (`vj_effect`). -/
structure VjEffect where
  description : CStr
  numParams : ℕ
  defaults : ℕ → ℤ
  limits : ℕ → ℤ × ℤ
  extraFrame : Bool

/-- The descriptions: `vj_effect_initialize` fills the places of the 140 effects and those of the plugins that it found. -/
structure EffectTable where
  effects : ℕ → VjEffect
  nExtPlugs : ℕ
  fits : maxEffects + nExtPlugs ≤ fxLimit

/-- A place is looked at: in `vj_effects`, or in `vj_effect_ready`. -/
inductive Access where
  | effect (seq : ℤ)
  | ready (seq : ℤ)

/-- What the functions of the chains know of the effects. -/
def EffectTable.fx (t : EffectTable) : FxTable where
  nExtPlugs := t.nExtPlugs
  numParams id := (t.effects (vjEffectRealToSequence id).toNat).numParams
  default id j := (t.effects (vjEffectRealToSequence id).toNat).defaults j
  extraFrame id := (t.effects (vjEffectRealToSequence id).toNat).extraFrame

@[simp] theorem EffectTable.fx_nExtPlugs (t : EffectTable) : t.fx.nExtPlugs = t.nExtPlugs := rfl

/-- The place has a description. -/
def EffectTable.Has (t : EffectTable) (seq : ℤ) : Prop := 0 ≤ seq ∧ seq < maxEffects + t.nExtPlugs

instance (t : EffectTable) (seq : ℤ) : Decidable (t.Has seq) :=
  inferInstanceAs (Decidable (0 ≤ seq ∧ seq < maxEffects + t.nExtPlugs))

section Lookups

variable (t : EffectTable)

/-- `vj_effects[seq]`, for a field of it -/
def vjEffects (seq : ℤ) : Traced Access VjEffect :=
  .note (.effect seq)
    (if t.Has seq then .ok (t.effects seq.toNat)
    else if 0 ≤ seq ∧ seq < fxLimit then .error .nullPointer
    else .error .outOfBounds)

/-- `vj_effect_ready[seq]` -/
def vjEffectReady (ready : Ready) (seq : ℤ) : Traced Access Bool :=
  .note (.ready seq) (if 0 ≤ seq ∧ seq < fxLimit then .ok (ready seq) else .error .outOfBounds)

/-- A field of the description, for a function that asks for a place above 0. -/
def aboveZero {α : Type} (id : ℤ) (field : VjEffect → α) (none : α) : Traced Access α :=
  if 0 < vjEffectRealToSequence id then do
    let e ← vjEffects t (vjEffectRealToSequence id)
    pure (field e)
  else pure none

/-- `vj_effect_get_description` -/
def vjEffectGetDescription (id : ℤ) : Traced Access CStr := aboveZero t id VjEffect.description (lit "<none>")

/-- `vj_effect_get_extra_frame` -/
def vjEffectGetExtraFrame (id : ℤ) : Traced Access Bool := aboveZero t id VjEffect.extraFrame false

/-- `vj_effect_get_num_params` -/
def vjEffectGetNumParams (id : ℤ) : Traced Access ℕ :=
  if id < 0 then pure 0 else aboveZero t id VjEffect.numParams 0

/-- A number of a parameter, if there is the parameter. -/
def ofParameter (id paramNr : ℤ) (field : VjEffect → ℕ → ℤ) : Traced Access ℤ :=
  if 0 < vjEffectRealToSequence id ∧ 0 ≤ paramNr then do
    let e ← vjEffects t (vjEffectRealToSequence id)
    pure (if paramNr < e.numParams then field e paramNr.toNat else 0)
  else pure 0

/-- `vj_effect_get_default` -/
def vjEffectGetDefault (id paramNr : ℤ) : Traced Access ℤ := ofParameter t id paramNr VjEffect.defaults

/-- `vj_effect_get_min_limit` -/
def vjEffectGetMinLimit (id paramNr : ℤ) : Traced Access ℤ := ofParameter t id paramNr fun e j => (e.limits j).1

/-- `vj_effect_get_max_limit` -/
def vjEffectGetMaxLimit (id paramNr : ℤ) : Traced Access ℤ := ofParameter t id paramNr fun e j => (e.limits j).2

/-- `vj_effect_valid_value` -/
def vjEffectValidValue (id paramNr value : ℤ) : Traced Access Bool :=
  if 0 ≤ vjEffectRealToSequence id ∧ 0 ≤ paramNr then do
    let e ← vjEffects t (vjEffectRealToSequence id)
    pure (decide (paramNr < e.numParams ∧ (e.limits paramNr.toNat).1 ≤ value ∧ value ≤ (e.limits paramNr.toNat).2))
  else pure false

/-- `vj_effect_initialized` -/
def vjEffectInitialized (ready : Ready) (id : ℤ) (fxInstance : Option ℕ) : Traced Access Bool :=
  let seq := vjEffectRealToSequence id
  if seq < 0 then pure false
  else if isPluginSeq t.fx seq then pure fxInstance.isSome
  else if seq < maxEffects then
    if noMemRequired id then pure true else vjEffectReady ready seq
  else pure false

/-- `vj_effect_activate`: the result, the instance and the flags. -/
def vjEffectActivate (w : World) (ready : Ready) (id : ℤ) : Traced Access (Bool × Option ℕ × Ready) :=
  let seq := vjEffectRealToSequence id
  if seq < 0 ∨ maxEffects + t.nExtPlugs < seq then pure (false, none, ready)
  else if isPluginSeq t.fx seq then pure (w.plugActivate.isSome, w.plugActivate, ready)
  else if noMemRequired id then pure (true, none, ready)
  else do
    let up ← vjEffectReady ready seq
    if up then pure (true, none, ready)
    else if simpleEffectIndex.contains id then
      if w.memInit then pure (true, none, Function.update ready seq true) else pure (false, none, ready)
    else if complexEffectIndex.contains id then do
      -- `&(vj_effects[seq]->user_data)`
      let _ ← vjEffects t seq
      if w.memInit then pure (true, none, Function.update ready seq true) else pure (false, none, ready)
    else pure (false, none, ready)

/-- `vj_effect_deactivate`, for an effect that is initialised. -/
def vjEffectDeactivate (ready : Ready) (id : ℤ) : Traced Access Ready :=
  let seq := vjEffectRealToSequence id
  if isPluginSeq t.fx seq then pure ready
  else if seq < maxEffects then do
    let up ← vjEffectReady ready seq
    if up then
      if simpleEffectIndex.contains id then pure (Function.update ready seq false)
      else if complexEffectIndex.contains id then do
        -- `vj_effects[seq]->user_data`
        let _ ← vjEffects t seq
        pure (Function.update ready seq false)
      else pure ready
    else pure ready
  else pure ready

/-! ## A new effect -/

/-- The first block of `sample_chain_add` and of `vj_tag_set_effect`. -/
def discardOld (s : FxState) (c : Fin sampleMaxEffects) (effectNr : ℤ) : Traced Access FxState :=
  let entry := s.chain c
  if entry.effectId ≠ -1 ∧ entry.effectId ≠ effectNr then do
    let on ← vjEffectInitialized t s.ready entry.effectId entry.fxInstance
    if on then
      if !vjEffectIsPlugin t.fx entry.effectId && Elsewhere s.chain c effectNr then pure s
      else do
        let ready ← vjEffectDeactivate t s.ready entry.effectId
        pure ⟨Function.update s.chain c { entry with fxInstance := none }, ready⟩
    else pure s
  else pure s

/-- The loop over the default values. -/
def setDefaults (effectNr : ℤ) : List ℕ → (ℕ → ℤ) → Traced Access (ℕ → ℤ)
  | [], arg => pure arg
  | i :: is, arg => do
    let val ← vjEffectGetDefault t effectNr i
    setDefaults effectNr is (Function.update arg i val)

/-- The default values of a new effect; samples ask for their number in any case. -/
def withDefaults (kind : Kind) (kf : Option ℕ) (entry : FxEntry) (effectNr : ℤ) : Traced Access FxEntry :=
  if kind = .sample ∨ entry.effectId ≠ effectNr then do
    let params ← vjEffectGetNumParams t effectNr
    if entry.effectId ≠ effectNr then do
      let arg ← setDefaults t effectNr (List.range params) entry.arg
      pure { entry with arg := arg, eFlag := 1, kfStatus := 0, kfType := 0, kf := kf }
    else pure entry
  else pure entry

/-- An entry that uses the effect; of samples, there is a message with the description. -/
def usedEntry (kind : Kind) (kf : Option ℕ) (mixIn : FxEntry → FxEntry) (effectNr : ℤ) (entry : FxEntry) :
    Traced Access FxEntry := do
  let entry ← withDefaults t kind kf entry effectNr
  let extra ← vjEffectGetExtraFrame t effectNr
  if extra then
    match kind with
    | .sample => do
      let _ ← vjEffectGetDescription t effectNr
      pure (mixIn { entry with effectId := effectNr })
    | .stream => pure (mixIn { entry with effectId := effectNr })
  else pure { entry with effectId := effectNr }

/-- The second block of `sample_chain_add` and of `vj_tag_set_effect`. -/
def activateNew (w : World) (kind : Kind) (kf : Option ℕ) (mixIn : FxEntry → FxEntry) (s : FxState)
    (c : Fin sampleMaxEffects) (effectNr : ℤ) : Traced Access (ℤ × FxState) := do
  let entry := s.chain c
  let on ← vjEffectInitialized t s.ready effectNr entry.fxInstance
  if on then do
    let used ← usedEntry t kind kf mixIn effectNr entry
    pure (1, s.setEntry c used)
  else do
    let r ← vjEffectActivate t w s.ready effectNr
    if r.1 then do
      let used ← usedEntry t kind kf mixIn effectNr { entry with fxInstance := r.2.1 }
      pure (1, ⟨Function.update s.chain c used, r.2.2⟩)
    else pure (0, ⟨Function.update s.chain c (clearedEntry entry r.2.1), r.2.2⟩)

/-- The common text of `sample_chain_add` and `vj_tag_set_effect`. -/
def addEffect (w : World) (kind : Kind) (kf : Option ℕ) (mixIn : FxEntry → FxEntry) (s : FxState) (c effectNr : ℤ) :
    Traced Access (ℤ × FxState) :=
  match position c with
  | none => pure (0, s)
  | some c => do
    let s ← discardOld t s c effectNr
    activateNew t w kind kf mixIn s c effectNr

/-- What a mixing effect does to its entry, in a sample. -/
def mixInSample (w : World) (entry : FxEntry) : FxEntry :=
  { entry with
    frameTrimmer := 0
    channel := if entry.channel ≤ 0 then w.sampleSize - 1 else entry.channel
    sourceType := if entry.sourceType < 0 then 0 else entry.sourceType }

/-- What a mixing effect does to its entry, in a stream. -/
def mixInStream (t1 : ℤ) (entry : FxEntry) : FxEntry :=
  { entry with
    sourceType := if entry.sourceType < 0 then 1 else entry.sourceType
    channel := if entry.channel ≤ 0 then t1 else entry.channel }

/-- `sample_chain_add` or `vj_tag_set_effect` -/
def chainAdd (w : World) (kind : Kind) (id : ℤ) : FxState → ℤ → ℤ → Traced Access (ℤ × FxState) :=
  match kind with
  | .sample => addEffect t w .sample none (mixInSample w)
  | .stream => addEffect t w .stream (some w.port) (mixInStream id)

/-! ## Commands -/

/-- The chain of a sample is worked on, if there is the sample: 0 if there is none. -/
def onChain (b : FxBank) (id : ℤ) (f : FxState → Traced Access (ℤ × FxState)) : Traced Access (ℤ × FxBank) :=
  match b.samples id with
  | none => pure (0, b)
  | some s => do
    let r ← f ⟨s.chain, b.ready⟩
    pure (r.1, { b with
      samples := Function.update b.samples id (some { s with chain := r.2.chain })
      ready := r.2.ready })

/-- `sample_set_effect_arg` or `vj_tag_set_effect_arg`, for an entry of the chain -/
def setEffectArg (b : FxBank) (id : ℤ) (c : Fin sampleMaxEffects) (argnr value : ℤ) : ℤ × FxBank :=
  match b.samples id with
  | none => (-1, b)
  | some s =>
    if argnr < 0 ∨ sampleMaxParameters < argnr then (-1, b)
    else
      (1, { b with
        samples := Function.update b.samples id
          (some { s with chain := (FxState.setArg ⟨s.chain, b.ready⟩ c argnr.toNat value).chain }) })

/-- `sample_get_effect_any` or `vj_tag_get_effect_any`, for an entry of the chain -/
def getEffectAny (kind : Kind) (b : FxBank) (id : ℤ) (c : Fin sampleMaxEffects) : ℤ :=
  match b.samples id with
  | none => match kind with
    | .sample => -1
    | .stream => 0
  | some s => (s.chain c).effectId

/-- The sample that is asked for: of streams, it is the one that is played. -/
def askedFor (kind : Kind) (b : FxBank) (a0 : ℤ) : ℤ :=
  match kind with
  | .sample => played b a0
  | .stream => b.sampleId

/-- `vj_event_chain_entry_set` -/
def vjEventChainEntrySet (w : World) (kind : Kind) (b : FxBank) (a0 a1 a2 : ℤ) : Traced Access FxBank :=
  match position (entryNo b a1) with
  | none => pure b
  | some _ => do
    let r ← onChain b (playedOrLast b a0) fun s => chainAdd t w kind (playedOrLast b a0) s (entryNo b a1) a2
    pure r.2

/-- The loop over the parameters in `vj_event_chain_entry_preset`; `args` is what it finds from `args[3]` on. -/
def setParams (kind : Kind) (id : ℤ) (c : Fin sampleMaxEffects) (realId : ℤ) (args : ℕ → ℤ) :
    List ℕ → FxBank → Traced Access FxBank
  | [], b => pure b
  | i :: is, b => do
    let ok ← vjEffectValidValue t realId i (args i)
    if ok then do
      let r := setEffectArg b id c i (args i)
      -- the text of an error in samples, of success in streams, where -1 is success as well
      if kind = .stream ∨ r.1 = -1 then do
        let _ ← vjEffectGetDescription t realId
        setParams kind id c realId args is r.2
      else setParams kind id c realId args is r.2
    else
      match kind with
      | .sample => setParams kind id c realId args is b
      | .stream => do
        let _ ← vjEffectGetMinLimit t realId i
        let _ ← vjEffectGetMaxLimit t realId i
        setParams kind id c realId args is b

/-- `vj_event_chain_entry_preset`, behind the scanning of its numbers: what `args[SAMPLE_MAX_PARAMETERS]` holds then, and
what lies behind it. -/
def vjEventChainEntryPreset (w : World) (kind : Kind) (b : FxBank) (a0 a1 a2 : ℤ) (args : ℕ → ℤ) :
    Traced Access FxBank :=
  match position (entryNo b a1) with
  | none => pure b
  | some c =>
    if (b.samples (askedFor kind b a0)).isSome then do
      let numP ← vjEffectGetNumParams t a2
      let r ← onChain b (played b a0) fun s => chainAdd t w kind (played b a0) s (entryNo b a1) a2
      if r.1 = 0 then pure r.2 else setParams t kind (played b a0) c a2 args (List.range numP) r.2
    else pure b

/-- `vj_event_chain_entry_set_arg_val` -/
def vjEventChainEntrySetArgVal (kind : Kind) (b : FxBank) (a0 a1 a2 a3 : ℤ) : Traced Access FxBank :=
  match position (entryNo b a1) with
  | none => pure b
  | some c =>
    let id := match kind with
      | .sample => playedOrLast b a0
      | .stream => played b a0
    if (b.samples id).isSome then do
      let ok ← vjEffectValidValue t (getEffectAny kind b id c) a2 a3
      pure (if ok then (setEffectArg b id c a2 a3).2 else b)
    else pure b

/-- `vj_event_chain_entry_set_narg_val` -/
def vjEventChainEntrySetNargVal (kind : Kind) (b : FxBank) (a0 a1 a2 value : ℤ) : Traced Access FxBank :=
  match position (entryNo b a1) with
  | none => pure b
  | some c =>
    if (b.samples (askedFor kind b a0)).isSome then do
      let effect := getEffectAny kind b b.sampleId c
      let numP ← vjEffectGetNumParams t effect
      let a2 := if a2 > numP then (numP : ℤ) else a2
      let min ← vjEffectGetMinLimit t effect a2
      let max ← vjEffectGetMaxLimit t effect a2
      let r := setEffectArg b (played b a0) c a2 (nargValue min max value)
      if r.1 = -1 then do
        let _ ← vjEffectGetDescription t effect
        pure r.2
      else pure r.2
    else pure b

/-- `vj_event_chain_arg_inc`; without the sample, the effect is none of the table and nothing is set. -/
def vjEventChainArgInc (kind : Kind) (b : FxBank) (a0 a1 : ℤ) : Traced Access FxBank :=
  match position (sampleGetSelectedEntry b b.sampleId) with
  | none => pure b
  | some c => do
    let effect := getEffectAny kind b b.sampleId c
    let tval := sampleGetEffectArg b b.sampleId c a0 + a1
    if kind = .stream ∨ vjEffectIsValid t.fx effect = true then do
      let max ← vjEffectGetMaxLimit t effect a0
      let min ← vjEffectGetMinLimit t effect a0
      if tval > max then pure (setEffectArg b b.sampleId c a0 min).2
      else if tval < min then do
        let max ← vjEffectGetMaxLimit t effect a0
        pure (setEffectArg b b.sampleId c a0 max).2
      else pure (setEffectArg b b.sampleId c a0 tval).2
    else pure b

end Lookups

/-- The commands, with the numbers that they bring. -/
inductive LookupCommand where
  | set (w : World) (a0 a1 a2 : ℤ)
  | preset (w : World) (a0 a1 a2 : ℤ) (args : ℕ → ℤ)
  | setArgVal (a0 a1 a2 a3 : ℤ)
  | setNargVal (a0 a1 a2 value : ℤ)
  | argInc (a0 a1 : ℤ)

/-- One command, while samples or streams are played. -/
def LookupCommand.run (t : EffectTable) (kind : Kind) (b : FxBank) : LookupCommand → Traced Access FxBank
  | .set w a0 a1 a2 => vjEventChainEntrySet t w kind b a0 a1 a2
  | .preset w a0 a1 a2 args => vjEventChainEntryPreset t w kind b a0 a1 a2 args
  | .setArgVal a0 a1 a2 a3 => vjEventChainEntrySetArgVal t kind b a0 a1 a2 a3
  | .setNargVal a0 a1 a2 value => vjEventChainEntrySetNargVal t kind b a0 a1 a2 value
  | .argInc a0 a1 => vjEventChainArgInc t kind b a0 a1

/-- The samples and the streams.  They share the flags. -/
structure Banks where
  bank : Kind → FxBank
  shared : (bank .sample).ready = (bank .stream).ready

/-- The banks after one of them has changed. -/
def Banks.set (bs : Banks) (kind : Kind) (b : FxBank) : Banks where
  bank k := if k = kind then b else { bs.bank k with ready := b.ready }
  shared := by cases kind <;> rfl

/-- One command of a run, for samples or for streams. -/
def lookupStep (t : EffectTable) (bs : Banks) (command : Kind × LookupCommand) : Traced Access Banks := do
  let b ← command.2.run t command.1 (bs.bank command.1)
  pure (bs.set command.1 b)

/-! ## What a lookup gives -/

/-- The property `Q` of a trace lets all places of the table pass. -/
structure Allows (t : EffectTable) (Q : Access → Prop) : Prop where
  effect : ∀ seq, t.Has seq → Q (.effect seq)
  ready : ∀ seq, t.Has seq → Q (.ready seq)

section Gives

variable {t : EffectTable} {Q : Access → Prop} {id : ℤ} {seq : ℤ} {ready : Ready}

theorem EffectTable.Has.limit (h : t.Has seq) : 0 ≤ seq ∧ seq < fxLimit :=
  ⟨h.1, lt_of_lt_of_le h.2 t.fits⟩

theorem has_of_valid (hvalid : vjEffectIsValid t.fx id = true) : t.Has (vjEffectRealToSequence id) := by
  obtain ⟨hpos, hlt⟩ := valid_seq hvalid
  exact ⟨hpos.le, hlt⟩

theorem vjEffects_meets (hQ : Allows t Q) (h : t.Has seq) :
    (vjEffects t seq).Meets Q fun e => e = t.effects seq.toNat := by
  refine .note (hQ.effect seq h) fun e he => ?_
  rw [if_pos h] at he
  exact (Except.ok.inj he).symm

theorem vjEffectReady_meets (hQ : Q (.ready seq)) : (vjEffectReady ready seq).Meets Q fun up => up = ready seq := by
  refine .note hQ fun up hup => ?_
  split_ifs at hup
  exact (Except.ok.inj hup).symm

/-- The id leads to no place behind the table. -/
def Within (t : EffectTable) (id : ℤ) : Prop := vjEffectRealToSequence id < maxEffects + t.nExtPlugs

theorem within_of_lt (h : id < vjExtEffect + t.nExtPlugs) : Within t id := by
  rw [vjExtEffect] at h
  unfold Within vjEffectRealToSequence
  rw [maxEffects, vjExtEffect]
  split_ifs <;> omega

theorem aboveZero_meets (hQ : Allows t Q) (h : Within t id) {α : Type} (field : VjEffect → α) (none : α) :
    (aboveZero t id field none).Meets Q fun a =>
      a = if 0 < vjEffectRealToSequence id then field (t.effects (vjEffectRealToSequence id).toNat) else none := by
  rw [aboveZero]
  split_ifs with hpos
  · refine (vjEffects_meets hQ ⟨hpos.le, h⟩).bind fun e he => .pure ?_
    rw [he]
  · exact .pure rfl

theorem vjEffectGetDescription_meets (hQ : Allows t Q) (h : Within t id) :
    (vjEffectGetDescription t id).Meets Q fun _ => True :=
  (aboveZero_meets hQ h _ _).mono fun _ _ => trivial

theorem vjEffectGetNumParams_within (hQ : Allows t Q) (h : Within t id) :
    (vjEffectGetNumParams t id).Meets Q fun _ => True := by
  rw [vjEffectGetNumParams]
  split_ifs
  · exact .pure trivial
  · exact (aboveZero_meets hQ h _ _).mono fun _ _ => trivial

theorem ofParameter_within (hQ : Allows t Q) (h : Within t id) (j : ℤ) (field : VjEffect → ℕ → ℤ) :
    (ofParameter t id j field).Meets Q fun _ => True := by
  rw [ofParameter]
  split_ifs with hpos
  · exact (vjEffects_meets hQ ⟨hpos.1.le, h⟩).bind fun _ _ => .pure trivial
  · exact .pure trivial

theorem vjEffectValidValue_within (hQ : Allows t Q) (h : Within t id) (j value : ℤ) :
    (vjEffectValidValue t id j value).Meets Q fun _ => True := by
  rw [vjEffectValidValue]
  split_ifs with hpos
  · exact (vjEffects_meets hQ ⟨hpos.1, h⟩).bind fun _ _ => .pure trivial
  · exact .pure trivial

/-! ### Valid effects -/

theorem vjEffectGetNumParams_meets (hQ : Allows t Q) (hvalid : vjEffectIsValid t.fx id = true) :
    (vjEffectGetNumParams t id).Meets Q fun n => n = t.fx.numParams id := by
  have hpos := (valid_seq hvalid).1
  have hid : ¬ id < 0 := by
    rw [vjEffectRealToSequence, vjExtEffect] at hpos
    split_ifs at hpos <;> omega
  rw [vjEffectGetNumParams, if_neg hid]
  refine (aboveZero_meets hQ (has_of_valid hvalid).2 _ _).mono fun n hn => ?_
  rw [hn, if_pos hpos]
  rfl

theorem vjEffectGetExtraFrame_meets (hQ : Allows t Q) (hvalid : vjEffectIsValid t.fx id = true) :
    (vjEffectGetExtraFrame t id).Meets Q fun extra => extra = t.fx.extraFrame id := by
  refine (aboveZero_meets hQ (has_of_valid hvalid).2 _ _).mono fun n hn => ?_
  rw [hn, if_pos (valid_seq hvalid).1]
  rfl

theorem vjEffectGetDefault_meets (hQ : Allows t Q) (hvalid : vjEffectIsValid t.fx id = true) {j : ℕ}
    (hj : j < t.fx.numParams id) : (vjEffectGetDefault t id j).Meets Q fun val => val = t.fx.default id j := by
  rw [vjEffectGetDefault, ofParameter, if_pos ⟨(valid_seq hvalid).1, Int.natCast_nonneg j⟩]
  refine (vjEffects_meets hQ (has_of_valid hvalid)).bind fun e he => .pure ?_
  have hlt : (j : ℤ) < (t.effects (vjEffectRealToSequence id).toNat).numParams := Int.ofNat_lt.mpr hj
  rw [he, if_pos hlt]
  rfl

/-! ### Activation -/

/-- The effects with functions for memory are among those of the program. -/
theorem seq_of_listed (h : (simpleEffectIndex.contains id || complexEffectIndex.contains id) = true) :
    0 < vjEffectRealToSequence id ∧ vjEffectRealToSequence id < maxEffects := by
  have hall : ∀ i ∈ simpleEffectIndex ++ complexEffectIndex,
      0 < vjEffectRealToSequence i ∧ vjEffectRealToSequence i < maxEffects := by decide
  refine hall id (List.mem_append.mpr ?_)
  rcases Bool.or_eq_true_iff.mp h with h | h
  · exact .inl (List.contains_iff_mem.mp h)
  · exact .inr (List.contains_iff_mem.mp h)

theorem has_of_listed (h : (simpleEffectIndex.contains id || complexEffectIndex.contains id) = true) :
    t.Has (vjEffectRealToSequence id) := by
  obtain ⟨hpos, hlt⟩ := seq_of_listed h
  exact ⟨hpos.le, by omega⟩

theorem vjEffectInitialized_meets (hQ : Allows t Q) (fxInstance : Option ℕ) :
    (vjEffectInitialized t ready id fxInstance).Meets Q fun on =>
      on = Effects.vjEffectInitialized t.fx ready id fxInstance := by
  rw [vjEffectInitialized, Effects.vjEffectInitialized]
  split_ifs with hneg hplugin hlt hmem
  · exact .pure rfl
  · exact .pure rfl
  · rw [hmem]
    exact .pure rfl
  · rw [Bool.eq_false_iff.mpr hmem, Bool.false_or]
    exact vjEffectReady_meets (hQ.ready _ ⟨by omega, by omega⟩)
  · exact .pure rfl

/-- Activation looks at a flag behind the table for one id. -/
theorem vjEffectActivate_meets (hQ : Allows t Q) (w : World)
    (hlast : id = vjExtEffect + t.nExtPlugs → Q (.ready (maxEffects + t.nExtPlugs))) :
    (vjEffectActivate t w ready id).Meets Q fun r => r = Effects.vjEffectActivate t.fx w ready id := by
  rw [vjEffectActivate, Effects.vjEffectActivate, EffectTable.fx_nExtPlugs]
  by_cases hout : vjEffectRealToSequence id < 0 ∨ maxEffects + t.nExtPlugs < vjEffectRealToSequence id
  · rw [if_pos hout, if_pos hout]
    exact .pure rfl
  rw [if_neg hout, if_neg hout]
  by_cases hplugin : isPluginSeq t.fx (vjEffectRealToSequence id) = true
  · rw [if_pos hplugin, if_pos hplugin]
    exact .pure rfl
  rw [if_neg hplugin, if_neg hplugin]
  by_cases hmem : noMemRequired id = true
  · rw [if_pos hmem, if_pos hmem]
    exact .pure rfl
  rw [if_neg hmem, if_neg hmem]
  have hready : Q (.ready (vjEffectRealToSequence id)) := by
    by_cases heq : vjEffectRealToSequence id = maxEffects + t.nExtPlugs
    · rw [heq]
      refine hlast ?_
      unfold vjEffectRealToSequence at heq
      rw [maxEffects, vjExtEffect] at heq
      rw [vjExtEffect]
      split_ifs at heq <;> omega
    · exact hQ.ready _ ⟨by omega, by omega⟩
  refine (vjEffectReady_meets hready).bind fun up hup => ?_
  rw [hup]
  by_cases hon : ready (vjEffectRealToSequence id) = true
  · rw [if_pos hon, if_pos hon]
    exact .pure rfl
  rw [if_neg hon, if_neg hon]
  by_cases hsimple : simpleEffectIndex.contains id = true
  · have hlisted : (simpleEffectIndex.contains id || complexEffectIndex.contains id) = true := by
      rw [hsimple, Bool.true_or]
    rw [if_pos hsimple, if_pos hlisted]
    split_ifs
    · exact .pure rfl
    · exact .pure rfl
  rw [if_neg hsimple, Bool.eq_false_iff.mpr hsimple, Bool.false_or]
  by_cases hcomplex : complexEffectIndex.contains id = true
  · rw [if_pos hcomplex, if_pos hcomplex]
    have hhas : t.Has (vjEffectRealToSequence id) := has_of_listed (by rw [hcomplex, Bool.or_true])
    refine (vjEffects_meets hQ hhas).bind fun _ _ => ?_
    split_ifs
    · exact .pure rfl
    · exact .pure rfl
  · rw [if_neg hcomplex, if_neg hcomplex]
    exact .pure rfl

theorem vjEffectDeactivate_meets (hQ : Allows t Q) (hneg : 0 ≤ vjEffectRealToSequence id) :
    (vjEffectDeactivate t ready id).Meets Q fun r => r = Effects.vjEffectDeactivate t.fx ready id := by
  rw [vjEffectDeactivate, Effects.vjEffectDeactivate]
  by_cases hplugin : isPluginSeq t.fx (vjEffectRealToSequence id) = true
  · rw [if_pos hplugin, if_pos hplugin]
    exact .pure rfl
  rw [if_neg hplugin, if_neg hplugin]
  by_cases hlt : vjEffectRealToSequence id < maxEffects
  · rw [if_pos hlt, if_pos hlt]
    have hhas : t.Has (vjEffectRealToSequence id) := ⟨hneg, by omega⟩
    refine (vjEffectReady_meets (hQ.ready _ hhas)).bind fun up hup => ?_
    rw [hup]
    by_cases hon : ready (vjEffectRealToSequence id) = true
    · rw [if_pos hon, hon, Bool.true_and]
      by_cases hsimple : simpleEffectIndex.contains id = true
      · have hlisted : (simpleEffectIndex.contains id || complexEffectIndex.contains id) = true := by
          rw [hsimple, Bool.true_or]
        rw [if_pos hsimple, if_pos hlisted]
        exact .pure rfl
      rw [if_neg hsimple, Bool.eq_false_iff.mpr hsimple, Bool.false_or]
      split_ifs
      · exact (vjEffects_meets hQ hhas).bind fun _ _ => .pure rfl
      · exact .pure rfl
    · rw [if_neg hon, Bool.eq_false_iff.mpr hon, Bool.false_and, if_neg Bool.false_ne_true]
      exact .pure rfl
  · rw [if_neg hlt, if_neg hlt]
    exact .pure rfl

/-! ### Chains -/

variable {s : FxState} {c : Fin sampleMaxEffects} {entry : FxEntry} {kf : Option ℕ} {mixIn : FxEntry → FxEntry}

theorem seq_of_initialized {fxInstance : Option ℕ}
    (h : Effects.vjEffectInitialized t.fx ready id fxInstance = true) : 0 ≤ vjEffectRealToSequence id :=
  (valid_seq (valid_of_initialized h)).1.le

theorem discardOld_meets (hQ : Allows t Q) (s : FxState) (c : Fin sampleMaxEffects) (effectNr : ℤ) :
    (discardOld t s c effectNr).Meets Q fun s' => s' = Effects.discardOld t.fx s c effectNr := by
  rw [discardOld, Effects.discardOld]
  by_cases hold : (s.chain c).effectId ≠ -1 ∧ (s.chain c).effectId ≠ effectNr
  · rw [if_pos hold, if_pos hold]
    refine (vjEffectInitialized_meets hQ _).bind fun on h => ?_
    rw [h]
    by_cases hon : Effects.vjEffectInitialized t.fx s.ready (s.chain c).effectId (s.chain c).fxInstance = true
    · rw [if_pos hon, if_pos hon]
      split_ifs
      · exact .pure rfl
      · exact (vjEffectDeactivate_meets hQ (seq_of_initialized hon)).bind fun r hr => .pure (by rw [hr])
    · rw [if_neg hon, if_neg hon]
      exact .pure rfl
  · rw [if_neg hold, if_neg hold]
    exact .pure rfl

theorem setDefaults_meets (hQ : Allows t Q) (hvalid : vjEffectIsValid t.fx id = true) :
    ∀ (is : List ℕ), (∀ i ∈ is, i < t.fx.numParams id) → ∀ arg : ℕ → ℤ,
      (setDefaults t id is arg).Meets Q fun arg' => arg' = fun n => if n ∈ is then t.fx.default id n else arg n := by
  intro is
  induction is with
  | nil =>
    intro _ arg
    refine .pure (funext fun n => ?_)
    rw [if_neg List.not_mem_nil]
  | cons i is ih =>
    intro his arg
    refine (vjEffectGetDefault_meets hQ hvalid (his i List.mem_cons_self)).bind fun val hval => ?_
    refine (ih (fun j hj => his j (List.mem_cons_of_mem i hj)) (Function.update arg i val)).mono fun arg' harg => ?_
    rw [harg]
    funext n
    by_cases hn : n ∈ is
    · rw [if_pos hn, if_pos (List.mem_cons_of_mem i hn)]
    · rw [if_neg hn, Function.update_apply]
      by_cases hni : n = i
      · rw [if_pos hni, hni, if_pos List.mem_cons_self, hval]
      · rw [if_neg hni, if_neg fun h => (List.mem_cons.mp h).elim hni hn]

theorem withDefaults_meets (hQ : Allows t Q) (hvalid : vjEffectIsValid t.fx id = true) (kind : Kind) :
    (withDefaults t kind kf entry id).Meets Q fun e => e = Effects.withDefaults t.fx kf entry id := by
  rw [withDefaults, Effects.withDefaults]
  by_cases hne : entry.effectId ≠ id
  · rw [if_pos (.inr hne), if_pos hne]
    refine (vjEffectGetNumParams_meets hQ hvalid).bind fun params hparams => ?_
    rw [if_pos hne]
    have his : ∀ i ∈ List.range params, i < t.fx.numParams id := fun i hi => hparams ▸ List.mem_range.mp hi
    refine (setDefaults_meets hQ hvalid _ his _).bind fun arg harg => .pure ?_
    rw [harg, hparams]
    simp only [List.mem_range]
  · rw [if_neg hne]
    split_ifs
    · refine (vjEffectGetNumParams_meets hQ hvalid).bind fun params _ => ?_
      exact .pure rfl
    · exact .pure rfl

theorem usedEntry_meets (hQ : Allows t Q) (hvalid : vjEffectIsValid t.fx id = true) (kind : Kind) :
    (usedEntry t kind kf mixIn id entry).Meets Q fun e => e = Effects.usedEntry t.fx kf mixIn id entry := by
  rw [usedEntry, Effects.usedEntry]
  refine (withDefaults_meets hQ hvalid kind).bind fun e he => ?_
  refine (vjEffectGetExtraFrame_meets hQ hvalid).bind fun extra hextra => ?_
  rw [hextra, he]
  dsimp only
  split_ifs
  · cases kind with
    | sample => exact (vjEffectGetDescription_meets hQ (has_of_valid hvalid).2).bind fun _ _ => .pure rfl
    | stream => exact .pure rfl
  · exact .pure rfl

/-- No flag is up behind the effects of the program. -/
def FlagsDown (ready : Ready) : Prop := ∀ seq, maxEffects ≤ seq → ready seq = false

/-- What is activated is valid: of the id behind the last one, the flag is not up. -/
theorem valid_of_activated {w : World} (hdown : FlagsDown ready)
    (h : (Effects.vjEffectActivate t.fx w ready id).1 = true) : vjEffectIsValid t.fx id = true := by
  by_cases hlast : id = vjExtEffect + t.nExtPlugs
  · exfalso
    have hseq : vjEffectRealToSequence id = maxEffects + t.nExtPlugs := by
      rw [vjEffectRealToSequence, if_pos (by omega)]
      omega
    have hplugin : ¬ isPluginSeq t.fx (vjEffectRealToSequence id) = true := fun hp => by
      have hlt := (of_decide_eq_true hp).2
      rw [hseq] at hlt
      exact absurd hlt (lt_irrefl _)
    have hmem : ¬ noMemRequired id = true := by
      rw [noMemRequired, if_pos (by omega)]
      exact Bool.false_ne_true
    have hoff : ¬ ready (vjEffectRealToSequence id) = true := by
      rw [hdown _ (by omega)]
      exact Bool.false_ne_true
    have hlisted : ¬ (simpleEffectIndex.contains id || complexEffectIndex.contains id) = true := by
      intro hl
      have hlt := (seq_of_listed hl).2
      omega
    rw [Effects.vjEffectActivate, EffectTable.fx_nExtPlugs, if_neg (by rw [maxEffects] at *; omega), if_neg hplugin,
      if_neg hmem, if_neg hoff, if_neg hlisted] at h
    cases h
  · exact valid_of_activate h hlast

theorem activateNew_meets (hQ : Allows t Q) (w : World) (kind : Kind) (hdown : FlagsDown s.ready)
    (hlast : id = vjExtEffect + t.nExtPlugs → Q (.ready (maxEffects + t.nExtPlugs))) :
    (activateNew t w kind kf mixIn s c id).Meets Q fun r => r = Effects.activateNew t.fx w kf mixIn s c id := by
  rw [activateNew, Effects.activateNew]
  refine (vjEffectInitialized_meets hQ _).bind fun on h => ?_
  rw [h]
  by_cases hon : Effects.vjEffectInitialized t.fx s.ready id (s.chain c).fxInstance = true
  · rw [if_pos hon, if_pos hon]
    exact (usedEntry_meets hQ (valid_of_initialized hon) kind).bind fun e he => .pure (by rw [he])
  · rw [if_neg hon, if_neg hon]
    refine (vjEffectActivate_meets hQ w hlast).bind fun r hr => ?_
    have hvalid := @valid_of_activated t id s.ready w hdown
    rw [← hr] at hvalid ⊢
    obtain ⟨res, fxInstance, ready⟩ := r
    cases res with
    | false => exact .pure rfl
    | true => exact (usedEntry_meets hQ (hvalid rfl) kind).bind fun e he => .pure (by rw [he])

theorem FlagsDown.update (hdown : FlagsDown ready) {seq : ℤ} (hseq : seq < maxEffects) (up : Bool) :
    FlagsDown (Function.update ready seq up) := by
  intro seq' hseq'
  rw [Function.update_of_ne (by omega), hdown seq' hseq']

theorem vjEffectActivate_flagsDown (table : FxTable) (w : World) (hdown : FlagsDown ready) :
    FlagsDown (Effects.vjEffectActivate table w ready id).2.2 := by
  rw [Effects.vjEffectActivate]
  by_cases hlisted : (simpleEffectIndex.contains id || complexEffectIndex.contains id) = true
  · have hup := hdown.update (seq_of_listed hlisted).2 true
    rw [if_pos hlisted]
    split_ifs
    · exact hdown
    · exact hdown
    · exact hdown
    · exact hdown
    · exact hup
    · exact hdown
  · rw [if_neg hlisted]
    split_ifs
    all_goals exact hdown

theorem vjEffectDeactivate_flagsDown (table : FxTable) (hdown : FlagsDown ready) :
    FlagsDown (Effects.vjEffectDeactivate table ready id) := by
  rw [Effects.vjEffectDeactivate]
  split_ifs with hplugin hlt
  · exact hdown
  · exact hdown.update hlt false
  · exact hdown
  · exact hdown

theorem discardOld_flagsDown (table : FxTable) (effectNr : ℤ) (hdown : FlagsDown s.ready) :
    FlagsDown (Effects.discardOld table s c effectNr).ready := by
  rw [Effects.discardOld]
  split_ifs
  case neg => exact vjEffectDeactivate_flagsDown table hdown
  all_goals exact hdown

/-- **A new effect, with its lookups**: all are in the table, but for the flag that activation may look at, and the outcome
is the one of the chains. -/
theorem chainAdd_meets (hQ : Allows t Q) (w : World) (kind : Kind) (sampleId a : ℤ) (hdown : FlagsDown s.ready)
    (hlast : id = vjExtEffect + t.nExtPlugs → Q (.ready (maxEffects + t.nExtPlugs))) :
    (chainAdd t w kind sampleId s a id).Meets Q fun r => r = Effects.chainAdd t.fx w kind sampleId s a id := by
  have hadd : ∀ kf mixIn, (addEffect t w kind kf mixIn s a id).Meets Q fun r =>
      r = Effects.addEffect t.fx w kf mixIn s a id := by
    intro kf mixIn
    rw [addEffect, Effects.addEffect]
    cases position a with
    | none => exact .pure rfl
    | some c =>
      refine (discardOld_meets hQ s c id).bind fun s' hs' => ?_
      have hdown' : FlagsDown s'.ready := by
        rw [hs']
        exact discardOld_flagsDown t.fx id hdown
      refine (activateNew_meets hQ w kind hdown' hlast).mono fun r hr => ?_
      rw [hr, hs']
  cases kind with
  | sample => exact hadd none (mixInSample w)
  | stream => exact hadd (some w.port) (mixInStream sampleId)

end Gives

end Veejay.Effects.Lookup
