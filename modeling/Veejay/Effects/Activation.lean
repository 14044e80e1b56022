import Veejay.Sample.Mixing

/-!
# Activation of effects follows their use

Effects that need memory are initialised when they come onto a chain, and freed when they leave it.  Effects of
plugins have an instance in each entry; the others have one flag `vj_effect_ready` for all entries that use them.

* `vjEffectActivate`, `vjEffectDeactivate`, `vjEffectInitialized` — the functions of `vj-effect.c`;
* `sampleChainAdd`, `sampleChainRemove` — the functions of `sampleadm.c`;
* `vjTagSetEffect`, `vjTagChainRemove` — the functions of `vj-tag.c`;
* `Follows` — the flag of an effect is up exactly while an entry uses it;
* `activation_follows_iff` — **what exactly the steps of a run need for this**.
-/

namespace Veejay.Effects

open CLib Veejay.Samples

/-! ## The table of effects -/

/-- `MAX_EFFECTS` -/
def maxEffects : ℤ := 140

/-- `VJ_EXT_EFFECT` -/
def vjExtEffect : ℤ := 500

/-- `SAMPLE_MAX_PARAMETERS` -/
def sampleMaxParameters : ℕ := 32

/-- The ids in `simple_effect_index`. -/
def simpleEffectIndex : List ℤ :=
  [140, 126, 230, 112, 183, 182, 125, 233, 136, 151, 226, 134, 148, 121, 139, 122, 124, 137, 141, 209, 225, 142, 145,
    154, 155, 156, 159, 160, 162, 163, 240, 239, 184, 179, 164, 165, 166, 167, 168, 169, 170, 171, 172, 173, 174, 237,
    238, 175, 181, 185, 186, 242, 187, 189, 243, 149, 150, 246]

/-- The ids in `complex_effect_index`. -/
def complexEffectIndex : List ℤ := [203, 188, 190, 241, 245]

/-- What the descriptions of the effects say, and how many plugins there are. -/
structure FxTable where
  nExtPlugs : ℕ
  numParams : ℤ → ℕ
  default : ℤ → ℕ → ℤ
  extraFrame : ℤ → Bool

/-- The flags `vj_effect_ready`. -/
abbrev Ready := ℤ → Bool

/-- What an operation meets outside: whether `mem_init` succeeds, the instance that the plugin returns, the port
that `vpn` returns, and the number of samples. -/
structure World where
  memInit : Bool
  plugActivate : Option ℕ
  port : ℕ
  sampleSize : ℤ

/-- `vj_effect_real_to_sequence` -/
def vjEffectRealToSequence (id : ℤ) : ℤ :=
  if vjExtEffect ≤ id then id - vjExtEffect + maxEffects
  else if 100 < id ∧ id < 192 then id - 100 + 48
  else if 200 < id ∧ id < 248 then id - 200
  else -1

/-- `_no_mem_required` -/
def noMemRequired (id : ℤ) : Bool :=
  if vjExtEffect ≤ id then false else !simpleEffectIndex.contains id && !complexEffectIndex.contains id

/-- The effect at this place of the table comes from a plugin. -/
def isPluginSeq (table : FxTable) (seq : ℤ) : Bool := decide (maxEffects ≤ seq ∧ seq < maxEffects + table.nExtPlugs)

/-- `vj_effect_is_plugin` -/
def vjEffectIsPlugin (table : FxTable) (id : ℤ) : Bool := isPluginSeq table (vjEffectRealToSequence id)

/-- `vj_effect_is_valid` -/
def vjEffectIsValid (table : FxTable) (id : ℤ) : Bool :=
  decide ((vjExtEffect ≤ id ∧ id < vjExtEffect + table.nExtPlugs) ∨ (100 < id ∧ id < 192) ∨ (200 < id ∧ id < 248))

/-- `vj_effect_initialized` -/
def vjEffectInitialized (table : FxTable) (ready : Ready) (id : ℤ) (fxInstance : Option ℕ) : Bool :=
  let seq := vjEffectRealToSequence id
  if seq < 0 then false
  else if isPluginSeq table seq then fxInstance.isSome
  else if seq < maxEffects then noMemRequired id || ready seq
  else false

/-- `vj_effect_activate`: the result, the instance and the flags. -/
def vjEffectActivate (table : FxTable) (w : World) (ready : Ready) (id : ℤ) : Bool × Option ℕ × Ready :=
  let seq := vjEffectRealToSequence id
  if seq < 0 ∨ maxEffects + table.nExtPlugs < seq then (false, none, ready)
  else if isPluginSeq table seq then (w.plugActivate.isSome, w.plugActivate, ready)
  else if noMemRequired id then (true, none, ready)
  else if ready seq then (true, none, ready)
  else if simpleEffectIndex.contains id || complexEffectIndex.contains id then
    if w.memInit then (true, none, Function.update ready seq true) else (false, none, ready)
  else (false, none, ready)

/-- `vj_effect_deactivate`, for an effect that is initialised. -/
def vjEffectDeactivate (table : FxTable) (ready : Ready) (id : ℤ) : Ready :=
  let seq := vjEffectRealToSequence id
  if isPluginSeq table seq then ready
  else if seq < maxEffects then
    if ready seq && (simpleEffectIndex.contains id || complexEffectIndex.contains id) then
      Function.update ready seq false
    else ready
  else ready

/-! ## Chains -/

/-- An entry of an effect chain (`sample_eff_chain`). -/
structure FxEntry where
  effectId : ℤ
  fxInstance : Option ℕ
  eFlag : ℤ
  arg : ℕ → ℤ
  frameOffset : ℤ
  frameTrimmer : ℤ
  volume : ℤ
  aFlag : ℤ
  kfStatus : ℤ
  kfType : ℤ
  kf : Option ℕ
  sourceType : ℤ
  channel : ℤ

/-- The chain of a sample or a stream, and the flags. -/
structure FxState where
  chain : Fin sampleMaxEffects → FxEntry
  ready : Ready

/-- Another entry uses this effect. -/
def Elsewhere (chain : Fin sampleMaxEffects → FxEntry) (c : Fin sampleMaxEffects) (id : ℤ) : Prop :=
  ∃ i, i ≠ c ∧ (chain i).effectId = id

/-- Some entry uses this effect. -/
def Used (chain : Fin sampleMaxEffects → FxEntry) (id : ℤ) : Prop := ∃ i, (chain i).effectId = id

instance (chain : Fin sampleMaxEffects → FxEntry) (c : Fin sampleMaxEffects) (id : ℤ) :
    Decidable (Elsewhere chain c id) :=
  inferInstanceAs (Decidable (∃ i, i ≠ c ∧ (chain i).effectId = id))

instance (chain : Fin sampleMaxEffects → FxEntry) (id : ℤ) : Decidable (Used chain id) :=
  inferInstanceAs (Decidable (∃ i, (chain i).effectId = id))

/-- The check `c < 0 || c >= SAMPLE_MAX_EFFECTS`. -/
def position (c : ℤ) : Option (Fin sampleMaxEffects) :=
  if h : 0 ≤ c ∧ c < sampleMaxEffects then some ⟨c.toNat, by omega⟩ else none

def zeroArgs (arg : ℕ → ℤ) : ℕ → ℤ := fun n => if n < sampleMaxParameters then 0 else arg n

def FxState.setEntry (s : FxState) (c : Fin sampleMaxEffects) (entry : FxEntry) : FxState :=
  { s with chain := Function.update s.chain c entry }

/-- The first block of `sample_chain_add` and of `vj_tag_set_effect`: what is done with the effect that is
replaced. -/
def discardOld (table : FxTable) (s : FxState) (c : Fin sampleMaxEffects) (effectNr : ℤ) : FxState :=
  let entry := s.chain c
  if entry.effectId ≠ -1 ∧ entry.effectId ≠ effectNr then
    if vjEffectInitialized table s.ready entry.effectId entry.fxInstance then
      -- the loop looks for `effect_nr`, the new effect
      if !vjEffectIsPlugin table entry.effectId && Elsewhere s.chain c effectNr then s
      else
        ⟨Function.update s.chain c { entry with fxInstance := none },
          vjEffectDeactivate table s.ready entry.effectId⟩
    else s
  else s

/-- An entry after its effect could not be activated. -/
def clearedEntry (entry : FxEntry) (fxInstance : Option ℕ) : FxEntry :=
  { entry with
    fxInstance := fxInstance, effectId := -1, eFlag := 1, arg := zeroArgs entry.arg, frameTrimmer := 0 }

/-- The default values that a new effect brings into the entry. -/
def withDefaults (table : FxTable) (kf : Option ℕ) (entry : FxEntry) (effectNr : ℤ) : FxEntry :=
  if entry.effectId ≠ effectNr then
    { entry with
      arg := fun n => if n < table.numParams effectNr then table.default effectNr n else entry.arg n
      eFlag := 1, kfStatus := 0, kfType := 0, kf := kf }
  else entry

/-- An entry that uses the effect. -/
def usedEntry (table : FxTable) (kf : Option ℕ) (mixIn : FxEntry → FxEntry) (effectNr : ℤ) (entry : FxEntry) : FxEntry :=
  let entry := { withDefaults table kf entry effectNr with effectId := effectNr }
  if table.extraFrame effectNr then mixIn entry else entry

/-- The second block of `sample_chain_add` and of `vj_tag_set_effect`: the new effect. -/
def activateNew (table : FxTable) (w : World) (kf : Option ℕ) (mixIn : FxEntry → FxEntry) (s : FxState)
    (c : Fin sampleMaxEffects) (effectNr : ℤ) : ℤ × FxState :=
  let entry := s.chain c
  if vjEffectInitialized table s.ready effectNr entry.fxInstance then
    (1, s.setEntry c (usedEntry table kf mixIn effectNr entry))
  else
    match vjEffectActivate table w s.ready effectNr with
    | (false, fxInstance, ready) => (0, ⟨Function.update s.chain c (clearedEntry entry fxInstance), ready⟩)
    | (true, fxInstance, ready) =>
      (1, ⟨Function.update s.chain c (usedEntry table kf mixIn effectNr { entry with fxInstance := fxInstance }), ready⟩)

/-- The common text of `sample_chain_add` and `vj_tag_set_effect`. -/
def addEffect (table : FxTable) (w : World) (kf : Option ℕ) (mixIn : FxEntry → FxEntry) (s : FxState) (c effectNr : ℤ) :
    ℤ × FxState :=
  match position c with
  | none => (0, s)
  | some c => activateNew table w kf mixIn (discardOld table s c effectNr) c effectNr

/-- The common text of `sample_chain_remove` and `vj_tag_chain_remove`. -/
def removeEffect (table : FxTable) (clear : FxEntry → FxEntry) (s : FxState) (c : Fin sampleMaxEffects) : FxState :=
  let entry := s.chain c
  if entry.effectId ≠ -1 ∧ vjEffectInitialized table s.ready entry.effectId entry.fxInstance ∧
      (vjEffectIsPlugin table entry.effectId ∨ ¬ Elsewhere s.chain c entry.effectId) then
    ⟨Function.update s.chain c { clear { entry with fxInstance := none } with effectId := -1 },
      vjEffectDeactivate table s.ready entry.effectId⟩
  else s.setEntry c { clear entry with effectId := -1 }

/-! ### Samples -/

/-- `sample_chain_add`, for a sample that exists -/
def sampleChainAdd (table : FxTable) (w : World) : FxState → ℤ → ℤ → ℤ × FxState :=
  addEffect table w none fun entry =>
    { entry with
      frameTrimmer := 0
      channel := if entry.channel ≤ 0 then w.sampleSize - 1 else entry.channel
      sourceType := if entry.sourceType < 0 then 0 else entry.sourceType }

/-- `sample_chain_remove`, for a sample that exists -/
def sampleChainRemove (table : FxTable) (s : FxState) (c : ℤ) : ℤ × FxState :=
  match position c with
  | none => (-1, s)
  | some c =>
    (1, removeEffect table (fun entry =>
      { entry with
        frameOffset := 0, frameTrimmer := 0, volume := 0, aFlag := 0, kf := none
        sourceType := 0, channel := 0, arg := zeroArgs entry.arg }) s c)

/-! ### Streams -/

/-- `vj_tag_set_effect`, for a stream that exists -/
def vjTagSetEffect (t1 : ℤ) (table : FxTable) (w : World) : FxState → ℤ → ℤ → ℤ × FxState :=
  addEffect table w (some w.port) fun entry =>
    { entry with
      sourceType := if entry.sourceType < 0 then 1 else entry.sourceType
      channel := if entry.channel ≤ 0 then t1 else entry.channel }

/-- `vj_tag_chain_remove`, for a stream that exists: it reads the entry without a check. -/
def vjTagChainRemove (t1 : ℤ) (table : FxTable) (w : World) (s : FxState) (c : ℤ) : Exec (ℤ × FxState) :=
  match position c with
  | none => .error .outOfBounds
  | some c =>
    .ok (1, removeEffect table (fun entry =>
      { entry with
        eFlag := 0, kf := some w.port, sourceType := 1, channel := t1, arg := zeroArgs entry.arg }) s c)

/-- What is done to a chain.  The callers of `vj_tag_chain_remove` check the entry (`v_chi`), so that it is one of the
chain. -/
inductive ChainOp (ι : Type) where
  | set (c effectNr : ℤ) (w : World)
  | remove (c : ι) (w : World)

/-- One operation on the chain of a sample. -/
def sampleStep (table : FxTable) (s : FxState) : ChainOp ℤ → Exec (ℤ × FxState)
  | .set c effectNr w => .ok (sampleChainAdd table w s c effectNr)
  | .remove c _ => .ok (sampleChainRemove table s c)

/-- One operation on the chain of a stream. -/
def tagStep (t1 : ℤ) (table : FxTable) (s : FxState) : ChainOp (Fin sampleMaxEffects) → Exec (ℤ × FxState)
  | .set c effectNr w => .ok (vjTagSetEffect t1 table w s c effectNr)
  | .remove c w => vjTagChainRemove t1 table w s c

/-! ## Flags -/

/-- An effect that is not a plugin: an image effect or a video effect. -/
def Internal (id : ℤ) : Prop := 100 < id ∧ id < 192 ∨ 200 < id ∧ id < 248

theorem internal_of_valid {table : FxTable} {id : ℤ} (hvalid : vjEffectIsValid table id = true)
    (hplugin : vjEffectIsPlugin table id = false) : Internal id := by
  rcases of_decide_eq_true hvalid with hext | himage | hvideo
  · exfalso
    have hseq : vjEffectRealToSequence id = id - vjExtEffect + maxEffects := if_pos hext.1
    refine of_decide_eq_false hplugin ?_
    rw [hseq]
    omega
  · exact .inl himage
  · exact .inr hvideo

theorem Internal.seq_bounds {id : ℤ} (hid : Internal id) :
    0 < vjEffectRealToSequence id ∧ vjEffectRealToSequence id < 140 := by
  rw [vjEffectRealToSequence, vjExtEffect, maxEffects]
  rw [Internal] at hid
  split_ifs <;> omega

/-- The place in the table of such an effect is its own. -/
theorem Internal.seq_inj {id f : ℤ} (hid : Internal id)
    (h : vjEffectRealToSequence f = vjEffectRealToSequence id) : f = id := by
  have hb := hid.seq_bounds
  rw [← h] at hb
  rw [Internal] at hid
  simp only [vjEffectRealToSequence, vjExtEffect, maxEffects] at h hb
  split_ifs at h hb <;> omega

theorem Internal.not_plugin {id : ℤ} (hid : Internal id) (table : FxTable) :
    isPluginSeq table (vjEffectRealToSequence id) = false := by
  have hb := hid.seq_bounds
  refine decide_eq_false fun h => ?_
  have hlo : 140 ≤ vjEffectRealToSequence id := h.1
  omega

theorem Internal.indexed {id : ℤ} (hid : Internal id) :
    noMemRequired id = !(simpleEffectIndex.contains id || complexEffectIndex.contains id) := by
  have hlt : ¬ vjExtEffect ≤ id := by
    rw [vjExtEffect]
    rw [Internal] at hid
    omega
  rw [noMemRequired, if_neg hlt, Bool.not_or]

theorem Internal.initialized {id : ℤ} (hid : Internal id) (table : FxTable) (ready : Ready) (p : Option ℕ) :
    vjEffectInitialized table ready id p = (noMemRequired id || ready (vjEffectRealToSequence id)) := by
  have hb := hid.seq_bounds
  have hlt : vjEffectRealToSequence id < maxEffects := hb.2
  rw [vjEffectInitialized, if_neg (by omega), hid.not_plugin, if_neg Bool.false_ne_true, if_pos hlt]

/-- Freeing another effect leaves the flag. -/
theorem vjEffectDeactivate_other {id f : ℤ} (hid : Internal id) (hf : f ≠ id) (table : FxTable) (ready : Ready) :
    vjEffectDeactivate table ready f (vjEffectRealToSequence id) = ready (vjEffectRealToSequence id) := by
  have hne : vjEffectRealToSequence id ≠ vjEffectRealToSequence f := fun h => hf (hid.seq_inj h.symm)
  rw [vjEffectDeactivate]
  split_ifs
  · rfl
  · rw [Function.update_of_ne hne]
  · rfl
  · rfl

/-- Freeing an effect takes its flag down. -/
theorem vjEffectDeactivate_self {id : ℤ} (hid : Internal id) (hmem : noMemRequired id = false) (table : FxTable)
    (ready : Ready) : vjEffectDeactivate table ready id (vjEffectRealToSequence id) = false := by
  have hlt : vjEffectRealToSequence id < maxEffects := hid.seq_bounds.2
  have hindex : (simpleEffectIndex.contains id || complexEffectIndex.contains id) = true := by
    rw [hid.indexed, Bool.not_eq_false'] at hmem
    exact hmem
  rw [vjEffectDeactivate, hid.not_plugin, if_neg Bool.false_ne_true, if_pos hlt, hindex, Bool.and_true]
  split_ifs with hready
  · rw [Function.update_self]
  · exact Bool.eq_false_iff.mpr hready

/-- Initialising another effect leaves the flag. -/
theorem vjEffectActivate_other {id f : ℤ} (hid : Internal id) (hf : f ≠ id) (table : FxTable) (w : World)
    (ready : Ready) :
    (vjEffectActivate table w ready f).2.2 (vjEffectRealToSequence id) = ready (vjEffectRealToSequence id) := by
  have hne : vjEffectRealToSequence id ≠ vjEffectRealToSequence f := fun h => hf (hid.seq_inj h.symm)
  rw [vjEffectActivate]
  split_ifs
  · rfl
  · rfl
  · rfl
  · rfl
  · show Function.update ready _ true _ = _
    rw [Function.update_of_ne hne]
  · rfl
  · rfl

/-- Initialising an effect that is not: the flag goes up if there is memory. -/
theorem vjEffectActivate_self {id : ℤ} (hid : Internal id) (hmem : noMemRequired id = false) (table : FxTable)
    (w : World) {ready : Ready} (hready : ready (vjEffectRealToSequence id) = false) :
    vjEffectActivate table w ready id =
      if w.memInit then (true, none, Function.update ready (vjEffectRealToSequence id) true)
      else (false, none, ready) := by
  have hb := hid.seq_bounds
  have hrange : ¬ (vjEffectRealToSequence id < 0 ∨ maxEffects + table.nExtPlugs < vjEffectRealToSequence id) := by
    rw [maxEffects]
    omega
  have hindex : (simpleEffectIndex.contains id || complexEffectIndex.contains id) = true := by
    rw [hid.indexed, Bool.not_eq_false'] at hmem
    exact hmem
  rw [vjEffectActivate, if_neg hrange, hid.not_plugin, if_neg Bool.false_ne_true, hmem, if_neg Bool.false_ne_true, hready,
    if_neg Bool.false_ne_true, hindex, if_pos rfl]

/-! ## Uses -/

theorem used_iff (chain : Fin sampleMaxEffects → FxEntry) (c : Fin sampleMaxEffects) (id : ℤ) :
    Used chain id ↔ (chain c).effectId = id ∨ Elsewhere chain c id := by
  constructor
  · rintro ⟨i, hi⟩
    by_cases hic : i = c
    · exact .inl (hic ▸ hi)
    · exact .inr ⟨i, hic, hi⟩
  · rintro (hc | ⟨i, -, hi⟩)
    · exact ⟨c, hc⟩
    · exact ⟨i, hi⟩

@[simp] theorem elsewhere_update (chain : Fin sampleMaxEffects → FxEntry) (c : Fin sampleMaxEffects) (entry : FxEntry)
    (id : ℤ) : Elsewhere (Function.update chain c entry) c id ↔ Elsewhere chain c id := by
  refine exists_congr fun i => and_congr_right fun hi => ?_
  rw [Function.update_of_ne hi]

theorem used_update (chain : Fin sampleMaxEffects → FxEntry) (c : Fin sampleMaxEffects) (entry : FxEntry) (id : ℤ) :
    Used (Function.update chain c entry) id ↔ entry.effectId = id ∨ Elsewhere chain c id := by
  rw [used_iff _ c, Function.update_self, elsewhere_update]

/-! ## The invariant -/

/-- The flag of the effect is up exactly while an entry uses the effect. -/
def Follows (id : ℤ) (s : FxState) : Prop := s.ready (vjEffectRealToSequence id) = true ↔ Used s.chain id

/-- The flag of an effect without memory is never up. -/
def NeverUp (id : ℤ) (s : FxState) : Prop :=
  noMemRequired id = true → s.ready (vjEffectRealToSequence id) = false

/-- What an operation must meet for the flag to follow the use.  An effect that needs no memory is used without a
flag.  Where the effect is replaced, the loop asks for the new effect in place of the old one. -/
def Clean {ι : Type} (id : ℤ) (s : FxState) : ChainOp ι → Prop
  | .set c effectNr _ => ∀ i, position c = some i →
      if effectNr = id then noMemRequired id = false
      else (s.chain i).effectId = id → (Elsewhere s.chain i effectNr ↔ Elsewhere s.chain i id)
  | .remove _ _ => True

instance (id : ℤ) (s : FxState) : Decidable (Follows id s) :=
  inferInstanceAs (Decidable (s.ready (vjEffectRealToSequence id) = true ↔ Used s.chain id))

theorem Follows.needs {id : ℤ} {s : FxState} (h : Follows id s) (hup : NeverUp id s) (hused : Used s.chain id) :
    s.ready (vjEffectRealToSequence id) = true ∧ noMemRequired id = false := by
  have hready := h.mpr hused
  refine ⟨hready, Bool.eq_false_iff.mpr fun hmem => ?_⟩
  rw [hup hmem] at hready
  cases hready

/-! ## The first block of the functions that add -/

/-- The block changes the instance and the flags only. -/
theorem discardOld_chain (table : FxTable) (s : FxState) (c : Fin sampleMaxEffects) (effectNr : ℤ) :
    ((discardOld table s c effectNr).chain c).effectId = (s.chain c).effectId ∧
      ∀ id, Elsewhere (discardOld table s c effectNr).chain c id ↔ Elsewhere s.chain c id := by
  rw [discardOld]
  split_ifs
  case neg =>
    refine ⟨?_, fun id => elsewhere_update _ _ _ _⟩
    show (Function.update s.chain c _ c).effectId = _
    rw [Function.update_self]
  all_goals exact ⟨rfl, fun id => Iff.rfl⟩

/-- The flags of effects that are not replaced stay. -/
theorem discardOld_ready_other {id : ℤ} (hid : Internal id) (table : FxTable) {s : FxState}
    {c : Fin sampleMaxEffects} {effectNr : ℤ} (h : (s.chain c).effectId = id → effectNr = id) :
    (discardOld table s c effectNr).ready (vjEffectRealToSequence id) = s.ready (vjEffectRealToSequence id) := by
  rw [discardOld]
  split_ifs with hreplace
  case neg =>
    refine vjEffectDeactivate_other hid (fun hold => ?_) table s.ready
    exact hreplace.2 (hold.trans (h hold).symm)
  all_goals rfl

/-- The flag of the effect that is replaced stays up exactly if another entry uses the *new* effect. -/
theorem discardOld_ready_self {id : ℤ} (hid : Internal id) (table : FxTable) {s : FxState}
    {c : Fin sampleMaxEffects} {effectNr : ℤ} (hold : (s.chain c).effectId = id) (hnew : effectNr ≠ id)
    (hready : s.ready (vjEffectRealToSequence id) = true) (hmem : noMemRequired id = false) :
    (discardOld table s c effectNr).ready (vjEffectRealToSequence id) = true ↔ Elsewhere s.chain c effectNr := by
  have hreplace : (s.chain c).effectId ≠ -1 ∧ (s.chain c).effectId ≠ effectNr := by
    rw [hold]
    refine ⟨fun h => ?_, hnew.symm⟩
    rw [Internal] at hid
    omega
  have hinit : vjEffectInitialized table s.ready (s.chain c).effectId (s.chain c).fxInstance = true := by
    rw [hold, hid.initialized, hready, Bool.or_true]
  have hplugin : vjEffectIsPlugin table (s.chain c).effectId = false := by
    rw [hold]
    exact hid.not_plugin table
  rw [discardOld, if_pos hreplace, if_pos hinit, hplugin, Bool.not_false, Bool.true_and]
  by_cases helse : Elsewhere s.chain c effectNr
  · rw [if_pos (decide_eq_true helse)]
    exact ⟨fun _ => helse, fun _ => hready⟩
  · rw [if_neg (fun h => helse (of_decide_eq_true h))]
    show vjEffectDeactivate table s.ready (s.chain c).effectId _ = true ↔ _
    rw [hold, vjEffectDeactivate_self hid hmem]
    exact ⟨fun h => absurd h Bool.false_ne_true, fun h => absurd h helse⟩

/-! ## The second block -/

theorem usedEntry_effectId (table : FxTable) (kf : Option ℕ) {mixIn : FxEntry → FxEntry}
    (hmix : ∀ entry, (mixIn entry).effectId = entry.effectId) (effectNr : ℤ) (entry : FxEntry) :
    (usedEntry table kf mixIn effectNr entry).effectId = effectNr := by
  rw [usedEntry]
  split_ifs
  · rw [hmix]
  · rfl

section Activate

variable (table : FxTable) (w : World) (kf : Option ℕ) {mixIn : FxEntry → FxEntry} {s : FxState}
  {c : Fin sampleMaxEffects} {effectNr id : ℤ}

/-- The new effect was on already, or it is activated, and the entry has it; or the entry has no effect. -/
theorem activateNew_cases (mixIn : FxEntry → FxEntry) (s : FxState) (c : Fin sampleMaxEffects) (effectNr : ℤ) :
    (∃ fxInstance, (vjEffectInitialized table s.ready effectNr (s.chain c).fxInstance = true ∨
          (vjEffectActivate table w s.ready effectNr).1 = true) ∧
        (activateNew table w kf mixIn s c effectNr).1 = 1 ∧
        (activateNew table w kf mixIn s c effectNr).2.chain c =
          usedEntry table kf mixIn effectNr { s.chain c with fxInstance := fxInstance }) ∨
      (vjEffectActivate table w s.ready effectNr).1 = false ∧ (activateNew table w kf mixIn s c effectNr).1 = 0 ∧
        ((activateNew table w kf mixIn s c effectNr).2.chain c).effectId = -1 := by
  rw [activateNew]
  by_cases hinit : vjEffectInitialized table s.ready effectNr (s.chain c).fxInstance = true
  · rw [if_pos hinit]
    exact .inl ⟨(s.chain c).fxInstance, .inl hinit, rfl, Function.update_self c _ s.chain⟩
  · rw [if_neg hinit]
    rcases hres : vjEffectActivate table w s.ready effectNr with ⟨res, fxInstance, ready⟩
    cases res with
    | false =>
      refine .inr ⟨rfl, rfl, ?_⟩
      show (Function.update s.chain c _ c).effectId = -1
      rw [Function.update_self]
      rfl
    | true => exact .inl ⟨fxInstance, .inr rfl, rfl, Function.update_self c _ s.chain⟩

/-- Another effect comes: the flag stays, and the other entries are left to use the effect. -/
theorem activateNew_other (hid : Internal id) (hmix : ∀ entry, (mixIn entry).effectId = entry.effectId)
    (hne : effectNr ≠ id) :
    (activateNew table w kf mixIn s c effectNr).2.ready (vjEffectRealToSequence id) =
        s.ready (vjEffectRealToSequence id) ∧
      (Used (activateNew table w kf mixIn s c effectNr).2.chain id ↔ Elsewhere s.chain c id) := by
  have hnone : (-1 : ℤ) ≠ id := by
    rw [Internal] at hid
    omega
  have hother := vjEffectActivate_other hid hne table w s.ready
  rw [activateNew]
  split_ifs
  · refine ⟨rfl, ?_⟩
    show Used (Function.update s.chain c _) id ↔ _
    rw [used_update, usedEntry_effectId table kf hmix, or_iff_right hne]
  · rcases hact : vjEffectActivate table w s.ready effectNr with ⟨res, fxInstance, ready⟩
    rw [hact] at hother
    cases res with
    | false =>
      refine ⟨hother, ?_⟩
      show Used (Function.update s.chain c _) id ↔ _
      rw [used_update]
      exact or_iff_right hnone
    | true =>
      refine ⟨hother, ?_⟩
      show Used (Function.update s.chain c _) id ↔ _
      rw [used_update, usedEntry_effectId table kf hmix, or_iff_right hne]

/-- The effect comes: it is used and the flag is up, or there is no memory and neither is. -/
theorem activateNew_self (hid : Internal id) (hmix : ∀ entry, (mixIn entry).effectId = entry.effectId)
    (hmem : noMemRequired id = false) :
    (activateNew table w kf mixIn s c id).2.ready (vjEffectRealToSequence id) = true ∧
        Used (activateNew table w kf mixIn s c id).2.chain id ∨
      (activateNew table w kf mixIn s c id).2.ready (vjEffectRealToSequence id) = false ∧
        s.ready (vjEffectRealToSequence id) = false ∧
        (Used (activateNew table w kf mixIn s c id).2.chain id ↔ Elsewhere s.chain c id) := by
  have hnone : (-1 : ℤ) ≠ id := by
    rw [Internal] at hid
    omega
  rw [activateNew, hid.initialized, hmem, Bool.false_or]
  cases hready : s.ready (vjEffectRealToSequence id) with
  | true =>
    rw [if_pos rfl]
    refine .inl ⟨hready, ?_⟩
    show Used (Function.update s.chain c _) id
    rw [used_update, usedEntry_effectId table kf hmix]
    exact .inl rfl
  | false =>
    rw [if_neg Bool.false_ne_true, vjEffectActivate_self hid hmem table w hready]
    by_cases hinit : w.memInit = true
    · rw [if_pos hinit]
      refine .inl ⟨?_, ?_⟩
      · show Function.update s.ready _ true _ = true
        rw [Function.update_self]
      · show Used (Function.update s.chain c _) id
        rw [used_update, usedEntry_effectId table kf hmix]
        exact .inl rfl
    · rw [if_neg hinit]
      refine .inr ⟨hready, rfl, ?_⟩
      show Used (Function.update s.chain c _) id ↔ _
      rw [used_update]
      exact or_iff_right hnone

/-- An effect without memory is used and has no flag. -/
theorem activateNew_noMem (hid : Internal id) (hmix : ∀ entry, (mixIn entry).effectId = entry.effectId)
    (hmem : noMemRequired id = true) :
    (activateNew table w kf mixIn s c id).2.ready = s.ready ∧
      Used (activateNew table w kf mixIn s c id).2.chain id := by
  rw [activateNew, hid.initialized, hmem, Bool.true_or, if_pos rfl]
  refine ⟨rfl, ?_⟩
  show Used (Function.update s.chain c _) id
  rw [used_update, usedEntry_effectId table kf hmix]
  exact .inl rfl

/-- Adding the effect: its flag follows, unless it has none. -/
theorem activate_follows_self (hid : Internal id) (hmix : ∀ entry, (mixIn entry).effectId = entry.effectId)
    (hup : NeverUp id s) (hs : Follows id s) :
    NeverUp id (activateNew table w kf mixIn (discardOld table s c id) c id).2 ∧
      (Follows id (activateNew table w kf mixIn (discardOld table s c id) c id).2 ↔ noMemRequired id = false) := by
  have hflag := @discardOld_ready_other id hid table s c id fun _ => rfl
  have helse := (discardOld_chain table s c id).2 id
  cases hmem : noMemRequired id with
  | true =>
    obtain ⟨hready, hused⟩ := activateNew_noMem table w kf (s := discardOld table s c id) (c := c) hid hmix hmem
    have hdown := hup hmem
    rw [← hflag, ← hready] at hdown
    refine ⟨fun _ => hdown, fun h => ?_, fun h => absurd h Bool.true_eq_false_eq_False⟩
    rw [h.mpr hused] at hdown
    cases hdown
  | false =>
    refine ⟨fun h => ?_, fun _ => rfl, fun _ => ?_⟩
    · rw [hmem] at h
      cases h
    · rcases activateNew_self table w kf (s := discardOld table s c id) (c := c) hid hmix hmem with
        ⟨hready, hused⟩ | ⟨hready, hdown, hused⟩
      · exact ⟨fun _ => hused, fun _ => hready⟩
      · rw [hflag] at hdown
        rw [Follows, hready, hused, helse]
        refine ⟨fun h => absurd h Bool.false_ne_true, fun h => ?_⟩
        rw [hs.mpr ((used_iff s.chain c id).mpr (.inr h))] at hdown
        cases hdown

/-- Adding another effect: the flag follows exactly if the loop that asks for the new effect finds what it would
have found for the old one. -/
theorem activate_follows_other (hid : Internal id) (hmix : ∀ entry, (mixIn entry).effectId = entry.effectId)
    (hup : NeverUp id s) (hs : Follows id s) (hne : effectNr ≠ id) :
    NeverUp id (activateNew table w kf mixIn (discardOld table s c effectNr) c effectNr).2 ∧
      (Follows id (activateNew table w kf mixIn (discardOld table s c effectNr) c effectNr).2 ↔
        ((s.chain c).effectId = id → (Elsewhere s.chain c effectNr ↔ Elsewhere s.chain c id))) := by
  obtain ⟨hready, hused⟩ := activateNew_other table w kf (s := discardOld table s c effectNr) (c := c) hid hmix hne
  rw [(discardOld_chain table s c effectNr).2 id] at hused
  rw [NeverUp, Follows, hready, hused]
  by_cases hold : (s.chain c).effectId = id
  · obtain ⟨hflag, hmem⟩ := hs.needs hup ((used_iff s.chain c id).mpr (.inl hold))
    rw [discardOld_ready_self hid table hold hne hflag hmem]
    refine ⟨fun h => ?_, fun h _ => h, fun h => h hold⟩
    rw [hmem] at h
    cases h
  · rw [discardOld_ready_other hid table fun h => absurd h hold]
    refine ⟨hup, fun _ h => absurd h hold, fun _ => ?_⟩
    exact hs.trans ((used_iff s.chain c id).trans (or_iff_right hold))

end Activate

/-! ## One step -/

/-- What adding an effect needs for the flag to follow the use. -/
theorem addEffect_follows_iff (table : FxTable) (w : World) (kf : Option ℕ) {mixIn : FxEntry → FxEntry} {s : FxState}
    {id : ℤ} (hid : Internal id) (hmix : ∀ entry, (mixIn entry).effectId = entry.effectId) (hup : NeverUp id s)
    (hs : Follows id s) {ι : Type} (c effectNr : ℤ) :
    NeverUp id (addEffect table w kf mixIn s c effectNr).2 ∧
      (Follows id (addEffect table w kf mixIn s c effectNr).2 ↔ Clean id s (.set c effectNr w : ChainOp ι)) := by
  rw [addEffect]
  cases hc : position c with
  | none =>
    refine ⟨hup, fun _ i hi => ?_, fun _ => hs⟩
    rw [hc] at hi
    cases hi
  | some i =>
    have hclean : Clean id s (.set c effectNr w : ChainOp ι) ↔
        if effectNr = id then noMemRequired id = false
        else (s.chain i).effectId = id → (Elsewhere s.chain i effectNr ↔ Elsewhere s.chain i id) := by
      refine ⟨fun h => h i hc, fun h j hj => ?_⟩
      obtain rfl := Option.some.inj (hc.symm.trans hj)
      exact h
    rw [hclean]
    by_cases hnew : effectNr = id
    · rw [if_pos hnew, hnew]
      exact activate_follows_self table w kf hid hmix hup hs
    · rw [if_neg hnew]
      exact activate_follows_other table w kf hid hmix hup hs hnew

/-- Removing an entry: the flag goes down with the last use. -/
theorem removeEffect_follows (table : FxTable) (clear : FxEntry → FxEntry) {s : FxState} {id : ℤ} (hid : Internal id)
    (hup : NeverUp id s) (hs : Follows id s) (c : Fin sampleMaxEffects) :
    NeverUp id (removeEffect table clear s c) ∧ Follows id (removeEffect table clear s c) := by
  have hnone : (-1 : ℤ) ≠ id := by
    rw [Internal] at hid
    omega
  have hused : ∀ entry : FxEntry, Used (Function.update s.chain c { entry with effectId := -1 }) id ↔
      Elsewhere s.chain c id := by
    intro entry
    rw [used_update]
    exact or_iff_right hnone
  rw [removeEffect]
  by_cases hold : (s.chain c).effectId = id
  · obtain ⟨hready, hmem⟩ := hs.needs hup ((used_iff s.chain c id).mpr (.inl hold))
    have hinit : vjEffectInitialized table s.ready id (s.chain c).fxInstance = true := by
      rw [hid.initialized, hready, Bool.or_true]
    have hplugin : ¬ vjEffectIsPlugin table id = true := Bool.eq_false_iff.mp (hid.not_plugin table)
    dsimp only
    rw [hold]
    split_ifs with hfree
    · refine ⟨fun h => absurd (hmem.symm.trans h) Bool.false_ne_true, ?_⟩
      show vjEffectDeactivate table s.ready id _ = true ↔ _
      rw [vjEffectDeactivate_self hid hmem, hused]
      exact ⟨fun h => absurd h Bool.false_ne_true, fun h => absurd h (hfree.2.2.resolve_left hplugin)⟩
    · refine ⟨hup, ?_⟩
      show s.ready _ = true ↔ Used (Function.update s.chain c _) id
      rw [hused]
      refine ⟨fun _ => by_contra fun h => hfree ⟨hnone.symm, hinit, .inr h⟩, fun _ => hready⟩
  · have hkept : s.ready (vjEffectRealToSequence id) = true ↔ Elsewhere s.chain c id :=
      hs.trans ((used_iff s.chain c id).trans (or_iff_right hold))
    split_ifs
    · have hflag := vjEffectDeactivate_other hid hold table s.ready
      refine ⟨fun h => hflag.trans (hup h), ?_⟩
      show vjEffectDeactivate table s.ready _ _ = true ↔ _
      rw [hflag, hkept, hused]
    · refine ⟨hup, ?_⟩
      show s.ready _ = true ↔ Used (Function.update s.chain c _) id
      rw [hkept, hused]

/-! ## Runs -/

/-- One operation on the chain of a sample. -/
theorem sampleStep_follows (table : FxTable) {id : ℤ} (hid : Internal id) (s : FxState) (o : ChainOp ℤ)
    (hup : NeverUp id s) (hs : Follows id s) :
    ∃ r s', sampleStep table s o = .ok (r, s') ∧ NeverUp id s' ∧ (Follows id s' ↔ Clean id s o) := by
  cases o with
  | set c effectNr w =>
    refine ⟨_, _, rfl, addEffect_follows_iff table w none hid ?_ hup hs c effectNr⟩
    intro entry
    rfl
  | remove c w =>
    cases hc : position c with
    | none =>
      refine ⟨-1, s, ?_, hup, fun _ => trivial, fun _ => hs⟩
      rw [sampleStep, sampleChainRemove, hc]
    | some i =>
      obtain ⟨hup', hs'⟩ := removeEffect_follows table (fun entry =>
        { entry with
          frameOffset := 0, frameTrimmer := 0, volume := 0, aFlag := 0, kf := none
          sourceType := 0, channel := 0, arg := zeroArgs entry.arg }) hid hup hs i
      refine ⟨1, _, ?_, hup', fun _ => trivial, fun _ => hs'⟩
      rw [sampleStep, sampleChainRemove, hc]

theorem position_fin (c : Fin sampleMaxEffects) : position (c : ℕ) = some c := by
  have h : (0 : ℤ) ≤ (c : ℕ) ∧ ((c : ℕ) : ℤ) < sampleMaxEffects := by
    have := c.isLt
    omega
  rw [position, dif_pos h]
  rfl

/-- One operation on the chain of a stream. -/
theorem tagStep_follows (t1 : ℤ) (table : FxTable) {id : ℤ} (hid : Internal id) (s : FxState)
    (o : ChainOp (Fin sampleMaxEffects)) (hup : NeverUp id s) (hs : Follows id s) :
    ∃ r s', tagStep t1 table s o = .ok (r, s') ∧ NeverUp id s' ∧ (Follows id s' ↔ Clean id s o) := by
  cases o with
  | set c effectNr w =>
    refine ⟨_, _, rfl, addEffect_follows_iff table w (some w.port) hid ?_ hup hs c effectNr⟩
    intro entry
    rfl
  | remove c w =>
    obtain ⟨hup', hs'⟩ := removeEffect_follows table (fun entry =>
      { entry with
        eFlag := 0, kf := some w.port, sourceType := 1, channel := t1, arg := zeroArgs entry.arg }) hid hup hs c
    refine ⟨1, _, ?_, hup', fun _ => trivial, fun _ => hs'⟩
    rw [tagStep, vjTagChainRemove, position_fin]

/-- **Activation follows use.**  For an effect that is not a plugin, on the chain of a sample and on that of a
stream: after every step of a run its flag is up exactly while an entry uses it, if and only if all steps are
`Clean`. -/
theorem activation_follows_iff (table : FxTable) (t1 id : ℤ) (hvalid : vjEffectIsValid table id = true)
    (hplugin : vjEffectIsPlugin table id = false) (s : FxState) (hup : NeverUp id s) (hs : Follows id s) :
    (∀ os, (∀ pre, pre <+: os → Ensures (runOps (sampleStep table) s pre) fun a => Follows id a.2) ↔
      RunMeets (sampleStep table) (Clean id) s os) ∧
    ∀ os, (∀ pre, pre <+: os → Ensures (runOps (tagStep t1 table) s pre) fun a => Follows id a.2) ↔
      RunMeets (tagStep t1 table) (Clean id) s os := by
  have hid := internal_of_valid hvalid hplugin
  constructor
  · intro os
    exact runOps_keeps_iff (fun s o => sampleStep_follows table hid s o) hup hs os
  · intro os
    exact runOps_keeps_iff (fun s o => tagStep_follows t1 table hid s o) hup hs os

/-- A chain without effects, and all flags down. -/
def emptyState : FxState where
  chain _ :=
    { effectId := -1, fxInstance := none, eFlag := 0, arg := fun _ => 0, frameOffset := 0, frameTrimmer := 0
      volume := 0, aFlag := 0, kfStatus := 0, kfType := 0, kf := none, sourceType := 0, channel := 0 }
  ready _ := false

/-- A table without plugins. -/
def plainTable : FxTable where
  nExtPlugs := 0
  numParams _ := 0
  default _ _ := 0
  extraFrame _ := false

/-- There is memory, and one sample. -/
def plainWorld : World where
  memInit := true
  plugActivate := none
  port := 0
  sampleSize := 2

/-- The effect `VJ_VIDEO_EFFECT_DIFF` on chains that are empty at first. -/
theorem diff_follows_iff :
    (∀ os, (∀ pre, pre <+: os → Ensures (runOps (sampleStep plainTable) emptyState pre) fun a => Follows 203 a.2) ↔
      RunMeets (sampleStep plainTable) (Clean 203) emptyState os) ∧
    ∀ os, (∀ pre, pre <+: os → Ensures (runOps (tagStep 1 plainTable) emptyState pre) fun a => Follows 203 a.2) ↔
      RunMeets (tagStep 1 plainTable) (Clean 203) emptyState os :=
  activation_follows_iff plainTable 1 203 (by decide) (by decide) emptyState (fun _ => rfl) (by decide)

/-- Two entries use the effect, and it is replaced in one of them: its flag goes down. -/
def replaceOne {ι : Type} : List (ChainOp ι) :=
  [.set 0 203 plainWorld, .set 1 203 plainWorld, .set 0 209 plainWorld]

/-- On the chain of a sample and on that of a stream the other entry is left with an effect that is freed. -/
theorem diff_freed_in_use :
    ¬ (Ensures (runOps (sampleStep plainTable) emptyState replaceOne) fun a => Follows 203 a.2) ∧
      ¬ Ensures (runOps (tagStep 1 plainTable) emptyState replaceOne) fun a => Follows 203 a.2 := by
  constructor
  · rintro ⟨a, ha, hfollows⟩
    have hrun : ∃ b, runOps (sampleStep plainTable) emptyState replaceOne = .ok b ∧ ¬ Follows 203 b.2 :=
      ⟨_, rfl, by decide⟩
    obtain ⟨b, hb, hnot⟩ := hrun
    obtain rfl := Except.ok.inj (ha.symm.trans hb)
    exact hnot hfollows
  · rintro ⟨a, ha, hfollows⟩
    have hrun : ∃ b, runOps (tagStep 1 plainTable) emptyState replaceOne = .ok b ∧ ¬ Follows 203 b.2 :=
      ⟨_, rfl, by decide⟩
    obtain ⟨b, hb, hnot⟩ := hrun
    obtain rfl := Except.ok.inj (ha.symm.trans hb)
    exact hnot hfollows

end Veejay.Effects
