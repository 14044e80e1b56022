import Veejay.CLib.Single
import Veejay.Effects.Preset

/-!
# The parameters of effects in their ranges

Five commands set the parameters of the effects on the chains of samples: a new effect brings its defaults, a preset
the numbers that are valid, a parameter is set to a valid value, to a part of its range, or counted up and down
(`veejay/vj-event.c`).

* `FxSample`, `FxBank` — the chains of the samples;
* `vjEventChainEntrySet`, … — the handlers;
* `InRange` — the parameters of an entry lie between the limits of its effect;
* `Fits` — the commands that keep them there;
* `params_in_range` — **in runs of such commands, all parameters stay in their ranges**.
-/

namespace Veejay.Effects

open CLib Veejay.Samples

/-! ## Chains of samples -/

/-- A sample, as far as its chain goes. -/
structure FxSample where
  chain : Fin sampleMaxEffects → FxEntry
  selectedEntry : Fin sampleMaxEffects

/-- The samples, the flags `vj_effect_ready`, `this_sample_id`, and the sample that is played, if one is. -/
structure FxBank where
  samples : ℤ → Option FxSample
  ready : Ready
  sampleSize : ℤ
  sampleId : ℤ
  samplePlaying : Bool

/-- The chain of a sample is changed, if there is the sample. -/
def FxBank.onChain (b : FxBank) (id : ℤ) (f : FxState → Exec FxState) : Exec FxBank :=
  match b.samples id with
  | none => .ok b
  | some s => do
    let t ← f ⟨s.chain, b.ready⟩
    .ok { b with samples := Function.update b.samples id (some { s with chain := t.chain }), ready := t.ready }

/-- `sample_get_selected_entry` -/
def sampleGetSelectedEntry (b : FxBank) (id : ℤ) : ℤ := (b.samples id).elim (-1) fun s => (s.selectedEntry : ℕ)

/-- `sample_get_effect_any`, for an entry of the chain -/
def sampleGetEffectAny (b : FxBank) (id : ℤ) (c : Fin sampleMaxEffects) : ℤ :=
  (b.samples id).elim (-1) fun s => (s.chain c).effectId

/-- `sample_set_effect_arg`, for an entry of the chain.  `arg[32]` is the field behind the array. -/
def sampleSetEffectArg (c : Fin sampleMaxEffects) (argnr value : ℤ) (s : FxState) : FxState :=
  if argnr < 0 ∨ argnr > sampleMaxParameters then s else s.setArg c argnr.toNat value

/-- `sample_get_effect_arg`, for an entry of the chain -/
def sampleGetEffectArg (b : FxBank) (id : ℤ) (c : Fin sampleMaxEffects) (argnr : ℤ) : ℤ :=
  (b.samples id).elim (-1) fun s =>
    if argnr < 0 ∨ argnr > sampleMaxParameters then -1 else (s.chain c).arg argnr.toNat

section Handlers

variable (table : FxTable) (limits : ℤ → ℕ → ℤ × ℤ)

/-- `vj_effect_get_min_limit` -/
def vjEffectGetMinLimit (id paramNr : ℤ) : ℤ :=
  if vjEffectRealToSequence id > 0 ∧ paramNr ≥ 0 ∧ paramNr < table.numParams id then (limits id paramNr.toNat).1 else 0

/-- `vj_effect_get_max_limit` -/
def vjEffectGetMaxLimit (id paramNr : ℤ) : ℤ :=
  if vjEffectRealToSequence id > 0 ∧ paramNr ≥ 0 ∧ paramNr < table.numParams id then (limits id paramNr.toNat).2 else 0

/-- What the functions of the effects and the chain find; `selected_entry` is not looked at again. -/
def player (w : World) (id : ℤ) : Player :=
  { table := table, limits := limits, world := w, sampleId := id, selectedEntry := 0 }

/-- The sample that a command names: 0 is the one that is played. -/
def played (b : FxBank) (a0 : ℤ) : ℤ := if a0 = 0 then b.sampleId else a0

/-- The sample that a command names: 0 is the one that is played, -1 the last one. -/
def playedOrLast (b : FxBank) (a0 : ℤ) : ℤ := if played b a0 = -1 then b.sampleSize - 1 else played b a0

/-- The entry that a command names: -1 is the one that is selected in the sample that is played. -/
def entryNo (b : FxBank) (a1 : ℤ) : ℤ := if a1 = -1 then sampleGetSelectedEntry b b.sampleId else a1

/-- `vj_event_chain_entry_set` -/
def vjEventChainEntrySet (w : World) (b : FxBank) (a0 a1 a2 : ℤ) : Exec FxBank :=
  if b.samplePlaying = false then .ok b
  else
    match position (entryNo b a1) with
    | none => .ok b
    | some _ => b.onChain (playedOrLast b a0) fun s => .ok (sampleChainAdd table w s (entryNo b a1) a2).2

/-- `vj_event_chain_entry_preset`, behind the scanning of its numbers: those after the first three are stored in
`args[SAMPLE_MAX_PARAMETERS]`. -/
def vjEventChainEntryPreset (w : World) (b : FxBank) (a0 a1 a2 : ℤ) (args : List ℤ) : Exec FxBank :=
  if sampleMaxParameters < 3 + args.length then .error .overrun
  else if b.samplePlaying = false then .ok b
  else
    b.onChain (played b a0)
      (presetEntry (player table limits w (played b a0)) (played b a0) (entryNo b a1) a2 args)

/-- `vj_event_chain_entry_set_arg_val` -/
def vjEventChainEntrySetArgVal (w : World) (b : FxBank) (a0 a1 a2 a3 : ℤ) : Exec FxBank :=
  if b.samplePlaying = false then .ok b
  else
    match position (entryNo b a1) with
    | none => .ok b
    | some c =>
      let effect := sampleGetEffectAny b (playedOrLast b a0) c
      if 0 ≤ a2 ∧ vjEffectValidValue (player table limits w 0) effect a2.toNat a3 then
        b.onChain (playedOrLast b a0) fun s => .ok (sampleSetEffectArg c a2 a3 s)
      else .ok b

/-- `(int) (min + (max * ((float) value / 100.0f)))` -/
def nargValue (min max value : ℤ) : ℤ :=
  toInt (toSingle (toSingle min + toSingle (toSingle max * toSingle (toSingle value / 100))))

/-- `vj_event_chain_entry_set_narg_val`; the limits are those of the sample that is played. -/
def vjEventChainEntrySetNargVal (b : FxBank) (a0 a1 a2 value : ℤ) : Exec FxBank :=
  if b.samplePlaying = false then .ok b
  else
    match position (entryNo b a1) with
    | none => .ok b
    | some c =>
      if (b.samples (played b a0)).isNone then .ok b
      else do
        let effect := sampleGetEffectAny b b.sampleId c
        let numP ← vjEffectGetNumParams table effect
        let a2 := if a2 > numP then (numP : ℤ) else a2
        let val := nargValue (vjEffectGetMinLimit table limits effect a2) (vjEffectGetMaxLimit table limits effect a2) value
        b.onChain (played b a0) fun s => .ok (sampleSetEffectArg c a2 val s)

/-- `vj_event_chain_arg_inc` -/
def vjEventChainArgInc (b : FxBank) (a0 a1 : ℤ) : Exec FxBank :=
  if b.samplePlaying = false then .ok b
  else
    match position (sampleGetSelectedEntry b b.sampleId) with
    | none => .ok b
    | some c =>
      let effect := sampleGetEffectAny b b.sampleId c
      let val := sampleGetEffectArg b b.sampleId c a0
      if vjEffectIsValid table effect then
        let tval := val + a1
        let tval :=
          if tval > vjEffectGetMaxLimit table limits effect a0 then vjEffectGetMinLimit table limits effect a0
          else if tval < vjEffectGetMinLimit table limits effect a0 then vjEffectGetMaxLimit table limits effect a0
          else tval
        b.onChain b.sampleId fun s => .ok (sampleSetEffectArg c a0 tval s)
      else .ok b

/-- The commands with their arguments, and what activations meet. -/
inductive FxCommand where
  | set (w : World) (a0 a1 a2 : ℤ)
  | preset (w : World) (a0 a1 a2 : ℤ) (args : List ℤ)
  | setArgVal (w : World) (a0 a1 a2 a3 : ℤ)
  | setNargVal (a0 a1 a2 value : ℤ)
  | argInc (a0 a1 : ℤ)

/-- One command. -/
def FxCommand.run (b : FxBank) : FxCommand → Exec FxBank
  | .set w a0 a1 a2 => vjEventChainEntrySet table w b a0 a1 a2
  | .preset w a0 a1 a2 args => vjEventChainEntryPreset table limits w b a0 a1 a2 args
  | .setArgVal w a0 a1 a2 a3 => vjEventChainEntrySetArgVal table limits w b a0 a1 a2 a3
  | .setNargVal a0 a1 a2 value => vjEventChainEntrySetNargVal table limits b a0 a1 a2 value
  | .argInc a0 a1 => vjEventChainArgInc table limits b a0 a1

/-- One command of a run. -/
def fxStep (b : FxBank) (c : FxCommand) : Exec (Unit × FxBank) := do
  let b ← c.run table limits b
  .ok ((), b)

/-! ## Ranges -/

/-- Every parameter of an entry lies between the limits of the effect. -/
def InRange (entry : FxEntry) : Prop :=
  ∀ n, vjEffectGetNumParams table entry.effectId = .ok n → ∀ j : ℕ, j < n →
    vjEffectGetMinLimit table limits entry.effectId j ≤ entry.arg j ∧
      entry.arg j ≤ vjEffectGetMaxLimit table limits entry.effectId j

/-- No effect, or one that there is, with its parameters in their ranges. -/
def Good (entry : FxEntry) : Prop :=
  entry.effectId = -1 ∨ vjEffectIsValid table entry.effectId = true ∧
    ∀ j < table.numParams entry.effectId,
      (limits entry.effectId j).1 ≤ entry.arg j ∧ entry.arg j ≤ (limits entry.effectId j).2

/-- All entries are good. -/
def FxBank.Good (b : FxBank) : Prop := ∀ id s, b.samples id = some s → ∀ c, Effects.Good table limits (s.chain c)

end Handlers

/-! ## Parts of a range -/

/-- Between the limits `m₁` and `M₁` there is the part `v` of the range that `m` and `M` give: numbers for which `float`
is good enough, and a sum, in hundredths, on the right side of both.  The fraction is cut off, which is up for a negative
sum. -/
structure NargFits (m M v m₁ M₁ : ℤ) : Prop where
  small : |m| ≤ 40000 ∧ |M * v| ≤ 4000000
  low : 100 * m₁ < 100 * m + M * v ∨ M * v = 0 ∧ m₁ ≤ m ∨ m₁ ≤ 0 ∧ 100 * (m₁ - 1) < 100 * m + M * v
  high : 100 * m + M * v < 100 * M₁ ∨ M * v = 0 ∧ m ≤ M₁ ∨ 0 ≤ M₁ ∧ 100 * m + M * v < 100 * (M₁ + 1)

section Narg

variable {m M v m₁ M₁ : ℤ}

/-- Without a product, the sum is exact. -/
theorem nargSum_exact (hm : |m| ≤ 40000) (hzero : M * v = 0) :
    toSingle (toSingle m + toSingle (toSingle M * toSingle (toSingle v / 100))) = m := by
  have hm' : toSingle m = m := toSingle_int (lt_of_le_of_lt hm (by norm_num))
  have hproduct : toSingle M * toSingle (toSingle v / 100) = 0 := by
    rcases mul_eq_zero.mp hzero with rfl | rfl
    · rw [Int.cast_zero, toSingle_zero, zero_mul]
    · rw [Int.cast_zero, toSingle_zero, zero_div, toSingle_zero, mul_zero]
  rw [hproduct, toSingle_zero, add_zero, hm', hm']

/-- Three roundings make less than a hundredth. -/
theorem nargSum_near (hm : |m| ≤ 40000) (hMv : |M * v| ≤ 4000000) :
    |toSingle (toSingle m + toSingle (toSingle M * toSingle (toSingle v / 100))) - (m + M * v / 100)| < 1 / 100 := by
  by_cases hzero : M * v = 0
  · have hzero' : (M : ℚ) * v = 0 := by exact_mod_cast hzero
    rw [nargSum_exact hm hzero, hzero', zero_div, add_zero, sub_self, abs_zero]
    norm_num
  obtain ⟨hM, hv⟩ := mul_ne_zero_iff.mp hzero
  rw [abs_mul] at hMv
  have hM1 : 1 ≤ |M| := Int.one_le_abs hM
  have hv1 : 1 ≤ |v| := Int.one_le_abs hv
  have hM' : toSingle M = M := toSingle_int (by nlinarith)
  have hv' : toSingle v = v := toSingle_int (by nlinarith)
  have hm' : toSingle m = m := toSingle_int (lt_of_le_of_lt hm (by norm_num))
  rw [hM', hv', hm']
  have hmq : |(m : ℚ)| ≤ 40000 := by exact_mod_cast hm
  have hbound : |(M : ℚ)| * |(v : ℚ) / 100| ≤ 40000 := by
    have hcast : |(M : ℚ)| * |(v : ℚ)| ≤ 4000000 := by exact_mod_cast hMv
    rw [abs_div, abs_of_pos (by norm_num : (0 : ℚ) < 100), mul_div_assoc']
    linarith
  generalize hq : toSingle ((v : ℚ) / 100) = q
  have hquot : |(M : ℚ) * q - M * v / 100| ≤ 40000 / 2 ^ 24 := by
    have herror := abs_toSingle_sub_le ((v : ℚ) / 100)
    rw [hq] at herror
    rw [mul_div_assoc, ← mul_sub, abs_mul]
    calc |(M : ℚ)| * |q - v / 100| ≤ |(M : ℚ)| * (|(v : ℚ) / 100| / 2 ^ 24) :=
          mul_le_mul_of_nonneg_left herror (abs_nonneg _)
      _ ≤ 40000 / 2 ^ 24 := by
        rw [mul_div_assoc']
        exact div_le_div_of_nonneg_right hbound (by norm_num)
  have hpart : |(M : ℚ) * v / 100| ≤ 40000 := by
    rw [mul_div_assoc, abs_mul]
    exact hbound
  have hproduct := abs_toSingle_sub_le ((M : ℚ) * q)
  have hsum := abs_toSingle_sub_le ((m : ℚ) + toSingle ((M : ℚ) * q))
  generalize toSingle ((m : ℚ) + toSingle ((M : ℚ) * q)) = total at hsum ⊢
  generalize toSingle ((M : ℚ) * q) = product at hsum hproduct ⊢
  have habs : |(M : ℚ) * q| ≤ 40001 := by
    calc |(M : ℚ) * q| = |((M : ℚ) * q - M * v / 100) + M * v / 100| := by rw [sub_add_cancel]
      _ ≤ |(M : ℚ) * q - M * v / 100| + |(M : ℚ) * v / 100| := abs_add_le _ _
      _ ≤ 40001 := by linarith
  have hdist : |product - M * v / 100| ≤ 80001 / 2 ^ 24 := by
    calc |product - (M : ℚ) * v / 100| = |(product - M * q) + (M * q - M * v / 100)| := by rw [sub_add_sub_cancel]
      _ ≤ |product - M * q| + |(M : ℚ) * q - M * v / 100| := abs_add_le _ _
      _ ≤ 80001 / 2 ^ 24 := by linarith
  have habs' : |(m : ℚ) + product| ≤ 80001 := by
    calc |(m : ℚ) + product| = |m + ((product - M * v / 100) + M * v / 100)| := by rw [sub_add_cancel]
      _ ≤ |(m : ℚ)| + |(product - M * v / 100) + M * v / 100| := abs_add_le _ _
      _ ≤ |(m : ℚ)| + (|product - M * v / 100| + |(M : ℚ) * v / 100|) := by
        linarith [abs_add_le (product - (M : ℚ) * v / 100) ((M : ℚ) * v / 100)]
      _ ≤ 80001 := by linarith
  calc |total - ((m : ℚ) + M * v / 100)| = |(total - (m + product)) + (product - M * v / 100)| := by
        rw [show total - ((m : ℚ) + M * v / 100) = (total - (m + product)) + (product - M * v / 100) by ring]
    _ ≤ |total - ((m : ℚ) + product)| + |product - (M : ℚ) * v / 100| := abs_add_le _ _
    _ < 1 / 100 := by linarith

/-- **The part of a range lies between the limits.** -/
theorem nargValue_mem (h : NargFits m M v m₁ M₁) : m₁ ≤ nargValue m M v ∧ nargValue m M v ≤ M₁ := by
  obtain ⟨hm, hMv⟩ := h.small
  have hnear := abs_lt.mp (nargSum_near hm hMv)
  have hexact := nargSum_exact (v := v) (M := M) hm
  unfold nargValue
  generalize toSingle (toSingle m + toSingle (toSingle M * toSingle (toSingle v / 100))) = total at hnear hexact ⊢
  have hfits : |total| < 2 ^ 31 := by
    have hmq := abs_le.mp (show |(m : ℚ)| ≤ 40000 by exact_mod_cast hm)
    have hMvq := abs_le.mp (show |(M : ℚ) * v| ≤ 4000000 by exact_mod_cast hMv)
    rw [abs_lt]
    constructor <;> linarith [hnear.1, hnear.2, hmq.1, hmq.2, hMvq.1, hMvq.2]
  constructor
  · refine le_toInt hfits ?_
    rcases h.low with hlt | ⟨hzero, hle⟩ | ⟨hneg, hlt⟩
    · have hcast : (100 : ℚ) * m₁ + 1 ≤ 100 * m + M * v := by exact_mod_cast hlt
      exact .inl (by linarith [hnear.1])
    · rw [hexact hzero]
      exact .inl (by exact_mod_cast hle)
    · have hcast : (100 : ℚ) * (m₁ - 1) + 1 ≤ 100 * m + M * v := by exact_mod_cast hlt
      exact .inr ⟨hneg, by linarith [hnear.1]⟩
  · refine toInt_le hfits ?_
    rcases h.high with hlt | ⟨hzero, hle⟩ | ⟨hpos, hlt⟩
    · have hcast : (100 : ℚ) * m + M * v + 1 ≤ 100 * M₁ := by exact_mod_cast hlt
      exact .inl (by linarith [hnear.2])
    · rw [hexact hzero]
      exact .inl (by exact_mod_cast hle)
    · have hcast : (100 : ℚ) * m + M * v + 1 ≤ 100 * (M₁ + 1) := by exact_mod_cast hlt
      exact .inr ⟨hpos, by linarith [hnear.2]⟩

end Narg

/-! ## New effects -/

section Chain

variable {table : FxTable} {limits : ℤ → ℕ → ℤ × ℤ} {id : ℤ}

theorem valid_of_initialized {ready : Ready} {fxInstance : Option ℕ}
    (h : vjEffectInitialized table ready id fxInstance = true) : vjEffectIsValid table id = true := by
  refine decide_eq_true ?_
  unfold vjEffectInitialized at h
  dsimp only at h
  split_ifs at h with hneg hplugin hmax
  · have hseq := of_decide_eq_true hplugin
    unfold vjEffectRealToSequence at hseq hneg
    rw [maxEffects] at hseq hneg
    split_ifs at hseq hneg <;> omega
  · unfold vjEffectRealToSequence at hneg hmax
    rw [maxEffects] at hneg hmax
    split_ifs at hneg hmax <;> omega

/-- `vj_effect_activate` lets one number too many pass. -/
theorem valid_of_activate {w : World} {ready : Ready} (h : (vjEffectActivate table w ready id).1 = true)
    (hlast : id ≠ vjExtEffect + table.nExtPlugs) : vjEffectIsValid table id = true := by
  refine decide_eq_true ?_
  unfold vjEffectActivate at h
  dsimp only at h
  by_cases hout : vjEffectRealToSequence id < 0 ∨ maxEffects + table.nExtPlugs < vjEffectRealToSequence id
  · rw [if_pos hout] at h
    cases h
  · unfold vjEffectRealToSequence at hout
    rw [maxEffects] at hout
    split_ifs at hout <;> omega

theorem discardOld_entry (s : FxState) (c : Fin sampleMaxEffects) (effectNr : ℤ) :
    ((discardOld table s c effectNr).chain c).effectId = (s.chain c).effectId ∧
      ((discardOld table s c effectNr).chain c).arg = (s.chain c).arg := by
  rw [discardOld]
  split_ifs
  case neg =>
    constructor
    · show (Function.update s.chain c _ c).effectId = _
      rw [Function.update_self]
    · show (Function.update s.chain c _ c).arg = _
      rw [Function.update_self]
  all_goals exact ⟨rfl, rfl⟩

/-- What the entry holds when the effect is on it. -/
structure Holds (table : FxTable) (id : ℤ) (old entry : FxEntry) : Prop where
  effectId : entry.effectId = id
  arg : ∀ n < table.numParams id,
    entry.arg n = if old.effectId = id then old.arg n else table.default id n

theorem usedEntry_holds {kf : Option ℕ} {mixIn : FxEntry → FxEntry}
    (hmix : ∀ entry, (mixIn entry).effectId = entry.effectId ∧ (mixIn entry).arg = entry.arg) {old entry : FxEntry}
    (hid : entry.effectId = old.effectId) (harg : entry.arg = old.arg) :
    Holds table id old (usedEntry table kf mixIn id entry) := by
  have hdefaults : ∀ n < table.numParams id, (withDefaults table kf entry id).arg n =
      if old.effectId = id then old.arg n else table.default id n := by
    intro n hn
    rw [withDefaults, hid]
    by_cases h : old.effectId = id
    · rw [if_neg (not_not_intro h), if_pos h, harg]
    · rw [if_pos h, if_neg h]
      exact if_pos hn
  rw [usedEntry]
  dsimp only
  split_ifs
  · exact ⟨(hmix _).1, fun n hn => by rw [(hmix _).2]; exact hdefaults n hn⟩
  · exact ⟨rfl, hdefaults⟩

/-- **A new effect.**  It is not activated and the entry has none, or it is on the entry. -/
theorem sampleChainAdd_cases (w : World) (s : FxState) {a : ℤ} {c : Fin sampleMaxEffects} (ha : position a = some c)
    (hlast : id ≠ vjExtEffect + table.nExtPlugs) :
    (sampleChainAdd table w s a id).1 = 0 ∧ ((sampleChainAdd table w s a id).2.chain c).effectId = -1 ∨
      (sampleChainAdd table w s a id).1 = 1 ∧ vjEffectIsValid table id = true ∧
        Holds table id (s.chain c) ((sampleChainAdd table w s a id).2.chain c) := by
  obtain ⟨hid, harg⟩ := @discardOld_entry table s c id
  rw [sampleChainAdd, addEffect, ha]
  dsimp only
  generalize discardOld table s c id = t at hid harg ⊢
  rcases activateNew_cases table w _ _ t c id with ⟨fxInstance, hon, hone, hentry⟩ | ⟨-, hzero, hnone⟩
  · refine .inr ⟨hone, ?_, ?_⟩
    · rcases hon with hon | hon
      · exact valid_of_initialized hon
      · exact valid_of_activate hon hlast
    · rw [hentry]
      refine usedEntry_holds ?_ hid harg
      exact fun entry => ⟨rfl, rfl⟩
  · exact .inl ⟨hzero, hnone⟩

variable {p : Player} {s : FxState} {c : Fin sampleMaxEffects} {args : List ℤ}

/-- The parameter has this value between its limits. -/
def ValueIn (limits : ℤ → ℕ → ℤ × ℤ) (id : ℤ) (j : ℕ) (value : ℤ) : Prop :=
  (limits id j).1 ≤ value ∧ value ≤ (limits id j).2

theorem Good.valid {entry : FxEntry} (h : Good table limits entry) (hid : entry.effectId ≠ -1) :
    vjEffectIsValid table entry.effectId = true ∧
      ∀ j < table.numParams entry.effectId, ValueIn limits entry.effectId j (entry.arg j) :=
  h.resolve_left hid

/-- An effect on its entry, with values in their ranges. -/
theorem Holds.good {old entry : FxEntry} (h : Holds table id old entry) (hvalid : vjEffectIsValid table id = true)
    (hid : id ≠ -1) (hold : Good table limits old)
    (hdefault : old.effectId ≠ id → ∀ j < table.numParams id, ValueIn limits id j (table.default id j)) :
    Good table limits entry := by
  refine .inr ?_
  rw [h.effectId]
  refine ⟨hvalid, fun j hj => ?_⟩
  rw [h.arg j hj]
  by_cases hsame : old.effectId = id
  · rw [if_pos hsame]
    obtain ⟨-, hrange⟩ := hold.valid (hsame ▸ hid)
    rw [hsame] at hrange
    exact hrange j hj
  · rw [if_neg hsame]
    exact hdefault hsame j hj

theorem valid_ne (hvalid : vjEffectIsValid table id = true) : id ≠ -1 := by
  rintro rfl
  exact absurd (valid_seq hvalid).1 (by decide)

theorem good_of_other {chain chain' : Fin sampleMaxEffects → FxEntry} (h : ∀ j, Good table limits (chain j))
    (hother : ∀ j, j ≠ c → chain' j = chain j) (hc : Good table limits (chain' c)) (j : Fin sampleMaxEffects) :
    Good table limits (chain' j) := by
  by_cases hj : j = c
  · rw [hj]
    exact hc
  · rw [hother j hj]
    exact h j

theorem sampleChainAdd_good (w : World) {a : ℤ} (ha : position a = some c)
    (hlast : id ≠ vjExtEffect + table.nExtPlugs) (h : ∀ j, Good table limits (s.chain j))
    (hdefault : vjEffectIsValid table id = true → (s.chain c).effectId ≠ id →
      ∀ j < table.numParams id, ValueIn limits id j (table.default id j)) (j : Fin sampleMaxEffects) :
    Good table limits ((sampleChainAdd table w s a id).2.chain j) := by
  refine good_of_other h (fun j hj => sampleChainAdd_other table w s ha id hj) ?_ j
  rcases sampleChainAdd_cases w s ha hlast with ⟨-, hnone⟩ | ⟨-, hvalid, hholds⟩
  · exact .inl hnone
  · exact hholds.good hvalid (valid_ne hvalid) (h c) (hdefault hvalid)

theorem lt_of_valid (hvalid : vjEffectIsValid table id = true) : id < vjExtEffect + table.nExtPlugs := by
  have hids := of_decide_eq_true hvalid
  rw [vjExtEffect] at hids ⊢
  omega

theorem vjEffectGetNumParams_ok (hid : id < vjExtEffect + table.nExtPlugs) :
    ∃ n, vjEffectGetNumParams table id = .ok n ∧ (vjEffectIsValid table id = true → n = table.numParams id) := by
  unfold vjEffectGetNumParams
  split_ifs with hnone hvalid
  · refine ⟨0, rfl, fun hvalid => ?_⟩
    have hseq := (valid_seq hvalid).1
    have hpos := of_decide_eq_true hvalid
    rw [vjExtEffect] at hpos
    omega
  · exact ⟨_, rfl, fun _ => rfl⟩
  · exfalso
    refine hvalid (decide_eq_true ?_)
    unfold vjEffectRealToSequence at hnone
    split_ifs at hnone <;> omega

/-- **A preset**: what is not in its range leaves the default, or what was there. -/
theorem presetEntry_good {a₀ a₁ : ℤ} (hplayed : a₀ = p.sampleId) (ha : position a₁ = some c)
    (hid : id < vjExtEffect + p.table.nExtPlugs)
    (hcount : vjEffectIsValid p.table id = true → p.table.numParams id + 3 ≤ sampleMaxParameters)
    (h : ∀ j, Good p.table p.limits (s.chain j))
    (hdefault : vjEffectIsValid p.table id = true → (s.chain c).effectId ≠ id → ∀ j < p.table.numParams id,
      ValueIn p.limits id j (p.table.default id j) ∨ ValueIn p.limits id j ((args[j]?).getD 0)) :
    Ensures (presetEntry p a₀ a₁ id args s) fun t => ∀ j, Good p.table p.limits (t.chain j) := by
  obtain ⟨numP, hnum, hnumP⟩ := vjEffectGetNumParams_ok hid
  have hother := fun j hj => sampleChainAdd_other (j := j) p.table p.world s ha id hj
  rw [presetEntry, ha]
  dsimp only
  rw [if_pos (.inr hplayed), hnum, ok_bind]
  rcases sampleChainAdd_cases p.world s ha hid.ne with ⟨hres, hnone⟩ | ⟨hres, hvalid, hholds⟩
  · rw [if_pos hres]
    exact ⟨_, rfl, good_of_other h hother (.inl hnone)⟩
  · rw [if_neg (by omega)]
    have hne := valid_ne hvalid
    rcases setArgs_chain List.nodup_range (sampleChainAdd p.table p.world s a₁ id).2 with
      ⟨⟨t, hset, heffect, harg⟩, -⟩ | ⟨-, i, hi, hbad⟩
    · refine ⟨t, hset, good_of_other h (fun j hj => (setArgs_other hset hj).trans (hother j hj)) (.inr ?_)⟩
      rw [heffect, hholds.effectId]
      refine ⟨hvalid, fun j hj => ?_⟩
      rw [harg j, hholds.arg j hj]
      split_ifs with hin hsame
      · obtain ⟨-, -, hlo, hhi⟩ := of_decide_eq_true hin.2
        exact ⟨hlo, hhi⟩
      · obtain ⟨-, hrange⟩ := (h c).valid (hsame ▸ hne)
        rw [hsame] at hrange
        exact hrange j hj
      · refine (hdefault hvalid hsame j hj).resolve_right fun hvalue => hin ⟨?_, decide_eq_true ?_⟩
        · rw [List.mem_range, hnumP hvalid]
          exact hj
        · exact ⟨(valid_seq hvalid).1.le, hj, hvalue⟩
    · exfalso
      have hnum := hcount hvalid
      rw [List.mem_range, hnumP hvalid] at hi
      omega

end Chain

/-! ## Commands -/

section Commands

variable (table : FxTable) (limits : ℤ → ℕ → ℤ × ℤ)

/-- What a command that comes to an entry of a chain asks of the entry. -/
def Meets (b : FxBank) (id a : ℤ) (P : FxEntry → Prop) : Prop :=
  b.samplePlaying = true → ∀ s c, b.samples id = some s → position a = some c → P (s.chain c)

/-- The commands that leave the parameters in their ranges.  A new effect has its defaults in their ranges; a preset has
no more than 29 numbers, and those in their ranges where the defaults are not; a part of a range is one of the range of
the effect that is set, though it is taken from the effect on the entry of the sample that is played. -/
def Fits (b : FxBank) : FxCommand → Prop
  | .set _ a0 a1 a2 =>
    Meets b (playedOrLast b a0) (entryNo b a1) fun entry =>
      a2 ≠ vjExtEffect + table.nExtPlugs ∧
        (vjEffectIsValid table a2 = true → entry.effectId ≠ a2 → ∀ j < table.numParams a2,
          ValueIn limits a2 j (table.default a2 j))
  | .preset _ a0 a1 a2 args =>
    3 + args.length ≤ sampleMaxParameters ∧
      Meets b (played b a0) (entryNo b a1) fun entry =>
        a2 < vjExtEffect + table.nExtPlugs ∧
          (vjEffectIsValid table a2 = true → table.numParams a2 + 3 ≤ sampleMaxParameters) ∧
          (vjEffectIsValid table a2 = true → entry.effectId ≠ a2 → ∀ j < table.numParams a2,
            ValueIn limits a2 j (table.default a2 j) ∨ ValueIn limits a2 j ((args[j]?).getD 0))
  | .setArgVal .. => True
  | .setNargVal a0 a1 a2 value =>
    ∀ c, position (entryNo b a1) = some c →
      let effect := sampleGetEffectAny b b.sampleId c
      Meets b (played b a0) (entryNo b a1) fun entry =>
        entry.effectId ≠ -1 → ∀ numP j : ℕ, vjEffectGetNumParams table effect = .ok numP → min a2 numP = j →
          j < table.numParams entry.effectId →
            NargFits (vjEffectGetMinLimit table limits effect j) (vjEffectGetMaxLimit table limits effect j) value
              (limits entry.effectId j).1 (limits entry.effectId j).2
  | .argInc .. => True

variable {table limits} {b : FxBank} {w : World} {id a0 a1 a2 a3 : ℤ} {c : Fin sampleMaxEffects}

theorem FxBank.onChain_good (h : b.Good table limits) {f : FxState → Exec FxState}
    (hf : ∀ s, b.samples id = some s →
      Ensures (f ⟨s.chain, b.ready⟩) fun t => ∀ c, Effects.Good table limits (t.chain c)) :
    Ensures (b.onChain id f) (FxBank.Good table limits) := by
  unfold FxBank.onChain
  cases hs : b.samples id with
  | none => exact ⟨b, rfl, h⟩
  | some s =>
    obtain ⟨t, ht, hgood⟩ := hf s hs
    dsimp only
    rw [ht, ok_bind]
    refine ⟨_, rfl, fun id' s' hs' => ?_⟩
    change Function.update b.samples id _ id' = some s' at hs'
    rcases eq_or_ne id' id with rfl | hne
    · rw [Function.update_self] at hs'
      obtain rfl := Option.some.inj hs'
      exact hgood
    · rw [Function.update_of_ne hne] at hs'
      exact h id' s' hs'

theorem vjEventChainEntrySet_good (h : b.Good table limits) (hfits : Fits table limits b (.set w a0 a1 a2)) :
    Ensures (vjEventChainEntrySet table w b a0 a1 a2) (FxBank.Good table limits) := by
  unfold vjEventChainEntrySet
  split_ifs with hplaying
  · exact ⟨b, rfl, h⟩
  cases ha : position (entryNo b a1) with
  | none => exact ⟨b, rfl, h⟩
  | some c =>
    refine FxBank.onChain_good h fun s hs => ⟨_, rfl, ?_⟩
    obtain ⟨hlast, hdefault⟩ := hfits (Bool.eq_true_of_not_eq_false hplaying) s c hs ha
    exact sampleChainAdd_good (s := ⟨s.chain, b.ready⟩) w ha hlast (h _ s hs) hdefault

theorem vjEventChainEntryPreset_good {args : List ℤ} (h : b.Good table limits)
    (hfits : Fits table limits b (.preset w a0 a1 a2 args)) :
    Ensures (vjEventChainEntryPreset table limits w b a0 a1 a2 args) (FxBank.Good table limits) := by
  obtain ⟨hlen, hfits⟩ := hfits
  unfold vjEventChainEntryPreset
  rw [if_neg (by omega)]
  split_ifs with hplaying
  · exact ⟨b, rfl, h⟩
  refine FxBank.onChain_good h fun s hs => ?_
  cases ha : position (entryNo b a1) with
  | none =>
    rw [presetEntry, ha]
    exact ⟨_, rfl, h _ s hs⟩
  | some c =>
    obtain ⟨hid, hcount, hdefault⟩ := hfits (Bool.eq_true_of_not_eq_false hplaying) s c hs ha
    exact presetEntry_good (p := player table limits w (played b a0)) (s := ⟨s.chain, b.ready⟩) rfl ha hid hcount
      (h _ s hs) hdefault

/-- A value is stored that is in its range, where it has one. -/
theorem sampleSetEffectArg_good {s : FxState} (h : ∀ j, Good table limits (s.chain j)) {j value : ℤ}
    (hvalue : (s.chain c).effectId ≠ -1 → ∀ n : ℕ, j = n → n < table.numParams (s.chain c).effectId →
      ValueIn limits (s.chain c).effectId n value) (i : Fin sampleMaxEffects) :
    Good table limits ((sampleSetEffectArg c j value s).chain i) := by
  unfold sampleSetEffectArg
  split_ifs with hj
  · exact h i
  refine good_of_other h (fun i hi => setArg_other s _ value hi) ?_ i
  show Good table limits (Function.update s.chain c _ c)
  rw [Function.update_self]
  rcases h c with hnone | ⟨hvalid, hrange⟩
  · exact .inl hnone
  · refine .inr ⟨hvalid, fun n hn => ?_⟩
    show ValueIn limits (s.chain c).effectId n (Function.update (s.chain c).arg j.toNat value n)
    rw [Function.update_apply]
    split_ifs with hnj
    · exact hvalue (valid_ne hvalid) n (by omega) hn
    · exact hrange n hn

theorem vjEventChainEntrySetArgVal_good (h : b.Good table limits) :
    Ensures (vjEventChainEntrySetArgVal table limits w b a0 a1 a2 a3) (FxBank.Good table limits) := by
  unfold vjEventChainEntrySetArgVal
  split_ifs with hplaying
  · exact ⟨b, rfl, h⟩
  cases ha : position (entryNo b a1) with
  | none => exact ⟨b, rfl, h⟩
  | some c =>
    dsimp only
    split_ifs with hvalid
    · refine FxBank.onChain_good h fun s hs => ⟨_, rfl, sampleSetEffectArg_good (s := ⟨s.chain, b.ready⟩) (h _ s hs) ?_⟩
      intro _ n hn _
      have heffect : sampleGetEffectAny b (playedOrLast b a0) c = (s.chain c).effectId := by
        rw [sampleGetEffectAny, hs]
        rfl
      rw [heffect, hn, Int.toNat_natCast] at hvalid
      obtain ⟨-, -, hlo, hhi⟩ := of_decide_eq_true hvalid.2
      exact ⟨hlo, hhi⟩
    · exact ⟨b, rfl, h⟩

/-- The effect on an entry of a good chain is valid, or there is none. -/
theorem sampleGetEffectAny_good (h : b.Good table limits) (id : ℤ) (c : Fin sampleMaxEffects) :
    sampleGetEffectAny b id c = -1 ∨ ∃ s, b.samples id = some s ∧ (s.chain c).effectId = sampleGetEffectAny b id c ∧
      vjEffectIsValid table (s.chain c).effectId = true := by
  unfold sampleGetEffectAny
  cases hs : b.samples id with
  | none => exact .inl rfl
  | some s => exact (h id s hs c).imp (fun hnone => hnone) fun hvalid => ⟨s, rfl, rfl, hvalid.1⟩

theorem limits_valid {n : ℕ} (hvalid : vjEffectIsValid table id = true) (hn : n < table.numParams id) :
    vjEffectGetMinLimit table limits id n = (limits id n).1 ∧ vjEffectGetMaxLimit table limits id n = (limits id n).2 := by
  have hbounds : vjEffectRealToSequence id > 0 ∧ (n : ℤ) ≥ 0 ∧ (n : ℤ) < table.numParams id :=
    ⟨(valid_seq hvalid).1, by omega, by omega⟩
  exact ⟨if_pos hbounds, if_pos hbounds⟩

theorem vjEventChainEntrySetNargVal_good (h : b.Good table limits)
    (hfits : Fits table limits b (.setNargVal a0 a1 a2 a3)) :
    Ensures (vjEventChainEntrySetNargVal table limits b a0 a1 a2 a3) (FxBank.Good table limits) := by
  unfold vjEventChainEntrySetNargVal
  by_cases hplaying : b.samplePlaying = false
  · rw [if_pos hplaying]
    exact ⟨b, rfl, h⟩
  rw [if_neg hplaying]
  cases ha : position (entryNo b a1) with
  | none => exact ⟨b, rfl, h⟩
  | some c =>
    have hfits := hfits c ha
    have heffect := sampleGetEffectAny_good h b.sampleId c
    dsimp only at hfits ⊢
    generalize sampleGetEffectAny b b.sampleId c = effect at hfits heffect ⊢
    by_cases hlive : (b.samples (played b a0)).isNone = true
    · rw [if_pos hlive]
      exact ⟨b, rfl, h⟩
    rw [if_neg hlive]
    have hlast : effect < vjExtEffect + table.nExtPlugs := by
      rcases heffect with rfl | ⟨s, -, hs, hvalid⟩
      · rw [vjExtEffect]
        omega
      · exact hs ▸ lt_of_valid hvalid
    obtain ⟨numP, hnum, -⟩ := vjEffectGetNumParams_ok hlast
    rw [hnum, ok_bind]
    refine FxBank.onChain_good h fun s hs => ⟨_, rfl, sampleSetEffectArg_good (s := ⟨s.chain, b.ready⟩) (h _ s hs) ?_⟩
    intro hid n hn hlt
    dsimp only at hn hlt hid ⊢
    have hmin : min a2 numP = n := by omega
    rw [hn]
    exact nargValue_mem (hfits (Bool.eq_true_of_not_eq_false hplaying) s c hs ha hid numP n hnum hmin hlt)

theorem vjEventChainArgInc_good (h : b.Good table limits) :
    Ensures (vjEventChainArgInc table limits b a0 a1) (FxBank.Good table limits) := by
  unfold vjEventChainArgInc
  by_cases hplaying : b.samplePlaying = false
  · rw [if_pos hplaying]
    exact ⟨b, rfl, h⟩
  rw [if_neg hplaying]
  cases ha : position (sampleGetSelectedEntry b b.sampleId) with
  | none => exact ⟨b, rfl, h⟩
  | some c =>
    dsimp only
    by_cases hvalid : vjEffectIsValid table (sampleGetEffectAny b b.sampleId c) = true
    · rw [if_pos hvalid]
      refine FxBank.onChain_good h fun s hs =>
        ⟨_, rfl, sampleSetEffectArg_good (s := ⟨s.chain, b.ready⟩) (h _ s hs) ?_⟩
      intro hid n hn hlt
      have heffect : sampleGetEffectAny b b.sampleId c = (s.chain c).effectId := by
        rw [sampleGetEffectAny, hs]
        rfl
      rw [heffect] at hvalid ⊢
      obtain ⟨hlo, hhi⟩ := ((h _ s hs c).valid hid).2 n hlt
      obtain ⟨hmin, hmax⟩ := @limits_valid table limits _ _ hvalid hlt
      rw [hn, hmin, hmax]
      show _ ≤ _ ∧ _ ≤ _
      dsimp only
      generalize sampleGetEffectArg b b.sampleId c n = val
      split_ifs
      · exact ⟨le_rfl, hlo.trans hhi⟩
      · exact ⟨hlo.trans hhi, le_rfl⟩
      · omega
    · rw [if_neg hvalid]
      exact ⟨b, rfl, h⟩

/-- One command. -/
theorem fxStep_good (h : b.Good table limits) {command : FxCommand} (hfits : Fits table limits b command) :
    Ensures (fxStep table limits b command) fun a => a.2.Good table limits := by
  have hrun : Ensures (command.run table limits b) (FxBank.Good table limits) := by
    cases command with
    | set w a0 a1 a2 => exact vjEventChainEntrySet_good h hfits
    | preset w a0 a1 a2 args => exact vjEventChainEntryPreset_good h hfits
    | setArgVal w a0 a1 a2 a3 => exact vjEventChainEntrySetArgVal_good h
    | setNargVal a0 a1 a2 value => exact vjEventChainEntrySetNargVal_good h hfits
    | argInc a0 a1 => exact vjEventChainArgInc_good h
  obtain ⟨b', hb', hgood⟩ := hrun
  exact ⟨((), b'), by rw [fxStep, hb', ok_bind], hgood⟩

theorem Good.inRange {entry : FxEntry} (h : Good table limits entry) : InRange table limits entry := by
  intro n hn j hj
  rcases h with hnone | ⟨hvalid, hrange⟩
  · rw [hnone] at hn
    obtain rfl : 0 = n := Except.ok.inj hn
    omega
  · obtain ⟨numP, hnum, hnumP⟩ := vjEffectGetNumParams_ok (lt_of_valid hvalid)
    obtain rfl : numP = n := Except.ok.inj (hnum.symm.trans hn)
    rw [hnumP hvalid] at hj
    obtain ⟨hmin, hmax⟩ := @limits_valid table limits _ _ hvalid hj
    rw [hmin, hmax]
    exact hrange j hj

/-- **Parameters stay in their ranges**, in runs of the commands that leave them there. -/
theorem params_in_range (table : FxTable) (limits : ℤ → ℕ → ℤ × ℤ) {b : FxBank} (hgood : b.Good table limits)
    {commands : List FxCommand} (hmeets : RunMeets (fxStep table limits) (Fits table limits) b commands) :
    RunShows (fxStep table limits)
      (fun _ _ _ b' => ∀ id s, b'.samples id = some s → ∀ c, InRange table limits (s.chain c)) b commands := by
  refine @runOps_shows _ _ _ _ _ (FxBank.Good table limits) _ (fun b command hb hfits => ?_) commands b hgood hmeets
  obtain ⟨⟨u, b'⟩, hstep, hb'⟩ := fxStep_good hb hfits
  exact ⟨u, b', hstep, hb', fun id s hs c => (hb' id s hs c).inRange⟩

end Commands

/-- The table with the effect "Solarize" alone. -/
def solarizeTable : FxTable where
  nExtPlugs := 0
  numParams id := if id = 107 then 1 else 0
  default _ _ := 16
  extraFrame _ := false

/-- The limits of its parameter. -/
def solarizeLimits : ℤ → ℕ → ℤ × ℤ := fun _ _ => (1, 255)

/-- A sample without effects, which is played. -/
def emptyBank : FxBank where
  samples id := if id = 1 then some ⟨emptyState.chain, ⟨0, sampleMaxEffects_pos⟩⟩ else none
  ready _ := false
  sampleSize := 2
  sampleId := 1
  samplePlaying := true

theorem emptyBank_good (table : FxTable) (limits : ℤ → ℕ → ℤ × ℤ) : emptyBank.Good table limits := by
  intro id s hs c
  change (if id = 1 then _ else _) = some s at hs
  split_ifs at hs
  obtain rfl := Option.some.inj hs
  exact .inl rfl

theorem nargValue_solarize : nargValue 1 255 100 = 256 := by
  have h1 : toSingle 1 = 1 := by exact_mod_cast toSingle_int (n := 1) (by norm_num)
  have h100 : toSingle 100 = 100 := by exact_mod_cast toSingle_int (n := 100) (by norm_num)
  have h255 : toSingle 255 = 255 := by exact_mod_cast toSingle_int (n := 255) (by norm_num)
  have h256 : toSingle 256 = 256 := by exact_mod_cast toSingle_int (n := 256) (by norm_num)
  unfold nargValue
  push_cast
  rw [h1, h100, h255, div_self (by norm_num), h1, mul_one, h255, show (1 : ℚ) + 255 = 256 by norm_num, h256,
    toInt_eq (by norm_num)]
  norm_num

theorem params_in_range_solarize :
    RunShows (fxStep solarizeTable solarizeLimits)
      (fun _ _ _ b' => ∀ id s, b'.samples id = some s → ∀ c, InRange solarizeTable solarizeLimits (s.chain c)) emptyBank
      [.set plainWorld 0 0 107, .setNargVal 0 0 0 50] := by
  refine params_in_range solarizeTable solarizeLimits (emptyBank_good _ _) ⟨?_, fun r b hb => ⟨?_, fun _ _ _ => trivial⟩⟩
  · intro _ s c _ _
    refine ⟨by decide, fun _ _ j _ => ?_⟩
    show (1 : ℤ) ≤ 16 ∧ (16 : ℤ) ≤ 255
    omega
  · obtain ⟨-, rfl⟩ := Prod.mk.inj (Except.ok.inj hb)
    intro c hc effect _ s c' hs hc' _ numP j _ _ hlt
    obtain rfl := Option.some.inj hs
    obtain rfl := Option.some.inj hc
    obtain rfl := Option.some.inj hc'
    have hj0 : j = 0 := by
      change j < 1 at hlt
      omega
    subst hj0
    exact ⟨by decide, by decide, by decide⟩

/-- All of a range that does not begin at 0 is above it. -/
theorem narg_above_limit :
    Ensures (runOps (fxStep solarizeTable solarizeLimits) emptyBank
      [.set plainWorld 0 0 107, .setNargVal 0 0 0 100]) fun a =>
        ∃ s, a.2.samples 1 = some s ∧ ¬ InRange solarizeTable solarizeLimits (s.chain ⟨0, by decide⟩) := by
  refine ⟨_, rfl, _, rfl, fun h => ?_⟩
  have hmax := (h 1 rfl 0 (by omega)).2
  change nargValue 1 255 100 ≤ 255 at hmax
  rw [nargValue_solarize] at hmax
  omega

end Veejay.Effects
