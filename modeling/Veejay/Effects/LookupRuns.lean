import Veejay.Effects.Lookups

/-!
# Which commands stay in the table of effects

An effect comes onto a chain only after it was activated, which is for ids that are valid.  So the entries of chains never
lead out of the table; what a message brings may.

* `Sound` — the entries have effects of the table, and no flag is up behind the effects of the program;
* `run_meets` — what each command looks at, and that it keeps the samples sound;
* `KeepsEffects`, `KeepsFlags` — the commands that look at no place behind the descriptions, or behind the flags;
* `lookups_iff` — **what exactly the commands of a run need to stay in the table**.
-/

namespace Veejay.Effects.Lookup

open CLib Veejay.Samples

/-! ## Sound chains -/

/-- No effect, or one of the table. -/
def Known (t : EffectTable) (entry : FxEntry) : Prop :=
  entry.effectId = -1 ∨ vjEffectIsValid t.fx entry.effectId = true

/-- The samples have effects of the table in their entries. -/
structure Sound (t : EffectTable) (b : FxBank) : Prop where
  known : ∀ id s, b.samples id = some s → ∀ c, Known t (s.chain c)
  flags : FlagsDown b.ready

section Chain

variable {t : EffectTable} {Q : Access → Prop} {s : FxState} {c : Fin sampleMaxEffects} {id a : ℤ} {kf : Option ℕ}
  {mixIn : FxEntry → FxEntry} {w : World}

theorem activateNew_flagsDown (hdown : FlagsDown s.ready) :
    FlagsDown (Effects.activateNew t.fx w kf mixIn s c id).2.ready := by
  have hflags := @vjEffectActivate_flagsDown id s.ready t.fx w hdown
  rw [Effects.activateNew]
  split_ifs
  · exact hdown
  · rcases hres : Effects.vjEffectActivate t.fx w s.ready id with ⟨res, fxInstance, ready⟩
    rw [hres] at hflags
    cases res with
    | false => exact hflags
    | true => exact hflags

/-- A new effect leaves the chain with effects of the table, whatever its id is. -/
theorem addEffect_known (hmix : ∀ entry, (mixIn entry).effectId = entry.effectId) (hdown : FlagsDown s.ready)
    (h : ∀ j, Known t (s.chain j)) :
    (∀ j, Known t ((Effects.addEffect t.fx w kf mixIn s a id).2.chain j)) ∧
      FlagsDown (Effects.addEffect t.fx w kf mixIn s a id).2.ready := by
  rw [Effects.addEffect]
  cases position a with
  | none => exact ⟨h, hdown⟩
  | some c =>
    have hdown' := discardOld_flagsDown (c := c) t.fx id hdown
    have hchain : ∀ j, Known t ((Effects.discardOld t.fx s c id).chain j) := by
      intro j
      by_cases hj : j = c
      · unfold Known
        rw [hj, (discardOld_chain t.fx s c id).1]
        exact h c
      · rw [discardOld_other t.fx s id hj]
        exact h j
    have hother := fun j (hj : j ≠ c) =>
      activateNew_chain_other t.fx w kf mixIn (Effects.discardOld t.fx s c id) id hj
    dsimp only
    generalize Effects.discardOld t.fx s c id = s' at hdown' hchain hother ⊢
    have hat : Known t ((Effects.activateNew t.fx w kf mixIn s' c id).2.chain c) := by
      rcases activateNew_cases t.fx w kf mixIn s' c id with ⟨fxInstance, hon, -, hentry⟩ | ⟨-, -, hnone⟩
      · refine .inr ?_
        rw [hentry, usedEntry_effectId t.fx kf hmix]
        rcases hon with hon | hon
        · exact valid_of_initialized hon
        · exact valid_of_activated hdown' hon
      · exact .inl hnone
    refine ⟨fun j => ?_, activateNew_flagsDown hdown'⟩
    by_cases hj : j = c
    · rw [hj]
      exact hat
    · rw [hother j hj]
      exact hchain j

theorem chainAdd_known (kind : Kind) (sampleId : ℤ) (hdown : FlagsDown s.ready) (h : ∀ j, Known t (s.chain j)) :
    (∀ j, Known t ((Effects.chainAdd t.fx w kind sampleId s a id).2.chain j)) ∧
      FlagsDown (Effects.chainAdd t.fx w kind sampleId s a id).2.ready := by
  cases kind with
  | sample =>
    refine addEffect_known ?_ hdown h
    exact fun entry => rfl
  | stream =>
    refine addEffect_known ?_ hdown h
    exact fun entry => rfl

end Chain

/-! ## Commands -/

section Commands

variable {t : EffectTable} {Q : Access → Prop} {b : FxBank} {kind : Kind} {w : World} {a0 a1 a2 a3 : ℤ}

theorem setEffectArg_sound (hb : Sound t b) (id : ℤ) (c : Fin sampleMaxEffects) (argnr value : ℤ) :
    Sound t (setEffectArg b id c argnr value).2 := by
  rw [setEffectArg]
  cases hs : b.samples id with
  | none => exact hb
  | some s =>
    dsimp only
    split_ifs
    · exact hb
    · refine ⟨fun id' s' hs' j => ?_, hb.flags⟩
      change Function.update b.samples id _ id' = some s' at hs'
      rcases eq_or_ne id' id with rfl | hne
      · rw [Function.update_self] at hs'
        obtain rfl := Option.some.inj hs'
        show Known t (Function.update s.chain c _ j)
        by_cases hj : j = c
        · rw [hj, Function.update_self]
          exact hb.known _ s hs c
        · rw [Function.update_of_ne hj]
          exact hb.known _ s hs j
      · rw [Function.update_of_ne hne] at hs'
        exact hb.known id' s' hs' j

/-- The id of an entry leads to no place behind the table. -/
theorem getEffectAny_within (hb : Sound t b) (kind : Kind) (id : ℤ) (c : Fin sampleMaxEffects) :
    Within t (getEffectAny kind b id c) := by
  have hnone : ∀ i : ℤ, i ≤ 0 → Within t i := fun i hi => within_of_lt (by rw [vjExtEffect]; omega)
  unfold getEffectAny
  cases hs : b.samples id with
  | none =>
    cases kind with
    | sample => exact hnone (-1) (by decide)
    | stream => exact hnone 0 (by decide)
  | some s =>
    rcases hb.known id s hs c with h | h
    · exact hnone _ (by dsimp only; omega)
    · exact (has_of_valid h).2

/-- An effect that comes onto a chain of the bank. -/
theorem onChain_meets (hQ : Allows t Q) (hb : Sound t b) (id a : ℤ)
    (hlast : (b.samples id).isSome = true → a2 = vjExtEffect + t.nExtPlugs → Q (.ready (maxEffects + t.nExtPlugs))) :
    (onChain b id fun s => chainAdd t w kind id s a a2).Meets Q fun r => Sound t r.2 := by
  rw [onChain]
  cases hs : b.samples id with
  | none => exact .pure hb
  | some s =>
    have hknown := hb.known id s hs
    refine (chainAdd_meets (s := ⟨s.chain, b.ready⟩) hQ w kind id a hb.flags (hlast (hs ▸ rfl))).bind fun r hr => .pure ?_
    obtain ⟨hchain, hflags⟩ := @chainAdd_known t ⟨s.chain, b.ready⟩ a2 a w kind id hb.flags hknown
    rw [hr]
    refine ⟨fun id' s' hs' j => ?_, hflags⟩
    change Function.update b.samples id _ id' = some s' at hs'
    rcases eq_or_ne id' id with rfl | hne
    · rw [Function.update_self] at hs'
      obtain rfl := Option.some.inj hs'
      exact hchain j
    · rw [Function.update_of_ne hne] at hs'
      exact hb.known id' s' hs' j

/-- The entry is one of the chain, and the sample is there. -/
def Names (b : FxBank) (id a1 : ℤ) : Prop := (position (entryNo b a1)).isSome = true ∧ (b.samples id).isSome = true

theorem vjEventChainEntrySet_meets (hQ : Allows t Q) (hb : Sound t b)
    (hlast : Names b (playedOrLast b a0) a1 → a2 = vjExtEffect + t.nExtPlugs → Q (.ready (maxEffects + t.nExtPlugs))) :
    (vjEventChainEntrySet t w kind b a0 a1 a2).Meets Q (Sound t) := by
  rw [vjEventChainEntrySet]
  cases ha : position (entryNo b a1) with
  | none => exact .pure hb
  | some c =>
    refine (onChain_meets hQ hb (playedOrLast b a0) (entryNo b a1) fun hs => hlast ⟨by rw [ha]; rfl, hs⟩).bind
      fun r hr => .pure hr

theorem setParams_meets (hQ : Allows t Q) {realId : ℤ} (hid : Within t realId) (id : ℤ) (c : Fin sampleMaxEffects)
    (args : ℕ → ℤ) : ∀ (is : List ℕ) (b : FxBank), Sound t b →
      (setParams t kind id c realId args is b).Meets Q (Sound t) := by
  intro is
  induction is with
  | nil => exact fun b hb => .pure hb
  | cons i is ih =>
    intro b hb
    have hset := setEffectArg_sound hb id c i (args i)
    unfold setParams
    refine (vjEffectValidValue_within hQ hid i (args i)).bind fun ok _ => ?_
    dsimp only
    split_ifs
    · exact (vjEffectGetDescription_meets hQ hid).bind fun _ _ => ih _ hset
    · exact ih _ hset
    · cases kind with
      | sample => exact ih b hb
      | stream =>
        refine (ofParameter_within hQ hid i _).bind fun _ _ => ?_
        exact (ofParameter_within hQ hid i _).bind fun _ _ => ih b hb

theorem vjEventChainEntryPreset_meets (hQ : Allows t Q) (hb : Sound t b) (args : ℕ → ℤ)
    (hid : Names b (askedFor kind b a0) a1 → a2 < vjExtEffect + t.nExtPlugs) :
    (vjEventChainEntryPreset t w kind b a0 a1 a2 args).Meets Q (Sound t) := by
  rw [vjEventChainEntryPreset]
  cases ha : position (entryNo b a1) with
  | none => exact .pure hb
  | some c =>
    dsimp only
    split_ifs with hasked
    · have hlt := hid ⟨by rw [ha]; rfl, hasked⟩
      have hwithin := within_of_lt hlt
      refine (vjEffectGetNumParams_within hQ hwithin).bind fun numP _ => ?_
      refine (onChain_meets hQ hb (played b a0) (entryNo b a1) fun _ heq => absurd heq hlt.ne).bind fun r hr => ?_
      split_ifs
      · exact .pure hr
      · exact setParams_meets hQ hwithin (played b a0) c args _ r.2 hr
    · exact .pure hb

theorem vjEventChainEntrySetArgVal_meets (hQ : Allows t Q) (hb : Sound t b) :
    (vjEventChainEntrySetArgVal t kind b a0 a1 a2 a3).Meets Q (Sound t) := by
  unfold vjEventChainEntrySetArgVal
  cases position (entryNo b a1) with
  | none => exact .pure hb
  | some c =>
    dsimp only
    split_ifs
    · refine (vjEffectValidValue_within hQ (getEffectAny_within hb kind _ c) a2 a3).bind fun ok _ => .pure ?_
      split_ifs
      · exact setEffectArg_sound hb _ c a2 a3
      · exact hb
    · exact .pure hb

theorem vjEventChainEntrySetNargVal_meets (hQ : Allows t Q) (hb : Sound t b) :
    (vjEventChainEntrySetNargVal t kind b a0 a1 a2 a3).Meets Q (Sound t) := by
  rw [vjEventChainEntrySetNargVal]
  cases position (entryNo b a1) with
  | none => exact .pure hb
  | some c =>
    have hwithin := getEffectAny_within hb kind b.sampleId c
    dsimp only
    split_ifs
    · refine (vjEffectGetNumParams_within hQ hwithin).bind fun numP _ => ?_
      refine (ofParameter_within hQ hwithin _ _).bind fun min _ => ?_
      refine (ofParameter_within hQ hwithin _ _).bind fun max _ => ?_
      have hset := fun argnr => setEffectArg_sound hb (played b a0) c argnr (nargValue min max a3)
      generalize (if a2 > (numP : ℤ) then (numP : ℤ) else a2) = argnr
      split_ifs
      · exact (vjEffectGetDescription_meets hQ hwithin).bind fun _ _ => .pure (hset argnr)
      · exact .pure (hset argnr)
    · exact .pure hb

theorem vjEventChainArgInc_meets (hQ : Allows t Q) (hb : Sound t b) :
    (vjEventChainArgInc t kind b a0 a1).Meets Q (Sound t) := by
  rw [vjEventChainArgInc]
  cases position (sampleGetSelectedEntry b b.sampleId) with
  | none => exact .pure hb
  | some c =>
    have hwithin := getEffectAny_within hb kind b.sampleId c
    have hset := setEffectArg_sound hb b.sampleId c a0
    dsimp only
    split_ifs
    · refine (ofParameter_within hQ hwithin _ _).bind fun max _ => ?_
      refine (ofParameter_within hQ hwithin _ _).bind fun min _ => ?_
      split_ifs
      · exact .pure (hset min)
      · exact (ofParameter_within hQ hwithin _ _).bind fun max _ => .pure (hset max)
      · exact .pure (hset _)
    · exact .pure hb

/-- A preset looks at no place behind the descriptions. -/
def KeepsEffects (t : EffectTable) (kind : Kind) (b : FxBank) : LookupCommand → Prop
  | .preset _ a0 a1 a2 _ => Names b (askedFor kind b a0) a1 → a2 < vjExtEffect + t.nExtPlugs
  | _ => True

/-- Activation looks at no place behind the flags. -/
def KeepsFlags (t : EffectTable) (b : FxBank) : LookupCommand → Prop
  | .set _ a0 a1 a2 => Names b (playedOrLast b a0) a1 → a2 ≠ vjExtEffect + t.nExtPlugs
  | _ => True

/-- **What a command looks at**, and that it keeps the samples sound. -/
theorem run_meets (hQ : Allows t Q) (hb : Sound t b) {command : LookupCommand} (heffects : KeepsEffects t kind b command)
    (hflags : KeepsFlags t b command ∨ Q (.ready (maxEffects + t.nExtPlugs))) :
    (command.run t kind b).Meets Q (Sound t) := by
  cases command with
  | set w a0 a1 a2 =>
    refine vjEventChainEntrySet_meets hQ hb fun hnames heq => ?_
    rcases hflags with h | h
    · exact absurd heq (h hnames)
    · exact h
  | preset w a0 a1 a2 args => exact vjEventChainEntryPreset_meets hQ hb args heffects
  | setArgVal a0 a1 a2 a3 => exact vjEventChainEntrySetArgVal_meets hQ hb
  | setNargVal a0 a1 a2 value => exact vjEventChainEntrySetNargVal_meets hQ hb
  | argInc a0 a1 => exact vjEventChainArgInc_meets hQ hb

/-! ### Places behind the table -/

/-- A preset asks for the number of parameters of any effect. -/
theorem preset_looks {args : ℕ → ℤ} (hnames : Names b (askedFor kind b a0) a1) (hid : vjExtEffect + t.nExtPlugs ≤ a2) :
    .effect (vjEffectRealToSequence a2) ∈ ((LookupCommand.preset w a0 a1 a2 args).run t kind b).trace ∧
      ¬ t.Has (vjEffectRealToSequence a2) := by
  obtain ⟨c, hc⟩ := Option.isSome_iff_exists.mp hnames.1
  have hext : vjExtEffect ≤ a2 := by omega
  have hseq : vjEffectRealToSequence a2 = a2 - vjExtEffect + maxEffects := if_pos hext
  have hneg : ¬ a2 < 0 := by
    rw [vjExtEffect] at hext
    omega
  have hpos : 0 < vjEffectRealToSequence a2 := by
    rw [hseq, maxEffects]
    omega
  refine ⟨?_, fun hhas => ?_⟩
  · show _ ∈ (vjEventChainEntryPreset t w kind b a0 a1 a2 args).trace
    rw [vjEventChainEntryPreset, hc]
    dsimp only
    rw [if_pos hnames.2]
    refine Traced.mem_trace_bind ?_ _
    rw [vjEffectGetNumParams, if_neg hneg, aboveZero, if_pos hpos]
    exact Traced.mem_trace_bind List.mem_cons_self _
  · have hlt := hhas.2
    rw [hseq] at hlt
    omega

theorem vjEffectReady_returns {seq : ℤ} (ready : Ready) (h : t.Has seq) : (vjEffectReady ready seq).Returns :=
  ⟨ready seq, if_pos h.limit⟩

theorem vjEffects_returns {seq : ℤ} (h : t.Has seq) : (vjEffects t seq).Returns := ⟨t.effects seq.toNat, if_pos h⟩

theorem vjEffectInitialized_returns (ready : Ready) (id : ℤ) (fxInstance : Option ℕ) :
    (vjEffectInitialized t ready id fxInstance).Returns := by
  rw [vjEffectInitialized]
  split_ifs with hneg hplugin hlt hmem
  · exact Traced.returns_pure _
  · exact Traced.returns_pure _
  · exact Traced.returns_pure _
  · exact vjEffectReady_returns (t := t) ready ⟨by omega, by omega⟩
  · exact Traced.returns_pure _

theorem vjEffectDeactivate_returns (ready : Ready) {id : ℤ} (hneg : 0 ≤ vjEffectRealToSequence id) :
    (vjEffectDeactivate t ready id).Returns := by
  rw [vjEffectDeactivate]
  by_cases hplugin : isPluginSeq t.fx (vjEffectRealToSequence id) = true
  · rw [if_pos hplugin]
    exact Traced.returns_pure _
  rw [if_neg hplugin]
  by_cases hlt : vjEffectRealToSequence id < maxEffects
  · have hhas : t.Has (vjEffectRealToSequence id) := ⟨hneg, by omega⟩
    rw [if_pos hlt]
    refine (vjEffectReady_returns ready hhas).bind fun up _ => ?_
    split_ifs
    · exact Traced.returns_pure _
    · exact (vjEffects_returns hhas).bind fun _ _ => Traced.returns_pure _
    · exact Traced.returns_pure _
    · exact Traced.returns_pure _
  · rw [if_neg hlt]
    exact Traced.returns_pure _

theorem discardOld_returns (s : FxState) (c : Fin sampleMaxEffects) (effectNr : ℤ) :
    (discardOld t s c effectNr).Returns := by
  have hall : Allows t fun _ => True := ⟨fun _ _ => trivial, fun _ _ => trivial⟩
  rw [discardOld]
  by_cases hold : (s.chain c).effectId ≠ -1 ∧ (s.chain c).effectId ≠ effectNr
  · rw [if_pos hold]
    refine (vjEffectInitialized_returns s.ready _ _).bind fun on hon => ?_
    have hval := (vjEffectInitialized_meets hall (s.chain c).fxInstance).result on hon
    by_cases hup : on = true
    · have hneg := seq_of_initialized (hval.symm.trans hup)
      rw [if_pos hup]
      split_ifs
      · exact Traced.returns_pure _
      · exact (vjEffectDeactivate_returns s.ready hneg).bind fun _ _ => Traced.returns_pure _
    · rw [if_neg hup]
      exact Traced.returns_pure _
  · rw [if_neg hold]
    exact Traced.returns_pure _

/-- Activation looks at the flag behind the last effect. -/
theorem set_looks (hnames : Names b (playedOrLast b a0) a1) (hid : a2 = vjExtEffect + t.nExtPlugs) :
    .ready (maxEffects + t.nExtPlugs) ∈ ((LookupCommand.set w a0 a1 a2).run t kind b).trace := by
  obtain ⟨c, hc⟩ := Option.isSome_iff_exists.mp hnames.1
  obtain ⟨smp, hsmp⟩ := Option.isSome_iff_exists.mp hnames.2
  have hseq : vjEffectRealToSequence a2 = maxEffects + t.nExtPlugs := by
    rw [vjEffectRealToSequence, if_pos (by omega)]
    omega
  have hplugin : ¬ isPluginSeq t.fx (vjEffectRealToSequence a2) = true := by
    intro hp
    have hlt := (of_decide_eq_true hp).2
    rw [hseq] at hlt
    exact absurd hlt (lt_irrefl _)
  have hmem : ¬ noMemRequired a2 = true := by
    rw [noMemRequired, if_pos (by omega)]
    exact Bool.false_ne_true
  have hneg : ¬ vjEffectRealToSequence a2 < 0 := by
    rw [hseq, maxEffects]
    omega
  have hinit : ∀ ready fxInstance, vjEffectInitialized t ready a2 fxInstance = pure false := by
    intro ready fxInstance
    rw [vjEffectInitialized, if_neg hneg, if_neg hplugin, if_neg (by omega)]
  have hactivate : ∀ ready, .ready (maxEffects + t.nExtPlugs) ∈ (vjEffectActivate t w ready a2).trace := by
    intro ready
    rw [vjEffectActivate, if_neg (by rw [hseq, maxEffects]; omega), if_neg hplugin, if_neg hmem, hseq]
    exact Traced.mem_trace_bind List.mem_cons_self _
  have hnew : ∀ kf mixIn s, .ready (maxEffects + t.nExtPlugs) ∈ (activateNew t w kind kf mixIn s c a2).trace := by
    intro kf mixIn s
    rw [activateNew, hinit]
    exact Traced.mem_trace_bind (hactivate s.ready) _
  have hadd : ∀ kf mixIn s, .ready (maxEffects + t.nExtPlugs) ∈ (addEffect t w kind kf mixIn s (entryNo b a1) a2).trace := by
    intro kf mixIn s
    rw [addEffect, hc]
    exact (discardOld_returns s c a2).mem_trace_bind fun s' _ => hnew kf mixIn s'
  show _ ∈ (vjEventChainEntrySet t w kind b a0 a1 a2).trace
  rw [vjEventChainEntrySet, hc]
  refine Traced.mem_trace_bind ?_ _
  rw [onChain, hsmp]
  refine Traced.mem_trace_bind ?_ _
  cases kind with
  | sample => exact hadd _ _ _
  | stream => exact hadd _ _ _

/-! ## Runs -/

/-- The place is one of the table, if it is one of the descriptions. -/
def InEffects (t : EffectTable) : Access → Prop
  | .effect seq => t.Has seq
  | .ready _ => True

/-- The place is one of the table, be it of the descriptions or of the flags. -/
def InTables (t : EffectTable) : Access → Prop
  | .effect seq => t.Has seq
  | .ready seq => t.Has seq

theorem allows_inEffects : Allows t (InEffects t) := ⟨fun _ h => h, fun _ _ => trivial⟩

theorem allows_inTables : Allows t (InTables t) := ⟨fun _ h => h, fun _ h => h⟩

/-- **One command and the descriptions.** -/
theorem run_inEffects_iff (hb : Sound t b) (command : LookupCommand) :
    (∀ place ∈ (command.run t kind b).trace, InEffects t place) ↔ KeepsEffects t kind b command := by
  constructor
  · intro h
    cases command with
    | preset w a0 a1 a2 args =>
      intro hnames
      by_contra hid
      obtain ⟨hmem, hnot⟩ := @preset_looks t b kind w a0 a1 a2 args hnames (not_lt.mp hid)
      exact hnot (h _ hmem)
    | set w a0 a1 a2 => trivial
    | setArgVal a0 a1 a2 a3 => trivial
    | setNargVal a0 a1 a2 value => trivial
    | argInc a0 a1 => trivial
  · exact fun h => (run_meets allows_inEffects hb h (.inr trivial)).trace

/-- **One command, the descriptions and the flags.** -/
theorem run_inTables_iff (hb : Sound t b) (command : LookupCommand) :
    (∀ place ∈ (command.run t kind b).trace, InTables t place) ↔
      KeepsEffects t kind b command ∧ KeepsFlags t b command := by
  constructor
  · intro h
    refine ⟨(run_inEffects_iff hb command).mp fun place hplace => ?_, ?_⟩
    · cases place with
      | effect seq => exact h _ hplace
      | ready seq => trivial
    · cases command with
      | set w a0 a1 a2 =>
        intro hnames heq
        exact absurd (h _ (set_looks hnames heq)).2 (lt_irrefl _)
      | preset w a0 a1 a2 args => trivial
      | setArgVal a0 a1 a2 a3 => trivial
      | setNargVal a0 a1 a2 value => trivial
      | argInc a0 a1 => trivial
  · exact fun h => (run_meets allows_inTables hb h.1 (.inl h.2)).trace

end Commands

section Runs

variable {t : EffectTable} {Q : Access → Prop}

theorem Banks.set_sound {bs : Banks} (h : ∀ kind, Sound t (bs.bank kind)) (kind : Kind) {b : FxBank} (hb : Sound t b)
    (k : Kind) : Sound t ((bs.set kind b).bank k) := by
  show Sound t (if k = kind then b else { bs.bank k with ready := b.ready })
  split_ifs
  · exact hb
  · exact ⟨(h k).known, hb.flags⟩

theorem lookupStep_trace_iff (bs : Banks) (command : Kind × LookupCommand) :
    (∀ place ∈ (lookupStep t bs command).trace, Q place) ↔
      ∀ place ∈ (command.2.run t command.1 (bs.bank command.1)).trace, Q place := by
  constructor
  · exact fun h place hplace => h place (Traced.mem_trace_bind hplace _)
  · intro h
    have hmeets : (lookupStep t bs command).Meets Q fun _ => True :=
      Traced.Meets.bind (P := fun _ => True) ⟨h, fun _ _ => trivial⟩ fun _ _ => .pure trivial
    exact hmeets.trace

theorem lookupStep_sound {bs bs' : Banks} {command : Kind × LookupCommand} (h : ∀ kind, Sound t (bs.bank kind))
    (hkeeps : KeepsEffects t command.1 (bs.bank command.1) command.2) (hrun : (lookupStep t bs command).result = .ok bs')
    (kind : Kind) : Sound t (bs'.bank kind) := by
  have hmeets : (lookupStep t bs command).Meets (InEffects t) fun bs' => ∀ kind, Sound t (bs'.bank kind) :=
    (run_meets allows_inEffects (h command.1) hkeeps (.inr trivial)).bind fun b hb =>
      .pure (Banks.set_sound h command.1 hb)
  exact hmeets.result bs' hrun kind

/-- **What exactly the commands of a run need to stay in the table**: no preset brings an id behind the last plugin to an
entry of a sample or a stream; and, for the flags beside the descriptions, no effect is set to the first of these ids. -/
theorem lookups_iff (t : EffectTable) (bs : Banks) (hsound : ∀ kind, Sound t (bs.bank kind))
    (commands : List (Kind × LookupCommand)) :
    ((∀ place ∈ (Traced.runTraced (lookupStep t) bs commands).trace, InEffects t place) ↔
      RunMeets (Traced.stepResult (lookupStep t))
        (fun bs command => KeepsEffects t command.1 (bs.bank command.1) command.2) bs commands) ∧
    ((∀ place ∈ (Traced.runTraced (lookupStep t) bs commands).trace, InTables t place) ↔
      RunMeets (Traced.stepResult (lookupStep t))
        (fun bs command => KeepsEffects t command.1 (bs.bank command.1) command.2 ∧
          KeepsFlags t (bs.bank command.1) command.2) bs commands) := by
  constructor
  · refine Traced.runTraced_iff (fun bs command (hs : ∀ kind, Sound t (bs.bank kind)) => ?_)
      (fun bs command bs' hs hok hrun => lookupStep_sound hs hok hrun) commands bs hsound
    rw [lookupStep_trace_iff]
    exact run_inEffects_iff (hs command.1) command.2
  · refine Traced.runTraced_iff (fun bs command (hs : ∀ kind, Sound t (bs.bank kind)) => ?_)
      (fun bs command bs' hs hok hrun => lookupStep_sound hs hok.1 hrun) commands bs hsound
    rw [lookupStep_trace_iff]
    exact run_inTables_iff (hs command.1) command.2

end Runs

theorem fits_without_plugins : maxEffects + ((0 : ℕ) : ℤ) ≤ fxLimit := by decide

/-- The table without plugins; each effect has one parameter. -/
def ownEffects : EffectTable where
  effects _ := { description := lit "fx", numParams := 1, defaults := fun _ => 0, limits := fun _ => (0, 255), extraFrame := false }
  nExtPlugs := 0
  fits := fits_without_plugins

/-- A sample and a stream without effects. -/
def emptyBanks : Banks := ⟨fun _ => emptyBank, rfl⟩

theorem emptyBanks_sound (kind : Kind) : Sound ownEffects (emptyBanks.bank kind) where
  known := by
    intro id s hs c
    change (if id = 1 then _ else _) = some s at hs
    split_ifs at hs
    obtain rfl := Option.some.inj hs
    exact .inl rfl
  flags := fun _ _ => rfl

theorem lookups_of_negation :
    (Traced.runTraced (lookupStep ownEffects) emptyBanks
      [(.sample, .preset plainWorld 0 0 106 fun _ => 1), (.stream, .setArgVal 0 0 9 5)]).trace.Forall
        (InTables ownEffects) := by
  rw [List.forall_iff_forall_mem]
  refine (lookups_iff ownEffects emptyBanks emptyBanks_sound _).2.mpr ⟨⟨fun _ => ?_, trivial⟩, fun _ bs _ => ?_⟩
  · show (106 : ℤ) < vjExtEffect + (0 : ℕ)
    decide
  · exact ⟨⟨trivial, trivial⟩, fun _ _ _ => trivial⟩

/-- Of an id that no plugin has, the number of parameters is asked for behind the table. -/
theorem preset_behind_table :
    (∀ kind, Sound ownEffects (emptyBanks.bank kind)) ∧ .effect 140 ∈ (Traced.runTraced (lookupStep ownEffects) emptyBanks
        [(.sample, .preset plainWorld 0 0 500 fun _ => 1)]).trace ∧
      ¬ InEffects ownEffects (.effect 140) := by
  have hnames : Names emptyBank (askedFor .sample emptyBank 0) 0 := ⟨rfl, rfl⟩
  obtain ⟨hmem, hnot⟩ := @preset_looks ownEffects emptyBank .sample plainWorld 0 0 500 (fun _ => 1) hnames (by decide)
  exact ⟨emptyBanks_sound, Traced.mem_trace_bind (Traced.mem_trace_bind hmem _) _, hnot⟩

end Veejay.Effects.Lookup
