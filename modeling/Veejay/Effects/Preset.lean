import Veejay.Effects.Activation
import Veejay.Vims.Dispatch

/-!
# The preset of a chain entry

`VIMS_CHAIN_ENTRY_SET_PRESET` puts an effect on an entry of the chain and sets its parameters: `361:0 3 101 5 7;`.
The numbers behind the effect are the string of the event, which the handler takes apart with `strtol` up to the first
number that is 0.

* `strtolArgs`, `setArgs`, `chainEntryPreset` — the handler;
* `presetEvents` — the interpreter of messages with this event; a fault of the handler is part of its state;
* `chainEntryPreset_other` — the handler leaves the other entries alone;
* `chainEntryPreset_cleared` — **the entry after a preset**, where it had no effect;
* `parse_presetMessage`, `parse_preset_other` — the same of the messages.
-/

namespace Veejay.Effects

open CLib Veejay.Samples Veejay.Vims

/-! ## The handler -/

/-- What the handler finds: the effects with the limits of their parameters, what activations meet, the sample that is
played and its selected entry. -/
structure Player where
  table : FxTable
  /-- `limits[0]` and `limits[1]` -/
  limits : ℤ → ℕ → ℤ × ℤ
  world : World
  sampleId : ℤ
  selectedEntry : ℤ

/-- `vj_effect_get_num_params`; there is no description behind the last plugin. -/
def vjEffectGetNumParams (table : FxTable) (id : ℤ) : Exec ℕ :=
  if id < 0 ∨ vjEffectRealToSequence id ≤ 0 then .ok 0
  else if vjEffectIsValid table id then .ok (table.numParams id)
  else .error .nullPointer

/-- `vj_effect_valid_value` -/
def vjEffectValidValue (p : Player) (id : ℤ) (j : ℕ) (value : ℤ) : Bool :=
  decide (0 ≤ vjEffectRealToSequence id ∧ j < p.table.numParams id ∧
    (p.limits id j).1 ≤ value ∧ value ≤ (p.limits id j).2)

/-- The numbers that the loop around `strtol` stores: it ends where a number is 0 or there is none. -/
def strtolArgs : ℕ → CStr → List ℤ
  | 0, _ => []
  | fuel + 1, t =>
    match scanInt t with
    | .val v rest => if longValue v = 0 then [] else intValue v :: strtolArgs fuel rest
    | _ => []

/-- `sample_set_effect_arg` -/
def FxState.setArg (s : FxState) (c : Fin sampleMaxEffects) (j : ℕ) (value : ℤ) : FxState :=
  s.setEntry c { s.chain c with arg := Function.update (s.chain c).arg j value }

/-- The loop that sets the parameters; `args` are the numbers from `args[3]` on. -/
def setArgs (p : Player) (realId : ℤ) (args : List ℤ) (c : Fin sampleMaxEffects) : List ℕ → FxState → Exec FxState
  | [], s => .ok s
  | i :: is, s =>
    -- `int args[SAMPLE_MAX_PARAMETERS]`
    if sampleMaxParameters ≤ i + 3 then .error .outOfBounds
    else
      setArgs p realId args c is
        (if vjEffectValidValue p realId i ((args[i]?).getD 0) then s.setArg c i ((args[i]?).getD 0) else s)

/-- The handler, behind the scanning of its numbers: `args[0]` to `args[2]` and those that follow.  The state is that of
the sample that is played. -/
def presetEntry (p : Player) (a₀ a₁ a₂ : ℤ) (args : List ℤ) (s : FxState) : Exec FxState :=
  match position a₁ with
  | none => .ok s
  | some c =>
    if a₀ = 0 ∨ a₀ = p.sampleId then do
      let numP ← vjEffectGetNumParams p.table a₂
      let r := sampleChainAdd p.table p.world s a₁ a₂
      if r.1 = 0 then .ok r.2 else setArgs p a₂ args c (List.range numP) r.2
    else .ok s

/-- `vj_event_chain_entry_preset`, while a sample is played.  Without the string, the pointer to it is not set. -/
def chainEntryPreset (p : Player) (str : Option CStr) (args : List (Option ℤ)) (s : FxState) : Exec FxState :=
  match str, args with
  | some t, some a₀ :: some a₁ :: some a₂ :: _ =>
    -- `char str[1024]`
    if 1024 ≤ t.length then .error .overrun
    else if sampleMaxParameters < 3 + (strtolArgs t.length t).length then .error .overrun
    else presetEntry p a₀ (if a₁ = -1 then p.selectedEntry else a₁) a₂ (strtolArgs t.length t) s
  | _, _ => .error .uninitialised

/-- The event in `index_map_`. -/
def presetIndex : IndexMap := fun id =>
  if id = vimsChainEntrySetPreset then
    -- `VIMS_LONG_PARAMS`
    some (newEvent (lit "%d %d %d %s") 4 8 [.int 0, .int (-1), .int 0, .str none])
  else none

/-- The interpreter with this event. -/
def presetEvents (p : Player) : Events (Exec FxState) :=
  indexEvents presetIndex
    { bundleGet := fun _ _ => none
      textAt := fun _ _ => none
      numArgs := fun _ => 0
      format := fun _ => []
      defaultValue := fun _ _ => 0
      allowAny := fun _ => false
      longParams := fun _ => false
      requireAll := fun _ => false
      fire := fun id str args s => if id = vimsChainEntrySetPreset then s >>= chainEntryPreset p str args else s
      parseKf := fun _ s => s
      storeMacro := fun _ _ s => s }

/-! ## Other entries -/

section Other

variable {p : Player} {c j : Fin sampleMaxEffects}

theorem discardOld_other (table : FxTable) (s : FxState) (effectNr : ℤ) (h : j ≠ c) :
    (discardOld table s c effectNr).chain j = s.chain j := by
  rw [discardOld]
  split_ifs
  · rfl
  · exact Function.update_of_ne h _ _
  · rfl
  · rfl

theorem activateNew_chain_other (table : FxTable) (w : World) (kf : Option ℕ) (mixIn : FxEntry → FxEntry) (s : FxState)
    (effectNr : ℤ) (h : j ≠ c) : (activateNew table w kf mixIn s c effectNr).2.chain j = s.chain j := by
  rw [activateNew]
  split_ifs
  · exact Function.update_of_ne h _ _
  · rcases vjEffectActivate table w s.ready effectNr with ⟨res, fxInstance, ready⟩
    cases res with
    | false => exact Function.update_of_ne h _ _
    | true => exact Function.update_of_ne h _ _

/-- An effect that comes onto an entry leaves the other entries alone. -/
theorem sampleChainAdd_other (table : FxTable) (w : World) (s : FxState) {a : ℤ} (ha : position a = some c)
    (effectNr : ℤ) (h : j ≠ c) : (sampleChainAdd table w s a effectNr).2.chain j = s.chain j := by
  rw [sampleChainAdd, addEffect, ha]
  exact (activateNew_chain_other table w none _ _ effectNr h).trans (discardOld_other table s effectNr h)

theorem setArg_other (s : FxState) (i : ℕ) (value : ℤ) (h : j ≠ c) : (s.setArg c i value).chain j = s.chain j :=
  Function.update_of_ne h _ _

theorem setArgs_other {realId : ℤ} {args : List ℤ} {is : List ℕ} {s s' : FxState}
    (hset : setArgs p realId args c is s = .ok s') (h : j ≠ c) : s'.chain j = s.chain j := by
  induction is generalizing s with
  | nil =>
    obtain rfl := Except.ok.inj hset
    rfl
  | cons i is ih =>
    rw [setArgs] at hset
    split_ifs at hset
    · exact (ih hset).trans (setArg_other s i _ h)
    · exact ih hset

/-- **The handler leaves the other entries alone.** -/
theorem presetEntry_other {a₀ a₁ a₂ : ℤ} {args : List ℤ} {s s' : FxState}
    (hset : presetEntry p a₀ a₁ a₂ args s = .ok s') (h : position a₁ ≠ some j) : s'.chain j = s.chain j := by
  rw [presetEntry] at hset
  cases hc : position a₁ with
  | none =>
    rw [hc] at hset
    obtain rfl := Except.ok.inj hset
    rfl
  | some c =>
    have hne : j ≠ c := fun hj => h (hj ▸ hc)
    rw [hc] at hset
    dsimp only at hset
    by_cases ha : a₀ = 0 ∨ a₀ = p.sampleId
    · rw [if_pos ha] at hset
      obtain ⟨numP, -, hset⟩ := bind_eq_ok.mp hset
      have hadd := sampleChainAdd_other p.table p.world s hc a₂ hne
      by_cases hres : (sampleChainAdd p.table p.world s a₁ a₂).1 = 0
      · rw [if_pos hres] at hset
        obtain rfl := Except.ok.inj hset
        exact hadd
      · rw [if_neg hres] at hset
        exact (setArgs_other hset hne).trans hadd
    · rw [if_neg ha] at hset
      obtain rfl := Except.ok.inj hset
      rfl

theorem chainEntryPreset_other {str : Option CStr} {args : List (Option ℤ)} {i : ℤ} {s s' : FxState}
    (hset : chainEntryPreset p str args s = .ok s') (hi : args[1]? = some (some i)) (hi0 : 0 ≤ i)
    (h : position i ≠ some j) : s'.chain j = s.chain j := by
  unfold chainEntryPreset at hset
  split at hset
  · rename_i t a₀ a₁ a₂ args'
    obtain rfl : a₁ = i := Option.some.inj (Option.some.inj hi)
    by_cases hlen : 1024 ≤ t.length
    · rw [if_pos hlen] at hset
      cases hset
    · rw [if_neg hlen] at hset
      by_cases hcount : sampleMaxParameters < 3 + (strtolArgs t.length t).length
      · rw [if_pos hcount] at hset
        cases hset
      · rw [if_neg hcount, if_neg (by omega)] at hset
        exact presetEntry_other hset h
  · cases hset

end Other

/-! ## An entry without an effect -/

/-- What activates meets memory, and plugins that start. -/
structure World.Works (w : World) : Prop where
  memInit : w.memInit = true
  plugActivate : w.plugActivate.isSome = true

section Cleared

variable {table : FxTable} {id : ℤ}

theorem valid_seq (hvalid : vjEffectIsValid table id = true) :
    0 < vjEffectRealToSequence id ∧ vjEffectRealToSequence id < maxEffects + table.nExtPlugs := by
  cases hplugin : vjEffectIsPlugin table id with
  | false =>
    have hb := (internal_of_valid hvalid hplugin).seq_bounds
    rw [maxEffects]
    omega
  | true =>
    have hseq := of_decide_eq_true hplugin
    rw [maxEffects] at hseq ⊢
    omega

/-- A valid effect has its number of parameters. -/
theorem vjEffectGetNumParams_valid (hvalid : vjEffectIsValid table id = true) :
    vjEffectGetNumParams table id = .ok (table.numParams id) := by
  have hseq := (valid_seq hvalid).1
  have hid : ¬ (id < 0 ∨ vjEffectRealToSequence id ≤ 0) := by
    intro h
    rcases h with h | h
    · rw [vjEffectRealToSequence, vjExtEffect] at hseq
      split_ifs at hseq <;> omega
    · omega
  rw [vjEffectGetNumParams, if_neg hid, if_pos hvalid]

/-- A valid effect is activated. -/
theorem activate_valid (hvalid : vjEffectIsValid table id = true) {w : World} (hw : w.Works) (ready : Ready) :
    (vjEffectActivate table w ready id).1 = true := by
  obtain ⟨hpos, hlt⟩ := valid_seq hvalid
  rw [vjEffectActivate, if_neg (by omega)]
  cases hplugin : isPluginSeq table (vjEffectRealToSequence id) with
  | true =>
    rw [if_pos rfl]
    exact hw.plugActivate
  | false =>
    have hid := internal_of_valid hvalid hplugin
    rw [if_neg Bool.false_ne_true]
    split_ifs with hmem hready hindex hinit
    · rfl
    · rfl
    · rfl
    · exact absurd hw.memInit hinit
    · rw [hid.indexed, Bool.not_eq_true'] at hmem
      exact absurd (Bool.eq_false_iff.mpr hindex) hmem

/-- The entry has the effect, with its defaults. -/
structure Fresh (table : FxTable) (id : ℤ) (entry : FxEntry) : Prop where
  effectId : entry.effectId = id
  arg : ∀ n, n < table.numParams id → entry.arg n = table.default id n

theorem usedEntry_fresh {kf : Option ℕ} {mixIn : FxEntry → FxEntry}
    (hmix : ∀ entry, (mixIn entry).effectId = entry.effectId ∧ (mixIn entry).arg = entry.arg) {entry : FxEntry}
    (hentry : entry.effectId ≠ id) : Fresh table id (usedEntry table kf mixIn id entry) := by
  have harg : ∀ n, n < table.numParams id →
      ({ withDefaults table kf entry id with effectId := id } : FxEntry).arg n = table.default id n := by
    intro n hn
    show (withDefaults table kf entry id).arg n = _
    rw [withDefaults, if_pos hentry]
    exact if_pos hn
  rw [usedEntry]
  dsimp only
  split_ifs
  · exact ⟨(hmix _).1, fun n hn => by rw [(hmix _).2]; exact harg n hn⟩
  · exact ⟨rfl, harg⟩

/-- **A valid effect comes onto an entry without one.** -/
theorem sampleChainAdd_cleared (hvalid : vjEffectIsValid table id = true) {w : World} (hw : w.Works) {s : FxState}
    {a : ℤ} {c : Fin sampleMaxEffects} (ha : position a = some c) (hc : (s.chain c).effectId = -1) :
    (sampleChainAdd table w s a id).1 = 1 ∧ Fresh table id ((sampleChainAdd table w s a id).2.chain c) := by
  have hid : id ≠ -1 := by
    rintro rfl
    exact absurd (valid_seq hvalid).1 (by decide)
  have hdiscard : discardOld table s c id = s := by
    rw [discardOld, if_neg fun h => h.1 hc]
  have hne : (s.chain c).effectId ≠ id := by
    rw [hc]
    exact hid.symm
  rw [sampleChainAdd, addEffect, ha]
  dsimp only
  rw [hdiscard]
  rcases activateNew_cases table w _ _ s c id with ⟨fxInstance, -, hone, hentry⟩ | ⟨hnone, -⟩
  · refine ⟨hone, ?_⟩
    rw [hentry]
    refine usedEntry_fresh ?_ hne
    exact fun entry => ⟨rfl, rfl⟩
  · rw [activate_valid hvalid hw s.ready] at hnone
    cases hnone

end Cleared

/-- The parameters after they are set: a number that is not in its range leaves the default. -/
theorem setArgs_chain {p : Player} {id : ℤ} {args : List ℤ} {c : Fin sampleMaxEffects} {is : List ℕ} (his : is.Nodup)
    (s : FxState) :
    (Ensures (setArgs p id args c is s) fun s' =>
        (s'.chain c).effectId = (s.chain c).effectId ∧
          ∀ n, (s'.chain c).arg n =
            if n ∈ is ∧ vjEffectValidValue p id n ((args[n]?).getD 0) = true then (args[n]?).getD 0
            else (s.chain c).arg n) ∧ (∀ i ∈ is, i + 3 < sampleMaxParameters) ∨
      (∃ f, setArgs p id args c is s = .error f) ∧ ∃ i ∈ is, sampleMaxParameters ≤ i + 3 := by
  induction is generalizing s with
  | nil =>
    refine .inl ⟨⟨s, rfl, rfl, fun n => ?_⟩, fun i hi => absurd hi List.not_mem_nil⟩
    rw [if_neg fun h => absurd h.1 List.not_mem_nil]
  | cons i is ih =>
    obtain ⟨hi, his⟩ := List.nodup_cons.mp his
    rw [setArgs]
    by_cases hbound : sampleMaxParameters ≤ i + 3
    · rw [if_pos hbound]
      exact .inr ⟨⟨_, rfl⟩, i, List.mem_cons_self, hbound⟩
    · rw [if_neg hbound]
      generalize hs₁ : (if vjEffectValidValue p id i ((args[i]?).getD 0) = true then s.setArg c i ((args[i]?).getD 0)
        else s) = s₁
      have heffect : (s₁.chain c).effectId = (s.chain c).effectId := by
        rw [← hs₁]
        split_ifs
        · show (Function.update s.chain c _ c).effectId = _
          rw [Function.update_self]
        · rfl
      have harg : ∀ n, (s₁.chain c).arg n =
          if n = i ∧ vjEffectValidValue p id n ((args[n]?).getD 0) = true then (args[n]?).getD 0
          else (s.chain c).arg n := by
        intro n
        rw [← hs₁]
        by_cases hvalid : vjEffectValidValue p id i ((args[i]?).getD 0) = true
        · rw [if_pos hvalid]
          show (Function.update s.chain c _ c).arg n = _
          rw [Function.update_self]
          show Function.update (s.chain c).arg i _ n = _
          rw [Function.update_apply]
          by_cases hn : n = i
          · rw [if_pos hn, hn, if_pos ⟨rfl, hvalid⟩]
          · rw [if_neg hn, if_neg fun h => hn h.1]
        · have hnot : ¬ (n = i ∧ vjEffectValidValue p id n ((args[n]?).getD 0) = true) := fun h => hvalid (h.1 ▸ h.2)
          rw [if_neg hvalid, if_neg hnot]
      rcases ih his s₁ with ⟨⟨s', hrun, heffect', harg'⟩, hall⟩ | ⟨herr, hex⟩
      · refine .inl ⟨⟨s', hrun, heffect'.trans heffect, fun n => ?_⟩, ?_⟩
        · rw [harg' n, harg n]
          by_cases hn : n ∈ is
          · have hne : n ≠ i := fun h => hi (h ▸ hn)
            simp only [hn, true_and, List.mem_cons, or_true, hne, false_and, if_false]
          · simp only [hn, false_and, if_false, List.mem_cons, or_false]
        · intro n hn
          rcases List.mem_cons.mp hn with rfl | hn
          · omega
          · exact hall n hn
      · exact .inr ⟨herr, hex.imp fun n hn => ⟨List.mem_cons_of_mem i hn.1, hn.2⟩⟩

/-! ## Messages -/

/-- The arguments of a message for the entry `i`: the playing sample, the entry, and what follows. -/
def presetRest (i : ℤ) (t : CStr) : CStr := lit "0 " ++ decimalInt i ++ 32 :: t

theorem presetRest_no {i : ℤ} {t : CStr} {c : UInt8} (ht : c ∉ t) (hdigit : isDigit c = false) (h45 : c ≠ 45)
    (h32 : c ≠ 32) : c ∉ presetRest i t := by
  intro hc
  rcases List.mem_append.mp hc with hc | hc
  · rcases List.mem_append.mp hc with hc | hc
    · rcases List.mem_cons.mp hc with rfl | hc
      · exact absurd hdigit (by decide)
      · exact h32 (List.mem_singleton.mp hc)
    · rcases mem_decimalInt hc with hc | hc
      · rw [hdigit] at hc
        cases hc
      · exact h45 hc
  · rcases List.mem_cons.mp hc with hc | hc
    · exact h32 hc
    · exact ht hc

section Messages

variable {p : Player} {i : ℤ} {t : CStr}

/-- The first two numbers are scanned. -/
theorem scanArgs_preset (hi : InRange i) (t : CStr) :
    scanArgs (presetEvents p) vimsChainEntrySetPreset 4 0 1 (presetRest i t) none [some 0, some (-1), some 0, some 0] =
      scanArgs (presetEvents p) vimsChainEntrySetPreset 2 2 7 t none [some 0, some i, some 0, some 0] := by
  have hd : ∀ k : ℕ, k = 1 ∨ k = 1 + 3 → ((presetEvents p).format vimsChainEntrySetPreset)[k]? = some 100 := by
    rintro k (rfl | rfl)
    · rfl
    · rfl
  have hrest : presetRest i t = decimalInt 0 ++ 32 :: (decimalInt i ++ 32 :: t) := by
    simp only [presetRest, List.append_assoc]
    rfl
  rw [hrest, scanArgs_number (hd _ (.inl rfl)) (by decide), scanArgs_number (hd _ (.inr rfl)) hi]
  rfl

/-- **What a preset message asks for**, wherever it is held. -/
theorem select_preset (get : ℤ → Option ℕ) (hi : InRange i) (h59 : (59 : UInt8) ∉ t) (h0 : (0 : UInt8) ∉ t)
    (tail : List UInt8) :
    select (presetEvents p) get
        ⟨idMessage vimsChainEntrySetPreset (presetRest i t ++ [59]) ++ 0 :: tail,
          (idMessage vimsChainEntrySetPreset (presetRest i t ++ [59])).length⟩ =
      scanArgs (presetEvents p) vimsChainEntrySetPreset 2 2 7 t none [some 0, some i, some 0, some 0] >>= fun r =>
        match r with
        | none => .ok .nothing
        | some (n, str, args) =>
          .ok (fireNetEvent (presetEvents p) get vimsChainEntrySetPreset str args n (fun s => s) fun s => s) := by
  have hne : presetRest i t ≠ [] := List.cons_ne_nil _ _
  have hnp : (presetEvents p).numArgs vimsChainEntrySetPreset ≠ 0 := by
    show (4 : ℕ) ≠ 0
    decide
  have hargs : initialArgs (presetEvents p) vimsChainEntrySetPreset = [some 0, some (-1), some 0, some 0] := rfl
  rw [select_arguments (presetEvents p) get (by decide) (by decide) hnp hne
    (presetRest_no h59 (by decide) (by decide) (by decide)) (presetRest_no h0 (by decide) (by decide) (by decide)) tail,
    hargs]
  show scanArgs _ _ 4 0 1 _ _ _ >>= _ = _
  rw [scanArgs_preset hi t]
  rfl

/-- **A message for one entry leaves the others alone**, whatever follows the number of the entry. -/
theorem parse_preset_other {fuel : ℕ} (hi : InRange i) (hi0 : 0 ≤ i) (h59 : (59 : UInt8) ∉ t) (h0 : (0 : UInt8) ∉ t)
    {tail : List UInt8} {s s' : Exec FxState}
    (hrun : parseMsg (presetEvents p) (fuel + 1)
      ⟨idMessage vimsChainEntrySetPreset (presetRest i t ++ [59]) ++ 0 :: tail,
        (idMessage vimsChainEntrySetPreset (presetRest i t ++ [59])).length⟩ s = .ok s')
    {x' : FxState} (hs' : s' = .ok x') :
    ∃ x, s = .ok x ∧ ∀ j, position i ≠ some j → x'.chain j = x.chain j := by
  have hsame : s = .ok x' → ∃ x, s = .ok x ∧ ∀ j, position i ≠ some j → x'.chain j = x.chain j :=
    fun hs => ⟨x', hs, fun _ _ => rfl⟩
  rw [parseMsg, select_preset _ hi h59 h0 tail] at hrun
  obtain ⟨sel, hsel, hrun⟩ := bind_eq_ok.mp hrun
  obtain ⟨r, hscan, hsel⟩ := bind_eq_ok.mp hsel
  cases r with
  | none =>
    obtain rfl := Except.ok.inj hsel
    obtain rfl := Except.ok.inj hrun
    exact hsame hs'
  | some r =>
    obtain ⟨n, str, args⟩ := r
    obtain rfl := Except.ok.inj hsel
    have harg1 : args[1]? = some (some i) := scanArgs_front hscan (by decide)
    rcases @fireNetEvent_acts _ (presetEvents p) ((presetEvents p).bundleGet s) vimsChainEntrySetPreset (by decide)
      str args n (fun s => s) (fun s => s) with hact | hact
    · rw [hact] at hrun
      obtain rfl := Except.ok.inj hrun
      exact hsame hs'
    · rw [hact] at hrun
      have hfire : s >>= chainEntryPreset p str args = s' := Except.ok.inj hrun
      rw [hs'] at hfire
      obtain ⟨x, hx, hpreset⟩ := bind_eq_ok.mp hfire
      refine ⟨x, hx, fun j hj => ?_⟩
      exact chainEntryPreset_other hpreset harg1 hi0 hj

end Messages

/-! ## A message that is well formed -/

/-- One number: it is stored, or it ends the loop. -/
theorem strtolArgs_step {t rest : CStr} {k : ℤ} (hscan : scanInt t = .val k rest) (hk : InRange k) (fuel : ℕ) :
    strtolArgs (fuel + 1) t = if k = 0 then [] else k :: strtolArgs fuel rest := by
  obtain ⟨hlo, hhi⟩ := hk
  rw [strtolArgs, hscan]
  dsimp only
  rw [longValue_of_fits (by omega) (by omega), intValue_of_fits hlo hhi]

theorem blanks_head (ks : List ℤ) : ∀ c ∈ (ks.flatMap fun w => 32 :: decimalInt w).head?, isDigit c = false := by
  intro c hc
  cases ks with
  | nil => cases hc
  | cons w ws =>
    obtain rfl := Option.some.inj hc
    rfl

/-- The numbers that `strtol` finds, each behind a blank. -/
theorem strtolArgs_blanks {fuel : ℕ} {ks : List ℤ} (hfuel : ks.length ≤ fuel) (hks : ∀ k ∈ ks, InRange k) :
    strtolArgs fuel (ks.flatMap fun w => 32 :: decimalInt w) = ks.takeWhile fun k => decide (k ≠ 0) := by
  induction ks generalizing fuel with
  | nil =>
    cases fuel with
    | zero => rfl
    | succ fuel => rfl
  | cons k ks ih =>
    obtain ⟨fuel, rfl⟩ : ∃ n, fuel = n + 1 := ⟨fuel - 1, by rw [List.length_cons] at hfuel; omega⟩
    have htext : (k :: ks).flatMap (fun w => 32 :: decimalInt w) =
        32 :: (decimalInt k ++ ks.flatMap fun w => 32 :: decimalInt w) := rfl
    rw [htext, strtolArgs_step (scanInt_blank_decimalInt k _ (blanks_head ks)) (hks k List.mem_cons_self)]
    by_cases hk : k = 0
    · rw [if_pos hk, List.takeWhile_cons_of_neg (by simpa using hk)]
    · rw [if_neg hk, List.takeWhile_cons_of_pos (by simpa using hk),
        ih (by rw [List.length_cons] at hfuel; omega) fun x hx => hks x (List.mem_cons_of_mem k hx)]

theorem length_le_integersText (ks : List ℤ) : ks.length ≤ (integersText ks).length := by
  cases ks with
  | nil => exact Nat.le_refl 0
  | cons k ks =>
    obtain ⟨c, t, hc, -⟩ := decimalInt_head k
    have hrest : ∀ ks : List ℤ, ks.length ≤ (ks.flatMap fun w => 32 :: decimalInt w).length := by
      intro ks
      induction ks with
      | nil => exact Nat.le_refl 0
      | cons w ws ih =>
        rw [List.flatMap_cons, List.length_append, List.length_cons, List.length_cons]
        omega
    have := hrest ks
    rw [integersText, hc, List.length_append, List.length_cons, List.length_cons]
    omega

/-- The numbers of a text of numbers. -/
theorem strtolArgs_integers {ks : List ℤ} (hks : ∀ k ∈ ks, InRange k) :
    strtolArgs (integersText ks).length (integersText ks) = ks.takeWhile fun k => decide (k ≠ 0) := by
  have hlen := length_le_integersText ks
  cases ks with
  | nil => rfl
  | cons k ks =>
    obtain ⟨fuel, hfuel⟩ : ∃ n, (integersText (k :: ks)).length = n + 1 :=
      ⟨(integersText (k :: ks)).length - 1, by rw [List.length_cons] at hlen; omega⟩
    have htext : integersText (k :: ks) = decimalInt k ++ ks.flatMap fun w => 32 :: decimalInt w := rfl
    rw [hfuel, htext, strtolArgs_step (scanInt_decimalInt k _ (blanks_head ks)) (hks k List.mem_cons_self),
      strtolArgs_blanks (by rw [hfuel, List.length_cons] at hlen; omega) fun x hx => hks x (List.mem_cons_of_mem k hx)]
    by_cases hk : k = 0
    · rw [if_pos hk, List.takeWhile_cons_of_neg (by simpa using hk)]
    · rw [if_neg hk, List.takeWhile_cons_of_pos (by simpa using hk)]

/-- The numbers that a preset finds in a row of values: those before the first 0, then 0. -/
def presetArg (p : Player) (id : ℤ) (ks : List ℤ) (n : ℕ) : ℤ :=
  let v := ((ks.takeWhile fun k => decide (k ≠ 0))[n]?).getD 0
  if vjEffectValidValue p id n v then v else p.table.default id n

section Formed

variable {p : Player} {fx : ℤ} {ks : List ℤ} {c : Fin sampleMaxEffects}

/-- **The entry after a preset**: the effect, and the numbers that were found, where they are in their ranges.  The
handler has room for 29 numbers. -/
theorem chainEntryPreset_cleared (hvalid : vjEffectIsValid p.table fx = true) (hw : p.world.Works)
    (hks : ∀ k ∈ ks, InRange k) (hcount : ks.length ≤ p.table.numParams fx) (hlen : (integersText ks).length < 1024)
    {s : FxState} (hc : (s.chain c).effectId = -1) :
    (p.table.numParams fx ≤ 29 ∧
      Ensures (chainEntryPreset p (some (integersText ks)) [some 0, some (c : ℕ), some fx, some 0] s) fun s' =>
        (s'.chain c).effectId = fx ∧ ∀ n, n < p.table.numParams fx → (s'.chain c).arg n = presetArg p fx ks n) ∨
    29 < p.table.numParams fx ∧
      ∃ f, chainEntryPreset p (some (integersText ks)) [some 0, some (c : ℕ), some fx, some 0] s = .error f := by
  have hpos := position_fin c
  obtain ⟨hadd, hfresh⟩ := sampleChainAdd_cleared hvalid hw hpos hc
  have hnum := vjEffectGetNumParams_valid hvalid
  have htake : (ks.takeWhile fun k => decide (k ≠ 0)).length ≤ ks.length := (List.takeWhile_prefix _).length_le
  rw [chainEntryPreset, if_neg (Nat.not_le.mpr hlen), strtolArgs_integers hks]
  by_cases hroom : sampleMaxParameters < 3 + (ks.takeWhile fun k => decide (k ≠ 0)).length
  · rw [if_pos hroom]
    rw [sampleMaxParameters] at hroom
    exact .inr ⟨by omega, _, rfl⟩
  · have hne : ¬ (((c : ℕ) : ℤ) = -1) := by omega
    rw [if_neg hroom, if_neg hne, presetEntry, hpos]
    dsimp only
    rw [if_pos (.inl rfl), hnum, ok_bind, if_neg (by rw [hadd]; decide)]
    rcases @setArgs_chain p fx (ks.takeWhile fun k => decide (k ≠ 0)) c _
      (List.nodup_range (n := p.table.numParams fx)) (sampleChainAdd p.table p.world s (c : ℕ) fx).2 with
      ⟨⟨s', hset, heffect, harg⟩, hall⟩ | ⟨herr, n, hn, hbound⟩
    · refine .inl ⟨?_, s', hset, heffect.trans hfresh.effectId, fun n hn => ?_⟩
      · by_contra hlt
        have h29 := hall 29 (List.mem_range.mpr (by omega))
        rw [sampleMaxParameters] at h29
        omega
      · rw [harg n, presetArg, hfresh.arg n hn]
        simp only [List.mem_range.mpr hn, true_and]
    · rw [List.mem_range] at hn
      rw [sampleMaxParameters] at hbound
      exact .inr ⟨by omega, herr⟩

/-- **A message that is well formed** runs the handler with its numbers. -/
theorem parse_presetMessage (hfx : 0 < fx) (hfx' : InRange fx) (hne : ks ≠ []) (tail : List UInt8) (fuel : ℕ)
    (s : Exec FxState) :
    parseMsg (presetEvents p) (fuel + 1)
        ⟨idMessage vimsChainEntrySetPreset (presetRest (c : ℕ) (integersText (fx :: ks)) ++ [59]) ++ 0 :: tail,
          (idMessage vimsChainEntrySetPreset (presetRest (c : ℕ) (integersText (fx :: ks)) ++ [59])).length⟩ s =
      .ok (s >>= chainEntryPreset p (some (integersText ks)) [some 0, some (c : ℕ), some fx, some 0]) := by
  have hc : InRange (c : ℕ) := by
    have hlt : (c : ℕ) < 20 := c.isLt
    rw [InRange]
    omega
  have hno : ∀ b : UInt8, isDigit b = false → b ≠ 45 → b ≠ 32 → b ∉ integersText (fx :: ks) :=
    fun b => integersText_no (fx :: ks)
  obtain ⟨k, ks, rfl⟩ := List.exists_cons_of_ne_nil hne
  have htext : integersText (fx :: k :: ks) = decimalInt fx ++ 32 :: integersText (k :: ks) := rfl
  have hscan : scanInt (decimalInt fx ++ 32 :: integersText (k :: ks)) = .val fx (32 :: integersText (k :: ks)) :=
    scanInt_decimalInt fx _ (by simp [isDigit])
  have hformat : (presetEvents p).format vimsChainEntrySetPreset = lit "%d %d %d %s" := rfl
  have hd : (lit "%d %d %d %s")[7]? = some 100 := rfl
  have hs : (lit "%d %d %d %s")[7 + 3]? = some 115 := rfl
  have hword : inlineStrToStr ((presetEvents p).longParams vimsChainEntrySetPreset) (integersText (k :: ks)) =
      .ok (some (integersText (k :: ks))) := by
    rw [inlineStrToStr, if_neg (integersText_ne_nil (List.cons_ne_nil k ks))]
    rfl
  have hargs : scanArgs (presetEvents p) vimsChainEntrySetPreset 2 2 7 (integersText (fx :: k :: ks)) none
      [some 0, some ((c : ℕ) : ℤ), some 0, some 0] =
      .ok (some (4, some (integersText (k :: ks)), [some 0, some ((c : ℕ) : ℤ), some fx, some 0])) := by
    rw [htext, scanArgs]
    simp only [hformat, hd, if_true, hscan, intValue_of_fits hfx'.1 hfx'.2]
    rw [if_neg (by decide), scanArgs]
    simp only [hformat, hs]
    rw [if_neg (by decide), if_pos ⟨trivial, trivial⟩, hword, ok_bind]
    simp only [List.drop_length]
    rfl
  have hact : fireNetEvent (presetEvents p) ((presetEvents p).bundleGet s) vimsChainEntrySetPreset
      (some (integersText (k :: ks))) [some 0, some ((c : ℕ) : ℤ), some fx, some 0] 4 (fun s => s) (fun s => s) =
      .event fun s => s >>= chainEntryPreset p (some (integersText (k :: ks)))
        [some 0, some ((c : ℕ) : ℤ), some fx, some 0] := by
    have hverify : verifyArgs (presetEvents p) vimsChainEntrySetPreset [some 0, some ((c : ℕ) : ℤ), some fx, some 0] 4 =
        true := by
      rw [verifyArgs, if_neg (by simp)]
      simpa using hfx
    rw [fireNetEvent, hverify]
    rfl
  rw [parseMsg, select_preset _ hc (hno 59 (by decide) (by decide) (by decide))
    (hno 0 (by decide) (by decide) (by decide)) tail, hargs, ok_bind]
  dsimp only
  rw [hact]
  rfl

end Formed

end Veejay.Effects
