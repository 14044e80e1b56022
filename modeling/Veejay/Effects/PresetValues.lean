import Veejay.Effects.Ranges

/-!
# The values of a preset

A preset message names a sample or a stream, an entry of its chain and an effect, and carries values for the parameters:
`361:2 0 101 5 7;`.  The handler takes the values out of the string of the event with `strtol`, up to the first one that
is 0, and then sets every parameter of the effect (`veejay/vj-event.c`).

* `presetNamed`, `presetCommand` — the handler, for samples and for streams;
* `presetMessage`, `parse_presetNumbers` — the message, and what it hands to the handler: without values, no string;
* `addEffect_used`, `presetChain_sets` — the entry with the effect, whatever was on it, and with the numbers;
* `presetSets_iff` — **when every given value is set**;
* `preset_iff` — **and no argument is read that was not given**.
-/

namespace Veejay.Effects

open CLib Veejay.Samples Veejay.Vims

/-! ## The handler -/

/-- What is played: `SAMPLE_PLAYING` or `STREAM_PLAYING`. -/
inductive Kind where
  | sample
  | stream
  deriving DecidableEq

section Handler

variable (table : FxTable) (limits : ℤ → ℕ → ℤ × ℤ) (w : World) (kind : Kind)

/-- `sample_chain_add` or `vj_tag_set_effect`. -/
def chainAdd (id : ℤ) : FxState → ℤ → ℤ → ℤ × FxState :=
  match kind with
  | .sample => sampleChainAdd table w
  | .stream => vjTagSetEffect id table w

/-- The effect comes onto the entry, and its parameters are set. -/
def presetChain (id a₁ a₂ : ℤ) (c : Fin sampleMaxEffects) (numP : ℕ) (args : List ℤ) (s : FxState) : Exec FxState :=
  let r := chainAdd table w kind id s a₁ a₂
  if r.1 = 0 then .ok r.2 else setArgs (player table limits w id) a₂ args c (List.range numP) r.2

/-- `vj_event_chain_entry_preset`, behind the scanning of its numbers.  The samples of the bank are those that there are,
or the streams in their place; of a stream, it is asked whether the one that is played exists. -/
def presetNamed (b : FxBank) (a₀ a₁ a₂ : ℤ) (args : List ℤ) : Exec FxBank :=
  match position (entryNo b a₁) with
  | none => .ok b
  | some c =>
    let asked := match kind with
      | .sample => played b a₀
      | .stream => b.sampleId
    if (b.samples asked).isSome then do
      let numP ← vjEffectGetNumParams table a₂
      b.onChain (played b a₀) (presetChain table limits w kind (played b a₀) (entryNo b a₁) a₂ c numP args)
    else .ok b

/-- `vj_event_chain_entry_preset`.  Without the string, the pointer to it is not set. -/
def presetCommand (str : Option CStr) (args : List (Option ℤ)) (b : FxBank) : Exec FxBank :=
  match str, args with
  | some t, some a₀ :: some a₁ :: some a₂ :: _ =>
    -- `char str[1024]`
    if 1024 ≤ t.length then .error .overrun
    -- `int args[SAMPLE_MAX_PARAMETERS]`
    else if sampleMaxParameters < 3 + (strtolArgs t.length t).length then .error .overrun
    else presetNamed table limits w kind b a₀ a₁ a₂ (strtolArgs t.length t)
  | _, _ => .error .uninitialised

/-- The interpreter with this event. -/
def bankEvents : Events (Exec FxBank) :=
  indexEvents presetIndex
    { bundleGet := fun _ _ => none
      textAt := fun _ _ => none
      numArgs := fun _ => 0
      format := fun _ => []
      defaultValue := fun _ _ => 0
      allowAny := fun _ => false
      longParams := fun _ => false
      requireAll := fun _ => false
      fire := fun id str args b =>
        if id = vimsChainEntrySetPreset then b >>= presetCommand table limits w kind str args else b
      parseKf := fun _ b => b
      storeMacro := fun _ _ b => b }

end Handler

/-- A message for an entry of a sample or a stream, with values. -/
def presetMessage (a₀ a₁ fx : ℤ) (ks : List ℤ) : Message :=
  message (idMessage vimsChainEntrySetPreset (integersText (a₀ :: a₁ :: fx :: ks) ++ [59]))

/-- The string of the event: there is none without values. -/
def presetString (ks : List ℤ) : Option CStr := if ks = [] then none else some (integersText ks)

/-! ## The message -/

theorem integersText_cons_cons (v v' : ℤ) (vs : List ℤ) :
    integersText (v :: v' :: vs) = decimalInt v ++ 32 :: integersText (v' :: vs) := rfl

section Parse

variable {table : FxTable} {limits : ℤ → ℕ → ℤ × ℤ} {w : World} {kind : Kind} {a₀ a₁ fx : ℤ} {ks : List ℤ}

/-- The arguments of a message. -/
theorem scanArgs_presetNumbers (h₀ : Vims.InRange a₀) (h₁ : Vims.InRange a₁) (hfx : Vims.InRange fx) :
    scanArgs (bankEvents table limits w kind) vimsChainEntrySetPreset 4 0 1 (integersText (a₀ :: a₁ :: fx :: ks)) none
        [some 0, some (-1), some 0, some 0] =
      .ok (some (if ks = [] then 3 else 4, presetString ks, [some a₀, some a₁, some fx, some 0])) := by
  have hd : ∀ k : ℕ, k = 1 ∨ k = 1 + 3 ∨ k = 1 + 3 + 3 →
      ((bankEvents table limits w kind).format vimsChainEntrySetPreset)[k]? = some 100 := by
    rintro k (rfl | rfl | rfl)
    · rfl
    · rfl
    · rfl
  rw [integersText_cons_cons, scanArgs_number (hd 1 (.inl rfl)) h₀, integersText_cons_cons,
    scanArgs_number (hd _ (.inr (.inl rfl))) h₁]
  cases ks with
  | nil =>
    have hlast : integersText [fx] = decimalInt fx := List.append_nil _
    rw [hlast, scanArgs_lastNumber (hd _ (.inr (.inr rfl))) hfx]
    rfl
  | cons k ks =>
    rw [integersText_cons_cons, scanArgs_number (hd _ (.inr (.inr rfl))) hfx,
      scanArgs_rest rfl rfl (integersText_ne_nil (List.cons_ne_nil k ks))]
    rfl

/-- **The message runs the handler with its numbers**, and with its values in a string, if there are any. -/
theorem parse_presetNumbers (h₀ : Vims.InRange a₀) (h₁ : Vims.InRange a₁) (hfx : Vims.InRange fx) (hpos : 0 < fx)
    (fuel : ℕ) (b : Exec FxBank) :
    parseMsg (bankEvents table limits w kind) (fuel + 1) (presetMessage a₀ a₁ fx ks) b =
      .ok (b >>= presetCommand table limits w kind (presetString ks) [some a₀, some a₁, some fx, some 0]) := by
  have hno : ∀ c : UInt8, isDigit c = false → c ≠ 45 → c ≠ 32 → c ∉ integersText (a₀ :: a₁ :: fx :: ks) :=
    fun c => integersText_no (a₀ :: a₁ :: fx :: ks)
  have hnp : (bankEvents table limits w kind).numArgs vimsChainEntrySetPreset ≠ 0 := by
    show (4 : ℕ) ≠ 0
    decide
  have hargs : initialArgs (bankEvents table limits w kind) vimsChainEntrySetPreset =
      [some 0, some (-1), some 0, some 0] := rfl
  have hselect := select_arguments (bankEvents table limits w kind)
    ((bankEvents table limits w kind).bundleGet b) (show ValidId vimsChainEntrySetPreset by decide) (by decide) hnp
    (integersText_ne_nil (List.cons_ne_nil a₀ (a₁ :: fx :: ks))) (hno 59 (by decide) (by decide) (by decide))
    (hno 0 (by decide) (by decide) (by decide)) []
  rw [parseMsg, presetMessage, message, hselect, hargs]
  show (scanArgs _ _ 4 0 1 _ _ _ >>= _) >>= _ = _
  rw [scanArgs_presetNumbers h₀ h₁ hfx, ok_bind]
  have hverify : ∀ n, 3 ≤ n →
      verifyArgs (bankEvents table limits w kind) vimsChainEntrySetPreset [some a₀, some a₁, some fx, some 0] n = true := by
    intro n hn
    rw [verifyArgs, if_neg (by simp)]
    simpa using ⟨hn, hpos⟩
  have hact : fireNetEvent (bankEvents table limits w kind) ((bankEvents table limits w kind).bundleGet b)
      vimsChainEntrySetPreset (presetString ks) [some a₀, some a₁, some fx, some 0] (if ks = [] then 3 else 4)
      (fun s => s) (fun s => s) =
        .event fun b => b >>= presetCommand table limits w kind (presetString ks) [some a₀, some a₁, some fx, some 0] := by
    rw [fireNetEvent]
    cases ks with
    | nil =>
      rw [if_pos rfl, hverify 3 (Nat.le_refl 3)]
      rfl
    | cons k ks =>
      rw [if_neg (List.cons_ne_nil k ks), hverify 4 (by decide)]
      rfl
  show ((.ok (fireNetEvent (bankEvents table limits w kind) ((bankEvents table limits w kind).bundleGet b)
    vimsChainEntrySetPreset (presetString ks) [some a₀, some a₁, some fx, some 0] (if ks = [] then 3 else 4)
      (fun s => s) fun s => s) : Exec (Selected (Exec FxBank))) >>= _) = _
  rw [hact]
  rfl

end Parse

/-! ## The entry -/

/-- A parameter before the values are set: the default, where the effect is new. -/
def keptArg (table : FxTable) (fx : ℤ) (entry : FxEntry) (n : ℕ) : ℤ :=
  if entry.effectId = fx then entry.arg n else table.default fx n

section Entry

variable {table : FxTable} {w : World} {fx : ℤ} {c : Fin sampleMaxEffects}

/-- **A valid effect comes onto an entry**, whatever was on it. -/
theorem addEffect_used (hvalid : vjEffectIsValid table fx = true) (hw : w.Works) {kf : Option ℕ}
    {mixIn : FxEntry → FxEntry}
    (hmix : ∀ entry, (mixIn entry).effectId = entry.effectId ∧ (mixIn entry).arg = entry.arg) {a : ℤ}
    (ha : position a = some c) (s : FxState) :
    (addEffect table w kf mixIn s a fx).1 = 1 ∧
      Holds table fx (s.chain c) ((addEffect table w kf mixIn s a fx).2.chain c) := by
  obtain ⟨hid, harg⟩ := @discardOld_entry table s c fx
  rw [addEffect, ha]
  dsimp only
  generalize discardOld table s c fx = t at hid harg ⊢
  rcases activateNew_cases table w kf mixIn t c fx with ⟨fxInstance, -, hone, hentry⟩ | ⟨hnone, -⟩
  · refine ⟨hone, ?_⟩
    rw [hentry]
    exact usedEntry_holds hmix hid harg
  · rw [activate_valid hvalid hw t.ready] at hnone
    cases hnone

/-- The same of samples and of streams. -/
theorem chainAdd_used (hvalid : vjEffectIsValid table fx = true) (hw : w.Works) (kind : Kind) (id : ℤ) {a : ℤ}
    (ha : position a = some c) (s : FxState) :
    (chainAdd table w kind id s a fx).1 = 1 ∧
      Holds table fx (s.chain c) ((chainAdd table w kind id s a fx).2.chain c) := by
  cases kind with
  | sample =>
    refine addEffect_used hvalid hw ?_ ha s
    exact fun entry => ⟨rfl, rfl⟩
  | stream =>
    refine addEffect_used hvalid hw ?_ ha s
    exact fun entry => ⟨rfl, rfl⟩

variable {limits : ℤ → ℕ → ℤ × ℤ} {kind : Kind} {id a : ℤ} {args : List ℤ}

/-- **The entry after a preset**: each parameter has its number, or is as the effect came with it. -/
theorem presetChain_sets (hvalid : vjEffectIsValid table fx = true) (hw : w.Works) (ha : position a = some c)
    (s : FxState) :
    (table.numParams fx ≤ 29 ∧
      Ensures (presetChain table limits w kind id a fx c (table.numParams fx) args s) fun s' =>
        (s'.chain c).effectId = fx ∧ ∀ n, n < table.numParams fx →
          (s'.chain c).arg n =
            if vjEffectValidValue (player table limits w id) fx n ((args[n]?).getD 0) = true then (args[n]?).getD 0
            else keptArg table fx (s.chain c) n) ∨
    29 < table.numParams fx ∧ ∃ f, presetChain table limits w kind id a fx c (table.numParams fx) args s = .error f := by
  obtain ⟨hadd, hholds⟩ := chainAdd_used hvalid hw kind id ha s
  rw [presetChain, if_neg (by rw [hadd]; decide)]
  rcases setArgs_chain List.nodup_range (chainAdd table w kind id s a fx).2 with
    ⟨⟨s', hset, heffect, harg⟩, hall⟩ | ⟨herr, n, hn, hbound⟩
  · refine .inl ⟨?_, s', hset, heffect.trans hholds.effectId, fun n hn => ?_⟩
    · by_contra hlt
      have h29 := hall 29 (List.mem_range.mpr (by omega))
      rw [sampleMaxParameters] at h29
      omega
    · rw [harg n, hholds.arg n hn]
      simp only [List.mem_range.mpr hn, true_and]
      rfl
  · rw [List.mem_range] at hn
    rw [sampleMaxParameters] at hbound
    exact .inr ⟨by omega, herr⟩

end Entry

/-! ## The values -/

/-- The numbers that the loop around `strtol` stores. -/
def taken (ks : List ℤ) : List ℤ := ks.takeWhile fun k => decide (k ≠ 0)

/-- The places of `args` that are looked at when the parameters are set. -/
def placesRead : List ℕ → List ℕ
  | [] => []
  | i :: is => if sampleMaxParameters ≤ i + 3 then [] else (i + 3) :: placesRead is

section Values

variable (table : FxTable) (limits : ℤ → ℕ → ℤ × ℤ) (w : World) (kind : Kind) (b : FxBank) (a₀ a₁ fx : ℤ) (ks : List ℤ)
  (c : Fin sampleMaxEffects)

/-- What a preset is given: a sample or a stream, an entry, an effect, and values between the limits of parameters. -/
structure PresetGiven (smp : FxSample) : Prop where
  valid : vjEffectIsValid table fx = true
  works : w.Works
  fits : Vims.InRange a₀ ∧ Vims.InRange a₁ ∧ Vims.InRange fx
  exists_named : b.samples (played b a₀) = some smp
  exists_played : (b.samples b.sampleId).isSome = true
  entry : position (entryNo b a₁) = some c
  value : ∀ j v, ks[j]? = some v → Vims.InRange v ∧ vjEffectValidValue (player table limits w (played b a₀)) fx j v = true

/-- The message puts the effect on the entry, with the values. -/
def PresetSets (fuel : ℕ) : Prop :=
  ∃ b', parseMsg (bankEvents table limits w kind) (fuel + 1) (presetMessage a₀ a₁ fx ks) (.ok b) = .ok (.ok b') ∧
    ∃ s, b'.samples (played b a₀) = some s ∧ (s.chain c).effectId = fx ∧ ∀ j v, ks[j]? = some v → (s.chain c).arg j = v

/-- All places that are looked at hold numbers of the message. -/
def ReadsGiven : Prop := ∀ i ∈ placesRead (List.range (table.numParams fx)), i < 3 + ks.length

/-- What the first 0 cuts off is 0 as well, or 0 is not taken and the value was there. -/
def ZerosKept (entry : FxEntry) : Prop :=
  ∀ j v, (taken ks).length ≤ j → ks[j]? = some v →
    v = 0 ∨ vjEffectValidValue (player table limits w (played b a₀)) fx j 0 = false ∧ keptArg table fx entry j = v

end Values

section Given

variable {table : FxTable} {limits : ℤ → ℕ → ℤ × ℤ} {w : World} {kind : Kind} {b : FxBank} {a₀ a₁ fx : ℤ} {ks : List ℤ}
  {c : Fin sampleMaxEffects} {smp : FxSample}

theorem taken_before {j : ℕ} (hj : j < (taken ks).length) : (taken ks)[j]? = ks[j]? := by
  obtain ⟨rest, hrest⟩ : taken ks <+: ks := List.takeWhile_prefix _
  calc (taken ks)[j]? = (taken ks ++ rest)[j]? := (List.getElem?_append_left hj).symm
    _ = ks[j]? := by rw [hrest]

/-- **When a value is set**: in front of the first 0, or if it comes about without it. -/
theorem value_set_iff {p : Player} {j : ℕ} {v kept : ℤ} (hv : ks[j]? = some v)
    (hvalid : vjEffectValidValue p fx j v = true) :
    (if vjEffectValidValue p fx j (((taken ks)[j]?).getD 0) = true then ((taken ks)[j]?).getD 0 else kept) = v ↔
      ((taken ks).length ≤ j → v = 0 ∨ vjEffectValidValue p fx j 0 = false ∧ kept = v) := by
  rcases Nat.lt_or_ge j (taken ks).length with hj | hj
  · have hset : ((taken ks)[j]?).getD 0 = v := by rw [taken_before hj, hv, Option.getD_some]
    rw [hset, if_pos hvalid]
    exact iff_of_true rfl fun hle => absurd hj (Nat.not_lt.mpr hle)
  · rw [List.getElem?_eq_none hj, Option.getD_none]
    by_cases hzero : vjEffectValidValue p fx j 0 = true
    · rw [if_pos hzero]
      constructor
      · exact fun h _ => .inl h.symm
      · intro h
        rcases h hj with h | ⟨h, -⟩
        · exact h.symm
        · rw [hzero] at h
          cases h
    · rw [if_neg hzero]
      constructor
      · exact fun h _ => .inr ⟨Bool.eq_false_iff.mpr hzero, h⟩
      · intro h
        rcases h hj with rfl | ⟨-, h⟩
        · exact absurd hvalid hzero
        · exact h

theorem PresetGiven.length_le (h : PresetGiven table limits w b a₀ a₁ fx ks c smp) :
    ks.length ≤ table.numParams fx := by
  refine Nat.not_lt.mp fun hlt => ?_
  have hvalid := (h.value (table.numParams fx) ks[table.numParams fx] (List.getElem?_eq_getElem hlt)).2
  exact absurd (of_decide_eq_true hvalid).2.1 (Nat.lt_irrefl _)

theorem PresetGiven.inRange (h : PresetGiven table limits w b a₀ a₁ fx ks c smp) : ∀ k ∈ ks, Vims.InRange k := by
  intro k hk
  obtain ⟨j, hj⟩ := List.mem_iff_getElem?.mp hk
  exact (h.value j k hj).1

/-- Each number takes twelve bytes, with its blank. -/
theorem integersText_length_le (hks : ∀ k ∈ ks, Vims.InRange k) : (integersText ks).length ≤ 12 * ks.length := by
  have hnumber : ∀ k, Vims.InRange k → (decimalInt k).length ≤ 11 := by
    intro k hk
    refine decimalInt_length_le (by decide) ?_
    obtain ⟨hlo, hhi⟩ := hk
    omega
  cases ks with
  | nil => exact Nat.le_refl 0
  | cons k ks =>
    have hrest : ∀ ks : List ℤ, (∀ k ∈ ks, Vims.InRange k) →
        (ks.flatMap fun v => 32 :: decimalInt v).length ≤ 12 * ks.length := by
      intro ks hks
      induction ks with
      | nil => exact Nat.le_refl 0
      | cons v vs ih =>
        have hv := hnumber v (hks v List.mem_cons_self)
        have hvs := ih fun x hx => hks x (List.mem_cons_of_mem v hx)
        rw [List.flatMap_cons, List.length_append, List.length_cons, List.length_cons]
        omega
    have hk := hnumber k (hks k List.mem_cons_self)
    have htail := hrest ks fun x hx => hks x (List.mem_cons_of_mem k hx)
    rw [integersText, List.length_append, List.length_cons]
    omega

/-- The samples with the chain of one changed. -/
theorem onChain_some {id : ℤ} {s : FxSample} (hs : b.samples id = some s) (f : FxState → Exec FxState) :
    b.onChain id f = f ⟨s.chain, b.ready⟩ >>= fun t =>
      .ok { b with samples := Function.update b.samples id (some { s with chain := t.chain }), ready := t.ready } := by
  rw [FxBank.onChain, hs]

/-- What is asked for exists. -/
theorem PresetGiven.named (h : PresetGiven table limits w b a₀ a₁ fx ks c smp) (args : List ℤ) :
    presetNamed table limits w kind b a₀ a₁ fx args =
      b.onChain (played b a₀)
        (presetChain table limits w kind (played b a₀) (entryNo b a₁) fx c (table.numParams fx) args) := by
  have hasked : (b.samples (match kind with
      | .sample => played b a₀
      | .stream => b.sampleId)).isSome = true := by
    cases kind with
    | sample => exact h.exists_named ▸ rfl
    | stream => exact h.exists_played
  unfold presetNamed
  rw [h.entry]
  dsimp only
  rw [if_pos hasked, vjEffectGetNumParams_valid h.valid, ok_bind]

/-- With more than 29 parameters, the handler leaves its array. -/
theorem PresetGiven.overrun (h : PresetGiven table limits w b a₀ a₁ fx ks c smp) (hcount : 29 < table.numParams fx) :
    ∃ f, presetCommand table limits w kind (presetString ks) [some a₀, some a₁, some fx, some 0] b = .error f := by
  rw [presetString]
  split_ifs with hks
  · exact ⟨_, rfl⟩
  · rw [presetCommand, h.named, onChain_some h.exists_named]
    split_ifs
    · exact ⟨_, rfl⟩
    · exact ⟨_, rfl⟩
    · rcases @presetChain_sets table w fx c limits kind (played b a₀) _ (strtolArgs (integersText ks).length
        (integersText ks)) h.valid h.works h.entry ⟨smp.chain, b.ready⟩ with ⟨hle, -⟩ | ⟨-, f, hf⟩
      · omega
      · rw [hf]
        exact ⟨f, rfl⟩

/-- **The handler at values**, with room for all parameters. -/
theorem PresetGiven.sets (h : PresetGiven table limits w b a₀ a₁ fx ks c smp) (hne : ks ≠ [])
    (hcount : table.numParams fx ≤ 29) :
    ∃ s : FxState, presetCommand table limits w kind (presetString ks) [some a₀, some a₁, some fx, some 0] b =
        .ok { b with
          samples := Function.update b.samples (played b a₀) (some { smp with chain := s.chain })
          ready := s.ready } ∧
      (s.chain c).effectId = fx ∧ ∀ j, j < table.numParams fx →
        (s.chain c).arg j =
          if vjEffectValidValue (player table limits w (played b a₀)) fx j (((taken ks)[j]?).getD 0) = true
          then ((taken ks)[j]?).getD 0 else keptArg table fx (smp.chain c) j := by
  have hlen := h.length_le
  have htext := integersText_length_le h.inRange
  have htaken : (taken ks).length ≤ ks.length := (List.takeWhile_prefix _).length_le
  have hargs : strtolArgs (integersText ks).length (integersText ks) = taken ks := strtolArgs_integers h.inRange
  rcases @presetChain_sets table w fx c limits kind (played b a₀) _ (taken ks) h.valid h.works h.entry
    ⟨smp.chain, b.ready⟩ with ⟨-, s, hrun, heffect, harg⟩ | ⟨hlt, -⟩
  · refine ⟨s, ?_, heffect, harg⟩
    rw [presetString, if_neg hne, presetCommand, hargs, if_neg (by omega),
      if_neg (by rw [sampleMaxParameters]; omega), h.named, onChain_some h.exists_named, hrun, ok_bind]
  · omega

/-- **When every given value is set**: there is one, the parameters have room, and what the first 0 cuts off comes about
without it. -/
theorem presetSets_iff (h : PresetGiven table limits w b a₀ a₁ fx ks c smp) (fuel : ℕ) :
    PresetSets table limits w kind b a₀ a₁ fx ks c fuel ↔
      ks ≠ [] ∧ table.numParams fx ≤ 29 ∧ ZerosKept table limits w b a₀ fx ks (smp.chain c) := by
  have hpos : 0 < fx := by
    have hids := of_decide_eq_true h.valid
    rw [vjExtEffect] at hids
    omega
  unfold PresetSets
  rw [parse_presetNumbers h.fits.1 h.fits.2.1 h.fits.2.2 hpos fuel (.ok b), ok_bind]
  by_cases hne : ks = []
  · refine iff_of_false ?_ fun hall => hall.1 hne
    rintro ⟨b', hb', -⟩
    rw [presetString, if_pos hne] at hb'
    cases hb'
  by_cases hcount : table.numParams fx ≤ 29
  · obtain ⟨s, hrun, heffect, harg⟩ := h.sets hne hcount
    have hset : (∀ j v, ks[j]? = some v → (s.chain c).arg j = v) ↔
        ZerosKept table limits w b a₀ fx ks (smp.chain c) := by
      have hvalue : ∀ j v, ks[j]? = some v → ((s.chain c).arg j = v ↔ ((taken ks).length ≤ j → v = 0 ∨
          vjEffectValidValue (player table limits w (played b a₀)) fx j 0 = false ∧
            keptArg table fx (smp.chain c) j = v)) := by
        intro j v hv
        have hvalid := (h.value j v hv).2
        rw [harg j (of_decide_eq_true hvalid).2.1]
        exact value_set_iff hv hvalid
      constructor
      · exact fun hall j v hj hv => (hvalue j v hv).mp (hall j v hv) hj
      · exact fun hall j v hv => (hvalue j v hv).mpr fun hj => hall j v hj hv
    rw [hrun, ← hset]
    constructor
    · rintro ⟨b', hb', s', hs', -, hall⟩
      obtain rfl := Except.ok.inj (Except.ok.inj hb')
      dsimp only at hs'
      rw [Function.update_self] at hs'
      obtain rfl := Option.some.inj hs'
      exact ⟨hne, hcount, hall⟩
    · rintro ⟨-, -, hall⟩
      refine ⟨_, rfl, { smp with chain := s.chain }, ?_, heffect, hall⟩
      dsimp only
      rw [Function.update_self]
  · refine iff_of_false ?_ fun hall => hcount hall.2.1
    rintro ⟨b', hb', -⟩
    obtain ⟨f, hf⟩ := @PresetGiven.overrun _ _ _ kind _ _ _ _ _ _ _ h (Nat.lt_of_not_le hcount)
    rw [hf] at hb'
    cases hb'

/-- With room for all, each parameter is looked at. -/
theorem placesRead_eq {is : List ℕ} (h : ∀ i ∈ is, i < 29) : placesRead is = is.map (· + 3) := by
  induction is with
  | nil => rfl
  | cons i is ih =>
    have hi := h i List.mem_cons_self
    rw [placesRead, if_neg (by rw [sampleMaxParameters]; omega), ih fun j hj => h j (List.mem_cons_of_mem i hj)]
    rfl

/-- **When a preset sets every given value and looks at no other ones**: all parameters are given, there is one at least
and there are no more than 29, and what the first 0 cuts off comes about without it. -/
theorem preset_iff (h : PresetGiven table limits w b a₀ a₁ fx ks c smp) (fuel : ℕ) :
    PresetSets table limits w kind b a₀ a₁ fx ks c fuel ∧ ReadsGiven table fx ks ↔
      ks ≠ [] ∧ ks.length = table.numParams fx ∧ table.numParams fx ≤ 29 ∧
        ZerosKept table limits w b a₀ fx ks (smp.chain c) := by
  have hlen := h.length_le
  rw [presetSets_iff h fuel]
  have hreads : table.numParams fx ≤ 29 → (ReadsGiven table fx ks ↔ ks.length = table.numParams fx) := by
    intro hcount
    unfold ReadsGiven
    rw [placesRead_eq fun i hi => lt_of_lt_of_le (List.mem_range.mp hi) hcount]
    constructor
    · intro hall
      by_contra hne
      have hlast := hall (ks.length + 3)
        (List.mem_map.mpr ⟨ks.length, List.mem_range.mpr (lt_of_le_of_ne hlen hne), rfl⟩)
      omega
    · intro heq i hi
      obtain ⟨j, hj, rfl⟩ := List.mem_map.mp hi
      rw [List.mem_range] at hj
      omega
  constructor
  · rintro ⟨⟨hne, hcount, hzeros⟩, hall⟩
    exact ⟨hne, (hreads hcount).mp hall, hcount, hzeros⟩
  · rintro ⟨hne, heq, hcount, hzeros⟩
    exact ⟨⟨hne, hcount, hzeros⟩, (hreads hcount).mpr heq⟩

end Given

/-- The table with the effect "Mirrors" alone. -/
def mirrorsTable : FxTable where
  nExtPlugs := 0
  numParams id := if id = 102 then 2 else 0
  default _ j := if j = 0 then 0 else 1
  extraFrame _ := false

/-- The limits of its parameters, in a picture of 352 columns. -/
def mirrorsLimits : ℤ → ℕ → ℤ × ℤ := fun _ j => if j = 0 then (0, 3) else (0, 116)

/-- There is memory, one sample, and plugins start. -/
def mirrorsWorld : World := { plainWorld with plugActivate := some 0 }

/-- Two numbers for the sample that is played. -/
theorem mirrors_given {u v : ℤ} (hu : 0 ≤ u ∧ u ≤ 3) (hv : 0 ≤ v ∧ v ≤ 116) :
    PresetGiven mirrorsTable mirrorsLimits mirrorsWorld emptyBank 0 0 102 [u, v] ⟨0, sampleMaxEffects_pos⟩
      ⟨emptyState.chain, ⟨0, sampleMaxEffects_pos⟩⟩ where
  valid := by decide
  works := ⟨rfl, rfl⟩
  fits := ⟨by decide, by decide, by decide⟩
  exists_named := rfl
  exists_played := rfl
  entry := rfl
  value := by
    rintro (_ | _ | j) x hx
    · obtain rfl := Option.some.inj hx
      refine ⟨⟨by omega, by omega⟩, decide_eq_true ⟨by decide, by decide, hu⟩⟩
    · obtain rfl := Option.some.inj hx
      refine ⟨⟨by omega, by omega⟩, decide_eq_true ⟨by decide, by decide, hv⟩⟩
    · cases hx

theorem preset_iff_mirrors :
    PresetSets mirrorsTable mirrorsLimits mirrorsWorld .sample emptyBank 0 0 102 [2, 5] ⟨0, sampleMaxEffects_pos⟩ 0 ∧
      ReadsGiven mirrorsTable 102 [2, 5] := by
  refine (preset_iff (mirrors_given (by decide) (by decide)) 0).mpr ⟨List.cons_ne_nil _ _, rfl, by decide, ?_⟩
  rintro (_ | _ | j) x hj hx
  · exact absurd hj (by decide)
  · exact absurd hj (by decide)
  · cases hx

/-- A 0 ends the numbers: what follows it is not set. -/
theorem preset_ends_at_zero :
    PresetGiven mirrorsTable mirrorsLimits mirrorsWorld emptyBank 0 0 102 [0, 5] ⟨0, sampleMaxEffects_pos⟩
        ⟨emptyState.chain, ⟨0, sampleMaxEffects_pos⟩⟩ ∧
      ¬ PresetSets mirrorsTable mirrorsLimits mirrorsWorld .sample emptyBank 0 0 102 [0, 5]
        ⟨0, sampleMaxEffects_pos⟩ 0 := by
  have hgiven := mirrors_given (u := 0) (v := 5) (by decide) (by decide)
  refine ⟨hgiven, fun hsets => ?_⟩
  obtain ⟨-, -, hzeros⟩ := (presetSets_iff hgiven 0).mp hsets
  rcases hzeros 1 5 (Nat.zero_le 1) rfl with h | ⟨h, -⟩
  · cases h
  · cases h

end Veejay.Effects
