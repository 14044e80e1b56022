import Veejay.Effects.Preset
import Veejay.Vims.Termination

/-!
# Snapshots of the effect chain

`vj_event_create_effect_bundle` writes the chain of a sample as a bundle of preset messages, one for each entry with an
effect.  Values of -1 are left out, and the semicolon stands behind the last value: an entry whose last value is -1, or
that has no parameters, is not ended, and what follows becomes part of its message.

* `entryText`, `vjEventCreateEffectBundle` — the encoder;
* `runBundle` — the bundle is executed;
* `messagesOf` — the messages that the encoder's text is cut into;
* `run_entries` — what they do, where every entry is ended;
* `snapshot_restores_iff` — **exactly when the chain is restored**;
* `snapshot_loses` — an effect without parameters.
-/

namespace Veejay.Effects

open CLib Veejay.Samples Veejay.Vims

/-! ## The encoder -/

/-- What is written of an entry: `bundle` -/
def entryText (i : ℕ) (fx : ℤ) (np : ℕ) (arg : ℕ → ℤ) : CStr :=
  idMessage vimsChainEntrySetPreset (lit "0 " ++ decimalInt i ++ 32 :: decimalInt fx) ++
    (List.range np).flatMap fun j =>
      if arg j ≠ -1 then 32 :: decimalInt (arg j) ++ (if j = np - 1 then [59] else []) else []

/-- One round of the loop over the chain; `blob` has 1000 bytes. -/
def appendEntry (p : Player) (chain : Fin sampleMaxEffects → FxEntry) (blob : CStr) (i : Fin sampleMaxEffects) :
    Exec CStr :=
  if (chain i).effectId = -1 then .ok blob
  else do
    let np ← vjEffectGetNumParams p.table (chain i).effectId
    let bundle := entryText i (chain i).effectId np (chain i).arg
    -- `char bundle[512]`
    if 512 ≤ bundle.length then .error .overrun
    -- `veejay_strncpy` ends what it copies with a zero byte
    else if 50 * sampleMaxEffects ≤ blob.length + bundle.length then .error .overrun
    else .ok (blob ++ bundle)

/-- The entries with an effect. -/
def active (chain : Fin sampleMaxEffects → FxEntry) : List (Fin sampleMaxEffects) :=
  (List.finRange sampleMaxEffects).filter fun i => decide ((chain i).effectId ≠ -1)

/-- `vj_event_create_effect_bundle`: the text of the bundle -/
def vjEventCreateEffectBundle (p : Player) (s : FxState) : Exec CStr := do
  let blob ← (List.finRange sampleMaxEffects).foldlM (appendEntry p s.chain) []
  .ok (lit "BUN:" ++ zeroPadded 3 (active s.chain).length ++ 123 :: (blob ++ [125]))

/-- The bundle is executed. -/
def runBundle (p : Player) (fuel : ℕ) (text : CStr) (s : FxState) : Exec FxState := do
  let s' ← parseBundle (parseMsg (presetEvents p) fuel) (fun _ => true) (text ++ [0]) (.ok s)
  s'

/-- The snapshot of one chain is executed on another. -/
def snapshotAndRun (p : Player) (fuel : ℕ) (s₀ s : FxState) : Exec FxState := do
  let text ← vjEventCreateEffectBundle p s₀
  runBundle p fuel text s

/-! ## Chains -/

/-- The effects are valid, and their parameters in range. -/
structure ValidEntry (p : Player) (entry : FxEntry) : Prop where
  valid : vjEffectIsValid p.table entry.effectId = true
  effectId : Vims.InRange entry.effectId
  numParams : p.table.numParams entry.effectId ≤ sampleMaxParameters
  arg : ∀ j, j < p.table.numParams entry.effectId →
    Vims.InRange (entry.arg j) ∧ vjEffectValidValue p entry.effectId j (entry.arg j) = true

def ValidChain (p : Player) (chain : Fin sampleMaxEffects → FxEntry) : Prop :=
  ∀ i, (chain i).effectId ≠ -1 → ValidEntry p (chain i)

/-- The effect and the parameters of every entry are those of the chain. -/
def Restored (p : Player) (s₀ s : FxState) : Prop :=
  ∀ i, (s.chain i).effectId = (s₀.chain i).effectId ∧ ((s₀.chain i).effectId ≠ -1 →
    ∀ n, n < p.table.numParams (s₀.chain i).effectId → (s.chain i).arg n = (s₀.chain i).arg n)

/-- The values that are written. -/
def kept (p : Player) (entry : FxEntry) : List ℤ :=
  ((List.range (p.table.numParams entry.effectId)).map entry.arg).filter fun v => decide (v ≠ -1)

/-- The entry is ended by a semicolon. -/
def Ended (p : Player) (entry : FxEntry) : Prop :=
  1 ≤ p.table.numParams entry.effectId ∧ entry.arg (p.table.numParams entry.effectId - 1) ≠ -1

instance (p : Player) (entry : FxEntry) : Decidable (Ended p entry) := inferInstanceAs (Decidable (_ ∧ _))

/-- What is written of an entry, by its place. -/
def textAt (p : Player) (chain : Fin sampleMaxEffects → FxEntry) (i : Fin sampleMaxEffects) : CStr :=
  entryText i (chain i).effectId (p.table.numParams (chain i).effectId) (chain i).arg

/-- What the entry must meet: it has parameters, of which the handler has room for 29; it is ended; its message fits
into `atomic_msg`; and the values that are read back are its own. -/
structure EntryOk (p : Player) (chain : Fin sampleMaxEffects → FxEntry) (i : Fin sampleMaxEffects) : Prop where
  ended : Ended p (chain i)
  room : p.table.numParams (chain i).effectId ≤ 29
  short : (textAt p chain i).length < atomicSize
  reads : ∀ n, n < p.table.numParams (chain i).effectId →
    presetArg p (chain i).effectId (kept p (chain i)) n = (chain i).arg n

/-- What the chain must meet. -/
structure SnapshotOk (p : Player) (chain : Fin sampleMaxEffects → FxEntry) : Prop where
  entries : ∀ i, (chain i).effectId ≠ -1 → EntryOk p chain i
  total : ((active chain).flatMap (textAt p chain)).length < 50 * sampleMaxEffects

/-! ## The text of an entry -/

/-- The message that an entry begins. -/
def presetBody (i : Fin sampleMaxEffects) (t : CStr) : CStr := idMessage vimsChainEntrySetPreset (presetRest (i : ℕ) t)

theorem flatMap_kept (l : List ℤ) :
    (l.filter fun v => decide (v ≠ -1)).flatMap (fun w => 32 :: decimalInt w) =
      l.flatMap fun v => if v ≠ -1 then 32 :: decimalInt v else [] := by
  induction l with
  | nil => rfl
  | cons v l ih =>
    by_cases hv : v = -1
    · rw [List.filter_cons_of_neg (by simpa using hv), ih, List.flatMap_cons, if_neg (by simpa using hv), List.nil_append]
    · rw [List.filter_cons_of_pos (by simpa using hv), List.flatMap_cons, List.flatMap_cons, ih, if_pos hv]

/-- The values, and the semicolon behind the last one. -/
theorem values_text (np : ℕ) (arg : ℕ → ℤ) :
    ((List.range np).flatMap fun j =>
        if arg j ≠ -1 then 32 :: decimalInt (arg j) ++ (if j = np - 1 then [59] else []) else []) =
      ((((List.range np).map arg).filter fun v => decide (v ≠ -1)).flatMap fun w => 32 :: decimalInt w) ++
        if 1 ≤ np ∧ arg (np - 1) ≠ -1 then [59] else [] := by
  cases np with
  | zero => rfl
  | succ np =>
    have hfront : (List.range np).flatMap (fun j =>
          if arg j ≠ -1 then 32 :: decimalInt (arg j) ++ (if j = np then [59] else []) else []) =
        (List.range np).flatMap fun j => if arg j ≠ -1 then 32 :: decimalInt (arg j) else [] := by
      refine List.flatMap_congr fun j hj => ?_
      rw [List.mem_range] at hj
      rw [if_neg (show ¬ j = np by omega), List.append_nil]
    rw [flatMap_kept, List.flatMap_map, List.range_succ, List.flatMap_append, List.flatMap_append, Nat.add_sub_cancel,
      hfront, List.append_assoc]
    congr 1
    by_cases hv : arg np = -1
    · simp [hv]
    · simp [hv]

theorem entryText_eq (p : Player) (chain : Fin sampleMaxEffects → FxEntry) (i : Fin sampleMaxEffects) :
    textAt p chain i =
      presetBody i (integersText ((chain i).effectId :: kept p (chain i))) ++
        if Ended p (chain i) then [59] else [] := by
  have hrest : ∀ t : CStr, idMessage vimsChainEntrySetPreset (lit "0 " ++ decimalInt (i : ℕ) ++ 32 ::
      decimalInt (chain i).effectId) ++ t =
      presetBody i (decimalInt (chain i).effectId ++ t) := by
    intro t
    simp [presetBody, idMessage, presetRest]
  rw [textAt, entryText, values_text, hrest, ← List.append_assoc]
  simp only [presetBody, idMessage, presetRest, integersText, kept, List.append_assoc, List.cons_append]
  rfl

/-! ## The messages of the text -/

section Cut

variable (u : Fin sampleMaxEffects → CStr) (ended : Fin sampleMaxEffects → Bool)

/-- The texts of entries, one behind the other. -/
def entriesText (es : List (Fin sampleMaxEffects)) : CStr :=
  es.flatMap fun i => presetBody i (u i) ++ if ended i then [59] else []

/-- An entry behind what is not ended yet. -/
def joinPending (pending : Option (Fin sampleMaxEffects × CStr)) (i : Fin sampleMaxEffects) :
    Fin sampleMaxEffects × CStr :=
  match pending with
  | none => (i, u i)
  | some m => (m.1, m.2 ++ presetBody i (u i))

/-- The messages that the entries are cut into: an entry that is not ended takes the next ones in. -/
def messagesOf : Option (Fin sampleMaxEffects × CStr) → List (Fin sampleMaxEffects) → List (Fin sampleMaxEffects × CStr)
  | _, [] => []
  | pending, i :: es =>
    if ended i then joinPending u pending i :: messagesOf none es else messagesOf (some (joinPending u pending i)) es

/-- A text that the loop over a bundle does not cut. -/
def Plain (t : CStr) : Prop := (125 : UInt8) ∉ t ∧ (59 : UInt8) ∉ t ∧ (0 : UInt8) ∉ t

theorem Plain.append {t t' : CStr} (h : Plain t) (h' : Plain t') : Plain (t ++ t') := by
  refine ⟨fun hc => ?_, fun hc => ?_, fun hc => ?_⟩
  · exact (List.mem_append.mp hc).elim h.1 h'.1
  · exact (List.mem_append.mp hc).elim h.2.1 h'.2.1
  · exact (List.mem_append.mp hc).elim h.2.2 h'.2.2

theorem plain_presetBody {t : CStr} (h : Plain t) (i : Fin sampleMaxEffects) : Plain (presetBody i t) := by
  have hno : ∀ c : UInt8, c ∉ t → isDigit c = false → c ≠ 45 → c ≠ 32 → c ≠ 58 → c ∉ presetBody i t := by
    intro c ht hdigit h45 h32 h58 hc
    rcases List.mem_append.mp hc with hc | hc
    · rw [isDigit_of_mem_zeroPadded hc] at hdigit
      cases hdigit
    · rcases List.mem_cons.mp hc with hc | hc
      · exact h58 hc
      · exact presetRest_no ht hdigit h45 h32 hc
  exact ⟨hno 125 h.1 (by decide) (by decide) (by decide) (by decide),
    hno 59 h.2.1 (by decide) (by decide) (by decide) (by decide),
    hno 0 h.2.2 (by decide) (by decide) (by decide) (by decide)⟩

theorem plain_integersText (vs : List ℤ) : Plain (integersText vs) :=
  ⟨integersText_no vs (by decide) (by decide) (by decide), integersText_no vs (by decide) (by decide) (by decide),
    integersText_no vs (by decide) (by decide) (by decide)⟩

theorem presetBody_ne_nil (i : Fin sampleMaxEffects) (t : CStr) : presetBody i t ≠ [] := by
  rw [presetBody, idMessage]
  exact List.append_ne_nil_of_right_ne_nil _ (List.cons_ne_nil _ _)

/-- A message, from its entry and what follows the number of the entry. -/
def messageText (m : Fin sampleMaxEffects × CStr) : CStr := presetBody m.1 m.2 ++ [59]

theorem presetBody_append (i : Fin sampleMaxEffects) (t t' : CStr) : presetBody i t ++ t' = presetBody i (t ++ t') := by
  simp [presetBody, idMessage, presetRest]

/-- **The messages of the encoder's text.** -/
theorem cutMessages_entries (hu : ∀ i, Plain (u i)) (es : List (Fin sampleMaxEffects)) :
    (∀ skip, cutMessages skip [] (entriesText u ended es ++ [125]) = (messagesOf u ended none es).map messageText) ∧
      ∀ m, Plain m.2 → cutMessages false (presetBody m.1 m.2) (entriesText u ended es ++ [125]) =
        (messagesOf u ended (some m) es).map messageText := by
  induction es with
  | nil => exact ⟨fun skip => by cases skip <;> rfl, fun m _ => rfl⟩
  | cons i es ih =>
    have htext : entriesText u ended (i :: es) ++ [125] =
        presetBody i (u i) ++ ((if ended i then [59] else []) ++ (entriesText u ended es ++ [125])) := by
      simp [entriesText]
    have hplain := plain_presetBody (hu i) i
    -- what follows the body of the entry, behind a pending text
    have hbody : ∀ m : Fin sampleMaxEffects × CStr, Plain m.2 →
        cutMessages false (presetBody m.1 m.2) ((if ended i then [59] else []) ++ (entriesText u ended es ++ [125])) =
          (if ended i then m :: messagesOf u ended none es else messagesOf u ended (some m) es).map messageText := by
      intro m hm
      cases ended i with
      | true =>
        rw [if_pos rfl, if_pos rfl, List.cons_append, List.nil_append, cutMessages, if_neg (by decide), if_pos rfl,
          ih.1, List.map_cons]
        rfl
      | false => exact ih.2 m hm
    rw [htext]
    constructor
    · intro skip
      have hskip : cutMessages skip [] (presetBody i (u i) ++
          ((if ended i then [59] else []) ++ (entriesText u ended es ++ [125]))) =
          cutMessages false (presetBody i (u i)) ((if ended i then [59] else []) ++ (entriesText u ended es ++ [125])) := by
        cases skip with
        | true => exact cutMessages_skip hplain.2.1 hplain.1 (presetBody_ne_nil i _) _ _
        | false => exact cutMessages_append hplain.2.1 hplain.1 _ _
      rw [hskip]
      exact hbody (i, u i) (hu i)
    · intro m hm
      rw [cutMessages_append hplain.2.1 hplain.1, presetBody_append]
      exact hbody (m.1, m.2 ++ presetBody i (u i)) (hm.append hplain)

theorem messagesOf_length (pending : Option (Fin sampleMaxEffects × CStr)) (es : List (Fin sampleMaxEffects)) :
    (messagesOf u ended pending es).length = es.countP ended := by
  induction es generalizing pending with
  | nil => rfl
  | cons i es ih =>
    rw [messagesOf]
    cases hi : ended i with
    | true => rw [if_pos rfl, List.length_cons, ih, List.countP_cons_of_pos hi]
    | false => rw [if_neg Bool.false_ne_true, ih, List.countP_cons_of_neg (by simp [hi])]

/-- Every message begins with an entry. -/
theorem messagesOf_plain (hu : ∀ i, Plain (u i)) {pending : Option (Fin sampleMaxEffects × CStr)}
    (hpending : ∀ m ∈ pending, Plain m.2) (es : List (Fin sampleMaxEffects)) :
    ∀ m ∈ messagesOf u ended pending es, Plain m.2 := by
  induction es generalizing pending with
  | nil => exact fun m hm => absurd hm List.not_mem_nil
  | cons i es ih =>
    have hplain : Plain (joinPending u pending i).2 := by
      cases pending with
      | none => exact hu i
      | some m => exact (hpending m rfl).append (plain_presetBody (hu i) i)
    rw [messagesOf]
    cases ended i with
    | true =>
      intro m hm
      rcases List.mem_cons.mp hm with rfl | hm
      · exact hplain
      · exact ih (fun m hm => by cases hm) m hm
    | false =>
      refine ih fun m hm => ?_
      obtain rfl := Option.mem_some.mp hm
      exact hplain

/-- Where every entry is ended, each is a message. -/
theorem messagesOf_ended {es : List (Fin sampleMaxEffects)} (h : ∀ i ∈ es, ended i = true) :
    messagesOf u ended none es = es.map fun i => (i, u i) := by
  induction es with
  | nil => rfl
  | cons i es ih =>
    rw [messagesOf, h i List.mem_cons_self, if_pos rfl, ih fun j hj => h j (List.mem_cons_of_mem i hj), List.map_cons]
    rfl

/-- Where one is not, there is an entry that begins no message. -/
theorem exists_unaddressed {es : List (Fin sampleMaxEffects)} (hnodup : es.Nodup) {i : Fin sampleMaxEffects}
    (hi : i ∈ es) (hopen : ended i = false) : ∃ j ∈ es, ∀ m ∈ messagesOf u ended none es, m.1 ≠ j := by
  by_contra hall
  push Not at hall
  have hsub : es ⊆ (messagesOf u ended none es).map Prod.fst := by
    intro j hj
    obtain ⟨m, hm, rfl⟩ := hall j hj
    exact List.mem_map_of_mem hm
  have hle := (List.subperm_of_subset hnodup hsub).length_le
  rw [List.length_map, messagesOf_length] at hle
  have hcount : es.countP ended < es.length := by
    refine lt_of_le_of_ne List.countP_le_length fun heq => ?_
    have := List.countP_eq_length.mp heq i hi
    rw [hopen] at this
    cases this
  omega

end Cut

/-! ## Execution -/

/-- A message in `atomic_msg`. -/
theorem atomic_messageText {m : Fin sampleMaxEffects × CStr} (h : (messageText m).length < atomicSize) :
    ∃ tail, atomic (messageText m) =
      ⟨idMessage vimsChainEntrySetPreset (presetRest (m.1 : ℕ) m.2 ++ [59]) ++ 0 :: tail,
        (idMessage vimsChainEntrySetPreset (presetRest (m.1 : ℕ) m.2 ++ [59])).length⟩ := by
  have htext : messageText m = idMessage vimsChainEntrySetPreset (presetRest (m.1 : ℕ) m.2 ++ [59]) := by
    simp [messageText, presetBody, idMessage]
  obtain ⟨n, hn⟩ : ∃ n, atomicSize - (messageText m).length = n + 1 := ⟨atomicSize - (messageText m).length - 1, by omega⟩
  refine ⟨List.replicate n 0, ?_⟩
  rw [atomic, hn, List.replicate_succ, htext]

theorem inRange_entry (i : Fin sampleMaxEffects) : Vims.InRange (i : ℕ) := by
  have hlt : (i : ℕ) < 20 := i.isLt
  rw [Vims.InRange]
  omega

section Execution

variable {p : Player} {fuel : ℕ}

/-- **A row of messages leaves the entries alone that begin none of them.** -/
theorem runMessages_other {ms : List (Fin sampleMaxEffects × CStr)} (hms : ∀ m ∈ ms, Plain m.2)
    {s s' : Exec FxState}
    (hrun : runMessages (parseMsg (presetEvents p) (fuel + 1)) (fun _ => true) (ms.map messageText) s = .ok s')
    {x' : FxState} (hs' : s' = .ok x') :
    ∃ x, s = .ok x ∧ ∀ j, (∀ m ∈ ms, m.1 ≠ j) → x'.chain j = x.chain j := by
  induction ms generalizing s with
  | nil =>
    obtain rfl := Except.ok.inj hrun
    exact ⟨x', hs', fun _ _ => rfl⟩
  | cons m ms ih =>
    rw [List.map_cons, runMessages] at hrun
    by_cases hlen : atomicSize ≤ (messageText m).length
    · rw [if_pos hlen] at hrun
      cases hrun
    · rw [if_neg hlen] at hrun
      obtain ⟨s₁, hparse, hrun⟩ := bind_eq_ok.mp hrun
      rw [if_pos rfl] at hrun
      obtain ⟨x₁, hx₁, hother₁⟩ := ih (fun m' hm' => hms m' (List.mem_cons_of_mem m hm')) hrun
      obtain ⟨tail, htail⟩ := atomic_messageText (Nat.lt_of_not_le hlen)
      obtain ⟨-, h59, h0⟩ := hms m List.mem_cons_self
      rw [htail] at hparse
      obtain ⟨x, hx, hother⟩ := parse_preset_other (inRange_entry m.1) (Int.natCast_nonneg _) h59 h0 hparse hx₁
      refine ⟨x, hx, fun j hj => ?_⟩
      rw [hother₁ j fun m' hm' => hj m' (List.mem_cons_of_mem m hm'), hother j]
      rw [position_fin]
      exact fun h => hj m List.mem_cons_self (Option.some.inj h)

/-- What a row of messages leaves, where there is one for each entry. -/
structure EntriesRead (p : Player) (fx : Fin sampleMaxEffects → ℤ) (ks : Fin sampleMaxEffects → List ℤ)
    (es : List (Fin sampleMaxEffects)) (s s' : FxState) : Prop where
  read : ∀ i ∈ es, (s'.chain i).effectId = fx i ∧
    ∀ n, n < p.table.numParams (fx i) → (s'.chain i).arg n = presetArg p (fx i) (ks i) n
  other : ∀ j, j ∉ es → s'.chain j = s.chain j

/-- **The messages of entries that are all ended**: every entry is read, exactly if each message fits and the handler
has room for the parameters. -/
theorem run_entries (hw : p.world.Works) (fx : Fin sampleMaxEffects → ℤ) (ks : Fin sampleMaxEffects → List ℤ)
    {es : List (Fin sampleMaxEffects)} (hnodup : es.Nodup)
    (hes : ∀ i ∈ es, vjEffectIsValid p.table (fx i) = true ∧ Vims.InRange (fx i) ∧ ks i ≠ [] ∧ (∀ k ∈ ks i, Vims.InRange k) ∧
      (ks i).length ≤ p.table.numParams (fx i))
    {s : FxState} (hs : ∀ i ∈ es, (s.chain i).effectId = -1) :
    ((∀ i ∈ es, (messageText (i, integersText (fx i :: ks i))).length < atomicSize ∧ p.table.numParams (fx i) ≤ 29) ∧
      ∃ s', runMessages (parseMsg (presetEvents p) (fuel + 1)) (fun _ => true)
        (es.map fun i => messageText (i, integersText (fx i :: ks i))) (.ok s) = .ok (.ok s') ∧
        EntriesRead p fx ks es s s') ∨
    (¬ ∀ i ∈ es, (messageText (i, integersText (fx i :: ks i))).length < atomicSize ∧ p.table.numParams (fx i) ≤ 29) ∧
      ∀ s', runMessages (parseMsg (presetEvents p) (fuel + 1)) (fun _ => true)
        (es.map fun i => messageText (i, integersText (fx i :: ks i))) (.ok s) ≠ .ok (.ok s') := by
  induction es generalizing s with
  | nil =>
    exact .inl ⟨fun i hi => absurd hi List.not_mem_nil, s, rfl, fun i hi => absurd hi List.not_mem_nil, fun _ _ => rfl⟩
  | cons i es ih =>
    obtain ⟨hi, hnodup⟩ := List.nodup_cons.mp hnodup
    obtain ⟨hvalid, hrange, hne, hks, hcount⟩ := hes i List.mem_cons_self
    rw [List.map_cons, runMessages]
    by_cases hlen : atomicSize ≤ (messageText (i, integersText (fx i :: ks i))).length
    · rw [if_pos hlen]
      exact .inr ⟨fun h => Nat.not_le.mpr (h i List.mem_cons_self).1 hlen, fun s' h => by cases h⟩
    · have hfx : 0 < fx i := by
        have hseq := (valid_seq hvalid).1
        rw [vjEffectRealToSequence, vjExtEffect] at hseq
        split_ifs at hseq <;> omega
      have hshort : (integersText (ks i)).length < 1024 := by
        have hle : (integersText (ks i)).length ≤ (messageText (i, integersText (fx i :: ks i))).length := by
          have htext : integersText (fx i :: ks i) = decimalInt (fx i) ++ 32 :: integersText (ks i) := by
            obtain ⟨k, l, hk⟩ := List.exists_cons_of_ne_nil hne
            rw [hk]
            rfl
          simp only [messageText, presetBody, idMessage, presetRest, htext, List.length_append, List.length_cons]
          omega
        rw [atomicSize] at hlen
        omega
      obtain ⟨tail, htail⟩ := atomic_messageText (Nat.lt_of_not_le hlen)
      rw [if_neg hlen, htail, parse_presetMessage hfx hrange hne tail fuel, ok_bind, if_pos rfl, ok_bind]
      rcases chainEntryPreset_cleared hvalid hw hks hcount hshort (hs i List.mem_cons_self) with
        ⟨hroom, s₁, hset, heffect, harg⟩ | ⟨hroom, f, herr⟩
      · have hother : ∀ j, j ≠ i → s₁.chain j = s.chain j := fun j hj =>
          chainEntryPreset_other hset rfl (Int.natCast_nonneg _) (by
            rw [position_fin]
            exact fun h => hj (Option.some.inj h).symm)
        have hs₁ : ∀ j ∈ es, (s₁.chain j).effectId = -1 := fun j hj => by
          rw [hother j fun h => hi (h ▸ hj)]
          exact hs j (List.mem_cons_of_mem i hj)
        rw [hset]
        rcases ih hnodup (fun j hj => hes j (List.mem_cons_of_mem i hj)) hs₁ with ⟨hall, s', hrun, hread, hrest⟩ | ⟨hnot, hrun⟩
        · refine .inl ⟨fun j hj => ?_, s', hrun, fun j hj => ?_, fun j hj => ?_⟩
          · rcases List.mem_cons.mp hj with rfl | hj
            · exact ⟨Nat.lt_of_not_le hlen, hroom⟩
            · exact hall j hj
          · rcases List.mem_cons.mp hj with rfl | hj
            · rw [hrest j hi]
              exact ⟨heffect, harg⟩
            · exact hread j hj
          · rw [List.mem_cons, not_or] at hj
            rw [hrest j hj.2, hother j hj.1]
        · exact .inr ⟨fun h => hnot fun j hj => h j (List.mem_cons_of_mem i hj), hrun⟩
      · refine .inr ⟨fun h => Nat.not_le.mpr hroom (h i List.mem_cons_self).2, fun s' hrun => ?_⟩
        -- the fault stays in the state
        have hmap : (es.map fun i => messageText (i, integersText (fx i :: ks i))) =
            (es.map fun i => (i, integersText (fx i :: ks i))).map messageText := by
          rw [List.map_map]
          rfl
        have hplain : ∀ m ∈ es.map fun i => (i, integersText (fx i :: ks i)), Plain m.2 := by
          intro m hm
          obtain ⟨j, -, rfl⟩ := List.mem_map.mp hm
          exact plain_integersText (fx j :: ks j)
        rw [herr, hmap] at hrun
        obtain ⟨x, hx, -⟩ := runMessages_other hplain hrun rfl
        cases hx

end Execution

/-! ## The bundle -/

section Bundle

variable {p : Player}

theorem ValidEntry.numParams_eq {entry : FxEntry} (h : ValidEntry p entry) :
    vjEffectGetNumParams p.table entry.effectId = .ok (p.table.numParams entry.effectId) :=
  vjEffectGetNumParams_valid h.valid

/-- What one round of the encoder appends. -/
def roundText (p : Player) (chain : Fin sampleMaxEffects → FxEntry) (i : Fin sampleMaxEffects) : CStr :=
  if (chain i).effectId = -1 then [] else textAt p chain i

/-- **The encoder's text**, where it fits. -/
theorem append_fits {chain : Fin sampleMaxEffects → FxEntry} (hchain : ValidChain p chain)
    (is : List (Fin sampleMaxEffects)) (blob : CStr)
    (hshort : ∀ i ∈ is, (chain i).effectId ≠ -1 → (textAt p chain i).length < 512)
    (htotal : (blob ++ is.flatMap (roundText p chain)).length < 50 * sampleMaxEffects) :
    is.foldlM (appendEntry p chain) blob = .ok (blob ++ is.flatMap (roundText p chain)) := by
  induction is generalizing blob with
  | nil => simp [pure, Except.pure]
  | cons i is ih =>
    have hrest := ih (blob ++ roundText p chain i) (fun j hj => hshort j (List.mem_cons_of_mem i hj))
      (by rw [List.append_assoc]; exact htotal)
    have hround : appendEntry p chain blob i = .ok (blob ++ roundText p chain i) := by
      rw [appendEntry, roundText]
      by_cases hi : (chain i).effectId = -1
      · rw [if_pos hi, if_pos hi, List.append_nil]
      · have hlen := hshort i List.mem_cons_self hi
        have hblob : blob.length + (textAt p chain i).length < 50 * sampleMaxEffects := by
          rw [List.flatMap_cons, roundText, if_neg hi, List.length_append, List.length_append] at htotal
          omega
        rw [if_neg hi, if_neg hi, (hchain i hi).numParams_eq, ok_bind]
        show (if 512 ≤ (textAt p chain i).length then _ else if _ ≤ _ + (textAt p chain i).length then _ else _) = _
        rw [if_neg (Nat.not_le.mpr hlen), if_neg (Nat.not_le.mpr hblob)]
        rfl
    rw [List.foldlM_cons, hround, ok_bind, hrest, List.flatMap_cons, List.append_assoc]

/-- A text that is returned is this one, and it fits. -/
theorem append_ok {chain : Fin sampleMaxEffects → FxEntry} (hchain : ValidChain p chain)
    (is : List (Fin sampleMaxEffects)) {blob text : CStr} (hblob : blob.length < 50 * sampleMaxEffects)
    (h : is.foldlM (appendEntry p chain) blob = .ok text) :
    text = blob ++ is.flatMap (roundText p chain) ∧ text.length < 50 * sampleMaxEffects := by
  induction is generalizing blob with
  | nil =>
    obtain rfl : blob = text := Except.ok.inj h
    exact ⟨by simp, hblob⟩
  | cons i is ih =>
    rw [List.foldlM_cons] at h
    obtain ⟨blob₁, hround, h⟩ := bind_eq_ok.mp h
    have hblob₁ : blob₁ = blob ++ roundText p chain i ∧ blob₁.length < 50 * sampleMaxEffects := by
      rw [appendEntry] at hround
      rw [roundText]
      by_cases hi : (chain i).effectId = -1
      · rw [if_pos hi] at hround
        obtain rfl := Except.ok.inj hround
        exact ⟨by rw [if_pos hi, List.append_nil], hblob⟩
      · rw [if_neg hi, (hchain i hi).numParams_eq, ok_bind] at hround
        rw [if_neg hi]
        change (if 512 ≤ (textAt p chain i).length then .error .overrun else
          if 50 * sampleMaxEffects ≤ blob.length + (textAt p chain i).length then .error .overrun
          else .ok (blob ++ textAt p chain i) : Exec CStr) = .ok blob₁ at hround
        split_ifs at hround with h512 h1000
        obtain rfl := Except.ok.inj hround
        exact ⟨rfl, by rw [List.length_append]; omega⟩
    obtain ⟨htext, hlen⟩ := ih hblob₁.2 h
    exact ⟨by rw [htext, hblob₁.1, List.flatMap_cons, List.append_assoc], hlen⟩

/-- The entries with an effect make up the text. -/
theorem flatMap_active {chain : Fin sampleMaxEffects → FxEntry} :
    (List.finRange sampleMaxEffects).flatMap (roundText p chain) = (active chain).flatMap (textAt p chain) := by
  rw [active]
  generalize List.finRange sampleMaxEffects = is
  induction is with
  | nil => rfl
  | cons i is ih =>
    by_cases hi : (chain i).effectId = -1
    · rw [List.flatMap_cons, ih, roundText, if_pos hi, List.filter_cons_of_neg (by simpa using hi), List.nil_append]
    · rw [List.flatMap_cons, ih, roundText, if_neg hi, List.filter_cons_of_pos (by simpa using hi), List.flatMap_cons]

theorem entries_eq (p : Player) (chain : Fin sampleMaxEffects → FxEntry) :
    (active chain).flatMap (textAt p chain) =
      entriesText (fun i => integersText ((chain i).effectId :: kept p (chain i)))
        (fun i => decide (Ended p (chain i))) (active chain) := by
  rw [entriesText]
  refine List.flatMap_congr fun i _ => ?_
  rw [entryText_eq]
  simp only [decide_eq_true_eq]

/-- The messages of a bundle, behind its head. -/
theorem bundleMessages_text {n : ℕ} (hn : n < 10 ^ 3) {blob : CStr} (h0 : (0 : UInt8) ∉ blob) (hzero : n = 0 → blob = []) :
    bundleMessages (lit "BUN:" ++ zeroPadded 3 n ++ 123 :: (blob ++ [125]) ++ [0]) =
      .ok (cutMessages false [] (blob ++ [125])) := by
  have hscan := scanField_zeroPadded (123 :: (blob ++ [125])) (w := 3) (by decide) hn
  have hdigits : ∀ c ∈ zeroPadded 3 n, c ≠ 0 := fun c hc h => by
    have := isDigit_of_mem_zeroPadded hc
    rw [h] at this
    exact absurd this (by decide)
  obtain ⟨a, b, c, hz⟩ := List.length_eq_three.mp (zeroPadded_length (w := 3) (by decide) hn)
  rw [hz] at hscan hdigits ⊢
  have hcut : ∀ t : CStr, (0 : UInt8) ∉ t → cstring (t ++ [0]) = t := by
    intro t ht
    have hall : ∀ c ∈ t, decide (c ≠ (0 : UInt8)) = true := fun c hc => decide_eq_true fun h => ht (h ▸ hc)
    rw [cstring, List.takeWhile_append_of_pos hall, List.takeWhile_cons_of_neg (by simp), List.append_nil]
  have hend : (0 : UInt8) ∉ 123 :: (blob ++ [125]) := by
    simp only [List.mem_cons, List.mem_append, List.not_mem_nil, or_false, not_or]
    exact ⟨by decide, h0, by decide⟩
  have htail : (0 : UInt8) ∉ [a, b, c] ++ 123 :: (blob ++ [125]) := by
    rw [List.mem_append, not_or]
    exact ⟨fun h => hdigits 0 h rfl, hend⟩
  have hhead : (0 : UInt8) ∉ lit "BUN:" ++ [a, b, c] ++ 123 :: (blob ++ [125]) := by
    rw [List.append_assoc, List.mem_append, not_or]
    exact ⟨by decide, htail⟩
  have hnum : numMsg (lit "BUN:" ++ [a, b, c] ++ 123 :: (blob ++ [125]) ++ [0]) = n := by
    have hdrop : (lit "BUN:" ++ [a, b, c] ++ 123 :: (blob ++ [125]) ++ [0]).drop 4 =
        [a, b, c] ++ 123 :: (blob ++ [125]) ++ [0] := rfl
    rw [numMsg, hdrop, hcut _ htail, hscan]
  have h3 : byteAt (lit "BUN:" ++ [a, b, c] ++ 123 :: (blob ++ [125]) ++ [0]) 3 = .ok 58 := rfl
  have h7 : byteAt (lit "BUN:" ++ [a, b, c] ++ 123 :: (blob ++ [125]) ++ [0]) 7 = .ok 123 := rfl
  rw [bundleMessages, h3, ok_bind, if_pos rfl, hnum, h7, ok_bind, if_pos rfl, hcut _ hhead]
  by_cases hn0 : n = 0
  · rw [if_pos (by omega), hzero hn0]
    rfl
  · rw [if_neg (by omega)]
    rfl

theorem mem_active {chain : Fin sampleMaxEffects → FxEntry} {i : Fin sampleMaxEffects} :
    i ∈ active chain ↔ (chain i).effectId ≠ -1 := by
  rw [active, List.mem_filter, decide_eq_true_eq]
  exact ⟨fun h => h.2, fun h => ⟨List.mem_finRange i, h⟩⟩

theorem active_nodup (chain : Fin sampleMaxEffects → FxEntry) : (active chain).Nodup :=
  (List.nodup_finRange sampleMaxEffects).filter _

theorem active_length (chain : Fin sampleMaxEffects → FxEntry) : (active chain).length < 10 ^ 3 := by
  have hle := List.length_filter_le (fun i => decide ((chain i).effectId ≠ -1)) (List.finRange sampleMaxEffects)
  have hmax : sampleMaxEffects = 20 := rfl
  rw [List.length_finRange] at hle
  rw [active]
  omega

/-- The values that are written of an entry that is ended. -/
theorem kept_facts {entry : FxEntry} (h : ValidEntry p entry) (hended : Ended p entry) :
    kept p entry ≠ [] ∧ (∀ k ∈ kept p entry, Vims.InRange k) ∧ (kept p entry).length ≤ p.table.numParams entry.effectId := by
  refine ⟨List.ne_nil_of_mem (a := entry.arg (p.table.numParams entry.effectId - 1)) ?_, fun k hk => ?_, ?_⟩
  · rw [kept, List.mem_filter, decide_eq_true_eq]
    refine ⟨List.mem_map_of_mem (List.mem_range.mpr ?_), hended.2⟩
    have := hended.1
    omega
  · rw [kept, List.mem_filter] at hk
    obtain ⟨j, hj, rfl⟩ := List.mem_map.mp hk.1
    exact (h.arg j (List.mem_range.mp hj)).1
  · rw [kept]
    refine (List.length_filter_le _ _).trans ?_
    rw [List.length_map, List.length_range]

theorem textAt_ended {chain : Fin sampleMaxEffects → FxEntry} {i : Fin sampleMaxEffects} (h : Ended p (chain i)) :
    textAt p chain i = messageText (i, integersText ((chain i).effectId :: kept p (chain i))) := by
  rw [entryText_eq, if_pos h]
  rfl

/-- What the run of a snapshot is, where the encoder returns. -/
theorem runBundle_eq (p : Player) (fuel : ℕ) (s₀ s : FxState) :
    runBundle p fuel (lit "BUN:" ++ zeroPadded 3 (active s₀.chain).length ++
        123 :: ((active s₀.chain).flatMap (textAt p s₀.chain) ++ [125])) s =
      (do
        let s' ← runMessages (parseMsg (presetEvents p) fuel) (fun _ => true)
          ((messagesOf (fun i => integersText ((s₀.chain i).effectId :: kept p (s₀.chain i)))
            (fun i => decide (Ended p (s₀.chain i))) none (active s₀.chain)).map messageText) (.ok s)
        s') := by
  have h0 : (0 : UInt8) ∉ (active s₀.chain).flatMap (textAt p s₀.chain) := by
    intro h
    obtain ⟨i, -, hi⟩ := List.mem_flatMap.mp h
    rw [entryText_eq] at hi
    rcases List.mem_append.mp hi with hi | hi
    · exact (plain_presetBody (plain_integersText _) i).2.2 hi
    · split_ifs at hi
      · exact absurd (List.mem_singleton.mp hi) (by decide)
      · exact absurd hi List.not_mem_nil
  have hzero : (active s₀.chain).length = 0 → (active s₀.chain).flatMap (textAt p s₀.chain) = [] := by
    intro h
    rw [List.length_eq_zero_iff.mp h]
    rfl
  have hcut := (cutMessages_entries (fun i => integersText ((s₀.chain i).effectId :: kept p (s₀.chain i)))
    (fun i => decide (Ended p (s₀.chain i))) (fun i => plain_integersText _) (active s₀.chain)).1 false
  rw [runBundle, parseBundle_eq, bundleMessages_text (active_length s₀.chain) h0 hzero, ok_bind, entries_eq, hcut]

/-- What the encoder writes: the text of each entry, if all of them fit. -/
theorem createEffectBundle_of_fits {s₀ : FxState} (hchain : ValidChain p s₀.chain)
    (hshort : ∀ i, (s₀.chain i).effectId ≠ -1 → (textAt p s₀.chain i).length < 512)
    (htotal : ((active s₀.chain).flatMap (textAt p s₀.chain)).length < 50 * sampleMaxEffects) :
    vjEventCreateEffectBundle p s₀ = .ok (lit "BUN:" ++ zeroPadded 3 (active s₀.chain).length ++
      123 :: ((active s₀.chain).flatMap (textAt p s₀.chain) ++ [125])) := by
  have hblob := append_fits hchain (List.finRange sampleMaxEffects) [] (fun i _ hi => hshort i hi)
    (by rw [List.nil_append, flatMap_active]; exact htotal)
  rw [List.nil_append, flatMap_active] at hblob
  rw [vjEventCreateEffectBundle, hblob, ok_bind]

/-- Where the encoder returns, it has written that text. -/
theorem createEffectBundle_ok {s₀ : FxState} (hchain : ValidChain p s₀.chain) {text : CStr}
    (h : vjEventCreateEffectBundle p s₀ = .ok text) :
    ((active s₀.chain).flatMap (textAt p s₀.chain)).length < 50 * sampleMaxEffects ∧
      text = lit "BUN:" ++ zeroPadded 3 (active s₀.chain).length ++
        123 :: ((active s₀.chain).flatMap (textAt p s₀.chain) ++ [125]) := by
  rw [vjEventCreateEffectBundle] at h
  obtain ⟨blob, hblob, h⟩ := bind_eq_ok.mp h
  obtain ⟨hblob', htotal⟩ := append_ok hchain _ (by decide) hblob
  rw [List.nil_append, flatMap_active] at hblob'
  rw [hblob'] at h htotal
  exact ⟨htotal, (Except.ok.inj h).symm⟩

/-- **Every entry is ended where the chain is restored**: of the others, one is addressed by no message. -/
theorem ended_of_restored {fuel : ℕ} {s₀ s s' : FxState} (hcleared : ∀ i, (s.chain i).effectId = -1)
    (hrun : runMessages (parseMsg (presetEvents p) (fuel + 1)) (fun _ => true)
      ((messagesOf (fun i => integersText ((s₀.chain i).effectId :: kept p (s₀.chain i)))
        (fun i => decide (Ended p (s₀.chain i))) none (active s₀.chain)).map messageText) (.ok s) = .ok (.ok s'))
    (hrestored : Restored p s₀ s') {i : Fin sampleMaxEffects} (hi : (s₀.chain i).effectId ≠ -1) :
    Ended p (s₀.chain i) := by
  by_contra hopen
  obtain ⟨j, hj, hnone⟩ := exists_unaddressed (fun i => integersText ((s₀.chain i).effectId :: kept p (s₀.chain i)))
    (fun i => decide (Ended p (s₀.chain i))) (active_nodup s₀.chain) (mem_active.mpr hi) (decide_eq_false hopen)
  have hnothing : ∀ m ∈ (none : Option (Fin sampleMaxEffects × CStr)), Plain m.2 := fun m hm => by cases hm
  have hplain := messagesOf_plain (fun i => integersText ((s₀.chain i).effectId :: kept p (s₀.chain i)))
    (fun i => decide (Ended p (s₀.chain i))) (fun i => plain_integersText _) hnothing (active s₀.chain)
  obtain ⟨x₀, hx₀, hother⟩ := runMessages_other hplain hrun rfl
  obtain rfl := Except.ok.inj hx₀
  refine mem_active.mp hj ?_
  rw [← (hrestored j).1, hother j hnone]
  exact hcleared j

/-- **Exactly when a snapshot restores the chain.** -/
theorem snapshot_restores_iff (p : Player) (hw : p.world.Works) (s₀ s : FxState) (hchain : ValidChain p s₀.chain)
    (hcleared : ∀ i, (s.chain i).effectId = -1) (fuel : ℕ) :
    Ensures (snapshotAndRun p (fuel + 1) s₀ s) (Restored p s₀) ↔ SnapshotOk p s₀.chain := by
  -- the messages, where every entry is ended
  have hmessages : (∀ i, (s₀.chain i).effectId ≠ -1 → Ended p (s₀.chain i)) →
      (messagesOf (fun i => integersText ((s₀.chain i).effectId :: kept p (s₀.chain i)))
        (fun i => decide (Ended p (s₀.chain i))) none (active s₀.chain)).map messageText =
      (active s₀.chain).map fun i => messageText (i, integersText ((s₀.chain i).effectId :: kept p (s₀.chain i))) := by
    intro hended
    rw [messagesOf_ended _ _ fun i hi => decide_eq_true (hended i (mem_active.mp hi)), List.map_map]
    rfl
  have hentries : (∀ i, (s₀.chain i).effectId ≠ -1 → Ended p (s₀.chain i)) → _ := fun hended =>
    @run_entries p fuel hw (fun i => (s₀.chain i).effectId) (fun i => kept p (s₀.chain i)) _
      (active_nodup s₀.chain)
      (fun i hi => by
        have hi := mem_active.mp hi
        obtain ⟨hne, hks, hcount⟩ := kept_facts (hchain i hi) (hended i hi)
        exact ⟨(hchain i hi).valid, (hchain i hi).effectId, hne, hks, hcount⟩)
      _ fun i _ => hcleared i
  constructor
  · intro h
    obtain ⟨s', hrun, hrestored⟩ := h
    rw [snapshotAndRun] at hrun
    obtain ⟨text, htext, hrun⟩ := bind_eq_ok.mp hrun
    obtain ⟨htotal, rfl⟩ := createEffectBundle_ok hchain htext
    rw [runBundle_eq] at hrun
    obtain ⟨x, hmsgs, rfl⟩ := bind_eq_ok.mp hrun
    have hended : ∀ i, (s₀.chain i).effectId ≠ -1 → Ended p (s₀.chain i) := fun i =>
      ended_of_restored hcleared hmsgs hrestored
    rw [hmessages hended] at hmsgs
    rcases hentries hended with ⟨hfits, s₁, hrun₁, hread⟩ | ⟨-, hno⟩
    · obtain rfl := Except.ok.inj (Except.ok.inj (hmsgs.symm.trans hrun₁))
      refine ⟨fun i hi => ?_, htotal⟩
      have hfit := hfits i (mem_active.mpr hi)
      refine ⟨hended i hi, hfit.2, by rw [textAt_ended (hended i hi)]; exact hfit.1, fun n hn => ?_⟩
      rw [← (hread.read i (mem_active.mpr hi)).2 n hn]
      exact (hrestored i).2 hi n hn
    · exact absurd hmsgs (hno s')
  · intro h
    have hended : ∀ i, (s₀.chain i).effectId ≠ -1 → Ended p (s₀.chain i) := fun i hi => (h.entries i hi).ended
    have htext := createEffectBundle_of_fits hchain
      (fun i hi => lt_of_lt_of_le (h.entries i hi).short (by decide)) h.total
    rcases hentries hended with ⟨-, s', hrun, hread⟩ | ⟨hno, -⟩
    · rw [snapshotAndRun, htext, ok_bind, runBundle_eq, hmessages hended, hrun, ok_bind]
      refine ⟨s', rfl, fun i => ?_⟩
      by_cases hi : (s₀.chain i).effectId = -1
      · rw [hread.other i fun hmem => mem_active.mp hmem hi, hcleared i]
        exact ⟨hi.symm, fun hne => absurd hi hne⟩
      · obtain ⟨heffect, harg⟩ := hread.read i (mem_active.mpr hi)
        exact ⟨heffect, fun _ n hn => (harg n hn).trans ((h.entries i hi).reads n hn)⟩
    · refine absurd (fun i hi => ?_) hno
      have hok := h.entries i (mem_active.mp hi)
      refine ⟨?_, hok.room⟩
      have hshort := hok.short
      rwa [textAt_ended hok.ended] at hshort

end Bundle

/-- Effects of which 101 has two parameters and the others have none. -/
def twoParams : Player where
  table := ⟨0, fun id => if id = 101 then 2 else 0, fun _ _ => 1, fun _ => false⟩
  limits _ _ := (0, 255)
  world := ⟨true, some 0, 0, 1⟩
  sampleId := 1
  selectedEntry := 0

/-- A chain with one effect, on its first entry. -/
def oneEffect (id : ℤ) : FxState where
  chain i :=
    { effectId := if i.val = 0 then id else -1
      fxInstance := none, eFlag := 1, arg := fun j => 5 + j, frameOffset := 0, frameTrimmer := 0, volume := 0
      aFlag := 0, kfStatus := 0, kfType := 0, kf := none, sourceType := 0, channel := 0 }
  ready _ := false

/-- Two parameters are restored. -/
theorem snapshot_restores_two :
    Ensures (snapshotAndRun twoParams 1 (oneEffect 101) (oneEffect (-1))) (Restored twoParams (oneEffect 101)) := by
  have hchain : ValidChain twoParams (oneEffect 101).chain := by
    intro i hi
    have h0 : i = ⟨0, by decide⟩ := Fin.ext (by
      by_contra hne
      exact hi (if_neg hne))
    rw [h0]
    refine ⟨by decide, by decide, by decide, ?_⟩
    intro j hj
    have hj2 : j < 2 := hj
    interval_cases j
    · exact ⟨by decide, by decide⟩
    · exact ⟨by decide, by decide⟩
  have hcleared : ∀ i, ((oneEffect (-1)).chain i).effectId = -1 := fun i => ite_self (-1)
  refine (snapshot_restores_iff twoParams ⟨rfl, rfl⟩ (oneEffect 101) (oneEffect (-1)) hchain hcleared 0).mpr
    ⟨?_, by decide⟩
  intro i hi
  have h0 : i = ⟨0, by decide⟩ := Fin.ext (by
    by_contra hne
    exact hi (if_neg hne))
  rw [h0]
  refine ⟨by decide, by decide, by decide, ?_⟩
  intro n hn
  have hn2 : n < 2 := hn
  interval_cases n
  · rfl
  · rfl

/-- **An effect without parameters is lost**: its message is never ended. -/
theorem snapshot_loses :
    vjEffectIsValid twoParams.table 102 = true ∧
      Ensures (snapshotAndRun twoParams 1 (oneEffect 102) (oneEffect (-1))) fun s' =>
        ((oneEffect 102).chain ⟨0, by decide⟩).effectId = 102 ∧ (s'.chain ⟨0, by decide⟩).effectId = -1 :=
  ⟨by decide, _, rfl, rfl, rfl⟩

end Veejay.Effects
