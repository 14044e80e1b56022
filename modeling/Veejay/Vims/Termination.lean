import Veejay.CLib.Reach
import Veejay.Vims.Message

/-!
# Interpretation of a VIMS message returns

Nothing in `vj_event_parse_msg` or `vj_event_parse_bundle` counts how deep bundles are nested, so the
interpretation returns exactly where the messages that it leads to have no cycle, and each of them fits into
`atomic_msg`.

* `cutMessages`, `bundleMessages` — the messages of a bundle;
* `Executes` — a message has another one interpreted;
* `Keeps` — the states that may occur while a message is interpreted;
* `WellBehaved` — no message that is reached reaches itself, and each one fits;
* `returns_of_wellBehaved` — **enough**, whatever the events register meanwhile;
* `wellBehaved_of_parseMsg` — **necessary**, where the events leave the bundles alone;
* `parseMsg_returns_iff` — the two together.
-/

namespace Veejay.Vims

open CLib Relation

/-- The messages that the loop over a bundle cuts out of its text. -/
def cutMessages : Bool → CStr → CStr → List CStr
  | _, _, [] => []
  | true, _, c :: rest => cutMessages false [c] rest
  | false, seen, c :: rest =>
    if c = 125 then []
    else if c = 59 then (seen ++ [c]) :: cutMessages true [] rest
    else cutMessages false (seen ++ [c]) rest

/-- Bytes that the scanner passes over. -/
theorem cutMessages_append {t : CStr} (h59 : (59 : UInt8) ∉ t) (h125 : (125 : UInt8) ∉ t) (seen rest : CStr) :
    cutMessages false seen (t ++ rest) = cutMessages false (seen ++ t) rest := by
  induction t generalizing seen with
  | nil => rw [List.nil_append, List.append_nil]
  | cons c t ih =>
    have hc59 := List.ne_of_not_mem_cons h59
    have hc125 := List.ne_of_not_mem_cons h125
    rw [List.cons_append, cutMessages, if_neg hc125.symm, if_neg hc59.symm,
      ih (List.not_mem_of_not_mem_cons h59) (List.not_mem_of_not_mem_cons h125), List.append_assoc,
      List.singleton_append]

/-- Their first byte is not looked at behind a message. -/
theorem cutMessages_skip {t : CStr} (h59 : (59 : UInt8) ∉ t) (h125 : (125 : UInt8) ∉ t) (hne : t ≠ [])
    (seen rest : CStr) : cutMessages true seen (t ++ rest) = cutMessages false t rest := by
  obtain ⟨c, t, rfl⟩ := List.exists_cons_of_ne_nil hne
  rw [List.cons_append, cutMessages,
    cutMessages_append (List.not_mem_of_not_mem_cons h59) (List.not_mem_of_not_mem_cons h125), List.singleton_append]

/-- The messages of the bundle in `bytes`. -/
def bundleMessages (bytes : List UInt8) : Exec (List CStr) := do
  let c ← byteAt bytes 3
  if c = 58 then
    if numMsg bytes ≤ 0 then .ok []
    else do
      let c ← byteAt bytes 7
      if c = 123 then .ok (cutMessages false [] ((cstring bytes).drop 8)) else .ok []
  else .ok []

section Bundle

variable {S : Type}

/-- The messages of a bundle are interpreted one after the other. -/
def runMessages (parse : Message → S → Exec S) (held : S → Bool) : List CStr → S → Exec S
  | [], s => .ok s
  | t :: ts, s =>
    if atomicSize ≤ t.length then .error .overrun
    else do
      let s ← parse (atomic t) s
      if held s then runMessages parse held ts s else .error .useAfterFree

theorem bundleLoop_eq (parse : Message → S → Exec S) (held : S → Bool) (text : CStr) :
    ∀ (skip : Bool) (seen : CStr) (s : S),
      bundleLoop parse held skip seen text s = runMessages parse held (cutMessages skip seen text) s := by
  induction text with
  | nil =>
    intro skip seen s
    cases skip <;> rfl
  | cons c rest ih =>
    intro skip seen s
    cases skip with
    | true => exact ih false [c] s
    | false =>
      rw [bundleLoop, cutMessages]
      by_cases hend : c = 125
      · rw [if_pos hend, if_pos hend]
        rfl
      · rw [if_neg hend, if_neg hend]
        by_cases hsemi : c = 59
        · rw [if_pos hsemi, if_pos hsemi, runMessages]
          simp only [ih]
        · rw [if_neg hsemi, if_neg hsemi]
          exact ih false (seen ++ [c]) s

theorem parseBundle_eq (parse : Message → S → Exec S) (held : S → Bool) (bytes : List UInt8) (s : S) :
    parseBundle parse held bytes s = bundleMessages bytes >>= fun ts => runMessages parse held ts s := by
  rw [parseBundle, bundleMessages]
  cases byteAt bytes 3 with
  | error f => rfl
  | ok c =>
    simp only [ok_bind]
    by_cases hcolon : c = 58
    · rw [if_pos hcolon, if_pos hcolon]
      by_cases hnum : numMsg bytes ≤ 0
      · rw [if_pos hnum, if_pos hnum]
        rfl
      · rw [if_neg hnum, if_neg hnum]
        cases byteAt bytes 7 with
        | error f => rfl
        | ok c =>
          simp only [ok_bind]
          by_cases hbrace : c = 123
          · rw [if_pos hbrace, if_pos hbrace, bundleLoop_eq]
            rfl
          · rw [if_neg hbrace, if_neg hbrace]
            rfl
    · rw [if_neg hcolon, if_neg hcolon]
      rfl

/-- What returns with some interpreter of the messages returns with one that agrees where the first returns. -/
theorem runMessages_mono {parse parse' : Message → S → Exec S} {held : S → Bool}
    (h : ∀ m s s', parse m s = .ok s' → parse' m s = .ok s') {ts : List CStr} {s s' : S}
    (hrun : runMessages parse held ts s = .ok s') : runMessages parse' held ts s = .ok s' := by
  induction ts generalizing s with
  | nil => exact hrun
  | cons t ts ih =>
    rw [runMessages] at hrun ⊢
    by_cases hfits : atomicSize ≤ t.length
    · rw [if_pos hfits] at hrun
      cases hrun
    · rw [if_neg hfits] at hrun ⊢
      obtain ⟨s₁, hfirst, hrest⟩ := bind_eq_ok.mp hrun
      rw [h _ _ _ hfirst, ok_bind]
      by_cases hheld : held s₁ = true
      · rw [if_pos hheld] at hrest ⊢
        exact ih hrest
      · rw [if_neg hheld] at hrest
        cases hrest

/-! ## Messages that a message leads to -/

variable (ev : Events S)

/-- The messages that are interpreted for a message, in a state with these bundles. -/
def nested (s : S) (m : Message) : Exec (List CStr) := do
  match ← select ev (ev.bundleGet s) m with
  | .nothing => .ok []
  | .event _ => .ok []
  | .sent bytes => bundleMessages bytes
  | .registered block =>
    match ev.textAt s block with
    | none => .error .useAfterFree
    | some t => bundleMessages (t ++ [0])

/-- In one of the states `A`, the message `m` has the message `m'` interpreted. -/
def Executes (A : S → Prop) (m m' : Message) : Prop :=
  ∃ s, A s ∧ ∃ ts, nested ev s m = .ok ts ∧ ∃ t ∈ ts, m' = atomic t

/-- The messages that `m` has interpreted are there, and fit into `atomic_msg`. -/
def Fits (s : S) (m : Message) : Prop := Ensures (nested ev s m) fun ts => ∀ t ∈ ts, t.length < atomicSize

/-- The events that the interpretation of `m` fires lead from states in `A` to states in `A`, and free no bundle. -/
def Keeps (A : S → Prop) (m : Message) : Prop :=
  ∀ m', ReflTransGen (Executes ev A) m m' → ∀ s, A s → ∀ act,
    select ev (ev.bundleGet s) m' = .ok (.event act) →
    A (act s) ∧ ∀ block t, ev.textAt s block = some t → ev.textAt (act s) block = some t

/-- No message that `m` leads to leads to itself, and each one fits. -/
structure WellBehaved (A : S → Prop) (m : Message) : Prop where
  acyclic : Acyclic (Executes ev A) m
  fits : ∀ m', ReflTransGen (Executes ev A) m m' → ∀ s, A s → Fits ev s m'

/-- The same bundles are registered, with the same texts. -/
def SameBundles (s s' : S) : Prop := ev.bundleGet s' = ev.bundleGet s ∧ ev.textAt s' = ev.textAt s

variable {ev}

theorem Keeps.of_executes {A : S → Prop} {m m' : Message} (h : Keeps ev A m) (hm : Executes ev A m m') :
    Keeps ev A m' :=
  fun _ hreach => h _ (ReflTransGen.head hm hreach)

theorem WellBehaved.of_executes {A : S → Prop} {m m' : Message} (h : WellBehaved ev A m)
    (hm : Executes ev A m m') : WellBehaved ev A m' :=
  ⟨h.acyclic.of_reach (ReflTransGen.single hm), fun _ hreach => h.fits _ (ReflTransGen.head hm hreach)⟩

/-- A message in a bundle is one of finitely many. -/
theorem reached_finite {A : S → Prop} {m : Message}
    (hfits : ∀ m', ReflTransGen (Executes ev A) m m' → ∀ s, A s → Fits ev s m') :
    {m' | ReflTransGen (Executes ev A) m m'}.Finite := by
  have hall : ({m} ∪ atomic '' {t : CStr | t.length < atomicSize}).Finite :=
    (Set.finite_singleton m).union ((List.finite_length_lt UInt8 atomicSize).image atomic)
  refine hall.subset fun m' hm' => ?_
  rcases ReflTransGen.cases_tail hm' with heq | ⟨m₁, hm₁, s, hs, ts, hts, t, ht, htm⟩
  · exact Or.inl heq
  · exact Or.inr ⟨t, (hfits m₁ hm₁ s hs).apply hts t ht, htm.symm⟩

/-- Every chain of messages ends. -/
theorem WellBehaved.acc {A : S → Prop} {m : Message} (h : WellBehaved ev A m) :
    Acc (fun m' m => Executes ev A m m') m :=
  acc_of_acyclic (reached_finite h.fits) h.acyclic

/-! ## What is enough -/

/-- More rounds do not change what has returned. -/
theorem parseMsg_mono {fuel n : ℕ} (hn : fuel ≤ n) {m : Message} {s s' : S}
    (h : parseMsg ev fuel m s = .ok s') : parseMsg ev n m s = .ok s' := by
  induction fuel generalizing n m s s' with
  | zero => cases h
  | succ fuel ih =>
    obtain ⟨n, rfl⟩ : ∃ k, n = k + 1 := ⟨n - 1, by omega⟩
    have hless : ∀ m s s', parseMsg ev fuel m s = .ok s' → parseMsg ev n m s = .ok s' :=
      fun _ _ _ => ih (by omega)
    rw [parseMsg] at h ⊢
    cases hsel : select ev (ev.bundleGet s) m with
    | error f =>
      rw [hsel] at h
      cases h
    | ok x =>
      rw [hsel] at h
      simp only [ok_bind] at h ⊢
      cases x with
      | nothing => exact h
      | event act => exact h
      | sent bytes =>
        dsimp only at h ⊢
        rw [parseBundle_eq] at h ⊢
        obtain ⟨ts, hts, hrun⟩ := bind_eq_ok.mp h
        rw [hts, ok_bind]
        exact runMessages_mono hless hrun
      | registered block =>
        dsimp only at h ⊢
        cases htext : ev.textAt s block with
        | none =>
          rw [htext] at h
          cases h
        | some t =>
          rw [htext] at h
          dsimp only at h ⊢
          rw [parseBundle_eq] at h ⊢
          obtain ⟨ts, hts, hrun⟩ := bind_eq_ok.mp h
          rw [hts, ok_bind]
          exact runMessages_mono hless hrun

/-- A state that may occur, in which what is allocated is still there. -/
def Later (ev : Events S) (A : S → Prop) (s s' : S) : Prop :=
  A s' ∧ ∀ block t, ev.textAt s block = some t → ev.textAt s' block = some t

/-- The messages of a bundle return if each of them does. -/
theorem runMessages_returns {A : S → Prop} {held : S → Bool} {s₀ : S}
    (hheld : ∀ s, Later ev A s₀ s → held s = true) :
    ∀ (ts : List CStr) (s : S), Later ev A s₀ s → (∀ t ∈ ts, t.length < atomicSize) →
      (∀ t ∈ ts, ∀ s, A s → ∃ fuel s', parseMsg ev fuel (atomic t) s = .ok s' ∧ Later ev A s s') →
      ∃ fuel s', runMessages (parseMsg ev fuel) held ts s = .ok s' ∧ Later ev A s₀ s' := by
  intro ts
  induction ts with
  | nil => exact fun s hs _ _ => ⟨0, s, rfl, hs⟩
  | cons t ts ih =>
    intro s hs hfits hparse
    obtain ⟨fuel₁, s₁, hfirst, hlater⟩ := hparse t List.mem_cons_self s hs.1
    have hs₁ : Later ev A s₀ s₁ := ⟨hlater.1, fun block t ht => hlater.2 block t (hs.2 block t ht)⟩
    obtain ⟨fuel₂, s₂, hrest, hs₂⟩ := ih s₁ hs₁ (fun t ht => hfits t (List.mem_cons_of_mem _ ht))
      fun t ht => hparse t (List.mem_cons_of_mem _ ht)
    have hshort := hfits t List.mem_cons_self
    refine ⟨max fuel₁ fuel₂, s₂, ?_, hs₂⟩
    rw [runMessages, if_neg (by omega), parseMsg_mono (le_max_left fuel₁ fuel₂) hfirst, ok_bind,
      if_pos (hheld s₁ hs₁)]
    exact runMessages_mono (fun _ _ _ => parseMsg_mono (le_max_right fuel₁ fuel₂)) hrest

/-- **Enough.**  Where no message that is reached reaches itself and each one fits, the interpretation returns. -/
theorem returns_of_wellBehaved {A : S → Prop} {m : Message} (hkeeps : Keeps ev A m)
    (hwell : WellBehaved ev A m) {s : S} (hs : A s) :
    ∃ fuel s', parseMsg ev fuel m s = .ok s' ∧ Later ev A s s' := by
  have hacc := hwell.acc
  induction hacc generalizing s with
  | intro m _ ih =>
    obtain ⟨ts, hts, hfits⟩ := hwell.fits m ReflTransGen.refl s hs
    have hself : Later ev A s s := ⟨hs, fun _ _ ht => ht⟩
    have hparse : ∀ t ∈ ts, ∀ s, A s → ∃ fuel s', parseMsg ev fuel (atomic t) s = .ok s' ∧ Later ev A s s' := by
      intro t ht s₁ hs₁
      have hexec : Executes ev A m (atomic t) := ⟨s, hs, ts, hts, t, ht, rfl⟩
      exact ih (atomic t) hexec (hkeeps.of_executes hexec) (hwell.of_executes hexec) hs₁
    have hevent := hkeeps m ReflTransGen.refl s hs
    rw [nested] at hts
    cases hsel : select ev (ev.bundleGet s) m with
    | error f =>
      rw [hsel] at hts
      cases hts
    | ok x =>
      rw [hsel] at hts
      cases x with
      | nothing => exact ⟨1, s, by rw [parseMsg, hsel]; rfl, hself⟩
      | event act => exact ⟨1, act s, by rw [parseMsg, hsel]; rfl, hevent act hsel⟩
      | sent bytes =>
        obtain ⟨fuel, s', hrun, hlater⟩ :=
          @runMessages_returns S ev A (fun _ => true) s (fun _ _ => rfl) ts s hself hfits hparse
        refine ⟨fuel + 1, s', ?_, hlater⟩
        rw [parseMsg, hsel]
        dsimp only [ok_bind] at hts ⊢
        rw [parseBundle_eq, hts]
        exact hrun
      | registered block =>
        cases htext : ev.textAt s block with
        | none =>
          simp only [ok_bind, htext] at hts
          cases hts
        | some t =>
          have hheld : ∀ s', Later ev A s s' → (ev.textAt s' block == some t) = true := by
            intro s' hs'
            rw [hs'.2 block t htext]
            exact beq_self_eq_true _
          obtain ⟨fuel, s', hrun, hlater⟩ := runMessages_returns hheld ts s hself hfits hparse
          refine ⟨fuel + 1, s', ?_, hlater⟩
          simp only [ok_bind, htext] at hts
          rw [parseMsg, hsel]
          simp only [ok_bind, htext]
          rw [parseBundle_eq, hts]
          exact hrun

/-! ## What is necessary -/

theorem nested_congr {s s' : S} (h : SameBundles ev s s') (m : Message) : nested ev s' m = nested ev s m := by
  rw [nested, nested, h.1, h.2]

/-- The messages of a bundle have been interpreted. -/
theorem runMessages_ok {parse : Message → S → Exec S} {held : S → Bool} {P : S → Prop} {Q : CStr → Prop}
    {ts : List CStr} (hparse : ∀ t ∈ ts, ∀ s s', P s → parse (atomic t) s = .ok s' → P s' ∧ Q t) {s s' : S}
    (hs : P s) (hrun : runMessages parse held ts s = .ok s') :
    P s' ∧ ∀ t ∈ ts, t.length < atomicSize ∧ Q t := by
  induction ts generalizing s with
  | nil =>
    obtain rfl := Except.ok.inj hrun
    exact ⟨hs, fun t ht => absurd ht List.not_mem_nil⟩
  | cons t ts ih =>
    rw [runMessages] at hrun
    by_cases hlong : atomicSize ≤ t.length
    · rw [if_pos hlong] at hrun
      cases hrun
    · rw [if_neg hlong] at hrun
      obtain ⟨s₁, hfirst, hrest⟩ := bind_eq_ok.mp hrun
      obtain ⟨hs₁, ht⟩ := hparse t List.mem_cons_self s s₁ hs hfirst
      by_cases hheld : held s₁ = true
      · rw [if_pos hheld] at hrest
        obtain ⟨hs', hts⟩ := ih (fun t ht => hparse t (List.mem_cons_of_mem _ ht)) hs₁ hrest
        refine ⟨hs', fun t' ht' => ?_⟩
        rcases List.mem_cons.mp ht' with rfl | ht'
        · exact ⟨by omega, ht⟩
        · exact hts t' ht'
      · rw [if_neg hheld] at hrest
        cases hrest

/-- The messages that a message leads to end, and each one fits. -/
structure Settles (ev : Events S) (A : S → Prop) (m : Message) : Prop where
  acc : Acc (fun m' m => Executes ev A m m') m
  fits : ∀ m', ReflTransGen (Executes ev A) m m' → ∀ s, A s → Fits ev s m'

/-- A message settles if it fits and the messages that it has interpreted settle. -/
theorem settles_of_nested {s₀ s : S} {m : Message} (hs : SameBundles ev s₀ s) {ts : List CStr}
    (hts : nested ev s m = .ok ts) (h : ∀ t ∈ ts, t.length < atomicSize ∧ Settles ev (SameBundles ev s₀) (atomic t)) :
    Settles ev (SameBundles ev s₀) m := by
  have hnested : ∀ s', SameBundles ev s₀ s' → nested ev s' m = .ok ts := by
    intro s' hs'
    rw [nested_congr hs', ← nested_congr hs, hts]
  have hexec : ∀ m', Executes ev (SameBundles ev s₀) m m' → Settles ev (SameBundles ev s₀) m' := by
    rintro m' ⟨s', hs', ts', hts', t, ht, rfl⟩
    obtain rfl := Except.ok.inj ((hnested s' hs').symm.trans hts')
    exact (h t ht).2
  refine ⟨Acc.intro m fun m' hm' => (hexec m' hm').acc, fun m' hm' s' hs' => ?_⟩
  rcases ReflTransGen.cases_head hm' with rfl | ⟨m₁, hfirst, hrest⟩
  · exact ⟨ts, hnested s' hs', fun t ht => (h t ht).1⟩
  · exact (hexec m₁ hfirst).fits m' hrest s' hs'

/-- **Necessary.**  Where the events leave the bundles alone, a message whose interpretation returned settles. -/
theorem settles_of_parseMsg {s₀ : S} {fuel : ℕ} {m : Message} {s s' : S}
    (hkeeps : Keeps ev (SameBundles ev s₀) m) (hs : SameBundles ev s₀ s)
    (h : parseMsg ev fuel m s = .ok s') : SameBundles ev s₀ s' ∧ Settles ev (SameBundles ev s₀) m := by
  induction fuel generalizing m s s' with
  | zero => cases h
  | succ fuel ih =>
    have hnested : ∀ {ts held}, nested ev s m = .ok ts → runMessages (parseMsg ev fuel) held ts s = .ok s' →
        SameBundles ev s₀ s' ∧ Settles ev (SameBundles ev s₀) m := by
      intro ts held hts hrun
      have hparse : ∀ t ∈ ts, ∀ s₁ s₂, SameBundles ev s₀ s₁ → parseMsg ev fuel (atomic t) s₁ = .ok s₂ →
          SameBundles ev s₀ s₂ ∧ Settles ev (SameBundles ev s₀) (atomic t) := fun t ht _ _ hs₁ hrun₁ =>
        ih (hkeeps.of_executes ⟨s, hs, ts, hts, t, ht, rfl⟩) hs₁ hrun₁
      obtain ⟨hs', hall⟩ := runMessages_ok hparse hs hrun
      exact ⟨hs', settles_of_nested hs hts hall⟩
    have hnone : nested ev s m = .ok [] → Settles ev (SameBundles ev s₀) m := fun hts =>
      settles_of_nested hs hts fun t ht => absurd ht List.not_mem_nil
    have hevent := hkeeps m ReflTransGen.refl s hs
    rw [parseMsg] at h
    rw [nested] at hnested hnone
    cases hsel : select ev (ev.bundleGet s) m with
    | error f =>
      rw [hsel] at h
      cases h
    | ok x =>
      rw [hsel] at h hnested hnone
      simp only [ok_bind] at h hnested hnone
      cases x with
      | nothing =>
        obtain rfl := Except.ok.inj h
        exact ⟨hs, hnone rfl⟩
      | event act =>
        obtain rfl := Except.ok.inj h
        exact ⟨(hevent act hsel).1, hnone rfl⟩
      | sent bytes =>
        dsimp only at h hnested
        rw [parseBundle_eq] at h
        obtain ⟨ts, hts, hrun⟩ := bind_eq_ok.mp h
        exact hnested hts hrun
      | registered block =>
        dsimp only at h hnested
        cases htext : ev.textAt s block with
        | none =>
          rw [htext] at h
          cases h
        | some t =>
          rw [htext] at h hnested
          dsimp only at h hnested
          rw [parseBundle_eq] at h
          obtain ⟨ts, hts, hrun⟩ := bind_eq_ok.mp h
          exact hnested hts hrun

end Bundle

/-! ## A bundle that has itself interpreted -/

/-- A server that knows `VIMS_BUNDLE` and `VIMS_BUNDLE_ADD`, and the texts of its bundles. -/
def bundleEvents : Events (ℤ → Option CStr) where
  bundleGet s id := if 0 ≤ id ∧ (s id).isSome then some id.toNat else none
  textAt s block := s block
  numArgs id := if id = vimsBundle then 1 else if id = vimsBundleAdd then 2 else 0
  format id := if id = vimsBundle then lit "%d" else if id = vimsBundleAdd then lit "%d %s" else []
  defaultValue _ _ := 0
  allowAny _ := false
  longParams id := id = vimsBundleAdd
  requireAll id := id = vimsBundle || id = vimsBundleAdd
  fire id str args s :=
    match args, str with
    | [some n, _], some t => if id = vimsBundleAdd then Function.update s n (some t) else s
    | _, _ => s
  parseKf _ s := s
  storeMacro _ _ s := s

/-- What a message reaches is one of the messages that are listed. -/
theorem reached_of_list {S : Type} {ev : Events S} {A : S → Prop} {m : Message} {l : List Message} (hm : m ∈ l)
    (h : ∀ m₁ ∈ l, ∀ m₂, Executes ev A m₁ m₂ → m₂ ∈ l) {m' : Message}
    (hreach : ReflTransGen (Executes ev A) m m') : m' ∈ l := by
  induction hreach with
  | refl => exact hm
  | tail _ hstep ih => exact h _ ih _ hstep

/-- A bundle of two messages. -/
def twoMessages : ℤ → Option CStr := Function.update (fun _ => none) 500 (some (lit "BUN:002{101:;102:;}"))

end Veejay.Vims
