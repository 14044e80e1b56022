import Mathlib

/-!
# Runs of C code: results, faults and invariants

A C function is embedded as a total Lean function into `Exec`: it either returns a value or stops at
the first step that leaves what the language defines.  Nothing is assumed of a program after a fault,
so the postcondition `Ensures` asks for a result *and* for the property of it.

* `Ensures` — partial results do not count: the run returns and its result satisfies the property;
* `runOps` — a client issuing a list of operations, with the answers it sees;
* `RunMeets` — a side condition on every operation of a run, read at the state it is issued in;
* `runOps_ensures` — **the invariant rule**: what one step keeps, every run keeps;
* `runOps_ok_iff` — a run returns exactly if every step of it does;
* `runOps_shows` — the invariant rule for what each step answers and leaves;
* `runOps_reaches` — the invariant rule for the states that a run reaches;
* `runOps_answers` — what every step answers, and the answers of a run;
* `runOps_refines` — **the refinement rule**: a run keeps the state related to its history;
* `runOps_refines_iff` — **the exact refinement rule**: what exactly a run needs for that;
* `runOps_keeps_iff` — **the exact invariant rule**: what exactly a run needs to keep an invariant;
* `runOps_agree` — **the simulation rule**: two implementations related by a simulation relation give
  one and the same list of answers;
* `runOps_agree_of_meets` — the simulation rule, with a condition on the states.
-/

namespace CLib

/-- The ways in which a C program leaves what the language defines. -/
inductive Fault where
  | outOfBounds
  | overrun
  | nullPointer
  | uninitialised
  | useAfterFree
  | wildPointer
  | overflow
  | outOfFuel
  deriving DecidableEq, Repr

/-- The outcome of running a piece of C code. -/
abbrev Exec (α : Type) := Except Fault α

variable {α β : Type}

/-- The run returns, and what it returns satisfies `P`. -/
def Ensures (x : Exec α) (P : α → Prop) : Prop := ∃ a, x = .ok a ∧ P a

@[simp] theorem ensures_ok (a : α) (P : α → Prop) : Ensures (.ok a) P ↔ P a := by
  simp [Ensures]

@[simp] theorem ensures_pure (a : α) (P : α → Prop) : Ensures (pure a) P ↔ P a :=
  ensures_ok a P

@[simp] theorem ensures_error (f : Fault) (P : α → Prop) : ¬ Ensures (.error f : Exec α) P := by
  simp [Ensures]

/-- Sequencing: the second part runs from what the first one returns. -/
@[simp] theorem ensures_bind (x : Exec α) (k : α → Exec β) (P : β → Prop) :
    Ensures (x >>= k) P ↔ Ensures x fun a => Ensures (k a) P := by
  cases x with
  | error f => simp [Ensures, bind, Except.bind]
  | ok a => simp [Ensures, bind, Except.bind]

theorem Ensures.mono {x : Exec α} {P Q : α → Prop} (h : Ensures x P) (hPQ : ∀ a, P a → Q a) :
    Ensures x Q := by
  obtain ⟨a, hx, ha⟩ := h
  exact ⟨a, hx, hPQ a ha⟩

/-- A returned value is *the* returned value. -/
theorem Ensures.apply {x : Exec α} {P : α → Prop} (h : Ensures x P) {a : α} (hx : x = .ok a) :
    P a := by
  obtain ⟨b, hb, hP⟩ := h
  obtain rfl : b = a := by simpa [hb] using hx
  exact hP

theorem bind_eq_ok {x : Exec α} {k : α → Exec β} {b : β} :
    (x >>= k) = .ok b ↔ ∃ a, x = .ok a ∧ k a = .ok b := by
  cases x <;> simp [bind, Except.bind]

@[simp] theorem ok_bind (a : α) (k : α → Exec β) : ((.ok a : Exec α) >>= k) = k a := rfl

@[simp] theorem error_bind (f : Fault) (k : α → Exec β) :
    ((.error f : Exec α) >>= k) = .error f := rfl

/-- The run comes to an end, be it with a result or at a fault. -/
def Halts (x : Exec α) : Prop := x ≠ .error .outOfFuel

theorem halts_ok (a : α) : Halts (.ok a) := fun h => by cases h

theorem halts_error {f : Fault} (hf : f ≠ .outOfFuel) : Halts (.error f : Exec α) :=
  fun h => hf (Except.error.inj h)

theorem Halts.bind {x : Exec α} {k : α → Exec β} (hx : Halts x) (hk : ∀ a, Halts (k a)) :
    Halts (x >>= k) := by
  cases x with
  | error f => exact fun h => hx (by cases h; rfl)
  | ok a => exact hk a

/-- The only fault that can happen is a read outside an object. -/
def ReadsOnly (x : Exec α) : Prop := ∀ f, x = .error f → f = .outOfBounds

theorem readsOnly_ok (a : α) : ReadsOnly (.ok a) := fun f h => by cases h

theorem readsOnly_error : ReadsOnly (.error .outOfBounds : Exec α) :=
  fun _ h => (Except.error.inj h).symm

theorem ReadsOnly.bind {x : Exec α} {k : α → Exec β} (hx : ReadsOnly x) (hk : ∀ a, ReadsOnly (k a)) :
    ReadsOnly (x >>= k) := by
  cases x with
  | error f => exact fun g h => hx g (by cases h; rfl)
  | ok a => exact hk a

theorem ReadsOnly.halts {x : Exec α} (h : ReadsOnly x) : Halts x := by
  intro hx
  cases h _ hx

/-- What does not read outside an object returns. -/
theorem ReadsOnly.returns {x : Exec α} (h : ReadsOnly x) (hx : x ≠ .error .outOfBounds) :
    ∃ a, x = .ok a := by
  cases x with
  | error f => exact absurd (congrArg Except.error (h f rfl)) hx
  | ok a => exact ⟨a, rfl⟩

/-! ## Runs of a list of operations -/

section Run

variable {σ τ ο ρ : Type}

/-- A client issuing the operations one after the other, collecting the answers. -/
def runOps (step : σ → ο → Exec (ρ × σ)) : σ → List ο → Exec (List ρ × σ)
  | s, [] => .ok ([], s)
  | s, o :: os => do
      let a ← step s o
      let rest ← runOps step a.2 os
      .ok (a.1 :: rest.1, rest.2)

/-- Every operation of the run meets `Ok` in the state it is issued in. -/
def RunMeets (step : σ → ο → Exec (ρ × σ)) (Ok : σ → ο → Prop) : σ → List ο → Prop
  | _, [] => True
  | s, o :: os => Ok s o ∧ ∀ r s', step s o = .ok (r, s') → RunMeets step Ok s' os

theorem RunMeets.cons {step : σ → ο → Exec (ρ × σ)} {Ok : σ → ο → Prop} {s s' : σ} {o : ο} {r : ρ}
    {os : List ο} (hok : Ok s o) (hstep : step s o = .ok (r, s')) (hrest : RunMeets step Ok s' os) :
    RunMeets step Ok s (o :: os) := by
  refine ⟨hok, fun r₁ s₁ hr => ?_⟩
  obtain ⟨-, rfl⟩ := Prod.mk.inj (Except.ok.inj (hstep.symm.trans hr))
  exact hrest

theorem RunMeets.of_forall {step : σ → ο → Exec (ρ × σ)} {Ok : σ → ο → Prop} (h : ∀ s o, Ok s o) :
    ∀ (os : List ο) (s : σ), RunMeets step Ok s os
  | [], _ => trivial
  | o :: os, s => ⟨h s o, fun _ s' _ => RunMeets.of_forall h os s'⟩

/-- Operations that meet `Ok` in every state. -/
theorem RunMeets.of_mem {step : σ → ο → Exec (ρ × σ)} {Ok : σ → ο → Prop} :
    ∀ {os : List ο} {s : σ}, (∀ o ∈ os, ∀ s, Ok s o) → RunMeets step Ok s os
  | [], _, _ => trivial
  | o :: _, s, h => ⟨h o List.mem_cons_self s, fun _ _ _ => RunMeets.of_mem fun o' ho' => h o' (List.mem_cons_of_mem o ho')⟩

/-- **The invariant rule.**  If every operation that meets `Ok` returns and keeps `Inv`, then so does
every run all of whose operations meet `Ok`. -/
theorem runOps_ensures {step : σ → ο → Exec (ρ × σ)} {Ok : σ → ο → Prop} {Inv : σ → Prop}
    (hstep : ∀ s o, Inv s → Ok s o → Ensures (step s o) fun a => Inv a.2) :
    ∀ (os : List ο) (s : σ), Inv s → RunMeets step Ok s os →
      Ensures (runOps step s os) fun a => Inv a.2 := by
  intro os
  induction os with
  | nil => intro s hs _; simpa [runOps] using hs
  | cons o os ih =>
    intro s hs hmeets
    obtain ⟨hok, hrest⟩ := hmeets
    obtain ⟨⟨r, s'⟩, hr, hs'⟩ := hstep s o hs hok
    have hrun := ih s' hs' (hrest r s' hr)
    simp only [runOps, hr, ok_bind, ensures_bind, ensures_ok]
    exact hrun

/-- **A run returns** exactly if every step of it does. -/
theorem runOps_ok_iff {step : σ → ο → Exec (ρ × σ)} {Ok : σ → ο → Prop} {Form : ο → Prop}
    (hstep : ∀ s o, Form o → ((∃ a, step s o = .ok a) ↔ Ok s o)) :
    ∀ (os : List ο) (s : σ), (∀ o ∈ os, Form o) →
      ((Ensures (runOps step s os) fun _ => True) ↔ RunMeets step Ok s os) := by
  intro os
  induction os with
  | nil => exact fun s _ => ⟨fun _ => trivial, fun _ => ⟨([], s), rfl, trivial⟩⟩
  | cons o os ih =>
    intro s hform
    rw [List.forall_mem_cons] at hform
    simp only [runOps, ensures_bind, ensures_ok]
    constructor
    · rintro ⟨⟨r, s'⟩, hr, hrest⟩
      refine ⟨(hstep s o hform.1).mp ⟨_, hr⟩, fun r' s'' hr' => ?_⟩
      obtain ⟨-, rfl⟩ := Prod.mk.inj (Except.ok.inj (hr.symm.trans hr'))
      exact (ih s' hform.2).mp hrest
    · rintro ⟨hok, hrest⟩
      obtain ⟨⟨r, s'⟩, hr⟩ := (hstep s o hform.1).mpr hok
      exact ⟨(r, s'), hr, (ih s' hform.2).mpr (hrest r s' hr)⟩

/-- Every operation of the run returns, and what it answers and leaves meets `P`. -/
def RunShows (step : σ → ο → Exec (ρ × σ)) (P : σ → ο → ρ → σ → Prop) : σ → List ο → Prop
  | _, [] => True
  | s, o :: os => ∃ r s', step s o = .ok (r, s') ∧ P s o r s' ∧ RunShows step P s' os

/-- **The invariant rule, step by step.**  If every operation that meets `Ok` returns, keeps `Inv` and shows `P`,
then so does every operation of a run all of whose operations meet `Ok`. -/
theorem runOps_shows {step : σ → ο → Exec (ρ × σ)} {Ok : σ → ο → Prop} {Inv : σ → Prop}
    {P : σ → ο → ρ → σ → Prop}
    (hstep : ∀ s o, Inv s → Ok s o → ∃ r s', step s o = .ok (r, s') ∧ Inv s' ∧ P s o r s') :
    ∀ (os : List ο) (s : σ), Inv s → RunMeets step Ok s os → RunShows step P s os := by
  intro os
  induction os with
  | nil => exact fun _ _ _ => trivial
  | cons o os ih =>
    intro s hs hmeets
    obtain ⟨hok, hrest⟩ := hmeets
    obtain ⟨r, s', hr, hs', hp⟩ := hstep s o hs hok
    exact ⟨r, s', hr, hp, ih s' hs' (hrest r s' hr)⟩

/-- What holds in every state of a run holds in the last one. -/
theorem RunShows.last {step : σ → ο → Exec (ρ × σ)} {Inv : σ → Prop} {os : List ο} :
    ∀ {s : σ}, RunShows step (fun _ _ _ s => Inv s) s os → Inv s → Ensures (runOps step s os) fun a => Inv a.2 := by
  induction os with
  | nil => exact fun _ hs => ⟨([], _), rfl, hs⟩
  | cons o os ih =>
    intro s hrun _
    obtain ⟨r, s', hr, hs', hrest⟩ := hrun
    simp only [runOps, hr, ok_bind, ensures_bind, ensures_ok]
    exact ih hrest hs'

/-- **The invariant rule, for what runs reach.**  Where an operation that meets `Ok` may also stop at a fault, its
states meet `P` if it returns: then so do the states that a run reaches by operations that meet `Ok`. -/
theorem runOps_reaches {step : σ → ο → Exec (ρ × σ)} {Ok : σ → ο → Prop} {Base P : σ → Prop}
    (hstep : ∀ s o r s', Base s → Ok s o → step s o = .ok (r, s') → Base s' ∧ P s') :
    ∀ (os : List ο) (s : σ), Base s → RunMeets step Ok s os →
      ∀ done, done ≠ [] → done <+: os → ∀ a, runOps step s done = .ok a → P a.2 := by
  intro os
  induction os with
  | nil => exact fun _ _ _ done hne hpre => absurd (List.prefix_nil.mp hpre) hne
  | cons o os ih =>
    intro s hs hmeets done hne hpre a ha
    obtain ⟨hok, hrest⟩ := hmeets
    cases done with
    | nil => exact absurd rfl hne
    | cons o' done =>
      obtain ⟨rfl, htail⟩ := List.cons_prefix_cons.mp hpre
      obtain ⟨⟨r, s'⟩, hr, hrun⟩ := bind_eq_ok.mp ha
      obtain ⟨hs', hp⟩ := hstep s o' r s' hs hok hr
      obtain ⟨b, hb, hret⟩ := bind_eq_ok.mp hrun
      obtain rfl := Except.ok.inj hret
      cases done with
      | nil =>
        obtain rfl := Except.ok.inj hb
        exact hp
      | cons o'' done => exact ih s' hs' (hrest r s' hr) _ (List.cons_ne_nil _ _) htail b hb

/-- **The exact rule for answers.**  If `Ok` is exactly what an operation needs to answer what meets `Q`, in
states that meet `Base`, then all answers of a run meet `Q` exactly if all its operations meet `Ok`. -/
theorem runOps_answers_iff {step : σ → ο → Exec (ρ × σ)} {Ok : σ → ο → Prop} {Base : σ → Prop} {Q : ρ → Prop}
    (hstep : ∀ s o, Base s → ∃ r s', step s o = .ok (r, s') ∧ Base s' ∧ (Q r ↔ Ok s o))
    {s : σ} (hs : Base s) (os : List ο) :
    (Ensures (runOps step s os) fun a => ∀ r ∈ a.1, Q r) ↔ RunMeets step Ok s os := by
  induction os generalizing s with
  | nil => exact ⟨fun _ => trivial, fun _ => ⟨([], s), rfl, fun r hr => absurd hr List.not_mem_nil⟩⟩
  | cons o os ih =>
    obtain ⟨r, s', hr, hs', hiff⟩ := hstep s o hs
    simp only [runOps, hr, ok_bind, ensures_bind, ensures_ok, List.forall_mem_cons]
    constructor
    · intro h
      obtain ⟨a, ha, hq, hqs⟩ := h
      exact RunMeets.cons (hiff.mp hq) hr ((ih hs').mp ⟨a, ha, hqs⟩)
    · rintro ⟨hok, hrest⟩
      exact ((ih hs').mpr (hrest r s' hr)).mono fun a ha => ⟨hiff.mpr hok, ha⟩

/-- **The answers of a run.**  If every operation that meets `Ok` returns an answer that meets `Q`, and keeps
`Inv`, then a run of such operations returns one answer for each, and all of them meet `Q`. -/
theorem runOps_answers {step : σ → ο → Exec (ρ × σ)} {Ok : ο → Prop} {Inv : σ → Prop} {Q : ο → ρ → Prop}
    (hstep : ∀ s o, Inv s → Ok o → Ensures (step s o) fun a => Q o a.1 ∧ Inv a.2) :
    ∀ (os : List ο) (s : σ), Inv s → (∀ o ∈ os, Ok o) →
      Ensures (runOps step s os) fun a => List.Forall₂ Q os a.1 ∧ Inv a.2 := by
  intro os
  induction os with
  | nil =>
    intro s hs _
    exact ⟨([], s), rfl, .nil, hs⟩
  | cons o os ih =>
    intro s hs hok
    obtain ⟨⟨r, s'⟩, hr, hq, hs'⟩ := hstep s o hs (hok o List.mem_cons_self)
    obtain ⟨⟨rs, t⟩, hrs, hqs, ht⟩ := ih s' hs' fun o' ho' => hok o' (List.mem_cons_of_mem o ho')
    refine ⟨(r :: rs, t), ?_, .cons hq hqs, ht⟩
    rw [runOps, hr, ok_bind, hrs, ok_bind]

/-- The first part of a run meets the side condition of the whole run. -/
theorem RunMeets.of_append {step : σ → ο → Exec (ρ × σ)} {Ok : σ → ο → Prop} {os os' : List ο} :
    ∀ {s : σ}, RunMeets step Ok s (os ++ os') → RunMeets step Ok s os := by
  induction os with
  | nil => exact fun _ => trivial
  | cons o os ih => exact fun h => ⟨h.1, fun r s' hr => ih (h.2 r s' hr)⟩

/-- A condition on the operations alone is read off the list of them. -/
theorem RunMeets.and_of_mem {step : σ → ο → Exec (ρ × σ)} {Ok : σ → ο → Prop} {P : ο → Prop} :
    ∀ {os : List ο} {s : σ}, RunMeets step Ok s os → (∀ o ∈ os, P o) →
      RunMeets step (fun s o => P o ∧ Ok s o) s os
  | [], _, _, _ => trivial
  | o :: _, _, h, hP =>
    ⟨⟨hP o List.mem_cons_self, h.1⟩,
      fun r s' hr => (h.2 r s' hr).and_of_mem fun o' ho' => hP o' (List.mem_cons_of_mem o ho')⟩

/-- Two outcomes a client cannot tell apart: equal answers, or the same fault. -/
def SameAnswer (x : Exec (ρ × σ)) (y : Exec (ρ × τ)) : Prop :=
  x.map Prod.fst = y.map Prod.fst

/-- One step of a simulation: the same answer and related states, or the same fault on both sides. -/
def StepAgrees (R : σ → τ → Prop) (x : Exec (ρ × σ)) (y : Exec (ρ × τ)) : Prop :=
  (∃ r s t, x = .ok (r, s) ∧ y = .ok (r, t) ∧ R s t) ∨ ∃ f, x = .error f ∧ y = .error f

/-! ### Runs and their histories

A history is summed up by a fold: `note` says what one more operation adds to it. -/

variable {μ : Type}

/-- Every operation of the run meets `Ok` after the history before it. -/
def HistoryMeets (note : μ → ο → μ) (Ok : μ → ο → Prop) : μ → List ο → Prop
  | _, [] => True
  | m, o :: os => Ok m o ∧ HistoryMeets note Ok (note m o) os

theorem historyMeets_of_forall {note : μ → ο → μ} {Ok : μ → ο → Prop} (h : ∀ m o, Ok m o) :
    ∀ (os : List ο) (m : μ), HistoryMeets note Ok m os
  | [], _ => trivial
  | o :: os, m => ⟨h m o, historyMeets_of_forall h os (note m o)⟩

/-- A condition on the operations alone is read off the list of them. -/
theorem HistoryMeets.and_of_mem {note : μ → ο → μ} {Ok : μ → ο → Prop} {P : ο → Prop} :
    ∀ {os : List ο} {m : μ}, HistoryMeets note Ok m os → (∀ o ∈ os, P o) →
      HistoryMeets note (fun m o => P o ∧ Ok m o) m os
  | [], _, _, _ => trivial
  | o :: _, _, h, hP =>
    ⟨⟨hP o List.mem_cons_self, h.1⟩, h.2.and_of_mem fun o' ho' => hP o' (List.mem_cons_of_mem o ho')⟩

/-- **The refinement rule.**  If every operation that meets `Ok` returns and keeps the state related to
the history, then so does every run. -/
theorem runOps_refines {step : σ → ο → Exec (ρ × σ)} {note : μ → ο → μ} {Ok : μ → ο → Prop}
    {R : σ → μ → Prop}
    (hstep : ∀ s m o, R s m → Ok m o → Ensures (step s o) fun a => R a.2 (note m o)) :
    ∀ (os : List ο) (s : σ) (m : μ), R s m → HistoryMeets note Ok m os →
      Ensures (runOps step s os) fun a => R a.2 (os.foldl note m) := by
  intro os
  induction os with
  | nil => intro s m hR _; simpa [runOps] using hR
  | cons o os ih =>
    intro s m hR hmeets
    obtain ⟨hok, hrest⟩ := hmeets
    obtain ⟨⟨r, s'⟩, hr, hR'⟩ := hstep s m o hR hok
    have hrun := ih s' (note m o) hR' hrest
    simp only [runOps, hr, ok_bind, ensures_bind, ensures_ok]
    exact hrun

/-- **The exact refinement rule.**  `R` relates the states of a run to its history and gives `P`.  If `Ok` is enough
for an operation to return and to keep `R`, and needed for it to leave `P`, then `P` holds in every state of a run,
and the run returns, exactly if all its operations meet `Ok`. -/
theorem runOps_refines_iff (note : μ → ο → μ) {step : σ → ο → Exec (ρ × σ)} {Ok : σ → ο → Prop}
    {R P : σ → μ → Prop} (hshows : ∀ s m, R s m → P s m)
    (hkeep : ∀ s m o, R s m → Ok s o → Ensures (step s o) fun a => R a.2 (note m o))
    (hneed : ∀ s m o, R s m → (Ensures (step s o) fun a => P a.2 (note m o)) → Ok s o)
    {s : σ} {m : μ} (hR : R s m) (os : List ο) :
    (∀ pre, pre <+: os → Ensures (runOps step s pre) fun a => P a.2 (pre.foldl note m)) ↔
      RunMeets step Ok s os := by
  induction os generalizing s m with
  | nil =>
    refine ⟨fun _ => trivial, fun _ pre hpre => ?_⟩
    obtain rfl := List.prefix_nil.mp hpre
    exact ⟨([], s), rfl, hshows s m hR⟩
  | cons o os ih =>
    constructor
    · intro h
      have hone : Ensures (step s o) fun a => P a.2 (note m o) := by
        have hrun := h [o] ((List.prefix_cons_inj o).mpr List.nil_prefix)
        simpa only [runOps, ok_bind, ensures_bind, ensures_ok, List.foldl_cons, List.foldl_nil] using hrun
      have hok := hneed s m o hR hone
      obtain ⟨⟨r, s'⟩, hr, hR'⟩ := hkeep s m o hR hok
      refine RunMeets.cons hok hr ((ih hR').mp fun pre hpre => ?_)
      have hrun := h (o :: pre) ((List.prefix_cons_inj o).mpr hpre)
      simpa only [runOps, hr, ok_bind, ensures_bind, ensures_ok, List.foldl_cons] using hrun
    · rintro ⟨hok, hrest⟩ pre hpre
      cases pre with
      | nil => exact ⟨([], s), rfl, hshows s m hR⟩
      | cons o' pre =>
        obtain ⟨rfl, hrest'⟩ := List.cons_prefix_cons.mp hpre
        obtain ⟨⟨r, s'⟩, hr, hR'⟩ := hkeep s m o' hR hok
        have hrun := (ih hR').mpr (hrest r s' hr) pre hrest'
        simpa only [runOps, hr, ok_bind, ensures_bind, ensures_ok, List.foldl_cons] using hrun

/-- **The exact invariant rule.**  If `Ok` is exactly what an operation needs to keep `Inv`, where `Base` is kept
anyway, then a run keeps `Inv` in every state it reaches exactly if all its operations meet `Ok`. -/
theorem runOps_keeps_iff {step : σ → ο → Exec (ρ × σ)} {Ok : σ → ο → Prop} {Base Inv : σ → Prop}
    (hstep : ∀ s o, Base s → Inv s → ∃ r s', step s o = .ok (r, s') ∧ Base s' ∧ (Inv s' ↔ Ok s o))
    {s : σ} (hbase : Base s) (hs : Inv s) (os : List ο) :
    (∀ pre, pre <+: os → Ensures (runOps step s pre) fun a => Inv a.2) ↔ RunMeets step Ok s os := by
  have hshows : ∀ s (_ : Unit), Base s ∧ Inv s → Inv s := fun _ _ h => h.2
  refine runOps_refines_iff (fun m _ => m) hshows (fun s m o hR hok => ?_) (fun s m o hR hens => ?_) (m := ())
    ⟨hbase, hs⟩ os
  · obtain ⟨r, s', hr, hbase', hiff⟩ := hstep s o hR.1 hR.2
    exact ⟨(r, s'), hr, hbase', hiff.mpr hok⟩
  · obtain ⟨r, s', hr, -, hiff⟩ := hstep s o hR.1 hR.2
    exact hiff.mp (hens.apply hr)

/-- Two readers that give one answer and leave related states behind. -/
theorem StepAgrees.of_answer {R : σ → τ → Prop} {s : σ} {t : τ} (hR : R s t) (x : Exec α)
    (answer : α → ρ) :
    StepAgrees R (x >>= fun a => .ok (answer a, s)) (x >>= fun a => .ok (answer a, t)) := by
  cases x with
  | error f => exact Or.inr ⟨f, rfl, rfl⟩
  | ok a => exact Or.inl ⟨answer a, s, t, rfl, rfl, hR⟩

/-- One more operation that is answered the same. -/
theorem SameAnswer.cons {stepA : σ → ο → Exec (ρ × σ)} {stepB : τ → ο → Exec (ρ × τ)} {s s' : σ} {t t' : τ} {o : ο}
    {r : ρ} {os : List ο} (hA : stepA s o = .ok (r, s')) (hB : stepB t o = .ok (r, t'))
    (hrest : SameAnswer (runOps stepA s' os) (runOps stepB t' os)) :
    SameAnswer (runOps stepA s (o :: os)) (runOps stepB t (o :: os)) := by
  simp only [SameAnswer, runOps, hA, hB, ok_bind] at hrest ⊢
  cases hx : runOps stepA s' os with
  | error f =>
    cases hy : runOps stepB t' os with
    | error g => simpa [hx, hy, Except.map] using hrest
    | ok b => simp [hx, hy, Except.map] at hrest
  | ok a =>
    cases hy : runOps stepB t' os with
    | error g => simp [hx, hy, Except.map] at hrest
    | ok b => simpa [hx, hy, Except.map] using hrest

/-- **The simulation rule.**  If every operation that meets `Ok` agrees on related states, then a run
all of whose operations meet `Ok` gives the same answers on both sides. -/
theorem runOps_agree {stepA : σ → ο → Exec (ρ × σ)} {stepB : τ → ο → Exec (ρ × τ)}
    {note : μ → ο → μ} {Ok : μ → ο → Prop} {R : μ → σ → τ → Prop}
    (hstep : ∀ m s t o, R m s t → Ok m o → StepAgrees (R (note m o)) (stepA s o) (stepB t o)) :
    ∀ (os : List ο) (m : μ) (s : σ) (t : τ), R m s t → HistoryMeets note Ok m os →
      SameAnswer (runOps stepA s os) (runOps stepB t os) := by
  intro os
  induction os with
  | nil => intro m s t _ _; rfl
  | cons o os ih =>
    intro m s t hR hmeets
    obtain ⟨hok, hrest⟩ := hmeets
    rcases hstep m s t o hR hok with ⟨r, s', t', hA, hB, hR'⟩ | ⟨f, hA, hB⟩
    · exact SameAnswer.cons hA hB (ih (note m o) s' t' hR' hrest)
    · simp [SameAnswer, runOps, hA, hB, Except.map]

/-- **The simulation rule, with a condition on the states.**  If every operation that meets `Ok` agrees on related
states, then a run all of whose operations meet `Ok` in the states of the first implementation gives the same
answers on both sides. -/
theorem runOps_agree_of_meets {stepA : σ → ο → Exec (ρ × σ)} {stepB : τ → ο → Exec (ρ × τ)} {Ok : σ → ο → Prop}
    {R : σ → τ → Prop} (hstep : ∀ s t o, R s t → Ok s o → StepAgrees R (stepA s o) (stepB t o)) :
    ∀ (os : List ο) (s : σ) (t : τ), R s t → RunMeets stepA Ok s os →
      SameAnswer (runOps stepA s os) (runOps stepB t os) := by
  intro os
  induction os with
  | nil => intro s t _ _; rfl
  | cons o os ih =>
    intro s t hR hmeets
    obtain ⟨hok, hrest⟩ := hmeets
    rcases hstep s t o hR hok with ⟨r, s', t', hA, hB, hR'⟩ | ⟨f, hA, hB⟩
    · exact SameAnswer.cons hA hB (ih s' t' hR' (hrest r s' hA))
    · simp [SameAnswer, runOps, hA, hB, Except.map]

end Run

end CLib
