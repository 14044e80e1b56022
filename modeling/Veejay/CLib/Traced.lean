import Veejay.CLib.Exec

/-!
# Runs that leave a trace

A piece of C code is embedded together with what it does on the way, such as the places that it looks at: a list of these
and the outcome.  What is done before a fault stays in the trace.

* `Traced` — the trace and the outcome, as a monad;
* `Traced.Meets` — every step of the trace has a property, and the result another one;
* `Traced.Meets.bind` — **the rule for sequences**;
* `runTraced` — a list of operations;
* `runTraced_iff` — **the exact rule for traces**: what exactly the steps of a run need, so that all of its trace has a
  property.
-/

namespace CLib

/-- A run with its trace. -/
structure Traced (τ α : Type) where
  trace : List τ
  result : Exec α

namespace Traced

variable {τ α β σ ο : Type}

/-- One step of the trace, and what it gives. -/
def note (t : τ) (x : Exec α) : Traced τ α := ⟨[t], x⟩

/-- The trace goes on where there is a result. -/
def andThen (x : Traced τ α) (k : α → Traced τ β) : Traced τ β :=
  match x.result with
  | .ok a => ⟨x.trace ++ (k a).trace, (k a).result⟩
  | .error f => ⟨x.trace, .error f⟩

instance : Monad (Traced τ) where
  pure a := ⟨[], .ok a⟩
  bind := andThen

@[simp] theorem pure_trace (a : α) : (pure a : Traced τ α).trace = [] := rfl

@[simp] theorem pure_result (a : α) : (pure a : Traced τ α).result = .ok a := rfl

theorem bind_of_ok {x : Traced τ α} {a : α} (h : x.result = .ok a) (k : α → Traced τ β) :
    x >>= k = ⟨x.trace ++ (k a).trace, (k a).result⟩ := by
  show andThen x k = _
  rw [andThen, h]

theorem bind_of_error {x : Traced τ α} {f : Fault} (h : x.result = .error f) (k : α → Traced τ β) :
    x >>= k = ⟨x.trace, .error f⟩ := by
  show andThen x k = _
  rw [andThen, h]

theorem mem_trace_bind {x : Traced τ α} {t : τ} (h : t ∈ x.trace) (k : α → Traced τ β) : t ∈ (x >>= k).trace := by
  cases hx : x.result with
  | ok a =>
    rw [bind_of_ok hx]
    exact List.mem_append_left _ h
  | error f =>
    rw [bind_of_error hx]
    exact h

/-- All of the trace has the property `Q`, and the result, if there is one, has `P`. -/
structure Meets (x : Traced τ α) (Q : τ → Prop) (P : α → Prop) : Prop where
  trace : ∀ t ∈ x.trace, Q t
  result : ∀ a, x.result = .ok a → P a

variable {Q : τ → Prop} {P : α → Prop} {R : β → Prop}

theorem Meets.pure {a : α} (h : P a) : (pure a : Traced τ α).Meets Q P where
  trace := fun t ht => absurd ht List.not_mem_nil
  result := by
    intro b hb
    obtain rfl := Except.ok.inj hb
    exact h

theorem Meets.note {t : τ} {x : Exec α} (ht : Q t) (hx : ∀ a, x = .ok a → P a) : (note t x).Meets Q P where
  trace := by
    intro u hu
    obtain rfl := List.mem_singleton.mp hu
    exact ht
  result := hx

/-- **Sequencing**: the second part goes on from what the first one gives. -/
theorem Meets.bind {x : Traced τ α} {k : α → Traced τ β} (hx : x.Meets Q P) (hk : ∀ a, P a → (k a).Meets Q R) :
    (x >>= k).Meets Q R := by
  cases h : x.result with
  | ok a =>
    have hnext := hk a (hx.result a h)
    rw [bind_of_ok h]
    refine ⟨fun t ht => ?_, hnext.result⟩
    rcases List.mem_append.mp ht with ht | ht
    · exact hx.trace t ht
    · exact hnext.trace t ht
  | error f =>
    rw [bind_of_error h]
    exact ⟨hx.trace, fun b hb => by cases hb⟩

theorem Meets.mono {x : Traced τ α} {P' : α → Prop} (h : x.Meets Q P) (hP : ∀ a, P a → P' a) : x.Meets Q P' :=
  ⟨h.trace, fun a ha => hP a (h.result a ha)⟩

/-- There is a result. -/
def Returns (x : Traced τ α) : Prop := ∃ a, x.result = .ok a

theorem returns_pure (a : α) : (pure a : Traced τ α).Returns := ⟨a, rfl⟩

theorem Returns.bind {x : Traced τ α} {k : α → Traced τ β} (hx : x.Returns)
    (hk : ∀ a, x.result = .ok a → (k a).Returns) : (x >>= k).Returns := by
  obtain ⟨a, ha⟩ := hx
  rw [bind_of_ok ha]
  exact hk a ha

/-- What the second part does is in the trace, if the first one returns. -/
theorem Returns.mem_trace_bind {x : Traced τ α} {k : α → Traced τ β} {t : τ} (hx : x.Returns)
    (ht : ∀ a, x.result = .ok a → t ∈ (k a).trace) : t ∈ (x >>= k).trace := by
  obtain ⟨a, ha⟩ := hx
  rw [bind_of_ok ha]
  exact List.mem_append_right _ (ht a ha)

/-! ## Runs -/

/-- One operation after the other. -/
def runTraced (step : σ → ο → Traced τ σ) : σ → List ο → Traced τ σ
  | s, [] => pure s
  | s, o :: os => step s o >>= fun s' => runTraced step s' os

/-- The outcome of one operation. -/
def stepResult (step : σ → ο → Traced τ σ) (s : σ) (o : ο) : Exec (Unit × σ) := do
  let s' ← (step s o).result
  .ok ((), s')

theorem stepResult_ok {step : σ → ο → Traced τ σ} {s s' : σ} {o : ο} {u : Unit}
    (h : stepResult step s o = .ok (u, s')) : (step s o).result = .ok s' := by
  obtain ⟨s₁, hs₁, hpair⟩ := bind_eq_ok.mp h
  obtain ⟨-, rfl⟩ := Prod.mk.inj (Except.ok.inj hpair)
  exact hs₁

/-- **The exact rule for traces.**  Where operations that meet `Ok` keep the invariant, and one operation leaves a good
trace exactly if it meets `Ok`, a run leaves a good trace exactly if all of its operations meet `Ok`. -/
theorem runTraced_iff {step : σ → ο → Traced τ σ} {Ok : σ → ο → Prop} {Inv : σ → Prop}
    (hstep : ∀ s o, Inv s → ((∀ t ∈ (step s o).trace, Q t) ↔ Ok s o))
    (hinv : ∀ s o s', Inv s → Ok s o → (step s o).result = .ok s' → Inv s') :
    ∀ (os : List ο) (s : σ), Inv s →
      ((∀ t ∈ (runTraced step s os).trace, Q t) ↔ RunMeets (stepResult step) Ok s os) := by
  intro os
  induction os with
  | nil => exact fun s _ => iff_of_true (fun t ht => absurd ht List.not_mem_nil) trivial
  | cons o os ih =>
    intro s hs
    show (∀ t ∈ (step s o >>= fun s' => runTraced step s' os).trace, Q t) ↔
      Ok s o ∧ ∀ u s', stepResult step s o = .ok (u, s') → RunMeets (stepResult step) Ok s' os
    constructor
    · intro h
      have hok := (hstep s o hs).mp fun t ht => h t (mem_trace_bind ht _)
      refine ⟨hok, fun u s' hs' => ?_⟩
      have hres := stepResult_ok hs'
      refine (ih s' (hinv s o s' hs hok hres)).mp fun t ht => h t ?_
      rw [bind_of_ok hres]
      exact List.mem_append_right _ ht
    · rintro ⟨hok, hrest⟩
      have htrace := (hstep s o hs).mpr hok
      have hafter : (step s o >>= fun s' => runTraced step s' os).Meets Q fun _ => True := by
        refine Meets.bind (P := fun s' => (step s o).result = .ok s') ⟨htrace, fun a ha => ha⟩ fun s' hs' => ?_
        have hmeets := hrest () s' (by rw [stepResult, hs', ok_bind])
        exact ⟨(ih s' (hinv s o s' hs hok hs')).mpr hmeets, fun _ _ => trivial⟩
      exact hafter.trace

end Traced

end CLib
