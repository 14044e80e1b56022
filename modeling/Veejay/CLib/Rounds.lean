import Veejay.CLib.Exec

/-!
# Loops that return from their body

`while (cond) { … return r; … } return exit;`: a round of the loop either goes on with a new state or
leaves the function.  As in `whileLoop`, a bound on the number of rounds stands for the termination
argument.

* `Visits` — the states in which the loop begins a round, from where it was started;
* `roundLoop_ne_error_iff` — **the safety rule**: the loop stops at no fault of a kind exactly if none of
  its rounds does;
* `roundLoop_congr` — **the congruence rule**: only the rounds of visited states matter;
* `roundLoop_terminates` — **the progress rule**: a variant that every round lowers bounds the rounds.
-/

namespace CLib

/-- The outcome of a round. -/
inductive Round (σ ρ : Type) where
  | again (s : σ)
  | leave (r : ρ)

section Rounds

variable {σ ρ : Type}

/-- `while (cond) round; return exit;`, for at most `fuel` rounds. -/
def roundLoop (cond : σ → Bool) (round : σ → Exec (Round σ ρ)) (exit : σ → ρ) : ℕ → σ → Exec ρ
  | 0, s => if cond s then .error .outOfFuel else .ok (exit s)
  | fuel + 1, s =>
    if cond s then do
      match (← round s) with
      | .again s' => roundLoop cond round exit fuel s'
      | .leave r => .ok r
    else .ok (exit s)

/-- The states the loop comes to. -/
inductive Visits (cond : σ → Bool) (round : σ → Exec (Round σ ρ)) (s : σ) : σ → Prop
  | first : Visits cond round s s
  | next {t t' : σ} (ht : Visits cond round s t) (hc : cond t = true)
      (hr : round t = .ok (.again t')) : Visits cond round s t'

variable {cond : σ → Bool} {round : σ → Exec (Round σ ρ)} {exit : σ → ρ} {s s' t : σ}

theorem Visits.of_again (hc : cond s = true) (hr : round s = .ok (.again s'))
    (ht : Visits cond round s' t) : Visits cond round s t := by
  induction ht with
  | first => exact .next .first hc hr
  | next _ hc' hr' ih => exact .next ih hc' hr'

/-- A property that every round keeps holds wherever the loop comes to. -/
theorem Visits.invariant (ht : Visits cond round s t) (Inv : σ → Prop) (hs : Inv s)
    (hkeep : ∀ t t', Inv t → cond t = true → round t = .ok (.again t') → Inv t') : Inv t := by
  induction ht with
  | first => exact hs
  | next _ hc hr ih => exact hkeep _ _ ih hc hr

/-- A loop of one round. -/
theorem Visits.once (hr : round s = .ok (.again s')) (hs' : cond s' = false)
    (ht : Visits cond round s t) (hc : cond t = true) : t = s := by
  have hcases : t = s ∨ t = s' := by
    refine ht.invariant (fun t => t = s ∨ t = s') (Or.inl rfl) fun u u' hu hcu hru => ?_
    rcases hu with rfl | rfl
    · obtain rfl := Round.again.inj (Except.ok.inj (hr.symm.trans hru))
      exact Or.inr rfl
    · rw [hs'] at hcu
      cases hcu
  rcases hcases with rfl | rfl
  · rfl
  · rw [hs'] at hc
    cases hc

theorem roundLoop_exit (h : cond s = false) (fuel : ℕ) :
    roundLoop cond round exit fuel s = .ok (exit s) := by
  cases fuel <;> simp [roundLoop, h]

theorem roundLoop_leave (hc : cond s = true) {r : ρ} (hr : round s = .ok (.leave r)) (fuel : ℕ) :
    roundLoop cond round exit (fuel + 1) s = .ok r := by
  rw [roundLoop, if_pos hc, hr]
  rfl

theorem roundLoop_again (hc : cond s = true) (hr : round s = .ok (.again s')) (fuel : ℕ) :
    roundLoop cond round exit (fuel + 1) s = roundLoop cond round exit fuel s' := by
  rw [roundLoop, if_pos hc, hr]
  rfl

theorem roundLoop_error (hc : cond s = true) {f : Fault} (hr : round s = .error f) (fuel : ℕ) :
    roundLoop cond round exit (fuel + 1) s = .error f := by
  rw [roundLoop, if_pos hc, hr]
  rfl

/-- What the loop stopped with: its condition, a round that left, or a round that failed. -/
theorem roundLoop_stops {fuel : ℕ} {x : Exec ρ} (h : roundLoop cond round exit fuel s = x)
    (hx : x ≠ .error .outOfFuel) :
    ∃ t, Visits cond round s t ∧
      ((cond t = false ∧ x = .ok (exit t)) ∨
        (cond t = true ∧ ((∃ r, round t = .ok (.leave r) ∧ x = .ok r) ∨
          ∃ f, round t = .error f ∧ x = .error f))) := by
  induction fuel generalizing s with
  | zero =>
    cases hc : cond s with
    | false => exact ⟨s, .first, Or.inl ⟨hc, by rw [← h, roundLoop_exit hc]⟩⟩
    | true => exact absurd (by rw [← h, roundLoop, if_pos hc]) hx
  | succ fuel ih =>
    cases hc : cond s with
    | false => exact ⟨s, .first, Or.inl ⟨hc, by rw [← h, roundLoop_exit hc]⟩⟩
    | true =>
      cases hr : round s with
      | error f => exact ⟨s, .first, Or.inr ⟨hc, Or.inr ⟨f, hr, by rw [← h, roundLoop_error hc hr]⟩⟩⟩
      | ok a =>
        cases a with
        | leave r => exact ⟨s, .first, Or.inr ⟨hc, Or.inl ⟨r, hr, by rw [← h, roundLoop_leave hc hr]⟩⟩⟩
        | again s' =>
          rw [roundLoop_again hc hr] at h
          obtain ⟨t, ht, hstop⟩ := ih h
          exact ⟨t, ht.of_again hc hr, hstop⟩

/-- Where the loop comes to, it gets with some fuel. -/
theorem Visits.roundLoop_eq (exit : σ → ρ) (ht : Visits cond round s t) (fuel : ℕ) :
    ∃ n, roundLoop cond round exit n s = roundLoop cond round exit fuel t := by
  induction ht generalizing fuel with
  | first => exact ⟨fuel, rfl⟩
  | next _ hc hr ih =>
    obtain ⟨n, hn⟩ := ih (fuel + 1)
    exact ⟨n, by rw [hn, roundLoop_again hc hr]⟩

/-- **The safety rule.** -/
theorem roundLoop_ne_error_iff {f : Fault} (hf : f ≠ .outOfFuel) :
    (∀ fuel, roundLoop cond round exit fuel s ≠ .error f) ↔
      ∀ t, Visits cond round s t → cond t = true → round t ≠ .error f := by
  constructor
  · intro h t ht hc hr
    obtain ⟨n, hn⟩ := ht.roundLoop_eq exit 1
    exact h n (by rw [hn, roundLoop_error hc hr])
  · intro h fuel hloop
    obtain ⟨t, ht, ⟨-, hx⟩ | ⟨hc, ⟨r, -, hx⟩ | ⟨f', hr, hx⟩⟩⟩ :=
      roundLoop_stops hloop fun heq => hf (Except.error.inj heq)
    · cases hx
    · cases hx
    · cases hx
      exact h t ht hc hr

/-- **The congruence rule.**  Two loops whose rounds are the same wherever the first one comes to. -/
theorem roundLoop_congr {round' : σ → Exec (Round σ ρ)}
    (h : ∀ t, Visits cond round s t → cond t = true → round' t = round t) (fuel : ℕ) :
    roundLoop cond round' exit fuel s = roundLoop cond round exit fuel s := by
  induction fuel generalizing s with
  | zero => rfl
  | succ fuel ih =>
    cases hc : cond s with
    | false => rw [roundLoop_exit hc, roundLoop_exit hc]
    | true =>
      have hsame := h s .first hc
      cases hr : round s with
      | error f => rw [roundLoop_error hc hr, roundLoop_error hc (hsame.trans hr)]
      | ok a =>
        cases a with
        | leave r => rw [roundLoop_leave hc hr, roundLoop_leave hc (hsame.trans hr)]
        | again s' =>
          rw [roundLoop_again hc hr, roundLoop_again hc (hsame.trans hr)]
          exact ih fun t ht => h t (ht.of_again hc hr)

/-- **The progress rule.** -/
theorem roundLoop_terminates (variant : σ → ℕ) (hround : ∀ t, Halts (round t))
    (hlower : ∀ t t', Visits cond round s t → cond t = true → round t = .ok (.again t') →
      variant t' < variant t) {fuel : ℕ} (hfuel : variant s < fuel) :
    Halts (roundLoop cond round exit fuel s) := by
  induction fuel generalizing s with
  | zero => omega
  | succ fuel ih =>
    cases hc : cond s with
    | false =>
      rw [roundLoop_exit hc]
      exact halts_ok _
    | true =>
      cases hr : round s with
      | error f =>
        rw [roundLoop_error hc hr]
        intro h
        cases h
        exact hround s hr
      | ok a =>
        cases a with
        | leave r =>
          rw [roundLoop_leave hc hr]
          exact halts_ok _
        | again s' =>
          rw [roundLoop_again hc hr]
          have hlt := hlower s s' .first hc hr
          exact ih (fun t t' ht => hlower t t' (ht.of_again hc hr)) (by omega)

end Rounds

end CLib
