import Veejay.CLib.Exec

/-!
# Loops

`while (cond) body`, with a bound on the number of rounds that stands for the termination argument: a
loop that would need more rounds than its bound stops with `Fault.outOfFuel`, so a postcondition in the
sense of `Ensures` includes that the bound is enough.

* `whileLoop_ensures` — **the total rule**: an invariant and a variant;
* `whileLoop_ok` — **the partial rule**: what is known of a loop that has returned.
-/

namespace CLib

variable {σ : Type}

/-- `while (cond) body`, for at most `fuel` rounds. -/
def whileLoop (cond : σ → Bool) (body : σ → Exec σ) : ℕ → σ → Exec σ
  | 0, s => if cond s then .error .outOfFuel else .ok s
  | fuel + 1, s => if cond s then body s >>= whileLoop cond body fuel else .ok s

variable {cond : σ → Bool} {body : σ → Exec σ}

theorem whileLoop_of_false {s : σ} (h : cond s = false) (fuel : ℕ) :
    whileLoop cond body fuel s = .ok s := by
  cases fuel <;> simp [whileLoop, h]

theorem whileLoop_succ_of_true {s : σ} (h : cond s = true) (fuel : ℕ) :
    whileLoop cond body (fuel + 1) s = body s >>= whileLoop cond body fuel := by
  simp [whileLoop, h]

/-- A loop that has returned ran its first round. -/
theorem whileLoop_first {fuel : ℕ} {s t : σ} (h : whileLoop cond body fuel s = .ok t)
    (hc : cond s = true) : ∃ s', body s = .ok s' := by
  cases fuel with
  | zero => simp [whileLoop, hc] at h
  | succ fuel =>
    rw [whileLoop_succ_of_true hc] at h
    obtain ⟨s', hs', -⟩ := bind_eq_ok.mp h
    exact ⟨s', hs'⟩

/-- **The total rule.**  The body keeps `Inv` and lowers the variant, which the fuel bounds. -/
theorem whileLoop_ensures (Inv : σ → Prop) (variant : σ → ℕ)
    (hbody : ∀ s, Inv s → cond s = true →
      Ensures (body s) fun s' => Inv s' ∧ variant s' < variant s) :
    ∀ (fuel : ℕ) (s : σ), Inv s → variant s ≤ fuel →
      Ensures (whileLoop cond body fuel s) fun s' => Inv s' ∧ cond s' = false := by
  intro fuel
  induction fuel with
  | zero =>
    intro s hs hv
    cases hc : cond s with
    | false => simpa [whileLoop, hc] using hs
    | true =>
      obtain ⟨s', -, -, hlt⟩ := hbody s hs hc
      omega
  | succ fuel ih =>
    intro s hs hv
    cases hc : cond s with
    | false => simpa [whileLoop, hc] using hs
    | true =>
      obtain ⟨s', hs', hinv, hlt⟩ := hbody s hs hc
      rw [whileLoop_succ_of_true hc, hs', ok_bind]
      exact ih s' hinv (by omega)

/-- **The partial rule.** -/
theorem whileLoop_ok (Inv : σ → Prop)
    (hbody : ∀ s s', Inv s → cond s = true → body s = .ok s' → Inv s') :
    ∀ {fuel : ℕ} {s t : σ}, whileLoop cond body fuel s = .ok t → Inv s →
      Inv t ∧ cond t = false := by
  intro fuel
  induction fuel with
  | zero =>
    intro s t ht hs
    cases hc : cond s with
    | false =>
      obtain rfl : s = t := by simpa [whileLoop, hc] using ht
      exact ⟨hs, hc⟩
    | true => simp [whileLoop, hc] at ht
  | succ fuel ih =>
    intro s t ht hs
    cases hc : cond s with
    | false =>
      obtain rfl : s = t := by simpa [whileLoop, hc] using ht
      exact ⟨hs, hc⟩
    | true =>
      rw [whileLoop_succ_of_true hc] at ht
      obtain ⟨s', hs', hrest⟩ := bind_eq_ok.mp ht
      exact ih hrest (hbody s s' hs hc hs')

end CLib
