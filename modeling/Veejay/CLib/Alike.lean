import Veejay.CLib.InPlace

/-!
# Two runs of one loop

A function and its variant do the same if both return, with related results, or both stop with the same fault.

* `Alike`, `Alike.bind` — the relation, and how it goes on;
* `read_alike` — the same byte in two memories;
* `forUp_alike` — **the loop rule**: what every round of two counted loops keeps.
-/

namespace CLib

section Computations

variable {α β γ δ : Type}

/-- Both return, with related results, or both stop with the same fault. -/
def Alike (R : α → β → Prop) (x : Exec α) (y : Exec β) : Prop :=
  (∃ a b, x = .ok a ∧ y = .ok b ∧ R a b) ∨ ∃ f, x = .error f ∧ y = .error f

theorem alike_ok {R : α → β → Prop} {a : α} {b : β} (h : R a b) : Alike R (.ok a) (.ok b) := .inl ⟨a, b, rfl, rfl, h⟩

theorem Alike.mono {R S : α → β → Prop} {x : Exec α} {y : Exec β} (h : Alike R x y) (hRS : ∀ a b, R a b → S a b) :
    Alike S x y := by
  rcases h with ⟨a, b, hx, hy, hab⟩ | hfault
  · exact .inl ⟨a, b, hx, hy, hRS a b hab⟩
  · exact .inr hfault

theorem Alike.bind {R : α → β → Prop} {S : γ → δ → Prop} {x : Exec α} {y : Exec β} {f : α → Exec γ} {g : β → Exec δ}
    (h : Alike R x y) (hfg : ∀ a b, R a b → Alike S (f a) (g b)) : Alike S (x >>= f) (y >>= g) := by
  rcases h with ⟨a, b, rfl, rfl, hab⟩ | ⟨fault, rfl, rfl⟩
  · exact hfg a b hab
  · exact .inr ⟨fault, rfl, rfl⟩

/-- Where one returns, so does the other. -/
theorem Alike.returns {R : α → β → Prop} {x : Exec α} {y : Exec β} (h : Alike R x y) {a : α} (hx : x = .ok a) :
    Ensures y (R a) := by
  rcases h with ⟨a', b, hx', hy, hab⟩ | ⟨f, hx', -⟩
  · obtain rfl := Except.ok.inj (hx.symm.trans hx')
    exact ⟨b, hy, hab⟩
  · cases hx.symm.trans hx'

end Computations

/-! ## Memories -/

/-- The same byte in two memories. -/
theorem read_alike {ι β : Type} {m m' : Memory ι β} {i : ι} (hroom : m.room = m'.room)
    (hbyte : m.room i = true → m.byte i = m'.byte i) :
    Alike (fun a b => a = b ∧ m.room i = true) (m.read i) (m'.read i) := by
  rw [Memory.read, Memory.read, ← hroom]
  by_cases hi : m.room i = true
  · rw [if_pos hi, if_pos hi]
    exact alike_ok ⟨hbyte hi, hi⟩
  · rw [if_neg hi, if_neg hi]
    exact .inr ⟨_, rfl, rfl⟩

/-! ## Counted loops -/

/-- **The loop rule.**  Every round of the two loops keeps the relation, which may speak of the round. -/
theorem forUp_alike {σ τ : Type} {R : ℕ → σ → τ → Prop} {start stop by_ n : ℕ} (hn : (stop - start + by_ - 1) / by_ = n)
    {body : ℕ → σ → Exec σ} {body' : ℕ → τ → Exec τ} {s : σ} {t : τ} (h0 : R 0 s t)
    (h : ∀ k < n, ∀ s t, R k s t → Alike (R (k + 1)) (body (start + by_ * k) s) (body' (start + by_ * k) t)) :
    Alike (R n) (forUp start stop by_ body s) (forUp start stop by_ body' t) := by
  rw [forUp, forUp, hn]
  clear hn
  induction n with
  | zero => exact alike_ok h0
  | succ n ih =>
    rw [List.range_succ, List.foldlM_append, List.foldlM_append]
    refine (ih fun k hk => h k (Nat.lt_succ_of_lt hk)).bind fun s t hst => ?_
    rw [List.foldlM_cons, List.foldlM_cons]
    refine (h n (Nat.lt_succ_self n) s t hst).bind fun s t hst => ?_
    exact alike_ok hst

end CLib
