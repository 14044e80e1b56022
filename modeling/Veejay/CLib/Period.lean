import Veejay.CLib.Exec

/-!
# Counters with a period

A counter is raised by every call, and the call in which it comes to its period does the work and sets it back.

* `tick`, `ticks` — one call, and a number of them;
* `OnceIn` — the work is done exactly once in any so many successive calls;
* `onceIn_ticks` — **a counter does its work exactly once in a period**, wherever it begins;
* `onceIn_ticks_longer_iff` — a period that is longer by one call shows, unless there are few calls;
* `runOps_ticks` — **the refinement rule** for an operation that counts its calls.
-/

namespace CLib

/-- One call: whether the work is done, and the counter. -/
def tick (p c : ℕ) : Bool × ℕ := if p ≤ c + 1 then (true, 0) else (false, c + 1)

/-- What `k` calls do. -/
def ticks (p : ℕ) : ℕ → ℕ → List Bool
  | 0, _ => []
  | k + 1, c => (tick p c).1 :: ticks p k (tick p c).2

/-- Exactly one of any `n` successive calls does the work. -/
def OnceIn (n : ℕ) (done : List Bool) : Prop := ∀ j, j + n ≤ done.length → ∃! i, i < n ∧ done[j + i]? = some true

section Ticks

variable {p n k c : ℕ}

theorem tick_lt (h : 0 < p) : (tick p c).2 < p := by
  rw [tick]
  split_ifs
  · exact h
  · dsimp only
    omega

theorem ticks_length (p k c : ℕ) : (ticks p k c).length = k := by
  induction k generalizing c with
  | zero => rfl
  | succ k ih => rw [ticks, List.length_cons, ih]

/-- The work is done in the calls in which the count is a multiple of the period. -/
theorem ticks_getElem? (hc : c < p) {i : ℕ} (hi : i < k) : (ticks p k c)[i]? = some (decide ((c + i + 1) % p = 0)) := by
  induction k generalizing c i with
  | zero => exact absurd hi (Nat.not_lt_zero i)
  | succ k ih =>
    rw [ticks]
    cases i with
    | zero =>
      rw [List.getElem?_cons_zero, tick]
      by_cases hp : p ≤ c + 1
      · have hlast : c + 0 + 1 = p := by omega
        rw [if_pos hp, hlast, Nat.mod_self, decide_eq_true rfl]
      · rw [if_neg hp, Nat.mod_eq_of_lt (by omega), decide_eq_false (by omega)]
    | succ i =>
      rw [List.getElem?_cons_succ, ih (tick_lt (Nat.zero_lt_of_lt hc)) (by omega), tick]
      by_cases hp : p ≤ c + 1
      · have hlast : c + (i + 1) + 1 = 0 + i + 1 + p := by omega
        rw [if_pos hp, hlast, Nat.add_mod_right]
      · have hnext : c + 1 + i + 1 = c + (i + 1) + 1 := by omega
        rw [if_neg hp, hnext]

/-- The call among the next ones in which the count is a multiple of the period. -/
theorem count_mod_eq_zero_iff {x i : ℕ} (hi : i < p) : (x + i + 1) % p = 0 ↔ i = p - 1 - x % p := by
  have hx : x % p < p := Nat.mod_lt x (by omega)
  have hsplit : (x + i + 1) % p = (x % p + (i + 1)) % p := by rw [Nat.add_assoc, Nat.mod_add_mod]
  rw [hsplit]
  by_cases hlt : x % p + (i + 1) < p
  · rw [Nat.mod_eq_of_lt hlt]
    omega
  · rw [Nat.mod_eq_sub_mod (by omega), Nat.mod_eq_of_lt (by omega)]
    omega

/-- **A counter does its work exactly once in a period.** -/
theorem onceIn_ticks (hc : c < p) : OnceIn p (ticks p k c) := by
  intro j hj
  rw [ticks_length] at hj
  have hiff : ∀ i < p, ((ticks p k c)[j + i]? = some true ↔ i = p - 1 - (c + j) % p) := by
    intro i hi
    rw [ticks_getElem? hc (by omega), Option.some_inj, decide_eq_true_iff, ← Nat.add_assoc, count_mod_eq_zero_iff hi]
  refine ⟨p - 1 - (c + j) % p, ⟨by omega, (hiff _ (by omega)).mpr rfl⟩, ?_⟩
  rintro i ⟨hi, hdone⟩
  exact (hiff i hi).mp hdone

/-- A period that is longer by one call shows in the first calls that begin right after the work. -/
theorem onceIn_ticks_longer_iff (hc : c < n + 1) : OnceIn n (ticks (n + 1) k c) ↔ k < n ∨ 0 < c ∧ k + c ≤ 2 * n := by
  have hiff : ∀ j i, j + i < k → i < n + 1 →
      ((ticks (n + 1) k c)[j + i]? = some true ↔ i = n - (c + j) % (n + 1)) := by
    intro j i hji hi
    rw [ticks_getElem? hc hji, Option.some_inj, decide_eq_true_iff, ← Nat.add_assoc, count_mod_eq_zero_iff hi]
    rfl
  have hwindow : ∀ j, j + n ≤ k → ((∃! i, i < n ∧ (ticks (n + 1) k c)[j + i]? = some true) ↔ (c + j) % (n + 1) ≠ 0) := by
    intro j hj
    have hmod : (c + j) % (n + 1) < n + 1 := Nat.mod_lt _ (Nat.succ_pos n)
    constructor
    · rintro ⟨i, ⟨hi, hdone⟩, -⟩
      have hplace := (hiff j i (by omega) (by omega)).mp hdone
      omega
    · intro hne
      refine ⟨n - (c + j) % (n + 1), ⟨by omega, (hiff j _ (by omega) (by omega)).mpr rfl⟩, ?_⟩
      rintro i ⟨hi, hdone⟩
      exact (hiff j i (by omega) (by omega)).mp hdone
  rw [OnceIn, ticks_length]
  constructor
  · intro h
    by_contra hshows
    rw [not_or, Nat.not_lt] at hshows
    obtain ⟨hk, hlong⟩ := hshows
    -- the calls right after the work: from the beginning, or when the count has come to its period
    by_cases hc0 : c = 0
    · refine (hwindow 0 (by omega)).mp (h 0 (by omega)) ?_
      rw [hc0]
      exact Nat.zero_mod _
    · have hsum : c + (n + 1 - c) = n + 1 := by omega
      refine (hwindow (n + 1 - c) (by omega)).mp (h (n + 1 - c) (by omega)) ?_
      rw [hsum, Nat.mod_self]
  · rintro (hk | ⟨hpos, hk⟩) j hj
    · omega
    · refine (hwindow j hj).mpr ?_
      rw [Nat.mod_eq_of_lt (by omega)]
      omega

/-- Where the work is never done, there must be too few calls for it to be missed. -/
theorem onceIn_replicate_false_iff : OnceIn n (List.replicate k false) ↔ k < n := by
  rw [OnceIn, List.length_replicate]
  constructor
  · intro h
    by_contra hk
    obtain ⟨i, ⟨hi, hdone⟩, -⟩ := h 0 (by omega)
    rw [List.getElem?_replicate] at hdone
    split_ifs at hdone
    exact Bool.noConfusion (Option.some.inj hdone)
  · intro hk j hj
    omega

end Ticks

/-- **The refinement rule** for an operation that counts its calls. -/
theorem runOps_ticks {σ ο : Type} {step : σ → ο → Exec (Bool × σ)} {p : ℕ} {Counts : σ → ℕ → Prop} {Ok : ο → Prop}
    (hstep : ∀ s c o, Counts s c → Ok o → ∃ s', step s o = .ok ((tick p c).1, s') ∧ Counts s' (tick p c).2) :
    ∀ (os : List ο) (s : σ) (c : ℕ), Counts s c → (∀ o ∈ os, Ok o) →
      ∃ s', runOps step s os = .ok (ticks p os.length c, s') := by
  intro os
  induction os with
  | nil => exact fun s _ _ _ => ⟨s, rfl⟩
  | cons o os ih =>
    intro s c hs hok
    obtain ⟨s', hs', hcounts⟩ := hstep s c o hs (hok o List.mem_cons_self)
    obtain ⟨t, ht⟩ := ih s' _ hcounts fun o' ho' => hok o' (List.mem_cons_of_mem o ho')
    refine ⟨t, ?_⟩
    rw [runOps, hs', ok_bind, ht, ok_bind]
    rfl

end CLib
