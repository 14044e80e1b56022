import Veejay.Sample.Sequencer

/-!
# The next slot of a sequence

`vj_perform_valid_sequence` looks for a slot with a sample behind the current one, and goes on at the first slot when it
has come to the last one (`veejay/vj-perform.c`).

* `between`, `IsSuccessor` — the cyclic order of the slots, and the first slot in use in it;
* `vjPerformValidSequenceIn` — the call, with what it leaves of the sequence;
* `validSequence_successor` — **the call finds the successor**, and gives up exactly if there is none.
-/

namespace Veejay.Sequencer

open CLib

/-! ## The cyclic order -/

section Cyclic

variable {full : ℕ → Prop} {n cur i j : ℕ}

/-- The number of slots that are passed on the way from `cur` to `i`, behind `cur` and around the end. -/
def between (n cur i : ℕ) : ℕ := (i + n - cur - 1) % n

theorem between_of_lt (h : cur < i) (hi : i < n) : between n cur i = i - cur - 1 := by
  have hround : i + n - cur - 1 = i - cur - 1 + n := by omega
  rw [between, hround, Nat.add_mod_right, Nat.mod_eq_of_lt (by omega)]

theorem between_of_le (h : i ≤ cur) (hcur : cur < n) : between n cur i = i + n - cur - 1 :=
  Nat.mod_eq_of_lt (by omega)

/-- The first slot in use strictly behind `cur`, in the cyclic order. -/
structure IsSuccessor (full : ℕ → Prop) (n cur i : ℕ) : Prop where
  lt : i < n
  holds : full i
  first : ∀ j < n, full j → between n cur i ≤ between n cur j

end Cyclic

/-! ## The call -/

/-- `vj_perform_valid_sequence`: what it returns, and what it leaves of the sequence -/
def vjPerformValidSequenceIn (seq : Seq) : Exec (ℤ × Seq) := do
  match (← vjPerformValidSequence seq) with
  | some cur => .ok (cur, seq)
  | none => .ok (-1, { seq with active := false })

/-! ## The search -/

section Search

variable {seq : Seq} {ys : List ℤ}

/-- The slot holds a sample. -/
def Filled (ys : List ℤ) (i : ℕ) : Prop := ∃ n, ys[i]? = some n ∧ n ≠ 0

/-- What is known when a slot is looked at: the slots behind the current one and in front of it, or in front of it and
behind the current one where the search has begun again, are empty. -/
structure Searching (ys : List ℤ) (cur : ℕ) (st : ℤ × Bool) : Prop where
  nonneg : 0 ≤ st.1
  le : st.1 ≤ maxSequences
  behind : st.2 = false → cur < st.1
  passed : ∀ i, Filled ys i → if st.2 = true then st.1 ≤ i ∧ i ≤ cur else i ≤ cur ∨ st.1 ≤ i

theorem Filled.lt {i : ℕ} (hys : ys.length = maxSequences) (h : Filled ys i) : i < maxSequences := by
  obtain ⟨n, hget, -⟩ := h
  rw [← hys]
  exact (List.getElem?_eq_some_iff.mp hget).1

/-- A slot that is looked at, and its sample. -/
theorem readSlot_filled (hys : ys.length = maxSequences) {st : ℤ × Bool} {cur : ℕ} (h : Searching ys cur st) :
    ∃ n, readSlot (ys ++ [0]) st.1 = .ok n ∧ (n ≠ 0 ↔ Filled ys st.1.toNat) := by
  have h0 := h.nonneg
  have hle := h.le
  have hlen : (ys ++ [0]).length = maxSequences + 1 := by rw [List.length_append, hys]; rfl
  obtain ⟨n, hget, hread⟩ := @readSlot_eq (ys ++ [0]) st.1 h0 (by rw [hlen]; push_cast; omega)
  refine ⟨n, hread, ?_⟩
  rw [Filled]
  by_cases hlast : st.1.toNat < maxSequences
  · rw [List.getElem?_append_left (by omega)] at hget
    rw [hget]
    constructor
    · exact fun hn => ⟨n, rfl, hn⟩
    · rintro ⟨n', hsome, hn'⟩
      rw [Option.some.inj hsome]
      exact hn'
  · have hend : st.1.toNat = maxSequences := by omega
    rw [hend, List.getElem?_append_right hys.le, hys, Nat.sub_self] at hget
    obtain rfl := Option.some.inj hget
    rw [hend, List.getElem?_eq_none hys.le]
    constructor
    · exact fun h => absurd rfl h
    · rintro ⟨n, hsome, -⟩
      cases hsome

/-- What a round does. -/
theorem validRound_cases {xs : List ℤ} {st : ℤ × Bool} {n : ℤ} (hread : readSlot xs st.1 = .ok n) :
    (n ≠ 0 ∧ validRound xs st = .ok (.leave (some st.1))) ∨
      (n = 0 ∧ maxSequences ≤ st.1 + 1 ∧ st.2 = false ∧ validRound xs st = .ok (.again (0, true))) ∨
      (n = 0 ∧ maxSequences ≤ st.1 + 1 ∧ st.2 = true ∧ validRound xs st = .ok (.leave none)) ∨
      (n = 0 ∧ st.1 + 1 < maxSequences ∧ validRound xs st = .ok (.again (st.1 + 1, st.2))) := by
  rw [validRound, hread, ok_bind]
  by_cases hn : n ≠ 0
  · exact .inl ⟨hn, if_pos hn⟩
  · rw [if_neg hn]
    dsimp only
    by_cases hmax : st.1 + 1 ≥ maxSequences
    · cases hcycle : st.2 with
      | false => exact .inr (.inl ⟨not_not.mp hn, hmax, rfl, if_pos ⟨hmax, rfl⟩⟩)
      | true => exact .inr (.inr (.inl ⟨not_not.mp hn, hmax, rfl, by rw [if_neg (by simp), if_pos ⟨hmax, rfl⟩]⟩))
    · exact .inr (.inr (.inr ⟨not_not.mp hn, Int.not_le.mp hmax, by
        rw [if_neg fun h => hmax h.1, if_neg fun h => hmax h.1]⟩))

/-- A round that goes on. -/
theorem Searching.again (hys : ys.length = maxSequences) {cur : ℕ} {st st' : ℤ × Bool} (h : Searching ys cur st)
    (hround : validRound (ys ++ [0]) st = .ok (.again st')) : Searching ys cur st' := by
  obtain ⟨n, hread, hfilled⟩ := readSlot_filled hys h
  obtain ⟨h0, hle, hbehind, hpassed⟩ := h
  have hempty : ∀ i, Filled ys i → n = 0 → (i : ℤ) ≠ st.1 := by
    intro i hi hn heq
    rw [← heq, Int.toNat_natCast] at hfilled
    exact hfilled.mpr hi hn
  rcases validRound_cases hread with ⟨-, hleave⟩ | ⟨hn, hmax, hcycle, hagain⟩ | ⟨-, -, -, hleave⟩ | ⟨hn, hmax, hagain⟩
  · cases hleave.symm.trans hround
  · -- the search begins again at the first slot
    obtain rfl := Round.again.inj (Except.ok.inj (hagain.symm.trans hround))
    refine ⟨le_rfl, Int.natCast_nonneg _, fun h => Bool.noConfusion h, fun i hi => ?_⟩
    have hi' := hpassed i hi
    rw [if_neg (by rw [hcycle]; decide)] at hi'
    have hlt := hi.lt hys
    have hne := hempty i hi hn
    rw [if_pos rfl]
    dsimp only
    omega
  · cases hleave.symm.trans hround
  · obtain rfl := Round.again.inj (Except.ok.inj (hagain.symm.trans hround))
    refine ⟨by dsimp only; omega, hmax.le, fun h => ?_, fun i hi => ?_⟩
    · have hlt := hbehind h
      dsimp only
      omega
    · have hi' := hpassed i hi
      have hne := hempty i hi hn
      dsimp only
      split_ifs at hi' ⊢ <;> omega

/-- A round that leaves. -/
theorem Searching.leave (hys : ys.length = maxSequences) {cur : ℕ} (hcur : cur < maxSequences) {st : ℤ × Bool}
    {r : Option ℤ} (h : Searching ys cur st) (hround : validRound (ys ++ [0]) st = .ok (.leave r)) :
    (∃ i : ℕ, IsSuccessor (Filled ys) maxSequences cur i ∧ r = some (i : ℤ)) ∨ (∀ i, ¬ Filled ys i) ∧ r = none := by
  obtain ⟨n, hread, hfilled⟩ := readSlot_filled hys h
  obtain ⟨h0, hle, hbehind, hpassed⟩ := h
  rcases validRound_cases hread with ⟨hn, hleave⟩ | ⟨-, -, -, hagain⟩ | ⟨hn, hmax, hcycle, hleave⟩ | ⟨-, -, hagain⟩
  · obtain rfl := Round.leave.inj (Except.ok.inj (hleave.symm.trans hround))
    have hhere := hfilled.mp hn
    have hlt := hhere.lt hys
    refine .inl ⟨st.1.toNat, ⟨hlt, hhere, fun j hj hjfilled => ?_⟩, by rw [Int.toNat_of_nonneg h0]⟩
    have hj' := hpassed j hjfilled
    cases hcycle : st.2 with
    | false =>
      have hfirst := hbehind hcycle
      rw [if_neg (by rw [hcycle]; decide)] at hj'
      rw [between_of_lt (by omega) hlt]
      rcases Nat.lt_or_ge cur j with hcj | hcj
      · rw [between_of_lt hcj hj]
        omega
      · rw [between_of_le hcj hcur]
        omega
    | true =>
      have hhere' := hpassed _ hhere
      rw [if_pos hcycle] at hj' hhere'
      rw [between_of_le hhere'.2 hcur, between_of_le hj'.2 hcur]
      omega
  · cases hagain.symm.trans hround
  · obtain rfl := Round.leave.inj (Except.ok.inj (hleave.symm.trans hround))
    refine .inr ⟨fun i hi => ?_, rfl⟩
    have hi' := hpassed i hi
    rw [if_pos hcycle] at hi'
    have hlast : st.1.toNat = i := by omega
    rw [hlast] at hfilled
    exact hfilled.mpr hi hn
  · cases hagain.symm.trans hround

end Search

/-- **The call finds the first slot in use strictly behind the current one**, in the cyclic order of the slots, and
gives up with the sequence switched off exactly if every slot is empty. -/
theorem validSequence_successor {seq : Seq} {ys : List ℤ} (hys : ys.length = maxSequences)
    (hsamples : seq.samples = ys ++ [0]) (hcur : 0 ≤ seq.current ∧ seq.current < maxSequences) :
    Ensures (vjPerformValidSequenceIn seq) fun r =>
      ((∀ n ∈ ys, n = 0) ↔ r = (-1, { seq with active := false })) ∧
        ((∃ n ∈ ys, n ≠ 0) →
          ∃ i : ℕ, IsSuccessor (Filled ys) maxSequences seq.current.toNat i ∧ r = ((i : ℤ), seq)) := by
  have hempty : (∀ n ∈ ys, n = 0) ↔ ∀ i, ¬ Filled ys i := by
    constructor
    · rintro h i ⟨n, hget, hn⟩
      exact hn (h n (List.mem_of_getElem? hget))
    · intro h n hmem
      obtain ⟨i, hget⟩ := List.mem_iff_getElem?.mp hmem
      by_contra hn
      exact h i ⟨n, hget, hn⟩
  have hfilled : (∃ n ∈ ys, n ≠ 0) ↔ ¬ ∀ n ∈ ys, n = 0 := by
    rw [not_forall]
    exact exists_congr fun n => by rw [Classical.not_imp]
  have hstart : Searching ys seq.current.toNat (seq.current + 1, false) := by
    refine ⟨by dsimp only; omega, by dsimp only; omega, fun _ => by dsimp only; omega, fun i _ => ?_⟩
    rw [if_neg Bool.false_ne_true]
    dsimp only
    omega
  obtain ⟨r, hr, -⟩ := vjPerformValidSequence_spec hys hsamples hcur
  obtain ⟨st, hvisits, hstops⟩ := roundLoop_stops (x := .ok r) hr (fun h => by cases h)
  have hinv := hvisits.invariant (Searching ys seq.current.toNat) hstart fun t t' ht _ hround =>
    ht.again hys (hsamples ▸ hround)
  rcases hstops with ⟨hcond, -⟩ | ⟨-, ⟨r', hround, hr'⟩ | ⟨f, -, hf⟩⟩
  · exact absurd hcond (by decide)
  · obtain rfl := Except.ok.inj hr'
    rw [vjPerformValidSequenceIn, hr, ok_bind]
    rcases hinv.leave hys (by omega) (hsamples ▸ hround) with ⟨i, hi, rfl⟩ | ⟨hnone, rfl⟩
    · have hsome : ¬ ∀ n ∈ ys, n = 0 := fun h => hempty.mp h i hi.holds
      rw [ensures_ok]
      refine ⟨iff_of_false hsome fun h => ?_, fun _ => ⟨i, hi, rfl⟩⟩
      have hneg := congrArg Prod.fst h
      dsimp only at hneg
      omega
    · rw [ensures_ok]
      exact ⟨iff_of_true (hempty.mpr hnone) rfl, fun h => absurd (hempty.mpr hnone) (hfilled.mp h)⟩
  · cases hf

/-- Slots 3 and 40 are in use. -/
def twoInUse : List ℤ := ((List.replicate maxSequences 0).set 3 7).set 40 9

/-- The last one of them is the current one. -/
def twoSlots : Seq where
  active := true
  current := 40
  size := 2
  samples := twoInUse ++ [0]

theorem twoSlots_successor :
    Ensures (vjPerformValidSequenceIn twoSlots) fun r =>
      ((∀ n ∈ twoInUse, n = 0) ↔ r = (-1, { twoSlots with active := false })) ∧
        ((∃ n ∈ twoInUse, n ≠ 0) →
          ∃ i : ℕ, IsSuccessor (Filled twoInUse) maxSequences twoSlots.current.toNat i ∧ r = ((i : ℤ), twoSlots)) :=
  @validSequence_successor twoSlots twoInUse (by decide) rfl (by decide)

end Veejay.Sequencer
