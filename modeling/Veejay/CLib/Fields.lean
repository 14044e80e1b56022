import Veejay.CLib.Text

/-!
# Fields and tokens

Numbers that are printed into fields of a fixed width and read out of them again, and texts cut at a delimiter.

* `scanField_digits` — a field of digits reads as its value;
* `atoi`, `atoi_decimalInt`, `atoi_zeroPadded` — a number without an error;
* `strtok`, `strtok_cons`, `strtok_last` — the next token of a text.
-/

namespace CLib

/-! ## Numbers -/

/-- **A field of digits**, which it fills or which another byte ends. -/
theorem scanField_digits {ds rest : CStr} {w : ℕ} (hne : ds ≠ []) (hds : ∀ c ∈ ds, isDigit c = true)
    (hw : ds.length ≤ w) (hrest : w = ds.length ∨ ∀ c ∈ rest.head?, isDigit c = false) :
    scanField w (ds ++ rest) = .val (digitsValue ds) rest := by
  have hscan := scanDigits_append false hne hds hw hrest
  cases ds with
  | nil => exact absurd rfl hne
  | cons d ds =>
    have hd := isDigit_ne (hds d List.mem_cons_self)
    rw [List.cons_append] at hscan ⊢
    rw [scanField, List.dropWhile_cons_of_neg (by simp [hd.1])]
    simp only [if_neg hd.2.1, if_neg hd.2.2.1]
    exact hscan

theorem zeroPadded_ne_nil (w n : ℕ) : zeroPadded w n ≠ [] := by
  rw [zeroPadded]
  exact List.append_ne_nil_of_right_ne_nil _ (decimal_ne_nil n)

/-- A number that was printed into a field of its own width. -/
theorem scanField_zeroPadded {w n : ℕ} (rest : CStr) (hw : 1 ≤ w) (hn : n < 10 ^ w) :
    scanField w (zeroPadded w n ++ rest) = .val n rest := by
  have hlen := zeroPadded_length hw hn
  have hscan := @scanField_digits _ rest w (zeroPadded_ne_nil w n) (fun c => isDigit_of_mem_zeroPadded) hlen.le
    (.inl hlen.symm)
  rw [digitsValue_zeroPadded] at hscan
  exact hscan

/-- `atoi` -/
def atoi (s : CStr) : ℤ :=
  match scanInt s with
  | .val v _ => intValue v
  | _ => 0

theorem atoi_decimalInt {z : ℤ} (hlo : -2 ^ 31 ≤ z) (hhi : z < 2 ^ 31) (rest : CStr)
    (hrest : ∀ c ∈ rest.head?, isDigit c = false) : atoi (decimalInt z ++ rest) = z := by
  rw [atoi, scanInt_decimalInt z rest hrest]
  exact intValue_of_fits hlo hhi

theorem atoi_zeroPadded {w n : ℕ} (hn : n < 2 ^ 31) : atoi (zeroPadded w n) = n := by
  have hscan : scanInt (zeroPadded w n) = .val n [] := by
    have h := @scanField_digits _ [] _ (zeroPadded_ne_nil w n) (fun c => isDigit_of_mem_zeroPadded)
      (Nat.le_refl _) (.inl rfl)
    rw [digitsValue_zeroPadded, List.append_nil] at h
    exact h
  rw [atoi, hscan]
  exact intValue_of_fits (by omega) (by omega)

/-! ## Tokens -/

/-- `strtok`: the next token, and what follows its delimiter. -/
def strtok (d : UInt8) (s : CStr) : Option (CStr × CStr) :=
  match s.dropWhile (· = d) with
  | [] => none
  | c :: t => some ((c :: t).takeWhile (· ≠ d), ((c :: t).dropWhile (· ≠ d)).drop 1)

theorem takeWhile_ne_append {d : UInt8} {a rest : CStr} (ha : d ∉ a) :
    (a ++ d :: rest).takeWhile (· ≠ d) = a ∧ (a ++ d :: rest).dropWhile (· ≠ d) = d :: rest := by
  have hall : ∀ c ∈ a, decide (c ≠ d) = true := fun c hc => decide_eq_true fun h => ha (h ▸ hc)
  rw [List.takeWhile_append_of_pos hall, List.dropWhile_append_of_pos hall, List.takeWhile_cons_of_neg (by simp),
    List.dropWhile_cons_of_neg (by simp), List.append_nil]
  exact ⟨rfl, rfl⟩

/-- A token with a delimiter behind it. -/
theorem strtok_cons {d : UInt8} {a : CStr} (rest : CStr) (hne : a ≠ []) (ha : d ∉ a) :
    strtok d (a ++ d :: rest) = some (a, rest) := by
  obtain ⟨htake, hdrop⟩ := @takeWhile_ne_append _ _ rest ha
  cases a with
  | nil => exact absurd rfl hne
  | cons c a =>
    have hc : c ≠ d := fun h => ha (h ▸ List.mem_cons_self)
    have hskip : (c :: a ++ d :: rest).dropWhile (· = d) = c :: (a ++ d :: rest) := by
      rw [List.cons_append, List.dropWhile_cons_of_neg (by simpa using hc)]
    rw [List.cons_append] at htake hdrop
    rw [strtok, hskip]
    simp only [htake, hdrop, List.drop_one, List.tail_cons]

/-- The last token. -/
theorem strtok_last {d : UInt8} {a : CStr} (hne : a ≠ []) (ha : d ∉ a) : strtok d a = some (a, []) := by
  have hall : ∀ c ∈ a, decide (c ≠ d) = true := fun c hc => decide_eq_true fun h => ha (h ▸ hc)
  cases a with
  | nil => exact absurd rfl hne
  | cons c a =>
    have hc : c ≠ d := fun h => ha (h ▸ List.mem_cons_self)
    have hskip : (c :: a).dropWhile (· = d) = c :: a := List.dropWhile_cons_of_neg (by simpa using hc)
    have htake : (c :: a).takeWhile (· ≠ d) = c :: a := List.takeWhile_eq_self_iff.mpr hall
    have hdrop : (c :: a).dropWhile (· ≠ d) = [] := List.dropWhile_eq_nil_iff.mpr hall
    rw [strtok, hskip]
    simp only [htake, hdrop, List.drop_nil]

/-- What a token is cut from. -/
theorem strtok_token {d : UInt8} {s a rest : CStr} (h : strtok d s = some (a, rest)) : a ≠ [] ∧ d ∉ a := by
  rw [strtok] at h
  cases hs : s.dropWhile (· = d) with
  | nil => simp [hs] at h
  | cons c t =>
    have hc : ¬ decide (c = d) = true := by
      have := List.head_dropWhile_not (fun c => decide (c = d)) (l := s) (by simp [hs])
      simpa [hs] using this
    simp only [hs, Option.some.injEq, Prod.mk.injEq] at h
    obtain ⟨rfl, -⟩ := h
    refine ⟨?_, fun hmem => ?_⟩
    · rw [List.takeWhile_cons_of_pos (by simpa using hc)]
      exact List.cons_ne_nil _ _
    · have hne := List.mem_takeWhile_imp hmem
      simp at hne

end CLib
