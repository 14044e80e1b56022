import Veejay.Font.Srt

/-!
# The names of subtitles

The subtitles of a font are properties of a vevo port, under names that are made of their numbers (`make_key` in
`veejay/vj-font.c`).  The port knows names by their hash codes only.

* `code` — the hash code before it is cut down to 64 bits;
* `code_inj` — the code of a string of digits and signs, behind a given beginning, determines the string;
* `makeKey_code_inj` — **no two numbers of type `int` have names of one code.**
-/

namespace Veejay.Font

open CLib Veejay.Vevo

/-- A digit or a sign. -/
def Numeral (c : UInt8) : Prop := isDigit c = true ∨ c = 45

theorem Numeral.bounds {c : UInt8} (h : Numeral c) : 45 ≤ c.toNat ∧ c.toNat ≤ 57 := by
  rcases h with hd | rfl
  · simp only [isDigit, Bool.and_eq_true, decide_eq_true_eq, UInt8.le_iff_toNat_le] at hd
    obtain ⟨hlo, hhi⟩ := hd
    exact ⟨le_trans (show 45 ≤ 48 by decide) hlo, hhi⟩
  · decide

/-- `hash * 33 + c` over the characters, with no bound on the numbers. -/
def code (hash : ℕ) (str : CStr) : ℕ := str.foldl (fun hash c => hash * 33 + c.toNat) hash

theorem code_cons (hash : ℕ) (c : UInt8) (str : CStr) : code hash (c :: str) = code (hash * 33 + c.toNat) str := rfl

/-- The beginning moves up with every character. -/
theorem code_eq (str : CStr) : ∀ hash, code hash str = hash * 33 ^ str.length + code 0 str := by
  induction str with
  | nil =>
    intro hash
    show hash = hash * 33 ^ 0 + 0
    omega
  | cons c str ih =>
    intro hash
    rw [code_cons, code_cons, ih, ih (0 * 33 + c.toNat), List.length_cons, pow_succ]
    ring

/-- What the characters of a number add. -/
theorem code_bounds {str : CStr} (h : ∀ c ∈ str, Numeral c) :
    45 * (33 ^ str.length - 1) ≤ 32 * code 0 str ∧ 32 * code 0 str ≤ 57 * (33 ^ str.length - 1) := by
  induction str with
  | nil => exact ⟨le_rfl, le_rfl⟩
  | cons c str ih =>
    obtain ⟨hlo, hhi⟩ := (h c List.mem_cons_self).bounds
    obtain ⟨hlo', hhi'⟩ := ih fun d hd => h d (List.mem_cons_of_mem c hd)
    have hpow : 1 ≤ 33 ^ str.length := Nat.one_le_pow _ _ (by decide)
    rw [code_cons, code_eq, List.length_cons, pow_succ, Nat.zero_mul, Nat.zero_add]
    have h₁ : 45 * 33 ^ str.length ≤ c.toNat * 33 ^ str.length := Nat.mul_le_mul_right _ hlo
    have h₂ : c.toNat * 33 ^ str.length ≤ 57 * 33 ^ str.length := Nat.mul_le_mul_right _ hhi
    constructor
    · omega
    · omega

/-- **The code determines the characters** of a number. -/
theorem code_inj {str : CStr} : ∀ {str' : CStr} {hash hash' : ℕ}, (∀ c ∈ str, Numeral c) → (∀ c ∈ str', Numeral c) →
    str.length = str'.length → code hash str = code hash' str' → hash = hash' ∧ str = str' := by
  induction str with
  | nil =>
    intro str' hash hash' _ _ hlen h
    obtain rfl := List.eq_nil_of_length_eq_zero hlen.symm
    exact ⟨h, rfl⟩
  | cons c str ih =>
    intro str' hash hash' hs hs' hlen h
    cases str' with
    | nil => cases hlen
    | cons d str' =>
      obtain ⟨hlo, hhi⟩ := (hs c List.mem_cons_self).bounds
      obtain ⟨hlo', hhi'⟩ := (hs' d List.mem_cons_self).bounds
      obtain ⟨hnext, rfl⟩ := ih (fun e he => hs e (List.mem_cons_of_mem c he))
        (fun e he => hs' e (List.mem_cons_of_mem d he)) (Nat.succ.inj hlen) h
      have hnext' : hash * 33 + c.toNat = hash' * 33 + d.toNat := hnext
      have hcd : c = d := UInt8.toNat_inj.mp (by omega)
      exact ⟨by omega, by rw [hcd]⟩

/-- The codes of numbers of different lengths lie apart, also when they are cut down to 64 bits. -/
theorem code_lengths {n m v w : ℕ} (hn : 1 ≤ n) (hnm : n ≤ m) (hm : m ≤ 11)
    (hv : 45 * (33 ^ n - 1) ≤ 32 * v ∧ 32 * v ≤ 57 * (33 ^ n - 1))
    (hw : 45 * (33 ^ m - 1) ≤ 32 * w ∧ 32 * w ≤ 57 * (33 ^ m - 1))
    (h : (177688 * 33 ^ n + v) % 2 ^ 64 = (177688 * 33 ^ m + w) % 2 ^ 64) : n = m ∧ v = w := by
  interval_cases m <;> interval_cases n <;> norm_num at hv hw h ⊢ <;> omega

/-- A character, taken for a signed one, and as it is. -/
theorem char_code {c : UInt8} (h : c.toNat < 128) : c.toInt8.toInt64.toUInt64.toNat = c.toNat := by
  have hall : ∀ n < 128, (UInt8.ofNat n).toInt8.toInt64.toUInt64.toNat = n := by decide
  have hc := hall c.toNat h
  rwa [UInt8.ofNat_toNat] at hc

/-- `hash_key_code` is the code, cut down to 64 bits. -/
theorem hashKeyCode_toNat {str : CStr} (h : ∀ c ∈ str, c.toNat < 128) :
    (hashKeyCode str).toNat = code 5381 str % 2 ^ 64 := by
  have hfold : ∀ (str : CStr) (hash : UInt64), (∀ c ∈ str, c.toNat < 128) →
      (str.foldl (fun (hash : UInt64) (c : UInt8) => (hash <<< 5) + hash + c.toInt8.toInt64.toUInt64) hash).toNat =
        code hash.toNat str % 2 ^ 64 := by
    intro str
    induction str with
    | nil => exact fun hash _ => (Nat.mod_eq_of_lt hash.toNat_lt).symm
    | cons c str ih =>
      intro hash hs
      have hshift : (hash <<< 5).toNat = hash.toNat * 32 % 2 ^ 64 := by
        rw [UInt64.toNat_shiftLeft, Nat.shiftLeft_eq]
        rfl
      have hnext : ((hash <<< 5) + hash + c.toInt8.toInt64.toUInt64).toNat = (hash.toNat * 33 + c.toNat) % 2 ^ 64 := by
        rw [UInt64.toNat_add, UInt64.toNat_add, char_code (hs c List.mem_cons_self), hshift]
        omega
      rw [List.foldl_cons, ih _ fun d hd => hs d (List.mem_cons_of_mem c hd), hnext, code_cons, code_eq,
        code_eq str (hash.toNat * 33 + c.toNat), Nat.add_mod, Nat.mul_mod, Nat.mod_mod, ← Nat.mul_mod, ← Nat.add_mod]
  exact hfold str 5381 h

/-- A number of type `int` prints as eleven characters at most. -/
theorem decimalInt_length {z : ℤ} (hlo : -2 ^ 31 ≤ z) (hhi : z < 2 ^ 31) : (decimalInt z).length ≤ 11 :=
  @decimalInt_length_le z 10 (by decide) (by omega)

theorem decimalInt_inj {i j : ℤ} (h : decimalInt i = decimalInt j) : i = j := by
  have hi := scanInt_decimalInt i [] (fun c hc => nomatch hc)
  have hj := scanInt_decimalInt j [] (fun c hc => nomatch hc)
  rw [h, hj] at hi
  cases hi
  rfl

/-- **No two numbers of type `int` have names of one code.** -/
theorem makeKey_code_inj {i j : ℤ} (hi : -2 ^ 31 ≤ i ∧ i < 2 ^ 31) (hj : -2 ^ 31 ≤ j ∧ j < 2 ^ 31)
    (h : hashKeyCode (makeKey i) = hashKeyCode (makeKey j)) : i = j := by
  have hcode : ∀ z : ℤ, -2 ^ 31 ≤ z ∧ z < 2 ^ 31 → (hashKeyCode (makeKey z)).toNat =
      (177688 * 33 ^ (decimalInt z).length + code 0 (decimalInt z)) % 2 ^ 64 := by
    intro z hz
    have hascii : ∀ c ∈ makeKey z, c.toNat < 128 := by
      intro c hc
      rcases List.mem_cons.mp hc with rfl | hc
      · decide
      · have hb := (show Numeral c from mem_decimalInt hc).bounds
        omega
    rw [hashKeyCode_toNat hascii]
    show code (5381 * 33 + 115) (decimalInt z) % 2 ^ 64 = _
    rw [code_eq]
  have hpos : ∀ z : ℤ, 1 ≤ (decimalInt z).length := by
    intro z
    obtain ⟨c, t, heq, -⟩ := decimalInt_head z
    rw [heq]
    exact Nat.succ_le_succ (Nat.zero_le _)
  have heq := congrArg UInt64.toNat h
  rw [hcode i hi, hcode j hj] at heq
  have hbi := @code_bounds (decimalInt i) fun c hc => mem_decimalInt hc
  have hbj := @code_bounds (decimalInt j) fun c hc => mem_decimalInt hc
  have hlen : (decimalInt i).length = (decimalInt j).length ∧ code 0 (decimalInt i) = code 0 (decimalInt j) := by
    rcases Nat.le_total (decimalInt i).length (decimalInt j).length with hle | hle
    · exact code_lengths (hpos i) hle (decimalInt_length hj.1 hj.2) hbi hbj heq
    · have hrev := code_lengths (hpos j) hle (decimalInt_length hi.1 hi.2) hbj hbi heq.symm
      exact ⟨hrev.1.symm, hrev.2.symm⟩
  exact decimalInt_inj (code_inj (fun c hc => mem_decimalInt hc) (fun c hc => mem_decimalInt hc) hlen.1 hlen.2).2

end Veejay.Font
