import Veejay.CLib.Fields

/-!
# Fields of a fixed width

Numbers and texts that stand one behind the other, without a delimiter, as `sprintf` writes them and `sscanf` reads
them.

* `zeroPaddedInt`, `Fits` — `%0<w>d` of any number, and the numbers that keep its width;
* `counted` — a text behind its length;
* `scanFields`, `scanFields_cons` — the fields of one `sscanf`;
* `printInto`, `appendInto`, `copyInto` — writing into a buffer of a given size;
* `foldlM_appendInto` — **texts appended one after the other.**
-/

namespace CLib

/-! ## Numbers -/

/-- `%0<w>d` of any number: the sign takes one place of the field. -/
def zeroPaddedInt (w : ℕ) (z : ℤ) : CStr :=
  if z < 0 then 45 :: zeroPadded (w - 1) z.natAbs else zeroPadded w z.natAbs

/-- The number keeps the width of the field. -/
def Fits (w : ℕ) (z : ℤ) : Prop := -10 ^ (w - 1) < z ∧ z < 10 ^ w

instance (w : ℕ) (z : ℤ) : Decidable (Fits w z) := inferInstanceAs (Decidable (_ ∧ _))

theorem zeroPaddedInt_of_nat (w n : ℕ) : zeroPaddedInt w n = zeroPadded w n := by
  rw [zeroPaddedInt, if_neg (by omega), Int.natAbs_natCast]

theorem fits_of_nat {w n : ℕ} : Fits w n ↔ n < 10 ^ w := by
  rw [Fits]
  constructor
  · rintro ⟨-, h⟩
    exact_mod_cast h
  · intro h
    have hpos : (0 : ℤ) < 10 ^ (w - 1) := by positivity
    exact ⟨by omega, by exact_mod_cast h⟩

/-- A number takes the whole field, -/
theorem le_zeroPaddedInt_length (w : ℕ) (z : ℤ) : w ≤ (zeroPaddedInt w z).length := by
  rw [zeroPaddedInt]
  split_ifs
  · have h := le_zeroPadded_length (w - 1) z.natAbs
    rw [List.length_cons]
    omega
  · exact le_zeroPadded_length w z.natAbs

/-- **and no more exactly where it fits.** -/
theorem zeroPaddedInt_length_iff {w : ℕ} {z : ℤ} (hw : 1 ≤ w) : (zeroPaddedInt w z).length = w ↔ Fits w z := by
  rw [zeroPaddedInt, Fits]
  split_ifs with hneg
  · have hpos : (0 : ℤ) < 10 ^ w := by positivity
    have habs : (z.natAbs : ℤ) = -z := by
      zify
      exact abs_of_neg hneg
    rw [List.length_cons]
    constructor
    · intro hlen
      refine ⟨?_, by omega⟩
      by_contra hlo
      have hbig : 10 ^ (w - 1) ≤ z.natAbs := by
        zify
        rw [abs_of_neg hneg]
        omega
      have := lt_zeroPadded_length hbig
      omega
    · rintro ⟨hlo, -⟩
      have hsmall : z.natAbs < 10 ^ (w - 1) := by
        zify
        rw [abs_of_neg hneg]
        omega
      have hw2 : 1 ≤ w - 1 := by
        by_contra h
        have hzero : w - 1 = 0 := by omega
        rw [hzero] at hsmall
        omega
      rw [zeroPadded_length hw2 hsmall]
      omega
  · have hpos : (0 : ℤ) < 10 ^ (w - 1) := by positivity
    have habs : (z.natAbs : ℤ) = z := Int.natAbs_of_nonneg (by omega)
    constructor
    · intro hlen
      refine ⟨by omega, ?_⟩
      by_contra hhi
      have hbig : 10 ^ w ≤ z.natAbs := by
        zify
        rw [abs_of_nonneg (by omega)]
        omega
      have := lt_zeroPadded_length hbig
      omega
    · rintro ⟨-, hhi⟩
      have hsmall : z.natAbs < 10 ^ w := by
        zify
        rw [abs_of_nonneg (by omega)]
        exact hhi
      exact zeroPadded_length hw hsmall

theorem zeroPaddedInt_length_le {w k : ℕ} {z : ℤ} (hk : 1 ≤ k) (hw : w ≤ k) (h : z.natAbs < 10 ^ k) :
    (zeroPaddedInt w z).length ≤ k + 1 := by
  rw [zeroPaddedInt]
  split_ifs
  · have := zeroPadded_length_le hk (show w - 1 ≤ k by omega) h
    rw [List.length_cons]
    omega
  · have := zeroPadded_length_le hk hw h
    omega

theorem mem_zeroPaddedInt {w : ℕ} {z : ℤ} {c : UInt8} (h : c ∈ zeroPaddedInt w z) : isDigit c = true ∨ c = 45 := by
  rw [zeroPaddedInt] at h
  split_ifs at h
  · rcases List.mem_cons.mp h with rfl | h
    · exact .inr rfl
    · exact .inl (isDigit_of_mem_zeroPadded h)
  · exact .inl (isDigit_of_mem_zeroPadded h)

theorem zeroPaddedInt_no_zero (w : ℕ) (z : ℤ) : (0 : UInt8) ∉ zeroPaddedInt w z := by
  intro h
  rcases mem_zeroPaddedInt h with h | h
  · exact absurd h (by decide)
  · exact absurd h (by decide)

theorem zeroPadded_no_zero (w n : ℕ) : (0 : UInt8) ∉ zeroPadded w n := fun h =>
  absurd (isDigit_of_mem_zeroPadded h) (by decide)

/-- `%<w>d` of a field of one place is `%d`. -/
theorem decimalInt_eq (z : ℤ) : decimalInt z = zeroPaddedInt 1 z := by
  have hpos := List.length_pos_iff.mpr (decimal_ne_nil z.natAbs)
  rw [decimalInt, zeroPaddedInt, zeroPadded, zeroPadded, Nat.sub_eq_zero_of_le hpos, Nat.sub_self, Nat.zero_sub]
  rfl

/-- **A number that fits its field** reads back. -/
theorem scanField_zeroPaddedInt {w : ℕ} {z : ℤ} (hw : 1 ≤ w) (hz : Fits w z) (rest : CStr) :
    scanField w (zeroPaddedInt w z ++ rest) = .val z rest := by
  have hlen := (zeroPaddedInt_length_iff hw).mpr hz
  rw [zeroPaddedInt] at hlen ⊢
  by_cases hneg : z < 0
  · rw [if_pos hneg, List.length_cons] at hlen
    rw [if_pos hneg, List.cons_append, scanField, List.dropWhile_cons_of_neg (by decide)]
    show scanDigits true (w - 1) (zeroPadded (w - 1) z.natAbs ++ rest) = _
    rw [scanDigits_append true (zeroPadded_ne_nil _ _) (fun c => isDigit_of_mem_zeroPadded) (by omega)
      (.inl (by omega)), digitsValue_zeroPadded]
    have habs : -(z.natAbs : ℤ) = z := by
      zify
      rw [abs_of_neg hneg]
      omega
    rw [if_pos rfl, habs]
  · rw [if_neg hneg] at hlen
    rw [if_neg hneg, scanField_digits (zeroPadded_ne_nil _ _) (fun c => isDigit_of_mem_zeroPadded) hlen.le
      (.inl hlen.symm), digitsValue_zeroPadded, Int.natAbs_of_nonneg (by omega)]

/-! ## Fields -/

/-- The numbers that `sscanf` converts for a format of fields `%<w>d`. -/
def scanFields : List ℕ → CStr → List ℤ
  | [], _ => []
  | w :: ws, s =>
    match scanField w s with
    | .val v rest => intValue v :: scanFields ws rest
    | _ => []

/-- **One field after the other.** -/
theorem scanFields_cons {w : ℕ} {ws : List ℕ} {z : ℤ} {rest : CStr} (hw : 1 ≤ w) (hz : Fits w z)
    (hint : -2 ^ 31 ≤ z ∧ z < 2 ^ 31) : scanFields (w :: ws) (zeroPaddedInt w z ++ rest) = z :: scanFields ws rest := by
  rw [scanFields, scanField_zeroPaddedInt hw hz]
  show intValue z :: _ = _
  rw [intValue_of_fits hint.1 hint.2]

theorem scanFields_cons_nat {w : ℕ} {ws : List ℕ} {n : ℕ} {rest : CStr} (hw : 1 ≤ w) (hn : n < 10 ^ w)
    (hint : n < 2 ^ 31) : scanFields (w :: ws) (zeroPadded w n ++ rest) = (n : ℤ) :: scanFields ws rest := by
  rw [← zeroPaddedInt_of_nat]
  exact scanFields_cons hw (fits_of_nat.mpr hn) ⟨by omega, by omega⟩

theorem scanFields_nil (ws : List ℕ) : scanFields ws [] = [] := by
  cases ws with
  | nil => rfl
  | cons w ws => rfl

/-- A field of `w` bytes is a number of at most `w` digits. -/
theorem scanField_natAbs_lt {w : ℕ} {s rest : CStr} {v : ℤ} (h : scanField w s = .val v rest) : v.natAbs < 10 ^ w := by
  have hspan : ∀ (w : ℕ) (s : CStr), (∀ c ∈ (spanDigits w s).1, isDigit c = true) ∧ (spanDigits w s).1.length ≤ w := by
    intro w
    induction w with
    | zero => exact fun s => ⟨fun c hc => absurd hc List.not_mem_nil, Nat.le_refl 0⟩
    | succ w ih =>
      intro s
      cases s with
      | nil => exact ⟨fun c hc => absurd hc List.not_mem_nil, Nat.zero_le _⟩
      | cons c s =>
        obtain ⟨hdigits, hlen⟩ := ih s
        rw [spanDigits]
        split_ifs with hc
        · refine ⟨fun d hd => ?_, Nat.succ_le_succ hlen⟩
          rcases List.mem_cons.mp hd with rfl | hd
          · exact hc
          · exact hdigits d hd
        · exact ⟨fun d hd => absurd hd List.not_mem_nil, Nat.zero_le _⟩
  have hdigits : ∀ (neg : Bool) (k : ℕ) (t : CStr), k ≤ w → scanDigits neg k t = .val v rest → v.natAbs < 10 ^ w := by
    intro neg k t hk hscan
    obtain ⟨hall, hlen⟩ := hspan k t
    have hlt := digitsValue_lt hall
    have hpow : 10 ^ (spanDigits k t).1.length ≤ 10 ^ w := Nat.pow_le_pow_right (by norm_num) (by omega)
    rw [scanDigits] at hscan
    cases hds : (spanDigits k t).1 with
    | nil => simp [hds] at hscan
    | cons d ds =>
      rw [hds] at hscan hlt hpow
      obtain ⟨hv, -⟩ := Scan.val.inj hscan
      rw [← hv]
      split_ifs
      · rw [Int.natAbs_neg, Int.natAbs_natCast]
        omega
      · rw [Int.natAbs_natCast]
        omega
  rw [scanField] at h
  cases hs : s.dropWhile isSpace with
  | nil => simp [hs] at h
  | cons c t =>
    rw [hs] at h
    change (if c = 45 then scanDigits true (w - 1) t else if c = 43 then scanDigits false (w - 1) t
      else scanDigits false w (c :: t)) = _ at h
    split_ifs at h
    · exact hdigits true (w - 1) t (Nat.sub_le _ _) h
    · exact hdigits false (w - 1) t (Nat.sub_le _ _) h
    · exact hdigits false w (c :: t) (Nat.le_refl _) h

/-- A number of three bytes. -/
theorem atoi_lt {s : CStr} (h : s.length ≤ 3) : atoi s < 1000 := by
  rw [atoi]
  cases hs : scanInt s with
  | eof => decide
  | fail => decide
  | val v rest =>
    have hlt := scanField_natAbs_lt hs
    have hpow : 10 ^ s.length ≤ 10 ^ 3 := Nat.pow_le_pow_right (by norm_num) h
    show intValue v < 1000
    rw [intValue_of_fits (by omega) (by omega)]
    omega

/-! ## Texts behind their length -/

/-- `%0<w>zu%s`: a text behind its length. -/
def counted (w : ℕ) (t : CStr) : CStr := zeroPadded w t.length ++ t

theorem le_counted_length (w : ℕ) (t : CStr) : w + t.length ≤ (counted w t).length := by
  have h := le_zeroPadded_length w t.length
  rw [counted, List.length_append]
  omega

theorem counted_length_iff {w : ℕ} {t : CStr} (hw : 1 ≤ w) :
    (counted w t).length = w + t.length ↔ t.length < 10 ^ w := by
  have h := zeroPaddedInt_length_iff (z := (t.length : ℤ)) hw
  rw [zeroPaddedInt_of_nat, fits_of_nat] at h
  rw [counted, List.length_append, Nat.add_right_cancel_iff]
  exact h

theorem counted_no_zero {w : ℕ} {t : CStr} (h : (0 : UInt8) ∉ t) : (0 : UInt8) ∉ counted w t := by
  rw [counted, List.mem_append, not_or]
  exact ⟨zeroPadded_no_zero _ _, h⟩

/-! ## Buffers -/

/-- `sprintf` into a buffer of `size` bytes. -/
def printInto (size : ℕ) (t : CStr) : Exec CStr := if t.length < size then .ok t else .error .overrun

/-- `strcat` into a buffer of `size` bytes. -/
def appendInto (size : ℕ) (buf t : CStr) : Exec CStr := printInto size (buf ++ t)

theorem printInto_eq_ok {size : ℕ} {t t' : CStr} : printInto size t = .ok t' ↔ t.length < size ∧ t = t' := by
  rw [printInto]
  by_cases h : t.length < size
  · rw [if_pos h]
    constructor
    · intro heq
      exact ⟨h, Except.ok.inj heq⟩
    · rintro ⟨-, rfl⟩
      rfl
  · rw [if_neg h]
    constructor
    · intro heq
      cases heq
    · intro heq
      exact absurd heq.1 h

theorem printInto_of_lt {size : ℕ} {t : CStr} (h : t.length < size) : printInto size t = .ok t :=
  printInto_eq_ok.mpr ⟨h, rfl⟩

/-- **Texts that are appended one after the other** fit as long as all of them do. -/
theorem foldlM_appendInto {size : ℕ} (ts : List CStr) {buf r : CStr} (hbuf : buf.length < size) :
    ts.foldlM (appendInto size) buf = .ok r ↔ (buf ++ ts.flatten).length < size ∧ r = buf ++ ts.flatten := by
  induction ts generalizing buf with
  | nil =>
    rw [List.foldlM_nil, List.flatten_nil, List.append_nil]
    exact ⟨fun h => ⟨hbuf, (Except.ok.inj h).symm⟩, fun h => congrArg Except.ok h.2.symm⟩
  | cons t ts ih =>
    rw [List.foldlM_cons, List.flatten_cons, ← List.append_assoc, bind_eq_ok]
    constructor
    · rintro ⟨b, hb, hr⟩
      obtain ⟨hlt, rfl⟩ := printInto_eq_ok.mp hb
      exact (ih hlt).mp hr
    · rintro ⟨hlt, rfl⟩
      have hfirst : (buf ++ t).length < size := by
        rw [List.length_append] at hlt
        omega
      exact ⟨buf ++ t, printInto_of_lt hfirst, (ih hfirst).mpr ⟨hlt, rfl⟩⟩

/-- `strncpy` of `n` bytes into a cleared buffer of `size` bytes; what is read of it later ends within it. -/
def copyInto (size : ℕ) (s : CStr) (n : ℤ) : Exec CStr :=
  if 0 ≤ n ∧ n < size then .ok (cstring (s.take n.toNat)) else .error .overrun

theorem copyInto_append {size : ℕ} {t : CStr} (rest : CStr) (h : t.length < size) (h0 : (0 : UInt8) ∉ t) :
    copyInto size (t ++ rest) t.length = .ok t := by
  rw [copyInto, if_pos ⟨by omega, by omega⟩, Int.toNat_natCast, List.take_left, cstring_of_not_mem h0]

theorem copyInto_eq_ok {size : ℕ} {s r : CStr} {n : ℤ} (h : copyInto size s n = .ok r) :
    0 ≤ n ∧ r.length ≤ n.toNat ∧ r.length ≤ s.length := by
  rw [copyInto] at h
  split_ifs at h with hn
  obtain rfl := Except.ok.inj h
  have hle : (cstring (s.take n.toNat)).length ≤ (s.take n.toNat).length := (List.takeWhile_sublist _).length_le
  rw [List.length_take] at hle
  exact ⟨hn.1, by omega, by omega⟩

theorem copyInto_lt {size : ℕ} {s r : CStr} {n : ℤ} (h : copyInto size s n = .ok r) : r.length < size := by
  obtain ⟨hpos, hle, -⟩ := copyInto_eq_ok h
  rw [copyInto] at h
  split_ifs at h with hn
  omega

/-- The text from a place of a buffer on, up to its end. -/
def textFrom (text : CStr) (offset : ℤ) : Exec CStr :=
  if 0 ≤ offset ∧ offset ≤ text.length then .ok (text.drop offset.toNat) else .error .outOfBounds

theorem textFrom_append (front rest : CStr) : textFrom (front ++ rest) front.length = .ok rest := by
  rw [textFrom, if_pos ⟨by omega, by rw [List.length_append]; omega⟩, Int.toNat_natCast, List.drop_left]

end CLib
