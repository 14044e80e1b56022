import Veejay.CLib.Exec

/-!
# Text: line input, decimal output and formatted input

C strings are lists of bytes without their terminating zero.  The functions follow the GNU C library:
a field of `scanf` skips white space (which does not count towards its width), takes an optional sign
and then digits; running out of input before a field is *end of input*, anything else that is not a
number is a *failed match*.  `fgets` with a buffer of `size` bytes reads through the next newline, or
`size - 1` bytes, whichever comes first.

The two facts the file is for are `scanField_decimalInt` — what `%d` printed, `%d` reads back — and
`fgetsLines_cons`: a line that fits the buffer is read as one line.
-/

namespace CLib

/-- The bytes of a C string. -/
abbrev CStr := List UInt8

/-- The bytes of a string literal. -/
def lit (s : String) : CStr := s.toList.map Char.toUInt8

/-- The newline byte. -/
def newline : UInt8 := 10

/-- `isspace` in the C locale. -/
def isSpace (c : UInt8) : Bool := c == 32 || (9 ≤ c && c ≤ 13)

/-- `isdigit`. -/
def isDigit (c : UInt8) : Bool := 48 ≤ c && c ≤ 57

/-- The string a buffer holds: the bytes before the first zero. -/
def cstring (bytes : List UInt8) : CStr := bytes.takeWhile (· ≠ 0)

/-! ## Decimal output -/

/-- The digit `d`. -/
def digitByte (d : ℕ) : UInt8 := UInt8.ofNat (48 + d)

/-- `%u`: the decimal digits of a number, most significant first. -/
def decimal (n : ℕ) : CStr :=
  if n = 0 then [48] else ((Nat.digits 10 n).map digitByte).reverse

/-- `%d`: a decimal number with its sign. -/
def decimalInt (z : ℤ) : CStr :=
  if z < 0 then 45 :: decimal z.natAbs else decimal z.natAbs

/-- The value of a string of digits. -/
def digitsValue (ds : CStr) : ℕ := ds.foldl (fun v c => 10 * v + (c.toNat - 48)) 0

theorem digitByte_toNat {d : ℕ} (h : d < 10) : (digitByte d).toNat = 48 + d := by
  rw [digitByte, UInt8.toNat_ofNat']
  omega

theorem isDigit_digitByte {d : ℕ} (h : d < 10) : isDigit (digitByte d) = true := by
  have hd := digitByte_toNat h
  simp only [isDigit, Bool.and_eq_true, decide_eq_true_eq, UInt8.le_iff_toNat_le, hd]
  constructor
  · show 48 ≤ 48 + d
    omega
  · show 48 + d ≤ 57
    omega

theorem digitsValue_snoc (ds : CStr) (c : UInt8) :
    digitsValue (ds ++ [c]) = 10 * digitsValue ds + (c.toNat - 48) := by
  simp [digitsValue]

theorem digitsValue_reverse_map (l : List ℕ) (h : ∀ d ∈ l, d < 10) :
    digitsValue ((l.map digitByte).reverse) = Nat.ofDigits 10 l := by
  induction l with
  | nil => rfl
  | cons d l ih =>
    have hd : (digitByte d).toNat = 48 + d := digitByte_toNat (h d (by simp))
    rw [List.map_cons, List.reverse_cons, digitsValue_snoc, ih (fun e he => h e (by simp [he])),
      Nat.ofDigits_cons, hd]
    omega

theorem digitsValue_decimal (n : ℕ) : digitsValue (decimal n) = n := by
  unfold decimal
  split_ifs with h
  · subst h
    rfl
  · rw [digitsValue_reverse_map _ (fun d hd => Nat.digits_lt_base (by norm_num) hd),
      Nat.ofDigits_digits]

theorem decimal_ne_nil (n : ℕ) : decimal n ≠ [] := by
  unfold decimal
  split_ifs with h
  · simp
  · simpa [Nat.digits_eq_nil_iff_eq_zero] using h

theorem isDigit_of_mem_decimal {n : ℕ} {c : UInt8} (h : c ∈ decimal n) : isDigit c = true := by
  unfold decimal at h
  split_ifs at h with h0
  · obtain rfl : c = 48 := by simpa using h
    rfl
  · obtain ⟨d, hd, rfl⟩ : ∃ d ∈ Nat.digits 10 n, digitByte d = c := by simpa using h
    exact isDigit_digitByte (Nat.digits_lt_base (by norm_num) hd)

/-- Digits are neither white space, a sign, a newline nor the end of a string. -/
theorem isDigit_ne {c : UInt8} (h : isDigit c = true) :
    isSpace c = false ∧ c ≠ 43 ∧ c ≠ 45 ∧ c ≠ 10 ∧ c ≠ 0 ∧ c ≠ 58 := by
  simp only [isDigit, Bool.and_eq_true, decide_eq_true_eq, UInt8.le_iff_toNat_le] at h
  have hlo : 48 ≤ c.toNat := h.1
  refine ⟨?_, ?_, ?_, ?_, ?_, ?_⟩
  · simp only [isSpace, Bool.or_eq_false_iff, Bool.and_eq_false_iff, beq_eq_false_iff_ne, ne_eq,
      decide_eq_false_iff_not, UInt8.le_iff_toNat_le]
    refine ⟨?_, Or.inr ?_⟩
    · rintro rfl
      exact absurd hlo (by decide)
    · show ¬ c.toNat ≤ 13
      omega
  · rintro rfl
    exact absurd hlo (by decide)
  · rintro rfl
    exact absurd hlo (by decide)
  · rintro rfl
    exact absurd hlo (by decide)
  · rintro rfl
    exact absurd hlo (by decide)
  · rintro rfl
    have hhi : (58 : UInt8).toNat ≤ (57 : UInt8).toNat := h.2
    exact absurd hhi (by decide)

/-- A number below `10 ^ k` has at most `k` digits. -/
theorem decimal_length_le {n k : ℕ} (hk : 1 ≤ k) (h : n < 10 ^ k) : (decimal n).length ≤ k := by
  unfold decimal
  split_ifs with h0
  · exact hk
  · rw [List.length_reverse, List.length_map, Nat.digits_length_le_iff (by norm_num)]
    exact h

/-- `%0<w>d` of a number that is not negative. -/
def zeroPadded (w n : ℕ) : CStr := List.replicate (w - (decimal n).length) 48 ++ decimal n

theorem le_zeroPadded_length (w n : ℕ) : w ≤ (zeroPadded w n).length := by
  rw [zeroPadded, List.length_append, List.length_replicate]
  omega

theorem zeroPadded_length_le {w n k : ℕ} (hk : 1 ≤ k) (hw : w ≤ k) (h : n < 10 ^ k) :
    (zeroPadded w n).length ≤ k := by
  have hlen := decimal_length_le hk h
  rw [zeroPadded, List.length_append, List.length_replicate]
  omega

/-- A number that fits the field has exactly its width. -/
theorem zeroPadded_length {w n : ℕ} (hw : 1 ≤ w) (h : n < 10 ^ w) : (zeroPadded w n).length = w :=
  le_antisymm (zeroPadded_length_le hw le_rfl h) (le_zeroPadded_length w n)

theorem isDigit_of_mem_zeroPadded {w n : ℕ} {c : UInt8} (h : c ∈ zeroPadded w n) : isDigit c = true := by
  rcases List.mem_append.mp h with h | h
  · obtain rfl := (List.mem_replicate.mp h).2
    rfl
  · exact isDigit_of_mem_decimal h

theorem digitsValue_zeros (k : ℕ) (ds : CStr) : digitsValue (List.replicate k 48 ++ ds) = digitsValue ds := by
  induction k with
  | zero => rfl
  | succ k ih =>
    rw [List.replicate_succ, List.cons_append, ← ih]
    rfl

theorem digitsValue_zeroPadded (w n : ℕ) : digitsValue (zeroPadded w n) = n := by
  rw [zeroPadded, digitsValue_zeros, digitsValue_decimal]

theorem digitsValue_append (as bs : CStr) :
    digitsValue (as ++ bs) = digitsValue as * 10 ^ bs.length + digitsValue bs := by
  induction bs using List.reverseRecOn with
  | nil => simp [digitsValue]
  | append_singleton bs c ih =>
    rw [← List.append_assoc, digitsValue_snoc, digitsValue_snoc, ih, List.length_append,
      List.length_singleton, Nat.pow_succ]
    ring

theorem digitsValue_lt {ds : CStr} (hds : ∀ c ∈ ds, isDigit c = true) :
    digitsValue ds < 10 ^ ds.length := by
  induction ds using List.reverseRecOn with
  | nil => decide
  | append_singleton ds c ih =>
    have hc := hds c (by simp)
    simp only [isDigit, Bool.and_eq_true, decide_eq_true_eq, UInt8.le_iff_toNat_le] at hc
    have hhi : c.toNat ≤ 57 := hc.2
    have hrec := ih fun d hd => hds d (by simp [hd])
    rw [digitsValue_snoc, List.length_append, List.length_singleton, pow_succ]
    omega

/-- A number that does not fit the field is longer. -/
theorem lt_zeroPadded_length {w n : ℕ} (h : 10 ^ w ≤ n) : w < (zeroPadded w n).length := by
  have hval := @digitsValue_lt (zeroPadded w n) fun c => isDigit_of_mem_zeroPadded
  rw [digitsValue_zeroPadded] at hval
  by_contra hle
  have hpow : 10 ^ (zeroPadded w n).length ≤ 10 ^ w := Nat.pow_le_pow_right (by norm_num) (by omega)
  omega

/-- Its first digits are another number, -/
theorem zeroPadded_take_lt {w n : ℕ} (h : 10 ^ w ≤ n) : digitsValue ((zeroPadded w n).take w) < n := by
  have hval := @digitsValue_lt ((zeroPadded w n).take w)
    fun c hc => isDigit_of_mem_zeroPadded (List.mem_of_mem_take hc)
  have hlen : ((zeroPadded w n).take w).length ≤ w := List.length_take_le _ _
  have hpow := Nat.pow_le_pow_right (show 0 < 10 by norm_num) hlen
  omega

/-- which is not zero. -/
theorem zeroPadded_take_pos {w n : ℕ} (hw : 1 ≤ w) (h : 10 ^ w ≤ n) :
    0 < digitsValue ((zeroPadded w n).take w) := by
  have hlong := lt_zeroPadded_length h
  by_contra hzero
  have hsplit := digitsValue_append ((zeroPadded w n).take w) ((zeroPadded w n).drop w)
  rw [List.take_append_drop, digitsValue_zeroPadded, Nat.eq_zero_of_not_pos hzero, Nat.zero_mul,
    Nat.zero_add] at hsplit
  have hval := @digitsValue_lt ((zeroPadded w n).drop w)
    fun c hc => isDigit_of_mem_zeroPadded (List.mem_of_mem_drop hc)
  rw [← hsplit, List.length_drop] at hval
  have hpow : 10 ^ ((zeroPadded w n).length - w) ≤ 10 ^ max w ((zeroPadded w n).length - w) :=
    Nat.pow_le_pow_right (by norm_num) (le_max_right _ _)
  have hlen := @zeroPadded_length_le w n (max w ((zeroPadded w n).length - w)) (by omega) (by omega) (by omega)
  omega

theorem decimalInt_length_le {z : ℤ} {k : ℕ} (hk : 1 ≤ k) (h : z.natAbs < 10 ^ k) :
    (decimalInt z).length ≤ k + 1 := by
  have hlen := decimal_length_le hk h
  unfold decimalInt
  split_ifs
  · rw [List.length_cons]
    omega
  · omega

/-- A printed number is made of digits and a sign. -/
theorem mem_decimalInt {z : ℤ} {c : UInt8} (h : c ∈ decimalInt z) : isDigit c = true ∨ c = 45 := by
  unfold decimalInt at h
  split_ifs at h
  · rcases List.mem_cons.mp h with rfl | h
    · exact Or.inr rfl
    · exact Or.inl (isDigit_of_mem_decimal h)
  · exact Or.inl (isDigit_of_mem_decimal h)

/-- A printed number has neither a newline nor the end of a string in it. -/
theorem not_mem_decimalInt (z : ℤ) : newline ∉ decimalInt z ∧ (0 : UInt8) ∉ decimalInt z := by
  refine ⟨fun h => ?_, fun h => ?_⟩
  · rcases mem_decimalInt h with hd | hd
    · exact absurd hd (by decide)
    · exact absurd hd (by decide)
  · rcases mem_decimalInt h with hd | hd
    · exact absurd hd (by decide)
    · exact absurd hd (by decide)

/-- A printed number begins with a digit or a sign. -/
theorem decimalInt_head (z : ℤ) : ∃ c t, decimalInt z = c :: t ∧ (isDigit c = true ∨ c = 45) := by
  unfold decimalInt
  split_ifs
  · exact ⟨45, _, rfl, Or.inr rfl⟩
  · obtain ⟨c, t, hct⟩ := List.exists_cons_of_ne_nil (decimal_ne_nil z.natAbs)
    exact ⟨c, t, hct, Or.inl (isDigit_of_mem_decimal (n := z.natAbs) (by rw [hct]; simp))⟩

/-! ## Formatted input -/

/-- The longest run of digits of `s`, of at most `w` bytes, and what follows it. -/
def spanDigits : ℕ → CStr → CStr × CStr
  | 0, s => ([], s)
  | _ + 1, [] => ([], [])
  | w + 1, c :: s =>
      if isDigit c then (c :: (spanDigits w s).1, (spanDigits w s).2) else ([], c :: s)

/-- The outcome of one numeric field. -/
inductive Scan where
  | eof
  | fail
  | val (v : ℤ) (rest : CStr)
  deriving DecidableEq, Repr

/-- The digits of a field, after its sign. -/
def scanDigits (neg : Bool) (w : ℕ) (s : CStr) : Scan :=
  match (spanDigits w s).1 with
  | [] => .fail
  | ds => .val (if neg then -(digitsValue ds : ℤ) else digitsValue ds) (spanDigits w s).2

/-- A field `%<w>d`, `0 < w`. -/
def scanField (w : ℕ) (s : CStr) : Scan :=
  match s.dropWhile isSpace with
  | [] => .eof
  | c :: t =>
      if c = 45 then scanDigits true (w - 1) t
      else if c = 43 then scanDigits false (w - 1) t
      else scanDigits false w (c :: t)

/-- A field `%d` without a width. -/
def scanInt (s : CStr) : Scan := scanField s.length s

/-- What `%ld` stores: the conversion saturates at the bounds of the type. -/
def longValue (v : ℤ) : ℤ := max (-2 ^ 63) (min v (2 ^ 63 - 1))

/-- What `%d` stores: the `long` value, cut down to an `int`. -/
def intValue (v : ℤ) : ℤ := (longValue v).bmod (2 ^ 32)

theorem longValue_of_fits {v : ℤ} (hlo : -2 ^ 63 ≤ v) (hhi : v < 2 ^ 63) : longValue v = v := by
  unfold longValue
  omega

theorem intValue_of_fits {v : ℤ} (hlo : -2 ^ 31 ≤ v) (hhi : v < 2 ^ 31) : intValue v = v := by
  rw [intValue, longValue_of_fits (by omega) (by omega), Int.bmod_eq_of_le] <;> omega

theorem intValue_lt (v : ℤ) : intValue v < 2 ^ 31 := by
  unfold intValue
  rw [Int.bmod_def]
  split_ifs <;> omega

theorem spanDigits_append {ds rest : CStr} {w : ℕ} (hds : ∀ c ∈ ds, isDigit c = true)
    (hw : ds.length ≤ w) (hrest : w = ds.length ∨ ∀ c ∈ rest.head?, isDigit c = false) :
    spanDigits w (ds ++ rest) = (ds, rest) := by
  induction ds generalizing w with
  | nil =>
    cases w with
    | zero => rfl
    | succ w =>
      cases rest with
      | nil => rfl
      | cons c rest =>
        have hc : isDigit c = false := by simpa using hrest
        simp [spanDigits, hc]
  | cons d ds ih =>
    cases w with
    | zero => simp at hw
    | succ w =>
      have hd : isDigit d = true := hds d (by simp)
      have hrec := ih (w := w) (fun c hc => hds c (by simp [hc])) (by simpa using hw)
        (by simpa using hrest)
      simp [spanDigits, hd, hrec]

/-- A run of digits reads as its value. -/
theorem scanDigits_append {ds rest : CStr} {w : ℕ} (neg : Bool) (hne : ds ≠ [])
    (hds : ∀ c ∈ ds, isDigit c = true) (hw : ds.length ≤ w)
    (hrest : w = ds.length ∨ ∀ c ∈ rest.head?, isDigit c = false) :
    scanDigits neg w (ds ++ rest)
      = .val (if neg then -(digitsValue ds : ℤ) else digitsValue ds) rest := by
  rw [scanDigits, spanDigits_append hds hw hrest]
  cases ds with
  | nil => exact absurd rfl hne
  | cons d ds => rfl

/-- **Printed numbers read back.**  A number printed with `%d`, followed by no digit, is what a wide
enough field reads. -/
theorem scanField_decimalInt (z : ℤ) (rest : CStr) {w : ℕ} (hw : (decimalInt z).length ≤ w)
    (hrest : ∀ c ∈ rest.head?, isDigit c = false) :
    scanField w (decimalInt z ++ rest) = .val z rest := by
  have hval := digitsValue_decimal z.natAbs
  have hdig : ∀ c ∈ decimal z.natAbs, isDigit c = true := fun c => isDigit_of_mem_decimal
  unfold decimalInt at hw ⊢
  split_ifs at hw ⊢ with hz
  · have hspace : isSpace 45 = false := rfl
    rw [List.length_cons] at hw
    rw [List.cons_append, scanField, List.dropWhile_cons_of_neg (by simp [hspace])]
    simp only [if_true]
    rw [scanDigits_append true (decimal_ne_nil _) hdig (by omega) (Or.inr hrest), hval]
    simp only [if_true, Scan.val.injEq, and_true]
    omega
  · obtain ⟨c, t, hct⟩ := List.exists_cons_of_ne_nil (decimal_ne_nil z.natAbs)
    have hc := isDigit_ne (hdig c (by simp [hct]))
    have hscan := scanDigits_append false (decimal_ne_nil _) hdig hw (Or.inr hrest)
    rw [hval] at hscan
    rw [hct, List.cons_append] at hscan ⊢
    rw [scanField, List.dropWhile_cons_of_neg (by simp [hc.1])]
    simp only [if_neg hc.2.1, if_neg hc.2.2.1]
    rw [hscan]
    simp only [Bool.false_eq_true, if_false, Scan.val.injEq, and_true]
    omega

/-- White space before a field is skipped. -/
theorem scanField_space {w : ℕ} {c : UInt8} (s : CStr) (hc : isSpace c = true) :
    scanField w (c :: s) = scanField w s := by
  unfold scanField
  rw [List.dropWhile_cons_of_pos hc]

/-- Reading back without a width. -/
theorem scanInt_decimalInt (z : ℤ) (rest : CStr) (hrest : ∀ c ∈ rest.head?, isDigit c = false) :
    scanInt (decimalInt z ++ rest) = .val z rest :=
  scanField_decimalInt z rest (by rw [List.length_append]; omega) hrest

/-- Reading back after one blank. -/
theorem scanInt_blank_decimalInt (z : ℤ) (rest : CStr)
    (hrest : ∀ c ∈ rest.head?, isDigit c = false) :
    scanInt (32 :: (decimalInt z ++ rest)) = .val z rest := by
  rw [scanInt, scanField_space _ rfl]
  exact scanField_decimalInt z rest (by rw [List.length_cons, List.length_append]; omega) hrest

/-! ## Line input -/

/-- What one `fgets` with room for `n` bytes takes from the input, and what it leaves. -/
def fgetsChunk : ℕ → List UInt8 → List UInt8 × List UInt8
  | 0, s => ([], s)
  | _ + 1, [] => ([], [])
  | n + 1, c :: s =>
      if c = newline then ([c], s) else (c :: (fgetsChunk n s).1, (fgetsChunk n s).2)

/-- The strings successive calls of `fgets` leave in the buffer, until the end of the input. -/
def fgetsLoop (size : ℕ) : ℕ → List UInt8 → List CStr
  | 0, _ => []
  | _ + 1, [] => []
  | fuel + 1, c :: s =>
      let r := fgetsChunk (size - 1) (c :: s)
      cstring r.1 :: fgetsLoop size fuel r.2

/-- All the lines of a text, as `fgets(line, size, fd)` delivers them. -/
def fgetsLines (size : ℕ) (text : List UInt8) : List CStr := fgetsLoop size text.length text

/-- Nothing is lost. -/
theorem fgetsChunk_parts (n : ℕ) (s : List UInt8) : (fgetsChunk n s).1 ++ (fgetsChunk n s).2 = s := by
  induction n generalizing s with
  | zero => rfl
  | succ n ih =>
    cases s with
    | nil => rfl
    | cons c s =>
      rw [fgetsChunk]
      split_ifs
      · rfl
      · exact congrArg (c :: ·) (ih s)

theorem fgetsChunk_length (n : ℕ) (s : List UInt8) : (fgetsChunk n s).2.length ≤ s.length := by
  induction n generalizing s with
  | zero => rfl
  | succ n ih =>
    cases s with
    | nil => rfl
    | cons c s =>
      rw [fgetsChunk]
      split
      · simp
      · exact (ih s).trans (by simp)

theorem fgetsChunk_cons_length (n : ℕ) (c : UInt8) (s : List UInt8) :
    (fgetsChunk (n + 1) (c :: s)).2.length ≤ s.length := by
  rw [fgetsChunk]
  split
  · rfl
  · exact fgetsChunk_length n s

theorem fgetsChunk_fits (n : ℕ) (s : List UInt8) : (fgetsChunk n s).1.length ≤ n := by
  induction n generalizing s with
  | zero => simp [fgetsChunk]
  | succ n ih =>
    cases s with
    | nil => simp [fgetsChunk]
    | cons c s =>
      rw [fgetsChunk]
      split
      · simp
      · simpa using ih s

/-- A line fits its buffer. -/
theorem length_of_mem_fgetsLines {size : ℕ} {text : List UInt8} {line : CStr}
    (h : line ∈ fgetsLines size text) : line.length ≤ size - 1 := by
  suffices hall : ∀ (fuel : ℕ) (s : List UInt8), line ∈ fgetsLoop size fuel s →
      line.length ≤ size - 1 from hall _ _ h
  intro fuel
  induction fuel with
  | zero => intro s hs; simp [fgetsLoop] at hs
  | succ fuel ih =>
    intro s hs
    cases s with
    | nil => simp [fgetsLoop] at hs
    | cons c s =>
      rcases List.mem_cons.mp hs with rfl | hs
      · have htake : (cstring (fgetsChunk (size - 1) (c :: s)).1).length ≤
            (fgetsChunk (size - 1) (c :: s)).1.length := (List.takeWhile_prefix _).length_le
        exact htake.trans (fgetsChunk_fits _ _)
      · exact ih _ hs

/-- Any fuel that covers the input gives the same lines. -/
theorem fgetsLoop_fuel (n : ℕ) {fuel : ℕ} {s : List UInt8} (h : s.length ≤ fuel) :
    fgetsLoop (n + 2) fuel s = fgetsLines (n + 2) s := by
  suffices hall : ∀ (f g : ℕ) (s : List UInt8), s.length ≤ f → s.length ≤ g →
      fgetsLoop (n + 2) f s = fgetsLoop (n + 2) g s from hall _ _ _ h le_rfl
  intro f
  induction f with
  | zero =>
    intro g s hf _
    obtain rfl := List.length_eq_zero_iff.mp (Nat.le_zero.mp hf)
    cases g <;> rfl
  | succ f ih =>
    intro g s hf hg
    cases s with
    | nil => cases g <;> rfl
    | cons c s =>
      cases g with
      | zero => simp at hg
      | succ g =>
        have hle := fgetsChunk_cons_length n c s
        simp only [List.length_cons] at hf hg
        simp only [fgetsLoop, show n + 2 - 1 = n + 1 from rfl]
        rw [ih g _ (by omega) (by omega)]

theorem fgetsChunk_line {l rest : List UInt8} {n : ℕ} (hnl : newline ∉ l) (hn : l.length < n) :
    fgetsChunk n (l ++ newline :: rest) = (l ++ [newline], rest) := by
  induction l generalizing n with
  | nil =>
    cases n with
    | zero => simp at hn
    | succ n => rfl
  | cons c l ih =>
    cases n with
    | zero => simp at hn
    | succ n =>
      have hc : c ≠ newline := by
        rintro rfl
        simp at hnl
      have hrec := ih (n := n) (fun h => hnl (by simp [h])) (by simpa using hn)
      rw [List.cons_append, fgetsChunk, if_neg hc, hrec]
      rfl

theorem cstring_of_not_mem {l : List UInt8} (h : (0 : UInt8) ∉ l) : cstring l = l := by
  rw [cstring, List.takeWhile_eq_self_iff]
  intro c hc
  have hne : c ≠ 0 := fun h0 => h (h0 ▸ hc)
  simpa using hne

/-- **A line that fits the buffer is one line.** -/
theorem fgetsLines_cons {n : ℕ} {l rest : List UInt8} (hnl : newline ∉ l) (h0 : (0 : UInt8) ∉ l)
    (hn : l.length < n + 1) :
    fgetsLines (n + 2) (l ++ newline :: rest) = (l ++ [newline]) :: fgetsLines (n + 2) rest := by
  have hchunk : fgetsChunk (n + 1) (l ++ newline :: rest) = (l ++ [newline], rest) :=
    fgetsChunk_line hnl hn
  have hstr : cstring (l ++ [newline]) = l ++ [newline] :=
    cstring_of_not_mem (by simpa [newline] using h0)
  obtain ⟨c, t, hct⟩ : ∃ c t, l ++ newline :: rest = c :: t :=
    List.exists_cons_of_ne_nil (by simp)
  have hlen : rest.length ≤ t.length := by
    have := congrArg List.length hct
    simp only [List.length_append, List.length_cons] at this
    omega
  rw [hct] at hchunk ⊢
  rw [fgetsLines, List.length_cons, fgetsLoop]
  simp only [show n + 2 - 1 = n + 1 from rfl, hchunk, hstr]
  rw [fgetsLoop_fuel n hlen]

/-- A text made of lines that fit the buffer is read line by line. -/
theorem fgetsLines_flatMap {n : ℕ} (ls : List (List UInt8))
    (h : ∀ l ∈ ls, newline ∉ l ∧ (0 : UInt8) ∉ l ∧ l.length < n + 1) :
    fgetsLines (n + 2) (ls.flatMap fun l => l ++ [newline]) = ls.map fun l => l ++ [newline] := by
  induction ls with
  | nil => rfl
  | cons l ls ih =>
    obtain ⟨hnl, h0, hlen⟩ := h l (by simp)
    rw [List.flatMap_cons, List.append_assoc, List.singleton_append, fgetsLines_cons hnl h0 hlen,
      ih fun l' hl' => h l' (by simp [hl']), List.map_cons]

theorem fgetsChunk_long {l rest : List UInt8} {n : ℕ} (hnl : newline ∉ l) (hn : n ≤ l.length) :
    (fgetsChunk n (l ++ rest)).1 = l.take n := by
  induction l generalizing n with
  | nil =>
    obtain rfl : n = 0 := Nat.le_zero.mp hn
    rfl
  | cons c l ih =>
    cases n with
    | zero => rfl
    | succ n =>
      have hc : c ≠ newline := by
        rintro rfl
        simp at hnl
      have hrec := ih (n := n) (fun h => hnl (by simp [h])) (by simpa using hn)
      rw [List.cons_append, fgetsChunk, if_neg hc, hrec]
      rfl

/-- A line that does not fit is cut, before its newline. -/
theorem fgetsLines_long {n : ℕ} {l : List UInt8} (rest : List UInt8) (hnl : newline ∉ l) (h0 : (0 : UInt8) ∉ l)
    (hn : n + 1 ≤ l.length) :
    ∃ ls, fgetsLines (n + 2) (l ++ rest) = l.take (n + 1) :: ls := by
  have hchunk : (fgetsChunk (n + 1) (l ++ rest)).1 = l.take (n + 1) := fgetsChunk_long hnl hn
  obtain ⟨c, t, hct⟩ : ∃ c t, l ++ rest = c :: t := by
    cases l with
    | nil => simp at hn
    | cons c l => exact ⟨c, l ++ rest, rfl⟩
  rw [hct] at hchunk ⊢
  rw [fgetsLines, List.length_cons, fgetsLoop]
  simp only [show n + 2 - 1 = n + 1 from rfl, hchunk]
  rw [cstring_of_not_mem fun h => h0 (List.mem_of_mem_take h)]
  exact ⟨_, rfl⟩

end CLib
