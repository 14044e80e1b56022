import Veejay.CLib.Text

/-!
# Byte memory

An allocated object is the list of its bytes, and a pointer into it is an index.  A read outside the
object is the fault `outOfBounds`, a write outside it is `overrun`; so a function that returns on the first
`n` bytes of an object has looked at no other byte.  `sscanf` on memory looks at one byte after the other, and only as far as the field goes: through the
white space, the sign and the digits, up to the field's width, and at the byte that ends a shorter field.

* `byteAt`, `slice`, `overwrite` — one byte, a copy out of an object, a copy into it;
* `readField` — a numeric field of `sscanf`; a zero byte ends the input;
* `readField_append` — **locality**: what was read from the first bytes of an object does not depend on
  the bytes behind them;
* `readField_digits` — a field of digits reads as its value;
* `HasAt` — bytes in an object, what a copy leaves of them, and how they are read back;
* `Allows` — a run that ends, faulting or with such a result.
-/

namespace CLib

/-! ## Accesses -/

/-- `mem[i]` -/
def byteAt (mem : List UInt8) (i : ℤ) : Exec UInt8 :=
  if 0 ≤ i then
    match mem[i.toNat]? with
    | some c => .ok c
    | none => .error .outOfBounds
  else .error .outOfBounds

/-- The `n` bytes from `mem + i` on, as `memcpy` reads them; no byte is read where `n` is zero. -/
def slice (mem : List UInt8) (i : ℤ) (n : ℕ) : Exec (List UInt8) :=
  if n = 0 ∨ (0 ≤ i ∧ i + n ≤ mem.length) then .ok ((mem.drop i.toNat).take n)
  else .error .outOfBounds

/-- `memcpy (mem + a, bytes, …)` -/
def overwrite (mem : List UInt8) (a : ℕ) (bytes : List UInt8) : Exec (List UInt8) :=
  if a + bytes.length ≤ mem.length then .ok (mem.take a ++ bytes ++ mem.drop (a + bytes.length))
  else .error .overrun

theorem byteAt_eq_ok {mem : List UInt8} {i : ℤ} {c : UInt8} :
    byteAt mem i = .ok c ↔ 0 ≤ i ∧ mem[i.toNat]? = some c := by
  unfold byteAt
  split_ifs with hi
  · cases mem[i.toNat]? with
    | none => simp
    | some d => simp [hi]
  · simp [hi]

theorem byteAt_of_lt {mem : List UInt8} {i : ℕ} (h : i < mem.length) : byteAt mem i = .ok mem[i] :=
  byteAt_eq_ok.mpr ⟨Int.natCast_nonneg i, by rw [Int.toNat_natCast, List.getElem?_eq_getElem h]⟩

/-- A byte is there, or it is not. -/
theorem byteAt_cases (mem : List UInt8) (i : ℤ) :
    (∃ c, byteAt mem i = .ok c ∧ 0 ≤ i ∧ i < mem.length) ∨
      byteAt mem i = .error .outOfBounds ∧ ¬ (0 ≤ i ∧ i < mem.length) := by
  by_cases hi : 0 ≤ i ∧ i < mem.length
  · have hlt : i.toNat < mem.length := by omega
    exact Or.inl ⟨mem[i.toNat], byteAt_eq_ok.mpr ⟨hi.1, List.getElem?_eq_getElem hlt⟩, hi⟩
  · refine Or.inr ⟨?_, hi⟩
    unfold byteAt
    split_ifs with h0
    · rw [List.getElem?_eq_none (by omega)]
    · rfl

theorem byteAt_append {mem : List UInt8} {i : ℤ} {c : UInt8} (h : byteAt mem i = .ok c)
    (rest : List UInt8) : byteAt (mem ++ rest) i = .ok c := by
  obtain ⟨hi, hc⟩ := byteAt_eq_ok.mp h
  have hlt := (List.getElem?_eq_some_iff.mp hc).1
  exact byteAt_eq_ok.mpr ⟨hi, by rw [List.getElem?_append_left hlt, hc]⟩

theorem slice_append {mem bytes : List UInt8} {i : ℤ} {n : ℕ} (h : slice mem i n = .ok bytes)
    (rest : List UInt8) : slice (mem ++ rest) i n = .ok bytes := by
  unfold slice at h ⊢
  split_ifs at h with hn
  obtain rfl := Except.ok.inj h
  rcases hn with rfl | ⟨hi, hlen⟩
  · simp
  · rw [if_pos (Or.inr ⟨hi, by rw [List.length_append]; push_cast; omega⟩)]
    rw [List.drop_append_of_le_length (by omega), List.take_append_of_le_length]
    rw [List.length_drop]
    omega

theorem slice_eq_ok {mem bytes : List UInt8} {i : ℤ} {n : ℕ} :
    slice mem i n = .ok bytes ↔
      (n = 0 ∨ (0 ≤ i ∧ i + n ≤ mem.length)) ∧ bytes = (mem.drop i.toNat).take n := by
  unfold slice
  split_ifs with h
  · simp only [Except.ok.injEq, h, true_and]
    exact eq_comm
  · simp [h]

theorem slice_length {mem bytes : List UInt8} {i : ℤ} {n : ℕ} (h : slice mem i n = .ok bytes) :
    bytes.length = n := by
  obtain ⟨hn, rfl⟩ := slice_eq_ok.mp h
  rw [List.length_take, List.length_drop]
  rcases hn with rfl | hn
  · exact Nat.zero_min _
  · omega

/-- What is copied out of an object is a contiguous part of it. -/
theorem slice_within {mem bytes : List UInt8} {i : ℤ} {n : ℕ} (h : slice mem i n = .ok bytes) :
    bytes <:+: mem := by
  obtain ⟨-, rfl⟩ := slice_eq_ok.mp h
  exact (List.take_prefix n _).isInfix.trans (List.drop_suffix _ mem).isInfix

theorem overwrite_eq_ok {mem mem' bytes : List UInt8} {a : ℕ} :
    overwrite mem a bytes = .ok mem' ↔
      a + bytes.length ≤ mem.length ∧
        mem' = mem.take a ++ bytes ++ mem.drop (a + bytes.length) := by
  unfold overwrite
  split_ifs with h
  · simp only [Except.ok.injEq, h, true_and]
    exact eq_comm
  · simp [h]

theorem overwrite_length {mem mem' bytes : List UInt8} {a : ℕ}
    (h : overwrite mem a bytes = .ok mem') : mem'.length = mem.length := by
  obtain ⟨hlen, rfl⟩ := overwrite_eq_ok.mp h
  simp only [List.length_append, List.length_take, List.length_drop]
  omega

/-- What was copied into an object is there. -/
theorem take_drop_overwrite {mem mem' bytes : List UInt8} {a : ℕ}
    (h : overwrite mem a bytes = .ok mem') : (mem'.drop a).take bytes.length = bytes := by
  obtain ⟨hlen, rfl⟩ := overwrite_eq_ok.mp h
  have htake : (mem.take a).length = a := by
    rw [List.length_take]
    omega
  rw [List.append_assoc, List.drop_left' htake, List.take_left' rfl]

/-- Bytes in front of a copy, and bytes behind it, stay as they are. -/
theorem overwrite_apart {mem mem' bytes : List UInt8} {a b n : ℕ}
    (h : overwrite mem a bytes = .ok mem') (happart : b + n ≤ a ∨ a + bytes.length ≤ b) :
    (mem'.drop b).take n = (mem.drop b).take n := by
  obtain ⟨hlen, rfl⟩ := overwrite_eq_ok.mp h
  have htake : (mem.take a).length = a := by
    rw [List.length_take]
    omega
  refine List.ext_getElem? fun j => ?_
  rw [List.getElem?_take, List.getElem?_take]
  split_ifs with hj
  · rw [List.getElem?_drop, List.getElem?_drop]
    rcases happart with hleft | hright
    · rw [List.append_assoc, List.getElem?_append_left (by omega), List.getElem?_take_of_lt (by omega)]
    · rw [List.getElem?_append_right (by rw [List.length_append]; omega), List.getElem?_drop,
        List.length_append, htake]
      congr 1
      omega
  · rfl

/-! ## Contents -/

/-- The bytes are in the object, from `a` on. -/
def HasAt (mem : List UInt8) (a : ℕ) (bytes : List UInt8) : Prop :=
  a + bytes.length ≤ mem.length ∧ (mem.drop a).take bytes.length = bytes

theorem hasAt_of_overwrite {mem mem' bytes : List UInt8} {a : ℕ}
    (h : overwrite mem a bytes = .ok mem') : HasAt mem' a bytes :=
  ⟨(overwrite_length h).symm ▸ (overwrite_eq_ok.mp h).1, take_drop_overwrite h⟩

/-- What is apart from a copy stays. -/
theorem HasAt.kept {mem mem' bytes others : List UInt8} {a b : ℕ} (hb : HasAt mem b others)
    (h : overwrite mem a bytes = .ok mem')
    (happart : b + others.length ≤ a ∨ a + bytes.length ≤ b) : HasAt mem' b others := by
  refine ⟨(overwrite_length h).symm ▸ hb.1, ?_⟩
  rw [overwrite_apart h happart]
  exact hb.2

/-- Two parts that meet are one. -/
theorem HasAt.append {mem front back : List UInt8} {a : ℕ} (hfront : HasAt mem a front)
    (hback : HasAt mem (a + front.length) back) : HasAt mem a (front ++ back) := by
  obtain ⟨hlen, hbytes⟩ := hback
  refine ⟨by rw [List.length_append]; omega, ?_⟩
  rw [List.length_append, List.take_add, List.drop_drop, hfront.2, hbytes]

theorem HasAt.left {mem front back : List UInt8} {a : ℕ} (h : HasAt mem a (front ++ back)) :
    HasAt mem a front := by
  obtain ⟨hlen, hbytes⟩ := h
  rw [List.length_append] at hlen hbytes
  refine ⟨by omega, ?_⟩
  have hcut := congrArg (List.take front.length) hbytes
  rwa [List.take_take, Nat.min_eq_left (Nat.le_add_right _ _), List.take_left' rfl] at hcut

theorem HasAt.right {mem front back : List UInt8} {a : ℕ} (h : HasAt mem a (front ++ back)) :
    HasAt mem (a + front.length) back := by
  obtain ⟨hlen, hbytes⟩ := h
  rw [List.length_append] at hlen hbytes
  refine ⟨by omega, ?_⟩
  have hcut := congrArg (List.drop front.length) hbytes
  rwa [List.drop_take, Nat.add_sub_cancel_left, List.drop_drop, List.drop_left' rfl] at hcut

theorem HasAt.slice {mem bytes : List UInt8} {a n : ℕ} (h : HasAt mem a bytes) (hn : bytes.length = n) :
    slice mem a n = .ok bytes := by
  obtain ⟨hlen, hbytes⟩ := h
  rw [slice_eq_ok]
  refine ⟨Or.inr ⟨Int.natCast_nonneg a, by omega⟩, ?_⟩
  rw [Int.toNat_natCast, ← hn, hbytes]

theorem overwrite_of_le {mem bytes : List UInt8} {a : ℕ} (h : a + bytes.length ≤ mem.length) :
    ∃ mem', overwrite mem a bytes = .ok mem' := ⟨_, if_pos h⟩

/-! ## Formatted input from memory -/

/-- White space is skipped. -/
def skipSpace : List UInt8 → Exec (List UInt8)
  | [] => .error .outOfBounds
  | c :: m => if isSpace c then skipSpace m else .ok (c :: m)

/-- At most `w` digits, and what follows them. -/
def takeDigits : ℕ → List UInt8 → Exec (CStr × List UInt8)
  | 0, m => .ok ([], m)
  | _ + 1, [] => .error .outOfBounds
  | w + 1, c :: m =>
    if isDigit c then do
      let r ← takeDigits w m
      .ok (c :: r.1, r.2)
    else .ok ([], c :: m)

/-- The digits of a field, after its sign. -/
def readDigits (neg : Bool) (w : ℕ) (m : List UInt8) : Exec Scan := do
  let r ← takeDigits w m
  match r.1 with
  | [] => .ok .fail
  | ds => .ok (.val (if neg then -(digitsValue ds : ℤ) else digitsValue ds) r.2)

/-- A field `%<w>d` of `sscanf`, from the address on whose bytes are `m`. -/
def readField (w : ℕ) (m : List UInt8) : Exec Scan := do
  match (← skipSpace m) with
  | [] => .error .outOfBounds
  | c :: t =>
    if c = 0 then .ok .eof
    else if c = 45 then readDigits true (w - 1) t
    else if c = 43 then readDigits false (w - 1) t
    else readDigits false w (c :: t)

/-- What was read, with more bytes behind it. -/
def Scan.extend (rest : List UInt8) : Scan → Scan
  | .eof => .eof
  | .fail => .fail
  | .val v m => .val v (m ++ rest)

theorem skipSpace_append {m t : List UInt8} (h : skipSpace m = .ok t) (rest : List UInt8) :
    skipSpace (m ++ rest) = .ok (t ++ rest) := by
  induction m with
  | nil => cases h
  | cons c m ih =>
    rw [List.cons_append, skipSpace]
    rw [skipSpace] at h
    split_ifs at h ⊢ with hc
    · exact ih h
    · obtain rfl := Except.ok.inj h
      rfl

theorem takeDigits_append {w : ℕ} {m : List UInt8} {r : CStr × List UInt8}
    (h : takeDigits w m = .ok r) (rest : List UInt8) :
    takeDigits w (m ++ rest) = .ok (r.1, r.2 ++ rest) := by
  induction w generalizing m r with
  | zero =>
    obtain rfl := Except.ok.inj h
    rfl
  | succ w ih =>
    cases m with
    | nil => cases h
    | cons c m =>
      rw [List.cons_append, takeDigits]
      rw [takeDigits] at h
      split_ifs at h ⊢ with hc
      · obtain ⟨r', hr', hr⟩ := bind_eq_ok.mp h
        obtain rfl := Except.ok.inj hr
        rw [ih hr', ok_bind]
      · obtain rfl := Except.ok.inj h
        rfl

theorem readDigits_append {neg : Bool} {w : ℕ} {m : List UInt8} {x : Scan}
    (h : readDigits neg w m = .ok x) (rest : List UInt8) :
    readDigits neg w (m ++ rest) = .ok (x.extend rest) := by
  unfold readDigits at h ⊢
  obtain ⟨⟨ds, t⟩, hr, hx⟩ := bind_eq_ok.mp h
  rw [takeDigits_append hr, ok_bind]
  cases ds with
  | nil =>
    obtain rfl := Except.ok.inj hx
    rfl
  | cons d ds =>
    obtain rfl := Except.ok.inj hx
    rfl

/-- **Locality.** -/
theorem readField_append {w : ℕ} {m : List UInt8} {x : Scan} (h : readField w m = .ok x)
    (rest : List UInt8) : readField w (m ++ rest) = .ok (x.extend rest) := by
  unfold readField at h ⊢
  obtain ⟨t, ht, hx⟩ := bind_eq_ok.mp h
  rw [skipSpace_append ht, ok_bind]
  cases t with
  | nil => cases hx
  | cons c t =>
    rw [List.cons_append]
    dsimp only at hx ⊢
    split_ifs at hx ⊢
    · obtain rfl := Except.ok.inj hx
      rfl
    · exact readDigits_append hx rest
    · exact readDigits_append hx rest
    · exact readDigits_append (m := c :: t) hx rest

theorem byteAt_readsOnly (mem : List UInt8) (i : ℤ) : ReadsOnly (byteAt mem i) := by
  rcases byteAt_cases mem i with ⟨c, hc, -⟩ | ⟨herr, -⟩
  · rw [hc]
    exact readsOnly_ok c
  · rw [herr]
    exact readsOnly_error

theorem slice_readsOnly (mem : List UInt8) (i : ℤ) (n : ℕ) : ReadsOnly (slice mem i n) := by
  unfold slice
  split_ifs
  · exact readsOnly_ok _
  · exact readsOnly_error

theorem overwrite_halts (mem : List UInt8) (a : ℕ) (bytes : List UInt8) :
    Halts (overwrite mem a bytes) := by
  unfold overwrite
  split_ifs
  · exact halts_ok _
  · exact halts_error (by decide)

/-- The run comes to an end, and what it returns, if it does, satisfies `P`. -/
def Allows {α : Type} (x : Exec α) (P : α → Prop) : Prop := Halts x ∧ ∀ a, x = .ok a → P a

theorem allows_ok {α : Type} {a : α} {P : α → Prop} (h : P a) : Allows (.ok a) P :=
  ⟨halts_ok a, fun _ hb => Except.ok.inj hb ▸ h⟩

theorem Allows.bind {α β : Type} {x : Exec α} {k : α → Exec β} {P : α → Prop} {Q : β → Prop} (hx : Allows x P)
    (hk : ∀ a, P a → Allows (k a) Q) : Allows (x >>= k) Q := by
  obtain ⟨hhalts, hP⟩ := hx
  cases x with
  | error f => exact ⟨fun h => hhalts (congrArg _ (Except.error.inj h)), fun b hb => by cases hb⟩
  | ok a => exact hk a (hP a rfl)

theorem Allows.mono {α : Type} {x : Exec α} {P Q : α → Prop} (h : Allows x P) (hPQ : ∀ a, P a → Q a) : Allows x Q :=
  ⟨h.1, fun a ha => hPQ a (h.2 a ha)⟩

theorem Halts.allows {α : Type} {x : Exec α} (h : Halts x) : Allows x fun _ => True := ⟨h, fun _ _ => trivial⟩

theorem allows_byteAt (mem : List UInt8) (i : ℤ) : Allows (byteAt mem i) fun _ => i < mem.length := by
  refine ⟨(byteAt_readsOnly mem i).halts, fun a h => ?_⟩
  rcases byteAt_cases mem i with ⟨c, -, -, hlt⟩ | ⟨herr, -⟩
  · exact hlt
  · rw [herr] at h
    cases h

theorem allows_slice (mem : List UInt8) (i : ℤ) (n : ℕ) : Allows (slice mem i n) fun _ => n = 0 ∨ i + n ≤ mem.length :=
  ⟨(slice_readsOnly mem i n).halts, fun _ h => (slice_eq_ok.mp h).1.imp_right And.right⟩

theorem skipSpace_readsOnly (m : List UInt8) : ReadsOnly (skipSpace m) := by
  induction m with
  | nil => exact readsOnly_error
  | cons c m ih =>
    rw [skipSpace]
    split_ifs
    · exact ih
    · exact readsOnly_ok _

theorem takeDigits_readsOnly (w : ℕ) (m : List UInt8) : ReadsOnly (takeDigits w m) := by
  induction w generalizing m with
  | zero => exact readsOnly_ok _
  | succ w ih =>
    cases m with
    | nil => exact readsOnly_error
    | cons c m =>
      rw [takeDigits]
      split_ifs
      · exact (ih m).bind fun r => readsOnly_ok _
      · exact readsOnly_ok _

theorem readField_readsOnly (w : ℕ) (m : List UInt8) : ReadsOnly (readField w m) := by
  have hdigits : ∀ neg w m, ReadsOnly (readDigits neg w m) := fun neg w m =>
    (takeDigits_readsOnly w m).bind fun r => by
      split
      · exact readsOnly_ok _
      · exact readsOnly_ok _
  refine (skipSpace_readsOnly m).bind fun t => ?_
  cases t with
  | nil => exact readsOnly_error
  | cons c t =>
    dsimp only
    split_ifs
    · exact readsOnly_ok _
    · exact hdigits _ _ _
    · exact hdigits _ _ _
    · exact hdigits _ _ _

theorem takeDigits_facts {w : ℕ} {m : List UInt8} {r : CStr × List UInt8}
    (h : takeDigits w m = .ok r) : r.1.length ≤ w ∧ ∀ c ∈ r.1, isDigit c = true := by
  induction w generalizing m r with
  | zero =>
    obtain rfl := Except.ok.inj h
    simp
  | succ w ih =>
    cases m with
    | nil => cases h
    | cons c m =>
      rw [takeDigits] at h
      split_ifs at h with hc
      · obtain ⟨r', hr', hr⟩ := bind_eq_ok.mp h
        obtain rfl := Except.ok.inj hr
        obtain ⟨hlen, hds⟩ := ih hr'
        refine ⟨by rw [List.length_cons]; omega, fun d hd => ?_⟩
        rcases List.mem_cons.mp hd with rfl | hd
        · exact hc
        · exact hds d hd
      · obtain rfl := Except.ok.inj h
        simp

theorem readDigits_val {neg : Bool} {w : ℕ} {m rest : List UInt8} {v : ℤ} (h : readDigits neg w m = .ok (.val v rest)) :
    ∃ d : ℕ, (d : ℤ) < 10 ^ w ∧ v = if neg then -(d : ℤ) else d := by
  obtain ⟨⟨ds, t⟩, hr, hx⟩ := bind_eq_ok.mp h
  obtain ⟨hlen, hds⟩ := takeDigits_facts hr
  have hlt : digitsValue ds < 10 ^ w := (digitsValue_lt hds).trans_le (Nat.pow_le_pow_right (by norm_num) hlen)
  cases ds with
  | nil => cases hx
  | cons d ds =>
    obtain ⟨rfl, -⟩ := Scan.val.inj (Except.ok.inj hx)
    exact ⟨_, by exact_mod_cast hlt, rfl⟩

/-- A field of width `w` has room for as many digits, or for one less and a sign. -/
theorem readField_bounds {w : ℕ} {m rest : List UInt8} {v : ℤ} (h : readField w m = .ok (.val v rest)) :
    -(10 ^ (w - 1) : ℤ) < v ∧ v < 10 ^ w := by
  have hpow : (10 ^ (w - 1) : ℤ) ≤ 10 ^ w := pow_le_pow_right₀ (by norm_num) (Nat.sub_le w 1)
  have hpos : (0 : ℤ) < 10 ^ (w - 1) := by positivity
  obtain ⟨t, -, hx⟩ := bind_eq_ok.mp h
  cases t with
  | nil => cases hx
  | cons c t =>
    dsimp only at hx
    split_ifs at hx
    · cases hx
    · obtain ⟨d, hd, rfl⟩ := readDigits_val hx
      rw [if_pos rfl]
      omega
    · obtain ⟨d, hd, rfl⟩ := readDigits_val hx
      rw [if_neg Bool.false_ne_true]
      omega
    · obtain ⟨d, hd, rfl⟩ := readDigits_val hx
      rw [if_neg Bool.false_ne_true]
      omega

/-- A field of width `w` holds less than `10 ^ w`. -/
theorem readField_lt {w : ℕ} {m rest : List UInt8} {v : ℤ} (h : readField w m = .ok (.val v rest)) :
    -(10 ^ w : ℤ) < v ∧ v < 10 ^ w := by
  have hpow : (10 ^ (w - 1) : ℤ) ≤ 10 ^ w := pow_le_pow_right₀ (by norm_num) (Nat.sub_le w 1)
  obtain ⟨hlo, hhi⟩ := readField_bounds h
  exact ⟨by omega, hhi⟩

theorem skipSpace_sublist {m t : List UInt8} (h : skipSpace m = .ok t) : t.Sublist m := by
  induction m with
  | nil => cases h
  | cons c m ih =>
    rw [skipSpace] at h
    split_ifs at h
    · exact (ih h).cons c
    · obtain rfl := Except.ok.inj h
      exact List.Sublist.refl _

/-- Without a minus sign, no number is negative. -/
theorem readField_nonneg {w : ℕ} {m rest : List UInt8} {v : ℤ} (hm : (45 : UInt8) ∉ m)
    (h : readField w m = .ok (.val v rest)) : 0 ≤ v := by
  have hdigits : ∀ {w' : ℕ} {t : List UInt8}, readDigits false w' t = .ok (.val v rest) → 0 ≤ v := by
    intro w' t hread
    obtain ⟨⟨ds, t'⟩, -, hx⟩ := bind_eq_ok.mp hread
    cases ds with
    | nil => cases hx
    | cons d ds =>
      obtain ⟨rfl, -⟩ := Scan.val.inj (Except.ok.inj hx)
      exact Int.natCast_nonneg _
  obtain ⟨t, ht, hx⟩ := bind_eq_ok.mp h
  cases t with
  | nil => cases hx
  | cons c t =>
    dsimp only at hx
    split_ifs at hx with h0 hminus
    · cases hx
    · exact absurd ((skipSpace_sublist ht).subset (hminus ▸ List.mem_cons_self)) hm
    · exact hdigits hx
    · exact hdigits hx

/-- A byte that is neither a digit nor white space nor a sign ends every field in front of it. -/
theorem takeDigits_stops (m : List UInt8) (w : ℕ) {c : UInt8} (hc : isDigit c = false) :
    ∃ ds t, takeDigits w (m ++ [c]) = .ok (ds, t ++ [c]) := by
  induction m generalizing w with
  | nil =>
    cases w with
    | zero => exact ⟨[], [], rfl⟩
    | succ w => exact ⟨[], [], by simp [takeDigits, hc]⟩
  | cons d m ih =>
    cases w with
    | zero => exact ⟨[], d :: m, rfl⟩
    | succ w =>
      rw [List.cons_append, takeDigits]
      split_ifs with hd
      · obtain ⟨ds, t, h⟩ := ih w
        exact ⟨d :: ds, t, by rw [h]; rfl⟩
      · exact ⟨[], d :: m, rfl⟩

theorem skipSpace_stops (m : List UInt8) {c : UInt8} (hc : isSpace c = false) :
    ∃ t, skipSpace (m ++ [c]) = .ok (t ++ [c]) := by
  induction m with
  | nil => exact ⟨[], by simp [skipSpace, hc]⟩
  | cons d m ih =>
    rw [List.cons_append, skipSpace]
    split_ifs
    · exact ih
    · exact ⟨d :: m, rfl⟩

theorem readField_stops (m : List UInt8) (w : ℕ) {c : UInt8} (hspace : isSpace c = false)
    (hdigit : isDigit c = false) (hminus : c ≠ 45) (hplus : c ≠ 43) :
    ∃ x, readField w (m ++ [c]) = .ok x ∧ ∀ v t, x = .val v t → ∃ t', t = t' ++ [c] := by
  have hdigits : ∀ (neg : Bool) (w : ℕ) (m : List UInt8), ∃ x, readDigits neg w (m ++ [c]) = .ok x ∧
      ∀ v t, x = .val v t → ∃ t', t = t' ++ [c] := by
    intro neg w m
    obtain ⟨ds, t, h⟩ := takeDigits_stops m w hdigit
    rw [readDigits, h, ok_bind]
    cases ds with
    | nil => exact ⟨.fail, rfl, fun v t h => by cases h⟩
    | cons d ds => exact ⟨_, rfl, fun v t' h => ⟨t, (Scan.val.inj h).2.symm⟩⟩
  obtain ⟨t, ht⟩ := skipSpace_stops m hspace
  rw [readField, ht, ok_bind]
  cases t with
  | nil =>
    dsimp only [List.nil_append]
    split_ifs
    · exact ⟨.eof, rfl, fun v t h => by cases h⟩
    · exact hdigits false w []
  | cons d t =>
    dsimp only [List.cons_append]
    split_ifs
    · exact ⟨.eof, rfl, fun v t h => by cases h⟩
    · exact hdigits true (w - 1) t
    · exact hdigits false (w - 1) t
    · exact hdigits false w (d :: t)

/-- A run of digits that fills the field, or is ended by another byte. -/
theorem takeDigits_digits {ds rest : CStr} {w : ℕ} (hds : ∀ c ∈ ds, isDigit c = true)
    (hw : ds.length ≤ w) (hrest : w = ds.length ∨ ∃ c t, rest = c :: t ∧ isDigit c = false) :
    takeDigits w (ds ++ rest) = .ok (ds, rest) := by
  induction ds generalizing w with
  | nil =>
    rcases hrest with rfl | ⟨c, t, rfl, hc⟩
    · rfl
    · cases w with
      | zero => rfl
      | succ w => simp [takeDigits, hc]
  | cons d ds ih =>
    obtain ⟨w, rfl⟩ : ∃ n, w = n + 1 := ⟨w - 1, by simp only [List.length_cons] at hw; omega⟩
    simp only [List.length_cons, Nat.add_le_add_iff_right, Nat.add_right_cancel_iff] at hw hrest
    have hrec := ih (fun c hc => hds c (List.mem_cons_of_mem d hc)) hw hrest
    rw [List.cons_append, takeDigits, if_pos (hds d List.mem_cons_self), hrec]
    rfl

/-- **A field of digits.** -/
theorem readField_digits {ds rest : CStr} {w : ℕ} (hne : ds ≠ []) (hds : ∀ c ∈ ds, isDigit c = true)
    (hw : ds.length ≤ w) (hrest : w = ds.length ∨ ∃ c t, rest = c :: t ∧ isDigit c = false) :
    readField w (ds ++ rest) = .ok (.val (digitsValue ds) rest) := by
  have hdigits := takeDigits_digits hds hw hrest
  cases ds with
  | nil => exact absurd rfl hne
  | cons d ds =>
    obtain ⟨hspace, hplus, hminus, -, hzero, -⟩ := isDigit_ne (hds d List.mem_cons_self)
    rw [List.cons_append] at hdigits ⊢
    have hskip : skipSpace (d :: (ds ++ rest)) = .ok (d :: (ds ++ rest)) := by
      rw [skipSpace, if_neg (by simp [hspace])]
    rw [readField, hskip, ok_bind]
    dsimp only
    rw [if_neg hzero, if_neg hminus, if_neg hplus, readDigits, hdigits, ok_bind]
    rfl

/-- Fields of `sscanf`, one behind the other: their numbers, if all were converted. -/
def readFields : List ℕ → List UInt8 → Exec (Option (List ℤ))
  | [], _ => .ok (some [])
  | w :: ws, m => do
    match (← readField w m) with
    | .val v rest => do
      let vs ← readFields ws rest
      .ok (vs.map fun vs => v :: vs)
    | _ => .ok none

theorem readFields_cons {w : ℕ} {ws : List ℕ} {m rest : List UInt8} {v : ℤ}
    (h : readField w m = .ok (.val v rest)) :
    readFields (w :: ws) m = (readFields ws rest >>= fun vs => .ok (vs.map fun vs => v :: vs)) := by
  rw [readFields, h, ok_bind]

/-- Every number fits its field. -/
theorem readFields_bounds {ws : List ℕ} {m : List UInt8} {vs : List ℤ} (h : readFields ws m = .ok (some vs)) :
    List.Forall₂ (fun w v => -(10 ^ (w - 1) : ℤ) < v ∧ v < 10 ^ w) ws vs := by
  induction ws generalizing m vs with
  | nil =>
    obtain rfl := Option.some.inj (Except.ok.inj h)
    exact .nil
  | cons w ws ih =>
    rw [readFields] at h
    obtain ⟨x, hx, h⟩ := bind_eq_ok.mp h
    cases x with
    | eof => cases h
    | fail => cases h
    | val v rest =>
      obtain ⟨vs', hvs, h⟩ := bind_eq_ok.mp h
      cases vs' with
      | none => cases h
      | some vs' =>
        obtain rfl := Option.some.inj (Except.ok.inj h)
        exact .cons (readField_bounds hx) (ih hvs)

/-- Every number is smaller than its field is wide. -/
theorem readFields_lt {ws : List ℕ} {m : List UInt8} {vs : List ℤ} (h : readFields ws m = .ok (some vs)) :
    List.Forall₂ (fun w v => -(10 ^ w : ℤ) < v ∧ v < 10 ^ w) ws vs := by
  refine (readFields_bounds h).imp fun w v hv => ?_
  have hpow : (10 ^ (w - 1) : ℤ) ≤ 10 ^ w := pow_le_pow_right₀ (by norm_num) (Nat.sub_le w 1)
  exact ⟨by omega, hv.2⟩

/-- **A line of numbers**, each of which fills its field. -/
theorem readFields_pieces {ws : List ℕ} {pieces : List CStr} (rest : List UInt8)
    (h : List.Forall₂ (fun w ds => 0 < w ∧ ds.length = w ∧ ∀ c ∈ ds, isDigit c = true) ws pieces) :
    readFields ws (pieces.flatten ++ rest) = .ok (some (pieces.map fun ds => (digitsValue ds : ℤ))) := by
  induction h with
  | nil => rfl
  | @cons w ds ws pieces hfield _ ih =>
    obtain ⟨hpos, hlen, hds⟩ := hfield
    have hne : ds ≠ [] := List.ne_nil_of_length_pos (by omega)
    rw [List.flatten_cons, List.append_assoc, readFields_cons (readField_digits hne hds hlen.le
      (Or.inl hlen.symm)), ih]
    rfl

/-! ## Allocation -/

/-- `malloc`: the bytes that are there, whatever they are. -/
def malloc (fill : ℕ → UInt8) (size : ℕ) : List UInt8 := (List.range size).map fill

@[simp] theorem malloc_length (fill : ℕ → UInt8) (size : ℕ) : (malloc fill size).length = size := by
  rw [malloc, List.length_map, List.length_range]

/-! ## Pieces

An object that is put together from pieces of `c` bytes, the last of them with something behind it. -/

/-- **An object whose pieces are those of the given bytes** begins with the bytes. -/
theorem take_of_pieces {α : Type} {c n : ℕ} (hc : 0 < c) {mem bytes : List α}
    (hn : bytes.length ≤ n * c)
    (h : ∀ k < n, ∃ rest, (mem.drop (k * c)).take c = (bytes.drop (k * c)).take c ++ rest) :
    mem.take bytes.length = bytes := by
  apply List.ext_getElem?
  intro j
  rcases Nat.lt_or_ge j bytes.length with hj | hj
  · have hk : j / c < n := Nat.div_lt_of_lt_mul (by rw [Nat.mul_comm]; omega)
    obtain ⟨rest, hpiece⟩ := h (j / c) hk
    have hmod : j % c < c := Nat.mod_lt j hc
    have hsum : j / c * c + j % c = j := Nat.div_add_mod' j c
    have hat := congrArg (fun l => l[j % c]?) hpiece
    simp only [List.getElem?_take_of_lt hmod, List.getElem?_drop, hsum] at hat
    rw [List.getElem?_take_of_lt hj, hat, List.getElem?_append_left, List.getElem?_take_of_lt hmod,
      List.getElem?_drop, hsum]
    rw [List.length_take, List.length_drop]
    omega
  · rw [List.getElem?_take, if_neg (by omega), List.getElem?_eq_none hj]

end CLib
