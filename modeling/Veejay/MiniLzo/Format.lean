import Veejay.MiniLzo.Compress
import Veejay.MiniLzo.Decompress

/-!
# The format of miniLZO

A compressed block is a list of pairs, a run of literals and a match behind it.  The number of literals, where it is at
most three, is in the two low bits of the match in front.

* `runHead`, `matchBytes` — the bytes of a run and of a match;
* `Reaches` — where the decompressor has come to, with what it has written;
* `Reaches.literals`, `Reaches.pair` — **what the decompressor makes of a run, and of a match**.
-/

namespace Veejay.MiniLzo

open CLib

/-! ## Bytes -/

/-- A length that has no place in the first byte. -/
def lengthBytes (n : ℕ) : List UInt8 := if n > 255 then 0 :: lengthBytes (n - 255) else [lzoByte n]
termination_by n

/-- In front of a run of more than three literals. -/
def runHead (t : ℕ) : List UInt8 := if t ≤ 18 then [lzoByte (t - 3)] else 0 :: lengthBytes (t - 18)

/-- A run of literals: its head, where the match in front has not their number, and how many that match has. -/
def runBytes (t : ℕ) : List UInt8 := if t ≤ 3 then [] else runHead t

def lowBits (t : ℕ) : ℕ := if t ≤ 3 then t else 0

/-- What is behind the first byte of a match, in front of its offset. -/
def lengthTail (maxLen len : ℕ) : List UInt8 := if len ≤ maxLen then [] else lengthBytes (len - maxLen)

/-- A match of the third or fourth kind, with the number `low` of the literals behind it. -/
def longMatch (marker maxLen m len low : ℕ) : List UInt8 :=
  lzoByte (marker ||| if len ≤ maxLen then len - 2 else 0) ::
    (lengthTail maxLen len ++ [lzoByte (m <<< 2) ||| lzoByte low, lzoByte (m >>> 6)])

/-- A match of `len` bytes, `off` back. -/
def matchBytes (off len low : ℕ) : List UInt8 :=
  if len ≤ m2MaxLen ∧ off ≤ m2MaxOffset then
    [lzoByte ((len - 1) <<< 5 ||| ((off - 1) &&& 7) <<< 2) ||| lzoByte low, lzoByte ((off - 1) >>> 3)]
  else if off ≤ m3MaxOffset then longMatch m3Marker m3MaxLen (off - 1) len low
  else longMatch (m4Marker ||| ((off - 0x4000) >>> 11 &&& 8)) m4MaxLen (off - 0x4000) len low

/-- `t` literals of the block, from `pos` on, and a match behind them. -/
def pairBytes (z : List UInt8) (pos t off len low : ℕ) : List UInt8 :=
  runBytes t ++ ((z.drop pos).take t ++ matchBytes off len low)

/-- A length takes a byte for every 255. -/
theorem lengthBytes_length (n : ℕ) :
    255 * (lengthBytes n).length ≤ n + 255 ∧ n ≤ 255 * (lengthBytes n).length ∧ 1 ≤ (lengthBytes n).length := by
  induction n using lengthBytes.induct with
  | case1 n h ih =>
    rw [lengthBytes, if_pos h, List.length_cons]
    omega
  | case2 n h =>
    rw [lengthBytes, if_neg h, List.length_singleton]
    omega

/-- A match takes no more than three bytes, or not much of what it stands for. -/
theorem matchBytes_length (off len low : ℕ) :
    255 * (matchBytes off len low).length ≤ len + 1020 ∧ (len ≤ 9 → (matchBytes off len low).length ≤ 3) ∧
      2 ≤ (matchBytes off len low).length ∧ len ≤ 256 * (matchBytes off len low).length := by
  have h3 := lengthBytes_length (len - m3MaxLen)
  have h4 := lengthBytes_length (len - m4MaxLen)
  unfold matchBytes longMatch lengthTail
  unfold m3MaxLen m4MaxLen at *
  unfold m2MaxLen
  split_ifs <;> simp <;> omega

/-- The two bytes of an offset. -/
theorem offset_bytes (m : ℕ) {low : ℕ} (hlow : low < 4) :
    leNumber [lzoByte (m <<< 2) ||| lzoByte low, lzoByte (m >>> 6)] >>> 2 = m % 2 ^ 14 ∧
      (lzoByte (m <<< 2) ||| lzoByte low).toNat &&& 3 = low := by
  have hbyte : (lzoByte (m <<< 2) ||| lzoByte low).toNat = m % 64 * 4 + low := by
    have hall : ∀ a < 64, ∀ low < 4, (lzoByte (a * 4) ||| lzoByte low).toNat = a * 4 + low := by decide +kernel
    rw [← hall _ (Nat.mod_lt m (by omega)) low hlow]
    congr 2
    apply UInt8.toNat_inj.mp
    simp [lzoByte, Nat.shiftLeft_eq]
    omega
  have hhigh : (lzoByte (m >>> 6)).toNat = m / 64 % 256 := by simp [lzoByte, Nat.shiftRight_eq_div_pow]
  rw [leNumber_cons, leNumber_cons, leNumber_nil, hbyte, hhigh, Nat.shiftRight_eq_div_pow,
    show 3 = 2 ^ 2 - 1 by rfl, Nat.and_two_pow_sub_one_eq_mod]
  omega

/-! ## Where the decompressor comes to -/

/-- The output begins with the first `pos` bytes of the block, and has room for all of it. -/
structure Shown (z dst : List UInt8) (pos : ℕ) (out : List UInt8) : Prop where
  text : z.take pos <+: out
  size : out.length = dst.length
  room : z.length ≤ dst.length

/-- The positions that a step leaves, and the text. -/
structure Gone (z dst : List UInt8) (ip pos : ℕ) (c : Cursor) : Prop where
  ip : c.ip = ip
  op : c.op = pos
  shown : Shown z dst pos c.out

/-- The decompressor has come to a label: it has read `ip` bytes, in no more steps than that, and has written the first
`pos` bytes of the block. -/
def Reaches (z inp dst : List UInt8) (l : Label) (ip pos : ℕ) : Prop :=
  ∃ s n out, decodeStart inp dst = .ok s ∧ n ≤ ip ∧
    (∀ fuel, decodeRun inp (n + fuel) s.1 s.2 = decodeRun inp fuel l ⟨ip, pos, out⟩) ∧ Shown z dst pos out

/-- Where a match leads to. -/
def nextLabel (low : ℕ) : Label := if low = 0 then .top else .matchNext low

variable {z inp dst : List UInt8} {l l' : Label} {ip ip' pos pos' : ℕ}

/-- **One step further.** -/
theorem Reaches.step (h : Reaches z inp dst l ip pos) (hip : ip < ip')
    (hstep : ∀ out, Shown z dst pos out →
      Ensures (decodeStep inp l ⟨ip, pos, out⟩) fun r => r.1 = some l' ∧ Gone z dst ip' pos' r.2) :
    Reaches z inp dst l' ip' pos' := by
  obtain ⟨s, n, out, hstart, hn, hrun, hshown⟩ := h
  obtain ⟨⟨-, ⟨i, p, out'⟩⟩, hr, rfl, rfl, rfl, hshown'⟩ := hstep out hshown
  refine ⟨s, n + 1, out', hstart, by omega, fun fuel => ?_, hshown'⟩
  rw [Nat.add_assoc, hrun, Nat.add_comm 1, decodeRun, hr, ok_bind]

/-! ## Steps of the decompressor -/

theorem byteAt_here (w rest : List UInt8) (b : UInt8) : byteAt (w ++ b :: rest) w.length = .ok b := by
  rw [byteAt_of_lt (by simp)]
  simp

/-- A length is read as it was written. -/
theorem getLength_lengthBytes (base : ℕ) {n : ℕ} (hn : 1 ≤ n) :
    ∀ (fuel t : ℕ) (w rest : List UInt8), (lengthBytes n).length ≤ fuel →
      getLength (w ++ (lengthBytes n ++ rest)) base fuel t w.length =
        .ok (t + base + n, w.length + (lengthBytes n).length) := by
  induction n using lengthBytes.induct with
  | case1 n h ih =>
    intro fuel t w rest hfuel
    rw [lengthBytes, if_pos h] at hfuel ⊢
    cases fuel with
    | zero => simp at hfuel
    | succ fuel =>
      have hrest := ih (by omega) fuel (t + 255) (w ++ [0]) rest (by simpa using hfuel)
      simp only [List.append_assoc, List.singleton_append, List.length_append, List.length_singleton] at hrest
      rw [List.cons_append, getLength, byteAt_here, ok_bind, if_pos rfl, hrest, List.length_cons,
        show t + 255 + base + (n - 255) = t + base + n by omega, Nat.add_right_comm w.length, Nat.add_assoc w.length]
  | case2 n h =>
    intro fuel t w rest hfuel
    rw [lengthBytes, if_neg h] at hfuel ⊢
    have hbyte : (lzoByte n).toNat = n := by simp [lzoByte]; omega
    cases fuel with
    | zero => simp at hfuel
    | succ fuel =>
      have hne : lzoByte n ≠ 0 := fun h0 => by rw [h0] at hbyte; simp at hbyte; omega
      rw [List.singleton_append, getLength, byteAt_here, ok_bind, if_neg hne, hbyte, List.length_singleton]

/-- The length of a match is read as it was written. -/
theorem getMatchLength_tail {base maxLen len : ℕ} (hmax : maxLen = base + 2) (hlen : 3 ≤ len) (w rest : List UInt8) :
    getMatchLength (w ++ (lengthTail maxLen len ++ rest)) (if len ≤ maxLen then len - 2 else 0) base w.length =
      .ok (len - 2, w.length + (lengthTail maxLen len).length) := by
  subst hmax
  unfold lengthTail getMatchLength
  split_ifs with h h0
  · omega
  · simp
  · have hbytes := lengthBytes_length (len - (base + 2))
    rw [getLength_lengthBytes _ (by omega) _ _ _ _ (by simp; omega)]
    rw [show 0 + base + (len - (base + 2)) = len - 2 by omega]
  · omega

theorem moves_sum (t : ℕ) : (moves t).sum = t := by
  unfold moves
  split_ifs <;> simp <;> omega

theorem moves_le {t k : ℕ} (hk : k ∈ moves t) : k ≤ 8 := by
  unfold moves at hk
  split_ifs at hk <;> simp at hk <;> omega

section Steps

variable {w v out : List UInt8}

/-- Literals are what the block goes on with. -/
theorem copyLiterals_gone {p : List ℕ} {t : ℕ} (hinp : inp = w ++ ((z.drop pos).take t ++ v)) (hks : p.sum = t)
    (hroom : pos + t ≤ z.length) (hs : Shown z dst pos out) :
    Ensures (copyLiterals inp p ⟨w.length, pos, out⟩) (Gone z dst (w.length + t) (pos + t)) := by
  subst hinp hks
  obtain ⟨htext, hsize, hz⟩ := hs
  have hpos : (z.take pos).length = pos := by simp; omega
  have htaken : ((z.drop pos).take p.sum).length = p.sum := by simp; omega
  have hcopy := copyPieces_input (w ++ ((z.drop pos).take p.sum ++ v)) p w.length htext
    (by simp only [List.length_append, htaken]; omega) (by omega)
  rw [List.drop_left, List.take_left' htaken, ← List.take_add, hpos] at hcopy
  simp only [copyLiterals, ensures_bind, ensures_ok]
  exact hcopy.mono fun out' h => ⟨rfl, rfl, h.1, h.2.trans hsize, hz⟩

/-- The two low bits of the byte before the last one say what is next. -/
theorem matchDone_eq {front : List UInt8} {b d : UInt8} {c : Cursor} (hip : c.ip = front.length + 2) :
    matchDone (front ++ b :: d :: v) c = .ok (nextLabel (b.toNat &&& 3), c) := by
  rw [matchDone, hip, show ((front.length + 2 : ℕ) : ℤ) - 2 = front.length by push_cast; ring, byteAt_here, ok_bind,
    nextLabel]
  split_ifs <;> rfl

theorem and_three (n : ℕ) : n &&& 3 = n % 4 := Nat.and_two_pow_sub_one_eq_mod n 2

theorem and_seven (n : ℕ) : n &&& 7 = n % 8 := Nat.and_two_pow_sub_one_eq_mod n 3

theorem and_thirtyone (n : ℕ) : n &&& 31 = n % 32 := Nat.and_two_pow_sub_one_eq_mod n 5

theorem decodeMatch_of_m4 {inp off : List UInt8} {t n ip back m : ℕ} {c : Cursor} (ht : 16 ≤ t ∧ t < 32)
    (hlen : getMatchLength inp (t &&& 7) 7 c.ip = .ok (n, ip)) (hoff : slice inp ip 2 = .ok off)
    (hback : t &&& 8 = back) (hm : leNumber off >>> 2 = m) (hne : back <<< 11 + m ≠ 0) :
    decodeMatch inp t c =
      copyFar inp ((c.op : ℤ) - (back <<< 11 : ℕ) - (m : ℕ) - 0x4000) n { c with ip := ip + 2 } >>= fun r =>
        .ok (some r.1, r.2) := by
  rw [decodeMatch, if_neg (by omega), if_neg (by omega), if_pos ht.1]
  simp only [hlen, hoff, hback, hm, ok_bind]
  rw [if_neg (by omega)]

variable {off len low : ℕ} (hlen : 4 ≤ len) (hrep : Repeats z pos off len) (hs : Shown z dst pos out) (hlow : low < 4)

include hrep hs in
/-- A match is what the block goes on with. -/
theorem copyMatch_gone {i : ℕ} {p : List ℕ} (hks : ∀ k ∈ p, k ≤ off) (hsum : p.sum = len) :
    Ensures (copyMatch (pos - off) p ⟨i, pos, out⟩) (Gone z dst i (pos + len)) := by
  simp only [copyMatch, ensures_bind, ensures_ok, hsum]
  exact (copyPieces_repeats hrep hks hsum hs.text (hs.room.trans hs.size.ge)).mono fun out' h =>
    ⟨rfl, rfl, h.1, h.2.trans hs.size, hs.room⟩

/-- What the decompressor makes of the bytes of a match. -/
def Decodes (z w v dst out bytes : List UInt8) (pos len low : ℕ) : Prop :=
  ∃ b tail, bytes = b :: tail ∧ 16 ≤ b.toNat ∧
    Ensures (decodeMatch (w ++ b :: (tail ++ v)) b.toNat ⟨w.length + 1, pos, out⟩) fun r =>
      r.1 = some (nextLabel low) ∧ Gone z dst (w.length + (b :: tail).length) (pos + len) r.2

include hlen hrep hs

/-- A match of the third or fourth kind, behind its first byte. -/
theorem copyFar_gone {base maxLen : ℕ} {x y : UInt8} (hmax : maxLen = base + 2) (hx : x.toNat &&& 3 = low)
    {inp : List UInt8} {ip : ℕ} (hinp : inp = w ++ (lengthTail maxLen len ++ x :: y :: v))
    (hip : ip = w.length + (lengthTail maxLen len).length) :
    getMatchLength inp (if len ≤ maxLen then len - 2 else 0) base w.length = .ok (len - 2, ip) ∧
      slice inp ip 2 = .ok [x, y] ∧
      Ensures (copyFar inp (pos - off) (len - 2) ⟨ip + 2, pos, out⟩) fun r =>
        r.1 = nextLabel low ∧ Gone z dst (ip + 2) (pos + len) r.2 := by
  have hback := hrep.back
  obtain ⟨hks, hsum⟩ : (∀ k ∈ (if (pos : ℤ) - (pos - off) ≥ 8 then moves len else List.replicate len 1), k ≤ off) ∧
      (if (pos : ℤ) - (pos - off) ≥ 8 then moves len else List.replicate len 1).sum = len := by
    split_ifs
    · exact ⟨fun k hk => (moves_le hk).trans (by omega), moves_sum len⟩
    · exact ⟨fun k hk => List.eq_of_mem_replicate hk ▸ hback, by simp⟩
  subst hinp hip
  refine ⟨getMatchLength_tail hmax (by omega) w _, ?_, ?_⟩
  · rw [← List.append_assoc, ← List.length_append, slice_eq_ok, Int.toNat_natCast, List.drop_left]
    exact ⟨Or.inr ⟨Int.natCast_nonneg _, by simp only [List.length_append, List.length_cons]; omega⟩, rfl⟩
  · simp only [copyFar, ensures_bind, show len - 2 + 2 = len by omega]
    refine (copyMatch_gone hrep hs hks hsum).mono fun c hc => ?_
    rw [← List.append_assoc, matchDone_eq (by rw [hc.ip, List.length_append]), hx, ensures_ok]
    exact ⟨rfl, hc⟩

include hlow

/-- A match of the second kind. -/
theorem decodes_m2 (hmax : len ≤ m2MaxLen) (hoff : off ≤ m2MaxOffset) :
    Decodes z w v dst out
      [lzoByte ((len - 1) <<< 5 ||| ((off - 1) &&& 7) <<< 2) ||| lzoByte low, lzoByte ((off - 1) >>> 3)] pos len low := by
  have hbits : ∀ a < 8, ∀ d < 8, ∀ low < 4,
      (lzoByte (a <<< 5 ||| d <<< 2) ||| lzoByte low).toNat = a * 32 + d * 4 + low := by decide +kernel
  have hback := hrep.back
  rw [m2MaxLen] at hmax
  rw [m2MaxOffset] at hoff
  have hval := hbits (len - 1) (by omega) ((off - 1) % 8) (by omega) low hlow
  rw [← and_seven] at hval
  refine ⟨_, _, rfl, by omega, ?_⟩
  generalize lzoByte ((len - 1) <<< 5 ||| ((off - 1) &&& 7) <<< 2) ||| lzoByte low = b at hval ⊢
  rw [and_seven] at hval
  have hfar : (lzoByte ((off - 1) >>> 3)).toNat = (off - 1) / 8 := by
    simp [lzoByte, Nat.shiftRight_eq_div_pow]
    omega
  have hpos : (pos : ℤ) - 1 - (b.toNat >>> 2 &&& 7 : ℕ) - ((lzoByte ((off - 1) >>> 3)).toNat <<< 3 : ℕ) = pos - off := by
    rw [hfar, Nat.shiftRight_eq_div_pow, and_seven, Nat.shiftLeft_eq]
    omega
  have hcount : b.toNat >>> 5 - 1 + 2 = len := by
    rw [Nat.shiftRight_eq_div_pow]
    omega
  have hbyte := byteAt_here (w ++ [b]) v (lzoByte ((off - 1) >>> 3))
  rw [List.append_assoc, List.length_append, List.length_singleton, List.singleton_append] at hbyte
  rw [decodeMatch, if_pos (by omega), List.singleton_append]
  simp only [hbyte, ok_bind, hpos, hcount, ensures_bind, ensures_ok]
  refine (copyMatch_gone hrep hs (i := w.length + 2) (p := List.replicate len 1)
    (fun k hk => List.eq_of_mem_replicate hk ▸ hback) (by simp)).mono fun c hc => ?_
  rw [matchDone_eq hc.ip, ensures_ok, and_three, show b.toNat % 4 = low by omega]
  exact ⟨rfl, hc⟩

/-- A match of the third or fourth kind, from what is made of its first byte. -/
theorem decodes_far {marker maxLen m : ℕ} (base : ℕ) (hmax : maxLen = base + 2) {b : UInt8}
    (hb : b = lzoByte (marker ||| if len ≤ maxLen then len - 2 else 0)) (hmin : 16 ≤ b.toNat)
    (hstep : ∀ inp ip bytes, leNumber bytes >>> 2 = m % 2 ^ 14 →
      getMatchLength inp (if len ≤ maxLen then len - 2 else 0) base (w.length + 1) = .ok (len - 2, ip) →
      slice inp ip 2 = .ok bytes →
      decodeMatch inp b.toNat ⟨w.length + 1, pos, out⟩ =
        copyFar inp (pos - off) (len - 2) ⟨ip + 2, pos, out⟩ >>= fun r => .ok (some r.1, r.2)) :
    Decodes z w v dst out (longMatch marker maxLen m len low) pos len low := by
  obtain ⟨hoffset, hthree⟩ := offset_bytes m hlow
  obtain ⟨hget, hslice, hcopy⟩ := copyFar_gone (w := w ++ [b]) (v := v) (y := lzoByte (m >>> 6)) hlen hrep hs
    hmax hthree rfl rfl
  simp only [List.append_assoc, List.singleton_append, List.length_append, List.length_singleton] at hget hslice hcopy
  refine ⟨b, _, by rw [longMatch, hb], hmin, ?_⟩
  simp only [List.append_assoc, List.cons_append, List.nil_append]
  rw [hstep _ _ _ hoffset hget hslice, ensures_bind]
  refine hcopy.mono fun r hr => (ensures_ok _ _).mpr ⟨congrArg some hr.1, ?_⟩
  rw [List.length_cons, List.length_append, List.length_cons, List.length_singleton,
    show w.length + ((lengthTail maxLen len).length + 2 + 1) = w.length + 1 + (lengthTail maxLen len).length + 2 by omega]
  exact hr.2

/-- A match of the third kind. -/
theorem decodes_m3 (hoff : off ≤ m3MaxOffset) :
    Decodes z w v dst out (longMatch m3Marker m3MaxLen (off - 1) len low) pos len low := by
  have hbits : ∀ n < 32, (lzoByte (m3Marker ||| n)).toNat = 32 + n := by decide +kernel
  have hback := hrep.back
  rw [m3MaxOffset] at hoff
  have hn : (if len ≤ m3MaxLen then len - 2 else 0) < 32 := by rw [m3MaxLen]; split_ifs <;> omega
  have hval := hbits _ hn
  refine decodes_far hlen hrep hs hlow 31 rfl rfl (by omega) fun inp ip bytes hm hget hslice => ?_
  rw [decodeMatch, if_neg (by omega), if_pos (by omega), and_thirtyone,
    show (lzoByte (m3Marker ||| if len ≤ m3MaxLen then len - 2 else 0)).toNat % 32 = if len ≤ m3MaxLen then len - 2 else 0
      by omega, hget]
  simp only [hslice, hm, ok_bind]
  rw [show (pos : ℤ) - (1 : ℕ) - ((off - 1) % 2 ^ 14 : ℕ) = pos - off by omega]

/-- A match of the fourth kind. -/
theorem decodes_m4 (hoff : m3MaxOffset < off ∧ off < 0xc000) :
    Decodes z w v dst out (longMatch (m4Marker ||| ((off - 0x4000) >>> 11 &&& 8)) m4MaxLen (off - 0x4000) len low)
      pos len low := by
  have hbits : ∀ h < 2, ∀ n < 8, (lzoByte (m4Marker ||| h * 8 ||| n)).toNat = 16 + h * 8 + n ∧
      (16 + h * 8 + n) &&& 8 = h * 8 := by decide +kernel
  rw [m3MaxOffset] at hoff
  generalize hm : off - 0x4000 = m
  have height : m >>> 11 &&& 8 = m / 2 ^ 14 * 8 := by
    have hall : ∀ n < 16, n &&& 8 = n / 8 * 8 := by decide
    rw [hall _ (by rw [Nat.shiftRight_eq_div_pow]; omega), Nat.shiftRight_eq_div_pow]
    omega
  rw [height]
  have hn : (if len ≤ m4MaxLen then len - 2 else 0) < 8 := by rw [m4MaxLen]; split_ifs <;> omega
  obtain ⟨hval, hback⟩ := hbits (m / 2 ^ 14) (by omega) _ hn
  refine decodes_far hlen hrep hs hlow 7 rfl rfl (by omega) fun inp ip bytes hbytes hget hslice => ?_
  generalize lzoByte (m4Marker ||| m / 2 ^ 14 * 8 ||| if len ≤ m4MaxLen then len - 2 else 0) = b at hval ⊢
  have hpos : (pos : ℤ) - ((m / 2 ^ 14 * 8) <<< 11 : ℕ) - (m % 2 ^ 14 : ℕ) - 0x4000 = pos - off := by
    rw [Nat.shiftLeft_eq]
    omega
  rw [show (if len ≤ m4MaxLen then len - 2 else 0) = b.toNat &&& 7 by rw [and_seven]; omega] at hget
  rw [decodeMatch_of_m4 (by omega) hget hslice (by rw [hval, hback]) hbytes (by rw [Nat.shiftLeft_eq]; omega), hpos]

/-- **What the decompressor makes of a match.** -/
theorem decodes_matchBytes (hoff : off < 0xc000) : Decodes z w v dst out (matchBytes off len low) pos len low := by
  unfold matchBytes
  split_ifs with h2 h3
  · exact decodes_m2 hlen hrep hs hlow h2.1 h2.2
  · exact decodes_m3 hlen hrep hs hlow h3
  · exact decodes_m4 hlen hrep hs hlow ⟨by omega, hoff⟩

end Steps

/-! ## Runs and matches -/

section Pairs

variable {w v : List UInt8} {t : ℕ} {b : UInt8}

/-- The first byte of a match, where no literals are in front of it, or a run. -/
theorem Reaches.first (h : Reaches z (w ++ b :: v) dst l w.length pos) (hl : l = .top ∨ l = .firstLiteralRun)
    (hb : 16 ≤ b.toNat) : Reaches z (w ++ b :: v) dst (.matchAt b.toNat) (w.length + 1) pos := by
  apply h.step (Nat.lt_succ_self _)
  intro out hs
  rcases hl with rfl | rfl <;>
  · rw [decodeStep, byteAt_here, ok_bind, if_pos hb, ensures_ok]
    exact ⟨rfl, rfl, rfl, hs⟩

/-- The head of a run is read as it was written. -/
theorem decodeStep_runHead {out : List UInt8} (ht : 3 < t) (hinp : inp = w ++ (runHead t ++ v)) :
    decodeStep inp .top ⟨w.length, pos, out⟩ =
      copyLiterals inp (moves t) ⟨w.length + (runHead t).length, pos, out⟩ >>= fun c =>
        .ok (some .firstLiteralRun, c) := by
  subst hinp
  unfold runHead
  split_ifs with h18
  · have hbyte : (lzoByte (t - 3)).toNat = t - 3 := by simp [lzoByte]; omega
    have hne : lzoByte (t - 3) ≠ 0 := fun h0 => by rw [h0] at hbyte; simp at hbyte; omega
    rw [decodeStep, List.singleton_append, byteAt_here, ok_bind, if_neg (by omega), if_neg hne, ok_bind, hbyte]
    simp only [Nat.sub_add_cancel ht.le, List.length_singleton]
  · have hbytes := lengthBytes_length (t - 18)
    have hlength := getLength_lengthBytes 15 (n := t - 18) (by omega)
      ((w ++ 0 :: (lengthBytes (t - 18) ++ v)).length + 1) 0 (w ++ [0]) v (by simp; omega)
    rw [List.append_assoc, List.singleton_append, @List.length_append _ w [0], List.length_singleton]
      at hlength
    rw [decodeStep, List.cons_append, byteAt_here, ok_bind, if_neg (by simp), if_pos rfl, hlength, ok_bind,
      List.length_cons, ← Nat.add_assoc, Nat.add_right_comm w.length]
    simp only [show 0 + 15 + (t - 18) + 3 = t by omega]

/-- The literals behind a match, of which it has the number, and the first byte behind them. -/
theorem Reaches.few (h : Reaches z inp dst (.matchNext t) w.length pos) (hroom : pos + t ≤ z.length)
    (hinp : inp = w ++ ((z.drop pos).take t ++ b :: v)) :
    Reaches z inp dst (.matchAt b.toNat) (w.length + t + 1) (pos + t) := by
  apply h.step (by omega)
  intro out hs
  simp only [decodeStep, ensures_bind]
  refine (copyLiterals_gone (p := List.replicate t 1) hinp (by simp) hroom hs).mono fun c hc => ?_
  have hat := byteAt_here (w ++ (z.drop pos).take t) v b
  rw [List.append_assoc, ← hinp, List.length_append, List.length_take, List.length_drop, min_eq_left (by omega),
    ← hc.ip] at hat
  rw [hat, ensures_ok, ensures_ok]
  exact ⟨rfl, congrArg (· + 1) hc.ip, hc.op, hc.shown⟩

/-- **What the decompressor makes of a run and the first byte behind it.** -/
theorem Reaches.literals (h : Reaches z inp dst (nextLabel (lowBits t)) w.length pos) (hb : 16 ≤ b.toNat)
    (hroom : pos + t ≤ z.length) (hinp : inp = w ++ (runBytes t ++ (z.drop pos).take t) ++ b :: v) :
    Reaches z inp dst (.matchAt b.toNat) ((w ++ (runBytes t ++ (z.drop pos).take t)).length + 1) (pos + t) := by
  have htaken : ((z.drop pos).take t).length = t := by simp; omega
  rw [List.length_append, List.length_append, htaken]
  unfold runBytes lowBits nextLabel at *
  split_ifs at * with h3 h0 h0
  · subst h0
    simp only [List.take_zero, List.append_nil] at hinp
    subst hinp
    exact h.first (Or.inl rfl) hb
  · rw [List.nil_append, List.append_assoc] at hinp
    rw [List.length_nil, Nat.zero_add]
    exact h.few hroom hinp
  · have hrun : Reaches z inp dst .firstLiteralRun (w ++ (runHead t ++ (z.drop pos).take t)).length (pos + t) := by
      rw [List.length_append, List.length_append, htaken, ← Nat.add_assoc]
      apply h.step (by omega)
      intro out hs
      have hcopy := copyLiterals_gone (w := w ++ runHead t) (v := b :: v) (by simpa using hinp) (moves_sum t) hroom hs
      rw [List.length_append] at hcopy
      rw [decodeStep_runHead (show 3 < t by omega) (v := (z.drop pos).take t ++ b :: v) (by simpa using hinp)]
      simp only [ensures_bind, ensures_ok, true_and]
      exact hcopy
    subst hinp
    have hfirst := hrun.first (Or.inr rfl) hb
    rwa [List.length_append, List.length_append, htaken] at hfirst
  · contradiction

/-- **A run and a match.** -/
theorem Reaches.pair {off len low : ℕ} (h : Reaches z inp dst (nextLabel (lowBits t)) w.length pos) (hlow : low < 4)
    (hlen : 4 ≤ len) (hoff : off < 0xc000) (hrep : Repeats z (pos + t) off len)
    (hinp : inp = w ++ (pairBytes z pos t off len low ++ v)) :
    Reaches z inp dst (nextLabel low) (w ++ pairBytes z pos t off len low).length (pos + t + len) := by
  have hroom := hrep.room
  obtain ⟨b, tail, hm, hb, -⟩ := decodes_matchBytes (w := []) (v := []) hlen hrep
    ⟨List.take_prefix _ z, rfl, le_rfl⟩ hlow hoff
  rw [pairBytes, hm, ← List.append_assoc (runBytes t)] at hinp ⊢
  rw [List.append_assoc, ← List.append_assoc w, List.cons_append] at hinp
  have hfirst := h.literals hb (by omega) hinp
  have hmatch : Reaches z inp dst (nextLabel low) (w ++ (runBytes t ++ (z.drop pos).take t) ++ b :: tail).length
      (pos + t + len) := by
    refine hfirst.step ?_ fun out hs => ?_
    · have htwo := (matchBytes_length off len low).2.2.1
      rw [hm, List.length_cons] at htwo
      rw [@List.length_append _ _ (b :: tail), List.length_cons]
      omega
    · obtain ⟨b', tail', hm', -, hdecodes⟩ := decodes_matchBytes (w := w ++ (runBytes t ++ (z.drop pos).take t))
        (v := v) hlen hrep hs hlow hoff
      obtain ⟨rfl, rfl⟩ := List.cons.inj (hm.symm.trans hm')
      rwa [← List.length_append, ← hinp] at hdecodes
  simpa only [List.append_assoc] using hmatch

end Pairs

end Veejay.MiniLzo
