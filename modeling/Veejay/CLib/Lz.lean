import Veejay.CLib.Memory

/-!
# Copies that grow a text

A decompressor of the LZ77 family writes a text from its beginning to its end.  Every copy it makes goes behind
what it has written, and reads either another object or the text itself, some distance back; the two parts
may overlap, and the copy is then a repetition.  All that matters of a copy is that it goes on with the text.

* `Repeats` — a part of a text that repeats what is `off` bytes in front of it;
* `overwrite_end` — writing behind the part that is written;
* `copyPieces` — a copy in pieces of given sizes, one move after the other;
* `copyPieces_ensures` — **the copy rule**: pieces each of which goes on with the text go on with it together;
* `slice_repeats` — a piece that is no longer than the distance reads bytes that are there;
* `leNumber_inj`, `zeroBytes_xor` — numbers of several bytes, the least significant first: where they are equal, and
  as far as they are.
-/

namespace CLib

/-- The `len` bytes of the text from `p` on repeat those `off` bytes in front of them. -/
structure Repeats (z : List UInt8) (p off len : ℕ) : Prop where
  back : 1 ≤ off
  within : off ≤ p
  room : p + len ≤ z.length
  same : ∀ i < len, z[p + i]? = z[p + i - off]?

/-! ## Writing behind a part that is written -/

/-- What is written behind a part goes on with it, and keeps it. -/
theorem overwrite_end {mem w : List UInt8} (bytes : List UInt8) (hw : w <+: mem) (hroom : w.length + bytes.length ≤ mem.length) :
    ∃ mem', overwrite mem w.length bytes = .ok mem' ∧ w ++ bytes <+: mem' ∧ mem'.length = mem.length := by
  obtain ⟨mem', h⟩ := overwrite_of_le hroom
  refine ⟨mem', h, ?_, overwrite_length h⟩
  obtain ⟨-, rfl⟩ := overwrite_eq_ok.mp h
  rw [← List.prefix_iff_eq_take.mp hw]
  exact List.prefix_append _ _

/-! ## Copies in pieces -/

/-- Pieces are read, with `read`, from `p` on, and written from `op` on. -/
def copyPieces (read : List UInt8 → ℤ → ℕ → Exec (List UInt8)) :
    List ℕ → ℤ → ℕ → List UInt8 → Exec (List UInt8)
  | [], _, _, mem => .ok mem
  | k :: ks, p, op, mem => do
    let piece ← read mem p k
    let mem ← overwrite mem op piece
    copyPieces read ks (p + k) (op + k) mem

theorem copyPieces_halts {read : List UInt8 → ℤ → ℕ → Exec (List UInt8)} (hread : ∀ mem p k, Halts (read mem p k)) :
    ∀ (ks : List ℕ) (p : ℤ) (op : ℕ) (mem : List UInt8), Halts (copyPieces read ks p op mem) := by
  intro ks
  induction ks with
  | nil => exact fun p op mem => halts_ok mem
  | cons k ks ih => exact fun p op mem => (hread mem p k).bind fun piece =>
      (overwrite_halts mem op piece).bind fun mem' => ih _ _ mem'

/-- **The copy rule.**  If what each piece reads, wherever the text has come to, is what the text goes on with, then
the pieces go on with it together. -/
theorem copyPieces_ensures (read : List UInt8 → ℤ → ℕ → Exec (List UInt8)) {z : List UInt8} {d : ℤ} {stop : ℕ}
    (hstop : stop ≤ z.length) :
    ∀ (ks : List ℕ) (op : ℕ) (mem : List UInt8),
      (∀ k ∈ ks, ∀ mem pos, z.take pos <+: mem → op ≤ pos → pos + k ≤ stop →
        read mem (pos - d) k = .ok ((z.drop pos).take k)) →
      op + ks.sum ≤ stop → stop ≤ mem.length → z.take op <+: mem →
      Ensures (copyPieces read ks (op - d) op mem) fun mem' =>
        z.take (op + ks.sum) <+: mem' ∧ mem'.length = mem.length := by
  intro ks
  induction ks with
  | nil => intro op mem _ _ _ hw; simpa [copyPieces] using hw
  | cons k ks ih =>
    intro op mem hread hsum hroom hw
    rw [List.sum_cons] at hsum ⊢
    have hlen : (z.take op).length = op := by rw [List.length_take]; omega
    have hpiece : ((z.drop op).take k).length = k := by
      rw [List.length_take, List.length_drop]; omega
    obtain ⟨mem', h, hpre, hlen'⟩ := overwrite_end ((z.drop op).take k) hw (by omega)
    rw [hlen] at h
    rw [← List.take_add] at hpre
    have hnext := ih (op + k) mem' (fun j hj mem pos hat hle => hread j (by simp [hj]) mem pos hat (by omega))
      (by omega) (by omega) hpre
    rw [copyPieces, hread k (by simp) mem op hw le_rfl (by omega), ok_bind, h, ok_bind,
      show (op : ℤ) - d + k = ((op + k : ℕ) : ℤ) - d by push_cast; ring]
    rw [hlen', Nat.add_assoc] at hnext
    exact hnext

/-- Pieces of another object. -/
theorem copyPieces_input {w out : List UInt8} (inp : List UInt8) (ks : List ℕ) (ii : ℕ) (hw : w <+: out)
    (hin : ii + ks.sum ≤ inp.length) (hroom : w.length + ks.sum ≤ out.length) :
    Ensures (copyPieces (fun _ => slice inp) ks ii w.length out) fun out' =>
      w ++ (inp.drop ii).take ks.sum <+: out' ∧ out'.length = out.length := by
  have hlen : (w ++ (inp.drop ii).take ks.sum).length = w.length + ks.sum := by simp; omega
  have hcopy := copyPieces_ensures (fun _ => slice inp) (d := w.length - ii) hlen.ge ks w.length out
    (fun k _ mem pos _ hpos hle => ?_) le_rfl hroom (by simpa using hw)
  · rw [← hlen, List.take_length, sub_sub_cancel] at hcopy
    exact hcopy
  · rw [slice_eq_ok, show ((pos : ℤ) - (w.length - ii)).toNat = ii + (pos - w.length) by omega]
    refine ⟨Or.inr ⟨by omega, by omega⟩, ?_⟩
    rw [List.drop_append, List.drop_eq_nil_of_le hpos, List.nil_append, List.drop_take, List.take_take, List.drop_drop,
      min_eq_left (by omega)]

/-- A piece that is no longer than the distance: the bytes it reads have been written. -/
theorem slice_repeats {z mem : List UInt8} {p off len op k : ℕ} (h : Repeats z p off len) (hw : z.take op <+: mem)
    (hop : p ≤ op) (hstop : op + k ≤ p + len) (hk : k ≤ off) :
    slice mem ((op : ℤ) - off) k = .ok ((z.drop op).take k) := by
  have hback := h.back
  have hwithin := h.within
  have hroom := h.room
  have hlen : (z.take op).length = op := by rw [List.length_take]; omega
  have hmem := hw.length_le
  have hidx : ((op : ℤ) - off).toNat = op - off := by omega
  rw [slice_eq_ok, hidx]
  refine ⟨Or.inr ⟨by omega, by omega⟩, ?_⟩
  apply List.ext_getElem?
  intro i
  rw [List.getElem?_take, List.getElem?_take]
  split_ifs with hi
  · have hwritten : mem[op - off + i]? = z[op - off + i]? := by
      obtain ⟨rest, rfl⟩ := hw
      rw [List.getElem?_append_left (by omega), List.getElem?_take_of_lt (by omega)]
    have hsame := h.same (op - p + i) (by omega)
    rw [show p + (op - p + i) = op + i by omega, show op + i - off = op - off + i by omega] at hsame
    rw [List.getElem?_drop, List.getElem?_drop, hwritten, hsame]
  · rfl

/-- **A match**: pieces that are no longer than the distance. -/
theorem copyPieces_repeats {z out : List UInt8} {ks : List ℕ} {p off len : ℕ} (h : Repeats z p off len)
    (hks : ∀ k ∈ ks, k ≤ off) (hsum : ks.sum = len) (hw : z.take p <+: out) (hroom : z.length ≤ out.length) :
    Ensures (copyPieces slice ks (p - off) p out) fun out' =>
      z.take (p + len) <+: out' ∧ out'.length = out.length := by
  subst hsum
  exact copyPieces_ensures slice h.room ks p out
    (fun k hk mem pos hat hle hstop => slice_repeats h hat hle hstop (hks k hk)) le_rfl (h.room.trans hroom) hw

/-! ## Numbers of several bytes -/

/-- The number that the bytes are, the least significant first. -/
def leNumber (bytes : List UInt8) : ℕ := Nat.ofDigits 256 (bytes.map UInt8.toNat)

@[simp] theorem leNumber_nil : leNumber [] = 0 := by simp [leNumber]

@[simp] theorem leNumber_cons (b : UInt8) (bytes : List UInt8) :
    leNumber (b :: bytes) = b.toNat + 256 * leNumber bytes := by
  simp [leNumber, Nat.ofDigits_cons]

/-- Numbers of as many bytes are equal only where the bytes are. -/
theorem leNumber_inj {xs ys : List UInt8} (hlen : xs.length = ys.length) (h : leNumber xs = leNumber ys) :
    xs = ys := by
  induction xs generalizing ys with
  | nil => simpa [eq_comm] using hlen
  | cons x xs ih =>
    cases ys with
    | nil => simp at hlen
    | cons y ys =>
      have hx := x.toNat_lt
      have hy := y.toNat_lt
      rw [leNumber_cons, leNumber_cons] at h
      have hhead : x.toNat = y.toNat := by omega
      rw [UInt8.toNat_inj.mp hhead, ih (by simpa using hlen) (by omega)]

/-- How many of the low bytes of a number are zero, of `n` that are looked at. -/
def zeroBytes : ℕ → ℕ → ℕ
  | 0, _ => 0
  | n + 1, v => if v % 256 = 0 then zeroBytes n (v / 256) + 1 else 0

/-- **Where two numbers differ**: as many bytes are equal as low bytes of their exclusive or are zero. -/
theorem zeroBytes_xor {xs ys : List UInt8} (hlen : xs.length = ys.length) {i : ℕ}
    (hi : i < zeroBytes xs.length (leNumber xs ^^^ leNumber ys)) : xs[i]? = ys[i]? := by
  induction xs generalizing ys i with
  | nil => simp [zeroBytes] at hi
  | cons x xs ih =>
    cases ys with
    | nil => simp at hlen
    | cons y ys =>
      have hx := x.toNat_lt
      have hy := y.toNat_lt
      have hlow : (leNumber (x :: xs) ^^^ leNumber (y :: ys)) % 256 = x.toNat ^^^ y.toNat := by
        rw [show 256 = 2 ^ 8 by rfl, Nat.xor_mod_two_pow, leNumber_cons, leNumber_cons]
        congr 1 <;> omega
      have hhigh : (leNumber (x :: xs) ^^^ leNumber (y :: ys)) / 256 = leNumber xs ^^^ leNumber ys := by
        rw [show 256 = 2 ^ 8 by rfl, Nat.xor_div_two_pow, leNumber_cons, leNumber_cons]
        congr 1 <;> omega
      rw [List.length_cons, zeroBytes, hlow, hhigh] at hi
      split_ifs at hi with hzero
      · cases i with
        | zero =>
          have heq : x.toNat = y.toNat := Nat.xor_eq_zero_iff.mp hzero
          simp [UInt8.toNat_inj.mp heq]
        | succ i => simpa using ih (by simpa using hlen) (by omega)
      · omega

theorem zeroBytes_le (n v : ℕ) : zeroBytes n v ≤ n := by
  induction n generalizing v with
  | zero => simp [zeroBytes]
  | succ n ih =>
    rw [zeroBytes]
    split_ifs
    · exact Nat.succ_le_succ (ih _)
    · exact Nat.zero_le _

end CLib
