import Veejay.MiniLzo.Format

/-!
# What miniLZO compresses comes back

The compressor has at each place written what stands for the first bytes of the block, except that the number of the
literals behind the last match may still have to be put into it.

* `Written` — that; `Written.pair`, `Written.ends` — one more run and match, and the end of the block;
* `putLiterals_puts`, `putMatch_puts`, `matchLength_ensures` — what the compressor writes, and what it finds;
* `Sound` — what every place of a part keeps, `Underway` — what every part keeps;
* `lzo1x1Compress_ensures`, `lzo1x_roundTrip` — **every block comes back**, from a buffer of the size that is documented.
-/

namespace Veejay.MiniLzo

open CLib

/-! ## What stands for the first bytes of a block -/

/-- `w` with a number of literals in the match it ends with. -/
def withLow (w : List UInt8) (low : ℕ) : List UInt8 := w.modify (w.length - 2) (· ||| lzoByte low)

@[simp] theorem withLow_length (w : List UInt8) (low : ℕ) : (withLow w low).length = w.length := by simp [withLow]

@[simp] theorem withLow_zero (w : List UInt8) : withLow w 0 = w := by
  have hid : (fun b : UInt8 => b ||| lzoByte 0) = id := funext fun b => by simp [lzoByte]
  rw [withLow, hid, List.modify_id]

/-- The first byte is not one of a run that the block begins with. -/
def Plain (rest : List UInt8) : Prop := ∃ b tail, rest = b :: tail ∧ b.toNat ≤ 17

/-- `w` stands for the first `pos` bytes of the block. -/
structure Written (z w : List UInt8) (pos : ℕ) : Prop where
  size : 16 * w.length ≤ 17 * pos
  expands : pos ≤ 256 * w.length
  within : pos ≤ z.length
  shape : w = [] ∧ pos = 0 ∨ 2 ≤ w.length
  decodes : ∀ low < 4, ∀ rest dst, (w = [] → low = 0 ∧ Plain rest) → z.length ≤ dst.length →
    Reaches z (withLow w low ++ rest) dst (nextLabel low) w.length pos

theorem lowBits_lt (t : ℕ) : lowBits t < 4 := by
  unfold lowBits
  split_ifs <;> omega

theorem lowBits_of_lt {t : ℕ} (ht : 3 < t) : lowBits t = 0 := if_neg (by omega)

/-- A run of more than three literals begins as the block may begin. -/
theorem plain_runHead {t : ℕ} (ht : 3 < t) (rest : List UInt8) : Plain (runHead t ++ rest) := by
  unfold runHead
  split_ifs with h
  · exact ⟨_, _, rfl, by simp [lzoByte]; omega⟩
  · exact ⟨_, _, rfl, by simp⟩

theorem runBytes_of_lt {t : ℕ} (ht : 3 < t) : runBytes t = runHead t := if_neg (by omega)

/-- A run takes not much more than its literals. -/
theorem runBytes_length (t : ℕ) : 255 * (runBytes t).length ≤ t + 510 ∧ (t ≤ 18 → (runBytes t).length ≤ 1) ∧
    (t ≤ 3 → runBytes t = []) := by
  have hbytes := lengthBytes_length (t - 18)
  unfold runBytes runHead
  split_ifs <;> simp <;> omega

/-- The number of the literals is in the byte before the last one of the match. -/
theorem withLow_matchBytes (w : List UInt8) (off len low : ℕ) :
    withLow (w ++ matchBytes off len 0) low = w ++ matchBytes off len low := by
  have hend : ∀ (front : List UInt8) (b d : UInt8),
      withLow (front ++ [b ||| lzoByte 0, d]) low = front ++ [b ||| lzoByte low, d] := by
    intro front b d
    rw [withLow, List.length_append, List.length_cons, List.length_singleton, Nat.add_sub_cancel,
      List.modify_eq_take_drop, List.take_left, List.drop_left]
    simp [lzoByte]
  have hlong : ∀ marker maxLen m,
      withLow (w ++ longMatch marker maxLen m len 0) low = w ++ longMatch marker maxLen m len low := by
    intro marker maxLen m
    have h := hend (w ++ lzoByte (marker ||| if len ≤ maxLen then len - 2 else 0) :: lengthTail maxLen len)
      (lzoByte (m <<< 2)) (lzoByte (m >>> 6))
    rwa [List.append_assoc, List.append_assoc] at h
  unfold matchBytes
  split_ifs
  · exact hend _ _ _
  · exact hlong _ _ _
  · exact hlong _ _ _

theorem pairBytes_length {z : List UInt8} {pos t off len low : ℕ} (hlen : 4 ≤ len) (hroom : pos + t ≤ z.length) :
    16 * (pairBytes z pos t off len low).length ≤ 17 * (t + len) ∧ 2 ≤ (pairBytes z pos t off len low).length ∧
      t + len ≤ 256 * (pairBytes z pos t off len low).length := by
  obtain ⟨hrun, hrun18, hrun3⟩ := runBytes_length t
  obtain ⟨hmatch, hmatch9, htwo, hlen256⟩ := matchBytes_length off len low
  rw [pairBytes, List.length_append, List.length_append, List.length_take, List.length_drop, min_eq_left (by omega)]
  refine ⟨?_, by omega, by omega⟩
  by_cases h3 : t ≤ 3
  · rw [hrun3 h3, List.length_nil]
    omega
  · omega

/-- **One more run and match.** -/
theorem Written.pair {z w : List UInt8} {pos t off len : ℕ} (h : Written z w pos) (ht : w = [] → 3 < t)
    (hlen : 4 ≤ len) (hoff : off < 0xc000) (hrep : Repeats z (pos + t) off len) :
    Written z (withLow w (lowBits t) ++ pairBytes z pos t off len 0) (pos + t + len) := by
  have hroom := hrep.room
  obtain ⟨hbytes, htwo, hmany⟩ := @pairBytes_length z pos t off len 0 hlen (by omega)
  have hsize := h.size
  have hexpands := h.expands
  have hlength : (withLow w (lowBits t) ++ pairBytes z pos t off len 0).length =
      w.length + (pairBytes z pos t off len 0).length := by simp
  refine ⟨by omega, by omega, hroom, by omega, fun low hlow rest dst _ hz => ?_⟩
  have hlast : withLow (withLow w (lowBits t) ++ pairBytes z pos t off len 0) low =
      withLow w (lowBits t) ++ pairBytes z pos t off len low := by
    simp only [pairBytes, ← List.append_assoc, withLow_matchBytes]
  have hbefore := h.decodes (lowBits t) (lowBits_lt t) (pairBytes z pos t off len low ++ rest) dst (fun hw => ?_) hz
  · rw [← withLow_length (withLow w (lowBits t) ++ pairBytes z pos t off len 0) low, hlast, List.append_assoc]
    rw [← withLow_length w (lowBits t)] at hbefore
    exact hbefore.pair hlow hlen hoff hrep rfl
  · rw [pairBytes, runBytes_of_lt (ht hw), List.append_assoc]
    exact ⟨lowBits_of_lt (ht hw), plain_runHead (ht hw) _⟩

/-! ## The end of the block -/

/-- `u` stands for the block, with the end marker behind it. -/
def Ends (z u : List UInt8) : Prop :=
  ∀ dst, z.length ≤ dst.length → Reaches z (u ++ [17, 0, 0]) dst (.matchAt 17) (u.length + 1) z.length

/-- The decompressor returns, with the block in front of its output. -/
def GivesBack (z packed dst : List UInt8) : Prop :=
  Ensures (lzo1xDecompress packed dst) fun d =>
    d.1 = lzoEOk ∧ d.2.1 = z.length ∧ z <+: d.2.2 ∧ d.2.2.length = dst.length

/-- **The end of the block.** -/
theorem Ends.decompress {z u dst : List UInt8} (h : Ends z u) (hz : z.length ≤ dst.length) :
    GivesBack z (u ++ [17, 0, 0]) dst := by
  obtain ⟨⟨l, c⟩, n, out, hstart, hn, hrun, hs⟩ := h dst hz
  have hoff : slice (u ++ [17, 0, 0]) (u.length + 1 : ℕ) 2 = .ok [0, 0] := by
    rw [slice_eq_ok]
    simp
    omega
  have hend : decodeStep (u ++ [17, 0, 0]) (.matchAt 17) ⟨u.length + 1, z.length, out⟩ =
      .ok (none, ⟨u.length + 3, z.length, out⟩) := by
    rw [decodeStep, decodeMatch, if_neg (by decide), if_neg (by decide), if_pos (by decide), getMatchLength,
      if_neg (by decide)]
    simp only [ok_bind, hoff]
    simp
  have hlen : (u ++ [17, 0, 0]).length + 1 = n + (u.length + 3 - n + 1) := by simp; omega
  rw [GivesBack, lzo1xDecompress, hstart, ok_bind, hlen]
  simp only at hrun ⊢
  rw [hrun, decodeRun, hend, ok_bind, ok_bind, ensures_ok]
  exact ⟨if_pos (by simp), rfl, by simpa using hs.text, hs.size⟩

/-- A short block without a match. -/
theorem ends_short {z : List UInt8} (hpos : 0 < z.length) (hle : z.length ≤ 238) :
    Ends z (lzoByte (17 + z.length) :: z) := by
  intro dst hz
  have hbyte : (lzoByte (17 + z.length)).toNat = 17 + z.length := by simp [lzoByte]; omega
  generalize lzoByte (17 + z.length) = b at hbyte ⊢
  have hinp : b :: z ++ [17, 0, 0] = [b] ++ ((z.drop 0).take z.length ++ 17 :: [0, 0]) := by simp
  have hhead : byteAt (b :: z ++ [17, 0, 0]) 0 = .ok b := byteAt_here [] _ _
  have hs : Shown z dst 0 dst := ⟨by simp, rfl, hz⟩
  by_cases h4 : z.length < 4
  · have hstart : decodeStart (b :: z ++ [17, 0, 0]) dst = .ok (.matchNext z.length, ⟨1, 0, dst⟩) := by
      rw [decodeStart, hhead, ok_bind, hbyte, if_pos (by omega), Nat.add_sub_cancel_left, if_pos h4]
    have hnext : Reaches z (b :: z ++ [17, 0, 0]) dst (.matchNext z.length) 1 0 :=
      ⟨_, 0, dst, hstart, by omega, fun fuel => by rw [Nat.zero_add], hs⟩
    have hfew := Reaches.few (w := [b]) hnext (by omega) hinp
    simpa [Nat.add_comm] using hfew
  · obtain ⟨⟨i, p, out⟩, hc, hip, hop, hs'⟩ := copyLiterals_gone (p := List.replicate z.length 1) hinp (by simp)
      (by omega) hs
    have hstart : decodeStart (b :: z ++ [17, 0, 0]) dst = .ok (.firstLiteralRun, ⟨i, p, out⟩) := by
      rw [decodeStart, hhead, ok_bind, hbyte, if_pos (by omega), Nat.add_sub_cancel_left, if_neg h4]
      exact bind_eq_ok.mpr ⟨_, hc, rfl⟩
    simp only [List.length_singleton, Nat.zero_add] at hip hop hs'
    have hrun : Reaches z (b :: z ++ 17 :: [0, 0]) dst .firstLiteralRun (b :: z).length z.length :=
      ⟨_, 0, out, hstart, by omega, fun fuel => by rw [Nat.zero_add, hip, hop, List.length_cons, Nat.add_comm 1], hs'⟩
    exact hrun.first (Or.inr rfl) (by decide)

/-- The literals that are left. -/
theorem Written.ends {z w : List UInt8} {pos t : ℕ} (h : Written z w pos) (ht : pos + t = z.length)
    (hfirst : w = [] → t = 0 ∨ 3 < t) :
    Ends z (withLow w (lowBits t) ++ (runBytes t ++ z.drop (z.length - t))) := by
  intro dst hz
  have hlast : z.drop (z.length - t) = (z.drop pos).take t := by
    rw [show z.length - t = pos by omega, List.take_of_length_le (by simp; omega)]
  have hplain : w = [] → lowBits t = 0 ∧ Plain (runBytes t ++ (z.drop pos).take t ++ 17 :: [0, 0]) := by
    intro hw
    rcases hfirst hw with rfl | ht
    · exact ⟨rfl, 17, [0, 0], by simp [runBytes], by decide⟩
    · rw [runBytes_of_lt ht, List.append_assoc]
      exact ⟨lowBits_of_lt ht, plain_runHead ht _⟩
  have hbefore := h.decodes (lowBits t) (lowBits_lt t) _ dst hplain hz
  rw [← withLow_length w (lowBits t)] at hbefore
  have hlit := hbefore.literals (by decide) (by omega) (List.append_assoc ..).symm
  rw [ht, ← List.append_assoc] at hlit
  rw [hlast]
  exact hlit

/-! ## What the compressor writes -/

/-- The buffer begins with `w`, and that is as far as the compressor has come. -/
structure Puts (w : List UInt8) (size : ℕ) (r : ℕ × List UInt8) : Prop where
  op : r.1 = w.length
  text : w <+: r.2
  size : r.2.length = size

section Writing

variable {w out : List UInt8} {op size : ℕ}

/-- One byte more. -/
theorem Puts.byte (h : Puts w size (op, out)) (b : UInt8) (hroom : w.length + 1 ≤ size) :
    Ensures (overwrite out op [b]) fun out' => Puts (w ++ [b]) size (op + 1, out') := by
  obtain ⟨rfl, htext, rfl⟩ := h
  obtain ⟨out', hout, htext', hsize⟩ := overwrite_end [b] htext hroom
  exact ⟨out', hout, by simp, htext', hsize⟩

/-- Two bytes more, the second behind the first. -/
theorem Puts.two (h : Puts w size (op, out)) (b d : UInt8) (hroom : (w ++ [b, d]).length ≤ size) :
    Ensures (do
      let out ← overwrite out op [b]
      let out ← overwrite out (op + 1) [d]
      .ok (op + 2, out)) fun r => Puts (w ++ [b, d]) size r := by
  rw [List.length_append, List.length_cons, List.length_singleton] at hroom
  simp only [ensures_bind, ensures_ok]
  refine (h.byte b (by omega)).mono fun out' hout => ?_
  simpa using hout.byte d (by simp; omega)

/-- Bytes of the block. -/
theorem Puts.copy (h : Puts w size (op, out)) {inp : List UInt8} {ks : List ℕ} {ii t : ℕ} (ht : t ≤ ks.sum)
    (hin : ii + ks.sum ≤ inp.length) (hroom : w.length + ks.sum ≤ size) :
    Ensures (copyPieces (fun _ => slice inp) ks ii op out) fun out' =>
      Puts (w ++ (inp.drop ii).take t) size (op + t, out') := by
  obtain ⟨rfl, htext, rfl⟩ := h
  refine (copyPieces_input _ _ _ htext hin hroom).mono fun out' hout => ⟨?_, ?_, hout.2⟩
  · simp
    omega
  · refine List.IsPrefix.trans ((List.prefix_append_right_inj w).mpr ?_) hout.1
    rw [← min_eq_left ht, ← List.take_take]
    exact List.take_prefix _ _

theorem putLength_puts {tt : ℕ} (h : Puts w size (op, out)) (hroom : (w ++ lengthBytes tt).length ≤ size) :
    Ensures (putLength op tt out) fun r => Puts (w ++ lengthBytes tt) size r := by
  simp only [putLength, ensures_bind]
  refine Ensures.mono (whileLoop_ensures (fun s => ∃ w', Puts w' size s.2 ∧ w' ++ lengthBytes s.1 = w ++ lengthBytes tt)
    (fun s => s.1) (fun s hs hc => ?_) tt (tt, op, out) ⟨w, h, rfl⟩ le_rfl) fun s hs => ?_
  · obtain ⟨tt', op', out'⟩ := s
    obtain ⟨w', hputs, hw⟩ := hs
    have hgt : tt' > 255 := by simpa using hc
    rw [lengthBytes, if_pos hgt] at hw
    rw [← hw] at hroom
    simp only [ensures_bind, ensures_ok]
    refine (hputs.byte 0 (by simp at hroom; omega)).mono fun out'' hout => ⟨⟨w' ++ [0], hout, ?_⟩, by omega⟩
    simpa using hw
  · obtain ⟨⟨w', hputs, hw⟩, hc⟩ := hs
    rw [lengthBytes, if_neg (by simpa using hc)] at hw
    rw [← hw] at hroom ⊢
    exact (hputs.byte _ (by simpa using hroom)).mono fun out' hout => by rwa [ensures_ok]

theorem putRun_puts {t : ℕ} (h : Puts w size (op, out)) (hroom : (w ++ runHead t).length ≤ size) :
    Ensures (putRun op t out) fun r => Puts (w ++ runHead t) size r := by
  unfold putRun runHead at *
  split_ifs at * with h18
  · simp only [ensures_bind, ensures_ok]
    exact h.byte _ (by simpa using hroom)
  · simp only [ensures_bind]
    refine (h.byte 0 (by simp at hroom; omega)).mono fun out' hout => ?_
    rw [← List.singleton_append, ← List.append_assoc] at hroom ⊢
    exact putLength_puts hout hroom

/-- The number of literals is put into the match in front. -/
theorem putLow_puts {t : ℕ} (h : Puts w size (op, out)) (hlen : 2 ≤ w.length) :
    Ensures (putLow op t out) fun out' => Puts (withLow w t) size (op, out') := by
  obtain ⟨rfl, ⟨rest, rfl⟩, rfl⟩ := h
  obtain ⟨b, d, hend⟩ := List.length_eq_two.mp (show (w.drop (w.length - 2)).length = 2 by simp; omega)
  obtain ⟨front, rfl⟩ : ∃ front, w = front ++ [b, d] := ⟨_, by rw [← hend, List.take_append_drop]⟩
  rw [putLow, show (((front ++ [b, d]).length : ℕ) : ℤ) - 2 = front.length by simp, List.append_assoc, List.cons_append,
    byteAt_here, ok_bind, show (front ++ [b, d]).length - 2 = front.length by simp]
  refine ⟨front ++ [b ||| lzoByte t] ++ (d :: rest), ?_, by simp, ?_, by simp⟩
  · rw [overwrite_eq_ok]
    simp
  · rw [withLow, List.modify_eq_take_drop]
    simp

/-- The literals in front of a match. -/
theorem putLiterals_puts {inp : List UInt8} {ii t : ℕ} (h : Puts w size (op, out)) (hlow : t = 0 ∨ 3 < t ∨ 2 ≤ w.length)
    (hin : ii + t + 16 ≤ inp.length) (hroom : w.length + (runBytes t).length + t + 16 ≤ size) :
    Ensures (putLiterals inp ii t op out) fun r =>
      Puts (withLow w (lowBits t) ++ (runBytes t ++ (inp.drop ii).take t)) size r := by
  unfold putLiterals
  split_ifs with h0 h3 h16
  · subst h0
    simpa [lowBits, runBytes] using h
  · simp only [ensures_bind, ensures_ok]
    refine (putLow_puts (t := t) h (by omega)).mono fun out' hlow => ?_
    rw [lowBits, if_pos h3, runBytes, if_pos h3, List.nil_append]
    exact hlow.copy (by simp; omega) (by simp; omega) (by simp; omega)
  · rw [lowBits_of_lt (by omega), withLow_zero]
    rw [runBytes_of_lt (by omega), runHead, if_pos (by omega)] at hroom ⊢
    simp only [ensures_bind, ensures_ok]
    refine (h.byte (lzoByte (t - 3)) (by omega)).mono fun out' hout => ?_
    rw [← List.append_assoc]
    exact hout.copy (by simp; omega) (by simp; omega) (by simp at hroom ⊢; omega)
  · rw [lowBits_of_lt (by omega), withLow_zero]
    rw [runBytes_of_lt (by omega)] at hroom ⊢
    simp only [ensures_bind, ensures_ok]
    apply (putRun_puts (t := t) h (by rw [List.length_append]; omega)).mono
    rintro ⟨op, out⟩ hr
    have hsum : (List.replicate (t / 16 * 2) 8 ++ List.replicate (t % 16) 1).sum = t := by simp; omega
    rw [← List.append_assoc]
    exact hr.copy hsum.ge (by omega) (by rw [hsum, List.length_append]; omega)

/-- A match of the third or fourth kind. -/
theorem putLongMatch_puts {marker maxLen m len : ℕ} (h : Puts w size (op, out))
    (hroom : (w ++ longMatch marker maxLen m len 0).length ≤ size) :
    Ensures (putLongMatch marker maxLen m len op out) fun r => Puts (w ++ longMatch marker maxLen m len 0) size r := by
  have hzero : lzoByte (m <<< 2) ||| lzoByte 0 = lzoByte (m <<< 2) := by simp [lzoByte]
  rw [longMatch, hzero, ← List.cons_append, ← List.append_assoc] at hroom ⊢
  unfold putLongMatch lengthTail at *
  split_ifs at hroom ⊢ with hlen
  · rw [ensures_bind]
    refine (h.byte (lzoByte (marker ||| (len - 2))) (by simp at hroom; omega)).mono fun out' hout => ?_
    exact hout.two _ _ hroom
  · have hcons : w ++ lzoByte marker :: lengthBytes (len - maxLen) =
        w ++ [lzoByte marker] ++ lengthBytes (len - maxLen) := by simp
    rw [Nat.or_zero, hcons] at hroom ⊢
    rw [ensures_bind]
    refine (h.byte (lzoByte marker) (by simp at hroom; omega)).mono fun out' hout => ?_
    rw [ensures_bind]
    apply (putLength_puts hout (by simp at hroom ⊢; omega)).mono
    rintro ⟨op, out⟩ hr
    exact hr.two _ _ hroom

/-- A match. -/
theorem putMatch_puts {off len : ℕ} (h : Puts w size (op, out)) (hroom : (w ++ matchBytes off len 0).length ≤ size) :
    Ensures (putMatch off len op out) fun r => Puts (w ++ matchBytes off len 0) size r := by
  unfold putMatch matchBytes at *
  split_ifs at * with h2 h3
  · have hzero : ∀ b : UInt8, b ||| lzoByte 0 = b := fun b => by simp [lzoByte]
    rw [hzero] at hroom ⊢
    exact h.two _ _ hroom
  · exact putLongMatch_puts h hroom
  · exact putLongMatch_puts h hroom

end Writing

/-! ## What the compressor finds -/

section Finding

variable {inp : List UInt8} {ip mPos ipEnd : ℕ}

/-- Bytes from two places on are equal. -/
def SameFor (inp : List UInt8) (ip mPos len : ℕ) : Prop := ∀ i < len, inp[ip + i]? = inp[mPos + i]?

theorem getLe_eq {p n : ℕ} (h : p + n ≤ inp.length) : getLe inp p n = .ok (leNumber ((inp.drop p).take n)) := by
  have hslice : slice inp p n = .ok ((inp.drop p).take n) := slice_eq_ok.mpr ⟨Or.inr (by omega), by simp⟩
  rw [getLe, hslice, ok_bind]

/-- Bytes are equal as far as the numbers they are. -/
theorem differ_ensures {mLen : ℕ} (hback : mPos < ip) (hend : ip + mLen + 8 ≤ inp.length)
    (hsame : SameFor inp ip mPos mLen) :
    Ensures (differ inp ip mPos mLen) fun v => SameFor inp ip mPos (mLen + zeroBytes 8 v) := by
  rw [differ, getLe_eq hend, getLe_eq (by omega)]
  simp only [ok_bind, ensures_ok]
  intro i hi
  by_cases hbefore : i < mLen
  · exact hsame i hbefore
  · have hlen : ∀ {p}, p + 8 ≤ inp.length → ((inp.drop p).take 8).length = 8 := fun h => by simp; omega
    have hxor := zeroBytes_xor (i := i - mLen) ((hlen hend).trans (hlen (p := mPos + mLen) (by omega)).symm)
      (by rw [hlen hend]; omega)
    have hle := zeroBytes_le 8 (leNumber ((inp.drop (ip + mLen)).take 8) ^^^ leNumber ((inp.drop (mPos + mLen)).take 8))
    rw [List.getElem?_take_of_lt (by omega), List.getElem?_take_of_lt (by omega), List.getElem?_drop,
      List.getElem?_drop] at hxor
    rwa [show ip + mLen + (i - mLen) = ip + i by omega, show mPos + mLen + (i - mLen) = mPos + i by omega] at hxor

/-- The bytes that are equal, as far as the end of the part lets the compressor look. -/
structure Found (inp : List UInt8) (ip mPos ipEnd len : ℕ) : Prop where
  four : 4 ≤ len
  within : ip + len < ipEnd + 20
  same : SameFor inp ip mPos len

theorem extendMatch_ensures (hback : mPos < ip) (hend : ipEnd + 20 ≤ inp.length) :
    ∀ (fuel mLen : ℕ), ipEnd + 4 ≤ ip + mLen + fuel → ip + mLen < ipEnd + 4 → SameFor inp ip mPos (mLen + 8) →
      Ensures (extendMatch inp ip mPos ipEnd fuel mLen) (Found inp ip mPos ipEnd) := by
  intro fuel
  induction fuel with
  | zero => intro mLen h1 h2; omega
  | succ fuel ih =>
    intro mLen hfuel hin hsame
    simp only [extendMatch, ensures_bind]
    refine (differ_ensures hback (by omega) hsame).mono fun v hv => ?_
    have hle := zeroBytes_le 8 v
    split_ifs with hstop hv0
    · exact (ensures_ok _ _).mpr ⟨by omega, by omega, hsame⟩
    · subst hv0
      exact ih (mLen + 8) (by omega) (by omega) hv
    · exact (ensures_ok _ _).mpr ⟨by omega, by omega, hv⟩

/-- **A match that is found.** -/
theorem matchLength_ensures (hback : mPos < ip) (hin : ip < ipEnd) (hend : ipEnd + 20 ≤ inp.length)
    (hsame : SameFor inp ip mPos 4) :
    Ensures (matchLength inp ip mPos ipEnd) (Found inp ip mPos ipEnd) := by
  rw [matchLength, ensures_bind]
  refine (differ_ensures hback (by omega) hsame).mono fun v hv => ?_
  have hle := zeroBytes_le 8 v
  split_ifs with hv0
  · subst hv0
    exact extendMatch_ensures hback hend ipEnd 4 (by omega) (by omega) hv
  · exact (ensures_ok _ _).mpr ⟨by omega, by omega, hv⟩

end Finding

/-! ## The places of a part -/

/-- The size that is documented for the buffer. -/
def outSize (n : ℕ) : ℕ := n + n / 16 + 64 + 3

/-- What every place keeps, in a part that ends 20 bytes behind `ipEnd`: what is written stands for the bytes in front of
the literals that are waiting, a first match has more than three literals in front of it, and the table has places
that are behind. -/
structure Sound (inp : List UInt8) (start ipEnd size : ℕ) (s : Place) : Prop where
  written : ∃ w, Puts w size (s.op, s.out) ∧ Written inp w (s.ii - s.ti) ∧ (w = [] → s.ii - s.ti + 3 < s.ip)
  waiting : s.ti ≤ s.ii ∧ s.ii ≤ s.ip ∧ s.ii < ipEnd + 20
  dict : ∀ i, start + s.dict i < s.ip

variable {inp : List UInt8} {start ipEnd size : ℕ} {s : Place}

/-- One place further, with a table that knows this one. -/
theorem Sound.literal (h : Sound inp start ipEnd size s) {dict : ℕ → ℕ} (hdict : ∀ i, start + dict i ≤ s.ip) :
    Sound inp start ipEnd size ({ s with dict } : Place).literal := by
  obtain ⟨⟨w, hputs, hw, hfirst⟩, ⟨hti, hii, hend⟩, -⟩ := h
  refine ⟨⟨w, hputs, hw, fun h0 => ?_⟩, ⟨hti, ?_, hend⟩, fun i => ?_⟩ <;> simp only [Place.literal]
  · have := hfirst h0
    omega
  · omega
  · have := hdict i
    omega

/-- **One place.** -/
theorem compressRound_sound (h : Sound inp start ipEnd size s) (hip : s.ip < ipEnd) (hend : ipEnd + 20 ≤ inp.length)
    (hpart : ipEnd ≤ start + 49132) (hsize : outSize inp.length ≤ size) :
    Ensures (compressRound inp start ipEnd s) fun s' => Sound inp start ipEnd size s' ∧ s.ip < s'.ip := by
  have hback := h.dict (dIndex (leNumber ((inp.drop s.ip).take 4)))
  simp only [compressRound, getLe_eq (show s.ip + 4 ≤ inp.length by omega), ok_bind]
  generalize hk : dIndex (leNumber ((inp.drop s.ip).take 4)) = k at hback ⊢
  rw [getLe_eq (by omega), ok_bind, Nat.mod_eq_of_lt (show s.ip - start < 2 ^ 16 by omega)]
  have hdict : ∀ i, start + Function.update s.dict k (s.ip - start) i ≤ s.ip := by
    intro i
    have := h.dict i
    rw [Function.update_apply]
    split_ifs <;> omega
  split_ifs with hne
  · refine (ensures_ok _ _).mpr ⟨h.literal hdict, ?_⟩
    simp only [Place.literal]
    omega
  · obtain ⟨⟨w, hputs, hw, hfirst⟩, ⟨hti, hii, -⟩, -⟩ := h
    have hfour : SameFor inp s.ip (start + s.dict k) 4 := by
      have heq := leNumber_inj (by simp; omega) (not_not.mp hne)
      intro i hi
      have hget := congrArg (·[i]?) heq
      simpa [List.getElem?_take_of_lt hi] using hget
    generalize hpos : s.ii - s.ti = pos at hw hfirst ⊢
    obtain ⟨t, ht⟩ : ∃ t, s.ip = pos + t := ⟨s.ip - pos, by omega⟩
    have hthree : w = [] → 3 < t := fun h0 => by have := hfirst h0; omega
    have hshape : t = 0 ∨ 3 < t ∨ 2 ≤ w.length := hw.shape.elim (fun h0 => Or.inr (Or.inl (hthree h0.1)))
      fun h2 => Or.inr (Or.inr h2)
    have hw16 := hw.size
    have hrun := runBytes_length t
    rw [outSize] at hsize
    rw [show s.ip - pos = t by omega, ensures_bind]
    apply (putLiterals_puts hputs hshape (by omega) (by omega)).mono
    rintro ⟨op, out⟩ hr
    rw [ensures_bind]
    refine (matchLength_ensures hback hip hend hfour).mono fun len hlen => ?_
    have hwithin := hlen.within
    have hrep : Repeats inp (pos + t) (s.ip - (start + s.dict k)) len := by
      refine ⟨by omega, by omega, by omega, fun i hi => ?_⟩
      rw [← ht, hlen.same i hi]
      congr 1
      omega
    have hnext := hw.pair hthree hlen.four (by omega) hrep
    have hnext16 := hnext.size
    rw [pairBytes, ← List.append_assoc (runBytes t), ← List.append_assoc] at hnext hnext16
    rw [ensures_bind]
    refine (putMatch_puts hr (by omega)).mono fun r' hr' => (ensures_ok _ _).mpr ?_
    have hfour := hlen.four
    refine ⟨⟨⟨_, hr', ?_, fun h0 => ?_⟩, ⟨Nat.zero_le _, le_rfl, hwithin⟩, fun i => ?_⟩, by simp only; omega⟩
    · simpa [← ht] using hnext
    · have := congrArg List.length h0
      have htwo := (matchBytes_length (s.ip - (start + s.dict k)) len 0).2.2.1
      simp only [List.length_append, List.length_nil] at this
      omega
    · have := hdict i
      simp only
      omega

/-! ## The parts, and the block -/

/-- What every part keeps. -/
structure Underway (inp : List UInt8) (size : ℕ) (s : Part) : Prop where
  written : ∃ w, Puts w size (s.op, s.out) ∧ Written inp w (s.ip - s.t)
  waiting : s.t ≤ s.ip
  left : s.ip + s.l = inp.length

/-- **One part.** -/
theorem compressPart_underway {s : Part} (h : Underway inp size s) (hmore : s.more = true)
    (hsize : outSize inp.length ≤ size) :
    Ensures (compressPart inp s) fun s' => Underway inp size s' ∧ s'.l < s.l := by
  obtain ⟨⟨w, hputs, hw⟩, ht, hleft⟩ := h
  have hl : 20 < s.l := by simp [Part.more] at hmore; omega
  have hll : 20 < s.ll ∧ s.ll ≤ s.l ∧ s.ll ≤ 49152 := by unfold Part.ll; omega
  have hskip : 4 ≤ s.t + if s.t < 4 then 4 - s.t else 0 := by split_ifs <;> omega
  simp only [compressPart, doCompress, ensures_bind, ensures_ok]
  generalize (if s.t < 4 then 4 - s.t else 0) = skip at hskip ⊢
  have hstart : Sound inp s.ip (s.ip + s.ll - 20) size
      ({ ip := s.ip + skip, ii := s.ip, ti := s.t, op := s.op, out := s.out, dict := fun _ => 0 } : Place).literal := by
    refine ⟨⟨w, hputs, hw, fun _ => ?_⟩, ⟨ht, ?_, ?_⟩, fun i => ?_⟩ <;> simp only [Place.literal] <;> omega
  have hloop := @whileLoop_ensures Place (fun s' => decide (s'.ip < s.ip + s.ll - 20))
    (compressRound inp s.ip (s.ip + s.ll - 20)) (Sound inp s.ip (s.ip + s.ll - 20) size)
    (fun s' => s.ip + s.ll - 20 - s'.ip) (fun s' hs' hc => ?_) s.ll _ hstart ?_
  · refine hloop.mono fun s' hs' => ?_
    obtain ⟨⟨⟨w', hputs', hw', -⟩, ⟨hti, hii, hend⟩, -⟩, -⟩ := hs'
    have hpos : s.ip + s.ll - (s.ip + s.ll - (s'.ii - s'.ti)) = s'.ii - s'.ti := by omega
    exact ⟨⟨⟨w', hputs', hpos.symm ▸ hw'⟩, Nat.sub_le _ _, by simp only; omega⟩, by omega⟩
  · have hlt : s'.ip < s.ip + s.ll - 20 := by simpa using hc
    refine (compressRound_sound hs' hlt (by omega) (by omega) hsize).mono fun s'' hs'' => ⟨hs''.1, ?_⟩
    have := hs''.2
    omega
  · simp only [Place.literal]
    omega

/-- **Every part.** -/
theorem parts_underway (hsize : outSize inp.length ≤ size) {out : List UInt8} (hout : out.length = size) :
    Ensures (whileLoop Part.more (compressPart inp) inp.length { ip := 0, l := inp.length, t := 0, op := 0, out })
      (Underway inp size) := by
  have hempty : Written inp [] 0 := by
    refine ⟨by simp, by simp, Nat.zero_le _, Or.inl ⟨rfl, rfl⟩, fun low hlow rest dst hplain hz => ?_⟩
    obtain ⟨rfl, b, tail, rfl, hb⟩ := hplain rfl
    have hhead : byteAt (b :: tail) 0 = .ok b := byteAt_here [] tail b
    refine ⟨(.top, ⟨0, 0, dst⟩), 0, dst, ?_, le_rfl, fun fuel => by rw [Nat.zero_add]; rfl, by simp, rfl, hz⟩
    rw [withLow_zero, List.nil_append, decodeStart, hhead, ok_bind, if_neg (by omega)]
  have hstart : Underway inp size { ip := 0, l := inp.length, t := 0, op := 0, out } :=
    ⟨⟨[], ⟨rfl, List.nil_prefix, hout⟩, hempty⟩, le_rfl, by simp⟩
  exact (whileLoop_ensures (Underway inp size) (fun s => s.l)
    (fun s hs hc => compressPart_underway hs hc hsize) inp.length _ hstart le_rfl).mono fun s hs => hs.1

/-- All of the block is written: behind `w`, not much more than the `t` literals that are left. -/
def Finished (inp w : List UInt8) (size t : ℕ) (r : ℕ × List UInt8) : Prop :=
  ∃ u, Puts u size r ∧ Ends inp u ∧ u.length ≤ w.length + (runBytes t).length + t + 1 ∧ w.length + t ≤ u.length

/-- What is left behind the last part. -/
theorem putLast_puts {w out : List UInt8} {op pos t : ℕ} (h : Puts w size (op, out)) (hw : Written inp w pos)
    (ht : pos + t = inp.length) (hroom : w.length + (runBytes t).length + t + 1 ≤ size) :
    Ensures (putLast inp t op out) (Finished inp w size t) := by
  have hop : op = 0 ↔ w = [] := by rw [show op = w.length from h.op, List.length_eq_zero_iff]
  have hcopy : ∀ {u out op}, Puts u size (op, out) → u.length ≤ w.length + (runBytes t).length + 1 ∧ w.length ≤ u.length →
      Ends inp (u ++ inp.drop (inp.length - t)) →
      Ensures (copyPieces (fun _ => slice inp) [t] ((inp.length - t : ℕ) : ℤ) op out) fun out' =>
        Finished inp w size t (op + t, out') := by
    intro u out op hu hlen hends
    refine Ensures.mono (hu.copy (t := t) (by simp) (by simp; omega) (by simp; omega)) fun out' hout => ⟨_, hout, ?_, by simp; omega, by simp; omega⟩
    rwa [List.take_of_length_le (by simp; omega)]
  by_cases h17 : w = [] ∧ 0 < t ∧ t ≤ 238
  · obtain ⟨rfl, hpos, h238⟩ := h17
    obtain rfl : pos = 0 := (hw.shape.resolve_right (by simp)).2
    obtain rfl : t = inp.length := by omega
    rw [putLast, if_pos hpos, if_pos ⟨hop.mpr rfl, h238⟩, ensures_bind]
    refine (h.byte (lzoByte (17 + inp.length)) (by simp; omega)).mono fun out' hout => ?_
    rw [ok_bind, ensures_bind]
    refine (hcopy hout (by simp) ?_).mono fun out'' hu => (ensures_ok _ _).mpr hu
    simpa using ends_short hpos h238
  · have hthree : w = [] → t = 0 ∨ 3 < t := fun hw => by
      by_contra ht
      exact h17 ⟨hw, by omega, by omega⟩
    have hends := hw.ends ht hthree
    rw [← List.append_assoc] at hends
    rcases Nat.eq_zero_or_pos t with rfl | hpos
    · exact ⟨_, rfl, w, h, by simpa [lowBits, runBytes] using hends, by omega, by omega⟩
    rw [putLast, if_pos hpos, if_neg fun h0 => h17 ⟨hop.mp h0.1, hpos, h0.2⟩]
    split_ifs with h3
    · rw [ensures_bind]
      refine (putLow_puts (t := t) h ?_).mono fun out' hout => ?_
      · exact hw.shape.resolve_left fun h0 => by have := hthree h0.1; omega
      · rw [ok_bind, ensures_bind]
        refine (hcopy hout (by simp; omega) ?_).mono fun out'' hu => (ensures_ok _ _).mpr hu
        simpa [lowBits, runBytes, h3] using hends
    · rw [lowBits_of_lt (by omega), withLow_zero, runBytes_of_lt (by omega)] at hends
      rw [runBytes_of_lt (by omega)] at hroom hcopy
      rw [ensures_bind]
      apply (putRun_puts (t := t) h (by simp; omega)).mono
      rintro ⟨op, out⟩ hr
      rw [ensures_bind]
      exact (hcopy hr (by simp) hends).mono fun out'' hu => (ensures_ok _ _).mpr hu

/-- **What the compressor leaves.**  Into a buffer of the size that is documented, it does not write behind its end,
whatever the block; and what it has written gives the block back, in any memory that is large enough. -/
theorem lzo1x1Compress_ensures (block buf : List UInt8) (hsize : outSize block.length ≤ buf.length) :
    Ensures (lzo1x1Compress block buf) fun r =>
      3 ≤ r.1 ∧ r.1 ≤ outSize block.length ∧ block.length ≤ 256 * r.1 ∧ r.2.length = buf.length ∧
        ∀ dst, block.length ≤ dst.length → GivesBack block (r.2.take r.1) dst := by
  rw [lzo1x1Compress, ensures_bind]
  refine (parts_underway hsize rfl).mono fun s hs => ?_
  obtain ⟨⟨w, hputs, hw⟩, ht, hleft⟩ := hs
  have hw16 := hw.size
  have hrun := runBytes_length (s.t + s.l)
  rw [outSize] at hsize ⊢
  rw [ensures_bind]
  apply (putLast_puts hputs hw (by omega) (by omega)).mono
  rintro ⟨op, out⟩ hr
  obtain ⟨u, hu, hends, hlen, hmin⟩ := hr
  have hmarker : lzoByte (m4Marker ||| 1) = 17 := by decide
  simp only [hmarker, ensures_bind, ensures_ok]
  refine (hu.byte 17 (by omega)).mono fun out1 h1 => ?_
  refine (h1.byte 0 (by simp; omega)).mono fun out2 h2 => ?_
  refine (h2.byte 0 (by simp; omega)).mono fun out3 h3 => ?_
  obtain ⟨hop, htext, hbuf⟩ := h3
  rw [List.append_assoc, List.append_assoc, List.singleton_append, List.singleton_append] at hop htext
  change op + 3 = _ at hop
  have hsum : (u ++ [17, 0, 0]).length = u.length + 3 := by simp
  have hexpands := hw.expands
  refine ⟨by omega, by omega, by omega, hbuf, fun dst hdst => ?_⟩
  rw [hop, ← List.prefix_iff_eq_take.mp htext]
  exact hends.decompress hdst

/-- The block is compressed into `buf`, and comes back in `dst`. -/
def ComesBack (block buf dst : List UInt8) : Prop :=
  Ensures (lzo1x1Compress block buf) fun r => r.1 ≤ outSize block.length ∧ GivesBack block (r.2.take r.1) dst

/-- **Every block comes back**, where the buffers have the sizes that are documented. -/
theorem lzo1x_roundTrip {block buf dst : List UInt8} (hsize : outSize block.length ≤ buf.length)
    (hdst : block.length ≤ dst.length) : ComesBack block buf dst := by
  apply (lzo1x1Compress_ensures block buf hsize).mono
  intro r hr
  obtain ⟨-, hmax, -, -, hback⟩ := hr
  exact ⟨hmax, hback dst hdst⟩

theorem lzo1x_roundTrip_two : ComesBack [1, 2] (List.replicate 69 0) [0, 0] :=
  lzo1x_roundTrip (by simp [outSize]) le_rfl

end Veejay.MiniLzo
