import Veejay.CLib.Lz
import Veejay.CLib.Loop

/-!
# The decompressor of miniLZO

`lzo1x_decompress` (`liblzo/minilzo.c`), the one that does not check its input, on a 64-bit little endian machine with
unaligned access.  The function is one body with labels that it jumps to; a label is here a state of a machine, and
everything between two labels is a step.  Each step reads at least one byte of the input, so a run that is longer than
the input has left it.

* `Label`, `decodeStep` — the machine;
* `lzo1xDecompress` — the function; `lzo1xDecompress_halts` — **it always comes to an end.**
-/

namespace Veejay.MiniLzo

open CLib

def lzoEOk : ℤ := 0
def lzoEInputOverrun : ℤ := -4
def lzoEInputNotConsumed : ℤ := -8

/-- Where the function is: at the head of the loop; behind a run of literals; at a match whose first byte is `t`; in
front of the `t` literals behind a match. -/
inductive Label where
  | top
  | firstLiteralRun
  | matchAt (t : ℕ)
  | matchNext (t : ℕ)

/-- The position in the input, that in the output, and the output. -/
structure Cursor where
  ip : ℕ
  op : ℕ
  out : List UInt8

/-- `while (*ip == 0) { t += 255; ip++; } t += base + *ip++;` -/
def getLength (inp : List UInt8) (base : ℕ) : ℕ → ℕ → ℕ → Exec (ℕ × ℕ)
  | 0, _, _ => .error .outOfFuel
  | fuel + 1, t, ip => do
    let b ← byteAt inp ip
    if b = 0 then getLength inp base fuel (t + 255) (ip + 1)
    else .ok (t + base + b.toNat, ip + 1)

/-- Eight bytes at a time, then four, then one by one. -/
def moves (t : ℕ) : List ℕ :=
  List.replicate (t / 8) 8 ++ ((if t % 8 ≥ 4 then [4] else []) ++ List.replicate (t % 4) 1)

/-- Literals: `t` bytes of the input. -/
def copyLiterals (inp : List UInt8) (ks : List ℕ) (c : Cursor) : Exec Cursor := do
  let out ← copyPieces (fun _ => slice inp) ks c.ip c.op c.out
  .ok { ip := c.ip + ks.sum, op := c.op + ks.sum, out }

/-- A match: `t` bytes of the output, from `m_pos` on. -/
def copyMatch (mPos : ℤ) (ks : List ℕ) (c : Cursor) : Exec Cursor := do
  let out ← copyPieces slice ks mPos c.op c.out
  .ok { c with op := c.op + ks.sum, out }

/-- `match_done:` the two low bits of the byte before the last one are the number of literals that follow. -/
def matchDone (inp : List UInt8) (c : Cursor) : Exec (Label × Cursor) := do
  let b ← byteAt inp ((c.ip : ℤ) - 2)
  if b.toNat &&& 3 = 0 then .ok (.top, c) else .ok (.matchNext (b.toNat &&& 3), c)

/-- A match of the third or fourth kind, whose offset has been read: by pieces where the distance is at least eight,
and otherwise one byte after the other. -/
def copyFar (inp : List UInt8) (mPos : ℤ) (t : ℕ) (c : Cursor) : Exec (Label × Cursor) := do
  let c ← copyMatch mPos (if (c.op : ℤ) - mPos ≥ 8 then moves (t + 2) else List.replicate (t + 2) 1) c
  matchDone inp c

/-- The length of a match of the third or fourth kind, behind its first byte. -/
def getMatchLength (inp : List UInt8) (t base : ℕ) (ip : ℕ) : Exec (ℕ × ℕ) :=
  if t = 0 then getLength inp base (inp.length + 1) 0 ip else .ok (t, ip)

/-- `match:`; `none` is `eof_found`. -/
def decodeMatch (inp : List UInt8) (t : ℕ) (c : Cursor) : Exec (Option Label × Cursor) := do
  if t ≥ 64 then do
    let b ← byteAt inp c.ip
    let mPos := (c.op : ℤ) - 1 - (t >>> 2 &&& 7 : ℕ) - (b.toNat <<< 3 : ℕ)
    let c ← copyMatch mPos (List.replicate (t >>> 5 - 1 + 2) 1) { c with ip := c.ip + 1 }
    let (l, c) ← matchDone inp c
    .ok (some l, c)
  else if t ≥ 32 then do
    let (t, ip) ← getMatchLength inp (t &&& 31) 31 c.ip
    let off ← slice inp ip 2
    let (l, c) ← copyFar inp ((c.op : ℤ) - 1 - (leNumber off >>> 2 : ℕ)) t { c with ip := ip + 2 }
    .ok (some l, c)
  else if t ≥ 16 then do
    let back := (t &&& 8) <<< 11
    let (t, ip) ← getMatchLength inp (t &&& 7) 7 c.ip
    let off ← slice inp ip 2
    let mPos := (c.op : ℤ) - back - (leNumber off >>> 2 : ℕ)
    if mPos = c.op then .ok (none, { c with ip := ip + 2 })
    else do
      let (l, c) ← copyFar inp (mPos - 0x4000) t { c with ip := ip + 2 }
      .ok (some l, c)
  else do
    let b ← byteAt inp c.ip
    let mPos := (c.op : ℤ) - 1 - (t >>> 2 : ℕ) - (b.toNat <<< 2 : ℕ)
    let c ← copyMatch mPos [1, 1] { c with ip := c.ip + 1 }
    let (l, c) ← matchDone inp c
    .ok (some l, c)

/-- From one label to the next. -/
def decodeStep (inp : List UInt8) : Label → Cursor → Exec (Option Label × Cursor)
  | .top, c => do
    let b ← byteAt inp c.ip
    if b.toNat ≥ 16 then .ok (some (.matchAt b.toNat), { c with ip := c.ip + 1 })
    else do
      let (t, ip) ← if b = 0 then getLength inp 15 (inp.length + 1) 0 (c.ip + 1) else .ok (b.toNat, c.ip + 1)
      let c ← copyLiterals inp (moves (t + 3)) { c with ip }
      .ok (some .firstLiteralRun, c)
  | .firstLiteralRun, c => do
    let b ← byteAt inp c.ip
    if b.toNat ≥ 16 then .ok (some (.matchAt b.toNat), { c with ip := c.ip + 1 })
    else do
      let d ← byteAt inp ((c.ip + 1 : ℕ) : ℤ)
      let mPos := (c.op : ℤ) - (1 + 0x0800) - (b.toNat >>> 2 : ℕ) - (d.toNat <<< 2 : ℕ)
      let c ← copyMatch mPos [1, 1, 1] { c with ip := c.ip + 2 }
      let (l, c) ← matchDone inp c
      .ok (some l, c)
  | .matchAt t, c => decodeMatch inp t c
  | .matchNext t, c => do
    let c ← copyLiterals inp (List.replicate t 1) c
    let b ← byteAt inp c.ip
    .ok (some (.matchAt b.toNat), { c with ip := c.ip + 1 })

/-- The machine, until it finds the end. -/
def decodeRun (inp : List UInt8) : ℕ → Label → Cursor → Exec Cursor
  | 0, _, _ => .error .outOfFuel
  | fuel + 1, l, c => do
    match (← decodeStep inp l c) with
    | (some l, c) => decodeRun inp fuel l c
    | (none, c) => .ok c

/-- Where the function begins: a first byte above 17 is a run of literals that has no match in front of it. -/
def decodeStart (inp out : List UInt8) : Exec (Label × Cursor) := do
  let b ← byteAt inp 0
  if b.toNat > 17 then
    if b.toNat - 17 < 4 then .ok (.matchNext (b.toNat - 17), ⟨1, 0, out⟩)
    else do
      let c ← copyLiterals inp (List.replicate (b.toNat - 17) 1) ⟨1, 0, out⟩
      .ok (.firstLiteralRun, c)
  else .ok (.top, ⟨0, 0, out⟩)

/-- `lzo1x_decompress`: what it returns, the number of bytes, and the output. -/
def lzo1xDecompress (inp out : List UInt8) : Exec (ℤ × ℕ × List UInt8) := do
  let (l, c) ← decodeStart inp out
  let c ← decodeRun inp (inp.length + 1) l c
  .ok (if c.ip = inp.length then lzoEOk else if c.ip < inp.length then lzoEInputNotConsumed else lzoEInputOverrun,
    c.op, c.out)

/-! ## It comes to an end -/

section

variable (inp : List UInt8)

/-- A length takes a byte at least. -/
theorem getLength_allows (base : ℕ) : ∀ fuel t ip, inp.length - ip < fuel →
    Allows (getLength inp base fuel t ip) fun r => ip < r.2 := by
  intro fuel
  induction fuel with
  | zero => exact fun t ip h => absurd h (Nat.not_lt_zero _)
  | succ fuel ih =>
    intro t ip h
    apply (allows_byteAt inp ip).bind
    intro b hb
    split_ifs
    · exact (ih (t + 255) (ip + 1) (by omega)).mono fun r hr => by omega
    · exact allows_ok (Nat.lt_succ_self ip)

theorem getMatchLength_allows (t base ip : ℕ) : Allows (getMatchLength inp t base ip) fun r => ip ≤ r.2 := by
  unfold getMatchLength
  split_ifs
  · exact (getLength_allows inp base _ 0 ip (by omega)).mono fun r => le_of_lt
  · exact allows_ok le_rfl

theorem copyLiterals_allows (ks : List ℕ) (c : Cursor) : Allows (copyLiterals inp ks c) fun c' => c.ip ≤ c'.ip :=
  (copyPieces_halts (fun _ p k => (slice_readsOnly inp p k).halts) _ _ _ _).allows.bind fun _ _ =>
    allows_ok (Nat.le_add_right _ _)

/-- What is copied from the output reads no input. -/
theorem copyMatch_allows (mPos : ℤ) (ks : List ℕ) (c : Cursor) : Allows (copyMatch mPos ks c) fun c' => c'.ip = c.ip :=
  (copyPieces_halts (fun mem p k => (slice_readsOnly mem p k).halts) _ _ _ _).allows.bind fun _ _ => allows_ok rfl

theorem matchDone_allows (c : Cursor) : Allows (matchDone inp c) fun r => r.2 = c := by
  apply (allows_byteAt inp _).bind
  intro b _
  split_ifs
  · exact allows_ok rfl
  · exact allows_ok rfl

/-- A match, and what stands behind it. -/
theorem match_allows (mPos : ℤ) (ks : List ℕ) {n : ℕ} {c : Cursor} (h : n < inp.length) (hc : n < c.ip) :
    Allows (do
      let c ← copyMatch mPos ks c
      let (l, c) ← matchDone inp c
      .ok (some l, c)) fun r : Option Label × Cursor => n < inp.length ∧ n < r.2.ip :=
  (copyMatch_allows mPos ks c).bind fun c' hc' => (matchDone_allows inp c').bind fun r hr =>
    allows_ok ⟨h, by rwa [hr, hc']⟩

theorem copyFar_allows (mPos : ℤ) (t : ℕ) (c : Cursor) : Allows (copyFar inp mPos t c) fun r => r.2.ip = c.ip :=
  (copyMatch_allows _ _ c).bind fun c' hc' => (matchDone_allows inp c').mono fun r hr => by rw [hr, hc']

theorem decodeMatch_allows (t : ℕ) (c : Cursor) :
    Allows (decodeMatch inp t c) fun r => c.ip < inp.length ∧ c.ip < r.2.ip := by
  unfold decodeMatch
  split_ifs
  · exact (allows_byteAt inp c.ip).bind fun b hb => match_allows inp _ _ (by omega) (Nat.lt_succ_self _)
  · apply (getMatchLength_allows inp _ 31 c.ip).bind
    intro r hr
    apply (allows_slice inp r.2 2).bind
    intro off hoff
    exact (copyFar_allows inp _ _ _).bind fun a ha => allows_ok ⟨by omega, by simp [ha]; omega⟩
  · apply (getMatchLength_allows inp _ 7 c.ip).bind
    intro r hr
    apply (allows_slice inp r.2 2).bind
    intro off hoff
    dsimp only
    split_ifs
    · exact allows_ok ⟨by omega, by simp; omega⟩
    · exact (copyFar_allows inp _ _ _).bind fun a ha => allows_ok ⟨by omega, by simp [ha]; omega⟩
  · exact (allows_byteAt inp c.ip).bind fun b hb => match_allows inp _ _ (by omega) (Nat.lt_succ_self _)

/-- **One step** reads at least one byte of the input. -/
theorem decodeStep_allows (l : Label) (c : Cursor) :
    Allows (decodeStep inp l c) fun r => c.ip < inp.length ∧ c.ip < r.2.ip := by
  have hat := allows_byteAt inp c.ip
  cases l with
  | top =>
    apply hat.bind
    intro b hb
    split_ifs
    · exact allows_ok ⟨by omega, Nat.lt_succ_self _⟩
    · exact (getLength_allows inp 15 _ 0 _ (by omega)).bind fun r hr => (copyLiterals_allows inp _ _).bind fun c' hc' =>
        allows_ok ⟨by omega, (Nat.lt_of_succ_lt hr).trans_le hc'⟩
    · exact (copyLiterals_allows inp _ _).bind fun c' hc' => allows_ok ⟨by omega, Nat.lt_of_succ_le hc'⟩
  | firstLiteralRun =>
    apply hat.bind
    intro b hb
    split_ifs
    · exact allows_ok ⟨by omega, Nat.lt_succ_self _⟩
    · exact (allows_byteAt inp _).bind fun d _ => match_allows inp _ _ (by omega) (Nat.lt_add_of_pos_right Nat.two_pos)
  | matchAt t => exact decodeMatch_allows inp t c
  | matchNext t =>
    exact (copyLiterals_allows inp _ c).bind fun c' hc' => (allows_byteAt inp c'.ip).bind fun b hb =>
      allows_ok ⟨by omega, Nat.lt_succ_of_le hc'⟩

/-- **Every run comes to an end**, whatever its input is. -/
theorem decodeRun_halts : ∀ fuel l c, inp.length - c.ip < fuel → Halts (decodeRun inp fuel l c) := by
  intro fuel
  induction fuel with
  | zero => exact fun l c h => absurd h (Nat.not_lt_zero _)
  | succ fuel ih =>
    intro l c h
    have hrun : Allows (decodeRun inp (fuel + 1) l c) fun _ => True := by
      apply (decodeStep_allows inp l c).bind
      rintro ⟨_ | l', c'⟩ ⟨hc, hc'⟩
      · exact allows_ok trivial
      · exact (ih l' c' (by dsimp only at hc'; omega)).allows
    exact hrun.1

/-- **The decompressor always comes to an end**, whatever it is given. -/
theorem lzo1xDecompress_halts (out : List UInt8) : Halts (lzo1xDecompress inp out) := by
  apply Halts.bind
  · unfold decodeStart
    apply (byteAt_readsOnly inp 0).halts.bind
    intro b
    split_ifs
    · exact halts_ok _
    · exact (copyLiterals_allows inp _ _).1.bind fun c => halts_ok _
    · exact halts_ok _
  · exact fun r => (decodeRun_halts inp _ _ _ (by omega)).bind fun c => halts_ok _

end

end Veejay.MiniLzo
