import Veejay.CLib.Lz
import Veejay.CLib.Loop

/-!
# The compressor of miniLZO

`lzo1x_1_compress` (`liblzo/minilzo.c`) goes over a block in parts of 49152 bytes.  In each part it looks, at one place
after the other, in a table of 2^14 places for four bytes that it has seen; where it finds them it writes the literals
that are waiting and a match, and goes on behind the match.  What is left at the end of a part waits for the next one.

The text is that of a 64-bit little endian machine with unaligned access (`LZO_OPT_UNALIGNED32` and `64`, and with them
`LZO_DETERMINISTIC`).  Positions are indices into the block; the block and the buffer are objects, so a read or a write
outside them is a fault.  The buffer is larger than what it is asked for where literals are moved by eight bytes at a
time: these moves write behind the literals, and what is written next goes over that.

* `putLiterals`, `matchLength`, `putMatch` — what is written for a match;
* `compressRound`, `doCompress` — a place, and a part of the block;
* `lzo1x1Compress` — the block.
-/

namespace Veejay.MiniLzo

open CLib

/-! ## Constants -/

def m2MaxOffset : ℕ := 0x0800
def m3MaxOffset : ℕ := 0x4000
def m2MaxLen : ℕ := 8
def m3MaxLen : ℕ := 33
def m4MaxLen : ℕ := 9
def m3Marker : ℕ := 32
def m4Marker : ℕ := 16
def dBits : ℕ := 14
def dMask : ℕ := 2 ^ dBits - 1

/-! ## Reading -/

/-- `UA_GET_LE32`, `UA_GET_LE64`: a number of `n` bytes. -/
def getLe (inp : List UInt8) (p n : ℕ) : Exec ℕ := do
  let bytes ← slice inp p n
  .ok (leNumber bytes)

/-- `DINDEX`: `DMUL` multiplies 32-bit numbers. -/
def dIndex (dv : ℕ) : ℕ := (0x1824429d * dv % 2 ^ 32) >>> (32 - dBits) &&& dMask

/-! ## Writing -/

/-- `LZO_BYTE` -/
def lzoByte (n : ℕ) : UInt8 := UInt8.ofNat n

/-- `while (tt > 255) { tt -= 255; *op++ = 0; } *op++ = tt;` -/
def putLength (op tt : ℕ) (out : List UInt8) : Exec (ℕ × List UInt8) := do
  let (tt, op, out) ← whileLoop (fun s => decide (s.1 > 255))
    (fun (tt, op, out) => do
      let out ← overwrite out op [0]
      .ok (tt - 255, op + 1, out))
    tt (tt, op, out)
  let out ← overwrite out op [lzoByte tt]
  .ok (op + 1, out)

/-- The length of a run of more than 3 literals. -/
def putRun (op t : ℕ) (out : List UInt8) : Exec (ℕ × List UInt8) :=
  if t ≤ 18 then do
    let out ← overwrite out op [lzoByte (t - 3)]
    .ok (op + 1, out)
  else do
    let out ← overwrite out op [0]
    putLength (op + 1) (t - 18) out

/-- `op[-2] = LZO_BYTE(op[-2] | t)` -/
def putLow (op t : ℕ) (out : List UInt8) : Exec (List UInt8) := do
  let b ← byteAt out ((op : ℤ) - 2)
  overwrite out (op - 2) [b ||| lzoByte t]

/-- The `t` literals at `ii` that are waiting in front of a match.  Few are moved by 4 or 16 bytes at once, whatever
their number. -/
def putLiterals (inp : List UInt8) (ii t op : ℕ) (out : List UInt8) : Exec (ℕ × List UInt8) :=
  if t = 0 then .ok (op, out)
  else if t ≤ 3 then do
    let out ← putLow op t out
    let out ← copyPieces (fun _ => slice inp) [4] ii op out
    .ok (op + t, out)
  else if t ≤ 16 then do
    let out ← overwrite out op [lzoByte (t - 3)]
    let out ← copyPieces (fun _ => slice inp) [8, 8] ii (op + 1) out
    .ok (op + 1 + t, out)
  else do
    let (op, out) ← putRun op t out
    -- sixteen bytes at a time, and the rest one by one
    let out ← copyPieces (fun _ => slice inp) (List.replicate (t / 16 * 2) 8 ++ List.replicate (t % 16) 1) ii op out
    .ok (op + t, out)

/-- `UA_GET_NE64(ip + m_len) ^ UA_GET_NE64(m_pos + m_len)` -/
def differ (inp : List UInt8) (ip mPos mLen : ℕ) : Exec ℕ := do
  let v ← getLe inp (ip + mLen) 8
  let w ← getLe inp (mPos + mLen) 8
  .ok (v ^^^ w)

/-- `do { m_len += 8; … } while (v == 0)`, where eight bytes were equal; `lzo_bitops_cttz64(v) / CHAR_BIT` counts the low
bytes that are zero. -/
def extendMatch (inp : List UInt8) (ip mPos ipEnd : ℕ) : ℕ → ℕ → Exec ℕ
  | 0, _ => .error .outOfFuel
  | fuel + 1, mLen => do
    let v ← differ inp ip mPos (mLen + 8)
    if ip + (mLen + 8) ≥ ipEnd then .ok (mLen + 8)
    else if v = 0 then extendMatch inp ip mPos ipEnd fuel (mLen + 8)
    else .ok (mLen + 8 + zeroBytes 8 v)

/-- The length of a match, of which four bytes are known to be equal. -/
def matchLength (inp : List UInt8) (ip mPos ipEnd : ℕ) : Exec ℕ := do
  let v ← differ inp ip mPos 4
  if v = 0 then extendMatch inp ip mPos ipEnd ipEnd 4
  else .ok (4 + zeroBytes 8 v)

/-- A match of the third or fourth kind: its marker and its length, which is at most `maxLen` where it has its place in
the first byte, and the offset in two bytes. -/
def putLongMatch (marker maxLen mOff mLen op : ℕ) (out : List UInt8) : Exec (ℕ × List UInt8) := do
  let (op, out) ←
    if mLen ≤ maxLen then do
      let out ← overwrite out op [lzoByte (marker ||| (mLen - 2))]
      .ok (op + 1, out)
    else do
      let out ← overwrite out op [lzoByte marker]
      putLength (op + 1) (mLen - maxLen) out
  let out ← overwrite out op [lzoByte (mOff <<< 2)]
  let out ← overwrite out (op + 1) [lzoByte (mOff >>> 6)]
  .ok (op + 2, out)

/-- A match of `m_len` bytes, `m_off` back. -/
def putMatch (mOff mLen op : ℕ) (out : List UInt8) : Exec (ℕ × List UInt8) :=
  if mLen ≤ m2MaxLen ∧ mOff ≤ m2MaxOffset then do
    let out ← overwrite out op [lzoByte ((mLen - 1) <<< 5 ||| ((mOff - 1) &&& 7) <<< 2)]
    let out ← overwrite out (op + 1) [lzoByte ((mOff - 1) >>> 3)]
    .ok (op + 2, out)
  else if mOff ≤ m3MaxOffset then putLongMatch m3Marker m3MaxLen (mOff - 1) mLen op out
  else putLongMatch (m4Marker ||| ((mOff - 0x4000) >>> 11 &&& 8)) m4MaxLen (mOff - 0x4000) mLen op out

/-! ## A part of the block -/

/-- What `do_compress` keeps from one place to the next. -/
structure Place where
  ip : ℕ
  ii : ℕ
  ti : ℕ
  op : ℕ
  out : List UInt8
  dict : ℕ → ℕ

/-- `literal:` the longer nothing was found, the further the next place is away. -/
def Place.literal (s : Place) : Place := { s with ip := s.ip + (1 + (s.ip - s.ii) >>> 5) }

/-- `next:` one place of the part that begins at `start`. -/
def compressRound (inp : List UInt8) (start ipEnd : ℕ) (s : Place) : Exec Place := do
  let dv ← getLe inp s.ip 4
  let mPos := start + s.dict (dIndex dv)
  let dict := Function.update s.dict (dIndex dv) ((s.ip - start) % 2 ^ 16)
  let mv ← getLe inp mPos 4
  if dv ≠ mv then .ok { s with dict }.literal
  else do
    let ii := s.ii - s.ti
    let (op, out) ← putLiterals inp ii (s.ip - ii) s.op s.out
    let mLen ← matchLength inp s.ip mPos ipEnd
    let (op, out) ← putMatch (s.ip - mPos) mLen op out
    .ok { ip := s.ip + mLen, ii := s.ip + mLen, ti := 0, op, out, dict }

/-- `do_compress`: the part of `inLen` bytes from `start` on, in front of which `ti` literals are waiting, with a table
that was cleared.  It returns how many are waiting behind it. -/
def doCompress (inp : List UInt8) (start inLen ti op : ℕ) (out : List UInt8) : Exec (ℕ × ℕ × List UInt8) := do
  let ipEnd := start + inLen - 20
  let s ← whileLoop (fun s => decide (s.ip < ipEnd)) (compressRound inp start ipEnd) inLen
    ({ ip := start + (if ti < 4 then 4 - ti else 0), ii := start, ti, op, out, dict := fun _ => 0 } : Place).literal
  .ok (start + inLen - (s.ii - s.ti), s.op, s.out)

/-! ## The block -/

/-- What `lzo1x_1_compress` keeps from one part to the next. -/
structure Part where
  ip : ℕ
  l : ℕ
  t : ℕ
  op : ℕ
  out : List UInt8

/-- The length of the next part. -/
def Part.ll (s : Part) : ℕ := min s.l 49152

/-- The loop goes on where more than 20 bytes are left, and `ll_end + ((t + ll) >> 5)` is behind `ll_end`. -/
def Part.more (s : Part) : Bool := decide (s.l > 20) && decide ((s.t + s.ll) >>> 5 > 0)

def compressPart (inp : List UInt8) (s : Part) : Exec Part := do
  let (t, op, out) ← doCompress inp s.ip s.ll s.t s.op s.out
  .ok { ip := s.ip + s.ll, l := s.l - s.ll, t, op, out }

/-- The literals that are waiting at the end of the block. -/
def putLast (inp : List UInt8) (t op : ℕ) (out : List UInt8) : Exec (ℕ × List UInt8) :=
  if t > 0 then do
    let (op, out) ←
      if op = 0 ∧ t ≤ 238 then do
        let out ← overwrite out op [lzoByte (17 + t)]
        .ok (op + 1, out)
      else if t ≤ 3 then do
        let out ← putLow op t out
        .ok (op, out)
      else putRun op t out
    let out ← copyPieces (fun _ => slice inp) [t] ((inp.length - t : ℕ) : ℤ) op out
    .ok (op + t, out)
  else .ok (op, out)

/-- `lzo1x_1_compress`: the number of bytes, and the buffer.  It returns `LZO_E_OK` in every case. -/
def lzo1x1Compress (inp out : List UInt8) : Exec (ℕ × List UInt8) := do
  let s ← whileLoop Part.more (compressPart inp) inp.length { ip := 0, l := inp.length, t := 0, op := 0, out }
  let (op, out) ← putLast inp (s.t + s.l) s.op s.out
  let out ← overwrite out op [lzoByte (m4Marker ||| 1)]
  let out ← overwrite out (op + 1) [0]
  let out ← overwrite out (op + 2) [0]
  .ok (op + 3, out)

end Veejay.MiniLzo
