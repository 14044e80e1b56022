import Veejay.CLib.Memory
import Veejay.CLib.Rounds

/-!
# VIMS messages on the wire

A VIMS message travels behind a header `V<length>D`, a keyframe packet behind a header `K<length>`
(`libvjnet/vj-server.c`, `libvjnet/vj-client.c`).  The server receives into one buffer, walks over the
packets in it to verify them, and walks over them again to copy each message to the pool of the client.

* `Packet` — a packet as a walk sees it: where it starts, and the numbers of its header;
* `vjVerifyMsg`, `vjParseMsg` — the two walks;
* `Pool`, `vjSimplePoolAlloc` — the memory the messages are copied to (`libvjmem/vj-x86.c`);
* `vjServerUpdate`, `vjServerRetrieveMsg` — receiving, and handing out what was queued;
* `vjClientSend` — the client's side.

The number of bytes and the positions are unbounded integers, and log messages are left out.
-/

namespace Veejay.Net

open CLib

/-! ## Packets -/

/-- `'V'` -/
def byteV : UInt8 := 86

/-- `'K'` -/
def byteK : UInt8 := 75

/-- `'D'` -/
def byteD : UInt8 := 68

/-- `';'` -/
def semicolon : UInt8 := 59

/-- A packet at a position: a message with its length and its VIMS id, or a keyframe packet with its
length, which is missing where the input ended before it. -/
inductive Packet where
  | vims (pos slen netid : ℤ)
  | keyframe (pos : ℤ) (len : Option ℤ)
  deriving DecidableEq, Repr

/-- Where the header is. -/
def Packet.pos : Packet → ℤ
  | .vims pos _ _ => pos
  | .keyframe pos _ => pos

/-- Where the message starts. -/
def Packet.start : Packet → ℤ
  | .vims pos _ _ => pos + 5
  | .keyframe pos _ => pos + 9

/-- The length of the message. -/
def Packet.len : Packet → ℤ
  | .vims _ slen _ => slen
  | .keyframe _ len => len.getD 0

/-- Where the next packet is. -/
def Packet.next (p : Packet) : ℤ := p.start + p.len

/-- What stands behind the copy of a message. -/
def Packet.tail : Packet → List UInt8
  | .vims _ _ _ => [0]
  | .keyframe _ _ => []

/-- What is asked of the pool for a copy. -/
def Packet.size (p : Packet) : ℤ := p.len + p.tail.length

/-- `sscanf (str, "%3dD%3d", &slen, &netid)`, with `':'` in the format or without: the two numbers, if
both were converted. -/
def scanHeader (colon : Bool) (str : List UInt8) : Exec (Option (ℤ × ℤ)) := do
  match (← readField 3 str) with
  | .val slen rest => do
    let c ← byteAt rest 0
    if c = byteD then do
      match (← readField 3 (rest.drop 1)) with
      | .val netid rest => do
        if colon then do
          let _ ← byteAt rest 0
          .ok (some (slen, netid))
        else .ok (some (slen, netid))
      | _ => .ok none
    else .ok none
  | _ => .ok none

/-! ## Verification -/

/-- One round of `_vj_verify_msg`: the packet at `i`, if it is accepted. -/
def verifyPacket (useMcast : Bool) (buf : List UInt8) (i : ℤ) : Exec (Option Packet) := do
  let c ← byteAt buf i
  if c = byteV then do
    match (← scanHeader true (buf.drop (i + 1).toNat)) with
    | none => .ok none
    | some (slen, netid) =>
      if netid < 0 ∨ 600 < netid then .ok none
      -- multicast doesn't allow querying of data
      else if useMcast = true ∧ 400 ≤ netid ∧ netid < 500 then .ok none
      else if 0 < slen then do
        let last ← byteAt buf (i + 5 + (slen - 1))
        if last = semicolon then .ok (some (.vims i slen netid)) else .ok none
      else .ok none
  else if c = byteK then do
    match (← readField 8 (buf.drop (i + 1).toNat)) with
    | .fail => .ok none
    | .eof => .ok (some (.keyframe i none))
    | .val len _ => .ok (some (.keyframe i (some len)))
  else .ok none

/-- The loop of `_vj_verify_msg`: its state is the position and the packets walked over, whose number is
`num_msg`. -/
def verifyRound (useMcast : Bool) (buf : List UInt8) (s : ℤ × List Packet) :
    Exec (Round (ℤ × List Packet) (List Packet)) := do
  match (← verifyPacket useMcast buf s.1) with
  | none => .ok (.leave [])
  | some p => .ok (.again (p.next, s.2 ++ [p]))

/-- `while (i < buf_len)` -/
def inside {α : Type} (bufLen : ℤ) (s : ℤ × α) : Bool := s.1 < bufLen

/-- The packets that `_vj_verify_msg` counts; none if it returns 0. -/
def verifyWalk (fuel : ℕ) (useMcast : Bool) (buf : List UInt8) (bufLen : ℤ) : Exec (List Packet) :=
  if bufLen < 5 then .ok []
  else roundLoop (inside bufLen) (verifyRound useMcast buf) Prod.snd fuel (0, [])

/-- `_vj_verify_msg` -/
def vjVerifyMsg (fuel : ℕ) (useMcast : Bool) (buf : List UInt8) (bufLen : ℤ) : Exec ℕ := do
  let walked ← verifyWalk fuel useMcast buf bufLen
  .ok walked.length

/-! ## The pool -/

/-- `RUP8(num)`: `(num + 8) & ~8` -/
def rup8 (num : ℕ) : ℕ := (num + 8) - ((num + 8) &&& 8)

/-- `v_simple_pool_t`; `mem` is what `addr` points to, and no object is larger than `PTRDIFF_MAX`. -/
structure Pool where
  len : ℕ
  mem : List UInt8
  cur : ℕ
  small : len < 2 ^ 63

/-- `vj_simple_pool_init` -/
def vjSimplePoolInit (s : ℕ) : Option Pool :=
  if h : s < 2 ^ 63 then some { len := s, mem := List.replicate (rup8 s) 0, cur := 0, small := h }
  else none

/-- `vj_simple_pool_alloc`: the address, as an index of the pool's memory. -/
def vjSimplePoolAlloc (pool : Pool) (s : ℕ) : Option (ℕ × Pool) :=
  if pool.len < s ∨ pool.len < pool.cur + s then none
  else
    let addr := rup8 pool.cur
    let cur := pool.cur + rup8 s
    some (addr + cur, { pool with cur := cur })

/-- `vj_simple_pool_reset` -/
def vjSimplePoolReset (pool : Pool) : Pool := { pool with cur := 0 }

/-- `MSG_POOL_SIZE` -/
def msgPoolSize : ℕ := 4096 * 1024

/-! ## Parsing -/

/-- `VJ_MAX_PENDING_MSG` -/
def vjMaxPendingMsg : ℕ := 4096

/-- `vj_message`, and where in the receive buffer it was copied from. -/
structure Message where
  msg : ℕ
  len : ℤ
  src : ℤ
  deriving DecidableEq, Repr

/-- `vj_link`; `queue` is the part of `m_queue` in front of `num_msg`. -/
structure Link where
  inUse : Bool
  pool : Option Pool
  queue : List Message
  nQueued : ℕ
  nRetrieved : ℕ

/-- A client that has just connected. -/
def freshLink (pool : Option Pool) : Link where
  inUse := true
  pool := pool
  queue := []
  nQueued := 0
  nRetrieved := 0

/-- An `int` as a `size_t`. -/
def toSize (n : ℤ) : ℕ := (n % 2 ^ 64).toNat

/-- `v[num_msg]->msg = vj_simple_pool_alloc(pool, size)` and, if there is memory, the copy of the message
and what stands behind it. -/
def enqueue (link : Link) (buf : List UInt8) (p : Packet) : Exec Link :=
  if vjMaxPendingMsg ≤ link.queue.length then .error .overrun
  else match link.pool with
    | none => .error .nullPointer
    | some pool =>
      match vjSimplePoolAlloc pool (toSize p.size) with
      | none => .ok link
      | some (addr, pool) => do
        let bytes ← slice buf p.start (toSize p.len)
        let mem ← overwrite pool.mem addr (bytes ++ p.tail)
        .ok { link with
          pool := some { pool with mem := mem }
          queue := link.queue ++ [{ msg := addr, len := p.len, src := p.start }] }

/-- The header at `i`, as `_vj_parse_msg` reads it. -/
def parseHeader (buf : List UInt8) (i : ℤ) : Exec (Option Packet) := do
  let c ← byteAt buf i
  if c = byteV then do
    match (← scanHeader false (buf.drop (i + 1).toNat)) with
    | none => .ok none
    | some (slen, netid) => .ok (some (.vims i slen netid))
  else if c = byteK then do
    match (← readField 8 (buf.drop (i + 1).toNat)) with
    | .val len _ => .ok (some (.keyframe i (some len)))
    | _ => .ok none
  else .ok none

/-- The packets that are copied: a message only with `netid > 0 && netid <= 600`. -/
def Packet.wanted : Packet → Bool
  | .vims _ _ netid => 0 < netid && netid ≤ 600
  | .keyframe _ _ => true

/-- What is done with a packet. -/
def takePacket (buf : List UInt8) (link : Link) (p : Packet) : Exec Link :=
  if p.wanted then enqueue link buf p else .ok link

/-- `num_msg >= VJ_MAX_PENDING_MSG`, which is looked at behind a message only. -/
def queueFull (link : Link) : Packet → Bool
  | .vims _ _ _ => vjMaxPendingMsg ≤ link.queue.length
  | .keyframe _ _ => false

/-- One round of `_vj_parse_msg`. -/
def parseRound (buf : List UInt8) (s : ℤ × Link) : Exec (Round (ℤ × Link) (ℕ × Link)) := do
  match (← parseHeader buf s.1) with
  | none => .ok (.leave (0, s.2))
  | some p => do
    let link ← takePacket buf s.2 p
    if queueFull link p then .ok (.leave (vjMaxPendingMsg, link))
    else .ok (.again (p.next, link))

/-- The end of `_vj_parse_msg`. -/
def parseExit (s : ℤ × Link) : ℕ × Link :=
  (s.2.queue.length, { s.2 with nQueued := s.2.queue.length, nRetrieved := 0 })

/-- `_vj_parse_msg` -/
def vjParseMsg (fuel : ℕ) (buf : List UInt8) (bufLen : ℤ) (link : Link) : Exec (ℕ × Link) :=
  roundLoop (inside bufLen) (parseRound buf) parseExit fuel (0, { link with queue := [] })

/-! ## Receiving -/

/-- `RECV_SIZE`: `RUP8(4096)` -/
def recvSize : ℕ := 4096

/-- What one `recv` came back with: bytes or a failure, and whether `errno` is `EAGAIN` afterwards. -/
inductive Recv where
  | bytes (data : List UInt8) (eagain : Bool)
  | failed (eagain : Bool)

/-- `vj_server`: multicast or not, and `recv_buf` of `recv_bufsize` bytes. -/
structure Server where
  useMcast : Bool
  recvBuf : List UInt8

/-- From `readmore_lbl` on: `none` if the function returns -1 at once, and else `bytes_received`. -/
def readMore (max : ℤ) : List Recv → ℕ → ℤ → List UInt8 → Exec (Option ℤ × List UInt8)
  | [], _, _, _ => .error .outOfFuel
  | .failed eagain :: rest, ptr, received, buf =>
    if eagain then readMore max rest ptr received buf
    else .ok (some (-1 + -1), buf)
  | .bytes data eagain :: rest, ptr, received, buf => do
    let buf ← overwrite buf ptr data
    if data.length = recvSize ∧ eagain = true then
      -- read 4kb, but still data left
      if max < received + data.length then .ok (none, buf)
      else readMore max rest (ptr + data.length) (received + data.length) buf
    else .ok (some (received + data.length), buf)

/-- The receiving part of `vj_server_update`: one byte, and what comes after it. -/
def receive (s : Server) (arrivals : List Recv) : Exec (Option ℤ × List UInt8) :=
  if s.useMcast then
    match arrivals with
    | [] => .error .outOfFuel
    | .failed _ :: _ => .ok (some (-1), s.recvBuf)
    | .bytes data _ :: _ => do
      let buf ← overwrite s.recvBuf 0 data
      .ok (some data.length, buf)
  else
    match arrivals with
    | [] => .error .outOfFuel
    | .bytes [c] _ :: rest => do
      let buf ← overwrite s.recvBuf 0 [c]
      if c = byteV ∨ c = byteK ∨ c = byteD then readMore s.recvBuf.length rest 1 0 buf
      else .ok (some 0, buf)
    | _ => .ok (some (-1), s.recvBuf)

/-- `_vj_server_empty_queue` -/
def vjServerEmptyQueue (link : Link) : Exec Link :=
  match link.pool with
  | none => .error .nullPointer
  | some pool =>
    .ok { link with pool := some (vjSimplePoolReset pool), queue := [], nQueued := 0, nRetrieved := 0 }

/-- `vj_server_update`; `readable` is `FD_ISSET` of the client's socket. -/
def vjServerUpdate (fuel : ℕ) (s : Server) (link : Link) (readable : Bool) (arrivals : List Recv) :
    Exec (ℤ × Server × Link) := do
  if link.inUse = false then .ok (0, s, link)
  else do
    let link ← vjServerEmptyQueue link
    if s.useMcast = false ∧ readable = false then .ok (0, s, link)
    else do
      let (received, buf) ← receive s arrivals
      let s := { s with recvBuf := buf }
      match received with
      | none => .ok (-1, s, link)
      | some bufLen =>
        if bufLen ≤ 0 then .ok (-1, s, link)
        else do
          let nMsg ← vjVerifyMsg fuel s.useMcast buf bufLen
          if nMsg = 0 then .ok (-1, s, link)
          else if nMsg < vjMaxPendingMsg then do
            let (nn, link) ← vjParseMsg fuel buf bufLen link
            if nn ≠ nMsg then .ok (0, s, link) else .ok (nn, s, link)
          else .ok (-1, s, link)

/-- `vj_server_retrieve_msg`: the message and its length. -/
def vjServerRetrieveMsg (link : Link) : Exec (Option (ℕ × ℤ) × Link) :=
  if link.inUse = false then .ok (none, link)
  else if link.nQueued ≤ link.nRetrieved then .ok (none, link)
  else match link.queue[link.nRetrieved]? with
    | none => .error .outOfBounds
    | some m => .ok (some (m.msg, m.len), { link with nRetrieved := link.nRetrieved + 1 })

/-- The bytes behind a message pointer. -/
def Link.bytesAt (link : Link) (msg : ℕ) (len : ℤ) : List UInt8 :=
  match link.pool with
  | none => []
  | some pool => (pool.mem.drop msg).take len.toNat

/-- The messages that are queued for the client. -/
def Link.messages (link : Link) : List (List UInt8) :=
  (link.queue.take link.nQueued).map fun m => link.bytesAt m.msg m.len

/-! ## The client -/

/-- `PACKET_LEN` -/
def packetLen : ℕ := 4096

/-- `%03d` of a length. -/
def padded (n : ℕ) : CStr := List.replicate (3 - (decimal n).length) 48 ++ decimal n

/-- `sprintf (…, "V%03dD", len)`, without the zero byte -/
def header (len : ℕ) : CStr := byteV :: padded len ++ [byteD]

/-- `vj_client_send`: what goes to the socket, and `blob` afterwards. -/
def vjClientSend (blob : List UInt8) (buf : CStr) : Exec (List UInt8 × List UInt8) := do
  let blob ← overwrite blob 0 (header buf.length ++ [0])
  let blob ← overwrite blob 5 buf
  let sent ← slice blob 0 (buf.length + 5)
  .ok (sent, blob)

end Veejay.Net
