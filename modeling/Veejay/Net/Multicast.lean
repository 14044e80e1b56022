import Veejay.CLib.Memory

/-!
# Frames over multicast

A frame is cut into chunks of `CHUNK_SIZE` bytes, each of which travels in a datagram of its own, with a
header and the description of the frame (`libvjnet/packet.h`, `libvjnet/packet.c`).  The receiver collects
the chunks in one of three slots, and counts them.

* `PacketHeader`, `FrameInfo`, `Datagram` — what is on the wire;
* `mcastSendFrame` — the sender (`libvjnet/mcastsender.c`);
* `PacketBuffer`, `McastReceiver` — the slots (`libvjnet/mcastreceiver.c`);
* `mcastRecvPacketFrame` — one datagram;
* `mcastReleaseSlots` — the slots that `mcast_recv_frame` gives up before it receives.

The structures are copied into a datagram and out of it byte by byte, which gives them back as they were;
they are modelled as fields of the datagram.
-/

namespace Veejay.Net

open CLib

/-- `CHUNK_SIZE` -/
def chunkSize : ℕ := 1500 - 32

/-- `packet_header_t` -/
structure PacketHeader where
  flag : UInt8
  seqNum : UInt8
  usec : UInt32
  timeout : UInt32
  length : UInt8
  deriving DecidableEq, Repr

/-- `frame_info_t` -/
structure FrameInfo where
  width : UInt16
  height : UInt16
  fmt : UInt8
  len : UInt32
  mode : UInt8
  deriving DecidableEq, Repr

/-- A datagram of `PACKET_PAYLOAD_SIZE` bytes. -/
structure Datagram where
  hdr : PacketHeader
  inf : FrameInfo
  data : List UInt8
  deriving DecidableEq, Repr

/-! ## The sender -/

/-- `VJFrame`, as far as it is sent. -/
structure VJFrame where
  width : ℕ
  height : ℕ
  format : ℕ

/-- `mcast_sender` -/
structure McastSender where
  stamp : UInt32

/-- `stamp_make` -/
def stampMake (v : McastSender) : McastSender := { v with stamp := v.stamp + 1 }

/-- `stamp_reset` -/
def stampReset (v : McastSender) : McastSender := { v with stamp := 1 }

/-- The chunk of a datagram that was cleared before or behind its data. -/
def paddedChunk (data : List UInt8) : List UInt8 := data ++ List.replicate (chunkSize - data.length) 0

/-- The loop over the full chunks, from the `i`-th on; `res` is what each `sendto` returns.  Whether all of
them were sent, and those that were. -/
def sendChunks (res : ℕ → ℤ) (header : PacketHeader) (info : FrameInfo) (buf : List UInt8) :
    ℕ → ℕ → Exec (Bool × List Datagram)
  | _, 0 => .ok (true, [])
  | i, n + 1 => do
    let data ← slice buf (i * chunkSize) chunkSize
    if res i ≤ 0 then .ok (false, [])
    else do
      let (all, sent) ← sendChunks res header info buf (i + 1) n
      .ok (all, { hdr := { header with seqNum := UInt8.ofNat i }, inf := info, data := data } :: sent)

/-- The description of a frame. -/
def frameInfo (frame : VJFrame) (totalLen : ℕ) (mode : UInt8) : FrameInfo where
  width := UInt16.ofNat frame.width
  height := UInt16.ofNat frame.height
  fmt := UInt8.ofNat frame.format
  len := UInt32.ofNat totalLen
  mode := mode

/-- The header of the datagrams of a frame, for its first chunk. -/
def frameHeader (stamp : UInt32) (ms : ℤ) (length : ℕ) : PacketHeader where
  flag := 1
  seqNum := 0
  usec := stamp
  timeout := UInt32.ofInt (ms * 1000)
  length := UInt8.ofNat length

/-- `if( frame_num == 0xffff ) stamp_reset(v)` -/
def stampWrap (v : McastSender) : McastSender := if v.stamp = 0xffff then stampReset v else v

/-- `mcast_send_frame`: what it returns, and the datagrams that were sent. -/
def mcastSendFrame (v : McastSender) (frame : VJFrame) (buf : List UInt8) (totalLen : ℕ) (ms : ℤ)
    (mode : UInt8) (res : ℕ → ℤ) : Exec (ℤ × List Datagram × McastSender) := do
  let v := stampMake v
  let info := frameInfo frame totalLen mode
  if totalLen ≤ chunkSize then do
    let data ← slice buf 0 totalLen
    if res 0 ≤ 0 then .ok (-1, [], v)
    else .ok (1, [{ hdr := frameHeader v.stamp ms 1, inf := info, data := paddedChunk data }], v)
  else do
    let predChunks := totalLen / chunkSize
    let bytesLeft := totalLen % chunkSize
    let header := frameHeader v.stamp ms (predChunks + if 0 < bytesLeft then 1 else 0)
    let (all, sent) ← sendChunks res header info buf 0 predChunks
    if all = false then .ok (-1, sent, v)
    else if bytesLeft = 0 then .ok (1, sent, stampWrap v)
    else do
      let i : ℤ := header.length.toNat - 1
      let data ← slice buf (i * chunkSize) bytesLeft
      let header := { header with seqNum := UInt8.ofInt i }
      if res predChunks ≤ 0 then .ok (-1, sent, v)
      else .ok (1, sent ++ [{ hdr := header, inf := info, data := paddedChunk data }], stampWrap v)

/-! ## The receiver -/

/-- `packet_buffer_t` -/
structure PacketBuffer where
  hdr : PacketHeader
  inf : FrameInfo
  buf : Option (List UInt8)
  len : UInt32
  count : ℕ
  rdy : Bool

/-- A slot that was allocated with zeros. -/
def PacketBuffer.zero : PacketBuffer where
  hdr := ⟨0, 0, 0, 0, 0⟩
  inf := ⟨0, 0, 0, 0, 0⟩
  buf := none
  len := 0
  count := 0
  rdy := false

/-- A slot that is given up: `buf` is freed, and everything but `len` is cleared. -/
def PacketBuffer.release (pb : PacketBuffer) : PacketBuffer := { PacketBuffer.zero with len := pb.len }

/-- `packet_slot_t`, with `PACKET_SLOTS` slots -/
structure McastReceiver where
  slot : Fin 3 → PacketBuffer
  last : ℕ

/-- `mcast_new_receiver` -/
def mcastNewReceiver : McastReceiver where
  slot := fun _ => PacketBuffer.zero
  last := 0

/-- `q->slot[i] = pb` -/
def McastReceiver.setSlot (q : McastReceiver) (i : Fin 3) (pb : PacketBuffer) : McastReceiver :=
  { q with slot := Function.update q.slot i pb }

/-- The slot of the stamp, or else one that is not used. -/
def findSlot (q : McastReceiver) (usec : UInt32) : Option (Fin 3) :=
  match (List.finRange 3).find? fun i => (q.slot i).hdr.usec = usec with
  | some i => some i
  | none => (List.finRange 3).find? fun i => (q.slot i).count = 0

/-- The slot with the smallest stamp. -/
def oldestSlot (q : McastReceiver) : Fin 3 :=
  ((List.finRange 3).foldl (fun (o : Fin 3 × ℕ) i =>
    if (q.slot i).hdr.usec.toNat < o.2 then (i, (q.slot i).hdr.usec.toNat) else o) (0, 2 ^ 63 - 1)).1

/-- The slot to fill; if all are in use, the oldest is dropped. -/
def chooseSlot (q : McastReceiver) (usec : UInt32) : Fin 3 × McastReceiver :=
  match findSlot q usec with
  | some i => (i, q)
  | none => (oldestSlot q, q.setSlot (oldestSlot q) (q.slot (oldestSlot q)).release)

/-- The buffer of a slot, allocated (`vj_malloc`) if needed. -/
def PacketBuffer.memory (pb : PacketBuffer) (fill : ℕ → UInt8) (inf : FrameInfo) : List UInt8 :=
  pb.buf.getD (malloc fill (inf.width.toNat * inf.height.toNat * 3))

/-- `mcast_recv_packet_frame`, over a datagram that was received. -/
def mcastRecvPacketFrame (q : McastReceiver) (d : Datagram) (fill : ℕ → UInt8) :
    Exec (ℕ × McastReceiver) := do
  let (i, q) := chooseSlot q d.hdr.usec
  let pb := q.slot i
  let mem ← overwrite (pb.memory fill d.inf) (chunkSize * d.hdr.seqNum.toNat) d.data
  let pb : PacketBuffer :=
    { hdr := d.hdr, inf := d.inf, buf := some mem, len := d.inf.len, count := pb.count + 1, rdy := pb.rdy }
  if d.hdr.length.toNat ≤ pb.count then
    .ok (2, { (q.setSlot i { pb with rdy := true }) with last := d.hdr.usec.toNat })
  else .ok (1, q.setSlot i pb)

/-- The first loop of `mcast_recv_frame`: ready frames, and frames that are too old, are given up. -/
def mcastReleaseSlots (q : McastReceiver) : McastReceiver :=
  { q with slot := fun i =>
      if (q.slot i).rdy = true ∨ (q.slot i).hdr.usec.toNat < q.last then (q.slot i).release else q.slot i }

/-- The slot that `mcast_recv_frame` returns: the newest one that is ready. -/
def newestReady (q : McastReceiver) : Option (Fin 3) :=
  match (List.finRange 3).find? fun i => (q.slot i).rdy with
  | none => none
  | some d =>
    some ((List.finRange 3).foldl (fun o i =>
      if (q.slot i).rdy = true ∧ (q.slot d).hdr.usec < (q.slot i).hdr.usec then i else o) d)

/-- The loop of `mcast_recv_frame`: it ends with a full frame, or when nothing can be received. -/
def recvLoop (q : McastReceiver) : List (Datagram × (ℕ → UInt8)) → Exec McastReceiver
  | [] => .ok q
  | (d, fill) :: arrivals => do
    let (n, q) ← mcastRecvPacketFrame q d fill
    if n = 2 then .ok q else recvLoop q arrivals

/-- `mcast_recv_frame`: the bytes that are returned, with their number, and the receiver. -/
def mcastRecvFrame (q : McastReceiver) (arrivals : List (Datagram × (ℕ → UInt8))) :
    Exec (Option (List UInt8 × ℕ) × McastReceiver) := do
  let q ← recvLoop (mcastReleaseSlots q) arrivals
  match newestReady q with
  | none => .ok (none, q)
  | some i => .ok ((q.slot i).buf.map fun mem => (mem, (q.slot i).len.toNat), q)

end Veejay.Net
