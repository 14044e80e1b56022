import Veejay.Net.Vims

/-!
# The stream of frames between two servers

A server that shows the frames of another one asks for them one by one.  Each frame comes as a header of 44
decimal digits, and then either the three planes as they are, or four numbers of four bytes each and the
three planes compressed.

* `PrimaryFrame` — a frame with its three planes;
* `Lzo` — the block compression, a parameter;
* `vjPerformSendPrimaryFrameS2` — the sender (`veejay/vj-perform.c`);
* `vjClientReadFrameHeader`, `vjClientReadFrameData` — the client (`libvjnet/vj-client.c`);
* `lzoDecompress` — the planes out of the compressed packet (`liblzo/lzo.c`);
* `readFrame` — a frame, as the network thread reads it (`libstream/vj-net.c`).

What is sent arrives, in one stream of bytes; a call that cannot be answered from the stream ends it.
-/

namespace Veejay.Net

open CLib

/-! ## Frames -/

/-- The pixel formats of `vj_to_pixfmt`. -/
inductive PixFmt where
  | yuv420p
  | yuvj420p
  | yuv422p
  | yuvj422p
  | yuv444p
  deriving DecidableEq, Repr

/-- The number of a pixel format in `libavutil`. -/
def PixFmt.code : PixFmt → ℕ
  | .yuv420p => 0
  | .yuvj420p => 12
  | .yuv422p => 4
  | .yuvj422p => 13
  | .yuv444p => 5

/-- `uv_width * uv_height` of `yuv_yuv_template` -/
def PixFmt.uvLen (fmt : PixFmt) (w h : ℕ) : ℕ :=
  match fmt with
  | .yuv420p | .yuvj420p => w / 2 * (h / 2)
  | .yuv422p | .yuvj422p => w / 2 * h
  | .yuv444p => w * h

/-- A frame of the primary buffer: `effect_frame1`, its planes, and `mcast_mode` at that time. -/
structure PrimaryFrame where
  width : ℕ
  height : ℕ
  format : PixFmt
  Y : List UInt8
  Cb : List UInt8
  Cr : List UInt8
  mcastMode : UInt32
  width_pos : 0 < width
  height_pos : 0 < height
  width_even : width % 2 = 0
  height_even : height % 2 = 0
  Y_length : Y.length = width * height
  Cb_length : Cb.length = format.uvLen width height
  Cr_length : Cr.length = format.uvLen width height

/-- `len` -/
def PrimaryFrame.len (f : PrimaryFrame) : ℕ := f.width * f.height

/-- `uv_len` -/
def PrimaryFrame.uvLen (f : PrimaryFrame) : ℕ := f.format.uvLen f.width f.height

/-- The block compression of `liblzo`: `lzo1x_1_compress`, which may report an error, and
`lzo1x_decompress`. -/
structure Lzo where
  compress : List UInt8 → Option (List UInt8)
  decompress : List UInt8 → Option (List UInt8)

/-- What a block was compressed to gives it back, and is not empty: a compressed block ends with a marker. -/
structure Lzo.Lossless (lzo : Lzo) : Prop where
  restores : ∀ block packed, lzo.compress block = some packed → lzo.decompress packed = some block
  marked : ∀ block packed, lzo.compress block = some packed → packed ≠ []

/-! ## The sender -/

/-- `long2str` -/
def long2str (n : ℕ) : List UInt8 :=
  [UInt8.ofNat n, UInt8.ofNat (n / 2 ^ 8), UInt8.ofNat (n / 2 ^ 16), UInt8.ofNat (n / 2 ^ 24)]

/-- What is kept between two frames: `socket_buffer`, and `sbic`. -/
structure FrameSender where
  socketBuffer : Option (List UInt8)
  sbic : Bool

/-- `vj_perform_compress_frame` to `socket_buffer + 44`: the lengths of the three planes, if all of them were
compressed, and the buffer. -/
def vjPerformCompressFrame (lzo : Lzo) (f : PrimaryFrame) (buf : List UInt8) :
    Exec (Option (ℕ × ℕ × ℕ) × List UInt8) :=
  match lzo.compress f.Y with
  | none => .ok (none, buf)
  | some y => do
    let buf ← overwrite buf (44 + 16) y
    match lzo.compress f.Cb with
    | none => .ok (none, buf)
    | some cb => do
      let buf ← overwrite buf (44 + 16 + y.length) cb
      match lzo.compress f.Cr with
      | none => .ok (none, buf)
      | some cr => do
        let buf ← overwrite buf (44 + 16 + y.length + cb.length) cr
        let buf ← overwrite buf 44 (long2str y.length ++ long2str cb.length ++ long2str cr.length
          ++ long2str f.mcastMode.toNat)
        .ok (some (y.length, cb.length, cr.length), buf)

/-- `sprintf (info_line, "%04d%04d%04d%08d%08d%08d%08d", …)` -/
def infoLine (f : PrimaryFrame) (total p1 p2 p3 : ℕ) : CStr :=
  zeroPadded 4 f.width ++ (zeroPadded 4 f.height ++ (zeroPadded 4 f.format.code ++ (zeroPadded 8 total ++
    (zeroPadded 8 p1 ++ (zeroPadded 8 p2 ++ zeroPadded 8 p3)))))

/-- `vj_perform_send_primary_frame_s2`: the bytes that are sent. -/
def vjPerformSendPrimaryFrameS2 (lzo : Lzo) (fill : ℕ → UInt8) (s : FrameSender) (f : PrimaryFrame) :
    Exec (List UInt8 × FrameSender) := do
  let buf := s.socketBuffer.getD (malloc fill (rup8 (f.width * f.height * 3)))
  if s.sbic = false then do
    let (planes, buf) ← vjPerformCompressFrame lzo f buf
    match planes with
    | some (p1, p2, p3) => do
      let buf ← overwrite buf 0 ((infoLine f (p1 + p2 + p3 + 16) p1 p2 p3).take 44)
      let sent ← slice buf 0 (44 + 16 + p1 + p2 + p3)
      .ok (sent, { socketBuffer := some buf, sbic := true })
    | none => do
      let buf ← overwrite buf 0 ((infoLine f 0 f.len f.uvLen f.uvLen).take 44)
      let buf ← overwrite buf 44 f.Y
      let buf ← overwrite buf (44 + f.len) f.Cb
      let buf ← overwrite buf (44 + f.len + f.uvLen) f.Cr
      let sent ← slice buf 0 (44 + 16 + f.len + f.uvLen * 2)
      .ok (sent, { socketBuffer := some buf, sbic := true })
  else do
    let sent ← slice buf 0 44
    .ok (sent, { s with socketBuffer := some buf })

/-- `vj_perform_done_s2` -/
def vjPerformDoneS2 (s : FrameSender) : FrameSender := { s with sbic := false }

/-- A frame is sent, as `veejay_screen_update` does it. -/
def sendFrame (lzo : Lzo) (fill : ℕ → UInt8) (s : FrameSender) (f : PrimaryFrame) :
    Exec (List UInt8 × FrameSender) := do
  let (sent, s) ← vjPerformSendPrimaryFrameS2 lzo fill s f
  .ok (sent, vjPerformDoneS2 s)

/-! ## The client -/

/-- `sock_t_recv`: the bytes, or nothing if the stream ends before. -/
def sockTRecv (stream : List UInt8) (len : ℤ) : Option (List UInt8) × List UInt8 :=
  if len ≤ 0 then (some [], stream)
  else if len ≤ stream.length then (some (stream.take len.toNat), stream.drop len.toNat)
  else (none, [])

/-- What `vj_client_read_frame_header` stores. -/
structure FrameHeader where
  width : ℤ
  height : ℤ
  fmt : ℤ
  comprLen : ℤ
  stride1 : ℤ
  stride2 : ℤ
  stride3 : ℤ
  deriving DecidableEq, Repr

/-- `vj_client_read_frame_header` -/
def vjClientReadFrameHeader (stream : List UInt8) : Exec (Option FrameHeader × List UInt8) :=
  match sockTRecv stream 44 with
  | (none, rest) => .ok (none, rest)
  | (some line, rest) => do
    match (← readFields [4, 4, 4, 8, 8, 8, 8] line) with
    | some [w, h, fmt, comprLen, stride1, stride2, stride3] =>
      if w ≤ 0 ∨ h ≤ 0 then .ok (none, rest)
      else .ok (some ⟨w, h, fmt, comprLen, stride1, stride2, stride3⟩, rest)
    | _ => .ok (none, rest)

/-- The buffers of the client: `space`, and `buf` of the network thread with `bufsize`. -/
structure FrameReader where
  space : Option (List UInt8)
  buf : Option (List UInt8)
  bufsize : ℤ

/-- `space`, with room for the packet. -/
def spaceFor (space : Option (List UInt8)) (comprLen : ℤ) : List UInt8 :=
  match space with
  | none => List.replicate (rup8 comprLen.toNat) 0
  | some space => if space.length < comprLen then List.replicate (rup8 comprLen.toNat) 0 else space

/-- `vj_client_read_frame_data` to `dst`: what it returns, `space`, `dst` and what is left of the stream. -/
def vjClientReadFrameData (hd : FrameHeader) (space : Option (List UInt8)) (dst stream : List UInt8) :
    Exec (ℕ × Option (List UInt8) × List UInt8 × List UInt8) :=
  if 0 < hd.comprLen then
    match sockTRecv stream hd.comprLen with
    | (none, rest) => .ok (0, some (spaceFor space hd.comprLen), dst, rest)
    | (some bytes, rest) => do
      let space ← overwrite (spaceFor space hd.comprLen) 0 bytes
      .ok (2, some space, dst, rest)
  else
    match sockTRecv stream (hd.stride1 + hd.stride2 + hd.stride3) with
    | (none, rest) => .ok (0, space, dst, rest)
    | (some bytes, rest) => do
      let dst ← overwrite dst 0 bytes
      if (bytes.length : ℤ) ≠ hd.stride1 + hd.stride2 + hd.stride3 then .ok (0, space, dst, rest)
      else .ok (1, space, dst, rest)

/-- `str2ulong` -/
def str2ulong : List UInt8 → ℕ
  | [a, b, c, d] => a.toNat + b.toNat * 2 ^ 8 + c.toNat * 2 ^ 16 + d.toNat * 2 ^ 24
  | _ => 0

/-- An `int` as a `uint32_t`. -/
def toUint32 (n : ℤ) : ℕ := (n % 2 ^ 32).toNat

/-- The loop of `lzo_decompress` over the planes, each with its length and its place in `dst`: whether all
were decompressed, and `dst`. -/
def decompressPlanes (lzo : Lzo) (linbuf : List UInt8) :
    ℕ → List (ℕ × ℕ) → List UInt8 → Exec (Bool × List UInt8)
  | _, [], dst => .ok (true, dst)
  | offset, (len, place) :: planes, dst =>
    if len = 0 then decompressPlanes lzo linbuf offset planes dst
    else do
      let block ← slice linbuf offset len
      match lzo.decompress block with
      | none => .ok (false, dst)
      | some plane => do
        let dst ← overwrite dst place plane
        decompressPlanes lzo linbuf (offset + len) planes dst

/-- `lzo_decompress`, with the planes at `dst`, `dst + y` and `dst + y + uv`. -/
def lzoDecompress (lzo : Lzo) (linbuf dst : List UInt8) (y uv stride1 stride2 stride3 : ℕ) :
    Exec (List UInt8) := do
  let len0 ← slice linbuf 0 4
  let len1 ← slice linbuf 4 4
  let len2 ← slice linbuf 8 4
  let mode ← slice linbuf 12 4
  if str2ulong len0 ≠ stride1 ∨ str2ulong len1 ≠ stride2 ∨ str2ulong len2 ≠ stride3 then .ok dst
  else do
    let mode := if stride2 = 0 ∧ stride3 = 0 then 1 else str2ulong mode
    let (all, dst) ← decompressPlanes lzo linbuf 16 [(stride1, 0), (stride2, y), (stride3, y + uv)] dst
    if all = true ∧ mode = 1 then do
      let dst ← overwrite dst y (List.replicate uv 128)
      overwrite dst (y + uv) (List.replicate uv 128)
    else .ok dst

/-- `uv_len` of `vj_client_decompress_frame_data` -/
def decompressUvLen (fmt : ℤ) (y : ℕ) : ℕ :=
  if fmt = 4 ∨ fmt = 13 then y / 2
  else if fmt = 0 ∨ fmt = 12 then y / 4
  else y

/-- `vj_client_decompress_frame_data` -/
def vjClientDecompressFrameData (lzo : Lzo) (hd : FrameHeader) (space dst : List UInt8) :
    Exec (List UInt8) :=
  let y := (hd.width * hd.height).toNat
  lzoDecompress lzo space dst y (decompressUvLen hd.fmt y) (toUint32 hd.stride1) (toUint32 hd.stride2)
    (toUint32 hd.stride3)

/-- `t->buf`, with room for a frame; a block that grows keeps what it held. -/
def frameBuffer (fill : ℕ → UInt8) (r : FrameReader) (hd : FrameHeader) : List UInt8 × ℤ :=
  match r.buf with
  | some buf =>
    if r.bufsize < hd.width * hd.height * 3 then
      (buf.take (rup8 (hd.width * hd.height * 3).toNat)
        ++ (malloc fill (rup8 (hd.width * hd.height * 3).toNat)).drop buf.length, hd.width * hd.height * 3)
    else (buf, r.bufsize)
  | none => (malloc fill (rup8 (hd.width * hd.height * 3).toNat), hd.width * hd.height * 3)

/-- One frame, as the network thread reads it: the header, if there is a frame, the buffers, and what is left
of the stream. -/
def readFrame (lzo : Lzo) (fill : ℕ → UInt8) (r : FrameReader) (stream : List UInt8) :
    Exec (Option FrameHeader × FrameReader × List UInt8) := do
  let (header, stream) ← vjClientReadFrameHeader stream
  match header with
  | none => .ok (none, r, stream)
  | some hd => do
    let (dst, bufsize) := frameBuffer fill r hd
    let (ret, space, dst, stream) ← vjClientReadFrameData hd r.space dst stream
    match ret, space with
    | 2, some packet => do
      let dst ← vjClientDecompressFrameData lzo hd packet dst
      .ok (some hd, { space := space, buf := some dst, bufsize := bufsize }, stream)
    | 1, space => .ok (some hd, { space := space, buf := some dst, bufsize := bufsize }, stream)
    | _, space => .ok (none, { space := space, buf := some dst, bufsize := bufsize }, stream)

end Veejay.Net
