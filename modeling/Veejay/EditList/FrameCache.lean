import Veejay.EditList.Model
import Veejay.Net.FrameStream

/-!
# The frame cache of an edit list

`vj_el_get_video_frame` keeps the bytes of the frames it reads in the slots of a cache, and decodes a frame that is
asked for again from its slot.

* `Slot`, `cacheFrame`, `getCachedFrame` — the cache (`libel/elcache.c`);
* `Reader` — the movie files, the decoders and the tables of pixels, as parameters;
* `decode` — the branches of the decoders;
* `vjElGetVideoFrame` — the reader (`libel/vj-el.c`);
* `decode_append` — a decoder looks at the bytes of the frame only;
* `cache_transparent` — **when reading with the cache gives what reading without it gives**.
-/

namespace Veejay.FrameCache

open CLib Veejay.Edl Veejay.Net

/-! ## The cache -/

/-- `cache_slot_t` -/
structure Slot where
  num : ℤ
  fmt : ℤ
  size : ℤ
  buffer : List UInt8

/-- `cache_t`: the slots; where `index` is -1 there is none. -/
abbrev Cache := List (Option Slot)

/-- `v->index[i]` -/
def indexOf : Option Slot → ℤ
  | none => -1
  | some slot => slot.num

/-- `init_cache`, for a number of slots that is not zero -/
def initCache (nSlots : ℕ) : Cache := List.replicate nSlots none

/-- `cache_free_slot` -/
def cacheFreeSlot (v : Cache) : Option ℕ := v.findIdx? fun slot => decide (indexOf slot = -1)

/-- `abs`, of a `long` that is cut down to an `int` -/
def absInt (x : ℤ) : ℤ := |x.bmod (2 ^ 32)|

/-- The loop of `cache_find_slot`: `i`, `k` and `n`, and the slots that are left. -/
def findSlotLoop (frameNum : ℤ) : ℕ → ℕ → ℤ → Cache → ℕ
  | _, k, _, [] => k
  | i, k, n, slot :: slots =>
    let d := absInt (indexOf slot - frameNum)
    if n < d then findSlotLoop frameNum (i + 1) i d slots else findSlotLoop frameNum (i + 1) k n slots

/-- `cache_find_slot` -/
def cacheFindSlot (v : Cache) (frameNum : ℤ) : ℕ := findSlotLoop frameNum 0 0 0 v

/-- `cache_frame`, with `cache_claim_slot` -/
def cacheFrame (v : Cache) (linbuf : List UInt8) (buflen frameNum format : ℤ) : Cache :=
  if buflen ≤ 0 then v
  else
    let slotNum := (cacheFreeSlot v).getD (cacheFindSlot v frameNum)
    v.set slotNum (some ⟨frameNum, format, buflen, linbuf.take buflen.toNat⟩)

/-- `cache_locate_slot` -/
def cacheLocateSlot (v : Cache) (frameNum : ℤ) : Option ℕ := v.findIdx? fun slot => decide (indexOf slot = frameNum)

/-- `get_cached_frame`: the place of the slot, and the slot. -/
def getCachedFrame (v : Cache) (frameNum : ℤ) : Option (ℕ × Slot) := do
  let i ← cacheLocateSlot v frameNum
  let slot ← (v[i]?).join
  some (i, slot)

/-! ## Reading and decoding -/

/-- The planes of a frame. -/
structure Planes where
  y : List UInt8
  u : List UInt8
  v : List UInt8

/-- What lies outside the edit list: the movie files, the decoders of libavcodec and of LZO, and the tables of
pixels.  Reading one place of one file twice gives the same bytes, and decoding the same bytes the same picture. -/
structure Reader where
  setVideoPosition : ℕ → ℕ → ℤ
  readFrame : ℕ → ℕ → ℤ × List UInt8
  /-- A read that succeeds returns how many bytes it has written. -/
  read_length : ∀ file frame, 0 < (readFrame file frame).1 →
    (((readFrame file frame).2.length : ℕ) : ℤ) = (readFrame file frame).1
  videoCompressorType : ℕ → ℤ
  isPicture : ℕ → Bool
  /-- `lav_video_compressor_type` returns 0xffff for a picture. -/
  picture_type : ∀ file, isPicture file = true → videoCompressorType file = 0xffff
  framePtr : ℕ → Option Planes
  lzo1xDecompress : List UInt8 → List UInt8 → Bool × ℕ × List UInt8
  avDecode : ℕ → List UInt8 → Planes → ℤ × Planes
  yuv420to422planar : List UInt8 → List UInt8 → Planes → Planes
  ccirToJpegY : UInt8 → UInt8
  ccirToJpegUV : UInt8 → UInt8
  jpegToCcirY : UInt8 → UInt8
  jpegToCcirUV : UInt8 → UInt8

/-- The edit list and the format of the pictures it gives. -/
structure Clip where
  hasVideo : Bool
  isEmpty : Bool
  totalFrames : ℕ
  frameList : List UInt64
  pixfmt : ℕ → ℤ
  videoWidth : ℕ
  videoHeight : ℕ
  outLen : ℕ
  outUvLen : ℕ
  elPixelFormat : ℤ
  /-- `pixel_format` is one of the formats with half the colour (`vj_el_dummy_frame`). -/
  halfColour : Bool

def codecIdYuv420 : ℤ := 999
def codecIdYuv422 : ℤ := 998
def codecIdYuv422f : ℤ := 997
def codecIdYuv420f : ℤ := 996
def codecIdYuvlzo : ℤ := 900

/-- The decoder that `lav_video_compressor_type` gives for pictures. -/
def pictureType : ℤ := 0xffff

/-- The number of a pixel format. -/
def pixFmt (fmt : PixFmt) : ℤ := fmt.code

/-- `vj_frame_copy1 (bytes, dst, …)` -/
def copyPlane (bytes dst : List UInt8) : List UInt8 := bytes ++ dst.drop bytes.length

/-- The loops `for (i = 0; i < len; i++) plane[i] = table[plane[i]]`. -/
def scalePlane (table : UInt8 → UInt8) (len : ℕ) (plane : List UInt8) : List UInt8 :=
  (plane.take len).map table ++ plane.drop len

/-- `vj_el_dummy_frame` -/
def vjElDummyFrame (clip : Clip) (dst : Planes) : Planes :=
  let len := clip.videoWidth * clip.videoHeight
  let uvLen := len / (if clip.halfColour then 2 else 4)
  ⟨copyPlane (List.replicate len 16) dst.y, copyPlane (List.replicate uvLen 128) dst.u,
    copyPlane (List.replicate uvLen 128) dst.v⟩

/-- The two calls that scale the data of a frame where it lies. -/
def scaleInPlace (io : Reader) (len : ℕ) (data : List UInt8) : Exec (List UInt8) := do
  let y ← slice data 0 len
  let u ← slice data len (len / 4)
  .ok (y.map io.ccirToJpegY ++ u.map io.ccirToJpegUV ++ data.drop (len + len / 4))

/-- The loops over the planes of `lzo_decompress_el` and `lzo_decompress420into422`: `offset`, `sum`, and the planes
that are left, each with its length.  Nothing is returned where one of them fails. -/
def lzoLoop (io : Reader) (linbuf : List UInt8) :
    ℕ → ℕ → List (ℕ × List UInt8) → Exec (Option ℕ × List (List UInt8))
  | _, sum, [] => .ok (some sum, [])
  | offset, sum, (len, dst) :: planes =>
    if len = 0 then do
      let (res, rest) ← lzoLoop io linbuf offset sum planes
      .ok (res, dst :: rest)
    else do
      let src ← slice linbuf offset len
      match io.lzo1xDecompress src dst with
      | (false, _, dst) => .ok (none, dst :: planes.map Prod.snd)
      | (true, resultLen, dst) => do
        let (res, rest) ← lzoLoop io linbuf (offset + len) (sum + resultLen) planes
        .ok (res, dst :: rest)

def planesOf : List (List UInt8) → Planes → Planes
  | [y, u, v], _ => ⟨y, u, v⟩
  | _, dst => dst

/-- The three lengths at the head of a frame. -/
def lzoLengths (linbuf : List UInt8) : Exec (ℕ × ℕ × ℕ) := do
  let len0 ← slice linbuf 0 4
  let len1 ← slice linbuf 4 4
  let len2 ← slice linbuf 8 4
  .ok (str2ulong len0, str2ulong len1, str2ulong len2)

/-- `lzo_decompress_el` -/
def lzoDecompressEl (io : Reader) (linbuf : List UInt8) (dst : Planes) : Exec (ℤ × Planes) := do
  let (len0, len1, len2) ← lzoLengths linbuf
  if len0 = 0 ∧ len1 = 0 then .ok (-1, dst)
  else do
    let (res, planes) ← lzoLoop io linbuf 12 0 [(len0, dst.y), (len1, dst.u), (len2, dst.v)]
    match res with
    | none => .ok (0, planesOf planes dst)
    | some sum => .ok (sum, planesOf planes dst)

/-- `lzo_decompress420into422`: the result, the planes, and the planes `l->tmp`. -/
def lzoDecompress420into422 (io : Reader) (linbuf : List UInt8) (dst tmp : Planes) :
    Exec (ℤ × Planes × Planes) := do
  let (len0, len1, len2) ← lzoLengths linbuf
  let (res, planes) ← lzoLoop io linbuf 0 0 [(len0, tmp.y), (len1, tmp.u), (len2, tmp.v)]
  let tmp := planesOf planes tmp
  match res with
  | none => .ok (0, dst, tmp)
  | some sum => .ok (sum, io.yuv420to422planar tmp.u tmp.v { dst with y := copyPlane tmp.y dst.y }, tmp)

/-- The number of bytes that `yuv420to422planar` reads of each plane. -/
def Clip.chroma (clip : Clip) : ℕ := clip.videoWidth / 2 * (clip.videoHeight / 2)

/-- The data in the branch `CODEC_ID_YUV420`, scaled where the picture has the full range. -/
def scaledData (clip : Clip) (io : Reader) (data : List UInt8) : Exec (List UInt8) :=
  if clip.elPixelFormat = pixFmt .yuvj422p then scaleInPlace io clip.outLen data else .ok data

/-- `case CODEC_ID_YUV420`: the planes, and the data as the branch leaves them. -/
def decodeYuv420 (clip : Clip) (io : Reader) (data : List UInt8) (dst : Planes) : Exec (Planes × List UInt8) := do
  let y ← slice data 0 clip.outLen
  let data ← scaledData clip io data
  let u ← slice data clip.outLen clip.chroma
  let v ← slice data (clip.outLen + clip.outLen / 4 : ℕ) clip.chroma
  .ok (io.yuv420to422planar u v { dst with y := copyPlane y dst.y }, data)

/-- `case CODEC_ID_YUV420F` -/
def decodeYuv420f (clip : Clip) (io : Reader) (data : List UInt8) (dst : Planes) : Exec Planes := do
  let y ← slice data 0 clip.outLen
  let u ← slice data clip.outLen clip.chroma
  let v ← slice data (clip.outLen + clip.outLen / 4 : ℕ) clip.chroma
  let dst := { dst with y := copyPlane y dst.y }
  let dst :=
    if clip.elPixelFormat = pixFmt .yuv422p then
      { dst with
        y := scalePlane io.jpegToCcirY clip.outLen dst.y
        u := scalePlane io.jpegToCcirUV (clip.outLen / 4) dst.u }
    else dst
  .ok (io.yuv420to422planar u v dst)

/-- The common text of `case CODEC_ID_YUV422` and `case CODEC_ID_YUV422F`: the pixels are scaled for a picture of
the format `scaled`. -/
def decodePlanar422 (clip : Clip) (scaled : PixFmt) (tableY tableUV : UInt8 → UInt8) (data : List UInt8)
    (dst : Planes) : Exec Planes := do
  let y ← slice data 0 clip.outLen
  let u ← slice data clip.outLen clip.outUvLen
  let v ← slice data (clip.outLen + clip.outUvLen : ℕ) clip.outUvLen
  let dst := ⟨copyPlane y dst.y, copyPlane u dst.u, copyPlane v dst.v⟩
  .ok (if clip.elPixelFormat = pixFmt scaled then
      { dst with
        y := scalePlane tableY clip.outLen dst.y
        u := scalePlane tableUV (clip.outLen / 2) dst.u }
    else dst)

/-- `case CODEC_ID_YUV422` -/
def decodeYuv422 (clip : Clip) (io : Reader) : List UInt8 → Planes → Exec Planes :=
  decodePlanar422 clip .yuvj422p io.ccirToJpegY io.ccirToJpegUV

/-- `case CODEC_ID_YUV422F` -/
def decodeYuv422f (clip : Clip) (io : Reader) : List UInt8 → Planes → Exec Planes :=
  decodePlanar422 clip .yuv422p io.jpegToCcirY io.jpegToCcirUV

/-- The pixel formats whose frames `lzo_decompress420into422` takes. -/
def isFmt420 (fmt : ℤ) : Prop := fmt = pixFmt .yuvj420p ∨ fmt = pixFmt .yuv420p

instance (fmt : ℤ) : Decidable (isFmt420 fmt) := inferInstanceAs (Decidable (_ ∨ _))

/-- `case CODEC_ID_YUVLZO`: the result, the planes, and the planes `l->tmp`. -/
def decodeYuvlzo (io : Reader) (inPixFmt : ℤ) (data : List UInt8) (dst tmp : Planes) : Exec (ℤ × Planes × Planes) :=
  if isFmt420 inPixFmt then lzoDecompress420into422 io data dst tmp
  else do
    let r ← lzoDecompressEl io data dst
    .ok (r.1, r.2, tmp)

/-- The switch over the decoders: the result, the planes, the data as the branch leaves them, and the planes
`l->tmp` of the LZO decoder. -/
def decode (clip : Clip) (io : Reader) (decoderId inPixFmt : ℤ) (file : ℕ) (data : List UInt8) (res : ℤ)
    (dst tmp : Planes) : Exec (ℤ × Planes × List UInt8 × Planes) :=
  if decoderId = codecIdYuv420 then do
    let r ← decodeYuv420 clip io data dst
    .ok (1, r.1, r.2, tmp)
  else if decoderId = codecIdYuv420f then do
    let dst ← decodeYuv420f clip io data dst
    .ok (1, dst, data, tmp)
  else if decoderId = codecIdYuv422 then do
    let dst ← decodeYuv422 clip io data dst
    .ok (1, dst, data, tmp)
  else if decoderId = codecIdYuv422f then do
    let dst ← decodeYuv422f clip io data dst
    .ok (1, dst, data, tmp)
  else if decoderId = codecIdYuvlzo then do
    let r ← decodeYuvlzo io inPixFmt data dst tmp
    .ok (r.1, r.2.1, data, r.2.2)
  else
    let r := io.avDecode file (data.take res.toNat) dst
    .ok (r.1, r.2, data, tmp)

/-- The cache of the edit list, where there is one, and what the decoder of each file holds. -/
structure State where
  cache : Option Cache
  tmpBuffer : ℕ → List UInt8
  lzoTmp : ℕ → Planes

/-- The frame that is read for `nframe`. -/
def clampFrame (clip : Clip) (nframe : ℤ) : ℤ := min (max nframe 0) clip.totalFrames

/-- `lav_read_frame`, and `cache_frame` -/
def readIntoBuffer (io : Reader) (file frame : ℕ) (nframe decoderId : ℤ) (s : State) : ℤ × State :=
  let (res, bytes) := io.readFrame file frame
  let buffer := copyPlane bytes (s.tmpBuffer file)
  let cache := if 0 < res then s.cache.map fun v => cacheFrame v buffer res nframe decoderId else s.cache
  (res, { s with cache := cache, tmpBuffer := Function.update s.tmpBuffer file buffer })

/-- `vj_el_get_video_frame`, with the planes that `dst` holds before and after. -/
def vjElGetVideoFrame (clip : Clip) (io : Reader) (s : State) (nframe : ℤ) (dst : Planes) :
    Exec ((ℤ × Planes) × State) :=
  if !clip.hasVideo || clip.isEmpty then .ok ((2, vjElDummyFrame clip dst), s)
  else
    let nframe := clampFrame clip nframe
    match clip.frameList[nframe.toNat]? with
    | none => .error .outOfBounds
    | some n =>
      let file := (nElFile n).toNat
      let frame := (nElFrame n).toNat
      let decoderId := io.videoCompressorType file
      match s.cache.bind fun v => getCachedFrame v nframe with
      | some (i, slot) =>
        if decoderId = pictureType then
          match io.framePtr file with
          | none => .ok ((-1, dst), s)
          | some src => .ok ((1, ⟨copyPlane src.y dst.y, copyPlane src.u dst.u, copyPlane src.v dst.v⟩), s)
        else do
          let (ret, dst, data, tmp) ←
            decode clip io decoderId slot.fmt file slot.buffer slot.size dst (s.lzoTmp file)
          .ok ((ret, dst),
            { s with
              cache := s.cache.map fun v => v.set i (some { slot with buffer := data })
              lzoTmp := Function.update s.lzoTmp file tmp })
      | none =>
        if io.setVideoPosition file frame < 0 then .ok ((-1, dst), s)
        else if decoderId = pictureType then
          match io.framePtr file with
          | none => .ok ((-1, dst), s)
          | some src => .ok ((1, ⟨copyPlane src.y dst.y, copyPlane src.u dst.u, copyPlane src.v dst.v⟩), s)
        else
          let (res, s) :=
            if io.isPicture file then (io.setVideoPosition file frame, s)
            else readIntoBuffer io file frame nframe decoderId s
          do
            let (ret, dst, data, tmp) ←
              decode clip io decoderId (clip.pixfmt file) file (s.tmpBuffer file) res dst (s.lzoTmp file)
            .ok ((ret, dst),
              { s with
                tmpBuffer := Function.update s.tmpBuffer file data
                lzoTmp := Function.update s.lzoTmp file tmp })

/-! ## A decoder looks at the bytes of the frame only -/

theorem scaleInPlace_append {io : Reader} {len : ℕ} {data scaled : List UInt8}
    (h : scaleInPlace io len data = .ok scaled) (rest : List UInt8) :
    scaleInPlace io len (data ++ rest) = .ok (scaled ++ rest) := by
  rw [scaleInPlace, bind_eq_ok] at h
  obtain ⟨y, hy, h⟩ := h
  rw [bind_eq_ok] at h
  obtain ⟨u, hu, h⟩ := h
  have hlen : len + len / 4 ≤ data.length := by
    have h₁ := (slice_eq_ok.mp hy).1
    have h₂ := (slice_eq_ok.mp hu).1
    omega
  rw [scaleInPlace, slice_append hy, ok_bind, slice_append hu, ok_bind, ← Except.ok.inj h,
    List.drop_append_of_le_length hlen, List.append_assoc, List.append_assoc, List.append_assoc]

theorem lzoLengths_append {linbuf : List UInt8} {lens : ℕ × ℕ × ℕ} (h : lzoLengths linbuf = .ok lens)
    (rest : List UInt8) : lzoLengths (linbuf ++ rest) = .ok lens := by
  rw [lzoLengths, bind_eq_ok] at h
  obtain ⟨len0, h0, h⟩ := h
  rw [bind_eq_ok] at h
  obtain ⟨len1, h1, h⟩ := h
  rw [bind_eq_ok] at h
  obtain ⟨len2, h2, h⟩ := h
  rw [lzoLengths, slice_append h0, ok_bind, slice_append h1, ok_bind, slice_append h2, ok_bind]
  exact h

/-- The loop over the planes reads the lengths that it is given. -/
theorem lzoLoop_append {io : Reader} {linbuf : List UInt8} (rest : List UInt8) :
    ∀ {planes : List (ℕ × List UInt8)} {offset sum : ℕ} {res : Option ℕ × List (List UInt8)},
      lzoLoop io linbuf offset sum planes = .ok res → lzoLoop io (linbuf ++ rest) offset sum planes = .ok res := by
  intro planes
  induction planes with
  | nil => exact fun h => h
  | cons plane planes ih =>
    obtain ⟨len, dst⟩ := plane
    intro offset sum res h
    rw [lzoLoop] at h ⊢
    split_ifs at h ⊢ with hlen
    · rw [bind_eq_ok] at h
      obtain ⟨r, hr, h⟩ := h
      rw [ih hr, ok_bind]
      exact h
    · rw [bind_eq_ok] at h
      obtain ⟨src, hsrc, h⟩ := h
      rw [slice_append hsrc, ok_bind]
      rcases hblock : io.lzo1xDecompress src dst with ⟨ok, resultLen, dst'⟩
      rw [hblock] at h
      cases ok with
      | false => exact h
      | true =>
        replace h : (lzoLoop io linbuf (offset + len) (sum + resultLen) planes >>= fun r =>
          .ok (r.1, dst' :: r.2)) = .ok res := h
        rw [bind_eq_ok] at h
        obtain ⟨r, hr, h⟩ := h
        show (lzoLoop io (linbuf ++ rest) (offset + len) (sum + resultLen) planes >>= fun r =>
          .ok (r.1, dst' :: r.2)) = .ok res
        rw [ih hr, ok_bind]
        exact h

theorem lzoDecompressEl_append {io : Reader} {linbuf : List UInt8} {dst : Planes} {r : ℤ × Planes}
    (h : lzoDecompressEl io linbuf dst = .ok r) (rest : List UInt8) :
    lzoDecompressEl io (linbuf ++ rest) dst = .ok r := by
  rw [lzoDecompressEl, bind_eq_ok] at h
  obtain ⟨⟨len0, len1, len2⟩, hlens, h⟩ := h
  rw [lzoDecompressEl, lzoLengths_append hlens, ok_bind]
  dsimp only at h ⊢
  split_ifs at h ⊢ with hzero
  · exact h
  · rw [bind_eq_ok] at h
    obtain ⟨res, hres, h⟩ := h
    rw [lzoLoop_append rest hres, ok_bind]
    exact h

theorem lzoDecompress420into422_append {io : Reader} {linbuf : List UInt8} {dst tmp : Planes}
    {r : ℤ × Planes × Planes} (h : lzoDecompress420into422 io linbuf dst tmp = .ok r) (rest : List UInt8) :
    lzoDecompress420into422 io (linbuf ++ rest) dst tmp = .ok r := by
  rw [lzoDecompress420into422, bind_eq_ok] at h
  obtain ⟨⟨len0, len1, len2⟩, hlens, h⟩ := h
  rw [lzoDecompress420into422, lzoLengths_append hlens, ok_bind]
  dsimp only at h ⊢
  rw [bind_eq_ok] at h
  obtain ⟨res, hres, h⟩ := h
  rw [lzoLoop_append rest hres, ok_bind]
  exact h

section Decode

variable {clip : Clip} {io : Reader} {data : List UInt8} {dst tmp : Planes}

theorem decodeYuv420_append {r : Planes × List UInt8} (h : decodeYuv420 clip io data dst = .ok r) (rest : List UInt8) :
    decodeYuv420 clip io (data ++ rest) dst = .ok (r.1, r.2 ++ rest) := by
  rw [decodeYuv420, bind_eq_ok] at h
  obtain ⟨y, hy, h⟩ := h
  rw [bind_eq_ok] at h
  obtain ⟨scaled, hscaled, h⟩ := h
  rw [bind_eq_ok] at h
  obtain ⟨u, hu, h⟩ := h
  rw [bind_eq_ok] at h
  obtain ⟨v, hv, h⟩ := h
  have hscaled' : scaledData clip io (data ++ rest) = .ok (scaled ++ rest) := by
    rw [scaledData] at hscaled ⊢
    split_ifs at hscaled ⊢
    · exact scaleInPlace_append hscaled rest
    · rw [Except.ok.inj hscaled]
  rw [decodeYuv420, slice_append hy, ok_bind, hscaled', ok_bind, slice_append hu, ok_bind, slice_append hv, ok_bind,
    ← Except.ok.inj h]

theorem decodeYuv420f_append {r : Planes} (h : decodeYuv420f clip io data dst = .ok r) (rest : List UInt8) :
    decodeYuv420f clip io (data ++ rest) dst = .ok r := by
  rw [decodeYuv420f, bind_eq_ok] at h
  obtain ⟨y, hy, h⟩ := h
  rw [bind_eq_ok] at h
  obtain ⟨u, hu, h⟩ := h
  rw [bind_eq_ok] at h
  obtain ⟨v, hv, h⟩ := h
  rw [decodeYuv420f, slice_append hy, ok_bind, slice_append hu, ok_bind, slice_append hv, ok_bind]
  exact h

theorem decodePlanar422_append {scaled : PixFmt} {tableY tableUV : UInt8 → UInt8} {r : Planes}
    (h : decodePlanar422 clip scaled tableY tableUV data dst = .ok r) (rest : List UInt8) :
    decodePlanar422 clip scaled tableY tableUV (data ++ rest) dst = .ok r := by
  rw [decodePlanar422, bind_eq_ok] at h
  obtain ⟨y, hy, h⟩ := h
  rw [bind_eq_ok] at h
  obtain ⟨u, hu, h⟩ := h
  rw [bind_eq_ok] at h
  obtain ⟨v, hv, h⟩ := h
  rw [decodePlanar422, slice_append hy, ok_bind, slice_append hu, ok_bind, slice_append hv, ok_bind]
  exact h

theorem decodeYuvlzo_append {inPixFmt : ℤ} {r : ℤ × Planes × Planes}
    (h : decodeYuvlzo io inPixFmt data dst tmp = .ok r) (rest : List UInt8) :
    decodeYuvlzo io inPixFmt (data ++ rest) dst tmp = .ok r := by
  rw [decodeYuvlzo] at h ⊢
  split_ifs at h ⊢
  · exact lzoDecompress420into422_append h rest
  · rw [bind_eq_ok] at h
    obtain ⟨el, hel, h⟩ := h
    rw [lzoDecompressEl_append hel rest, ok_bind]
    exact h

/-- **A decoder looks at the bytes of the frame only.**  What lies behind them in the buffer stays behind. -/
theorem decode_append {decoderId inPixFmt : ℤ} {file : ℕ} {res : ℤ} {r : ℤ × Planes × List UInt8 × Planes}
    (hres : res.toNat ≤ data.length) (h : decode clip io decoderId inPixFmt file data res dst tmp = .ok r)
    (rest : List UInt8) :
    decode clip io decoderId inPixFmt file (data ++ rest) res dst tmp =
      .ok (r.1, r.2.1, r.2.2.1 ++ rest, r.2.2.2) := by
  rw [decode] at h ⊢
  split_ifs at h ⊢ with h420 h420f h422 h422f hlzo
  · rw [bind_eq_ok] at h
    obtain ⟨x, hx, h⟩ := h
    rw [decodeYuv420_append hx rest, ok_bind, ← Except.ok.inj h]
  · rw [bind_eq_ok] at h
    obtain ⟨x, hx, h⟩ := h
    rw [decodeYuv420f_append hx rest, ok_bind, ← Except.ok.inj h]
  · rw [bind_eq_ok] at h
    obtain ⟨x, hx, h⟩ := h
    rw [decodeYuv422, decodePlanar422_append hx rest, ok_bind, ← Except.ok.inj h]
  · rw [bind_eq_ok] at h
    obtain ⟨x, hx, h⟩ := h
    rw [decodeYuv422f, decodePlanar422_append hx rest, ok_bind, ← Except.ok.inj h]
  · rw [bind_eq_ok] at h
    obtain ⟨x, hx, h⟩ := h
    rw [decodeYuvlzo_append hx rest, ok_bind, ← Except.ok.inj h]
  · rw [List.take_append_of_le_length hres, ← Except.ok.inj h]

/-- The branch that scales the data where they lie. -/
def ScalesData (clip : Clip) (decoderId : ℤ) : Prop :=
  decoderId = codecIdYuv420 ∧ clip.elPixelFormat = pixFmt .yuvj422p

/-- The other branches leave the data. -/
theorem decode_data {decoderId inPixFmt : ℤ} {file : ℕ} {res : ℤ} {r : ℤ × Planes × List UInt8 × Planes}
    (h : decode clip io decoderId inPixFmt file data res dst tmp = .ok r) (hdata : ¬ ScalesData clip decoderId) :
    r.2.2.1 = data := by
  rw [decode] at h
  split_ifs at h with h420
  · rw [bind_eq_ok] at h
    obtain ⟨x, hx, h⟩ := h
    rw [← Except.ok.inj h]
    rw [decodeYuv420, bind_eq_ok] at hx
    obtain ⟨y, hy, hx⟩ := hx
    rw [scaledData, if_neg fun hfmt => hdata ⟨h420, hfmt⟩, ok_bind, bind_eq_ok] at hx
    obtain ⟨u, hu, hx⟩ := hx
    rw [bind_eq_ok] at hx
    obtain ⟨v, hv, hx⟩ := hx
    rw [← Except.ok.inj hx]
  case neg => rw [← Except.ok.inj h]
  all_goals
    rw [bind_eq_ok] at h
    obtain ⟨x, hx, h⟩ := h
    rw [← Except.ok.inj h]

/-! ## Complete frames -/

/-- How many bytes of a frame its decoder reads: those of the planes, or the three lengths and what they announce. -/
def bytesNeeded (clip : Clip) (decoderId : ℤ) (bytes : List UInt8) : ℕ :=
  if decoderId = codecIdYuv420 ∨ decoderId = codecIdYuv420f then clip.outLen + clip.outLen / 4 + clip.chroma
  else if decoderId = codecIdYuv422 ∨ decoderId = codecIdYuv422f then clip.outLen + 2 * clip.outUvLen
  else if decoderId = codecIdYuvlzo then
    12 + str2ulong ((bytes.drop 0).take 4) + str2ulong ((bytes.drop 4).take 4) + str2ulong ((bytes.drop 8).take 4)
  else 0

theorem slice_of_le {mem : List UInt8} {i : ℤ} {n : ℕ} (hi : 0 ≤ i) (h : i + n ≤ mem.length) :
    slice mem i n = .ok ((mem.drop i.toNat).take n) :=
  slice_eq_ok.mpr ⟨.inr ⟨hi, h⟩, rfl⟩

theorem lzoLoop_ok {linbuf : List UInt8} :
    ∀ {planes : List (ℕ × List UInt8)} {offset sum : ℕ}, offset + (planes.map Prod.fst).sum ≤ linbuf.length →
      ∃ res, lzoLoop io linbuf offset sum planes = .ok res := by
  intro planes
  induction planes with
  | nil => exact fun _ => ⟨_, rfl⟩
  | cons plane planes ih =>
    obtain ⟨len, dst⟩ := plane
    intro offset sum h
    rw [List.map_cons, List.sum_cons] at h
    rw [lzoLoop]
    split_ifs with hlen
    · obtain ⟨res, hres⟩ := @ih offset sum (by omega)
      exact ⟨(res.1, dst :: res.2), by rw [hres, ok_bind]⟩
    · rw [slice_of_le (by omega) (by omega), ok_bind]
      generalize (linbuf.drop (offset : ℤ).toNat).take len = src
      rcases io.lzo1xDecompress src dst with ⟨ok, resultLen, dst'⟩
      cases ok with
      | false => exact ⟨_, rfl⟩
      | true =>
        obtain ⟨res, hres⟩ := @ih (offset + len) (sum + resultLen) (by omega)
        refine ⟨(res.1, dst' :: res.2), ?_⟩
        show (lzoLoop io linbuf (offset + len) (sum + resultLen) planes >>= fun r => .ok (r.1, dst' :: r.2)) = _
        rw [hres, ok_bind]

theorem scaledData_ok (h : clip.outLen + clip.outLen / 4 ≤ data.length) :
    ∃ scaled, scaledData clip io data = .ok scaled ∧ scaled.length = data.length := by
  rw [scaledData]
  split_ifs
  · have hy : slice data 0 clip.outLen = .ok ((data.drop 0).take clip.outLen) := slice_of_le (by omega) (by omega)
    have hu : slice data clip.outLen (clip.outLen / 4) = .ok ((data.drop clip.outLen).take (clip.outLen / 4)) :=
      slice_of_le (by omega) (by omega)
    refine ⟨_, by rw [scaleInPlace, hy, ok_bind, hu, ok_bind], ?_⟩
    simp only [List.length_append, List.length_map, List.length_take, List.length_drop]
    omega
  · exact ⟨data, rfl, rfl⟩

theorem decodeYuv420_ok (h : clip.outLen + clip.outLen / 4 + clip.chroma ≤ data.length) :
    ∃ r, decodeYuv420 clip io data dst = .ok r := by
  obtain ⟨scaled, hscaled, hlen⟩ := @scaledData_ok clip io data (by omega)
  have hy : slice data 0 clip.outLen = .ok ((data.drop 0).take clip.outLen) := slice_of_le (by omega) (by omega)
  rw [decodeYuv420, hy, ok_bind, hscaled, ok_bind, slice_of_le (by omega) (by omega), ok_bind,
    slice_of_le (by omega) (by omega), ok_bind]
  exact ⟨_, rfl⟩

theorem decodeYuv420f_ok (h : clip.outLen + clip.outLen / 4 + clip.chroma ≤ data.length) :
    ∃ r, decodeYuv420f clip io data dst = .ok r := by
  have hy : slice data 0 clip.outLen = .ok ((data.drop 0).take clip.outLen) := slice_of_le (by omega) (by omega)
  rw [decodeYuv420f, hy, ok_bind, slice_of_le (by omega) (by omega), ok_bind, slice_of_le (by omega) (by omega), ok_bind]
  exact ⟨_, rfl⟩

theorem decodePlanar422_ok {scaled : PixFmt} {tableY tableUV : UInt8 → UInt8}
    (h : clip.outLen + 2 * clip.outUvLen ≤ data.length) :
    ∃ r, decodePlanar422 clip scaled tableY tableUV data dst = .ok r := by
  have hy : slice data 0 clip.outLen = .ok ((data.drop 0).take clip.outLen) := slice_of_le (by omega) (by omega)
  rw [decodePlanar422, hy, ok_bind, slice_of_le (by omega) (by omega), ok_bind, slice_of_le (by omega) (by omega), ok_bind]
  exact ⟨_, rfl⟩

/-- The three lengths of a frame that has them. -/
theorem lzoLengths_ok (h : 12 ≤ data.length) :
    lzoLengths data = .ok (str2ulong ((data.drop 0).take 4), str2ulong ((data.drop 4).take 4),
      str2ulong ((data.drop 8).take 4)) := by
  have h0 : slice data 0 4 = .ok ((data.drop 0).take 4) := slice_of_le (by omega) (by omega)
  have h1 : slice data 4 4 = .ok ((data.drop 4).take 4) := slice_of_le (by omega) (by omega)
  have h2 : slice data 8 4 = .ok ((data.drop 8).take 4) := slice_of_le (by omega) (by omega)
  rw [lzoLengths, h0, ok_bind, h1, ok_bind, h2, ok_bind]

theorem decodeYuvlzo_ok {inPixFmt : ℤ}
    (h : 12 + str2ulong ((data.drop 0).take 4) + str2ulong ((data.drop 4).take 4) +
      str2ulong ((data.drop 8).take 4) ≤ data.length) :
    ∃ r, decodeYuvlzo io inPixFmt data dst tmp = .ok r := by
  have hlens := @lzoLengths_ok data (by omega)
  revert h hlens
  generalize str2ulong ((data.drop 0).take 4) = len0
  generalize str2ulong ((data.drop 4).take 4) = len1
  generalize str2ulong ((data.drop 8).take 4) = len2
  intro h hlens
  rw [decodeYuvlzo]
  split_ifs
  · obtain ⟨res, hres⟩ := @lzoLoop_ok io data [(len0, tmp.y), (len1, tmp.u), (len2, tmp.v)] 0 0 (by simp; omega)
    rw [lzoDecompress420into422, hlens, ok_bind]
    dsimp only
    rw [hres, ok_bind]
    rcases res with ⟨_ | sum, planes⟩
    · exact ⟨_, rfl⟩
    · exact ⟨_, rfl⟩
  · obtain ⟨res, hres⟩ := @lzoLoop_ok io data [(len0, dst.y), (len1, dst.u), (len2, dst.v)] 12 0 (by simp; omega)
    rw [lzoDecompressEl, hlens, ok_bind]
    dsimp only
    split_ifs
    · exact ⟨_, rfl⟩
    · rw [hres, ok_bind]
      rcases res with ⟨_ | sum, planes⟩
      · exact ⟨_, rfl⟩
      · exact ⟨_, rfl⟩

/-- A complete frame is decoded. -/
theorem decode_ok {decoderId inPixFmt : ℤ} {file : ℕ} {res : ℤ} (h : bytesNeeded clip decoderId data ≤ data.length) :
    ∃ r, decode clip io decoderId inPixFmt file data res dst tmp = .ok r := by
  rw [bytesNeeded] at h
  rw [decode]
  split_ifs with h420 h420f h422 h422f hlzo
  · rw [if_pos (.inl h420)] at h
    obtain ⟨r, hr⟩ := @decodeYuv420_ok clip io data dst h
    exact ⟨_, by rw [hr, ok_bind]⟩
  · rw [if_pos (.inr h420f)] at h
    obtain ⟨r, hr⟩ := @decodeYuv420f_ok clip io data dst h
    exact ⟨_, by rw [hr, ok_bind]⟩
  · rw [if_neg (not_or.mpr ⟨h420, h420f⟩), if_pos (.inl h422)] at h
    obtain ⟨r, hr⟩ := @decodePlanar422_ok clip data dst .yuvj422p io.ccirToJpegY io.ccirToJpegUV h
    exact ⟨_, by rw [decodeYuv422, hr, ok_bind]⟩
  · rw [if_neg (not_or.mpr ⟨h420, h420f⟩), if_pos (.inr h422f)] at h
    obtain ⟨r, hr⟩ := @decodePlanar422_ok clip data dst .yuv422p io.jpegToCcirY io.jpegToCcirUV h
    exact ⟨_, by rw [decodeYuv422f, hr, ok_bind]⟩
  · rw [if_neg (not_or.mpr ⟨h420, h420f⟩), if_neg (not_or.mpr ⟨h422, h422f⟩), if_pos hlzo] at h
    obtain ⟨r, hr⟩ := @decodeYuvlzo_ok io data dst tmp inPixFmt h
    exact ⟨_, by rw [hr, ok_bind]⟩
  · exact ⟨_, rfl⟩

end Decode

/-! ## The cache holds what was read -/

/-- A slot holds its frame as it was read from the file, up to what the branch that scales does with it. -/
structure Held (clip : Clip) (io : Reader) (slot : Slot) (n : UInt64) : Prop where
  entry : clip.frameList[slot.num.toNat]? = some n
  num_nonneg : 0 ≤ slot.num
  positioned : 0 ≤ io.setVideoPosition (nElFile n).toNat (nElFrame n).toNat
  movie : io.videoCompressorType (nElFile n).toNat ≠ pictureType
  read : 0 < (io.readFrame (nElFile n).toNat (nElFrame n).toNat).1
  size : slot.size = (io.readFrame (nElFile n).toNat (nElFrame n).toNat).1
  fmt : slot.fmt = io.videoCompressorType (nElFile n).toNat
  buffer : ¬ ScalesData clip (io.videoCompressorType (nElFile n).toNat) →
    slot.buffer = (io.readFrame (nElFile n).toNat (nElFrame n).toNat).2

/-- Every slot holds its frame. -/
def CacheHolds (clip : Clip) (io : Reader) (v : Cache) : Prop :=
  ∀ (i : ℕ) (slot : Slot), v[i]? = some (some slot) → ∃ n, Held clip io slot n

theorem cacheHolds_initCache (clip : Clip) (io : Reader) (nSlots : ℕ) : CacheHolds clip io (initCache nSlots) := by
  intro i slot h
  cases List.eq_of_mem_replicate (List.mem_of_getElem? h)

theorem CacheHolds.set {clip : Clip} {io : Reader} {v : Cache} (hv : CacheHolds clip io v) {slot : Slot} {n : UInt64}
    (hslot : Held clip io slot n) (i : ℕ) : CacheHolds clip io (v.set i (some slot)) := by
  intro j other h
  rw [List.getElem?_set] at h
  split_ifs at h
  · obtain rfl := Option.some.inj (Option.some.inj h)
    exact ⟨n, hslot⟩
  · exact hv j other h

/-- What is found is a slot with the number of the frame. -/
theorem getCachedFrame_eq {v : Cache} {frameNum : ℤ} {i : ℕ} {slot : Slot}
    (h : getCachedFrame v frameNum = some (i, slot)) : v[i]? = some (some slot) ∧ slot.num = frameNum := by
  rw [getCachedFrame, Option.bind_eq_bind, Option.bind_eq_some_iff] at h
  obtain ⟨k, hk, h⟩ := h
  rw [Option.bind_eq_bind, Option.bind_eq_some_iff] at h
  obtain ⟨found, hfound, h⟩ := h
  obtain ⟨rfl, rfl⟩ := Prod.mk.inj (Option.some.inj h)
  rw [Option.join_eq_some_iff] at hfound
  obtain ⟨hlt, hnum, -⟩ := List.findIdx?_eq_some_iff_getElem.mp hk
  have hget : v[k] = some found := by
    rw [List.getElem?_eq_getElem hlt] at hfound
    exact Option.some.inj hfound
  rw [hget] at hnum
  exact ⟨hfound, of_decide_eq_true hnum⟩

/-! ## Reading with the cache and without -/

/-- One read, with the planes of the caller. -/
def readStep (clip : Clip) (io : Reader) (s : State) (o : ℤ × Planes) : Exec ((ℤ × Planes) × State) :=
  vjElGetVideoFrame clip io s o.1 o.2

/-- What a read must meet for the cache not to show.  The frame is complete; where it is answered from a slot, it is
not a compressed frame with a quarter of the colour, as the slot holds the number of the decoder in place of the
pixel format, and if its branch scales the data where they lie, the slot has not been used. -/
def Unshown (clip : Clip) (io : Reader) (s : State) (o : ℤ × Planes) : Prop :=
  clip.hasVideo = true → clip.isEmpty = false → ∀ n, clip.frameList[(clampFrame clip o.1).toNat]? = some n →
    let file := (nElFile n).toNat
    let bytes := (io.readFrame file (nElFrame n).toNat).2
    io.videoCompressorType file ≠ pictureType → 0 ≤ io.setVideoPosition file (nElFrame n).toNat →
      bytesNeeded clip (io.videoCompressorType file) bytes ≤ bytes.length ∧
      ∀ i slot, (s.cache.bind fun v => getCachedFrame v (clampFrame clip o.1)) = some (i, slot) →
        (io.videoCompressorType file = codecIdYuvlzo → ¬ isFmt420 (clip.pixfmt file)) ∧
        (ScalesData clip (io.videoCompressorType file) → slot.buffer = bytes)

/-- The state with a cache, and the one without. -/
structure SameClip (clip : Clip) (io : Reader) (cached plain : State) : Prop where
  cache : ∃ v, cached.cache = some v ∧ CacheHolds clip io v
  noCache : plain.cache = none
  lzoTmp : cached.lzoTmp = plain.lzoTmp

section Step

variable {clip : Clip} {io : Reader} {cached plain : State} {n : UInt64} {nframe : ℤ} {dst : Planes}

theorem clampFrame_nonneg (clip : Clip) (nframe : ℤ) : 0 ≤ clampFrame clip nframe := by
  rw [clampFrame]
  omega

/-- What the switch does with a compressed frame depends on the pixel format only where that has a quarter of the
colour. -/
theorem decode_fmt {decoderId fmt fmt' : ℤ} {file : ℕ} {data : List UInt8} {res : ℤ} {tmp : Planes}
    (h : decoderId = codecIdYuvlzo → (isFmt420 fmt ↔ isFmt420 fmt')) :
    decode clip io decoderId fmt file data res dst tmp = decode clip io decoderId fmt' file data res dst tmp := by
  rw [decode, decode]
  split_ifs with h420 h420f h422 h422f hlzo
  · rfl
  · rfl
  · rfl
  · rfl
  · have hlzo' : decodeYuvlzo io fmt data dst tmp = decodeYuvlzo io fmt' data dst tmp := if_congr (h hlzo) rfl rfl
    rw [hlzo']
  · rfl

theorem toNat_le_length (io : Reader) (file frame : ℕ) :
    (io.readFrame file frame).1.toNat ≤ (io.readFrame file frame).2.length := by
  by_cases h : 0 < (io.readFrame file frame).1
  · have hlen := io.read_length file frame h
    omega
  · omega

/-- The frame goes into the cache with the bytes that were read. -/
theorem cacheFrame_buffer (v : Cache) {file frame : ℕ} (h : 0 < (io.readFrame file frame).1) (rest : List UInt8)
    (num fmt : ℤ) :
    cacheFrame v ((io.readFrame file frame).2 ++ rest) (io.readFrame file frame).1 num fmt =
      v.set ((cacheFreeSlot v).getD (cacheFindSlot v num))
        (some ⟨num, fmt, (io.readFrame file frame).1, (io.readFrame file frame).2⟩) := by
  have hlen : (io.readFrame file frame).1.toNat = (io.readFrame file frame).2.length := by
    have := io.read_length file frame h
    omega
  rw [cacheFrame, if_neg (by omega), hlen, List.take_left' rfl]

/-- A read that is not answered from the cache, of a complete frame. -/
theorem read_miss {s : State} (hvideo : (!clip.hasVideo || clip.isEmpty) = false)
    (hmiss : (s.cache.bind fun v => getCachedFrame v (clampFrame clip nframe)) = none)
    (hentry : clip.frameList[(clampFrame clip nframe).toNat]? = some n)
    (hmovie : io.videoCompressorType (nElFile n).toNat ≠ pictureType)
    (hpos : 0 ≤ io.setVideoPosition (nElFile n).toNat (nElFrame n).toNat)
    {r : ℤ × Planes × List UInt8 × Planes}
    (hr : decode clip io (io.videoCompressorType (nElFile n).toNat) (clip.pixfmt (nElFile n).toNat)
      (nElFile n).toNat (io.readFrame (nElFile n).toNat (nElFrame n).toNat).2
      (io.readFrame (nElFile n).toNat (nElFrame n).toNat).1 dst (s.lzoTmp (nElFile n).toNat) = .ok r) :
    ∃ s', vjElGetVideoFrame clip io s nframe dst = .ok ((r.1, r.2.1), s') ∧
      s'.lzoTmp = Function.update s.lzoTmp (nElFile n).toNat r.2.2.2 ∧
      s'.cache =
        if 0 < (io.readFrame (nElFile n).toNat (nElFrame n).toNat).1 then
          s.cache.map fun v => v.set ((cacheFreeSlot v).getD (cacheFindSlot v (clampFrame clip nframe)))
            (some ⟨clampFrame clip nframe, io.videoCompressorType (nElFile n).toNat,
              (io.readFrame (nElFile n).toNat (nElFrame n).toNat).1,
              (io.readFrame (nElFile n).toNat (nElFrame n).toNat).2⟩)
        else s.cache := by
  have hpicture : io.isPicture (nElFile n).toNat = false :=
    Bool.eq_false_iff.mpr fun h => hmovie (io.picture_type _ h)
  have hdecode := decode_append (toNat_le_length io (nElFile n).toNat (nElFrame n).toNat) hr
    ((s.tmpBuffer (nElFile n).toNat).drop (io.readFrame (nElFile n).toNat (nElFrame n).toNat).2.length)
  rw [vjElGetVideoFrame, hvideo, if_neg Bool.false_ne_true]
  dsimp only
  rw [hentry]
  dsimp only
  rw [hmiss]
  dsimp only
  rw [if_neg (by omega), if_neg hmovie, hpicture, if_neg Bool.false_ne_true, readIntoBuffer]
  dsimp only
  rw [Function.update_self, copyPlane, hdecode, ok_bind]
  refine ⟨_, rfl, rfl, ?_⟩
  dsimp only
  split_ifs with hres
  · refine congrArg (fun f => Option.map f s.cache) (funext fun v => ?_)
    exact cacheFrame_buffer v hres _ _ _
  · rfl

/-- A read that is answered from the cache. -/
theorem read_hit {s : State} {i : ℕ} {slot : Slot} (hvideo : (!clip.hasVideo || clip.isEmpty) = false)
    (hhit : (s.cache.bind fun v => getCachedFrame v (clampFrame clip nframe)) = some (i, slot))
    (hentry : clip.frameList[(clampFrame clip nframe).toNat]? = some n)
    (hmovie : io.videoCompressorType (nElFile n).toNat ≠ pictureType)
    {r : ℤ × Planes × List UInt8 × Planes}
    (hr : decode clip io (io.videoCompressorType (nElFile n).toNat) slot.fmt (nElFile n).toNat slot.buffer slot.size
      dst (s.lzoTmp (nElFile n).toNat) = .ok r) :
    ∃ s', vjElGetVideoFrame clip io s nframe dst = .ok ((r.1, r.2.1), s') ∧
      s'.lzoTmp = Function.update s.lzoTmp (nElFile n).toNat r.2.2.2 ∧
      s'.cache = s.cache.map fun v => v.set i (some { slot with buffer := r.2.2.1 }) := by
  rw [vjElGetVideoFrame, hvideo, if_neg Bool.false_ne_true]
  dsimp only
  rw [hentry]
  dsimp only
  rw [hhit]
  dsimp only
  rw [if_neg hmovie, hr, ok_bind]
  exact ⟨_, rfl, rfl, rfl⟩

/-- A read that does not come to the decoder answers what the one without the cache answers. -/
theorem read_undecoded {s : State} (hvideo : (!clip.hasVideo || clip.isEmpty) = false)
    (hmiss : (s.cache.bind fun v => getCachedFrame v (clampFrame clip nframe)) = none)
    (hentry : clip.frameList[(clampFrame clip nframe).toNat]? = some n)
    (h : io.setVideoPosition (nElFile n).toNat (nElFrame n).toNat < 0 ∨
      io.videoCompressorType (nElFile n).toNat = pictureType) :
    vjElGetVideoFrame clip io s nframe dst =
      .ok (if io.setVideoPosition (nElFile n).toNat (nElFrame n).toNat < 0 then (-1, dst)
        else
          match io.framePtr (nElFile n).toNat with
          | none => (-1, dst)
          | some src => (1, ⟨copyPlane src.y dst.y, copyPlane src.u dst.u, copyPlane src.v dst.v⟩), s) := by
  rw [vjElGetVideoFrame, hvideo, if_neg Bool.false_ne_true]
  dsimp only
  rw [hentry]
  dsimp only
  rw [hmiss]
  dsimp only
  by_cases hpos : io.setVideoPosition (nElFile n).toNat (nElFrame n).toNat < 0
  · rw [if_pos hpos, if_pos hpos]
  · rw [if_neg hpos, if_neg hpos, if_pos (h.resolve_left hpos)]
    cases io.framePtr (nElFile n).toNat with
    | none => rfl
    | some src => rfl

/-- **One read.**  If the cache does not show, the read answers the same with it and without it. -/
theorem readStep_agrees {o : ℤ × Planes} (hs : SameClip clip io cached plain) (hok : Unshown clip io cached o) :
    StepAgrees (SameClip clip io) (readStep clip io cached o) (readStep clip io plain o) := by
  obtain ⟨nframe, dst⟩ := o
  obtain ⟨⟨v, hv, hholds⟩, hplain, htmp⟩ := hs
  show StepAgrees _ (vjElGetVideoFrame clip io cached nframe dst) (vjElGetVideoFrame clip io plain nframe dst)
  by_cases hvideo : (!clip.hasVideo || clip.isEmpty) = true
  · refine .inl ⟨(2, vjElDummyFrame clip dst), cached, plain, ?_, ?_, ⟨v, hv, hholds⟩, hplain, htmp⟩
    · rw [vjElGetVideoFrame, if_pos hvideo]
    · rw [vjElGetVideoFrame, if_pos hvideo]
  rw [Bool.not_eq_true] at hvideo
  have hboth := Bool.or_eq_false_iff.mp hvideo
  cases hentry : clip.frameList[(clampFrame clip nframe).toNat]? with
  | none =>
    refine .inr ⟨.outOfBounds, ?_, ?_⟩
    · rw [vjElGetVideoFrame, hvideo, if_neg Bool.false_ne_true]
      dsimp only
      rw [hentry]
    · rw [vjElGetVideoFrame, hvideo, if_neg Bool.false_ne_true]
      dsimp only
      rw [hentry]
  | some n =>
    have hok' := hok (by simpa using hboth.1) hboth.2 n hentry
    have hnone : (plain.cache.bind fun v => getCachedFrame v (clampFrame clip nframe)) = none := by
      rw [hplain]
      rfl
    cases hfound : getCachedFrame v (clampFrame clip nframe) with
    | none =>
      have hmiss : (cached.cache.bind fun v => getCachedFrame v (clampFrame clip nframe)) = none := by
        rw [hv]
        exact hfound
      by_cases hun : io.setVideoPosition (nElFile n).toNat (nElFrame n).toNat < 0 ∨
          io.videoCompressorType (nElFile n).toNat = pictureType
      · exact .inl ⟨_, cached, plain, read_undecoded hvideo hmiss hentry hun,
          read_undecoded hvideo hnone hentry hun, ⟨v, hv, hholds⟩, hplain, htmp⟩
      · obtain ⟨hpos, hmovie⟩ := not_or.mp hun
        rw [not_lt] at hpos
        obtain ⟨hneeded, -⟩ := hok' hmovie hpos
        obtain ⟨r, hr⟩ := @decode_ok clip io _ dst (cached.lzoTmp (nElFile n).toNat) _ (clip.pixfmt (nElFile n).toNat)
          (nElFile n).toNat (io.readFrame (nElFile n).toNat (nElFrame n).toNat).1 hneeded
        obtain ⟨cached', hrun, htmp', hcache'⟩ := read_miss hvideo hmiss hentry hmovie hpos hr
        rw [htmp] at hr
        obtain ⟨plain', hrun', htmp'', hplain'⟩ := read_miss hvideo hnone hentry hmovie hpos hr
        refine .inl ⟨_, cached', plain', hrun, hrun', ?_, ?_, by rw [htmp', htmp'', htmp]⟩
        · rw [hv] at hcache'
          split_ifs at hcache' with hres
          · have hheld : Held clip io ⟨clampFrame clip nframe, io.videoCompressorType (nElFile n).toNat,
                (io.readFrame (nElFile n).toNat (nElFrame n).toNat).1,
                (io.readFrame (nElFile n).toNat (nElFrame n).toNat).2⟩ n :=
              ⟨hentry, clampFrame_nonneg clip nframe, hpos, hmovie, hres, rfl, rfl, fun _ => rfl⟩
            exact ⟨_, hcache', hholds.set hheld _⟩
          · exact ⟨v, hcache', hholds⟩
        · rw [hplain', hplain]
          split_ifs
          · rfl
          · rfl
    | some found =>
      obtain ⟨i, slot⟩ := found
      have hhit : (cached.cache.bind fun v => getCachedFrame v (clampFrame clip nframe)) = some (i, slot) := by
        rw [hv]
        exact hfound
      obtain ⟨hat, hnum⟩ := getCachedFrame_eq hfound
      obtain ⟨n', hheld⟩ := hholds i slot hat
      obtain rfl : n' = n := by
        have h := hheld.entry
        rw [hnum, hentry] at h
        exact (Option.some.inj h).symm
      obtain ⟨hneeded, hsafe⟩ := hok' hheld.movie hheld.positioned
      obtain ⟨hlzo, hfresh⟩ := hsafe i slot hhit
      have hbuffer : slot.buffer = (io.readFrame (nElFile n').toNat (nElFrame n').toNat).2 := by
        by_cases hscales : ScalesData clip (io.videoCompressorType (nElFile n').toNat)
        · exact hfresh hscales
        · exact hheld.buffer hscales
      obtain ⟨r, hr⟩ := @decode_ok clip io _ dst (plain.lzoTmp (nElFile n').toNat) _ (clip.pixfmt (nElFile n').toNat)
        (nElFile n').toNat (io.readFrame (nElFile n').toNat (nElFrame n').toNat).1 hneeded
      obtain ⟨plain', hrun', htmp'', hplain'⟩ := read_miss hvideo hnone hentry hheld.movie hheld.positioned hr
      have hr' : decode clip io (io.videoCompressorType (nElFile n').toNat) slot.fmt (nElFile n').toNat slot.buffer
          slot.size dst (cached.lzoTmp (nElFile n').toNat) = .ok r := by
        rw [hbuffer, hheld.size, hheld.fmt, htmp, ← hr]
        refine decode_fmt fun h => ⟨fun h' => ?_, fun h' => absurd h' (hlzo h)⟩
        rw [h] at h'
        exact absurd h' (by decide)
      obtain ⟨cached', hrun, htmp', hcache'⟩ := read_hit hvideo hhit hentry hheld.movie hr'
      refine .inl ⟨_, cached', plain', hrun, hrun', ?_, ?_, by rw [htmp', htmp'', htmp]⟩
      · rw [hv] at hcache'
        have hheld' : Held clip io { slot with buffer := r.2.2.1 } n' :=
          { hheld with buffer := fun hscales => (decode_data hr' hscales).trans hbuffer }
        exact ⟨_, hcache', hholds.set hheld' i⟩
      · rw [hplain', hplain]
        split_ifs
        · rfl
        · rfl

end Step

/-- **The cache is transparent.**  A run of reads all of which meet `Unshown` gives the same codes and the same planes
with a cache and without one. -/
theorem cache_transparent (clip : Clip) (io : Reader) (s : State) (nSlots : ℕ) (os : List (ℤ × Planes))
    (h : RunMeets (readStep clip io) (Unshown clip io) { s with cache := some (initCache nSlots) } os) :
    SameAnswer (runOps (readStep clip io) { s with cache := some (initCache nSlots) } os)
      (runOps (readStep clip io) { s with cache := none } os) := by
  have hs : SameClip clip io { s with cache := some (initCache nSlots) } { s with cache := none } :=
    ⟨⟨initCache nSlots, rfl, cacheHolds_initCache clip io nSlots⟩, rfl, rfl⟩
  have hstep : ∀ s t o, SameClip clip io s t → Unshown clip io s o →
      StepAgrees (SameClip clip io) (readStep clip io s o) (readStep clip io t o) :=
    fun _ _ _ hs hok => readStep_agrees hs hok
  exact runOps_agree_of_meets hstep os _ _ hs h

/-! ## A picture with the full range -/

/-- `yuv420to422planar` on one plane of a picture of 4 x 2 pixels: the loop over the two columns writes one place of
each row. -/
def columnsOf (src dst : List UInt8) : List UInt8 := (dst.set 0 (src.getD 1 0)).set 2 (src.getD 1 0)

/-- One movie of raw frames of 4 x 2 pixels, and what the tables do with the values of its one frame. -/
def rawReader : Reader where
  setVideoPosition _ _ := 0
  readFrame _ _ := (12, List.replicate 12 200)
  read_length _ _ _ := rfl
  videoCompressorType _ := codecIdYuv420
  isPicture _ := false
  picture_type _ h := by cases h
  framePtr _ := none
  lzo1xDecompress _ dst := (true, 0, dst)
  avDecode _ _ dst := (0, dst)
  yuv420to422planar u v dst := { dst with u := columnsOf u dst.u, v := columnsOf v dst.v }
  ccirToJpegY x := UInt8.ofNat (min 255 (x.toNat * 255 / 219 - 16))
  ccirToJpegUV x := UInt8.ofNat (min 255 (x.toNat * 255 / 224 - 16))
  jpegToCcirY x := UInt8.ofNat (x.toNat * 219 / 255 + 16)
  jpegToCcirUV x := UInt8.ofNat (x.toNat * 224 / 255 + 16)

/-- A list of the one frame. -/
def rawClip (fmt : PixFmt) : Clip where
  hasVideo := true
  isEmpty := false
  totalFrames := 0
  frameList := [elEntry 0 0]
  pixfmt _ := pixFmt .yuv420p
  videoWidth := 4
  videoHeight := 2
  outLen := 8
  outUvLen := 4
  elPixelFormat := pixFmt fmt
  halfColour := true

def rawState : State where
  cache := none
  tmpBuffer _ := []
  lzoTmp _ := ⟨[], [], []⟩

/-- The frame again and again. -/
def rereads (n : ℕ) : List (ℤ × Planes) :=
  List.replicate n (0, ⟨List.replicate 8 0, List.replicate 4 0, List.replicate 4 0⟩)

/-- In a picture without the full range nothing is scaled where it lies. -/
theorem raw_unshown (s : State) (o : ℤ × Planes) : Unshown (rawClip .yuv422p) rawReader s o := by
  intro _ _ n _ file bytes _ _
  have hcodec : ¬ codecIdYuv420 = codecIdYuvlzo := by decide
  refine ⟨?_, fun i slot _ => ⟨fun h => absurd h hcodec, fun h => absurd h.2 (by decide)⟩⟩
  show bytesNeeded (rawClip .yuv422p) codecIdYuv420 (List.replicate 12 200) ≤ (List.replicate 12 (200 : UInt8)).length
  decide

/-- The frame is read three times. -/
theorem raw_transparent :
    SameAnswer (runOps (readStep (rawClip .yuv422p) rawReader) { rawState with cache := some (initCache 2) } (rereads 3))
      (runOps (readStep (rawClip .yuv422p) rawReader) { rawState with cache := none } (rereads 3)) :=
  cache_transparent (rawClip .yuv422p) rawReader rawState 2 (rereads 3) (RunMeets.of_forall raw_unshown _ _)

/-- The luminance of the last picture of a run. -/
def lastLuminance : Exec (List (ℤ × Planes)) → Option (List UInt8)
  | .ok answers => answers.getLast?.map fun answer => answer.2.y
  | .error _ => none

/-- With the full range the third picture is scaled twice: its slot was scaled when the second one was made. -/
theorem raw_shown :
    ¬ SameAnswer
      (runOps (readStep (rawClip .yuvj422p) rawReader) { rawState with cache := some (initCache 2) } (rereads 3))
      (runOps (readStep (rawClip .yuvj422p) rawReader) { rawState with cache := none } (rereads 3)) := by
  intro h
  have hlast := congrArg lastLuminance h
  revert hlast
  decide

end Veejay.FrameCache
