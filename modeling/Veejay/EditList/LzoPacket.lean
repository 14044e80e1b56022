import Veejay.EditList.FrameCache
import Veejay.Net.FrameCodec

/-!
# Recording with LZO

`vj_avcodec_lzo` writes a frame as three lengths and the compressed planes behind them.  The planes are read back by
`lzo_decompress_el`, behind the lengths, and by `lzo_decompress420into422`, which starts at the lengths themselves.

* `vjAvcodecLzo`, `encodeFrame` — the encoder (`libel/vj-avcodec.c`), into the buffer of its size;
* `packetOf` — a packet; `vjAvcodecLzo_spec` — **when the encoder writes it**;
* `lzoDecompressEl_packet`, `lzoDecompress420_packet` — what the two decoders make of a packet;
* `recorded_iff` — **the frames that are recorded without loss.**
-/

namespace Veejay.FrameCache

open CLib Veejay.Net

/-! ## The encoder -/

/-- `lzo_compress`, to `dst + a`: the number of bytes, which is zero where it fails. -/
def lzoCompress (compress : List UInt8 → Option (List UInt8)) (block dst : List UInt8) (a : ℕ) :
    Exec (ℕ × List UInt8) :=
  match compress block with
  | none => .ok (0, dst)
  | some packed => do
    let dst ← overwrite dst a packed
    .ok (packed.length, dst)

/-- `vj_avcodec_lzo` -/
def vjAvcodecLzo (compress : List UInt8 → Option (List UInt8)) (src : Planes) (dst : List UInt8) :
    Exec (ℕ × List UInt8) := do
  let (res, dst) ← lzoCompress compress src.y dst 12
  if res = 0 then .ok (0, dst)
  else do
    let dst ← overwrite dst 0 (long2str res)
    let sum := res
    let (res, dst) ← lzoCompress compress src.u dst (12 + sum)
    if res = 0 then .ok (0, dst)
    else do
      let dst ← overwrite dst 4 (long2str res)
      let sum := sum + res
      let (res, dst) ← lzoCompress compress src.v dst (12 + sum)
      if res = 0 then .ok (0, dst)
      else do
        let sum := sum + res
        let dst ← overwrite dst 8 (long2str res)
        .ok (sum + 12, dst)

/-- `RUP8 (frame->len + frame->uv_len + frame->uv_len)`, the size of `data[0]`, an `int` -/
def encoderSize (f : PrimaryFrame) : Exec ℕ :=
  if f.len + f.uvLen + f.uvLen + 8 < 2 ^ 31 then .ok (rup8 (f.len + f.uvLen + f.uvLen)) else .error .overflow

/-- `vj_avcodec_encode_frame` with `ENCODER_LZO`, into `data[0]`: the bytes of the packet. -/
def encodeFrame (compress : List UInt8 → Option (List UInt8)) (fill : ℕ → UInt8) (f : PrimaryFrame) :
    Exec (List UInt8) := do
  let size ← encoderSize f
  let (len, buf) ← vjAvcodecLzo compress ⟨f.Y, f.Cb, f.Cr⟩ (malloc fill size)
  slice buf 0 len

/-! ## What is asked for -/

/-- The block compression: it does not fail, a compressed block ends with a marker, and gives the block back.  The
conversion of the colour leaves the luminance. -/
structure Lossless (compress : List UInt8 → Option (List UInt8)) (io : Reader) : Prop where
  compresses : ∀ block, ∃ packed, compress block = some packed
  marked : ∀ block packed, compress block = some packed → packed ≠ []
  restores : ∀ block packed dst, compress block = some packed → dst.length = block.length →
    io.lzo1xDecompress packed dst = (true, block.length, block)
  luminance : ∀ u v dst, (io.yuv420to422planar u v dst).y = dst.y

/-- Planes of the sizes of a frame. -/
structure SizedFor (f : PrimaryFrame) (planes : Planes) : Prop where
  y : planes.y.length = f.len
  u : planes.u.length = f.uvLen
  v : planes.v.length = f.uvLen

/-- A frame of 4:2:0 -/
def Is420 (f : PrimaryFrame) : Prop := f.format = .yuv420p ∨ f.format = .yuvj420p

/-- The frame is recorded without loss: `lzo_decompress_el` gives its planes back, and `lzo_decompress420into422` the
luminance of one of 4:2:0. -/
def RecordedLosslessly (compress : List UInt8 → Option (List UInt8)) (io : Reader) (f : PrimaryFrame) : Prop :=
  ∀ fill, Ensures (encodeFrame compress fill f) fun packet =>
    (∀ dst, SizedFor f dst → Ensures (lzoDecompressEl io packet dst) fun r => r.2 = ⟨f.Y, f.Cb, f.Cr⟩) ∧
    (Is420 f → ∀ dst tmp, dst.y.length = f.len → SizedFor f tmp →
      Ensures (lzoDecompress420into422 io packet dst tmp) fun r => r.2.1.y = f.Y)

/-- A packet. -/
def packetOf (y u v : List UInt8) : List UInt8 :=
  long2str y.length ++ (long2str u.length ++ (long2str v.length ++ (y ++ (u ++ v))))

/-- The compressed planes of a frame. -/
structure Blocks (compress : List UInt8 → Option (List UInt8)) (f : PrimaryFrame) (y u v : List UInt8) : Prop where
  y : compress f.Y = some y
  u : compress f.Cb = some u
  v : compress f.Cr = some v

/-- The packet has its room in the buffer of the encoder, whose size is an `int`. -/
def PacketFits (f : PrimaryFrame) (y u v : List UInt8) : Prop :=
  f.len + f.uvLen + f.uvLen + 8 < 2 ^ 31 ∧
    12 + y.length + u.length + v.length ≤ rup8 (f.len + f.uvLen + f.uvLen)

/-- The three blocks of a packet, taken twelve bytes too early, are blocks of LZO as well, and the first one is that of
the luminance. -/
def EarlyDecodes (io : Reader) (f : PrimaryFrame) (y u v : List UInt8) : Prop :=
  ∀ tmp, SizedFor f tmp →
    (∃ n, io.lzo1xDecompress ((packetOf y u v).take y.length) tmp.y = (true, n, f.Y)) ∧
    (io.lzo1xDecompress (((packetOf y u v).drop y.length).take u.length) tmp.u).1 = true ∧
    (io.lzo1xDecompress (((packetOf y u v).drop (y.length + u.length)).take v.length) tmp.v).1 = true

/-! ## Encoding -/

section Encode

variable {compress : List UInt8 → Option (List UInt8)} {io : Reader} {f : PrimaryFrame} {y u v : List UInt8}

theorem lzoCompress_eq {block packed dst : List UInt8} {a : ℕ} (h : compress block = some packed) :
    lzoCompress compress block dst a = overwrite dst a packed >>= fun dst => .ok (packed.length, dst) := by
  rw [lzoCompress, h]

/-- **The encoder writes the packet** exactly where it has its room. -/
theorem vjAvcodecLzo_spec (h : Lossless compress io) (hb : Blocks compress f y u v) {dst : List UInt8} :
    (12 + y.length + u.length + v.length ≤ dst.length →
      Ensures (vjAvcodecLzo compress ⟨f.Y, f.Cb, f.Cr⟩ dst) fun r =>
        r.1 = (packetOf y u v).length ∧ HasAt r.2 0 (packetOf y u v)) ∧
    ∀ r, vjAvcodecLzo compress ⟨f.Y, f.Cb, f.Cr⟩ dst = .ok r → 12 + y.length + u.length + v.length ≤ dst.length := by
  have hy := List.length_pos_iff.mpr (h.marked _ _ hb.y)
  have hu := List.length_pos_iff.mpr (h.marked _ _ hb.u)
  have hv := List.length_pos_iff.mpr (h.marked _ _ hb.v)
  constructor
  · intro hroom
    obtain ⟨b1, h1⟩ := @overwrite_of_le dst y 12 (by omega)
    have l1 := overwrite_length h1
    obtain ⟨b2, h2⟩ := @overwrite_of_le b1 (long2str y.length) 0 (by show 0 + 4 ≤ _; omega)
    have l2 := overwrite_length h2
    obtain ⟨b3, h3⟩ := @overwrite_of_le b2 u (12 + y.length) (by omega)
    have l3 := overwrite_length h3
    obtain ⟨b4, h4⟩ := @overwrite_of_le b3 (long2str u.length) 4 (by show 4 + 4 ≤ _; omega)
    have l4 := overwrite_length h4
    obtain ⟨b5, h5⟩ := @overwrite_of_le b4 v (12 + (y.length + u.length)) (by omega)
    have l5 := overwrite_length h5
    obtain ⟨b6, h6⟩ := @overwrite_of_le b5 (long2str v.length) 8 (by show 8 + 4 ≤ _; omega)
    refine ⟨((y.length + u.length + v.length) + 12, b6), ?_, ?_, ?_⟩
    · rw [vjAvcodecLzo, lzoCompress_eq hb.y, h1, ok_bind]
      simp only [ok_bind]
      rw [if_neg (by omega), h2, ok_bind, lzoCompress_eq hb.u, h3, ok_bind]
      simp only [ok_bind]
      rw [if_neg (by omega), h4, ok_bind, lzoCompress_eq hb.v, h5, ok_bind]
      simp only [ok_bind]
      rw [if_neg (by omega), h6, ok_bind]
    · show _ = (packetOf y u v).length
      rw [packetOf]
      simp only [List.length_append]
      show _ = 4 + (4 + (4 + _))
      omega
    · -- each of the six parts is left by the writes behind it
      have hy1 : HasAt b6 12 y := (((((hasAt_of_overwrite h1).kept h2 (.inr (by show 0 + 4 ≤ 12; omega))).kept h3
        (.inl (by omega))).kept h4 (.inr (by show 4 + 4 ≤ 12; omega))).kept h5 (.inl (by omega))).kept h6
          (.inr (by show 8 + 4 ≤ 12; omega))
      have hl1 : HasAt b6 0 (long2str y.length) :=
        ((((hasAt_of_overwrite h2).kept h3 (.inl (by show 0 + 4 ≤ _; omega))).kept
        h4 (.inl (by show 0 + 4 ≤ 4; omega))).kept h5 (.inl (by show 0 + 4 ≤ _; omega))).kept h6
          (.inl (by show 0 + 4 ≤ 8; omega))
      have hu1 : HasAt b6 (12 + y.length) u :=
        (((hasAt_of_overwrite h3).kept h4 (.inr (by show 4 + 4 ≤ _; omega))).kept h5
        (.inl (by omega))).kept h6 (.inr (by show 8 + 4 ≤ _; omega))
      have hl2 : HasAt b6 4 (long2str u.length) :=
        ((hasAt_of_overwrite h4).kept h5 (.inl (by show 4 + 4 ≤ _; omega))).kept
        h6 (.inl (by show 4 + 4 ≤ 8; omega))
      have hv1 : HasAt b6 (12 + (y.length + u.length)) v :=
        (hasAt_of_overwrite h5).kept h6 (.inr (by show 8 + 4 ≤ _; omega))
      have hl3 : HasAt b6 8 (long2str v.length) := hasAt_of_overwrite h6
      rw [← Nat.add_assoc] at hv1
      exact hl1.append (hl2.append (hl3.append (hy1.append (hu1.append hv1))))
  · intro r hrun
    rw [vjAvcodecLzo, lzoCompress_eq hb.y, bind_eq_ok] at hrun
    obtain ⟨r1, h1, hrun⟩ := hrun
    obtain ⟨b1, hw1, h1⟩ := bind_eq_ok.mp h1
    obtain rfl := Except.ok.inj h1
    dsimp only at hrun
    rw [if_neg (by omega), bind_eq_ok] at hrun
    obtain ⟨b2, hw2, hrun⟩ := hrun
    rw [lzoCompress_eq hb.u, bind_eq_ok] at hrun
    obtain ⟨r3, h3, hrun⟩ := hrun
    obtain ⟨b3, hw3, h3⟩ := bind_eq_ok.mp h3
    obtain rfl := Except.ok.inj h3
    dsimp only at hrun
    rw [if_neg (by omega), bind_eq_ok] at hrun
    obtain ⟨b4, hw4, hrun⟩ := hrun
    rw [lzoCompress_eq hb.v, bind_eq_ok] at hrun
    obtain ⟨r5, h5, hrun⟩ := hrun
    obtain ⟨b5, hw5, h5⟩ := bind_eq_ok.mp h5
    have hroom := (overwrite_eq_ok.mp hw5).1
    have l1 := overwrite_length hw1
    have l2 := overwrite_length hw2
    have l3 := overwrite_length hw3
    have l4 := overwrite_length hw4
    omega

theorem packetOf_length (y u v : List UInt8) : (packetOf y u v).length = 12 + y.length + u.length + v.length := by
  rw [packetOf]
  simp only [List.length_append]
  show 4 + (4 + (4 + _)) = _
  omega

/-- What is recorded, if anything. -/
theorem encodeFrame_spec (h : Lossless compress io) (hb : Blocks compress f y u v) (fill : ℕ → UInt8) :
    (PacketFits f y u v → encodeFrame compress fill f = .ok (packetOf y u v)) ∧
      ∀ packet, encodeFrame compress fill f = .ok packet → PacketFits f y u v := by
  have hspec := @vjAvcodecLzo_spec _ _ _ _ _ _ h hb (malloc fill (rup8 (f.len + f.uvLen + f.uvLen)))
  rw [malloc_length] at hspec
  constructor
  · rintro ⟨hint, hroom⟩
    obtain ⟨⟨n, buf⟩, hrun, hn, hbuf⟩ := hspec.1 hroom
    dsimp only at hn hbuf
    rw [encodeFrame, encoderSize, if_pos hint, ok_bind, hrun, ok_bind]
    exact hbuf.slice hn.symm
  · intro packet hrun
    obtain ⟨size, hsize, hrun⟩ := bind_eq_ok.mp hrun
    obtain ⟨r, hr, -⟩ := bind_eq_ok.mp hrun
    rw [encoderSize] at hsize
    split_ifs at hsize with hint
    obtain rfl := Except.ok.inj hsize
    exact ⟨hint, hspec.2 r hr⟩

end Encode

/-! ## Decoding -/

section Decode

variable {compress : List UInt8 → Option (List UInt8)} {io : Reader} {f : PrimaryFrame} {y u v : List UInt8}

/-- The lengths of a packet. -/
theorem lzoLengths_packet (hy : y.length < 2 ^ 32) (hu : u.length < 2 ^ 32) (hv : v.length < 2 ^ 32) :
    lzoLengths (packetOf y u v) = .ok (y.length, u.length, v.length) := by
  rw [lzoLengths_ok (by rw [packetOf_length]; omega)]
  refine congrArg Except.ok (Prod.ext ?_ (Prod.ext ?_ ?_))
  · exact str2ulong_long2str hy
  · exact str2ulong_long2str hu
  · exact str2ulong_long2str hv

/-- Three blocks, one behind the other. -/
theorem lzoLoop_three {linbuf s1 s2 s3 p1 p2 p3 : List UInt8} {offset n1 n2 n3 : ℕ} (h1 : n1 ≠ 0) (h2 : n2 ≠ 0)
    (h3 : n3 ≠ 0) (hs1 : slice linbuf offset n1 = .ok s1) (hs2 : slice linbuf (offset + n1 : ℕ) n2 = .ok s2)
    (hs3 : slice linbuf (offset + n1 + n2 : ℕ) n3 = .ok s3) :
    ∃ res planes, lzoLoop io linbuf offset 0 [(n1, p1), (n2, p2), (n3, p3)] = .ok (res, planes) ∧
      (res.isSome = true ↔ (io.lzo1xDecompress s1 p1).1 = true ∧ (io.lzo1xDecompress s2 p2).1 = true ∧
        (io.lzo1xDecompress s3 p3).1 = true) ∧
      (res.isSome = true → planes = [(io.lzo1xDecompress s1 p1).2.2, (io.lzo1xDecompress s2 p2).2.2,
        (io.lzo1xDecompress s3 p3).2.2]) := by
  rw [lzoLoop, if_neg h1, hs1, ok_bind]
  obtain ⟨ok1, r1, d1⟩ := io.lzo1xDecompress s1 p1
  cases ok1 with
  | false => exact ⟨none, _, rfl, by simp, fun h => absurd h (by simp)⟩
  | true =>
    dsimp only
    rw [lzoLoop, if_neg h2, hs2, ok_bind]
    obtain ⟨ok2, r2, d2⟩ := io.lzo1xDecompress s2 p2
    cases ok2 with
    | false => exact ⟨none, _, rfl, by simp, fun h => absurd h (by simp)⟩
    | true =>
      dsimp only
      rw [lzoLoop, if_neg h3, hs3, ok_bind]
      obtain ⟨ok3, r3, d3⟩ := io.lzo1xDecompress s3 p3
      cases ok3 with
      | false => exact ⟨none, _, rfl, by simp, fun h => absurd h (by simp)⟩
      | true => exact ⟨some _, _, rfl, by simp, fun _ => rfl⟩

/-- The compressed planes lie behind the lengths. -/
theorem packetOf_blocks (y u v : List UInt8) : HasAt (packetOf y u v) 12 y ∧
    HasAt (packetOf y u v) (12 + y.length) u ∧ HasAt (packetOf y u v) (12 + y.length + u.length) v := by
  have hall : HasAt (packetOf y u v) 0 (packetOf y u v) := ⟨by omega, by rw [List.drop_zero, List.take_length]⟩
  have hyuv : HasAt (packetOf y u v) 12 (y ++ (u ++ v)) := hall.right.right.right
  exact ⟨hyuv.left, hyuv.right.left, hyuv.right.right⟩

/-- **`lzo_decompress_el` gives the planes back.** -/
theorem lzoDecompressEl_packet (h : Lossless compress io) (hb : Blocks compress f y u v) (hfits : PacketFits f y u v)
    {dst : Planes} (hdst : SizedFor f dst) :
    Ensures (lzoDecompressEl io (packetOf y u v) dst) fun r => r.2 = ⟨f.Y, f.Cb, f.Cr⟩ := by
  obtain ⟨hint, hroom⟩ := hfits
  have hrup : rup8 (f.len + f.uvLen + f.uvLen) ≤ f.len + f.uvLen + f.uvLen + 8 := Nat.sub_le _ _
  have hy := List.length_pos_iff.mpr (h.marked _ _ hb.y)
  have hu := List.length_pos_iff.mpr (h.marked _ _ hb.u)
  have hv := List.length_pos_iff.mpr (h.marked _ _ hb.v)
  obtain ⟨hasY, hasU, hasV⟩ := packetOf_blocks y u v
  obtain ⟨res, planes, hloop, hok, hplanes⟩ := @lzoLoop_three io (packetOf y u v) y u v dst.y dst.u dst.v 12 _ _ _
    (by omega) (by omega) (by omega) (hasY.slice rfl) (hasU.slice rfl) (hasV.slice rfl)
  have hry := h.restores _ _ dst.y hb.y (by rw [hdst.y]; exact f.Y_length.symm)
  have hru := h.restores _ _ dst.u hb.u (by rw [hdst.u]; exact f.Cb_length.symm)
  have hrv := h.restores _ _ dst.v hb.v (by rw [hdst.v]; exact f.Cr_length.symm)
  rw [hry, hru, hrv] at hok hplanes
  have hsome := hok.mpr ⟨rfl, rfl, rfl⟩
  obtain ⟨sum, rfl⟩ := Option.isSome_iff_exists.mp hsome
  obtain rfl := hplanes hsome
  refine ⟨(sum, ⟨f.Y, f.Cb, f.Cr⟩), ?_, rfl⟩
  rw [lzoDecompressEl, lzoLengths_packet (by omega) (by omega) (by omega), ok_bind]
  dsimp only
  rw [if_neg (by omega), hloop, ok_bind]
  rfl

/-- A plane that is copied over any other one of its length is the whole plane. -/
theorem copyPlane_eq_iff {t p : List UInt8} :
    (∀ d : List UInt8, d.length = p.length → copyPlane t d = p) ↔ t = p := by
  constructor
  · intro h
    have h0 := h (List.replicate p.length 0) List.length_replicate
    have h1 := h (List.replicate p.length 1) List.length_replicate
    rw [copyPlane, List.drop_replicate] at h0 h1
    have hrest := List.append_cancel_left (h0.trans h1.symm)
    have hlen : p.length - t.length = 0 := by
      by_contra hpos
      obtain ⟨k, hk⟩ := Nat.exists_eq_succ_of_ne_zero hpos
      rw [hk, List.replicate_succ, List.replicate_succ] at hrest
      exact absurd (List.cons.inj hrest).1 (by decide)
    rw [hlen, List.replicate_zero, List.append_nil] at h0
    exact h0
  · rintro rfl d hd
    rw [copyPlane, ← hd, List.drop_length, List.append_nil]

/-- **`lzo_decompress420into422` takes the blocks twelve bytes too early.** -/
theorem lzoDecompress420_packet (h : Lossless compress io) (hb : Blocks compress f y u v) (hfits : PacketFits f y u v) :
    (∀ dst tmp, dst.y.length = f.len → SizedFor f tmp →
      Ensures (lzoDecompress420into422 io (packetOf y u v) dst tmp) fun r => r.2.1.y = f.Y) ↔
      EarlyDecodes io f y u v := by
  obtain ⟨hint, hroom⟩ := hfits
  have hrup : rup8 (f.len + f.uvLen + f.uvLen) ≤ f.len + f.uvLen + f.uvLen + 8 := Nat.sub_le _ _
  have hy := List.length_pos_iff.mpr (h.marked _ _ hb.y)
  have hu := List.length_pos_iff.mpr (h.marked _ _ hb.u)
  have hv := List.length_pos_iff.mpr (h.marked _ _ hb.v)
  have hlen := packetOf_length y u v
  have hpos := f.len_pos
  have hflen : f.Y.length = f.len := f.Y_length
  have hs1 : slice (packetOf y u v) (0 : ℕ) y.length = .ok ((packetOf y u v).take y.length) :=
    slice_of_le (by omega) (by omega)
  have hs2 : slice (packetOf y u v) (0 + y.length : ℕ) u.length =
      .ok (((packetOf y u v).drop y.length).take u.length) := by
    rw [Nat.zero_add]
    exact slice_of_le (by omega) (by omega)
  have hs3 : slice (packetOf y u v) (0 + y.length + u.length : ℕ) v.length =
      .ok (((packetOf y u v).drop (y.length + u.length)).take v.length) := by
    rw [Nat.zero_add]
    exact slice_of_le (by omega) (by omega)
  have hrun : ∀ dst tmp : Planes, ∃ res planes, lzoDecompress420into422 io (packetOf y u v) dst tmp =
      (match res with
        | none => .ok (0, dst, planesOf planes tmp)
        | some sum => .ok ((sum : ℕ), io.yuv420to422planar (planesOf planes tmp).u (planesOf planes tmp).v
            { dst with y := copyPlane (planesOf planes tmp).y dst.y }, planesOf planes tmp)) ∧
      (res.isSome = true ↔ (io.lzo1xDecompress ((packetOf y u v).take y.length) tmp.y).1 = true ∧
        (io.lzo1xDecompress (((packetOf y u v).drop y.length).take u.length) tmp.u).1 = true ∧
        (io.lzo1xDecompress (((packetOf y u v).drop (y.length + u.length)).take v.length) tmp.v).1 = true) ∧
      (res.isSome = true → (planesOf planes tmp).y =
        (io.lzo1xDecompress ((packetOf y u v).take y.length) tmp.y).2.2) := by
    intro dst tmp
    obtain ⟨res, planes, hloop, hok, hplanes⟩ := @lzoLoop_three io (packetOf y u v) _ _ _ tmp.y tmp.u tmp.v 0 _ _ _
      (by omega) (by omega) (by omega) hs1 hs2 hs3
    refine ⟨res, planes, ?_, hok, fun hsome => by rw [hplanes hsome]; rfl⟩
    rw [lzoDecompress420into422, lzoLengths_packet (by omega) (by omega) (by omega), ok_bind]
    dsimp only
    rw [hloop, ok_bind]
    cases res <;> rfl
  constructor
  · intro hall tmp htmp
    -- a plane that differs from the luminance shows that the blocks were decoded
    have hother : ∃ d : List UInt8, d.length = f.len ∧ d ≠ f.Y := by
      rcases em (f.Y = List.replicate f.len 0) with heq | hne
      · refine ⟨List.replicate f.len 1, List.length_replicate, fun hd => ?_⟩
        rw [heq] at hd
        obtain ⟨k, hk⟩ := Nat.exists_eq_succ_of_ne_zero hpos.ne'
        rw [hk, List.replicate_succ, List.replicate_succ] at hd
        exact absurd (List.cons.inj hd).1 (by decide)
      · exact ⟨List.replicate f.len 0, List.length_replicate, fun hd => hne hd.symm⟩
    obtain ⟨d, hd, hdne⟩ := hother
    obtain ⟨res, planes, heq, hok, -⟩ := hrun ⟨d, tmp.u, tmp.v⟩ tmp
    have hdec := hall ⟨d, tmp.u, tmp.v⟩ tmp hd htmp
    rw [heq] at hdec
    cases res with
    | none => exact absurd ((ensures_ok _ _).mp hdec) hdne
    | some sum =>
      obtain ⟨hok1, hok2, hok3⟩ := hok.mp rfl
      refine ⟨⟨(io.lzo1xDecompress ((packetOf y u v).take y.length) tmp.y).2.1, ?_⟩, hok2, hok3⟩
      have hplane : (io.lzo1xDecompress ((packetOf y u v).take y.length) tmp.y).2.2 = f.Y := by
        refine copyPlane_eq_iff.mp fun d' hd' => ?_
        obtain ⟨res', planes', heq', hok', hplanes'⟩ := hrun ⟨d', tmp.u, tmp.v⟩ tmp
        have hsome' := hok'.mpr ⟨hok1, hok2, hok3⟩
        obtain ⟨sum', rfl⟩ := Option.isSome_iff_exists.mp hsome'
        have hdec' := hall ⟨d', tmp.u, tmp.v⟩ tmp (hd'.trans hflen) htmp
        rw [heq', ensures_ok] at hdec'
        rw [h.luminance, hplanes' rfl] at hdec'
        exact hdec'
      exact Prod.ext hok1 (Prod.ext rfl hplane)
  · intro hearly dst tmp hdst htmp
    obtain ⟨⟨n, hfirst⟩, hok2, hok3⟩ := hearly tmp htmp
    obtain ⟨res, planes, heq, hok, hplanes⟩ := hrun dst tmp
    have hsome := hok.mpr ⟨by rw [hfirst], hok2, hok3⟩
    obtain ⟨sum, rfl⟩ := Option.isSome_iff_exists.mp hsome
    rw [heq, ensures_ok]
    show (io.yuv420to422planar _ _ _).y = f.Y
    rw [h.luminance, hplanes rfl, hfirst]
    exact copyPlane_eq_iff.mpr rfl dst.y (hdst.trans hflen.symm)

/-- **The frames that are recorded without loss**: the packet has its room, and the frame is not one of 4:2:0, unless
the blocks that begin twelve bytes too early happen to decode to it. -/
theorem recorded_iff (h : Lossless compress io) (f : PrimaryFrame) :
    RecordedLosslessly compress io f ↔ ∃ y u v, Blocks compress f y u v ∧ PacketFits f y u v ∧
      (Is420 f → EarlyDecodes io f y u v) := by
  obtain ⟨y, hy⟩ := h.compresses f.Y
  obtain ⟨u, hu⟩ := h.compresses f.Cb
  obtain ⟨v, hv⟩ := h.compresses f.Cr
  have hb : Blocks compress f y u v := ⟨hy, hu, hv⟩
  constructor
  · intro hrec
    obtain ⟨packet, hrun, -, h420⟩ := hrec fun _ => 0
    have hfits := (encodeFrame_spec h hb _).2 packet hrun
    obtain rfl := Except.ok.inj (((encodeFrame_spec h hb fun _ => 0).1 hfits).symm.trans hrun)
    exact ⟨y, u, v, hb, hfits, fun his => (lzoDecompress420_packet h hb hfits).mp (h420 his)⟩
  · rintro ⟨y', u', v', hb', hfits, hearly⟩ fill
    rw [(encodeFrame_spec h hb' fill).1 hfits, ensures_ok]
    exact ⟨fun dst hdst => lzoDecompressEl_packet h hb' hfits hdst,
      fun his => (lzoDecompress420_packet h hb' hfits).mpr (hearly his)⟩

end Decode

/-! ## Black frames -/

def zeros (n : ℕ) : List UInt8 := List.replicate n 0

theorem zeros_length (n : ℕ) : (zeros n).length = n := List.length_replicate

/-- What `lzo1x_1_compress` makes of `n` zeros, for the sizes of the planes below: four literals, a match of distance
four, sixteen literals, and the marker. -/
def packedZeros (n : ℕ) : List UInt8 :=
  [1, 0, 0, 0, 0, 32, UInt8.ofNat (n - 53), 12, 0, 13] ++ (zeros 16 ++ [17, 0, 0])

/-- A compression that treats these blocks in this way, and all others as literals. -/
def packZeros (block : List UInt8) : Option (List UInt8) :=
  some (if block = zeros 256 then packedZeros 256
    else if block = zeros 128 then packedZeros 128
    else if block = zeros 64 then packedZeros 64
    else 255 :: (block ++ [17, 0, 0]))

def unpackLiterals (src dst : List UInt8) : Bool × ℕ × List UInt8 :=
  if src.head? = some 255 then (true, src.length - 4, src.tail.take (src.length - 4)) else (false, 0, dst)

def unpackZeros (src dst : List UInt8) : Bool × ℕ × List UInt8 :=
  if src = packedZeros 256 then (true, 256, zeros 256)
  else if src = packedZeros 128 then (true, 128, zeros 128)
  else if src = packedZeros 64 then (true, 64, zeros 64)
  else unpackLiterals src dst

/-- The reader with this compression. -/
def zerosReader : Reader := { rawReader with lzo1xDecompress := unpackZeros }

theorem zerosReader_lossless : Lossless packZeros zerosReader where
  compresses _ := ⟨_, rfl⟩
  marked block packed h := by
    obtain rfl := Option.some.inj h
    split_ifs <;> exact List.cons_ne_nil _ _
  restores block packed dst h _ := by
    obtain rfl := Option.some.inj h
    show unpackZeros _ dst = _
    split_ifs with h256 h128 h64
    · rw [unpackZeros, if_pos rfl, h256, zeros_length]
    · rw [unpackZeros, if_neg (by decide), if_pos rfl, h128, zeros_length]
    · rw [unpackZeros, if_neg (by decide), if_neg (by decide), if_pos rfl, h64, zeros_length]
    · have hne : ∀ n, 255 :: (block ++ [17, 0, 0]) ≠ packedZeros n := fun n h =>
        absurd (List.cons.inj h).1 (by decide)
      have hlen : (255 :: (block ++ [17, 0, 0])).length - 4 = block.length := by
        rw [List.length_cons, List.length_append]
        rfl
      rw [unpackZeros, if_neg (hne 256), if_neg (hne 128), if_neg (hne 64), unpackLiterals, List.head?_cons, if_pos rfl,
        hlen, List.tail_cons, List.take_left' rfl]
  luminance _ _ _ := rfl

/-- A black frame of 16 x 16 pixels. -/
def blackFrame (fmt : PixFmt) : PrimaryFrame where
  width := 16
  height := 16
  format := fmt
  Y := zeros 256
  Cb := zeros (fmt.uvLen 16 16)
  Cr := zeros (fmt.uvLen 16 16)
  mcastMode := 0
  width_pos := by decide
  height_pos := by decide
  width_even := rfl
  height_even := rfl
  Y_length := List.length_replicate
  Cb_length := List.length_replicate
  Cr_length := List.length_replicate

theorem zeros_ne {m n : ℕ} (h : m ≠ n) : zeros m ≠ zeros n := fun heq =>
  h (by rw [← zeros_length m, ← zeros_length n, heq])

theorem blocks_422 : Blocks packZeros (blackFrame .yuv422p) (packedZeros 256) (packedZeros 128) (packedZeros 128) := by
  have h : packZeros (zeros 128) = some (packedZeros 128) := by
    rw [packZeros, if_neg (zeros_ne (by decide)), if_pos rfl]
  refine ⟨?_, h, h⟩
  show packZeros (zeros 256) = _
  rw [packZeros, if_pos rfl]

theorem blocks_420 : Blocks packZeros (blackFrame .yuv420p) (packedZeros 256) (packedZeros 64) (packedZeros 64) := by
  have h : packZeros (zeros 64) = some (packedZeros 64) := by
    rw [packZeros, if_neg (zeros_ne (by decide)), if_neg (zeros_ne (by decide)), if_pos rfl]
  refine ⟨?_, h, h⟩
  show packZeros (zeros 256) = _
  rw [packZeros, if_pos rfl]

/-- A black frame of 4:2:2 is recorded without loss. -/
theorem black_422_recorded : RecordedLosslessly packZeros zerosReader (blackFrame .yuv422p) := by
  refine (recorded_iff zerosReader_lossless _).mpr ⟨_, _, _, blocks_422, ⟨by decide, by decide⟩, fun h => ?_⟩
  rcases h with h | h <;> cases h

/-- One of 4:2:0 is not: its luminance is decoded from the lengths on. -/
theorem black_420_lost : Lossless packZeros zerosReader ∧
    ¬ RecordedLosslessly packZeros zerosReader (blackFrame .yuv420p) := by
  refine ⟨zerosReader_lossless, fun hrec => ?_⟩
  have hfits : PacketFits (blackFrame .yuv420p) (packedZeros 256) (packedZeros 64) (packedZeros 64) :=
    ⟨by decide, by decide⟩
  obtain ⟨packet, hrun, -, h420⟩ := hrec fun _ => 0
  obtain rfl := Except.ok.inj (((encodeFrame_spec zerosReader_lossless blocks_420 fun _ => 0).1 hfits).symm.trans hrun)
  have hearly := (lzoDecompress420_packet zerosReader_lossless blocks_420 hfits).mp (h420 (.inl rfl))
  obtain ⟨⟨n, hfirst⟩, -, -⟩ := hearly ⟨zeros 256, zeros 64, zeros 64⟩
    ⟨zeros_length 256, zeros_length 64, zeros_length 64⟩
  have hfail : (unpackZeros ((packetOf (packedZeros 256) (packedZeros 64) (packedZeros 64)).take 29) (zeros 256)).1 =
      false := by decide
  exact Bool.false_ne_true (hfail.symm.trans (congrArg Prod.fst hfirst))

end Veejay.FrameCache
