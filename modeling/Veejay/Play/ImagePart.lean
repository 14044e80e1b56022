import Veejay.CLib.FixedWidth

/-!
# Parts of the image

A client asks for a region of the frame, with or without its chroma planes (`vj_event_get_image_part`).  Where the
compositor keeps a copy of the frame before it is projected (its *mirror planes*), the region is taken from there; the
copy holds the rows that the request before this one named, put to the front.

* `Setup`, `Memory` — the frame and the compositor, and what lies in memory;
* `compositeGetOriginalFrame`, `compositeGetTop` — where the planes come from;
* `vjEventGetImagePart` — the reply;
* `rectangle`, `PartSent` — the region of a plane, and the reply that a client expects;
* `imagePart_iff` — **exactly which regions are sent**.
-/

namespace Veejay.ImagePart

open CLib

/-! ## Frames -/

/-- The memory from a plane on. -/
abbrev Plane := ℕ → UInt8

/-- `frame.data` -/
structure Planes where
  y : Plane
  cb : Plane
  cr : Plane

/-- `VJFrame`, less what is not looked at. -/
structure VJFrame where
  width : ℕ
  height : ℕ
  uvWidth : ℕ
  uvHeight : ℕ
  shiftH : ℕ
  shiftV : ℕ

/-- `yuv_yuv_template`, for planes of 4:2:2.  Nothing sets the shifts: they are as `vj_calloc` leaves them. -/
def yuvTemplate (w h : ℕ) : VJFrame := ⟨w, h, w / 2, h, 0, 0⟩

/-- `composite_t`: whether the projection is active, whether it has another size, and the rows of the mirror planes, if
there are any. -/
structure Composite where
  vp1Active : Bool
  scaled : Bool
  mirrorRows : Option (ℕ × ℕ)

/-- The video output, and the compositor, unless veejay was started without it. -/
structure Setup where
  videoOutputWidth : ℕ
  videoOutputHeight : ℕ
  /-- both are an `int` -/
  sizeInt : videoOutputWidth < 2 ^ 31 ∧ videoOutputHeight < 2 ^ 31
  composite : Option Composite
  mode : ℕ

/-- `v->effect_frame1` -/
def Setup.effectFrame1 (s : Setup) : VJFrame := yuvTemplate s.videoOutputWidth s.videoOutputHeight

/-- The frame that is played, the planes of the projection, and the mirror planes as they were before. -/
structure Memory where
  primary : Planes
  proj : Planes
  older : Planes

/-- Zeroes. -/
def blankMemory : Memory :=
  ⟨⟨fun _ => 0, fun _ => 0, fun _ => 0⟩, ⟨fun _ => 0, fun _ => 0, fun _ => 0⟩, ⟨fun _ => 0, fun _ => 0, fun _ => 0⟩⟩

/-! ## The compositor -/

/-- `n` rows of a plane are copied to the front of another one. -/
def copyRows (stride start n : ℕ) (input older : Plane) : Plane :=
  fun k => if k < n * stride then input (start * stride + k) else older k

/-- The rows that `composite_process` copies: the first of them, and how many. -/
def copiedRows (frame : VJFrame) (rows : ℕ × ℕ) : ℕ × ℕ :=
  if rows.1 = 0 ∧ (rows.2 = frame.height ∨ rows.2 = 0) then (0, frame.height) else (rows.1, rows.2 - rows.1)

/-- The mirror planes, which `composite_process` fills with every frame. -/
def mirrorPlanes (frame : VJFrame) (rows : ℕ × ℕ) (mem : Memory) : Planes :=
  let (start, n) := copiedRows frame rows
  { y := copyRows frame.width start n mem.primary.y mem.older.y
    cb := copyRows frame.uvWidth start n mem.primary.cb mem.older.cb
    cr := copyRows frame.uvWidth start n mem.primary.cr mem.older.cr }

/-- `composite_get_original_frame`: the mirror planes, if there are any. -/
def compositeGetOriginalFrame (frame : VJFrame) (c : Composite) (mem : Memory) : Option Planes :=
  c.mirrorRows.map fun rows => mirrorPlanes frame rows mem

/-- `composite_get_top` -/
def compositeGetTop (c : Composite) (mode : ℕ) (mem : Memory) : Planes :=
  if c.vp1Active then mem.proj
  else if c.scaled ∧ mode = 2 then mem.proj
  else if mode = 1 then mem.proj
  else mem.primary

/-! ## The reply -/

/-- The bytes that two nested loops read: for each row, its columns. -/
def gather (plane : Plane) (stride : ℕ) (rows cols : List ℕ) : List UInt8 :=
  rows.flatMap fun i => cols.map fun j => plane (i * stride + j)

/-- `for (i = lo; i < hi; i ++)`, where `i` is unsigned. -/
def countTo (lo : ℕ) (hi : ℤ) : List ℕ := List.range' lo ((hi % 2 ^ 32).toNat - lo)

/-- `SEND_DATA (v, start_addr, len)`: all bytes of the buffer are to be written. -/
def sendBuffer (len : ℕ) (bytes : List UInt8) : Exec (List UInt8) :=
  if len < bytes.length then .error .overrun
  else if bytes.length < len then .error .uninitialised
  else .ok bytes

/-- What is sent: the header, and the data. -/
structure Reply where
  header : List UInt8
  data : List UInt8
  deriving DecidableEq

/-- `SEND_MSG (v, "00000000")` -/
def refused : Reply := ⟨lit "00000000", []⟩

/-- The region that is asked for, as it was checked. -/
structure Region where
  x : ℕ
  y : ℕ
  w : ℕ
  h : ℕ

/-- `len` -/
def partLength (frame : VJFrame) (r : Region) (yOnly : Bool) : ℕ :=
  let uw := r.w >>> frame.shiftH
  let uh := r.h >>> frame.shiftV
  if yOnly then r.w * r.h else r.w * r.h + uw * uh + uw * uh

/-- The bytes that the loops read. -/
def partBytes (frame : VJFrame) (c : Composite) (mode : ℕ) (mem : Memory) (r : Region) (yOnly : Bool) : List UInt8 :=
  let uw := r.w >>> frame.shiftH
  let uh := r.h >>> frame.shiftV
  let ux := r.x >>> frame.shiftH
  let uy := r.y >>> frame.shiftV
  let original := compositeGetOriginalFrame frame c mem
  let nobackplane := original.isNone
  let data := original.getD (compositeGetTop c mode mem)
  -- the mirror planes begin with the first row of the region
  let rows := if nobackplane then countTo r.y (r.h + r.y) else countTo 0 (r.h - r.y)
  let luma := gather data.y frame.width rows (countTo r.x (r.w + r.x))
  let uvRows := if nobackplane then countTo uy (uh + uy) else countTo 0 (uh - uy)
  let uvCols := countTo ux (uw + ux)
  if yOnly then luma
  else luma ++ (gather data.cb frame.uvWidth uvRows uvCols ++ gather data.cr frame.uvHeight uvRows uvCols)

/-- The part of `vj_event_get_image_part` behind its checks. -/
def sendPart (s : Setup) (mem : Memory) (r : Region) (yOnly : Bool) : Exec Reply :=
  match s.composite with
  | none => .error .nullPointer
  | some c => do
    let len := partLength s.effectFrame1 r yOnly
    let bytes ← sendBuffer len (partBytes s.effectFrame1 c s.mode mem r yOnly)
    .ok ⟨(zeroPadded 8 len).take 8, bytes⟩

/-- The arguments that are accepted. -/
def Accepted (s : Setup) (x y w h yOnly : ℤ) : Prop :=
  (0 ≤ yOnly ∧ yOnly ≤ 1) ∧ (0 ≤ x ∧ x ≤ s.videoOutputWidth) ∧ (0 ≤ y ∧ y ≤ s.videoOutputHeight) ∧
    (0 ≤ w ∧ w ≤ s.videoOutputWidth - x) ∧ (0 ≤ h ∧ h ≤ s.videoOutputHeight - y)

instance (s : Setup) (x y w h yOnly : ℤ) : Decidable (Accepted s x y w h yOnly) := inferInstanceAs (Decidable (_ ∧ _))

/-- `vj_event_get_image_part` -/
def vjEventGetImagePart (s : Setup) (mem : Memory) (x y w h yOnly : ℤ) : Exec Reply :=
  if Accepted s x y w h yOnly then sendPart s mem ⟨x.toNat, y.toNat, w.toNat, h.toNat⟩ (yOnly = 1) else .ok refused

/-! ## What is expected -/

/-- The frame that a client asks for: the one before it is projected, where the compositor keeps it, and else the one
that is on top. -/
def currentFrame (s : Setup) (mem : Memory) : Planes :=
  match s.composite with
  | none => mem.primary
  | some c => if c.mirrorRows.isSome then mem.primary else compositeGetTop c s.mode mem

/-- A rectangle of a plane, in row order. -/
def rectangle (plane : Plane) (stride : ℕ) (r : Region) : List UInt8 :=
  gather plane stride (List.range' r.y r.h) (List.range' r.x r.w)

/-- The region in the planes of 4:2:2, which have half of the columns. -/
def Region.chroma (r : Region) : Region := ⟨r.x / 2, r.y, r.w / 2, r.h⟩

/-- The bytes of a region. -/
def expected (s : Setup) (mem : Memory) (r : Region) (yOnly : Bool) : List UInt8 :=
  let planes := currentFrame s mem
  let luma := rectangle planes.y s.videoOutputWidth r
  if yOnly then luma
  else luma ++ (rectangle planes.cb (s.videoOutputWidth / 2) r.chroma ++
    rectangle planes.cr (s.videoOutputWidth / 2) r.chroma)

/-- **The property**, whatever the planes hold: the bytes of the region are sent behind their number. -/
def PartSent (s : Setup) (x y w h yOnly : ℤ) : Prop :=
  ∀ mem, ∃ reply, vjEventGetImagePart s mem x y w h yOnly = .ok reply ∧
    reply.data = expected s mem ⟨x.toNat, y.toNat, w.toNat, h.toNat⟩ (yOnly = 1) ∧
    reply.header = zeroPadded 8 reply.data.length

/-- The rows of the mirror planes are those of the frame from the first one on, up to row `h`. -/
def MirrorReaches (s : Setup) (h : ℕ) (rows : ℕ × ℕ) : Prop :=
  rows.1 = 0 ∧ (rows.2 = 0 ∨ rows.2 = s.videoOutputHeight ∨ h ≤ rows.2)

/-- **The regions that are sent**: there is a compositor; no column is asked for, or no row, or luminance only; and with
mirror planes, the region begins with the first row, and its rows were copied. -/
def PartFits (s : Setup) (r : Region) (yOnly : Bool) : Prop :=
  ∃ c, s.composite = some c ∧ (r.w = 0 ∨ r.h = 0 ∧ (c.mirrorRows = none ∨ r.y = 0) ∨
    yOnly = true ∧ r.w * r.h < 10 ^ 8 ∧ ∀ rows, c.mirrorRows = some rows → r.y = 0 ∧ MirrorReaches s r.h rows)

/-! ## Loops -/

theorem gather_length (plane : Plane) (stride : ℕ) (rows cols : List ℕ) :
    (gather plane stride rows cols).length = rows.length * cols.length := by
  rw [gather, List.length_flatMap]
  simp only [List.length_map, List.map_const', List.sum_replicate, smul_eq_mul]

theorem gather_no_rows (plane : Plane) (stride : ℕ) (cols : List ℕ) : gather plane stride [] cols = [] := rfl

theorem gather_no_cols (plane : Plane) (stride : ℕ) (rows : List ℕ) : gather plane stride rows [] = [] :=
  List.flatMap_eq_nil_iff.mpr fun _ _ => rfl

theorem gather_congr {p q : Plane} {stride : ℕ} {rows cols : List ℕ}
    (h : ∀ i ∈ rows, ∀ j ∈ cols, p (i * stride + j) = q (i * stride + j)) :
    gather p stride rows cols = gather q stride rows cols :=
  List.flatMap_congr fun i hi => List.map_congr_left fun j hj => h i hi j hj

/-- Where the loops read the same, they read the same at every place. -/
theorem gather_inj {p q : Plane} {stride : ℕ} {rows cols : List ℕ}
    (h : gather p stride rows cols = gather q stride rows cols) :
    ∀ i ∈ rows, ∀ j ∈ cols, p (i * stride + j) = q (i * stride + j) := by
  induction rows with
  | nil => exact fun i hi => absurd hi List.not_mem_nil
  | cons i rows ih =>
    obtain ⟨hrow, hrest⟩ := List.append_inj h (by rw [List.length_map, List.length_map])
    refine List.forall_mem_cons.mpr ⟨fun j hj => ?_, ih hrest⟩
    exact List.map_inj_left.mp hrow j hj

theorem countTo_add {lo n : ℕ} (h : n + lo < 2 ^ 32) : countTo lo (n + lo) = List.range' lo n := by
  rw [countTo]
  congr 1
  omega

theorem countTo_length (hi : ℤ) : (countTo 0 hi).length = (hi % 2 ^ 32).toNat := by
  rw [countTo, List.length_range', Nat.sub_zero]

theorem sendBuffer_eq_ok {len : ℕ} {bytes b : List UInt8} :
    sendBuffer len bytes = .ok b ↔ bytes.length = len ∧ bytes = b := by
  rw [sendBuffer]
  split_ifs with hover hunder
  · exact iff_of_false (fun h => by cases h) (fun h => by omega)
  · exact iff_of_false (fun h => by cases h) (fun h => by omega)
  · rw [Except.ok.injEq]
    exact ⟨fun h => ⟨by omega, h⟩, fun h => h.2⟩

/-! ## The reply -/

section Reply

variable {s : Setup} {c : Composite} {mem : Memory} {r : Region} {yOnly : Bool}

theorem zeroPadded_take_iff {n : ℕ} : (zeroPadded 8 n).take 8 = zeroPadded 8 n ↔ n < 10 ^ 8 := by
  rw [List.take_eq_self_iff]
  constructor
  · intro hle
    by_contra hlt
    have hlong := lt_zeroPadded_length (not_lt.mp hlt)
    omega
  · exact fun hlt => (zeroPadded_length (by decide) hlt).le

/-- A reply as it is expected. -/
theorem sendPart_iff (hc : s.composite = some c) (e : List UInt8) :
    (∃ reply, sendPart s mem r yOnly = .ok reply ∧ reply.data = e ∧ reply.header = zeroPadded 8 reply.data.length) ↔
      partBytes s.effectFrame1 c s.mode mem r yOnly = e ∧ partLength s.effectFrame1 r yOnly = e.length ∧
        e.length < 10 ^ 8 := by
  rw [sendPart, hc]
  constructor
  · rintro ⟨reply, hreply, hdata, hheader⟩
    obtain ⟨bytes, hbytes, hreply⟩ := bind_eq_ok.mp hreply
    obtain ⟨hlen, rfl⟩ := sendBuffer_eq_ok.mp hbytes
    obtain rfl := Except.ok.inj hreply
    dsimp only at hdata hheader
    rw [← hlen] at hheader
    have hlt := zeroPadded_take_iff.mp hheader
    rw [hdata] at hlen hlt
    exact ⟨hdata, hlen.symm, hlt⟩
  · rintro ⟨hbytes, hlen, hlt⟩
    refine ⟨⟨(zeroPadded 8 (partLength s.effectFrame1 r yOnly)).take 8, e⟩, ?_, rfl, ?_⟩
    · dsimp only
      rw [sendBuffer_eq_ok.mpr ⟨by rw [hbytes, hlen], hbytes⟩]
      rfl
    · rw [hlen]
      exact zeroPadded_take_iff.mpr hlt

/-- The bytes of a region, where the compositor has no mirror planes. -/
theorem partBytes_top (hc : s.composite = some c) (hrows : c.mirrorRows = none) (hx : r.w + r.x < 2 ^ 32)
    (hy : r.h + r.y < 2 ^ 32) :
    partBytes s.effectFrame1 c s.mode mem r true = expected s mem r true := by
  have hoff : compositeGetOriginalFrame s.effectFrame1 c mem = none := by
    rw [compositeGetOriginalFrame, hrows]
    rfl
  have hcur : currentFrame s mem = compositeGetTop c s.mode mem := by
    rw [currentFrame, hc]
    dsimp only
    rw [hrows]
    rfl
  rw [partBytes, hoff, expected, hcur]
  show gather _ _ (countTo r.y (r.h + r.y)) (countTo r.x (r.w + r.x)) = _
  rw [countTo_add hx, countTo_add hy]
  rfl

/-- The bytes of a region that begins with the first row, where it has. -/
theorem partBytes_mirror {rows : ℕ × ℕ} (hc : s.composite = some c) (hrows : c.mirrorRows = some rows)
    (hx : r.w + r.x < 2 ^ 32) (hh : r.h < 2 ^ 32) (hy : r.y = 0) :
    partBytes s.effectFrame1 c s.mode mem r true = rectangle (mirrorPlanes s.effectFrame1 rows mem).y s.videoOutputWidth r ∧
      expected s mem r true = rectangle mem.primary.y s.videoOutputWidth r := by
  have hon : compositeGetOriginalFrame s.effectFrame1 c mem = some (mirrorPlanes s.effectFrame1 rows mem) := by
    rw [compositeGetOriginalFrame, hrows]
    rfl
  have hcur : currentFrame s mem = mem.primary := by
    rw [currentFrame, hc]
    dsimp only
    rw [hrows]
    rfl
  constructor
  · rw [partBytes, hon]
    show gather _ _ (countTo 0 (r.h - r.y)) (countTo r.x (r.w + r.x)) = _
    have hzero : ((r.h : ℤ) - r.y) = r.h + (0 : ℕ) := by omega
    rw [countTo_add hx, hzero, countTo_add (by omega), rectangle, hy]
    rfl
  · rw [expected, hcur]
    rfl

/-- How many bytes the loops read for a region without its chroma. -/
theorem partBytes_length_mirror {rows : ℕ × ℕ} (hrows : c.mirrorRows = some rows) (hx : r.w + r.x < 2 ^ 32) :
    (((r.h : ℤ) - r.y) % 2 ^ 32).toNat * r.w ≤ (partBytes s.effectFrame1 c s.mode mem r yOnly).length ∧
      (yOnly = true → (partBytes s.effectFrame1 c s.mode mem r yOnly).length =
        (((r.h : ℤ) - r.y) % 2 ^ 32).toNat * r.w) := by
  have hon : compositeGetOriginalFrame s.effectFrame1 c mem = some (mirrorPlanes s.effectFrame1 rows mem) := by
    rw [compositeGetOriginalFrame, hrows]
    rfl
  have hluma : ∀ plane stride, (gather plane stride (countTo 0 (r.h - r.y)) (countTo r.x (r.w + r.x))).length =
      (((r.h : ℤ) - r.y) % 2 ^ 32).toNat * r.w := by
    intro plane stride
    rw [gather_length, countTo_length, countTo_add hx, List.length_range']
  rw [partBytes, hon]
  cases yOnly with
  | true => exact ⟨(hluma _ _).ge, fun _ => hluma _ _⟩
  | false =>
    refine ⟨?_, fun hno => absurd hno Bool.false_ne_true⟩
    show _ ≤ (gather _ _ (countTo 0 (r.h - r.y)) (countTo r.x (r.w + r.x)) ++ _).length
    rw [List.length_append, hluma]
    exact Nat.le_add_right _ _

theorem expected_length (yOnly : Bool) : (expected s mem r yOnly).length =
    if yOnly then r.h * r.w else r.h * r.w + (r.h * (r.w / 2) + r.h * (r.w / 2)) := by
  have hrect : ∀ plane stride (q : Region), (rectangle plane stride q).length = q.h * q.w := by
    intro plane stride q
    rw [rectangle, gather_length, List.length_range', List.length_range']
  cases yOnly with
  | true => exact hrect _ _ _
  | false =>
    show (rectangle _ _ _ ++ (rectangle _ _ _ ++ rectangle _ _ _)).length = _
    rw [List.length_append, List.length_append, hrect, hrect, hrect]
    rfl

/-- **The mirror planes have the rows of a region that begins with the first one**, whatever they held before. -/
theorem mirror_reaches_iff {rows : ℕ × ℕ} (hw : 0 < r.w) (hh : 0 < r.h) (hy : r.y = 0)
    (hx : r.x + r.w ≤ s.videoOutputWidth) (hheight : r.h ≤ s.videoOutputHeight) :
    (∀ mem, rectangle (mirrorPlanes s.effectFrame1 rows mem).y s.videoOutputWidth r =
        rectangle mem.primary.y s.videoOutputWidth r) ↔ MirrorReaches s r.h rows := by
  obtain ⟨W, hW⟩ : ∃ W, W = s.videoOutputWidth := ⟨_, rfl⟩
  have hcopied : copiedRows s.effectFrame1 rows =
      if rows.1 = 0 ∧ (rows.2 = s.videoOutputHeight ∨ rows.2 = 0) then (0, s.videoOutputHeight)
      else (rows.1, rows.2 - rows.1) := rfl
  have hplane : ∀ mem, (mirrorPlanes s.effectFrame1 rows mem).y =
      copyRows W (copiedRows s.effectFrame1 rows).1 (copiedRows s.effectFrame1 rows).2 mem.primary.y mem.older.y := by
    intro mem
    rw [hW]
    rfl
  rw [← hW] at hx ⊢
  constructor
  · intro h
    -- at a place of the region, the copy is the frame
    have hsame : ∀ mem : Memory, ∀ i < r.h, copyRows W (copiedRows s.effectFrame1 rows).1
        (copiedRows s.effectFrame1 rows).2 mem.primary.y mem.older.y (i * W + r.x) = mem.primary.y (i * W + r.x) := by
      intro mem i hi
      have hgather := h mem
      rw [rectangle, rectangle, hplane] at hgather
      exact gather_inj hgather i (List.mem_range'_1.mpr (by omega)) r.x (List.mem_range'_1.mpr (by omega))
    obtain ⟨start, n, hrows⟩ : ∃ start n, copiedRows s.effectFrame1 rows = (start, n) := ⟨_, _, rfl⟩
    rw [hrows] at hsame hcopied
    dsimp only at hsame
    -- the first row shows the start, the last one how many rows there are
    have hfirst := hsame { blankMemory with primary := ⟨fun k => if k < W then 1 else 0, fun _ => 0, fun _ => 0⟩ } 0 hh
    have hlast := hsame { blankMemory with primary := ⟨fun _ => 1, fun _ => 0, fun _ => 0⟩ } (r.h - 1) (by omega)
    simp only [blankMemory, copyRows, Nat.zero_mul, Nat.zero_add, if_pos (show r.x < W by omega)] at hfirst hlast
    have hstart : start = 0 := by
      by_contra hne
      have hle : W ≤ start * W := Nat.le_mul_of_pos_left W (Nat.pos_of_ne_zero hne)
      split_ifs at hfirst with hk hinside
      · omega
      · exact absurd hfirst (by decide)
      · exact absurd hfirst (by decide)
    have hn : r.h ≤ n := by
      by_contra hlt
      have hle : n * W ≤ (r.h - 1) * W := Nat.mul_le_mul_right W (by omega)
      rw [if_neg (by omega)] at hlast
      exact absurd hlast (by decide)
    split_ifs at hcopied with hfull
    · exact ⟨hfull.1, hfull.2.symm.imp_right Or.inl⟩
    · obtain ⟨h1, h2⟩ := Prod.mk.inj hcopied
      exact ⟨by omega, .inr (.inr (by omega))⟩
  · rintro ⟨hstart, hreach⟩ mem
    obtain ⟨n, hn, hle⟩ : ∃ n, copiedRows s.effectFrame1 rows = (0, n) ∧ r.h ≤ n := by
      rw [hcopied]
      split_ifs with hfull
      · exact ⟨_, rfl, hheight⟩
      · refine ⟨rows.2, by rw [hstart, Nat.sub_zero], ?_⟩
        rcases hreach with hzero | hheight' | hreach
        · exact absurd ⟨hstart, .inr hzero⟩ hfull
        · exact absurd ⟨hstart, .inl hheight'⟩ hfull
        · exact hreach
    rw [rectangle, rectangle, hplane, hn]
    apply gather_congr
    intro i hi j hj
    obtain ⟨-, hi⟩ := List.mem_range'_1.mp hi
    obtain ⟨-, hj⟩ := List.mem_range'_1.mp hj
    have hrow : (i + 1) * W ≤ n * W := Nat.mul_le_mul_right W (by omega)
    rw [Nat.add_mul, Nat.one_mul] at hrow
    dsimp only
    rw [copyRows, if_pos (by omega), Nat.zero_mul, Nat.zero_add]

theorem expected_nil (h : r.w = 0 ∨ r.h = 0) : expected s mem r yOnly = [] := by
  apply List.eq_nil_of_length_eq_zero
  rw [expected_length]
  rcases h with h | h
  · rw [h]
    split_ifs <;> rfl
  · rw [h]
    split_ifs <;> simp

theorem partLength_zero (h : r.w = 0 ∨ r.h = 0) : partLength s.effectFrame1 r yOnly = 0 := by
  show (if yOnly then r.w * r.h else r.w * r.h + r.w * r.h + r.w * r.h) = 0
  rcases h with h | h
  · rw [h, Nat.zero_mul, ite_self]
  · rw [h, Nat.mul_zero, ite_self]

/-- Nothing is read where no column is asked for, -/
theorem partBytes_no_cols (hx : r.w + r.x < 2 ^ 32) (hw : r.w = 0) :
    partBytes s.effectFrame1 c s.mode mem r yOnly = [] := by
  have hcols : countTo r.x (r.w + r.x) = [] := by
    rw [countTo_add hx, hw]
    rfl
  show (if yOnly then gather _ _ _ (countTo r.x (r.w + r.x))
    else gather _ _ _ (countTo r.x (r.w + r.x)) ++ (gather _ _ _ (countTo r.x (r.w + r.x)) ++
      gather _ _ _ (countTo r.x (r.w + r.x)))) = _
  rw [hcols, gather_no_cols, gather_no_cols, gather_no_cols]
  exact ite_self _

/-- or no row, unless the number of rows is negative. -/
theorem partBytes_no_rows (hy : r.h + r.y < 2 ^ 32) (hh : r.h = 0) (hrows : c.mirrorRows = none ∨ r.y = 0) :
    partBytes s.effectFrame1 c s.mode mem r yOnly = [] := by
  have hnone : (if (compositeGetOriginalFrame s.effectFrame1 c mem).isNone then countTo r.y (r.h + r.y)
      else countTo 0 (r.h - r.y)) = [] := by
    rcases hrows with hrows | hzero
    · rw [compositeGetOriginalFrame, hrows]
      show countTo r.y (r.h + r.y) = []
      rw [countTo_add hy, hh]
      rfl
    · rw [hh, hzero]
      exact ite_self _
  show (if yOnly then gather _ _ (if _ then countTo r.y (r.h + r.y) else countTo 0 (r.h - r.y)) _
    else gather _ _ (if _ then countTo r.y (r.h + r.y) else countTo 0 (r.h - r.y)) _ ++
      (gather _ _ (if _ then countTo r.y (r.h + r.y) else countTo 0 (r.h - r.y)) _ ++
        gather _ _ (if _ then countTo r.y (r.h + r.y) else countTo 0 (r.h - r.y)) _)) = _
  rw [hnone, gather_no_rows, gather_no_rows, gather_no_rows]
  exact ite_self _

/-- What is sent as it is expected fits: the loops read as many bytes as the region has. -/
theorem fits_of_sent (hregion : r.x + r.w ≤ s.videoOutputWidth ∧ r.y + r.h ≤ s.videoOutputHeight)
    (hall : ∀ mem, ∃ reply, sendPart s mem r yOnly = .ok reply ∧ reply.data = expected s mem r yOnly ∧
      reply.header = zeroPadded 8 reply.data.length) : PartFits s r yOnly := by
  have hsize := s.sizeInt
  have hwidth : r.w + r.x < 2 ^ 32 := by omega
  cases hc : s.composite with
  | none =>
    obtain ⟨reply, hreply, -⟩ := hall blankMemory
    rw [sendPart, hc] at hreply
    cases hreply
  | some c =>
    refine ⟨c, hc, ?_⟩
    have hall := fun mem => (sendPart_iff hc _).mp (hall mem)
    by_cases hw : r.w = 0
    · exact .inl hw
    obtain ⟨hbytes, hlen, hlt⟩ := hall blankMemory
    have hread := congrArg List.length hbytes
    rw [← hlen] at hread
    by_cases hh : r.h = 0
    · refine .inr (.inl ⟨hh, ?_⟩)
      cases hrows : c.mirrorRows with
      | none => exact .inl rfl
      | some rows =>
        -- as many rows are read as `0 - y` has as an unsigned number
        have hle := (@partBytes_length_mirror s c blankMemory r yOnly rows hrows hwidth).1
        rw [hread, partLength_zero (.inr hh), Nat.le_zero, Nat.mul_eq_zero] at hle
        exact .inr (by omega)
    · cases yOnly with
      | false =>
        -- the planes of the chroma are read as if they had all columns
        rw [expected_length] at hlen
        have hlen : r.w * r.h + r.w * r.h + r.w * r.h = r.h * r.w + (r.h * (r.w / 2) + r.h * (r.w / 2)) := hlen
        have hhalf : r.h * (r.w / 2) < r.h * r.w := (Nat.mul_lt_mul_left (by omega)).mpr (by omega)
        rw [Nat.mul_comm r.w r.h] at hlen
        omega
      | true =>
        rw [expected_length, if_pos rfl, Nat.mul_comm] at hlt
        refine .inr (.inr ⟨rfl, hlt, fun rows hrows => ?_⟩)
        have hcount := (@partBytes_length_mirror s c blankMemory r true rows hrows hwidth).2 rfl
        have hrowsEq : (((r.h : ℤ) - r.y) % 2 ^ 32).toNat * r.w = r.h * r.w :=
          hcount.symm.trans (hread.trans (Nat.mul_comm _ _))
        have hy : r.y = 0 := by
          have hsame := Nat.eq_of_mul_eq_mul_right (Nat.pos_of_ne_zero hw) hrowsEq
          omega
        refine ⟨hy, (mirror_reaches_iff (by omega) (by omega) hy hregion.1 (by omega)).mp fun mem => ?_⟩
        obtain ⟨hmirror, hprimary⟩ := @partBytes_mirror s c mem r rows hc hrows hwidth (by omega) hy
        rw [← hmirror, ← hprimary]
        exact (hall mem).1

/-- What fits is sent as it is expected. -/
theorem sent_of_fits (hregion : r.x + r.w ≤ s.videoOutputWidth ∧ r.y + r.h ≤ s.videoOutputHeight)
    (hfits : PartFits s r yOnly) (mem : Memory) :
    ∃ reply, sendPart s mem r yOnly = .ok reply ∧ reply.data = expected s mem r yOnly ∧
      reply.header = zeroPadded 8 reply.data.length := by
  have hsize := s.sizeInt
  have hwidth : r.w + r.x < 2 ^ 32 := by omega
  have hheight : r.h + r.y < 2 ^ 32 := by omega
  obtain ⟨c, hc, hfits⟩ := hfits
  refine (sendPart_iff hc _).mpr ?_
  rcases hfits with hw | ⟨hh, hrows⟩ | ⟨rfl, hlt, hrows⟩
  · rw [partBytes_no_cols hwidth hw, partLength_zero (.inl hw), expected_nil (.inl hw)]
    exact ⟨rfl, rfl, by decide⟩
  · rw [partBytes_no_rows hheight hh hrows, partLength_zero (.inr hh), expected_nil (.inr hh)]
    exact ⟨rfl, rfl, by decide⟩
  · rw [expected_length, if_pos rfl]
    refine ⟨?_, Nat.mul_comm _ _, by rw [Nat.mul_comm]; exact hlt⟩
    cases hc' : c.mirrorRows with
    | none => exact partBytes_top hc hc' hwidth hheight
    | some rows =>
      obtain ⟨hy, hreaches⟩ := hrows rows hc'
      by_cases hempty : r.w = 0 ∨ r.h = 0
      · rcases hempty with hw | hh
        · rw [partBytes_no_cols hwidth hw, expected_nil (.inl hw)]
        · rw [partBytes_no_rows hheight hh (.inr hy), expected_nil (.inr hh)]
      · obtain ⟨hmirror, hprimary⟩ := @partBytes_mirror s c mem r rows hc hc' hwidth (by omega) hy
        rw [hmirror, hprimary]
        exact (mirror_reaches_iff (by omega) (by omega) hy hregion.1 (by omega)).mpr hreaches mem

variable {x y w h yInt : ℤ}

/-- A region that is accepted lies in the frame. -/
theorem Accepted.region (hacc : Accepted s x y w h yInt) :
    x.toNat + w.toNat ≤ s.videoOutputWidth ∧ y.toNat + h.toNat ≤ s.videoOutputHeight := by
  obtain ⟨-, ⟨hx, -⟩, ⟨hy, -⟩, ⟨hw, hxw⟩, ⟨hh, hyh⟩⟩ := hacc
  constructor <;> omega

/-- Where the region is accepted, it is up to the reply. -/
theorem Accepted.sent_iff (hacc : Accepted s x y w h yInt) :
    PartSent s x y w h yInt ↔ ∀ mem, ∃ reply,
      sendPart s mem ⟨x.toNat, y.toNat, w.toNat, h.toNat⟩ (yInt = 1) = .ok reply ∧
        reply.data = expected s mem ⟨x.toNat, y.toNat, w.toNat, h.toNat⟩ (yInt = 1) ∧
        reply.header = zeroPadded 8 reply.data.length := by
  rw [PartSent]
  refine forall_congr' fun mem => ?_
  rw [vjEventGetImagePart, if_pos hacc]

theorem Accepted.fits (hacc : Accepted s x y w h yInt) (hsent : PartSent s x y w h yInt) :
    PartFits s ⟨x.toNat, y.toNat, w.toNat, h.toNat⟩ (yInt = 1) :=
  fits_of_sent hacc.region (hacc.sent_iff.mp hsent)

end Reply

/-- Sixteen by eight pixels, and a compositor without a projection. -/
def plainSetup (mirrorRows : Option (ℕ × ℕ)) : Setup := ⟨16, 8, by decide, some ⟨false, false, mirrorRows⟩, 0⟩

end Veejay.ImagePart
