import Veejay.Net.Wire
import Veejay.Net.FrameStream

/-!
# What becomes of a frame between two servers

A compressed frame is a header of seven numbers and a packet; both sides count the same bytes.  A frame that
is sent as it is counts the 16 bytes of lengths that only a packet has, and its reader does not.

* `headerFields_exact` — the seven numbers, where each fits its field;
* `sendFrame_packed`, `readFrame_packed` — a compressed frame, sent and read;
* `sendFrame_raw`, `readFrame_raw` — **a raw frame**: sixteen bytes are left in the stream;
* `Transmissible` — the frames that come through;
* `transmitted_iff` — **the stream of frames**.
-/

namespace Veejay.Net

open CLib

/-! ## Numbers -/

theorem str2ulong_long2str {n : ℕ} (h : n < 2 ^ 32) : str2ulong (long2str n) = n := by
  simp only [str2ulong, long2str, UInt8.toNat_ofNat']
  omega

theorem toUint32_natCast {n : ℕ} (h : n < 2 ^ 32) : toUint32 n = n := by
  rw [toUint32]
  omega

/-- The plane that the client expects is the one of the format. -/
theorem decompressUvLen_code (f : PrimaryFrame) : decompressUvLen f.format.code f.len = f.uvLen := by
  obtain ⟨w, hw⟩ : ∃ w, f.width = 2 * w := ⟨f.width / 2, by have := f.width_even; omega⟩
  obtain ⟨h, hh⟩ : ∃ h, f.height = 2 * h := ⟨f.height / 2, by have := f.height_even; omega⟩
  have hhalf : f.len / 2 = f.width / 2 * f.height := by
    rw [PrimaryFrame.len, hw, Nat.mul_assoc, Nat.mul_div_cancel_left _ (by norm_num),
      Nat.mul_div_cancel_left _ (by norm_num)]
  have hquarter : f.len / 4 = f.width / 2 * (f.height / 2) := by
    rw [PrimaryFrame.len, hw, hh, show 2 * w * (2 * h) = 4 * (w * h) by ring,
      Nat.mul_div_cancel_left _ (by norm_num), Nat.mul_div_cancel_left _ (by norm_num),
      Nat.mul_div_cancel_left _ (by norm_num)]
  rw [PrimaryFrame.uvLen]
  cases f.format with
  | yuv420p => exact hquarter
  | yuvj420p => exact hquarter
  | yuv422p => exact hhalf
  | yuvj422p => exact hhalf
  | yuv444p => rfl

theorem PrimaryFrame.uvLen_le (f : PrimaryFrame) : f.uvLen ≤ f.len := by
  rw [← decompressUvLen_code, decompressUvLen]
  split_ifs
  · exact Nat.div_le_self _ _
  · exact Nat.div_le_self _ _
  · exact le_rfl

theorem PrimaryFrame.len_pos (f : PrimaryFrame) : 0 < f.len := Nat.mul_pos f.width_pos f.height_pos

theorem PixFmt.code_lt (fmt : PixFmt) : fmt.code < 10 ^ 4 := by
  cases fmt <;> decide

/-! ## The header -/

/-- The fields of the header. -/
def headerFields : List ℕ := [4, 4, 4, 8, 8, 8, 8]

theorem infoLine_take_length (f : PrimaryFrame) (total p1 p2 p3 : ℕ) :
    ((infoLine f total p1 p2 p3).take 44).length = 44 := by
  have h1 := le_zeroPadded_length 4 f.width
  have h2 := le_zeroPadded_length 4 f.height
  have h3 := le_zeroPadded_length 4 f.format.code
  have h4 := le_zeroPadded_length 8 total
  have h5 := le_zeroPadded_length 8 p1
  have h6 := le_zeroPadded_length 8 p2
  have h7 := le_zeroPadded_length 8 p3
  rw [List.length_take, infoLine]
  simp only [List.length_append]
  omega

/-- Seven numbers, each as wide as its field. -/
theorem headerFields_exact (f : PrimaryFrame) {total p1 p2 p3 : ℕ} (hw : f.width < 10 ^ 4)
    (hh : f.height < 10 ^ 4) (htotal : total < 10 ^ 8) (hp1 : p1 < 10 ^ 8) (hp2 : p2 < 10 ^ 8)
    (hp3 : p3 < 10 ^ 8) :
    readFields headerFields ((infoLine f total p1 p2 p3).take 44)
      = .ok (some [(f.width : ℤ), f.height, f.format.code, total, p1, p2, p3]) := by
  have hfield : ∀ {w n : ℕ}, 0 < w → n < 10 ^ w →
      0 < w ∧ (zeroPadded w n).length = w ∧ ∀ c ∈ zeroPadded w n, isDigit c = true :=
    fun hw hn => ⟨hw, zeroPadded_length hw hn, fun c hc => isDigit_of_mem_zeroPadded hc⟩
  have hread := @readFields_pieces headerFields
    [zeroPadded 4 f.width, zeroPadded 4 f.height, zeroPadded 4 f.format.code, zeroPadded 8 total,
      zeroPadded 8 p1, zeroPadded 8 p2, zeroPadded 8 p3] []
    (.cons (hfield (by norm_num) hw) (.cons (hfield (by norm_num) hh)
      (.cons (hfield (by norm_num) f.format.code_lt) (.cons (hfield (by norm_num) htotal)
        (.cons (hfield (by norm_num) hp1) (.cons (hfield (by norm_num) hp2)
          (.cons (hfield (by norm_num) hp3) .nil)))))))
  have hlen : (infoLine f total p1 p2 p3).length ≤ 44 := by
    rw [infoLine]
    simp only [List.length_append, zeroPadded_length (show 1 ≤ 4 by norm_num) hw,
      zeroPadded_length (show 1 ≤ 4 by norm_num) hh,
      zeroPadded_length (show 1 ≤ 4 by norm_num) f.format.code_lt,
      zeroPadded_length (show 1 ≤ 8 by norm_num) htotal, zeroPadded_length (show 1 ≤ 8 by norm_num) hp1,
      zeroPadded_length (show 1 ≤ 8 by norm_num) hp2, zeroPadded_length (show 1 ≤ 8 by norm_num) hp3]
    norm_num
  rw [List.take_of_length_le hlen, infoLine]
  simpa only [List.flatten_cons, List.flatten_nil, List.append_nil, List.map_cons, List.map_nil,
    digitsValue_zeroPadded] using hread

/-- A packet that is too long for its field: the reader sees its first eight digits. -/
theorem headerFields_cut (f : PrimaryFrame) {total p1 p2 p3 : ℕ} (hw : f.width < 10 ^ 4)
    (hh : f.height < 10 ^ 4) :
    ∃ s1 s2 s3 : ℤ, readFields headerFields ((infoLine f total p1 p2 p3).take 44)
      = .ok (some [(f.width : ℤ), f.height, f.format.code, digitsValue ((zeroPadded 8 total).take 8),
          s1, s2, s3]) := by
  obtain ⟨tail, htail⟩ : ∃ tail, tail = zeroPadded 8 total ++ (zeroPadded 8 p1 ++
      (zeroPadded 8 p2 ++ zeroPadded 8 p3)) := ⟨_, rfl⟩
  have hdigits : ∀ c ∈ tail, isDigit c = true := by
    intro c hc
    rw [htail] at hc
    simp only [List.mem_append] at hc
    rcases hc with h | h | h | h <;> exact isDigit_of_mem_zeroPadded h
  have htotal := le_zeroPadded_length 8 total
  have hlong : 32 ≤ tail.length := by
    have h5 := le_zeroPadded_length 8 p1
    have h6 := le_zeroPadded_length 8 p2
    have h7 := le_zeroPadded_length 8 p3
    rw [htail]
    simp only [List.length_append]
    omega
  have hpiece : ∀ k, k + 8 ≤ 32 → 0 < 8 ∧ ((tail.drop k).take 8).length = 8 ∧
      ∀ c ∈ (tail.drop k).take 8, isDigit c = true := by
    intro k hk
    refine ⟨by norm_num, ?_, fun c hc => hdigits c (List.mem_of_mem_drop (List.mem_of_mem_take hc))⟩
    rw [List.length_take, List.length_drop]
    omega
  have hfield : ∀ {n : ℕ}, n < 10 ^ 4 →
      0 < 4 ∧ (zeroPadded 4 n).length = 4 ∧ ∀ c ∈ zeroPadded 4 n, isDigit c = true :=
    fun hn => ⟨by norm_num, zeroPadded_length (by norm_num) hn, fun c hc => isDigit_of_mem_zeroPadded hc⟩
  have hread := @readFields_pieces headerFields
    [zeroPadded 4 f.width, zeroPadded 4 f.height, zeroPadded 4 f.format.code, (tail.drop 0).take 8,
      (tail.drop 8).take 8, (tail.drop 16).take 8, (tail.drop 24).take 8] []
    (.cons (hfield hw) (.cons (hfield hh) (.cons (hfield f.format.code_lt)
      (.cons (hpiece 0 (by norm_num)) (.cons (hpiece 8 (by norm_num)) (.cons (hpiece 16 (by norm_num))
        (.cons (hpiece 24 (by norm_num)) .nil)))))))
  have hline : (infoLine f total p1 p2 p3).take 44
      = zeroPadded 4 f.width ++ (zeroPadded 4 f.height ++ (zeroPadded 4 f.format.code ++ tail.take 32)) := by
    rw [infoLine, ← htail, List.take_append, List.take_append, List.take_append,
      zeroPadded_length (by norm_num) hw, zeroPadded_length (by norm_num) hh,
      zeroPadded_length (by norm_num) f.format.code_lt, List.take_of_length_le (by
        rw [zeroPadded_length (by norm_num) hw]; norm_num), List.take_of_length_le (by
        rw [zeroPadded_length (by norm_num) hh]; norm_num), List.take_of_length_le (by
        rw [zeroPadded_length (by norm_num) f.format.code_lt]; norm_num)]
  have hfront : (tail.drop 0).take 8 = (zeroPadded 8 total).take 8 := by
    rw [List.drop_zero, htail, List.take_append_of_le_length htotal]
  have hpieces : tail.take 32
      = (tail.drop 0).take 8 ++ ((tail.drop 8).take 8 ++ ((tail.drop 16).take 8 ++ (tail.drop 24).take 8)) := by
    rw [show 32 = 8 + (8 + (8 + 8)) by norm_num, List.take_add, List.take_add, List.take_add,
      List.drop_drop, List.drop_drop, List.drop_zero]
  refine ⟨digitsValue ((tail.drop 8).take 8), digitsValue ((tail.drop 16).take 8),
    digitsValue ((tail.drop 24).take 8), ?_⟩
  rw [hline, hpieces, ← hfront]
  simpa only [List.flatten_cons, List.flatten_nil, List.append_nil, List.map_cons, List.map_nil,
    digitsValue_zeroPadded] using hread

/-! ## The sender -/

/-- `socket_buffer`, allocated by the first frame. -/
def FrameSender.buffer (fill : ℕ → UInt8) (s : FrameSender) (f : PrimaryFrame) : List UInt8 :=
  s.socketBuffer.getD (malloc fill (rup8 (f.width * f.height * 3)))

/-- The lengths of a packet, and the mode. -/
def packetHead (f : PrimaryFrame) (y cb cr : List UInt8) : List UInt8 :=
  long2str y.length ++ long2str cb.length ++ long2str cr.length ++ long2str f.mcastMode.toNat

/-- The length of a packet. -/
def packetLength (y cb cr : List UInt8) : ℕ := y.length + cb.length + cr.length + 16

/-- A compressed frame, as it is sent. -/
def packed (f : PrimaryFrame) (y cb cr : List UInt8) : List UInt8 :=
  (infoLine f (packetLength y cb cr) y.length cb.length cr.length).take 44
    ++ (packetHead f y cb cr ++ (y ++ (cb ++ cr)))

theorem packetHead_length (f : PrimaryFrame) (y cb cr : List UInt8) : (packetHead f y cb cr).length = 16 :=
  rfl

theorem packed_length (f : PrimaryFrame) (y cb cr : List UInt8) :
    (packed f y cb cr).length = 44 + packetLength y cb cr := by
  rw [packed, List.length_append, infoLine_take_length, packetLength]
  simp only [List.length_append, packetHead_length]
  omega

/-- The planes in the buffer, where they are compressed and have their room. -/
theorem vjPerformCompressFrame_packed {lzo : Lzo} {f : PrimaryFrame} {y cb cr : List UInt8}
    (hy : lzo.compress f.Y = some y) (hcb : lzo.compress f.Cb = some cb) (hcr : lzo.compress f.Cr = some cr)
    {buf : List UInt8} (hroom : 44 + packetLength y cb cr ≤ buf.length) :
    ∃ buf', vjPerformCompressFrame lzo f buf = .ok (some (y.length, cb.length, cr.length), buf') ∧
      buf'.length = buf.length ∧ HasAt buf' 44 (packetHead f y cb cr ++ (y ++ (cb ++ cr))) := by
  rw [packetLength] at hroom
  obtain ⟨b1, h1⟩ := @overwrite_of_le buf y (44 + 16) (by omega)
  have l1 := overwrite_length h1
  obtain ⟨b2, h2⟩ := @overwrite_of_le b1 cb (44 + 16 + y.length) (by omega)
  have l2 := overwrite_length h2
  obtain ⟨b3, h3⟩ := @overwrite_of_le b2 cr (44 + 16 + y.length + cb.length) (by omega)
  have l3 := overwrite_length h3
  obtain ⟨b4, h4⟩ := @overwrite_of_le b3 (packetHead f y cb cr) 44 (by rw [packetHead_length]; omega)
  have l4 := overwrite_length h4
  have hhead := packetHead_length f y cb cr
  refine ⟨b4, ?_, by omega, ?_⟩
  · rw [vjPerformCompressFrame, hy]
    dsimp only
    rw [h1, ok_bind, hcb]
    dsimp only
    rw [h2, ok_bind, hcr]
    dsimp only
    rw [h3, ok_bind, ← packetHead, h4]
    rfl
  · have hasY : HasAt b4 (44 + 16) y := ((((hasAt_of_overwrite h1).kept h2 (Or.inl le_rfl)).kept h3
      (Or.inl (by omega))).kept h4 (Or.inr (by omega)))
    have hasCb : HasAt b4 (44 + 16 + y.length) cb := (((hasAt_of_overwrite h2).kept h3 (Or.inl le_rfl)).kept h4
      (Or.inr (by omega)))
    have hasCr : HasAt b4 (44 + 16 + y.length + cb.length) cr := (hasAt_of_overwrite h3).kept h4
      (Or.inr (by omega))
    exact (hasAt_of_overwrite h4).append (hhead.symm ▸ hasY.append (hasCb.append hasCr))

/-- **A compressed frame is sent** if it has its room in the buffer. -/
theorem sendFrame_packed {lzo : Lzo} (fill : ℕ → UInt8) {s : FrameSender} {f : PrimaryFrame}
    {y cb cr : List UInt8} (hs : s.sbic = false) (hy : lzo.compress f.Y = some y)
    (hcb : lzo.compress f.Cb = some cb) (hcr : lzo.compress f.Cr = some cr)
    (hroom : 44 + packetLength y cb cr ≤ (s.buffer fill f).length) :
    ∃ buf, sendFrame lzo fill s f = .ok (packed f y cb cr, ⟨some buf, false⟩) ∧
      buf.length = (s.buffer fill f).length := by
  obtain ⟨b1, h1, l1, has1⟩ := vjPerformCompressFrame_packed hy hcb hcr hroom
  have hline := infoLine_take_length f (packetLength y cb cr) y.length cb.length cr.length
  obtain ⟨b2, h2⟩ := @overwrite_of_le b1
    ((infoLine f (packetLength y cb cr) y.length cb.length cr.length).take 44) 0 (by omega)
  have l2 := overwrite_length h2
  have hasAll : HasAt b2 0 (packed f y cb cr) :=
    (hasAt_of_overwrite h2).append (by
      rw [hline]
      exact has1.kept h2 (Or.inr (by omega)))
  have hslice := @HasAt.slice b2 _ 0 (44 + 16 + y.length + cb.length + cr.length) hasAll (by
    rw [packed_length, packetLength]
    omega)
  refine ⟨b2, ?_, by omega⟩
  rw [sendFrame, vjPerformSendPrimaryFrameS2, if_pos hs, ← FrameSender.buffer, h1, ok_bind]
  dsimp only
  rw [← packetLength, h2, ok_bind, show ((0 : ℕ) : ℤ) = 0 from rfl] at *
  rw [hslice]
  rfl

/-- The planes can be compressed. -/
def Compresses (lzo : Lzo) (f : PrimaryFrame) (y cb cr : List UInt8) : Prop :=
  lzo.compress f.Y = some y ∧ lzo.compress f.Cb = some cb ∧ lzo.compress f.Cr = some cr

theorem vjPerformCompressFrame_cases {lzo : Lzo} {f : PrimaryFrame} {buf buf' : List UInt8}
    {planes : Option (ℕ × ℕ × ℕ)} (h : vjPerformCompressFrame lzo f buf = .ok (planes, buf')) :
    buf'.length = buf.length ∧
      ((∃ y cb cr, Compresses lzo f y cb cr ∧ planes = some (y.length, cb.length, cr.length)) ∨
        planes = none ∧ ∀ y cb cr, ¬ Compresses lzo f y cb cr) := by
  rw [vjPerformCompressFrame] at h
  cases hy : lzo.compress f.Y with
  | none =>
    rw [hy] at h
    obtain ⟨rfl, rfl⟩ := Prod.mk.inj (Except.ok.inj h)
    exact ⟨rfl, Or.inr ⟨rfl, fun y cb cr hc => by cases hy.symm.trans hc.1⟩⟩
  | some y =>
    rw [hy] at h
    obtain ⟨b1, h1, h⟩ := bind_eq_ok.mp h
    have l1 := overwrite_length h1
    cases hcb : lzo.compress f.Cb with
    | none =>
      rw [hcb] at h
      obtain ⟨rfl, rfl⟩ := Prod.mk.inj (Except.ok.inj h)
      exact ⟨l1, Or.inr ⟨rfl, fun y cb cr hc => by cases hcb.symm.trans hc.2.1⟩⟩
    | some cb =>
      rw [hcb] at h
      obtain ⟨b2, h2, h⟩ := bind_eq_ok.mp h
      have l2 := overwrite_length h2
      cases hcr : lzo.compress f.Cr with
      | none =>
        rw [hcr] at h
        obtain ⟨rfl, rfl⟩ := Prod.mk.inj (Except.ok.inj h)
        exact ⟨l2.trans l1, Or.inr ⟨rfl, fun y cb cr hc => by cases hcr.symm.trans hc.2.2⟩⟩
      | some cr =>
        rw [hcr] at h
        obtain ⟨b3, h3, h⟩ := bind_eq_ok.mp h
        have l3 := overwrite_length h3
        obtain ⟨b4, h4, h⟩ := bind_eq_ok.mp h
        have l4 := overwrite_length h4
        obtain ⟨rfl, rfl⟩ := Prod.mk.inj (Except.ok.inj h)
        exact ⟨by omega, Or.inl ⟨y, cb, cr, ⟨hy, hcb, hcr⟩, rfl⟩⟩

/-- What is sent: a packet that had its room, or the planes with sixteen bytes behind them. -/
theorem sendFrame_cases {lzo : Lzo} {fill : ℕ → UInt8} {s s' : FrameSender} {f : PrimaryFrame}
    {sent : List UInt8} (hs : s.sbic = false) (h : sendFrame lzo fill s f = .ok (sent, s')) :
    (∃ y cb cr, Compresses lzo f y cb cr ∧ 44 + packetLength y cb cr ≤ (s.buffer fill f).length) ∨
      ∃ surplus, surplus.length = 16 ∧
        sent = (infoLine f 0 f.len f.uvLen f.uvLen).take 44 ++ (f.Y ++ (f.Cb ++ (f.Cr ++ surplus))) := by
  rw [sendFrame, vjPerformSendPrimaryFrameS2, if_pos hs, ← FrameSender.buffer] at h
  obtain ⟨⟨sent', s1⟩, hsend, h⟩ := bind_eq_ok.mp h
  obtain ⟨rfl, -⟩ := Prod.mk.inj (Except.ok.inj h)
  obtain ⟨⟨planes, b0⟩, hcompress, hsend⟩ := bind_eq_ok.mp hsend
  obtain ⟨l0, hcases⟩ := vjPerformCompressFrame_cases hcompress
  rcases hcases with ⟨y, cb, cr, hplanes, rfl⟩ | ⟨rfl, -⟩
  · obtain ⟨b1, h1, hsend⟩ := bind_eq_ok.mp hsend
    have l1 := overwrite_length h1
    obtain ⟨sent'', hslice, -⟩ := bind_eq_ok.mp hsend
    have hbound := (slice_eq_ok.mp hslice).1
    refine Or.inl ⟨y, cb, cr, hplanes, ?_⟩
    rw [packetLength]
    omega
  · refine Or.inr ?_
    obtain ⟨b1, h1, hsend⟩ := bind_eq_ok.mp hsend
    obtain ⟨b2, h2, hsend⟩ := bind_eq_ok.mp hsend
    obtain ⟨b3, h3, hsend⟩ := bind_eq_ok.mp hsend
    obtain ⟨b4, h4, hsend⟩ := bind_eq_ok.mp hsend
    obtain ⟨sent'', hslice, hsend⟩ := bind_eq_ok.mp hsend
    obtain ⟨rfl, -⟩ := Prod.mk.inj (Except.ok.inj hsend)
    obtain ⟨hbound, hsent⟩ := slice_eq_ok.mp hslice
    have hline := infoLine_take_length f 0 f.len f.uvLen f.uvLen
    have hY : f.Y.length = f.len := f.Y_length
    have hCb : f.Cb.length = f.uvLen := f.Cb_length
    have hCr : f.Cr.length = f.uvLen := f.Cr_length
    have hasLine := (((hasAt_of_overwrite h1).kept h2 (Or.inl (by omega))).kept h3
      (Or.inl (by omega))).kept h4 (Or.inl (by omega))
    have hasY := ((hasAt_of_overwrite h2).kept h3 (Or.inl (by omega))).kept h4 (Or.inl (by omega))
    have hasCb := (hasAt_of_overwrite h3).kept h4 (Or.inl (by omega))
    have hasCr := hasAt_of_overwrite h4
    rw [← hCb] at hasCr
    rw [← hY] at hasCb hasCr
    have hasAll := hasLine.append (by
      rw [hline]
      exact hasY.append (hasCb.append hasCr))
    have hlen : ((infoLine f 0 f.len f.uvLen f.uvLen).take 44 ++ (f.Y ++ (f.Cb ++ f.Cr))).length
        = 44 + f.len + f.uvLen * 2 := by
      simp only [List.length_append]
      omega
    refine ⟨(b4.drop (44 + f.len + f.uvLen * 2)).take 16, ?_, ?_⟩
    · rw [List.length_take, List.length_drop]
      omega
    · rw [hsent, show 44 + 16 + f.len + f.uvLen * 2 = (44 + f.len + f.uvLen * 2) + 16 by omega,
        Int.toNat_zero, List.take_add, ← hlen, hasAll.2, List.drop_zero, hlen]
      simp only [List.append_assoc]

/-! ## The client -/

theorem sockTRecv_append {bytes rest : List UInt8} {len : ℤ} (hlen : len = bytes.length) :
    sockTRecv (bytes ++ rest) len = (some bytes, rest) := by
  subst hlen
  rw [sockTRecv]
  split_ifs with hempty hthere
  · obtain rfl : bytes = [] := List.eq_nil_of_length_eq_zero (by omega)
    rfl
  · rw [Int.toNat_natCast, List.take_left' rfl, List.drop_left' rfl]
  · rw [List.length_append] at hthere
    push_cast at hthere
    omega

/-- The header of a frame. -/
theorem vjClientReadFrameHeader_line {line rest : List UInt8} {w h fmt total s1 s2 s3 : ℤ}
    (hlen : line.length = 44) (hread : readFields headerFields line = .ok (some [w, h, fmt, total, s1, s2, s3]))
    (hw : 0 < w) (hh : 0 < h) :
    vjClientReadFrameHeader (line ++ rest) = .ok (some ⟨w, h, fmt, total, s1, s2, s3⟩, rest) := by
  rw [vjClientReadFrameHeader, sockTRecv_append (by rw [hlen]; rfl)]
  dsimp only
  rw [← headerFields, hread, ok_bind]
  dsimp only
  rw [if_neg (by omega)]

/-- The numbers of a header are smaller than their fields are wide. -/
theorem vjClientReadFrameHeader_lt {stream rest : List UInt8} {hd : FrameHeader}
    (h : vjClientReadFrameHeader stream = .ok (some hd, rest)) :
    hd.width < 10 ^ 4 ∧ hd.height < 10 ^ 4 := by
  rw [vjClientReadFrameHeader, ← headerFields] at h
  split at h
  · cases h
  · obtain ⟨fields, hread, h⟩ := bind_eq_ok.mp h
    split at h
    · have hlt := readFields_lt hread
      split_ifs at h
      · cases h
      · obtain ⟨hhd, -⟩ := Prod.mk.inj (Except.ok.inj h)
        obtain rfl := Option.some.inj hhd
        cases hlt with
        | cons hw hlt =>
          cases hlt with
          | cons hh _ => exact ⟨hw.2, hh.2⟩
    · cases h

/-- The buffer of the network thread is as long as it says. -/
def FrameReader.Fits (r : FrameReader) : Prop := ∀ buf, r.buf = some buf → r.bufsize ≤ buf.length

/-- There is room for a frame. -/
theorem frameBuffer_room {fill : ℕ → UInt8} {r : FrameReader} {hd : FrameHeader} (hr : r.Fits)
    {dst : List UInt8} {bufsize : ℤ} (h : frameBuffer fill r hd = (dst, bufsize)) :
    hd.width * hd.height * 3 ≤ dst.length ∧ bufsize ≤ dst.length := by
  have hround := le_rup8 (hd.width * hd.height * 3).toNat
  rw [frameBuffer] at h
  cases hbuf : r.buf with
  | none =>
    rw [hbuf] at h
    obtain ⟨rfl, rfl⟩ := Prod.mk.inj h
    rw [malloc_length]
    omega
  | some buf =>
    rw [hbuf] at h
    have hfits := hr buf hbuf
    dsimp only at h
    split_ifs at h with hsmall
    · obtain ⟨rfl, rfl⟩ := Prod.mk.inj h
      rw [List.length_append, List.length_take, List.length_drop, malloc_length]
      omega
    · obtain ⟨rfl, rfl⟩ := Prod.mk.inj h
      omega

theorem spaceFor_length (space : Option (List UInt8)) (n : ℕ) : n ≤ (spaceFor space n).length := by
  have hround := le_rup8 n
  cases space with
  | none =>
    rw [spaceFor, List.length_replicate]
    exact hround
  | some space =>
    rw [spaceFor]
    split_ifs with h
    · rw [List.length_replicate]
      exact hround
    · omega

/-- A plane out of the packet. -/
theorem decompressPlanes_cons {lzo : Lzo} {linbuf dst dst' block plane : List UInt8} {offset place : ℕ}
    {planes : List (ℕ × ℕ)} (hblock : HasAt linbuf offset block) (hne : block ≠ [])
    (hplane : lzo.decompress block = some plane) (hdst : overwrite dst place plane = .ok dst') :
    decompressPlanes lzo linbuf offset ((block.length, place) :: planes) dst
      = decompressPlanes lzo linbuf (offset + block.length) planes dst' := by
  have hpos : block.length ≠ 0 := fun h => hne (List.eq_nil_of_length_eq_zero h)
  rw [decompressPlanes, if_neg hpos, hblock.slice rfl, ok_bind, hplane]
  dsimp only
  rw [hdst, ok_bind]

/-- The planes that a client shows: in mode 1 there is no colour. -/
def shown (f : PrimaryFrame) : List UInt8 :=
  if f.mcastMode = 1 then f.Y ++ (List.replicate f.uvLen 128 ++ List.replicate f.uvLen 128)
  else f.Y ++ (f.Cb ++ f.Cr)

theorem lzoDecompress_packed {lzo : Lzo} (hlzo : lzo.Lossless) {f : PrimaryFrame}
    {y cb cr space dst : List UInt8} (hf : Compresses lzo f y cb cr) (hsmall : packetLength y cb cr < 2 ^ 32)
    (hspace : HasAt space 0 (packetHead f y cb cr ++ (y ++ (cb ++ cr))))
    (hroom : f.len + f.uvLen + f.uvLen ≤ dst.length) :
    ∃ dst', lzoDecompress lzo space dst f.len f.uvLen y.length cb.length cr.length = .ok dst' ∧
      dst'.length = dst.length ∧ HasAt dst' 0 (shown f) := by
  rw [packetLength] at hsmall
  have hY : f.Y.length = f.len := f.Y_length
  have hCb : f.Cb.length = f.uvLen := f.Cb_length
  have hCr : f.Cr.length = f.uvLen := f.Cr_length
  have hhead : HasAt space 0 (packetHead f y cb cr) := hspace.left
  have hbody : HasAt space 16 (y ++ (cb ++ cr)) := hspace.right
  have hfirst : slice space 0 4 = .ok (long2str y.length) := hhead.left.left.left.slice rfl
  have hsecond : slice space 4 4 = .ok (long2str cb.length) := hhead.left.left.right.slice rfl
  have hthird : slice space 8 4 = .ok (long2str cr.length) := hhead.left.right.slice rfl
  have hmode : slice space 12 4 = .ok (long2str f.mcastMode.toNat) := hhead.right.slice rfl
  obtain ⟨d1, h1⟩ := @overwrite_of_le dst f.Y 0 (by omega)
  have l1 := overwrite_length h1
  obtain ⟨d2, h2⟩ := @overwrite_of_le d1 f.Cb f.len (by omega)
  have l2 := overwrite_length h2
  obtain ⟨d3, h3⟩ := @overwrite_of_le d2 f.Cr (f.len + f.uvLen) (by omega)
  have l3 := overwrite_length h3
  have hplanes : decompressPlanes lzo space 16
      [(y.length, 0), (cb.length, f.len), (cr.length, f.len + f.uvLen)] dst = .ok (true, d3) := by
    rw [decompressPlanes_cons hbody.left (hlzo.marked _ _ hf.1) (hlzo.restores _ _ hf.1) h1,
      decompressPlanes_cons hbody.right.left (hlzo.marked _ _ hf.2.1) (hlzo.restores _ _ hf.2.1) h2,
      decompressPlanes_cons hbody.right.right (hlzo.marked _ _ hf.2.2) (hlzo.restores _ _ hf.2.2) h3,
      decompressPlanes]
  have hasY : HasAt d3 0 f.Y := ((hasAt_of_overwrite h1).kept h2 (Or.inl (by omega))).kept h3
    (Or.inl (by omega))
  have hasCb : HasAt d3 f.len f.Cb := (hasAt_of_overwrite h2).kept h3 (Or.inl (by omega))
  have hasCr : HasAt d3 (f.len + f.uvLen) f.Cr := hasAt_of_overwrite h3
  have hcolour : ¬ (cb.length = 0 ∧ cr.length = 0) := fun h =>
    hlzo.marked _ _ hf.2.1 (List.eq_nil_of_length_eq_zero h.1)
  rw [lzoDecompress, hfirst, ok_bind, hsecond, ok_bind, hthird, ok_bind, hmode, ok_bind,
    str2ulong_long2str (by omega), str2ulong_long2str (by omega), str2ulong_long2str (by omega),
    str2ulong_long2str f.mcastMode.toNat_lt, if_neg (by simp), if_neg hcolour, hplanes, ok_bind]
  have hgrey : f.mcastMode.toNat = 1 ↔ f.mcastMode = 1 := by
    rw [← UInt32.toNat_inj]
    rfl
  dsimp only
  simp only [true_and, hgrey]
  rw [shown]
  split_ifs with hone
  · have hlen : (List.replicate f.uvLen (128 : UInt8)).length = f.uvLen := List.length_replicate
    obtain ⟨d4, h4⟩ := @overwrite_of_le d3 (List.replicate f.uvLen 128) f.len (by omega)
    have l4 := overwrite_length h4
    obtain ⟨d5, h5⟩ := @overwrite_of_le d4 (List.replicate f.uvLen 128) (f.len + f.uvLen) (by omega)
    have l5 := overwrite_length h5
    rw [h4, ok_bind, h5]
    refine ⟨d5, rfl, by omega, ?_⟩
    have hgreyCb : HasAt d5 f.len (List.replicate f.uvLen 128) :=
      (hasAt_of_overwrite h4).kept h5 (Or.inl (by omega))
    refine ((hasY.kept h4 (Or.inl (by omega))).kept h5 (Or.inl (by omega))).append ?_
    rw [Nat.zero_add, hY]
    exact hgreyCb.append (by
      rw [hlen]
      exact hasAt_of_overwrite h5)
  · refine ⟨d3, rfl, by omega, hasY.append ?_⟩
    rw [Nat.zero_add, hY]
    exact hasCb.append (by
      rw [hCb]
      exact hasCr)

/-- The numbers of a header fit their fields. -/
structure Small (f : PrimaryFrame) (y cb cr : List UInt8) : Prop where
  width : f.width < 10 ^ 4
  height : f.height < 10 ^ 4
  packet : packetLength y cb cr < 10 ^ 8

/-- What the client has got of a frame. -/
structure Got (f : PrimaryFrame) (planes : List UInt8) (hd : FrameHeader) (r : FrameReader) : Prop where
  width : hd.width = f.width
  height : hd.height = f.height
  planes : ∃ dst, r.buf = some dst ∧ dst.take (f.len + f.uvLen * 2) = planes

theorem shown_length (f : PrimaryFrame) : (shown f).length = f.len + f.uvLen * 2 := by
  have hY : f.Y.length = f.len := f.Y_length
  have hCb : f.Cb.length = f.uvLen := f.Cb_length
  have hCr : f.Cr.length = f.uvLen := f.Cr_length
  rw [shown]
  split_ifs
  · simp only [List.length_append, List.length_replicate]
    omega
  · simp only [List.length_append]
    omega

/-- **A compressed frame is read**, whatever follows it. -/
theorem readFrame_packed {lzo : Lzo} (hlzo : lzo.Lossless) (fill : ℕ → UInt8) {r : FrameReader} (hr : r.Fits)
    {f : PrimaryFrame} {y cb cr : List UInt8} (hf : Compresses lzo f y cb cr) (hsmall : Small f y cb cr)
    (rest : List UInt8) :
    ∃ hd r', readFrame lzo fill r (packed f y cb cr ++ rest) = .ok (some hd, r', rest) ∧ r'.Fits ∧
      Got f (shown f) hd r' := by
  obtain ⟨hw, hh, hpacket⟩ := hsmall
  have hsum : packetLength y cb cr = y.length + cb.length + cr.length + 16 := rfl
  have hheader := @vjClientReadFrameHeader_line _ (packetHead f y cb cr ++ (y ++ (cb ++ cr)) ++ rest) _ _ _ _ _ _ _
    (infoLine_take_length f (packetLength y cb cr) y.length cb.length cr.length)
    (headerFields_exact f hw hh hpacket (by omega) (by omega) (by omega))
    (by exact_mod_cast f.width_pos) (by exact_mod_cast f.height_pos)
  generalize hhd : (⟨f.width, f.height, f.format.code, packetLength y cb cr, y.length, cb.length,
    cr.length⟩ : FrameHeader) = hd at hheader
  have hdw : hd.width = f.width := hhd ▸ rfl
  have hdh : hd.height = f.height := hhd ▸ rfl
  have hdlen : hd.comprLen = packetLength y cb cr := hhd ▸ rfl
  have harea : hd.width * hd.height = (f.len : ℤ) := by
    rw [hdw, hdh, PrimaryFrame.len, Nat.cast_mul]
  rcases hbuffer : frameBuffer fill r hd with ⟨dst, bufsize⟩
  obtain ⟨hroom, hfits⟩ := frameBuffer_room hr hbuffer
  have huv := f.uvLen_le
  -- the packet is received into `space`
  have hbytes : (packetHead f y cb cr ++ (y ++ (cb ++ cr))).length = packetLength y cb cr := by
    simp only [List.length_append, packetHead_length]
    omega
  obtain ⟨space, hspace⟩ := @overwrite_of_le (spaceFor r.space hd.comprLen)
    (packetHead f y cb cr ++ (y ++ (cb ++ cr))) 0 (by
      rw [hdlen, Nat.zero_add, hbytes]
      exact spaceFor_length r.space _)
  have hdata : vjClientReadFrameData hd r.space dst (packetHead f y cb cr ++ (y ++ (cb ++ cr)) ++ rest)
      = .ok (2, some space, dst, rest) := by
    rw [vjClientReadFrameData, if_pos (by rw [hdlen]; omega), sockTRecv_append (by rw [hdlen, hbytes])]
    dsimp only
    rw [hspace, ok_bind]
  -- the planes are decompressed into `dst`
  obtain ⟨dst', hplanes, hlen', hshown⟩ := @lzoDecompress_packed lzo hlzo f y cb cr space dst hf (by omega)
    (hasAt_of_overwrite hspace) (by rw [harea] at hroom; omega)
  have hdecompress : vjClientDecompressFrameData lzo hd space dst = .ok dst' := by
    rw [vjClientDecompressFrameData, harea, Int.toNat_natCast, ← hhd, decompressUvLen_code,
      toUint32_natCast (by omega), toUint32_natCast (by omega), toUint32_natCast (by omega)]
    exact hplanes
  refine ⟨hd, ⟨some space, some dst', bufsize⟩, ?_, fun buf hbuf => ?_, hdw, hdh, dst', rfl, ?_⟩
  · rw [readFrame, packed, List.append_assoc, hheader, ok_bind]
    dsimp only
    rw [hbuffer]
    dsimp only
    rw [hdata, ok_bind]
    show (vjClientDecompressFrameData lzo hd space dst >>= fun dst =>
      .ok (some hd, (⟨some space, some dst, bufsize⟩ : FrameReader), rest)) = _
    rw [hdecompress, ok_bind]
  · obtain rfl := Option.some.inj hbuf
    rw [hlen']
    exact hfits
  · rw [← shown_length]
    exact hshown.2

/-- **A raw frame is read** up to the sixteen bytes behind its planes. -/
theorem readFrame_raw (lzo : Lzo) (fill : ℕ → UInt8) {r : FrameReader} (hr : r.Fits) (f : PrimaryFrame)
    (hw : f.width < 10 ^ 4) (hh : f.height < 10 ^ 4) (rest : List UInt8) :
    ∃ hd r', readFrame lzo fill r
      ((infoLine f 0 f.len f.uvLen f.uvLen).take 44 ++ (f.Y ++ (f.Cb ++ f.Cr) ++ rest))
        = .ok (some hd, r', rest) := by
  have huv := f.uvLen_le
  have hlen : f.len < 10 ^ 8 := by
    have hmul : f.width * f.height < 10 ^ 4 * 10 ^ 4 := Nat.mul_lt_mul'' hw hh
    rw [PrimaryFrame.len]
    omega
  have hheader := @vjClientReadFrameHeader_line _ (f.Y ++ (f.Cb ++ f.Cr) ++ rest) _ _ _ _ _ _ _
    (infoLine_take_length f 0 f.len f.uvLen f.uvLen)
    (headerFields_exact f hw hh (by norm_num) hlen (by omega) (by omega))
    (by exact_mod_cast f.width_pos) (by exact_mod_cast f.height_pos)
  generalize hhd : (⟨f.width, f.height, f.format.code, (0 : ℕ), f.len, f.uvLen, f.uvLen⟩ : FrameHeader) = hd
    at hheader
  have hzero : hd.comprLen = 0 := hhd ▸ rfl
  have hstrides : hd.stride1 + hd.stride2 + hd.stride3 = (f.len : ℤ) + f.uvLen + f.uvLen := hhd ▸ rfl
  have harea : hd.width * hd.height = (f.len : ℤ) := by
    rw [← hhd, PrimaryFrame.len, Nat.cast_mul]
  rcases hbuffer : frameBuffer fill r hd with ⟨dst, bufsize⟩
  obtain ⟨hroom, -⟩ := frameBuffer_room hr hbuffer
  have hbytes : (f.Y ++ (f.Cb ++ f.Cr)).length = f.len + f.uvLen + f.uvLen := by
    have hY : f.Y.length = f.len := f.Y_length
    have hCb : f.Cb.length = f.uvLen := f.Cb_length
    have hCr : f.Cr.length = f.uvLen := f.Cr_length
    simp only [List.length_append]
    omega
  have hsame : hd.stride1 + hd.stride2 + hd.stride3 = ((f.Y ++ (f.Cb ++ f.Cr)).length : ℤ) := by
    rw [hstrides, hbytes]
    push_cast
    ring
  obtain ⟨dst', hdst⟩ := @overwrite_of_le dst (f.Y ++ (f.Cb ++ f.Cr)) 0 (by
    rw [harea] at hroom
    omega)
  refine ⟨hd, ⟨r.space, some dst', bufsize⟩, ?_⟩
  rw [readFrame, hheader, ok_bind]
  dsimp only
  rw [hbuffer]
  dsimp only
  rw [vjClientReadFrameData, if_neg (by omega), sockTRecv_append hsame]
  dsimp only
  rw [hdst, ok_bind, if_neg (by rw [hsame]; simp), ok_bind]
  rfl

/-- A packet of which the header says a length takes this many bytes. -/
theorem readFrame_takes {lzo : Lzo} {fill : ℕ → UInt8} {r r' : FrameReader} {stream packet rest : List UInt8}
    {hd hd' : FrameHeader} (hheader : vjClientReadFrameHeader stream = .ok (some hd, packet))
    (hpos : 0 < hd.comprLen) (h : readFrame lzo fill r stream = .ok (some hd', r', rest)) :
    rest = packet.drop hd.comprLen.toNat := by
  rw [readFrame, hheader, ok_bind] at h
  dsimp only at h
  obtain ⟨⟨ret, space, dst, rest'⟩, hdata, h⟩ := bind_eq_ok.mp h
  rw [vjClientReadFrameData, if_pos hpos, sockTRecv, if_neg (by omega)] at hdata
  split_ifs at hdata with hthere
  · obtain ⟨space', -, hdata⟩ := bind_eq_ok.mp hdata
    obtain ⟨rfl, rfl, rfl, rfl⟩ : 2 = ret ∧ some space' = space ∧ _ = dst ∧ _ = rest' := by
      simpa only [Except.ok.injEq, Prod.mk.injEq] using hdata
    obtain ⟨dst', -, h⟩ := bind_eq_ok.mp h
    simp only [Except.ok.injEq, Prod.mk.injEq] at h
    exact h.2.2.symm
  · obtain ⟨rfl, rfl, -⟩ : 0 = ret ∧ some (spaceFor r.space hd.comprLen) = space ∧ _ := by
      simpa only [Except.ok.injEq, Prod.mk.injEq] using hdata
    cases h

/-! ## The stream -/

/-- The client reads every frame out of what was sent of it, and then stands at the next one. -/
def Reads (lzo : Lzo) (fill : ℕ → UInt8) : FrameReader → List PrimaryFrame → List (List UInt8) → Prop
  | _, [], [] => True
  | r, f :: frames, sent :: later =>
    ∃ hd r', readFrame lzo fill r (sent ++ later.flatten) = .ok (some hd, r', later.flatten) ∧
      Got f (f.Y ++ (f.Cb ++ f.Cr)) hd r' ∧ Reads lzo fill r' frames later
  | _, _, _ => False

/-- A stream of frames, from a server that starts to a client that starts. -/
def Transmitted (lzo : Lzo) (fillSender fillReader : ℕ → UInt8) (frames : List PrimaryFrame) : Prop :=
  ∃ sent s, runOps (sendFrame lzo fillSender) ⟨none, false⟩ frames = .ok (sent, s) ∧
    Reads lzo fillReader ⟨none, none, 0⟩ frames sent

/-- A frame that comes through a buffer of `room` bytes: its planes are compressed, the packet fits the buffer
and the fields of the header, and in mode 1 there is no colour to lose. -/
def Transmissible (lzo : Lzo) (room : ℕ) (f : PrimaryFrame) : Prop :=
  ∃ y cb cr, Compresses lzo f y cb cr ∧ 44 + packetLength y cb cr ≤ room ∧ Small f y cb cr ∧
    (f.mcastMode = 1 → f.Cb = List.replicate f.uvLen 128 ∧ f.Cr = List.replicate f.uvLen 128)

/-- The size of `socket_buffer`: the first frame decides. -/
def senderRoom : List PrimaryFrame → ℕ
  | [] => 0
  | f :: _ => rup8 (f.width * f.height * 3)

theorem shown_eq_iff (f : PrimaryFrame) :
    shown f = f.Y ++ (f.Cb ++ f.Cr) ↔
      (f.mcastMode = 1 → f.Cb = List.replicate f.uvLen 128 ∧ f.Cr = List.replicate f.uvLen 128) := by
  have hCb : f.Cb.length = (List.replicate f.uvLen (128 : UInt8)).length := by
    rw [List.length_replicate]
    exact f.Cb_length
  rw [shown]
  split_ifs with hone
  · rw [List.append_cancel_left_eq]
    constructor
    · intro h _
      obtain ⟨hleft, hright⟩ := List.append_inj h hCb.symm
      exact ⟨hleft.symm, hright.symm⟩
    · intro h
      obtain ⟨hleft, hright⟩ := h hone
      rw [hleft, hright]
  · exact ⟨fun _ h => absurd h hone, fun _ => rfl⟩

/-- What the client has got is what it shows. -/
theorem Got.unique {f : PrimaryFrame} {planes planes' : List UInt8} {hd hd' : FrameHeader} {r : FrameReader}
    (h : Got f planes hd r) (h' : Got f planes' hd' r) : planes = planes' := by
  obtain ⟨dst, hbuf, hplanes⟩ := h.planes
  obtain ⟨dst', hbuf', hplanes'⟩ := h'.planes
  obtain rfl := Option.some.inj (hbuf.symm.trans hbuf')
  exact hplanes.symm.trans hplanes'

/-- **One frame**: it comes through only if it is transmissible. -/
theorem transmissible_of_read {lzo : Lzo} (hlzo : lzo.Lossless) {fill fill' : ℕ → UInt8} {s s' : FrameSender}
    (hs : s.sbic = false) {r r' : FrameReader} (hr : r.Fits) {f : PrimaryFrame} {sent rest : List UInt8}
    {hd : FrameHeader} (hsent : sendFrame lzo fill s f = .ok (sent, s'))
    (hread : readFrame lzo fill' r (sent ++ rest) = .ok (some hd, r', rest))
    (hgot : Got f (f.Y ++ (f.Cb ++ f.Cr)) hd r') :
    Transmissible lzo (s.buffer fill f).length f := by
  have hwidth : f.width < 10 ^ 4 ∧ f.height < 10 ^ 4 := by
    obtain ⟨⟨header, packet⟩, hheader, hrest⟩ := bind_eq_ok.mp hread
    cases header with
    | none => cases hrest
    | some hd' =>
      have hlt := vjClientReadFrameHeader_lt hheader
      obtain ⟨⟨ret, space, dst, rest'⟩, -, hrest⟩ := bind_eq_ok.mp hrest
      have hsame : hd' = hd := by
        dsimp only at hrest
        split at hrest
        · obtain ⟨dst', -, hrest⟩ := bind_eq_ok.mp hrest
          simp only [Except.ok.injEq, Prod.mk.injEq, Option.some.injEq] at hrest
          exact hrest.1
        · simp only [Except.ok.injEq, Prod.mk.injEq, Option.some.injEq] at hrest
          exact hrest.1
        · cases hrest
      have hw := hgot.width
      have hh := hgot.height
      rw [hsame] at hlt
      omega
  obtain ⟨hw, hh⟩ := hwidth
  rcases sendFrame_cases hs hsent with ⟨y, cb, cr, hf, hroom⟩ | ⟨surplus, hsurplus, rfl⟩
  · obtain ⟨buf, hpacked, -⟩ := sendFrame_packed fill hs hf.1 hf.2.1 hf.2.2 hroom
    obtain ⟨rfl, -⟩ := Prod.mk.inj (Except.ok.inj (hsent.symm.trans hpacked))
    have hsmall : Small f y cb cr := by
      refine ⟨hw, hh, ?_⟩
      by_contra hlong
      -- the header has the first eight digits only, and so much less is read
      have hlong' : 10 ^ 8 ≤ packetLength y cb cr := by omega
      obtain ⟨s1, s2, s3, hfields⟩ := @headerFields_cut f (packetLength y cb cr) y.length cb.length cr.length hw hh
      have hheader := @vjClientReadFrameHeader_line _ (packetHead f y cb cr ++ (y ++ (cb ++ cr)) ++ rest)
        _ _ _ _ _ _ _ (infoLine_take_length f _ _ _ _) hfields (by exact_mod_cast f.width_pos)
        (by exact_mod_cast f.height_pos)
      have hpos := zeroPadded_take_pos (show 1 ≤ 8 by norm_num) hlong'
      have hlt := zeroPadded_take_lt hlong'
      rw [packed, List.append_assoc] at hread
      have hrest := congrArg List.length (readFrame_takes hheader (Int.natCast_pos.mpr hpos) hread)
      rw [List.length_drop, Int.toNat_natCast] at hrest
      simp only [List.length_append, packetHead_length] at hrest
      rw [packetLength] at hlt hrest
      omega
    obtain ⟨hd', r'', hread', -, hgot'⟩ := readFrame_packed hlzo fill' hr hf hsmall rest
    obtain ⟨hheader, hreader⟩ := Prod.mk.inj (Except.ok.inj (hread'.symm.trans hread))
    obtain rfl := Option.some.inj hheader
    obtain ⟨rfl, -⟩ := Prod.mk.inj hreader
    exact ⟨y, cb, cr, hf, hroom, hsmall, (shown_eq_iff f).mp (hgot'.unique hgot)⟩
  · obtain ⟨hd', r'', hread'⟩ := readFrame_raw lzo fill' hr f hw hh (surplus ++ rest)
    simp only [List.append_assoc] at hread hread'
    have hrest := Except.ok.inj (hread'.symm.trans hread)
    have hlen := congrArg (fun x => x.2.2.length) hrest
    dsimp only at hlen
    rw [List.length_append] at hlen
    omega

/-- A transmissible frame comes through. -/
theorem read_of_transmissible {lzo : Lzo} (hlzo : lzo.Lossless) (fill fill' : ℕ → UInt8) {s : FrameSender}
    (hs : s.sbic = false) {f : PrimaryFrame} (hf : Transmissible lzo (s.buffer fill f).length f) :
    ∃ sent buf, sendFrame lzo fill s f = .ok (sent, ⟨some buf, false⟩) ∧
      buf.length = (s.buffer fill f).length ∧ ∀ (r : FrameReader) (rest : List UInt8), r.Fits → ∃ hd r',
        readFrame lzo fill' r (sent ++ rest) = .ok (some hd, r', rest) ∧ r'.Fits ∧
          Got f (f.Y ++ (f.Cb ++ f.Cr)) hd r' := by
  obtain ⟨y, cb, cr, hcompress, hroom, hsmall, hmode⟩ := hf
  obtain ⟨buf, hsent, hlen⟩ := sendFrame_packed fill hs hcompress.1 hcompress.2.1 hcompress.2.2 hroom
  refine ⟨_, buf, hsent, hlen, fun r rest hr => ?_⟩
  obtain ⟨hd, r', hread, hr', hgot⟩ := readFrame_packed hlzo fill' hr hcompress hsmall rest
  exact ⟨hd, r', hread, hr', (shown_eq_iff f).mpr hmode ▸ hgot⟩

/-- The room that a sender has for the frames that come. -/
def FrameSender.room (s : FrameSender) (frames : List PrimaryFrame) : ℕ :=
  match s.socketBuffer with
  | some buf => buf.length
  | none => senderRoom frames

theorem FrameSender.buffer_length (fill : ℕ → UInt8) (s : FrameSender) (f : PrimaryFrame)
    (frames : List PrimaryFrame) : (s.buffer fill f).length = s.room (f :: frames) := by
  rw [buffer, room]
  cases s.socketBuffer with
  | none => exact malloc_length _ _
  | some buf => rfl

/-- Transmissible frames come through. -/
theorem reads_of_transmissible {lzo : Lzo} (hlzo : lzo.Lossless) (fill fill' : ℕ → UInt8)
    {frames : List PrimaryFrame} {s : FrameSender} (hs : s.sbic = false)
    (h : ∀ f ∈ frames, Transmissible lzo (s.room frames) f) :
    ∃ sent s', runOps (sendFrame lzo fill) s frames = .ok (sent, s') ∧
      ∀ r : FrameReader, r.Fits → Reads lzo fill' r frames sent := by
  induction frames generalizing s with
  | nil => exact ⟨[], s, rfl, fun r _ => trivial⟩
  | cons f frames ih =>
    rw [List.forall_mem_cons, ← s.buffer_length fill] at h
    obtain ⟨hf, hframes⟩ := h
    obtain ⟨packet, buf, hsent, hlen, hnext⟩ := read_of_transmissible hlzo fill fill' hs hf
    have hroom : (⟨some buf, false⟩ : FrameSender).room frames = (s.buffer fill f).length := hlen
    obtain ⟨later, s', hrun, hreads⟩ := @ih ⟨some buf, false⟩ rfl (by rwa [hroom])
    refine ⟨packet :: later, s', ?_, fun r hr => ?_⟩
    · rw [runOps, hsent, ok_bind, hrun, ok_bind]
    · obtain ⟨hd, r', hread, hr', hgot⟩ := hnext r later.flatten hr
      exact ⟨hd, r', hread, hgot, hreads r' hr'⟩

/-- Only transmissible frames come through. -/
theorem transmissible_of_reads {lzo : Lzo} (hlzo : lzo.Lossless) {fill fill' : ℕ → UInt8}
    {frames : List PrimaryFrame} {s s' : FrameSender} (hs : s.sbic = false) {r : FrameReader} (hr : r.Fits)
    {sent : List (List UInt8)} (hrun : runOps (sendFrame lzo fill) s frames = .ok (sent, s'))
    (hreads : Reads lzo fill' r frames sent) : ∀ f ∈ frames, Transmissible lzo (s.room frames) f := by
  induction frames generalizing s r sent with
  | nil => exact fun f hf => absurd hf List.not_mem_nil
  | cons f frames ih =>
    rw [List.forall_mem_cons, ← s.buffer_length fill]
    obtain ⟨⟨packet, s1⟩, hsent, hrun⟩ := bind_eq_ok.mp hrun
    obtain ⟨⟨later, s2⟩, hlater, hrun⟩ := bind_eq_ok.mp hrun
    obtain ⟨rfl, rfl⟩ := Prod.mk.inj (Except.ok.inj hrun)
    obtain ⟨hd, r', hread, hgot, hreads⟩ := hreads
    have hf := transmissible_of_read hlzo hs hr hsent hread hgot
    -- the sender and the client are then where a frame that came through leaves them
    obtain ⟨packet', buf, hsent', hlen, hnext⟩ := read_of_transmissible hlzo fill fill' hs hf
    obtain ⟨rfl, rfl⟩ := Prod.mk.inj (Except.ok.inj (hsent'.symm.trans hsent))
    obtain ⟨hd', r'', hread', hr', -⟩ := hnext r later.flatten hr
    obtain ⟨-, hreader⟩ := Prod.mk.inj (Except.ok.inj (hread'.symm.trans hread))
    obtain ⟨rfl, -⟩ := Prod.mk.inj hreader
    have hroom : (⟨some buf, false⟩ : FrameSender).room frames = (s.buffer fill f).length := hlen
    exact ⟨hf, hroom ▸ ih rfl hr' hlater hreads⟩

/-- **The stream of frames.**  What the server sends is read frame by frame exactly if every frame is
transmissible. -/
theorem transmitted_iff {lzo : Lzo} (hlzo : lzo.Lossless) (fillSender fillReader : ℕ → UInt8)
    (frames : List PrimaryFrame) :
    Transmitted lzo fillSender fillReader frames ↔
      ∀ f ∈ frames, Transmissible lzo (senderRoom frames) f := by
  have hfits : (⟨none, none, 0⟩ : FrameReader).Fits := fun buf h => by cases h
  constructor
  · rintro ⟨sent, s, hrun, hreads⟩
    exact @transmissible_of_reads lzo hlzo fillSender fillReader frames ⟨none, false⟩ s rfl
      ⟨none, none, 0⟩ hfits sent hrun hreads
  · intro h
    obtain ⟨sent, s, hrun, hreads⟩ :=
      @reads_of_transmissible lzo hlzo fillSender fillReader frames ⟨none, false⟩ rfl h
    exact ⟨sent, s, hrun, hreads _ hfits⟩

/-- A frame of 8 × 8 in 4:2:2, all of one grey. -/
def greyFrame : PrimaryFrame where
  width := 8
  height := 8
  format := .yuv422p
  Y := List.replicate 64 16
  Cb := List.replicate 32 128
  Cr := List.replicate 32 128
  mcastMode := 0
  width_pos := by norm_num
  height_pos := by norm_num
  width_even := rfl
  height_even := rfl
  Y_length := List.length_replicate
  Cb_length := List.length_replicate
  Cr_length := List.length_replicate

/-- A compression that takes blocks of one colour only: the colour, and the length. -/
def runLength : Lzo where
  compress := fun block =>
    match block with
    | [] => none
    | c :: _ => if block.length < 256 ∧ block = List.replicate block.length c
        then some [c, UInt8.ofNat block.length] else none
  decompress := fun packed =>
    match packed with
    | [c, n] => some (List.replicate n.toNat c)
    | _ => none

theorem runLength_lossless : runLength.Lossless := by
  have hpacked : ∀ block packed, runLength.compress block = some packed →
      ∃ c, block.length < 256 ∧ block = List.replicate block.length c ∧
        packed = [c, UInt8.ofNat block.length] := by
    intro block packed h
    cases block with
    | nil => cases h
    | cons c block =>
      simp only [runLength] at h
      split_ifs at h with hsame
      exact ⟨c, hsame.1, hsame.2, (Option.some.inj h).symm⟩
  refine ⟨fun block packed h => ?_, fun block packed h => ?_⟩
  · obtain ⟨c, hlt, hsame, rfl⟩ := hpacked block packed h
    simp only [runLength, UInt8.toNat_ofNat']
    rw [Nat.mod_eq_of_lt (by omega), ← hsame]
  · obtain ⟨c, -, -, rfl⟩ := hpacked block packed h
    simp

theorem greyFrame_transmitted :
    Transmitted runLength (fun _ => 0) (fun _ => 0) [greyFrame, greyFrame] :=
  (transmitted_iff runLength_lossless _ _ _).mpr fun f hf => by
    have hgrey : f = greyFrame := by simpa using hf
    subst hgrey
    exact ⟨[16, 64], [128, 32], [128, 32], ⟨by decide, by decide, by decide⟩, by decide,
      ⟨by decide, by decide, by decide⟩, fun h => absurd h (by decide)⟩

/-- A compression that reports an error for every block. -/
def noCompression : Lzo := ⟨fun _ => none, fun _ => none⟩

theorem noCompression_lossless : noCompression.Lossless where
  restores := fun _ _ h => absurd h (Option.some_ne_none _).symm
  marked := fun _ _ h => absurd h (Option.some_ne_none _).symm

/-- **A raw frame** leaves sixteen bytes in front of the next header. -/
theorem rawFrame_not_transmitted :
    ¬ ∀ (lzo : Lzo) (fillSender fillReader : ℕ → UInt8) (frames : List PrimaryFrame), lzo.Lossless →
      Transmitted lzo fillSender fillReader frames := by
  intro h
  obtain ⟨sent, s, hrun, hreads⟩ := h noCompression (fun _ => 0) (fun _ => 0) [greyFrame, greyFrame]
    noCompression_lossless
  have hfits : (⟨none, none, 0⟩ : FrameReader).Fits := fun buf h => by cases h
  obtain ⟨y, cb, cr, hcompress, -⟩ := @transmissible_of_reads noCompression noCompression_lossless
    (fun _ => 0) (fun _ => 0) [greyFrame, greyFrame] ⟨none, false⟩ s rfl ⟨none, none, 0⟩ hfits sent hrun hreads
    greyFrame List.mem_cons_self
  cases hcompress.1

end Veejay.Net
