import Veejay.CLib.FixedWidth

/-!
# Calibration files

The calibration of a camera is three frames, written behind a header of one text (`libstream/vj-tag.c`).  The header says
how long it is, and has no newline; the reader takes it with `fgets` and goes on where that stops, behind the first
newline of the frames or behind 255 bytes.

* `caliWriteFile`, `caliReadFile` — the functions; what `printf` and `scanf` make of a `double` is a parameter;
* `fgetsChunk_append` — what `fgets` takes of a text and what follows it;
* `readFrames_eq_some` — the frames that are read are what is left of the file, and zeros;
* `RoundTrips` — what is read are the frames that were written;
* `roundTrips_iff` — **when they are**: for black frames that are large enough.
-/

namespace Veejay.Cali

open CLib

/-- `%g` and `%lf`. -/
structure Floats (δ : Type) where
  printG : δ → CStr
  scanLf : CStr → Option (δ × CStr)

/-- What the C library says of them: six digits with their sign, point and exponent, which read back up to a blank. -/
structure Floats.Documented {δ : Type} (fl : Floats δ) : Prop where
  short : ∀ x, (fl.printG x).length ≤ 13
  oneLine : ∀ x, newline ∉ fl.printG x ∧ (0 : UInt8) ∉ fl.printG x
  reads : ∀ x rest, (∀ c ∈ rest.head?, c = 32) → ∃ y, fl.scanLf (32 :: (fl.printG x ++ rest)) = some (y, rest)

/-- The sizes of `vj_tag_input`, and the frames and means of a stream. -/
structure Calibration (δ : Type) where
  width : ℕ
  height : ℕ
  uvLen : ℕ
  dark : List UInt8
  light : List UInt8
  flat : List UInt8
  meanY : δ
  meanU : δ
  meanV : δ
  width_pos : 0 < width
  height_pos : 0 < height
  len_lt : width * height < 2 ^ 31
  uvLen_lt : uvLen < 2 ^ 31
  dark_length : dark.length = width * height + 2 * uvLen
  light_length : light.length = width * height + 2 * uvLen
  flat_length : flat.length = width * height + 2 * uvLen

/-- `cali_tag_t` -/
structure CaliTag (δ : Type) where
  bf : List UInt8
  lf : List UInt8
  mf : List UInt8
  uvLen : ℤ
  len : ℤ
  mean : List δ

/-- The numbers of a header. -/
structure Header (δ : Type) where
  w : ℤ
  h : ℤ
  len : ℤ
  uvLen : ℤ
  mean : List δ

section Files

variable {δ : Type} (fl : Floats δ)

/-- `w * h` -/
def Calibration.len (c : Calibration δ) : ℕ := c.width * c.height

/-- The size of a frame. -/
def Calibration.frameLen (c : Calibration δ) : ℕ := c.len + 2 * c.uvLen

/-- The numbers of the header, one behind the other. -/
def headerText (c : Calibration δ) : CStr :=
  zeroPadded 8 c.width ++ 32 :: (zeroPadded 8 c.height ++ 32 :: (zeroPadded 8 c.len ++ 32 :: (zeroPadded 8 c.uvLen ++
    32 :: (fl.printG c.meanY ++ 32 :: (fl.printG c.meanU ++ 32 :: fl.printG c.meanV)))))

/-- `header`, a buffer of 256 bytes. -/
def header (c : Calibration δ) : CStr := (headerText fl c).take 255

/-- `fileheader`: the offset of the frames, and the header. -/
def fileHeader (c : Calibration δ) : CStr :=
  (zeroPadded 3 (4 + (header fl c).length) ++ 32 :: header fl c).take 255

/-- `cali_write_file`: the file, on a disk with room for it. -/
def caliWriteFile (c : Calibration δ) : Option (List UInt8) :=
  if c.frameLen = 0 then none else some (fileHeader fl c ++ (c.dark ++ c.light ++ c.flat))

/-- `%<w>d` -/
def scanNumber (w : ℕ) (s : CStr) : Option (ℤ × CStr) :=
  match scanField w s with
  | .val v rest => some (intValue v, rest)
  | _ => none

/-- `sscanf(header, "%3d %8d %8d %8d %8d %lf %lf %lf", ..)`, with all eight of them. -/
def scanHeader (s : CStr) : Option (Header δ) := do
  let (_, s) ← scanNumber 3 s
  let (w, s) ← scanNumber 8 s
  let (h, s) ← scanNumber 8 s
  let (len, s) ← scanNumber 8 s
  let (uvLen, s) ← scanNumber 8 s
  let (mean0, s) ← fl.scanLf s
  let (mean1, s) ← fl.scanLf s
  let (mean2, _) ← fl.scanLf s
  some ⟨w, h, len, uvLen, [mean0, mean1, mean2]⟩

/-- `fread` of `n` bytes to a buffer of zeros, unless there are none. -/
def readFrame (n : ℕ) (s : List UInt8) : Option (List UInt8 × List UInt8) :=
  if (s.take n).length = 0 then none else some (s.take n ++ List.replicate (n - s.length) 0, s.drop n)

/-- The three frames. -/
def readFrames (hd : Header δ) (s : List UInt8) : Option (CaliTag δ) := do
  let n := (hd.len + 2 * hd.uvLen).toNat
  let (bf, s) ← readFrame n s
  let (lf, s) ← readFrame n s
  let (mf, _) ← readFrame n s
  some ⟨bf, lf, mf, hd.uvLen, hd.len, hd.mean⟩

/-- The frames behind a line of the file, if its numbers are those of the frames that are expected. -/
def readBehind (uvLen : ℤ) (line : List UInt8 × List UInt8) : Option (CaliTag δ) := do
  let hd ← scanHeader fl (cstring line.1)
  if hd.len ≠ hd.w * hd.h then none
  else if uvLen ≠ hd.uvLen then none
  else readFrames hd line.2

/-- `cali_read_file`; of an empty file, `sscanf` gets no line. -/
def caliReadFile (uvLen : ℤ) (file : List UInt8) : Exec (Option (CaliTag δ)) :=
  if file = [] then .error .nullPointer else .ok (readBehind fl uvLen (fgetsChunk 255 file))

/-- **The property**: the frames that are read are the ones that were written. -/
def RoundTrips (c : Calibration δ) : Prop :=
  ∃ file p, caliWriteFile fl c = some file ∧ caliReadFile fl c.uvLen file = .ok (some p) ∧
    p.bf = c.dark ∧ p.lf = c.light ∧ p.mf = c.flat

end Files

/-! ## Reading a line -/

/-- A text without a newline is taken, and then what follows it. -/
theorem fgetsChunk_append {l s : List UInt8} {n : ℕ} (hnl : newline ∉ l) (hn : l.length ≤ n) :
    fgetsChunk n (l ++ s) = (l ++ (fgetsChunk (n - l.length) s).1, (fgetsChunk (n - l.length) s).2) := by
  induction l generalizing n with
  | nil => rfl
  | cons c l ih =>
    obtain ⟨hc, hl⟩ := not_or.mp (fun h => hnl (List.mem_cons.mpr h))
    cases n with
    | zero => exact absurd hn (Nat.not_succ_le_zero _)
    | succ n =>
      rw [List.cons_append, fgetsChunk, if_neg (Ne.symm hc), ih hl (Nat.le_of_succ_le_succ hn), List.length_cons,
        Nat.succ_sub_succ]
      rfl

/-- Something is taken. -/
theorem fgetsChunk_takes {n : ℕ} {s : List UInt8} (hn : 0 < n) (hs : s ≠ []) : 0 < (fgetsChunk n s).1.length := by
  obtain ⟨n, rfl⟩ := Nat.exists_eq_succ_of_ne_zero (Nat.ne_of_gt hn)
  obtain ⟨c, t, rfl⟩ := List.exists_cons_of_ne_nil hs
  rw [fgetsChunk]
  split_ifs
  · exact Nat.one_pos
  · exact Nat.succ_pos _

/-- A text that is itself, moved to the front with zeros behind it, is zeros. -/
theorem zero_of_shifted {front back : List UInt8} (hpos : 0 < front.length)
    (h : front ++ back = back ++ List.replicate front.length 0) : ∀ x ∈ front ++ back, x = 0 := by
  -- from the end to the beginning, each byte is one behind it or one of the zeros
  have hcell : ∀ d i, i + d + 1 = front.length + back.length → (front ++ back)[i]? = some 0 := by
    intro d
    induction d using Nat.strong_induction_on with
    | _ d ih =>
      intro i hi
      rw [h]
      by_cases hback : i < back.length
      · have hmoved := ih (d - front.length) (by omega) (i + front.length) (by omega)
        rw [List.getElem?_append_right (Nat.le_add_left _ _), Nat.add_sub_cancel] at hmoved
        rw [List.getElem?_append_left hback]
        exact hmoved
      · rw [List.getElem?_append_right (not_lt.mp hback), List.getElem?_replicate, if_pos (by omega)]
  intro x hx
  obtain ⟨i, hi, hxi⟩ := List.mem_iff_getElem.mp hx
  rw [List.length_append] at hi
  have hzero := hcell (front.length + back.length - i - 1) i (by omega)
  rw [List.getElem?_eq_getElem (by rw [List.length_append]; exact hi), hxi] at hzero
  exact Option.some.inj hzero

/-! ## The header -/

section Header

variable {δ : Type} {fl : Floats δ} {c : Calibration δ}

theorem Calibration.sizes_le_len (c : Calibration δ) : c.width ≤ c.len ∧ c.height ≤ c.len :=
  ⟨Nat.le_mul_of_pos_right _ c.height_pos, Nat.le_mul_of_pos_left _ c.width_pos⟩

theorem headerText_length (hfl : fl.Documented) (c : Calibration δ) : (headerText fl c).length ≤ 85 := by
  have hfield : ∀ n : ℕ, n < 2 ^ 31 → (zeroPadded 8 n).length ≤ 10 := fun n hn =>
    zeroPadded_length_le (by omega) (by omega) (lt_trans hn (by norm_num))
  have hlen : c.len < 2 ^ 31 := c.len_lt
  obtain ⟨hw, hh⟩ := c.sizes_le_len
  have h₁ := hfield c.width (by omega)
  have h₂ := hfield c.height (by omega)
  have h₃ := hfield c.len hlen
  have h₄ := hfield c.uvLen c.uvLen_lt
  have h₅ := hfl.short c.meanY
  have h₆ := hfl.short c.meanU
  have h₇ := hfl.short c.meanV
  simp only [headerText, List.length_append, List.length_cons]
  omega

/-- **Nothing of the header is cut off.** -/
theorem fileHeader_eq (hfl : fl.Documented) (c : Calibration δ) :
    fileHeader fl c = zeroPadded 3 (4 + (headerText fl c).length) ++ 32 :: headerText fl c ∧
      (fileHeader fl c).length ≤ 89 := by
  have hlen := headerText_length hfl c
  have hheader : header fl c = headerText fl c := List.take_of_length_le (by omega)
  have hoffset : (zeroPadded 3 (4 + (headerText fl c).length)).length = 3 := zeroPadded_length (by omega) (by omega)
  have hall : (zeroPadded 3 (4 + (headerText fl c).length) ++ 32 :: headerText fl c).length ≤ 89 := by
    rw [List.length_append, hoffset, List.length_cons]
    omega
  have heq : fileHeader fl c = zeroPadded 3 (4 + (headerText fl c).length) ++ 32 :: headerText fl c := by
    rw [fileHeader, hheader]
    exact List.take_of_length_le (by omega)
  exact ⟨heq, by rw [heq]; exact hall⟩

/-- It is one line of text. -/
theorem fileHeader_oneLine (hfl : fl.Documented) (c : Calibration δ) :
    newline ∉ fileHeader fl c ∧ (0 : UInt8) ∉ fileHeader fl c := by
  have hdigits : ∀ (w n : ℕ) (x : UInt8), isDigit x = false → x ∉ zeroPadded w n := by
    intro w n x hx hmem
    exact Bool.false_ne_true (hx.symm.trans (isDigit_of_mem_zeroPadded hmem))
  have hy := hfl.oneLine c.meanY
  have hu := hfl.oneLine c.meanU
  have hv := hfl.oneLine c.meanV
  have hline : ∀ x : UInt8, isDigit x = false → x ≠ 32 → x ∉ fl.printG c.meanY → x ∉ fl.printG c.meanU →
      x ∉ fl.printG c.meanV → x ∉ fileHeader fl c := by
    intro x hx h32 hxy hxu hxv
    rw [(fileHeader_eq hfl c).1]
    simp only [headerText, List.mem_append, List.mem_cons, not_or]
    exact ⟨hdigits _ _ x hx, h32, hdigits _ _ x hx, h32, hdigits _ _ x hx, h32, hdigits _ _ x hx, h32,
      hdigits _ _ x hx, h32, hxy, h32, hxu, h32, hxv⟩
  exact ⟨hline newline rfl (by decide) hy.1 hu.1 hv.1, hline 0 rfl (by decide) hy.2 hu.2 hv.2⟩

theorem scanNumber_zeroPadded {w n : ℕ} (rest : CStr) (hw : 1 ≤ w) (hn : n < 10 ^ w) (hint : n < 2 ^ 31) :
    scanNumber w (zeroPadded w n ++ rest) = some ((n : ℤ), rest) := by
  rw [scanNumber, scanField_zeroPadded rest hw hn]
  exact congrArg (fun v => some (v, rest)) (intValue_of_fits (by omega) (by omega))

theorem scanNumber_blank {w n : ℕ} (rest : CStr) (hw : 1 ≤ w) (hn : n < 10 ^ w) (hint : n < 2 ^ 31) :
    scanNumber w (32 :: (zeroPadded w n ++ rest)) = some ((n : ℤ), rest) := by
  rw [scanNumber, scanField_space _ rfl]
  exact scanNumber_zeroPadded rest hw hn hint

/-- **Numbers of up to eight digits read back.** -/
theorem scanHeader_fileHeader (hfl : fl.Documented) (hlen : c.len < 10 ^ 8) (huv : c.uvLen < 10 ^ 8) :
    ∃ mean, scanHeader fl (fileHeader fl c) = some ⟨c.width, c.height, c.len, c.uvLen, mean⟩ := by
  obtain ⟨hw, hh⟩ := c.sizes_le_len
  have hshort := headerText_length hfl c
  obtain ⟨y, hy⟩ := hfl.reads c.meanY (32 :: (fl.printG c.meanU ++ 32 :: fl.printG c.meanV))
    fun _ hx => (Option.some.inj hx).symm
  obtain ⟨u, hu⟩ := hfl.reads c.meanU (32 :: fl.printG c.meanV) fun _ hx => (Option.some.inj hx).symm
  obtain ⟨v, hv⟩ := hfl.reads c.meanV [] fun _ hx => by cases hx
  rw [List.append_nil] at hv
  refine ⟨[y, u, v], ?_⟩
  rw [(fileHeader_eq hfl c).1, scanHeader, scanNumber_zeroPadded _ (by omega) (by omega) (by omega), headerText]
  simp only [Option.bind_eq_bind, Option.bind_some]
  rw [scanNumber_blank _ (by omega) (by omega) (by omega), Option.bind_some,
    scanNumber_blank _ (by omega) (by omega) (by omega), Option.bind_some,
    scanNumber_blank _ (by omega) (by omega) (by omega), Option.bind_some,
    scanNumber_blank _ (by omega) (by omega) (by omega), Option.bind_some, hy, Option.bind_some, hu, Option.bind_some,
    hv, Option.bind_some]

theorem scanNumber_lt {w : ℕ} {s : CStr} {r : ℤ × CStr} (hw : w ≤ 9) (h : scanNumber w s = some r) :
    r.1.natAbs < 10 ^ w := by
  unfold scanNumber at h
  split at h
  · rename_i v rest hscan
    have hlt := scanField_natAbs_lt hscan
    have hpow : 10 ^ w ≤ 10 ^ 9 := Nat.pow_le_pow_right (by norm_num) hw
    obtain rfl := Option.some.inj h
    show (intValue v).natAbs < 10 ^ w
    rw [intValue_of_fits (by omega) (by omega)]
    exact hlt
  · cases h

/-- What is read has eight digits. -/
theorem scanHeader_lt {s : CStr} {hd : Header δ} (h : scanHeader fl s = some hd) :
    hd.len.natAbs < 10 ^ 8 ∧ hd.uvLen.natAbs < 10 ^ 8 := by
  unfold scanHeader at h
  obtain ⟨r₁, -, h⟩ := Option.bind_eq_some_iff.mp h
  obtain ⟨r₂, -, h⟩ := Option.bind_eq_some_iff.mp h
  obtain ⟨r₃, -, h⟩ := Option.bind_eq_some_iff.mp h
  obtain ⟨r₄, hlen, h⟩ := Option.bind_eq_some_iff.mp h
  obtain ⟨r₅, huv, h⟩ := Option.bind_eq_some_iff.mp h
  obtain ⟨r₆, -, h⟩ := Option.bind_eq_some_iff.mp h
  obtain ⟨r₇, -, h⟩ := Option.bind_eq_some_iff.mp h
  obtain ⟨r₈, -, h⟩ := Option.bind_eq_some_iff.mp h
  obtain rfl := Option.some.inj h
  exact ⟨scanNumber_lt (by omega) hlen, scanNumber_lt (by omega) huv⟩

end Header

/-! ## The frames -/

section Frames

variable {δ : Type} {fl : Floats δ}

theorem readFrame_eq_some {n : ℕ} {s : List UInt8} {r : List UInt8 × List UInt8} (h : readFrame n s = some r) :
    0 < n ∧ 0 < s.length ∧ r.1 = s.take n ++ List.replicate (n - s.length) 0 ∧ r.2 = s.drop n := by
  unfold readFrame at h
  split_ifs at h with hnone
  rw [List.length_take] at hnone
  obtain rfl := Option.some.inj h
  exact ⟨by omega, by omega, rfl, rfl⟩

/-- Each frame has the size that is read. -/
theorem readFrames_length {hd : Header δ} {s : List UInt8} {p : CaliTag δ} (h : readFrames hd s = some p) :
    p.bf.length = (hd.len + 2 * hd.uvLen).toNat := by
  unfold readFrames at h
  obtain ⟨⟨bf, s₁⟩, hread₁, hrest₁⟩ := Option.bind_eq_some_iff.mp h
  obtain ⟨⟨lf, s₂⟩, -, hrest₂⟩ := Option.bind_eq_some_iff.mp hrest₁
  obtain ⟨⟨mf, s₃⟩, -, hrest₃⟩ := Option.bind_eq_some_iff.mp hrest₂
  obtain rfl := Option.some.inj hrest₃
  obtain ⟨-, -, hbf, -⟩ := readFrame_eq_some hread₁
  dsimp only at hbf ⊢
  rw [hbf, List.length_append, List.length_take, List.length_replicate]
  omega

/-- **The frames are what is left of the file, and zeros**; something is left for the third one. -/
theorem readFrames_eq_some {hd : Header δ} {s : List UInt8} {p : CaliTag δ} (h : readFrames hd s = some p)
    (hfits : s.length ≤ 3 * (hd.len + 2 * hd.uvLen).toNat) :
    2 * (hd.len + 2 * hd.uvLen).toNat < s.length ∧
      p.bf ++ p.lf ++ p.mf = s ++ List.replicate (3 * (hd.len + 2 * hd.uvLen).toNat - s.length) 0 := by
  unfold readFrames at h
  obtain ⟨n, hn⟩ : ∃ n, (hd.len + 2 * hd.uvLen).toNat = n := ⟨_, rfl⟩
  rw [hn] at h hfits ⊢
  obtain ⟨⟨bf, s₁⟩, hread₁, hrest₁⟩ := Option.bind_eq_some_iff.mp h
  obtain ⟨⟨lf, s₂⟩, hread₂, hrest₂⟩ := Option.bind_eq_some_iff.mp hrest₁
  obtain ⟨⟨mf, s₃⟩, hread₃, hrest₃⟩ := Option.bind_eq_some_iff.mp hrest₂
  obtain rfl := Option.some.inj hrest₃
  obtain ⟨hpos, -, hbf, hs₁⟩ := readFrame_eq_some hread₁
  obtain ⟨-, -, hlf, hs₂⟩ := readFrame_eq_some hread₂
  obtain ⟨-, hleft, hmf, -⟩ := readFrame_eq_some hread₃
  dsimp only at hbf hs₁ hlf hs₂ hmf hleft ⊢
  subst hs₁
  subst hs₂
  rw [List.length_drop, List.length_drop] at hleft hmf
  rw [List.length_drop] at hlf
  have htwo : 2 * n < s.length := by omega
  rw [Nat.sub_eq_zero_of_le (by omega), List.replicate_zero, List.append_nil] at hbf hlf
  rw [hbf, hlf, hmf]
  refine ⟨htwo, ?_⟩
  rw [List.take_of_length_le (show ((s.drop n).drop n).length ≤ n by rw [List.length_drop, List.length_drop]; omega),
    List.append_assoc, ← List.append_assoc ((s.drop n).take n), List.take_append_drop, ← List.append_assoc,
    List.take_append_drop]
  congr 2
  omega

theorem readFrame_zeros {n m : ℕ} (hn : 0 < n) (hm : 0 < m) :
    readFrame n (List.replicate m 0) = some (List.replicate n 0, List.replicate (m - n) 0) := by
  have hsome : ((List.replicate m (0 : UInt8)).take n).length ≠ 0 := by
    rw [List.length_take, List.length_replicate]
    omega
  rw [readFrame, if_neg hsome, List.take_replicate, List.drop_replicate, List.length_replicate,
    ← List.replicate_add]
  congr 3
  omega

theorem readFrames_zeros {hd : Header δ} {n m : ℕ} (hlen : (hd.len + 2 * hd.uvLen).toNat = n) (hn : 0 < n)
    (hm : 2 * n < m) :
    ∃ p, readFrames hd (List.replicate m 0) = some p ∧ p.bf = List.replicate n 0 ∧ p.lf = List.replicate n 0 ∧
      p.mf = List.replicate n 0 := by
  refine ⟨⟨List.replicate n 0, List.replicate n 0, List.replicate n 0, hd.uvLen, hd.len, hd.mean⟩, ?_, rfl, rfl, rfl⟩
  rw [readFrames, hlen]
  simp only [Option.bind_eq_bind]
  rw [readFrame_zeros hn (by omega), Option.bind_some, readFrame_zeros hn (by omega), Option.bind_some,
    readFrame_zeros hn (by omega), Option.bind_some]

end Frames

/-! ## The file -/

section RoundTrip

variable {δ : Type} {fl : Floats δ} {c : Calibration δ}

/-- The bytes of the frames. -/
def Calibration.bytes (c : Calibration δ) : List UInt8 := c.dark ++ c.light ++ c.flat

theorem Calibration.bytes_length (c : Calibration δ) : c.bytes.length = 3 * c.frameLen := by
  have hframe : c.width * c.height + 2 * c.uvLen = c.frameLen := rfl
  rw [Calibration.bytes, List.length_append, List.length_append, c.dark_length, c.light_length, c.flat_length, hframe]
  omega

theorem Calibration.frameLen_pos (c : Calibration δ) : 0 < c.frameLen := by
  have hpos : 0 < c.len := Nat.mul_pos c.width_pos c.height_pos
  rw [Calibration.frameLen]
  omega

theorem caliWriteFile_eq (fl : Floats δ) (c : Calibration δ) : caliWriteFile fl c = some (fileHeader fl c ++ c.bytes) :=
  if_neg (Nat.ne_of_gt c.frameLen_pos)

/-- The part of the frames that goes with the header. -/
def taken (fl : Floats δ) (c : Calibration δ) : List UInt8 × List UInt8 :=
  fgetsChunk (255 - (fileHeader fl c).length) c.bytes

/-- **The reader goes on behind it.** -/
theorem caliReadFile_eq (hfl : fl.Documented) (c : Calibration δ) :
    caliReadFile fl c.uvLen (fileHeader fl c ++ c.bytes) =
      .ok (readBehind fl c.uvLen (fileHeader fl c ++ (taken fl c).1, (taken fl c).2)) := by
  have hlen := (fileHeader_eq hfl c).2
  have hpos := c.frameLen_pos
  have hfile : fileHeader fl c ++ c.bytes ≠ [] := by
    intro h
    have hnil := congrArg List.length h
    rw [List.length_append, c.bytes_length, List.length_nil] at hnil
    omega
  rw [caliReadFile, if_neg hfile, fgetsChunk_append (fileHeader_oneLine hfl c).1 (by omega), taken]

theorem readBehind_eq_some {uvLen : ℤ} {line : List UInt8 × List UInt8} {p : CaliTag δ}
    (h : readBehind fl uvLen line = some p) :
    ∃ hd, scanHeader fl (cstring line.1) = some hd ∧ hd.uvLen = uvLen ∧ readFrames hd line.2 = some p := by
  unfold readBehind at h
  obtain ⟨hd, hscan, hrest⟩ := Option.bind_eq_some_iff.mp h
  split_ifs at hrest with hlen huv
  exact ⟨hd, hscan, (not_not.mp huv).symm, hrest⟩

theorem taken_length (fl : Floats δ) (c : Calibration δ) :
    (taken fl c).1.length + (taken fl c).2.length = 3 * c.frameLen := by
  rw [← c.bytes_length, ← List.length_append, taken, fgetsChunk_parts]

/-- A string ends at the first zero behind it. -/
theorem cstring_append_zeros {l : List UInt8} (h : (0 : UInt8) ∉ l) (k : ℕ) : cstring (l ++ List.replicate k 0) = l := by
  have hall : ∀ x ∈ l, decide (x ≠ 0) = true := fun x hx => decide_eq_true fun hzero => h (hzero ▸ hx)
  cases k with
  | zero => rw [List.replicate_zero, List.append_nil, cstring_of_not_mem h]
  | succ k =>
    rw [cstring, List.takeWhile_append_of_pos hall, List.replicate_succ, List.takeWhile_cons_of_neg (by decide),
      List.append_nil]

/-- What goes with the header of black frames. -/
theorem taken_of_zeros (hzero : ∀ x ∈ c.bytes, x = 0)
    (hmore : 255 ≤ (fileHeader fl c).length + 3 * c.frameLen) :
    (taken fl c).1 = List.replicate (255 - (fileHeader fl c).length) 0 := by
  have hnl : newline ∉ c.bytes := fun h => absurd (hzero _ h) (by decide)
  have hlong := @fgetsChunk_long c.bytes [] (255 - (fileHeader fl c).length) hnl (by rw [c.bytes_length]; omega)
  rw [List.append_nil] at hlong
  rw [taken, hlong]
  refine List.eq_replicate_iff.mpr ⟨?_, fun x hx => hzero x (List.mem_of_mem_take hx)⟩
  rw [List.length_take, c.bytes_length]
  omega

/-- **Frames that are read back are black**, and there is more of each than the header line takes. -/
theorem zero_of_roundTrips (hfl : fl.Documented) (h : RoundTrips fl c) :
    (∀ x ∈ c.bytes, x = 0) ∧ c.len < 10 ^ 8 ∧ c.uvLen < 10 ^ 8 ∧ (taken fl c).1.length < c.frameLen := by
  obtain ⟨file, p, hwrite, hread, hbf, hlf, hmf⟩ := h
  obtain rfl := Option.some.inj ((caliWriteFile_eq fl c).symm.trans hwrite)
  rw [caliReadFile_eq hfl] at hread
  obtain ⟨hd, hscan, huv, hframes⟩ := readBehind_eq_some (Except.ok.inj hread)
  obtain ⟨hlenDigits, huvDigits⟩ := scanHeader_lt hscan
  have hsum := taken_length fl c
  have hpos := c.frameLen_pos
  have hheader := (fileHeader_eq hfl c).2
  -- the sizes are those that were written
  have hsize : (hd.len + 2 * hd.uvLen).toNat = c.frameLen := by
    rw [← readFrames_length hframes, hbf]
    exact c.dark_length
  have hframe : c.frameLen = c.len + 2 * c.uvLen := rfl
  obtain ⟨hthird, hall⟩ := readFrames_eq_some hframes (by rw [hsize]; dsimp only; omega)
  rw [hsize] at hthird hall
  dsimp only at hthird hall
  have hshort : 3 * c.frameLen - (taken fl c).2.length = (taken fl c).1.length := by omega
  have hparts : (taken fl c).1 ++ (taken fl c).2 = c.bytes := fgetsChunk_parts _ _
  have hbytes : c.bytes ≠ [] := by
    intro hnil
    have hnone := c.bytes_length
    rw [hnil, List.length_nil] at hnone
    omega
  have hshifted : (taken fl c).1 ++ (taken fl c).2 =
      (taken fl c).2 ++ List.replicate (taken fl c).1.length 0 := by
    rw [hparts, ← hshort, ← hall, hbf, hlf, hmf]
    rfl
  have hzero : ∀ x ∈ (taken fl c).1 ++ (taken fl c).2, x = 0 :=
    zero_of_shifted (fgetsChunk_takes (by omega) hbytes) hshifted
  rw [hparts] at hzero
  exact ⟨hzero, by omega, by omega, by omega⟩

/-- Black frames that are large enough are read back. -/
theorem roundTrips_of_zeros (hfl : fl.Documented) (hzero : ∀ x ∈ c.bytes, x = 0) (hlen : c.len < 10 ^ 8)
    (huv : c.uvLen < 10 ^ 8) (hmore : 255 < (fileHeader fl c).length + c.frameLen) : RoundTrips fl c := by
  have hpos := c.frameLen_pos
  have hheader := (fileHeader_eq hfl c).2
  have htaken : (taken fl c).1 = List.replicate (255 - (fileHeader fl c).length) 0 := taken_of_zeros hzero (by omega)
  have hsum := taken_length fl c
  rw [htaken, List.length_replicate] at hsum
  have hrest : (taken fl c).2 = List.replicate (taken fl c).2.length 0 := by
    refine List.eq_replicate_iff.mpr ⟨rfl, fun x hx => hzero x ?_⟩
    have hparts : (taken fl c).1 ++ (taken fl c).2 = c.bytes := fgetsChunk_parts _ _
    rw [← hparts]
    exact List.mem_append_right _ hx
  have hline : cstring (fileHeader fl c ++ (taken fl c).1) = fileHeader fl c := by
    rw [htaken]
    exact cstring_append_zeros (fileHeader_oneLine hfl c).2 _
  obtain ⟨mean, hscan⟩ := scanHeader_fileHeader hfl hlen huv
  have hblack : ∀ frame : List UInt8, frame.length = c.frameLen → (∀ x ∈ frame, x ∈ c.bytes) →
      List.replicate c.frameLen 0 = frame := fun frame hlength hmem =>
    (List.eq_replicate_iff.mpr ⟨hlength, fun x hx => hzero x (hmem x hx)⟩).symm
  obtain ⟨p, hread, hbf, hlf, hmf⟩ := @readFrames_zeros δ ⟨c.width, c.height, c.len, c.uvLen, mean⟩ c.frameLen
    (taken fl c).2.length (by rfl) hpos (by omega)
  refine ⟨_, p, caliWriteFile_eq fl c, ?_, hbf.trans (hblack _ c.dark_length fun x hx => ?_),
    hlf.trans (hblack _ c.light_length fun x hx => ?_), hmf.trans (hblack _ c.flat_length fun x hx => ?_)⟩
  · rw [caliReadFile_eq hfl, readBehind, hline, hscan]
    simp only [Option.bind_eq_bind, Option.bind_some]
    rw [if_neg, if_neg, hrest, hread]
    · exact fun hne => hne rfl
    · exact fun hne => hne (Int.natCast_mul _ _)
  · exact List.mem_append_left _ (List.mem_append_left _ hx)
  · exact List.mem_append_left _ (List.mem_append_right _ hx)
  · exact List.mem_append_right _ hx

/-- **When the frames are read back**: when all of them are black, with eight digits for their sizes, and a frame is
larger than what `fgets` takes behind the header. -/
theorem roundTrips_iff (hfl : fl.Documented) (c : Calibration δ) :
    RoundTrips fl c ↔
      (∀ x ∈ c.bytes, x = 0) ∧ c.len < 10 ^ 8 ∧ c.uvLen < 10 ^ 8 ∧ 255 < (fileHeader fl c).length + c.frameLen := by
  constructor
  · intro h
    obtain ⟨hzero, hlen, huv, htaken⟩ := zero_of_roundTrips hfl h
    refine ⟨hzero, hlen, huv, ?_⟩
    by_contra hmore
    by_cases hlong : 255 ≤ (fileHeader fl c).length + 3 * c.frameLen
    · rw [taken_of_zeros hzero hlong, List.length_replicate] at htaken
      omega
    · -- everything is taken
      have hnl : newline ∉ c.bytes := fun h => absurd (hzero _ h) (by decide)
      have hall := @fgetsChunk_append c.bytes [] (255 - (fileHeader fl c).length) hnl (by rw [c.bytes_length]; omega)
      rw [List.append_nil] at hall
      rw [taken, hall, List.length_append, c.bytes_length] at htaken
      omega
  · rintro ⟨hzero, hlen, huv, hmore⟩
    exact roundTrips_of_zeros hfl hzero hlen huv hmore

end RoundTrip

/-! ## Grey frames -/

/-- Whole numbers below a million, which `%g` prints with all their digits. -/
def wholeFloats : Floats (Fin 1000000) where
  printG x := decimal x.val
  scanLf s :=
    match scanInt s with
    | .val v rest => if h : v.toNat < 1000000 then some (⟨v.toNat, h⟩, rest) else none
    | _ => none

theorem wholeFloats_documented : wholeFloats.Documented where
  short x := (decimal_length_le (k := 6) (by decide) x.isLt).trans (by decide)
  oneLine x := ⟨fun h => Bool.false_ne_true (isDigit_of_mem_decimal h),
    fun h => Bool.false_ne_true (isDigit_of_mem_decimal h)⟩
  reads x rest hrest := by
    have hscan := scanInt_blank_decimalInt (x.val : ℤ) rest fun d hd => by rw [hrest d hd]; rfl
    have hdecimal : decimalInt (x.val : ℤ) = decimal x.val := by
      rw [decimalInt, if_neg (by omega), Int.natAbs_natCast]
    rw [hdecimal] at hscan
    refine ⟨x, ?_⟩
    simp only [wholeFloats, hscan]
    exact dif_pos x.isLt

/-- Frames of one brightness each, without colour. -/
def greyFrames (dark light flat : UInt8) (mean : Fin 1000000) : Calibration (Fin 1000000) where
  width := 16
  height := 16
  uvLen := 0
  dark := List.replicate 256 dark
  light := List.replicate 256 light
  flat := List.replicate 256 flat
  meanY := mean
  meanU := mean
  meanV := mean
  width_pos := Nat.succ_pos 15
  height_pos := Nat.succ_pos 15
  len_lt := Nat.lt_of_sub_eq_succ rfl
  uvLen_lt := Nat.two_pow_pos 31
  dark_length := List.length_replicate
  light_length := List.length_replicate
  flat_length := List.length_replicate

/-- Black frames of 16 x 16 are read back. -/
theorem black_roundTrips : RoundTrips wholeFloats (greyFrames 0 0 0 5) := by
  have hzero : ∀ x ∈ (greyFrames 0 0 0 5).bytes, x = 0 := by
    intro x hx
    rcases List.mem_append.mp hx with hx | hx
    · rcases List.mem_append.mp hx with hx | hx
      · exact List.eq_of_mem_replicate hx
      · exact List.eq_of_mem_replicate hx
    · exact List.eq_of_mem_replicate hx
  exact (roundTrips_iff wholeFloats_documented (greyFrames 0 0 0 5)).mpr
    ⟨hzero, by decide, by decide, by decide⟩

/-- Of other ones, the first frame that is read begins in the middle of the one that was written. -/
theorem grey_not_roundTrips :
    (caliReadFile wholeFloats 0 (fileHeader wholeFloats (greyFrames 1 2 3 5) ++ (greyFrames 1 2 3 5).bytes)).map
      (Option.map CaliTag.bf) = .ok (some (List.replicate 46 1 ++ List.replicate 210 2)) ∧
    ¬ RoundTrips wholeFloats (greyFrames 1 2 3 5) := by
  refine ⟨by decide +kernel, fun h => ?_⟩
  have hzero := (zero_of_roundTrips wholeFloats_documented h).1 1 (by decide)
  exact absurd hzero (by decide)

end Veejay.Cali
