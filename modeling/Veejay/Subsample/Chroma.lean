import Veejay.Subsample.Average
import Veejay.Subsample.Box
import Veejay.Subsample.Reflected

/-!
# Supersampling and subsampling

`chroma_supersample` brings the two chroma planes of a frame to 4:4:4 for an effect that needs them so, and
`chroma_subsample` brings them back (`libsubsample/subsample.c`).

* `chromaSupersample`, `chromaSubsample` — the functions;
* `plane_restored_iff` — the average of a pair of equal bytes is that byte, so that only a row which has not been
  expanded changes;
* `planesRestored_iff` — **the planes come back exactly if** the first row of each of them is not changed by being halved.
-/

namespace Veejay.Subsample

open CLib

variable {κ : Type}

/-! ## The functions -/

/-- `subsample_mode_t` -/
inductive SubsampleMode where
  | ssmUnknown
  | ssm420JpegTr
  | ssm420JpegBox
  | ssm420Mpeg2
  | ssm422444
  | ssm420422
  deriving DecidableEq

/-- `ycbcr[1]` and `ycbcr[2]`, and the size of the frame. -/
structure Planes (κ : Type) where
  cb : Ptr κ
  cr : Ptr κ
  width : ℕ
  height : ℕ

/-- The memory, and `_chroma_supersample_data`. -/
structure Chroma (κ : Type) where
  mem : Bytes κ
  data : Option (Ptr κ)

section Functions

variable [DecidableEq κ]

/-- `vj_calloc (n)`, where the new object is `k`. -/
def vjCalloc (k : κ) (n : ℕ) (m : Bytes κ) : Bytes κ where
  room p := if p.obj = k then decide (0 ≤ p.off ∧ p.off < n) else m.room p
  byte p := if p.obj = k then 0 else m.byte p

/-- `chroma_supersample`: `fresh` is the object that is made when the saved rows are needed for the first time. -/
def chromaSupersample (fuel : ℕ) (fresh : κ) (mode : SubsampleMode) (f : Planes κ) (c : Chroma κ) : Exec (Chroma κ) := do
  let c : Chroma κ := if c.data.isNone ∧ mode = .ssm420JpegTr then
      ⟨vjCalloc fresh (f.width * 2) c.mem, some ⟨fresh, 0⟩⟩
    else c
  match mode with
  | .ssm420JpegBox => do
    let m ← ss420jpegTo444 fuel f.cb f.width f.height c.mem
    let m ← ss420jpegTo444 fuel f.cr f.width f.height m
    .ok { c with mem := m }
  | .ssm420JpegTr =>
    match c.data with
    | none => .error .nullPointer
    | some data => do
      let m ← tr420jpegTo444 data f.cb f.width f.height c.mem
      let m ← tr420jpegTo444 data f.cr f.width f.height m
      .ok { c with mem := m }
  | .ssm422444 => do
    let m ← tr422To444 f.cb f.width f.height c.mem
    let m ← tr422To444 f.cr f.width f.height m
    .ok { c with mem := m }
  -- `ss_420_to_422` is still to be written
  | .ssm420422 => .ok c
  | .ssmUnknown | .ssm420Mpeg2 => .ok c

/-- `chroma_subsample` -/
def chromaSubsample (mode : SubsampleMode) (f : Planes κ) (m : Bytes κ) : Exec (Bytes κ) :=
  match mode with
  | .ssm420JpegBox | .ssm420JpegTr => do
    let m ← ss444To420jpeg f.cb f.width f.height m
    ss444To420jpeg f.cr f.width f.height m
  | .ssm420Mpeg2 => do
    let m ← ss444To420mpeg2 f.cb f.width f.height m
    ss444To420mpeg2 f.cr f.width f.height m
  | .ssm422444 => do
    let m ← ss444To422Cp f.cb f.cb f.width f.height m
    ss444To422Cp f.cr f.cr f.width f.height m
  -- `ss_422_to_420` is still to be written
  | .ssm420422 => .ok m
  | .ssmUnknown => .ok m

/-- There and back. -/
def superAndSubsample (fuel : ℕ) (fresh : κ) (mode : SubsampleMode) (f : Planes κ) (c : Chroma κ) : Exec (Bytes κ) := do
  let c ← chromaSupersample fuel fresh mode f c
  chromaSubsample mode f c.mem

end Functions

/-! ## One plane -/

theorem average_self (v : UInt8) : average v v = v := by
  have hsum : (v.toNat + v.toNat + 1) >>> 1 = v.toNat := by
    rw [Nat.shiftRight_eq_div_pow]
    omega
  rw [average, hsum, UInt8.ofNat_toNat]

/-- The rows from the second one on are expanded and halved, the first one is halved only. -/
theorem plane_restored_iff {before expanded halved : ℕ → UInt8} {s height : ℕ}
    (hdoubled : ∀ y, 1 ≤ y → y < height → ∀ x < s, ∀ b < 2,
      expanded (y * (2 * s) + (2 * x + b)) = before (y * s + x))
    (hfirst : ∀ j < 2 * s, expanded j = before j)
    (haverage : ∀ y < height, ∀ x < s, halved (y * s + x) =
      average (expanded (y * (2 * s) + 2 * x)) (expanded (y * (2 * s) + (2 * x + 1)))) :
    (∀ y < height, ∀ x < s, halved (y * s + x) = before (y * s + x)) ↔
      height = 0 ∨ ∀ x < s, average (before (2 * x)) (before (2 * x + 1)) = before x := by
  have hrow : ∀ x < s, 0 < height → halved (0 * s + x) = average (before (2 * x)) (before (2 * x + 1)) := by
    intro x hx hpos
    rw [haverage 0 hpos x hx, Nat.zero_mul, Nat.zero_add, Nat.zero_add, hfirst _ (by omega), hfirst _ (by omega)]
  constructor
  · intro h
    rcases Nat.eq_zero_or_pos height with hzero | hpos
    · exact .inl hzero
    · refine .inr fun x hx => ?_
      rw [← hrow x hx hpos, h 0 hpos x hx, Nat.zero_mul, Nat.zero_add]
  · rintro (rfl | h) y hy x hx
    · exact absurd hy (Nat.not_lt_zero y)
    · by_cases hy' : 1 ≤ y
      · have heven := hdoubled y hy' hy x hx 0 (by decide)
        have hodd := hdoubled y hy' hy x hx 1 (by decide)
        rw [Nat.add_zero] at heven
        rw [haverage y hy x hx, heven, hodd, average_self]
      · obtain rfl : y = 0 := by omega
        rw [hrow x hx hy, h x hx, Nat.zero_mul, Nat.zero_add]

/-! ## Both planes -/

/-- Both planes of 4:2:2 are as before. -/
def Restored (f : Planes κ) (m m' : Bytes κ) : Prop :=
  ∀ y < f.height, ∀ x < f.width / 2,
    m'.byte (f.cb + (y * (f.width / 2) + x)) = m.byte (f.cb + (y * (f.width / 2) + x)) ∧
      m'.byte (f.cr + (y * (f.width / 2) + x)) = m.byte (f.cr + (y * (f.width / 2) + x))

/-- The first row of a plane is not changed by being halved. -/
def FirstRowStays (m : Bytes κ) (plane : Ptr κ) (width : ℕ) : Prop :=
  ∀ x < width / 2, average (m.byte (plane + 2 * x)) (m.byte (plane + (2 * x + 1))) = m.byte (plane + x)

section Result

variable [DecidableEq κ] {fuel : ℕ} {fresh : κ} {f : Planes κ} {c : Chroma κ}

/-- The functions return, with the planes expanded and halved but for the first rows, which are halved only. -/
theorem superAndSubsample_spec (hwidth : Even f.width) (hcb : ∀ i < f.height * f.width, c.mem.room (f.cb + i) = true)
    (hcr : ∀ i < f.height * f.width, c.mem.room (f.cr + i) = true)
    (hplanes : ∀ i < f.height * f.width, ∀ j < f.height * f.width, f.cb + i ≠ f.cr + j) :
    ∃ m', superAndSubsample fuel fresh .ssm422444 f c = .ok m' ∧ (Restored f c.mem m' ↔
      f.height = 0 ∨ FirstRowStays c.mem f.cb f.width ∧ FirstRowStays c.mem f.cr f.width) := by
  obtain ⟨cb, cr, width, height⟩ := f
  obtain ⟨m, data⟩ := c
  dsimp only at hwidth hcb hcr hplanes ⊢
  obtain ⟨s, rfl⟩ := hwidth.two_dvd
  have hhalf : 2 * s / 2 = s := by omega
  obtain ⟨m₁, hrun₁, hroom₁, hdoubled₁, hfirst₁, hframe₁⟩ := tr422To444_spec hcb
  obtain ⟨m₂, hrun₂, hroom₂, hdoubled₂, hfirst₂, hframe₂⟩ := tr422To444_spec (m := m₁) (hroom₁ ▸ hcr)
  obtain ⟨m₃, hrun₃, hroom₃, haverage₃, hframe₃⟩ := ss444To422Cp_spec (m := m₂) (hroom₂ ▸ hroom₁ ▸ hcb)
  obtain ⟨m₄, hrun₄, -, haverage₄, hframe₄⟩ := ss444To422Cp_spec (m := m₃) (hroom₃ ▸ hroom₂ ▸ hroom₁ ▸ hcr)
  have hrun : superAndSubsample fuel fresh .ssm422444 ⟨cb, cr, 2 * s, height⟩ ⟨m, data⟩ = .ok m₄ := by
    have hsuper : chromaSupersample fuel fresh .ssm422444 ⟨cb, cr, 2 * s, height⟩ ⟨m, data⟩ = .ok ⟨m₂, data⟩ := by
      rw [chromaSupersample, if_neg (by rintro ⟨-, h⟩; cases h)]
      dsimp only
      rw [hrun₁, ok_bind, hrun₂, ok_bind]
    have hsub : chromaSubsample .ssm422444 ⟨cb, cr, 2 * s, height⟩ m₂ = .ok m₄ := by
      rw [chromaSubsample]
      dsimp only
      rw [hrun₃, ok_bind, hrun₄]
    rw [superAndSubsample, hsuper, ok_bind, hsub]
  -- what happens to one plane does not change the other one
  have hcr₁ : ∀ i < height * (2 * s), m₁.byte (cr + i) = m.byte (cr + i) :=
    fun i hi => hframe₁ _ fun j hj => hplanes j hj i hi
  have hcb₂ : ∀ i < height * (2 * s), m₂.byte (cb + i) = m₁.byte (cb + i) :=
    fun i hi => hframe₂ _ fun j hj => (hplanes i hi j hj).symm
  have hcr₃ : ∀ i < height * (2 * s), m₃.byte (cr + i) = m₂.byte (cr + i) :=
    fun i hi => hframe₃ _ fun j hj => hplanes j hj i hi
  have hcb₄ : ∀ i < height * (2 * s), m₄.byte (cb + i) = m₃.byte (cb + i) :=
    fun i hi => hframe₄ _ fun j hj => (hplanes i hi j hj).symm
  have hplace : ∀ y < height, ∀ x < s, y * s + x < height * (2 * s) := by
    intro y hy x hx
    have hin := plane_index_lt hy (show x < 2 * s by omega)
    have hle : y * s ≤ y * (2 * s) := Nat.mul_le_mul_left y (by omega)
    omega
  refine ⟨m₄, hrun, ?_⟩
  rcases Nat.eq_zero_or_pos height with rfl | hpos
  · exact ⟨fun _ => .inl rfl, fun _ y hy => absurd hy (Nat.not_lt_zero y)⟩
  have hrow : 1 * (2 * s) ≤ height * (2 * s) := Nat.mul_le_mul_right _ hpos
  have hblue := @plane_restored_iff (fun i => m.byte (cb + i)) (fun i => m₁.byte (cb + i)) (fun i => m₄.byte (cb + i))
    s height hdoubled₁ hfirst₁ fun y hy x hx => by
      rw [hcb₄ _ (hplace y hy x hx), haverage₃ y hy x hx, hcb₂ _ (plane_index_lt hy (by omega)),
        hcb₂ _ (plane_index_lt hy (by omega))]
  have hred := @plane_restored_iff (fun i => m.byte (cr + i)) (fun i => m₂.byte (cr + i)) (fun i => m₄.byte (cr + i))
    s height (fun y hpos hy x hx b hb => (hdoubled₂ y hpos hy x hx b hb).trans (hcr₁ _ (hplace y hy x hx)))
    (fun j hj => (hfirst₂ j hj).trans (hcr₁ _ (by omega))) fun y hy x hx => by
      rw [haverage₄ y hy x hx, hcr₃ _ (plane_index_lt hy (by omega)), hcr₃ _ (plane_index_lt hy (by omega))]
  rw [Restored, FirstRowStays, FirstRowStays]
  dsimp only
  rw [hhalf, or_and_left, ← hblue, ← hred]
  constructor
  · exact fun h => ⟨fun y hy x hx => (h y hy x hx).1, fun y hy x hx => (h y hy x hx).2⟩
  · exact fun h y hy x hx => ⟨h.1 y hy x hx, h.2 y hy x hx⟩

/-- **The planes come back exactly if** the first row of each of them is not changed by being halved: it is not expanded
before. -/
theorem planesRestored_iff (hwidth : Even f.width) (hcb : ∀ i < f.height * f.width, c.mem.room (f.cb + i) = true)
    (hcr : ∀ i < f.height * f.width, c.mem.room (f.cr + i) = true)
    (hplanes : ∀ i < f.height * f.width, ∀ j < f.height * f.width, f.cb + i ≠ f.cr + j) :
    Ensures (superAndSubsample fuel fresh .ssm422444 f c) (Restored f c.mem) ↔
      f.height = 0 ∨ FirstRowStays c.mem f.cb f.width ∧ FirstRowStays c.mem f.cr f.width := by
  obtain ⟨m', hrun, hrestored⟩ := @superAndSubsample_spec κ _ fuel fresh f c hwidth hcb hcr hplanes
  rw [hrun, ensures_ok]
  exact hrestored

end Result

/-- Planes of four by two whose bytes are all 128 come back. -/
theorem restored_grey : Ensures (superAndSubsample 0 true .ssm422444 ⟨⟨true, 0⟩, ⟨false, 0⟩, 4, 2⟩ ⟨greyBytes, none⟩)
    (Restored ⟨⟨true, 0⟩, ⟨false, 0⟩, 4, 2⟩ greyBytes) :=
  (planesRestored_iff (by decide) (fun _ _ => rfl) (fun _ _ => rfl) (by decide)).mpr
    (.inr ⟨fun _ _ => average_self 128, fun _ _ => average_self 128⟩)

/-- A row of two bytes that are their places does not come back. -/
theorem not_restored : ¬ ∀ (fuel : ℕ) (fresh : Bool) (f : Planes Bool) (c : Chroma Bool), Even f.width →
    (∀ i, c.mem.room i = true) → f.cb.obj ≠ f.cr.obj →
    Ensures (superAndSubsample fuel fresh .ssm422444 f c) (Restored f c.mem) := by
  intro h
  have hrestored := h 0 true ⟨⟨true, 0⟩, ⟨false, 0⟩, 2, 1⟩ ⟨numberedBytes, none⟩ (by decide) (fun _ => rfl) (by decide)
  obtain ⟨m', hrun, hiff⟩ := @superAndSubsample_spec Bool _ 0 true ⟨⟨true, 0⟩, ⟨false, 0⟩, 2, 1⟩ ⟨numberedBytes, none⟩
    (by decide) (fun _ _ => rfl) (fun _ _ => rfl) (by decide)
  rcases hiff.mp (hrestored.apply hrun) with hzero | ⟨hrow, -⟩
  · exact absurd hzero (by decide)
  · exact absurd (hrow 0 (by decide)) (by decide)

end Veejay.Subsample
