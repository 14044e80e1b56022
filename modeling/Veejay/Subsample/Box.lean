import Veejay.CLib.Loop
import Veejay.Subsample.Horizontal

/-!
# From 4:2:0 to 4:4:4 with a box filter

`ss_420jpeg_to_444` writes every sample of a plane into a block of two by two, in place and from the last one on.  Its
counters are unsigned, and its loops go on as long as they are `>= 0` (`libsubsample/subsample.c`).

* `ss420jpegTo444` — the function;
* `ss420jpegTo444_never` — **it returns on no input**.
-/

namespace Veejay.Subsample

open CLib

variable {κ : Type}

/-- The variables of `ss_420jpeg_to_444`, and the memory. -/
structure Box (κ : Type) where
  inp : Ptr κ
  out0 : Ptr κ
  out1 : Ptr κ
  x : UInt32
  y : UInt32
  mem : Bytes κ

section Functions

variable [DecidableEq κ]

/-- The body of the inner loop. -/
def Box.column (b : Box κ) : Exec (Box κ) := do
  let val ← b.mem.read b.inp
  let m ← b.mem.write b.out1 val
  let m ← m.write (b.out1 - 1) val
  let m ← m.write b.out0 val
  let m ← m.write (b.out0 - 1) val
  .ok { b with inp := b.inp - 1, out1 := b.out1 - 2, out0 := b.out0 - 2, x := b.x - 2, mem := m }

/-- `for (x = width - 1; x >= 0; x -= 2)` -/
def Box.columns (fuel width : ℕ) (b : Box κ) : Exec (Box κ) :=
  whileLoop (fun b => decide (b.x ≥ 0)) Box.column fuel { b with x := UInt32.ofNat width - 1 }

/-- The body of the outer loop. -/
def Box.row (fuel width : ℕ) (b : Box κ) : Exec (Box κ) := do
  let b ← b.columns fuel width
  .ok { b with out0 := b.out0 - width, out1 := b.out1 - width, y := b.y - 2 }

/-- `ss_420jpeg_to_444`, without MMX -/
def ss420jpegTo444 (fuel : ℕ) (buffer : Ptr κ) (width height : ℕ) (m : Bytes κ) : Exec (Bytes κ) := do
  let inp : Ptr κ := buffer + (((width * height / 4 : ℕ) : ℤ) - 1)
  let out1 : Ptr κ := buffer + (((width * height : ℕ) : ℤ) - 1)
  let out0 : Ptr κ := out1 - width
  let b ← whileLoop (fun b => decide (b.y ≥ 0)) (Box.row fuel width) fuel
    ⟨inp, out0, out1, 0, UInt32.ofNat height - 1, m⟩
  .ok b.mem

end Functions

/-- `out[y][x] = in[y / 2][x / 2]`, and nothing else changes. -/
def Boxed (buffer : Ptr κ) (width height : ℕ) (m m' : Bytes κ) : Prop :=
  (∀ y < height, ∀ x < width,
    m'.byte (buffer + (y * width + x)) = m.byte (buffer + (y / 2 * (width / 2) + x / 2))) ∧
    ∀ p, (∀ i < height * width, buffer + i ≠ p) → m'.byte p = m.byte p

section Result

variable [DecidableEq κ] {fuel width height : ℕ} {buffer : Ptr κ} {m : Bytes κ}

theorem unsigned_nonneg (x : UInt32) : decide (x ≥ 0) = true := decide_eq_true (UInt32.zero_le)

/-- No number of rounds is enough. -/
theorem ss420jpegTo444_no_result (m' : Bytes κ) : ss420jpegTo444 fuel buffer width height m ≠ .ok m' := by
  intro h
  obtain ⟨b, hb, -⟩ := bind_eq_ok.mp h
  obtain ⟨-, hend⟩ := whileLoop_ok (fun _ => True) (fun _ _ _ _ _ => trivial) hb trivial
  rw [unsigned_nonneg] at hend
  exact absurd hend (by decide)

end Result

/-- **The function returns on no input**, so that it never gives the plane that it should. -/
theorem ss420jpegTo444_never [DecidableEq κ] (buffer : Ptr κ) (width height : ℕ) (m : Bytes κ) :
    ¬ ∃ fuel, Ensures (ss420jpegTo444 fuel buffer width height m) (Boxed buffer width height m) := by
  rintro ⟨fuel, m', h, -⟩
  exact ss420jpegTo444_no_result m' h

/-- On a picture of two by two it does not return either. -/
theorem not_boxed : ¬ ∀ (width height : ℕ) (buffer : Ptr Bool) (m : Bytes Bool),
    (∀ i < height * width, m.room (buffer + i) = true) →
    ∃ fuel, Ensures (ss420jpegTo444 fuel buffer width height m) (Boxed buffer width height m) := by
  intro h
  obtain ⟨fuel, m', hrun, -⟩ := h 2 2 ⟨true, 0⟩ ⟨fun p => decide (0 ≤ p.off ∧ p.off < 4), fun _ => 128⟩ (by decide)
  exact ss420jpegTo444_no_result m' hrun

end Veejay.Subsample
