import Veejay.CLib.Exec

/-!
# Fixed-width integers and the conversions between them

The integer types of the source are the fixed-width types of the core library.  A conversion is
modular (`UInt64.ofInt`, `Int64.ofInt`, `Int32.ofInt`); an increment of a signed value that leaves the
type is undefined behaviour and therefore a fault.  The lemmas of this file read every operation back
in `ℕ` or `ℤ`, where `omega` takes over.
-/

namespace CLib

theorem uint64_toNat_ofInt (z : ℤ) : (UInt64.ofInt z).toNat = (z % 2 ^ 64).toNat := by
  rw [UInt64.ofInt, UInt64.toNat_ofNat']
  omega

theorem uint64_toNat_ofInt_of_nonneg {z : ℤ} (h : 0 ≤ z) (h' : z < 2 ^ 64) :
    (UInt64.ofInt z).toNat = z.toNat := by
  rw [uint64_toNat_ofInt]
  omega

theorem int32_toInt_ofInt {z : ℤ} (h : -2 ^ 31 ≤ z) (h' : z < 2 ^ 31) :
    (Int32.ofInt z).toInt = z := by
  rw [Int32.toInt_ofInt, Int.bmod_eq_of_le] <;> simp only [Int32.size] <;> omega

theorem uint64_toNat_sub_of_le {a b : UInt64} (h : b.toNat ≤ a.toNat) :
    (a - b).toNat = a.toNat - b.toNat := by
  have ha := a.toNat_lt
  have hb := b.toNat_lt
  rw [UInt64.toNat_sub]
  omega

theorem uint64_toNat_add_of_lt {a b : UInt64} (h : a.toNat + b.toNat < 2 ^ 64) :
    (a + b).toNat = a.toNat + b.toNat := by
  rw [UInt64.toNat_add]
  omega

/-- An `int` operand in a `uint64_t` expression. -/
def widen (x : Int32) : UInt64 := x.toInt64.toUInt64

/-- A `uint64_t` value assigned to an `int`. -/
def narrow (x : UInt64) : Int32 := x.toUInt32.toInt32

theorem widen_toNat (x : Int32) : (widen x).toNat = (x.toInt % 2 ^ 64).toNat := by
  have hbit : (widen x).toNat = (x.toBitVec.signExtend 64).toNat := rfl
  have hx : (x.toBitVec.signExtend 64).toInt = x.toInt := by
    rw [BitVec.toInt_signExtend_of_le (by decide)]
    rfl
  have hlt := (x.toBitVec.signExtend 64).isLt
  rw [BitVec.toInt_eq_toNat_cond] at hx
  rw [hbit]
  split_ifs at hx <;> omega

theorem widen_toNat_of_nonneg {x : Int32} (h : 0 ≤ x.toInt) : (widen x).toNat = x.toInt.toNat := by
  have hx := x.toInt_lt
  rw [widen_toNat]
  omega

theorem narrow_toInt (x : UInt64) : (narrow x).toInt = (x.toNat : ℤ).bmod (2 ^ 32) := by
  have hbit : (narrow x).toInt = (x.toBitVec.setWidth 32).toInt := rfl
  rw [hbit, BitVec.toInt_setWidth]
  rfl

theorem narrow_toInt_of_lt {x : UInt64} (h : x.toNat < 2 ^ 31) : (narrow x).toInt = x.toNat := by
  rw [narrow_toInt, Int.bmod_eq_of_le] <;> omega

theorem int64_toUInt64_toNat (x : Int64) : x.toUInt64.toNat = (x.toInt % 2 ^ 64).toNat := by
  have hx : x.toBitVec.toInt = x.toInt := rfl
  have hlt := x.toBitVec.isLt
  have hbit : x.toUInt64.toNat = x.toBitVec.toNat := rfl
  rw [BitVec.toInt_eq_toNat_cond] at hx
  rw [hbit]
  split_ifs at hx <;> omega

theorem uint64_toInt64_toInt (x : UInt64) : x.toInt64.toInt = (x.toNat : ℤ).bmod (2 ^ 64) := by
  have hbit : x.toInt64.toInt = x.toBitVec.toInt := rfl
  rw [hbit, BitVec.toInt_eq_toNat_bmod]
  rfl

theorem uint64_toInt64_toInt_of_lt {x : UInt64} (h : x.toNat < 2 ^ 63) :
    x.toInt64.toInt = x.toNat := by
  rw [uint64_toInt64_toInt, Int.bmod_eq_of_le] <;> omega

theorem uint64_ofInt_toInt64 (x : UInt64) : UInt64.ofInt x.toInt64.toInt = x := by
  apply UInt64.toNat_inj.mp
  have hlt := x.toNat_lt
  have hmod : ((x.toNat : ℤ).bmod (2 ^ 64)) % ((2 ^ 64 : ℕ) : ℤ) = x.toNat % ((2 ^ 64 : ℕ) : ℤ) := Int.bmod_emod
  rw [uint64_toNat_ofInt, uint64_toInt64_toInt]
  omega

/-- `x + y` on two values of type `long`. -/
def int64Add (x y : Int64) : Exec Int64 :=
  if -2 ^ 63 ≤ x.toInt + y.toInt ∧ x.toInt + y.toInt < 2 ^ 63 then .ok (x + y) else .error .overflow

/-- `x++` on an `int`. -/
def int32Inc (x : Int32) : Exec Int32 :=
  if x.toInt + 1 < 2 ^ 31 then .ok (Int32.ofInt (x.toInt + 1)) else .error .overflow

theorem int32Inc_eq_ok {x y : Int32} :
    int32Inc x = .ok y ↔ y.toInt = x.toInt + 1 := by
  have hx := x.le_toInt
  have hy := y.toInt_lt
  unfold int32Inc
  split_ifs with h
  · have hval := int32_toInt_ofInt (z := x.toInt + 1) (by omega) (by omega)
    constructor
    · intro heq
      obtain rfl : Int32.ofInt (x.toInt + 1) = y := by simpa using heq
      exact hval
    · intro heq
      rw [Except.ok.injEq]
      exact Int32.toInt_inj.mp (hval.trans heq.symm)
  · constructor
    · intro heq
      cases heq
    · intro heq
      omega

end CLib
