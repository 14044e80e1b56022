import Veejay.Subsample.Horizontal

/-!
# From 4:2:0 to 4:4:4

Every sample of a plane of 4:2:0 becomes a block of two by two, each of whose bytes is a weighted average of the sample
and its neighbours; at the borders the sample takes the place of what is not there.  `tr_420jpeg_to_444` computes the
blocks in place, from the last one on, with the first two rows saved (`libsubsample/subsample.c`).

* `tr420jpegTo444` — the function;
* `upsampled` — the filter, over a plane that stays;
* `tr420jpegTo444_upsampled` — **the function computes the filter.**
-/

namespace Veejay.Subsample

open CLib

variable {κ : Type}

/-! ## The function -/

/-- `inm`, `in0`, `inp`, `out0` and `out1` -/
structure Taps (κ : Type) where
  inm : Ptr κ
  in0 : Ptr κ
  inp : Ptr κ
  out0 : Ptr κ
  out1 : Ptr κ

/-- `(1 * corner + 3 * (vertical + horizontal) + 9 * centre + 8) >> 4` -/
def mix (corner vertical horizontal centre : UInt8) : UInt8 :=
  UInt8.ofNat ((1 * corner.toNat + 3 * (vertical.toNat + horizontal.toNat) + 9 * centre.toNat + 8) >>> 4)

/-- `blank ? BLANK_CRB : *q` -/
def Taps.tap (p : Taps κ) (blank : Bool) (q : Ptr κ) : Ptr κ := if blank then p.in0 + 1 else q

section Functions

variable [DecidableEq κ]

/-- `veejay_memcpy (dst, src, n)` -/
def memcpy (dst src : Ptr κ) (n : ℕ) : Bytes κ → Exec (Bytes κ) :=
  forUp 0 n 1 fun i m => do
    let v ← m.read (src + i)
    m.write (dst + i) v

/-- The body of the inner loop. -/
def filterBlock (width height y x : ℕ) (p : Taps κ) (m : Bytes κ) : Exec (Taps κ × Bytes κ) := do
  let cmm ← m.read (p.tap (x == 2 || y == 2) (p.inm + 0))
  let cm0 ← m.read (p.tap (y == 2) (p.inm + 1))
  let cmp ← m.read (p.tap (x == width || y == 2) (p.inm + 2))
  let c0m ← m.read (p.tap (x == 2) (p.in0 + 0))
  let c00 ← m.read (p.in0 + 1)
  let c0p ← m.read (p.tap (x == width) (p.in0 + 2))
  let cpm ← m.read (p.tap (x == 2 || y == height) (p.inp + 0))
  let cp0 ← m.read (p.tap (y == height) (p.inp + 1))
  let cpp ← m.read (p.tap (x == width || y == height) (p.inp + 2))
  let p := { p with inm := p.inm - 1, in0 := p.in0 - 1, inp := p.inp - 1 }
  let m ← m.write p.out1 (mix cpp cp0 c0p c00)
  let m ← m.write (p.out1 - 1) (mix cpm cp0 c0m c00)
  let m ← m.write p.out0 (mix cmp cm0 c0p c00)
  let m ← m.write (p.out0 - 1) (mix cmm cm0 c0m c00)
  .ok ({ p with out1 := p.out1 - 2, out0 := p.out0 - 2 }, m)

/-- `tr_420jpeg_to_444` -/
def tr420jpegTo444 (data buffer : Ptr κ) (width height : ℕ) (m : Bytes κ) : Exec (Bytes κ) := do
  let saveme := data
  let m ← memcpy saveme buffer width m
  let in0 := buffer + (((width * height / 4 : ℕ) : ℤ) - 2)
  let out1 := buffer + (((width * height : ℕ) : ℤ) - 1)
  let p : Taps κ := ⟨in0 - width / 2, in0, in0 + width / 2, out1 - width, out1⟩
  let (_, m) ← forDown height 2 (fun y (p, m) => do
    -- the first two rows may be overwritten by now
    let p := if y = 2 then
        let in0 := saveme + (((width / 2 : ℕ) : ℤ) - 2)
        { p with in0 := in0, inp := in0 + width / 2 }
      else p
    let (p, m) ← forDown width 2 (fun x (p, m) => filterBlock width height y x p m) (p, m)
    .ok ({ p with out1 := p.out1 - width, out0 := p.out0 - width }, m)) (p, m)
  .ok m

end Functions

/-! ## The filter -/

/-- Where a neighbour is, in a row or in a column. -/
inductive Side where
  | before
  | here
  | behind

/-- The neighbour of the `i`-th of `n`, if there is one. -/
def Side.of : Side → ℕ → ℕ → Option ℕ
  | .before, _, i => if i = 0 then none else some (i - 1)
  | .here, _, i => some i
  | .behind, n, i => if i + 1 < n then some (i + 1) else none

/-- The neighbour of a sample, or the sample itself. -/
def neighbour (rows cols r c : ℕ) (v h : Side) : ℕ × ℕ :=
  match v.of rows r, h.of cols c with
  | some r', some c' => (r', c')
  | _, _ => (r, c)

/-- The side on which a byte of the block of a sample lies. -/
def sideOf (i : ℕ) : Side := if i % 2 = 0 then .before else .behind

/-- The byte in row `y` and column `x` of the result. -/
def upsampled (image : ℕ → ℕ → UInt8) (rows cols y x : ℕ) : UInt8 :=
  let sample (v h : Side) := image (neighbour rows cols (y / 2) (x / 2) v h).1 (neighbour rows cols (y / 2) (x / 2) v h).2
  mix (sample (sideOf y) (sideOf x)) (sample (sideOf y) .here) (sample .here (sideOf x)) (sample .here .here)

/-! ## The rounds -/

section Rounds

variable {data buffer : Ptr κ} {n s r c : ℕ}

/-- Where the rows are read that the sample in row `r` needs: the first two were saved. -/
def source (data buffer : Ptr κ) (r : ℕ) : Ptr κ := if r = 0 then data else buffer

/-- The address of a neighbour of the sample in row `r` and column `c`. -/
def address (data buffer : Ptr κ) (n s r c : ℕ) (v h : Side) : Ptr κ :=
  source data buffer r + ((neighbour n s r c v h).1 * s + (neighbour n s r c v h).2)

/-- The place of a byte of the block of a sample. -/
def target (buffer : Ptr κ) (s r c i j : ℕ) : Ptr κ := buffer + ((2 * r + i) * (2 * s) + (2 * c + j))

/-- The average of four of the bytes that a round has read. -/
def mixOf (corner vertical horizontal : ℕ) (vs : List UInt8) : UInt8 :=
  mix (vs.getD corner 0) (vs.getD vertical 0) (vs.getD horizontal 0) (vs.getD 4 0)

/-- The block of the sample in row `r` and column `c`. -/
def sampleStep (data buffer : Ptr κ) (n s r c : ℕ) : Step (Ptr κ) UInt8 where
  reads :=
    let at_ := address data buffer n s r c
    [at_ .before .before, at_ .before .here, at_ .before .behind, at_ .here .before, at_ .here .here, at_ .here .behind,
      at_ .behind .before, at_ .behind .here, at_ .behind .behind]
  writes :=
    [(target buffer s r c 1 1, mixOf 8 7 5), (target buffer s r c 1 0, mixOf 6 7 3),
      (target buffer s r c 0 1, mixOf 2 1 5), (target buffer s r c 0 0, mixOf 0 1 3)]

/-- The running pointers at the sample in row `r` and column `c`, where `base` is what is read. -/
def tapsAt (buffer base : Ptr κ) (s r c : ℤ) : Taps κ where
  inm := buffer + ((r - 1) * s + c - 1)
  in0 := base + (r * s + c - 1)
  inp := base + ((r + 1) * s + c - 1)
  out0 := buffer + (2 * r * (2 * s) + 2 * c + 1)
  out1 := buffer + ((2 * r + 1) * (2 * s) + 2 * c + 1)

/-- The pointer to a row. -/
def Taps.row (p : Taps κ) : Side → Ptr κ
  | .before => p.inm
  | .here => p.in0
  | .behind => p.inp

/-- The index that is read behind the pointer. -/
def Side.index : Side → ℕ
  | .before => 0
  | .here => 1
  | .behind => 2

/-- A neighbour that is there is where the pointers say. -/
theorem row_address {v h : Side} {r' c' : ℕ} (hv : v.of n r = some r') (hh : h.of s c = some c') :
    (tapsAt buffer (source data buffer r) s r c).row v + h.index = source data buffer r + (r' * s + c') := by
  have hcol : (h.index : ℤ) + c - 1 = c' := by
    cases h with
    | before =>
      rw [Side.of] at hh
      split_ifs at hh with hc
      obtain rfl := Option.some.inj hh
      rw [Side.index]
      omega
    | here =>
      obtain rfl := Option.some.inj hh
      rw [Side.index]
      omega
    | behind =>
      rw [Side.of] at hh
      split_ifs at hh with hc
      obtain rfl := Option.some.inj hh
      rw [Side.index]
      omega
  have hplace : ∀ z : ℤ, z + h.index = (r' * s : ℤ) + c' → source data buffer r + z + h.index =
      source data buffer r + (r' * s + c' : ℕ) := by
    intro z hz
    refine Ptr.ext rfl ?_
    rw [Ptr.add_nat_off, Ptr.add_off, Ptr.add_nat_off, Int.add_assoc, hz]
    push_cast
    rfl
  cases v with
  | before =>
    rw [Side.of] at hv
    split_ifs at hv with hr
    obtain rfl := Option.some.inj hv
    have hsource : source data buffer r = buffer := if_neg hr
    have hcast : ((r - 1 : ℕ) : ℤ) = r - 1 := by omega
    rw [hsource] at hplace ⊢
    refine hplace _ ?_
    rw [hcast, ← hcol]
    ring
  | here =>
    obtain rfl := Option.some.inj hv
    refine hplace _ ?_
    rw [← hcol]
    ring
  | behind =>
    rw [Side.of] at hv
    split_ifs at hv with hr
    obtain rfl := Option.some.inj hv
    refine hplace _ ?_
    rw [← hcol]
    push_cast
    ring

/-- At the borders, the sample itself is read. -/
theorem tap_address {v h : Side} {blank : Bool} (hblank : blank = true ↔ v.of n r = none ∨ h.of s c = none) :
    (tapsAt buffer (source data buffer r) s r c).tap blank
        ((tapsAt buffer (source data buffer r) s r c).row v + h.index) =
      address data buffer n s r c v h := by
  rw [Taps.tap, address, neighbour]
  cases hv : v.of n r with
  | none =>
    rw [if_pos (hblank.mpr (.inl hv))]
    exact row_address (v := .here) (h := .here) (n := n) rfl rfl
  | some r' =>
    cases hh : h.of s c with
    | none =>
      rw [if_pos (hblank.mpr (.inr hh))]
      exact row_address (v := .here) (h := .here) (n := n) rfl rfl
    | some c' =>
      rw [if_neg (by rw [hblank, hv, hh]; rintro (h | h) <;> cases h)]
      exact row_address hv hh

/-- The bytes of the block of a sample. -/
theorem target_address {i j : ℕ} {z : ℤ} (hz : z = (2 * r + i) * (2 * s) + (2 * c + j)) :
    buffer + z = target buffer s r c i j := by
  refine Ptr.ext rfl ?_
  rw [target, Ptr.add_off, Ptr.add_nat_off, hz]
  push_cast
  rfl

theorem target_pred {i : ℕ} : target buffer s r c i 1 - 1 = target buffer s r c i 0 := by
  refine Ptr.ext rfl ?_
  rw [target, target, Ptr.sub_nat_off, Ptr.add_nat_off, Ptr.add_nat_off]
  push_cast
  ring

/-- The pointers at the sample in front of it. -/
theorem tapsAt_pred (base : Ptr κ) (s r c : ℤ) :
    { tapsAt buffer base s r c with
      inm := (tapsAt buffer base s r c).inm - 1
      in0 := (tapsAt buffer base s r c).in0 - 1
      inp := (tapsAt buffer base s r c).inp - 1
      out1 := (tapsAt buffer base s r c).out1 - 2
      out0 := (tapsAt buffer base s r c).out0 - 2 } = tapsAt buffer base s r (c - 1) := by
  rw [tapsAt, tapsAt]
  dsimp only
  rw [Ptr.add_sub_eq (a := (r - 1) * s + (c - 1) - 1) _ (by push_cast; ring),
    Ptr.add_sub_eq (a := r * s + (c - 1) - 1) _ (by push_cast; ring),
    Ptr.add_sub_eq (a := (r + 1) * s + (c - 1) - 1) _ (by push_cast; ring),
    Ptr.add_sub_eq (a := 2 * r * (2 * s) + 2 * (c - 1) + 1) _ (by push_cast; ring),
    Ptr.add_sub_eq (a := (2 * r + 1) * (2 * s) + 2 * (c - 1) + 1) _ (by push_cast; ring)]

/-- The pointers at the end of a row, moved to the row in front of it. -/
theorem tapsAt_row (base : Ptr κ) (s : ℕ) (r : ℤ) :
    { tapsAt buffer base s r (-1) with
      out1 := (tapsAt buffer base s r (-1)).out1 - 2 * s
      out0 := (tapsAt buffer base s r (-1)).out0 - 2 * s } = tapsAt buffer base s (r - 1) (s - 1) := by
  have hrow : ∀ z : ℤ, z * s + (-1 : ℤ) - 1 = (z - 1) * s + (s - 1) - 1 := by
    intro z
    ring
  have hnext : (r + 1) * s + (-1 : ℤ) - 1 = (r - 1 + 1) * s + (s - 1) - 1 := by ring
  rw [tapsAt, tapsAt]
  dsimp only
  rw [hrow (r - 1), hrow r, hnext,
    Ptr.add_sub_eq (a := 2 * (r - 1) * (2 * s) + 2 * (s - 1) + 1) _ (by push_cast; ring),
    Ptr.add_sub_eq (a := (2 * (r - 1) + 1) * (2 * s) + 2 * (s - 1) + 1) _ (by push_cast; ring)]

/-- The pointers at the beginning: at the last sample. -/
theorem tapsAt_start (n s : ℕ) :
    (⟨buffer + (((2 * s * (2 * n) / 4 : ℕ) : ℤ) - 2) - (2 * s / 2 : ℕ), buffer + (((2 * s * (2 * n) / 4 : ℕ) : ℤ) - 2),
      buffer + (((2 * s * (2 * n) / 4 : ℕ) : ℤ) - 2) + (2 * s / 2 : ℕ),
      buffer + (((2 * s * (2 * n) : ℕ) : ℤ) - 1) - (2 * s : ℕ), buffer + (((2 * s * (2 * n) : ℕ) : ℤ) - 1)⟩ : Taps κ) =
      tapsAt buffer buffer s (n - 1) (s - 1) := by
  have hquarter : 2 * s * (2 * n) / 4 = s * n := by
    have hfour : 2 * s * (2 * n) = 4 * (s * n) := by ring
    rw [hfour, Nat.mul_div_cancel_left _ (by decide)]
  have hhalf : 2 * s / 2 = s := by omega
  rw [hquarter, hhalf, tapsAt]
  refine congr (congr (congr (congr (congrArg Taps.mk ?_) ?_) ?_) ?_) ?_ <;> refine Ptr.ext rfl ?_ <;>
    simp only [Ptr.add_off, Ptr.add_nat_off, Ptr.sub_nat_off] <;> push_cast <;> ring

/-- What is read in the round `k`, before it is seen that the first row has come. -/
def baseAt (data buffer : Ptr κ) (n k : ℕ) : Ptr κ := if 0 < n ∧ k = n then data else buffer

/-- The first row is read where it was saved. -/
theorem tapsAt_saved (hr : r < n) :
    (if 2 * (r + 1) = 2 then
        { tapsAt buffer (baseAt data buffer n (n - 1 - r)) s r (s - 1) with
          in0 := data + (((2 * s / 2 : ℕ) : ℤ) - 2)
          inp := data + (((2 * s / 2 : ℕ) : ℤ) - 2) + (2 * s / 2 : ℕ) }
      else tapsAt buffer (baseAt data buffer n (n - 1 - r)) s r (s - 1)) =
      tapsAt buffer (source data buffer r) s r (s - 1) := by
  have hhalf : 2 * s / 2 = s := by omega
  have hbase : baseAt data buffer n (n - 1 - r) = buffer := if_neg (by omega)
  rw [hhalf, hbase, source]
  by_cases hzero : r = 0
  · rw [if_pos (by omega), if_pos hzero, hzero, tapsAt, tapsAt]
    refine congr (congr (congr (congr (congrArg Taps.mk rfl) ?_) ?_) rfl) rfl <;> refine Ptr.ext rfl ?_ <;>
      simp only [Ptr.add_off, Ptr.add_nat_off] <;> push_cast <;> ring
  · rw [if_neg (by omega), if_neg hzero]

/-- The blocks of a row, from the last one on. -/
def reflectedRow (data buffer : Ptr κ) (n s r : ℕ) : List (Step (Ptr κ) UInt8) :=
  (List.range s).flatMap fun k => [sampleStep data buffer n s r (s - 1 - k)]

/-- All blocks, from the last row on. -/
def reflectedSteps (data buffer : Ptr κ) (n s : ℕ) : List (Step (Ptr κ) UInt8) :=
  (List.range n).flatMap fun k => reflectedRow data buffer n s (n - 1 - k)

theorem mem_reflectedRow {t : Step (Ptr κ) UInt8} :
    t ∈ reflectedRow data buffer n s r ↔ ∃ c < s, t = sampleStep data buffer n s r c := by
  rw [reflectedRow, List.mem_flatMap]
  constructor
  · rintro ⟨k, hk, ht⟩
    have hk := List.mem_range.mp hk
    exact ⟨s - 1 - k, by omega, List.mem_singleton.mp ht⟩
  · rintro ⟨c, hc, rfl⟩
    have hback : s - 1 - (s - 1 - c) = c := by omega
    refine ⟨s - 1 - c, List.mem_range.mpr (by omega), ?_⟩
    rw [hback]
    exact List.mem_singleton_self _

theorem mem_reflectedSteps {t : Step (Ptr κ) UInt8} :
    t ∈ reflectedSteps data buffer n s ↔ ∃ r < n, ∃ c < s, t = sampleStep data buffer n s r c := by
  rw [reflectedSteps, List.mem_flatMap]
  constructor
  · rintro ⟨k, hk, ht⟩
    have hk := List.mem_range.mp hk
    exact ⟨n - 1 - k, by omega, mem_reflectedRow.mp ht⟩
  · rintro ⟨r, hr, ht⟩
    have hback : n - 1 - (n - 1 - r) = r := by omega
    refine ⟨n - 1 - r, List.mem_range.mpr (by omega), ?_⟩
    rw [hback]
    exact mem_reflectedRow.mpr ht

/-- What is read is a neighbour, and what is written is in the block. -/
theorem mem_sampleStep_reads {p : Ptr κ} (h : p ∈ (sampleStep data buffer n s r c).reads) :
    ∃ v h, p = address data buffer n s r c v h := by
  rw [sampleStep] at h
  simp only [List.mem_cons, List.not_mem_nil, or_false] at h
  rcases h with h | h | h | h | h | h | h | h | h <;> exact ⟨_, _, h⟩

theorem mem_sampleStep_writes {w : Ptr κ × (List UInt8 → UInt8)} (h : w ∈ (sampleStep data buffer n s r c).writes) :
    ∃ i < 2, ∃ j < 2, w.1 = target buffer s r c i j := by
  rw [sampleStep] at h
  simp only [List.mem_cons, List.not_mem_nil, or_false] at h
  rcases h with rfl | rfl | rfl | rfl <;> exact ⟨_, by decide, _, by decide, rfl⟩

/-- A neighbour is in the plane, and at most one row further down. -/
theorem neighbour_lt (hr : r < n) (hc : c < s) (v h : Side) :
    (neighbour n s r c v h).1 < n ∧ (neighbour n s r c v h).1 ≤ r + 1 ∧ (neighbour n s r c v h).2 < s := by
  have hside : ∀ {v : Side} {n i i' : ℕ}, i < n → v.of n i = some i' → i' < n ∧ i' ≤ i + 1 := by
    intro v n i i' hi hv
    cases v with
    | before =>
      rw [Side.of] at hv
      split_ifs at hv
      obtain rfl := Option.some.inj hv
      omega
    | here =>
      obtain rfl := Option.some.inj hv
      omega
    | behind =>
      rw [Side.of] at hv
      split_ifs at hv with hin
      obtain rfl := Option.some.inj hv
      omega
  rw [neighbour]
  cases hv : v.of n r with
  | none => exact ⟨hr, Nat.le_succ r, hc⟩
  | some r' =>
    cases hh : h.of s c with
    | none => exact ⟨hr, Nat.le_succ r, hc⟩
    | some c' => exact ⟨(hside hr hv).1, (hside hr hv).2, (hside hc hh).1⟩

/-- Different bytes of the result have different places. -/
theorem target_inj {r' c' i j i' j' : ℕ} (hc : c < s) (hc' : c' < s) (hi : i < 2) (hj : j < 2) (hi' : i' < 2) (hj' : j' < 2)
    (h : target buffer s r c i j = target buffer s r' c' i' j') : r = r' ∧ c = c' ∧ i = i' ∧ j = j' := by
  have hplace := Ptr.add_nat_inj.mp h
  have hrow : 2 * r + i = 2 * r' + i' := by
    by_contra hne
    exact plane_index_ne hne (by omega) (by omega) hplace
  rw [hrow] at hplace
  omega

/-- The block of a sample lies behind everything that is still read of the buffer. -/
theorem target_ne_address {r' c' i j : ℕ} (hobj : data.obj ≠ buffer.obj) (hr : r < n) (hrr : r' ≤ r) (hc' : c' < s)
    (v h : Side) : target buffer s r c i j ≠ address data buffer n s r' c' v h := by
  intro heq
  rw [target, address, source] at heq
  split_ifs at heq with hfirst
  · have hsame := congrArg Ptr.obj heq
    exact hobj hsame.symm
  · obtain ⟨-, hrow, hcol⟩ := neighbour_lt (Nat.lt_of_le_of_lt hrr hr) hc' v h
    have hplace := Ptr.add_nat_inj.mp heq
    have hread := Nat.mul_le_mul_right s hrow
    have hwritten : 4 * r * s ≤ (2 * r + i) * (2 * s) := by
      calc 4 * r * s = 2 * r * (2 * s) := by ring
        _ ≤ (2 * r + i) * (2 * s) := Nat.mul_le_mul_right _ (by omega)
    have hbelow : (r' + 1) * s + s ≤ 4 * r * s := by
      calc (r' + 1) * s + s = (r' + 2) * s := by ring
        _ ≤ 4 * r * s := Nat.mul_le_mul_right _ (by omega)
    omega

theorem sampleStep_apart {r' c' : ℕ} (hobj : data.obj ≠ buffer.obj) (hr : r < n) (hrr : r' ≤ r) (hc : c < s) (hc' : c' < s)
    (hne : ¬ (r = r' ∧ c = c')) : (sampleStep data buffer n s r c).Apart (sampleStep data buffer n s r' c') := by
  intro w hw
  obtain ⟨i, hi, j, hj, hplace⟩ := mem_sampleStep_writes hw
  rw [hplace]
  constructor
  · intro hmem
    obtain ⟨v, h, hread⟩ := mem_sampleStep_reads hmem
    exact target_ne_address hobj hr hrr hc' v h hread
  · intro w' hw' heq
    obtain ⟨i', hi', j', hj', hplace'⟩ := mem_sampleStep_writes hw'
    obtain ⟨hsame, hcol, -, -⟩ := target_inj hc hc' hi hj hi' hj' (heq.trans hplace')
    exact hne ⟨hsame, hcol⟩

theorem sampleStep_once (hc : c < s) : (sampleStep data buffer n s r c).Once := by
  have hne : ∀ {i j i' j' : ℕ}, i < 2 → j < 2 → i' < 2 → j' < 2 → (i, j) ≠ (i', j') →
      target buffer s r c i j ≠ target buffer s r c i' j' := by
    intro i j i' j' hi hj hi' hj' hpair heq
    obtain ⟨-, -, rfl, rfl⟩ := target_inj hc hc hi hj hi' hj' heq
    exact hpair rfl
  rw [Step.Once, sampleStep]
  simp only [List.map_cons, List.map_nil, List.nodup_cons, List.mem_cons, List.not_mem_nil, or_false, not_or,
    not_false_eq_true, List.nodup_nil, and_true]
  refine ⟨⟨?_, ?_, ?_⟩, ⟨?_, ?_⟩, ?_⟩ <;> exact hne (by decide) (by decide) (by decide) (by decide) (by decide)

theorem apart_reflectedSteps (hobj : data.obj ≠ buffer.obj) : Apart (reflectedSteps data buffer n s) := by
  refine apart_flatMap (fun k hk => ?_) ?_
  · have hk := List.mem_range.mp hk
    refine apart_flatMap (fun j hj => ⟨fun t ht => ?_, List.pairwise_singleton ..⟩) ?_
    · have hj := List.mem_range.mp hj
      obtain rfl := List.mem_singleton.mp ht
      exact sampleStep_once (by omega)
    · -- two blocks of a row
      refine List.Pairwise.imp_of_mem ?_ List.pairwise_lt_range
      intro j j' hj hj' hlt t ht t' ht'
      have hj := List.mem_range.mp hj
      have hj' := List.mem_range.mp hj'
      obtain rfl := List.mem_singleton.mp ht
      obtain rfl := List.mem_singleton.mp ht'
      exact sampleStep_apart hobj (by omega) le_rfl (by omega) (by omega) (by omega)
  · -- two rows
    refine List.Pairwise.imp_of_mem ?_ List.pairwise_lt_range
    intro k k' hk hk' hlt t ht t' ht'
    have hk' := List.mem_range.mp hk'
    obtain ⟨c, hc, rfl⟩ := mem_reflectedRow.mp ht
    obtain ⟨c', hc', rfl⟩ := mem_reflectedRow.mp ht'
    exact sampleStep_apart hobj (by omega) (by omega) hc hc' (by omega)

variable [DecidableEq κ]

theorem filterBlock_eq (hr : r < n) (hc : c < s) (m : Bytes κ) :
    filterBlock (2 * s) (2 * n) (2 * (r + 1)) (2 * (c + 1)) (tapsAt buffer (source data buffer r) s r c) m =
      runAll [sampleStep data buffer n s r c] m >>= fun m =>
        .ok (tapsAt buffer (source data buffer r) s r (c - 1), m) := by
  have htap : ∀ (v h : Side) (blank : Bool), (blank = true ↔ v.of n r = none ∨ h.of s c = none) →
      (tapsAt buffer (source data buffer r) s r c).tap blank
        ((tapsAt buffer (source data buffer r) s r c).row v + h.index) = address data buffer n s r c v h :=
    fun v h blank => tap_address
  have h00 : (tapsAt buffer (source data buffer r) s r c).in0 + 1 = address data buffer n s r c .here .here :=
    row_address (v := .here) (h := .here) (n := n) rfl rfl
  have h11 : (tapsAt buffer (source data buffer r) s r c).out1 = target buffer s r c 1 1 :=
    target_address (by push_cast; ring)
  have h10 : (tapsAt buffer (source data buffer r) s r c).out1 - 1 = target buffer s r c 1 0 := by
    rw [h11, target_pred]
  have h01 : (tapsAt buffer (source data buffer r) s r c).out0 = target buffer s r c 0 1 :=
    target_address (by push_cast; ring)
  have h0 : (tapsAt buffer (source data buffer r) s r c).out0 - 1 = target buffer s r c 0 0 := by
    rw [h01, target_pred]
  have hpred := @tapsAt_pred κ buffer (source data buffer r) s r c
  generalize tapsAt buffer (source data buffer r) s r c = p at *
  have hmm : p.tap (2 * (c + 1) == 2 || 2 * (r + 1) == 2) (p.inm + 0) = address data buffer n s r c .before .before :=
    htap .before .before _ (by simp [Side.of]; omega)
  have hm0 : p.tap (2 * (r + 1) == 2) (p.inm + 1) = address data buffer n s r c .before .here :=
    htap .before .here _ (by simp [Side.of])
  have hmp : p.tap (2 * (c + 1) == 2 * s || 2 * (r + 1) == 2) (p.inm + 2) =
      address data buffer n s r c .before .behind := htap .before .behind _ (by simp [Side.of]; omega)
  have h0m : p.tap (2 * (c + 1) == 2) (p.in0 + 0) = address data buffer n s r c .here .before :=
    htap .here .before _ (by simp [Side.of])
  have h0p : p.tap (2 * (c + 1) == 2 * s) (p.in0 + 2) = address data buffer n s r c .here .behind :=
    htap .here .behind _ (by simp [Side.of]; omega)
  have hpm : p.tap (2 * (c + 1) == 2 || 2 * (r + 1) == 2 * n) (p.inp + 0) =
      address data buffer n s r c .behind .before := htap .behind .before _ (by simp [Side.of]; omega)
  have hp0 : p.tap (2 * (r + 1) == 2 * n) (p.inp + 1) = address data buffer n s r c .behind .here :=
    htap .behind .here _ (by simp [Side.of]; omega)
  have hpp : p.tap (2 * (c + 1) == 2 * s || 2 * (r + 1) == 2 * n) (p.inp + 2) =
      address data buffer n s r c .behind .behind := htap .behind .behind _ (by simp [Side.of]; omega)
  rw [filterBlock, runAll_single, sampleStep, hmm, hm0, hmp, h0m, h00, h0p, hpm, hp0, hpp]
  dsimp only
  simp only [Step.run, List.mapM_cons, List.mapM_nil, List.foldlM_cons, List.foldlM_nil, bind_assoc, pure_bind,
    bind_pure]
  rw [hpred, h10, h11, h0, h01]
  rfl

/-- The loop over a row. -/
theorem reflectedRow_eq (hr : r < n) (m : Bytes κ) :
    forDown (2 * s) 2 (fun x (t : Taps κ × Bytes κ) => match t with
      | (p, m) => filterBlock (2 * s) (2 * n) (2 * (r + 1)) x p m)
        (tapsAt buffer (source data buffer r) s r (s - 1), m) =
      runAll (reflectedRow data buffer n s r) m >>= fun m =>
        .ok (tapsAt buffer (source data buffer r) s r (-1), m) := by
  rw [forDown_runAll (n := s) (f := fun k => tapsAt buffer (source data buffer r) s r (s - 1 - k)) (by omega)
    (by rw [Nat.cast_zero, Int.sub_zero]) fun k => [sampleStep data buffer n s r (s - 1 - k)]]
  · have hend : (s : ℤ) - 1 - s = -1 := by omega
    rw [hend]
    rfl
  · intro k hk m
    have hx : 2 * s - 2 * k = 2 * (s - 1 - k + 1) := by omega
    have hc : ((s - 1 - k : ℕ) : ℤ) = s - 1 - k := by omega
    have hnext : (s : ℤ) - 1 - (k + 1 : ℕ) = (s - 1 - k : ℕ) - 1 := by omega
    dsimp only
    rw [hx, ← hc, filterBlock_eq hr (by omega), hnext]

theorem tr420jpegTo444_eq (m : Bytes κ) :
    tr420jpegTo444 data buffer (2 * s) (2 * n) m =
      memcpy data buffer (2 * s) m >>= runAll (reflectedSteps data buffer n s) := by
  rw [tr420jpegTo444]
  dsimp only
  congr 1
  funext m
  have hstart : tapsAt buffer (baseAt data buffer n 0) s (n - 1 - (0 : ℕ)) (s - 1) =
      tapsAt buffer buffer s (n - 1) (s - 1) := by
    have hbase : baseAt data buffer n 0 = buffer := if_neg (by omega)
    rw [hbase, Nat.cast_zero, Int.sub_zero]
  rw [tapsAt_start, forDown_runAll (n := n) (f := fun k => tapsAt buffer (baseAt data buffer n k) s (n - 1 - k) (s - 1))
    (by omega) hstart (fun k => reflectedRow data buffer n s (n - 1 - k)), bind_assoc]
  · exact bind_pure _
  · intro k hk m
    obtain ⟨r, hrow⟩ : ∃ r, n = r + 1 + k := ⟨n - 1 - k, by omega⟩
    have hr : r < n := by omega
    have hk' : k = n - 1 - r := by omega
    have hback : n - 1 - k = r := by omega
    have hy : 2 * n - 2 * k = 2 * (r + 1) := by omega
    have hrz : (n : ℤ) - 1 - k = r := by omega
    have hnext : (n : ℤ) - 1 - (k + 1 : ℕ) = r - 1 := by omega
    have hsource : baseAt data buffer n (k + 1) = source data buffer r := by
      rw [baseAt, source]
      refine if_congr ?_ rfl rfl
      omega
    dsimp only
    rw [hback, hy, hrz, hnext, hsource]
    rw [hk', tapsAt_saved hr, reflectedRow_eq hr, bind_assoc]
    congr 1
    funext m
    rw [ok_bind]
    dsimp only
    rw [← tapsAt_row]

end Rounds

/-! ## What the function leaves -/

section Result

variable {data buffer dst src : Ptr κ} {n s r c : ℕ} {m m' : Bytes κ}

/-- A byte of `veejay_memcpy`. -/
def copyStep (dst src : Ptr κ) (k : ℕ) : Step (Ptr κ) UInt8 := ⟨[src + k], [(dst + k, first)]⟩

theorem apart_copySteps (hobj : dst.obj ≠ src.obj) : Apart ((List.range n).flatMap fun k => [copyStep dst src k]) := by
  refine apart_flatMap (fun k _ => ⟨fun t ht => ?_, List.pairwise_singleton ..⟩) ?_
  · obtain rfl := List.mem_singleton.mp ht
    exact Step.once_single _
  · refine List.pairwise_lt_range.imp ?_
    intro k k' hlt t ht t' ht'
    obtain rfl := List.mem_singleton.mp ht
    obtain rfl := List.mem_singleton.mp ht'
    refine Step.apart_single ?_ ?_
    · rw [List.mem_singleton]
      intro heq
      have hsame := congrArg Ptr.obj heq
      exact hobj hsame
    · rw [ne_eq, Ptr.add_nat_inj]
      exact Nat.ne_of_lt hlt

/-- A byte of the block of a sample, from any bytes. -/
theorem sampleStep_write {i j : ℕ} (hi : i < 2) (hj : j < 2) (f : Ptr κ → UInt8) :
    ∃ w ∈ (sampleStep data buffer n s r c).writes, w.1 = target buffer s r c i j ∧
      w.2 ((sampleStep data buffer n s r c).reads.map f) =
        mix (f (address data buffer n s r c (sideOf i) (sideOf j))) (f (address data buffer n s r c (sideOf i) .here))
          (f (address data buffer n s r c .here (sideOf j))) (f (address data buffer n s r c .here .here)) := by
  rcases (show i = 0 ∨ i = 1 by omega) with rfl | rfl <;> rcases (show j = 0 ∨ j = 1 by omega) with rfl | rfl
  · exact ⟨(target buffer s r c 0 0, mixOf 0 1 3), by simp [sampleStep], rfl, rfl⟩
  · exact ⟨(target buffer s r c 0 1, mixOf 2 1 5), by simp [sampleStep], rfl, rfl⟩
  · exact ⟨(target buffer s r c 1 0, mixOf 6 7 3), by simp [sampleStep], rfl, rfl⟩
  · exact ⟨(target buffer s r c 1 1, mixOf 8 7 5), by simp [sampleStep], rfl, rfl⟩

/-- Everything that is read and written is there. -/
theorem reflectedSteps_inside (hbuffer : ∀ i < 2 * n * (2 * s), m.room (buffer + i) = true)
    (hdata : ∀ i < 2 * s, m.room (data + i) = true) : ∀ t ∈ reflectedSteps data buffer n s, t.Inside m.room := by
  intro t ht
  obtain ⟨r, hr, c, hc, rfl⟩ := mem_reflectedSteps.mp ht
  constructor
  · intro p hp
    obtain ⟨v, h, rfl⟩ := mem_sampleStep_reads hp
    obtain ⟨hin, hrow, hcol⟩ := neighbour_lt hr hc v h
    rw [address, source]
    split_ifs with hzero
    · have hsaved := plane_index_lt (show (neighbour n s r c v h).1 < 2 by omega) hcol
      exact hdata _ hsaved
    · have hplane := plane_index_lt hin hcol
      have hsize : n * s ≤ 2 * n * (2 * s) := Nat.mul_le_mul (by omega) (by omega)
      exact hbuffer _ (by omega)
  · intro w hw
    obtain ⟨i, hi, j, hj, hplace⟩ := mem_sampleStep_writes hw
    rw [hplace]
    exact hbuffer _ (plane_index_lt (by omega) (by omega))

/-- What is read of a neighbour is what was there at the beginning. -/
theorem address_byte (hsaved : ∀ i < 2 * s, m'.byte (data + i) = m.byte (buffer + i))
    (hsame : ∀ i : ℕ, m'.byte (buffer + i) = m.byte (buffer + i)) (hr : r < n) (hc : c < s) (v h : Side) :
    m'.byte (address data buffer n s r c v h) =
      m.byte (buffer + ((neighbour n s r c v h).1 * s + (neighbour n s r c v h).2)) := by
  obtain ⟨-, hrow, hcol⟩ := neighbour_lt hr hc v h
  rw [address, source]
  split_ifs with hzero
  · exact hsaved _ (plane_index_lt (by omega) hcol)
  · exact hsame _

variable [DecidableEq κ]

/-- The bytes are copied, and no other object changes. -/
theorem memcpy_spec (hobj : dst.obj ≠ src.obj) (hsrc : ∀ i < n, m.room (src + i) = true)
    (hdst : ∀ i < n, m.room (dst + i) = true) :
    ∃ m', memcpy dst src n m = .ok m' ∧ m'.room = m.room ∧ (∀ i < n, m'.byte (dst + i) = m.byte (src + i)) ∧
      ∀ i : ℕ, m'.byte (src + i) = m.byte (src + i) := by
  have hrun : memcpy dst src n m = runAll ((List.range n).flatMap fun k => [copyStep dst src k]) m := by
    have hn : (n - 0 + 1 - 1) / 1 = n := by omega
    rw [memcpy, forUp, hn]
    refine foldlM_runAll _ _ fun k _ m => ?_
    have hk : 0 + 1 * k = k := by omega
    rw [hk, runAll_single, copyStep, run_one]
  have hmem : ∀ {t : Step (Ptr κ) UInt8}, t ∈ ((List.range n).flatMap fun k => [copyStep dst src k]) →
      ∃ k < n, t = copyStep dst src k := by
    intro t ht
    obtain ⟨k, hk, ht⟩ := List.mem_flatMap.mp ht
    exact ⟨k, List.mem_range.mp hk, List.mem_singleton.mp ht⟩
  obtain ⟨m', hok⟩ := runAll_ok_iff.mpr fun t ht => by
    obtain ⟨k, hk, rfl⟩ := hmem ht
    exact ⟨fun i hi => List.mem_singleton.mp hi ▸ hsrc k hk, fun w hw => List.mem_singleton.mp hw ▸ hdst k hk⟩
  rw [hrun]
  refine ⟨m', hok, runAll_room hok, fun i hi => ?_, fun i => ?_⟩
  · exact runAll_inPlace hok (apart_copySteps hobj) _
      (List.mem_flatMap.mpr ⟨i, List.mem_range.mpr hi, List.mem_singleton_self _⟩) _ (List.mem_singleton_self _)
  · refine runAll_byte_of_not_mem hok fun t ht w hw heq => ?_
    obtain ⟨k, -, rfl⟩ := hmem ht
    rw [List.mem_singleton.mp hw] at heq
    have hsame := congrArg Ptr.obj heq
    exact hobj hsame

end Result

/-- **The function computes the filter** of the plane as it was, for all even widths and heights. -/
theorem tr420jpegTo444_upsampled [DecidableEq κ] {data buffer : Ptr κ} {width height : ℕ} {m : Bytes κ}
    (hwidth : Even width) (hheight : Even height) (hobj : data.obj ≠ buffer.obj)
    (hbuffer : ∀ i < max 1 height * width, m.room (buffer + i) = true) (hdata : ∀ i < width, m.room (data + i) = true) :
    Ensures (tr420jpegTo444 data buffer width height m) fun m' => ∀ y < height, ∀ x < width,
      m'.byte (buffer + (y * width + x)) =
        upsampled (fun r c => m.byte (buffer + (r * (width / 2) + c))) (height / 2) (width / 2) y x := by
  obtain ⟨s, rfl⟩ := hwidth.two_dvd
  obtain ⟨n, rfl⟩ := hheight.two_dvd
  have hs : 2 * s / 2 = s := by omega
  have hn : 2 * n / 2 = n := by omega
  have hrow : 1 * (2 * s) ≤ max 1 (2 * n) * (2 * s) := Nat.mul_le_mul_right _ (le_max_left ..)
  have hplane : 2 * n * (2 * s) ≤ max 1 (2 * n) * (2 * s) := Nat.mul_le_mul_right _ (le_max_right ..)
  obtain ⟨m₁, hcopy, hroom, hsaved, hsame⟩ := memcpy_spec hobj (fun i hi => hbuffer i (by omega)) hdata
  obtain ⟨m', hrun⟩ := runAll_ok_iff.mpr (reflectedSteps_inside (m := m₁) (n := n)
    (fun i hi => hroom ▸ hbuffer i (by omega)) fun i hi => hroom ▸ hdata i hi)
  rw [tr420jpegTo444_eq, hcopy, ok_bind, hrun, ensures_ok, hs, hn]
  intro y hy x hx
  have hside : ∀ i, sideOf (i % 2) = sideOf i := by
    intro i
    rw [sideOf, sideOf, Nat.mod_mod]
  obtain ⟨w, hw, hplace, hvalue⟩ := @sampleStep_write κ data buffer n s (y / 2) (x / 2) (y % 2) (x % 2)
    (Nat.mod_lt y Nat.zero_lt_two) (Nat.mod_lt x Nat.zero_lt_two) m₁.byte
  have hresult := runAll_inPlace hrun (apart_reflectedSteps hobj) _
    (mem_reflectedSteps.mpr ⟨y / 2, by omega, x / 2, by omega, rfl⟩) w hw
  have hbyte := fun v h => address_byte hsaved hsame (show y / 2 < n by omega) (show x / 2 < s by omega) v h
  rw [hplace, hvalue, hbyte, hbyte, hbyte, hbyte, target, Nat.div_add_mod, Nat.div_add_mod, hside, hside] at hresult
  exact hresult

/-- Two objects of 16 bytes: the saved rows, and a plane for a picture of four by four. -/
def savedAndPlane : Bytes Bool := ⟨fun p => decide (0 ≤ p.off ∧ p.off < 16), fun p => UInt8.ofInt p.off⟩

theorem savedAndPlane_upsampled :
    Ensures (tr420jpegTo444 ⟨false, 0⟩ ⟨true, 0⟩ 4 4 savedAndPlane) fun m' => ∀ y < 4, ∀ x < 4,
      m'.byte ((⟨true, 0⟩ : Ptr Bool) + (y * 4 + x)) =
        upsampled (fun r c => savedAndPlane.byte ((⟨true, 0⟩ : Ptr Bool) + (r * 2 + c))) 2 2 y x :=
  tr420jpegTo444_upsampled (by decide) (by decide) (by decide) (by decide) (by decide)

end Veejay.Subsample
