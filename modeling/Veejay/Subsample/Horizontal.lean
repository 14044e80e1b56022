import Veejay.CLib.InPlace

/-!
# Chroma planes in 4:2:2 and in 4:4:4

A row of 4:2:2 is expanded by writing every byte twice, and a row of 4:4:4 is halved by averaging pairs
(`libsubsample/subsample.c`).  Planes are expanded in place, from the last row on, or from one buffer to another.

* `tr422To444`, `tr422To444t`, `ss444To422Cp` — the functions;
* `Doubled`, `Expanded` — every byte twice;
* `expanded_iff` — **the two functions agree with that exactly if** the first row is there already: neither writes it,
  and the copying one writes a row behind the plane;
* `ss444To422Cp_spec` — the average of every pair, in place.
-/

namespace Veejay.Subsample

open CLib

variable {κ : Type}

/-- Bytes in several objects. -/
abbrev Bytes (κ : Type) := Memory (Ptr κ) UInt8

/-! ## The functions -/

section Functions

variable [DecidableEq κ]

/-- The loop over a row: `dst[0] = src[x]; dst[1] = src[x]; dst += 2`. -/
def doubleRow (src : Ptr κ) (stride : ℕ) : Ptr κ × Bytes κ → Exec (Ptr κ × Bytes κ) :=
  forUp 0 stride 1 fun x (dst, m) => do
    let v ← m.read (src + x)
    let m ← m.write (dst + 0) v
    let v ← m.read (src + x)
    let m ← m.write (dst + 1) v
    .ok (dst + 2, m)

/-- `tr_422_to_444`, without MMX: the rows from the last one on, and the loop ends in front of row 0. -/
def tr422To444 (buffer : Ptr κ) (width height : ℕ) : Bytes κ → Exec (Bytes κ) :=
  let stride := width >>> 1
  forDown (height - 1) 1 fun y m => do
    let dst := buffer + y * width
    let src := buffer + y * stride
    let (_, m) ← doubleRow src stride (dst, m)
    .ok m

/-- `tr_422_to_444t`, without MMX: here the loop begins at the row `height`. -/
def tr422To444t (out inp : Ptr κ) (width height : ℕ) : Bytes κ → Exec (Bytes κ) :=
  let stride := width >>> 1
  forDown height 1 fun y m => do
    let d := out + y * width
    let s := inp + y * stride
    let (_, m) ← doubleRow s stride (d, m)
    .ok m

/-- `( src[x] + src[x+1] + 1 ) >> 1` -/
def average (a b : UInt8) : UInt8 := UInt8.ofNat ((a.toNat + b.toNat + 1) >>> 1)

/-- `downsample2x1` -/
def downsample2x1 (src dst : Ptr κ) (width : ℕ) (m : Bytes κ) : Exec (Bytes κ) := do
  let (_, m) ← forUp 0 width 2 (fun x (x1, m) => do
    let a ← m.read (src + x)
    let b ← m.read (src + (x + 1))
    let m ← m.write (dst + x1) (average a b)
    .ok (x1 + 1, m)) (0, m)
  .ok m

/-- `ss_444_to_422_cp`, without MMX -/
def ss444To422Cp (buffer dest : Ptr κ) (width height : ℕ) : Bytes κ → Exec (Bytes κ) :=
  let dstStride := width >>> 1
  forUp 0 height 1 fun y m => do
    let src := buffer + y * width
    let dst := dest + y * dstStride
    downsample2x1 src dst width m

end Functions

/-! ## Rows as rounds -/

/-- The first byte that a round has read. -/
def first (vs : List UInt8) : UInt8 := vs.getD 0 0

section Rounds

variable {m m' : Bytes κ} {src dst : Ptr κ}

/-- The row `y` of `src` is in `dst`, every byte twice. -/
def Doubled (src dst : Ptr κ) (s : ℕ) (m m' : Bytes κ) (y : ℕ) : Prop :=
  ∀ x < s, ∀ b < 2, m'.byte (dst + (y * (2 * s) + (2 * x + b))) = m.byte (src + (y * s + x))

/-- Everything is there that the rows need. -/
def RowsRoom (src dst : Ptr κ) (s : ℕ) (ys : List ℕ) (room : Ptr κ → Bool) : Prop :=
  ∀ y ∈ ys, (∀ x < s, room (src + (y * s + x)) = true) ∧ ∀ j < 2 * s, room (dst + (y * (2 * s) + j)) = true

/-- `out[y][2x] = out[y][2x + 1] = in[y][x]` -/
def Expanded (inp out : Ptr κ) (width height : ℕ) (m m' : Bytes κ) : Prop :=
  ∀ y < height, ∀ x < width / 2,
    m'.byte (out + (y * width + 2 * x)) = m.byte (inp + (y * (width / 2) + x)) ∧
      m'.byte (out + (y * width + (2 * x + 1))) = m.byte (inp + (y * (width / 2) + x))

theorem expanded_iff_rows {inp out : Ptr κ} {s height : ℕ} :
    Expanded inp out (2 * s) height m m' ↔ ∀ y < height, Doubled inp out s m m' y := by
  have hhalf : 2 * s / 2 = s := by omega
  rw [Expanded, hhalf]
  refine forall_congr' fun y => forall_congr' fun _ => ?_
  constructor
  · intro h x hx b hb
    rcases (show b = 0 ∨ b = 1 by omega) with rfl | rfl
    · exact (h x hx).1
    · exact (h x hx).2
  · exact fun h x hx => ⟨h x hx 0 (by decide), h x hx 1 (by decide)⟩

/-- An assignment of a column. -/
def doubleStep (src dst : Ptr κ) (x b : ℕ) : Step (Ptr κ) UInt8 := ⟨[src + x], [(dst + (2 * x + b), first)]⟩

/-- The two assignments of a column. -/
def doubleSteps (src dst : Ptr κ) (x : ℕ) : List (Step (Ptr κ) UInt8) :=
  [doubleStep src dst x 0, doubleStep src dst x 1]

/-- The assignments of some rows of a plane. -/
def planeSteps (src dst : Ptr κ) (s : ℕ) (ys : List ℕ) : List (Step (Ptr κ) UInt8) :=
  ys.flatMap fun y => (List.range s).flatMap (doubleSteps (src + y * s) (dst + y * (2 * s)))

/-- An assignment of a plane. -/
theorem mem_planeSteps {s : ℕ} {ys : List ℕ} {t : Step (Ptr κ) UInt8} :
    t ∈ planeSteps src dst s ys ↔ ∃ y ∈ ys, ∃ x < s, ∃ b < 2,
      t = ⟨[src + (y * s + x)], [(dst + (y * (2 * s) + (2 * x + b)), first)]⟩ := by
  rw [planeSteps, List.mem_flatMap]
  refine exists_congr fun y => and_congr_right fun _ => ?_
  rw [List.mem_flatMap]
  refine exists_congr fun x => ?_
  rw [List.mem_range]
  refine and_congr_right fun _ => ?_
  rw [doubleSteps, List.mem_pair, doubleStep, doubleStep, Ptr.add_nat_add, Ptr.add_nat_add, Ptr.add_nat_add]
  constructor
  · rintro (h | h)
    · exact ⟨0, Nat.zero_lt_two, h⟩
    · exact ⟨1, Nat.one_lt_two, h⟩
  · rintro ⟨b, hb, h⟩
    rcases (show b = 0 ∨ b = 1 by omega) with rfl | rfl
    · exact .inl h
    · exact .inr h

theorem plane_index_lt {width height y j : ℕ} (hy : y < height) (hj : j < width) :
    y * width + j < height * width := by
  have hrow := Nat.mul_le_mul_right width (Nat.succ_le_of_lt hy)
  rw [Nat.succ_mul] at hrow
  omega

/-- Places in different rows. -/
theorem plane_index_ne {width y y' j j' : ℕ} (h : y ≠ y') (hj : j < width) (hj' : j' < width) :
    y * width + j ≠ y' * width + j' := by
  rcases Nat.lt_or_gt_of_ne h with hlt | hlt
  · have hrow := Nat.mul_le_mul_right width (Nat.succ_le_of_lt hlt)
    rw [Nat.succ_mul] at hrow
    omega
  · have hrow := Nat.mul_le_mul_right width (Nat.succ_le_of_lt hlt)
    rw [Nat.succ_mul] at hrow
    omega

/-- The assignments of a plane are apart if no row writes what it or a later row reads, and no row is written twice. -/
theorem apart_planeSteps {s : ℕ} {ys : List ℕ} (hne : ys.Pairwise (· ≠ ·))
    (hown : ∀ y ∈ ys, ∀ x < s, ∀ j < 2 * s, dst + (y * (2 * s) + j) ≠ src + (y * s + x))
    (hlater : ys.Pairwise fun y y' => ∀ x < s, ∀ j < 2 * s, dst + (y * (2 * s) + j) ≠ src + (y' * s + x)) :
    Apart (planeSteps src dst s ys) := by
  refine apart_flatMap (fun y hy => ?_) ?_
  · refine apart_flatMap (fun x hx => ?_) ?_
    · -- the two assignments of a column
      have hx := List.mem_range.mp hx
      refine ⟨fun t ht => ?_, ?_⟩
      · rcases List.mem_pair.mp ht with rfl | rfl <;> exact Step.once_single _
      · refine List.pairwise_pair.mpr (Step.apart_single ?_ ?_)
        · rw [List.mem_singleton, Ptr.add_nat_add, Ptr.add_nat_add]
          exact hown y hy x hx (2 * x + 0) (by omega)
        · rw [ne_eq, Ptr.add_nat_inj]
          omega
    · -- two columns of a row
      refine List.Pairwise.imp_of_mem ?_ List.pairwise_lt_range
      intro x x' hx hx' hlt t ht t' ht'
      have hx := List.mem_range.mp hx
      have hx' := List.mem_range.mp hx'
      have hcolumns : ∀ b < 2, ∀ b' < 2, (doubleStep (src + y * s) (dst + y * (2 * s)) x b).Apart
          (doubleStep (src + y * s) (dst + y * (2 * s)) x' b') := by
        intro b hb b' hb'
        refine Step.apart_single ?_ ?_
        · rw [List.mem_singleton, Ptr.add_nat_add, Ptr.add_nat_add]
          exact hown y hy x' hx' (2 * x + b) (by omega)
        · rw [ne_eq, Ptr.add_nat_inj]
          omega
      rcases List.mem_pair.mp ht with rfl | rfl <;> rcases List.mem_pair.mp ht' with rfl | rfl <;>
        exact hcolumns _ (by decide) _ (by decide)
  · -- two rows
    refine (hne.and hlater).imp ?_
    rintro y y' ⟨hyy, hread⟩ t ht t' ht'
    obtain ⟨y₁, hy₁, x, hx, b, hb, rfl⟩ := mem_planeSteps.mp (List.mem_flatMap.mpr ⟨y, List.mem_singleton_self y, ht⟩)
    obtain ⟨y₂, hy₂, x', hx', b', hb', rfl⟩ :=
      mem_planeSteps.mp (List.mem_flatMap.mpr ⟨y', List.mem_singleton_self y', ht'⟩)
    obtain rfl := List.mem_singleton.mp hy₁
    obtain rfl := List.mem_singleton.mp hy₂
    refine Step.apart_single ?_ ?_
    · rw [List.mem_singleton]
      exact hread x' hx' (2 * x + b) (by omega)
    · rw [ne_eq, Ptr.add_nat_inj]
      exact plane_index_ne hyy (by omega) (by omega)

/-- The rows of `tr_422_to_444`, in their order. -/
def rowsInPlace (height : ℕ) : List ℕ := (List.range (height - 1)).map fun k => height - 1 - k

/-- The rows of `tr_422_to_444t`, in their order. -/
def rowsCopied (height : ℕ) : List ℕ := (List.range height).map fun k => height - k

theorem mem_rowsInPlace {height y : ℕ} : y ∈ rowsInPlace height ↔ 1 ≤ y ∧ y < height := by
  rw [rowsInPlace, List.mem_map]
  constructor
  · rintro ⟨k, hk, rfl⟩
    have hlt := List.mem_range.mp hk
    omega
  · rintro ⟨hpos, hlt⟩
    exact ⟨height - 1 - y, List.mem_range.mpr (by omega), by omega⟩

theorem mem_rowsCopied {height y : ℕ} : y ∈ rowsCopied height ↔ 1 ≤ y ∧ y ≤ height := by
  rw [rowsCopied, List.mem_map]
  constructor
  · rintro ⟨k, hk, rfl⟩
    have hlt := List.mem_range.mp hk
    omega
  · rintro ⟨hpos, hle⟩
    exact ⟨height - y, List.mem_range.mpr (by omega), by omega⟩

/-- The rows are taken from the last one on. -/
theorem pairwise_rows {n height : ℕ} (h : n ≤ height) :
    ((List.range n).map fun k => height - k).Pairwise fun y y' => y' < y := by
  rw [List.pairwise_map]
  refine List.Pairwise.imp_of_mem ?_ List.pairwise_lt_range
  intro k k' hk hk' hlt
  have hk := List.mem_range.mp hk
  have hk' := List.mem_range.mp hk'
  omega

/-- In place, a row is written behind everything that is still read. -/
theorem row_behind {s y y' x j : ℕ} (hy : 1 ≤ y) (hyy : y' ≤ y) (hx : x < s) : y * (2 * s) + j ≠ y' * s + x := by
  have hrows := Nat.mul_le_mul_right s hyy
  have hrow := Nat.mul_le_mul_right s hy
  have hdouble : y * (2 * s) = y * s + y * s := by ring
  omega

theorem apart_inPlace (buffer : Ptr κ) (s height : ℕ) : Apart (planeSteps buffer buffer s (rowsInPlace height)) := by
  have hrows := @pairwise_rows (height - 1) (height - 1) le_rfl
  refine apart_planeSteps (hrows.imp fun hlt => Nat.ne_of_gt hlt) ?_ ?_
  · intro y hy x hx j _
    rw [ne_eq, Ptr.add_nat_inj]
    exact row_behind (mem_rowsInPlace.mp hy).1 le_rfl hx
  · refine List.Pairwise.imp_of_mem ?_ hrows
    intro y y' hy _ hlt x hx j _
    rw [ne_eq, Ptr.add_nat_inj]
    exact row_behind (mem_rowsInPlace.mp hy).1 hlt.le hx

theorem apart_copied {out inp : Ptr κ} (hobj : out.obj ≠ inp.obj) (s height : ℕ) :
    Apart (planeSteps inp out s (rowsCopied height)) := by
  have hrows := @pairwise_rows height height le_rfl
  have hother : ∀ a b : ℕ, out + a ≠ inp + b := by
    intro a b heq
    have hsame := congrArg Ptr.obj heq
    exact hobj hsame
  exact apart_planeSteps (hrows.imp fun hlt => Nat.ne_of_gt hlt) (fun y _ x _ j _ => hother _ _)
    (hrows.imp fun _ x _ j _ => hother _ _)

variable [DecidableEq κ]

theorem run_one (s d : Ptr κ) :
    (Step.mk [s] [(d, first)]).run = fun (m : Bytes κ) => m.read s >>= fun v => m.write d v := by
  funext m
  simp only [Step.run, List.mapM_cons, List.mapM_nil, List.foldlM_cons, List.foldlM_nil, bind_assoc, pure_bind,
    bind_pure]
  rfl

theorem runAll_doubleSteps (src dst : Ptr κ) (x : ℕ) (m : Bytes κ) :
    runAll (doubleSteps src dst x) m = (do
      let v ← m.read (src + x)
      let m ← m.write (dst + 2 * x) v
      let v ← m.read (src + x)
      m.write (dst + (2 * x + 1)) v) := by
  rw [doubleSteps, runAll_cons, runAll_single, doubleStep, doubleStep, run_one, run_one]
  exact bind_assoc ..

theorem doubleRow_eq (src dst : Ptr κ) (stride : ℕ) (m : Bytes κ) :
    doubleRow src stride (dst, m) =
      runAll ((List.range stride).flatMap (doubleSteps src dst)) m >>= fun m => .ok (dst + 2 * stride, m) := by
  rw [doubleRow]
  refine forUp_runAll (f := fun k => dst + 2 * k) (by omega) (Ptr.add_nat_zero dst) (doubleSteps src dst)
    fun k _ m => ?_
  have hx : 0 + 1 * k = k := by omega
  have hzero : dst + 2 * k + 0 = dst + 2 * k := Ptr.add_nat_zero _
  have hone : dst + 2 * k + 1 = dst + (2 * k + 1) := Ptr.add_nat_add ..
  have htwo : dst + 2 * k + 2 = dst + 2 * (k + 1) := Ptr.add_nat_add ..
  rw [hx, runAll_doubleSteps]
  dsimp only
  rw [hzero, hone, htwo]
  simp only [bind_assoc]

theorem half_two_mul (s : ℕ) : (2 * s) >>> 1 = s := by
  rw [Nat.shiftRight_eq_div_pow]
  omega

theorem tr422To444_eq (buffer : Ptr κ) (s height : ℕ) (m : Bytes κ) :
    tr422To444 buffer (2 * s) height m = runAll (planeSteps buffer buffer s (rowsInPlace height)) m := by
  rw [tr422To444, half_two_mul, planeSteps, rowsInPlace, List.flatMap_map, forDown]
  have hn : (height - 1 + 1 - 1) / 1 = height - 1 := by omega
  rw [hn]
  refine foldlM_runAll _ _ fun k _ m => ?_
  dsimp only
  rw [Nat.one_mul, doubleRow_eq, bind_assoc]
  exact bind_pure _

theorem tr422To444t_eq (out inp : Ptr κ) (s height : ℕ) (m : Bytes κ) :
    tr422To444t out inp (2 * s) height m = runAll (planeSteps inp out s (rowsCopied height)) m := by
  rw [tr422To444t, half_two_mul, planeSteps, rowsCopied, List.flatMap_map, forDown]
  have hn : (height + 1 - 1) / 1 = height := by omega
  rw [hn]
  refine foldlM_runAll _ _ fun k _ m => ?_
  dsimp only
  rw [Nat.one_mul, doubleRow_eq, bind_assoc]
  exact bind_pure _

/-! ## What the functions leave -/

theorem planeSteps_ok_iff {s : ℕ} {ys : List ℕ} :
    (∃ m', runAll (planeSteps src dst s ys) m = .ok m') ↔ RowsRoom src dst s ys m.room := by
  rw [runAll_ok_iff]
  constructor
  · intro h y hy
    have hstep : ∀ x < s, ∀ b < 2, m.room (src + (y * s + x)) = true ∧
        m.room (dst + (y * (2 * s) + (2 * x + b))) = true := by
      intro x hx b hb
      obtain ⟨hread, hwrite⟩ := h _ (mem_planeSteps.mpr ⟨y, hy, x, hx, b, hb, rfl⟩)
      exact ⟨hread _ (List.mem_singleton_self _), hwrite _ (List.mem_singleton_self _)⟩
    refine ⟨fun x hx => (hstep x hx 0 (by decide)).1, fun j hj => ?_⟩
    have hplace := (hstep (j / 2) (by omega) (j % 2) (by omega)).2
    rw [Nat.div_add_mod] at hplace
    exact hplace
  · intro h t ht
    obtain ⟨y, hy, x, hx, b, hb, rfl⟩ := mem_planeSteps.mp ht
    refine ⟨fun i hi => ?_, fun w hw => ?_⟩
    · rw [List.mem_singleton.mp hi]
      exact (h y hy).1 x hx
    · rw [List.mem_singleton.mp hw]
      exact (h y hy).2 (2 * x + b) (by omega)

theorem planeSteps_result {s : ℕ} {ys : List ℕ} (h : runAll (planeSteps src dst s ys) m = .ok m')
    (hapart : Apart (planeSteps src dst s ys)) :
    (∀ y ∈ ys, Doubled src dst s m m' y) ∧
      ∀ p, (∀ y ∈ ys, ∀ j < 2 * s, dst + (y * (2 * s) + j) ≠ p) → m'.byte p = m.byte p := by
  constructor
  · intro y hy x hx b hb
    exact runAll_inPlace h hapart _ (mem_planeSteps.mpr ⟨y, hy, x, hx, b, hb, rfl⟩) _ (List.mem_singleton_self _)
  · intro p hp
    refine runAll_byte_of_not_mem h fun t ht w hw => ?_
    obtain ⟨y, hy, x, hx, b, hb, rfl⟩ := mem_planeSteps.mp ht
    rw [List.mem_singleton.mp hw]
    exact hp y hy (2 * x + b) (by omega)

/-- `tr_422_to_444` writes every row twice as wide, but the first one. -/
theorem tr422To444_spec {buffer : Ptr κ} {s height : ℕ} (hroom : ∀ i < height * (2 * s), m.room (buffer + i) = true) :
    ∃ m', tr422To444 buffer (2 * s) height m = .ok m' ∧ m'.room = m.room ∧
      (∀ y, 1 ≤ y → y < height → Doubled buffer buffer s m m' y) ∧
      (∀ j < 2 * s, m'.byte (buffer + j) = m.byte (buffer + j)) ∧
      ∀ p, (∀ i < height * (2 * s), buffer + i ≠ p) → m'.byte p = m.byte p := by
  have hrows : RowsRoom buffer buffer s (rowsInPlace height) m.room := by
    intro y hy
    obtain ⟨-, hlt⟩ := mem_rowsInPlace.mp hy
    refine ⟨fun x hx => hroom _ ?_, fun j hj => hroom _ (plane_index_lt hlt hj)⟩
    have hle : y * s ≤ y * (2 * s) := Nat.mul_le_mul_left y (by omega)
    have hin := plane_index_lt hlt (show x < 2 * s by omega)
    omega
  obtain ⟨m', hrun⟩ := planeSteps_ok_iff.mpr hrows
  obtain ⟨hdoubled, hframe⟩ := planeSteps_result hrun (apart_inPlace buffer s height)
  rw [tr422To444_eq]
  refine ⟨m', hrun, runAll_room hrun, fun y hpos hlt => hdoubled y (mem_rowsInPlace.mpr ⟨hpos, hlt⟩), ?_, ?_⟩
  · intro j hj
    refine hframe _ fun y hy j' hj' => ?_
    have hpos := (mem_rowsInPlace.mp hy).1
    have hrow := Nat.mul_le_mul_right (2 * s) hpos
    rw [ne_eq, Ptr.add_nat_inj]
    omega
  · intro p hp
    refine hframe p fun y hy j hj => hp _ (plane_index_lt (mem_rowsInPlace.mp hy).2 hj)

/-! ## Every byte twice -/

/-- Bytes that are all that of half their place are all one byte. -/
theorem eq_first_of_halves {n : ℕ} {f : ℕ → UInt8} (h : ∀ x < n, ∀ b < 2, f (2 * x + b) = f x) :
    ∀ i < 2 * n, f i = f 0 := by
  intro i
  induction i using Nat.strong_induction_on with
  | _ i ih =>
    intro hi
    by_cases hzero : i = 0
    · rw [hzero]
    · have hhalf := h (i / 2) (by omega) (i % 2) (by omega)
      rw [Nat.div_add_mod] at hhalf
      rw [hhalf]
      exact ih (i / 2) (by omega) (by omega)

/-- In place, the first row has to hold one byte only. -/
theorem tr422To444_expanded_iff {buffer : Ptr κ} {s height : ℕ}
    (hroom : ∀ i < height * (2 * s), m.room (buffer + i) = true) :
    Ensures (tr422To444 buffer (2 * s) height m) (Expanded buffer buffer (2 * s) height m) ↔
      height = 0 ∨ ∀ i < 2 * s, m.byte (buffer + i) = m.byte (buffer + 0) := by
  obtain ⟨m', hrun, -, hdoubled, hfirst, -⟩ := tr422To444_spec hroom
  rw [hrun, ensures_ok, expanded_iff_rows]
  have hrow : Doubled buffer buffer s m m' 0 ↔ ∀ x < s, ∀ b < 2, m.byte (buffer + (2 * x + b)) = m.byte (buffer + x) := by
    refine forall_congr' fun x => forall_congr' fun hx => forall_congr' fun b => forall_congr' fun hb => ?_
    rw [Nat.zero_mul, Nat.zero_mul, Nat.zero_add, Nat.zero_add, hfirst (2 * x + b) (by omega)]
  constructor
  · intro h
    by_cases hzero : height = 0
    · exact .inl hzero
    · right
      exact eq_first_of_halves (f := fun i => m.byte (buffer + i)) (hrow.mp (h 0 (Nat.pos_of_ne_zero hzero)))
  · rintro (rfl | hsame) y hy
    · exact absurd hy (Nat.not_lt_zero y)
    · by_cases hpos : 1 ≤ y
      · exact hdoubled y hpos hy
      · obtain rfl : y = 0 := by omega
        refine hrow.mpr fun x hx b hb => ?_
        rw [hsame (2 * x + b) (by omega), hsame x (by omega)]

/-- Copying, the row behind the planes has to be there, and the first row has to be written already. -/
theorem tr422To444t_expanded_iff {out inp : Ptr κ} {s height : ℕ} (hobj : out.obj ≠ inp.obj)
    (hout : ∀ i < height * (2 * s), m.room (out + i) = true) (hin : ∀ i < height * s, m.room (inp + i) = true) :
    Ensures (tr422To444t out inp (2 * s) height m) (Expanded inp out (2 * s) height m) ↔
      height = 0 ∨
        (∀ x < s, m.room (inp + (height * s + x)) = true) ∧
        (∀ j < 2 * s, m.room (out + (height * (2 * s) + j)) = true) ∧
        ∀ x < s, ∀ b < 2, m.byte (out + (2 * x + b)) = m.byte (inp + x) := by
  have hroom : RowsRoom inp out s (rowsCopied height) m.room ↔ height = 0 ∨
      (∀ x < s, m.room (inp + (height * s + x)) = true) ∧
      ∀ j < 2 * s, m.room (out + (height * (2 * s) + j)) = true := by
    constructor
    · intro h
      by_cases hzero : height = 0
      · exact .inl hzero
      · exact .inr (h height (mem_rowsCopied.mpr ⟨Nat.pos_of_ne_zero hzero, le_rfl⟩))
    · intro h y hy
      obtain ⟨hpos, hle⟩ := mem_rowsCopied.mp hy
      rcases Nat.lt_or_eq_of_le hle with hlt | rfl
      · exact ⟨fun x hx => hin _ (plane_index_lt hlt hx), fun j hj => hout _ (plane_index_lt hlt hj)⟩
      · exact h.resolve_left (Nat.ne_of_gt hpos)
  rw [tr422To444t_eq]
  have hresult : ∀ m', runAll (planeSteps inp out s (rowsCopied height)) m = .ok m' → 1 ≤ height →
      (Expanded inp out (2 * s) height m m' ↔ ∀ x < s, ∀ b < 2, m.byte (out + (2 * x + b)) = m.byte (inp + x)) := by
    intro m' hrun hpos
    obtain ⟨hdoubled, hframe⟩ := planeSteps_result hrun (apart_copied hobj s height)
    have hfirst : ∀ j < 2 * s, m'.byte (out + j) = m.byte (out + j) := by
      intro j hj
      refine hframe _ fun y hy j' hj' => ?_
      have hrow := Nat.mul_le_mul_right (2 * s) (mem_rowsCopied.mp hy).1
      rw [ne_eq, Ptr.add_nat_inj]
      omega
    have hrow : Doubled inp out s m m' 0 ↔ ∀ x < s, ∀ b < 2, m.byte (out + (2 * x + b)) = m.byte (inp + x) := by
      refine forall_congr' fun x => forall_congr' fun hx => forall_congr' fun b => forall_congr' fun hb => ?_
      rw [Nat.zero_mul, Nat.zero_mul, Nat.zero_add, Nat.zero_add, hfirst (2 * x + b) (by omega)]
    rw [expanded_iff_rows, ← hrow]
    constructor
    · exact fun h => h 0 hpos
    · intro h y hy
      by_cases hy' : 1 ≤ y
      · exact hdoubled y (mem_rowsCopied.mpr ⟨hy', hy.le⟩)
      · obtain rfl : y = 0 := by omega
        exact h
  constructor
  · rintro ⟨m', hrun, hexpanded⟩
    by_cases hzero : height = 0
    · exact .inl hzero
    · obtain ⟨hsrc, hdst⟩ := (hroom.mp (planeSteps_ok_iff.mp ⟨m', hrun⟩)).resolve_left hzero
      exact .inr ⟨hsrc, hdst, (hresult m' hrun (Nat.pos_of_ne_zero hzero)).mp hexpanded⟩
  · rintro (rfl | ⟨hsrc, hdst, hsame⟩)
    · exact ⟨m, rfl, fun y hy => absurd hy (Nat.not_lt_zero y)⟩
    · obtain ⟨m', hrun⟩ := planeSteps_ok_iff.mpr (hroom.mpr (.inr ⟨hsrc, hdst⟩))
      by_cases hzero : height = 0
      · subst hzero
        exact ⟨m', hrun, fun y hy => absurd hy (Nat.not_lt_zero y)⟩
      · exact ⟨m', hrun, (hresult m' hrun (Nat.pos_of_ne_zero hzero)).mpr hsame⟩

end Rounds

/-- **The expansions agree exactly if** nothing has to be done for row 0: the loop in place ends in front of it, so
that the first row has to hold one byte only; the copying loop begins at the row behind the planes, which has to be
there, and never comes to row 0, which has to be written already. -/
theorem expanded_iff [DecidableEq κ] {width height : ℕ} (hwidth : Even width) {buffer out inp : Ptr κ} {m : Bytes κ}
    (hbuffer : ∀ i < height * width, m.room (buffer + i) = true) (hobj : out.obj ≠ inp.obj)
    (hout : ∀ i < height * width, m.room (out + i) = true)
    (hin : ∀ i < height * (width / 2), m.room (inp + i) = true) :
    (Ensures (tr422To444 buffer width height m) (Expanded buffer buffer width height m) ∧
        Ensures (tr422To444t out inp width height m) (Expanded inp out width height m)) ↔
      height = 0 ∨
        (∀ i < width, m.byte (buffer + i) = m.byte (buffer + 0)) ∧
        (∀ x < width / 2, m.room (inp + (height * (width / 2) + x)) = true) ∧
        (∀ j < width, m.room (out + (height * width + j)) = true) ∧
        ∀ x < width / 2, ∀ b < 2, m.byte (out + (2 * x + b)) = m.byte (inp + x) := by
  obtain ⟨s, rfl⟩ := hwidth.two_dvd
  have hhalf : 2 * s / 2 = s := by omega
  rw [hhalf] at hin ⊢
  rw [tr422To444_expanded_iff hbuffer, tr422To444t_expanded_iff hobj hout hin]
  by_cases hzero : height = 0
  · exact ⟨fun _ => .inl hzero, fun _ => ⟨.inl hzero, .inl hzero⟩⟩
  · constructor
    · rintro ⟨hsame, hcopied⟩
      exact .inr ⟨hsame.resolve_left hzero, hcopied.resolve_left hzero⟩
    · intro h
      obtain ⟨hsame, hcopied⟩ := h.resolve_left hzero
      exact ⟨.inr hsame, .inr hcopied⟩

/-- Objects whose bytes are all 128. -/
def greyBytes : Bytes Bool := ⟨fun _ => true, fun _ => 128⟩

/-- Planes of one grey are expanded. -/
theorem expanded_grey :
    Ensures (tr422To444 ⟨true, 0⟩ 4 2 greyBytes) (Expanded ⟨true, 0⟩ ⟨true, 0⟩ 4 2 greyBytes) ∧
      Ensures (tr422To444t ⟨true, 0⟩ ⟨false, 0⟩ 4 2 greyBytes) (Expanded ⟨false, 0⟩ ⟨true, 0⟩ 4 2 greyBytes) :=
  (expanded_iff (by decide) (fun _ _ => rfl) (by decide) (fun _ _ => rfl) fun _ _ => rfl).mpr
    (.inr ⟨fun _ _ => rfl, fun _ _ => rfl, fun _ _ => rfl, fun _ _ _ _ => rfl⟩)

/-- Objects whose bytes are their places. -/
def numberedBytes : Bytes Bool := ⟨fun _ => true, fun p => UInt8.ofInt p.off⟩

/-- A single row is not expanded. -/
theorem not_expanded : ¬ ∀ (width height : ℕ) (buffer out inp : Ptr Bool) (m : Bytes Bool), Even width →
    (∀ i, m.room i = true) → out.obj ≠ inp.obj →
    Ensures (tr422To444 buffer width height m) (Expanded buffer buffer width height m) ∧
      Ensures (tr422To444t out inp width height m) (Expanded inp out width height m) := by
  intro h
  obtain ⟨hinPlace, -⟩ := h (2 * 1) 1 ⟨true, 0⟩ ⟨true, 0⟩ ⟨false, 0⟩ numberedBytes (by decide) (fun _ => rfl) (by decide)
  rcases (tr422To444_expanded_iff fun _ _ => rfl).mp hinPlace with hzero | hsame
  · exact absurd hzero Nat.one_ne_zero
  · exact absurd (hsame 1 (by decide)) (by decide)

/-! ## Averages of pairs -/

section Halves

variable {src dst : Ptr κ}

/-- The average of the two bytes that a round has read. -/
def averageOf (vs : List UInt8) : UInt8 := average (vs.getD 0 0) (vs.getD 1 0)

/-- The assignment of a column. -/
def halveStep (src dst : Ptr κ) (x : ℕ) : Step (Ptr κ) UInt8 :=
  ⟨[src + 2 * x, src + (2 * x + 1)], [(dst + x, averageOf)]⟩

/-- The assignments of a plane. -/
def halveSteps (src dst : Ptr κ) (s height : ℕ) : List (Step (Ptr κ) UInt8) :=
  (List.range height).flatMap fun y => (List.range s).flatMap fun x => [halveStep (src + y * (2 * s)) (dst + y * s) x]

theorem mem_halveSteps {s height : ℕ} {t : Step (Ptr κ) UInt8} :
    t ∈ halveSteps src dst s height ↔ ∃ y < height, ∃ x < s,
      t = ⟨[src + (y * (2 * s) + 2 * x), src + (y * (2 * s) + (2 * x + 1))], [(dst + (y * s + x), averageOf)]⟩ := by
  rw [halveSteps, List.mem_flatMap]
  refine exists_congr fun y => ?_
  rw [List.mem_range]
  refine and_congr_right fun _ => ?_
  rw [List.mem_flatMap]
  refine exists_congr fun x => ?_
  rw [List.mem_range, List.mem_singleton, halveStep, Ptr.add_nat_add, Ptr.add_nat_add, Ptr.add_nat_add]

/-- In place, a pair is read in front of what is written later. -/
theorem apart_halveSteps (buffer : Ptr κ) (s height : ℕ) : Apart (halveSteps buffer buffer s height) := by
  have hstep : ∀ y y' x x' : ℕ, x < s → x' < s → (y < y' ∨ y = y' ∧ x < x') →
      (halveStep (buffer + y * (2 * s)) (buffer + y * s) x).Apart
        (halveStep (buffer + y' * (2 * s)) (buffer + y' * s) x') := by
    intro y y' x x' hx hx' hlater
    have hbehind : y * s + x < y' * s + x' := by
      rcases hlater with hlt | ⟨rfl, hlt⟩
      · have hrow := Nat.mul_le_mul_right s (Nat.succ_le_of_lt hlt)
        rw [Nat.succ_mul] at hrow
        omega
      · omega
    have hdouble : y' * (2 * s) = y' * s + y' * s := by ring
    refine Step.apart_single ?_ ?_
    · rw [List.mem_pair, Ptr.add_nat_add, Ptr.add_nat_add, Ptr.add_nat_add, Ptr.add_nat_inj, Ptr.add_nat_inj]
      omega
    · rw [ne_eq, Ptr.add_nat_add, Ptr.add_nat_add, Ptr.add_nat_inj]
      omega
  refine apart_flatMap (fun y _ => ?_) ?_
  · refine apart_flatMap (fun x _ => ?_) ?_
    · refine ⟨fun t ht => ?_, List.pairwise_singleton _ _⟩
      rw [List.mem_singleton.mp ht]
      exact Step.once_single _
    · refine List.Pairwise.imp_of_mem ?_ List.pairwise_lt_range
      intro x x' hx hx' hlt t ht t' ht'
      rw [List.mem_singleton.mp ht, List.mem_singleton.mp ht']
      exact hstep y y x x' (List.mem_range.mp hx) (List.mem_range.mp hx') (.inr ⟨rfl, hlt⟩)
  · refine List.pairwise_lt_range.imp ?_
    intro y y' hlt t ht t' ht'
    obtain ⟨x, hx, ht⟩ := List.mem_flatMap.mp ht
    obtain ⟨x', hx', ht'⟩ := List.mem_flatMap.mp ht'
    rw [List.mem_singleton.mp ht, List.mem_singleton.mp ht']
    exact hstep y y' x x' (List.mem_range.mp hx) (List.mem_range.mp hx') (.inl hlt)

variable [DecidableEq κ] {m : Bytes κ}

theorem runAll_halveStep (src dst : Ptr κ) (x : ℕ) (m : Bytes κ) :
    runAll [halveStep src dst x] m = (do
      let a ← m.read (src + 2 * x)
      let b ← m.read (src + (2 * x + 1))
      m.write (dst + x) (average a b)) := by
  rw [runAll_single, halveStep]
  simp only [Step.run, List.mapM_cons, List.mapM_nil, List.foldlM_cons, List.foldlM_nil, bind_assoc, pure_bind,
    bind_pure]
  rfl

theorem downsample2x1_eq (src dst : Ptr κ) (s : ℕ) (m : Bytes κ) :
    downsample2x1 src dst (2 * s) m = runAll ((List.range s).flatMap fun x => [halveStep src dst x]) m := by
  rw [downsample2x1, forUp_runAll (n := s) (f := fun k => k) (by omega) rfl (fun x => [halveStep src dst x])]
  · rw [bind_assoc]
    exact bind_pure _
  · intro k _ m
    rw [Nat.zero_add, runAll_halveStep]
    simp only [bind_assoc]

theorem ss444To422Cp_eq (buffer dest : Ptr κ) (s height : ℕ) (m : Bytes κ) :
    ss444To422Cp buffer dest (2 * s) height m = runAll (halveSteps buffer dest s height) m := by
  have hn : (height - 0 + 1 - 1) / 1 = height := by omega
  rw [ss444To422Cp, half_two_mul, forUp, hn, halveSteps]
  refine foldlM_runAll _ _ fun k _ m => ?_
  dsimp only
  rw [Nat.zero_add, Nat.one_mul, downsample2x1_eq]

/-- `ss_444_to_422_cp` in place: the average of every pair. -/
theorem ss444To422Cp_spec {buffer : Ptr κ} {s height : ℕ} (hroom : ∀ i < height * (2 * s), m.room (buffer + i) = true) :
    ∃ m', ss444To422Cp buffer buffer (2 * s) height m = .ok m' ∧ m'.room = m.room ∧
      (∀ y < height, ∀ x < s, m'.byte (buffer + (y * s + x)) =
        average (m.byte (buffer + (y * (2 * s) + 2 * x))) (m.byte (buffer + (y * (2 * s) + (2 * x + 1))))) ∧
      ∀ p, (∀ i < height * (2 * s), buffer + i ≠ p) → m'.byte p = m.byte p := by
  have hwhere : ∀ y < height, ∀ x < s, y * s + x < height * (2 * s) := by
    intro y hy x hx
    have hin := plane_index_lt hy (show x < 2 * s by omega)
    have hle : y * s ≤ y * (2 * s) := Nat.mul_le_mul_left y (by omega)
    omega
  obtain ⟨m', hrun⟩ := (runAll_ok_iff (m := m)).mpr (fun t (ht : t ∈ halveSteps buffer buffer s height) => by
    obtain ⟨y, hy, x, hx, rfl⟩ := mem_halveSteps.mp ht
    refine ⟨fun i hi => ?_, fun w hw => ?_⟩
    · rcases List.mem_pair.mp hi with rfl | rfl
      · exact hroom _ (plane_index_lt hy (by omega))
      · exact hroom _ (plane_index_lt hy (by omega))
    · rw [List.mem_singleton.mp hw]
      exact hroom _ (hwhere y hy x hx))
  rw [ss444To422Cp_eq]
  refine ⟨m', hrun, runAll_room hrun, fun y hy x hx => ?_, fun p hp => ?_⟩
  · exact runAll_inPlace hrun (apart_halveSteps buffer s height) _ (mem_halveSteps.mpr ⟨y, hy, x, hx, rfl⟩) _
      (List.mem_singleton_self _)
  · refine runAll_byte_of_not_mem hrun fun t ht w hw => ?_
    obtain ⟨y, hy, x, hx, rfl⟩ := mem_halveSteps.mp ht
    rw [List.mem_singleton.mp hw]
    exact hp _ (hwhere y hy x hx)

end Halves

end Veejay.Subsample
