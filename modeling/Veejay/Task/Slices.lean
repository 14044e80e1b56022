import Mathlib

/-!
# Planes in slices

The tasks of a frame get equal slices of each plane: `vj_task_run` (`veejay/vj-task.c`) divides the length of a
plane, or a height, by the number of workers, and gives the remainder to no one.  With one worker or none it does
nothing, and says so by returning 0.

* `VjTaskArg`, `VJFrame` — what a task is told, and the geometry of a frame;
* `vjTaskSetFromArgs`, `vjTaskSetFromFrame`, `vjTaskRun` — how the slices are assigned;
* `Partitions` — slices that are disjoint and make up a plane;
* `vjFrameCopyN`, `vjFrameSimpleCopy` — the threaded and the plain copy, as the bytes that they copy;
* `slices_iff` — **exactly when the slices make up the planes**, and the two copies are the same.
-/

namespace Veejay.Task

/-! ## Tasks -/

/-- `vj_task_arg_t`, as far as slices go; an address is a number, and `NULL` is 0. -/
structure VjTaskArg where
  strides : Fin 4 → ℤ
  input : Fin 4 → ℤ
  output : Fin 4 → ℤ
  temp : Fin 4 → ℤ
  width : ℤ
  height : ℤ
  shiftv : ℤ
  shifth : ℤ
  ssm : ℤ
  uvWidth : ℤ
  uvHeight : ℤ
  jobnum : ℕ

/-- `VJFrame`, as far as its geometry goes. -/
structure VJFrame where
  width : ℤ
  height : ℤ
  uvWidth : ℤ
  uvHeight : ℤ
  shiftV : ℤ
  shiftH : ℤ
  ssm : ℤ

/-- `vj_task_set_from_args`, for `n` workers -/
def vjTaskSetFromArgs (n : ℕ) (len uvLen : ℤ) (args : ℕ → VjTaskArg) (j : ℕ) : VjTaskArg :=
  if j < n then { args j with strides := ![len.tdiv n, uvLen.tdiv n, uvLen.tdiv n, 0] } else args j

/-- The strides of a slice of a frame; in 4:4:4 all planes are as large as the first. -/
def frameStrides (ssm width height uvWidth uvHeight : ℤ) : Fin 4 → ℤ :=
  if ssm = 1 then ![width * height, width * height, width * height, 0]
  else ![width * height, uvWidth * uvHeight, uvWidth * uvHeight, 0]

/-- `vj_task_set_from_frame`, for `n` workers -/
def vjTaskSetFromFrame (n : ℕ) (frame : VJFrame) (args : ℕ → VjTaskArg) (j : ℕ) : VjTaskArg :=
  if j < n then
    { args j with
      ssm := frame.ssm, width := frame.width, height := frame.height.tdiv n
      uvWidth := frame.uvWidth, uvHeight := frame.uvHeight.tdiv n
      shiftv := frame.shiftV, shifth := frame.shiftH
      strides := frameStrides frame.ssm frame.width (frame.height.tdiv n) frame.uvWidth (frame.uvHeight.tdiv n) }
  else args j

/-- The strides that the tasks get: those that were set, or a part of what `vj_task_run` is given. -/
def taskStrides (n nPlanes : ℕ) (strides : Option (Fin 4 → ℤ)) (a : VjTaskArg) (i : Fin 4) : ℤ :=
  match strides with
  | none => a.strides i
  | some s => if i < nPlanes then (s i).tdiv n else a.strides i

/-- The pointer to the slice of task `j`: the plane itself for the first task, and nothing new for a task whose
slice is empty. -/
def slicePtr (nPlanes j : ℕ) (buf : Fin 4 → ℤ) (stride : Fin 4 → ℤ) (old : Fin 4 → ℤ) (i : Fin 4) : ℤ :=
  if i < nPlanes then
    if j = 0 then buf i else if stride i = 0 then old i else buf i + stride i * j
  else old i

/-- The task `j` of `vj_task_run`. -/
def taskArg (n nPlanes : ℕ) (buf1 buf2 : Fin 4 → ℤ) (buf3 : Option (Fin 4 → ℤ)) (strides : Option (Fin 4 → ℤ))
    (args : ℕ → VjTaskArg) (j : ℕ) : VjTaskArg :=
  let stride := taskStrides n nPlanes strides (args j)
  { args j with
    strides := stride
    input := slicePtr nPlanes j buf1 stride (args j).input
    output := slicePtr nPlanes j buf2 stride (args j).output
    temp := match buf3 with
      | none => (args j).temp
      | some buf3 => slicePtr nPlanes j buf3 stride (args j).temp
    jobnum := if j = 0 ∨ ∃ i : Fin 4, i < nPlanes ∧ stride i ≠ 0 then j else (args j).jobnum }

/-- `vj_task_run`: the arguments of the jobs, or none where it returns 0. -/
def vjTaskRun (n : ℕ) (buf1 buf2 : Fin 4 → ℤ) (buf3 : Option (Fin 4 → ℤ)) (strides : Option (Fin 4 → ℤ))
    (nPlanes : ℕ) (args : ℕ → VjTaskArg) : Option (List VjTaskArg) :=
  if n ≤ 1 then none else some ((List.range n).map (taskArg n nPlanes buf1 buf2 buf3 strides args))

/-! ## Copies -/

/-- A call of `memcpy`, for a plane. -/
structure Memcpy where
  plane : Fin 4
  dst : ℤ
  src : ℤ
  len : ℤ

/-- `vj_frame_copy_job`; the output is tested twice, and the input not at all. -/
def vjFrameCopyJob (info : VjTaskArg) : List Memcpy :=
  (List.finRange 4).filterMap fun i =>
    if info.strides i ≤ 0 ∨ info.output i = 0 ∨ info.output i = 0 then none
    else some { plane := i, dst := info.output i, src := info.input i, len := info.strides i }

/-- `vj_frame_copyN`, with `n` workers; the result of `vj_task_run` is not looked at. -/
def vjFrameCopyN (n : ℕ) (args : ℕ → VjTaskArg) (input output strides : Fin 4 → ℤ) : List Memcpy :=
  match vjTaskRun n input output none (some strides) 4 args with
  | none => []
  | some jobs => jobs.flatMap vjFrameCopyJob

/-- `vj_frame_simple_copy` -/
def vjFrameSimpleCopy (input output strides : Fin 4 → ℤ) : List Memcpy :=
  (List.finRange 4).filterMap fun i =>
    if input i ≠ 0 ∧ output i ≠ 0 ∧ strides i > 0 then
      some { plane := i, dst := output i, src := input i, len := strides i }
    else none

/-- The bytes that are copied: the plane, and where a byte goes and comes from. -/
def bytesOf (calls : List Memcpy) : Set (Fin 4 × ℤ × ℤ) :=
  {b | ∃ c ∈ calls, ∃ k, 0 ≤ k ∧ k < c.len ∧ b = (c.plane, c.dst + k, c.src + k)}

/-! ## Slices -/

/-- The slice of a plane that a task reads from a pointer. -/
def slice (ptr stride : ℤ) : Set ℤ := Set.Ico ptr (ptr + stride)

/-- A family of sets that are disjoint and make up a set. -/
def Partitions (family : ℕ → Set ℤ) (whole : Set ℤ) : Prop :=
  (∀ j k, j ≠ k → Disjoint (family j) (family k)) ∧ ⋃ j, family j = whole

/-- The slices of a plane that the jobs get; none without jobs. -/
def assigned (jobs : Option (List VjTaskArg)) (ptr : VjTaskArg → Fin 4 → ℤ) (i : Fin 4) (j : ℕ) : Set ℤ :=
  match jobs.bind (·[j]?) with
  | none => ∅
  | some a => slice (ptr a i) (a.strides i)

/-- The `j`-th of `n` equal slices. -/
def equalSlice (n : ℕ) (p s : ℤ) (j : ℕ) : Set ℤ := if j < n then Set.Ico (p + s * j) (p + s * j + s) else ∅

/-- Where a slice of `n` equal ones lies. -/
theorem mem_equalSlice {n : ℕ} {p s x : ℤ} {j : ℕ} :
    x ∈ equalSlice n p s j ↔ j < n ∧ p + s * j ≤ x ∧ x < p + s * (j + 1) := by
  unfold equalSlice
  split_ifs with hj
  · rw [Set.mem_Ico, mul_add, mul_one, ← add_assoc]
    exact ⟨fun h => ⟨hj, h⟩, fun h => h.2⟩
  · exact ⟨fun h => absurd h (Set.notMem_empty x), fun h => absurd h.1 hj⟩

/-- Equal slices do not overlap. -/
theorem disjoint_equalSlice {n : ℕ} {p s : ℤ} (hs : 0 ≤ s) {j k : ℕ} (hjk : j < k) :
    Disjoint (equalSlice n p s j) (equalSlice n p s k) := by
  refine Set.disjoint_left.mpr fun x hj hk => ?_
  obtain ⟨-, -, hlt⟩ := mem_equalSlice.mp hj
  obtain ⟨-, hle, -⟩ := mem_equalSlice.mp hk
  have hstep : s * ((j : ℤ) + 1) ≤ s * k := mul_le_mul_of_nonneg_left (by exact_mod_cast hjk) hs
  omega

/-- Equal slices make up what they cover. -/
theorem iUnion_equalSlice {n : ℕ} {p s : ℤ} (hs : 0 ≤ s) :
    ⋃ j, equalSlice n p s j = Set.Ico p (p + s * n) := by
  ext x
  rw [Set.mem_iUnion, Set.mem_Ico]
  constructor
  · rintro ⟨j, hj⟩
    obtain ⟨hlt, hlo, hhi⟩ := mem_equalSlice.mp hj
    have hfirst : 0 ≤ s * (j : ℤ) := mul_nonneg hs (Int.natCast_nonneg j)
    have hlast : s * ((j : ℤ) + 1) ≤ s * n := mul_le_mul_of_nonneg_left (by exact_mod_cast hlt) hs
    omega
  · rintro ⟨hlo, hhi⟩
    have hpos : 0 < s := by
      refine lt_of_le_of_ne hs fun hzero => ?_
      rw [← hzero, zero_mul] at hhi
      omega
    -- the slice of a position is its quotient
    have hdiv := Int.mul_ediv_add_emod (x - p) s
    have hmod := Int.emod_nonneg (x - p) hpos.ne'
    have hmod' := Int.emod_lt_of_pos (x - p) hpos
    have hquot : 0 ≤ (x - p) / s := Int.ediv_nonneg (by omega) hs
    have hlt : (x - p) / s < n := by
      refine Int.ediv_lt_of_lt_mul hpos ?_
      rw [mul_comm]
      omega
    refine ⟨((x - p) / s).toNat, mem_equalSlice.mpr ⟨by omega, ?_, ?_⟩⟩
    · rw [Int.toNat_of_nonneg hquot]
      omega
    · rw [Int.toNat_of_nonneg hquot, mul_add, mul_one]
      omega

/-- **Equal slices make up a plane** exactly if they are as long as it. -/
theorem partitions_equalSlice_iff {n : ℕ} {p s len : ℤ} (hs : 0 ≤ s) (hlen : 0 ≤ len) :
    Partitions (equalSlice n p s) (Set.Ico p (p + len)) ↔ s * n = len := by
  have hn : 0 ≤ s * n := mul_nonneg hs (Int.natCast_nonneg n)
  unfold Partitions
  rw [iUnion_equalSlice hs]
  constructor
  · rintro ⟨-, hunion⟩
    rcases hlen.eq_or_lt with rfl | hpos
    · rw [add_zero, Set.Ico_self, Set.Ico_eq_empty_iff] at hunion
      omega
    · have hle := (Set.Ico_subset_Ico_iff (show p < p + len by omega)).mp hunion.ge
      have hge := (Set.Ico_subset_Ico_iff (show p < p + s * n by omega)).mp hunion.le
      omega
  · intro heq
    refine ⟨fun j k hjk => ?_, by rw [heq]⟩
    rcases Nat.lt_or_gt_of_ne hjk with hlt | hlt
    · exact disjoint_equalSlice hs hlt
    · exact (disjoint_equalSlice hs hlt).symm

/-! ## What `vj_task_run` assigns -/

section Run

variable {n nPlanes : ℕ} {buf1 buf2 : Fin 4 → ℤ} {buf3 strides : Option (Fin 4 → ℤ)} {args : ℕ → VjTaskArg}
  {i : Fin 4}

/-- The slice of a pointer that `vj_task_run` computes. -/
theorem slice_slicePtr {j : ℕ} {buf stride old : Fin 4 → ℤ} (hi : i < nPlanes) :
    slice (slicePtr nPlanes j buf stride old i) (stride i)
      = Set.Ico (buf i + stride i * j) (buf i + stride i * j + stride i) := by
  unfold slice slicePtr
  rw [if_pos hi]
  split_ifs with hj hzero
  · rw [hj, Nat.cast_zero, mul_zero, add_zero]
  · rw [hzero, add_zero, add_zero, Set.Ico_self, Set.Ico_self]
  · rfl

/-- **The slices of a plane** are equal slices, if all tasks have the same stride. -/
theorem assigned_vjTaskRun (hn : 2 ≤ n) (hi : i < nPlanes) {s : ℤ}
    (hs : ∀ j < n, taskStrides n nPlanes strides (args j) i = s) :
    assigned (vjTaskRun n buf1 buf2 buf3 strides nPlanes args) VjTaskArg.input i = equalSlice n (buf1 i) s ∧
      assigned (vjTaskRun n buf1 buf2 buf3 strides nPlanes args) VjTaskArg.output i = equalSlice n (buf2 i) s := by
  have hget : ∀ j, (vjTaskRun n buf1 buf2 buf3 strides nPlanes args).bind (·[j]?) =
      if j < n then some (taskArg n nPlanes buf1 buf2 buf3 strides args j) else none := by
    intro j
    rw [vjTaskRun, if_neg (by omega), Option.bind_some, List.getElem?_map]
    split_ifs with hj
    · rw [List.getElem?_range hj]
      rfl
    · rw [List.getElem?_eq_none (by rw [List.length_range]; omega)]
      rfl
  constructor <;> funext j <;> unfold assigned equalSlice <;> rw [hget] <;> split_ifs with hj
  · have hslice := @slice_slicePtr nPlanes i j buf1 (taskStrides n nPlanes strides (args j)) (args j).input hi
    rw [hs j hj] at hslice
    refine Eq.trans ?_ hslice
    rw [← hs j hj]
    rfl
  · rfl
  · have hslice := @slice_slicePtr nPlanes i j buf2 (taskStrides n nPlanes strides (args j)) (args j).output hi
    rw [hs j hj] at hslice
    refine Eq.trans ?_ hslice
    rw [← hs j hj]
    rfl
  · rfl

/-- The slices make up the plane, for what is read and what is written. -/
def MakeUp (jobs : Option (List VjTaskArg)) (buf1 buf2 : Fin 4 → ℤ) (i : Fin 4) (len : ℤ) : Prop :=
  Partitions (assigned jobs VjTaskArg.input i) (Set.Ico (buf1 i) (buf1 i + len)) ∧
    Partitions (assigned jobs VjTaskArg.output i) (Set.Ico (buf2 i) (buf2 i + len))

/-- Without jobs, only an empty plane is made up. -/
theorem makeUp_none {len : ℤ} (hlen : 0 ≤ len) : MakeUp none buf1 buf2 i len ↔ len = 0 := by
  have hnone : ∀ (ptr : VjTaskArg → Fin 4 → ℤ) (p : ℤ),
      Partitions (assigned none ptr i) (Set.Ico p (p + len)) ↔ len = 0 := by
    intro ptr p
    have hempty : ∀ j, assigned none ptr i j = ∅ := fun _ => rfl
    unfold Partitions
    simp only [hempty, Set.iUnion_empty]
    constructor
    · rintro ⟨-, h⟩
      rw [eq_comm, Set.Ico_eq_empty_iff] at h
      omega
    · rintro rfl
      exact ⟨fun _ _ _ => Set.disjoint_empty _, by rw [add_zero, Set.Ico_self]⟩
  unfold MakeUp
  rw [hnone, hnone, and_self_iff]

/-- **When the slices make up a plane**: the tasks are at least two, and their strides add up to its length. -/
theorem makeUp_iff (hi : i < nPlanes) {s len : ℤ} (hs : 0 ≤ s) (hlen : 0 ≤ len)
    (hsame : 2 ≤ n → ∀ j < n, taskStrides n nPlanes strides (args j) i = s) :
    MakeUp (vjTaskRun n buf1 buf2 buf3 strides nPlanes args) buf1 buf2 i len ↔
      len = 0 ∧ n ≤ 1 ∨ 2 ≤ n ∧ s * n = len := by
  by_cases hn : n ≤ 1
  · rw [vjTaskRun, if_pos hn, makeUp_none hlen]
    omega
  · obtain ⟨hin, hout⟩ := @assigned_vjTaskRun n nPlanes buf1 buf2 buf3 strides args i (by omega) hi s
      (hsame (by omega))
    unfold MakeUp
    rw [hin, hout, partitions_equalSlice_iff hs hlen, partitions_equalSlice_iff hs hlen, and_self_iff]
    exact ⟨fun h => Or.inr ⟨by omega, h⟩, fun h => h.elim (fun h => absurd h.2 hn) And.right⟩

end Run

/-! ## The remainder of a division -/

/-- Parts of a division add up to the whole exactly if nothing remains. -/
theorem tdiv_mul_eq_iff {n : ℕ} {len : ℤ} : len.tdiv n * n = len ↔ (n : ℤ) ∣ len := by
  constructor
  · intro h
    exact ⟨len.tdiv n, by rw [mul_comm]; exact h.symm⟩
  · intro h
    rw [mul_comm]
    exact Int.mul_tdiv_cancel' h

/-- With a factor that is not divided, the factor may also be 0. -/
theorem mul_tdiv_mul_eq_iff {n : ℕ} {width rows : ℤ} :
    width * rows.tdiv n * n = width * rows ↔ width * rows = 0 ∨ (n : ℤ) ∣ rows := by
  rw [mul_assoc]
  rcases eq_or_ne width 0 with rfl | hwidth
  · simp only [zero_mul, true_or]
  · rw [mul_right_inj' hwidth, tdiv_mul_eq_iff, mul_eq_zero, or_iff_right hwidth]
    exact ⟨Or.inr, fun h => h.elim (fun h => h ▸ dvd_zero _) id⟩

/-- The same, with the whole that is empty. -/
theorem tdiv_mul_eq_zero_or {n : ℕ} {len : ℤ} : len.tdiv n * n = len ↔ len = 0 ∨ (n : ℤ) ∣ len := by
  rw [tdiv_mul_eq_iff]
  exact ⟨Or.inr, fun h => h.elim (fun h => h ▸ dvd_zero _) id⟩

/-- An empty plane is made up with any number of tasks. -/
theorem empty_or_split {n : ℕ} {p q : Prop} : p ∧ n ≤ 1 ∨ 2 ≤ n ∧ (p ∨ q) ↔ p ∨ 2 ≤ n ∧ q := by
  constructor
  · rintro (h | ⟨hn, h | h⟩)
    · exact Or.inl h.1
    · exact Or.inl h
    · exact Or.inr ⟨hn, h⟩
  · rintro (h | ⟨hn, h⟩)
    · rcases Nat.lt_or_ge n 2 with hn | hn
      · exact Or.inl ⟨h, by omega⟩
      · exact Or.inr ⟨hn, Or.inl h⟩
    · exact Or.inr ⟨hn, Or.inr h⟩

/-- The number of rows of a plane that `vj_task_set_from_frame` divides. -/
def frameRows (frame : VJFrame) : Fin 4 → ℤ :=
  if frame.ssm = 1 then ![frame.height, frame.height, frame.height, 0]
  else ![frame.height, frame.uvHeight, frame.uvHeight, 0]

/-- The sizes of a frame are those of a picture. -/
structure VJFrame.Sized (frame : VJFrame) : Prop where
  width : 0 ≤ frame.width
  height : 0 ≤ frame.height
  uvWidth : 0 ≤ frame.uvWidth
  uvHeight : 0 ≤ frame.uvHeight

/-- The strides of a slice of a frame: a width times a part of the rows of the plane. -/
theorem frameStrides_rows (frame : VJFrame) (hf : frame.Sized) (i : Fin 4) :
    ∃ width, 0 ≤ width ∧ 0 ≤ frameRows frame i ∧
      frameStrides frame.ssm frame.width frame.height frame.uvWidth frame.uvHeight i = width * frameRows frame i ∧
      ∀ n : ℕ, frameStrides frame.ssm frame.width (frame.height.tdiv n) frame.uvWidth (frame.uvHeight.tdiv n) i
        = width * (frameRows frame i).tdiv n := by
  obtain ⟨hw, hh, huw, huh⟩ := hf
  unfold frameStrides frameRows
  split_ifs with hssm
  · fin_cases i
    · exact ⟨frame.width, hw, hh, rfl, fun _ => rfl⟩
    · exact ⟨frame.width, hw, hh, rfl, fun _ => rfl⟩
    · exact ⟨frame.width, hw, hh, rfl, fun _ => rfl⟩
    · exact ⟨0, le_refl 0, le_refl 0, (mul_zero 0).symm, fun n => (zero_mul _).symm⟩
  · fin_cases i
    · exact ⟨frame.width, hw, hh, rfl, fun _ => rfl⟩
    · exact ⟨frame.uvWidth, huw, huh, rfl, fun _ => rfl⟩
    · exact ⟨frame.uvWidth, huw, huh, rfl, fun _ => rfl⟩
    · exact ⟨0, le_refl 0, le_refl 0, (mul_zero 0).symm, fun n => (zero_mul _).symm⟩

section Planes

variable {n nPlanes : ℕ} {buf1 buf2 : Fin 4 → ℤ} {buf3 : Option (Fin 4 → ℤ)} {args : ℕ → VjTaskArg} {i : Fin 4}

/-- The slices of `vj_task_run` that divides what it is given. -/
theorem makeUp_given {strides : Fin 4 → ℤ} (hi : i < nPlanes) (hs : 0 ≤ strides i) :
    MakeUp (vjTaskRun n buf1 buf2 buf3 (some strides) nPlanes args) buf1 buf2 i (strides i) ↔
      strides i = 0 ∨ 2 ≤ n ∧ (n : ℤ) ∣ strides i := by
  have hstride : ∀ j < n, taskStrides n nPlanes (some strides) (args j) i = (strides i).tdiv n := by
    intro j _
    exact if_pos hi
  rw [makeUp_iff hi (Int.tdiv_nonneg hs (Int.natCast_nonneg n)) hs fun _ => hstride, tdiv_mul_eq_zero_or,
    empty_or_split]

/-- The slices that `vj_task_set_from_args` has set. -/
theorem makeUp_args {len uvLen : ℤ} (hi : i < nPlanes) (hs : 0 ≤ len) (huv : 0 ≤ uvLen) :
    MakeUp (vjTaskRun n buf1 buf2 buf3 none nPlanes (vjTaskSetFromArgs n len uvLen args)) buf1 buf2 i
        (![len, uvLen, uvLen, 0] i) ↔
      ![len, uvLen, uvLen, 0] i = 0 ∨ 2 ≤ n ∧ (n : ℤ) ∣ ![len, uvLen, uvLen, 0] i := by
  have hnonneg : 0 ≤ ![len, uvLen, uvLen, 0] i := by
    fin_cases i
    · exact hs
    · exact huv
    · exact huv
    · exact le_refl 0
  have hstride : ∀ j < n,
      taskStrides n nPlanes none (vjTaskSetFromArgs n len uvLen args j) i = (![len, uvLen, uvLen, 0] i).tdiv n := by
    intro j hj
    unfold taskStrides vjTaskSetFromArgs
    rw [if_pos hj]
    fin_cases i
    · rfl
    · rfl
    · rfl
    · exact (Int.zero_tdiv _).symm
  rw [makeUp_iff hi (Int.tdiv_nonneg hnonneg (Int.natCast_nonneg n)) hnonneg fun _ => hstride, tdiv_mul_eq_zero_or,
    empty_or_split]

/-- The slices that `vj_task_set_from_frame` has set. -/
theorem makeUp_frame {frame : VJFrame} (hi : i < nPlanes) (hf : frame.Sized) :
    MakeUp (vjTaskRun n buf1 buf2 buf3 none nPlanes (vjTaskSetFromFrame n frame args)) buf1 buf2 i
        (frameStrides frame.ssm frame.width frame.height frame.uvWidth frame.uvHeight i) ↔
      frameStrides frame.ssm frame.width frame.height frame.uvWidth frame.uvHeight i = 0 ∨
        2 ≤ n ∧ (n : ℤ) ∣ frameRows frame i := by
  obtain ⟨width, hw, hrows, hlen, hpart⟩ := frameStrides_rows frame hf i
  have hstride : ∀ j < n, taskStrides n nPlanes none (vjTaskSetFromFrame n frame args j) i
      = width * (frameRows frame i).tdiv n := by
    intro j hj
    rw [← hpart]
    unfold taskStrides vjTaskSetFromFrame
    rw [if_pos hj]
  rw [hlen, makeUp_iff hi (mul_nonneg hw (Int.tdiv_nonneg hrows (Int.natCast_nonneg n))) (mul_nonneg hw hrows)
    fun _ => hstride, mul_tdiv_mul_eq_iff, empty_or_split]

end Planes

/-! ## The copies -/

section Copies

variable {n : ℕ} {args : ℕ → VjTaskArg} {input output strides : Fin 4 → ℤ} {i : Fin 4} {d s : ℤ}

/-- The calls of a copy job. -/
theorem mem_vjFrameCopyJob {info : VjTaskArg} {call : Memcpy} :
    call ∈ vjFrameCopyJob info ↔ 0 < info.strides call.plane ∧ info.output call.plane ≠ 0 ∧
      call = ⟨call.plane, info.output call.plane, info.input call.plane, info.strides call.plane⟩ := by
  unfold vjFrameCopyJob
  rw [List.mem_filterMap]
  constructor
  · rintro ⟨i, -, hi⟩
    split_ifs at hi with hskip
    push Not at hskip
    obtain rfl := Option.some.inj hi
    exact ⟨hskip.1, hskip.2.1, rfl⟩
  · rintro ⟨hlen, hout, heq⟩
    refine ⟨call.plane, List.mem_finRange _, ?_⟩
    rw [if_neg (by push Not; exact ⟨hlen, hout, hout⟩), ← heq]

/-- The calls of the plain copy. -/
theorem mem_vjFrameSimpleCopy {call : Memcpy} :
    call ∈ vjFrameSimpleCopy input output strides ↔
      (input call.plane ≠ 0 ∧ output call.plane ≠ 0 ∧ 0 < strides call.plane) ∧
        call = ⟨call.plane, output call.plane, input call.plane, strides call.plane⟩ := by
  unfold vjFrameSimpleCopy
  rw [List.mem_filterMap]
  constructor
  · rintro ⟨i, -, hi⟩
    split_ifs at hi with hcopy
    obtain rfl := Option.some.inj hi
    exact ⟨hcopy, rfl⟩
  · rintro ⟨hcopy, heq⟩
    refine ⟨call.plane, List.mem_finRange _, ?_⟩
    rw [if_pos hcopy, ← heq]

/-- The bytes of the plain copy: all of each plane that has an input and an output. -/
theorem mem_bytesOf_vjFrameSimpleCopy :
    (i, d, s) ∈ bytesOf (vjFrameSimpleCopy input output strides) ↔
      ∃ m, (input i ≠ 0 ∧ output i ≠ 0 ∧ 0 ≤ m ∧ m < strides i) ∧ d = output i + m ∧ s = input i + m := by
  constructor
  · rintro ⟨call, hcall, k, hk, hlt, heq⟩
    obtain ⟨⟨hin, hout, -⟩, hfields⟩ := mem_vjFrameSimpleCopy.mp hcall
    rw [hfields] at hlt heq
    obtain ⟨rfl, rfl, rfl⟩ : i = call.plane ∧ d = output call.plane + k ∧ s = input call.plane + k := by
      simpa only [Prod.mk.injEq] using heq
    exact ⟨k, ⟨hin, hout, hk, hlt⟩, rfl, rfl⟩
  · rintro ⟨m, ⟨hin, hout, hm, hlt⟩, rfl, rfl⟩
    exact ⟨⟨i, output i, input i, strides i⟩,
      mem_vjFrameSimpleCopy.mpr ⟨⟨hin, hout, lt_of_le_of_lt hm hlt⟩, rfl⟩, m, hm, hlt, rfl⟩

/-- The arguments that the copy job of a worker gets. -/
theorem taskArg_copy {j : ℕ} :
    (taskArg n 4 input output none (some strides) args j).strides i = (strides i).tdiv n ∧
      ((strides i).tdiv n ≠ 0 →
        (taskArg n 4 input output none (some strides) args j).input i = input i + (strides i).tdiv n * j ∧
        (taskArg n 4 input output none (some strides) args j).output i = output i + (strides i).tdiv n * j) := by
  have hstride : taskStrides n 4 (some strides) (args j) i = (strides i).tdiv n := if_pos i.isLt
  refine ⟨hstride, fun hne => ?_⟩
  have hptr : ∀ buf old : Fin 4 → ℤ,
      slicePtr 4 j buf (taskStrides n 4 (some strides) (args j)) old i = buf i + (strides i).tdiv n * j := by
    intro buf old
    unfold slicePtr
    rw [if_pos i.isLt, hstride, if_neg hne]
    split_ifs with hj
    · rw [hj, Nat.cast_zero, mul_zero, add_zero]
    · rfl
  exact ⟨hptr input _, hptr output _⟩

/-- The bytes of the threaded copy: the parts of each plane, but not the first part of a plane without an output. -/
theorem mem_bytesOf_vjFrameCopyN (hout : 0 ≤ output i) :
    (i, d, s) ∈ bytesOf (vjFrameCopyN n args input output strides) ↔
      ∃ m, (2 ≤ n ∧ 0 ≤ m ∧ m < (strides i).tdiv n * n ∧ (output i = 0 → (strides i).tdiv n ≤ m)) ∧
        d = output i + m ∧ s = input i + m := by
  unfold vjFrameCopyN vjTaskRun
  split_ifs with hn
  · constructor
    · rintro ⟨_, h, -⟩
      exact absurd h List.not_mem_nil
    · rintro ⟨m, ⟨hle, -⟩, -⟩
      omega
  dsimp only
  constructor
  · rintro ⟨call, hcall, k, hk, hlt, heq⟩
    obtain ⟨job, hjob, hcall⟩ := List.mem_flatMap.mp hcall
    obtain ⟨j, hj, rfl⟩ := List.mem_map.mp hjob
    obtain ⟨hpos, hne, hfields⟩ := mem_vjFrameCopyJob.mp hcall
    rw [hfields] at hlt heq
    obtain ⟨rfl, rfl, rfl⟩ := by simpa only [Prod.mk.injEq] using heq
    obtain ⟨hstride, hptr⟩ := @taskArg_copy n args input output strides call.plane j
    dsimp only at hlt
    rw [hstride] at hlt hpos
    obtain ⟨hin, hptr⟩ := hptr hpos.ne'
    rw [hptr] at hne
    have hstart : 0 ≤ (strides call.plane).tdiv n * (j : ℤ) := mul_nonneg hpos.le (Int.natCast_nonneg j)
    have hend : (strides call.plane).tdiv n * ((j : ℤ) + 1) ≤ (strides call.plane).tdiv n * n :=
      mul_le_mul_of_nonneg_left (by exact_mod_cast List.mem_range.mp hj) hpos.le
    rw [mul_add, mul_one] at hend
    refine ⟨(strides call.plane).tdiv n * j + k, ⟨by omega, by omega, by omega, fun hzero => ?_⟩, ?_, ?_⟩
    · -- the first task has no output, and copies nothing
      have hj0 : j ≠ 0 := by
        rintro rfl
        rw [hzero, Nat.cast_zero, mul_zero] at hne
        exact hne rfl
      have hone : (strides call.plane).tdiv n * 1 ≤ (strides call.plane).tdiv n * (j : ℤ) :=
        mul_le_mul_of_nonneg_left (by exact_mod_cast Nat.one_le_iff_ne_zero.mpr hj0) hpos.le
      omega
    · rw [hptr, add_assoc]
    · rw [hin, add_assoc]
  · rintro ⟨m, ⟨hle, hm, hlt, hfirst⟩, rfl, rfl⟩
    have hpos : 0 < (strides i).tdiv n := by
      by_contra hneg
      have hprod : (strides i).tdiv n * (n : ℤ) ≤ 0 :=
        mul_nonpos_of_nonpos_of_nonneg (not_lt.mp hneg) (Int.natCast_nonneg n)
      omega
    obtain ⟨j, hj⟩ := Int.eq_ofNat_of_zero_le (Int.ediv_nonneg hm hpos.le)
    have hdiv := Int.mul_ediv_add_emod m ((strides i).tdiv n)
    rw [hj] at hdiv
    have hjn : j < n := by
      have hquot : m / (strides i).tdiv n < n := Int.ediv_lt_of_lt_mul hpos (by rw [mul_comm]; exact hlt)
      omega
    obtain ⟨hstride, hptr⟩ := @taskArg_copy n args input output strides i j
    obtain ⟨hin, hptr⟩ := hptr hpos.ne'
    have hstart : 0 ≤ (strides i).tdiv n * (j : ℤ) := mul_nonneg hpos.le (Int.natCast_nonneg j)
    have hne : output i + (strides i).tdiv n * j ≠ 0 := by
      intro hzero
      have hmod := Int.emod_lt_of_pos m hpos
      have hfirst := hfirst (by omega)
      omega
    refine ⟨⟨i, output i + (strides i).tdiv n * j, input i + (strides i).tdiv n * j, (strides i).tdiv n⟩,
      List.mem_flatMap.mpr ⟨taskArg n 4 input output none (some strides) args j,
        List.mem_map.mpr ⟨j, List.mem_range.mpr hjn, rfl⟩, ?_⟩,
      m % (strides i).tdiv n, Int.emod_nonneg m hpos.ne', Int.emod_lt_of_pos m hpos, ?_⟩
    · rw [mem_vjFrameCopyJob, hstride, hin, hptr]
      exact ⟨hpos, hne, rfl⟩
    · rw [add_assoc, add_assoc, hdiv]

/-- Both copies of a plane write the same bytes exactly if there is nothing to copy, or there is all that it takes
and no remainder, or nothing is copied since the parts are empty. -/
theorem copies_plane_iff {n : ℕ} {len : ℤ} {p : Prop} {q : Prop} (hpq : p → ¬ q) :
    (∀ m, 2 ≤ n ∧ 0 ≤ m ∧ m < len.tdiv n * n ∧ (q → len.tdiv n ≤ m) ↔ p ∧ 0 ≤ m ∧ m < len) ↔
      len ≤ 0 ∨ p ∧ 2 ≤ n ∧ (n : ℤ) ∣ len ∨ ¬ p ∧ (n ≤ 1 ∨ len < n) := by
  rcases le_or_gt len 0 with hlen | hlen
  · -- the parts of an empty plane are empty
    refine iff_of_true (fun m => ?_) (Or.inl hlen)
    have hneg : 0 ≤ (-len).tdiv n := Int.tdiv_nonneg (by omega) (Int.natCast_nonneg n)
    rw [Int.neg_tdiv] at hneg
    have hpart : len.tdiv n ≤ 0 := by omega
    have hprod : len.tdiv n * (n : ℤ) ≤ 0 := mul_nonpos_of_nonpos_of_nonneg hpart (Int.natCast_nonneg n)
    constructor
    · rintro ⟨-, hm, hlt, -⟩
      omega
    · rintro ⟨-, hm, hlt⟩
      omega
  · rw [or_iff_right (not_le.mpr hlen), Int.tdiv_eq_ediv_of_nonneg hlen.le]
    have hdiv := Int.mul_ediv_add_emod len n
    rw [mul_comm] at hdiv
    by_cases hn : n ≤ 1
    · constructor
      · intro h
        by_cases hp : p
        · exact absurd ((h 0).mpr ⟨hp, le_refl 0, hlen⟩).1 (by omega)
        · exact Or.inr ⟨hp, Or.inl hn⟩
      · rintro (⟨-, hle, -⟩ | ⟨hp, -⟩) m
        · omega
        · exact iff_of_false (fun h => absurd h.1 (by omega)) (fun h => hp h.1)
    · have hpos : (0 : ℤ) < n := by omega
      have hmod := Int.emod_nonneg len hpos.ne'
      have hmod' := Int.emod_lt_of_pos len hpos
      have hquot : 0 ≤ len / n := Int.ediv_nonneg hlen.le hpos.le
      by_cases hp : p
      · rw [or_iff_left fun h => h.1 hp]
        constructor
        · intro h
          refine ⟨hp, by omega, Int.dvd_of_emod_eq_zero ?_⟩
          -- the last byte is copied
          have hlast := ((h (len - 1)).mpr ⟨hp, by omega, by omega⟩).2.2.1
          omega
        · rintro ⟨-, hle, hdvd⟩ m
          have hzero := Int.emod_eq_zero_of_dvd hdvd
          constructor
          · rintro ⟨-, hm, hlt, -⟩
            exact ⟨hp, hm, by omega⟩
          · rintro ⟨-, hm, hlt⟩
            exact ⟨hle, hm, by omega, fun hq => absurd hq (hpq hp)⟩
      · rw [or_iff_right fun h => hp h.1, and_iff_right hp, or_iff_right hn]
        have hsmall : len / n = 0 ↔ len < n := by
          constructor
          · intro hzero
            rw [hzero, zero_mul] at hdiv
            omega
          · exact Int.ediv_eq_zero_of_lt hlen.le
        constructor
        · intro h
          -- the first byte of the second part is not copied
          by_contra hlarge
          have hpart : 1 ≤ len / n := by
            have hne := mt hsmall.mp hlarge
            omega
          have htwo : len / n * 2 ≤ len / n * n := mul_le_mul_of_nonneg_left (by omega) hquot
          exact hp ((h (len / n)).mp ⟨by omega, hquot, by omega, fun _ => le_refl _⟩).1
        · intro hlt m
          rw [hsmall.mpr hlt, zero_mul]
          refine iff_of_false ?_ fun h => hp h.1
          rintro ⟨-, hm, hlt, -⟩
          omega

/-- When both copies write the same bytes of a plane. -/
def CopiesPlane (n : ℕ) (input output strides : Fin 4 → ℤ) (i : Fin 4) : Prop :=
  strides i ≤ 0 ∨ (input i ≠ 0 ∧ output i ≠ 0) ∧ 2 ≤ n ∧ (n : ℤ) ∣ strides i ∨
    ¬ (input i ≠ 0 ∧ output i ≠ 0) ∧ (n ≤ 1 ∨ strides i < n)

/-- **The threaded and the plain copy** write the same bytes exactly if they do so for each plane. -/
theorem bytesOf_eq_iff (hout : ∀ i, 0 ≤ output i) :
    bytesOf (vjFrameCopyN n args input output strides) = bytesOf (vjFrameSimpleCopy input output strides) ↔
      ∀ i, CopiesPlane n input output strides i := by
  have hplane : ∀ i, CopiesPlane n input output strides i ↔
      ∀ m, 2 ≤ n ∧ 0 ≤ m ∧ m < (strides i).tdiv n * n ∧ (output i = 0 → (strides i).tdiv n ≤ m) ↔
        (input i ≠ 0 ∧ output i ≠ 0) ∧ 0 ≤ m ∧ m < strides i :=
    fun i => (copies_plane_iff fun h => h.2).symm
  constructor
  · intro heq i
    rw [hplane]
    intro m
    have hmem := Set.ext_iff.mp heq (i, output i + m, input i + m)
    rw [mem_bytesOf_vjFrameCopyN (hout i), mem_bytesOf_vjFrameSimpleCopy] at hmem
    constructor
    · intro h
      obtain ⟨m', ⟨hin, hne, hm, hlt⟩, heq, -⟩ := hmem.mp ⟨m, h, rfl, rfl⟩
      obtain rfl := add_left_cancel heq
      exact ⟨⟨hin, hne⟩, hm, hlt⟩
    · rintro ⟨⟨hin, hne⟩, hm, hlt⟩
      obtain ⟨m', h, heq, -⟩ := hmem.mpr ⟨m, ⟨hin, hne, hm, hlt⟩, rfl, rfl⟩
      obtain rfl := add_left_cancel heq
      exact h
  · intro h
    ext ⟨i, d, s⟩
    rw [mem_bytesOf_vjFrameCopyN (hout i), mem_bytesOf_vjFrameSimpleCopy]
    have hi := (hplane i).mp (h i)
    constructor
    · rintro ⟨m, hm, hd, hs⟩
      obtain ⟨⟨hin, hne⟩, hm, hlt⟩ := (hi m).mp hm
      exact ⟨m, ⟨hin, hne, hm, hlt⟩, hd, hs⟩
    · rintro ⟨m, ⟨hin, hne, hm, hlt⟩, hd, hs⟩
      exact ⟨m, (hi m).mpr ⟨⟨hin, hne⟩, hm, hlt⟩, hd, hs⟩

end Copies

/-! ## Slices and copies -/

/-- **When the slices make up the planes**, for each way to set the strides of the tasks: the number of workers
divides what `vj_task_run`, or who sets the strides, divides by it.  The two copies are the same then. -/
theorem slices_iff (n nPlanes : ℕ) (buf1 buf2 : Fin 4 → ℤ) (buf3 : Option (Fin 4 → ℤ)) (args : ℕ → VjTaskArg)
    (strides : Fin 4 → ℤ) (hstrides : ∀ i, 0 ≤ strides i) (len uvLen : ℤ) (hlen : 0 ≤ len) (huvLen : 0 ≤ uvLen)
    (frame : VJFrame) (hframe : frame.Sized) (hout : ∀ i, 0 ≤ buf2 i) :
    (∀ i : Fin 4, i < nPlanes →
      (MakeUp (vjTaskRun n buf1 buf2 buf3 (some strides) nPlanes args) buf1 buf2 i (strides i) ↔
        strides i = 0 ∨ 2 ≤ n ∧ (n : ℤ) ∣ strides i) ∧
      (MakeUp (vjTaskRun n buf1 buf2 buf3 none nPlanes (vjTaskSetFromArgs n len uvLen args)) buf1 buf2 i
          (![len, uvLen, uvLen, 0] i) ↔
        ![len, uvLen, uvLen, 0] i = 0 ∨ 2 ≤ n ∧ (n : ℤ) ∣ ![len, uvLen, uvLen, 0] i) ∧
      (MakeUp (vjTaskRun n buf1 buf2 buf3 none nPlanes (vjTaskSetFromFrame n frame args)) buf1 buf2 i
          (frameStrides frame.ssm frame.width frame.height frame.uvWidth frame.uvHeight i) ↔
        frameStrides frame.ssm frame.width frame.height frame.uvWidth frame.uvHeight i = 0 ∨
          2 ≤ n ∧ (n : ℤ) ∣ frameRows frame i)) ∧
    (bytesOf (vjFrameCopyN n args buf1 buf2 strides) = bytesOf (vjFrameSimpleCopy buf1 buf2 strides) ↔
      ∀ i, CopiesPlane n buf1 buf2 strides i) :=
  ⟨fun i hi => ⟨makeUp_given hi (hstrides i), makeUp_args hi hlen huvLen, makeUp_frame hi hframe⟩,
    bytesOf_eq_iff hout⟩

/-- The argument of a task as the run before has left it: cleared. -/
def clearedArg : VjTaskArg :=
  { strides := 0, input := 0, output := 0, temp := 0, width := 0, height := 0, shiftv := 0, shifth := 0, ssm := 0
    uvWidth := 0, uvHeight := 0, jobnum := 0 }

/-- Planes at different addresses, of a frame in memory. -/
def planesAt (p : ℤ) : Fin 4 → ℤ := ![p, p + 100, p + 200, 0]

theorem planesAt_nonneg : ∀ i, 0 ≤ planesAt 2000 i := by decide

/-- Two workers copy all of six bytes, and of two times four. -/
theorem slices_even :
    MakeUp (vjTaskRun 2 (planesAt 1000) (planesAt 2000) none (some ![6, 4, 4, 0]) 4 fun _ => clearedArg)
        (planesAt 1000) (planesAt 2000) 0 6 ∧
      bytesOf (vjFrameCopyN 2 (fun _ => clearedArg) (planesAt 1000) (planesAt 2000) ![6, 4, 4, 0])
        = bytesOf (vjFrameSimpleCopy (planesAt 1000) (planesAt 2000) ![6, 4, 4, 0]) := by
  have h := slices_iff 2 4 (planesAt 1000) (planesAt 2000) none (fun _ => clearedArg) ![6, 4, 4, 0] (by decide)
    6 4 (by decide) (by decide) ⟨3, 2, 3, 2, 0, 0, 0⟩ ⟨by decide, by decide, by decide, by decide⟩ planesAt_nonneg
  refine ⟨(h.1 0 (by decide)).1.mpr (Or.inr ⟨le_refl 2, ?_⟩), h.2.mpr ?_⟩
  · exact ⟨3, rfl⟩
  · unfold CopiesPlane
    decide

/-- **A remainder is not copied**: of five bytes, two workers copy four. -/
theorem copy_misses_remainder :
    ¬ MakeUp (vjTaskRun 2 (planesAt 1000) (planesAt 2000) none (some ![5, 2, 2, 0]) 4 fun _ => clearedArg)
        (planesAt 1000) (planesAt 2000) 0 5 ∧
      bytesOf (vjFrameCopyN 2 (fun _ => clearedArg) (planesAt 1000) (planesAt 2000) ![5, 2, 2, 0])
        ≠ bytesOf (vjFrameSimpleCopy (planesAt 1000) (planesAt 2000) ![5, 2, 2, 0]) := by
  constructor
  · intro h
    have hodd := (@makeUp_given 2 4 _ _ none _ 0 ![5, 2, 2, 0] (by decide) (by decide)).mp h
    revert hodd
    decide
  · intro h
    have hodd := (bytesOf_eq_iff planesAt_nonneg).mp h 0
    revert hodd
    unfold CopiesPlane
    decide

end Veejay.Task
