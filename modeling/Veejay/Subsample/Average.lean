import Veejay.Subsample.Horizontal

/-!
# From 4:4:4 to 4:2:0

A plane of 4:2:0 has a weighted average for every block of two by two.  `ss_444_to_420jpeg` computes it in place, with
running pointers over two rows, which it moves four rows on after it has read two (`libsubsample/subsample.c`).

* `ss444To420jpeg`, `ss444To420mpeg2` — the functions;
* `blockAt` — the block that a place of the result is really computed from;
* `averaged_iff` — **the averages are right exactly if** all blocks that are read are there, and those that are read
  have the same averages as those that belong to the places.
-/

namespace Veejay.Subsample

open CLib

variable {κ : Type}

/-! ## The functions -/

section Functions

variable [DecidableEq κ]

/-- `(in0[0] + 3 * (in0[1] + in1[0]) + (9 * in1[1]) + 8) >> 4` -/
def weighted (a b c d : UInt8) : UInt8 := UInt8.ofNat ((a.toNat + 3 * (b.toNat + c.toNat) + 9 * d.toNat + 8) >>> 4)

/-- The running pointers: two rows of the input, and the output. -/
abbrev Rows (κ : Type) := Ptr κ × Ptr κ × Ptr κ

/-- `out[o] = (in0[i] + 3 * (in0[i + 1] + in1[i]) + (9 * in1[i + 1]) + 8) >> 4` -/
def averageBlock (p : Rows κ) (o i : ℕ) (m : Bytes κ) : Exec (Bytes κ) := do
  let a ← m.read (p.1 + i)
  let b ← m.read (p.1 + (i + 1))
  let c ← m.read (p.2.1 + i)
  let d ← m.read (p.2.1 + (i + 1))
  m.write (p.2.2 + o) (weighted a b c d)

/-- `ss_444_to_420jpeg` -/
def ss444To420jpeg (buffer : Ptr κ) (width height : ℕ) (m : Bytes κ) : Exec (Bytes κ) := do
  let (_, m) ← forUp 0 height 4 (fun _ s => do
    let (p, m) ← forUp 0 width 4 (fun _ (p, m) => do
      let m ← averageBlock p 0 0 m
      let m ← averageBlock p 1 2 m
      let m ← averageBlock p 2 4 m
      let m ← averageBlock p 3 6 m
      .ok ((p.1 + 8, p.2.1 + 8, p.2.2 + 4), m)) s
    -- `x` has come to `width`, or past it
    let (p, m) ← forUp (4 * ((width + 3) / 4)) width 2 (fun _ (p, m) => do
      let m ← averageBlock p 0 0 m
      .ok ((p.1 + 2, p.2.1 + 2, p.2.2 + 1), m)) (p, m)
    .ok ((p.1 + width * 2, p.2.1 + width * 2, p.2.2), m)) ((buffer, buffer + width, buffer), m)
  .ok m

/-- `(in0[0] + (2 * in0[1]) + in0[2] + in1[0] + (2 * in1[1]) + in1[2]) >> 3` -/
def kernel (a b c d e f : UInt8) : UInt8 :=
  UInt8.ofNat ((a.toNat + 2 * b.toNat + c.toNat + d.toNat + 2 * e.toNat + f.toNat) >>> 3)

/-- A sample of `ss_444_to_420mpeg2`: the three places are `0, 1, 2`, or `0, 0, 1` in the first column. -/
def kernelBlock (p : Rows κ) (i j k : ℕ) (m : Bytes κ) : Exec (Bytes κ) := do
  let a ← m.read (p.1 + i)
  let b ← m.read (p.1 + j)
  let c ← m.read (p.1 + k)
  let d ← m.read (p.2.1 + i)
  let e ← m.read (p.2.1 + j)
  let f ← m.read (p.2.1 + k)
  m.write p.2.2 (kernel a b c d e f)

/-- `ss_444_to_420mpeg2` -/
def ss444To420mpeg2 (buffer : Ptr κ) (width height : ℕ) (m : Bytes κ) : Exec (Bytes κ) := do
  let (_, m) ← forUp 0 height 2 (fun _ (p, m) => do
    let m ← kernelBlock p 0 0 1 m
    let p := (p.1 + 1, p.2.1 + 1, p.2.2 + 1)
    let (p, m) ← forUp 2 width 2 (fun _ (p, m) => do
      let m ← kernelBlock p 0 1 2 m
      .ok ((p.1 + 2, p.2.1 + 2, p.2.2 + 1), m)) (p, m)
    .ok ((p.1 + (width + 1), p.2.1 + (width + 1), p.2.2), m)) ((buffer, buffer + width, buffer), m)
  .ok m

end Functions

/-! ## The rounds -/

section Rounds

variable {buffer : Ptr κ} {width height : ℕ}

/-- The weighted average of the four bytes that a round has read. -/
def weightedOf (vs : List UInt8) : UInt8 := weighted (vs.getD 0 0) (vs.getD 1 0) (vs.getD 2 0) (vs.getD 3 0)

/-- The average of the block at the place `b`, written to the place `n`. -/
def blockStep (buffer : Ptr κ) (width b n : ℕ) : Step (Ptr κ) UInt8 :=
  ⟨[buffer + b, buffer + (b + 1), buffer + (width + b), buffer + (width + (b + 1))], [(buffer + n, weightedOf)]⟩

/-- The number of averages that are written for four rows. -/
def rowLength (width : ℕ) : ℕ := 4 * ((width + 3) / 4)

/-- How far the pointers move on for four rows. -/
def rowAdvance (width : ℕ) : ℕ := 2 * rowLength width + 2 * width

/-- The block that the place `n` of the result is computed from. -/
def blockAt (width n : ℕ) : ℕ := n / rowLength width * rowAdvance width + 2 * (n % rowLength width)

/-- The four averages of a round of the inner loop. -/
def fourSteps (buffer : Ptr κ) (width b n : ℕ) : List (Step (Ptr κ) UInt8) :=
  [blockStep buffer width b n, blockStep buffer width (b + 2) (n + 1), blockStep buffer width (b + 4) (n + 2),
    blockStep buffer width (b + 6) (n + 3)]

/-- The averages for four rows. -/
def rowSteps (buffer : Ptr κ) (width b n : ℕ) : List (Step (Ptr κ) UInt8) :=
  (List.range ((width + 3) / 4)).flatMap fun k => fourSteps buffer width (b + 8 * k) (n + 4 * k)

/-- All averages. -/
def allSteps (buffer : Ptr κ) (width height : ℕ) : List (Step (Ptr κ) UInt8) :=
  (List.range ((height + 3) / 4)).flatMap fun k => rowSteps buffer width (rowAdvance width * k) (rowLength width * k)

/-- The pointers at the block `b` and at the place `n` of the result. -/
def rowsAt (buffer : Ptr κ) (width b n : ℕ) : Rows κ := (buffer + b, buffer + (width + b), buffer + n)

/-- The averages of the rows are written behind what is read for them. -/
theorem rowLength_mul_le (width k : ℕ) : rowLength width * k ≤ rowAdvance width * k := by
  refine Nat.mul_le_mul_right k ?_
  rw [rowAdvance]
  omega

/-- The pointers after the rows: both loops, and the lines that are stepped over. -/
theorem rowAdvance_succ (width k : ℕ) :
    rowAdvance width * k + 2 * rowLength width + width * 2 = rowAdvance width * (k + 1) := by
  rw [rowAdvance]
  ring

/-- The places of the quarter-size plane are among those that are written. -/
theorem quarter_le_places (width height : ℕ) : height / 2 * (width / 2) ≤ rowLength width * ((height + 3) / 4) := by
  have heven : 2 * (rowLength width / 2) = rowLength width := by
    rw [rowLength]
    omega
  calc height / 2 * (width / 2) ≤ 2 * ((height + 3) / 4) * (rowLength width / 2) := by
        refine Nat.mul_le_mul (by omega) ?_
        rw [rowLength]
        omega
    _ = 2 * (rowLength width / 2) * ((height + 3) / 4) := by ring
    _ = rowLength width * ((height + 3) / 4) := by rw [heven]

theorem rowsAt_add (b n i o : ℕ) :
    ((rowsAt buffer width b n).1 + i, (rowsAt buffer width b n).2.1 + i, (rowsAt buffer width b n).2.2 + o) =
      rowsAt buffer width (b + i) (n + o) := by
  rw [rowsAt, rowsAt]
  dsimp only
  rw [Ptr.add_nat_add, Ptr.add_nat_add, Ptr.add_nat_add, Nat.add_assoc]

/-- The averages for four rows, one after the other. -/
theorem rowSteps_eq_map (b n : ℕ) :
    rowSteps buffer width b n = (List.range (rowLength width)).map fun c => blockStep buffer width (b + 2 * c) (n + c) := by
  rw [rowSteps, rowLength]
  generalize (width + 3) / 4 = q
  induction q with
  | zero => rfl
  | succ q ih =>
    have hfour : 4 * (q + 1) = 4 * q + 1 + 1 + 1 + 1 := by omega
    have hb : b + 8 * q = b + 2 * (4 * q) := by omega
    rw [hfour, List.range_succ, List.range_succ, List.range_succ, List.range_succ, List.range_succ, List.flatMap_append,
      ih, List.flatMap_cons, List.flatMap_nil, List.append_nil, hb]
    simp only [List.map_append, List.map_cons, List.map_nil, List.append_assoc]
    rfl

theorem mem_allSteps {t : Step (Ptr κ) UInt8} :
    t ∈ allSteps buffer width height ↔ ∃ k < (height + 3) / 4, ∃ c < rowLength width,
      t = blockStep buffer width (rowAdvance width * k + 2 * c) (rowLength width * k + c) := by
  rw [allSteps, List.mem_flatMap]
  refine exists_congr fun k => ?_
  rw [List.mem_range]
  refine and_congr_right fun _ => ?_
  rw [rowSteps_eq_map, List.mem_map]
  refine exists_congr fun c => ?_
  rw [List.mem_range]
  exact and_congr_right fun _ => eq_comm

theorem allSteps_of_empty (h : width = 0 ∨ height = 0) : allSteps buffer width height = [] := by
  rw [List.eq_nil_iff_forall_not_mem]
  intro t ht
  obtain ⟨k, hk, c, hc, -⟩ := mem_allSteps.mp ht
  rw [rowLength] at hc
  omega

/-- A block is read behind everything that has been written before. -/
theorem blockStep_apart {b n b' n' : ℕ} (hlt : n < n') (hle : n' ≤ b') :
    (blockStep buffer width b n).Apart (blockStep buffer width b' n') := by
  refine Step.apart_single ?_ ?_
  · intro hmem
    have hplace : n = b' ∨ n = b' + 1 ∨ n = width + b' ∨ n = width + (b' + 1) := by
      rcases List.mem_cons.mp hmem with h | hmem
      · exact .inl (Ptr.add_nat_inj.mp h)
      rcases List.mem_cons.mp hmem with h | hmem
      · exact .inr (.inl (Ptr.add_nat_inj.mp h))
      rcases List.mem_pair.mp hmem with h | h
      · exact .inr (.inr (.inl (Ptr.add_nat_inj.mp h)))
      · exact .inr (.inr (.inr (Ptr.add_nat_inj.mp h)))
    omega
  · rw [ne_eq, Ptr.add_nat_inj]
    omega

theorem apart_allSteps : Apart (allSteps buffer width height) := by
  have hbehind : ∀ k c, rowLength width * k + c ≤ rowAdvance width * k + 2 * c := by
    intro k c
    have hle := rowLength_mul_le width k
    omega
  refine apart_flatMap (fun k _ => ?_) ?_
  · rw [rowSteps_eq_map]
    refine ⟨fun t ht => ?_, ?_⟩
    · obtain ⟨c, -, rfl⟩ := List.mem_map.mp ht
      exact Step.once_single _
    · rw [List.pairwise_map]
      refine List.pairwise_lt_range.imp fun {c c'} hlt => blockStep_apart (by omega) (hbehind k c')
  · refine List.pairwise_lt_range.imp ?_
    intro k k' hlt t ht t' ht'
    rw [rowSteps_eq_map] at ht ht'
    obtain ⟨c, hc, rfl⟩ := List.mem_map.mp ht
    obtain ⟨c', -, rfl⟩ := List.mem_map.mp ht'
    have hc := List.mem_range.mp hc
    have hrow := Nat.mul_le_mul_left (rowLength width) (Nat.succ_le_of_lt hlt)
    rw [Nat.mul_succ] at hrow
    exact blockStep_apart (by omega) (hbehind k' c')

/-- The second loop of a row begins where the first one has ended, and makes no round. -/
theorem secondLoop_eq {σ : Type} (width : ℕ) (body : ℕ → σ → Exec σ) (s : σ) :
    forUp (4 * ((width + 3) / 4)) width 2 body s = .ok s := by
  have hn : (width - 4 * ((width + 3) / 4) + 2 - 1) / 2 = 0 := by omega
  rw [forUp, hn]
  rfl

variable [DecidableEq κ]

theorem averageBlock_eq (b n o i : ℕ) (m : Bytes κ) :
    averageBlock (rowsAt buffer width b n) o i m = runAll [blockStep buffer width (b + i) (n + o)] m := by
  rw [runAll_single, blockStep, averageBlock, rowsAt]
  dsimp only
  simp only [Step.run, List.mapM_cons, List.mapM_nil, List.foldlM_cons, List.foldlM_nil, bind_assoc, pure_bind,
    bind_pure, Ptr.add_nat_add, Nat.add_assoc]
  rfl

theorem fourSteps_eq (b n : ℕ) (m : Bytes κ) :
    runAll (fourSteps buffer width b n) m = (do
      let m ← averageBlock (rowsAt buffer width b n) 0 0 m
      let m ← averageBlock (rowsAt buffer width b n) 1 2 m
      let m ← averageBlock (rowsAt buffer width b n) 2 4 m
      averageBlock (rowsAt buffer width b n) 3 6 m) := by
  have hfirst : fourSteps buffer width b n = [blockStep buffer width (b + 0) (n + 0)] ++
      ([blockStep buffer width (b + 2) (n + 1)] ++ ([blockStep buffer width (b + 4) (n + 2)] ++
        [blockStep buffer width (b + 6) (n + 3)])) := rfl
  rw [hfirst, runAll_append, averageBlock_eq]
  congr 1
  funext m
  rw [runAll_append, averageBlock_eq]
  congr 1
  funext m
  rw [runAll_append, averageBlock_eq]
  congr 1
  funext m
  rw [averageBlock_eq]

/-- The loop over four rows. -/
theorem innerLoop_eq (b n : ℕ) (m : Bytes κ) :
    forUp 0 width 4 (fun _ (s : Rows κ × Bytes κ) => match s with
      | (p, m) => do
        let m ← averageBlock p 0 0 m
        let m ← averageBlock p 1 2 m
        let m ← averageBlock p 2 4 m
        let m ← averageBlock p 3 6 m
        .ok ((p.1 + 8, p.2.1 + 8, p.2.2 + 4), m)) (rowsAt buffer width b n, m) =
      runAll (rowSteps buffer width b n) m >>= fun m =>
        .ok (rowsAt buffer width (b + 2 * rowLength width) (n + rowLength width), m) := by
  rw [forUp_runAll (n := (width + 3) / 4) (f := fun k => rowsAt buffer width (b + 8 * k) (n + 4 * k)) (by omega)
    (by simp only [Nat.mul_zero, Nat.add_zero])
    (fun k => fourSteps buffer width (b + 8 * k) (n + 4 * k))]
  · have hb : b + 8 * ((width + 3) / 4) = b + 2 * rowLength width := by
      rw [rowLength]
      omega
    rw [hb]
    rfl
  · intro k _ m
    have hb : b + 8 * k + 8 = b + 8 * (k + 1) := by omega
    have hn : n + 4 * k + 4 = n + 4 * (k + 1) := by omega
    dsimp only
    rw [fourSteps_eq, rowsAt_add, hb, hn]
    simp only [bind_assoc]

theorem ss444To420jpeg_eq (m : Bytes κ) :
    ss444To420jpeg buffer width height m = runAll (allSteps buffer width height) m := by
  have hstart : (buffer, buffer + width, buffer) = rowsAt buffer width (rowAdvance width * 0) (rowLength width * 0) := by
    rw [Nat.mul_zero, Nat.mul_zero, rowsAt, Ptr.add_nat_zero, Nat.add_zero]
  rw [ss444To420jpeg, forUp_runAll (n := (height + 3) / 4)
    (f := fun k => rowsAt buffer width (rowAdvance width * k) (rowLength width * k)) (by omega) hstart.symm
    (fun k => rowSteps buffer width (rowAdvance width * k) (rowLength width * k))]
  · rw [bind_assoc]
    exact bind_pure _
  · intro k _ m
    rw [innerLoop_eq, bind_assoc]
    congr 1
    funext m
    rw [ok_bind]
    dsimp only
    rw [secondLoop_eq, ok_bind]
    dsimp only
    have hsame := @rowsAt_add κ buffer width (rowAdvance width * k + 2 * rowLength width)
      (rowLength width * k + rowLength width) (width * 2) 0
    rw [Ptr.add_nat_zero, rowAdvance_succ, Nat.add_zero] at hsame
    rw [hsame]
    rfl

end Rounds

/-! ## The averages -/

/-- The weighted average of the block at the place `b` of a plane. -/
def weightedAt (m : Bytes κ) (buffer : Ptr κ) (width b : ℕ) : UInt8 :=
  weighted (m.byte (buffer + b)) (m.byte (buffer + (b + 1))) (m.byte (buffer + (width + b)))
    (m.byte (buffer + (width + (b + 1))))

/-- The average of every block of two by two is at its place. -/
def Averaged (buffer : Ptr κ) (width height : ℕ) (m m' : Bytes κ) : Prop :=
  ∀ i < height / 2, ∀ j < width / 2,
    m'.byte (buffer + (i * (width / 2) + j)) = weightedAt m buffer width (2 * i * width + 2 * j)

/-- How many bytes are needed for all blocks that are read. -/
def bytesRead (width height : ℕ) : ℕ :=
  rowAdvance width * ((height + 3) / 4 - 1) + 2 * rowLength width + width

section Result

variable [DecidableEq κ] {buffer : Ptr κ} {width height size : ℕ} {m m' : Bytes κ}

theorem rowLength_pos (h : 0 < width) : 0 < rowLength width := by
  rw [rowLength]
  omega

/-- All blocks are there. -/
theorem allSteps_ok_iff (hroom : ∀ i : ℕ, m.room (buffer + i) = true ↔ i < size) (hwidth : 0 < width)
    (hheight : 0 < height) :
    (∃ m', runAll (allSteps buffer width height) m = .ok m') ↔ bytesRead width height ≤ size := by
  have hpos := rowLength_pos hwidth
  rw [runAll_ok_iff]
  constructor
  · intro h
    -- the last block that is read
    have hlast := (h _ (mem_allSteps.mpr ⟨(height + 3) / 4 - 1, by omega, rowLength width - 1, by omega, rfl⟩)).1
      (buffer + (width + (rowAdvance width * ((height + 3) / 4 - 1) + 2 * (rowLength width - 1) + 1)))
      (by rw [blockStep]; exact List.mem_cons_of_mem _ (List.mem_cons_of_mem _ (List.mem_cons_of_mem _
        (List.mem_singleton_self _))))
    have hlt := (hroom _).mp hlast
    rw [bytesRead]
    omega
  · intro h t ht
    obtain ⟨k, hk, c, hc, rfl⟩ := mem_allSteps.mp ht
    have hrow := Nat.mul_le_mul_left (rowAdvance width) (show k ≤ (height + 3) / 4 - 1 by omega)
    have hread : ∀ i ≤ width + (rowAdvance width * k + 2 * c + 1), m.room (buffer + i) = true := by
      intro i hi
      rw [hroom]
      rw [bytesRead] at h
      omega
    have hwrite : rowLength width * k + c ≤ rowAdvance width * k + 2 * c := by
      have hle := rowLength_mul_le width k
      omega
    refine ⟨fun i hi => ?_, fun w hw => ?_⟩
    · rw [blockStep] at hi
      rcases List.mem_cons.mp hi with rfl | hi
      · exact hread _ (by omega)
      rcases List.mem_cons.mp hi with rfl | hi
      · exact hread _ (by omega)
      rcases List.mem_pair.mp hi with rfl | rfl
      · exact hread _ (by omega)
      · exact hread _ (by omega)
    · rw [List.mem_singleton.mp hw]
      exact hread _ (by omega)

/-- Every place of the result has the average of the block that it is computed from. -/
theorem ss444To420jpeg_result (h : runAll (allSteps buffer width height) m = .ok m') {n : ℕ}
    (hn : n < rowLength width * ((height + 3) / 4)) :
    m'.byte (buffer + n) = weightedAt m buffer width (blockAt width n) := by
  have hpos : 0 < rowLength width := Nat.pos_of_mul_pos_right (Nat.zero_lt_of_lt hn)
  have hstep := runAll_inPlace h apart_allSteps _ (mem_allSteps.mpr ⟨n / rowLength width, Nat.div_lt_of_lt_mul hn,
    n % rowLength width, Nat.mod_lt n hpos, rfl⟩) _ (List.mem_singleton_self _)
  dsimp only at hstep
  rw [Nat.div_add_mod, Nat.mul_comm] at hstep
  exact hstep

/-- The places of the result are among those that are written. -/
theorem place_lt {i j : ℕ} (hi : i < height / 2) (hj : j < width / 2) :
    i * (width / 2) + j < rowLength width * ((height + 3) / 4) :=
  (plane_index_lt hi hj).trans_le (quarter_le_places width height)

end Result

/-- **The averages are right exactly if** all blocks that are read are there, and every block that is read in the place
of another one has the same average. -/
theorem averaged_iff [DecidableEq κ] {buffer : Ptr κ} {width height size : ℕ} {m : Bytes κ}
    (hroom : ∀ i : ℕ, m.room (buffer + i) = true ↔ i < size) :
    Ensures (ss444To420jpeg buffer width height m) (Averaged buffer width height m) ↔
      width = 0 ∨ height = 0 ∨ bytesRead width height ≤ size ∧
        ∀ i < height / 2, ∀ j < width / 2,
          weightedAt m buffer width (blockAt width (i * (width / 2) + j)) =
            weightedAt m buffer width (2 * i * width + 2 * j) := by
  rw [ss444To420jpeg_eq]
  by_cases hempty : width = 0 ∨ height = 0
  · rw [allSteps_of_empty hempty]
    constructor
    · exact fun _ => hempty.imp_right .inl
    · exact fun _ => ⟨m, rfl, fun i hi j hj => by omega⟩
  · obtain ⟨hw, hh⟩ := not_or.mp hempty
    have hok := allSteps_ok_iff hroom (Nat.pos_of_ne_zero hw) (Nat.pos_of_ne_zero hh)
    have hvalues : ∀ m', runAll (allSteps buffer width height) m = .ok m' → (Averaged buffer width height m m' ↔
        ∀ i < height / 2, ∀ j < width / 2, weightedAt m buffer width (blockAt width (i * (width / 2) + j)) =
          weightedAt m buffer width (2 * i * width + 2 * j)) := by
      intro m' hrun
      refine forall_congr' fun i => forall_congr' fun hi => forall_congr' fun j => forall_congr' fun hj => ?_
      rw [ss444To420jpeg_result hrun (place_lt hi hj)]
    constructor
    · rintro ⟨m', hrun, haveraged⟩
      exact .inr (.inr ⟨hok.mp ⟨m', hrun⟩, (hvalues m' hrun).mp haveraged⟩)
    · intro h
      obtain ⟨hsize, hsame⟩ := (h.resolve_left hw).resolve_left hh
      obtain ⟨m', hrun⟩ := hok.mpr hsize
      exact ⟨m', hrun, (hvalues m' hrun).mpr hsame⟩

/-- A buffer of 16 bytes. -/
def sixteen (byte : Ptr Bool → UInt8) : Bytes Bool := ⟨fun p => decide (0 ≤ p.off ∧ p.off < 16), byte⟩

theorem sixteen_room (byte : Ptr Bool → UInt8) (i : ℕ) : (sixteen byte).room ((⟨true, 0⟩ : Ptr Bool) + i) = true ↔ i < 16 := by
  rw [sixteen]
  simp

/-- Of one grey, all averages are right. -/
theorem averaged_grey :
    Ensures (ss444To420jpeg ⟨true, 0⟩ 4 4 (sixteen fun _ => 128)) (Averaged ⟨true, 0⟩ 4 4 (sixteen fun _ => 128)) :=
  (averaged_iff (sixteen_room _)).mpr (.inr (.inr ⟨by decide, fun _ _ _ _ => rfl⟩))

/-- The second row of the result is computed from the second and the third row of the plane. -/
theorem not_averaged : ¬ ∀ (width height size : ℕ) (buffer : Ptr Bool) (m : Bytes Bool), Even width → Even height →
    (∀ i : ℕ, m.room (buffer + i) = true ↔ i < size) → height * width ≤ size →
    Ensures (ss444To420jpeg buffer width height m) (Averaged buffer width height m) := by
  intro h
  obtain ⟨m', hrun, haveraged⟩ := h 4 4 16 ⟨true, 0⟩ (sixteen fun p => UInt8.ofInt p.off) (by decide) (by decide)
    (sixteen_room _) (by decide)
  rw [ss444To420jpeg_eq] at hrun
  have hresult := ss444To420jpeg_result hrun (show 2 < rowLength 4 * ((4 + 3) / 4) by decide)
  have hown := (haveraged 1 (by decide) 0 (by decide)).symm.trans hresult
  exact absurd hown (by decide)

end Veejay.Subsample
