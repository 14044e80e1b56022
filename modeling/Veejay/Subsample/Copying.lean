import Veejay.CLib.Alike
import Veejay.Subsample.Average

/-!
# From 4:4:4 to 4:2:0 in place and into another plane

`ss_444_to_420jpeg_cp` computes the averages of `ss_444_to_420jpeg`, and writes them into a plane of its own
(`libsubsample/subsample.c`).  The performer uses it for planes that have two rows more than the picture
(`veejay/vj-perform.c`).

* `ss444To420jpegCp`, `frameLength` — the function, and the size of the performer's planes;
* `SamePlane` — the invariant: what is written is the same, and what is still to be read has not been overtaken;
* `averageBlock_alike`, `copy_alike` — what one average keeps, and what a run keeps;
* `ss444To420jpegCp_agrees` — **both compute the same plane**.
-/

namespace Veejay.Subsample

open CLib

variable {κ : Type} [DecidableEq κ]

/-! ## The function -/

/-- `ss_444_to_420jpeg_cp` -/
def ss444To420jpegCp (buffer dest : Ptr κ) (width height : ℕ) (m : Bytes κ) : Exec (Bytes κ) := do
  let (_, m) ← forUp 0 height 4 (fun _ s => do
    let (p, m) ← forUp 0 width 4 (fun _ (p, m) => do
      let m ← averageBlock p 0 0 m
      let m ← averageBlock p 1 2 m
      let m ← averageBlock p 2 4 m
      let m ← averageBlock p 3 6 m
      .ok ((p.1 + 8, p.2.1 + 8, p.2.2 + 4), m)) s
    let (p, m) ← forUp (4 * ((width + 3) / 4)) width 2 (fun _ (p, m) => do
      let m ← averageBlock p 0 0 m
      .ok ((p.1 + 2, p.2.1 + 2, p.2.2 + 1), m)) (p, m)
    .ok ((p.1 + width * 2, p.2.1 + width * 2, p.2.2), m)) ((buffer, buffer + width, dest), m)
  .ok m

/-- `RUP8` -/
def rup8 (num : ℕ) : ℕ := num + 8 - (num + 8 &&& 8)

/-- `frame_len`, the size of a plane of the performer. -/
def frameLength (w h : ℕ) : ℕ := rup8 (w * h + w + w)

theorem le_rup8 (num : ℕ) : num ≤ rup8 num := by
  have hbit : num + 8 &&& 8 ≤ 8 := Nat.and_le_right
  rw [rup8]
  omega

/-! ## One average -/

section Copies

variable {buffer dest : Ptr κ} {width height limit : ℕ} {room : Ptr κ → Bool}

/-- The two planes after `n` averages: they are the same up to there, and from there on the input is as it was. -/
structure SamePlane (buffer dest : Ptr κ) (limit : ℕ) (room : Ptr κ → Bool) (n : ℕ) (m m' : Bytes κ) : Prop where
  inRoom : m.room = room
  outRoom : m'.room = room
  unread : ∀ i : ℕ, n ≤ i → i < limit → m.byte (buffer + i) = m'.byte (buffer + i)
  written : ∀ i : ℕ, i < n → m.byte (buffer + i) = m'.byte (dest + i)

/-- The planes: the room of the first one has no holes, there is room in the second one, and they do not overlap. -/
structure CopyPlanes (buffer dest : Ptr κ) (limit places : ℕ) (room : Ptr κ → Bool) : Prop where
  below : ∀ i j : ℕ, i ≤ j → room (buffer + j) = true → room (buffer + i) = true
  inside : ∀ i : ℕ, i < places → room (dest + i) = true
  apart : ∀ i j : ℕ, i < limit → j < places → buffer + i ≠ dest + j

/-- The pointers at the block `b` and at the place `n` of the plane `out`. -/
def copyRowsAt (buffer out : Ptr κ) (width b n : ℕ) : Rows κ := (buffer + b, buffer + (width + b), out + n)

omit [DecidableEq κ] in
theorem copyRowsAt_add (out : Ptr κ) (b n i o : ℕ) :
    ((copyRowsAt buffer out width b n).1 + i, (copyRowsAt buffer out width b n).2.1 + i,
      (copyRowsAt buffer out width b n).2.2 + o) = copyRowsAt buffer out width (b + i) (n + o) := by
  rw [copyRowsAt, copyRowsAt]
  dsimp only
  rw [Ptr.add_nat_add, Ptr.add_nat_add, Ptr.add_nat_add, Nat.add_assoc]

/-- One average is written to both planes. -/
theorem SamePlane.write {places n : ℕ} {m m' : Bytes κ} (h : SamePlane buffer dest limit room n m m')
    (hplanes : CopyPlanes buffer dest limit places room) (hn : n < places) (hroom : room (buffer + n) = true) (v : UInt8) :
    Alike (SamePlane buffer dest limit room (n + 1)) (m.write (buffer + n) v) (m'.write (dest + n) v) := by
  rw [Memory.write_eq (by rw [h.inRoom]; exact hroom), Memory.write_eq (by rw [h.outRoom]; exact hplanes.inside n hn)]
  refine alike_ok ⟨h.inRoom, h.outRoom, fun i hi hlimit => ?_, fun i hi => ?_⟩
  · show Function.update m.byte (buffer + n) v (buffer + i) = Function.update m'.byte (dest + n) v (buffer + i)
    rw [Function.update_of_ne (fun heq => by have := Ptr.add_nat_inj.mp heq; omega),
      Function.update_of_ne (hplanes.apart i n hlimit hn)]
    exact h.unread i (by omega) hlimit
  · show Function.update m.byte (buffer + n) v (buffer + i) = Function.update m'.byte (dest + n) v (dest + i)
    rw [Function.update_apply, Function.update_apply, if_congr Ptr.add_nat_inj rfl rfl, if_congr Ptr.add_nat_inj rfl rfl]
    split_ifs with heq
    · rfl
    · exact h.written i (by omega)

/-- **One average**: it is computed from bytes that have not been overtaken. -/
theorem averageBlock_alike {places b n o i : ℕ} {m m' : Bytes κ} (h : SamePlane buffer dest limit room (n + o) m m')
    (hplanes : CopyPlanes buffer dest limit places room) (hn : n + o < places) (hbehind : n + o ≤ b + i)
    (hlimit : width + (b + (i + 1)) < limit) :
    Alike (SamePlane buffer dest limit room (n + o + 1)) (averageBlock (copyRowsAt buffer buffer width b n) o i m)
      (averageBlock (copyRowsAt buffer dest width b n) o i m') := by
  have hread : ∀ c : ℕ, n + o ≤ c → c < limit →
      Alike (fun u v => u = v ∧ m.room (buffer + c) = true) (m.read (buffer + c)) (m'.read (buffer + c)) :=
    fun c hc hlimit => read_alike (h.inRoom.trans h.outRoom.symm) fun _ => h.unread c hc hlimit
  rw [averageBlock, averageBlock, copyRowsAt, copyRowsAt]
  dsimp only
  rw [Ptr.add_nat_add, Ptr.add_nat_add, Ptr.add_nat_add, Ptr.add_nat_add, Ptr.add_nat_add, Ptr.add_nat_add]
  refine (hread (b + i) hbehind (by omega)).bind ?_
  rintro a _ ⟨rfl, hroom⟩
  refine (hread (b + (i + 1)) (by omega) (by omega)).bind ?_
  rintro u _ ⟨rfl, -⟩
  refine (hread (width + b + i) (by omega) (by omega)).bind ?_
  rintro c _ ⟨rfl, -⟩
  refine (hread (width + b + (i + 1)) (by omega) (by omega)).bind ?_
  rintro d _ ⟨rfl, -⟩
  refine h.write hplanes hn (hplanes.below _ _ hbehind ?_) _
  rw [← h.inRoom]
  exact hroom

/-! ## A run -/

/-- The pointers of both functions at the block `b` and the place `n`, and their planes. -/
def Running (buffer dest : Ptr κ) (width limit : ℕ) (room : Ptr κ → Bool) (b n : ℕ) (s t : Rows κ × Bytes κ) : Prop :=
  s.1 = copyRowsAt buffer buffer width b n ∧ t.1 = copyRowsAt buffer dest width b n ∧
    SamePlane buffer dest limit room n s.2 t.2

/-- The loop over four rows. -/
theorem innerLoop_alike {places b n : ℕ} {s t : Rows κ × Bytes κ} (h : Running buffer dest width limit room b n s t)
    (hplanes : CopyPlanes buffer dest limit places room) (hn : n + rowLength width ≤ places) (hbehind : n ≤ b)
    (hlimit : b + 2 * rowLength width + width ≤ limit) :
    Alike (Running buffer dest width limit room (b + 2 * rowLength width) (n + rowLength width))
      (forUp 0 width 4 (fun _ (s : Rows κ × Bytes κ) => match s with
        | (p, m) => do
          let m ← averageBlock p 0 0 m
          let m ← averageBlock p 1 2 m
          let m ← averageBlock p 2 4 m
          let m ← averageBlock p 3 6 m
          .ok ((p.1 + 8, p.2.1 + 8, p.2.2 + 4), m)) s)
      (forUp 0 width 4 (fun _ (s : Rows κ × Bytes κ) => match s with
        | (p, m) => do
          let m ← averageBlock p 0 0 m
          let m ← averageBlock p 1 2 m
          let m ← averageBlock p 2 4 m
          let m ← averageBlock p 3 6 m
          .ok ((p.1 + 8, p.2.1 + 8, p.2.2 + 4), m)) t) := by
  have hloop := @forUp_alike _ _ (fun k => Running buffer dest width limit room (b + 8 * k) (n + 4 * k)) 0 width 4
    ((width + 3) / 4) (by omega)
  have hend : b + 8 * ((width + 3) / 4) = b + 2 * rowLength width ∧ n + 4 * ((width + 3) / 4) = n + rowLength width := by
    rw [rowLength]
    omega
  rw [← hend.1, ← hend.2]
  refine hloop h ?_
  rintro k hk ⟨_, m⟩ ⟨_, m'⟩ ⟨rfl, rfl, hsame⟩
  rw [rowLength] at hn hlimit
  have hstep : ∀ (o : ℕ) (m m' : Bytes κ), o < 4 → SamePlane buffer dest limit room (n + 4 * k + o) m m' →
      Alike (SamePlane buffer dest limit room (n + 4 * k + o + 1))
        (averageBlock (copyRowsAt buffer buffer width (b + 8 * k) (n + 4 * k)) o (2 * o) m)
        (averageBlock (copyRowsAt buffer dest width (b + 8 * k) (n + 4 * k)) o (2 * o) m') :=
    fun o m m' ho hsame => averageBlock_alike hsame hplanes (by omega) (by omega) (by omega)
  refine (hstep 0 m m' (by decide) hsame).bind fun m m' hsame => ?_
  refine (hstep 1 m m' (by decide) hsame).bind fun m m' hsame => ?_
  refine (hstep 2 m m' (by decide) hsame).bind fun m m' hsame => ?_
  refine (hstep 3 m m' (by decide) hsame).bind fun m m' hsame => ?_
  exact alike_ok ⟨copyRowsAt_add buffer _ _ 8 4, copyRowsAt_add dest _ _ 8 4, hsame⟩

/-- **The two functions, in any memory.** -/
theorem copy_alike {m : Bytes κ} (hplanes : CopyPlanes buffer dest limit (rowLength width * ((height + 3) / 4)) m.room)
    (hlimit : ∀ k < (height + 3) / 4, rowAdvance width * k + 2 * rowLength width + width ≤ limit) :
    Alike (SamePlane buffer dest limit m.room (rowLength width * ((height + 3) / 4)))
      (ss444To420jpeg buffer width height m) (ss444To420jpegCp buffer dest width height m) := by
  have hloop := @forUp_alike _ _ (fun k => Running buffer dest width limit m.room (rowAdvance width * k)
    (rowLength width * k)) 0 height 4 ((height + 3) / 4) (by omega)
  have hstart : Running buffer dest width limit m.room (rowAdvance width * 0) (rowLength width * 0)
      ((buffer, buffer + width, buffer), m) ((buffer, buffer + width, dest), m) := by
    refine ⟨?_, ?_, rfl, rfl, fun i _ _ => rfl, fun i hi => ?_⟩
    · rw [copyRowsAt, Nat.mul_zero, Nat.mul_zero, Ptr.add_nat_zero, Nat.add_zero]
    · rw [copyRowsAt, Nat.mul_zero, Nat.mul_zero, Ptr.add_nat_zero, Ptr.add_nat_zero, Nat.add_zero]
    · rw [Nat.mul_zero] at hi
      exact absurd hi (Nat.not_lt_zero i)
  rw [ss444To420jpeg, ss444To420jpegCp]
  refine (hloop hstart ?_).bind ?_
  · intro k hk s t hrunning
    have hplaces : rowLength width * k + rowLength width ≤ rowLength width * ((height + 3) / 4) := by
      rw [← Nat.mul_succ]
      exact Nat.mul_le_mul_left _ hk
    refine (innerLoop_alike hrunning hplanes hplaces (rowLength_mul_le width k) (hlimit k hk)).bind ?_
    rintro ⟨_, m⟩ ⟨_, m'⟩ ⟨rfl, rfl, hsame⟩
    dsimp only
    rw [secondLoop_eq, secondLoop_eq, ok_bind, ok_bind]
    have hnext : ∀ out : Ptr κ, ((copyRowsAt buffer out width (rowAdvance width * k + 2 * rowLength width)
          (rowLength width * k + rowLength width)).1 + width * 2,
        (copyRowsAt buffer out width (rowAdvance width * k + 2 * rowLength width)
          (rowLength width * k + rowLength width)).2.1 + width * 2,
        (copyRowsAt buffer out width (rowAdvance width * k + 2 * rowLength width)
          (rowLength width * k + rowLength width)).2.2) =
        copyRowsAt buffer out width (rowAdvance width * (k + 1)) (rowLength width * (k + 1)) := by
      intro out
      have hadd := @copyRowsAt_add κ buffer width out (rowAdvance width * k + 2 * rowLength width)
        (rowLength width * k + rowLength width) (width * 2) 0
      rw [Ptr.add_nat_zero, rowAdvance_succ, Nat.add_zero] at hadd
      exact hadd
    exact alike_ok ⟨hnext buffer, hnext dest, hsame⟩
  · rintro ⟨_, m₁⟩ ⟨_, m₂⟩ ⟨-, -, hsame⟩
    exact alike_ok hsame

end Copies

/-! ## Planes of the performer -/

section Result

variable {buffer dest : Ptr κ} {width height size : ℕ} {m : Bytes κ}

theorem rowLength_of_dvd (hwidth : 4 ∣ width) : rowLength width = width := by
  rw [rowLength]
  omega

/-- What is read of four rows is inside of the plane of the performer. -/
theorem rows_le_frameLength (hwidth : 4 ∣ width) (hheight : Even height) {k : ℕ} (hk : k < (height + 3) / 4) :
    rowAdvance width * k + 2 * rowLength width + width ≤ frameLength width height := by
  have hlength := rowLength_of_dvd hwidth
  have hadvance : rowAdvance width = width * 4 := by
    rw [rowAdvance, hlength]
    omega
  have hrows : 4 * k + 3 ≤ height + 2 := by
    obtain ⟨r, rfl⟩ := hheight
    omega
  calc rowAdvance width * k + 2 * rowLength width + width = width * (4 * k + 3) := by
        rw [hadvance, hlength]
        ring
    _ ≤ width * (height + 2) := Nat.mul_le_mul_left width hrows
    _ = width * height + width + width := by ring
    _ ≤ frameLength width height := le_rup8 _

/-- All averages that are written are inside of the plane of the performer. -/
theorem places_le_frameLength (hwidth : 4 ∣ width) :
    rowLength width * ((height + 3) / 4) ≤ frameLength width height := by
  have hlength := rowLength_of_dvd hwidth
  calc rowLength width * ((height + 3) / 4) ≤ width * (height + 2) := by
        rw [hlength]
        exact Nat.mul_le_mul_left width (by omega)
    _ = width * height + width + width := by ring
    _ ≤ frameLength width height := le_rup8 _

/-- **Both compute the same plane.**  Whatever is behind the buffer, both functions return, with the same quarter-size
plane, or both stop alike; and with a plane of the performer they return. -/
theorem ss444To420jpegCp_agrees (hwidth : 4 ∣ width) (hheight : Even height)
    (hroom : ∀ i : ℕ, m.room (buffer + i) = true ↔ i < size)
    (hdest : ∀ i : ℕ, i < frameLength width height → m.room (dest + i) = true)
    (hapart : ∀ i j : ℕ, i < frameLength width height → j < frameLength width height → buffer + i ≠ dest + j) :
    Alike (fun m₁ m₂ => ∀ n < width / 2 * (height / 2), m₁.byte (buffer + n) = m₂.byte (dest + n))
        (ss444To420jpeg buffer width height m) (ss444To420jpegCp buffer dest width height m) ∧
      (frameLength width height ≤ size → ∃ m₁, ss444To420jpeg buffer width height m = .ok m₁) := by
  have hplaces : rowLength width * ((height + 3) / 4) ≤ frameLength width height := places_le_frameLength hwidth
  constructor
  · have hplanes : CopyPlanes buffer dest (frameLength width height) (rowLength width * ((height + 3) / 4)) m.room :=
      ⟨fun i j hij hj => (hroom i).mpr (hij.trans_lt ((hroom j).mp hj)), fun i hi => hdest i (by omega),
        fun i j hi hj => hapart i j hi (by omega)⟩
    refine (copy_alike hplanes fun k hk => rows_le_frameLength hwidth hheight hk).mono fun m₁ m₂ hsame n hn => ?_
    rw [Nat.mul_comm] at hn
    exact hsame.written n (hn.trans_le (quarter_le_places width height))
  · intro hsize
    rw [ss444To420jpeg_eq]
    by_cases hempty : width = 0 ∨ height = 0
    · rw [allSteps_of_empty hempty]
      exact ⟨m, rfl⟩
    · obtain ⟨hw, hh⟩ := not_or.mp hempty
      refine (allSteps_ok_iff hroom (Nat.pos_of_ne_zero hw) (Nat.pos_of_ne_zero hh)).mpr ?_
      have hlast := rows_le_frameLength hwidth hheight (show (height + 3) / 4 - 1 < (height + 3) / 4 by omega)
      rw [bytesRead]
      omega

end Result

/-- Two planes of a picture of four by four, with a ramp in them. -/
def ramps : Bytes Bool := ⟨fun p => decide (0 ≤ p.off ∧ p.off < 32), fun p => UInt8.ofInt (8 * p.off)⟩

theorem ramps_agree :
    ∃ m₁ m₂, ss444To420jpeg ⟨false, 0⟩ 4 4 ramps = .ok m₁ ∧ ss444To420jpegCp ⟨false, 0⟩ ⟨true, 0⟩ 4 4 ramps = .ok m₂ ∧
      m₁.byte ((⟨false, 0⟩ : Ptr Bool) + 3) = m₂.byte ((⟨true, 0⟩ : Ptr Bool) + 3) := by
  have hroom : ∀ (κ : Bool) (i : ℕ), ramps.room ((⟨κ, 0⟩ : Ptr Bool) + i) = true ↔ i < 32 := by
    intro κ i
    rw [ramps]
    simp
  have hlength : frameLength 4 4 = 32 := by decide
  obtain ⟨halike, hreturns⟩ := @ss444To420jpegCp_agrees Bool _ ⟨false, 0⟩ ⟨true, 0⟩ 4 4 32 ramps (by decide) (by decide)
    (hroom false) (fun i hi => (hroom true i).mpr (hlength ▸ hi)) fun i j _ _ heq => by cases congrArg Ptr.obj heq
  obtain ⟨m₁, h₁⟩ := hreturns (by decide)
  obtain ⟨m₂, h₂, hsame⟩ := halike.returns h₁
  exact ⟨m₁, m₂, h₁, h₂, hsame 3 (by decide)⟩

end Veejay.Subsample
