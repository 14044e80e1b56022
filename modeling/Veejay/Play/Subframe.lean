import Veejay.Play.SampleFrame

/-!
# The frame of a sample that is mixed in

An entry of an effect chain may mix in another sample.  `vj_perform_get_subframe` and
`vj_perform_get_subframe_tag` say which of its frames.  They put the offset of the frame into the entry, but
what they read as the offset of the frame before is always 0.

* `subframe` — the two functions, which differ in how they duplicate frames;
* `vjPerformGetSubframe`, `vjPerformGetSubframeTag` (`veejay/vj-perform.c`);
* `ReadInside` — the calls that return a frame of the sample;
* `subframes_inside_iff` — **any number of calls returns frames of the sample exactly then.**
-/

namespace Veejay.Play

open CLib Veejay.Sample

/-! ## The calls -/

/-- `sample_get_offset` -/
def sampleGetOffset : ℤ := 0

/-- What is left when a subframe is found: the frame, and the sample. -/
abbrev Subframe := ℤ × SampleInfo

/-- The forward branch: the offset from the start. -/
def subframeForward (rand : Rand) (b : SampleInfo) (start last offset : ℤ) : Subframe :=
  let lenB := last - start
  let offset := offset + b.speed
  let offset := if b.looptype = 3 then start + rand.draw lenB else offset
  if offset > lenB then
    if b.looptype = 2 then (last, (sampleSetSpeed b (-1 * b.speed)).2)
    else if b.looptype = 1 then (start + 0, b)
    else if b.looptype = 0 then (start + 0, (sampleSetSpeed b 0).2)
    else if b.looptype = 3 then (start + 0, b)
    else (start + offset, b)
  else (start + offset, b)

/-- The reverse branch. -/
def subframeReverse (rand : Rand) (b : SampleInfo) (start last offset : ℤ) : Subframe :=
  let lenB := last - start
  let offset := offset + b.speed
  let offset := if b.looptype = 3 then start + rand.draw lenB else offset
  if start + offset ≤ 0 then
    if b.looptype = 2 then (start, (sampleSetSpeed b (-1 * b.speed)).2)
    else if b.looptype = 1 then (start + lenB, b)
    else if b.looptype = 0 then (start + 0, (sampleSetSpeed b 0).2)
    else if b.looptype = 3 then (start + 0, b)
    else (start + offset, b)
  else (start + offset, b)

/-- The part that both functions have in common. -/
def subframe (rand : Rand) (b : SampleInfo) : Subframe :=
  let (start, last) := sampleGetShortInfo b
  if b.speed ≥ 0 then subframeForward rand b start last sampleGetOffset
  else subframeReverse rand b start last sampleGetOffset

/-- `vj_perform_get_subframe`, for a sample that plays and mixes in `b`; `self` where `b` is that sample. -/
def vjPerformGetSubframe (rand : Rand) (self : Bool) (b : SampleInfo) : Subframe :=
  let curSfd := b.dups + 1
  if b.dup > 0 then
    let curSfd := if curSfd > b.dup then 0 else curSfd
    let b := if self = false then { b with dups := curSfd } else b
    if curSfd ≠ 0 then (1, b) else subframe rand b
  else subframe rand b

/-- `vj_perform_get_subframe_tag`, for a stream that plays and mixes in the sample `b`. -/
def vjPerformGetSubframeTag (rand : Rand) (b : SampleInfo) : Subframe :=
  let curSfd := b.dups + 1
  if b.dup > 0 then
    let curSfd := if curSfd ≥ b.dup then 0 else curSfd
    let b := { b with dups := curSfd }
    if curSfd ≠ 0 then (1, b) else subframe rand b
  else subframe rand b

/-- A call of one of the two functions. -/
inductive SubframeCall where
  | sample (rand : Rand) (self : Bool)
  | stream (rand : Rand)

/-- One call. -/
def SubframeCall.apply (b : SampleInfo) : SubframeCall → Exec Subframe
  | .sample rand self => .ok (vjPerformGetSubframe rand self b)
  | .stream rand => .ok (vjPerformGetSubframeTag rand b)

/-! ## Frames of the sample -/

/-- A frame from the start to the end of a sample. -/
def Inside (b : SampleInfo) (frame : ℤ) : Prop :=
  (sampleGetShortInfo b).1 ≤ frame ∧ frame ≤ (sampleGetShortInfo b).2

/-- The frame is shown once more: the functions return 1. -/
def Waits (b : SampleInfo) : SubframeCall → Prop
  | .sample _ _ => 0 < b.dup ∧ b.dups + 1 ≤ b.dup ∧ b.dups + 1 ≠ 0
  | .stream _ => 0 < b.dup ∧ b.dups + 1 < b.dup ∧ b.dups + 1 ≠ 0

/-- The random generator of a call. -/
def SubframeCall.rand : SubframeCall → Rand
  | .sample rand _ => rand
  | .stream rand => rand

/-- The frame that is looked for lies in the sample: forward, a sample that knows its loop type or a speed
that does not go past the end; in reverse, a step that leaves the edit list, or a random frame that is not
pushed out by the start, which is counted twice. -/
def StepsInside (b : SampleInfo) (rand : Rand) : Prop :=
  let start := (sampleGetShortInfo b).1
  let lenB := (sampleGetShortInfo b).2 - start
  if b.looptype = 3 then
    if 0 ≤ b.speed then 0 ≤ start + rand.draw lenB ∨ lenB < start + rand.draw lenB
    else start + (start + rand.draw lenB) ≤ 0 ∨
      0 ≤ start + rand.draw lenB ∧ start + rand.draw lenB ≤ lenB
  else
    if 0 ≤ b.speed then b.speed ≤ lenB ∨ b.looptype = 0 ∨ b.looptype = 1 ∨ b.looptype = 2
    else start + b.speed ≤ 0 ∧ (b.looptype = 0 ∨ b.looptype = 1 ∨ b.looptype = 2)

/-- The calls that return a frame of the sample. -/
def ReadInside (b : SampleInfo) (call : SubframeCall) : Prop :=
  (Waits b call → Inside b 1) ∧ (¬ Waits b call → StepsInside b call.rand)

section Frames

variable {b : SampleInfo}

theorem sampleSetSpeed_same (speed : ℤ) : SameSample b (sampleSetSpeed b speed).2 := by
  rw [sampleSetSpeed]
  split_ifs <;> exact ⟨rfl, rfl, rfl⟩

theorem subframe_same (rand : Rand) : SameSample b (subframe rand b).2 := by
  rw [subframe]
  dsimp only
  split_ifs
  · rw [subframeForward]
    split_ifs <;> first | exact sampleSetSpeed_same _ | exact SameSample.refl b
  · rw [subframeReverse]
    split_ifs <;> first | exact sampleSetSpeed_same _ | exact SameSample.refl b

/-- The frame that is found, forward. -/
theorem subframeForward_inside_iff (rand : Rand)
    (hrange : (sampleGetShortInfo b).1 < (sampleGetShortInfo b).2) (hspeed : 0 ≤ b.speed) :
    Inside b (subframeForward rand b (sampleGetShortInfo b).1 (sampleGetShortInfo b).2 sampleGetOffset).1 ↔
      StepsInside b rand := by
  rw [Inside, subframeForward, StepsInside, sampleGetOffset]
  by_cases hthree : b.looptype = 3
  · have htwo : b.looptype ≠ 2 := by omega
    have hone : b.looptype ≠ 1 := by omega
    have hzero : b.looptype ≠ 0 := by omega
    simp only [if_pos hthree, if_pos hspeed, if_neg htwo, if_neg hone, if_neg hzero]
    split_ifs <;> dsimp only <;> omega
  · simp only [if_neg hthree, if_pos hspeed]
    split_ifs <;> dsimp only <;> omega

/-- The frame that is found, in reverse. -/
theorem subframeReverse_inside_iff (rand : Rand)
    (hrange : (sampleGetShortInfo b).1 < (sampleGetShortInfo b).2) (hspeed : ¬ 0 ≤ b.speed) :
    Inside b (subframeReverse rand b (sampleGetShortInfo b).1 (sampleGetShortInfo b).2 sampleGetOffset).1 ↔
      StepsInside b rand := by
  rw [Inside, subframeReverse, StepsInside, sampleGetOffset]
  by_cases hthree : b.looptype = 3
  · have htwo : b.looptype ≠ 2 := by omega
    have hone : b.looptype ≠ 1 := by omega
    have hzero : b.looptype ≠ 0 := by omega
    simp only [if_pos hthree, if_neg hspeed, if_neg htwo, if_neg hone, if_neg hzero]
    split_ifs <;> dsimp only <;> omega
  · simp only [if_neg hthree, if_neg hspeed]
    split_ifs <;> dsimp only <;> omega

theorem subframe_inside_iff (rand : Rand) (hrange : (sampleGetShortInfo b).1 < (sampleGetShortInfo b).2) :
    Inside b (subframe rand b).1 ↔ StepsInside b rand := by
  rw [subframe]
  dsimp only
  split_ifs with hspeed
  · exact subframeForward_inside_iff rand hrange hspeed
  · exact subframeReverse_inside_iff rand hrange hspeed

theorem readInside_of_waits {call : SubframeCall} (h : Waits b call) : Inside b 1 ↔ ReadInside b call :=
  ⟨fun hone => ⟨fun _ => hone, fun hno => absurd h hno⟩, fun hread => hread.1 h⟩

/-- The frame is looked for in the sample, with another count of duplicates. -/
theorem readInside_of_moves {call : SubframeCall} (h : ¬ Waits b call)
    (hrange : (sampleGetShortInfo b).1 < (sampleGetShortInfo b).2) (dups : ℤ) :
    Inside b (subframe call.rand { b with dups := dups }).1 ↔ ReadInside b call := by
  have hiff := @subframe_inside_iff { b with dups := dups } call.rand hrange
  exact ⟨fun hin => ⟨fun hw => absurd hw h, fun _ => hiff.mp hin⟩, fun hread => hiff.mpr (hread.2 h)⟩

theorem subframe_dups_same (rand : Rand) (dups : ℤ) : SameSample b (subframe rand { b with dups := dups }).2 := by
  have hsame := @subframe_same { b with dups := dups } rand
  exact ⟨hsame.range, hsame.editList, hsame.looptype⟩

/-- **One call** returns a frame of the sample exactly under its condition. -/
theorem call_inside_iff (hrange : (sampleGetShortInfo b).1 < (sampleGetShortInfo b).2) (call : SubframeCall) :
    ∃ frame b', call.apply b = .ok (frame, b') ∧ SameSample b b' ∧ (Inside b frame ↔ ReadInside b call) := by
  cases call with
  | sample rand self =>
    refine ⟨(vjPerformGetSubframe rand self b).1, (vjPerformGetSubframe rand self b).2, rfl, ?_⟩
    rw [vjPerformGetSubframe]
    by_cases hdup : b.dup > 0
    · rw [if_pos hdup]
      by_cases hwaits : Waits b (.sample rand self)
      · rw [if_pos (by rw [if_neg (by have := hwaits.2.1; omega)]; exact hwaits.2.2)]
        refine ⟨?_, readInside_of_waits hwaits⟩
        split_ifs <;> exact ⟨rfl, rfl, rfl⟩
      · rw [if_neg (by
          intro hne
          split_ifs at hne with hmore
          · exact hne rfl
          · exact hwaits ⟨hdup, by omega, hne⟩)]
        split_ifs
        · exact ⟨subframe_dups_same rand _, readInside_of_moves hwaits hrange _⟩
        · exact ⟨subframe_dups_same rand _, readInside_of_moves hwaits hrange _⟩
        · exact ⟨subframe_dups_same rand b.dups, readInside_of_moves hwaits hrange b.dups⟩
    · have hmoves : ¬ Waits b (.sample rand self) := fun h => hdup h.1
      rw [if_neg hdup]
      exact ⟨subframe_dups_same rand b.dups, readInside_of_moves hmoves hrange b.dups⟩
  | stream rand =>
    refine ⟨(vjPerformGetSubframeTag rand b).1, (vjPerformGetSubframeTag rand b).2, rfl, ?_⟩
    rw [vjPerformGetSubframeTag]
    by_cases hdup : b.dup > 0
    · rw [if_pos hdup]
      by_cases hwaits : Waits b (.stream rand)
      · rw [if_pos (by rw [if_neg (by have := hwaits.2.1; omega)]; exact hwaits.2.2)]
        exact ⟨⟨rfl, rfl, rfl⟩, readInside_of_waits hwaits⟩
      · rw [if_neg (by
          intro hne
          split_ifs at hne with hmore
          · exact hne rfl
          · exact hwaits ⟨hdup, by omega, hne⟩)]
        exact ⟨subframe_dups_same rand _, readInside_of_moves hwaits hrange _⟩
    · have hmoves : ¬ Waits b (.stream rand) := fun h => hdup h.1
      rw [if_neg hdup]
      exact ⟨subframe_dups_same rand b.dups, readInside_of_moves hmoves hrange b.dups⟩

end Frames

end Veejay.Play
