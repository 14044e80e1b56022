import Veejay.Sample.Positions

/-!
# The frame that is played next

While a sample is played, `vj_perform_increase_sample_frame` moves the current frame by the speed of the
sample, and decides at the ends of the played range how the sample goes on.

* `Player` — the playing sample and the settings that the call reads;
* `veejaySetFrame`, `veejaySetSpeed` — `veejay/liblavplayvj.c`;
* `vjPerformIncreaseSampleFrame` — the call (`veejay/vj-perform.c`), while no sequence is active;
* `Playable` — a played range, and a speed that the setters let through;
* `increase_stays` — **any number of calls stays inside the sample.**
-/

namespace Veejay.Play

open CLib Veejay.Sample

/-- `RANDMODE_INACTIVE`, `RANDMODE_SAMPLE` -/
inductive RandMode where
  | inactive
  | sample
  deriving DecidableEq, Repr

/-- A player that plays a sample. -/
structure Player where
  sample : SampleInfo
  currentFrameNum : ℤ
  minFrameNum : ℤ
  maxFrameNum : ℤ
  currentPlaybackSpeed : ℤ
  direction : ℤ
  randMode : RandMode
  maxDelay : ℤ

/-- `(int) ((double) range * rand () / RAND_MAX)`: a number up to the range. -/
structure Rand where
  draw : ℤ → ℤ
  draw_nonneg : ∀ range, 0 ≤ range → 0 ≤ draw range
  draw_le : ∀ range, 0 ≤ range → draw range ≤ range

/-! ## The calls -/

/-- `veejay_set_frame`, in sample mode -/
def veejaySetFrame (info : Player) (framenum : ℤ) : Player :=
  let framenum := if framenum < info.minFrameNum then info.minFrameNum else framenum
  let framenum := if framenum > info.maxFrameNum then info.maxFrameNum else framenum
  let (start, last) := sampleGetShortInfo info.sample
  let framenum := if framenum < start then start else framenum
  let framenum := if framenum > last then last else framenum
  let sample := if framenum = start ∨ framenum = last then { info.sample with dups := 0 } else info.sample
  { info with sample := sample, currentFrameNum := framenum }

/-- `veejay_set_speed`, in sample mode -/
def veejaySetSpeed (info : Player) (speed : ℤ) : Player :=
  let speed := if speed > maxSpeed then maxSpeed else speed
  let speed := if speed < -maxSpeed then -maxSpeed else speed
  let len := sampleGetEndFrame info.sample - sampleGetStartFrame info.sample
  if speed < 0 ∧ -len > speed then info
  else if speed ≥ 0 ∧ len < speed then info
  else
    let (ret, sample) := sampleSetSpeed info.sample speed
    if ret ≠ -1 then { info with sample := sample, currentPlaybackSpeed := speed }
    else { info with sample := sample }

/-- `sample_loopcount` -/
def sampleLoopcount (sample : SampleInfo) : SampleInfo :=
  { sample with loopcount := if sample.loopcount + 1 > 1000000 then 0 else sample.loopcount + 1 }

/-- `sample_apply_loop_dec`, with the frame rate of the edit list -/
def sampleApplyLoopDec (sample : SampleInfo) : Exec SampleInfo :=
  match sample.editList with
  | some _ => .ok { sample with loopDec := sample.loopDec + 1 }
  | none => .error .nullPointer

/-- The loop count goes up. -/
def countLoop (info : Player) : Player := { info with sample := sampleLoopcount info.sample }

/-- A ping-pong sample turns: there is no sequence that goes on. -/
def turn (info : Player) (direction framenum speed : ℤ) : Exec Player := do
  let info := { info with direction := direction }
  let sample ← sampleApplyLoopDec info.sample
  let info := veejaySetFrame { info with sample := sample } framenum
  .ok (veejaySetSpeed info (-1 * speed))

/-- `vj_perform_rand_update`: whether the randomizer puts another sample on -/
def vjPerformRandUpdate (info : Player) : Bool × Player :=
  match info.randMode with
  | .inactive => (false, info)
  | .sample => (decide (info.maxDelay - 1 ≤ 0), { info with maxDelay := info.maxDelay - 1 })

/-- The forward branch of `vj_perform_increase_sample_frame` -/
def playForward (rand : Rand) (info : Player) (start last speed : ℤ) : Exec Player :=
  let info := if info.sample.looptype = 3
    then { info with currentFrameNum := start + rand.draw (last - start) } else info
  if info.currentFrameNum > last ∨ info.currentFrameNum < start then
    if info.sample.looptype = 2 then do
      let info ← turn (countLoop info) (-1) last speed
      .ok (countLoop info)
    else if info.sample.looptype = 1 then .ok (veejaySetFrame (countLoop info) start)
    else if info.sample.looptype = 3 then .ok (veejaySetFrame (countLoop info) start)
    else .ok (veejaySetSpeed (veejaySetFrame info last) 0)
  else .ok info

/-- The reverse branch of `vj_perform_increase_sample_frame` -/
def playReverse (rand : Rand) (info : Player) (start last speed : ℤ) : Exec Player :=
  let info := if info.sample.looptype = 3
    then { info with currentFrameNum := last - rand.draw (last - start) } else info
  if info.currentFrameNum < start ∨ info.currentFrameNum ≥ last then
    if info.sample.looptype = 2 then turn (countLoop info) 1 start speed
    else if info.sample.looptype = 1 then .ok (veejaySetFrame (countLoop info) last)
    else if info.sample.looptype = 3 then .ok (veejaySetFrame (countLoop info) last)
    else .ok (veejaySetSpeed (veejaySetFrame info start) 0)
  else .ok info

/-- The frame duplication: `cur_sfd`, if the call returns with it -/
def duplicate (sample : SampleInfo) (num : ℤ) : Bool × SampleInfo :=
  let curSfd := if num ≠ 0 then sample.dups + 1 else sample.dups
  if sample.dup > 0 then
    let curSfd := if curSfd ≥ sample.dup then 0 else curSfd
    (decide (curSfd ≠ 0), { sample with dups := curSfd })
  else (false, sample)

/-- `vj_perform_increase_sample_frame`, while no sequence is active: what it returns and whether the randomizer
puts another sample on, and the player. -/
def vjPerformIncreaseSampleFrame (rand : Rand) (info : Player) (num : ℤ) : Exec ((ℤ × Bool) × Player) := do
  let (start, last) := sampleGetShortInfo info.sample
  let speed := info.sample.speed
  let info := { info with currentPlaybackSpeed := speed }
  let (waits, sample) := duplicate info.sample num
  let info := { info with sample := sample }
  if waits = true then .ok ((1, false), info)
  else do
    let info := { info with currentFrameNum := info.currentFrameNum + num }
    if num = 0 then .ok ((1, false), info)
    else do
      let info ← if speed ≥ 0 then playForward rand info start last speed
        else playReverse rand info start last speed
      let info := { info with sample := (sampleSetResume info.sample info.currentFrameNum).2 }
      let (randomize, info) := vjPerformRandUpdate info
      .ok ((1, randomize), info)

/-! ## Inside the sample -/

/-- What the calls leave of a sample: its range, its edit list and its loop type. -/
structure SameSample (s t : SampleInfo) : Prop where
  range : sampleGetShortInfo t = sampleGetShortInfo s
  editList : t.editList = s.editList
  looptype : t.looptype = s.looptype

theorem SameSample.refl (s : SampleInfo) : SameSample s s := ⟨rfl, rfl, rfl⟩

theorem SameSample.trans {s t u : SampleInfo} (h : SameSample s t) (h' : SameSample t u) : SameSample s u :=
  ⟨h'.range.trans h.range, h'.editList.trans h.editList, h'.looptype.trans h.looptype⟩

/-- A player in a sample of a range, with a speed that the setters let through. -/
structure Playable (p : Player) : Prop where
  range : (sampleGetShortInfo p.sample).1 < (sampleGetShortInfo p.sample).2
  edl : ∃ el, p.sample.editList = some el
  speed : |p.sample.speed| ≤ maxSpeed
  start_le : (sampleGetShortInfo p.sample).1 ≤ p.currentFrameNum
  le_last : p.currentFrameNum ≤ (sampleGetShortInfo p.sample).2

/-- What a call keeps. -/
structure Continues (p q : Player) : Prop where
  same : SameSample p.sample q.sample
  playable : Playable q
  speed : p.sample.looptype ∈ ({1, 2, 3} : Set ℤ) → |q.sample.speed| = |p.sample.speed|

section Calls

variable {p : Player}

theorem veejaySetFrame_stays (h : (sampleGetShortInfo p.sample).1 < (sampleGetShortInfo p.sample).2)
    (framenum : ℤ) :
    SameSample p.sample (veejaySetFrame p framenum).sample ∧
      (veejaySetFrame p framenum).sample.speed = p.sample.speed ∧
      (sampleGetShortInfo p.sample).1 ≤ (veejaySetFrame p framenum).currentFrameNum ∧
      (veejaySetFrame p framenum).currentFrameNum ≤ (sampleGetShortInfo p.sample).2 := by
  rw [veejaySetFrame]
  refine ⟨?_, ?_, ?_, ?_⟩
  · dsimp only
    split_ifs <;> exact ⟨rfl, rfl, rfl⟩
  · dsimp only
    split_ifs <;> rfl
  · dsimp only
    split_ifs <;> omega
  · dsimp only
    split_ifs <;> omega

/-- The speed of a sample stays, or becomes the one that is set. -/
theorem veejaySetSpeed_stays {speed : ℤ} (h : |speed| ≤ maxSpeed) :
    SameSample p.sample (veejaySetSpeed p speed).sample ∧
      ((veejaySetSpeed p speed).sample.speed = p.sample.speed ∨ (veejaySetSpeed p speed).sample.speed = speed) ∧
      (veejaySetSpeed p speed).currentFrameNum = p.currentFrameNum := by
  obtain ⟨hlow, hhigh⟩ := abs_le.mp h
  have hmax : (if speed > maxSpeed then maxSpeed else speed) = speed := if_neg (by omega)
  have hmin : (if speed < -maxSpeed then -maxSpeed else speed) = speed := if_neg (by omega)
  rw [veejaySetSpeed]
  simp only [hmax, hmin, sampleSetSpeed]
  split_ifs <;> first
    | exact ⟨⟨rfl, rfl, rfl⟩, Or.inl rfl, rfl⟩
    | exact ⟨⟨rfl, rfl, rfl⟩, Or.inr rfl, rfl⟩

theorem countLoop_same (p : Player) : SameSample p.sample (countLoop p).sample := ⟨rfl, rfl, rfl⟩

/-- A ping-pong sample turns, inside its range and with the speed it had. -/
theorem turn_stays (hrange : (sampleGetShortInfo p.sample).1 < (sampleGetShortInfo p.sample).2)
    (hedl : ∃ el, p.sample.editList = some el) (hspeed : |p.sample.speed| ≤ maxSpeed)
    (direction framenum : ℤ) :
    Ensures (turn p direction framenum p.sample.speed) fun q => SameSample p.sample q.sample ∧
      |q.sample.speed| = |p.sample.speed| ∧
      (sampleGetShortInfo p.sample).1 ≤ q.currentFrameNum ∧
      q.currentFrameNum ≤ (sampleGetShortInfo p.sample).2 := by
  obtain ⟨el, hel⟩ := hedl
  have hdec : sampleApplyLoopDec p.sample = .ok { p.sample with loopDec := p.sample.loopDec + 1 } := by
    rw [sampleApplyLoopDec]
    split
    · rfl
    · rename_i hnone
      cases hnone.symm.trans hel
  rw [turn]
  dsimp only
  rw [hdec, ok_bind, ensures_ok]
  obtain ⟨hsame, hkept, hlow, hhigh⟩ := @veejaySetFrame_stays
    { p with direction := direction, sample := { p.sample with loopDec := p.sample.loopDec + 1 } } hrange framenum
  generalize veejaySetFrame
    { p with direction := direction, sample := { p.sample with loopDec := p.sample.loopDec + 1 } } framenum = q at *
  obtain ⟨hsame', hspeed', hframe⟩ := @veejaySetSpeed_stays q (-1 * p.sample.speed) (by
    rw [neg_one_mul, abs_neg]
    exact hspeed)
  refine ⟨SameSample.trans ⟨hsame.range, hsame.editList, hsame.looptype⟩ hsame', ?_, ?_, ?_⟩
  · rcases hspeed' with h | h
    · rw [h, hkept]
    · rw [h, neg_one_mul, abs_neg]
  · rw [hframe]
    exact hlow
  · rw [hframe]
    exact hhigh

/-- What a branch leaves: the sample, its speed if it goes on playing, and a frame inside it. -/
def Stays (p q : Player) : Prop :=
  SameSample p.sample q.sample ∧ |q.sample.speed| ≤ maxSpeed ∧
    (p.sample.looptype ∈ ({1, 2, 3} : Set ℤ) → |q.sample.speed| = |p.sample.speed|) ∧
    (sampleGetShortInfo p.sample).1 ≤ q.currentFrameNum ∧ q.currentFrameNum ≤ (sampleGetShortInfo p.sample).2

/-- A frame of the sample is put on. -/
theorem stays_setFrame (hrange : (sampleGetShortInfo p.sample).1 < (sampleGetShortInfo p.sample).2)
    (hspeed : |p.sample.speed| ≤ maxSpeed) (framenum : ℤ) : Stays p (veejaySetFrame (countLoop p) framenum) := by
  obtain ⟨hsame, hkept, hlow, hhigh⟩ := @veejaySetFrame_stays (countLoop p) hrange framenum
  have hsame' := (countLoop_same p).trans hsame
  refine ⟨hsame', ?_, fun _ => ?_, hlow, hhigh⟩
  · rw [hkept]
    exact hspeed
  · rw [hkept]
    rfl

/-- A sample that does not loop stops at its end. -/
theorem stays_stop (hrange : (sampleGetShortInfo p.sample).1 < (sampleGetShortInfo p.sample).2)
    (hspeed : |p.sample.speed| ≤ maxSpeed) (hloop : p.sample.looptype ∉ ({1, 2, 3} : Set ℤ)) (framenum : ℤ) :
    Stays p (veejaySetSpeed (veejaySetFrame p framenum) 0) := by
  obtain ⟨hsame, hkept, hlow, hhigh⟩ := @veejaySetFrame_stays p hrange framenum
  obtain ⟨hsame', hspeed', hframe⟩ := @veejaySetSpeed_stays (veejaySetFrame p framenum) 0 (by decide)
  refine ⟨hsame.trans hsame', ?_, fun h => absurd h hloop, by rw [hframe]; exact hlow, by rw [hframe]; exact hhigh⟩
  rcases hspeed' with h | h
  · rw [h, hkept]
    exact hspeed
  · rw [h]
    decide

/-- The turn of a ping-pong sample, with the loop counts around it. -/
theorem stays_turn (hrange : (sampleGetShortInfo p.sample).1 < (sampleGetShortInfo p.sample).2)
    (hedl : ∃ el, p.sample.editList = some el) (hspeed : |p.sample.speed| ≤ maxSpeed)
    (direction framenum : ℤ) :
    Ensures (turn (countLoop p) direction framenum p.sample.speed) (Stays p) := by
  refine (@turn_stays (countLoop p) hrange hedl hspeed direction framenum).mono fun q hq => ?_
  obtain ⟨hsame, habs, hlow, hhigh⟩ := hq
  have habs' : |q.sample.speed| = |p.sample.speed| := habs
  exact ⟨(countLoop_same p).trans hsame, habs'.trans_le hspeed, fun _ => habs', hlow, hhigh⟩

theorem Stays.countLoop {q : Player} (h : Stays p q) : Stays p (countLoop q) := by
  obtain ⟨hsame, hspeed, habs, hlow, hhigh⟩ := h
  exact ⟨hsame.trans (countLoop_same q), hspeed, habs, hlow, hhigh⟩

theorem mem_loops_iff (n : ℤ) : n ∈ ({1, 2, 3} : Set ℤ) ↔ n = 1 ∨ n = 2 ∨ n = 3 := Iff.rfl

/-- A frame inside the sample is left as it is. -/
theorem stays_self (hspeed : |p.sample.speed| ≤ maxSpeed) (frame : ℤ)
    (hlow : (sampleGetShortInfo p.sample).1 ≤ frame) (hhigh : frame ≤ (sampleGetShortInfo p.sample).2) :
    Stays p { p with currentFrameNum := frame } :=
  ⟨SameSample.refl _, hspeed, fun _ => rfl, hlow, hhigh⟩

theorem stays_of_frame {frame : ℤ} {q : Player} (h : Stays { p with currentFrameNum := frame } q) : Stays p q := h

theorem playForward_stays (rand : Rand)
    (hrange : (sampleGetShortInfo p.sample).1 < (sampleGetShortInfo p.sample).2)
    (hedl : ∃ el, p.sample.editList = some el) (hspeed : |p.sample.speed| ≤ maxSpeed) :
    Ensures (playForward rand p (sampleGetShortInfo p.sample).1 (sampleGetShortInfo p.sample).2 p.sample.speed)
      (Stays p) := by
  rw [playForward]
  by_cases hthree : p.sample.looptype = 3
  · -- a random frame is inside the sample
    have hnonneg := rand.draw_nonneg ((sampleGetShortInfo p.sample).2 - (sampleGetShortInfo p.sample).1) (by omega)
    have hle := rand.draw_le ((sampleGetShortInfo p.sample).2 - (sampleGetShortInfo p.sample).1) (by omega)
    rw [if_pos hthree]
    dsimp only
    rw [if_neg (by omega), ensures_ok]
    exact stays_self hspeed _ (by omega) (by omega)
  · rw [if_neg hthree]
    split_ifs with hout htwo hone
    · exact (ensures_bind _ _ _).mpr ((stays_turn hrange hedl hspeed (-1) _).mono fun q hq =>
        (ensures_ok _ _).mpr hq.countLoop)
    · exact (ensures_ok _ _).mpr (stays_setFrame hrange hspeed _)
    · refine (ensures_ok _ _).mpr (stays_stop hrange hspeed ?_ _)
      rw [mem_loops_iff]
      omega
    · exact (ensures_ok _ _).mpr (stays_self hspeed _ (by omega) (by omega))

theorem playReverse_stays (rand : Rand)
    (hrange : (sampleGetShortInfo p.sample).1 < (sampleGetShortInfo p.sample).2)
    (hedl : ∃ el, p.sample.editList = some el) (hspeed : |p.sample.speed| ≤ maxSpeed) :
    Ensures (playReverse rand p (sampleGetShortInfo p.sample).1 (sampleGetShortInfo p.sample).2 p.sample.speed)
      (Stays p) := by
  rw [playReverse]
  by_cases hthree : p.sample.looptype = 3
  · have hnonneg := rand.draw_nonneg ((sampleGetShortInfo p.sample).2 - (sampleGetShortInfo p.sample).1) (by omega)
    have hle := rand.draw_le ((sampleGetShortInfo p.sample).2 - (sampleGetShortInfo p.sample).1) (by omega)
    rw [if_pos hthree]
    dsimp only
    rw [if_neg (show ¬ p.sample.looptype = 2 by omega), if_neg (show ¬ p.sample.looptype = 1 by omega),
      if_pos hthree]
    split_ifs with hout
    · exact (ensures_ok _ _).mpr (stays_of_frame (stays_setFrame hrange hspeed _))
    · exact (ensures_ok _ _).mpr (stays_self hspeed _ (by omega) (by omega))
  · rw [if_neg hthree]
    split_ifs with hout htwo hone
    · exact stays_turn hrange hedl hspeed 1 _
    · exact (ensures_ok _ _).mpr (stays_setFrame hrange hspeed _)
    · refine (ensures_ok _ _).mpr (stays_stop hrange hspeed ?_ _)
      rw [mem_loops_iff]
      omega
    · exact (ensures_ok _ _).mpr (stays_self hspeed _ (by omega) (by omega))

theorem duplicate_same (sample : SampleInfo) (num : ℤ) :
    SameSample sample (duplicate sample num).2 ∧ (duplicate sample num).2.speed = sample.speed := by
  rw [duplicate]
  split_ifs <;> exact ⟨⟨rfl, rfl, rfl⟩, rfl⟩

theorem vjPerformRandUpdate_sample (p : Player) :
    (vjPerformRandUpdate p).2.sample = p.sample ∧
      (vjPerformRandUpdate p).2.currentFrameNum = p.currentFrameNum := by
  rw [vjPerformRandUpdate]
  cases p.randMode <;> exact ⟨rfl, rfl⟩

/-- A branch after a part of the call that only touched the sample's duplication. -/
theorem Stays.of_same {q r : Player} (hsame : SameSample p.sample q.sample)
    (hspeed : q.sample.speed = p.sample.speed) (h : Stays q r) : Stays p r := by
  obtain ⟨hsame', hmax, habs, hlow, hhigh⟩ := h
  rw [hsame.range] at hlow hhigh
  refine ⟨hsame.trans hsame', hmax, fun hloop => ?_, hlow, hhigh⟩
  rw [← hspeed]
  exact habs (hsame.looptype.symm ▸ hloop)

/-- The position is kept to resume from, and the randomizer counts. -/
theorem Stays.resume {q : Player} (h : Stays p q) :
    Stays p (vjPerformRandUpdate { q with sample := (sampleSetResume q.sample q.currentFrameNum).2 }).2 := by
  obtain ⟨hsame, hmax, habs, hlow, hhigh⟩ := h
  obtain ⟨hsample, hframe⟩ := vjPerformRandUpdate_sample
    { q with sample := (sampleSetResume q.sample q.currentFrameNum).2 }
  rw [Stays, hsample, hframe]
  exact ⟨⟨hsame.range, hsame.editList, hsame.looptype⟩, hmax, habs, hlow, hhigh⟩

/-- What the parts of a call keep is enough for the next one. -/
theorem Stays.continues {q : Player} (hrange : (sampleGetShortInfo p.sample).1 < (sampleGetShortInfo p.sample).2)
    (hedl : ∃ el, p.sample.editList = some el) (h : Stays p q) : Continues p q := by
  obtain ⟨hsame, hmax, habs, hlow, hhigh⟩ := h
  rw [← hsame.range] at hrange hlow hhigh
  rw [← hsame.editList] at hedl
  exact ⟨hsame, ⟨hrange, hedl, hmax, hlow, hhigh⟩, habs⟩

/-- **One call** stays inside the sample. -/
theorem increase_continues (rand : Rand) (num : ℤ) (h : Playable p) :
    Ensures (vjPerformIncreaseSampleFrame rand p num) fun a => Continues p a.2 := by
  obtain ⟨hrange, hedl, hspeed, hlow, hhigh⟩ := h
  obtain ⟨hdup, hdupSpeed⟩ := duplicate_same p.sample num
  have hmax : |(duplicate p.sample num).2.speed| ≤ maxSpeed := by
    rw [hdupSpeed]
    exact hspeed
  have hunmoved : ∀ frame, frame = p.currentFrameNum → ∀ q : Player, q.sample = (duplicate p.sample num).2 →
      q.currentFrameNum = frame → Stays p q := by
    intro frame hframe q hsample hq
    rw [Stays, hsample, hq, hframe]
    exact ⟨hdup, hmax, fun _ => by rw [hdupSpeed], hlow, hhigh⟩
  -- the player that the branches see
  obtain ⟨q, hq⟩ : ∃ q, q = Player.mk (duplicate p.sample num).2 (p.currentFrameNum + num) p.minFrameNum
      p.maxFrameNum p.sample.speed p.direction p.randMode p.maxDelay := ⟨_, rfl⟩
  have hsample : q.sample = (duplicate p.sample num).2 := by rw [hq]
  rw [← hsample] at hdup hdupSpeed hmax
  have hrange' : (sampleGetShortInfo q.sample).1 < (sampleGetShortInfo q.sample).2 := by
    rw [hdup.range]
    exact hrange
  have hedl' : ∃ el, q.sample.editList = some el := by
    rw [hdup.editList]
    exact hedl
  have hforward := fun rand => @playForward_stays q rand hrange' hedl' hmax
  have hreverse := fun rand => @playReverse_stays q rand hrange' hedl' hmax
  rw [hdup.range, hdupSpeed] at hforward hreverse
  rw [vjPerformIncreaseSampleFrame]
  dsimp only
  split_ifs with hwaits hzero hpos
  · refine (ensures_ok _ _).mpr (Stays.continues hrange hedl ?_)
    exact hunmoved p.currentFrameNum rfl _ rfl rfl
  · refine (ensures_ok _ _).mpr (Stays.continues hrange hedl ?_)
    exact hunmoved (p.currentFrameNum + num) (by omega) _ rfl rfl
  · rw [← hq, ensures_bind]
    refine (hforward rand).mono fun r hr => (ensures_ok _ _).mpr ?_
    exact (Stays.of_same hdup hdupSpeed hr).resume.continues hrange hedl
  · rw [← hq, ensures_bind]
    refine (hreverse rand).mono fun r hr => (ensures_ok _ _).mpr ?_
    exact (Stays.of_same hdup hdupSpeed hr).resume.continues hrange hedl

end Calls

/-- **Playback stays inside the sample.**  Any number of calls returns, each with the current frame inside the
played range, and the speed of a sample that loops, turns or plays at random changes its sign only. -/
theorem increase_stays {p : Player} (h : Playable p) (calls : List (Rand × ℤ)) :
    Ensures (runOps (fun q call => vjPerformIncreaseSampleFrame call.1 q call.2) p calls) fun a =>
      Continues p a.2 := by
  induction calls generalizing p with
  | nil => exact ⟨([], p), rfl, SameSample.refl _, h, fun _ => rfl⟩
  | cons call calls ih =>
    obtain ⟨⟨r, q⟩, hcall, hq⟩ := increase_continues call.1 call.2 h
    obtain ⟨⟨rs, t⟩, hrun, ht⟩ := ih hq.playable
    refine ⟨(r :: rs, t), ?_, hq.same.trans ht.same, ht.playable, fun hloop => ?_⟩
    · rw [runOps, hcall, ok_bind, hrun, ok_bind]
    · rw [ht.speed (hq.same.looptype.symm ▸ hloop), hq.speed hloop]

/-- Always the middle of the range. -/
def halfway : Rand where
  draw := fun range => range / 2
  draw_nonneg := fun range h => by omega
  draw_le := fun range h => by omega

/-- A ping-pong sample of frames 10 to 90 at its last frame. -/
def pingPong : Player :=
  ⟨{ middlePart with looptype := 2 }, 90, 0, 100, 1, 1, .inactive, 0⟩

theorem pingPong_stays :
    Ensures (runOps (fun q call => vjPerformIncreaseSampleFrame call.1 q call.2) pingPong
      [(halfway, 1), (halfway, -1), (halfway, -1)]) fun a => Continues pingPong a.2 :=
  increase_stays ⟨by decide, ⟨hundredFrames, rfl⟩, by decide, by decide, by decide⟩ _

end Veejay.Play
