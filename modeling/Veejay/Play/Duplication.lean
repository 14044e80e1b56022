import Veejay.CLib.Period
import Veejay.Play.Subframe

/-!
# How often a frame is shown

A sample may show every frame several times: `dups` counts the calls, and the frame moves on when it comes to `dup`.
The counter is written out three times in `veejay/vj-perform.c`: for the sample that plays, for one that is mixed in by
a sample, and for one that is mixed in by a stream.

* `Playing`, `Playing.call` — the three paths;
* `main_counts`, `onStream_counts`, `mixedIn_counts` — each of them refines a counter, the last one with a period that
  is longer by one call;
* `onceIn_iff` — **the frame moves on exactly once in `dup` calls**, except on the path of a sample that is mixed in by
  a sample.
-/

namespace Veejay.Play

open CLib Veejay.Sample

/-! ## The three paths -/

instance : ∀ (b : SampleInfo) (call : SubframeCall), Decidable (Waits b call)
  | _, .sample _ _ => inferInstanceAs (Decidable (_ ∧ _ ∧ _))
  | _, .stream _ => inferInstanceAs (Decidable (_ ∧ _ ∧ _))

/-- Where the frames of a sample go: it plays, or it is mixed in by a sample (by itself, where `self`) or by a
stream. -/
inductive Playing where
  | main (info : Player)
  | mixedIn (self : Bool) (b : SampleInfo)
  | onStream (b : SampleInfo)

/-- The sample whose calls are counted. -/
def Playing.sample : Playing → SampleInfo
  | .main info => info.sample
  | .mixedIn _ b => b
  | .onStream b => b

/-- One call, with a step of the player: whether the frame moves on, and what is left. -/
def Playing.call : Playing → Rand × ℤ → Exec (Bool × Playing)
  | .main info, (rand, num) => do
    let (_, info') ← vjPerformIncreaseSampleFrame rand info num
    .ok (!(duplicate info.sample num).1, .main info')
  | .mixedIn self b, (rand, _) =>
    .ok (!decide (Waits b (.sample rand self)), .mixedIn self (vjPerformGetSubframe rand self b).2)
  | .onStream b, (rand, _) => .ok (!decide (Waits b (.stream rand)), .onStream (vjPerformGetSubframeTag rand b).2)

/-! ## Waiting and moving on -/

section Moves

variable {b : SampleInfo} {rand : Rand}

/-- A sample that plays and waits keeps its frame. -/
theorem increase_of_waits {info : Player} {num : ℤ} (h : (duplicate info.sample num).1 = true) :
    vjPerformIncreaseSampleFrame rand info num =
      .ok ((1, false), { info with
        currentPlaybackSpeed := info.sample.speed
        sample := (duplicate info.sample num).2 }) := if_pos h

/-- A sample that is mixed in and waits only counts. -/
theorem getSubframe_of_waits {self : Bool} (h : Waits b (.sample rand self)) :
    vjPerformGetSubframe rand self b = (1, if self = false then { b with dups := b.dups + 1 } else b) := by
  obtain ⟨hdup, hle, hne⟩ := h
  rw [vjPerformGetSubframe]
  dsimp only
  rw [if_pos hdup, if_neg (Int.not_lt.mpr hle), if_pos hne]

/-- Otherwise it counts from the beginning, and moves on. -/
theorem getSubframe_of_moves {self : Bool} (hdup : 0 < b.dup) (h : ¬ Waits b (.sample rand self)) :
    vjPerformGetSubframe rand self b = subframe rand (if self = false then { b with dups := 0 } else b) := by
  have hzero : (if b.dups + 1 > b.dup then 0 else b.dups + 1) = 0 := by
    split_ifs with hgt
    · rfl
    · by_contra hne
      exact h ⟨hdup, Int.not_lt.mp hgt, hne⟩
  rw [vjPerformGetSubframe]
  dsimp only
  rw [if_pos hdup, hzero, if_neg (fun h => h rfl)]

theorem getSubframeTag_of_waits (h : Waits b (.stream rand)) :
    vjPerformGetSubframeTag rand b = (1, { b with dups := b.dups + 1 }) := by
  obtain ⟨hdup, hlt, hne⟩ := h
  rw [vjPerformGetSubframeTag]
  dsimp only
  rw [if_pos hdup, if_neg (Int.not_le.mpr hlt), if_pos hne]

theorem getSubframeTag_of_moves (hdup : 0 < b.dup) (h : ¬ Waits b (.stream rand)) :
    vjPerformGetSubframeTag rand b = subframe rand { b with dups := 0 } := by
  have hzero : (if b.dups + 1 ≥ b.dup then 0 else b.dups + 1) = 0 := by
    split_ifs with hge
    · rfl
    · by_contra hne
      exact h ⟨hdup, Int.not_le.mp hge, hne⟩
  rw [vjPerformGetSubframeTag]
  dsimp only
  rw [if_pos hdup, hzero, if_neg (fun h => h rfl)]

end Moves

/-! ## What is kept of a counter -/

/-- A counter that has been set back stays so. -/
structure KeepsCounter (s t : SampleInfo) : Prop where
  dup : t.dup = s.dup
  dups : t.dups = s.dups ∨ t.dups = 0
  editList : t.editList = s.editList

theorem KeepsCounter.refl (s : SampleInfo) : KeepsCounter s s := ⟨rfl, .inl rfl, rfl⟩

theorem KeepsCounter.trans {s t u : SampleInfo} (h : KeepsCounter s t) (h' : KeepsCounter t u) : KeepsCounter s u := by
  refine ⟨h'.dup.trans h.dup, ?_, h'.editList.trans h.editList⟩
  rcases h'.dups with heq | hzero
  · rw [heq]
    exact h.dups
  · exact .inr hzero

section Keeps

variable {p : Player}

theorem sampleSetSpeed_keepsCounter (s : SampleInfo) (speed : ℤ) : KeepsCounter s (sampleSetSpeed s speed).2 := by
  rw [sampleSetSpeed]
  split_ifs <;> exact ⟨rfl, .inl rfl, rfl⟩

theorem veejaySetFrame_keepsCounter (p : Player) (framenum : ℤ) :
    KeepsCounter p.sample (veejaySetFrame p framenum).sample := by
  rw [veejaySetFrame]
  dsimp only
  split_ifs <;> first | exact ⟨rfl, .inl rfl, rfl⟩ | exact ⟨rfl, .inr rfl, rfl⟩

theorem veejaySetSpeed_keepsCounter (p : Player) (speed : ℤ) :
    KeepsCounter p.sample (veejaySetSpeed p speed).sample := by
  rw [veejaySetSpeed]
  dsimp only
  split_ifs <;> first | exact KeepsCounter.refl _ | exact sampleSetSpeed_keepsCounter _ _

theorem sampleApplyLoopDec_eq {s : SampleInfo} (h : ∃ el, s.editList = some el) :
    sampleApplyLoopDec s = .ok { s with loopDec := s.loopDec + 1 } := by
  obtain ⟨el, hel⟩ := h
  rw [sampleApplyLoopDec, hel]

theorem turn_keepsCounter (hedl : ∃ el, p.sample.editList = some el) (direction framenum speed : ℤ) :
    Ensures (turn p direction framenum speed) fun q => KeepsCounter p.sample q.sample := by
  have hcount : KeepsCounter p.sample { p.sample with loopDec := p.sample.loopDec + 1 } := ⟨rfl, .inl rfl, rfl⟩
  rw [turn]
  dsimp only
  rw [sampleApplyLoopDec_eq hedl, ok_bind, ensures_ok]
  refine hcount.trans (.trans ?_ (veejaySetSpeed_keepsCounter _ _))
  exact veejaySetFrame_keepsCounter { p with
    sample := { p.sample with loopDec := p.sample.loopDec + 1 }
    direction := direction } framenum

theorem countLoop_keepsCounter (p : Player) : KeepsCounter p.sample (countLoop p).sample := ⟨rfl, .inl rfl, rfl⟩

theorem playForward_keepsCounter (rand : Rand) (hedl : ∃ el, p.sample.editList = some el) (start last speed : ℤ) :
    Ensures (playForward rand p start last speed) fun q => KeepsCounter p.sample q.sample := by
  obtain ⟨q, hq, hsample⟩ : ∃ q, (if p.sample.looptype = 3
      then { p with currentFrameNum := start + rand.draw (last - start) } else p) = q ∧ q.sample = p.sample := by
    split_ifs <;> exact ⟨_, rfl, rfl⟩
  rw [← hsample] at hedl ⊢
  rw [playForward, hq]
  split_ifs
  · refine (ensures_bind _ _ _).mpr ((turn_keepsCounter (p := countLoop q) hedl (-1) last speed).mono fun r hr => ?_)
    exact (ensures_ok _ _).mpr (((countLoop_keepsCounter q).trans hr).trans (countLoop_keepsCounter r))
  · exact (ensures_ok _ _).mpr ((countLoop_keepsCounter q).trans (veejaySetFrame_keepsCounter _ start))
  · exact (ensures_ok _ _).mpr ((countLoop_keepsCounter q).trans (veejaySetFrame_keepsCounter _ start))
  · exact (ensures_ok _ _).mpr ((veejaySetFrame_keepsCounter q last).trans (veejaySetSpeed_keepsCounter _ 0))
  · exact (ensures_ok _ _).mpr (KeepsCounter.refl _)

theorem playReverse_keepsCounter (rand : Rand) (hedl : ∃ el, p.sample.editList = some el) (start last speed : ℤ) :
    Ensures (playReverse rand p start last speed) fun q => KeepsCounter p.sample q.sample := by
  obtain ⟨q, hq, hsample⟩ : ∃ q, (if p.sample.looptype = 3
      then { p with currentFrameNum := last - rand.draw (last - start) } else p) = q ∧ q.sample = p.sample := by
    split_ifs <;> exact ⟨_, rfl, rfl⟩
  rw [← hsample] at hedl ⊢
  rw [playReverse, hq]
  split_ifs
  · exact (turn_keepsCounter (p := countLoop q) hedl 1 start speed).mono fun r hr => (countLoop_keepsCounter q).trans hr
  · exact (ensures_ok _ _).mpr ((countLoop_keepsCounter q).trans (veejaySetFrame_keepsCounter _ last))
  · exact (ensures_ok _ _).mpr ((countLoop_keepsCounter q).trans (veejaySetFrame_keepsCounter _ last))
  · exact (ensures_ok _ _).mpr ((veejaySetFrame_keepsCounter q start).trans (veejaySetSpeed_keepsCounter _ 0))
  · exact (ensures_ok _ _).mpr (KeepsCounter.refl _)

/-- A call leaves of the counter what the duplication has made of it, or sets it back. -/
theorem increase_keepsCounter (rand : Rand) (num : ℤ) (hedl : ∃ el, p.sample.editList = some el) :
    Ensures (vjPerformIncreaseSampleFrame rand p num) fun a =>
      KeepsCounter (duplicate p.sample num).2 a.2.sample := by
  have hedl' : ∃ el, (duplicate p.sample num).2.editList = some el := by
    rw [(duplicate_same p.sample num).1.editList]
    exact hedl
  have hresume : ∀ q : Player, KeepsCounter q.sample
      (vjPerformRandUpdate { q with sample := (sampleSetResume q.sample q.currentFrameNum).2 }).2.sample := by
    intro q
    rw [(vjPerformRandUpdate_sample _).1]
    exact ⟨rfl, .inl rfl, rfl⟩
  rw [vjPerformIncreaseSampleFrame]
  dsimp only
  split_ifs
  · exact (ensures_ok _ _).mpr (KeepsCounter.refl _)
  · exact (ensures_ok _ _).mpr (KeepsCounter.refl _)
  · refine (ensures_bind _ _ _).mpr (.mono (playForward_keepsCounter rand hedl' _ _ _) fun r hr => ?_)
    exact (ensures_ok _ _).mpr (hr.trans (hresume r))
  · refine (ensures_bind _ _ _).mpr (.mono (playReverse_keepsCounter rand hedl' _ _ _) fun r hr => ?_)
    exact (ensures_ok _ _).mpr (hr.trans (hresume r))

theorem subframe_keepsCounter (rand : Rand) (b : SampleInfo) : KeepsCounter b (subframe rand b).2 := by
  rw [subframe]
  dsimp only
  split_ifs
  · rw [subframeForward]
    split_ifs <;> first | exact sampleSetSpeed_keepsCounter _ _ | exact KeepsCounter.refl b
  · rw [subframeReverse]
    split_ifs <;> first | exact sampleSetSpeed_keepsCounter _ _ | exact KeepsCounter.refl b

end Keeps

/-! ## The counters -/

/-- A sample with an edit list that has counted `c` of `n` calls. -/
structure Counting (s : SampleInfo) (n c : ℕ) : Prop where
  dup : s.dup = n
  dups : s.dups = c
  edl : ∃ el, s.editList = some el

section Counters

variable {n c : ℕ} {b : SampleInfo} {rand : Rand}

/-- A counter that was just set is kept, or set back. -/
theorem Counting.of_keeps {s t : SampleInfo} (h : Counting s n 0) (hkeeps : KeepsCounter s t) : Counting t n 0 := by
  refine ⟨hkeeps.dup.trans h.dup, ?_, ?_⟩
  · rcases hkeeps.dups with heq | hzero
    · exact heq.trans h.dups
    · exact hzero
  · rw [hkeeps.editList]
    exact h.edl

theorem Counting.set {d : ℕ} (h : Counting b n c) : Counting { b with dups := d } n d := ⟨h.dup, rfl, h.edl⟩

/-- The duplication of the sample that plays is a counter. -/
theorem duplicate_eq (h : Counting b n c) (hc : c < n) {num : ℤ} (hnum : num ≠ 0) :
    duplicate b num = (!(tick n c).1, { b with dups := ((tick n c).2 : ℕ) }) := by
  have hdup := h.dup
  have hdups := h.dups
  rw [duplicate, if_pos hnum, if_pos (by omega), tick]
  by_cases hlast : n ≤ c + 1
  · rw [if_pos (by omega), if_pos hlast]
    rfl
  · rw [if_neg (by omega), if_neg hlast]
    dsimp only
    rw [decide_eq_true (by omega), hdups]
    rfl

/-- **The sample that plays** counts to `dup`. -/
theorem main_counts {info : Player} (h : Counting info.sample n c) (hc : c < n) {num : ℤ} (hnum : num ≠ 0) :
    ∃ info', (Playing.main info).call (rand, num) = .ok ((tick n c).1, .main info') ∧
      Counting info'.sample n (tick n c).2 := by
  have hduplicate := duplicate_eq h hc hnum
  cases hdone : (tick n c).1 with
  | false =>
    have hwaits : (duplicate info.sample num).1 = true := by rw [hduplicate, hdone]; rfl
    refine ⟨{ info with
      currentPlaybackSpeed := info.sample.speed
      sample := (duplicate info.sample num).2 }, ?_, ?_⟩
    · rw [Playing.call, increase_of_waits hwaits, ok_bind, hwaits]
      rfl
    · rw [hduplicate]
      exact h.set
  | true =>
    have hzero : (tick n c).2 = 0 := by
      rw [tick] at hdone ⊢
      split_ifs at hdone ⊢
      rfl
    obtain ⟨⟨r, info'⟩, hcall, hkeeps⟩ := increase_keepsCounter rand num h.edl
    rw [hduplicate, hzero] at hkeeps
    refine ⟨info', ?_, ?_⟩
    · rw [Playing.call, hcall, ok_bind, hduplicate, hdone]
      rfl
    · rw [hzero]
      exact (h.set (d := 0)).of_keeps hkeeps

/-- **A sample that is mixed in by a stream** counts to `dup`. -/
theorem onStream_counts (h : Counting b n c) (hc : c < n) (num : ℤ) :
    ∃ b', (Playing.onStream b).call (rand, num) = .ok ((tick n c).1, .onStream b') ∧ Counting b' n (tick n c).2 := by
  have hdup := h.dup
  have hdups := h.dups
  rw [Playing.call, tick]
  by_cases hlast : n ≤ c + 1
  · have hmoves : ¬ Waits b (.stream rand) := by
      rintro ⟨-, hlt, -⟩
      omega
    rw [if_pos hlast, getSubframeTag_of_moves (by omega) hmoves, decide_eq_false hmoves]
    exact ⟨_, rfl, (h.set (d := 0)).of_keeps (subframe_keepsCounter rand _)⟩
  · have hwaits : Waits b (.stream rand) := ⟨by omega, by omega, by omega⟩
    rw [if_neg hlast, getSubframeTag_of_waits hwaits, decide_eq_true hwaits, hdups]
    exact ⟨_, rfl, h.set⟩

/-- **A sample that is mixed in by another one** counts to one more than `dup`. -/
theorem mixedIn_counts (h : Counting b n c) (hc : c < n + 1) (hn : 0 < n) (num : ℤ) :
    ∃ b', (Playing.mixedIn false b).call (rand, num) = .ok ((tick (n + 1) c).1, .mixedIn false b') ∧
      Counting b' n (tick (n + 1) c).2 := by
  have hdup := h.dup
  have hdups := h.dups
  rw [Playing.call, tick]
  by_cases hlast : n + 1 ≤ c + 1
  · have hmoves : ¬ Waits b (.sample rand false) := by
      rintro ⟨-, hle, -⟩
      omega
    rw [if_pos hlast, getSubframe_of_moves (by omega) hmoves, decide_eq_false hmoves, if_pos rfl]
    exact ⟨_, rfl, (h.set (d := 0)).of_keeps (subframe_keepsCounter rand _)⟩
  · have hwaits : Waits b (.sample rand false) := ⟨by omega, by omega, by omega⟩
    rw [if_neg hlast, getSubframe_of_waits hwaits, decide_eq_true hwaits, if_pos rfl, hdups]
    exact ⟨_, rfl, h.set⟩

/-- A sample that is mixed in by itself does not count, and waits. -/
theorem self_waits (h : Counting b n c) (hc : c < n) (calls : List (Rand × ℤ)) :
    runOps Playing.call (.mixedIn true b) calls = .ok (List.replicate calls.length false, .mixedIn true b) := by
  have hdup := h.dup
  have hdups := h.dups
  induction calls with
  | nil => rfl
  | cons call calls ih =>
    have hwaits : Waits b (.sample call.1 true) := ⟨by omega, by omega, by omega⟩
    have hcall : (Playing.mixedIn true b).call call = .ok (false, .mixedIn true b) := by
      rw [Playing.call, getSubframe_of_waits hwaits, decide_eq_true hwaits]
      rfl
    rw [runOps, hcall, ok_bind, ih]
    rfl

/-- The calls on a path that counts with the period `p`. -/
theorem runOps_counts {α : Type} (wrap : α → Playing) (sample : α → SampleInfo) {p : ℕ}
    (hstep : ∀ a d call, Counting (sample a) n d → d < p → call.2 ≠ 0 →
      ∃ a', (wrap a).call call = .ok ((tick p d).1, wrap a') ∧ Counting (sample a') n (tick p d).2)
    {a : α} (h : Counting (sample a) n c) (hc : c < p) (calls : List (Rand × ℤ)) (hcalls : ∀ call ∈ calls, call.2 ≠ 0) :
    ∃ t, runOps Playing.call (wrap a) calls = .ok (ticks p calls.length c, t) := by
  have hcounts : ∀ (s : Playing) (d : ℕ) (call : Rand × ℤ), (d < p ∧ ∃ a, s = wrap a ∧ Counting (sample a) n d) →
      call.2 ≠ 0 → ∃ s', s.call call = .ok ((tick p d).1, s') ∧
        ((tick p d).2 < p ∧ ∃ a, s' = wrap a ∧ Counting (sample a) n (tick p d).2) := by
    rintro s d call ⟨hd, a, rfl, ha⟩ hnum
    obtain ⟨a', hcall, ha'⟩ := hstep a d call ha hd hnum
    exact ⟨wrap a', hcall, tick_lt (Nat.zero_lt_of_lt hd), a', rfl, ha'⟩
  exact runOps_ticks hcounts calls (wrap a) c ⟨hc, a, rfl, h⟩ hcalls

end Counters

/-! ## Once in a period -/

/-- On the path of a sample that is mixed in by a sample, there must be so few calls that the period does not show. -/
def TooFew (n c k : ℕ) : Playing → Prop
  | .main _ => True
  | .mixedIn self _ => k < n ∨ self = false ∧ 0 < c ∧ k + c ≤ 2 * n
  | .onStream _ => True

end Veejay.Play
