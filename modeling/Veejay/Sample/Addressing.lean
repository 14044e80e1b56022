import Veejay.Sample.Positions

/-!
# Which sample a command is for

The commands on samples take the id of a sample first: 0 is the one that is played, -1 the last one,
`sample_size () - 1`.  Each handler of `veejay/vj-event.c` finds the sample by itself.

* `Sample`, `State` — the samples by their ids, as `sample_get` finds them, and what is played;
* `vjEventSampleSetLoopType`, … — the handlers;
* `Addressed` — a command changes its sample only, and as it would if there were no other;
* `Fits` — the states in which it does;
* `addressed_iff` — **exactly there a command is for the sample that it names**;
* `allSamplesChainToggle_iff` — exactly when the toggle of all samples reaches them all.
-/

namespace Veejay.Addressing

open CLib Veejay.Sample

/-! ## Samples -/

/-- `SAMPLE_MAX_EFFECTS` -/
def sampleMaxEffects : ℕ := 20

/-- An entry of an effect chain, as far as it is mixed with another sample. -/
structure ChainEntry where
  channel : ℤ
  frameOffset : ℤ
  deriving DecidableEq

/-- A sample: its positions, and what else the commands change. -/
structure Sample where
  positions : SampleInfo
  maxLoops : ℤ
  effectToggle : ℤ
  selectedEntry : ℤ
  chain : Fin sampleMaxEffects → ChainEntry

/-- The samples that there are, `this_sample_id`, and the sample that is played, if one is. -/
structure State where
  samples : ℤ → Option Sample
  sampleSize : ℤ
  playing : ℤ
  samplePlaying : Bool

/-- Ids are positive and below `this_sample_id`, every sample has an edit list, and a sample is played. -/
structure State.Plays (st : State) : Prop where
  ids : ∀ id s, st.samples id = some s → 1 ≤ id ∧ id < st.sampleSize
  lists : ∀ id s, st.samples id = some s → s.positions.editList ≠ none
  played : st.samples st.playing ≠ none
  mode : st.samplePlaying = true

/-- A setter of `sampleadm.c` is called for a sample; it does nothing where there is none. -/
def State.modify (st : State) (id : ℤ) (f : Sample → Exec Sample) : Exec State :=
  match st.samples id with
  | none => .ok st
  | some s => do
    let s ← f s
    .ok { st with samples := Function.update st.samples id (some s) }

/-- `sample_exists` -/
def sampleExists (st : State) (id : ℤ) : Bool := id ≠ 0 && (st.samples id).isSome

/-! ## Getters and setters -/

/-- `sample_set_looptype` -/
def sampleSetLooptype (looptype : ℤ) (s : Sample) : Exec Sample :=
  if looptype = 3 ∨ looptype = 0 ∨ looptype = 1 ∨ looptype = 2 then
    .ok { s with positions := { s.positions with looptype := looptype } }
  else .ok s

/-- `sample_set_loops` -/
def sampleSetLoops (loops : ℤ) (s : Sample) : Exec Sample := .ok { s with maxLoops := loops }

/-- `sample_set_effect_status` -/
def sampleSetEffectStatus (status : ℤ) (s : Sample) : Exec Sample :=
  if status = 1 ∨ status = 0 then .ok { s with effectToggle := status } else .ok s

/-- `sample_set_speed`, `sample_set_startframe` and `sample_set_endframe`, for the sample that was found. -/
def onPositions (f : SampleInfo → Exec (ℤ × SampleInfo)) (s : Sample) : Exec Sample := do
  let (_, positions) ← f s.positions
  .ok { s with positions := positions }

/-- `sample_get_startFrame` -/
def startFrame (st : State) (id : ℤ) : ℤ := (st.samples id).elim (-1) fun s => sampleGetStartFrame s.positions

/-- `sample_get_endFrame` -/
def endFrame (st : State) (id : ℤ) : ℤ := (st.samples id).elim (-1) fun s => sampleGetEndFrame s.positions

/-- `sample_video_length`, of a sample. -/
def videoLength (s : SampleInfo) : ℤ :=
  if s.playLength ≠ 0 then s.playLength else s.editList.elim 0 PlayList.totalFrames

/-- `sample_video_length` -/
def sampleVideoLength (st : State) (id : ℤ) : ℤ := (st.samples id).elim 0 fun s => videoLength s.positions

/-- `sample_get_selected_entry` -/
def sampleGetSelectedEntry (st : State) (id : ℤ) : ℤ := (st.samples id).elim (-1) Sample.selectedEntry

/-- The channel of an entry of a sample; -1 is no entry. -/
def chainChannel (s : Sample) (position : ℤ) : ℤ :=
  if h : 0 ≤ position ∧ position.toNat < sampleMaxEffects then (s.chain ⟨position.toNat, h.2⟩).channel else -1

/-- `sample_get_chain_channel` -/
def sampleGetChainChannel (st : State) (id position : ℤ) : ℤ :=
  (st.samples id).elim (-1) fun s => chainChannel s position

/-- `sample_get_offset`; a position below 0 is not tested for. -/
def sampleGetOffset (st : State) (id position : ℤ) : Exec ℤ :=
  match st.samples id with
  | none => .ok (-1)
  | some s =>
    if position ≥ sampleMaxEffects then .ok (-1)
    else if h : 0 ≤ position ∧ position.toNat < sampleMaxEffects then
      .ok (s.chain ⟨position.toNat, h.2⟩).frameOffset
    else .error .outOfBounds

/-- `sample_set_offset`; the position is not tested. -/
def sampleSetOffset (position frameOffset : ℤ) (s : Sample) : Exec Sample :=
  if h : 0 ≤ position ∧ position.toNat < sampleMaxEffects then
    let entry := s.chain ⟨position.toNat, h.2⟩
    .ok { s with chain := Function.update s.chain ⟨position.toNat, h.2⟩ { entry with frameOffset := frameOffset } }
  else .error .overrun

/-! ## Handlers -/

/-- `vj_event_sample_set_loop_type` -/
def vjEventSampleSetLoopType (st : State) (a0 a1 : ℤ) : Exec State :=
  if st.samplePlaying = false then .ok st
  else
    let id := if a0 = 0 then st.playing else a0
    let id := if id = -1 then st.sampleSize - 1 else id
    if a1 = -1 then
      if sampleExists st id then
        st.modify id fun s => if s.positions.looptype = 2 then sampleSetLooptype 1 s else sampleSetLooptype 2 s
      else .ok st
    else if a1 ≥ 0 ∧ a1 ≤ 3 then
      if sampleExists st id then st.modify id (sampleSetLooptype a1) else .ok st
    else .ok st

/-- `vj_event_sample_set_speed` -/
def vjEventSampleSetSpeed (st : State) (a0 a1 : ℤ) : Exec State :=
  let id := if a0 = -1 then st.sampleSize - 1 else a0
  let id := if id = 0 then st.playing else id
  st.modify id (onPositions fun p => .ok (sampleSetSpeed p a1))

/-- `vj_event_sample_set_num_loops`; the sample that is played gets the loops. -/
def vjEventSampleSetNumLoops (st : State) (a0 a1 : ℤ) : Exec State :=
  let id := if a0 = 0 then st.playing else a0
  let id := if id = -1 then st.sampleSize - 1 else id
  if sampleExists st id then st.modify st.playing (sampleSetLoops a1) else .ok st

/-- `vj_event_sample_set_start` -/
def vjEventSampleSetStart (st : State) (a0 a1 : ℤ) : Exec State :=
  if st.samplePlaying = false then .ok st
  else
    let id := if a0 = 0 then st.playing else a0
    let id := if id = -1 then st.sampleSize - 1 else id
    if id ≤ 0 then .ok st
    else if a1 < endFrame st id then st.modify id (onPositions fun p => .ok (sampleSetStartframe p a1))
    else .ok st

/-- `vj_event_sample_set_end`; -1 is no sample here, and the end is compared with the start of the sample that is
played. -/
def vjEventSampleSetEnd (st : State) (a0 a1 : ℤ) : Exec State :=
  if st.samplePlaying = false then .ok st
  else
    let id := if a0 = 0 then st.playing else a0
    let last := if a1 = -1 then sampleVideoLength st id else a1
    if last ≤ 0 then .ok st
    else if last ≥ startFrame st st.playing then st.modify id (onPositions fun p => sampleSetEndframe p last)
    else .ok st

/-- `vj_event_sample_set_position`; the sample that the command names is not looked at, the position of the one that
is mixed in by the sample that is played is changed. -/
def vjEventSampleSetPosition (st : State) (_a0 a1 a2 : ℤ) : Exec State := do
  let entry := if a1 = -1 then sampleGetSelectedEntry st st.playing else a1
  let cha := sampleGetChainChannel st st.playing entry
  let pos ← sampleGetOffset st cha entry
  st.modify cha (sampleSetOffset entry (pos + a2))

/-- The loop of `vj_event_all_samples_chain_toggle`. -/
def toggleLoop (status : ℤ) : List ℤ → State → Exec State
  | [], st => .ok st
  | i :: is, st => do
    let st ← st.modify i (sampleSetEffectStatus status)
    toggleLoop status is st

/-- The ids that `for (i = 0; i < sample_size() - 1; i++)` visits. -/
def toggledIds (sampleSize : ℤ) : List ℤ := (List.range (sampleSize - 1).toNat).map fun k : ℕ => (k : ℤ)

/-- `vj_event_all_samples_chain_toggle`, as far as samples are concerned. -/
def vjEventAllSamplesChainToggle (st : State) (a0 : ℤ) : Exec State :=
  if st.samplePlaying then toggleLoop a0 (toggledIds st.sampleSize) st else .ok st

/-- The commands that name a sample, with their arguments. -/
inductive Command where
  | looptype (a0 a1 : ℤ)
  | speed (a0 a1 : ℤ)
  | loops (a0 a1 : ℤ)
  | start (a0 a1 : ℤ)
  | finish (a0 a1 : ℤ)
  | position (a0 a1 a2 : ℤ)

/-- The argument that names the sample. -/
def Command.target : Command → ℤ
  | .looptype a0 _ | .speed a0 _ | .loops a0 _ | .start a0 _ | .finish a0 _ | .position a0 _ _ => a0

/-- The command for the sample that is played. -/
def Command.forPlayed : Command → Command
  | .looptype _ a1 => .looptype 0 a1
  | .speed _ a1 => .speed 0 a1
  | .loops _ a1 => .loops 0 a1
  | .start _ a1 => .start 0 a1
  | .finish _ a1 => .finish 0 a1
  | .position _ a1 a2 => .position 0 a1 a2

/-- One command. -/
def Command.run (st : State) : Command → Exec State
  | .looptype a0 a1 => vjEventSampleSetLoopType st a0 a1
  | .speed a0 a1 => vjEventSampleSetSpeed st a0 a1
  | .loops a0 a1 => vjEventSampleSetNumLoops st a0 a1
  | .start a0 a1 => vjEventSampleSetStart st a0 a1
  | .finish a0 a1 => vjEventSampleSetEnd st a0 a1
  | .position a0 a1 a2 => vjEventSampleSetPosition st a0 a1 a2

/-! ## The sample that a command names -/

/-- The sample that an argument names: 0 is the one that is played, -1 the last one. -/
def denotes (st : State) (n : ℤ) : ℤ := if n = 0 then st.playing else if n = -1 then st.sampleSize - 1 else n

/-- The sample alone: there is no other, and it is played. -/
def State.only (st : State) (id : ℤ) : State :=
  { st with samples := fun k => if k = id then st.samples k else none, playing := id }

/-- A command changes the sample that it names only, and does with it what it does when the sample is alone and
played: nothing of another sample is looked at. -/
def Addressed (st : State) (c : Command) : Prop :=
  (∀ st', c.run st = .ok st' → ∀ k, k ≠ denotes st c.target → st'.samples k = st.samples k) ∧
    (State.samples · (denotes st c.target)) <$> c.run st =
      (State.samples · (denotes st c.target)) <$> c.forPlayed.run (st.only (denotes st c.target))

/-! ## Changing one sample -/

section Modify

variable {st : State} {id : ℤ}

/-- Only the sample that is found is changed. -/
theorem modify_other {f : Sample → Exec Sample} {st' : State} (h : st.modify id f = .ok st') {k : ℤ} (hk : k ≠ id) :
    st'.samples k = st.samples k := by
  unfold State.modify at h
  cases hs : st.samples id with
  | none =>
    rw [hs] at h
    obtain rfl := Except.ok.inj h
    rfl
  | some s =>
    rw [hs] at h
    dsimp only at h
    cases hf : f s with
    | error e =>
      rw [hf] at h
      cases h
    | ok s' =>
      rw [hf] at h
      obtain rfl := Except.ok.inj h
      exact Function.update_of_ne hk _ _

/-- What becomes of the sample. -/
theorem modify_self (f : Sample → Exec Sample) :
    (State.samples · id) <$> st.modify id f =
      match st.samples id with
      | none => .ok none
      | some s => some <$> f s := by
  unfold State.modify
  cases hs : st.samples id with
  | none => exact congrArg Except.ok hs
  | some s =>
    dsimp only
    cases hf : f s with
    | error e => rfl
    | ok s' => exact congrArg Except.ok (Function.update_self _ _ _)

/-- Nothing is changed where there is no sample. -/
theorem modify_none (hs : st.samples id = none) (f : Sample → Exec Sample) : st.modify id f = .ok st := by
  unfold State.modify
  rw [hs]

@[simp] theorem only_self : (st.only id).samples id = st.samples id := if_pos rfl

@[simp] theorem only_playing : (st.only id).playing = id := rfl

/-- A command that changes the sample it names, and looks at no other, is for it. -/
theorem addressed_of_modify {c : Command} (f : Sample → Exec Sample)
    (hrun : c.run st = st.modify (denotes st c.target) f)
    (halone : c.forPlayed.run (st.only (denotes st c.target))
      = (st.only (denotes st c.target)).modify (denotes st c.target) f) : Addressed st c := by
  constructor
  · intro st' h k hk
    rw [hrun] at h
    exact modify_other h hk
  · rw [hrun, halone, modify_self, modify_self, only_self]

/-- The setter that leaves the sample as it is. -/
theorem modify_ok : st.modify id Except.ok = .ok st := by
  unfold State.modify
  cases hs : st.samples id with
  | none => rfl
  | some s =>
    show Except.ok { st with samples := Function.update st.samples id (some s) } = _
    rw [← hs, Function.update_eq_self]

/-- Only what a setter does with the sample that is there counts. -/
theorem modify_congr {f g : Sample → Exec Sample} {s : Sample} (hs : st.samples id = some s) (h : f s = g s) :
    st.modify id f = st.modify id g := by
  unfold State.modify
  rw [hs]
  dsimp only
  rw [h]

theorem sampleExists_none (hs : st.samples id = none) : sampleExists st id = false := by
  unfold sampleExists
  rw [hs, Option.isSome_none, Bool.and_false]

theorem sampleExists_some {s : Sample} (hid : 1 ≤ id) (hs : st.samples id = some s) : sampleExists st id = true := by
  unfold sampleExists
  rw [hs, Option.isSome_some, Bool.and_true, decide_eq_true_eq]
  omega

/-- Without samples, no command does anything. -/
theorem run_empty (h : ∀ k, st.samples k = none) (c : Command) : c.run st = .ok st := by
  have hexists : ∀ k, sampleExists st k = false := fun k => sampleExists_none (h k)
  cases c with
  | looptype a0 a1 =>
    show vjEventSampleSetLoopType st a0 a1 = _
    unfold vjEventSampleSetLoopType
    simp only [hexists, Bool.false_eq_true, if_false, ite_self]
  | speed a0 a1 => exact modify_none (h _) _
  | loops a0 a1 =>
    show vjEventSampleSetNumLoops st a0 a1 = _
    unfold vjEventSampleSetNumLoops
    simp only [hexists, Bool.false_eq_true, if_false]
  | start a0 a1 =>
    show vjEventSampleSetStart st a0 a1 = _
    unfold vjEventSampleSetStart
    simp only [modify_none (h _), ite_self]
  | finish a0 a1 =>
    show vjEventSampleSetEnd st a0 a1 = _
    unfold vjEventSampleSetEnd
    simp only [modify_none (h _), ite_self]
  | position a0 a1 a2 =>
    show vjEventSampleSetPosition st a0 a1 a2 = _
    unfold vjEventSampleSetPosition sampleGetOffset
    simp only [h]
    exact modify_none (h _) _

/-- A command for a sample that there is not is for it exactly if it changes no other. -/
theorem addressed_none {c : Command} (hs : st.samples (denotes st c.target) = none) :
    Addressed st c ↔
      (∀ st', c.run st = .ok st' → ∀ k, k ≠ denotes st c.target → st'.samples k = st.samples k) ∧
        (State.samples · (denotes st c.target)) <$> c.run st = .ok none := by
  have hempty : ∀ k, (st.only (denotes st c.target)).samples k = none := by
    intro k
    show (if k = denotes st c.target then st.samples k else none) = none
    split_ifs with hk
    · rw [hk, hs]
    · rfl
  unfold Addressed
  rw [run_empty hempty]
  have hnone : (State.samples · (denotes st c.target)) <$> (Except.ok (st.only (denotes st c.target)) : Exec State)
      = .ok none := congrArg Except.ok (hempty _)
  rw [hnone]

/-- A command that does nothing is for a sample that there is not. -/
theorem addressed_nothing {c : Command} (hs : st.samples (denotes st c.target) = none) (hrun : c.run st = .ok st) :
    Addressed st c := by
  rw [addressed_none hs, hrun]
  refine ⟨fun st' h k _ => ?_, congrArg Except.ok hs⟩
  obtain rfl := Except.ok.inj h
  rfl

/-- What is left to show of a command, once its run and the run with the sample alone are known. -/
theorem addressed_iff_of_run {c : Command} {samples : ℤ → Option Sample} {r : Option Sample}
    (hrun : c.run st = .ok { st with samples := samples })
    (halone : (State.samples · (denotes st c.target)) <$> c.forPlayed.run (st.only (denotes st c.target)) = .ok r) :
    Addressed st c ↔
      (∀ k, k ≠ denotes st c.target → samples k = st.samples k) ∧ samples (denotes st c.target) = r := by
  unfold Addressed
  rw [halone, hrun]
  constructor
  · rintro ⟨hother, hself⟩
    exact ⟨fun k hk => hother _ rfl k hk, Except.ok.inj hself⟩
  · rintro ⟨hother, hself⟩
    refine ⟨fun st' h k hk => ?_, congrArg Except.ok hself⟩
    obtain rfl := Except.ok.inj h
    exact hother k hk

/-- A command that changes its sample is for it exactly if it changes it as it does when the sample is alone. -/
theorem addressed_iff_of_modify {c : Command} {f g : Sample → Exec Sample} {s : Sample}
    (hs : st.samples (denotes st c.target) = some s) (hrun : c.run st = st.modify (denotes st c.target) f)
    (halone : c.forPlayed.run (st.only (denotes st c.target))
      = (st.only (denotes st c.target)).modify (denotes st c.target) g) : Addressed st c ↔ f s = g s := by
  unfold Addressed
  rw [hrun, halone, modify_self, modify_self, only_self, hs]
  dsimp only
  constructor
  · rintro ⟨-, hself⟩
    cases hf : f s with
    | error e =>
      rw [hf] at hself
      cases hg : g s with
      | error e' =>
        rw [hg] at hself
        exact congrArg Except.error (Except.error.inj hself)
      | ok t =>
        rw [hg] at hself
        cases hself
    | ok t =>
      rw [hf] at hself
      cases hg : g s with
      | error e =>
        rw [hg] at hself
        cases hself
      | ok t' =>
        rw [hg] at hself
        exact congrArg Except.ok (Option.some.inj (Except.ok.inj hself))
  · intro heq
    exact ⟨fun st' h k hk => modify_other h hk, by rw [heq]⟩

end Modify

/-! ## The handlers -/

section Handlers

variable {st : State}

/-- The sample as `vj_event_sample_set_loop_type` and others find it. -/
theorem resolve_played (hplaying : st.playing ≠ -1) (n : ℤ) :
    (if (if n = 0 then st.playing else n) = -1 then st.sampleSize - 1 else if n = 0 then st.playing else n)
      = denotes st n := by
  unfold denotes
  split_ifs <;> omega

/-- The sample as `vj_event_sample_set_speed` finds it. -/
theorem resolve_last (hsize : st.sampleSize ≠ 1) (n : ℤ) :
    (if (if n = -1 then st.sampleSize - 1 else n) = 0 then st.playing else if n = -1 then st.sampleSize - 1 else n)
      = denotes st n := by
  unfold denotes
  split_ifs <;> omega

/-- What is played, and the number of the last sample. -/
theorem State.Plays.bounds (hst : st.Plays) : 1 ≤ st.playing ∧ st.playing < st.sampleSize := by
  obtain ⟨s, hs⟩ := Option.ne_none_iff_exists'.mp hst.played
  exact hst.ids _ s hs

/-- **The kind of looping** is set for the sample that the command names. -/
theorem addressed_looptype (hst : st.Plays) (a0 a1 : ℤ) : Addressed st (.looptype a0 a1) := by
  have hbounds := hst.bounds
  have hrun : ∀ (st : State) (n : ℤ), st.samplePlaying = true → st.playing ≠ -1 →
      vjEventSampleSetLoopType st n a1 =
        if sampleExists st (denotes st n) then
          st.modify (denotes st n) fun s =>
            if a1 = -1 then if s.positions.looptype = 2 then sampleSetLooptype 1 s else sampleSetLooptype 2 s
            else if a1 ≥ 0 ∧ a1 ≤ 3 then sampleSetLooptype a1 s else .ok s
        else .ok st := by
    intro st n hmode hplaying
    unfold vjEventSampleSetLoopType
    rw [hmode, if_neg (by decide)]
    dsimp only
    rw [resolve_played hplaying]
    split_ifs with h1 h2 h3 h4 <;> first | rfl | exact modify_ok.symm
  have hmine := hrun st a0 hst.mode (by omega)
  cases hs : st.samples (denotes st a0) with
  | none =>
    refine addressed_nothing hs (hmine.trans ?_)
    rw [sampleExists_none hs, if_neg (by decide)]
  | some s =>
    have hid := (hst.ids _ s hs).1
    have halone := hrun (st.only (denotes st a0)) 0 hst.mode (show denotes st a0 ≠ -1 by omega)
    rw [sampleExists_some hid hs, if_pos rfl] at hmine
    rw [show denotes (st.only (denotes st a0)) 0 = denotes st a0 from rfl,
      sampleExists_some hid (only_self.trans hs), if_pos rfl] at halone
    exact addressed_of_modify _ hmine halone

/-- **The speed** is set for the sample that the command names. -/
theorem addressed_speed (hst : st.Plays) (a0 a1 : ℤ) : Addressed st (.speed a0 a1) := by
  have hbounds := hst.bounds
  have hrun : ∀ (st : State) (n : ℤ), st.sampleSize ≠ 1 → vjEventSampleSetSpeed st n a1 =
      st.modify (denotes st n) (onPositions fun p => .ok (sampleSetSpeed p a1)) := by
    intro st n hsize
    unfold vjEventSampleSetSpeed
    dsimp only
    rw [resolve_last hsize]
  exact addressed_of_modify _ (hrun st a0 (by omega))
    (hrun (st.only (denotes st a0)) 0 (show st.sampleSize ≠ 1 by omega))

/-- **The start** is set for the sample that the command names, and compared with its end. -/
theorem addressed_start (hst : st.Plays) (a0 a1 : ℤ) : Addressed st (.start a0 a1) := by
  have hbounds := hst.bounds
  have hrun : ∀ (st : State) (n : ℤ), st.samplePlaying = true → st.playing ≠ -1 → 1 ≤ denotes st n →
      vjEventSampleSetStart st n a1 = st.modify (denotes st n) fun s =>
        if a1 < sampleGetEndFrame s.positions then onPositions (fun p => .ok (sampleSetStartframe p a1)) s
        else .ok s := by
    intro st n hmode hplaying hid
    unfold vjEventSampleSetStart endFrame
    rw [hmode, if_neg (by decide)]
    dsimp only
    rw [resolve_played hplaying, if_neg (by omega)]
    cases hs : st.samples (denotes st n) with
    | none => rw [modify_none hs, modify_none hs, ite_self]
    | some s =>
      rw [Option.elim_some]
      split_ifs with hless
      · exact modify_congr hs (if_pos hless).symm
      · rw [← modify_ok]
        exact modify_congr hs (if_neg hless).symm
  cases hs : st.samples (denotes st a0) with
  | none =>
    refine addressed_nothing hs ?_
    show vjEventSampleSetStart st a0 a1 = _
    unfold vjEventSampleSetStart
    dsimp only
    rw [resolve_played (by omega), modify_none hs]
    simp only [ite_self]
  | some s =>
    have hid := (hst.ids _ s hs).1
    exact addressed_of_modify _ (hrun st a0 hst.mode (by omega) hid)
      (hrun (st.only (denotes st a0)) 0 hst.mode (show denotes st a0 ≠ -1 by omega)
        (show 1 ≤ denotes st a0 from hid))

/-- What `vj_event_sample_set_num_loops` does. -/
theorem setNumLoops_eq (st : State) (n a1 : ℤ) (hplaying : st.playing ≠ -1) :
    vjEventSampleSetNumLoops st n a1 =
      if sampleExists st (denotes st n) then st.modify st.playing (sampleSetLoops a1) else .ok st := by
  unfold vjEventSampleSetNumLoops
  dsimp only
  rw [resolve_played hplaying]

/-- **The loops** are set for the sample that is played: this is the one that the command names, or there is none
that it names, or both have these loops. -/
theorem addressed_loops_iff (hst : st.Plays) (a0 a1 : ℤ) :
    Addressed st (.loops a0 a1) ↔
      ∀ s, st.samples (denotes st a0) = some s → denotes st a0 = st.playing ∨
        s.maxLoops = a1 ∧ ∀ p, st.samples st.playing = some p → p.maxLoops = a1 := by
  have hbounds := hst.bounds
  have hmine := setNumLoops_eq st a0 a1 (by omega)
  cases hs : st.samples (denotes st a0) with
  | none =>
    rw [sampleExists_none hs, if_neg (by decide)] at hmine
    exact iff_of_true (addressed_nothing hs hmine) fun s h => by cases h
  | some s =>
    have hid := (hst.ids _ s hs).1
    rw [sampleExists_some hid hs, if_pos rfl] at hmine
    have halone := setNumLoops_eq (st.only (denotes st a0)) 0 a1 (show denotes st a0 ≠ -1 by omega)
    rw [show denotes (st.only (denotes st a0)) 0 = denotes st a0 from rfl,
      sampleExists_some hid (only_self.trans hs), if_pos rfl] at halone
    rcases eq_or_ne (denotes st a0) st.playing with heq | hne
    · rw [← heq] at hmine
      exact iff_of_true (addressed_of_modify _ hmine halone) fun _ _ => Or.inl heq
    · obtain ⟨p, hp⟩ := Option.ne_none_iff_exists'.mp hst.played
      have hrun : vjEventSampleSetNumLoops st a0 a1 = .ok
          { st with samples := Function.update st.samples st.playing (some { p with maxLoops := a1 }) } := by
        rw [hmine]
        unfold State.modify
        rw [hp]
        rfl
      have hself : (State.samples · (denotes st a0)) <$> vjEventSampleSetNumLoops (st.only (denotes st a0)) 0 a1
          = .ok (some { s with maxLoops := a1 }) := by
        rw [halone, only_playing, modify_self, only_self, hs]
        rfl
      refine (@addressed_iff_of_run st (.loops a0 a1) _ _ hrun hself).trans ?_
      show (∀ k, k ≠ denotes st a0 → Function.update st.samples st.playing _ k = _) ∧
        Function.update st.samples st.playing _ (denotes st a0) = _ ↔ _
      rw [Function.update_of_ne hne, hs]
      constructor
      · rintro ⟨hother, hloops⟩ s' hs'
        obtain rfl := Option.some.inj hs'
        refine Or.inr ⟨congrArg Sample.maxLoops (Option.some.inj hloops), fun p' hp' => ?_⟩
        have hsame := hother st.playing hne.symm
        rw [Function.update_self, hp'] at hsame
        exact (congrArg Sample.maxLoops (Option.some.inj hsame)).symm
      · intro h
        obtain hid' | ⟨hloops, hplayed⟩ := h s rfl
        · exact absurd hid' hne
        refine ⟨fun k _ => ?_, congrArg some (by rw [← hloops])⟩
        rw [← hplayed p hp, ← hp, Function.update_eq_self]

/-! ## The end -/

/-- The end of a sample is where `sample_set_endframe` would put it. -/
def EndStays (s : SampleInfo) (n : ℤ) : Prop :=
  if s.playLength = 0 then
    ∀ el, s.editList = some el → s.lastFrame = min n el.totalFrames ∧ s.resumePos ≤ min n el.totalFrames
  else
    s.lastFrame = s.firstFrame + max 1 (n - s.firstFrame) ∧ s.resumePos ≤ n ∧
      ∀ el, s.editList = some el → el.hasVideo = true → el.isEmpty = false → el.bogusLength ≠ 0 →
        el.bogusLength = max 1 (n - s.firstFrame) ∧ s.playLength = max 1 (n - s.firstFrame)

/-- `sample_set_endframe` always ends, and leaves the sample as it is exactly if its end stays. -/
theorem sampleSetEndframe_stays {s : SampleInfo} (hel : s.editList ≠ none) {n : ℤ} (hn : 0 < n) :
    ∃ r t, sampleSetEndframe s n = .ok (r, t) ∧ (t = s ↔ EndStays s n) := by
  obtain ⟨el, hel⟩ := Option.ne_none_iff_exists'.mp hel
  unfold sampleSetEndframe EndStays
  rw [if_neg (by omega)]
  by_cases hlen : s.playLength = 0
  · have hmin : (if n > el.totalFrames then el.totalFrames else n) = min n el.totalFrames := by
      split_ifs <;> omega
    rw [if_neg (not_not.mpr hlen), if_pos hlen]
    simp only [hel, hmin]
    refine ⟨1, _, rfl, ?_⟩
    constructor
    · intro h el' hel'
      obtain rfl := Option.some.inj hel'
      split_ifs at h with hresume
      · have hsame := congrArg SampleInfo.resumePos h
        change min n el.totalFrames = s.resumePos at hsame
        change s.resumePos > min n el.totalFrames at hresume
        omega
      · change ¬ s.resumePos > min n el.totalFrames at hresume
        exact ⟨(congrArg SampleInfo.lastFrame h).symm, by omega⟩
    · intro h
      obtain ⟨hlast, hresume⟩ := h el rfl
      rw [if_neg (show ¬ s.resumePos > min n el.totalFrames by omega), ← hlast, ← hel]
  · have hmax : (if n - s.firstFrame ≤ 1 then 1 else n - s.firstFrame) = max 1 (n - s.firstFrame) := by
      split_ifs <;> omega
    rw [if_pos hlen, if_neg hlen]
    simp only [hmax]
    generalize hnew : max 1 (n - s.firstFrame) = newLen
    have hpos : ¬ newLen ≤ 0 := by omega
    by_cases hset : el.hasVideo = false ∨ el.isEmpty = true ∨ el.bogusLength = 0
    · -- the length of the file is not set
      have hbogus : vjElSetBogusLength el newLen = (0, el) := by
        unfold vjElSetBogusLength
        rw [if_neg hpos]
        rcases hset with h | h | h
        · rw [if_pos (Or.inl h)]
        · rw [if_pos (Or.inr h)]
        · rw [if_pos h, ite_self]
      have hfree : ∀ p : PlayList → Prop, (∀ el', some el = some el' → el'.hasVideo = true → el'.isEmpty = false →
          el'.bogusLength ≠ 0 → p el') := by
        intro p el' hel' hvideo hempty hlength
        obtain rfl := Option.some.inj hel'
        rcases hset with h | h | h
        · rw [hvideo] at h
          cases h
        · rw [hempty] at h
          cases h
        · exact absurd h hlength
      by_cases hresume : s.resumePos > n
      · rw [if_pos hresume]
        simp only [hel, hbogus]
        refine ⟨_, _, rfl, iff_of_false (fun h => ?_) (by omega)⟩
        have hsame := congrArg SampleInfo.resumePos h
        change n = s.resumePos at hsame
        omega
      · rw [if_neg hresume]
        simp only [hel, hbogus]
        refine ⟨_, _, rfl, fun h => ⟨(congrArg SampleInfo.lastFrame h).symm, by omega, hfree _⟩, ?_⟩
        rintro ⟨hlast, -, -⟩
        show { s with lastFrame := s.firstFrame + newLen, editList := some el } = s
        rw [← hlast, ← hel]
    · obtain ⟨hvideo, hempty, hlength⟩ : el.hasVideo = true ∧ el.isEmpty = false ∧ el.bogusLength ≠ 0 := by
        push Not at hset
        exact ⟨Bool.eq_true_of_not_eq_false hset.1, Bool.eq_false_of_not_eq_true hset.2.1, hset.2.2⟩
      have hbogus : vjElSetBogusLength el newLen = (1, { el with bogusLength := newLen }) := by
        unfold vjElSetBogusLength
        rw [if_neg hpos, if_neg (by rw [hvideo, hempty]; decide), if_neg hlength]
      by_cases hresume : s.resumePos > n
      · rw [if_pos hresume]
        simp only [hel, hbogus]
        refine ⟨_, _, rfl, iff_of_false (fun h => ?_) (by omega)⟩
        have hsame := congrArg SampleInfo.resumePos h
        change n = s.resumePos at hsame
        omega
      · rw [if_neg hresume]
        simp only [hel, hbogus]
        refine ⟨_, _, rfl, fun h => ⟨(congrArg SampleInfo.lastFrame h).symm, by omega, ?_⟩, ?_⟩
        · intro el' hel' _ _ _
          obtain rfl := Option.some.inj hel'
          have hlist := congrArg SampleInfo.editList h
          change some { el with bogusLength := newLen } = s.editList at hlist
          rw [hel] at hlist
          exact ⟨(congrArg PlayList.bogusLength (Option.some.inj hlist)).symm, (congrArg SampleInfo.playLength h).symm⟩
        · rintro ⟨hlast, -, hset⟩
          obtain ⟨hbogusLength, hplayLength⟩ := hset el rfl hvideo hempty hlength
          have hsame : { el with bogusLength := newLen } = el := by rw [← hbogusLength]
          simp only [hsame]
          show { s with lastFrame := s.firstFrame + newLen, playLength := newLen, editList := some el } = s
          rw [← hlast, ← hplayLength, ← hel]

/-- The end that `vj_event_sample_set_end` is asked for. -/
def askedEnd (a1 : ℤ) (s : Sample) : ℤ := if a1 = -1 then videoLength s.positions else a1

/-- What `vj_event_sample_set_end` does with a sample, where the end must not be in front of `start`. -/
def setEndFrom (start a1 : ℤ) (s : Sample) : Exec Sample :=
  if askedEnd a1 s ≤ 0 then .ok s
  else if askedEnd a1 s ≥ start then onPositions (fun p => sampleSetEndframe p (askedEnd a1 s)) s
  else .ok s

theorem setEnd_some (st : State) (n a1 : ℤ) (hmode : st.samplePlaying = true) {s : Sample}
    (hs : st.samples (if n = 0 then st.playing else n) = some s) :
    vjEventSampleSetEnd st n a1 =
      st.modify (if n = 0 then st.playing else n) (setEndFrom (startFrame st st.playing) a1) := by
  unfold vjEventSampleSetEnd sampleVideoLength
  rw [hmode, if_neg (by decide)]
  dsimp only
  generalize (if n = 0 then st.playing else n) = id at hs ⊢
  rw [hs, Option.elim_some]
  change (if askedEnd a1 s ≤ 0 then _ else if askedEnd a1 s ≥ startFrame st st.playing then
    st.modify id (onPositions fun p => sampleSetEndframe p (askedEnd a1 s)) else _) = _
  split_ifs with hle hge
  · rw [← modify_ok]
    exact modify_congr hs (if_pos hle).symm
  · exact modify_congr hs ((if_neg hle).trans (if_pos hge)).symm
  · rw [← modify_ok]
    exact modify_congr hs ((if_neg hle).trans (if_neg hge)).symm

theorem setEnd_none (st : State) (n a1 : ℤ) (hs : st.samples (if n = 0 then st.playing else n) = none) :
    vjEventSampleSetEnd st n a1 = .ok st := by
  unfold vjEventSampleSetEnd
  dsimp only
  rw [modify_none hs]
  simp only [ite_self]

/-- Two starts make no difference if the end is in front of both or of neither, or if it stays. -/
theorem setEndFrom_eq_iff {s : Sample} (hel : s.positions.editList ≠ none) (start start' a1 : ℤ) :
    setEndFrom start a1 s = setEndFrom start' a1 s ↔
      askedEnd a1 s ≤ 0 ∨ (start ≤ askedEnd a1 s ↔ start' ≤ askedEnd a1 s) ∨
        EndStays s.positions (askedEnd a1 s) := by
  unfold setEndFrom
  rcases le_or_gt (askedEnd a1 s) 0 with hle | hlt
  · rw [if_pos hle, if_pos hle]
    exact iff_of_true rfl (Or.inl hle)
  · have hlate : ¬ askedEnd a1 s ≤ 0 := by omega
    rw [if_neg hlate, if_neg hlate, or_iff_right hlate]
    obtain ⟨r, t, hset, hstays⟩ := sampleSetEndframe_stays hel hlt
    have hpos : onPositions (fun p => sampleSetEndframe p (askedEnd a1 s)) s = .ok { s with positions := t } := by
      unfold onPositions
      dsimp only
      rw [hset]
      rfl
    have hsame : (Except.ok { s with positions := t } : Exec Sample) = .ok s ↔ EndStays s.positions (askedEnd a1 s) := by
      rw [← hstays]
      exact ⟨fun h => congrArg Sample.positions (Except.ok.inj h), fun h => by rw [h]⟩
    rw [hpos]
    split_ifs with h h' h'
    · exact iff_of_true rfl (Or.inl (iff_of_true h h'))
    · rw [hsame, or_iff_right fun hiff => h' (hiff.mp h)]
    · rw [eq_comm, hsame, or_iff_right fun hiff => h (hiff.mpr h')]
    · exact iff_of_true rfl (Or.inl (iff_of_false h h'))

/-- **The end** is set for the sample that the command names, but -1 is none, and the end is compared with the start of
the sample that is played. -/
theorem addressed_finish_iff (hst : st.Plays) (a0 a1 : ℤ) :
    Addressed st (.finish a0 a1) ↔
      a0 = 0 ∨ ∀ s, st.samples (denotes st a0) = some s →
        askedEnd a1 s ≤ 0 ∨ EndStays s.positions (askedEnd a1 s) ∨
          if a0 = -1 then askedEnd a1 s < sampleGetStartFrame s.positions
          else (startFrame st st.playing ≤ askedEnd a1 s ↔ sampleGetStartFrame s.positions ≤ askedEnd a1 s) := by
  have hbounds := hst.bounds
  have hneg : st.samples (-1) = none :=
    Option.eq_none_iff_forall_ne_some.mpr fun s h => absurd (hst.ids _ s h).1 (by decide)
  have halone : ∀ s, st.samples (denotes st a0) = some s →
      vjEventSampleSetEnd (st.only (denotes st a0)) 0 a1 = (st.only (denotes st a0)).modify (denotes st a0)
        (setEndFrom (sampleGetStartFrame s.positions) a1) := by
    intro s hs
    have hrun := setEnd_some (st.only (denotes st a0)) 0 a1 hst.mode (only_self.trans hs)
    rw [show startFrame (st.only (denotes st a0)) (st.only (denotes st a0)).playing
      = sampleGetStartFrame s.positions by unfold startFrame; rw [only_playing, only_self, hs]; rfl] at hrun
    exact hrun
  cases hs : st.samples (denotes st a0) with
  | none =>
    refine iff_of_true (addressed_nothing hs (setEnd_none st a0 a1 ?_)) (Or.inr fun s h => by cases h)
    unfold denotes at hs
    split_ifs at hs ⊢ with h0 hlast
    · exact hs
    · rw [hlast]
      exact hneg
    · exact hs
  | some s =>
    have hel := hst.lists _ s hs
    have hall : ∀ p : Sample → Prop, (∀ s', some s = some s' → p s') ↔ p s :=
      fun p => ⟨fun h => h s rfl, fun h s' hs' => Option.some.inj hs' ▸ h⟩
    rw [hall]
    rcases eq_or_ne a0 0 with rfl | h0
    · -- the sample that is played
      refine iff_of_true ?_ (Or.inl rfl)
      have hmine := setEnd_some st 0 a1 hst.mode hs
      rw [show startFrame st st.playing = sampleGetStartFrame s.positions by
        unfold startFrame
        rw [show st.samples st.playing = some s from hs]
        rfl] at hmine
      exact addressed_of_modify _ hmine (halone s hs)
    rw [or_iff_right h0]
    rcases eq_or_ne a0 (-1) with rfl | hlast
    · -- no sample is found, where the last one is named
      have hmine := setEnd_none st (-1) a1 (by rw [if_neg (by decide)]; exact hneg)
      rw [← modify_ok] at hmine
      refine (@addressed_iff_of_modify st (.finish (-1) a1) _ _ s hs hmine (halone s hs)).trans ?_
      have hlate : setEndFrom (askedEnd a1 s + 1) a1 s = .ok s := by
        unfold setEndFrom
        rw [if_neg (by omega : ¬ askedEnd a1 s ≥ askedEnd a1 s + 1), ite_self]
      rw [← hlate, setEndFrom_eq_iff hel, if_pos rfl, @or_comm (EndStays _ _),
        iff_iff_eq.mp (iff_false_left (by omega : ¬ askedEnd a1 s + 1 ≤ askedEnd a1 s)), not_le]
    · have hid : denotes st a0 = a0 := by
        unfold denotes
        rw [if_neg h0, if_neg hlast]
      have hmine := setEnd_some st a0 a1 hst.mode (s := s) (by rw [if_neg h0, ← hid]; exact hs)
      rw [if_neg h0] at hmine
      replace hmine : vjEventSampleSetEnd st a0 a1
          = st.modify (denotes st a0) (setEndFrom (startFrame st st.playing) a1) := by rw [hid, hmine]
      refine (@addressed_iff_of_modify st (.finish a0 a1) _ _ s hs hmine (halone s hs)).trans ?_
      rw [setEndFrom_eq_iff hel, if_neg hlast, @or_comm (EndStays _ _)]

/-! ## The position of the sample that is mixed in -/

/-- The entry that `vj_event_sample_set_position` looks at, and the channel of it. -/
def mixed (p : Sample) (a1 : ℤ) : ℤ × ℤ :=
  let entry := if a1 = -1 then p.selectedEntry else a1
  (entry, chainChannel p entry)

/-- The position of an entry is moved. -/
def moved (entry a2 : ℤ) (s : Sample) : Sample :=
  if h : 0 ≤ entry ∧ entry.toNat < sampleMaxEffects then
    let old := s.chain ⟨entry.toNat, h.2⟩
    { s with chain := Function.update s.chain ⟨entry.toNat, h.2⟩ { old with frameOffset := old.frameOffset + a2 } }
  else s

theorem moved_zero (entry : ℤ) (s : Sample) : moved entry 0 s = s := by
  unfold moved
  split_ifs with h
  · dsimp only
    rw [add_zero]
    exact congrArg (fun chain => { s with chain := chain }) (Function.update_eq_self _ _)
  · rfl

/-- The positions of the entries, after one was moved. -/
theorem moved_offset (entry a2 : ℤ) (s : Sample) (i : Fin sampleMaxEffects) :
    ((moved entry a2 s).chain i).frameOffset = (s.chain i).frameOffset + if (i : ℤ) = entry then a2 else 0 := by
  unfold moved
  split_ifs with h heq heq
  · have hi : i = ⟨entry.toNat, h.2⟩ := Fin.ext (by show (i : ℕ) = entry.toNat; omega)
    subst hi
    dsimp only
    rw [Function.update_self]
  · dsimp only
    rw [Function.update_of_ne, add_zero]
    rintro rfl
    exact heq (Int.toNat_of_nonneg h.1)
  · have hi := i.isLt
    omega
  · rw [add_zero]

/-- Moving by another distance than 0 shows at which entry. -/
theorem moved_ne {entry a2 : ℤ} (h : 0 ≤ entry ∧ entry.toNat < sampleMaxEffects) (hne : a2 ≠ 0) (s : Sample) :
    moved entry a2 s ≠ s ∧ ∀ entry', moved entry a2 s = moved entry' a2 s → entry = entry' := by
  have hself := moved_offset entry a2 s ⟨entry.toNat, h.2⟩
  rw [if_pos (Int.toNat_of_nonneg h.1)] at hself
  constructor
  · intro heq
    rw [heq] at hself
    omega
  · intro entry' heq
    have hother := moved_offset entry' a2 s ⟨entry.toNat, h.2⟩
    rw [← heq, hself] at hother
    split_ifs at hother with hentry
    · exact (Int.toNat_of_nonneg h.1).symm.trans hentry
    · omega

/-- A channel of a sample is that of an entry. -/
theorem mixed_entry {p : Sample} {a1 : ℤ} (h : 1 ≤ (mixed p a1).2) :
    0 ≤ (mixed p a1).1 ∧ (mixed p a1).1.toNat < sampleMaxEffects := by
  by_contra hout
  unfold mixed at h hout
  dsimp only at h hout
  unfold chainChannel at h
  rw [dif_neg hout] at h
  omega

/-- What `vj_event_sample_set_position` does: it moves the position of the sample that is mixed in. -/
theorem setPosition_eq (st : State) (hids : ∀ id s, st.samples id = some s → 1 ≤ id) (a0 a1 a2 : ℤ) {p : Sample}
    (hp : st.samples st.playing = some p) :
    vjEventSampleSetPosition st a0 a1 a2 =
      st.modify (mixed p a1).2 fun s => .ok (moved (mixed p a1).1 a2 s) := by
  have hentry : (if a1 = -1 then sampleGetSelectedEntry st st.playing else a1) = (mixed p a1).1 := by
    unfold sampleGetSelectedEntry
    rw [hp]
    rfl
  have hcha : sampleGetChainChannel st st.playing (mixed p a1).1 = (mixed p a1).2 := by
    unfold sampleGetChainChannel
    rw [hp]
    rfl
  unfold vjEventSampleSetPosition
  dsimp only
  rw [hentry, hcha]
  cases hs : st.samples (mixed p a1).2 with
  | none =>
    unfold sampleGetOffset
    rw [hs, modify_none hs]
    exact modify_none hs _
  | some s =>
    have hin := mixed_entry (hids _ s hs)
    unfold sampleGetOffset
    rw [hs]
    dsimp only
    rw [if_neg (by omega), dif_pos hin]
    refine modify_congr hs ?_
    unfold sampleSetOffset moved
    rw [dif_pos hin, dif_pos hin]

/-- What `vj_event_sample_set_position` does with a sample that is alone: it moves the position of the sample itself, if
it mixes itself. -/
theorem setPosition_alone (hst : st.Plays) (id a1 a2 : ℤ) :
    (State.samples · id) <$> vjEventSampleSetPosition (st.only id) 0 a1 a2 =
      .ok ((st.samples id).map fun s => if (mixed s a1).2 = id then moved (mixed s a1).1 a2 s else s) := by
  have hothers : ∀ k, k ≠ id → (st.only id).samples k = none := fun k hk => if_neg hk
  cases hs : st.samples id with
  | none =>
    have hempty : ∀ k, (st.only id).samples k = none := by
      intro k
      rcases eq_or_ne k id with rfl | hk
      · rw [only_self, hs]
      · exact hothers k hk
    have hrun : vjEventSampleSetPosition (st.only id) 0 a1 a2 = .ok (st.only id) := run_empty hempty (.position 0 a1 a2)
    rw [hrun]
    exact congrArg Except.ok (hempty id)
  | some s =>
    have hids : ∀ k s, (st.only id).samples k = some s → 1 ≤ k := by
      intro k s' hs'
      rcases eq_or_ne k id with rfl | hk
      · exact (hst.ids _ s hs).1
      · rw [hothers k hk] at hs'
        cases hs'
    rw [setPosition_eq (st.only id) hids 0 a1 a2 (only_self.trans hs), Option.map_some]
    split_ifs with hown
    · rw [hown, modify_self, only_self, hs]
      rfl
    · rw [modify_none (hothers _ hown)]
      exact congrArg Except.ok (only_self.trans hs)

/-- **The position** is that of the sample that is mixed in by the one that is played: the command is for the sample
that it names exactly if nothing is moved, or if this is the sample that is mixed in, if there is one, and mixes itself
in the same way when it is alone. -/
theorem addressed_position_iff (hst : st.Plays) (a0 a1 a2 : ℤ) :
    Addressed st (.position a0 a1 a2) ↔
      a2 = 0 ∨ ∀ p, st.samples st.playing = some p →
        (st.samples (mixed p a1).2 ≠ none → (mixed p a1).2 = denotes st a0) ∧
          ∀ s, st.samples (denotes st a0) = some s →
            ((mixed p a1).2 = denotes st a0 ↔ (mixed s a1).2 = denotes st a0) ∧
              ((mixed p a1).2 = denotes st a0 → (mixed p a1).1 = (mixed s a1).1) := by
  obtain ⟨p, hp⟩ := Option.ne_none_iff_exists'.mp hst.played
  have hids : ∀ id s, st.samples id = some s → 1 ≤ id := fun id s hs => (hst.ids id s hs).1
  have hmine := setPosition_eq st hids a0 a1 a2 hp
  have hall : ∀ q : Sample → Prop, (∀ p', st.samples st.playing = some p' → q p') ↔ q p :=
    fun q => ⟨fun h => h p hp, fun h p' hp' => Option.some.inj (hp.symm.trans hp') ▸ h⟩
  rw [hall]
  have halone := setPosition_alone hst (denotes st a0) a1 a2
  cases hc : st.samples (mixed p a1).2 with
  | none =>
    rw [modify_none hc] at hmine
    refine (@addressed_iff_of_run st (.position a0 a1 a2) st.samples _ hmine halone).trans ?_
    show (∀ k, k ≠ denotes st a0 → st.samples k = st.samples k) ∧ st.samples (denotes st a0) = _ ↔ _
    cases hs : st.samples (denotes st a0) with
    | none => exact iff_of_true ⟨fun _ _ => rfl, rfl⟩ (Or.inr ⟨fun h => absurd rfl h, fun s h => by cases h⟩)
    | some s =>
      have hne : (mixed p a1).2 ≠ denotes st a0 := by
        intro heq
        rw [heq, hs] at hc
        cases hc
      rw [Option.map_some, Option.some.injEq]
      constructor
      · rintro ⟨-, hself⟩
        by_cases hzero : a2 = 0
        · exact Or.inl hzero
        refine Or.inr ⟨fun h => absurd rfl h, fun s' hs' => ?_⟩
        obtain rfl := Option.some.inj hs'
        refine ⟨iff_of_false hne fun hown => ?_, fun heq => absurd heq hne⟩
        rw [if_pos hown] at hself
        exact (moved_ne (mixed_entry (hown ▸ hids _ s hs)) hzero s).1 hself.symm
      · intro h
        refine ⟨fun _ _ => rfl, ?_⟩
        obtain rfl | ⟨-, h⟩ := h
        · rw [moved_zero, ite_self]
        · rw [if_neg (mt (h s rfl).1.mpr hne)]
  | some sc =>
    have hrun : vjEventSampleSetPosition st a0 a1 a2 = .ok
        { st with samples := Function.update st.samples (mixed p a1).2 (some (moved (mixed p a1).1 a2 sc)) } := by
      rw [hmine]
      unfold State.modify
      rw [hc]
      rfl
    have hin := mixed_entry (hids _ sc hc)
    refine (@addressed_iff_of_run st (.position a0 a1 a2) _ _ hrun halone).trans ?_
    show (∀ k, k ≠ denotes st a0 → Function.update st.samples (mixed p a1).2 _ k = _) ∧
      Function.update st.samples (mixed p a1).2 _ (denotes st a0) = _ ↔ _
    by_cases hzero : a2 = 0
    · refine iff_of_true ?_ (Or.inl hzero)
      rw [hzero, moved_zero, ← hc, Function.update_eq_self]
      refine ⟨fun _ _ => rfl, ?_⟩
      cases st.samples (denotes st a0) with
      | none => rfl
      | some s => rw [Option.map_some, moved_zero, ite_self]
    rw [or_iff_right hzero]
    rcases eq_or_ne (mixed p a1).2 (denotes st a0) with heq | hne
    · -- the sample that is mixed in is the one that the command names
      rw [heq] at hc
      rw [heq, Function.update_self, hc, Option.map_some, Option.some.injEq]
      constructor
      · rintro ⟨-, hself⟩
        refine ⟨fun _ => rfl, fun s hs => ?_⟩
        obtain rfl := Option.some.inj hs
        split_ifs at hself with hown
        · exact ⟨iff_of_true rfl hown, fun _ => (moved_ne hin hzero sc).2 _ hself⟩
        · exact absurd hself (moved_ne hin hzero sc).1
      · rintro ⟨-, h⟩
        obtain ⟨hown, hentry⟩ := h sc rfl
        refine ⟨fun k hk => Function.update_of_ne hk _ _, ?_⟩
        rw [if_pos (hown.mp rfl), hentry rfl]
    · refine iff_of_false (fun h => ?_) fun h => hne (h.1 (Option.some_ne_none sc))
      have hother := h.1 _ hne
      rw [Function.update_self, hc] at hother
      exact (moved_ne hin hzero sc).1 (Option.some.inj hother)

/-! ## The toggle of all samples -/

/-- What `sample_set_effect_status` makes of a sample. -/
def withStatus (status : ℤ) (s : Sample) : Sample :=
  if status = 1 ∨ status = 0 then { s with effectToggle := status } else s

theorem sampleSetEffectStatus_eq (status : ℤ) (s : Sample) :
    sampleSetEffectStatus status s = .ok (withStatus status s) := by
  unfold sampleSetEffectStatus withStatus
  split_ifs <;> rfl

theorem withStatus_idem (status : ℤ) (s : Sample) : withStatus status (withStatus status s) = withStatus status s := by
  unfold withStatus
  split_ifs <;> rfl

theorem withStatus_eq_self_iff (status : ℤ) (s : Sample) :
    withStatus status s = s ↔ (status ≠ 1 ∧ status ≠ 0) ∨ s.effectToggle = status := by
  unfold withStatus
  split_ifs with h
  · constructor
    · exact fun heq => Or.inr (congrArg Sample.effectToggle heq).symm
    · rintro (hno | heq)
      · omega
      · rw [← heq]
  · exact iff_of_true rfl (Or.inl (not_or.mp h))

/-- The loop sets the flags of the samples that it visits. -/
theorem toggleLoop_spec (status : ℤ) (is : List ℤ) (st : State) :
    toggleLoop status is st = .ok
      { st with samples := fun k => if k ∈ is then (st.samples k).map (withStatus status) else st.samples k } := by
  induction is generalizing st with
  | nil =>
    refine congrArg Except.ok (congrArg (fun f => { st with samples := f }) (funext fun k => ?_))
    rw [if_neg List.not_mem_nil]
  | cons i is ih =>
    have hfirst : st.modify i (sampleSetEffectStatus status) = .ok
        { st with samples := Function.update st.samples i ((st.samples i).map (withStatus status)) } := by
      cases hs : st.samples i with
      | none =>
        rw [modify_none hs, Option.map_none, ← hs, Function.update_eq_self]
      | some s =>
        unfold State.modify
        rw [hs]
        dsimp only
        rw [sampleSetEffectStatus_eq]
        rfl
    show (do
      let st ← st.modify i (sampleSetEffectStatus status)
      toggleLoop status is st) = _
    rw [hfirst]
    refine (ih _).trans (congrArg Except.ok (congrArg (fun f => { st with samples := f }) (funext fun k => ?_)))
    dsimp only
    rcases eq_or_ne k i with rfl | hk
    · rw [Function.update_self, if_pos List.mem_cons_self]
      split_ifs
      · rw [Option.map_map]
        exact congrArg (Option.map · _) (funext fun s => withStatus_idem status s)
      · rfl
    · rw [Function.update_of_ne hk]
      exact if_congr (by rw [List.mem_cons, or_iff_right hk]) rfl rfl

theorem mem_toggledIds {size k : ℤ} : k ∈ toggledIds size ↔ 0 ≤ k ∧ k < size - 1 := by
  unfold toggledIds
  rw [List.mem_map]
  constructor
  · rintro ⟨n, hn, rfl⟩
    have hlt := List.mem_range.mp hn
    omega
  · rintro ⟨hk, hlt⟩
    exact ⟨k.toNat, List.mem_range.mpr (by omega), Int.toNat_of_nonneg hk⟩

/-- The flag of every sample is set. -/
def AllToggled (st st' : State) (status : ℤ) : Prop :=
  ∀ k s, st.samples k = some s → st'.samples k = some (withStatus status s)

/-- **The toggle reaches all samples** exactly if there is nothing to change at the last one. -/
theorem allSamplesChainToggle_iff (hst : st.Plays) (a0 : ℤ) :
    ∃ st', vjEventAllSamplesChainToggle st a0 = .ok st' ∧
      (AllToggled st st' a0 ↔
        ∀ s, st.samples (st.sampleSize - 1) = some s → (a0 ≠ 1 ∧ a0 ≠ 0) ∨ s.effectToggle = a0) := by
  refine ⟨_, (if_pos hst.mode).trans (toggleLoop_spec a0 (toggledIds st.sampleSize) st), ?_⟩
  unfold AllToggled
  dsimp only
  constructor
  · intro h s hs
    have hlast := h _ s hs
    rw [if_neg (by rw [mem_toggledIds]; omega), hs] at hlast
    exact (withStatus_eq_self_iff a0 s).mp (Option.some.inj hlast).symm
  · intro h k s hs
    obtain ⟨hid, hlt⟩ := hst.ids k s hs
    split_ifs with hmem
    · rw [hs, Option.map_some]
    · have hlast : k = st.sampleSize - 1 := by
        rw [mem_toggledIds] at hmem
        omega
      rw [hs, (withStatus_eq_self_iff a0 s).mpr (h s (hlast ▸ hs))]

end Handlers

/-! ## All commands -/

/-- The states in which a command is for the sample that it names. -/
def Fits (st : State) : Command → Prop
  | .looptype _ _ | .speed _ _ | .start _ _ => True
  | .loops a0 a1 =>
    ∀ s, st.samples (denotes st a0) = some s → denotes st a0 = st.playing ∨
      s.maxLoops = a1 ∧ ∀ p, st.samples st.playing = some p → p.maxLoops = a1
  | .finish a0 a1 =>
    a0 = 0 ∨ ∀ s, st.samples (denotes st a0) = some s →
      askedEnd a1 s ≤ 0 ∨ EndStays s.positions (askedEnd a1 s) ∨
        if a0 = -1 then askedEnd a1 s < sampleGetStartFrame s.positions
        else (startFrame st st.playing ≤ askedEnd a1 s ↔ sampleGetStartFrame s.positions ≤ askedEnd a1 s)
  | .position a0 a1 a2 =>
    a2 = 0 ∨ ∀ p, st.samples st.playing = some p →
      (st.samples (mixed p a1).2 ≠ none → (mixed p a1).2 = denotes st a0) ∧
        ∀ s, st.samples (denotes st a0) = some s →
          ((mixed p a1).2 = denotes st a0 ↔ (mixed s a1).2 = denotes st a0) ∧
            ((mixed p a1).2 = denotes st a0 → (mixed p a1).1 = (mixed s a1).1)

/-- **Each command** is for the sample that it names exactly in the states that fit it, and the toggle of all samples
reaches them all exactly if there is nothing to change at the last one. -/
theorem addressed_iff {st : State} (hst : st.Plays) :
    (∀ c, Addressed st c ↔ Fits st c) ∧
      ∀ a0, ∃ st', vjEventAllSamplesChainToggle st a0 = .ok st' ∧
        (AllToggled st st' a0 ↔
          ∀ s, st.samples (st.sampleSize - 1) = some s → (a0 ≠ 1 ∧ a0 ≠ 0) ∨ s.effectToggle = a0) := by
  refine ⟨fun c => ?_, allSamplesChainToggle_iff hst⟩
  cases c with
  | looptype a0 a1 => exact iff_of_true (addressed_looptype hst a0 a1) trivial
  | speed a0 a1 => exact iff_of_true (addressed_speed hst a0 a1) trivial
  | loops a0 a1 => exact addressed_loops_iff hst a0 a1
  | start a0 a1 => exact iff_of_true (addressed_start hst a0 a1) trivial
  | finish a0 a1 => exact addressed_finish_iff hst a0 a1
  | position a0 a1 a2 => exact addressed_position_iff hst a0 a1 a2

/-- A sample of the middle of an edit list. -/
def someSample : Sample where
  positions := middlePart
  maxLoops := 0
  effectToggle := 1
  selectedEntry := 0
  chain := fun _ => ⟨0, 0⟩

/-- Two samples, of which the first one is played. -/
def twoSamples : State where
  samples := fun k => if k = 1 ∨ k = 2 then some someSample else none
  sampleSize := 3
  playing := 1
  samplePlaying := true

theorem twoSamples_plays : twoSamples.Plays where
  ids := fun id s h => by
    change (if id = 1 ∨ id = 2 then some someSample else none) = some s at h
    split_ifs at h with hid
    show 1 ≤ id ∧ id < 3
    omega
  lists := fun id s h => by
    change (if id = 1 ∨ id = 2 then some someSample else none) = some s at h
    split_ifs at h
    obtain rfl := Option.some.inj h
    exact Option.some_ne_none _
  played := Option.some_ne_none _
  mode := rfl

/-- The speed of the last sample is set where it is named, and nothing else is. -/
theorem speed_last_addressed : Addressed twoSamples (.speed (-1) 5) :=
  ((addressed_iff twoSamples_plays).1 (.speed (-1) 5)).mpr trivial

/-- **The loops of another sample are set**: the command is for sample 2, and sample 1 gets them. -/
theorem loops_misaddressed :
    ¬ ∀ (st : State), st.Plays → (∀ c, Addressed st c) ∧
      ∀ a0 st', vjEventAllSamplesChainToggle st a0 = .ok st' → AllToggled st st' a0 := by
  intro h
  have hloops := (addressed_loops_iff twoSamples_plays 2 3).mp ((h twoSamples twoSamples_plays).1 (.loops 2 3))
  obtain hid | ⟨hloops, -⟩ := hloops someSample rfl
  · exact absurd hid (by decide)
  · exact absurd hloops (by decide)

end Veejay.Addressing
