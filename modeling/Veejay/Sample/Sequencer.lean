import Veejay.CLib.Rounds
import Veejay.Sample.Bank

/-!
# The sample sequencer

The sequencer plays the samples in its slots one after the other.  The number of used slots is counted by
hand: adding a sample counts up even where the slot is in use, and neither emptying a slot nor deleting a
sample counts down (`veejay/vj-event.c`, `veejay/vj-perform.c`).

* `Seq`, `State` — the sequencer, and what its commands look at besides;
* `vjEventSequencerAddSample`, … — the commands, with `vjPerformTrySequence`, a step of the player;
* `Kept` — the invariant: positions inside the array, and no slot with a deleted sample;
* `Counted` — the commands that keep the count right;
* `sequencer_iff` — **the slots are always safe, and the count is right exactly then.**
-/

namespace Veejay.Sequencer

open CLib

/-- `MAX_SEQUENCES` -/
def maxSequences : ℕ := 100

/-- `sequencer_t`, without the recorder. -/
structure Seq where
  active : Bool
  current : ℤ
  size : ℤ
  samples : List ℤ
  deriving DecidableEq, Repr

/-- `info->seq` as `veejay_malloc` allocates it. -/
def Seq.init : Seq where
  active := false
  current := 0
  size := 0
  samples := List.replicate (maxSequences + 1) 0

/-- `VJ_PLAYBACK_MODE_…` -/
inductive Mode where
  | plain
  | sample
  | tag
  deriving DecidableEq, Repr

/-- What is played: `uc->playback_mode`, the mode of the link that is served, `uc->sample_id`,
`current_playback_speed` and the loops that the sample has made. -/
structure Player where
  playbackMode : Mode
  rmode : Mode
  sampleId : ℤ
  speed : ℤ
  loopDec : ℤ
  deriving DecidableEq, Repr

/-- `SAMPLE_PLAYING` -/
def Player.samplePlaying (p : Player) : Bool := p.playbackMode = .sample || p.rmode = .sample

/-- `STREAM_PLAYING` -/
def Player.streamPlaying (p : Player) : Bool := p.playbackMode = .tag || p.rmode = .tag

/-- The functions that change what is played: `veejay_set_sample`, `veejay_set_sample_f` with the mix
offset, and `veejay_change_playback_mode`. -/
structure Playback where
  setSample : Player → ℤ → Player
  setSampleF : Player → ℤ → Player
  changePlaybackMode : Player → Mode → ℤ → Player

/-- The sequencer, the samples that there are, the player, and what is asked of the edit list and of the
streams. -/
structure State where
  seq : Seq
  live : ℤ → Bool
  sampleSize : ℤ
  player : Player
  hasVideo : Bool
  tagExists : ℤ → Bool
  tagSize : ℤ

/-! ## Samples -/

/-- `sample_exists` -/
def sampleExists (live : ℤ → Bool) (id : ℤ) : Bool := id ≠ 0 && live id

/-- `sample_del`: whether there was such a sample, and the samples that are left. -/
def sampleDel (live : ℤ → Bool) (id : ℤ) : Bool × (ℤ → Bool) :=
  if id < 0 ∨ id > Samples.sampleMaxSamples ∨ live id = false then (false, live)
  else (true, Function.update live id false)

/-! ## Slots -/

/-- `samples[i]` -/
def readSlot (samples : List ℤ) (i : ℤ) : Exec ℤ :=
  if 0 ≤ i then
    match samples[i.toNat]? with
    | some n => .ok n
    | none => .error .outOfBounds
  else .error .outOfBounds

/-- `samples[i] = n` -/
def writeSlot (samples : List ℤ) (i n : ℤ) : Exec (List ℤ) :=
  if 0 ≤ i ∧ i < samples.length then .ok (samples.set i.toNat n) else .error .overrun

/-- `if (samples[i] == id) samples[i] = 0` -/
def emptySlot (id : ℤ) (samples : List ℤ) (i : ℕ) : Exec (List ℤ) := do
  let n ← readSlot samples i
  if n = id then writeSlot samples i 0 else .ok samples

/-- The slots of a deleted sample become empty: `for (i = 0; i < MAX_SEQUENCES; i++) …` -/
def emptySlots (id : ℤ) (samples : List ℤ) : Exec (List ℤ) :=
  (List.range maxSequences).foldlM (emptySlot id) samples

/-- `memset(samples, 0, sizeof(int) * MAX_SEQUENCES)` -/
def resetSlots (samples : List ℤ) : Exec (List ℤ) :=
  if maxSequences ≤ samples.length then .ok (List.replicate maxSequences 0 ++ samples.drop maxSequences)
  else .error .overrun

/-! ## Commands -/

/-- `vj_event_sequencer_add_sample` -/
def vjEventSequencerAddSample (s : State) (seq id : ℤ) : Exec State := do
  if seq < 0 ∨ seq ≥ maxSequences then .ok s
  else if sampleExists s.live id then do
    let samples ← writeSlot s.seq.samples seq id
    let size := if s.seq.size < maxSequences then s.seq.size + 1 else s.seq.size
    .ok { s with seq := { s.seq with samples := samples, size := size } }
  else .ok s

/-- `vj_event_sequencer_del_sample` -/
def vjEventSequencerDelSample (s : State) (seqIt : ℤ) : Exec State := do
  if seqIt < 0 ∨ seqIt ≥ maxSequences then .ok s
  else do
    let n ← readSlot s.seq.samples seqIt
    if n ≠ 0 then do
      let samples ← writeSlot s.seq.samples seqIt 0
      .ok { s with seq := { s.seq with samples := samples } }
    else .ok s

/-- `vj_event_sample_sequencer_active` -/
def vjEventSampleSequencerActive (s : State) (arg : ℤ) : State :=
  if s.seq.size = 0 then s
  else if arg = 0 then { s with seq := { s.seq with active := false, current := 0 } }
  else { s with seq := { s.seq with active := true } }

/-- The next id, in a direction. -/
def toward (down : Bool) (n : ℤ) : ℤ := bif down then n - 1 else n + 1

/-- The loop that looks for an id that exists, one by one, down or up from `n`. -/
def search (known : ℤ → Bool) (down : Bool) (stop n : ℤ) : Option ℤ :=
  if known n then some n
  else if toward down n > stop ∨ toward down n < 1 then none
  else search known down stop (toward down n)
termination_by (bif down then n else stop - n).toNat
decreasing_by
  cases down <;> simp only [toward, cond_true, cond_false] at * <;> omega

/-- The part of `vj_event_sample_next` behind the sequencer. -/
def playNext (p : Playback) (s : State) : Player :=
  let down := decide (s.player.speed < 0)
  if s.player.samplePlaying then
    let n := s.player.sampleId + (if down then -1 else 1)
    if sampleExists s.live n then p.setSample s.player n
    else match search (sampleExists s.live) down (s.sampleSize - 1) s.player.sampleId with
      | some n => p.setSample s.player n
      | none => s.player
  else if s.player.streamPlaying then
    let n := s.player.sampleId + 1
    if s.tagExists n then p.changePlaybackMode s.player .tag n
    else match search s.tagExists false (s.tagSize - 1) 1 with
      | some n => p.changePlaybackMode s.player .tag n
      | none => s.player
  else s.player

/-- The sample that the sequencer has next to the current one. -/
def nextOfSequence (p : Playback) (s : State) : Exec State :=
  if s.seq.active then do
    let pos := s.seq.current + (if s.player.speed < 0 then -1 else 1)
    let n ← readSlot s.seq.samples (if pos < 0 then 0 else pos)
    .ok (if sampleExists s.live n then { s with player := p.setSample s.player n } else s)
  else .ok s

/-- `vj_event_sample_next` -/
def vjEventSampleNext (p : Playback) (s : State) : Exec State := do
  let s ← nextOfSequence p s
  .ok { s with player := playNext p s }

/-- One round of `vj_perform_valid_sequence`: its state is `cur` and `cycle`. -/
def validRound (samples : List ℤ) (st : ℤ × Bool) : Exec (Round (ℤ × Bool) (Option ℤ)) := do
  let n ← readSlot samples st.1
  if n ≠ 0 then .ok (.leave (some st.1))
  else
    let cur := st.1 + 1
    if cur ≥ maxSequences ∧ st.2 = false then .ok (.again (0, true))
    else if cur ≥ maxSequences ∧ st.2 = true then .ok (.leave none)
    else .ok (.again (cur, st.2))

/-- `vj_perform_valid_sequence`: the slot, or none where there is no sample in any; no slot is looked at
more than twice. -/
def vjPerformValidSequence (seq : Seq) : Exec (Option ℤ) :=
  roundLoop (fun _ => true) (validRound seq.samples) (fun _ => none) (2 * (maxSequences + 1) + 1)
    (seq.current + 1, false)

/-- `vj_perform_try_sequence`, with `seq_play_sample` -/
def vjPerformTrySequence (p : Playback) (s : State) : Exec State := do
  if s.seq.active = false then .ok s
  else if 1 ≤ s.player.loopDec then do
    match (← vjPerformValidSequence s.seq) with
    | none => .ok { s with seq := { s.seq with active := false } }
    | some n => do
      -- the message names the sample of the slot that was current
      let _ ← readSlot s.seq.samples s.seq.current
      let id ← readSlot s.seq.samples n
      .ok { s with
        seq := { s.seq with current := n }
        player := p.setSampleF { s.player with loopDec := 0 } id }
  else .ok s

/-- `vj_event_sample_del` refuses to delete the sample that is played. -/
def deletes (s : State) (id : ℤ) : Bool :=
  !(s.player.samplePlaying && s.player.sampleId == id) && (sampleDel s.live id).1

/-- `vj_event_sample_del` -/
def vjEventSampleDel (s : State) (id : ℤ) : Exec State := do
  if deletes s id then do
    let samples ← emptySlots id s.seq.samples
    .ok { s with live := (sampleDel s.live id).2, seq := { s.seq with samples := samples } }
  else .ok s

/-- Where `vj_event_sample_clear_all` falls back to; none if it gives up. -/
def fallback (p : Playback) (s : State) : Option Player :=
  if s.player.samplePlaying then
    if s.hasVideo then some (p.changePlaybackMode s.player .plain 0)
    else if s.tagSize > 0 then some (p.changePlaybackMode s.player .tag 1)
    else none
  else some s.player

/-- `vj_event_sample_clear_all` -/
def vjEventSampleClearAll (p : Playback) (s : State) : Exec State :=
  match fallback p s with
  | none => .ok s
  | some player => do
    let samples ← resetSlots s.seq.samples
    .ok { s with
      player := player, live := fun _ => false, sampleSize := 0
      seq := { s.seq with active := false, size := 0, samples := samples } }

/-- The commands, a step of the player, and what else goes on: a sample is created, or something else is
played. -/
inductive Command where
  | add (seq id : ℤ)
  | del (seqIt : ℤ)
  | active (arg : ℤ)
  | next
  | trySequence
  | sampleDel (id : ℤ)
  | clearAll
  | created (id : ℤ) (sampleSize : ℤ)
  | played (player : Player)
  deriving DecidableEq, Repr

/-- A command is carried out. -/
def run (p : Playback) (s : State) : Command → Exec State
  | .add seq id => vjEventSequencerAddSample s seq id
  | .del seqIt => vjEventSequencerDelSample s seqIt
  | .active arg => .ok (vjEventSampleSequencerActive s arg)
  | .next => vjEventSampleNext p s
  | .trySequence => vjPerformTrySequence p s
  | .sampleDel id => vjEventSampleDel s id
  | .clearAll => vjEventSampleClearAll p s
  | .created id size => .ok { s with live := Function.update s.live id true, sampleSize := size }
  | .played player => .ok { s with player := player }

/-- A command as a step of a run. -/
def step (p : Playback) (s : State) (c : Command) : Exec (Unit × State) := do
  let s' ← run p s c
  .ok ((), s')

/-! ## What is kept -/

/-- A slot is in use. -/
def used (n : ℤ) : Bool := n ≠ 0

/-- The number of slots that are in use. -/
def Seq.filled (seq : Seq) : ℕ := seq.samples.countP used

/-- Every slot in use holds the id of a sample. -/
def SlotsLive (s : State) : Prop := ∀ n ∈ s.seq.samples, n ≠ 0 → sampleExists s.live n = true

/-- The slots and one that is always empty; the current one is a slot; what they hold is alive. -/
structure Kept (s : State) : Prop where
  slots : ∃ ys : List ℤ, ys.length = maxSequences ∧ s.seq.samples = ys ++ [0]
  current : 0 ≤ s.seq.current ∧ s.seq.current < maxSequences
  live : SlotsLive s

theorem kept_init {s : State} (hs : s.seq = Seq.init) : Kept s where
  slots := ⟨List.replicate maxSequences 0, List.length_replicate, by rw [hs]; rfl⟩
  current := by rw [hs]; decide
  live := by
    intro n hn hzero
    rw [hs] at hn
    exact absurd (List.eq_of_mem_replicate hn) hzero

/-! ### Slots -/

section Slots

variable {xs ys : List ℤ} {i n id : ℤ}

theorem readSlot_eq (h0 : 0 ≤ i) (hlen : i < xs.length) :
    ∃ n, xs[i.toNat]? = some n ∧ readSlot xs i = .ok n := by
  have hlt : i.toNat < xs.length := by omega
  have hget := List.getElem?_eq_getElem hlt
  exact ⟨_, hget, by rw [readSlot, if_pos h0, hget]⟩

/-- Writing to a slot. -/
theorem writeSlot_eq (hys : ys.length = maxSequences) (h0 : 0 ≤ i) (hlt : i < maxSequences) :
    writeSlot (ys ++ [0]) i n = .ok (ys.set i.toNat n ++ [0]) := by
  have hbound : i < (ys ++ [0]).length := by rw [List.length_append, hys]; push_cast; omega
  rw [writeSlot, if_pos ⟨h0, hbound⟩, List.set_append_left _ _ (by omega)]

/-- The count after a write. -/
theorem countP_set_used {k : ℕ} (hk : xs[k]? = some n) (v : ℤ) :
    (xs.set k v).countP used + (if n = 0 then 0 else 1) = xs.countP used + (if v = 0 then 0 else 1) := by
  induction xs generalizing k with
  | nil => cases hk
  | cons x xs ih =>
    cases k with
    | zero =>
      obtain rfl := Option.some.inj hk
      rw [List.set_cons_zero, List.countP_cons, List.countP_cons]
      unfold used
      by_cases hx : x = 0 <;> by_cases hv : v = 0 <;> simp [hx, hv]
    | succ k =>
      rw [List.set_cons_succ, List.countP_cons, List.countP_cons]
      have h := ih hk
      omega

/-- What a slot holds once a sample is deleted. -/
def emptied (id n : ℤ) : ℤ := if n = id then 0 else n

/-- The first slots are emptied one by one. -/
theorem emptySlot_foldlM (id : ℤ) (xs : List ℤ) : ∀ k : ℕ, k ≤ xs.length →
    (List.range k).foldlM (emptySlot id) xs = .ok ((xs.take k).map (emptied id) ++ xs.drop k)
  | 0, _ => by simp; rfl
  | k + 1, hk => by
    have hlt : k < xs.length := hk
    have hdrop : xs.drop k = xs[k] :: xs.drop (k + 1) := List.drop_eq_getElem_cons hlt
    have hhead : ((xs.take k).map (emptied id)).length = k := by
      rw [List.length_map, List.length_take, min_eq_left hlt.le]
    rw [List.range_succ, List.foldlM_append, emptySlot_foldlM id xs k hlt.le, ok_bind]
    simp only [List.foldlM_cons, List.foldlM_nil, bind_pure]
    rw [emptySlot, readSlot, if_pos (Int.natCast_nonneg k), Int.toNat_natCast, hdrop,
      List.getElem?_append_right hhead.le, hhead, Nat.sub_self]
    show (if xs[k] = id then writeSlot _ k 0 else .ok _) = _
    rw [List.take_add_one, List.getElem?_eq_getElem hlt, List.map_append, List.append_assoc]
    show _ = Except.ok (_ ++ ([emptied id xs[k]] ++ xs.drop (k + 1)))
    by_cases hid : xs[k] = id
    · have hbound : (k : ℤ) < ((xs.take k).map (emptied id) ++ xs[k] :: xs.drop (k + 1)).length := by
        rw [List.length_append, hhead, List.length_cons]
        push_cast
        omega
      rw [if_pos hid, writeSlot, if_pos ⟨Int.natCast_nonneg k, hbound⟩, Int.toNat_natCast,
        List.set_append_right _ _ hhead.le, hhead, Nat.sub_self, emptied, if_pos hid]
      rfl
    · rw [if_neg hid, emptied, if_neg hid]
      rfl

/-- The slots of a deleted sample. -/
theorem emptySlots_eq (hys : ys.length = maxSequences) :
    emptySlots id (ys ++ [0]) = .ok (ys.map (emptied id) ++ [0]) := by
  have hlen : maxSequences ≤ (ys ++ [0]).length := by rw [List.length_append, hys]; exact Nat.le_add_right _ _
  rw [emptySlots, emptySlot_foldlM id _ _ hlen, List.take_left' hys, List.drop_left' hys]

theorem resetSlots_eq (hys : ys.length = maxSequences) :
    resetSlots (ys ++ [0]) = .ok (List.replicate maxSequences 0 ++ [0]) := by
  have hlen : maxSequences ≤ (ys ++ [0]).length := by rw [List.length_append, hys]; exact Nat.le_add_right _ _
  rw [resetSlots, if_pos hlen, List.drop_left' hys]

/-- Emptying the slots of a sample leaves the others counted. -/
theorem countP_emptied (hid : id ≠ 0) (xs : List ℤ) :
    (xs.map (emptied id)).countP used + xs.count id = xs.countP used := by
  induction xs with
  | nil => rfl
  | cons x xs ih =>
    rw [List.map_cons, List.countP_cons, List.countP_cons, List.count_cons]
    by_cases hx : x = id
    · have hused : used id = true := decide_eq_true hid
      have hempty : used (emptied id id) = false := by rw [emptied, if_pos rfl]; rfl
      rw [hx, hused, hempty, beq_self_eq_true, if_neg Bool.false_ne_true, if_pos rfl]
      omega
    · rw [beq_false_of_ne hx, emptied, if_neg hx, if_neg Bool.false_ne_true]
      omega

/-- **The search for a slot in use** ends, inside the array, and finds one that is in use. -/
theorem vjPerformValidSequence_spec {seq : Seq} (hys : ys.length = maxSequences)
    (hsamples : seq.samples = ys ++ [0]) (hcur : 0 ≤ seq.current ∧ seq.current < maxSequences) :
    Ensures (vjPerformValidSequence seq) fun r => ∀ n, r = some n → 0 ≤ n ∧ n < maxSequences := by
  have hlen : seq.samples.length = maxSequences + 1 := by rw [hsamples, List.length_append, hys]; rfl
  have hround : ∀ st : ℤ × Bool, 0 ≤ st.1 → st.1 ≤ maxSequences →
      (∃ r, validRound seq.samples st = .ok (.leave r) ∧ ∀ n, r = some n → 0 ≤ n ∧ n < maxSequences) ∨
        ∃ st', validRound seq.samples st = .ok (.again st') ∧ 0 ≤ st'.1 ∧ st'.1 ≤ maxSequences ∧
          (bif st'.2 then 0 else maxSequences + 1) + (maxSequences - st'.1.toNat) <
            (bif st.2 then 0 else maxSequences + 1) + (maxSequences - st.1.toNat) := by
    rintro ⟨cur, cycle⟩ h0 hle
    dsimp only at h0 hle ⊢
    obtain ⟨n, hget, hread⟩ := @readSlot_eq seq.samples cur h0 (by rw [hlen]; push_cast; omega)
    unfold validRound
    rw [hread, ok_bind]
    by_cases hn : n = 0
    · simp only [hn, ne_eq, not_true_eq_false, if_false]
      by_cases hend : cur + 1 ≥ maxSequences
      · cases cycle with
        | false =>
          refine Or.inr ⟨(0, true), by rw [if_pos ⟨hend, rfl⟩], le_rfl, Int.natCast_nonneg _, ?_⟩
          show 0 + (maxSequences - 0) < maxSequences + 1 + _
          omega
        | true =>
          refine Or.inl ⟨none, by rw [if_neg (by simp), if_pos ⟨hend, rfl⟩], fun n h => by cases h⟩
      · refine Or.inr ⟨(cur + 1, cycle), by rw [if_neg (by omega), if_neg (by omega)], ?_⟩
        dsimp only
        omega
    · refine Or.inl ⟨some cur, by rw [if_pos hn], fun m hm => ?_⟩
      obtain rfl := Option.some.inj hm
      refine ⟨h0, lt_of_le_of_ne hle fun heq => hn ?_⟩
      rw [hsamples, heq, Int.toNat_natCast, List.getElem?_append_right hys.le, hys, Nat.sub_self] at hget
      exact (Option.some.inj hget).symm
  have hloop : ∀ (fuel : ℕ) (st : ℤ × Bool), 0 ≤ st.1 → st.1 ≤ maxSequences →
      (bif st.2 then 0 else maxSequences + 1) + (maxSequences - st.1.toNat) < fuel →
      Ensures (roundLoop (fun _ => true) (validRound seq.samples) (fun _ => none) fuel st)
        fun r => ∀ n, r = some n → 0 ≤ n ∧ n < maxSequences := by
    intro fuel
    induction fuel with
    | zero => exact fun st _ _ hfuel => absurd hfuel (Nat.not_lt_zero _)
    | succ fuel ih =>
      intro st h0 hle hfuel
      rcases hround st h0 hle with ⟨r, hr, hres⟩ | ⟨st', hr, h0', hle', hlower⟩
      · rw [roundLoop_leave rfl hr, ensures_ok]
        exact hres
      · rw [roundLoop_again rfl hr]
        exact ih st' h0' hle' (by omega)
  refine hloop _ _ (by dsimp only; omega) (by dsimp only; omega) ?_
  show maxSequences + 1 + _ < 2 * (maxSequences + 1) + 1
  omega

theorem countP_slots (ys : List ℤ) : (ys ++ [0]).countP used = ys.countP used := by
  rw [List.countP_append]
  rfl

end Slots

/-! ### Commands -/

/-- **When a command keeps the count right**: a sample is added to an empty slot, or all slots are counted
already; no slot in use is emptied, by hand or with its sample. -/
def Counted (s : State) : Command → Prop
  | .add seq id => 0 ≤ seq → seq < maxSequences → sampleExists s.live id = true →
      s.seq.samples[seq.toNat]? = some 0 ∨ maxSequences ≤ s.seq.size
  | .del seqIt => 0 ≤ seqIt → seqIt < maxSequences → s.seq.samples[seqIt.toNat]? = some 0
  | .sampleDel id => deletes s id = true → id ≠ 0 → id ∉ s.seq.samples
  | _ => True

/-- The count of the slots in use is right. -/
def SizeRight (s : State) : Prop := s.seq.size = s.seq.filled

instance (s : State) : Decidable (SizeRight s) := inferInstanceAs (Decidable (_ = _))

/-- What a command leaves behind. -/
structure Leaves (s : State) (c : Command) (s' : State) : Prop where
  kept : Kept s'
  counted : SizeRight s → (SizeRight s' ↔ Counted s c)

section Steps

variable {p : Playback} {s : State}

/-- A command that leaves the slots, their count and the samples as they are. -/
theorem Kept.same {c : Command} {s' : State} (hs : Kept s) (hsamples : s'.seq.samples = s.seq.samples)
    (hsize : s'.seq.size = s.seq.size) (hcurrent : 0 ≤ s'.seq.current ∧ s'.seq.current < maxSequences)
    (hlive : ∀ id, sampleExists s.live id = true → sampleExists s'.live id = true)
    (hcounted : Counted s c) : Leaves s c s' where
  kept :=
    { slots := by rw [hsamples]; exact hs.slots
      current := hcurrent
      live := by
        intro n hn hzero
        rw [hsamples] at hn
        exact hlive n (hs.live n hn hzero) }
  counted := by
    unfold SizeRight Seq.filled
    rw [hsamples, hsize]
    exact fun h => ⟨fun _ => hcounted, fun _ => h⟩

theorem add_spec (hs : Kept s) (seq id : ℤ) :
    ∃ s', vjEventSequencerAddSample s seq id = .ok s' ∧ Leaves s (.add seq id) s' := by
  unfold vjEventSequencerAddSample
  by_cases hrange : seq < 0 ∨ seq ≥ maxSequences
  · rw [if_pos hrange]
    exact ⟨s, rfl, hs.same rfl rfl hs.current (fun _ h => h) fun _ _ => by omega⟩
  rw [if_neg hrange]
  cases hexists : sampleExists s.live id with
  | false =>
    rw [if_neg Bool.false_ne_true]
    refine ⟨s, rfl, hs.same rfl rfl hs.current (fun _ h => h) fun _ _ h => ?_⟩
    rw [hexists] at h
    cases h
  | true =>
    obtain ⟨ys, hys, hsamples⟩ := hs.slots
    rw [if_pos rfl, hsamples, writeSlot_eq hys (by omega) (by omega), ok_bind]
    have hlt : seq.toNat < ys.length := by omega
    have hget : ys[seq.toNat]? = some ys[seq.toNat] := List.getElem?_eq_getElem hlt
    have hid : id ≠ 0 := by
      rintro rfl
      cases hexists
    refine ⟨_, rfl, ⟨⟨_, List.length_set.trans hys, rfl⟩, hs.current, ?_⟩, ?_⟩
    · intro n hn hzero
      rcases List.mem_append.mp hn with hn | hn
      · rcases List.mem_or_eq_of_mem_set hn with hn | rfl
        · exact hs.live n (by rw [hsamples]; exact List.mem_append_left _ hn) hzero
        · exact hexists
      · exact absurd (List.mem_singleton.mp hn) hzero
    · have hcount := countP_set_used hget id
      have hle : (ys.set seq.toNat id).countP used ≤ maxSequences :=
        List.countP_le_length.trans (List.length_set.trans hys).le
      rw [if_neg hid] at hcount
      unfold SizeRight Seq.filled Counted
      dsimp only
      rw [hsamples, countP_slots, countP_slots, List.getElem?_append_left hlt, hget]
      intro hsize
      have hslot : (0 ≤ seq → seq < maxSequences → sampleExists s.live id = true →
          some ys[seq.toNat] = some 0 ∨ (maxSequences : ℤ) ≤ s.seq.size) ↔
            (ys[seq.toNat] = 0 ∨ (maxSequences : ℤ) ≤ s.seq.size) :=
        ⟨fun h => (h (by omega) (by omega) hexists).imp_left Option.some.inj,
          fun h _ _ _ => h.imp_left (congrArg some)⟩
      rw [hslot]
      split_ifs at hcount ⊢ with hzero hfull <;> omega

theorem del_spec (hs : Kept s) (seqIt : ℤ) :
    ∃ s', vjEventSequencerDelSample s seqIt = .ok s' ∧ Leaves s (.del seqIt) s' := by
  unfold vjEventSequencerDelSample
  by_cases hrange : seqIt < 0 ∨ seqIt ≥ maxSequences
  · rw [if_pos hrange]
    exact ⟨s, rfl, hs.same rfl rfl hs.current (fun _ h => h) fun _ _ => by omega⟩
  rw [if_neg hrange]
  obtain ⟨ys, hys, hsamples⟩ := hs.slots
  have hlt : seqIt.toNat < ys.length := by omega
  have hget : s.seq.samples[seqIt.toNat]? = some ys[seqIt.toNat] := by
    rw [hsamples, List.getElem?_append_left hlt, List.getElem?_eq_getElem hlt]
  rw [readSlot, if_pos (by omega), hget]
  show ∃ s', (if ys[seqIt.toNat] ≠ 0 then _ else _) = _ ∧ _
  by_cases hzero : ys[seqIt.toNat] = 0
  · rw [if_neg (not_not.mpr hzero)]
    exact ⟨s, rfl, hs.same rfl rfl hs.current (fun _ h => h) fun _ _ => by rw [hget, hzero]⟩
  · rw [if_pos hzero, hsamples, writeSlot_eq hys (by omega) (by omega), ok_bind]
    refine ⟨_, rfl, ⟨⟨_, List.length_set.trans hys, rfl⟩, hs.current, ?_⟩, ?_⟩
    · intro n hn hzero'
      rcases List.mem_append.mp hn with hn | hn
      · rcases List.mem_or_eq_of_mem_set hn with hn | rfl
        · exact hs.live n (by rw [hsamples]; exact List.mem_append_left _ hn) hzero'
        · exact absurd rfl hzero'
      · exact absurd (List.mem_singleton.mp hn) hzero'
    · have hcount := countP_set_used (List.getElem?_eq_getElem hlt) 0
      rw [if_neg hzero, if_pos rfl] at hcount
      have hslot : ¬ Counted s (.del seqIt) := fun h => by
        have hsome := h (by omega) (by omega)
        rw [hget] at hsome
        exact hzero (Option.some.inj hsome)
      unfold SizeRight Seq.filled
      rw [hsamples, countP_slots]
      dsimp only
      rw [countP_slots]
      intro hsize
      exact ⟨fun h => by omega, fun h => absurd h hslot⟩

theorem active_spec (hs : Kept s) (arg : ℤ) :
    Leaves s (.active arg) (vjEventSampleSequencerActive s arg) := by
  unfold vjEventSampleSequencerActive
  split_ifs
  · exact hs.same rfl rfl hs.current (fun _ h => h) trivial
  · exact hs.same rfl rfl ⟨le_rfl, show (0 : ℤ) < maxSequences by decide⟩ (fun _ h => h) trivial
  · exact hs.same rfl rfl hs.current (fun _ h => h) trivial

theorem next_spec (hs : Kept s) : ∃ s', vjEventSampleNext p s = .ok s' ∧ Leaves s .next s' := by
  have hsame : ∀ player, Leaves s .next { s with player := player } := fun player =>
    hs.same rfl rfl hs.current (fun _ h => h) trivial
  have hfirst : ∃ player, nextOfSequence p s = .ok { s with player := player } := by
    unfold nextOfSequence
    cases hactive : s.seq.active with
    | false => exact ⟨s.player, by rw [if_neg Bool.false_ne_true]⟩
    | true =>
      obtain ⟨ys, hys, hsamples⟩ := hs.slots
      obtain ⟨h0, hlt⟩ := hs.current
      have hlen : s.seq.samples.length = maxSequences + 1 := by
        rw [hsamples, List.length_append, hys]
        rfl
      rw [if_pos rfl]
      have hbound : ∀ d : ℤ, d = -1 ∨ d = 1 → 0 ≤ (if s.seq.current + d < 0 then 0 else s.seq.current + d) ∧
          (if s.seq.current + d < 0 then 0 else s.seq.current + d) < s.seq.samples.length := by
        intro d hd
        rw [hlen]
        push_cast
        split_ifs <;> omega
      have hdir : (if s.player.speed < 0 then -1 else 1 : ℤ) = -1 ∨
          (if s.player.speed < 0 then -1 else 1 : ℤ) = 1 := by
        split_ifs
        · exact Or.inl rfl
        · exact Or.inr rfl
      obtain ⟨n, -, hread⟩ := readSlot_eq (hbound _ hdir).1 (hbound _ hdir).2
      dsimp only
      rw [hread, ok_bind]
      split_ifs
      · exact ⟨_, rfl⟩
      · exact ⟨s.player, rfl⟩
  obtain ⟨player, hplayer⟩ := hfirst
  rw [vjEventSampleNext, hplayer, ok_bind]
  exact ⟨_, rfl, hsame _⟩

theorem trySequence_spec (hs : Kept s) :
    ∃ s', vjPerformTrySequence p s = .ok s' ∧ Leaves s .trySequence s' := by
  unfold vjPerformTrySequence
  obtain ⟨ys, hys, hsamples⟩ := hs.slots
  have hlen : s.seq.samples.length = maxSequences + 1 := by rw [hsamples, List.length_append, hys]; rfl
  have hstay : Leaves s .trySequence s := hs.same rfl rfl hs.current (fun _ h => h) trivial
  split_ifs with hactive hloop
  · exact ⟨s, rfl, hstay⟩
  · obtain ⟨r, hr, hin⟩ := vjPerformValidSequence_spec hys hsamples hs.current
    rw [hr, ok_bind]
    cases r with
    | none => exact ⟨_, rfl, hs.same rfl rfl hs.current (fun _ h => h) trivial⟩
    | some n =>
      obtain ⟨h0, hlt⟩ := hin n rfl
      obtain ⟨old, -, hold⟩ := @readSlot_eq s.seq.samples s.seq.current hs.current.1
        (by rw [hlen]; push_cast; have := hs.current.2; omega)
      obtain ⟨id, -, hid⟩ := @readSlot_eq s.seq.samples n h0 (by rw [hlen]; push_cast; omega)
      dsimp only
      rw [hold, ok_bind, hid, ok_bind]
      exact ⟨_, rfl, hs.same rfl rfl ⟨h0, hlt⟩ (fun _ h => h) trivial⟩
  · exact ⟨s, rfl, hstay⟩

theorem sampleDel_spec (hs : Kept s) (id : ℤ) :
    ∃ s', vjEventSampleDel s id = .ok s' ∧ Leaves s (.sampleDel id) s' := by
  unfold vjEventSampleDel
  cases hdel : deletes s id with
  | false =>
    rw [if_neg Bool.false_ne_true]
    refine ⟨s, rfl, hs.same rfl rfl hs.current (fun _ h => h) fun h => ?_⟩
    rw [hdel] at h
    cases h
  | true =>
    obtain ⟨ys, hys, hsamples⟩ := hs.slots
    rw [if_pos rfl, hsamples, emptySlots_eq hys, ok_bind]
    have hleft : (sampleDel s.live id).2 = Function.update s.live id false := by
      unfold deletes sampleDel at hdel
      unfold sampleDel
      split_ifs at hdel ⊢ with hgone
      · simp at hdel
      · rfl
    refine ⟨_, rfl, ⟨⟨_, (List.length_map _).trans hys, rfl⟩, hs.current, ?_⟩, ?_⟩
    · intro n hn hzero
      dsimp only at hn ⊢
      rw [hleft]
      rcases List.mem_append.mp hn with hn | hn
      · obtain ⟨m, hm, rfl⟩ := List.mem_map.mp hn
        have hne : m ≠ id := fun heq => hzero (by rw [emptied, if_pos heq])
        rw [emptied, if_neg hne] at hzero ⊢
        have hlive := hs.live m (by rw [hsamples]; exact List.mem_append_left _ hm) hzero
        unfold sampleExists at hlive ⊢
        rw [Function.update_of_ne hne]
        exact hlive
      · exact absurd (List.mem_singleton.mp hn) hzero
    · unfold SizeRight Seq.filled Counted
      dsimp only
      rw [hsamples, countP_slots, countP_slots, hdel]
      intro hsize
      by_cases hid : id = 0
      · have hsame : ys.map (emptied id) = ys := by
          refine List.map_id'' (fun n => ?_) ys
          unfold emptied
          split_ifs with h
          · rw [h, hid]
          · rfl
        rw [hsame]
        exact ⟨fun _ _ hne => absurd hid hne, fun _ => hsize⟩
      · have hcount := countP_emptied hid ys
        have hmem : id ∉ ys ++ [0] ↔ ys.count id = 0 := by
          rw [List.count_eq_zero, List.mem_append, List.mem_singleton]
          exact ⟨fun h hmem => h (Or.inl hmem), fun h hmem => hmem.elim h hid⟩
        rw [hmem]
        constructor
        · intro h _ _
          omega
        · intro h
          have hnone := h rfl hid
          omega

theorem clearAll_spec (hs : Kept s) :
    ∃ s', vjEventSampleClearAll p s = .ok s' ∧ Leaves s .clearAll s' := by
  unfold vjEventSampleClearAll
  cases fallback p s with
  | none => exact ⟨s, rfl, hs.same rfl rfl hs.current (fun _ h => h) trivial⟩
  | some player =>
    obtain ⟨ys, hys, hsamples⟩ := hs.slots
    dsimp only
    rw [hsamples, resetSlots_eq hys, ok_bind]
    refine ⟨_, rfl, ⟨⟨_, List.length_replicate, rfl⟩, hs.current, ?_⟩, ?_⟩
    · intro n hn hzero
      rcases List.mem_append.mp hn with hn | hn
      · exact absurd (List.eq_of_mem_replicate hn) hzero
      · exact absurd (List.mem_singleton.mp hn) hzero
    · have hempty : (0 : ℤ) = ((List.replicate maxSequences 0 ++ [0]).countP used : ℕ) := by decide
      exact fun _ => ⟨fun _ => trivial, fun _ => hempty⟩

/-- **What a command leaves behind**: it returns, it keeps the sequencer in order, and the count right
exactly under its condition. -/
theorem run_spec (p : Playback) (hs : Kept s) (c : Command) : ∃ s', run p s c = .ok s' ∧ Leaves s c s' := by
  cases c with
  | add seq id => exact add_spec hs seq id
  | del seqIt => exact del_spec hs seqIt
  | active arg => exact ⟨_, rfl, active_spec hs arg⟩
  | next => exact next_spec hs
  | trySequence => exact trySequence_spec hs
  | sampleDel id => exact sampleDel_spec hs id
  | clearAll => exact clearAll_spec hs
  | created id size =>
    refine ⟨_, rfl, hs.same rfl rfl hs.current (fun k hk => ?_) trivial⟩
    unfold sampleExists at hk ⊢
    dsimp only
    by_cases heq : k = id
    · rw [heq] at hk ⊢
      rw [Function.update_self, Bool.and_true]
      exact (Bool.and_eq_true_iff.mp hk).1
    · rw [Function.update_of_ne heq]
      exact hk
  | played player => exact ⟨_, rfl, hs.same rfl rfl hs.current (fun _ h => h) trivial⟩

end Steps

/-! ## Runs -/

/-- **The sequencer over every run of commands**: no command reads or writes outside the slots, and every
slot in use holds the id of a sample; and the count of the slots in use is right in every state reached
exactly if every command meets its condition. -/
theorem sequencer_iff (p : Playback) {s : State} (hs : s.seq = Seq.init) (cs : List Command) :
    (Ensures (runOps (step p) s cs) fun a => SlotsLive a.2) ∧
      ((∀ pre, pre <+: cs → Ensures (runOps (step p) s pre) fun a => SizeRight a.2) ↔
        RunMeets (step p) Counted s cs) := by
  have hstep : ∀ (s : State) (c : Command), Kept s → ∃ s', step p s c = .ok ((), s') ∧ Leaves s c s' := by
    intro s c hs
    obtain ⟨s', hrun, hleaves⟩ := run_spec p hs c
    exact ⟨s', by rw [step, hrun, ok_bind], hleaves⟩
  constructor
  · have hkept : Ensures (runOps (step p) s cs) fun a => Kept a.2 := by
      refine runOps_ensures (fun s c hs _ => ?_) cs s (kept_init hs)
        (@RunMeets.of_forall _ _ _ (step p) (fun _ _ => True) (fun _ _ => trivial) cs s)
      obtain ⟨s', hrun, hleaves⟩ := hstep s c hs
      exact ⟨_, hrun, hleaves.kept⟩
    exact hkept.mono fun a ha => ha.live
  · refine runOps_keeps_iff (fun s c hs hright => ?_) (kept_init hs) ?_ cs
    · obtain ⟨s', hrun, hleaves⟩ := hstep s c hs
      exact ⟨(), s', hrun, hleaves.kept, hleaves.counted hright⟩
    · unfold SizeRight Seq.filled
      rw [hs]
      decide

/-- A player that plays the sample of the given id. -/
def plainPlayback : Playback where
  setSample p n := { p with sampleId := n }
  setSampleF p n := { p with sampleId := n }
  changePlaybackMode p mode n := { p with playbackMode := mode, sampleId := n }

/-- Three samples, of which the first one is played. -/
def threeSamples : State where
  seq := Seq.init
  live := fun id => decide (1 ≤ id ∧ id ≤ 3)
  sampleSize := 4
  player := { playbackMode := .sample, rmode := .sample, sampleId := 1, speed := 1, loopDec := 0 }
  hasVideo := true
  tagExists := fun _ => false
  tagSize := 0

/-- Two samples are added, and played in turn. -/
theorem sequencer_intro :
    (Ensures (runOps (step plainPlayback) threeSamples [.add 0 2, .add 7 3, .active 1, .next]) fun a =>
        SlotsLive a.2) ∧
      Ensures (runOps (step plainPlayback) threeSamples [.add 0 2, .add 7 3]) fun a => SizeRight a.2 := by
  refine ⟨(sequencer_iff plainPlayback rfl _).1, (sequencer_iff plainPlayback rfl _).2.mpr ?_ _ List.prefix_rfl⟩
  refine RunMeets.cons (r := ()) (fun _ _ _ => Or.inl rfl) rfl ?_
  exact RunMeets.cons (r := ()) (fun _ _ _ => Or.inl rfl) rfl trivial

/-- A sample is added to a slot, and the slot is emptied again: one slot in use is counted. -/
theorem sequencer_miscounts : ¬ ∀ (p : Playback) (s : State), s.seq = Seq.init → ∀ cs : List Command,
    Ensures (runOps (step p) s cs) fun a => SizeRight a.2 := by
  intro h
  obtain ⟨a, ha, hright⟩ := h plainPlayback threeSamples rfl [.add 0 2, .del 0]
  obtain rfl := Except.ok.inj (show Except.ok _ = Except.ok a from ha)
  exact absurd hright (by decide)

end Veejay.Sequencer
