import Veejay.Effects.Activation

/-!
# The sources that are mixed in

An entry of an effect chain mixes in a sample or a stream.  The commands on the source type and the channel of an
entry look for something to mix in by themselves (`veejay/vj-event.c`): where the channel is not the id of a sample or
a stream, two of them take the last id there was, whether it is still there or not.

* `Holder`, `Stream`, `State` — the samples and the streams with their chains;
* `togglePart`, … — what a handler does for samples and again for streams, and `runParts`, both together;
* `Denotes`, `AllLive` — every entry mixes in a sample or a stream that there is;
* `Fits` — the commands after which it still does;
* `sources_live_iff` — **these are exactly the runs in which all sources exist**.
-/

namespace Veejay.MixSources

open CLib Veejay.Samples
open Veejay.Effects (position)

/-! ## Samples and streams -/

/-- The handlers do the same for samples and for streams. -/
inductive Kind where
  | sample
  | stream
  deriving DecidableEq

/-- What a `source_type` stands for: `VJ_TAG_TYPE_NONE` is a sample, all others are streams. -/
def kindOf (sourceType : ℤ) : Kind := if sourceType = 0 then .sample else .stream

/-- A sample or a stream, as far as its chain goes. -/
structure Holder where
  chain : Chain
  selectedEntry : Fin sampleMaxEffects

/-- A stream: `vj_tag_new` makes none of type `VJ_TAG_TYPE_NONE`. -/
structure Stream extends Holder where
  sourceType : ℤ
  notNone : sourceType ≠ 0

/-- The samples and the streams by their ids, `this_sample_id`, `this_tag_id`, and what is played. -/
structure State where
  samples : ℤ → Option Holder
  streams : ℤ → Option Stream
  sampleSize : ℤ
  tagSize : ℤ
  playing : ℤ
  samplePlaying : Bool
  streamPlaying : Bool

/-- `sample_get`, `vj_tag_get` -/
def State.holder (st : State) : Kind → ℤ → Option Holder
  | .sample, id => st.samples id
  | .stream, id => (st.streams id).map Stream.toHolder

/-- `sample_size`, `vj_tag_size` -/
def State.size (st : State) : Kind → ℤ
  | .sample => st.sampleSize
  | .stream => st.tagSize

/-- `sample_exists`, `vj_tag_exists` -/
def State.live (st : State) (k : Kind) (id : ℤ) : Bool := id ≠ 0 && (st.holder k id).isSome

/-- `vj_tag_get_type` -/
def vjTagGetType (st : State) (id : ℤ) : ℤ := (st.streams id).elim (-1) Stream.sourceType

/-- `sample_get_selected_entry`, `vj_tag_get_selected_entry` -/
def State.selectedEntry (st : State) (k : Kind) (id : ℤ) : ℤ :=
  (st.holder k id).elim (-1) fun h => (h.selectedEntry : ℕ)

/-- The entry of a chain, if there is one. -/
def State.entry (st : State) (k : Kind) (id pos : ℤ) : Option MixEntry := do
  let h ← st.holder k id
  let c ← position pos
  some (h.chain c)

/-- `sample_get_chain_channel`, `vj_tag_get_chain_channel` -/
def State.chainChannel (st : State) (k : Kind) (id pos : ℤ) : ℤ := (st.entry k id pos).elim (-1) MixEntry.channel

/-- `sample_get_chain_source`, `vj_tag_get_chain_source` -/
def State.chainSource (st : State) (k : Kind) (id pos : ℤ) : ℤ := (st.entry k id pos).elim (-1) MixEntry.sourceType

/-- An entry of the chain is changed, if there is one. -/
def Holder.edit (pos : ℤ) (f : MixEntry → MixEntry) (h : Holder) : Holder :=
  match position pos with
  | none => h
  | some c => { h with chain := Function.update h.chain c (f (h.chain c)) }

/-- An entry of the chain of a sample or a stream is changed. -/
def State.modify (st : State) (k : Kind) (id pos : ℤ) (f : MixEntry → MixEntry) : State :=
  match k with
  | .sample => { st with samples := Function.update st.samples id ((st.samples id).map (Holder.edit pos f)) }
  | .stream =>
    { st with
      streams := Function.update st.streams id
        ((st.streams id).map fun s => { s with toHolder := s.toHolder.edit pos f }) }

/-- `sample_set_chain_channel`, `vj_tag_set_chain_channel` -/
def State.setChannel (st : State) (k : Kind) (id pos input : ℤ) : State :=
  st.modify k id pos fun e => { e with channel := input }

/-- `sample_set_chain_source`, `vj_tag_set_chain_source` -/
def State.setSource (st : State) (k : Kind) (id pos input : ℤ) : State :=
  st.modify k id pos fun e => { e with sourceType := input }

/-! ## Handlers -/

/-- What a handler does for samples or for streams: whether it returns, its arguments, and the state after it. -/
abbrev Part (α : Type) := Kind → α → State → Bool × α × State

/-- First `if (SAMPLE_PLAYING (v))`, then `if (STREAM_PLAYING (v))`. -/
def runParts {α : Type} (part : Part α) (a : α) (st : State) : State :=
  let r := if st.samplePlaying then part .sample a st else (false, a, st)
  if r.1 then r.2.2
  else if r.2.2.streamPlaying then (part .stream r.2.1 r.2.2).2.2
  else r.2.2

/-- A channel that is not there is replaced by the last id, which is not looked up. -/
def fallback (st : State) (k : Kind) (c : ℤ) : Option ℤ :=
  if st.live k c then some c else if st.size k - 1 ≤ 0 then none else some (st.size k - 1)

/-- The other kind of source: any stream becomes a sample. -/
def toggled (src : ℤ) : ℤ := if src = 0 then 1 else 0

/-- A part of `vj_event_chain_entry_src_toggle`. -/
def togglePart : Part Unit := fun k _ st =>
  let entry := st.selectedEntry k st.playing
  let src := toggled (st.chainSource k st.playing entry)
  match fallback st (kindOf src) (st.chainChannel k st.playing entry) with
  | none => (true, (), st)
  | some cha => (false, (), (st.setSource k st.playing entry src).setChannel k st.playing entry cha)

/-- The sample or stream and the entry that the first two arguments name. -/
def resolve (st : State) (k : Kind) (a : ℤ × ℤ) : ℤ × ℤ :=
  (if a.1 = 0 then st.playing else a.1, if a.2 = -1 then st.selectedEntry k st.playing else a.2)

/-- A part of `vj_event_chain_entry_source`. -/
def sourcePart (a2 : ℤ) : Part (ℤ × ℤ) := fun k a st =>
  let a := resolve st k a
  if (position a.2).isNone then (true, a, st)
  else if st.live k a.1 then
    let c := st.chainChannel k a.1 a.2
    match fallback st (kindOf a2) c with
    | none => (true, a, st)
    | some c' =>
      let src := if kindOf a2 = .stream ∧ st.live .stream c = false then vjTagGetType st c' else a2
      if c' > 0 then (false, a, (st.setChannel k a.1 a.2 c').setSource k a.1 a.2 src) else (false, a, st)
  else (false, a, st)

/-- A part of `vj_event_chain_entry_channel_inc`, and of `vj_event_chain_entry_channel_dec` for `-n`.  The value of
`clamp_channel` is not used. -/
def incPart (n : ℤ) : Part Unit := fun k _ st =>
  let entry := st.selectedEntry k st.playing
  let cha := st.chainChannel k st.playing entry
  let src := st.chainSource k st.playing entry
  if st.size (kindOf src) - 1 ≤ 0 then (true, (), st)
  else
    (false, (), st.setChannel k st.playing entry (if st.live (kindOf src) (cha + n) then cha + n else cha))

/-- A part of `vj_event_chain_entry_channel`. -/
def channelPart (a2 : ℤ) : Part (ℤ × ℤ) := fun k a st =>
  let a := resolve st k a
  if (position a.2).isNone then (true, a, st)
  else if st.live k a.1 ∧ st.live (kindOf (st.chainSource k a.1 a.2)) a2 then
    (false, a, st.setChannel k a.1 a.2 a2)
  else (false, a, st)

/-- The last *sample* is meant by -1, by streams too. -/
def resolveLast (st : State) (k : Kind) (a : ℤ × ℤ) : ℤ × ℤ :=
  let a := resolve st k a
  (if a.1 = -1 then st.sampleSize - 1 else a.1, a.2)

/-- A part of `vj_event_chain_entry_srccha`. -/
def srcchaPart (a2 a3 : ℤ) : Part (ℤ × ℤ) := fun k a st =>
  let a := resolveLast st k a
  if (position a.2).isNone then (true, a, st)
  else if st.live k a.1 ∧ st.live (kindOf a2) a3 then
    (false, a, (st.setSource k a.1 a.2 a2).setChannel k a.1 a.2 a3)
  else (false, a, st)

/-- The commands with their arguments. -/
inductive MixCommand where
  | toggle
  | source (a0 a1 a2 : ℤ)
  | channel (a0 a1 a2 : ℤ)
  | srccha (a0 a1 a2 a3 : ℤ)
  | channelInc (a0 : ℤ)
  | channelDec (a0 : ℤ)

/-- One command. -/
def MixCommand.run (st : State) : MixCommand → State
  | .toggle => runParts togglePart () st
  | .source a0 a1 a2 => runParts (sourcePart a2) (a0, a1) st
  | .channel a0 a1 a2 => runParts (channelPart a2) (a0, a1) st
  | .srccha a0 a1 a2 a3 => runParts (srcchaPart a2 a3) (a0, a1) st
  | .channelInc a0 => runParts (incPart a0) () st
  | .channelDec a0 => runParts (incPart (-a0)) () st

/-- One command of a run. -/
def mixStep (st : State) (command : MixCommand) : Exec (Unit × State) := .ok ((), command.run st)

/-! ## Live sources -/

/-- The entry mixes in a sample or a stream that there is. -/
def Denotes (st : State) (e : MixEntry) : Prop := st.live (kindOf e.sourceType) e.channel = true

/-- All entries of the samples, or of the streams, do. -/
def LiveIn (k : Kind) (st : State) : Prop := ∀ id h, st.holder k id = some h → ∀ c, Denotes st (h.chain c)

/-- **Every entry of every chain mixes in a sample or a stream that there is.** -/
def AllLive (st : State) : Prop := ∀ k, LiveIn k st

/-- The channel is there, or the last id is, or nothing ever was. -/
def Safe (st : State) (k : Kind) (c : ℤ) : Prop :=
  st.live k c = true ∨ st.size k ≤ 1 ∨ st.live k (st.size k - 1) = true

/-- What the parts of a handler ask for: the second part is run if the first does not return, with its arguments. -/
def PartsFit {α : Type} (goes fits : Kind → α → State → Prop) (next : Kind → α → State → α) (a : α) (st : State) :
    Prop :=
  (st.samplePlaying = true → fits .sample a st) ∧
    (st.streamPlaying = true → (st.samplePlaying = true → goes .sample a st) →
      fits .stream (if st.samplePlaying = true then next .sample a st else a) st)

/-- The part of the toggle does not return. -/
def ToggleGoes (k : Kind) (_ : Unit) (st : State) : Prop :=
  let entry := st.selectedEntry k st.playing
  let src := toggled (st.chainSource k st.playing entry)
  st.live (kindOf src) (st.chainChannel k st.playing entry) = true ∨ 1 < st.size (kindOf src)

/-- The selected entry finds something of the other kind. -/
def ToggleFits (k : Kind) (_ : Unit) (st : State) : Prop :=
  ∀ h, st.holder k st.playing = some h →
    Safe st (kindOf (toggled (h.chain h.selectedEntry).sourceType)) (h.chain h.selectedEntry).channel

/-- The part of the source command does not return. -/
def SourceGoes (a2 : ℤ) (k : Kind) (a : ℤ × ℤ) (st : State) : Prop :=
  let a := resolve st k a
  position a.2 ≠ none ∧ (st.live k a.1 = true →
    st.live (kindOf a2) (st.chainChannel k a.1 a.2) = true ∨ 1 < st.size (kindOf a2))

/-- The entry finds something of the kind that is set. -/
def SourceFits (a2 : ℤ) (k : Kind) (a : ℤ × ℤ) (st : State) : Prop :=
  let a := resolve st k a
  st.live k a.1 = true → ∀ h c, st.holder k a.1 = some h → position a.2 = some c →
    Safe st (kindOf a2) (h.chain c).channel

/-- The commands that find a source: only those that set the type of a source may miss one. -/
def Fits (st : State) : MixCommand → Prop
  | .toggle => PartsFit ToggleGoes ToggleFits (fun _ a _ => a) () st
  | .source a0 a1 a2 => PartsFit (SourceGoes a2) (SourceFits a2) (fun k a st => resolve st k a) (a0, a1) st
  | _ => True

/-! ## Changes to one entry -/

section Changes

variable {st st' : State} {k : Kind} {id pos : ℤ} {f : MixEntry → MixEntry}

theorem holder_modify (st : State) (k : Kind) (id pos : ℤ) (f : MixEntry → MixEntry) (k' : Kind) (id' : ℤ) :
    (st.modify k id pos f).holder k' id' =
      if k' = k ∧ id' = id then (st.holder k id).map (Holder.edit pos f) else st.holder k' id' := by
  cases k <;> cases k'
  case sample.sample =>
    show Function.update st.samples id _ id' = _
    rw [Function.update_apply]
    simp only [true_and]
    rfl
  case stream.stream =>
    show (Function.update st.streams id _ id').map _ = _
    rw [Function.update_apply]
    simp only [true_and]
    split_ifs
    · show ((st.streams id).map _).map _ = ((st.streams id).map _).map _
      rw [Option.map_map, Option.map_map]
      rfl
    · rfl
  all_goals
    rw [if_neg fun h => nomatch h.1]
    rfl

theorem edit_edit (pos : ℤ) (f g : MixEntry → MixEntry) (h : Holder) :
    (h.edit pos f).edit pos g = h.edit pos (g ∘ f) := by
  unfold Holder.edit
  cases position pos with
  | none => rfl
  | some c =>
    simp only [Function.update_idem, Function.update_self, Function.comp_apply]

theorem modify_modify (st : State) (k : Kind) (id pos : ℤ) (f g : MixEntry → MixEntry) :
    (st.modify k id pos f).modify k id pos g = st.modify k id pos (g ∘ f) := by
  cases k with
  | sample =>
    unfold State.modify
    dsimp only
    rw [Function.update_idem, Function.update_self, Option.map_map]
    congr 3
    funext h
    exact edit_edit pos f g h
  | stream =>
    unfold State.modify
    dsimp only
    rw [Function.update_idem, Function.update_self, Option.map_map]
    congr 3
    funext s
    show ({ s with toHolder := (s.toHolder.edit pos f).edit pos g } : Stream) = _
    rw [edit_edit]

/-- What a part leaves alone: which samples and streams there are, what is played, and the chains of the others. -/
structure Frame (k : Kind) (st st' : State) : Prop where
  other : ∀ k', k' ≠ k → ∀ id, st'.holder k' id = st.holder k' id
  isSome : ∀ id, (st'.holder k id).isSome = (st.holder k id).isSome
  types : ∀ id, vjTagGetType st' id = vjTagGetType st id
  size : ∀ k', st'.size k' = st.size k'
  playing : st'.playing = st.playing
  samplePlaying : st'.samplePlaying = st.samplePlaying
  streamPlaying : st'.streamPlaying = st.streamPlaying

theorem Frame.refl (k : Kind) (st : State) : Frame k st st :=
  ⟨fun _ _ _ => rfl, fun _ => rfl, fun _ => rfl, fun _ => rfl, rfl, rfl, rfl⟩

theorem Frame.modify (st : State) (k : Kind) (id pos : ℤ) (f : MixEntry → MixEntry) :
    Frame k st (st.modify k id pos f) where
  other k' hk id' := by rw [holder_modify, if_neg fun h => hk h.1]
  isSome id' := by
    rw [holder_modify]
    split_ifs with h
    · rw [h.2, Option.isSome_map]
    · rfl
  types id' := by
    cases k with
    | sample => rfl
    | stream =>
      show (Function.update st.streams id _ id').elim _ _ = _
      rw [Function.update_apply]
      split_ifs with h
      · rw [vjTagGetType, h]
        cases st.streams id <;> rfl
      · rfl
  size k' := by cases k <;> cases k' <;> rfl
  playing := by cases k <;> rfl
  samplePlaying := by cases k <;> rfl
  streamPlaying := by cases k <;> rfl

theorem Frame.live (h : Frame k st st') (k' : Kind) (id : ℤ) : st'.live k' id = st.live k' id := by
  unfold State.live
  by_cases hk : k' = k
  · rw [hk, h.isSome]
  · rw [h.other k' hk]

theorem Frame.denotes (h : Frame k st st') (e : MixEntry) : Denotes st' e ↔ Denotes st e := by
  rw [Denotes, Denotes, h.live]

theorem Frame.liveIn (h : Frame k st st') {k' : Kind} (hk : k' ≠ k) : LiveIn k' st' ↔ LiveIn k' st := by
  unfold LiveIn
  simp only [h.other k' hk, h.denotes]

/-- **A changed entry** is the only one to look at. -/
theorem modify_liveIn (hlive : LiveIn k st) :
    LiveIn k (st.modify k id pos f) ↔
      ∀ h c, st.holder k id = some h → position pos = some c → Denotes st (f (h.chain c)) := by
  have hframe := Frame.modify st k id pos f
  constructor
  · intro hall h c hh hc
    have hnew := hall id (h.edit pos f) (by rw [holder_modify, if_pos ⟨rfl, rfl⟩, hh, Option.map_some]) c
    rw [hframe.denotes, Holder.edit, hc] at hnew
    dsimp only at hnew
    rwa [Function.update_self] at hnew
  · intro hentry id' h' hh' c
    rw [hframe.denotes]
    rw [holder_modify] at hh'
    split_ifs at hh' with hid
    · obtain ⟨h, hh, rfl⟩ := Option.map_eq_some_iff.mp hh'
      have hold := hlive id h hh
      unfold Holder.edit
      cases hpos : position pos with
      | none => exact hold c
      | some c' =>
        dsimp only
        rw [Function.update_apply]
        split_ifs with hc
        · rw [hc] at *
          exact hentry h c' hh hpos
        · exact hold c
    · exact hlive id' h' hh' c

end Changes

/-! ## Parts of handlers -/

/-- What a part does, and when the entries of its kind still find a source. -/
structure Spec {α : Type} (part : Part α) (goes fits : Kind → α → State → Prop) (next : Kind → α → State → α) :
    Prop where
  frame : ∀ k a st, Frame k st (part k a st).2.2
  returns : ∀ k a st, (part k a st).1 = true ↔ ¬ goes k a st
  next_eq : ∀ k a st, (part k a st).2.1 = next k a st
  liveIn : ∀ k a st, LiveIn k st → (LiveIn k (part k a st).2.2 ↔ fits k a st)
  congr : ∀ a st st', Frame .sample st st' → (fits .stream a st' ↔ fits .stream a st)

/-- **Both parts** leave all sources live exactly if each does. -/
theorem Spec.runParts_iff {α : Type} {part : Part α} {goes fits : Kind → α → State → Prop}
    {next : Kind → α → State → α} (h : Spec part goes fits next) {a : α} {st : State} (hlive : AllLive st) :
    AllLive (runParts part a st) ↔ PartsFit goes fits next a st := by
  have hall : ∀ st : State, AllLive st ↔ LiveIn .sample st ∧ LiveIn .stream st := fun st =>
    ⟨fun h => ⟨h .sample, h .stream⟩, fun h k => match k with | .sample => h.1 | .stream => h.2⟩
  have hstream : ∀ (a : α) (st : State), LiveIn .sample (part .stream a st).2.2 ↔ LiveIn .sample st :=
    fun a st => (h.frame .stream a st).liveIn (by decide)
  rw [hall]
  unfold runParts PartsFit
  by_cases hplay : st.samplePlaying = true
  · have hframe := h.frame .sample a st
    have hsample := h.liveIn .sample a st (hlive .sample)
    have hother : LiveIn .stream (part .sample a st).2.2 := (hframe.liveIn (by decide)).mpr (hlive .stream)
    simp only [hplay, if_true, true_imp_iff]
    by_cases hret : (part .sample a st).1 = true
    · have hgoes := (h.returns .sample a st).mp hret
      rw [if_pos hret, hsample]
      exact ⟨fun hs => ⟨hs.1, fun _ hg => absurd hg hgoes⟩, fun hs => ⟨hs.1, hother⟩⟩
    · have hgoes : goes .sample a st := not_not.mp fun hg => hret ((h.returns .sample a st).mpr hg)
      rw [if_neg hret, hframe.streamPlaying, h.next_eq .sample a st]
      by_cases htag : st.streamPlaying = true
      · rw [if_pos htag, hstream, hsample, h.liveIn .stream _ _ hother, h.congr _ _ _ hframe]
        exact ⟨fun hs => ⟨hs.1, fun _ _ => hs.2⟩, fun hs => ⟨hs.1, hs.2 htag hgoes⟩⟩
      · rw [if_neg htag, hsample]
        exact ⟨fun hs => ⟨hs.1, fun ht => absurd ht htag⟩, fun hs => ⟨hs.1, hother⟩⟩
  · simp only [hplay, if_false, false_imp_iff, true_and, true_imp_iff, Bool.false_eq_true]
    by_cases htag : st.streamPlaying = true
    · rw [if_pos htag, hstream, h.liveIn .stream a st (hlive .stream)]
      exact ⟨fun hs _ => hs.2, fun hs => ⟨hlive .sample, hs htag⟩⟩
    · rw [if_neg htag]
      exact ⟨fun _ ht => absurd ht htag, fun _ => ⟨hlive .sample, hlive .stream⟩⟩

section Parts

variable {st : State} {k : Kind} {c c' : ℤ}

theorem fallback_none (h : fallback st k c = none) : st.live k c = false ∧ st.size k ≤ 1 := by
  unfold fallback at h
  split_ifs at h with hlive hsize
  exact ⟨Bool.eq_false_iff.mpr hlive, by omega⟩

theorem fallback_some (h : fallback st k c = some c') :
    st.live k c = true ∧ c' = c ∨ st.live k c = false ∧ 1 < st.size k ∧ c' = st.size k - 1 := by
  unfold fallback at h
  split_ifs at h with hlive hsize
  · exact .inl ⟨hlive, (Option.some.inj h).symm⟩
  · exact .inr ⟨Bool.eq_false_iff.mpr hlive, by omega, (Option.some.inj h).symm⟩

theorem safe_of_none (h : fallback st k c = none) : Safe st k c := .inr (.inl (fallback_none h).2)

/-- What is found is there exactly in the safe cases. -/
theorem safe_iff (h : fallback st k c = some c') : st.live k c' = true ↔ Safe st k c := by
  unfold Safe
  rcases fallback_some h with ⟨hlive, rfl⟩ | ⟨hdead, hsize, rfl⟩
  · exact ⟨fun _ => .inl hlive, fun _ => hlive⟩
  · refine ⟨fun hlast => .inr (.inr hlast), fun hsafe => ?_⟩
    rcases hsafe with hlive | hle | hlast
    · rw [hdead] at hlive
      cases hlive
    · omega
    · exact hlast

/-- The selected entry of what is played. -/
theorem selected_eq {id : ℤ} {h : Holder} (hh : st.holder k id = some h) :
    position (st.selectedEntry k id) = some h.selectedEntry ∧
      st.entry k id (st.selectedEntry k id) = some (h.chain h.selectedEntry) := by
  have hsel : st.selectedEntry k id = (h.selectedEntry : ℕ) := by
    rw [State.selectedEntry, hh]
    rfl
  have hpos := Effects.position_fin h.selectedEntry
  rw [hsel, State.entry, hh]
  refine ⟨hpos, ?_⟩
  show ((position (h.selectedEntry : ℕ)).bind fun c => some (h.chain c)) = _
  rw [hpos]
  rfl

theorem toggle_spec : Spec togglePart ToggleGoes ToggleFits fun _ a _ => a where
  frame k a st := by
    unfold togglePart
    dsimp only
    cases fallback st _ _ with
    | none => exact Frame.refl k st
    | some cha =>
      show Frame k st ((st.modify ..).modify ..)
      rw [modify_modify]
      exact Frame.modify ..
  returns k a st := by
    unfold togglePart ToggleGoes
    dsimp only
    generalize toggled _ = src
    cases hf : fallback st (kindOf src) (st.chainChannel k st.playing (st.selectedEntry k st.playing)) with
    | none =>
      obtain ⟨hdead, hsize⟩ := fallback_none hf
      rw [hdead]
      exact ⟨fun _ h => h.elim Bool.false_ne_true fun h => absurd h (by omega), fun _ => rfl⟩
    | some cha =>
      refine ⟨fun h => absurd h Bool.false_ne_true, fun h => absurd ?_ h⟩
      exact (fallback_some hf).imp (fun h => h.1) fun h => h.2.1
  next_eq k a st := rfl
  liveIn k a st hlive := by
    have hentry : ∀ h, st.holder k st.playing = some h →
        st.chainSource k st.playing (st.selectedEntry k st.playing) = (h.chain h.selectedEntry).sourceType ∧
          st.chainChannel k st.playing (st.selectedEntry k st.playing) = (h.chain h.selectedEntry).channel := by
      intro h hh
      unfold State.chainSource State.chainChannel
      rw [(selected_eq hh).2]
      exact ⟨rfl, rfl⟩
    unfold togglePart ToggleFits
    dsimp only
    generalize hsrc : st.chainSource k st.playing (st.selectedEntry k st.playing) = src at hentry ⊢
    generalize hcha : st.chainChannel k st.playing (st.selectedEntry k st.playing) = cha at hentry ⊢
    cases hf : fallback st (kindOf (toggled src)) cha with
    | none =>
      refine ⟨fun _ h hh => ?_, fun _ => hlive⟩
      obtain ⟨rfl, rfl⟩ := hentry h hh
      exact safe_of_none hf
    | some c' =>
      show LiveIn k ((st.modify ..).modify ..) ↔ _
      rw [modify_modify, modify_liveIn hlive]
      constructor
      · intro hdenotes h hh
        obtain ⟨rfl, rfl⟩ := hentry h hh
        exact (safe_iff hf).mp (hdenotes h h.selectedEntry hh (selected_eq hh).1)
      · intro hsafe h c hh _
        obtain ⟨rfl, rfl⟩ := hentry h hh
        exact (safe_iff hf).mpr (hsafe h hh)
  congr a st st' hframe := by
    unfold ToggleFits Safe
    simp only [hframe.other .stream (by decide), hframe.playing, hframe.live, hframe.size]

theorem entry_eq {id pos : ℤ} {h : Holder} {i : Fin sampleMaxEffects} (hh : st.holder k id = some h)
    (hpos : position pos = some i) : st.entry k id pos = some (h.chain i) := by
  rw [State.entry, hh]
  show ((position pos).bind fun c => some (h.chain c)) = _
  rw [hpos]
  rfl

theorem holder_of_live {id : ℤ} (h : st.live k id = true) : ∃ h, st.holder k id = some h := by
  rw [State.live, Bool.and_eq_true] at h
  exact Option.isSome_iff_exists.mp h.2

/-- A stream that there is has a type. -/
theorem kindOf_type {id : ℤ} (h : st.live .stream id = true) : kindOf (vjTagGetType st id) = .stream := by
  obtain ⟨h, hh⟩ := holder_of_live h
  obtain ⟨s, hs, -⟩ := Option.map_eq_some_iff.mp hh
  rw [vjTagGetType, hs]
  exact if_neg s.notNone

/-- What the source command makes of an entry. -/
theorem denotes_source {a2 : ℤ} (hf : fallback st (kindOf a2) c = some c') :
    Denotes st ⟨if kindOf a2 = .stream ∧ st.live .stream c = false then vjTagGetType st c' else a2, c'⟩ ↔
      Safe st (kindOf a2) c := by
  rw [← safe_iff hf, Denotes]
  dsimp only
  split_ifs with hfall
  · rw [hfall.1]
    cases hlive : st.live .stream c' with
    | true => rw [kindOf_type hlive, hlive]
    | false =>
      have hdead : vjTagGetType st c' = -1 ∨ kindOf (vjTagGetType st c') = .stream := by
        unfold vjTagGetType
        cases st.streams c' with
        | none => exact .inl rfl
        | some s => exact .inr (if_neg s.notNone)
      rcases hdead with hnone | hkind
      · rw [hnone]
        exact iff_of_false (fun h => Bool.false_ne_true (hlive.symm.trans h)) Bool.false_ne_true
      · rw [hkind, hlive]
  · rfl

/-- The part returns early where there is no entry or nothing to mix in, and changes one entry at most. -/
theorem sourcePart_shape (a2 : ℤ) (k : Kind) (a : ℤ × ℤ) (st : State) :
    ∃ r st', sourcePart a2 k a st = (r, resolve st k a, st') ∧ (r = true ↔ ¬ SourceGoes a2 k a st) ∧
      (st' = st ∨ ∃ f, st' = st.modify k (resolve st k a).1 (resolve st k a).2 f) := by
  unfold sourcePart SourceGoes
  dsimp only
  generalize resolve st k a = b
  cases hpos : position b.2 with
  | none => exact ⟨true, st, rfl, iff_of_true rfl fun h => h.1 rfl, .inl rfl⟩
  | some i =>
    rw [if_neg (by exact Bool.false_ne_true)]
    by_cases hthere : st.live k b.1 = true
    · rw [if_pos hthere]
      generalize st.chainChannel k b.1 b.2 = cha
      cases hf : fallback st (kindOf a2) cha with
      | none =>
        obtain ⟨hdead, hsize⟩ := fallback_none hf
        refine ⟨true, st, rfl, iff_of_true rfl fun h => ?_, .inl rfl⟩
        rcases h.2 hthere with hlive | hlt
        · rw [hdead] at hlive
          cases hlive
        · omega
      | some c' =>
        have hgoes : some i ≠ none ∧ (st.live k b.1 = true → st.live (kindOf a2) cha = true ∨ 1 < st.size (kindOf a2)) :=
          ⟨Option.some_ne_none i, fun _ => (fallback_some hf).imp (fun h => h.1) fun h => h.2.1⟩
        dsimp only
        by_cases hc' : c' > 0
        · rw [if_pos hc']
          exact ⟨false, _, rfl, iff_of_false Bool.false_ne_true (not_not_intro hgoes), .inr ⟨_, modify_modify ..⟩⟩
        · rw [if_neg hc']
          exact ⟨false, st, rfl, iff_of_false Bool.false_ne_true (not_not_intro hgoes), .inl rfl⟩
    · rw [if_neg hthere]
      exact ⟨false, st, rfl, iff_of_false Bool.false_ne_true (not_not_intro ⟨Option.some_ne_none i, fun h => absurd h hthere⟩),
        .inl rfl⟩

theorem source_spec (a2 : ℤ) : Spec (sourcePart a2) (SourceGoes a2) (SourceFits a2) fun k a st => resolve st k a where
  frame k a st := by
    obtain ⟨r, st', hpart, -, rfl | ⟨f, rfl⟩⟩ := sourcePart_shape a2 k a st
    · rw [hpart]
      exact Frame.refl k st'
    · rw [hpart]
      exact Frame.modify ..
  returns k a st := by
    obtain ⟨r, st', hpart, hr, -⟩ := sourcePart_shape a2 k a st
    rw [hpart]
    exact hr
  next_eq k a st := by
    obtain ⟨r, st', hpart, -, -⟩ := sourcePart_shape a2 k a st
    rw [hpart]
  liveIn k a st hlive := by
    unfold sourcePart SourceFits
    dsimp only
    generalize resolve st k a = b
    cases hpos : position b.2 with
    | none =>
      refine ⟨fun _ _ h c _ hc => ?_, fun _ => hlive⟩
      cases hc
    | some i =>
      rw [if_neg (by exact Bool.false_ne_true)]
      by_cases hthere : st.live k b.1 = true
      · rw [if_pos hthere]
        obtain ⟨h, hh⟩ := holder_of_live hthere
        have hcha : st.chainChannel k b.1 b.2 = (h.chain i).channel := by
          rw [State.chainChannel, entry_eq hh hpos]
          rfl
        rw [hcha]
        have hfits : (st.live k b.1 = true → ∀ h c, st.holder k b.1 = some h → some i = some c →
            Safe st (kindOf a2) (h.chain c).channel) ↔ Safe st (kindOf a2) (h.chain i).channel := by
          refine ⟨fun hsafe => hsafe hthere h i hh rfl, ?_⟩
          intro hsafe _ h' c hh' hc
          obtain rfl := Option.some.inj (hh.symm.trans hh')
          obtain rfl := Option.some.inj hc
          exact hsafe
        rw [hfits]
        cases hf : fallback st (kindOf a2) (h.chain i).channel with
        | none => exact ⟨fun _ => safe_of_none hf, fun _ => hlive⟩
        | some c' =>
          dsimp only
          generalize hsrc : (if kindOf a2 = .stream ∧ st.live .stream (h.chain i).channel = false then
            vjTagGetType st c' else a2) = src
          have hdenotes := denotes_source hf
          rw [hsrc] at hdenotes
          by_cases hc' : c' > 0
          · rw [if_pos hc']
            show LiveIn k ((st.modify ..).modify ..) ↔ _
            rw [modify_modify, modify_liveIn hlive, ← hdenotes]
            exact ⟨fun hall => hall h i hh hpos, fun hd _ _ _ _ => hd⟩
          · rw [if_neg hc']
            refine ⟨fun _ => ?_, fun _ => hlive⟩
            rcases fallback_some hf with ⟨hfound, -⟩ | ⟨-, hsize, rfl⟩
            · exact .inl hfound
            · omega
      · rw [if_neg hthere]
        exact ⟨fun _ h => absurd h hthere, fun _ => hlive⟩
  congr a st st' hframe := by
    unfold SourceFits Safe resolve State.selectedEntry
    simp only [hframe.other .stream (by decide), hframe.playing, hframe.live, hframe.size]

/-- A part that looks its source up keeps all of them. -/
theorem keeps_spec {α : Type} {part : Part α} (hframe : ∀ k a st, Frame k st (part k a st).2.2)
    (hkeeps : ∀ k a st, LiveIn k st → LiveIn k (part k a st).2.2) :
    Spec part (fun k a st => (part k a st).1 = false) (fun _ _ _ => True) fun k a st => (part k a st).2.1 where
  frame := hframe
  returns k a st := by rw [Bool.not_eq_false]
  next_eq k a st := rfl
  liveIn k a st hlive := ⟨fun _ => trivial, fun _ => hkeeps k a st hlive⟩
  congr a st st' _ := Iff.rfl

theorem Spec.runParts_live {α : Type} {part : Part α} {goes : Kind → α → State → Prop} {next : Kind → α → State → α}
    (h : Spec part goes (fun _ _ _ => True) next) {a : α} {st : State} (hlive : AllLive st) :
    AllLive (runParts part a st) :=
  (h.runParts_iff hlive).mpr ⟨fun _ => trivial, fun _ _ => trivial⟩

/-- The old channel stays where the new one is not there. -/
theorem inc_spec (n : ℤ) : Spec (incPart n) (fun k a st => (incPart n k a st).1 = false) (fun _ _ _ => True)
    fun k a st => (incPart n k a st).2.1 := by
  refine keeps_spec (fun k a st => ?_) fun k a st hlive => ?_
  · unfold incPart
    dsimp only
    split_ifs
    · exact Frame.refl k st
    all_goals exact Frame.modify ..
  · unfold incPart
    dsimp only
    generalize hsrc : st.chainSource k st.playing (st.selectedEntry k st.playing) = src
    generalize hcha : st.chainChannel k st.playing (st.selectedEntry k st.playing) = cha
    by_cases hsize : st.size (kindOf src) - 1 ≤ 0
    · rw [if_pos hsize]
      exact hlive
    · rw [if_neg hsize]
      refine (modify_liveIn hlive).mpr fun h c hh hpos => ?_
      have hentry := entry_eq hh hpos
      rw [State.chainSource, hentry] at hsrc
      rw [State.chainChannel, hentry] at hcha
      subst hsrc hcha
      show st.live (kindOf (h.chain c).sourceType) _ = true
      split_ifs with hnew
      · exact hnew
      · exact hlive _ h hh c

theorem channel_spec (a2 : ℤ) : Spec (channelPart a2) (fun k a st => (channelPart a2 k a st).1 = false)
    (fun _ _ _ => True) fun k a st => (channelPart a2 k a st).2.1 := by
  refine keeps_spec (fun k a st => ?_) fun k a st hlive => ?_
  · unfold channelPart
    dsimp only
    split_ifs
    · exact Frame.refl k st
    · exact Frame.modify ..
    · exact Frame.refl k st
  · unfold channelPart
    dsimp only
    split_ifs with hnone hthere
    · exact hlive
    · refine (modify_liveIn hlive).mpr fun h c hh hpos => ?_
      have hnew := hthere.2
      rw [State.chainSource, entry_eq hh hpos] at hnew
      exact hnew
    · exact hlive

theorem srccha_spec (a2 a3 : ℤ) : Spec (srcchaPart a2 a3) (fun k a st => (srcchaPart a2 a3 k a st).1 = false)
    (fun _ _ _ => True) fun k a st => (srcchaPart a2 a3 k a st).2.1 := by
  refine keeps_spec (fun k a st => ?_) fun k a st hlive => ?_
  · unfold srcchaPart
    dsimp only
    split_ifs
    · exact Frame.refl k st
    · show Frame k st ((st.modify ..).modify ..)
      rw [modify_modify]
      exact Frame.modify ..
    · exact Frame.refl k st
  · unfold srcchaPart
    dsimp only
    split_ifs with hnone hthere
    · exact hlive
    · show LiveIn k ((st.modify ..).modify ..)
      rw [modify_modify]
      exact (modify_liveIn hlive).mpr fun _ _ _ _ => hthere.2
    · exact hlive

end Parts

/-! ## Runs -/

/-- One command. -/
theorem run_iff {st : State} (hlive : AllLive st) (command : MixCommand) :
    AllLive (command.run st) ↔ Fits st command := by
  cases command with
  | toggle => exact toggle_spec.runParts_iff hlive
  | source a0 a1 a2 => exact (source_spec a2).runParts_iff hlive
  | channel a0 a1 a2 => exact iff_of_true ((channel_spec a2).runParts_live hlive) trivial
  | srccha a0 a1 a2 a3 => exact iff_of_true ((srccha_spec a2 a3).runParts_live hlive) trivial
  | channelInc a0 => exact iff_of_true ((inc_spec a0).runParts_live hlive) trivial
  | channelDec a0 => exact iff_of_true ((inc_spec (-a0)).runParts_live hlive) trivial

/-- **The sources exist in every state of a run exactly if its commands find one.** -/
theorem sources_live_iff {st : State} (hlive : AllLive st) (commands : List MixCommand) :
    (∀ pre, pre <+: commands → Ensures (runOps mixStep st pre) fun a => AllLive a.2) ↔
      RunMeets mixStep Fits st commands := by
  have hstep : ∀ (st : State) (command : MixCommand), True → AllLive st →
      ∃ r st', mixStep st command = .ok (r, st') ∧ True ∧ (AllLive st' ↔ Fits st command) :=
    fun st command _ hlive => ⟨(), command.run st, rfl, trivial, run_iff hlive command⟩
  exact runOps_keeps_iff hstep trivial hlive commands

/-- Two samples and a stream; a second stream was deleted.  Every entry mixes in the second sample. -/
def deletedStream : State where
  samples id := if id = 1 ∨ id = 2 then some ⟨fun _ => ⟨0, 2⟩, ⟨0, by decide⟩⟩ else none
  streams id := if id = 1 then some ⟨⟨fun _ => ⟨0, 2⟩, ⟨0, by decide⟩⟩, 4, by decide⟩ else none
  sampleSize := 3
  tagSize := 3
  playing := 1
  samplePlaying := true
  streamPlaying := false

theorem deletedStream_live : AllLive deletedStream := by
  intro k id h hh c
  cases k with
  | sample =>
    change (if id = 1 ∨ id = 2 then _ else _) = some h at hh
    split_ifs at hh
    obtain rfl := Option.some.inj hh
    rfl
  | stream =>
    change (if id = 1 then _ else _ : Option Stream).map _ = some h at hh
    split_ifs at hh
    · obtain rfl := Option.some.inj hh
      rfl
    · cases hh

/-- Counting up, and a channel that is not there. -/
theorem sources_live_counting :
    (∀ pre, pre <+: [.channelInc (-1), .source 0 0 0, .channel 0 0 7] →
      Ensures (runOps mixStep deletedStream pre) fun a => AllLive a.2) ↔
      RunMeets mixStep Fits deletedStream [.channelInc (-1), .source 0 0 0, .channel 0 0 7] :=
  sources_live_iff deletedStream_live _

/-- **The toggle takes the last id**, though its stream is gone. -/
theorem toggle_dangles :
    AllLive deletedStream ∧ Ensures (runOps mixStep deletedStream [.toggle]) fun a => ¬ AllLive a.2 := by
  refine ⟨deletedStream_live, _, rfl, fun h => ?_⟩
  have hentry := h .sample 1 _ rfl ⟨0, by decide⟩
  change deletedStream.live .stream 2 = true at hentry
  cases hentry

end Veejay.MixSources
