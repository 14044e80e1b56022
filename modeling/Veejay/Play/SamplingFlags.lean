import Veejay.Play.MixCache

/-!
# What the sampling flags say

Chroma planes are converted only when an effect wants them otherwise than their flag `ssm` says.  Several functions
set the flags, and for the frames that are mixed in they are looked up among those of other entries.

* `Truthful` — **the flags say how the planes are sampled, effects get what they want, and no planes are converted that
  are already so**;
* `SecondFits` — the frames that are mixed in whose flag is found out right, and whose chain keeps it;
* `StepFits` — the steps that go well, read before they are taken;
* `pass_truthful` — **a pass of such steps is truthful throughout**, and leaves the frame in 4:2:2.
-/

namespace Veejay.Perform

open CLib Veejay.Sample Veejay.Play Veejay.Samples

/-! ## Flags and planes -/

/-- Planes are converted that are of the other kind, and effects get planes of the kind that they want. -/
def Event.Good : Event → Prop
  | .convert toFull before => before = sampled (!toFull)
  | .apply wanted inputs => ∀ sampling ∈ inputs, sampling = sampled wanted

/-- The flags say how the planes are sampled, and whatever has been done to them was right. -/
structure Truthful (s : Performer) : Prop where
  main : s.main.sampling = sampled s.ssm1
  frames : ∀ e ssm, (s.frameBuffer e).ssm = some ssm → (s.frameBuffer e).sampling = sampled ssm
  log : ∀ event ∈ s.log, event.Good

/-! ## The steps that go well -/

section Fits

variable (p : Pass)

/-- Those of these entries of a chain whose effects are rendered for the second frame. -/
def renderedOf (kind : Playmode) (id : ℤ) (ns : List (Fin 3)) : List ChainEntry :=
  (ns.map (p.subChain kind id)).filter fun entry => decide (SubRenders p entry)

/-- The entries of the chain of a source whose effects are rendered. -/
def subEntries (kind : Option Playmode) (id : ℤ) : List ChainEntry :=
  kind.elim [] fun kind => renderedOf p kind id (List.finRange 3)

/-- How the frame of an entry is sampled when it has not been found in the caches. -/
def anewAs (e : Fin sampleMaxEffects) (s : Performer) : Sampling :=
  if FromStream p e then
    if (p.streamFrame (p.chain e).channel).isSome then .halved else (s.frameBuffer e).sampling
  else if (p.chain e).source = 0 then
    if p.feedback = false ∧ p.sampleId = (p.chain e).channel ∧ p.mode = .sample then
      -- the planes of what is played are copied, as they are by now
      copied s.ssm1
        (if sampleGetFramedup s (p.chain e).channel ≤ 1 then s.main else s.primary slowBuffer).sampling
    else if (p.video (p.chain e).channel (seek p e s).1).isSome then .halved
    else (s.frameBuffer e).sampling
  else (s.frameBuffer e).sampling

/-- How the frame of an entry is sampled when it has been fetched, and its flag. -/
def fetchedAs (e : Fin sampleMaxEffects) (s : Performer) : Option (Sampling × Option Bool) :=
  match cachedAt p e s with
  | some centry =>
    Fin.cases (some (copied s.ssm1 s.main.sampling, some s.ssm1))
      (fun (c : Fin sampleMaxEffects) =>
        if h : c.val < primaryFrames then
          some (copied ((s.frameBuffer c).ssm == some true) (s.primary ⟨c, h⟩).sampling, (s.frameBuffer c).ssm)
        else none)
      centry
  | none => some (anewAs p e s, (s.frameBuffer e).ssm)

/-- What the second frame with the flag `flag` is taken to be: the flag is looked up behind the first entry, and `ssm`
there. -/
def toldSsm (e : Fin sampleMaxEffects) (ssm : Bool) (flag : Option Bool) (s : Performer) : Bool :=
  if 1 ≤ e.val then
    decide (LooksUp p (p.chain e).source) && flag.getD (vjPerformPreviouslySampled s (e.val - 1))
  else ssm

/-- The chain of the source of an entry. -/
def sourceEntries (e : Fin sampleMaxEffects) : List ChainEntry :=
  subEntries p (Pass.chainOf (p.chain e).source) (p.chain e).channel

/-- The second frame is sampled so, and has this flag, when it has been fetched. -/
structure SecondFits (e : Fin sampleMaxEffects) (s : Performer) (sampling : Sampling) (flag : Option Bool) : Prop where
  /-- its own flag is right; -/
  own : ∀ ssm, flag = some ssm → sampling = sampled ssm
  /-- the flag that is looked up is right, and the chain of the source, if it is rendered behind, wants the same as
  the entry; -/
  direct : p.subrender = false → sampling = sampled (toldSsm p e s.ssm2 flag s) ∧
    (p.preprocessHasSsm (Pass.chainOf (p.chain e).source) (p.chain e).channel =
        some (p.subformat (p.chain e).effectId) →
      ∀ entry ∈ sourceEntries p e, p.subformat entry.effectId = p.subformat (p.chain e).effectId)
  /-- or the chain of the source is rendered before, and it wants the same as the entry, and gets it, -/
  nested : p.subrender = true →
    ((∀ entry ∈ sourceEntries p e, p.subformat entry.effectId = p.subformat (p.chain e).effectId ∧
          (entry.applies = true → sampling = sampled (p.subformat (p.chain e).effectId))) ∧
      sampling = sampled (toldSsm p e (p.subformat (p.chain e).effectId) flag s)) ∨
    -- or the entry wants 4:2:2, and the chain wants 4:2:2 up to some effect and 4:4:4 from there
    (p.subformat (p.chain e).effectId = false ∧
      (sourceEntries p e).Pairwise (fun entry entry' =>
        p.subformat entry.effectId = true → p.subformat entry'.effectId = true) ∧
      (∃ entry ∈ sourceEntries p e, p.subformat entry.effectId = true) ∧
      (∀ entry ∈ sourceEntries p e, entry.applies = true → p.subformat entry.effectId = false →
        sampling = .halved) ∧
      sampling = sampled (decide (Pass.chainOf (p.chain e).source = some .sample) && s.ssm2) ∧
      (1 ≤ e.val → LooksUp p (p.chain e).source))

/-- The steps that go well: an entry whose second frame fits, and a fader that is used for a sample only. -/
def StepFits (s : Performer) : Step → Prop
  | .entry e => Mixes p e → ∃ sampling flag, fetchedAs p e s = some (sampling, flag) ∧ SecondFits p e s sampling flag
  | .postChain => p.faderActive = true → p.mode = .sample ∧ s.temp.sampling = .halved
  | .finish => True

end Fits

section Steps

variable {p : Pass} {e : Fin sampleMaxEffects} {s t u : Performer}

/-! ## What the steps do to flags and planes -/

theorem converted_sampled (toFull : Bool) : converted toFull (sampled (!toFull)) = sampled toFull := if_pos rfl

theorem sampled_of_ne {wanted ssm : Bool} (h : ¬ wanted = ssm) : sampled ssm = sampled (!wanted) := by
  cases wanted <;> cases ssm <;> first | rfl | exact absurd rfl h

/-- From `s` to `t` nothing is done but to the frame of an entry, and that is done right. -/
structure OnlyFrame (e : Fin sampleMaxEffects) (s t : Performer) : Prop where
  main : t.main = s.main
  ssm1 : t.ssm1 = s.ssm1
  others : ∀ e', e' ≠ e → t.frameBuffer e' = s.frameBuffer e'
  log : ∀ event ∈ t.log, event ∈ s.log ∨ event.Good

theorem OnlyFrame.refl (e : Fin sampleMaxEffects) (s : Performer) : OnlyFrame e s s :=
  ⟨rfl, rfl, fun _ _ => rfl, fun _ h => .inl h⟩

theorem OnlyFrame.trans (h : OnlyFrame e s t) (h' : OnlyFrame e t u) : OnlyFrame e s u where
  main := h'.main.trans h.main
  ssm1 := h'.ssm1.trans h.ssm1
  others e' he := (h'.others e' he).trans (h.others e' he)
  log event hevent := by
    rcases h'.log event hevent with ht | hgood
    · exact h.log event ht
    · exact .inr hgood

theorem OnlyFrame.truthful (h : OnlyFrame e s t) (hs : Truthful s)
    (hframe : ∀ ssm, (t.frameBuffer e).ssm = some ssm → (t.frameBuffer e).sampling = sampled ssm) : Truthful t where
  main := by
    rw [h.main, h.ssm1]
    exact hs.main
  frames e' ssm hssm := by
    by_cases he : e' = e
    · subst he
      exact hframe ssm hssm
    · rw [h.others e' he] at hssm ⊢
      exact hs.frames e' ssm hssm
  log event hevent := by
    rcases h.log event hevent with hs' | hgood
    · exact hs.log event hs'
    · exact hgood

theorem onlyFrame_setFrame (frame : YcbcrFrame) : OnlyFrame e s (s.setFrame e frame) :=
  ⟨rfl, rfl, fun _ he => Function.update_of_ne he .., fun _ h => .inl h⟩

theorem OnlyFrame.note (h : OnlyFrame e s t) {event : Event} (hgood : event.Good) : OnlyFrame e s (t.note event) := by
  refine ⟨h.main, h.ssm1, h.others, fun event' hevent => ?_⟩
  rcases List.mem_append.mp hevent with ht | hnew
  · exact h.log event' ht
  · rw [List.mem_singleton.mp hnew]
    exact .inr hgood

theorem onlyFrame_keep : OnlyFrame e s (keep p e s) := by
  rw [keep]
  split_ifs <;> exact ⟨rfl, rfl, fun _ _ => rfl, fun _ h => .inl h⟩

theorem onlyFrame_ssm2 (ssm : Bool) : OnlyFrame e s { s with ssm2 := ssm } :=
  ⟨rfl, rfl, fun _ _ => rfl, fun _ h => .inl h⟩

/-- From `s` to `t` the frame of an entry becomes one that is sampled so and has this flag, and nothing else is done
to planes and flags. -/
structure FrameIs (e : Fin sampleMaxEffects) (s t : Performer) (sampling : Sampling) (flag : Option Bool) : Prop where
  only : OnlyFrame e s t
  ssm2 : t.ssm2 = s.ssm2
  sampling : (t.frameBuffer e).sampling = sampling
  flag : (t.frameBuffer e).ssm = flag

theorem FrameIs.refl (e : Fin sampleMaxEffects) (s : Performer) :
    FrameIs e s s (s.frameBuffer e).sampling (s.frameBuffer e).ssm :=
  ⟨OnlyFrame.refl e s, rfl, rfl, rfl⟩

theorem FrameIs.trans {sampling sampling' : Sampling} {flag flag' : Option Bool} (h : FrameIs e s t sampling flag)
    (h' : FrameIs e t u sampling' flag') : FrameIs e s u sampling' flag' :=
  ⟨h.only.trans h'.only, h'.ssm2.trans h.ssm2, h'.sampling, h'.flag⟩

theorem frameIs_setFrame (frame : YcbcrFrame) : FrameIs e s (s.setFrame e frame) frame.sampling frame.ssm := by
  have hself : (s.setFrame e frame).frameBuffer e = frame := Function.update_self ..
  refine ⟨onlyFrame_setFrame frame, rfl, ?_, ?_⟩
  · rw [hself]
  · rw [hself]

/-- The planes are replaced, and the flag stays. -/
theorem FrameIs.setPicture {sampling : Sampling} {flag : Option Bool} (h : FrameIs e s t sampling flag)
    (picture : Picture) : FrameIs e s (t.setPicture e picture) picture.sampling flag := by
  rw [← h.flag]
  exact h.trans (frameIs_setFrame _)

theorem frameIs_seek : FrameIs e s (seek p e s).2 (s.frameBuffer e).sampling (s.frameBuffer e).ssm := by
  obtain ⟨samples, hsamples⟩ := @seek_samples p e s
  rw [hsamples]
  exact ⟨⟨rfl, rfl, fun _ _ => rfl, fun _ h => .inl h⟩, rfl, rfl, rfl⟩

theorem FrameIs.keep {sampling : Sampling} {flag : Option Bool} (h : FrameIs e s t sampling flag) :
    FrameIs e s (keep p e t) sampling flag := by
  refine ⟨h.only.trans onlyFrame_keep, ?_, ?_, ?_⟩
  · rw [Perform.keep]
    split_ifs <;> exact h.ssm2
  · rw [Perform.keep]
    split_ifs <;> exact h.sampling
  · rw [Perform.keep]
    split_ifs <;> exact h.flag

/-- A frame that has not been found in the caches. -/
theorem frameIs_fetchAnew : FrameIs e s (fetchAnew p e s).2 (anewAs p e s) (s.frameBuffer e).ssm := by
  rw [fetchAnew, anewAs]
  by_cases hstream : FromStream p e
  · rw [if_pos hstream, if_pos hstream, vjTagGetFrame]
    cases hframe : p.streamFrame (p.chain e).channel with
    | some frame => exact (FrameIs.refl e s).setPicture _
    | none => exact FrameIs.refl e s
  · rw [if_neg hstream, if_neg hstream]
    by_cases hsample : (p.chain e).source = 0
    · have hdup : sampleGetFramedup (seek p e s).2 (p.chain e).channel = sampleGetFramedup s (p.chain e).channel := by
        rw [seek, if_neg hstream, if_pos hsample]
        exact subframeOf_framedup _ _
      rw [if_pos hsample, if_pos hsample, vjPerformGetFrameFx, hdup]
      by_cases hself : p.feedback = false ∧ p.sampleId = (p.chain e).channel ∧ p.mode = .sample
      · have hput := (@frameIs_seek p e s).setPicture (p.copy (seek p e s).2.ssm1
          (if sampleGetFramedup s (p.chain e).channel ≤ 1 then (seek p e s).2.main else (seek p e s).2.primary slowBuffer)
          ((seek p e s).2.frameBuffer e).toPicture)
        rw [if_pos hself, if_pos hself]
        obtain ⟨samples, hsamples⟩ := @seek_samples p e s
        rw [hsamples] at hput ⊢
        exact hput
      · rw [if_neg hself, if_neg hself]
        cases hframe : p.video (p.chain e).channel (seek p e s).1 with
        | some frame => exact frameIs_seek.setPicture _
        | none => exact frameIs_seek
    · rw [if_neg hsample, if_neg hsample]
      exact FrameIs.refl e s

/-- The other places stand for the primary buffers, by their numbers. -/
theorem vjPerformUseCachedYcbcrFrame_succ {c : Fin sampleMaxEffects} (hc : c.val < primaryFrames) :
    vjPerformUseCachedYcbcrFrame p c.succ e s =
      .ok (s.setFrame e ⟨p.copy ((s.frameBuffer c).ssm == some true) (s.primary ⟨c, hc⟩) (s.frameBuffer e).toPicture,
        (s.frameBuffer c).ssm⟩) := by
  have hpicture : s.primaryAt c = .ok (s.primary ⟨c, hc⟩) := dif_pos hc
  show (s.primaryAt c >>= fun picture => _) = _
  rw [hpicture, ok_bind]

/-- The second frame, as it is fetched. -/
theorem applySecundary_fetchedAs {sampling : Sampling} {flag : Option Bool} (h : fetchedAs p e s = some (sampling, flag)) :
    ∃ t, vjPerformApplySecundary p e s = .ok t ∧ FrameIs e s t sampling flag := by
  rw [vjPerformApplySecundary_eq]
  rw [fetchedAs] at h
  cases hcached : cachedAt p e s with
  | none =>
    rw [hcached] at h
    obtain ⟨rfl, rfl⟩ := Prod.mk.inj (Option.some.inj h)
    refine ⟨_, rfl, ?_⟩
    split_ifs
    · exact frameIs_fetchAnew.keep
    · exact frameIs_fetchAnew
  | some centry =>
    rw [hcached] at h
    dsimp only at h ⊢
    obtain ⟨samples, hsamples⟩ := @seek_samples p e s
    induction centry using Fin.cases with
    | zero =>
      obtain ⟨rfl, rfl⟩ := Prod.mk.inj (Option.some.inj h)
      have hput := (@frameIs_seek p e s).trans (frameIs_setFrame
        ⟨p.copy (seek p e s).2.ssm1 (seek p e s).2.main ((seek p e s).2.frameBuffer e).toPicture, some (seek p e s).2.ssm1⟩)
      refine ⟨_, rfl, FrameIs.keep ?_⟩
      rw [hsamples] at hput ⊢
      exact hput
    | succ c =>
      change (if hc : c.val < primaryFrames then
        some (copied ((s.frameBuffer c).ssm == some true) (s.primary ⟨c, hc⟩).sampling, (s.frameBuffer c).ssm)
        else none) = some (sampling, flag) at h
      split_ifs at h with hc
      obtain ⟨rfl, rfl⟩ := Prod.mk.inj (Option.some.inj h)
      have hput := (@frameIs_seek p e s).trans (frameIs_setFrame
        ⟨p.copy (((seek p e s).2.frameBuffer c).ssm == some true) ((seek p e s).2.primary ⟨c, hc⟩)
          ((seek p e s).2.frameBuffer e).toPicture, ((seek p e s).2.frameBuffer c).ssm⟩)
      show ∃ t, (vjPerformUseCachedYcbcrFrame p c.succ e (seek p e s).2 >>= fun t => .ok (keep p e t)) = .ok t ∧ _
      rw [vjPerformUseCachedYcbcrFrame_succ hc, ok_bind]
      refine ⟨_, rfl, FrameIs.keep ?_⟩
      rw [hsamples] at hput ⊢
      exact hput

/-! ## The chain of the second frame -/

theorem FrameIs.note {sampling : Sampling} {flag : Option Bool} (h : FrameIs e s t sampling flag) {event : Event}
    (hgood : event.Good) : FrameIs e s (t.note event) sampling flag :=
  ⟨h.only.note hgood, h.ssm2, h.sampling, h.flag⟩

/-- An effect of the chain gets the planes that it wants. -/
theorem frameIs_applySubEntry {kind : Playmode} {id : ℤ} {n : Fin 3}
    (h : (p.subChain kind id n).applies = true →
      (s.frameBuffer e).sampling = sampled (p.subformat (p.subChain kind id n).effectId)) :
    FrameIs e s (applySubEntry p kind id n e s) (s.frameBuffer e).sampling (s.frameBuffer e).ssm := by
  rw [applySubEntry]
  split_ifs with happlies
  · refine ((FrameIs.refl e s).setPicture _).note ?_
    intro sampling hmem
    rw [List.mem_singleton.mp hmem]
    exact h happlies
  · exact FrameIs.refl e s

theorem FrameIs.setSsm {sampling : Sampling} {flag : Option Bool} (h : FrameIs e s t sampling flag) (ssm : Bool) :
    FrameIs e s (t.setSsm e ssm) sampling (some ssm) := by
  rw [← h.sampling]
  exact h.trans (frameIs_setFrame _)

/-- The frame is converted to what it is not. -/
theorem frameIs_convertFrame {toFull : Bool} (h : (s.frameBuffer e).sampling = sampled (!toFull)) :
    FrameIs e s (s.convertFrame p toFull e) (sampled toFull) (s.frameBuffer e).ssm := by
  have hput := ((FrameIs.refl e s).setPicture (p.convert toFull (s.frameBuffer e).toPicture)).note
    (show (Event.convert toFull (s.frameBuffer e).sampling).Good from h)
  have hconverted : (p.convert toFull (s.frameBuffer e).toPicture).sampling = sampled toFull := by
    rw [Pass.convert]
    dsimp only
    rw [h, converted_sampled]
  rw [hconverted] at hput
  exact hput

/-- An effect wants 4:4:4, and the chain has wanted 4:2:2 up to it. -/
theorem frameIs_convertFor {kind : Playmode} {l : Locals} (hssm : l.ssm = false)
    (hframe : (l.performer.frameBuffer e).sampling = sampled (decide (kind = .sample) && l.a)) :
    (convertFor p kind true e l).ssm = true ∧
      FrameIs e l.performer (convertFor p kind true e l).performer .full (some true) := by
  have hne : ¬ true = l.ssm := fun h => Bool.false_ne_true (hssm.symm.trans h.symm)
  have hput : FrameIs e l.performer
      (if kind = .tag ∨ l.a ≠ true then l.performer.convertFrame p true e else l.performer) .full
      (l.performer.frameBuffer e).ssm := ?_
  · rw [convertFor, if_neg hne]
    exact ⟨rfl, hput.setSsm true⟩
  split_ifs with hconverts
  · have hhalved : (l.performer.frameBuffer e).sampling = sampled (!true) := by
      rw [hframe]
      rcases hconverts with rfl | ha
      · rfl
      · rw [Bool.eq_false_of_not_eq_true ha, Bool.and_false]
        rfl
    exact frameIs_convertFrame hhalved
  · obtain ⟨hkind, ha⟩ := not_or.mp hconverts
    have hfull : (l.performer.frameBuffer e).sampling = .full := by
      rw [hframe, Decidable.not_not.mp ha]
      cases kind with
      | sample => rfl
      | tag => exact absurd rfl hkind
    rw [← hfull]
    exact FrameIs.refl e l.performer

theorem renderedOf_cons (kind : Playmode) (id : ℤ) (n : Fin 3) (ns : List (Fin 3)) :
    renderedOf p kind id (n :: ns) =
      if SubRenders p (p.subChain kind id n) then p.subChain kind id n :: renderedOf p kind id ns
      else renderedOf p kind id ns := by
  rw [renderedOf, List.map_cons, List.filter_cons]
  by_cases hrenders : SubRenders p (p.subChain kind id n)
  · rw [if_pos hrenders, if_pos (decide_eq_true hrenders)]
    rfl
  · rw [if_neg hrenders, if_neg (fun h => hrenders (of_decide_eq_true h))]
    rfl

/-- Where all effects want what there is, nothing is converted. -/
theorem preprocess_settled {kind : Playmode} {id : ℤ} : ∀ (ns : List (Fin 3)) (l : Locals),
    (∀ entry ∈ renderedOf p kind id ns, p.subformat entry.effectId = l.ssm ∧
      (entry.applies = true → (l.performer.frameBuffer e).sampling = sampled l.ssm)) →
    (ns.foldl (preprocessEntry p kind id e) l).ssm = l.ssm ∧
      FrameIs e l.performer (ns.foldl (preprocessEntry p kind id e) l).performer
        (l.performer.frameBuffer e).sampling (l.performer.frameBuffer e).ssm := by
  intro ns
  induction ns with
  | nil => exact fun l _ => ⟨rfl, FrameIs.refl e l.performer⟩
  | cons n ns ih =>
    intro l h
    rw [renderedOf_cons] at h
    rw [List.foldl_cons]
    by_cases hrenders : SubRenders p (p.subChain kind id n)
    · rw [if_pos hrenders] at h
      obtain ⟨hwanted, happlies⟩ := h _ List.mem_cons_self
      have happlied : FrameIs e l.performer (applySubEntry p kind id n e l.performer)
          (l.performer.frameBuffer e).sampling (l.performer.frameBuffer e).ssm := by
        refine frameIs_applySubEntry fun happly => ?_
        rw [hwanted]
        exact happlies happly
      have hround : preprocessEntry p kind id e l n =
          { l with performer := applySubEntry p kind id n e l.performer } := by
        rw [preprocessEntry, if_pos hrenders, convertFor, if_pos hwanted]
      obtain ⟨hssm, hrest⟩ := ih { l with performer := applySubEntry p kind id n e l.performer } (by
        intro entry hentry
        obtain ⟨hwanted', happlies'⟩ := h entry (List.mem_cons_of_mem _ hentry)
        refine ⟨hwanted', fun happly => ?_⟩
        rw [happlied.sampling]
        exact happlies' happly)
      rw [hround]
      refine ⟨hssm, ?_⟩
      rw [happlied.sampling, happlied.flag] at hrest
      exact happlied.trans hrest
    · rw [if_neg hrenders] at h
      have hround : preprocessEntry p kind id e l n = l := if_neg hrenders
      rw [hround]
      exact ih l h

/-- Where the effects want 4:2:2 up to some effect and 4:4:4 from there, the planes are converted once. -/
theorem preprocess_rising {kind : Playmode} {id : ℤ} : ∀ (ns : List (Fin 3)) (l : Locals), l.ssm = false →
    (renderedOf p kind id ns).Pairwise (fun entry entry' =>
      p.subformat entry.effectId = true → p.subformat entry'.effectId = true) →
    (∃ entry ∈ renderedOf p kind id ns, p.subformat entry.effectId = true) →
    (∀ entry ∈ renderedOf p kind id ns, entry.applies = true → p.subformat entry.effectId = false →
      (l.performer.frameBuffer e).sampling = .halved) →
    (l.performer.frameBuffer e).sampling = sampled (decide (kind = .sample) && l.a) →
    (ns.foldl (preprocessEntry p kind id e) l).ssm = true ∧
      FrameIs e l.performer (ns.foldl (preprocessEntry p kind id e) l).performer .full (some true) := by
  intro ns
  induction ns with
  | nil =>
    intro l _ _ hsome
    obtain ⟨entry, hmem, -⟩ := hsome
    cases hmem
  | cons n ns ih =>
    intro l hssm hsorted hsome hhalved hframe
    rw [renderedOf_cons] at hsorted hsome hhalved
    rw [List.foldl_cons]
    by_cases hrenders : SubRenders p (p.subChain kind id n)
    · rw [if_pos hrenders] at hsorted hsome hhalved
      obtain ⟨hbehind, hsorted⟩ := List.pairwise_cons.mp hsorted
      cases hwanted : p.subformat (p.subChain kind id n).effectId with
      | false =>
        have happlied : FrameIs e l.performer (applySubEntry p kind id n e l.performer)
            (l.performer.frameBuffer e).sampling (l.performer.frameBuffer e).ssm := by
          refine frameIs_applySubEntry fun happly => ?_
          rw [hwanted]
          exact hhalved _ List.mem_cons_self happly hwanted
        have hround : preprocessEntry p kind id e l n =
            { l with performer := applySubEntry p kind id n e l.performer } := by
          rw [preprocessEntry, if_pos hrenders, convertFor, if_pos (hwanted.trans hssm.symm)]
        have hrest := ih { l with performer := applySubEntry p kind id n e l.performer } hssm hsorted (by
          obtain ⟨entry, hmem, hwants⟩ := hsome
          rcases List.mem_cons.mp hmem with rfl | hmem
          · rw [hwanted] at hwants
            cases hwants
          · exact ⟨entry, hmem, hwants⟩) (by
          intro entry hmem happly hwants
          rw [happlied.sampling]
          exact hhalved entry (List.mem_cons_of_mem _ hmem) happly hwants) (happlied.sampling.trans hframe)
        rw [hround]
        exact ⟨hrest.1, happlied.trans hrest.2⟩
      | true =>
        -- from here on all effects want 4:4:4
        obtain ⟨hfull, hconverted⟩ := @frameIs_convertFor p e kind l hssm hframe
        have happlied := @frameIs_applySubEntry p e (convertFor p kind true e l).performer kind id n fun _ => by
          rw [hconverted.sampling, hwanted]
          rfl
        rw [hconverted.sampling, hconverted.flag] at happlied
        have hround : preprocessEntry p kind id e l n =
            { convertFor p kind true e l with
              performer := applySubEntry p kind id n e (convertFor p kind true e l).performer } := by
          rw [preprocessEntry, if_pos hrenders, hwanted]
        obtain ⟨hret, hrest⟩ := preprocess_settled ns { convertFor p kind true e l with
            performer := applySubEntry p kind id n e (convertFor p kind true e l).performer } (by
          intro entry hmem
          refine ⟨(hbehind entry hmem hwanted).trans hfull.symm, fun _ => ?_⟩
          rw [happlied.sampling, hfull]
          rfl)
        rw [happlied.sampling, happlied.flag] at hrest
        rw [hround]
        exact ⟨hret.trans hfull, (hconverted.trans happlied).trans hrest⟩
    · rw [if_neg hrenders] at hsorted hsome hhalved
      have hround : preprocessEntry p kind id e l n = l := if_neg hrenders
      rw [hround]
      exact ih l hssm hsorted hsome hhalved hframe

/-! ## An entry -/

theorem vjPerformPreviouslySampled_congr : ∀ {i : ℕ}, (∀ e', e'.val ≤ i → t.frameBuffer e' = s.frameBuffer e') →
    vjPerformPreviouslySampled t i = vjPerformPreviouslySampled s i := by
  intro i
  induction i with
  | zero => exact fun _ => rfl
  | succ i ih =>
    intro h
    have hbelow := ih fun e' he => h e' (Nat.le_succ_of_le he)
    rw [vjPerformPreviouslySampled, vjPerformPreviouslySampled, hbelow]
    by_cases hi : i + 1 < sampleMaxEffects
    · rw [dif_pos hi, dif_pos hi, h ⟨i + 1, hi⟩ le_rfl]
    · rw [dif_neg hi, dif_neg hi]

theorem vjPerformPreviouslySampled_frame (he : 1 ≤ e.val) :
    vjPerformPreviouslySampled s e.val =
      (s.frameBuffer e).ssm.getD (vjPerformPreviouslySampled s (e.val - 1)) := by
  obtain ⟨i, hi⟩ := e
  cases i with
  | zero => exact absurd he (Nat.not_succ_le_zero 0)
  | succ i =>
    rw [vjPerformPreviouslySampled, dif_pos hi]
    cases (s.frameBuffer ⟨i + 1, hi⟩).ssm <;> rfl

theorem lookUpSsm_frameBuffer : (lookUpSsm p e s).frameBuffer = s.frameBuffer := by
  rw [lookUpSsm]
  split_ifs <;> rfl

/-- What the flag of the second frame is taken to be, read at the beginning of the entry. -/
theorem lookUpSsm_told (h : OnlyFrame e s t) :
    (lookUpSsm p e t).ssm2 = toldSsm p e t.ssm2 (t.frameBuffer e).ssm s := by
  rw [lookUpSsm, toldSsm]
  by_cases he : 1 ≤ e.val
  · rw [if_pos he, if_pos he]
    have hbelow : vjPerformPreviouslySampled t (e.val - 1) = vjPerformPreviouslySampled s (e.val - 1) := by
      refine vjPerformPreviouslySampled_congr fun e' he' => h.others e' fun heq => ?_
      rw [heq] at he'
      omega
    dsimp only
    by_cases hlooks : LooksUp p (p.chain e).source
    · rw [if_pos hlooks, decide_eq_true hlooks, Bool.true_and, vjPerformPreviouslySampled_frame he, hbelow]
    · rw [if_neg hlooks, decide_eq_false hlooks, Bool.false_and]
  · rw [if_neg he, if_neg he]

theorem onlyFrame_lookUpSsm : OnlyFrame e s (lookUpSsm p e s) := by
  rw [lookUpSsm]
  split_ifs
  · exact onlyFrame_ssm2 _
  · exact onlyFrame_ssm2 _
  · exact OnlyFrame.refl e s

/-- The frame of an entry is sampled so, and its flag is right. -/
structure Ready (e : Fin sampleMaxEffects) (s t : Performer) (ssm : Bool) : Prop where
  only : OnlyFrame e s t
  sampling : (t.frameBuffer e).sampling = sampled ssm
  flag : ∀ ssm, (t.frameBuffer e).ssm = some ssm → (t.frameBuffer e).sampling = sampled ssm

theorem FrameIs.ready {sampling : Sampling} {flag : Option Bool} {ssm : Bool} (h : FrameIs e s t sampling flag)
    (hsampling : sampling = sampled ssm) (hflag : ∀ ssm, flag = some ssm → sampling = sampled ssm) :
    Ready e s t ssm := by
  refine ⟨h.only, h.sampling.trans hsampling, fun ssm' hssm => ?_⟩
  rw [h.sampling]
  exact hflag ssm' (h.flag.symm.trans hssm)

/-- The flag is looked up, and it is what the frame is sampled like. -/
theorem ready_lookUp {sampling : Sampling} {flag : Option Bool} {ssm : Bool} (h : FrameIs e s t sampling flag)
    (htold : sampling = sampled (toldSsm p e ssm flag s)) (hflag : ∀ ssm, flag = some ssm → sampling = sampled ssm) :
    Ready e s (lookUpSsm p e { t with ssm2 := ssm }) (lookUpSsm p e { t with ssm2 := ssm }).ssm2 := by
  have honly := h.only.trans (onlyFrame_ssm2 ssm)
  obtain ⟨-, hsampled, hown⟩ := h.ready htold hflag
  refine ⟨honly.trans onlyFrame_lookUpSsm, ?_, ?_⟩
  · rw [lookUpSsm_frameBuffer, lookUpSsm_told honly, h.flag]
    exact hsampled
  · rw [lookUpSsm_frameBuffer]
    exact hown

/-- The chain of a source whose effects want what there is. -/
theorem preprocessSecundary_settled {kind : Option Playmode} {id : ℤ} {ssm : Bool}
    (h : ∀ entry ∈ subEntries p kind id, p.subformat entry.effectId = ssm ∧
      (entry.applies = true → (s.frameBuffer e).sampling = sampled ssm)) :
    (vjPerformPreprocessSecundary p kind id ssm e s).1 = ssm ∧
      FrameIs e s (vjPerformPreprocessSecundary p kind id ssm e s).2 (s.frameBuffer e).sampling (s.frameBuffer e).ssm := by
  cases kind with
  | none => exact ⟨rfl, FrameIs.refl e s⟩
  | some kind => exact preprocess_settled (List.finRange 3) ⟨ssm, s.ssm2, s⟩ h

/-- The chain of a source whose effects want 4:4:4 from some effect on. -/
theorem preprocessSecundary_rising {kind : Option Playmode} {id : ℤ}
    (hsorted : (subEntries p kind id).Pairwise fun entry entry' =>
      p.subformat entry.effectId = true → p.subformat entry'.effectId = true)
    (hsome : ∃ entry ∈ subEntries p kind id, p.subformat entry.effectId = true)
    (hhalved : ∀ entry ∈ subEntries p kind id, entry.applies = true → p.subformat entry.effectId = false →
      (s.frameBuffer e).sampling = .halved)
    (hframe : (s.frameBuffer e).sampling = sampled (decide (kind = some .sample) && s.ssm2)) :
    (vjPerformPreprocessSecundary p kind id false e s).1 = true ∧
      FrameIs e s (vjPerformPreprocessSecundary p kind id false e s).2 .full (some true) := by
  cases kind with
  | none =>
    obtain ⟨entry, hmem, -⟩ := hsome
    cases hmem
  | some kind =>
    have hkind : decide (some kind = some Playmode.sample) = decide (kind = .sample) :=
      decide_eq_decide.mpr ⟨Option.some.inj, congrArg some⟩
    rw [hkind] at hframe
    exact preprocess_rising (List.finRange 3) ⟨false, s.ssm2, s⟩ rfl hsorted hsome hhalved hframe

/-- The second frame, when its chain has been rendered if it is rendered before, and its flag has been looked up. -/
theorem ready_subRender {sampling : Sampling} {flag : Option Bool} (h : FrameIs e s t sampling flag)
    (hfit : SecondFits p e s sampling flag) :
    Ready e s (lookUpSsm p e (subRender p e t)) (lookUpSsm p e (subRender p e t)).ssm2 := by
  cases hsub : p.subrender with
  | false =>
    have hskip : subRender p e t = { t with ssm2 := s.ssm2 } := by
      rw [subRender, if_neg (fun h => Bool.false_ne_true (hsub.symm.trans h)), ← h.ssm2]
    rw [hskip]
    exact ready_lookUp h (hfit.direct hsub).1 hfit.own
  | true =>
    rw [subRender, if_pos hsub]
    rcases hfit.nested hsub with ⟨hsettled, htold⟩ | ⟨hwanted, hsorted, hsome, hhalved, hframe, hlooks⟩
    · rw [← h.sampling] at hsettled
      obtain ⟨hret, hrendered⟩ := preprocessSecundary_settled hsettled
      rw [h.sampling, h.flag] at hrendered
      dsimp only
      rw [hret]
      exact ready_lookUp (h.trans hrendered) htold hfit.own
    · rw [← h.sampling] at hhalved hframe
      rw [← h.ssm2] at hframe
      obtain ⟨hret, hrendered⟩ := preprocessSecundary_rising hsorted hsome hhalved hframe
      dsimp only
      rw [hwanted, hret]
      refine ready_lookUp (h.trans hrendered) ?_ fun ssm hssm => by rw [← Option.some.inj hssm]; rfl
      -- the flag that the chain has set is the one that is found
      rw [toldSsm]
      split_ifs with he
      · rw [decide_eq_true (hlooks he)]
        rfl
      · rfl

/-- The second frame is converted to what the effect wants. -/
theorem Ready.convertSecond (h : Ready e s t t.ssm2) :
    Ready e s (convertSecond p e t) (p.subformat (p.chain e).effectId) ∧
      (convertSecond p e t).ssm2 = p.subformat (p.chain e).effectId := by
  rw [Perform.convertSecond]
  split_ifs with hsame
  · rw [hsame]
    exact ⟨h, rfl⟩
  · have hsampling := h.sampling
    rw [sampled_of_ne hsame] at hsampling
    have hconverted := (@frameIs_convertFrame p e t _ hsampling).setSsm (p.subformat (p.chain e).effectId)
    refine ⟨⟨h.only.trans (hconverted.only.trans (onlyFrame_ssm2 _)), hconverted.sampling, fun ssm hssm => ?_⟩, rfl⟩
    rw [← Option.some.inj (hconverted.flag.symm.trans hssm)]
    exact hconverted.sampling

/-- The chain that is rendered behind wants what the effect wants. -/
theorem Ready.lateRender (h : Ready e s t (p.subformat (p.chain e).effectId))
    (hssm : t.ssm2 = p.subformat (p.chain e).effectId)
    (hwanted : p.subrender = false →
      p.preprocessHasSsm (Pass.chainOf (p.chain e).source) (p.chain e).channel =
        some (p.subformat (p.chain e).effectId) →
      ∀ entry ∈ sourceEntries p e, p.subformat entry.effectId = p.subformat (p.chain e).effectId) :
    Ready e s (lateRender p e t) (p.subformat (p.chain e).effectId) := by
  rw [Perform.lateRender, hssm]
  split_ifs with hlate
  · obtain ⟨-, hrendered⟩ := @preprocessSecundary_settled p e t _ _ (p.subformat (p.chain e).effectId)
      fun entry hmem => ⟨hwanted hlate.1 hlate.2 entry hmem, fun _ => h.sampling⟩
    refine ⟨h.only.trans hrendered.only, hrendered.sampling.trans h.sampling, fun ssm hflag => ?_⟩
    rw [hrendered.sampling]
    exact h.flag ssm (hrendered.flag.symm.trans hflag)
  · exact h

/-- The second frame of an entry, where it fits. -/
theorem mixIn_ready {sampling : Sampling} {flag : Option Bool} (h : fetchedAs p e s = some (sampling, flag))
    (hfit : SecondFits p e s sampling flag) :
    ∃ t, mixIn p e s = .ok t ∧ Ready e s t (p.subformat (p.chain e).effectId) := by
  obtain ⟨t, ht, hfetched⟩ := applySecundary_fetchedAs h
  obtain ⟨hready, hssm⟩ := (ready_subRender hfetched hfit).convertSecond (p := p)
  rw [mixIn, ht]
  exact ⟨_, rfl, hready.lateRender hssm fun hsub => (hfit.direct hsub).2⟩

/-! ## The frame that is played -/

theorem setMain_main (picture : Picture) : (s.setMain picture).main = picture :=
  @Function.update_self (Fin primaryFrames) (fun _ => Picture) _ mainBuffer picture s.primary

/-- The frame that is played, and what is noted, come from right ones. -/
theorem Truthful.main_note (hs : Truthful s) {picture : Picture} {event : Event} {ssm : Bool}
    (hpicture : picture.sampling = sampled ssm) (hgood : event.Good) :
    Truthful { (s.setMain picture).note event with ssm1 := ssm } where
  main := by
    have hmain : (s.setMain picture).main = picture := setMain_main picture
    exact (congrArg (fun picture : Picture => picture.sampling) hmain).trans hpicture
  frames := hs.frames
  log event' hevent := by
    rcases List.mem_append.mp hevent with hold | hnew
    · exact hs.log event' hold
    · rw [List.mem_singleton.mp hnew]
      exact hgood

/-- The frame that is played is converted to what it is not. -/
theorem Truthful.convertMain (hs : Truthful s) {toFull : Bool} (h : ¬ toFull = s.ssm1) :
    Truthful (s.convertMain p toFull) := by
  have hmain := hs.main
  rw [sampled_of_ne h] at hmain
  refine hs.main_note ?_ (show (Event.convert toFull s.main.sampling).Good from hmain)
  rw [Pass.convert]
  dsimp only
  rw [hmain, converted_sampled]

/-- The planes of an entry's frame are replaced by planes that are sampled like them. -/
theorem Truthful.setPicture (hs : Truthful s) (planes : Planes) :
    Truthful (s.setPicture e ⟨planes, (s.frameBuffer e).sampling⟩) := by
  have hput := (FrameIs.refl e s).setPicture ⟨planes, (s.frameBuffer e).sampling⟩
  refine hput.only.truthful hs fun ssm hssm => ?_
  rw [hput.sampling]
  exact hs.frames e ssm (hput.flag.symm.trans hssm)

/-- The effect of an entry is applied to planes that are all sampled like the frame that is played. -/
theorem Truthful.applyFirst (hs : Truthful s) (hssm : s.ssm1 = p.subformat (p.chain e).effectId)
    (hframe : p.extraFrame (p.chain e).effectId = true →
      (s.frameBuffer e).sampling = sampled (p.subformat (p.chain e).effectId)) :
    Truthful (applyFirst p e s) := by
  have hmain := hs.main
  rw [hssm] at hmain
  rw [Perform.applyFirst]
  dsimp only
  split_ifs with happlies hextra
  · have hgood : (Event.apply (p.subformat (p.chain e).effectId)
        [s.main.sampling, (s.frameBuffer e).sampling]).Good := by
      intro sampling hmem
      rcases List.mem_cons.mp hmem with rfl | hmem
      · exact hmain
      · rw [List.mem_singleton.mp hmem]
        exact hframe hextra
    exact (hs.setPicture (p.apply e s.main.planes (s.frameBuffer e).planes).2).main_note hs.main hgood
  · refine hs.main_note hs.main ?_
    intro sampling hmem
    rw [List.mem_singleton.mp hmem]
    exact hmain
  · exact hs

/-- The frame that is played is converted if necessary, and the effect is applied. -/
theorem Truthful.effect (hs : Truthful s) (hframe : p.extraFrame (p.chain e).effectId = true →
    (s.frameBuffer e).sampling = sampled (p.subformat (p.chain e).effectId)) :
    Truthful (Perform.applyFirst p e (if p.subformat (p.chain e).effectId = s.ssm1 then s
      else s.convertMain p (p.subformat (p.chain e).effectId))) := by
  split_ifs with hsame
  · exact hs.applyFirst hsame.symm hframe
  · exact (hs.convertMain hsame).applyFirst rfl hframe

/-- An entry whose second frame fits, if it has one, is rendered. -/
theorem renderChainEntry_truthful (hs : Truthful s) (h : StepFits p s (.entry e)) :
    ∃ t, vjPerformRenderChainEntry p e s = .ok t ∧ Truthful t := by
  rw [vjPerformRenderChainEntry]
  dsimp only
  split_ifs with hrenders hextra
  · obtain ⟨sampling, flag, hfetched, hfit⟩ := h ⟨hrenders, hextra⟩
    obtain ⟨t, ht, hready⟩ := mixIn_ready hfetched hfit
    rw [ht]
    exact ⟨_, rfl, (hready.only.truthful hs hready.flag).effect fun _ => hready.sampling⟩
  · exact ⟨_, rfl, hs.effect fun hextra' => absurd hextra' hextra⟩
  · exact ⟨s, rfl, hs⟩

/-! ## The fader, and what is drawn -/

/-- The frame that was kept is converted if the frame that is played has been, and they are blended. -/
theorem postChain_truthful (hs : Truthful s) (h : StepFits p s .postChain) : Truthful (vjPerformPostChain p s) := by
  rw [vjPerformPostChain]
  split_ifs with hfader
  · obtain ⟨hmode, htemp⟩ := h hfader
    have hkept : Truthful (postSupersample p s) ∧
        (postSupersample p s).temp.sampling = sampled (postSupersample p s).ssm1 := by
      rw [postSupersample, hmode]
      dsimp only
      split_ifs with hssm
      · refine ⟨⟨?_, hs.frames, ?_⟩, ?_⟩
        · have hmain := hs.main
          rw [hssm] at hmain
          exact hmain
        · intro event hevent
          rcases List.mem_append.mp hevent with hold | hnew
          · exact hs.log event hold
          · rw [List.mem_singleton.mp hnew]
            exact htemp
        · rw [vjPerformSupersampleChain]
          dsimp only
          rw [Pass.convert]
          dsimp only
          rw [htemp]
          exact converted_sampled true
      · rw [htemp, Bool.eq_false_of_not_eq_true hssm]
        exact ⟨hs, rfl⟩
    refine hkept.1.main_note hkept.1.main ?_
    intro sampling hmem
    rcases List.mem_cons.mp hmem with rfl | hmem
    · exact hkept.1.main
    · rw [List.mem_singleton.mp hmem]
      exact hkept.2
  · exact hs

theorem drawUpon_truthful (hs : Truthful s) (shown : Bool) : Truthful (drawUpon p shown s) := by
  rw [drawUpon]
  split_ifs with hshown hssm
  · refine hs.main_note hs.main ?_
    intro sampling hmem
    rw [List.mem_singleton.mp hmem, hs.main, hssm]
  · have hconverted := hs.convertMain (p := p) (fun h : true = s.ssm1 => hssm h.symm)
    refine hconverted.main_note hconverted.main ?_
    intro sampling hmem
    rw [List.mem_singleton.mp hmem]
    exact hconverted.main
  · exact hs

/-- The frame goes out in 4:2:2. -/
theorem finishRender_truthful (hs : Truthful s) :
    Truthful (vjPerformFinishRender p s) ∧ (vjPerformFinishRender p s).main.sampling = .halved := by
  have hdrawn := drawUpon_truthful (p := p)
    (drawUpon_truthful (p := p) (drawUpon_truthful (p := p) hs p.font) (p.osd && !p.composite)) p.composite
  have hend : ∀ u : Performer, Truthful u →
      Truthful { (if u.ssm1 then u.convertMain p false else u) with ssm2 := false } ∧
        ({ (if u.ssm1 then u.convertMain p false else u) with ssm2 := false } : Performer).main.sampling = .halved := by
    intro u hu
    split_ifs with hssm
    · have hconverted := hu.convertMain (p := p) (fun h : false = u.ssm1 => Bool.false_ne_true (h.trans hssm))
      exact ⟨⟨hconverted.main, hconverted.frames, hconverted.log⟩, hconverted.main⟩
    · refine ⟨⟨hu.main, hu.frames, hu.log⟩, ?_⟩
      have hmain := hu.main
      rw [Bool.eq_false_of_not_eq_true hssm] at hmain
      exact hmain
  exact hend _ hdrawn

/-! ## Passes -/

/-- The frame is fetched in 4:2:2, or left as it was. -/
theorem startPass_truthful (black : Planes) (h : s.main.sampling = .halved) : Truthful (startPass p black s) := by
  have hput : ∀ (u : Performer) (frame : Planes), Truthful u → u.ssm1 = false →
      Truthful (u.setMain (p.write frame u.main)) := by
    intro u frame hu hssm
    have hmain : (u.setMain (p.write frame u.main)).main = p.write frame u.main := setMain_main _
    refine ⟨?_, hu.frames, hu.log⟩
    rw [hmain]
    show Sampling.halved = sampled u.ssm1
    rw [hssm]
    rfl
  have hcleared : Truthful (cleared s) := by
    refine ⟨h, fun e ssm hssm => ?_, fun event hevent => ?_⟩
    · cases hssm
    · cases hevent
  have hpre : ∀ u, Truthful u → Truthful (vjPerformPreChain p u) := by
    intro u hu
    rw [vjPerformPreChain]
    split_ifs
    · exact ⟨hu.main, hu.frames, hu.log⟩
    · exact hu
  refine hpre _ ?_
  rw [fillBuffer]
  cases p.mode with
  | sample =>
    dsimp only
    suffices hfilled : ∀ u, Truthful u → Truthful { u with
        cachedSampleFrames := Function.update u.cachedSampleFrames cacheTop p.sampleId } by
      refine hfilled _ ?_
      cases p.feedbackBuffer with
      | some frame => exact hput _ frame hcleared rfl
      | none =>
        dsimp only
        -- slow motion takes another buffer than the frame that is played
        have hslow : ∀ picture, Truthful
            { cleared s with primary := Function.update (cleared s).primary slowBuffer picture } := by
          intro picture
          have hne : mainBuffer ≠ slowBuffer := fun heq => Nat.succ_ne_zero 6 (congrArg Fin.val heq).symm
          have hmain : ({ cleared s with
              primary := Function.update (cleared s).primary slowBuffer picture } : Performer).main = s.main :=
            Function.update_of_ne hne picture s.primary
          refine ⟨?_, hcleared.frames, hcleared.log⟩
          rw [hmain]
          exact h
        cases p.video p.sampleId p.currentFrame with
        | none =>
          dsimp only
          split_ifs
          · exact hslow _
          · exact hcleared
        | some frame =>
          dsimp only
          split_ifs
          · exact hput _ frame (hslow _) rfl
          · exact hput _ frame hcleared rfl
    exact fun u hu => ⟨hu.main, hu.frames, hu.log⟩
  | tag =>
    dsimp only
    cases p.feedbackBuffer with
    | some frame => exact hput _ frame hcleared rfl
    | none =>
      dsimp only
      split
      · rename_i frame _
        have hfilled := hput (cleared s) frame hcleared rfl
        exact ⟨hfilled.main, hfilled.frames, hfilled.log⟩
      · exact hput _ black hcleared rfl

/-- **The flags are truthful** throughout every pass whose steps all fit, effects get what they want, no planes are
converted twice; and the frame is left in 4:2:2 for the next pass. -/
theorem pass_truthful (p : Pass) (black : Planes) (s : Performer) (hstart : s.main.sampling = .halved)
    (h : RunMeets (renderStep p) (StepFits p) (startPass p black s) (passSteps p)) :
    Truthful (startPass p black s) ∧
      RunShows (renderStep p) (fun _ o _ t => Truthful t ∧ (o = .finish → t.main.sampling = .halved))
        (startPass p black s) (passSteps p) := by
  have hstep : ∀ u o, Truthful u → StepFits p u o →
      ∃ r t, renderStep p u o = .ok (r, t) ∧ Truthful t ∧ Truthful t ∧ (o = .finish → t.main.sampling = .halved) := by
    intro u o hu ho
    cases o with
    | entry e =>
      obtain ⟨t, ht, htruthful⟩ := renderChainEntry_truthful hu ho
      refine ⟨(), t, ?_, htruthful, htruthful, fun h => by cases h⟩
      rw [renderStep, ht]
      rfl
    | postChain => exact ⟨(), _, rfl, postChain_truthful hu ho, postChain_truthful hu ho, fun h => by cases h⟩
    | finish =>
      obtain ⟨htruthful, hhalved⟩ := finishRender_truthful (p := p) hu
      exact ⟨(), _, rfl, htruthful, htruthful, fun _ => hhalved⟩
  exact ⟨startPass_truthful black hstart, runOps_shows hstep _ _ (startPass_truthful black hstart) h⟩

end Steps

/-- The first entry mixes stream 5 into stream 1, with an effect that wants 4:4:4. -/
def mixesFull : Pass :=
  { mixesStream .tag 1 fun e => decide (e = entry0) with subformat := fun _ => true }

/-- The frame is fetched in 4:2:2, and converted for the effect. -/
theorem pass_truthful_full :
    Truthful (startPass mixesFull (solid 16) blankPerformer) ∧
      RunShows (renderStep mixesFull) (fun _ o _ t => Truthful t ∧ (o = .finish → t.main.sampling = .halved))
        (startPass mixesFull (solid 16) blankPerformer) (passSteps mixesFull) := by
  refine pass_truthful mixesFull (solid 16) blankPerformer rfl ?_
  obtain ⟨rest, hsteps, hrest⟩ := @passSteps_cons mixesFull rfl
  rw [hsteps]
  have hidle : ∀ (e : Fin sampleMaxEffects) (s : Performer), e ≠ entry0 → StepFits mixesFull s (.entry e) :=
    fun e _ hne hmix => absurd (of_decide_eq_true hmix.1.1) hne
  refine ⟨fun _ => ⟨.halved, none, rfl, ?_⟩, fun _ s _ => ⟨hidle _ _ (by decide), fun _ t _ =>
    RunMeets.of_mem fun o ho u => ?_⟩⟩
  · refine ⟨fun ssm hssm => ?_, fun _ => ⟨rfl, fun hlate => ?_⟩, fun hsub => ?_⟩
    · cases hssm
    · cases hlate
    · cases hsub
  · cases o with
    | postChain => exact fun hfader => by cases hfader
    | finish => trivial
    | entry e =>
      refine hidle e _ fun heq => ?_
      have hle := hrest e ho
      rw [heq] at hle
      cases hle

/-- The chain of stream 5 is rendered before, and wants 4:2:2. -/
def preparesHalved : Pass :=
  { mixesStream .tag 1 fun e => decide (e = entry0) with
    chain := fun e => ⟨decide (e = entry0), 201, 5, 1, true⟩
    subChain := fun _ _ n => ⟨decide (n.val = 0), 101, 0, 0, true⟩
    subrender := true
    subformat := fun id => decide (id = 201)
    extraFrame := fun id => decide (id = 201) }

/-- The chain of a source starts from what the entry wants: a frame in 4:2:2 is taken to be in 4:4:4, and
subsampled again. -/
theorem not_pass_truthful : ¬ ∀ (p : Pass) (black : Planes) (s : Performer), s.main.sampling = .halved →
    RunShows (renderStep p) (fun _ _ _ t => Truthful t) (startPass p black s) (passSteps p) := by
  intro h
  have hrun := h preparesHalved (solid 16) blankPerformer rfl
  obtain ⟨rest, hsteps, -⟩ := @passSteps_cons preparesHalved rfl
  rw [hsteps] at hrun
  obtain ⟨_, t, ht, htruthful, -⟩ := hrun
  obtain ⟨-, rfl⟩ := Prod.mk.inj (Except.ok.inj ht)
  have hgood : (Event.convert false .halved).Good := htruthful.log _ (List.mem_cons_self)
  cases hgood

end Veejay.Perform
