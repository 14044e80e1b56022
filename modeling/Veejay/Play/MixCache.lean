import Veejay.Play.RenderChain

/-!
# The cache of the frames that are mixed in

A source that an earlier entry has fetched is not fetched again: its planes are copied.  The place of the cache where
it is found says from where, but the planes are always those of a primary buffer.

* `cachedAt`, `fetchAnew` — where the source of an entry is found, and what fetching it again gives;
* `Transparent` — **the copy has the planes that fetching the source again gives**;
* `ReusesMain` — the copies that are made of what is played, while it is what has been fetched;
* `mixing_transparent` — **so it is in every pass that makes no other copies**.
-/

namespace Veejay.Perform

open CLib Veejay.Sample Veejay.Play Veejay.Samples

section Cache

variable (p : Pass)

/-! ## Fetching -/

/-- An entry that mixes in a frame. -/
def Mixes (e : Fin sampleMaxEffects) : Prop :=
  Pass.Renders (p.chain e) ∧ p.extraFrame (p.chain e).effectId = true

/-- Its source is a stream. -/
def FromStream (e : Fin sampleMaxEffects) : Prop := (p.chain e).source ∈ Pass.streamTypes p.mode

instance (e : Fin sampleMaxEffects) : Decidable (FromStream p e) :=
  inferInstanceAs (Decidable ((p.chain e).source ∈ Pass.streamTypes p.mode))

/-- The frame of the sample is looked for. -/
def seek (e : Fin sampleMaxEffects) (s : Performer) : ℤ × Performer :=
  if FromStream p e then (0, s)
  else if (p.chain e).source = 0 then subframeOf p (p.chain e).channel e s
  else (0, s)

/-- The place of the caches where the source is found. -/
def cachedAt (e : Fin sampleMaxEffects) (s : Performer) : Option (Fin cacheSize) :=
  if FromStream p e then vjPerformTagIsCached p (p.chain e).channel s
  else if (p.chain e).source = 0 ∧ p.noCaching = false then vjPerformSampleIsCached p (p.chain e).channel s
  else none

/-- The source is fetched, whatever has been fetched before: whether it could be, and the buffers. -/
def fetchAnew (e : Fin sampleMaxEffects) (s : Performer) : Bool × Performer :=
  if FromStream p e then vjTagGetFrame p (p.chain e).channel e s
  else if (p.chain e).source = 0 then
    vjPerformGetFrameFx p (p.chain e).channel (seek p e s).1 e (seek p e s).2
  else (false, s)

/-- The source is entered at the place of the entry. -/
def keep (e : Fin sampleMaxEffects) (s : Performer) : Performer :=
  if FromStream p e then
    { s with cachedTagFrames := Function.update s.cachedTagFrames e.succ (p.chain e).channel }
  else { s with cachedSampleFrames := Function.update s.cachedSampleFrames e.succ (p.chain e).channel }

/-- The frame of an entry, from a place of the caches or fetched. -/
def takenFrom (e : Fin sampleMaxEffects) (s : Performer) : Option (Fin cacheSize) → Exec Performer
  | some c => vjPerformUseCachedYcbcrFrame p c e (seek p e s).2 >>= fun t => .ok (keep p e t)
  | none => .ok (if (fetchAnew p e s).1 then keep p e (fetchAnew p e s).2 else (fetchAnew p e s).2)

variable {p} {e : Fin sampleMaxEffects} {s t : Performer}

/-- Looking for a frame changes nothing but the samples. -/
theorem subframeOf_samples (id : ℤ) : ∃ samples, (subframeOf p id e s).2 = { s with samples := samples } := by
  rw [subframeOf]
  split
  · split_ifs
    · exact ⟨_, rfl⟩
    · exact ⟨s.samples, rfl⟩
  · exact ⟨_, rfl⟩
  · exact ⟨s.samples, rfl⟩

theorem seek_samples : ∃ samples, (seek p e s).2 = { s with samples := samples } := by
  rw [seek]
  split_ifs
  · exact ⟨s.samples, rfl⟩
  · exact subframeOf_samples _
  · exact ⟨s.samples, rfl⟩

/-- The frame of an entry is copied from the cache, or fetched. -/
theorem vjPerformApplySecundary_eq : vjPerformApplySecundary p e s = takenFrom p e s (cachedAt p e s) := by
  by_cases hstream : (p.chain e).source ∈ Pass.streamTypes p.mode
  · have hfrom : FromStream p e := hstream
    have hkeep : keep p e = fun t => { t with
        cachedTagFrames := Function.update t.cachedTagFrames e.succ (p.chain e).channel } := by
      funext t
      exact if_pos hfrom
    have hseek : seek p e s = (0, s) := if_pos hfrom
    have hfetch : fetchAnew p e s = vjTagGetFrame p (p.chain e).channel e s := if_pos hfrom
    have hcached : cachedAt p e s = vjPerformTagIsCached p (p.chain e).channel s := if_pos hfrom
    rw [vjPerformApplySecundary, if_pos hstream, hcached]
    cases vjPerformTagIsCached p (p.chain e).channel s with
    | none =>
      rewrite [takenFrom, hfetch, hkeep]
      rfl
    | some c =>
      rewrite [takenFrom, hseek, hkeep]
      rfl
  · have hnot : ¬ FromStream p e := hstream
    have hkeep : keep p e = fun t => { t with
        cachedSampleFrames := Function.update t.cachedSampleFrames e.succ (p.chain e).channel } := by
      funext t
      exact if_neg hnot
    by_cases hsample : (p.chain e).source = 0
    · have hseek : seek p e s = subframeOf p (p.chain e).channel e s := by
        rw [seek, if_neg hnot, if_pos hsample]
      have hfetch : fetchAnew p e s = vjPerformGetFrameFx p (p.chain e).channel
          (subframeOf p (p.chain e).channel e s).1 e (subframeOf p (p.chain e).channel e s).2 := by
        rw [fetchAnew, if_neg hnot, if_pos hsample, hseek]
      have hlookup : vjPerformSampleIsCached p (p.chain e).channel s =
          vjPerformSampleIsCached p (p.chain e).channel (subframeOf p (p.chain e).channel e s).2 := by
        obtain ⟨samples, hsamples⟩ := @subframeOf_samples p e s (p.chain e).channel
        rw [hsamples]
        rfl
      rw [vjPerformApplySecundary, cachedAt, if_neg hstream, if_neg hnot, if_pos hsample, hlookup]
      dsimp only
      cases hcaching : p.noCaching with
      | true =>
        have hoff : ¬ ((p.chain e).source = 0 ∧ true = false) := fun h => Bool.false_ne_true h.2.symm
        rewrite [if_neg hoff, takenFrom, hfetch, hkeep]
        cases vjPerformSampleIsCached p (p.chain e).channel (subframeOf p (p.chain e).channel e s).2 <;> rfl
      | false =>
        have hon : (p.chain e).source = 0 ∧ false = false := ⟨hsample, rfl⟩
        rewrite [if_pos hon]
        cases vjPerformSampleIsCached p (p.chain e).channel (subframeOf p (p.chain e).channel e s).2 with
        | none =>
          rewrite [takenFrom, hfetch, hkeep]
          rfl
        | some c =>
          rewrite [takenFrom, hseek, hkeep]
          rfl
    · have hoff : ¬ ((p.chain e).source = 0 ∧ p.noCaching = false) := fun h => hsample h.1
      have hfetch : fetchAnew p e s = (false, s) := by
        rw [fetchAnew, if_neg hnot, if_neg hsample]
      rewrite [vjPerformApplySecundary, cachedAt, if_neg hstream, if_neg hnot, if_neg hsample, if_neg hoff, takenFrom,
        hfetch]
      rfl

/-! ## The copies -/

/-- The planes that an entry copies are those that fetching its source again gives. -/
def Transparent (p : Pass) (s : Performer) : Step → Prop
  | .entry e => Mixes p e → (p.chain e).channel ≠ 0 → ∀ c, cachedAt p e s = some c →
      ∃ t t', vjPerformUseCachedYcbcrFrame p c e (seek p e s).2 = .ok t ∧ fetchAnew p e s = (true, t') ∧
        (t.frameBuffer e).planes = (t'.frameBuffer e).planes
  | _ => True

/-- The frame that is played is as it was at the beginning: nothing has been done to any planes, or nothing that is
left to be seen. -/
def Untouched (start s : Performer) : Prop := s.log = [] ∨ s.main = start.main ∧ s.ssm1 = false

/-- What is copied is the frame that is played: a stream while it is untouched, and a sample without feedback and slow
motion, which is not decoded again either. -/
def ReusesMain (p : Pass) (start s : Performer) : Step → Prop
  | .entry e => Mixes p e → ∀ c, cachedAt p e s = some c → c.val = 0 ∧ (FromStream p e → Untouched start s) ∧
      (¬ FromStream p e → p.feedback = false ∧ sampleGetFramedup s (p.chain e).channel ≤ 1)
  | _ => True

/-- From `s` to `t` the first places of the caches stay, and the frame that is played does as long as nothing is done
to any planes. -/
structure Keeps (s t : Performer) : Prop where
  tag : t.cachedTagFrames cacheTop = s.cachedTagFrames cacheTop
  sample : t.cachedSampleFrames cacheTop = s.cachedSampleFrames cacheTop
  main : t.log = [] → s.log = [] ∧ t.main = s.main ∧ t.ssm1 = s.ssm1

theorem Keeps.refl (s : Performer) : Keeps s s := ⟨rfl, rfl, fun h => ⟨h, rfl, rfl⟩⟩

theorem Keeps.trans {s t u : Performer} (h : Keeps s t) (h' : Keeps t u) : Keeps s u where
  tag := h'.tag.trans h.tag
  sample := h'.sample.trans h.sample
  main hu := by
    obtain ⟨ht, hmain, hssm⟩ := h'.main hu
    obtain ⟨hs, hmain', hssm'⟩ := h.main ht
    exact ⟨hs, hmain.trans hmain', hssm.trans hssm'⟩

/-- Something is noted. -/
theorem Keeps.of_log (htag : t.cachedTagFrames = s.cachedTagFrames) (hsample : t.cachedSampleFrames = s.cachedSampleFrames)
    (hlog : t.log ≠ []) : Keeps s t :=
  ⟨congrFun htag _, congrFun hsample _, fun h => absurd h hlog⟩

theorem keeps_setFrame (frame : YcbcrFrame) : Keeps s (s.setFrame e frame) := ⟨rfl, rfl, fun h => ⟨h, rfl, rfl⟩⟩

theorem keeps_note (h : Keeps s t) (event : Event) : Keeps s (t.note event) :=
  ⟨h.tag, h.sample, fun hlog => absurd hlog (List.append_ne_nil_of_right_ne_nil _ (List.cons_ne_nil _ _))⟩

theorem keeps_convertFrame (toFull : Bool) : Keeps s (s.convertFrame p toFull e) := keeps_note (keeps_setFrame _) _

theorem keeps_convertMain (toFull : Bool) : Keeps s (s.convertMain p toFull) :=
  ⟨rfl, rfl, fun hlog => absurd hlog (List.append_ne_nil_of_right_ne_nil _ (List.cons_ne_nil _ _))⟩

theorem keeps_keep : Keeps s (keep p e s) := by
  rw [keep]
  have hne : cacheTop ≠ e.succ := fun h => Nat.succ_ne_zero _ (congrArg Fin.val h).symm
  split_ifs
  · refine ⟨?_, rfl, fun h => ⟨h, rfl, rfl⟩⟩
    exact Function.update_of_ne hne (p.chain e).channel _
  · refine ⟨rfl, ?_, fun h => ⟨h, rfl, rfl⟩⟩
    exact Function.update_of_ne hne (p.chain e).channel _

theorem keeps_seek : Keeps s (seek p e s).2 := by
  obtain ⟨samples, hsamples⟩ := @seek_samples p e s
  rw [hsamples]
  exact ⟨rfl, rfl, fun h => ⟨h, rfl, rfl⟩⟩

theorem keeps_fetchAnew : Keeps s (fetchAnew p e s).2 := by
  rw [fetchAnew]
  split_ifs
  · rw [vjTagGetFrame]
    split
    · exact keeps_setFrame _
    · exact Keeps.refl s
  · rw [vjPerformGetFrameFx]
    by_cases hself : p.feedback = false ∧ p.sampleId = (p.chain e).channel ∧ p.mode = .sample
    · rw [if_pos hself]
      exact keeps_seek.trans (keeps_setFrame _)
    · rw [if_neg hself]
      split
      · exact keeps_seek.trans (keeps_setFrame _)
      · exact keeps_seek
  · exact Keeps.refl s

/-- The first place of the caches stands for the frame that is played. -/
theorem vjPerformUseCachedYcbcrFrame_zero {c : Fin cacheSize} (hc : c.val = 0) :
    vjPerformUseCachedYcbcrFrame p c e s =
      .ok (s.setFrame e ⟨p.copy s.ssm1 s.main (s.frameBuffer e).toPicture, some s.ssm1⟩) := by
  obtain rfl : c = cacheTop := Fin.ext hc
  rfl

/-- The frame of an entry is there where its place of the caches is the first one. -/
theorem applySecundary_keeps (h : ∀ c, cachedAt p e s = some c → c.val = 0) :
    ∃ t, vjPerformApplySecundary p e s = .ok t ∧ Keeps s t := by
  rw [vjPerformApplySecundary_eq]
  cases hcached : cachedAt p e s with
  | some c =>
    rw [takenFrom, vjPerformUseCachedYcbcrFrame_zero (h c hcached), ok_bind]
    exact ⟨_, rfl, (keeps_seek.trans (keeps_setFrame _)).trans keeps_keep⟩
  | none =>
    refine ⟨_, rfl, ?_⟩
    split_ifs
    · exact keeps_fetchAnew.trans keeps_keep
    · exact keeps_fetchAnew

theorem keeps_preprocessEntry (kind : Playmode) (id : ℤ) (l : Locals) (n : Fin 3) :
    Keeps l.performer (preprocessEntry p kind id e l n).performer := by
  rw [preprocessEntry]
  split_ifs
  · have hconvert : Keeps l.performer
        (convertFor p kind (p.subformat (p.subChain kind id n).effectId) e l).performer := by
      rw [convertFor]
      split_ifs
      · exact Keeps.refl _
      · exact (keeps_convertFrame _).trans (keeps_setFrame _)
      · exact keeps_setFrame _
    refine hconvert.trans ?_
    dsimp only
    rw [applySubEntry]
    split_ifs
    · exact keeps_note (keeps_setFrame _) _
    · exact Keeps.refl _
  · exact Keeps.refl _

theorem keeps_preprocess (kind : Option Playmode) (id : ℤ) (ssm : Bool) :
    Keeps s (vjPerformPreprocessSecundary p kind id ssm e s).2 := by
  cases kind with
  | none => exact Keeps.refl s
  | some kind =>
    have hloop : ∀ (ns : List (Fin 3)) (l : Locals),
        Keeps l.performer (ns.foldl (preprocessEntry p kind id e) l).performer := by
      intro ns
      induction ns with
      | nil => exact fun l => Keeps.refl _
      | cons n ns ih => exact fun l => (keeps_preprocessEntry kind id l n).trans (ih _)
    exact hloop _ ⟨ssm, s.ssm2, s⟩

theorem keeps_ssm2 (ssm : Bool) : Keeps s { s with ssm2 := ssm } := ⟨rfl, rfl, fun h => ⟨h, rfl, rfl⟩⟩

/-- The frame that is mixed in leaves the frame that is played alone. -/
theorem mixIn_keeps (h : ∀ c, cachedAt p e s = some c → c.val = 0) : ∃ t, mixIn p e s = .ok t ∧ Keeps s t := by
  obtain ⟨t, ht, hfetched⟩ := applySecundary_keeps h
  have hsub : Keeps t (subRender p e t) := by
    rw [subRender]
    split_ifs
    · exact (keeps_preprocess _ _ _).trans (keeps_ssm2 _)
    · exact Keeps.refl t
  have hlook : ∀ u, Keeps u (lookUpSsm p e u) := by
    intro u
    rw [lookUpSsm]
    split_ifs
    · exact keeps_ssm2 _
    · exact keeps_ssm2 _
    · exact Keeps.refl u
  have hconvert : ∀ u, Keeps u (convertSecond p e u) := by
    intro u
    rw [convertSecond]
    split_ifs
    · exact Keeps.refl u
    · exact ((keeps_convertFrame _).trans (keeps_setFrame _)).trans (keeps_ssm2 _)
  have hlate : ∀ u, Keeps u (lateRender p e u) := by
    intro u
    rw [lateRender]
    split_ifs
    · exact keeps_preprocess _ _ _
    · exact Keeps.refl u
  rw [mixIn, ht]
  exact ⟨_, rfl, hfetched.trans (hsub.trans ((hlook _).trans ((hconvert _).trans (hlate _))))⟩

theorem keeps_applyFirst : Keeps s (applyFirst p e s) := by
  rw [applyFirst]
  split_ifs
  · exact Keeps.of_log rfl rfl (List.append_ne_nil_of_right_ne_nil _ (List.cons_ne_nil _ _))
  · exact Keeps.of_log rfl rfl (List.append_ne_nil_of_right_ne_nil _ (List.cons_ne_nil _ _))
  · exact Keeps.refl s

/-- An entry that copies from the first place only is rendered. -/
theorem renderChainEntry_keeps (h : Mixes p e → ∀ c, cachedAt p e s = some c → c.val = 0) :
    ∃ t, vjPerformRenderChainEntry p e s = .ok t ∧ Keeps s t := by
  rw [vjPerformRenderChainEntry]
  dsimp only
  split_ifs with hrenders hextra
  · obtain ⟨t, ht, hkeeps⟩ := mixIn_keeps (h ⟨hrenders, hextra⟩)
    rw [ht]
    refine ⟨_, rfl, hkeeps.trans (Keeps.trans ?_ keeps_applyFirst)⟩
    split_ifs
    · exact Keeps.refl t
    · exact keeps_convertMain _
  · refine ⟨_, rfl, Keeps.trans ?_ keeps_applyFirst⟩
    split_ifs
    · exact Keeps.refl s
    · exact keeps_convertMain _
  · exact ⟨s, rfl, Keeps.refl s⟩

theorem keeps_postChain : Keeps s (vjPerformPostChain p s) := by
  have hsuper : Keeps s (vjPerformSupersampleChain p s) :=
    Keeps.of_log rfl rfl (List.append_ne_nil_of_right_ne_nil _ (List.cons_ne_nil _ _))
  have hkept : Keeps s (postSupersample p s) := by
    rw [postSupersample]
    cases p.mode with
    | sample =>
      dsimp only
      split_ifs
      · exact hsuper
      · exact Keeps.refl s
    | tag =>
      dsimp only
      split_ifs
      · exact Keeps.refl s
      · exact hsuper
  rw [vjPerformPostChain]
  split_ifs
  · exact hkept.trans (Keeps.of_log rfl rfl (List.append_ne_nil_of_right_ne_nil _ (List.cons_ne_nil _ _)))
  · exact Keeps.refl s

theorem keeps_drawUpon (shown : Bool) : Keeps s (drawUpon p shown s) := by
  rw [drawUpon]
  split_ifs
  · exact Keeps.of_log rfl rfl (List.append_ne_nil_of_right_ne_nil _ (List.cons_ne_nil _ _))
  · exact Keeps.of_log rfl rfl (List.append_ne_nil_of_right_ne_nil _ (List.cons_ne_nil _ _))
  · exact Keeps.refl s

theorem keeps_finishRender : Keeps s (vjPerformFinishRender p s) := by
  have hdrawn := ((@keeps_drawUpon p s p.font).trans (@keeps_drawUpon p _ (p.osd && !p.composite))).trans
    (@keeps_drawUpon p _ p.composite)
  refine (hdrawn.trans ?_).trans (keeps_ssm2 false)
  split_ifs
  · exact keeps_convertMain _
  · exact Keeps.refl _

/-! ## What is found -/

theorem tagFrames_of_found {id : ℤ} {c : Fin cacheSize} (h : vjPerformTagIsCached p id s = some c) (hc : c.val = 0) :
    s.cachedTagFrames cacheTop = id := by
  by_contra htop
  rw [vjPerformTagIsCached, if_neg htop] at h
  cases hfind : (List.finRange cacheSize).find? fun c => decide (s.cachedTagFrames c = id) with
  | none =>
    rw [hfind] at h
    cases h
  | some c' =>
    rw [hfind] at h
    dsimp only at h
    split_ifs at h
    obtain rfl := Option.some.inj h
    obtain rfl : c' = cacheTop := Fin.ext hc
    have hfound := List.find?_some hfind
    exact htop (of_decide_eq_true hfound)

theorem sampleFrames_of_found {id : ℤ} {c : Fin cacheSize} (h : vjPerformSampleIsCached p id s = some c)
    (hc : c.val = 0) : s.cachedSampleFrames cacheTop = id := by
  by_contra htop
  rw [vjPerformSampleIsCached, if_neg htop] at h
  cases hfind : (List.finRange sampleMaxEffects).find? fun c => decide (s.cachedSampleFrames c.succ = id) with
  | none =>
    rw [hfind] at h
    cases h
  | some c' =>
    rw [hfind] at h
    dsimp only at h
    split_ifs at h
    obtain rfl := Option.some.inj h
    cases hc

/-- The place of a stream is taken by the one that is played, whose frame has been fetched. -/
theorem startPass_tag (black : Planes) (hid : (startPass p black s).cachedTagFrames cacheTop ≠ 0) :
    ∃ frame, p.streamFrame ((startPass p black s).cachedTagFrames cacheTop) = some frame ∧
      (startPass p black s).main = p.write frame s.main := by
  have hpre : ∀ u : Performer, (vjPerformPreChain p u).cachedTagFrames = u.cachedTagFrames ∧
      (vjPerformPreChain p u).main = u.main := by
    intro u
    rw [vjPerformPreChain]
    split_ifs <;> exact ⟨rfl, rfl⟩
  rw [startPass, (hpre _).1] at hid ⊢
  rw [(hpre _).2]
  rw [fillBuffer] at hid ⊢
  cases hmode : p.mode with
  | sample =>
    rw [hmode] at hid
    dsimp only at hid
    cases hback : p.feedbackBuffer with
    | some frame => exact absurd (by rw [hback]; rfl) hid
    | none =>
      rw [hback] at hid
      dsimp only at hid
      refine absurd ?_ hid
      cases p.video p.sampleId p.currentFrame <;> dsimp only <;> split_ifs <;> rfl
  | tag =>
    rw [hmode] at hid
    dsimp only at hid ⊢
    cases hback : p.feedbackBuffer with
    | some frame => exact absurd (by rw [hback]; rfl) hid
    | none =>
      rw [hback] at hid
      dsimp only at hid ⊢
      cases hactive : (p.streams p.sampleId).active with
      | false =>
        rw [hactive, if_neg Bool.false_ne_true] at hid
        exact absurd rfl hid
      | true =>
        rw [hactive, if_pos rfl] at hid
        rw [if_pos rfl]
        cases hframe : (p.streams p.sampleId).frame with
        | none =>
          rw [hframe] at hid
          exact absurd rfl hid
        | some frame =>
          refine ⟨frame, ?_, ?_⟩
          · dsimp only
            rw [Function.update_self, Pass.streamFrame, hactive, Bool.true_or, if_pos rfl, hframe]
          · dsimp only
            exact Function.update_self mainBuffer (p.write frame s.main) s.primary

/-- The place of a sample is taken by the one that is played. -/
theorem startPass_sample (black : Planes) (hid : (startPass p black s).cachedSampleFrames cacheTop ≠ 0) :
    p.mode = .sample ∧ (startPass p black s).cachedSampleFrames cacheTop = p.sampleId := by
  have hpre : ∀ u : Performer, (vjPerformPreChain p u).cachedSampleFrames = u.cachedSampleFrames := by
    intro u
    rw [vjPerformPreChain]
    split_ifs <;> rfl
  rw [startPass, hpre] at hid ⊢
  rw [fillBuffer] at hid ⊢
  cases hmode : p.mode with
  | sample =>
    refine ⟨rfl, ?_⟩
    dsimp only
    rw [Function.update_self]
  | tag =>
    rw [hmode] at hid
    dsimp only at hid
    refine absurd ?_ hid
    cases p.feedbackBuffer with
    | some frame => rfl
    | none =>
      dsimp only
      split <;> rfl

theorem startPass_ssm1 (black : Planes) : (startPass p black s).ssm1 = false := by
  have hpre : ∀ u : Performer, (vjPerformPreChain p u).ssm1 = u.ssm1 := by
    intro u
    rw [vjPerformPreChain]
    split_ifs <;> rfl
  rw [startPass, hpre, fillBuffer]
  cases p.mode with
  | sample =>
    dsimp only
    cases p.feedbackBuffer with
    | some frame => rfl
    | none =>
      dsimp only
      cases p.video p.sampleId p.currentFrame <;> dsimp only <;> split_ifs <;> rfl
  | tag =>
    dsimp only
    cases p.feedbackBuffer with
    | some frame => rfl
    | none =>
      dsimp only
      split <;> rfl

/-! ## Passes -/

theorem copyPlane_copyPlane (n : ℕ) (f g h : ℕ → UInt8) : copyPlane n (copyPlane n f g) h = copyPlane n f h := by
  funext i
  rw [copyPlane, copyPlane, copyPlane]
  split_ifs <;> rfl

/-- A frame that is copied on is the frame. -/
theorem copy_write (frame : Planes) (x y : Picture) : (p.copy false (p.write frame x) y).planes = (p.write frame y).planes := by
  rw [Pass.copy, Pass.write, Pass.write, Pass.copy, Pass.copy]
  simp only [copyPlane_copyPlane]

theorem subframe_dup (rand : Rand) (b : SampleInfo) : (subframe rand b).2.dup = b.dup := by
  have hspeed : ∀ speed, (sampleSetSpeed b speed).2.dup = b.dup := by
    intro speed
    rw [sampleSetSpeed]
    split_ifs <;> rfl
  rw [subframe]
  dsimp only
  split_ifs
  · rw [subframeForward]
    split_ifs <;> first | rfl | exact hspeed _
  · rw [subframeReverse]
    split_ifs <;> first | rfl | exact hspeed _

/-- Looking for a frame leaves the slow motion of the samples alone. -/
theorem subframeOf_framedup (id i : ℤ) : sampleGetFramedup (subframeOf p id e s).2 i = sampleGetFramedup s i := by
  have hput : ∀ b b' : SampleInfo, s.samples id = some b → b'.dup = b.dup →
      (Function.update s.samples id (some b') i).elim 0 SampleInfo.dup = (s.samples i).elim 0 SampleInfo.dup := by
    intro b b' hb hdup
    by_cases hi : i = id
    · rw [hi, Function.update_self, hb]
      exact hdup
    · rw [Function.update_of_ne hi]
  rw [subframeOf]
  split
  · rename_i b _ hb
    split_ifs
    · refine hput b _ hb ?_
      rw [vjPerformGetSubframe]
      dsimp only
      split_ifs <;> first | rfl | exact subframe_dup _ _
    · rfl
  · rename_i b _ hb
    refine hput b _ hb ?_
    rw [vjPerformGetSubframeTag]
    dsimp only
    split_ifs <;> first | rfl | exact subframe_dup _ _
  · rfl

/-- A copy of what is played has the planes of what is fetched. -/
theorem transparent_of_reuses {black : Planes} {s₀ : Performer} (hk : Keeps (startPass p black s₀) s) {o : Step}
    (h : ReusesMain p (startPass p black s₀) s o) : Transparent p s o := by
  cases o with
  | postChain => trivial
  | finish => trivial
  | entry e =>
    intro hmix hid c hc
    obtain ⟨hzero, hstream, hsample⟩ := h hmix c hc
    have huse := @vjPerformUseCachedYcbcrFrame_zero p e (seek p e s).2 c hzero
    by_cases hfrom : FromStream p e
    · -- the frame is still the one that was fetched at the beginning
      obtain ⟨hmain, hssm⟩ : s.main = (startPass p black s₀).main ∧ s.ssm1 = false := by
        rcases hstream hfrom with hlog | huntouched
        · obtain ⟨-, hmain, hssm⟩ := hk.main hlog
          exact ⟨hmain, hssm.trans (startPass_ssm1 black)⟩
        · exact huntouched
      rw [cachedAt, if_pos hfrom] at hc
      have htop := hk.tag.symm.trans (tagFrames_of_found hc hzero)
      obtain ⟨frame, hframe, hplayed⟩ := startPass_tag black (s := s₀) (by rw [htop]; exact hid)
      rw [htop] at hframe
      have hseek : seek p e s = (0, s) := if_pos hfrom
      rw [hseek] at huse ⊢
      have hfetch : fetchAnew p e s = (true, s.setPicture e (p.write frame (s.frameBuffer e).toPicture)) := by
        rw [fetchAnew, if_pos hfrom, vjTagGetFrame, hframe]
      refine ⟨_, _, huse, hfetch, ?_⟩
      dsimp only [Performer.setPicture, Performer.setFrame]
      rw [Function.update_self, Function.update_self, hssm, hmain, hplayed]
      exact copy_write frame _ _
    · obtain ⟨hfeedback, hdup⟩ := hsample hfrom
      rw [cachedAt, if_neg hfrom] at hc
      split_ifs at hc with hcaching
      have htop := hk.sample.symm.trans (sampleFrames_of_found hc hzero)
      obtain ⟨hmode, hplayed⟩ := startPass_sample black (s := s₀) (by rw [htop]; exact hid)
      have hself : p.feedback = false ∧ p.sampleId = (p.chain e).channel ∧ p.mode = .sample :=
        ⟨hfeedback, hplayed.symm.trans htop, hmode⟩
      have hseek : seek p e s = subframeOf p (p.chain e).channel e s := by
        rw [seek, if_neg hfrom, if_pos hcaching.1]
      have hdup' : sampleGetFramedup (seek p e s).2 (p.chain e).channel ≤ 1 := by
        rw [hseek, subframeOf_framedup]
        exact hdup
      have hfetch : fetchAnew p e s = (true, (seek p e s).2.setPicture e
          (p.copy (seek p e s).2.ssm1 (seek p e s).2.main ((seek p e s).2.frameBuffer e).toPicture)) := by
        rw [fetchAnew, if_neg hfrom, if_pos hcaching.1, vjPerformGetFrameFx, if_pos hself]
        dsimp only
        rw [if_pos hdup']
      refine ⟨_, _, huse, hfetch, ?_⟩
      dsimp only [Performer.setPicture, Performer.setFrame]
      rw [Function.update_self, Function.update_self]

/-- **The cache is transparent** in every pass whose copies are made of the frame that is played, while it is what has
been fetched; and no buffer is read that is not there. -/
theorem mixing_transparent (p : Pass) (black : Planes) (s : Performer)
    (h : RunMeets (renderStep p) (ReusesMain p (startPass p black s)) (startPass p black s) (passSteps p)) :
    RunShows (renderStep p) (fun s o _ _ => Transparent p s o) (startPass p black s) (passSteps p) := by
  have hstep : ∀ u o, Keeps (startPass p black s) u → ReusesMain p (startPass p black s) u o →
      ∃ r t, renderStep p u o = .ok (r, t) ∧ Keeps (startPass p black s) t ∧ Transparent p u o := by
    intro u o hu ho
    have htransparent := transparent_of_reuses hu ho
    cases o with
    | entry e =>
      obtain ⟨t, ht, hkeeps⟩ := @renderChainEntry_keeps p e u fun hmix c hc => (ho hmix c hc).1
      refine ⟨(), t, ?_, hu.trans hkeeps, htransparent⟩
      rw [renderStep, ht]
      rfl
    | postChain => exact ⟨(), _, rfl, hu.trans keeps_postChain, htransparent⟩
    | finish => exact ⟨(), _, rfl, hu.trans keeps_finishRender, htransparent⟩
  exact runOps_shows hstep _ _ (Keeps.refl _) h

end Cache

/-- Planes of one colour. -/
def solid (value : UInt8) : Planes := ⟨fun _ => value, fun _ => 128, fun _ => 128⟩

/-- Buffers that are black. -/
def blankPerformer : Performer where
  primary _ := ⟨solid 16, .halved⟩
  frameBuffer _ := ⟨⟨solid 16, .halved⟩, none⟩
  cachedTagFrames _ := 0
  cachedSampleFrames _ := 0
  temp := ⟨solid 16, .halved⟩
  ssm1 := false
  ssm2 := false
  samples _ := none
  log := []

/-- Sample 1, which is grey, or stream 5, which is white, is played; the entries of `mixing` mix in stream 5. -/
def mixesStream (mode : Playmode) (id : ℤ) (mixing : Fin sampleMaxEffects → Bool) : Pass where
  mode := mode
  sampleId := id
  currentFrame := 0
  chain e := ⟨mixing e, 201, 5, 4, true⟩
  subChain _ _ _ := ⟨false, 0, 0, 0, false⟩
  rows := true
  subrender := false
  fxdepth := false
  faderActive := false
  feedback := false
  feedbackBuffer := none
  noCaching := false
  font := false
  osd := false
  composite := false
  len := 2
  uvLen := 1
  subformat _ := false
  extraFrame _ := true
  streams _ := ⟨true, true, some (solid 235)⟩
  video _ _ := some (solid 128)
  slow := solid 128
  rand _ := ⟨fun _ => 0, fun _ _ => le_rfl, fun _ h => h⟩
  supersample planes := planes
  subsample planes := planes
  apply _ main second := (main, second)
  applySub _ _ _ second := second
  overlay planes := planes
  blend main _ := main

/-- The first two entries. -/
def entry0 : Fin sampleMaxEffects := ⟨0, sampleMaxEffects_pos⟩

def entry1 : Fin sampleMaxEffects := ⟨1, one_lt_sampleMaxEffects⟩

theorem passSteps_cons {p : Pass} (h : p.rows = true) :
    ∃ rest, passSteps p = .entry entry0 :: .entry entry1 :: rest ∧ ∀ e, .entry e ∈ rest → 2 ≤ e.val := by
  have hentries : List.finRange sampleMaxEffects =
      entry0 :: entry1 :: ((List.finRange 18).map Fin.succ).map Fin.succ := by
    show List.finRange (18 + 1 + 1) = _
    rw [List.finRange_succ, List.finRange_succ]
    rfl
  refine ⟨(((List.finRange 18).map Fin.succ).map Fin.succ).map Step.entry ++ [.postChain, .finish], ?_, ?_⟩
  · rw [passSteps, if_pos h, hentries]
    rfl
  · intro e he
    rcases List.mem_append.mp he with he | he
    · obtain ⟨i, hi, heq⟩ := List.mem_map.mp he
      obtain ⟨j, hj, rfl⟩ := List.mem_map.mp hi
      obtain ⟨k, -, rfl⟩ := List.mem_map.mp hj
      obtain rfl := Step.entry.inj heq
      exact Nat.le_add_left 2 k.val
    · rcases List.mem_cons.mp he with h | h
      · cases h
      · cases List.mem_singleton.mp h

/-- Where stream 5 is played, and its first entry mixes it in, the frame is copied as it was fetched. -/
theorem mixing_transparent_once :
    RunShows (renderStep (mixesStream .tag 5 fun e => decide (e = entry0)))
      (fun s o _ _ => Transparent (mixesStream .tag 5 fun e => decide (e = entry0)) s o)
      (startPass (mixesStream .tag 5 fun e => decide (e = entry0)) (solid 16) blankPerformer)
      (passSteps (mixesStream .tag 5 fun e => decide (e = entry0))) := by
  refine mixing_transparent (mixesStream .tag 5 fun e => decide (e = entry0)) (solid 16) blankPerformer ?_
  obtain ⟨rest, hsteps, hrest⟩ := @passSteps_cons (mixesStream .tag 5 fun e => decide (e = entry0)) rfl
  rw [hsteps]
  have hidle : ∀ (e : Fin sampleMaxEffects) (start s : Performer), e ≠ entry0 →
      ReusesMain (mixesStream .tag 5 fun e => decide (e = entry0)) start s (.entry e) := fun e _ _ hne hmix =>
    absurd (of_decide_eq_true hmix.1.1) hne
  refine ⟨fun _ c hc => ?_, fun _ s _ => ⟨hidle _ _ _ (by decide), fun _ t _ => RunMeets.of_mem fun o ho u => ?_⟩⟩
  · obtain rfl : cacheTop = c := Option.some.inj hc
    exact ⟨rfl, fun _ => .inl rfl, fun hnot => absurd (by decide) hnot⟩
  · cases o with
    | postChain => trivial
    | finish => trivial
    | entry e =>
      refine hidle e _ _ fun heq => ?_
      have hle := hrest e ho
      rw [heq] at hle
      cases hle

/-- Where sample 1 is played, and two entries mix in stream 5, the second one gets the frame of the sample. -/
theorem not_mixing_transparent : ¬ ∀ (p : Pass) (black : Planes) (s : Performer),
    RunShows (renderStep p) (fun s o _ _ => Transparent p s o) (startPass p black s) (passSteps p) := by
  intro h
  have hrun := h (mixesStream .sample 1 fun e => decide (e.val < 2)) (solid 16) blankPerformer
  obtain ⟨rest, hsteps, -⟩ := @passSteps_cons (mixesStream .sample 1 fun e => decide (e.val < 2)) rfl
  rw [hsteps] at hrun
  obtain ⟨_, s, hs, -, _, _, -, htransparent, -⟩ := hrun
  obtain ⟨-, rfl⟩ := Prod.mk.inj (Except.ok.inj hs)
  obtain ⟨t, t', ht, ht', hplanes⟩ := htransparent ⟨⟨by decide, by decide⟩, by decide⟩ (by decide) entry0.succ (by decide)
  obtain rfl := Except.ok.inj ht
  obtain ⟨-, rfl⟩ := Prod.mk.inj ht'
  have hY : (128 : UInt8) = 235 := congrFun (congrArg Planes.Y hplanes) 0
  exact absurd hY (by decide)

end Veejay.Perform
