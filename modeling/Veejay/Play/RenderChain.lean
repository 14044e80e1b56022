import Veejay.Play.Subframe
import Veejay.Sample.Mixing

/-!
# Rendering an effect chain

The performer renders the frame that is played, in `primary_buffer[0]`, through the twenty entries of an effect chain.
An entry may mix in a second frame, which is fetched into its own `frame_buffer`; a source that has been fetched
before is copied.  Effects want their planes in 4:2:2 or in 4:4:4, and the flags `ssm` say what the planes are in.

* `Planes`, `Sampling`, `Picture` — the planes of a frame, and how their chroma is sampled;
* `Pass`, `Performer` — what a rendering pass reads, and the buffers of the performer;
* `vjPerformUseCachedYcbcrFrame`, `vjPerformApplySecundary` — the frame that is mixed in;
* `vjPerformPreprocessSecundary` — the chain of that frame;
* `vjPerformRenderChainEntry` — an entry;
* `startPass`, `renderStep`, `passSteps` — a rendering pass (`veejay/vj-perform.c`).
-/

namespace Veejay.Perform

open CLib Veejay.Sample Veejay.Play Veejay.Samples

/-! ## Pictures -/

/-- The planes of a frame. -/
structure Planes where
  Y : ℕ → UInt8
  Cb : ℕ → UInt8
  Cr : ℕ → UInt8

/-- How the chroma planes are sampled: 4:2:2, 4:4:4, or neither. -/
inductive Sampling where
  | halved
  | full
  | torn
  deriving DecidableEq

/-- What a flag `ssm` says. -/
def sampled (ssm : Bool) : Sampling := if ssm then .full else .halved

/-- The planes, and how they are really sampled. -/
structure Picture where
  planes : Planes
  sampling : Sampling

/-- An entry of `frame_buffer`; its flag is -1 until it is known. -/
structure YcbcrFrame extends Picture where
  ssm : Option Bool

/-- The first `n` bytes are copied. -/
def copyPlane (n : ℕ) (src dst : ℕ → UInt8) : ℕ → UInt8 := fun i => if i < n then src i else dst i

/-- Chroma planes that are copied: of 4:4:4 planes, all of them have to be copied. -/
def copied (whole : Bool) : Sampling → Sampling
  | .halved => .halved
  | .full => if whole then .full else .torn
  | .torn => .torn

/-- Chroma planes that are converted. -/
def converted (toFull : Bool) (sampling : Sampling) : Sampling :=
  if sampling = sampled (!toFull) then sampled toFull else .torn

/-! ## What a pass reads -/

/-- `CACHE_SIZE` -/
def cacheSize : ℕ := sampleMaxEffects + 1

/-- `CACHE_TOP`: the place of what is played. -/
def cacheTop : Fin cacheSize := ⟨0, Nat.succ_pos _⟩

/-- `PRIMARY_FRAMES` -/
def primaryFrames : ℕ := 8

/-- The primary buffer of the frame that is played. -/
def mainBuffer : Fin primaryFrames := ⟨0, Nat.succ_pos 7⟩

/-- The primary buffer that slow motion goes out from. -/
def slowBuffer : Fin primaryFrames := ⟨7, Nat.lt_succ_self 7⟩

/-- The effect chains of samples and of streams. -/
inductive Playmode where
  | sample
  | tag
  deriving DecidableEq

/-- An entry of an effect chain, and whether its effect gets its arguments and is ready. -/
structure ChainEntry where
  status : Bool
  effectId : ℤ
  channel : ℤ
  source : ℤ
  applies : Bool

/-- A stream: whether it is active, whether it can be activated, and its frame. -/
structure Stream where
  active : Bool
  activates : Bool
  frame : Option Planes

/-- What a rendering pass reads: what is played, its effect chain, the settings, the effects and the sources. -/
structure Pass where
  mode : Playmode
  sampleId : ℤ
  currentFrame : ℤ
  chain : Fin sampleMaxEffects → ChainEntry
  /-- the first entries of the chain of a sample or of a stream -/
  subChain : Playmode → ℤ → Fin 3 → ChainEntry
  /-- `vj_perform_verify_rows` -/
  rows : Bool
  subrender : Bool
  fxdepth : Bool
  faderActive : Bool
  /-- feedback is on, and the frame to feed back if there is one -/
  feedback : Bool
  feedbackBuffer : Option Planes
  noCaching : Bool
  font : Bool
  osd : Bool
  composite : Bool
  len : ℕ
  uvLen : ℕ
  subformat : ℤ → Bool
  extraFrame : ℤ → Bool
  streams : ℤ → Stream
  /-- the frame of a sample, from its edit list -/
  video : ℤ → ℤ → Option Planes
  /-- the frame that the slow motion of the sample that is played goes out from -/
  slow : Planes
  rand : Fin sampleMaxEffects → Rand
  supersample : Planes → Planes
  subsample : Planes → Planes
  apply : Fin sampleMaxEffects → Planes → Planes → Planes × Planes
  applySub : Playmode → ℤ → Fin 3 → Planes → Planes
  overlay : Planes → Planes
  blend : Planes → Planes → Planes

namespace Pass

variable (p : Pass)

/-- `vj_perform_copy`: the chroma planes are copied whole, or the first half of them. -/
def copy (whole : Bool) (src dst : Picture) : Picture where
  planes :=
    { Y := copyPlane p.len src.planes.Y dst.planes.Y
      Cb := copyPlane (if whole then p.len else p.uvLen) src.planes.Cb dst.planes.Cb
      Cr := copyPlane (if whole then p.len else p.uvLen) src.planes.Cr dst.planes.Cr }
  sampling := copied whole src.sampling

/-- A frame of a source, in 4:2:2. -/
def write (frame : Planes) (dst : Picture) : Picture := p.copy false ⟨frame, .halved⟩ dst

/-- `chroma_supersample`, `chroma_subsample` -/
def convert (toFull : Bool) (picture : Picture) : Picture where
  planes := if toFull then p.supersample picture.planes else p.subsample picture.planes
  sampling := converted toFull picture.sampling

/-- An effect of an entry is rendered. -/
def Renders (entry : ChainEntry) : Prop := entry.status = true ∧ 0 < entry.effectId

instance (entry : ChainEntry) : Decidable (Renders entry) := inferInstanceAs (Decidable (_ ∧ _))

/-- The types of the sources that are streams. -/
def streamTypes : Playmode → List ℤ
  | .sample => [1, 2, 3, 12, 13, 14, 4, 5, 7]
  | .tag => [1, 2, 3, 12, 13, 14, 5, 4]

/-- The chain that a source of this type has. -/
def chainOf (source : ℤ) : Option Playmode :=
  if source = 0 then some .sample else if source = 1 then some .tag else none

/-- The frame of a stream, which is activated if necessary. -/
def streamFrame (id : ℤ) : Option Planes :=
  if (p.streams id).active || (p.streams id).activates then (p.streams id).frame else none

/-- `vj_perform_preprocess_has_ssm`: what the first effect of the chain of a source wants. -/
def preprocessHasSsm (kind : Option Playmode) (id : ℤ) : Option Bool :=
  if p.fxdepth then
    kind.bind fun kind =>
      ((List.finRange 3).find? fun n => decide (Renders (p.subChain kind id n))).map fun n =>
        p.subformat (p.subChain kind id n).effectId
  else none

end Pass

/-! ## The buffers -/

/-- What is done to planes: they are converted, or an effect is applied to them. -/
inductive Event where
  | convert (toFull : Bool) (before : Sampling)
  | apply (wanted : Bool) (inputs : List Sampling)

/-- The buffers of the performer, the flags of the two frames that effects get, and what has been done so far. -/
structure Performer where
  primary : Fin primaryFrames → Picture
  frameBuffer : Fin sampleMaxEffects → YcbcrFrame
  cachedTagFrames : Fin cacheSize → ℤ
  cachedSampleFrames : Fin cacheSize → ℤ
  temp : Picture
  ssm1 : Bool
  ssm2 : Bool
  samples : ℤ → Option SampleInfo
  log : List Event

namespace Performer

/-- The frame that is played. -/
def main (s : Performer) : Picture := s.primary mainBuffer

def setMain (s : Performer) (picture : Picture) : Performer :=
  { s with primary := Function.update s.primary mainBuffer picture }

def setFrame (s : Performer) (e : Fin sampleMaxEffects) (frame : YcbcrFrame) : Performer :=
  { s with frameBuffer := Function.update s.frameBuffer e frame }

/-- The planes of an entry's frame; its flag stays. -/
def setPicture (s : Performer) (e : Fin sampleMaxEffects) (picture : Picture) : Performer :=
  s.setFrame e ⟨picture, (s.frameBuffer e).ssm⟩

/-- The flag of an entry's frame. -/
def setSsm (s : Performer) (e : Fin sampleMaxEffects) (ssm : Bool) : Performer :=
  s.setFrame e ⟨(s.frameBuffer e).toPicture, some ssm⟩

def note (s : Performer) (event : Event) : Performer := { s with log := s.log ++ [event] }

/-- `primary_buffer[c]` -/
def primaryAt (s : Performer) (c : ℕ) : Exec Picture :=
  if h : c < primaryFrames then .ok (s.primary ⟨c, h⟩) else .error .outOfBounds

/-- The frame of an entry is converted. -/
def convertFrame (p : Pass) (toFull : Bool) (e : Fin sampleMaxEffects) (s : Performer) : Performer :=
  (s.setPicture e (p.convert toFull (s.frameBuffer e).toPicture)).note (.convert toFull (s.frameBuffer e).sampling)

/-- The frame that is played is converted. -/
def convertMain (p : Pass) (toFull : Bool) (s : Performer) : Performer :=
  { (s.setMain (p.convert toFull s.main)).note (.convert toFull s.main.sampling) with ssm1 := toFull }

end Performer

/-! ## The frame that is mixed in -/

section Secundary

variable (p : Pass)

/-- `vj_perform_tag_is_cached` -/
def vjPerformTagIsCached (id : ℤ) (s : Performer) : Option (Fin cacheSize) :=
  if s.cachedTagFrames cacheTop = id then some cacheTop
  else
    match (List.finRange cacheSize).find? fun c => decide (s.cachedTagFrames c = id) with
    | some c => if p.feedback = true ∧ p.sampleId = id ∧ p.mode = .tag then none else some c
    | none => none

/-- `vj_perform_sample_is_cached` -/
def vjPerformSampleIsCached (id : ℤ) (s : Performer) : Option (Fin cacheSize) :=
  if s.cachedSampleFrames cacheTop = id then some cacheTop
  else
    match (List.finRange sampleMaxEffects).find? fun c => decide (s.cachedSampleFrames c.succ = id) with
    | some c => if p.feedback = true ∧ p.sampleId = id ∧ p.mode = .tag then none else some c.succ
    | none => none

/-- `vj_perform_use_cached_ycbcr_frame` -/
def vjPerformUseCachedYcbcrFrame (centry : Fin cacheSize) (e : Fin sampleMaxEffects) (s : Performer) :
    Exec Performer :=
  Fin.cases
    (.ok (s.setFrame e ⟨p.copy s.ssm1 s.main (s.frameBuffer e).toPicture, some s.ssm1⟩))
    (fun (c : Fin sampleMaxEffects) => do
      -- the planes are those of the primary buffer, and the flag is that of the entry's
      let picture ← s.primaryAt c
      .ok (s.setFrame e ⟨p.copy ((s.frameBuffer c).ssm == some true) picture (s.frameBuffer e).toPicture,
        (s.frameBuffer c).ssm⟩))
    centry

/-- `vj_perform_get_subframe`, `vj_perform_get_subframe_tag` -/
def subframeOf (id : ℤ) (e : Fin sampleMaxEffects) (s : Performer) : ℤ × Performer :=
  match p.mode, s.samples id with
  | .sample, some b =>
    if (s.samples p.sampleId).isSome then
      let r := vjPerformGetSubframe (p.rand e) (decide (id = p.sampleId)) b
      (r.1, { s with samples := Function.update s.samples id (some r.2) })
    else (-1, s)
  | .tag, some b =>
    let r := vjPerformGetSubframeTag (p.rand e) b
    (r.1, { s with samples := Function.update s.samples id (some r.2) })
  | _, none => (-1, s)

/-- `sample_get_framedup` -/
def sampleGetFramedup (s : Performer) (id : ℤ) : ℤ := (s.samples id).elim 0 SampleInfo.dup

/-- `vj_perform_get_frame_fx`: the sample that is played is not decoded again. -/
def vjPerformGetFrameFx (id nframe : ℤ) (e : Fin sampleMaxEffects) (s : Performer) : Bool × Performer :=
  if p.feedback = false ∧ p.sampleId = id ∧ p.mode = .sample then
    let picture := if sampleGetFramedup s id ≤ 1 then s.main else s.primary slowBuffer
    (true, s.setPicture e (p.copy s.ssm1 picture (s.frameBuffer e).toPicture))
  else
    match p.video id nframe with
    | some frame => (true, s.setPicture e (p.write frame (s.frameBuffer e).toPicture))
    | none => (false, s)

/-- The frame of a stream is put into the entry's buffer. -/
def vjTagGetFrame (id : ℤ) (e : Fin sampleMaxEffects) (s : Performer) : Bool × Performer :=
  match p.streamFrame id with
  | some frame => (true, s.setPicture e (p.write frame (s.frameBuffer e).toPicture))
  | none => (false, s)

/-- `vj_perform_apply_secundary`, `vj_perform_apply_secundary_tag` -/
def vjPerformApplySecundary (e : Fin sampleMaxEffects) (s : Performer) : Exec Performer :=
  let id := (p.chain e).channel
  let source := (p.chain e).source
  let keepTag (s : Performer) := { s with cachedTagFrames := Function.update s.cachedTagFrames e.succ id }
  let keepSample (s : Performer) := { s with cachedSampleFrames := Function.update s.cachedSampleFrames e.succ id }
  if source ∈ Pass.streamTypes p.mode then
    match vjPerformTagIsCached p id s with
    | some centry => do
      let s ← vjPerformUseCachedYcbcrFrame p centry e s
      .ok (keepTag s)
    | none =>
      let (ok, s) := vjTagGetFrame p id e s
      .ok (if ok then keepTag s else s)
  else if source = 0 then
    let (nframe, s) := subframeOf p id e s
    match vjPerformSampleIsCached p id s, p.noCaching with
    | some centry, false => do
      let s ← vjPerformUseCachedYcbcrFrame p centry e s
      .ok (keepSample s)
    | _, _ =>
      let (ok, s) := vjPerformGetFrameFx p id nframe e s
      .ok (if ok then keepSample s else s)
  else .ok s

/-- `vj_perform_previously_sampled`: the flag of the last entry up to `i` that has one, the first entry apart. -/
def vjPerformPreviouslySampled (s : Performer) : ℕ → Bool
  | 0 => false
  | i + 1 =>
    match (if h : i + 1 < sampleMaxEffects then (s.frameBuffer ⟨i + 1, h⟩).ssm else none) with
    | some ssm => ssm
    | none => vjPerformPreviouslySampled s i

end Secundary

/-! ## The chain of the frame that is mixed in -/

section Preprocess

variable (p : Pass)

/-- The effect of an entry of that chain is rendered: it has no frame to mix in itself. -/
def SubRenders (entry : ChainEntry) : Prop := Pass.Renders entry ∧ p.extraFrame entry.effectId = false

instance (entry : ChainEntry) : Decidable (SubRenders p entry) := inferInstanceAs (Decidable (_ ∧ _))

/-- The locals of the loop: the flag of the chain, and that of the copy `a` of the second frame. -/
structure Locals where
  ssm : Bool
  a : Bool
  performer : Performer

/-- The planes are converted for an effect; only the loop over the chain of a sample looks at the flag of `a`. -/
def convertFor (kind : Playmode) (wanted : Bool) (e : Fin sampleMaxEffects) (l : Locals) : Locals :=
  if wanted = l.ssm then l
  else
    { ssm := wanted
      a := wanted
      performer :=
        (if kind = .tag ∨ l.a ≠ wanted then l.performer.convertFrame p wanted e else l.performer).setSsm e true }

/-- The effect of an entry of the chain is applied to the second frame. -/
def applySubEntry (kind : Playmode) (id : ℤ) (n : Fin 3) (e : Fin sampleMaxEffects) (s : Performer) : Performer :=
  let entry := p.subChain kind id n
  if entry.applies then
    (s.setPicture e ⟨p.applySub kind id n (s.frameBuffer e).planes, (s.frameBuffer e).sampling⟩).note
      (.apply (p.subformat entry.effectId) [(s.frameBuffer e).sampling])
  else s

/-- A round of the loop. -/
def preprocessEntry (kind : Playmode) (id : ℤ) (e : Fin sampleMaxEffects) (l : Locals) (n : Fin 3) : Locals :=
  if SubRenders p (p.subChain kind id n) then
    let l := convertFor p kind (p.subformat (p.subChain kind id n).effectId) e l
    { l with performer := applySubEntry p kind id n e l.performer }
  else l

/-- `vj_perform_preprocess_secundary`: the flag that is returned, and the buffers. -/
def vjPerformPreprocessSecundary (kind : Option Playmode) (id : ℤ) (currentSsm : Bool) (e : Fin sampleMaxEffects)
    (s : Performer) : Bool × Performer :=
  match kind with
  | some kind =>
    let l := (List.finRange 3).foldl (preprocessEntry p kind id e) ⟨currentSsm, s.ssm2, s⟩
    (l.ssm, l.performer)
  | none => (currentSsm, s)

end Preprocess

/-! ## An entry -/

section Entry

variable (p : Pass)

/-- The flag of the second frame is looked up for the entries behind the first one: for samples where a sample is
played, and for streams where a stream is. -/
def LooksUp (source : ℤ) : Prop := p.mode = .sample ∧ source = 0 ∨ p.mode = .tag ∧ source ≠ 0

instance (source : ℤ) : Decidable (LooksUp p source) := inferInstanceAs (Decidable (_ ∨ _))

/-- The chain of the second frame is rendered if it is to be. -/
def subRender (e : Fin sampleMaxEffects) (s : Performer) : Performer :=
  let entry := p.chain e
  if p.subrender then
    let r := vjPerformPreprocessSecundary p (Pass.chainOf entry.source) entry.channel (p.subformat entry.effectId) e s
    { r.2 with ssm2 := r.1 }
  else s

/-- Behind the first entry, the flag of the second frame is looked up or cleared. -/
def lookUpSsm (e : Fin sampleMaxEffects) (s : Performer) : Performer :=
  if 1 ≤ e.val then
    { s with ssm2 := if LooksUp p (p.chain e).source then vjPerformPreviouslySampled s e.val else false }
  else s

/-- The second frame is converted to what the effect wants. -/
def convertSecond (e : Fin sampleMaxEffects) (s : Performer) : Performer :=
  let sub := p.subformat (p.chain e).effectId
  if sub = s.ssm2 then s else { (s.convertFrame p sub e).setSsm e sub with ssm2 := sub }

/-- Otherwise its chain is rendered here, where the first effect wants what there is. -/
def lateRender (e : Fin sampleMaxEffects) (s : Performer) : Performer :=
  let entry := p.chain e
  let kind := Pass.chainOf entry.source
  if p.subrender = false ∧ p.preprocessHasSsm kind entry.channel = some s.ssm2 then
    (vjPerformPreprocessSecundary p kind entry.channel (p.subformat entry.effectId) e s).2
  else s

/-- The second frame of an entry. -/
def mixIn (e : Fin sampleMaxEffects) (s : Performer) : Exec Performer := do
  let s ← vjPerformApplySecundary p e s
  .ok (lateRender p e (convertSecond p e (lookUpSsm p e (subRender p e s))))

/-- `vj_perform_apply_first`, for an entry of the chain that is played -/
def applyFirst (e : Fin sampleMaxEffects) (s : Performer) : Performer :=
  let entry := p.chain e
  if entry.applies then
    let r := p.apply e s.main.planes (s.frameBuffer e).planes
    let t := s.setMain ⟨r.1, s.main.sampling⟩
    if p.extraFrame entry.effectId then
      (t.setPicture e ⟨r.2, (s.frameBuffer e).sampling⟩).note
        (.apply (p.subformat entry.effectId) [s.main.sampling, (s.frameBuffer e).sampling])
    else t.note (.apply (p.subformat entry.effectId) [s.main.sampling])
  else s

/-- `vj_perform_render_chain_entry`, `vj_perform_tag_render_chain_entry` -/
def vjPerformRenderChainEntry (e : Fin sampleMaxEffects) (s : Performer) : Exec Performer :=
  let entry := p.chain e
  if Pass.Renders entry then do
    let sub := p.subformat entry.effectId
    let s ← if p.extraFrame entry.effectId then mixIn p e s else .ok s
    let s := if sub = s.ssm1 then s else s.convertMain p sub
    .ok (applyFirst p e s)
  else .ok s

end Entry

/-! ## A pass -/

section Rendering

variable (p : Pass)

/-- `vj_perform_plain_fill_buffer`, `vj_perform_tag_fill_buffer`: the frame that is played, and the first place of
the caches. -/
def fillBuffer (black : Planes) (s : Performer) : Performer :=
  match p.mode with
  | .sample =>
    let s :=
      match p.feedbackBuffer with
      | some frame => s.setMain (p.write frame s.main)
      | none =>
        let s :=
          if 1 < sampleGetFramedup s p.sampleId then
            { s with primary := Function.update s.primary slowBuffer (p.write p.slow (s.primary slowBuffer)) }
          else s
        match p.video p.sampleId p.currentFrame with
        | some frame => s.setMain (p.write frame s.main)
        | none => s
    { s with cachedSampleFrames := Function.update s.cachedSampleFrames cacheTop p.sampleId }
  | .tag =>
    match p.feedbackBuffer with
    | some frame => s.setMain (p.write frame s.main)
    | none =>
      match (if (p.streams p.sampleId).active then (p.streams p.sampleId).frame else none) with
      | some frame =>
        { s.setMain (p.write frame s.main) with
          cachedTagFrames := Function.update s.cachedTagFrames cacheTop p.sampleId }
      | none => s.setMain (p.write black s.main)

/-- The flags and the caches at the beginning (`vj_perform_clear_cache` is called behind each pass). -/
def cleared (s : Performer) : Performer :=
  { s with
    frameBuffer := fun e => ⟨(s.frameBuffer e).toPicture, none⟩
    cachedTagFrames := fun _ => 0
    cachedSampleFrames := fun _ => 0
    ssm1 := false
    ssm2 := false
    log := [] }

/-- `vj_perform_pre_chain`: the frame before the effects is kept for the fader. -/
def vjPerformPreChain (s : Performer) : Performer :=
  if p.faderActive = true ∧ p.rows = true then { s with temp := p.copy false s.main s.temp } else s

/-- The beginning of a pass, up to the first entry. -/
def startPass (black : Planes) (s : Performer) : Performer := vjPerformPreChain p (fillBuffer p black (cleared s))

/-- `vj_perform_supersample_chain` -/
def vjPerformSupersampleChain (s : Performer) : Performer :=
  { s.note (.convert true s.temp.sampling) with temp := p.convert true s.temp, ssm1 := true }

/-- Where the two functions decide whether the frame that was kept is converted. -/
def postSupersample (s : Performer) : Performer :=
  match p.mode with
  | .sample => if s.ssm1 then vjPerformSupersampleChain p s else s
  | .tag => if s.ssm1 then s else vjPerformSupersampleChain p s

/-- `vj_perform_post_chain_sample`, `vj_perform_post_chain_tag`: what comes from the chain is blended with the frame
that was kept. -/
def vjPerformPostChain (s : Performer) : Performer :=
  if p.faderActive then
    let s := postSupersample p s
    (s.setMain ⟨p.blend s.main.planes s.temp.planes, s.main.sampling⟩).note
      (.apply s.ssm1 [s.main.sampling, s.temp.sampling])
  else s

/-- Something is drawn upon the frame, in 4:4:4. -/
def drawUpon (shown : Bool) (s : Performer) : Performer :=
  if shown then
    let s := if s.ssm1 then s else s.convertMain p true
    (s.setMain ⟨p.overlay s.main.planes, s.main.sampling⟩).note (.apply true [s.main.sampling])
  else s

/-- `vj_perform_render_font`, `vj_perform_render_osd`, `vj_perform_finish_render` -/
def vjPerformFinishRender (s : Performer) : Performer :=
  let s := drawUpon p p.font s
  let s := drawUpon p (p.osd && !p.composite) s
  let s := drawUpon p p.composite s
  let s := if s.ssm1 then s.convertMain p false else s
  { s with ssm2 := false }

/-- A step of a pass. -/
inductive Step where
  | entry (e : Fin sampleMaxEffects)
  | postChain
  | finish

def renderStep (s : Performer) : Step → Exec (Unit × Performer)
  | .entry e => do
    let s ← vjPerformRenderChainEntry p e s
    .ok ((), s)
  | .postChain => .ok ((), vjPerformPostChain p s)
  | .finish => .ok ((), vjPerformFinishRender p s)

/-- The steps of a pass: the chain has buffers, or it is left out. -/
def passSteps : List Step :=
  (if p.rows then (List.finRange sampleMaxEffects).map .entry else []) ++ [.postChain, .finish]

end Rendering

end Veejay.Perform
