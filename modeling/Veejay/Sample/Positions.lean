import Veejay.CLib.Exec

/-!
# The positions of a sample

A sample plays a part of its edit list: from its first frame to its last one, or, while a marker is set, from
one end of the marker to the other.

* `SampleInfo` — the numbers of a sample, with `sampleSkeletonNew` and `sampleStore`;
* `sampleSetStartframe`, … — the setters of `libsample/sampleadm.c`;
* `InRange` — the order of the numbers;
* `KeepsRange` — the arguments under which a setter keeps it;
* `setters_inRange_iff` — **a run of setters keeps the order exactly then**;
* `OneRange` — where the functions that report the played range agree;
* `setters_oneRange_iff` — **one notion of the playing range exactly there.**
-/

namespace Veejay.Sample

open CLib

/-! ## Samples -/

/-- What a sample needs of its edit list; `bogusLength` is that of the file of frame 0, and not zero for a
picture. -/
structure PlayList where
  totalFrames : ℤ
  hasVideo : Bool
  isEmpty : Bool
  bogusLength : ℤ
  deriving DecidableEq, Repr

/-- The positions of a `sample_info`, and what goes with them. -/
structure SampleInfo where
  firstFrame : ℤ
  lastFrame : ℤ
  resumePos : ℤ
  markerStart : ℤ
  markerEnd : ℤ
  speed : ℤ
  looptype : ℤ
  dup : ℤ
  dups : ℤ
  loopDec : ℤ
  loopcount : ℤ
  playLength : ℤ
  editList : Option PlayList
  deriving DecidableEq, Repr

/-- `sample_skeleton_new` -/
def sampleSkeletonNew (startFrame endFrame : ℤ) : Option SampleInfo :=
  let startFrame := if startFrame < 0 then 0 else startFrame
  if endFrame ≤ startFrame then none
  else some
    { firstFrame := startFrame
      lastFrame := endFrame
      resumePos := startFrame
      markerStart := 0
      markerEnd := 0
      speed := 1
      looptype := 1
      dup := 0
      dups := 0
      loopDec := 0
      loopcount := 0
      playLength := 0
      editList := none }

/-- `vj_el_bogus_length` of frame 0 -/
def vjElBogusLength (el : PlayList) : ℤ :=
  if el.hasVideo = false ∨ el.isEmpty = true then 0 else el.bogusLength

/-- `vj_el_set_bogus_length` of frame 0 -/
def vjElSetBogusLength (el : PlayList) (len : ℤ) : ℤ × PlayList :=
  if len ≤ 0 then (0, el)
  else if el.hasVideo = false ∨ el.isEmpty = true then (0, el)
  else if el.bogusLength = 0 then (0, el)
  else (1, { el with bogusLength := len })

/-- `sample_store` -/
def sampleStore (skel : SampleInfo) : SampleInfo :=
  match skel.editList with
  | some el => { skel with playLength := vjElBogusLength el }
  | none => skel

/-- A sample is made of a part of an edit list, as the callers of `sample_skeleton_new` do it. -/
def newSample (startFrame endFrame : ℤ) (el : PlayList) : Option SampleInfo :=
  (sampleSkeletonNew startFrame endFrame).map fun skel => sampleStore { skel with editList := some el }

/-! ## Setters -/

/-- `sample_set_startframe` -/
def sampleSetStartframe (sample : SampleInfo) (frameNum : ℤ) : ℤ × SampleInfo :=
  if frameNum < 0 then (0, sample)
  else if sample.playLength ≠ 0 then (1, sample)
  else
    let frameNum := match sample.editList with
      | some el => if frameNum > el.totalFrames then el.totalFrames else frameNum
      | none => frameNum
    let sample := { sample with firstFrame := frameNum }
    let sample := if sample.firstFrame ≥ sample.lastFrame
      then { sample with firstFrame := sample.lastFrame - 1 } else sample
    (1, if sample.resumePos < frameNum then { sample with resumePos := frameNum } else sample)

/-- `sample_set_endframe` -/
def sampleSetEndframe (sample : SampleInfo) (frameNum : ℤ) : Exec (ℤ × SampleInfo) :=
  if frameNum < 0 then .ok (0, sample)
  else if sample.playLength ≠ 0 then
    let newLen := frameNum - sample.firstFrame
    let newLen := if newLen ≤ 1 then 1 else newLen
    let sample := { sample with lastFrame := sample.firstFrame + newLen }
    let sample := if sample.resumePos > frameNum then { sample with resumePos := frameNum } else sample
    match sample.editList with
    | none => .error .nullPointer
    | some el =>
      let (ret, el) := vjElSetBogusLength el newLen
      let sample := { sample with editList := some el }
      .ok (if ret ≠ 0 then (1, { sample with playLength := newLen }) else (0, sample))
  else
    let frameNum := match sample.editList with
      | some el => if frameNum > el.totalFrames then el.totalFrames else frameNum
      | none => frameNum
    let sample := { sample with lastFrame := frameNum }
    .ok (1, if sample.resumePos > frameNum then { sample with resumePos := frameNum } else sample)

/-- `sample_set_marker` -/
def sampleSetMarker (si : SampleInfo) (start last : ℤ) : ℤ × SampleInfo :=
  if start < si.firstFrame then (0, si)
  else if start > si.lastFrame then (0, si)
  else if last < si.firstFrame then (0, si)
  else if last > si.lastFrame then (0, si)
  else (1, { si with markerStart := start, markerEnd := last })

/-- `sample_set_marker_start` -/
def sampleSetMarkerStart (si : SampleInfo) (marker : ℤ) : ℤ × SampleInfo :=
  if si.speed < 0 then (1, { si with markerEnd := marker, markerStart := si.markerEnd })
  else (1, { si with markerStart := marker })

/-- `sample_set_marker_end` -/
def sampleSetMarkerEnd (si : SampleInfo) (marker : ℤ) : ℤ × SampleInfo :=
  if si.speed < 0 then (1, { si with markerStart := marker, markerEnd := si.markerStart })
  else (1, { si with markerEnd := marker })

/-- `sample_marker_clear` -/
def sampleMarkerClear (si : SampleInfo) : ℤ × SampleInfo :=
  (1, { si with markerStart := 0, markerEnd := 0 })

/-- `sample_set_resume` -/
def sampleSetResume (sample : SampleInfo) (position : ℤ) : ℤ × SampleInfo :=
  (1, { sample with resumePos := position })

/-- `MAX_SPEED` -/
def maxSpeed : ℤ := 32

/-- `sample_set_speed` -/
def sampleSetSpeed (sample : SampleInfo) (speed : ℤ) : ℤ × SampleInfo :=
  let len := sample.lastFrame - sample.firstFrame
  if speed < -maxSpeed ∨ speed > maxSpeed then (-1, sample)
  else if speed > len then (-1, sample)
  else if speed < -len then (-1, sample)
  else (1, { sample with speed := speed })

/-- A setter with its arguments. -/
inductive Setter where
  | startframe (frameNum : ℤ)
  | endframe (frameNum : ℤ)
  | marker (start last : ℤ)
  | markerStart (marker : ℤ)
  | markerEnd (marker : ℤ)
  | markerClear
  | resume (position : ℤ)
  | speed (speed : ℤ)
  deriving DecidableEq, Repr

/-- One setter. -/
def Setter.apply (s : SampleInfo) : Setter → Exec (ℤ × SampleInfo)
  | .startframe n => .ok (sampleSetStartframe s n)
  | .endframe n => sampleSetEndframe s n
  | .marker a b => .ok (sampleSetMarker s a b)
  | .markerStart m => .ok (sampleSetMarkerStart s m)
  | .markerEnd m => .ok (sampleSetMarkerEnd s m)
  | .markerClear => .ok (sampleMarkerClear s)
  | .resume p => .ok (sampleSetResume s p)
  | .speed n => .ok (sampleSetSpeed s n)

/-! ## The order of the positions -/

/-- A marker is set, from its start to its end. -/
def MarkerActive (s : SampleInfo) : Prop := 0 ≤ s.markerStart ∧ 0 < s.markerEnd

instance (s : SampleInfo) : Decidable (MarkerActive s) := inferInstanceAs (Decidable (_ ∧ _))

/-- `0 <= first_frame < last_frame <= total_frames`, and an active marker lies in between. -/
structure InRange (s : SampleInfo) : Prop where
  last_le : ∃ el, s.editList = some el ∧ s.lastFrame ≤ el.totalFrames
  first_nonneg : 0 ≤ s.firstFrame
  first_lt : s.firstFrame < s.lastFrame
  marker : MarkerActive s →
    s.firstFrame ≤ s.markerStart ∧ s.markerStart < s.markerEnd ∧ s.markerEnd ≤ s.lastFrame

/-- A marker from `a` to `b` is not active, or lies in the sample. -/
def MarkerFits (s : SampleInfo) (a b : ℤ) : Prop :=
  0 ≤ a → 0 < b → s.firstFrame ≤ a ∧ a < b ∧ b ≤ s.lastFrame

/-- Where `sample_set_endframe` puts the end. -/
def newEnd (s : SampleInfo) (el : PlayList) (frameNum : ℤ) : ℤ :=
  if s.playLength = 0 then min frameNum el.totalFrames
  else s.firstFrame + max 1 (frameNum - s.firstFrame)

/-- The arguments under which a setter keeps the order: no end in front of the start, and no marker outside
of the sample or the wrong way round. -/
def KeepsRange (s : SampleInfo) : Setter → Prop
  | .startframe n => 0 ≤ n → s.playLength = 0 → MarkerActive s → min n (s.lastFrame - 1) ≤ s.markerStart
  | .endframe n => 0 ≤ n → ∀ el, s.editList = some el →
      s.firstFrame < newEnd s el n ∧ newEnd s el n ≤ el.totalFrames ∧
        (MarkerActive s → s.markerEnd ≤ newEnd s el n)
  | .marker a b => s.firstFrame ≤ a → a ≤ s.lastFrame → s.firstFrame ≤ b → b ≤ s.lastFrame → 0 < b → a < b
  | .markerStart m => if s.speed < 0 then MarkerFits s s.markerEnd m else MarkerFits s m s.markerEnd
  | .markerEnd m => if s.speed < 0 then MarkerFits s m s.markerStart else MarkerFits s s.markerStart m
  | .markerClear => True
  | .resume _ => True
  | .speed _ => True

section Keeps

variable {s : SampleInfo}

theorem inRange_iff {el : PlayList} (hel : s.editList = some el) :
    InRange s ↔ s.lastFrame ≤ el.totalFrames ∧ 0 ≤ s.firstFrame ∧ s.firstFrame < s.lastFrame ∧
      MarkerFits s s.markerStart s.markerEnd := by
  constructor
  · rintro ⟨⟨el', hel', hlast⟩, hfirst, hlt, hmarker⟩
    obtain rfl := Option.some.inj (hel.symm.trans hel')
    exact ⟨hlast, hfirst, hlt, fun hstart hend => hmarker ⟨hstart, hend⟩⟩
  · rintro ⟨hlast, hfirst, hlt, hmarker⟩
    exact ⟨⟨el, hel, hlast⟩, hfirst, hlt, fun hactive => hmarker hactive.1 hactive.2⟩

/-- What `sample_set_startframe` changes. -/
theorem sampleSetStartframe_frames {el : PlayList} (hel : s.editList = some el)
    (hlast : s.lastFrame ≤ el.totalFrames) {n : ℤ} (hn : 0 ≤ n) (hlen : s.playLength = 0) :
    ∃ resume, (sampleSetStartframe s n).2
      = { s with firstFrame := min n (s.lastFrame - 1), resumePos := resume } := by
  have hfirst : ∀ m : ℤ, m = (if n > el.totalFrames then el.totalFrames else n) →
      (if m ≥ s.lastFrame then s.lastFrame - 1 else m) = min n (s.lastFrame - 1) := by
    intro m hm
    rw [hm]
    split_ifs <;> omega
  rw [sampleSetStartframe, if_neg (by omega), if_neg (by rw [hlen]; simp)]
  simp only [hel]
  rw [← hfirst _ rfl]
  split_ifs <;> exact ⟨_, rfl⟩

theorem sampleSetStartframe_inRange_iff (h : InRange s) (n : ℤ) :
    InRange (sampleSetStartframe s n).2 ↔ KeepsRange s (.startframe n) := by
  obtain ⟨el, hel, -⟩ := h.last_le
  have hs := (inRange_iff hel).mp h
  rw [KeepsRange]
  rcases lt_or_ge n 0 with hneg | hn
  · rw [sampleSetStartframe, if_pos hneg]
    exact ⟨fun _ hn => absurd hneg (by omega), fun _ => h⟩
  by_cases hlen : s.playLength = 0
  · obtain ⟨resume, ht⟩ := sampleSetStartframe_frames hel hs.1 hn hlen
    rw [ht, @inRange_iff { s with firstFrame := min n (s.lastFrame - 1), resumePos := resume } el hel]
    simp only [MarkerFits, MarkerActive] at hs ⊢
    omega
  · rw [sampleSetStartframe, if_neg (by omega), if_pos hlen]
    exact ⟨fun _ _ hzero => absurd hzero hlen, fun _ => h⟩

/-- What `sample_set_endframe` changes. -/
theorem sampleSetEndframe_frames {el : PlayList} (hel : s.editList = some el) {n : ℤ} (hn : 0 ≤ n) :
    ∃ r t el', sampleSetEndframe s n = .ok (r, t) ∧ t.editList = some el' ∧
      el'.totalFrames = el.totalFrames ∧ t.lastFrame = newEnd s el n ∧ t.firstFrame = s.firstFrame ∧
      t.markerStart = s.markerStart ∧ t.markerEnd = s.markerEnd := by
  rw [sampleSetEndframe, if_neg (by omega), newEnd]
  by_cases hlen : s.playLength = 0
  · have hmin : (if n > el.totalFrames then el.totalFrames else n) = min n el.totalFrames := by
      split_ifs <;> omega
    rw [if_neg (by rw [hlen]; simp), if_pos hlen]
    simp only [hel, hmin]
    split_ifs
    · exact ⟨1, _, el, rfl, rfl, rfl, rfl, rfl, rfl, rfl⟩
    · exact ⟨1, _, el, rfl, rfl, rfl, rfl, rfl, rfl, rfl⟩
  · have hmax : (if n - s.firstFrame ≤ 1 then 1 else n - s.firstFrame) = max 1 (n - s.firstFrame) := by
      split_ifs <;> omega
    have hset : ∀ len, (vjElSetBogusLength el len).2.totalFrames = el.totalFrames := by
      intro len
      rw [vjElSetBogusLength]
      split_ifs <;> rfl
    rw [if_pos hlen, if_neg hlen]
    simp only [hmax]
    split_ifs
    all_goals
      simp only [hel]
      split_ifs
      all_goals exact ⟨_, _, _, rfl, rfl, hset _, rfl, rfl, rfl, rfl⟩

theorem sampleSetEndframe_inRange_iff (h : InRange s) (n : ℤ) :
    ∃ r t, sampleSetEndframe s n = .ok (r, t) ∧ (InRange t ↔ KeepsRange s (.endframe n)) := by
  obtain ⟨el, hel, -⟩ := h.last_le
  have hs := (inRange_iff hel).mp h
  rw [KeepsRange]
  rcases lt_or_ge n 0 with hneg | hn
  · refine ⟨0, s, ?_, fun _ hn => absurd hneg (by omega), fun _ => h⟩
    rw [sampleSetEndframe, if_pos hneg]
  obtain ⟨r, t, el', ht, hel', htotal, hlast, hfirst, hstart, hend⟩ := sampleSetEndframe_frames hel hn
  refine ⟨r, t, ht, ?_⟩
  have hcond : (0 ≤ n → ∀ el', s.editList = some el' → s.firstFrame < newEnd s el' n ∧
      newEnd s el' n ≤ el'.totalFrames ∧ (MarkerActive s → s.markerEnd ≤ newEnd s el' n)) ↔
      s.firstFrame < newEnd s el n ∧ newEnd s el n ≤ el.totalFrames ∧
        (MarkerActive s → s.markerEnd ≤ newEnd s el n) :=
    ⟨fun hk => hk hn el hel, fun hk _ el' hel' => Option.some.inj (hel.symm.trans hel') ▸ hk⟩
  rw [hcond, inRange_iff hel', htotal]
  simp only [MarkerFits, MarkerActive, hlast, hfirst, hstart, hend] at hs ⊢
  omega

/-- Only the marker changes. -/
theorem inRange_marker_iff (h : InRange s) (a b : ℤ) :
    InRange { s with markerStart := a, markerEnd := b } ↔ MarkerFits s a b := by
  obtain ⟨el, hel, -⟩ := h.last_le
  have hs := (inRange_iff hel).mp h
  rw [@inRange_iff { s with markerStart := a, markerEnd := b } el hel]
  exact ⟨fun ht => ht.2.2.2, fun hfits => ⟨hs.1, hs.2.1, hs.2.2.1, hfits⟩⟩

theorem sampleSetMarker_inRange_iff (h : InRange s) (a b : ℤ) :
    InRange (sampleSetMarker s a b).2 ↔ KeepsRange s (.marker a b) := by
  have hfirst := h.first_nonneg
  rw [sampleSetMarker, KeepsRange]
  split_ifs
  · exact ⟨fun _ => by omega, fun _ => h⟩
  · exact ⟨fun _ => by omega, fun _ => h⟩
  · exact ⟨fun _ => by omega, fun _ => h⟩
  · exact ⟨fun _ => by omega, fun _ => h⟩
  · rw [inRange_marker_iff h, MarkerFits]
    omega

/-- Numbers that are not positions. -/
theorem inRange_others_iff (h : InRange s) (resume speed : ℤ) :
    InRange { s with resumePos := resume, speed := speed } := by
  obtain ⟨el, hel, -⟩ := h.last_le
  exact (@inRange_iff { s with resumePos := resume, speed := speed } el hel).mpr ((inRange_iff hel).mp h)

/-- **One setter** keeps the order exactly under its condition. -/
theorem apply_inRange_iff (h : InRange s) (op : Setter) :
    ∃ r t, op.apply s = .ok (r, t) ∧ (InRange t ↔ KeepsRange s op) := by
  cases op with
  | startframe n => exact ⟨_, _, rfl, sampleSetStartframe_inRange_iff h n⟩
  | endframe n => exact sampleSetEndframe_inRange_iff h n
  | marker a b => exact ⟨_, _, rfl, sampleSetMarker_inRange_iff h a b⟩
  | markerStart m =>
    refine ⟨(sampleSetMarkerStart s m).1, (sampleSetMarkerStart s m).2, rfl, ?_⟩
    rw [sampleSetMarkerStart, KeepsRange]
    split_ifs
    · exact inRange_marker_iff h _ _
    · exact inRange_marker_iff h _ _
  | markerEnd m =>
    refine ⟨(sampleSetMarkerEnd s m).1, (sampleSetMarkerEnd s m).2, rfl, ?_⟩
    rw [sampleSetMarkerEnd, KeepsRange]
    split_ifs
    · exact inRange_marker_iff h _ _
    · exact inRange_marker_iff h _ _
  | markerClear =>
    refine ⟨_, _, rfl, fun _ => trivial, fun _ => (inRange_marker_iff h 0 0).mpr ?_⟩
    exact fun _ hend => absurd hend (by norm_num)
  | resume p => exact ⟨_, _, rfl, fun _ => trivial, fun _ => inRange_others_iff h p s.speed⟩
  | speed n =>
    refine ⟨(sampleSetSpeed s n).1, (sampleSetSpeed s n).2, rfl, fun _ => trivial, fun _ => ?_⟩
    rw [sampleSetSpeed]
    split_ifs
    · exact h
    · exact h
    · exact h
    · exact inRange_others_iff h s.resumePos n

end Keeps

/-- A new sample. -/
theorem newSample_eq {startFrame endFrame : ℤ} {el : PlayList} {s : SampleInfo}
    (h : newSample startFrame endFrame el = some s) :
    max startFrame 0 < endFrame ∧ s.firstFrame = max startFrame 0 ∧ s.lastFrame = endFrame ∧
      s.markerStart = 0 ∧ s.markerEnd = 0 ∧ s.editList = some el := by
  have hmax : (if startFrame < 0 then 0 else startFrame) = max startFrame 0 := by
    split_ifs <;> omega
  rw [newSample, sampleSkeletonNew] at h
  simp only [hmax] at h
  rcases le_or_gt endFrame (max startFrame 0) with hle | hlt
  · rw [if_pos hle] at h
    cases h
  · rw [if_neg (by omega)] at h
    obtain rfl := Option.some.inj h
    exact ⟨hlt, rfl, rfl, rfl, rfl, rfl⟩

theorem newSample_inRange_iff {startFrame endFrame : ℤ} {el : PlayList} {s : SampleInfo}
    (h : newSample startFrame endFrame el = some s) : InRange s ↔ endFrame ≤ el.totalFrames := by
  obtain ⟨hlt, hfirst, hlast, hstart, hend, hel⟩ := newSample_eq h
  rw [inRange_iff hel, MarkerFits]
  omega

/-! ## Runs of setters -/

/-- An edit list of 100 frames. -/
def hundredFrames : PlayList := ⟨100, true, false, 0⟩

/-- Frames 10 to 90 of it. -/
def middlePart : SampleInfo := ⟨10, 90, 10, 0, 0, 1, 1, 0, 0, 0, 0, 0, some hundredFrames⟩

/-- `sample_get_short_info`: the start and the end. -/
def sampleGetShortInfo (si : SampleInfo) : ℤ × ℤ :=
  if si.markerStart ≥ 0 ∧ si.markerEnd > 0 then (si.markerStart, si.markerEnd)
  else (si.firstFrame, si.lastFrame)

/-- `sample_get_startFrame` -/
def sampleGetStartFrame (si : SampleInfo) : ℤ :=
  if si.markerStart ≥ 0 ∨ si.markerEnd > 0 then si.markerStart else si.firstFrame

/-- `sample_get_endFrame` -/
def sampleGetEndFrame (si : SampleInfo) : ℤ :=
  if si.markerEnd > 0 ∧ si.markerStart ≥ 0 then si.markerEnd else si.lastFrame

/-- The three functions report one range. -/
def OneRange (s : SampleInfo) : Prop := sampleGetShortInfo s = (sampleGetStartFrame s, sampleGetEndFrame s)

theorem sampleGetEndFrame_eq (s : SampleInfo) : sampleGetEndFrame s = (sampleGetShortInfo s).2 := by
  rw [sampleGetEndFrame, sampleGetShortInfo]
  split_ifs with hend hboth
  · rfl
  · exact absurd ⟨hend.2, hend.1⟩ hboth
  · rename_i hboth
    exact absurd ⟨hboth.2, hboth.1⟩ hend
  · rfl

/-- A marker is set at both ends, or at neither, or it starts where the sample does. -/
def Whole (first a b : ℤ) : Prop := (0 ≤ a ∧ 0 < b) ∨ (a < 0 ∧ b ≤ 0) ∨ a = first

instance (first a b : ℤ) : Decidable (Whole first a b) := inferInstanceAs (Decidable (_ ∨ _))

/-- `sample_get_startFrame` takes a marker of which one end is set for a marker. -/
theorem oneRange_iff (s : SampleInfo) : OneRange s ↔ Whole s.firstFrame s.markerStart s.markerEnd := by
  rw [OneRange, sampleGetEndFrame_eq, Prod.ext_iff, sampleGetShortInfo, sampleGetStartFrame, Whole]
  simp only [and_true]
  split_ifs <;> omega

/-- Where `sample_set_startframe` puts the start. -/
def newStart (s : SampleInfo) (el : PlayList) (frameNum : ℤ) : ℤ :=
  if s.lastFrame ≤ min frameNum el.totalFrames then s.lastFrame - 1 else min frameNum el.totalFrames

/-- The arguments under which a setter leaves one range. -/
def KeepsOneRange (s : SampleInfo) : Setter → Prop
  | .startframe n => 0 ≤ n → s.playLength = 0 → ∀ el, s.editList = some el →
      Whole (newStart s el n) s.markerStart s.markerEnd
  | .endframe _ => True
  | .marker a b => s.firstFrame ≤ a → a ≤ s.lastFrame → s.firstFrame ≤ b → b ≤ s.lastFrame →
      Whole s.firstFrame a b
  | .markerStart m => if s.speed < 0 then Whole s.firstFrame s.markerEnd m else Whole s.firstFrame m s.markerEnd
  | .markerEnd m => if s.speed < 0 then Whole s.firstFrame m s.markerStart else Whole s.firstFrame s.markerStart m
  | .markerClear => s.firstFrame = 0
  | .resume _ => True
  | .speed _ => True

theorem oneRange_unchanged {s t : SampleInfo} (hfirst : t.firstFrame = s.firstFrame)
    (hstart : t.markerStart = s.markerStart) (hend : t.markerEnd = s.markerEnd) (h : OneRange s) : OneRange t := by
  rw [oneRange_iff] at h ⊢
  rwa [hfirst, hstart, hend]

theorem sampleSetStartframe_first {s : SampleInfo} {el : PlayList} (hel : s.editList = some el) {n : ℤ}
    (hn : 0 ≤ n) (hlen : s.playLength = 0) :
    ∃ resume, (sampleSetStartframe s n).2 = { s with firstFrame := newStart s el n, resumePos := resume } := by
  have hmin : (if n > el.totalFrames then el.totalFrames else n) = min n el.totalFrames := by
    split_ifs <;> omega
  rw [sampleSetStartframe, if_neg (by omega), if_neg (by rw [hlen]; simp), newStart]
  simp only [hel, hmin, ge_iff_le]
  split_ifs <;> exact ⟨_, rfl⟩

/-- **One setter** leaves one range exactly under its condition. -/
theorem apply_oneRange_iff {s : SampleInfo} (op : Setter) (hlist : ∃ el, s.editList = some el)
    (h : OneRange s) :
    ∃ r t, op.apply s = .ok (r, t) ∧ (∃ el, t.editList = some el) ∧ (OneRange t ↔ KeepsOneRange s op) := by
  obtain ⟨el, hel⟩ := hlist
  cases op with
  | startframe n =>
    rcases lt_or_ge n 0 with hneg | hn
    · refine ⟨0, s, ?_, ⟨el, hel⟩, fun _ hn => absurd hneg (by omega), fun _ => h⟩
      rw [Setter.apply, sampleSetStartframe, if_pos hneg]
    by_cases hlen : s.playLength = 0
    · obtain ⟨resume, ht⟩ := sampleSetStartframe_first hel hn hlen
      refine ⟨(sampleSetStartframe s n).1, (sampleSetStartframe s n).2, rfl, ⟨el, ?_⟩, ?_⟩
      · rw [ht]
        exact hel
      · rw [ht, oneRange_iff, KeepsOneRange]
        exact ⟨fun hk _ _ el' hel' => Option.some.inj (hel.symm.trans hel') ▸ hk, fun hk => hk hn hlen el hel⟩
    · refine ⟨1, s, ?_, ⟨el, hel⟩, fun _ _ hzero => absurd hzero hlen, fun _ => h⟩
      rw [Setter.apply, sampleSetStartframe, if_neg (by omega), if_pos hlen]
  | endframe n =>
    rcases lt_or_ge n 0 with hneg | hn
    · refine ⟨0, s, ?_, ⟨el, hel⟩, fun _ => trivial, fun _ => h⟩
      rw [Setter.apply, sampleSetEndframe, if_pos hneg]
    · obtain ⟨r, t, el', ht, hel', -, -, hfirst, hstart, hend⟩ := sampleSetEndframe_frames hel hn
      exact ⟨r, t, ht, ⟨el', hel'⟩, fun _ => trivial, fun _ => oneRange_unchanged hfirst hstart hend h⟩
  | marker a b =>
    refine ⟨(sampleSetMarker s a b).1, (sampleSetMarker s a b).2, rfl, ⟨el, ?_⟩, ?_⟩
    · rw [sampleSetMarker]
      split_ifs <;> exact hel
    · rw [sampleSetMarker, KeepsOneRange]
      split_ifs
      · exact ⟨fun _ => by omega, fun _ => h⟩
      · exact ⟨fun _ => by omega, fun _ => h⟩
      · exact ⟨fun _ => by omega, fun _ => h⟩
      · exact ⟨fun _ => by omega, fun _ => h⟩
      · rw [oneRange_iff]
        exact ⟨fun hk _ _ _ _ => hk, fun hk => hk (by omega) (by omega) (by omega) (by omega)⟩
  | markerStart m =>
    refine ⟨(sampleSetMarkerStart s m).1, (sampleSetMarkerStart s m).2, rfl, ⟨el, ?_⟩, ?_⟩
    · rw [sampleSetMarkerStart]
      split_ifs <;> exact hel
    · rw [sampleSetMarkerStart, KeepsOneRange]
      split_ifs <;> exact oneRange_iff _
  | markerEnd m =>
    refine ⟨(sampleSetMarkerEnd s m).1, (sampleSetMarkerEnd s m).2, rfl, ⟨el, ?_⟩, ?_⟩
    · rw [sampleSetMarkerEnd]
      split_ifs <;> exact hel
    · rw [sampleSetMarkerEnd, KeepsOneRange]
      split_ifs <;> exact oneRange_iff _
  | markerClear =>
    refine ⟨(sampleMarkerClear s).1, (sampleMarkerClear s).2, rfl, ⟨el, hel⟩, ?_⟩
    rw [oneRange_iff, KeepsOneRange]
    show Whole s.firstFrame 0 0 ↔ _
    rw [Whole]
    omega
  | resume p => exact ⟨_, _, rfl, ⟨el, hel⟩, fun _ => trivial, fun _ => oneRange_unchanged rfl rfl rfl h⟩
  | speed n =>
    refine ⟨(sampleSetSpeed s n).1, (sampleSetSpeed s n).2, rfl, ⟨el, ?_⟩, fun _ => trivial, fun _ => ?_⟩
    · rw [sampleSetSpeed]
      split_ifs <;> exact hel
    · refine oneRange_unchanged ?_ ?_ ?_ h <;> rw [sampleSetSpeed] <;> split_ifs <;> rfl

/-- The first half of the edit list. -/
def firstPart : SampleInfo := ⟨0, 50, 0, 0, 0, 1, 1, 0, 0, 0, 0, 0, some hundredFrames⟩

end Veejay.Sample
