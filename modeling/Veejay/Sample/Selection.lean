import Veejay.EditList.Moves
import Veejay.Sample.Scenes

/-!
# A sample of a selection

`vj_event_sample_start` marks the frame that is played, and `vj_event_sample_end` makes a sample of the frames from
there to the one that is then played (`veejay/vj-event.c`).  The two are put in order, and are swapped once more where
the movie plays backwards.

* `veejayEditCopyToNew` — the list of a part of a list;
* `vjEventSampleStart`, `vjEventSampleEnd` — the handlers;
* `copyToNew_holds` — **what the copy of a part holds**;
* `Selected` — the new sample has a list of its own, of the frames between the marks;
* `selection_iff` — **when it is made**: never while the movie plays backwards.
-/

namespace Veejay.Selection

open CLib Veejay.Edl Veejay.Samples Veejay.Scenes

/-! ## Copying a part of a list -/

/-- `vj_el_soft_clone` -/
def vjElSoftClone (el : Edl.EditList) : Edl.EditList :=
  let used := fun i => (el.lavFd i).isSome ∧ (el.videoFileList i).isSome
  { callocEditList with
    isEmpty := el.isEmpty
    hasVideo := el.hasVideo
    videoWidth := el.videoWidth
    videoHeight := el.videoHeight
    videoFps := el.videoFps
    videoNorm := el.videoNorm
    hasAudio := el.hasAudio
    audioRate := el.audioRate
    audioChans := el.audioChans
    audioBits := el.audioBits
    audioBps := el.audioBps
    videoFrames := el.videoFrames
    totalFrames := el.videoFrames.toUInt64 - 1
    numVideoFiles := el.numVideoFiles
    maxFrameSize := el.maxFrameSize
    mjpgChroma := el.mjpgChroma
    frameList := none
    autoDeinter := el.autoDeinter
    videoFileList := fun i => if used i then el.videoFileList i else none
    lavFd := fun i => if used i then el.lavFd i else none
    numFrames := fun i => if used i then el.numFrames i else 0
    pixfmt := fun i => if used i then el.pixfmt i else 0
    decoders := el.decoders
    ctx := el.ctx }

theorem part_bounded {α : Type} (b : Block α) (start len : ℕ) : ((b.cells.drop start).take len).length < 2 ^ 60 := by
  have hbound := b.bounded
  rw [List.length_take, List.length_drop]
  omega

/-- `memcpy` of the cells from `start` on to a block of `len` cells. -/
def copyCells (src : Option (Block UInt64)) (start len : ℕ) : Exec (Block UInt64) :=
  match src with
  | none => .error .nullPointer
  | some b => if start + len ≤ b.size then .ok ⟨_, part_bounded b start len⟩ else .error .outOfBounds

/-- The clone gets `len` entries. -/
def clonePart (el : Edl.EditList) (start len : ℤ) : Exec (Option Edl.EditList) := do
  let frameList ← copyCells el.frameList (UInt64.ofInt start).toNat len.toNat
  .ok (some { vjElSoftClone el with
    frameList := some frameList, videoFrames := Int64.ofInt len, totalFrames := UInt64.ofInt (len - 1) })

/-- `veejay_edit_copy_to_new` -/
def veejayEditCopyToNew (mem : Allocator) (el : Edl.EditList) (start stop : ℤ) : Exec (Option Edl.EditList) :=
  let len := stop - start + 1
  if el.isEmpty then .ok none
  else if UInt64.ofInt stop > el.totalFrames then .ok none
  else if len < 1 then .ok none
  else
    match (mem.realloc none (len.toNat * 8) : Option (Block UInt64)) with
    | none => .ok none
    | some _ => clonePart el start len

/-! ## The handlers -/

/-- What the handlers read and write: `SAMPLE_PLAYING` and `PLAIN_PLAYING`, the edit lists, the frame and the speed of
the settings, the marks of the user, and the samples. -/
structure State where
  samplePlaying : Bool
  plainPlaying : Bool
  editList : Edl.EditList
  currentEditList : Edl.EditList
  currentFrameNum : Int32
  currentPlaybackSpeed : Int32
  sampleStart : ℤ
  sampleEnd : ℤ
  bank : Bank NewSample

/-- `vj_event_sample_start` -/
def vjEventSampleStart (s : State) : State :=
  if s.samplePlaying ∨ s.plainPlaying then { s with sampleStart := s.currentFrameNum.toInt } else s

/-- The end is marked, and the marks are put in order. -/
def markEnd (s : State) : State :=
  if s.currentFrameNum.toInt < s.sampleStart then
    { s with sampleStart := s.currentFrameNum.toInt, sampleEnd := s.sampleStart }
  else { s with sampleEnd := s.currentFrameNum.toInt }

/-- `vstart` and `vend`: the marks, the other way round for a negative speed, and clamped to the list. -/
def selectedRange (s : State) : ℤ × ℤ :=
  let range := if s.currentPlaybackSpeed < 0 then (s.sampleEnd, s.sampleStart) else (s.sampleStart, s.sampleEnd)
  (if range.1 < 0 then 0 else range.1,
    if UInt64.ofInt range.2 > s.currentEditList.totalFrames then s.currentEditList.totalFrames.toInt64.toInt
    else range.2)

/-- The list of the selection becomes a sample. -/
def storeSelection (el : Edl.EditList) (s : State) : Exec State := do
  match ← sampleSkeletonNew newContents 0 el.totalFrames.toInt64.toInt s.bank with
  | (none, b) => .ok { s with bank := b }
  | (some (skel, _), b) => do
    let b ← updateInfo skel (fun x => { x with editList := some el }) b
    let b ← sampleStore newContents skel b
    .ok { s with sampleStart := s.sampleEnd, bank := b }

/-- `vj_event_sample_end`, with the marks in order. -/
def makeSelection (mem : Allocator) (s : State) : Exec State :=
  if s.sampleEnd > s.sampleStart then do
    let range := selectedRange s
    let source := if s.samplePlaying then s.currentEditList else s.editList
    match ← veejayEditCopyToNew mem source range.1 range.2 with
    | none => .ok s
    | some el => storeSelection el s
  else .ok s

/-- `vj_event_sample_end` -/
def vjEventSampleEnd (mem : Allocator) (s : State) : Exec State :=
  if s.plainPlaying ∨ s.samplePlaying then makeSelection mem (markEnd s) else .ok s

/-- The start is marked at frame `a`, and the end at frame `b`, where the movie plays at this speed. -/
def select (mem : Allocator) (a b speed : Int32) (s : State) : Exec State :=
  vjEventSampleEnd mem
    { vjEventSampleStart { s with currentFrameNum := a } with currentFrameNum := b, currentPlaybackSpeed := speed }

/-! ## The property -/

/-- The edit lists are as they were. -/
def SameLists (s s' : State) : Prop := s'.editList = s.editList ∧ s'.currentEditList = s.currentEditList

/-- One sample is new, and plays all of a list of its own with these entries. -/
def Selected (s s' : State) (entries : List UInt64) : Prop :=
  ∃ id x el, ¬ Live s.bank id ∧ (∀ k, Live s'.bank k ↔ k = id ∨ Live s.bank k) ∧
    (∀ k, s'.bank.infoOf k = if k = id then some x else s.bank.infoOf k) ∧
    x.editList = some el ∧ HoldsEntries el entries ∧ x.firstFrame = 0 ∧ x.lastFrame = entries.length - 1

/-- **The property**: the selection between `a` and `b` becomes a sample, or nothing is changed if they are equal. -/
def SelectionMade (mem : Allocator) (a b speed : Int32) (s : State) (edl : List UInt64) : Prop :=
  Ensures (select mem a b speed s) fun s' => SameLists s s' ∧
    (a = b → s'.bank = s.bank) ∧
    (a ≠ b → Selected s s' (block edl (min a.toInt b.toInt).toNat (max a.toInt b.toInt).toNat))

/-- The state in which the commands are given: a movie or a sample is played, of the entries `edl`. -/
structure Marking (s : State) (edl : List UInt64) : Prop where
  playing : s.samplePlaying = true ∨ s.plainPlaying = true
  same : s.samplePlaying = false → s.editList = s.currentEditList
  holds : HoldsEntries s.currentEditList edl
  total : s.currentEditList.totalFrames.toNat = edl.length - 1
  regular : Regular s.bank
  coherent : Coherent s.bank

/-! ## The copy of a part -/

section Copy

variable {mem : Allocator} {el : Edl.EditList} {edl : List UInt64}

theorem copyToNew_empty (h : el.isEmpty = true) (start stop : ℤ) : veejayEditCopyToNew mem el start stop = .ok none :=
  if_pos h

/-- What ends in front of its beginning is not copied. -/
theorem copyToNew_reversed {start stop : ℤ} (h : stop < start) : veejayEditCopyToNew mem el start stop = .ok none := by
  unfold veejayEditCopyToNew
  dsimp only
  split_ifs with hempty hend hlen
  · rfl
  · rfl
  · rfl
  · omega

/-- The clone of a part of a list. -/
theorem clonePart_holds (h : HoldsEntries el edl) {start stop : ℕ} (horder : start ≤ stop) (hstop : stop < edl.length) :
    ∃ el', clonePart el start (stop - start + 1) = .ok (some el') ∧ HoldsEntries el' (block edl start stop) ∧
      el'.totalFrames.toNat = stop - start := by
  obtain ⟨-, b, hb, htake⟩ := h
  obtain ⟨hsize, hcells⟩ := take_eq_map_iff.mp htake
  have hbound : b.size < 2 ^ 60 := b.bounded
  have hstart : (UInt64.ofInt (start : ℤ)).toNat = start := by
    rw [uint64_toNat_ofInt_of_nonneg (Int.natCast_nonneg _) (by omega), Int.toNat_natCast]
  have hlen : ((stop : ℤ) - start + 1).toNat = stop + 1 - start := by omega
  have hcopy : copyCells (some b) start (stop + 1 - start) = .ok ⟨_, part_bounded b start (stop + 1 - start)⟩ :=
    if_pos (by omega)
  have hblock := block_length horder hstop
  refine ⟨_, by rw [clonePart, hstart, hlen, hb, hcopy, ok_bind], ⟨?_, _, rfl, ?_⟩, ?_⟩
  · rw [hblock]
    show (Int64.ofInt ((stop : ℤ) - start + 1)).toInt = _
    rw [Int64.toInt_ofInt_of_le (by omega) (by omega)]
    omega
  · show ((b.cells.drop start).take (stop + 1 - start)).take _ = _
    rw [hblock, List.take_take, Nat.min_self, block, List.map_take, List.map_drop, ← htake, List.drop_take,
      List.take_take]
    congr 1
    omega
  · show (UInt64.ofInt ((stop : ℤ) - start + 1 - 1)).toNat = _
    rw [uint64_toNat_ofInt_of_nonneg (by omega) (by omega)]
    omega

/-- **A part of a list**, where there is memory for it. -/
theorem copyToNew_holds (hfull : el.isEmpty = false) (h : HoldsEntries el edl)
    (htotal : el.totalFrames.toNat = edl.length - 1) {start stop : ℕ} (horder : start ≤ stop) (hstop : stop < edl.length) :
    (mem.Serves (stop + 1 - start) → ∃ el', veejayEditCopyToNew mem el start stop = .ok (some el') ∧
      HoldsEntries el' (block edl start stop) ∧ el'.totalFrames.toNat = stop - start) ∧
    (¬ mem.Serves (stop + 1 - start) → veejayEditCopyToNew mem el start stop = .ok none) := by
  have hbound : edl.length < 2 ^ 60 := by
    obtain ⟨-, b, -, htake⟩ := h
    have hsize := (take_eq_map_iff.mp htake).1
    have hb : b.size < 2 ^ 60 := b.bounded
    omega
  have hinside : ¬ UInt64.ofInt (stop : ℤ) > el.totalFrames := by
    rw [gt_iff_lt, UInt64.lt_iff_toNat_lt, uint64_toNat_ofInt_of_nonneg (Int.natCast_nonneg _) (by omega),
      Int.toNat_natCast]
    omega
  have hlen : ((stop : ℤ) - start + 1).toNat = stop + 1 - start := by omega
  rw [veejayEditCopyToNew, if_neg (by rw [hfull]; exact Bool.false_ne_true), if_neg hinside, if_neg (by omega), hlen]
  refine ⟨fun hserves => ?_, fun hrefused => ?_⟩
  · obtain ⟨fresh, hfresh, -⟩ := Allocator.realloc_of_serves (p := (none : Option (Block UInt64))) (by omega) hserves
    rw [hfresh]
    exact clonePart_holds h horder hstop
  · rw [Allocator.realloc_of_refused (by omega) hrefused]

end Copy

/-! ## The sample of the copy -/

section Store

variable {α : Type} {c : Contents α} {b : Bank α}

/-- Without an id that is left, the new sample is put behind the end of the cache. -/
theorem sampleSkeletonNew_full (hb : Regular b) (hfull : ¬ CanAllocate b) {startFrame endFrame : ℤ}
    (hrange : max startFrame 0 < endFrame) : sampleSkeletonNew c startFrame endFrame b = .error .overrun := by
  have hthis : b.thisSampleId = sampleMaxSamples := by
    have hle := hb.this_le
    have hnot : ¬ b.thisSampleId < sampleMaxSamples := fun hlt => hfull (Or.inr hlt)
    omega
  have hnew : newId b = .ok ((sampleMaxSamples : ℤ), { b with thisSampleId := sampleMaxSamples + 1 }) := by
    have hnext := hb.next_lt
    rcases @findFreed_spec b.availNum (b.nextAvailNum + 1) 0 (by rw [hb.avail_length]; omega) with
      ⟨hnone, -⟩ | ⟨k, id, -, hk, hid⟩
    · rw [newId, hnone, ok_bind]
      dsimp only
      rw [hthis, if_neg (by decide)]
    · exact absurd (Or.inl ⟨id, List.mem_of_getElem? hk, hid⟩) hfull
  have hstart : (if startFrame < 0 then 0 else startFrame) = max startFrame 0 := by
    split_ifs <;> omega
  rw [sampleSkeletonNew, hstart]
  dsimp only
  rw [if_neg (not_le.mpr hrange), hnew, ok_bind]
  dsimp only
  rw [setCache, if_neg, error_bind]
  rintro ⟨-, hlt⟩
  have hlen : (b.sampleCache.length : ℤ) = sampleMaxSamples := by rw [hb.cache_length]
  exact absurd (hlt.trans_eq hlen) (lt_irrefl _)

/-- **A list of two frames or more becomes a sample**, where an id is left. -/
theorem storeSelection_holds {el : Edl.EditList} {s : State} {entries : List UInt64} (hb : Regular s.bank)
    (hc : Coherent s.bank) (hcan : CanAllocate s.bank) (hel : HoldsEntries el entries)
    (hlast : el.totalFrames.toNat = entries.length - 1) (htwo : 2 ≤ entries.length) :
    ∃ s', storeSelection el s = .ok s' ∧ SameLists s s' ∧ Selected s s' entries := by
  have hend : el.totalFrames.toInt64.toInt = entries.length - 1 := by
    obtain ⟨-, block, -, htake⟩ := hel
    have hsize := (take_eq_map_iff.mp htake).1
    have hbound : block.size < 2 ^ 60 := block.bounded
    rw [uint64_toInt64_toInt_of_lt (by omega)]
    omega
  rcases sampleSkeletonNew_spec hb newContents
    (fun _ : max (0 : ℤ) 0 < el.totalFrames.toInt64.toInt => hcan) with ⟨-, hshort⟩ | ⟨id, x, b₁, hnew, hb₁, hskel⟩
  · rw [hend, max_self] at hshort
    omega
  · obtain ⟨b₂, b₃, hset, hstore, hb₃, hcreated⟩ :=
      hskel.store hb₁ hc newContents fun x => { x with editList := some el }
    have hx : x = ⟨0, entries.length - 1, 0, true, none⟩ := by
      rcases sampleSkeletonNew_cases hnew with ⟨hnone, -⟩ | ⟨-, id', this, -, -, hheap⟩
      · cases (Prod.mk.inj hnone).1
      · have hcell := congrFun (hskel.heap.symm.trans hheap) s.bank.nextAddr
        rw [Function.update_self, Function.update_self] at hcell
        rw [(Object.mk.inj (Option.some.inj hcell)).2, hend]
        rfl
    refine ⟨{ s with sampleStart := s.sampleEnd, bank := b₃ }, ?_, ⟨rfl, rfl⟩, id, _, el, hcreated.fresh, hcreated.live_iff,
      hcreated.infoOf hb.toSound hc hb₃.toSound, rfl, hel, ?_, ?_⟩
    · rw [storeSelection, hnew, ok_bind]
      dsimp only
      rw [hset, ok_bind, hstore, ok_bind]
    · rw [hx]
      rfl
    · rw [hx]
      rfl

end Store

/-! ## Marking -/

section Marks

variable {mem : Allocator} {s : State} {edl : List UInt64} {a b speed : Int32}

/-- The state after both marks. -/
def marked (a b speed : Int32) (s : State) : State :=
  { s with
    currentFrameNum := b
    currentPlaybackSpeed := speed
    sampleStart := min a.toInt b.toInt
    sampleEnd := max a.toInt b.toInt }

/-- **The marks are put in order**, whichever was set first. -/
theorem select_eq (hplaying : s.samplePlaying = true ∨ s.plainPlaying = true) :
    select mem a b speed s = makeSelection mem (marked a b speed s) := by
  rw [select, vjEventSampleStart, if_pos hplaying, vjEventSampleEnd, if_pos (Or.symm hplaying), markEnd]
  dsimp only
  split_ifs with hlt
  · rw [marked, min_eq_right hlt.le, max_eq_left hlt.le]
  · rw [marked, min_eq_left (not_lt.mp hlt), max_eq_right (not_lt.mp hlt)]

/-- The range that is copied: the marks, the other way round where the movie plays backwards. -/
theorem selectedRange_marked (h : Marking s edl) (ha : 0 ≤ a.toInt ∧ a.toInt < edl.length)
    (hb : 0 ≤ b.toInt ∧ b.toInt < edl.length) :
    selectedRange (marked a b speed s) =
      if speed < 0 then (max a.toInt b.toInt, min a.toInt b.toInt) else (min a.toInt b.toInt, max a.toInt b.toInt) := by
  have hmaxa := a.toInt_lt
  have hmaxb := b.toInt_lt
  have htotal : (marked a b speed s).currentEditList.totalFrames.toNat = edl.length - 1 := h.total
  have hclamp : ∀ x : ℤ, 0 ≤ x → x < edl.length → x < 2 ^ 31 →
      ¬ UInt64.ofInt x > (marked a b speed s).currentEditList.totalFrames := by
    intro x hx hx' hx''
    rw [gt_iff_lt, UInt64.lt_iff_toNat_lt, uint64_toNat_ofInt_of_nonneg hx (by omega)]
    omega
  rw [selectedRange]
  by_cases hback : speed < 0
  · rw [if_pos hback, show (if (marked a b speed s).currentPlaybackSpeed < 0 then
      ((marked a b speed s).sampleEnd, (marked a b speed s).sampleStart)
      else ((marked a b speed s).sampleStart, (marked a b speed s).sampleEnd)) =
        (max a.toInt b.toInt, min a.toInt b.toInt) from if_pos hback]
    dsimp only
    rw [if_neg (by omega), if_neg (hclamp _ (by omega) (by omega) (by omega))]
  · rw [if_neg hback, show (if (marked a b speed s).currentPlaybackSpeed < 0 then
      ((marked a b speed s).sampleEnd, (marked a b speed s).sampleStart)
      else ((marked a b speed s).sampleStart, (marked a b speed s).sampleEnd)) =
        (min a.toInt b.toInt, max a.toInt b.toInt) from if_neg hback]
    dsimp only
    rw [if_neg (by omega), if_neg (hclamp _ (by omega) (by omega) (by omega))]

/-- The list that is copied is the one that is played. -/
theorem source_eq (h : Marking s edl) :
    (if (marked a b speed s).samplePlaying then (marked a b speed s).currentEditList
      else (marked a b speed s).editList) = s.currentEditList := by
  by_cases hsample : s.samplePlaying = true
  · exact if_pos hsample
  · exact (if_neg hsample).trans (h.same (Bool.eq_false_of_not_eq_true hsample))

/-- No sample is made: the samples are as they were. -/
theorem not_selected {s' : State} {entries : List UInt64} (h : s'.bank = s.bank) : ¬ Selected s s' entries := by
  rintro ⟨id, x, el, hfresh, hlive, -⟩
  have hnew := (hlive id).mpr (Or.inl rfl)
  rw [h] at hnew
  exact hfresh hnew

/-- Without a copy of the part, nothing is made. -/
theorem makeSelection_none (h : Marking s edl) (hlt : min a.toInt b.toInt < max a.toInt b.toInt)
    (hcopy : veejayEditCopyToNew mem s.currentEditList (selectedRange (marked a b speed s)).1
      (selectedRange (marked a b speed s)).2 = .ok none) :
    makeSelection mem (marked a b speed s) = .ok (marked a b speed s) := by
  rw [makeSelection, if_pos (show (marked a b speed s).sampleEnd > (marked a b speed s).sampleStart from hlt)]
  dsimp only
  rw [source_eq h, hcopy, ok_bind]

/-- With the copy, it is stored. -/
theorem makeSelection_some (h : Marking s edl) (hlt : min a.toInt b.toInt < max a.toInt b.toInt) {el : Edl.EditList}
    (hcopy : veejayEditCopyToNew mem s.currentEditList (selectedRange (marked a b speed s)).1
      (selectedRange (marked a b speed s)).2 = .ok (some el)) :
    makeSelection mem (marked a b speed s) = storeSelection el (marked a b speed s) := by
  rw [makeSelection, if_pos (show (marked a b speed s).sampleEnd > (marked a b speed s).sampleStart from hlt)]
  dsimp only
  rw [source_eq h, hcopy, ok_bind]

/-- What is asked of a selection of different frames, of the handler with the marks in order. -/
def Makes (mem : Allocator) (a b speed : Int32) (s : State) (edl : List UInt64) : Prop :=
  Ensures (makeSelection mem (marked a b speed s)) fun s' =>
    SameLists s s' ∧ Selected s s' (block edl (min a.toInt b.toInt).toNat (max a.toInt b.toInt).toNat)

theorem not_makes_of_none (h : Marking s edl) (hlt : min a.toInt b.toInt < max a.toInt b.toInt)
    (hcopy : veejayEditCopyToNew mem s.currentEditList (selectedRange (marked a b speed s)).1
      (selectedRange (marked a b speed s)).2 = .ok none) : ¬ Makes mem a b speed s edl := by
  rw [Makes, makeSelection_none h hlt hcopy, ensures_ok]
  exact fun hboth => not_selected rfl hboth.2

/-- Backwards, nothing is selected. -/
theorem not_makes_backward (h : Marking s edl) (ha : 0 ≤ a.toInt ∧ a.toInt < edl.length)
    (hb : 0 ≤ b.toInt ∧ b.toInt < edl.length) (hlt : min a.toInt b.toInt < max a.toInt b.toInt) (hback : speed < 0) :
    ¬ Makes mem a b speed s edl := by
  refine not_makes_of_none h hlt ?_
  rw [selectedRange_marked h ha hb, if_pos hback]
  exact copyToNew_reversed hlt

/-- **Forwards, the frames are selected** where there is memory for the copy, and an id that is left. -/
theorem makes_forward_iff (h : Marking s edl) (ha : 0 ≤ a.toInt ∧ a.toInt < edl.length)
    (hb : 0 ≤ b.toInt ∧ b.toInt < edl.length) (hlt : min a.toInt b.toInt < max a.toInt b.toInt) (hforward : ¬ speed < 0)
    (hfull : s.currentEditList.isEmpty = false) :
    Makes mem a b speed s edl ↔
      mem.Serves ((max a.toInt b.toInt).toNat + 1 - (min a.toInt b.toInt).toNat) ∧ CanAllocate s.bank := by
  have hrange : selectedRange (marked a b speed s) = _ := selectedRange_marked h ha hb
  rw [if_neg hforward] at hrange
  have hmaxa := a.toInt_lt
  have hmaxb := b.toInt_lt
  obtain ⟨start, hstart⟩ := Int.eq_ofNat_of_zero_le (show 0 ≤ min a.toInt b.toInt by omega)
  obtain ⟨stop, hstop⟩ := Int.eq_ofNat_of_zero_le (show 0 ≤ max a.toInt b.toInt by omega)
  obtain ⟨hserved, hrefused⟩ := @copyToNew_holds mem _ edl hfull h.holds h.total start stop
    (by omega) (by omega)
  rw [← hstart, ← hstop] at hserved hrefused
  have hlen : (max a.toInt b.toInt).toNat + 1 - (min a.toInt b.toInt).toNat = stop + 1 - start := by omega
  rw [hlen]
  by_cases hserves : mem.Serves (stop + 1 - start)
  · obtain ⟨el, hcopy, hel, hlast⟩ := hserved hserves
    have hblock := @block_length edl start stop (by omega) (by omega)
    rw [Makes, makeSelection_some h hlt (by rw [hrange]; exact hcopy)]
    by_cases hcan : CanAllocate s.bank
    · refine iff_of_true ?_ ⟨hserves, hcan⟩
      rw [hstart, hstop, Int.toNat_natCast, Int.toNat_natCast]
      exact storeSelection_holds (s := marked a b speed s) h.regular h.coherent hcan hel (by omega) (by omega)
    · refine iff_of_false ?_ fun hboth => hcan hboth.2
      have hpos : max 0 0 < el.totalFrames.toInt64.toInt := by
        rw [uint64_toInt64_toInt_of_lt (by omega)]
        omega
      rw [storeSelection, sampleSkeletonNew_full (b := (marked a b speed s).bank) h.regular hcan hpos, error_bind]
      exact ensures_error _ _
  · refine iff_of_false (not_makes_of_none h hlt ?_) fun hboth => hserves hboth.1
    rw [hrange]
    exact hrefused hserves

/-- **When the selection becomes a sample**: where the marks are at one frame, or the movie does not play backwards, and
there is a list, memory for the copy, and an id that is left. -/
theorem selection_iff (h : Marking s edl) (ha : 0 ≤ a.toInt ∧ a.toInt < edl.length)
    (hb : 0 ≤ b.toInt ∧ b.toInt < edl.length) :
    SelectionMade mem a b speed s edl ↔
      a = b ∨ (0 ≤ speed ∧ s.currentEditList.isEmpty = false ∧
        mem.Serves ((max a.toInt b.toInt).toNat + 1 - (min a.toInt b.toInt).toNat) ∧ CanAllocate s.bank) := by
  rw [SelectionMade, select_eq h.playing]
  by_cases heq : a = b
  · refine iff_of_true ?_ (Or.inl heq)
    have hnot : ¬ (marked a b speed s).sampleEnd > (marked a b speed s).sampleStart := by
      show ¬ max a.toInt b.toInt > min a.toInt b.toInt
      rw [heq, max_self, min_self]
      exact lt_irrefl _
    rw [makeSelection, if_neg hnot, ensures_ok]
    exact ⟨⟨rfl, rfl⟩, fun _ => rfl, fun hne => absurd heq hne⟩
  · have hne : a.toInt ≠ b.toInt := fun hval => heq (Int32.toInt_inj.mp hval)
    have hlt : min a.toInt b.toInt < max a.toInt b.toInt := by omega
    have hmakes : (Ensures (makeSelection mem (marked a b speed s)) fun s' => SameLists s s' ∧ (a = b → s'.bank = s.bank) ∧
        (a ≠ b → Selected s s' (block edl (min a.toInt b.toInt).toNat (max a.toInt b.toInt).toNat))) ↔
          Makes mem a b speed s edl :=
      ⟨fun hall => hall.mono fun _ hs' => ⟨hs'.1, hs'.2.2 heq⟩,
        fun hall => hall.mono fun _ hs' => ⟨hs'.1, fun hab => absurd hab heq, fun _ => hs'.2⟩⟩
    rw [hmakes, or_iff_right heq]
    by_cases hback : speed < 0
    · exact iff_of_false (not_makes_backward h ha hb hlt hback) fun hall => Int32.not_lt.mpr hall.1 hback
    · by_cases hempty : s.currentEditList.isEmpty = true
      · exact iff_of_false (not_makes_of_none h hlt (copyToNew_empty hempty _ _))
          fun hall => Bool.false_ne_true (hall.2.1.symm.trans hempty)
      · have hfull := Bool.eq_false_of_not_eq_true hempty
        rw [makes_forward_iff h ha hb hlt hback hfull]
        exact ⟨fun hboth => ⟨Int32.not_lt.mp hback, hfull, hboth⟩, fun hall => hall.2.2⟩

end Marks

/-! ## A movie of five frames -/

/-- The movie is played, and there are no samples. -/
def playingMovie (edl : List UInt64) : State where
  samplePlaying := false
  plainPlaying := true
  editList := (sessionOver edl []).el
  currentEditList := (sessionOver edl []).el
  currentFrameNum := 0
  currentPlaybackSpeed := 1
  sampleStart := 0
  sampleEnd := 0
  bank := sampleInit

theorem playingMovie_marking : Marking (playingMovie [1, 2, 3, 4, 5]) [1, 2, 3, 4, 5] where
  playing := Or.inr rfl
  same := fun _ => rfl
  holds := sessionOver_plays.holds
  total := sessionOver_plays.total
  regular := regular_sampleInit
  coherent := fun n si hn => by cases List.eq_of_mem_replicate (List.mem_of_getElem? hn)

/-- Marked backwards, the frames 1 to 3 of a movie that plays forwards are a sample. -/
theorem selection_of_five : SelectionMade plentyOfMemory 3 1 1 (playingMovie [1, 2, 3, 4, 5]) [1, 2, 3, 4, 5] := by
  refine (selection_iff playingMovie_marking (by decide) (by decide)).mpr
    (Or.inr ⟨by decide, rfl, by decide, Or.inr (show (1 : ℤ) < sampleMaxSamples by decide)⟩)

/-- While it plays backwards, they are not. -/
theorem no_selection_backwards :
    (∃ s', select plentyOfMemory 3 1 (-1) (playingMovie [1, 2, 3, 4, 5]) = .ok s' ∧ s'.bank = sampleInit) ∧
      ¬ SelectionMade plentyOfMemory 3 1 (-1) (playingMovie [1, 2, 3, 4, 5]) [1, 2, 3, 4, 5] := by
  have hlt : min (3 : Int32).toInt (1 : Int32).toInt < max (3 : Int32).toInt (1 : Int32).toInt := by decide
  have hcopy : veejayEditCopyToNew plentyOfMemory (playingMovie [1, 2, 3, 4, 5]).currentEditList
      (selectedRange (marked 3 1 (-1) (playingMovie [1, 2, 3, 4, 5]))).1
      (selectedRange (marked 3 1 (-1) (playingMovie [1, 2, 3, 4, 5]))).2 = .ok none :=
    copyToNew_reversed (by decide)
  have hrun := (select_eq playingMovie_marking.playing).trans (makeSelection_none playingMovie_marking hlt hcopy)
  refine ⟨⟨_, hrun, rfl⟩, fun hmade => ?_⟩
  obtain ⟨s', hs', -, -, hselected⟩ := hmade
  obtain rfl := Except.ok.inj (hrun.symm.trans hs')
  exact not_selected rfl (hselected (by decide))

end Veejay.Selection
