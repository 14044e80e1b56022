import Veejay.EditList.Model
import Veejay.Sample.Bank

/-!
# The scenes of a movie

With a threshold given, the performer measures every frame of the edit list and makes a sample of every scene
(`libel/vj-el.c`, `libsample/sampleadm.c`).  A scene ends where two frames in a row differ by more than the threshold.

* `sampleNewSimple`, `vjElAutoDetectScenes` — the functions;
* `sceneCuts`, `scenes` — where the scenes end, and the frames of each;
* `vjElAutoDetectScenes_created` — **the samples are the scenes**, each with the first frame of the next one;
* `PartitionsList` — the samples have every frame of the list once;
* `not_partitionsList` — **they never have**: the scene behind the last cut is not made a sample.
-/

namespace Veejay.Scenes

open CLib Veejay.Edl Veejay.Samples

/-- What is set of a sample that plays a part of a list. -/
structure NewSample where
  firstFrame : ℤ
  lastFrame : ℤ
  resumePos : ℤ
  softEdl : Bool
  editList : Option Edl.EditList

/-- `sample_skeleton_new`; the list is cloned later. -/
def newContents : Contents NewSample where
  fresh _ _ startFrame endFrame := ⟨startFrame, endFrame, startFrame, true, none⟩
  stored x := x
  copied x := x

/-- `sample_new_simple` -/
def sampleNewSimple (el : Edl.EditList) (start stop : ℤ) (b : Bank NewSample) : Exec (Bank NewSample) := do
  match ← sampleSkeletonNew newContents start stop b with
  | (none, b) => .ok b
  | (some (sample, _), b) => do
    let b ← updateInfo sample (fun x => { x with editList := some el, softEdl := true }) b
    sampleStore newContents sample b

/-- The variables of the scan. -/
structure Scan where
  lastLm : ℤ
  prev : ℤ
  index : ℤ
  deriving DecidableEq

/-- A cut at frame `n`: the sample of the frames since the one before. -/
def newScene (el : Edl.EditList) (prev n : ℤ) (b : Bank NewSample) : Exec (Bank NewSample) :=
  if prev = 0 then sampleNewSimple el 0 n b else sampleNewSimple el prev n b

/-- The body of the loop, at frame `n`; `lm` are the measured means. -/
def sceneStep (el : Edl.EditList) (lm : ℕ → ℤ) (dlThreshold : ℤ) (s : Scan × Bank NewSample) (n : ℕ) :
    Exec (Scan × Bank NewSample) :=
  let dl := if n = 0 then 0 else |lm n - s.1.lastLm|
  if dl > dlThreshold then do
    let b ← newScene el s.1.prev n s.2
    .ok (⟨lm n, n, s.1.index + 1⟩, b)
  else .ok ({ s.1 with lastLm := lm n }, s.2)

/-- The frames that are measured: the loop ends in front of the last one. -/
def measured (el : Edl.EditList) : ℕ := el.totalFrames.toInt64.toInt.toNat

/-- `vj_el_auto_detect_scenes`: the number of cuts. -/
def vjElAutoDetectScenes (el : Edl.EditList) (lm : ℕ → ℤ) (dlThreshold : ℤ) (b : Bank NewSample) :
    Exec (ℤ × Bank NewSample) :=
  if el.isEmpty ∨ el.totalFrames < 2 then .ok (0, b)
  else do
    let s ← (List.range (measured el)).foldlM (sceneStep el lm dlThreshold) (⟨0, 0, 0⟩, b)
    .ok (s.1.index, s.2)

/-! ## What is said of the samples -/

/-- The frames that a sample plays. -/
def NewSample.frames (x : NewSample) : List ℤ :=
  (List.range (x.lastFrame + 1 - x.firstFrame).toNat).map fun k : ℕ => x.firstFrame + k

/-- The samples that are in `b'` and not yet in `b`, in the order in which they were made. -/
def createdSamples (b b' : Bank NewSample) : List NewSample :=
  (List.range' b.nextAddr (b'.nextAddr - b.nextAddr)).filterMap fun si => (b'.heap si).map Object.info

/-- **The property**: one after the other, the new samples have the frames of the list, each of them once. -/
def PartitionsList (el : Edl.EditList) (b b' : Bank NewSample) : Prop :=
  (createdSamples b b').flatMap NewSample.frames = (List.range (el.totalFrames.toNat + 1)).map fun k : ℕ => (k : ℤ)

/-- The sample of a part of the list. -/
def scene (el : Edl.EditList) (start stop : ℕ) : NewSample := ⟨start, stop, start, true, some el⟩

/-- The frames in front of `n` that differ from the one before them. -/
def sceneCuts (lm : ℕ → ℤ) (dlThreshold : ℤ) (n : ℕ) : List ℕ :=
  (List.range n).filter fun k => k ≠ 0 ∧ |lm k - lm (k - 1)| > dlThreshold

/-- The scenes between the cuts, with the first frame of the next one. -/
def scenes (el : Edl.EditList) : ℕ → List ℕ → List NewSample
  | _, [] => []
  | prev, cut :: cuts => scene el prev cut :: scenes el cut cuts

/-! ## Making a sample -/

section Bank

variable {α : Type} {c : Contents α} {b b' : Bank α}

/-- An id is given out: the samples are as they were. -/
theorem newId_heap {r : ℤ × Bank α} (h : newId b = .ok r) : r.2.heap = b.heap ∧ r.2.nextAddr = b.nextAddr := by
  unfold newId at h
  obtain ⟨found, -, h⟩ := bind_eq_ok.mp h
  cases found with
  | none =>
    obtain rfl := Except.ok.inj h
    exact ⟨rfl, rfl⟩
  | some freed =>
    obtain rfl := Except.ok.inj h
    exact ⟨rfl, rfl⟩

theorem setCache_heap {id : ℤ} {a : Option Addr} (h : setCache id a b = .ok b') :
    b'.heap = b.heap ∧ b'.nextAddr = b.nextAddr := by
  unfold setCache at h
  split_ifs at h
  obtain rfl := Except.ok.inj h
  exact ⟨rfl, rfl⟩

/-- **What `sample_skeleton_new` makes**: nothing, or a sample of these frames. -/
theorem sampleSkeletonNew_cases {startFrame endFrame : ℤ} {r : Option (Addr × ℤ) × Bank α}
    (h : sampleSkeletonNew c startFrame endFrame b = .ok r) :
    (r = (none, b) ∧ endFrame ≤ max startFrame 0) ∨
    (max startFrame 0 < endFrame ∧ ∃ id this, r.1 = some (b.nextAddr, id) ∧ r.2.nextAddr = b.nextAddr + 1 ∧
      r.2.heap = Function.update b.heap b.nextAddr (some ⟨id, c.fresh id this (max startFrame 0) endFrame⟩)) := by
  have hstart : (if startFrame < 0 then 0 else startFrame) = max startFrame 0 := by
    split_ifs <;> omega
  unfold sampleSkeletonNew at h
  rw [hstart] at h
  dsimp only at h
  split_ifs at h with hend
  · obtain rfl := Except.ok.inj h
    exact Or.inl ⟨rfl, hend⟩
  · obtain ⟨⟨id, b₁⟩, hnew, h⟩ := bind_eq_ok.mp h
    obtain ⟨b₂, hset, h⟩ := bind_eq_ok.mp h
    obtain rfl := Except.ok.inj h
    obtain ⟨hheap, hnext⟩ := newId_heap hnew
    obtain ⟨hheap₂, hnext₂⟩ := setCache_heap hset
    dsimp only at hheap hnext
    refine Or.inr ⟨not_le.mp hend, id, b₁.thisSampleId, ?_, ?_, ?_⟩
    · rw [← hnext]
      rfl
    · rw [← hnext]
      exact hnext₂
    · rw [← hheap, ← hnext]
      exact hheap₂

theorem sampleGet_heap {id : ℤ} {r : Option Addr × Bank α} (h : sampleGet id b = .ok r) :
    r.2.heap = b.heap ∧ r.2.nextAddr = b.nextAddr := by
  unfold sampleGet at h
  split_ifs at h
  · obtain rfl := Except.ok.inj h
    exact ⟨rfl, rfl⟩
  · split at h
    · cases h
    · obtain rfl := Except.ok.inj h
      exact ⟨rfl, rfl⟩
    · split at h
      · obtain rfl := Except.ok.inj h
        exact ⟨rfl, rfl⟩
      · obtain ⟨b₁, hset, h⟩ := bind_eq_ok.mp h
        obtain rfl := Except.ok.inj h
        exact setCache_heap hset

theorem sampleExists_heap {id : ℤ} {r : Bool × Bank α} (h : sampleExists id b = .ok r) :
    r.2.heap = b.heap ∧ r.2.nextAddr = b.nextAddr := by
  unfold sampleExists at h
  split_ifs at h
  · obtain rfl := Except.ok.inj h
    exact ⟨rfl, rfl⟩
  · split at h
    · obtain rfl := Except.ok.inj h
      exact ⟨rfl, rfl⟩
    · obtain ⟨got, hget, h⟩ := bind_eq_ok.mp h
      obtain rfl := Except.ok.inj h
      exact sampleGet_heap hget

/-- **`sample_store`** writes to the sample that it is given. -/
theorem sampleStore_heap {skel : Addr} (h : sampleStore c skel b = .ok b') :
    ∃ o, b.heap skel = some o ∧ b'.nextAddr = b.nextAddr ∧
      b'.heap = Function.update b.heap skel (some ⟨o.sampleId, c.stored o.info⟩) := by
  unfold sampleStore at h
  obtain ⟨o, hderef, h⟩ := bind_eq_ok.mp h
  obtain ⟨⟨there, b₁⟩, hexists, h⟩ := bind_eq_ok.mp h
  obtain ⟨hheap, hnext⟩ := sampleExists_heap hexists
  have ho : b.heap skel = some o := by
    unfold deref at hderef
    split at hderef
    · cases hderef
    · rename_i o' ho'
      obtain rfl := Except.ok.inj hderef
      exact ho'
  refine ⟨o, ho, ?_⟩
  dsimp only at h
  split_ifs at h
  · obtain rfl := Except.ok.inj h
    exact ⟨hnext, hheap⟩
  · obtain rfl := Except.ok.inj h
    exact ⟨hnext, hheap⟩

end Bank

section Scenes

variable {el : Edl.EditList} {lm : ℕ → ℤ} {dlThreshold : ℤ} {b b' b₀ : Bank NewSample}

/-- The bank with one more sample. -/
structure Added (b : Bank NewSample) (x : NewSample) (b' : Bank NewSample) : Prop where
  next : b'.nextAddr = b.nextAddr + 1
  heap : ∃ id, b'.heap = Function.update b.heap b.nextAddr (some ⟨id, x⟩)

/-- **`sample_new_simple`** makes a sample of the frames, if there are two of them. -/
theorem sampleNewSimple_cases {start stop : ℤ} (h : sampleNewSimple el start stop b = .ok b') :
    (b' = b ∧ stop ≤ max start 0) ∨
    (max start 0 < stop ∧ Added b ⟨max start 0, stop, max start 0, true, some el⟩ b') := by
  unfold sampleNewSimple at h
  obtain ⟨⟨new, b₁⟩, hskel, hrest⟩ := bind_eq_ok.mp h
  rcases sampleSkeletonNew_cases hskel with ⟨hnone, hrange⟩ | ⟨hrange, id, this, hnew, hnext, hheap⟩
  · obtain ⟨rfl, rfl⟩ := Prod.mk.inj hnone
    obtain rfl := Except.ok.inj hrest
    exact Or.inl ⟨rfl, hrange⟩
  · dsimp only at hnew hnext hheap
    subst hnew
    obtain ⟨b₂, hset, hstore⟩ := bind_eq_ok.mp hrest
    have hcell : b₁.heap b.nextAddr = some ⟨id, newContents.fresh id this (max start 0) stop⟩ := by
      rw [hheap, Function.update_self]
    rw [updateInfo, deref, hcell] at hset
    dsimp only at hset
    rw [ok_bind] at hset
    obtain rfl := Except.ok.inj hset
    obtain ⟨o, ho, hnext', hheap'⟩ := sampleStore_heap hstore
    dsimp only at ho hnext' hheap'
    rw [Function.update_self] at ho
    obtain rfl := Option.some.inj ho
    refine Or.inr ⟨hrange, hnext'.trans hnext, id, ?_⟩
    rw [hheap', hheap, Function.update_idem, Function.update_idem]
    rfl

/-- The first scene is made as the other ones are. -/
theorem newScene_eq (el : Edl.EditList) (prev n : ℤ) (b : Bank NewSample) :
    newScene el prev n b = sampleNewSimple el prev n b := by
  rw [newScene]
  split_ifs with hprev
  · rw [hprev]
  · rfl

/-- The samples made so far, with one more. -/
theorem createdSamples_added {x : NewSample} (hnext : b₀.nextAddr ≤ b.nextAddr) (h : Added b x b') :
    createdSamples b₀ b' = createdSamples b₀ b ++ [x] := by
  obtain ⟨id, hheap⟩ := h.heap
  have hlast : b₀.nextAddr + (b.nextAddr - b₀.nextAddr) = b.nextAddr := Nat.add_sub_of_le hnext
  rw [createdSamples, h.next, Nat.succ_sub hnext, List.range'_1_concat, List.filterMap_append, hlast, createdSamples]
  congr 1
  · refine List.filterMap_congr fun si hsi => ?_
    have hlt := (List.mem_range'_1.mp hsi).2
    rw [hlast] at hlt
    rw [hheap, Function.update_of_ne (Nat.ne_of_lt hlt)]
  · rw [List.filterMap_cons, hheap, Function.update_self]
    rfl

theorem createdSamples_self : createdSamples b b = [] := by
  rw [createdSamples, Nat.sub_self]
  rfl

/-! ## The scan -/

theorem scenes_concat (cut : ℕ) (cuts : List ℕ) (prev : ℕ) :
    scenes el prev (cuts ++ [cut]) = scenes el prev cuts ++ [scene el (cuts.getLast?.getD prev) cut] := by
  induction cuts generalizing prev with
  | nil => rfl
  | cons first rest ih =>
    rw [List.cons_append, scenes, scenes, ih, List.getLast?_cons, Option.getD_some]
    rfl

theorem sceneCuts_succ (n : ℕ) :
    sceneCuts lm dlThreshold (n + 1) =
      if n ≠ 0 ∧ |lm n - lm (n - 1)| > dlThreshold then sceneCuts lm dlThreshold n ++ [n]
      else sceneCuts lm dlThreshold n := by
  rw [sceneCuts, List.range_succ, List.filter_append, List.filter_singleton, sceneCuts]
  by_cases hcut : n ≠ 0 ∧ |lm n - lm (n - 1)| > dlThreshold
  · rw [decide_eq_true hcut, if_pos hcut]
    rfl
  · rw [decide_eq_false hcut, if_neg hcut]
    exact List.append_nil _

theorem mem_sceneCuts {n cut : ℕ} (h : cut ∈ sceneCuts lm dlThreshold n) : cut < n :=
  List.mem_range.mp (List.mem_filter.mp h).1

/-- The last cut, or the beginning of the list. -/
theorem lastCut_lt {n : ℕ} (hn : n ≠ 0) : (sceneCuts lm dlThreshold n).getLast?.getD 0 < n := by
  cases hlast : (sceneCuts lm dlThreshold n).getLast? with
  | none => exact Nat.pos_of_ne_zero hn
  | some cut => exact mem_sceneCuts (List.mem_of_getLast? hlast)

/-- The scan in front of frame `n`. -/
structure Scanned (el : Edl.EditList) (lm : ℕ → ℤ) (dlThreshold : ℤ) (b : Bank NewSample) (n : ℕ)
    (s : Scan × Bank NewSample) : Prop where
  lastLm : n ≠ 0 → s.1.lastLm = lm (n - 1)
  prev : s.1.prev = ((sceneCuts lm dlThreshold n).getLast?.getD 0 : ℕ)
  next : b.nextAddr ≤ s.2.nextAddr
  samples : createdSamples b s.2 = scenes el 0 (sceneCuts lm dlThreshold n)

/-- **One frame is measured.** -/
theorem Scanned.step {n : ℕ} {s s' : Scan × Bank NewSample} (hs : Scanned el lm dlThreshold b n s)
    (h : sceneStep el lm dlThreshold s n = .ok s') : Scanned el lm dlThreshold b (n + 1) s' := by
  unfold sceneStep at h
  rw [newScene_eq, hs.prev] at h
  dsimp only at h
  by_cases hn : n = 0
  · -- nothing is in front of the first frame: a sample of it alone is not made
    subst hn
    have hsamples : createdSamples b s.2 = [] := hs.samples
    rw [if_pos rfl] at h
    split_ifs at h with hdl
    · obtain ⟨b₁, hnew, hrest⟩ := bind_eq_ok.mp h
      obtain rfl := Except.ok.inj hrest
      rcases sampleNewSimple_cases hnew with ⟨rfl, -⟩ | ⟨hrange, -⟩
      · exact ⟨fun _ => rfl, rfl, hs.next, hsamples⟩
      · exact absurd hrange (lt_irrefl _)
    · obtain rfl := Except.ok.inj h
      exact ⟨fun _ => rfl, hs.prev, hs.next, hsamples⟩
  · have hcut := @sceneCuts_succ lm dlThreshold n
    rw [if_neg hn, hs.lastLm hn] at h
    split_ifs at h with hdl
    · rw [if_pos ⟨hn, hdl⟩] at hcut
      obtain ⟨b₁, hnew, hrest⟩ := bind_eq_ok.mp h
      obtain rfl := Except.ok.inj hrest
      have hprev := @lastCut_lt lm dlThreshold n hn
      have hmax : max (((sceneCuts lm dlThreshold n).getLast?.getD 0 : ℕ) : ℤ) 0 =
          ((sceneCuts lm dlThreshold n).getLast?.getD 0 : ℕ) := max_eq_left (Int.natCast_nonneg _)
      rcases sampleNewSimple_cases hnew with ⟨-, hrange⟩ | ⟨-, hadded⟩
      · rw [hmax] at hrange
        omega
      · rw [hmax] at hadded
        refine ⟨fun _ => rfl, ?_, ?_, ?_⟩
        · rw [hcut, List.getLast?_concat]
          rfl
        · show b.nextAddr ≤ b₁.nextAddr
          rw [hadded.next]
          exact Nat.le_succ_of_le hs.next
        · rw [hcut, scenes_concat, createdSamples_added hs.next hadded, hs.samples]
          rfl
    · rw [if_neg fun hor => hdl hor.2] at hcut
      obtain rfl := Except.ok.inj h
      exact ⟨fun _ => rfl, by rw [hcut]; exact hs.prev, hs.next, by rw [hcut]; exact hs.samples⟩

/-- **All measured frames.** -/
theorem scanned_of_run : ∀ (n : ℕ) (s : Scan × Bank NewSample),
    (List.range n).foldlM (sceneStep el lm dlThreshold) (⟨0, 0, 0⟩, b) = .ok s → Scanned el lm dlThreshold b n s := by
  intro n
  induction n with
  | zero =>
    intro s h
    obtain rfl := Except.ok.inj h
    exact ⟨fun h => absurd rfl h, rfl, le_rfl, createdSamples_self⟩
  | succ n ih =>
    intro s h
    rw [List.range_succ, List.foldlM_append] at h
    obtain ⟨s₁, hrun, hstep⟩ := bind_eq_ok.mp h
    rw [List.foldlM_cons] at hstep
    obtain ⟨s₂, hbody, hend⟩ := bind_eq_ok.mp hstep
    obtain rfl := Except.ok.inj hend
    exact (ih s₁ hrun).step hbody

/-- The samples of a list: none of a short one. -/
def listScenes (el : Edl.EditList) (lm : ℕ → ℤ) (dlThreshold : ℤ) : List NewSample :=
  if el.isEmpty ∨ el.totalFrames < 2 then [] else scenes el 0 (sceneCuts lm dlThreshold (measured el))

/-- **The samples that are made are the scenes.** -/
theorem vjElAutoDetectScenes_created {r : ℤ × Bank NewSample} (h : vjElAutoDetectScenes el lm dlThreshold b = .ok r) :
    createdSamples b r.2 = listScenes el lm dlThreshold := by
  unfold vjElAutoDetectScenes at h
  rw [listScenes]
  split_ifs at h ⊢ with hshort
  · obtain rfl := Except.ok.inj h
    exact createdSamples_self
  · obtain ⟨s, hrun, hend⟩ := bind_eq_ok.mp h
    obtain rfl := Except.ok.inj hend
    exact (scanned_of_run _ s hrun).samples

/-! ## What the scenes leave out -/

theorem mem_scenes {x : NewSample} {cuts : List ℕ} {prev : ℕ} (h : x ∈ scenes el prev cuts) :
    ∃ cut ∈ cuts, x.lastFrame = cut := by
  induction cuts generalizing prev with
  | nil => cases h
  | cons cut cuts ih =>
    rcases List.mem_cons.mp h with rfl | hrest
    · exact ⟨cut, List.mem_cons_self, rfl⟩
    · obtain ⟨last, hlast, hx⟩ := ih hrest
      exact ⟨last, List.mem_cons_of_mem _ hlast, hx⟩

theorem le_lastFrame {x : NewSample} {k : ℤ} (h : k ∈ x.frames) : k ≤ x.lastFrame := by
  obtain ⟨i, hi, rfl⟩ := List.mem_map.mp h
  have hlt := List.mem_range.mp hi
  omega

/-- The last frame of the list is not measured. -/
theorem measured_le (el : Edl.EditList) : measured el ≤ el.totalFrames.toNat := by
  rw [measured]
  by_cases hlt : el.totalFrames.toNat < 2 ^ 63
  · rw [uint64_toInt64_toInt_of_lt hlt, Int.toNat_natCast]
  · have hmax := el.totalFrames.toInt64.toInt_lt
    omega

/-- The last frame of the list is in no scene. -/
theorem lastFrame_uncovered : (el.totalFrames.toNat : ℤ) ∉ (listScenes el lm dlThreshold).flatMap NewSample.frames := by
  intro hmem
  obtain ⟨x, hx, hframe⟩ := List.mem_flatMap.mp hmem
  rw [listScenes] at hx
  split_ifs at hx with hshort
  · cases hx
  · obtain ⟨cut, hcut, hlast⟩ := mem_scenes hx
    have hle := le_lastFrame hframe
    have hlt := mem_sceneCuts hcut
    have hmeasured := measured_le el
    omega

/-- **The samples never have every frame of the list once.** -/
theorem not_partitionsList (el : Edl.EditList) (lm : ℕ → ℤ) (dlThreshold : ℤ) (b : Bank NewSample) :
    ¬ Ensures (vjElAutoDetectScenes el lm dlThreshold b) fun r => PartitionsList el b r.2 := by
  rintro ⟨r, hrun, hframes⟩
  rw [PartitionsList, vjElAutoDetectScenes_created hrun] at hframes
  refine @lastFrame_uncovered el lm dlThreshold ?_
  rw [hframes]
  exact List.mem_map.mpr ⟨_, List.mem_range.mpr (Nat.lt_succ_self _), rfl⟩

/-- Four frames, with a flash in the second one: it is in both samples, and the last frame is in none. -/
theorem scenes_of_a_flash :
    Ensures (vjElAutoDetectScenes { callocEditList with totalFrames := 3 } (fun n => if n = 1 then 200 else 10) 50
      sampleInit) fun r =>
        (createdSamples sampleInit r.2).flatMap NewSample.frames = [0, 1, 1, 2] ∧
          ¬ PartitionsList { callocEditList with totalFrames := 3 } sampleInit r.2 := by
  have hreturns : (vjElAutoDetectScenes { callocEditList with totalFrames := 3 } (fun n => if n = 1 then 200 else 10) 50
      sampleInit).isOk = true := by decide +kernel
  cases hrun : vjElAutoDetectScenes { callocEditList with totalFrames := 3 } (fun n => if n = 1 then 200 else 10) 50
      sampleInit with
  | error f =>
    rw [hrun] at hreturns
    cases hreturns
  | ok r =>
    rw [ensures_ok, PartitionsList, vjElAutoDetectScenes_created hrun]
    exact ⟨by decide, by decide⟩

end Scenes

end Veejay.Scenes
