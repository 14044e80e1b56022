import Veejay.EditList.FrameCache

/-!
# What the caches of edit lists account for

`libel/elcache.c` keeps one counter of bytes for all caches, and each cache has a table of the frames in its slots.

* `World`, `step` — the caches that have been initialised, and the operations on them;
* `Accounted` — one slot for each frame, hits give what was cached last, the counter is the sum of the slots;
* `Right` — the condition on one operation;
* `Holds` — the invariant;
* `accounted_iff` — **a run accounts for its caches exactly if its operations meet the condition**;
* `not_accounted_of_free` — `free_cache` gives nothing back.
-/

namespace Veejay.CacheAccounting

open CLib Veejay.FrameCache

/-! ## The caches -/

/-- The caches by their handles, `none` for one that is freed, and `total_mem_used_`. -/
structure World where
  caches : List (Option Cache)
  totalMemUsed : ℤ

/-- The start of the program. -/
def World.start : World := ⟨[], 0⟩

/-- What one slot holds. -/
def slotBytes : Option Slot → ℤ
  | none => 0
  | some slot => slot.size

def cacheBytes (v : Cache) : ℤ := (v.map slotBytes).sum

/-- The sizes of all live slots of all live caches. -/
def World.liveBytes (w : World) : ℤ := (w.caches.map fun v => (v.map cacheBytes).getD 0).sum

/-- `slot_num` of `cache_frame` -/
def slotNum (v : Cache) (frameNum : ℤ) : ℕ := (cacheFreeSlot v).getD (cacheFindSlot v frameNum)

/-- What `cache_claim_slot` takes off the counter: a slot whose number is negative is replaced as if it were empty. -/
def claimedBytes (v : Cache) (frameNum : ℤ) : ℤ :=
  if 0 ≤ indexOf (v[slotNum v frameNum]?).join then slotBytes (v[slotNum v frameNum]?).join else 0

inductive Op where
  | initCache (nSlots : UInt32)
  | cacheFrame (cache : ℕ) (linbuf : List UInt8) (buflen frameNum format : ℤ)
  | getCachedFrame (cache : ℕ) (frameNum : ℤ)
  | resetCache (cache : ℕ)
  | freeCache (cache : ℕ)

inductive Answer where
  | done
  | handle (cache : Option ℕ)
  | frame (slot : Option Slot)

/-- The cache behind a handle. -/
def World.deref (w : World) (cache : ℕ) : Exec Cache :=
  match (w.caches[cache]?).join with
  | none => .error .useAfterFree
  | some v => .ok v

/-- The functions of `libel/elcache.c` -/
def step (w : World) : Op → Exec (Answer × World)
  | .initCache nSlots =>
    -- `v->len` is an `int`: where it is negative, the allocation of the slots fails.
    if nSlots = 0 ∨ 2 ^ 31 ≤ nSlots.toNat then .ok (.handle none, w)
    else .ok (.handle (some w.caches.length), { w with caches := w.caches ++ [some (initCache nSlots.toNat)] })
  | .cacheFrame cache linbuf buflen frameNum format =>
    if buflen ≤ 0 then .ok (.done, w)
    else do
      let v ← w.deref cache
      if linbuf.length < buflen then .error .outOfBounds
      else .ok (.done,
        { caches := w.caches.set cache (some (FrameCache.cacheFrame v linbuf buflen frameNum format))
          totalMemUsed := w.totalMemUsed - claimedBytes v frameNum + buflen })
  | .getCachedFrame cache frameNum => do
    let v ← w.deref cache
    match cacheLocateSlot v frameNum with
    | none => .ok (.frame none, w)
    | some i =>
      match (v[i]?).join with
      | none => .error .nullPointer
      | some slot => .ok (.frame (some slot), w)
  | .resetCache cache => do
    let v ← w.deref cache
    .ok (.done,
      { caches := w.caches.set cache (some (initCache v.length)), totalMemUsed := w.totalMemUsed - cacheBytes v })
  | .freeCache cache => do
    let _ ← w.deref cache
    .ok (.done, { w with caches := w.caches.set cache none })

/-! ## What is accounted for -/

/-- The frames of each cache, as they were cached last. -/
abbrev Cached := ℕ → ℤ → Option Slot

/-- What an operation adds to the history. -/
def note (last : Cached) : Op → Cached
  | .cacheFrame cache linbuf buflen frameNum format => fun cache' frameNum' =>
    if 0 < buflen ∧ cache' = cache ∧ frameNum' = frameNum then
      some ⟨frameNum, format, buflen, linbuf.take buflen.toNat⟩
    else last cache' frameNum'
  | _ => last

/-- The data of every frame as the operations of a run cached it last. -/
def lastCached (ops : List Op) : Cached := ops.foldl note fun _ _ => none

/-- The cache `v` is live, behind the handle `cache`. -/
def World.Live (w : World) (cache : ℕ) (v : Cache) : Prop := w.caches[cache]? = some (some v)

/-- The slot `i` holds a frame. -/
def Occupied (v : Cache) (i : ℕ) (slot : Slot) : Prop := v[i]? = some (some slot)

/-- No frame number occupies two slots. -/
def Once (v : Cache) : Prop := ∀ i j a b, Occupied v i a → Occupied v j b → a.num = b.num → i = j

/-- **What the caches account for.** -/
structure Accounted (w : World) (last : Cached) : Prop where
  once : ∀ cache v, w.Live cache v → Once v
  hits : ∀ cache v frameNum i slot, w.Live cache v → FrameCache.getCachedFrame v frameNum = some (i, slot) →
    last cache frameNum = some slot
  total : w.totalMemUsed = w.liveBytes

/-- **The condition on one operation.**  A frame is not cached while another slot than the claimed one holds it, nor
in the place of a frame with a negative number; a hit is not on an empty slot, as it can be for the frame -1; and a
cache is freed when its slots are empty.  Besides, handles are those of live caches, and there are as many bytes as
the caller says. -/
def Right (w : World) : Op → Prop
  | .initCache _ => True
  | .cacheFrame cache linbuf buflen frameNum _ => 0 < buflen → buflen ≤ linbuf.length ∧ ∃ v, w.Live cache v ∧
      (∀ i slot, Occupied v i slot → slot.num = frameNum → i = slotNum v frameNum) ∧
      ∀ slot, Occupied v (slotNum v frameNum) slot → 0 ≤ slot.num
  | .getCachedFrame cache frameNum => ∃ v, w.Live cache v ∧
      ∀ i, cacheLocateSlot v frameNum = some i → ∃ slot, Occupied v i slot
  | .resetCache cache => ∃ v, w.Live cache v
  | .freeCache cache => ∃ v, w.Live cache v ∧ ∀ i slot, ¬ Occupied v i slot

/-- One cache: every slot holds what was cached last for its frame, and is not empty. -/
structure Filled (v : Cache) (last : ℤ → Option Slot) : Prop where
  once : Once v
  kept : ∀ i slot, Occupied v i slot → last slot.num = some slot
  size : ∀ i slot, Occupied v i slot → 0 < slot.size
  room : v ≠ []

/-- **The invariant.** -/
structure Holds (w : World) (last : Cached) : Prop where
  filled : ∀ cache v, w.Live cache v → Filled v (last cache)
  total : w.totalMemUsed = w.liveBytes

/-! ## One cache -/

/-- A sum after one entry is replaced. -/
theorem sum_map_set {α : Type} (f : α → ℤ) {l : List α} {i : ℕ} {b : α} (h : l[i]? = some b) (a : α) :
    ((l.set i a).map f).sum = (l.map f).sum - f b + f a := by
  obtain ⟨hi, rfl⟩ := List.getElem?_eq_some_iff.mp h
  rw [List.map_set, List.sum_set', dif_pos (by simpa using hi), List.getElem_map]
  omega

theorem cacheBytes_initCache (n : ℕ) : cacheBytes (initCache n) = 0 := by
  simp [cacheBytes, initCache, slotBytes]

theorem findSlotLoop_lt (frameNum : ℤ) {len : ℕ} :
    ∀ (slots : Cache) (i k : ℕ) (n : ℤ), i + slots.length = len → k < len →
      findSlotLoop frameNum i k n slots < len := by
  intro slots
  induction slots with
  | nil => exact fun i k n _ hk => hk
  | cons slot slots ih =>
    intro i k n hlen hk
    rw [List.length_cons] at hlen
    rw [findSlotLoop]
    by_cases hn : n < absInt (indexOf slot - frameNum)
    · simp only [if_pos hn]
      exact ih (i + 1) i _ (by omega) (by omega)
    · simp only [if_neg hn]
      exact ih (i + 1) k n (by omega) hk

theorem slotNum_lt {v : Cache} (hv : v ≠ []) (frameNum : ℤ) : slotNum v frameNum < v.length := by
  have hpos : 0 < v.length := List.length_pos_iff.mpr hv
  rw [slotNum]
  cases hfree : cacheFreeSlot v with
  | none => exact findSlotLoop_lt frameNum v 0 0 0 (Nat.zero_add _) hpos
  | some i => exact (List.findIdx?_eq_some_iff_getElem.mp hfree).1

theorem cacheFrame_eq (v : Cache) (linbuf : List UInt8) {buflen : ℤ} (h : 0 < buflen) (frameNum format : ℤ) :
    FrameCache.cacheFrame v linbuf buflen frameNum format =
      v.set (slotNum v frameNum) (some ⟨frameNum, format, buflen, linbuf.take buflen.toNat⟩) := by
  rw [FrameCache.cacheFrame, if_neg (by omega)]
  rfl

/-- The slots of a cache after one of them is claimed. -/
theorem occupied_set {v : Cache} {k i : ℕ} {new slot : Slot} (h : Occupied (v.set k (some new)) i slot) :
    i = k ∧ slot = new ∨ i ≠ k ∧ Occupied v i slot := by
  rw [Occupied, List.getElem?_set] at h
  by_cases hik : k = i
  · rw [if_pos hik] at h
    by_cases hk : k < v.length
    · rw [if_pos hk] at h
      exact Or.inl ⟨hik.symm, (Option.some.inj (Option.some.inj h)).symm⟩
    · rw [if_neg hk] at h
      cases h
  · rw [if_neg hik] at h
    exact Or.inr ⟨fun h' => hik h'.symm, h⟩

theorem not_occupied_initCache {n i : ℕ} {slot : Slot} : ¬ Occupied (initCache n) i slot := by
  intro h
  have hmem := List.mem_of_getElem? h
  rw [initCache, List.mem_replicate] at hmem
  cases hmem.2

theorem cacheBytes_pos {v : Cache} (hsize : ∀ i slot, Occupied v i slot → 0 < slot.size) {i : ℕ} {slot : Slot}
    (h : Occupied v i slot) : 0 < cacheBytes v := by
  have hnonneg : ∀ x ∈ v.map slotBytes, 0 ≤ x := by
    intro x hx
    obtain ⟨y, hy, rfl⟩ := List.mem_map.mp hx
    obtain ⟨j, hj⟩ := List.mem_iff_getElem?.mp hy
    cases y with
    | none => exact le_rfl
    | some slot => exact (hsize j slot hj).le
  have hle := List.single_le_sum hnonneg slot.size (List.mem_map.mpr ⟨some slot, List.mem_of_getElem? h, rfl⟩)
  exact lt_of_lt_of_le (hsize i slot h) hle

theorem cacheBytes_empty {v : Cache} (h : ∀ i slot, ¬ Occupied v i slot) : cacheBytes v = 0 := by
  have hall : ∀ x ∈ v.map slotBytes, x = 0 := by
    intro x hx
    obtain ⟨y, hy, rfl⟩ := List.mem_map.mp hx
    obtain ⟨j, hj⟩ := List.mem_iff_getElem?.mp hy
    cases y with
    | none => rfl
    | some slot => exact absurd hj (h j slot)
  exact List.sum_eq_zero hall

/-- What claiming a slot changes of the bytes of a cache. -/
theorem cacheBytes_set {v : Cache} (hv : v ≠ []) (frameNum : ℤ) (new : Slot) :
    cacheBytes (v.set (slotNum v frameNum) (some new)) =
      cacheBytes v - slotBytes (v[slotNum v frameNum]?).join + new.size := by
  have hlt := slotNum_lt hv frameNum
  have hget := List.getElem?_eq_getElem hlt
  rw [cacheBytes, sum_map_set slotBytes hget, hget]
  rfl

/-! ## All caches -/

section Caches

variable {w : World} {cache : ℕ} {v : Cache}

theorem deref_of_live (h : w.Live cache v) : w.deref cache = .ok v := by
  rw [World.Live] at h
  rw [World.deref, h]
  rfl

theorem live_of_deref (h : w.deref cache = .ok v) : w.Live cache v := by
  rw [World.deref] at h
  cases hv : (w.caches[cache]?).join with
  | none =>
    rw [hv] at h
    cases h
  | some v' =>
    rw [hv] at h
    cases h
    exact Option.join_eq_some_iff.mp hv

/-- The live caches after one of them is replaced. -/
theorem live_set {total : ℤ} {x : Option Cache} {cache' : ℕ} {v' : Cache}
    (h : World.Live ⟨w.caches.set cache x, total⟩ cache' v') :
    cache' = cache ∧ x = some v' ∨ cache' ≠ cache ∧ w.Live cache' v' := by
  rw [World.Live, List.getElem?_set] at h
  by_cases hc : cache = cache'
  · rw [if_pos hc] at h
    by_cases hlt : cache < w.caches.length
    · rw [if_pos hlt] at h
      exact Or.inl ⟨hc.symm, Option.some.inj h⟩
    · rw [if_neg hlt] at h
      cases h
  · rw [if_neg hc] at h
    exact Or.inr ⟨fun h' => hc h'.symm, h⟩

theorem live_replaced (h : w.Live cache v) (total : ℤ) (v' : Cache) :
    World.Live ⟨w.caches.set cache (some v'), total⟩ cache v' := by
  obtain ⟨hlt, -⟩ := List.getElem?_eq_some_iff.mp h
  rw [World.Live, List.getElem?_set, if_pos rfl, if_pos hlt]

theorem liveBytes_set (h : w.Live cache v) (total : ℤ) (x : Option Cache) :
    World.liveBytes ⟨w.caches.set cache x, total⟩ = w.liveBytes - cacheBytes v + (x.map cacheBytes).getD 0 :=
  sum_map_set (fun v : Option Cache => (v.map cacheBytes).getD 0) h x

/-- A handle that is not the replaced one keeps its cache, and the replaced one has the new cache. -/
theorem Holds.replace {last last' : Cached} (h : Holds w last) (hlive : w.Live cache v) {x : Option Cache}
    (hx : ∀ v', x = some v' → Filled v' (last' cache))
    (hlast : ∀ cache' frameNum, cache' ≠ cache → last' cache' frameNum = last cache' frameNum) {total : ℤ}
    (htotal : total = w.liveBytes - cacheBytes v + (x.map cacheBytes).getD 0) :
    Holds ⟨w.caches.set cache x, total⟩ last' where
  filled := by
    intro cache' v' hlive'
    rcases live_set hlive' with ⟨rfl, hv'⟩ | ⟨hne, hlive'⟩
    · exact hx v' hv'
    · have hsame : last' cache' = last cache' := funext fun frameNum => hlast cache' frameNum hne
      rw [hsame]
      exact h.filled cache' v' hlive'
  total := by rw [liveBytes_set hlive, ← htotal]

end Caches

/-! ## One operation -/

theorem filled_initCache {n : ℕ} (hn : n ≠ 0) (last : ℤ → Option Slot) : Filled (initCache n) last where
  once := fun _ _ _ _ h => absurd h not_occupied_initCache
  kept := fun _ _ h => absurd h not_occupied_initCache
  size := fun _ _ h => absurd h not_occupied_initCache
  room := fun h => hn (List.replicate_eq_nil_iff none |>.mp h)

/-- Claiming a slot, where no other slot holds the frame. -/
theorem Filled.claim {v : Cache} {last : ℤ → Option Slot} (h : Filled v last) {new : Slot} (hsize : 0 < new.size)
    (hother : ∀ i slot, Occupied v i slot → slot.num = new.num → i = slotNum v new.num) :
    Filled (v.set (slotNum v new.num) (some new)) fun frameNum =>
      if frameNum = new.num then some new else last frameNum where
  once := by
    intro i j a b ha hb hab
    rcases occupied_set ha with ⟨rfl, rfl⟩ | ⟨-, ha'⟩ <;> rcases occupied_set hb with ⟨rfl, rfl⟩ | ⟨-, hb'⟩
    · rfl
    · exact (hother j b hb' hab.symm).symm
    · exact hother i a ha' hab
    · exact h.once i j a b ha' hb' hab
  kept := by
    intro i slot hslot
    rcases occupied_set hslot with ⟨-, rfl⟩ | ⟨hi, hslot⟩
    · exact if_pos rfl
    · rw [if_neg fun hnum => hi (hother i slot hslot hnum)]
      exact h.kept i slot hslot
  size := by
    intro i slot hslot
    rcases occupied_set hslot with ⟨-, rfl⟩ | ⟨-, hslot⟩
    · exact hsize
    · exact h.size i slot hslot
  room := by
    rw [Ne, List.set_eq_nil_iff]
    exact h.room

/-- What `cache_claim_slot` takes off the counter is what the slot held, unless its number is negative. -/
theorem claimedBytes_eq_iff {v : Cache} {last : ℤ → Option Slot} (h : Filled v last) (frameNum : ℤ) :
    claimedBytes v frameNum = slotBytes (v[slotNum v frameNum]?).join ↔
      ∀ slot, Occupied v (slotNum v frameNum) slot → 0 ≤ slot.num := by
  obtain ⟨held, hget⟩ : ∃ held, v[slotNum v frameNum]? = some held :=
    ⟨_, List.getElem?_eq_getElem (slotNum_lt h.room frameNum)⟩
  rw [claimedBytes, hget, Option.join_some]
  cases held with
  | none =>
    refine iff_of_true (by simp [slotBytes]) fun slot hocc => ?_
    rw [Occupied, hget] at hocc
    cases hocc
  | some held =>
    have hsize := h.size _ held hget
    by_cases hnum : 0 ≤ held.num
    · refine iff_of_true (if_pos hnum) fun slot hocc => ?_
      rw [Occupied, hget] at hocc
      cases hocc
      exact hnum
    · refine iff_of_false ?_ fun hall => hnum (hall held hget)
      rw [indexOf, if_neg hnum]
      exact hsize.ne

theorem holds_start : Holds World.start fun _ _ => none where
  filled := fun cache v h => by cases h
  total := rfl

theorem Holds.accounted {w : World} {last : Cached} (h : Holds w last) : Accounted w last where
  once := fun cache v hlive => (h.filled cache v hlive).once
  hits := by
    intro cache v frameNum i slot hlive hhit
    obtain ⟨hslot, rfl⟩ := getCachedFrame_eq hhit
    exact (h.filled cache v hlive).kept i slot hslot
  total := h.total

section Steps

variable {w : World} {last : Cached} {cache : ℕ} {v : Cache} {linbuf : List UInt8} {buflen frameNum format : ℤ}

/-- The slot that `cache_claim_slot` makes. -/
def newSlot (linbuf : List UInt8) (buflen frameNum format : ℤ) : Slot :=
  ⟨frameNum, format, buflen, linbuf.take buflen.toNat⟩

theorem step_cacheFrame (hlive : w.Live cache v) (hpos : 0 < buflen) (hlen : buflen ≤ linbuf.length) :
    step w (.cacheFrame cache linbuf buflen frameNum format) = .ok (.done,
      ⟨w.caches.set cache (some (v.set (slotNum v frameNum) (some (newSlot linbuf buflen frameNum format)))),
        w.totalMemUsed - claimedBytes v frameNum + buflen⟩) := by
  rw [step, if_neg (by omega), deref_of_live hlive, ok_bind, if_neg (by omega), cacheFrame_eq v linbuf hpos]
  rfl

/-- The history of the cache that is written to, and of the others. -/
theorem note_cacheFrame (hpos : 0 < buflen) (cache' : ℕ) (frameNum' : ℤ) :
    note last (.cacheFrame cache linbuf buflen frameNum format) cache' frameNum' =
      if cache' = cache ∧ frameNum' = frameNum then some (newSlot linbuf buflen frameNum format)
      else last cache' frameNum' := by
  simp only [note, hpos, true_and, newSlot]

/-- The counter after a frame is cached, against the bytes of all slots. -/
theorem claimed_total (h : Holds w last) (hlive : w.Live cache v) (frameNum : ℤ) (new : Slot) (total : ℤ) :
    w.totalMemUsed - claimedBytes v frameNum + new.size =
        World.liveBytes ⟨w.caches.set cache (some (v.set (slotNum v frameNum) (some new))), total⟩ ↔
      ∀ slot, Occupied v (slotNum v frameNum) slot → 0 ≤ slot.num := by
  have hfilled := h.filled cache v hlive
  rw [liveBytes_set hlive, Option.map_some, Option.getD_some, cacheBytes_set hfilled.room, h.total,
    ← claimedBytes_eq_iff hfilled]
  omega

theorem cacheFrame_keeps (h : Holds w last) (hright : Right w (.cacheFrame cache linbuf buflen frameNum format)) :
    Ensures (step w (.cacheFrame cache linbuf buflen frameNum format)) fun a =>
      Holds a.2 (note last (.cacheFrame cache linbuf buflen frameNum format)) := by
  by_cases hpos : 0 < buflen
  · obtain ⟨hlen, v, hlive, hother, hnum⟩ := hright hpos
    have hfilled := h.filled cache v hlive
    have htotal := (claimed_total h hlive frameNum (newSlot linbuf buflen frameNum format) 0).mpr hnum
    rw [liveBytes_set hlive] at htotal
    rw [step_cacheFrame hlive hpos hlen, ensures_ok]
    refine h.replace hlive (fun v' hv' => ?_) (fun cache' frameNum' hne => ?_) htotal
    · obtain rfl := Option.some.inj hv'
      have hsame : note last (.cacheFrame cache linbuf buflen frameNum format) cache = fun frameNum' =>
          if frameNum' = frameNum then some (newSlot linbuf buflen frameNum format) else last cache frameNum' := by
        funext frameNum'
        simp only [note_cacheFrame hpos, true_and]
      rw [hsame]
      have hsize : 0 < (newSlot linbuf buflen frameNum format).size := hpos
      exact hfilled.claim hsize hother
    · rw [note_cacheFrame hpos, if_neg fun hsame => hne hsame.1]
  · have hnote : note last (.cacheFrame cache linbuf buflen frameNum format) = last := by
      funext cache' frameNum'
      simp only [note, hpos, false_and, if_false]
    rw [step, if_pos (by omega), ensures_ok, hnote]
    exact h

theorem cacheFrame_needs (h : Holds w last)
    (ha : Ensures (step w (.cacheFrame cache linbuf buflen frameNum format)) fun a =>
      Accounted a.2 (note last (.cacheFrame cache linbuf buflen frameNum format))) :
    Right w (.cacheFrame cache linbuf buflen frameNum format) := by
  intro hpos
  rw [step, if_neg (by omega), ensures_bind] at ha
  obtain ⟨v, hv, hrest⟩ := ha
  have hlive := live_of_deref hv
  by_cases hlen : linbuf.length < buflen
  · rw [if_pos hlen] at hrest
    exact absurd hrest (ensures_error _ _)
  · rw [if_neg hlen, ensures_ok, cacheFrame_eq v linbuf hpos] at hrest
    have hlt := slotNum_lt (h.filled cache v hlive).room frameNum
    have hnum := (claimed_total h hlive frameNum (newSlot linbuf buflen frameNum format) _).mp hrest.total
    refine ⟨by omega, v, hlive, fun i slot hslot hnum => ?_, hnum⟩
    by_contra hne
    refine hne (hrest.once cache _ (live_replaced hlive _ _) i (slotNum v frameNum) slot
      (newSlot linbuf buflen frameNum format) ?_ ?_ hnum)
    · rw [Occupied, List.getElem?_set_ne fun hsame => hne hsame.symm]
      exact hslot
    · exact List.getElem?_set_self hlt

theorem initCache_keeps (h : Holds w last) (nSlots : UInt32) :
    Ensures (step w (.initCache nSlots)) fun a => Holds a.2 last := by
  rw [step]
  by_cases hn : nSlots = 0 ∨ 2 ^ 31 ≤ nSlots.toNat
  · rw [if_pos hn, ensures_ok]
    exact h
  · rw [if_neg hn, ensures_ok]
    have hn0 : nSlots.toNat ≠ 0 := fun hzero => hn (Or.inl (UInt32.toNat_inj.mp hzero))
    refine ⟨fun cache v hlive => ?_, ?_⟩
    · rw [World.Live, List.getElem?_append] at hlive
      by_cases hlt : cache < w.caches.length
      · rw [if_pos hlt] at hlive
        exact h.filled cache v hlive
      · rw [if_neg hlt, List.getElem?_singleton] at hlive
        by_cases hlast : cache - w.caches.length = 0
        · rw [if_pos hlast] at hlive
          obtain rfl := Option.some.inj (Option.some.inj hlive)
          exact filled_initCache hn0 _
        · rw [if_neg hlast] at hlive
          cases hlive
    · have hzero := cacheBytes_initCache nSlots.toNat
      simp only [World.liveBytes, List.map_append, List.sum_append, List.map_cons, List.map_nil, List.sum_singleton,
        Option.map_some, Option.getD_some, hzero, add_zero]
      exact h.total

theorem getCachedFrame_keeps (h : Holds w last) (hright : Right w (.getCachedFrame cache frameNum)) :
    Ensures (step w (.getCachedFrame cache frameNum)) fun a => Holds a.2 last := by
  obtain ⟨v, hlive, hfound⟩ := hright
  rw [step, deref_of_live hlive, ok_bind]
  cases hslot : cacheLocateSlot v frameNum with
  | none => exact (ensures_ok _ _).mpr h
  | some i =>
    obtain ⟨slot, hocc⟩ := hfound i hslot
    rw [Occupied] at hocc
    simp only [hocc, Option.join_some, ensures_ok]
    exact h

theorem getCachedFrame_needs {P : Answer × World → Prop} (ha : Ensures (step w (.getCachedFrame cache frameNum)) P) :
    Right w (.getCachedFrame cache frameNum) := by
  rw [step, ensures_bind] at ha
  obtain ⟨v, hv, hrest⟩ := ha
  refine ⟨v, live_of_deref hv, fun i hi => ?_⟩
  simp only [hi] at hrest
  cases hslot : (v[i]?).join with
  | none =>
    rw [hslot] at hrest
    exact absurd hrest (ensures_error _ _)
  | some slot => exact ⟨slot, Option.join_eq_some_iff.mp hslot⟩

theorem resetCache_keeps (h : Holds w last) (hright : Right w (.resetCache cache)) :
    Ensures (step w (.resetCache cache)) fun a => Holds a.2 last := by
  obtain ⟨v, hlive⟩ := hright
  rw [step, deref_of_live hlive, ok_bind, ensures_ok]
  refine h.replace hlive (fun v' hv' => ?_) (fun _ _ _ => rfl) ?_
  · obtain rfl := Option.some.inj hv'
    exact filled_initCache (fun hzero => (h.filled cache v hlive).room (List.length_eq_zero_iff.mp hzero)) _
  · rw [Option.map_some, Option.getD_some, cacheBytes_initCache, h.total]
    omega

theorem freeCache_keeps (h : Holds w last) (hright : Right w (.freeCache cache)) :
    Ensures (step w (.freeCache cache)) fun a => Holds a.2 last := by
  obtain ⟨v, hlive, hempty⟩ := hright
  rw [step, deref_of_live hlive, ok_bind, ensures_ok]
  refine h.replace hlive (fun v' hv' => ?_) (fun _ _ _ => rfl) ?_
  · cases hv'
  · rw [cacheBytes_empty hempty, h.total, Option.map_none, Option.getD_none]
    omega

theorem freeCache_needs (h : Holds w last)
    (ha : Ensures (step w (.freeCache cache)) fun a => Accounted a.2 last) : Right w (.freeCache cache) := by
  rw [step, ensures_bind] at ha
  obtain ⟨v, hv, hrest⟩ := ha
  have hlive := live_of_deref hv
  refine ⟨v, hlive, fun i slot hslot => ?_⟩
  rw [ensures_ok] at hrest
  have hpos := cacheBytes_pos (h.filled cache v hlive).size hslot
  have htotal : w.totalMemUsed = World.liveBytes ⟨w.caches.set cache none, w.totalMemUsed⟩ := hrest.total
  rw [liveBytes_set hlive, ← h.total, Option.map_none, Option.getD_none] at htotal
  omega

end Steps

/-! ## Runs -/

theorem step_keeps (w : World) (last : Cached) (op : Op) (h : Holds w last) (hright : Right w op) :
    Ensures (step w op) fun a => Holds a.2 (note last op) := by
  cases op with
  | initCache nSlots => exact initCache_keeps h nSlots
  | cacheFrame cache linbuf buflen frameNum format => exact cacheFrame_keeps h hright
  | getCachedFrame cache frameNum => exact getCachedFrame_keeps h hright
  | resetCache cache => exact resetCache_keeps h hright
  | freeCache cache => exact freeCache_keeps h hright

theorem step_needs (w : World) (last : Cached) (op : Op) (h : Holds w last)
    (ha : Ensures (step w op) fun a => Accounted a.2 (note last op)) : Right w op := by
  cases op with
  | initCache nSlots => trivial
  | cacheFrame cache linbuf buflen frameNum format => exact cacheFrame_needs h ha
  | getCachedFrame cache frameNum => exact getCachedFrame_needs ha
  | resetCache cache =>
    rw [step, ensures_bind] at ha
    obtain ⟨v, hv, -⟩ := ha
    exact ⟨v, live_of_deref hv⟩
  | freeCache cache => exact freeCache_needs h ha

/-- **What the caches account for.**  Of every run of the operations: it returns, and in every state it reaches no
frame number occupies two slots, every hit gives the data that were cached last for the frame, and the counter is
the sum of the sizes of all live slots of all live caches, exactly if every operation of the run meets `Right`. -/
theorem accounted_iff (ops : List Op) :
    (∀ pre, pre <+: ops → Ensures (runOps step World.start pre) fun a => Accounted a.2 (lastCached pre)) ↔
      RunMeets step Right World.start ops :=
  runOps_refines_iff note (fun _ _ h => h.accounted) step_keeps step_needs holds_start ops

/-- A frame in a cache of two slots, and the end of the cache. -/
def freedRun : List Op := [.initCache 2, .cacheFrame 0 [7] 1 5 0, .freeCache 0]

/-- `free_cache` leaves the slots, and what they held in the counter. -/
theorem not_accounted_of_free :
    ¬ ∀ ops pre, pre <+: ops → Ensures (runOps step World.start pre) fun a => Accounted a.2 (lastCached pre) := by
  intro h
  obtain ⟨a, ha, hacc⟩ := h freedRun freedRun (List.prefix_refl freedRun)
  have hrun : runOps step World.start freedRun = .ok ([.handle (some 0), .done, .done], ⟨[none], 1⟩) := rfl
  obtain rfl := Except.ok.inj (hrun.symm.trans ha)
  have htotal : (1 : ℤ) = 0 := hacc.total
  omega

end Veejay.CacheAccounting
