import Veejay.CLib.Exec

/-!
# The bank of samples

Samples are known by their ids.  A new sample gets the id of a deleted one, or the next number; `SampleHash` holds
the samples that were stored, and `sample_cache` the ones that were looked up (`libsample/sampleadm.c`).

* `Bank` — the variables of the module and the allocated samples, over what a sample holds;
* `newId`, `sampleSkeletonNew`, `sampleStore`, `sampleCopy`, `sampleDel`, `sampleDelAll` — the functions;
* `Regular` — the invariant: a freed id belongs to no sample, and is freed once;
* `ids_of_run` — **ids are fresh and in range**, in runs that do not run out of them.
-/

namespace Veejay.Samples

open CLib

/-- `SAMPLE_MAX_SAMPLES` -/
def sampleMaxSamples : ℕ := 16384

/-- The address of a sample. -/
abbrev Addr := ℕ

/-- A sample: its id, and what else it holds. -/
structure Object (α : Type) where
  sampleId : ℤ
  info : α

/-- The variables of `sampleadm.c`, and the samples in memory. -/
structure Bank (α : Type) where
  thisSampleId : ℤ
  nextAvailNum : ℕ
  availNum : List ℤ
  sampleHash : ℤ → Option Addr
  sampleCache : List (Option Addr)
  heap : Addr → Option (Object α)
  nextAddr : Addr

/-- What samples are made of. -/
structure Contents (α : Type) where
  /-- the contents of a new sample: by its id, `sample_size ()`, and its first and last frame -/
  fresh : ℤ → ℤ → ℤ → ℤ → α
  /-- what `sample_store` sets -/
  stored : α → α
  /-- what `sample_copy` copies -/
  copied : α → α

section Functions

variable {α : Type}

/-- `sample_init` -/
def sampleInit : Bank α where
  thisSampleId := 1
  nextAvailNum := 0
  availNum := List.replicate sampleMaxSamples 0
  sampleHash := fun _ => none
  sampleCache := List.replicate sampleMaxSamples none
  heap := fun _ => none
  nextAddr := 0

/-- The loop of `_new_id`, from index `n` on: the first freed id. -/
def findFreed (avail : List ℤ) : ℕ → ℕ → Exec (Option (ℕ × ℤ))
  | 0, _ => .ok none
  | left + 1, n =>
    match avail[n]? with
    | none => .error .outOfBounds
    | some id => if id = 0 then findFreed avail left (n + 1) else .ok (some (n, id))

/-- `_new_id` -/
def newId (b : Bank α) : Exec (ℤ × Bank α) := do
  match ← findFreed b.availNum (b.nextAvailNum + 1) 0 with
  | some (n, id) => .ok (id, { b with availNum := b.availNum.set n 0 })
  | none =>
    let id := if b.thisSampleId = 0 then 1 else b.thisSampleId
    .ok (id, { b with thisSampleId := id + 1 })

/-- A sample is allocated. -/
def allocate (o : Object α) (b : Bank α) : Addr × Bank α :=
  (b.nextAddr, { b with heap := Function.update b.heap b.nextAddr (some o), nextAddr := b.nextAddr + 1 })

/-- `sample_cache[id] = si` -/
def setCache (id : ℤ) (a : Option Addr) (b : Bank α) : Exec (Bank α) :=
  if 0 ≤ id ∧ id < b.sampleCache.length then .ok { b with sampleCache := b.sampleCache.set id.toNat a }
  else .error .overrun

/-- `sample_skeleton_new`: the sample and its id. -/
def sampleSkeletonNew (c : Contents α) (startFrame endFrame : ℤ) (b : Bank α) :
    Exec (Option (Addr × ℤ) × Bank α) := do
  let startFrame := if startFrame < 0 then 0 else startFrame
  if endFrame ≤ startFrame then .ok (none, b)
  else do
    let (id, b) ← newId b
    let (si, b) := allocate ⟨id, c.fresh id b.thisSampleId startFrame endFrame⟩ b
    let b ← setCache id (some si) b
    .ok (some (si, id), b)

/-- `sample_get` -/
def sampleGet (id : ℤ) (b : Bank α) : Exec (Option Addr × Bank α) :=
  if id < 0 ∨ id > sampleMaxSamples then .ok (none, b)
  else
    match b.sampleCache[id.toNat]? with
    | none => .error .outOfBounds
    | some (some si) => .ok (some si, b)
    | some none =>
      match b.sampleHash id with
      | none => .ok (none, b)
      | some si => do
        let b ← setCache id (some si) b
        .ok (some si, b)

/-- `sample_exists` -/
def sampleExists (id : ℤ) (b : Bank α) : Exec (Bool × Bank α) :=
  if id = 0 then .ok (false, b)
  else
    match b.sampleHash id with
    | none => .ok (false, b)
    | some _ => do
      let (si, b) ← sampleGet id b
      .ok (si.isSome, b)

/-- A sample is read. -/
def deref (si : Addr) (b : Bank α) : Exec (Object α) :=
  match b.heap si with
  | none => .error .useAfterFree
  | some o => .ok o

/-- `sample_store`; where there is a sample of this id, only the new node is written to. -/
def sampleStore (c : Contents α) (skel : Addr) (b : Bank α) : Exec (Bank α) := do
  let o ← deref skel b
  let b := { b with heap := Function.update b.heap skel (some ⟨o.sampleId, c.stored o.info⟩) }
  let (there, b) ← sampleExists o.sampleId b
  if there then .ok b
  else .ok { b with sampleHash := Function.update b.sampleHash o.sampleId (some skel) }

/-- `sample_copy`: the id of the copy. -/
def sampleCopy (c : Contents α) (id : ℤ) (b : Bank α) : Exec (Option ℤ × Bank α) := do
  let (there, b) ← sampleExists id b
  if !there then .ok (none, b)
  else
    match ← sampleGet id b with
    | (none, _) => .error .nullPointer
    | (some org, b) => do
      let o ← deref org b
      let (copyId, b) ← newId b
      let (copy, b) := allocate ⟨copyId, c.copied o.info⟩ b
      let b ← sampleStore c copy b
      .ok (some copyId, b)

/-- `avail_num[next_avail_num] = sample_id; next_avail_num++` -/
def storeFreed (id : ℤ) (b : Bank α) : Exec (Bank α) :=
  if b.nextAvailNum < b.availNum.length then
    .ok { b with availNum := b.availNum.set b.nextAvailNum id, nextAvailNum := b.nextAvailNum + 1 }
  else .error .overrun

/-- The beginning of `sample_del`: the sample, if it is stored. -/
def findStored (id : ℤ) (b : Bank α) : Exec (Option (Addr × Object α) × Bank α) := do
  match ← sampleGet id b with
  | (none, b) => .ok (none, b)
  | (some si, b) =>
    match b.sampleHash id with
    | none => .ok (none, b)
    | some _ => do
      let o ← deref si b
      .ok (some (si, o), b)

/-- The end of `sample_del`: the id is free again, the sample is no longer there. -/
def dropStored (id : ℤ) (si : Addr) (b : Bank α) : Exec (Bank α) := do
  let b ← storeFreed id b
  let b := { b with sampleHash := Function.update b.sampleHash id none }
  let b ← setCache id none b
  .ok { b with heap := Function.update b.heap si none }

/-- `sample_del`; what the sample holds goes with it. -/
def sampleDel (id : ℤ) (b : Bank α) : Exec (Bool × Bank α) := do
  match ← findStored id b with
  | (none, b) => .ok (false, b)
  | (some (si, _), b) => do
    let b ← dropStored id si b
    .ok (true, b)

/-- The loop of `sample_del_all`. -/
def delLoop : List ℤ → Bank α → Exec (Bank α)
  | [], b => .ok b
  | i :: is, b => do
    let (there, b) ← sampleExists i b
    if there then do
      let (_, b) ← sampleDel i b
      delLoop is b
    else delLoop is b

/-- The ids that `for (i = 1; i < sample_size() + 1; i++)` visits. -/
def idsUpTo (n : ℤ) : List ℤ := (List.range n.toNat).map fun k : ℕ => (k : ℤ) + 1

/-- `sample_del_all` -/
def sampleDelAll (b : Bank α) : Exec (Bank α) := do
  let b ← delLoop (idsUpTo b.thisSampleId) b
  let b := { b with availNum := b.availNum.map fun _ => 0, nextAvailNum := 0 }
  .ok { b with thisSampleId := 0, sampleHash := fun _ => none }

/-- The calls that change the bank. -/
inductive BankOp where
  | skeletonNew (startFrame endFrame : ℤ)
  | store (skel : Addr)
  | copy (id : ℤ)
  | del (id : ℤ)
  | delAll

/-- One call: the id of a sample that it creates. -/
def bankStep (c : Contents α) (b : Bank α) : BankOp → Exec (Option ℤ × Bank α)
  | .skeletonNew startFrame endFrame => do
    let (si, b) ← sampleSkeletonNew c startFrame endFrame b
    .ok (si.map Prod.snd, b)
  | .store skel => do
    let b ← sampleStore c skel b
    .ok (none, b)
  | .copy id => sampleCopy c id b
  | .del id => do
    let (_, b) ← sampleDel id b
    .ok (none, b)
  | .delAll => do
    let b ← sampleDelAll b
    .ok (none, b)

end Functions

/-! ## The invariant -/

section Invariant

variable {α : Type} {b : Bank α}

/-- The id of a sample in memory. -/
def Bank.idAt (b : Bank α) (si : Addr) : Option ℤ := (b.heap si).map Object.sampleId

/-- There is a sample of this id. -/
def Live (b : Bank α) (id : ℤ) : Prop := b.sampleHash id ≠ none

instance (b : Bank α) (id : ℤ) : Decidable (Live b id) :=
  decidable_of_iff ((b.sampleHash id).isSome = true) Option.isSome_iff_ne_none

/-- Looking a sample up finds the sample of this id. -/
structure Sound (b : Bank α) : Prop where
  cache_length : b.sampleCache.length = sampleMaxSamples
  this_le : b.thisSampleId ≤ sampleMaxSamples
  stored : ∀ (id : ℤ) (si : Addr), b.sampleHash id = some si → 1 ≤ id ∧ id < b.thisSampleId ∧ b.idAt si = some id
  cached : ∀ (n : ℕ) (si : Addr), b.sampleCache[n]? = some (some si) → b.idAt si = some (n : ℤ)
  unallocated : ∀ si, b.nextAddr ≤ si → b.heap si = none

/-- The bank as the functions keep it. -/
structure Regular (b : Bank α) : Prop extends Sound b where
  avail_length : b.availNum.length = sampleMaxSamples
  next_lt : b.nextAvailNum < sampleMaxSamples
  this_nonneg : 0 ≤ b.thisSampleId
  freed : ∀ (n : ℕ) (id : ℤ), b.availNum[n]? = some id → id ≠ 0 →
    n < b.nextAvailNum ∧ 1 ≤ id ∧ id < b.thisSampleId ∧ b.sampleHash id = none
  freed_once : ∀ (m n : ℕ) (id : ℤ), b.availNum[m]? = some id → b.availNum[n]? = some id → id ≠ 0 → m = n

theorem regular_sampleInit : Regular (sampleInit : Bank α) where
  avail_length := List.length_replicate
  cache_length := List.length_replicate
  next_lt := show 0 < sampleMaxSamples by decide
  this_nonneg := show (0 : ℤ) ≤ 1 by decide
  this_le := show (1 : ℤ) ≤ sampleMaxSamples by decide
  freed n id h hid := absurd (List.eq_of_mem_replicate (List.mem_of_getElem? h)) hid
  freed_once m n id h _ hid := absurd (List.eq_of_mem_replicate (List.mem_of_getElem? h)) hid
  stored id si h := by cases h
  cached n si h := by cases List.eq_of_mem_replicate (List.mem_of_getElem? h)
  unallocated si _ := rfl

/-- The bank with another cache. -/
def Bank.withCache (b : Bank α) (c : List (Option Addr)) : Bank α := { b with sampleCache := c }

/-- The bank with other free ids. -/
def Bank.withIds (b : Bank α) (avail : List ℤ) (this : ℤ) : Bank α :=
  { b with availNum := avail, thisSampleId := this }

/-- An id can be given to a new sample: a freed one, or the next number. -/
def CanAllocate (b : Bank α) : Prop := (∃ id ∈ b.availNum, id ≠ 0) ∨ b.thisSampleId < sampleMaxSamples

/-! ## Ids -/

/-- The loop of `_new_id` finds the first freed id. -/
theorem findFreed_spec {avail : List ℤ} :
    ∀ (left n : ℕ), n + left ≤ avail.length →
      (findFreed avail left n = .ok none ∧ ∀ k, n ≤ k → k < n + left → avail[k]? = some 0) ∨
      ∃ k id, findFreed avail left n = .ok (some (k, id)) ∧ avail[k]? = some id ∧ id ≠ 0 := by
  intro left
  induction left with
  | zero => exact fun n _ => Or.inl ⟨rfl, fun k hk hk' => by omega⟩
  | succ left ih =>
    intro n hn
    have hlt : n < avail.length := by omega
    rw [findFreed, List.getElem?_eq_getElem hlt]
    dsimp only
    split_ifs with hzero
    · rcases ih (n + 1) (by omega) with ⟨hnone, hall⟩ | ⟨k, id, hsome, hk⟩
      · refine Or.inl ⟨hnone, fun k hk hk' => ?_⟩
        rcases Nat.eq_or_lt_of_le hk with rfl | hlt'
        · rw [List.getElem?_eq_getElem hlt, hzero]
        · exact hall k hlt' (by omega)
      · exact Or.inr ⟨k, id, hsome, hk⟩
    · exact Or.inr ⟨n, avail[n], rfl, List.getElem?_eq_getElem hlt, hzero⟩

/-- **`_new_id`** gives an id in range that belongs to no sample and is not free any more. -/
theorem newId_spec (hb : Regular b) (hcan : CanAllocate b) :
    ∃ id avail this, newId b = .ok (id, b.withIds avail this) ∧ Regular (b.withIds avail this) ∧
      1 ≤ id ∧ id < sampleMaxSamples ∧ b.sampleHash id = none ∧ id < this ∧ id ∉ avail := by
  have hbound : 0 + (b.nextAvailNum + 1) ≤ b.availNum.length := by
    have hnext := hb.next_lt
    rw [hb.avail_length]
    omega
  rcases findFreed_spec (b.nextAvailNum + 1) 0 hbound with ⟨hnone, hall⟩ | ⟨n, id, hsome, hn, hid⟩
  · -- no freed id: the next number
    have hzero : ∀ (n : ℕ) (id : ℤ), b.availNum[n]? = some id → id = 0 := by
      intro n id hn
      by_contra hid
      have hlt := (hb.freed n id hn hid).1
      have hn' := hall n (Nat.zero_le n) (by omega)
      rw [hn] at hn'
      exact hid (Option.some.inj hn')
    have hthis : b.thisSampleId < sampleMaxSamples := by
      rcases hcan with ⟨id, hmem, hid⟩ | hthis
      · obtain ⟨n, hn⟩ := List.getElem?_of_mem hmem
        exact absurd (hzero n id hn) hid
      · exact hthis
    obtain ⟨id, hidef⟩ : ∃ id, id = if b.thisSampleId = 0 then 1 else b.thisSampleId := ⟨_, rfl⟩
    have hnonneg := hb.this_nonneg
    have hmax : (1 : ℤ) < sampleMaxSamples := by decide
    have hrange : 1 ≤ id ∧ id < sampleMaxSamples ∧ b.thisSampleId ≤ id := by
      rw [hidef]
      split_ifs <;> omega
    refine ⟨id, b.availNum, id + 1, ?_, ?_, hrange.1, hrange.2.1, ?_, by omega, fun hmem => ?_⟩
    · rw [newId, hnone, ok_bind]
      dsimp only
      rw [← hidef]
      rfl
    · exact {
        avail_length := hb.avail_length, cache_length := hb.cache_length, next_lt := hb.next_lt,
        this_nonneg := show 0 ≤ id + 1 by omega,
        this_le := show id + 1 ≤ sampleMaxSamples by omega,
        freed := fun n i hn hi => absurd (hzero n i hn) hi,
        freed_once := hb.freed_once,
        stored := fun i si hi => ⟨(hb.stored i si hi).1, by
          have hlt := (hb.stored i si hi).2.1
          show i < id + 1
          omega, (hb.stored i si hi).2.2⟩,
        cached := hb.cached, unallocated := hb.unallocated }
    · cases hhash : b.sampleHash id with
      | none => rfl
      | some si =>
        have hlt := (hb.stored id si hhash).2.1
        omega
    · obtain ⟨n, hn⟩ := List.getElem?_of_mem hmem
      have hid := hzero n id hn
      omega
  · obtain ⟨-, hpos, hlt, hhash⟩ := hb.freed n id hn hid
    have hthis := hb.this_le
    -- the slot of the id is cleared
    have hset : ∀ (m : ℕ) (i : ℤ), (b.availNum.set n 0)[m]? = some i → i ≠ 0 → m ≠ n ∧ b.availNum[m]? = some i := by
      intro m i hm hi
      rw [List.getElem?_set] at hm
      split_ifs at hm with hmn hlen
      · exact absurd (Option.some.inj hm).symm hi
      · exact ⟨Ne.symm hmn, hm⟩
    refine ⟨id, b.availNum.set n 0, b.thisSampleId, ?_, ?_, hpos, by omega, hhash, hlt, fun hmem => ?_⟩
    · rw [newId, hsome, ok_bind]
      rfl
    · exact {
        avail_length := (List.length_set).trans hb.avail_length, cache_length := hb.cache_length,
        next_lt := hb.next_lt, this_nonneg := hb.this_nonneg, this_le := hb.this_le,
        freed := fun m i hm hi => hb.freed m i (hset m i hm hi).2 hi,
        freed_once := fun m k i hm hk hi => hb.freed_once m k i (hset m i hm hi).2 (hset k i hk hi).2 hi,
        stored := hb.stored, cached := hb.cached, unallocated := hb.unallocated }
    · obtain ⟨m, hm⟩ := List.getElem?_of_mem hmem
      obtain ⟨hne, hm'⟩ := hset m id hm hid
      exact hne (hb.freed_once m n id hm' hn hid)

/-! ## Looking samples up -/

theorem Sound.withCache (hb : Sound b) {cache : List (Option Addr)} (hlen : cache.length = sampleMaxSamples)
    (hc : ∀ (n : ℕ) (si : Addr), cache[n]? = some (some si) → b.idAt si = some (n : ℤ)) :
    Sound (b.withCache cache) where
  cache_length := hlen
  this_le := hb.this_le
  stored := hb.stored
  cached := hc
  unallocated := hb.unallocated

/-- The cache says nothing about ids. -/
theorem Regular.withCache (hb : Regular b) {cache : List (Option Addr)} (h : Sound (b.withCache cache)) :
    Regular (b.withCache cache) where
  toSound := h
  avail_length := hb.avail_length
  next_lt := hb.next_lt
  this_nonneg := hb.this_nonneg
  freed := hb.freed
  freed_once := hb.freed_once

/-- Setting one entry of the cache. -/
theorem setCache_spec (hb : Sound b) {id : ℤ} (hlo : 0 ≤ id) (hhi : id < sampleMaxSamples) {a : Option Addr}
    (ha : ∀ si, a = some si → b.idAt si = some id) :
    ∃ cache : List (Option Addr), setCache id a b = .ok (b.withCache cache) ∧ Sound (b.withCache cache) ∧
      cache[id.toNat]? = some a ∧ ∀ n, n ≠ id.toNat → cache[n]? = b.sampleCache[n]? := by
  have hcache : ∀ (n : ℕ) (si : Addr), (b.sampleCache.set id.toNat a)[n]? = some (some si) →
      b.idAt si = some (n : ℤ) := by
    intro n si hn
    rw [List.getElem?_set] at hn
    split_ifs at hn with hid hlen
    · rw [ha si (Option.some.inj hn), ← hid, Int.toNat_of_nonneg hlo]
    · exact hb.cached n si hn
  have hlen := hb.cache_length
  refine ⟨b.sampleCache.set id.toNat a, if_pos ⟨hlo, by omega⟩,
    hb.withCache (by rw [List.length_set, hlen]) hcache, ?_, fun n hn => ?_⟩
  · rw [List.getElem?_set_self (by omega)]
  · exact List.getElem?_set_ne hn.symm

/-- The sample that `sample_get` finds. -/
def Bank.lookup (b : Bank α) (id : ℤ) : Option Addr :=
  if 0 ≤ id ∧ id < sampleMaxSamples then
    match b.sampleCache[id.toNat]? with
    | some (some si) => some si
    | _ => b.sampleHash id
  else none

/-- What the sample that is looked up holds. -/
def Bank.infoOf (b : Bank α) (id : ℤ) : Option α := (b.lookup id).bind fun si => (b.heap si).map Object.info

theorem infoOf_withCache {cache : List (Option Addr)} (h : ∀ i, (b.withCache cache).lookup i = b.lookup i) (id : ℤ) :
    (b.withCache cache).infoOf id = b.infoOf id := by
  rw [Bank.infoOf, h]
  rfl

theorem Sound.lookup_eq (hb : Sound b) {id : ℤ} {si : Addr} (h : b.lookup id = some si) :
    0 ≤ id ∧ id < sampleMaxSamples ∧ b.idAt si = some id := by
  rw [Bank.lookup] at h
  split_ifs at h with hrange
  refine ⟨hrange.1, hrange.2, ?_⟩
  split at h
  · rename_i si' hcell
    obtain rfl := Option.some.inj h
    have hat := hb.cached id.toNat si' hcell
    rwa [Int.toNat_of_nonneg hrange.1] at hat
  · exact (hb.stored id si h).2.2

/-- A sample that is looked up holds something. -/
theorem Sound.infoOf_of_lookup (hb : Sound b) {id : ℤ} (h : b.lookup id ≠ none) : ∃ x, b.infoOf id = some x := by
  obtain ⟨si, hsi⟩ := Option.ne_none_iff_exists'.mp h
  obtain ⟨o, ho, -⟩ := Option.map_eq_some_iff.mp (hb.lookup_eq hsi).2.2
  exact ⟨o.info, by rw [Bank.infoOf, hsi, Option.bind_some, ho]; rfl⟩

theorem Sound.live_lt (hb : Sound b) {id : ℤ} (hlive : Live b id) :
    1 ≤ id ∧ id < b.thisSampleId ∧ id < sampleMaxSamples := by
  obtain ⟨si, hsi⟩ := Option.ne_none_iff_exists'.mp hlive
  obtain ⟨hlo, hhi, -⟩ := hb.stored id si hsi
  exact ⟨hlo, hhi, lt_of_lt_of_le hhi hb.this_le⟩

theorem Sound.lookup_live (hb : Sound b) {id : ℤ} (hlive : Live b id) : b.lookup id ≠ none := by
  obtain ⟨hlo, -, hhi⟩ := hb.live_lt hlive
  rw [Bank.lookup, if_pos ⟨by omega, hhi⟩]
  split
  · exact Option.some_ne_none _
  · exact hlive

/-- **`sample_get`** finds the sample, and later lookups find the same. -/
theorem sampleGet_spec (hb : Sound b) {id : ℤ} (hid : id ≠ sampleMaxSamples) :
    ∃ cache, sampleGet id b = .ok (b.lookup id, b.withCache cache) ∧ Sound (b.withCache cache) ∧
      ∀ i, (b.withCache cache).lookup i = b.lookup i := by
  rw [sampleGet, Bank.lookup]
  split_ifs with hrange hrange' hrange'
  · omega
  · exact ⟨b.sampleCache, rfl, hb, fun _ => rfl⟩
  · have hlen := hb.cache_length
    have hlt : id.toNat < b.sampleCache.length := by omega
    rw [List.getElem?_eq_getElem hlt]
    cases hcell : b.sampleCache[id.toNat] with
    | some si => exact ⟨b.sampleCache, rfl, hb, fun _ => rfl⟩
    | none =>
      dsimp only
      cases hhash : b.sampleHash id with
      | none => exact ⟨b.sampleCache, rfl, hb, fun _ => rfl⟩
      | some si =>
        have hat := (hb.stored id si hhash).2.2
        have hsi : ∀ si', some si = some si' → b.idAt si' = some id := by
          intro si' h
          obtain rfl := Option.some.inj h
          exact hat
        obtain ⟨cache, hset, hc, hget, hother⟩ := setCache_spec hb hrange'.1 hrange'.2 hsi
        refine ⟨cache, ?_, hc, fun i => ?_⟩
        · dsimp only
          rw [hset, ok_bind]
        · rw [Bank.lookup, Bank.lookup]
          by_cases hi : 0 ≤ i ∧ i < sampleMaxSamples
          · rw [if_pos hi, if_pos hi]
            show (match cache[i.toNat]? with
              | some (some si) => some si
              | _ => b.sampleHash i) = _
            by_cases heq : i = id
            · rw [heq, hget, List.getElem?_eq_getElem hlt, hcell]
              exact hhash.symm
            · rw [hother i.toNat (by omega)]
          · rw [if_neg hi, if_neg hi]
  · omega

/-- **`sample_exists`** tells what is stored. -/
theorem sampleExists_spec (hb : Sound b) (id : ℤ) :
    ∃ there cache, sampleExists id b = .ok (there, b.withCache cache) ∧ Sound (b.withCache cache) ∧
      (there = true ↔ Live b id) ∧ ∀ i, (b.withCache cache).lookup i = b.lookup i := by
  rw [sampleExists]
  split_ifs with hzero
  · refine ⟨false, b.sampleCache, rfl, hb, ⟨fun h => (by cases h), fun hlive => ?_⟩, fun _ => rfl⟩
    have hlo := (hb.live_lt hlive).1
    omega
  · cases hhash : b.sampleHash id with
    | none =>
      exact ⟨false, b.sampleCache, rfl, hb, ⟨fun h => (by cases h), fun hlive => absurd hhash hlive⟩, fun _ => rfl⟩
    | some si =>
      have hlive : Live b id := by rw [Live, hhash]; exact Option.some_ne_none si
      have hhi := (hb.live_lt hlive).2.2
      obtain ⟨cache, hget, hc, hsame⟩ := sampleGet_spec hb (show id ≠ sampleMaxSamples by omega)
      refine ⟨(b.lookup id).isSome, cache, ?_, hc, ⟨fun _ => hlive, fun _ => ?_⟩, hsame⟩
      · dsimp only
        rw [hget, ok_bind]
      · exact Option.isSome_iff_ne_none.mpr (hb.lookup_live hlive)

/-- What the cache holds is stored. -/
def Coherent (b : Bank α) : Prop := ∀ (n : ℕ) (si : Addr), b.sampleCache[n]? = some (some si) → b.sampleHash n = some si

/-- Then looking a sample up is looking at what is stored. -/
theorem Coherent.lookup_eq (hc : Coherent b) (hb : Sound b) (id : ℤ) : b.lookup id = b.sampleHash id := by
  rw [Bank.lookup]
  split_ifs with hrange
  · split
    · rename_i si hcell
      rw [← hc id.toNat si hcell, Int.toNat_of_nonneg hrange.1]
    · rfl
  · by_contra hne
    obtain ⟨hlo, -, hhi⟩ := hb.live_lt (Ne.symm hne)
    exact hrange ⟨by omega, hhi⟩

theorem Coherent.withCache (hc : Coherent b) (hb : Sound b) {cache : List (Option Addr)} (hs : Sound (b.withCache cache))
    (hsame : ∀ i, (b.withCache cache).lookup i = b.lookup i) : Coherent (b.withCache cache) := by
  intro n si hn
  have hlen : n < sampleMaxSamples := by
    rw [← hs.cache_length]
    exact (List.getElem?_eq_some_iff.mp hn).1
  have hlook : (b.withCache cache).lookup n = some si := by
    rw [Bank.lookup, if_pos ⟨by omega, by omega⟩, Int.toNat_natCast, hn]
  rw [hsame, hc.lookup_eq hb] at hlook
  exact hlook

/-! ## Storing and copying -/

theorem deref_of_idAt {si : Addr} {id : ℤ} (h : b.idAt si = some id) :
    ∃ o, deref si b = .ok o ∧ b.heap si = some o ∧ o.sampleId = id := by
  obtain ⟨o, ho, hid⟩ := Option.map_eq_some_iff.mp h
  exact ⟨o, by rw [deref, ho], ho, hid⟩

/-- What depends on the ids only stays sound when a sample changes. -/
theorem Sound.withHeap (hb : Sound b) {heap : Addr → Option (Object α)} {next : Addr}
    (hids : ∀ si id, b.idAt si = some id → (heap si).map Object.sampleId = some id)
    (hfresh : ∀ si, next ≤ si → heap si = none) : Sound { b with heap := heap, nextAddr := next } where
  cache_length := hb.cache_length
  this_le := hb.this_le
  stored id si h := ⟨(hb.stored id si h).1, (hb.stored id si h).2.1, hids si id (hb.stored id si h).2.2⟩
  cached n si h := hids si n (hb.cached n si h)
  unallocated := hfresh

theorem Regular.withHeap (hb : Regular b) {heap : Addr → Option (Object α)} {next : Addr}
    (h : Sound { b with heap := heap, nextAddr := next }) : Regular { b with heap := heap, nextAddr := next } where
  toSound := h
  avail_length := hb.avail_length
  next_lt := hb.next_lt
  this_nonneg := hb.this_nonneg
  freed := hb.freed
  freed_once := hb.freed_once

/-- A sample changes, but not its id. -/
theorem Sound.update (hb : Sound b) {si : Addr} {o o' : Object α} (ho : b.heap si = some o)
    (hid : o'.sampleId = o.sampleId) : Sound { b with heap := Function.update b.heap si (some o') } := by
  refine hb.withHeap (fun a i h => ?_) fun a ha => ?_
  · by_cases heq : a = si
    · subst heq
      rw [Bank.idAt, ho] at h
      rw [Function.update_self]
      exact (congrArg some hid).trans h
    · rw [Function.update_of_ne heq]
      exact h
  · have hne : a ≠ si := by
      rintro rfl
      rw [hb.unallocated _ ha] at ho
      cases ho
    rw [Function.update_of_ne hne]
    exact hb.unallocated a ha

/-- Only the sample of this id changes. -/
theorem Sound.infoOf_update (hb : Sound b) {id : ℤ} {si : Addr} {o : Object α} (hlook : b.lookup id = some si)
    (ho : b.heap si = some o) (x : α) (k : ℤ) :
    Bank.infoOf { b with heap := Function.update b.heap si (some ⟨o.sampleId, x⟩) } k =
      if k = id then some x else b.infoOf k := by
  show (b.lookup k).bind (fun a => (Function.update b.heap si (some ⟨o.sampleId, x⟩) a).map Object.info) = _
  split_ifs with hk
  · rw [hk, hlook, Option.bind_some, Function.update_self]
    rfl
  · rw [Bank.infoOf]
    cases hlook' : b.lookup k with
    | none => rfl
    | some a =>
      -- another sample is at another address
      have hne : a ≠ si := by
        rintro rfl
        have hat := (hb.lookup_eq hlook).2.2
        rw [(hb.lookup_eq hlook').2.2] at hat
        exact hk (Option.some.inj hat)
      rw [Option.bind_some, Option.bind_some, Function.update_of_ne hne]

/-- An allocated sample is at a new address. -/
theorem allocate_spec (hb : Regular b) (o : Object α) :
    Regular (allocate o b).2 ∧ (allocate o b).2.idAt (allocate o b).1 = some o.sampleId := by
  refine ⟨hb.withHeap (hb.toSound.withHeap (fun si id h => ?_) fun si hsi => ?_), ?_⟩
  · have hne : si ≠ b.nextAddr := by
      rintro rfl
      rw [Bank.idAt, hb.unallocated _ le_rfl] at h
      cases h
    rw [Function.update_of_ne hne]
    exact h
  · have hlt : b.nextAddr + 1 ≤ si := hsi
    rw [Function.update_of_ne (Nat.ne_of_gt hlt)]
    exact hb.unallocated si (Nat.le_of_succ_le hlt)
  · show Option.map Object.sampleId (Function.update b.heap b.nextAddr (some o) b.nextAddr) = some o.sampleId
    rw [Function.update_self]
    rfl

/-- The id of a sample is one that `sample_store` may take: it is given out, and not free again. -/
def Storable (b : Bank α) (id : ℤ) : Prop := Live b id ∨ (1 ≤ id ∧ id < b.thisSampleId ∧ id ∉ b.availNum)

/-- **`sample_store`** -/
theorem sampleStore_spec (hb : Regular b) (c : Contents α) {skel : Addr} {id : ℤ} (hskel : b.idAt skel = some id)
    (hid : Storable b id) :
    ∃ b', sampleStore c skel b = .ok b' ∧ Regular b' ∧ b'.nextAvailNum = b.nextAvailNum := by
  obtain ⟨o, hderef, hheap, rfl⟩ := deref_of_idAt hskel
  obtain ⟨b₁, hb₁def⟩ : ∃ b₁ : Bank α, b₁ =
      { b with heap := Function.update b.heap skel (some ⟨o.sampleId, c.stored o.info⟩) } := ⟨_, rfl⟩
  have hb₁ : Regular b₁ := by
    rw [hb₁def]
    exact hb.withHeap (hb.toSound.update hheap rfl)
  obtain ⟨there, cache, hexists, hsound, hiff, -⟩ := sampleExists_spec hb₁.toSound o.sampleId
  have hb₂ : Regular (b₁.withCache cache) := hb₁.withCache hsound
  have hlive : Live b₁ o.sampleId ↔ Live b o.sampleId := by rw [hb₁def]; rfl
  have hrun : sampleStore c skel b = (if there then .ok (b₁.withCache cache)
      else .ok { b₁.withCache cache with sampleHash := Function.update b₁.sampleHash o.sampleId (some skel) }) := by
    rw [sampleStore, hderef, ok_bind]
    dsimp only
    rw [← hb₁def, hexists, ok_bind]
    rfl
  rw [hrun]
  by_cases hthere : there = true
  · exact ⟨b₁.withCache cache, by rw [if_pos hthere], hb₂, by rw [hb₁def]; rfl⟩
  · rcases hid with hid | ⟨hlo, hhi, havail⟩
    · exact absurd (hiff.mpr (hlive.mpr hid)) hthere
    · refine ⟨_, by rw [if_neg hthere], ?_, by rw [hb₁def]; rfl⟩
      exact {
        avail_length := hb₂.avail_length, cache_length := hb₂.cache_length, next_lt := hb₂.next_lt,
        this_nonneg := hb₂.this_nonneg, this_le := hb₂.this_le,
        freed := fun n i hn hi => by
          obtain ⟨h₁, h₂, h₃, h₄⟩ := hb₂.freed n i hn hi
          refine ⟨h₁, h₂, h₃, ?_⟩
          have hne : i ≠ o.sampleId := by
            rintro rfl
            rw [hb₁def] at hn
            exact havail (List.mem_of_getElem? hn)
          show Function.update b₁.sampleHash o.sampleId (some skel) i = none
          rw [Function.update_of_ne hne]
          exact h₄,
        freed_once := hb₂.freed_once,
        stored := fun i si h => by
          by_cases hi : i = o.sampleId
          · subst hi
            have hsi : skel = si := by
              have h' : Function.update b₁.sampleHash o.sampleId (some skel) o.sampleId = some si := h
              rw [Function.update_self] at h'
              exact Option.some.inj h'
            subst hsi
            refine ⟨hlo, by rw [hb₁def]; exact hhi, ?_⟩
            rw [hb₁def, Bank.idAt]
            show Option.map Object.sampleId (Function.update b.heap skel _ skel) = _
            rw [Function.update_self]
            rfl
          · have h' : Function.update b₁.sampleHash o.sampleId (some skel) i = some si := h
            rw [Function.update_of_ne hi] at h'
            exact hb₂.stored i si h',
        cached := hb₂.cached, unallocated := hb₂.unallocated }

/-- A sample with a new id is stored. -/
theorem sampleStore_new (c : Contents α) {skel : Addr} {o : Object α} (ho : b.heap skel = some o)
    (hid : b.sampleHash o.sampleId = none) :
    sampleStore c skel b = .ok { b with
      heap := Function.update b.heap skel (some ⟨o.sampleId, c.stored o.info⟩),
      sampleHash := Function.update b.sampleHash o.sampleId (some skel) } := by
  have hthere : ∀ heap : Addr → Option (Object α),
      sampleExists o.sampleId { b with heap := heap } = .ok (false, { b with heap := heap }) := by
    intro heap
    rw [sampleExists]
    split_ifs
    · rfl
    · show (match b.sampleHash o.sampleId with
        | none => .ok (false, { b with heap := heap })
        | some _ => _ : Exec (Bool × Bank α)) = _
      rw [hid]
  rw [sampleStore, deref, ho]
  dsimp only
  rw [ok_bind]
  rw [hthere, ok_bind]
  rfl

/-- What creating a sample leaves. -/
structure Created (b : Bank α) (id : ℤ) (x : α) (b' : Bank α) : Prop where
  fresh : ¬ Live b id
  range : 1 ≤ id ∧ id < sampleMaxSamples
  hash : b'.sampleHash = Function.update b.sampleHash id (some b.nextAddr)
  heap : b'.heap = Function.update b.heap b.nextAddr (some ⟨id, x⟩)
  coherent : Coherent b'

theorem Created.live_iff {id : ℤ} {x : α} {b' : Bank α} (h : Created b id x b') (k : ℤ) :
    Live b' k ↔ k = id ∨ Live b k := by
  rw [Live, h.hash]
  by_cases hk : k = id
  · rw [hk, Function.update_self]
    exact ⟨fun _ => Or.inl rfl, fun _ => Option.some_ne_none _⟩
  · rw [Function.update_of_ne hk]
    exact ⟨Or.inr, fun hor => hor.elim (fun heq => absurd heq hk) fun hl => hl⟩

theorem Created.infoOf {id : ℤ} {x : α} {b' : Bank α} (h : Created b id x b') (hb : Sound b) (hc : Coherent b)
    (hb' : Sound b') (k : ℤ) : b'.infoOf k = if k = id then some x else b.infoOf k := by
  rw [Bank.infoOf, h.coherent.lookup_eq hb', h.hash, h.heap]
  split_ifs with hk
  · rw [hk, Function.update_self, Option.bind_some, Function.update_self]
    rfl
  · rw [Function.update_of_ne hk, Bank.infoOf, hc.lookup_eq hb]
    cases hhash : b.sampleHash k with
    | none => rfl
    | some si =>
      have hat := (hb.stored k si hhash).2.2
      have hne : si ≠ b.nextAddr := by
        rintro rfl
        rw [Bank.idAt, hb.unallocated _ le_rfl] at hat
        cases hat
      rw [Option.bind_some, Option.bind_some, Function.update_of_ne hne]

/-- **`sample_copy`**, of a stored sample. -/
theorem sampleCopy_live (hb : Regular b) (c : Contents α) {id : ℤ} (hlive : Live b id) (hcan : CanAllocate b) :
    ∃ o copyId b', sampleCopy c id b = .ok (some copyId, b') ∧ Regular b' ∧ b.infoOf id = some o ∧
      1 ≤ copyId ∧ copyId < sampleMaxSamples ∧ ¬ Live b copyId ∧
      (Coherent b → Created b copyId (c.stored (c.copied o)) b') := by
  obtain ⟨there, cache, hexists, hb₁, hiff, hsame₁⟩ := sampleExists_spec hb.toSound id
  obtain rfl := hiff.mpr hlive
  have hlt := (hb.live_lt hlive).2.2
  obtain ⟨cache₂, hget, hsound, hsame₂⟩ := sampleGet_spec hb₁ (show id ≠ sampleMaxSamples by omega)
  have hb₂ : Regular ((b.withCache cache).withCache cache₂) := (hb.withCache hb₁).withCache hsound
  obtain ⟨org, horg⟩ := Option.ne_none_iff_exists'.mp (hb.lookup_live hlive)
  rw [hsame₁, horg] at hget
  obtain ⟨o, hderef, hheap, -⟩ := deref_of_idAt (hb.lookup_eq horg).2.2
  have hderef' : deref org ((b.withCache cache).withCache cache₂) = .ok o := hderef
  obtain ⟨copyId, avail, this, hnew, hb₃, hlo, hhi, hfresh, hthis, havail⟩ := newId_spec hb₂ hcan
  obtain ⟨hb₄, hcopy⟩ := allocate_spec hb₃ ⟨copyId, c.copied o.info⟩
  obtain ⟨b', hstore, hb', -⟩ := sampleStore_spec hb₄ c hcopy (Or.inr ⟨hlo, hthis, havail⟩)
  refine ⟨o.info, copyId, b', ?_, hb', ?_, hlo, hhi, fun hl => hl hfresh, fun hc => ?_⟩
  · rw [sampleCopy, hexists, ok_bind]
    simp only [Bool.not_true, Bool.false_eq_true, if_false, hget, ok_bind, hderef', hnew, hstore]
  · rw [Bank.infoOf, horg, Option.bind_some, hheap]
    rfl
  · have hc₂ : Coherent ((b.withCache cache).withCache cache₂) :=
      (hc.withCache hb.toSound hb₁ hsame₁).withCache hb₁ hsound hsame₂
    have hcell : (allocate ⟨copyId, c.copied o.info⟩ (((b.withCache cache).withCache cache₂).withIds avail this)).2.heap
        b.nextAddr = some ⟨copyId, c.copied o.info⟩ := Function.update_self ..
    have heq := (sampleStore_new c hcell hfresh).symm.trans hstore
    obtain rfl := Except.ok.inj heq
    refine ⟨fun hl => hl hfresh, ⟨hlo, hhi⟩, rfl, ?_, ?_⟩
    · exact Function.update_idem ..
    · intro n si hn
      have hold : b.sampleHash n = some si := hc₂ n si hn
      have hne : (n : ℤ) ≠ copyId := by
        rintro rfl
        have hnone : b.sampleHash (n : ℤ) = none := hfresh
        rw [hnone] at hold
        cases hold
      show Function.update b.sampleHash copyId (some b.nextAddr) n = some si
      rw [Function.update_of_ne hne, hold]

/-- **`sample_copy`** -/
theorem sampleCopy_spec (hb : Regular b) (c : Contents α) {id : ℤ} (hcan : Live b id → CanAllocate b) :
    ∃ r b', sampleCopy c id b = .ok (r, b') ∧ Regular b' ∧
      ∀ copyId, r = some copyId → 1 ≤ copyId ∧ copyId < sampleMaxSamples ∧ ¬ Live b copyId := by
  by_cases hlive : Live b id
  · obtain ⟨o, copyId, b', hcopy, hb', -, hlo, hhi, hfresh, -⟩ := sampleCopy_live hb c hlive (hcan hlive)
    refine ⟨some copyId, b', hcopy, hb', fun i hi => ?_⟩
    obtain rfl := Option.some.inj hi
    exact ⟨hlo, hhi, hfresh⟩
  · obtain ⟨there, cache, hexists, hb₁, hiff, -⟩ := sampleExists_spec hb.toSound id
    obtain rfl : there = false := Bool.eq_false_of_not_eq_true fun h => hlive (hiff.mp h)
    exact ⟨none, b.withCache cache, by rw [sampleCopy, hexists, ok_bind]; rfl, hb.withCache hb₁, fun i h => (by cases h)⟩

/-- What `sample_skeleton_new` leaves. -/
structure Skeleton (b : Bank α) (id : ℤ) (x : α) (b' : Bank α) : Prop where
  fresh : ¬ Live b id
  range : 1 ≤ id ∧ id < sampleMaxSamples
  given : id < b'.thisSampleId ∧ id ∉ b'.availNum
  next : b'.nextAvailNum = b.nextAvailNum
  hash : b'.sampleHash = b.sampleHash
  heap : b'.heap = Function.update b.heap b.nextAddr (some ⟨id, x⟩)
  own : b'.sampleCache[id.toNat]? = some (some b.nextAddr)
  cache : ∀ n, n ≠ id.toNat → b'.sampleCache[n]? = b.sampleCache[n]?

section Skeleton

variable {id : ℤ} {x : α} {b' : Bank α}

theorem Skeleton.cell (h : Skeleton b id x b') : b'.heap b.nextAddr = some ⟨id, x⟩ := by
  rw [h.heap, Function.update_self]

theorem Skeleton.idAt (h : Skeleton b id x b') : b'.idAt b.nextAddr = some id := by
  rw [Bank.idAt, h.cell]
  rfl

theorem Skeleton.storable (h : Skeleton b id x b') : Storable b' id :=
  Or.inr ⟨h.range.1, h.given.1, h.given.2⟩

end Skeleton

/-- **`sample_skeleton_new`** gives an id that can be stored. -/
theorem sampleSkeletonNew_spec (hb : Regular b) (c : Contents α) {startFrame endFrame : ℤ}
    (hcan : max startFrame 0 < endFrame → CanAllocate b) :
    (sampleSkeletonNew c startFrame endFrame b = .ok (none, b) ∧ endFrame ≤ max startFrame 0) ∨
    ∃ id x b', sampleSkeletonNew c startFrame endFrame b = .ok (some (b.nextAddr, id), b') ∧ Regular b' ∧
      Skeleton b id x b' := by
  rw [sampleSkeletonNew]
  obtain ⟨start, hstart⟩ : ∃ start, start = if startFrame < 0 then 0 else startFrame := ⟨_, rfl⟩
  rw [← hstart]
  dsimp only
  by_cases hend : endFrame ≤ start
  · rw [if_pos hend]
    refine Or.inl ⟨rfl, ?_⟩
    split_ifs at hstart <;> omega
  · have hframes : max startFrame 0 < endFrame := by
      split_ifs at hstart <;> omega
    obtain ⟨id, avail, this, hnew, hb₁, hlo, hhi, hfresh, hthis, havail⟩ := newId_spec hb (hcan hframes)
    obtain ⟨o, ho⟩ : ∃ o : Object α, ⟨id, c.fresh id this start endFrame⟩ = o := ⟨_, rfl⟩
    obtain ⟨hb₂, hat⟩ := allocate_spec hb₁ o
    have hentry : ∀ si, some (allocate o (b.withIds avail this)).1 = some si →
        (allocate o (b.withIds avail this)).2.idAt si = some id := by
      intro si h
      obtain rfl := Option.some.inj h
      rw [hat, ← ho]
    obtain ⟨cache, hset, hb₃, hown, hcache⟩ := setCache_spec hb₂.toSound (by omega) hhi hentry
    refine Or.inr ⟨id, c.fresh id this start endFrame, _, ?_, hb₂.withCache hb₃, ?_⟩
    · rw [if_neg hend, hnew, ok_bind]
      dsimp only
      rw [show (b.withIds avail this).thisSampleId = this from rfl, ho, hset, ok_bind]
      rfl
    · exact {
        fresh := fun hl => hl hfresh, range := ⟨hlo, hhi⟩, given := ⟨hthis, havail⟩, next := rfl, hash := rfl,
        heap := by rw [ho]; rfl, own := hown, cache := hcache }

/-- A field of a sample is set. -/
def updateInfo (si : Addr) (f : α → α) (b : Bank α) : Exec (Bank α) := do
  let o ← deref si b
  .ok { b with heap := Function.update b.heap si (some ⟨o.sampleId, f o.info⟩) }

/-- **A new sample** is filled in and stored. -/
theorem Skeleton.store {id : ℤ} {x : α} {b' : Bank α} (h : Skeleton b id x b') (hb' : Regular b') (hc : Coherent b)
    (c : Contents α) (f : α → α) :
    ∃ b₁ b₂, updateInfo b.nextAddr f b' = .ok b₁ ∧ sampleStore c b.nextAddr b₁ = .ok b₂ ∧ Regular b₂ ∧
      Created b id (c.stored (f x)) b₂ := by
  have hcell := h.cell
  obtain ⟨b₁, hb₁⟩ : ∃ b₁ : Bank α,
      { b' with heap := Function.update b'.heap b.nextAddr (some ⟨id, f x⟩) } = b₁ := ⟨_, rfl⟩
  have hreg : Regular b₁ := by
    rw [← hb₁]
    exact hb'.withHeap (hb'.toSound.update hcell rfl)
  have hcell₁ : b₁.heap b.nextAddr = some ⟨id, f x⟩ := by
    rw [← hb₁]
    exact Function.update_self ..
  have hhash : b₁.sampleHash = b.sampleHash := by
    rw [← hb₁]
    exact h.hash
  have hnone : b.sampleHash id = none := by
    by_contra hne
    exact h.fresh hne
  have hat : b₁.idAt b.nextAddr = some id := by
    rw [Bank.idAt, hcell₁]
    rfl
  have hstorable : Storable b₁ id := by
    rw [← hb₁]
    exact h.storable
  obtain ⟨b₂, hstore, hb₂, -⟩ := sampleStore_spec hreg c hat hstorable
  have heq := (sampleStore_new c hcell₁ (by rw [hhash]; exact hnone)).symm.trans hstore
  refine ⟨b₁, b₂, ?_, hstore, hb₂, ?_⟩
  · rw [updateInfo, deref, hcell]
    dsimp only
    rw [ok_bind, hb₁]
  · obtain rfl := Except.ok.inj heq
    refine ⟨h.fresh, h.range, ?_, ?_, fun n si hn => ?_⟩
    · rw [← hhash]
    · show Function.update b₁.heap b.nextAddr _ = _
      rw [← hb₁, h.heap]
      show Function.update (Function.update (Function.update b.heap b.nextAddr _) b.nextAddr _) b.nextAddr _ = _
      rw [Function.update_idem, Function.update_idem]
    · have hn' : b'.sampleCache[n]? = some (some si) := by
        rw [← hb₁] at hn
        exact hn
      show Function.update b₁.sampleHash id (some b.nextAddr) n = some si
      rw [hhash]
      have hpos := h.range.1
      by_cases hid : n = id.toNat
      · rw [hid, h.own] at hn'
        obtain rfl := Option.some.inj (Option.some.inj hn')
        rw [hid, Int.toNat_of_nonneg (by omega), Function.update_self]
      · rw [h.cache n hid] at hn'
        rw [Function.update_of_ne (by omega)]
        exact hc n si hn'

/-! ## Deleting -/

/-- The beginning of `sample_del` finds what is stored. -/
theorem findStored_live (hb : Sound b) {id : ℤ} (hlive : Live b id) :
    ∃ si o cache, findStored id b = .ok (some (si, o), b.withCache cache) ∧ Sound (b.withCache cache) ∧
      b.lookup id = some si ∧ b.heap si = some o ∧ b.idAt si = some id ∧
      ∀ i, (b.withCache cache).lookup i = b.lookup i := by
  have hhi := (hb.live_lt hlive).2.2
  obtain ⟨cache, hget, hb₁, hsame⟩ := sampleGet_spec hb (show id ≠ sampleMaxSamples by omega)
  obtain ⟨si, hsi⟩ := Option.ne_none_iff_exists'.mp (hb.lookup_live hlive)
  obtain ⟨si', hsi'⟩ := Option.ne_none_iff_exists'.mp hlive
  have hat := (hb.lookup_eq hsi).2.2
  obtain ⟨o, hderef, hheap, -⟩ := deref_of_idAt hat
  have hderef' : deref si (b.withCache cache) = .ok o := hderef
  refine ⟨si, o, cache, ?_, hb₁, hsi, hheap, hat, hsame⟩
  rw [findStored, hget, ok_bind, hsi]
  dsimp only
  rw [show (b.withCache cache).sampleHash id = some si' from hsi']
  dsimp only
  rw [hderef', ok_bind]

/-- It finds nothing where nothing is stored. -/
theorem findStored_none (hb : Sound b) {id : ℤ} (hid : id ≠ sampleMaxSamples) (hlive : ¬ Live b id) :
    ∃ cache, findStored id b = .ok (none, b.withCache cache) ∧ Sound (b.withCache cache) ∧
      ∀ i, (b.withCache cache).lookup i = b.lookup i := by
  obtain ⟨cache, hget, hb₁, hsame⟩ := sampleGet_spec hb hid
  have hhash : b.sampleHash id = none := by
    by_contra h
    exact hlive h
  refine ⟨cache, ?_, hb₁, hsame⟩
  rw [findStored, hget, ok_bind]
  cases b.lookup id with
  | none => rfl
  | some si =>
    dsimp only
    rw [show (b.withCache cache).sampleHash id = none from hhash]

/-- What `sample_del` leaves. -/
structure Dropped (b : Bank α) (id : ℤ) (si : Addr) (b' : Bank α) : Prop where
  next : b'.nextAvailNum = b.nextAvailNum + 1
  avail : b'.availNum = b.availNum.set b.nextAvailNum id
  this : b'.thisSampleId = b.thisSampleId
  hash : b'.sampleHash = Function.update b.sampleHash id none
  cache : b'.sampleCache = b.sampleCache.set id.toNat none
  heap : b'.heap = Function.update b.heap si none
  addr : b'.nextAddr = b.nextAddr

/-- **The end of `sample_del`** -/
theorem dropStored_eq (hb : Regular b) {id : ℤ} (si : Addr) (hlive : Live b id) :
    ∃ b', dropStored id si b = .ok b' ∧ Dropped b id si b' := by
  have hnext := hb.next_lt
  obtain ⟨hlo, -, hhi⟩ := hb.live_lt hlive
  have hrange : 0 ≤ id ∧ id < b.sampleCache.length := by
    rw [hb.cache_length]
    omega
  refine ⟨⟨b.thisSampleId, b.nextAvailNum + 1, b.availNum.set b.nextAvailNum id, Function.update b.sampleHash id none,
    b.sampleCache.set id.toNat none, Function.update b.heap si none, b.nextAddr⟩, ?_, ⟨rfl, rfl, rfl, rfl, rfl, rfl, rfl⟩⟩
  rw [dropStored, storeFreed, hb.avail_length, if_pos hnext, ok_bind]
  dsimp only
  rw [setCache, if_pos hrange, ok_bind]

section Dropped

variable {id : ℤ} {si : Addr} {b' : Bank α}

/-- The other samples stay where they are. -/
theorem Dropped.idAt_other (h : Dropped b id si b') (hat : b.idAt si = some id) {a : Addr} {i : ℤ}
    (ha : b.idAt a = some i) (hi : i ≠ id) : b'.heap a = b.heap a := by
  have hne : a ≠ si := by
    rintro rfl
    rw [hat] at ha
    exact hi (Option.some.inj ha).symm
  rw [h.heap, Function.update_of_ne hne]

theorem Dropped.sound (hb : Sound b) (h : Dropped b id si b') (hat : b.idAt si = some id) : Sound b' where
  cache_length := by
    rw [h.cache, List.length_set]
    exact hb.cache_length
  this_le := by
    rw [h.this]
    exact hb.this_le
  stored i a hi := by
    rw [h.hash] at hi
    by_cases heq : i = id
    · rw [heq, Function.update_self] at hi
      cases hi
    · rw [Function.update_of_ne heq] at hi
      obtain ⟨hlo, hhi, hia⟩ := hb.stored i a hi
      refine ⟨hlo, by rw [h.this]; exact hhi, ?_⟩
      rw [Bank.idAt, h.idAt_other hat hia heq]
      exact hia
  cached n a hn := by
    rw [h.cache, List.getElem?_set] at hn
    split_ifs at hn with heq hlen
    · cases hn
    · have hia := hb.cached n a hn
      rw [Bank.idAt, h.idAt_other hat hia (by omega)]
      exact hia
  unallocated a ha := by
    rw [h.addr] at ha
    rw [h.heap]
    by_cases heq : a = si
    · rw [heq, Function.update_self]
    · rw [Function.update_of_ne heq]
      exact hb.unallocated a ha

theorem Dropped.live_iff (h : Dropped b id si b') (i : ℤ) : Live b' i ↔ i ≠ id ∧ Live b i := by
  rw [Live, h.hash]
  by_cases heq : i = id
  · rw [heq, Function.update_self]
    exact ⟨fun hne => absurd rfl hne, fun hne => absurd rfl hne.1⟩
  · rw [Function.update_of_ne heq]
    exact ⟨fun hl => ⟨heq, hl⟩, And.right⟩

theorem Dropped.lookup_other (h : Dropped b id si b') (hid : 0 ≤ id) {i : ℤ} (hi : i ≠ id) :
    b'.lookup i = b.lookup i := by
  rw [Bank.lookup, Bank.lookup]
  by_cases hrange : 0 ≤ i ∧ i < sampleMaxSamples
  · rw [if_pos hrange, if_pos hrange, h.cache, h.hash, List.getElem?_set_ne (by omega), Function.update_of_ne hi]
  · rw [if_neg hrange, if_neg hrange]

theorem Dropped.coherent (h : Dropped b id si b') (hc : Coherent b) (hid : 0 ≤ id) : Coherent b' := by
  intro n a hn
  rw [h.cache, List.getElem?_set] at hn
  split_ifs at hn with heq hlen
  · cases hn
  · rw [h.hash, Function.update_of_ne (by omega)]
    exact hc n a hn

/-- What the other samples hold stays. -/
theorem Dropped.infoOf_other (hb : Sound b) (h : Dropped b id si b') (hat : b.idAt si = some id) (hid : 0 ≤ id) {k : ℤ}
    (hk : k ≠ id) : b'.infoOf k = b.infoOf k := by
  rw [Bank.infoOf, Bank.infoOf, h.lookup_other hid hk]
  cases hlook : b.lookup k with
  | none => rfl
  | some a => rw [Option.bind_some, Option.bind_some, h.idAt_other hat (hb.lookup_eq hlook).2.2 hk]

/-- The id has no sample any more. -/
theorem Dropped.lookup_self (hb : Sound b) (h : Dropped b id si b') : b'.lookup id = none := by
  rw [Bank.lookup, h.cache, h.hash, Function.update_self]
  split_ifs with hrange
  · rw [List.getElem?_set_self (by rw [hb.cache_length]; omega)]
  · rfl

theorem Dropped.infoOf_self (hb : Sound b) (h : Dropped b id si b') : b'.infoOf id = none := by
  rw [Bank.infoOf, h.lookup_self hb]
  rfl

/-- The id is free, and no other free id is the same. -/
theorem Dropped.regular (hb : Regular b) (h : Dropped b id si b') (hlive : Live b id) (hat : b.idAt si = some id)
    (hnext : b.nextAvailNum + 1 < sampleMaxSamples) : Regular b' where
  toSound := h.sound hb.toSound hat
  avail_length := by
    rw [h.avail, List.length_set]
    exact hb.avail_length
  next_lt := by
    rw [h.next]
    exact hnext
  this_nonneg := by
    rw [h.this]
    exact hb.this_nonneg
  freed n i hn hi := by
    obtain ⟨hlo, hhi, -⟩ := hb.live_lt hlive
    rw [h.avail, List.getElem?_set] at hn
    rw [h.next, h.this, h.hash]
    split_ifs at hn with heq hlen
    · obtain rfl := Option.some.inj hn
      exact ⟨by omega, hlo, hhi, Function.update_self ..⟩
    · obtain ⟨h₁, h₂, h₃, h₄⟩ := hb.freed n i hn hi
      refine ⟨Nat.lt_succ_of_lt h₁, h₂, h₃, ?_⟩
      by_cases hid : i = id
      · rw [hid, Function.update_self]
      · rw [Function.update_of_ne hid, h₄]
  freed_once m n i hm hn hi := by
    have hpos := (hb.live_lt hlive).1
    have hnone : ∀ k : ℕ, b.availNum[k]? ≠ some id := by
      intro k hk
      exact hlive (hb.freed k id hk (by omega)).2.2.2
    rw [h.avail, List.getElem?_set] at hm hn
    split_ifs at hm hn with hm₁ hm₂ hn₁ hn₂ hn₃
    · omega
    · obtain rfl := Option.some.inj hm
      exact absurd hn (hnone n)
    · obtain rfl := Option.some.inj hn
      exact absurd hm (hnone m)
    · exact hb.freed_once m n i hm hn hi

end Dropped

/-- **`sample_del`**, of a stored sample. -/
theorem sampleDel_live (hb : Regular b) {id : ℤ} (hlive : Live b id) :
    ∃ si cache b', sampleDel id b = .ok (true, b') ∧ Sound (b.withCache cache) ∧ Dropped (b.withCache cache) id si b' ∧
      b.idAt si = some id ∧ ∀ i, (b.withCache cache).lookup i = b.lookup i := by
  obtain ⟨si, o, cache, hfind, hb₁, -, -, hat, hsame⟩ := findStored_live hb.toSound hlive
  have hlive₁ : Live (b.withCache cache) id := hlive
  obtain ⟨b', hdrop, hleft⟩ := dropStored_eq (hb.withCache hb₁) si hlive₁
  refine ⟨si, cache, b', ?_, hb₁, hleft, hat, hsame⟩
  rw [sampleDel, hfind, ok_bind]
  dsimp only
  rw [hdrop, ok_bind]

/-- **`sample_del`** -/
theorem sampleDel_spec (hb : Regular b) {id : ℤ} (hid : id ≠ sampleMaxSamples)
    (hnext : Live b id → b.nextAvailNum + 1 < sampleMaxSamples) :
    ∃ r b', sampleDel id b = .ok (r, b') ∧ Regular b' ∧
      (Live b id → b'.nextAvailNum = b.nextAvailNum + 1 ∧ b'.sampleHash = Function.update b.sampleHash id none) := by
  by_cases hlive : Live b id
  · obtain ⟨si, cache, b', hdel, hb₁, hleft, hat, -⟩ := sampleDel_live hb hlive
    have hlive₁ : Live (b.withCache cache) id := hlive
    exact ⟨true, b', hdel, hleft.regular (hb.withCache hb₁) hlive₁ hat (hnext hlive), fun _ => ⟨hleft.next, hleft.hash⟩⟩
  · obtain ⟨cache, hfind, hb₁, -⟩ := findStored_none hb.toSound hid hlive
    exact ⟨false, b.withCache cache, by rw [sampleDel, hfind, ok_bind], hb.withCache hb₁, fun h => absurd h hlive⟩

/-- How many samples of a list of ids there are. -/
def liveIn (b : Bank α) (is : List ℤ) : ℕ := is.countP fun i => (b.sampleHash i).isSome

/-- The loop of `sample_del_all` deletes what there is, while there is room for the ids. -/
theorem delLoop_spec :
    ∀ (is : List ℤ) {b : Bank α}, Regular b → b.nextAvailNum + liveIn b is < sampleMaxSamples →
      ∃ b', delLoop is b = .ok b' ∧ Regular b' := by
  intro is
  induction is with
  | nil => exact fun hb _ => ⟨_, rfl, hb⟩
  | cons i is ih =>
    intro b hb hroom
    obtain ⟨there, cache, hexists, hsound, hiff, -⟩ := sampleExists_spec hb.toSound i
    have hb₁ : Regular (b.withCache cache) := hb.withCache hsound
    rw [delLoop, hexists, ok_bind]
    cases there with
    | false =>
      have hle : liveIn b is ≤ liveIn b (i :: is) := List.Sublist.countP_le (List.sublist_cons_self i is)
      exact ih hb₁ (show b.nextAvailNum + liveIn b is < sampleMaxSamples by omega)
    | true =>
      have hlive : Live b i := hiff.mp rfl
      have hlt := (hb.live_lt hlive).2.2
      have hcount : liveIn b (i :: is) = liveIn b is + 1 := by
        have hsome : (b.sampleHash i).isSome = true := Option.isSome_iff_ne_none.mpr hlive
        exact List.countP_cons_of_pos hsome
      have hnext : Live (b.withCache cache) i → (b.withCache cache).nextAvailNum + 1 < sampleMaxSamples :=
        fun _ => show b.nextAvailNum + 1 < sampleMaxSamples by omega
      obtain ⟨r, b', hdel, hb', hleft⟩ := sampleDel_spec hb₁ (show i ≠ sampleMaxSamples by omega) hnext
      obtain ⟨hnext', hhash⟩ := hleft hlive
      have hle : liveIn b' is ≤ liveIn b is := by
        refine List.countP_mono_left fun k _ hk => ?_
        rw [hhash] at hk
        by_cases heq : k = i
        · rw [heq, Function.update_self] at hk
          cases hk
        · rw [Function.update_of_ne heq] at hk
          exact hk
      have hnow : b'.nextAvailNum = b.nextAvailNum + 1 := hnext'
      obtain ⟨b'', hrest, hb''⟩ := ih hb' (by omega)
      refine ⟨b'', ?_, hb''⟩
      show (do
        let (_, b) ← sampleDel i (b.withCache cache)
        delLoop is b) = _
      rw [hdel, ok_bind]
      exact hrest

/-- **`sample_del_all`** leaves an empty bank. -/
theorem sampleDelAll_spec (hb : Regular b)
    (hroom : b.nextAvailNum + liveIn b (idsUpTo b.thisSampleId) < sampleMaxSamples) :
    ∃ b', sampleDelAll b = .ok b' ∧ Regular b' := by
  obtain ⟨b₁, hloop, hb₁⟩ := delLoop_spec (idsUpTo b.thisSampleId) hb hroom
  have hzero : ∀ (n : ℕ) (id : ℤ), (b₁.availNum.map fun _ => (0 : ℤ))[n]? = some id → id = 0 := by
    intro n id hn
    rw [List.getElem?_map] at hn
    obtain ⟨_, -, rfl⟩ := Option.map_eq_some_iff.mp hn
    rfl
  refine ⟨_, by rw [sampleDelAll, hloop, ok_bind], ?_⟩
  exact {
    avail_length := List.length_map .. |>.trans hb₁.avail_length, cache_length := hb₁.cache_length,
    next_lt := show 0 < sampleMaxSamples by decide,
    this_nonneg := le_rfl, this_le := show (0 : ℤ) ≤ sampleMaxSamples by decide,
    freed := fun n id hn hid => absurd (hzero n id hn) hid,
    freed_once := fun m n id hm _ hid => absurd (hzero m id hm) hid,
    stored := fun id si h => (by cases h),
    cached := hb₁.cached, unallocated := hb₁.unallocated }

/-! ## Runs -/

/-- When the bank can take the call. -/
def HasRoom (b : Bank α) : BankOp → Prop
  | .skeletonNew startFrame endFrame => max startFrame 0 < endFrame → CanAllocate b
  | .store skel => ∃ id, b.idAt skel = some id ∧ Storable b id
  | .copy id => Live b id → CanAllocate b
  | .del id => id ≠ sampleMaxSamples ∧ (Live b id → b.nextAvailNum + 1 < sampleMaxSamples)
  | .delAll => b.nextAvailNum + liveIn b (idsUpTo b.thisSampleId) < sampleMaxSamples

/-- A created sample has an id in range that is not the id of a live sample, and there is room for one more freed id. -/
def FreshId (b : Bank α) (_ : BankOp) (r : Option ℤ) (b' : Bank α) : Prop :=
  b'.nextAvailNum < sampleMaxSamples ∧ ∀ id, r = some id → 1 ≤ id ∧ id < sampleMaxSamples ∧ ¬ Live b id

/-- What one call keeps. -/
theorem bankStep_spec (c : Contents α) (hb : Regular b) (o : BankOp) (hroom : HasRoom b o) :
    ∃ r b', bankStep c b o = .ok (r, b') ∧ Regular b' ∧ FreshId b o r b' := by
  cases o with
  | skeletonNew startFrame endFrame =>
    rcases sampleSkeletonNew_spec hb c hroom with ⟨hnew, -⟩ | ⟨id, x, b', hnew, hb', hskel⟩
    · exact ⟨none, b, by rw [bankStep, hnew, ok_bind]; rfl, hb, hb.next_lt, fun id h => (by cases h)⟩
    · refine ⟨some id, b', by rw [bankStep, hnew, ok_bind]; rfl, hb', hb'.next_lt, fun i h => ?_⟩
      obtain rfl := Option.some.inj h
      exact ⟨hskel.range.1, hskel.range.2, hskel.fresh⟩
  | store skel =>
    obtain ⟨id, hat, hstorable⟩ := hroom
    obtain ⟨b', hstore, hb', -⟩ := sampleStore_spec hb c hat hstorable
    exact ⟨none, b', by rw [bankStep, hstore, ok_bind], hb', hb'.next_lt, fun id h => (by cases h)⟩
  | copy id =>
    obtain ⟨r, b', hcopy, hb', hid⟩ := sampleCopy_spec hb c hroom
    exact ⟨r, b', hcopy, hb', hb'.next_lt, hid⟩
  | del id =>
    obtain ⟨r, b', hdel, hb', -⟩ := sampleDel_spec hb hroom.1 hroom.2
    exact ⟨none, b', by rw [bankStep, hdel, ok_bind], hb', hb'.next_lt, fun id h => (by cases h)⟩
  | delAll =>
    obtain ⟨b', hdel, hb'⟩ := sampleDelAll_spec hb hroom
    exact ⟨none, b', by rw [bankStep, hdel, ok_bind], hb', hb'.next_lt, fun id h => (by cases h)⟩

/-- **Ids are fresh and in range**, in every run of calls that the bank has room for. -/
theorem ids_of_run (c : Contents α) (ops : List BankOp) (h : RunMeets (bankStep c) HasRoom sampleInit ops) :
    RunShows (bankStep c) FreshId sampleInit ops :=
  runOps_shows (fun _ o hb hroom => bankStep_spec c hb o hroom) ops sampleInit regular_sampleInit h

/-- The contents of samples that hold nothing but their ids. -/
def bareContents : Contents Unit where
  fresh _ _ _ _ := ()
  stored x := x
  copied x := x

/-- A sample is created, stored and deleted. -/
theorem created_stored_deleted :
    RunShows (bankStep bareContents) FreshId sampleInit [.skeletonNew 0 10, .store 0, .del 1] := by
  refine ids_of_run bareContents _ ⟨fun _ => Or.inr (by decide), fun r s hnew => ?_⟩
  have hskeleton := @sampleSkeletonNew_spec Unit sampleInit regular_sampleInit bareContents 0 10 fun _ => Or.inr (by decide)
  rcases hskeleton with ⟨-, hfail⟩ | ⟨id, x, b, hx, hb, hskel⟩
  · exact absurd hfail (by decide)
  rw [bankStep, hx, ok_bind] at hnew
  obtain ⟨-, rfl⟩ := Prod.mk.inj (Except.ok.inj hnew)
  have hat₀ : b.idAt 0 = some id := hskel.idAt
  have hstorable := hskel.storable
  refine ⟨⟨id, hat₀, hstorable⟩, fun r s hstore => ?_⟩
  obtain ⟨b', hb', -, hnext'⟩ := sampleStore_spec hb bareContents hat₀ hstorable
  rw [bankStep, hb', ok_bind] at hstore
  obtain ⟨-, rfl⟩ := Prod.mk.inj (Except.ok.inj hstore)
  refine ⟨⟨by decide, fun _ => ?_⟩, fun _ _ _ => trivial⟩
  rw [hnext', hskel.next]
  decide

/-- While no id is free, creating samples comes to the end of `sample_cache`. -/
theorem skeletons_run_out (c : Contents α) :
    ∀ (n : ℕ) {b : Bank α}, b.availNum = List.replicate sampleMaxSamples 0 → b.nextAvailNum = 0 →
      b.sampleCache.length = sampleMaxSamples → 1 ≤ b.thisSampleId → sampleMaxSamples < b.thisSampleId + n →
      b.thisSampleId ≤ sampleMaxSamples →
      ¬ RunShows (bankStep c) FreshId b (List.replicate n (.skeletonNew 0 1)) := by
  intro n
  induction n with
  | zero => exact fun _ _ _ _ hlt hle _ => by omega
  | succ n ih =>
    intro b havail hnext hcache hpos hlt hle hrun
    have hfreed : findFreed b.availNum (b.nextAvailNum + 1) 0 = .ok none := by
      rw [havail, hnext]
      rfl
    have hnew : newId b = .ok (b.thisSampleId, b.withIds b.availNum (b.thisSampleId + 1)) := by
      rw [newId, hfreed, ok_bind]
      dsimp only
      rw [if_neg (by omega)]
      rfl
    obtain ⟨b₁, hb₁⟩ : ∃ b₁, (allocate ⟨b.thisSampleId, c.fresh b.thisSampleId (b.thisSampleId + 1) 0 1⟩
        (b.withIds b.availNum (b.thisSampleId + 1))).2 = b₁ := ⟨_, rfl⟩
    have hstep : bankStep c b (.skeletonNew 0 1) = (do
        let b₂ ← setCache b.thisSampleId (some b.nextAddr) b₁
        .ok (some b.thisSampleId, b₂)) := by
      rw [bankStep, sampleSkeletonNew, if_neg (by decide), if_neg (by decide), hnew, ok_bind]
      dsimp only
      rw [show (b.withIds b.availNum (b.thisSampleId + 1)).thisSampleId = b.thisSampleId + 1 from rfl, hb₁]
      rw [show (allocate ⟨b.thisSampleId, c.fresh b.thisSampleId (b.thisSampleId + 1) 0 1⟩
        (b.withIds b.availNum (b.thisSampleId + 1))).1 = b.nextAddr from rfl]
      cases setCache b.thisSampleId (some b.nextAddr) b₁ with
      | error f => rfl
      | ok b₂ => rfl
    have hlen : b₁.sampleCache.length = sampleMaxSamples := by
      rw [← hb₁]
      exact hcache
    obtain ⟨r, b', hb', -, hrest⟩ := hrun
    rw [hstep, setCache, hlen] at hb'
    by_cases hroom : b.thisSampleId < sampleMaxSamples
    · rw [if_pos ⟨by omega, hroom⟩, ok_bind] at hb'
      obtain ⟨-, rfl⟩ := Prod.mk.inj (Except.ok.inj hb')
      refine ih ?_ ?_ ?_ ?_ ?_ ?_ hrest
      · rw [← hb₁]
        exact havail
      · rw [← hb₁]
        exact hnext
      · exact List.length_set.trans hlen
      · rw [← hb₁]
        show 1 ≤ b.thisSampleId + 1
        omega
      · rw [← hb₁]
        show (sampleMaxSamples : ℤ) < b.thisSampleId + 1 + n
        omega
      · rw [← hb₁]
        exact hroom
    · rw [if_neg fun h => hroom h.2, error_bind] at hb'
      cases hb'

/-- The last of 16384 samples gets an id that `sample_cache` has no place for. -/
theorem ids_run_out :
    ¬ RunShows (bankStep bareContents) FreshId sampleInit (List.replicate 16384 (.skeletonNew 0 1)) :=
  skeletons_run_out bareContents 16384 rfl rfl List.length_replicate (by decide) (by decide) (by decide)

end Invariant

/-! ## A bank of one sample -/

section Single

variable {α : Type}

/-- The bank with one sample, of id 1. -/
def single (x : α) : Bank α where
  thisSampleId := 2
  nextAvailNum := 0
  availNum := List.replicate sampleMaxSamples 0
  sampleHash := Function.update (fun _ => none) 1 (some 0)
  sampleCache := List.replicate sampleMaxSamples none
  heap := Function.update (fun _ => none) 0 (some ⟨1, x⟩)
  nextAddr := 1

theorem regular_single (x : α) : Regular (single x) where
  avail_length := List.length_replicate
  cache_length := List.length_replicate
  next_lt := show 0 < sampleMaxSamples by decide
  this_nonneg := show (0 : ℤ) ≤ 2 by decide
  this_le := show (2 : ℤ) ≤ sampleMaxSamples by decide
  freed n id h hid := absurd (List.eq_of_mem_replicate (List.mem_of_getElem? h)) hid
  freed_once m n id h _ hid := absurd (List.eq_of_mem_replicate (List.mem_of_getElem? h)) hid
  stored id si h := by
    have h' : Function.update (fun _ => none) 1 (some 0) id = some si := h
    by_cases hid : id = 1
    · subst hid
      rw [Function.update_self] at h'
      obtain rfl := Option.some.inj h'
      exact ⟨le_rfl, show (1 : ℤ) < 2 by decide, rfl⟩
    · rw [Function.update_of_ne hid] at h'
      cases h'
  cached n si h := by cases List.eq_of_mem_replicate (List.mem_of_getElem? h)
  unallocated si h := by
    have hle : 1 ≤ si := h
    show Function.update (fun _ => none) 0 (some (⟨1, x⟩ : Object α)) si = none
    rw [Function.update_of_ne (Nat.ne_of_gt hle)]

theorem coherent_single (x : α) : Coherent (single x) := by
  intro n si h
  cases List.eq_of_mem_replicate (List.mem_of_getElem? h)

end Single

end Veejay.Samples
