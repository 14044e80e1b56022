import Veejay.Sample.Bank

/-!
# The registry of streams

Streams are known by their ids.  A new stream gets the id of a deleted one, or the next number; `TagHash` holds the
streams that were stored, and `tag_cache` the ones that were looked up (`libstream/vj-tag.c`).  The stack of freed
ids is never made shorter, and the next number is counted up for every stream: both arrays come to an end.

* `Registry` — the variables of the module and the allocated streams, over what a stream holds;
* `vjTagGet`, `vjTagNew`, `vjTagDel` — the functions, with the outcomes of what may fail as `Chance`;
* `Live`, `note` — the streams that a client was given and did not delete;
* `Regular` — the invariant that ties the registry to them;
* `Room` — when a call stays inside the arrays;
* `streams_of_run` — **the registry is the set of the live streams**, in runs that have room.
-/

namespace Veejay.Streams

open CLib
open Samples (Addr sampleMaxSamples findFreed)

/-- `VJ_TAG_TYPE_…` -/
inductive SourceType where
  | v4l
  | mcast
  | net
  | dv1394
  | picture
  | cali
  | yuv4mpeg
  | generator
  | color
  | other (n : ℤ)
  deriving DecidableEq, Repr

/-- The types with a connection that is made only once. -/
def SourceType.isNet : SourceType → Bool
  | .mcast => true
  | .net => true
  | _ => false

/-- The types whose stream is freed when it cannot be initialised. -/
def SourceType.frees : SourceType → Bool
  | .yuv4mpeg => true
  | .generator => true
  | _ => false

/-- `vj_tag`: its id, its type, and what else it holds. -/
structure Stream (α : Type) where
  id : ℤ
  sourceType : SourceType
  info : α

/-- The variables of `vj-tag.c`, and the streams in memory. -/
structure Registry (α : Type) where
  thisTagId : ℤ
  nextAvailTag : ℕ
  availTag : List ℤ
  tagHash : ℤ → Option Addr
  tagCache : List (Option Addr)
  heap : Addr → Option (Stream α)
  nextAddr : Addr

/-- What may fail in a call: an allocation, a node of the table, or the initialisation of the stream. -/
structure Chance where
  tagMemory : Bool
  nameMemory : Bool
  reclaimNode : Bool
  initialised : Bool
  putNode : Bool
  deriving DecidableEq, Repr

/-- Nothing fails. -/
def Chance.sure (c : Chance) : Bool := c.tagMemory && c.nameMemory && c.reclaimNode && c.initialised && c.putNode

section Functions

variable {α : Type}

/-- `vj_tag_init` -/
def vjTagInit : Registry α where
  thisTagId := 0
  nextAvailTag := 0
  availTag := List.replicate sampleMaxSamples 0
  tagHash := fun _ => none
  tagCache := List.replicate sampleMaxSamples none
  heap := fun _ => none
  nextAddr := 0

/-- `tag_cache[id] = tag` -/
def setCache (id : ℤ) (a : Option Addr) (r : Registry α) : Exec (Registry α) :=
  if 0 ≤ id ∧ id < r.tagCache.length then .ok { r with tagCache := r.tagCache.set id.toNat a }
  else .error .overrun

/-- `vj_tag_get`, where the cache has no stream. -/
def getStored (id : ℤ) (r : Registry α) : Exec (Option Addr × Registry α) :=
  match r.tagHash id with
  | none => .ok (none, r)
  | some tag => do
    let r ← setCache id (some tag) r
    .ok (some tag, r)

/-- `vj_tag_get` -/
def vjTagGet (id : ℤ) (r : Registry α) : Exec (Option Addr × Registry α) :=
  if id ≤ 0 ∨ id > r.thisTagId then .ok (none, r)
  else
    match r.tagCache[id.toNat]? with
    | none => .error .outOfBounds
    | some (some tag) => .ok (some tag, r)
    | some none => getStored id r

/-- A stream is read. -/
def deref (tag : Addr) (r : Registry α) : Exec (Stream α) :=
  match r.heap tag with
  | none => .error .useAfterFree
  | some s => .ok s

/-- Whether the stream that was looked up is a connection to the same source. -/
def sameSource (same : α → Bool) (found : Option Addr) (r : Registry α) : Exec Bool :=
  match found with
  | none => .ok false
  | some tag => do
    let s ← deref tag r
    .ok (s.sourceType.isNet && same s.info)

/-- The loop of `net_already_opened`; `same` compares names and channels. -/
def openedLoop (same : α → Bool) : List ℤ → Registry α → Exec (Bool × Registry α)
  | [], r => .ok (false, r)
  | i :: is, r => do
    let found ← vjTagGet i r
    let hit ← sameSource same found.1 found.2
    if hit then .ok (true, found.2) else openedLoop same is found.2

/-- The ids that `for (i = 1; i < n; i++)` visits. -/
def idsBelow (n : ℤ) : List ℤ := (List.range (n - 1).toNat).map fun k : ℕ => (k : ℤ) + 1

/-- `net_already_opened`, for the types that are asked for it. -/
def netAlreadyOpened (type : SourceType) (same : α → Bool) (r : Registry α) : Exec (Bool × Registry α) :=
  if type.isNet then openedLoop same (idsBelow r.thisTagId) r else .ok (false, r)

/-- A stream is allocated. -/
def allocate (s : Stream α) (r : Registry α) : Addr × Registry α :=
  (r.nextAddr, { r with heap := Function.update r.heap r.nextAddr (some s), nextAddr := r.nextAddr + 1 })

/-- The id of a new stream: a freed one, or the next number; none if there is no node for a freed one.  The key of
that node was read before the id was known: it is 0. -/
def reclaim (node : Bool) (tag : Addr) (r : Registry α) : Exec (Option ℤ × Registry α) := do
  match ← findFreed r.availTag (r.nextAvailTag + 1) 0 with
  | none => .ok (some r.thisTagId, r)
  | some (n, id) =>
    if node then
      .ok (some id, { r with
        availTag := r.availTag.set n 0
        tagHash := Function.update r.tagHash 0 (some tag) })
    else .ok (none, r)

/-- `vj_tag_put`, and the end of `vj_tag_new`. -/
def register (node : Bool) (id : ℤ) (tag : Addr) (r : Registry α) : Exec (Option (ℤ × Addr) × Registry α) :=
  if node then do
    let there ← vjTagGet id r
    let r := there.2
    let r := if there.1.isSome then r else { r with tagHash := Function.update r.tagHash id (some tag) }
    let r ← setCache id (some tag) { r with thisTagId := r.thisTagId + 1 }
    .ok (some (id, tag), r)
  else .ok (none, r)

/-- The initialisation of a stream that has its id, and what comes after it. -/
def initialise (type : SourceType) (info : α) (c : Chance) (id : ℤ) (tag : Addr) (r : Registry α) :
    Exec (Option (ℤ × Addr) × Registry α) :=
  let r := { r with heap := Function.update r.heap tag (some ⟨id, type, info⟩) }
  if c.initialised then register c.putNode id tag r
  else .ok (none, if type.frees then { r with heap := Function.update r.heap tag none } else r)

/-- `vj_tag_new`, from the allocation of the stream on. -/
def create (type : SourceType) (info : α) (c : Chance) (r : Registry α) :
    Exec (Option (ℤ × Addr) × Registry α) :=
  if c.tagMemory then
    let (tag, r) := allocate ⟨0, .other 0, info⟩ r
    if c.nameMemory then do
      match ← reclaim c.reclaimNode tag r with
      | (none, r) => .ok (none, r)
      | (some id, r) => initialise type info c id tag r
    else .ok (none, r)
  else .ok (none, r)

/-- The first number is 1. -/
def firstId (r : Registry α) : Registry α := if r.thisTagId = 0 then { r with thisTagId := 1 } else r

/-- `vj_tag_new`: the id and the stream, or none where it returns -1. -/
def vjTagNew (same : α → α → Bool) (type : SourceType) (info : α) (c : Chance) (r : Registry α) :
    Exec (Option (ℤ × Addr) × Registry α) := do
  let (opened, r) ← netAlreadyOpened type (same info) (firstId r)
  if opened then .ok (none, r) else create type info c r

/-- `avail_tag[next_avail_tag] = id; next_avail_tag++` -/
def storeFreed (id : ℤ) (r : Registry α) : Exec (Registry α) :=
  if r.nextAvailTag < r.availTag.length then
    .ok { r with availTag := r.availTag.set r.nextAvailTag id, nextAvailTag := r.nextAvailTag + 1 }
  else .error .overrun

/-- `vj_tag_del`; what the stream holds goes with it. -/
def vjTagDel (id : ℤ) (r : Registry α) : Exec (Bool × Registry α) := do
  match ← vjTagGet id r with
  | (none, r) => .ok (false, r)
  | (some tag, r) => do
    let s ← deref tag r
    let r := { r with tagHash := Function.update r.tagHash s.id none, heap := Function.update r.heap tag none }
    let r ← storeFreed id r
    let r ← setCache id none r
    .ok (true, r)

end Functions

/-! ## Calls -/

/-- A call of a client. -/
inductive Op (α : Type) where
  | new (type : SourceType) (info : α) (c : Chance)
  | del (id : ℤ)
  | get (id : ℤ)

/-- The answer to a call: a new stream with its id, or a failure; whether a stream was deleted; the stream found. -/
inductive Answer where
  | created (made : Option (ℤ × Addr))
  | deleted (done : Bool)
  | found (tag : Option Addr)
  deriving DecidableEq, Repr

/-- The streams that were created and not deleted, by their ids. -/
abbrev Live := ℤ → Option Addr

/-- What a client knows after one more answer. -/
def note {α : Type} (g : Live) : Op α → Answer → Live
  | .new _ _ _, .created (some (id, tag)) => Function.update g id (some tag)
  | .del id, .deleted true => Function.update g id none
  | _, _ => g

/-- The registry takes a call. -/
def call {α : Type} (same : α → α → Bool) (r : Registry α) : Op α → Exec (Answer × Registry α)
  | .new type info c => do
    let (made, r) ← vjTagNew same type info c r
    .ok (.created made, r)
  | .del id => do
    let (done, r) ← vjTagDel id r
    .ok (.deleted done, r)
  | .get id => do
    let (tag, r) ← vjTagGet id r
    .ok (.found tag, r)

/-- A call, and what the client knows of it. -/
def step {α : Type} (same : α → α → Bool) (st : Registry α × Live) (o : Op α) :
    Exec (Answer × (Registry α × Live)) := do
  let (a, r) ← call same st.1 o
  .ok (a, (r, note st.2 o a))

/-! ## The invariant -/

section Invariant

variable {α : Type} {r r' : Registry α} {g : Live}

/-- The registry holds the live streams; a freed id belongs to none of them, and is freed once. -/
structure Regular (r : Registry α) (g : Live) : Prop where
  cache_length : r.tagCache.length = sampleMaxSamples
  avail_length : r.availTag.length = sampleMaxSamples
  next_le : r.nextAvailTag ≤ sampleMaxSamples
  this_nonneg : 0 ≤ r.thisTagId
  live : ∀ id tag, g id = some tag → 1 ≤ id ∧ id < r.thisTagId ∧ id < sampleMaxSamples ∧
    ∃ s, r.heap tag = some s ∧ s.id = id
  stored : ∀ id, id ≠ 0 → r.tagHash id = g id
  cached : ∀ (n : ℕ) (tag : Addr), r.tagCache[n]? = some (some tag) → g n = some tag
  freed : ∀ (n : ℕ) (id : ℤ), r.availTag[n]? = some id → id ≠ 0 →
    n < r.nextAvailTag ∧ 1 ≤ id ∧ id < r.thisTagId ∧ id < sampleMaxSamples ∧ g id = none
  freed_once : ∀ (m n : ℕ) (id : ℤ), r.availTag[m]? = some id → r.availTag[n]? = some id → id ≠ 0 → m = n
  unallocated : ∀ a, r.nextAddr ≤ a → r.heap a = none

theorem regular_init : Regular (vjTagInit : Registry α) fun _ => none where
  cache_length := List.length_replicate
  avail_length := List.length_replicate
  next_le := Nat.zero_le _
  this_nonneg := le_rfl
  live id tag h := by cases h
  stored id _ := rfl
  cached n tag h := by cases List.eq_of_mem_replicate (List.mem_of_getElem? h)
  freed n id h hid := absurd (List.eq_of_mem_replicate (List.mem_of_getElem? h)) hid
  freed_once m n id h _ hid := absurd (List.eq_of_mem_replicate (List.mem_of_getElem? h)) hid
  unallocated _ _ := rfl

/-- No stream is live under an id outside the numbers that were given. -/
theorem Regular.not_live (h : Regular r g) {id : ℤ} (hid : id ≤ 0 ∨ r.thisTagId ≤ id) : g id = none := by
  cases hg : g id with
  | none => rfl
  | some tag =>
    obtain ⟨hlo, hhi, -⟩ := h.live id tag hg
    omega

/-- What is not allocated yet belongs to no stream. -/
theorem Regular.ne_next (h : Regular r g) {id : ℤ} {tag : Addr} (hg : g id = some tag) : tag ≠ r.nextAddr := by
  rintro rfl
  obtain ⟨-, -, -, s, hs, -⟩ := h.live id _ hg
  rw [h.unallocated _ le_rfl] at hs
  cases hs

/-- The live streams are what they were, after a call that creates and deletes none. -/
structure Same (r r' : Registry α) (g : Live) : Prop where
  regular : Regular r' g
  intact : ∀ id tag, g id = some tag → r'.heap tag = r.heap tag

theorem Same.refl (h : Regular r g) : Same r r g := ⟨h, fun _ _ _ => rfl⟩

theorem Same.trans {r'' : Registry α} (h : Same r r' g) (h' : Same r' r'' g) : Same r r'' g :=
  ⟨h'.regular, fun id tag hg => (h'.intact id tag hg).trans (h.intact id tag hg)⟩

/-- The registry with another cache. -/
def Registry.withCache (r : Registry α) (cache : List (Option Addr)) : Registry α := { r with tagCache := cache }

theorem Regular.withCache (h : Regular r g) {cache : List (Option Addr)} (hlen : cache.length = sampleMaxSamples)
    (hcached : ∀ (n : ℕ) (tag : Addr), cache[n]? = some (some tag) → g n = some tag) :
    Regular (r.withCache cache) g :=
  { h with cache_length := hlen, cached := hcached }

/-- A stream is written to the cache under the id that it has. -/
theorem setCache_spec (h : Regular r g) {id : ℤ} (hlo : 0 ≤ id) (hhi : id < sampleMaxSamples) {a : Option Addr}
    (ha : ∀ tag, a = some tag → g id = some tag) :
    ∃ cache, setCache id a r = .ok (r.withCache cache) ∧ Regular (r.withCache cache) g := by
  have hlen := h.cache_length
  refine ⟨r.tagCache.set id.toNat a, if_pos ⟨hlo, by omega⟩, h.withCache (by rw [List.length_set, hlen]) ?_⟩
  intro n tag hn
  rw [List.getElem?_set] at hn
  split_ifs at hn with hid hlt
  · have hn' : (n : ℤ) = id := by rw [← hid, Int.toNat_of_nonneg hlo]
    rw [hn']
    exact ha tag (Option.some.inj hn)
  · exact h.cached n tag hn

/-! ## Looking streams up -/

/-- The cache has a place for this id, or is not looked at. -/
def Readable (r : Registry α) (id : ℤ) : Prop := id ≤ 0 ∨ r.thisTagId < id ∨ id < sampleMaxSamples

/-- **`vj_tag_get`** finds the live stream of this id. -/
theorem vjTagGet_spec (h : Regular r g) {id : ℤ} (hid : Readable r id) :
    ∃ cache, vjTagGet id r = .ok (g id, r.withCache cache) ∧ Regular (r.withCache cache) g := by
  unfold vjTagGet
  by_cases hout : id ≤ 0 ∨ id > r.thisTagId
  · rw [if_pos hout, h.not_live (by omega)]
    exact ⟨r.tagCache, rfl, h⟩
  · have hrange : 0 < id ∧ id < sampleMaxSamples := by
      unfold Readable at hid
      omega
    have hlen := h.cache_length
    have hlt : id.toNat < r.tagCache.length := by omega
    have hcast : ((id.toNat : ℕ) : ℤ) = id := Int.toNat_of_nonneg hrange.1.le
    rw [if_neg hout, List.getElem?_eq_getElem hlt]
    cases hcell : r.tagCache[id.toNat] with
    | some tag =>
      have hg := h.cached id.toNat tag (by rw [List.getElem?_eq_getElem hlt, hcell])
      rw [hcast] at hg
      exact ⟨r.tagCache, by rw [hg]; rfl, h⟩
    | none =>
      have hhash := h.stored id (by omega)
      dsimp only
      unfold getStored
      rw [hhash]
      cases hg : g id with
      | none => exact ⟨r.tagCache, rfl, h⟩
      | some tag =>
        obtain ⟨cache, hset, hr⟩ := @setCache_spec α r g h id hrange.1.le hrange.2 (some tag)
          fun t ht => by rw [hg, ht]
        dsimp only
        exact ⟨cache, by rw [hset, ok_bind], hr⟩

/-! ## Connections -/

/-- The live stream of an id is a connection to the same source. -/
def Hit (same : α → Bool) (r : Registry α) (g : Live) (id : ℤ) : Prop :=
  ∃ tag s, g id = some tag ∧ r.heap tag = some s ∧ (s.sourceType.isNet && same s.info) = true

theorem sameSource_spec {same : α → Bool} (h : Regular r g) (id : ℤ) :
    ∃ hit, sameSource same (g id) r = .ok hit ∧ (hit = true ↔ Hit same r g id) := by
  unfold Hit
  cases hg : g id with
  | none => exact ⟨false, rfl, ⟨fun h => (by cases h), fun ⟨_, _, h, _⟩ => (by cases h)⟩⟩
  | some tag =>
    obtain ⟨-, -, -, s, hs, -⟩ := h.live id tag hg
    refine ⟨s.sourceType.isNet && same s.info, ?_, fun hhit => ⟨tag, s, rfl, hs, hhit⟩, ?_⟩
    · rw [sameSource]
      rw [deref, hs]
      rfl
    · rintro ⟨tag', s', htag, hs', hhit⟩
      obtain rfl := Option.some.inj htag
      obtain rfl := Option.some.inj (hs.symm.trans hs')
      exact hhit

/-- The loop over ids that the cache has places for. -/
theorem openedLoop_spec {same : α → Bool} :
    ∀ (is : List ℤ) {r : Registry α}, Regular r g → (∀ i ∈ is, i < (sampleMaxSamples : ℤ)) →
      ∃ opened cache, openedLoop same is r = .ok (opened, r.withCache cache) ∧ Regular (r.withCache cache) g ∧
        (opened = true ↔ ∃ i ∈ is, Hit same r g i) := by
  intro is
  induction is with
  | nil =>
    exact fun {r} h _ => ⟨false, r.tagCache, rfl, h, ⟨fun h => (by cases h), fun ⟨_, hi, _⟩ => (by cases hi)⟩⟩
  | cons i is ih =>
    intro r h hsmall
    obtain ⟨cache, hget, h₁⟩ := @vjTagGet_spec _ _ _ h i (Or.inr (Or.inr (hsmall i List.mem_cons_self)))
    obtain ⟨hit, hsame, hiff⟩ := @sameSource_spec _ _ _ same h₁ i
    rw [openedLoop, hget, ok_bind]
    dsimp only
    rw [hsame, ok_bind]
    cases hit with
    | true => exact ⟨true, cache, rfl, h₁, ⟨fun _ => ⟨i, List.mem_cons_self, hiff.mp rfl⟩, fun _ => rfl⟩⟩
    | false =>
      obtain ⟨opened, cache', hloop, h₂, hopened⟩ := ih h₁ fun j hj => hsmall j (List.mem_cons_of_mem i hj)
      refine ⟨opened, cache', hloop, h₂, hopened.trans ⟨?_, ?_⟩⟩
      · rintro ⟨j, hj, hhit⟩
        exact ⟨j, List.mem_cons_of_mem i hj, hhit⟩
      · rintro ⟨j, hj, hhit⟩
        rcases List.mem_cons.mp hj with rfl | hj
        · exact absurd (hiff.mpr hhit) Bool.false_ne_true
        · exact ⟨j, hj, hhit⟩

/-- A loop that finds a connection does not go on. -/
theorem openedLoop_append {same : α → Bool} (js : List ℤ) :
    ∀ (is : List ℤ) {r r' : Registry α}, openedLoop same is r = .ok (true, r') →
      openedLoop same (is ++ js) r = .ok (true, r') := by
  intro is
  induction is with
  | nil => exact fun {r r'} h => (by cases h)
  | cons i is ih =>
    intro r r' h
    rw [openedLoop] at h
    rw [List.cons_append, openedLoop]
    obtain ⟨found, hget, h⟩ := bind_eq_ok.mp h
    obtain ⟨hit, hsame, h⟩ := bind_eq_ok.mp h
    rw [hget, ok_bind, hsame, ok_bind]
    cases hit with
    | true => exact h
    | false => exact ih h

/-- There is a connection to the same source. -/
def Opened (same : α → Bool) (r : Registry α) (g : Live) : Prop := ∃ id, Hit same r g id

theorem mem_idsBelow {n i : ℤ} : i ∈ idsBelow n ↔ 1 ≤ i ∧ i < n := by
  unfold idsBelow
  rw [List.mem_map]
  constructor
  · rintro ⟨k, hk, rfl⟩
    have hlt := List.mem_range.mp hk
    omega
  · rintro ⟨hlo, hhi⟩
    exact ⟨(i - 1).toNat, List.mem_range.mpr (by omega), by omega⟩

/-- The ids up to a bound, and those behind it. -/
theorem idsBelow_split {m n : ℤ} (h : m ≤ n) : ∃ js, idsBelow n = idsBelow m ++ js := by
  unfold idsBelow
  refine ⟨((List.range ((n - 1).toNat - (m - 1).toNat)).map fun k => (m - 1).toNat + k).map
    fun k : ℕ => (k : ℤ) + 1, ?_⟩
  rw [← List.map_append, ← List.range_add]
  congr 2
  omega

/-- **`net_already_opened`** finds a live connection to the same source, if the cache has a place for all ids or if
there is one. -/
theorem netAlreadyOpened_spec {type : SourceType} {same : α → Bool} (h : Regular r g)
    (hroom : type.isNet = true → r.thisTagId ≤ sampleMaxSamples ∨ Opened same r g) :
    ∃ opened cache, netAlreadyOpened type same r = .ok (opened, r.withCache cache) ∧ Regular (r.withCache cache) g ∧
      (opened = true ↔ type.isNet = true ∧ Opened same r g) := by
  unfold netAlreadyOpened
  cases hnet : type.isNet with
  | false => exact ⟨false, r.tagCache, rfl, h, ⟨fun h => (by cases h), fun h => (by cases h.1)⟩⟩
  | true =>
    rw [if_pos rfl]
    have hbelow : ∀ id, Hit same r g id → 1 ≤ id ∧ id < r.thisTagId ∧ id < sampleMaxSamples := by
      rintro id ⟨tag, s, hg, -⟩
      obtain ⟨hlo, hhi, hmax, -⟩ := h.live id tag hg
      exact ⟨hlo, hhi, hmax⟩
    rcases hroom hnet with hle | ⟨id, hhit⟩
    · obtain ⟨opened, cache, hloop, h', hiff⟩ := @openedLoop_spec _ _ same (idsBelow r.thisTagId) _ h
        fun i hi => (mem_idsBelow.mp hi).2.trans_le hle
      refine ⟨opened, cache, hloop, h', hiff.trans ⟨?_, ?_⟩⟩
      · rintro ⟨i, -, hhit⟩
        exact ⟨rfl, i, hhit⟩
      · rintro ⟨-, i, hhit⟩
        exact ⟨i, mem_idsBelow.mpr ⟨(hbelow i hhit).1, (hbelow i hhit).2.1⟩, hhit⟩
    · obtain ⟨hlo, hhi, hmax⟩ := hbelow id hhit
      obtain ⟨opened, cache, hloop, h', hiff⟩ := @openedLoop_spec _ _ same
        (idsBelow (min r.thisTagId sampleMaxSamples)) _ h
        fun i hi => (mem_idsBelow.mp hi).2.trans_le (min_le_right _ _)
      obtain rfl : opened = true := hiff.mpr ⟨id, mem_idsBelow.mpr ⟨hlo, lt_min hhi hmax⟩, hhit⟩
      obtain ⟨js, hjs⟩ := idsBelow_split (min_le_left r.thisTagId (sampleMaxSamples : ℤ))
      refine ⟨true, cache, ?_, h', fun _ => ⟨rfl, id, hhit⟩, fun _ => rfl⟩
      rw [hjs]
      exact openedLoop_append js _ hloop

/-! ## New streams -/

/-- A cell that belongs to no live stream is written. -/
theorem Same.write (h : Regular r g) {tag : Addr} (htag : tag < r.nextAddr) (hfree : ∀ id, g id ≠ some tag)
    (x : Option (Stream α)) : Same r { r with heap := Function.update r.heap tag x } g := by
  have hintact : ∀ id t, g id = some t → Function.update r.heap tag x t = r.heap t := by
    intro id t hg
    have hne : t ≠ tag := fun heq => hfree id (hg.trans (congrArg some heq))
    exact Function.update_of_ne hne _ _
  refine ⟨{ h with live := fun id t hg => ?_, unallocated := fun a ha => ?_ }, hintact⟩
  · obtain ⟨hlo, hhi, hmax, s, hs, hid⟩ := h.live id t hg
    exact ⟨hlo, hhi, hmax, s, (hintact id t hg).trans hs, hid⟩
  · have hne : a ≠ tag := (lt_of_lt_of_le htag ha).ne'
    exact (Function.update_of_ne hne _ _).trans (h.unallocated a ha)

/-- A stream is allocated. -/
theorem Same.allocate (h : Regular r g) (s : Stream α) : Same r (allocate s r).2 g := by
  have hintact : ∀ id t, g id = some t → Function.update r.heap r.nextAddr (some s) t = r.heap t := by
    intro id t hg
    exact Function.update_of_ne (h.ne_next hg) _ _
  refine ⟨{ h with live := fun id t hg => ?_, unallocated := fun a ha => ?_ }, hintact⟩
  · obtain ⟨hlo, hhi, hmax, s', hs', hid⟩ := h.live id t hg
    exact ⟨hlo, hhi, hmax, s', (hintact id t hg).trans hs', hid⟩
  · have ha' : r.nextAddr < a := Nat.lt_of_succ_le ha
    exact (Function.update_of_ne ha'.ne' _ _).trans (h.unallocated a ha'.le)

/-- There is a freed id. -/
def HasFreed (r : Registry α) : Prop := ∃ id ∈ r.availTag, id ≠ 0

/-- A freed id is found where there is one. -/
theorem findFreed_found {avail : List ℤ} : ∀ (left n : ℕ),
    (∃ k id, n ≤ k ∧ k < n + left ∧ avail[k]? = some id ∧ id ≠ 0) →
      ∃ k id, findFreed avail left n = .ok (some (k, id)) ∧ avail[k]? = some id ∧ id ≠ 0
  | 0, n, ⟨k, _, hlo, hhi, _⟩ => by omega
  | left + 1, n, ⟨k, id, hlo, hhi, hk, hid⟩ => by
    obtain ⟨hk', -⟩ := List.getElem?_eq_some_iff.mp hk
    have hlt : n < avail.length := by omega
    rw [findFreed, List.getElem?_eq_getElem hlt]
    dsimp only
    split_ifs with hzero
    · refine findFreed_found left (n + 1) ⟨k, id, ?_, by omega, hk, hid⟩
      rcases Nat.eq_or_lt_of_le hlo with rfl | hlt'
      · rw [List.getElem?_eq_getElem hlt] at hk
        exact absurd ((Option.some.inj hk).symm.trans hzero) hid
      · exact hlt'
    · exact ⟨n, avail[n], rfl, List.getElem?_eq_getElem hlt, hzero⟩

/-- An id that was taken for a new stream: it is not live, and not free any more. -/
structure Taken (r r' : Registry α) (g : Live) (id : ℤ) : Prop where
  regular : Regular r' g
  heap : r'.heap = r.heap
  next : r'.nextAddr = r.nextAddr
  stack : r'.nextAvailTag = r.nextAvailTag
  this : r'.thisTagId = r.thisTagId
  fresh : g id = none
  range : 1 ≤ id ∧ id ≤ r.thisTagId
  not_free : ∀ n : ℕ, r'.availTag[n]? ≠ some id
  small : id < sampleMaxSamples ∨ (id = r.thisTagId ∧ ¬ HasFreed r)

/-- **Where the id of a new stream comes from.** -/
theorem reclaim_spec (h : Regular r g) (hthis : 1 ≤ r.thisTagId) (node : Bool) (tag : Addr)
    (hroom : HasFreed r ∨ r.nextAvailTag < sampleMaxSamples) :
    (node = false ∧ reclaim node tag r = .ok (none, r)) ∨
      ∃ id r', reclaim node tag r = .ok (some id, r') ∧ Taken r r' g id := by
  have hfound : ∀ k id, r.availTag[k]? = some id → id ≠ 0 →
      findFreed r.availTag (r.nextAvailTag + 1) 0 = .ok (some (k, id)) →
      (node = false ∧ reclaim node tag r = .ok (none, r)) ∨
        ∃ id r', reclaim node tag r = .ok (some id, r') ∧ Taken r r' g id := by
    intro k id hk hid hfind
    obtain ⟨-, hlo, hhi, hmax, hnone⟩ := h.freed k id hk hid
    unfold reclaim
    rw [hfind, ok_bind]
    cases node with
    | false => exact Or.inl ⟨rfl, rfl⟩
    | true =>
      -- the slot of the id is cleared
      have hset : ∀ (m : ℕ) (i : ℤ), (r.availTag.set k 0)[m]? = some i → i ≠ 0 → m ≠ k ∧ r.availTag[m]? = some i := by
        intro m i hm hi
        rw [List.getElem?_set] at hm
        split_ifs at hm with hmk hlen
        · exact absurd (Option.some.inj hm).symm hi
        · exact ⟨Ne.symm hmk, hm⟩
      refine Or.inr ⟨id, _, rfl, {
        regular := { h with
          avail_length := (List.length_set).trans h.avail_length
          stored := fun i hi => (Function.update_of_ne hi _ _).trans (h.stored i hi)
          freed := fun m i hm hi => h.freed m i (hset m i hm hi).2 hi
          freed_once := fun m n i hm hn hi => h.freed_once m n i (hset m i hm hi).2 (hset n i hn hi).2 hi }
        heap := rfl
        next := rfl
        stack := rfl
        this := rfl
        fresh := hnone
        range := ⟨hlo, hhi.le⟩
        not_free := fun m hm => (hset m id hm hid).1 (h.freed_once m k id (hset m id hm hid).2 hk hid)
        small := Or.inl hmax }⟩
  by_cases hfree : HasFreed r
  · obtain ⟨id, hmem, hid⟩ := hfree
    obtain ⟨k, hk⟩ := List.getElem?_of_mem hmem
    have hlt := (h.freed k id hk hid).1
    obtain ⟨k', id', hfind, hk', hid'⟩ := findFreed_found (r.nextAvailTag + 1) 0
      ⟨k, id, Nat.zero_le k, by omega, hk, hid⟩
    exact hfound k' id' hk' hid' hfind
  · have hnext : r.nextAvailTag < sampleMaxSamples := hroom.resolve_left hfree
    have hlen := h.avail_length
    rcases @Samples.findFreed_spec r.availTag (r.nextAvailTag + 1) 0 (by omega) with ⟨hnone, -⟩ | ⟨k, id, hsome, hk, hid⟩
    · refine Or.inr ⟨r.thisTagId, r, by rw [reclaim, hnone, ok_bind], {
        regular := h
        heap := rfl
        next := rfl
        stack := rfl
        this := rfl
        fresh := h.not_live (Or.inr le_rfl)
        range := ⟨hthis, le_rfl⟩
        not_free := fun n hn => hfree ⟨r.thisTagId, List.mem_of_getElem? hn, by omega⟩
        small := Or.inr ⟨rfl, hfree⟩ }⟩
    · exact hfound k id hk hid hsome

/-- What a call that creates a stream leaves. -/
structure Created (r r' : Registry α) (g : Live) (s : Stream α) (tag : Addr) : Prop where
  fresh : g s.id = none
  positive : 1 ≤ s.id
  regular : Regular r' (Function.update g s.id (some tag))
  cell : r'.heap tag = some s
  intact : ∀ id t, g id = some t → r'.heap t = r.heap t
  stack : r'.nextAvailTag = r.nextAvailTag

/-- **A stream is registered** under an id that is not live. -/
theorem register_spec (h : Regular r g) {id : ℤ} {tag : Addr} (hfresh : g id = none)
    (hrange : 1 ≤ id ∧ id ≤ r.thisTagId) (hmax : id < sampleMaxSamples) {s : Stream α} (hcell : r.heap tag = some s)
    (hs : s.id = id) (hfree : ∀ n : ℕ, r.availTag[n]? ≠ some id) :
    ∃ r', register true id tag r = .ok (some (id, tag), r') ∧ Regular r' (Function.update g id (some tag)) ∧
      r'.heap = r.heap ∧ r'.nextAvailTag = r.nextAvailTag := by
  obtain ⟨cache, hget, h₁⟩ := @vjTagGet_spec _ _ _ h id (Or.inr (Or.inr hmax))
  have h₂ : Regular { r.withCache cache with
      tagHash := Function.update r.tagHash id (some tag), thisTagId := r.thisTagId + 1 }
      (Function.update g id (some tag)) := {
    h₁ with
    this_nonneg := Int.add_nonneg h.this_nonneg Int.one_nonneg
    live := by
      intro i t hi
      by_cases heq : i = id
      · rw [heq, Function.update_self] at hi
        obtain rfl := Option.some.inj hi
        rw [heq]
        exact ⟨hrange.1, Int.lt_add_one_of_le hrange.2, hmax, s, hcell, hs⟩
      · rw [Function.update_of_ne heq] at hi
        obtain ⟨hlo, hhi, hsmall, hobj⟩ := h.live i t hi
        exact ⟨hlo, Int.lt_add_one_of_le hhi.le, hsmall, hobj⟩
    stored := by
      intro i hi
      by_cases heq : i = id
      · rw [heq, Function.update_self]
        exact Function.update_self ..
      · rw [Function.update_of_ne heq]
        exact (Function.update_of_ne heq _ _).trans (h.stored i hi)
    cached := by
      intro n t hn
      have hg := h₁.cached n t hn
      have hne : (n : ℤ) ≠ id := by
        intro heq
        rw [heq, hfresh] at hg
        cases hg
      rw [Function.update_of_ne hne]
      exact hg
    freed := by
      intro n i hn hi
      obtain ⟨hlt, hlo, hhi, hsmall, hnone⟩ := h.freed n i hn hi
      have hne : i ≠ id := by
        rintro rfl
        exact hfree n hn
      exact ⟨hlt, hlo, Int.lt_add_one_of_le hhi.le, hsmall, (Function.update_of_ne hne _ _).trans hnone⟩ }
  obtain ⟨cache', hset, h₃⟩ := @setCache_spec α _ _ h₂ id (by omega) hmax (some tag)
    fun t ht => (Function.update_self ..).trans ht
  refine ⟨_, ?_, h₃, rfl, rfl⟩
  rw [register, if_pos rfl, hget, ok_bind, hfresh]
  dsimp only [Option.isSome_none]
  rw [if_neg Bool.false_ne_true]
  exact (congrArg (· >>= _) hset).trans (ok_bind _ _)

/-- The outcome of a call that may create a stream. -/
def Made (r : Registry α) (g : Live) (type : SourceType) (info : α) (c : Chance)
    (x : Exec (Option (ℤ × Addr) × Registry α)) : Prop :=
  (∃ r', x = .ok (none, r') ∧ Same r r' g ∧ c.sure = false) ∨
    ∃ id tag r', x = .ok (some (id, tag), r') ∧ Created r r' g ⟨id, type, info⟩ tag

/-- The initialisation of a stream under an id that was taken. -/
theorem initialise_spec {r₀ : Registry α} {type : SourceType} {info : α} {c : Chance} {id : ℤ} {tag : Addr}
    (hsame : Same r r₀ g) (hstack : r₀.nextAvailTag = r.nextAvailTag) (htaken : Taken r₀ r' g id)
    (htag : tag < r₀.nextAddr) (hfree : ∀ i, g i ≠ some tag)
    (hmax : c.initialised = true → c.putNode = true → id < sampleMaxSamples) :
    Made r g type info c (initialise type info c id tag r') := by
  have hlt : tag < r'.nextAddr := by rw [htaken.next]; exact htag
  have hr' : Same r r' g :=
    ⟨htaken.regular, fun i t hi => (congrFun htaken.heap t).trans (hsame.intact i t hi)⟩
  have hwrite := Same.write htaken.regular hlt hfree (some ⟨id, type, info⟩)
  unfold initialise
  dsimp only
  cases hinit : c.initialised with
  | false =>
    rw [if_neg Bool.false_ne_true]
    refine Or.inl ⟨_, rfl, ?_, by simp [Chance.sure, hinit]⟩
    split_ifs
    · exact hr'.trans (hwrite.trans (Same.write hwrite.regular hlt hfree none))
    · exact hr'.trans hwrite
  | true =>
    rw [if_pos rfl]
    cases hput : c.putNode with
    | false => exact Or.inl ⟨_, rfl, hr'.trans hwrite, by simp [Chance.sure, hput]⟩
    | true =>
      obtain ⟨r'', hregister, hregular, hheap, hstack'⟩ := @register_spec α _ g hwrite.regular id tag htaken.fresh
        ⟨htaken.range.1, htaken.range.2.trans htaken.this.ge⟩ (hmax hinit hput) ⟨id, type, info⟩
        (Function.update_self ..) rfl htaken.not_free
      refine Or.inr ⟨id, tag, r'', hregister, htaken.fresh, htaken.range.1, hregular, ?_, ?_,
        (hstack'.trans htaken.stack).trans hstack⟩
      · rw [hheap]
        exact Function.update_self ..
      · intro i t hi
        rw [hheap]
        exact (hwrite.intact i t hi).trans (hr'.intact i t hi)

/-- **`vj_tag_new`**, from the allocation of the stream on. -/
theorem create_spec {type : SourceType} {info : α} {c : Chance} (h : Regular r g) (hthis : 1 ≤ r.thisTagId)
    (hroom : c.tagMemory = true → c.nameMemory = true → HasFreed r ∨ (r.nextAvailTag < sampleMaxSamples ∧
      (c.initialised = true → c.putNode = true → r.thisTagId < sampleMaxSamples))) :
    Made r g type info c (create type info c r) := by
  unfold create
  cases htagMem : c.tagMemory with
  | false => exact Or.inl ⟨r, rfl, Same.refl h, by simp [Chance.sure, htagMem]⟩
  | true =>
    rw [if_pos rfl]
    have halloc := Same.allocate h ⟨0, .other 0, info⟩
    cases hnameMem : c.nameMemory with
    | false => exact Or.inl ⟨_, rfl, halloc, by simp [Chance.sure, hnameMem]⟩
    | true =>
      have hroom' := hroom htagMem hnameMem
      have hfreed : HasFreed (allocate ⟨0, .other 0, info⟩ r).2 ↔ HasFreed r := Iff.rfl
      have hreclaim := reclaim_spec halloc.regular hthis c.reclaimNode r.nextAddr
        (hroom'.imp_right And.left)
      rcases hreclaim with ⟨hnode, hnone⟩ | ⟨id, r', hsome, htaken⟩
      · refine Or.inl ⟨_, ?_, halloc, by simp [Chance.sure, hnode]⟩
        show (reclaim c.reclaimNode r.nextAddr (allocate ⟨0, .other 0, info⟩ r).2 >>= _) = _
        rw [hnone, ok_bind]
      · have hfree : ∀ i, g i ≠ some r.nextAddr := fun i hi => h.ne_next hi rfl
        have hmax : c.initialised = true → c.putNode = true → id < sampleMaxSamples := by
          intro hinit hput
          rcases htaken.small with hsmall | ⟨hid, hnot⟩
          · exact hsmall
          · rcases hroom' with hhas | ⟨-, hcan⟩
            · exact absurd (hfreed.mpr hhas) hnot
            · rw [hid]
              exact hcan hinit hput
        have hmade := @initialise_spec α r r' g _ type info c id r.nextAddr halloc rfl htaken (Nat.lt_succ_self _) hfree hmax
        show Made r g type info c (reclaim c.reclaimNode r.nextAddr (allocate ⟨0, .other 0, info⟩ r).2 >>= _)
        rw [hsome, ok_bind]
        exact hmade

/-- The first number. -/
theorem Same.firstId (h : Regular r g) : Same r (firstId r) g ∧ 1 ≤ (firstId r).thisTagId := by
  have hthis := h.this_nonneg
  unfold Streams.firstId
  split_ifs with hzero
  · refine ⟨⟨{ h with this_nonneg := Int.one_nonneg, live := ?_, freed := ?_ }, fun _ _ _ => rfl⟩, le_rfl⟩
    · intro id tag hg
      obtain ⟨hlo, hhi, hrest⟩ := h.live id tag hg
      exact ⟨hlo, by omega, hrest⟩
    · intro n id hn hid
      obtain ⟨hlt, hlo, hhi, hrest⟩ := h.freed n id hn hid
      exact ⟨hlt, hlo, by omega, hrest⟩
  · exact ⟨Same.refl h, by omega⟩

/-- **`vj_tag_new`** -/
theorem vjTagNew_spec {same : α → α → Bool} {type : SourceType} {info : α} {c : Chance} (h : Regular r g)
    (hnet : type.isNet = true → (firstId r).thisTagId ≤ sampleMaxSamples ∨ Opened (same info) r g)
    (hroom : ¬ (type.isNet = true ∧ Opened (same info) r g) → c.tagMemory = true → c.nameMemory = true →
      HasFreed r ∨ (r.nextAvailTag < sampleMaxSamples ∧
        (c.initialised = true → c.putNode = true → (firstId r).thisTagId < sampleMaxSamples))) :
    (type.isNet = true ∧ ∃ r', vjTagNew same type info c r = .ok (none, r') ∧ Same r r' g) ∨
      Made r g type info c (vjTagNew same type info c r) := by
  obtain ⟨hfirst, hthis⟩ := Same.firstId h
  have hheap : (firstId r).heap = r.heap := by
    unfold firstId
    split_ifs <;> rfl
  have havail : (firstId r).availTag = r.availTag ∧ (firstId r).nextAvailTag = r.nextAvailTag := by
    unfold firstId
    split_ifs <;> exact ⟨rfl, rfl⟩
  have hopen : Opened (same info) (firstId r) g ↔ Opened (same info) r g := by
    unfold Opened Hit
    rw [hheap]
  obtain ⟨opened, cache, hloop, h₁, hiff⟩ := @netAlreadyOpened_spec _ _ _ type (same info) hfirst.regular
    fun ht => (hnet ht).imp_right hopen.mpr
  have hsame₁ : Same r ((firstId r).withCache cache) g :=
    ⟨h₁, fun i t _ => congrFun hheap t⟩
  unfold vjTagNew
  rw [hloop, ok_bind]
  cases opened with
  | true => exact Or.inl ⟨(hiff.mp rfl).1, _, rfl, hsame₁⟩
  | false =>
    have hcreate := @create_spec α _ g type info c h₁ hthis fun htag hname => by
      have hroom' := hroom (fun hboth => absurd (hiff.mpr ⟨hboth.1, hopen.mpr hboth.2⟩) Bool.false_ne_true) htag hname
      refine hroom'.imp (fun ⟨id, hmem, hid⟩ => ⟨id, ?_, hid⟩) fun ⟨hlt, hcan⟩ => ⟨?_, hcan⟩
      · exact havail.1.symm ▸ hmem
      · exact lt_of_eq_of_lt havail.2 hlt
    refine Or.inr (hcreate.imp ?_ ?_)
    · rintro ⟨r', hr', hsame, hsure⟩
      exact ⟨r', hr', hsame₁.trans hsame, hsure⟩
    · rintro ⟨id, tag, r', hr', hmade⟩
      exact ⟨id, tag, r', hr', { hmade with
        intact := fun i t hi => (hmade.intact i t hi).trans (hsame₁.intact i t hi)
        stack := hmade.stack.trans havail.2 }⟩

/-! ## Deleted streams -/

theorem storeFreed_eq {id : ℤ} {r : Registry α} (h : r.nextAvailTag < r.availTag.length) : storeFreed id r =
    .ok { r with availTag := r.availTag.set r.nextAvailTag id, nextAvailTag := r.nextAvailTag + 1 } := if_pos h

theorem setCache_eq {id : ℤ} {a : Option Addr} {r : Registry α} (h : 0 ≤ id ∧ id < r.tagCache.length) :
    setCache id a r = .ok { r with tagCache := r.tagCache.set id.toNat a } := if_pos h

/-- What a call that deletes a stream leaves. -/
structure Deleted (r r' : Registry α) (g : Live) (id : ℤ) : Prop where
  regular : Regular r' (Function.update g id none)
  intact : ∀ i t, Function.update g id none i = some t → r'.heap t = r.heap t
  next : r'.nextAvailTag = r.nextAvailTag + 1
  freed : HasFreed r'

/-- **`vj_tag_del`** of a live stream. -/
theorem vjTagDel_live (h : Regular r g) {id : ℤ} {tag : Addr} (hg : g id = some tag)
    (hnext : r.nextAvailTag < sampleMaxSamples) :
    ∃ r', vjTagDel id r = .ok (true, r') ∧ Deleted r r' g id := by
  obtain ⟨hlo, hhi, hmax, s, hs, hid⟩ := h.live id tag hg
  obtain ⟨cache, hget, h₁⟩ := @vjTagGet_spec _ _ _ h id (Or.inr (Or.inr hmax))
  have havail := h.avail_length
  have hcache := h₁.cache_length
  have hrest : ∀ i t, Function.update g id none i = some t → i ≠ id ∧ g i = some t ∧ t ≠ tag := by
    intro i t hi
    have hne : i ≠ id := by
      rintro rfl
      rw [Function.update_self] at hi
      cases hi
    rw [Function.update_of_ne hne] at hi
    refine ⟨hne, hi, fun heq => hne ?_⟩
    obtain ⟨-, -, -, s', hs', hid'⟩ := h.live i t hi
    rw [heq, hs] at hs'
    rw [← hid', ← Option.some.inj hs', hid]
  refine ⟨{ r with
      availTag := r.availTag.set r.nextAvailTag id, nextAvailTag := r.nextAvailTag + 1
      tagHash := Function.update r.tagHash id none, tagCache := cache.set id.toNat none
      heap := Function.update r.heap tag none }, ?_, ?_⟩
  · have hderef : deref tag (r.withCache cache) = .ok s := by
      unfold deref
      rw [show (r.withCache cache).heap tag = some s from hs]
    unfold vjTagDel
    rw [hget, ok_bind, hg]
    dsimp only
    rw [hderef, ok_bind, hid, storeFreed_eq, ok_bind, setCache_eq, ok_bind]
    · rfl
    · exact ⟨by omega, lt_of_lt_of_eq hmax (congrArg Nat.cast hcache).symm⟩
    · exact lt_of_lt_of_eq hnext havail.symm
  · refine ⟨?_, fun i t hi => Function.update_of_ne (hrest i t hi).2.2 _ _, rfl, id, ?_, by omega⟩
    · exact {
        cache_length := (List.length_set).trans hcache
        avail_length := (List.length_set).trans havail
        next_le := hnext
        this_nonneg := h.this_nonneg
        live := by
          intro i t hi
          obtain ⟨-, hi', hne⟩ := hrest i t hi
          obtain ⟨h₁, h₂, h₃, s', hs', hid'⟩ := h.live i t hi'
          exact ⟨h₁, h₂, h₃, s', (Function.update_of_ne hne _ _).trans hs', hid'⟩
        stored := by
          intro i hi
          by_cases heq : i = id
          · rw [heq, Function.update_self]
            exact Function.update_self ..
          · rw [Function.update_of_ne heq]
            exact (Function.update_of_ne heq _ _).trans (h.stored i hi)
        cached := by
          intro n t hn
          have hn' : (cache.set id.toNat none)[n]? = some (some t) := hn
          rw [List.getElem?_set] at hn'
          split_ifs at hn' with heq hlt
          · cases hn'
          · have hne : (n : ℤ) ≠ id := by omega
            rw [Function.update_of_ne hne]
            exact h₁.cached n t hn'
        freed := by
          intro n i hn hi
          have hn' : (r.availTag.set r.nextAvailTag id)[n]? = some i := hn
          rw [List.getElem?_set] at hn'
          split_ifs at hn' with heq hlt
          · obtain rfl := Option.some.inj hn'
            exact ⟨by rw [← heq]; exact Nat.lt_succ_self _, hlo, hhi, hmax, Function.update_self ..⟩
          · obtain ⟨h₁, h₂, h₃, h₄, h₅⟩ := h.freed n i hn' hi
            refine ⟨Nat.lt_succ_of_lt h₁, h₂, h₃, h₄, ?_⟩
            by_cases heq' : i = id
            · rw [heq', Function.update_self]
            · rw [Function.update_of_ne heq', h₅]
        freed_once := by
          intro m n i hm hn hi
          have hnot : ∀ k : ℕ, r.availTag[k]? ≠ some id := by
            intro k hk
            have hnone := (h.freed k id hk (by omega)).2.2.2.2
            rw [hg] at hnone
            cases hnone
          have hm' : (r.availTag.set r.nextAvailTag id)[m]? = some i := hm
          have hn' : (r.availTag.set r.nextAvailTag id)[n]? = some i := hn
          rw [List.getElem?_set] at hm' hn'
          split_ifs at hm' hn' with h₁ h₂ h₃ h₄ h₅
          · omega
          · obtain rfl := Option.some.inj hm'
            exact absurd hn' (hnot n)
          · obtain rfl := Option.some.inj hn'
            exact absurd hm' (hnot m)
          · exact h.freed_once m n i hm' hn' hi
        unallocated := by
          intro a ha
          have hnone := h.unallocated a ha
          have hne : a ≠ tag := by
            rintro rfl
            rw [hs] at hnone
            cases hnone
          exact (Function.update_of_ne hne _ _).trans hnone }
    · exact List.mem_of_getElem? (List.getElem?_set_self (by omega))

/-- **`vj_tag_del`**, where there is no stream. -/
theorem vjTagDel_none (h : Regular r g) {id : ℤ} (hid : Readable r id) (hg : g id = none) :
    ∃ r', vjTagDel id r = .ok (false, r') ∧ Same r r' g := by
  obtain ⟨cache, hget, h₁⟩ := vjTagGet_spec h hid
  refine ⟨_, ?_, ⟨h₁, fun _ _ _ => rfl⟩⟩
  rw [vjTagDel, hget, ok_bind, hg]

end Invariant

/-! ## Runs -/

section Runs

variable {α : Type} (same : α → α → Bool)

/-- **When a call stays inside the arrays**: the cache has a place for the ids that are looked at, and the stack of
freed ids for the one that is read or written; a freed id in it is found before its end. -/
def Room (st : Registry α × Live) : Op α → Prop
  | .new type info c =>
    (type.isNet = true → (firstId st.1).thisTagId ≤ sampleMaxSamples ∨ Opened (same info) st.1 st.2) ∧
      (¬ (type.isNet = true ∧ Opened (same info) st.1 st.2) → c.tagMemory = true → c.nameMemory = true →
        HasFreed st.1 ∨ (st.1.nextAvailTag < sampleMaxSamples ∧
          (c.initialised = true → c.putNode = true → (firstId st.1).thisTagId < sampleMaxSamples)))
  | .del id => Readable st.1 id ∧ (st.2 id ≠ none → st.1.nextAvailTag < sampleMaxSamples)
  | .get id => Readable st.1 id

/-- **What a call answers and leaves.**  A new stream has an id that no live stream has; a failing call changes none
of the live streams; looking an id up finds the stream that was created under it, exactly if it is live. -/
structure Served (st : Registry α × Live) (o : Op α) (a : Answer) (st' : Registry α × Live) : Prop where
  fresh : ∀ type info c, o = .new type info c → ∀ id tag, a = .created (some (id, tag)) →
    1 ≤ id ∧ st.2 id = none ∧ st'.2 id = some tag ∧ st'.1.heap tag = some ⟨id, type, info⟩
  failed : a = .created none → st'.2 = st.2
  deleted : ∀ id, o = .del id → a = .deleted true → st.2 id ≠ none ∧ st'.2 id = none
  found : ∀ id tag, o = .get id → a = .found tag → tag = st.2 id
  intact : ∀ id tag, st.2 id = some tag → st'.2 id = some tag → st'.1.heap tag = st.1.heap tag
  streams : ∀ id tag, st'.2 id = some tag → ∃ s, st'.1.heap tag = some s ∧ s.id = id
  lookup : ∀ id, Readable st'.1 id → ∃ r, vjTagGet id st'.1 = .ok (st'.2 id, r)
  inside : st'.1.nextAvailTag ≤ sampleMaxSamples

variable {same}

/-- What holds of the streams of a regular registry. -/
theorem Regular.streams {r : Registry α} {g : Live} (h : Regular r g) :
    (∀ id tag, g id = some tag → ∃ s, r.heap tag = some s ∧ s.id = id) ∧
      (∀ id, Readable r id → ∃ r', vjTagGet id r = .ok (g id, r')) ∧ r.nextAvailTag ≤ sampleMaxSamples := by
  refine ⟨fun id tag hg => (h.live id tag hg).2.2.2, fun id hid => ?_, h.next_le⟩
  obtain ⟨cache, hget, -⟩ := vjTagGet_spec h hid
  exact ⟨_, hget⟩

/-- What one call does. -/
theorem step_spec {st : Registry α × Live} (h : Regular st.1 st.2) (o : Op α) (hroom : Room same st o) :
    ∃ a st', step same st o = .ok (a, st') ∧ Regular st'.1 st'.2 ∧ Served st o a st' := by
  obtain ⟨r, g⟩ := st
  cases o with
  | new type info c =>
    have hfail : ∀ r', vjTagNew same type info c r = .ok (none, r') → Same r r' g →
        ∃ a st', step same (r, g) (.new type info c) = .ok (a, st') ∧ Regular st'.1 st'.2 ∧
          Served (r, g) (.new type info c) a st' := by
      intro r' hnew hsame
      obtain ⟨hstreams, hlookup, hinside⟩ := hsame.regular.streams
      refine ⟨.created none, (r', g), ?_, hsame.regular, ?_⟩
      · unfold step call
        dsimp only
        rw [hnew]
        rfl
      · exact ⟨fun _ _ _ _ id tag ha => (by cases ha), fun _ => rfl, fun id ho => (by cases ho), fun id tag ho => (by cases ho),
          fun id tag hg _ => hsame.intact id tag hg, hstreams, hlookup, hinside⟩
    rcases vjTagNew_spec h hroom.1 hroom.2 with ⟨-, r', hnew, hsame⟩ | ⟨r', hnew, hsame, -⟩ | ⟨id, tag, r', hnew, hmade⟩
    · exact hfail r' hnew hsame
    · exact hfail r' hnew hsame
    · obtain ⟨hstreams, hlookup, hinside⟩ := hmade.regular.streams
      refine ⟨.created (some (id, tag)), (r', Function.update g id (some tag)), ?_, hmade.regular, ?_⟩
      · unfold step call
        dsimp only
        rw [hnew]
        rfl
      · refine ⟨?_, fun ha => (by cases ha), fun i ho => (by cases ho), fun i t ho => (by cases ho),
          fun i t hi _ => hmade.intact i t hi, hstreams, hlookup, hinside⟩
        intro type' info' c' ho id' tag' ha
        cases ho
        cases ha
        exact ⟨hmade.positive, hmade.fresh, Function.update_self .., hmade.cell⟩
  | del id =>
    cases hg : g id with
    | none =>
      obtain ⟨r', hdel, hsame⟩ := vjTagDel_none h hroom.1 hg
      obtain ⟨hstreams, hlookup, hinside⟩ := hsame.regular.streams
      refine ⟨.deleted false, (r', g), ?_, hsame.regular, ?_⟩
      · unfold step call
        dsimp only
        rw [hdel]
        rfl
      · exact ⟨fun _ _ _ ho => (by cases ho), fun _ => rfl, fun i _ ha => (by cases ha), fun i t ho => (by cases ho),
          fun i t hi _ => hsame.intact i t hi, hstreams, hlookup, hinside⟩
    | some tag =>
      have hlive : g id ≠ none := by
        rw [hg]
        exact Option.some_ne_none _
      have hnext : r.nextAvailTag < sampleMaxSamples := hroom.2 hlive
      obtain ⟨r', hdel, hgone⟩ := vjTagDel_live h hg hnext
      obtain ⟨hstreams, hlookup, hinside⟩ := hgone.regular.streams
      refine ⟨.deleted true, (r', Function.update g id none), ?_, hgone.regular, ?_⟩
      · unfold step call
        dsimp only
        rw [hdel]
        rfl
      · refine ⟨fun _ _ _ ho => (by cases ho), fun ha => (by cases ha), ?_, fun i t ho => (by cases ho),
          fun i t _ hi => hgone.intact i t hi, hstreams, hlookup, hinside⟩
        intro i ho _
        cases ho
        exact ⟨hlive, Function.update_self ..⟩
  | get id =>
    obtain ⟨cache, hget, h₁⟩ := vjTagGet_spec h hroom
    obtain ⟨hstreams, hlookup, hinside⟩ := h₁.streams
    refine ⟨.found (g id), (r.withCache cache, g), ?_, h₁, ?_⟩
    · unfold step call
      dsimp only
      rw [hget]
      rfl
    · refine ⟨fun _ _ _ ho => (by cases ho), fun _ => rfl, fun i ho => (by cases ho), ?_, fun _ _ _ _ => rfl, hstreams,
        hlookup, hinside⟩
      intro i t ho ha
      cases ho
      cases ha
      rfl

/-- **The registry is the set of the live streams**, in every run of calls that stay inside the arrays. -/
theorem streams_of_run (ops : List (Op α)) (h : RunMeets (step same) (Room same) (vjTagInit, fun _ => none) ops) :
    RunShows (step same) Served (vjTagInit, fun _ => none) ops :=
  @runOps_shows _ _ _ _ _ (fun st => Regular st.1 st.2) _
    (fun _ o hs hroom => step_spec hs o hroom) ops _ regular_init h

/-- No call fails. -/
def surely : Chance where
  tagMemory := true
  nameMemory := true
  reclaimNode := true
  initialised := true
  putNode := true

/-- A stream is created and found. -/
theorem stream_created_found :
    RunShows (step fun _ _ : Unit => true) Served (vjTagInit, fun _ => none) [.new .color () surely, .get 1] := by
  have hfirst : Room (fun _ _ : Unit => true) (vjTagInit, fun _ => none) (.new .color () surely) :=
    ⟨fun h => (by cases h), fun _ _ _ => Or.inr ⟨by decide, fun _ _ => by decide⟩⟩
  refine streams_of_run _ ⟨hfirst, fun a st hnew => ⟨?_, fun _ _ _ => trivial⟩⟩
  exact Or.inr (Or.inr (by decide))

/-- A state after `k` streams that were created and deleted. -/
structure Cycled (r : Registry Unit) (g : Live) (k : ℕ) : Prop where
  regular : Regular r g
  next : r.nextAvailTag = k
  freed : k = 0 ∧ r.thisTagId = 0 ∨ HasFreed r

/-- A stream can be created. -/
theorem Cycled.new {r : Registry Unit} {g : Live} {k : ℕ} (h : Cycled r g k) :
    ∃ id tag r', vjTagNew (fun _ _ => true) .color () surely r = .ok (some (id, tag), r') ∧
      Created r r' g ⟨id, .color, ()⟩ tag := by
  have hroom : HasFreed r ∨ (r.nextAvailTag < sampleMaxSamples ∧
      (surely.initialised = true → surely.putNode = true → (firstId r).thisTagId < sampleMaxSamples)) := by
    rcases h.freed with ⟨rfl, hthis⟩ | hfreed
    · refine Or.inr ⟨by rw [h.next]; decide, fun _ _ => ?_⟩
      unfold firstId
      rw [if_pos hthis]
      exact (by decide : (1 : ℤ) < sampleMaxSamples)
    · exact Or.inl hfreed
  rcases @vjTagNew_spec _ _ _ (fun _ _ => true) .color () surely h.regular
    (fun h => by cases h) (fun _ _ _ => hroom) with ⟨hnet, -⟩ | ⟨r', -, -, hsure⟩ | hmade
  · cases hnet
  · cases hsure
  · exact hmade

/-- **Streams that are created and deleted again use up the stack of freed ids**: deleting one more writes behind
its end. -/
theorem Cycled.overruns : ∀ (n : ℕ) {r : Registry Unit} {g : Live} {k : ℕ}, Cycled r g k → k + n = sampleMaxSamples →
    ∃ ops, ¬ RunShows (step fun _ _ : Unit => true) Served (r, g) ops := by
  intro n
  induction n with
  | zero =>
    intro r g k h hk
    obtain ⟨id, tag, r', hnew, hmade⟩ := h.new
    refine ⟨[.new .color () surely, .del id], fun hrun => ?_⟩
    obtain ⟨a, st, hstep, -, hrest⟩ := hrun
    have hstep' : step (fun _ _ : Unit => true) (r, g) (.new .color () surely) =
        .ok (.created (some (id, tag)), (r', Function.update g id (some tag))) := by
      unfold step call
      dsimp only
      rw [hnew]
      rfl
    obtain ⟨-, rfl⟩ := Prod.mk.inj (Except.ok.inj (hstep.symm.trans hstep'))
    obtain ⟨a', st', hdel, -, -⟩ := hrest
    have hself : Function.update g id (some tag) id = some tag := Function.update_self ..
    obtain ⟨-, -, hmax, s, hs, hid⟩ := hmade.regular.live id tag hself
    obtain ⟨cache, hget, h₁⟩ := @vjTagGet_spec _ _ _ hmade.regular id (Or.inr (Or.inr hmax))
    have hover : vjTagDel id r' = .error .overrun := by
      have hderef : deref tag (r'.withCache cache) = .ok s := by
        unfold deref
        rw [show (r'.withCache cache).heap tag = some s from hs]
      have hfull : ¬ r'.nextAvailTag < r'.availTag.length := by
        rw [hmade.stack, h.next, hmade.regular.avail_length]
        omega
      unfold vjTagDel
      rw [hget, ok_bind, hself]
      dsimp only
      rw [hderef, ok_bind]
      unfold storeFreed
      exact (congrArg (· >>= _) (if_neg hfull)).trans (error_bind _ _)
    unfold step call at hdel
    dsimp only at hdel
    rw [hover] at hdel
    cases hdel
  | succ n ih =>
    intro r g k h hk
    obtain ⟨id, tag, r', hnew, hmade⟩ := h.new
    have hself : Function.update g id (some tag) id = some tag := Function.update_self ..
    have hnext : r'.nextAvailTag < sampleMaxSamples := by
      rw [hmade.stack, h.next]
      omega
    obtain ⟨r'', hdel, hgone⟩ := vjTagDel_live hmade.regular hself hnext
    have hcycled : Cycled r'' (Function.update (Function.update g id (some tag)) id none) (k + 1) :=
      ⟨hgone.regular, by rw [hgone.next, hmade.stack, h.next], Or.inr hgone.freed⟩
    obtain ⟨ops, hops⟩ := ih hcycled (by omega)
    refine ⟨.new .color () surely :: .del id :: ops, fun hrun => hops ?_⟩
    obtain ⟨a, st, hstep, -, a', st', hstep', -, hrest⟩ := hrun
    have hfirst : step (fun _ _ : Unit => true) (r, g) (.new .color () surely) =
        .ok (.created (some (id, tag)), (r', Function.update g id (some tag))) := by
      unfold step call
      dsimp only
      rw [hnew]
      rfl
    obtain ⟨-, rfl⟩ := Prod.mk.inj (Except.ok.inj (hstep.symm.trans hfirst))
    have hsecond : step (fun _ _ : Unit => true) (r', Function.update g id (some tag)) (.del id) =
        .ok (.deleted true, (r'', Function.update (Function.update g id (some tag)) id none)) := by
      unfold step call
      dsimp only
      rw [hdel]
      rfl
    obtain ⟨-, rfl⟩ := Prod.mk.inj (Except.ok.inj (hstep'.symm.trans hsecond))
    exact hrest

/-- A stream is created and deleted, again and again. -/
theorem stack_overruns : ¬ ∀ ops : List (Op Unit),
    RunShows (step fun _ _ : Unit => true) Served (vjTagInit, fun _ => none) ops := by
  intro h
  obtain ⟨ops, hops⟩ := Cycled.overruns sampleMaxSamples
    (⟨regular_init, rfl, Or.inl ⟨rfl, rfl⟩⟩ : Cycled vjTagInit (fun _ => none) 0) (Nat.zero_add _)
  exact hops (h ops)

end Runs

end Veejay.Streams
