import Veejay.Net.Agreement

/-!
# The blocks of the message pool

`vj_simple_pool_alloc` (`libvjmem/vj-x86.c`) adds the new offset to an address that has the old offset
already, so a block starts at about twice the offset, and `RUP8` changes a number only if its bit 3 is set.

* `PoolOp`, `blocks` — calls on a pool, and the blocks handed out since the last reset;
* `granted` — the requests that are granted, each with the offset of the pool before it;
* `Collide` — when a request runs into an earlier one;
* `blocks_clear_iff` — **exactly when the blocks are inside the pool and disjoint**, for a pool and for
  the messages that the server queues.
-/

namespace Veejay.Net

open CLib

/-! ## Rounding -/

/-- Bit 3 of a number. -/
def bit3 (n : ℕ) : Prop := n / 8 % 2 = 1

instance (n : ℕ) : Decidable (bit3 n) := inferInstanceAs (Decidable (_ = _))

/-- `RUP8` adds 8 to the numbers whose bit 3 is set, and leaves the others as they are. -/
theorem rup8_eq (n : ℕ) : rup8 n = if bit3 n then n + 8 else n := by
  have hand : (n + 8) &&& 8 = if bit3 n then 0 else 8 := by
    have h : (n + 8) &&& 8 = (decide ((n + 8) / 8 % 2 = 1)).toNat * 8 := by
      rw [← Nat.testBit_eq_decide_div_mod_eq (i := 3)]
      exact Nat.and_two_pow (n + 8) 3
    rw [h]
    by_cases hbit : bit3 n
    · rw [if_pos hbit]
      unfold bit3 at hbit
      rw [decide_eq_false (by omega), Bool.toNat_false, Nat.zero_mul]
    · rw [if_neg hbit]
      unfold bit3 at hbit
      rw [decide_eq_true (by omega), Bool.toNat_true, Nat.one_mul]
  rw [rup8, hand]
  split_ifs <;> omega

theorem rup8_cases (n : ℕ) : (bit3 n ∧ rup8 n = n + 8) ∨ (¬ bit3 n ∧ rup8 n = n) := by
  rw [rup8_eq]
  by_cases h : bit3 n
  · exact Or.inl ⟨h, if_pos h⟩
  · exact Or.inr ⟨h, if_neg h⟩

/-! ## Requests -/

section Requests

variable {α : Type} (size : α → ℕ) (len : ℕ)

/-- The requests that a pool of `len` bytes grants from the offset `cur` on, each with the offset of the
pool before it. -/
def granted : ℕ → List α → List (ℕ × α)
  | _, [] => []
  | cur, a :: as =>
    if cur + size a ≤ len then (cur, a) :: granted (cur + rup8 (size a)) as else granted cur as

/-- The offset of the pool after these requests. -/
def offset : ℕ → List α → ℕ
  | cur, [] => cur
  | cur, a :: as => if cur + size a ≤ len then offset (cur + rup8 (size a)) as else offset cur as

/-- Where the block of a granted request starts. -/
def blockStart (g : ℕ × α) : ℕ := copyAddr g.1 (size g.2)

/-- The bytes of the block of a granted request. -/
def area (g : ℕ × α) : Set ℕ := Set.Ico (blockStart size g) (blockStart size g + size g.2)

/-- A request of `n` bytes at the offset `c`, and a later one of `n'` bytes at the offset `c'`, whose
blocks overlap: only the first one had an address rounded up, and the sizes are too small to make up for
it. -/
def Collide (c n c' n' : ℕ) : Prop :=
  bit3 c ∧ ¬ bit3 n ∧ ¬ bit3 c' ∧ 0 < n ∧ 0 < n' ∧
    2 * (c' - (c + n)) + n' < 8 ∧ 8 < n + 2 * (c' - (c + n)) + 2 * n'

instance (c n c' n' : ℕ) : Decidable (Collide c n c' n') := inferInstanceAs (Decidable (_ ∧ _))

/-- What two rounded offsets and two sizes take up, inside a pool of `len` bytes. -/
def Fitting (len c n : ℕ) : Prop :=
  2 * c + 2 * n + (if bit3 c then 8 else 0) + (if bit3 n then 8 else 0) ≤ len

instance (c n : ℕ) : Decidable (Fitting len c n) := inferInstanceAs (Decidable (_ ≤ _))

/-- No granted request runs out of the pool or into another one. -/
structure Clear (gs : List (ℕ × α)) : Prop where
  fitting : ∀ g ∈ gs, Fitting len g.1 (size g.2)
  apart : gs.Pairwise fun g h => ¬ Collide g.1 (size g.2) h.1 (size h.2)

/-- The blocks of granted requests lie inside the pool, and no two have a byte in common. -/
structure Disjointed (gs : List (ℕ × α)) : Prop where
  inside : ∀ g ∈ gs, blockStart size g + size g.2 ≤ len
  disjoint : gs.Pairwise fun g h => Disjoint (area size g) (area size h)

variable {size len} {cur : ℕ} {as : List α} {a : α}

theorem granted_append_singleton : granted size len cur (as ++ [a])
    = granted size len cur as ++
      if offset size len cur as + size a ≤ len then [(offset size len cur as, a)] else [] := by
  induction as generalizing cur with
  | nil => by_cases h : cur + size a ≤ len <;> simp [granted, offset, h]
  | cons b as ih =>
    rw [List.cons_append, granted, granted, offset]
    split_ifs with hb <;> simp_all

theorem offset_append_singleton : offset size len cur (as ++ [a])
    = if offset size len cur as + size a ≤ len then offset size len cur as + rup8 (size a)
      else offset size len cur as := by
  induction as generalizing cur with
  | nil => rfl
  | cons b as ih =>
    rw [List.cons_append, offset, offset]
    split_ifs with hb <;> simp_all

theorem le_of_mem_granted : ∀ g ∈ granted size len cur as, cur ≤ g.1 := by
  induction as generalizing cur with
  | nil => exact fun g hg => by cases hg
  | cons a as ih =>
    intro g hg
    rw [granted] at hg
    split_ifs at hg with ha
    · rcases List.mem_cons.mp hg with rfl | hg
      · exact le_rfl
      · exact (Nat.le_add_right _ _).trans (ih g hg)
    · exact ih g hg

/-- The offset of a later request is behind an earlier one. -/
theorem granted_pairwise :
    (granted size len cur as).Pairwise fun g h => g.1 + rup8 (size g.2) ≤ h.1 := by
  induction as generalizing cur with
  | nil => exact List.Pairwise.nil
  | cons a as ih =>
    rw [granted]
    split_ifs with ha
    · exact List.pairwise_cons.mpr ⟨fun h hh => le_of_mem_granted h hh, ih⟩
    · exact ih

/-- The end of a block, in terms of its offset and its size. -/
theorem blockStart_add_le_iff (g : ℕ × α) :
    blockStart size g + size g.2 ≤ len ↔ Fitting len g.1 (size g.2) := by
  unfold blockStart copyAddr Fitting
  rw [rup8_eq, rup8_eq]
  split_ifs <;> omega

/-- Two blocks are disjoint if one of them is empty or ends before the other. -/
theorem disjoint_block_iff {p n q m : ℕ} :
    Disjoint (Set.Ico p (p + n)) (Set.Ico q (q + m)) ↔ n = 0 ∨ m = 0 ∨ p + n ≤ q ∨ q + m ≤ p := by
  rw [Set.Ico_disjoint_Ico, min_le_iff, le_max_iff, le_max_iff]
  omega

/-- **When two blocks overlap.** -/
theorem disjoint_area_iff {g h : ℕ × α} (hgh : g.1 + rup8 (size g.2) ≤ h.1) :
    Disjoint (area size g) (area size h) ↔ ¬ Collide g.1 (size g.2) h.1 (size h.2) := by
  obtain ⟨c, a⟩ := g
  obtain ⟨c', b⟩ := h
  unfold area blockStart copyAddr Collide at *
  rw [disjoint_block_iff]
  dsimp only at hgh ⊢
  generalize size a = n at *
  generalize size b = n' at *
  -- only the four roundings matter; the rest is linear
  have hc := rup8_cases c
  have hc' := rup8_cases c'
  have hn := rup8_cases n
  have hn' := rup8_cases n'
  have hsmall : 2 * (c' - (c + n)) + n' < 8 → ¬ bit3 n' := by unfold bit3; omega
  rcases hc with ⟨hc, ec⟩ | ⟨hc, ec⟩ <;> rcases hc' with ⟨hc', ec'⟩ | ⟨hc', ec'⟩ <;>
    rcases hn with ⟨hn, en⟩ | ⟨hn, en⟩ <;> rcases hn' with ⟨hn', en'⟩ | ⟨hn', en'⟩ <;>
    simp only [hc, hc', hn, hn', ec, ec', en, en', not_true_eq_false, not_false_eq_true, true_and,
      false_and, and_false, imp_false, iff_true] at hgh hsmall ⊢ <;> omega

/-- **The blocks of granted requests**: inside the pool and disjoint exactly if none is in the way of
another. -/
theorem disjointed_iff :
    Disjointed size len (granted size len cur as) ↔ Clear size len (granted size len cur as) := by
  have hiff : ((granted size len cur as).Pairwise fun g h => Disjoint (area size g) (area size h)) ↔
      (granted size len cur as).Pairwise fun g h => ¬ Collide g.1 (size g.2) h.1 (size h.2) := by
    constructor
    · intro h
      exact (granted_pairwise.and h).imp fun hgh => (disjoint_area_iff hgh.1).mp hgh.2
    · intro h
      exact (granted_pairwise.and h).imp fun hgh => (disjoint_area_iff hgh.1).mpr hgh.2
  constructor
  · rintro ⟨hinside, hdisjoint⟩
    exact ⟨fun g hg => (blockStart_add_le_iff g).mp (hinside g hg), hiff.mp hdisjoint⟩
  · rintro ⟨hfitting, hapart⟩
    exact ⟨fun g hg => (blockStart_add_le_iff g).mpr (hfitting g hg), hiff.mpr hapart⟩

end Requests

/-! ## Calls on a pool -/

/-- A request that is granted. -/
theorem vjSimplePoolAlloc_of_le {pool : Pool} {n : ℕ} (h : pool.cur + n ≤ pool.len) :
    vjSimplePoolAlloc pool n = some (copyAddr pool.cur n, { pool with cur := pool.cur + rup8 n }) := by
  unfold vjSimplePoolAlloc
  rw [if_neg (by omega)]
  rfl

/-- A request that is refused. -/
theorem vjSimplePoolAlloc_of_lt {pool : Pool} {n : ℕ} (h : pool.len < pool.cur + n) :
    vjSimplePoolAlloc pool n = none := by
  unfold vjSimplePoolAlloc
  rw [if_pos (Or.inr h)]

/-- The calls on a pool. -/
inductive PoolOp where
  | alloc (s : ℕ)
  | reset
  deriving DecidableEq, Repr

/-- A call, on a pool and the blocks (where they start, and how long they are) that it handed out since
the last reset. -/
def callPool (st : Pool × List (ℕ × ℕ)) : PoolOp → Pool × List (ℕ × ℕ)
  | .alloc s =>
    match vjSimplePoolAlloc st.1 s with
    | none => st
    | some (addr, pool) => (pool, st.2 ++ [(addr, s)])
  | .reset => (vjSimplePoolReset st.1, [])

/-- The blocks that were handed out since the last reset. -/
def blocks (pool : Pool) (ops : List PoolOp) : List (ℕ × ℕ) := (ops.foldl callPool (pool, [])).2

/-- The sizes that were asked for since the last reset. -/
def asked (ops : List PoolOp) : List ℕ :=
  ops.foldl (fun sizes op => match op with | .alloc s => sizes ++ [s] | .reset => []) []

/-- The requests that a pool of `len` bytes granted since the last reset. -/
def grantedSince (len : ℕ) (ops : List PoolOp) : List (ℕ × ℕ) := granted id len 0 (asked ops)

/-- **The run of a pool**: its offset, and its blocks. -/
theorem callPool_run {s : ℕ} {pool : Pool} (hpool : vjSimplePoolInit s = some pool) (ops : List PoolOp) :
    (ops.foldl callPool (pool, [])).1.len = s ∧
      (ops.foldl callPool (pool, [])).1.cur = offset id s 0 (asked ops) ∧
      blocks pool ops = (grantedSince s ops).map fun g => (blockStart id g, g.2) := by
  unfold vjSimplePoolInit at hpool
  split_ifs at hpool with hs
  obtain rfl := Option.some.inj hpool
  unfold blocks grantedSince asked
  induction ops using List.reverseRecOn with
  | nil => exact ⟨rfl, rfl, rfl⟩
  | append_singleton ops op ih =>
    rw [List.foldl_append, List.foldl_append]
    generalize hst : ops.foldl callPool _ = st at *
    generalize ops.foldl _ [] = sizes at *
    obtain ⟨hlen, hcur, hblocks⟩ := ih
    cases op with
    | reset => exact ⟨hlen, rfl, rfl⟩
    | alloc n =>
      rw [List.foldl_cons, List.foldl_nil, List.foldl_cons, List.foldl_nil]
      dsimp only
      rw [granted_append_singleton, offset_append_singleton, List.map_append, ← hblocks]
      unfold callPool
      dsimp only [id_eq]
      by_cases hfits : offset id s 0 sizes + n ≤ s
      · rw [vjSimplePoolAlloc_of_le (by rw [hlen, hcur]; exact hfits), if_pos hfits, if_pos hfits, ← hcur]
        exact ⟨hlen, rfl, rfl⟩
      · rw [vjSimplePoolAlloc_of_lt (by rw [hlen, hcur]; omega), if_neg hfits, if_neg hfits, List.map_nil,
          List.append_nil]
        exact ⟨hlen, hcur, rfl⟩

/-! ## The messages of a link -/

section Messages

variable {buf : List UInt8} {bufLen : ℤ} {fuel : ℕ} {link link' : Link} {p : Packet}

/-- What `takePacket` keeps, the parser keeps. -/
theorem vjParseMsg_keeps {Inv : Link → Prop} {a : ℕ × Link} (hlink : Inv { link with queue := [] })
    (hkeep : ∀ l l' p, Inv l → Headed buf p → takePacket buf l p = .ok l' → Inv l')
    (hexit : ∀ l, Inv l → Inv { l with nQueued := l.queue.length, nRetrieved := 0 })
    (h : vjParseMsg fuel buf bufLen link = .ok a) : Inv a.2 := by
  have hvisits : ∀ t, Visits (inside bufLen) (parseRound buf) (0, { link with queue := [] }) t →
      Inv t.2 := by
    intro t ht
    induction ht with
    | first => exact hlink
    | next _ _ hr ih =>
      obtain ⟨p, link', -, hp, htake, -, rfl⟩ := parseRound_again.mp hr
      exact hkeep _ _ p ih hp htake
  obtain ⟨t, ht, ⟨-, hx⟩ | ⟨-, ⟨r, hr, hx⟩ | ⟨f, -, hx⟩⟩⟩ := roundLoop_stops h fun heq => by cases heq
  · obtain rfl := Except.ok.inj hx
    exact hexit _ (hvisits t ht)
  · obtain rfl := Except.ok.inj hx
    obtain ⟨x, hx, hr⟩ := bind_eq_ok.mp hr
    cases x with
    | none =>
      obtain rfl := Round.leave.inj (Except.ok.inj hr)
      exact hvisits t ht
    | some p =>
      obtain ⟨-, hp⟩ := parseHeader_eq_some.mp hx
      obtain ⟨link', htake, hr⟩ := bind_eq_ok.mp hr
      split_ifs at hr with hfull
      · obtain rfl := Round.leave.inj (Except.ok.inj hr)
        exact hkeep _ _ p (hvisits t ht) hp htake
      · cases Except.ok.inj hr
  · cases hx

/-- The bytes that the parser asks the pool for. -/
def Packet.room (p : Packet) : ℕ := toSize p.size

/-- The message that is queued for a granted packet. -/
def queuedAt (g : ℕ × Packet) : Message where
  msg := blockStart Packet.room g
  len := g.2.len
  src := g.2.start

/-- The parser asked a pool of `len` bytes for room for these packets, and queued what was granted. -/
def QueuedFor (buf : List UInt8) (len : ℕ) (link : Link) (ps : List Packet) : Prop :=
  (∀ p ∈ ps, Headed buf p ∧ p.wanted = true) ∧ link.queue = (granted Packet.room len 0 ps).map queuedAt ∧
    ∃ pool, link.pool = some pool ∧ pool.len = len ∧ pool.cur = offset Packet.room len 0 ps

theorem takePacket_queued {len : ℕ} {ps : List Packet} (hlink : QueuedFor buf len link ps)
    (hp : Headed buf p) (htake : takePacket buf link p = .ok link') :
    ∃ ps, QueuedFor buf len link' ps := by
  unfold takePacket at htake
  split_ifs at htake with hwanted
  · obtain ⟨hps, hqueue, pool, hpool, hlen, hcur⟩ := hlink
    have hps' : ∀ q ∈ ps ++ [p], Headed buf q ∧ q.wanted = true := by
      intro q hq
      rcases List.mem_append.mp hq with hq | hq
      · exact hps q hq
      · rw [List.mem_singleton.mp hq]
        exact ⟨hp, hwanted⟩
    obtain ⟨-, pool', hpool', hcases⟩ := enqueue_cases htake
    obtain rfl := Option.some.inj (hpool.symm.trans hpool')
    refine ⟨ps ++ [p], hps', ?_⟩
    rw [granted_append_singleton, offset_append_singleton, List.map_append, ← hqueue]
    by_cases hfits : offset Packet.room len 0 ps + p.room ≤ len
    · have halloc := @vjSimplePoolAlloc_of_le pool p.room (by rw [hlen, hcur]; exact hfits)
      rcases hcases with ⟨hnone, -⟩ | ⟨addr, pool', bytes, mem, hsome, -, -, rfl⟩
      · cases hnone.symm.trans halloc
      · obtain ⟨rfl, rfl⟩ := Prod.mk.inj (Option.some.inj (hsome.symm.trans halloc))
        rw [if_pos hfits, if_pos hfits, ← hcur]
        exact ⟨rfl, _, rfl, hlen, rfl⟩
    · have halloc := @vjSimplePoolAlloc_of_lt pool p.room (by rw [hlen, hcur]; omega)
      rcases hcases with ⟨-, rfl⟩ | ⟨addr, pool', bytes, mem, hsome, -⟩
      · rw [if_neg hfits, if_neg hfits, List.map_nil, List.append_nil]
        exact ⟨rfl, pool, hpool, hlen, hcur⟩
      · cases hsome.symm.trans halloc
  · obtain rfl := Except.ok.inj htake
    exact ⟨ps, hlink⟩

/-- **What the parser queues**: the packets that its pool granted, in the blocks of the pool. -/
theorem vjParseMsg_queued {pool : Pool} {a : ℕ × Link} (hpool : link.pool = some pool) (hcur : pool.cur = 0)
    (h : vjParseMsg fuel buf bufLen link = .ok a) : ∃ ps, QueuedFor buf pool.len a.2 ps :=
  @vjParseMsg_keeps _ _ _ _ (fun l => ∃ ps, QueuedFor buf pool.len l ps) _
    ⟨[], fun _ hq => absurd hq List.not_mem_nil, rfl, pool, hpool, rfl, hcur⟩
    (fun _ _ _ ⟨_, hps⟩ hp htake => takePacket_queued hps hp htake)
    (fun _ ⟨ps, hps⟩ => ⟨ps, hps⟩) h

end Messages

/-! ## Disjoint blocks -/

/-- The blocks of a pool of `len` bytes: inside it, and disjoint. -/
def BlocksDisjoint (len : ℕ) (bs : List (ℕ × ℕ)) : Prop :=
  (∀ b ∈ bs, b.1 + b.2 ≤ len) ∧
    bs.Pairwise fun b b' => Disjoint (Set.Ico b.1 (b.1 + b.2)) (Set.Ico b'.1 (b'.1 + b'.2))

/-- The blocks of granted requests, as pairs. -/
theorem blocksDisjoint_map {α : Type} {size : α → ℕ} {len : ℕ} (gs : List (ℕ × α)) :
    BlocksDisjoint len (gs.map fun g => (blockStart size g, size g.2)) ↔ Disjointed size len gs := by
  unfold BlocksDisjoint
  rw [List.forall_mem_map, List.pairwise_map]
  exact ⟨fun h => ⟨h.1, h.2⟩, fun h => ⟨h.1, h.2⟩⟩

/-- **Exactly when the blocks of a pool are inside it and disjoint**, after every sequence of calls; the
messages that the parser queues are such blocks. -/
theorem blocks_clear_iff {s : ℕ} {pool : Pool} (hpool : vjSimplePoolInit s = some pool) :
    (∀ ops, BlocksDisjoint s (blocks pool ops) ↔ Clear id s (grantedSince s ops)) ∧
      ∀ {link : Link} {fuel : ℕ} {buf : List UInt8} {bufLen : ℤ} {a : ℕ × Link}, link.pool = some pool →
        vjParseMsg fuel buf bufLen link = .ok a →
        ∃ ps : List Packet, (∀ p ∈ ps, Headed buf p ∧ p.wanted = true) ∧
          a.2.queue = (granted Packet.room s 0 ps).map queuedAt ∧
          (BlocksDisjoint s ((granted Packet.room s 0 ps).map fun g => ((queuedAt g).msg, g.2.room)) ↔
            Clear Packet.room s (granted Packet.room s 0 ps)) := by
  constructor
  · intro ops
    rw [(callPool_run hpool ops).2.2]
    exact (blocksDisjoint_map _).trans disjointed_iff
  · intro link fuel buf bufLen a hlink ha
    have hinit : pool.len = s ∧ pool.cur = 0 := by
      unfold vjSimplePoolInit at hpool
      split_ifs at hpool
      obtain rfl := Option.some.inj hpool
      exact ⟨rfl, rfl⟩
    obtain ⟨ps, hps, hqueue, -⟩ := vjParseMsg_queued hlink hinit.2 ha
    rw [hinit.1] at hqueue
    exact ⟨ps, hps, hqueue, (blocksDisjoint_map _).trans disjointed_iff⟩

/-- A pool of 64 bytes. -/
def smallPool : Pool where
  len := 64
  mem := List.replicate 64 0
  cur := 0
  small := by norm_num

/-- Two blocks of eight bytes in a pool of 64, and a message that the parser queues there. -/
theorem blocks_clear_intro :
    BlocksDisjoint 64 (blocks smallPool [.alloc 40, .reset, .alloc 8, .alloc 8]) ∧
      ∃ a, vjParseMsg 2 (lit "V005D600:;") 10 (freshLink (some smallPool)) = .ok a ∧ a.1 = 1 ∧
        ∃ ps : List Packet, a.2.queue = (granted Packet.room 64 0 ps).map queuedAt := by
  have h := blocks_clear_iff (s := 64) (show vjSimplePoolInit 64 = some smallPool from rfl)
  refine ⟨(h.1 _).mpr ⟨by decide, by decide⟩, ?_⟩
  obtain ⟨a, ha, hone⟩ : ∃ a, vjParseMsg 2 (lit "V005D600:;") 10 (freshLink (some smallPool)) = .ok a ∧
      a.1 = 1 := ⟨_, rfl, rfl⟩
  obtain ⟨ps, -, hqueue, -⟩ := h.2 rfl ha
  exact ⟨a, ha, hone, ps, hqueue⟩

/-- Four messages of five bytes, for each of which six bytes of the pool of a link are asked: the fourth
block starts inside the third one. -/
theorem blocks_collide : ¬ ∀ (s : ℕ) (pool : Pool) (ops : List PoolOp), vjSimplePoolInit s = some pool →
    BlocksDisjoint s (blocks pool ops) := by
  intro h
  obtain ⟨pool, hpool⟩ : ∃ pool, vjSimplePoolInit msgPoolSize = some pool := ⟨_, rfl⟩
  have hdisjoint := (h _ pool (List.replicate 4 (.alloc 6)) hpool).2
  rw [(callPool_run hpool _).2.2] at hdisjoint
  have hblocks : ((grantedSince msgPoolSize (List.replicate 4 (.alloc 6))).map fun g =>
      (blockStart id g, g.2)) = [(6, 6), (18, 6), (38, 6), (42, 6)] := by decide
  rw [hblocks] at hdisjoint
  have hlast := List.pairwise_iff_getElem.mp hdisjoint 2 3 (by decide) (by decide) (by decide)
  exact Set.disjoint_left.mp hlast (show 42 ∈ Set.Ico 38 44 by decide) (show 42 ∈ Set.Ico 42 48 by decide)

end Veejay.Net
