import Veejay.CLib.Exec

/-!
# The memory pool of a port

A port takes the blocks of its nodes and values from a pool (`libvevo/pool.c`).  For each base type the pool has a list
of magazines, each a stack of pointers to blocks.  A block that is freed goes on whichever magazine has room.

* `Space`, `Pool` — `space_t`, `pool_t`;
* `vevoPoolInit`, `vevoPoolAlloc`, `vevoPoolFree` — the functions;
* `Space.loaded` — the blocks that a magazine can hand out;
* `vevoPoolAlloc_spec`, `vevoPoolFree_spec` — one block moves between the magazines and the client;
* `Sound` — the invariant: all blocks are different, and each is in one magazine or with the client;
* `pool_sound` — **no block is handed out twice, magazines do not overflow, and no block is lost**.
-/

namespace Veejay.VevoPool

open CLib

/-! ## The pool -/

/-- `ROUNDS_PER_MAG` -/
def roundsPerMag : ℕ := 16

/-- The base types, `M4b` to `M64b`. -/
inductive Base where
  | m4b
  | m8b
  | mpb
  | mstor
  | matom
  | midx
  | mprop
  | m64b
  deriving DecidableEq

/-- A pointer: NULL, or an allocated area and the offset of a block in it. -/
abbrev Ptr := Option (ℕ × ℕ)

/-- `space_t`, less its link: the array `mag` has `ROUNDS_PER_MAG + 2` entries. -/
structure Space where
  mag : List Ptr
  rounds : ℕ

/-- `alloc_space`: `ROUNDS_PER_MAG + 1` blocks of the new area, one more than there are rounds. -/
def allocSpace (area bs : ℕ) : Space where
  mag := (List.range (roundsPerMag + 1)).map (fun k => some (area, k * bs)) ++ [none]
  rounds := roundsPerMag

/-- `pool_t`: the magazines of each base type from the first one on.  `areas` counts what has been allocated. -/
structure Pool where
  spaces : Base → List Space
  areas : ℕ

/-- The sizes that `vevo_pool_init` is called with, of types. -/
structure Sizes where
  prop : ℕ
  stor : ℕ
  atom : ℕ
  index : ℕ
  prop_pos : 0 < prop
  stor_pos : 0 < stor
  atom_pos : 0 < atom
  index_pos : 0 < index

/-- The size of the blocks of the first magazine. -/
def Sizes.block (sizes : Sizes) : Base → ℕ
  | .m4b => 4
  | .m8b => 8
  | .mpb => 8
  | .mstor => sizes.stor
  | .matom => sizes.atom
  | .midx => sizes.index
  | .mprop => sizes.prop
  | .m64b => 8

/-- The order in which `vevo_pool_init` allocates. -/
def Base.order : Base → ℕ
  | .m4b => 0
  | .m8b => 1
  | .mpb => 2
  | .m64b => 3
  | .mprop => 4
  | .mstor => 5
  | .matom => 6
  | .midx => 7

/-- `vevo_pool_init` -/
def vevoPoolInit (sizes : Sizes) : Pool where
  spaces := fun k => [allocSpace k.order (sizes.block k)]
  areas := 8

def Pool.setSpaces (p : Pool) (k : Base) (spaces : List Space) : Pool :=
  { p with spaces := Function.update p.spaces k spaces }

/-- `mag[ --space->rounds ]`, for a magazine with a round -/
def Space.pop (s : Space) : Exec (Ptr × Space) :=
  match s.mag[s.rounds - 1]? with
  | none => .error .outOfBounds
  | some ptr => .ok (ptr, { s with rounds := s.rounds - 1 })

/-- `vevo_pool_alloc` -/
def vevoPoolAlloc (p : Pool) (bs : ℕ) (k : Base) : Exec (Ptr × Pool) :=
  match p.spaces k with
  | [] => .error .nullPointer
  | space :: spaces =>
    if space.rounds = 0 then do
      let (ptr, m) ← (allocSpace p.areas bs).pop
      .ok (ptr, { p.setSpaces k (m :: space :: spaces) with areas := p.areas + 1 })
    else do
      let (ptr, space) ← space.pop
      .ok (ptr, p.setSpaces k (space :: spaces))

/-- `mag[ l->rounds ++ ] = ptr` -/
def Space.push (s : Space) (ptr : Ptr) : Exec Space :=
  if s.rounds < s.mag.length then .ok ⟨s.mag.set s.rounds ptr, s.rounds + 1⟩ else .error .outOfBounds

/-- The loop of `vevo_pool_free`: nothing where no magazine has room. -/
def freeLoop (ptr : Ptr) : List Space → Exec (Option (List Space))
  | [] => .ok none
  | l :: ls =>
    if l.rounds < roundsPerMag then do
      let l ← l.push ptr
      .ok (some (l :: ls))
    else do
      let rest ← freeLoop ptr ls
      .ok (rest.map (l :: ·))

/-- The last line of `vevo_pool_free` -/
def pushFirst (p : Pool) (ptr : Ptr) (k : Base) (space : Space) (spaces : List Space) : Exec Pool := do
  let space ← space.push ptr
  .ok (p.setSpaces k (space :: spaces))

/-- `vevo_pool_free` -/
def vevoPoolFree (p : Pool) (ptr : Ptr) (k : Base) : Exec Pool :=
  match p.spaces k with
  | [] => .error .nullPointer
  | space :: spaces =>
    if space.rounds = roundsPerMag then do
      let found ← freeLoop ptr (space :: spaces)
      match found with
      | some spaces => .ok (p.setSpaces k spaces)
      | none => pushFirst p ptr k space spaces
    else pushFirst p ptr k space spaces

/-! ## One magazine -/

/-- The blocks that a magazine can hand out. -/
def Space.loaded (s : Space) : List Ptr := s.mag.take s.rounds

/-- The array has its length, and the rounds are in range. -/
structure Space.Fits (s : Space) : Prop where
  length : s.mag.length = roundsPerMag + 2
  rounds_le : s.rounds ≤ roundsPerMag

theorem Space.Fits.loaded_length {s : Space} (h : s.Fits) : s.loaded.length = s.rounds := by
  rw [Space.loaded, List.length_take, h.length]
  have hle := h.rounds_le
  omega

theorem fits_allocSpace (area bs : ℕ) : (allocSpace area bs).Fits where
  length := by simp [allocSpace]
  rounds_le := le_rfl

/-- The blocks of a new magazine. -/
theorem loaded_allocSpace (area bs : ℕ) :
    (allocSpace area bs).loaded = (List.range roundsPerMag).map fun k => some (area, k * bs) := by
  rw [Space.loaded, allocSpace, List.take_append_of_le_length (by simp), ← List.map_take, List.take_range]
  rfl

theorem nodup_allocSpace (area : ℕ) {bs : ℕ} (hbs : 0 < bs) : (allocSpace area bs).loaded.Nodup := by
  rw [loaded_allocSpace]
  refine List.Nodup.map (fun i j hij => ?_) List.nodup_range
  have hmul : i * bs = j * bs := (Prod.mk.inj (Option.some.inj hij)).2
  exact Nat.eq_of_mul_eq_mul_right hbs hmul

/-- The area of a block; NULL has none. -/
def InArea (P : ℕ → Prop) (ptr : Ptr) : Prop := ∃ area offset, ptr = some (area, offset) ∧ P area

theorem inArea_allocSpace {area bs : ℕ} {ptr : Ptr} (h : ptr ∈ (allocSpace area bs).loaded) :
    InArea (· = area) ptr := by
  rw [loaded_allocSpace] at h
  obtain ⟨k, -, rfl⟩ := List.mem_map.mp h
  exact ⟨area, k * bs, rfl, rfl⟩

/-- Taking a round. -/
theorem Space.Fits.pop {s : Space} (h : s.Fits) (hrounds : s.rounds ≠ 0) :
    ∃ ptr s', s.pop = .ok (ptr, s') ∧ s'.Fits ∧ s.loaded.Perm (ptr :: s'.loaded) := by
  have hle := h.rounds_le
  have hlen := h.length
  obtain ⟨ptr, hptr⟩ : ∃ ptr, s.mag[s.rounds - 1]? = some ptr :=
    ⟨_, List.getElem?_eq_getElem (by omega)⟩
  refine ⟨ptr, { s with rounds := s.rounds - 1 }, by rw [Space.pop, hptr], ⟨hlen, ?_⟩, ?_⟩
  · change s.rounds - 1 ≤ roundsPerMag
    omega
  · obtain ⟨n, hn⟩ := Nat.exists_eq_succ_of_ne_zero hrounds
    have hn' : s.rounds - 1 = n := by omega
    simp only [Space.loaded]
    rw [hn'] at hptr ⊢
    rw [hn, List.take_add_one, hptr]
    exact List.perm_append_singleton ptr _

/-- Putting a round back. -/
theorem Space.Fits.push {s : Space} (h : s.Fits) (hroom : s.rounds < roundsPerMag) (ptr : Ptr) :
    ∃ s', s.push ptr = .ok s' ∧ s'.Fits ∧ s'.loaded.Perm (ptr :: s.loaded) := by
  have hlen := h.length
  have hlt : s.rounds < s.mag.length := by omega
  refine ⟨⟨s.mag.set s.rounds ptr, s.rounds + 1⟩, by rw [Space.push, if_pos hlt], ⟨?_, hroom⟩, ?_⟩
  · rw [List.length_set, hlen]
  · simp only [Space.loaded]
    rw [List.take_add_one, List.getElem?_set_self hlt, List.take_set_of_le le_rfl]
    exact List.perm_append_singleton ptr _

/-! ## The magazines of one base type -/

/-- The blocks that the magazines of a base type can hand out. -/
def Pool.loaded (p : Pool) (k : Base) : List Ptr := (p.spaces k).flatMap Space.loaded

theorem loaded_cons {p : Pool} {k : Base} {s : Space} {ss : List Space} (h : p.spaces k = s :: ss) :
    p.loaded k = s.loaded ++ ss.flatMap Space.loaded := by rw [Pool.loaded, h, List.flatMap_cons]

@[simp] theorem setSpaces_spaces (p : Pool) (k : Base) (spaces : List Space) :
    (p.setSpaces k spaces).spaces k = spaces := Function.update_self ..

theorem setSpaces_other {p : Pool} {k k' : Base} (h : k' ≠ k) (spaces : List Space) :
    (p.setSpaces k spaces).spaces k' = p.spaces k' := Function.update_of_ne h ..

/-- The rounds of the magazines are the blocks they hand out. -/
theorem loaded_length {ss : List Space} (h : ∀ s ∈ ss, s.Fits) :
    (ss.flatMap Space.loaded).length = (ss.map Space.rounds).sum := by
  rw [List.length_flatMap]
  exact congrArg List.sum (List.map_congr_left fun s hs => (h s hs).loaded_length)

/-- A new magazine before the others. -/
def Pool.grow (p : Pool) (bs : ℕ) (k : Base) : Pool :=
  { p.setSpaces k (allocSpace p.areas bs :: p.spaces k) with areas := p.areas + 1 }

/-- The last line of `vevo_pool_alloc` -/
def Pool.take (p : Pool) (k : Base) : Exec (Ptr × Pool) :=
  match p.spaces k with
  | [] => .error .nullPointer
  | space :: spaces => do
    let (ptr, space) ← space.pop
    .ok (ptr, p.setSpaces k (space :: spaces))

theorem vevoPoolAlloc_eq {p : Pool} {bs : ℕ} {k : Base} {s : Space} {ss : List Space} (h : p.spaces k = s :: ss) :
    vevoPoolAlloc p bs k = if s.rounds = 0 then (p.grow bs k).take k else p.take k := by
  simp only [vevoPoolAlloc, h]
  by_cases hs : s.rounds = 0
  · rw [if_pos hs, if_pos hs]
    simp only [Pool.take, Pool.grow, setSpaces_spaces, h]
    cases (allocSpace p.areas bs).pop with
    | error f => rfl
    | ok a => simp only [ok_bind, Pool.setSpaces, Function.update_idem]
  · rw [if_neg hs, if_neg hs, Pool.take, h]

/-- What a base type's magazines are after a step: they fit, and are as many as before. -/
structure SameRoom (p : Pool) (k : Base) (p' : Pool) : Prop where
  spaces_other : ∀ k', k' ≠ k → p'.spaces k' = p.spaces k'
  areas : p'.areas = p.areas
  fits : ∀ s ∈ p'.spaces k, s.Fits
  length : (p'.spaces k).length = (p.spaces k).length

theorem sameRoom_setSpaces {p : Pool} {k : Base} {spaces : List Space} (hfits : ∀ s ∈ spaces, s.Fits)
    (hlength : spaces.length = (p.spaces k).length) : SameRoom p k (p.setSpaces k spaces) where
  spaces_other := fun _ h => setSpaces_other h spaces
  areas := rfl
  fits := by rwa [setSpaces_spaces]
  length := by rwa [setSpaces_spaces]

theorem take_spec {p : Pool} {k : Base} {s : Space} {ss : List Space} (h : p.spaces k = s :: ss)
    (hfits : ∀ s ∈ p.spaces k, s.Fits) (hrounds : s.rounds ≠ 0) :
    ∃ ptr p', p.take k = .ok (ptr, p') ∧ SameRoom p k p' ∧ (p.loaded k).Perm (ptr :: p'.loaded k) := by
  rw [h] at hfits
  obtain ⟨ptr, s', hpop, hs', hperm⟩ := (hfits s List.mem_cons_self).pop hrounds
  refine ⟨ptr, p.setSpaces k (s' :: ss), by simp only [Pool.take, h, hpop, ok_bind], ?_, ?_⟩
  · refine sameRoom_setSpaces (fun s₁ hs₁ => ?_) (by rw [h, List.length_cons, List.length_cons])
    rcases List.mem_cons.mp hs₁ with rfl | hs₁
    · exact hs'
    · exact hfits s₁ (List.mem_cons_of_mem s hs₁)
  · rw [loaded_cons h, loaded_cons (setSpaces_spaces p k _)]
    exact hperm.append_right _

/-- Where a magazine has room, the loop finds one. -/
theorem freeLoop_spec (ptr : Ptr) {ss : List Space} (hfits : ∀ s ∈ ss, s.Fits)
    (hroom : ∃ s ∈ ss, s.rounds < roundsPerMag) :
    ∃ ss', freeLoop ptr ss = .ok (some ss') ∧ (∀ s ∈ ss', s.Fits) ∧ ss'.length = ss.length ∧
      (ss'.flatMap Space.loaded).Perm (ptr :: ss.flatMap Space.loaded) := by
  induction ss with
  | nil =>
    obtain ⟨s, hs, -⟩ := hroom
    cases hs
  | cons s ss ih =>
    have hs := hfits s List.mem_cons_self
    have hss := fun s' hs' => hfits s' (List.mem_cons_of_mem s hs')
    rw [freeLoop]
    by_cases hlt : s.rounds < roundsPerMag
    · obtain ⟨s', hpush, hs', hperm⟩ := hs.push hlt ptr
      refine ⟨s' :: ss, by rw [if_pos hlt, hpush, ok_bind], List.forall_mem_cons.mpr ⟨hs', hss⟩, rfl, ?_⟩
      exact hperm.append_right _
    · have hrest : ∃ s' ∈ ss, s'.rounds < roundsPerMag := by
        obtain ⟨s', hmem, hs'⟩ := hroom
        rcases List.mem_cons.mp hmem with rfl | hmem
        · exact absurd hs' hlt
        · exact ⟨s', hmem, hs'⟩
      obtain ⟨ss', hloop, hfits', hlength, hperm⟩ := ih hss hrest
      refine ⟨s :: ss', by rw [if_neg hlt, hloop, ok_bind, Option.map_some],
        List.forall_mem_cons.mpr ⟨hs, hfits'⟩, by rw [List.length_cons, hlength, List.length_cons], ?_⟩
      rw [List.flatMap_cons, List.flatMap_cons]
      exact (hperm.append_left s.loaded).trans List.perm_middle

theorem vevoPoolFree_spec {p : Pool} {k : Base} (ptr : Ptr) (hfits : ∀ s ∈ p.spaces k, s.Fits)
    (hroom : ∃ s ∈ p.spaces k, s.rounds < roundsPerMag) :
    ∃ p', vevoPoolFree p ptr k = .ok p' ∧ SameRoom p k p' ∧ (p'.loaded k).Perm (ptr :: p.loaded k) := by
  obtain ⟨s, ss, h⟩ : ∃ s ss, p.spaces k = s :: ss := by
    obtain ⟨s, hs, -⟩ := hroom
    exact List.exists_cons_of_ne_nil (List.ne_nil_of_mem hs)
  rw [h] at hfits hroom
  simp only [vevoPoolFree, h]
  by_cases hfull : s.rounds = roundsPerMag
  · obtain ⟨ss', hloop, hfits', hlength, hperm⟩ := freeLoop_spec ptr hfits hroom
    refine ⟨p.setSpaces k ss', by rw [if_pos hfull, hloop, ok_bind], ?_, ?_⟩
    · exact sameRoom_setSpaces hfits' (by rw [hlength, h])
    · rw [Pool.loaded, Pool.loaded, setSpaces_spaces, h]
      exact hperm
  · have hs := hfits s List.mem_cons_self
    have hlt : s.rounds < roundsPerMag := lt_of_le_of_ne hs.rounds_le hfull
    obtain ⟨s', hpush, hs', hperm⟩ := hs.push hlt ptr
    refine ⟨p.setSpaces k (s' :: ss), by rw [if_neg hfull, pushFirst, hpush, ok_bind], ?_, ?_⟩
    · refine sameRoom_setSpaces (List.forall_mem_cons.mpr ⟨hs', fun s₁ hs₁ => ?_⟩) (by rw [h]; rfl)
      exact hfits s₁ (List.mem_cons_of_mem s hs₁)
    · rw [loaded_cons h, loaded_cons (setSpaces_spaces p k _)]
      exact hperm.append_right _

/-! ## The pool and its client -/

/-- The pool, and the blocks of each base type that it handed out and that are not freed. -/
structure Client where
  pool : Pool
  held : Base → List Ptr

inductive Op where
  | alloc (bs : ℕ) (k : Base)
  | free (ptr : Ptr) (k : Base)

/-- One call, with the block it returns. -/
def step (c : Client) : Op → Exec (Ptr × Client)
  | .alloc bs k => do
    let (ptr, pool) ← vevoPoolAlloc c.pool bs k
    .ok (ptr, ⟨pool, Function.update c.held k (ptr :: c.held k)⟩)
  | .free ptr k => do
    let pool ← vevoPoolFree c.pool ptr k
    .ok (none, ⟨pool, Function.update c.held k ((c.held k).erase ptr)⟩)

/-- The pool of a new port. -/
def Client.start (sizes : Sizes) : Client := ⟨vevoPoolInit sizes, fun _ => []⟩

/-- Blocks have a size, as every type has, and what is freed was obtained from the pool as that base type. -/
def Obtained (c : Client) : Op → Prop
  | .alloc bs _ => 0 < bs
  | .free ptr k => ptr ∈ c.held k

/-- The blocks of a base type, in the magazines or with the client. -/
def Client.blocks (c : Client) (k : Base) : List Ptr := c.pool.loaded k ++ c.held k

/-- **The invariant.**  All blocks are different, within a base type and between them, and there are as many of them as
the magazines were made with. -/
structure Sound (c : Client) : Prop where
  some : ∀ k, c.pool.spaces k ≠ []
  fits : ∀ k, ∀ s ∈ c.pool.spaces k, s.Fits
  nodup : ∀ k, (c.blocks k).Nodup
  apart : ∀ k k' ptr, ptr ∈ c.blocks k → ptr ∈ c.blocks k' → k = k'
  areas : ∀ k, ∀ ptr ∈ c.blocks k, InArea (· < c.pool.areas) ptr
  count : ∀ k, (c.blocks k).length = roundsPerMag * (c.pool.spaces k).length

/-- What clients can tell: counters in range, and free rounds plus outstanding blocks. -/
structure Conserved (c : Client) : Prop where
  rounds_le : ∀ k, ∀ s ∈ c.pool.spaces k, s.rounds ≤ roundsPerMag
  count : ∀ k, ((c.pool.spaces k).map Space.rounds).sum + (c.held k).length =
    roundsPerMag * (c.pool.spaces k).length

/-- What one call shows: a block that is not outstanding, or a magazine with room. -/
def Shows (c : Client) (op : Op) (ptr : Ptr) (c' : Client) : Prop :=
  (match op with
    | .alloc _ _ => ptr ≠ none ∧ ∀ k, ptr ∉ c.held k
    | .free _ k => ∃ s ∈ c.pool.spaces k, s.rounds < roundsPerMag) ∧ Conserved c'

theorem Sound.conserved {c : Client} (h : Sound c) : Conserved c where
  rounds_le := fun k s hs => (h.fits k s hs).rounds_le
  count := by
    intro k
    rw [← loaded_length (h.fits k), ← h.count k, Client.blocks, List.length_append]
    rfl

/-- The first magazines lie in areas of their own. -/
theorem order_inj {k k' : Base} (h : k.order = k'.order) : k = k' := by
  cases k <;> cases k' <;> first | rfl | cases h

theorem block_pos (sizes : Sizes) (k : Base) : 0 < sizes.block k := by
  cases k with
  | m4b => exact Nat.succ_pos _
  | m8b => exact Nat.succ_pos _
  | mpb => exact Nat.succ_pos _
  | mstor => exact sizes.stor_pos
  | matom => exact sizes.atom_pos
  | midx => exact sizes.index_pos
  | mprop => exact sizes.prop_pos
  | m64b => exact Nat.succ_pos _

theorem blocks_start (sizes : Sizes) (k : Base) :
    (Client.start sizes).blocks k = (allocSpace k.order (sizes.block k)).loaded := by
  simp [Client.blocks, Client.start, Pool.loaded, vevoPoolInit]

theorem sound_start (sizes : Sizes) : Sound (Client.start sizes) where
  some := fun k => List.cons_ne_nil _ _
  fits := fun k s hs => List.mem_singleton.mp hs ▸ fits_allocSpace _ _
  nodup := fun k => blocks_start sizes k ▸ nodup_allocSpace _ (block_pos sizes k)
  apart := by
    intro k k' ptr h h'
    rw [blocks_start] at h h'
    obtain ⟨_, _, hptr, rfl⟩ := inArea_allocSpace h
    obtain ⟨_, _, hptr', rfl⟩ := inArea_allocSpace h'
    exact order_inj (Prod.mk.inj (Option.some.inj (hptr.symm.trans hptr'))).1
  areas := by
    intro k ptr h
    rw [blocks_start] at h
    obtain ⟨area, offset, rfl, rfl⟩ := inArea_allocSpace h
    refine ⟨k.order, offset, rfl, ?_⟩
    change k.order < 8
    cases k <;> decide
  count := by
    intro k
    rw [blocks_start, (fits_allocSpace _ _).loaded_length]
    rfl

/-- **A block moves** between the magazines and the client, and nothing else changes. -/
theorem Sound.move {c : Client} (h : Sound c) {k : Base} {p' : Pool} {held' : List Ptr}
    (hroom : SameRoom c.pool k p') (hperm : (c.blocks k).Perm (p'.loaded k ++ held')) :
    Sound ⟨p', Function.update c.held k held'⟩ := by
  have hblocks : ∀ k', (c.blocks k').Perm (Client.blocks ⟨p', Function.update c.held k held'⟩ k') := by
    intro k'
    by_cases hk : k' = k
    · subst hk
      simp only [Client.blocks, Function.update_self] at hperm ⊢
      exact hperm
    · simp only [Client.blocks, Pool.loaded, hroom.spaces_other k' hk, Function.update_of_ne hk]
      exact List.Perm.refl _
  have hlength : ∀ k', (p'.spaces k').length = (c.pool.spaces k').length := by
    intro k'
    by_cases hk : k' = k
    · subst hk
      exact hroom.length
    · rw [hroom.spaces_other k' hk]
  exact {
    some := fun k' hnil => h.some k' (List.length_eq_zero_iff.mp (by rw [← hlength k', hnil]; rfl))
    fits := by
      intro k' s hs
      by_cases hk : k' = k
      · subst hk
        exact hroom.fits s hs
      · rw [hroom.spaces_other k' hk] at hs
        exact h.fits k' s hs
    nodup := fun k' => (hblocks k').nodup_iff.mp (h.nodup k')
    apart := fun k₁ k₂ ptr h₁ h₂ => h.apart k₁ k₂ ptr ((hblocks k₁).mem_iff.mpr h₁) ((hblocks k₂).mem_iff.mpr h₂)
    areas := fun k' ptr hptr => hroom.areas ▸ h.areas k' ptr ((hblocks k').mem_iff.mpr hptr)
    count := fun k' => by rw [← (hblocks k').length_eq, h.count k', hlength k'] }

theorem blocks_grow_self (c : Client) (bs : ℕ) (k : Base) :
    Client.blocks ⟨c.pool.grow bs k, c.held⟩ k = (allocSpace c.pool.areas bs).loaded ++ c.blocks k := by
  have hspaces : (c.pool.grow bs k).spaces k = allocSpace c.pool.areas bs :: c.pool.spaces k :=
    setSpaces_spaces c.pool k _
  rw [Client.blocks, loaded_cons hspaces, List.append_assoc]
  rfl

theorem blocks_grow_other (c : Client) (bs : ℕ) {k k' : Base} (hk : k' ≠ k) :
    Client.blocks ⟨c.pool.grow bs k, c.held⟩ k' = c.blocks k' := by
  have hspaces : (c.pool.grow bs k).spaces k' = c.pool.spaces k' := setSpaces_other hk _
  rw [Client.blocks, Pool.loaded, hspaces]
  rfl

/-- The blocks after a new magazine: an old one, or one of the new area. -/
theorem mem_blocks_grow {c : Client} {bs : ℕ} {k k' : Base} {ptr : Ptr}
    (h : ptr ∈ Client.blocks ⟨c.pool.grow bs k, c.held⟩ k') :
    ptr ∈ c.blocks k' ∨ k' = k ∧ InArea (· = c.pool.areas) ptr := by
  by_cases hk : k' = k
  · subst hk
    rw [blocks_grow_self] at h
    rcases List.mem_append.mp h with hnew | hold
    · exact Or.inr ⟨rfl, inArea_allocSpace hnew⟩
    · exact Or.inl hold
  · rw [blocks_grow_other c bs hk] at h
    exact Or.inl h

/-- No block is in a new area. -/
theorem Sound.not_new {c : Client} (h : Sound c) {k : Base} {ptr : Ptr} (hptr : ptr ∈ c.blocks k) :
    ¬ InArea (· = c.pool.areas) ptr := by
  rintro ⟨area, offset, rfl, rfl⟩
  obtain ⟨area', offset', heq, hlt⟩ := h.areas k _ hptr
  obtain ⟨rfl, -⟩ := Prod.mk.inj (Option.some.inj heq)
  exact lt_irrefl _ hlt

theorem Sound.grow {c : Client} (h : Sound c) {bs : ℕ} (hbs : 0 < bs) (k : Base) :
    Sound ⟨c.pool.grow bs k, c.held⟩ := by
  have hself : (c.pool.grow bs k).spaces k = allocSpace c.pool.areas bs :: c.pool.spaces k :=
    setSpaces_spaces c.pool k _
  have hother : ∀ k', k' ≠ k → (c.pool.grow bs k).spaces k' = c.pool.spaces k' := fun k' hk => setSpaces_other hk _
  refine ⟨fun k' => ?_, fun k' s hs => ?_, fun k' => ?_, fun k₁ k₂ ptr h₁ h₂ => ?_, fun k' ptr hptr => ?_, fun k' => ?_⟩
  · by_cases hk : k' = k
    · subst hk
      rw [hself]
      exact List.cons_ne_nil _ _
    · rw [hother k' hk]
      exact h.some k'
  · by_cases hk : k' = k
    · subst hk
      rw [hself] at hs
      rcases List.mem_cons.mp hs with rfl | hs
      · exact fits_allocSpace _ _
      · exact h.fits k' s hs
    · rw [hother k' hk] at hs
      exact h.fits k' s hs
  · by_cases hk : k' = k
    · subst hk
      rw [blocks_grow_self, List.nodup_append']
      exact ⟨nodup_allocSpace _ hbs, h.nodup k', fun ptr hnew hold => h.not_new hold (inArea_allocSpace hnew)⟩
    · rw [blocks_grow_other c bs hk]
      exact h.nodup k'
  · rcases mem_blocks_grow h₁ with hold₁ | ⟨rfl, hnew₁⟩ <;> rcases mem_blocks_grow h₂ with hold₂ | ⟨hk₂, hnew₂⟩
    · exact h.apart k₁ k₂ ptr hold₁ hold₂
    · exact absurd hnew₂ (h.not_new hold₁)
    · exact absurd hnew₁ (h.not_new hold₂)
    · exact hk₂.symm
  · rcases mem_blocks_grow hptr with hold | ⟨-, area, offset, rfl, rfl⟩
    · obtain ⟨area, offset, rfl, hlt⟩ := h.areas k' ptr hold
      exact ⟨area, offset, rfl, Nat.lt_succ_of_lt hlt⟩
    · exact ⟨c.pool.areas, offset, rfl, Nat.lt_succ_self _⟩
  · by_cases hk : k' = k
    · subst hk
      rw [blocks_grow_self, List.length_append, (fits_allocSpace _ _).loaded_length, h.count k', hself,
        List.length_cons]
      change roundsPerMag + _ = _
      rw [Nat.mul_succ, Nat.add_comm]
    · rw [blocks_grow_other c bs hk, hother k' hk]
      exact h.count k'

/-! ## Runs -/

/-- Taking a round of the first magazine gives a block that the client does not have. -/
theorem Sound.take {c : Client} (h : Sound c) {k : Base} {s : Space} {ss : List Space} (hs : c.pool.spaces k = s :: ss)
    (hrounds : s.rounds ≠ 0) :
    ∃ ptr p', c.pool.take k = .ok (ptr, p') ∧ Sound ⟨p', Function.update c.held k (ptr :: c.held k)⟩ ∧
      ptr ≠ none ∧ ∀ k', ptr ∉ c.held k' := by
  obtain ⟨ptr, p', htake, hroom, hperm⟩ := take_spec hs (h.fits k) hrounds
  have hmem : ptr ∈ c.pool.loaded k := hperm.mem_iff.mpr List.mem_cons_self
  have hblock : ptr ∈ c.blocks k := List.mem_append_left _ hmem
  refine ⟨ptr, p', htake, h.move hroom ?_, ?_, fun k' hheld => ?_⟩
  · exact (hperm.append_right _).trans List.perm_middle.symm
  · obtain ⟨area, offset, rfl, -⟩ := h.areas k ptr hblock
    exact Option.some_ne_none _
  · obtain rfl := h.apart k k' ptr hblock (List.mem_append_right _ hheld)
    exact (List.nodup_append'.mp (h.nodup k)).2.2 hmem hheld

theorem alloc_spec {c : Client} (h : Sound c) {bs : ℕ} (hbs : 0 < bs) (k : Base) :
    ∃ ptr c', step c (.alloc bs k) = .ok (ptr, c') ∧ Sound c' ∧ ptr ≠ none ∧ ∀ k', ptr ∉ c.held k' := by
  obtain ⟨s, ss, hs⟩ := List.exists_cons_of_ne_nil (h.some k)
  rw [step, vevoPoolAlloc_eq hs]
  by_cases hrounds : s.rounds = 0
  · have hspaces : (c.pool.grow bs k).spaces k = allocSpace c.pool.areas bs :: c.pool.spaces k :=
      setSpaces_spaces c.pool k _
    have hfull : (allocSpace c.pool.areas bs).rounds ≠ 0 := Nat.succ_ne_zero _
    obtain ⟨ptr, p', htake, hsound, hnew⟩ := (h.grow hbs k).take hspaces hfull
    exact ⟨ptr, _, by rw [if_pos hrounds, htake, ok_bind], hsound, hnew⟩
  · obtain ⟨ptr, p', htake, hsound, hnew⟩ := h.take hs hrounds
    exact ⟨ptr, _, by rw [if_neg hrounds, htake, ok_bind], hsound, hnew⟩

/-- Where a block is outstanding, a magazine of its base type has room. -/
theorem Sound.has_room {c : Client} (h : Sound c) {k : Base} {ptr : Ptr} (hptr : ptr ∈ c.held k) :
    ∃ s ∈ c.pool.spaces k, s.rounds < roundsPerMag := by
  by_contra hfull
  have hrounds : ∀ x ∈ (c.pool.spaces k).map Space.rounds, x = roundsPerMag := by
    intro x hx
    obtain ⟨s, hs, rfl⟩ := List.mem_map.mp hx
    exact le_antisymm (h.fits k s hs).rounds_le (Nat.le_of_not_lt fun hlt => hfull ⟨s, hs, hlt⟩)
  have hsum := List.sum_eq_card_nsmul _ roundsPerMag hrounds
  have hcount := h.conserved.count k
  have hpos : 0 < (c.held k).length := List.length_pos_of_mem hptr
  rw [List.length_map, smul_eq_mul, Nat.mul_comm] at hsum
  omega

theorem free_spec {c : Client} (h : Sound c) {k : Base} {ptr : Ptr} (hptr : ptr ∈ c.held k) :
    ∃ c', step c (.free ptr k) = .ok (none, c') ∧ Sound c' := by
  obtain ⟨p', hfree, hroom, hperm⟩ := vevoPoolFree_spec ptr (h.fits k) (h.has_room hptr)
  refine ⟨⟨p', Function.update c.held k ((c.held k).erase ptr)⟩, by rw [step, hfree, ok_bind], h.move hroom ?_⟩
  have hback : (c.blocks k).Perm (ptr :: (c.pool.loaded k ++ (c.held k).erase ptr)) :=
    ((List.perm_cons_erase hptr).append_left _).trans List.perm_middle
  exact hback.trans (hperm.symm.append_right _)

/-- **One call.** -/
theorem step_sound (c : Client) (op : Op) (h : Sound c) (hop : Obtained c op) :
    ∃ ptr c', step c op = .ok (ptr, c') ∧ Sound c' ∧ Shows c op ptr c' := by
  cases op with
  | alloc bs k =>
    obtain ⟨ptr, c', hstep, hsound, hnew⟩ := alloc_spec h hop k
    exact ⟨ptr, c', hstep, hsound, hnew, hsound.conserved⟩
  | free ptr k =>
    obtain ⟨c', hstep, hsound⟩ := free_spec h hop
    exact ⟨none, c', hstep, hsound, h.has_room hop, hsound.conserved⟩

/-- **No block is handed out twice.**  In every run of the pool in which blocks that were obtained from it are freed,
every call returns; a block that is returned is not outstanding; for a block that is freed there is a magazine with
room; and in every state the rounds of each magazine are in range, and the free rounds and the outstanding blocks
are `ROUNDS_PER_MAG` for each magazine. -/
theorem pool_sound (sizes : Sizes) (ops : List Op) (hops : RunMeets step Obtained (Client.start sizes) ops) :
    Conserved (Client.start sizes) ∧ RunShows step Shows (Client.start sizes) ops :=
  ⟨(sound_start sizes).conserved, runOps_shows step_sound ops _ (sound_start sizes) hops⟩

/-- Four sizes. -/
def plainSizes : Sizes := ⟨32, 64, 24, 24, by decide, by decide, by decide, by decide⟩

/-- Two blocks are taken, and the first is given back. -/
def twoBlocks : List Op := [.alloc 4 .m4b, .alloc 4 .m4b, .free (some (0, 60)) .m4b]

theorem pool_twoBlocks :
    Conserved (Client.start plainSizes) ∧ RunShows step Shows (Client.start plainSizes) twoBlocks :=
  pool_sound plainSizes twoBlocks
    (RunMeets.cons (by decide : 0 < 4) rfl (RunMeets.cons (by decide : 0 < 4) rfl
      (RunMeets.cons (List.mem_cons_of_mem _ List.mem_cons_self) rfl trivial)))

end Veejay.VevoPool
