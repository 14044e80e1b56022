import Veejay.CLib.Exec

/-!
# Loops over a buffer in place

A loop that reads a buffer and writes into the same buffer does what its copying version does, provided that no round
reads or writes what an earlier round has written.

* `Memory`, `Ptr` — bytes at addresses, and the addresses `object + offset`;
* `Step`, `Step.run`, `runAll` — a round: what is read, and what is written from that;
* `runAll_ok_iff` — **no fault** exactly if everything that is read and written is there;
* `Apart`, `runAll_inPlace` — **the in-place rule**: every round sees the bytes as they were at the beginning;
* `forUp`, `forDown`, `loop_runAll` — counted loops with running pointers, as lists of rounds.
-/

namespace CLib

/-! ## Memory -/

/-- What is at the addresses, and which of them may be used. -/
structure Memory (ι β : Type) where
  room : ι → Bool
  byte : ι → β

variable {ι β : Type}

namespace Memory

def read (m : Memory ι β) (i : ι) : Exec β := if m.room i then .ok (m.byte i) else .error .outOfBounds

def put [DecidableEq ι] (m : Memory ι β) (i : ι) (v : β) : Memory ι β := { m with byte := Function.update m.byte i v }

def write [DecidableEq ι] (m : Memory ι β) (i : ι) (v : β) : Exec (Memory ι β) :=
  if m.room i then .ok (m.put i v) else .error .overrun

variable {m : Memory ι β} {i : ι}

theorem read_eq (h : m.room i = true) : m.read i = .ok (m.byte i) := if_pos h

variable [DecidableEq ι]

theorem write_eq (h : m.room i = true) (v : β) : m.write i v = .ok (m.put i v) := if_pos h

end Memory

/-- An address: an object, and an offset into it. -/
@[ext] structure Ptr (κ : Type) where
  obj : κ
  off : ℤ
  deriving DecidableEq

namespace Ptr

variable {κ : Type}

instance : HAdd (Ptr κ) ℤ (Ptr κ) where
  hAdd p n := ⟨p.obj, p.off + n⟩

instance : HAdd (Ptr κ) ℕ (Ptr κ) where
  hAdd p n := p + (n : ℤ)

instance : HSub (Ptr κ) ℕ (Ptr κ) where
  hSub p n := p + (-n : ℤ)

@[simp] theorem add_obj (p : Ptr κ) (n : ℤ) : (p + n).obj = p.obj := rfl

@[simp] theorem add_off (p : Ptr κ) (n : ℤ) : (p + n).off = p.off + n := rfl

@[simp] theorem add_nat_obj (p : Ptr κ) (n : ℕ) : (p + n).obj = p.obj := rfl

@[simp] theorem add_nat_off (p : Ptr κ) (n : ℕ) : (p + n).off = p.off + n := rfl

@[simp] theorem sub_nat_obj (p : Ptr κ) (n : ℕ) : (p - n).obj = p.obj := rfl

@[simp] theorem sub_nat_off (p : Ptr κ) (n : ℕ) : (p - n).off = p.off - n := rfl

theorem add_nat_add (p : Ptr κ) (a b : ℕ) : p + a + b = p + (a + b : ℕ) := by
  refine Ptr.ext rfl ?_
  rw [add_nat_off, add_nat_off, add_nat_off, Nat.cast_add, Int.add_assoc]

theorem add_sub_eq (p : Ptr κ) {z a : ℤ} {k : ℕ} (h : z - k = a) : p + z - k = p + a := by
  refine Ptr.ext rfl ?_
  rw [sub_nat_off, add_off, add_off, Int.add_sub_assoc, h]

@[simp] theorem add_nat_zero (p : Ptr κ) : p + (0 : ℕ) = p := Ptr.ext rfl (Int.add_zero p.off)

theorem add_nat_inj {p : Ptr κ} {a b : ℕ} : p + a = p + b ↔ a = b := by
  constructor
  · intro h
    have hoff := congrArg Ptr.off h
    rw [add_nat_off, add_nat_off] at hoff
    omega
  · rintro rfl
    rfl

end Ptr

/-! ## Rounds -/

section Reads

variable {m : Memory ι β}

theorem mapM_read {is : List ι} (h : ∀ i ∈ is, m.room i = true) : is.mapM m.read = .ok (is.map m.byte) := by
  induction is with
  | nil => rfl
  | cons i is ih =>
    rw [List.mapM_cons, Memory.read_eq (h i List.mem_cons_self), ok_bind,
      ih fun j hj => h j (List.mem_cons_of_mem i hj), ok_bind]
    rfl

theorem room_of_mapM_read {is : List ι} {vs : List β} (h : is.mapM m.read = .ok vs) : ∀ i ∈ is, m.room i = true := by
  induction is generalizing vs with
  | nil => exact fun i hi => absurd hi List.not_mem_nil
  | cons i is ih =>
    rw [List.mapM_cons] at h
    obtain ⟨v, hv, h⟩ := bind_eq_ok.mp h
    obtain ⟨vs, hvs, -⟩ := bind_eq_ok.mp h
    rw [List.forall_mem_cons]
    refine ⟨?_, ih hvs⟩
    rw [Memory.read] at hv
    split_ifs at hv with hroom
    exact hroom

end Reads

/-- A round of a loop: the addresses that it reads, and what it writes from what it has read. -/
structure Step (ι β : Type) where
  reads : List ι
  writes : List (ι × (List β → β))

namespace Step

/-- Everything is read before anything is written. -/
def run [DecidableEq ι] (s : Step ι β) (m : Memory ι β) : Exec (Memory ι β) := do
  let vs ← s.reads.mapM m.read
  s.writes.foldlM (fun m w => m.write w.1 (w.2 vs)) m

/-- What a round that reads `vs` leaves. -/
def leaves [DecidableEq ι] (s : Step ι β) (vs : List β) (m : Memory ι β) : Memory ι β :=
  s.writes.foldl (fun m w => m.put w.1 (w.2 vs)) m

/-- Everything that is read and written is there. -/
def Inside (s : Step ι β) (room : ι → Bool) : Prop :=
  (∀ i ∈ s.reads, room i = true) ∧ ∀ w ∈ s.writes, room w.1 = true

/-- The round writes no address twice. -/
def Once (s : Step ι β) : Prop := (s.writes.map Prod.fst).Nodup

/-- What `s` writes is neither read nor written by `t`. -/
def Apart (s t : Step ι β) : Prop := ∀ w ∈ s.writes, w.1 ∉ t.reads ∧ ∀ w' ∈ t.writes, w.1 ≠ w'.1

end Step

/-- The rounds of a loop. -/
def runAll [DecidableEq ι] (ss : List (Step ι β)) (m : Memory ι β) : Exec (Memory ι β) := ss.foldlM (fun m s => s.run m) m

/-- Rounds that are apart from all rounds before them. -/
def Apart (ss : List (Step ι β)) : Prop := (∀ s ∈ ss, s.Once) ∧ ss.Pairwise Step.Apart

/-- The rounds of nested loops are apart if those of each row are, and those of each row from those of the rows
before it. -/
theorem apart_flatMap {α : Type} {rows : List α} {steps : α → List (Step ι β)} (hrow : ∀ a ∈ rows, Apart (steps a))
    (hrows : rows.Pairwise fun a b => ∀ s ∈ steps a, ∀ t ∈ steps b, s.Apart t) : Apart (rows.flatMap steps) := by
  constructor
  · intro s hs
    obtain ⟨a, ha, hs⟩ := List.mem_flatMap.mp hs
    exact (hrow a ha).1 s hs
  · rw [List.pairwise_flatMap]
    exact ⟨fun a ha => (hrow a ha).2, hrows⟩

theorem Step.once_single {reads : List ι} (w : ι × (List β → β)) : (Step.mk reads [w]).Once := List.nodup_singleton _

theorem Step.apart_single {reads reads' : List ι} {w w' : ι × (List β → β)} (hread : w.1 ∉ reads') (hwrite : w.1 ≠ w'.1) :
    (Step.mk reads [w]).Apart (Step.mk reads' [w']) := by
  intro v hv
  obtain rfl := List.mem_singleton.mp hv
  refine ⟨hread, fun v' hv' => ?_⟩
  obtain rfl := List.mem_singleton.mp hv'
  exact hwrite

section Steps

variable [DecidableEq ι] {m : Memory ι β} {s : Step ι β} {ss ts : List (Step ι β)}

theorem leaves_room (vs : List β) (ws : List (ι × (List β → β))) :
    (ws.foldl (fun (m : Memory ι β) w => m.put w.1 (w.2 vs)) m).room = m.room := by
  induction ws generalizing m with
  | nil => rfl
  | cons w ws ih => exact ih

theorem foldlM_write {ws : List (ι × (List β → β))} (vs : List β) (h : ∀ w ∈ ws, m.room w.1 = true) :
    ws.foldlM (fun m w => m.write w.1 (w.2 vs)) m = .ok (ws.foldl (fun m w => m.put w.1 (w.2 vs)) m) := by
  induction ws generalizing m with
  | nil => rfl
  | cons w ws ih =>
    rw [List.foldlM_cons, Memory.write_eq (h w List.mem_cons_self), ok_bind]
    exact ih fun w' hw' => h w' (List.mem_cons_of_mem w hw')

theorem room_of_foldlM_write {ws : List (ι × (List β → β))} {vs : List β} {m' : Memory ι β}
    (h : ws.foldlM (fun m w => m.write w.1 (w.2 vs)) m = .ok m') : ∀ w ∈ ws, m.room w.1 = true := by
  induction ws generalizing m with
  | nil => exact fun w hw => absurd hw List.not_mem_nil
  | cons w ws ih =>
    rw [List.foldlM_cons] at h
    obtain ⟨u, hu, h⟩ := bind_eq_ok.mp h
    rw [Memory.write] at hu
    split_ifs at hu with hroom
    obtain rfl := Except.ok.inj hu
    have hrest := ih h
    rw [List.forall_mem_cons]
    exact ⟨hroom, hrest⟩

/-- A round whose addresses are all there. -/
theorem run_eq (h : s.Inside m.room) : s.run m = .ok (s.leaves (s.reads.map m.byte) m) := by
  rw [Step.run, mapM_read h.1, ok_bind]
  exact foldlM_write _ h.2

theorem inside_of_run {m' : Memory ι β} (h : s.run m = .ok m') : s.Inside m.room := by
  obtain ⟨vs, hvs, h⟩ := bind_eq_ok.mp h
  exact ⟨room_of_mapM_read hvs, room_of_foldlM_write h⟩

theorem runAll_cons (s : Step ι β) (ss : List (Step ι β)) (m : Memory ι β) :
    runAll (s :: ss) m = s.run m >>= runAll ss := List.foldlM_cons ..

theorem runAll_single (s : Step ι β) : runAll [s] = s.run := by
  funext m
  rw [runAll_cons]
  exact bind_pure _

theorem runAll_append (ss ts : List (Step ι β)) (m : Memory ι β) :
    runAll (ss ++ ts) m = runAll ss m >>= runAll ts := List.foldlM_append ..

/-- **No fault** happens exactly if everything that is read and written is there. -/
theorem runAll_ok_iff : (∃ m', runAll ss m = .ok m') ↔ ∀ s ∈ ss, s.Inside m.room := by
  induction ss generalizing m with
  | nil => exact ⟨fun _ s hs => absurd hs List.not_mem_nil, fun _ => ⟨m, rfl⟩⟩
  | cons s ss ih =>
    rw [List.forall_mem_cons, runAll_cons]
    constructor
    · rintro ⟨m', h⟩
      obtain ⟨u, hu, hrest⟩ := bind_eq_ok.mp h
      have hs := inside_of_run hu
      obtain rfl := Except.ok.inj ((run_eq hs).symm.trans hu)
      have hss := ih.mp ⟨m', hrest⟩
      rw [Step.leaves, leaves_room] at hss
      exact ⟨hs, hss⟩
    · rintro ⟨hs, hss⟩
      rw [run_eq hs, ok_bind]
      refine ih.mpr ?_
      rw [Step.leaves, leaves_room]
      exact hss

/-! ## The in-place rule -/

theorem foldl_put_of_not_mem {ws : List (ι × (List β → β))} (vs : List β) {i : ι} (h : ∀ w ∈ ws, w.1 ≠ i) :
    (ws.foldl (fun (m : Memory ι β) w => m.put w.1 (w.2 vs)) m).byte i = m.byte i := by
  induction ws generalizing m with
  | nil => rfl
  | cons w ws ih =>
    rw [List.foldl_cons, ih fun w' hw' => h w' (List.mem_cons_of_mem w hw')]
    exact Function.update_of_ne (h w List.mem_cons_self).symm ..

theorem foldl_put_of_mem {ws : List (ι × (List β → β))} (vs : List β) (honce : (ws.map Prod.fst).Nodup)
    {w : ι × (List β → β)} (hw : w ∈ ws) :
    (ws.foldl (fun (m : Memory ι β) w => m.put w.1 (w.2 vs)) m).byte w.1 = w.2 vs := by
  induction ws generalizing m with
  | nil => exact absurd hw List.not_mem_nil
  | cons w' ws ih =>
    rw [List.map_cons, List.nodup_cons] at honce
    rw [List.foldl_cons]
    rcases List.mem_cons.mp hw with rfl | hw
    · have hother : ∀ w' ∈ ws, w'.1 ≠ w.1 := by
        intro w' hw' heq
        rw [← heq] at honce
        exact honce.1 (List.mem_map_of_mem hw')
      rw [foldl_put_of_not_mem vs hother]
      exact Function.update_self ..
    · exact ih honce.2 hw

theorem leaves_byte_of_not_mem (vs : List β) {i : ι} (h : ∀ w ∈ s.writes, w.1 ≠ i) :
    (s.leaves vs m).byte i = m.byte i := foldl_put_of_not_mem vs h

/-- Rounds do not see what rounds before them have written. -/
theorem map_byte_leaves {t : Step ι β} (h : s.Apart t) (vs : List β) :
    t.reads.map (s.leaves vs m).byte = t.reads.map m.byte := by
  refine List.map_congr_left fun i hi => ?_
  exact leaves_byte_of_not_mem vs fun w hw heq => (h w hw).1 (heq ▸ hi)

/-- Bytes that no round writes stay. -/
theorem runAll_byte_of_not_mem {m' : Memory ι β} {i : ι} (h : runAll ss m = .ok m')
    (hi : ∀ s ∈ ss, ∀ w ∈ s.writes, w.1 ≠ i) : m'.byte i = m.byte i := by
  induction ss generalizing m with
  | nil =>
    obtain rfl := Except.ok.inj h
    rfl
  | cons s ss ih =>
    rw [List.forall_mem_cons] at hi
    rw [runAll_cons] at h
    obtain ⟨u, hu, hrest⟩ := bind_eq_ok.mp h
    obtain rfl := Except.ok.inj ((run_eq (inside_of_run hu)).symm.trans hu)
    rw [ih hrest hi.2]
    exact leaves_byte_of_not_mem _ hi.1

theorem runAll_room {m' : Memory ι β} (h : runAll ss m = .ok m') : m'.room = m.room := by
  induction ss generalizing m with
  | nil =>
    obtain rfl := Except.ok.inj h
    rfl
  | cons s ss ih =>
    rw [runAll_cons] at h
    obtain ⟨u, hu, hrest⟩ := bind_eq_ok.mp h
    obtain rfl := Except.ok.inj ((run_eq (inside_of_run hu)).symm.trans hu)
    rw [ih hrest]
    exact leaves_room _ _

/-- **The in-place rule.**  Where no round reads or writes what a round before it has written, every round writes what
it makes of the bytes at the beginning. -/
theorem runAll_inPlace {m' : Memory ι β} (h : runAll ss m = .ok m') (hapart : Apart ss) :
    ∀ s ∈ ss, ∀ w ∈ s.writes, m'.byte w.1 = w.2 (s.reads.map m.byte) := by
  induction ss generalizing m with
  | nil => exact fun s hs => absurd hs List.not_mem_nil
  | cons s ss ih =>
    obtain ⟨honce, hpairs⟩ := hapart
    rw [List.forall_mem_cons] at honce
    rw [List.pairwise_cons] at hpairs
    rw [runAll_cons] at h
    obtain ⟨u, hu, hrest⟩ := bind_eq_ok.mp h
    obtain rfl := Except.ok.inj ((run_eq (inside_of_run hu)).symm.trans hu)
    rw [List.forall_mem_cons]
    constructor
    · -- the first round: no later one writes there
      intro w hw
      rw [runAll_byte_of_not_mem hrest fun t ht w' hw' => ((hpairs.1 t ht w hw).2 w' hw').symm]
      exact foldl_put_of_mem _ honce.1 hw
    · intro t ht w hw
      rw [ih hrest ⟨honce.2, hpairs.2⟩ t ht w hw, map_byte_leaves (hpairs.1 t ht)]

end Steps

/-! ## Counted loops -/

/-- `for (x = start; x < stop; x += by) body`: the rounds have numbers, from which `x` is computed. -/
def forUp {σ : Type} (start stop by_ : ℕ) (body : ℕ → σ → Exec σ) (s : σ) : Exec σ :=
  (List.range ((stop - start + by_ - 1) / by_)).foldlM (fun s k => body (start + by_ * k) s) s

/-- `for (x = start; x > 0; x -= by) body` -/
def forDown {σ : Type} (start by_ : ℕ) (body : ℕ → σ → Exec σ) (s : σ) : Exec σ :=
  (List.range ((start + by_ - 1) / by_)).foldlM (fun s k => body (start - by_ * k) s) s

section Loops

variable [DecidableEq ι] {m : Memory ι β}

/-- A loop whose body is a list of rounds. -/
theorem foldlM_runAll {body : ℕ → Memory ι β → Exec (Memory ι β)} (steps : ℕ → List (Step ι β)) (n : ℕ)
    (h : ∀ k < n, ∀ m, body k m = runAll (steps k) m) :
    (List.range n).foldlM (fun m k => body k m) m = runAll ((List.range n).flatMap steps) m := by
  induction n with
  | zero => rfl
  | succ n ih =>
    rw [List.range_succ, List.foldlM_append, List.flatMap_append, runAll_append,
      ih fun k hk => h k (Nat.lt_succ_of_lt hk)]
    congr 1
    funext m
    rw [List.foldlM_cons, List.flatMap_cons, List.flatMap_nil, List.append_nil, h n (Nat.lt_succ_self n)]
    exact bind_pure _

/-- A loop with running pointers: `f k` is where they stand at the beginning of round `k`. -/
theorem loop_runAll {π : Type} (f : ℕ → π) {body : ℕ → π × Memory ι β → Exec (π × Memory ι β)}
    (steps : ℕ → List (Step ι β)) (n : ℕ)
    (h : ∀ k < n, ∀ m, body k (f k, m) = runAll (steps k) m >>= fun m => .ok (f (k + 1), m)) :
    (List.range n).foldlM (fun s k => body k s) (f 0, m) =
      runAll ((List.range n).flatMap steps) m >>= fun m => .ok (f n, m) := by
  induction n with
  | zero => rfl
  | succ n ih =>
    rw [List.range_succ, List.foldlM_append, List.flatMap_append, runAll_append,
      ih fun k hk => h k (Nat.lt_succ_of_lt hk), bind_assoc, bind_assoc]
    congr 1
    funext m
    rw [ok_bind, List.foldlM_cons, List.flatMap_cons, List.flatMap_nil, List.append_nil, h n (Nat.lt_succ_self n)]
    exact bind_pure _

/-- A loop that counts up, with running pointers. -/
theorem forUp_runAll {π : Type} {start stop by_ n : ℕ} (hn : (stop - start + by_ - 1) / by_ = n) {f : ℕ → π} {p : π}
    (h0 : f 0 = p) {body : ℕ → π × Memory ι β → Exec (π × Memory ι β)} (steps : ℕ → List (Step ι β))
    (h : ∀ k < n, ∀ m, body (start + by_ * k) (f k, m) = runAll (steps k) m >>= fun m => .ok (f (k + 1), m)) :
    forUp start stop by_ body (p, m) = runAll ((List.range n).flatMap steps) m >>= fun m => .ok (f n, m) := by
  rw [forUp, hn, ← h0]
  exact loop_runAll f steps n h

/-- A loop that counts down, with running pointers. -/
theorem forDown_runAll {π : Type} {start by_ n : ℕ} (hn : (start + by_ - 1) / by_ = n) {f : ℕ → π} {p : π}
    (h0 : f 0 = p) {body : ℕ → π × Memory ι β → Exec (π × Memory ι β)} (steps : ℕ → List (Step ι β))
    (h : ∀ k < n, ∀ m, body (start - by_ * k) (f k, m) = runAll (steps k) m >>= fun m => .ok (f (k + 1), m)) :
    forDown start by_ body (p, m) = runAll ((List.range n).flatMap steps) m >>= fun m => .ok (f n, m) := by
  rw [forDown, hn, ← h0]
  exact loop_runAll f steps n h

end Loops

end CLib
