import Veejay.Vevo.Clone

/-!
# Freeing a tree of ports

A port pointer leads from a port to another one.  `vevo_port_recursive_free` frees the ports behind the port pointers of
a port that are not soft references, and the port itself after them (`libvevo/vevo.c`).

* `postorder`, `Within` — the nodes of a finite tree, children first;
* `RefPort`, `Memory` — ports with their soft references, and which of them are allocated;
* `vevoListNodes`, `vevoPortRecursiveFree` — the functions;
* `Tree` — a finite tree of ports, each reached by one reference;
* `recursiveFree_eq` — a tree without empty ports is freed in postorder;
* `freed_sturdy` — an empty port is never freed;
* `freesTree_iff` — **every port is freed once, and no other, exactly if none is empty** (and none has a pointer that
  `vevo_property_soft_reference` replaced).
-/

namespace Veejay.Vevo

open CLib

/-! ## Finite trees -/

section Trees

variable {α : Type} (children : α → List α)

/-- The nodes of a tree of some depth, children first. -/
def postorder : ℕ → α → List α
  | 0, _ => []
  | n + 1, v => (children v).flatMap (postorder n) ++ [v]

/-- The tree below a node has at most `n` levels. -/
def Within : ℕ → α → Prop
  | 0, _ => False
  | n + 1, v => ∀ w ∈ children v, Within n w

theorem mem_postorder_self {n : ℕ} {v : α} (h : Within children n v) : v ∈ postorder children n v := by
  cases n with
  | zero => exact absurd h id
  | succ n => exact List.mem_append_right _ (List.mem_singleton_self v)

end Trees

/-! ## Ports in memory -/

/-- A port, with the flag `VEVO_PROPERTY_SOFTREF` of its storages by the hash codes of their names. -/
structure RefPort where
  port : Port
  softref : UInt64 → Bool

/-- The storages in the order of the list, or of a scan of the table. -/
def Port.nodes (p : Port) : List (UInt64 × Slot) :=
  match p.table with
  | none => p.list.map fun node => (node.key, .storage node.st)
  | some t => (List.range t.nchains).flatMap fun chain => (t.chain chain).map fun node => (node.key, node.data)

/-- The ports that are allocated, and those that have been freed, in order. -/
structure Memory where
  heap : UInt64 → Option RefPort
  freed : List UInt64

/-- `vevo_list_nodes_`, for port pointers.  `atom_get_value` is called for its error code only. -/
def vevoListNodes : List (UInt64 × Slot) → Exec (List (UInt64 × Storage))
  | [] => .ok []
  | (key, slot) :: nodes => do
    let st ← slot.storage?
    let rest ← vevoListNodes nodes
    match st with
    | none => .ok rest
    | some st =>
      if st.atomType = .portptr ∧ (atomGetValue st 0 true).1 = .noError ∧ st.softlink = false then
        .ok ((key, st) :: rest)
      else .ok rest

/-- The pointers that `atom_get_value` gives; NULL where nothing is copied. -/
def portElements (st : Storage) : List UInt64 :=
  st.elements.map fun atom => (asElem .portptr (atom.copyOut true)).getD 0

/-- The calls for the elements of a property. -/
def freeElements (recursiveFree : UInt64 → Memory → Exec Memory) : List UInt64 → Memory → Exec Memory
  | [], m => .ok m
  | q :: qs, m => do
    let m ← if q = 0 then .ok m else recursiveFree q m
    freeElements recursiveFree qs m

/-- The loop over the properties that `vevo_list_nodes_` found, with `vevo_port_get_port`. -/
def freeItems (recursiveFree : UInt64 → Memory → Exec Memory) (softref : UInt64 → Bool) :
    List (UInt64 × Storage) → Memory → Exec Memory
  | [], m => .ok m
  | (key, st) :: items, m => do
    let m ← if softref key then .ok m else freeElements recursiveFree (portElements st) m
    freeItems recursiveFree softref items m

/-- `vevo_port_free_` -/
def vevoPortFree (v : UInt64) (m : Memory) : Exec Memory :=
  match m.heap v with
  | none => .error .useAfterFree
  | some _ => .ok ⟨Function.update m.heap v none, m.freed ++ [v]⟩

/-- `vevo_port_recursive_free`, to a depth -/
def vevoPortRecursiveFree : ℕ → UInt64 → Memory → Exec Memory
  | 0, _, _ => .error .outOfFuel
  | depth + 1, v, m =>
    if v = 0 then .ok m
    else match m.heap v with
      | none => .error .useAfterFree
      | some p =>
        if p.port.index = [] then .ok m
        else do
          let items ← vevoListNodes p.port.nodes
          let m ← freeItems (vevoPortRecursiveFree depth) p.softref items m
          vevoPortFree v m

/-! ## What is to be freed -/

/-- The ports behind a property that is no soft reference. -/
def RefPort.behind (p : RefPort) : UInt64 × Slot → List UInt64
  | (key, .storage st) =>
    if st.atomType = .portptr ∧ st.softlink = false ∧ p.softref key = false then
      (portElements st).filter (· ≠ 0)
    else []
  | (_, .word _) => []

/-- The ports that a port owns. -/
def RefPort.children (p : RefPort) : List UInt64 := p.port.nodes.flatMap p.behind

def childrenIn (heap : UInt64 → Option RefPort) (v : UInt64) : List UInt64 := ((heap v).map RefPort.children).getD []

/-- **A finite tree of ports**: what is reached through references that are not soft is allocated, is reached once, and
is no deeper than `depth`. -/
structure Tree (heap : UInt64 → Option RefPort) (depth : ℕ) (v : UInt64) : Prop where
  null : heap 0 = none
  within : Within (childrenIn heap) depth v
  live : ∀ w ∈ postorder (childrenIn heap) depth v, heap w ≠ none
  once : (postorder (childrenIn heap) depth v).Nodup

/-- **Every port of the tree is freed once, and no other port is.** -/
def FreesTree (heap : UInt64 → Option RefPort) (depth : ℕ) (v : UInt64) : Prop :=
  Ensures (vevoPortRecursiveFree depth v ⟨heap, []⟩) fun m =>
    m.freed.Perm (postorder (childrenIn heap) depth v) ∧
      ∀ w, m.heap w = if w ∈ postorder (childrenIn heap) depth v then none else heap w

/-- The port has an index, and its data pointers are those of storages. -/
structure RefPort.Sturdy (p : RefPort) : Prop where
  index : p.port.index ≠ []
  words : ∀ key w, (key, .word w) ∈ p.port.nodes → w = 0

/-! ## Ports that are freed -/

/-- Some ports are freed. -/
def Memory.free (m : Memory) (ws : List UInt64) : Memory where
  heap := fun w => if w ∈ ws then none else m.heap w
  freed := m.freed ++ ws

theorem free_nil (m : Memory) : m.free [] = m := by
  simp [Memory.free]

theorem free_append (m : Memory) (ws ws' : List UInt64) : (m.free ws).free ws' = m.free (ws ++ ws') := by
  simp only [Memory.free, List.append_assoc, List.mem_append, Memory.mk.injEq, and_true]
  funext w
  by_cases hw : w ∈ ws <;> by_cases hw' : w ∈ ws' <;> simp [hw, hw']

theorem heap_of_free {m : Memory} {ws : List UInt64} {w : UInt64} {p : RefPort} (h : (m.free ws).heap w = some p) :
    m.heap w = some p := by
  simp only [Memory.free] at h
  split_ifs at h
  exact h

theorem heap_free_of_not_mem {m : Memory} {ws : List UInt64} {w : UInt64} (h : w ∉ ws) :
    (m.free ws).heap w = m.heap w := if_neg h

theorem vevoPortFree_eq {m : Memory} {v : UInt64} {p : RefPort} (h : m.heap v = some p) :
    vevoPortFree v m = .ok (m.free [v]) := by
  rw [vevoPortFree, h]
  refine congrArg Except.ok ?_
  rw [Memory.free, Memory.mk.injEq]
  refine ⟨funext fun w => ?_, rfl⟩
  rw [Function.update_apply]
  simp only [List.mem_singleton]

/-! ## The calls for one port -/

/-- The calls, one after the other, for all ports that a port owns. -/
def freeAll (recursiveFree : UInt64 → Memory → Exec Memory) : List UInt64 → Memory → Exec Memory
  | [], m => .ok m
  | q :: qs, m => recursiveFree q m >>= freeAll recursiveFree qs

theorem freeAll_append (recursiveFree : UInt64 → Memory → Exec Memory) (qs qs' : List UInt64) (m : Memory) :
    freeAll recursiveFree (qs ++ qs') m = freeAll recursiveFree qs m >>= freeAll recursiveFree qs' := by
  induction qs generalizing m with
  | nil => rfl
  | cons q qs ih =>
    rw [List.cons_append, freeAll, freeAll]
    cases recursiveFree q m with
    | error f => rfl
    | ok m => exact ih m

theorem freeElements_eq (recursiveFree : UInt64 → Memory → Exec Memory) (qs : List UInt64) (m : Memory) :
    freeElements recursiveFree qs m = freeAll recursiveFree (qs.filter (· ≠ 0)) m := by
  induction qs generalizing m with
  | nil => rfl
  | cons q qs ih =>
    rw [freeElements]
    by_cases hq : q = 0
    · rw [if_pos hq, ok_bind]
      dsimp only
      rw [ih, List.filter_cons_of_neg (by simpa using hq)]
    · rw [if_neg hq, List.filter_cons_of_pos (by simpa using hq), freeAll]
      cases recursiveFree q m with
      | error f => rfl
      | ok m => exact ih m

/-- A storage that has elements is found by its first one. -/
theorem atomGetValue_noError_iff (st : Storage) : (atomGetValue st 0 true).1 = .noError ↔ st.elements ≠ [] := by
  rcases hst : st.elements with _ | ⟨atom, rest⟩
  · rw [atomGetValue, if_pos ⟨by rw [hst]; rfl, rfl⟩]
    exact iff_of_false (fun h => by cases h) fun h => h rfl
  · have hget : st.elements[0]? = some atom := by rw [hst]; rfl
    exact iff_of_true (congrArg Prod.fst (atomGetValue_getElem hget)) (List.cons_ne_nil _ _)

/-- **What is freed below a port** where no pointer is replaced: the ports that it owns. -/
theorem listNodes_spec (recursiveFree : UInt64 → Memory → Exec Memory) (p : RefPort) {nodes : List (UInt64 × Slot)}
    (hwords : ∀ key w, (key, .word w) ∈ nodes → w = 0) :
    ∃ items, vevoListNodes nodes = .ok items ∧
      ∀ m, freeItems recursiveFree p.softref items m = freeAll recursiveFree (nodes.flatMap p.behind) m := by
  induction nodes with
  | nil => exact ⟨[], rfl, fun m => rfl⟩
  | cons node nodes ih =>
    obtain ⟨items, hitems, hfree⟩ := ih fun key w h => hwords key w (List.mem_cons_of_mem node h)
    obtain ⟨key, slot⟩ := node
    rw [List.flatMap_cons]
    cases slot with
    | word w =>
      obtain rfl := hwords key w List.mem_cons_self
      exact ⟨items, by rw [vevoListNodes, hitems]; rfl, hfree⟩
    | storage st =>
      have hlist : vevoListNodes ((key, .storage st) :: nodes) = .ok
          (if st.atomType = .portptr ∧ (atomGetValue st 0 true).1 = .noError ∧ st.softlink = false then
            (key, st) :: items else items) := by
        rw [vevoListNodes, Slot.storage?, ok_bind, hitems, ok_bind]
        exact (apply_ite _ _ _ _).symm
      refine ⟨_, hlist, fun m => ?_⟩
      rw [freeAll_append, RefPort.behind]
      by_cases hfound : st.atomType = .portptr ∧ (atomGetValue st 0 true).1 = .noError ∧ st.softlink = false
      · rw [if_pos hfound, freeItems]
        by_cases hsoft : p.softref key = true
        · rw [if_pos hsoft, if_neg fun h => by rw [hsoft] at h; cases h.2.2]
          exact hfree m
        · rw [if_neg hsoft, if_pos ⟨hfound.1, hfound.2.2, Bool.eq_false_iff.mpr hsoft⟩, freeElements_eq]
          exact congrArg _ (funext hfree)
      · -- without an element there is no pointer
        rw [if_neg hfound]
        have hnone : (if st.atomType = .portptr ∧ st.softlink = false ∧ p.softref key = false then
            (portElements st).filter (· ≠ 0) else []) = [] := by
          by_cases hbehind : st.atomType = .portptr ∧ st.softlink = false ∧ p.softref key = false
          · have hnil : st.elements = [] := by
              by_contra hne
              exact hfound ⟨hbehind.1, (atomGetValue_noError_iff st).mpr hne, hbehind.2.1⟩
            rw [if_pos hbehind, portElements, hnil]
            rfl
          · rw [if_neg hbehind]
        rw [hnone]
        exact hfree m

/-- A data pointer that was replaced is followed. -/
theorem listNodes_words {nodes : List (UInt64 × Slot)} {items : List (UInt64 × Storage)}
    (h : vevoListNodes nodes = .ok items) : ∀ key w, (key, .word w) ∈ nodes → w = 0 := by
  induction nodes generalizing items with
  | nil => exact fun _ _ hmem => by cases hmem
  | cons node nodes ih =>
    obtain ⟨key, slot⟩ := node
    rw [vevoListNodes] at h
    obtain ⟨st, hst, hrest⟩ := bind_eq_ok.mp h
    obtain ⟨rest, hrest, -⟩ := bind_eq_ok.mp hrest
    intro key' w hmem
    rcases List.mem_cons.mp hmem with hhead | hmem
    · obtain ⟨-, rfl⟩ := Prod.mk.inj hhead
      by_contra hw
      rw [Slot.storage?, if_neg hw] at hst
      cases hst
    · exact ih hrest key' w hmem

/-! ## Trees -/

section Heap

variable {heap : UInt64 → Option RefPort}

/-- The ports are allocated as at the start, and none is empty. -/
def Standing (heap : UInt64 → Option RefPort) (m : Memory) (ws : List UInt64) : Prop :=
  ∀ w ∈ ws, ∃ p, heap w = some p ∧ m.heap w = some p ∧ p.Sturdy

/-- Ports that are not freed are standing. -/
theorem Standing.free {m : Memory} {ws ws' : List UInt64} (h : Standing heap m ws') (hdisjoint : List.Disjoint ws ws') :
    Standing heap (m.free ws) ws' := by
  intro w hw
  obtain ⟨p, hp, hm, hsturdy⟩ := h w hw
  exact ⟨p, hp, by rw [heap_free_of_not_mem fun hmem => hdisjoint hmem hw, hm], hsturdy⟩

/-- One subtree after the other. -/
theorem freeAll_eq {depth : ℕ} {recursiveFree : UInt64 → Memory → Exec Memory} {qs : List UInt64}
    (hone : ∀ q ∈ qs, ∀ m, (postorder (childrenIn heap) depth q).Nodup →
      Standing heap m (postorder (childrenIn heap) depth q) →
        recursiveFree q m = .ok (m.free (postorder (childrenIn heap) depth q))) :
    ∀ m, (qs.flatMap (postorder (childrenIn heap) depth)).Nodup →
      Standing heap m (qs.flatMap (postorder (childrenIn heap) depth)) →
        freeAll recursiveFree qs m = .ok (m.free (qs.flatMap (postorder (childrenIn heap) depth))) := by
  induction qs with
  | nil =>
    intro m _ _
    rw [freeAll, List.flatMap_nil, free_nil]
  | cons q qs ih =>
    intro m hnodup hstanding
    rw [List.flatMap_cons] at hnodup hstanding ⊢
    obtain ⟨hhead, htail, hdisjoint⟩ := List.nodup_append'.mp hnodup
    have hfirst := hone q List.mem_cons_self m hhead fun w hw => hstanding w (List.mem_append_left _ hw)
    have hrest := ih (fun q' hq' => hone q' (List.mem_cons_of_mem q hq'))
      (m.free (postorder (childrenIn heap) depth q)) htail
      (Standing.free (fun w hw => hstanding w (List.mem_append_right _ hw)) hdisjoint)
    rw [freeAll, hfirst, ok_bind, hrest, free_append]

/-- **A tree without empty ports** is freed in postorder. -/
theorem recursiveFree_eq (hnull : heap 0 = none) (depth : ℕ) :
    ∀ v, Within (childrenIn heap) depth v → ∀ m, (postorder (childrenIn heap) depth v).Nodup →
      Standing heap m (postorder (childrenIn heap) depth v) →
        vevoPortRecursiveFree depth v m = .ok (m.free (postorder (childrenIn heap) depth v)) := by
  induction depth with
  | zero => exact fun v h => absurd h id
  | succ depth ih =>
    intro v hwithin m hnodup hstanding
    obtain ⟨p, hp, hm, hsturdy⟩ := hstanding v (mem_postorder_self _ hwithin)
    have hv : v ≠ 0 := by
      rintro rfl
      rw [hnull] at hp
      cases hp
    have hchildren : childrenIn heap v = p.port.nodes.flatMap p.behind := by
      rw [childrenIn, hp]
      rfl
    rw [postorder, hchildren] at hnodup hstanding ⊢
    rw [Within, hchildren] at hwithin
    obtain ⟨hbelow, -, hdisjoint⟩ := List.nodup_append'.mp hnodup
    obtain ⟨items, hitems, hfree⟩ := listNodes_spec (vevoPortRecursiveFree depth) p hsturdy.words
    have hall := freeAll_eq (fun q hq => ih q (hwithin q hq)) m hbelow
      fun w hw => hstanding w (List.mem_append_left _ hw)
    have hself : (m.free ((p.port.nodes.flatMap p.behind).flatMap (postorder (childrenIn heap) depth))).heap v =
        some p := by
      rw [heap_free_of_not_mem fun hmem => hdisjoint hmem (List.mem_singleton_self v), hm]
    rw [vevoPortRecursiveFree, if_neg hv, hm]
    dsimp only
    rw [if_neg hsturdy.index, hitems, ok_bind, hfree, hall, ok_bind, vevoPortFree_eq hself, free_append]

end Heap

/-- Only ports are freed that have an index and whose storages could be read. -/
def FreesSturdy (m m' : Memory) : Prop :=
  ∃ ws, m' = m.free ws ∧ ∀ w ∈ ws, ∃ p, m.heap w = some p ∧ p.Sturdy

theorem FreesSturdy.refl (m : Memory) : FreesSturdy m m := ⟨[], (free_nil m).symm, fun _ h => by cases h⟩

theorem FreesSturdy.trans {m m' m'' : Memory} (h : FreesSturdy m m') (h' : FreesSturdy m' m'') : FreesSturdy m m'' := by
  obtain ⟨ws, rfl, hws⟩ := h
  obtain ⟨ws', rfl, hws'⟩ := h'
  refine ⟨ws ++ ws', free_append m ws ws', fun w hw => ?_⟩
  rcases List.mem_append.mp hw with hw | hw
  · exact hws w hw
  · obtain ⟨p, hp, hsturdy⟩ := hws' w hw
    exact ⟨p, heap_of_free hp, hsturdy⟩

section Loops

variable {recursiveFree : UInt64 → Memory → Exec Memory}
  (hrec : ∀ q m m', recursiveFree q m = .ok m' → FreesSturdy m m')

include hrec

theorem freeElements_sturdy {qs : List UInt64} : ∀ {m m' : Memory}, freeElements recursiveFree qs m = .ok m' →
    FreesSturdy m m' := by
  induction qs with
  | nil =>
    intro m m' h
    obtain rfl := Except.ok.inj h
    exact FreesSturdy.refl m
  | cons q qs ih =>
    intro m m' h
    rw [freeElements] at h
    by_cases hq : q = 0
    · rw [if_pos hq, ok_bind] at h
      exact ih h
    · rw [if_neg hq] at h
      obtain ⟨m₁, hm₁, hrest⟩ := bind_eq_ok.mp h
      exact (hrec q m m₁ hm₁).trans (ih hrest)

theorem freeItems_sturdy {softref : UInt64 → Bool} {items : List (UInt64 × Storage)} :
    ∀ {m m' : Memory}, freeItems recursiveFree softref items m = .ok m' → FreesSturdy m m' := by
  induction items with
  | nil =>
    intro m m' h
    obtain rfl := Except.ok.inj h
    exact FreesSturdy.refl m
  | cons item items ih =>
    intro m m' h
    obtain ⟨key, st⟩ := item
    rw [freeItems] at h
    by_cases hsoft : softref key = true
    · rw [if_pos hsoft, ok_bind] at h
      exact ih h
    · rw [if_neg hsoft] at h
      obtain ⟨m₁, hm₁, hrest⟩ := bind_eq_ok.mp h
      exact (freeElements_sturdy hrec hm₁).trans (ih hrest)

end Loops

/-- **An empty port is never freed**, whatever the ports are. -/
theorem freed_sturdy (depth : ℕ) :
    ∀ v m m', vevoPortRecursiveFree depth v m = .ok m' → FreesSturdy m m' := by
  induction depth with
  | zero => exact fun v m m' h => by cases h
  | succ depth ih =>
    intro v m m' h
    rw [vevoPortRecursiveFree] at h
    by_cases hv : v = 0
    · rw [if_pos hv] at h
      obtain rfl := Except.ok.inj h
      exact FreesSturdy.refl m
    · rw [if_neg hv] at h
      cases hm : m.heap v with
      | none =>
        rw [hm] at h
        cases h
      | some p =>
        rw [hm] at h
        dsimp only at h
        by_cases hindex : p.port.index = []
        · rw [if_pos hindex] at h
          obtain rfl := Except.ok.inj h
          exact FreesSturdy.refl m
        · rw [if_neg hindex] at h
          obtain ⟨items, hitems, hrest⟩ := bind_eq_ok.mp h
          obtain ⟨m₁, hm₁, hfree⟩ := bind_eq_ok.mp hrest
          refine FreesSturdy.trans (freeItems_sturdy ih hm₁) ?_
          cases hself : m₁.heap v with
          | none =>
            rw [vevoPortFree, hself] at hfree
            cases hfree
          | some q =>
            rw [vevoPortFree_eq hself] at hfree
            obtain rfl := Except.ok.inj hfree
            refine ⟨[v], rfl, fun w hw => ?_⟩
            obtain rfl := List.mem_singleton.mp hw
            obtain ⟨ws, rfl, -⟩ := freeItems_sturdy ih hm₁
            have hq := heap_of_free hself
            rw [hm] at hq
            obtain rfl := Option.some.inj hq
            exact ⟨p, hself, hindex, listNodes_words hitems⟩

/-- **Freeing a tree of ports.**  Every port of a finite tree is freed exactly once, and no other port (none behind a
soft reference) is freed, exactly if every port of the tree has an index and no data pointer of its table is
replaced. -/
theorem freesTree_iff {heap : UInt64 → Option RefPort} {depth : ℕ} {v : UInt64} (htree : Tree heap depth v) :
    FreesTree heap depth v ↔ ∀ w ∈ postorder (childrenIn heap) depth v, ∀ p, heap w = some p → p.Sturdy := by
  constructor
  · rintro ⟨m, hrun, hperm, -⟩ w hw p hp
    obtain ⟨ws, rfl, hsturdy⟩ := freed_sturdy depth v _ _ hrun
    have hmem : w ∈ ws := hperm.mem_iff.mpr hw
    obtain ⟨q, hq, hqsturdy⟩ := hsturdy w hmem
    have hsame : heap w = some q := hq
    rw [hp] at hsame
    exact Option.some.inj hsame ▸ hqsturdy
  · intro hsturdy
    have hstanding : Standing heap ⟨heap, []⟩ (postorder (childrenIn heap) depth v) := by
      intro w hw
      obtain ⟨p, hp⟩ := Option.ne_none_iff_exists'.mp (htree.live w hw)
      exact ⟨p, hp, hp, hsturdy w hw p hp⟩
    exact ⟨_, recursiveFree_eq htree.null depth v htree.within _ htree.once hstanding, List.Perm.refl _,
      fun _ => rfl⟩

/-- A port with one property. -/
def refPort (t : AtomType) (src : List t.Elem) : RefPort := ⟨onePort [97] t src, fun _ => false⟩

/-- A port at 1, and another one at 2 behind its property. -/
def twoPorts : UInt64 → Option RefPort := fun v =>
  if v = 1 then some (refPort .portptr [2]) else if v = 2 then some (refPort .int [7]) else none

theorem tree_twoPorts : Tree twoPorts 2 1 where
  null := rfl
  within := by
    intro w hw
    obtain rfl : w = 2 := by simpa using (show w ∈ [2] from hw)
    exact fun u hu => by cases hu
  live := by
    intro w hw
    have hmem : w ∈ ([2, 1] : List UInt64) := hw
    rcases List.mem_cons.mp hmem with rfl | hmem
    · exact Option.some_ne_none _
    · obtain rfl := List.mem_singleton.mp hmem
      exact Option.some_ne_none _
  once := show ([2, 1] : List UInt64).Nodup by decide

/-- The two ports are freed. -/
theorem freesTree_twoPorts :
    FreesTree twoPorts 2 1 ↔
      ∀ w ∈ postorder (childrenIn twoPorts) 2 1, ∀ p, twoPorts w = some p → p.Sturdy :=
  freesTree_iff tree_twoPorts

/-- A port without properties, at 1. -/
def emptyPort : UInt64 → Option RefPort := fun v => if v = 1 then some ⟨vevoPortNew 1, fun _ => false⟩ else none

theorem tree_emptyPort : Tree emptyPort 1 1 where
  null := rfl
  within := fun w hw => by cases hw
  live := by
    intro w hw
    obtain rfl : w = 1 := List.mem_singleton.mp hw
    exact Option.some_ne_none _
  once := List.nodup_singleton _

/-- **A port without properties** is not freed. -/
theorem not_freesTree_empty : ¬ ∀ (heap : UInt64 → Option RefPort) (depth : ℕ) (v : UInt64),
    Tree heap depth v → FreesTree heap depth v := by
  intro h
  obtain ⟨m, hrun, hperm, -⟩ := h emptyPort 1 1 tree_emptyPort
  have hreturn : vevoPortRecursiveFree 1 1 ⟨emptyPort, []⟩ = .ok ⟨emptyPort, []⟩ := rfl
  obtain rfl := Except.ok.inj (hreturn.symm.trans hrun)
  cases hperm.mem_iff.mpr (List.mem_singleton_self (1 : UInt64))

end Veejay.Vevo
