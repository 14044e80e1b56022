import Veejay.Vevo.Port

/-!
# The stored properties of a port

Whatever a port is backed by, it stores a finite map from hash codes to data pointers (`stored`).  The
readers see nothing but this map, and each writer changes it in one place.

* `Wf` — the list and the hash table each hold a hash code at most once;
* `storeProperty_spec`, `vvPropertySet_spec`, `vevoPropertyDel_spec` — **one lemma for each writer**: the
  map afterwards, the backing, and what happened to the index;
* `vevoPropertyGet_eq`, `readProperty_eq`, `vevoPropertyElementSize_eq` — the readers through the map.
-/

namespace Veejay.Vevo

open CLib

/-- What the port stores under a hash code. -/
def stored (p : Port) (h : UInt64) : Option Slot :=
  match p.table with
  | none => (propNodeGet p h).map fun n => .storage n.st
  | some t => (propertyExists t h).map Hash.Node.data

/-- **Well-formed stores.** -/
structure Wf (p : Port) : Prop where
  list : Chain.Distinct PropNode.key p.list
  table : ∀ t, p.table = some t → Hash.Valid intHash t

variable {p : Port} {key : CStr} {h : UInt64} {st : Storage}

theorem stored_of_list (hp : p.table = none) (h : UInt64) :
    stored p h = (propNodeGet p h).map fun n => .storage n.st := by
  rw [stored, hp]

theorem stored_of_table {t : Hash.Table UInt64 Slot} (hp : p.table = some t) (h : UInt64) :
    stored p h = (propertyExists t h).map Hash.Node.data := by
  rw [stored, hp]

theorem wf_vevoPortNew (portType : ℤ) : Wf (vevoPortNew portType) where
  list := List.nodup_nil
  table := fun t ht => by
    unfold vevoPortNew at ht
    dsimp only at ht
    split_ifs at ht
    obtain rfl : Hash.hashCreate = t := by simpa using ht
    exact Hash.valid_create

@[simp] theorem stored_vevoPortNew (portType : ℤ) (h : UInt64) :
    stored (vevoPortNew portType) h = none := by
  by_cases hl : UsesList portType
  · rw [stored_of_list (if_pos hl)]
    rfl
  · rw [stored_of_table (if_neg hl)]
    rfl

/-! ## The list -/

theorem propNodeGet_setNode (hn : propNodeGet p h ≠ none) (h' : UInt64) :
    propNodeGet (p.setNode h st) h' = if h = h' then some ⟨h, st⟩ else propNodeGet p h' := by
  obtain ⟨n, hn⟩ := Option.ne_none_iff_exists'.mp hn
  have hfind : Chain.find PropNode.key h p.list = some n := hn
  have hchange := @Chain.find_change _ _ _ PropNode.key (fun n => { n with st := st }) (fun _ => rfl) h h' p.list
  rw [hfind] at hchange
  rw [← Chain.find_key hfind] at hchange ⊢
  exact hchange

theorem propNodeGet_append (hn : propNodeGet p h = none) (h' : UInt64) :
    propNodeGet (propNodeAppend p h st) h' = if h = h' then some ⟨h, st⟩ else propNodeGet p h' :=
  @Chain.find_append _ _ _ PropNode.key p.list ⟨h, st⟩ hn h'

theorem propNodeGet_remove (hp : Wf p) (h' : UInt64) :
    Chain.find PropNode.key h' (Chain.remove PropNode.key h p.list)
      = if h = h' then none else propNodeGet p h' :=
  Chain.find_remove hp.list h h'

theorem wf_setNode (hp : Wf p) : Wf (p.setNode h st) where
  list := hp.list.change (f := fun n => { n with st := st }) (fun _ => rfl) h
  table := hp.table

theorem wf_propNodeAppend (hp : Wf p) (hn : propNodeGet p h = none) : Wf (propNodeAppend p h st) where
  list := @Chain.Distinct.append _ _ _ PropNode.key p.list ⟨h, st⟩ hp.list hn
  table := hp.table

/-! ## The writers -/

/-- The pointer stored under a hash code can be freed. -/
def Freeable (p : Port) (h : UInt64) : Prop := ∀ slot, stored p h = some slot → slot.free = .ok ()

theorem freeable_of_list (hp : p.table = none) (h : UInt64) : Freeable p h := by
  intro slot hslot
  rw [stored_of_list hp] at hslot
  obtain ⟨n, -, rfl⟩ := Option.map_eq_some_iff.mp hslot
  rfl

/-- What storing a property does. -/
structure Stores (p : Port) (key : CStr) (st : Storage) (p' : Port) : Prop where
  wf : Wf p'
  stored_eq : ∀ h, stored p' h = if hashKeyCode key = h then some (.storage st) else stored p h
  table_iff : p'.table = none ↔ p.table = none
  list_eq : p.table ≠ none → p'.list = p.list
  index_eq : p'.index = if stored p (hashKeyCode key) = none
    then p.index ++ [⟨key, hashKeyCode key⟩] else p.index

/-- **`vevo_property_set` and `vevo_property_set_f`.** -/
theorem storeProperty_spec (hp : Wf p) (key : CStr) (st : Storage)
    (hfree : Freeable p (hashKeyCode key)) :
    Ensures (storeProperty p key st) (Stores p key st) := by
  cases ht : p.table with
  | none =>
    cases hn : propNodeGet p (hashKeyCode key) with
    | some n =>
      simp only [storeProperty, ht, hn, ensures_ok]
      have hne : propNodeGet p (hashKeyCode key) ≠ none := by simp [hn]
      refine ⟨wf_setNode hp, fun h => ?_, Iff.rfl, fun h => absurd ht h, ?_⟩
      · rw [stored_of_list ht, stored_of_list (p := p.setNode _ _) ht, propNodeGet_setNode hne]
        split_ifs <;> rfl
      · rw [stored_of_list ht, hn]
        rfl
    | none =>
      simp only [storeProperty, ht, hn, ensures_ok]
      refine ⟨wf_propNodeAppend ⟨hp.list, hp.table⟩ hn, fun h => ?_, Iff.rfl, fun h => absurd ht h, ?_⟩
      · rw [stored_of_list ht, stored_of_list (p := propNodeAppend (portNodeAppend p _ _) _ _) ht,
          propNodeGet_append (p := portNodeAppend p _ _) hn]
        split_ifs <;> rfl
      · rw [stored_of_list ht, hn]
        rfl
  | some t =>
    have hvalid := hp.table t ht
    cases hn : propertyExists t (hashKeyCode key) with
    | some node =>
      have hslot : stored p (hashKeyCode key) = some node.data := by
        rw [stored_of_table ht, hn]
        rfl
      have hdel := Hash.hashLookup_delete hvalid hn
      have hgone : Hash.hashLookup intHash (hashKeyCode key) (Hash.hashDelete node t) = none := by
        rw [hdel, if_pos rfl]
      simp only [storeProperty, ht, hn, hfree _ hslot, ok_bind, ensures_ok]
      refine ⟨⟨hp.list, ?_⟩, fun h => ?_, by simp [ht], fun _ => rfl, ?_⟩
      · intro t' ht'
        obtain rfl := Option.some.inj ht'
        exact Hash.valid_hashInsert (Hash.valid_hashDelete hvalid) hgone
      · rw [stored_of_table ht, stored_of_table rfl]
        unfold propertyExists
        rw [Hash.hashLookup_insert (Hash.valid_hashDelete hvalid) hgone, hdel]
        split_ifs <;> rfl
      · rw [hslot]
        rfl
    | none =>
      simp only [storeProperty, ht, hn, ensures_ok]
      refine ⟨⟨hp.list, ?_⟩, fun h => ?_, by simp [ht], fun _ => rfl, ?_⟩
      · intro t' ht'
        obtain rfl := Option.some.inj ht'
        exact Hash.valid_hashInsert hvalid hn
      · rw [stored_of_table ht, stored_of_table rfl]
        unfold propertyExists
        rw [Hash.hashLookup_insert hvalid hn]
        split_ifs <;> rfl
      · rw [stored_of_table ht, hn]
        rfl

/-- **`vv_property_set`:** a list-backed port stores the property, a hash table does not see it. -/
structure VvStores (p : Port) (h : UInt64) (st : Storage) (p' : Port) : Prop where
  wf : Wf p'
  stored_eq : ∀ h', stored p' h' = if h = h' ∧ p.table = none then some (.storage st) else stored p h'
  table_eq : p'.table = p.table
  index_eq : p'.index = p.index

theorem vvPropertySet_spec (hp : Wf p) (h : UInt64) (t : AtomType) (src : List t.Elem) :
    VvStores p h (storagePutAtomValue t src) (vvPropertySet p h t src).2 := by
  cases hn : propNodeGet p h with
  | some n =>
    have hrun : (vvPropertySet p h t src).2 = p.setNode h (storagePutAtomValue t src) := by
      simp only [vvPropertySet, hn]
    rw [hrun]
    refine ⟨wf_setNode hp, fun h' => ?_, rfl, rfl⟩
    cases ht : p.table with
    | none =>
      rw [stored_of_list ht, stored_of_list (p := p.setNode _ _) ht,
        propNodeGet_setNode (by simp [hn])]
      by_cases hh : h = h' <;> simp [hh]
    | some t' =>
      rw [stored_of_table ht, stored_of_table (p := p.setNode _ _) ht]
      simp
  | none =>
    have hrun : (vvPropertySet p h t src).2 = propNodeAppend p h (storagePutAtomValue t src) := by
      simp only [vvPropertySet, hn]
    rw [hrun]
    refine ⟨wf_propNodeAppend hp hn, fun h' => ?_, rfl, rfl⟩
    cases ht : p.table with
    | none =>
      rw [stored_of_list ht, stored_of_list (p := propNodeAppend _ _ _) ht, propNodeGet_append hn]
      by_cases hh : h = h' <;> simp [hh]
    | some t' =>
      rw [stored_of_table ht, stored_of_table (p := propNodeAppend _ _ _) ht]
      simp

/-- A deletion gets as far as the property: there is no hash table, or the list has the hash code. -/
def DelReaches (p : Port) (h : UInt64) : Prop := p.table = none ∨ propNodeGet p h ≠ none

instance (p : Port) (h : UInt64) : Decidable (DelReaches p h) :=
  decidable_of_iff (p.table.isNone ∨ (propNodeGet p h).isSome) (by
    simp [DelReaches, Option.isSome_iff_ne_none])

/-- What deleting a property does. -/
structure Deletes (p : Port) (key : CStr) (a : VevoError × Port) : Prop where
  answer : a.1 = .noSuchProperty
  wf : Wf a.2
  stored_eq : ∀ h, stored a.2 h
    = if hashKeyCode key = h ∧ DelReaches p (hashKeyCode key) then none else stored p h
  table_iff : a.2.table = none ↔ p.table = none
  list_nil : p.list = [] → a.2.list = []
  index_eq : a.2.index = indexDel (hashKeyCode key) p.index

/-- **`vevo_property_del`.** -/
theorem vevoPropertyDel_spec (hp : Wf p) (key : CStr) (hfree : Freeable p (hashKeyCode key)) :
    Ensures (vevoPropertyDel p key) (Deletes p key) := by
  cases hn : propNodeGet p (hashKeyCode key) with
  | none =>
    simp only [vevoPropertyDel, hn, ensures_ok]
    refine ⟨rfl, ⟨hp.list, hp.table⟩, fun h => ?_, Iff.rfl, fun hl => hl, rfl⟩
    show stored p h = _
    by_cases hh : hashKeyCode key = h ∧ DelReaches p (hashKeyCode key)
    · obtain ⟨rfl, ht | hne⟩ := hh
      · rw [if_pos ⟨rfl, Or.inl ht⟩, stored_of_list ht, hn]
        rfl
      · exact absurd hn hne
    · rw [if_neg hh]
  | some n =>
    have hreach : DelReaches p (hashKeyCode key) := Or.inr (by simp [hn])
    have hwf : Chain.Distinct PropNode.key (Chain.remove PropNode.key (hashKeyCode key) p.list) :=
      hp.list.remove _
    have hnil : p.list = [] → Chain.remove PropNode.key (hashKeyCode key) p.list = [] := by
      intro hl
      rw [hl]
      rfl
    cases ht : p.table with
    | none =>
      simp only [vevoPropertyDel, hn, ht, ensures_ok]
      refine ⟨rfl, ⟨hwf, fun t ht' => by cases ht'⟩, fun h => ?_, by simp [ht], hnil, rfl⟩
      · rw [stored_of_list ht, stored_of_list rfl]
        show (Chain.find PropNode.key h (Chain.remove PropNode.key _ p.list)).map _ = _
        rw [propNodeGet_remove hp]
        by_cases hh : hashKeyCode key = h
        · rw [if_pos hh, if_pos ⟨hh, hreach⟩]
          rfl
        · rw [if_neg hh, if_neg (fun hc => hh hc.1)]
    | some t =>
      have hvalid := hp.table t ht
      cases hn' : propertyExists t (hashKeyCode key) with
      | none =>
        simp only [vevoPropertyDel, hn, ht, hn', ensures_ok]
        refine ⟨rfl, ⟨hwf, ?_⟩, fun h => ?_, by simp [ht], hnil, rfl⟩
        · intro t' ht'
          obtain rfl := Option.some.inj ht'
          exact hvalid
        · rw [stored_of_table ht, stored_of_table rfl]
          by_cases hh : hashKeyCode key = h
          · rw [if_pos ⟨hh, hreach⟩, ← hh, hn']
            rfl
          · rw [if_neg (fun hc => hh hc.1)]
      | some node =>
        have hslot : stored p (hashKeyCode key) = some node.data := by
          rw [stored_of_table ht, hn']
          rfl
        simp only [vevoPropertyDel, hn, ht, hn', hfree _ hslot, ok_bind, ensures_ok]
        refine ⟨rfl, ⟨hwf, ?_⟩, fun h => ?_, by simp [ht], hnil, rfl⟩
        · intro t' ht'
          obtain rfl := Option.some.inj ht'
          exact Hash.valid_hashDelete hvalid
        · rw [stored_of_table ht, stored_of_table rfl]
          unfold propertyExists
          rw [Hash.hashLookup_delete hvalid hn']
          by_cases hh : hashKeyCode key = h
          · rw [if_pos hh, if_pos ⟨hh, hreach⟩]
            rfl
          · rw [if_neg hh, if_neg (fun hc => hh hc.1)]

/-! ## The readers -/

/-- `vevo_property_get` through the stored map. -/
theorem vevoPropertyGet_eq (p : Port) (key : CStr) (idx : ℤ) (dst : Bool) :
    vevoPropertyGet p key idx dst
      = match stored p (hashKeyCode key) with
        | none => .ok (.noSuchProperty, none)
        | some slot => slot.deref >>= fun st => .ok (atomGetValue st idx dst) := by
  cases ht : p.table with
  | none =>
    rw [stored_of_list ht]
    cases hn : propNodeGet p (hashKeyCode key) <;> simp only [vevoPropertyGet, ht, hn] <;> rfl
  | some t =>
    rw [stored_of_table ht]
    cases hn : propertyExists t (hashKeyCode key) <;> simp only [vevoPropertyGet, ht, hn] <;> rfl

/-- `vevo_property_num_elements` and `vevo_property_atom_type` through the stored map. -/
theorem readProperty_eq (f : Storage → ℤ) (p : Port) (key : CStr) :
    readProperty f p key
      = match stored p (hashKeyCode key) with
        | none => .ok (-1)
        | some slot => slot.readOr f := by
  cases ht : p.table with
  | none =>
    rw [stored_of_list ht]
    cases hn : propNodeGet p (hashKeyCode key) <;> simp only [readProperty, ht, hn] <;> rfl
  | some t =>
    rw [stored_of_table ht]
    cases hn : propertyExists t (hashKeyCode key) <;> simp only [readProperty, ht, hn] <;> rfl

/-- `vevo_property_element_size` through the stored map. -/
theorem vevoPropertyElementSize_eq (p : Port) (key : CStr) (idx : ℤ) :
    vevoPropertyElementSize p key idx
      = match stored p (hashKeyCode key) with
        | none => .ok (2 ^ 64 - 1)
        | some slot => slot.deref >>= fun st => elementSize st idx := by
  cases ht : p.table with
  | none =>
    rw [stored_of_list ht]
    cases hn : propNodeGet p (hashKeyCode key) <;>
      simp only [vevoPropertyElementSize, ht, hn] <;> rfl
  | some t =>
    rw [stored_of_table ht]
    cases hn : propertyExists t (hashKeyCode key) <;>
      simp only [vevoPropertyElementSize, ht, hn] <;> rfl

/-- Soft-referencing what is not stored does nothing. -/
theorem vevoPropertySoftReference_of_none (hn : stored p (hashKeyCode key) = none) :
    vevoPropertySoftReference p key = .ok (.noError, p) := by
  cases ht : p.table with
  | none =>
    rw [stored_of_list ht, Option.map_eq_none_iff] at hn
    simp only [vevoPropertySoftReference, ht, hn]
  | some t =>
    rw [stored_of_table ht, Option.map_eq_none_iff] at hn
    simp only [vevoPropertySoftReference, ht, hn]

end Veejay.Vevo
