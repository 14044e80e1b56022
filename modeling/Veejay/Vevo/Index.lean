import Veejay.Vevo.FiniteMap

/-!
# The index of a port

The index lists the names of a port's properties; it is a structure of its own beside the store, kept in
step by the calls that take a name.  `vv_property_set` takes a hash code and has no name to add, and a
deletion on a hash table takes the name from the index only.  Everywhere else the index and the store
hold the same hash codes.

* `IndexOp`, `applyIndexed` — the writers, with and without a name;
* `Indexed` — the index holds every stored hash code once, and no other;
* `vevoListProperties_enumerates` — **the listing**: over any run whose calls meet `IndexOk`.
-/

namespace Veejay.Vevo

open CLib

/-- The calls that change a port. -/
inductive IndexOp where
  | store (op : StoreOp)
  | vvSet (h : UInt64) (t : AtomType) (src : List t.Elem)

/-- One call on a port. -/
def applyIndexed (p : Port) : IndexOp → Exec (VevoError × Port)
  | .store op => applyStore p op
  | .vvSet h t src => .ok (vvPropertySet p h t src)

/-- The names a run uses. -/
def namesOf (ops : List IndexOp) : List CStr :=
  ops.filterMap fun
    | .store op => some op.key
    | .vvSet .. => none

/-- The name has a value: reading it does not report a missing property. -/
def HasValue (p : Port) (k : CStr) : Prop :=
  Ensures (vevoPropertyGet p k 0 true) fun a => a.1 ≠ .noSuchProperty

/-- **The condition on a call.**  On a list, `vv_property_set` writes to a hash code that has a value; a
deletion reaches the property, if there is one. -/
def IndexOk (p : Port) : IndexOp → Prop
  | .store (.del key) => DelReaches p (hashKeyCode key) ∨ stored p (hashKeyCode key) = none
  | .vvSet h _ _ => p.table = none → stored p h ≠ none
  | .store _ => True

/-! ## The invariant -/

/-- The hash code of an indexed name. -/
def IndexNode.code (n : IndexNode) : UInt64 := hashKeyCode n.key

/-- **The index invariant.** -/
structure Indexed (names : Set CStr) (p : Port) : Prop where
  wf : Wf p
  keys : ∀ n ∈ p.index, n.hashCode = n.code ∧ n.key ∈ names
  distinct : Chain.Distinct IndexNode.code p.index
  stored_iff : ∀ h, h ∈ p.index.map IndexNode.code ↔ stored p h ≠ none
  storages : ∀ h slot, stored p h = some slot → ∃ st, slot = .storage st

variable {names : Set CStr} {p : Port}

theorem indexed_vevoPortNew (names : Set CStr) (portType : ℤ) : Indexed names (vevoPortNew portType) where
  wf := wf_vevoPortNew portType
  keys := fun n hn => by cases hn
  distinct := List.nodup_nil
  stored_iff := fun h => by
    rw [stored_vevoPortNew]
    exact iff_of_false List.not_mem_nil (fun hne => hne rfl)
  storages := fun h slot hs => by
    rw [stored_vevoPortNew] at hs
    cases hs

theorem Indexed.freeable (hp : Indexed names p) (h : UInt64) : Freeable p h := by
  intro slot hslot
  obtain ⟨st, rfl⟩ := hp.storages h slot hslot
  rfl

theorem Indexed.hasValue_iff (hp : Indexed names p) (k : CStr) :
    HasValue p k ↔ stored p (hashKeyCode k) ≠ none := by
  rw [HasValue, vevoPropertyGet_eq]
  cases hs : stored p (hashKeyCode k) with
  | none => simp
  | some slot =>
    obtain ⟨st, rfl⟩ := hp.storages _ slot hs
    simp [Slot.deref, atomGetValue_code_ne]

/-- The index after a deletion: the hash code is gone. -/
theorem Indexed.indexDel_eq (hp : Indexed names p) (h : UInt64) :
    indexDel h p.index = Chain.remove IndexNode.code h p.index := by
  cases hf : Chain.find IndexNode.code h p.index with
  | none =>
    rw [indexDel, show Chain.find (fun n => hashKeyCode n.key) h p.index = none from hf]
    exact (Chain.remove_of_find_none hf).symm
  | some n =>
    have hcode := (hp.keys n (Chain.mem_of_find hf)).1.trans (Chain.find_key hf)
    rw [indexDel, show Chain.find (fun n => hashKeyCode n.key) h p.index = some n from hf]
    exact if_pos hcode

theorem mem_codes_remove (hp : Indexed names p) (h h' : UInt64) :
    h' ∈ (Chain.remove IndexNode.code h p.index).map IndexNode.code
      ↔ h' ∈ p.index.map IndexNode.code ∧ h' ≠ h := by
  simp only [List.mem_map, Chain.mem_remove hp.distinct]
  constructor
  · rintro ⟨n, ⟨hn, hne⟩, rfl⟩
    exact ⟨⟨n, hn, rfl⟩, hne⟩
  · rintro ⟨⟨n, hn, rfl⟩, hne⟩
    exact ⟨n, ⟨hn, hne⟩, rfl⟩

/-! ## One call -/

theorem Indexed.stores (hp : Indexed names p) {key : CStr} (hkey : key ∈ names) {st : Storage} {p' : Port}
    (hs : Stores p key st p') : Indexed names p' := by
  have hstorages : ∀ h slot, stored p' h = some slot → ∃ st, slot = .storage st := by
    intro h slot hslot
    rw [hs.stored_eq] at hslot
    split_ifs at hslot with hh
    · exact ⟨st, (Option.some.inj hslot).symm⟩
    · exact hp.storages h slot hslot
  by_cases hnew : stored p (hashKeyCode key) = none
  · have hindex : p'.index = p.index ++ [⟨key, hashKeyCode key⟩] := by rw [hs.index_eq, if_pos hnew]
    have hfresh : Chain.find IndexNode.code (hashKeyCode key) p.index = none := by
      rw [Chain.find_eq_none, hp.stored_iff]
      exact fun hne => hne hnew
    refine ⟨hs.wf, ?_, ?_, ?_, hstorages⟩
    · intro n hn
      rw [hindex, List.mem_append, List.mem_singleton] at hn
      rcases hn with hn | rfl
      · exact hp.keys n hn
      · exact ⟨rfl, hkey⟩
    · rw [hindex]
      exact @Chain.Distinct.append _ _ _ IndexNode.code p.index ⟨key, hashKeyCode key⟩ hp.distinct hfresh
    · intro h
      rw [hindex, List.map_append, List.mem_append, hp.stored_iff, hs.stored_eq]
      by_cases hh : hashKeyCode key = h
      · simp [hh, IndexNode.code]
      · simp [hh, Ne.symm hh, IndexNode.code]
  · have hindex : p'.index = p.index := by rw [hs.index_eq, if_neg hnew]
    refine ⟨hs.wf, fun n hn => hp.keys n (hindex ▸ hn), hindex ▸ hp.distinct, ?_, hstorages⟩
    intro h
    rw [hindex, hp.stored_iff, hs.stored_eq]
    by_cases hh : hashKeyCode key = h
    · simp [hh, hh ▸ hnew]
    · simp [hh]

theorem Indexed.deletes (hp : Indexed names p) {key : CStr} {a : VevoError × Port} (hd : Deletes p key a)
    (hok : IndexOk p (.store (.del key))) : Indexed names a.2 := by
  have hindex : a.2.index = Chain.remove IndexNode.code (hashKeyCode key) p.index := by
    rw [hd.index_eq, hp.indexDel_eq]
  have hsub : (Chain.remove IndexNode.code (hashKeyCode key) p.index).Sublist p.index :=
    Chain.remove_sublist _ _
  have hstored : ∀ h, stored a.2 h ≠ none ↔ stored p h ≠ none ∧ h ≠ hashKeyCode key := by
    intro h
    rw [hd.stored_eq]
    by_cases hh : hashKeyCode key = h
    · subst hh
      rcases hok with hreach | hnone
      · simp [hreach]
      · simp [hnone]
    · rw [if_neg fun hc => hh hc.1]
      simp [Ne.symm hh]
  refine ⟨hd.wf, fun n hn => hp.keys n (hsub.subset (hindex ▸ hn)), ?_, ?_, ?_⟩
  · rw [hindex]
    exact hp.distinct.remove _
  · intro h
    rw [hindex, mem_codes_remove hp, hp.stored_iff, hstored]
  · intro h slot hslot
    rw [hd.stored_eq] at hslot
    split_ifs at hslot
    exact hp.storages h slot hslot

theorem Indexed.vvStores (hp : Indexed names p) {h : UInt64} {st : Storage} {p' : Port}
    (hs : VvStores p h st p') (hok : p.table = none → stored p h ≠ none) : Indexed names p' := by
  refine ⟨hs.wf, fun n hn => hp.keys n (hs.index_eq ▸ hn), hs.index_eq ▸ hp.distinct, ?_, ?_⟩
  · intro h'
    rw [hs.index_eq, hp.stored_iff, hs.stored_eq]
    by_cases hh : h = h' ∧ p.table = none
    · obtain ⟨rfl, ht⟩ := hh
      simp [ht, hok ht]
    · rw [if_neg hh]
  · intro h' slot hslot
    rw [hs.stored_eq] at hslot
    split_ifs at hslot
    · exact ⟨st, (Option.some.inj hslot).symm⟩
    · exact hp.storages h' slot hslot

/-- **One call keeps the index in step.** -/
theorem applyIndexed_indexed (hp : Indexed names p) {op : IndexOp} (hnames : ∀ k ∈ namesOf [op], k ∈ names)
    (hok : IndexOk p op) : Ensures (applyIndexed p op) fun a => Indexed names a.2 := by
  cases op with
  | store op =>
    have hkey : op.key ∈ names := hnames _ (by simp [namesOf])
    have hstore : ∀ st, Ensures (storeProperty p op.key st) (Indexed names) := fun st =>
      (storeProperty_spec hp.wf op.key st (hp.freeable _)).mono fun p' hs => hp.stores hkey hs
    cases op with
    | set key t src =>
      simp only [applyIndexed, applyStore, vevoPropertySet, ensures_bind, ensures_ok]
      exact hstore _
    | setF key t set_func get_func =>
      simp only [applyIndexed, applyStore, vevoPropertySetF, ensures_bind, ensures_ok]
      exact hstore _
    | del key =>
      exact (vevoPropertyDel_spec hp.wf key (hp.freeable _)).mono fun a hd => hp.deletes hd hok
  | vvSet h t src =>
    simp only [applyIndexed, ensures_ok]
    exact hp.vvStores (vvPropertySet_spec hp.wf h t src) hok

/-! ## The listing -/

theorem vevoListProperties_getD (p : Port) :
    (vevoListProperties p).getD [] = p.index.map IndexNode.key := by
  unfold vevoListProperties
  split_ifs with h
  · rw [h]
    rfl
  · rfl

/-- **The listing enumerates the stored properties**, one name for each stored hash code; over names that
do not collide it is exactly the names that have a value. -/
theorem vevoListProperties_enumerates (portType : ℤ) (ops : List IndexOp)
    (hok : RunMeets applyIndexed IndexOk (vevoPortNew portType) ops) :
    Ensures (runOps applyIndexed (vevoPortNew portType) ops) fun a =>
      let listing := (vevoListProperties a.2).getD []
      vevoNumProperties a.2 = listing.length ∧
      (listing.map hashKeyCode).Nodup ∧
      (∀ k, hashKeyCode k ∈ listing.map hashKeyCode ↔ HasValue a.2 k) ∧
      (Set.InjOn hashKeyCode {k | k ∈ namesOf ops} →
        ∀ k, k ∈ listing ↔ k ∈ namesOf ops ∧ HasValue a.2 k) := by
  have hnames : ∀ op ∈ ops, ∀ k ∈ namesOf [op], k ∈ namesOf ops := by
    intro op hop k hk
    simp only [namesOf, List.mem_filterMap, List.mem_singleton, exists_eq_left] at hk ⊢
    exact ⟨op, hop, hk⟩
  have hkeep : ∀ p op, Indexed {k | k ∈ namesOf ops} p →
      ((∀ k ∈ namesOf [op], k ∈ namesOf ops) ∧ IndexOk p op) →
      Ensures (applyIndexed p op) fun a => Indexed {k | k ∈ namesOf ops} a.2 :=
    fun p op hp hop => applyIndexed_indexed hp hop.1 hop.2
  refine (runOps_ensures hkeep ops _ (indexed_vevoPortNew _ portType)
    (hok.and_of_mem hnames)).mono fun a ha => ?_
  dsimp only
  rw [vevoListProperties_getD, List.map_map]
  have hvalue : ∀ k, hashKeyCode k ∈ a.2.index.map IndexNode.code ↔ HasValue a.2 k := fun k => by
    rw [ha.stored_iff, ha.hasValue_iff]
  refine ⟨(List.length_map _).symm, ha.distinct, hvalue, fun hinj k => ?_⟩
  rw [← hvalue, List.mem_map, List.mem_map]
  constructor
  · rintro ⟨n, hn, rfl⟩
    exact ⟨(ha.keys n hn).2, n, hn, rfl⟩
  · rintro ⟨hk, n, hn, hcode⟩
    exact ⟨n, hn, hinj (ha.keys n hn).2 hk hcode⟩

/-- Two properties, one of them overwritten by its hash code, the other deleted. -/
def overwrittenRun : List IndexOp :=
  [.store (.set [97] .int [3]), .store (.set [98] .int [4]), .vvSet (hashKeyCode [97]) .int [5],
    .store (.del [98])]

theorem listing_after_del :
    Ensures (runOps applyIndexed (vevoPortNew 1) overwrittenRun) fun a =>
      vevoNumProperties a.2 = ((vevoListProperties a.2).getD []).length := by
  have hok : RunMeets applyIndexed IndexOk (vevoPortNew 1) overwrittenRun := by
    refine .cons trivial rfl (.cons trivial rfl (.cons ?_ rfl (.cons ?_ rfl trivial)))
    · exact fun _ hnone => by cases hnone
    · exact Or.inl (Or.inl rfl)
  exact (vevoListProperties_enumerates 1 overwrittenRun hok).mono fun a ha => ha.1

/-- **A name that is not listed** although it has a value: it has the hash code of another one. -/
theorem listing_misses_colliding_name :
    ¬ ∀ (portType : ℤ) (ops : List IndexOp) (k : CStr),
      Ensures (runOps applyIndexed (vevoPortNew portType) ops) fun a =>
        k ∈ (vevoListProperties a.2).getD [] ↔ HasValue a.2 k := by
  intro h
  obtain ⟨a, ha, hlist⟩ := h 1 [.store (.set [69, 122] .int [7])] [70, 89]
  have hnames : (runOps applyIndexed (vevoPortNew 1) [.store (.set [69, 122] .int [7])]).map
      (fun a => (vevoListProperties a.2).getD []) = .ok [[69, 122]] := rfl
  have hget : (runOps applyIndexed (vevoPortNew 1) [.store (.set [69, 122] .int [7])]).bind
      (fun a => vevoPropertyGet a.2 [70, 89] 0 true) = .ok (.noError, some ⟨.int, 7⟩) := rfl
  rw [ha] at hnames hget
  have hvalue : HasValue a.2 [70, 89] := ⟨_, hget, by decide⟩
  have hlisting : (vevoListProperties a.2).getD [] = [[69, 122]] := Except.ok.inj hnames
  have hmem := hlist.mpr hvalue
  rw [hlisting] at hmem
  exact absurd hmem (by decide)

end Veejay.Vevo
