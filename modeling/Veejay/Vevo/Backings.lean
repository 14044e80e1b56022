import Veejay.Vevo.FiniteMap

/-!
# The two backings of a port

One client issues the same calls to a port backed by a list and to a port backed by a hash table.  The
two answer alike until a call reaches one of three places where the code for the hash table differs:

* `vevo_property_atom_size` looks for the property on the wrong side of its test of the backing;
* `vevo_property_del` takes the name from the index, and leaves the property in the hash table;
* `vevo_property_soft_reference` overwrites the property's data pointer with the hash code.

`fateAfter` sums up the history of a name, `BackingOk` keeps the calls away from the three places, and
`backings_agree` is the simulation: same answers, or the same fault, over every run.
-/

namespace Veejay.Vevo

open CLib

/-- The calls on a port, by name. -/
inductive PortOp where
  | store (op : StoreOp)
  | get (key : CStr) (idx : ℤ) (dst : Bool)
  | numElements (key : CStr)
  | atomType (key : CStr)
  | atomSize (key : CStr)
  | elementSize (key : CStr) (idx : ℤ)
  | softReference (key : CStr)

/-- What a call returns, and what it copies to the caller. -/
inductive Answer where
  | code (e : VevoError)
  | got (e : VevoError) (data : Option Data)
  | int (z : ℤ)
  | size (n : ℕ)

/-- The name a call is about. -/
def PortOp.key : PortOp → CStr
  | .store op => op.key
  | .get key _ _ => key
  | .numElements key => key
  | .atomType key => key
  | .atomSize key => key
  | .elementSize key _ => key
  | .softReference key => key

/-- One call on a port. -/
def applyPort (p : Port) : PortOp → Exec (Answer × Port)
  | .store op => do
    let a ← applyStore p op
    .ok (.code a.1, a.2)
  | .get key idx dst => do
    let a ← vevoPropertyGet p key idx dst
    .ok (.got a.1 a.2, p)
  | .numElements key => do
    let z ← vevoPropertyNumElements p key
    .ok (.int z, p)
  | .atomType key => do
    let z ← vevoPropertyAtomType p key
    .ok (.int z, p)
  | .atomSize key => do
    let z ← vevoPropertyAtomSize p key
    .ok (.int z, p)
  | .elementSize key idx => do
    let n ← vevoPropertyElementSize p key idx
    .ok (.size n, p)
  | .softReference key => do
    let a ← vevoPropertySoftReference p key
    .ok (.code a.1, a.2)

/-! ## The history of a name -/

/-- What a run has done to a name: never set, set, or set and deleted since. -/
inductive Fate where
  | absent
  | live
  | stale
  deriving DecidableEq, Repr

/-- The fate of the name after one more call about it. -/
def fateAfter (f : Fate) : PortOp → Fate
  | .store (.set ..) => .live
  | .store (.setF ..) => .live
  | .store (.del _) => if f = .live then .stale else f
  | _ => f

/-- The fates of all names after one more call. -/
def noteFate (m : CStr → Fate) (op : PortOp) : CStr → Fate :=
  Function.update m op.key (fateAfter (m op.key) op)

/-- **The condition on a call**: no `atom_size`, no soft reference to a name that was ever set, and no
reading of a name that was deleted and not set again. -/
def BackingOk (m : CStr → Fate) : PortOp → Prop
  | .store _ => True
  | .atomSize _ => False
  | .softReference key => m key = .absent
  | .get key _ _ => m key ≠ .stale
  | .numElements key => m key ≠ .stale
  | .atomType key => m key ≠ .stale
  | .elementSize key _ => m key ≠ .stale

/-! ## The simulation -/

/-- What the two ports store under a name of the given fate. -/
def StoredAs : Fate → Option Slot → Option Slot → Prop
  | .absent, x, y => x = none ∧ y = none
  | .live, x, y => ∃ st, x = some (.storage st) ∧ y = some (.storage st)
  | .stale, x, y => x = none ∧ ∃ st, y = some (.storage st)

/-- **The simulation relation**, over the names of a run. -/
structure Alike (names : Set CStr) (m : CStr → Fate) (l h : Port) : Prop where
  list_wf : Wf l
  list_backed : l.table = none
  hash_wf : Wf h
  hash_backed : h.table ≠ none
  hash_list : h.list = []
  stored : ∀ k ∈ names, StoredAs (m k) (stored l (hashKeyCode k)) (stored h (hashKeyCode k))

variable {names : Set CStr} {m : CStr → Fate} {l h : Port}

theorem StoredAs.eq_of_ne_stale {f : Fate} {x y : Option Slot} (hxy : StoredAs f x y)
    (hf : f ≠ .stale) : x = y := by
  cases f with
  | absent => rw [hxy.1, hxy.2]
  | live =>
    obtain ⟨st, hx, hy⟩ := hxy
    rw [hx, hy]
  | stale => exact absurd rfl hf

theorem Alike.freeable (hA : Alike names m l h) {k : CStr} (hk : k ∈ names) :
    Freeable h (hashKeyCode k) := by
  intro slot hslot
  have hs := hA.stored k hk
  rw [hslot] at hs
  cases hm : m k with
  | absent =>
    rw [hm] at hs
    cases hs.2
  | live =>
    rw [hm] at hs
    obtain ⟨st, -, hst⟩ := hs
    cases hst
    rfl
  | stale =>
    rw [hm] at hs
    obtain ⟨-, st, hst⟩ := hs
    cases hst
    rfl

/-- A deletion never reaches the hash table: the port has no list. -/
theorem Alike.not_delReaches (hA : Alike names m l h) (x : UInt64) : ¬ DelReaches h x := by
  rintro (ht | hn)
  · exact hA.hash_backed ht
  · exact hn (by rw [propNodeGet, hA.hash_list, Chain.find_nil])

/-- A call that leaves both ports and every fate as they are. -/
theorem Alike.note_same (hA : Alike names m l h) {op : PortOp} (hop : fateAfter (m op.key) op = m op.key) :
    Alike names (noteFate m op) l h := by
  rwa [noteFate, hop, Function.update_eq_self]

/-- Storing a property on both ports. -/
theorem Alike.store (hA : Alike names m l h) (hinj : Set.InjOn hashKeyCode names) (key : CStr)
    (hkey : key ∈ names) (st : Storage) :
    ∃ l' h', storeProperty l key st = .ok l' ∧ storeProperty h key st = .ok h' ∧
      Alike names (Function.update m key .live) l' h' := by
  obtain ⟨l', hl, hls⟩ := storeProperty_spec hA.list_wf key st (freeable_of_list hA.list_backed _)
  obtain ⟨h', hh, hhs⟩ := storeProperty_spec hA.hash_wf key st (hA.freeable hkey)
  refine ⟨l', h', hl, hh, hls.wf, hls.table_iff.mpr hA.list_backed, hhs.wf,
    fun ht => hA.hash_backed (hhs.table_iff.mp ht), (hhs.list_eq hA.hash_backed).trans hA.hash_list,
    fun k hk => ?_⟩
  rw [hls.stored_eq, hhs.stored_eq, Function.update_apply]
  by_cases hkk : k = key
  · subst hkk
    rw [if_pos rfl, if_pos rfl, if_pos rfl]
    exact ⟨st, rfl, rfl⟩
  · have hne : hashKeyCode key ≠ hashKeyCode k := fun heq => hkk (hinj hkey hk heq).symm
    rw [if_neg hkk, if_neg hne, if_neg hne]
    exact hA.stored k hk

/-- Deleting a property on both ports. -/
theorem Alike.del (hA : Alike names m l h) (hinj : Set.InjOn hashKeyCode names) (key : CStr)
    (hkey : key ∈ names) :
    ∃ l' h', vevoPropertyDel l key = .ok (.noSuchProperty, l') ∧
      vevoPropertyDel h key = .ok (.noSuchProperty, h') ∧
      Alike names (Function.update m key (if m key = .live then .stale else m key)) l' h' := by
  obtain ⟨⟨e, l'⟩, hl, hld⟩ :=
    vevoPropertyDel_spec hA.list_wf key (freeable_of_list hA.list_backed _)
  obtain ⟨⟨e', h'⟩, hh, hhd⟩ := vevoPropertyDel_spec hA.hash_wf key (hA.freeable hkey)
  obtain rfl : e = .noSuchProperty := hld.answer
  obtain rfl : e' = .noSuchProperty := hhd.answer
  refine ⟨l', h', hl, hh, hld.wf, hld.table_iff.mpr hA.list_backed, hhd.wf,
    fun ht => hA.hash_backed (hhd.table_iff.mp ht), hhd.list_nil hA.hash_list, fun k hk => ?_⟩
  have hreach : DelReaches l (hashKeyCode key) := Or.inl hA.list_backed
  have hkept : Vevo.stored h' (hashKeyCode k) = Vevo.stored h (hashKeyCode k) :=
    (hhd.stored_eq _).trans (if_neg fun hc => hA.not_delReaches _ hc.2)
  rw [hld.stored_eq, hkept, Function.update_apply]
  have hs := hA.stored k hk
  by_cases hkk : k = key
  · subst hkk
    have htaken : hashKeyCode k = hashKeyCode k ∧ DelReaches l (hashKeyCode k) := ⟨rfl, hreach⟩
    rw [if_pos rfl, if_pos htaken]
    cases hm : m k with
    | absent =>
      rw [hm] at hs
      exact ⟨rfl, hs.2⟩
    | live =>
      rw [hm] at hs
      obtain ⟨st, -, hst⟩ := hs
      exact ⟨rfl, st, hst⟩
    | stale =>
      rw [hm] at hs
      exact ⟨rfl, hs.2⟩
  · have hne : hashKeyCode key ≠ hashKeyCode k := fun heq => hkk (hinj hkey hk heq).symm
    rw [if_neg hkk, if_neg (fun hc => hne hc.1)]
    exact hs

/-- **One call**: the same answer, or the same fault, from both ports. -/
theorem applyPort_agrees (hA : Alike names m l h) (hinj : Set.InjOn hashKeyCode names) {op : PortOp}
    (hkey : op.key ∈ names) (hok : BackingOk m op) :
    StepAgrees (Alike names (noteFate m op)) (applyPort l op) (applyPort h op) := by
  cases op with
  | store op =>
    cases op with
    | set key t src =>
      obtain ⟨l', h', hl, hh, hA'⟩ := hA.store hinj key hkey (storagePutAtomValue t src)
      simp only [applyPort, applyStore, vevoPropertySet, hl, hh, ok_bind]
      exact Or.inl ⟨.code .noError, l', h', rfl, rfl, hA'⟩
    | setF key t set_func get_func =>
      obtain ⟨l', h', hl, hh, hA'⟩ := hA.store hinj key hkey (storagePutAtomFunc t set_func get_func)
      simp only [applyPort, applyStore, vevoPropertySetF, hl, hh, ok_bind]
      exact Or.inl ⟨.code .noError, l', h', rfl, rfl, hA'⟩
    | del key =>
      obtain ⟨l', h', hl, hh, hA'⟩ := hA.del hinj key hkey
      simp only [applyPort, applyStore, hl, hh, ok_bind]
      exact Or.inl ⟨.code .noSuchProperty, l', h', rfl, rfl, hA'⟩
  | get key idx dst =>
    have heq : vevoPropertyGet l key idx dst = vevoPropertyGet h key idx dst := by
      rw [vevoPropertyGet_eq, vevoPropertyGet_eq, (hA.stored key hkey).eq_of_ne_stale hok]
    have hA' : Alike names (noteFate m (.get key idx dst)) l h := hA.note_same rfl
    simp only [applyPort, heq]
    exact StepAgrees.of_answer hA' _ _
  | numElements key =>
    have heq : vevoPropertyNumElements l key = vevoPropertyNumElements h key := by
      unfold vevoPropertyNumElements
      rw [readProperty_eq, readProperty_eq, (hA.stored key hkey).eq_of_ne_stale hok]
    have hA' : Alike names (noteFate m (.numElements key)) l h := hA.note_same rfl
    simp only [applyPort, heq]
    exact StepAgrees.of_answer hA' _ _
  | atomType key =>
    have heq : vevoPropertyAtomType l key = vevoPropertyAtomType h key := by
      unfold vevoPropertyAtomType
      rw [readProperty_eq, readProperty_eq, (hA.stored key hkey).eq_of_ne_stale hok]
    have hA' : Alike names (noteFate m (.atomType key)) l h := hA.note_same rfl
    simp only [applyPort, heq]
    exact StepAgrees.of_answer hA' _ _
  | atomSize key => exact hok.elim
  | elementSize key idx =>
    have heq : vevoPropertyElementSize l key idx = vevoPropertyElementSize h key idx := by
      rw [vevoPropertyElementSize_eq, vevoPropertyElementSize_eq,
        (hA.stored key hkey).eq_of_ne_stale hok]
    have hA' : Alike names (noteFate m (.elementSize key idx)) l h := hA.note_same rfl
    simp only [applyPort, heq]
    exact StepAgrees.of_answer hA' _ _
  | softReference key =>
    have hs := hA.stored key hkey
    have habsent : m key = .absent := hok
    rw [habsent] at hs
    have hA' : Alike names (noteFate m (.softReference key)) l h := hA.note_same rfl
    simp only [applyPort, vevoPropertySoftReference_of_none hs.1,
      vevoPropertySoftReference_of_none hs.2]
    exact Or.inl ⟨.code .noError, l, h, rfl, rfl, hA'⟩

/-- **The two backings agree.**  Over names that do not collide, a run that keeps away from the three
places gives the same answers on a list-backed and on a hash-backed port. -/
theorem backings_agree {listType hashType : ℤ} (hl : UsesList listType) (hh : ¬ UsesList hashType)
    (ops : List PortOp) (hinj : Set.InjOn hashKeyCode {k | k ∈ ops.map PortOp.key})
    (hok : HistoryMeets noteFate BackingOk (fun _ => .absent) ops) :
    SameAnswer (runOps applyPort (vevoPortNew listType) ops)
      (runOps applyPort (vevoPortNew hashType) ops) := by
  have hnew : Alike {k | k ∈ ops.map PortOp.key} (fun _ => .absent) (vevoPortNew listType)
      (vevoPortNew hashType) := by
    refine ⟨wf_vevoPortNew _, if_pos hl, wf_vevoPortNew _, ?_, rfl, fun k _ => ?_⟩
    · rw [vevoPortNew, if_neg hh]
      simp
    · exact ⟨stored_vevoPortNew _ _, stored_vevoPortNew _ _⟩
  refine runOps_agree (R := Alike _) (fun m l h op hA hop => ?_) ops _ _ _ hnew
    (hok.and_of_mem (P := fun op => op.key ∈ ops.map PortOp.key) fun op hop => List.mem_map_of_mem hop)
  exact applyPort_agrees hA hinj hop.1 hop.2

/-- A run about one name. -/
theorem injOn_of_one_name {ops : List PortOp} {k : CStr} (h : ∀ op ∈ ops, op.key = k) :
    Set.InjOn hashKeyCode {n | n ∈ ops.map PortOp.key} := by
  intro a ha b hb _
  obtain ⟨o, ho, rfl⟩ := List.mem_map.mp ha
  obtain ⟨o', ho', rfl⟩ := List.mem_map.mp hb
  rw [h o ho, h o' ho']

/-- A property that is set, deleted and set again. -/
theorem backings_agree_on_reset :
    SameAnswer
      (runOps applyPort (vevoPortNew 1)
        [.store (.set [97] .int [3]), .store (.del [97]), .store (.set [97] .int [4, 5]),
          .get [97] 1 true])
      (runOps applyPort (vevoPortNew 0)
        [.store (.set [97] .int [3]), .store (.del [97]), .store (.set [97] .int [4, 5]),
          .get [97] 1 true]) := by
  refine backings_agree (by decide) (by decide) _ (injOn_of_one_name (k := [97]) ?_)
    ⟨trivial, trivial, trivial, ?_, trivial⟩
  · simp [PortOp.key, StoreOp.key]
  · show _ ≠ Fate.stale
    decide

/-- **A deleted property** is still in the hash table. -/
theorem backings_differ_after_del :
    ¬ ∀ ops : List PortOp, Set.InjOn hashKeyCode {k | k ∈ ops.map PortOp.key} →
      SameAnswer (runOps applyPort (vevoPortNew 1) ops) (runOps applyPort (vevoPortNew 0) ops) := by
  intro h
  have hsame := h [.store (.set [97] .int [3]), .store (.del [97]), .numElements [97]]
    (injOn_of_one_name (k := [97]) (by simp [PortOp.key, StoreOp.key]))
  have hlist : (runOps applyPort (vevoPortNew 1)
      [.store (.set [97] .int [3]), .store (.del [97]), .numElements [97]]).map Prod.fst
      = .ok [.code .noError, .code .noSuchProperty, .int (-1)] := rfl
  have hhash : (runOps applyPort (vevoPortNew 0)
      [.store (.set [97] .int [3]), .store (.del [97]), .numElements [97]]).map Prod.fst
      = .ok [.code .noError, .code .noSuchProperty, .int 1] := rfl
  rw [SameAnswer, hlist, hhash] at hsame
  simp at hsame

end Veejay.Vevo
