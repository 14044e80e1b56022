import Veejay.Hash.Table
import Veejay.Vevo.Atom

/-!
# Ports

A port stores its properties in a linked list or in a hash table, and keeps the names of its properties
in an index list (`libvevo/vevo.c`).  Both stores know a property by the hash code of its name only; a
name is never compared.

* `hashKeyCode` — the code of a name;
* `Port` — `__vevo_port_t`; a node of the hash table holds an untyped pointer (`Slot`), which
  `vevo_property_soft_reference` overwrites;
* `vevoPropertySet`, `vevoPropertySetF`, `vevoPropertyDel`, `vvPropertySet` — the writers;
* `vevoPropertyGet`, `vevoPropertyNumElements`, … — the readers;
* `propNodeGet_…` — what each writer does to each store, name by name.
-/

namespace Veejay.Vevo

open CLib

/-- `hash_key_code`: `hash * 33 + c` over the characters, which are signed. -/
def hashKeyCode (str : CStr) : UInt64 :=
  str.foldl (fun hash c => (hash <<< 5) + hash + c.toInt8.toInt64.toUInt64) 5381

/-- `vevo_property_t`, less its link. -/
structure PropNode where
  key : UInt64
  st : Storage

/-- `port_index_t`, less its link. -/
structure IndexNode where
  key : CStr
  hashCode : UInt64
  deriving DecidableEq, Repr

/-- The data pointer of a hash node: a storage, or a word that was put there as it is. -/
inductive Slot where
  | storage (st : Storage)
  | word (w : UInt64)

/-- `__vevo_port_t` -/
structure Port where
  table : Option (Hash.Table UInt64 Slot)
  list : List PropNode
  index : List IndexNode

/-- Reading a storage through the data pointer of a hash node. -/
def Slot.deref : Slot → Exec Storage
  | .storage st => .ok st
  | .word w => if w = 0 then .error .nullPointer else .error .wildPointer

/-- `if (stor) return …; return -1`, through the data pointer of a hash node. -/
def Slot.readOr (f : Storage → ℤ) : Slot → Exec ℤ
  | .storage st => .ok (f st)
  | .word w => if w = 0 then .ok (-1) else .error .wildPointer

/-- `vevo_free_storage`, through the data pointer of a hash node: nothing is done to `NULL`. -/
def Slot.free : Slot → Exec Unit
  | .storage _ => .ok ()
  | .word w => if w = 0 then .ok () else .error .wildPointer

/-- The port types that use a list; all the others use a hash table. -/
def UsesList (portType : ℤ) : Prop := (1 ≤ portType ∧ portType ≤ 50) ∨ portType < 0

instance (portType : ℤ) : Decidable (UsesList portType) :=
  inferInstanceAs (Decidable (_ ∨ _))

/-- `vevo_port_new` -/
def vevoPortNew (portType : ℤ) : Port where
  table := if UsesList portType then none else some Hash.hashCreate
  list := []
  index := []

/-- `prop_node_get` -/
def propNodeGet (p : Port) (h : UInt64) : Option PropNode := Chain.find PropNode.key h p.list

/-- `prop_node_append` -/
def propNodeAppend (p : Port) (h : UInt64) (st : Storage) : Port :=
  { p with list := p.list ++ [{ key := h, st := st }] }

/-- `port_node_append` -/
def portNodeAppend (p : Port) (key : CStr) (h : UInt64) : Port :=
  { p with index := p.index ++ [{ key := key, hashCode := h }] }

/-- `int_hash`: the hash codes are their own hash values. -/
def intHash (key : UInt64) : UInt64 := key

/-- `property_exists` -/
def propertyExists (t : Hash.Table UInt64 Slot) (h : UInt64) : Option (Hash.Node UInt64 Slot) :=
  Hash.hashLookup intHash h t

/-- `current->st = stor`, on the node of the list. -/
def Port.setNode (p : Port) (h : UInt64) (st : Storage) : Port :=
  { p with list := Chain.change PropNode.key h (fun n => { n with st := st }) p.list }

/-- The common body of `vevo_property_set` and `vevo_property_set_f`. -/
def storeProperty (p : Port) (key : CStr) (st : Storage) : Exec Port :=
  let h := hashKeyCode key
  match p.table with
  | none =>
    match propNodeGet p h with
    | some _ => .ok (p.setNode h st)
    | none => .ok (propNodeAppend (portNodeAppend p key h) h st)
  | some t =>
    match propertyExists t h with
    | some node => do
      node.data.free
      .ok { p with table := some (Hash.hashInsert intHash h (.storage st) (Hash.hashDelete node t)) }
    | none =>
      .ok { portNodeAppend p key h with table := some (Hash.hashInsert intHash h (.storage st) t) }

/-- `vevo_property_set` -/
def vevoPropertySet (p : Port) (key : CStr) (t : AtomType) (src : List t.Elem) :
    Exec (VevoError × Port) := do
  let p ← storeProperty p key (storagePutAtomValue t src)
  .ok (.noError, p)

/-- `vevo_property_set_f` -/
def vevoPropertySetF (p : Port) (key : CStr) (t : AtomType) (set_func get_func : UInt64) :
    Exec (VevoError × Port) := do
  let p ← storeProperty p key (storagePutAtomFunc t set_func get_func)
  .ok (.noError, p)

/-- `vv_property_set`: by hash code, into the list, whatever the port uses. -/
def vvPropertySet (p : Port) (h : UInt64) (t : AtomType) (src : List t.Elem) : VevoError × Port :=
  let st := storagePutAtomValue t src
  match propNodeGet p h with
  | some _ => (.noError, p.setNode h st)
  | none => (.noError, propNodeAppend p h st)

/-- The first part of `vevo_property_del`: the name goes from the index. -/
def indexDel (h : UInt64) (index : List IndexNode) : List IndexNode :=
  match Chain.find (fun n => hashKeyCode n.key) h index with
  | none => index
  | some tmp =>
    if tmp.hashCode = h then Chain.remove (fun n => hashKeyCode n.key) h index else index

/-- `vevo_property_del`: the hash table is looked at only where the *list* has the property, and the
answer is the same whether the property was there or not. -/
def vevoPropertyDel (p : Port) (key : CStr) : Exec (VevoError × Port) :=
  let h := hashKeyCode key
  let index := indexDel h p.index
  match propNodeGet p h with
  | none => .ok (.noSuchProperty, { p with index := index })
  | some _ =>
    let list := Chain.remove PropNode.key h p.list
    match p.table with
    | none => .ok (.noSuchProperty, { p with list := list, index := index })
    | some t =>
      match propertyExists t h with
      | none => .ok (.noSuchProperty, { p with list := list, index := index })
      | some node => do
        node.data.free
        .ok (.noSuchProperty, { table := some (Hash.hashDelete node t), list := list, index := index })

/-- `vevo_property_soft_reference`: on a hash table, the data of the node is overwritten. -/
def vevoPropertySoftReference (p : Port) (key : CStr) : Exec (VevoError × Port) :=
  let h := hashKeyCode key
  match p.table with
  | none =>
    match propNodeGet p h with
    | some node => .ok (.noError, p.setNode h { node.st with softlink := true })
    | none => .ok (.noError, p)
  | some t =>
    match propertyExists t h with
    | some node => do
      let _ ← node.data.deref
      .ok (.noError, { p with table := some (Hash.hnodePut node (.word h) t) })
    | none => .ok (.noError, p)

/-! ## The readers -/

/-- `vevo_property_get` -/
def vevoPropertyGet (p : Port) (key : CStr) (idx : ℤ) (dst : Bool) :
    Exec (VevoError × Option Data) :=
  let h := hashKeyCode key
  match p.table with
  | none =>
    match propNodeGet p h with
    | some node => .ok (atomGetValue node.st idx dst)
    | none => .ok (.noSuchProperty, none)
  | some t =>
    match propertyExists t h with
    | some node => do
      let st ← node.data.deref
      .ok (atomGetValue st idx dst)
    | none => .ok (.noSuchProperty, none)

/-- The common body of `vevo_property_num_elements` and `vevo_property_atom_type`. -/
def readProperty (f : Storage → ℤ) (p : Port) (key : CStr) : Exec ℤ :=
  let h := hashKeyCode key
  match p.table with
  | none =>
    match propNodeGet p h with
    | some node => .ok (f node.st)
    | none => .ok (-1)
  | some t =>
    match propertyExists t h with
    | some node => node.data.readOr f
    | none => .ok (-1)

/-- `vevo_property_num_elements` -/
def vevoPropertyNumElements : Port → CStr → Exec ℤ := readProperty Storage.numElements

/-- `vevo_property_atom_type` -/
def vevoPropertyAtomType : Port → CStr → Exec ℤ := readProperty fun st => st.atomType.code

/-- `vevo_property_atom_size`: the hash table is looked at only on a port that has none. -/
def vevoPropertyAtomSize (p : Port) (key : CStr) : Exec ℤ :=
  let h := hashKeyCode key
  match p.table with
  | none =>
    match propNodeGet p h with
    | some node => .ok (vevoStorageSize node.st)
    | none => .error .nullPointer
  | some _ => .ok (-1)

/-- `vevo_property_element_size`: a `size_t`, so that a missing property answers its greatest value. -/
def vevoPropertyElementSize (p : Port) (key : CStr) (idx : ℤ) : Exec ℕ :=
  let h := hashKeyCode key
  match p.table with
  | none =>
    match propNodeGet p h with
    | some node => elementSize node.st idx
    | none => .ok (2 ^ 64 - 1)
  | some t =>
    match propertyExists t h with
    | some node => do
      let st ← node.data.deref
      elementSize st idx
    | none => .ok (2 ^ 64 - 1)

/-- `vevo_list_properties`: `NULL` for a port without an index. -/
def vevoListProperties (p : Port) : Option (List CStr) :=
  if p.index = [] then none else some (p.index.map IndexNode.key)

/-- `vevo_num_properties` -/
def vevoNumProperties (p : Port) : ℕ := p.index.length

end Veejay.Vevo
