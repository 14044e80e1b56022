import Veejay.CLib.Text

/-!
# Atoms and atom storage

A property of a vevo port holds a storage: an atom type and a number of atoms of that type, each a copy
of what the caller passed (`libvevo/vevo.c`).  Where each atom is allocated from is not part of the model.

* `AtomType` — the atom types, with the values they hold (`AtomType.Elem`) and their byte sizes;
* `Storage` — `vevo_storage_t`, built by `storagePutAtomValue` and `storagePutAtomFunc`;
* `atomGetValue`, `vevoStorageSize`, `elementSize` — what the accessors read from a storage.
-/

namespace Veejay.Vevo

open CLib

/-- `VEVO_ATOM_TYPE_…` -/
inductive AtomType where
  | int
  | double
  | bool
  | string
  | uint64
  | utf8string
  | funcptr
  | hidden
  | voidptr
  | portptr
  deriving DecidableEq, Repr

/-- The number of an atom type. -/
def AtomType.code : AtomType → ℤ
  | .int => 1
  | .double => 2
  | .bool => 3
  | .string => 4
  | .uint64 => 5
  | .utf8string => 8
  | .funcptr => 11
  | .hidden => 50
  | .voidptr => 65
  | .portptr => 66

/-- What one element of the type holds: doubles and pointers are their eight bytes, a string may be
`NULL`, and function pointers and hidden elements have no value. -/
abbrev AtomType.Elem : AtomType → Type
  | .int | .bool => Int32
  | .double | .uint64 | .voidptr | .portptr => UInt64
  | .string | .utf8string => Option CStr
  | .funcptr | .hidden => Unit

/-- The error codes that the accessors of this model return. -/
inductive VevoError where
  | noError
  | noSuchElement
  | noSuchProperty
  | propertyEmpty
  deriving DecidableEq, Repr

/-- `VEVO_NO_ERROR` and `VEVO_ERROR_…` -/
def VevoError.code : VevoError → ℤ
  | .noError => 0
  | .noSuchElement => 3
  | .noSuchProperty => 4
  | .propertyEmpty => 8

/-- `atom_t`: a copied value, or a pair of functions. -/
inductive Atom (t : AtomType) where
  | data (value : t.Elem)
  | func (set_func get_func : UInt64)

/-- `vevo_atom_size`, and the length of a string with its terminating zero. -/
def AtomType.valueSize : (t : AtomType) → t.Elem → ℕ
  | .int, _ | .bool, _ => 4
  | .double, _ | .uint64, _ | .voidptr, _ | .portptr, _ => 8
  | .string, s | .utf8string, s => (s.map fun bytes => bytes.length + 1).getD 0
  | .funcptr, _ | .hidden, _ => 0

/-- `atom->size` -/
def Atom.size {t : AtomType} : Atom t → ℕ
  | .data value => t.valueSize value
  | .func _ _ => 0

/-- `vevo_storage_t`: `num_elements` is the number of atoms. -/
structure Storage where
  atomType : AtomType
  elements : List (Atom atomType)
  softlink : Bool

/-- `stor->num_elements` -/
def Storage.numElements (st : Storage) : ℤ := st.elements.length

/-- `storage_put_atom_value`, into a new storage. -/
def storagePutAtomValue (t : AtomType) (src : List t.Elem) : Storage where
  atomType := t
  elements := src.map Atom.data
  softlink := false

/-- `storage_put_atom_func`, into a new storage: one atom without a value. -/
def storagePutAtomFunc (t : AtomType) (set_func get_func : UInt64) : Storage where
  atomType := t
  elements := [Atom.func set_func get_func]
  softlink := false

/-- A value copied to the caller, with its type. -/
abbrev Data := (t : AtomType) × t.Elem

/-- The atom of `atom_get_value`. -/
def Storage.atomAt (st : Storage) (idx : ℤ) : Option (Atom st.atomType) :=
  if 0 ≤ idx then st.elements[idx.toNat]? else none

/-- The atom's value as it is copied out; an atom of no size copies nothing. -/
def Atom.copyOut {t : AtomType} (dst : Bool) (atom : Atom t) : Option Data :=
  if atom.size = 0 ∨ dst = false ∨ t = .funcptr then none
  else match atom with
    | .data value => some ⟨t, value⟩
    | .func _ _ => none

/-- `atom_get_value`: the error code, and what was copied to the destination, if there is one. -/
def atomGetValue (st : Storage) (idx : ℤ) (dst : Bool) : VevoError × Option Data :=
  if st.elements.length = 0 ∧ idx = 0 then (.propertyEmpty, none)
  else match st.atomAt idx with
    | none => (.noSuchElement, none)
    | some atom => (.noError, atom.copyOut dst)

/-- `vevo_storage_size`: a sum in an `int`. -/
def vevoStorageSize (st : Storage) : ℤ :=
  st.elements.foldl (fun msize atom => (msize + atom.size).bmod (2 ^ 32)) 0

/-- The size of one element; a single atom is read whatever the index, and an array without a check. -/
def elementSize (st : Storage) (idx : ℤ) : Exec ℕ :=
  match st.elements with
  | [] => .ok 0
  | [atom] => .ok atom.size
  | _ => match st.atomAt idx with
    | some atom => .ok atom.size
    | none => .error .outOfBounds

theorem atomGetValue_code_ne (st : Storage) (idx : ℤ) (dst : Bool) :
    (atomGetValue st idx dst).1 ≠ .noSuchProperty := by
  unfold atomGetValue
  split_ifs
  · simp
  · cases st.atomAt idx <;> simp

end Veejay.Vevo
