import Veejay.Vevo.TextBuffers

/-!
# Cloning a property

`vevo_property_clone` copies a property to another port, or under another name, by its atom type (`libvevo/vevo.c`).

* `vevoPropertyClone` — the function;
* `HoldsAtoms`, `Cloned` — a port holds values under a name, those of a property of another port;
* `cloneNumbers_spec`, `cloneString_spec` — the branches that copy;
* `vevoPropertyClone_iff` — **what was cloned without an error is there, exactly where the branch copies it or it was
  there before**;
* `not_cloned_strings` — an array of strings is not copied.
-/

namespace Veejay.Vevo

open CLib

/-! ## The function -/

/-- `VEVO_ERROR_MEMORY_ALLOCATION` -/
def errorMemoryAllocation : ℤ := 1

/-- What `vevo_property_get` left in a variable of the type. -/
def asElem (t : AtomType) (data : Option Data) : Option t.Elem :=
  data.bind fun d => if h : d.1 = t then some (h ▸ d.2) else none

/-- The loop `vevo_property_get( port, key, i, &(tmp[i]))`; nothing after an error. -/
def cloneLoop (p : Port) (key : CStr) (t : AtomType) : ℕ → ℕ → Exec (Option (List (Option t.Elem)))
  | 0, _ => .ok (some [])
  | n + 1, i => do
    let a ← vevoPropertyGet p key i true
    match a with
    | (.noError, data) => do
      let rest ← cloneLoop p key t n (i + 1)
      .ok (rest.map (asElem t data :: ·))
    | _ => .ok none

/-- `vevo_property_set (to_port, as_key, …)` with its error code. -/
def cloneSet (toPort : Port) (asKey : CStr) (t : AtomType) (src : List t.Elem) : Exec (ℤ × Port) := do
  let a ← vevoPropertySet toPort asKey t src
  .ok (if a.1 = .noError then VevoError.noError.code else errorMemoryAllocation, a.2)

/-- The common text of the branches for integers, doubles and 64-bit numbers. -/
def cloneNumbers (p toPort : Port) (key asKey : CStr) (st : Storage) : Exec (ℤ × Port) := do
  let tmp ← cloneLoop p key st.atomType st.elements.length 0
  match tmp with
  | none => .ok (VevoError.noSuchElement.code, toPort)
  | some tmp => do
    let src ← initialised tmp
    cloneSet toPort asKey st.atomType src

/-- The branch for strings: an array is left out. -/
def cloneString (toPort : Port) (asKey : CStr) (st : Storage) : Exec (ℤ × Port) :=
  if st.elements.length = 1 then do
    let src ← getStr st
    match st.atomType with
    | .string => cloneSet toPort asKey .string [src]
    | .utf8string => cloneSet toPort asKey .utf8string [src]
    | _ => .ok (VevoError.noError.code, toPort)
  else .ok (VevoError.noError.code, toPort)

/-- `vevo_property_clone`: the error code, and the port that is cloned to. -/
def vevoPropertyClone (p toPort : Port) (key asKey : CStr) : Exec (ℤ × Port) := do
  let st ← findProperty p key
  match st with
  | none => .ok (VevoError.noSuchElement.code, toPort)
  | some st =>
    if st.elements = [] then .ok (VevoError.propertyEmpty.code, toPort)
    else match st.atomType with
      | .int | .bool | .double | .uint64 => cloneNumbers p toPort key asKey st
      | .string | .utf8string => cloneString toPort asKey st
      | _ => .ok (VevoError.noError.code, toPort)

/-! ## What it does -/

/-- The port holds the atoms of a storage under a name: as many, of the same type and with the same values. -/
def HoldsAtoms (p : Port) (key : CStr) (st : Storage) : Prop :=
  ∃ softlink, stored p (hashKeyCode key) = some (.storage { st with softlink := softlink })

/-- The property of the source, under the new name in the target. -/
def Cloned (p : Port) (key : CStr) (toPort : Port) (asKey : CStr) : Prop :=
  ∃ st, findProperty p key = .ok (some st) ∧ HoldsAtoms toPort asKey st

/-- The branches that copy: numbers, and a single string that was set as a value. -/
def Copies (st : Storage) : Prop :=
  match st.atomType with
  | .int | .bool | .double | .uint64 => True
  | .string | .utf8string => ∃ value : st.atomType.Elem, st.elements = [.data value]
  | _ => False

/-- The branches that leave the target as it is: arrays of strings, and the other types. -/
def Skips (st : Storage) : Prop :=
  match st.atomType with
  | .int | .bool | .double | .uint64 => False
  | .string | .utf8string => st.elements.length ≠ 1
  | _ => True

variable {p toPort q : Port} {key asKey : CStr} {st : Storage}

theorem findProperty_eq_some :
    findProperty p key = .ok (some st) ↔ stored p (hashKeyCode key) = some (.storage st) := by
  rw [findProperty]
  cases hslot : stored p (hashKeyCode key) with
  | none => exact iff_of_false (fun h => by cases h) fun h => by cases h
  | some slot =>
    cases slot with
    | storage st' =>
      exact ⟨fun h => by cases h; rfl, fun h => by cases h; rfl⟩
    | word w =>
      refine iff_of_false (fun h => ?_) fun h => by cases h
      dsimp only [Slot.storage?] at h
      split_ifs at h
      cases h

/-- What is stored can be freed, where storing returned. -/
theorem storeProperty_freeable {st : Storage} (h : storeProperty toPort asKey st = .ok q) :
    Freeable toPort (hashKeyCode asKey) := by
  cases ht : toPort.table with
  | none => exact freeable_of_list ht _
  | some t =>
    intro slot hslot
    rw [stored_of_table ht] at hslot
    obtain ⟨node, hnode, rfl⟩ := Option.map_eq_some_iff.mp hslot
    simp only [storeProperty, ht, hnode] at h
    obtain ⟨_, hfree, -⟩ := bind_eq_ok.mp h
    exact hfree

/-- **Setting the copy.** -/
theorem cloneSet_spec (hto : Wf toPort) {t : AtomType} {src : List t.Elem} {code : ℤ}
    (h : cloneSet toPort asKey t src = .ok (code, q)) :
    stored q (hashKeyCode asKey) = some (.storage (storagePutAtomValue t src)) := by
  obtain ⟨a, hset, hret⟩ := bind_eq_ok.mp h
  obtain ⟨q', hstore, hq'⟩ := bind_eq_ok.mp hset
  obtain rfl := Except.ok.inj hq'
  obtain ⟨-, rfl⟩ := Prod.mk.inj (Except.ok.inj hret)
  have hspec := (storeProperty_spec hto asKey (storagePutAtomValue t src) (storeProperty_freeable hstore)).apply hstore
  rw [hspec.stored_eq, if_pos rfl]

theorem holdsAtoms_of_data {src : List st.atomType.Elem} (helements : st.elements = src.map .data)
    (h : stored q (hashKeyCode asKey) = some (.storage (storagePutAtomValue st.atomType src))) :
    HoldsAtoms q asKey st := ⟨false, by rw [h, storagePutAtomValue, ← helements]⟩

/-- **The loop** reads the elements one by one. -/
theorem cloneLoop_eq (hst : findProperty p key = .ok (some st)) :
    ∀ n i, i + n = st.elements.length → cloneLoop p key st.atomType n i =
      .ok (some ((st.elements.drop i).map fun atom => asElem st.atomType (atom.copyOut true))) := by
  intro n
  induction n with
  | zero =>
    intro i hi
    rw [cloneLoop, List.drop_of_length_le (by omega), List.map_nil]
  | succ n ih =>
    intro i hi
    obtain ⟨atom, hget, hdrop⟩ : ∃ atom, st.elements[i]? = some atom ∧
        st.elements.drop i = atom :: st.elements.drop (i + 1) := by
      have hlt : i < st.elements.length := by omega
      exact ⟨_, List.getElem?_eq_getElem hlt, List.drop_eq_getElem_cons hlt⟩
    have hread : vevoPropertyGet p key i true = .ok (.noError, atom.copyOut true) := by
      rw [vevoPropertyGet_eq, findProperty_eq_some.mp hst, ← atomGetValue_getElem hget]
      rfl
    rw [cloneLoop, hread, hdrop, ok_bind]
    dsimp only
    rw [ih (i + 1) (by omega), ok_bind]
    rfl

/-- A value that was read is the atom's own. -/
theorem eq_data_of_asElem {t : AtomType} {atom : Atom t} {value : t.Elem}
    (h : asElem t (atom.copyOut true) = some value) : atom = .data value := by
  cases atom with
  | data value' =>
    unfold Atom.copyOut at h
    by_cases hsize : (Atom.data value').size = 0 ∨ true = false ∨ t = .funcptr
    · rw [if_pos hsize] at h
      cases h
    · rw [if_neg hsize] at h
      have hval : some value' = some value := by simpa [asElem] using h
      rw [Option.some.inj hval]
  | func set_func get_func => cases h

theorem eq_map_data {t : AtomType} : ∀ {elements : List (Atom t)} {src : List t.Elem},
    elements.map (fun atom => asElem t (atom.copyOut true)) = src.map some → elements = src.map .data
  | [], [], _ => rfl
  | [], _ :: _, h => by cases h
  | _ :: _, [], h => by cases h
  | atom :: elements, value :: src, h => by
    rw [List.map_cons, List.map_cons, List.cons.injEq] at h
    rw [List.map_cons, eq_data_of_asElem h.1, eq_map_data h.2]

/-- **Numbers** are copied. -/
theorem cloneNumbers_spec (hto : Wf toPort) (hst : findProperty p key = .ok (some st))
    (h : cloneNumbers p toPort key asKey st = .ok (0, q)) : HoldsAtoms q asKey st := by
  rw [cloneNumbers, cloneLoop_eq hst _ _ (Nat.zero_add _), ok_bind] at h
  obtain ⟨src, hsrc, hset⟩ := bind_eq_ok.mp h
  have helements := eq_map_data (initialised_eq hsrc)
  rw [List.drop_zero] at helements
  exact holdsAtoms_of_data helements (cloneSet_spec hto hset)

/-- **A single string** is copied. -/
theorem cloneString_spec (hto : Wf toPort) {t : AtomType} (ht : t = .string ∨ t = .utf8string) {value : t.Elem}
    {softlink : Bool} (h : cloneString toPort asKey ⟨t, [.data value], softlink⟩ = .ok (0, q)) :
    HoldsAtoms q asKey ⟨t, [.data value], softlink⟩ := by
  have hone : cloneString toPort asKey ⟨t, [.data value], softlink⟩ =
      (getStr ⟨t, [.data value], softlink⟩ >>= fun src => match t with
      | .string => cloneSet toPort asKey .string [src]
      | .utf8string => cloneSet toPort asKey .utf8string [src]
      | _ => .ok (VevoError.noError.code, toPort)) := if_pos rfl
  rw [hone] at h
  obtain ⟨s, hs, hset⟩ := bind_eq_ok.mp h
  rcases ht with rfl | rfl
  · have hvalue : s = value := by
      cases value with
      | none => exact (Except.ok.inj hs).symm
      | some bytes => exact (Except.ok.inj hs).symm
    subst hvalue
    exact ⟨false, cloneSet_spec hto hset⟩
  · have hvalue : s = value := by
      cases value with
      | none => exact (Except.ok.inj hs).symm
      | some bytes => cases hs
    subst hvalue
    exact ⟨false, cloneSet_spec hto hset⟩

/-- An atom of two functions comes out as a string without a value. -/
theorem cloneString_func (hto : Wf toPort) {t : AtomType} (ht : t = .string ∨ t = .utf8string)
    {set_func get_func : UInt64} {softlink : Bool}
    (h : cloneString toPort asKey ⟨t, [.func set_func get_func], softlink⟩ = .ok (0, q)) :
    ¬ HoldsAtoms q asKey ⟨t, [.func set_func get_func], softlink⟩ := by
  rintro ⟨softlink', hholds⟩
  have hnone : cloneString toPort asKey ⟨t, [.func set_func get_func], softlink⟩ = .ok (0, q) →
      ∃ value : t.Elem, stored q (hashKeyCode asKey) = some (.storage (storagePutAtomValue t [value])) := by
    intro h
    rcases ht with rfl | rfl <;> exact ⟨_, cloneSet_spec hto h⟩
  obtain ⟨value, hvalue⟩ := hnone h
  rw [hvalue] at hholds
  cases hholds

theorem cloneString_many (hlen : st.elements.length ≠ 1) (h : cloneString toPort asKey st = .ok (0, q)) :
    q = toPort := by
  rw [cloneString, if_neg hlen] at h
  exact (Prod.mk.inj (Except.ok.inj h)).2.symm

/-- The branch for strings. -/
theorem cloneString_iff (hto : Wf toPort) (ht : st.atomType = .string ∨ st.atomType = .utf8string)
    (h : cloneString toPort asKey st = .ok (0, q)) :
    HoldsAtoms q asKey st ↔ (∃ value : st.atomType.Elem, st.elements = [.data value]) ∨
      st.elements.length ≠ 1 ∧ HoldsAtoms toPort asKey st := by
  obtain ⟨t, elements, softlink⟩ := st
  dsimp only at ht ⊢
  by_cases hlen : elements.length = 1
  · simp only [hlen, ne_eq, not_true_eq_false, false_and, or_false]
    obtain ⟨atom, rfl⟩ := List.length_eq_one_iff.mp hlen
    cases atom with
    | data value => exact iff_of_true (cloneString_spec hto ht h) ⟨value, rfl⟩
    | func set_func get_func =>
      refine iff_of_false (cloneString_func hto ht h) ?_
      rintro ⟨value, hvalue⟩
      cases hvalue
  · obtain rfl := cloneString_many hlen h
    refine ⟨fun hq => Or.inr ⟨hlen, hq⟩, fun hq => hq.elim (fun hvalue => ?_) And.right⟩
    obtain ⟨value, hvalue⟩ := hvalue
    exact absurd (hvalue ▸ rfl) hlen

/-- **Cloning a property.**  Where `vevo_property_clone` returns no error, the target holds under the new name as many
elements of the same type with the same values as the source, exactly if the branch copies them, or skips them and the
target held them before. -/
theorem vevoPropertyClone_iff (hto : Wf toPort) (h : vevoPropertyClone p toPort key asKey = .ok (0, q)) :
    Cloned p key q asKey ↔
      ∃ st, findProperty p key = .ok (some st) ∧ (Copies st ∨ Skips st ∧ HoldsAtoms toPort asKey st) := by
  obtain ⟨found, hfind, hrest⟩ := bind_eq_ok.mp h
  cases found with
  | none => cases hrest
  | some st =>
    have hcloned : Cloned p key q asKey ↔ HoldsAtoms q asKey st :=
      ⟨fun ⟨st', hst', hq⟩ => Option.some.inj (Except.ok.inj (hfind.symm.trans hst')) ▸ hq, fun hq => ⟨st, hfind, hq⟩⟩
    have hfound : (∃ st, findProperty p key = .ok (some st) ∧ (Copies st ∨ Skips st ∧ HoldsAtoms toPort asKey st)) ↔
        (Copies st ∨ Skips st ∧ HoldsAtoms toPort asKey st) :=
      ⟨fun ⟨st', hst', hq⟩ => Option.some.inj (Except.ok.inj (hfind.symm.trans hst')) ▸ hq, fun hq => ⟨st, hfind, hq⟩⟩
    rw [hcloned, hfound]
    dsimp only at hrest
    by_cases hnil : st.elements = []
    · rw [if_pos hnil] at hrest
      cases hrest
    · rw [if_neg hnil] at hrest
      obtain ⟨t, ht⟩ : ∃ t, st.atomType = t := ⟨_, rfl⟩
      cases t with
      | int | bool | double | uint64 =>
        simp only [ht] at hrest
        exact iff_of_true (cloneNumbers_spec hto hfind hrest) (Or.inl (by simp only [Copies, ht]))
      | string =>
        simp only [ht] at hrest
        simpa only [Copies, Skips, ht] using cloneString_iff hto (Or.inl ht) hrest
      | utf8string =>
        simp only [ht] at hrest
        simpa only [Copies, Skips, ht] using cloneString_iff hto (Or.inr ht) hrest
      | funcptr | hidden | voidptr | portptr =>
        simp only [ht] at hrest
        obtain rfl := (Prod.mk.inj (Except.ok.inj hrest)).2
        simp only [Copies, Skips, ht, false_or, true_and]

theorem wf_onePort (key : CStr) (t : AtomType) (src : List t.Elem) : Wf (onePort key t src) :=
  ⟨List.nodup_singleton _, fun t ht => by cases ht⟩

/-- A number under the name `a`, cloned to a port with a number under the name `b`. -/
theorem cloned_number : ∃ q, vevoPropertyClone (onePort [97] .int [-5]) (onePort [98] .int [7]) [97] [97] = .ok (0, q) ∧
    (Cloned (onePort [97] .int [-5]) [97] q [97] ↔ ∃ st, findProperty (onePort [97] .int [-5]) [97] = .ok (some st) ∧
      (Copies st ∨ Skips st ∧ HoldsAtoms (onePort [98] .int [7]) [97] st)) :=
  ⟨_, rfl, vevoPropertyClone_iff (wf_onePort _ _ _) rfl⟩

/-- Two strings: nothing is copied, and no error is returned. -/
theorem not_cloned_strings :
    ¬ ∀ (p toPort q : Port) (key asKey : CStr), Wf toPort → vevoPropertyClone p toPort key asKey = .ok (0, q) →
      Cloned p key q asKey := by
  intro h
  obtain ⟨st, -, softlink, hstored⟩ := h (onePort [97] .string [some [120], some [121]]) (onePort [98] .int [7])
    (onePort [98] .int [7]) [97] [97] (wf_onePort _ _ _) rfl
  cases hstored

end Veejay.Vevo
