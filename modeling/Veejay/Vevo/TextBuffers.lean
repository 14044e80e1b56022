import Veejay.Vevo.TextRoundTrip

/-!
# The buffers in which ports are written

`vevo_sprintf_property` puts a property together in 1024 bytes and each of its elements in 1024 bytes of their own;
the text of a port behind a port pointer is one element.  `vevo_sprintf_property_value` has 512 bytes.

* `vevoSprintfPropertyValue` — the second writer;
* `sprintfPropertyIn`, `sprintfPortIn` — the first one, with the ports that port pointers lead to;
* `Outcome` — a writer overflows, stops at another fault, or returns a text of known length;
* `atomWidth`, `elementWidth`, `propertyWidth` — the lengths of the texts, from the contents of a port;
* `ValueFits`, `OwnFits`, `FitsAt` — the conditions under which the buffers are large enough;
* `inBuffers_iff` — **the three writers stay in their buffers exactly under these conditions**;
* `not_inBuffers` — a string that is too long.
-/

namespace Veejay.Vevo

open CLib

/-! ## The writers -/

/-- `strcat`, to a string in a buffer of `size` bytes -/
def strcat (size : ℕ) (buf s : CStr) : Exec CStr :=
  if buf.length + s.length < size then .ok (buf ++ s) else .error .outOfBounds

/-- The size of `tmp` in `vevo_sprintf_property_value`. -/
def valueMaxLen : ℕ := 512

/-- `val`: the value between apostrophes, cut to 63 bytes. -/
def valueText (lib : TextLib) (t : AtomType) (data : Option Data) : CStr :=
  (39 :: printData lib t data ++ [39]).take 63

/-- The loops of `vevo_sprintf_property_value` over the elements. -/
def valueLoop (lib : TextLib) (st : Storage) : ℕ → ℕ → CStr → Exec (Option CStr)
  | 0, _, tmp => .ok (some tmp)
  | n + 1, i, tmp =>
    match atomGetValue st i true with
    | (.noError, data) => do
      let tmp ← strcat valueMaxLen tmp (valueText lib st.atomType data)
      let tmp ← strcat valueMaxLen tmp [32]
      valueLoop lib st n (i + 1) tmp
    | _ => .ok none

/-- The branch of `vevo_sprintf_property_value` for strings: the first element. -/
def stringValue (st : Storage) : Exec (Option CStr) := do
  let s ← getStr st
  match s with
  | none => .ok (some [])
  | some s => do
    let tmp ← strcat valueMaxLen [] s
    let tmp ← strcat valueMaxLen tmp [32]
    .ok (some tmp)

/-- `vevo_sprintf_property_value` -/
def vevoSprintfPropertyValue (lib : TextLib) (p : Port) (key : CStr) : Exec (Option CStr) := do
  let st ← findProperty p key
  match st with
  | none => .ok (some (lit "<empty>"))
  | some st =>
    if st.elements = [] then .ok (some (lit "<empty>"))
    else match st.atomType with
      | .int | .bool | .double | .uint64 => valueLoop lib st st.elements.length 0 []
      | .string | .utf8string => stringValue st
      | _ => .ok none

/-- The ports that port pointers lead to. -/
abbrev Heap := UInt64 → Option Port

/-- The port pointer that `vevo_sprintf_property` reads. -/
def portBehind (st : Storage) : Option UInt64 :=
  match (atomGetValue st 0 true).2 with
  | some ⟨.portptr, v⟩ => some v
  | _ => none

/-- The loop of `vevo_sprintf_port`. -/
def writeKeys (write : CStr → Exec (Option CStr)) : List CStr → Exec (List CStr)
  | [] => .ok []
  | key :: keys => do
    let buf ← write key
    let rest ← writeKeys write keys
    .ok (buf.toList ++ rest)

/-- `vevo_sprintf_port`, with a writer of properties. -/
def writePort (write : CStr → Exec (Option CStr)) (p : Port) : Exec (Option (List CStr)) :=
  if vevoNumProperties p = 0 then .ok none
  else do
    let res ← writeKeys write (listing p)
    .ok (some res)

/-- The call of `vevo_sprintf_port` in `vevo_sprintf_property`. -/
def writeBehind (heap : Heap) (write : Port → Exec (Option (List CStr))) (st : Option Storage) :
    Exec (Option (List CStr)) :=
  match st.bind portBehind with
  | none => .ok none
  | some v =>
    match heap v with
    | none => .error .wildPointer
    | some q => write q

/-- `vevo_sprintf_property` in a heap of ports, to a depth. -/
def sprintfPropertyIn (heap : Heap) (lib : TextLib) : ℕ → Port → CStr → Exec (Option CStr)
  | 0, _, _ => .error .outOfFuel
  | depth + 1, p, key => do
    let st ← findProperty p key
    let texts ← writeBehind heap (fun q => writePort (sprintfPropertyIn heap lib depth q) q) st
    vevoSprintfProperty { lib with portText := fun _ => texts } p key

/-- `vevo_sprintf_port` in a heap of ports, to a depth. -/
def sprintfPortIn (heap : Heap) (lib : TextLib) (depth : ℕ) (p : Port) : Exec (Option (List CStr)) :=
  writePort (sprintfPropertyIn heap lib depth p) p

/-! ## What the writers need -/

/-- What one element adds to the 512 bytes: the value, two apostrophes and a blank. -/
def atomWidth (lib : TextLib) {t : AtomType} (atom : Atom t) : ℕ :=
  min ((printData lib t (atom.copyOut true)).length + 2) 63 + 1

/-- The first element as a string. -/
def firstString (st : Storage) : CStr :=
  match (atomGetValue st 0 true).2 with
  | some ⟨.string, some s⟩ => s
  | _ => []

/-- A UTF-8 string is copied over the pointer to its copy (`getStr`): what follows is not written. -/
def readsWild (st : Storage) : Bool :=
  st.atomType == .utf8string && (st.elements.head?.map Atom.size).getD 0 != 0

/-- **Enough room for a value.** -/
def ValueFits (lib : TextLib) (st : Storage) : Prop :=
  match st.atomType with
  | .int | .bool | .double | .uint64 => (st.elements.map (atomWidth lib)).sum < valueMaxLen
  | .string => (firstString st).length + 1 < valueMaxLen
  | _ => True

/-- The variable that the elements are read into, before the element `i`. -/
def copiedBefore (st : Storage) (i : ℕ) : Option Data :=
  (st.elements.take i).foldl (fun copied atom => atom.copyOut true <|> copied) none

/-- The length of an element's text; `nested` is that of the port behind a port pointer. -/
def elementWidth (lib : TextLib) (key : CStr) (st : Storage) (nested : Option ℕ) (i : ℕ) : ℕ :=
  match st.atomType with
  | .string | .utf8string => min (firstString st).length 250 + 3
  | .voidptr => 0
  | .portptr => if i = 0 then (nested.map fun w => key.length + w + 3).getD 0 else 0
  | t => if st.elements = [] then 1 else (printData lib t (copiedBefore st (i + 1))).length + 1

/-- The length of the texts of the first `k` elements. -/
def prefixWidth (lib : TextLib) (key : CStr) (st : Storage) (nested : Option ℕ) (k : ℕ) : ℕ :=
  ((List.range k).map (elementWidth lib key st nested)).sum

/-- The length of the name and the equals sign, as `snprintf` cuts them. -/
def nameWidth (key : CStr) : ℕ := min (key.length + 1) (propMaxLen - 1)

/-- The length of a property's text; where the elements alone do not fit, there is none. -/
def propertyWidth (lib : TextLib) (key : CStr) (st : Storage) (nested : Option ℕ) : ℕ :=
  let elements := prefixWidth lib key st nested (formatLen (some st))
  if elements < propMaxLen then nameWidth key + elements else 0

/-- **Enough room for a property**: for the name and every number of elements that are appended (`size` counts the
elements only), and in the buffer of an element for the text of the port behind it, with `[`, the name and `]:`. -/
def OwnFits (lib : TextLib) (key : CStr) (st : Storage) (nested : Option ℕ) : Prop :=
  (st.atomType = .portptr → ∀ w, nested = some w → key.length + w + 4 ≤ 1024) ∧
    ∀ k ≤ formatLen (some st), prefixWidth lib key st nested k < propMaxLen →
      nameWidth key + prefixWidth lib key st nested k < propMaxLen

section Recursion

variable (width : CStr → Option ℕ) (fits : CStr → Prop)

/-- The length of the texts of some names; none where a property cannot be read. -/
def sumWidths : List CStr → Option ℕ
  | [] => some 0
  | key :: keys => (width key).bind fun w => (sumWidths keys).map (w + ·)

/-- The properties are written one after the other, to the first that cannot be read. -/
def KeysFit : List CStr → Prop
  | [] => True
  | key :: keys => fits key ∧ ((width key).isSome → KeysFit keys)

/-- The length of the text of a port, for one that has properties. -/
def portWidth (p : Port) : Option (Option ℕ) :=
  if vevoNumProperties p = 0 then some none else (sumWidths width (listing p)).map some

def PortFits (p : Port) : Prop := vevoNumProperties p ≠ 0 → KeysFit width fits (listing p)

end Recursion

/-- The length of the text of the port behind a port pointer. -/
def widthBehind (heap : Heap) (width : Port → Option (Option ℕ)) (st : Option Storage) : Option (Option ℕ) :=
  match st.bind portBehind with
  | none => some none
  | some v => (heap v).bind width

def FitsBehind (heap : Heap) (fits : Port → Prop) (st : Option Storage) : Prop :=
  ∀ v q, st.bind portBehind = some v → heap v = some q → fits q

/-- The length of a property's text in a heap of ports. -/
def widthAt (heap : Heap) (lib : TextLib) : ℕ → Port → CStr → Option ℕ
  | 0, _, _ => none
  | depth + 1, p, key =>
    match findProperty p key with
    | .error _ => none
    | .ok none => some 0
    | .ok (some st) =>
      (widthBehind heap (fun q => portWidth (widthAt heap lib depth q) q) (some st)).bind fun nested =>
        if readsWild st then none else some (propertyWidth lib key st nested)

/-- **Enough room for a property in a heap of ports**: for all properties behind it, and for itself. -/
def FitsAt (heap : Heap) (lib : TextLib) : ℕ → Port → CStr → Prop
  | 0, _, _ => True
  | depth + 1, p, key => ∀ st, findProperty p key = .ok (some st) →
      FitsBehind heap (fun q => PortFits (widthAt heap lib depth q) (FitsAt heap lib depth q) q) (some st) ∧
        (readsWild st = false → ∀ nested,
          widthBehind heap (fun q => portWidth (widthAt heap lib depth q) q) (some st) = some nested →
            OwnFits lib key st nested)

/-! ## What a writer can come to -/

/-- No buffer is exceeded: what the writer comes to, if it comes to anything, is not a write outside. -/
def InBuffers {α : Type} (x : Exec α) : Prop := x ≠ .error .outOfBounds

/-- **What a writer comes to.**  It exceeds a buffer exactly if its text does not fit; else it returns a text of the
given length, or stops at another fault where there is none. -/
structure Outcome {α β : Type} (length : α → β) (fits : Prop) (width : Option β) (x : Exec α) : Prop where
  overflows : ¬ fits → x = .error .outOfBounds
  returns : fits → ∀ w, width = some w → ∃ r, x = .ok r ∧ length r = w
  stops : fits → width = none → ∃ f, x = .error f ∧ f ≠ .outOfBounds

theorem Outcome.staysIn_iff {α β : Type} {length : α → β} {fits : Prop} {width : Option β} {x : Exec α}
    (h : Outcome length fits width x) : InBuffers x ↔ fits := by
  refine ⟨fun hx => by_contra fun hfits => hx (h.overflows hfits), fun hfits hx => ?_⟩
  cases width with
  | none =>
    obtain ⟨f, hf, hne⟩ := h.stops hfits rfl
    rw [hf] at hx
    exact hne (Except.error.inj hx)
  | some w =>
    obtain ⟨r, hr, -⟩ := h.returns hfits w rfl
    rw [hr] at hx
    cases hx

/-- A text of known length. -/
theorem Outcome.ok {α β : Type} (length : α → β) (r : α) : Outcome length True (some (length r)) (.ok r) where
  overflows := fun h => absurd trivial h
  returns := fun _ w hw => ⟨r, rfl, Option.some.inj hw⟩
  stops := fun _ h => by cases h

/-- A fault that is not a write. -/
theorem Outcome.error {α β : Type} (length : α → β) {f : Fault} (hf : f ≠ .outOfBounds) :
    Outcome length True none (.error f : Exec α) where
  overflows := fun h => absurd trivial h
  returns := fun _ w hw => by cases hw
  stops := fun _ _ => ⟨f, rfl, hf⟩

/-- **Two writers, one after the other.**  The second one starts where the first one returns. -/
theorem Outcome.bind {α β γ δ : Type} {length : α → β} {length' : γ → δ} {fits : Prop} {width : Option β} {x : Exec α}
    (hx : Outcome length fits width x) {k : α → Exec γ} (fits' : β → Prop) (width' : β → Option δ)
    (hk : ∀ r, fits → width = some (length r) → Outcome length' (fits' (length r)) (width' (length r)) (k r)) :
    Outcome length' (fits ∧ ∀ w, width = some w → fits' w) (width.bind width') (x >>= k) where
  overflows := by
    intro h
    by_cases hfits : fits
    · cases width with
      | none => exact absurd ⟨hfits, fun w hw => by cases hw⟩ h
      | some w =>
        obtain ⟨r, rfl, rfl⟩ := hx.returns hfits w rfl
        exact (hk r hfits rfl).overflows fun hfits' => h ⟨hfits, fun w hw => Option.some.inj hw ▸ hfits'⟩
    · rw [hx.overflows hfits, error_bind]
  returns := by
    rintro ⟨hfits, hfits'⟩ w hw
    obtain ⟨w₁, rfl, hw₁⟩ := Option.bind_eq_some_iff.mp hw
    obtain ⟨r, rfl, rfl⟩ := hx.returns hfits w₁ rfl
    exact (hk r hfits rfl).returns (hfits' _ rfl) w hw₁
  stops := by
    rintro ⟨hfits, hfits'⟩ hw
    cases width with
    | none =>
      obtain ⟨f, rfl, hf⟩ := hx.stops hfits rfl
      exact ⟨f, rfl, hf⟩
    | some w =>
      obtain ⟨r, rfl, rfl⟩ := hx.returns hfits w rfl
      exact (hk r hfits rfl).stops (hfits' _ rfl) hw

/-- A writer under an equivalent condition, with the same length. -/
theorem Outcome.congr {α β : Type} {length : α → β} {fits fits' : Prop} {width width' : Option β} {x : Exec α}
    (h : Outcome length fits width x) (hfits : fits ↔ fits') (hwidth : width = width') :
    Outcome length fits' width' x := by
  obtain rfl := hwidth
  rw [propext hfits] at h
  exact h

/-! ## The writer of values -/

theorem strcat_outcome (size : ℕ) (buf s : CStr) :
    Outcome List.length (buf.length + s.length < size) (some (buf.length + s.length)) (strcat size buf s) where
  overflows := fun h => if_neg h
  returns := fun h w hw => ⟨buf ++ s, if_pos h, by rw [List.length_append, Option.some.inj hw]⟩
  stops := fun _ h => by cases h

theorem length_valueText (lib : TextLib) (t : AtomType) (data : Option Data) :
    (valueText lib t data).length + 1 = min ((printData lib t data).length + 2) 63 + 1 := by
  simp only [valueText, List.length_take, List.length_cons, List.length_append, List.length_nil]
  omega

theorem atomGetValue_getElem {st : Storage} {i : ℕ} {atom : Atom st.atomType} (h : st.elements[i]? = some atom) :
    atomGetValue st i true = (.noError, atom.copyOut true) := by
  have hne : ¬ (st.elements.length = 0 ∧ (i : ℤ) = 0) := by
    have hlt := (List.getElem?_eq_some_iff.mp h).1
    omega
  rw [atomGetValue, if_neg hne, Storage.atomAt, if_pos (Int.natCast_nonneg i), Int.toNat_natCast, h]

/-- **The loop over the elements.** -/
theorem valueLoop_outcome (lib : TextLib) (st : Storage) :
    ∀ (n i : ℕ) (tmp : CStr), i + n = st.elements.length → tmp.length < valueMaxLen →
      Outcome (fun _ => ()) (tmp.length + ((st.elements.drop i).map (atomWidth lib)).sum < valueMaxLen) (some ())
        (valueLoop lib st n i tmp) := by
  intro n
  induction n with
  | zero =>
    intro i tmp hi htmp
    rw [List.drop_of_length_le (by omega), List.map_nil, List.sum_nil]
    exact (Outcome.ok (fun _ => ()) (some tmp)).congr (by simpa using htmp) rfl
  | succ n ih =>
    intro i tmp hi htmp
    have hlt : i < st.elements.length := by omega
    obtain ⟨atom, hget, hdrop⟩ : ∃ atom, st.elements[i]? = some atom ∧
        st.elements.drop i = atom :: st.elements.drop (i + 1) :=
      ⟨_, List.getElem?_eq_getElem hlt, List.drop_eq_getElem_cons hlt⟩
    let rest := ((st.elements.drop (i + 1)).map (atomWidth lib)).sum
    have hrest : ∀ r : CStr, Outcome (fun _ => ())
        (r.length + 1 < valueMaxLen ∧ ∀ w, some (r.length + 1) = some w → w + rest < valueMaxLen) (some ())
        (strcat valueMaxLen r [32] >>= fun r => valueLoop lib st n (i + 1) r) :=
      fun r => (strcat_outcome valueMaxLen r [32]).bind _ (fun _ => some ()) fun r' hfits hr' =>
        ih (i + 1) r' (by omega) (Option.some.inj hr' ▸ hfits)
    have hboth := (strcat_outcome valueMaxLen tmp (valueText lib st.atomType (atom.copyOut true))).bind
      (fun w => w + 1 < valueMaxLen ∧ ∀ w', some (w + 1) = some w' → w' + rest < valueMaxLen) (fun _ => some ())
      fun r _ _ => hrest r
    have hwidth := length_valueText lib st.atomType (atom.copyOut true)
    rw [valueLoop, atomGetValue_getElem hget, hdrop, List.map_cons, List.sum_cons, atomWidth, ← hwidth]
    refine hboth.congr ⟨fun h => ?_, fun h => ?_⟩ rfl
    · have hlast := (h.2 _ rfl).2 _ rfl
      omega
    · refine ⟨by omega, fun w hw => ?_⟩
      obtain rfl := Option.some.inj hw
      refine ⟨by omega, fun w hw => ?_⟩
      obtain rfl := Option.some.inj hw
      omega

/-- The size of the first element. -/
theorem elementSize_zero (st : Storage) : elementSize st 0 = .ok ((st.elements.head?.map Atom.size).getD 0) := by
  rcases hst : st.elements with _ | ⟨atom, _ | ⟨atom', rest⟩⟩
  · simp only [elementSize, hst]
    rfl
  · simp only [elementSize, hst]
    rfl
  · have hat : st.atomAt 0 = some atom := by
      rw [Storage.atomAt, if_pos le_rfl, hst]
      rfl
    simp only [elementSize, hst, hat]
    rfl

/-- The first element as it is copied out. -/
theorem atomGetValue_zero (st : Storage) :
    (atomGetValue st 0 true).2 = st.elements.head?.bind (Atom.copyOut true) := by
  rcases hst : st.elements with _ | ⟨atom, rest⟩
  · rw [atomGetValue, if_pos ⟨by rw [hst]; rfl, rfl⟩]
    rfl
  · have hget : st.elements[0]? = some atom := by rw [hst]; rfl
    exact congrArg Prod.snd (atomGetValue_getElem hget)

/-- A string is copied with its length. -/
theorem getStr_string {st : Storage} (ht : st.atomType = .string) :
    ∃ s, getStr st = .ok s ∧ s.getD [] = firstString st := by
  obtain ⟨t, elements, softlink⟩ := st
  obtain rfl : t = .string := ht
  rw [getStr, elementSize_zero, ok_bind, firstString, atomGetValue_zero]
  rcases elements with _ | ⟨atom, rest⟩
  · exact ⟨none, rfl, rfl⟩
  · cases atom with
    | func set_func get_func => exact ⟨none, rfl, rfl⟩
    | data value =>
      cases value with
      | none => exact ⟨none, rfl, rfl⟩
      | some s => exact ⟨some s, rfl, rfl⟩

/-- A UTF-8 string is copied over the pointer to its copy. -/
theorem getStr_utf8string {st : Storage} (ht : st.atomType = .utf8string) :
    getStr st = if readsWild st then .error .wildPointer else .ok none := by
  obtain ⟨t, elements, softlink⟩ := st
  obtain rfl : t = .utf8string := ht
  rw [getStr, elementSize_zero, ok_bind, atomGetValue_zero]
  rcases elements with _ | ⟨atom, rest⟩
  · rfl
  · cases atom with
    | func set_func get_func => rfl
    | data value =>
      cases value with
      | none => rfl
      | some s => rfl

/-- A value is copied out with the type of its storage. -/
theorem firstValue_type {st : Storage} {d : Data} (h : (atomGetValue st 0 true).2 = some d) : d.1 = st.atomType := by
  rw [atomGetValue_zero] at h
  obtain ⟨atom, -, hatom⟩ := Option.bind_eq_some_iff.mp h
  unfold Atom.copyOut at hatom
  by_cases hsize : atom.size = 0 ∨ true = false ∨ st.atomType = .funcptr
  · rw [if_pos hsize] at hatom
    cases hatom
  · rw [if_neg hsize] at hatom
    cases atom with
    | data value =>
      obtain rfl := Option.some.inj hatom
      rfl
    | func set_func get_func => cases hatom

theorem firstString_of_ne {st : Storage} (ht : st.atomType ≠ .string) : firstString st = [] := by
  rw [firstString]
  split
  · rename_i s hs
    exact absurd (firstValue_type hs).symm ht
  · rfl

theorem readsWild_of_ne {st : Storage} (ht : st.atomType ≠ .utf8string) : readsWild st = false := by
  simp only [readsWild, Bool.and_eq_false_imp, beq_iff_eq]
  exact fun h => absurd h ht

theorem stringValue_inBuffers {st : Storage} (ht : st.atomType = .string) :
    InBuffers (stringValue st) ↔ (firstString st).length + 1 < valueMaxLen := by
  obtain ⟨s, hs, hfirst⟩ := getStr_string ht
  rw [stringValue, hs, ok_bind, ← hfirst]
  cases s with
  | none => exact iff_of_true (fun h => by cases h) (by decide)
  | some s =>
    have hlast : ∀ r : CStr, Outcome (fun _ => ())
        (r.length + 1 < valueMaxLen ∧ ∀ w, some (r.length + 1) = some w → True) (some ())
        (strcat valueMaxLen r [32] >>= fun tmp => .ok (some tmp)) :=
      fun r => (strcat_outcome valueMaxLen r [32]).bind (fun _ => True) (fun _ => some ()) fun tmp _ _ =>
        Outcome.ok (fun _ => ()) (some tmp)
    have hboth := (strcat_outcome valueMaxLen [] s).bind
      (fun w => w + 1 < valueMaxLen ∧ ∀ w', some (w + 1) = some w' → True) (fun _ => some ()) fun r _ _ => hlast r
    refine hboth.staysIn_iff.trans ⟨fun h => ?_, fun h => ?_⟩
    · simpa using (h.2 _ rfl).1
    · simp only [Option.getD_some] at h
      refine ⟨by simpa using by omega, fun w hw => ⟨?_, fun _ _ => trivial⟩⟩
      obtain rfl := Option.some.inj hw
      simpa using h

theorem findProperty_error {p : Port} {key : CStr} {f : Fault} (h : findProperty p key = .error f) :
    f ≠ .outOfBounds := by
  intro hf
  rw [hf, findProperty] at h
  split at h
  · cases h
  · rename_i slot hslot
    cases slot with
    | storage st => cases h
    | word w =>
      rw [Slot.storage?] at h
      split_ifs at h
      cases h

/-- **The writer of values.** -/
theorem vevoSprintfPropertyValue_inBuffers (lib : TextLib) (p : Port) (key : CStr) :
    InBuffers (vevoSprintfPropertyValue lib p key) ↔
      ∀ st, findProperty p key = .ok (some st) → st.elements ≠ [] → ValueFits lib st := by
  rw [vevoSprintfPropertyValue]
  rcases hfind : findProperty p key with f | _ | st
  · refine iff_of_true (fun h => ?_) fun st hst => by cases hst
    exact findProperty_error hfind (Except.error.inj h)
  · exact iff_of_true (fun h => by cases h) fun st hst => by cases hst
  · have hiff : (∀ st', (.ok (some st) : Exec (Option Storage)) = .ok (some st') → st'.elements ≠ [] →
        ValueFits lib st') ↔ (st.elements ≠ [] → ValueFits lib st) :=
      ⟨fun h => h st rfl, fun h st' hst' => Option.some.inj (Except.ok.inj hst') ▸ h⟩
    rw [hiff, ok_bind]
    dsimp only
    by_cases hnil : st.elements = []
    · rw [if_pos hnil]
      exact iff_of_true (fun h => by cases h) fun hne => absurd hnil hne
    · rw [if_neg hnil]
      simp only [ne_eq, hnil, not_false_eq_true, forall_const]
      have hloop := (valueLoop_outcome lib st st.elements.length 0 [] (Nat.zero_add _) (by decide)).staysIn_iff
      simp only [List.length_nil, List.drop_zero, Nat.zero_add] at hloop
      obtain ⟨t, ht⟩ : ∃ t, st.atomType = t := ⟨_, rfl⟩
      cases t with
      | int | bool | double | uint64 => simpa only [ValueFits, ht] using hloop
      | string => simpa only [ValueFits, ht] using stringValue_inBuffers ht
      | utf8string =>
        simp only [ValueFits, ht, iff_true, stringValue, getStr_utf8string ht]
        cases readsWild st <;> exact fun h => by cases h
      | funcptr | hidden | voidptr | portptr =>
        simp only [ValueFits, ht, iff_true]
        exact fun h => by cases h

/-! ## The writer of properties -/

/-- The bytes of a text, where there is one. -/
def textLength (text : Option CStr) : ℕ := (text.getD []).length

/-- The bytes of the text of a port, where there is one. -/
def textsLength (texts : Option (List CStr)) : Option ℕ := texts.map fun texts => texts.flatten.length

/-- The elements that are printed with a conversion of `sprintf`. -/
def AtomType.Printed (t : AtomType) : Prop := t ≠ .string ∧ t ≠ .utf8string ∧ t ≠ .voidptr ∧ t ≠ .portptr

/-- The variable before the element `i`. -/
def CarriedAt (st : Storage) (i : ℕ) (carried : Option Data) : Prop :=
  st.atomType.Printed → carried = copiedBefore st i

theorem copiedBefore_succ {st : Storage} {i : ℕ} {atom : Atom st.atomType} (h : st.elements[i]? = some atom) :
    copiedBefore st (i + 1) = (atom.copyOut true <|> copiedBefore st i) := by
  rw [copiedBefore, List.take_add_one, h, Option.toList_some, List.foldl_append]
  rfl

theorem prefixWidth_succ (lib : TextLib) (key : CStr) (st : Storage) (nested : Option ℕ) (k : ℕ) :
    prefixWidth lib key st nested (k + 1) = prefixWidth lib key st nested k + elementWidth lib key st nested k := by
  simp only [prefixWidth, List.range_succ, List.map_append, List.sum_append, List.map_cons, List.map_nil,
    List.sum_singleton]

theorem prefixWidth_mono (lib : TextLib) (key : CStr) (st : Storage) (nested : Option ℕ) :
    Monotone (prefixWidth lib key st nested) := by
  refine monotone_nat_of_le_succ fun k => ?_
  rw [prefixWidth_succ]
  exact Nat.le_add_right _ _

theorem formatLen_pos (st : Option Storage) : 0 < formatLen st := lt_of_lt_of_le Nat.one_pos (le_max_left _ _)

section Elements

variable {lib : TextLib} {key : CStr} {st : Storage} {texts : Option (List CStr)}

/-- One printed element. -/
theorem elementText_printed (ht : st.atomType.Printed) {i : ℕ} (hi : i < formatLen (some st)) :
    ∃ tmp carried, elementText { lib with portText := fun _ => texts } key st i (copiedBefore st i) =
        .ok (some (tmp, carried)) ∧
      tmp.length = elementWidth lib key st (textsLength texts) i ∧ carried = copiedBefore st (i + 1) := by
  have htext : (∀ data, atomGetValue st i true = (.noError, data) →
        elementText { lib with portText := fun _ => texts } key st i (copiedBefore st i) =
          .ok (some (printData lib st.atomType (data <|> copiedBefore st i) ++ [colon], data <|> copiedBefore st i))) ∧
      ∀ data, atomGetValue st i true = (.propertyEmpty, data) →
        elementText { lib with portText := fun _ => texts } key st i (copiedBefore st i) =
          .ok (some ([colon], copiedBefore st i)) := by
    obtain ⟨t, htype⟩ : ∃ t, st.atomType = t := ⟨_, rfl⟩
    cases t with
    | string => exact absurd htype ht.1
    | utf8string => exact absurd htype ht.2.1
    | voidptr => exact absurd htype ht.2.2.1
    | portptr => exact absurd htype ht.2.2.2
    | _ =>
      constructor
      · intro data hdata
        simp only [elementText, htype, hdata]
        rfl
      · intro data hdata
        simp only [elementText, htype, hdata]
  have hwidth : elementWidth lib key st (textsLength texts) i =
      if st.elements = [] then 1 else (printData lib st.atomType (copiedBefore st (i + 1))).length + 1 := by
    obtain ⟨t, htype⟩ : ∃ t, st.atomType = t := ⟨_, rfl⟩
    cases t with
    | string => exact absurd htype ht.1
    | utf8string => exact absurd htype ht.2.1
    | voidptr => exact absurd htype ht.2.2.1
    | portptr => exact absurd htype ht.2.2.2
    | _ => simp only [elementWidth, htype]
  rw [hwidth]
  by_cases hnil : st.elements = []
  · have hi0 : i = 0 := by
      simp only [formatLen, hnil, Option.map_some, List.length_nil, Option.getD_some] at hi
      omega
    subst hi0
    have hempty : atomGetValue st (0 : ℕ) true = (.propertyEmpty, none) :=
      if_pos ⟨by rw [hnil]; rfl, rfl⟩
    rw [if_pos hnil]
    refine ⟨[colon], copiedBefore st 0, htext.2 none hempty, rfl, ?_⟩
    rw [copiedBefore, copiedBefore, hnil]
    rfl
  · have hlt : i < st.elements.length := by
      have hpos := List.length_pos_iff.mpr hnil
      simp only [formatLen, Option.map_some, Option.getD_some] at hi
      omega
    obtain ⟨atom, hget⟩ : ∃ atom, st.elements[i]? = some atom := ⟨_, List.getElem?_eq_getElem hlt⟩
    rw [if_neg hnil, copiedBefore_succ hget]
    exact ⟨_, _, htext.1 _ (atomGetValue_getElem hget), by rw [List.length_append]; rfl, rfl⟩

theorem quoted_length (s : Option CStr) : (quoted s).length = min (s.getD []).length 250 + 3 := by
  simp only [quoted, List.length_append, List.length_cons, List.length_nil, List.length_take]
  omega

/-- A string between quotes. -/
theorem elementText_string (ht : st.atomType = .string ∨ st.atomType = .utf8string) (hread : readsWild st = false)
    (i : ℕ) (carried : Option Data) :
    ∃ tmp, elementText { lib with portText := fun _ => texts } key st i carried = .ok (some (tmp, carried)) ∧
      tmp.length = elementWidth lib key st (textsLength texts) i := by
  rcases ht with ht | ht
  · obtain ⟨s, hs, hfirst⟩ := getStr_string ht
    refine ⟨quoted s, by simp only [elementText, ht, hs, ok_bind], ?_⟩
    simp only [elementWidth, ht, quoted_length, hfirst]
  · have hs : getStr st = .ok none := by rw [getStr_utf8string ht, hread]; rfl
    refine ⟨quoted none, by simp only [elementText, ht, hs, ok_bind], ?_⟩
    have hne : st.atomType ≠ .string := by rw [ht]; decide
    simp only [elementWidth, ht, quoted_length, firstString_of_ne hne]
    rfl

theorem portBehind_eq_some {v : UInt64} :
    portBehind st = some v ↔ (atomGetValue st 0 true).2 = some ⟨.portptr, v⟩ := by
  rw [portBehind]
  split
  · rename_i w hw
    rw [hw, Option.some_inj, Option.some_inj]
    exact ⟨fun h => h ▸ rfl, fun h => by cases h; rfl⟩
  · rename_i hne
    exact iff_of_false (fun h => by cases h) fun h => hne v h

/-- The text of the port behind a port pointer, in the buffer of the element. -/
theorem elementText_portptr (ht : st.atomType = .portptr) (hbehind : portBehind st = none → texts = none)
    (hfits : ∀ w, textsLength texts = some w → key.length + w + 4 ≤ 1024) (i : ℕ) (carried : Option Data) :
    ∃ tmp, elementText { lib with portText := fun _ => texts } key st i carried = .ok (some (tmp, carried)) ∧
      tmp.length = elementWidth lib key st (textsLength texts) i := by
  simp only [elementText, elementWidth, ht]
  by_cases hi : i = 0
  · rw [if_pos hi, if_pos hi]
    cases hv : portBehind st with
    | none =>
      have hnone : ∀ v, (atomGetValue st 0 true).2 ≠ some ⟨.portptr, v⟩ := fun v hv' => by
        rw [portBehind_eq_some.mpr hv'] at hv
        cases hv
      rw [hbehind hv]
      split
      · rename_i v hv'
        exact absurd hv' (hnone v)
      · exact ⟨[], rfl, rfl⟩
    | some v =>
      rw [portBehind_eq_some.mp hv]
      dsimp only
      cases texts with
      | none => exact ⟨[], rfl, rfl⟩
      | some texts =>
        have hroom : key.length + texts.flatten.length + 4 ≤ 1024 := hfits _ rfl
        have hlen : (91 :: key ++ texts.flatten).length + 3 ≤ 1024 := by
          simp only [List.length_append, List.length_cons]
          omega
        refine ⟨91 :: key ++ texts.flatten ++ [93, colon], if_pos hlen, ?_⟩
        simp only [textsLength, Option.map_some, Option.getD_some, List.length_append, List.length_cons,
          List.length_nil]
        omega
  · rw [if_neg hi, if_neg hi]
    exact ⟨[], rfl, rfl⟩

/-- The text of the other port does not fit the buffer of the element. -/
theorem elementText_portptr_overflow (hbehind : portBehind st = none → texts = none)
    (hfits : ¬ (st.atomType = .portptr → ∀ w, textsLength texts = some w → key.length + w + 4 ≤ 1024)) :
    elementText { lib with portText := fun _ => texts } key st (0 : ℕ) none = .error .outOfBounds := by
  rw [Classical.not_imp] at hfits
  obtain ⟨ht, hfits⟩ := hfits
  rw [not_forall] at hfits
  obtain ⟨w, hfits⟩ := hfits
  rw [Classical.not_imp] at hfits
  obtain ⟨hw, hlong⟩ := hfits
  cases texts with
  | none => cases hw
  | some texts =>
    have hw' : texts.flatten.length = w := Option.some.inj hw
    cases hv : portBehind st with
    | none => cases hbehind hv
    | some v =>
      have hroom : ¬ (91 :: key ++ texts.flatten).length + 3 ≤ 1024 := by
        simp only [List.length_append, List.length_cons]
        omega
      simp only [elementText, ht]
      rw [if_pos trivial, portBehind_eq_some.mp hv]
      exact if_neg hroom

/-- **One element**: its text has the length that is read off the port. -/
theorem elementText_spec (hbehind : portBehind st = none → texts = none) (hread : readsWild st = false)
    (hfits : st.atomType = .portptr → ∀ w, textsLength texts = some w → key.length + w + 4 ≤ 1024)
    {i : ℕ} (hi : i < formatLen (some st)) {carried : Option Data} (hcarried : CarriedAt st i carried) :
    ∃ tmp carried', elementText { lib with portText := fun _ => texts } key st i carried = .ok (some (tmp, carried')) ∧
      tmp.length = elementWidth lib key st (textsLength texts) i ∧ CarriedAt st (i + 1) carried' := by
  by_cases ht : st.atomType.Printed
  · obtain ⟨tmp, carried', htext, hlen, hcarried'⟩ := @elementText_printed lib key st texts ht i hi
    exact ⟨tmp, carried', hcarried ht ▸ htext, hlen, fun _ => hcarried'⟩
  · have hkept : ∃ tmp, elementText { lib with portText := fun _ => texts } key st i carried =
        .ok (some (tmp, carried)) ∧ tmp.length = elementWidth lib key st (textsLength texts) i := by
      simp only [AtomType.Printed, not_and_or, not_not] at ht
      rcases ht with htype | htype | htype | htype
      · exact elementText_string (Or.inl htype) hread i carried
      · exact elementText_string (Or.inr htype) hread i carried
      · refine ⟨[], ?_, ?_⟩
        · simp only [elementText, htype]
        · simp only [elementWidth, htype, List.length_nil]
      · exact elementText_portptr htype hbehind (hfits htype) i carried
    obtain ⟨tmp, htext, hlen⟩ := hkept
    exact ⟨tmp, carried, htext, hlen, fun h => absurd h ht⟩

/-- **The loop over the elements**, with the text so far and the elements that are left. -/
theorem sprintfElements_outcome (hbehind : portBehind st = none → texts = none) (hread : readsWild st = false)
    (hfits : st.atomType = .portptr → ∀ w, textsLength texts = some w → key.length + w + 4 ≤ 1024) :
    ∀ (n i : ℕ) (carried : Option Data) (res : CStr), i + n = formatLen (some st) → CarriedAt st i carried →
      prefixWidth lib key st (textsLength texts) i < propMaxLen →
      res.length = nameWidth key + prefixWidth lib key st (textsLength texts) i →
      Outcome textLength
        (∀ k, i < k → k ≤ formatLen (some st) → prefixWidth lib key st (textsLength texts) k < propMaxLen →
          nameWidth key + prefixWidth lib key st (textsLength texts) k < propMaxLen)
        (some (propertyWidth lib key st (textsLength texts)))
        (sprintfElements { lib with portText := fun _ => texts } key st n i carried
          (propMaxLen - prefixWidth lib key st (textsLength texts) i : ℤ) res) := by
  intro n
  induction n with
  | zero =>
    intro i carried res hi _ hprefix hres
    have hi' : i = formatLen (some st) := hi
    have hwidth : propertyWidth lib key st (textsLength texts) = textLength (some res) := by
      rw [propertyWidth, ← hi', if_pos hprefix, textLength, Option.getD_some, hres]
    rw [sprintfElements, hwidth]
    refine (Outcome.ok textLength (some res)).congr (iff_of_true trivial fun k hk hk' => ?_) rfl
    omega
  | succ n ih =>
    intro i carried res hi hcarried hprefix hres
    obtain ⟨tmp, carried', htext, hlen, hcarried'⟩ :=
      @elementText_spec lib key st texts hbehind hread hfits i (by omega) carried hcarried
    have hsucc := prefixWidth_succ lib key st (textsLength texts) i
    have hmono := prefixWidth_mono lib key st (textsLength texts)
    have hle : i + 1 ≤ formatLen (some st) := by omega
    have hsize : (propMaxLen : ℤ) - prefixWidth lib key st (textsLength texts) i - tmp.length =
        propMaxLen - prefixWidth lib key st (textsLength texts) (i + 1) := by
      rw [hsucc, hlen]
      push_cast
      ring
    rw [sprintfElements, htext, ok_bind]
    dsimp only
    rw [hsize]
    by_cases hnext : prefixWidth lib key st (textsLength texts) (i + 1) < propMaxLen
    · rw [if_pos (by omega)]
      by_cases hroom : nameWidth key + prefixWidth lib key st (textsLength texts) (i + 1) < propMaxLen
      · rw [if_pos (by omega)]
        refine (ih (i + 1) carried' (res ++ tmp) (by omega) hcarried' hnext ?_).congr
          ⟨fun h k hk => ?_, fun h k hk => ?_⟩ rfl
        · rw [List.length_append]
          omega
        · rcases Nat.lt_or_eq_of_le hk with hk | rfl
          · exact h k hk
          · exact fun _ _ => hroom
        · exact h k (by omega)
      · -- the text of this element is behind the end of `res`
        rw [if_neg (by omega)]
        have hover : ¬ ∀ k, i < k → k ≤ formatLen (some st) →
            prefixWidth lib key st (textsLength texts) k < propMaxLen →
            nameWidth key + prefixWidth lib key st (textsLength texts) k < propMaxLen :=
          fun h => hroom (h (i + 1) (Nat.lt_succ_self i) hle hnext)
        exact ⟨fun _ => rfl, fun h => absurd h hover, fun h => absurd h hover⟩
    · -- `size` is used up, and nothing is appended
      rw [if_neg (by omega)]
      have hlast : ¬ prefixWidth lib key st (textsLength texts) (formatLen (some st)) < propMaxLen :=
        fun h => hnext (lt_of_le_of_lt (hmono hle) h)
      have hwidth : propertyWidth lib key st (textsLength texts) = textLength none := by
        rw [propertyWidth, if_neg hlast]
        rfl
      rw [hwidth]
      refine (Outcome.ok textLength none).congr (iff_of_true trivial fun k hk _ hk' => ?_) rfl
      exact absurd (lt_of_le_of_lt (hmono hk) hk') hnext

/-- **One property**, where the text of the port behind it is given. -/
theorem property_outcome (hbehind : portBehind st = none → texts = none) :
    Outcome textLength (readsWild st = false → OwnFits lib key st (textsLength texts))
      (if readsWild st then none else some (propertyWidth lib key st (textsLength texts)))
      (sprintfElements { lib with portText := fun _ => texts } key st (formatLen (some st)) 0 none propMaxLen
        ((key ++ [equalsSign]).take (propMaxLen - 1))) := by
  obtain ⟨n, hn⟩ : ∃ n, formatLen (some st) = n + 1 := Nat.exists_eq_succ_of_ne_zero (formatLen_pos _).ne'
  cases hread : readsWild st with
  | true =>
    have ht : st.atomType = .utf8string := by
      by_contra hne
      rw [readsWild_of_ne hne] at hread
      cases hread
    have htext : elementText { lib with portText := fun _ => texts } key st 0 none = .error .wildPointer := by
      simp only [elementText, ht, getStr_utf8string ht, hread, if_true, error_bind]
    rw [hn, sprintfElements, htext, error_bind]
    exact (Outcome.error textLength (by decide)).congr (by simp) rfl
  | false =>
    simp only [forall_const]
    by_cases hfits : st.atomType = .portptr → ∀ w, textsLength texts = some w → key.length + w + 4 ≤ 1024
    · have hzero : prefixWidth lib key st (textsLength texts) 0 = 0 := rfl
      have hname : nameWidth key < propMaxLen := lt_of_le_of_lt (min_le_right _ _) (by decide)
      have hlen : ((key ++ [equalsSign]).take (propMaxLen - 1)).length =
          nameWidth key + prefixWidth lib key st (textsLength texts) 0 := by
        rw [List.length_take, List.length_append, List.length_singleton, hzero, nameWidth, Nat.min_comm,
          Nat.add_zero]
        rfl
      have hloop := @sprintfElements_outcome lib key st texts hbehind hread hfits (formatLen (some st)) 0 none _
        (Nat.zero_add _) (fun _ => rfl) (by rw [hzero]; decide) hlen
      rw [hzero, Nat.cast_zero, sub_zero] at hloop
      refine hloop.congr ⟨fun h => ⟨hfits, fun k hk hk' => ?_⟩, fun h k _ hk => h.2 k hk⟩ rfl
      rcases Nat.eq_zero_or_pos k with rfl | hpos
      · rw [hzero, Nat.add_zero]
        exact hname
      · exact h k hpos hk hk'
    · -- the text of the other port does not fit the buffer of the element
      have hover : ¬ OwnFits lib key st (textsLength texts) := fun h => hfits h.1
      refine ⟨fun _ => ?_, fun h => absurd h hover, fun h => absurd h hover⟩
      rw [hn, sprintfElements, elementText_portptr_overflow hbehind hfits, error_bind]

end Elements

/-! ## Ports behind ports -/

/-- **The properties of a port**, one after the other. -/
theorem writeKeys_outcome {write : CStr → Exec (Option CStr)} {width : CStr → Option ℕ} {fits : CStr → Prop}
    (h : ∀ key, Outcome textLength (fits key) (width key) (write key)) (keys : List CStr) :
    Outcome (fun res => res.flatten.length) (KeysFit width fits keys) (sumWidths width keys)
      (writeKeys write keys) := by
  induction keys with
  | nil => exact Outcome.ok (fun res : List CStr => res.flatten.length) []
  | cons key keys ih =>
    have hrest : ∀ buf : Option CStr, Outcome (fun res : List CStr => res.flatten.length) (KeysFit width fits keys)
        ((sumWidths width keys).map (textLength buf + ·))
        (writeKeys write keys >>= fun rest => .ok (buf.toList ++ rest)) := by
      intro buf
      refine (ih.bind (fun _ => True) (fun w => some (textLength buf + w)) fun rest _ _ => ?_).congr
        ⟨fun hfits => hfits.1, fun hfits => ⟨hfits, fun _ _ => trivial⟩⟩ ?_
      · have hlen : (buf.toList ++ rest).flatten.length = textLength buf + rest.flatten.length := by
          cases buf <;> simp [textLength]
        exact hlen ▸ Outcome.ok (fun res : List CStr => res.flatten.length) (buf.toList ++ rest)
      · cases sumWidths width keys <;> rfl
    refine ((h key).bind (fun _ => KeysFit width fits keys) (fun w => (sumWidths width keys).map (w + ·))
      fun buf _ _ => hrest buf).congr ?_ rfl
    rw [KeysFit, Option.isSome_iff_exists]
    exact ⟨fun hfits => ⟨hfits.1, fun ⟨w, hw⟩ => hfits.2 w hw⟩, fun hfits => ⟨hfits.1, fun w hw => hfits.2 ⟨w, hw⟩⟩⟩

theorem writePort_outcome {write : CStr → Exec (Option CStr)} {width : CStr → Option ℕ} {fits : CStr → Prop}
    (h : ∀ key, Outcome textLength (fits key) (width key) (write key)) (p : Port) :
    Outcome textsLength (PortFits width fits p) (portWidth width p) (writePort write p) := by
  rw [PortFits, portWidth, writePort]
  by_cases hp : vevoNumProperties p = 0
  · rw [if_pos hp, if_pos hp]
    exact (Outcome.ok textsLength none).congr (iff_of_true trivial fun hne => absurd hp hne) rfl
  · rw [if_neg hp, if_neg hp]
    refine ((writeKeys_outcome h (listing p)).bind (fun _ => True) (fun w => some (some w)) fun res _ _ =>
      Outcome.ok textsLength (some res)).congr ⟨fun hfits _ => hfits.1, fun hfits => ⟨hfits hp, fun _ _ => trivial⟩⟩ ?_
    cases sumWidths width (listing p) <;> rfl

theorem writeBehind_outcome (heap : Heap) {write : Port → Exec (Option (List CStr))} {width : Port → Option (Option ℕ)}
    {fits : Port → Prop} (h : ∀ q, Outcome textsLength (fits q) (width q) (write q)) (st : Option Storage) :
    Outcome textsLength (FitsBehind heap fits st) (widthBehind heap width st) (writeBehind heap write st) := by
  rw [widthBehind, writeBehind]
  cases hv : st.bind portBehind with
  | none =>
    refine (Outcome.ok textsLength none).congr (iff_of_true trivial fun v q hv' => ?_) rfl
    rw [hv] at hv'
    cases hv'
  | some v =>
    dsimp only
    cases hq : heap v with
    | none =>
      refine (Outcome.error textsLength (by decide)).congr (iff_of_true trivial fun v' q hv' hq' => ?_) rfl
      rw [hv] at hv'
      obtain rfl := Option.some.inj hv'
      rw [hq] at hq'
      cases hq'
    | some q =>
      refine (h q).congr ⟨fun hfits v' q' hv' hq' => ?_, fun hfits => hfits v q hv hq⟩ rfl
      rw [hv] at hv'
      obtain rfl := Option.some.inj hv'
      rw [hq] at hq'
      exact Option.some.inj hq' ▸ hfits

/-- **A property in a heap of ports**, by induction on the depth. -/
theorem sprintfPropertyIn_outcome (heap : Heap) (lib : TextLib) (depth : ℕ) :
    ∀ (p : Port) (key : CStr), Outcome textLength (FitsAt heap lib depth p key) (widthAt heap lib depth p key)
      (sprintfPropertyIn heap lib depth p key) := by
  induction depth with
  | zero => exact fun p key => Outcome.error textLength (by decide)
  | succ depth ih =>
    intro p key
    have hbehind := writeBehind_outcome heap fun q => writePort_outcome (ih q) q
    simp only [FitsAt, widthAt, sprintfPropertyIn, vevoSprintfProperty]
    rcases hfind : findProperty p key with f | _ | st
    · exact (Outcome.error textLength (findProperty_error hfind)).congr
        (iff_of_true trivial fun st hst => by cases hst) rfl
    · exact (Outcome.ok textLength none).congr (iff_of_true trivial fun st hst => by cases hst) rfl
    · simp only [ok_bind]
      refine ((hbehind (some st)).bind (fun nested => readsWild st = false → OwnFits lib key st nested)
        (fun nested => if readsWild st then none else some (propertyWidth lib key st nested))
        fun texts hfits hwidth => property_outcome fun hnone => ?_).congr ⟨fun h st' hst' => ?_, fun h => ?_⟩ rfl
      · have hnested : widthBehind heap (fun q => portWidth (widthAt heap lib depth q) q) (some st) = some none := by
          rw [widthBehind, Option.bind_some, hnone]
        rw [hnested] at hwidth
        cases texts with
        | none => rfl
        | some texts => cases Option.some.inj hwidth
      · obtain rfl := Option.some.inj (Except.ok.inj hst')
        exact ⟨h.1, fun hread nested hnested => h.2 nested hnested hread⟩
      · obtain ⟨hfits, hown⟩ := h st rfl
        exact ⟨hfits, fun nested hnested hread => hown hread nested hnested⟩

/-- **The buffers of the text writers.**  For every heap of ports, every depth of nesting, every port and every name:
`vevo_sprintf_property_value` stays in its 512 bytes exactly if the printed values (or the string) fit;
`vevo_sprintf_property` stays in its 1024 bytes, and in those of each element, exactly if the names and values fit, of
the property and of all properties of the ports behind it; and so for `vevo_sprintf_port`. -/
theorem inBuffers_iff (heap : Heap) (lib : TextLib) (depth : ℕ) (p : Port) (key : CStr) :
    (InBuffers (vevoSprintfPropertyValue lib p key) ↔
      ∀ st, findProperty p key = .ok (some st) → st.elements ≠ [] → ValueFits lib st) ∧
    (InBuffers (sprintfPropertyIn heap lib depth p key) ↔ FitsAt heap lib depth p key) ∧
    (InBuffers (sprintfPortIn heap lib depth p) ↔ PortFits (widthAt heap lib depth p) (FitsAt heap lib depth p) p) :=
  ⟨vevoSprintfPropertyValue_inBuffers lib p key, (sprintfPropertyIn_outcome heap lib depth p key).staysIn_iff,
    (writePort_outcome (sprintfPropertyIn_outcome heap lib depth p) p).staysIn_iff⟩

theorem firstString_put (s : CStr) : firstString (storagePutAtomValue .string [some s]) = s := by
  rw [firstString, atomGetValue_zero]
  rfl

/-- A port with a string of 511 bytes. -/
def longPort : Port := onePort [97] .string [some (List.replicate 511 120)]

/-- The string and the blank behind it leave no byte for the terminating zero. -/
theorem not_inBuffers :
    ¬ ∀ (heap : Heap) (lib : TextLib) (depth : ℕ) (p : Port) (key : CStr),
      InBuffers (vevoSprintfPropertyValue lib p key) ∧ InBuffers (sprintfPropertyIn heap lib depth p key) ∧
        InBuffers (sprintfPortIn heap lib depth p) := by
  intro h
  have hall := h (fun _ => none) plainLib 1 longPort [97]
  have hvalue := (vevoSprintfPropertyValue_inBuffers plainLib longPort [97]).mp hall.1
  have hfind : findProperty longPort [97] = .ok (some (storagePutAtomValue .string [some (List.replicate 511 120)])) :=
    findProperty_of_holds ((storageAt_onePort _ _ _ _).trans (if_pos rfl))
  have hfits : (firstString (storagePutAtomValue .string [some (List.replicate 511 120)])).length + 1 < valueMaxLen :=
    hvalue _ hfind (List.cons_ne_nil _ _)
  rw [firstString_put, List.length_replicate, valueMaxLen] at hfits
  omega

end Veejay.Vevo
