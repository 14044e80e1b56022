import Veejay.Vevo.Store

/-!
# Ports as text

`vevo_sprintf_port` writes a port as the strings `key=value:value:`, one for each listed name, and
`vevo_sscanf_port` sets the properties of a port from such a text.  The reader cuts the text after every
`:`, looks the name up in the port to learn the type and the number of elements it expects, and takes the
elements from the piece it was given.

* `vevoSprintfProperty`, `vevoSprintfPort` — the writer, in its buffer of 1024 bytes;
* `vevoSplitToken`, `vevoSplitTokenQ`, `vevoScanToken` — the three scanners;
* `vevoSscanfProperty`, `vevoSscanfPort` — the reader, with its buffers of 128 and 1024 bytes and its
  arrays of 64 elements.

Floating-point conversions, the ports behind port pointers and the functions behind function pointers
are parameters (`TextLib`).
-/

namespace Veejay.Vevo

open CLib

/-- What the text functions use that is outside this model. -/
structure TextLib where
  formatDouble : UInt64 → CStr
  scanDouble : CStr → ℤ × Option UInt64
  portText : UInt64 → Option (List CStr)
  callProperty : Port → CStr → CStr → Exec (ℤ × Port)

/-- `=` -/
def equalsSign : UInt8 := 61

/-- `:` -/
def colon : UInt8 := 58

/-- `"` -/
def quote : UInt8 := 34

/-- `PROPERTY_KEY_SIZE` -/
def propertyKeySize : ℕ := 128

/-- `PROP_MAX_LEN` -/
def propMaxLen : ℕ := 1024

/-- The size of `arg` in `vevo_sscanf_property`. -/
def argLen : ℕ := 1024

/-- `MAX_ELEMENTS` -/
def maxElements : ℕ := 64

/-- The storage behind the data pointer of a hash node; `NULL` is no storage. -/
def Slot.storage? : Slot → Exec (Option Storage)
  | .storage st => .ok (some st)
  | .word w => if w = 0 then .ok none else .error .wildPointer

/-- What `vevo_property_atom_type` and `vevo_property_num_elements` read, in one. -/
def findProperty (p : Port) (key : CStr) : Exec (Option Storage) :=
  match stored p (hashKeyCode key) with
  | none => .ok none
  | some slot => slot.storage?

/-- The length of what `vevo_format_property` returns: one letter for each element, and at least one. -/
def formatLen (st : Option Storage) : ℕ := max 1 ((st.map fun st => st.elements.length).getD 0)

/-! ## The writer -/

/-- The variable a value is read into, as text; it is zero until something is copied to it. -/
def printData (lib : TextLib) (t : AtomType) : Option Data → CStr
  | some ⟨.int, v⟩ => decimalInt v.toInt
  | some ⟨.bool, v⟩ => decimalInt v.toInt
  | some ⟨.uint64, v⟩ => decimalInt v.toInt64.toInt
  | some ⟨.double, v⟩ => lib.formatDouble v
  | _ => if t = .double ∨ t = .funcptr ∨ t = .hidden then lib.formatDouble 0 else decimalInt 0

/-- `vevo_property_get_str`: the first element.  A UTF-8 string is copied over the pointer itself. -/
def getStr (st : Storage) : Exec (Option CStr) := do
  let len ← elementSize st 0
  if len = 0 then .ok none
  else match (atomGetValue st 0 true).2 with
    | some ⟨.string, s⟩ => .ok s
    | some ⟨.utf8string, _⟩ => .error .wildPointer
    | _ => .ok none

/-- A string between quotes, cut to 250 bytes. -/
def quoted (s : Option CStr) : CStr := quote :: (s.getD []).take 250 ++ [quote, colon]

/-- The text of one element and the variable it was read into, or nothing after an error. -/
def elementText (lib : TextLib) (key : CStr) (st : Storage) (i : ℕ) (carried : Option Data) :
    Exec (Option (CStr × Option Data)) :=
  match st.atomType with
  | .string | .utf8string => do
    let s ← getStr st
    .ok (some (quoted s, carried))
  | .voidptr => .ok (some ([], carried))
  | .portptr =>
    match (if i = 0 then (atomGetValue st 0 true).2 else none) with
    | some ⟨.portptr, v⟩ =>
      match lib.portText v with
      | some texts =>
        -- the text of the other port is put together in a buffer of its own
        if (91 :: key ++ texts.flatten).length + 3 ≤ 1024 then
          .ok (some (91 :: key ++ texts.flatten ++ [93, colon], carried))
        else .error .outOfBounds
      | none => .ok (some ([], carried))
    | _ => .ok (some ([], carried))
  | t =>
    match atomGetValue st i true with
    | (.noError, data) => .ok (some (printData lib t (data <|> carried) ++ [colon], data <|> carried))
    | (.propertyEmpty, _) => .ok (some ([colon], carried))
    | _ => .ok none

/-- The loop of `vevo_sprintf_property` over the format: `size` counts the element texts only, `res` has
the name in front of them. -/
def sprintfElements (lib : TextLib) (key : CStr) (st : Storage) :
    ℕ → ℕ → Option Data → ℤ → CStr → Exec (Option CStr)
  | 0, _, _, _, res => .ok (some res)
  | n + 1, i, carried, size, res => do
    match (← elementText lib key st i carried) with
    | none => .ok none
    | some (tmp, carried) =>
      let size := size - tmp.length
      if 0 < size then
        if res.length + tmp.length < propMaxLen then
          sprintfElements lib key st n (i + 1) carried size (res ++ tmp)
        else .error .outOfBounds
      else .ok none

/-- `vevo_sprintf_property`, of a property that is there. -/
def vevoSprintfProperty (lib : TextLib) (p : Port) (key : CStr) : Exec (Option CStr) := do
  let st ← findProperty p key
  match st with
  | none => .ok none
  | some st =>
    sprintfElements lib key st (formatLen (some st)) 0 none propMaxLen
      ((key ++ [equalsSign]).take (propMaxLen - 1))

/-- The strings of the listed names; a property that cannot be written is left out. -/
def sprintfKeys (lib : TextLib) (p : Port) : List CStr → Exec (List CStr)
  | [] => .ok []
  | key :: keys => do
    let buf ← vevoSprintfProperty lib p key
    let rest ← sprintfKeys lib p keys
    .ok (buf.toList ++ rest)

/-- `vevo_sprintf_port`: `NULL` for a port without properties. -/
def vevoSprintfPort (lib : TextLib) (p : Port) : Exec (Option (List CStr)) :=
  if vevoNumProperties p = 0 then .ok none
  else do
    let res ← sprintfKeys lib p ((vevoListProperties p).getD [])
    .ok (some res)

/-! ## The reader -/

/-- `vevo_split_token_`: what stands before the delimiter goes to the buffer; the buffer's length is not
looked at. -/
def vevoSplitToken (s : CStr) (delim : UInt8) (bufLen : ℕ) : Exec (Option (CStr × CStr)) :=
  let w := s.takeWhile (· ≠ delim)
  if w.length = s.length then .ok none
  else if w.length < bufLen then .ok (some (w, s.drop (w.length + 1)))
  else .error .outOfBounds

/-- `vevo_split_token_q`: what stands between the opening quote and the delimiter goes to the buffer, a
closing quote included, and the answer is the string itself. -/
def vevoSplitTokenQ (s : CStr) (delim : UInt8) (bufLen : ℕ) : Exec (Option (CStr × CStr)) :=
  let w := s.takeWhile (· ≠ delim)
  if s.head? ≠ some quote then .ok none
  else if w.length = s.length then .ok none
  else if w.length ≤ bufLen then .ok (some (w.drop 1, s))
  else .error .outOfBounds

/-- `vevo_scan_token_`: the text up to and with the next `:`. -/
def vevoScanToken (s : CStr) : Option CStr :=
  let w := s.takeWhile (· ≠ colon)
  if w.length = s.length then none else some (w ++ [colon])

/-- One conversion of `vevo_sscanf_property`: the result of `sscanf`, and what it stored. -/
def scanElement (lib : TextLib) (t : AtomType) (arg : CStr) : ℤ × Option t.Elem :=
  match t with
  | .int | .bool =>
    match scanInt arg with
    | .val v _ => (1, some (Int32.ofInt (intValue v)))
    | .fail => (0, none)
    | .eof => (-1, none)
  | .uint64 =>
    match scanInt arg with
    | .val v _ => (1, some (UInt64.ofInt (longValue v)))
    | .fail => (0, none)
    | .eof => (-1, none)
  | .double => lib.scanDouble arg
  | .string => (1, some (some arg))
  | .funcptr | .hidden => ((lib.scanDouble arg).1, some ())
  | .utf8string | .voidptr | .portptr => (0, none)

/-- The loop of `vevo_sscanf_property` over the format, from element `cur` on. -/
def scanElements (lib : TextLib) (t : AtomType) :
    ℕ → ℕ → CStr → ℤ → List (Option t.Elem) → Exec (Option (ℤ × List (Option t.Elem)))
  | 0, _, _, n, vals => .ok (some (n, vals))
  | c + 1, cur, p, _, vals => do
    let split ← if t = .string then vevoSplitTokenQ p colon argLen else vevoSplitToken p colon argLen
    match split with
    | none => .ok none
    | some (arg, p) =>
      let e := scanElement lib t arg
      if maxElements ≤ cur ∧ e.2.isSome then .error .outOfBounds
      else scanElements lib t c (cur + 1) p e.1 (vals ++ [e.2])

/-- The scanned array as the source of `vevo_property_set`. -/
def initialised {t : AtomType} : List (Option t.Elem) → Exec (List t.Elem)
  | [] => .ok []
  | none :: _ => .error .uninitialised
  | some v :: vals => do
    let rest ← initialised vals
    .ok (v :: rest)

/-- The last call of `vevo_sscanf_property`: no elements after a failed match, and a `NULL` source where
the input ended before a number. -/
def setScanned (p : Port) (key : CStr) (t : AtomType) (n : ℤ) (vals : List (Option t.Elem)) :
    Exec (VevoError × Port) :=
  if n = 0 then vevoPropertySet p key t []
  else if 0 < n then do
    let src ← initialised vals
    vevoPropertySet p key t src
  else match t with
    -- an atom of no size is not copied from anywhere
    | .hidden => vevoPropertySet p key .hidden (List.replicate vals.length ())
    | _ => .error .nullPointer

/-- `vevo_sscanf_property` -/
def vevoSscanfProperty (lib : TextLib) (p : Port) (s : CStr) : Exec (ℤ × Port) := do
  match (← vevoSplitToken s equalsSign propertyKeySize) with
  | none => .ok (0, p)
  | some (key, value) =>
    let st ← findProperty p key
    -- a property that does not exist is taken for a double
    let t := (st.map Storage.atomType).getD .double
    if t = .funcptr then lib.callProperty p key value
    else do
      match (← scanElements lib t (formatLen st) 0 value 0 []) with
      | none => .ok (0, p)
      | some (n, vals) =>
        let a ← setScanned p key t n vals
        .ok (1, a.2)

/-- The loop of `vevo_sscanf_port`; `len` is what is left, as an `int`. -/
def sscanfLoop (lib : TextLib) : ℕ → ℤ → CStr → ℤ → Port → Exec (ℤ × Port)
  | 0, _, _, i, p => .ok (i, p)
  | fuel + 1, len, ptr, i, p =>
    if len ≤ 0 then .ok (i, p)
    else match vevoScanToken ptr with
      | some token => do
        let a ← vevoSscanfProperty lib p token
        sscanfLoop lib fuel (len - token.length) (ptr.drop token.length) (i + a.1) a.2
      | none => do
        let a ← vevoSscanfProperty lib p ptr
        .ok (i + a.1, a.2)

/-- `vevo_sscanf_port`: the number of properties that were set, and the port. -/
def vevoSscanfPort (lib : TextLib) (p : Port) (s : CStr) : Exec (ℤ × Port) :=
  sscanfLoop lib (s.length + 1) ((s.length : ℤ).bmod (2 ^ 32)) s 0 p

end Veejay.Vevo
