import Veejay.Vims.Dispatch

/-!
# The string arguments of messages

The last argument of some events is a string: `246:5000 227.0.0.17;`.  `inline_str_to_str` takes the rest of the message
for it, or one word, and the macro `P_A` copies it with `sprintf` into a buffer of the function of the event, whose size
it does not know (`veejay/vj-event.c`).

* `StringEvent`, `stringEvents` — the events with a string, and the buffers of their functions;
* `pA`, `receive` — the macro, and what a function has in its buffer;
* `stringMessage`, `parseMsg_stringMessage` — a message of numbers and a text, and how it is scanned;
* `receives_iff` — **when a function receives the text of a message**.
-/

namespace Veejay.Vims

open CLib

/-! ## The events -/

/-- An event with a string behind its numbers.  Its function has an array for the numbers, or a null pointer, and a
buffer for the string, or does not look at it. -/
structure StringEvent where
  id : ℤ
  /-- the defaults of the numbers -/
  defaults : List ℤ
  flags : ℕ
  /-- the size of `args` -/
  argsSize : ℕ
  /-- the size of `str` -/
  buffer : Option ℕ
  /-- without a font, the function returns before it looks at its arguments -/
  asksFont : Bool
  deriving DecidableEq

namespace StringEvent

/-- `VIMS_LONG_PARAMS | VIMS_REQUIRE_ALL_PARAMS` -/
def longAll : ℕ := 9

def vjEventTagSetFormat : StringEvent := ⟨302, [], longAll, 2, some 255, false⟩
-- `SAMPLE_MAX_DESCR_LEN`
def vjEventSampleSetDescr : StringEvent := ⟨103, [0], longAll, 5, some 24, false⟩
def vjEventSampleLoadList : StringEvent := ⟨125, [], longAll, 0, some 1024, false⟩
def vjEventSampleSaveList : StringEvent := ⟨126, [], longAll, 0, some 1024, false⟩
def vjEventCaliWriteFile : StringEvent := ⟨249, [], longAll, 2, some 1024, false⟩
def vjEventStreamNewCali : StringEvent := ⟨244, [], longAll, 2, some 1024, false⟩
-- `VIMS_REQUIRE_ALL_PARAMS`
def vjEventTagNewGenerator : StringEvent := ⟨250, [0], 1, 2, some 255, false⟩
def vjEventTagNewY4m : StringEvent := ⟨243, [], 1, 0, some 255, false⟩
def vjEventTagNewNet : StringEvent := ⟨245, [0], longAll, 2, some 255, false⟩
def vjEventTagNewMcast : StringEvent := ⟨246, [0], longAll, 3, some 255, false⟩
def vjEventTagNewPicture : StringEvent := ⟨247, [], longAll, 0, some 255, false⟩
-- `TAG_MAX_DESCR_LEN`
def vjEventTagSetDescr : StringEvent := ⟨203, [0], longAll, 2, some 150, false⟩
-- `VIMS_LONG_PARAMS`
def vjEventChainEntryPreset : StringEvent := ⟨361, [0, -1, 0], 8, 32, some 1024, false⟩
def vjEventChainEntrySetNargVal : StringEvent := ⟨349, [0, -1, 0], 8, 32, some 4096, false⟩
def vjEventOutputY4mStart : StringEvent := ⟨40, [], longAll, 0, none, false⟩
-- `VIMS_LONG_PARAMS | VIMS_ALLOW_ANY`
def vjEventElSaveEditlist : StringEvent := ⟨58, [0, 0], 24, 2, some 1024, false⟩
def vjEventElLoadEditlist : StringEvent := ⟨59, [], longAll, 0, none, false⟩
def vjEventElAddVideo : StringEvent := ⟨55, [], longAll, 0, some 1024, false⟩
def vjEventElAddVideoSample : StringEvent := ⟨56, [0], longAll, 2, some 1024, false⟩
def vjEventReadFile : StringEvent := ⟨84, [], longAll, 1, some 512, false⟩
def vjEventWriteActionfile : StringEvent := ⟨85, [0], longAll, 2, some 512, false⟩
def vjEventBundledMsgAdd : StringEvent := ⟨82, [0], longAll, 2, some 1024, false⟩
-- `VIMS_ALLOW_ANY`
def vjEventAttachDetachKey : StringEvent := ⟨83, [0, 0, 0], 16, 4, some 100, false⟩
def vjEventScreenshot : StringEvent := ⟨330, [0, 0], longAll, 4, some 1024, false⟩
def vjEventAddSubtitle : StringEvent := ⟨393, [0, 0, 0, 0, 0], longAll, 6, some 2048, true⟩
def vjEventUpdSubtitle : StringEvent := ⟨395, [0, 0, 0], longAll, 5, some 2048, false⟩
def vjEventSaveSrt : StringEvent := ⟨396, [], longAll, 1, some 512, false⟩
def vjEventLoadSrt : StringEvent := ⟨397, [], longAll, 1, some 512, false⟩

end StringEvent

open StringEvent

/-- The events with a string. -/
def stringEvents : List StringEvent :=
  [vjEventTagSetFormat, vjEventSampleSetDescr, vjEventSampleLoadList, vjEventSampleSaveList, vjEventCaliWriteFile,
    vjEventStreamNewCali, vjEventTagNewGenerator, vjEventTagNewY4m, vjEventTagNewNet, vjEventTagNewMcast,
    vjEventTagNewPicture, vjEventTagSetDescr, vjEventChainEntryPreset, vjEventChainEntrySetNargVal,
    vjEventOutputY4mStart, vjEventElSaveEditlist, vjEventElLoadEditlist, vjEventElAddVideo, vjEventElAddVideoSample,
    vjEventReadFile, vjEventWriteActionfile, vjEventBundledMsgAdd, vjEventAttachDetachKey, vjEventScreenshot,
    vjEventAddSubtitle, vjEventUpdSubtitle, vjEventSaveSrt, vjEventLoadSrt]

/-- The format of `k` numbers and a string: `%d %d %s`. -/
def stringFormat (k : ℕ) : CStr := (List.replicate k (lit "%d ")).flatten ++ lit "%s"

namespace StringEvent

/-- `VIMS_LONG_PARAMS` -/
def long (e : StringEvent) : Bool := e.flags.testBit 3

def format (e : StringEvent) : CStr := stringFormat e.defaults.length

/-- The event in `index_map_`. -/
def port (e : StringEvent) : EventPort :=
  newEvent e.format (e.defaults.length + 1) e.flags (e.defaults.map .int ++ [.str none])

/-- The size of the buffer that the string is copied into, if it is copied. -/
def copies (e : StringEvent) (font : Bool) : Option ℕ := if e.asksFont && !font then none else e.buffer

end StringEvent

/-- The event with this id. -/
def stringEvent (id : ℤ) : Option StringEvent := stringEvents.find? fun e => decide (e.id = id)

/-! ## The macro -/

/-- A variable argument: a pointer to a number, to a string, the null pointer, or one that is not set. -/
inductive VaArg where
  | int (v : ℤ)
  | str (t : CStr)
  | null
  | unset

/-- `vims_arguments`, as `vj_event_fire_net_event` sets them. -/
def vimsArguments (format : CStr) (np : ℕ) (str : Option CStr) (args : List (Option ℤ)) : List VaArg :=
  (List.range np).map fun m =>
    if format[1 + 3 * m]? = some 100 then
      match args[m]? with
      | some (some v) => .int v
      | _ => .unset
    else
      match str with
      | some t => .str t
      | none => .unset

/-- `P_A`: the numbers go to `a`, the string to `b`, which has `bSize` bytes; `lastKnown` is `_last_known_num_args`. -/
def pA (aSize bSize lastKnown : ℕ) : CStr → ℕ → List VaArg → List ℤ → Option CStr → Exec (List ℤ × Option CStr)
  | [], _, _, a, b => .ok (a, b)
  | c :: format, z, ap, a, b =>
    if lastKnown < z then .ok (a, b)
    else if c = 115 then
      match ap with
      -- `sprintf (b, "%s", …)`
      | .str t :: ap => if bSize ≤ t.length then .error .overrun else pA aSize bSize lastKnown format (z + 1) ap a (some t)
      | .null :: ap => pA aSize bSize lastKnown format (z + 1) ap a b
      | _ => .error .uninitialised
    else if c = 100 then
      match ap with
      | .int v :: ap =>
        if aSize ≤ z then .error .overrun else pA aSize bSize lastKnown format (z + 1) ap (a.set z v) b
      | _ => .error .uninitialised
    else pA aSize bSize lastKnown format z ap a b

/-- What the function of an event receives: the string in its buffer, or the one that it is handed. -/
def receive (font : Bool) (e : StringEvent) (str : Option CStr) (args : List (Option ℤ)) (log : List (ℤ × CStr)) :
    Exec (List (ℤ × CStr)) := do
  let np := e.defaults.length + 1
  let text ← match e.copies font with
    | none => .ok str
    | some size => do
      let r ← pA e.argsSize size np e.format 0 (vimsArguments e.format np str args) (List.replicate e.argsSize 0) none
      .ok r.2
  .ok (log ++ (text.map fun t => (e.id, t)).toList)

/-- The interpreter with these events; its state is what was received. -/
def stringHandlers (font : Bool) : Events (Exec (List (ℤ × CStr))) :=
  indexEvents (fun id => (stringEvent id).map StringEvent.port)
    { bundleGet := fun _ _ => none
      textAt := fun _ _ => none
      numArgs := fun _ => 0
      format := fun _ => []
      defaultValue := fun _ _ => 0
      allowAny := fun _ => false
      longParams := fun _ => false
      requireAll := fun _ => false
      fire := fun id str args s =>
        match stringEvent id with
        | none => s
        | some e => s >>= receive font e str args
      parseKf := fun _ s => s
      storeMacro := fun _ _ s => s }

/-- The arguments of a message: numbers, each with a blank behind it, and a text. -/
def argumentsText (vs : List ℤ) (text : CStr) : CStr := (vs.flatMap fun v => decimalInt v ++ [32]) ++ text

/-- A message for an event with a string; `tail` is what is behind it in the object that holds it. -/
def stringMessage (id : ℤ) (vs : List ℤ) (text : CStr) (tail : List UInt8) : Message :=
  ⟨idMessage id (argumentsText vs text ++ [59]) ++ 0 :: tail, (idMessage id (argumentsText vs text ++ [59])).length⟩

/-! ## Formats -/

theorem stringFormat_succ (k : ℕ) : stringFormat (k + 1) = 37 :: 100 :: 32 :: stringFormat k := rfl

theorem stringFormat_number {k m : ℕ} (hm : m < k) : (stringFormat k)[1 + 3 * m]? = some 100 := by
  induction k generalizing m with
  | zero => exact absurd hm (Nat.not_lt_zero m)
  | succ k ih =>
    rw [stringFormat_succ]
    cases m with
    | zero => rfl
    | succ m =>
      rw [show 1 + 3 * (m + 1) = 1 + 3 * m + 1 + 1 + 1 by omega]
      exact ih (by omega)

theorem stringFormat_string (k : ℕ) : (stringFormat k)[1 + 3 * k]? = some 115 := by
  induction k with
  | zero => rfl
  | succ k ih =>
    rw [stringFormat_succ, show 1 + 3 * (k + 1) = 1 + 3 * k + 1 + 1 + 1 by omega]
    exact ih

theorem vimsArguments_eq (vs : List ℤ) (t : CStr) (args : List (Option ℤ)) (h : args.take vs.length = vs.map some) :
    vimsArguments (stringFormat vs.length) (vs.length + 1) (some t) args = vs.map .int ++ [.str t] := by
  have hlast : ¬ (stringFormat vs.length)[1 + 3 * vs.length]? = some 100 := by
    rw [stringFormat_string]
    decide
  rw [vimsArguments, List.range_succ, List.map_append, List.map_singleton, if_neg hlast]
  congr 1
  refine List.ext_getElem? fun m => ?_
  rw [List.getElem?_map, List.getElem?_map]
  rcases Nat.lt_or_ge m vs.length with hm | hm
  · have harg : args[m]? = some (some vs[m]) := by
      rw [← List.getElem?_take_of_lt hm, h, List.getElem?_map, List.getElem?_eq_getElem hm]
      rfl
    rw [List.getElem?_range hm, List.getElem?_eq_getElem hm, Option.map_some, Option.map_some,
      if_pos (stringFormat_number hm), harg]
  · rw [List.getElem?_eq_none (by rw [List.length_range]; exact hm), List.getElem?_eq_none hm]
    rfl

section Macro

variable {aSize bSize lastKnown z : ℕ} {a : List ℤ} {b : Option CStr}

/-- A byte of the format that is no kind of argument. -/
theorem pA_skip (hz : z ≤ lastKnown) {c : UInt8} (hs : c ≠ 115) (hd : c ≠ 100) (format : CStr) (ap : List VaArg) :
    pA aSize bSize lastKnown (c :: format) z ap a b = pA aSize bSize lastKnown format z ap a b := by
  rw [pA.eq_def aSize bSize lastKnown (c :: format)]
  dsimp only
  rw [if_neg (Nat.not_lt.mpr hz), if_neg hs, if_neg hd]

theorem pA_int (hz : z ≤ lastKnown) (hsize : z < aSize) (format : CStr) (v : ℤ) (ap : List VaArg) :
    pA aSize bSize lastKnown (100 :: format) z (.int v :: ap) a b =
      pA aSize bSize lastKnown format (z + 1) ap (a.set z v) b := by
  rw [pA.eq_def aSize bSize lastKnown (100 :: format)]
  dsimp only
  rw [if_neg (Nat.not_lt.mpr hz), if_neg (by decide), if_pos rfl, if_neg (Nat.not_le.mpr hsize)]

theorem pA_str (hz : z ≤ lastKnown) (format : CStr) (t : CStr) (ap : List VaArg) :
    pA aSize bSize lastKnown (115 :: format) z (.str t :: ap) a b =
      if bSize ≤ t.length then .error .overrun else pA aSize bSize lastKnown format (z + 1) ap a (some t) := by
  rw [pA.eq_def aSize bSize lastKnown (115 :: format)]
  dsimp only
  rw [if_neg (Nat.not_lt.mpr hz), if_pos rfl]

end Macro

/-- **The macro**: it copies the string, which has to fit. -/
theorem pA_eq {aSize bSize lastKnown : ℕ} (t : CStr) (vs : List ℤ) (z : ℕ) (a : List ℤ) (b : Option CStr)
    (ha : z + vs.length ≤ aSize) (hlast : z + vs.length ≤ lastKnown) :
    ∃ a', pA aSize bSize lastKnown (stringFormat vs.length) z (vs.map .int ++ [.str t]) a b =
      if bSize ≤ t.length then .error .overrun else .ok (a', some t) := by
  induction vs generalizing z a with
  | nil =>
    have hz : z ≤ lastKnown := by simpa using hlast
    refine ⟨a, ?_⟩
    show pA aSize bSize lastKnown (37 :: 115 :: []) z [.str t] a b = _
    rw [pA_skip hz (by decide) (by decide), pA_str hz]
    rfl
  | cons v vs ih =>
    rw [List.length_cons] at ha hlast
    have hz : z ≤ lastKnown := by omega
    have hz' : z + 1 ≤ lastKnown := by omega
    obtain ⟨a', hrest⟩ := ih (z + 1) (a.set z v) (by omega) (by omega)
    refine ⟨a', ?_⟩
    rw [← hrest, List.length_cons, stringFormat_succ, List.map_cons, List.cons_append,
      pA_skip hz (by decide) (by decide), pA_int hz (by omega), pA_skip hz' (by decide) (by decide)]

/-! ## Messages -/

section Messages

variable {ev : Events S} {id : ℤ}

/-- Numbers in front of other arguments are scanned. -/
theorem scanArgs_numbers (vs : List ℤ) (hvs : ∀ v ∈ vs, InRange v) (left : ℕ) (rest : CStr) (front back : List (Option ℤ))
    (hkind : ∀ m, m < front.length + vs.length → (ev.format id)[1 + 3 * m]? = some 100) (hback : vs.length ≤ back.length) :
    scanArgs ev id (left + vs.length) front.length (1 + 3 * front.length) (argumentsText vs rest) none (front ++ back) =
      scanArgs ev id left (front.length + vs.length) (1 + 3 * (front.length + vs.length)) rest none
        (front ++ vs.map some ++ back.drop vs.length) := by
  induction vs generalizing front back with
  | nil =>
    rw [List.map_nil, List.append_nil]
    rfl
  | cons v vs ih =>
    obtain ⟨b, back, rfl⟩ := List.exists_cons_of_length_pos (show 0 < back.length by rw [List.length_cons] at hback; omega)
    have htext : argumentsText (v :: vs) rest = decimalInt v ++ 32 :: argumentsText vs rest := by
      simp [argumentsText]
    have hset : (front ++ b :: back).set front.length (some v) = (front ++ [some v]) ++ back := by
      rw [List.set_append_right _ _ (Nat.le_refl _), Nat.sub_self]
      simp
    have hlen : (front ++ [some v]).length = front.length + 1 := by
      rw [List.length_append, List.length_singleton]
    have hrec := ih (fun x hx => hvs x (List.mem_cons_of_mem v hx)) (front ++ [some v]) back
      (by rw [hlen]; exact fun m hm => hkind m (by rw [List.length_cons]; omega))
      (by rw [List.length_cons, List.length_cons] at hback; omega)
    rw [hlen] at hrec
    rw [htext, List.length_cons, show left + (vs.length + 1) = left + vs.length + 1 by omega,
      scanArgs_number (hkind front.length (by rw [List.length_cons]; omega)) (hvs v List.mem_cons_self), hset,
      show 1 + 3 * front.length + 3 = 1 + 3 * (front.length + 1) by omega, hrec,
      show front.length + 1 + vs.length = front.length + (vs.length + 1) by omega]
    simp

/-- The string is scanned. -/
theorem scanArgs_string {left i fmtOffset : ℕ} (hs : (ev.format id)[fmtOffset]? = some 115) (t : CStr)
    (args : List (Option ℤ)) :
    scanArgs ev id (left + 1) i fmtOffset t none args =
      inlineStrToStr (ev.longParams id) t >>= fun word =>
        match word with
        | none => .ok none
        | some word => scanNext ev id left i fmtOffset (t.drop word.length) (some word) args := by
  rw [scanArgs]
  simp only [hs]
  rw [if_neg (by decide), if_pos ⟨trivial, trivial⟩]
  rcases inlineStrToStr (ev.longParams id) t with f | (_ | word)
  · rfl
  · rfl
  · rw [ok_bind, ok_bind]
    show _ = scanNext ev id left i fmtOffset (t.drop word.length) (some word) args
    cases hrest : t.drop word.length with
    | nil => simp only [hrest, scanNext]
    | cons c rest => simp only [hrest, scanNext]

/-- The numbers are made of digits, signs and blanks. -/
theorem not_mem_numbers (vs : List ℤ) {c : UInt8} (hdigit : isDigit c = false) (h45 : c ≠ 45) (h32 : c ≠ 32) :
    c ∉ vs.flatMap fun v => decimalInt v ++ [32] := by
  intro h
  obtain ⟨v, -, hv⟩ := List.mem_flatMap.mp h
  rcases List.mem_append.mp hv with hv | hv
  · rcases mem_decimalInt hv with h | h
    · rw [hdigit] at h
      cases h
    · exact h45 h
  · exact h32 (List.mem_singleton.mp hv)

theorem cutArguments_argumentsText (vs : List ℤ) (text : CStr) :
    cutArguments (argumentsText vs text) = argumentsText vs (cutArguments text) := by
  have hno : (59 : UInt8) ∉ vs.flatMap fun v => decimalInt v ++ [32] :=
    not_mem_numbers vs (by decide) (by decide) (by decide)
  have hback : (argumentsText vs text).reverse[3]? = some 59 ↔ text.reverse[3]? = some 59 := by
    rw [argumentsText, List.reverse_append]
    rcases Nat.lt_or_ge 3 text.reverse.length with h | h
    · rw [List.getElem?_append_left h]
    · rw [List.getElem?_append_right h, List.getElem?_eq_none h]
      refine iff_of_false (fun hc => ?_) (fun hc => by cases hc)
      exact hno (List.mem_reverse.mp (List.mem_of_getElem? hc))
  rw [cutArguments, cutArguments]
  by_cases h : text.reverse[3]? = some 59
  · have hne : text ≠ [] := by
      rintro rfl
      cases h
    rw [if_pos h, if_pos (hback.mpr h), argumentsText, List.dropLast_append_of_ne_nil hne]
    rfl
  · rw [if_neg h, if_neg (fun hc => h (hback.mp hc))]

/-- Behind the last argument. -/
theorem scanNext_last (i fmtOffset : ℕ) (rest : CStr) (str : Option CStr) (args : List (Option ℤ)) :
    scanNext ev id 0 i fmtOffset rest str args =
      .ok (some (if rest = [] ∨ rest.head? = some 59 then i + 1 else i + 2, str, args)) := by
  cases rest with
  | nil => rfl
  | cons c rest =>
    rw [scanNext]
    by_cases hc : c = 59
    · rw [if_pos hc, if_pos (.inr (congrArg some hc))]
    · have hno : ¬ (c :: rest = [] ∨ (c :: rest).head? = some 59) := by
        rintro (h | h)
        · cases h
        · exact hc (Option.some.inj h)
      rw [if_neg hc, if_neg hno, scanArgs]

/-- A word is scanned: it is the text behind its blanks, up to the next one. -/
theorem inlineStrToStr_eq_some {long : Bool} {t word : CStr} :
    inlineStrToStr long t = .ok (some word) ↔
      word ≠ [] ∧ if long then word = t
        else word = ((t.dropWhile isSpace).takeWhile fun c => !isSpace c) ∧ word.length < 256 := by
  rw [inlineStrToStr]
  by_cases ht : t = []
  · subst ht
    cases long with
    | true => simp
    | false =>
      refine iff_of_false (fun h => by cases h) ?_
      rintro ⟨hne, rfl, -⟩
      exact hne rfl
  · rw [if_neg ht]
    cases long with
    | true =>
      rw [if_pos rfl, if_pos rfl]
      constructor
      · intro h
        obtain rfl : t = word := by simpa using h
        exact ⟨ht, rfl⟩
      · rintro ⟨-, rfl⟩
        rfl
    | false =>
      rw [if_neg Bool.false_ne_true, if_neg Bool.false_ne_true]
      dsimp only
      generalize ((t.dropWhile isSpace).takeWhile fun c => !isSpace c) = w
      split_ifs with hw hlen
      · refine iff_of_false (fun h => by cases h) ?_
        rintro ⟨hne, rfl, -⟩
        exact hne hw
      · refine iff_of_false (fun h => by cases h) ?_
        rintro ⟨-, rfl, hlt⟩
        exact absurd hlt (Nat.not_lt.mpr hlen)
      · constructor
        · intro h
          obtain rfl : w = word := by simpa using h
          exact ⟨hw, rfl, Nat.not_le.mp hlen⟩
        · rintro ⟨-, rfl, -⟩
          rfl

end Messages

/-! ## The interpreter -/

section Interpreter

variable {e : StringEvent} {font : Bool} {vs : List ℤ} {text : CStr} {log : List (ℤ × CStr)} {tail : List UInt8}

/-- The events have ids of their own, none of which is a bundle's, and there is room for their numbers. -/
theorem stringEvents_registered : ∀ e ∈ stringEvents, stringEvent e.id = some e ∧ ValidId e.id ∧
    ¬ (vimsBundleStart ≤ e.id ∧ e.id < vimsBundleEnd) ∧ e.id ≠ vimsBundle ∧
    (e.buffer ≠ none → e.defaults.length ≤ e.argsSize) ∧ (e.id = vimsChainEntrySetPreset → e.defaults.length = 3) := by
  decide

theorem stringHandlers_port (font : Bool) (he : e ∈ stringEvents) :
    (stringHandlers font).numArgs e.id = e.defaults.length + 1 ∧
      (stringHandlers font).format e.id = stringFormat e.defaults.length ∧
      (stringHandlers font).longParams e.id = e.long ∧
      (stringHandlers font).allowAny e.id = e.flags.testBit 4 := by
  have hfind := (stringEvents_registered e he).1
  have hindex : (stringEvent e.id).map StringEvent.port = some e.port := by
    rw [hfind]
    rfl
  refine ⟨?_, ?_, ?_, ?_⟩
  · show vjEventVevoGetNumArgs (fun id => (stringEvent id).map StringEvent.port) e.id = _
    rw [vjEventVevoGetNumArgs, hindex]
    rfl
  · show vjEventVevoGetEventFormat (fun id => (stringEvent id).map StringEvent.port) e.id = _
    rw [vjEventVevoGetEventFormat, hindex]
    rfl
  · show (vjEventVevoGetFlags (fun id => (stringEvent id).map StringEvent.port) e.id).testBit 3 = _
    rw [vjEventVevoGetFlags, hindex]
    rfl
  · show (vjEventVevoGetFlags (fun id => (stringEvent id).map StringEvent.port) e.id).testBit 4 = _
    rw [vjEventVevoGetFlags, hindex]
    rfl

theorem stringHandlers_fire (he : e ∈ stringEvents) (str : Option CStr) (args : List (Option ℤ)) :
    (stringHandlers font).fire e.id str args (.ok log) = receive font e str args log := by
  show (match stringEvent e.id with
    | none => Except.ok log
    | some e => Except.ok log >>= receive font e str args) = _
  rw [(stringEvents_registered e he).1]
  rfl

/-- **The function of an event** has the string that was scanned, where it fits into its buffer. -/
theorem receive_eq_ok (he : e ∈ stringEvents) (hlen : vs.length = e.defaults.length) {args : List (Option ℤ)}
    (hargs : args.take vs.length = vs.map some) (word : CStr) (log' : List (ℤ × CStr)) :
    receive font e (some word) args log = .ok log' ↔
      (∀ size, e.copies font = some size → word.length < size) ∧ log' = log ++ [(e.id, word)] := by
  rw [receive]
  cases hcopies : e.copies font with
  | none =>
    constructor
    · intro h
      exact ⟨fun size hs => (by cases hs), (Except.ok.inj h).symm⟩
    · rintro ⟨-, rfl⟩
      rfl
  | some size =>
    have hbuffer : e.buffer ≠ none := by
      intro h
      rw [StringEvent.copies, h, ite_self] at hcopies
      cases hcopies
    have hroom : vs.length ≤ e.argsSize := hlen ▸ (stringEvents_registered e he).2.2.2.2.1 hbuffer
    obtain ⟨a', ha⟩ := @pA_eq e.argsSize size (vs.length + 1) word vs 0 (List.replicate e.argsSize 0) none
      (by omega) (by omega)
    dsimp only
    rw [StringEvent.format, ← hlen, vimsArguments_eq vs word args hargs, ha]
    by_cases hfits : size ≤ word.length
    · rw [if_pos hfits]
      refine iff_of_false (fun h => by cases h) fun h => ?_
      exact absurd (h.1 size rfl) (Nat.not_lt.mpr hfits)
    · rw [if_neg hfits]
      constructor
      · intro h
        refine ⟨fun size' hs => ?_, (Except.ok.inj h).symm⟩
        obtain rfl := Option.some.inj hs
        exact Nat.not_le.mp hfits
      · rintro ⟨-, rfl⟩
        rfl

/-- The arguments are verified. -/
theorem verifyArgs_stringHandlers (he : e ∈ stringEvents) (hlen : vs.length = e.defaults.length)
    {args : List (Option ℤ)} (hargs : args.take vs.length = vs.map some) {n : ℕ} (hn : e.defaults.length + 1 ≤ n) :
    verifyArgs (stringHandlers font) e.id args n = true ↔
      if e.id = vimsChainEntrySetPreset then ∃ fx, vs[2]? = some fx ∧ 0 < fx else n = e.defaults.length + 1 := by
  rw [verifyArgs]
  by_cases hid : e.id = vimsChainEntrySetPreset
  · have hthree := (stringEvents_registered e he).2.2.2.2.2 hid
    have harg : args[2]? = some vs[2]? := by
      rw [← List.getElem?_take_of_lt (show 2 < vs.length by omega), hargs, List.getElem?_map,
        List.getElem?_eq_getElem (show 2 < vs.length by omega)]
      rfl
    rw [if_neg (not_not.mpr hid), if_pos hid, harg, decide_eq_true (show 3 ≤ n by omega), Bool.true_and]
    cases vs[2]? with
    | none => simp
    | some fx => simp
  · rw [if_pos hid, if_neg hid, (stringHandlers_port font he).1, decide_eq_true_eq]

/-- Behind a string that was scanned, all arguments are there. -/
theorem stringsThere_some {ev : Events S} {id : ℤ} {word : CStr} (hne : word ≠ []) (n : ℕ) :
    stringsThere ev id (some word) n = true := by
  refine List.all_eq_true.mpr fun i _ => ?_
  cases word with
  | nil => exact absurd rfl hne
  | cons c word => simp

/-- The arguments that are counted, where this is left behind the string. -/
def argumentCount (e : StringEvent) (rest : CStr) : ℕ :=
  if e.flags.testBit 4 ∨ rest = [] ∨ rest.head? = some 59 then e.defaults.length + 1 else e.defaults.length + 2

theorem le_argumentCount (e : StringEvent) (rest : CStr) : e.defaults.length + 1 ≤ argumentCount e rest := by
  rw [argumentCount]
  split_ifs
  · exact Nat.le_refl _
  · exact Nat.le_succ _

/-- **A message with a string**: the numbers are scanned, and then the string. -/
theorem parseMsg_stringMessage (font : Bool) (log : List (ℤ × CStr)) (he : e ∈ stringEvents)
    (hlen : vs.length = e.defaults.length) (hvs : ∀ v ∈ vs, InRange v) (h0 : (0 : UInt8) ∉ text)
    (hne : argumentsText vs text ≠ []) (fuel : ℕ) :
    ∃ args : List (Option ℤ), args.take vs.length = vs.map some ∧
      parseMsg (stringHandlers font) (fuel + 1) (stringMessage e.id vs text tail) (.ok log) =
        inlineStrToStr e.long (cutArguments text) >>= fun word =>
          match word with
          | none => .ok (.ok log)
          | some word =>
            .ok (if verifyArgs (stringHandlers font) e.id args
                (argumentCount e ((cutArguments text).drop word.length)) = true then
              receive font e (some word) args log else .ok log) := by
  obtain ⟨-, hvalid, hb, hbundle, -, -⟩ := stringEvents_registered e he
  obtain ⟨hnum, hformat, hlong, hany⟩ := stringHandlers_port font he
  have hinit : (initialArgs (stringHandlers font) e.id).length = vs.length + 1 := by
    rw [initialArgs, List.length_map, List.length_range, hnum, hlen]
  have hkind : ∀ m, m < ([] : List (Option ℤ)).length + vs.length →
      ((stringHandlers font).format e.id)[1 + 3 * m]? = some 100 := by
    intro m hm
    rw [hformat, ← hlen]
    exact stringFormat_number (by simpa using hm)
  have hnumbers := scanArgs_numbers vs hvs 1 (cutArguments text) [] (initialArgs (stringHandlers font) e.id) hkind
    (by omega)
  have hstring : ((stringHandlers font).format e.id)[1 + 3 * vs.length]? = some 115 := by
    rw [hformat, ← hlen]
    exact stringFormat_string _
  have h0' : (0 : UInt8) ∉ argumentsText vs text := by
    rw [argumentsText, List.mem_append, not_or]
    exact ⟨not_mem_numbers vs (by decide) (by decide) (by decide), h0⟩
  have hsel := select_cutArguments (stringHandlers font) ((stringHandlers font).bundleGet (.ok log)) hvalid hb
    (by rw [hnum]; exact Nat.succ_ne_zero _) hne h0' tail
  rw [List.length_nil, Nat.mul_zero, Nat.add_zero, Nat.zero_add, List.nil_append, List.nil_append, Nat.add_comm 1] at hnumbers
  rw [cutArguments_argumentsText, hnum, ← hlen, hnumbers, scanArgs_string hstring, hlong, hany] at hsel
  refine ⟨vs.map some ++ (initialArgs (stringHandlers font) e.id).drop vs.length, ?_, ?_⟩
  · rw [List.take_append_of_le_length (by rw [List.length_map]), List.take_of_length_le (by rw [List.length_map])]
  · rw [parseMsg]
    rw [stringMessage, hsel]
    rcases hword : inlineStrToStr e.long (cutArguments text) with f | (_ | word)
    · rfl
    · rfl
    · have hwordne := (inlineStrToStr_eq_some.mp hword).1
      have hcount : (if e.flags.testBit 4 = true then vs.length + 1
          else if (cutArguments text).drop word.length = [] ∨ ((cutArguments text).drop word.length).head? = some 59 then
            vs.length + 1 else vs.length + 2) = argumentCount e ((cutArguments text).drop word.length) := by
        rw [argumentCount, ← hlen]
        by_cases hf : e.flags.testBit 4 = true
        · rw [if_pos hf, if_pos (.inl hf)]
        · rw [if_neg hf]
          exact if_congr (or_iff_right hf).symm rfl rfl
      rw [ok_bind, ok_bind]
      dsimp only
      rw [scanNext_last, ok_bind]
      dsimp only
      rw [hcount, fireNetEvent]
      by_cases hver : verifyArgs (stringHandlers font) e.id
          (vs.map some ++ (initialArgs (stringHandlers font) e.id).drop vs.length)
          (argumentCount e ((cutArguments text).drop word.length)) = true
      · rw [if_pos hver, hver, stringsThere_some hwordne, if_neg (by decide),
          if_neg (fun h => absurd h.2 (by decide)), if_neg hbundle, ok_bind,
          ← stringHandlers_fire he]
        rfl
      · rw [if_neg hver, Bool.eq_false_iff.mpr hver, if_pos (by decide), ok_bind]
        rfl

/-- **A message without arguments**: the string is not there, and the function of the event is not called. -/
theorem parseMsg_noArguments (he : e ∈ stringEvents) (hnone : e.defaults = []) (fuel : ℕ) :
    parseMsg (stringHandlers font) (fuel + 1) (stringMessage e.id [] [] tail) (.ok log) = .ok (.ok log) := by
  obtain ⟨-, hvalid, hb, -, -, -⟩ := stringEvents_registered e he
  obtain ⟨hnum, hformat, -, -⟩ := stringHandlers_port font he
  have h0 : (0 : UInt8) ∉ idMessage e.id [59] := idMessage_no_zero (by decide)
  have hlast : (idMessage e.id [59]).getLast? ≠ some newline := by
    rw [idMessage, List.getLast?_append_cons]
    decide
  have hlen : ((idMessage e.id [59]).length : ℤ) = 5 := by
    rw [idMessage_length hvalid]
    rfl
  have hstring : ((stringHandlers font).format e.id)[1 + 3 * 0]? = some 115 := by
    rw [hformat, hnone]
    exact stringFormat_string 0
  have hthere : ∀ n, 0 < n → stringsThere (stringHandlers font) e.id none n = false := by
    intro n hn
    refine Bool.eq_false_iff.mpr fun h => ?_
    have := List.all_eq_true.mp h 0 (List.mem_range.mpr hn)
    rw [hstring] at this
    simp at this
  have hchomp := chompStr_of_unlined h0 hlast tail (idMessage e.id [59]).length
  have htext := text_of_bytes h0 tail (idMessage e.id [59]).length
  have hmin : msgMinLen ≤ ((idMessage e.id [59]).length : ℤ) := by
    rw [hlen]
    decide
  have harguments : argumentsText [] [] ++ [59] = [(59 : UInt8)] := rfl
  rw [parseMsg, stringMessage, harguments,
    select_of_text _ _ hvalid hmin htext (by rw [hchomp]; exact htext), if_neg hb, hchomp, selectEvent]
  dsimp only
  rw [if_pos (show ((idMessage e.id [59]).length : ℤ) - 1 ≤ msgMinLen by rw [hlen]; decide), fireNetEvent, hnum,
    hthere _ (Nat.succ_pos _),
    if_pos (show e.defaults.length + 1 ≠ 0 ∧ (!false) = true from ⟨Nat.succ_ne_zero _, rfl⟩), ite_self]
  rfl

/-- The scanned word is the text: nothing is cut off, and there is one word. -/
theorem inlineStrToStr_cutArguments {long : Bool} {text : CStr} :
    inlineStrToStr long (cutArguments text) = .ok (some text) ↔
      text ≠ [] ∧ (long = true ∨ (∀ c ∈ text, isSpace c = false) ∧ text.length < 256) ∧ text.reverse[3]? ≠ some 59 := by
  have hword : ∀ t : CStr, ((t.dropWhile isSpace).takeWhile fun c => !isSpace c).length ≤ t.length := fun t =>
    (List.takeWhile_sublist _).length_le.trans (List.dropWhile_sublist _).length_le
  rw [inlineStrToStr_eq_some, cutArguments]
  refine and_congr_right fun hne => ?_
  by_cases hcut : text.reverse[3]? = some 59
  · -- the text is longer than what is scanned
    have hpos := List.length_pos_of_ne_nil hne
    have hlt : text.dropLast.length < text.length := by
      rw [List.length_dropLast]
      omega
    rw [if_pos hcut]
    refine iff_of_false (fun h => ?_) fun h => h.2 hcut
    cases long with
    | true =>
      rw [if_pos rfl] at h
      exact absurd (congrArg List.length h) (by omega)
    | false =>
      rw [if_neg Bool.false_ne_true] at h
      have hle := hword text.dropLast
      rw [← h.1] at hle
      omega
  · rw [if_neg hcut, and_iff_left hcut]
    cases long with
    | true =>
      rw [if_pos rfl]
      exact iff_of_true rfl (.inl rfl)
    | false =>
      rw [if_neg Bool.false_ne_true, or_iff_right Bool.false_ne_true]
      refine and_congr_left fun _ => ?_
      constructor
      · intro h c hc
        rw [h] at hc
        simpa using List.mem_takeWhile_imp hc
      · intro h
        have hdrop : text.dropWhile isSpace = text := by
          cases text with
          | nil => rfl
          | cons c t => exact List.dropWhile_cons_of_neg (by rw [h c List.mem_cons_self]; decide)
        rw [hdrop, List.takeWhile_eq_self_iff.mpr]
        intro c hc
        rw [h c hc]
        rfl

/-- **When a function receives the text of a message**: it is one word, or the event takes the rest of the message; it
fits into the buffers; and its fourth byte from the end is no semicolon.  A preset names an effect, too. -/
theorem receives_iff (he : e ∈ stringEvents) (hlen : vs.length = e.defaults.length) (hvs : ∀ v ∈ vs, InRange v)
    (h0 : (0 : UInt8) ∉ text) (fuel : ℕ) :
    parseMsg (stringHandlers font) (fuel + 1) (stringMessage e.id vs text tail) (.ok log) =
        .ok (.ok (log ++ [(e.id, text)])) ↔
      text ≠ [] ∧ (e.long = true ∨ (∀ c ∈ text, isSpace c = false) ∧ text.length < 256) ∧
        (∀ size, e.copies font = some size → text.length < size) ∧ text.reverse[3]? ≠ some 59 ∧
        (e.id = vimsChainEntrySetPreset → ∃ fx, vs[2]? = some fx ∧ 0 < fx) := by
  have hlog : ∀ word : CStr, log ≠ log ++ [(e.id, word)] := fun word h => by simp at h
  by_cases hne : argumentsText vs text = []
  · obtain ⟨hvs', htext⟩ := List.append_eq_nil_iff.mp hne
    obtain rfl : vs = [] := by
      cases vs with
      | nil => rfl
      | cons v vs => simp at hvs'
    subst htext
    rw [parseMsg_noArguments he (List.length_eq_zero_iff.mp hlen.symm)]
    exact iff_of_false (fun h => hlog _ (Except.ok.inj (Except.ok.inj h))) fun h => h.1 rfl
  · obtain ⟨args, hargs, hparse⟩ := parseMsg_stringMessage font log he hlen hvs h0 hne fuel
    rw [hparse]
    constructor
    · intro h
      obtain ⟨word, hword, h⟩ := bind_eq_ok.mp h
      cases word with
      | none => exact absurd (Except.ok.inj (Except.ok.inj h)) (hlog _)
      | some word =>
        have h := Except.ok.inj h
        by_cases hver : verifyArgs (stringHandlers font) e.id args
            (argumentCount e ((cutArguments text).drop word.length)) = true
        · rw [if_pos hver, receive_eq_ok he hlen hargs] at h
          obtain ⟨hfits, hsame⟩ := h
          obtain rfl : text = word := by simpa using hsame
          obtain ⟨hne, hword, hcut⟩ := inlineStrToStr_cutArguments.mp hword
          refine ⟨hne, hword, hfits, hcut, fun hid => ?_⟩
          have := (verifyArgs_stringHandlers he hlen hargs (le_argumentCount e _)).mp hver
          rwa [if_pos hid] at this
        · rw [if_neg hver] at h
          exact absurd (Except.ok.inj h) (hlog _)
    · rintro ⟨hne, hword, hfits, hcut, hpreset⟩
      have hall : (cutArguments text).drop text.length = [] := by
        rw [cutArguments, if_neg hcut, List.drop_length]
      have hver : verifyArgs (stringHandlers font) e.id args (argumentCount e []) = true := by
        rw [verifyArgs_stringHandlers he hlen hargs (le_argumentCount e _)]
        by_cases hid : e.id = vimsChainEntrySetPreset
        · rw [if_pos hid]
          exact hpreset hid
        · rw [if_neg hid, argumentCount, if_pos (.inr (.inl rfl))]
      have hreceive : receive font e (some text) args log = _ := (receive_eq_ok he hlen hargs text _).mpr ⟨hfits, rfl⟩
      rw [inlineStrToStr_cutArguments.mpr ⟨hne, hword, hcut⟩, ok_bind]
      dsimp only
      rw [hall, if_pos hver, hreceive]

end Interpreter

/-- The address of a stream. -/
theorem receives_address :
    parseMsg (stringHandlers false) 1 (stringMessage 246 [5000] (lit "227.0.0.17") []) (.ok []) =
      .ok (.ok [(246, lit "227.0.0.17")]) := by
  have hfits : ∀ size, vjEventTagNewMcast.copies false = some size → (lit "227.0.0.17").length < size := by
    intro size hsize
    obtain rfl := Option.some.inj hsize
    decide
  exact (receives_iff (e := vjEventTagNewMcast) (by decide) (by decide) (by decide) (by decide) 0).mpr
    ⟨by decide, .inl (by decide), hfits, by decide, by decide⟩

/-- A description of a sample that has no room for its end. -/
theorem description_overruns :
    vjEventSampleSetDescr ∈ stringEvents ∧
      parseMsg (stringHandlers false) 1 (stringMessage 103 [1] (lit "A sample of the last set") []) (.ok []) =
        .ok (.error .overrun) := by
  refine ⟨by decide, ?_⟩
  decide

end Veejay.Vims
