import Veejay.CLib.Memory

/-!
# VIMS messages and bundles

`vj_event_parse_msg` interprets one message of the form `082:500 text;`: it scans the id of an event and its
arguments and fires the event.  A bundle is a text `BUN:002{101:;500:;}` of several messages; it is interpreted
where it is sent, where its id is used as the id of an event (500 to 598) and where `VIMS_BUNDLE` names it.  The
messages of a bundle are interpreted by `vj_event_parse_msg` again.

* `Events` — what the interpreter finds in the server: the registered bundles and the table of events;
* `Selected`, `select` — what a message asks for;
* `bundleLoop`, `parseBundle` — the messages of a bundle, one after the other;
* `parseMsg` — `vj_event_parse_msg`, with a bound on how deep bundles are nested.
-/

namespace Veejay.Vims

open CLib

/-- `MSG_MIN_LEN` -/
def msgMinLen : ℤ := 4

/-- `VIMS_BUNDLE_START` -/
def vimsBundleStart : ℤ := 500

/-- `VIMS_BUNDLE_END` -/
def vimsBundleEnd : ℤ := 599

/-- `VIMS_MAX` -/
def vimsMax : ℤ := 602

/-- `VIMS_BUNDLE` -/
def vimsBundle : ℤ := 80

/-- `VIMS_BUNDLE_ADD` -/
def vimsBundleAdd : ℤ := 82

/-- `VIMS_CHAIN_ENTRY_SET_PRESET` -/
def vimsChainEntrySetPreset : ℤ := 361

/-- The size of `atomic_msg`. -/
def atomicSize : ℕ := 256

/-- A message: the bytes from `msg` to the end of the object that holds it, and `msg_len`. -/
structure Message where
  bytes : List UInt8
  len : ℤ
  deriving DecidableEq, Repr

/-- The text of a message, up to its zero byte. -/
def Message.text (m : Message) : CStr := cstring m.bytes

/-- A text as it is passed with `strlen` as its length, in an object of its own. -/
def message (t : CStr) : Message := ⟨t ++ [0], t.length⟩

/-- A message of a bundle in `atomic_msg`. -/
def atomic (t : CStr) : Message := ⟨t ++ List.replicate (atomicSize - t.length) 0, t.length⟩

/-- What the interpreter finds in a server in state `S`, and the functions of the events. -/
structure Events (S : Type) where
  /-- `vj_event_bundle_get`: the block with the text of a registered bundle -/
  bundleGet : S → ℤ → Option ℕ
  /-- the text in a block that is allocated -/
  textAt : S → ℕ → Option CStr
  /-- `vj_event_vevo_get_num_args` -/
  numArgs : ℤ → ℕ
  /-- `vj_event_vevo_get_event_format` -/
  format : ℤ → CStr
  /-- `vj_event_vevo_get_default_value` -/
  defaultValue : ℤ → ℕ → ℤ
  /-- `VIMS_ALLOW_ANY` of `vj_event_vevo_get_flags` -/
  allowAny : ℤ → Bool
  /-- `VIMS_LONG_PARAMS` -/
  longParams : ℤ → Bool
  /-- `VIMS_REQUIRE_ALL_PARAMS` -/
  requireAll : ℤ → Bool
  /-- `vj_event_vevo_inline_fire`, for the events that are not `VIMS_BUNDLE` -/
  fire : ℤ → Option CStr → List (Option ℤ) → S → S
  /-- `vj_event_parse_kf` -/
  parseKf : Message → S → S
  /-- `store_macro_`, where a macro is recorded and the event is valid for one -/
  storeMacro : ℤ → CStr → S → S

/-- What a message asks for. -/
inductive Selected (S : Type) where
  /-- nothing: the message is dropped -/
  | nothing
  /-- the messages of the bundle in these bytes -/
  | sent (bytes : List UInt8)
  /-- the messages of the registered bundle in a block -/
  | registered (block : ℕ)
  /-- something that changes the server -/
  | event (act : S → S)

section Message

variable {S : Type}

/-- `veejay_chomp_str` -/
def chompStr (m : Message) : Message :=
  if 1 < m.text.length ∧ m.text.getLast? = some newline then
    ⟨m.bytes.set (m.text.length - 1) 0, m.text.length - 1⟩
  else m

/-- `toupper` -/
def toUpper (c : UInt8) : UInt8 := if 97 ≤ c ∧ c ≤ 122 then c - 32 else c

/-- `strncasecmp(msg, word, 3) == 0`, for a word of three capitals. -/
def startsWith (word : String) (t : CStr) : Bool := (t.take 3).map toUpper = lit word

/-- `inline_str_to_str`: the argument, where there is one. -/
def inlineStrToStr (long : Bool) (msg : CStr) : Exec (Option CStr) :=
  if msg = [] then .ok none
  else if long then .ok (some msg)
  else
    let word := (msg.dropWhile isSpace).takeWhile fun c => !isSpace c
    if word = [] then .ok none
    -- `%256s` stores 256 bytes and a zero byte into `char str[256]`
    else if 256 ≤ word.length then .error .overrun
    else .ok (some word)

/-- The arguments of a message from number `i` on: how many there are, the string and the numbers; `none` where
one of them is invalid. -/
def scanArgs (ev : Events S) (id : ℤ) :
    ℕ → ℕ → ℕ → CStr → Option CStr → List (Option ℤ) → Exec (Option (ℕ × Option CStr × List (Option ℤ)))
  | 0, i, _, _, str, args => .ok (some (i + 1, str, args))
  | left + 1, i, fmtOffset, arguments, str, args => do
      let kind := (ev.format id)[fmtOffset]?
      let next (rest : CStr) (str : Option CStr) (args : List (Option ℤ)) :=
        match rest with
        | [] => .ok (some (i + 1, str, args))
        | c :: rest' =>
          if c = 59 then .ok (some (i + 1, str, args))
          else scanArgs ev id left (i + 1) (fmtOffset + 3) (if c = 32 then rest' else rest) str args
      if kind = some 100 then
        match scanInt arguments with
        | .val v rest => next rest str (args.set i (some (intValue v)))
        | _ => .ok none
      else if kind = some 115 ∧ str = none then do
        match ← inlineStrToStr (ev.longParams id) arguments with
        | some word => next (arguments.drop word.length) (some word) args
        | none => .ok none
      else .ok none

/-- `vj_event_verify_args` -/
def verifyArgs (ev : Events S) (id : ℤ) (args : List (Option ℤ)) (arglen : ℕ) : Bool :=
  if id ≠ vimsChainEntrySetPreset then arglen = ev.numArgs id
  else 3 ≤ arglen && match args[2]? with
    | some (some fxId) => 0 < fxId
    | _ => false

/-- The loop of `vj_event_fire_net_event` over the arguments: every string is there, and is not empty where
all arguments are required. -/
def stringsThere (ev : Events S) (id : ℤ) (str : Option CStr) (arglen : ℕ) : Bool :=
  (List.range arglen).all fun i =>
    (ev.format id)[1 + 3 * i]? ≠ some 115 ||
      match str with
      | none => false
      | some t => !(ev.requireAll id && t.isEmpty)

/-- `vj_event_fire_net_event`; `vj_event_do_bundled_msg` is the function of `VIMS_BUNDLE`. -/
def fireNetEvent (ev : Events S) (get : ℤ → Option ℕ) (id : ℤ) (str : Option CStr) (args : List (Option ℤ))
    (arglen : ℕ) (before after : S → S) : Selected S :=
  if !verifyArgs ev id args arglen then .event fun s => after (before s)
  else if ev.numArgs id ≠ 0 ∧ !stringsThere ev id str arglen then .event fun s => after (before s)
  else if id = vimsBundle then
    -- `valid_for_macro` is zero for this event
    match args[0]? with
    | some (some n) => match get n with
      | some block => .registered block
      | none => .nothing
    | _ => .nothing
  else .event fun s => after (ev.fire id str args (before s))

/-- What a message that selects the event `id` asks for; `get` is `vj_event_bundle_get`. -/
def selectEvent (ev : Events S) (get : ℤ → Option ℕ) (id : ℤ) (m : Message) : Exec (Selected S) := do
  let np := ev.numArgs id
  let len := m.len - 1
  if len ≤ msgMinLen then
    let args := (List.range np).map fun i => some (ev.defaultValue id i)
    .ok (fireNetEvent ev get id none args np (fun s => s) (ev.storeMacro id m.text))
  else
    let c ← byteAt m.bytes (len - 4)
    let n := if c = 59 then 5 else 4
    let arguments ← slice m.bytes 4 (len - n).toNat
    if np = 0 then .ok .nothing
    else
      let first := (ev.format id)[1]?
      let args := (List.range np).map fun i => if first = some 100 then some (ev.defaultValue id i) else none
      match ← scanArgs ev id np 0 1 (cstring arguments) none args with
      | none => .ok .nothing
      | some (i, str, args) =>
        let i := if ev.allowAny id then np else i
        .ok (fireNetEvent ev get id str args i (ev.storeMacro id m.text) fun s => s)

/-- What a message asks for. -/
def select (ev : Events S) (get : ℤ → Option ℕ) (m : Message) : Exec (Selected S) :=
  if m.len < msgMinLen then .ok .nothing
  else if startsWith "BUN" m.text then .ok (.sent (chompStr m).bytes)
  else if startsWith "KEY" m.text then .ok (.event (ev.parseKf m))
  else
    let m := chompStr m
    match scanField 3 m.text with
    | .val id _ =>
      if id ≤ 0 ∨ vimsMax ≤ id then .ok .nothing
      else if vimsBundleStart ≤ id ∧ id < vimsBundleEnd then
        match get id with
        | some block => .ok (.registered block)
        | none => .ok .nothing
      else selectEvent ev get id m
    | _ => .ok .nothing

/-! ## Interpretation -/

/-- The messages of a bundle.  After a message the loop's `j++` runs as well, so the first byte of the next one
is not looked at.  `held` tells whether the bundle's text is still allocated. -/
def bundleLoop (parse : Message → S → Exec S) (held : S → Bool) : Bool → CStr → CStr → S → Exec S
  | _, _, [], s => .ok s
  | true, _, c :: rest, s => bundleLoop parse held false [c] rest s
  | false, seen, c :: rest, s =>
    if c = 125 then .ok s
    else if c = 59 then
      if atomicSize ≤ (seen ++ [c]).length then .error .overrun
      else do
        let s ← parse (atomic (seen ++ [c])) s
        if held s then bundleLoop parse held true [] rest s else .error .useAfterFree
    else bundleLoop parse held false (seen ++ [c]) rest s

/-- The number of messages that a bundle says it has; 0 where there is none. -/
def numMsg (bytes : List UInt8) : ℤ :=
  match scanField 3 (cstring (bytes.drop 4)) with
  | .val v _ => v
  | _ => 0

/-- `vj_event_parse_bundle`.  The first round of its `for` runs to the end of the text or returns; where it ends,
`offset + j` is behind the text and the later rounds do nothing. -/
def parseBundle (parse : Message → S → Exec S) (held : S → Bool) (bytes : List UInt8) (s : S) : Exec S := do
  let c ← byteAt bytes 3
  if c = 58 then
    if numMsg bytes ≤ 0 then .ok s
    else do
      let c ← byteAt bytes 7
      if c = 123 then bundleLoop parse held false [] ((cstring bytes).drop 8) s else .ok s
  else .ok s

/-- `vj_event_parse_msg`, where at most `fuel` messages are nested. -/
def parseMsg (ev : Events S) : ℕ → Message → S → Exec S
  | 0, _, _ => .error .outOfFuel
  | fuel + 1, m, s => do
    match ← select ev (ev.bundleGet s) m with
    | .nothing => .ok s
    | .event act => .ok (act s)
    | .sent bytes => parseBundle (parseMsg ev fuel) (fun _ => true) bytes s
    | .registered block =>
      match ev.textAt s block with
      | none => .error .useAfterFree
      | some t => parseBundle (parseMsg ev fuel) (fun s' => ev.textAt s' block == some t) (t ++ [0]) s

/-- The interpretation of a message returns. -/
def Returns (ev : Events S) (m : Message) (s : S) : Prop := ∃ fuel s', parseMsg ev fuel m s = .ok s'

end Message

end Veejay.Vims
