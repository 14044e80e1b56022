import Veejay.CLib.Word
import Veejay.Hash.Table
import Veejay.Vims.Message

/-!
# Bundles and key bindings

The two registries of `vj-event.c`.  `BundleHash` holds the bundles under their ids, `keyboard_events` the events
that keys fire, under `modifier * SDLK_LAST + symbol`.  Beside them stand the flat map of the keys and `net_list`.

* `Dict` — a hash table whose keys are small integers; `get_insert`, `get_put`, `get_delete`;
* `vjEventRegisterKeybEvent`, `vjEventUnregisterKeybEvent`, `vjEventSingleFire` — the keys;
* `vjEventBundleNew`, `vjEventBundleStore`, `vjEventBundleDel` — the bundles.

A node of a table holds a pointer to its object; here it holds the object, and a change of the object is a change of
the node.
-/

namespace Veejay.Registry

open CLib Veejay.Hash Veejay.Vims

/-! ## Tables -/

/-- `(void*) tid` -/
def tid (x : ℤ) : UInt64 := UInt64.ofInt x

/-- A table whose hash function is the key itself (`int_bundle_hash`). -/
abbrev Dict (δ : Type) := Table UInt64 δ

variable {δ : Type}

/-- `hash_lookup` -/
def Dict.node (t : Dict δ) (x : ℤ) : Option (Node UInt64 δ) := hashLookup id (tid x) t

/-- `hnode_get (hash_lookup (…))` -/
def Dict.get (t : Dict δ) (x : ℤ) : Option δ := (t.node x).map Node.data

/-- `hash_insert` -/
def Dict.insert (t : Dict δ) (x : ℤ) (d : δ) : Dict δ := hashInsert id (tid x) d t

/-- The object of a node changes. -/
def Dict.put (t : Dict δ) (x : ℤ) (d : δ) : Dict δ :=
  match t.node x with
  | none => t
  | some n => hnodePut n d t

/-- `hash_delete (hash_lookup (…))` -/
def Dict.delete (t : Dict δ) (x : ℤ) : Dict δ :=
  match t.node x with
  | none => t
  | some n => hashDelete n t

/-- The table is in order. -/
abbrev Dict.Valid (t : Dict δ) : Prop := Hash.Valid id t

/-- `hash_create` -/
def Dict.create : Dict δ := hashCreate

theorem Dict.valid_create : (Dict.create : Dict δ).Valid := Hash.valid_create

theorem Dict.get_create (x : ℤ) : (Dict.create : Dict δ).get x = none := by
  rw [Dict.get, Option.map_eq_none_iff]
  exact (hashLookup_eq_none Hash.valid_create).mpr fun n hn => absurd hn not_holds_create

/-- The keys that the code uses. -/
def SmallKey (x : ℤ) : Prop := 0 ≤ x ∧ x < 2 ^ 31

instance (x : ℤ) : Decidable (SmallKey x) := inferInstanceAs (Decidable (_ ∧ _))

theorem tid_eq_iff {x y : ℤ} (hx : SmallKey x) (hy : SmallKey y) : tid x = tid y ↔ x = y := by
  constructor
  · intro h
    have hnat := congrArg UInt64.toNat h
    rw [tid, tid, uint64_toNat_ofInt, uint64_toNat_ofInt] at hnat
    rw [SmallKey] at hx hy
    omega
  · exact fun h => congrArg tid h

theorem Dict.get_eq_none {t : Dict δ} {x : ℤ} : t.get x = none ↔ t.node x = none := Option.map_eq_none_iff

theorem Dict.get_insert {t : Dict δ} (h : t.Valid) {x : ℤ} (hx : SmallKey x) (hnew : t.get x = none) (d : δ) :
    (t.insert x d).Valid ∧ ∀ y, SmallKey y → (t.insert x d).get y = if x = y then some d else t.get y := by
  have hnode : hashLookup id (tid x) t = none := Dict.get_eq_none.mp hnew
  refine ⟨valid_hashInsert h hnode, fun y hy => ?_⟩
  show Option.map Node.data (hashLookup id (tid y) (hashInsert id (tid x) d t)) = _
  rw [hashLookup_insert h hnode, if_congr (tid_eq_iff hx hy) rfl rfl]
  split_ifs
  · rfl
  · rfl

theorem Dict.get_put {t : Dict δ} (h : t.Valid) {x : ℤ} (hx : SmallKey x) {d₀ : δ} (hold : t.get x = some d₀) (d : δ) :
    (t.put x d).Valid ∧ ∀ y, SmallKey y → (t.put x d).get y = if x = y then some d else t.get y := by
  obtain ⟨n, hn, -⟩ := Option.map_eq_some_iff.mp hold
  have hput : t.put x d = hnodePut n d t := by rw [Dict.put, hn]
  rw [hput]
  refine ⟨valid_hnodePut h, fun y hy => ?_⟩
  show Option.map Node.data (hashLookup id (tid y) (hnodePut n d t)) = _
  rw [hashLookup_put h hn, if_congr (tid_eq_iff hx hy) rfl rfl]
  split_ifs
  · rfl
  · rfl

theorem Dict.get_delete {t : Dict δ} (h : t.Valid) {x : ℤ} (hx : SmallKey x) :
    (t.delete x).Valid ∧ ∀ y, SmallKey y → (t.delete x).get y = if x = y then none else t.get y := by
  cases hn : t.node x with
  | none =>
    have hdel : t.delete x = t := by rw [Dict.delete, hn]
    rw [hdel]
    refine ⟨h, fun y _ => ?_⟩
    split_ifs with hy
    · rw [← hy]
      exact Dict.get_eq_none.mpr hn
    · rfl
  | some n =>
    have hdel : t.delete x = hashDelete n t := by rw [Dict.delete, hn]
    rw [hdel]
    refine ⟨valid_hashDelete h, fun y hy => ?_⟩
    show Option.map Node.data (hashLookup id (tid y) (hashDelete n t)) = _
    rw [hashLookup_delete h hn, if_congr (tid_eq_iff hx hy) rfl rfl]
    split_ifs
    · rfl
    · rfl

/-! ## The registries -/

/-- `SDLK_LAST` -/
def sdlkLast : ℤ := 323

/-- The size of `keyboard_event_map_`. -/
def keyMapSize : ℤ := 2048

/-- `vj_msg_bundle` -/
structure Bundle where
  eventId : ℤ
  accelerator : ℤ
  modifier : ℤ
  bundle : CStr

/-- The pointer `arguments` of a keyboard event. -/
inductive Arguments where
  | null
  | text (t : CStr)
  | freed

/-- `vj_keyboard_event`, with `vims->list_id` -/
structure KeyboardEvent where
  listId : ℤ
  keySymbol : ℤ
  keyMod : ℤ
  argLen : ℤ
  arguments : Arguments
  eventId : ℤ

/-- The registries of the server. -/
structure Server where
  bundleHash : Dict Bundle
  keyboardEvents : Dict KeyboardEvent
  /-- the places of `keyboard_event_map_` that are not NULL -/
  keyMap : ℤ → Bool
  /-- `net_list[i].list_id` -/
  netList : ℤ → ℤ

/-- A server with nothing registered. -/
def emptyServer : Server := ⟨Dict.create, Dict.create, fun _ => false, fun _ => 0⟩

/-- What the table of events says. -/
structure EventTable where
  /-- `vj_event_exists` -/
  eventExists : ℤ → Bool
  /-- the ids of `vims.h` -/
  exists_range : ∀ id, eventExists id = true → 0 < id ∧ id < vimsBundleStart ∨ vimsBundleEnd < id ∧ id < vimsMax
  /-- `find_keyboard_default` -/
  findKeyboardDefault : ℤ → Option CStr

/-- `free (arguments)` -/
def freeArguments : Arguments → Exec Unit
  | .freed => .error .useAfterFree
  | _ => .ok ()

/-- `vj_event_bundle_get` -/
def vjEventBundleGet (s : Server) (eventId : ℤ) : Option Bundle := s.bundleHash.get eventId

/-- `vj_event_bundle_exists` -/
def vjEventBundleExists (s : Server) (eventId : ℤ) : Bool := (vjEventBundleGet s eventId).isSome

/-- The ids that are taken for those of bundles. -/
def isBundleId (eventId : ℤ) : Prop := vimsBundleStart ≤ eventId ∧ eventId < vimsBundleEnd

instance (eventId : ℤ) : Decidable (isBundleId eventId) := inferInstanceAs (Decidable (_ ∧ _))

/-! ### Keys -/

/-- `modifier * SDLK_LAST + symbol` -/
def keyIndex (symbol modifier : ℤ) : ℤ := modifier * sdlkLast + symbol

/-- The pointer to a text that may be missing. -/
def argumentsOf : Option CStr → Arguments
  | none => .null
  | some t => .text t

/-- `new_keyboard_event`: the event, where there is one, and the flat map. -/
def newKeyboardEvent (table : EventTable) (s : Server) (symbol modifier : ℤ) (value : Option CStr) (eventId : ℤ) :
    Exec (Option (KeyboardEvent × Server)) :=
  if eventId ≤ 0 then .ok none
  else
    let index := keyIndex symbol modifier
    if index < 0 ∨ keyMapSize ≤ index then .error .overrun
    else
      let text := match value with
        | some t => some t
        | none =>
          if eventId < vimsBundleStart ∨ vimsBundleEnd < eventId then table.findKeyboardDefault eventId else none
      let listId :=
        if table.eventExists eventId || vjEventBundleExists s eventId then eventId else 0
      .ok (some (⟨listId, symbol, modifier, (text.getD []).length, argumentsOf text, eventId⟩,
        { s with keyMap := Function.update s.keyMap index true }))

/-- The bundle drops or takes a key (`vj_event_bundle_update` changes nothing). -/
def setAccelerator (s : Server) (eventId symbol modifier : ℤ) : Server :=
  match vjEventBundleGet s eventId with
  | none => s
  | some m =>
    { s with bundleHash := s.bundleHash.put eventId { m with accelerator := symbol, modifier := modifier } }

/-- `vj_event_unregister_keyb_event` -/
def vjEventUnregisterKeybEvent (s : Server) (symbol modifier : ℤ) : Exec Server := do
  let index := keyIndex symbol modifier
  match s.keyboardEvents.get index with
  | none => .ok s
  | some ev => do
    let s := setAccelerator s ev.eventId 0 0
    freeArguments ev.arguments
    if index < 0 ∨ keyMapSize ≤ index then .error .overrun
    else
      .ok { s with
        keyMap := Function.update s.keyMap index false
        keyboardEvents := s.keyboardEvents.delete index }

/-- `vj_event_register_keyb_event` -/
def vjEventRegisterKeybEvent (table : EventTable) (s : Server) (eventId symbol modifier : ℤ) (value : Option CStr) :
    Exec (ℤ × Server) :=
  let index := keyIndex symbol modifier
  match s.keyboardEvents.get index with
  | some ff => do
    freeArguments ff.arguments
    let arguments := match value, ff.arguments with
      | some t, _ => .text t
      | none, .null => .null
      | none, _ => .freed
    -- `vims->list_id` stays as it is
    let ff := { ff with arguments := arguments, argLen := (value.getD []).length, eventId := eventId }
    .ok (1, { s with keyboardEvents := s.keyboardEvents.put index ff })
  | none =>
    if isBundleId eventId then
      match vjEventBundleGet s eventId with
      | none => .ok (0, s)
      | some _ => do
        let s := setAccelerator s eventId symbol modifier
        match ← newKeyboardEvent table s symbol modifier (some (decimalInt eventId)) eventId with
        | none => .ok (0, s)
        | some (ev, s) => .ok (1, { s with keyboardEvents := (s.keyboardEvents.delete index).insert index ev })
    else do
      match ← newKeyboardEvent table s symbol modifier value eventId with
      | none => .ok (0, s)
      | some (ev, s) => .ok (1, { s with keyboardEvents := (s.keyboardEvents.delete index).insert index ev })

/-- What a key does: nothing, a message for `vj_event_parse_msg`, or a bundle for `vj_event_parse_bundle`. -/
inductive Fired where
  | nothing
  | message (msg : CStr)
  | bundle (eventId : ℤ) (text : CStr)
  deriving DecidableEq

/-- The keys that are held down with another one. -/
structure SdlMod where
  shift : Bool
  alt : Bool
  ctrl : Bool
  caps : Bool

/-- The modifier: later tests overrule earlier ones. -/
def vimsMod (mod : SdlMod) : ℤ :=
  if mod.caps then 4 else if mod.ctrl then 2 else if mod.alt then 1 else if mod.shift then 3 else 0

/-- The size of `msg`. -/
def firedSize : ℕ := 100

/-- `sprintf (msg, "%03d:%s;", …)` -/
def firedMessage (eventId : ℤ) (arguments : CStr) : CStr := zeroPadded 3 eventId.toNat ++ lit ":" ++ arguments ++ lit ";"

/-- `vj_event_single_fire`, for a key -/
def vjEventSingleFire (s : Server) (mod : SdlMod) (sym : ℤ) : Exec Fired :=
  match s.keyboardEvents.get (vimsMod mod * sdlkLast + sym) with
  | none => .ok .nothing
  | some ev =>
    if isBundleId ev.listId then
      match vjEventBundleGet s ev.listId with
      | none => .ok .nothing
      | some bun => .ok (.bundle ev.listId bun.bundle)
    else
      let text := if 0 < ev.argLen then ev.arguments else .text []
      match text with
      | .freed => .error .useAfterFree
      | .null => .error .nullPointer
      | .text t =>
        let msg := firedMessage ev.listId t
        if firedSize ≤ msg.length then .error .overrun else .ok (.message msg)

/-! ### Bundles -/

/-- `vj_event_bundle_new` -/
def vjEventBundleNew (bundleMsg : CStr) (eventId : ℤ) : Option Bundle :=
  if bundleMsg.length < 1 then none else some ⟨eventId, 0, 0, bundleMsg⟩

/-- `net_list[i].list_id = …` -/
def setNetList (s : Server) (i listId : ℤ) : Exec Server :=
  if i < 0 ∨ vimsMax ≤ i then .error .overrun
  else .ok { s with netList := Function.update s.netList i listId }

/-- `vj_event_bundle_store`: where the bundle exists, `hnode_put` changes a node that is not in the table. -/
def vjEventBundleStore (s : Server) (m : Bundle) : Exec Server :=
  let s :=
    if !vjEventBundleExists s m.eventId then { s with bundleHash := s.bundleHash.insert m.eventId m } else s
  setNetList s m.eventId m.eventId

/-- `vj_event_bundle_del` -/
def vjEventBundleDel (s : Server) (eventId : ℤ) : Exec (ℤ × Server) :=
  match vjEventBundleGet s eventId with
  | none => .ok (-1, s)
  | some m => do
    let s ← setNetList s m.eventId 0
    let s ← vjEventUnregisterKeybEvent s m.accelerator m.modifier
    .ok (0, { s with bundleHash := s.bundleHash.delete eventId })

end Veejay.Registry
