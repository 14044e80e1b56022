import Veejay.Vims.Registry

/-!
# Key bindings follow the last registration

`vj_event_register_keyb_event` and `vj_event_unregister_keyb_event`, call after call.  Where a key is bound already,
registering it anew changes the event's arguments and `event_id`, but not `vims->list_id`, which is what
`vj_event_single_fire` reads.

* `Binding`, `history` — what the calls say of a key;
* `Agrees` — the tables and the history; `keyStep_agrees` is the step, `run_agrees` the run;
* `singleFire_first` — a key fires the event that bound it first;
* `singleFire_follows_iff` — exactly which keys fire the last registration;
* `singleFire_stale` — a key bound twice.
-/

namespace Veejay.Registry

open CLib Veejay.Vims

/-! ## Calls -/

/-- A call. -/
inductive KeyOp where
  | register (eventId symbol modifier : ℤ) (text : CStr)
  | unregister (symbol modifier : ℤ)

/-- The key and the modifier that the code knows. -/
def ValidKey (symbol modifier : ℤ) : Prop := 0 ≤ symbol ∧ symbol < sdlkLast ∧ 0 ≤ modifier ∧ modifier ≤ 4

/-- An event, or a bundle that exists. -/
def Names (table : EventTable) (s : Server) (eventId : ℤ) : Prop :=
  table.eventExists eventId = true ∨ isBundleId eventId ∧ vjEventBundleExists s eventId = true

def KeyOp.Ok (table : EventTable) (s : Server) : KeyOp → Prop
  | .register eventId symbol modifier _ => Names table s eventId ∧ ValidKey symbol modifier
  | .unregister symbol modifier => ValidKey symbol modifier

def keyStep (table : EventTable) (s : Server) : KeyOp → Exec (ℤ × Server)
  | .register eventId symbol modifier text => vjEventRegisterKeybEvent table s eventId symbol modifier (some text)
  | .unregister symbol modifier => do
    let s ← vjEventUnregisterKeybEvent s symbol modifier
    .ok (0, s)

/-! ## Histories -/

/-- What the calls since the last unregistration say: the first event, the last one, and its text. -/
structure Binding where
  first : ℤ
  last : ℤ
  text : CStr
  deriving DecidableEq

/-- The bindings after one more call. -/
def note (h : ℤ → Option Binding) : KeyOp → ℤ → Option Binding
  | .register eventId symbol modifier text =>
    let index := keyIndex symbol modifier
    let first := match h index with
      | none => eventId
      | some b => b.first
    Function.update h index (some ⟨first, eventId, text⟩)
  | .unregister symbol modifier => Function.update h (keyIndex symbol modifier) none

/-- The bindings after a list of calls. -/
def history (ops : List KeyOp) : ℤ → Option Binding := ops.foldl note fun _ => none

/-- The event or the bundle, dispatched. -/
def dispatched (s : Server) (eventId : ℤ) (text : CStr) : Fired :=
  if isBundleId eventId then
    match vjEventBundleGet s eventId with
    | none => .nothing
    | some bun => .bundle eventId bun.bundle
  else .message (firedMessage eventId text)

/-- What a key is to do: the last registration, where there is one. -/
def lastRegistration (s : Server) : Option Binding → Fired
  | none => .nothing
  | some b => dispatched s b.last b.text

/-! ## Keys and ids -/

theorem ValidKey.index {symbol modifier : ℤ} (h : ValidKey symbol modifier) :
    SmallKey (keyIndex symbol modifier) ∧ ¬ (keyIndex symbol modifier < 0 ∨ keyMapSize ≤ keyIndex symbol modifier) := by
  obtain ⟨hlo, hhi, hmod, hmod4⟩ := h
  rw [sdlkLast] at hhi
  rw [SmallKey, keyIndex, keyMapSize, sdlkLast]
  omega

theorem vimsMod_range (mod : SdlMod) : 0 ≤ vimsMod mod ∧ vimsMod mod ≤ 4 := by
  rw [vimsMod]
  split_ifs <;> omega

theorem Names.range {table : EventTable} {s : Server} {eventId : ℤ} (h : Names table s eventId) :
    0 < eventId ∧ eventId < vimsMax := by
  rcases h with h | ⟨⟨hlo, hhi⟩, -⟩
  · have hrange := table.exists_range eventId h
    simp only [vimsBundleStart, vimsBundleEnd, vimsMax] at hrange ⊢
    omega
  · simp only [vimsBundleStart, vimsBundleEnd, vimsMax] at hlo hhi ⊢
    omega

theorem Names.smallKey {table : EventTable} {s : Server} {eventId : ℤ} (h : Names table s eventId) :
    SmallKey eventId := by
  have hrange := h.range
  rw [vimsMax] at hrange
  rw [SmallKey]
  omega

/-- An id in the range of bundles names a bundle. -/
theorem Names.bundle {table : EventTable} {s : Server} {eventId : ℤ} (h : Names table s eventId)
    (hid : isBundleId eventId) : ∃ m, vjEventBundleGet s eventId = some m := by
  rcases h with h | ⟨-, h⟩
  · obtain ⟨hlo, hhi⟩ := hid
    have hrange := table.exists_range eventId h
    omega
  · exact Option.isSome_iff_exists.mp h

/-- An id outside that range names an event. -/
theorem Names.event {table : EventTable} {s : Server} {eventId : ℤ} (h : Names table s eventId)
    (hid : ¬ isBundleId eventId) : table.eventExists eventId = true :=
  h.resolve_right fun hb => hid hb.1

/-! ## Agreement -/

/-- The bundles and their texts are those of the start. -/
def SameTexts (s₀ s : Server) : Prop :=
  ∀ id, SmallKey id → (vjEventBundleGet s id).map Bundle.bundle = (vjEventBundleGet s₀ id).map Bundle.bundle

/-- An event of the table, and what the calls say of its key. -/
def KeyAgrees (table : EventTable) (s₀ : Server) : Option KeyboardEvent → Option Binding → Prop
  | none, none => True
  | some ev, some b =>
    ev.listId = b.first ∧ ev.eventId = b.last ∧ Names table s₀ b.first ∧ Names table s₀ b.last ∧
      ∃ t, ev.arguments = .text t ∧ ev.argLen = t.length ∧ (isBundleId b.first ∨ t = b.text)
  | _, _ => False

/-- The tables agree with the history. -/
structure Agrees (table : EventTable) (s₀ s : Server) (h : ℤ → Option Binding) : Prop where
  bundles : s.bundleHash.Valid
  keys : s.keyboardEvents.Valid
  texts : SameTexts s₀ s
  agree : ∀ i, SmallKey i → KeyAgrees table s₀ (s.keyboardEvents.get i) (h i)

theorem SameTexts.get {s₀ s : Server} (h : SameTexts s₀ s) {id : ℤ} (hid : SmallKey id) {m : Bundle}
    (hm : vjEventBundleGet s₀ id = some m) : ∃ m', vjEventBundleGet s id = some m' ∧ m'.bundle = m.bundle := by
  have hmap := h id hid
  rw [hm] at hmap
  exact Option.map_eq_some_iff.mp hmap

/-- A bundle that drops or takes a key keeps its text. -/
theorem setAccelerator_texts {s : Server} (hvalid : s.bundleHash.Valid) {eventId : ℤ} (hid : SmallKey eventId)
    (symbol modifier : ℤ) :
    (setAccelerator s eventId symbol modifier).bundleHash.Valid ∧
      SameTexts s (setAccelerator s eventId symbol modifier) ∧
      (setAccelerator s eventId symbol modifier).keyboardEvents = s.keyboardEvents := by
  cases hm : vjEventBundleGet s eventId with
  | none =>
    have hset : setAccelerator s eventId symbol modifier = s := by rw [setAccelerator, hm]
    rw [hset]
    exact ⟨hvalid, fun _ _ => rfl, rfl⟩
  | some m =>
    obtain ⟨hput, hget⟩ := Dict.get_put hvalid hid hm { m with accelerator := symbol, modifier := modifier }
    have hset : setAccelerator s eventId symbol modifier =
        { s with bundleHash := s.bundleHash.put eventId { m with accelerator := symbol, modifier := modifier } } := by
      rw [setAccelerator, hm]
    rw [hset]
    refine ⟨hput, fun id hid' => ?_, rfl⟩
    show Option.map _ ((s.bundleHash.put eventId _).get id) = _
    rw [hget id hid']
    split_ifs with heq
    · rw [← heq, hm]
      rfl
    · rfl

theorem SameTexts.trans {s₀ s s' : Server} (h : SameTexts s₀ s) (h' : SameTexts s s') : SameTexts s₀ s' :=
  fun id hid => (h' id hid).trans (h id hid)

/-- The event that a registration makes. -/
theorem newKeyboardEvent_names {table : EventTable} {s : Server} {symbol modifier eventId : ℤ} (text : CStr)
    (hkey : ValidKey symbol modifier) (hpos : 0 < eventId)
    (hexists : table.eventExists eventId = true ∨ vjEventBundleExists s eventId = true) :
    newKeyboardEvent table s symbol modifier (some text) eventId =
      .ok (some (⟨eventId, symbol, modifier, text.length, .text text, eventId⟩,
        { s with keyMap := Function.update s.keyMap (keyIndex symbol modifier) true })) := by
  have hor : (table.eventExists eventId || vjEventBundleExists s eventId) = true := by
    rw [Bool.or_eq_true]
    exact hexists
  rw [newKeyboardEvent, if_neg (by omega)]
  show (if _ then _ else _) = _
  rw [if_neg hkey.index.2, hor]
  rfl

/-- The table after one event of it changed. -/
theorem agree_update {table : EventTable} {s₀ : Server} {keys keys' : Dict KeyboardEvent} {h : ℤ → Option Binding}
    {index : ℤ} {ev : Option KeyboardEvent} {b : Option Binding}
    (hagree : ∀ i, SmallKey i → KeyAgrees table s₀ (keys.get i) (h i))
    (hget : ∀ i, SmallKey i → keys'.get i = if index = i then ev else keys.get i) (hb : KeyAgrees table s₀ ev b) :
    ∀ i, SmallKey i → KeyAgrees table s₀ (keys'.get i) (Function.update h index b i) := by
  intro i hi
  rw [hget i hi, Function.update_apply]
  by_cases hidx : index = i
  · rw [if_pos hidx, if_pos hidx.symm]
    exact hb
  · rw [if_neg hidx, if_neg (Ne.symm hidx)]
    exact hagree i hi

/-! ## Steps -/

theorem unregister_agrees {table : EventTable} {s₀ s : Server} {h : ℤ → Option Binding} (hs : Agrees table s₀ s h)
    {symbol modifier : ℤ} (hkey : ValidKey symbol modifier) :
    Ensures (vjEventUnregisterKeybEvent s symbol modifier) fun s' =>
      Agrees table s₀ s' (Function.update h (keyIndex symbol modifier) none) := by
  obtain ⟨hsmall, hmap⟩ := hkey.index
  have hagree := hs.agree _ hsmall
  cases hev : s.keyboardEvents.get (keyIndex symbol modifier) with
  | none =>
    have hun : vjEventUnregisterKeybEvent s symbol modifier = .ok s := by
      simp only [vjEventUnregisterKeybEvent, hev]
    refine ⟨s, hun, hs.bundles, hs.keys, hs.texts, @agree_update _ _ _ _ _ _ none _ hs.agree (fun i _ => ?_) trivial⟩
    split_ifs with hi
    · rw [← hi, hev]
    · rfl
  | some ev =>
    rw [hev] at hagree
    cases hb : h (keyIndex symbol modifier) with
    | none =>
      rw [hb] at hagree
      exact hagree.elim
    | some b =>
      rw [hb] at hagree
      obtain ⟨-, hlast, -, hnames, t, ht, -, -⟩ := hagree
      obtain ⟨hvalid, htexts, hkeys⟩ := setAccelerator_texts hs.bundles (hlast ▸ hnames.smallKey) 0 0
      obtain ⟨hdel, hget⟩ := Dict.get_delete hs.keys hsmall
      have hun : vjEventUnregisterKeybEvent s symbol modifier =
          .ok { setAccelerator s ev.eventId 0 0 with
            keyMap := Function.update (setAccelerator s ev.eventId 0 0).keyMap (keyIndex symbol modifier) false
            keyboardEvents := s.keyboardEvents.delete (keyIndex symbol modifier) } := by
        simp only [vjEventUnregisterKeybEvent, hev, ht, freeArguments, ok_bind, if_neg hmap, hkeys]
      exact ⟨_, hun, hvalid, hdel, hs.texts.trans htexts, @agree_update _ _ _ _ _ _ none _ hs.agree hget trivial⟩

/-- A new event in the table. -/
theorem insert_agrees {table : EventTable} {s₀ s : Server} {h : ℤ → Option Binding} (hs : Agrees table s₀ s h)
    {symbol modifier eventId : ℤ} {text t : CStr} (hkey : ValidKey symbol modifier) (hnames : Names table s₀ eventId)
    (hfirst : h (keyIndex symbol modifier) = none) (ht : isBundleId eventId ∨ t = text)
    {s' : Server} (hvalid : s'.bundleHash.Valid) (htexts : SameTexts s₀ s')
    (hkeys : s'.keyboardEvents = (s.keyboardEvents.delete (keyIndex symbol modifier)).insert
      (keyIndex symbol modifier) ⟨eventId, symbol, modifier, t.length, .text t, eventId⟩) :
    Agrees table s₀ s' (note h (.register eventId symbol modifier text)) := by
  have hsmall := hkey.index.1
  obtain ⟨hdel, hgetd⟩ := Dict.get_delete hs.keys hsmall
  have hnone : (s.keyboardEvents.delete (keyIndex symbol modifier)).get (keyIndex symbol modifier) = none := by
    rw [hgetd _ hsmall, if_pos rfl]
  obtain ⟨hins, hget⟩ := Dict.get_insert hdel hsmall hnone
    (⟨eventId, symbol, modifier, t.length, .text t, eventId⟩ : KeyboardEvent)
  have hnote : note h (.register eventId symbol modifier text) =
      Function.update h (keyIndex symbol modifier) (some ⟨eventId, eventId, text⟩) := by
    simp only [note, hfirst]
  rw [hnote]
  rw [← hkeys] at hins hget
  refine ⟨hvalid, hins, htexts, @agree_update _ _ _ _ _ _
    (some ⟨eventId, symbol, modifier, t.length, .text t, eventId⟩) _ hs.agree (fun i hi => ?_)
    ⟨rfl, rfl, hnames, hnames, t, rfl, rfl, ht⟩⟩
  rw [hget i hi]
  split_ifs with hidx
  · rfl
  · rw [hgetd i hi, if_neg hidx]

theorem register_agrees {table : EventTable} {s₀ s : Server} {h : ℤ → Option Binding} (hs : Agrees table s₀ s h)
    {eventId symbol modifier : ℤ} (text : CStr) (hnames : Names table s₀ eventId) (hkey : ValidKey symbol modifier) :
    Ensures (vjEventRegisterKeybEvent table s eventId symbol modifier (some text)) fun a =>
      Agrees table s₀ a.2 (note h (.register eventId symbol modifier text)) := by
  obtain ⟨hsmall, hmap⟩ := hkey.index
  have hagree := hs.agree _ hsmall
  cases hev : s.keyboardEvents.get (keyIndex symbol modifier) with
  | some ev =>
    -- the key is bound: the node's event takes the text, and keeps its `list_id`
    rw [hev] at hagree
    cases hb : h (keyIndex symbol modifier) with
    | none =>
      rw [hb] at hagree
      exact hagree.elim
    | some b =>
      rw [hb] at hagree
      obtain ⟨hfirst, -, hnfirst, -, t, ht, -, -⟩ := hagree
      obtain ⟨hput, hget⟩ := Dict.get_put hs.keys hsmall hev
        ({ ev with arguments := .text text, argLen := text.length, eventId := eventId } : KeyboardEvent)
      have hreg : vjEventRegisterKeybEvent table s eventId symbol modifier (some text) =
          .ok (1, ⟨s.bundleHash, s.keyboardEvents.put (keyIndex symbol modifier)
            { ev with arguments := .text text, argLen := text.length, eventId := eventId }, s.keyMap, s.netList⟩) := by
        simp only [vjEventRegisterKeybEvent, hev, ht, freeArguments, ok_bind, Option.getD_some]
      have hnote : note h (.register eventId symbol modifier text) =
          Function.update h (keyIndex symbol modifier) (some ⟨b.first, eventId, text⟩) := by
        simp only [note, hb]
      rw [hnote]
      exact ⟨_, hreg, hs.bundles, hput, hs.texts,
        agree_update hs.agree hget ⟨hfirst, rfl, hnfirst, hnames, text, rfl, rfl, .inr rfl⟩⟩
  | none =>
    rw [hev] at hagree
    have hfirst : h (keyIndex symbol modifier) = none := by
      cases hb : h (keyIndex symbol modifier) with
      | none => rfl
      | some b =>
        rw [hb] at hagree
        exact hagree.elim
    by_cases hbundle : isBundleId eventId
    · -- a bundle: it takes the key, and the event's text is the id
      obtain ⟨m₀, hm₀⟩ := hnames.bundle hbundle
      obtain ⟨m, hm, -⟩ := hs.texts.get hnames.smallKey hm₀
      obtain ⟨hvalid, htexts, hkeys⟩ := setAccelerator_texts hs.bundles hnames.smallKey symbol modifier
      obtain ⟨m', hm', -⟩ := htexts.get hnames.smallKey hm
      have hnew := @newKeyboardEvent_names table _ _ _ _ (decimalInt eventId) hkey hnames.range.1
        (.inr (Option.isSome_iff_exists.mpr ⟨m', hm'⟩))
      have hreg : vjEventRegisterKeybEvent table s eventId symbol modifier (some text) =
          .ok (1, { setAccelerator s eventId symbol modifier with
            keyMap := Function.update (setAccelerator s eventId symbol modifier).keyMap (keyIndex symbol modifier) true
            keyboardEvents := (s.keyboardEvents.delete (keyIndex symbol modifier)).insert (keyIndex symbol modifier)
              ⟨eventId, symbol, modifier, (decimalInt eventId).length, .text (decimalInt eventId), eventId⟩ }) := by
        simp only [vjEventRegisterKeybEvent, hev, if_pos hbundle, hm, hnew, ok_bind, hkeys]
      exact ⟨_, hreg, insert_agrees hs hkey hnames hfirst (.inl hbundle) hvalid (hs.texts.trans htexts) rfl⟩
    · have hnew := newKeyboardEvent_names (s := s) text hkey hnames.range.1 (.inl (hnames.event hbundle))
      have hreg : vjEventRegisterKeybEvent table s eventId symbol modifier (some text) =
          .ok (1, { s with
            keyMap := Function.update s.keyMap (keyIndex symbol modifier) true
            keyboardEvents := (s.keyboardEvents.delete (keyIndex symbol modifier)).insert (keyIndex symbol modifier)
              ⟨eventId, symbol, modifier, text.length, .text text, eventId⟩ }) := by
        simp only [vjEventRegisterKeybEvent, hev, if_neg hbundle, hnew, ok_bind]
      exact ⟨_, hreg, insert_agrees hs hkey hnames hfirst (.inr rfl) hs.bundles hs.texts rfl⟩

/-- **One call.** -/
theorem keyStep_agrees {table : EventTable} {s₀ s : Server} {h : ℤ → Option Binding} (op : KeyOp)
    (hs : Agrees table s₀ s h) (hok : op.Ok table s₀) :
    Ensures (keyStep table s op) fun a => Agrees table s₀ a.2 (note h op) := by
  cases op with
  | register eventId symbol modifier text => exact register_agrees hs text hok.1 hok.2
  | unregister symbol modifier =>
    rw [keyStep, ensures_bind]
    exact (unregister_agrees hs hok).mono fun s' hs' => (ensures_ok _ _).mpr hs'

/-- The tables are in order, and no key is bound. -/
structure NoKeys (s : Server) : Prop where
  bundles : s.bundleHash.Valid
  keys : s.keyboardEvents.Valid
  none : ∀ i, SmallKey i → s.keyboardEvents.get i = none

/-- **Every run of calls.** -/
theorem run_agrees {table : EventTable} {s₀ : Server} (hs₀ : NoKeys s₀) (ops : List KeyOp)
    (hok : ∀ op ∈ ops, op.Ok table s₀) :
    Ensures (runOps (keyStep table) s₀ ops) fun a => Agrees table s₀ a.2 (history ops) := by
  have hstart : Agrees table s₀ s₀ fun _ => none :=
    ⟨hs₀.bundles, hs₀.keys, fun _ _ => rfl, fun i hi => by rw [hs₀.none i hi]; trivial⟩
  have hmeets : HistoryMeets note (fun _ op => op.Ok table s₀ ∧ True) (fun _ => none) ops :=
    (historyMeets_of_forall (fun _ _ => trivial) ops _).and_of_mem hok
  exact runOps_refines (fun s m op hs hop => keyStep_agrees op hs hop.1) ops s₀ _ hstart hmeets

/-! ## Firing -/

/-- A message tells its event. -/
theorem firedMessage_inj {a b : ℤ} {t u : CStr} (ha : 0 < a ∧ a < vimsMax) (hb : 0 < b ∧ b < vimsMax)
    (h : firedMessage a t = firedMessage b u) : a = b := by
  rw [vimsMax] at ha hb
  have hlen : (zeroPadded 3 a.toNat).length = (zeroPadded 3 b.toNat).length := by
    rw [zeroPadded_length (by decide) (by omega), zeroPadded_length (by decide) (by omega)]
  simp only [firedMessage, List.append_assoc] at h
  have hdigits := congrArg digitsValue (List.append_inj h hlen).1
  rw [digitsValue_zeroPadded, digitsValue_zeroPadded] at hdigits
  omega

theorem firedMessage_length {a : ℤ} (ha : 0 < a ∧ a < vimsMax) (t : CStr) :
    (firedMessage a t).length = t.length + 5 := by
  rw [vimsMax] at ha
  have hlen := zeroPadded_length (w := 3) (n := a.toNat) (by decide) (by omega)
  simp only [firedMessage, List.length_append, hlen]
  show 3 + 1 + t.length + 1 = _
  omega

/-- **A bound key fires its first event**, with the last text; a text that is too long leaves `msg`. -/
theorem singleFire_first {table : EventTable} {s₀ s : Server} {h : ℤ → Option Binding} (hs : Agrees table s₀ s h)
    (mod : SdlMod) {sym : ℤ} (hsym : 0 ≤ sym ∧ sym < sdlkLast) :
    vjEventSingleFire s mod sym =
      match h (keyIndex sym (vimsMod mod)) with
      | none => .ok .nothing
      | some b =>
        if ¬ isBundleId b.first ∧ 94 < b.text.length then .error .overrun
        else .ok (dispatched s₀ b.first b.text) := by
  have hkey : ValidKey sym (vimsMod mod) := ⟨hsym.1, hsym.2, vimsMod_range mod⟩
  have hagree := hs.agree _ hkey.index.1
  rw [keyIndex] at hagree ⊢
  cases hev : s.keyboardEvents.get (vimsMod mod * sdlkLast + sym) with
  | none =>
    rw [hev] at hagree
    cases hb : h (vimsMod mod * sdlkLast + sym) with
    | none => simp only [vjEventSingleFire, hev]
    | some b =>
      rw [hb] at hagree
      exact hagree.elim
  | some ev =>
    rw [hev] at hagree
    cases hb : h (vimsMod mod * sdlkLast + sym) with
    | none =>
      rw [hb] at hagree
      exact hagree.elim
    | some b =>
      rw [hb] at hagree
      obtain ⟨hlist, -, hfirst, -, t, ht, hlen, htext⟩ := hagree
      by_cases hbundle : isBundleId b.first
      · obtain ⟨m₀, hm₀⟩ := hfirst.bundle hbundle
        obtain ⟨m, hm, htm⟩ := hs.texts.get hfirst.smallKey hm₀
        simp only [vjEventSingleFire, hev, hlist, hm, htm, dispatched, hm₀, hbundle, not_true_eq_false, false_and,
          if_true, if_false]
      · obtain rfl : t = b.text := htext.resolve_left hbundle
        have htxt : (if 0 < ev.argLen then ev.arguments else .text []) = .text b.text := by
          rw [ht, hlen]
          cases b.text with
          | nil => rfl
          | cons x xs => rw [if_pos (by rw [List.length_cons]; omega)]
        have hfired : (firedSize ≤ (firedMessage b.first b.text).length) = (94 < b.text.length) := by
          rw [firedMessage_length hfirst.range, firedSize, eq_iff_iff]
          omega
        simp only [vjEventSingleFire, hev, hlist, htxt, hfired, dispatched, hbundle, not_false_eq_true, true_and,
          if_false]

/-- What is dispatched tells the event. -/
theorem dispatched_inj {table : EventTable} {s : Server} {a b : ℤ} {t u : CStr} (ha : Names table s a)
    (hb : Names table s b) (h : dispatched s a t = dispatched s b u) : a = b := by
  by_cases hba : isBundleId a
  · obtain ⟨m, hm⟩ := ha.bundle hba
    by_cases hbb : isBundleId b
    · obtain ⟨n, hn⟩ := hb.bundle hbb
      simp only [dispatched, if_pos hba, if_pos hbb, hm, hn, Fired.bundle.injEq] at h
      exact h.1
    · simp only [dispatched, if_pos hba, if_neg hbb, hm, reduceCtorEq] at h
  · by_cases hbb : isBundleId b
    · obtain ⟨n, hn⟩ := hb.bundle hbb
      simp only [dispatched, if_neg hba, if_pos hbb, hn, reduceCtorEq] at h
    · simp only [dispatched, if_neg hba, if_neg hbb, Fired.message.injEq] at h
      exact firedMessage_inj ha.range hb.range h

/-- **Exactly which keys follow the last registration.**  After every run of calls on a server with no key bound, a
key fires what was registered last exactly if the event that bound it first is that event still, and the text of an
event fits into `msg`. -/
theorem singleFire_follows_iff (table : EventTable) (s₀ : Server) (hs₀ : NoKeys s₀) (ops : List KeyOp)
    (hok : ∀ op ∈ ops, op.Ok table s₀) :
    Ensures (runOps (keyStep table) s₀ ops) fun a => ∀ (mod : SdlMod) (sym : ℤ), 0 ≤ sym ∧ sym < sdlkLast →
      (vjEventSingleFire a.2 mod sym = .ok (lastRegistration s₀ (history ops (keyIndex sym (vimsMod mod)))) ↔
        ∀ b, history ops (keyIndex sym (vimsMod mod)) = some b →
          b.first = b.last ∧ (isBundleId b.last ∨ b.text.length ≤ 94)) := by
  refine (run_agrees hs₀ ops hok).mono fun a hs mod sym hsym => ?_
  have hkey : ValidKey sym (vimsMod mod) := ⟨hsym.1, hsym.2, vimsMod_range mod⟩
  have hagree := hs.agree _ hkey.index.1
  rw [singleFire_first hs mod hsym]
  cases hb : history ops (keyIndex sym (vimsMod mod)) with
  | none => exact ⟨fun _ _ h => absurd h.symm (Option.some_ne_none _), fun _ => rfl⟩
  | some b =>
    rw [hb] at hagree
    obtain ⟨hfirst, hlast⟩ : Names table s₀ b.first ∧ Names table s₀ b.last := by
      cases hev : a.2.keyboardEvents.get (keyIndex sym (vimsMod mod)) with
      | none =>
        rw [hev] at hagree
        exact hagree.elim
      | some ev =>
        rw [hev] at hagree
        exact ⟨hagree.2.2.1, hagree.2.2.2.1⟩
    simp only [Option.some.injEq, forall_eq', lastRegistration]
    by_cases hlong : ¬ isBundleId b.first ∧ 94 < b.text.length
    · rw [if_pos hlong]
      refine ⟨fun h => absurd h (by simp), fun h => ?_⟩
      obtain ⟨heq, hfits⟩ := h
      rw [← heq] at hfits
      rcases hfits with hbundle | hle
      · exact absurd hbundle hlong.1
      · omega
    · rw [if_neg hlong, Except.ok.injEq]
      constructor
      · intro h
        have heq := dispatched_inj hfirst hlast h
        refine ⟨heq, ?_⟩
        rw [← heq]
        by_cases hbundle : isBundleId b.first
        · exact .inl hbundle
        · exact .inr (by by_contra hgt; exact hlong ⟨hbundle, by omega⟩)
      · rintro ⟨heq, -⟩
        rw [heq]

/-! ## Runs -/

/-- The events 1 to 499 exist, with no default texts. -/
def someEvents : EventTable where
  eventExists id := decide (0 < id ∧ id < 500)
  exists_range _ h := .inl (of_decide_eq_true h)
  findKeyboardDefault _ := none

theorem emptyServer_noKeys : NoKeys emptyServer :=
  ⟨Dict.valid_create, Dict.valid_create, fun i _ => Dict.get_create i⟩

theorem boundOnce_ok : ∀ op ∈ [KeyOp.register 10 97 0 (lit "1")], op.Ok someEvents emptyServer := by
  intro op hop
  obtain rfl := List.mem_singleton.mp hop
  exact ⟨.inl (by decide), by decide, by decide, by decide, by decide⟩

theorem singleFire_follows_once :
    Ensures (runOps (keyStep someEvents) emptyServer [KeyOp.register 10 97 0 (lit "1")]) fun a =>
      vjEventSingleFire a.2 ⟨false, false, false, false⟩ 97 = .ok (.message (lit "010:1;")) := by
  refine (singleFire_follows_iff someEvents emptyServer emptyServer_noKeys _ boundOnce_ok).mono fun a h => ?_
  have hlast : lastRegistration emptyServer
      (history [.register 10 97 0 (lit "1")] (keyIndex 97 (vimsMod ⟨false, false, false, false⟩))) =
        .message (lit "010:1;") := by decide
  rw [← hlast]
  refine (h _ 97 (by decide)).mpr fun b hb => ?_
  cases hb
  decide

/-- Event 10 with the text `1` on a key, and then event 20 with the text `2`. -/
def boundTwice : List KeyOp := [.register 10 97 0 (lit "1"), .register 20 97 0 (lit "2")]

theorem boundTwice_ok : ∀ op ∈ boundTwice, op.Ok someEvents emptyServer := by
  intro op hop
  rcases List.mem_cons.mp hop with rfl | hop
  · exact ⟨.inl (by decide), by decide, by decide, by decide, by decide⟩
  · obtain rfl := List.mem_singleton.mp hop
    exact ⟨.inl (by decide), by decide, by decide, by decide, by decide⟩

/-- The key fires `010:2;`, which was never registered. -/
theorem singleFire_stale :
    (∀ op ∈ boundTwice, op.Ok someEvents emptyServer) ∧
      Ensures (runOps (keyStep someEvents) emptyServer boundTwice) fun a =>
        vjEventSingleFire a.2 ⟨false, false, false, false⟩ 97 = .ok (.message (lit "010:2;")) ∧
          lastRegistration emptyServer (history boundTwice (keyIndex 97 (vimsMod ⟨false, false, false, false⟩))) =
            .message (lit "020:2;") := by
  refine ⟨boundTwice_ok, (run_agrees emptyServer_noKeys boundTwice boundTwice_ok).mono fun a hs => ?_⟩
  rw [singleFire_first hs _ (by decide)]
  exact ⟨by decide, by decide⟩

end Veejay.Registry
