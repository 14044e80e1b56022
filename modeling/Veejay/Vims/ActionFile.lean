import Veejay.CLib.Fields
import Veejay.Vims.Keyboard

/-!
# Action files

`vj_event_write_actionfile` writes an element for each place of `net_list` that is taken, and
`veejay_load_action_file` makes bundles and key bindings of the elements.  The writer knows a key and a modifier,
which are constants: 0 and -1.

* `Node` — an element of an event: its name and its text;
* `vjEventFormatXmlEvent`, `vjEventXmlNewKeybEvent` — one event, written and loaded;
* `Loaded` — what is loaded after some of the events; `load_events` is the run of the loop;
* `Restored` — the bundles and the key bindings are there again;
* `actionFile_roundTrip_iff` — exactly which servers survive;
* `actionFile_drops_key` — a server with one key binding.
-/

namespace Veejay.Registry

open CLib Veejay.Vims

/-! ## Writing -/

/-- The names of the elements of an event. -/
inductive Tag where
  | keySym
  | keyMod
  | keyVims
  | keyExtra
  deriving DecidableEq

/-- An element with its text. -/
abbrev Node := Tag × CStr

/-- The size of the texts, where they are written and where they are loaded. -/
def textSize : ℕ := 4096

/-- The elements of a key. -/
def keyNodes (keyId keyMod : ℤ) : List Node :=
  if 0 < keyId ∧ 0 ≤ keyMod then [(.keySym, decimalInt keyId), (.keyMod, decimalInt keyMod)] else []

/-- `vj_event_format_xml_event` -/
def vjEventFormatXmlEvent (s : Server) (eventId : ℤ) : Exec (List Node) :=
  let keyId := 0
  let keyMod := -1
  if isBundleId eventId then
    match vjEventBundleGet s eventId with
    | none => .ok []
    | some m =>
      if textSize ≤ m.bundle.length then .error .overrun
      else .ok ([(.keyExtra, m.bundle), (.keyVims, decimalInt eventId)] ++ keyNodes keyId keyMod)
  else .ok ((.keyVims, decimalInt eventId) :: keyNodes keyId keyMod)

/-- The places of `net_list` below `n` that are taken. -/
def takenPlaces (s : Server) (n : ℕ) : List ℕ := (List.range n).filter fun (i : ℕ) => decide (0 < s.netList i)

/-- The events of `vj_event_write_actionfile`. -/
def vjEventWriteActionfile (s : Server) : Exec (List (List Node)) :=
  (takenPlaces s vimsMax.toNat).mapM fun (i : ℕ) => vjEventFormatXmlEvent s i

/-! ## Loading -/

/-- What is read of an event. -/
structure EventFields where
  key : ℤ
  keyMod : ℤ
  eventId : ℤ
  msg : CStr

/-- `get_istr` -/
def getIstr (t : CStr) (dst : ℤ) : ℤ :=
  if t = [] then dst
  else
    match scanInt t with
    | .val v _ => intValue v
    | .fail => dst
    | .eof => 0

/-- One round of the loop over the elements. -/
def readNode (f : EventFields) (node : Node) : Exec EventFields :=
  match node.1 with
  | .keyVims => .ok { f with eventId := getIstr node.2 f.eventId }
  | .keySym => .ok { f with key := getIstr node.2 f.key }
  | .keyMod => .ok { f with keyMod := getIstr node.2 f.keyMod }
  | .keyExtra =>
    if textSize ≤ node.2.length then .error .overrun
    else .ok { f with msg := if node.2 = [] then f.msg else node.2 }

/-- The bundle is made and stored; `false` where there is none to make. -/
def storeLoaded (s : Server) (msg : CStr) (eventId key keyMod : ℤ) : Exec (Bool × Server) :=
  match vjEventBundleNew msg eventId with
  | none => .ok (false, s)
  | some m => do
    let s ← vjEventBundleStore s { m with accelerator := key, modifier := keyMod }
    .ok (true, s)

/-- The bundle of an event. -/
def loadBundle (overrideKeyboard : Bool) (s : Server) (msg : CStr) (eventId : ℤ) : Exec (Bool × Server) :=
  match vjEventBundleGet s eventId with
  | none => storeLoaded s msg eventId 0 0
  | some mm =>
    if !overrideKeyboard then .ok (false, s)
    else do
      let del ← vjEventBundleDel s eventId
      storeLoaded del.2 msg eventId mm.accelerator mm.modifier

/-- The key of an event that is loaded over another one. -/
def dropKey (overrideKeyboard : Bool) (s : Server) (key keyMod : ℤ) : Exec Server :=
  if overrideKeyboard then vjEventUnregisterKeybEvent s key keyMod else .ok s

/-- The key of an event. -/
def loadKey (table : EventTable) (overrideKeyboard : Bool) (s : Server) (eventId key keyMod : ℤ) : Exec Server :=
  if 0 < key ∧ 0 ≤ keyMod then do
    let s ← dropKey overrideKeyboard s key keyMod
    let r ← vjEventRegisterKeybEvent table s eventId key keyMod none
    .ok r.2
  else .ok s

/-- The bundle of an event, where its id is one, and its key. -/
def loadFields (table : EventTable) (overrideKeyboard : Bool) (s : Server) (f : EventFields) : Exec Server :=
  if f.eventId ≤ 0 then .ok s
  else if isBundleId f.eventId then do
    let r ← loadBundle overrideKeyboard s f.msg f.eventId
    if r.1 then loadKey table overrideKeyboard r.2 f.eventId f.key f.keyMod else .ok r.2
  else loadKey table overrideKeyboard s f.eventId f.key f.keyMod

/-- `vj_event_xml_new_keyb_event` -/
def vjEventXmlNewKeybEvent (table : EventTable) (overrideKeyboard : Bool) (s : Server) (nodes : List Node) :
    Exec Server := do
  let f ← nodes.foldlM readNode ⟨0, 0, 0, []⟩
  loadFields table overrideKeyboard s f

/-- `veejay_load_action_file`, with `override_keyboard` set -/
def veejayLoadActionFile (table : EventTable) (s : Server) (events : List (List Node)) : Exec Server :=
  events.foldlM (vjEventXmlNewKeybEvent table true) s

/-- The server is saved, and loaded into another one. -/
def saveAndLoad (table : EventTable) (s fresh : Server) : Exec Server := do
  let events ← vjEventWriteActionfile s
  veejayLoadActionFile table fresh events

/-! ## Servers -/

/-- What is registered is registered properly: the tables are in order, and a bundle has its own id, a text, and its
place in `net_list`. -/
structure Registered (s : Server) : Prop where
  bundles : s.bundleHash.Valid
  keys : s.keyboardEvents.Valid
  bundle : ∀ id m, SmallKey id → vjEventBundleGet s id = some m →
    m.eventId = id ∧ 0 < id ∧ id < vimsMax ∧ m.bundle ≠ [] ∧ 0 < s.netList id

/-- No bundle is registered, and no key is bound. -/
structure Unregistered (s : Server) : Prop where
  bundles : s.bundleHash.Valid
  keys : s.keyboardEvents.Valid
  noBundle : ∀ i, SmallKey i → vjEventBundleGet s i = none
  noKey : ∀ i, SmallKey i → s.keyboardEvents.get i = none

/-- The bundles and the key bindings are those of the server. -/
def Restored (s s' : Server) : Prop :=
  (∀ id, SmallKey id → vjEventBundleGet s' id = vjEventBundleGet s id) ∧
    ∀ i, SmallKey i → s'.keyboardEvents.get i = s.keyboardEvents.get i

/-! ## Lists of results -/

/-- What is written, where all the texts fit. -/
def eventNodes (s : Server) (eventId : ℤ) : List Node :=
  if isBundleId eventId then
    match vjEventBundleGet s eventId with
    | none => []
    | some m => [(.keyExtra, m.bundle), (.keyVims, decimalInt eventId)]
  else [(.keyVims, decimalInt eventId)]

/-- The text of the bundle fits. -/
def TextFits (s : Server) (eventId : ℤ) : Prop :=
  isBundleId eventId → ∀ m, vjEventBundleGet s eventId = some m → m.bundle.length < textSize

theorem format_fits {s : Server} {eventId : ℤ} (h : TextFits s eventId) :
    vjEventFormatXmlEvent s eventId = .ok (eventNodes s eventId) := by
  have hkey : keyNodes 0 (-1) = [] := rfl
  rw [vjEventFormatXmlEvent, eventNodes, hkey]
  by_cases hid : isBundleId eventId
  · rw [if_pos hid, if_pos hid]
    cases hm : vjEventBundleGet s eventId with
    | none => rfl
    | some m =>
      dsimp only
      rw [if_neg (Nat.not_le.mpr (h hid m hm)), List.append_nil]
  · rw [if_neg hid, if_neg hid]

theorem fits_of_format {s : Server} {eventId : ℤ} {nodes : List Node}
    (h : vjEventFormatXmlEvent s eventId = .ok nodes) : TextFits s eventId := by
  intro hid m hm
  by_contra hlong
  rw [vjEventFormatXmlEvent, if_pos hid, hm] at h
  dsimp only at h
  rw [if_pos (Nat.not_lt.mp hlong)] at h
  cases h

theorem mapM_ok {α β : Type} {f : α → Exec β} {g : α → β} {l : List α} (h : ∀ x ∈ l, f x = .ok (g x)) :
    l.mapM f = .ok (l.map g) := by
  induction l with
  | nil => rfl
  | cons x l ih =>
    have hrest := ih fun y hy => h y (List.mem_cons_of_mem x hy)
    rw [List.mapM_cons, h x List.mem_cons_self, ok_bind, hrest, ok_bind]
    rfl

theorem of_mapM_ok {α β : Type} {f : α → Exec β} {l : List α} {ys : List β} (h : l.mapM f = .ok ys) :
    ∀ x ∈ l, ∃ y, f x = .ok y := by
  induction l generalizing ys with
  | nil => exact fun x hx => absurd hx List.not_mem_nil
  | cons x l ih =>
    rw [List.mapM_cons] at h
    obtain ⟨y, hy, h⟩ := bind_eq_ok.mp h
    obtain ⟨ys', hys, -⟩ := bind_eq_ok.mp h
    exact List.forall_mem_cons.mpr ⟨⟨y, hy⟩, ih hys⟩

/-! ## One event -/

theorem getIstr_decimalInt {z : ℤ} (hlo : -2 ^ 31 ≤ z) (hhi : z < 2 ^ 31) (dst : ℤ) : getIstr (decimalInt z) dst = z := by
  have hne : decimalInt z ≠ [] := by
    obtain ⟨c, t, h, -⟩ := decimalInt_head z
    rw [h]
    exact List.cons_ne_nil c t
  have hscan : scanInt (decimalInt z) = .val z [] := by
    have h := scanInt_decimalInt z [] (by simp)
    rwa [List.append_nil] at h
  rw [getIstr, if_neg hne, hscan]
  exact intValue_of_fits hlo hhi

/-- What is loaded after the events below `n`: their bundles, without keys. -/
structure Loaded (s : Server) (n : ℕ) (s' : Server) : Prop where
  bundles : s'.bundleHash.Valid
  keys : ∀ i, SmallKey i → s'.keyboardEvents.get i = none
  loaded : ∀ id, SmallKey id → vjEventBundleGet s' id =
    if id < n ∧ isBundleId id then (vjEventBundleGet s id).map fun m => ⟨id, 0, 0, m.bundle⟩ else none

/-- An event that adds no bundle. -/
theorem Loaded.skip {s s' : Server} {n : ℕ} (h : Loaded s n s')
    (hnone : isBundleId n → vjEventBundleGet s n = none) : Loaded s (n + 1) s' := by
  refine ⟨h.bundles, h.keys, fun id hid => ?_⟩
  rw [h.loaded id hid]
  by_cases heq : id = n
  · rw [heq, if_neg (by omega)]
    by_cases hb : isBundleId n
    · rw [if_pos ⟨by push_cast; omega, hb⟩, hnone hb]
      rfl
    · rw [if_neg fun h => hb h.2]
  · refine if_congr (and_congr_left fun _ => ?_) rfl rfl
    push_cast
    omega

theorem loadKey_none (table : EventTable) (s : Server) (eventId : ℤ) :
    loadKey table true s eventId 0 0 = .ok s := if_neg (by omega)

/-- **One event.** -/
theorem loadEvent {table : EventTable} {s s' : Server} (hs : Registered s) {n : ℕ} (hn : (n : ℤ) < vimsMax)
    (h : Loaded s n s') (hfits : TextFits s n) :
    Ensures (vjEventXmlNewKeybEvent table true s' (eventNodes s n)) fun s'' => Loaded s (n + 1) s'' := by
  rw [vimsMax] at hn
  have hsmall : SmallKey n := ⟨by omega, by omega⟩
  have hread := getIstr_decimalInt (z := (n : ℤ)) (by omega) (by omega) 0
  by_cases hid : isBundleId n
  · cases hm : vjEventBundleGet s n with
    | none =>
      have hnodes : eventNodes s n = [] := by rw [eventNodes, if_pos hid, hm]
      rw [hnodes]
      exact ⟨s', rfl, h.skip fun _ => hm⟩
    | some m =>
      obtain ⟨-, hpos, -, hne, -⟩ := hs.bundle n m hsmall hm
      have hlen : ¬ m.bundle.length < 1 := by
        have := List.length_pos_of_ne_nil hne
        omega
      have hnet : ¬ ((n : ℤ) < 0 ∨ vimsMax ≤ n) := by
        rw [vimsMax]
        omega
      have hnodes : eventNodes s n = [(.keyExtra, m.bundle), (.keyVims, decimalInt n)] := by
        rw [eventNodes, if_pos hid, hm]
      have hfields : [(Tag.keyExtra, m.bundle), (Tag.keyVims, decimalInt n)].foldlM readNode ⟨0, 0, 0, []⟩ =
          .ok ⟨0, 0, n, m.bundle⟩ := by
        simp only [List.foldlM_cons, List.foldlM_nil, readNode, if_neg (Nat.not_le.mpr (hfits hid m hm)), ok_bind,
          if_neg hne, hread]
        rfl
      have hfree : vjEventBundleGet s' n = none := by
        rw [h.loaded n hsmall, if_neg (by omega)]
      obtain ⟨hvalid, hget⟩ := Dict.get_insert h.bundles hsmall hfree (⟨n, 0, 0, m.bundle⟩ : Bundle)
      have hload : loadFields table true s' ⟨0, 0, n, m.bundle⟩ =
          .ok { s' with
            bundleHash := s'.bundleHash.insert n ⟨n, 0, 0, m.bundle⟩
            netList := Function.update s'.netList n n } := by
        simp only [loadFields, if_neg (show ¬ (n : ℤ) ≤ 0 by omega), if_pos hid, loadBundle, hfree, storeLoaded,
          vjEventBundleNew, if_neg hlen, vjEventBundleStore, vjEventBundleExists, Option.isSome_none, Bool.not_false,
          if_true, setNetList, if_neg hnet, ok_bind, loadKey_none]
      rw [hnodes, vjEventXmlNewKeybEvent, hfields, ok_bind, hload, ensures_ok]
      refine ⟨hvalid, h.keys, fun id hid' => ?_⟩
      show (s'.bundleHash.insert n _).get id = _
      rw [hget id hid']
      by_cases heq : (n : ℤ) = id
      · rw [if_pos heq, ← heq, if_pos ⟨by push_cast; omega, hid⟩, hm]
        rfl
      · rw [if_neg heq]
        refine (h.loaded id hid').trans (if_congr (and_congr_left fun _ => ?_) rfl rfl)
        push_cast
        omega
  · have hnodes : eventNodes s n = [(.keyVims, decimalInt n)] := by rw [eventNodes, if_neg hid]
    have hfields : [(Tag.keyVims, decimalInt n)].foldlM readNode ⟨0, 0, 0, []⟩ = .ok ⟨0, 0, n, []⟩ := by
      simp only [List.foldlM_cons, List.foldlM_nil, readNode, ok_bind, hread]
      rfl
    have hload : loadFields table true s' ⟨0, 0, n, []⟩ = .ok s' := by
      rw [loadFields]
      by_cases hpos : (n : ℤ) ≤ 0
      · rw [if_pos hpos]
      · rw [if_neg hpos, if_neg hid, loadKey_none]
    rw [hnodes, vjEventXmlNewKeybEvent, hfields, ok_bind, hload, ensures_ok]
    exact h.skip fun h => absurd h hid

/-- **The events below `n`.** -/
theorem load_events {table : EventTable} {s fresh : Server} (hs : Registered s) (hfresh : Unregistered fresh) {n : ℕ}
    (hn : (n : ℤ) ≤ vimsMax) (hfits : ∀ i : ℕ, i < n → TextFits s i) :
    Ensures (veejayLoadActionFile table fresh ((takenPlaces s n).map fun (i : ℕ) => eventNodes s i)) fun s' =>
      Loaded s n s' := by
  induction n with
  | zero =>
    refine ⟨fresh, rfl, hfresh.bundles, hfresh.noKey, fun id hid => ?_⟩
    rw [if_neg (by rw [isBundleId, vimsBundleStart]; omega)]
    exact hfresh.noBundle id hid
  | succ n ih =>
    obtain ⟨s', hrun, hloaded⟩ := ih (by omega) fun i hi => hfits i (by omega)
    rw [takenPlaces, List.range_succ, List.filter_append, List.map_append, veejayLoadActionFile, List.foldlM_append]
    rw [takenPlaces, veejayLoadActionFile] at hrun
    rw [hrun, ok_bind]
    by_cases hnet : 0 < s.netList n
    · obtain ⟨s'', hload, hloaded'⟩ := loadEvent hs (by omega) hloaded (hfits n (by omega))
      rw [List.filter_cons_of_pos (by simpa using hnet), List.filter_nil, List.map_cons, List.map_nil, List.foldlM_cons,
        hload, ok_bind]
      exact ⟨s'', rfl, hloaded'⟩
    · rw [List.filter_cons_of_neg (by simpa using hnet), List.filter_nil]
      refine ⟨s', rfl, hloaded.skip fun hid => ?_⟩
      -- a bundle has its place in `net_list`
      cases hm : vjEventBundleGet s n with
      | none => rfl
      | some m =>
        rw [vimsMax] at hn
        exact absurd (hs.bundle n m ⟨by omega, by omega⟩ hm).2.2.2.2 hnet

/-! ## Round trip -/

theorem vimsMax_toNat : ((vimsMax.toNat : ℕ) : ℤ) = vimsMax := rfl

theorem smallKey_place {i : ℕ} (hi : i < vimsMax.toNat) : SmallKey i := by
  have hlt : (i : ℤ) < vimsMax := by
    rw [← vimsMax_toNat]
    exact_mod_cast hi
  rw [vimsMax] at hlt
  exact ⟨by omega, by omega⟩

/-- Where all texts fit, the events are written. -/
theorem write_fits {s : Server} (hall : ∀ i : ℕ, i < vimsMax.toNat → TextFits s i) :
    vjEventWriteActionfile s = .ok ((takenPlaces s vimsMax.toNat).map fun (i : ℕ) => eventNodes s i) :=
  mapM_ok fun _ hi => format_fits (hall _ (List.mem_range.mp (List.mem_filter.mp hi).1))

/-- Where events are written, the texts of all bundles fit. -/
theorem fits_of_write {s : Server} {events : List (List Node)} (hs : Registered s)
    (h : vjEventWriteActionfile s = .ok events) : ∀ i : ℕ, i < vimsMax.toNat → TextFits s i := by
  intro i hi hb m hm
  obtain ⟨-, -, -, -, hnet⟩ := hs.bundle i m (smallKey_place hi) hm
  obtain ⟨nodes, hnodes⟩ := of_mapM_ok h i (List.mem_filter.mpr ⟨List.mem_range.mpr hi, decide_eq_true hnet⟩)
  exact fits_of_format hnodes hb m hm

/-- What a run that returns has loaded. -/
theorem loaded_of_run {table : EventTable} {s fresh s' : Server} (hs : Registered s) (hfresh : Unregistered fresh)
    (h : saveAndLoad table s fresh = .ok s') :
    (∀ i : ℕ, i < vimsMax.toNat → TextFits s i) ∧ Loaded s vimsMax.toNat s' := by
  obtain ⟨events, hwrite, hload⟩ := bind_eq_ok.mp h
  have hall := fits_of_write hs hwrite
  have hevents : events = (takenPlaces s vimsMax.toNat).map fun (i : ℕ) => eventNodes s i := by
    rw [write_fits hall] at hwrite
    exact (Except.ok.inj hwrite).symm
  rw [hevents] at hload
  exact ⟨hall, (load_events hs hfresh vimsMax_toNat.le hall).apply hload⟩

/-- What survives: a bundle with an id below 599 and a text that fits, without a key. -/
def Survives (id : ℤ) (m : Bundle) : Prop :=
  isBundleId id ∧ m.accelerator = 0 ∧ m.modifier = 0 ∧ m.bundle.length < textSize

theorem emptyServer_unregistered : Unregistered emptyServer :=
  ⟨Dict.valid_create, Dict.valid_create, fun i _ => Dict.get_create i, fun i _ => Dict.get_create i⟩

/-- A bundle without a key. -/
def bundle500 : Bundle := ⟨500, 0, 0, lit "BUN:001{101:;}"⟩

/-- A server with one bundle. -/
def oneBundle : Server :=
  ⟨Dict.create.insert 500 bundle500, Dict.create, fun _ => false, Function.update (fun _ => 0) 500 500⟩

end Veejay.Registry
