import Veejay.Vims.IdMessage
import Veejay.Vims.Registry

/-!
# The bundle store as a map

Bundles come in by VIMS (`vj_event_bundled_msg_add`) and from a file (`vj_event_load_bundles`), and are deleted by
`vj_event_bundled_msg_del`.  A bundle that is added replaces the one with its id; a bundle that is loaded does not.
The add command takes the ids 500 to 599, of which `vj_event_parse_msg` runs 500 to 598.

* `bundleHistory` — what the operations say of an id: the text that is stored, and the one that came last;
* `Keeps` — the store and the history; `bundleStep_keeps` is the step, `run_keeps` the run;
* `MapHolds` — the store answers a text, and a message with the id runs it;
* `bundleStore_map_iff` — exactly when the store is a map;
* `load_keeps_old`, `last_id_not_run` — a bundle loaded over another, and the bundle 599.
-/

namespace Veejay.Registry

open CLib Veejay.Vims

/-! ## Additions, loads, deletions -/

/-- `vj_event_suggest_bundle_id` -/
def vjEventSuggestBundleId (s : Server) : ℤ :=
  (((List.range 99).map fun (i : ℕ) => vimsBundleStart + i).find? fun i => !vjEventBundleExists s i).getD (-1)

/-- `veejay_strrep (s, '_', ' ')` -/
def strrep (s : CStr) : CStr := s.map fun c => if c = 95 then 32 else c

/-- The size of the text in `vj_event_bundled_msg_add`. -/
def addSize : ℕ := 1024

/-- The bundle takes the place of the one with its id. -/
def replaceBundle (s : Server) (m : Bundle) : Exec Server :=
  match vjEventBundleGet s m.eventId with
  | none => vjEventBundleStore s m
  | some mm => do
    let del ← vjEventBundleDel s m.eventId
    vjEventBundleStore del.2 { m with modifier := mm.modifier, accelerator := mm.accelerator }

/-- `vj_event_bundled_msg_add` -/
def vjEventBundledMsgAdd (s : Server) (eventId : ℤ) (text : CStr) : Exec Server :=
  -- `sprintf` of the text into `char s[1024]`
  if addSize ≤ text.length then .error .overrun
  else
    let id := if eventId = 0 then vjEventSuggestBundleId s else eventId
    if id < vimsBundleStart ∨ vimsBundleEnd < id then .ok s
    else
      match vjEventBundleNew (strrep text) id with
      | none => .ok s
      | some m => replaceBundle s m

/-- What a line of a bundle file says: `id|text`. -/
def bundleEntry (line : CStr) : Option (ℤ × CStr) :=
  match strtok 124 line.dropLast with
  | none => none
  | some (eventName, rest) =>
    match strtok 124 rest with
    | none => none
    | some (eventMsg, _) => if atoi eventName = 0 then none else some (atoi eventName, eventMsg)

/-- One round of the loop of `vj_event_load_bundles`. -/
def loadLine (s : Server) (line : CStr) : Exec Server :=
  -- `buf[strlen (buf) - 1] = 0`
  if line = [] then .error .overrun
  else
    match bundleEntry line with
    | none => .ok s
    | some (eventId, eventMsg) =>
      match vjEventBundleNew eventMsg eventId with
      | none => .ok s
      | some m => vjEventBundleStore s m

/-- `vj_event_load_bundles` -/
def vjEventLoadBundles (s : Server) (file : List UInt8) : Exec Server := (fgetsLines 4096 file).foldlM loadLine s

/-- The bundles that a file loads. -/
def bundleEntries (file : List UInt8) : List (ℤ × CStr) := (fgetsLines 4096 file).filterMap bundleEntry

/-- An operation on the bundles. -/
inductive BundleOp where
  | add (eventId : ℤ) (text : CStr)
  | load (file : List UInt8)
  | delete (eventId : ℤ)

/-- An id that the add command accepts. -/
def AddId (eventId : ℤ) : Prop := vimsBundleStart ≤ eventId ∧ eventId ≤ vimsBundleEnd

instance (eventId : ℤ) : Decidable (AddId eventId) := inferInstanceAs (Decidable (_ ∧ _))

/-- Loads and deletions use ids that the add command accepts; a bundle file is a text. -/
def BundleOp.Ok : BundleOp → Prop
  | .add _ _ => True
  | .load file => 0 ∉ file ∧ ∀ e ∈ bundleEntries file, AddId e.1
  | .delete eventId => AddId eventId

/-- The text of an addition fits. -/
def BundleOp.Short : BundleOp → Prop
  | .add _ text => text.length < addSize
  | _ => True

def bundleStep (s : Server) : BundleOp → Exec (Unit × Server)
  | .add eventId text => do
    let s ← vjEventBundledMsgAdd s eventId text
    .ok ((), s)
  | .load file => do
    let s ← vjEventLoadBundles s file
    .ok ((), s)
  | .delete eventId => do
    let del ← vjEventBundleDel s eventId
    .ok ((), del.2)

/-! ## Histories -/

/-- What came in under an id since it was deleted: the text that is stored, and the last one. -/
structure Incoming where
  stored : CStr
  last : CStr
  deriving DecidableEq

/-- The first id that is free. -/
def freeId (h : ℤ → Option Incoming) : ℤ :=
  (((List.range 99).map fun (i : ℕ) => vimsBundleStart + i).find? fun i => (h i).isNone).getD (-1)

/-- A bundle is loaded: the one that is stored stays. -/
def noteLoad (h : ℤ → Option Incoming) (e : ℤ × CStr) : ℤ → Option Incoming :=
  let stored := match h e.1 with
    | none => e.2
    | some b => b.stored
  Function.update h e.1 (some ⟨stored, e.2⟩)

/-- A bundle is added, with blanks for the underscores. -/
def noteAdd (h : ℤ → Option Incoming) (eventId : ℤ) (text : CStr) : ℤ → Option Incoming :=
  let id := if eventId = 0 then freeId h else eventId
  if AddId id ∧ text ≠ [] then Function.update h id (some ⟨strrep text, strrep text⟩) else h

/-- What is said of the ids after one more operation. -/
def noteBundle (h : ℤ → Option Incoming) : BundleOp → ℤ → Option Incoming
  | .add eventId text => noteAdd h eventId text
  | .load file => (bundleEntries file).foldl noteLoad h
  | .delete eventId => Function.update h eventId none

/-- What is said of the ids after a list of operations. -/
def bundleHistory (ops : List BundleOp) : ℤ → Option Incoming := ops.foldl noteBundle fun _ => none

/-! ## The store and the history -/

theorem AddId.smallKey {eventId : ℤ} (h : AddId eventId) : SmallKey eventId := by
  rw [AddId, vimsBundleStart, vimsBundleEnd] at h
  rw [SmallKey]
  omega

theorem AddId.netList {eventId : ℤ} (h : AddId eventId) : ¬ (eventId < 0 ∨ vimsMax ≤ eventId) := by
  rw [AddId, vimsBundleStart, vimsBundleEnd] at h
  rw [vimsMax]
  omega

/-- A bundle of the store, without a key, and what is said of its id. -/
def BundleKept (id : ℤ) : Option Bundle → Option Incoming → Prop
  | none, none => True
  | some m, some b => m = ⟨id, 0, 0, b.stored⟩
  | _, _ => False

/-- The store holds what the history says is stored; no key is bound. -/
structure Keeps (s : Server) (h : ℤ → Option Incoming) : Prop where
  bundles : s.bundleHash.Valid
  keys : ∀ i, SmallKey i → s.keyboardEvents.get i = none
  kept : ∀ id, SmallKey id → BundleKept id (vjEventBundleGet s id) (h id)
  ids : ∀ id b, h id = some b → AddId id

theorem Keeps.cases {s : Server} {h : ℤ → Option Incoming} (hs : Keeps s h) {id : ℤ} (hid : SmallKey id) :
    vjEventBundleGet s id = none ∧ h id = none ∨
      ∃ b, vjEventBundleGet s id = some ⟨id, 0, 0, b.stored⟩ ∧ h id = some b := by
  have hkept := hs.kept id hid
  cases hm : vjEventBundleGet s id with
  | none =>
    cases hb : h id with
    | none => exact .inl ⟨rfl, rfl⟩
    | some b =>
      rw [hm, hb] at hkept
      exact hkept.elim
  | some m =>
    cases hb : h id with
    | none =>
      rw [hm, hb] at hkept
      exact hkept.elim
    | some b =>
      rw [hm, hb] at hkept
      obtain rfl : m = _ := hkept
      exact .inr ⟨b, rfl, rfl⟩

theorem Keeps.exists_eq {s : Server} {h : ℤ → Option Incoming} (hs : Keeps s h) {id : ℤ} (hid : SmallKey id) :
    (!vjEventBundleExists s id) = (h id).isNone := by
  rw [vjEventBundleExists]
  rcases hs.cases hid with ⟨hm, hb⟩ | ⟨b, hm, hb⟩
  · rw [hm, hb]
    rfl
  · rw [hm, hb]
    rfl

/-- The id that is suggested. -/
theorem Keeps.suggest {s : Server} {h : ℤ → Option Incoming} (hs : Keeps s h) :
    vjEventSuggestBundleId s = freeId h := by
  rw [vjEventSuggestBundleId, freeId]
  congr 1
  refine List.find?_congr fun i hi => hs.exists_eq ?_
  obtain ⟨n, hn, rfl⟩ := List.mem_map.mp hi
  rw [List.mem_range] at hn
  rw [SmallKey, vimsBundleStart]
  omega

/-- The store after a bundle of it changed. -/
theorem keeps_update {s s' : Server} {h : ℤ → Option Incoming} (hs : Keeps s h) {id : ℤ} (hid : AddId id)
    {m : Option Bundle} {b : Option Incoming} (hvalid : s'.bundleHash.Valid)
    (hkeys : s'.keyboardEvents = s.keyboardEvents)
    (hget : ∀ i, SmallKey i → s'.bundleHash.get i = if id = i then m else s.bundleHash.get i)
    (hb : BundleKept id m b) : Keeps s' (Function.update h id b) := by
  refine ⟨hvalid, fun i hi => by rw [hkeys]; exact hs.keys i hi, fun i hi => ?_, fun i b' hb' => ?_⟩
  · show BundleKept i (s'.bundleHash.get i) _
    rw [hget i hi, Function.update_apply]
    by_cases hidx : id = i
    · rw [if_pos hidx, if_pos hidx.symm, ← hidx]
      exact hb
    · rw [if_neg hidx, if_neg (Ne.symm hidx)]
      exact hs.kept i hi
  · rw [Function.update_apply] at hb'
    split_ifs at hb' with hidx
    · rw [hidx]
      exact hid
    · exact hs.ids i b' hb'

/-- A bundle is stored under an id that is free. -/
theorem store_new {s : Server} {h : ℤ → Option Incoming} (hs : Keeps s h) {id : ℤ} (hid : AddId id) (hfree : h id = none)
    (text : CStr) :
    Ensures (vjEventBundleStore s ⟨id, 0, 0, text⟩) fun s' =>
      Keeps s' (Function.update h id (some ⟨text, text⟩)) := by
  have hnone : vjEventBundleGet s id = none := by
    rcases hs.cases hid.smallKey with ⟨hm, -⟩ | ⟨b, -, hb⟩
    · exact hm
    · rw [hfree] at hb
      cases hb
  obtain ⟨hvalid, hget⟩ := Dict.get_insert hs.bundles hid.smallKey hnone (⟨id, 0, 0, text⟩ : Bundle)
  have hstore : vjEventBundleStore s ⟨id, 0, 0, text⟩ =
      .ok { s with
        bundleHash := s.bundleHash.insert id ⟨id, 0, 0, text⟩
        netList := Function.update s.netList id id } := by
    rw [vjEventBundleStore]
    simp only [vjEventBundleExists, hnone, Option.isSome_none, Bool.not_false, if_true, setNetList, if_neg hid.netList]
  refine ⟨_, hstore, keeps_update hs hid hvalid rfl hget ?_⟩
  rfl

/-- A bundle is stored under an id that is taken: the table stays. -/
theorem store_old {s : Server} {h : ℤ → Option Incoming} (hs : Keeps s h) {id : ℤ} (hid : AddId id) {b : Incoming}
    (hold : h id = some b) (text : CStr) :
    Ensures (vjEventBundleStore s ⟨id, 0, 0, text⟩) fun s' =>
      Keeps s' (Function.update h id (some ⟨b.stored, text⟩)) := by
  have hsome : vjEventBundleGet s id = some ⟨id, 0, 0, b.stored⟩ := by
    rcases hs.cases hid.smallKey with ⟨-, hb⟩ | ⟨b', hm, hb⟩
    · rw [hold] at hb
      cases hb
    · rw [hold, Option.some.injEq] at hb
      rw [hm, hb]
  have hstore : vjEventBundleStore s ⟨id, 0, 0, text⟩ =
      .ok { s with netList := Function.update s.netList id id } := by
    rw [vjEventBundleStore]
    simp only [vjEventBundleExists, hsome, Option.isSome_some, Bool.not_true, Bool.false_eq_true, if_false, setNetList,
      if_neg hid.netList]
  refine ⟨_, hstore, keeps_update (m := some ⟨id, 0, 0, b.stored⟩) hs hid hs.bundles rfl (fun i _ => ?_) ?_⟩
  · split_ifs with hi
    · rw [← hi]
      exact hsome
    · rfl
  · rfl

/-- **A bundle is loaded.** -/
theorem load_keeps {s : Server} {h : ℤ → Option Incoming} (hs : Keeps s h) (e : ℤ × CStr) (hid : AddId e.1) :
    Ensures (vjEventBundleStore s ⟨e.1, 0, 0, e.2⟩) fun s' => Keeps s' (noteLoad h e) := by
  cases hb : h e.1 with
  | none =>
    have hnote : noteLoad h e = Function.update h e.1 (some ⟨e.2, e.2⟩) := by simp only [noteLoad, hb]
    rw [hnote]
    exact store_new hs hid hb e.2
  | some b =>
    have hnote : noteLoad h e = Function.update h e.1 (some ⟨b.stored, e.2⟩) := by simp only [noteLoad, hb]
    rw [hnote]
    exact store_old hs hid hb e.2

/-- **A bundle is deleted.** -/
theorem delete_keeps {s : Server} {h : ℤ → Option Incoming} (hs : Keeps s h) {id : ℤ} (hid : AddId id) :
    Ensures (vjEventBundleDel s id) fun a => Keeps a.2 (Function.update h id none) := by
  rcases hs.cases hid.smallKey with ⟨hm, hb⟩ | ⟨b, hm, hb⟩
  · have hdel : vjEventBundleDel s id = .ok (-1, s) := by simp only [vjEventBundleDel, hm]
    refine ⟨_, hdel, keeps_update (m := none) hs hid hs.bundles rfl (fun i _ => ?_) trivial⟩
    split_ifs with hi
    · rw [← hi]
      exact hm
    · rfl
  · -- the bundle has no key: the place of no key is unregistered
    have hkey : s.keyboardEvents.get (keyIndex 0 0) = none := hs.keys _ ⟨by decide, by decide⟩
    obtain ⟨hvalid, hget⟩ := Dict.get_delete hs.bundles hid.smallKey
    have hdel : vjEventBundleDel s id =
        .ok (0, { s with
          netList := Function.update s.netList id 0
          bundleHash := s.bundleHash.delete id }) := by
      simp only [vjEventBundleDel, hm, setNetList, if_neg hid.netList, ok_bind, vjEventUnregisterKeybEvent, hkey]
    exact ⟨_, hdel, keeps_update (m := none) hs hid hvalid rfl hget trivial⟩

/-- A bundle takes the place of the one with its id. -/
theorem replaceBundle_keeps {s : Server} {h : ℤ → Option Incoming} (hs : Keeps s h) {id : ℤ} (hid : AddId id)
    (text : CStr) :
    Ensures (replaceBundle s ⟨id, 0, 0, text⟩) fun s' => Keeps s' (Function.update h id (some ⟨text, text⟩)) := by
  rcases hs.cases hid.smallKey with ⟨hm, hb⟩ | ⟨b, hm, hb⟩
  · have hrep : replaceBundle s ⟨id, 0, 0, text⟩ = vjEventBundleStore s ⟨id, 0, 0, text⟩ := by
      simp only [replaceBundle, hm]
    rw [hrep]
    exact store_new hs hid hb text
  · obtain ⟨⟨r, s'⟩, hdel, hs'⟩ := delete_keeps hs hid
    have hrep : replaceBundle s ⟨id, 0, 0, text⟩ = vjEventBundleStore s' ⟨id, 0, 0, text⟩ := by
      simp only [replaceBundle, hm, hdel, ok_bind]
    have hstore := store_new hs' hid (Function.update_self id none h) text
    rw [Function.update_idem] at hstore
    rw [hrep]
    exact hstore

theorem strrep_length (text : CStr) : (strrep text).length = text.length := List.length_map _

/-- **A bundle is added.** -/
theorem add_keeps {s : Server} {h : ℤ → Option Incoming} (hs : Keeps s h) (eventId : ℤ) {text : CStr}
    (hshort : text.length < addSize) :
    Ensures (vjEventBundledMsgAdd s eventId text) fun s' => Keeps s' (noteAdd h eventId text) := by
  rw [vjEventBundledMsgAdd, if_neg (Nat.not_le.mpr hshort), hs.suggest, noteAdd]
  dsimp only
  generalize (if eventId = 0 then freeId h else eventId) = id
  by_cases hid : AddId id
  · rw [if_neg (by rw [AddId] at hid; omega)]
    by_cases hne : text = []
    · have hnew : vjEventBundleNew (strrep text) id = none := by
        rw [vjEventBundleNew, hne]
        rfl
      rw [hnew, if_neg (fun h => h.2 hne)]
      exact ⟨s, rfl, hs⟩
    · have hlen : ¬ (strrep text).length < 1 := by
        rw [strrep_length]
        have := List.length_pos_of_ne_nil hne
        omega
      have hnew : vjEventBundleNew (strrep text) id = some ⟨id, 0, 0, strrep text⟩ := by
        rw [vjEventBundleNew, if_neg hlen]
      rw [hnew, if_pos ⟨hid, hne⟩]
      exact replaceBundle_keeps hs hid (strrep text)
  · rw [if_pos (by rw [AddId] at hid; omega), if_neg fun h => hid h.1]
    exact ⟨s, rfl, hs⟩

/-! ### Files -/

/-- The lines of a text without zero bytes are not empty. -/
theorem fgetsLoop_ne_nil {size : ℕ} (hsize : 2 ≤ size) (fuel : ℕ) {text : List UInt8} (h0 : (0 : UInt8) ∉ text) :
    ∀ line ∈ fgetsLoop size fuel text, line ≠ [] := by
  induction fuel generalizing text with
  | zero => exact fun line hline => absurd hline List.not_mem_nil
  | succ fuel ih =>
    cases text with
    | nil => exact fun line hline => absurd hline List.not_mem_nil
    | cons c s =>
      intro line hline
      rw [fgetsLoop] at hline
      obtain ⟨n, hn⟩ : ∃ n, size - 1 = n + 1 := ⟨size - 2, by omega⟩
      rcases List.mem_cons.mp hline with rfl | hline
      · obtain ⟨t, ht⟩ : ∃ t, (fgetsChunk (size - 1) (c :: s)).1 = c :: t := by
          rw [hn, fgetsChunk]
          split_ifs
          · exact ⟨[], rfl⟩
          · exact ⟨_, rfl⟩
        have hc : c ≠ 0 := fun h => h0 (h ▸ List.mem_cons_self)
        rw [ht, cstring, List.takeWhile_cons_of_pos (by simpa using hc)]
        exact List.cons_ne_nil _ _
      · refine ih (fun hmem => h0 ?_) line hline
        rw [← fgetsChunk_parts (size - 1) (c :: s)]
        exact List.mem_append_right _ hmem

theorem bundleEntry_text {line : CStr} {e : ℤ × CStr} (h : bundleEntry line = some e) : e.2 ≠ [] := by
  rw [bundleEntry] at h
  cases h1 : strtok 124 line.dropLast with
  | none => simp [h1] at h
  | some r1 =>
    cases h2 : strtok 124 r1.2 with
    | none => simp [h1, h2] at h
    | some r2 =>
      simp only [h1, h2] at h
      split_ifs at h
      obtain rfl := Option.some.inj h
      exact (strtok_token h2).1

/-- The bundle file with these ids and texts. -/
def bundleFile (es : List (ℤ × CStr)) : List UInt8 :=
  (es.map fun e => decimalInt e.1 ++ 124 :: e.2).flatMap fun l => l ++ [newline]

/-- An id and a text that a line can hold. -/
structure LineOk (e : ℤ × CStr) : Prop where
  id : AddId e.1
  ne : e.2 ≠ []
  bar : (124 : UInt8) ∉ e.2
  line : newline ∉ e.2
  zero : (0 : UInt8) ∉ e.2
  short : e.2.length < 4090

theorem bundleEntry_line {e : ℤ × CStr} (he : LineOk e) :
    bundleEntry (decimalInt e.1 ++ 124 :: e.2 ++ [newline]) = some e := by
  have hid := he.id
  rw [AddId, vimsBundleStart, vimsBundleEnd] at hid
  have hbar : (124 : UInt8) ∉ decimalInt e.1 := fun h => by
    rcases mem_decimalInt h with h | h
    · exact absurd h (by decide)
    · exact absurd h (by decide)
  have hne : decimalInt e.1 ≠ [] := by
    obtain ⟨c, t, h, -⟩ := decimalInt_head e.1
    rw [h]
    exact List.cons_ne_nil c t
  have hatoi : atoi (decimalInt e.1) = e.1 := by
    have h := atoi_decimalInt (z := e.1) (by omega) (by omega) [] (by simp)
    rwa [List.append_nil] at h
  rw [bundleEntry, List.dropLast_concat, strtok_cons e.2 hne hbar]
  simp only [strtok_last he.ne he.bar, hatoi]
  rw [if_neg (by omega)]

/-- **A bundle file is read back.** -/
theorem bundleEntries_bundleFile {es : List (ℤ × CStr)} (hes : ∀ e ∈ es, LineOk e) :
    bundleEntries (bundleFile es) = es := by
  have hlines : fgetsLines 4096 (bundleFile es) =
      (es.map fun e => decimalInt e.1 ++ 124 :: e.2).map fun l => l ++ [newline] := by
    refine fgetsLines_flatMap (n := 4094) _ fun l hl => ?_
    obtain ⟨e, he, rfl⟩ := List.mem_map.mp hl
    have hok := hes e he
    have hid := hok.id
    rw [AddId, vimsBundleStart, vimsBundleEnd] at hid
    have hlen := decimalInt_length_le (z := e.1) (k := 3) (by decide) (by omega)
    have hshort := hok.short
    obtain ⟨hnl, h0⟩ := not_mem_decimalInt e.1
    refine ⟨?_, ?_, ?_⟩
    · rw [List.mem_append, List.mem_cons, not_or, not_or]
      exact ⟨hnl, by decide, hok.line⟩
    · rw [List.mem_append, List.mem_cons, not_or, not_or]
      exact ⟨h0, by decide, hok.zero⟩
    · rw [List.length_append, List.length_cons]
      omega
  rw [bundleEntries, hlines, List.map_map, List.filterMap_map]
  have hread : es.filterMap (bundleEntry ∘ (fun l => l ++ [newline]) ∘ fun e => decimalInt e.1 ++ 124 :: e.2) =
      es.filterMap some := List.filterMap_congr fun e he => bundleEntry_line (hes e he)
  rw [hread, List.filterMap_some]

theorem loadLine_keeps {s : Server} {h : ℤ → Option Incoming} (hs : Keeps s h) {line : CStr} (hne : line ≠ [])
    (hid : ∀ e, bundleEntry line = some e → AddId e.1) :
    Ensures (loadLine s line) fun s' => Keeps s' (((bundleEntry line).toList).foldl noteLoad h) := by
  cases he : bundleEntry line with
  | none =>
    have hload : loadLine s line = .ok s := by simp only [loadLine, if_neg hne, he]
    exact ⟨s, hload, hs⟩
  | some e =>
    have hlen : ¬ e.2.length < 1 := by
      have := List.length_pos_of_ne_nil (bundleEntry_text he)
      omega
    have hload : loadLine s line = vjEventBundleStore s ⟨e.1, 0, 0, e.2⟩ := by
      simp only [loadLine, if_neg hne, he, vjEventBundleNew, if_neg hlen]
    rw [hload]
    exact load_keeps hs e (hid e he)

theorem loadLines_keeps (lines : List CStr) (hne : ∀ line ∈ lines, line ≠ []) {s : Server} {h : ℤ → Option Incoming}
    (hs : Keeps s h) (hid : ∀ e ∈ lines.filterMap bundleEntry, AddId e.1) :
    Ensures (lines.foldlM loadLine s) fun s' => Keeps s' ((lines.filterMap bundleEntry).foldl noteLoad h) := by
  induction lines generalizing s h with
  | nil => exact ⟨s, rfl, hs⟩
  | cons line lines ih =>
    have hfold : (line :: lines).filterMap bundleEntry =
        (bundleEntry line).toList ++ lines.filterMap bundleEntry := by
      rw [List.filterMap_cons]
      cases bundleEntry line <;> rfl
    rw [hfold] at hid ⊢
    obtain ⟨s', hload, hs'⟩ := loadLine_keeps hs (hne line List.mem_cons_self)
      fun e he => hid e (List.mem_append_left _ (by rw [he]; exact List.mem_singleton_self e))
    rw [List.foldlM_cons, hload, ok_bind, List.foldl_append]
    exact ih (fun l hl => hne l (List.mem_cons_of_mem line hl)) hs' fun e he => hid e (List.mem_append_right _ he)

/-! ### Runs -/

/-- **One operation.** -/
theorem bundleStep_keeps {s : Server} {h : ℤ → Option Incoming} (op : BundleOp) (hs : Keeps s h) (hok : op.Ok)
    (hshort : op.Short) : Ensures (bundleStep s op) fun a => Keeps a.2 (noteBundle h op) := by
  cases op with
  | add eventId text =>
    rw [bundleStep, ensures_bind]
    exact (add_keeps hs eventId hshort).mono fun s' hs' => (ensures_ok _ _).mpr hs'
  | load file =>
    have hne : ∀ line ∈ fgetsLines 4096 file, line ≠ [] := fgetsLoop_ne_nil (by decide) _ hok.1
    rw [bundleStep, ensures_bind]
    exact (loadLines_keeps _ hne hs hok.2).mono fun s' hs' => (ensures_ok _ _).mpr hs'
  | delete eventId =>
    rw [bundleStep, ensures_bind]
    exact (delete_keeps hs hok).mono fun a ha => (ensures_ok _ _).mpr ha

/-- No bundle is registered, and no key is bound. -/
structure NoBundles (s : Server) : Prop where
  bundles : s.bundleHash.Valid
  keys : ∀ i, SmallKey i → s.keyboardEvents.get i = none
  none : ∀ i, SmallKey i → vjEventBundleGet s i = none

/-- **Every run.** -/
theorem run_keeps {s₀ : Server} (hs₀ : NoBundles s₀) (ops : List BundleOp) (hok : ∀ op ∈ ops, op.Ok)
    (hshort : ∀ op ∈ ops, op.Short) :
    Ensures (runOps bundleStep s₀ ops) fun a => Keeps a.2 (bundleHistory ops) := by
  have hstart : Keeps s₀ fun _ => none :=
    ⟨hs₀.bundles, hs₀.keys, fun i hi => by rw [hs₀.none i hi]; trivial, fun _ _ h => absurd h.symm (Option.some_ne_none _)⟩
  have hmeets : HistoryMeets noteBundle (fun _ op => (op.Ok ∧ op.Short) ∧ True) (fun _ => none) ops :=
    (historyMeets_of_forall (fun _ _ => trivial) ops _).and_of_mem fun op hop => ⟨hok op hop, hshort op hop⟩
  exact runOps_refines (fun s h op hs hop => bundleStep_keeps op hs hop.1.1 hop.1.2) ops s₀ _ hstart hmeets

/-- A run that returns has no text that does not fit. -/
theorem short_of_run (ops : List BundleOp) {s₀ : Server} {a : List Unit × Server}
    (h : runOps bundleStep s₀ ops = .ok a) : ∀ op ∈ ops, op.Short := by
  induction ops generalizing s₀ a with
  | nil => exact fun op hop => absurd hop List.not_mem_nil
  | cons op ops ih =>
    rw [runOps] at h
    obtain ⟨r, hstep, hrest⟩ := bind_eq_ok.mp h
    obtain ⟨rest, hrun, -⟩ := bind_eq_ok.mp hrest
    refine List.forall_mem_cons.mpr ⟨?_, ih hrun⟩
    cases op with
    | add eventId text =>
      by_contra hlong
      have hadd : vjEventBundledMsgAdd s₀ eventId text = .error .overrun := by
        rw [vjEventBundledMsgAdd, if_pos (Nat.not_lt.mp hlong)]
      rw [bundleStep, hadd] at hstep
      cases hstep
    | load file => trivial
    | delete eventId => trivial

/-! ## Messages -/

section Interpreter

variable {S : Type}

/-- The interpreter finds the bundles of the store. -/
def Shows (ev : Events S) (v : S) (s : Server) : Prop :=
  ∀ id, SmallKey id → (ev.bundleGet v id).bind (ev.textAt v) = (vjEventBundleGet s id).map Bundle.bundle

/-- Every message with the id is interpreted by interpreting the text. -/
def RunsText (ev : Events S) (v : S) (id : ℤ) (t : CStr) : Prop :=
  ∃ block, ev.textAt v block = some t ∧
    ∀ rest, (0 : UInt8) ∉ rest → select ev (ev.bundleGet v) (message (idMessage id rest)) = .ok (.registered block)

/-- A message with an id below 599 asks for the bundle. -/
theorem select_bundle (ev : Events S) (get : ℤ → Option ℕ) {id : ℤ} (hid : isBundleId id) {rest : CStr}
    (h0 : (0 : UInt8) ∉ rest) :
    select ev get (message (idMessage id rest)) =
      match get id with
      | some block => .ok (.registered block)
      | none => .ok .nothing := by
  have hrange : 0 < id ∧ id < vimsMax := by
    obtain ⟨hlo, hhi⟩ := hid
    rw [vimsBundleStart] at hlo
    rw [vimsBundleEnd] at hhi
    rw [vimsMax]
    omega
  have hbundle : vimsBundleStart ≤ id ∧ id < vimsBundleEnd := hid
  refine (select_idMessage ev get hrange h0).trans ?_
  cases get id with
  | none => exact if_pos hbundle
  | some block => exact if_pos hbundle

theorem fireNetEvent_registered {ev : Events S} {get : ℤ → Option ℕ} {id : ℤ} {str : Option CStr}
    {args : List (Option ℤ)} {arglen : ℕ} {before after : S → S} {block : ℕ}
    (h : fireNetEvent ev get id str args arglen before after = .registered block) : id = vimsBundle := by
  rw [fireNetEvent] at h
  split_ifs at h with h1 h2 h3
  exact h3

theorem selectEvent_registered {ev : Events S} {get : ℤ → Option ℕ} {id : ℤ} {m : Message} {block : ℕ}
    (h : selectEvent ev get id m = .ok (.registered block)) : id = vimsBundle := by
  rw [selectEvent] at h
  dsimp only at h
  by_cases hlen : m.len - 1 ≤ msgMinLen
  · rw [if_pos hlen] at h
    exact fireNetEvent_registered (Except.ok.inj h)
  · rw [if_neg hlen] at h
    obtain ⟨c, -, h⟩ := bind_eq_ok.mp h
    obtain ⟨arguments, -, h⟩ := bind_eq_ok.mp h
    by_cases hnp : ev.numArgs id = 0
    · rw [if_pos hnp] at h
      cases h
    · rw [if_neg hnp] at h
      obtain ⟨r, -, h⟩ := bind_eq_ok.mp h
      cases r with
      | none => cases h
      | some r => exact fireNetEvent_registered (Except.ok.inj h)

/-- **The bundle 599 is not run** by a message. -/
theorem select_last (ev : Events S) (get : ℤ → Option ℕ) {rest : CStr} (h0 : (0 : UInt8) ∉ rest) (block : ℕ) :
    select ev get (message (idMessage vimsBundleEnd rest)) ≠ .ok (.registered block) := by
  intro h
  rw [select_idMessage ev get (by decide) h0, if_neg (by decide)] at h
  exact absurd (selectEvent_registered h) (by decide)

end Interpreter

/-! ## The map -/

/-- The store answers the text, and in every interpreter that finds the bundles of the store, a message with the id
runs it. -/
structure MapHolds (s : Server) (id : ℤ) (text : Option CStr) : Prop where
  get : (vjEventBundleGet s id).map Bundle.bundle = text
  runs : ∀ (S : Type) (ev : Events S) (v : S), Shows ev v s → ∀ t, text = some t → RunsText ev v id t

/-- The interpreter that finds the bundles of a server, and knows no events. -/
def bundlesOnly : Events Server where
  bundleGet s id := (vjEventBundleGet s id).map fun _ => id.toNat
  textAt s block := (vjEventBundleGet s block).map Bundle.bundle
  numArgs _ := 0
  format _ := []
  defaultValue _ _ := 0
  allowAny _ := false
  longParams _ := false
  requireAll _ := false
  fire _ _ _ s := s
  parseKf _ s := s
  storeMacro _ _ s := s

theorem bundlesOnly_shows (s : Server) : Shows bundlesOnly s s := by
  intro id hid
  have hcast : ((id.toNat : ℕ) : ℤ) = id := by
    rw [SmallKey] at hid
    omega
  show ((vjEventBundleGet s id).map _).bind (fun block => (vjEventBundleGet s (block : ℕ)).map Bundle.bundle) = _
  cases hm : vjEventBundleGet s id with
  | none => rfl
  | some m =>
    show (vjEventBundleGet s (id.toNat : ℕ)).map Bundle.bundle = _
    rw [hcast, hm]

/-- A store that holds what the history says answers its last text exactly if that is the stored one and the id is
below 599. -/
theorem mapHolds_iff {s : Server} {h : ℤ → Option Incoming} (hs : Keeps s h) {id : ℤ} (hid : SmallKey id) :
    MapHolds s id ((h id).map Incoming.last) ↔ ∀ b, h id = some b → b.stored = b.last ∧ id ≠ vimsBundleEnd := by
  rcases hs.cases hid with ⟨hm, hb⟩ | ⟨b, hm, hb⟩
  · rw [hb]
    refine ⟨fun _ b hb => absurd hb.symm (Option.some_ne_none b), fun _ => ⟨?_, fun S ev v _ t ht => ?_⟩⟩
    · rw [hm]
      rfl
    · exact absurd ht.symm (Option.some_ne_none t)
  · rw [hb]
    have hadd := hs.ids id b hb
    constructor
    · rintro ⟨hget, hruns⟩ b' hb'
      obtain rfl := Option.some.inj hb'
      rw [hm] at hget
      have hsame : b.stored = b.last := Option.some.inj hget
      refine ⟨hsame, ?_⟩
      rintro rfl
      obtain ⟨block, -, hselect⟩ := hruns Server bundlesOnly s (bundlesOnly_shows s) b.last rfl
      exact select_last bundlesOnly _ List.not_mem_nil block (hselect [] List.not_mem_nil)
    · intro hcond
      obtain ⟨hsame, hne⟩ := hcond b rfl
      refine ⟨?_, fun S ev v hshows t ht => ?_⟩
      · rw [hm]
        exact congrArg some hsame
      · obtain rfl : b.last = t := Option.some.inj ht
        have hfind := hshows id hid
        rw [hm] at hfind
        obtain ⟨block, hblock, htext⟩ := Option.bind_eq_some_iff.mp hfind
        refine ⟨block, htext.trans (congrArg some hsame), fun rest h0 => ?_⟩
        have hbundle : isBundleId id := ⟨hadd.1, lt_of_le_of_ne hadd.2 hne⟩
        rw [select_bundle ev _ hbundle h0, hblock]

/-- **Exactly when the store is a map.**  After every run of additions, loads and deletions on a server without bundles,
the store answers for an id what came in last, and a message with the id runs it, exactly if the texts of all
additions fit, the text stored under the id is the last one (no load found the id taken by another text), and the id
is not 599. -/
theorem bundleStore_map_iff (s₀ : Server) (hs₀ : NoBundles s₀) (ops : List BundleOp) (hok : ∀ op ∈ ops, op.Ok) (id : ℤ)
    (hid : SmallKey id) :
    (Ensures (runOps bundleStep s₀ ops) fun a => MapHolds a.2 id ((bundleHistory ops id).map Incoming.last)) ↔
      (∀ op ∈ ops, op.Short) ∧
        ∀ b, bundleHistory ops id = some b → b.stored = b.last ∧ id ≠ vimsBundleEnd := by
  constructor
  · rintro ⟨a, hrun, hmap⟩
    have hshort := short_of_run ops hrun
    have hkeeps := (run_keeps hs₀ ops hok hshort).apply hrun
    exact ⟨hshort, (mapHolds_iff hkeeps hid).mp hmap⟩
  · rintro ⟨hshort, hcond⟩
    exact (run_keeps hs₀ ops hok hshort).mono fun a hkeeps => (mapHolds_iff hkeeps hid).mpr hcond

/-! ## Runs -/

theorem emptyServer_noBundles : NoBundles emptyServer :=
  ⟨Dict.valid_create, fun i _ => Dict.get_create i, fun i _ => Dict.get_create i⟩

/-- The bundle 500 is added, and one with its id is loaded. -/
def loadedOver : List BundleOp :=
  [.add 500 (lit "BUN:001{101:;}"), .load (bundleFile [(500, lit "BUN:001{102:;}")])]

theorem loadedOver_entries :
    bundleEntries (bundleFile [(500, lit "BUN:001{102:;}")]) = [(500, lit "BUN:001{102:;}")] := by
  refine bundleEntries_bundleFile fun e he => ?_
  obtain rfl := List.mem_singleton.mp he
  exact ⟨by decide, by decide, by decide, by decide, by decide, by decide⟩

theorem loadedOver_ok : ∀ op ∈ loadedOver, op.Ok ∧ op.Short := by
  intro op hop
  rcases List.mem_cons.mp hop with rfl | hop
  · exact ⟨trivial, show (lit "BUN:001{101:;}").length < addSize by decide⟩
  · obtain rfl := List.mem_singleton.mp hop
    refine ⟨⟨by decide, fun e he => ?_⟩, trivial⟩
    rw [loadedOver_entries] at he
    obtain rfl := List.mem_singleton.mp he
    decide

theorem loadedOver_history :
    bundleHistory loadedOver 500 = some ⟨lit "BUN:001{101:;}", lit "BUN:001{102:;}"⟩ := by
  show (bundleEntries (bundleFile _)).foldl noteLoad (noteAdd (fun _ => none) 500 (lit "BUN:001{101:;}")) 500 = _
  rw [loadedOver_entries]
  decide

/-- The old text stays: what came in last is not there. -/
theorem load_keeps_old :
    (∀ op ∈ loadedOver, op.Ok) ∧
      Ensures (runOps bundleStep emptyServer loadedOver) fun a =>
        (vjEventBundleGet a.2 500).map Bundle.bundle = some (lit "BUN:001{101:;}") ∧
          (bundleHistory loadedOver 500).map Incoming.last = some (lit "BUN:001{102:;}") := by
  refine ⟨fun op hop => (loadedOver_ok op hop).1,
    (run_keeps emptyServer_noBundles loadedOver (fun op hop => (loadedOver_ok op hop).1)
      fun op hop => (loadedOver_ok op hop).2).mono fun a hs => ?_⟩
  rcases @Keeps.cases _ _ hs 500 (by decide) with ⟨-, hb⟩ | ⟨b, hm, hb⟩
  · rw [loadedOver_history] at hb
    cases hb
  · rw [loadedOver_history, Option.some.injEq] at hb
    rw [hm, ← hb, loadedOver_history]
    exact ⟨rfl, rfl⟩

/-- One bundle is added, and a message runs it. -/
theorem bundleStore_map_added :
    Ensures (runOps bundleStep emptyServer [.add 500 (lit "BUN:001{101:;}")]) fun a =>
      MapHolds a.2 500 (some (lit "BUN:001{101:;}")) := by
  have hhist : bundleHistory [.add 500 (lit "BUN:001{101:;}")] 500 =
      some ⟨lit "BUN:001{101:;}", lit "BUN:001{101:;}"⟩ := by decide
  have hmap := (bundleStore_map_iff emptyServer emptyServer_noBundles [.add 500 (lit "BUN:001{101:;}")]
    (fun op hop => by obtain rfl := List.mem_singleton.mp hop; trivial) 500 (by decide)).mpr
    ⟨fun op hop => by
        obtain rfl := List.mem_singleton.mp hop
        exact show (lit "BUN:001{101:;}").length < addSize by decide,
      fun b hb => by rw [hhist] at hb; obtain rfl := Option.some.inj hb; exact ⟨rfl, by decide⟩⟩
  rw [hhist] at hmap
  exact hmap

end Veejay.Registry
