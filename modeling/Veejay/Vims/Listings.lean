import Veejay.CLib.FixedWidth
import Veejay.Vims.Bundles
import Veejay.Vims.Keyboard

/-!
# The lists of keys and bundles

`vj_event_send_keylist` and `vj_event_send_bundles` answer with six digits and the records of all that is registered
(`veejay/vj-event.c`).  A record is printed into a buffer that it fits, and is appended with `strncat` to one of fixed
size, which has no check.

* `keyRecords`, `bundleRecords` — the texts that are appended, in order;
* `vjEventSendKeylist`, `vjEventSendBundles` — the replies;
* `appendTexts_ok` — texts that are appended one after the other;
* `listings_fit_iff` — **the replies are right exactly where the records fit their buffers**.
-/

namespace Veejay.Registry

open CLib Veejay.Hash Veejay.Vims

/-! ## Texts that are appended -/

/-- A text is read, and appended to a buffer of `size` bytes. -/
def appendText (size : ℕ) (buf : CStr) (text : Exec CStr) : Exec CStr := do
  let t ← text
  appendInto size buf t

/-- **Texts that are appended one after the other**: each of them can be read, and they fit together. -/
theorem appendTexts_ok {size : ℕ} (texts : List (Exec CStr)) {buf r : CStr} (hbuf : buf.length < size) :
    texts.foldlM (appendText size) buf = .ok r ↔
      ∃ ts : List CStr, texts = ts.map .ok ∧ (buf ++ ts.flatten).length < size ∧ r = buf ++ ts.flatten := by
  constructor
  · intro h
    induction texts generalizing buf with
    | nil =>
      obtain rfl := Except.ok.inj h
      exact ⟨[], rfl, by rw [List.flatten_nil, List.append_nil]; exact hbuf, by rw [List.flatten_nil, List.append_nil]⟩
    | cons text texts ih =>
      rw [List.foldlM_cons] at h
      obtain ⟨buf', happend, h⟩ := bind_eq_ok.mp h
      obtain ⟨t, rfl, happend⟩ := bind_eq_ok.mp happend
      obtain ⟨hlt, rfl⟩ := printInto_eq_ok.mp happend
      obtain ⟨ts, rfl, hfits, hr⟩ := ih hlt h
      rw [List.append_assoc] at hfits hr
      exact ⟨t :: ts, rfl, hfits, hr⟩
  · rintro ⟨ts, rfl, hfits, rfl⟩
    rw [List.foldlM_map]
    exact (foldlM_appendInto ts hbuf).mpr ⟨hfits, rfl⟩

/-- The bytes of a text that is read. -/
def textLength : Exec CStr → ℕ
  | .ok t => t.length
  | .error _ => 0

theorem textLength_sum (ts : List CStr) : ((ts.map .ok).map textLength).sum = ts.flatten.length := by
  rw [List.map_map, List.length_flatten]
  rfl

/-- The texts can be read, and are less than `size` bytes. -/
def TextsFit (size : ℕ) (texts : List (Exec CStr)) : Prop :=
  (∀ text ∈ texts, ∃ t, text = .ok t) ∧ (texts.map textLength).sum < size

theorem textsFit_iff {size : ℕ} {texts : List (Exec CStr)} :
    TextsFit size texts ↔ ∃ ts : List CStr, texts = ts.map .ok ∧ ts.flatten.length < size := by
  constructor
  · rintro ⟨hread, hsum⟩
    have hrange : texts ∈ Set.range (List.map (.ok : CStr → Exec CStr)) := by
      rw [Set.range_list_map]
      intro text htext
      obtain ⟨t, rfl⟩ := hread text htext
      exact ⟨t, rfl⟩
    obtain ⟨ts, hts⟩ := hrange
    refine ⟨ts, hts.symm, ?_⟩
    rw [← textLength_sum, hts]
    exact hsum
  · rintro ⟨ts, rfl, hlt⟩
    refine ⟨fun text htext => ?_, by rw [textLength_sum]; exact hlt⟩
    obtain ⟨t, -, rfl⟩ := List.mem_map.mp htext
    exact ⟨t, rfl⟩

/-! ## The list of keys -/

/-- `hash_scan_begin` and `hash_scan_next`, to the end: chain after chain. -/
def hashScan {κ δ : Type} (t : Table κ δ) : List δ := (List.range t.nchains).flatMap fun c => (t.chain c).map Node.data

/-- `arguments`, printed with `%s`; without them nothing is printed. -/
def argumentText : Arguments → Exec CStr
  | .null => .ok []
  | .text t => .ok t
  | .freed => .error .useAfterFree

/-- `message`: the text of the bundle, or the message of the event; nothing for a bundle that is not there. -/
def keyMessage (s : Server) (ev : KeyboardEvent) : Option (Exec CStr) :=
  if isBundleId ev.eventId then (vjEventBundleGet s ev.eventId).map fun mm => .ok (mm.bundle.take 255)
  else some do
    let t ← argumentText ev.arguments
    .ok ((zeroPaddedInt 3 ev.eventId ++ (lit ":" ++ (t ++ lit ";"))).take 255)

/-- `line` -/
def keyLine (ev : KeyboardEvent) (message : CStr) : CStr :=
  (zeroPaddedInt 4 ev.eventId ++ (zeroPaddedInt 3 ev.keyMod ++ (zeroPaddedInt 3 ev.keySymbol ++ counted 3 message))).take
    511

/-- The records of the list of keys. -/
def keyRecords (s : Server) : List (Exec CStr) :=
  (hashScan s.keyboardEvents).filterMap fun ev => (keyMessage s ev).map fun message => do
    let message ← message
    .ok (keyLine ev message)

/-- The size of `blob`. -/
def keylistSize : ℕ := 1024 * 64

/-- The bytes that were counted, and `blob`. -/
structure Listing where
  len : ℕ
  blob : CStr

/-- A record is counted and appended. -/
def appendLine (s : Listing) (record : Exec CStr) : Exec Listing := do
  let line ← record
  let blob ← appendInto keylistSize s.blob line
  .ok ⟨s.len + line.length, blob⟩

/-- `vj_event_send_keylist`: the header, and the text behind it. -/
def vjEventSendKeylist (s : Server) : Exec (CStr × CStr) := do
  let listing ← (keyRecords s).foldlM appendLine ⟨0, []⟩
  let header ← printInto 7 (zeroPadded 6 listing.len)
  .ok (header, listing.blob)

/-! ## The list of bundles -/

/-- `vj_event_vevo_get_event_name` and `vj_event_vevo_get_event_format` -/
structure EventTexts where
  name : ℤ → CStr
  format : ℤ → Option CStr

/-- `vims_key_list` -/
structure KeyEntry where
  keySymbol : ℤ
  keyMod : ℤ
  args : Arguments
  argLen : ℤ

/-- `vj_event_get_keys`, for an event: its keys, and an entry of zeroes. -/
def vjEventGetKeys (s : Server) (eventId : ℤ) : List KeyEntry :=
  ((hashScan s.keyboardEvents).filter fun ev => ev.eventId = eventId).map
      (fun ev => ⟨ev.keySymbol, ev.keyMod, ev.arguments, ev.argLen⟩) ++
    [⟨0, 0, .null, 0⟩]

/-- `snprintf (tmp, sizeof (tmp) - 1, "%04d%03d%03d%04d%s%03d%03d", …)` -/
def listLine (i key modifier : ℤ) (text : CStr) (formLen argLen : ℤ) : CStr :=
  (zeroPaddedInt 4 i ++ (zeroPaddedInt 3 key ++ (zeroPaddedInt 3 modifier ++ (counted 4 text ++
    (zeroPaddedInt 3 formLen ++ zeroPaddedInt 3 argLen))))).take 4094

/-- `veejay_strncat (buf, tree->args, tree->arg_len)` -/
def argumentBytes (entry : KeyEntry) : Exec CStr :=
  if entry.argLen = 0 then .ok []
  else
    match entry.args with
    | .null => .error .nullPointer
    | .freed => .error .useAfterFree
    | .text t => .ok (if entry.argLen < 0 then t else t.take entry.argLen.toNat)

/-- What is appended for one key of an event. -/
def entryTexts (texts : EventTexts) (i : ℤ) (entry : KeyEntry) : List (Exec CStr) :=
  let form := (texts.format i).getD []
  [.ok (listLine i entry.keySymbol entry.keyMod (texts.name i) form.length entry.argLen), .ok form,
    argumentBytes entry]

/-- What is appended for one number. -/
def idTexts (table : EventTable) (texts : EventTexts) (s : Server) (i : ℤ) : List (Exec CStr) :=
  if isBundleId i then
    match vjEventBundleGet s i with
    | none => []
    | some m => if m.bundle.length = 0 then [] else [.ok (listLine i m.accelerator m.modifier m.bundle 0 0)]
  else if table.eventExists i = false ∨ 400 ≤ i ∧ i < vimsBundleStart then []
  else (vjEventGetKeys s i).flatMap (entryTexts texts i)

/-- The texts of the list of bundles. -/
def bundleRecords (table : EventTable) (texts : EventTexts) (s : Server) : List (Exec CStr) :=
  (List.range 601).flatMap fun i => idTexts table texts s i

/-- The size of `buf`. -/
def bundlelistSize : ℕ := 65535

/-- `vj_event_send_bundles`: the header, and the text behind it. -/
def vjEventSendBundles (table : EventTable) (texts : EventTexts) (s : Server) : Exec (CStr × CStr) := do
  let buf ← (bundleRecords table texts s).foldlM (appendText bundlelistSize) []
  .ok ((zeroPadded 6 buf.length).take 6, buf)

/-! ## The replies -/

/-- **The property** of a reply: it is built inside of its buffers, and the header is the number of bytes that follow. -/
def Listed (reply : Exec (CStr × CStr)) : Prop := ∃ body, reply = .ok (zeroPadded 6 body.length, body)

/-- The records are counted as they are appended. -/
theorem appendLine_counts (texts : List (Exec CStr)) (buf : CStr) :
    texts.foldlM appendLine ⟨buf.length, buf⟩ =
      texts.foldlM (appendText keylistSize) buf >>= fun r => .ok ⟨r.length, r⟩ := by
  induction texts generalizing buf with
  | nil => rfl
  | cons text texts ih =>
    rw [List.foldlM_cons, List.foldlM_cons]
    cases text with
    | error f => rfl
    | ok t =>
      by_cases hlt : (buf ++ t).length < keylistSize
      · have hline : appendLine ⟨buf.length, buf⟩ (.ok t) = .ok ⟨(buf ++ t).length, buf ++ t⟩ := by
          rw [appendLine, ok_bind, appendInto, printInto_of_lt hlt, ok_bind, List.length_append]
        have htext : appendText keylistSize buf (.ok t) = .ok (buf ++ t) := printInto_of_lt hlt
        rw [hline, htext, ok_bind, ok_bind]
        exact ih (buf ++ t)
      · have hline : appendLine ⟨buf.length, buf⟩ (.ok t) = .error .overrun := by
          rw [appendLine, ok_bind, appendInto, printInto, if_neg hlt]
          rfl
        have htext : appendText keylistSize buf (.ok t) = .error .overrun := if_neg hlt
        rw [hline, htext]
        rfl

/-- Texts that are appended from the start. -/
theorem appendTexts_fit {size : ℕ} (hsize : 0 < size) {texts : List (Exec CStr)} {r : CStr} :
    texts.foldlM (appendText size) [] = .ok r → TextsFit size texts ∧ r.length < size := by
  intro h
  obtain ⟨ts, rfl, hfits, rfl⟩ := (appendTexts_ok texts hsize).mp h
  exact ⟨textsFit_iff.mpr ⟨ts, rfl, hfits⟩, hfits⟩

theorem TextsFit.append {size : ℕ} {texts : List (Exec CStr)} (h : TextsFit size texts) :
    ∃ r, texts.foldlM (appendText size) [] = .ok r ∧ r.length < size := by
  obtain ⟨ts, rfl, hlt⟩ := textsFit_iff.mp h
  exact ⟨ts.flatten, (appendTexts_ok _ (Nat.zero_lt_of_lt hlt)).mpr ⟨ts, rfl, hlt, rfl⟩, hlt⟩

/-- The list of keys. -/
theorem keylist_listed_iff (s : Server) :
    Listed (vjEventSendKeylist s) ↔ TextsFit keylistSize (keyRecords s) := by
  have hcount : vjEventSendKeylist s = ((keyRecords s).foldlM (appendText keylistSize) [] >>= fun r =>
      .ok (⟨r.length, r⟩ : Listing)) >>= fun listing =>
        printInto 7 (zeroPadded 6 listing.len) >>= fun header => .ok (header, listing.blob) := by
    rw [← appendLine_counts]
    rfl
  constructor
  · rintro ⟨body, hreply⟩
    rw [hcount] at hreply
    obtain ⟨listing, hlisting, -⟩ := bind_eq_ok.mp hreply
    obtain ⟨r, hr, -⟩ := bind_eq_ok.mp hlisting
    exact (appendTexts_fit (by decide) hr).1
  · intro hfits
    obtain ⟨r, hr, hlt⟩ := hfits.append
    have hlen : (zeroPadded 6 r.length).length = 6 := by
      apply zeroPadded_length (by decide)
      rw [keylistSize] at hlt
      omega
    refine ⟨r, ?_⟩
    rw [hcount, hr, ok_bind, ok_bind, printInto_of_lt (by rw [hlen]; decide)]
    rfl

/-- The list of bundles. -/
theorem bundlelist_listed_iff (table : EventTable) (texts : EventTexts) (s : Server) :
    Listed (vjEventSendBundles table texts s) ↔ TextsFit bundlelistSize (bundleRecords table texts s) := by
  constructor
  · rintro ⟨body, hreply⟩
    obtain ⟨r, hr, -⟩ := bind_eq_ok.mp hreply
    exact (appendTexts_fit (by decide) hr).1
  · intro hfits
    obtain ⟨r, hr, hlt⟩ := hfits.append
    have hlen : (zeroPadded 6 r.length).length = 6 := by
      apply zeroPadded_length (by decide)
      rw [bundlelistSize] at hlt
      omega
    refine ⟨r, ?_⟩
    rw [vjEventSendBundles, hr, ok_bind, List.take_of_length_le hlen.le]

/-- **The replies are right exactly where the records fit their buffers** and no argument that was freed is listed. -/
theorem listings_fit_iff (table : EventTable) (texts : EventTexts) (s : Server) :
    (Listed (vjEventSendKeylist s) ↔ TextsFit keylistSize (keyRecords s)) ∧
      (Listed (vjEventSendBundles table texts s) ↔ TextsFit bundlelistSize (bundleRecords table texts s)) :=
  ⟨keylist_listed_iff s, bundlelist_listed_iff table texts s⟩

/-- A bundle of 300 characters. -/
def longBundle : List BundleOp := [.add 500 (List.replicate 300 65)]

/-- The bundle on each of 250 keys. -/
def manyKeys : List KeyOp := (List.range 250).map fun i => .register 500 (1 + i) 0 []

/-- A thousand characters in each of seventy bundles. -/
def manyBundles : List BundleOp := (List.range 70).map fun i => .add (500 + i) (List.replicate 1000 65)

/-- Events without names. -/
def noTexts : EventTexts := ⟨fun _ => [], fun _ => none⟩

/-! ### Lists that run over -/

/-- Objects that are found under different ids are scanned, each of them once. -/
theorem get_subperm_hashScan {δ : Type} {t : Dict δ} (h : t.Valid) {xs : List ℤ} (hsmall : ∀ x ∈ xs, SmallKey x)
    (hnodup : xs.Nodup) : (xs.filterMap t.get).Subperm (hashScan t) := by
  have hkey : ∀ x n, t.node x = some n → Holds t n ∧ n.key = tid x := fun x n hn => (hashLookup_eq_some h).mp hn
  have hnodes : (xs.filterMap t.node).Nodup := by
    refine List.pairwise_filterMap.mpr (hnodup.imp_of_mem fun {x y} hx hy hne n hnx n' hny heq => hne ?_)
    have htid : tid x = tid y := (hkey x n hnx).2.symm.trans ((congrArg Node.key heq).trans (hkey y n' hny).2)
    exact (tid_eq_iff (hsmall x hx) (hsmall y hy)).mp htid
  have hsub : xs.filterMap t.node ⊆ (List.range t.nchains).flatMap t.chain := by
    intro n hn
    obtain ⟨x, -, hx⟩ := List.mem_filterMap.mp hn
    exact List.mem_flatMap.mpr ⟨_, List.mem_range.mpr (chainOf_lt t.bits _), h.mem_chain (hkey x n hx).1⟩
  obtain ⟨nodes, hperm, hsublist⟩ := List.subperm_of_subset hnodes hsub
  refine ⟨nodes.map Node.data, ?_, ?_⟩
  · have hget : xs.filterMap t.get = (xs.filterMap t.node).map Node.data := List.map_filterMap.symm
    rw [hget]
    exact hperm.map Node.data
  · have hscan : hashScan t = ((List.range t.nchains).flatMap t.chain).map Node.data := List.map_flatMap.symm
    rw [hscan]
    exact hsublist.map Node.data

/-- What the objects that are found add up to, at least. -/
theorem length_mul_le_sum {α β : Type} {g : α → Option β} {size : β → ℕ} {n : ℕ} (xs : List α)
    (h : ∀ x ∈ xs, ∃ e, g x = some e ∧ n ≤ size e) : xs.length * n ≤ ((xs.filterMap g).map size).sum := by
  induction xs with
  | nil => exact Nat.le_of_eq (Nat.zero_mul n)
  | cons x xs ih =>
    obtain ⟨e, he, hn⟩ := h x List.mem_cons_self
    have hrest := ih fun y hy => h y (List.mem_cons_of_mem x hy)
    rw [List.filterMap_cons_some he, List.map_cons, List.sum_cons, List.length_cons, Nat.succ_mul]
    omega

/-- The record of a key of a bundle with 255 characters or more. -/
theorem keyLine_length_ge (ev : KeyboardEvent) {message : CStr} (h : message.length = 255) :
    268 ≤ (keyLine ev message).length := by
  have hid := le_zeroPaddedInt_length 4 ev.eventId
  have hmod := le_zeroPaddedInt_length 3 ev.keyMod
  have hsymbol := le_zeroPaddedInt_length 3 ev.keySymbol
  have htext := le_counted_length 3 message
  rw [keyLine, List.length_take, List.length_append, List.length_append, List.length_append]
  omega

/-- **Keys of a long bundle**: each adds a record of 268 bytes or more. -/
theorem keyRecords_ge {s : Server} (h : s.keyboardEvents.Valid) {eventId : ℤ} (hid : isBundleId eventId) {m : Bundle}
    (hm : vjEventBundleGet s eventId = some m) (hlong : 255 ≤ m.bundle.length) {xs : List ℤ}
    (hsmall : ∀ x ∈ xs, SmallKey x) (hnodup : xs.Nodup)
    (hget : ∀ x ∈ xs, ∃ ev, s.keyboardEvents.get x = some ev ∧ ev.eventId = eventId) :
    xs.length * 268 ≤ ((keyRecords s).map textLength).sum := by
  obtain ⟨evs, hperm, hsub⟩ := get_subperm_hashScan h hsmall hnodup
  have hrecord : ∀ ev ∈ evs, ∃ record, ((keyMessage s ev).map fun message => do
      let message ← message
      .ok (keyLine ev message)) = some record ∧ 268 ≤ textLength record := by
    intro ev hev
    obtain ⟨x, hx, hxev⟩ := List.mem_filterMap.mp (hperm.mem_iff.mp hev)
    obtain ⟨ev', hev', hid'⟩ := hget x hx
    obtain rfl : ev' = ev := Option.some.inj (hev'.symm.trans hxev)
    have hmessage : keyMessage s ev' = some (.ok (m.bundle.take 255)) := by
      rw [keyMessage, hid', if_pos hid, hm]
      rfl
    rw [hmessage]
    exact ⟨.ok (keyLine ev' (m.bundle.take 255)), rfl,
      keyLine_length_ge ev' (List.length_take_of_le hlong)⟩
  have hlen : evs.length = xs.length := by
    rw [hperm.length_eq, List.filterMap_length_eq_length]
    intro x hx
    obtain ⟨ev, hev, -⟩ := hget x hx
    exact Option.isSome_iff_exists.mpr ⟨ev, hev⟩
  have hle := length_mul_le_sum evs hrecord
  rw [hlen] at hle
  exact hle.trans (((hsub.filterMap _).map textLength).sum_le_sum fun _ _ => Nat.zero_le _)

theorem sum_flatMap_textLength {α : Type} (l : List α) (f : α → List (Exec CStr)) :
    ((l.flatMap f).map textLength).sum = (l.map fun a => ((f a).map textLength).sum).sum := by
  rw [List.map_flatMap, List.flatMap_def, List.sum_flatten, List.map_map]
  rfl

theorem range'_sublist_range {a n m : ℕ} (h : a + n ≤ m) : (List.range' a n).Sublist (List.range m) := by
  obtain ⟨r, rfl⟩ := Nat.exists_eq_add_of_le h
  rw [List.range_eq_range', ← @List.range'_append_1 0 (a + n) r, ← @List.range'_append_1 0 a n, Nat.zero_add]
  exact (List.sublist_append_right _ _).trans (List.sublist_append_left _ _)

/-- **Long bundles**: each adds a record of 1020 bytes or more. -/
theorem bundleRecords_ge {table : EventTable} (texts : EventTexts) {s : Server} {n : ℕ} (hn : n ≤ 99)
    (hget : ∀ k < n, ∃ m, vjEventBundleGet s (500 + k) = some m ∧ m.bundle.length = 1000) :
    n * 1020 ≤ ((bundleRecords table texts s).map textLength).sum := by
  let size (i : ℤ) : ℕ := ((idTexts table texts s i).map textLength).sum
  have hsum : ((bundleRecords table texts s).map textLength).sum =
      (((List.range 601).flatMap fun i : ℕ => [(i : ℤ)]).map size).sum := by
    delta bundleRecords
    rw [List.bind_eq_flatMap]
    exact sum_flatMap_textLength _ _
  have hsize : ∀ x ∈ ((List.range' 500 n).flatMap fun i : ℕ => [(i : ℤ)]).map size, 1020 ≤ x := by
    intro x hx
    obtain ⟨_, hj, rfl⟩ := List.mem_map.mp hx
    obtain ⟨i, hi, hj⟩ := List.mem_flatMap.mp hj
    obtain rfl := List.mem_singleton.mp hj
    obtain ⟨hlo, hhi⟩ := List.mem_range'_1.mp hi
    obtain ⟨k, rfl⟩ := Nat.exists_eq_add_of_le hlo
    obtain ⟨m, hm, hlen⟩ := hget k (by omega)
    have hid : isBundleId ((500 + k : ℕ) : ℤ) := by
      rw [isBundleId, vimsBundleStart, vimsBundleEnd]
      omega
    have htexts : idTexts table texts s ((500 + k : ℕ) : ℤ) =
        [.ok (listLine (500 + k : ℕ) m.accelerator m.modifier m.bundle 0 0)] := by
      rw [idTexts, if_pos hid, Nat.cast_add, Nat.cast_ofNat, hm]
      exact if_neg (by rw [hlen]; decide)
    have hline : 1020 ≤ (listLine (500 + k : ℕ) m.accelerator m.modifier m.bundle 0 0).length := by
      have hnumber := le_zeroPaddedInt_length 4 ((500 + k : ℕ) : ℤ)
      have hkey := le_zeroPaddedInt_length 3 m.accelerator
      have hmod := le_zeroPaddedInt_length 3 m.modifier
      have htext := le_counted_length 4 m.bundle
      have hzero := le_zeroPaddedInt_length 3 0
      rw [listLine, List.length_take]
      simp only [List.length_append]
      omega
    show 1020 ≤ (List.map textLength _).sum
    rw [htexts, List.map_singleton, List.sum_singleton]
    exact hline
  have hle := List.card_nsmul_le_sum _ 1020 hsize
  have hlen : ((List.range' 500 n).flatMap fun i : ℕ => [(i : ℤ)]).length = n := by
    rw [← List.map_eq_flatMap, List.length_map, List.length_range']
  rw [List.length_map, hlen, smul_eq_mul] at hle
  have hsub := (range'_sublist_range (show 500 + n ≤ 601 by omega)).flatMap fun i : ℕ => [(i : ℤ)]
  rw [hsum]
  exact hle.trans ((hsub.map size).sum_le_sum fun _ _ => Nat.zero_le _)

theorem replicate_ne_nil {n : ℕ} (hn : 0 < n) (c : UInt8) : List.replicate n c ≠ [] := by
  rw [Ne, List.replicate_eq_nil_iff]
  omega

/-- The server with one bundle. -/
def serverWith (id : ℤ) (text : CStr) : Server :=
  ⟨Dict.create.insert id ⟨id, 0, 0, strrep text⟩, Dict.create, fun _ => false, Function.update (fun _ => 0) id id⟩

theorem serverWith_noKeys {id : ℤ} (hid : AddId id) (text : CStr) :
    NoKeys (serverWith id text) ∧ vjEventBundleGet (serverWith id text) id = some ⟨id, 0, 0, strrep text⟩ := by
  obtain ⟨hvalid, hget⟩ := Dict.get_insert Dict.valid_create hid.smallKey (Dict.get_create id)
    (⟨id, 0, 0, strrep text⟩ : Bundle)
  exact ⟨⟨hvalid, Dict.valid_create, fun i _ => Dict.get_create i⟩, (hget id hid.smallKey).trans (if_pos rfl)⟩

/-- The first bundle that is added. -/
theorem add_first {id : ℤ} (hid : AddId id) {text : CStr} (hne : text ≠ []) (hshort : text.length < addSize) :
    vjEventBundledMsgAdd emptyServer id text = .ok (serverWith id text) := by
  have hnone : vjEventBundleGet emptyServer id = none := Dict.get_create id
  have hlen : ¬ (strrep text).length < 1 := by
    rw [strrep_length]
    have := List.length_pos_of_ne_nil hne
    omega
  have hzero : ¬ id = 0 := by
    rw [AddId, vimsBundleStart] at hid
    omega
  have hrange : ¬ (id < vimsBundleStart ∨ vimsBundleEnd < id) := by
    rw [AddId] at hid
    omega
  simp only [vjEventBundledMsgAdd, if_neg (Nat.not_le.mpr hshort), if_neg hzero, if_neg hrange, vjEventBundleNew,
    if_neg hlen, replaceBundle, hnone, vjEventBundleStore, vjEventBundleExists, Option.isSome_none, Bool.not_false, if_true,
    setNetList, if_neg hid.netList]
  rfl

theorem map_casts {β : Type} (l : List ℕ) (f : ℤ → β) :
    (do let a ← l; pure (a : ℤ)).map f = l.map fun i : ℕ => f i := by
  rw [List.bind_eq_flatMap, List.map_flatMap, List.map_eq_flatMap]
  rfl

/-- What is said of bundles that are added one after the other. -/
theorem bundleHistory_adds {text : CStr} (hne : text ≠ []) {n : ℕ} (hn : n ≤ 99) :
    ∀ k < n, bundleHistory ((List.range n).map fun i : ℕ => .add (500 + i) text) (500 + k) =
      some ⟨strrep text, strrep text⟩ := by
  induction n with
  | zero => exact fun k hk => absurd hk (Nat.not_lt_zero k)
  | succ n ih =>
    intro k hk
    have hid : AddId (500 + n) := by
      rw [AddId, vimsBundleStart, vimsBundleEnd]
      omega
    rw [List.range_succ, List.map_append, bundleHistory, List.foldl_append]
    show noteAdd (bundleHistory ((List.range n).map fun i : ℕ => .add (500 + i) text)) (500 + n) text (500 + k) = _
    rw [noteAdd, if_neg (show ¬ (500 + n : ℤ) = 0 by omega), if_pos ⟨hid, hne⟩, Function.update_apply]
    split_ifs with heq
    · rfl
    · exact ih (by omega) k (by omega)

/-- What is said of keys that are bound one after the other. -/
theorem history_registers (n : ℕ) (x : ℤ) :
    history ((List.range n).map fun i : ℕ => .register 500 (1 + i) 0 []) x =
      if 1 ≤ x ∧ x ≤ n then some ⟨500, 500, []⟩ else none := by
  induction n generalizing x with
  | zero => exact (if_neg (by omega)).symm
  | succ n ih =>
    rw [List.range_succ, List.map_append, history, List.foldl_append]
    show note (history ((List.range n).map fun i : ℕ => .register 500 (1 + i) 0 [])) (.register 500 (1 + n) 0 []) x = _
    have hindex : keyIndex (1 + n) 0 = 1 + n := by
      rw [keyIndex]
      omega
    simp only [note, hindex]
    rw [ih (1 + n), if_neg (by omega), Function.update_apply, ih x]
    split_ifs <;> first | rfl | omega

/-- The records of 250 keys run over. -/
theorem keylist_overruns :
    ∃ a b, runOps bundleStep emptyServer longBundle = .ok a ∧ runOps (keyStep someEvents) a.2 manyKeys = .ok b ∧
      ¬ Listed (vjEventSendKeylist b.2) := by
  have hid : AddId 500 := by decide
  have hbundle : isBundleId 500 := by decide
  have hadd := add_first hid (replicate_ne_nil (show 0 < 300 by decide) 65)
    (show (List.replicate 300 65).length < addSize by rw [List.length_replicate]; decide)
  obtain ⟨hkeys, hm⟩ := serverWith_noKeys hid (List.replicate 300 65)
  have ha : runOps bundleStep emptyServer longBundle = .ok ([()], serverWith 500 (List.replicate 300 65)) := by
    rw [longBundle, runOps, bundleStep, hadd]
    rfl
  have hmany : manyKeys = (List.range 250).map fun i : ℕ => .register 500 (1 + i) 0 [] := by
    delta manyKeys
    exact map_casts _ _
  have hok : ∀ op ∈ manyKeys, op.Ok someEvents (serverWith 500 (List.replicate 300 65)) := by
    rw [hmany]
    intro op hop
    obtain ⟨i, hi, rfl⟩ := List.mem_map.mp hop
    rw [List.mem_range] at hi
    refine ⟨.inr ⟨hbundle, Option.isSome_iff_exists.mpr ⟨_, hm⟩⟩, ?_⟩
    rw [ValidKey, sdlkLast]
    omega
  obtain ⟨b, hb, hagree⟩ := run_agrees hkeys manyKeys hok
  rw [hmany] at hagree
  obtain ⟨m, hm', htext⟩ := hagree.texts.get hid.smallKey hm
  have hlong : 255 ≤ m.bundle.length := by
    rw [htext, strrep_length, List.length_replicate]
    decide
  have hsmall : ∀ x ∈ (List.range 250).map fun i : ℕ => (1 + i : ℤ), 1 ≤ x ∧ x ≤ 250 := by
    intro x hx
    obtain ⟨i, hi, rfl⟩ := List.mem_map.mp hx
    rw [List.mem_range] at hi
    omega
  have hget : ∀ x ∈ (List.range 250).map fun i : ℕ => (1 + i : ℤ),
      ∃ ev, b.2.keyboardEvents.get x = some ev ∧ ev.eventId = 500 := by
    intro x hx
    have hx' := hsmall x hx
    have hev := hagree.agree x ⟨by omega, by omega⟩
    rw [history_registers, if_pos (by omega)] at hev
    cases hget : b.2.keyboardEvents.get x with
    | none =>
      rw [hget] at hev
      exact hev.elim
    | some ev =>
      rw [hget] at hev
      exact ⟨ev, rfl, hev.2.1⟩
  have hnodup : ((List.range 250).map fun i : ℕ => (1 + i : ℤ)).Nodup :=
    List.nodup_range.map fun i j hij => by
      have hij : (1 + i : ℤ) = 1 + j := hij
      omega
  have hle := keyRecords_ge hagree.keys hbundle hm' hlong (fun x hx => ⟨by have := hsmall x hx; omega,
    by have := hsmall x hx; omega⟩) hnodup hget
  rw [List.length_map, List.length_range] at hle
  refine ⟨_, b, ha, hb, fun hlisted => ?_⟩
  have hlt := ((keylist_listed_iff b.2).mp hlisted).2
  exact absurd (hle.trans_lt hlt) (by decide)

/-- The records of seventy bundles run over. -/
theorem bundlelist_overruns :
    ∃ a, runOps bundleStep emptyServer manyBundles = .ok a ∧
      ¬ Listed (vjEventSendBundles someEvents noTexts a.2) := by
  have hmany : manyBundles = (List.range 70).map fun i : ℕ => .add (500 + i) (List.replicate 1000 65) := by
    delta manyBundles
    exact map_casts _ _
  have hops : ∀ op ∈ manyBundles, op.Ok ∧ op.Short := by
    rw [hmany]
    intro op hop
    obtain ⟨i, -, rfl⟩ := List.mem_map.mp hop
    refine ⟨trivial, ?_⟩
    rw [BundleOp.Short, List.length_replicate]
    decide
  obtain ⟨a, ha, hkeep⟩ := run_keeps emptyServer_noBundles manyBundles (fun op hop => (hops op hop).1)
    fun op hop => (hops op hop).2
  rw [hmany] at hkeep
  have hget : ∀ k : ℕ, k < 70 → ∃ m, vjEventBundleGet a.2 (500 + k) = some m ∧ m.bundle.length = 1000 := by
    intro k hk
    have hb := bundleHistory_adds (replicate_ne_nil (show 0 < 1000 by decide) 65) (show 70 ≤ 99 by decide) k hk
    rcases hkeep.cases (show SmallKey (500 + k) by rw [SmallKey]; omega) with ⟨-, hnone⟩ | ⟨b, hm, hb'⟩
    · rw [hnone] at hb
      cases hb
    · rw [hb', Option.some.injEq] at hb
      refine ⟨_, hm, ?_⟩
      rw [hb, strrep_length, List.length_replicate]
  have hle := @bundleRecords_ge someEvents noTexts a.2 70 (by decide) hget
  refine ⟨a, ha, fun hlisted => ?_⟩
  have hlt := ((bundlelist_listed_iff someEvents noTexts a.2).mp hlisted).2
  exact absurd (hle.trans_lt hlt) (by decide)

/-- The records of 250 keys are 67000 bytes, and those of seventy bundles 79380: both run over their buffers. -/
theorem listings_overrun :
    (∃ a b, runOps bundleStep emptyServer longBundle = .ok a ∧ runOps (keyStep someEvents) a.2 manyKeys = .ok b ∧
        ¬ Listed (vjEventSendKeylist b.2)) ∧
      ∃ a, runOps bundleStep emptyServer manyBundles = .ok a ∧
        ¬ Listed (vjEventSendBundles someEvents noTexts a.2) :=
  ⟨keylist_overruns, bundlelist_overruns⟩

end Veejay.Registry
