import Veejay.CLib.Memory
import Veejay.Client.Receive
import Veejay.Font.Srt

/-!
# The list of subtitles

The server sends the names of the subtitles that a font has, a blank behind each (`vj_event_get_srt_list`).  The client
takes them apart with `tokenize_on_space`, whose loop counts up the byte that it looks at, and not the pointer.

* `vjFontGetSequences`, `vjEventGetSrtList` — the names, and the reply;
* `tokenizeOnSpace`, `reloadSrt` — a token, and the loop over the reply;
* `tokenizeOnSpace_text` — a token of a text is empty, and its first byte is gone;
* `srtListed_iff` — **the client lists the names exactly where there are none**.
-/

namespace Veejay.Client

open CLib Veejay.Font

/-! ## The reply -/

/-- The names of the subtitles: their numbers. -/
def storedNames (dict : Dict) : List CStr := dict.filterMap fun item => (getSrt dict item.1).map fun s => decimalInt s.id

/-- `vj_font_get_sequences`: each name is printed into sixteen bytes. -/
def vjFontGetSequences (dict : Dict) : Option (List CStr) :=
  let res := (storedNames dict).map fun name => name.take 15
  if res = [] then none else some res

/-- The bytes that `vj_event_get_srt_list` counts for a name. -/
def srtRoom (name : CStr) : ℕ := if 0 < name.length then name.length + 1 else 0

/-- `vj_event_get_srt_list`, for the dictionary of the font, if it has one: the names are printed behind the first six
digits of the length. -/
def vjEventGetSrtList (dictionary : Option Dict) : List UInt8 :=
  match dictionary with
  | none => lit "000000"
  | some dict =>
    match vjFontGetSequences dict with
    | none => lit "000000"
    | some list =>
      let len := (list.map srtRoom).sum
      if len = 0 then lit "000000" else (zeroPadded 6 len).take 6 ++ list.flatMap fun name => name ++ [32]

/-! ## The client -/

/-- Where the loop of `tokenize_on_space` ends: `'\0'`, a blank, a tab, and 20. -/
def stopsAt (c : UInt8) : Bool := c == 0 || c == 9 || c == 32 || c == 20

/-- The byte under the pointer, and how often it was counted up. -/
structure Counting where
  byte : UInt8
  n : ℕ

/-- `(*p)++; n++` -/
def countUp (s : Counting) : Exec Counting := .ok ⟨s.byte + 1, s.n + 1⟩

/-- `strncpy (r, q, n)`, into zeroed bytes -/
def strncpyFrom (q : List UInt8) (n : ℕ) : Exec CStr :=
  if n ≤ q.length ∨ 0 ∈ q then .ok (cstring (q.take n)) else .error .outOfBounds

/-- `tokenize_on_space`: the token, if there is one, and the memory from the pointer on. -/
def tokenizeOnSpace (q : List UInt8) : Exec (Option CStr × List UInt8) := do
  let c ← byteAt q 0
  let s ← whileLoop (fun s => !stopsAt s.byte) countUp 256 ⟨c, 0⟩
  let q := s.byte :: q.tail
  if s.n = 0 then .ok (none, q)
  else do
    let r ← strncpyFrom q s.n
    .ok (some r, q)

/-- The variables of the loop of `reload_srt`, with the entries that were appended to the box. -/
structure SrtCursor where
  i : ℕ
  srts : List UInt8
  tokens : List CStr
  broken : Bool

/-- One round of the loop of `reload_srt`. -/
def srtStep (s : SrtCursor) : Exec SrtCursor := do
  let t ← tokenizeOnSpace (s.srts.drop s.i)
  let srts := s.srts.take s.i ++ t.2
  match t.1 with
  | none => .ok { s with srts := srts, broken := true }
  | some token => .ok { s with i := s.i + token.length + 1, srts := srts, tokens := s.tokens ++ [token] }

/-- The entries that `reload_srt` appends for a text, which has a zero behind it. -/
def srtEntries (text : CStr) : Exec (List CStr) := do
  let s ← whileLoop (fun s => !s.broken && decide (s.i < text.length)) srtStep text.length ⟨0, text ++ [0], [], false⟩
  .ok s.tokens

/-- `reload_srt`: the entries of the box, unless the client waits for more bytes. -/
def reloadSrt (wire : List UInt8) : Exec (Option (List CStr)) :=
  match recvVims 6 wire with
  | none => .ok none
  | some (none, _) => .ok (some [])
  | some (some text, _) => do
    let entries ← srtEntries text
    .ok (some entries)

/-- **The property**: the client lists the names that are stored, in order. -/
def SrtListed (dict : Dict) : Prop := reloadSrt (vjEventGetSrtList (some dict)) = .ok (some (storedNames dict))

/-! ## Tokens -/

/-- A byte behind the blank is counted up until it is 0. -/
theorem countUp_wraps (k : ℕ) : ∀ (fuel n : ℕ) (c : UInt8), 32 < c.toNat → c.toNat + k = 256 → k ≤ fuel →
    whileLoop (fun s => !stopsAt s.byte) countUp fuel ⟨c, n⟩ = .ok ⟨0, n + k⟩ := by
  induction k with
  | zero =>
    intro fuel n c hc hk hfuel
    have hlt := c.toNat_lt
    omega
  | succ k ih =>
    intro fuel n c hc hk hfuel
    obtain ⟨fuel, rfl⟩ := Nat.exists_eq_succ_of_ne_zero (show fuel ≠ 0 by omega)
    have hgoes : (!stopsAt c) = true := by
      have hne : ∀ d : UInt8, d.toNat ≤ 32 → (c == d) = false := by
        intro d hd
        rw [beq_eq_false_iff_ne]
        rintro rfl
        omega
      rw [stopsAt, hne 0 (by decide), hne 9 (by decide), hne 32 (by decide), hne 20 (by decide)]
      rfl
    have hnext : (c + 1).toNat = (c.toNat + 1) % 256 := UInt8.toNat_add c 1
    rw [Nat.succ_eq_add_one, @whileLoop_succ_of_true Counting (fun s => !stopsAt s.byte) countUp ⟨c, n⟩ hgoes]
    show whileLoop _ countUp fuel ⟨c + 1, n + 1⟩ = _
    by_cases hlast : k = 0
    · subst hlast
      have hzero : c + 1 = 0 := UInt8.toNat_inj.mp (by rw [hnext, UInt8.toNat_zero]; omega)
      rw [hzero]
      exact whileLoop_of_false rfl fuel
    · rw [ih fuel (n + 1) (c + 1) (by omega) (by omega) (by omega), Nat.add_assoc, Nat.add_comm 1 k]

/-- **A token of a text is empty**, and its first byte is gone. -/
theorem tokenizeOnSpace_text {c : UInt8} (hc : 32 < c.toNat) (rest : List UInt8) :
    tokenizeOnSpace (c :: rest) = .ok (some [], 0 :: rest) := by
  have hlt := c.toNat_lt
  have hbyte : byteAt (c :: rest) 0 = .ok c := @byteAt_of_lt (c :: rest) 0 (Nat.succ_pos _)
  rw [tokenizeOnSpace, hbyte, ok_bind, countUp_wraps (256 - c.toNat) 256 0 c hc (by omega) (by omega), ok_bind]
  dsimp only
  obtain ⟨n, hn⟩ := Nat.exists_eq_succ_of_ne_zero (show 0 + (256 - c.toNat) ≠ 0 by omega)
  rw [if_neg (by omega), strncpyFrom, if_pos (.inr (List.mem_cons_self ..)), hn]
  rfl

/-! ## The loop -/

/-- A round only appends entries. -/
theorem srtStep_appends {s s' : SrtCursor} (h : srtStep s = .ok s') : s.tokens <+: s'.tokens := by
  unfold srtStep at h
  obtain ⟨⟨token, q⟩, -, h⟩ := bind_eq_ok.mp h
  cases token with
  | none =>
    obtain rfl := Except.ok.inj h
    exact List.prefix_refl _
  | some token =>
    obtain rfl := Except.ok.inj h
    exact List.prefix_append _ _

/-- **The first entry is empty.** -/
theorem srtEntries_head {c : UInt8} (hc : 32 < c.toNat) {rest : List UInt8} {entries : List CStr}
    (h : srtEntries (c :: rest) = .ok entries) : entries.head? = some [] := by
  unfold srtEntries at h
  obtain ⟨s, hloop, h⟩ := bind_eq_ok.mp h
  obtain rfl := Except.ok.inj h
  have hfirst : srtStep ⟨0, c :: rest ++ [0], [], false⟩ = .ok ⟨1, 0 :: (rest ++ [0]), [[]], false⟩ := by
    rw [srtStep, List.drop_zero, List.cons_append, tokenizeOnSpace_text hc, ok_bind]
    rfl
  rw [List.length_cons, whileLoop_succ_of_true rfl, hfirst, ok_bind] at hloop
  have hkeeps := (whileLoop_ok (fun s : SrtCursor => [[]] <+: s.tokens)
    (fun s s' hs _ hstep => hs.trans (srtStep_appends hstep)) hloop (List.prefix_refl _)).1
  obtain ⟨more, hmore⟩ := hkeeps
  rw [← hmore]
  rfl

/-! ## The list -/

/-- A name begins behind the blank. -/
theorem storedNames_cons {dict : Dict} {name : CStr} (h : name ∈ storedNames dict) :
    ∃ c t, name = c :: t ∧ 32 < c.toNat := by
  obtain ⟨item, -, hitem⟩ := List.mem_filterMap.mp h
  obtain ⟨s, -, rfl⟩ := Option.map_eq_some_iff.mp hitem
  obtain ⟨c, t, hc, hkind⟩ := decimalInt_head s.id
  refine ⟨c, t, hc, ?_⟩
  rcases hkind with hdigit | rfl
  · rw [isDigit, Bool.and_eq_true, decide_eq_true_eq, decide_eq_true_eq] at hdigit
    have hle : (48 : UInt8).toNat ≤ c.toNat := UInt8.le_iff_toNat_le.mp hdigit.1
    have h48 : (48 : UInt8).toNat = 48 := rfl
    omega
  · decide

/-- The first six digits of a length are a length that is not longer. -/
theorem sixDigits_value {n : ℕ} (hn : 0 < n) :
    ((zeroPadded 6 n).take 6).length = 6 ∧ 0 < digitsValue ((zeroPadded 6 n).take 6) ∧
      digitsValue ((zeroPadded 6 n).take 6) ≤ n := by
  have hlen := le_zeroPadded_length 6 n
  refine ⟨by rw [List.length_take]; omega, ?_⟩
  by_cases hfits : n < 10 ^ 6
  · rw [List.take_of_length_le (zeroPadded_length (by decide) hfits).le, digitsValue_zeroPadded]
    exact ⟨hn, Nat.le_refl _⟩
  · exact ⟨zeroPadded_take_pos (by decide) (by omega), (zeroPadded_take_lt (by omega)).le⟩

/-- The client reads a text, which may end early. -/
theorem recvVims_text (c : UInt8) (rest : List UInt8) :
    ∃ t more, recvVims 6 ((zeroPadded 6 (rest.length + 1)).take 6 ++ c :: rest) = some (some (c :: t), more) := by
  obtain ⟨hlen, hpos, hle⟩ := sixDigits_value (Nat.succ_pos rest.length)
  have hdigits : ∀ d ∈ (zeroPadded 6 (rest.length + 1)).take 6, isDigit d = true :=
    fun d hd => isDigit_of_mem_zeroPadded (List.mem_of_mem_take hd)
  rw [Nat.succ_eq_add_one] at hlen hpos hle
  generalize hds : (zeroPadded 6 (rest.length + 1)).take 6 = ds at hlen hpos hle hdigits ⊢
  have hread := vjClientRead_append ds (c :: rest)
  rw [hlen] at hread
  have hval : digitsValue ds < 10 ^ 6 := by
    have hlt := digitsValue_lt hdigits
    rw [hlen] at hlt
    exact hlt
  have hscan : scanInt (cstring ds) = .val (digitsValue ds) [] := by
    rw [cstring_of_not_mem fun hzero => absurd (hdigits 0 hzero) (by decide)]
    have h := @scanField_digits ds [] ds.length (List.ne_nil_of_length_pos (by omega)) hdigits (Nat.le_refl _) (.inl rfl)
    rw [List.append_nil] at h
    exact h
  have hint : intValue (digitsValue ds) = digitsValue ds := intValue_of_fits (by omega) (by omega)
  obtain ⟨v, hv⟩ := Nat.exists_eq_succ_of_ne_zero hpos.ne'
  have hrecv : recvVims 6 (ds ++ c :: rest) = if intValue (digitsValue ds) ≤ 0 ∨ 6 = 0 then some (none, c :: rest)
      else (vjClientRead (intValue (digitsValue ds)).toNat (c :: rest)).bind fun r => some (some r.1, r.2) := by
    rw [recvVims, hread, Option.bind_eq_bind, Option.bind_some]
    dsimp only
    rw [hscan]
  rw [hrecv, hint, if_neg (by omega), Int.toNat_natCast, vjClientRead, if_pos (by rw [List.length_cons]; exact hle), hv]
  exact ⟨rest.take v, rest.drop v, rfl⟩

/-- The room that is counted for names is what they take. -/
theorem srtRoom_sum {list : List CStr} (h : ∀ name ∈ list, name ≠ []) :
    (list.map srtRoom).sum = (list.flatMap fun name => name ++ [32]).length := by
  induction list with
  | nil => rfl
  | cons name list ih =>
    obtain ⟨hname, hrest⟩ := List.forall_mem_cons.mp h
    rw [List.map_cons, List.sum_cons, ih hrest, List.flatMap_cons, List.length_append, List.length_append, srtRoom,
      if_pos (List.length_pos_iff.mpr hname)]
    rfl

/-- The reply is the length of a text that begins with the first name. -/
theorem vjEventGetSrtList_cons {dict : Dict} {c : UInt8} {t : CStr} {names : List CStr}
    (h : storedNames dict = (c :: t) :: names) :
    ∃ rest, vjEventGetSrtList (some dict) = (zeroPadded 6 (rest.length + 1)).take 6 ++ c :: rest := by
  obtain ⟨list, hlist⟩ : ∃ list, list = (storedNames dict).map fun name => name.take 15 := ⟨_, rfl⟩
  have hne : ∀ name ∈ list, name ≠ [] := by
    intro name hname
    rw [hlist] at hname
    obtain ⟨name, hmem, rfl⟩ := List.mem_map.mp hname
    obtain ⟨d, u, rfl, -⟩ := storedNames_cons hmem
    exact List.cons_ne_nil _ _
  have hbody : ∃ rest, (list.flatMap fun name => name ++ [32]) = c :: rest := by
    rw [hlist, h]
    exact ⟨_, rfl⟩
  have hnil : list ≠ [] := by
    rw [hlist, h]
    exact List.cons_ne_nil _ _
  obtain ⟨rest, hrest⟩ := hbody
  have hsum := srtRoom_sum hne
  rw [hrest, List.length_cons] at hsum
  have hsequences : vjFontGetSequences dict = some list := by
    rw [vjFontGetSequences, ← hlist]
    exact if_neg hnil
  refine ⟨rest, ?_⟩
  rw [vjEventGetSrtList, hsequences]
  show (if (list.map srtRoom).sum = 0 then _ else _) = _
  rw [hsum, if_neg (Nat.succ_ne_zero _), hrest]

/-- **The client lists the names exactly where there are none.** -/
theorem srtListed_iff (dict : Dict) : SrtListed dict ↔ storedNames dict = [] := by
  constructor
  · intro h
    by_contra hne
    obtain ⟨name, names, hnames⟩ := List.exists_cons_of_ne_nil hne
    obtain ⟨c, t, rfl, hc⟩ := storedNames_cons (by rw [hnames]; exact List.mem_cons_self ..)
    obtain ⟨rest, hreply⟩ := vjEventGetSrtList_cons hnames
    obtain ⟨t', more, hrecv⟩ := recvVims_text c rest
    rw [SrtListed, hreply, reloadSrt, hrecv] at h
    obtain ⟨entries, hentries, h⟩ := bind_eq_ok.mp h
    have hhead := srtEntries_head hc hentries
    rw [Option.some.inj (Except.ok.inj h), hnames, List.head?_cons] at hhead
    exact absurd (Option.some.inj hhead) (List.cons_ne_nil _ _)
  · intro hnames
    rw [SrtListed, vjEventGetSrtList, vjFontGetSequences, hnames]
    rfl

/-- A font with one subtitle. -/
def oneSubtitle : Dict := [(lit "s1", some ⟨1, lit "text", 0, 10⟩)]

/-- The name of the one subtitle comes out empty. -/
theorem srtList_empty_name :
    vjEventGetSrtList (some oneSubtitle) = lit "0000021 " ∧
      reloadSrt (vjEventGetSrtList (some oneSubtitle)) = .ok (some [[]]) ∧ ¬ SrtListed oneSubtitle := by
  have hentries : reloadSrt (vjEventGetSrtList (some oneSubtitle)) = .ok (some [[]]) := by decide +kernel
  refine ⟨by decide, hentries, fun h => ?_⟩
  exact absurd (Except.ok.inj (hentries.symm.trans h)) (by decide)

end Veejay.Client
