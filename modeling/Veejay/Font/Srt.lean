import Veejay.CLib.Fields
import Veejay.Vevo.Port

/-!
# Subtitles in a file

`vj_font_save_srt` writes the subtitles of a font as blocks of lines, each behind the other; `vj_font_load_srt` takes
the blocks apart again (`veejay/vj-font.c`).  The blank line that ends a block belongs to the text for the reader, and
a text ends at its first line.

* `vjFontSaveSrt`, `vjFontLoadSrt` — the writer and the reader;
* `loadBlock_spec`, `loadLoop_closed` — what one block stores, and what all texts that are loaded look like;
* `loadLoop_halts`, `loadLoop_behind` — the loop has rounds enough; it gives up once it is two bytes behind;
* `RoundTrip` — what was saved is loaded, and saved again as it was;
* `roundTrip_iff` — **nothing that is saved comes back.**
-/

namespace Veejay.Font

open CLib Veejay.Vevo

/-! ## The dictionary -/

/-- What the conversions of positions rest on: `mpeg_timecode` at the rate of the font, and the sum of
`vj_font_timecode_to_pos`, which is computed with floating point numbers. -/
structure FontLib where
  mpegTimecode : ℤ → ℤ × ℤ × ℤ × ℤ
  framesOf : ℤ → ℤ → ℤ → ℤ → ℤ

/-- `srt_seq_t`, less what is not in a file. -/
structure SrtSeq where
  id : ℤ
  text : CStr
  start : ℤ
  end_ : ℤ
  deriving DecidableEq

/-- The dictionary: its properties in the order of its index; a subtitle that was deleted leaves its name. -/
abbrev Dict := List (CStr × Option SrtSeq)

/-- `make_key` -/
def makeKey (id : ℤ) : CStr := lit "s" ++ decimalInt id

/-- A vevo port knows its properties by the hash codes of their names. -/
def sameName (key : CStr) (item : CStr × Option SrtSeq) : Bool := hashKeyCode item.1 == hashKeyCode key

/-- `vevo_property_get (dictionary, key, 0, &srt)` -/
def getSrt (dict : Dict) (key : CStr) : Option SrtSeq := (dict.find? (sameName key)).bind Prod.snd

/-- `vj_font_store_srt_sequence` -/
def vjFontStoreSrtSequence (dict : Dict) (s : SrtSeq) : Dict :=
  if dict.any (sameName (makeKey s.id)) then
    dict.map fun item => if sameName (makeKey s.id) item then (item.1, some s) else item
  else dict ++ [(makeKey s.id, some s)]

/-! ## The writer -/

/-- `%2d` -/
def blankPadded (z : ℤ) : CStr := List.replicate (2 - (decimalInt z).length) 32 ++ decimalInt z

/-- `%2.2d` -/
def twoDigits (z : ℤ) : CStr := if z < 0 then 45 :: zeroPadded 2 z.natAbs else zeroPadded 2 z.natAbs

/-- `vj_font_pos_to_timecode` -/
def vjFontPosToTimecode (lib : FontLib) (pos : ℤ) : CStr :=
  let (h, m, s, f) := lib.mpegTimecode pos
  (blankPadded h ++ (lit ":" ++ (twoDigits m ++ (lit ":" ++ (twoDigits s ++ (lit ":" ++ twoDigits f)))))).take 31

/-- The line with the two positions. -/
def timecodeLine (lib : FontLib) (s : SrtSeq) : CStr :=
  vjFontPosToTimecode lib s.start ++ (lit " --> " ++ vjFontPosToTimecode lib s.end_)

/-- `fprintf (f, "%d\n%s --> %s\n%s\n\n", …)` -/
def entryText (lib : FontLib) (s : SrtSeq) : List UInt8 :=
  decimalInt s.id ++ newline :: (timecodeLine lib s ++ newline :: (s.text ++ [newline, newline]))

/-- The subtitles that the loop of `vj_font_save_srt` writes. -/
def savedSeqs (dict : Dict) : List SrtSeq :=
  (dict.filterMap fun item => getSrt dict item.1).filter fun s => !s.text.isEmpty

/-- `vj_font_save_srt`: the file, if one is written. -/
def vjFontSaveSrt (lib : FontLib) (dict : Dict) : Option (List UInt8) :=
  if dict.isEmpty then none else some ((savedSeqs dict).flatMap (entryText lib))

/-! ## The reader -/

/-- The loop `while (*p != '\0' && *p != '\n')`: the bytes in front of its end, and those from there on. -/
def scanLine : List UInt8 → Exec (CStr × List UInt8)
  | [] => .error .outOfBounds
  | c :: s =>
      if c = 0 ∨ c = newline then .ok ([], c :: s)
      else do
        let (line, rest) ← scanLine s
        .ok (c :: line, rest)

/-- `vj_font_split_str` -/
def vjFontSplitStr (str : List UInt8) : Exec (Option CStr) := do
  let (line, rest) ← scanLine str
  let res := if rest.head? = some newline then line ++ [newline] else line
  .ok (if res = [] then none else some res)

/-- `vj_font_split_strd` -/
def vjFontSplitStrd (str : List UInt8) : Exec (Option CStr) := do
  let (line, rest) ← scanLine str
  if rest.head? = some newline then
    match rest.tail with
    | [] => .error .outOfBounds
    | c :: _ => .ok (if c = newline then some (line ++ [newline, newline]) else none)
  else .ok none

/-- `%s`: a word, and what follows it. -/
def nextWord (s : CStr) : CStr × CStr :=
  let t := s.dropWhile isSpace
  (t.takeWhile fun c => !isSpace c, t.dropWhile fun c => !isSpace c)

/-- `sscanf (tc_srt, "%s %*s %s", tc1, tc2)`, into buffers of twenty bytes -/
def scanTimecodes (line : CStr) : Exec (CStr × CStr) :=
  let (tc1, rest) := nextWord line
  let (_, rest) := nextWord rest
  let (tc2, _) := nextWord rest
  if tc1.length < 20 ∧ tc2.length < 20 then .ok (tc1, tc2) else .error .overrun

/-- Numbers with a colon between them, as `sscanf` reads them. -/
def scanParts : List ℕ → CStr → List ℤ
  | [], _ => []
  | w :: ws, s =>
      match scanField w s with
      | .val v rest => v :: if rest.head? = some 58 then scanParts ws rest.tail else []
      | _ => []

/-- `vj_font_timecode_to_pos` -/
def vjFontTimecodeToPos (lib : FontLib) (tc : CStr) : Exec ℤ :=
  match scanParts [1, 2, 2, 2] tc with
  | [h, m, s, f] => .ok (lib.framesOf h m s f)
  | _ => .error .uninitialised

/-- `vj_font_substract_timecodes` -/
def vjFontSubstractTimecodes (lib : FontLib) (tcSrt : CStr) : Exec (ℤ × ℤ) := do
  let (tc1, tc2) ← scanTimecodes tcSrt
  let lo ← vjFontTimecodeToPos lib tc1
  let hi ← vjFontTimecodeToPos lib tc2
  .ok (lo, hi)

/-- One round of the loop of `vj_font_load_srt`: what is left of the file, and the dictionary; nothing where it gives
up. -/
def loadBlock (lib : FontLib) (str : List UInt8) (dict : Dict) : Exec (Option (List UInt8 × Dict)) := do
  match ← vjFontSplitStr str with
  | none => .ok none
  | some line =>
    let str := str.drop line.length
    match ← vjFontSplitStr str with
    | none => .ok none
    | some timecode =>
      let str := str.drop timecode.length
      match ← vjFontSplitStrd str with
      | none => .ok none
      | some text =>
        let (lo, hi) ← vjFontSubstractTimecodes lib timecode
        if lo = hi then .ok none
        else .ok (some (str.drop text.length, vjFontStoreSrtSequence dict ⟨atoi line, text, lo, hi⟩))

/-- The loop of `vj_font_load_srt`: what it returns, and the dictionary. -/
def loadLoop (lib : FontLib) : ℕ → List UInt8 → Dict → Exec (Bool × Dict)
  | 0, str, dict => if str.isEmpty then .ok (true, dict) else .error .outOfFuel
  | fuel + 1, str, dict =>
      if str.isEmpty then .ok (true, dict)
      else do
        match ← loadBlock lib str dict with
        | none => .ok (false, dict)
        | some (str, dict) => loadLoop lib fuel str dict

/-- `vj_font_load_srt`, for a file that is there. -/
def vjFontLoadSrt (lib : FontLib) (file : List UInt8) (dict : Dict) : Exec (Bool × Dict) :=
  if file.isEmpty then .ok (false, dict) else loadLoop lib file.length file dict

/-! ## The round trip -/

/-- The subtitles of a dictionary. -/
def sequences (dict : Dict) : List SrtSeq := dict.filterMap Prod.snd

/-- What of a subtitle is to come back. -/
def SrtSeq.content (s : SrtSeq) : CStr × ℤ × ℤ := (s.text, s.start, s.end_)

/-- The file that is saved can be loaded into an empty dictionary, which then has the subtitles in order, and is saved
as the same file. -/
def RoundTrip (lib : FontLib) (dict : Dict) : Prop :=
  ∀ file ∈ vjFontSaveSrt lib dict, Ensures (vjFontLoadSrt lib file []) fun r =>
    r.1 = true ∧ (sequences r.2).map SrtSeq.content = (sequences dict).map SrtSeq.content ∧
      vjFontSaveSrt lib r.2 = some file

/-! ## Lines -/

theorem scanLine_append {line : CStr} (h0 : (0 : UInt8) ∉ line) (hnl : newline ∉ line) (rest : List UInt8) :
    scanLine (line ++ newline :: rest) = .ok (line, newline :: rest) := by
  induction line with
  | nil => rfl
  | cons c line ih =>
    obtain ⟨hc0, h0⟩ := not_or.mp (fun h => h0 (List.mem_cons.mpr h))
    obtain ⟨hcn, hnl⟩ := not_or.mp (fun h => hnl (List.mem_cons.mpr h))
    rw [List.cons_append, scanLine, if_neg (not_or.mpr ⟨fun h => hc0 h.symm, fun h => hcn h.symm⟩), ih h0 hnl]
    rfl

/-- What was scanned has no line break. -/
theorem scanLine_spec {str : List UInt8} : ∀ {line : CStr} {rest : List UInt8}, scanLine str = .ok (line, rest) →
    str = line ++ rest ∧ newline ∉ line := by
  induction str with
  | nil =>
    intro line rest h
    cases h
  | cons c s ih =>
    intro line rest h
    rw [scanLine] at h
    split_ifs at h with hc
    · obtain ⟨rfl, rfl⟩ := Prod.mk.inj (Except.ok.inj h)
      exact ⟨rfl, List.not_mem_nil⟩
    · obtain ⟨⟨line', rest'⟩, hscan, h⟩ := bind_eq_ok.mp h
      obtain ⟨rfl, rfl⟩ := Prod.mk.inj (Except.ok.inj h)
      obtain ⟨rfl, hnl⟩ := ih hscan
      refine ⟨rfl, fun hmem => ?_⟩
      rcases List.mem_cons.mp hmem with heq | hmem
      · exact hc (.inr heq.symm)
      · exact hnl hmem

theorem vjFontSplitStr_append {line : CStr} (h0 : (0 : UInt8) ∉ line) (hnl : newline ∉ line) (rest : List UInt8) :
    vjFontSplitStr (line ++ newline :: rest) = .ok (some (line ++ [newline])) := by
  rw [vjFontSplitStr, scanLine_append h0 hnl, ok_bind]
  show Except.ok (if line ++ [newline] = [] then none else some (line ++ [newline])) = _
  rw [if_neg (List.append_ne_nil_of_right_ne_nil _ (List.cons_ne_nil _ _))]

theorem vjFontSplitStrd_append {line : CStr} (h0 : (0 : UInt8) ∉ line) (hnl : newline ∉ line) (c : UInt8)
    (rest : List UInt8) : vjFontSplitStrd (line ++ newline :: c :: rest) =
      .ok (if c = newline then some (line ++ [newline, newline]) else none) := by
  rw [vjFontSplitStrd, scanLine_append h0 hnl, ok_bind]
  rfl

/-- A text that is loaded is one line, with the two line breaks behind it. -/
def Closed (text : CStr) : Prop := ∃ line, newline ∉ line ∧ text = line ++ [newline, newline]

theorem vjFontSplitStrd_closed {str : List UInt8} {text : CStr} (h : vjFontSplitStrd str = .ok (some text)) :
    Closed text := by
  rw [vjFontSplitStrd] at h
  obtain ⟨⟨line, rest⟩, hscan, h⟩ := bind_eq_ok.mp h
  dsimp only at h
  split_ifs at h with hhead
  · cases htail : rest.tail with
    | nil =>
      rw [htail] at h
      cases h
    | cons c rest' =>
      rw [htail] at h
      obtain h := Except.ok.inj h
      split_ifs at h with hc
      obtain rfl := Option.some.inj h
      exact ⟨line, (scanLine_spec hscan).2, rfl⟩
  · cases Except.ok.inj h

/-! ## Loading -/

section Load

variable {lib : FontLib}

/-- **One block** stores a subtitle whose text is closed. -/
theorem loadBlock_spec {str rest : List UInt8} {dict dict' : Dict}
    (h : loadBlock lib str dict = .ok (some (rest, dict'))) :
    ∃ s, Closed s.text ∧ dict' = vjFontStoreSrtSequence dict s := by
  rw [loadBlock] at h
  obtain ⟨line, -, h⟩ := bind_eq_ok.mp h
  cases line with
  | none => cases Except.ok.inj h
  | some line =>
    obtain ⟨timecode, -, h⟩ := bind_eq_ok.mp h
    cases timecode with
    | none => cases Except.ok.inj h
    | some timecode =>
      obtain ⟨text, htext, h⟩ := bind_eq_ok.mp h
      cases text with
      | none => cases Except.ok.inj h
      | some text =>
        obtain ⟨⟨lo, hi⟩, -, h⟩ := bind_eq_ok.mp h
        dsimp only at h
        split_ifs at h with hlo
        · cases Except.ok.inj h
        · obtain ⟨-, rfl⟩ := Prod.mk.inj (Option.some.inj (Except.ok.inj h))
          exact ⟨_, vjFontSplitStrd_closed htext, rfl⟩

/-- All texts of the dictionary are closed. -/
def AllClosed (dict : Dict) : Prop := ∀ s ∈ sequences dict, Closed s.text

theorem AllClosed.store {dict : Dict} (h : AllClosed dict) {s : SrtSeq} (hs : Closed s.text) :
    AllClosed (vjFontStoreSrtSequence dict s) := by
  intro t ht
  obtain ⟨item, hitem, hsome⟩ := List.mem_filterMap.mp ht
  rw [vjFontStoreSrtSequence] at hitem
  split_ifs at hitem with hany
  · obtain ⟨old, hold, rfl⟩ := List.mem_map.mp hitem
    split_ifs at hsome with hsame
    · obtain rfl := Option.some.inj hsome
      exact hs
    · exact h t (List.mem_filterMap.mpr ⟨old, hold, hsome⟩)
  · rcases List.mem_append.mp hitem with hitem | hitem
    · exact h t (List.mem_filterMap.mpr ⟨item, hitem, hsome⟩)
    · obtain rfl := List.mem_singleton.mp hitem
      obtain rfl := Option.some.inj hsome
      exact hs

/-- **The texts that are loaded** are closed. -/
theorem loadLoop_closed (fuel : ℕ) : ∀ {str : List UInt8} {dict : Dict} {r : Bool × Dict}, AllClosed dict →
    loadLoop lib fuel str dict = .ok r → AllClosed r.2 := by
  induction fuel with
  | zero =>
    intro str dict r hdict h
    rw [loadLoop] at h
    split_ifs at h
    obtain rfl := Except.ok.inj h
    exact hdict
  | succ fuel ih =>
    intro str dict r hdict h
    rw [loadLoop] at h
    split_ifs at h
    · obtain rfl := Except.ok.inj h
      exact hdict
    · obtain ⟨block, hblock, h⟩ := bind_eq_ok.mp h
      cases block with
      | none =>
        obtain rfl := Except.ok.inj h
        exact hdict
      | some block =>
        obtain ⟨rest, dict'⟩ := block
        obtain ⟨s, hs, rfl⟩ := loadBlock_spec hblock
        exact ih (hdict.store hs) h

/-- A block whose text is one line: what is left begins right behind its blank line. -/
theorem loadBlock_line (lib : FontLib) {id timecode text : CStr} (hid : (0 : UInt8) ∉ id ∧ newline ∉ id)
    (htc : (0 : UInt8) ∉ timecode ∧ newline ∉ timecode) (htext : (0 : UInt8) ∉ text ∧ newline ∉ text)
    (rest : List UInt8) (dict : Dict) :
    loadBlock lib (id ++ newline :: (timecode ++ newline :: (text ++ newline :: newline :: rest))) dict =
      vjFontSubstractTimecodes lib (timecode ++ [newline]) >>= fun r =>
        if r.1 = r.2 then .ok none
        else .ok (some (rest, vjFontStoreSrtSequence dict
          ⟨atoi (id ++ [newline]), text ++ [newline, newline], r.1, r.2⟩)) := by
  have hdrop : ∀ (a b : CStr) (c : List UInt8), (a ++ b ++ c).drop (a ++ b).length = c := fun a b c =>
    List.drop_left' rfl
  have h1 := hdrop id [newline] (timecode ++ newline :: (text ++ newline :: newline :: rest))
  have h2 := hdrop timecode [newline] (text ++ newline :: newline :: rest)
  have h3 := hdrop text [newline, newline] rest
  rw [List.append_assoc] at h1 h2 h3
  rw [loadBlock, vjFontSplitStr_append hid.1 hid.2, ok_bind]
  dsimp only
  rw [show (id ++ newline :: (timecode ++ newline :: (text ++ newline :: newline :: rest))).drop
    (id ++ [newline]).length = timecode ++ newline :: (text ++ newline :: newline :: rest) from h1,
    vjFontSplitStr_append htc.1 htc.2, ok_bind]
  dsimp only
  rw [show (timecode ++ newline :: (text ++ newline :: newline :: rest)).drop (timecode ++ [newline]).length =
    text ++ newline :: newline :: rest from h2, vjFontSplitStrd_append htext.1 htext.2, ok_bind, if_pos rfl]
  dsimp only
  rw [show (text ++ newline :: newline :: rest).drop (text ++ [newline, newline]).length = rest from h3]

end Load

/-! ## The loop comes to an end -/

section Halts

variable {lib : FontLib}

theorem scanLine_readsOnly (str : List UInt8) : ReadsOnly (scanLine str) := by
  induction str with
  | nil => exact readsOnly_error
  | cons c s ih =>
    rw [scanLine]
    split_ifs with hc
    · exact readsOnly_ok _
    · exact ih.bind fun _ => readsOnly_ok _

theorem vjFontSplitStr_readsOnly (str : List UInt8) : ReadsOnly (vjFontSplitStr str) :=
  (scanLine_readsOnly str).bind fun _ => readsOnly_ok _

theorem vjFontSplitStrd_readsOnly (str : List UInt8) : ReadsOnly (vjFontSplitStrd str) := by
  refine (scanLine_readsOnly str).bind fun r => ?_
  dsimp only
  split_ifs
  · cases r.2.tail with
    | nil => exact readsOnly_error
    | cons c rest => exact readsOnly_ok _
  · exact readsOnly_ok _

theorem vjFontTimecodeToPos_halts (tc : CStr) : Halts (vjFontTimecodeToPos lib tc) := by
  rw [vjFontTimecodeToPos]
  split
  · exact halts_ok _
  · exact halts_error (by decide)

theorem scanTimecodes_halts (line : CStr) : Halts (scanTimecodes line) := by
  rw [scanTimecodes]
  dsimp only
  split_ifs
  · exact halts_ok _
  · exact halts_error (by decide)

theorem vjFontSubstractTimecodes_halts (tc : CStr) : Halts (vjFontSubstractTimecodes lib tc) :=
  (scanTimecodes_halts tc).bind fun _ => (vjFontTimecodeToPos_halts _).bind fun _ =>
    (vjFontTimecodeToPos_halts _).bind fun _ => halts_ok _

theorem loadBlock_halts (str : List UInt8) (dict : Dict) : Halts (loadBlock lib str dict) := by
  refine (vjFontSplitStr_readsOnly str).halts.bind fun line => ?_
  cases line with
  | none => exact halts_ok _
  | some line =>
    refine (vjFontSplitStr_readsOnly _).halts.bind fun timecode => ?_
    cases timecode with
    | none => exact halts_ok _
    | some timecode =>
      refine (vjFontSplitStrd_readsOnly _).halts.bind fun text => ?_
      cases text with
      | none => exact halts_ok _
      | some text =>
        refine (vjFontSubstractTimecodes_halts _).bind fun r => ?_
        dsimp only
        split_ifs
        · exact halts_ok _
        · exact halts_ok _

/-- A line that was split off is not empty. -/
theorem vjFontSplitStr_pos {str : List UInt8} {line : CStr} (h : vjFontSplitStr str = .ok (some line)) :
    0 < line.length := by
  obtain ⟨r, -, h⟩ := bind_eq_ok.mp h
  have h := Except.ok.inj h
  generalize (if r.2.head? = some newline then r.1 ++ [newline] else r.1) = res at h
  split_ifs at h with hempty
  obtain rfl := Option.some.inj h
  exact List.length_pos_iff.mpr hempty

/-- Each round takes a byte of the file at least. -/
theorem loadBlock_shorter {str rest : List UInt8} {dict dict' : Dict} (hne : str ≠ [])
    (h : loadBlock lib str dict = .ok (some (rest, dict'))) : rest.length < str.length := by
  have hlen := List.length_pos_iff.mpr hne
  obtain ⟨line, hline, h⟩ := bind_eq_ok.mp h
  cases line with
  | none => cases Except.ok.inj h
  | some line =>
    have hpos := vjFontSplitStr_pos hline
    obtain ⟨timecode, -, h⟩ := bind_eq_ok.mp h
    cases timecode with
    | none => cases Except.ok.inj h
    | some timecode =>
      obtain ⟨text, htext, h⟩ := bind_eq_ok.mp h
      cases text with
      | none => cases Except.ok.inj h
      | some text =>
        obtain ⟨⟨lo, hi⟩, -, h⟩ := bind_eq_ok.mp h
        dsimp only at h
        split_ifs at h with hlo
        · cases Except.ok.inj h
        · obtain ⟨rfl, -⟩ := Prod.mk.inj (Option.some.inj (Except.ok.inj h))
          simp only [List.length_drop]
          omega

/-- **The loop** has rounds enough for every file. -/
theorem loadLoop_halts (fuel : ℕ) : ∀ {str : List UInt8} {dict : Dict}, str.length ≤ fuel →
    Halts (loadLoop lib fuel str dict) := by
  induction fuel with
  | zero =>
    intro str dict hlen
    obtain rfl := List.eq_nil_of_length_eq_zero (Nat.le_zero.mp hlen)
    exact halts_ok _
  | succ fuel ih =>
    intro str dict hlen
    rw [loadLoop]
    split_ifs with hempty
    · exact halts_ok _
    · cases hblock : loadBlock lib str dict with
      | error e => exact fun h => loadBlock_halts str dict (hblock.trans (congrArg Except.error (Except.error.inj h)))
      | ok block =>
        cases block with
        | none => exact halts_ok _
        | some block =>
          have hshort := loadBlock_shorter (fun h => hempty (List.isEmpty_iff.mpr h)) hblock
          exact ih (by omega)

theorem vjFontLoadSrt_halts (file : List UInt8) (dict : Dict) : Halts (vjFontLoadSrt lib file dict) := by
  rw [vjFontLoadSrt]
  split_ifs
  · exact halts_ok _
  · exact loadLoop_halts file.length le_rfl

end Halts

/-! ## What is written -/

section Written

variable {lib : FontLib}

/-- What neither ends a line nor a string. -/
def Plain (c : UInt8) : Prop := c ≠ 0 ∧ c ≠ newline

instance (c : UInt8) : Decidable (Plain c) := inferInstanceAs (Decidable (_ ∧ _))

theorem plain_of_number {c : UInt8} (h : isDigit c = true ∨ c = 45) : Plain c := by
  rcases h with hd | rfl
  · exact ⟨(isDigit_ne hd).2.2.2.2.1, (isDigit_ne hd).2.2.2.1⟩
  · decide

theorem plain_twoDigits {z : ℤ} {c : UInt8} (h : c ∈ twoDigits z) : Plain c := by
  rw [twoDigits] at h
  split_ifs at h
  · rcases List.mem_cons.mp h with rfl | h
    · decide
    · exact plain_of_number (.inl (isDigit_of_mem_zeroPadded h))
  · exact plain_of_number (.inl (isDigit_of_mem_zeroPadded h))

theorem plain_blankPadded {z : ℤ} {c : UInt8} (h : c ∈ blankPadded z) : Plain c := by
  rcases List.mem_append.mp h with h | h
  · obtain rfl := List.eq_of_mem_replicate h
    decide
  · exact plain_of_number (mem_decimalInt h)

theorem plain_vjFontPosToTimecode {pos : ℤ} {c : UInt8} (h : c ∈ vjFontPosToTimecode lib pos) : Plain c := by
  have hcolon : ∀ c ∈ lit ":", Plain c := by
    have hall : (lit ":").all (fun c => Plain c) = true := by decide
    simpa only [List.all_eq_true, decide_eq_true_eq] using hall
  have h := List.mem_of_mem_take h
  simp only [List.mem_append] at h
  rcases h with h | h | h | h | h | h | h
  · exact plain_blankPadded h
  · exact hcolon c h
  · exact plain_twoDigits h
  · exact hcolon c h
  · exact plain_twoDigits h
  · exact hcolon c h
  · exact plain_twoDigits h

/-- The line with the positions is one line. -/
theorem plain_timecodeLine {s : SrtSeq} {c : UInt8} (h : c ∈ timecodeLine lib s) : Plain c := by
  have harrow : ∀ c ∈ lit " --> ", Plain c := by
    have hall : (lit " --> ").all (fun c => Plain c) = true := by decide
    simpa only [List.all_eq_true, decide_eq_true_eq] using hall
  rcases List.mem_append.mp h with h | h
  · exact plain_vjFontPosToTimecode h
  · rcases List.mem_append.mp h with h | h
    · exact harrow c h
    · exact plain_vjFontPosToTimecode h

theorem timecodeLine_ne_nil (lib : FontLib) (s : SrtSeq) : timecodeLine lib s ≠ [] :=
  List.append_ne_nil_of_right_ne_nil _ (List.append_ne_nil_of_left_ne_nil (by decide) _)

theorem not_mem_timecodeLine (lib : FontLib) (s : SrtSeq) : (0 : UInt8) ∉ timecodeLine lib s ∧ newline ∉ timecodeLine lib s :=
  ⟨fun h => (plain_timecodeLine h).1 rfl, fun h => (plain_timecodeLine h).2 rfl⟩

theorem mem_savedSeqs {dict : Dict} {s : SrtSeq} (h : s ∈ savedSeqs dict) : s ∈ sequences dict := by
  obtain ⟨item, -, hget⟩ := List.mem_filterMap.mp (List.mem_filter.mp h).1
  obtain ⟨found, hfind, hsnd⟩ := Option.bind_eq_some_iff.mp hget
  exact List.mem_filterMap.mpr ⟨found, List.mem_of_find?_eq_some hfind, hsnd⟩

/-- **A reader that is two bytes behind** takes the number of the next block for a text, and gives up. -/
theorem loadLoop_behind (fuel : ℕ) (ss : List SrtSeq) (dict dict' : Dict) :
    loadLoop lib fuel (newline :: newline :: ss.flatMap (entryText lib)) dict ≠ .ok (true, dict') := by
  have hempty : ∀ rest : List UInt8, vjFontSplitStr (newline :: rest) = .ok (some [newline]) := fun rest =>
    vjFontSplitStr_append List.not_mem_nil List.not_mem_nil rest
  cases fuel with
  | zero => exact fun h => nomatch h
  | succ fuel =>
    rw [loadLoop, if_neg (fun h => nomatch h), loadBlock, hempty, ok_bind]
    dsimp only
    rw [show (newline :: newline :: ss.flatMap (entryText lib)).drop [newline].length =
      newline :: ss.flatMap (entryText lib) from rfl, hempty, ok_bind]
    dsimp only
    rw [show (newline :: ss.flatMap (entryText lib)).drop [newline].length = ss.flatMap (entryText lib) from rfl]
    cases ss with
    | nil => exact fun h => nomatch h
    | cons s ss =>
      obtain ⟨c, line, hline⟩ := List.exists_cons_of_ne_nil (timecodeLine_ne_nil lib s)
      have hc : c ≠ newline := (plain_timecodeLine (hline ▸ List.mem_cons_self)).2
      rw [List.flatMap_cons, entryText, hline, List.append_assoc, List.cons_append, List.cons_append,
        List.cons_append, vjFontSplitStrd_append (not_mem_decimalInt s.id).2 (not_mem_decimalInt s.id).1,
        if_neg hc]
      exact fun h => nomatch h

end Written

/-! ## What comes back -/

section RoundTrip

variable {lib : FontLib}

/-- A file that was loaded to its end. -/
theorem vjFontLoadSrt_loaded {file : List UInt8} {dict loaded : Dict}
    (h : vjFontLoadSrt lib file dict = .ok (true, loaded)) :
    file.isEmpty = false ∧ loadLoop lib file.length file dict = .ok (true, loaded) := by
  rw [vjFontLoadSrt] at h
  split_ifs at h with hempty
  · cases Except.ok.inj h
  · exact ⟨Bool.eq_false_of_not_eq_true hempty, h⟩

/-- A file that begins with a subtitle of a closed text is not loaded: its blank line ends the block too soon. -/
theorem vjFontLoadSrt_closed {s : SrtSeq} (hclosed : Closed s.text) (h0 : (0 : UInt8) ∉ s.text) (ss : List SrtSeq)
    (dict : Dict) : vjFontLoadSrt lib ((s :: ss).flatMap (entryText lib)) [] ≠ .ok (true, dict) := by
  obtain ⟨line, hline, htext⟩ := hclosed
  have hline0 : (0 : UInt8) ∉ line := fun h => h0 (htext ▸ List.mem_append_left _ h)
  have hfile : (s :: ss).flatMap (entryText lib) = decimalInt s.id ++ newline :: (timecodeLine lib s ++
      newline :: (line ++ newline :: newline :: (newline :: newline :: ss.flatMap (entryText lib)))) := by
    rw [List.flatMap_cons, entryText, htext]
    simp only [List.append_assoc, List.cons_append, List.nil_append]
  have hblock := loadBlock_line lib (not_mem_decimalInt s.id).symm (not_mem_timecodeLine lib s)
    ⟨hline0, hline⟩ (newline :: newline :: ss.flatMap (entryText lib)) []
  rw [← hfile] at hblock
  intro h
  obtain ⟨hempty, h⟩ := vjFontLoadSrt_loaded h
  cases hlen : ((s :: ss).flatMap (entryText lib)).length with
  | zero =>
    rw [List.eq_nil_of_length_eq_zero hlen] at hempty
    cases hempty
  | succ fuel =>
    rw [hlen, loadLoop, hempty, if_neg Bool.false_ne_true, hblock] at h
    obtain ⟨block, hcodes, h⟩ := bind_eq_ok.mp h
    obtain ⟨r, -, hcodes⟩ := bind_eq_ok.mp hcodes
    split_ifs at hcodes with hlo
    · obtain rfl := Except.ok.inj hcodes
      cases Except.ok.inj h
    · obtain rfl := Except.ok.inj hcodes
      exact loadLoop_behind fuel ss _ _ h

/-- **Subtitles that were saved never come back as they were**: the file is loaded as it was saved only where there
was nothing to save. -/
theorem roundTrip_iff (lib : FontLib) {dict : Dict}
    (htexts : ∀ s ∈ sequences dict, s.text ≠ [] ∧ (0 : UInt8) ∉ s.text) : RoundTrip lib dict ↔ dict = [] := by
  constructor
  · intro h
    by_contra hne
    obtain ⟨⟨ok, loaded⟩, hload, hok, hcontent, -⟩ := h _ (if_neg (fun hempty => hne (List.isEmpty_iff.mp hempty)))
    obtain rfl : ok = true := hok
    cases hsaved : savedSeqs dict with
    | nil =>
      rw [hsaved] at hload
      cases Except.ok.inj hload
    | cons s ss =>
      rw [hsaved] at hload
      have hs : s ∈ sequences dict := mem_savedSeqs (hsaved ▸ List.mem_cons_self)
      -- the text of the first subtitle is among the texts that were loaded
      have hmem : s.content ∈ (sequences loaded).map SrtSeq.content := by
        rw [hcontent]
        exact List.mem_map_of_mem hs
      obtain ⟨t, ht, heq⟩ := List.mem_map.mp hmem
      have htext : t.text = s.text := congrArg Prod.fst heq
      have hclosed : AllClosed loaded :=
        loadLoop_closed _ (fun u hu => absurd hu List.not_mem_nil) (vjFontLoadSrt_loaded hload).2
      exact vjFontLoadSrt_closed (htext ▸ hclosed t ht) (htexts s hs).2 ss loaded hload
  · rintro rfl file hfile
    cases hfile

end RoundTrip

/-- A font at twenty-five frames a second. -/
def palFont : FontLib where
  mpegTimecode pos := (pos / 90000, pos / 1500 % 60, pos / 25 % 60, pos % 25)
  framesOf h m s f := f + s * 25 + m * 1500 + h * 90000

/-- One subtitle, over the first second. -/
def helloDict : Dict := [(makeKey 1, some ⟨1, lit "Hello", 0, 25⟩)]

/-- The subtitle comes back with its line, and with the blank line behind it. -/
theorem helloDict_loaded : (vjFontSaveSrt palFont helloDict).map (fun file => vjFontLoadSrt palFont file []) =
    some (.ok (true, [(makeKey 1, some ⟨1, lit "Hello\n\n", 0, 25⟩)])) := by
  decide

/-- **One subtitle of one line** does not come back as it was saved. -/
theorem helloDict_not_roundTrip : ¬ RoundTrip palFont helloDict := by
  intro h
  obtain ⟨file, hfile, hload⟩ := Option.map_eq_some_iff.mp helloDict_loaded
  have hcontent := (Ensures.apply (h file hfile) hload).2.1
  exact absurd hcontent (by decide)

/-- The condition is met by that font. -/
theorem roundTrip_hello : ¬ RoundTrip palFont helloDict := fun h =>
  absurd ((roundTrip_iff palFont (by decide)).mp h) (List.cons_ne_nil _ _)

end Veejay.Font
