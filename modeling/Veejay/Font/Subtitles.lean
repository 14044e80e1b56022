import Veejay.Font.Srt

/-!
# Subtitles and the render index

The subtitles of a font are allocated one by one; the dictionary holds pointers to them under their names, and
`vj_font_prepare` copies the pointers into an index, which is what is rendered (`veejay/vj-font.c`).  Deleting and
replacing a subtitle frees it.

* `FontState` — the font: dictionary, index, and the subtitles in memory;
* `vjFontPrepare`, `vjFontNewText`, `vjFontUpdateText`, `vjFontDelText`, `vjFontLoadSrt` — the calls that change it;
* `vjFontNorender`, `vjFontRender`, `vjFontGetSequences` — the calls that show it;
* `stepFont` — one command.
-/

namespace Veejay.Subtitles

open CLib Vevo
open Font (FontLib SrtSeq makeKey vjFontSplitStr vjFontSplitStrd vjFontSubstractTimecodes)

/-- The address of a subtitle. -/
abbrev Addr := ℕ

/-- `srt_seq_t`: what is in a file, and the font it is written in. -/
structure Subtitle extends SrtSeq where
  size : ℤ
  font : ℤ

/-- The font and the size that are selected. -/
structure Face where
  currentFont : ℤ
  currentSize : ℤ

/-- What `vj_font_t` rests on: the conversion of positions, `get_default_font`, and `configure`, which selects a size
and a font if it can. -/
structure FontEnv where
  lib : FontLib
  defaultFont : ℤ
  configure : ℤ → ℤ → Face → Bool × Face

/-- The dictionary: its properties in the order of its index; a subtitle that was deleted leaves its name. -/
abbrev Dictionary := List (CStr × Option Addr)

/-- `vj_font_t`, and the subtitles in memory. -/
structure FontState where
  dictionary : Dictionary
  subtitles : Addr → Option Subtitle
  nextAddr : Addr
  index : List (Option Addr)
  autoNumber : ℤ
  face : Face

/-! ## The dictionary -/

/-- A vevo port knows its properties by the hash codes of their names. -/
def sameName (key : CStr) (item : CStr × Option Addr) : Bool := hashKeyCode item.1 == hashKeyCode key

/-- `vevo_property_get (dictionary, key, 0, &srt)` -/
def getSrt (dictionary : Dictionary) (key : CStr) : Option Addr := (dictionary.find? (sameName key)).bind Prod.snd

/-- `vevo_property_set (dictionary, key, VEVO_ATOM_TYPE_VOIDPTR, …)`, with one pointer or with none -/
def setSrt (dictionary : Dictionary) (key : CStr) (srt : Option Addr) : Dictionary :=
  if dictionary.any (sameName key) then
    dictionary.map fun item => if sameName key item then (item.1, srt) else item
  else dictionary ++ [(key, srt)]

/-! ## Subtitles in memory -/

/-- A subtitle is read. -/
def FontState.deref (f : FontState) (a : Addr) : Exec Subtitle :=
  match f.subtitles a with
  | none => .error .useAfterFree
  | some s => .ok s

/-- A subtitle is written to. -/
def FontState.write (f : FontState) (a : Addr) (s : Subtitle) : FontState :=
  { f with subtitles := Function.update f.subtitles a (some s) }

/-- `free (s->text)`, `free (s->key)`, `free (s)` -/
def FontState.free (f : FontState) (a : Addr) : Exec FontState := do
  let _ ← f.deref a
  .ok { f with subtitles := Function.update f.subtitles a none }

/-- `vj_font_new_srt_sequence` -/
def vjFontNewSrtSequence (env : FontEnv) (f : FontState) (s : SrtSeq) : Addr × FontState :=
  (f.nextAddr, { f.write f.nextAddr ⟨s, 40, env.defaultFont⟩ with nextAddr := f.nextAddr + 1 })

/-- `vj_font_store_srt_sequence` -/
def vjFontStoreSrtSequence (f : FontState) (a : Addr) : Exec FontState := do
  let s ← f.deref a
  let key := makeKey s.id
  let f ← match getSrt f.dictionary key with
    | some old => f.free old
    | none => .ok f
  .ok { f with dictionary := setSrt f.dictionary key (some a) }

/-- `vj_font_del_srt_sequence` -/
def vjFontDelSrtSequence (f : FontState) (seqId : ℤ) : Exec FontState :=
  let seqId := if seqId = 0 then f.autoNumber else seqId
  let key := makeKey seqId
  match getSrt f.dictionary key with
  | some srt => do
    let f ← f.free srt
    .ok { f with dictionary := setSrt f.dictionary key none }
  | none => .ok f

/-- `vj_font_srt_sequence_exists` -/
def vjFontSrtSequenceExists (f : FontState) (id : ℤ) : Bool := (getSrt f.dictionary (makeKey id)).isSome

/-! ## The calls that change the font -/

/-- The positions of a subtitle, clipped. -/
def clip (s1 s2 : ℤ) (s : Subtitle) : Subtitle :=
  let s := if s.start > s1 then { s with start := s1 } else s
  if s.end_ > s2 then { s with end_ := s2 } else s

/-- The loop of `vj_font_prepare`: the index, and the font. -/
def prepareLoop (s1 s2 : ℤ) : List CStr → FontState → Exec (List (Option Addr) × FontState)
  | [], f => .ok ([], f)
  | key :: keys, f =>
    match getSrt f.dictionary key with
    | some srt => do
      let s ← f.deref srt
      let (index, f) ← prepareLoop s1 s2 keys (f.write srt (clip s1 s2 s))
      .ok (some srt :: index, f)
    | none => do
      let (index, f) ← prepareLoop s1 s2 keys f
      .ok (none :: index, f)

/-- `vj_font_prepare` -/
def vjFontPrepare (f : FontState) (s1 s2 : ℤ) : Exec (ℤ × FontState) := do
  let (index, f) ← prepareLoop s1 s2 (f.dictionary.map Prod.fst) { f with index := [] }
  .ok (index.length, { f with index := index })

/-- The loop `while (vj_font_srt_sequence_exists (font, an)) an++`, where `left` numbers are left for an `int`. -/
def firstFree (f : FontState) : ℕ → ℤ → Exec ℤ
  | 0, _ => .error .overflow
  | left + 1, an => if vjFontSrtSequenceExists f an = true then firstFree f left (an + 1) else .ok an

/-- A subtitle is made and stored. -/
def storeNew (env : FontEnv) (f : FontState) (s : SrtSeq) : Exec FontState :=
  let (a, f) := vjFontNewSrtSequence env f s
  vjFontStoreSrtSequence f a

/-- `vj_font_new_text` -/
def vjFontNewText (env : FontEnv) (f : FontState) (text : CStr) (lo hi seq : ℤ) : Exec (ℤ × FontState) :=
  if lo = hi then .ok (0, f)
  else do
    let (seq, f) ← if seq = 0 then do
        let an ← firstFree f (2 ^ 31 - f.autoNumber).toNat f.autoNumber
        .ok (an, { f with autoNumber := an })
      else .ok (seq, f)
    let f ← storeNew env f ⟨seq, text, lo, hi⟩
    .ok (seq, f)

/-- `vj_font_del_text` -/
def vjFontDelText (f : FontState) (seq : ℤ) : Exec FontState := vjFontDelSrtSequence { f with autoNumber := seq } seq

/-- The preparing of `vj_font_update_text`: whether it goes on, and the end of the subtitle. -/
def prepareUpdate (f : FontState) (s1 s2 : ℤ) : Exec (Option ℤ × FontState) :=
  if s2 - s1 > f.index.length ∨ f.index.length = 0 then do
    let (n, f) ← vjFontPrepare f s1 s2
    if n ≠ 0 then .ok (some s2, f)
    else do
      -- `while (s2 <= s1) s2++`
      let s2 := if s2 ≤ s1 then s1 + 1 else s2
      let (n, f) ← vjFontPrepare f s1 s2
      .ok (if n ≠ 0 then some s2 else none, f)
  else .ok (some s2, f)

/-- `vj_font_update_text` -/
def vjFontUpdateText (f : FontState) (s1 s2 seq : ℤ) (text : CStr) : Exec FontState :=
  let seq := if seq = 0 then f.autoNumber else seq
  match getSrt f.dictionary (makeKey seq) with
  | none => .ok f
  | some srt => do
    let s1 := if s1 < 0 then 0 else s1
    let s2 := if s2 < 0 then 0 else s2
    match ← prepareUpdate f s1 s2 with
    | (none, f) => .ok f
    | (some s2, f) => do
      let s ← f.deref srt
      .ok { f.write srt { s with text := text, start := s1, end_ := s2 } with autoNumber := seq }

/-- One block of a file, as `vj_font_load_srt` reads it: what is left of the file, and the subtitle; nothing where it
gives up. -/
def readBlock (lib : FontLib) (str : List UInt8) : Exec (Option (List UInt8 × SrtSeq)) := do
  match ← vjFontSplitStr str with
  | none => .ok none
  | some line =>
    let str := str.drop line.length
    match ← vjFontSplitStr str with
    | none => .ok none
    | some timecode =>
      let str := str.drop timecode.length
      match ← vjFontSplitStrd str with
      | none => .ok none
      | some text =>
        let (lo, hi) ← vjFontSubstractTimecodes lib timecode
        if lo = hi then .ok none
        else .ok (some (str.drop text.length, ⟨atoi line, text, lo, hi⟩))

/-- The loop of `vj_font_load_srt`: what it returns, and the font. -/
def loadLoop (env : FontEnv) : ℕ → List UInt8 → FontState → Exec (Bool × FontState)
  | 0, str, f => if str.isEmpty then .ok (true, f) else .error .outOfFuel
  | fuel + 1, str, f =>
    if str.isEmpty then .ok (true, f)
    else do
      match ← readBlock env.lib str with
      | none => .ok (false, f)
      | some (str, s) => do
        let f ← storeNew env f s
        loadLoop env fuel str f

/-- `vj_font_load_srt`, for a file that is there. -/
def vjFontLoadSrt (env : FontEnv) (f : FontState) (file : List UInt8) : Exec (Bool × FontState) :=
  if file.isEmpty then .ok (false, f) else loadLoop env file.length file f

/-- The subtitles of a file, as the loop of `vj_font_load_srt` reads them, and what it returns. -/
def readLoop (lib : FontLib) : ℕ → List UInt8 → Exec (Bool × List SrtSeq)
  | 0, str => if str.isEmpty then .ok (true, []) else .error .outOfFuel
  | fuel + 1, str =>
    if str.isEmpty then .ok (true, [])
    else do
      match ← readBlock lib str with
      | none => .ok (false, [])
      | some (str, s) => do
        let (r, ss) ← readLoop lib fuel str
        .ok (r, s :: ss)

/-! ## The calls that show it -/

/-- The loop of `vj_font_norender`. -/
def countLoop (f : FontState) (position : ℤ) : List (Option Addr) → Exec ℕ
  | [] => .ok 0
  | none :: index => countLoop f position index
  | some a :: index => do
    let s ← f.deref a
    let jobs ← countLoop f position index
    .ok (if s.start ≤ position ∧ s.end_ ≥ position then jobs + 1 else jobs)

/-- `vj_font_norender` -/
def vjFontNorender (f : FontState) (position : ℤ) : Exec ℕ := countLoop f position f.index

/-- The font of a subtitle is selected; where it cannot be, the one before. -/
def selectFace (env : FontEnv) (old : Face) (s : Subtitle) : Bool × Face :=
  if old.currentFont ≠ s.font ∨ old.currentSize ≠ s.size then
    match env.configure s.size s.font old with
    | (true, face) => (true, face)
    | (false, face) => env.configure old.currentSize old.currentFont face
  else (true, old)

/-- The loop of `vj_font_render`: the subtitles that are drawn, and the face that is left. -/
def renderLoop (env : FontEnv) (f : FontState) (position : ℤ) : List (Option Addr) → Face → Exec (List Subtitle × Face)
  | [], face => .ok ([], face)
  | none :: index, face => renderLoop env f position index face
  | some a :: index, face => do
    let s ← f.deref a
    if position < s.start ∨ position > s.end_ then renderLoop env f position index face
    else
      match selectFace env face s with
      | (false, face) => .ok ([], face)
      | (true, face) => do
        let (drawn, face) ← renderLoop env f position index face
        .ok (s :: drawn, face)

/-- `vj_font_render` -/
def vjFontRender (env : FontEnv) (f : FontState) (position : ℤ) : Exec (List Subtitle × FontState) := do
  let (drawn, face) ← renderLoop env f position f.index f.face
  .ok (drawn, { f with face := face })

/-- The loop of `vj_font_get_sequences`. -/
def listLoop (f : FontState) : List CStr → Exec (List CStr)
  | [] => .ok []
  | key :: keys =>
    match getSrt f.dictionary key with
    | none => listLoop f keys
    | some a => do
      let s ← f.deref a
      let rest ← listLoop f keys
      .ok (decimalInt s.id :: rest)

/-- `vj_font_get_sequences`: the numbers that are listed. -/
def vjFontGetSequences (f : FontState) : Exec (List CStr) := listLoop f (f.dictionary.map Prod.fst)

/-! ## Runs -/

/-- The commands that create, store, update and delete subtitles, load a file or prepare a range. -/
inductive FontOp where
  | newText (text : CStr) (lo hi : ℤ) (seq : Int32)
  | store (id : Int32) (text : CStr) (lo hi : ℤ)
  | updateText (s1 s2 : ℤ) (seq : Int32) (text : CStr)
  | delText (seq : Int32)
  | loadSrt (file : List UInt8)
  | prepare (s1 s2 : ℤ)

/-- One command. -/
def stepFont (env : FontEnv) (f : FontState) : FontOp → Exec (ℤ × FontState)
  | .newText text lo hi seq => vjFontNewText env f text lo hi seq.toInt
  | .store id text lo hi => do
    let f ← storeNew env f ⟨id.toInt, text, lo, hi⟩
    .ok (0, f)
  | .updateText s1 s2 seq text => do
    let f ← vjFontUpdateText f s1 s2 seq.toInt text
    .ok (0, f)
  | .delText seq => do
    let f ← vjFontDelText f seq.toInt
    .ok (0, f)
  | .loadSrt file => do
    let (r, f) ← vjFontLoadSrt env f file
    .ok (if r = true then 1 else 0, f)
  | .prepare s1 s2 => vjFontPrepare f s1 s2

/-- A font as `vj_font_init` makes it, with an empty dictionary. -/
def fontInit (face : Face) : FontState where
  dictionary := []
  subtitles := fun _ => none
  nextAddr := 0
  index := []
  autoNumber := 1
  face := face

end Veejay.Subtitles
