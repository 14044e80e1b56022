import Veejay.Client.Receive
import Veejay.EditList.Ascii

/-!
# The edit list in the client

The client asks for the edit list and takes the line apart again (`reload_editlist_contents`, `vj-api.c`): the files go
to one list, the runs to another, which looks up the number of a run's file among the slots of the files.

* `reloadEditlistContents` — the reader;
* `loadFiles_spec`, `loadRows_spec` — what it reads of a line of files and runs;
* `Recovered` — the client has the files and the frames of the edit list;
* `Faithful` — what an edit list needs for that;
* `editList_recovered_iff` — **the client recovers exactly these edit lists.**
-/

namespace Veejay.ElReply

open CLib Veejay.Edl Veejay.Client

/-! ## The reader -/

/-- `el_constr` -/
structure ElConstr where
  pos : ℤ
  filename : CStr
  numFrames : ℤ
  fourcc : CStr
  deriving DecidableEq

/-- `el_ref` -/
structure ElRef where
  id : ℤ
  nl : ℤ
  n1 : ℤ
  n2 : ℤ
  tf : ℤ
  deriving DecidableEq

/-- Where the reader is in the text, and what it has read. -/
structure Reader where
  offset : ℤ
  editlist : List ElConstr
  elref : List ElRef
  totalFrames : ℤ
  rowNum : ℤ
  deriving DecidableEq

/-- `strndup (eltext + offset, n)` -/
def strndup (eltext : CStr) (offset n : ℤ) : Exec CStr := do
  let text ← textFrom eltext offset
  .ok (cstring (if n < 0 then text else text.take n.toNat))

/-- The number at the start of a text; without one, the reader is left as it is. -/
def withNumber (tmp : CStr) (s : Reader) (next : ℤ → Exec (Bool × Reader)) : Exec (Bool × Reader) :=
  match scanInt tmp with
  | .val v _ => next v
  | _ => .ok (false, s)

/-- A round of the loop over the files, and whether the reader goes on. -/
def loadFile (eltext : CStr) (s : Reader) : Exec (Bool × Reader) := do
  let tmp ← strndup eltext s.offset 3
  withNumber tmp s fun nameLen => do
    let offset := s.offset + 3
    let file ← strndup eltext offset (intValue nameLen)
    let offset := offset + intValue nameLen
    let tmp ← strndup eltext offset 4
    withNumber tmp s fun iter => do
      let offset := offset + 4
      let tmp ← strndup eltext offset 10
      withNumber tmp s fun numFrames => do
        let offset := offset + 10
        let tmp ← strndup eltext offset 2
        withNumber tmp s fun fourccLen => do
          let offset := offset + intValue fourccLen
          -- the text starts behind the two digits, which have not been passed yet
          let fourcc ← strndup eltext (offset - 1) (intValue fourccLen)
          .ok (true, { s with
            offset := offset + 2
            editlist := s.editlist ++ [⟨intValue iter, file, intValue numFrames, fourcc⟩] })

/-- The loop over the files. -/
def loadFiles (eltext : CStr) : ℕ → Reader → Exec (Bool × Reader)
  | 0, s => .ok (true, s)
  | n + 1, s => do
      let (goes, s) ← loadFile eltext s
      if goes then loadFiles eltext n s else .ok (false, s)

/-- `_el_get_nframes` -/
def elGetNframes (editlist : List ElConstr) (pos : ℤ) : ℤ :=
  (editlist.find? fun el => el.pos = pos).elim 0 ElConstr.numFrames

/-- The frames of a run that are shown: none, where the file is not found or a single one is left. -/
def shownRun (editlist : List ElConstr) (nl n1 n2 : ℤ) : Option (ℤ × ℤ × ℤ) :=
  let fileLen := elGetNframes editlist nl
  if fileLen ≤ 0 then none
  else
    let n1 := if n1 < 0 then 0 else n1
    let n2 := if n2 ≥ fileLen then fileLen else n2
    if n2 ≤ n1 then none else some (nl, n1, n2)

/-- A round of the loop over the runs, whose file is in the list. -/
def loadRow (s : Reader) (nl n1 n2 : ℤ) : Reader :=
  match shownRun s.editlist nl n1 n2 with
  | none => { s with rowNum := s.rowNum + 1 }
  | some (nl, n1, n2) => { s with
      elref := s.elref ++ [⟨s.rowNum, nl, n1, n2, s.totalFrames⟩]
      totalFrames := intValue (s.totalFrames + (n2 - n1) + 1)
      rowNum := s.rowNum + 1 }

/-- The numbers that `sscanf` converts for a format of fields `%0<w>ld`. -/
def scanLongs : List ℕ → CStr → List ℤ
  | [], _ => []
  | w :: ws, s =>
    match scanField w s with
    | .val v rest => longValue v :: scanLongs ws rest
    | _ => []

/-- The loop over the runs. -/
def loadRows (eltext : CStr) (numFiles : ℤ) : ℕ → Reader → Exec Reader
  | 0, _ => .error .outOfFuel
  | fuel + 1, s =>
      if s.offset < eltext.length then do
        let tmp ← strndup eltext s.offset (3 * 16)
        let s := { s with offset := s.offset + 3 * 16 }
        let fields := scanLongs [16, 16, 16] tmp
        let nl := fields.getD 0 0
        if nl < 0 ∨ nl ≥ numFiles then .ok s
        else loadRows eltext numFiles fuel (loadRow s nl (fields.getD 1 0) (fields.getD 2 0))
      else .ok s

/-- `reload_editlist_contents`, of the text that was received -/
def reloadEditlistContents (eltext : CStr) : Exec Reader := do
  let s : Reader := ⟨0, [], [], 0, 0⟩
  let tmp ← strndup eltext 0 4
  match scanInt tmp with
  | .val numFiles _ => do
    let (goes, s) ← loadFiles eltext (intValue numFiles).toNat { s with offset := 4 }
    if goes then loadRows eltext (intValue numFiles) (eltext.length + 1) s else .ok s
  | _ => .ok s

/-! ## What is to be recovered -/

/-- The frames of a row. -/
def shownFrames (r : ℤ × ℤ × ℤ) : List (ℤ × ℤ) :=
  (List.range (r.2.2 + 1 - r.2.1).toNat).map fun k : ℕ => (r.1, r.2.1 + k)

/-- The run that a row shows. -/
def ElRef.run (r : ElRef) : ℤ × ℤ × ℤ := (r.nl, r.n1, r.n2)

/-- A file of the edit list, with the codec that the movie library says. -/
def fileOf (el : EditList) (j : ℕ) : CStr × ℤ × CStr :=
  ((el.videoFileList j).getD [], (el.numFrames j).toInt, (codec el j).getD (lit "????"))

/-- **The client has the edit list**: the reply is read to its end, the files are those that the entries use, in order,
with their names, frames and codecs, and the runs expand to the frame list. -/
def Recovered (el : EditList) (xs : List UInt64) : Prop :=
  ∃ reply eltext s, vjEventSendEditlist el = .ok reply ∧ recvVims 6 reply = some (some eltext, []) ∧
    reloadEditlistContents eltext = .ok s ∧
    s.editlist.map (fun c => (c.filename, c.numFrames, c.fourcc)) = (usedFiles xs).map (fileOf el) ∧
    s.elref.flatMap (fun r => shownFrames r.run) = xs.map fun x => (((nElFile x).toNat : ℤ), ((nElFrame x).toNat : ℤ))

/-- The names of codecs that are sent whole, and read from the place where they stand. -/
def CodecKept : Option CStr → Prop
  | none => False
  | some compr => compr.length = 3 ∨ compr = [] ∨ compr = lit "0" ∨ compr = lit "22"

/-- **What an edit list needs**: its buffer is large enough, its codecs are kept, its files have an `int` of frames and
are the first ones of the file table, and none of its runs is a single frame. -/
structure Faithful (el : EditList) (xs : List UInt64) : Prop where
  roomy : Roomy el xs
  codecs : ∀ j ∈ usedFiles xs, CodecKept (codec el j)
  frames : ∀ j ∈ usedFiles xs, (el.numFrames j).toInt < 2 ^ 31
  slots : ∀ i j, i < j → isUsed xs j = true → isUsed xs i = true
  runs : ∀ r ∈ runs xs, r.first < r.last

/-! ## Files -/

theorem scanInt_digits (w n : ℕ) : scanInt (zeroPadded w n) = .val n [] := by
  have h := scanInt_zeroPadded w n
  rwa [cstring_of_not_mem (zeroPadded_no_zero w n)] at h

theorem strndup_drop {eltext front text : CStr} {offset : ℤ} {k : ℕ} (heltext : eltext = front ++ text)
    (hoffset : offset = front.length + k) (hk : k ≤ text.length) (n : ℕ) :
    strndup eltext offset n = .ok (cstring ((text.drop k).take n)) := by
  subst heltext hoffset
  rw [strndup, textFrom, if_pos ⟨by omega, by rw [List.length_append]; omega⟩, ok_bind, if_neg (by omega),
    Int.toNat_natCast, show ((front.length : ℤ) + k).toNat = front.length + k by omega, List.drop_length_add_append]

/-- The text at a place. -/
theorem strndup_eq {eltext front text rest : CStr} {offset n : ℤ} (heltext : eltext = front ++ (text ++ rest))
    (hoffset : offset = front.length) (hn : n = text.length) (h0 : (0 : UInt8) ∉ text) :
    strndup eltext offset n = .ok text := by
  subst hn
  rw [strndup_drop heltext (k := 0) (by omega) (Nat.zero_le _), List.drop_zero, List.take_left, cstring_of_not_mem h0]

/-- What is read for a codec. -/
def readFourcc (sent rest : CStr) : CStr :=
  cstring (((CLib.counted 2 sent ++ rest).drop (sent.length - 1)).take sent.length)

theorem withNumber_digits (w n : ℕ) (s : Reader) (next : ℤ → Exec (Bool × Reader)) :
    withNumber (zeroPadded w n) s next = next n := by
  rw [withNumber, scanInt_digits]

/-- **One file.** -/
theorem loadFile_eq {name sent : CStr} {j n : ℕ} (h0 : (0 : UInt8) ∉ name) (hname : name.length < 10 ^ 3)
    (hj : j < 10 ^ 4) (hn : n < 10 ^ 10) (hsent : sent.length ≤ 4) (front rest : CStr) {s : Reader}
    (hs : s.offset = front.length) :
    loadFile (front ++ (CLib.counted 3 name ++ (zeroPadded 4 j ++ (zeroPadded 10 n ++ (CLib.counted 2 sent ++ rest))))) s =
      .ok (true, { s with
        offset := front.length + (19 + name.length + sent.length)
        editlist := s.editlist ++ [⟨j, name, intValue n, readFourcc sent rest⟩] }) := by
  have h3 : (zeroPadded 3 name.length).length = 3 := zeroPadded_length (by decide) hname
  have h4 : (zeroPadded 4 j).length = 4 := zeroPadded_length (by decide) hj
  have h10 : (zeroPadded 10 n).length = 10 := zeroPadded_length (by decide) hn
  have h2 : (zeroPadded 2 sent.length).length = 2 := zeroPadded_length (by decide) (by omega)
  have hcounted : (CLib.counted 2 sent).length = 2 + sent.length := (counted_length_iff (by decide)).mpr (by omega)
  have hlen : intValue name.length = name.length := intValue_of_fits (by omega) (by omega)
  have hiter : intValue j = j := intValue_of_fits (by omega) (by omega)
  have hfl : intValue sent.length = sent.length := intValue_of_fits (by omega) (by omega)
  generalize htext : front ++ (CLib.counted 3 name ++ (zeroPadded 4 j ++ (zeroPadded 10 n ++
    (CLib.counted 2 sent ++ rest)))) = eltext
  have hread3 : strndup eltext s.offset 3 = .ok (zeroPadded 3 name.length) := by
    refine @strndup_eq _ front _ (name ++ (zeroPadded 4 j ++ (zeroPadded 10 n ++ (CLib.counted 2 sent ++ rest)))) _ _
      ?_ hs (by rw [h3]; rfl) (zeroPadded_no_zero _ _)
    rw [← htext, CLib.counted]
    simp only [List.append_assoc]
  have hreadName : strndup eltext (s.offset + 3) name.length = .ok name := by
    refine @strndup_eq _ (front ++ zeroPadded 3 name.length) _
      (zeroPadded 4 j ++ (zeroPadded 10 n ++ (CLib.counted 2 sent ++ rest))) _ _ ?_ ?_ rfl h0
    · rw [← htext, CLib.counted]
      simp only [List.append_assoc]
    · rw [hs, List.length_append, h3]
      rfl
  have hread4 : strndup eltext (s.offset + 3 + name.length) 4 = .ok (zeroPadded 4 j) := by
    refine @strndup_eq _ (front ++ CLib.counted 3 name) _ (zeroPadded 10 n ++ (CLib.counted 2 sent ++ rest)) _ _ ?_ ?_
      (by rw [h4]; rfl) (zeroPadded_no_zero _ _)
    · rw [← htext]
      simp only [List.append_assoc]
    · rw [hs, CLib.counted, List.length_append, List.length_append, h3]
      push_cast
      ring
  have hread10 : strndup eltext (s.offset + 3 + name.length + 4) 10 = .ok (zeroPadded 10 n) := by
    refine @strndup_eq _ (front ++ (CLib.counted 3 name ++ zeroPadded 4 j)) _ (CLib.counted 2 sent ++ rest) _ _ ?_ ?_
      (by rw [h10]; rfl) (zeroPadded_no_zero _ _)
    · rw [← htext]
      simp only [List.append_assoc]
    · rw [hs, CLib.counted]
      simp only [List.length_append, h3, h4]
      push_cast
      ring
  have hfront : ((front ++ (CLib.counted 3 name ++ (zeroPadded 4 j ++ zeroPadded 10 n))).length : ℤ) =
      s.offset + 3 + name.length + 4 + 10 := by
    rw [hs, CLib.counted]
    simp only [List.length_append, h3, h4, h10]
    push_cast
    ring
  have htext' : eltext = (front ++ (CLib.counted 3 name ++ (zeroPadded 4 j ++ zeroPadded 10 n))) ++
      (CLib.counted 2 sent ++ rest) := by
    rw [← htext]
    simp only [List.append_assoc]
  have hread2 : strndup eltext (s.offset + 3 + name.length + 4 + 10) 2 = .ok (zeroPadded 2 sent.length) := by
    refine @strndup_eq _ _ _ (sent ++ rest) _ _ ?_ hfront.symm (by rw [h2]; rfl) (zeroPadded_no_zero _ _)
    have hcountedSent : CLib.counted 2 sent = zeroPadded 2 sent.length ++ sent := rfl
    rw [htext', hcountedSent, List.append_assoc (zeroPadded 2 sent.length)]
  have hreadFourcc : strndup eltext (s.offset + 3 + name.length + 4 + 10 + sent.length - 1) sent.length =
      .ok (readFourcc sent rest) := by
    cases sent with
    | nil =>
      rw [strndup, textFrom, if_pos]
      · rfl
      · have hall := congrArg List.length htext'
        rw [List.length_append] at hall
        rw [List.length_nil]
        omega
    | cons c sent =>
      refine strndup_drop htext' ?_ ?_ _
      · rw [hfront, List.length_cons]
        push_cast
        ring
      · rw [List.length_append, hcounted]
        exact (Nat.sub_le _ _).trans ((Nat.le_add_left _ 2).trans (Nat.le_add_right _ _))
  have hoffset : s.offset + 3 + name.length + 4 + 10 + sent.length + 2 =
      front.length + (19 + name.length + sent.length) := by
    omega
  rw [loadFile, hread3, ok_bind, withNumber_digits]
  dsimp only
  rw [hlen, hreadName, ok_bind, hread4, ok_bind, withNumber_digits, hread10, ok_bind, withNumber_digits, hread2, ok_bind,
    withNumber_digits, hfl, hreadFourcc, ok_bind, hiter, hoffset]

theorem cons_no_zero {c : UInt8} {t : CStr} (h : (0 : UInt8) ∉ c :: t) : c ≠ 0 ∧ (0 : UInt8) ∉ t :=
  ⟨fun hc => h (hc ▸ List.mem_cons_self), fun ht => h (List.mem_cons_of_mem c ht)⟩

theorem readFourcc_three (a b d : UInt8) (rest : CStr) : readFourcc [a, b, d] rest = cstring [a, b, d] := by
  have hdigits : zeroPadded 2 3 = [48, 51] := by decide
  show cstring (((zeroPadded 2 3 ++ [a, b, d] ++ rest).drop 2).take 3) = _
  rw [hdigits]
  exact congrArg cstring rfl

/-- **A codec is read as it is in the edit list**, exactly if it is kept. -/
theorem readFourcc_iff {fourcc : Option CStr} (h0 : ∀ compr, fourcc = some compr → (0 : UInt8) ∉ compr) (rest : CStr)
    (hrest : ∀ c ∈ rest.head?, c ≠ 63) :
    readFourcc (fourcc.elim (lit "????") fun compr => compr.take 3) rest = fourcc.getD (lit "????") ↔
      CodecKept fourcc := by
  have hzero : lit "0" = [48] := rfl
  have htwo : lit "22" = [50, 50] := rfl
  cases fourcc with
  | none =>
    -- four marks are sent, the last three are read with what follows them
    refine iff_of_false (fun heq => ?_) id
    cases rest with
    | nil => exact absurd (congrArg List.length heq) (by decide)
    | cons c rest =>
      have hdigits : zeroPadded 2 (lit "????").length = [48, 52] := by decide
      have hread : readFourcc (lit "????") (c :: rest) = cstring [63, 63, 63, c] := by
        rw [readFourcc, CLib.counted, hdigits]
        exact congrArg cstring rfl
      have hc : c ≠ 63 := hrest c rfl
      rw [Option.elim_none, hread] at heq
      by_cases hcz : c = 0
      · subst hcz
        exact absurd (congrArg List.length heq) (by decide)
      · have hnot : (0 : UInt8) ∉ [63, 63, 63, c] := by
          simpa using fun h => hcz h.symm
        rw [cstring_of_not_mem hnot] at heq
        have hmarks : [63, 63, 63, c] = ([63, 63, 63, 63] : CStr) := heq
        simp only [List.cons.injEq, true_and, and_true] at hmarks
        exact hc hmarks
  | some compr =>
    have h0 := h0 compr rfl
    rw [Option.elim_some, Option.getD_some, CodecKept, hzero, htwo]
    rcases compr with _ | ⟨a, _ | ⟨b, _ | ⟨d, _ | ⟨e, t⟩⟩⟩⟩
    · exact iff_of_true rfl (.inr (.inl rfl))
    · have hdigits : zeroPadded 2 1 = [48, 49] := by decide
      have hread : readFourcc [a] rest = [48] := by
        show cstring (((zeroPadded 2 1 ++ [a] ++ rest).drop 0).take 1) = _
        rw [hdigits]
        rfl
      rw [List.take_of_length_le (by simp), hread]
      simp [eq_comm]
    · have hdigits : zeroPadded 2 2 = [48, 50] := by decide
      have hread : readFourcc [a, b] rest = cstring [50, a] := by
        show cstring (((zeroPadded 2 2 ++ [a, b] ++ rest).drop 1).take 2) = _
        rw [hdigits]
        exact congrArg cstring rfl
      have hnot : (0 : UInt8) ∉ [50, a] := by
        simpa using (cons_no_zero h0).1.symm
      rw [List.take_of_length_le (by simp), hread, cstring_of_not_mem hnot]
      simp only [List.cons.injEq, and_true, List.length_cons, List.length_nil, reduceCtorEq, false_or, and_false]
      constructor
      · rintro ⟨ha, hb⟩
        exact .inr ⟨ha.symm, hb ▸ ha.symm⟩
      · rintro (h | ⟨rfl, rfl⟩)
        · omega
        · exact ⟨rfl, rfl⟩
    · have hread := readFourcc_three a b d rest
      rw [List.take_of_length_le (by simp), hread, cstring_of_not_mem h0]
      exact iff_of_true rfl (.inl rfl)
    · have hread := readFourcc_three a b d rest
      have hle : (cstring [a, b, d]).length ≤ 3 := (List.takeWhile_sublist _).length_le
      refine iff_of_false (fun heq => ?_) (by simp)
      have hlen := congrArg List.length heq
      rw [show (a :: b :: d :: e :: t).take 3 = [a, b, d] from rfl, hread] at hlen
      simp only [List.length_cons] at hlen
      omega

/-- What is read of a file. -/
structure ReadFile (el : EditList) (j : ℕ) (c : ElConstr) : Prop where
  pos : c.pos = j
  filename : c.filename = (el.videoFileList j).getD []
  numFrames : c.numFrames = intValue (el.numFrames j).toInt
  fourcc : c.fourcc = (codec el j).getD (lit "????") ↔ CodecKept (codec el j)

theorem digits_head (w n : ℕ) (t : CStr) : ∀ c ∈ (zeroPadded w n ++ t).head?, c ≠ 63 := by
  intro c hc
  obtain ⟨d, ds, hds⟩ := List.exists_cons_of_ne_nil (zeroPadded_ne_nil w n)
  rw [hds, List.cons_append, List.head?_cons, Option.mem_some_iff] at hc
  subst hc
  have hdigit : isDigit d = true := @isDigit_of_mem_zeroPadded w n d (hds ▸ List.mem_cons_self)
  rintro rfl
  exact absurd hdigit (by decide)

section Lines

variable {el : EditList} {xs : List UInt64}

/-- **The files of the line.** -/
theorem loadFiles_spec (h : Sendable el xs) {rest : CStr} (hrest : ∀ c ∈ rest.head?, c ≠ 63) (js : List ℕ)
    (hjs : ∀ j ∈ js, j ∈ usedFiles xs) : ∀ (front : CStr) {s : Reader}, s.offset = front.length →
      ∃ files, loadFiles (front ++ (js.flatMap (fileText el) ++ rest)) js.length s =
          .ok (true, { s with
            offset := (front ++ js.flatMap (fileText el)).length
            editlist := s.editlist ++ files }) ∧
        List.Forall₂ (ReadFile el) js files := by
  induction js with
  | nil =>
    intro front s hs
    refine ⟨[], ?_, .nil⟩
    rw [List.flatMap_nil, List.append_nil, List.append_nil, ← hs]
    rfl
  | cons j js ih =>
    intro front s hs
    have hj := hjs j List.mem_cons_self
    have hjs' : ∀ i ∈ js, i ∈ usedFiles xs := fun i hi => hjs i (List.mem_cons_of_mem j hi)
    have hlength := fileText_length h hj
    obtain ⟨x, hx, hxj⟩ := mem_usedFiles.mp hj
    have hfits := h.files x hx
    rw [hxj] at hfits
    obtain ⟨name, hname, h0, hlen⟩ := hfits.name
    obtain ⟨hframes, hpos⟩ := fileFits_frames (h.valid x hx) hfits hxj
    have hmax := hfits.frames
    have hslot := nElFile_lt x
    rw [hxj, maxEditListFiles] at hslot
    rw [nameLength, hname, Option.getD_some] at hlength
    generalize htail : js.flatMap (fileText el) ++ rest = tail
    have hhead : ∀ c ∈ tail.head?, c ≠ 63 := by
      rw [← htail]
      cases js with
      | nil => exact hrest
      | cons i js =>
        rw [List.flatMap_cons, fileText, CLib.counted]
        simp only [List.append_assoc]
        exact digits_head _ _ _
    have hone := @loadFile_eq name (sentFourcc el j) j (el.numFrames j).toInt.toNat h0 hlen (by omega) (by omega)
      (sentFourcc_length_le el j) front tail s hs
    have htext : front ++ (CLib.counted 3 name ++ (zeroPadded 4 j ++ (zeroPadded 10 (el.numFrames j).toInt.toNat ++
        (CLib.counted 2 (sentFourcc el j) ++ tail)))) = front ++ (fileText el j ++ tail) := by
      rw [fileText, hname, hframes, Option.getD_some]
      simp only [List.append_assoc]
    rw [htext] at hone
    obtain ⟨files, hrun, hfiles⟩ := ih hjs' (front ++ fileText el j) (s := { s with
      offset := front.length + (19 + name.length + (sentFourcc el j).length)
      editlist := s.editlist ++ [⟨j, name, intValue (el.numFrames j).toInt.toNat,
        readFourcc (sentFourcc el j) tail⟩] }) (by
        show (front.length : ℤ) + (19 + name.length + (sentFourcc el j).length) = _
        rw [List.length_append, hlength]
        push_cast
        ring)
    refine ⟨⟨j, name, intValue (el.numFrames j).toInt.toNat, readFourcc (sentFourcc el j) tail⟩ :: files, ?_,
      .cons ⟨rfl, by rw [hname]; rfl, ?_, readFourcc_iff hfits.fourcc tail hhead⟩ hfiles⟩
    · rw [htail, List.append_assoc] at hrun
      rw [List.length_cons, loadFiles, List.flatMap_cons, List.append_assoc, htail, hone, ok_bind]
      dsimp only
      rw [if_pos rfl, hrun, List.append_assoc, ← List.append_assoc front]
      dsimp only
      rw [List.append_assoc s.editlist]
      rfl
    · show intValue ((el.numFrames j).toInt.toNat : ℤ) = _
      rw [Int.toNat_of_nonneg hpos.le]

/-! ## Runs -/

theorem scanLongs_cons {w n : ℕ} (ws : List ℕ) (hw : 1 ≤ w) (hn : n < 10 ^ w) (hlong : n < 2 ^ 63) (rest : CStr) :
    scanLongs (w :: ws) (zeroPadded w n ++ rest) = (n : ℤ) :: scanLongs ws rest := by
  rw [scanLongs, scanField_zeroPadded rest hw hn]
  show longValue n :: _ = _
  rw [longValue_of_fits (by omega) (by omega)]

/-- A run fits its fields. -/
structure RunFits (index : ℕ → ℤ) (numFiles : ℤ) (r : Run) : Prop where
  file : ∃ k : ℕ, index r.file = k ∧ (k : ℤ) < numFiles ∧ k < 10 ^ 16
  first : r.first < 10 ^ 16
  last : r.last < 10 ^ 16

theorem loadRow_facts (s : Reader) (nl n1 n2 : ℤ) :
    (loadRow s nl n1 n2).offset = s.offset ∧ (loadRow s nl n1 n2).editlist = s.editlist ∧
      (loadRow s nl n1 n2).elref.map ElRef.run = s.elref.map ElRef.run ++ (shownRun s.editlist nl n1 n2).toList := by
  unfold loadRow
  cases shownRun s.editlist nl n1 n2 with
  | none => exact ⟨rfl, rfl, (List.append_nil _).symm⟩
  | some t =>
    refine ⟨rfl, rfl, ?_⟩
    rw [List.map_append]
    rfl

/-- **The runs of the line.** -/
theorem loadRows_spec {index : ℕ → ℤ} {numFiles : ℤ} (rs : List Run) (hrs : ∀ r ∈ rs, RunFits index numFiles r) :
    ∀ (fuel : ℕ) (front : CStr) {s : Reader}, s.offset = front.length → rs.length < fuel →
      ∃ s', loadRows (front ++ rs.flatMap (runField index)) numFiles fuel s = .ok s' ∧ s'.editlist = s.editlist ∧
        s'.elref.map ElRef.run = s.elref.map ElRef.run ++
          rs.filterMap fun r => shownRun s.editlist (index r.file) r.first r.last := by
  induction rs with
  | nil =>
    intro fuel front s hs hfuel
    obtain ⟨fuel, rfl⟩ := Nat.exists_eq_succ_of_ne_zero (Nat.ne_of_gt hfuel)
    refine ⟨s, ?_, rfl, (List.append_nil _).symm⟩
    rw [loadRows, List.flatMap_nil, List.append_nil, if_neg (by omega)]
  | cons r rs ih =>
    intro fuel front s hs hfuel
    obtain ⟨fuel, rfl⟩ := Nat.exists_eq_succ_of_ne_zero (Nat.ne_of_gt (Nat.zero_lt_of_lt hfuel))
    obtain ⟨⟨k, hk, hnum, hlt⟩, hfirst, hlast⟩ := hrs r List.mem_cons_self
    have hfield : runField index r = zeroPadded 16 k ++ (zeroPadded 16 r.first ++ zeroPadded 16 r.last) := by
      rw [runField, hk, zeroPaddedInt_of_nat]
    have hlength : (runField index r).length = 48 := by
      rw [hfield, List.length_append, List.length_append, zeroPadded_length (by decide) hlt,
        zeroPadded_length (by decide) hfirst, zeroPadded_length (by decide) hlast]
    have h0 : (0 : UInt8) ∉ runField index r := by
      rw [hfield, List.mem_append, List.mem_append, not_or, not_or]
      exact ⟨zeroPadded_no_zero _ _, zeroPadded_no_zero _ _, zeroPadded_no_zero _ _⟩
    have htmp : strndup (front ++ (r :: rs).flatMap (runField index)) s.offset (3 * 16) = .ok (runField index r) :=
      strndup_eq (by rw [List.flatMap_cons]) hs (by rw [hlength]; rfl) h0
    have hscan : scanLongs [16, 16, 16] (runField index r) = [(k : ℤ), (r.first : ℤ), (r.last : ℤ)] := by
      rw [hfield, scanLongs_cons _ (by decide) hlt (by omega), scanLongs_cons _ (by decide) hfirst (by omega),
        ← List.append_nil (zeroPadded 16 r.last), scanLongs_cons _ (by decide) hlast (by omega)]
      rfl
    obtain ⟨hoffset, heditlist, helref⟩ := loadRow_facts { s with offset := s.offset + 3 * 16 } k r.first r.last
    have hshorter : s.offset < (front ++ (r :: rs).flatMap (runField index)).length := by
      rw [hs, List.length_append, List.flatMap_cons, List.length_append, hlength]
      omega
    obtain ⟨s', hrun, hedit', href'⟩ := ih (fun t ht => hrs t (List.mem_cons_of_mem r ht)) fuel
      (front ++ runField index r) (s := loadRow { s with offset := s.offset + 3 * 16 } k r.first r.last) (by
        rw [hoffset, List.length_append, hlength]
        show s.offset + 3 * 16 = _
        omega) (by rw [List.length_cons] at hfuel; omega)
    refine ⟨s', ?_, hedit'.trans heditlist, ?_⟩
    · rw [loadRows, if_pos hshorter, htmp, ok_bind, hscan]
      show (if (k : ℤ) < 0 ∨ (k : ℤ) ≥ numFiles then _ else _) = _
      rw [if_neg (by omega), List.flatMap_cons, ← List.append_assoc]
      exact hrun
    · rw [href', helref, heditlist, List.append_assoc, List.filterMap_cons, hk]
      show _ ++ ((shownRun s.editlist k r.first r.last).toList ++ _) = _
      cases shownRun s.editlist k r.first r.last with
      | none => rfl
      | some t => rfl

/-! ## The whole line -/

theorem Sendable.rank_lt_length {j : ℕ} (hj : j ∈ usedFiles xs) : rank xs j < (usedFiles xs).length := by
  obtain ⟨hslot, hused⟩ := List.mem_filter.mp hj
  exact (rank_lt hused (List.mem_range.mp hslot)).trans_eq (rank_maxEditListFiles xs)

theorem usedFiles_length_le (xs : List UInt64) : (usedFiles xs).length ≤ 4096 := by
  have hle := (List.filter_sublist (l := List.range maxEditListFiles) (p := isUsed xs)).length_le
  rwa [List.length_range] at hle

/-- The file of a run is used, and has its rank. -/
theorem run_file (h : Sendable el xs) {r : Run} (hr : r ∈ runs xs) :
    r.file ∈ usedFiles xs ∧ asciiIndex el xs r.file = rank xs r.file := by
  obtain ⟨x, hx, hplace⟩ := mem_of_run hr (Nat.le_refl _) (runs_ordered xs r hr)
  have hfile : (nElFile x).toNat = r.file := congrArg Prod.fst hplace
  have hindex := h.asciiIndex_eq hx
  rw [hfile] at hindex
  exact ⟨mem_usedFiles.mpr ⟨x, hx, hfile⟩, hindex⟩

theorem run_fits (h : Sendable el xs) {r : Run} (hr : r ∈ runs xs) :
    RunFits (asciiIndex el xs) (usedFiles xs).length r := by
  obtain ⟨hused, hindex⟩ := run_file h hr
  obtain ⟨x, -, hx⟩ := mem_of_run hr (Nat.le_refl _) (runs_ordered xs r hr)
  obtain ⟨y, -, hy⟩ := mem_of_run hr (runs_ordered xs r hr) (Nat.le_refl _)
  have hfirst : (nElFrame x).toNat = r.first := congrArg Prod.snd hx
  have hlast : (nElFrame y).toNat = r.last := congrArg Prod.snd hy
  have hx52 := nElFrame_toNat x
  have hy52 := nElFrame_toNat y
  have hlt := Sendable.rank_lt_length hused
  have hcount := usedFiles_length_le xs
  exact ⟨⟨rank xs r.file, hindex, by omega, by omega⟩, by omega, by omega⟩

/-- **What the client reads of the line.** -/
theorem reload_spec (h : Sendable el xs) :
    ∃ s, reloadEditlistContents (lineText el xs) = .ok s ∧ List.Forall₂ (ReadFile el) (usedFiles xs) s.editlist ∧
      s.elref.map ElRef.run =
        (runs xs).filterMap fun r => shownRun s.editlist (asciiIndex el xs r.file) r.first r.last := by
  have hcount := usedFiles_length_le xs
  have hlength : (zeroPadded 4 (usedFiles xs).length).length = 4 := zeroPadded_length (by decide) (by omega)
  have hfront : lineText el xs = [] ++ (zeroPadded 4 (usedFiles xs).length ++ ((usedFiles xs).flatMap (fileText el) ++
      (runs xs).flatMap (runField (asciiIndex el xs)))) := by
    rw [lineText, List.nil_append]
  have htmp : strndup (lineText el xs) 0 4 = .ok (zeroPadded 4 (usedFiles xs).length) :=
    strndup_eq hfront rfl (by rw [hlength]; rfl) (zeroPadded_no_zero _ _)
  have hnum : intValue (usedFiles xs).length = (usedFiles xs).length := intValue_of_fits (by omega) (by omega)
  have hhead : ∀ c ∈ ((runs xs).flatMap (runField (asciiIndex el xs))).head?, c ≠ 63 := by
    cases hruns : runs xs with
    | nil => exact fun c hc => (by cases hc)
    | cons r rs =>
      have hr : r ∈ runs xs := hruns ▸ List.mem_cons_self
      rw [List.flatMap_cons, runField, (run_file h hr).2, zeroPaddedInt_of_nat, List.append_assoc]
      exact digits_head _ _ _
  obtain ⟨files, hfiles, hread⟩ := loadFiles_spec h hhead (usedFiles xs) (fun j hj => hj)
    (zeroPadded 4 (usedFiles xs).length) (s := ⟨4, [], [], 0, 0⟩) (by rw [hlength]; rfl)
  obtain ⟨s, hrows, heditlist, helref⟩ := loadRows_spec (runs xs) (fun r hr => run_fits h hr)
    ((lineText el xs).length + 1) (zeroPadded 4 (usedFiles xs).length ++ (usedFiles xs).flatMap (fileText el))
    (s := ⟨(zeroPadded 4 (usedFiles xs).length ++ (usedFiles xs).flatMap (fileText el)).length, files, [], 0, 0⟩) rfl
    (by rw [lineText_length h, lineLength]; omega)
  rw [List.append_assoc, ← lineText] at hrows
  rw [← lineText] at hfiles
  dsimp only at hfiles
  rw [List.nil_append] at hfiles
  refine ⟨s, ?_, heditlist ▸ hread, heditlist ▸ helref⟩
  rw [reloadEditlistContents]
  dsimp only
  rw [htmp, ok_bind, scanInt_digits]
  dsimp only
  rw [hnum, Int.toNat_natCast, hfiles, ok_bind]
  dsimp only
  rw [if_pos rfl, hrows]

/-- The number of frames that is found for a file. -/
theorem elGetNframes_eq {js : List ℕ} {files : List ElConstr} (h : List.Forall₂ (ReadFile el) js files) (k : ℕ) :
    elGetNframes files k = if k ∈ js then intValue (el.numFrames k).toInt else 0 := by
  induction h with
  | nil => rfl
  | @cons j c js files hread _ ih =>
    rw [elGetNframes, List.find?_cons, hread.pos]
    by_cases hk : j = k
    · subst hk
      rw [decide_eq_true rfl, if_pos List.mem_cons_self]
      exact hread.numFrames
    · rw [decide_eq_false (by omega)]
      refine Eq.trans ih (if_congr ?_ rfl rfl)
      rw [List.mem_cons, or_iff_right (fun heq => hk heq.symm)]

/-- **The files are recovered** exactly if all codecs are kept and the counts of frames are of type `int`. -/
theorem files_iff {js : List ℕ} {files : List ElConstr} (h : List.Forall₂ (ReadFile el) js files)
    (hfits : ∀ j ∈ js, 0 ≤ (el.numFrames j).toInt ∧ (el.numFrames j).toInt < 10 ^ 10) :
    files.map (fun c => (c.filename, c.numFrames, c.fourcc)) = js.map (fileOf el) ↔
      (∀ j ∈ js, CodecKept (codec el j)) ∧ ∀ j ∈ js, (el.numFrames j).toInt < 2 ^ 31 := by
  induction h with
  | nil => simp
  | @cons j c js files hread _ ih =>
    obtain ⟨hpos, hmax⟩ := hfits j List.mem_cons_self
    have hint : intValue (el.numFrames j).toInt = (el.numFrames j).toInt ↔ (el.numFrames j).toInt < 2 ^ 31 := by
      constructor
      · intro heq
        have hlt := @Int.bmod_lt (longValue (el.numFrames j).toInt) (2 ^ 32) (by norm_num)
        rw [intValue] at heq
        omega
      · exact fun hlt => intValue_of_fits (by omega) hlt
    rw [List.map_cons, List.map_cons, List.cons.injEq, ih fun i hi => hfits i (List.mem_cons_of_mem j hi),
      List.forall_mem_cons, List.forall_mem_cons, fileOf, Prod.mk.injEq, Prod.mk.injEq, hread.filename, hread.numFrames,
      hread.fourcc, hint]
    tauto

/-! ## Which runs are shown -/

/-- A run that is shown has a file that was read, more than one frame, and no frames besides its own. -/
theorem shownRun_some {files : List ElConstr} {k a b : ℕ} {t : ℤ × ℤ × ℤ} (h : shownRun files k a b = some t) :
    0 < elGetNframes files k ∧ a < b ∧ (shownFrames t).length ≤ b + 1 - a := by
  unfold shownRun at h
  dsimp only at h
  split_ifs at h with hlen hneg hbig hle
  all_goals try omega
  all_goals
    obtain rfl := Option.some.inj h
    rw [shownFrames, List.length_map, List.length_range]
    dsimp only
    omega

theorem length_flatMap_filterMap {α β γ : Type} (f : α → Option β) (g : β → List γ) (l : List α) :
    ((l.filterMap f).flatMap g).length = (l.map fun a => (f a).elim 0 fun b => (g b).length).sum := by
  induction l with
  | nil => rfl
  | cons a l ih =>
    rw [List.filterMap_cons, List.map_cons, List.sum_cons, ← ih]
    cases f a with
    | none => exact (Nat.zero_add _).symm
    | some b =>
      rw [List.flatMap_cons, List.length_append]
      rfl

theorem runFrames_length (r : Run) : r.frames.length = r.last + 1 - r.first := by
  rw [Run.frames, List.length_map, List.length_range]

/-- **No run is lost** where as many frames are shown as there are. -/
theorem all_shown (h : Sendable el xs) {files : List ElConstr}
    (hframes : (((runs xs).filterMap fun r =>
      shownRun files (asciiIndex el xs r.file) r.first r.last).flatMap shownFrames).length = xs.length) :
    ∀ r ∈ runs xs, ∃ t, shownRun files (rank xs r.file) r.first r.last = some t := by
  intro r hr
  by_contra hnone
  have htotal : ((runs xs).map fun r => r.frames.length).sum = xs.length := by
    rw [← List.length_flatMap, runs_frames, List.length_map]
  have hlt := List.sum_lt_sum
    (fun r : Run => (shownRun files (asciiIndex el xs r.file) r.first r.last).elim 0 fun t => (shownFrames t).length)
    (fun r => r.frames.length) (l := runs xs) ?_ ⟨r, hr, ?_⟩
  · rw [length_flatMap_filterMap] at hframes
    omega
  · intro r hr
    rw [(run_file h hr).2, runFrames_length]
    cases hshown : shownRun files (rank xs r.file) r.first r.last with
    | none => exact Nat.zero_le _
    | some t => exact (shownRun_some hshown).2.2
  · have hordered := runs_ordered xs r hr
    rw [(run_file h hr).2, runFrames_length]
    cases hshown : shownRun files (rank xs r.file) r.first r.last with
    | none =>
      rw [Option.elim_none]
      omega
    | some t => exact absurd ⟨t, hshown⟩ hnone

/-- Where all numbers of files are slots of files, the files are the first ones of the table. -/
theorem first_slots (hslots : ∀ j ∈ usedFiles xs, rank xs j ∈ usedFiles xs) {i j : ℕ} (hij : i < j)
    (hj : isUsed xs j = true) : isUsed xs i = true := by
  have hnodup : (usedFiles xs).Nodup := List.nodup_range.filter _
  have hinj : Set.InjOn (rank xs) (usedFiles xs).toFinset := by
    intro a ha b hb heq
    exact rank_inj (List.mem_filter.mp (List.mem_toFinset.mp ha)).2 (List.mem_filter.mp (List.mem_toFinset.mp hb)).2 heq
  have hcard : ((usedFiles xs).toFinset.image (rank xs)).card = (usedFiles xs).length := by
    rw [Finset.card_image_of_injOn hinj, List.toFinset_card_of_nodup hnodup]
  have hrange : (usedFiles xs).toFinset.image (rank xs) = Finset.range (usedFiles xs).length := by
    refine Finset.eq_of_subset_of_card_le (fun k hk => ?_) (by rw [hcard, Finset.card_range])
    obtain ⟨a, ha, rfl⟩ := Finset.mem_image.mp hk
    exact Finset.mem_range.mpr (Sendable.rank_lt_length (List.mem_toFinset.mp ha))
  have hself : (usedFiles xs).toFinset.image (rank xs) = (usedFiles xs).toFinset := by
    refine Finset.eq_of_subset_of_card_le (fun k hk => ?_) (by rw [hcard, List.toFinset_card_of_nodup hnodup])
    obtain ⟨a, ha, rfl⟩ := Finset.mem_image.mp hk
    exact List.mem_toFinset.mpr (hslots a (List.mem_toFinset.mp ha))
  have hmem : ∀ k, k ∈ usedFiles xs ↔ k < (usedFiles xs).length := by
    intro k
    rw [← List.mem_toFinset, ← hself, hrange, Finset.mem_range]
  obtain ⟨x, hx, rfl⟩ := isUsed_iff.mp hj
  have hlast := (hmem _).mp (mem_usedFiles.mpr ⟨x, hx, rfl⟩)
  exact (List.mem_filter.mp ((hmem i).mpr (hij.trans hlast))).2

/-- Then the number of a file is its slot. -/
theorem rank_eq_self (hslots : ∀ i j, i < j → isUsed xs j = true → isUsed xs i = true) {j : ℕ}
    (hj : isUsed xs j = true) : rank xs j = j := by
  rw [rank, List.filter_eq_self.mpr fun i hi => hslots i j (List.mem_range.mp hi) hj, List.length_range]

/-- **The frames are recovered** exactly if the files are the first ones of the table and no run is a single frame. -/
theorem frames_iff (h : Sendable el xs) (hint : ∀ j ∈ usedFiles xs, (el.numFrames j).toInt < 2 ^ 31)
    {files : List ElConstr} (hread : List.Forall₂ (ReadFile el) (usedFiles xs) files) :
    ((runs xs).filterMap fun r => shownRun files (asciiIndex el xs r.file) r.first r.last).flatMap shownFrames =
        (xs.map fun x => (((nElFile x).toNat : ℤ), ((nElFrame x).toNat : ℤ))) ↔
      (∀ i j, i < j → isUsed xs j = true → isUsed xs i = true) ∧ ∀ r ∈ runs xs, r.first < r.last := by
  constructor
  · intro hframes
    have hlength := congrArg List.length hframes
    rw [List.length_map] at hlength
    have hshown := all_shown h hlength
    refine ⟨fun i j hij hj => first_slots (fun k hk => ?_) hij hj, fun r hr => ?_⟩
    · obtain ⟨x, hx, rfl⟩ := mem_usedFiles.mp hk
      obtain ⟨r, hr, hfile⟩ := run_of_mem hx
      obtain ⟨t, ht⟩ := hshown r hr
      have hfound := (shownRun_some ht).1
      rw [elGetNframes_eq hread, hfile] at hfound
      by_contra hnot
      rw [if_neg hnot] at hfound
      exact absurd hfound (lt_irrefl 0)
    · obtain ⟨t, ht⟩ := hshown r hr
      exact (shownRun_some ht).2.1
  · rintro ⟨hslots, hruns⟩
    have hshown : ∀ r ∈ runs xs, shownRun files (asciiIndex el xs r.file) r.first r.last =
        some ((r.file : ℤ), (r.first : ℤ), (r.last : ℤ)) := by
      intro r hr
      obtain ⟨hused, hindex⟩ := run_file h hr
      obtain ⟨x, hx, hplace⟩ := mem_of_run hr (runs_ordered xs r hr) (Nat.le_refl _)
      have hfile : (nElFile x).toNat = r.file := congrArg Prod.fst hplace
      have hlast : (nElFrame x).toNat = r.last := congrArg Prod.snd hplace
      have hvalid := (h.valid x hx).2
      rw [hfile, hlast] at hvalid
      have hmax := hint r.file hused
      have hlt := hruns r hr
      rw [hindex, rank_eq_self hslots (List.mem_filter.mp hused).2, shownRun]
      dsimp only
      rw [elGetNframes_eq hread, if_pos hused, intValue_of_fits (by omega) hmax, if_neg (by omega), if_neg (by omega),
        if_neg (by omega), if_neg (by omega)]
    have hfiltered : ((runs xs).filterMap fun r => shownRun files (asciiIndex el xs r.file) r.first r.last) =
        (runs xs).map fun r => ((r.file : ℤ), (r.first : ℤ), (r.last : ℤ)) := by
      rw [← List.filterMap_eq_map]
      exact List.filterMap_congr fun r hr => hshown r hr
    have hcast : ∀ r : Run, shownFrames ((r.file : ℤ), (r.first : ℤ), (r.last : ℤ)) =
        r.frames.map fun p => ((p.1 : ℤ), (p.2 : ℤ)) := by
      intro r
      rw [shownFrames, Run.frames, List.map_map]
      dsimp only
      rw [show ((r.last : ℤ) + 1 - r.first).toNat = r.last + 1 - r.first by omega]
      refine List.map_congr_left fun k _ => ?_
      show ((r.file : ℤ), (r.first : ℤ) + (k : ℤ)) = ((r.file : ℤ), ((r.first + k : ℕ) : ℤ))
      rw [Nat.cast_add]
    rw [hfiltered, List.flatMap_map, funext hcast, ← List.map_flatMap, runs_frames, List.map_map]
    rfl

/-! ## The codec -/

theorem vjEventSendEditlist_eq (h : Sendable el xs) (hroomy : Roomy el xs) :
    vjEventSendEditlist el = .ok (CLib.counted 6 (lineText el xs)) := by
  obtain ⟨x, hx⟩ := List.exists_mem_of_ne_nil xs h.ne_nil
  have hvalid := (h.valid x hx).1
  have hsize := h.size
  rw [← lineText_length h] at hsize
  have hlength := (counted_length_iff (t := lineText el xs) (w := 6) (by decide)).mpr hsize
  rw [vjEventSendEditlist, if_neg (by omega), (vjElWriteLineAscii_eq h).1 hroomy, ok_bind]
  exact congrArg Except.ok (List.take_of_length_le (by rw [← CLib.counted]; omega))

theorem received_lineText (h : Sendable el xs) :
    recvVims 6 (CLib.counted 6 (lineText el xs)) = some (some (lineText el xs), []) := by
  have hsize := h.size
  rw [← lineText_length h] at hsize
  have hne : lineText el xs ≠ [] := by
    rw [lineText]
    exact List.append_ne_nil_of_left_ne_nil (zeroPadded_ne_nil _ _) _
  have hrecv := recvVims_framed (by decide) (by decide) hsize []
  rwa [List.append_nil, received, if_neg hne] at hrecv

theorem Sendable.frames_int (h : Sendable el xs) :
    ∀ j ∈ usedFiles xs, 0 ≤ (el.numFrames j).toInt ∧ (el.numFrames j).toInt < 10 ^ 10 := by
  intro j hj
  obtain ⟨x, hx, rfl⟩ := mem_usedFiles.mp hj
  exact ⟨(fileFits_frames (h.valid x hx) (h.files x hx) rfl).2.le, (h.files x hx).frames⟩

/-- The rows of a reader, expanded. -/
theorem expand_eq {s : Reader} (helref : s.elref.map ElRef.run =
    (runs xs).filterMap fun r => shownRun s.editlist (asciiIndex el xs r.file) r.first r.last) :
    s.elref.flatMap (fun r => shownFrames r.run) = ((runs xs).filterMap fun r =>
      shownRun s.editlist (asciiIndex el xs r.file) r.first r.last).flatMap shownFrames := by
  rw [← helref, List.flatMap_map]

theorem Recovered.faithful (h : Sendable el xs) (hrecovered : Recovered el xs) : Faithful el xs := by
  obtain ⟨s, hload, hread, helref⟩ := reload_spec h
  obtain ⟨reply, eltext, s', hsend, hrecv, hload', hfiles, hframes⟩ := hrecovered
  have hroomy : Roomy el xs := by
    by_contra hnot
    obtain ⟨f, hf⟩ := (vjElWriteLineAscii_eq h).2 hnot
    obtain ⟨x, hx⟩ := List.exists_mem_of_ne_nil xs h.ne_nil
    have hvalid := (h.valid x hx).1
    rw [vjEventSendEditlist, if_neg (by omega), hf] at hsend
    cases hsend
  obtain rfl := Except.ok.inj ((vjEventSendEditlist_eq h hroomy).symm.trans hsend)
  rw [received_lineText h] at hrecv
  obtain rfl := Option.some.inj (congrArg Prod.fst (Option.some.inj hrecv))
  obtain rfl := Except.ok.inj (hload.symm.trans hload')
  obtain ⟨hcodecs, hint⟩ := (files_iff hread h.frames_int).mp hfiles
  obtain ⟨hslots, hruns⟩ := (frames_iff h hint hread).mp ((expand_eq helref).symm.trans hframes)
  exact ⟨hroomy, hcodecs, hint, hslots, hruns⟩

theorem Faithful.recovered (h : Sendable el xs) (hfaithful : Faithful el xs) : Recovered el xs := by
  obtain ⟨s, hload, hread, helref⟩ := reload_spec h
  obtain ⟨hroomy, hcodecs, hint, hslots, hruns⟩ := hfaithful
  exact ⟨_, _, s, vjEventSendEditlist_eq h hroomy, received_lineText h, hload,
    (files_iff hread h.frames_int).mpr ⟨hcodecs, hint⟩,
    (expand_eq helref).trans ((frames_iff h hint hread).mpr ⟨hslots, hruns⟩)⟩

/-- **The client recovers exactly the edit lists that are `Faithful`**, of those whose fields fit the wire. -/
theorem editList_recovered_iff (h : Sendable el xs) : Recovered el xs ↔ Faithful el xs :=
  ⟨Recovered.faithful h, Faithful.recovered h⟩

end Lines

/-! ## Two edit lists -/

/-- A list over a movie of ten frames, whose codec has three letters. -/
def shortMovie (xs : List UInt64) : EditList :=
  { (sessionOver xs []).el with
    numVideoFiles := 1
    videoFileList := fun j => if j = 0 then some (lit "a.avi") else none
    lavFd := fun _ => some
      { videoFrames := 10
        videoWidth := 352
        videoHeight := 288
        videoInterlacing := 0
        frameRate := 25
        mjpgChroma := 0
        audioChannels := 0
        audioRate := 0
        audioBits := 0
        frameSize := fun _ => 0
        videoCompressor := some (lit "rle") }
    numFrames := fun _ => 10 }

theorem shortMovie_fits (xs : List UInt64) : FileFits (shortMovie xs) 0 where
  name := ⟨lit "a.avi", rfl, by decide, by decide⟩
  opened := rfl
  fourcc := by
    rintro compr ⟨⟩
    decide
  frames := by
    show (10 : Int64).toInt < 10 ^ 10
    decide

theorem shortMovie_sendable {xs : List UInt64} (hne : xs ≠ []) (hframes : ∀ x ∈ xs, x.toNat < 10)
    (hholds : Holds (shortMovie xs) xs) (htotal : (shortMovie xs).totalFrames.toNat + 1 = xs.length)
    (hsize : lineLength (shortMovie xs) xs < 10 ^ 6) : Sendable (shortMovie xs) xs := by
  have hfile : ∀ x ∈ xs, (nElFile x).toNat = 0 := by
    intro x hx
    have hlt := hframes x hx
    rw [nElFile_toNat]
    omega
  refine ⟨rfl, hholds, hne, htotal, fun x hx => ⟨?_, ?_⟩, fun x hx => ?_, hsize⟩
  · rw [hfile x hx]
    exact Nat.one_pos
  · have hlt := hframes x hx
    show ((nElFrame x).toNat : ℤ) < 10
    rw [nElFrame_toNat]
    omega
  · rw [hfile x hx]
    exact shortMovie_fits xs

theorem row_of_three_faithful : Faithful (shortMovie [0, 1, 2]) [0, 1, 2] := by
  have hfiles : usedFiles [0, 1, 2] = [0] := by decide +kernel
  have hruns : runs [0, 1, 2] = [⟨0, 0, 2⟩] := by decide
  refine ⟨⟨by decide, ?_⟩, ?_, ?_, fun i j hij hj => ?_, ?_⟩
  · rw [lineLength, hfiles, hruns]
    decide
  · rw [hfiles]
    exact fun j _ => .inl rfl
  · rw [hfiles]
    intro j _
    show (10 : Int64).toInt < 2 ^ 31
    decide
  · have hmem : j ∈ usedFiles [0, 1, 2] := by
      obtain ⟨x, hx, rfl⟩ := isUsed_iff.mp hj
      exact mem_usedFiles.mpr ⟨x, hx, rfl⟩
    rw [hfiles, List.mem_singleton] at hmem
    omega
  · rw [hruns]
    decide

/-- Three frames in a row come back. -/
theorem row_of_three : Recovered (shortMovie [0, 1, 2]) [0, 1, 2] := by
  have hfiles : usedFiles [0, 1, 2] = [0] := by decide +kernel
  have hruns : runs [0, 1, 2] = [⟨0, 0, 2⟩] := by decide
  refine (editList_recovered_iff (shortMovie_sendable (by decide) (by simp) ⟨rfl, rfl⟩ rfl ?_)).mpr row_of_three_faithful
  rw [lineLength, hfiles, hruns]
  decide

/-- The single frame behind the first two is lost. -/
theorem single_frame_lost : Sendable (shortMovie [0, 1, 5]) [0, 1, 5] ∧ ¬ Recovered (shortMovie [0, 1, 5]) [0, 1, 5] := by
  have hfiles : usedFiles [0, 1, 5] = [0] := by decide +kernel
  have hruns : runs [0, 1, 5] = [⟨0, 0, 1⟩, ⟨0, 5, 5⟩] := by decide
  have hsend : Sendable (shortMovie [0, 1, 5]) [0, 1, 5] := by
    refine shortMovie_sendable (by decide) (by simp) ⟨rfl, rfl⟩ rfl ?_
    rw [lineLength, hfiles, hruns]
    decide
  refine ⟨hsend, fun hrecovered => ?_⟩
  have hlt := (hrecovered.faithful hsend).runs ⟨0, 5, 5⟩ (by rw [hruns]; decide)
  exact absurd hlt (by decide)

end Veejay.ElReply
