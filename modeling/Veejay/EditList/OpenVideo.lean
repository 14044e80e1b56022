import Veejay.EditList.Model

/-!
# Opening a movie file into an edit list

`open_video_file` takes the next free slot of the file table.  It returns the slot on success and `-1`
otherwise; several of its error exits leave data of the rejected file in that slot, beyond
`num_video_files`.

`openVideoFile_cases` says once what a call can do: on failure nothing below `num_video_files` and no
frame counter changes; on success exactly one file with at least one frame is added.
-/

namespace Veejay.Edl

open CLib

/-- Some open file's name is a prefix of `realname` (`strncmp` over the length of the listed name). -/
def alreadyListed (el : EditList) (realname : CStr) : ℕ → Exec Bool
  | 0 => .ok false
  | i + 1 => do
      let earlier ← alreadyListed el realname i
      if earlier then .ok true
      else
        match el.videoFileList i with
        | none => .error .nullPointer
        | some name => .ok (name.isPrefixOf realname)

/-- `vj_el_get_default_norm`. -/
def vjElGetDefaultNorm (fps : ℚ) : UInt8 :=
  if fps = 25 then 112
  else if 23 < fps ∧ fps < 24 then 115
  else if 29 < fps ∧ fps ≤ 30 then 110
  else 112

/-- The chroma formats `open_video_file` accepts: every `CHROMA` constant of `lav_io.h`. -/
def validChroma (fc : ℤ) : Bool :=
  fc == 2 || fc == 1 || fc == 3 || fc == 0 || fc == 4 || fc == 6 || fc == 5

/-- The first file determines the parameters of the list. -/
def adoptFirstFile (fl : OpenFlags) (lav : LavFile) (el : EditList) : EditList :=
  let norm := if el.videoNorm = 0 then vjElGetDefaultNorm lav.frameRate else el.videoNorm
  let norm :=
    if norm = 0 ∧ (fl.overrideNorm = 112 ∨ fl.overrideNorm = 110 ∨ fl.overrideNorm = 115) then
      fl.overrideNorm
    else norm
  let norm := if norm = 0 then 112 else norm
  let el := { el with
    autoDeinter := el.autoDeinter || (fl.deinter && lav.videoInterlacing != 0)
    videoHeight := lav.videoHeight
    videoWidth := lav.videoWidth
    videoInter := lav.videoInterlacing
    videoFps := lav.frameRate
    videoNorm := norm }
  if el.isEmpty then
    if lav.audioChannels ≠ el.audioChans ∨ lav.audioRate ≠ el.audioRate ∨
        lav.audioBits ≠ el.audioBits then el
    else { el with hasAudio := true }
  else
    { el with
      audioChans := lav.audioChannels
      hasAudio := lav.audioChannels != 0
      audioBits := lav.audioBits
      audioRate := lav.audioRate
      audioBps := (lav.audioBits * lav.audioChannels + 7) / 8 }

/-- `nerr`: the mismatches of a later file with the first one that make it unusable. -/
def mismatches (lib : MediaLib) (lav : LavFile) (el : EditList) : ℕ :=
  (if (el.videoHeight ≠ lav.videoHeight ∨ el.videoWidth ≠ lav.videoWidth) ∧
      lib.requireSameResolution then 1 else 0) +
  (if el.hasAudio then
    if el.audioRate < 44000 then 1
    else if el.audioChans ≠ lav.audioChannels ∨ el.audioBits ≠ lav.audioBits ∨
        el.audioRate ≠ lav.audioRate then 1
    else 0
  else 0)

/-- The error exit that takes the rejected file out of slot `n` again. -/
def dropSlot (el : EditList) (n : ℕ) : EditList :=
  { el with
    lavFd := Function.update el.lavFd n none
    videoFileList := Function.update el.videoFileList n none }

/-- The dummy frames are taken off the first file's frames; otherwise the counter is kept. -/
def openedFrames (el : EditList) : Int64 :=
  if el.isEmpty then Int64.ofInt ((el.numFrames 0).toInt - dummyFrames) else el.videoFrames

/-- The chroma of the list, which the first opened file determines. -/
def openedChroma (lav : LavFile) (el : EditList) : ℤ :=
  if (if 1 ≤ el.numVideoFiles then el.mjpgChroma else 0) = 0 then lav.mjpgChroma else el.mjpgChroma

/-- The last part of `open_video_file`: the codec, the decoder, and the counters. -/
def finishOpen (lib : MediaLib) (lav : LavFile) (n : ℕ) (el : EditList) : ℤ × EditList :=
  match lav.videoCompressor with
  | none => (-1, dropSlot el n)
  | some comprType =>
      if el.decoders n = false ∧ lib.elNewDecoder (el.ctx n) comprType = false then
        (-1, dropSlot el n)
      else
        (n, { el with
          decoders := Function.update el.decoders n true
          videoFrames := openedFrames el
          isEmpty := false
          hasVideo := true
          numVideoFiles := n + 1 })

/-- `open_video_file` once the file has a free slot. -/
def openIntoSlot (lib : MediaLib) (fl : OpenFlags) (filename realname : CStr) (el : EditList) :
    ℤ × EditList :=
  let n := el.numVideoFiles
  let el := { el with lavFd := Function.update el.lavFd n none }
  match lib.lavOpenInputFile filename with
  | none => (-1, el)
  | some lav =>
      let ctx := lib.avhelperGetDecoder filename
      let el := { el with ctx := Function.update el.ctx n ctx }
      if ctx = none ∧ lib.testVideoFrame lav = -1 then (-1, el)
      else
        let el := { el with
          pixfmt := Function.update el.pixfmt n (ctx.getD (lib.testVideoFrame lav)) }
        if lav.videoFrames.toInt < 1 then (-1, el)
        else if validChroma lav.mjpgChroma = false then (-1, el)
        else
          let el := { el with
            mjpgChroma := openedChroma lav el
            lavFd := Function.update el.lavFd n (some lav)
            numFrames := Function.update el.numFrames n lav.videoFrames
            videoFileList := Function.update el.videoFileList n (some realname) }
          if n = 0 then finishOpen lib lav n (adoptFirstFile fl lav el)
          else if mismatches lib lav el ≠ 0 then (-1, dropSlot el n)
          else finishOpen lib lav n el

/-- `open_video_file`. -/
def openVideoFile (lib : MediaLib) (fl : OpenFlags) (filename : CStr) (el : EditList) :
    Exec (ℤ × EditList) :=
  match if fl.preservePathname then some filename else lib.canonicalizeFileName filename with
  | none => .ok (-1, el)
  | some realname => do
      let listed ← alreadyListed el realname el.numVideoFiles
      if listed then .ok (-1, el)
      else if maxEditListFiles ≤ el.numVideoFiles then .ok (-1, el)
      else .ok (openIntoSlot lib fl filename realname el)

/-! ## What a call can do -/

/-- A rejected file leaves the counters, the entries and the files already open as they were. -/
structure SameBelow (el el' : EditList) : Prop where
  isEmpty : el'.isEmpty = el.isEmpty
  videoFrames : el'.videoFrames = el.videoFrames
  totalFrames : el'.totalFrames = el.totalFrames
  frameList : el'.frameList = el.frameList
  freed : el'.freed = el.freed
  numVideoFiles : el'.numVideoFiles = el.numVideoFiles
  numFrames : ∀ i ≠ el.numVideoFiles, el'.numFrames i = el.numFrames i
  videoFileList : ∀ i ≠ el.numVideoFiles, el'.videoFileList i = el.videoFileList i
  lavFd : ∀ i ≠ el.numVideoFiles, el'.lavFd i = el.lavFd i

/-- An accepted file takes the next slot, with at least one frame. -/
structure OneMore (el el' : EditList) : Prop where
  hasRoom : el.numVideoFiles < maxEditListFiles
  isEmpty : el'.isEmpty = false
  videoFrames : el'.videoFrames =
    if el.isEmpty then Int64.ofInt ((el'.numFrames 0).toInt - dummyFrames) else el.videoFrames
  totalFrames : el'.totalFrames = el.totalFrames
  frameList : el'.frameList = el.frameList
  freed : el'.freed = el.freed
  numVideoFiles : el'.numVideoFiles = el.numVideoFiles + 1
  numFrames : ∀ i ≠ el.numVideoFiles, el'.numFrames i = el.numFrames i
  newFrames : 1 ≤ (el'.numFrames el.numVideoFiles).toInt
  videoFileList : ∀ i ≠ el.numVideoFiles, el'.videoFileList i = el.videoFileList i
  newName : (el'.videoFileList el.numVideoFiles).isSome
  lavFd : ∀ i ≠ el.numVideoFiles, el'.lavFd i = el.lavFd i
  newFd : (el'.lavFd el.numVideoFiles).isSome

theorem SameBelow.refl (el : EditList) : SameBelow el el :=
  ⟨rfl, rfl, rfl, rfl, rfl, rfl, fun _ _ => rfl, fun _ _ => rfl, fun _ _ => rfl⟩

theorem adoptFirstFile_frame (fl : OpenFlags) (lav : LavFile) (el : EditList) :
    (adoptFirstFile fl lav el).isEmpty = el.isEmpty ∧
    (adoptFirstFile fl lav el).videoFrames = el.videoFrames ∧
    (adoptFirstFile fl lav el).totalFrames = el.totalFrames ∧
    (adoptFirstFile fl lav el).frameList = el.frameList ∧
    (adoptFirstFile fl lav el).freed = el.freed ∧
    (adoptFirstFile fl lav el).numVideoFiles = el.numVideoFiles ∧
    (adoptFirstFile fl lav el).numFrames = el.numFrames ∧
    (adoptFirstFile fl lav el).videoFileList = el.videoFileList ∧
    (adoptFirstFile fl lav el).lavFd = el.lavFd := by
  unfold adoptFirstFile
  dsimp only
  split_ifs <;> exact ⟨rfl, rfl, rfl, rfl, rfl, rfl, rfl, rfl, rfl⟩

/-- What `finishOpen` does to a list whose slot `n` is already filled in. -/
theorem finishOpen_cases (lib : MediaLib) (lav : LavFile) {n : ℕ} (el : EditList) :
    finishOpen lib lav n el = (-1, dropSlot el n) ∨
    ∃ decoders, finishOpen lib lav n el = ((n : ℤ), { el with
      decoders := decoders
      videoFrames := openedFrames el
      isEmpty := false
      hasVideo := true
      numVideoFiles := n + 1 }) := by
  unfold finishOpen
  cases lav.videoCompressor with
  | none => exact Or.inl rfl
  | some comprType =>
    by_cases h : el.decoders n = false ∧ lib.elNewDecoder (el.ctx n) comprType = false
    · exact Or.inl (if_pos h)
    · exact Or.inr ⟨_, if_neg h⟩

/-- `el'` is `el` with slot `n` filled in, and whatever the first file sets. -/
structure Filled (el el' : EditList) (n : ℕ) : Prop where
  isEmpty : el'.isEmpty = el.isEmpty
  videoFrames : el'.videoFrames = el.videoFrames
  totalFrames : el'.totalFrames = el.totalFrames
  frameList : el'.frameList = el.frameList
  freed : el'.freed = el.freed
  numVideoFiles : el'.numVideoFiles = el.numVideoFiles
  numFrames : ∀ i ≠ n, el'.numFrames i = el.numFrames i
  videoFileList : ∀ i ≠ n, el'.videoFileList i = el.videoFileList i
  newFrames : 1 ≤ (el'.numFrames n).toInt
  newName : (el'.videoFileList n).isSome
  lavFd : ∀ i ≠ n, el'.lavFd i = el.lavFd i
  newFd : (el'.lavFd n).isSome

theorem Filled.dropSlot {el el' : EditList} (h : Filled el el' el.numVideoFiles) :
    SameBelow el (dropSlot el' el.numVideoFiles) where
  isEmpty := h.isEmpty
  videoFrames := h.videoFrames
  totalFrames := h.totalFrames
  frameList := h.frameList
  freed := h.freed
  numVideoFiles := h.numVideoFiles
  numFrames := h.numFrames
  videoFileList := fun i hi => by
    show Function.update el'.videoFileList el.numVideoFiles none i = _
    rw [Function.update_of_ne hi, h.videoFileList i hi]
  lavFd := fun i hi => by
    show Function.update el'.lavFd el.numVideoFiles none i = _
    rw [Function.update_of_ne hi, h.lavFd i hi]

theorem Filled.finishOpen {el el' : EditList} (lib : MediaLib) (lav : LavFile)
    (h : Filled el el' el.numVideoFiles) (hroom : el.numVideoFiles < maxEditListFiles) :
    (∃ el'', finishOpen lib lav el.numVideoFiles el' = (-1, el'') ∧ SameBelow el el'') ∨
    ∃ el'', finishOpen lib lav el.numVideoFiles el' = ((el.numVideoFiles : ℤ), el'') ∧
      OneMore el el'' := by
  rcases finishOpen_cases lib lav (n := el.numVideoFiles) el' with hdrop | ⟨decoders, hok⟩
  · exact Or.inl ⟨_, hdrop, h.dropSlot⟩
  · refine Or.inr ⟨_, hok, ?_⟩
    exact {
      hasRoom := hroom
      isEmpty := rfl
      videoFrames := by
        rw [openedFrames, h.isEmpty, h.videoFrames]
      totalFrames := h.totalFrames
      frameList := h.frameList
      freed := h.freed
      numVideoFiles := rfl
      numFrames := h.numFrames
      newFrames := h.newFrames
      videoFileList := h.videoFileList
      newName := h.newName
      lavFd := h.lavFd
      newFd := h.newFd }

/-- **What `open_video_file` can do** once it has a slot. -/
theorem openIntoSlot_cases (lib : MediaLib) (fl : OpenFlags) (filename realname : CStr)
    (el : EditList) (hroom : el.numVideoFiles < maxEditListFiles) :
    (∃ el', openIntoSlot lib fl filename realname el = (-1, el') ∧ SameBelow el el') ∨
    ∃ el', openIntoSlot lib fl filename realname el = ((el.numVideoFiles : ℤ), el') ∧
      OneMore el el' := by
  unfold openIntoSlot
  cases hlav : lib.lavOpenInputFile filename with
  | none =>
    exact Or.inl ⟨_, rfl, ⟨rfl, rfl, rfl, rfl, rfl, rfl, fun _ _ => rfl, fun _ _ => rfl,
      fun i hi => Function.update_of_ne hi _ _⟩⟩
  | some lav =>
    dsimp only
    split_ifs with hctx hframes hchroma hfirst herr
    · exact Or.inl ⟨_, rfl, ⟨rfl, rfl, rfl, rfl, rfl, rfl, fun _ _ => rfl, fun _ _ => rfl,
        fun i hi => Function.update_of_ne hi _ _⟩⟩
    · exact Or.inl ⟨_, rfl, ⟨rfl, rfl, rfl, rfl, rfl, rfl, fun _ _ => rfl, fun _ _ => rfl,
        fun i hi => Function.update_of_ne hi _ _⟩⟩
    · exact Or.inl ⟨_, rfl, ⟨rfl, rfl, rfl, rfl, rfl, rfl, fun _ _ => rfl, fun _ _ => rfl,
        fun i hi => Function.update_of_ne hi _ _⟩⟩
    · -- the first file: its parameters are taken over before the codec is checked
      refine Filled.finishOpen lib lav ?_ hroom
      obtain ⟨h1, h2, h3, h4, h5, h6, h7, h8, h9⟩ := adoptFirstFile_frame fl lav _
      refine ⟨h1, h2, h3, h4, h5, h6, ?_, ?_, ?_, ?_, ?_, ?_⟩
      · intro i hi
        rw [h7]
        exact Function.update_of_ne hi _ _
      · intro i hi
        rw [h8]
        exact Function.update_of_ne hi _ _
      · rw [h7]
        simp only [Function.update_self]
        omega
      · rw [h8]
        simp only [Function.update_self, Option.isSome_some]
      · intro i hi
        rw [h9]
        exact (Function.update_of_ne hi _ _).trans (Function.update_of_ne hi _ _)
      · rw [h9]
        simp only [Function.update_self, Option.isSome_some]
    · exact Or.inl ⟨_, rfl, Filled.dropSlot
        ⟨rfl, rfl, rfl, rfl, rfl, rfl, fun i hi => Function.update_of_ne hi _ _,
          fun i hi => Function.update_of_ne hi _ _,
          by simp only [Function.update_self]; omega,
          by simp only [Function.update_self, Option.isSome_some],
          fun i hi => (Function.update_of_ne hi _ _).trans (Function.update_of_ne hi _ _),
          by simp only [Function.update_self, Option.isSome_some]⟩⟩
    · exact Filled.finishOpen lib lav
        ⟨rfl, rfl, rfl, rfl, rfl, rfl, fun i hi => Function.update_of_ne hi _ _,
          fun i hi => Function.update_of_ne hi _ _,
          by simp only [Function.update_self]; omega,
          by simp only [Function.update_self, Option.isSome_some],
          fun i hi => (Function.update_of_ne hi _ _).trans (Function.update_of_ne hi _ _),
          by simp only [Function.update_self, Option.isSome_some]⟩ hroom

/-- **What `open_video_file` can do.**  It fails and keeps everything in use, or adds one file. -/
theorem openVideoFile_cases {lib : MediaLib} {fl : OpenFlags} {filename : CStr} {el el' : EditList}
    {res : ℤ} (h : openVideoFile lib fl filename el = .ok (res, el')) :
    (res = -1 ∧ SameBelow el el') ∨ (res = el.numVideoFiles ∧ OneMore el el') := by
  unfold openVideoFile at h
  split at h
  · obtain ⟨rfl, rfl⟩ : -1 = res ∧ el = el' := by simpa using h
    exact Or.inl ⟨rfl, SameBelow.refl _⟩
  · rename_i realname _
    obtain ⟨listed, hlisted, hrest⟩ := bind_eq_ok.mp h
    split_ifs at hrest with hl hmax
    · obtain ⟨rfl, rfl⟩ : -1 = res ∧ el = el' := by simpa using hrest
      exact Or.inl ⟨rfl, SameBelow.refl _⟩
    · obtain ⟨rfl, rfl⟩ : -1 = res ∧ el = el' := by simpa using hrest
      exact Or.inl ⟨rfl, SameBelow.refl _⟩
    · have hslot := openIntoSlot_cases lib fl filename realname el (by omega)
      rw [Except.ok.inj hrest] at hslot
      rcases hslot with ⟨el'', heq, hsame⟩ | ⟨el'', heq, hone⟩
      · obtain ⟨rfl, rfl⟩ : res = -1 ∧ el' = el'' := by simpa using heq
        exact Or.inl ⟨rfl, hsame⟩
      · obtain ⟨rfl, rfl⟩ : res = el.numVideoFiles ∧ el' = el'' := by simpa using heq
        exact Or.inr ⟨rfl, hone⟩

/-- Where every open file has its name, a call does not fault. -/
theorem openVideoFile_returns (lib : MediaLib) (fl : OpenFlags) (filename : CStr) (el : EditList)
    (hnames : ∀ i < el.numVideoFiles, (el.videoFileList i).isSome) :
    ∃ res el', openVideoFile lib fl filename el = .ok (res, el') := by
  have hlisted : ∀ (realname : CStr) (n : ℕ), n ≤ el.numVideoFiles →
      ∃ b, alreadyListed el realname n = .ok b := by
    intro realname n
    induction n with
    | zero => exact fun _ => ⟨false, rfl⟩
    | succ n ih =>
      intro hn
      obtain ⟨b, hb⟩ := ih (by omega)
      obtain ⟨name, hname⟩ := Option.isSome_iff_exists.mp (hnames n (by omega))
      rw [alreadyListed, hb, ok_bind, hname]
      cases b with
      | true => exact ⟨true, rfl⟩
      | false => exact ⟨_, rfl⟩
  unfold openVideoFile
  split
  · exact ⟨_, _, rfl⟩
  · rename_i realname _
    obtain ⟨b, hb⟩ := hlisted realname el.numVideoFiles le_rfl
    rw [hb, ok_bind]
    split_ifs
    · exact ⟨_, _, rfl⟩
    · exact ⟨_, _, rfl⟩
    · exact ⟨_, _, rfl⟩

/-- A file that is not there is refused before anything is stored about it. -/
theorem openVideoFile_missing {lib : MediaLib} {fl : OpenFlags} {filename : CStr}
    {el el' : EditList} {res : ℤ} (hmissing : lib.lavOpenInputFile filename = none)
    (h : openVideoFile lib fl filename el = .ok (res, el')) :
    res = -1 ∧ el'.numFrames = el.numFrames := by
  unfold openVideoFile at h
  split at h
  · obtain ⟨rfl, rfl⟩ := Prod.mk.inj (Except.ok.inj h)
    exact ⟨rfl, rfl⟩
  · obtain ⟨listed, -, hrest⟩ := bind_eq_ok.mp h
    split_ifs at hrest
    · obtain ⟨rfl, rfl⟩ := Prod.mk.inj (Except.ok.inj hrest)
      exact ⟨rfl, rfl⟩
    · obtain ⟨rfl, rfl⟩ := Prod.mk.inj (Except.ok.inj hrest)
      exact ⟨rfl, rfl⟩
    · rw [openIntoSlot, hmissing] at hrest
      obtain ⟨rfl, rfl⟩ := Prod.mk.inj (Except.ok.inj hrest)
      exact ⟨rfl, rfl⟩

/-- Entries that were valid stay valid. -/
theorem EntryValid.of_same {el el' : EditList} (h : SameBelow el el') {x : UInt64}
    (hx : EntryValid el x) : EntryValid el' x := by
  refine ⟨by rw [h.numVideoFiles]; exact hx.1, ?_⟩
  rw [h.numFrames _ hx.1.ne]
  exact hx.2

theorem EntryValid.of_oneMore {el el' : EditList} (h : OneMore el el') {x : UInt64}
    (hx : EntryValid el x) : EntryValid el' x := by
  have hlt := hx.1
  refine ⟨by rw [h.numVideoFiles]; omega, ?_⟩
  rw [h.numFrames _ hx.1.ne]
  exact hx.2

end Veejay.Edl
