import Veejay.EditList.LoadValid

/-!
# The lists the program opens

What holds of every list `vj_el_init_with_args` returns, whatever the files: the record is alive, not
flagged empty, every open file has its name, and `total_frames` is `video_frames - 1`.  Its entries are
valid where it was opened from movies, or from one edit list that is loadable.
-/

namespace Veejay.Edl

open CLib

/-- The record is in use, and every open file has a name. -/
structure Sound (el : EditList) : Prop where
  notEmpty : el.isEmpty = false
  live : el.freed = false
  names : ∀ i < el.numVideoFiles, (el.videoFileList i).isSome

theorem Sound.openVideoFile {lib : MediaLib} {fl : OpenFlags} {name : CStr} {el el' : EditList}
    {fd : ℤ} (h : Sound el) (hopen : openVideoFile lib fl name el = .ok (fd, el')) : Sound el' := by
  rcases openVideoFile_cases hopen with ⟨-, hsame⟩ | ⟨-, hone⟩
  · refine ⟨hsame.isEmpty.trans h.notEmpty, hsame.freed.trans h.live, fun i hi => ?_⟩
    rw [hsame.numVideoFiles] at hi
    rw [hsame.videoFileList i hi.ne]
    exact h.names i hi
  · refine ⟨hone.isEmpty, hone.freed.trans h.live, fun i hi => ?_⟩
    rw [hone.numVideoFiles] at hi
    by_cases hlast : i = el.numVideoFiles
    · rw [hlast]
      exact hone.newName
    · rw [hone.videoFileList i hlast]
      exact h.names i (by omega)

theorem Sound.sameFiles {el el' : EditList} (h : Sound el) (hsame : SameFiles el el') : Sound el' := by
  obtain ⟨v, f, rfl⟩ := hsame
  exact ⟨h.notEmpty, h.live, h.names⟩

/-! ## Every step of the loader -/

theorem Sound.fgets {st : Loader} (h : Sound st.el) (input : List CStr) :
    Sound (fgets st input).1.el := by
  cases input <;> exact h

theorem Sound.adoptNorm {st : Loader} (h : Sound st.el) : Sound (adoptNorm st).el := by
  unfold Edl.adoptNorm
  split_ifs
  · exact h
  · exact ⟨h.notEmpty, h.live, h.names⟩

theorem Sound.scanCount {st : Loader} (h : Sound st.el) : Sound (scanCount st).el := by
  unfold Edl.scanCount
  split <;> exact h

/-- A step of the loader that returned left a sound record. -/
def StaysSound (r : Exec (Option Loader)) : Prop := ∀ st, r = .ok (some st) → Sound st.el

section Steps

variable {mem : Allocator} {lib : MediaLib} {fl : OpenFlags}

theorem readName_sound {i i' : ℤ} {st st' : Loader} (h : Sound st.el)
    (hread : readName mem lib fl i st = .ok (some (i', st'))) : Sound st'.el := by
  unfold readName at hread
  split at hread
  · cases hread
  · split_ifs at hread
    · cases hread
    · obtain ⟨⟨fd, el⟩, -, hread⟩ := bind_eq_ok.mp hread
      cases hread
    · obtain ⟨⟨fd, el⟩, hopen, hread⟩ := bind_eq_ok.mp hread
      obtain ⟨frames, -, hread⟩ := bind_eq_ok.mp hread
      split at hread
      · cases hread
      · rename_i el₁ hgrow
        obtain ⟨el₂, happend, hread⟩ := bind_eq_ok.mp hread
        obtain ⟨-, rfl⟩ := Prod.mk.inj (Option.some.inj (Except.ok.inj hread))
        exact ((h.openVideoFile hopen).sameFiles (growFrames_sameFiles hgrow)).sameFiles
          (appendEntries_sameFiles happend)

theorem readNames_sound {num : ℤ} {fuel : ℕ} : ∀ {i : ℤ} {input input' : List CStr}
    {st st' : Loader}, Sound st.el →
    readNames mem lib fl num fuel i input st = .ok (some (input', st')) → Sound st'.el := by
  induction fuel with
  | zero =>
    intro i input input' st st' h hread
    rw [readNames] at hread
    split_ifs at hread
    obtain ⟨-, rfl⟩ := Prod.mk.inj (Option.some.inj (Except.ok.inj hread))
    exact h
  | succ fuel ih =>
    intro i input input' st st' h hread
    rw [readNames] at hread
    split_ifs at hread
    · obtain ⟨named, hname, hread⟩ := bind_eq_ok.mp hread
      cases named with
      | none => cases hread
      | some named =>
        obtain ⟨i₁, st₁⟩ := named
        exact ih (readName_sound (h.fgets input) hname) hread
    · obtain ⟨-, rfl⟩ := Prod.mk.inj (Option.some.inj (Except.ok.inj hread))
      exact h

theorem readRest_sound {num : ℤ} {input : List CStr} {st : Loader} (h : Sound st.el) :
    StaysSound (readRest mem lib fl num input st) := by
  intro st' hread
  obtain ⟨named, hnames, hread⟩ := bind_eq_ok.mp hread
  cases named with
  | none => cases hread
  | some named =>
    obtain ⟨input₁, st₁⟩ := named
    exact (readNames_sound h hnames).sameFiles (readEntries_sameFiles hread)

theorem readEditList_sound {input : List CStr} {st : Loader} (h : Sound st.el) :
    StaysSound (readEditList mem lib fl input st) := by
  intro st' hread
  unfold readEditList at hread
  dsimp only at hread
  split_ifs at hread
  · cases hread
  · split at hread
    · cases hread
    · exact readRest_sound (((h.fgets _).adoptNorm.fgets _).scanCount) st' hread

theorem readMovie_sound {name : CStr} {st : Loader} (h : Sound st.el) :
    StaysSound (readMovie mem lib fl name st) := by
  intro st' hread
  obtain ⟨⟨fd, el⟩, hopen, hread⟩ := bind_eq_ok.mp hread
  obtain ⟨frames, -, hread⟩ := bind_eq_ok.mp hread
  split at hread
  · cases hread
  · obtain ⟨el₂, happend, hread⟩ := bind_eq_ok.mp hread
    obtain rfl := Option.some.inj (Except.ok.inj hread)
    exact ((h.openVideoFile hopen).sameFiles ⟨_, _, rfl⟩).sameFiles (appendEntries_sameFiles happend)

theorem readFile_sound {name : CStr} {st : Loader} (h : Sound st.el) :
    StaysSound (readFile mem lib fl name st) := by
  intro st' hread
  unfold readFile at hread
  split at hread
  · cases hread
  · dsimp only at hread
    split_ifs at hread
    · exact readEditList_sound (h.fgets _) st' hread
    · exact readMovie_sound (h.fgets _) st' hread

theorem readFiles_sound {names : List CStr} : ∀ {st : Loader}, Sound st.el →
    StaysSound (readFiles mem lib fl names st) := by
  induction names with
  | nil =>
    intro st h st' hread
    rw [readFiles] at hread
    obtain rfl := Option.some.inj (Except.ok.inj hread)
    exact h
  | cons name names ih =>
    intro st h st' hread
    rw [readFiles] at hread
    obtain ⟨next, hfile, hread⟩ := bind_eq_ok.mp hread
    cases next with
    | none => cases hread
    | some st₁ => exact ih (readFile_sound h st₁ hfile) st' hread

end Steps

theorem startLoad_sound (norm : UInt8) : Sound (startLoad norm).el :=
  ⟨rfl, rfl, fun i hi => absurd hi (Nat.not_lt_zero i)⟩

theorem Sound.of_finish {el el' : EditList} (h : Sound el) (hfin : finishLoad el = some el') :
    Sound el' := by
  obtain ⟨-, rfl⟩ := finishLoad_eq_some.mp hfin
  exact ⟨h.notEmpty, h.live, h.names⟩

/-! ## The representation of a list -/

/-- Every entry up to `total_frames` is initialised and names a frame of an open file. -/
def EntriesValid (el : EditList) : Prop :=
  ∀ i ≤ el.totalFrames.toNat, ∃ x, el.entryAt i = some x ∧ EntryValid el x

/-- **The representation invariant.**  `total_frames` is the index of the last entry. -/
structure RepInv (el : EditList) : Prop where
  total : (el.totalFrames.toNat : ℤ) = el.videoFrames.toInt - 1
  entries : EntriesValid el

/-- The entries so far are valid. -/
def ValidSoFar (el : EditList) : Prop := ∃ xs, Holds el xs ∧ ∀ x ∈ xs, EntryValid el x

theorem ValidSoFar.of_finish {el el' : EditList} (h : ValidSoFar el) (hfin : finishLoad el = some el') :
    ∀ i < el'.videoFrames.toInt.toNat, ∃ x, el'.entryAt i = some x ∧ EntryValid el' x := by
  obtain ⟨xs, hholds, hvalid⟩ := h
  obtain ⟨-, rfl⟩ := finishLoad_eq_some.mp hfin
  intro i hi
  have hlt : i < xs.length := by
    have hv := hholds.1
    dsimp only at hi
    omega
  refine ⟨xs.get ⟨i, hlt⟩, ?_, hvalid _ (List.get_mem _ _)⟩
  show el.entryAt i = _
  rw [hholds.entryAt hlt, List.getElem?_eq_getElem hlt]
  rfl

/-- `total_frames` of a list that is returned. -/
theorem finishLoad_total {el el' : EditList} (hfin : finishLoad el = some el') :
    (el'.totalFrames.toNat : ℤ) = el'.videoFrames.toInt - 1 := by
  obtain ⟨⟨-, -, -, hpos⟩, rfl⟩ := finishLoad_eq_some.mp hfin
  have hlt := el.videoFrames.toInt_lt
  show (((el.videoFrames - 1).toUInt64.toNat : ℕ) : ℤ) = el.videoFrames.toInt - 1
  rw [int64_toUInt64_toNat, Int64.toInt_sub, show (1 : Int64).toInt = 1 from rfl,
    Int.bmod_eq_of_le] <;> omega

/-! ## Movies -/

theorem EntryValid.sameFiles {el el' : EditList} (h : SameFiles el el') {x : UInt64}
    (hx : EntryValid el x) : EntryValid el' x := by
  obtain ⟨v, f, rfl⟩ := h
  exact hx

/-- The frames of the file in slot `n` are its valid entries. -/
theorem entryValid_of_mem_rangeEntries {el : EditList} {n : ℕ} {x : UInt64}
    (hroom : n < maxEditListFiles) (hn : n < el.numVideoFiles)
    (hx : x ∈ rangeEntries (UInt64.ofInt n) 0 ((el.numFrames n).toInt - 1)) : EntryValid el x := by
  obtain ⟨i, hlo, hhi, rfl⟩ := mem_rangeEntries.mp hx
  unfold maxEditListFiles at hroom
  have hlong := (el.numFrames n).toInt_lt
  have hfile : (nElFile (elEntry (UInt64.ofInt n) (UInt64.ofInt i))).toNat = n := by
    rw [nElFile_elEntry, uint64_toNat_ofInt_of_nonneg (by omega) (by omega)]
    omega
  have hframe : ((nElFrame (elEntry (UInt64.ofInt n) (UInt64.ofInt i))).toNat : ℤ) ≤ i := by
    rw [nElFrame_elEntry, uint64_toNat_ofInt_of_nonneg hlo (by omega)]
    omega
  rw [EntryValid, hfile]
  exact ⟨hn, by omega⟩

/-- A movie that could be opened adds its own frames. -/
theorem readMovie_valid {mem : Allocator} {lib : MediaLib} {fl : OpenFlags} {name : CStr}
    {st st' : Loader} (hsound : Sound st.el) (h : ValidSoFar st.el)
    (hread : readMovie mem lib fl name st = .ok (some st')) : ValidSoFar st'.el := by
  obtain ⟨xs, ⟨hv, htake⟩, hvalid⟩ := h
  have hsmall := Holds.length_lt ⟨hv, htake⟩
  obtain ⟨⟨fd, el⟩, hopen, hread⟩ := bind_eq_ok.mp hread
  obtain ⟨frames, hslot, hread⟩ := bind_eq_ok.mp hread
  rcases openVideoFile_cases hopen with ⟨rfl, -⟩ | ⟨rfl, hone⟩
  · -- a movie that could not be opened is looked up in slot `2^64 - 1`
    cases hslot
  · have hroom := hone.hasRoom
    have hn : (UInt64.ofInt (st.el.numVideoFiles : ℤ)).toNat = st.el.numVideoFiles := by
      rw [uint64_toNat_ofInt_of_nonneg (by omega) (by unfold maxEditListFiles at hroom; omega)]
      rfl
    dsimp only at hslot hread
    rw [loadSlot, hn, if_pos hroom] at hslot
    obtain rfl := Except.ok.inj hslot
    split at hread
    · cases hread
    · rename_i b hb
      obtain ⟨el', happend, hread⟩ := bind_eq_ok.mp hread
      obtain rfl := Option.some.inj (Except.ok.inj hread)
      have hcells := Allocator.realloc_eq_some hb
      rw [hone.frameList] at hcells
      have hlen := congrArg List.length htake
      rw [List.length_take, List.length_map] at hlen
      have hframes : ({ el with frameList := some b } : EditList).videoFrames.toInt = xs.length := by
        show el.videoFrames.toInt = xs.length
        rw [hone.videoFrames, if_neg (by simp [hsound.notEmpty]), hv]
      have hfirst := hone.newFrames
      have hholds : Holds el' (xs ++ rangeEntries (UInt64.ofInt st.el.numVideoFiles) 0
          ((el.numFrames st.el.numVideoFiles).toInt - 1)) := by
        refine appendEntries_ok hframes hsmall rfl (fun hsize => ?_) (by omega) happend
        rw [Block.size, hcells, Allocator.resized_length] at hsize
        rw [hcells, Allocator.resized_take (by omega) hsize, htake]
      have hsame : SameFiles el el' :=
        SameFiles.trans ⟨el.videoFrames, some b, rfl⟩ (appendEntries_sameFiles happend)
      refine ⟨_, hholds, fun x hx => ?_⟩
      rcases List.mem_append.mp hx with hold | hnew
      · exact (EntryValid.of_oneMore hone (hvalid x hold)).sameFiles hsame
      · refine EntryValid.sameFiles hsame (entryValid_of_mem_rangeEntries hroom ?_ hnew)
        rw [hone.numVideoFiles]
        omega

/-- The text begins with the line of an edit list. -/
def IsEditList (text : List UInt8) : Prop := (fgetsLines 1024 text).head? = some editListHeader

theorem readFiles_movies {mem : Allocator} {lib : MediaLib} {fl : OpenFlags} {names : List CStr}
    (hmovies : ∀ name ∈ names, ∀ text, lib.contents name = some text → ¬IsEditList text) :
    ∀ {st st' : Loader}, st.line ≠ editListHeader → Sound st.el → ValidSoFar st.el →
      readFiles mem lib fl names st = .ok (some st') → ValidSoFar st'.el := by
  induction names with
  | nil =>
    intro st st' _ _ h hread
    rw [readFiles] at hread
    obtain rfl := Option.some.inj (Except.ok.inj hread)
    exact h
  | cons name names ih =>
    intro st st' hline hsound h hread
    rw [readFiles] at hread
    obtain ⟨next, hfile, hread⟩ := bind_eq_ok.mp hread
    cases next with
    | none => cases hread
    | some st₁ =>
      have hsound₁ := readFile_sound hsound st₁ hfile
      unfold readFile at hfile
      split at hfile
      · cases hfile
      · rename_i text htext
        have hhead := hmovies name (by simp) text htext
        have hline' : (fgets st (fgetsLines 1024 text)).1.line ≠ editListHeader := by
          unfold IsEditList at hhead
          cases hlines : fgetsLines 1024 text with
          | nil => exact hline
          | cons l rest =>
            rw [hlines, List.head?_cons, Option.some.injEq] at hhead
            exact hhead
        dsimp only at hfile
        rw [if_neg hline'] at hfile
        have hvalid : ValidSoFar (fgets st (fgetsLines 1024 text)).1.el := by
          cases fgetsLines 1024 text <;> exact h
        have hline₁ : st₁.line = (fgets st (fgetsLines 1024 text)).1.line := by
          obtain ⟨opened, -, hrest⟩ := bind_eq_ok.mp hfile
          obtain ⟨frames, -, hrest⟩ := bind_eq_ok.mp hrest
          split at hrest
          · cases hrest
          · obtain ⟨el', -, hrest⟩ := bind_eq_ok.mp hrest
            obtain rfl := Option.some.inj (Except.ok.inj hrest)
            rfl
        exact ih (fun n hn => hmovies n (by simp [hn])) (by rw [hline₁]; exact hline') hsound₁
          (readMovie_valid (hsound.fgets _) hvalid hfile) hread

/-! ## The whole function -/

/-- The list is opened from movies, or from one edit list that is loadable. -/
def OpensCleanly (mem : Allocator) (lib : MediaLib) (fl : OpenFlags) (filename : List CStr) : Prop :=
  (∀ name ∈ filename, ∀ text, lib.contents name = some text → ¬IsEditList text) ∨
  ∃ name rest, filename = [name] ∧ lib.contents name = some (editListHeader ++ rest) ∧
    Loadable mem lib fl rest

theorem startLoad_valid (norm : UInt8) : ValidSoFar (startLoad norm).el :=
  ⟨[], ⟨rfl, rfl⟩, fun x hx => by cases hx⟩

/-- An edit list that is read gives a list whose entries are valid. -/
theorem readFile_editList {mem : Allocator} {lib : MediaLib} {fl : OpenFlags} {name : CStr}
    {rest : List UInt8} {st : Loader} {el : EditList}
    (htext : lib.contents name = some (editListHeader ++ rest)) (hload : Loadable mem lib fl rest)
    (hread : readFile mem lib fl name (startLoad 0) = .ok (some st))
    (hfin : finishLoad st.el = some el) : AllEntriesValid el := by
  have hok := (readEditList_iff mem lib fl rest).mpr hload
  rw [readFile, htext] at hread
  dsimp only at hread
  rw [fgets_eq, fgetsLines_header] at hread
  simp only [nextLine, if_true] at hread
  exact hok.apply hread st rfl el hfin

/-- The files that are read: a first argument that names a norm is not one of them. -/
theorem vjElInitWithArgs_eq_some {mem : Allocator} {lib : MediaLib} {fl : OpenFlags} {first : CStr}
    {others : List CStr} {el : EditList}
    (hload : vjElInitWithArgs mem lib fl (first :: others) = .ok (some el)) :
    ∃ names norm st, (names = others ∨ names = first :: others ∧ norm = 0) ∧
      readFiles mem lib fl names (startLoad norm) = .ok (some st) ∧ finishLoad st.el = some el := by
  rw [vjElInitWithArgs] at hload
  split_ifs at hload
  · obtain ⟨read, hread, hload⟩ := bind_eq_ok.mp hload
    cases read with
    | none => cases hload
    | some st => exact ⟨others, _, st, Or.inl rfl, hread, Except.ok.inj hload⟩
  · obtain ⟨read, hread, hload⟩ := bind_eq_ok.mp hload
    cases read with
    | none => cases hload
    | some st => exact ⟨first :: others, 0, st, Or.inr ⟨rfl, rfl⟩, hread, Except.ok.inj hload⟩

/-- Every list that is returned is in use, and `total_frames` is the index of its last entry. -/
theorem vjElInitWithArgs_sound {mem : Allocator} {lib : MediaLib} {fl : OpenFlags}
    {filename : List CStr} {el : EditList}
    (hload : vjElInitWithArgs mem lib fl filename = .ok (some el)) :
    Sound el ∧ (el.totalFrames.toNat : ℤ) = el.videoFrames.toInt - 1 := by
  cases filename with
  | nil => cases hload
  | cons first others =>
    obtain ⟨names, norm, st, -, hread, hfin⟩ := vjElInitWithArgs_eq_some hload
    exact ⟨(readFiles_sound (startLoad_sound norm) st hread).of_finish hfin, finishLoad_total hfin⟩

/-- **A list that is opened cleanly has valid entries.** -/
theorem vjElInitWithArgs_entriesValid {mem : Allocator} {lib : MediaLib} {fl : OpenFlags}
    {filename : List CStr} {el : EditList} (hopen : OpensCleanly mem lib fl filename)
    (hload : vjElInitWithArgs mem lib fl filename = .ok (some el)) : EntriesValid el := by
  have htotal := (vjElInitWithArgs_sound hload).2
  suffices hall : ∀ i < el.videoFrames.toInt.toNat, ∃ x, el.entryAt i = some x ∧ EntryValid el x from
    fun i hi => hall i (by omega)
  cases filename with
  | nil => cases hload
  | cons first others =>
    obtain ⟨names, norm, st, hnames, hread, hfin⟩ := vjElInitWithArgs_eq_some hload
    rcases hopen with hmovies | ⟨name, rest, hname, htext, hlist⟩
    · have hline : ([] : CStr) ≠ editListHeader := by decide
      have hnames' : ∀ name ∈ names, ∀ text, lib.contents name = some text → ¬IsEditList text := by
        intro name hname
        rcases hnames with rfl | ⟨rfl, -⟩
        · exact hmovies name (List.mem_cons_of_mem _ hname)
        · exact hmovies name hname
      exact ValidSoFar.of_finish (readFiles_movies hnames' hline (startLoad_sound norm)
        (startLoad_valid norm) hread) hfin
    · obtain ⟨rfl, rfl⟩ := List.cons.inj hname
      rcases hnames with rfl | ⟨rfl, rfl⟩
      · obtain rfl := Option.some.inj (Except.ok.inj hread)
        exact absurd rfl (finishLoad_eq_some.mp hfin).1.1
      · rw [readFiles] at hread
        obtain ⟨next, hfile, hread⟩ := bind_eq_ok.mp hread
        cases next with
        | none => cases hread
        | some st₁ =>
          obtain rfl := Option.some.inj (Except.ok.inj hread)
          intro i hi
          obtain ⟨x, hx, hvalid, -⟩ := readFile_editList htext hlist hfile hfin i hi
          exact ⟨x, hx, hvalid⟩

end Veejay.Edl
