import Veejay.EditList.LoadEntries
import Veejay.EditList.Paste

/-!
# When loading an edit list validates it

An entry of a loaded list should name an open movie file and one of its frames.  The loader misses
this in several ways: a range that reaches beyond the file is cut to `num_frames` instead of the last
frame, a file that cannot be opened is recorded as slot `2^64 - 1` and then looked up, and the number
of files is used even when the third line has none.

* `AllEntriesValid` — the property of a loaded list;
* `Loadable` — the texts and movie files for which the loader keeps it;
* `vjElInitWithArgs_validates_iff` — **the loader validates exactly these.**
-/

namespace Veejay.Edl

open CLib

/-- Every entry below `video_frames` names a file that was opened and one of its frames. -/
def AllEntriesValid (el : EditList) : Prop :=
  ∀ i < el.videoFrames.toInt.toNat, ∃ x, el.entryAt i = some x ∧ EntryValid el x ∧
    (el.lavFd (nElFile x).toNat).isSome

theorem Holds.entryAt {el : EditList} {xs : List UInt64} (h : Holds el xs) {i : ℕ}
    (hi : i < xs.length) : el.entryAt i = xs[i]? := by
  have hcell : (((el.frameList.map Block.cells).getD [])[i]?) = xs[i]?.map some := by
    rw [← List.getElem?_map, ← h.2, List.getElem?_take_of_lt hi]
  rw [EditList.entryAt]
  cases hb : el.frameList with
  | none =>
    rw [hb] at hcell
    simp only [Option.map_none, Option.getD_none, List.getElem?_nil] at hcell
    rw [List.getElem?_eq_getElem hi] at hcell
    cases hcell
  | some b =>
    rw [hb] at hcell
    simp only [Option.map_some, Option.getD_some] at hcell
    rw [Option.bind_some, hcell]
    cases xs[i]? <;> rfl

theorem Holds.allEntriesValid_iff {el : EditList} {xs : List UInt64} (h : Holds el xs) :
    AllEntriesValid el ↔
      ∀ x ∈ xs, EntryValid el x ∧ (el.lavFd (nElFile x).toNat).isSome := by
  have hlen : el.videoFrames.toInt.toNat = xs.length := by
    rw [h.1]
    rfl
  constructor
  · intro hall x hx
    obtain ⟨i, hi, rfl⟩ := List.getElem_of_mem hx
    obtain ⟨y, hy, hvalid⟩ := hall i (by omega)
    rw [h.entryAt hi, List.getElem?_eq_getElem hi] at hy
    obtain rfl := Option.some.inj hy
    exact hvalid
  · intro hall i hi
    rw [hlen] at hi
    exact ⟨xs.get ⟨i, hi⟩, by rw [h.entryAt hi, List.getElem?_eq_getElem hi]; rfl,
      hall _ (List.get_mem _ _)⟩

/-! ## The first lines -/

/-- The line a call of `fgets` leaves in the buffer, and the lines that are left. -/
def nextLine (line : CStr) : List CStr → CStr × List CStr
  | [] => (line, [])
  | next :: input => (next, input)

theorem fgets_eq (st : Loader) (input : List CStr) :
    fgets st input =
      ({ st with line := (nextLine st.line input).1 }, (nextLine st.line input).2) := by
  cases input <;> rfl

theorem nextLine_length {line : CStr} (input : List CStr) {n : ℕ} (hline : line.length ≤ n)
    (hinput : ∀ l ∈ input, l.length ≤ n) :
    (nextLine line input).1.length ≤ n ∧ ∀ l ∈ (nextLine line input).2, l.length ≤ n := by
  cases input with
  | nil => exact ⟨hline, hinput⟩
  | cons next input =>
    exact ⟨hinput next (by simp), fun l hl => hinput l (by simp [nextLine] at hl; simp [hl])⟩

/-- The record before any file has been opened. -/
def freshEl (videoNorm : UInt8) : EditList :=
  { callocEditList with hasVideo := true, mjpgChroma := 1, videoNorm }

/-- A round of the loop over the names whose `num_frames[n]` is zero: the first such round allocates
an empty array, any later one resizes it to nothing and takes that for a failure. -/
theorem readName_opened {mem : Allocator} {lib : MediaLib} {fl : OpenFlags} {i : ℤ} {st : Loader}
    {fd : ℤ} {el : EditList} (hlast : st.line.getLast? = some newline)
    (hopen : openVideoFile lib fl st.line.dropLast st.el = .ok (fd, el)) (hi : i.toNat < maxEditListFiles)
    (hlen : st.line.length < maxEditListFiles) (hzero : el.numFrames st.line.length = 0)
    (hnone : el.videoFrames = 0) :
    readName mem lib fl i st =
      if el.frameList = none then
        .ok (some (1, { st with
          line := st.line.dropLast
          indexList := Function.update st.indexList i.toNat (some (UInt64.ofInt fd))
          el := { el with frameList := some Block.empty } }))
      else .ok none := by
  have hn : (UInt64.ofNat st.line.length).toNat = st.line.length := by
    rw [UInt64.toNat_ofNat']
    unfold maxEditListFiles at hlen
    omega
  have hslot : loadSlot el.numFrames (UInt64.ofNat st.line.length) = .ok 0 := by
    rw [loadSlot, hn, if_pos hlen, hzero]
  have hbytes : (((0 : Int64).toUInt64 + UInt64.ofInt (0 : Int64).toInt) * 8).toNat = 0 := rfl
  rw [readName, hlast]
  simp only [ne_eq, not_true_eq_false, if_false, hopen, ok_bind, hslot,
    Nat.not_le.mpr hi]
  rw [growFrames, hnone, hbytes]
  cases hf : el.frameList with
  | none =>
    rw [if_pos rfl]
    rfl
  | some b =>
    rw [if_neg (by simp)]
    rfl

/-- What opening the first movie file does to the fresh record. -/
structure Opened (norm : UInt8) (fd : ℤ) (el : EditList) : Prop where
  isEmpty : el.isEmpty = false
  videoFrames : el.videoFrames = 0
  frameList : el.frameList = none
  freed : el.freed = false
  otherFrames : ∀ i ≠ 0, el.numFrames i = 0
  cases : (fd = -1 ∧ el.numVideoFiles = 0) ∨
    (fd = 0 ∧ el.numVideoFiles = 1 ∧ 1 ≤ (el.numFrames 0).toInt ∧ (el.lavFd 0).isSome ∧
      (el.videoFileList 0).isSome)

theorem openVideoFile_fresh (lib : MediaLib) (fl : OpenFlags) (name : CStr) (norm : UInt8) :
    ∃ fd el, openVideoFile lib fl name (freshEl norm) = .ok (fd, el) ∧ Opened norm fd el := by
  obtain ⟨fd, el, hopen⟩ := openVideoFile_returns lib fl name (freshEl norm)
    (fun i hi => absurd hi (Nat.not_lt_zero i))
  refine ⟨fd, el, hopen, ?_⟩
  rcases openVideoFile_cases hopen with ⟨rfl, h⟩ | ⟨rfl, h⟩
  · exact {
      isEmpty := h.isEmpty
      videoFrames := h.videoFrames
      frameList := h.frameList
      freed := h.freed
      otherFrames := h.numFrames
      cases := Or.inl ⟨rfl, h.numVideoFiles⟩ }
  · exact {
      isEmpty := h.isEmpty
      videoFrames := h.videoFrames
      frameList := h.frameList
      freed := h.freed
      otherFrames := h.numFrames
      cases := Or.inr ⟨rfl, h.numVideoFiles, h.newFrames, h.newFd, h.newName⟩ }

/-- Opening a second file leaves `num_frames[n]` zero for every line of length `n`: a line of length
one names the empty path. -/
theorem openVideoFile_second (lib : MediaLib) (fl : OpenFlags) {line : CStr} {norm : UInt8}
    {fd : ℤ} {el : EditList} (h : Opened norm fd el) (hline : line ≠ [])
    (p : Option (Block UInt64)) :
    ∃ fd' el', openVideoFile lib fl line.dropLast { el with frameList := p } = .ok (fd', el') ∧
      el'.numFrames line.length = 0 ∧ el'.videoFrames = 0 ∧ el'.frameList = p := by
  have hlen : line.length ≠ 0 := fun h0 => hline (List.length_eq_zero_iff.mp h0)
  have hcount : el.numVideoFiles = 0 ∨ el.numVideoFiles = 1 ∧ (el.videoFileList 0).isSome := by
    rcases h.cases with ⟨-, h0⟩ | ⟨-, h1, -, -, hname⟩
    · exact Or.inl h0
    · exact Or.inr ⟨h1, hname⟩
  obtain ⟨fd', el', hopen⟩ := openVideoFile_returns lib fl line.dropLast
    { el with frameList := p } (by
      intro i hi
      rcases hcount with h0 | ⟨h1, hname⟩
      · exact absurd hi (by dsimp only; omega)
      · obtain rfl : i = 0 := by dsimp only at hi; omega
        exact hname)
  refine ⟨fd', el', hopen, ?_, ?_, ?_⟩
  · by_cases hone : line.length = 1
    · have hnil : line.dropLast = [] := List.length_eq_zero_iff.mp (by
        rw [List.length_dropLast]
        omega)
      rw [hnil] at hopen
      rw [(openVideoFile_missing lib.noEmptyPath hopen).2]
      exact h.otherFrames _ hlen
    · have hother : line.length ≠ el.numVideoFiles := by omega
      rcases openVideoFile_cases hopen with ⟨-, hsame⟩ | ⟨-, hnew⟩
      · exact (hsame.numFrames _ hother).trans (h.otherFrames _ hlen)
      · exact (hnew.numFrames _ hother).trans (h.otherFrames _ hlen)
  · rcases openVideoFile_cases hopen with ⟨-, hsame⟩ | ⟨-, hnew⟩
    · exact hsame.videoFrames.trans h.videoFrames
    · rw [hnew.videoFrames, if_neg (by simp [h.isEmpty])]
      exact h.videoFrames
  · rcases openVideoFile_cases hopen with ⟨-, hsame⟩ | ⟨-, hnew⟩
    · exact hsame.frameList
    · exact hnew.frameList

/-! ## The texts that load -/

/-- The first run of a list whose movie file is missing must name another file: file `0` would be
looked up in slot `2^64 - 1`. -/
def RejectedAtOnce (input : List CStr) : Prop :=
  ∀ line, input.find? (fun l => decide (l.headD 0 ≠ 58)) = some line →
    (scanEntry line (0, 0, 0)).1 ≠ 0

/-- The runs of a list stay inside its movie file, unless the list is given up anyway: for a line that
names another file, for want of memory, or because the movie has no picture. -/
def RunsInside (mem : Allocator) (el : EditList) (input : List CStr) : Prop :=
  ∀ ranges, askedRanges (el.numFrames 0).toInt (0, 0, 0) input = some ranges →
    Granted mem 0 ranges → el.videoWidth ≠ 0 → el.videoHeight ≠ 0 →
    ∀ r ∈ ranges, r.1 ≤ r.2 → r.2 < (el.numFrames 0).toInt

/-- The runs after the only name of a list. -/
def RunsLoadable (mem : Allocator) (lib : MediaLib) (fl : OpenFlags) (norm : UInt8) (name : CStr)
    (input : List CStr) : Prop :=
  ∀ fd el, openVideoFile lib fl name (freshEl norm) = .ok (fd, el) →
    if fd < 0 then RejectedAtOnce input else RunsInside mem el input

/-- The texts after the header that the loader validates. -/
def Loadable (mem : Allocator) (lib : MediaLib) (fl : OpenFlags) (rest : List UInt8) : Prop :=
  let norm := nextLine editListHeader (fgetsLines 1024 rest)
  let count := nextLine norm.1 norm.2
  let name := nextLine count.1 count.2
  let second := nextLine name.1.dropLast name.2
  isNorm (norm.1.headD 0) = true →
    ∃ v tail, scanInt count.1 = .val v tail ∧ (1 ≤ intValue v → name.1 ≠ [] ∧
      (name.1.getLast? = some newline →
        (intValue v = 1 →
          RunsLoadable mem lib fl (toLower (norm.1.headD 0)) name.1.dropLast name.2) ∧
        (2 ≤ intValue v → second.1 ≠ [])))

/-- What a load of the list `name` promises. -/
def LoadValidates (mem : Allocator) (lib : MediaLib) (fl : OpenFlags) (name : CStr) : Prop :=
  Ensures (vjElInitWithArgs mem lib fl [name]) fun r => ∀ el, r = some el → AllEntriesValid el

/-! ## The runs -/

/-- What the rest of the load makes of the loader is valid. -/
def LoadOk (r : Option Loader) : Prop :=
  ∀ st, r = some st → ∀ el, finishLoad st.el = some el → AllEntriesValid el

theorem finishLoad_eq_some {el el' : EditList} :
    finishLoad el = some el' ↔
      (el.numVideoFiles ≠ 0 ∧ el.videoWidth ≠ 0 ∧ el.videoHeight ≠ 0 ∧ 1 ≤ el.videoFrames.toInt) ∧
      el' = { el with
        maxFrameSize := curMaxFrameSize el
        totalFrames := (el.videoFrames - 1).toUInt64
        autoDeinter := false } := by
  unfold finishLoad
  split_ifs with h
  · constructor
    · intro heq
      cases heq
    · rintro ⟨⟨h1, h2, h3, h4⟩, -⟩
      exact absurd h (by simp [h1, h2, h3]; omega)
  · simp only [not_or, not_lt] at h
    constructor
    · intro heq
      exact ⟨⟨h.1, h.2.1, h.2.2.1, h.2.2.2⟩, (Option.some.inj heq).symm⟩
    · rintro ⟨-, rfl⟩
      rfl

/-- Without an open movie file there is no list. -/
theorem loadOk_of_noFiles {r : Option Loader}
    (h : ∀ st, r = some st → st.el.numVideoFiles = 0) : LoadOk r := by
  intro st hst el hel
  exact absurd (h st hst) (finishLoad_eq_some.mp hel).1.1

/-- The first line that is not a comment decides. -/
theorem readEntries_find (mem : Allocator) (input : List CStr) (st : Loader) :
    (input.find? (fun l => decide (l.headD 0 ≠ 58)) = none ∧
      ∃ line, readEntries mem input st = .ok (some { st with line })) ∨
    ∃ l rest line, input.find? (fun l => decide (l.headD 0 ≠ 58)) = some l ∧ l.headD 0 ≠ 58 ∧
      readEntries mem input st = readEntries mem (l :: rest) { st with line } := by
  induction input generalizing st with
  | nil => exact Or.inl ⟨rfl, st.line, rfl⟩
  | cons l input ih =>
    by_cases hl : l.headD 0 = 58
    · have hskip : readEntries mem (l :: input) st = readEntries mem input { st with line := l } := by
        rw [readEntries, readEntry_comment hl, ok_bind]
      rw [List.find?_cons_of_neg (by simpa using hl), hskip]
      rcases ih { st with line := l } with ⟨hnone, line, hrest⟩ | ⟨l', rest, line, hfind, hne, hrest⟩
      · exact Or.inl ⟨hnone, line, hrest⟩
      · exact Or.inr ⟨l', rest, line, hfind, hne, hrest⟩
    · rw [List.find?_cons_of_pos (by simpa using hl)]
      exact Or.inr ⟨l, input, st.line, rfl, hl, rfl⟩

/-- A line of a list that counts no movie file ends the load. -/
theorem readEntry_noFiles {mem : Allocator} {line : CStr} {st : Loader} {num : ℤ}
    (hnum : st.numListFiles = some num) (hle : num ≤ 0) (hline : line.headD 0 ≠ 58) :
    readEntry mem line st = .ok none := by
  rw [readEntry, if_neg hline]
  simp only [hnum]
  rw [if_pos (by omega)]

theorem readEntries_noFiles (mem : Allocator) (input : List CStr) {st : Loader} {num : ℤ}
    (hnum : st.numListFiles = some num) (hle : num ≤ 0) (hel : st.el.numVideoFiles = 0) :
    Ensures (readEntries mem input st) LoadOk := by
  rcases readEntries_find mem input st with ⟨-, line, hrest⟩ | ⟨l, rest, line, -, hne, hrest⟩
  · rw [hrest, ensures_ok]
    refine loadOk_of_noFiles fun st' hst' => ?_
    obtain rfl := Option.some.inj hst'
    exact hel
  · have hnone : readEntry mem l { st with line } = .ok none := readEntry_noFiles hnum hle hne
    rw [hrest, readEntries, hnone, ok_bind, ensures_ok]
    exact loadOk_of_noFiles fun st' hst' => absurd hst' (by simp)

/-- The runs of a list whose movie file is missing. -/
theorem readEntries_missing_iff (mem : Allocator) (input : List CStr) {st : Loader}
    {index : UInt64} (hnum : st.numListFiles = some 1) (hindex : st.indexList 0 = some index)
    (hout : maxEditListFiles ≤ index.toNat) (hargs : (st.nl, st.n1, st.n2) = (0, 0, 0))
    (hel : st.el.numVideoFiles = 0) :
    Ensures (readEntries mem input st) LoadOk ↔ RejectedAtOnce input := by
  rcases readEntries_find mem input st with ⟨hfind, line, hrest⟩ | ⟨l, rest, line, hfind, hne, hrest⟩
  · rw [hrest, ensures_ok]
    refine iff_of_true (loadOk_of_noFiles fun st' hst' => ?_) fun l hl => ?_
    · obtain rfl := Option.some.inj hst'
      exact hel
    · rw [hfind] at hl
      cases hl
  · have hrejected : RejectedAtOnce input ↔ (scanEntry l (0, 0, 0)).1 ≠ 0 := by
      constructor
      · intro h
        exact h l hfind
      · intro h l' hl'
        obtain rfl := Option.some.inj (hfind.symm.trans hl')
        exact h
    rw [hrest, hrejected, readEntries, readEntry, if_neg hne]
    simp only [hnum, hargs]
    by_cases hzero : (scanEntry l (0, 0, 0)).1 = 0
    · have hslot : loadSlot st.el.numFrames index = .error .outOfBounds :=
        if_neg (Nat.not_lt.mpr hout)
      simp only [hzero, Int.toNat_zero, hindex, hslot, error_bind]
      rw [if_neg (by omega), if_neg (by decide), error_bind]
      simp
    · rw [if_pos (by omega), ok_bind, ensures_ok]
      exact iff_of_true (loadOk_of_noFiles fun st' hst' => absurd hst' (by simp)) hzero

/-- The ranges a list asks for start inside its movie file, and end at most one frame behind it. -/
theorem askedRanges_bounds {numFrames : ℤ} {input : List CStr} :
    ∀ (args : ℤ × ℤ × ℤ) {ranges : List (ℤ × ℤ)}, args.2.2 < 2 ^ 31 →
      askedRanges numFrames args input = some ranges →
      ∀ r ∈ ranges, 0 ≤ r.1 ∧ r.2 < 2 ^ 31 ∧ r.2 ≤ numFrames := by
  induction input with
  | nil =>
    intro args ranges _ h r hr
    obtain rfl := Option.some.inj h
    cases hr
  | cons line input ih =>
    intro args ranges hfits h r hr
    rw [askedRanges] at h
    split_ifs at h
    · exact ih _ hfits h r hr
    · have hfits' : (cutEntry numFrames line args).2.2 < 2 ^ 31 :=
        lt_of_le_of_lt (min_le_left _ _) (scanEntry_fits hfits)
      obtain ⟨rest, hrest, rfl⟩ := Option.map_eq_some_iff.mp h
      rcases List.mem_cons.mp hr with rfl | hr
      · exact ⟨le_max_right _ _, hfits', min_le_right _ _⟩
      · exact ih _ hfits' hrest r hr

theorem entryValid_iff {el : EditList} {i : ℤ} (hi : 0 ≤ i) (hfits : i < 2 ^ 31)
    (hfiles : el.numVideoFiles = 1) :
    EntryValid el (elEntry 0 (UInt64.ofInt i)) ↔ i < (el.numFrames 0).toInt := by
  have hfile : (nElFile (elEntry 0 (UInt64.ofInt i))).toNat = 0 := by
    rw [nElFile_elEntry]
    rfl
  have hframe : ((nElFrame (elEntry 0 (UInt64.ofInt i))).toNat : ℤ) = i := by
    rw [nElFrame_elEntry, uint64_toNat_ofInt_of_nonneg hi (by omega)]
    omega
  rw [EntryValid, hfile, hframe, hfiles]
  exact and_iff_right Nat.one_pos

theorem nElFile_zero (i : ℤ) : (nElFile (elEntry 0 (UInt64.ofInt i))).toNat = 0 := by
  rw [nElFile_elEntry]
  rfl

/-- The runs of a list whose movie file is open. -/
theorem readEntries_open_iff (mem : Allocator) (input : List CStr) {st : Loader}
    (hnum : st.numListFiles = some 1) (hindex : st.indexList 0 = some 0)
    (hargs : (st.nl, st.n1, st.n2) = (0, 0, 0)) (hholds : Holds st.el [])
    (hfiles : st.el.numVideoFiles = 1) (hfd : (st.el.lavFd 0).isSome) :
    Ensures (readEntries mem input st) LoadOk ↔ RunsInside mem st.el input := by
  have hn2 : st.n2 = 0 := congrArg (fun a => a.2.2) hargs
  have hone : OneFile st 0 (st.el.numFrames 0).toInt :=
    ⟨hnum, hindex, by decide, rfl, by rw [hn2]; norm_num⟩
  obtain ⟨r, hr, hcases⟩ := readEntries_ensures mem input hone hholds
  rw [hargs] at hcases
  rw [hr, ensures_ok]
  cases r with
  | none =>
    refine iff_of_true (loadOk_of_noFiles fun st' hst' => absurd hst' (by simp)) ?_
    intro ranges hranges hgranted
    exact absurd hgranted (hcases ranges hranges)
  | some st' =>
    obtain ⟨ranges, hranges, hgranted, ⟨v, f, hsame⟩, hholds'⟩ := hcases
    have hbounds := askedRanges_bounds (0, 0, 0) (by norm_num) hranges
    rw [List.nil_append] at hholds'
    have hmem : ∀ x, x ∈ rangesEntries 0 ranges ↔
        ∃ r ∈ ranges, ∃ i, r.1 ≤ i ∧ i ≤ r.2 ∧ x = elEntry 0 (UInt64.ofInt i) := by
      intro x
      simp only [rangesEntries, List.mem_flatMap, mem_rangeEntries]
    constructor
    · intro hok ranges' hranges' _ hwidth hheight r hr hle
      obtain rfl := Option.some.inj (hranges.symm.trans hranges')
      have hlast : elEntry 0 (UInt64.ofInt r.2) ∈ rangesEntries 0 ranges :=
        (hmem _).mpr ⟨r, hr, r.2, hle, le_rfl, rfl⟩
      have hpos : 1 ≤ st'.el.videoFrames.toInt := by
        have := List.length_pos_of_mem hlast
        rw [hholds'.1]
        omega
      have hvalid := hok st' rfl _ (finishLoad_eq_some.mpr ⟨⟨by rw [hsame]; simp [hfiles],
        by rw [hsame]; exact hwidth, by rw [hsame]; exact hheight, hpos⟩, rfl⟩)
      have hentries := hholds'.allEntriesValid_iff.mp hvalid _ hlast
      obtain ⟨hlo, hhi, -⟩ := hbounds r hr
      have hlt := (entryValid_iff (by omega) hhi (by
        show st'.el.numVideoFiles = 1
        rw [hsame]
        exact hfiles)).mp hentries.1
      have hframes : st'.el.numFrames 0 = st.el.numFrames 0 := by rw [hsame]
      rw [← hframes]
      exact hlt
    · intro hinside st'' hst'' el hel
      obtain rfl := Option.some.inj hst''
      obtain ⟨⟨-, hwidth, hheight, -⟩, rfl⟩ := finishLoad_eq_some.mp hel
      rw [hsame] at hwidth hheight
      refine hholds'.allEntriesValid_iff.mpr fun x hx => ?_
      obtain ⟨r, hr, i, hlo, hhi, rfl⟩ := (hmem x).mp hx
      obtain ⟨hlo', hhi', -⟩ := hbounds r hr
      have hlt := hinside ranges hranges hgranted hwidth hheight r hr (by omega)
      refine ⟨(entryValid_iff (by omega) (by omega) ?_).mpr ?_, ?_⟩
      · show st'.el.numVideoFiles = 1
        rw [hsame]
        exact hfiles
      · show i < (st'.el.numFrames 0).toInt
        rw [hsame]
        show i < (st.el.numFrames 0).toInt
        omega
      · rw [nElFile_zero]
        show (st'.el.lavFd 0).isSome
        rw [hsame]
        exact hfd

/-! ## The whole file -/

theorem readNames_of_le {mem : Allocator} {lib : MediaLib} {fl : OpenFlags} {num i : ℤ} {fuel : ℕ}
    {input : List CStr} {st : Loader} (h : num ≤ i) :
    readNames mem lib fl num fuel i input st = .ok (some (input, st)) := by
  cases fuel with
  | zero => rw [readNames, if_neg (not_lt.mpr h)]
  | succ fuel => rw [readNames, if_neg (not_lt.mpr h)]

/-- A line that is empty faults: the byte before the buffer would be read. -/
theorem readName_nil {mem : Allocator} {lib : MediaLib} {fl : OpenFlags} {i : ℤ} {st : Loader}
    (h : st.line = []) : readName mem lib fl i st = .error .outOfBounds := by
  rw [readName, h]
  rfl

/-- A line without a newline ends the load. -/
theorem readName_tooLong {mem : Allocator} {lib : MediaLib} {fl : OpenFlags} {i : ℤ} (st : Loader)
    (hne : st.line ≠ []) (hlast : st.line.getLast? ≠ some newline) :
    readName mem lib fl i st = .ok none := by
  obtain ⟨c, hc⟩ := Option.isSome_iff_exists.mp (List.getLast?_isSome.mpr hne)
  have hne' : c ≠ newline := fun h => hlast (h ▸ hc)
  rw [readName, hc]
  exact if_pos hne'

/-- The loader after the only, or the first, name of a list. -/
def Loader.named (st : Loader) (fd : ℤ) (el : EditList) : Loader :=
  { st with
    line := st.line.dropLast
    indexList := Function.update st.indexList 0 (some (UInt64.ofInt fd))
    el := { el with frameList := some Block.empty } }

theorem readName_first (mem : Allocator) {lib : MediaLib} {fl : OpenFlags} (st : Loader) {fd : ℤ}
    {norm : UInt8} {el : EditList} (hel : st.el = freshEl norm) (hlen : st.line.length ≤ 1023)
    (hlast : st.line.getLast? = some newline)
    (hopen : openVideoFile lib fl st.line.dropLast (freshEl norm) = .ok (fd, el))
    (h : Opened norm fd el) :
    readName mem lib fl 0 st = .ok (some (1, st.named fd el)) := by
  have hne : st.line.length ≠ 0 := by
    intro h0
    rw [List.length_eq_zero_iff.mp h0] at hlast
    cases hlast
  rw [readName_opened hlast (by rw [hel]; exact hopen) (by decide)
    (by unfold maxEditListFiles; omega) (h.otherFrames _ hne) h.videoFrames, if_pos h.frameList]
  rfl

/-- A second name never gets past the array of zero entries. -/
theorem readName_second (mem : Allocator) (lib : MediaLib) (fl : OpenFlags) (st : Loader) {fd : ℤ}
    {norm : UInt8} {el : EditList} (h : Opened norm fd el)
    (hel : st.el = { el with frameList := some Block.empty }) (hlen : st.line.length ≤ 1023) :
    Ensures (readName mem lib fl 1 st) (fun r => r = none) ↔ st.line ≠ [] := by
  by_cases hne : st.line = []
  · rw [readName_nil hne]
    simp [hne]
  · by_cases hlast : st.line.getLast? = some newline
    · obtain ⟨fd', el', hopen, hzero, hnone, hlist⟩ :=
        openVideoFile_second lib fl h hne (some Block.empty)
      rw [readName_opened hlast (by rw [hel]; exact hopen) (by decide)
        (by unfold maxEditListFiles; omega) hzero hnone, hlist, if_neg (by simp)]
      simp [hne]
    · rw [readName_tooLong st hne hlast]
      simp [hne]

/-- The runs after the only name. -/
theorem readEntries_named_iff (mem : Allocator) (input : List CStr) (st : Loader) {fd : ℤ}
    {norm : UInt8} {el : EditList} (h : Opened norm fd el) (hnum : st.numListFiles = some 1)
    (hargs : (st.nl, st.n1, st.n2) = (0, 0, 0)) :
    Ensures (readEntries mem input (st.named fd el)) LoadOk ↔
      if fd < 0 then RejectedAtOnce input else RunsInside mem el input := by
  have hindex : (st.named fd el).indexList 0 = some (UInt64.ofInt fd) := by
    simp [Loader.named]
  rcases h.cases with ⟨rfl, hfiles⟩ | ⟨rfl, hfiles, -, hfd, -⟩
  · rw [if_pos (by decide)]
    exact readEntries_missing_iff mem input hnum hindex (by decide) hargs hfiles
  · rw [if_neg (by decide)]
    refine readEntries_open_iff mem input hnum hindex hargs ⟨?_, rfl⟩ hfiles hfd
    show el.videoFrames.toInt = _
    rw [h.videoFrames]
    rfl

/-- The names and the runs. -/
theorem readRest_iff (mem : Allocator) (lib : MediaLib) (fl : OpenFlags) {num : ℤ}
    {input : List CStr} {st : Loader} {norm : UInt8} (hnum : st.numListFiles = some num)
    (hargs : (st.nl, st.n1, st.n2) = (0, 0, 0)) (hel : st.el = freshEl norm)
    (hline : st.line.length ≤ 1023) (hinput : ∀ l ∈ input, l.length ≤ 1023) :
    Ensures (readRest mem lib fl num input st) LoadOk ↔
      (1 ≤ num → (nextLine st.line input).1 ≠ [] ∧
        ((nextLine st.line input).1.getLast? = some newline →
          (num = 1 → RunsLoadable mem lib fl norm (nextLine st.line input).1.dropLast
            (nextLine st.line input).2) ∧
          (2 ≤ num → (nextLine (nextLine st.line input).1.dropLast
            (nextLine st.line input).2).1 ≠ []))) := by
  have hnull : LoadOk none := loadOk_of_noFiles fun st' hst' => absurd hst' (by simp)
  by_cases hpos : 1 ≤ num
  · obtain ⟨hname, hinput'⟩ := nextLine_length _ hline hinput
    rw [readRest, readNames, if_pos (by omega), fgets_eq]
    generalize nextLine st.line input = next at *
    obtain ⟨name, rest⟩ := next
    simp only [hpos, forall_const] at hname hinput' ⊢
    by_cases hne : name = []
    · rw [readName_nil (by exact hne)]
      simp [hne]
    by_cases hlast : name.getLast? = some newline
    · obtain ⟨fd, el, hopen, h⟩ := openVideoFile_fresh lib fl name.dropLast norm
      rw [readName_first mem { st with line := name } hel hname hlast hopen h, ok_bind]
      simp only [hne, hlast, ne_eq, not_false_eq_true, true_and, forall_const]
      by_cases hone : num = 1
      · rw [readNames_of_le (by omega), ok_bind]
        have hruns := readEntries_named_iff mem rest { st with line := name } h
          (by rw [← hone]; exact hnum) hargs
        rw [hruns, RunsLoadable]
        constructor
        · intro hinside
          refine ⟨fun _ fd' el' hopen' => ?_, fun htwo => absurd htwo (by omega)⟩
          obtain ⟨rfl, rfl⟩ := Prod.mk.inj (Except.ok.inj (hopen.symm.trans hopen'))
          exact hinside
        · intro hall
          exact hall.1 hone fd el hopen
      · rw [readNames, if_pos (by omega), fgets_eq]
        have hlen : name.dropLast.length ≤ 1023 := by
          rw [List.length_dropLast]
          omega
        obtain ⟨hsecond, -⟩ := nextLine_length _ hlen hinput'
        have hstop := readName_second mem lib fl
          { (({ st with line := name } : Loader).named fd el) with
            line := (nextLine name.dropLast rest).1 } h rfl hsecond
        have htwo : 2 ≤ num := by omega
        simp only [hone, IsEmpty.forall_iff, true_and, htwo, forall_const]
        by_cases hnil : (nextLine name.dropLast rest).1 = []
        · simp only [Loader.named, hnil] at hstop ⊢
          rw [readName_nil rfl]
          simp
        · obtain ⟨r, hr, rfl⟩ := hstop.mpr hnil
          simp only [Loader.named] at hr ⊢
          rw [hr]
          simp [hnil, hnull]
    · rw [readName_tooLong { st with line := name } hne hlast, ok_bind]
      simp [hne, hlast, hnull]
  · rw [readRest, readNames_of_le (by omega), ok_bind]
    refine iff_of_true ?_ fun h => absurd h hpos
    exact readEntries_noFiles mem input hnum (by omega) (by rw [hel]; rfl)

/-- A load of one file is that file and the checks at the end. -/
theorem loadValidates_iff {mem : Allocator} {lib : MediaLib} {fl : OpenFlags} {name : CStr}
    (harg : isNormArgument name = false) :
    LoadValidates mem lib fl name ↔ Ensures (readFile mem lib fl name (startLoad 0)) LoadOk := by
  rw [LoadValidates, vjElInitWithArgs, if_neg (by simp [harg])]
  simp only [readFiles]
  cases readFile mem lib fl name (startLoad 0) with
  | error f => simp
  | ok r =>
    cases r with
    | none =>
      simp only [ok_bind, ensures_ok]
      exact iff_of_true (fun el hel => absurd hel (by simp))
        (loadOk_of_noFiles fun st' hst' => absurd hst' (by simp))
    | some st =>
      simp only [ok_bind, ensures_ok]
      constructor
      · rintro hall st' hst' el hel
        obtain rfl := Option.some.inj hst'
        exact hall el hel
      · intro hok el hel
        exact hok st rfl el hel

/-- The part for edit lists validates the texts that are loadable. -/
theorem readEditList_iff (mem : Allocator) (lib : MediaLib) (fl : OpenFlags) (rest : List UInt8) :
    Ensures (readEditList mem lib fl (fgetsLines 1024 rest)
      { startLoad 0 with line := editListHeader }) LoadOk ↔ Loadable mem lib fl rest := by
  have hheader : editListHeader.length ≤ 1023 := by decide
  obtain ⟨hnorm, hinput⟩ := nextLine_length (fgetsLines 1024 rest) hheader
    fun l hl => length_of_mem_fgetsLines hl
  rw [readEditList, fgets_eq, Loadable]
  dsimp only
  generalize nextLine editListHeader (fgetsLines 1024 rest) = norm at *
  obtain ⟨norm, input⟩ := norm
  dsimp only at hnorm hinput ⊢
  by_cases hisNorm : isNorm (norm.headD 0) = true
  · obtain ⟨hcount, hinput'⟩ := nextLine_length _ hnorm hinput
    rw [if_neg (show ¬isNorm (norm.headD 0) = false by rw [hisNorm]; decide), fgets_eq]
    simp only [hisNorm, forall_const]
    have hadopt : adoptNorm { startLoad 0 with line := norm } =
        { startLoad 0 with line := norm, el := freshEl (toLower (norm.headD 0)) } := rfl
    rw [hadopt]
    dsimp only
    generalize nextLine norm input = count at *
    obtain ⟨count, input'⟩ := count
    dsimp only at hcount hinput' ⊢
    rw [scanCount]
    dsimp only
    cases hscan : scanInt count with
    | eof => simp [startLoad]
    | fail => simp [startLoad]
    | val v tail =>
      dsimp only
      rw [readRest_iff mem lib fl rfl rfl rfl hcount hinput']
      constructor
      · intro h
        exact ⟨v, tail, rfl, h⟩
      · rintro ⟨v', tail', hval, h⟩
        obtain ⟨rfl, rfl⟩ := Scan.val.inj hval
        exact h
  · rw [if_pos (by simpa using hisNorm), ensures_ok]
    exact iff_of_true (loadOk_of_noFiles fun st' hst' => absurd hst' (by simp))
      fun h => absurd h hisNorm

theorem fgetsLines_header (rest : List UInt8) :
    fgetsLines 1024 (editListHeader ++ rest) = editListHeader :: fgetsLines 1024 rest := by
  have hsplit : fgetsLines 1024 (lit "LAV Edit List" ++ newline :: rest) =
      (lit "LAV Edit List" ++ [newline]) :: fgetsLines 1024 rest :=
    fgetsLines_cons (n := 1022) (by decide) (by decide) (by decide)
  rwa [show lit "LAV Edit List" ++ newline :: rest = editListHeader ++ rest by
    rw [editListHeader, List.append_assoc]; rfl] at hsplit

/-- **When loading validates.**  The text must have a count in its third line and no empty name.  Its
only movie file must be open before the first run is read, and no run may reach beyond it; a list of
two or more files is never loaded. -/
theorem vjElInitWithArgs_validates_iff (mem : Allocator) (lib : MediaLib) (fl : OpenFlags)
    (name : CStr) (rest : List UInt8) (htext : lib.contents name = some (editListHeader ++ rest)) :
    LoadValidates mem lib fl name ↔ isNormArgument name = true ∨ Loadable mem lib fl rest := by
  cases harg : isNormArgument name with
  | true =>
    simp only [true_or, iff_true]
    rw [LoadValidates, vjElInitWithArgs, if_pos harg]
    simp only [readFiles, ok_bind, ensures_ok]
    intro el hel
    exact absurd rfl (finishLoad_eq_some.mp hel).1.1
  | false =>
    rw [loadValidates_iff harg, readFile, htext]
    dsimp only
    rw [fgets_eq, fgetsLines_header]
    simp only [nextLine, if_true, Bool.false_eq_true, false_or]
    exact readEditList_iff mem lib fl rest

/-- An edit list with the one movie `m` and one run. -/
def oneRun (run : CStr) : List UInt8 :=
  lit "PAL" ++ newline :: (lit "1" ++ newline :: (lit "m" ++ newline :: (run ++ [newline])))

/-- A disk with an edit list that plays the whole of a movie of ten frames. -/
def tenFrames : MediaLib := oneMovie (editListHeader ++ oneRun (lit "0 0 9")) 10

theorem tenFrames_loadable :
    Loadable plentyOfMemory tenFrames ⟨false, false, 112⟩ (oneRun (lit "0 0 9")) := by
  intro _
  refine ⟨1, _, rfl, fun _ => ⟨by decide, fun _ => ⟨?_, fun h => absurd h (by decide)⟩⟩⟩
  intro _ fd el hopen
  have hfd : (0, (el.numFrames 0).toInt) = (fd, (10 : ℤ)) := by
    obtain ⟨rfl, rfl⟩ := Prod.mk.inj (Except.ok.inj hopen)
    rfl
  obtain ⟨rfl, hframes⟩ := Prod.mk.inj hfd
  rw [if_neg (by decide)]
  intro ranges hranges _ _ _ r hr _
  rw [hframes] at hranges ⊢
  obtain rfl : [(0, 9)] = ranges := Option.some.inj hranges
  obtain rfl := List.mem_singleton.mp hr
  decide

/-- The whole of a movie of ten frames is loaded as it should be. -/
theorem load_whole_movie :
    LoadValidates plentyOfMemory tenFrames ⟨false, false, 112⟩ (lit "list") :=
  (vjElInitWithArgs_validates_iff plentyOfMemory tenFrames ⟨false, false, 112⟩ (lit "list")
    (oneRun (lit "0 0 9")) rfl).mpr (Or.inr tenFrames_loadable)

/-- A run that names one frame too many is not cut back: entry `10` names frame `10` of ten frames. -/
theorem load_one_frame_too_many :
    ¬LoadValidates plentyOfMemory (oneMovie (editListHeader ++ oneRun (lit "0 0 10")) 10)
      ⟨false, false, 112⟩ (lit "list") := by
  rintro ⟨r, hr, hvalid⟩
  have hrun : (vjElInitWithArgs plentyOfMemory
      (oneMovie (editListHeader ++ oneRun (lit "0 0 10")) 10) ⟨false, false, 112⟩
      [lit "list"]).map (Option.map fun el =>
        (el.videoFrames.toInt, el.entryAt 10, (el.numFrames 0).toInt)) =
      .ok (some (11, some 10, 10)) := rfl
  rw [hr] at hrun
  obtain ⟨el, rfl, hel⟩ := Option.map_eq_some_iff.mp (Except.ok.inj hrun)
  obtain ⟨hframes, hel⟩ := Prod.mk.inj hel
  obtain ⟨hentry, hmovie⟩ := Prod.mk.inj hel
  obtain ⟨x, hx, ⟨-, hlt⟩, -⟩ := hvalid el rfl 10 (by rw [hframes]; decide)
  obtain rfl : 10 = x := Option.some.inj (hentry.symm.trans hx)
  rw [show (nElFile 10).toNat = 0 from rfl, hmovie] at hlt
  exact absurd hlt (by decide)

end Veejay.Edl
