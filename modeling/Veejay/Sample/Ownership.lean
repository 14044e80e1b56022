import Veejay.Sample.Mixing

/-!
# Edit lists of samples

A sample may play the plain edit list, one that was opened for it, or one that was cloned from another.  A clone has
its own frames but shares the opened files, and freeing a list closes its files unless it is a clone
(`libel/vj-el.c`, `libsample/sampleadm.c`).

* `Lists` — the edit lists in memory and the files they have open; `vjElFree`, `vjElSoftClone`;
* `Clips` — a bank of samples that refer to edit lists, and the operations on them;
* `Intact` — the invariant: the lists of live samples are allocated, and their files are open;
* `lists_intact` — **every run keeps it** in which no step closes files that a live sample still plays.
-/

namespace Veejay.Samples

open CLib

/-- The address of an edit list. -/
abbrev ListAddr := ℕ

/-- An edit list: the files that it reads (for each `lav_fd`, `decoders` and `ctx`). -/
structure EditList where
  isClone : Bool
  files : List ℕ

/-- The edit lists in memory, and the files that are open. -/
structure Lists where
  heap : ListAddr → Option EditList
  nextList : ListAddr
  isOpen : ℕ → Bool
  nextFile : ℕ

/-- `vj_el_init_with_args`, where it opens the files. -/
def vjElInit (files : ℕ) (ls : Lists) : ListAddr × Lists :=
  (ls.nextList,
    { heap := Function.update ls.heap ls.nextList (some ⟨false, List.range' ls.nextFile files⟩)
      nextList := ls.nextList + 1
      isOpen := fun h => if ls.nextFile ≤ h ∧ h < ls.nextFile + files then true else ls.isOpen h
      nextFile := ls.nextFile + files })

/-- An edit list is read. -/
def derefList (el : ListAddr) (ls : Lists) : Exec EditList :=
  match ls.heap el with
  | none => .error .useAfterFree
  | some l => .ok l

/-- `vj_el_soft_clone`, and `vj_el_clone`, which copies the frames as well. -/
def vjElSoftClone (el : ListAddr) (ls : Lists) : Exec (ListAddr × Lists) := do
  let l ← derefList el ls
  .ok (ls.nextList,
    { ls with heap := Function.update ls.heap ls.nextList (some ⟨true, l.files⟩), nextList := ls.nextList + 1 })

/-- `vj_el_free` -/
def vjElFree (el : ListAddr) (ls : Lists) : Exec Lists := do
  let l ← derefList el ls
  .ok { ls with
    heap := Function.update ls.heap el none
    isOpen := fun h => if !l.isClone ∧ h ∈ l.files then false else ls.isOpen h }

/-- What a sample plays. -/
structure Clip where
  editList : Option ListAddr

/-- The samples, the edit lists and the plain edit list. -/
structure Clips where
  samples : Bank Clip
  lists : Lists
  plain : ListAddr

/-- A new sample has no edit list yet. -/
def clipContents : Contents Clip where
  fresh _ _ _ _ := ⟨none⟩
  stored clip := clip
  copied clip := clip

/-- The loop of `sample_close_edl`: does another sample have the list? -/
def closeLoop (s1 : ℤ) (el : ListAddr) : List ℤ → Bank Clip → Exec (Bool × Bank Clip)
  | [], b => .ok (false, b)
  | i :: is, b => do
    let (there, b) ← sampleExists i b
    if !there || s1 = i then closeLoop s1 el is b
    else
      match ← sampleGet i b with
      | (none, _) => .error .nullPointer
      | (some si, b) => do
        let o ← deref si b
        if o.info.editList = some el then .ok (true, b) else closeLoop s1 el is b

/-- `sample_close_edl` -/
def sampleCloseEdl (s1 : ℤ) (el : ListAddr) (s : Clips) : Exec Clips := do
  if el = s.plain then .ok s
  else do
    let (same, b) ← closeLoop s1 el (idsUpTo s.samples.thisSampleId) s.samples
    if same then .ok { s with samples := b }
    else do
      let lists ← vjElFree el s.lists
      .ok { s with samples := b, lists := lists }

/-- `if (el) sample_close_edl(s1, el)` -/
def closeIfAny (s1 : ℤ) (el : Option ListAddr) (s : Clips) : Exec Clips :=
  match el with
  | none => .ok s
  | some el => sampleCloseEdl s1 el s

/-- `sample_read_edl`: `opened` are the files of the edit list, if it can be loaded. -/
def sampleReadEdl (si : Addr) (opened : Option ℕ) (s : Clips) : Exec Clips :=
  match opened with
  | none => .ok s
  | some files => do
    let o ← deref si s.samples
    let (el, lists) := vjElInit files s.lists
    let b ← updateInfo si (fun _ => ⟨some el⟩) s.samples
    closeIfAny o.sampleId o.info.editList { s with samples := b, lists := lists }

/-- Where the edit list of a new sample comes from. -/
inductive NewList where
  /-- the plain edit list: `sample_new_simple`, or a sample whose own list cannot be loaded -/
  | plain
  /-- a list that is opened for the sample -/
  | opened (files : ℕ)
  /-- `veejay_edit_copy_to_new` of the plain edit list -/
  | plainRange
  /-- `veejay_edit_copy_to_new` of the edit list of the sample that is playing -/
  | rangeOf (playing : ℤ)

/-- A range of an edit list, if there is one. -/
def copyToNew (el : Option ListAddr) (s : Clips) : Exec (Option ListAddr × Clips) :=
  match el with
  | none => .ok (none, s)
  | some el => do
    let (new, lists) ← vjElSoftClone el s.lists
    .ok (some new, { s with lists := lists })

/-- The edit list of a new sample. -/
def newList (s : Clips) : NewList → Exec (Option ListAddr × Clips)
  | .plain => .ok (some s.plain, s)
  | .opened files =>
    let (el, lists) := vjElInit files s.lists
    .ok (some el, { s with lists := lists })
  | .plainRange => copyToNew (some s.plain) s
  | .rangeOf playing => copyToNew ((s.samples.infoOf playing).bind Clip.editList) s

/-- A sample is created, given its edit list and stored. -/
def createSample (src : NewList) (startFrame endFrame : ℤ) (s : Clips) : Exec Clips := do
  match ← newList s src with
  | (none, s) => .ok s
  | (some el, s) => do
    match ← sampleSkeletonNew clipContents startFrame endFrame s.samples with
    | (none, b) => .ok { s with samples := b }
    | (some (skel, _), b) => do
      let b ← updateInfo skel (fun _ => ⟨some el⟩) b
      let b ← sampleStore clipContents skel b
      .ok { s with samples := b }

/-- `sample_copy`, with the clone of the edit list. -/
def copySample (id : ℤ) (s : Clips) : Exec Clips := do
  let (there, b) ← sampleExists id s.samples
  if !there then .ok { s with samples := b }
  else
    match ← sampleGet id b with
    | (none, _) => .error .nullPointer
    | (some org, b) => do
      let o ← deref org b
      let (el, s) ← copyToNew o.info.editList { s with samples := b }
      let (_, b) ← sampleCopy { clipContents with copied := fun _ => ⟨el⟩ } id s.samples
      .ok { s with samples := b }

/-- `sample_del`, with its edit list. -/
def delSample (id : ℤ) (s : Clips) : Exec Clips := do
  match ← findStored id s.samples with
  | (none, b) => .ok { s with samples := b }
  | (some (si, o), b) => do
    let s ← closeIfAny id o.info.editList { s with samples := b }
    let b ← dropStored id si s.samples
    .ok { s with samples := b }

/-- The edit list of a sample is loaded. -/
def loadEdl (id : ℤ) (opened : Option ℕ) (s : Clips) : Exec Clips := do
  match ← sampleGet id s.samples with
  | (none, b) => .ok { s with samples := b }
  | (some si, b) => sampleReadEdl si opened { s with samples := b }

/-- The operations. -/
inductive ClipOp where
  | create (src : NewList) (startFrame endFrame : ℤ)
  | copy (id : ℤ)
  | del (id : ℤ)
  | load (id : ℤ) (opened : Option ℕ)

/-- One operation. -/
def clipStep (s : Clips) (op : ClipOp) : Exec (Unit × Clips) := do
  let s ← match op with
    | .create src startFrame endFrame => createSample src startFrame endFrame s
    | .copy id => copySample id s
    | .del id => delSample id s
    | .load id opened => loadEdl id opened s
  .ok ((), s)

/-! ## Lists and files -/

section Lists

variable {ls ls' : Lists}

/-- The edit lists as they are allocated: a file belongs to one list that is not a clone. -/
structure ListsOk (ls : Lists) : Prop where
  unallocated : ∀ el, ls.nextList ≤ el → ls.heap el = none
  bounded : ∀ el l, ls.heap el = some l → ∀ h ∈ l.files, h < ls.nextFile
  owned : ∀ el el' l l', ls.heap el = some l → ls.heap el' = some l' → l.isClone = false → l'.isClone = false →
    el ≠ el' → List.Disjoint l.files l'.files

/-- The list is allocated and its files are open. -/
def Usable (ls : Lists) (el : ListAddr) : Prop := ∃ l, ls.heap el = some l ∧ ∀ h ∈ l.files, ls.isOpen h = true

/-- A list came in addition. -/
structure Grown (ls ls' : Lists) : Prop where
  ok : ListsOk ls'
  heap : ∀ el l, ls.heap el = some l → ls'.heap el = some l
  isOpen : ∀ h, ls.isOpen h = true → ls'.isOpen h = true

theorem Grown.usable (hg : Grown ls ls') {el : ListAddr} (h : Usable ls el) : Usable ls' el := by
  obtain ⟨l, hl, hopen⟩ := h
  exact ⟨l, hg.heap el l hl, fun f hf => hg.isOpen f (hopen f hf)⟩

/-- What is allocated is not at the next address. -/
theorem ListsOk.ne_next (ok : ListsOk ls) {el : ListAddr} {l : EditList} (hl : ls.heap el = some l) :
    el ≠ ls.nextList := by
  rintro rfl
  rw [ok.unallocated _ le_rfl] at hl
  cases hl

/-- What is at an address after a list was put at the next one. -/
theorem heap_next {new l : EditList} {el : ListAddr} (h : Function.update ls.heap ls.nextList (some new) el = some l) :
    (el = ls.nextList ∧ l = new) ∨ (el ≠ ls.nextList ∧ ls.heap el = some l) := by
  by_cases heq : el = ls.nextList
  · rw [heq, Function.update_self] at h
    exact Or.inl ⟨heq, (Option.some.inj h).symm⟩
  · rw [Function.update_of_ne heq] at h
    exact Or.inr ⟨heq, h⟩

/-- A list put at the next address leaves the others. -/
theorem ListsOk.unallocated_next (ok : ListsOk ls) {new : EditList} {el : ListAddr} (h : ls.nextList + 1 ≤ el) :
    Function.update ls.heap ls.nextList (some new) el = none := by
  rw [Function.update_of_ne (Nat.ne_of_gt h)]
  exact ok.unallocated el (Nat.le_of_succ_le h)

/-- **`vj_el_init_with_args`** opens new files. -/
theorem vjElInit_spec (ok : ListsOk ls) (files : ℕ) :
    Grown ls (vjElInit files ls).2 ∧ Usable (vjElInit files ls).2 (vjElInit files ls).1 := by
  have hfile : ∀ h, h ∈ List.range' ls.nextFile files ↔ ls.nextFile ≤ h ∧ h < ls.nextFile + files := by
    intro h
    rw [List.mem_range'_1]
  refine ⟨⟨⟨fun el h => ok.unallocated_next h, fun el l hl => ?_, fun el el' l l' hl hl' hown hown' hne => ?_⟩,
    fun el l hl => ?_, fun h hopen => ?_⟩, _, Function.update_self .., fun h hh => ?_⟩
  · show ∀ h ∈ l.files, h < ls.nextFile + files
    intro h hh
    rcases heap_next hl with ⟨-, rfl⟩ | ⟨-, hold⟩
    · exact ((hfile h).mp hh).2
    · exact Nat.lt_add_right files (ok.bounded el l hold h hh)
  · rcases heap_next hl with ⟨rfl, rfl⟩ | ⟨-, hold⟩ <;> rcases heap_next hl' with ⟨rfl, rfl⟩ | ⟨-, hold'⟩
    · exact absurd rfl hne
    · intro h hh hh'
      have hlt := ok.bounded el' l' hold' h hh'
      have hge := ((hfile h).mp hh).1
      omega
    · intro h hh hh'
      have hlt := ok.bounded el l hold h hh
      have hge := ((hfile h).mp hh').1
      omega
    · exact ok.owned el el' l l' hold hold' hown hown' hne
  · show Function.update ls.heap ls.nextList _ el = some l
    rw [Function.update_of_ne (ok.ne_next hl), hl]
  · show (if ls.nextFile ≤ h ∧ h < ls.nextFile + files then true else ls.isOpen h) = true
    rw [hopen, ite_self]
  · exact if_pos ((hfile h).mp hh)

/-- **`vj_el_soft_clone`** shares the files. -/
theorem vjElSoftClone_spec (ok : ListsOk ls) {el : ListAddr} (h : Usable ls el) :
    ∃ new ls', vjElSoftClone el ls = .ok (new, ls') ∧ Grown ls ls' ∧ Usable ls' new := by
  obtain ⟨l, hl, hopen⟩ := h
  have hrun : vjElSoftClone el ls = .ok (ls.nextList, { ls with
      heap := Function.update ls.heap ls.nextList (some ⟨true, l.files⟩), nextList := ls.nextList + 1 }) := by
    rw [vjElSoftClone, derefList, hl]
    rfl
  refine ⟨ls.nextList, _, hrun, ⟨⟨fun a ha => ok.unallocated_next ha, ?_, ?_⟩,
    fun a k ha => ?_, fun _ hf => hf⟩, ⟨true, l.files⟩, Function.update_self .., hopen⟩
  · intro a k ha
    rcases heap_next ha with ⟨-, rfl⟩ | ⟨-, hold⟩
    · exact ok.bounded el l hl
    · exact ok.bounded a k hold
  · intro a a' k k' ha ha' hown hown' hne
    rcases heap_next ha with ⟨-, rfl⟩ | ⟨-, hold⟩
    · cases hown
    · rcases heap_next ha' with ⟨-, rfl⟩ | ⟨-, hold'⟩
      · cases hown'
      · exact ok.owned a a' k k' hold hold' hown hown' hne
  · show Function.update ls.heap ls.nextList _ a = some k
    rw [Function.update_of_ne (ok.ne_next ha), ha]

/-- **`vj_el_free`** closes the files of a list that is not a clone. -/
theorem vjElFree_spec (ok : ListsOk ls) {el : ListAddr} {l : EditList} (hl : ls.heap el = some l) :
    ∃ ls', vjElFree el ls = .ok ls' ∧ ListsOk ls' ∧ (∀ a, a ≠ el → ls'.heap a = ls.heap a) ∧
      ∀ a k, a ≠ el → ls.heap a = some k → (l.isClone = false → List.Disjoint l.files k.files) → Usable ls a →
        Usable ls' a := by
  have hkept : ∀ a k, Function.update ls.heap el none a = some k → ls.heap a = some k := by
    intro a k ha
    by_cases heq : a = el
    · rw [heq, Function.update_self] at ha
      cases ha
    · rwa [Function.update_of_ne heq] at ha
  have hrun : vjElFree el ls = .ok { ls with
      heap := Function.update ls.heap el none,
      isOpen := fun h => if !l.isClone ∧ h ∈ l.files then false else ls.isOpen h } := by
    rw [vjElFree, derefList, hl]
    rfl
  refine ⟨_, hrun, ⟨fun a ha => ?_, fun a k ha => ok.bounded a k (hkept a k ha), ?_⟩,
    fun a ha => Function.update_of_ne ha .., fun a k ha hk hdisj husable => ?_⟩
  · show Function.update ls.heap el none a = none
    by_cases heq : a = el
    · rw [heq, Function.update_self]
    · rw [Function.update_of_ne heq]
      exact ok.unallocated a ha
  · intro a a' k k' ha ha' hown hown' hne
    exact ok.owned a a' k k' (hkept a k ha) (hkept a' k' ha') hown hown' hne
  · obtain ⟨k', hk', hopen⟩ := husable
    obtain rfl := Option.some.inj (hk.symm.trans hk')
    refine ⟨k, (Function.update_of_ne ha ..).trans hk, fun h hh => ?_⟩
    show (if !l.isClone ∧ h ∈ l.files then false else ls.isOpen h) = true
    rw [if_neg, hopen h hh]
    rintro ⟨hclone, hmem⟩
    exact hdisj (by simpa using hclone) hmem hh

end Lists

/-! ## The invariant -/

section Clips

variable {s : Clips}

/-- The edit list of the sample with this id. -/
def Clips.listOf (s : Clips) (id : ℤ) : Option ListAddr := (s.samples.infoOf id).bind Clip.editList

/-- **No sample plays what is freed or closed**, nor does plain mode. -/
structure Playable (s : Clips) : Prop where
  plain : Usable s.lists s.plain
  samples : ∀ id el, s.listOf id = some el → Usable s.lists el

/-- The bank, the lists, and what they have to do with each other. -/
structure Intact (s : Clips) : Prop extends Playable s where
  regular : Regular s.samples
  coherent : Coherent s.samples
  ok : ListsOk s.lists
  plainOwn : ∀ l, s.lists.heap s.plain = some l → l.isClone = false

/-- A sample may give the list up: it stays, or no other sample plays the files that are closed. -/
def Releasable (s : Clips) (id : ℤ) (el : ListAddr) : Prop :=
  el = s.plain ∨ (∃ k, k ≠ id ∧ s.listOf k = some el) ∨
    ∀ l, s.lists.heap el = some l → l.isClone = false →
      ∀ k el' l', k ≠ id → s.listOf k = some el' → s.lists.heap el' = some l' → List.Disjoint l.files l'.files

/-- What an operation needs. -/
def MayRun (s : Clips) : ClipOp → Prop
  | .create _ startFrame endFrame => max startFrame 0 < endFrame → CanAllocate s.samples
  | .copy id => Live s.samples id → CanAllocate s.samples
  | .del id => id ≠ sampleMaxSamples ∧ (Live s.samples id → s.samples.nextAvailNum + 1 < sampleMaxSamples) ∧
      ∀ el, s.listOf id = some el → Releasable s id el
  | .load id opened => id ≠ sampleMaxSamples ∧ (opened ≠ none → ∀ el, s.listOf id = some el → Releasable s id el)

/-- The samples stay, and lists come in addition. -/
theorem Intact.grow (hs : Intact s) {ls : Lists} (hg : Grown s.lists ls) : Intact { s with lists := ls } where
  regular := hs.regular
  coherent := hs.coherent
  ok := hg.ok
  plainOwn l hl := by
    obtain ⟨k, hk, -⟩ := hs.plain
    have hkeep : ls.heap s.plain = some k := hg.heap s.plain k hk
    obtain rfl := Option.some.inj (hkeep.symm.trans hl)
    exact hs.plainOwn k hk
  plain := hg.usable hs.plain
  samples id el h := hg.usable (hs.samples id el h)

/-- Other samples, with usable lists. -/
theorem Intact.withSamples (hs : Intact s) {b : Bank Clip} (hb : Regular b) (hc : Coherent b)
    (hlists : ∀ id el, (b.infoOf id).bind Clip.editList = some el → Usable s.lists el) :
    Intact { s with samples := b } where
  regular := hb
  coherent := hc
  ok := hs.ok
  plainOwn := hs.plainOwn
  plain := hs.plain
  samples := hlists

/-- The samples are looked up. -/
theorem Intact.withCache (hs : Intact s) {cache : List (Option Addr)} (hsound : Sound (s.samples.withCache cache))
    (hsame : ∀ i, (s.samples.withCache cache).lookup i = s.samples.lookup i) :
    Intact { s with samples := s.samples.withCache cache } := by
  refine hs.withSamples (hs.regular.withCache hsound) (hs.coherent.withCache hs.regular.toSound hsound hsame) ?_
  intro id el h
  rw [infoOf_withCache hsame] at h
  exact hs.samples id el h

/-- A sample of a live id has a place in the bank. -/
theorem Intact.live_of_listOf (hs : Intact s) {id : ℤ} {el : ListAddr} (h : s.listOf id = some el) :
    Live s.samples id := by
  intro hhash
  rw [Clips.listOf, Bank.infoOf, hs.coherent.lookup_eq hs.regular.toSound, hhash] at h
  cases h

/-! ## Creating and copying -/

theorem copyToNew_spec (hs : Intact s) {src : Option ListAddr} (hsrc : ∀ el, src = some el → Usable s.lists el) :
    ∃ el ls, copyToNew src s = .ok (el, { s with lists := ls }) ∧ Grown s.lists ls ∧
      ∀ new, el = some new → Usable ls new := by
  cases src with
  | none => exact ⟨none, s.lists, rfl, ⟨hs.ok, fun _ _ h => h, fun _ h => h⟩, fun new h => (by cases h)⟩
  | some el =>
    obtain ⟨new, ls, hclone, hg, hnew⟩ := vjElSoftClone_spec hs.ok (hsrc el rfl)
    refine ⟨some new, ls, by rw [copyToNew, hclone, ok_bind], hg, fun n hn => ?_⟩
    obtain rfl := Option.some.inj hn
    exact hnew

theorem newList_spec (hs : Intact s) (src : NewList) :
    ∃ el ls, newList s src = .ok (el, { s with lists := ls }) ∧ Grown s.lists ls ∧
      ∀ new, el = some new → Usable ls new := by
  cases src with
  | plain =>
    refine ⟨some s.plain, s.lists, rfl, ⟨hs.ok, fun _ _ h => h, fun _ h => h⟩, fun new h => ?_⟩
    obtain rfl := Option.some.inj h
    exact hs.plain
  | opened files =>
    obtain ⟨hg, hnew⟩ := vjElInit_spec hs.ok files
    refine ⟨_, _, rfl, hg, fun new h => ?_⟩
    obtain rfl := Option.some.inj h
    exact hnew
  | plainRange =>
    refine @copyToNew_spec s hs (some s.plain) fun el h => ?_
    obtain rfl := Option.some.inj h
    exact hs.plain
  | rangeOf playing => exact copyToNew_spec hs fun el h => hs.samples playing el h

/-- A sample that came in addition plays a usable list. -/
theorem Intact.created (hs : Intact s) {id : ℤ} {clip : Clip} {b : Bank Clip} (hb : Regular b)
    (h : Created s.samples id clip b) (hclip : ∀ el, clip.editList = some el → Usable s.lists el) :
    Intact { s with samples := b } := by
  refine hs.withSamples hb h.coherent fun k el hk => ?_
  rw [h.infoOf hs.regular.toSound hs.coherent hb.toSound] at hk
  split_ifs at hk
  · exact hclip el hk
  · exact hs.samples k el hk

/-- **Creating a sample** -/
theorem createSample_spec (hs : Intact s) (src : NewList) {startFrame endFrame : ℤ}
    (hcan : max startFrame 0 < endFrame → CanAllocate s.samples) :
    ∃ s', createSample src startFrame endFrame s = .ok s' ∧ Intact s' := by
  obtain ⟨el, ls, hnew, hg, hel⟩ := newList_spec hs src
  have hs₁ : Intact { s with lists := ls } := hs.grow hg
  rw [createSample, hnew, ok_bind]
  cases el with
  | none => exact ⟨_, rfl, hs₁⟩
  | some el =>
    dsimp only
    rcases sampleSkeletonNew_spec hs.regular clipContents hcan with ⟨hskel, -⟩ | ⟨id, x, b, hskel, hb, hleft⟩
    · exact ⟨{ s with lists := ls }, by rw [hskel, ok_bind], hs₁⟩
    · obtain ⟨b₁, b₂, hset, hstore, hb₂, hcreated⟩ := hleft.store hb hs.coherent clipContents fun _ => ⟨some el⟩
      refine ⟨{ s with samples := b₂, lists := ls }, ?_, hs₁.created hb₂ hcreated fun e he => ?_⟩
      · rw [hskel, ok_bind]
        dsimp only
        rw [hset, ok_bind, hstore, ok_bind]
      · exact hel e he

/-- **Copying a sample** -/
theorem copySample_spec (hs : Intact s) {id : ℤ} (hcan : Live s.samples id → CanAllocate s.samples) :
    ∃ s', copySample id s = .ok s' ∧ Intact s' := by
  obtain ⟨there, cache, hexists, hb₁, hiff, hsame₁⟩ := sampleExists_spec hs.regular.toSound id
  have hs₁ := hs.withCache hb₁ hsame₁
  rw [copySample, hexists, ok_bind]
  cases there with
  | false => exact ⟨_, rfl, hs₁⟩
  | true =>
    have hlive : Live s.samples id := hiff.mp rfl
    have hlt := (hs.regular.live_lt hlive).2.2
    obtain ⟨cache₂, hget, hb₂, hsame₂⟩ := sampleGet_spec hb₁ (show id ≠ sampleMaxSamples by omega)
    have hs₂ := hs₁.withCache hb₂ hsame₂
    obtain ⟨org, horg⟩ := Option.ne_none_iff_exists'.mp (hs.regular.lookup_live hlive)
    rw [hsame₁, horg] at hget
    obtain ⟨o, hderef, hheap, -⟩ := deref_of_idAt (hs.regular.lookup_eq horg).2.2
    have hderef' : deref org ((s.samples.withCache cache).withCache cache₂) = .ok o := hderef
    have hlist : s.listOf id = o.info.editList := by
      rw [Clips.listOf, Bank.infoOf, horg, Option.bind_some, hheap]
      rfl
    obtain ⟨el, ls, hnew, hg, hel⟩ := copyToNew_spec hs₂ fun e he => hs.samples id e (hlist.trans he)
    have hs₃ := hs₂.grow hg
    obtain ⟨x, copyId, b, hcopy, hb, -, -, -, -, hcreated⟩ :=
      sampleCopy_live hs₂.regular { clipContents with copied := fun _ => ⟨el⟩ } hlive (hcan hlive)
    refine ⟨{ s with samples := b, lists := ls }, ?_, hs₃.created hb (hcreated hs₂.coherent) fun e he => hel e he⟩
    dsimp only
    rw [if_neg (by decide), hget, ok_bind]
    dsimp only
    rw [hderef', ok_bind, hnew, ok_bind]
    dsimp only
    rw [hcopy, ok_bind]

/-! ## Closing -/

/-- The loop finds whether another sample plays the list. -/
theorem closeLoop_spec (s1 : ℤ) (el : ListAddr) :
    ∀ (is : List ℤ) {b : Bank Clip}, Sound b →
      ∃ same cache, closeLoop s1 el is b = .ok (same, b.withCache cache) ∧ Sound (b.withCache cache) ∧
        (∀ i, (b.withCache cache).lookup i = b.lookup i) ∧
        (same = false → ∀ k ∈ is, k ≠ s1 → Live b k → (b.infoOf k).bind Clip.editList ≠ some el) := by
  intro is
  induction is with
  | nil =>
    exact fun hb => ⟨false, _, rfl, hb, fun _ => rfl, fun _ k hk => absurd hk List.not_mem_nil⟩
  | cons i is ih =>
    intro b hb
    obtain ⟨there, cache, hexists, hb₁, hiff, hsame₁⟩ := sampleExists_spec hb i
    rw [closeLoop, hexists, ok_bind]
    dsimp only
    by_cases hskip : (!there || decide (s1 = i)) = true
    · -- this sample does not count
      obtain ⟨same, cache', hloop, hb', hsame', hnot⟩ := ih hb₁
      refine ⟨same, cache', by rw [if_pos hskip, hloop]; rfl, hb', fun k => (hsame' k).trans (hsame₁ k), ?_⟩
      intro hfalse k hk hne hlive
      rcases List.mem_cons.mp hk with rfl | hk
      · rw [Bool.or_eq_true, Bool.not_eq_true', decide_eq_true_eq] at hskip
        rcases hskip with hthere | heq
        · exact absurd (hiff.mpr hlive) (by rw [hthere]; exact Bool.false_ne_true)
        · exact absurd heq.symm hne
      · have h := hnot hfalse k hk hne hlive
        rwa [infoOf_withCache hsame₁] at h
    · rw [if_neg hskip]
      rw [Bool.or_eq_true, Bool.not_eq_true', decide_eq_true_eq, not_or] at hskip
      have hlive : Live b i := hiff.mp (Bool.eq_true_of_not_eq_false hskip.1)
      have hlt := (hb.live_lt hlive).2.2
      obtain ⟨cache₂, hget, hb₂, hsame₂⟩ := sampleGet_spec hb₁ (show i ≠ sampleMaxSamples by omega)
      obtain ⟨si, hsi⟩ := Option.ne_none_iff_exists'.mp (hb.lookup_live hlive)
      rw [hsame₁, hsi] at hget
      obtain ⟨o, hderef, hheap, -⟩ := deref_of_idAt (hb.lookup_eq hsi).2.2
      have hderef' : deref si ((b.withCache cache).withCache cache₂) = .ok o := hderef
      have hlist : (b.infoOf i).bind Clip.editList = o.info.editList := by
        rw [Bank.infoOf, hsi, Option.bind_some, hheap]
        rfl
      rw [hget, ok_bind]
      dsimp only
      rw [hderef', ok_bind]
      split_ifs with heq
      · exact ⟨true, cache₂, rfl, hb₂, fun k => (hsame₂ k).trans (hsame₁ k), fun h => (by cases h)⟩
      · obtain ⟨same, cache', hloop, hb', hsame', hnot⟩ := ih hb₂
        refine ⟨same, cache', hloop, hb', fun k => (hsame' k).trans ((hsame₂ k).trans (hsame₁ k)), ?_⟩
        intro hfalse k hk hne hlive'
        rcases List.mem_cons.mp hk with rfl | hk
        · rw [hlist]
          exact heq
        · have h := hnot hfalse k hk hne hlive'
          rwa [infoOf_withCache hsame₂, infoOf_withCache hsame₁] at h

/-- **`sample_close_edl`** keeps the plain list, and those of the other samples where this one may be released. -/
theorem sampleCloseEdl_spec (hs : Intact s) {s1 : ℤ} {el : ListAddr} (hel : Usable s.lists el)
    (hrel : Releasable s s1 el) :
    ∃ cache ls, sampleCloseEdl s1 el s = .ok { s with samples := s.samples.withCache cache, lists := ls } ∧
      Sound (s.samples.withCache cache) ∧ (∀ i, (s.samples.withCache cache).lookup i = s.samples.lookup i) ∧
      ListsOk ls ∧ ls.heap s.plain = s.lists.heap s.plain ∧ Usable ls s.plain ∧
      (∀ k a, k ≠ s1 → s.listOf k = some a → Usable ls a) ∧
      ∀ a p, a ≠ el → s.lists.heap a = some p → p.isClone = false → Usable s.lists a → Usable ls a := by
  rw [sampleCloseEdl]
  by_cases hplain : el = s.plain
  · rw [if_pos hplain]
    exact ⟨s.samples.sampleCache, s.lists, rfl, hs.regular.toSound, fun _ => rfl, hs.ok, rfl, hs.plain,
      fun k a _ h => hs.samples k a h, fun _ _ _ _ _ h => h⟩
  · rw [if_neg hplain]
    obtain ⟨same, cache, hloop, hb, hsame, hnot⟩ :=
      closeLoop_spec s1 el (idsUpTo s.samples.thisSampleId) hs.regular.toSound
    rw [hloop, ok_bind]
    cases same with
    | true =>
      exact ⟨cache, s.lists, rfl, hb, hsame, hs.ok, rfl, hs.plain, fun k a _ h => hs.samples k a h, fun _ _ _ _ _ h => h⟩
    | false =>
      -- nobody else has the list
      have hother : ∀ k, k ≠ s1 → s.listOf k ≠ some el := by
        intro k hk h
        have hlive := hs.live_of_listOf h
        obtain ⟨hlo, hhi, -⟩ := hs.regular.live_lt hlive
        exact hnot rfl k (mem_idsUpTo.mpr ⟨hlo, le_of_lt hhi⟩) hk hlive h
      obtain ⟨l, hl, -⟩ := hel
      obtain ⟨ls, hfree, hok, hheap, hkeep⟩ := vjElFree_spec hs.ok hl
      have hown : ∀ a p, a ≠ el → s.lists.heap a = some p → p.isClone = false → Usable s.lists a → Usable ls a := by
        intro a p hne hp hown' husable
        exact hkeep a p hne hp (fun hown => hs.ok.owned el a l p hl hp hown hown' (Ne.symm hne)) husable
      refine ⟨cache, ls, ?_, hb, hsame, hok, hheap s.plain (Ne.symm hplain), ?_, fun k a hk ha => ?_, hown⟩
      · dsimp only
        rw [if_neg Bool.false_ne_true, hfree, ok_bind]
      · obtain ⟨p, hp, -⟩ := hs.plain
        exact hown s.plain p (Ne.symm hplain) hp (hs.plainOwn p hp) hs.plain
      · have hne : a ≠ el := by
          rintro rfl
          exact hother k hk ha
        have husable := hs.samples k a ha
        obtain ⟨p, hp, -⟩ := husable
        refine hkeep a p hne hp (fun hown => ?_) (hs.samples k a ha)
        rcases hrel with heq | ⟨k', hk', heq⟩ | hdisj
        · exact absurd heq hplain
        · exact absurd heq (hother k' hk')
        · exact hdisj l hl hown k a p hk ha hp

/-- What closing the list of a sample leaves. -/
structure Closed (s : Clips) (s1 : ℤ) (el : Option ListAddr) (b : Bank Clip) (ls : Lists) : Prop where
  ok : ListsOk ls
  plainHeap : ls.heap s.plain = s.lists.heap s.plain
  plain : Usable ls s.plain
  others : ∀ k a, k ≠ s1 → s.listOf k = some a → Usable ls a
  own : ∀ a p, el ≠ some a → s.lists.heap a = some p → p.isClone = false → Usable s.lists a → Usable ls a
  regular : Regular b
  coherent : Coherent b
  infoOf : ∀ k, b.infoOf k = s.samples.infoOf k
  hash : b.sampleHash = s.samples.sampleHash
  heap : b.heap = s.samples.heap
  next : b.nextAvailNum = s.samples.nextAvailNum

theorem closeIfAny_spec (hs : Intact s) {s1 : ℤ} {el : Option ListAddr} (hel : ∀ a, el = some a → Usable s.lists a)
    (hrel : ∀ a, el = some a → Releasable s s1 a) :
    ∃ b ls, closeIfAny s1 el s = .ok { s with samples := b, lists := ls } ∧ Closed s s1 el b ls := by
  cases el with
  | none =>
    exact ⟨s.samples, s.lists, rfl, hs.ok, rfl, hs.plain, fun k a _ h => hs.samples k a h, fun _ _ _ _ _ h => h,
      hs.regular, hs.coherent, fun _ => rfl, rfl, rfl, rfl⟩
  | some el =>
    obtain ⟨cache, ls, hclose, hb, hsame, hok, hheap, hplain, hother, hown⟩ :=
      sampleCloseEdl_spec hs (hel el rfl) (hrel el rfl)
    exact ⟨_, ls, hclose, hok, hheap, hplain, hother, fun a p ha => hown a p fun heq => ha (congrArg some heq.symm),
      hs.regular.withCache hb, hs.coherent.withCache hs.regular.toSound hb hsame, infoOf_withCache hsame, rfl, rfl, rfl⟩

/-- The lists stay usable where they are known. -/
theorem Closed.intact (hs : Intact s) {s1 : ℤ} {el : Option ListAddr} {b₁ b : Bank Clip} {ls : Lists}
    (h : Closed s s1 el b₁ ls) (hb : Regular b) (hc : Coherent b)
    (hlists : ∀ id a, (b.infoOf id).bind Clip.editList = some a → Usable ls a) :
    Intact { s with samples := b, lists := ls } where
  regular := hb
  coherent := hc
  ok := h.ok
  plainOwn l hl := hs.plainOwn l (h.plainHeap.symm.trans hl)
  plain := h.plain
  samples := hlists

/-- **Deleting a sample** -/
theorem delSample_spec (hs : Intact s) {id : ℤ} (hrun : MayRun s (.del id)) :
    ∃ s', delSample id s = .ok s' ∧ Intact s' := by
  obtain ⟨hid, hnext, hrel⟩ := hrun
  by_cases hlive : Live s.samples id
  · have hpos := (hs.regular.live_lt hlive).1
    obtain ⟨si, o, cache, hfind, hb₁, hlook, hheap, hat, hsame⟩ := findStored_live hs.regular.toSound hlive
    have hs₁ := hs.withCache hb₁ hsame
    have hlist : s.listOf id = o.info.editList := by
      rw [Clips.listOf, Bank.infoOf, hlook, Option.bind_some, hheap]
      rfl
    have hkept : ∀ k, Clips.listOf { s with samples := s.samples.withCache cache } k = s.listOf k :=
      fun k => congrArg (fun x => Option.bind x Clip.editList) (infoOf_withCache hsame k)
    have hrel₁ : ∀ a, o.info.editList = some a → Releasable { s with samples := s.samples.withCache cache } id a := by
      intro a ha
      rcases hrel a (hlist.trans ha) with h | ⟨k, hk, h⟩ | h
      · exact Or.inl h
      · exact Or.inr (Or.inl ⟨k, hk, (hkept k).trans h⟩)
      · exact Or.inr (Or.inr fun l hl hown k el' l' hk hk' => h l hl hown k el' l' hk ((hkept k).symm.trans hk'))
    obtain ⟨b₂, ls, hclose, hleft⟩ := closeIfAny_spec hs₁ (fun a ha => hs.samples id a (hlist.trans ha)) hrel₁
    have hlive₂ : Live b₂ id := by
      rw [Live, hleft.hash]
      exact hlive
    have hat₂ : b₂.idAt si = some id := by
      rw [Bank.idAt, hleft.heap]
      exact hat
    obtain ⟨b', hdrop, hdropped⟩ := dropStored_eq hleft.regular si hlive₂
    have hroom : b₂.nextAvailNum + 1 < sampleMaxSamples := by
      rw [hleft.next]
      exact hnext hlive
    refine ⟨{ s with samples := b', lists := ls }, ?_, ?_⟩
    · rw [delSample, hfind, ok_bind]
      dsimp only
      rw [hclose, ok_bind, hdrop, ok_bind]
    · refine hleft.intact hs₁ (hdropped.regular hleft.regular hlive₂ hat₂ hroom)
        (hdropped.coherent hleft.coherent (by omega)) fun k a hk => ?_
      by_cases heq : k = id
      · rw [heq, hdropped.infoOf_self hleft.regular.toSound] at hk
        cases hk
      · rw [hdropped.infoOf_other hleft.regular.toSound hat₂ (by omega) heq, hleft.infoOf] at hk
        exact hleft.others k a heq hk
  · obtain ⟨cache, hfind, hb₁, hsame⟩ := findStored_none hs.regular.toSound hid hlive
    exact ⟨_, by rw [delSample, hfind, ok_bind], hs.withCache hb₁ hsame⟩

/-- **Loading an edit list** -/
theorem loadEdl_spec (hs : Intact s) {id : ℤ} {opened : Option ℕ} (hrun : MayRun s (.load id opened)) :
    ∃ s', loadEdl id opened s = .ok s' ∧ Intact s' := by
  obtain ⟨hid, hrel⟩ := hrun
  obtain ⟨cache, hget, hb₁, hsame⟩ := sampleGet_spec hs.regular.toSound hid
  have hs₁ := hs.withCache hb₁ hsame
  rw [loadEdl, hget, ok_bind]
  cases hlook : s.samples.lookup id with
  | none => exact ⟨_, rfl, hs₁⟩
  | some si =>
    dsimp only
    cases opened with
    | none => exact ⟨_, rfl, hs₁⟩
    | some files =>
      obtain ⟨o, hderef, hheap, hoid⟩ := deref_of_idAt (hs.regular.lookup_eq hlook).2.2
      have hlook₁ : (s.samples.withCache cache).lookup id = some si := (hsame id).trans hlook
      have hheap₁ : (s.samples.withCache cache).heap si = some o := hheap
      have hlist : s.listOf id = o.info.editList := by
        rw [Clips.listOf, Bank.infoOf, hlook, Option.bind_some, hheap]
        rfl
      obtain ⟨hg, hnew⟩ := vjElInit_spec hs.ok files
      obtain ⟨new, ls, hinit⟩ : ∃ new ls, vjElInit files s.lists = (new, ls) := ⟨_, _, rfl⟩
      obtain ⟨l, hl, hown⟩ : ∃ l, (vjElInit files s.lists).2.heap (vjElInit files s.lists).1 = some l ∧ l.isClone = false :=
        ⟨_, Function.update_self .., rfl⟩
      have hfresh : s.lists.heap (vjElInit files s.lists).1 = none := hs.ok.unallocated _ le_rfl
      rw [hinit] at hg hnew hl hfresh
      dsimp only at hg hnew hl hfresh
      -- the sample with the new list
      obtain ⟨b₂, hb₂⟩ : ∃ b₂ : Bank Clip, { s.samples.withCache cache with
        heap := Function.update s.samples.heap si (some ⟨o.sampleId, ⟨some new⟩⟩) } = b₂ := ⟨_, rfl⟩
      have hreg₂ : Regular b₂ := by
        rw [← hb₂]
        exact hs₁.regular.withHeap (hs₁.regular.toSound.update hheap₁ rfl)
      have hco₂ : Coherent b₂ := by
        rw [← hb₂]
        exact hs₁.coherent
      have hinfo₂ : ∀ k, b₂.infoOf k = if k = id then some ⟨some new⟩ else s.samples.infoOf k := by
        intro k
        rw [← hb₂, ← infoOf_withCache hsame k]
        exact hs₁.regular.toSound.infoOf_update hlook₁ hheap₁ ⟨some new⟩ k
      have hs₂ : Intact { s with samples := b₂, lists := ls } := by
        refine (hs₁.grow hg).withSamples hreg₂ hco₂ fun k a hk => ?_
        rw [hinfo₂] at hk
        split_ifs at hk
        · obtain rfl := Option.some.inj hk
          exact hnew
        · exact hg.usable (hs.samples k a hk)
      have hother : ∀ k, k ≠ id → Clips.listOf { s with samples := b₂, lists := ls } k = s.listOf k := by
        intro k hk
        rw [Clips.listOf, hinfo₂, if_neg hk]
        rfl
      have hrel₂ : ∀ a, o.info.editList = some a → Releasable { s with samples := b₂, lists := ls } o.sampleId a := by
        intro a ha
        rw [hoid]
        have hold := hs.samples id a (hlist.trans ha)
        rcases hrel (Option.some_ne_none files) a (hlist.trans ha) with h | ⟨k, hk, h⟩ | h
        · exact Or.inl h
        · exact Or.inr (Or.inl ⟨k, hk, (hother k hk).trans h⟩)
        · refine Or.inr (Or.inr fun p hp hpown k el' l' hk hk' hl' => ?_)
          rw [hother k hk] at hk'
          obtain ⟨q, hq, -⟩ := hold
          obtain rfl := Option.some.inj ((hg.heap a q hq).symm.trans hp)
          obtain ⟨q', hq', -⟩ := hs.samples k el' hk'
          obtain rfl := Option.some.inj ((hg.heap el' q' hq').symm.trans hl')
          exact h q hq hpown k el' q' hk hk' hq'
      obtain ⟨b₃, ls', hclose, hleft⟩ :=
        closeIfAny_spec hs₂ (fun a ha => hg.usable (hs.samples id a (hlist.trans ha))) hrel₂
      have hset : updateInfo si (fun _ => ⟨some new⟩) (s.samples.withCache cache) = .ok b₂ := by
        rw [updateInfo, deref, hheap₁]
        dsimp only
        rw [ok_bind, ← hb₂]
        rfl
      have hderef₁ : deref si (s.samples.withCache cache) = .ok o := hderef
      refine ⟨_, ?_, hleft.intact hs₂ hleft.regular hleft.coherent fun k a hk => ?_⟩
      · rw [sampleReadEdl]
        dsimp only
        rw [hderef₁, ok_bind, hinit]
        dsimp only
        rw [hset, ok_bind, hclose]
      · rw [hleft.infoOf] at hk
        by_cases heq : k = id
        · have hk' : (b₂.infoOf k).bind Clip.editList = some a := hk
          rw [hinfo₂, if_pos heq] at hk'
          obtain rfl : new = a := Option.some.inj hk'
          refine hleft.own new l (fun h => ?_) hl hown hnew
          obtain ⟨q, hq, -⟩ := hs.samples id new (hlist.trans h)
          rw [hfresh] at hq
          cases hq
        · exact hleft.others k a (by rw [hoid]; exact heq) hk

/-! ## Runs -/

/-- One operation keeps the lists of live samples. -/
theorem clipStep_spec (hs : Intact s) {op : ClipOp} (hrun : MayRun s op) :
    ∃ s', clipStep s op = .ok ((), s') ∧ Intact s' := by
  cases op with
  | create src startFrame endFrame =>
    obtain ⟨s', h, hs'⟩ := createSample_spec hs src hrun
    exact ⟨s', by rw [clipStep, h, ok_bind], hs'⟩
  | copy id =>
    obtain ⟨s', h, hs'⟩ := copySample_spec hs hrun
    exact ⟨s', by rw [clipStep, h, ok_bind], hs'⟩
  | del id =>
    obtain ⟨s', h, hs'⟩ := delSample_spec hs hrun
    exact ⟨s', by rw [clipStep, h, ok_bind], hs'⟩
  | load id opened =>
    obtain ⟨s', h, hs'⟩ := loadEdl_spec hs hrun
    exact ⟨s', by rw [clipStep, h, ok_bind], hs'⟩

/-- The start: no samples, and the plain list with its files. -/
def clipsInit (files : ℕ) : Clips where
  samples := sampleInit
  lists := (vjElInit files ⟨fun _ => none, 0, fun _ => false, 0⟩).2
  plain := (vjElInit files ⟨fun _ => none, 0, fun _ => false, 0⟩).1

theorem coherent_sampleInit : Coherent (sampleInit : Bank Clip) := by
  intro n si hn
  cases List.eq_of_mem_replicate (List.mem_of_getElem? hn)

theorem intact_clipsInit (files : ℕ) : Intact (clipsInit files) := by
  have hempty : ListsOk ⟨fun _ => none, 0, fun _ => false, 0⟩ :=
    ⟨fun _ _ => rfl, fun _ _ h => (by cases h), fun _ _ _ _ h => (by cases h)⟩
  obtain ⟨hg, hplain⟩ := vjElInit_spec hempty files
  refine ⟨⟨hplain, fun id el h => ?_⟩, regular_sampleInit, coherent_sampleInit, hg.ok, fun l hl => ?_⟩
  · have hnone : (sampleInit : Bank Clip).infoOf id = none := by
      rw [Bank.infoOf, coherent_sampleInit.lookup_eq regular_sampleInit.toSound]
      rfl
    rw [Clips.listOf, clipsInit, hnone] at h
    cases h
  · have hl' : Function.update (fun _ => none) 0 (some ⟨false, List.range' 0 files⟩) 0 = some l := hl
    rw [Function.update_self] at hl'
    obtain rfl := Option.some.inj hl'
    rfl

/-- **Edit lists stay usable**: in every run whose operations find room for the ids and release no files that another
live sample plays, no live sample ever plays a list that is freed or closed, and the plain list stays. -/
theorem lists_intact (files : ℕ) (ops : List ClipOp) (h : RunMeets clipStep MayRun (clipsInit files) ops) :
    RunShows clipStep (fun _ _ _ s => Playable s) (clipsInit files) ops := by
  refine runOps_shows (fun s op hs hrun => ?_) ops (clipsInit files) (intact_clipsInit files) h
  obtain ⟨s', hstep, hs'⟩ := clipStep_spec hs hrun
  exact ⟨(), s', hstep, hs', hs'.toPlayable⟩

/-- A sample with an edit list of its own, from one file. -/
def ownList : Clips where
  samples := ⟨2, 0, List.replicate sampleMaxSamples 0, Function.update (fun _ => none) 1 (some 0),
    (List.replicate sampleMaxSamples none).set 1 (some 0), Function.update (fun _ => none) 0 (some ⟨1, ⟨some 1⟩⟩), 1⟩
  lists := (vjElInit 1 (clipsInit 1).lists).2
  plain := 0

theorem clipStep_ownList : clipStep (clipsInit 1) (.create (.opened 1) 0 10) = .ok ((), ownList) := by
  have hcache : (1 : ℤ) < sampleMaxSamples := by decide
  have hpos : 0 < sampleMaxSamples := by decide
  simp [clipStep, createSample, newList, ownList, vjElInit, clipsInit, sampleSkeletonNew, newId, sampleInit, findFreed,
    allocate, setCache, updateInfo, deref, clipContents, sampleStore, sampleExists, Function.update, hcache, hpos]

/-- A sample with its own list is created and deleted. -/
theorem ownList_deleted :
    RunShows clipStep (fun _ _ _ s => Playable s) (clipsInit 1) [.create (.opened 1) 0 10, .del 1] := by
  refine lists_intact 1 _ (RunMeets.cons (fun _ => Or.inr (by decide)) clipStep_ownList ⟨?_, fun _ _ _ => trivial⟩)
  refine ⟨by decide, fun _ => by decide, fun el _ => Or.inr (Or.inr fun l _ _ k el' l' hk hk' _ => ?_)⟩
  -- there is no other sample
  obtain ⟨s, hs, hintact⟩ := @clipStep_spec (clipsInit 1) (intact_clipsInit 1) (.create (.opened 1) 0 10)
    fun _ => Or.inr (by decide)
  obtain rfl := (Prod.mk.inj (Except.ok.inj (hs.symm.trans clipStep_ownList))).2
  have hnone : ownList.samples.sampleHash k = none := by
    show Function.update (fun _ => none) 1 (some 0) k = none
    rw [Function.update_of_ne hk]
  exact absurd hnone (hintact.live_of_listOf hk')

/-- A copy plays the files of the sample that was deleted. -/
theorem copy_after_delete :
    ∃ s, runOps clipStep (clipsInit 1) [.create (.opened 1) 0 10, .copy 1, .del 1] = .ok ([(), (), ()], s) ∧
      s.listOf 2 = some 2 ∧ s.lists.heap 2 = some ⟨true, [1]⟩ ∧ s.lists.isOpen 1 = false := by
  have hcache : 1 < sampleMaxSamples := by decide
  have hcell : 2 < sampleMaxSamples := by decide
  have hpos : 0 < sampleMaxSamples := by decide
  have hids : idsUpTo 3 = [1, 2, 3] := by decide
  have hmax : (2 : ℤ) < sampleMaxSamples := by decide
  have hlow : ¬ (sampleMaxSamples : ℤ) < 1 := by decide
  have hlow' : ¬ (sampleMaxSamples : ℤ) < 2 := by decide
  rw [runOps, clipStep_ownList, ok_bind]
  simp [runOps, clipStep, ownList, copySample, sampleExists, sampleGet, deref, copyToNew, vjElSoftClone, derefList,
    vjElInit, clipsInit, sampleCopy, newId, findFreed, allocate, sampleStore, clipContents, delSample, findStored,
    closeIfAny, sampleCloseEdl, closeLoop, vjElFree, dropStored, storeFreed, setCache, Clips.listOf, Bank.infoOf,
    Bank.lookup, Function.update, hcache, hcell, hpos, hids, hmax, hlow, hlow']

/-- Deleting a sample whose list was copied closes the files that the copy plays. -/
theorem copy_not_playable :
    ¬ RunShows clipStep (fun _ _ _ s => Playable s) (clipsInit 1) [.create (.opened 1) 0 10, .copy 1, .del 1] := by
  intro h
  obtain ⟨s, hrun, hlist, hheap, hclosed⟩ := copy_after_delete
  have hplay : Playable s := (h.last (intact_clipsInit 1).toPlayable).apply hrun
  obtain ⟨l, hl, hopen⟩ := hplay.samples 2 2 hlist
  obtain rfl := Option.some.inj (hheap.symm.trans hl)
  rw [hopen 1 List.mem_cons_self] at hclosed
  cases hclosed

end Clips

end Veejay.Samples
