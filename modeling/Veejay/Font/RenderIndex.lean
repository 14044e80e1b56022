import Veejay.Font.Names
import Veejay.Font.Subtitles

/-!
# The render index and the dictionary

The index of a font holds pointers to subtitles that the dictionary owns.  It is made by `vj_font_prepare`, and no
other call looks at it: what is deleted or replaced is freed all the same (`veejay/vj-font.c`).

* `Sound` — the invariant: what is stored is allocated, and what is in the index is stored;
* `Spares` — the subtitles that a command is not addressed to stay where they were;
* `Stores`, `Deletes`, `Clipped` — what the storing and the deleting of a subtitle, and the preparing of a range, leave;
* `stepFont_spec` — **what one command keeps**, where it frees nothing that is in the index and clips no other subtitle;
* `index_agrees` — **the index agrees with the dictionary** in runs of such commands.
-/

namespace Veejay.Subtitles

open CLib Vevo
open Font (FontLib SrtSeq makeKey vjFontSplitStr vjFontSplitStrd vjFontSubstractTimecodes)

/-! ## The invariant -/

section Invariant

/-- A number of type `int`. -/
def IsInt (id : ℤ) : Prop := -2 ^ 31 ≤ id ∧ id < 2 ^ 31

/-- A subtitle is in the dictionary. -/
def Current (f : FontState) (a : Addr) : Prop := ∃ key, getSrt f.dictionary key = some a

/-- What is in the dictionary is allocated, under the name of its number; what is in the index is in the dictionary. -/
structure Sound (f : FontState) : Prop where
  stored : ∀ key a, getSrt f.dictionary key = some a →
    ∃ s, f.subtitles a = some s ∧ hashKeyCode (makeKey s.id) = hashKeyCode key ∧ IsInt s.id
  unallocated : ∀ a, f.nextAddr ≤ a → f.subtitles a = none
  indexed : ∀ a, some a ∈ f.index → Current f a
  number : IsInt f.autoNumber

theorem sound_fontInit (face : Face) : Sound (fontInit face) where
  stored key a h := nomatch h
  unallocated a _ := rfl
  indexed a h := nomatch h
  number := show IsInt 1 from ⟨by decide, by decide⟩

variable {f : FontState}

theorem isInt_toInt (i : Int32) : IsInt i.toInt := ⟨i.le_toInt, i.toInt_lt⟩

theorem isInt_atoi (line : CStr) : IsInt (atoi line) := by
  rw [atoi]
  split
  · rw [intValue]
    exact ⟨Int.le_bmod (by decide), Int.bmod_lt (by decide)⟩
  · constructor <;> decide

/-! ## The dictionary -/

/-- Names of one code are one name. -/
theorem getSrt_congr {key key' : CStr} (h : hashKeyCode key = hashKeyCode key') (d : Dictionary) :
    getSrt d key = getSrt d key' := by
  have hname : sameName key = sameName key' := by
    funext item
    rw [sameName, sameName, h]
  rw [getSrt, getSrt, hname]

/-- **`vevo_property_set`**, for a reader. -/
theorem getSrt_setSrt (d : Dictionary) (key key' : CStr) (srt : Option Addr) :
    getSrt (setSrt d key srt) key' = if hashKeyCode key' = hashKeyCode key then srt else getSrt d key' := by
  have hname : sameName key' ∘ (fun item => if sameName key item then (item.1, srt) else item) = sameName key' := by
    funext item
    rw [Function.comp_apply]
    split_ifs <;> rfl
  have hcode : ∀ (k : CStr) (item : CStr × Option Addr), sameName k item = true ↔ hashKeyCode item.1 = hashKeyCode k :=
    fun k item => beq_iff_eq
  rw [getSrt, setSrt]
  split_ifs with hany hsame hsame
  · -- the entry that is overwritten is the one that is found
    rw [List.find?_map, hname]
    cases hfind : d.find? (sameName key') with
    | none =>
      obtain ⟨item, hitem, hkey⟩ := List.any_eq_true.mp hany
      have hnone := List.find?_eq_none.mp hfind item hitem
      exact absurd ((hcode key' item).mpr (((hcode key item).mp hkey).trans hsame.symm)) hnone
    | some item =>
      have hitem := (hcode key' item).mp (List.find?_some hfind)
      rw [Option.map_some, Option.bind_some, if_pos ((hcode key item).mpr (hitem.trans hsame))]
  · rw [List.find?_map, hname, getSrt]
    cases hfind : d.find? (sameName key') with
    | none => rfl
    | some item =>
      have hitem := (hcode key' item).mp (List.find?_some hfind)
      rw [Option.map_some, if_neg fun hkey => hsame (hitem.symm.trans ((hcode key item).mp hkey))]
  · have hnone : d.find? (sameName key') = none := by
      refine List.find?_eq_none.mpr fun item hitem hkey => hany (List.any_eq_true.mpr ⟨item, hitem, ?_⟩)
      exact (hcode key item).mpr (((hcode key' item).mp hkey).trans hsame)
    rw [List.find?_append, hnone, Option.none_or, List.find?_cons_of_pos ((hcode key' (key, srt)).mpr hsame.symm)]
    rfl
  · have hnew : [(key, srt)].find? (sameName key') = none :=
      List.find?_eq_none.mpr fun item hitem hkey => by
        obtain rfl := List.mem_singleton.mp hitem
        exact hsame ((hcode key' (key, srt)).mp hkey).symm
    rw [List.find?_append, hnew, Option.or_none, getSrt]

/-- A subtitle is found under the name of its number. -/
theorem Sound.getSrt_self (hf : Sound f) {a : Addr} {s : Subtitle} (ha : Current f a) (hs : f.subtitles a = some s) :
    getSrt f.dictionary (makeKey s.id) = some a := by
  obtain ⟨key, hkey⟩ := ha
  obtain ⟨s', hs', hcode, -⟩ := hf.stored key a hkey
  obtain rfl : s = s' := Option.some.inj (hs.symm.trans hs')
  rw [getSrt_congr hcode]
  exact hkey

/-- The subtitle that is found under the name of a number has this number. -/
theorem Sound.id_eq (hf : Sound f) {id : ℤ} (hid : IsInt id) {a : Addr} {s : Subtitle}
    (ha : getSrt f.dictionary (makeKey id) = some a) (hs : f.subtitles a = some s) : s.id = id := by
  obtain ⟨s', hs', hcode, hint⟩ := hf.stored _ a ha
  obtain rfl : s = s' := Option.some.inj (hs.symm.trans hs')
  exact Font.makeKey_code_inj hint hid hcode

theorem Sound.deref (hf : Sound f) {key : CStr} {a : Addr} (ha : getSrt f.dictionary key = some a) :
    ∃ s, f.deref a = .ok s ∧ f.subtitles a = some s ∧ IsInt s.id := by
  obtain ⟨s, hs, -, hint⟩ := hf.stored key a ha
  exact ⟨s, by rw [FontState.deref, hs], hs, hint⟩

/-- A subtitle is stored under one name. -/
theorem Sound.code_eq (hf : Sound f) {key key' : CStr} {a : Addr} (h : getSrt f.dictionary key = some a)
    (h' : getSrt f.dictionary key' = some a) : hashKeyCode key = hashKeyCode key' := by
  obtain ⟨s, hs, hcode, -⟩ := hf.stored key a h
  obtain ⟨s', hs', hcode', -⟩ := hf.stored key' a h'
  obtain rfl : s = s' := Option.some.inj (hs.symm.trans hs')
  exact hcode.symm.trans hcode'

theorem Sound.isInt (hf : Sound f) {a : Addr} {s : Subtitle} (ha : Current f a) (hs : f.subtitles a = some s) :
    IsInt s.id := by
  obtain ⟨key, hkey⟩ := ha
  obtain ⟨s', hs', -, hint⟩ := hf.stored key a hkey
  obtain rfl : s = s' := Option.some.inj (hs.symm.trans hs')
  exact hint

/-- The name of a subtitle with another number is another name. -/
theorem Sound.code_ne (hf : Sound f) {id : ℤ} (hid : IsInt id) {a : Addr} {s : Subtitle} (ha : Current f a)
    (hs : f.subtitles a = some s) (hne : s.id ≠ id) : hashKeyCode (makeKey s.id) ≠ hashKeyCode (makeKey id) :=
  fun heq => hne (Font.makeKey_code_inj (hf.isInt ha hs) hid heq)

/-- A subtitle in the index is allocated. -/
theorem Sound.allocated (hf : Sound f) {a : Addr} (ha : Current f a) : a < f.nextAddr := by
  obtain ⟨key, hkey⟩ := ha
  obtain ⟨s, hs, -⟩ := hf.stored key a hkey
  by_contra hle
  rw [hf.unallocated a (Nat.le_of_not_lt hle)] at hs
  cases hs

theorem Sound.withNumber (hf : Sound f) {n : ℤ} (hn : IsInt n) : Sound { f with autoNumber := n } where
  stored := hf.stored
  unallocated := hf.unallocated
  indexed := hf.indexed
  number := hn

/-! ## Frames -/

/-- The number and the positions of a subtitle stay. -/
structure Unmoved (s s' : Subtitle) : Prop where
  id : s'.id = s.id
  start : s'.start = s.start
  end_ : s'.end_ = s.end_

/-- The subtitles that are not addressed stay in the dictionary, with their positions. -/
def Spares (f f' : FontState) (addressed : ℤ → Prop) : Prop :=
  ∀ a s, Current f a → f.subtitles a = some s → ¬ addressed s.id →
    Current f' a ∧ ∃ s', f'.subtitles a = some s' ∧ Unmoved s s'

theorem Spares.refl (f : FontState) (addressed : ℤ → Prop) : Spares f f addressed :=
  fun _ s ha hs _ => ⟨ha, s, hs, rfl, rfl, rfl⟩

theorem Spares.trans {f g h : FontState} {addressed : ℤ → Prop} (hfg : Spares f g addressed)
    (hgh : Spares g h addressed) : Spares f h addressed := by
  intro a s ha hs hspared
  obtain ⟨ha', s', hs', hid, hstart, hend⟩ := hfg a s ha hs hspared
  obtain ⟨ha'', s'', hs'', hid', hstart', hend'⟩ := hgh a s' ha' hs' (hid ▸ hspared)
  exact ⟨ha'', s'', hs'', hid'.trans hid, hstart'.trans hstart, hend'.trans hend⟩

theorem Spares.mono {f f' : FontState} {p q : ℤ → Prop} (h : Spares f f' p)
    (hpq : ∀ a s, Current f a → f.subtitles a = some s → p s.id → q s.id) : Spares f f' q :=
  fun a s ha hs hq => h a s ha hs fun hp => hq (hpq a s ha hs hp)

/-- What a number names is not in the index. -/
def NotIndexed (f : FontState) (id : ℤ) : Prop :=
  ∀ a, getSrt f.dictionary (makeKey id) = some a → some a ∉ f.index

/-! ## Storing -/

/-- What is left after a subtitle was made and stored. -/
structure Stores (f : FontState) (id : ℤ) (f' : FontState) : Prop where
  dictionary : f'.dictionary = setSrt f.dictionary (makeKey id) (some f.nextAddr)
  added : ∃ s, f'.subtitles f.nextAddr = some s ∧ s.id = id
  kept : ∀ a, a ≠ f.nextAddr → getSrt f.dictionary (makeKey id) ≠ some a → f'.subtitles a = f.subtitles a
  next : f'.nextAddr = f.nextAddr + 1
  index : f'.index = f.index
  number : f'.autoNumber = f.autoNumber

/-- **`vj_font_new_srt_sequence`, `vj_font_store_srt_sequence`** -/
theorem storeNew_spec (hf : Sound f) (env : FontEnv) (s : SrtSeq) :
    ∃ f', storeNew env f s = .ok f' ∧ Stores f s.id f' := by
  obtain ⟨g, hg⟩ : ∃ g, g = (vjFontNewSrtSequence env f s).2 := ⟨_, rfl⟩
  have hdictionary : g.dictionary = f.dictionary := by rw [hg]; rfl
  have hmemory : g.subtitles = Function.update f.subtitles f.nextAddr (some ⟨s, 40, env.defaultFont⟩) := by
    rw [hg]; rfl
  have hnew : g.deref f.nextAddr = .ok ⟨s, 40, env.defaultFont⟩ := by
    rw [FontState.deref, hmemory, Function.update_self]
  have hrun : storeNew env f s = vjFontStoreSrtSequence g f.nextAddr := by rw [hg]; rfl
  rw [hrun, vjFontStoreSrtSequence, hnew, ok_bind]
  dsimp only
  rw [hdictionary]
  cases hold : getSrt f.dictionary (makeKey s.id) with
  | none =>
    refine ⟨_, rfl, ⟨?_, ⟨_, by rw [hmemory]; exact Function.update_self .., rfl⟩, fun a ha _ => ?_, by rw [hg]; rfl,
      by rw [hg]; rfl, by rw [hg]; rfl⟩⟩
    · show setSrt g.dictionary _ _ = _
      rw [hdictionary]
    · show g.subtitles a = f.subtitles a
      rw [hmemory, Function.update_of_ne ha]
  | some old =>
    have hlt := hf.allocated ⟨_, hold⟩
    obtain ⟨t, -, ht, -⟩ := hf.deref hold
    have hfree : g.free old = .ok { g with subtitles := Function.update g.subtitles old none } := by
      rw [FontState.free, FontState.deref, hmemory, Function.update_of_ne (Nat.ne_of_lt hlt), ht]
      rfl
    dsimp only
    rw [hfree, ok_bind]
    refine ⟨_, rfl, ⟨?_, ⟨⟨s, 40, env.defaultFont⟩, ?_, rfl⟩, fun a ha hne => ?_, by rw [hg]; rfl, by rw [hg]; rfl,
      by rw [hg]; rfl⟩⟩
    · show setSrt g.dictionary _ _ = _
      rw [hdictionary]
    · show Function.update g.subtitles old none f.nextAddr = _
      rw [Function.update_of_ne (Nat.ne_of_gt hlt), hmemory, Function.update_self]
    · show Function.update g.subtitles old none a = f.subtitles a
      rw [Function.update_of_ne fun heq => hne (hold.trans (congrArg some heq.symm)), hmemory, Function.update_of_ne ha]

section Stores

variable {id : ℤ} {f' : FontState}

/-- What another name finds. -/
theorem Stores.getSrt_eq (h : Stores f id f') (key : CStr) :
    getSrt f'.dictionary key =
      if hashKeyCode key = hashKeyCode (makeKey id) then some f.nextAddr else getSrt f.dictionary key := by
  rw [h.dictionary, getSrt_setSrt]

theorem Stores.sound (h : Stores f id f') (hf : Sound f) (hid : IsInt id) (hindex : NotIndexed f id) : Sound f' where
  stored key a ha := by
    rw [h.getSrt_eq] at ha
    split_ifs at ha with hsame
    · obtain rfl := Option.some.inj ha
      obtain ⟨s, hs, rfl⟩ := h.added
      exact ⟨s, hs, hsame.symm, hid⟩
    · obtain ⟨s, hs, hcode, hint⟩ := hf.stored key a ha
      have hne : getSrt f.dictionary (makeKey id) ≠ some a := fun heq => hsame (hf.code_eq ha heq)
      exact ⟨s, (h.kept a (Nat.ne_of_lt (hf.allocated ⟨key, ha⟩)) hne).trans hs, hcode, hint⟩
  unallocated a ha := by
    rw [h.next] at ha
    have hlt : f.nextAddr < a := ha
    have hne : getSrt f.dictionary (makeKey id) ≠ some a := fun heq =>
      Nat.lt_asymm hlt (hf.allocated ⟨_, heq⟩)
    rw [h.kept a (Nat.ne_of_gt hlt) hne]
    exact hf.unallocated a (Nat.le_of_lt hlt)
  indexed a ha := by
    rw [h.index] at ha
    obtain ⟨key, hkey⟩ := hf.indexed a ha
    refine ⟨key, ?_⟩
    rw [h.getSrt_eq, if_neg fun hsame => hindex a ((getSrt_congr hsame f.dictionary) ▸ hkey) ha]
    exact hkey
  number := h.number ▸ hf.number

/-- Only the subtitle of this number is replaced. -/
theorem Stores.spares (h : Stores f id f') (hf : Sound f) (hid : IsInt id) : Spares f f' (· = id) := by
  intro a s ha hs hne
  have hother : getSrt f.dictionary (makeKey id) ≠ some a := fun heq => hne (hf.id_eq hid heq hs)
  refine ⟨⟨makeKey s.id, ?_⟩, s, ?_, rfl, rfl, rfl⟩
  · rw [h.getSrt_eq, if_neg (hf.code_ne hid ha hs hne)]
    exact hf.getSrt_self ha hs
  · exact (h.kept a (Nat.ne_of_lt (hf.allocated ha)) hother).trans hs

/-- The new subtitle is not in the index. -/
theorem Stores.notIndexed (h : Stores f id f') (hf : Sound f) {other : ℤ} (hother : NotIndexed f other) :
    NotIndexed f' other := by
  intro a ha hmem
  rw [h.index] at hmem
  rw [h.getSrt_eq] at ha
  split_ifs at ha with hsame
  · obtain rfl := Option.some.inj ha
    exact absurd (hf.allocated (hf.indexed _ hmem)) (Nat.lt_irrefl _)
  · exact hother a ha hmem

end Stores

/-! ## Deleting -/

/-- What is left after the subtitle that is found under a number was freed. -/
structure Deletes (f : FontState) (seq : ℤ) (srt : Addr) (f' : FontState) : Prop where
  found : getSrt f.dictionary (makeKey seq) = some srt
  dictionary : f'.dictionary = setSrt f.dictionary (makeKey seq) none
  subtitles : f'.subtitles = Function.update f.subtitles srt none
  next : f'.nextAddr = f.nextAddr
  index : f'.index = f.index
  number : f'.autoNumber = seq

section Deletes

variable {seq : ℤ} {srt : Addr} {f' : FontState}

/-- What another name finds. -/
theorem Deletes.getSrt_eq (h : Deletes f seq srt f') (key : CStr) :
    getSrt f'.dictionary key =
      if hashKeyCode key = hashKeyCode (makeKey seq) then none else getSrt f.dictionary key := by
  rw [h.dictionary, getSrt_setSrt]

/-- What is still found is another subtitle. -/
theorem Deletes.still (h : Deletes f seq srt f') (hf : Sound f) {key : CStr} {a : Addr}
    (ha : getSrt f'.dictionary key = some a) : a ≠ srt ∧ getSrt f.dictionary key = some a := by
  rw [h.getSrt_eq] at ha
  split_ifs at ha with hsame
  refine ⟨?_, ha⟩
  rintro rfl
  exact hsame (hf.code_eq ha h.found)

theorem Deletes.subtitles_of_ne (h : Deletes f seq srt f') {a : Addr} (ha : a ≠ srt) :
    f'.subtitles a = f.subtitles a := by
  rw [h.subtitles, Function.update_of_ne ha]

theorem Deletes.sound (h : Deletes f seq srt f') (hf : Sound f) (hseq : IsInt seq) (hindex : NotIndexed f seq) :
    Sound f' where
  stored key a ha := by
    obtain ⟨hne, ha'⟩ := h.still hf ha
    rw [h.subtitles_of_ne hne]
    exact hf.stored key a ha'
  unallocated a ha := by
    rw [h.next] at ha
    by_cases heq : a = srt
    · rw [h.subtitles, heq, Function.update_self]
    · rw [h.subtitles_of_ne heq]
      exact hf.unallocated a ha
  indexed a ha := by
    rw [h.index] at ha
    obtain ⟨key, hkey⟩ := hf.indexed a ha
    refine ⟨key, ?_⟩
    rw [h.getSrt_eq, if_neg fun hsame => hindex a ((getSrt_congr hsame f.dictionary) ▸ hkey) ha]
    exact hkey
  number := h.number ▸ hseq

/-- Only the subtitle of this number is deleted. -/
theorem Deletes.spares (h : Deletes f seq srt f') (hf : Sound f) (hseq : IsInt seq) : Spares f f' (· = seq) := by
  intro a s ha hs hne
  have hother : a ≠ srt := by
    rintro rfl
    exact hne (hf.id_eq hseq h.found hs)
  refine ⟨⟨makeKey s.id, ?_⟩, s, (h.subtitles_of_ne hother).trans hs, rfl, rfl, rfl⟩
  rw [h.getSrt_eq, if_neg (hf.code_ne hseq ha hs hne)]
  exact hf.getSrt_self ha hs

/-- It is gone. -/
theorem Deletes.gone (h : Deletes f seq srt f') (hf : Sound f) {a : Addr} {s : Subtitle} (ha : Current f' a)
    (hs : f'.subtitles a = some s) : s.id ≠ seq := by
  obtain ⟨key, hkey⟩ := ha
  obtain ⟨hne, hkey'⟩ := h.still hf hkey
  rw [h.subtitles_of_ne hne] at hs
  rintro rfl
  have hself := hf.getSrt_self ⟨key, hkey'⟩ hs
  rw [h.found] at hself
  exact hne (Option.some.inj hself).symm

end Deletes

/-- **`vj_font_del_text`**, of a subtitle that is not in the index. -/
theorem vjFontDelText_spec (hf : Sound f) {seq : ℤ} (hseq : IsInt seq) (hindex : NotIndexed f seq) :
    ∃ f', vjFontDelText f seq = .ok f' ∧ Sound f' ∧ Spares f f' (· = seq) ∧
      ∀ a s, Current f' a → f'.subtitles a = some s → s.id ≠ seq := by
  have hseq' : (if seq = 0 then seq else seq) = seq := ite_self seq
  rw [vjFontDelText, vjFontDelSrtSequence]
  dsimp only
  rw [hseq']
  cases hfound : getSrt f.dictionary (makeKey seq) with
  | none =>
    refine ⟨_, rfl, hf.withNumber hseq, fun a s ha hs _ => ⟨ha, s, hs, rfl, rfl, rfl⟩, fun a s ha hs heq => ?_⟩
    have hself := hf.getSrt_self ha hs
    rw [heq, hfound] at hself
    cases hself
  | some srt =>
    obtain ⟨t, hderef, -⟩ := hf.deref hfound
    have hfree : FontState.free { f with autoNumber := seq } srt =
        .ok { f with autoNumber := seq, subtitles := Function.update f.subtitles srt none } := by
      rw [FontState.free, show FontState.deref { f with autoNumber := seq } srt = .ok t from hderef]
      rfl
    dsimp only
    rw [hfree, ok_bind]
    have hdeletes : Deletes f seq srt { f with
        autoNumber := seq
        subtitles := Function.update f.subtitles srt none
        dictionary := setSrt f.dictionary (makeKey seq) none } := ⟨hfound, rfl, rfl, rfl, rfl, rfl⟩
    exact ⟨_, rfl, hdeletes.sound hf hseq hindex, hdeletes.spares hf hseq, fun a s => hdeletes.gone hf⟩

/-! ## Preparing -/

@[simp] theorem clip_id (s1 s2 : ℤ) (s : Subtitle) : (clip s1 s2 s).id = s.id := by
  rw [clip]
  split_ifs <;> rfl

/-- A subtitle that begins and ends in time is not clipped. -/
theorem clip_eq {s1 s2 : ℤ} {s : Subtitle} (hstart : s.start ≤ s1) (hend : s.end_ ≤ s2) : clip s1 s2 s = s := by
  rw [clip, if_neg (Int.not_lt.mpr hstart), if_neg (Int.not_lt.mpr hend)]

/-- A subtitle that was clipped begins and ends in time. -/
theorem clip_le (s1 s2 : ℤ) (s : Subtitle) : (clip s1 s2 s).start ≤ s1 ∧ (clip s1 s2 s).end_ ≤ s2 := by
  rw [clip]
  split_ifs with hstart hend hend
  · exact ⟨le_rfl, le_rfl⟩
  · exact ⟨le_rfl, Int.not_lt.mp hend⟩
  · exact ⟨Int.not_lt.mp hstart, le_rfl⟩
  · exact ⟨Int.not_lt.mp hstart, Int.not_lt.mp hend⟩

/-- Another font, whose subtitles may be clipped. -/
structure Clipped (s1 s2 : ℤ) (f f' : FontState) : Prop where
  dictionary : f'.dictionary = f.dictionary
  subtitles : ∀ a, f'.subtitles a = f.subtitles a ∨ f'.subtitles a = (f.subtitles a).map (clip s1 s2)
  next : f'.nextAddr = f.nextAddr
  number : f'.autoNumber = f.autoNumber

section Clipped

variable {s1 s2 : ℤ} {f' : FontState}

theorem Clipped.refl (s1 s2 : ℤ) (f : FontState) : Clipped s1 s2 f f := ⟨rfl, fun _ => Or.inl rfl, rfl, rfl⟩

theorem Clipped.trans {f g h : FontState} (hfg : Clipped s1 s2 f g) (hgh : Clipped s1 s2 g h) : Clipped s1 s2 f h where
  dictionary := hgh.dictionary.trans hfg.dictionary
  subtitles a := by
    have htwice : ∀ s, clip s1 s2 (clip s1 s2 s) = clip s1 s2 s := fun s =>
      clip_eq (clip_le s1 s2 s).1 (clip_le s1 s2 s).2
    rcases hfg.subtitles a with h₁ | h₁
    · rw [← h₁]
      exact hgh.subtitles a
    · right
      rcases hgh.subtitles a with h₂ | h₂
      · rw [h₂, h₁]
      · rw [h₂, h₁, Option.map_map]
        congr 1
        exact funext htwice
  next := hgh.next.trans hfg.next
  number := hgh.number.trans hfg.number

theorem Clipped.current_iff (h : Clipped s1 s2 f f') (a : Addr) : Current f' a ↔ Current f a := by
  rw [Current, Current, h.dictionary]

/-- A subtitle, and what it becomes. -/
theorem Clipped.some (h : Clipped s1 s2 f f') {a : Addr} {s : Subtitle} (hs : f.subtitles a = some s) :
    f'.subtitles a = .some s ∨ f'.subtitles a = .some (clip s1 s2 s) := by
  rcases h.subtitles a with h' | h'
  · exact Or.inl (h'.trans hs)
  · right
    rw [h', hs, Option.map_some]

theorem Clipped.sound (h : Clipped s1 s2 f f') (hf : Sound f) (hindex : ∀ a, Option.some a ∈ f'.index → Current f' a) :
    Sound f' where
  stored key a ha := by
    rw [h.dictionary] at ha
    obtain ⟨s, hs, hcode, hint⟩ := hf.stored key a ha
    rcases h.some hs with h' | h'
    · exact ⟨s, h', hcode, hint⟩
    · refine ⟨clip s1 s2 s, h', ?_⟩
      rw [clip_id]
      exact ⟨hcode, hint⟩
  unallocated a ha := by
    rw [h.next] at ha
    rcases h.subtitles a with h' | h'
    · exact h'.trans (hf.unallocated a ha)
    · rw [h', hf.unallocated a ha, Option.map_none]
  indexed := hindex
  number := h.number ▸ hf.number

/-- The subtitles of the dictionary, less those that are addressed, begin and end in time. -/
def Within (f : FontState) (addressed : ℤ → Prop) (s1 s2 : ℤ) : Prop :=
  ∀ a s, Current f a → f.subtitles a = some s → ¬ addressed s.id → s.start ≤ s1 ∧ s.end_ ≤ s2

theorem Clipped.spares (h : Clipped s1 s2 f f') {addressed : ℤ → Prop} (hin : Within f addressed s1 s2) :
    Spares f f' addressed := by
  intro a s ha hs hspared
  obtain ⟨hstart, hend⟩ := hin a s ha hs hspared
  refine ⟨(h.current_iff a).mpr ha, s, ?_, rfl, rfl, rfl⟩
  rcases h.some hs with h' | h'
  · exact h'
  · rw [h', clip_eq hstart hend]

end Clipped

/-- The loop of `vj_font_prepare`, over any names. -/
theorem prepareLoop_spec (s1 s2 : ℤ) (keys : List CStr) : ∀ {f : FontState}, Sound f → f.index = [] →
    ∃ index f', prepareLoop s1 s2 keys f = .ok (index, f') ∧ index.length = keys.length ∧ Clipped s1 s2 f f' ∧
      f'.index = [] ∧ ∀ a, some a ∈ index → Current f a := by
  induction keys with
  | nil => exact fun {f} _ hindex => ⟨[], f, rfl, rfl, Clipped.refl s1 s2 f, hindex, fun a ha => nomatch ha⟩
  | cons key keys ih =>
    intro f hf hindex
    rw [prepareLoop]
    cases hget : getSrt f.dictionary key with
    | none =>
      obtain ⟨index, f', hrun, hlen, hclip, hindex', hmem⟩ := ih hf hindex
      dsimp only
      rw [hrun, ok_bind]
      refine ⟨none :: index, f', rfl, congrArg (· + 1) hlen, hclip, hindex', fun a ha => hmem a ?_⟩
      exact (List.mem_cons.mp ha).resolve_left (by exact fun h => nomatch h)
    | some srt =>
      obtain ⟨s, hderef, hs, -⟩ := hf.deref hget
      have hclip₁ : Clipped s1 s2 f (f.write srt (clip s1 s2 s)) := by
        refine ⟨rfl, fun a => ?_, rfl, rfl⟩
        show Function.update f.subtitles srt _ a = _ ∨ Function.update f.subtitles srt _ a = _
        by_cases heq : a = srt
        · right
          rw [heq, Function.update_self, hs, Option.map_some]
        · left
          rw [Function.update_of_ne heq]
      have hf₁ : Sound (f.write srt (clip s1 s2 s)) := hclip₁.sound hf hf.indexed
      obtain ⟨index, f', hrun, hlen, hclip, hindex', hmem⟩ := ih hf₁ hindex
      dsimp only
      rw [hderef, ok_bind, hrun, ok_bind]
      refine ⟨some srt :: index, f', rfl, congrArg (· + 1) hlen, hclip₁.trans hclip, hindex', fun a ha => ?_⟩
      rcases List.mem_cons.mp ha with heq | ha
      · obtain rfl := Option.some.inj heq
        exact ⟨key, hget⟩
      · exact hmem a ha

/-- **`vj_font_prepare`** -/
theorem vjFontPrepare_spec (hf : Sound f) (s1 s2 : ℤ) :
    ∃ f', vjFontPrepare f s1 s2 = .ok ((f.dictionary.length : ℤ), f') ∧ Sound f' ∧ Clipped s1 s2 f f' := by
  have hf₀ : Sound { f with index := [] } := ⟨hf.stored, hf.unallocated, fun a ha => (nomatch ha), hf.number⟩
  obtain ⟨index, f', hrun, hlen, hclip, -, hmem⟩ := prepareLoop_spec s1 s2 (f.dictionary.map Prod.fst) hf₀ rfl
  have hclip' : Clipped s1 s2 f { f' with index := index } :=
    ⟨hclip.dictionary, hclip.subtitles, hclip.next, hclip.number⟩
  refine ⟨{ f' with index := index }, ?_, hclip'.sound hf fun a ha => ?_, hclip'⟩
  · rw [vjFontPrepare, hrun, ok_bind]
    dsimp only
    rw [hlen, List.length_map]
  · exact (hclip'.current_iff a).mpr (hmem a ha)

/-! ## Updating -/

/-- A subtitle is written to, and keeps its number. -/
theorem Sound.write (hf : Sound f) {a : Addr} {s s' : Subtitle} (hs : f.subtitles a = some s) (hid : s'.id = s.id) :
    Sound (f.write a s') where
  stored key b hb := by
    obtain ⟨t, ht, hcode, hint⟩ := hf.stored key b hb
    by_cases heq : b = a
    · subst heq
      obtain rfl : s = t := Option.some.inj (hs.symm.trans ht)
      exact ⟨s', Function.update_self .., hid.symm ▸ hcode, hid.symm ▸ hint⟩
    · exact ⟨t, (Function.update_of_ne heq ..).trans ht, hcode, hint⟩
  unallocated b hb := by
    have hne : b ≠ a := by
      rintro rfl
      rw [hf.unallocated b hb] at hs
      cases hs
    exact (Function.update_of_ne hne ..).trans (hf.unallocated b hb)
  indexed := hf.indexed
  number := hf.number

/-- `vj_font_update_text` prepares the index. -/
def Prepares (f : FontState) (s1 s2 : ℤ) : Prop := s2 - s1 > f.index.length ∨ f.index.length = 0

/-- Where there is a subtitle, the update goes on. -/
theorem prepareUpdate_spec (hf : Sound f) (hne : f.dictionary ≠ []) (s1 s2 : ℤ) :
    ∃ f', prepareUpdate f s1 s2 = .ok (some s2, f') ∧ Sound f' ∧ Clipped s1 s2 f f' ∧ (Prepares f s1 s2 ∨ f' = f) := by
  rw [prepareUpdate]
  by_cases hprepares : s2 - s1 > f.index.length ∨ f.index.length = 0
  · rw [if_pos hprepares]
    obtain ⟨f', hrun, hf', hclip⟩ := vjFontPrepare_spec hf s1 s2
    have hlen : (f.dictionary.length : ℤ) ≠ 0 := by
      have hpos := List.length_pos_iff.mpr hne
      omega
    refine ⟨f', ?_, hf', hclip, Or.inl hprepares⟩
    rw [hrun, ok_bind]
    dsimp only
    rw [if_pos hlen]
  · rw [if_neg hprepares]
    exact ⟨f, rfl, hf, Clipped.refl s1 s2 f, Or.inr rfl⟩

/-- The number that `vj_font_update_text` takes. -/
def target (f : FontState) (seq : ℤ) : ℤ := if seq = 0 then f.autoNumber else seq

/-- A position that is not negative. -/
def fromZero (position : ℤ) : ℤ := if position < 0 then 0 else position

/-- **`vj_font_update_text`**, where the index is not prepared, or no other subtitle is clipped. -/
theorem vjFontUpdateText_spec (hf : Sound f) {s1 s2 seq : ℤ} (hseq : IsInt seq) (text : CStr)
    (hin : vjFontSrtSequenceExists f (target f seq) = true → Prepares f (fromZero s1) (fromZero s2) →
      Within f (· = target f seq) (fromZero s1) (fromZero s2)) :
    ∃ f', vjFontUpdateText f s1 s2 seq text = .ok f' ∧ Sound f' ∧ Spares f f' (· = target f seq) := by
  have htarget : IsInt (target f seq) := by
    rw [target]
    split_ifs
    · exact hf.number
    · exact hseq
  rw [vjFontUpdateText]
  dsimp only
  rw [show (if seq = 0 then f.autoNumber else seq) = target f seq from rfl,
    show (if s1 < 0 then 0 else s1) = fromZero s1 from rfl, show (if s2 < 0 then 0 else s2) = fromZero s2 from rfl]
  rw [vjFontSrtSequenceExists] at hin
  cases hfound : getSrt f.dictionary (makeKey (target f seq)) with
  | none => exact ⟨f, rfl, hf, Spares.refl f _⟩
  | some srt =>
    rw [hfound] at hin
    have hne : f.dictionary ≠ [] := by
      intro hnil
      rw [hnil] at hfound
      cases hfound
    obtain ⟨g, hrun, hg, hclip, hprepares⟩ := prepareUpdate_spec hf hne (fromZero s1) (fromZero s2)
    have hfound' : getSrt g.dictionary (makeKey (target f seq)) = some srt := hclip.dictionary ▸ hfound
    obtain ⟨s, hderef, hs, -⟩ := hg.deref hfound'
    obtain ⟨s', hs'⟩ : ∃ s', s' = { s with text := text, start := fromZero s1, end_ := fromZero s2 } := ⟨_, rfl⟩
    have hspares : Spares f g (· = target f seq) := by
      rcases hprepares with hprepares | rfl
      · exact hclip.spares (hin rfl hprepares)
      · exact Spares.refl _ _
    have hwritten : Spares g (g.write srt s') (· = target f seq) := by
      intro a t ha ht hother
      have hanot : a ≠ srt := by
        rintro rfl
        exact hother (hg.id_eq htarget hfound' ht)
      exact ⟨ha, t, (Function.update_of_ne hanot ..).trans ht, rfl, rfl, rfl⟩
    refine ⟨{ g.write srt s' with autoNumber := target f seq }, ?_,
      (hg.write hs (by rw [hs'])).withNumber htarget, hspares.trans hwritten⟩
    dsimp only
    rw [hrun, ok_bind]
    dsimp only
    rw [hderef, ok_bind, hs']

/-! ## New texts -/

/-- The loop finds a number that is free, where there is one. -/
theorem firstFree_spec (f : FontState) (left : ℕ) : ∀ an : ℤ,
    (∃ k, an ≤ k ∧ k < an + left ∧ vjFontSrtSequenceExists f k = false) →
      ∃ k, firstFree f left an = .ok k ∧ an ≤ k ∧ k < an + left ∧ vjFontSrtSequenceExists f k = false := by
  induction left with
  | zero =>
    rintro an ⟨k, hlo, hhi, -⟩
    omega
  | succ left ih =>
    rintro an ⟨k, hlo, hhi, hfree⟩
    rw [firstFree]
    split_ifs with hexists
    · have hne : an ≠ k := by
        rintro rfl
        rw [hfree] at hexists
        cases hexists
      obtain ⟨k', hrun, hlo', hhi', hfree'⟩ := ih (an + 1) ⟨k, by omega, by omega, hfree⟩
      exact ⟨k', hrun, by omega, by omega, hfree'⟩
    · exact ⟨an, rfl, le_rfl, by omega, Bool.eq_false_of_not_eq_true hexists⟩

/-- A number from this one on is free. -/
def HasNumber (f : FontState) : Prop :=
  ∃ k, f.autoNumber ≤ k ∧ k < 2 ^ 31 ∧ vjFontSrtSequenceExists f k = false

/-- **`vj_font_new_text`**, where nothing in the index is replaced. -/
theorem vjFontNewText_spec (hf : Sound f) (env : FontEnv) (text : CStr) {lo hi seq : ℤ} (hseq : IsInt seq)
    (hok : lo ≠ hi → if seq = 0 then HasNumber f else NotIndexed f seq) :
    ∃ r f', vjFontNewText env f text lo hi seq = .ok (r, f') ∧ Sound f' ∧
      Spares f f' fun id => seq ≠ 0 ∧ id = seq := by
  rw [vjFontNewText]
  split_ifs with hsame hzero
  · exact ⟨0, f, rfl, hf, Spares.refl f _⟩
  · -- a number that is free names nothing
    have hnumber := hf.number
    have hok' := hok hsame
    rw [if_pos hzero] at hok'
    obtain ⟨k, hlo, hhi, hfree⟩ := hok'
    obtain ⟨an, hrun, hanlo, hanhi, hanfree⟩ :=
      firstFree_spec f (2 ^ 31 - f.autoNumber).toNat f.autoNumber ⟨k, hlo, by omega, hfree⟩
    have han : IsInt an := ⟨by have := hnumber.1; omega, by have := hnumber.2; omega⟩
    have hnone : getSrt f.dictionary (makeKey an) = none := by
      rw [vjFontSrtSequenceExists] at hanfree
      exact Option.not_isSome_iff_eq_none.mp (by rw [hanfree]; exact Bool.false_ne_true)
    have hf₁ : Sound { f with autoNumber := an } := hf.withNumber han
    obtain ⟨f', hstore, hstores⟩ := storeNew_spec hf₁ env ⟨an, text, lo, hi⟩
    have hspares : Spares f f' (· = an) := hstores.spares hf₁ han
    refine ⟨an, f', ?_, hstores.sound hf₁ han ?_, hspares.mono ?_⟩
    · rw [hrun, ok_bind, ok_bind]
      dsimp only
      rw [hstore, ok_bind]
    · intro a ha
      rw [show getSrt f.dictionary (makeKey an) = some a from ha] at hnone
      cases hnone
    · intro a s ha hs heq
      have hself := hf.getSrt_self ha hs
      rw [show s.id = an from heq, hnone] at hself
      cases hself
  · have hok' := hok hsame
    rw [if_neg hzero] at hok'
    obtain ⟨f', hstore, hstores⟩ := storeNew_spec hf env ⟨seq, text, lo, hi⟩
    refine ⟨seq, f', ?_, hstores.sound hf hseq hok', (hstores.spares hf hseq).mono fun _ s _ _ heq => ⟨hzero, heq⟩⟩
    rw [ok_bind]
    dsimp only
    rw [hstore, ok_bind]

/-! ## Loading -/

theorem readBlock_isInt {lib : FontLib} {str rest : List UInt8} {s : SrtSeq}
    (h : readBlock lib str = .ok (some (rest, s))) : IsInt s.id := by
  obtain ⟨line, -, h⟩ := bind_eq_ok.mp h
  cases line with
  | none => cases Except.ok.inj h
  | some line =>
    obtain ⟨timecode, -, h⟩ := bind_eq_ok.mp h
    cases timecode with
    | none => cases Except.ok.inj h
    | some timecode =>
      obtain ⟨text, -, h⟩ := bind_eq_ok.mp h
      cases text with
      | none => cases Except.ok.inj h
      | some text =>
        obtain ⟨⟨lo, hi⟩, -, h⟩ := bind_eq_ok.mp h
        dsimp only at h
        split_ifs at h with hlo
        · cases Except.ok.inj h
        · obtain ⟨-, rfl⟩ := Prod.mk.inj (Option.some.inj (Except.ok.inj h))
          exact isInt_atoi line

/-- **The loop of `vj_font_load_srt`**, where no subtitle of the file replaces one in the index. -/
theorem loadLoop_spec (env : FontEnv) (fuel : ℕ) : ∀ {str : List UInt8} {f : FontState} {r : Bool} {ss : List SrtSeq},
    Sound f → readLoop env.lib fuel str = .ok (r, ss) → (∀ s ∈ ss, NotIndexed f s.id) →
      ∃ f', loadLoop env fuel str f = .ok (r, f') ∧ Sound f' ∧ Spares f f' fun id => ∃ s ∈ ss, s.id = id := by
  induction fuel with
  | zero =>
    intro str f r ss hf hread _
    rw [readLoop] at hread
    split_ifs at hread with hempty
    obtain ⟨rfl, rfl⟩ := Prod.mk.inj (Except.ok.inj hread)
    exact ⟨f, if_pos hempty, hf, Spares.refl f _⟩
  | succ fuel ih =>
    intro str f r ss hf hread hindex
    rw [readLoop] at hread
    rw [loadLoop]
    split_ifs at hread ⊢ with hempty
    · obtain ⟨rfl, rfl⟩ := Prod.mk.inj (Except.ok.inj hread)
      exact ⟨f, rfl, hf, Spares.refl f _⟩
    · obtain ⟨block, hblock, hread⟩ := bind_eq_ok.mp hread
      rw [hblock, ok_bind]
      cases block with
      | none =>
        obtain ⟨rfl, rfl⟩ := Prod.mk.inj (Except.ok.inj hread)
        exact ⟨f, rfl, hf, Spares.refl f _⟩
      | some block =>
        obtain ⟨rest, s⟩ := block
        obtain ⟨⟨r', ss'⟩, hrest, hread⟩ := bind_eq_ok.mp hread
        obtain ⟨rfl, rfl⟩ := Prod.mk.inj (Except.ok.inj hread)
        have hid := readBlock_isInt hblock
        obtain ⟨g, hstore, hstores⟩ := storeNew_spec hf env s
        have hg := hstores.sound hf hid (hindex s List.mem_cons_self)
        have hindex' : ∀ t ∈ ss', NotIndexed g t.id := fun t ht =>
          hstores.notIndexed hf (hindex t (List.mem_cons_of_mem s ht))
        obtain ⟨f', hload, hf', hspares⟩ := ih hg hrest hindex'
        refine ⟨f', ?_, hf', Spares.trans ((hstores.spares hf hid).mono fun _ t _ _ heq => ?_)
          (hspares.mono fun _ t _ _ hmem => ?_)⟩
        · dsimp only
          rw [hstore, ok_bind, hload]
        · exact ⟨s, List.mem_cons_self, heq.symm⟩
        · obtain ⟨u, hu, heq⟩ := hmem
          exact ⟨u, List.mem_cons_of_mem s hu, heq⟩

/-! ## Showing -/

/-- A subtitle that is in the dictionary. -/
def Listed (f : FontState) (s : Subtitle) : Prop := ∃ a, Current f a ∧ f.subtitles a = some s

/-- What is in the index is a subtitle of the dictionary. -/
theorem Sound.listed (hf : Sound f) {a : Addr} (ha : Current f a) : ∃ s, f.deref a = .ok s ∧ Listed f s := by
  obtain ⟨key, hkey⟩ := ha
  obtain ⟨s, hderef, hs, -⟩ := hf.deref hkey
  exact ⟨s, hderef, a, ⟨key, hkey⟩, hs⟩

theorem countLoop_spec (hf : Sound f) (position : ℤ) :
    ∀ index : List (Option Addr), (∀ a, some a ∈ index → Current f a) → ∃ n, countLoop f position index = .ok n := by
  intro index
  induction index with
  | nil => exact fun _ => ⟨0, rfl⟩
  | cons item index ih =>
    intro hindex
    obtain ⟨n, hn⟩ := ih fun a ha => hindex a (List.mem_cons_of_mem item ha)
    cases item with
    | none => exact ⟨n, hn⟩
    | some a =>
      obtain ⟨s, hderef, -⟩ := hf.listed (hindex a List.mem_cons_self)
      exact ⟨_, by rw [countLoop, hderef, ok_bind, hn, ok_bind]⟩

/-- **The loop of `vj_font_render`** draws subtitles of the dictionary. -/
theorem renderLoop_spec (hf : Sound f) (env : FontEnv) (position : ℤ) :
    ∀ (index : List (Option Addr)) (face : Face), (∀ a, some a ∈ index → Current f a) →
      ∃ drawn face', renderLoop env f position index face = .ok (drawn, face') ∧ ∀ s ∈ drawn, Listed f s := by
  intro index
  induction index with
  | nil => exact fun face _ => ⟨[], face, rfl, fun s hs => nomatch hs⟩
  | cons item index ih =>
    intro face hindex
    have hrest := fun face => ih face fun a ha => hindex a (List.mem_cons_of_mem item ha)
    cases item with
    | none => exact hrest face
    | some a =>
      obtain ⟨s, hderef, hlisted⟩ := hf.listed (hindex a List.mem_cons_self)
      rw [renderLoop, hderef, ok_bind]
      split_ifs with hout
      · exact hrest face
      · obtain ⟨selected, face₁⟩ := selectFace env face s
        cases selected with
        | false => exact ⟨[], face₁, rfl, fun s hs => nomatch hs⟩
        | true =>
          obtain ⟨drawn, face', hrun, hdrawn⟩ := hrest face₁
          refine ⟨s :: drawn, face', ?_, List.forall_mem_cons.mpr ⟨hlisted, hdrawn⟩⟩
          dsimp only
          rw [hrun, ok_bind]

/-- The loop of `vj_font_get_sequences` lists the numbers of subtitles of the dictionary. -/
theorem listLoop_spec (hf : Sound f) (keys : List CStr) :
    ∃ ids, listLoop f keys = .ok ids ∧ ∀ id ∈ ids, ∃ s, Listed f s ∧ id = decimalInt s.id := by
  induction keys with
  | nil => exact ⟨[], rfl, fun id hid => nomatch hid⟩
  | cons key keys ih =>
    obtain ⟨ids, hrun, hids⟩ := ih
    rw [listLoop]
    cases hget : getSrt f.dictionary key with
    | none => exact ⟨ids, hrun, hids⟩
    | some a =>
      obtain ⟨s, hderef, hlisted⟩ := hf.listed ⟨key, hget⟩
      refine ⟨decimalInt s.id :: ids, ?_, List.forall_mem_cons.mpr ⟨⟨s, hlisted, rfl⟩, hids⟩⟩
      dsimp only
      rw [hderef, ok_bind, hrun, ok_bind]

/-- The index agrees with the dictionary: what is in it is stored, and what is counted, rendered and listed are the
subtitles of the dictionary. -/
structure Agrees (env : FontEnv) (f : FontState) : Prop where
  indexed : ∀ a, some a ∈ f.index → Current f a ∧ ∃ s, f.subtitles a = some s
  counted : ∀ position, ∃ n, vjFontNorender f position = .ok n
  rendered : ∀ position, ∃ drawn f', vjFontRender env f position = .ok (drawn, f') ∧ ∀ s ∈ drawn, Listed f s
  listed : ∃ ids, vjFontGetSequences f = .ok ids ∧ ∀ id ∈ ids, ∃ s, Listed f s ∧ id = decimalInt s.id

theorem Sound.agrees (hf : Sound f) (env : FontEnv) : Agrees env f where
  indexed a ha := by
    have hcurrent := hf.indexed a ha
    obtain ⟨key, hkey⟩ := hcurrent
    obtain ⟨s, -, hs, -⟩ := hf.deref hkey
    exact ⟨⟨key, hkey⟩, s, hs⟩
  counted position := countLoop_spec hf position f.index hf.indexed
  rendered position := by
    obtain ⟨drawn, face, hrun, hdrawn⟩ := renderLoop_spec hf env position f.index f.face hf.indexed
    exact ⟨drawn, { f with face := face }, by rw [vjFontRender, hrun, ok_bind], hdrawn⟩
  listed := listLoop_spec hf _

/-! ## Runs of commands -/

/-- The numbers that a command is addressed to. -/
def Addressed (env : FontEnv) (f : FontState) (o : FontOp) (id : ℤ) : Prop :=
  match o with
  | .newText _ _ _ seq => seq.toInt ≠ 0 ∧ id = seq.toInt
  | .store seq _ _ _ => id = seq.toInt
  | .updateText _ _ seq _ => id = target f seq.toInt
  | .delText seq => id = seq.toInt
  | .loadSrt file => ∃ r ss, readLoop env.lib file.length file = .ok (r, ss) ∧ ∃ s ∈ ss, s.id = id
  | .prepare _ _ => False

/-- The command frees nothing that is in the index, and clips no subtitle but the one it is addressed to. -/
def Harmless (env : FontEnv) (f : FontState) : FontOp → Prop
  | .newText _ lo hi seq => lo ≠ hi → if seq.toInt = 0 then HasNumber f else NotIndexed f seq.toInt
  | .store seq _ _ _ => NotIndexed f seq.toInt
  | .updateText s1 s2 seq _ => vjFontSrtSequenceExists f (target f seq.toInt) = true →
      Prepares f (fromZero s1) (fromZero s2) →
        Within f (· = target f seq.toInt) (fromZero s1) (fromZero s2)
  | .delText seq => NotIndexed f seq.toInt
  | .loadSrt file => ∃ r ss, readLoop env.lib file.length file = .ok (r, ss) ∧ ∀ s ∈ ss, NotIndexed f s.id
  | .prepare s1 s2 => Within f (fun _ => False) s1 s2

/-- After a command the index agrees with the dictionary, the subtitles that it is not addressed to are where they
were, and one that it deletes is gone. -/
structure Kept (env : FontEnv) (f : FontState) (o : FontOp) (f' : FontState) : Prop where
  agrees : Agrees env f'
  spares : Spares f f' (Addressed env f o)
  deleted : ∀ seq, o = .delText seq → ∀ s, Listed f' s → s.id ≠ seq.toInt

/-- **What one command keeps.** -/
theorem stepFont_spec (hf : Sound f) (env : FontEnv) (o : FontOp) (ho : Harmless env f o) :
    ∃ r f', stepFont env f o = .ok (r, f') ∧ Sound f' ∧ Kept env f o f' := by
  cases o with
  | newText text lo hi seq =>
    obtain ⟨r, f', hrun, hf', hspares⟩ := vjFontNewText_spec hf env text (isInt_toInt seq) ho
    exact ⟨r, f', hrun, hf', hf'.agrees env, hspares, fun _ h => nomatch h⟩
  | store seq text lo hi =>
    obtain ⟨f', hrun, hstores⟩ := storeNew_spec hf env ⟨seq.toInt, text, lo, hi⟩
    have hf' := hstores.sound hf (isInt_toInt seq) ho
    refine ⟨0, f', ?_, hf', hf'.agrees env, hstores.spares hf (isInt_toInt seq), fun _ h => nomatch h⟩
    rw [stepFont, hrun, ok_bind]
  | updateText s1 s2 seq text =>
    obtain ⟨f', hrun, hf', hspares⟩ := vjFontUpdateText_spec hf (isInt_toInt seq) text ho
    exact ⟨0, f', by rw [stepFont, hrun, ok_bind], hf', hf'.agrees env, hspares, fun _ h => nomatch h⟩
  | delText seq =>
    obtain ⟨f', hrun, hf', hspares, hgone⟩ := vjFontDelText_spec hf (isInt_toInt seq) ho
    refine ⟨0, f', by rw [stepFont, hrun, ok_bind], hf', hf'.agrees env, hspares, ?_⟩
    rintro seq' h s ⟨a, ha, hs⟩
    obtain rfl := FontOp.delText.inj h
    exact hgone a s ha hs
  | loadSrt file =>
    obtain ⟨r, ss, hread, hindex⟩ := ho
    have hload : ∃ f', vjFontLoadSrt env f file = .ok (if file.isEmpty then false else r, f') ∧ Sound f' ∧
        Spares f f' fun id => ∃ s ∈ ss, s.id = id := by
      rw [vjFontLoadSrt]
      split_ifs with hempty
      · exact ⟨f, rfl, hf, Spares.refl f _⟩
      · exact loadLoop_spec env file.length hf hread hindex
    obtain ⟨f', hrun, hf', hspares⟩ := hload
    refine ⟨_, f', by rw [stepFont, hrun, ok_bind], hf', hf'.agrees env,
      hspares.mono fun _ s _ _ h => ⟨r, ss, hread, h⟩, fun _ h => nomatch h⟩
  | prepare s1 s2 =>
    obtain ⟨f', hrun, hf', hclip⟩ := vjFontPrepare_spec hf s1 s2
    exact ⟨_, f', hrun, hf', hf'.agrees env, hclip.spares ho, fun _ h => nomatch h⟩

/-- **The index agrees with the dictionary** after every command of a run in which nothing is freed that is in the
index, and no range clips a subtitle. -/
theorem index_agrees (env : FontEnv) (face : Face) (ops : List FontOp)
    (h : RunMeets (stepFont env) (Harmless env) (fontInit face) ops) :
    RunShows (stepFont env) (fun f o _ f' => Kept env f o f') (fontInit face) ops :=
  runOps_shows (fun _ o hf ho => stepFont_spec hf env o ho) ops (fontInit face) (sound_fontInit face) h

/-! ## One subtitle -/

/-- A font that can be configured at will. -/
def anyFont : FontEnv := ⟨Font.palFont, 0, fun size font _ => (true, ⟨font, size⟩)⟩

/-- The font and the size before anything is rendered. -/
def firstFace : Face := ⟨0, 40⟩

/-- The font with one subtitle, over the frames from 0 to 10. -/
def oneText : FontState where
  dictionary := [(makeKey 1, some 0)]
  subtitles := Function.update (fun _ => none) 0 (some ⟨⟨1, lit "Hello", 0, 10⟩, 40, 0⟩)
  nextAddr := 1
  index := []
  autoNumber := 1
  face := firstFace

/-- The command that makes it. -/
def helloText : FontOp := .newText (lit "Hello") 0 10 1

theorem newText_hello : stepFont anyFont (fontInit firstFace) helloText = .ok (1, oneText) := rfl

/-- A text is made, and a range is prepared in which it begins and ends. -/
theorem hello_agrees :
    RunShows (stepFont anyFont) (fun f o _ f' => Kept anyFont f o f') (fontInit firstFace) [helloText, .prepare 0 10] := by
  refine index_agrees anyFont firstFace _ (RunMeets.cons ?_ newText_hello ⟨?_, fun _ _ _ => trivial⟩)
  · intro _ a ha
    cases ha
  · rintro a s ⟨key, hkey⟩ hs _
    obtain ⟨item, hitem, hsnd⟩ := Option.bind_eq_some_iff.mp hkey
    obtain rfl := List.mem_singleton.mp (List.mem_of_find?_eq_some hitem)
    obtain rfl := Option.some.inj hsnd
    obtain rfl := Option.some.inj hs
    exact ⟨le_rfl, le_rfl⟩

/-- The font with the subtitle in its index. -/
def indexedText : FontState :=
  { oneText with
    subtitles := Function.update oneText.subtitles 0 (some (clip 0 10 ⟨⟨1, lit "Hello", 0, 10⟩, 40, 0⟩))
    index := [some 0] }

/-- The font after the subtitle was deleted. -/
def danglingText : FontState :=
  { indexedText with
    dictionary := [(makeKey 1, none)]
    subtitles := Function.update indexedText.subtitles 0 none }

theorem prepare_hello : stepFont anyFont oneText (.prepare 0 10) = .ok (1, indexedText) := rfl

theorem delText_hello : stepFont anyFont indexedText (.delText 1) = .ok (0, danglingText) := rfl

/-- **The index keeps a subtitle that was deleted.** -/
theorem deleted_stays_indexed : ¬ ∀ (env : FontEnv) (face : Face) (ops : List FontOp),
    RunShows (stepFont env) (fun f o _ f' => Kept env f o f') (fontInit face) ops := by
  intro h
  obtain ⟨r₁, f₁, h₁, -, hrun⟩ := h anyFont firstFace [helloText, .prepare 0 10, .delText 1]
  obtain ⟨-, rfl⟩ := Prod.mk.inj (Except.ok.inj (newText_hello.symm.trans h₁))
  obtain ⟨r₂, f₂, h₂, -, r₃, f₃, h₃, hkept, -⟩ := hrun
  obtain ⟨-, rfl⟩ := Prod.mk.inj (Except.ok.inj (prepare_hello.symm.trans h₂))
  obtain ⟨-, rfl⟩ := Prod.mk.inj (Except.ok.inj (delText_hello.symm.trans h₃))
  obtain ⟨-, s, hs⟩ := hkept.agrees.indexed 0 List.mem_cons_self
  cases hs

end Invariant

end Veejay.Subtitles
