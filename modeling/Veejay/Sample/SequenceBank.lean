import Veejay.CLib.Fields
import Veejay.Sample.Sequencer

/-!
# Sequences in a samplelist

A samplelist has an element for every slot of the sequencer, also for the empty ones.  The loader takes the ids that
are above zero, one behind the other: into the first slots if the sequencer has no size yet, otherwise behind that
many slots (`libsample/sampleadm.c`).

* `saveSequences`, `loadSequences` — the functions, with the texts of the elements;
* `Restored`, `Appended` — what is to be there again;
* `reload_eq` — what is there after saving and loading;
* `restored_iff`, `appended_iff` — the two modes of the loader;
* `reload_iff` — **exactly which sequences come back, and which are appended.**
-/

namespace Veejay.Sequencer

open CLib

/-! ## The functions -/

/-- An element: its name and its text. -/
abbrev Element := CStr × CStr

/-- `SaveSequences` -/
def saveSequences (seq : Seq) : Exec (List Element) :=
  (List.range maxSequences).mapM fun (i : ℕ) => do
    let n ← readSlot seq.samples i
    .ok (lit "SEQ_ID", decimalInt n)

/-- `tmp_seq`, up to `tmp_idx`, after one element more. -/
def loadElement (ids : List ℤ) (element : Element) : List ℤ :=
  if element.1 = lit "SEQ_ID" then
    let id := atoi element.2
    if ids.length < maxSequences ∧ 0 < id then ids ++ [id] else ids
  else ids

/-- Ids are written to the slots from `i` on. -/
def writeSlots : List ℤ → ℤ → List ℤ → Exec (List ℤ)
  | samples, _, [] => .ok samples
  | samples, i, id :: ids => do
    let samples ← writeSlot samples i id
    writeSlots samples (i + 1) ids

/-- `LoadSequences` -/
def loadSequences (elements : List Element) (seq : Seq) (nSamples : ℤ) : Exec Seq := do
  let ids := elements.foldl loadElement []
  if ids = [] then .ok seq
  else if seq.size = 0 then do
    let samples ← writeSlots seq.samples 0 ids
    .ok { seq with samples := samples, size := ids.length }
  else if seq.size + ids.length < maxSequences then do
    let samples ← writeSlots seq.samples seq.size (ids.map (· + nSamples))
    .ok { seq with samples := samples, size := seq.size + ids.length }
  else .ok seq

/-! ## What is to be loaded -/

/-- The ids in the slots, in order. -/
def Seq.ids (seq : Seq) : List ℤ := seq.samples.filter used

/-- The slots, with one behind them that is always empty, hold ids of samples; the size is a count. -/
structure Seq.Regular (seq : Seq) : Prop where
  slots : ∃ ys : List ℤ, ys.length = maxSequences ∧ seq.samples = ys ++ [0]
  ids : ∀ n ∈ seq.samples, 0 ≤ n ∧ n < 2 ^ 31
  size : 0 ≤ seq.size

/-- There is no sequence: no slot was ever used. -/
def Seq.Fresh (seq : Seq) : Prop := seq.size = 0 ∧ ∀ n ∈ seq.samples, n = 0

/-- The same ids in the same slots, and the same size. -/
def Restored (saved loaded : Seq) : Prop := loaded.samples = saved.samples ∧ loaded.size = saved.size

/-- The ids are behind all slots that were in use, every one shifted; the other slots are as they were, and the size
counts the new ones. -/
def Appended (saved bank : Seq) (nSamples : ℤ) (loaded : Seq) : Prop :=
  ∃ p, (∀ n ∈ bank.samples.drop p, n = 0) ∧
    loaded.samples =
      bank.samples.take p ++ saved.ids.map (· + nSamples) ++ bank.samples.drop (p + saved.ids.length) ∧
    loaded.size = bank.size + saved.ids.length

/-- A sequence is saved and loaded. -/
def reload (saved bank : Seq) (nSamples : ℤ) : Exec Seq := do
  let elements ← saveSequences saved
  loadSequences elements bank nSamples

/-- **What saving and loading is to do**: a sequence comes back where there was none and no ids are shifted, and is
appended where there was one. -/
def Reloads (saved bank : Seq) (nSamples : ℤ) : Prop :=
  Ensures (reload saved bank nSamples) fun loaded =>
    (bank.Fresh → nSamples = 0 → Restored saved loaded) ∧ (¬ bank.Fresh → Appended saved bank nSamples loaded)

/-- The used slots come first. -/
def Seq.Dense (seq : Seq) : Prop :=
  seq.samples = seq.ids ++ List.replicate (seq.samples.length - seq.ids.length) 0

/-- No slot from the counted ones on is in use. -/
def Seq.Behind (seq : Seq) : Prop := ∀ n ∈ seq.samples.drop seq.size.toNat, n = 0

/-! ## Saving -/

theorem mapM_readSlot {xs : List ℤ} (f : ℤ → Element) : ∀ k : ℕ, k ≤ xs.length →
    ((List.range k).mapM fun (i : ℕ) => do
      let n ← readSlot xs i
      (.ok (f n) : Exec Element)) = .ok ((xs.take k).map f)
  | 0, _ => rfl
  | k + 1, hk => by
    have hget : xs[k]? = some xs[k] := List.getElem?_eq_getElem hk
    have hread : readSlot xs (k : ℤ) = .ok xs[k] := by
      rw [readSlot, if_pos (Int.natCast_nonneg k), Int.toNat_natCast, hget]
    rw [List.range_succ, List.mapM_append, mapM_readSlot f k (by omega), ok_bind, List.mapM_cons, List.mapM_nil,
      hread, List.take_add_one, hget, List.map_append]
    rfl

theorem saveSequences_eq {seq : Seq} {ys : List ℤ} (hys : ys.length = maxSequences)
    (hslots : seq.samples = ys ++ [0]) :
    saveSequences seq = .ok (ys.map fun n => (lit "SEQ_ID", decimalInt n)) := by
  have hlen : maxSequences ≤ (ys ++ [0]).length := by rw [List.length_append, hys]; omega
  rw [saveSequences, hslots, mapM_readSlot (fun n => (lit "SEQ_ID", decimalInt n)) _ hlen, ← hys, List.take_left]

/-! ## Loading -/

/-- One element of a saved slot. -/
theorem loadElement_slot {n : ℤ} (hlo : 0 ≤ n) (hhi : n < 2 ^ 31) {ids : List ℤ} (hlen : ids.length < maxSequences) :
    loadElement ids (lit "SEQ_ID", decimalInt n) = ids ++ [n].filter used := by
  have hid : atoi (decimalInt n) = n := by
    have h := atoi_decimalInt (z := n) (by omega) hhi [] (fun _ h => by cases h)
    rwa [List.append_nil] at h
  rw [loadElement, if_pos rfl]
  dsimp only
  rw [hid]
  by_cases hzero : n = 0
  · rw [if_neg fun h => by omega, hzero]
    exact (List.append_nil ids).symm
  · rw [if_pos ⟨hlen, by omega⟩, List.filter_cons_of_pos (by simpa [used] using hzero)]
    rfl

theorem foldl_loadElement {ys : List ℤ} (hys : ∀ n ∈ ys, 0 ≤ n ∧ n < 2 ^ 31) :
    ∀ ids : List ℤ, ids.length + ys.length ≤ maxSequences →
      (ys.map fun n => (lit "SEQ_ID", decimalInt n)).foldl loadElement ids = ids ++ ys.filter used := by
  induction ys with
  | nil => exact fun ids _ => (List.append_nil ids).symm
  | cons n ys ih =>
    intro ids hlen
    rw [List.length_cons] at hlen
    obtain ⟨hlo, hhi⟩ := hys n List.mem_cons_self
    have hle : ([n].filter used).length ≤ 1 := List.length_filter_le _ _
    rw [List.map_cons, List.foldl_cons, loadElement_slot hlo hhi (by omega),
      ih (fun m hm => hys m (List.mem_cons_of_mem n hm)) _ (by rw [List.length_append]; omega), List.append_assoc,
      ← List.filter_append]
    rfl

/-- The slots in the middle are overwritten. -/
theorem writeSlots_eq {ids : List ℤ} : ∀ {before old behind : List ℤ}, old.length = ids.length →
    writeSlots (before ++ old ++ behind) before.length ids = .ok (before ++ ids ++ behind) := by
  induction ids with
  | nil =>
    intro before old behind hold
    rw [writeSlots, List.eq_nil_of_length_eq_zero hold]
  | cons id ids ih =>
    intro before old behind hold
    obtain ⟨o, old, rfl⟩ := List.exists_cons_of_length_eq_add_one hold
    have hslot : writeSlot (before ++ o :: old ++ behind) before.length id =
        .ok ((before ++ [id]) ++ old ++ behind) := by
      rw [writeSlot, if_pos ⟨Int.natCast_nonneg _, by simp; omega⟩, Int.toNat_natCast, List.append_assoc,
        List.set_append_right _ _ (Nat.le_refl _), Nat.sub_self]
      simp
    have hnext : ((before.length : ℤ) + 1) = ((before ++ [id]).length : ℤ) := by simp
    rw [writeSlots, hslot, ok_bind, hnext, ih (by simpa using hold)]
    simp

/-- Writing to the slots from `k` on. -/
theorem writeSlots_drop {xs ids : List ℤ} {k : ℕ} (h : k + ids.length ≤ xs.length) :
    writeSlots xs k ids = .ok (xs.take k ++ ids ++ xs.drop (k + ids.length)) := by
  have hsplit : xs = xs.take k ++ (xs.drop k).take ids.length ++ xs.drop (k + ids.length) := by
    rw [List.append_assoc, ← List.drop_drop, List.take_append_drop, List.take_append_drop]
  have hk : (xs.take k).length = k := by rw [List.length_take]; omega
  have hold : ((xs.drop k).take ids.length).length = ids.length := by
    rw [List.length_take, List.length_drop]
    omega
  have hwrite := @writeSlots_eq ids (xs.take k) _ (xs.drop (k + ids.length)) hold
  rw [← hsplit, hk] at hwrite
  exact hwrite

section Reload

variable {saved bank : Seq} {nSamples : ℤ}

/-- The slots behind those that hold the ids of a saved sequence. -/
theorem ids_length_le (hsaved : saved.Regular) : saved.ids.length ≤ maxSequences := by
  obtain ⟨ys, hys, hslots⟩ := hsaved.slots
  rw [Seq.ids, hslots, List.filter_append]
  have hle : (ys.filter used).length ≤ ys.length := List.length_filter_le _ _
  have hnil : [(0 : ℤ)].filter used = [] := rfl
  rw [hnil, List.append_nil]
  omega

/-- **What is there after saving and loading.** -/
theorem reload_eq (hsaved : saved.Regular) (hbank : bank.Regular) : reload saved bank nSamples = .ok (
    if saved.ids = [] then bank
    else if bank.size = 0 then
      { bank with samples := saved.ids ++ bank.samples.drop saved.ids.length, size := saved.ids.length }
    else if bank.size + saved.ids.length < maxSequences then
      { bank with
        samples := bank.samples.take bank.size.toNat ++ saved.ids.map (· + nSamples) ++
          bank.samples.drop (bank.size.toNat + saved.ids.length)
        size := bank.size + saved.ids.length }
    else bank) := by
  have hle := ids_length_le hsaved
  obtain ⟨ys, hys, hslots⟩ := hsaved.slots
  obtain ⟨zs, hzs, hbankslots⟩ := hbank.slots
  have hlen : bank.samples.length = maxSequences + 1 := by rw [hbankslots, List.length_append, hzs]; rfl
  have hids : (ys.map fun n => (lit "SEQ_ID", decimalInt n)).foldl loadElement [] = saved.ids := by
    have hvalues : ∀ n ∈ ys, 0 ≤ n ∧ n < 2 ^ 31 := by
      intro n hn
      exact hsaved.ids n (by rw [hslots]; exact List.mem_append_left _ hn)
    have hempty : [(0 : ℤ)].filter used = [] := rfl
    rw [foldl_loadElement hvalues [] (by rw [List.length_nil]; omega), Seq.ids, hslots, List.filter_append, hempty,
      List.append_nil, List.nil_append]
  rw [reload, saveSequences_eq hys hslots, ok_bind, loadSequences, hids]
  by_cases hnil : saved.ids = []
  · rw [if_pos hnil, if_pos hnil]
  rw [if_neg hnil, if_neg hnil]
  by_cases hzero : bank.size = 0
  · have hwrite := @writeSlots_drop bank.samples saved.ids 0 (by omega)
    rw [if_pos hzero, if_pos hzero]
    rw [Nat.cast_zero, List.take_zero, List.nil_append, Nat.zero_add] at hwrite
    rw [hwrite, ok_bind]
  rw [if_neg hzero, if_neg hzero]
  by_cases hroom : bank.size + saved.ids.length < maxSequences
  · have hsize := hbank.size
    have hnat : ((bank.size.toNat : ℕ) : ℤ) = bank.size := Int.toNat_of_nonneg hsize
    have hwrite := @writeSlots_drop bank.samples (saved.ids.map (· + nSamples)) bank.size.toNat
      (by rw [List.length_map]; omega)
    rw [hnat, List.length_map] at hwrite
    rw [if_pos hroom, if_pos hroom, hwrite, ok_bind]
  · rw [if_neg hroom, if_neg hroom]

/-! ## The two modes -/

theorem reload_fresh (hsaved : saved.Regular) (hbank : bank.Regular) (hfresh : bank.Fresh) :
    reload saved bank nSamples = .ok
      { bank with
        samples := saved.ids ++ List.replicate (saved.samples.length - saved.ids.length) 0
        size := saved.ids.length } := by
  obtain ⟨ys, hys, hslots⟩ := hsaved.slots
  obtain ⟨zs, hzs, hbankslots⟩ := hbank.slots
  have hlen : bank.samples.length = saved.samples.length := by
    rw [hbankslots, hslots, List.length_append, List.length_append, hys, hzs]
  have hzeros : bank.samples = List.replicate saved.samples.length 0 := List.eq_replicate_iff.mpr ⟨hlen, hfresh.2⟩
  rw [reload_eq hsaved hbank]
  by_cases hnil : saved.ids = []
  · rw [if_pos hnil, hnil, List.nil_append, List.length_nil, Nat.sub_zero, ← hzeros, Nat.cast_zero, ← hfresh.1]
  · rw [if_neg hnil, if_pos hfresh.1, hzeros, List.drop_replicate]

/-- **Without a sequence before**, the slots and the size come back exactly if the used slots come first and are
counted. -/
theorem restored_iff (hsaved : saved.Regular) (hbank : bank.Regular) (hfresh : bank.Fresh) :
    Ensures (reload saved bank nSamples) (Restored saved) ↔ saved.Dense ∧ saved.size = saved.ids.length := by
  rw [reload_fresh hsaved hbank hfresh, ensures_ok]
  exact and_congr eq_comm eq_comm

/-- Ids that are behind all used slots are not behind those that are written. -/
theorem appended_place {xs samples shifted : List ℤ} {p q k : ℕ} (hk : shifted.length = k) (hpos : 0 < k)
    (hused : ∀ n ∈ shifted, n ≠ 0) (hempty : ∀ n ∈ xs.drop p, n = 0) (hlen : samples.length = xs.length)
    (hwritten : ∀ i, q + k ≤ i → samples[i]? = xs[i]?)
    (happended : samples = xs.take p ++ shifted ++ xs.drop (p + k)) : p ≤ q := by
  have hroom : p + k ≤ xs.length := by
    have h := congrArg List.length happended
    rw [List.length_append, List.length_append, List.length_take, List.length_drop, hlen] at h
    omega
  by_contra hlt
  -- the last of the new ids is in a slot that was empty and was not written
  have hsame := hwritten (p + (k - 1)) (by omega)
  have htake : (xs.take p).length = p := by rw [List.length_take]; omega
  have hlast : samples[p + (k - 1)]? = some shifted[k - 1] := by
    rw [happended, List.append_assoc, List.getElem?_append_right (by omega), htake, Nat.add_sub_cancel_left,
      List.getElem?_append_left (by omega)]
    exact List.getElem?_eq_getElem (by omega)
  rw [hlast, ← List.getElem?_drop] at hsame
  exact hused _ (List.getElem_mem _) (hempty _ (List.mem_of_getElem? hsame.symm))

/-- The slots behind those that are written. -/
theorem getElem?_behind {before ids xs : List ℤ} {q k i : ℕ} (hbefore : before.length = q) (hk : ids.length = k)
    (hi : q + k ≤ i) : (before ++ ids ++ xs.drop (q + k))[i]? = xs[i]? := by
  have hlen : (before ++ ids).length = q + k := by rw [List.length_append, hbefore, hk]
  rw [List.getElem?_append_right (by omega), hlen, List.getElem?_drop, Nat.add_sub_cancel' hi]

/-- **With a sequence before**, the ids are appended exactly if there are none, or there is room behind the counted
slots and nothing is in them. -/
theorem appended_iff (hsaved : saved.Regular) (hbank : bank.Regular) (hfresh : ¬ bank.Fresh) (hn : 0 ≤ nSamples) :
    Ensures (reload saved bank nSamples) (Appended saved bank nSamples) ↔
      saved.ids = [] ∨ 0 < bank.size ∧ bank.size + saved.ids.length < maxSequences ∧ bank.Behind := by
  have hle := ids_length_le hsaved
  have hsize := hbank.size
  obtain ⟨zs, hzs, hbankslots⟩ := hbank.slots
  have hlen : bank.samples.length = maxSequences + 1 := by rw [hbankslots, List.length_append, hzs]; rfl
  have hshifted : ∀ n ∈ saved.ids.map (· + nSamples), n ≠ 0 := by
    intro n hmem
    obtain ⟨id, hid, rfl⟩ := List.mem_map.mp hmem
    obtain ⟨hid, hused⟩ := List.mem_filter.mp hid
    have hlo := (hsaved.ids id hid).1
    have hne : id ≠ 0 := by simpa [used] using hused
    omega
  rw [reload_eq hsaved hbank, ensures_ok]
  by_cases hnil : saved.ids = []
  · rw [if_pos hnil]
    refine iff_of_true ⟨bank.samples.length, ?_, ?_, ?_⟩ (.inl hnil)
    · rw [List.drop_length]
      exact fun n h => by cases h
    · rw [hnil, List.map_nil, List.append_nil, List.length_nil, Nat.add_zero, List.take_append_drop]
    · rw [hnil, List.length_nil, Nat.cast_zero, add_zero]
  have hpos : 0 < saved.ids.length := List.length_pos_of_ne_nil hnil
  rw [if_neg hnil, or_iff_right hnil]
  by_cases hzero : bank.size = 0
  · rw [if_pos hzero]
    refine iff_of_false ?_ fun h => by omega
    rintro ⟨p, hempty, hsamples, -⟩
    have hplace : p ≤ 0 := appended_place (List.length_map _) hpos hshifted hempty (by simp; omega)
      (fun i hi => by
        rw [Nat.zero_add] at hi
        rw [List.getElem?_append_right hi, List.getElem?_drop, Nat.add_sub_cancel' hi]) hsamples
    rw [Nat.le_zero.mp hplace, List.drop_zero] at hempty
    exact hfresh ⟨hzero, hempty⟩
  rw [if_neg hzero]
  by_cases hroom : bank.size + saved.ids.length < maxSequences
  · rw [if_pos hroom]
    have htake : (bank.samples.take bank.size.toNat).length = bank.size.toNat := by rw [List.length_take]; omega
    constructor
    · rintro ⟨p, hempty, hsamples, -⟩
      have hplace : p ≤ bank.size.toNat := appended_place (List.length_map _) hpos hshifted hempty (by simp; omega)
        (fun i hi => getElem?_behind htake (List.length_map _) hi) hsamples
      refine ⟨by omega, hroom, fun n hmem => hempty n ?_⟩
      rw [← Nat.sub_add_cancel hplace, Nat.add_comm, ← List.drop_drop] at hmem
      exact List.mem_of_mem_drop hmem
    · exact fun h => ⟨bank.size.toNat, h.2.2, rfl, rfl⟩
  · rw [if_neg hroom]
    refine iff_of_false ?_ fun h => hroom h.2.1
    rintro ⟨p, -, -, hcount⟩
    omega

/-- **Sequences in a samplelist.**  A sequence comes back where there was none exactly if the used slots come first and
are counted; it is appended to another one exactly if it is empty, or there is room behind the counted slots of the
other one and nothing is in them. -/
theorem reload_iff (hsaved : saved.Regular) (hbank : bank.Regular) (hn : 0 ≤ nSamples) :
    Reloads saved bank nSamples ↔
      (bank.Fresh → nSamples = 0 → saved.Dense ∧ saved.size = saved.ids.length) ∧
        (¬ bank.Fresh →
          saved.ids = [] ∨ 0 < bank.size ∧ bank.size + saved.ids.length < maxSequences ∧ bank.Behind) := by
  have hrun := @reload_eq saved bank nSamples hsaved hbank
  by_cases hfresh : bank.Fresh
  · rw [← @restored_iff saved bank nSamples hsaved hbank hfresh, Reloads, hrun, ensures_ok, ensures_ok]
    simp only [hfresh, not_true, false_implies, and_true, true_implies]
  · rw [← appended_iff hsaved hbank hfresh hn, Reloads, hrun, ensures_ok, ensures_ok]
    simp only [hfresh, not_false_iff, false_implies, true_and, true_implies]

end Reload

/-- Sample 1 in a slot. -/
def oneSlot (slot : ℕ) : Seq :=
  { Seq.init with samples := List.replicate slot 0 ++ 1 :: List.replicate (maxSequences - slot) 0, size := 1 }

theorem regular_oneSlot {slot : ℕ} (h : slot < maxSequences) : (oneSlot slot).Regular where
  slots := by
    refine ⟨List.replicate slot 0 ++ 1 :: List.replicate (maxSequences - slot - 1) 0, ?_, ?_⟩
    · rw [List.length_append, List.length_cons, List.length_replicate, List.length_replicate]
      omega
    · have hsplit : List.replicate (maxSequences - slot) (0 : ℤ) =
          List.replicate (maxSequences - slot - 1) 0 ++ [0] := by
        rw [← List.replicate_succ', Nat.sub_add_cancel (by omega)]
      rw [List.append_assoc, List.cons_append, ← hsplit]
      rfl
  ids := by
    intro n hn
    rcases List.mem_append.mp hn with hn | hn
    · rw [List.eq_of_mem_replicate hn]
      decide
    · rcases List.mem_cons.mp hn with rfl | hn
      · decide
      · rw [List.eq_of_mem_replicate hn]
        decide
  size := zero_le_one

theorem ids_oneSlot (slot : ℕ) : (oneSlot slot).ids = [1] := by
  rw [Seq.ids, oneSlot, List.filter_append, List.filter_cons_of_pos rfl, List.filter_replicate_of_neg (by decide),
    List.filter_replicate_of_neg (by decide)]
  rfl

theorem regular_init : Seq.init.Regular where
  slots := ⟨List.replicate maxSequences 0, List.length_replicate, by rw [← List.replicate_succ']; rfl⟩
  ids := by
    intro n hn
    rw [List.eq_of_mem_replicate hn]
    decide
  size := Int.le_refl 0

theorem fresh_init : Seq.init.Fresh := ⟨rfl, fun _ hn => List.eq_of_mem_replicate hn⟩

/-- A sequence in the first slot. -/
theorem reload_firstSlot :
    Reloads (oneSlot 0) Seq.init 0 ↔
      (Seq.init.Fresh → (0 : ℤ) = 0 → (oneSlot 0).Dense ∧ (oneSlot 0).size = (oneSlot 0).ids.length) ∧
        (¬ Seq.init.Fresh →
          (oneSlot 0).ids = [] ∨
            0 < Seq.init.size ∧ Seq.init.size + (oneSlot 0).ids.length < maxSequences ∧ Seq.init.Behind) :=
  reload_iff (regular_oneSlot (by decide)) regular_init (Int.le_refl 0)

/-- **A sample in the second slot** is in the first one after saving and loading. -/
theorem not_reloads_hole : ¬ ∀ (saved bank : Seq) (nSamples : ℤ), saved.Regular → bank.Regular → 0 ≤ nSamples →
    Reloads saved bank nSamples := by
  intro h
  have hregular := @regular_oneSlot 1 (by decide)
  obtain ⟨loaded, hrun, hrestored, -⟩ := h (oneSlot 1) Seq.init 0 hregular regular_init (Int.le_refl 0)
  rw [reload_fresh hregular regular_init fresh_init, ids_oneSlot] at hrun
  obtain rfl := Except.ok.inj hrun
  have hslots := congrArg (fun xs : List ℤ => xs[0]?) (hrestored fresh_init rfl).1
  cases hslots

end Veejay.Sequencer
