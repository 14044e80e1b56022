import Veejay.EditList.Edit

/-!
# Pasting is insertion, except at the front

`veejay_edit_paste` grows the array, moves the tail up from its end, and writes the clipboard into the
gap.  The first loop runs while `i >= destination && i > 0`, so entry `0` is never moved.

* `openGap_ensures`, `fillGap_ensures` — what the two loops write, cell by cell;
* `bumped` — the play window after a number of pasted frames, in closed form;
* `veejayEditPaste_inserts_iff` — **when the result is the clipboard inserted at the destination.**
-/

namespace Veejay.Edl

open CLib

/-! ## The array of entries -/

/-- The initialised entry of cell `i`. -/
def EditList.entryAt (el : EditList) (i : ℕ) : Option UInt64 :=
  (el.frameList.bind fun b => b.cells[i]?).join

/-- The list plays exactly the entries `edl`. -/
def HoldsEntries (el : EditList) (edl : List UInt64) : Prop :=
  el.videoFrames.toInt = edl.length ∧
    ∃ b, el.frameList = some b ∧ b.cells.take edl.length = edl.map some

/-- The clipboard holds exactly the entries `save`. -/
def Clipboard (st : Settings) (save : List UInt64) : Prop :=
  st.saveListLen.toNat = save.length ∧
    ∃ b, st.saveList = some b ∧ b.cells.take save.length = save.map some

/-- A block that starts with the entries `xs`, cell by cell. -/
theorem take_eq_map_iff {b : Block UInt64} {xs : List UInt64} :
    b.cells.take xs.length = xs.map some ↔
      xs.length ≤ b.size ∧ ∀ j < xs.length, b.cells[j]? = xs[j]?.map some := by
  constructor
  · intro h
    have hlen := congrArg List.length h
    rw [List.length_take, List.length_map] at hlen
    refine ⟨by unfold Block.size; omega, fun j hj => ?_⟩
    rw [← List.getElem?_map, ← h, List.getElem?_take_of_lt hj]
  · rintro ⟨hsize, h⟩
    refine List.ext_getElem? fun j => ?_
    rw [List.getElem?_map, List.getElem?_take]
    split_ifs with hj
    · exact h j hj
    · rw [List.getElem?_eq_none (by omega), Option.map_none]

theorem HoldsEntries.entryAt {el : EditList} {edl : List UInt64} (h : HoldsEntries el edl) {i : ℕ}
    (hi : i < edl.length) : el.entryAt i = edl[i]? := by
  obtain ⟨-, b, hb, htake⟩ := h
  rw [EditList.entryAt, hb, Option.bind_some, (take_eq_map_iff.mp htake).2 i hi]
  cases edl[i]? <;> rfl

/-! ## Moving the tail up -/

/-- After the tail down to entry `i + 1` has been moved `k` cells up. -/
def OpenInv (b : Block UInt64) (totalFrames destination k : UInt64) (s : MoveLoop) : Prop :=
  s.i.toNat ≤ totalFrames.toNat ∧ destination.toNat ≤ s.i.toNat + 1 ∧
    ∃ b', s.frameList = some b' ∧ b'.size = b.size ∧ ∀ j, b'.cells[j]? =
      if s.i.toNat + 1 + k.toNat ≤ j ∧ j ≤ totalFrames.toNat + k.toNat then b.cells[j - k.toNat]?
      else b.cells[j]?

theorem openStep_ensures {b : Block UInt64} {totalFrames destination k : UInt64} {s : MoveLoop}
    (hfit : 0 < totalFrames.toNat → totalFrames.toNat + k.toNat < b.size) (hk : 0 < k.toNat)
    (hs : OpenInv b totalFrames destination k s)
    (hcond : destination.toNat ≤ s.i.toNat ∧ 0 < s.i.toNat) :
    Ensures (openStep k s) fun s' =>
      OpenInv b totalFrames destination k s' ∧ s'.i.toNat < s.i.toNat := by
  obtain ⟨hi, hd, b', hb', hsize, hcells⟩ := hs
  have hbound : b.size < 2 ^ 60 := b.bounded
  have hsum : (s.i + k).toNat = s.i.toNat + k.toNat := uint64_toNat_add_of_lt (by omega)
  have hpred : (s.i - 1).toNat = s.i.toNat - 1 :=
    uint64_toNat_sub_of_le (by rw [UInt64.toNat_one]; omega)
  have hread : b'.cells[s.i.toNat]? = b.cells[s.i.toNat]? := by
    rw [hcells, if_neg (by omega)]
  obtain ⟨entry, b'', hload, hstore, hsize', hcells'⟩ :=
    Block.copy_cell (show s.i.toNat < b'.size by omega) (show (s.i + k).toNat < b'.size by omega)
  rw [openStep, hb', hload, ok_bind, hstore, ok_bind, ensures_ok]
  refine ⟨⟨?_, ?_, b'', rfl, hsize'.trans hsize, fun j => ?_⟩, ?_⟩ <;> dsimp only
  · omega
  · omega
  · rw [hcells', hread, hsum, hpred]
    by_cases hj : j = s.i.toNat + k.toNat
    · rw [if_pos hj, if_pos (by omega), hj, Nat.add_sub_cancel]
    · rw [if_neg hj, hcells j]
      congr 1
      simp only [eq_iff_iff]
      omega
  · omega

/-- **The tail is moved up**, all but entry `0`. -/
theorem openGap_ensures {b : Block UInt64} {totalFrames destination k : UInt64}
    (hfit : 0 < totalFrames.toNat → totalFrames.toNat + k.toNat < b.size) (hk : 0 < k.toNat)
    (hdest : destination.toNat ≤ totalFrames.toNat) :
    Ensures (openGap totalFrames destination k b) fun s =>
      ∃ b', s.frameList = some b' ∧ b'.size = b.size ∧ ∀ j, b'.cells[j]? =
        if max destination.toNat 1 + k.toNat ≤ j ∧ j ≤ totalFrames.toNat + k.toNat then
          b.cells[j - k.toNat]?
        else b.cells[j]? := by
  have hstart : OpenInv b totalFrames destination k ⟨totalFrames, some b⟩ := by
    refine ⟨le_rfl, ?_, b, rfl, rfl, fun j => ?_⟩ <;> dsimp only
    · omega
    · rw [if_neg (by omega)]
  refine (whileLoop_ensures _ _ (fun s hs hcond => openStep_ensures hfit hk hs ?_) _ _ hstart
    le_rfl).mono ?_
  · simpa [UInt64.le_iff_toNat_le, UInt64.lt_iff_toNat_lt] using hcond
  · rintro s ⟨⟨hi, hd, b', hb', hsize, hcells⟩, hexit⟩
    -- the loop stops below the destination, or at entry `0`
    have hstop : s.i.toNat + 1 = max destination.toNat 1 := by
      simp only [decide_eq_false_iff_not, UInt64.le_iff_toNat_le, UInt64.lt_iff_toNat_lt,
        UInt64.toNat_zero] at hexit
      omega
    exact ⟨b', hb', hsize, fun j => by rw [hcells j, hstop]⟩

/-! ## Filling the gap -/

/-- A bound of the play window after `i` frames have been pasted at `destination`: it is raised with
every frame that is pasted below it (`offset` is `1` where a frame pasted at it raises it too). -/
def bumped (bound : ℤ) (destination offset i : ℕ) : ℤ :=
  if bound < 0 then min (bound + i) 0
  else if (destination : ℤ) < bound + offset then bound + i
  else bound

theorem raise_eq_ok {below : Bool} {bound : ℤ} {c c' : Int32} {k : UInt64}
    {destination offset i : ℕ} (hoffset : offset ≤ 1) (hbound : -2 ^ 31 ≤ bound)
    (hk : k.toNat = destination + i) (hsmall : k.toNat < 2 ^ 60)
    (hc : c.toInt = bumped bound destination offset i)
    (hbelow : below = true ↔ k.toNat < (widen c).toNat + offset) :
    raise below c = .ok c' ↔ c'.toInt = bumped bound destination offset (i + 1) := by
  have hwiden := widen_toNat c
  have hlt := c.toInt_lt
  have hle := c.le_toInt
  unfold bumped at hc ⊢
  unfold raise
  by_cases h : below = true
  · rw [if_pos h, int32Inc_eq_ok]
    have hk' := hbelow.mp h
    split_ifs at hc ⊢ <;> omega
  · rw [if_neg h, Except.ok.injEq, ← Int32.toInt_inj]
    have hk' := mt hbelow.mpr h
    split_ifs at hc ⊢ <;> omega

theorem bumped_zero (bound : ℤ) (destination offset : ℕ) :
    bumped bound destination offset 0 = bound := by
  unfold bumped
  split_ifs <;> omega

theorem bumped_mono (bound : ℤ) (destination offset : ℕ) {i j : ℕ} (h : i ≤ j) :
    bumped bound destination offset i ≤ bumped bound destination offset j := by
  unfold bumped
  split_ifs <;> omega

theorem le_bumped (bound : ℤ) (destination offset i : ℕ) :
    bound ≤ bumped bound destination offset i := by
  unfold bumped
  split_ifs <;> omega

/-- The play window after `i` pasted frames. -/
def WindowAt (st : Settings) (destination : ℕ) (s : FillLoop) : Prop :=
  s.k.toNat = destination + s.i.toNat ∧
  s.minFrameNum.toInt = bumped st.minFrameNum.toInt destination 1 s.i.toNat ∧
  s.maxFrameNum.toInt = bumped st.maxFrameNum.toInt destination 0 s.i.toNat

theorem WindowAt.start (st : Settings) (destination : UInt64) (frameList : Option (Block UInt64)) :
    WindowAt st destination.toNat ⟨0, destination, st.minFrameNum, st.maxFrameNum, frameList⟩ := by
  refine ⟨?_, ?_, ?_⟩ <;> dsimp only
  · rfl
  · rw [UInt64.toNat_zero, bumped_zero]
  · rw [UInt64.toNat_zero, bumped_zero]

/-- The two bounds of the window are raised as the closed form says, or the raise overflows. -/
theorem WindowAt.raise {st : Settings} {destination : ℕ} {s : FillLoop}
    (hs : WindowAt st destination s) (hsmall : s.k.toNat < 2 ^ 60) (lo hi : Int32) :
    (raise (s.k ≤ widen s.minFrameNum) s.minFrameNum = .ok lo ↔
      lo.toInt = bumped st.minFrameNum.toInt destination 1 (s.i.toNat + 1)) ∧
    (raise (s.k < widen s.maxFrameNum) s.maxFrameNum = .ok hi ↔
      hi.toInt = bumped st.maxFrameNum.toInt destination 0 (s.i.toNat + 1)) := by
  obtain ⟨hk, hmin, hmax⟩ := hs
  constructor
  · refine raise_eq_ok le_rfl (Int32.le_toInt _) hk hsmall hmin ?_
    rw [decide_eq_true_eq, UInt64.le_iff_toNat_le]
    omega
  · refine raise_eq_ok zero_le_one (Int32.le_toInt _) hk hsmall hmax ?_
    rw [decide_eq_true_eq, UInt64.lt_iff_toNat_lt, Nat.add_zero]

/-- What the second loop did to the play window, once it has returned. -/
theorem fillGap_window {st : Settings} {destination : UInt64} {frameList : Option (Block UInt64)}
    {s : FillLoop} (h : fillGap st destination frameList = .ok s) :
    s.minFrameNum.toInt =
      bumped st.minFrameNum.toInt destination.toNat 1 st.saveListLen.toNat ∧
    s.maxFrameNum.toInt =
      bumped st.maxFrameNum.toInt destination.toNat 0 st.saveListLen.toNat := by
  have hloop := whileLoop_ok (fun s => WindowAt st destination.toNat s ∧
      s.i.toNat ≤ st.saveListLen.toNat) ?_ h
    ⟨WindowAt.start st destination frameList, Nat.zero_le _⟩
  · obtain ⟨⟨⟨-, hmin, hmax⟩, hle⟩, hexit⟩ := hloop
    have hlen : s.i.toNat = st.saveListLen.toNat := by
      simp only [decide_eq_false_iff_not, UInt64.lt_iff_toNat_lt] at hexit
      omega
    rw [hlen] at hmin hmax
    exact ⟨hmin, hmax⟩
  · rintro s s' ⟨hs, hle⟩ hcond hstep
    rw [decide_eq_true_eq, UInt64.lt_iff_toNat_lt] at hcond
    rw [fillStep] at hstep
    obtain ⟨lo, hlo, hstep⟩ := bind_eq_ok.mp hstep
    obtain ⟨hi, hhi, hstep⟩ := bind_eq_ok.mp hstep
    obtain ⟨entry, -, hstep⟩ := bind_eq_ok.mp hstep
    obtain ⟨frameList', hstore, hstep⟩ := bind_eq_ok.mp hstep
    obtain rfl := Except.ok.inj hstep
    obtain ⟨b, -, -, -, hk, -⟩ := Block.storeAt_eq_ok hstore
    have hbound : b.size < 2 ^ 60 := b.bounded
    have hlen := st.saveListLen.toNat_lt
    have hraise := hs.raise (by omega) lo hi
    have hi1 : (s.i + 1).toNat = s.i.toNat + 1 :=
      uint64_toNat_add_of_lt (by rw [UInt64.toNat_one]; omega)
    have hk1 : (s.k + 1).toNat = s.k.toNat + 1 :=
      uint64_toNat_add_of_lt (by rw [UInt64.toNat_one]; omega)
    refine ⟨⟨?_, ?_, ?_⟩, ?_⟩ <;> dsimp only
    · rw [hi1, hk1, hs.1]
      omega
    · rw [hi1]
      exact hraise.1.mp hlo
    · rw [hi1]
      exact hraise.2.mp hhi
    · omega

/-- After `i` pasted frames, the first `i` cells of the gap are those of the clipboard. -/
def FillInv (st : Settings) (save b : Block UInt64) (destination : ℕ) (s : FillLoop) : Prop :=
  WindowAt st destination s ∧ s.i.toNat ≤ st.saveListLen.toNat ∧
    ∃ b', s.frameList = some b' ∧ b'.size = b.size ∧ ∀ j, b'.cells[j]? =
      if destination ≤ j ∧ j < destination + s.i.toNat then save.cells[j - destination]?
      else b.cells[j]?

/-- The window can be raised `k` times without leaving the type. -/
def WindowRoom (st : Settings) (destination k : ℕ) : Prop :=
  (0 ≤ st.minFrameNum.toInt → (destination : ℤ) ≤ st.minFrameNum.toInt →
    st.minFrameNum.toInt + k < 2 ^ 31) ∧
  (0 ≤ st.maxFrameNum.toInt → (destination : ℤ) < st.maxFrameNum.toInt →
    st.maxFrameNum.toInt + k < 2 ^ 31)

theorem windowRoom_iff {st : Settings} {destination k : ℕ} :
    WindowRoom st destination k ↔
      bumped st.minFrameNum.toInt destination 1 k < 2 ^ 31 ∧
      bumped st.maxFrameNum.toInt destination 0 k < 2 ^ 31 := by
  have hmin := st.minFrameNum.toInt_lt
  have hmax := st.maxFrameNum.toInt_lt
  unfold WindowRoom bumped
  refine and_congr ?_ ?_
  · split_ifs <;> omega
  · split_ifs <;> omega

/-- A bound that still has room for `k` frames can be raised. -/
theorem exists_bumped {bound : Int32} {destination offset i k : ℕ} (hi : i ≤ k)
    (hroom : bumped bound.toInt destination offset k < 2 ^ 31) :
    ∃ c : Int32, c.toInt = bumped bound.toInt destination offset i := by
  have hmono := bumped_mono bound.toInt destination offset hi
  have hle := le_bumped bound.toInt destination offset i
  have hbound := bound.le_toInt
  exact ⟨Int32.ofInt _, int32_toInt_ofInt (by omega) (by omega)⟩

theorem fillStep_ensures {st : Settings} {save b : Block UInt64} {destination : ℕ} {s : FillLoop}
    (hlen : st.saveListLen.toNat ≤ save.size)
    (hfit : destination + st.saveListLen.toNat ≤ b.size)
    (hroom : WindowRoom st destination st.saveListLen.toNat)
    (hs : FillInv st save b destination s) (hcond : s.i.toNat < st.saveListLen.toNat) :
    Ensures (fillStep (some save) s) fun s' => FillInv st save b destination s' ∧
      st.saveListLen.toNat - s'.i.toNat < st.saveListLen.toNat - s.i.toNat := by
  obtain ⟨hwindow, hi, b', hb', hsize, hcells⟩ := hs
  have hbound : b.size < 2 ^ 60 := b.bounded
  have hk := hwindow.1
  obtain ⟨hmin, hmax⟩ := windowRoom_iff.mp hroom
  obtain ⟨lo, hlo⟩ := exists_bumped (Nat.succ_le_of_lt hcond) hmin
  obtain ⟨hi', hhi⟩ := exists_bumped (Nat.succ_le_of_lt hcond) hmax
  have hraise := hwindow.raise (by omega) lo hi'
  obtain ⟨entry, b'', hload, hstore, hsize', hcells'⟩ :=
    Block.copy_cell (show s.i.toNat < save.size by omega) (show s.k.toNat < b'.size by omega)
  have hi1 : (s.i + 1).toNat = s.i.toNat + 1 :=
    uint64_toNat_add_of_lt (by rw [UInt64.toNat_one]; omega)
  have hk1 : (s.k + 1).toNat = s.k.toNat + 1 :=
    uint64_toNat_add_of_lt (by rw [UInt64.toNat_one]; omega)
  rw [fillStep, hraise.1.mpr hlo, ok_bind, hraise.2.mpr hhi, ok_bind, hb', hload, ok_bind, hstore,
    ok_bind, ensures_ok]
  refine ⟨⟨⟨?_, ?_, ?_⟩, ?_, b'', rfl, hsize'.trans hsize, fun j => ?_⟩, ?_⟩ <;> dsimp only
  · omega
  · rw [hi1]
    exact hlo
  · rw [hi1]
    exact hhi
  · omega
  · rw [hcells', hk, hi1]
    by_cases hj : j = destination + s.i.toNat
    · rw [if_pos hj, if_pos (by omega), hj, Nat.add_sub_cancel_left]
    · rw [if_neg hj, hcells j]
      congr 1
      simp only [eq_iff_iff]
      omega
  · omega

/-- **The gap is filled with the clipboard**, and nothing else is written. -/
theorem fillGap_ensures {st : Settings} {save b : Block UInt64} {destination : UInt64}
    (hsave : st.saveList = some save) (hlen : st.saveListLen.toNat ≤ save.size)
    (hfit : destination.toNat + st.saveListLen.toNat ≤ b.size)
    (hroom : WindowRoom st destination.toNat st.saveListLen.toNat) :
    Ensures (fillGap st destination (some b)) fun s =>
      ∃ b', s.frameList = some b' ∧ b'.size = b.size ∧ ∀ j, b'.cells[j]? =
        if destination.toNat ≤ j ∧ j < destination.toNat + st.saveListLen.toNat then
          save.cells[j - destination.toNat]?
        else b.cells[j]? := by
  have hstart : FillInv st save b destination.toNat
      ⟨0, destination, st.minFrameNum, st.maxFrameNum, some b⟩ := by
    refine ⟨WindowAt.start st destination _, Nat.zero_le _, b, rfl, rfl, fun j => ?_⟩
    rw [if_neg]
    rw [UInt64.toNat_zero]
    omega
  rw [fillGap, hsave]
  refine (whileLoop_ensures _ _ (fun s hs hcond => fillStep_ensures hlen hfit hroom hs ?_) _ _ hstart
    (Nat.sub_le _ _)).mono ?_
  · rwa [decide_eq_true_eq, UInt64.lt_iff_toNat_lt] at hcond
  · rintro s ⟨⟨-, hi, b', hb', hsize, hcells⟩, hexit⟩
    rw [decide_eq_false_iff_not, UInt64.lt_iff_toNat_lt] at hexit
    have hi' : s.i.toNat = st.saveListLen.toNat := by omega
    exact ⟨b', hb', hsize, fun j => by rw [hcells j, hi']⟩

/-! ## The whole operation -/

/-- What a paste that returned did to the counters and the window. -/
theorem pasteInto_ok {s s' : Session} {dest : UInt64} {frameList : Block UInt64} {res : Bool}
    (h : pasteInto s dest frameList = .ok (res, s')) :
    res = true ∧
    s'.el.videoFrames = (s.el.videoFrames.toUInt64 + s.settings.saveListLen).toInt64 ∧
    s'.el.totalFrames = s.el.totalFrames + (s.settings.saveListLen - 1) ∧
    s'.settings.currentFrameNum = s.settings.currentFrameNum ∧
    s'.settings.minFrameNum.toInt =
      bumped s.settings.minFrameNum.toInt dest.toNat 1 s.settings.saveListLen.toNat ∧
    s'.settings.maxFrameNum.toInt =
      bumped s.settings.maxFrameNum.toInt dest.toNat 0 s.settings.saveListLen.toNat := by
  rw [pasteInto] at h
  obtain ⟨opened, -, h⟩ := bind_eq_ok.mp h
  obtain ⟨filled, hfilled, h⟩ := bind_eq_ok.mp h
  rw [veejayIncreaseFrame_zero] at h
  obtain ⟨rfl, rfl⟩ := Prod.mk.inj (Except.ok.inj h)
  obtain ⟨hmin, hmax⟩ := fillGap_window hfilled
  exact ⟨rfl, rfl, rfl, rfl, hmin, hmax⟩

/-- **What a paste writes**, cell by cell: the clipboard, then the tail that was moved up. -/
theorem pasteInto_ensures {s : Session} (dest : UInt64) {save b : Block UInt64}
    (hsave : s.settings.saveList = some save)
    (hlen : s.settings.saveListLen.toNat ≤ save.size) (hpos : 0 < s.settings.saveListLen.toNat)
    (hfit : 0 < s.el.totalFrames.toNat →
      s.el.totalFrames.toNat + s.settings.saveListLen.toNat < b.size)
    (hdest : dest.toNat ≤ s.el.totalFrames.toNat)
    (hgap : dest.toNat + s.settings.saveListLen.toNat ≤ b.size)
    (hroom : WindowRoom s.settings dest.toNat s.settings.saveListLen.toNat) :
    Ensures (pasteInto s dest b) fun r =>
      ∃ b', r.2.el.frameList = some b' ∧ b'.size = b.size ∧ ∀ j, b'.cells[j]? =
        if dest.toNat ≤ j ∧ j < dest.toNat + s.settings.saveListLen.toNat then
          save.cells[j - dest.toNat]?
        else if max dest.toNat 1 + s.settings.saveListLen.toNat ≤ j ∧
            j ≤ s.el.totalFrames.toNat + s.settings.saveListLen.toNat then
          b.cells[j - s.settings.saveListLen.toNat]?
        else b.cells[j]? := by
  obtain ⟨opened, hopened, b₁, hb₁, hsize₁, hcells₁⟩ := openGap_ensures hfit hpos hdest
  obtain ⟨filled, hfilled, b₂, hb₂, hsize₂, hcells₂⟩ :=
    fillGap_ensures (b := b₁) hsave hlen (by rwa [hsize₁]) hroom
  rw [pasteInto, hopened, ok_bind, hb₁, hfilled, ok_bind, veejayIncreaseFrame_zero, ensures_ok]
  exact ⟨b₂, hb₂, hsize₂.trans hsize₁, fun j => by rw [hcells₂ j, hcells₁ j]⟩

/-- The result of a paste: the clipboard inserted at the destination, or, in an empty list, the
clipboard itself. -/
def Spliced (s : Session) (destination : ℕ) (edl save : List UInt64) (s' : Session) : Prop :=
  if s.el.isEmpty then HoldsEntries s'.el save ∧ s'.el.totalFrames.toNat = save.length - 1
  else HoldsEntries s'.el (edl.take destination ++ save ++ edl.drop destination)

/-- Every paste that succeeds inserts. -/
def PasteInserts (mem : Allocator) (s : Session) (destination : ℕ) (edl save : List UInt64) : Prop :=
  Ensures (veejayEditPaste mem s destination) fun r =>
    r.1 = true → Spliced s destination edl save r.2

/-- The number of entries a paste keeps. -/
def keptEntries (s : Session) (edl : List UInt64) : ℕ := if s.el.isEmpty then 0 else edl.length

/-- When a paste that gets its memory inserts: the play window does not overflow, and the entry the
first loop leaves behind is not missed. -/
def Insertable (s : Session) (destination : ℕ) (edl save : List UInt64) : Prop :=
  if s.el.isEmpty then
    WindowRoom s.settings 0 save.length ∧ s.el.videoFrames = 0 ∧ s.el.totalFrames = 0
  else
    WindowRoom s.settings destination save.length ∧
      (destination ≠ 0 ∨ s.el.entryAt save.length = edl[0]?)

theorem splice_getElem? {edl save : List UInt64} {d : ℕ} (hd : d ≤ edl.length) (j : ℕ) :
    (edl.take d ++ save ++ edl.drop d)[j]? =
      if j < d then edl[j]?
      else if j < d + save.length then save[j - d]? else edl[j - save.length]? := by
  have htake : (edl.take d).length = d := by
    rw [List.length_take]
    omega
  split_ifs with h₁ h₂
  · rw [List.append_assoc, List.getElem?_append_left (by omega), List.getElem?_take_of_lt h₁]
  · rw [List.append_assoc, List.getElem?_append_right (by omega), htake,
      List.getElem?_append_left (by omega)]
  · rw [List.getElem?_append_right (by rw [List.length_append, htake]; omega),
      List.length_append, htake, List.getElem?_drop]
    congr 1
    omega

theorem veejayEditPaste_of_accepted {mem : Allocator} {s : Session} {destination : ℤ}
    (hlen : s.settings.saveListLen ≠ 0) (hsave : s.settings.saveList.isNone = false)
    (haccept : s.el.isEmpty = false →
      ¬(destination < 0 ∨ s.el.totalFrames < UInt64.ofInt destination)) :
    veejayEditPaste mem s destination =
      match mem.realloc s.el.frameList ((keptFrames s + s.settings.saveListLen) * 8).toNat with
      | none => .ok (false, s.arrayLost)
      | some frameList => pasteInto s (pasteDest s destination) frameList := by
  have hclip : ¬(s.settings.saveListLen = 0 ∨ s.settings.saveList.isNone = true) := by
    simp [hlen, hsave]
  have hrange : ¬(s.el.isEmpty = false ∧
      (destination < 0 ∨ s.el.totalFrames < UInt64.ofInt destination)) :=
    fun h => haccept h.1 h.2
  rw [veejayEditPaste, if_neg hclip]
  exact if_neg hrange

/-- A clipboard is a block with its entries at the front. -/
theorem Clipboard.block {st : Settings} {save : List UInt64} (h : Clipboard st save) :
    ∃ b, st.saveList = some b ∧ save.length ≤ b.size ∧
      ∀ j < save.length, b.cells[j]? = save[j]?.map some := by
  obtain ⟨-, b, hb, htake⟩ := h
  exact ⟨b, hb, take_eq_map_iff.mp htake⟩

/-- A room that is missing is missed: the loop would have to leave the type. -/
theorem windowRoom_of_ok {s s' : Session} {dest : UInt64} {frameList : Block UInt64} {res : Bool}
    (h : pasteInto s dest frameList = .ok (res, s')) :
    WindowRoom s.settings dest.toNat s.settings.saveListLen.toNat := by
  obtain ⟨-, -, -, -, hmin, hmax⟩ := pasteInto_ok h
  rw [windowRoom_iff, ← hmin, ← hmax]
  exact ⟨Int32.toInt_lt _, Int32.toInt_lt _⟩

/-- The served paste into an empty list. -/
theorem pasteInto_empty_iff {s : Session} {save : List UInt64} {b : Block UInt64}
    (hempty : s.el.isEmpty = true) (hsave : Clipboard s.settings save) (hpos : 1 ≤ save.length)
    (hsize : b.size = save.length) (edl : List UInt64) (destination : ℕ) :
    (Ensures (pasteInto s 0 b) fun r => r.1 = true → Spliced s destination edl save r.2) ↔
      Insertable s destination edl save := by
  have hlen := hsave.1
  obtain ⟨clip, hclip, hclipSize, hclipCells⟩ := hsave.block
  have hbound : b.size < 2 ^ 60 := b.bounded
  simp only [Spliced, Insertable, hempty, if_true]
  constructor
  · rintro ⟨⟨res, s'⟩, hr, hspliced⟩
    obtain ⟨hres, hframes, htotal, -⟩ := pasteInto_ok hr
    obtain ⟨⟨hframes', -⟩, htotal'⟩ := hspliced hres
    have hroom := windowRoom_of_ok hr
    rw [hlen] at hroom
    refine ⟨hroom, ?_, ?_⟩
    · rw [hframes, uint64_toInt64_toInt, UInt64.toNat_add, int64_toUInt64_toNat, hlen] at hframes'
      have hlt := s.el.videoFrames.toInt_lt
      have hle := s.el.videoFrames.le_toInt
      have hzero : s.el.videoFrames.toInt = 0 := by
        rw [Int.bmod_def] at hframes'
        split_ifs at hframes' <;> omega
      exact Int64.toInt_inj.mp hzero
    · rw [htotal, UInt64.toNat_add, uint64_toNat_sub_of_le (by rw [UInt64.toNat_one]; omega),
        UInt64.toNat_one, hlen] at htotal'
      have hlt := s.el.totalFrames.toNat_lt
      exact UInt64.toNat_inj.mp (by rw [UInt64.toNat_zero]; omega)
  · rintro ⟨hroom, hframes, htotal⟩
    obtain ⟨⟨res, s'⟩, hr, b', hb', hsize', hcells⟩ := pasteInto_ensures (s := s) 0 (b := b)
      hclip (by omega) (by omega) (fun h => by simp [htotal] at h) (Nat.zero_le _)
      (by rw [UInt64.toNat_zero]; omega) (by rwa [UInt64.toNat_zero, hlen])
    obtain ⟨-, hframes', htotal', -⟩ := pasteInto_ok hr
    refine ⟨_, hr, fun _ => ⟨⟨?_, b', hb', take_eq_map_iff.mpr ⟨by omega, fun j hj => ?_⟩⟩, ?_⟩⟩
    · rw [hframes', hframes]
      show (0 + s.settings.saveListLen).toInt64.toInt = _
      rw [UInt64.zero_add, uint64_toInt64_toInt_of_lt (by omega), hlen]
    · rw [hcells, UInt64.toNat_zero, if_pos (by omega), Nat.sub_zero, hclipCells j hj]
    · rw [htotal', htotal, UInt64.zero_add,
        uint64_toNat_sub_of_le (by rw [UInt64.toNat_one]; omega), UInt64.toNat_one, hlen]

/-- The served paste into a list that holds `edl`. -/
theorem pasteInto_iff {s : Session} {edl save : List UInt64} {b old : Block UInt64}
    {destination : ℕ} {dest : UInt64} (hdest : dest.toNat = destination)
    (hfull : s.el.isEmpty = false) (hsave : Clipboard s.settings save) (hpos : 1 ≤ save.length)
    (hframes : s.el.videoFrames.toInt = edl.length) (hold : s.el.frameList = some old)
    (htake : old.cells.take edl.length = edl.map some) (hne : 1 ≤ edl.length)
    (htotal : s.el.totalFrames.toNat = edl.length - 1) (hd : destination ≤ edl.length - 1)
    (hcells : b.cells = Allocator.resized old.cells (edl.length + save.length)) :
    (Ensures (pasteInto s dest b) fun r => r.1 = true → Spliced s destination edl save r.2) ↔
      Insertable s destination edl save := by
  have hlen := hsave.1
  obtain ⟨clip, hclip, hclipSize, hclipCells⟩ := hsave.block
  obtain ⟨holdSize, holdCells⟩ := take_eq_map_iff.mp htake
  have hsize : b.size = edl.length + save.length := by
    rw [Block.size, hcells, Allocator.resized_length]
  have hbound : b.size < 2 ^ 60 := b.bounded
  have hkeep : ∀ j < edl.length, b.cells[j]? = edl[j]?.map some := fun j hj => by
    rw [hcells, Allocator.resized_getElem? (by unfold Block.size at holdSize; omega) (by omega),
      holdCells j hj]
  -- the cell that entry `0` should have been moved to
  have hstale : (b.cells[save.length]?).join = s.el.entryAt save.length := by
    rw [hcells, Allocator.resized_getElem?_join (by omega), EditList.entryAt, hold, Option.bind_some]
  simp only [Spliced, Insertable, hfull, Bool.false_eq_true, if_false]
  constructor
  · rintro ⟨⟨res, s'⟩, hr, hspliced⟩
    obtain ⟨hres, -⟩ := pasteInto_ok hr
    have hroom := windowRoom_of_ok hr
    obtain ⟨-, b', hb', htake'⟩ := hspliced hres
    obtain ⟨r, hr', b'', hb'', -, hcells''⟩ := pasteInto_ensures (s := s) dest (b := b)
      hclip (by omega) (by omega) (by omega) (by omega) (by omega) hroom
    obtain rfl : (res, s') = r := Except.ok.inj (hr.symm.trans hr')
    obtain rfl : b' = b'' := Option.some.inj (hb'.symm.trans hb'')
    rw [hdest, hlen] at hroom
    refine ⟨hroom, ?_⟩
    by_cases hzero : destination = 0
    · refine Or.inr ?_
      have hk := (take_eq_map_iff.mp htake').2 save.length
        (by simp only [List.length_append, List.length_take, List.length_drop]; omega)
      rw [hcells'', hdest, hlen, splice_getElem? (by omega), if_neg (by omega), if_neg (by omega),
        if_neg (by omega), if_neg (by omega), Nat.sub_self] at hk
      rw [← hstale, hk]
      cases edl[0]? <;> rfl
    · exact Or.inl hzero
  · rintro ⟨hroom, hfront⟩
    obtain ⟨⟨res, s'⟩, hr, b', hb', hsize', hcells'⟩ := pasteInto_ensures (s := s) dest (b := b)
      hclip (by omega) (by omega) (by omega) (by omega) (by omega)
      (by rwa [hdest, hlen])
    obtain ⟨-, hframes', -⟩ := pasteInto_ok hr
    have hwhole : (edl.take destination ++ save ++ edl.drop destination).length =
        edl.length + save.length := by
      simp only [List.length_append, List.length_take, List.length_drop]
      omega
    refine ⟨_, hr, fun _ => ⟨?_, b', hb', take_eq_map_iff.mpr ⟨by omega, fun j hj => ?_⟩⟩⟩
    · have hsum : (s.el.videoFrames.toUInt64 + s.settings.saveListLen).toNat =
          edl.length + save.length := by
        rw [UInt64.toNat_add, int64_toUInt64_toNat, hframes, hlen]
        omega
      rw [hframes', uint64_toInt64_toInt_of_lt (by omega), hsum, hwhole]
    · rw [hwhole] at hj
      rw [hcells', hdest, hlen, htotal, splice_getElem? (by omega)]
      by_cases hbelow : j < destination
      · rw [if_neg (by omega), if_neg (by omega), if_pos hbelow, hkeep j (by omega)]
      · rw [if_neg hbelow]
        by_cases hgap : j < destination + save.length
        · rw [if_pos ⟨by omega, hgap⟩, if_pos hgap, hclipCells _ (by omega)]
        · rw [if_neg (by omega), if_neg hgap]
          by_cases hmoved : max destination 1 + save.length ≤ j
          · rw [if_pos ⟨hmoved, by omega⟩, hkeep _ (by omega)]
          · -- only the cell above a clipboard pasted at the front is not written
            obtain ⟨rfl, rfl⟩ : destination = 0 ∧ j = save.length := by omega
            have hentry := hfront.resolve_left (fun h => h rfl)
            have hfirst : edl[0]? = some (edl.get ⟨0, hne⟩) := List.getElem?_eq_getElem hne
            rw [hfirst, ← hstale, Option.join_eq_some_iff] at hentry
            rw [if_neg (by omega), Nat.sub_self, hentry, hfirst, Option.map_some]

/-- **When pasting is insertion.**  A paste that gets its memory inserts the clipboard at its
destination exactly when the play window does not overflow and, at the front of a list, the cell above
the clipboard happens to hold entry `0` already.  A list flagged empty must really be empty. -/
theorem veejayEditPaste_inserts_iff (mem : Allocator) (s : Session) (destination : ℕ)
    (edl save : List UInt64) (hsave : Clipboard s.settings save) (hpos : 1 ≤ save.length)
    (hedl : s.el.isEmpty = false → HoldsEntries s.el edl ∧ 1 ≤ edl.length ∧
      s.el.totalFrames.toNat = edl.length - 1 ∧ destination ≤ s.el.totalFrames.toNat) :
    PasteInserts mem s destination edl save ↔
      (mem.Serves (keptEntries s edl + save.length) → Insertable s destination edl save) := by
  have hlen := hsave.1
  obtain ⟨clip, hclip, hclipSize, -⟩ := hsave.block
  have hclipBound : clip.size < 2 ^ 60 := clip.bounded
  have hnonzero : s.settings.saveListLen ≠ 0 := by
    intro h
    rw [h, UInt64.toNat_zero] at hlen
    omega
  cases hempty : s.el.isEmpty with
  | true =>
    have hbytes : (((0 : UInt64) + s.settings.saveListLen) * 8).toNat = save.length * 8 := by
      rw [UInt64.zero_add, UInt64.toNat_mul, hlen]
      show save.length * 8 % 2 ^ 64 = _
      omega
    rw [PasteInserts, veejayEditPaste_of_accepted hnonzero (by rw [hclip]; rfl) (by simp [hempty])]
    simp only [keptFrames, pasteDest, keptEntries, hempty, if_true, hbytes, Nat.zero_add]
    by_cases hserve : mem.Serves save.length
    · obtain ⟨b, hb, hcells⟩ := Allocator.realloc_of_serves (p := s.el.frameList) (by omega) hserve
      have hsize : b.size = save.length := by
        rw [Block.size, hcells, Allocator.resized_length]
      rw [hb]
      simp only [hserve, forall_const]
      exact pasteInto_empty_iff hempty hsave hpos hsize edl destination
    · rw [Allocator.realloc_of_refused (by omega) hserve]
      simp [hserve]
  | false =>
    obtain ⟨⟨hframes, old, hold, htake⟩, hne, htotal, hd⟩ := hedl hempty
    have holdSize := (take_eq_map_iff.mp htake).1
    have holdBound : old.size < 2 ^ 60 := old.bounded
    have hdest' : (UInt64.ofInt destination).toNat = destination := by
      rw [uint64_toNat_ofInt_of_nonneg] <;> omega
    have hbytes : ((s.el.videoFrames.toUInt64 + s.settings.saveListLen) * 8).toNat =
        (edl.length + save.length) * 8 := by
      rw [UInt64.toNat_mul, UInt64.toNat_add, int64_toUInt64_toNat, hframes, hlen]
      show (((edl.length : ℤ) % 2 ^ 64).toNat + save.length) % 2 ^ 64 * 8 % 2 ^ 64 = _
      omega
    have haccept : ¬((destination : ℤ) < 0 ∨ s.el.totalFrames < UInt64.ofInt destination) := by
      rw [UInt64.lt_iff_toNat_lt, hdest']
      omega
    rw [PasteInserts,
      veejayEditPaste_of_accepted hnonzero (by rw [hclip]; rfl) (fun _ => haccept)]
    simp only [keptFrames, pasteDest, keptEntries, hempty, Bool.false_eq_true, if_false, hbytes]
    by_cases hserve : mem.Serves (edl.length + save.length)
    · obtain ⟨b, hb, hcells⟩ := Allocator.realloc_of_serves (p := s.el.frameList) (by omega) hserve
      rw [hb]
      simp only [hserve, forall_const]
      rw [hold] at hcells
      exact pasteInto_iff hdest' hempty hsave hpos hframes hold htake hne htotal (by omega) hcells
    · rw [Allocator.realloc_of_refused (by omega) hserve]
      simp [hserve]

/-- In the middle of a list a paste inserts. -/
theorem paste_behind_first_entry :
    PasteInserts plentyOfMemory (sessionOver [5, 6] [9]) 1 [5, 6] [9] :=
  (veejayEditPaste_inserts_iff plentyOfMemory (sessionOver [5, 6] [9]) 1 [5, 6] [9]
    ⟨rfl, _, rfl, rfl⟩ (by decide) fun _ => ⟨⟨rfl, _, rfl, rfl⟩, by decide, rfl, by decide⟩).mpr
    fun _ => by
      rw [Insertable, if_neg (by decide), WindowRoom]
      decide

/-- At the front it does not: the entries `5, 6` with `9` pasted before them become `9, 6, 6`. -/
theorem paste_before_first_entry :
    Clipboard (sessionOver [5, 6] [9]).settings [9] ∧
    HoldsEntries (sessionOver [5, 6] [9]).el [5, 6] ∧
    ¬PasteInserts plentyOfMemory (sessionOver [5, 6] [9]) 0 [5, 6] [9] := by
  refine ⟨⟨rfl, _, rfl, rfl⟩, ⟨rfl, _, rfl, rfl⟩, ?_⟩
  rintro ⟨r, hr, hinserts⟩
  have hrun : (veejayEditPaste plentyOfMemory (sessionOver [5, 6] [9]) (0 : ℕ)).map
      (fun r => (r.1, r.2.el.entryAt 1)) = .ok (true, some 6) := rfl
  rw [hr] at hrun
  obtain ⟨hres, hentry⟩ := Prod.mk.inj (Except.ok.inj hrun)
  have hsplice : HoldsEntries r.2.el [9, 5, 6] := hinserts hres
  rw [hsplice.entryAt (by decide)] at hentry
  exact absurd hentry (by decide)

end Veejay.Edl
