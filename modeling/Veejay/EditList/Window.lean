import Veejay.EditList.Paste
import Veejay.EditList.Cases

/-!
# The play window under editing

`Window` is `0 <= min_frame_num <= current_frame_num <= max_frame_num <= total_frames`.  Every
operation adjusts the three numbers by hand, and none of them keeps the window in all cases: a delete
that starts at frame `0` leaves both bounds where they are, a paste raises the lower bound past the
current frame, and adding a movie narrows `total_frames` to an `int`.

* `minAt`, `maxAt`, `currentAt` — where a deletion moves the three numbers, in `ℤ`;
* `KeepsWindow` — the arguments under which an operation keeps the window;
* `applyEdit_window_iff` — **the window survives an accepted operation exactly then.**
-/

namespace Veejay.Edl

open CLib

/-- `0 <= min_frame_num <= current_frame_num <= max_frame_num <= total_frames`. -/
structure Window (s : Session) : Prop where
  min_nonneg : 0 ≤ s.settings.minFrameNum.toInt
  min_le : s.settings.minFrameNum.toInt ≤ s.settings.currentFrameNum.toInt
  le_max : s.settings.currentFrameNum.toInt ≤ s.settings.maxFrameNum.toInt
  max_le : s.settings.maxFrameNum.toInt ≤ s.el.totalFrames.toNat

theorem window_numbers {s : Session} :
    Window s ↔ 0 ≤ s.settings.minFrameNum.toInt ∧
      s.settings.minFrameNum.toInt ≤ s.settings.currentFrameNum.toInt ∧
      s.settings.currentFrameNum.toInt ≤ s.settings.maxFrameNum.toInt ∧
      s.settings.maxFrameNum.toInt ≤ s.el.totalFrames.toNat :=
  ⟨fun h => ⟨h.1, h.2, h.3, h.4⟩, fun h => ⟨h.1, h.2.1, h.2.2.1, h.2.2.2⟩⟩

/-! ## Deleting -/

/-- Where deleting `a .. b` moves a lower bound `x`. -/
def minAt (a b x : ℤ) : ℤ := if a = 0 ∨ x < a then x else if b < x then x - (b - a + 1) else a

/-- Where deleting `a .. b` moves an upper bound `x`. -/
def maxAt (a b x : ℤ) : ℤ := if a = 0 ∨ x < a then x else if b ≤ x then x - (b - a + 1) else a - 1

/-- Where deleting `a .. b` moves the current frame `x`. -/
def currentAt (a b x : ℤ) : ℤ := if x < a then x else if x ≤ b then a else x - (b - a + 1)

section Deleted

variable {n1 n2 : UInt64} {x : Int32}

theorem deletedCount_toNat (h : n1 ≤ n2) (hn2 : n2.toNat < 2 ^ 64 - 1) :
    (n2 - n1 + 1).toNat = n2.toNat - n1.toNat + 1 := by
  rw [UInt64.le_iff_toNat_le] at h
  have hsub := uint64_toNat_sub_of_le h
  rw [uint64_toNat_add_of_lt (by rw [hsub, UInt64.toNat_one]; omega), hsub, UInt64.toNat_one]

/-- What is left of a number above the deleted range. -/
theorem narrow_sub_toInt (h : n1 ≤ n2) (hfit : (n2.toNat : ℤ) - n1.toNat + 1 ≤ x.toInt)
    (hx : 0 ≤ x.toInt) (hn2 : (n2.toNat : ℤ) ≤ x.toInt) :
    (narrow (widen x - (n2 - n1 + 1))).toInt = x.toInt - (n2.toNat - n1.toNat + 1) := by
  have hlt := x.toInt_lt
  have hwiden := widen_toNat_of_nonneg hx
  have hcount := deletedCount_toNat h (by omega)
  rw [UInt64.le_iff_toNat_le] at h
  have hsub : (widen x - (n2 - n1 + 1)).toNat = x.toInt.toNat - (n2.toNat - n1.toNat + 1) := by
    rw [uint64_toNat_sub_of_le (by omega), hwiden, hcount]
  rw [narrow_toInt_of_lt (by omega), hsub]
  omega

/-- The test `n1 - 1 < x` of the source, which is false for `n1 = 0`. -/
theorem pred_lt_widen_iff (hx : 0 ≤ x.toInt) :
    n1 - 1 < widen x ↔ n1.toNat ≠ 0 ∧ (n1.toNat : ℤ) ≤ x.toInt := by
  have hlt := x.toInt_lt
  have hn1 := n1.toNat_lt
  rw [UInt64.lt_iff_toNat_lt, widen_toNat_of_nonneg hx, UInt64.toNat_sub, UInt64.toNat_one]
  omega

theorem lt_widen_iff (hx : 0 ≤ x.toInt) : n2 < widen x ↔ (n2.toNat : ℤ) < x.toInt := by
  rw [UInt64.lt_iff_toNat_lt, widen_toNat_of_nonneg hx]
  omega

theorem le_widen_iff (hx : 0 ≤ x.toInt) : n2 ≤ widen x ↔ (n2.toNat : ℤ) ≤ x.toInt := by
  rw [UInt64.le_iff_toNat_le, widen_toNat_of_nonneg hx]
  omega

theorem widen_le_iff (hx : 0 ≤ x.toInt) : widen x ≤ n2 ↔ x.toInt ≤ n2.toNat := by
  rw [UInt64.le_iff_toNat_le, widen_toNat_of_nonneg hx]
  omega

theorem minAfterDelete_toInt (hx : 0 ≤ x.toInt) (h : n1 ≤ n2) :
    (minAfterDelete n1 n2 x).toInt = minAt n1.toNat n2.toNat x.toInt := by
  have hlt := x.toInt_lt
  have hle := UInt64.le_iff_toNat_le.mp h
  unfold minAfterDelete minAt
  by_cases hbelow : n1.toNat ≠ 0 ∧ (n1.toNat : ℤ) ≤ x.toInt
  · have hout : ¬((n1.toNat : ℤ) = 0 ∨ x.toInt < n1.toNat) := by omega
    rw [if_pos ((pred_lt_widen_iff hx).mpr hbelow), if_neg hout]
    by_cases habove : (n2.toNat : ℤ) < x.toInt
    · rw [if_pos ((lt_widen_iff hx).mpr habove), if_pos habove,
        narrow_sub_toInt h (by omega) hx (by omega)]
    · rw [if_neg (mt (lt_widen_iff hx).mp habove), if_neg habove, narrow_toInt_of_lt (by omega)]
  · rw [if_neg (mt (pred_lt_widen_iff hx).mp hbelow), if_pos (by omega)]

theorem maxAfterDelete_toInt (hx : 0 ≤ x.toInt) (h : n1 ≤ n2) :
    (maxAfterDelete n1 n2 x).toInt = maxAt n1.toNat n2.toNat x.toInt := by
  have hlt := x.toInt_lt
  have hle := UInt64.le_iff_toNat_le.mp h
  unfold maxAfterDelete maxAt
  by_cases hbelow : n1.toNat ≠ 0 ∧ (n1.toNat : ℤ) ≤ x.toInt
  · have hout : ¬((n1.toNat : ℤ) = 0 ∨ x.toInt < n1.toNat) := by omega
    rw [if_pos ((pred_lt_widen_iff hx).mpr hbelow), if_neg hout]
    by_cases habove : (n2.toNat : ℤ) ≤ x.toInt
    · rw [if_pos ((le_widen_iff hx).mpr habove), if_pos habove,
        narrow_sub_toInt h (by omega) hx habove]
    · have hpred : (n1 - 1).toNat = n1.toNat - 1 :=
        uint64_toNat_sub_of_le (by rw [UInt64.toNat_one]; omega)
      rw [if_neg (mt (le_widen_iff hx).mp habove), if_neg habove, narrow_toInt_of_lt (by omega),
        hpred]
      omega
  · rw [if_neg (mt (pred_lt_widen_iff hx).mp hbelow), if_pos (by omega)]

theorem currentAfterDelete_toInt (hx : 0 ≤ x.toInt) (h : n1 ≤ n2) :
    (currentAfterDelete n1 n2 x).toInt = currentAt n1.toNat n2.toNat x.toInt := by
  have hlt := x.toInt_lt
  have hle := UInt64.le_iff_toNat_le.mp h
  unfold currentAfterDelete currentAt
  by_cases hbelow : (n1.toNat : ℤ) ≤ x.toInt
  · rw [if_pos ((le_widen_iff hx).mpr hbelow), if_neg (not_lt.mpr hbelow)]
    by_cases hin : x.toInt ≤ n2.toNat
    · rw [if_pos ((widen_le_iff hx).mpr hin), if_pos hin, narrow_toInt_of_lt (by omega)]
    · rw [if_neg (mt (widen_le_iff hx).mp hin), if_neg hin,
        narrow_sub_toInt h (by omega) hx (by omega)]
  · rw [if_neg (mt (le_widen_iff hx).mp hbelow), if_pos (by omega)]

end Deleted

/-- The numbers an accepted delete leaves. -/
structure DeletedWindow (s s' : Session) (start stop : ℤ) : Prop where
  isEmpty : s'.el.isEmpty = s.el.isEmpty
  start_le : (UInt64.ofInt start).toNat ≤ (UInt64.ofInt stop).toNat
  stop_le : (UInt64.ofInt stop).toNat ≤ s.el.totalFrames.toNat
  minFrameNum : 0 ≤ s.settings.minFrameNum.toInt → s'.settings.minFrameNum.toInt =
    minAt (UInt64.ofInt start).toNat (UInt64.ofInt stop).toNat s.settings.minFrameNum.toInt
  maxFrameNum : 0 ≤ s.settings.maxFrameNum.toInt → s'.settings.maxFrameNum.toInt =
    maxAt (UInt64.ofInt start).toNat (UInt64.ofInt stop).toNat s.settings.maxFrameNum.toInt
  currentFrameNum : 0 ≤ s.settings.currentFrameNum.toInt → s'.settings.currentFrameNum.toInt =
    currentAt (UInt64.ofInt start).toNat (UInt64.ofInt stop).toNat s.settings.currentFrameNum.toInt
  totalFrames : (s'.el.totalFrames.toNat : ℤ) =
    if (UInt64.ofInt stop).toNat - (UInt64.ofInt start).toNat = s.el.totalFrames.toNat then 2 ^ 64 - 1
    else s.el.totalFrames.toNat - ((UInt64.ofInt stop).toNat - (UInt64.ofInt start).toNat + 1)

theorem veejayEditDelete_window {s s' : Session} {start stop : ℤ}
    (h : veejayEditDelete s start stop = .ok (true, s')) : DeletedWindow s s' start stop := by
  rcases veejayEditDelete_cases h with ⟨hres, -⟩ | ⟨-, -, -, ⟨hle, hstop⟩, loop, -, rfl⟩
  · cases hres
  · have hle' := UInt64.le_iff_toNat_le.mp hle
    have hstop' := UInt64.le_iff_toNat_le.mp hstop
    have htotal := s.el.totalFrames.toNat_lt
    exact {
      isEmpty := rfl
      start_le := hle'
      stop_le := hstop'
      minFrameNum := fun hx => minAfterDelete_toInt hx hle
      maxFrameNum := fun hx => maxAfterDelete_toInt hx hle
      currentFrameNum := fun hx => currentAfterDelete_toInt hx hle
      totalFrames := by
        show ((s.el.totalFrames - (UInt64.ofInt stop - UInt64.ofInt start + 1)).toNat : ℤ) = _
        have hsub := uint64_toNat_sub_of_le hle'
        rw [UInt64.toNat_sub, UInt64.toNat_add, hsub, UInt64.toNat_one]
        split_ifs <;> omega }

theorem veejayEditDelete_clipboard {s s' : Session} {start stop : ℤ} {res : Bool}
    (h : veejayEditDelete s start stop = .ok (res, s')) :
    s'.settings.saveListLen = s.settings.saveListLen := by
  rcases veejayEditDelete_cases h with ⟨-, rfl, -⟩ | ⟨-, -, -, -, loop, -, rfl⟩
  · rfl
  · rfl

/-! ## Copying and pasting -/

/-- A copy that went through has counted its frames. -/
theorem copyFrames_count {frameList : Option (Block UInt64)} {n1 n2 : UInt64}
    {saveList : Block UInt64} {loop : CopyLoop} (hle : n1 ≤ n2)
    (h : copyFrames frameList n1 n2 saveList = .ok loop) :
    loop.k.toNat = n2.toNat - n1.toNat + 1 := by
  rw [UInt64.le_iff_toNat_le] at hle
  have hloop := whileLoop_ok
    (fun s : CopyLoop => s.i.toNat = n1.toNat + s.k.toNat ∧ s.i.toNat ≤ n2.toNat + 1)
    (fun s s' hs hcond hstep => ?_) h
    ⟨by simp, by dsimp only; omega⟩
  · obtain ⟨⟨hi, hle'⟩, hexit⟩ := hloop
    rw [decide_eq_false_iff_not, UInt64.le_iff_toNat_le] at hexit
    omega
  · obtain ⟨hi, hi'⟩ := hs
    rw [decide_eq_true_eq, UInt64.le_iff_toNat_le] at hcond
    rw [copyStep] at hstep
    obtain ⟨entry, hload, hstep⟩ := bind_eq_ok.mp hstep
    obtain ⟨saveList', -, hstep⟩ := bind_eq_ok.mp hstep
    obtain rfl := Except.ok.inj hstep
    obtain ⟨b, -, hib, -⟩ := Block.loadAt_eq_ok hload
    have hbound : b.size < 2 ^ 60 := b.bounded
    have hi1 : (s.i + 1).toNat = s.i.toNat + 1 :=
      uint64_toNat_add_of_lt (by rw [UInt64.toNat_one]; omega)
    have hk1 : (s.k + 1).toNat = s.k.toNat + 1 :=
      uint64_toNat_add_of_lt (by rw [UInt64.toNat_one]; omega)
    dsimp only
    omega

/-- The clipboard a paste has gone through is a block. -/
theorem fillGap_len {st : Settings} {destination : UInt64} {frameList : Option (Block UInt64)}
    {loop : FillLoop} (h : fillGap st destination frameList = .ok loop) :
    st.saveListLen.toNat < 2 ^ 60 := by
  have hloop := whileLoop_ok (fun s : FillLoop => s.i.toNat < 2 ^ 60)
    (fun s s' _ _ hstep => ?_) h (by simp)
  · obtain ⟨hi, hexit⟩ := hloop
    rw [decide_eq_false_iff_not, UInt64.lt_iff_toNat_lt] at hexit
    omega
  · rw [fillStep] at hstep
    obtain ⟨lo, -, hstep⟩ := bind_eq_ok.mp hstep
    obtain ⟨hi, -, hstep⟩ := bind_eq_ok.mp hstep
    obtain ⟨entry, hload, hstep⟩ := bind_eq_ok.mp hstep
    obtain ⟨frameList', -, hstep⟩ := bind_eq_ok.mp hstep
    obtain rfl := Except.ok.inj hstep
    obtain ⟨b, -, hib, -⟩ := Block.loadAt_eq_ok hload
    have hbound : b.size < 2 ^ 60 := b.bounded
    have hi1 : (s.i + 1).toNat = s.i.toNat + 1 :=
      uint64_toNat_add_of_lt (by rw [UInt64.toNat_one]; omega)
    dsimp only
    omega

/-- The list a paste has gone through is a block. -/
theorem openGap_total {totalFrames destination k : UInt64} {frameList : Block UInt64}
    {loop : MoveLoop} (h : openGap totalFrames destination k frameList = .ok loop)
    (hdest : destination ≤ totalFrames) : totalFrames.toNat < 2 ^ 60 := by
  by_cases hpos : 0 < totalFrames
  · obtain ⟨s', hstep⟩ := whileLoop_first h (by simp [hdest, hpos])
    rw [openStep] at hstep
    obtain ⟨entry, hload, -⟩ := bind_eq_ok.mp hstep
    obtain ⟨b, -, hib, -⟩ := Block.loadAt_eq_ok hload
    have hbound : b.size < 2 ^ 60 := b.bounded
    dsimp only at hib
    omega
  · rw [UInt64.lt_iff_toNat_lt, UInt64.toNat_zero] at hpos
    omega

/-- A paste that returned did not wrap `total_frames`. -/
theorem pasteInto_total {s s' : Session} {dest : UInt64} {frameList : Block UInt64} {res : Bool}
    (h : pasteInto s dest frameList = .ok (res, s')) (hlen : s.settings.saveListLen ≠ 0)
    (hdest : dest ≤ s.el.totalFrames) :
    s.el.totalFrames.toNat < 2 ^ 60 ∧
    s'.el.totalFrames.toNat = s.el.totalFrames.toNat + s.settings.saveListLen.toNat - 1 := by
  have htotal := (pasteInto_ok h).2.2.1
  rw [pasteInto] at h
  obtain ⟨opened, hopened, h⟩ := bind_eq_ok.mp h
  obtain ⟨filled, hfilled, -⟩ := bind_eq_ok.mp h
  have hT := openGap_total hopened hdest
  have hk := fillGap_len hfilled
  have hpos : s.settings.saveListLen.toNat ≠ 0 := fun h0 =>
    hlen (UInt64.toNat_inj.mp (by rw [h0, UInt64.toNat_zero]))
  have hpred : (s.settings.saveListLen - 1).toNat = s.settings.saveListLen.toNat - 1 :=
    uint64_toNat_sub_of_le (by rw [UInt64.toNat_one]; omega)
  rw [htotal, uint64_toNat_add_of_lt (by omega), hpred]
  exact ⟨hT, by omega⟩

/-- The numbers an accepted paste leaves, for a window that is not negative. -/
structure PastedWindow (s s' : Session) (destination : ℤ) : Prop where
  len_pos : 1 ≤ s.settings.saveListLen.toNat
  small : s.el.totalFrames.toNat < 2 ^ 60
  dest_le : (pasteDest s destination).toNat ≤ s.el.totalFrames.toNat
  minFrameNum : 0 ≤ s.settings.minFrameNum.toInt → s'.settings.minFrameNum.toInt =
    if ((pasteDest s destination).toNat : ℤ) ≤ s.settings.minFrameNum.toInt then
      s.settings.minFrameNum.toInt + s.settings.saveListLen.toNat
    else s.settings.minFrameNum.toInt
  maxFrameNum : 0 ≤ s.settings.maxFrameNum.toInt → s'.settings.maxFrameNum.toInt =
    if ((pasteDest s destination).toNat : ℤ) < s.settings.maxFrameNum.toInt then
      s.settings.maxFrameNum.toInt + s.settings.saveListLen.toNat
    else s.settings.maxFrameNum.toInt
  currentFrameNum : s'.settings.currentFrameNum = s.settings.currentFrameNum
  totalFrames : s'.el.totalFrames.toNat =
    s.el.totalFrames.toNat + s.settings.saveListLen.toNat - 1

theorem veejayEditPaste_window {mem : Allocator} {s s' : Session} {destination : ℤ}
    (h : veejayEditPaste mem s destination = .ok (true, s')) : PastedWindow s s' destination := by
  rcases veejayEditPaste_cases h with ⟨hres, -⟩ | ⟨hlen, haccept, frameList, hinto⟩
  · cases hres
  · have hdest : pasteDest s destination ≤ s.el.totalFrames := by
      unfold pasteDest
      split_ifs with hempty
      · exact UInt64.zero_le
      · exact (haccept (by simpa using hempty)).2
    have hpos : s.settings.saveListLen.toNat ≠ 0 := fun h0 =>
      hlen (UInt64.toNat_inj.mp (by rw [h0, UInt64.toNat_zero]))
    obtain ⟨-, -, -, hcurrent, hmin, hmax⟩ := pasteInto_ok hinto
    exact {
      len_pos := Nat.one_le_iff_ne_zero.mpr hpos
      small := (pasteInto_total hinto hlen hdest).1
      dest_le := UInt64.le_iff_toNat_le.mp hdest
      minFrameNum := fun hx => by
        rw [hmin, bumped, if_neg (not_lt.mpr hx)]
        congr 1
        simp only [eq_iff_iff]
        omega
      maxFrameNum := fun hx => by
        rw [hmax, bumped, if_neg (not_lt.mpr hx)]
        congr 1
        simp only [eq_iff_iff]
        omega
      currentFrameNum := hcurrent
      totalFrames := (pasteInto_total hinto hlen hdest).2 }

/-- What an accepted cut leaves: the numbers of a delete, and the cut entries counted. -/
theorem veejayEditCut_window {mem : Allocator} {s s' : Session} {start stop : ℤ}
    (h : veejayEditCut mem s start stop = .ok (true, s')) :
    DeletedWindow s s' start stop ∧ s.el.isEmpty = false ∧ s'.settings.saveListLen.toNat =
      (UInt64.ofInt stop).toNat - (UInt64.ofInt start).toNat + 1 := by
  obtain ⟨s₁, hcopy, hdelete⟩ := veejayEditCut_eq_true h
  have hwindow := veejayEditDelete_window hdelete
  rcases veejayEditCopy_cases hcopy with ⟨hres, -⟩ | ⟨-, hfull, clip, loop, -, hloop, rfl⟩
  · cases hres
  · -- the copy changes the clipboard only
    have hle := UInt64.le_iff_toNat_le.mpr hwindow.start_le
    exact ⟨⟨hwindow.isEmpty, hwindow.start_le, hwindow.stop_le, hwindow.minFrameNum,
      hwindow.maxFrameNum, hwindow.currentFrameNum, hwindow.totalFrames⟩, hfull,
      by rw [veejayEditDelete_clipboard hdelete]; exact copyFrames_count hle hloop⟩

/-! ## When the window survives -/

/-- A delete (or a cut) keeps the window: one that starts behind frame `0` unless it takes the current
frame together with everything up to the end of the window; one that starts at frame `0` only if the
bounds, which it does not move, still fit. -/
def DeleteKeeps (s : Session) (start stop : ℤ) : Prop :=
  let a : ℤ := (UInt64.ofInt start).toNat
  let b : ℤ := (UInt64.ofInt stop).toNat
  if a = 0 then
    (s.settings.currentFrameNum.toInt ≤ b ∧ s.settings.minFrameNum.toInt = 0 ∨
      b < s.settings.currentFrameNum.toInt ∧
        s.settings.minFrameNum.toInt + (b + 1) ≤ s.settings.currentFrameNum.toInt) ∧
    (s.settings.maxFrameNum.toInt + (b + 1) ≤ s.el.totalFrames.toNat ∨ b = s.el.totalFrames.toNat)
  else s.settings.currentFrameNum.toInt < a ∨ b < s.settings.maxFrameNum.toInt

/-- A paste keeps the window if it raises the lower bound at most to the current frame, and raises the
upper bound only where frames of the list lie beyond it. -/
def PasteKeeps (s : Session) (destination : ℤ) : Prop :=
  let d : ℤ := (pasteDest s destination).toNat
  (d ≤ s.settings.minFrameNum.toInt →
    s.settings.minFrameNum.toInt + s.settings.saveListLen.toNat ≤
      s.settings.currentFrameNum.toInt) ∧
  (d < s.settings.maxFrameNum.toInt → s.settings.maxFrameNum.toInt < s.el.totalFrames.toNat)

/-- A move keeps the window: where the cut has moved its bounds, the paste of the same number of
frames raises the lower one at most to the current frame, and the upper one only within the list. -/
def MoveKeeps (s : Session) (start stop destination : ℤ) : Prop :=
  let d := destReal start stop destination
  let n := stop - start + 1
  let lo := minAt start stop s.settings.minFrameNum.toInt
  let hi := maxAt start stop s.settings.maxFrameNum.toInt
  let cur := currentAt start stop s.settings.currentFrameNum.toInt
  (if d ≤ lo then lo + n ≤ cur else start = 0 → lo ≤ cur) ∧
  (hi ≤ d → s.settings.currentFrameNum.toInt < start ∨ stop < s.settings.maxFrameNum.toInt ∨
    start = 0) ∧
  (d < hi → hi + n < s.el.totalFrames.toNat)

/-- The arguments under which an operation keeps the window.  Adding a movie sets the upper bound to
`total_frames` cut down to an `int`. -/
def KeepsWindow (s : Session) : EditOp → Prop
  | .copy _ _ => True
  | .cut start stop => DeleteKeeps s start.toInt stop.toInt
  | .delete start stop => DeleteKeeps s start.toInt stop.toInt
  | .paste destination => PasteKeeps s destination.toInt
  | .move start stop destination => MoveKeeps s start.toInt stop.toInt destination.toInt
  | .addmovie _ => s.settings.currentFrameNum.toInt ≤ (narrow s.el.totalFrames).toInt

theorem DeletedWindow.window_iff {s s' : Session} {start stop : ℤ} (hw : Window s)
    (h : DeletedWindow s s' start stop) : Window s' ↔ DeleteKeeps s start stop := by
  obtain ⟨hmin0, hmin, hcur, hmax⟩ := hw
  have hmin' := h.minFrameNum (by omega)
  have hmax' := h.maxFrameNum (by omega)
  have hcur' := h.currentFrameNum (by omega)
  have htotal := h.totalFrames
  have hstart := h.start_le
  have hstop := h.stop_le
  have hmaxLt := s.settings.maxFrameNum.toInt_lt
  rw [window_numbers, hmin', hmax', hcur', htotal]
  unfold DeleteKeeps minAt maxAt currentAt
  by_cases hzero : ((UInt64.ofInt start).toNat : ℤ) = 0
  · simp only [hzero, if_true, true_or]
    split_ifs <;> omega
  · simp only [hzero, if_false, false_or]
    split_ifs <;> omega

theorem PastedWindow.window_iff {s s' : Session} {destination : ℤ} (hw : Window s)
    (h : PastedWindow s s' destination) : Window s' ↔ PasteKeeps s destination := by
  obtain ⟨hmin0, hmin, hcur, hmax⟩ := hw
  have hmin' := h.minFrameNum (by omega)
  have hmax' := h.maxFrameNum (by omega)
  have hlen := h.len_pos
  rw [window_numbers, hmin', hmax', h.currentFrameNum, h.totalFrames]
  unfold PasteKeeps
  dsimp only
  split_ifs <;> omega

theorem minAt_le_currentAt {a b x y : ℤ} (h : x ≤ y) (ha : a ≠ 0) : minAt a b x ≤ currentAt a b y := by
  unfold minAt currentAt
  split_ifs <;> omega

theorem currentAt_le_maxAt_iff {a b x y : ℤ} (hab : a ≤ b) (h : x ≤ y) :
    currentAt a b x ≤ maxAt a b y ↔ x < a ∨ b < y ∨ a = 0 := by
  unfold currentAt maxAt
  split_ifs <;> omega

theorem currentAt_le_maxAt_succ {a b x y : ℤ} (hab : a ≤ b) (h : x ≤ y) :
    currentAt a b x ≤ maxAt a b y + 1 := by
  unfold currentAt maxAt
  split_ifs <;> omega

/-- The window after a cut of `start .. stop` and a paste of the cut frames at `dest_real`. -/
theorem moved_window_iff {s s₁ s' : Session} {start stop destination : ℤ} (hw : Window s)
    (hstart : 0 ≤ start) (hle : start ≤ stop) (hdest : 0 ≤ destination)
    (hstop : stop < 2 ^ 64) (hdest' : destination < 2 ^ 64) (hfull : s.el.isEmpty = false)
    (hcut : DeletedWindow s s₁ start stop)
    (hlen : s₁.settings.saveListLen.toNat =
      (UInt64.ofInt stop).toNat - (UInt64.ofInt start).toNat + 1)
    (hpaste : PastedWindow s₁ s' (destReal start stop destination)) :
    Window s' ↔ MoveKeeps s start stop destination := by
  obtain ⟨hmin0, hmin, hcur, hmax⟩ := hw
  have ha : ((UInt64.ofInt start).toNat : ℤ) = start := by
    rw [uint64_toNat_ofInt_of_nonneg hstart (by omega)]
    omega
  have hb : ((UInt64.ofInt stop).toNat : ℤ) = stop := by
    rw [uint64_toNat_ofInt_of_nonneg (by omega) hstop]
    omega
  have hd : ((pasteDest s₁ (destReal start stop destination)).toNat : ℤ) =
      destReal start stop destination := by
    have hreal : 0 ≤ destReal start stop destination ∧ destReal start stop destination < 2 ^ 64 := by
      unfold destReal
      split_ifs <;> omega
    rw [pasteDest, hcut.isEmpty, hfull, if_neg (by simp),
      uint64_toNat_ofInt_of_nonneg hreal.1 hreal.2]
    omega
  have hmin1 := hcut.minFrameNum (by omega)
  have hmax1 := hcut.maxFrameNum (by omega)
  have hcur1 := hcut.currentFrameNum (by omega)
  have htotal1 := hcut.totalFrames
  have hsmall := hpaste.small
  have hstop' := hcut.stop_le
  rw [ha, hb] at hmin1 hmax1 hcur1
  have hmin1' : 0 ≤ minAt start stop s.settings.minFrameNum.toInt := by
    unfold minAt
    split_ifs <;> omega
  have hmax1' : 0 ≤ maxAt start stop s.settings.maxFrameNum.toInt := by
    unfold maxAt
    split_ifs <;> omega
  have hmin2 := hpaste.minFrameNum (by omega)
  have hmax2 := hpaste.maxFrameNum (by omega)
  have hdle := hpaste.dest_le
  have hcount : (s₁.settings.saveListLen.toNat : ℤ) = stop - start + 1 := by omega
  -- the cut leaves `total_frames - n` frames, or none at all, where a paste would fault
  have htotal : (s₁.el.totalFrames.toNat : ℤ) = s.el.totalFrames.toNat - (stop - start + 1) := by
    split_ifs at htotal1 <;> omega
  have hlast : (s'.el.totalFrames.toNat : ℤ) = s.el.totalFrames.toNat - 1 := by
    rw [hpaste.totalFrames]
    omega
  have hdle' : destReal start stop destination ≤ s.el.totalFrames.toNat - (stop - start + 1) := by
    omega
  have hlow := fun ha => minAt_le_currentAt (a := start) (b := stop) hmin ha
  have hhigh := currentAt_le_maxAt_iff hle hcur
  have hhigh' := currentAt_le_maxAt_succ hle hcur
  rw [hmin1, hd, hcount] at hmin2
  rw [hmax1, hd, hcount] at hmax2
  rw [window_numbers, hmin2, hmax2, hpaste.currentFrameNum, hcur1, hlast]
  unfold MoveKeeps
  dsimp only
  generalize minAt start stop s.settings.minFrameNum.toInt = lo at *
  generalize maxAt start stop s.settings.maxFrameNum.toInt = hi at *
  generalize currentAt start stop s.settings.currentFrameNum.toInt = cur at *
  generalize destReal start stop destination = d at *
  by_cases hlo : d ≤ lo
  · rw [if_pos hlo, if_pos hlo]
    by_cases hhi : d < hi
    · rw [if_pos hhi]
      omega
    · rw [if_neg hhi]
      omega
  · rw [if_neg hlo, if_neg hlo]
    by_cases hhi : d < hi
    · rw [if_pos hhi]
      omega
    · rw [if_neg hhi]
      omega

/-- **When an accepted operation keeps the play window.** -/
theorem applyEdit_window_iff (s s' : Session) (c : Command) (hw : Window s)
    (h : applyEdit s c = .ok (true, s')) : Window s' ↔ KeepsWindow s c.op := by
  unfold applyEdit at h
  split_ifs at h
  obtain ⟨op, mem, lib⟩ := c
  cases op with
  | copy start stop =>
    rcases veejayEditCopy_cases h with ⟨hres, -⟩ | ⟨-, -, clip, loop, -, -, rfl⟩
    · cases hres
    · exact iff_of_true ⟨hw.1, hw.2, hw.3, hw.4⟩ trivial
  | cut start stop => exact (veejayEditCut_window h).1.window_iff hw
  | delete start stop => exact (veejayEditDelete_window h).window_iff hw
  | paste destination => exact (veejayEditPaste_window h).window_iff hw
  | move start stop destination =>
    obtain ⟨hfull, hstart, hle, hdest, hstop, hdest', s₁, hcut, hpaste⟩ := veejayEditMove_eq_true h
    obtain ⟨hcutWindow, -, hlen⟩ := veejayEditCut_window hcut
    have hstopLt := stop.toInt_lt
    have hdestLt := destination.toInt_lt
    exact moved_window_iff hw hstart hle hdest (by omega) (by omega) hfull hcutWindow hlen
      (veejayEditPaste_window hpaste)
  | addmovie movie =>
    obtain ⟨fd, el, hopen, hcases⟩ := veejayEditAddmovie_cases h
    rcases hcases with ⟨-, hres, -⟩ | ⟨-, hres, -⟩ | ⟨-, -, loop, rfl⟩
    · cases hres
    · cases hres
    · have htotal : el.totalFrames = s.el.totalFrames := by
        rcases openVideoFile_cases hopen with ⟨-, hsame⟩ | ⟨-, hone⟩
        · exact hsame.totalFrames
        · exact hone.totalFrames
      obtain ⟨hmin0, hmin, hcur, hmax⟩ := hw
      have hle := narrow_toInt s.el.totalFrames
      rw [window_numbers]
      show 0 ≤ (0 : Int32).toInt ∧ (0 : Int32).toInt ≤ s.settings.currentFrameNum.toInt ∧
        s.settings.currentFrameNum.toInt ≤ (narrow el.totalFrames).toInt ∧
        (narrow el.totalFrames).toInt ≤ el.totalFrames.toNat ↔ _
      rw [htotal]
      unfold KeepsWindow
      dsimp only
      have hnarrow : (narrow s.el.totalFrames).toInt ≤ s.el.totalFrames.toNat := by
        rw [narrow_toInt, Int.bmod_def]
        split_ifs <;> omega
      rw [show (0 : Int32).toInt = 0 from rfl]
      omega

theorem sessionOver_window : Window (sessionOver [1, 2, 3, 4, 5] []) :=
  ⟨by decide, by decide, by decide, by decide⟩

/-- Deleting frames behind the current one keeps the window. -/
theorem delete_behind_current_frame :
    ∃ s', applyEdit (sessionOver [1, 2, 3, 4, 5] []) ⟨.delete 1 2, plentyOfMemory, noMovies⟩ =
      .ok (true, s') ∧ Window s' :=
  ⟨_, rfl, (applyEdit_window_iff _ _ ⟨.delete 1 2, plentyOfMemory, noMovies⟩
    sessionOver_window rfl).mpr (by
    unfold KeepsWindow DeleteKeeps
    decide)⟩

/-- Deleting the first two of five frames leaves the upper bound at `4`, beyond the three frames that
are left. -/
theorem delete_from_frame_zero :
    Window (sessionOver [1, 2, 3, 4, 5] []) ∧
    ∃ s', applyEdit (sessionOver [1, 2, 3, 4, 5] []) ⟨.delete 0 1, plentyOfMemory, noMovies⟩ =
      .ok (true, s') ∧ ¬Window s' :=
  ⟨sessionOver_window, _, rfl, fun h => absurd h.max_le (by decide)⟩

end Veejay.Edl
