import Veejay.EditList.Invariant
import Veejay.Play.SampleFrame

/-!
# Edit commands on the sample that is played

The commands cut, copy, delete, crop and paste edit the list of the sample that is played, and then set its first
frame to 0 and its last one to the end of the list (`veejay/vj-event.c`).  The first of the two setters looks at the
last frame that there was before.

* `State` — the sample and the session that holds its list;
* `vjEventElCut`, … — the handlers;
* `WindowValid` — the sample is all of its list, with its marker and the place to go on inside of it;
* `ElCommand.total` — how long the list is after a command;
* `Fits` — the commands after which the window is valid;
* `window_valid_after` — **after each command of such a run it is.**
-/

namespace Veejay.SampleEdits

open CLib Veejay.Edl Veejay.Sample

/-! ## The handlers -/

/-- The sample that is played, the session with its edit list, and whether samples, streams or the plain list are
played. -/
structure State where
  sample : SampleInfo
  session : Session
  samplePlaying : Bool
  otherPlaying : Bool

/-- An edit leaves a list, which is that of the sample. -/
def State.withSession (st : State) (session : Session) : State :=
  { st with
    session := session
    sample := { st.sample with
      editList := st.sample.editList.map fun el => { el with
        totalFrames := session.el.totalFrames.toNat
        hasVideo := session.el.hasVideo
        isEmpty := session.el.isEmpty } } }

/-- `sample_usable_edl` -/
def sampleUsableEdl (s : SampleInfo) : Bool := s.playLength = 0 && s.editList.isSome

/-- `sample_video_length`, an `int` -/
def sampleVideoLength (s : SampleInfo) : ℤ :=
  if s.playLength ≠ 0 then s.playLength else s.editList.elim 0 fun el => (Int32.ofInt el.totalFrames).toInt

/-- `sample_set_startframe (id, 0)`, and `sample_set_endframe (id, sample_video_length (id))` -/
def repair (st : State) : Exec State := do
  let start := sampleSetStartframe st.sample 0
  let last ← sampleSetEndframe start.2 (sampleVideoLength start.2)
  .ok { st with sample := last.2 }

/-- The check of a frame number. -/
def outOfBounds (el : EditList) (n : Int32) : Bool := n.toInt < 0 || el.totalFrames < UInt64.ofInt n.toInt

/-- The common text of the handlers for a range of frames. -/
def onRange (edit : Session → Exec (Bool × Session)) (a b : Int32) (st : State) : Exec State :=
  if st.samplePlaying = false then .ok st
  else if sampleUsableEdl st.sample = false then .ok st
  else if outOfBounds st.session.el a || outOfBounds st.session.el b then .ok st
  else do
    let edited ← edit st.session
    repair (st.withSession edited.2)

/-- `vj_event_el_cut` -/
def vjEventElCut (mem : Allocator) (a b : Int32) (st : State) : Exec State :=
  onRange (fun s => veejayEditCut mem s a.toInt b.toInt) a b st

/-- `vj_event_el_copy` -/
def vjEventElCopy (mem : Allocator) (a b : Int32) (st : State) : Exec State :=
  onRange (fun s => veejayEditCopy mem s a.toInt b.toInt) a b st

/-- `vj_event_el_del` -/
def vjEventElDel (a b : Int32) (st : State) : Exec State :=
  onRange (fun s => veejayEditDelete s a.toInt b.toInt) a b st

/-- `veejay_set_frame`, in sample mode -/
def setFrame (framenum : ℤ) (st : State) : State :=
  let settings := st.session.settings
  let info := Play.veejaySetFrame
    { sample := st.sample
      currentFrameNum := settings.currentFrameNum.toInt
      minFrameNum := settings.minFrameNum.toInt
      maxFrameNum := settings.maxFrameNum.toInt
      currentPlaybackSpeed := st.sample.speed
      direction := 1
      randMode := .inactive
      maxDelay := 0 } framenum
  { st with
    sample := info.sample
    session := { st.session with settings := { settings with currentFrameNum := Int32.ofInt info.currentFrameNum } } }

/-- `vj_event_el_crop` -/
def vjEventElCrop (a b : Int32) (st : State) : Exec State :=
  if st.otherPlaying then .ok st
  else if st.samplePlaying = false then .ok st
  else if sampleUsableEdl st.sample = false then .ok st
  else if outOfBounds st.session.el a || outOfBounds st.session.el b then .ok st
  else if b.toInt ≤ a.toInt then .ok st
  else do
    let front ← veejayEditDelete st.session 0 a.toInt
    if front.1 then
      let back ← veejayEditDelete front.2 (b.toInt - a.toInt) front.2.el.totalFrames.toInt64.toInt
      -- without the second part the window is left as it is
      if back.1 then repair (setFrame 0 (st.withSession back.2)) else .ok (st.withSession back.2)
    else .ok (st.withSession front.2)

/-- `vj_event_el_paste_at` -/
def vjEventElPasteAt (mem : Allocator) (a : Int32) (st : State) : Exec State :=
  if st.otherPlaying then .ok st
  else if st.samplePlaying = false then .ok st
  else if sampleUsableEdl st.sample = false then .ok st
  else if outOfBounds st.session.el a then .ok st
  else do
    let pasted ← veejayEditPaste mem st.session a.toInt
    repair (st.withSession pasted.2)

/-- The commands with their arguments, and the memory that they meet. -/
inductive ElCommand where
  | cut (mem : Allocator) (a b : Int32)
  | copy (mem : Allocator) (a b : Int32)
  | del (a b : Int32)
  | crop (a b : Int32)
  | pasteAt (mem : Allocator) (a : Int32)

/-- One command. -/
def ElCommand.run (st : State) : ElCommand → Exec State
  | .cut mem a b => vjEventElCut mem a b st
  | .copy mem a b => vjEventElCopy mem a b st
  | .del a b => vjEventElDel a b st
  | .crop a b => vjEventElCrop a b st
  | .pasteAt mem a => vjEventElPasteAt mem a st

/-- One command of a run. -/
def elStep (st : State) (c : ElCommand) : Exec (Unit × State) := do
  let st ← c.run st
  .ok ((), st)

/-! ## The window -/

/-- **The sample is all of its edit list**, and its marker and the place to go on lie inside of it. -/
structure WindowValid (s : SampleInfo) : Prop where
  first : s.firstFrame = 0
  last : ∃ el, s.editList = some el ∧ s.lastFrame = el.totalFrames
  order : 0 ≤ s.firstFrame ∧ s.firstFrame ≤ s.lastFrame
  marker : MarkerActive s → s.firstFrame ≤ s.markerStart ∧ s.markerStart ≤ s.lastFrame ∧
    s.firstFrame ≤ s.markerEnd ∧ s.markerEnd ≤ s.lastFrame
  resume : s.firstFrame ≤ s.resumePos ∧ s.resumePos ≤ s.lastFrame

/-- The window is that of a list whose last frame has this number. -/
def WindowIs (s : SampleInfo) (t : ℕ) : Prop :=
  s.firstFrame = 0 ∧ s.lastFrame = t ∧ (MarkerActive s → s.markerStart ≤ t ∧ s.markerEnd ≤ t) ∧
    0 ≤ s.resumePos ∧ s.resumePos ≤ t

/-- The setters make the window that of a list whose last frame has this number: the last frame was not frame 0, the
number is an `int`, and an active marker does not end behind it. -/
def Repairs (s : SampleInfo) (t : ℕ) : Prop :=
  0 < s.lastFrame ∧ t < 2 ^ 31 ∧ (MarkerActive s → s.markerStart ≤ t ∧ s.markerEnd ≤ t)

/-- A range is deleted. -/
def Deletes (s : Session) (start stop : ℤ) : Prop :=
  s.el.isEmpty = false ∧ s.dummyActive = false ∧ Edl.InRange s start stop

instance (s : Session) (start stop : ℤ) : Decidable (Deletes s start stop) := inferInstanceAs (Decidable (_ ∧ _))

/-- `total_frames` after `veejay_edit_delete`. -/
def deleteTotal (s : Session) (start stop : ℤ) : UInt64 :=
  if Deletes s start stop then s.el.totalFrames - (UInt64.ofInt stop - UInt64.ofInt start + 1) else s.el.totalFrames

/-- The clipboard is not allocated. -/
def refusesClipboard (mem : Allocator) (start stop : ℤ) : Bool :=
  (mem.calloc (0 : UInt64) ((UInt64.ofInt stop - UInt64.ofInt start + 1) * 8).toNat).isNone

/-- Nothing is pasted: the clipboard is empty, or there is no memory. -/
def refusesPaste (mem : Allocator) (s : Session) : Bool :=
  decide (s.settings.saveListLen = 0) || s.settings.saveList.isNone ||
    (mem.realloc s.el.frameList ((keptFrames s + s.settings.saveListLen) * 8).toNat).isNone

/-- The arguments pass the checks of the handler. -/
def Passes (st : State) : ElCommand → Prop
  | .cut _ a b => outOfBounds st.session.el a = false ∧ outOfBounds st.session.el b = false
  | .copy _ a b => outOfBounds st.session.el a = false ∧ outOfBounds st.session.el b = false
  | .del a b => outOfBounds st.session.el a = false ∧ outOfBounds st.session.el b = false
  | .crop a b =>
    st.otherPlaying = false ∧ outOfBounds st.session.el a = false ∧ outOfBounds st.session.el b = false ∧
      a.toInt < b.toInt ∧ st.session.el.isEmpty = false ∧ st.session.dummyActive = false
  | .pasteAt _ a => st.otherPlaying = false ∧ outOfBounds st.session.el a = false

/-- `total_frames` after a command whose arguments pass. -/
def ElCommand.total (s : Session) : ElCommand → UInt64
  | .cut mem a b =>
    if refusesClipboard mem a.toInt b.toInt then s.el.totalFrames else deleteTotal s a.toInt b.toInt
  | .copy .. => s.el.totalFrames
  | .del a b => deleteTotal s a.toInt b.toInt
  | .crop a b =>
    -- up to the last frame, the second part of the crop is refused
    if UInt64.ofInt b.toInt = s.el.totalFrames then deleteTotal s 0 a.toInt
    else UInt64.ofInt (b.toInt - a.toInt - 1)
  | .pasteAt mem _ =>
    if refusesPaste mem s then s.el.totalFrames else s.el.totalFrames + (s.settings.saveListLen - 1)

/-- The crop leaves the window alone. -/
def LeavesWindow (s : Session) : ElCommand → Prop
  | .crop _ b => UInt64.ofInt b.toInt = s.el.totalFrames
  | _ => False

/-- The command comes to edit the list. -/
def Edits (st : State) (c : ElCommand) : Prop :=
  st.samplePlaying = true ∧ sampleUsableEdl st.sample = true ∧ Passes st c

/-- **The commands after which the window is valid**: before a command that does not come to edit, it is valid; after a
crop up to the last frame, it is that of the list that is left; after the others, the setters make it so. -/
structure Fits (st : State) (c : ElCommand) : Prop where
  refused : ¬ Edits st c → WindowIs st.sample st.session.el.totalFrames.toNat
  left : Edits st c → LeavesWindow st.session c → WindowIs st.sample (c.total st.session).toNat
  repaired : Edits st c → ¬ LeavesWindow st.session c → Repairs st.sample (c.total st.session).toNat

/-! ## Edits -/

section Edits

variable {s s' : Session} {mem : Allocator} {start stop : ℤ} {res : Bool}

theorem veejayEditCopy_el (h : veejayEditCopy mem s start stop = .ok (res, s')) :
    s'.el = s.el ∧ s'.dummyActive = s.dummyActive ∧
      (s.el.isEmpty = false → (res = true ↔ refusesClipboard mem start stop = false)) := by
  unfold veejayEditCopy at h
  unfold refusesClipboard
  cases hempty : s.el.isEmpty with
  | true =>
    rw [if_pos hempty] at h
    obtain ⟨rfl, rfl⟩ := Prod.mk.inj (Except.ok.inj h)
    exact ⟨rfl, rfl, nofun⟩
  | false =>
    rw [if_neg (by simp [hempty])] at h
    cases hclip : mem.calloc (0 : UInt64) ((UInt64.ofInt stop - UInt64.ofInt start + 1) * 8).toNat with
    | none =>
      simp only [hclip] at h
      obtain ⟨rfl, rfl⟩ := Prod.mk.inj (Except.ok.inj h)
      exact ⟨rfl, rfl, fun _ => iff_of_false Bool.false_ne_true (Bool.noConfusion ·)⟩
    | some clip =>
      simp only [hclip] at h
      obtain ⟨loop, -, hrest⟩ := bind_eq_ok.mp h
      obtain ⟨rfl, rfl⟩ := Prod.mk.inj (Except.ok.inj hrest)
      exact ⟨rfl, rfl, fun _ => iff_of_true rfl rfl⟩

theorem veejayEditDelete_total (h : veejayEditDelete s start stop = .ok (res, s')) :
    s'.el.totalFrames = deleteTotal s start stop ∧ (res = true ↔ Deletes s start stop) ∧
      s'.el.isEmpty = s.el.isEmpty ∧ s'.dummyActive = s.dummyActive := by
  unfold deleteTotal
  rcases veejayEditDelete_cases h with ⟨rfl, rfl, hno⟩ | ⟨rfl, hempty, hdummy, hrange, loop, -, rfl⟩
  · have hnot : ¬ Deletes s' start stop := by
      rintro ⟨hempty, hdummy, hrange⟩
      rcases hno with h | h | h
      · exact Bool.false_ne_true (hempty.symm.trans h)
      · exact Bool.false_ne_true (hdummy.symm.trans h)
      · exact h hrange
    rw [if_neg hnot]
    exact ⟨rfl, iff_of_false Bool.false_ne_true hnot, rfl, rfl⟩
  · have hyes : Deletes s start stop := ⟨hempty, hdummy, hrange⟩
    rw [if_pos hyes]
    exact ⟨rfl, iff_of_true rfl hyes, rfl, rfl⟩

theorem veejayEditCut_total (h : veejayEditCut mem s start stop = .ok (res, s')) :
    s'.el.totalFrames =
      if refusesClipboard mem start stop then s.el.totalFrames else deleteTotal s start stop := by
  unfold veejayEditCut at h
  cases hempty : s.el.isEmpty with
  | true =>
    rw [if_pos hempty] at h
    obtain ⟨-, rfl⟩ := Prod.mk.inj (Except.ok.inj h)
    have hnot : ¬ Deletes s start stop := fun hd => Bool.false_ne_true (hd.1.symm.trans hempty)
    rw [deleteTotal, if_neg hnot, ite_self]
  | false =>
    rw [if_neg (by rw [hempty]; exact Bool.false_ne_true)] at h
    obtain ⟨⟨copied, s₁⟩, hcopy, hrest⟩ := bind_eq_ok.mp h
    obtain ⟨hel, hdummy, hres⟩ := veejayEditCopy_el hcopy
    have hres := hres hempty
    cases copied with
    | false =>
      obtain ⟨-, rfl⟩ := Prod.mk.inj (Except.ok.inj hrest)
      have hrefuses : refusesClipboard mem start stop = true := by
        rw [← Bool.not_eq_false]
        exact fun hgranted => Bool.false_ne_true (hres.mpr hgranted)
      rw [if_pos hrefuses]
      exact congrArg EditList.totalFrames hel
    | true =>
      rw [if_neg (by rw [hres.mp rfl]; exact Bool.false_ne_true)]
      obtain ⟨⟨deleted, s₂⟩, hdelete, hrest⟩ := bind_eq_ok.mp hrest
      have htotal := (veejayEditDelete_total hdelete).1
      have hiff : Deletes s₁ start stop ↔ Deletes s start stop := by
        rw [Deletes, Deletes, Edl.InRange, Edl.InRange, hel, hdummy]
      have hsame : deleteTotal s₁ start stop = deleteTotal s start stop := by
        rw [deleteTotal, deleteTotal, hel]
        exact if_congr hiff rfl rfl
      cases deleted with
      | false =>
        obtain ⟨-, rfl⟩ := Prod.mk.inj (Except.ok.inj hrest)
        exact htotal.trans hsame
      | true =>
        obtain ⟨-, rfl⟩ := Prod.mk.inj (Except.ok.inj hrest)
        exact htotal.trans hsame

theorem veejayEditPaste_total {destination : ℤ} (hdest : 0 ≤ destination)
    (hle : UInt64.ofInt destination ≤ s.el.totalFrames) (h : veejayEditPaste mem s destination = .ok (res, s')) :
    s'.el.totalFrames =
      if refusesPaste mem s then s.el.totalFrames else s.el.totalFrames + (s.settings.saveListLen - 1) := by
  unfold veejayEditPaste at h
  unfold refusesPaste
  by_cases hclip : s.settings.saveListLen = 0 ∨ s.settings.saveList.isNone = true
  · rw [if_pos hclip] at h
    obtain ⟨-, rfl⟩ := Prod.mk.inj (Except.ok.inj h)
    rw [if_pos]
    rcases hclip with hzero | hnone
    · rw [decide_eq_true hzero, Bool.true_or, Bool.true_or]
    · rw [hnone, Bool.or_true, Bool.true_or]
  · have hrange : ¬ (s.el.isEmpty = false ∧ (destination < 0 ∨ s.el.totalFrames < UInt64.ofInt destination)) := by
      rintro ⟨-, hneg | hlt⟩
      · omega
      · exact absurd hle (UInt64.not_le.mpr hlt)
    rw [if_neg hclip, if_neg hrange] at h
    obtain ⟨hlen, hlist⟩ := not_or.mp hclip
    rw [decide_eq_false hlen, Bool.eq_false_iff.mpr hlist, Bool.false_or, Bool.false_or]
    cases hmem : mem.realloc s.el.frameList ((keptFrames s + s.settings.saveListLen) * 8).toNat with
    | none =>
      simp only [hmem] at h
      obtain ⟨-, rfl⟩ := Prod.mk.inj (Except.ok.inj h)
      rfl
    | some frameList =>
      simp only [hmem] at h
      obtain ⟨opened, -, hrest⟩ := bind_eq_ok.mp h
      obtain ⟨filled, -, hrest⟩ := bind_eq_ok.mp hrest
      obtain ⟨-, rfl⟩ := Prod.mk.inj (Except.ok.inj hrest)
      rw [veejayIncreaseFrame_zero]
      rfl

end Edits

/-! ## Windows -/

/-- The sample sees the list as it is. -/
def Sees (st : State) : Prop :=
  ∃ el, st.sample.editList = some el ∧ el.totalFrames = st.session.el.totalFrames.toNat

section Windows

variable {st st' : State}

theorem windowValid_iff (h : Sees st) :
    WindowValid st.sample ↔ WindowIs st.sample st.session.el.totalFrames.toNat := by
  obtain ⟨el, hel, htotal⟩ := h
  constructor
  · rintro ⟨hfirst, ⟨el', hel', hlast⟩, -, hmarker, hresume⟩
    obtain rfl := Option.some.inj (hel.symm.trans hel')
    rw [htotal] at hlast
    rw [hfirst, hlast] at hresume
    refine ⟨hfirst, hlast, fun hactive => ?_, hresume⟩
    obtain ⟨-, hstart, -, hend⟩ := hmarker hactive
    rw [hlast] at hstart hend
    exact ⟨hstart, hend⟩
  · rintro ⟨hfirst, hlast, hmarker, hresume⟩
    refine ⟨hfirst, ⟨el, hel, hlast.trans htotal.symm⟩, ?_, fun hactive => ?_, ?_⟩
    · rw [hfirst, hlast]
      omega
    · obtain ⟨hstart, hend⟩ := hmarker hactive
      rw [hfirst, hlast]
      exact ⟨hactive.1, hstart, hactive.2.le, hend⟩
    · rw [hfirst, hlast]
      exact hresume

theorem Sees.withSession (h : Sees st) (session : Session) : Sees (st.withSession session) := by
  obtain ⟨el, hel, -⟩ := h
  refine ⟨{ el with
    totalFrames := session.el.totalFrames.toNat, hasVideo := session.el.hasVideo, isEmpty := session.el.isEmpty },
    ?_, rfl⟩
  show st.sample.editList.map _ = _
  rw [hel]
  rfl

/-- The first setter, for frame 0. -/
theorem startframe_zero {s : SampleInfo} {el : PlayList} (hel : s.editList = some el) (hlen : s.playLength = 0)
    (htotal : 0 ≤ el.totalFrames) :
    (sampleSetStartframe s 0).2 =
      { s with
        firstFrame := if 0 ≥ s.lastFrame then s.lastFrame - 1 else 0
        resumePos := if s.resumePos < 0 then 0 else s.resumePos } := by
  unfold sampleSetStartframe
  rw [if_neg (by omega), if_neg (by rw [hlen]; exact not_not_intro rfl)]
  simp only [hel, if_neg (not_lt.mpr htotal)]
  split_ifs <;> rfl

/-- **The setters make the window valid** in the cases of `Repairs`. -/
theorem repair_spec (h : Sees st) (husable : sampleUsableEdl st.sample = true)
    (hrepairs : Repairs st.sample st.session.el.totalFrames.toNat) :
    ∃ st', repair st = .ok st' ∧ Sees st' ∧ st'.session = st.session ∧
      WindowIs st'.sample st.session.el.totalFrames.toNat := by
  obtain ⟨el, hel, htotal⟩ := h
  obtain ⟨hlast, hint, hmarker⟩ := hrepairs
  have hlen : st.sample.playLength = 0 := by
    rw [sampleUsableEdl, Bool.and_eq_true] at husable
    exact of_decide_eq_true husable.1
  have hstart := startframe_zero hel hlen (by omega)
  rw [if_neg (by omega)] at hstart
  have hlength : sampleVideoLength (sampleSetStartframe st.sample 0).2 = el.totalFrames := by
    rw [hstart, sampleVideoLength]
    dsimp only
    rw [if_neg (not_not_intro hlen), hel]
    exact int32_toInt_ofInt (by omega) (by omega)
  unfold repair
  dsimp only
  rw [hlength, hstart]
  unfold sampleSetEndframe
  rw [if_neg (by omega), if_neg (not_not_intro hlen)]
  simp only [hel, lt_irrefl, gt_iff_lt, if_false, ok_bind]
  refine ⟨_, rfl, ⟨el, ?_, htotal⟩, rfl, ?_⟩
  · split_ifs <;> rfl
  · unfold WindowIs MarkerActive at *
    split_ifs <;> dsimp only at * <;> refine ⟨rfl, htotal, hmarker, ?_⟩ <;> omega

/-- A command that does not come to edit. -/
theorem unedited_valid (h : Sees st) (hwindow : WindowIs st.sample st.session.el.totalFrames.toNat)
    (hrun : (.ok st : Exec State) = .ok st') : Sees st' ∧ WindowValid st'.sample := by
  obtain rfl := Except.ok.inj hrun
  exact ⟨h, (windowValid_iff h).mpr hwindow⟩

/-- A command that edits the list and then sets the window. -/
theorem repaired_valid (h : Sees st) (husable : sampleUsableEdl st.sample = true)
    (hrepairs : Repairs st.sample st.session.el.totalFrames.toNat) (hrun : repair st = .ok st') :
    Sees st' ∧ WindowValid st'.sample := by
  obtain ⟨st₁, hok, hsees, hsession, hwindow⟩ := repair_spec h husable hrepairs
  obtain rfl := Except.ok.inj (hok.symm.trans hrun)
  rw [← hsession] at hwindow
  exact ⟨hsees, (windowValid_iff hsees).mpr hwindow⟩

theorem usable_withSession (session : Session) :
    sampleUsableEdl (st.withSession session).sample = sampleUsableEdl st.sample := by
  unfold sampleUsableEdl State.withSession
  rw [Option.isSome_map]

/-- A check of a handler: where it stops, the window is valid before. -/
theorem guarded_valid {p : Prop} [Decidable p] {rest : Exec State} (h : Sees st)
    (hstops : p → WindowIs st.sample st.session.el.totalFrames.toNat)
    (hgoes : ¬p → rest = .ok st' → Sees st' ∧ WindowValid st'.sample)
    (hrun : (if p then (.ok st : Exec State) else rest) = .ok st') : Sees st' ∧ WindowValid st'.sample := by
  by_cases hp : p
  · rw [if_pos hp] at hrun
    exact unedited_valid h (hstops hp) hrun
  · rw [if_neg hp] at hrun
    exact hgoes hp hrun

theorem outOfBounds_false {el : EditList} {n : Int32} (h : outOfBounds el n = false) :
    0 ≤ n.toInt ∧ (UInt64.ofInt n.toInt).toNat = n.toInt.toNat ∧ n.toInt ≤ el.totalFrames.toNat := by
  obtain ⟨hneg, hlt⟩ := Bool.or_eq_false_iff.mp h
  have hneg := of_decide_eq_false hneg
  have hlt := of_decide_eq_false hlt
  have hmax := n.toInt_lt
  have hnat : (UInt64.ofInt n.toInt).toNat = n.toInt.toNat :=
    uint64_toNat_ofInt_of_nonneg (by omega) (by omega)
  rw [UInt64.lt_iff_toNat_lt, hnat] at hlt
  exact ⟨by omega, hnat, by omega⟩

/-- The handlers for a range of frames. -/
theorem onRange_valid {edit : Session → Exec (Bool × Session)} {a b : Int32} {total : UInt64} (h : Sees st)
    (hedit : ∀ r s', edit st.session = .ok (r, s') → s'.el.totalFrames = total)
    (hrefused : ¬ (st.samplePlaying = true ∧ sampleUsableEdl st.sample = true ∧
      outOfBounds st.session.el a = false ∧ outOfBounds st.session.el b = false) →
        WindowIs st.sample st.session.el.totalFrames.toNat)
    (hrepaired : st.samplePlaying = true ∧ sampleUsableEdl st.sample = true ∧
      outOfBounds st.session.el a = false ∧ outOfBounds st.session.el b = false → Repairs st.sample total.toNat)
    (hrun : onRange edit a b st = .ok st') : Sees st' ∧ WindowValid st'.sample := by
  refine guarded_valid h (fun hplaying => hrefused fun hedits => ?_) (fun hplaying hrun => ?_) hrun
  · exact Bool.false_ne_true (hplaying.symm.trans hedits.1)
  refine guarded_valid h (fun husable => hrefused fun hedits => ?_) (fun husable hrun => ?_) hrun
  · exact Bool.false_ne_true (husable.symm.trans hedits.2.1)
  refine guarded_valid h (fun hout => hrefused fun hedits => ?_) (fun hin hrun => ?_) hrun
  · rw [hedits.2.2.1, hedits.2.2.2] at hout
    cases hout
  obtain ⟨ha, hb⟩ := Bool.or_eq_false_iff.mp (Bool.not_eq_true _ ▸ hin)
  have husable := Bool.eq_true_of_not_eq_false husable
  obtain ⟨⟨r, s'⟩, hs', hrest⟩ := bind_eq_ok.mp hrun
  have htotal := hedit r s' hs'
  have hrepairs := hrepaired ⟨Bool.eq_true_of_not_eq_false hplaying, husable, ha, hb⟩
  rw [← htotal] at hrepairs
  exact repaired_valid (h.withSession s') ((usable_withSession s').trans husable) hrepairs hrest

theorem pasteAt_valid {mem : Allocator} {a : Int32} (h : Sees st) (hfits : Fits st (.pasteAt mem a))
    (hrun : vjEventElPasteAt mem a st = .ok st') : Sees st' ∧ WindowValid st'.sample := by
  refine guarded_valid h (fun hother => hfits.refused fun hedits => ?_) (fun hother hrun => ?_) hrun
  · exact Bool.false_ne_true (hedits.2.2.1.symm.trans hother)
  refine guarded_valid h (fun hplaying => hfits.refused fun hedits => ?_) (fun hplaying hrun => ?_) hrun
  · exact Bool.false_ne_true (hplaying.symm.trans hedits.1)
  refine guarded_valid h (fun husable => hfits.refused fun hedits => ?_) (fun husable hrun => ?_) hrun
  · exact Bool.false_ne_true (husable.symm.trans hedits.2.1)
  refine guarded_valid h (fun hout => hfits.refused fun hedits => ?_) (fun hin hrun => ?_) hrun
  · exact Bool.false_ne_true (hedits.2.2.2.symm.trans hout)
  have hin := Bool.eq_false_iff.mpr hin
  have husable := Bool.eq_true_of_not_eq_false husable
  obtain ⟨hpos, hnat, hle⟩ := outOfBounds_false hin
  obtain ⟨⟨r, s'⟩, hs', hrest⟩ := bind_eq_ok.mp hrun
  have htotal := veejayEditPaste_total hpos (by rw [UInt64.le_iff_toNat_le, hnat]; omega) hs'
  have hedits : Edits st (.pasteAt mem a) :=
    ⟨Bool.eq_true_of_not_eq_false hplaying, husable, Bool.eq_false_iff.mpr hother, hin⟩
  have hrepairs := hfits.repaired hedits fun hno => hno
  rw [ElCommand.total, ← htotal] at hrepairs
  exact repaired_valid (h.withSession s') ((usable_withSession s').trans husable) hrepairs hrest

end Windows

/-! ## The crop -/

section Crop

variable {st st' : State} {a b : Int32}

/-- The frame that is set leaves the positions of the sample. -/
theorem setFrame_sample (framenum : ℤ) (st : State) :
    (setFrame framenum st).sample = { st.sample with dups := 0 } ∨ (setFrame framenum st).sample = st.sample :=
  ite_eq_or_eq _ _ _

/-- The first part of a crop, up to a frame before the last one. -/
theorem front_deletes {s : Session} (hempty : s.el.isEmpty = false) (hdummy : s.dummyActive = false)
    (ha : outOfBounds s.el a = false) (hb : outOfBounds s.el b = false) (hlt : a.toInt < b.toInt) :
    Deletes s 0 a.toInt ∧ (deleteTotal s 0 a.toInt).toNat = s.el.totalFrames.toNat - (a.toInt.toNat + 1) := by
  obtain ⟨hpos, hnat, hle⟩ := outOfBounds_false ha
  obtain ⟨hposb, -, hleb⟩ := outOfBounds_false hb
  have hzero : (UInt64.ofInt 0).toNat = 0 := rfl
  have hdeletes : Deletes s 0 a.toInt := by
    refine ⟨hempty, hdummy, ?_, ?_⟩
    · rw [UInt64.le_iff_toNat_le, hzero]
      exact Nat.zero_le _
    · rw [UInt64.le_iff_toNat_le, hnat]
      omega
  refine ⟨hdeletes, ?_⟩
  have hgap : (UInt64.ofInt a.toInt - UInt64.ofInt 0).toNat = a.toInt.toNat := by
    rw [uint64_toNat_sub_of_le (by rw [hzero]; exact Nat.zero_le _), hnat, hzero, Nat.sub_zero]
  have hone : (UInt64.ofInt a.toInt - UInt64.ofInt 0 + 1).toNat = a.toInt.toNat + 1 := by
    have hmax := a.toInt_lt
    rw [uint64_toNat_add_of_lt (by rw [hgap, UInt64.toNat_one]; omega), hgap, UInt64.toNat_one]
  rw [deleteTotal, if_pos hdeletes, uint64_toNat_sub_of_le (by rw [hone]; omega), hone]

/-- The second part, up to the last frame: it is refused if nothing is left of it. -/
theorem back_deletes {s : Session} {n : ℤ} (hempty : s.el.isEmpty = false) (hdummy : s.dummyActive = false)
    (hpos : 0 < n) (hmax : n < 2 ^ 31) :
    (Deletes s n s.el.totalFrames.toInt64.toInt ↔ n ≤ s.el.totalFrames.toNat) ∧
      (n ≤ s.el.totalFrames.toNat → deleteTotal s n s.el.totalFrames.toInt64.toInt = UInt64.ofInt (n - 1)) := by
  have hsame : UInt64.ofInt s.el.totalFrames.toInt64.toInt = s.el.totalFrames := uint64_ofInt_toInt64 _
  have hnat : (UInt64.ofInt n).toNat = n.toNat := uint64_toNat_ofInt_of_nonneg (by omega) (by omega)
  have hiff : Deletes s n s.el.totalFrames.toInt64.toInt ↔ n ≤ s.el.totalFrames.toNat := by
    rw [Deletes, Edl.InRange, hsame, UInt64.le_iff_toNat_le, hnat]
    constructor
    · rintro ⟨-, -, hle, -⟩
      omega
    · exact fun hle => ⟨hempty, hdummy, by omega, UInt64.le_refl _⟩
  refine ⟨hiff, fun hle => ?_⟩
  have hgap : (s.el.totalFrames - UInt64.ofInt n).toNat = s.el.totalFrames.toNat - n.toNat := by
    rw [uint64_toNat_sub_of_le (by rw [hnat]; omega), hnat]
  have hone : (s.el.totalFrames - UInt64.ofInt n + 1).toNat = s.el.totalFrames.toNat - n.toNat + 1 := by
    have hlt := s.el.totalFrames.toNat_lt
    rw [uint64_toNat_add_of_lt (by rw [hgap, UInt64.toNat_one]; omega), hgap, UInt64.toNat_one]
  rw [deleteTotal, if_pos (hiff.mpr hle), hsame]
  apply UInt64.toNat_inj.mp
  rw [uint64_toNat_sub_of_le (by rw [hone]; omega), hone, uint64_toNat_ofInt_of_nonneg (by omega) (by omega)]
  omega

theorem crop_valid (h : Sees st) (hfits : Fits st (.crop a b)) (hrun : vjEventElCrop a b st = .ok st') :
    Sees st' ∧ WindowValid st'.sample := by
  refine guarded_valid h (fun hother => hfits.refused fun hedits => ?_) (fun hother hrun => ?_) hrun
  · exact Bool.false_ne_true (hedits.2.2.1.symm.trans hother)
  refine guarded_valid h (fun hplaying => hfits.refused fun hedits => ?_) (fun hplaying hrun => ?_) hrun
  · exact Bool.false_ne_true (hplaying.symm.trans hedits.1)
  refine guarded_valid h (fun husable => hfits.refused fun hedits => ?_) (fun husable hrun => ?_) hrun
  · exact Bool.false_ne_true (husable.symm.trans hedits.2.1)
  refine guarded_valid h (fun hout => hfits.refused fun hedits => ?_) (fun hin hrun => ?_) hrun
  · rw [hedits.2.2.2.1, hedits.2.2.2.2.1] at hout
    cases hout
  refine guarded_valid h (fun hle => hfits.refused fun hedits => ?_) (fun hlt hrun => ?_) hrun
  · exact absurd hedits.2.2.2.2.2.1 (by omega)
  obtain ⟨ha, hb⟩ := Bool.or_eq_false_iff.mp (Bool.not_eq_true _ ▸ hin)
  have hlt := not_le.mp hlt
  obtain ⟨⟨cropped, s₁⟩, hfront, hrun⟩ := bind_eq_ok.mp hrun
  obtain ⟨htotal₁, hcropped, hempty₁, hdummy₁⟩ := veejayEditDelete_total hfront
  cases cropped with
  | false =>
    -- nothing is deleted from an empty list, and none from that of a dummy
    have hnot : ¬ Deletes st.session 0 a.toInt := fun hd => Bool.false_ne_true (hcropped.mpr hd)
    have hwindow : WindowIs st.sample st.session.el.totalFrames.toNat := by
      refine hfits.refused fun hedits => hnot ?_
      obtain ⟨-, -, -, -, -, -, hempty, hdummy⟩ := hedits
      exact (front_deletes hempty hdummy ha hb hlt).1
    rw [deleteTotal, if_neg hnot] at htotal₁
    rw [← htotal₁] at hwindow
    exact unedited_valid (h.withSession s₁) hwindow hrun
  | true =>
    obtain ⟨hempty, hdummy, -⟩ := hcropped.mp rfl
    have hedits : Edits st (.crop a b) :=
      ⟨Bool.eq_true_of_not_eq_false hplaying, Bool.eq_true_of_not_eq_false husable, Bool.eq_false_iff.mpr hother,
        ha, hb, hlt, hempty, hdummy⟩
    have hfronts := (front_deletes hempty hdummy ha hb hlt).2
    rw [← htotal₁] at hfronts
    obtain ⟨hpos, hnat, hle⟩ := outOfBounds_false ha
    obtain ⟨-, hnatb, hleb⟩ := outOfBounds_false hb
    have hmaxb := b.toInt_lt
    obtain ⟨hiff, hleft⟩ := back_deletes (hempty₁.trans hempty) (hdummy₁.trans hdummy)
      (show 0 < b.toInt - a.toInt by omega) (by omega)
    obtain ⟨⟨back, s₂⟩, hback, hrun⟩ := bind_eq_ok.mp hrun
    obtain ⟨htotal₂, hdone, -, -⟩ := veejayEditDelete_total hback
    cases back with
    | false =>
      have hnot : ¬ Deletes s₁ (b.toInt - a.toInt) s₁.el.totalFrames.toInt64.toInt :=
        fun hd => Bool.false_ne_true (hdone.mpr hd)
      have hlastb : UInt64.ofInt b.toInt = st.session.el.totalFrames := by
        apply UInt64.toNat_inj.mp
        rw [hiff] at hnot
        omega
      have hwindow := hfits.left hedits hlastb
      rw [ElCommand.total, if_pos hlastb, ← htotal₁] at hwindow
      rw [deleteTotal, if_neg hnot] at htotal₂
      rw [← htotal₂] at hwindow
      exact unedited_valid (h.withSession s₂) hwindow hrun
    | true =>
      have hle₁ := hiff.mp (hdone.mp rfl)
      have hnot : UInt64.ofInt b.toInt ≠ st.session.el.totalFrames := by
        intro heq
        have hnat := congrArg UInt64.toNat heq
        omega
      have hrepairs := hfits.repaired hedits hnot
      rw [ElCommand.total, if_neg hnot, ← hleft hle₁, ← htotal₂] at hrepairs
      have husable₂ := (usable_withSession s₂).trans (Bool.eq_true_of_not_eq_false husable)
      have hsees : Sees (setFrame 0 (st.withSession s₂)) ∧
          sampleUsableEdl (setFrame 0 (st.withSession s₂)).sample = true ∧
          Repairs (setFrame 0 (st.withSession s₂)).sample s₂.el.totalFrames.toNat := by
        rw [Sees]
        rcases setFrame_sample 0 (st.withSession s₂) with hs | hs
        · rw [hs]
          exact ⟨h.withSession s₂, husable₂, hrepairs⟩
        · rw [hs]
          exact ⟨h.withSession s₂, husable₂, hrepairs⟩
      exact repaired_valid hsees.1 hsees.2.1 hsees.2.2 hrun

end Crop

/-! ## Runs of commands -/

/-- One command keeps the window valid. -/
theorem elStep_valid {st st' : State} {r : Unit} {c : ElCommand} (h : Sees st) (hfits : Fits st c)
    (hstep : elStep st c = .ok (r, st')) : Sees st' ∧ WindowValid st'.sample := by
  obtain ⟨st₁, hrun, hret⟩ := bind_eq_ok.mp hstep
  obtain rfl := (Prod.mk.inj (Except.ok.inj hret)).2
  cases c with
  | cut mem a b =>
    have hrun : vjEventElCut mem a b st = .ok st₁ := hrun
    refine onRange_valid h (fun _ _ hcut => veejayEditCut_total hcut) hfits.refused (fun hedits => ?_) hrun
    exact hfits.repaired hedits fun hno => hno
  | copy mem a b =>
    have hrun : vjEventElCopy mem a b st = .ok st₁ := hrun
    refine onRange_valid h (fun _ _ hcopy => congrArg EditList.totalFrames (veejayEditCopy_el hcopy).1) hfits.refused
      (fun hedits => ?_) hrun
    exact hfits.repaired hedits fun hno => hno
  | del a b =>
    have hrun : vjEventElDel a b st = .ok st₁ := hrun
    refine onRange_valid h (fun _ _ hdel => (veejayEditDelete_total hdel).1) hfits.refused (fun hedits => ?_) hrun
    exact hfits.repaired hedits fun hno => hno
  | crop a b => exact crop_valid h hfits hrun
  | pasteAt mem a => exact pasteAt_valid h hfits hrun

/-- **Edit commands keep the window valid**, in every run whose commands fit: after each command that comes back. -/
theorem window_valid_after {st : State} {commands : List ElCommand} (h : Sees st)
    (hfits : RunMeets elStep Fits st commands) :
    ∀ done, done ≠ [] → done <+: commands → ∀ a, runOps elStep st done = .ok a → WindowValid a.2.sample :=
  runOps_reaches (fun _ _ _ _ hsees hfits hstep => elStep_valid hsees hfits hstep) commands st h hfits

/-- A sample that plays all of a list of entries. -/
def playingAll (edl : List UInt64) : State where
  sample :=
    { firstFrame := 0
      lastFrame := edl.length - 1
      resumePos := 0
      markerStart := 0
      markerEnd := 0
      speed := 1
      looptype := 1
      dup := 0
      dups := 0
      loopDec := 0
      loopcount := 0
      playLength := 0
      editList := some ⟨edl.length - 1, true, false, 0⟩ }
  session := sessionOver edl []
  samplePlaying := true
  otherPlaying := false

/-- One frame of five is deleted, and another one copied. -/
theorem window_valid_after_del :
    ∃ a, runOps elStep (playingAll [1, 2, 3, 4, 5]) [.del 1 1, .copy plentyOfMemory 0 0] = .ok a ∧
      WindowValid a.2.sample := by
  refine ⟨_, rfl, @window_valid_after (playingAll [1, 2, 3, 4, 5]) [.del 1 1, .copy plentyOfMemory 0 0] ⟨_, rfl, rfl⟩
    (RunMeets.cons ⟨?_, ?_, ?_⟩ rfl (RunMeets.cons ⟨?_, ?_, ?_⟩ rfl trivial)) _ (List.cons_ne_nil _ _)
    (List.prefix_refl _) _ rfl⟩
  · exact fun hno => absurd ⟨rfl, rfl, rfl, rfl⟩ hno
  · exact fun _ hno => absurd hno id
  · exact fun _ _ => ⟨by decide, by decide, fun hactive => absurd hactive (by decide)⟩
  · exact fun hno => absurd ⟨rfl, rfl, rfl, rfl⟩ hno
  · exact fun _ hno => absurd hno id
  · exact fun _ _ => ⟨by decide, by decide, fun hactive => absurd hactive (by decide)⟩

/-- All frames of five but the first are deleted, and that one is copied: the sample starts at frame -1. -/
theorem one_frame_left :
    Sees (playingAll [1, 2, 3, 4, 5]) ∧ WindowValid (playingAll [1, 2, 3, 4, 5]).sample ∧
      ∃ a, runOps elStep (playingAll [1, 2, 3, 4, 5]) [.del 1 4, .copy plentyOfMemory 0 0] = .ok a ∧
        a.2.sample.firstFrame = -1 ∧ ¬ WindowValid a.2.sample := by
  refine ⟨⟨_, rfl, rfl⟩, (windowValid_iff ⟨_, rfl, rfl⟩).mpr ⟨rfl, rfl, ?_, by decide, by decide⟩, _, rfl, rfl, ?_⟩
  · exact fun hactive => absurd hactive (by decide)
  · exact fun hvalid => absurd hvalid.first (by decide)

end Veejay.SampleEdits
