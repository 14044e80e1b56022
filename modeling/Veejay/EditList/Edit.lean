import Veejay.CLib.Loop
import Veejay.EditList.OpenVideo

/-!
# The edit commands

The six operations of `liblavplayvj.c` that change an edit list or the clipboard.  Frame numbers come
in as `long` and are compared as `uint64_t`; the play window is kept in three `int`s and is compared
with them in `uint64_t` arithmetic.

* `veejayEditCopy`, `veejayEditDelete`, `veejayEditCut`, `veejayEditPaste`, `veejayEditMove`,
  `veejayEditAddmovie` — the operations; the Boolean is their return value;
* `applyEdit` — one command of a client, with the memory and the movie files it meets.

Stopping the player also writes recovery files; they are not part of the state described here.
-/

namespace Veejay.Edl

open CLib

/-- `veejay_change_state_save(info, LAVPLAY_STATE_STOP)`. -/
def Session.stopped (s : Session) : Session :=
  { s with settings := { s.settings with state := .stop } }

/-! ## Copying to the clipboard -/

/-- The variables of the loop of `veejay_edit_copy`. -/
structure CopyLoop where
  i : UInt64
  k : UInt64
  saveList : Option (Block UInt64)

/-- `save_list[k++] = frame_list[i]; i++` -/
def copyStep (frameList : Option (Block UInt64)) (s : CopyLoop) : Exec CopyLoop := do
  let entry ← Block.loadAt frameList s.i.toNat
  let saveList ← Block.storeAt s.saveList s.k.toNat entry
  .ok ⟨s.i + 1, s.k + 1, saveList⟩

/-- `for (i = n1; i <= n2; i++)` -/
def copyFrames (frameList : Option (Block UInt64)) (n1 n2 : UInt64) (saveList : Block UInt64) :
    Exec CopyLoop :=
  whileLoop (fun s => decide (s.i ≤ n2)) (copyStep frameList)
    (n2.toNat + 1 - n1.toNat) ⟨n1, 0, some saveList⟩

/-- The session with a new clipboard. -/
def Session.copied (s : Session) (saveList : Option (Block UInt64)) (saveListLen : UInt64) : Session :=
  { s with settings := { s.settings with saveList, saveListLen } }

/-- The session whose clipboard could not be allocated: its length is that of the old one. -/
def Session.clipboardLost (s : Session) : Session :=
  ({ s with settings := { s.settings with saveList := none } } : Session).stopped

/-- `veejay_edit_copy`. -/
def veejayEditCopy (mem : Allocator) (s : Session) (start stop : ℤ) : Exec (Bool × Session) :=
  if s.el.isEmpty then .ok (false, s)
  else
    let n1 := UInt64.ofInt start
    let n2 := UInt64.ofInt stop
    match mem.calloc 0 ((n2 - n1 + 1) * 8).toNat with
    | none => .ok (false, s.clipboardLost)
    | some saveList => do
        let loop ← copyFrames s.el.frameList n1 n2 saveList
        .ok (true, s.copied loop.saveList loop.k)

/-! ## Deleting frames -/

/-- The variables of a loop that moves entries within the array. -/
structure MoveLoop where
  i : UInt64
  frameList : Option (Block UInt64)

/-- `frame_list[i - (n2 - n1 + 1)] = frame_list[i]; i++` -/
def closeStep (n1 n2 : UInt64) (s : MoveLoop) : Exec MoveLoop := do
  let entry ← Block.loadAt s.frameList s.i.toNat
  let frameList ← Block.storeAt s.frameList (s.i - (n2 - n1 + 1)).toNat entry
  .ok ⟨s.i + 1, frameList⟩

/-- `for (i = n2 + 1; i < video_frames; i++)` -/
def closeGap (videoFrames : Int64) (n1 n2 : UInt64) (frameList : Option (Block UInt64)) :
    Exec MoveLoop :=
  whileLoop (fun s => decide (s.i < videoFrames.toUInt64)) (closeStep n1 n2)
    (videoFrames.toUInt64.toNat - (n2 + 1).toNat) ⟨n2 + 1, frameList⟩

/-- What deleting `n1 .. n2` does to `min_frame_num`. -/
def minAfterDelete (n1 n2 : UInt64) (minFrameNum : Int32) : Int32 :=
  if n1 - 1 < widen minFrameNum then
    if n2 < widen minFrameNum then narrow (widen minFrameNum - (n2 - n1 + 1)) else narrow n1
  else minFrameNum

/-- What deleting `n1 .. n2` does to `max_frame_num`. -/
def maxAfterDelete (n1 n2 : UInt64) (maxFrameNum : Int32) : Int32 :=
  if n1 - 1 < widen maxFrameNum then
    if n2 ≤ widen maxFrameNum then narrow (widen maxFrameNum - (n2 - n1 + 1)) else narrow (n1 - 1)
  else maxFrameNum

/-- What deleting `n1 .. n2` does to `current_frame_num`. -/
def currentAfterDelete (n1 n2 : UInt64) (currentFrameNum : Int32) : Int32 :=
  if n1 ≤ widen currentFrameNum then
    if widen currentFrameNum ≤ n2 then narrow n1
    else narrow (widen currentFrameNum - (n2 - n1 + 1))
  else currentFrameNum

/-- The session after the entries `n1 .. n2` have been removed from the array. -/
def Session.deleted (s : Session) (n1 n2 : UInt64) (frameList : Option (Block UInt64)) : Session :=
  { s with
    settings := { s.settings with
      minFrameNum := minAfterDelete n1 n2 s.settings.minFrameNum
      maxFrameNum := maxAfterDelete n1 n2 s.settings.maxFrameNum
      currentFrameNum := currentAfterDelete n1 n2 s.settings.currentFrameNum }
    el := { s.el with
      frameList
      videoFrames := (s.el.videoFrames.toUInt64 - (n2 - n1 + 1)).toInt64
      totalFrames := s.el.totalFrames - (n2 - n1 + 1) } }

/-- `veejay_edit_delete`. -/
def veejayEditDelete (s : Session) (start stop : ℤ) : Exec (Bool × Session) :=
  if s.el.isEmpty then .ok (false, s)
  else if s.dummyActive then .ok (false, s)
  else
    let n1 := UInt64.ofInt start
    let n2 := UInt64.ofInt stop
    if n2 < n1 ∨ s.el.totalFrames < n1 ∨ s.el.totalFrames < n2 then .ok (false, s)
    else do
      let loop ← closeGap s.el.videoFrames n1 n2 s.el.frameList
      .ok (true, s.deleted n1 n2 loop.frameList)

/-- `veejay_edit_cut`. -/
def veejayEditCut (mem : Allocator) (s : Session) (start stop : ℤ) : Exec (Bool × Session) :=
  if s.el.isEmpty then .ok (false, s)
  else do
    let copied ← veejayEditCopy mem s start stop
    if copied.1 = false then .ok (false, copied.2)
    else
      let deleted ← veejayEditDelete copied.2 start stop
      if deleted.1 = false then .ok (false, deleted.2) else .ok (true, deleted.2)

/-! ## Pasting the clipboard -/

/-- `veejay_increase_frame`. -/
def veejayIncreaseFrame (num : ℤ) (s : Session) : Session :=
  let frame := s.settings.currentFrameNum.toInt + num
  let refused : Bool :=
    match s.playbackMode with
    | .plain =>
        decide (frame < s.settings.minFrameNum.toInt ∨ s.settings.maxFrameNum.toInt < frame)
    | .sample startFrame endFrame => decide (frame < startFrame ∨ endFrame < frame)
    | .tag => false
  if refused then s
  else { s with settings := { s.settings with currentFrameNum := Int32.ofInt frame } }

/-- Asking for no frames changes nothing: an `int` keeps its value. -/
@[simp] theorem veejayIncreaseFrame_zero (s : Session) : veejayIncreaseFrame 0 s = s := by
  unfold veejayIncreaseFrame
  dsimp only
  split_ifs
  · rfl
  · rw [add_zero, Int32.ofInt_toInt]

/-- `frame_list[i + k] = frame_list[i]; i--` -/
def openStep (k : UInt64) (s : MoveLoop) : Exec MoveLoop := do
  let entry ← Block.loadAt s.frameList s.i.toNat
  let frameList ← Block.storeAt s.frameList (s.i + k).toNat entry
  .ok ⟨s.i - 1, frameList⟩

/-- `for (i = total_frames; i >= destination && i > 0; i--)` -/
def openGap (totalFrames destination k : UInt64) (frameList : Block UInt64) : Exec MoveLoop :=
  whileLoop (fun s => decide (destination ≤ s.i ∧ 0 < s.i)) (openStep k)
    totalFrames.toNat ⟨totalFrames, some frameList⟩

/-- The variables of the second loop of `veejay_edit_paste`. -/
structure FillLoop where
  i : UInt64
  k : UInt64
  minFrameNum : Int32
  maxFrameNum : Int32
  frameList : Option (Block UInt64)

/-- `if (below) bound++` -/
def raise (below : Bool) (bound : Int32) : Exec Int32 :=
  if below then int32Inc bound else .ok bound

/-- One pasted frame, which also moves the play window. -/
def fillStep (saveList : Option (Block UInt64)) (s : FillLoop) : Exec FillLoop := do
  let minFrameNum ← raise (s.k ≤ widen s.minFrameNum) s.minFrameNum
  let maxFrameNum ← raise (s.k < widen s.maxFrameNum) s.maxFrameNum
  let entry ← Block.loadAt saveList s.i.toNat
  let frameList ← Block.storeAt s.frameList s.k.toNat entry
  .ok ⟨s.i + 1, s.k + 1, minFrameNum, maxFrameNum, frameList⟩

/-- `for (i = 0; i < save_list_len; i++)` -/
def fillGap (settings : Settings) (destination : UInt64) (frameList : Option (Block UInt64)) :
    Exec FillLoop :=
  whileLoop (fun s => decide (s.i < settings.saveListLen)) (fillStep settings.saveList)
    settings.saveListLen.toNat
    ⟨0, destination, settings.minFrameNum, settings.maxFrameNum, frameList⟩

/-- The session after the clipboard has been written into the array. -/
def Session.pasted (s : Session) (loop : FillLoop) : Session :=
  { s with
    settings := { s.settings with
      minFrameNum := loop.minFrameNum
      maxFrameNum := loop.maxFrameNum }
    el := { s.el with
      frameList := loop.frameList
      videoFrames := (s.el.videoFrames.toUInt64 + s.settings.saveListLen).toInt64
      totalFrames := s.el.totalFrames + (s.settings.saveListLen - 1)
      isEmpty := false } }

/-- `veejay_edit_paste` once the array has been resized. -/
def pasteInto (s : Session) (dest : UInt64) (frameList : Block UInt64) : Exec (Bool × Session) := do
  let opened ← openGap s.el.totalFrames dest s.settings.saveListLen frameList
  let filled ← fillGap s.settings dest opened.frameList
  .ok (true, veejayIncreaseFrame 0 (s.pasted filled))

/-- `if (el->is_empty) destination = 0;` -/
def pasteDest (s : Session) (destination : ℤ) : UInt64 :=
  if s.el.isEmpty then 0 else UInt64.ofInt destination

/-- `(el->is_empty ? 0 : el->video_frames)` -/
def keptFrames (s : Session) : UInt64 := if s.el.isEmpty then 0 else s.el.videoFrames.toUInt64

/-- The session whose array could not be resized. -/
def Session.arrayLost (s : Session) : Session :=
  ({ s with el := { s.el with frameList := none } } : Session).stopped

/-- `veejay_edit_paste`. -/
def veejayEditPaste (mem : Allocator) (s : Session) (destination : ℤ) : Exec (Bool × Session) :=
  if s.settings.saveListLen = 0 ∨ s.settings.saveList.isNone then .ok (false, s)
  else if s.el.isEmpty = false ∧
      (destination < 0 ∨ s.el.totalFrames < UInt64.ofInt destination) then .ok (false, s)
  else
    match mem.realloc s.el.frameList ((keptFrames s + s.settings.saveListLen) * 8).toNat with
    | none => .ok (false, s.arrayLost)
    | some frameList => pasteInto s (pasteDest s destination) frameList

/-! ## Moving frames and adding a movie -/

/-- Where a moved range is pasted, after it has been cut out. -/
def destReal (start stop destination : ℤ) : ℤ :=
  if destination < start then destination
  else if stop < destination then destination - (stop - start + 1)
  else start

/-- `veejay_edit_move`. -/
def veejayEditMove (mem : Allocator) (s : Session) (start stop destination : ℤ) :
    Exec (Bool × Session) :=
  if s.el.isEmpty then .ok (false, s)
  else if s.el.totalFrames < UInt64.ofInt destination ∨ destination < 0 ∨ start < 0 ∨ stop < 0 ∨
      s.el.totalFrames ≤ UInt64.ofInt start ∨ s.el.totalFrames < UInt64.ofInt stop ∨ stop < start then
    .ok (false, s)
  else do
    let moved ← veejayEditCut mem s start stop
    if moved.1 = false then .ok (false, moved.2)
    else
      let pasted ← veejayEditPaste mem moved.2 (destReal start stop destination)
      if pasted.1 = false then .ok (false, pasted.2) else .ok (true, pasted.2)

/-- The variables of the loop of `veejay_edit_addmovie`. -/
structure AppendLoop where
  i : UInt64
  c : UInt64
  frameList : Option (Block UInt64)

/-- `frame_list[c++] = EL_ENTRY(n, i); i++` -/
def appendStep (n : ℕ) (s : AppendLoop) : Exec AppendLoop := do
  let frameList ← Block.storeAt s.frameList s.c.toNat (some (elEntry (UInt64.ofNat n) s.i))
  .ok ⟨s.i + 1, s.c + 1, frameList⟩

/-- `for (i = 0; i < num_frames[n]; i++)` -/
def appendFrames (n : ℕ) (numFrames : Int64) (c : UInt64) (frameList : Block UInt64) :
    Exec AppendLoop :=
  whileLoop (fun s => decide (s.i < numFrames.toUInt64)) (appendStep n)
    numFrames.toUInt64.toNat ⟨0, c, some frameList⟩

/-- `vj_el_free`: nothing of the record may be used any more. -/
def vjElFree (el : EditList) : EditList := { el with frameList := none, freed := true }

/-- The session after the frames of a new movie have been appended to the array. -/
def Session.appended (s : Session) (el : EditList) (loop : AppendLoop) : Session :=
  { s with
    settings := { s.settings with maxFrameNum := narrow el.totalFrames, minFrameNum := 0 }
    el := { el with
      frameList := loop.frameList
      videoFrames := loop.c.toInt64 } }

/-- `c = el->video_frames; if (el->is_empty) c -= 2;` -/
def appendStart (s : Session) : UInt64 :=
  if s.el.isEmpty then s.el.videoFrames.toUInt64 - 2 else s.el.videoFrames.toUInt64

/-- `veejay_edit_addmovie`. -/
def veejayEditAddmovie (mem : Allocator) (lib : MediaLib) (s : Session) (movie : CStr) :
    Exec (Bool × Session) := do
  let c := appendStart s
  let n := s.el.numVideoFiles
  let opened ← openVideoFile lib s.flags movie s.el
  let el := opened.2
  if opened.1 < 0 then .ok (false, { s with el })
  else
    let cells ← int64Add el.videoFrames (el.numFrames n)
    match mem.realloc el.frameList (cells.toUInt64 * 8).toNat with
    | none => .ok (false, { s with el := vjElFree el })
    | some frameList => do
        let loop ← appendFrames n (el.numFrames n) c frameList
        .ok (true, s.appended el loop)

/-! ## Commands -/

/-- The edit operations with their arguments, which are of type `long`. -/
inductive EditOp where
  | copy (start stop : Int64)
  | cut (start stop : Int64)
  | delete (start stop : Int64)
  | paste (destination : Int64)
  | move (start stop destination : Int64)
  | addmovie (movie : CStr)

/-- One command of a client, with the memory and the movie files it meets. -/
structure Command where
  op : EditOp
  mem : Allocator
  lib : MediaLib

/-- Run one command.  Every operation reads the edit list first of all. -/
def applyEdit (s : Session) (c : Command) : Exec (Bool × Session) :=
  if s.el.freed then .error .useAfterFree
  else
    match c.op with
    | .copy start stop => veejayEditCopy c.mem s start.toInt stop.toInt
    | .cut start stop => veejayEditCut c.mem s start.toInt stop.toInt
    | .delete start stop => veejayEditDelete s start.toInt stop.toInt
    | .paste destination => veejayEditPaste c.mem s destination.toInt
    | .move start stop destination =>
        veejayEditMove c.mem s start.toInt stop.toInt destination.toInt
    | .addmovie movie => veejayEditAddmovie c.mem c.lib s movie

/-! ## Sessions over given lists -/

/-- A heap that serves every request. -/
def plentyOfMemory : Allocator := ⟨fun _ => true⟩

/-- A disk without movie files. -/
def noMovies : MediaLib where
  contents := fun _ => none
  canonicalizeFileName := fun _ => none
  lavOpenInputFile := fun _ => none
  noEmptyPath := rfl
  avhelperGetDecoder := fun _ => none
  testVideoFrame := fun _ => -1
  elNewDecoder := fun _ _ => false
  requireSameResolution := false

/-- An array holding the given entries. -/
def entryBlock (xs : List UInt64) : Option (Block UInt64) :=
  if h : xs.length < 2 ^ 60 then some ⟨xs.map some, by rwa [List.length_map]⟩ else none

/-- A session over the entries `edl`, with `save` on the clipboard and the window on the whole list. -/
def sessionOver (edl save : List UInt64) : Session where
  settings :=
    { saveList := entryBlock save
      saveListLen := UInt64.ofNat save.length
      minFrameNum := 0
      maxFrameNum := Int32.ofInt (edl.length - 1)
      currentFrameNum := 0
      state := .running }
  el :=
    { callocEditList with
      hasVideo := true
      videoFrames := Int64.ofInt edl.length
      totalFrames := UInt64.ofInt (edl.length - 1)
      frameList := entryBlock edl }
  dummyActive := false
  playbackMode := .plain
  flags := ⟨false, false, 112⟩

end Veejay.Edl
