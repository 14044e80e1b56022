import Veejay.Vevo.Store

/-!
# A list-backed port is a finite map

Any run of `vevo_property_set`, `vevo_property_set_f` and `vevo_property_del` on one list-backed port,
against the fold of the same operations over a finite map.  The map is keyed by what the port tells its
properties apart by: the hash code of the name.  Names that do not collide are therefore kept apart, and
two names with one hash code are one property.

* `StoreOp`, `applyStore` — the writers as operations of a run;
* `lastSet` — the value of the last set that was not followed by a deletion, under any naming;
* `vevoPropertyGet_last_set` — **the port is the map of its hash codes**, and the map of its names as
  long as these do not collide;
* `property_names_collide` — two names of one hash code.
-/

namespace Veejay.Vevo

open CLib

/-- The calls that change a port, by name. -/
inductive StoreOp where
  | set (key : CStr) (t : AtomType) (src : List t.Elem)
  | setF (key : CStr) (t : AtomType) (set_func get_func : UInt64)
  | del (key : CStr)

/-- The name an operation is about. -/
def StoreOp.key : StoreOp → CStr
  | .set key _ _ => key
  | .setF key _ _ _ => key
  | .del key => key

/-- One call on a port. -/
def applyStore (p : Port) : StoreOp → Exec (VevoError × Port)
  | .set key t src => vevoPropertySet p key t src
  | .setF key t set_func get_func => vevoPropertySetF p key t set_func get_func
  | .del key => vevoPropertyDel p key

/-- What the operation leaves under its name. -/
def StoreOp.value : StoreOp → Option Storage
  | .set _ t src => some (storagePutAtomValue t src)
  | .setF _ t set_func get_func => some (storagePutAtomFunc t set_func get_func)
  | .del _ => none

section Map

variable {κ : Type} [DecidableEq κ] (name : CStr → κ)

/-- One operation on the finite map. -/
def noteOp (m : κ → Option Storage) (op : StoreOp) : κ → Option Storage :=
  Function.update m (name op.key) op.value

/-- The value of the last set of a name that was not followed by a deletion of it. -/
def lastSet (ops : List StoreOp) : κ → Option Storage := ops.foldl (noteOp name) fun _ => none

end Map

/-- What `vevo_property_get` answers for a value of the map. -/
def readOf (value : Option Storage) (idx : ℤ) (dst : Bool) : VevoError × Option Data :=
  match value with
  | none => (.noSuchProperty, none)
  | some st => atomGetValue st idx dst

/-- A list-backed port that stores the map. -/
structure IsMap (p : Port) (m : UInt64 → Option Storage) : Prop where
  wf : Wf p
  list_backed : p.table = none
  stored_eq : ∀ h, stored p h = (m h).map Slot.storage

theorem vevoPropertyGet_of_isMap {p : Port} {m : UInt64 → Option Storage} (hp : IsMap p m) (k : CStr)
    (idx : ℤ) (dst : Bool) :
    vevoPropertyGet p k idx dst = .ok (readOf (m (hashKeyCode k)) idx dst) := by
  rw [vevoPropertyGet_eq, hp.stored_eq]
  cases m (hashKeyCode k) with
  | none => rfl
  | some st => rfl

/-- **One operation** on a list-backed port is the same operation on the map. -/
theorem applyStore_isMap {p : Port} {m : UInt64 → Option Storage} (hp : IsMap p m) (op : StoreOp) :
    Ensures (applyStore p op) fun a => IsMap a.2 (noteOp hashKeyCode m op) := by
  have hfree := freeable_of_list hp.list_backed
  have hstore : ∀ st, Ensures (storeProperty p op.key st) fun p' =>
      IsMap p' (Function.update m (hashKeyCode op.key) (some st)) := by
    intro st
    refine (storeProperty_spec hp.wf op.key st (hfree _)).mono fun p' hs => ?_
    refine ⟨hs.wf, hs.table_iff.mpr hp.list_backed, fun h => ?_⟩
    rw [hs.stored_eq, hp.stored_eq, Function.update_apply]
    by_cases hh : hashKeyCode op.key = h
    · rw [if_pos hh, if_pos hh.symm]
      rfl
    · rw [if_neg hh, if_neg (Ne.symm hh)]
  cases op with
  | set key t src =>
    simp only [applyStore, vevoPropertySet, ensures_bind, ensures_ok]
    exact hstore _
  | setF key t set_func get_func =>
    simp only [applyStore, vevoPropertySetF, ensures_bind, ensures_ok]
    exact hstore _
  | del key =>
    refine (vevoPropertyDel_spec hp.wf key (hfree _)).mono fun a hd => ?_
    refine ⟨hd.wf, hd.table_iff.mpr hp.list_backed, fun h => ?_⟩
    have hreach : DelReaches p (hashKeyCode key) := Or.inl hp.list_backed
    have hnote : noteOp hashKeyCode m (.del key) = Function.update m (hashKeyCode key) none := rfl
    rw [hd.stored_eq, hp.stored_eq, hnote, Function.update_apply]
    by_cases hh : hashKeyCode key = h
    · rw [if_pos ⟨hh, hreach⟩, if_pos hh.symm]
      rfl
    · rw [if_neg (fun hc => hh hc.1), if_neg (Ne.symm hh)]

/-- Where the names of a run do not collide, the map of the hash codes is the map of the names. -/
theorem lastSet_hashKeyCode {ops : List StoreOp} {k : CStr}
    (hinj : Set.InjOn hashKeyCode {n | n ∈ k :: ops.map StoreOp.key}) :
    lastSet hashKeyCode ops (hashKeyCode k) = lastSet id ops k := by
  have hgen : ∀ (os : List StoreOp) (m : UInt64 → Option Storage) (m' : CStr → Option Storage),
      (∀ op ∈ os, hashKeyCode op.key = hashKeyCode k ↔ op.key = k) → m (hashKeyCode k) = m' k →
      os.foldl (noteOp hashKeyCode) m (hashKeyCode k) = os.foldl (noteOp id) m' k := by
    intro os
    induction os with
    | nil => exact fun _ _ _ hm => hm
    | cons op os ih =>
      intro m m' hkeys hm
      refine ih _ _ (fun o ho => hkeys o (List.mem_cons_of_mem op ho)) ?_
      have hop := hkeys op List.mem_cons_self
      rw [noteOp, noteOp, Function.update_apply, Function.update_apply, id_eq, hm]
      refine if_congr ?_ rfl rfl
      rw [eq_comm, hop, eq_comm]
  refine hgen ops _ _ (fun op hop => ⟨fun heq => ?_, fun heq => by rw [heq]⟩) rfl
  exact hinj (List.mem_cons_of_mem k (List.mem_map_of_mem hop)) List.mem_cons_self heq

/-- **A list-backed port is a finite map.**  After any run, reading `k` gives the value of the last set
of a name with `k`'s hash code that was not followed by a deletion of such a name; where the names do not
collide, of `k` itself.  An operation on a name with another hash code changes nothing that `k` reads. -/
theorem vevoPropertyGet_last_set {portType : ℤ} (htype : UsesList portType) (ops : List StoreOp)
    (k : CStr) (idx : ℤ) (dst : Bool) :
    Ensures (runOps applyStore (vevoPortNew portType) ops) fun a =>
      vevoPropertyGet a.2 k idx dst
        = .ok (readOf (lastSet hashKeyCode ops (hashKeyCode k)) idx dst) ∧
      (Set.InjOn hashKeyCode {n | n ∈ k :: ops.map StoreOp.key} →
        vevoPropertyGet a.2 k idx dst = .ok (readOf (lastSet id ops k) idx dst)) ∧
      ∀ op : StoreOp, hashKeyCode op.key ≠ hashKeyCode k →
        Ensures (applyStore a.2 op) fun b =>
          vevoPropertyGet b.2 k idx dst = vevoPropertyGet a.2 k idx dst := by
  have hnew : IsMap (vevoPortNew portType) fun _ => none :=
    ⟨wf_vevoPortNew portType, if_pos htype, stored_vevoPortNew portType⟩
  refine (runOps_refines (R := IsMap) (fun p m op hp _ => applyStore_isMap hp op) ops _ _ hnew
    (historyMeets_of_forall (fun _ _ => trivial) ops _)).mono fun a ha => ?_
  have hread := vevoPropertyGet_of_isMap ha k idx dst
  refine ⟨hread, fun hinj => ?_, fun op hop => ?_⟩
  · rw [hread, ← lastSet_hashKeyCode hinj]
    rfl
  · refine (applyStore_isMap ha op).mono fun b hb => ?_
    rw [vevoPropertyGet_of_isMap hb, hread, noteOp, Function.update_of_ne (Ne.symm hop)]

/-- Two properties set one after the other, and the first one deleted. -/
theorem get_after_set_and_del :
    Ensures (runOps applyStore (vevoPortNew 1)
      [.set [97] .int [3], .set [98] .int [7, 8], .del [97]]) fun a =>
        vevoPropertyGet a.2 [98] 1 true = .ok (.noError, some ⟨.int, 8⟩) := by
  refine (vevoPropertyGet_last_set (by decide)
    [.set [97] .int [3], .set [98] .int [7, 8], .del [97]] [98] 1 true).mono fun a ha => ?_
  rw [ha.1]
  rfl

/-- **Two names of one hash code**: what is set as `Ez` is read as `FY`. -/
theorem property_names_collide :
    ¬ ∀ (ops : List StoreOp) (k : CStr) (idx : ℤ) (dst : Bool),
      Ensures (runOps applyStore (vevoPortNew 1) ops) fun a =>
        vevoPropertyGet a.2 k idx dst = .ok (readOf (lastSet id ops k) idx dst) := by
  intro h
  obtain ⟨a, ha, hget⟩ := h [.set [69, 122] .int [7]] [70, 89] 0 true
  have hrun : (runOps applyStore (vevoPortNew 1) [.set [69, 122] .int [7]]).bind
      (fun a => vevoPropertyGet a.2 [70, 89] 0 true) = .ok (.noError, some ⟨.int, 7⟩) := rfl
  rw [ha] at hrun
  have hboth := hget.symm.trans hrun
  exact absurd (congrArg Prod.fst (Except.ok.inj hboth)) (by decide)

end Veejay.Vevo
