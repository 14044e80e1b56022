import Veejay.Keyframes.Packet
import Veejay.Sample.Mixing

/-!
# Animated arguments

The arguments of an effect are read each time that it is rendered: for samples by `sample_get_all_effect_arg`
(`sampleadm.c`), for streams by `vj_tag_get_all_effect_args` (`vj-tag.c`).  The one looks at the keyframes of the chain
entry, the other one at its status.

* `sampleGetAllEffectArg`, `vjTagGetAllEffectArgs`, `vjPerformApplyFirst` — the functions;
* `KfOp`, `runKf` — what can be done with the keyframes of a chain;
* `PortInvariant`, `runKf_ports` — what holds of the ports of a chain after any history;
* `runKf_regular` — the ports of a chain stay ports of numbers, and streams keep theirs;
* `animation_iff` — **when the arguments of an effect are those of its keyframes.**
-/

namespace Veejay.Keyframes

open CLib Vevo Veejay.Samples

/-! ## Chains -/

/-- `SAMPLE_MAX_PARAMETERS` -/
def sampleMaxParameters : ℕ := 32

/-- The part of `sample_eff_chain` that is about arguments. -/
structure Entry where
  kf : Option Port
  kfStatus : ℤ
  kfType : ℤ
  arg : ℕ → ℤ

/-- The effect chain of a sample or a stream. -/
abbrev EffectChain := Fin sampleMaxEffects → Entry

/-- What is being played. -/
inductive Playmode where
  | sample
  | tag
  deriving DecidableEq

theorem slot_lt {entry : ℤ} (h : 0 ≤ entry ∧ entry < sampleMaxEffects) : entry.toNat < sampleMaxEffects := by
  omega

/-- `effect_chain[entry]` -/
def slot (entry : ℤ) : Exec (Fin sampleMaxEffects) :=
  if h : 0 ≤ entry ∧ entry < sampleMaxEffects then .ok ⟨entry.toNat, slot_lt h⟩ else .error .outOfBounds

/-! ## Reading the arguments -/

/-- `get_keyframe_value` -/
def getKeyframeValue (port : Option Port) (nFrame parameterId : ℤ) : Exec (Option ℤ) :=
  match port with
  | none => .error .nullPointer
  | some port => getInt port (keyframeId parameterId nFrame)

/-- The argument in the entry, unless there is a keyframe. -/
def keyframeOrArg (e : Entry) (nFrame : ℤ) (i : ℕ) : Exec ℤ := do
  match ← getKeyframeValue e.kf nFrame i with
  | none => .ok (e.arg i)
  | some tmp => .ok tmp

/-- The loops over the arguments, from `i` on. -/
def argLoop (value : ℕ → Exec ℤ) : ℕ → ℕ → List ℤ → Exec (List ℤ)
  | 0, _, args => .ok args
  | n + 1, i, args => do
    let v ← value i
    argLoop value n (i + 1) (args.set i v)

/-- The two loops over the arguments of an entry: with keyframes, and without. -/
def entryArgs (animated : Bool) (e : Entry) (nFrame : ℤ) (argLen : ℕ) (args : List ℤ) : Exec (List ℤ) :=
  if animated then argLoop (keyframeOrArg e nFrame) argLen 0 args else argLoop (fun i => .ok (e.arg i)) argLen 0 args

/-- `sample_get_all_effect_arg`: what it returns, and the arguments. -/
def sampleGetAllEffectArg (sample : Option EffectChain) (position : ℤ) (args : List ℤ) (argLen nFrame : ℤ) :
    Exec (ℤ × List ℤ) :=
  if argLen = 0 then .ok (1, args)
  else
    match sample with
    | none => .ok (-1, args)
    | some chain =>
      if (sampleMaxEffects : ℤ) ≤ position then .ok (-1, args)
      else if argLen < 0 ∨ (sampleMaxParameters : ℤ) < argLen then .ok (-1, args)
      else do
        let c ← slot position
        let args ← entryArgs (chain c).kf.isSome (chain c) nFrame argLen.toNat args
        .ok (argLen, args)

/-- `vj_tag_get_all_effect_args` -/
def vjTagGetAllEffectArgs (tag : Option EffectChain) (position : ℤ) (args : List ℤ) (argLen nFrame : ℤ) :
    Exec (ℤ × List ℤ) :=
  match tag with
  | none => .ok (-1, args)
  | some chain =>
    if argLen = 0 then .ok (1, args)
    else if position < 0 ∨ (sampleMaxEffects : ℤ) ≤ position then .ok (-1, args)
    else if argLen < 0 ∨ (sampleMaxParameters : ℤ) < argLen then .ok (-1, args)
    else do
      let c ← slot position
      let args ← entryArgs ((chain c).kfStatus ≠ 0) (chain c) nFrame argLen.toNat args
      .ok (1, args)

/-- `vj_perform_apply_first`: the arguments that `vj_effect_apply` is called with, if it is called. -/
def vjPerformApplyFirst (playmode : Playmode) (ref : Option EffectChain) (nA c nFrame : ℤ) : Exec (Option (List ℤ)) := do
  let args := List.replicate sampleMaxParameters 0
  let (res, args) ←
    match playmode with
    | .tag => vjTagGetAllEffectArgs ref c args nA nFrame
    | .sample => sampleGetAllEffectArg ref c args nA nFrame
  if res = 0 then .ok none else .ok (some args)

/-! ## Changing the keyframes -/

/-- `vj_event_set_kf_status`, `sample_chain_set_kf_status` and `vj_tag_chain_set_kf_status`. -/
def setKfStatus (entry status type : ℤ) (chain : EffectChain) : Exec EffectChain := do
  let c ← slot entry
  .ok (Function.update chain c { chain c with kfStatus := status, kfType := type })

/-- `sample_chain_reset_kf`, `vj_tag_chain_reset_kf` -/
def chainResetKf (playmode : Playmode) (entry : ℤ) (chain : EffectChain) : Exec EffectChain := do
  let c ← slot entry
  let kf :=
    match playmode with
    | .sample => none
    | .tag => some (vevoPortNew (-1))
  .ok (Function.update chain c { chain c with kf := kf, kfStatus := 0, kfType := 0 })

/-- The port that keyframes are read into: `sample_chain_alloc_kf` allocates it where a sample has none. -/
def portOf (chain : EffectChain) (entry : ℤ) : Port :=
  match slot entry with
  | .error _ => vevoPortNew (-1)
  | .ok c => (chain c).kf.getD (vevoPortNew (-1))

/-- `keyframe_unpack`, into the port of the entry that the packet names. -/
def unpackKf (playmode : Playmode) (packet : List UInt8) (chain : EffectChain) : Exec EffectChain := do
  match ← keyframeUnpack packet (portOf chain) with
  | none => .ok chain
  | some (entry, port) =>
    let c ← slot entry
    if playmode = .tag ∧ (chain c).kf = none then .error .nullPointer
    else .ok (Function.update chain c { chain c with kf := some port })

/-- The loop of `keyframe_clear_entry` from frame `i` on. -/
def clearLoop (parameterId : ℤ) : ℕ → ℤ → Port → Exec Port
  | 0, _, port => .ok port
  | n + 1, i, port => do
    let (_, port) ← vevoPropertyDel port (keyframeId parameterId i)
    clearLoop parameterId n (i + 1) port

/-- `keyframe_clear_entry` -/
def keyframeClearEntry (entry parameterId : ℤ) (chain : EffectChain) : Exec EffectChain := do
  let c ← slot entry
  match (chain c).kf with
  | none => .ok chain
  | some port =>
    let start ← getInt port (extract "start" parameterId)
    let end_ ← getInt port (extract "end" parameterId)
    let port ← clearLoop parameterId (end_.getD 0 - start.getD 0 + 1).toNat (start.getD 0) port
    let (_, port) ← vevoPropertyDel port (extract "start" parameterId)
    let (_, port) ← vevoPropertyDel port (extract "end" parameterId)
    let (_, port) ← vevoPropertyDel port (extract "type" parameterId)
    .ok (Function.update chain c { chain c with kf := some port })

/-- What can be done with the keyframes of a chain. -/
inductive KfOp where
  | setStatus (entry status type : ℤ)
  | reset (entry : ℤ)
  | unpack (packet : List UInt8)
  | clear (entry parameterId : ℤ)

def stepKf (playmode : Playmode) (chain : EffectChain) : KfOp → Exec EffectChain
  | .setStatus entry status type => setKfStatus entry status type chain
  | .reset entry => chainResetKf playmode entry chain
  | .unpack packet => unpackKf playmode packet chain
  | .clear entry parameterId => keyframeClearEntry entry parameterId chain

/-- A history of the chain. -/
def runKf (playmode : Playmode) (ops : List KfOp) (chain : EffectChain) : Exec EffectChain :=
  ops.foldlM (stepKf playmode) chain

/-- The chain of a new sample or stream. -/
def newChain (playmode : Playmode) : EffectChain := fun _ =>
  { kf :=
      match playmode with
      | .sample => none
      | .tag => some (vevoPortNew (-1))
    kfStatus := 0
    kfType := 0
    arg := fun _ => 0 }

/-! ## The ports of a chain -/

/-- The ports are ports of numbers; all entries of a stream have one. -/
structure Regular (playmode : Playmode) (chain : EffectChain) : Prop where
  numbers : ∀ c, ∀ port ∈ (chain c).kf, ∃ f, IntPort port f
  streams : playmode = .tag → ∀ c, (chain c).kf.isSome = true

/-- What is kept by the functions that change a port. -/
structure PortInvariant (Q : Port → Prop) : Prop where
  new : Q (vevoPortNew (-1))
  del : ∀ {port key}, Q port → Ensures (vevoPropertyDel port key) fun a => Q a.2
  unpack : ∀ {packet kfPort entry port}, (∀ i, Q (kfPort i)) →
    keyframeUnpack packet kfPort = .ok (some (entry, port)) → Q port

/-- It holds of the ports; all entries of a stream have one. -/
structure PortsOf (Q : Port → Prop) (playmode : Playmode) (chain : EffectChain) : Prop where
  ports : ∀ c, ∀ port ∈ (chain c).kf, Q port
  streams : playmode = .tag → ∀ c, (chain c).kf.isSome = true

section Steps

variable {Q : Port → Prop} {playmode : Playmode} {chain chain' : EffectChain}

theorem PortInvariant.newChain (hQ : PortInvariant Q) (playmode : Playmode) :
    PortsOf Q playmode (newChain playmode) := by
  cases playmode with
  | sample =>
    refine ⟨fun _ _ hport => ?_, fun htag => ?_⟩
    · cases hport
    · cases htag
  | tag =>
    refine ⟨fun _ port hport => ?_, fun _ _ => rfl⟩
    obtain rfl := Option.some.inj hport
    exact hQ.new

/-- An entry is replaced by one whose port has it too. -/
theorem PortsOf.update (h : PortsOf Q playmode chain) (c : Fin sampleMaxEffects) {e : Entry}
    (hport : ∀ port ∈ e.kf, Q port) (htag : playmode = .tag → e.kf.isSome = true) :
    PortsOf Q playmode (Function.update chain c e) := by
  constructor
  · intro i port hi
    rw [Function.update_apply] at hi
    split_ifs at hi with hc
    · exact hport port hi
    · exact h.ports i port hi
  · intro hmode i
    rw [Function.update_apply]
    split_ifs with hc
    · exact htag hmode
    · exact h.streams hmode i

theorem PortsOf.update_some (h : PortsOf Q playmode chain) (c : Fin sampleMaxEffects) {port : Port} (hport : Q port) :
    PortsOf Q playmode (Function.update chain c { chain c with kf := some port }) := by
  refine h.update c (fun q hq => ?_) fun _ => rfl
  obtain rfl := Option.some.inj hq
  exact hport

theorem PortInvariant.portOf (hQ : PortInvariant Q) (h : PortsOf Q playmode chain) (entry : ℤ) :
    Q (portOf chain entry) := by
  rw [Keyframes.portOf]
  cases slot entry with
  | error f => exact hQ.new
  | ok c =>
    show Q ((chain c).kf.getD (vevoPortNew (-1)))
    cases hkf : (chain c).kf with
    | none => exact hQ.new
    | some port => exact h.ports c port hkf

theorem PortInvariant.clearLoop (hQ : PortInvariant Q) (parameterId : ℤ) :
    ∀ (n : ℕ) (i : ℤ) {port : Port}, Q port → Ensures (clearLoop parameterId n i port) Q := by
  intro n
  induction n with
  | zero => exact fun i port hport => ⟨port, rfl, hport⟩
  | succ n ih =>
    intro i port hport
    obtain ⟨a, hdel, ha⟩ := @PortInvariant.del Q hQ port (keyframeId parameterId i) hport
    rw [Keyframes.clearLoop, hdel, ok_bind]
    exact ih (i + 1) ha

theorem PortInvariant.clear (hQ : PortInvariant Q) (h : PortsOf Q playmode chain) {entry parameterId : ℤ}
    (hstep : keyframeClearEntry entry parameterId chain = .ok chain') : PortsOf Q playmode chain' := by
  rw [keyframeClearEntry] at hstep
  obtain ⟨c, -, hstep⟩ := bind_eq_ok.mp hstep
  cases hkf : (chain c).kf with
  | none =>
    rw [hkf] at hstep
    obtain rfl := Except.ok.inj hstep
    exact h
  | some port =>
    rw [hkf] at hstep
    obtain ⟨start, -, hstep⟩ := bind_eq_ok.mp hstep
    obtain ⟨end_, -, hstep⟩ := bind_eq_ok.mp hstep
    obtain ⟨port₁, hloop, hstep⟩ := bind_eq_ok.mp hstep
    obtain ⟨⟨_, port₂⟩, hdel₂, hstep⟩ := bind_eq_ok.mp hstep
    obtain ⟨⟨_, port₃⟩, hdel₃, hstep⟩ := bind_eq_ok.mp hstep
    obtain ⟨⟨_, port₄⟩, hdel₄, hstep⟩ := bind_eq_ok.mp hstep
    obtain rfl := Except.ok.inj hstep
    have hport₁ := (hQ.clearLoop _ _ _ (h.ports c port hkf)).apply hloop
    have hport₂ := (hQ.del hport₁).apply hdel₂
    have hport₃ := (hQ.del hport₂).apply hdel₃
    exact h.update_some c ((hQ.del hport₃).apply hdel₄)

/-- **One step** keeps it. -/
theorem stepKf_ports (hQ : PortInvariant Q) (h : PortsOf Q playmode chain) {op : KfOp}
    (hstep : stepKf playmode chain op = .ok chain') : PortsOf Q playmode chain' := by
  cases op with
  | setStatus entry status type =>
    obtain ⟨c, -, hstep⟩ := bind_eq_ok.mp hstep
    obtain rfl := Except.ok.inj hstep
    exact h.update c (h.ports c) fun hmode => h.streams hmode c
  | reset entry =>
    obtain ⟨c, -, hstep⟩ := bind_eq_ok.mp hstep
    obtain rfl := Except.ok.inj hstep
    exact h.update c ((hQ.newChain playmode).ports c) fun hmode => (hQ.newChain playmode).streams hmode c
  | unpack packet =>
    obtain ⟨r, hunpack, hstep⟩ := bind_eq_ok.mp hstep
    cases r with
    | none =>
      obtain rfl := Except.ok.inj hstep
      exact h
    | some r =>
      obtain ⟨entry, port⟩ := r
      obtain ⟨c, -, hstep⟩ := bind_eq_ok.mp hstep
      split_ifs at hstep
      obtain rfl := Except.ok.inj hstep
      exact h.update_some c (hQ.unpack (hQ.portOf h) hunpack)
  | clear entry parameterId => exact hQ.clear h hstep

/-- **A whole history** keeps it. -/
theorem runKf_ports (hQ : PortInvariant Q) {ops : List KfOp} : ∀ {chain : EffectChain}, PortsOf Q playmode chain →
    runKf playmode ops chain = .ok chain' → PortsOf Q playmode chain' := by
  induction ops with
  | nil =>
    intro chain h hrun
    obtain rfl := Except.ok.inj hrun
    exact h
  | cons op ops ih =>
    intro chain h hrun
    rw [runKf, List.foldlM_cons] at hrun
    obtain ⟨chain₁, hstep, hrun⟩ := bind_eq_ok.mp hrun
    exact ih (stepKf_ports hQ h hstep) hrun

end Steps

/-! ## Ports of numbers -/

theorem keyframeUnpack_intPort {packet : List UInt8} {kfPort : ℤ → Port} (hports : ∀ i, ∃ f, IntPort (kfPort i) f)
    {entry : ℤ} {port : Port} (h : keyframeUnpack packet kfPort = .ok (some (entry, port))) : ∃ g, IntPort port g := by
  rw [keyframeUnpack] at h
  split_ifs at h with hkey
  · cases h
  obtain ⟨fields, -, h⟩ := bind_eq_ok.mp h
  split at h
  · obtain ⟨port₁, hloop, h⟩ := bind_eq_ok.mp h
    obtain ⟨f, hf⟩ := hports _
    obtain ⟨g, hg⟩ := unpackLoop_intPort hf hloop
    obtain ⟨port₂, hset, hport₂⟩ := setRange_intPort hg _ _ _ _
    rw [hset, ok_bind] at h
    obtain ⟨-, rfl⟩ := Prod.ext_iff.mp (Option.some.inj (Except.ok.inj h))
    exact ⟨_, hport₂⟩
  · cases h

/-- A name is removed with everything that has its hash code. -/
theorem del_update {p : Port} {f : UInt64 → Option Int32} (hp : IntPort p f) (key : CStr) :
    Ensures (vevoPropertyDel p key) fun a => IntPort a.2 (Function.update f (hashKeyCode key) none) := by
  refine (applyStore_isMap hp (.del key)).mono fun a ha => ?_
  have hmap : (fun h => (Function.update f (hashKeyCode key) none h).map fun v => storagePutAtomValue .int [v])
      = noteOp hashKeyCode (fun h => (f h).map fun v => storagePutAtomValue .int [v]) (.del key) := by
    funext h
    rw [noteOp, Function.update_apply, Function.update_apply]
    by_cases hh : h = hashKeyCode key
    · rw [if_pos hh]
      exact (if_pos hh).symm
    · rw [if_neg hh]
      exact (if_neg hh).symm
  rw [IntPort, hmap]
  exact ha

theorem del_intPort {p : Port} {f : UInt64 → Option Int32} (hp : IntPort p f) (key : CStr) :
    Ensures (vevoPropertyDel p key) fun a => ∃ g, IntPort a.2 g :=
  (del_update hp key).mono fun _ ha => ⟨_, ha⟩

theorem intPort_invariant : PortInvariant fun port => ∃ f, IntPort port f where
  new := ⟨_, intPort_new⟩
  del h := del_intPort h.choose_spec _
  unpack hports h := keyframeUnpack_intPort hports h

theorem regular_iff {playmode : Playmode} {chain : EffectChain} :
    Regular playmode chain ↔ PortsOf (fun port => ∃ f, IntPort port f) playmode chain :=
  ⟨fun h => ⟨h.numbers, h.streams⟩, fun h => ⟨h.ports, h.streams⟩⟩

theorem regular_newChain (playmode : Playmode) : Regular playmode (newChain playmode) :=
  regular_iff.mpr (intPort_invariant.newChain playmode)

/-- The ports stay ports of numbers. -/
theorem runKf_regular {playmode : Playmode} {ops : List KfOp} {chain chain' : EffectChain} (h : Regular playmode chain)
    (hrun : runKf playmode ops chain = .ok chain') : Regular playmode chain' :=
  regular_iff.mpr (runKf_ports intPort_invariant (regular_iff.mp h) hrun)

/-! ## The arguments that are used -/

/-- The keyframe of parameter `j` at frame `n`, if the entry has one. -/
def keyframeAt (e : Entry) (j n : ℤ) : Option ℤ := e.kf.bind fun port => (getInt port (keyframeId j n)).toOption.join

/-- The argument that an effect is to use: the keyframe where the status of the entry is on and there is one, the
stored argument otherwise. -/
def effectiveArg (e : Entry) (n : ℤ) (j : ℕ) : ℤ :=
  if e.kfStatus ≠ 0 then (keyframeAt e j n).getD (e.arg j) else e.arg j

/-- The effect is rendered, with these arguments. -/
def RendersAnimated (playmode : Playmode) (chain : EffectChain) (c : Fin sampleMaxEffects) (numParams : ℕ) (n : ℤ) :
    Prop :=
  Ensures (vjPerformApplyFirst playmode (some chain) numParams (c : ℕ) n) fun r =>
    ∃ args ∈ r, ∀ j < numParams, args[j]? = some (effectiveArg (chain c) n j)

theorem argLoop_spec {value : ℕ → Exec ℤ} {w : ℕ → ℤ} (hvalue : ∀ i, value i = .ok (w i)) (n : ℕ) :
    ∀ (i : ℕ) (args : List ℤ), i + n ≤ args.length → Ensures (argLoop value n i args) fun r =>
      ∀ j, r[j]? = if i ≤ j ∧ j < i + n then some (w j) else args[j]? := by
  induction n with
  | zero =>
    intro i args _
    refine ⟨args, rfl, fun j => ?_⟩
    rw [if_neg (by omega)]
  | succ n ih =>
    intro i args hlen
    rw [argLoop, hvalue, ok_bind]
    refine (ih (i + 1) (args.set i (w i)) (by rw [List.length_set]; omega)).mono fun r hr j => ?_
    rw [hr j, List.getElem?_set]
    by_cases hj : i = j
    · subst hj
      rw [if_neg (by omega), if_pos rfl, if_pos (by omega), if_pos (by omega)]
    · rw [if_neg hj]
      by_cases hin : i ≤ j ∧ j < i + (n + 1)
      · rw [if_pos hin, if_pos (by omega)]
      · rw [if_neg hin, if_neg (by omega)]

theorem slot_val (c : Fin sampleMaxEffects) : slot ((c : ℕ) : ℤ) = .ok c := by
  have hc := c.isLt
  rw [slot, dif_pos (by omega)]
  rfl

section Arguments

variable {playmode : Playmode} {chain : EffectChain}

theorem getKeyframeValue_eq (h : Regular playmode chain) (c : Fin sampleMaxEffects) (hkf : (chain c).kf.isSome = true)
    (n j : ℤ) : getKeyframeValue (chain c).kf n j = .ok (keyframeAt (chain c) j n) := by
  obtain ⟨port, hport⟩ := Option.isSome_iff_exists.mp hkf
  obtain ⟨f, hf⟩ := h.numbers c port hport
  rw [keyframeAt, hport, getKeyframeValue, Option.bind_some, getInt_eq hf]
  rfl

theorem keyframeOrArg_eq (h : Regular playmode chain) (c : Fin sampleMaxEffects) (hkf : (chain c).kf.isSome = true)
    (n : ℤ) (i : ℕ) :
    keyframeOrArg (chain c) n i = .ok ((keyframeAt (chain c) i n).getD ((chain c).arg i)) := by
  rw [keyframeOrArg, getKeyframeValue_eq h c hkf, ok_bind]
  cases keyframeAt (chain c) i n with
  | none => rfl
  | some v => rfl

/-- The argument that is used: samples take any keyframe that there is. -/
def usedArg (playmode : Playmode) (e : Entry) (n : ℤ) (j : ℕ) : ℤ :=
  match playmode with
  | .tag => effectiveArg e n j
  | .sample => (keyframeAt e j n).getD (e.arg j)

theorem keyframeAt_of_none {e : Entry} (h : e.kf = none) (j n : ℤ) : keyframeAt e j n = none := by
  rw [keyframeAt, h]
  rfl

theorem argLoop_args {value : ℕ → Exec ℤ} {w : ℕ → ℤ} (hvalue : ∀ i, value i = .ok (w i)) {numParams : ℕ}
    (hn : numParams ≤ sampleMaxParameters) :
    Ensures (argLoop value numParams 0 (List.replicate sampleMaxParameters 0)) fun args =>
      ∀ j < numParams, args[j]? = some (w j) := by
  refine (argLoop_spec hvalue numParams 0 _ ?_).mono fun args hargs j hj => ?_
  · rw [List.length_replicate]
    omega
  · rw [hargs j, if_pos (by omega)]

theorem entryArgs_spec (h : Regular playmode chain) (c : Fin sampleMaxEffects) {animated : Bool}
    (hkf : animated = true → (chain c).kf.isSome = true) {numParams : ℕ} (hn : numParams ≤ sampleMaxParameters)
    (n : ℤ) :
    Ensures (entryArgs animated (chain c) n numParams (List.replicate sampleMaxParameters 0)) fun args =>
      ∀ j < numParams, args[j]? =
        some (if animated then (keyframeAt (chain c) j n).getD ((chain c).arg j) else (chain c).arg j) := by
  rw [entryArgs]
  cases animated with
  | true => exact argLoop_args (keyframeOrArg_eq h c (hkf rfl) n) hn
  | false => exact argLoop_args (fun i => rfl) hn

/-- **What `vj_perform_apply_first` calls the effect with.** -/
theorem vjPerformApplyFirst_spec (h : Regular playmode chain) (c : Fin sampleMaxEffects) {numParams : ℕ}
    (hn : numParams ≤ sampleMaxParameters) (n : ℤ) :
    Ensures (vjPerformApplyFirst playmode (some chain) numParams (c : ℕ) n) fun r =>
      ∃ args ∈ r, ∀ j < numParams, args[j]? = some (usedArg playmode (chain c) n j) := by
  have hc := c.isLt
  rcases Nat.eq_zero_or_pos numParams with rfl | hpos
  · -- no arguments are read
    refine ⟨some (List.replicate sampleMaxParameters 0), ?_, _, rfl, fun j hj => absurd hj (Nat.not_lt_zero j)⟩
    cases playmode <;> rfl
  cases playmode with
  | sample =>
    obtain ⟨args, hloop, hargs⟩ := entryArgs_spec h c (fun hkf => hkf) hn n
    refine ⟨some args, ?_, args, rfl, fun j hj => ?_⟩
    · rw [vjPerformApplyFirst]
      dsimp only
      rw [sampleGetAllEffectArg, if_neg (by omega), if_neg (by omega), if_neg (by omega), slot_val, ok_bind,
        Int.toNat_natCast, hloop, ok_bind, ok_bind]
      exact if_neg (by omega)
    · rw [hargs j hj, usedArg]
      split_ifs with hkf
      · rfl
      · rw [keyframeAt_of_none (Option.not_isSome_iff_eq_none.mp hkf)]
        rfl
  | tag =>
    obtain ⟨args, hloop, hargs⟩ := @entryArgs_spec _ _ h c ((chain c).kfStatus ≠ 0) (fun _ => h.streams rfl c) _ hn n
    refine ⟨some args, ?_, args, rfl, fun j hj => ?_⟩
    · rw [vjPerformApplyFirst]
      dsimp only
      rw [vjTagGetAllEffectArgs, if_neg (by omega), if_neg (by omega), if_neg (by omega), slot_val, ok_bind,
        Int.toNat_natCast, hloop, ok_bind, ok_bind]
      rfl
    · rw [hargs j hj, usedArg, effectiveArg]
      simp only [decide_eq_true_eq]

/-- The effect is animated exactly where the arguments in use are those that it is to use. -/
theorem rendersAnimated_iff (h : Regular playmode chain) (c : Fin sampleMaxEffects) {numParams : ℕ}
    (hn : numParams ≤ sampleMaxParameters) (n : ℤ) :
    RendersAnimated playmode chain c numParams n ↔
      ∀ j < numParams, usedArg playmode (chain c) n j = effectiveArg (chain c) n j := by
  obtain ⟨r, hrun, args, hr, hargs⟩ := vjPerformApplyFirst_spec h c hn n
  rw [RendersAnimated, hrun, ensures_ok]
  constructor
  · rintro ⟨args', hr', hargs'⟩ j hj
    obtain rfl := Option.mem_unique hr hr'
    exact Option.some.inj ((hargs j hj).symm.trans (hargs' j hj))
  · intro hsame
    refine ⟨args, hr, fun j hj => ?_⟩
    rw [hargs j hj, hsame j hj]

/-- **When the arguments are those of the keyframes**, after any history of the chain: for streams always; for samples
where the status is on, or no keyframe at the frame says something else than the stored argument. -/
theorem animation_iff {start : EffectChain} (h : Regular playmode start) {ops : List KfOp}
    (hrun : runKf playmode ops start = .ok chain) (c : Fin sampleMaxEffects) {numParams : ℕ}
    (hn : numParams ≤ sampleMaxParameters) (n : ℤ) :
    RendersAnimated playmode chain c numParams n ↔ playmode = .tag ∨ (chain c).kfStatus ≠ 0 ∨
      ∀ j < numParams, ∀ v ∈ keyframeAt (chain c) j n, v = (chain c).arg j := by
  rw [rendersAnimated_iff (runKf_regular h hrun) c hn]
  cases playmode with
  | tag => exact iff_of_true (fun j _ => rfl) (.inl rfl)
  | sample =>
    rw [or_iff_right Playmode.noConfusion]
    by_cases hstatus : (chain c).kfStatus ≠ 0
    · refine iff_of_true (fun j _ => ?_) (.inl hstatus)
      rw [usedArg, effectiveArg, if_pos hstatus]
    · rw [or_iff_right hstatus]
      refine forall_congr' fun j => imp_congr_right fun _ => ?_
      rw [usedArg, effectiveArg, if_neg hstatus]
      cases keyframeAt (chain c) j n with
      | none => exact iff_of_true rfl fun v hv => nomatch hv
      | some v =>
        constructor
        · rintro hsame w hw
          obtain rfl := Option.some.inj hw
          exact hsame
        · intro hall
          exact hall v rfl

end Arguments

/-! ## A sample with a keyframe -/

/-- The entries have the keyframe 9 of parameter 0 at frame 5, and their status is off. -/
def animatedChain : EffectChain := fun _ =>
  { kf := (vevoPropertySet (vevoPortNew (-1)) (keyframeId 0 5) .int [9]).toOption.map Prod.snd
    kfStatus := 0
    kfType := 0
    arg := fun _ => 1 }

/-- The first entry. -/
def entry0 : Fin sampleMaxEffects := ⟨0, sampleMaxEffects_pos⟩

theorem animatedChain_kf : ∃ port, (animatedChain entry0).kf = some port ∧
    IntPort port (Function.update (fun _ => none) (hashKeyCode (keyframeId 0 5)) (some 9)) := by
  obtain ⟨a, hset, hport⟩ := set_intPort intPort_new (keyframeId 0 5) 9
  refine ⟨a.2, ?_, hport⟩
  show (vevoPropertySet (vevoPortNew (-1)) (keyframeId 0 5) .int [9]).toOption.map Prod.snd = some a.2
  rw [hset]
  rfl

theorem animatedChain_regular (playmode : Playmode) : Regular playmode animatedChain := by
  obtain ⟨port, hkf, hport⟩ := animatedChain_kf
  constructor
  · intro c q hq
    obtain rfl := Option.mem_unique (show port ∈ (animatedChain c).kf from hkf) hq
    exact ⟨_, hport⟩
  · intro _ c
    exact Option.isSome_iff_exists.mpr ⟨port, hkf⟩

theorem animatedChain_keyframeAt : keyframeAt (animatedChain entry0) 0 5 = some 9 := by
  obtain ⟨port, hkf, hport⟩ := animatedChain_kf
  rw [keyframeAt, hkf, Option.bind_some, getInt_eq hport, Function.update_self]
  rfl

/-- The chain of the history that turns the status of the first entry on, or off. -/
def toggled (status : ℤ) : EffectChain :=
  Function.update animatedChain entry0 { animatedChain entry0 with kfStatus := status }

/-- While the status is on, the effect is animated. -/
theorem animation_on : runKf .sample [.setStatus 0 1 0] animatedChain = .ok (toggled 1) ∧
    RendersAnimated .sample (toggled 1) entry0 1 5 := by
  have hrun : runKf .sample [.setStatus 0 1 0] animatedChain = .ok (toggled 1) := rfl
  exact ⟨hrun, (animation_iff (animatedChain_regular .sample) hrun entry0 (by decide) 5).mpr (.inr (.inl (by decide)))⟩

/-- While it is off, a sample is animated all the same. -/
theorem animated_while_off : Regular .sample animatedChain ∧
    runKf .sample [.setStatus 0 0 0] animatedChain = .ok (toggled 0) ∧
    ¬ RendersAnimated .sample (toggled 0) entry0 1 5 := by
  have hrun : runKf .sample [.setStatus 0 0 0] animatedChain = .ok (toggled 0) := rfl
  have hregular : Regular .sample (toggled 0) := runKf_regular (animatedChain_regular .sample) hrun
  refine ⟨animatedChain_regular .sample, hrun, ?_⟩
  rw [rendersAnimated_iff hregular entry0 (by decide)]
  intro hsame
  have h := hsame 0 Nat.one_pos
  have hkey : keyframeAt (toggled 0 entry0) ((0 : ℕ) : ℤ) 5 = some 9 := animatedChain_keyframeAt
  rw [usedArg, effectiveArg, if_neg (by decide), hkey] at h
  exact absurd h (by decide)

end Veejay.Keyframes
