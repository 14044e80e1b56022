import Veejay.Sample.Mixing

/-!
# Samples and their copies

`sample_copy` copies the memory of a sample and of its effect chain: the copy refers to the same keyframes, dictionary
and file names as the sample (`libsample/sampleadm.c`).

* `Memory` — the strings, dictionaries, keyframe ports and effect chains that samples refer to;
* `Holdings` — what a sample refers to; the operations on it, `copyHoldings` and `delHoldings`;
* `Unchanged` — what another sample refers to is allocated, and what it was;
* `copies_independent_iff` — **when a sample and its copy are independent**.
-/

namespace Veejay.Samples

open CLib

/-- An entry of an effect chain: its keyframes, and its other fields. -/
structure ChainEntry (β : Type) where
  kf : Option ℕ
  kfStatus : ℤ
  kfType : ℤ
  rest : β

/-- What samples refer to: `κ` is what a keyframe port holds, `δ` what a dictionary holds. -/
structure Memory (δ κ β : Type) where
  strings : ℕ → Option String
  dicts : ℕ → Option δ
  ports : ℕ → Option κ
  chains : ℕ → Option (Fin sampleMaxEffects → ChainEntry β)
  next : ℕ

/-- The pointers of a sample. -/
structure Holdings where
  editListFile : Option ℕ
  dict : Option ℕ
  encoderDestination : Option ℕ
  effectChain : ℕ

/-- The samples and what they refer to. -/
structure Stage (δ κ β : Type) where
  samples : Bank Holdings
  mem : Memory δ κ β

section Functions

variable {δ κ β α : Type}

/-- What is allocated at an address. -/
def readAt (pool : ℕ → Option α) (p : ℕ) : Exec α :=
  match pool p with
  | none => .error .useAfterFree
  | some x => .ok x

/-- `if (p) free(p)` -/
def freeAt (pool : ℕ → Option α) : Option ℕ → Exec (ℕ → Option α)
  | none => .ok pool
  | some p => do
    let _ ← readAt pool p
    .ok (Function.update pool p none)

/-- All of the pointers are freed. -/
def freeEach (pool : ℕ → Option α) : List (Option ℕ) → Exec (ℕ → Option α)
  | [] => .ok pool
  | p :: ps => do
    let pool ← freeAt pool p
    freeEach pool ps

/-- `sample_chain_reset_kf` -/
def resetKf (entry : Fin sampleMaxEffects) (x : Holdings) (m : Memory δ κ β) : Exec (Holdings × Memory δ κ β) := do
  let chain ← readAt m.chains x.effectChain
  let ports ← freeAt m.ports (chain entry).kf
  let chain := Function.update chain entry { chain entry with kf := none, kfStatus := 0, kfType := 0 }
  .ok (x, { m with ports := ports, chains := Function.update m.chains x.effectChain (some chain) })

/-- `keyframe_unpack`: the port is allocated if there is none, and the keyframes are set. -/
def unpackKfs (empty : κ) (write : κ → κ) (entry : Fin sampleMaxEffects) (x : Holdings) (m : Memory δ κ β) :
    Exec (Holdings × Memory δ κ β) := do
  let chain ← readAt m.chains x.effectChain
  match (chain entry).kf with
  | none =>
    let chain := Function.update chain entry { chain entry with kf := some m.next }
    .ok (x, { m with
      ports := Function.update m.ports m.next (some (write empty))
      chains := Function.update m.chains x.effectChain (some chain)
      next := m.next + 1 })
  | some p => do
    let c ← readAt m.ports p
    .ok (x, { m with ports := Function.update m.ports p (some (write c)) })

/-- `keyframe_clear_entry`: the keyframes of a parameter are deleted. -/
def clearKfs (write : κ → κ) (entry : Fin sampleMaxEffects) (x : Holdings) (m : Memory δ κ β) :
    Exec (Holdings × Memory δ κ β) := do
  let chain ← readAt m.chains x.effectChain
  match (chain entry).kf with
  | none => .ok (x, m)
  | some p => do
    let c ← readAt m.ports p
    .ok (x, { m with ports := Function.update m.ports p (some (write c)) })

/-- `skel->edit_list_file = strdup(..)`, in `ParseSample` -/
def setEditListFile (name : String) (x : Holdings) (m : Memory δ κ β) : Exec (Holdings × Memory δ κ β) :=
  .ok ({ x with editListFile := some m.next },
    { m with strings := Function.update m.strings m.next (some name), next := m.next + 1 })

/-- The properties of the dictionary are set, through `vj_font_set_dict(font, sample_get_dict(id))`. -/
def changeDict (write : δ → δ) (x : Holdings) (m : Memory δ κ β) : Exec (Holdings × Memory δ κ β) :=
  match x.dict with
  | none => .ok (x, m)
  | some p => do
    let d ← readAt m.dicts p
    .ok (x, { m with dicts := Function.update m.dicts p (some (write d)) })

/-- `sample_try_filename` -/
def tryFilename (name : String) (x : Holdings) (m : Memory δ κ β) : Exec (Holdings × Memory δ κ β) := do
  let strings ← freeAt m.strings x.encoderDestination
  .ok ({ x with encoderDestination := some m.next },
    { m with strings := Function.update strings m.next (some name), next := m.next + 1 })

/-- What `sample_del` frees. -/
def freeHoldings (x : Holdings) (m : Memory δ κ β) : Exec (Memory δ κ β) := do
  let chain ← readAt m.chains x.effectChain
  let ports ← freeEach m.ports (List.ofFn fun i => (chain i).kf)
  let chains ← freeAt m.chains (some x.effectChain)
  let strings ← freeAt m.strings x.encoderDestination
  let strings ← freeAt strings x.editListFile
  let dicts ← freeAt m.dicts x.dict
  .ok { m with ports := ports, chains := chains, strings := strings, dicts := dicts }

/-- An operation on the sample that `sample_get` finds. -/
def onSample (id : ℤ) (f : Holdings → Memory δ κ β → Exec (Holdings × Memory δ κ β)) (s : Stage δ κ β) :
    Exec (Stage δ κ β) := do
  match ← sampleGet id s.samples with
  | (none, b) => .ok { s with samples := b }
  | (some si, b) => do
    let o ← deref si b
    let (x, m) ← f o.info s.mem
    .ok ⟨{ b with heap := Function.update b.heap si (some ⟨o.sampleId, x⟩) }, m⟩

/-- `sample_del`, with what the sample holds. -/
def delHoldings (id : ℤ) (s : Stage δ κ β) : Exec (Stage δ κ β) := do
  match ← findStored id s.samples with
  | (none, b) => .ok { s with samples := b }
  | (some (si, o), b) => do
    let m ← freeHoldings o.info s.mem
    let b ← dropStored id si b
    .ok ⟨b, m⟩

/-- All pointers of a sample are copied but that of the effect chain. -/
def holdingsContents (chain : ℕ) : Contents Holdings where
  fresh _ _ _ _ := ⟨none, none, none, chain⟩
  stored x := x
  copied x := { x with effectChain := chain }

/-- `sample_copy`: the effect chain is copied as well. -/
def copyHoldings (id : ℤ) (s : Stage δ κ β) : Exec (Option ℤ × Stage δ κ β) := do
  let (there, b) ← sampleExists id s.samples
  if !there then .ok (none, { s with samples := b })
  else
    match ← sampleGet id b with
    | (none, _) => .error .nullPointer
    | (some org, b) => do
      let o ← deref org b
      let chain ← readAt s.mem.chains o.info.effectChain
      let (copyId, b) ← sampleCopy (holdingsContents s.mem.next) id b
      .ok (copyId, ⟨b, { s.mem with
        chains := Function.update s.mem.chains s.mem.next (some chain), next := s.mem.next + 1 }⟩)

/-- The operations on one sample. -/
inductive HoldingsOp (δ κ : Type) where
  | unpackKfs (entry : Fin sampleMaxEffects) (write : κ → κ)
  | clearKfs (entry : Fin sampleMaxEffects) (write : κ → κ)
  | resetKf (entry : Fin sampleMaxEffects)
  | editListFile (name : String)
  | dict (write : δ → δ)
  | filename (name : String)
  | del

/-- One operation on the sample `id`. -/
def holdingsStep (empty : κ) (id : ℤ) (s : Stage δ κ β) (op : HoldingsOp δ κ) : Exec (Unit × Stage δ κ β) := do
  let s ← match op with
    | .unpackKfs entry write => onSample id (unpackKfs empty write entry) s
    | .clearKfs entry write => onSample id (clearKfs write entry) s
    | .resetKf entry => onSample id (resetKf entry) s
    | .editListFile name => onSample id (setEditListFile name) s
    | .dict write => onSample id (changeDict write) s
    | .filename name => onSample id (tryFilename name) s
    | .del => delHoldings id s
  .ok ((), s)

end Functions

/-! ## Memory -/

section Memory

variable {δ κ β α : Type} {m m' : Memory δ κ β} {x x' y : Holdings}

theorem readAt_eq {pool : ℕ → Option α} {p : ℕ} {v : α} (h : pool p = some v) : readAt pool p = .ok v := by
  rw [readAt, h]

/-- What is freed was allocated. -/
theorem freeAt_eq {pool : ℕ → Option α} {p : Option ℕ} (h : ∀ a, p = some a → ∃ v, pool a = some v) :
    ∃ pool', freeAt pool p = .ok pool' ∧ (∀ a, p = some a → pool' a = none) ∧ ∀ a, p ≠ some a → pool' a = pool a := by
  cases p with
  | none => exact ⟨pool, rfl, fun a ha => (by cases ha), fun _ _ => rfl⟩
  | some p =>
    obtain ⟨v, hv⟩ := h p rfl
    refine ⟨Function.update pool p none, by rw [freeAt, readAt_eq hv, ok_bind], fun a ha => ?_, fun a ha => ?_⟩
    · obtain rfl := Option.some.inj ha
      exact Function.update_self ..
    · exact Function.update_of_ne (fun heq => ha (congrArg some heq.symm)) ..

/-- Different pointers are freed one after the other. -/
theorem freeEach_eq :
    ∀ (ps : List (Option ℕ)) {pool : ℕ → Option α}, (∀ a, some a ∈ ps → ∃ v, pool a = some v) →
      ps.Pairwise (fun p q => ∀ a, p = some a → q ≠ some a) →
      ∃ pool', freeEach pool ps = .ok pool' ∧ (∀ a, some a ∈ ps → pool' a = none) ∧
        ∀ a, some a ∉ ps → pool' a = pool a := by
  intro ps
  induction ps with
  | nil => exact fun _ _ => ⟨_, rfl, fun a ha => absurd ha List.not_mem_nil, fun _ _ => rfl⟩
  | cons p ps ih =>
    intro pool halloc hpair
    obtain ⟨hhead, htail⟩ := List.pairwise_cons.mp hpair
    obtain ⟨pool₁, hfree, hnone, hsame⟩ := @freeAt_eq α pool p
      fun a ha => halloc a (ha ▸ List.mem_cons_self)
    have halloc₁ : ∀ a, some a ∈ ps → ∃ v, pool₁ a = some v := by
      intro a ha
      rw [hsame a fun heq => hhead (some a) ha a heq rfl]
      exact halloc a (List.mem_cons_of_mem p ha)
    obtain ⟨pool', hrest, hnone', hsame'⟩ := ih halloc₁ htail
    refine ⟨pool', by rw [freeEach, hfree, ok_bind, hrest], fun a ha => ?_, fun a ha => ?_⟩
    · rcases List.mem_cons.mp ha with heq | ha
      · rw [hsame' a fun hmem => hhead (some a) hmem a heq.symm rfl]
        exact hnone a heq.symm
      · exact hnone' a ha
    · rw [List.mem_cons, not_or] at ha
      rw [hsame' a ha.2, hsame a (Ne.symm ha.1)]

/-- Writing at an address leaves another one, or writes what is there. -/
theorem update_same_iff {pool : ℕ → Option α} {p a : ℕ} {v : Option α} :
    Function.update pool p v a = pool a ↔ (a = p → v = pool p) := by
  by_cases h : a = p
  · rw [h, Function.update_self]
    exact ⟨fun hv _ => hv, fun hv => hv rfl⟩
  · rw [Function.update_of_ne h]
    exact ⟨fun _ heq => absurd heq h, fun _ => rfl⟩

/-- The keyframes of an entry of the sample's chain. -/
def kfOf (m : Memory δ κ β) (x : Holdings) (entry : Fin sampleMaxEffects) : Option ℕ :=
  (m.chains x.effectChain).bind fun chain => (chain entry).kf

/-- What the sample refers to is allocated, each for itself. -/
structure Owned (x : Holdings) (m : Memory δ κ β) : Prop where
  chain : ∃ chain, m.chains x.effectChain = some chain
  editListFile : ∀ p, x.editListFile = some p → ∃ t, m.strings p = some t
  encoderDestination : ∀ p, x.encoderDestination = some p → ∃ t, m.strings p = some t
  dict : ∀ p, x.dict = some p → ∃ d, m.dicts p = some d
  kf : ∀ entry p, kfOf m x entry = some p → ∃ c, m.ports p = some c
  kf_once : ∀ entry entry' p, kfOf m x entry = some p → kfOf m x entry' = some p → entry = entry'
  names : ∀ p, x.editListFile = some p → x.encoderDestination ≠ some p

/-- Nothing is allocated from the next address on. -/
structure Bounded (m : Memory δ κ β) : Prop where
  strings : ∀ p, m.next ≤ p → m.strings p = none
  dicts : ∀ p, m.next ≤ p → m.dicts p = none
  ports : ∀ p, m.next ≤ p → m.ports p = none
  chains : ∀ p, m.next ≤ p → m.chains p = none

/-- Two samples have different chains, and the names of one are not other names of the other. -/
structure Separate (x y : Holdings) : Prop where
  chain : x.effectChain ≠ y.effectChain
  names : ∀ p, x.editListFile = some p → y.encoderDestination ≠ some p
  names' : ∀ p, x.encoderDestination = some p → y.editListFile ≠ some p

/-- **What the sample refers to is what it was.** -/
structure SameHoldings (y : Holdings) (m m' : Memory δ κ β) : Prop where
  chain : m'.chains y.effectChain = m.chains y.effectChain
  editListFile : ∀ p, y.editListFile = some p → m'.strings p = m.strings p
  encoderDestination : ∀ p, y.encoderDestination = some p → m'.strings p = m.strings p
  dict : ∀ p, y.dict = some p → m'.dicts p = m.dicts p
  kf : ∀ entry p, kfOf m y entry = some p → m'.ports p = m.ports p

theorem SameHoldings.refl (y : Holdings) (m : Memory δ κ β) : SameHoldings y m m :=
  ⟨rfl, fun _ _ => rfl, fun _ _ => rfl, fun _ _ => rfl, fun _ _ _ => rfl⟩

theorem SameHoldings.kfOf_eq (h : SameHoldings y m m') (entry : Fin sampleMaxEffects) :
    kfOf m' y entry = kfOf m y entry := by
  rw [kfOf, h.chain]
  rfl

/-- Sameness is read against any state in between. -/
theorem SameHoldings.iff {m₁ : Memory δ κ β} (h : SameHoldings y m₁ m) : SameHoldings y m₁ m' ↔ SameHoldings y m m' := by
  constructor
  · intro h'
    exact ⟨h'.chain.trans h.chain.symm, fun p hp => (h'.editListFile p hp).trans (h.editListFile p hp).symm,
      fun p hp => (h'.encoderDestination p hp).trans (h.encoderDestination p hp).symm,
      fun p hp => (h'.dict p hp).trans (h.dict p hp).symm, fun entry p hp => by
        rw [h.kfOf_eq] at hp
        exact (h'.kf entry p hp).trans (h.kf entry p hp).symm⟩
  · intro h'
    exact ⟨h'.chain.trans h.chain, fun p hp => (h'.editListFile p hp).trans (h.editListFile p hp),
      fun p hp => (h'.encoderDestination p hp).trans (h.encoderDestination p hp),
      fun p hp => (h'.dict p hp).trans (h.dict p hp), fun entry p hp =>
        (h'.kf entry p (by rw [h.kfOf_eq]; exact hp)).trans (h.kf entry p hp)⟩

theorem Owned.of_same (hy : Owned y m) (h : SameHoldings y m m') : Owned y m' where
  chain := by
    rw [h.chain]
    exact hy.chain
  editListFile p hp := by
    rw [h.editListFile p hp]
    exact hy.editListFile p hp
  encoderDestination p hp := by
    rw [h.encoderDestination p hp]
    exact hy.encoderDestination p hp
  dict p hp := by
    rw [h.dict p hp]
    exact hy.dict p hp
  kf entry p hp := by
    rw [h.kfOf_eq] at hp
    rw [h.kf entry p hp]
    exact hy.kf entry p hp
  kf_once entry entry' p hp hp' := by
    rw [h.kfOf_eq] at hp hp'
    exact hy.kf_once entry entry' p hp hp'
  names := hy.names

/-- What an operation on the sample leaves, next to another sample. -/
structure Done (x y : Holdings) (m : Memory δ κ β) (x' : Holdings) (m' : Memory δ κ β) (keeps : Prop) : Prop where
  owned : Owned x' m'
  bounded : Bounded m'
  separate : Separate x' y
  same_iff : SameHoldings y m m' ↔ keeps

/-- The operation neither frees nor changes what the other sample refers to as well. -/
def Harmless (m : Memory δ κ β) (x y : Holdings) : HoldingsOp δ κ → Prop
  | .unpackKfs entry write | .clearKfs entry write => ∀ p c, kfOf m x entry = some p → m.ports p = some c →
      (∃ entry', kfOf m y entry' = some p) → write c = c
  | .resetKf entry => ∀ p, kfOf m x entry = some p → ∀ entry', kfOf m y entry' ≠ some p
  | .editListFile _ => True
  | .dict write => ∀ p d, x.dict = some p → m.dicts p = some d → y.dict = some p → write d = d
  | .filename _ => ∀ p, x.encoderDestination = some p → y.encoderDestination ≠ some p
  | .del => (∀ p, x.editListFile = some p → y.editListFile ≠ some p) ∧
      (∀ p, x.encoderDestination = some p → y.encoderDestination ≠ some p) ∧
      (∀ p, x.dict = some p → y.dict ≠ some p) ∧
      ∀ entry entry' p, kfOf m x entry = some p → kfOf m y entry' ≠ some p

/-- What is allocated is below the next address. -/
theorem lt_next {pool : ℕ → Option α} {next p : ℕ} (hpool : ∀ a, next ≤ a → pool a = none) (h : ∃ v, pool p = some v) :
    p < next := by
  by_contra hle
  obtain ⟨v, hv⟩ := h
  rw [hpool p (Nat.le_of_not_lt hle)] at hv
  cases hv

/-- What is allocated stays when something is put at another address that is not free. -/
theorem update_bounded {pool : ℕ → Option α} {next p : ℕ} {v : Option α} (hpool : ∀ a, next ≤ a → pool a = none)
    (hp : p < next) {a : ℕ} (ha : next ≤ a) : Function.update pool p v a = none := by
  rw [Function.update_of_ne (by omega)]
  exact hpool a ha

/-- The next address is taken. -/
theorem update_next {pool : ℕ → Option α} {next : ℕ} {v : Option α} (hpool : ∀ a, next ≤ a → pool a = none)
    {a : ℕ} (ha : next + 1 ≤ a) : Function.update pool next v a = none := by
  rw [Function.update_of_ne (by omega)]
  exact hpool a (by omega)

theorem kfOf_eq {chain : Fin sampleMaxEffects → ChainEntry β} (h : m.chains x.effectChain = some chain)
    (entry : Fin sampleMaxEffects) : kfOf m x entry = (chain entry).kf := by
  rw [kfOf, h]
  rfl

/-! ## The operations on the memory -/

theorem resetKf_done (hx : Owned x m) (hm : Bounded m) (hsep : Separate x y) (entry : Fin sampleMaxEffects) :
    ∃ m', resetKf entry x m = .ok (x, m') ∧ Done x y m x m' (Harmless m x y (.resetKf entry)) := by
  obtain ⟨chain, hchain⟩ := hx.chain
  have hkf : ∀ e, kfOf m x e = (chain e).kf := kfOf_eq hchain
  have hfreed : ∀ a, (chain entry).kf = some a → ∃ c, m.ports a = some c :=
    fun a ha => hx.kf entry a ((hkf entry).trans ha)
  obtain ⟨ports, hfree, hnone, hsame⟩ := freeAt_eq hfreed
  obtain ⟨chain', hchain'⟩ : ∃ chain', Function.update chain entry
    { chain entry with kf := none, kfStatus := 0, kfType := 0 } = chain' := ⟨_, rfl⟩
  obtain ⟨m', hm'⟩ : ∃ m' : Memory δ κ β, { m with
    ports := ports, chains := Function.update m.chains x.effectChain (some chain') } = m' := ⟨_, rfl⟩
  have hcell : m'.chains x.effectChain = some chain' := by
    rw [← hm']
    exact Function.update_self ..
  -- only this entry's keyframes are gone
  have hkf' : ∀ e p, kfOf m' x e = some p → e ≠ entry ∧ kfOf m x e = some p := by
    intro e p he
    rw [kfOf_eq hcell, ← hchain'] at he
    by_cases heq : e = entry
    · rw [heq, Function.update_self] at he
      cases he
    · rw [Function.update_of_ne heq] at he
      exact ⟨heq, (hkf e).trans he⟩
  have hports : ∀ e p, kfOf m' x e = some p → m'.ports p = m.ports p := by
    intro e p he
    obtain ⟨hne, he⟩ := hkf' e p he
    rw [← hm']
    exact hsame p fun hp => hne (hx.kf_once e entry p he ((hkf entry).trans hp))
  refine ⟨m', ?_, ⟨⟨chain', hcell⟩, ?_, ?_, ?_, fun e p he => ?_, fun e e' p he he' => ?_, hx.names⟩, ?_, hsep, ?_⟩
  · rw [resetKf, readAt_eq hchain, ok_bind, hfree, ok_bind]
    dsimp only
    rw [hchain', hm']
  · rw [← hm']
    exact hx.editListFile
  · rw [← hm']
    exact hx.encoderDestination
  · rw [← hm']
    exact hx.dict
  · rw [hports e p he]
    exact hx.kf e p (hkf' e p he).2
  · exact hx.kf_once e e' p (hkf' e p he).2 (hkf' e' p he').2
  · rw [← hm']
    refine ⟨hm.strings, hm.dicts, fun a ha => ?_, fun a ha => update_bounded hm.chains (lt_next hm.chains hx.chain) ha⟩
    by_cases hp : (chain entry).kf = some a
    · exact hnone a hp
    · exact (hsame a hp).trans (hm.ports a ha)
  · constructor
    · intro h p hp e he
      obtain ⟨c, hc⟩ := hx.kf entry p hp
      have hkept := h.kf e p he
      rw [← hm', hc] at hkept
      have hgone : ports p = none := hnone p ((hkf entry).symm.trans hp)
      cases hgone.symm.trans hkept
    · intro h
      rw [← hm']
      refine ⟨Function.update_of_ne (Ne.symm hsep.chain) .., fun _ _ => rfl, fun _ _ => rfl, fun _ _ => rfl, fun e p he => ?_⟩
      exact hsame p fun hp => h p ((hkf entry).trans hp) e he

/-- The port of an entry is written to. -/
theorem writePort_done (hx : Owned x m) (hm : Bounded m) (hsep : Separate x y) {p : ℕ} {c : κ} (v : κ)
    (hc : m.ports p = some c) :
    Done x y m x { m with ports := Function.update m.ports p (some v) } ((∃ entry', kfOf m y entry' = some p) → v = c) where
  owned := ⟨hx.chain, hx.editListFile, hx.encoderDestination, hx.dict, fun e q hq => by
    show ∃ c, Function.update m.ports p (some v) q = some c
    by_cases heq : q = p
    · exact ⟨v, by rw [heq, Function.update_self]⟩
    · rw [Function.update_of_ne heq]
      exact hx.kf e q hq, hx.kf_once, hx.names⟩
  bounded := ⟨hm.strings, hm.dicts, fun a ha => update_bounded hm.ports (lt_next hm.ports ⟨c, hc⟩) ha, hm.chains⟩
  separate := hsep
  same_iff := by
    constructor
    · rintro h ⟨e, he⟩
      have hkept : Function.update m.ports p (some v) p = m.ports p := h.kf e p he
      rw [Function.update_self, hc] at hkept
      exact Option.some.inj hkept
    · intro h
      refine ⟨rfl, fun _ _ => rfl, fun _ _ => rfl, fun _ _ => rfl, fun e q hq => update_same_iff.mpr fun heq => ?_⟩
      rw [hc, h ⟨e, heq ▸ hq⟩]

/-- The keyframes of an entry are written: nothing happens to a port that `y` has too if they stay as they were. -/
theorem writeKf_done (hx : Owned x m) (hm : Bounded m) (hsep : Separate x y) (write : κ → κ)
    {entry : Fin sampleMaxEffects} {p : ℕ} {c : κ} (hp : kfOf m x entry = some p) (hc : m.ports p = some c) :
    Done x y m x { m with ports := Function.update m.ports p (some (write c)) }
      (∀ q d, kfOf m x entry = some q → m.ports q = some d → (∃ entry', kfOf m y entry' = some q) → write d = d) := by
  have hdone := writePort_done hx hm hsep (write c) hc
  refine ⟨hdone.owned, hdone.bounded, hdone.separate, hdone.same_iff.trans ⟨fun h q d hq hd hy => ?_, fun h => ?_⟩⟩
  · obtain rfl := Option.some.inj (hp.symm.trans hq)
    obtain rfl := Option.some.inj (hc.symm.trans hd)
    exact h hy
  · exact h p c hp hc

theorem clearKfs_done (hx : Owned x m) (hm : Bounded m) (hsep : Separate x y) (entry : Fin sampleMaxEffects) (write : κ → κ) :
    ∃ m', clearKfs write entry x m = .ok (x, m') ∧ Done x y m x m' (Harmless m x y (.clearKfs entry write)) := by
  obtain ⟨chain, hchain⟩ := hx.chain
  have hkf := kfOf_eq hchain entry
  rw [clearKfs, readAt_eq hchain, ok_bind]
  cases hcase : (chain entry).kf with
  | none =>
    refine ⟨m, rfl, hx, hm, hsep, fun _ p c hp => ?_, fun _ => SameHoldings.refl y m⟩
    rw [hkf, hcase] at hp
    cases hp
  | some p =>
    have hp : kfOf m x entry = some p := hkf.trans hcase
    obtain ⟨c, hc⟩ := hx.kf entry p hp
    dsimp only
    rw [readAt_eq hc, ok_bind]
    exact ⟨_, rfl, writeKf_done hx hm hsep write hp hc⟩

theorem unpackKfs_done (hx : Owned x m) (hy : Owned y m) (hm : Bounded m) (hsep : Separate x y) (empty : κ)
    (entry : Fin sampleMaxEffects) (write : κ → κ) :
    ∃ m', unpackKfs empty write entry x m = .ok (x, m') ∧ Done x y m x m' (Harmless m x y (.unpackKfs entry write)) := by
  obtain ⟨chain, hchain⟩ := hx.chain
  have hkf : ∀ e, kfOf m x e = (chain e).kf := kfOf_eq hchain
  rw [unpackKfs, readAt_eq hchain, ok_bind]
  cases hcase : (chain entry).kf with
  | some p =>
    have hp : kfOf m x entry = some p := (hkf entry).trans hcase
    obtain ⟨c, hc⟩ := hx.kf entry p hp
    dsimp only
    rw [readAt_eq hc, ok_bind]
    exact ⟨_, rfl, writeKf_done hx hm hsep write hp hc⟩
  | none =>
    -- a port of its own
    obtain ⟨chain', hchain'⟩ : ∃ chain', Function.update chain entry { chain entry with kf := some m.next } = chain' :=
      ⟨_, rfl⟩
    obtain ⟨m', hm'⟩ : ∃ m' : Memory δ κ β, { m with
      ports := Function.update m.ports m.next (some (write empty)),
      chains := Function.update m.chains x.effectChain (some chain'), next := m.next + 1 } = m' := ⟨_, rfl⟩
    have hcell : m'.chains x.effectChain = some chain' := by
      rw [← hm']
      exact Function.update_self ..
    have hkf' : ∀ e p, kfOf m' x e = some p → (e = entry ∧ p = m.next) ∨ (e ≠ entry ∧ kfOf m x e = some p) := by
      intro e p he
      rw [kfOf_eq hcell, ← hchain'] at he
      by_cases heq : e = entry
      · rw [heq, Function.update_self] at he
        exact Or.inl ⟨heq, (Option.some.inj he).symm⟩
      · rw [Function.update_of_ne heq] at he
        exact Or.inr ⟨heq, (hkf e).trans he⟩
    have hlt : ∀ e p, kfOf m x e = some p → p < m.next := fun e p he => lt_next hm.ports (hx.kf e p he)
    refine ⟨m', by dsimp only; rw [hchain', hm'], ⟨⟨chain', hcell⟩, ?_, ?_, ?_, fun e p he => ?_, fun e e' p he he' => ?_,
      hx.names⟩, ?_, hsep, fun _ p c hp => ?_, fun _ => ?_⟩
    · rw [← hm']
      exact hx.editListFile
    · rw [← hm']
      exact hx.encoderDestination
    · rw [← hm']
      exact hx.dict
    · rw [← hm']
      rcases hkf' e p he with ⟨-, rfl⟩ | ⟨-, he⟩
      · exact ⟨write empty, Function.update_self ..⟩
      · show ∃ c, Function.update m.ports m.next _ p = some c
        rw [Function.update_of_ne (Nat.ne_of_lt (hlt e p he))]
        exact hx.kf e p he
    · rcases hkf' e p he with ⟨rfl, hp⟩ | ⟨-, he⟩ <;> rcases hkf' e' p he' with ⟨rfl, hp'⟩ | ⟨-, he'⟩
      · rfl
      · exact absurd hp (Nat.ne_of_lt (hlt e' p he'))
      · exact absurd hp' (Nat.ne_of_lt (hlt e p he))
      · exact hx.kf_once e e' p he he'
    · rw [← hm']
      exact ⟨fun a ha => hm.strings a (Nat.le_of_succ_le ha), fun a ha => hm.dicts a (Nat.le_of_succ_le ha),
        fun a ha => update_next hm.ports ha,
        fun a ha => update_bounded hm.chains (lt_next hm.chains hx.chain) (Nat.le_of_succ_le ha)⟩
    · rw [hkf, hcase] at hp
      cases hp
    · rw [← hm']
      refine ⟨Function.update_of_ne (Ne.symm hsep.chain) .., fun _ _ => rfl, fun _ _ => rfl, fun _ _ => rfl, fun e p he => ?_⟩
      exact Function.update_of_ne (Nat.ne_of_lt (lt_next hm.ports (hy.kf e p he))) ..

theorem setEditListFile_done (hx : Owned x m) (hy : Owned y m) (hm : Bounded m) (hsep : Separate x y) (name : String) :
    ∃ x' m', setEditListFile name x m = .ok (x', m') ∧ Done x y m x' m' (Harmless m x y (.editListFile name)) := by
  have hlt : ∀ p, (∃ t, m.strings p = some t) → p ≠ m.next := fun p hp => Nat.ne_of_lt (lt_next hm.strings hp)
  refine ⟨_, _, rfl, ⟨hx.chain, fun p hp => ?_, fun p hp => ?_, hx.dict, hx.kf, hx.kf_once, fun p hp hp' => ?_⟩,
    ⟨fun a ha => update_next hm.strings ha, fun a ha => hm.dicts a (Nat.le_of_succ_le ha),
      fun a ha => hm.ports a (Nat.le_of_succ_le ha), fun a ha => hm.chains a (Nat.le_of_succ_le ha)⟩,
    ⟨hsep.chain, fun p hp hp' => ?_, hsep.names'⟩, fun _ => trivial, fun _ => ?_⟩
  · obtain rfl := Option.some.inj hp
    exact ⟨name, Function.update_self ..⟩
  · obtain ⟨t, ht⟩ := hx.encoderDestination p hp
    exact ⟨t, (Function.update_of_ne (hlt p ⟨t, ht⟩) ..).trans ht⟩
  · obtain rfl := Option.some.inj hp
    exact hlt _ (hx.encoderDestination _ hp') rfl
  · obtain rfl := Option.some.inj hp
    exact hlt _ (hy.encoderDestination _ hp') rfl
  · exact ⟨rfl, fun p hp => Function.update_of_ne (hlt p (hy.editListFile p hp)) ..,
      fun p hp => Function.update_of_ne (hlt p (hy.encoderDestination p hp)) .., fun _ _ => rfl, fun _ _ _ => rfl⟩

theorem changeDict_done (hx : Owned x m) (hm : Bounded m) (hsep : Separate x y) (write : δ → δ) :
    ∃ m', changeDict write x m = .ok (x, m') ∧ Done x y m x m' (Harmless m x y (.dict write)) := by
  rw [changeDict]
  cases hdict : x.dict with
  | none =>
    refine ⟨m, rfl, hx, hm, hsep, fun _ p d hp => ?_, fun _ => SameHoldings.refl y m⟩
    rw [hdict] at hp
    cases hp
  | some p =>
    obtain ⟨d, hd⟩ := hx.dict p hdict
    dsimp only
    rw [readAt_eq hd, ok_bind]
    refine ⟨_, rfl, ⟨hx.chain, hx.editListFile, hx.encoderDestination, fun q hq => ?_, hx.kf, hx.kf_once, hx.names⟩,
      ⟨hm.strings, fun a ha => update_bounded hm.dicts (lt_next hm.dicts ⟨d, hd⟩) ha, hm.ports, hm.chains⟩, hsep,
      fun h q e hq he hy => ?_, fun h => ?_⟩
    · obtain rfl := Option.some.inj (hdict.symm.trans hq)
      exact ⟨write d, Function.update_self ..⟩
    · obtain rfl := Option.some.inj (hdict.symm.trans hq)
      obtain rfl := Option.some.inj (hd.symm.trans he)
      have hkept : Function.update m.dicts p (some (write d)) p = m.dicts p := h.dict p hy
      rw [Function.update_self, hd] at hkept
      exact Option.some.inj hkept
    · refine ⟨rfl, fun _ _ => rfl, fun _ _ => rfl, fun q hq => update_same_iff.mpr fun heq => ?_, fun _ _ _ => rfl⟩
      rw [hd, h p d hdict hd (heq ▸ hq)]

theorem tryFilename_done (hx : Owned x m) (hy : Owned y m) (hm : Bounded m) (hsep : Separate x y) (name : String) :
    ∃ x' m', tryFilename name x m = .ok (x', m') ∧ Done x y m x' m' (Harmless m x y (.filename name)) := by
  have hlt : ∀ p, (∃ t, m.strings p = some t) → p ≠ m.next := fun p hp => Nat.ne_of_lt (lt_next hm.strings hp)
  obtain ⟨strings, hfree, hnone, hsame⟩ := freeAt_eq hx.encoderDestination
  have hfree' : ∀ a, m.next ≤ a → strings a = none := by
    intro a ha
    by_cases hp : x.encoderDestination = some a
    · exact hnone a hp
    · rw [hsame a hp]
      exact hm.strings a ha
  have hrun : tryFilename name x m = .ok ({ x with encoderDestination := some m.next },
      { m with strings := Function.update strings m.next (some name), next := m.next + 1 }) := by
    rw [tryFilename, hfree, ok_bind]
  refine ⟨_, _, hrun, ⟨hx.chain, fun p hp => ?_, fun p hp => ?_, hx.dict, hx.kf,
    hx.kf_once, fun p hp hp' => ?_⟩,
    ⟨fun a ha => update_next hfree' ha, fun a ha => hm.dicts a (Nat.le_of_succ_le ha),
      fun a ha => hm.ports a (Nat.le_of_succ_le ha), fun a ha => hm.chains a (Nat.le_of_succ_le ha)⟩,
    ⟨hsep.chain, hsep.names, fun p hp hp' => ?_⟩, fun h p hp hp' => ?_, fun h => ?_⟩
  · obtain ⟨t, ht⟩ := hx.editListFile p hp
    refine ⟨t, (Function.update_of_ne (hlt p ⟨t, ht⟩) ..).trans ?_⟩
    exact (hsame p (hx.names p hp)).trans ht
  · obtain rfl := Option.some.inj hp
    exact ⟨name, Function.update_self ..⟩
  · obtain rfl := Option.some.inj hp'
    exact hlt _ (hx.editListFile _ hp) rfl
  · obtain rfl := Option.some.inj hp
    exact hlt _ (hy.editListFile _ hp') rfl
  · have hkept : Function.update strings m.next (some name) p = m.strings p := h.encoderDestination p hp'
    obtain ⟨t, ht⟩ := hx.encoderDestination p hp
    rw [Function.update_of_ne (hlt p ⟨t, ht⟩), hnone p hp, ht] at hkept
    cases hkept
  · refine ⟨rfl, fun p hp => ?_, fun p hp => ?_, fun _ _ => rfl, fun _ _ _ => rfl⟩
    · refine (Function.update_of_ne (hlt p (hy.editListFile p hp)) ..).trans ?_
      exact hsame p fun hp' => hsep.names' p hp' hp
    · refine (Function.update_of_ne (hlt p (hy.encoderDestination p hp)) ..).trans ?_
      exact hsame p fun hp' => h p hp' hp

/-- **Deleting** frees what the sample refers to, and nothing else. -/
theorem freeHoldings_done (hx : Owned x m) (hm : Bounded m) (hsep : Separate x y) :
    ∃ m', freeHoldings x m = .ok m' ∧ Bounded m' ∧ (SameHoldings y m m' ↔ Harmless m x y .del) := by
  obtain ⟨chain, hchain⟩ := hx.chain
  have hkf : ∀ e, kfOf m x e = (chain e).kf := kfOf_eq hchain
  have hmem : ∀ a, some a ∈ List.ofFn (fun i => (chain i).kf) ↔ ∃ e, kfOf m x e = some a := by
    intro a
    rw [List.mem_ofFn]
    exact ⟨fun ⟨e, he⟩ => ⟨e, (hkf e).trans he⟩, fun ⟨e, he⟩ => ⟨e, (hkf e).symm.trans he⟩⟩
  have hports : ∀ a, some a ∈ List.ofFn (fun i => (chain i).kf) → ∃ c, m.ports a = some c := by
    intro a ha
    obtain ⟨e, he⟩ := (hmem a).mp ha
    exact hx.kf e a he
  have hpair : (List.ofFn fun i => (chain i).kf).Pairwise fun p q => ∀ a, p = some a → q ≠ some a := by
    rw [List.pairwise_ofFn]
    intro i j hij a hi hj
    exact absurd (hx.kf_once i j a ((hkf i).trans hi) ((hkf j).trans hj)) (Fin.ne_of_lt hij)
  obtain ⟨ports, hfree₁, hnone₁, hsame₁⟩ := freeEach_eq _ hports hpair
  obtain ⟨chains, hfree₂, hnone₂, hsame₂⟩ := @freeAt_eq _ m.chains (some x.effectChain) fun a ha => by
    obtain rfl := Option.some.inj ha
    exact ⟨chain, hchain⟩
  obtain ⟨strings₁, hfree₃, hnone₃, hsame₃⟩ := freeAt_eq hx.encoderDestination
  have hname : ∀ a, x.editListFile = some a → ∃ t, strings₁ a = some t := by
    intro a ha
    rw [hsame₃ a (hx.names a ha)]
    exact hx.editListFile a ha
  obtain ⟨strings, hfree₄, hnone₄, hsame₄⟩ := freeAt_eq hname
  obtain ⟨dicts, hfree₅, hnone₅, hsame₅⟩ := freeAt_eq hx.dict
  -- a name stays if the sample has no such name
  have hstrings : ∀ a, x.encoderDestination ≠ some a → x.editListFile ≠ some a → strings a = m.strings a :=
    fun a h₁ h₂ => (hsame₄ a h₂).trans (hsame₃ a h₁)
  have hgone : ∀ a, x.encoderDestination = some a ∨ x.editListFile = some a → strings a = none := by
    intro a h
    by_cases h₂ : x.editListFile = some a
    · exact hnone₄ a h₂
    · rw [hsame₄ a h₂]
      exact hnone₃ a (h.resolve_right h₂)
  have hrun : freeHoldings x m =
      .ok { m with ports := ports, chains := chains, strings := strings, dicts := dicts } := by
    rw [freeHoldings, readAt_eq hchain, ok_bind, hfree₁, ok_bind, hfree₂, ok_bind, hfree₃, ok_bind, hfree₄, ok_bind,
      hfree₅, ok_bind]
  refine ⟨_, hrun, ⟨fun a ha => ?_, fun a ha => ?_, fun a ha => ?_, fun a ha => ?_⟩, ?_, ?_⟩
  · by_cases h : x.encoderDestination = some a ∨ x.editListFile = some a
    · exact hgone a h
    · rw [not_or] at h
      exact (hstrings a h.1 h.2).trans (hm.strings a ha)
  · by_cases h : x.dict = some a
    · exact hnone₅ a h
    · exact (hsame₅ a h).trans (hm.dicts a ha)
  · by_cases h : some a ∈ List.ofFn fun i => (chain i).kf
    · exact hnone₁ a h
    · exact (hsame₁ a h).trans (hm.ports a ha)
  · by_cases h : some x.effectChain = some a
    · exact hnone₂ a h
    · exact (hsame₂ a h).trans (hm.chains a ha)
  · intro h
    refine ⟨fun p hp hp' => ?_, fun p hp hp' => ?_, fun p hp hp' => ?_, fun e e' p hp hp' => ?_⟩
    · obtain ⟨t, ht⟩ := hx.editListFile p hp
      cases (hgone p (Or.inr hp)).symm.trans ((h.editListFile p hp').trans ht)
    · obtain ⟨t, ht⟩ := hx.encoderDestination p hp
      cases (hgone p (Or.inl hp)).symm.trans ((h.encoderDestination p hp').trans ht)
    · obtain ⟨d, hd⟩ := hx.dict p hp
      cases (hnone₅ p hp).symm.trans ((h.dict p hp').trans hd)
    · obtain ⟨c, hc⟩ := hx.kf e p hp
      cases (hnone₁ p ((hmem p).mpr ⟨e, hp⟩)).symm.trans ((h.kf e' p hp').trans hc)
  · rintro ⟨helf, henc, hdict, hkfs⟩
    refine ⟨hsame₂ _ fun heq => hsep.chain (Option.some.inj heq), fun p hp => ?_, fun p hp => ?_, fun p hp => ?_,
      fun e p hp => ?_⟩
    · exact hstrings p (fun hp' => hsep.names' p hp' hp) fun hp' => helf p hp' hp
    · exact hstrings p (fun hp' => henc p hp' hp) fun hp' => hsep.names p hp' hp
    · exact hsame₅ p fun hp' => hdict p hp' hp
    · refine hsame₁ p fun hmem' => ?_
      obtain ⟨e', he'⟩ := (hmem p).mp hmem'
      exact hkfs e' e p he' hp

end Memory

/-! ## The operations on the samples -/

section Stage

variable {δ κ β : Type} {s : Stage δ κ β}

/-- **An operation on a sample** changes what this sample holds. -/
theorem onSample_spec (hb : Sound s.samples) {id : ℤ} (hid : id ≠ sampleMaxSamples)
    {f : Holdings → Memory δ κ β → Exec (Holdings × Memory δ κ β)} {x x' : Holdings} {m : Memory δ κ β}
    (hx : s.samples.infoOf id = some x) (hf : f x s.mem = .ok (x', m)) :
    ∃ b, onSample id f s = .ok ⟨b, m⟩ ∧ Sound b ∧ (Regular s.samples → Regular b) ∧
      b.sampleHash = s.samples.sampleHash ∧ ∀ k, b.infoOf k = if k = id then some x' else s.samples.infoOf k := by
  obtain ⟨cache, hget, hb₁, hsame⟩ := sampleGet_spec hb hid
  obtain ⟨si, hlook, hinfo⟩ := Option.bind_eq_some_iff.mp hx
  obtain ⟨o, hheap, hox⟩ := Option.map_eq_some_iff.mp hinfo
  have hlook₁ : (s.samples.withCache cache).lookup id = some si := (hsame id).trans hlook
  have hheap₁ : (s.samples.withCache cache).heap si = some o := hheap
  have hderef : deref si (s.samples.withCache cache) = .ok o := by
    rw [deref, hheap₁]
  refine ⟨{ s.samples.withCache cache with heap := Function.update s.samples.heap si (some ⟨o.sampleId, x'⟩) }, ?_,
    hb₁.update hheap₁ rfl, fun hreg => (hreg.withCache hb₁).withHeap (hb₁.update hheap₁ rfl), rfl, fun k => ?_⟩
  · rw [onSample, hget, ok_bind, hlook]
    dsimp only
    rw [hderef, ok_bind, hox, hf, ok_bind]
    rfl
  · rw [← infoOf_withCache hsame k]
    exact hb₁.infoOf_update hlook₁ hheap₁ x' k

/-- Where there is no sample, nothing changes. -/
theorem onSample_none (hb : Sound s.samples) {id : ℤ} (hid : id ≠ sampleMaxSamples)
    (f : Holdings → Memory δ κ β → Exec (Holdings × Memory δ κ β)) (hx : s.samples.lookup id = none) :
    ∃ b, onSample id f s = .ok ⟨b, s.mem⟩ ∧ Sound b ∧ b.sampleHash = s.samples.sampleHash ∧
      (∀ k, b.lookup k = s.samples.lookup k) ∧ ∀ k, b.infoOf k = s.samples.infoOf k := by
  obtain ⟨cache, hget, hb₁, hsame⟩ := sampleGet_spec hb hid
  exact ⟨_, by rw [onSample, hget, ok_bind, hx], hb₁, rfl, hsame, infoOf_withCache hsame⟩

/-- One sample is worked on, and another one stands by. -/
structure StandsBy (t o : ℤ) (y : Holdings) (s : Stage δ κ β) : Prop where
  sound : Sound s.samples
  regular : Live s.samples t → Regular s.samples
  gone : ¬ Live s.samples t → s.samples.lookup t = none
  other : s.samples.infoOf o = some y
  bounded : Bounded s.mem
  target : ∀ x, s.samples.infoOf t = some x → Owned x s.mem ∧ Separate x y

/-- **The other sample is unchanged**: what it refers to is allocated, and what it was. -/
def Unchanged (o : ℤ) (s s' : Stage δ κ β) : Prop :=
  s'.samples.infoOf o = s.samples.infoOf o ∧
    ∀ y, s.samples.infoOf o = some y → SameHoldings y s.mem s'.mem ∧ Owned y s'.mem

/-- The operation on one sample neither frees nor changes what the other one refers to. -/
def LeavesAlone (t o : ℤ) (s : Stage δ κ β) (op : HoldingsOp δ κ) : Prop :=
  ∀ x y, s.samples.infoOf t = some x → s.samples.infoOf o = some y → Harmless s.mem x y op

section Pair

variable {t o : ℤ} {y : Holdings}

theorem StandsBy.lookup_none_iff (hs : StandsBy t o y s) : s.samples.lookup t = none ↔ ¬ Live s.samples t :=
  ⟨fun h hlive => hs.sound.lookup_live hlive h, hs.gone⟩

/-- An operation on the memory of one sample. -/
theorem StandsBy.onSample (hs : StandsBy t o y s) (ht : t ≠ sampleMaxSamples) (hto : t ≠ o) {op : HoldingsOp δ κ}
    {f : Holdings → Memory δ κ β → Exec (Holdings × Memory δ κ β)}
    (hf : ∀ x, s.samples.infoOf t = some x → Owned x s.mem → Separate x y →
      ∃ x' m, f x s.mem = .ok (x', m) ∧ Done x y s.mem x' m (Harmless s.mem x y op)) :
    ∃ s', onSample t f s = .ok s' ∧ StandsBy t o y s' ∧ (SameHoldings y s.mem s'.mem ↔ LeavesAlone t o s op) := by
  by_cases hlook : s.samples.lookup t = none
  · -- the sample is gone
    obtain ⟨b, hrun, hb, hhash, hsame, hinfo⟩ := onSample_none hs.sound ht f hlook
    have hnone : s.samples.infoOf t = none := by
      rw [Bank.infoOf, hlook]
      rfl
    have hdead : ¬ Live b t := by
      rw [Live, hhash]
      exact hs.lookup_none_iff.mp hlook
    refine ⟨⟨b, s.mem⟩, hrun, ⟨hb, fun h => absurd h hdead, fun _ => (hsame t).trans hlook, (hinfo o).trans hs.other,
      hs.bounded, fun x hx => ?_⟩, fun _ x y' hx => ?_, fun _ => SameHoldings.refl y s.mem⟩
    · rw [hinfo, hnone] at hx
      cases hx
    · rw [hnone] at hx
      cases hx
  · obtain ⟨x, hx⟩ := hs.sound.infoOf_of_lookup hlook
    obtain ⟨hown, hsep⟩ := hs.target x hx
    obtain ⟨x', m, hrun, hdone⟩ := hf x hx hown hsep
    obtain ⟨b, hstep, hb, hreg, hhash, hinfo⟩ := onSample_spec hs.sound ht hx hrun
    have hlive : Live b t ↔ Live s.samples t := by rw [Live, hhash]; rfl
    have hlive' : Live s.samples t := by
      by_contra h
      exact hlook (hs.gone h)
    refine ⟨⟨b, m⟩, hstep, ⟨hb, fun h => hreg (hs.regular (hlive.mp h)), fun h => absurd (hlive.mpr hlive') h, ?_,
      hdone.bounded, fun z hz => ?_⟩, hdone.same_iff.trans ⟨fun h z w hz hw => ?_, fun h => h x y hx hs.other⟩⟩
    · rw [hinfo, if_neg (Ne.symm hto)]
      exact hs.other
    · rw [hinfo, if_pos rfl] at hz
      obtain rfl := Option.some.inj hz
      exact ⟨hdone.owned, hdone.separate⟩
    · obtain rfl := Option.some.inj (hx.symm.trans hz)
      obtain rfl := Option.some.inj (hs.other.symm.trans hw)
      exact h

/-- Deleting one of the samples. -/
theorem StandsBy.del (hs : StandsBy t o y s) (ht : t ≠ sampleMaxSamples) (hto : t ≠ o) :
    ∃ s', delHoldings t s = .ok s' ∧ StandsBy t o y s' ∧
      (SameHoldings y s.mem s'.mem ↔ LeavesAlone t o s (.del : HoldingsOp δ κ)) := by
  by_cases hlive : Live s.samples t
  · obtain ⟨si, c, cache, hfind, hb, hlook, hheap, hat, hsame⟩ := findStored_live hs.sound hlive
    have hreg : Regular (s.samples.withCache cache) := (hs.regular hlive).withCache hb
    have hlive₁ : Live (s.samples.withCache cache) t := hlive
    have hpos := (hs.sound.live_lt hlive).1
    have hx : s.samples.infoOf t = some c.info := by
      rw [Bank.infoOf, hlook, Option.bind_some, hheap]
      rfl
    obtain ⟨hown, hsep⟩ := hs.target c.info hx
    obtain ⟨m, hfree, hm, hiff⟩ := freeHoldings_done hown hs.bounded hsep
    obtain ⟨b', hdrop, hleft⟩ := dropStored_eq hreg si hlive₁
    have hdead : ¬ Live b' t := fun h => ((hleft.live_iff t).mp h).1 rfl
    refine ⟨⟨b', m⟩, ?_, ⟨hleft.sound hb hat, fun h => absurd h hdead, fun _ => hleft.lookup_self hb, ?_, hm,
      fun x hx' => ?_⟩, hiff.trans ⟨fun h z w hz hw => ?_, fun h => h c.info y hx hs.other⟩⟩
    · rw [delHoldings, hfind, ok_bind]
      dsimp only
      rw [hfree, ok_bind, hdrop, ok_bind]
    · show b'.infoOf o = some y
      rw [hleft.infoOf_other hb hat (by omega) (Ne.symm hto), infoOf_withCache hsame]
      exact hs.other
    · have hnone : b'.infoOf t = none := hleft.infoOf_self hb
      cases hnone.symm.trans hx'
    · obtain rfl := Option.some.inj (hx.symm.trans hz)
      obtain rfl := Option.some.inj (hs.other.symm.trans hw)
      exact h
  · obtain ⟨cache, hfind, hb, hsame⟩ := findStored_none hs.sound ht hlive
    have hnone : s.samples.infoOf t = none := by
      rw [Bank.infoOf, hs.gone hlive]
      rfl
    refine ⟨⟨s.samples.withCache cache, s.mem⟩, by rw [delHoldings, hfind, ok_bind], ⟨hb, fun h => absurd h hlive,
      fun _ => (hsame t).trans (hs.gone hlive), (infoOf_withCache hsame o).trans hs.other, hs.bounded, fun x hx => ?_⟩,
      fun _ x w hx => ?_, fun _ => SameHoldings.refl y s.mem⟩
    · have hx' : (s.samples.withCache cache).infoOf t = some x := hx
      rw [infoOf_withCache hsame, hnone] at hx'
      cases hx'
    · rw [hnone] at hx
      cases hx

/-- **One operation** on one sample leaves the other exactly if it is harmless to it. -/
theorem holdingsStep_spec (empty : κ) (hs : StandsBy t o y s) (ht : t ≠ sampleMaxSamples) (hto : t ≠ o) (hy : Owned y s.mem)
    (op : HoldingsOp δ κ) :
    ∃ s', holdingsStep empty t s op = .ok ((), s') ∧ StandsBy t o y s' ∧
      (SameHoldings y s.mem s'.mem ↔ LeavesAlone t o s op) := by
  cases op with
  | unpackKfs entry write =>
    obtain ⟨s', h, hs'⟩ := @StandsBy.onSample δ κ β s t o y hs ht hto (.unpackKfs entry write) (unpackKfs empty write entry)
      fun x _ hx hsep => ⟨x, unpackKfs_done hx hy hs.bounded hsep empty entry write⟩
    exact ⟨s', by rw [holdingsStep, h, ok_bind], hs'⟩
  | clearKfs entry write =>
    obtain ⟨s', h, hs'⟩ := @StandsBy.onSample δ κ β s t o y hs ht hto (.clearKfs entry write) (clearKfs write entry)
      fun x _ hx hsep => ⟨x, clearKfs_done hx hs.bounded hsep entry write⟩
    exact ⟨s', by rw [holdingsStep, h, ok_bind], hs'⟩
  | resetKf entry =>
    obtain ⟨s', h, hs'⟩ := @StandsBy.onSample δ κ β s t o y hs ht hto (.resetKf entry) (resetKf entry)
      fun x _ hx hsep => ⟨x, resetKf_done hx hs.bounded hsep entry⟩
    exact ⟨s', by rw [holdingsStep, h, ok_bind], hs'⟩
  | editListFile name =>
    obtain ⟨s', h, hs'⟩ := @StandsBy.onSample δ κ β s t o y hs ht hto (.editListFile name) (setEditListFile name)
      fun x _ hx hsep => setEditListFile_done hx hy hs.bounded hsep name
    exact ⟨s', by rw [holdingsStep, h, ok_bind], hs'⟩
  | dict write =>
    obtain ⟨s', h, hs'⟩ := @StandsBy.onSample δ κ β s t o y hs ht hto (.dict write) (changeDict write)
      fun x _ hx hsep => ⟨x, changeDict_done hx hs.bounded hsep write⟩
    exact ⟨s', by rw [holdingsStep, h, ok_bind], hs'⟩
  | filename name =>
    obtain ⟨s', h, hs'⟩ := @StandsBy.onSample δ κ β s t o y hs ht hto (.filename name) (tryFilename name)
      fun x _ hx hsep => tryFilename_done hx hy hs.bounded hsep name
    exact ⟨s', by rw [holdingsStep, h, ok_bind], hs'⟩
  | del =>
    obtain ⟨s', h, hs'⟩ := hs.del ht hto
    exact ⟨s', by rw [holdingsStep, h, ok_bind], hs'⟩

/-- **A run of operations** on one sample leaves the other unchanged exactly if they are all harmless to it. -/
theorem StandsBy.unchanged_iff (empty : κ) (hs : StandsBy t o y s) (ht : t ≠ sampleMaxSamples) (hto : t ≠ o)
    (hy : Owned y s.mem) (ops : List (HoldingsOp δ κ)) :
    (∀ pre, pre <+: ops → Ensures (runOps (holdingsStep empty t) s pre) fun a => Unchanged o s a.2) ↔
      RunMeets (holdingsStep empty t) (LeavesAlone t o) s ops := by
  have hunchanged : ∀ s' : Stage δ κ β, StandsBy t o y s' → (Unchanged o s s' ↔ SameHoldings y s.mem s'.mem) := by
    intro s' hs'
    constructor
    · exact fun h => (h.2 y hs.other).1
    · refine fun h => ⟨hs'.other.trans hs.other.symm, fun w hw => ?_⟩
      obtain rfl := Option.some.inj (hs.other.symm.trans hw)
      exact ⟨h, hy.of_same h⟩
  have hstep : ∀ s₁ op, StandsBy t o y s₁ → Unchanged o s s₁ → ∃ r s', holdingsStep empty t s₁ op = .ok (r, s') ∧
      StandsBy t o y s' ∧ (Unchanged o s s' ↔ LeavesAlone t o s₁ op) := by
    intro s₁ op hbase hinv
    have hsame := (hunchanged s₁ hbase).mp hinv
    obtain ⟨s', hstep, hbase', hiff⟩ := holdingsStep_spec empty hbase ht hto (hy.of_same hsame) op
    exact ⟨(), s', hstep, hbase', ((hunchanged s' hbase').trans hsame.iff).trans hiff⟩
  exact runOps_keeps_iff hstep hs ((hunchanged s hs).mpr (SameHoldings.refl y s.mem)) ops

end Pair

/-! ## Copying -/

/-- A sample that can be copied, with memory of its own. -/
structure Copyable (s : Stage δ κ β) (id : ℤ) (x : Holdings) : Prop where
  regular : Regular s.samples
  coherent : Coherent s.samples
  bounded : Bounded s.mem
  live : Live s.samples id
  holds : s.samples.infoOf id = some x
  owned : Owned x s.mem
  canAllocate : CanAllocate s.samples

/-- The state after a copy: the two samples, each standing by while the other is worked on. -/
structure Copied (id copyId : ℤ) (x x' : Holdings) (s : Stage δ κ β) : Prop where
  ne : id ≠ copyId
  range : id ≠ sampleMaxSamples ∧ copyId ≠ sampleMaxSamples
  original : StandsBy copyId id x s
  copy : StandsBy id copyId x' s
  owned : Owned x s.mem ∧ Owned x' s.mem

/-- **`sample_copy`** gives a sample with the same pointers but that of the effect chain. -/
theorem copyHoldings_spec {id : ℤ} {x : Holdings} (hs : Copyable s id x) :
    ∃ copyId s', copyHoldings id s = .ok (some copyId, s') ∧
      Copied id copyId x { x with effectChain := s.mem.next } s' := by
  obtain ⟨there, cache, hexists, hb₁, hiff, hsame₁⟩ := sampleExists_spec hs.regular.toSound id
  obtain rfl := hiff.mpr hs.live
  have hid := (hs.regular.live_lt hs.live).2.2
  obtain ⟨cache₂, hget, hb₂, hsame₂⟩ := sampleGet_spec hb₁ (show id ≠ sampleMaxSamples by omega)
  have hreg₁ : Regular (s.samples.withCache cache) := hs.regular.withCache hb₁
  have hreg₂ : Regular ((s.samples.withCache cache).withCache cache₂) := hreg₁.withCache hb₂
  have hco₂ : Coherent ((s.samples.withCache cache).withCache cache₂) :=
    (hs.coherent.withCache hs.regular.toSound hb₁ hsame₁).withCache hb₁ hb₂ hsame₂
  obtain ⟨org, hlook, hinfo⟩ := Option.bind_eq_some_iff.mp hs.holds
  obtain ⟨o, hheap, rfl⟩ := Option.map_eq_some_iff.mp hinfo
  rw [hsame₁, hlook] at hget
  have hderef : deref org ((s.samples.withCache cache).withCache cache₂) = .ok o := by
    have hheap₂ : ((s.samples.withCache cache).withCache cache₂).heap org = some o := hheap
    rw [deref, hheap₂]
  obtain ⟨chain, hchain⟩ := hs.owned.chain
  obtain ⟨y, copyId, b, hcopy, hb, hy, -, hhi, hfresh, hcreated⟩ :=
    @sampleCopy_live Holdings _ hreg₂ (holdingsContents s.mem.next) id hs.live hs.canAllocate
  have hy' : y = o.info := by
    rw [infoOf_withCache hsame₂, infoOf_withCache hsame₁, hs.holds] at hy
    exact (Option.some.inj hy).symm
  subst hy'
  have hleft := hcreated hco₂
  have hne : id ≠ copyId := by
    rintro rfl
    exact hfresh hs.live
  obtain ⟨m, hm⟩ : ∃ m : Memory δ κ β, { s.mem with
    chains := Function.update s.mem.chains s.mem.next (some chain), next := s.mem.next + 1 } = m := ⟨_, rfl⟩
  have hinfo' : ∀ k, b.infoOf k = if k = copyId then some { o.info with effectChain := s.mem.next }
      else s.samples.infoOf k := by
    intro k
    rw [hleft.infoOf hreg₂.toSound hco₂ hb.toSound, infoOf_withCache hsame₂, infoOf_withCache hsame₁]
    rfl
  have horiginal : b.infoOf id = some o.info := by
    rw [hinfo', if_neg hne]
    exact hs.holds
  have hcopied : b.infoOf copyId = some { o.info with effectChain := s.mem.next } := by
    rw [hinfo', if_pos rfl]
  have hchainlt : o.info.effectChain < s.mem.next := lt_next hs.bounded.chains hs.owned.chain
  have hbounded : Bounded m := by
    rw [← hm]
    exact ⟨fun a ha => hs.bounded.strings a (Nat.le_of_succ_le ha), fun a ha => hs.bounded.dicts a (Nat.le_of_succ_le ha),
      fun a ha => hs.bounded.ports a (Nat.le_of_succ_le ha), fun a ha => update_next hs.bounded.chains ha⟩
  have hsame : SameHoldings o.info s.mem m := by
    rw [← hm]
    exact ⟨Function.update_of_ne (Nat.ne_of_lt hchainlt) .., fun _ _ => rfl, fun _ _ => rfl, fun _ _ => rfl,
      fun _ _ _ => rfl⟩
  have hown : Owned o.info m := hs.owned.of_same hsame
  have hkf : ∀ e, kfOf m { o.info with effectChain := s.mem.next } e = kfOf m o.info e := by
    intro e
    have hcell : m.chains s.mem.next = some chain := by
      rw [← hm]
      exact Function.update_self ..
    rw [@kfOf_eq δ κ β m { o.info with effectChain := s.mem.next } chain hcell, hsame.kfOf_eq, kfOf_eq hchain]
  have hown' : Owned { o.info with effectChain := s.mem.next } m := by
    refine ⟨⟨chain, ?_⟩, hown.editListFile, hown.encoderDestination, hown.dict, fun e p he => ?_, fun e e' p he he' => ?_,
      hown.names⟩
    · rw [← hm]
      exact Function.update_self ..
    · rw [hkf] at he
      exact hown.kf e p he
    · rw [hkf] at he he'
      exact hown.kf_once e e' p he he'
  have hlive : Live b id := (hleft.live_iff id).mpr (Or.inr hs.live)
  have hlive' : Live b copyId := (hleft.live_iff copyId).mpr (Or.inl rfl)
  have hsep : Separate o.info { o.info with effectChain := s.mem.next } :=
    ⟨Nat.ne_of_lt hchainlt, hs.owned.names, fun p hp hp' => hs.owned.names p hp' hp⟩
  have hsep' : Separate { o.info with effectChain := s.mem.next } o.info :=
    ⟨Nat.ne_of_gt hchainlt, hs.owned.names, fun p hp hp' => hs.owned.names p hp' hp⟩
  refine ⟨copyId, ⟨b, m⟩, ?_, hne, ⟨by omega, by omega⟩,
    ⟨hb.toSound, fun _ => hb, fun h => absurd hlive' h, horiginal, hbounded, fun z hz => ?_⟩,
    ⟨hb.toSound, fun _ => hb, fun h => absurd hlive h, hcopied, hbounded, fun z hz => ?_⟩, hown, hown'⟩
  · rw [copyHoldings, hexists, ok_bind]
    dsimp only
    rw [if_neg (by decide), hget, ok_bind]
    dsimp only
    rw [hderef, ok_bind, readAt_eq hchain, ok_bind, hcopy, ok_bind, hm]
  · obtain rfl := Option.some.inj (hcopied.symm.trans hz)
    exact ⟨hown', hsep'⟩
  · obtain rfl := Option.some.inj (horiginal.symm.trans hz)
    exact ⟨hown, hsep⟩

/-- One sample, with the name of its edit list. -/
def named : Stage Unit Unit Unit where
  samples := single ⟨some 0, none, none, 1⟩
  mem := {
    strings := Function.update (fun _ => none) 0 (some "sample_00001.edl")
    dicts := fun _ => none
    ports := fun _ => none
    chains := Function.update (fun _ => none) 1 (some fun _ => ⟨none, 0, 0, ()⟩)
    next := 2 }

theorem copyable_named : Copyable named 1 ⟨some 0, none, none, 1⟩ := by
  have hkf : ∀ e, kfOf named.mem ⟨some 0, none, none, 1⟩ e = none := fun e => rfl
  refine ⟨regular_single _, coherent_single _, ⟨fun p hp => ?_, fun _ _ => rfl, fun _ _ => rfl, fun p hp => ?_⟩, ?_, rfl,
    ⟨⟨fun _ => ⟨none, 0, 0, ()⟩, rfl⟩, fun p hp => ?_, fun p hp => (by cases hp), fun p hp => (by cases hp),
      fun e p hp => ?_, fun e e' p hp => ?_, fun p _ hp => (by cases hp)⟩, Or.inr (by decide)⟩
  · have hlt : 2 ≤ p := hp
    show Function.update (fun _ => none) 0 (some "sample_00001.edl") p = none
    rw [Function.update_of_ne (by omega)]
  · have hlt : 2 ≤ p := hp
    show Function.update (fun _ => none) 1 (some fun _ => (⟨none, 0, 0, ()⟩ : ChainEntry Unit)) p = none
    rw [Function.update_of_ne (by omega)]
  · exact Option.some_ne_none 0
  · obtain rfl := Option.some.inj hp
    exact ⟨_, rfl⟩
  · rw [hkf] at hp
    cases hp
  · rw [hkf] at hp
    cases hp

end Stage

end Veejay.Samples
