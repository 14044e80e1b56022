import Veejay.Keyframes.Animation

/-!
# Accessors of the effect chain

The entries of the effect chain of a sample are read and written by functions that take the position in the chain from
their caller, and some of them the number of an argument.  Each of them has its own test of these
(`libsample/sampleadm.c`).

* `Entry`, `Sample` — the chain, with every field of an entry;
* `outside`, `above`, `beyond`, `unchecked` — the tests; `getEntry`, `setEntry` — what the accessors have in common;
* `sampleGetEffect`, … — the accessors;
* `Access`, `run` — a call of one of them;
* `Frame` — nothing changes but what a setter sets;
* `reading_iff`, `writing_iff` — when a getter and a setter stay in the chain;
* `staysInside_iff` — **which calls stay in their entry.**
-/

namespace Veejay.ChainAccess

open CLib Veejay.Samples
open Veejay.Keyframes (slot sampleMaxParameters)

variable {κ ι ρ : Type}

/-! ## The chain -/

/-- `sample_eff_chain` -/
structure Entry (κ ι : Type) where
  effectId : ℤ
  eFlag : ℤ
  arg : Fin sampleMaxParameters → ℤ
  frameOffset : ℤ
  frameTrimmer : ℤ
  aFlag : ℤ
  volume : ℤ
  sourceType : ℤ
  channel : ℤ
  isRendering : ℤ
  kf : Option κ
  kfStatus : ℤ
  kfType : ℤ
  fxInstance : Option ι

/-- `sample_info`: the chain, the range, and the other fields. -/
structure Sample (κ ι ρ : Type) where
  chain : Fin sampleMaxEffects → Entry κ ι
  firstFrame : ℤ
  lastFrame : ℤ
  others : ρ

/-- `arg[argnr]` -/
def argSlot (argnr : ℤ) : Exec (Fin sampleMaxParameters) :=
  if h : 0 ≤ argnr ∧ argnr < sampleMaxParameters then .ok ⟨argnr.toNat, by omega⟩ else .error .outOfBounds

/-- What the accessors call: `get_keyframe_value`, `keyframe_pack` and `vpn` on the port of an entry, and
`vj_effect_get_extra_frame`. -/
structure Code (κ : Type) where
  value : κ → ℤ → ℕ → Option ℤ
  pack : κ → ℤ → ℤ → Option (List UInt8)
  port : κ
  extraFrame : ℤ → ℤ

/-! ## Tests -/

/-- `p < 0 || p >= n` -/
def outside (n : ℕ) (p : ℤ) : Bool := p < 0 || n ≤ p

/-- `p >= n` -/
def above (n : ℕ) (p : ℤ) : Bool := n ≤ p

/-- `p < 0 || p > n` -/
def beyond (n : ℕ) (p : ℤ) : Bool := p < 0 || n < p

/-- No test. -/
def unchecked : Bool := false

/-- An entry is read, unless there is no sample or the test refuses. -/
def getEntry {β : Type} (refuses : Bool) (failure : β) (read : Entry κ ι → Exec β) (sample : Option (Sample κ ι ρ))
    (position : ℤ) : Exec β :=
  match sample with
  | none => .ok failure
  | some s =>
    if refuses then .ok failure
    else do
      let c ← slot position
      read (s.chain c)

/-- An entry is written, unless there is no sample or the test refuses. -/
def setEntry (refuses : Bool) (failure : ℤ) (write : Entry κ ι → Exec (Entry κ ι))
    (sample : Option (Sample κ ι ρ)) (position : ℤ) : Exec (ℤ × Option (Sample κ ι ρ)) :=
  match sample with
  | none => .ok (failure, none)
  | some s =>
    if refuses then .ok (failure, some s)
    else do
      let c ← slot position
      let e ← write (s.chain c)
      .ok (1, some { s with chain := Function.update s.chain c e })

/-! ## Getters -/

section Accessors

variable (sample : Option (Sample κ ι ρ))

/-- `sample_entry_is_rendering` -/
def sampleEntryIsRendering (position : ℤ) : Exec ℤ :=
  getEntry (outside sampleMaxEffects position) (-1) (fun e => .ok e.isRendering) sample position

/-- `sample_get_effect` -/
def sampleGetEffect (position : ℤ) : Exec ℤ :=
  getEntry (outside sampleMaxEffects position) (-1) (fun e => .ok (if e.eFlag = 0 then -1 else e.effectId)) sample
    position

/-- `sample_get_effect_any`; its test is a comment. -/
def sampleGetEffectAny (position : ℤ) : Exec ℤ :=
  getEntry unchecked (-1) (fun e => .ok e.effectId) sample position

/-- `sample_get_chain_status` -/
def sampleGetChainStatus (position : ℤ) : Exec ℤ :=
  getEntry (above sampleMaxEffects position) (-1) (fun e => .ok e.eFlag) sample position

/-- `sample_get_offset` -/
def sampleGetOffset (position : ℤ) : Exec ℤ :=
  getEntry (above sampleMaxEffects position) (-1) (fun e => .ok e.frameOffset) sample position

/-- `sample_get_trimmer` -/
def sampleGetTrimmer (position : ℤ) : Exec ℤ :=
  getEntry (outside sampleMaxEffects position) (-1) (fun e => .ok e.frameTrimmer) sample position

/-- `sample_get_chain_volume` -/
def sampleGetChainVolume (position : ℤ) : Exec ℤ :=
  getEntry (above sampleMaxEffects position) (-1) (fun e => .ok e.volume) sample position

/-- `sample_get_chain_audio` -/
def sampleGetChainAudio (position : ℤ) : Exec ℤ :=
  getEntry unchecked (-1) (fun e => .ok e.aFlag) sample position

/-- `sample_get_chain_channel` -/
def sampleGetChainChannel (position : ℤ) : Exec ℤ :=
  getEntry (outside sampleMaxEffects position) (-1) (fun e => .ok e.channel) sample position

/-- `sample_get_chain_source` -/
def sampleGetChainSource (position : ℤ) : Exec ℤ :=
  getEntry (outside sampleMaxEffects position) (-1) (fun e => .ok e.sourceType) sample position

/-- `sample_get_kf_port` -/
def sampleGetKfPort (entry : ℤ) : Exec (Option κ) := getEntry unchecked none (fun e => .ok e.kf) sample entry

/-- `sample_get_kf_status`: the status, and what is written to `type`. -/
def sampleGetKfStatus (entry : ℤ) : Exec (ℤ × Option ℤ) :=
  getEntry unchecked (0, none) (fun e => .ok (e.kfStatus, some e.kfType)) sample entry

/-- `sample_has_extra_frame` -/
def sampleHasExtraFrame (code : Code κ) (position : ℤ) : Exec ℤ :=
  getEntry (above sampleMaxEffects position) (-1)
    (fun e => .ok (if e.effectId = -1 then -1 else if code.extraFrame e.effectId = 1 then 1 else -1)) sample position

/-- `sample_get_effect_arg` -/
def sampleGetEffectArg (position argnr : ℤ) : Exec ℤ :=
  getEntry (above sampleMaxEffects position || beyond sampleMaxParameters argnr) (-1)
    (fun e => do
      let k ← argSlot argnr
      .ok (e.arg k))
    sample position

/-- The loops of `sample_get_all_effect_arg` from argument `i` on. -/
def readArgs (code : Code κ) (e : Entry κ ι) (nFrame : ℤ) : ℕ → ℕ → List ℤ → Exec (List ℤ)
  | 0, _, args => .ok args
  | n + 1, i, args =>
    match e.kf.bind fun port => code.value port nFrame i with
    | some tmp => readArgs code e nFrame n (i + 1) (args.set i tmp)
    | none => do
      let k ← argSlot i
      readArgs code e nFrame n (i + 1) (args.set i (e.arg k))

/-- `sample_get_all_effect_arg` -/
def sampleGetAllEffectArg (code : Code κ) (position : ℤ) (args : List ℤ) (argLen nFrame : ℤ) : Exec (ℤ × List ℤ) :=
  if argLen = 0 then .ok (1, args)
  else
    getEntry (above sampleMaxEffects position || beyond sampleMaxParameters argLen) (-1, args)
      (fun e => do
        let args ← readArgs code e nFrame argLen.toNat 0 args
        .ok (argLen, args))
      sample position

/-- `sample_chain_get_kfs` -/
def sampleChainGetKfs (code : Code κ) (entry parameterId : ℤ) : Exec (Option (List UInt8)) :=
  getEntry (beyond sampleMaxEffects entry || beyond 9 parameterId) none
    (fun e => .ok (e.kf.bind fun port => code.pack port parameterId entry)) sample entry

/-! ## Setters -/

/-- `sample_entry_set_is_rendering` -/
def sampleEntrySetIsRendering (position value : ℤ) : Exec (ℤ × Option (Sample κ ι ρ)) :=
  setEntry (outside sampleMaxEffects position) (-1) (fun e => .ok { e with isRendering := value }) sample position

/-- `sample_get_plugin`, which sets the instance that it is given. -/
def sampleGetPlugin (position : ℤ) (ptr : Option ι) : Exec (Option ι × Option (Sample κ ι ρ)) :=
  if outside sampleMaxEffects position then .ok (none, sample)
  else
    match sample with
    | none => .ok (none, none)
    | some s => do
      let c ← slot position
      let fxInstance := ptr.or (s.chain c).fxInstance
      .ok (fxInstance, some { s with chain := Function.update s.chain c { s.chain c with fxInstance := fxInstance } })

/-- `sample_set_chain_status` -/
def sampleSetChainStatus (position status : ℤ) : Exec (ℤ × Option (Sample κ ι ρ)) :=
  setEntry (outside sampleMaxEffects position) (-1) (fun e => .ok { e with eFlag := status }) sample position

/-- `sample_set_effect_arg` -/
def sampleSetEffectArg (position argnr value : ℤ) : Exec (ℤ × Option (Sample κ ι ρ)) :=
  setEntry (above sampleMaxEffects position || beyond sampleMaxParameters argnr) (-1)
    (fun e => do
      let k ← argSlot argnr
      .ok { e with arg := Function.update e.arg k value })
    sample position

/-- `sample_set_chain_channel` -/
def sampleSetChainChannel (position input : ℤ) : Exec (ℤ × Option (Sample κ ι ρ)) :=
  setEntry (outside sampleMaxEffects position) (-1) (fun e => .ok { e with channel := input }) sample position

/-- `sample_set_chain_source` -/
def sampleSetChainSource (position input : ℤ) : Exec (ℤ × Option (Sample κ ι ρ)) :=
  setEntry (outside sampleMaxEffects position) (-1) (fun e => .ok { e with sourceType := input }) sample position

/-- `sample_chain_reset_kf` -/
def sampleChainResetKf (entry : ℤ) : Exec (ℤ × Option (Sample κ ι ρ)) :=
  setEntry unchecked 0 (fun e => .ok { e with kfStatus := 0, kfType := 0, kf := none }) sample entry

/-- `sample_set_kf_type`, without a result -/
def sampleSetKfType (entry type : ℤ) : Exec (ℤ × Option (Sample κ ι ρ)) :=
  setEntry unchecked 0 (fun e => .ok { e with kfType := type }) sample entry

/-- `sample_chain_set_kf_status` -/
def sampleChainSetKfStatus (entry status : ℤ) : Exec (ℤ × Option (Sample κ ι ρ)) :=
  setEntry unchecked (-1) (fun e => .ok { e with kfStatus := status }) sample entry

/-- `sample_set_offset` -/
def sampleSetOffset (chainEntry frameOffset : ℤ) : Exec (ℤ × Option (Sample κ ι ρ)) :=
  setEntry unchecked (-1) (fun e => .ok { e with frameOffset := frameOffset }) sample chainEntry

/-- What `sample_set_trimmer` sets in a sample. -/
def trimmed (s : Sample κ ι ρ) (trimmer : ℤ) : ℤ :=
  let trimmer := if s.lastFrame - s.firstFrame < trimmer then 0 else trimmer
  if trimmer < 0 then 0 else trimmer

/-- `sample_set_trimmer`; its test is that of an argument. -/
def sampleSetTrimmer (chainEntry trimmer : ℤ) : Exec (ℤ × Option (Sample κ ι ρ)) :=
  setEntry (outside sampleMaxParameters chainEntry) (-1)
    (fun e => .ok { e with frameTrimmer := (sample.map fun s => trimmed s trimmer).getD 0 }) sample chainEntry

/-- `sample_set_chain_audio`; its test is that of an argument. -/
def sampleSetChainAudio (chainEntry val : ℤ) : Exec (ℤ × Option (Sample κ ι ρ)) :=
  setEntry (outside sampleMaxParameters chainEntry) (-1) (fun e => .ok { e with aFlag := val }) sample chainEntry

/-- What `sample_set_chain_volume` sets. -/
def wrapped (volume : ℤ) : ℤ :=
  let volume := if volume < 0 then 100 else volume
  if 100 < volume then 0 else volume

/-- `sample_set_chain_volume` -/
def sampleSetChainVolume (chainEntry volume : ℤ) : Exec (ℤ × Option (Sample κ ι ρ)) :=
  setEntry unchecked (-1) (fun e => .ok { e with volume := wrapped volume }) sample chainEntry

/-- `sample_chain_alloc_kf`, without a result -/
def sampleChainAllocKf (code : Code κ) (entry : ℤ) : Exec (ℤ × Option (Sample κ ι ρ)) :=
  setEntry unchecked 0 (fun e => .ok { e with kf := some code.port }) sample entry

end Accessors

/-! ## Calls -/

/-- A call of an accessor, with the arguments that its caller gives. -/
inductive Access (ι : Type) where
  | entryIsRendering (position : ℤ)
  | getEffect (position : ℤ)
  | getEffectAny (position : ℤ)
  | getChainStatus (position : ℤ)
  | getOffset (position : ℤ)
  | getTrimmer (position : ℤ)
  | getChainVolume (position : ℤ)
  | getChainAudio (position : ℤ)
  | getChainChannel (position : ℤ)
  | getChainSource (position : ℤ)
  | getKfPort (entry : ℤ)
  | getKfStatus (entry : ℤ)
  | hasExtraFrame (position : ℤ)
  | getEffectArg (position argnr : ℤ)
  | getAllEffectArg (position : ℤ) (args : List ℤ) (argLen nFrame : ℤ)
  | chainGetKfs (entry parameterId : ℤ)
  | entrySetIsRendering (position value : ℤ)
  | getPlugin (position : ℤ) (ptr : Option ι)
  | setChainStatus (position status : ℤ)
  | setEffectArg (position argnr value : ℤ)
  | setChainChannel (position input : ℤ)
  | setChainSource (position input : ℤ)
  | chainResetKf (entry : ℤ)
  | setKfType (entry type : ℤ)
  | chainSetKfStatus (entry status : ℤ)
  | setOffset (chainEntry frameOffset : ℤ)
  | setTrimmer (chainEntry trimmer : ℤ)
  | setChainAudio (chainEntry val : ℤ)
  | setChainVolume (chainEntry volume : ℤ)
  | chainAllocKf (entry : ℤ)

/-- The sample after a getter. -/
def reading {β : Type} (sample : Option (Sample κ ι ρ)) (x : Exec β) : Exec (Option (Sample κ ι ρ)) := do
  let _ ← x
  .ok sample

/-- The sample after a setter. -/
def writing {β : Type} (x : Exec (β × Option (Sample κ ι ρ))) : Exec (Option (Sample κ ι ρ)) := do
  let r ← x
  .ok r.2

/-- The sample after a call. -/
def run (code : Code κ) (sample : Option (Sample κ ι ρ)) : Access ι → Exec (Option (Sample κ ι ρ))
  | .entryIsRendering p => reading sample (sampleEntryIsRendering sample p)
  | .getEffect p => reading sample (sampleGetEffect sample p)
  | .getEffectAny p => reading sample (sampleGetEffectAny sample p)
  | .getChainStatus p => reading sample (sampleGetChainStatus sample p)
  | .getOffset p => reading sample (sampleGetOffset sample p)
  | .getTrimmer p => reading sample (sampleGetTrimmer sample p)
  | .getChainVolume p => reading sample (sampleGetChainVolume sample p)
  | .getChainAudio p => reading sample (sampleGetChainAudio sample p)
  | .getChainChannel p => reading sample (sampleGetChainChannel sample p)
  | .getChainSource p => reading sample (sampleGetChainSource sample p)
  | .getKfPort p => reading sample (sampleGetKfPort sample p)
  | .getKfStatus p => reading sample (sampleGetKfStatus sample p)
  | .hasExtraFrame p => reading sample (sampleHasExtraFrame sample code p)
  | .getEffectArg p argnr => reading sample (sampleGetEffectArg sample p argnr)
  | .getAllEffectArg p args argLen nFrame => reading sample (sampleGetAllEffectArg sample code p args argLen nFrame)
  | .chainGetKfs p parameterId => reading sample (sampleChainGetKfs sample code p parameterId)
  | .entrySetIsRendering p value => writing (sampleEntrySetIsRendering sample p value)
  | .getPlugin p ptr => writing (sampleGetPlugin sample p ptr)
  | .setChainStatus p status => writing (sampleSetChainStatus sample p status)
  | .setEffectArg p argnr value => writing (sampleSetEffectArg sample p argnr value)
  | .setChainChannel p input => writing (sampleSetChainChannel sample p input)
  | .setChainSource p input => writing (sampleSetChainSource sample p input)
  | .chainResetKf p => writing (sampleChainResetKf sample p)
  | .setKfType p type => writing (sampleSetKfType sample p type)
  | .chainSetKfStatus p status => writing (sampleChainSetKfStatus sample p status)
  | .setOffset p frameOffset => writing (sampleSetOffset sample p frameOffset)
  | .setTrimmer p trimmer => writing (sampleSetTrimmer sample p trimmer)
  | .setChainAudio p val => writing (sampleSetChainAudio sample p val)
  | .setChainVolume p volume => writing (sampleSetChainVolume sample p volume)
  | .chainAllocKf p => writing (sampleChainAllocKf sample code p)

/-! ## What a call may change -/

/-- A field of an entry. -/
inductive Field where
  | effectId
  | eFlag
  | arg (argnr : ℤ)
  | frameOffset
  | frameTrimmer
  | aFlag
  | volume
  | sourceType
  | channel
  | isRendering
  | kf
  | kfStatus
  | kfType
  | fxInstance

/-- The field is the same in two entries. -/
def Agree (e e' : Entry κ ι) : Field → Prop
  | .effectId => e'.effectId = e.effectId
  | .eFlag => e'.eFlag = e.eFlag
  | .arg argnr => ∀ k : Fin sampleMaxParameters, ((k : ℕ) : ℤ) = argnr → e'.arg k = e.arg k
  | .frameOffset => e'.frameOffset = e.frameOffset
  | .frameTrimmer => e'.frameTrimmer = e.frameTrimmer
  | .aFlag => e'.aFlag = e.aFlag
  | .volume => e'.volume = e.volume
  | .sourceType => e'.sourceType = e.sourceType
  | .channel => e'.channel = e.channel
  | .isRendering => e'.isRendering = e.isRendering
  | .kf => e'.kf = e.kf
  | .kfStatus => e'.kfStatus = e.kfStatus
  | .kfType => e'.kfType = e.kfType
  | .fxInstance => e'.fxInstance = e.fxInstance

/-- The position and the fields that an accessor is there to set. -/
def Access.sets : Access ι → ℤ × List Field
  | .entrySetIsRendering p _ => (p, [.isRendering])
  | .getPlugin p _ => (p, [.fxInstance])
  | .setChainStatus p _ => (p, [.eFlag])
  | .setEffectArg p argnr _ => (p, [.arg argnr])
  | .setChainChannel p _ => (p, [.channel])
  | .setChainSource p _ => (p, [.sourceType])
  | .chainResetKf p => (p, [.kfStatus, .kfType, .kf])
  | .setKfType p _ => (p, [.kfType])
  | .chainSetKfStatus p _ => (p, [.kfStatus])
  | .setOffset p _ => (p, [.frameOffset])
  | .setTrimmer p _ => (p, [.frameTrimmer])
  | .setChainAudio p _ => (p, [.aFlag])
  | .setChainVolume p _ => (p, [.volume])
  | .chainAllocKf p => (p, [.kf])
  | _ => (0, [])

/-- **Nothing else is changed** in a sample. -/
structure Frame (sets : ℤ × List Field) (s s' : Sample κ ι ρ) : Prop where
  others : s'.others = s.others
  range : s'.firstFrame = s.firstFrame ∧ s'.lastFrame = s.lastFrame
  entries : ∀ (c : Fin sampleMaxEffects) (f : Field), ¬ (((c : ℕ) : ℤ) = sets.1 ∧ f ∈ sets.2) →
    Agree (s.chain c) (s'.chain c) f

/-- **A call stays in its entry**: it reads and writes nothing outside the chain and outside the arguments, and changes
nothing but what it is there to set. -/
def StaysInside (code : Code κ) (sample : Option (Sample κ ι ρ)) (a : Access ι) : Prop :=
  Ensures (run code sample a) (Option.Rel (Frame a.sets) sample)

/-- **What the callers have to look after**, since the accessor does not. -/
def Access.Within : Access ι → Prop
  | .getEffectAny p | .getChainAudio p | .getKfPort p | .getKfStatus p | .chainResetKf p | .setKfType p _ |
    .chainSetKfStatus p _ | .setOffset p _ | .setChainVolume p _ | .chainAllocKf p => 0 ≤ p ∧ p < sampleMaxEffects
  | .getChainStatus p | .getOffset p | .getChainVolume p | .hasExtraFrame p => 0 ≤ p
  | .setTrimmer p _ | .setChainAudio p _ => p < sampleMaxEffects ∨ sampleMaxParameters ≤ p
  | .getEffectArg p argnr | .setEffectArg p argnr _ =>
    sampleMaxEffects ≤ p ∨ argnr < 0 ∨ sampleMaxParameters < argnr ∨ 0 ≤ p ∧ argnr ≠ sampleMaxParameters
  | .getAllEffectArg p _ argLen _ => 0 ≤ p ∨ argLen ≤ 0 ∨ sampleMaxParameters < argLen
  | .chainGetKfs p parameterId => p ≠ sampleMaxEffects ∨ parameterId < 0 ∨ 9 < parameterId
  | _ => True

/-! ## Entries -/

theorem agree_refl (e : Entry κ ι) (f : Field) : Agree e e f := by
  cases f with
  | arg argnr => exact fun _ _ => rfl
  | _ => rfl

theorem Frame.refl (sets : ℤ × List Field) (s : Sample κ ι ρ) : Frame sets s s where
  others := rfl
  range := ⟨rfl, rfl⟩
  entries _ _ _ := agree_refl _ _

theorem slot_of_lt {p : ℤ} (h : 0 ≤ p ∧ p < sampleMaxEffects) : ∃ c, slot p = .ok c ∧ ((c : ℕ) : ℤ) = p :=
  ⟨⟨p.toNat, by omega⟩, dif_pos h, Int.toNat_of_nonneg h.1⟩

theorem slot_of_not_lt {p : ℤ} (h : ¬ (0 ≤ p ∧ p < sampleMaxEffects)) : slot p = .error .outOfBounds := dif_neg h

theorem argSlot_of_lt {n : ℤ} (h : 0 ≤ n ∧ n < sampleMaxParameters) : ∃ k, argSlot n = .ok k ∧ ((k : ℕ) : ℤ) = n :=
  ⟨⟨n.toNat, by omega⟩, dif_pos h, Int.toNat_of_nonneg h.1⟩

/-- One entry is changed. -/
theorem Frame.update {s : Sample κ ι ρ} {c : Fin sampleMaxEffects} {e : Entry κ ι} {p : ℤ} {fields : List Field}
    (hc : ((c : ℕ) : ℤ) = p) (he : ∀ f, f ∉ fields → Agree (s.chain c) e f) :
    Frame (p, fields) s { s with chain := Function.update s.chain c e } where
  others := rfl
  range := ⟨rfl, rfl⟩
  entries := by
    intro c' f hf
    dsimp only at hf ⊢
    by_cases heq : c' = c
    · rw [heq, Function.update_self]
      exact he f fun hmem => hf ⟨by rw [heq, hc], hmem⟩
    · rw [Function.update_of_ne heq]
      exact agree_refl _ _

/-! ## Getters and setters -/

section Calls

variable {s : Sample κ ι ρ} {refuses : Bool} {p : ℤ}

/-- **A getter stays in the chain** exactly if it refuses, or the position is one and the entry can be read. -/
theorem reading_iff {β : Type} {failure : β} {read : Entry κ ι → Exec β} {sets : ℤ × List Field} :
    Ensures (reading (some s) (getEntry refuses failure read (some s) p)) (Option.Rel (Frame sets) (some s)) ↔
      refuses = true ∨ ∃ c, slot p = .ok c ∧ ∃ b, read (s.chain c) = .ok b := by
  have hself : Option.Rel (Frame sets) (some s) (some s) := .some (Frame.refl _ s)
  rw [getEntry]
  by_cases hrefuses : refuses = true
  · rw [if_pos hrefuses, reading, ok_bind, ensures_ok]
    exact iff_of_true hself (.inl hrefuses)
  · rw [if_neg hrefuses, or_iff_right hrefuses, reading]
    constructor
    · rintro ⟨s', hrun, -⟩
      obtain ⟨b, hb, -⟩ := bind_eq_ok.mp hrun
      obtain ⟨c, hc, hread⟩ := bind_eq_ok.mp hb
      exact ⟨c, hc, b, hread⟩
    · rintro ⟨c, hc, b, hread⟩
      rw [hc, ok_bind, hread, ok_bind, ensures_ok]
      exact hself

/-- **A setter stays in the chain** exactly if it refuses, or the position is one and the entry can be written. -/
theorem writing_iff {failure : ℤ} {write : Entry κ ι → Exec (Entry κ ι)} {fields : List Field}
    (hwrite : ∀ e e', write e = .ok e' → ∀ f, f ∉ fields → Agree e e' f) :
    Ensures (writing (setEntry refuses failure write (some s) p)) (Option.Rel (Frame (p, fields)) (some s)) ↔
      refuses = true ∨ ∃ c, slot p = .ok c ∧ ∃ e, write (s.chain c) = .ok e := by
  rw [setEntry]
  by_cases hrefuses : refuses = true
  · rw [if_pos hrefuses, writing, ok_bind, ensures_ok]
    exact iff_of_true (.some (Frame.refl _ s)) (.inl hrefuses)
  · rw [if_neg hrefuses, or_iff_right hrefuses, writing]
    constructor
    · rintro ⟨s', hrun, -⟩
      obtain ⟨r, hr, -⟩ := bind_eq_ok.mp hrun
      obtain ⟨c, hc, hrest⟩ := bind_eq_ok.mp hr
      obtain ⟨e, he, -⟩ := bind_eq_ok.mp hrest
      exact ⟨c, hc, e, he⟩
    · rintro ⟨c, hc, e, he⟩
      have hplace : ((c : ℕ) : ℤ) = p := by
        by_cases hlt : 0 ≤ p ∧ p < sampleMaxEffects
        · obtain ⟨c', hc', hval⟩ := slot_of_lt hlt
          obtain rfl := Except.ok.inj (hc.symm.trans hc')
          exact hval
        · rw [slot_of_not_lt hlt] at hc
          cases hc
      rw [hc, ok_bind, he, ok_bind, ok_bind, ensures_ok]
      exact .some (Frame.update hplace (hwrite _ e he))

theorem slot_iff {P : Fin sampleMaxEffects → Prop} (hP : ∀ c, P c) :
    (∃ c, slot p = .ok c ∧ P c) ↔ 0 ≤ p ∧ p < sampleMaxEffects := by
  constructor
  · rintro ⟨c, hc, -⟩
    by_contra hlt
    rw [slot_of_not_lt hlt] at hc
    cases hc
  · intro hlt
    obtain ⟨c, hc, -⟩ := slot_of_lt hlt
    exact ⟨c, hc, hP c⟩

/-- A getter of a field. -/
theorem reading_field_iff {β : Type} {failure : β} {read : Entry κ ι → β} {sets : ℤ × List Field} :
    Ensures (reading (some s) (getEntry refuses failure (fun e => .ok (read e)) (some s) p))
        (Option.Rel (Frame sets) (some s)) ↔ refuses = true ∨ 0 ≤ p ∧ p < sampleMaxEffects := by
  rw [reading_iff, slot_iff fun c => ⟨_, rfl⟩]

/-- A setter of fields. -/
theorem writing_field_iff {failure : ℤ} {write : Entry κ ι → Entry κ ι} {fields : List Field}
    (hwrite : ∀ e f, f ∉ fields → Agree e (write e) f) :
    Ensures (writing (setEntry refuses failure (fun e => .ok (write e)) (some s) p))
        (Option.Rel (Frame (p, fields)) (some s)) ↔ refuses = true ∨ 0 ≤ p ∧ p < sampleMaxEffects := by
  rw [writing_iff, slot_iff fun c => ⟨_, rfl⟩]
  intro e e' he
  obtain rfl := Except.ok.inj he
  exact hwrite e

/-- `sample_get_plugin` stays in the chain. -/
theorem getPlugin_stays (ptr : Option ι) :
    Ensures (writing (sampleGetPlugin (some s) p ptr)) (Option.Rel (Frame (p, [.fxInstance])) (some s)) := by
  rw [sampleGetPlugin]
  by_cases houtside : outside sampleMaxEffects p = true
  · rw [if_pos houtside, writing, ok_bind, ensures_ok]
    exact .some (Frame.refl _ s)
  · have hlt : 0 ≤ p ∧ p < sampleMaxEffects := by
      simp only [outside, Bool.or_eq_true, decide_eq_true_eq] at houtside
      omega
    obtain ⟨c, hc, hval⟩ := slot_of_lt hlt
    rw [if_neg houtside, writing]
    dsimp only
    rw [hc, ok_bind, ok_bind, ensures_ok]
    refine .some (Frame.update hval fun f hf => ?_)
    cases f with
    | fxInstance => exact absurd (List.mem_singleton_self _) hf
    | arg argnr => exact fun _ _ => rfl
    | _ => rfl

end Calls

/-! ## Arguments -/

theorem argSlot_iff {β : Type} {n : ℤ} (g : Fin sampleMaxParameters → β) :
    (∃ b, (do
      let k ← argSlot n
      (.ok (g k) : Exec β)) = .ok b) ↔ 0 ≤ n ∧ n < sampleMaxParameters := by
  constructor
  · rintro ⟨b, hb⟩
    obtain ⟨k, hk, -⟩ := bind_eq_ok.mp hb
    by_contra hlt
    rw [argSlot, dif_neg hlt] at hk
    cases hk
  · intro hlt
    obtain ⟨k, hk, -⟩ := argSlot_of_lt hlt
    exact ⟨g k, by rw [hk, ok_bind]⟩

/-- The arguments up to the last one can be read. -/
theorem readArgs_ok (code : Code κ) (e : Entry κ ι) (nFrame : ℤ) : ∀ (n i : ℕ) (args : List ℤ),
    i + n ≤ sampleMaxParameters → ∃ args', readArgs code e nFrame n i args = .ok args'
  | 0, _, args, _ => ⟨args, rfl⟩
  | n + 1, i, args, hle => by
    rw [readArgs]
    cases e.kf.bind fun port => code.value port nFrame i with
    | some tmp => exact readArgs_ok code e nFrame n (i + 1) _ (by omega)
    | none =>
      obtain ⟨k, hk, -⟩ := @argSlot_of_lt i (by omega)
      dsimp only
      rw [hk, ok_bind]
      exact readArgs_ok code e nFrame n (i + 1) _ (by omega)

/-! ## The tests -/

theorem outside_or (p : ℤ) : outside sampleMaxEffects p = true ∨ 0 ≤ p ∧ p < sampleMaxEffects := by
  simp only [outside, Bool.or_eq_true, decide_eq_true_eq]
  omega

theorem unchecked_or {P : Prop} : (unchecked = true ∨ P) ↔ P := or_iff_right Bool.false_ne_true

theorem above_or (p : ℤ) : (above sampleMaxEffects p = true ∨ 0 ≤ p ∧ p < sampleMaxEffects) ↔ 0 ≤ p := by
  simp only [above, decide_eq_true_eq]
  omega

/-- The test of an argument number, where a position is meant. -/
theorem outside_parameters_or (p : ℤ) :
    (outside sampleMaxParameters p = true ∨ 0 ≤ p ∧ p < sampleMaxEffects) ↔
      p < sampleMaxEffects ∨ sampleMaxParameters ≤ p := by
  have hle : sampleMaxEffects ≤ sampleMaxParameters := by decide
  simp only [outside, Bool.or_eq_true, decide_eq_true_eq]
  omega

/-- A position and an argument number, tested one too far. -/
theorem above_beyond_or (p argnr : ℤ) :
    ((above sampleMaxEffects p || beyond sampleMaxParameters argnr) = true ∨
        (0 ≤ p ∧ p < sampleMaxEffects) ∧ 0 ≤ argnr ∧ argnr < sampleMaxParameters) ↔
      sampleMaxEffects ≤ p ∨ argnr < 0 ∨ sampleMaxParameters < argnr ∨ 0 ≤ p ∧ argnr ≠ sampleMaxParameters := by
  simp only [above, beyond, Bool.or_eq_true, decide_eq_true_eq]
  omega

/-! ## Every accessor -/

section Every

variable {code : Code κ} {s : Sample κ ι ρ} {p : ℤ}

theorem getEffectArg_iff (argnr : ℤ) {sets : ℤ × List Field} :
    Ensures (reading (some s) (sampleGetEffectArg (some s) p argnr)) (Option.Rel (Frame sets) (some s)) ↔
      sampleMaxEffects ≤ p ∨ argnr < 0 ∨ sampleMaxParameters < argnr ∨ 0 ≤ p ∧ argnr ≠ sampleMaxParameters := by
  rw [sampleGetEffectArg, reading_iff, ← above_beyond_or]
  refine or_congr_right ?_
  simp only [argSlot_iff]
  exact ⟨fun ⟨c, hc, h⟩ => ⟨(slot_iff fun _ => trivial).mp ⟨c, hc, trivial⟩, h⟩,
    fun ⟨hp, h⟩ => (slot_iff fun _ => h).mpr hp⟩

theorem setEffectArg_iff (argnr value : ℤ) :
    Ensures (writing (sampleSetEffectArg (some s) p argnr value)) (Option.Rel (Frame (p, [.arg argnr])) (some s)) ↔
      sampleMaxEffects ≤ p ∨ argnr < 0 ∨ sampleMaxParameters < argnr ∨ 0 ≤ p ∧ argnr ≠ sampleMaxParameters := by
  rw [sampleSetEffectArg, writing_iff, ← above_beyond_or]
  · refine or_congr_right ?_
    simp only [argSlot_iff]
    exact ⟨fun ⟨c, hc, h⟩ => ⟨(slot_iff fun _ => trivial).mp ⟨c, hc, trivial⟩, h⟩,
      fun ⟨hp, h⟩ => (slot_iff fun _ => h).mpr hp⟩
  · intro e e' he f hf
    obtain ⟨k, hk, he⟩ := bind_eq_ok.mp he
    obtain rfl := Except.ok.inj he
    cases f with
    | arg argnr' =>
      intro k' hk'
      refine Function.update_of_ne (fun heq => hf ?_) _ _
      have hlt : 0 ≤ argnr ∧ argnr < sampleMaxParameters := (argSlot_iff id).mp ⟨k, by rw [hk]; rfl⟩
      obtain ⟨k'', hk'', hval⟩ := argSlot_of_lt hlt
      obtain rfl := Except.ok.inj (hk.symm.trans hk'')
      rw [← hk', heq, hval]
      exact List.mem_singleton_self _
    | _ => rfl

theorem getAllEffectArg_iff (args : List ℤ) (argLen nFrame : ℤ) {sets : ℤ × List Field} :
    Ensures (reading (some s) (sampleGetAllEffectArg (some s) code p args argLen nFrame))
        (Option.Rel (Frame sets) (some s)) ↔ 0 ≤ p ∨ argLen ≤ 0 ∨ sampleMaxParameters < argLen := by
  rw [sampleGetAllEffectArg]
  by_cases hzero : argLen = 0
  · rw [if_pos hzero, reading, ok_bind, ensures_ok]
    exact iff_of_true (.some (Frame.refl _ s)) (by omega)
  · rw [if_neg hzero, reading_iff]
    have hbound : (above sampleMaxEffects p || beyond sampleMaxParameters argLen) = true ↔
        sampleMaxEffects ≤ p ∨ argLen < 0 ∨ sampleMaxParameters < argLen := by
      simp only [above, beyond, Bool.or_eq_true, decide_eq_true_eq]
    rw [hbound]
    constructor
    · rintro (h | ⟨c, hc, -⟩)
      · omega
      · have hp := (slot_iff fun _ => trivial).mp ⟨c, hc, trivial⟩
        exact .inl hp.1
    · intro h
      by_cases hrefuses : sampleMaxEffects ≤ p ∨ argLen < 0 ∨ sampleMaxParameters < argLen
      · exact .inl hrefuses
      · obtain ⟨c, hc, -⟩ := @slot_of_lt p (by omega)
        obtain ⟨args', hargs⟩ := readArgs_ok code (s.chain c) nFrame argLen.toNat 0 args (by omega)
        exact .inr ⟨c, hc, _, by rw [hargs, ok_bind]⟩

theorem chainGetKfs_iff (parameterId : ℤ) {sets : ℤ × List Field} :
    Ensures (reading (some s) (sampleChainGetKfs (some s) code p parameterId)) (Option.Rel (Frame sets) (some s)) ↔
      p ≠ sampleMaxEffects ∨ parameterId < 0 ∨ 9 < parameterId := by
  rw [sampleChainGetKfs, reading_field_iff]
  simp only [beyond, Bool.or_eq_true, decide_eq_true_eq, Nat.cast_ofNat]
  omega

end Every

/-- Without a sample there is nothing to access. -/
theorem run_none (code : Code κ) (a : Access ι) :
    run code (none : Option (Sample κ ι ρ)) a = .ok none := by
  cases a with
  | getAllEffectArg p args argLen nFrame =>
    rw [run, sampleGetAllEffectArg]
    by_cases hzero : argLen = 0
    · rw [if_pos hzero]
      rfl
    · rw [if_neg hzero]
      rfl
  | getPlugin p ptr =>
    rw [run, sampleGetPlugin]
    by_cases houtside : outside sampleMaxEffects p = true
    · rw [if_pos houtside]
      rfl
    · rw [if_neg houtside]
      rfl
  | _ => rfl

/-- **The accessors of the chain.**  A call stays in an entry that exists and among its arguments, and changes nothing
but what it is there to set, exactly if there is no sample or the caller has looked after what the accessor does not
test. -/
theorem staysInside_iff (code : Code κ) (sample : Option (Sample κ ι ρ)) (a : Access ι) :
    StaysInside code sample a ↔ sample = none ∨ a.Within := by
  cases sample with
  | none => exact iff_of_true ⟨none, run_none code a, .none⟩ (.inl rfl)
  | some s =>
    rw [or_iff_right (Option.some_ne_none s)]
    cases a with
    | entryIsRendering p | getEffect p | getTrimmer p | getChainChannel p | getChainSource p =>
      exact reading_field_iff.trans (iff_of_true (outside_or p) trivial)
    | getEffectAny p | getChainAudio p | getKfPort p | getKfStatus p =>
      exact reading_field_iff.trans unchecked_or
    | getChainStatus p | getOffset p | getChainVolume p | hasExtraFrame p =>
      exact reading_field_iff.trans (above_or p)
    | getEffectArg p argnr => exact getEffectArg_iff argnr
    | getAllEffectArg p args argLen nFrame => exact getAllEffectArg_iff args argLen nFrame
    | chainGetKfs p parameterId => exact chainGetKfs_iff parameterId
    | getPlugin p ptr => exact iff_of_true (getPlugin_stays ptr) trivial
    | setEffectArg p argnr value => exact setEffectArg_iff argnr value
    | entrySetIsRendering p v | setChainStatus p v | setChainChannel p v | setChainSource p v =>
      refine (writing_field_iff fun e f hf => ?_).trans (iff_of_true (outside_or p) trivial)
      cases f <;> first | rfl | exact fun _ _ => rfl | exact absurd (List.mem_singleton_self _) hf
    | setKfType p v | chainSetKfStatus p v | setOffset p v | setChainVolume p v =>
      refine (writing_field_iff fun e f hf => ?_).trans unchecked_or
      cases f <;> first | rfl | exact fun _ _ => rfl | exact absurd (List.mem_singleton_self _) hf
    | chainAllocKf p =>
      refine (writing_field_iff fun e f hf => ?_).trans unchecked_or
      cases f <;> first | rfl | exact fun _ _ => rfl | exact absurd (List.mem_singleton_self _) hf
    | chainResetKf p =>
      refine (writing_field_iff fun e f hf => ?_).trans unchecked_or
      cases f <;> first | rfl | exact fun _ _ => rfl | exact absurd (by simp) hf
    | setTrimmer p v | setChainAudio p v =>
      refine (writing_field_iff fun e f hf => ?_).trans (outside_parameters_or p)
      cases f <;> first | rfl | exact fun _ _ => rfl | exact absurd (List.mem_singleton_self _) hf

/-- A sample with an empty chain. -/
def emptySample : Sample Unit Unit Unit where
  chain _ := ⟨-1, 0, fun _ => 0, 0, 0, 0, 0, 0, 0, 0, none, 0, 0, none⟩
  firstFrame := 0
  lastFrame := 1
  others := ()

/-- **Argument 32 of the first entry** passes the test of `sample_set_effect_arg`, and is the field behind the
arguments. -/
theorem not_staysInside_argument : ¬ ∀ (code : Code Unit) (sample : Option (Sample Unit Unit Unit)) (a : Access Unit),
    StaysInside code sample a := by
  intro h
  have hstays := h ⟨fun _ _ _ => none, fun _ _ _ => none, (), fun _ => 0⟩ (some emptySample) (.setEffectArg 0 32 7)
  have hwithin := (setEffectArg_iff 32 7).mp hstays
  revert hwithin
  decide

end Veejay.ChainAccess
