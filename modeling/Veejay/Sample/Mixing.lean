import Veejay.Sample.Bank

/-!
# Deleting a sample that others mix in

An entry of an effect chain may mix in another sample (source type 0) or a stream (source type 1).  When the user
deletes a sample, `sample_verify_delete` points the entries that mix it in elsewhere.

* `sampleVerifyDelete`, `vjEventSampleDel` — the functions of `sampleadm.c` and `vj-event.c`;
* `verifyLoop_spec` — the chains that the loop visits, and those it does not;
* `noDangling_iff` — **when no entry mixes in the deleted sample**.
-/

namespace Veejay.Samples

open CLib

/-- `SAMPLE_MAX_EFFECTS` -/
def sampleMaxEffects : ℕ := 20

theorem sampleMaxEffects_pos : 0 < sampleMaxEffects := by decide

theorem one_lt_sampleMaxEffects : 1 < sampleMaxEffects := by decide

/-- What an entry of an effect chain mixes in. -/
structure MixEntry where
  sourceType : ℤ
  channel : ℤ

/-- An effect chain. -/
abbrev Chain := Fin sampleMaxEffects → MixEntry

/-- The samples, the streams' chains, and what is playing. -/
structure Mixer where
  samples : Bank Chain
  streams : ℤ → Option Chain
  samplePlaying : Bool
  sampleId : ℤ
  seqSamples : List ℤ

/-- The body of the inner loop of `sample_verify_delete`. -/
def verifyEntry (sampleId sampleType i : ℤ) (e : MixEntry) : MixEntry :=
  if e.channel = sampleId ∧ e.sourceType = sampleType then ⟨0, i⟩ else e

/-- The body of the outer loop of `sample_verify_delete`. -/
def verifySample (sampleId sampleType i : ℤ) (b : Bank Chain) : Exec (Bank Chain) := do
  match ← sampleGet i b with
  | (none, b) => .ok b
  | (some s, b) => do
    let o ← deref s b
    let o := ⟨o.sampleId, fun j => verifyEntry sampleId sampleType i (o.info j)⟩
    .ok { b with heap := Function.update b.heap s (some o) }

/-- The outer loop of `sample_verify_delete`. -/
def verifyLoop (sampleId sampleType : ℤ) : List ℤ → Bank Chain → Exec (Bank Chain)
  | [], b => .ok b
  | i :: is, b => do
    let b ← verifySample sampleId sampleType i b
    verifyLoop sampleId sampleType is b

/-- `sample_verify_delete`: `for (i = 1; i < sample_size()-1; i++)` -/
def sampleVerifyDelete (sampleId sampleType : ℤ) (b : Bank Chain) : Exec (Bank Chain) :=
  verifyLoop sampleId sampleType (idsUpTo (b.thisSampleId - 2)) b

/-- `vj_event_sample_del` -/
def vjEventSampleDel (id : ℤ) (m : Mixer) : Exec Mixer :=
  if m.samplePlaying ∧ m.sampleId = id then .ok m
  else do
    let (deleted, samples) ← sampleDel id m.samples
    if deleted then do
      let seqSamples := m.seqSamples.map fun s => if s = id then 0 else s
      let samples ← sampleVerifyDelete id 0 samples
      .ok { m with samples := samples, seqSamples := seqSamples }
    else .ok { m with samples := samples }

/-! ## Chains -/

/-- No entry mixes in this sample. -/
def NoMix (id : ℤ) (chain : Chain) : Prop := ∀ j, ¬ ((chain j).channel = id ∧ (chain j).sourceType = 0)

/-- No chain of a sample or of a stream mixes in this sample. -/
def NoDangling (id : ℤ) (m : Mixer) : Prop :=
  (∀ k, Live m.samples k → ∀ chain, m.samples.infoOf k = some chain → NoMix id chain) ∧
    ∀ t chain, m.streams t = some chain → NoMix id chain

/-- The chains that are not visited mix in other things: that of the last sample, and those of the streams. -/
def UnvisitedNoMix (id : ℤ) (m : Mixer) : Prop :=
  (∀ k, Live m.samples k → k ≠ id → m.samples.thisSampleId - 1 ≤ k →
      ∀ chain, m.samples.infoOf k = some chain → NoMix id chain) ∧
    ∀ t chain, m.streams t = some chain → NoMix id chain

theorem mem_idsUpTo {n k : ℤ} : k ∈ idsUpTo n ↔ 1 ≤ k ∧ k ≤ n := by
  rw [idsUpTo, List.mem_map]
  constructor
  · rintro ⟨m, hm, rfl⟩
    rw [List.mem_range] at hm
    omega
  · intro hk
    refine ⟨(k - 1).toNat, List.mem_range.mpr (by omega), by omega⟩

theorem nodup_idsUpTo (n : ℤ) : (idsUpTo n).Nodup := by
  refine List.nodup_range.map fun a b hab => ?_
  have h : (a : ℤ) + 1 = (b : ℤ) + 1 := hab
  omega

/-- A cleaned entry does not mix in the sample, unless it belongs to this sample. -/
theorem noMix_verifyEntry {id i : ℤ} (hi : i ≠ id) (chain : Chain) :
    NoMix id fun j => verifyEntry id 0 i (chain j) := by
  intro j
  show ¬ ((verifyEntry id 0 i (chain j)).channel = id ∧ (verifyEntry id 0 i (chain j)).sourceType = 0)
  rw [verifyEntry]
  split_ifs with h
  · exact fun h' => hi h'.1
  · exact h

/-! ## The loop -/

/-- One round changes the chain of one sample. -/
theorem verifySample_spec {b : Bank Chain} (hb : Sound b) (id type : ℤ) {i : ℤ} (hi : i ≠ sampleMaxSamples) :
    ∃ b', verifySample id type i b = .ok b' ∧ Sound b' ∧ b'.sampleHash = b.sampleHash ∧
      ∀ k, b'.infoOf k =
        if k = i then (b.infoOf k).map fun chain j => verifyEntry id type i (chain j) else b.infoOf k := by
  obtain ⟨cache, hget, hb₁, hsame⟩ := sampleGet_spec hb hi
  rw [verifySample, hget, ok_bind]
  cases hlook : b.lookup i with
  | none =>
    refine ⟨b.withCache cache, rfl, hb₁, rfl, fun k => ?_⟩
    have hchain : (b.withCache cache).infoOf k = b.infoOf k := infoOf_withCache hsame k
    split_ifs with hk
    · rw [hchain, Bank.infoOf, hk, hlook]
      rfl
    · exact hchain
  | some s =>
    obtain ⟨-, -, hat⟩ := hb.lookup_eq hlook
    obtain ⟨o, hderef, hheap, -⟩ := deref_of_idAt hat
    have hderef' : deref s (b.withCache cache) = .ok o := hderef
    dsimp only
    rw [hderef', ok_bind]
    refine ⟨_, rfl, hb₁.update hheap rfl, rfl, fun k => ?_⟩
    have hlook' : (b.withCache cache).lookup i = some s := (hsame i).trans hlook
    have hheap' : (b.withCache cache).heap s = some o := hheap
    rw [hb₁.infoOf_update hlook' hheap', infoOf_withCache hsame]
    split_ifs with hk
    · rw [hk, Bank.infoOf, hlook, Option.bind_some, hheap]
      rfl
    · rfl

/-- **The loop** changes the chains of the samples that it visits. -/
theorem verifyLoop_spec (id type : ℤ) :
    ∀ (is : List ℤ) {b : Bank Chain}, Sound b → is.Nodup → (∀ i ∈ is, i ≠ sampleMaxSamples) →
      ∃ b', verifyLoop id type is b = .ok b' ∧ b'.sampleHash = b.sampleHash ∧
        ∀ k, b'.infoOf k =
          if k ∈ is then (b.infoOf k).map fun chain j => verifyEntry id type k (chain j) else b.infoOf k := by
  intro is
  induction is with
  | nil => exact fun _ _ _ => ⟨_, rfl, rfl, fun _ => rfl⟩
  | cons i is ih =>
    intro b hb hnodup hmax
    obtain ⟨hni, hnodup'⟩ := List.nodup_cons.mp hnodup
    obtain ⟨b₁, hstep, hb₁, hhash, hchain⟩ := verifySample_spec hb id type (hmax i List.mem_cons_self)
    obtain ⟨b', hloop, hhash', hchain'⟩ := ih hb₁ hnodup' fun k hk => hmax k (List.mem_cons_of_mem i hk)
    refine ⟨b', by rw [verifyLoop, hstep, ok_bind, hloop], hhash'.trans hhash, fun k => ?_⟩
    rw [hchain', hchain]
    by_cases hk : k = i
    · subst hk
      rw [if_neg hni, if_pos rfl, if_pos List.mem_cons_self]
    · rw [if_neg hk]
      by_cases hmem : k ∈ is
      · rw [if_pos hmem, if_pos (List.mem_cons_of_mem i hmem)]
      · rw [if_neg hmem, if_neg fun h => (List.mem_cons.mp h).elim hk hmem]

/-! ## Deleting -/

/-- The chains after a sample was deleted. -/
theorem vjEventSampleDel_spec {m : Mixer} {id : ℤ} (hm : Regular m.samples) (hlive : Live m.samples id)
    (hplay : ¬ (m.samplePlaying ∧ m.sampleId = id)) :
    ∃ m', vjEventSampleDel id m = .ok m' ∧ m'.streams = m.streams ∧
      (∀ k, Live m'.samples k ↔ k ≠ id ∧ Live m.samples k) ∧
      ∀ k, k ≠ id → m'.samples.infoOf k = if k ∈ idsUpTo (m.samples.thisSampleId - 2) then
        (m.samples.infoOf k).map fun chain j => verifyEntry id 0 k (chain j) else m.samples.infoOf k := by
  obtain ⟨si, cache, b', hdel, hb₁, hleft, hat, hsame⟩ := sampleDel_live hm hlive
  have hpos := (hm.live_lt hlive).1
  have hb' : Sound b' := hleft.sound hb₁ hat
  have hthis : b'.thisSampleId = m.samples.thisSampleId := hleft.this
  have hmax : ∀ i ∈ idsUpTo (m.samples.thisSampleId - 2), i ≠ sampleMaxSamples := by
    intro i hi
    have hle := hm.this_le
    rw [mem_idsUpTo] at hi
    omega
  obtain ⟨b'', hloop, hhash, hchain⟩ := verifyLoop_spec id 0 _ hb' (nodup_idsUpTo _) hmax
  have hrun : vjEventSampleDel id m =
      .ok { m with samples := b'', seqSamples := m.seqSamples.map fun s => if s = id then 0 else s } := by
    rw [vjEventSampleDel, if_neg hplay, hdel, ok_bind]
    dsimp only
    rw [if_pos rfl, sampleVerifyDelete, hthis, hloop, ok_bind]
  refine ⟨_, hrun, rfl, fun k => ?_, fun k hk => ?_⟩
  · show b''.sampleHash k ≠ none ↔ _
    rw [hhash]
    exact hleft.live_iff k
  · -- the other samples' chains are those of before
    have hkept : b'.infoOf k = m.samples.infoOf k :=
      (hleft.infoOf_other hb₁ hat (by omega) hk).trans (infoOf_withCache hsame k)
    show b''.infoOf k = _
    rw [hchain, hkept]

/-- **No dangling mix channel.**  After a sample is deleted, nothing mixes it in exactly if the chains that are not
visited did not: that of the sample with the last number, and those of the streams. -/
theorem noDangling_iff (m : Mixer) (id : ℤ) (hm : Regular m.samples) (hlive : Live m.samples id)
    (hplay : ¬ (m.samplePlaying ∧ m.sampleId = id)) :
    ∃ m', vjEventSampleDel id m = .ok m' ∧ (NoDangling id m' ↔ UnvisitedNoMix id m) := by
  obtain ⟨m', hrun, hstreams, hlive', hchain⟩ := vjEventSampleDel_spec hm hlive hplay
  refine ⟨m', hrun, ?_⟩
  rw [NoDangling, UnvisitedNoMix, hstreams]
  refine and_congr_left fun _ => ⟨fun h k hk hne hlast chain hk' => ?_, fun h k hk chain hk' => ?_⟩
  · refine h k ((hlive' k).mpr ⟨hne, hk⟩) chain ?_
    rw [hchain k hne, if_neg fun hmem => ?_, hk']
    rw [mem_idsUpTo] at hmem
    omega
  · obtain ⟨hne, hk⟩ := (hlive' k).mp hk
    rw [hchain k hne] at hk'
    split_ifs at hk' with hmem
    · obtain ⟨before, -, rfl⟩ := Option.map_eq_some_iff.mp hk'
      exact noMix_verifyEntry hne before
    · have hlo := (hm.live_lt hk).1
      rw [mem_idsUpTo] at hmem
      exact h k hk hne (by omega) chain hk'

/-- Two samples, the second of which mixes in the first. -/
def pair : Bank Chain where
  thisSampleId := 3
  nextAvailNum := 0
  availNum := List.replicate sampleMaxSamples 0
  sampleHash id := if id = 1 then some 0 else if id = 2 then some 1 else none
  sampleCache := List.replicate sampleMaxSamples none
  heap si := if si = 0 then some ⟨1, fun _ => ⟨0, 2⟩⟩ else if si = 1 then some ⟨2, fun _ => ⟨0, 1⟩⟩ else none
  nextAddr := 2

theorem regular_pair : Regular pair where
  avail_length := List.length_replicate
  cache_length := List.length_replicate
  next_lt := show 0 < sampleMaxSamples by decide
  this_nonneg := show (0 : ℤ) ≤ 3 by decide
  this_le := show (3 : ℤ) ≤ sampleMaxSamples by decide
  freed n id h hid := absurd (List.eq_of_mem_replicate (List.mem_of_getElem? h)) hid
  freed_once m n id h _ hid := absurd (List.eq_of_mem_replicate (List.mem_of_getElem? h)) hid
  stored id si h := by
    have h' : (if id = 1 then some 0 else if id = 2 then some 1 else none) = some si := h
    split_ifs at h' with h₁ h₂
    · subst h₁
      obtain rfl := Option.some.inj h'
      exact ⟨le_rfl, by decide, rfl⟩
    · subst h₂
      obtain rfl := Option.some.inj h'
      exact ⟨by decide, by decide, rfl⟩
  cached n si h := by cases List.eq_of_mem_replicate (List.mem_of_getElem? h)
  unallocated si h := by
    have h' : 2 ≤ si := h
    have hne : si ≠ 0 ∧ si ≠ 1 :=
      ⟨Nat.ne_of_gt (Nat.lt_of_lt_of_le Nat.zero_lt_two h'), Nat.ne_of_gt (Nat.lt_of_lt_of_le Nat.one_lt_two h')⟩
    show (if si = 0 then some _ else if si = 1 then some _ else none) = none
    rw [if_neg hne.1, if_neg hne.2]

/-- The two samples, without streams, and the second is playing. -/
def pairMixer : Mixer where
  samples := pair
  streams _ := none
  samplePlaying := true
  sampleId := 2
  seqSamples := []

/-- The first of the two samples is deleted. -/
theorem pair_noDangling_iff :
    ∃ m', vjEventSampleDel 1 pairMixer = .ok m' ∧ (NoDangling 1 m' ↔ UnvisitedNoMix 1 pairMixer) :=
  noDangling_iff pairMixer 1 regular_pair (by decide) (by decide)

/-- The second sample still mixes in the first one when that is deleted. -/
theorem pair_dangling : ¬ Ensures (vjEventSampleDel 1 pairMixer) (NoDangling 1) := by
  rintro ⟨m, hm, hclean⟩
  obtain ⟨m', hm', -, hlive, hchain⟩ := @vjEventSampleDel_spec pairMixer 1 regular_pair (by decide) (by decide)
  obtain rfl := Except.ok.inj (hm.symm.trans hm')
  have hlast : (2 : ℤ) ∉ idsUpTo (pairMixer.samples.thisSampleId - 2) := by decide
  have hsecond : pairMixer.samples.infoOf 2 = some fun _ => ⟨0, 1⟩ := rfl
  refine hclean.1 2 ((hlive 2).mpr (by decide)) (fun _ => ⟨0, 1⟩) ?_ ⟨0, by decide⟩ ⟨rfl, rfl⟩
  rw [hchain 2 (by decide), if_neg hlast, hsecond]

end Veejay.Samples
