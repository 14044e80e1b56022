import Veejay.Play.SampleFrame
import Veejay.Record.Performer
import Veejay.Sample.Bank

/-!
# The sample randomizer

While the randomizer is on, the sample that is played is drawn: numbers up to the sample counter are drawn until one is
the id of a sample that is not the playing one (`vj_perform_randomize` in `veejay/vj-perform.c`).

* `Drawn`, `scaled` — the values of `rand ()`, and the numbers that are made of them;
* `scaled_reaches` — **every number below a range is drawn**;
* `pick`, `vjPerformRandomize` — the loop and the function;
* `accepts_iff` — **the ids that may be accepted**, by what the bank of samples keeps;
* `randomizes_iff` — in every bank that is reached, **the randomizer works exactly if** there is a choice.
-/

namespace Veejay.Randomizer

open CLib Samples
open Sample (SampleInfo sampleGetStartFrame sampleGetEndFrame)
open Play (RandMode)
open Record (PlaybackMode)

/-! ## Drawing numbers -/

/-- `RAND_MAX` -/
def randMax : ℕ := 2147483647

/-- A value of `rand ()`. -/
structure Drawn where
  value : ℕ
  value_le : value ≤ randMax

/-- `(int) (range * rand () / (RAND_MAX + 1.0))`; the numbers are exact in a `double`. -/
def scaled (range : ℤ) (r : Drawn) : ℤ := (range * r.value).tdiv (randMax + 1)

/-- **Every number below a range is drawn.** -/
theorem scaled_reaches {range k : ℤ} (hk : 0 ≤ k) (hlt : k < range) (hrange : range ≤ randMax + 1) :
    ∃ r, scaled range r = k := by
  obtain ⟨m, hm⟩ : ∃ m : ℤ, m = randMax + 1 := ⟨_, rfl⟩
  have hpos : 0 < range := by omega
  have hmpos : 0 < m := by omega
  -- the least value that is scaled to `k` at least
  obtain ⟨q, hq⟩ : ∃ q, q = (k * m + range - 1) / range := ⟨_, rfl⟩
  have hle : range * q ≤ k * m + range - 1 := by
    rw [hq]
    exact Int.mul_ediv_self_le (by omega)
  have hge : k * m ≤ range * q := by
    have hnext := Int.lt_mul_ediv_self_add (x := k * m + range - 1) hpos
    rw [← hq] at hnext
    omega
  have hkm : 0 ≤ k * m := Int.mul_nonneg hk hmpos.le
  have hbelow : range * q < (k + 1) * m := by
    rw [Int.add_mul, Int.one_mul]
    omega
  have hnonneg : 0 ≤ q := by
    rw [hq]
    exact Int.ediv_nonneg (by omega) hpos.le
  have hqlt : q < m := by
    refine lt_of_mul_lt_mul_left (lt_of_lt_of_le hbelow ?_) hpos.le
    exact Int.mul_le_mul_of_nonneg_right hlt hmpos.le
  refine ⟨⟨q.toNat, by omega⟩, ?_⟩
  show (range * (q.toNat : ℤ)).tdiv (randMax + 1) = k
  rw [Int.toNat_of_nonneg hnonneg, ← hm, Int.tdiv_eq_ediv_of_nonneg (hkm.trans hge)]
  exact le_antisymm (Int.lt_add_one_iff.mp (Int.ediv_lt_of_lt_mul hmpos hbelow)) (Int.le_ediv_of_mul_le hmpos hge)

/-! ## The functions -/

/-- `RANDTIMER_FRAME`, `RANDTIMER_LENGTH` -/
inductive RandTimer where
  | frame
  | length
  deriving DecidableEq

/-- `settings->randplayer` -/
structure RandPlayer where
  mode : RandMode
  timer : RandTimer
  minDelay : ℤ
  maxDelay : ℤ

/-- `uc->playback_mode` and `uc->sample_id` -/
structure Playing where
  mode : PlaybackMode
  sampleId : ℤ

/-- The player, and the bank of samples. -/
structure Player where
  playing : Playing
  randplayer : RandPlayer
  bank : Bank SampleInfo

/-- `sample_size` -/
def sampleSize {α : Type} (b : Bank α) : ℤ := b.thisSampleId

/-- The loop of `vj_perform_randomize`, as far as the numbers go that are drawn: the sample, and the numbers that are
left. -/
def pick {α : Type} (nSample trackDup : ℤ) : List Drawn → Bank α → Exec (Option (ℤ × List Drawn) × Bank α)
  | [], b => .ok (none, b)
  | r :: draws, b => do
    let takeN := 1 + scaled nSample r
    let (there, b) ← sampleExists takeN b
    if there = true ∧ takeN ≠ trackDup then .ok (some (takeN, draws), b)
    else pick nSample trackDup draws b

/-- `sample_get_startFrame`, `sample_get_endFrame`: by what is read of the sample -/
def frameOf (read : SampleInfo → ℤ) (id : ℤ) (b : Bank SampleInfo) : Exec (ℤ × Bank SampleInfo) := do
  match ← sampleGet id b with
  | (none, b) => .ok (-1, b)
  | (some si, b) => do
    let o ← deref si b
    .ok (read o.info, b)

/-- The delay until the next sample; `none` as long as there is no number for it. -/
def maxDelayOf (timer : RandTimer) (start last : ℤ) : List Drawn → Option ℤ
  | r :: _ => match timer with
    | .frame => some (1 + scaled (last - start + 1) r)
    | .length => some (last - start)
  | [] => match timer with
    | .frame => none
    | .length => some (last - start)

/-- `veejay_set_sample`; `enables` says which streams can be started. -/
def veejaySetSample (enables : ℤ → Bool) (sampleid : ℤ) (info : Player) : Player :=
  match info.playing.mode with
  | .stream => if enables sampleid = true then { info with playing := { info.playing with sampleId := sampleid } } else info
  | .sample => { info with playing := { info.playing with sampleId := sampleid } }
  | .plain => info

/-- The sample that is not to be drawn again: none where there is but one. -/
def Player.trackDup (info : Player) : ℤ := if sampleSize info.bank - 1 = 1 then 0 else info.playing.sampleId

/-- `vj_perform_randomize`, as far as the numbers go that are drawn; `none` while it has not returned. -/
def vjPerformRandomize (enables : ℤ → Bool) (draws : List Drawn) (info : Player) : Exec (Option Player) :=
  match info.randplayer.mode with
  | .inactive => .ok (some info)
  | .sample => do
    match ← pick (sampleSize info.bank - 1) info.trackDup draws info.bank with
    | (none, _) => .ok none
    | (some (takeN, draws), b) => do
      let (start, b) ← frameOf sampleGetStartFrame takeN b
      let (last, b) ← frameOf sampleGetEndFrame takeN b
      match maxDelayOf info.randplayer.timer start last draws with
      | none => .ok none
      | some maxDelay =>
        let randplayer := { info.randplayer with maxDelay := maxDelay, minDelay := 1 }
        .ok (some (veejaySetSample enables takeN { info with randplayer := randplayer, bank := b }))

/-! ## The ids that may be accepted -/

section Accepting

variable {α : Type} {b : Bank α}

/-- One number of the loop. -/
theorem pick_cons (hb : Sound b) (nSample trackDup : ℤ) (r : Drawn) (draws : List Drawn) :
    ∃ cache, Sound (b.withCache cache) ∧ pick nSample trackDup (r :: draws) b =
      if Live b (1 + scaled nSample r) ∧ 1 + scaled nSample r ≠ trackDup
        then .ok (some (1 + scaled nSample r, draws), b.withCache cache)
        else pick nSample trackDup draws (b.withCache cache) := by
  obtain ⟨there, cache, hexists, hsound, hiff, -⟩ := sampleExists_spec hb (1 + scaled nSample r)
  refine ⟨cache, hsound, ?_⟩
  rw [pick, hexists, ok_bind]
  simp only [hiff]

/-- The loop goes on while every sample that there is is the one not to be drawn. -/
theorem pick_waits {nSample trackDup : ℤ} :
    ∀ (draws : List Drawn) {b : Bank α}, Sound b → (∀ id, Live b id → id = trackDup) →
      ∃ b', pick nSample trackDup draws b = .ok (none, b') := by
  intro draws
  induction draws with
  | nil => exact fun _ _ => ⟨_, rfl⟩
  | cons r draws ih =>
    intro b hb hall
    obtain ⟨cache, hsound, hpick⟩ := pick_cons hb nSample trackDup r draws
    rw [if_neg fun h => h.2 (hall _ h.1)] at hpick
    obtain ⟨b', hb'⟩ := ih hsound hall
    exact ⟨b', hpick.trans hb'⟩

/-- The loop ends with a number that is accepted, or before it. -/
theorem pick_ends {nSample trackDup : ℤ} {r : Drawn} (rest : List Drawn) :
    ∀ (draws : List Drawn) {b : Bank α}, Sound b → Live b (1 + scaled nSample r) → 1 + scaled nSample r ≠ trackDup →
      ∃ id left b', pick nSample trackDup (draws ++ r :: rest) b = .ok (some (id, left), b') ∧ Sound b' ∧
        Live b' id ∧ rest <:+ left := by
  intro draws
  induction draws with
  | nil =>
    intro b hb hlive hne
    obtain ⟨cache, hsound, hpick⟩ := pick_cons hb nSample trackDup r rest
    rw [if_pos ⟨hlive, hne⟩] at hpick
    exact ⟨_, rest, _, hpick, hsound, hlive, List.suffix_rfl⟩
  | cons r' draws ih =>
    intro b hb hlive hne
    obtain ⟨cache, hsound, hpick⟩ := pick_cons hb nSample trackDup r' (draws ++ r :: rest)
    by_cases hend : Live b (1 + scaled nSample r') ∧ 1 + scaled nSample r' ≠ trackDup
    · rw [if_pos hend] at hpick
      have hsuffix : rest <:+ draws ++ r :: rest := (List.suffix_cons r rest).trans (List.suffix_append draws _)
      exact ⟨_, _, _, hpick, hsound, hend.1, hsuffix⟩
    · rw [if_neg hend] at hpick
      obtain ⟨id, left, b', hb', h⟩ := ih hsound hlive hne
      exact ⟨id, left, b', hpick.trans hb', h⟩

/-- `vj_perform_randomize` may accept an id: for some value of `rand ()` the loop ends with it. -/
def Accepts (info : Player) (id : ℤ) : Prop :=
  ∃ r, Ensures (pick (sampleSize info.bank - 1) info.trackDup [r] info.bank) fun a => ∃ left, a.1 = some (id, left)

/-- The ids of samples are drawn. -/
theorem scaled_live (hb : Sound b) {id : ℤ} (hlive : Live b id) : ∃ r, 1 + scaled (sampleSize b - 1) r = id := by
  obtain ⟨hpos, hlt, -⟩ := hb.live_lt hlive
  have hthis := hb.this_le
  have hmax : (sampleMaxSamples : ℤ) ≤ randMax := by decide
  obtain ⟨r, hr⟩ := @scaled_reaches (sampleSize b - 1) (id - 1) (by omega)
    (show id - 1 < b.thisSampleId - 1 by omega) (show b.thisSampleId - 1 ≤ randMax + 1 by omega)
  exact ⟨r, by rw [hr]; omega⟩

/-- **The ids that may be accepted** are those of all samples but one. -/
theorem accepts_iff {info : Player} (hb : Sound info.bank) (id : ℤ) :
    Accepts info id ↔ Live info.bank id ∧ id ≠ info.trackDup := by
  constructor
  · rintro ⟨r, a, ha, left, hid⟩
    obtain ⟨cache, -, hpick⟩ := pick_cons hb (sampleSize info.bank - 1) info.trackDup r []
    rw [hpick] at ha
    split_ifs at ha with h
    · obtain rfl := Except.ok.inj ha
      obtain ⟨rfl, -⟩ := Prod.mk.inj (Option.some.inj hid)
      exact h
    · obtain rfl := Except.ok.inj ha
      cases hid
  · rintro ⟨hlive, hne⟩
    obtain ⟨r, hr⟩ := scaled_live hb hlive
    obtain ⟨cache, -, hpick⟩ := pick_cons hb (sampleSize info.bank - 1) info.trackDup r []
    rw [hr, if_pos ⟨hlive, hne⟩] at hpick
    exact ⟨r, _, hpick, [], rfl⟩

end Accepting

/-! ## The function -/

section Randomize

variable {info : Player}

/-- The first and the last frame of a sample are read. -/
theorem frameOf_live {b : Bank SampleInfo} (hb : Sound b) (read : SampleInfo → ℤ) {id : ℤ} (hlive : Live b id) :
    ∃ x b', frameOf read id b = .ok (x, b') ∧ Sound b' ∧ Live b' id := by
  have hhi := (hb.live_lt hlive).2.2
  obtain ⟨cache, hget, hsound, -⟩ := sampleGet_spec hb (show id ≠ sampleMaxSamples by omega)
  obtain ⟨si, hsi⟩ := Option.ne_none_iff_exists'.mp (hb.lookup_live hlive)
  obtain ⟨o, hderef, -, -⟩ := deref_of_idAt (hb.lookup_eq hsi).2.2
  have hderef' : deref si (b.withCache cache) = .ok o := hderef
  refine ⟨read o.info, b.withCache cache, ?_, hsound, hlive⟩
  rw [frameOf, hget, hsi, ok_bind]
  dsimp only
  rw [hderef', ok_bind]

/-- There is a delay, once a number is left for it. -/
theorem maxDelayOf_some (timer : RandTimer) (start last : ℤ) {draws : List Drawn} (h : draws ≠ []) :
    ∃ delay, maxDelayOf timer start last draws = some delay := by
  obtain ⟨r, left, rfl⟩ := List.exists_cons_of_ne_nil h
  cases timer with
  | frame => exact ⟨_, rfl⟩
  | length => exact ⟨_, rfl⟩

/-- **The function does not return** while every sample that there is is the one not to be drawn. -/
theorem randomize_waits (enables : ℤ → Bool) (hmode : info.randplayer.mode = .sample) (hb : Sound info.bank)
    (hall : ∀ id, Live info.bank id → id = info.trackDup) (draws : List Drawn) :
    vjPerformRandomize enables draws info = .ok none := by
  obtain ⟨b', hb'⟩ := @pick_waits SampleInfo (sampleSize info.bank - 1) info.trackDup draws info.bank hb hall
  rw [vjPerformRandomize, hmode]
  dsimp only
  rw [hb', ok_bind]

/-- **The function can return** after any numbers that were drawn, where there is a sample that may be accepted. -/
theorem randomize_ends (enables : ℤ → Bool) (hmode : info.randplayer.mode = .sample) (hb : Sound info.bank) {id : ℤ}
    (hlive : Live info.bank id) (hne : id ≠ info.trackDup) (draws : List Drawn) :
    ∃ more q, vjPerformRandomize enables (draws ++ more) info = .ok (some q) := by
  obtain ⟨r, hr⟩ := scaled_live hb hlive
  rw [← hr] at hlive hne
  obtain ⟨takeN, left, b', hpick, hb', hlive', hleft⟩ := pick_ends [r] draws hb hlive hne
  obtain ⟨start, b₁, hstart, hb₁, hlive₁⟩ := frameOf_live hb' sampleGetStartFrame hlive'
  obtain ⟨last, b₂, hlast, -, -⟩ := frameOf_live hb₁ sampleGetEndFrame hlive₁
  have hdraws : left ≠ [] := by
    rintro rfl
    exact absurd (List.suffix_nil.mp hleft) (List.cons_ne_nil _ _)
  obtain ⟨delay, hdelay⟩ := maxDelayOf_some info.randplayer.timer start last hdraws
  have hrun : vjPerformRandomize enables (draws ++ [r, r]) info = .ok (some (veejaySetSample enables takeN
      { info with randplayer := { info.randplayer with maxDelay := delay, minDelay := 1 }, bank := b₂ })) := by
    rw [vjPerformRandomize, hmode]
    dsimp only
    rw [hpick, ok_bind]
    dsimp only
    rw [hstart, ok_bind]
    dsimp only
    rw [hlast, ok_bind]
    dsimp only
    rw [hdelay]
  exact ⟨[r, r], _, hrun⟩

end Randomize

/-! ## Randomizers that work -/

/-- What plays is the sample of this id. -/
def Player.Plays (info : Player) (id : ℤ) : Prop := info.playing.mode = .sample ∧ info.playing.sampleId = id

/-- The randomizer finds a sample, whatever was drawn, can put every sample on but the one that plays, and returns where
there is none. -/
structure Randomizes (enables : ℤ → Bool) (info : Player) : Prop where
  accepts : (∃ id, Live info.bank id) → ∃ id, Accepts info id
  ends : (∃ id, Live info.bank id) → ∀ draws, ∃ more q, vjPerformRandomize enables (draws ++ more) info = .ok (some q)
  reaches : ∀ id, Live info.bank id → ¬ info.Plays id → Accepts info id
  alone : (∀ id, ¬ Live info.bank id) → ∀ draws : ℕ → Drawn,
    ∃ n q, vjPerformRandomize enables ((List.range n).map draws) info = .ok (some q) ∧ q.playing = info.playing

/-- There is a choice: a sample that does not play, or one sample only, and no other was ever stored; the playing
stream has not the id of a sample. -/
def HasChoice (info : Player) : Prop :=
  (∃ id, Live info.bank id) ∧ (sampleSize info.bank = 2 ∨
    if info.playing.mode = .sample then ∃ id, Live info.bank id ∧ id ≠ info.playing.sampleId
    else ¬ Live info.bank info.playing.sampleId)

theorem trackDup_two {info : Player} (h : sampleSize info.bank = 2) : info.trackDup = 0 := if_pos (by omega)

theorem trackDup_other {info : Player} (h : sampleSize info.bank ≠ 2) : info.trackDup = info.playing.sampleId :=
  if_neg (by omega)

/-- Some sample may be accepted. -/
theorem HasChoice.exists_other {info : Player} (hb : Sound info.bank) (h : HasChoice info) :
    ∃ id, Live info.bank id ∧ id ≠ info.trackDup := by
  obtain ⟨⟨id, hlive⟩, hchoice⟩ := h
  have hpos := (hb.live_lt hlive).1
  by_cases htwo : sampleSize info.bank = 2
  · rw [trackDup_two htwo]
    exact ⟨id, hlive, by omega⟩
  · rw [trackDup_other htwo]
    have hother := hchoice.resolve_left htwo
    split_ifs at hother with hmode
    · exact hother
    · exact ⟨id, hlive, fun heq => hother (heq ▸ hlive)⟩

/-- Every sample that does not play may be accepted. -/
theorem HasChoice.accepts {info : Player} (hb : Sound info.bank) (h : HasChoice info) {id : ℤ}
    (hlive : Live info.bank id) (hplays : ¬ info.Plays id) : Accepts info id := by
  refine (accepts_iff hb id).mpr ⟨hlive, ?_⟩
  have hpos := (hb.live_lt hlive).1
  by_cases htwo : sampleSize info.bank = 2
  · rw [trackDup_two htwo]
    omega
  · rw [trackDup_other htwo]
    rintro rfl
    have hother := h.2.resolve_left htwo
    split_ifs at hother with hmode
    · exact hplays ⟨hmode, rfl⟩
    · exact hother hlive

/-- A randomizer that works has a choice. -/
theorem Randomizes.hasChoice {enables : ℤ → Bool} {info : Player} (h : Randomizes enables info)
    (hmode : info.randplayer.mode = .sample) (hb : Sound info.bank) : HasChoice info := by
  have hlive : ∃ id, Live info.bank id := by
    by_contra hnone
    obtain ⟨n, q, hq, -⟩ := h.alone (fun id hid => hnone ⟨id, hid⟩) fun _ => ⟨0, Nat.zero_le _⟩
    rw [randomize_waits enables hmode hb fun id hid => absurd ⟨id, hid⟩ hnone] at hq
    cases hq
  refine ⟨hlive, or_iff_not_imp_left.mpr fun htwo => ?_⟩
  have hdup := trackDup_other htwo
  split_ifs with hplay
  · obtain ⟨id, hid⟩ := h.accepts hlive
    rw [accepts_iff hb, hdup] at hid
    exact ⟨id, hid⟩
  · intro hsame
    have hid := h.reaches _ hsame fun hplays => hplay hplays.1
    rw [accepts_iff hb, hdup] at hid
    exact hid.2 rfl

/-- **The randomizer works exactly if** there is a choice. -/
theorem randomizes_iff_hasChoice (enables : ℤ → Bool) {info : Player} (hmode : info.randplayer.mode = .sample)
    (hb : Sound info.bank) : Randomizes enables info ↔ HasChoice info := by
  refine ⟨fun h => h.hasChoice hmode hb, fun h => ?_⟩
  obtain ⟨id, hlive, hne⟩ := h.exists_other hb
  exact {
    accepts := fun _ => ⟨id, (accepts_iff hb id).mpr ⟨hlive, hne⟩⟩
    ends := fun _ => randomize_ends enables hmode hb hlive hne
    reaches := fun _ hi hplays => h.accepts hb hi hplays
    alone := fun hnone => absurd hlive (hnone id) }

/-- The randomizer works, in every player with this bank, exactly if there is a choice. -/
def WorksByChoice (enables : ℤ → Bool) (b : Bank SampleInfo) : Prop :=
  ∀ info : Player, info.bank = b → info.randplayer.mode = .sample → (Randomizes enables info ↔ HasChoice info)

/-- **The randomizer of a bank that is reached** by creating and deleting samples, in any order. -/
theorem randomizes_iff (c : Contents SampleInfo) (enables : ℤ → Bool) (ops : List BankOp)
    (h : RunMeets (bankStep c) HasRoom sampleInit ops) :
    Ensures (runOps (bankStep c) sampleInit ops) fun a => WorksByChoice enables a.2 := by
  have hstep : ∀ (b : Bank SampleInfo) (o : BankOp), Regular b → HasRoom b o →
      Ensures (bankStep c b o) fun a => Regular a.2 := by
    intro b o hb hroom
    obtain ⟨r, b', hrun, hb', -⟩ := bankStep_spec c hb o hroom
    exact ⟨(r, b'), hrun, hb'⟩
  refine (runOps_ensures hstep ops sampleInit regular_sampleInit h).mono fun a ha info hbank hmode => ?_
  exact randomizes_iff_hasChoice enables hmode (hbank ▸ ha.toSound)

/-- Samples as they are created and stored. -/
def newContents : Contents SampleInfo where
  fresh _ _ start last := ⟨start, last, start, 0, 0, 1, 1, 0, 0, 0, 0, 0, none⟩
  stored := Sample.sampleStore
  copied x := x

/-- No stream can be started. -/
def noStream (_ : ℤ) : Bool := false

theorem oneSample_randomizes :
    Ensures (runOps (bankStep newContents) sampleInit [.skeletonNew 0 10, .store 0]) fun a =>
      WorksByChoice noStream a.2 := by
  refine randomizes_iff newContents noStream _ ⟨fun _ => Or.inr (by decide), fun r s hnew => ?_⟩
  have hskeleton := @sampleSkeletonNew_spec SampleInfo sampleInit regular_sampleInit newContents 0 10
    fun _ => Or.inr (by decide)
  rcases hskeleton with ⟨-, hfail⟩ | ⟨id, x, b, hx, hb, hskel⟩
  · exact absurd hfail (by decide)
  rw [bankStep, hx, ok_bind] at hnew
  obtain ⟨-, rfl⟩ := Prod.mk.inj (Except.ok.inj hnew)
  exact ⟨⟨id, hskel.idAt, hskel.storable⟩, fun _ _ _ => trivial⟩

/-- The randomizer of a player with no sample. -/
def emptyPlayer : Player := ⟨⟨.plain, 0⟩, ⟨.sample, .frame, 0, 0⟩, sampleInit⟩

/-- **The loop does not end** where there is no sample. -/
theorem not_randomizes : ¬ ∀ (c : Contents SampleInfo) (enables : ℤ → Bool) (ops : List BankOp),
    RunMeets (bankStep c) HasRoom sampleInit ops → Ensures (runOps (bankStep c) sampleInit ops) fun a =>
      ∀ info : Player, info.bank = a.2 → info.randplayer.mode = .sample → Randomizes enables info := by
  intro h
  obtain ⟨a, ha, hworks⟩ := h newContents noStream [] trivial
  obtain rfl := Except.ok.inj ha
  have hrandomizes := hworks emptyPlayer rfl rfl
  obtain ⟨⟨id, hlive⟩, -⟩ := hrandomizes.hasChoice rfl regular_sampleInit.toSound
  exact hlive rfl

end Veejay.Randomizer
