import Mathlib

/-!
# Fades of the effect chain

The chain of a sample or of a stream is faded in or out over a number of frames: the fader is started, and then moves by
a step on every frame that is rendered, until its opacity has come to the end (`libsample/sampleadm.c`,
`libstream/vj-tag.c`, `veejay/vj-perform.c`).  The numbers that are `float` there are rational here.

* `sampleSetFaderActive`, `sampleApplyFaderInc`, `vjTagSetFaderActive`, `vjTagApplyFaderInc` — the faders;
* `vjPerformPostChainSample`, `vjPerformPostChainTag`, `fadeAt` — a frame, and the frames of a fade;
* `Course`, `Course.fades` — **a fader whose values take their course** fades the chain;
* `fades_iff` — **samples and streams fade alike exactly if** they fade in, or in one frame.
-/

namespace Veejay.Fade

/-! ## The faders -/

/-- The fader of a `sample_info` or of a `vj_tag`, and the status of its chain. -/
structure Fader where
  faderActive : ℤ
  faderDirection : ℤ
  faderVal : ℚ
  faderInc : ℚ
  effectToggle : ℤ

/-- `(int)`, of a number that may have a fraction. -/
def toInt (q : ℚ) : ℤ := q.num.tdiv q.den

/-- The new value, between 0 and 255. -/
def clampVal (val : ℚ) : ℚ :=
  let val := if 255 < val then 255 else val
  if val < 0 then 0 else val

/-- `sample_set_fader_active` -/
def sampleSetFaderActive (si : Fader) (nframes direction : ℤ) : ℤ × Fader :=
  if nframes ≤ 0 then (-1, si)
  else
    (1, { faderActive := 1
          faderDirection := direction
          faderVal := if direction < 0 then 255 else 0
          faderInc := 255 / nframes * direction
          effectToggle := if si.effectToggle = 0 then 1 else si.effectToggle })

/-- `vj_tag_set_fader_active` -/
def vjTagSetFaderActive (tag : Fader) (nframes direction : ℤ) : ℤ × Fader :=
  if nframes ≤ 0 then (-1, tag)
  else
    let tag := { tag with faderActive := 1, faderVal := if direction < 0 then 255 else 0 }
    -- the value is set a second time
    let tag := { tag with faderVal := 0 }
    (1, { tag with
          faderInc := 255 / nframes * direction
          faderDirection := direction
          effectToggle := if tag.effectToggle = 0 then 1 else tag.effectToggle })

/-- `sample_apply_fader_inc` -/
def sampleApplyFaderInc (si : Fader) : ℤ × Fader :=
  let val := clampVal (si.faderVal + si.faderInc)
  (toInt (val + 1 / 2), { si with faderVal := val })

/-- `vj_tag_apply_fader_inc` -/
def vjTagApplyFaderInc (tag : Fader) : ℤ × Fader :=
  let val := clampVal (tag.faderVal + tag.faderInc)
  (if tag.faderDirection ≠ 0 then toInt val else toInt (255 - val), { tag with faderVal := val })

/-- `sample_reset_fader`, `vj_tag_reset_fader` -/
def resetFader (f : Fader) : Fader := { f with faderActive := 0, faderVal := 0, faderInc := 0 }

/-- `sample_set_effect_status`, `vj_tag_set_effect_status` -/
def setEffectStatus (f : Fader) (status : ℤ) : Fader :=
  if status = 1 ∨ status = 0 then { f with effectToggle := status } else f

/-! ## A frame -/

/-- What a frame is blended with, whether another source is to follow, and the fader. -/
structure PostChain where
  opacity : ℤ
  follow : Bool
  fader : Fader

/-- The end of a chain, with the fader in `mode`.  Streams are followed at the opacity 0, too. -/
def postChain (applyFaderInc : Fader → ℤ × Fader) (followBlack followFade : Bool) (mode : ℤ) (f : Fader) : PostChain :=
  if mode = 2 then ⟨toInt f.faderVal % 2 ^ 32, followFade, f⟩
  else
    let r := applyFaderInc f
    let opacity := r.1 % 2 ^ 32
    if r.2.faderDirection < 0 ∧ opacity = 0 then ⟨opacity, followFade, resetFader (setEffectStatus r.2 1)⟩
    else if 0 < r.2.faderDirection ∧ opacity = 255 then ⟨opacity, followFade, resetFader (setEffectStatus r.2 0)⟩
    else ⟨opacity, followBlack && opacity == 0 && followFade, r.2⟩

/-- `vj_perform_post_chain_sample` -/
def vjPerformPostChainSample : Bool → ℤ → Fader → PostChain := postChain sampleApplyFaderInc false

/-- `vj_perform_post_chain_tag` -/
def vjPerformPostChainTag : Bool → ℤ → Fader → PostChain := postChain vjTagApplyFaderInc true

/-- `vj_perform_finish_chain`: the opacity of the frame, where the fader is active. -/
def finishChain (post : ℤ → Fader → PostChain) (f : Fader) : Option ℤ × Fader :=
  if f.faderActive ≠ 0 then (some (post f.faderActive f).opacity, (post f.faderActive f).fader) else (none, f)

/-- The opacity of frame `k` after the start, and the fader behind it. -/
def fadeAt (post : ℤ → Fader → PostChain) (f : Fader) : ℕ → Option ℤ × Fader
  | 0 => (none, f)
  | k + 1 => finishChain post (fadeAt post f k).2

/-! ## What a fade is -/

/-- The opacity at the end. -/
def endOpacity (direction : ℤ) : ℤ := if direction < 0 then 0 else 255

/-- The status of the chain at the end. -/
def endStatus (direction : ℤ) : ℤ := if direction < 0 then 1 else 0

/-- The fader is switched off on frame `k`, with the opacity at the end, and the status of the chain is set. -/
structure EndsAt (post : ℤ → Fader → PostChain) (f : Fader) (direction : ℤ) (k : ℕ) : Prop where
  active : ∀ j < k, (fadeAt post f j).2.faderActive ≠ 0
  off : (fadeAt post f k).2.faderActive = 0
  status : (fadeAt post f k).2.effectToggle = endStatus direction
  opacity : (fadeAt post f k).1 = some (endOpacity direction)

/-- **The property** of a fade over `n` frames: it ends in time, and moves in its direction. -/
structure Fades (post : ℤ → Fader → PostChain) (f : Fader) (n : ℕ) (direction : ℤ) : Prop where
  ends : ∃ k : ℕ, EndsAt post f direction k ∧ (n : ℚ) - n / 255 - 1 ≤ k ∧ k ≤ n
  range : ∀ k a, (fadeAt post f k).1 = some a → 0 ≤ a ∧ a ≤ 255
  moves : ∀ i j a b, i ≤ j → (fadeAt post f i).1 = some a → (fadeAt post f j).1 = some b →
    if direction < 0 then b ≤ a else a ≤ b

/-- The opacity of a frame; when the fader is off, the one it has ended with. -/
def opacityAt (post : ℤ → Fader → PostChain) (f : Fader) (direction : ℤ) (k : ℕ) : ℤ :=
  (fadeAt post f k).1.getD (endOpacity direction)

/-! ## The course of a fader -/

/-- The values of a fader over `n` frames, and what is applied of them. -/
structure Course (round : ℚ → ℤ) (v : ℕ → ℚ) (inc : ℚ) (n : ℕ) (direction : ℤ) : Prop where
  step : ∀ j < n, clampVal (v j + inc) = v (j + 1)
  range : ∀ j, 1 ≤ j → j ≤ n → 0 ≤ round (v j) ∧ round (v j) ≤ 255
  moves : ∀ i j, 1 ≤ i → i ≤ j → j ≤ n →
    if direction < 0 then round (v j) ≤ round (v i) else round (v i) ≤ round (v j)
  full : round (v n) = endOpacity direction
  late : ∀ j, 1 ≤ j → j ≤ n → round (v j) = endOpacity direction → (n : ℚ) - n / 255 - 1 ≤ j

section Run

variable {applyFaderInc : Fader → ℤ × Fader} {followBlack followFade : Bool} {round : ℚ → ℤ} {v : ℕ → ℚ} {inc : ℚ}
  {n : ℕ} {direction toggle : ℤ}

/-- The steps of a fader: its value moves, and is rounded. -/
def Applies (applyFaderInc : Fader → ℤ × Fader) (round : ℚ → ℤ) (direction : ℤ) : Prop :=
  ∀ f : Fader, f.faderDirection = direction → applyFaderInc f =
    (round (clampVal (f.faderVal + f.faderInc)), { f with faderVal := clampVal (f.faderVal + f.faderInc) })

/-- The fader behind frame `j`, before the end. -/
def fading (v : ℕ → ℚ) (inc : ℚ) (direction toggle : ℤ) (j : ℕ) : Fader := ⟨1, direction, v j, inc, toggle⟩

/-- **One frame**: the fader goes on, or comes to its end. -/
theorem finishChain_fading (happly : Applies applyFaderInc round direction) (hdir : direction ≠ 0)
    (h : Course round v inc n direction) {j : ℕ} (hj : j < n) :
    finishChain (postChain applyFaderInc followBlack followFade) (fading v inc direction toggle j) =
      (some (round (v (j + 1))),
        if round (v (j + 1)) = endOpacity direction then ⟨0, direction, 0, 0, endStatus direction⟩
        else fading v inc direction toggle (j + 1)) := by
  obtain ⟨hlo, hhi⟩ := h.range (j + 1) (by omega) hj
  have hunsigned : round (v (j + 1)) % 2 ^ 32 = round (v (j + 1)) := Int.emod_eq_of_lt hlo (by omega)
  have hstep := happly (fading v inc direction toggle j) rfl
  rw [show (fading v inc direction toggle j).faderVal + (fading v inc direction toggle j).faderInc = v j + inc from rfl,
    h.step j hj] at hstep
  have hactive : (fading v inc direction toggle j).faderActive = 1 := rfl
  rw [finishChain, hactive, if_pos (by decide), postChain, if_neg (by decide), hstep]
  dsimp only [fading]
  rw [hunsigned, endOpacity, endStatus]
  rcases lt_or_gt_of_ne hdir with hneg | hpos
  · rw [if_pos hneg, if_pos hneg]
    by_cases hend : round (v (j + 1)) = 0
    · rw [if_pos ⟨hneg, hend⟩, if_pos hend]
      rfl
    · rw [if_neg fun hh => hend hh.2, if_neg fun hh => absurd hh.1 (by omega), if_neg hend]
  · have hnot : ¬ direction < 0 := by omega
    rw [if_neg hnot, if_neg hnot, if_neg fun hh => hnot hh.1]
    by_cases hend : round (v (j + 1)) = 255
    · rw [if_pos ⟨hpos, hend⟩, if_pos hend]
      rfl
    · rw [if_neg fun hh => hend hh.2, if_neg hend]

/-- **The frames up to the end.**  `k` is the first one whose opacity is that of the end. -/
theorem fadeAt_fading (happly : Applies applyFaderInc round direction) (hdir : direction ≠ 0)
    (h : Course round v inc n direction) {k : ℕ} (hk : k ≤ n)
    (hfirst : ∀ j, 1 ≤ j → j < k → round (v j) ≠ endOpacity direction) :
    ∀ j < k, (fadeAt (postChain applyFaderInc followBlack followFade) (fading v inc direction toggle 0) j).2 =
      fading v inc direction toggle j := by
  intro j
  induction j with
  | zero => exact fun _ => rfl
  | succ j ih =>
    intro hj
    rw [fadeAt, ih (by omega), finishChain_fading happly hdir h (by omega), if_neg (hfirst (j + 1) (by omega) hj)]

/-- The first frame whose opacity is that of the end. -/
theorem Course.first_end (h : Course round v inc n direction) (hn : 1 ≤ n) :
    ∃ k, 1 ≤ k ∧ k ≤ n ∧ round (v k) = endOpacity direction ∧
      ∀ j, 1 ≤ j → j < k → round (v j) ≠ endOpacity direction := by
  classical
  have hexists : ∃ k, 1 ≤ k ∧ round (v k) = endOpacity direction := ⟨n, hn, h.full⟩
  obtain ⟨hk1, hend⟩ := Nat.find_spec hexists
  exact ⟨Nat.find hexists, hk1, Nat.find_min' hexists ⟨hn, h.full⟩, hend,
    fun j hj hlt heq => Nat.find_min hexists hlt ⟨hj, heq⟩⟩

/-- The values that are applied behind the first one that is that of the end are that one, too. -/
theorem Course.stays (h : Course round v inc n direction) {k : ℕ} (hk1 : 1 ≤ k) (hkn : k ≤ n)
    (hend : round (v k) = endOpacity direction) {j : ℕ} (hkj : k ≤ j) : round (v (min j n)) = endOpacity direction := by
  have hfrom := h.moves k (min j n) hk1 (by omega) (by omega)
  have hto := h.moves (min j n) n (by omega) (by omega) le_rfl
  rw [hend] at hfrom
  rw [h.full] at hto
  split_ifs at hfrom hto <;> omega

/-- A run of the fader: the rounded values are applied on the frames up to `k`, and then it is off. -/
structure Played (post : ℤ → Fader → PostChain) (f : Fader) (round : ℚ → ℤ) (v : ℕ → ℚ) (direction : ℤ) (k : ℕ) :
    Prop where
  active : ∀ j < k, (fadeAt post f j).2.faderActive ≠ 0
  last : (fadeAt post f k).2 = ⟨0, direction, 0, 0, endStatus direction⟩
  applied : ∀ j, 1 ≤ j → j ≤ k → (fadeAt post f j).1 = some (round (v j))
  after : ∀ j, k < j → (fadeAt post f j).1 = none

/-- A fader that is off stays off. -/
theorem fadeAt_off {post : ℤ → Fader → PostChain} {f : Fader} {k : ℕ} (hoff : (fadeAt post f k).2.faderActive = 0)
    (j : ℕ) : fadeAt post f (k + 1 + j) = (none, (fadeAt post f k).2) := by
  induction j with
  | zero => rw [Nat.add_zero, fadeAt, finishChain, if_neg (not_not.mpr hoff)]
  | succ j ih => rw [← Nat.add_assoc, fadeAt, ih, finishChain, if_neg (not_not.mpr hoff)]

/-- **A run of the fader** ends with the first opacity that is that of the end. -/
theorem Course.played (h : Course round v inc n direction) (hdir : direction ≠ 0)
    (happly : Applies applyFaderInc round direction) {k : ℕ} (hk1 : 1 ≤ k) (hkn : k ≤ n)
    (hend : round (v k) = endOpacity direction)
    (hfirst : ∀ j, 1 ≤ j → j < k → round (v j) ≠ endOpacity direction) :
    Played (postChain applyFaderInc followBlack followFade) (fading v inc direction toggle 0) round v direction k := by
  generalize hpost : postChain applyFaderInc followBlack followFade = post
  generalize hf : fading v inc direction toggle 0 = f
  have hbefore : ∀ j < k, (fadeAt post f j).2 = fading v inc direction toggle j := by
    rw [← hpost, ← hf]
    exact fadeAt_fading happly hdir h hkn hfirst
  have hframe : ∀ j < k, fadeAt post f (j + 1) = (some (round (v (j + 1))),
      if round (v (j + 1)) = endOpacity direction then ⟨0, direction, 0, 0, endStatus direction⟩
      else fading v inc direction toggle (j + 1)) := by
    intro j hj
    rw [fadeAt, hbefore j hj, ← hpost]
    exact finishChain_fading happly hdir h (by omega)
  have hlast : (fadeAt post f k).2 = ⟨0, direction, 0, 0, endStatus direction⟩ := by
    obtain ⟨i, rfl⟩ := Nat.exists_eq_add_of_le' hk1
    rw [hframe i (by omega)]
    exact if_pos hend
  refine ⟨fun j hj => ?_, hlast, fun j hj hjk => ?_, fun j hj => ?_⟩
  · rw [hbefore j hj]
    exact one_ne_zero
  · obtain ⟨i, rfl⟩ := Nat.exists_eq_add_of_le' hj
    rw [hframe i (by omega)]
  · obtain ⟨i, rfl⟩ := Nat.exists_eq_add_of_le (show k + 1 ≤ j from hj)
    rw [fadeAt_off (congrArg Fader.faderActive hlast) i]

/-- An opacity is applied on the frames up to `k` only. -/
theorem Played.eq_of_some {post : ℤ → Fader → PostChain} {f : Fader} {k : ℕ} (h : Played post f round v direction k)
    {j : ℕ} {a : ℤ} (ha : (fadeAt post f j).1 = some a) : 1 ≤ j ∧ j ≤ k ∧ a = round (v j) := by
  rcases Nat.lt_or_ge k j with hlt | hle
  · rw [h.after j hlt] at ha
    cases ha
  · rcases Nat.eq_zero_or_pos j with rfl | hj
    · cases ha
    · rw [h.applied j hj hle] at ha
      exact ⟨hj, hle, (Option.some.inj ha).symm⟩

/-- **The opacity of every frame** is the rounded value of the fader; behind the last one it stays. -/
theorem Course.fades (h : Course round v inc n direction) (hn : 1 ≤ n) (hdir : direction ≠ 0)
    (happly : Applies applyFaderInc round direction) (followBlack followFade : Bool) (toggle : ℤ) :
    Fades (postChain applyFaderInc followBlack followFade) (fading v inc direction toggle 0) n direction ∧
      ∀ j, 1 ≤ j → opacityAt (postChain applyFaderInc followBlack followFade) (fading v inc direction toggle 0) direction j =
        round (v (min j n)) := by
  obtain ⟨k, hk1, hkn, hend, hfirst⟩ := h.first_end hn
  have hplayed := @Course.played applyFaderInc followBlack followFade round v inc n direction toggle h hdir happly
    k hk1 hkn hend hfirst
  refine ⟨⟨⟨k, ⟨hplayed.active, ?_, ?_, ?_⟩, h.late k hk1 hkn hend, hkn⟩, fun j a ha => ?_, fun i j a b hij ha hb => ?_⟩,
    fun j hj => ?_⟩
  · rw [hplayed.last]
  · rw [hplayed.last]
  · rw [hplayed.applied k hk1 le_rfl, hend]
  · obtain ⟨hj, hjk, rfl⟩ := hplayed.eq_of_some ha
    exact h.range j hj (hjk.trans hkn)
  · obtain ⟨hi, -, rfl⟩ := hplayed.eq_of_some ha
    obtain ⟨-, hjk, rfl⟩ := hplayed.eq_of_some hb
    exact h.moves i j hi hij (hjk.trans hkn)
  · rw [opacityAt]
    rcases Nat.lt_or_ge k j with hlt | hle
    · rw [hplayed.after j hlt, Option.getD_none]
      exact (h.stays hk1 hkn hend hlt.le).symm
    · rw [hplayed.applied j hj hle, Option.getD_some, Nat.min_eq_left (hle.trans hkn)]

end Run

/-! ## Rounding -/

/-- A way to round the values from 0 on. -/
structure Rounding (round : ℚ → ℤ) : Prop where
  mono : ∀ a b, 0 ≤ a → a ≤ b → round a ≤ round b
  zero : round 0 = 0
  full : round 255 = 255
  near : ∀ a, 0 ≤ a → |(round a : ℚ) - a| ≤ 1

theorem toInt_of_nonneg {q : ℚ} (h : 0 ≤ q) : toInt q = ⌊q⌋ := by
  show q.num.tdiv q.den = Rat.floor q
  rw [Rat.floor_def]
  exact Int.tdiv_eq_ediv_of_nonneg (Rat.num_nonneg.mpr h)

theorem floor_near (a b : ℚ) (h : a ≤ b) (h' : b ≤ a + 1) : |((⌊b⌋ : ℤ) : ℚ) - a| ≤ 1 := by
  have hle := Int.floor_le b
  have hlt := Int.lt_floor_add_one b
  rw [abs_le]
  constructor
  · linarith
  · linarith

/-- `(int) (val + 0.5)` -/
theorem rounding_sample : Rounding fun val => toInt (val + 1 / 2) where
  mono a b ha hab := by
    rw [toInt_of_nonneg (by linarith), toInt_of_nonneg (by linarith)]
    exact Int.floor_le_floor (by linarith)
  zero := by
    rw [toInt_of_nonneg (by norm_num), Int.floor_eq_iff]
    norm_num
  full := by
    rw [toInt_of_nonneg (by norm_num), Int.floor_eq_iff]
    norm_num
  near a ha := by
    rw [toInt_of_nonneg (by linarith)]
    exact floor_near a (a + 1 / 2) (by linarith) (by linarith)

/-- `(int) val` -/
theorem rounding_tag : Rounding toInt where
  mono a b ha hab := by
    rw [toInt_of_nonneg ha, toInt_of_nonneg (ha.trans hab)]
    exact Int.floor_le_floor hab
  zero := by decide
  full := by decide
  near a ha := by
    rw [toInt_of_nonneg ha]
    exact floor_near a a le_rfl (by linarith)

/-! ## From one end to the other -/

section Line

variable {n : ℕ} {direction : ℤ} {round : ℚ → ℤ}

/-- The value of the fader behind frame `j`, from 0 to 255 or back. -/
def line (n : ℕ) (direction : ℤ) (j : ℕ) : ℚ := if direction < 0 then 255 - 255 * (j / n) else 255 * (j / n)

/-- The part of the frames that is over. -/
theorem part_range (hn : 1 ≤ n) {j : ℕ} (hj : j ≤ n) : (0 : ℚ) ≤ j / n ∧ (j : ℚ) / n ≤ 1 := by
  have hpos : (0 : ℚ) < n := Nat.cast_pos.mpr hn
  refine ⟨by positivity, ?_⟩
  rw [div_le_one hpos]
  exact_mod_cast hj

theorem line_range (direction : ℤ) (hn : 1 ≤ n) {j : ℕ} (hj : j ≤ n) : 0 ≤ line n direction j ∧ line n direction j ≤ 255 := by
  obtain ⟨hlo, hhi⟩ := part_range hn hj
  rw [line]
  split_ifs
  · constructor <;> linarith
  · constructor <;> linarith

theorem clampVal_eq {val : ℚ} (hlo : 0 ≤ val) (hhi : val ≤ 255) : clampVal val = val := by
  rw [clampVal, if_neg (not_lt.mpr hhi)]
  exact if_neg (not_lt.mpr hlo)

theorem clampVal_of_neg {val : ℚ} (h : val < 0) : clampVal val = 0 := by
  rw [clampVal, if_neg (not_lt.mpr (h.le.trans (by norm_num)))]
  exact if_pos h

theorem line_step (hn : 1 ≤ n) (hdir : direction = -1 ∨ direction = 1) (j : ℕ) :
    line n direction j + 255 / n * direction = line n direction (j + 1) := by
  have hne : (n : ℚ) ≠ 0 := Nat.cast_ne_zero.mpr (by omega)
  rcases hdir with rfl | rfl
  · rw [line, line, if_pos (by decide), if_pos (by decide)]
    push_cast
    field_simp
    ring
  · rw [line, line, if_neg (by decide), if_neg (by decide)]
    push_cast
    field_simp

/-- **The course of a fade**, whichever way it is rounded. -/
theorem line_course (hround : Rounding round) (hn : 1 ≤ n) (hdir : direction = -1 ∨ direction = 1) :
    Course round (line n direction) (255 / n * direction) n direction where
  step j hj := by
    obtain ⟨hlo, hhi⟩ := line_range direction hn (show j + 1 ≤ n from hj)
    rw [line_step hn hdir]
    exact clampVal_eq hlo hhi
  range j _ hj := by
    obtain ⟨hlo, hhi⟩ := line_range direction hn hj
    have hzero := hround.mono _ _ le_rfl hlo
    have hfull := hround.mono _ _ hlo hhi
    rw [hround.zero] at hzero
    rw [hround.full] at hfull
    exact ⟨hzero, hfull⟩
  moves i j _ hij hj := by
    have hpart : (i : ℚ) / n ≤ j / n := by
      have hcast : (i : ℚ) ≤ j := by exact_mod_cast hij
      gcongr
    have hi := (line_range direction hn (hij.trans hj)).1
    have hj' := (line_range direction hn hj).1
    rw [line] at hi hj'
    rw [line, line]
    split_ifs at hi hj' ⊢
    · exact hround.mono _ _ hj' (by linarith)
    · exact hround.mono _ _ hi (by linarith)
  full := by
    have hne : (n : ℚ) ≠ 0 := Nat.cast_ne_zero.mpr (by omega)
    rw [line, endOpacity, div_self hne]
    split_ifs
    · rw [mul_one, sub_self]
      exact hround.zero
    · rw [mul_one]
      exact hround.full
  late j _ hj hend := by
    have hpos : (0 : ℚ) < n := Nat.cast_pos.mpr hn
    have hnear := abs_le.mp (hround.near _ (line_range direction hn hj).1)
    rw [hend, line, endOpacity] at hnear
    -- all but one of the 255 parts are over
    have hpart : (254 : ℚ) ≤ 255 * (j / n) := by
      split_ifs at hnear
      · push_cast at hnear
        linarith
      · push_cast at hnear
        linarith
    have hframes : (254 : ℚ) * n ≤ 255 * j := by
      have hmul := mul_le_mul_of_nonneg_right hpart hpos.le
      rwa [mul_assoc, div_mul_cancel₀ _ hpos.ne'] at hmul
    linarith

end Line

/-! ## Samples and streams -/

section Sources

variable {n : ℕ} {direction : ℤ}

theorem sampleSetFaderActive_eq (hn : 1 ≤ n) (si : Fader) :
    ∃ toggle, (sampleSetFaderActive si n direction).2 =
      fading (line n direction) (255 / n * direction) direction toggle 0 := by
  refine ⟨if si.effectToggle = 0 then 1 else si.effectToggle, ?_⟩
  rw [sampleSetFaderActive, if_neg (by omega), fading, line, Nat.cast_zero, zero_div, mul_zero, sub_zero]
  push_cast
  rfl

/-- The value of a stream's fader begins at 0, also where it is to fade out. -/
theorem vjTagSetFaderActive_eq (hn : 1 ≤ n) (tag : Fader) {v : ℕ → ℚ} (hv : v 0 = 0) :
    ∃ toggle, (vjTagSetFaderActive tag n direction).2 = fading v (255 / n * direction) direction toggle 0 := by
  refine ⟨if tag.effectToggle = 0 then 1 else tag.effectToggle, ?_⟩
  rw [vjTagSetFaderActive, if_neg (by omega), fading, hv]
  push_cast
  rfl

theorem sample_applies : Applies sampleApplyFaderInc (fun val => toInt (val + 1 / 2)) direction := fun _ _ => rfl

theorem tag_applies (hdir : direction ≠ 0) : Applies vjTagApplyFaderInc toInt direction := by
  intro f hf
  rw [vjTagApplyFaderInc, hf, if_pos hdir]

/-- **A sample fades** in both directions. -/
theorem sample_fades (hn : 1 ≤ n) (hdir : direction = -1 ∨ direction = 1) (followFade : Bool) (si : Fader) :
    Fades (vjPerformPostChainSample followFade) (sampleSetFaderActive si n direction).2 n direction ∧
      ∀ j, 1 ≤ j → opacityAt (vjPerformPostChainSample followFade) (sampleSetFaderActive si n direction).2 direction j =
        toInt (line n direction (min j n) + 1 / 2) := by
  obtain ⟨toggle, hstart⟩ := @sampleSetFaderActive_eq n direction hn si
  rw [hstart]
  exact (line_course rounding_sample hn hdir).fades hn (by omega) sample_applies false followFade toggle

/-- **A stream fades in.** -/
theorem tag_fades_in (hn : 1 ≤ n) (followFade : Bool) (tag : Fader) :
    Fades (vjPerformPostChainTag followFade) (vjTagSetFaderActive tag n 1).2 n 1 ∧
      ∀ j, 1 ≤ j → opacityAt (vjPerformPostChainTag followFade) (vjTagSetFaderActive tag n 1).2 1 j =
        toInt (line n 1 (min j n)) := by
  have hzero : line n 1 0 = 0 := by rw [line, if_neg (by decide), Nat.cast_zero, zero_div, mul_zero]
  obtain ⟨toggle, hstart⟩ := @vjTagSetFaderActive_eq n 1 hn tag _ hzero
  rw [hstart]
  exact (line_course rounding_tag hn (.inr rfl)).fades hn (by decide) (tag_applies (by decide)) true followFade toggle

/-- The fader of a stream that is to fade out has come to its end with the first step. -/
theorem tag_out_course (hn : 1 ≤ n) : Course toInt (fun _ => 0) (255 / n * (-1 : ℤ)) 1 (-1) where
  step j _ := by
    have hinc : (255 : ℚ) / n * (-1 : ℤ) < 0 := by
      have hpos : (0 : ℚ) < n := Nat.cast_pos.mpr hn
      push_cast
      rw [mul_neg_one, neg_lt_zero]
      positivity
    rw [zero_add]
    exact clampVal_of_neg hinc
  range _ _ _ := by decide
  moves _ _ _ _ _ := by decide
  full := by decide
  late j hj _ _ := by
    have hcast : (1 : ℚ) ≤ j := by exact_mod_cast hj
    push_cast
    linarith

/-- **A stream fades out in one frame.** -/
theorem tag_fades_out (hn : 1 ≤ n) (followFade : Bool) (tag : Fader) :
    Fades (vjPerformPostChainTag followFade) (vjTagSetFaderActive tag n (-1)).2 1 (-1) ∧
      ∀ j, 1 ≤ j → opacityAt (vjPerformPostChainTag followFade) (vjTagSetFaderActive tag n (-1)).2 (-1) j = 0 := by
  obtain ⟨toggle, hstart⟩ := @vjTagSetFaderActive_eq n (-1) hn tag (fun _ => 0) rfl
  rw [hstart]
  obtain ⟨hfades, hopacity⟩ :=
    (tag_out_course hn).fades le_rfl (by decide) (tag_applies (by decide)) true followFade toggle
  exact ⟨hfades, fun j hj => (hopacity j hj).trans (by decide)⟩

/-- **The property**: the chain of a sample and that of a stream fade, and at every frame their opacities differ by at
most one. -/
structure FadesAlike (followFade : Bool) (si tag : Fader) (n : ℕ) (direction : ℤ) : Prop where
  sample : Fades (vjPerformPostChainSample followFade) (sampleSetFaderActive si n direction).2 n direction
  stream : Fades (vjPerformPostChainTag followFade) (vjTagSetFaderActive tag n direction).2 n direction
  close : ∀ k, 1 ≤ k →
    |opacityAt (vjPerformPostChainSample followFade) (sampleSetFaderActive si n direction).2 direction k -
      opacityAt (vjPerformPostChainTag followFade) (vjTagSetFaderActive tag n direction).2 direction k| ≤ 1

/-- Rounding up and rounding down. -/
theorem toInt_close {val : ℚ} (h : 0 ≤ val) : |toInt (val + 1 / 2) - toInt val| ≤ 1 := by
  rw [toInt_of_nonneg (by linarith), toInt_of_nonneg h, abs_le]
  have hlo : ⌊val⌋ ≤ ⌊val + 1 / 2⌋ := Int.floor_le_floor (by linarith)
  have hhi : ⌊val + 1 / 2⌋ ≤ ⌊val + 1⌋ := Int.floor_le_floor (by linarith)
  rw [Int.floor_add_one] at hhi
  omega

/-- **Samples and streams fade alike exactly if** they fade in, or in one frame. -/
theorem fades_iff (hn : 1 ≤ n) (hdir : direction = -1 ∨ direction = 1) (followFade : Bool) (si tag : Fader) :
    FadesAlike followFade si tag n direction ↔ direction = 1 ∨ n = 1 := by
  obtain ⟨hsample, hopacity⟩ := sample_fades hn hdir followFade si
  constructor
  · intro h
    by_contra hnot
    obtain rfl : direction = -1 := by omega
    -- the first frame of a sample has an opacity of 128 or more, that of a stream is 0
    have hclose := h.close 1 le_rfl
    rw [hopacity 1 le_rfl, (tag_fades_out hn followFade tag).2 1 le_rfl, sub_zero, Nat.min_eq_left hn] at hclose
    have htwo : (2 : ℚ) ≤ n := by exact_mod_cast (show 2 ≤ n by omega)
    have hhalf : (1 : ℚ) / n ≤ 1 / 2 := one_div_le_one_div_of_le (by norm_num) htwo
    have hline : (128 : ℚ) ≤ line n (-1) 1 + 1 / 2 := by
      rw [line, if_pos (by decide), Nat.cast_one]
      linarith
    have hopaque : (128 : ℤ) ≤ toInt (line n (-1) 1 + 1 / 2) := by
      rw [toInt_of_nonneg (by linarith), Int.le_floor]
      exact_mod_cast hline
    have hle := (abs_le.mp hclose).2
    omega
  · intro h
    by_cases hin : direction = 1
    · subst hin
      obtain ⟨htag, hopacity'⟩ := tag_fades_in hn followFade tag
      refine ⟨hsample, htag, fun k hk => ?_⟩
      rw [hopacity k hk, hopacity' k hk]
      exact toInt_close (line_range _ hn (Nat.min_le_right k n)).1
    · obtain rfl : direction = -1 := hdir.resolve_right hin
      obtain rfl : n = 1 := h.resolve_left hin
      obtain ⟨htag, hopacity'⟩ := tag_fades_out le_rfl followFade tag
      refine ⟨hsample, htag, fun k hk => ?_⟩
      have hfull := (line_course rounding_sample (show 1 ≤ 1 from le_rfl) (.inl rfl : (-1 : ℤ) = -1 ∨ (-1 : ℤ) = 1)).full
      rw [hopacity k hk, hopacity' k hk, Nat.min_eq_right hk, hfull]
      decide

end Sources

/-- A fader that is off. -/
def idleFader : Fader := ⟨0, 0, 0, 0, 1⟩

/-- Over four frames, a sample and a stream fade in alike. -/
theorem fades_in : FadesAlike false idleFader idleFader 4 1 := (fades_iff (by decide) (.inr rfl) _ _ _).mpr (.inl rfl)

/-- The chain of a stream that is to fade out over four frames is off with the first one. -/
theorem not_fades_out : ¬ ∀ (n : ℕ) (direction : ℤ), 1 ≤ n → direction = -1 ∨ direction = 1 →
    ∀ (followFade : Bool) (si tag : Fader), FadesAlike followFade si tag n direction := by
  intro h
  obtain ⟨k, hends, hlo, hhi⟩ := (h 4 (-1) (by decide) (.inl rfl) false idleFader idleFader).stream.ends
  obtain ⟨k', hends', -, hfirst⟩ := (@tag_fades_out 4 (by decide) false idleFader).1.ends
  have hk : k ≤ 1 := by
    by_contra hlt
    exact hends.active k' (by omega) hends'.off
  have hcast : (k : ℚ) ≤ 1 := by exact_mod_cast hk
  norm_num at hlo
  linarith

end Veejay.Fade
