import Veejay.Keyframes.Animation

/-!
# Clearing the keyframes of a parameter

`keyframe_clear_entry` (`veejay/vjkf.c`) removes the keyframes in the range that is stored for a parameter.  Each
`keyframe_unpack` stores the range of its own packet, and leaves the keyframes of the packets before it where they are.

* `storedRange`, `Removes` — the range, and the hash codes that are removed;
* `Without` — a map without some of its codes, as the loop leaves it (`clearLoop_without`);
* `clears_iff` — **when nothing is left of a parameter and everything of the others**, after any history of the chain.
-/

namespace Veejay.Keyframes

open CLib Vevo Veejay.Samples

/-! ## The condition -/

/-- A number that is stored for a parameter; it is 0 where there is none. -/
def storedAt (e : Entry) (key : String) (p : ℤ) : ℤ :=
  (e.kf.bind fun port => (getInt port (extract key p)).toOption.join).getD 0

/-- The range that is stored for a parameter. -/
def InStoredRange (e : Entry) (p n : ℤ) : Prop := storedAt e "start" p ≤ n ∧ n ≤ storedAt e "end" p

/-- **What is removed** for a parameter: the frames of its stored range, and the range itself. -/
def Removes (e : Entry) (p : ℤ) (code : UInt64) : Prop :=
  (∃ n, InStoredRange e p n ∧ hashKeyCode (keyframeId p n) = code) ∨
    ∃ key ∈ ["start", "end", "type"], hashKeyCode (extract key p) = code

/-- **The condition**: every keyframe of the parameter is removed, and no keyframe of another one. -/
def Covered (e : Entry) (p : ℤ) : Prop :=
  (∀ n, InInt n → (keyframeAt e p n).isSome → Removes e p (hashKeyCode (keyframeId p n))) ∧
    ∀ q n, InInt q → InInt n → q ≠ p → (keyframeAt e q n).isSome → ¬ Removes e p (hashKeyCode (keyframeId q n))

/-- The call leaves no keyframe of the parameter in the entry, and every keyframe of the other parameters and the other
entries as it was. -/
def Clears (chain : EffectChain) (c : Fin sampleMaxEffects) (p : ℤ) : Prop :=
  Ensures (keyframeClearEntry (c : ℕ) p chain) fun chain' =>
    (∀ n, InInt n → keyframeAt (chain' c) p n = none) ∧
      ∀ d q n, InInt q → InInt n → (d ≠ c ∨ q ≠ p) → ∀ v ∈ keyframeAt (chain d) q n, v ∈ keyframeAt (chain' d) q n

/-! ## The calls -/

/-- A map without some of its codes. -/
def Without (removed : UInt64 → Prop) (f g : UInt64 → Option Int32) : Prop :=
  ∀ code, (removed code → g code = none) ∧ (¬ removed code → g code = f code)

section Maps

variable {removed removed' : UInt64 → Prop} {f g : UInt64 → Option Int32}

theorem without_update (f : UInt64 → Option Int32) (code : UInt64) :
    Without (fun code' => code = code') f (Function.update f code none) := by
  intro code'
  constructor
  · rintro rfl
    exact Function.update_self ..
  · intro hne
    exact Function.update_of_ne (Ne.symm hne) ..

/-- One after the other. -/
theorem Without.trans {k : UInt64 → Option Int32} (hfg : Without removed f g) (hgk : Without removed' g k) :
    Without (fun code => removed code ∨ removed' code) f k := by
  intro code
  constructor
  · intro hremoved
    by_cases hlater : removed' code
    · exact (hgk code).1 hlater
    · rw [(hgk code).2 hlater]
      exact (hfg code).1 (hremoved.resolve_right hlater)
  · intro hneither
    obtain ⟨hfirst, hlater⟩ := not_or.mp hneither
    rw [(hgk code).2 hlater, (hfg code).2 hfirst]

theorem Without.congr (h : Without removed f g) (hiff : ∀ code, removed code ↔ removed' code) : Without removed' f g :=
  fun code => ⟨fun hr => (h code).1 ((hiff code).mpr hr), fun hr => (h code).2 fun hr' => hr ((hiff code).mp hr')⟩

end Maps

section Calls

variable {port : Port} {f : UInt64 → Option Int32}

theorem del_without (hport : IntPort port f) (key : CStr) :
    Ensures (vevoPropertyDel port key) fun a =>
      ∃ g, IntPort a.2 g ∧ Without (fun code => hashKeyCode key = code) f g :=
  (del_update hport key).mono fun _ ha => ⟨_, ha, without_update f _⟩

/-- **The loop** removes the frames of the range. -/
theorem clearLoop_without (p : ℤ) : ∀ (n : ℕ) (i : ℤ) {port : Port} {f : UInt64 → Option Int32}, IntPort port f →
    Ensures (clearLoop p n i port) fun port' => ∃ g, IntPort port' g ∧
      Without (fun code => ∃ j, (i ≤ j ∧ j < i + n) ∧ hashKeyCode (keyframeId p j) = code) f g := by
  intro n
  induction n with
  | zero =>
    intro i port f hport
    refine ⟨port, rfl, f, hport, fun code => ⟨?_, fun _ => rfl⟩⟩
    rintro ⟨j, ⟨hlo, hhi⟩, -⟩
    omega
  | succ n ih =>
    intro i port f hport
    obtain ⟨a, hdel, g₁, hg₁, hwithout₁⟩ := del_without hport (keyframeId p i)
    rw [clearLoop, hdel, ok_bind]
    refine (ih (i + 1) hg₁).mono ?_
    rintro port' ⟨g, hg, hwithout⟩
    refine ⟨g, hg, (hwithout₁.trans hwithout).congr fun code => ?_⟩
    push_cast
    constructor
    · rintro (hfirst | ⟨j, ⟨hlo, hhi⟩, hcode⟩)
      · exact ⟨i, by omega, hfirst⟩
      · exact ⟨j, by omega, hcode⟩
    · rintro ⟨j, ⟨hlo, hhi⟩, hcode⟩
      rcases eq_or_lt_of_le hlo with rfl | hlt
      · exact .inl hcode
      · exact .inr ⟨j, by omega, hcode⟩

end Calls

section Entries

variable {playmode : Playmode} {chain : EffectChain}

theorem storedAt_eq {e : Entry} {port : Port} {f : UInt64 → Option Int32} (hkf : e.kf = some port) (hport : IntPort port f)
    (key : String) (p : ℤ) : storedAt e key p = ((f (hashKeyCode (extract key p))).map Int32.toInt).getD 0 := by
  rw [storedAt, hkf, Option.bind_some, getInt_eq hport]
  rfl

theorem keyframeAt_eq {e : Entry} {port : Port} {f : UInt64 → Option Int32} (hkf : e.kf = some port) (hport : IntPort port f)
    (p n : ℤ) : keyframeAt e p n = (f (hashKeyCode (keyframeId p n))).map Int32.toInt := by
  rw [keyframeAt, hkf, Option.bind_some, getInt_eq hport]
  rfl

/-- **`keyframe_clear_entry`**: the map of the port without what is removed. -/
theorem keyframeClearEntry_without (c : Fin sampleMaxEffects) {port : Port} {f : UInt64 → Option Int32}
    (hkf : (chain c).kf = some port) (hport : IntPort port f) (p : ℤ) :
    Ensures (keyframeClearEntry (c : ℕ) p chain) fun chain' =>
      ∃ port' g, chain' = Function.update chain c { chain c with kf := some port' } ∧ IntPort port' g ∧
        Without (Removes (chain c) p) f g := by
  have hstart := storedAt_eq hkf hport "start" p
  have hend := storedAt_eq hkf hport "end" p
  rw [keyframeClearEntry, slot_val, ok_bind, hkf]
  dsimp only
  rw [getInt_eq hport, ok_bind, getInt_eq hport, ok_bind, ← hstart, ← hend]
  obtain ⟨port₁, hloop, g₁, hg₁, hwithout₁⟩ := clearLoop_without p
    (storedAt (chain c) "end" p - storedAt (chain c) "start" p + 1).toNat (storedAt (chain c) "start" p) hport
  obtain ⟨⟨e₂, port₂⟩, hdel₂, g₂, hg₂, hwithout₂⟩ := del_without hg₁ (extract "start" p)
  obtain ⟨⟨e₃, port₃⟩, hdel₃, g₃, hg₃, hwithout₃⟩ := del_without (show IntPort port₂ g₂ from hg₂) (extract "end" p)
  obtain ⟨⟨e₄, port₄⟩, hdel₄, g₄, hg₄, hwithout₄⟩ := del_without (show IntPort port₃ g₃ from hg₃) (extract "type" p)
  rw [hloop, ok_bind, hdel₂, ok_bind, hdel₃, ok_bind, hdel₄, ok_bind]
  refine ⟨_, rfl, port₄, g₄, rfl, hg₄,
    (((hwithout₁.trans hwithout₂).trans hwithout₃).trans hwithout₄).congr fun code => ?_⟩
  rw [Removes]
  have hrange : (∃ j, (storedAt (chain c) "start" p ≤ j ∧ j < storedAt (chain c) "start" p +
        ((storedAt (chain c) "end" p - storedAt (chain c) "start" p + 1).toNat : ℕ)) ∧
        hashKeyCode (keyframeId p j) = code) ↔
      ∃ n, InStoredRange (chain c) p n ∧ hashKeyCode (keyframeId p n) = code := by
    refine exists_congr fun j => and_congr_left fun _ => ?_
    rw [InStoredRange]
    omega
  simp only [hrange, List.mem_cons, List.not_mem_nil, or_false, exists_eq_or_imp, exists_eq_left, or_assoc]

theorem clears_iff_of_port (c : Fin sampleMaxEffects) {port : Port} {f : UInt64 → Option Int32}
    (hkf : (chain c).kf = some port) (hport : IntPort port f) (p : ℤ) : Clears chain c p ↔ Covered (chain c) p := by
  obtain ⟨chain', hclear, port', g, rfl, hport', hwithout⟩ := keyframeClearEntry_without c hkf hport p
  rw [Clears, hclear, ensures_ok, Function.update_self]
  have hbefore := keyframeAt_eq hkf hport
  have hafter : ∀ q n, keyframeAt { chain c with kf := some port' } q n =
      (g (hashKeyCode (keyframeId q n))).map Int32.toInt := keyframeAt_eq rfl hport'
  constructor
  · rintro ⟨hcomplete, hlocal⟩
    refine ⟨fun n hn hsome => ?_, fun q n hq hn hne hsome hremoved => ?_⟩
    · by_contra hnot
      have hgone := hcomplete n hn
      rw [hafter, (hwithout _).2 hnot, ← hbefore] at hgone
      rw [hgone] at hsome
      cases hsome
    · obtain ⟨v, hv⟩ := Option.isSome_iff_exists.mp hsome
      have hkept := hlocal c q n hq hn (.inr hne) v hv
      rw [Function.update_self, hafter, (hwithout _).1 hremoved] at hkept
      cases hkept
  · rintro ⟨hcomplete, hlocal⟩
    refine ⟨fun n hn => ?_, fun d q n hq hn hother v hv => ?_⟩
    · rw [hafter]
      by_cases hremoved : Removes (chain c) p (hashKeyCode (keyframeId p n))
      · rw [(hwithout _).1 hremoved]
        rfl
      · rw [(hwithout _).2 hremoved, ← hbefore]
        exact Option.not_isSome_iff_eq_none.mp fun hsome => hremoved (hcomplete n hn hsome)
    · by_cases hd : d = c
      · subst hd
        have hnot := hlocal q n hq hn (hother.resolve_left fun hne => hne rfl) (Option.isSome_iff_exists.mpr ⟨v, hv⟩)
        rw [Function.update_self, hafter, (hwithout _).2 hnot, ← hbefore]
        exact hv
      · rw [Function.update_of_ne hd]
        exact hv

/-- **Clearing is complete and local** exactly if the keyframes of the parameter, and no others, are among what is
removed: after any history of the chain. -/
theorem clears_iff {ops : List KfOp} (hrun : runKf playmode ops (newChain playmode) = .ok chain)
    (c : Fin sampleMaxEffects) (p : ℤ) : Clears chain c p ↔ Covered (chain c) p := by
  have hregular := runKf_regular (regular_newChain playmode) hrun
  cases hkf : (chain c).kf with
  | none =>
    have hnever : ∀ q n, keyframeAt (chain c) q n = none := keyframeAt_of_none hkf
    refine iff_of_true ⟨chain, ?_, fun n _ => hnever p n, fun _ _ _ _ _ _ _ hv => hv⟩ ⟨fun n _ hsome => ?_,
      fun q n _ _ _ hsome => ?_⟩
    · rw [keyframeClearEntry, slot_val, ok_bind, hkf]
    · rw [hnever] at hsome
      cases hsome
    · rw [hnever] at hsome
      cases hsome
  | some port =>
    obtain ⟨f, hport⟩ := hregular.numbers c port hkf
    exact clears_iff_of_port c hkf hport p

end Entries

/-! ## Two packets -/

/-- A packet with one keyframe of parameter 0. -/
def onePacket (entry frame : ℤ) : List UInt8 := header entry 0 frame frame 2 ++ intBytes 9

theorem ok_of_toOption {α : Type} {x : Exec α} {a : α} (h : x.toOption = some a) : x = .ok a := by
  cases x with
  | error f => cases h
  | ok b => rw [Option.some.inj h]

/-- A keyframe in the second entry stays where it is when the first one is cleared. -/
theorem otherEntry_clears : ∃ chain, runKf .sample [.unpack (onePacket 1 0)] (newChain .sample) = .ok chain ∧
    Clears chain entry0 0 := by
  have hempty : ((runKf .sample [.unpack (onePacket 1 0)] (newChain .sample)).toOption.map fun chain =>
      (chain entry0).kf.isNone) = some true := by decide
  obtain ⟨chain, hchain, hnone⟩ := Option.map_eq_some_iff.mp hempty
  have hrun := ok_of_toOption hchain
  have hnever : ∀ q n, keyframeAt (chain entry0) q n = none := keyframeAt_of_none (Option.isNone_iff_eq_none.mp hnone)
  refine ⟨chain, hrun, (clears_iff hrun entry0 0).mpr ⟨fun n _ hsome => ?_, fun q n _ _ _ hsome => ?_⟩⟩
  · rw [hnever] at hsome
    cases hsome
  · rw [hnever] at hsome
    cases hsome

/-- **The keyframe of the first packet** is not in the range of the second, and is not removed. -/
theorem not_clears : ¬ ∀ (playmode : Playmode) (packets : List (List UInt8)) (chain : EffectChain),
    runKf playmode (packets.map .unpack) (newChain playmode) = .ok chain →
    ∀ (c : Fin sampleMaxEffects) (p : ℤ), Clears chain c p := by
  intro h
  have hleft : ((runKf .sample ([onePacket 0 0, onePacket 0 1].map .unpack) (newChain .sample) >>=
      keyframeClearEntry 0 0).toOption.map fun chain => keyframeAt (chain entry0) 0 0) = some (some 9) := by
    decide
  obtain ⟨chain', hchain, hframe⟩ := Option.map_eq_some_iff.mp hleft
  obtain ⟨chain, hrun, hclear⟩ := bind_eq_ok.mp (ok_of_toOption hchain)
  obtain ⟨hcomplete, -⟩ := (h .sample [onePacket 0 0, onePacket 0 1] chain hrun entry0 0).apply hclear
  rw [hcomplete 0 (by decide)] at hframe
  cases hframe

end Veejay.Keyframes
