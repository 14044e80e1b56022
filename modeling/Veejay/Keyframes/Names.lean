import Veejay.Keyframes.Clear

/-!
# The hash codes of keyframes

A port tells its properties apart by the hash codes of their names (`hash_key_code`, `libvevo/vevo.c`).  The names that
a packet can give have a parameter of two characters and a frame of at most eight, and their hash codes differ.

* `hashFrom` — the hash code as a number (`hashKeyCode_toNat`), with the bounds that the characters of a name give;
* `hashFrom_inj` — names of one length with characters that are close to each other;
* `keyframeId_inj` — **no two names of keyframes have one hash code**;
* `keyframes_never_alias` — **a lookup gives what was stored under its own name**.
-/

namespace Veejay.Keyframes

open CLib Vevo Veejay.Samples

/-! ## The hash code as a number -/

/-- `hash * 33 + c`, over a text. -/
def hashFrom (a : ℕ) (s : CStr) : ℕ := s.foldl (fun hash c => 33 * hash + c.toNat) a

theorem hashFrom_append (a : ℕ) (s t : CStr) : hashFrom a (s ++ t) = hashFrom (hashFrom a s) t :=
  List.foldl_append

theorem hashFrom_cons (a : ℕ) (c : UInt8) (s : CStr) : hashFrom a (c :: s) = hashFrom (33 * a + c.toNat) s := rfl

/-- What is in front of a text counts by the length of the text. -/
theorem hashFrom_eq (a : ℕ) (s : CStr) : hashFrom a s = a * 33 ^ s.length + hashFrom 0 s := by
  induction s generalizing a with
  | nil => rw [List.length_nil, pow_zero, mul_one]; rfl
  | cons c s ih =>
    rw [hashFrom_cons, hashFrom_cons, ih (33 * a + c.toNat), ih (33 * 0 + c.toNat), List.length_cons]
    ring

theorem hashFrom_head (c : UInt8) (s : CStr) : hashFrom 0 (c :: s) = c.toNat * 33 ^ s.length + hashFrom 0 s := by
  rw [hashFrom_cons, hashFrom_eq, mul_zero, zero_add]

theorem signed_toNat : ∀ c : Fin 128, (UInt8.ofNat c).toInt8.toInt64.toUInt64.toNat = c := by decide

/-- A character of seven bits is added as it is. -/
theorem ascii_toNat {c : UInt8} (hc : c.toNat < 128) : c.toInt8.toInt64.toUInt64.toNat = c.toNat := by
  have hsigned := signed_toNat ⟨c.toNat, hc⟩
  rwa [UInt8.ofNat_toNat] at hsigned

theorem hashFrom_mod (a : ℕ) (s : CStr) : hashFrom (a % 2 ^ 64) s % 2 ^ 64 = hashFrom a s % 2 ^ 64 := by
  rw [hashFrom_eq, hashFrom_eq a, Nat.add_mod, Nat.mod_mul_mod, ← Nat.add_mod]

/-- **The hash code** is the number without its carry. -/
theorem hashKeyCode_toNat {s : CStr} (hs : ∀ c ∈ s, c.toNat < 128) : (hashKeyCode s).toNat = hashFrom 5381 s % 2 ^ 64 := by
  have hfold : ∀ (s : CStr) (a : UInt64), (∀ c ∈ s, c.toNat < 128) →
      (s.foldl (fun (hash : UInt64) c => (hash <<< 5) + hash + c.toInt8.toInt64.toUInt64) a).toNat = hashFrom a.toNat s % 2 ^ 64 := by
    intro s
    induction s with
    | nil => exact fun a _ => (Nat.mod_eq_of_lt a.toNat_lt).symm
    | cons c s ih =>
      intro a hs
      obtain ⟨hc, hs⟩ := List.forall_mem_cons.mp hs
      have hstep : ((a <<< 5) + a + c.toInt8.toInt64.toUInt64).toNat = (33 * a.toNat + c.toNat) % 2 ^ 64 := by
        rw [UInt64.toNat_add, UInt64.toNat_add, ascii_toNat hc, UInt64.toNat_shiftLeft, Nat.shiftLeft_eq]
        change ((a.toNat * 2 ^ 5 % 2 ^ 64 + a.toNat) % 2 ^ 64 + c.toNat) % 2 ^ 64 = _
        omega
      rw [List.foldl_cons, ih _ hs, hstep, hashFrom_mod, hashFrom_cons]
  exact hfold s 5381 hs

/-! ## Bounds -/

/-- The characters of a text are between two others. -/
def Between (lo hi : ℕ) (s : CStr) : Prop := ∀ c ∈ s, lo ≤ c.toNat ∧ c.toNat ≤ hi

theorem hashFrom_bounds {lo hi : ℕ} {s : CStr} (hs : Between lo hi s) :
    lo * 33 ^ s.length ≤ 32 * hashFrom 0 s + lo ∧ 32 * hashFrom 0 s + hi ≤ hi * 33 ^ s.length := by
  induction s with
  | nil =>
    have hzero : hashFrom 0 [] = 0 := rfl
    rw [List.length_nil, pow_zero, hzero]
    constructor <;> omega
  | cons c s ih =>
    obtain ⟨⟨hlo, hhi⟩, hs⟩ := List.forall_mem_cons.mp hs
    obtain ⟨ihlo, ihhi⟩ := ih hs
    rw [hashFrom_head, List.length_cons, pow_succ]
    have hlower := Nat.mul_le_mul_right (33 ^ s.length) hlo
    have hupper := Nat.mul_le_mul_right (33 ^ s.length) hhi
    constructor
    · linarith
    · linarith

/-- The front of a text, where the characters behind it are close to each other. -/
theorem front_eq {a b lo : ℕ} {s t : CStr} (hs : Between lo (lo + 12) s) (ht : Between lo (lo + 12) t)
    (hlen : s.length = t.length) (h : a * 33 ^ s.length + hashFrom 0 s = b * 33 ^ s.length + hashFrom 0 t) :
    a = b ∧ hashFrom 0 s = hashFrom 0 t := by
  have hsb := hashFrom_bounds hs
  have htb := hashFrom_bounds ht
  rw [← hlen] at htb
  have hpos : 0 < 33 ^ s.length := Nat.pow_pos (by norm_num)
  generalize 33 ^ s.length = x at hsb htb hpos h
  have hab : a = b := by
    rcases Nat.lt_trichotomy a b with hlt | heq | hlt
    · have hmul := Nat.mul_le_mul_right x (Nat.succ_le_of_lt hlt)
      rw [Nat.succ_mul] at hmul
      rw [Nat.add_mul] at hsb
      omega
    · exact heq
    · have hmul := Nat.mul_le_mul_right x (Nat.succ_le_of_lt hlt)
      rw [Nat.succ_mul] at hmul
      rw [Nat.add_mul] at htb
      omega
  subst hab
  exact ⟨rfl, by omega⟩

/-- **Texts of one length** whose characters are close to each other have different values. -/
theorem hashFrom_inj {lo : ℕ} {s t : CStr} (hs : Between lo (lo + 12) s) (ht : Between lo (lo + 12) t)
    (hlen : s.length = t.length) (h : hashFrom 0 s = hashFrom 0 t) : s = t := by
  induction s generalizing t with
  | nil => exact (List.length_eq_zero_iff.mp hlen.symm).symm
  | cons c s ih =>
    obtain ⟨d, t, rfl⟩ := List.exists_cons_of_length_eq_add_one hlen.symm
    have hlen' : s.length = t.length := Nat.succ_inj.mp hlen
    have hs' := (List.forall_mem_cons.mp hs).2
    have ht' := (List.forall_mem_cons.mp ht).2
    rw [hashFrom_head, hashFrom_head, ← hlen'] at h
    obtain ⟨hcd, hst⟩ := front_eq hs' ht' hlen' h
    rw [UInt8.toNat_inj.mp hcd, ih hs' ht' hlen' hst]

/-! ## Names -/

theorem decimalInt_between (z : ℤ) : Between 45 57 (decimalInt z) := by
  intro c hc
  rcases mem_decimalInt hc with hdigit | rfl
  · rw [isDigit, Bool.and_eq_true, decide_eq_true_iff, decide_eq_true_iff, UInt8.le_iff_toNat_le,
      UInt8.le_iff_toNat_le] at hdigit
    change 48 ≤ c.toNat ∧ c.toNat ≤ 57 at hdigit
    omega
  · decide

theorem decimalInt_inj {z w : ℤ} (h : decimalInt z = decimalInt w) : z = w := by
  have hz := scanInt_decimalInt z [] (fun c hc => by cases hc)
  have hw := scanInt_decimalInt w [] (fun c hc => by cases hc)
  rw [List.append_nil] at hz hw
  rw [h] at hz
  injection hz.symm.trans hw

theorem decimalInt_length {w : ℕ} (hw : 2 ≤ w) {z : ℤ} (h : FitsWidth w z) :
    1 ≤ (decimalInt z).length ∧ (decimalInt z).length ≤ w := by
  obtain ⟨hlo, hhi⟩ := h
  obtain ⟨c, t, hct, -⟩ := decimalInt_head z
  refine ⟨by rw [hct]; exact Nat.succ_pos _, ?_⟩
  rw [decimalInt]
  split_ifs with hz
  · have habs : z.natAbs < 10 ^ (w - 1) := by
      zify
      rw [abs_of_neg hz]
      omega
    have hlen := decimal_length_le (by omega) habs
    rw [List.length_cons]
    omega
  · have habs : z.natAbs < 10 ^ w := by
      zify
      rw [abs_of_nonneg (by omega)]
      exact hhi
    exact decimal_length_le (by omega) habs

/-- The name of a keyframe, behind the two letters that all of them begin with. -/
def nameTail (p n : ℤ) : CStr := decimalInt p ++ 95 :: decimalInt n

theorem nameTail_between (p n : ℤ) : Between 45 95 (nameTail p n) := by
  intro c hc
  rcases List.mem_append.mp hc with hp | hn
  · have hbetween := decimalInt_between p c hp
    omega
  · rcases List.mem_cons.mp hn with rfl | hn
    · decide
    · have hbetween := decimalInt_between n c hn
      omega

theorem nameTail_length {p n : ℤ} (hp : FitsWidth 2 p) (hn : FitsWidth 8 n) :
    3 ≤ (nameTail p n).length ∧ (nameTail p n).length ≤ 11 := by
  have hplen := decimalInt_length le_rfl hp
  have hnlen := decimalInt_length (by omega) hn
  rw [nameTail, List.length_append, List.length_cons]
  omega

/-- `FX` -/
def fxCode : ℕ := 5862307

theorem keyframeId_code (p n : ℤ) : (hashKeyCode (keyframeId p n)).toNat =
    (fxCode * 33 ^ (nameTail p n).length + hashFrom 0 (nameTail p n)) % 2 ^ 64 := by
  have hname : keyframeId p n = lit "FX" ++ nameTail p n := by
    rw [keyframeId, nameTail, List.append_assoc, List.append_assoc]
    rfl
  have hfront : hashFrom 5381 (lit "FX") = fxCode := by decide
  have hletters : ∀ c ∈ lit "FX", c.toNat < 128 := by
    have hall : (lit "FX").all (fun c => c.toNat < 128) = true := by decide
    simpa only [List.all_eq_true, decide_eq_true_eq] using hall
  rw [hname, hashKeyCode_toNat, hashFrom_append, hfront, hashFrom_eq]
  intro c hc
  rcases List.mem_append.mp hc with hletter | htail
  · exact hletters c hletter
  · have hbetween := nameTail_between p n c htail
    omega

/-- **The length of a name** is seen from its hash code. -/
theorem codes_apart {m m' v v' : ℕ} (hm : 3 ≤ m ∧ m ≤ 11) (hm' : 3 ≤ m' ∧ m' ≤ 11)
    (hv : 45 * 33 ^ m ≤ 32 * v + 45 ∧ 32 * v + 95 ≤ 95 * 33 ^ m)
    (hv' : 45 * 33 ^ m' ≤ 32 * v' + 45 ∧ 32 * v' + 95 ≤ 95 * 33 ^ m')
    (h : (fxCode * 33 ^ m + v) % 2 ^ 64 = (fxCode * 33 ^ m' + v') % 2 ^ 64) : m = m' ∧ v = v' := by
  obtain ⟨hlo, hhi⟩ := hm
  obtain ⟨hlo', hhi'⟩ := hm'
  rw [fxCode] at h
  interval_cases m <;> interval_cases m' <;> omega

theorem hashFrom_nameTail (p n : ℤ) : hashFrom 0 (nameTail p n) =
    (33 * hashFrom 0 (decimalInt p) + 95) * 33 ^ (decimalInt n).length + hashFrom 0 (decimalInt n) := by
  rw [nameTail, hashFrom_append, hashFrom_cons, hashFrom_eq]
  rfl

/-- Parameters of one character and of two do not give the same name: the `_` is in another place. -/
theorem nameTail_ne {p q n k : ℤ} (hp : (decimalInt p).length = 1) (hq : (decimalInt q).length = 2)
    (hlen : (decimalInt n).length = (decimalInt k).length + 1) :
    hashFrom 0 (nameTail p n) ≠ hashFrom 0 (nameTail q k) := by
  intro h
  obtain ⟨c, s, hn⟩ := List.exists_cons_of_length_eq_add_one hlen
  have hbetween := decimalInt_between n
  rw [hn] at hlen hbetween
  obtain ⟨⟨hlo, hhi⟩, hs⟩ := List.forall_mem_cons.mp hbetween
  have hlen' : s.length = (decimalInt k).length := Nat.succ_inj.mp hlen
  obtain ⟨x, hx⟩ := List.length_eq_one_iff.mp hp
  obtain ⟨y, z, hyz⟩ := List.length_eq_two.mp hq
  rw [hashFrom_nameTail, hashFrom_nameTail, hn, hx, hyz, List.length_cons, pow_succ, hashFrom_head c, ← hlen'] at h
  obtain ⟨hfront, -⟩ := @front_eq (33 * (33 * hashFrom 0 [x] + 95) + c.toNat) (33 * hashFrom 0 [y, z] + 95) 45 s
    (decimalInt k) hs (decimalInt_between k) hlen' (by rw [← h]; ring)
  simp only [hashFrom, List.foldl_cons, List.foldl_nil] at hfront
  omega

/-- **The value of a name** tells the parameter and the frame. -/
theorem nameTail_inj {p q n k : ℤ} (hp : FitsWidth 2 p) (hq : FitsWidth 2 q)
    (hlen : (nameTail p n).length = (nameTail q k).length)
    (h : hashFrom 0 (nameTail p n) = hashFrom 0 (nameTail q k)) : p = q ∧ n = k := by
  have hplen := decimalInt_length le_rfl hp
  have hqlen := decimalInt_length le_rfl hq
  rw [nameTail, nameTail, List.length_append, List.length_append, List.length_cons, List.length_cons] at hlen
  rcases Nat.lt_trichotomy (decimalInt p).length (decimalInt q).length with hlt | heq | hlt
  · exact absurd h (nameTail_ne (by omega) (by omega) (by omega))
  · have hnk : (decimalInt n).length = (decimalInt k).length := by omega
    rw [hashFrom_nameTail, hashFrom_nameTail, ← hnk] at h
    obtain ⟨hfront, hback⟩ := @front_eq _ _ 45 _ _ (decimalInt_between n) (decimalInt_between k) hnk h
    have hparameter := @hashFrom_inj 45 _ _ (decimalInt_between p) (decimalInt_between q) heq (by omega)
    have hframe := @hashFrom_inj 45 _ _ (decimalInt_between n) (decimalInt_between k) hnk hback
    exact ⟨decimalInt_inj hparameter, decimalInt_inj hframe⟩
  · exact absurd h.symm (nameTail_ne (by omega) (by omega) (by omega))

/-- **No two keyframes have one hash code.** -/
theorem keyframeId_inj {p q n k : ℤ} (hp : FitsWidth 2 p) (hq : FitsWidth 2 q) (hn : FitsWidth 8 n)
    (hk : FitsWidth 8 k) (h : hashKeyCode (keyframeId p n) = hashKeyCode (keyframeId q k)) : p = q ∧ n = k := by
  have hcode := congrArg UInt64.toNat h
  rw [keyframeId_code, keyframeId_code] at hcode
  obtain ⟨hlen, hvalue⟩ := codes_apart (nameTail_length hp hn) (nameTail_length hq hk)
    (hashFrom_bounds (nameTail_between p n)) (hashFrom_bounds (nameTail_between q k)) hcode
  exact nameTail_inj hp hq hlen hvalue

/-! ## The names in a port -/

section Ports

variable {f g : UInt64 → Option Int32}

end Ports

/-! ## Keyframes that are stored -/

/-- A parameter of two digits, and a frame of eight. -/
def FrameKey (p n : ℤ) : Prop := (0 ≤ p ∧ p ≤ 99) ∧ 0 ≤ n ∧ n ≤ 99999999

instance (p n : ℤ) : Decidable (FrameKey p n) := inferInstanceAs (Decidable (_ ∧ _))

/-- A keyframe, and what is stored for it. -/
structure Keyframe where
  parameter : ℤ
  frame : ℤ
  value : Int32

/-- The name of the keyframe. -/
def Keyframe.key (k : Keyframe) : CStr := keyframeId k.parameter k.frame

/-- The keyframes are stored, one after the other, as `keyframe_unpack` stores them. -/
def storeKeyframes (ks : List Keyframe) (port : Port) : Exec Port :=
  ks.foldlM (fun port k => do
    let (_, port) ← vevoPropertySet port (keyframeId k.parameter k.frame) .int [k.value]
    .ok port) port

/-- The last value under a name. -/
def lastStored (ks : List Keyframe) (key : CStr) : Option Int32 :=
  ks.foldl (fun last k => if k.key = key then some k.value else last) none

theorem FrameKey.fits {p n : ℤ} (h : FrameKey p n) : FitsWidth 2 p ∧ FitsWidth 8 n := by
  obtain ⟨⟨hp, hp'⟩, hn, hn'⟩ := h
  rw [FitsWidth, FitsWidth]
  omega

/-- **Different names have different hash codes.** -/
theorem FrameKey.code_eq_iff {p q n k : ℤ} (h : FrameKey p n) (h' : FrameKey q k) :
    hashKeyCode (keyframeId p n) = hashKeyCode (keyframeId q k) ↔ keyframeId p n = keyframeId q k := by
  refine ⟨fun hcode => ?_, congrArg hashKeyCode⟩
  obtain ⟨rfl, rfl⟩ := keyframeId_inj h.fits.1 h'.fits.1 h.fits.2 h'.fits.2 hcode
  rfl

section Stores

variable {port : Port} {f : UInt64 → Option Int32}

/-- What stores change in the map of a port. -/
theorem storeKeyframes_intPort (hport : IntPort port f) (ks : List Keyframe) :
    Ensures (storeKeyframes ks port) fun port' =>
      IntPort port' (ks.foldl (fun f k => Function.update f (hashKeyCode k.key) (some k.value)) f) := by
  induction ks generalizing port f with
  | nil => exact ⟨port, rfl, hport⟩
  | cons k ks ih =>
    obtain ⟨⟨r, port₁⟩, hset, hport₁⟩ := set_intPort hport k.key k.value
    rw [Keyframe.key] at hset
    obtain ⟨port', hstore, hport'⟩ := ih hport₁
    refine ⟨port', ?_, hport'⟩
    rw [storeKeyframes, List.foldlM_cons, hset, ok_bind, ok_bind]
    exact hstore

/-- A lookup sees the last store under its own name. -/
theorem stored_eq_lastStored {p n : ℤ} (h : FrameKey p n) {ks : List Keyframe}
    (hks : ∀ k ∈ ks, FrameKey k.parameter k.frame) :
    ks.foldl (fun f k => Function.update f (hashKeyCode k.key) (some k.value)) f (hashKeyCode (keyframeId p n)) =
      (lastStored ks (keyframeId p n)).or (f (hashKeyCode (keyframeId p n))) := by
  induction ks using List.reverseRecOn with
  | nil => rfl
  | append_singleton ks k ih =>
    have hk := hks k (List.mem_append_right _ (List.mem_singleton_self k))
    have hcode := h.code_eq_iff hk
    rw [lastStored, List.foldl_append, List.foldl_append]
    dsimp only [List.foldl_cons, List.foldl_nil]
    rw [Function.update_apply, Keyframe.key]
    by_cases hname : keyframeId p n = keyframeId k.parameter k.frame
    · rw [if_pos (hcode.mpr hname), if_pos hname.symm]
      rfl
    · rw [if_neg fun hh => hname (hcode.mp hh), if_neg (Ne.symm hname)]
      exact ih fun k' hk' => hks k' (List.mem_append_left _ hk')

end Stores

/-- **Keyframes never alias**: different names have different hash codes, and in the port of a chain, after any history
and any stores, a lookup gives the last value that was stored under its own name, or else what it gave before. -/
theorem keyframes_never_alias {p n : ℤ} (h : FrameKey p n) :
    (∀ q k, FrameKey q k → keyframeId q k ≠ keyframeId p n →
        hashKeyCode (keyframeId q k) ≠ hashKeyCode (keyframeId p n)) ∧
      ∀ (playmode : Playmode) (ops : List KfOp) (chain : EffectChain), runKf playmode ops (newChain playmode) = .ok chain →
        ∀ (c : Fin sampleMaxEffects) (port : Port), (chain c).kf = some port →
          ∀ ks : List Keyframe, (∀ k ∈ ks, FrameKey k.parameter k.frame) →
            Ensures (storeKeyframes ks port) fun port' =>
              getKeyframeValue (some port') n p =
                (lastStored ks (keyframeId p n)).elim (getKeyframeValue (some port) n p) fun v => .ok (some v.toInt) := by
  refine ⟨fun q k hq hname hcode => hname ((hq.code_eq_iff h).mp hcode), fun playmode ops chain hrun c port hkf ks hks => ?_⟩
  obtain ⟨f, hport⟩ := (runKf_regular (regular_newChain playmode) hrun).numbers c port hkf
  refine (storeKeyframes_intPort hport ks).mono fun port' hport' => ?_
  rw [getKeyframeValue, getKeyframeValue, getInt_eq hport', getInt_eq hport, stored_eq_lastStored h hks]
  cases lastStored ks (keyframeId p n) with
  | none => rfl
  | some v => rfl

/-- Two keyframes with names of one length, beside the one of a packet. -/
theorem oneFrame_never_alias :
    hashKeyCode (keyframeId 0 10) ≠ hashKeyCode (keyframeId 1 10) ∧
      ∃ chain port port', runKf .sample [.unpack (onePacket 0 0)] (newChain .sample) = .ok chain ∧
        (chain entry0).kf = some port ∧ storeKeyframes [⟨0, 10, 7⟩, ⟨0, 11, 8⟩] port = .ok port' ∧
        getKeyframeValue (some port') 10 0 = .ok (some 7) := by
  have hkey : FrameKey 0 10 := by decide
  obtain ⟨hcodes, hstores⟩ := keyframes_never_alias hkey
  refine ⟨(hcodes 1 10 (by decide) (by decide)).symm, ?_⟩
  have hport : ((runKf .sample [.unpack (onePacket 0 0)] (newChain .sample)).toOption.map fun chain =>
      (chain entry0).kf.isSome) = some true := by decide
  obtain ⟨chain, hchain, hsome⟩ := Option.map_eq_some_iff.mp hport
  obtain ⟨port, hkf⟩ := Option.isSome_iff_exists.mp hsome
  have hrun := ok_of_toOption hchain
  obtain ⟨port', hstore, hvalue⟩ := hstores .sample _ chain hrun entry0 port hkf [⟨0, 10, 7⟩, ⟨0, 11, 8⟩]
    (List.forall_mem_cons.mpr ⟨by decide, List.forall_mem_singleton.mpr (by decide)⟩)
  have hlast : lastStored [⟨0, 10, 7⟩, ⟨0, 11, 8⟩] (keyframeId 0 10) = some 7 := by decide
  rw [hlast] at hvalue
  exact ⟨chain, port, port', hrun, hkf, hstore, hvalue⟩

/-! ## What is removed -/

section Clear

variable {playmode : Playmode} {chain : EffectChain} {ops : List KfOp} {p : ℤ}

end Clear

end Veejay.Keyframes
