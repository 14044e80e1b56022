import Veejay.Keyframes.Animation

/-!
# Keyframe packets of any content

`sample_chain_set_kfs` is given a packet and its length, and passes both on to `keyframe_unpack`, which does not look at
the length: it reads as many values as the range in the packet says, into the entry that the packet names
(`libsample/sampleadm.c`, `veejay/vjkf.c`).

* `readHeader`, `unpackPacket`, `sampleChainSetKfs` — the functions, reading the packet byte by byte;
* `Stored`, `SetsKfs` — what a packet is to do;
* `unpackLoop_inside`, `unpackLoop_bytes` — the loop reads all its bytes, and stores them;
* `setsKfs_iff` — **which packets are read inside their length.**
-/

namespace Veejay.Keyframes

open CLib Vevo Veejay.Samples

/-! ## The functions -/

/-- The bytes of a format that stand for themselves, compared one by one; what is behind them. -/
def matchBytes : CStr → List UInt8 → Exec (Option (List UInt8))
  | [], m => .ok (some m)
  | _ :: _, [] => .error .outOfBounds
  | b :: bytes, c :: m => if c = b then matchBytes bytes m else .ok none

/-- `sscanf (in, "key%2d%2d%8d%8d%2d", …)`; none where not all five numbers are read. -/
def readHeader (packet : List UInt8) : Exec (Option (List ℤ)) := do
  match ← matchBytes (lit "key") packet with
  | none => .ok none
  | some m => readFields [2, 2, 8, 8, 2] m

/-- The number of values that the range asks for. -/
def frames (start end_ : ℤ) : ℕ := (end_ - start + 1).toNat

/-- `keyframe_unpack`, for a sample: none for a packet that is rejected. -/
def unpackPacket (packet : List UInt8) (chain : EffectChain) : Exec (Option EffectChain) := do
  match ← readHeader packet with
  | some [fxEntry, parameterId, start, end_, type] => do
    -- `sample_get_kf_port`, and `sample_chain_alloc_kf` where there is no port
    let c ← slot fxEntry
    let port := (chain c).kf.getD (vevoPortNew (-1))
    let port ← unpackLoop packet parameterId (frames start end_) start valuesAt port
    let port ← setRange port parameterId start end_ type
    .ok (some (Function.update chain c { chain c with kf := some port }))
  | _ => .ok none

/-- `sample_chain_set_kfs`: what it returns, and the chain of the sample. -/
def sampleChainSetKfs (sample : Option EffectChain) (packet : List UInt8) : Exec (ℤ × Option EffectChain) :=
  match sample with
  | none => .ok (-1, none)
  | some chain =>
    if packet.length = 0 then .ok (0, some chain)
    else do
      match ← unpackPacket packet chain with
      | none => .ok (-1, some chain)
      | some chain => .ok (1, some chain)

/-! ## What a packet is to do -/

/-- The number that the bytes of a value are. -/
def valueAt (packet : List UInt8) (j : ℕ) : Int32 :=
  let byte := fun k => packet.getD (valuesAt + 4 * j + k) 0
  Int32.ofInt (bytesInt (byte 0) (byte 1) (byte 2) (byte 3))

/-- How many of the first `n` values are inside the packet. -/
def valuesInside (packet : List UInt8) (n : ℕ) : ℕ := min n ((packet.length - valuesAt) / 4)

/-- **The keyframes of a packet are stored**: in the entry that it names, those whose four bytes are inside the packet,
one after the other, and the range and the type. -/
def Stored (packet : List UInt8) (chain chain' : EffectChain) : Prop :=
  ∃ fxEntry parameterId start end_ type c port f g,
    readHeader packet = .ok (some [fxEntry, parameterId, start, end_, type]) ∧ slot fxEntry = .ok c ∧
    IntPort ((chain c).kf.getD (vevoPortNew (-1))) f ∧
    Written parameterId (valuesInside packet (frames start end_)) start (valueAt packet) f g ∧
    IntPort port (withRange g parameterId (Int32.ofInt start) (Int32.ofInt end_) (Int32.ofInt type)) ∧
    chain' = Function.update chain c { chain c with kf := some port }

/-- **A packet is read inside its length**, and is rejected, or its keyframes are stored. -/
def SetsKfs (packet : List UInt8) (sample : Option EffectChain) : Prop :=
  Ensures (sampleChainSetKfs sample packet) fun a =>
    a.1 ≠ 1 ∧ a.2 = sample ∨
      a.1 = 1 ∧ ∃ chain chain', sample = some chain ∧ a.2 = some chain' ∧ Stored packet chain chain'

/-- The packet is empty, or its header ends inside it and names an entry, and so do the values that its range asks
for. -/
def Inside (packet : List UInt8) : Prop :=
  packet = [] ∨ ∃ fields, readHeader packet = .ok fields ∧ ∀ fxEntry parameterId start end_ type,
    fields = some [fxEntry, parameterId, start, end_, type] →
      (0 ≤ fxEntry ∧ fxEntry < sampleMaxEffects) ∧
      (start ≤ end_ → valuesAt + 4 * (end_ - start + 1) ≤ packet.length)

/-! ## The header -/

theorem matchBytes_eq {bytes m rest : List UInt8} (h : matchBytes bytes m = .ok (some rest)) : m = bytes ++ rest := by
  induction bytes generalizing m with
  | nil =>
    obtain rfl := Option.some.inj (Except.ok.inj h)
    rfl
  | cons b bytes ih =>
    cases m with
    | nil => cases h
    | cons c m =>
      rw [matchBytes] at h
      by_cases hc : c = b
      · rw [if_pos hc] at h
        rw [hc, ih h]
        rfl
      · rw [if_neg hc] at h
        cases h

theorem matchBytes_append (bytes rest : List UInt8) : matchBytes bytes (bytes ++ rest) = .ok (some rest) := by
  induction bytes with
  | nil => rfl
  | cons b bytes ih => rw [List.cons_append, matchBytes, if_pos rfl, ih]

theorem matchBytes_none {bytes m : List UInt8} (h : matchBytes bytes m = .ok none) : m.take bytes.length ≠ bytes := by
  induction bytes generalizing m with
  | nil => cases h
  | cons b bytes ih =>
    cases m with
    | nil => cases h
    | cons c m =>
      rw [matchBytes] at h
      rw [List.length_cons, List.take_succ_cons]
      intro heq
      obtain ⟨rfl, hrest⟩ := List.cons.inj heq
      rw [if_pos rfl] at h
      exact ih h hrest

section Packet

variable {packet : List UInt8}

/-- A header is rejected, or five numbers were read. -/
theorem readHeader_cases {fields : Option (List ℤ)} (h : readHeader packet = .ok fields) :
    fields = none ∧ (packet.take 3 ≠ lit "key" ∨
        packet.take 3 = lit "key" ∧ readFields [2, 2, 8, 8, 2] (packet.drop 3) = .ok none) ∨
      ∃ fxEntry parameterId start end_ type, fields = some [fxEntry, parameterId, start, end_, type] ∧
        packet.take 3 = lit "key" ∧
        readFields [2, 2, 8, 8, 2] (packet.drop 3) = .ok (some [fxEntry, parameterId, start, end_, type]) := by
  rw [readHeader] at h
  obtain ⟨x, hmatch, hread⟩ := bind_eq_ok.mp h
  cases x with
  | none =>
    obtain rfl := Except.ok.inj hread
    exact .inl ⟨rfl, .inl (matchBytes_none hmatch)⟩
  | some m =>
    obtain rfl := matchBytes_eq hmatch
    have hdrop : (lit "key" ++ m).drop 3 = m := rfl
    have htake : (lit "key" ++ m).take 3 = lit "key" := rfl
    dsimp only at hread
    rw [hdrop, htake]
    cases fields with
    | none => exact .inl ⟨rfl, .inr ⟨rfl, hread⟩⟩
    | some fields =>
      have hlen : fields.length = 5 := (readFields_lt hread).length_eq.symm
      obtain ⟨a, fields, rfl⟩ := List.exists_cons_of_length_eq_add_one hlen
      obtain ⟨b, fields, rfl⟩ := List.exists_cons_of_length_eq_add_one (Nat.succ.inj hlen)
      obtain ⟨d, e, t, rfl⟩ := List.length_eq_three.mp (Nat.succ.inj (Nat.succ.inj hlen))
      exact .inr ⟨a, b, d, e, t, rfl, rfl, hread⟩

/-! ## The values -/

/-- The bytes of a number that was put together of bytes. -/
theorem intBytes_bytesInt (b₀ b₁ b₂ b₃ : UInt8) : intBytes (bytesInt b₀ b₁ b₂ b₃) = [b₀, b₁, b₂, b₃] := by
  have h₀ := b₀.toNat_lt
  have h₁ := b₁.toNat_lt
  have h₂ := b₂.toNat_lt
  have h₃ := b₃.toNat_lt
  have hbyte : ∀ (b : UInt8) {z : ℤ}, z = b.toNat → UInt8.ofNat z.toNat = b := by
    intro b z hz
    rw [hz, Int.toNat_natCast, UInt8.ofNat_toNat]
  have hemod : bytesInt b₀ b₁ b₂ b₃ % 2 ^ 32 =
      ((b₀.toNat + 2 ^ 8 * b₁.toNat + 2 ^ 16 * b₂.toNat + 2 ^ 24 * b₃.toNat : ℕ) : ℤ) % 2 ^ 32 :=
    Int.bmod_emod
  push_cast at hemod
  rw [intBytes, hbyte b₀ (by omega), hbyte b₁ (by omega), hbyte b₂ (by omega), hbyte b₃ (by omega)]

theorem inInt_bytesInt (b₀ b₁ b₂ b₃ : UInt8) : InInt (bytesInt b₀ b₁ b₂ b₃) :=
  ⟨Int.le_bmod (by norm_num), Int.bmod_lt (by norm_num)⟩

/-- Four bytes of a list. -/
theorem drop_take_four {l : List UInt8} {a : ℕ} (h : a + 4 ≤ l.length) :
    (l.drop a).take 4 = [l.getD (a + 0) 0, l.getD (a + 1) 0, l.getD (a + 2) 0, l.getD (a + 3) 0] := by
  refine List.ext_getElem ?_ fun i h₁ h₂ => ?_
  · rw [List.length_take, List.length_drop]
    exact Nat.min_eq_left (by omega)
  · have hi : i < 4 := h₂
    rw [List.getElem_take, List.getElem_drop]
    have hget : l.getD (a + i) 0 = l[a + i] := List.getD_eq_getElem _ _ (by omega)
    interval_cases i <;> exact hget.symm

/-- The loop reads all bytes of its values. -/
theorem unpackLoop_inside {parameterId : ℤ} : ∀ {n : ℕ} {i : ℤ} {ptr : ℕ} {port port' : Port},
    unpackLoop packet parameterId n i ptr port = .ok port' → n = 0 ∨ ptr + 4 * n ≤ packet.length := by
  intro n
  induction n with
  | zero => exact fun _ => .inl rfl
  | succ n ih =>
    intro i ptr port port' h
    rw [unpackLoop] at h
    obtain ⟨b₀, -, h⟩ := bind_eq_ok.mp h
    obtain ⟨b₁, -, h⟩ := bind_eq_ok.mp h
    obtain ⟨b₂, -, h⟩ := bind_eq_ok.mp h
    obtain ⟨b₃, hlast, h⟩ := bind_eq_ok.mp h
    obtain ⟨a, -, h⟩ := bind_eq_ok.mp h
    rcases byteAt_cases packet ((ptr : ℤ) + 3) with ⟨c, -, -, hlt⟩ | ⟨herr, -⟩
    · rcases ih h with rfl | hle
      · omega
      · omega
    · rw [herr] at hlast
      cases hlast

/-- A value inside the packet. -/
theorem hasAt_valueAt {j : ℕ} (h : valuesAt + 4 * j + 4 ≤ packet.length) :
    HasAt packet (valuesAt + 4 * j) (intBytes (valueAt packet j).toInt) := by
  rw [valueAt, toInt_ofInt (inInt_bytesInt _ _ _ _), intBytes_bytesInt]
  exact ⟨h, drop_take_four h⟩

/-! ## Packets -/

variable {chain : EffectChain}

/-- A packet whose header is rejected. -/
theorem unpackPacket_rejected (h : readHeader packet = .ok none) : unpackPacket packet chain = .ok none := by
  rw [unpackPacket, h, ok_bind]

/-- A packet that is not read behind its end. -/
theorem unpackPacket_inside {fxEntry parameterId start end_ type : ℤ} {r : Option EffectChain}
    (hfields : readHeader packet = .ok (some [fxEntry, parameterId, start, end_, type]))
    (h : unpackPacket packet chain = .ok r) :
    (0 ≤ fxEntry ∧ fxEntry < sampleMaxEffects) ∧
      (start ≤ end_ → valuesAt + 4 * (end_ - start + 1) ≤ packet.length) := by
  rw [unpackPacket, hfields, ok_bind] at h
  dsimp only at h
  obtain ⟨c, hc, h⟩ := bind_eq_ok.mp h
  obtain ⟨port, hloop, -⟩ := bind_eq_ok.mp h
  constructor
  · by_contra hnot
    rw [slot, dif_neg hnot] at hc
    cases hc
  · intro hle
    rcases unpackLoop_inside hloop with hzero | hin
    · rw [frames] at hzero
      omega
    · rw [frames] at hin
      omega

/-- **A packet whose values are inside it** is stored. -/
theorem unpackPacket_stored (hchain : Regular .sample chain) {fxEntry parameterId start end_ type : ℤ}
    (hfields : readHeader packet = .ok (some [fxEntry, parameterId, start, end_, type]))
    (hentry : 0 ≤ fxEntry ∧ fxEntry < sampleMaxEffects)
    (hlen : start ≤ end_ → valuesAt + 4 * (end_ - start + 1) ≤ packet.length) :
    ∃ chain', unpackPacket packet chain = .ok (some chain') ∧ Stored packet chain chain' := by
  have hc : slot fxEntry = .ok ⟨fxEntry.toNat, by omega⟩ := dif_pos hentry
  have hport : ∃ f, IntPort ((chain ⟨fxEntry.toNat, by omega⟩).kf.getD (vevoPortNew (-1))) f := by
    have h := intPort_invariant.portOf (regular_iff.mp hchain) fxEntry
    rwa [portOf, hc] at h
  obtain ⟨f, hf⟩ := hport
  have hinside : valuesInside packet (frames start end_) = frames start end_ := by
    rw [valuesInside, frames]
    omega
  obtain ⟨port, hloop, g, hg, hwritten⟩ := unpackLoop_spec parameterId (frames start end_) start valuesAt
    (valueAt packet) hf fun j hj => hasAt_valueAt (by rw [frames] at hj; omega)
  obtain ⟨port', hrange, hport'⟩ := setRange_intPort hg parameterId start end_ type
  refine ⟨_, ?_, fxEntry, parameterId, start, end_, type, _, port', f, g, hfields, hc, hf, ?_, hport', rfl⟩
  · rw [unpackPacket, hfields, ok_bind]
    dsimp only
    rw [hc, ok_bind, hloop, ok_bind, hrange, ok_bind]
  · rw [hinside]
    exact hwritten

/-- **Keyframe packets.**  A packet is read inside its length, and either rejected or stored with all of its keyframes,
exactly if there is no sample, or the packet is empty, or its header ends inside it and names an entry of the chain, and
the values that its range asks for are inside it. -/
theorem setsKfs_iff {sample : Option EffectChain} (hsample : ∀ chain ∈ sample, Regular .sample chain) :
    SetsKfs packet sample ↔ sample = none ∨ Inside packet := by
  cases sample with
  | none => exact iff_of_true ⟨_, rfl, .inl ⟨by decide, rfl⟩⟩ (.inl rfl)
  | some chain =>
    rw [or_iff_right (Option.some_ne_none chain), SetsKfs, sampleChainSetKfs, Inside]
    by_cases hempty : packet = []
    · rw [hempty]
      exact iff_of_true ⟨_, rfl, .inl ⟨zero_ne_one, rfl⟩⟩ (.inl rfl)
    · have hlength : packet.length ≠ 0 := fun h => hempty (List.eq_nil_of_length_eq_zero h)
      rw [if_neg hlength, or_iff_right hempty]
      constructor
      · rintro ⟨a, hrun, -⟩
        obtain ⟨r, hr, -⟩ := bind_eq_ok.mp hrun
        have hrun' := hr
        rw [unpackPacket] at hrun'
        obtain ⟨fields, hfields, -⟩ := bind_eq_ok.mp hrun'
        refine ⟨fields, hfields, fun fxEntry parameterId start end_ type heq => ?_⟩
        rw [heq] at hfields
        exact unpackPacket_inside hfields hr
      · rintro ⟨fields, hfields, hin⟩
        rcases readHeader_cases hfields with ⟨rfl, -⟩ | ⟨fxEntry, parameterId, start, end_, type, rfl, -, -⟩
        · rw [unpackPacket_rejected hfields, ok_bind, ensures_ok]
          exact .inl ⟨show (-1 : ℤ) ≠ 1 by decide, rfl⟩
        · obtain ⟨hentry, hlen⟩ := hin _ _ _ _ _ rfl
          obtain ⟨chain', hrun, hstored⟩ := unpackPacket_stored (hsample chain rfl) hfields hentry hlen
          rw [hrun, ok_bind, ensures_ok]
          exact .inr ⟨rfl, chain, chain', rfl, rfl, hstored⟩

end Packet

/-- A packet that ends behind its header, with a range of ten frames. -/
def shortPacket : List UInt8 := (header 0 0 0 9 1).take valuesAt

/-- A new sample is given that packet. -/
theorem setsKfs_newChain :
    SetsKfs shortPacket (some (newChain .sample)) ↔ some (newChain .sample) = none ∨ Inside shortPacket :=
  setsKfs_iff fun chain hchain => by
    obtain rfl := Option.some.inj hchain
    exact regular_newChain .sample

theorem readHeader_shortPacket : readHeader shortPacket = .ok (some [0, 0, 0, 9, 1]) := by
  have hread := @readFields_header_fits 0 0 0 9 1 [] (by constructor <;> decide) (by constructor <;> decide)
    (by constructor <;> decide) (by constructor <;> decide) (by constructor <;> decide)
  have hsplit : shortPacket = lit "key" ++ headerFields 0 0 0 9 1 := rfl
  rw [List.append_nil] at hread
  rw [readHeader, hsplit, matchBytes_append, ok_bind]
  exact hread

/-- **A packet without its values** is read behind its end. -/
theorem not_setsKfs_short : ¬ ∀ (packet : List UInt8) (sample : Option EffectChain),
    (∀ chain ∈ sample, Regular .sample chain) → SetsKfs packet sample := by
  intro h
  have hregular : ∀ chain ∈ some (newChain .sample), Regular .sample chain := by
    intro chain hchain
    obtain rfl := Option.some.inj hchain
    exact regular_newChain .sample
  obtain ⟨a, hrun, -⟩ := h shortPacket (some (newChain .sample)) hregular
  have hlen : shortPacket.length ≤ valuesAt := List.length_take_le _ _
  rw [sampleChainSetKfs] at hrun
  by_cases hzero : shortPacket.length = 0
  · have hread := readHeader_shortPacket
    rw [List.eq_nil_of_length_eq_zero hzero] at hread
    cases hread
  · rw [if_neg hzero] at hrun
    obtain ⟨r, hr, -⟩ := bind_eq_ok.mp hrun
    have hin := (unpackPacket_inside readHeader_shortPacket hr).2 (by decide)
    omega

end Veejay.Keyframes
