import Veejay.CLib.Memory
import Veejay.CLib.Word
import Veejay.Vevo.FiniteMap

/-!
# Keyframe packets

The keyframes of one parameter of an effect are properties of a vevo port: a value for each frame, and the range
and the type of the curve.  `keyframe_pack` writes them into a packet, `keyframe_unpack` reads a packet into a port
(`veejay/vjkf.c`).

* `keyframePack`, `keyframeUnpack` — the two functions;
* `IntPort` — a port of numbers, as the map of its hash codes;
* `readField_padded` — a printed number reads back exactly if it fits its field;
* `packLoop_spec`, `unpackLoop_spec` — what the loops leave behind;
* `keyframes_restored_iff` — **the round trip**: the packet ends in front of the last frame of the range.
-/

namespace Veejay.Keyframes

open CLib Vevo

/-! ## The functions -/

/-- `keyframe_id` -/
def keyframeId (pId nFrame : ℤ) : CStr := lit "FX" ++ decimalInt pId ++ lit "_" ++ decimalInt nFrame

/-- `extract_` -/
def extract (key : String) (pId : ℤ) : CStr := lit key ++ lit "_p" ++ decimalInt pId

/-- `vevo_property_get (port, key, 0, &value)`, for an `int` that is zero before. -/
def getInt (port : Port) (key : CStr) : Exec (Option ℤ) := do
  match ← vevoPropertyGet port key 0 true with
  | (.noError, some ⟨.int, v⟩) => .ok (some v.toInt)
  | (.noError, some ⟨.bool, v⟩) => .ok (some v.toInt)
  | (.noError, some _) => .error .overrun
  | (.noError, none) => .ok (some 0)
  | _ => .ok none

/-- `%0<w>d` -/
def padded (w : ℕ) (z : ℤ) : CStr :=
  if z < 0 then 45 :: zeroPadded (w - 1) z.natAbs else zeroPadded w z.natAbs

/-- The text in front of the values. -/
def header (entryId parameterId start end_ type : ℤ) : CStr :=
  lit "key" ++ (padded 2 entryId ++ (padded 2 parameterId ++ (padded 8 start ++ (padded 8 end_ ++ padded 2 type))))

/-- The four bytes of a value. -/
def intBytes (v : ℤ) : List UInt8 :=
  [UInt8.ofNat (v % 256).toNat, UInt8.ofNat (v / 2 ^ 8 % 256).toNat, UInt8.ofNat (v / 2 ^ 16 % 256).toNat,
    UInt8.ofNat (v / 2 ^ 24 % 256).toNat]

/-- `ptr[0] | (ptr[1] << 8) | (ptr[2] << 16) | (ptr[3] << 24)` -/
def bytesInt (b₀ b₁ b₂ b₃ : UInt8) : ℤ :=
  ((b₀.toNat + 2 ^ 8 * b₁.toNat + 2 ^ 16 * b₂.toNat + 2 ^ 24 * b₃.toNat : ℕ) : ℤ).bmod (2 ^ 32)

/-- A value of type `int`. -/
def InInt (z : ℤ) : Prop := -2 ^ 31 ≤ z ∧ z < 2 ^ 31

instance (z : ℤ) : Decidable (InInt z) := inferInstanceAs (Decidable (_ ∧ _))

/-- The offset of the values in a packet. -/
def valuesAt : ℕ := 25

/-- One round of the loop of `keyframe_pack`, for frame `i`; a frame without a value is skipped. -/
def packFrame (port : Port) (parameterId i : ℤ) (k : ℕ) (result : List UInt8) : Exec (List UInt8) := do
  match ← getInt port (keyframeId parameterId i) with
  | some value => overwrite result (valuesAt + 4 * k) (intBytes value)
  | none => .ok result

/-- The loop of `keyframe_pack` from frame `i` on. -/
def packLoop (port : Port) (parameterId : ℤ) : ℕ → ℤ → ℕ → List UInt8 → Exec (List UInt8 × ℕ)
  | 0, _, k, result => .ok (result, k)
  | n + 1, i, k, result => do
    let result ← packFrame port parameterId i k result
    packLoop port parameterId n (i + 1) (k + 1) result

/-- `keyframe_pack`: the packet, in the object that holds it, and `rlen`. -/
def keyframePack (port : Port) (parameterId entryId : ℤ) : Exec (Option (List UInt8 × ℕ)) := do
  match ← getInt port (extract "start" parameterId) with
  | none => .ok none
  | some start =>
    match ← getInt port (extract "end" parameterId) with
    | none => .ok none
    | some end_ =>
      match ← getInt port (extract "type" parameterId) with
      | none => .ok none
      | some type =>
        let len := end_ - start
        if ¬ (InInt len ∧ InInt (len * 4) ∧ InInt (len * 4 + 64)) then .error .overflow
        -- `vj_calloc` of a negative size returns `NULL`
        else if len * 4 + 64 < 0 then .error .nullPointer
        else do
          let result := List.replicate (len * 4 + 64).toNat 0
          let result ← overwrite result 0 (header entryId parameterId start end_ type ++ [0])
          let (result, k) ← packLoop port parameterId len.toNat start 0 result
          .ok (some (result, valuesAt + 4 * k))

/-- The loop of `keyframe_unpack` from frame `i` on. -/
def unpackLoop (packet : List UInt8) (parameterId : ℤ) : ℕ → ℤ → ℕ → Port → Exec Port
  | 0, _, _, port => .ok port
  | n + 1, i, ptr, port => do
    let b₀ ← byteAt packet ptr
    let b₁ ← byteAt packet (ptr + 1)
    let b₂ ← byteAt packet (ptr + 2)
    let b₃ ← byteAt packet (ptr + 3)
    let (_, port) ← vevoPropertySet port (keyframeId parameterId i) .int [Int32.ofInt (bytesInt b₀ b₁ b₂ b₃)]
    unpackLoop packet parameterId n (i + 1) (ptr + 4) port

/-- The end of `keyframe_unpack`: the range and the type. -/
def setRange (port : Port) (parameterId start end_ type : ℤ) : Exec Port := do
  let (_, port) ← vevoPropertySet port (extract "start" parameterId) .int [Int32.ofInt start]
  let (_, port) ← vevoPropertySet port (extract "end" parameterId) .int [Int32.ofInt end_]
  let (_, port) ← vevoPropertySet port (extract "type" parameterId) .int [Int32.ofInt type]
  .ok port

/-- `keyframe_unpack`: the entry and its port; `kfPort` gives the port of an entry. -/
def keyframeUnpack (packet : List UInt8) (kfPort : ℤ → Port) : Exec (Option (ℤ × Port)) := do
  if packet.take 3 ≠ lit "key" then .ok none
  else
    match ← readFields [2, 2, 8, 8, 2] (packet.drop 3) with
    | some [fxEntry, parameterId, start, end_, type] => do
      -- `for (i = start; i <= end; i++)`
      let port ← unpackLoop packet parameterId (end_ - start + 1).toNat start valuesAt (kfPort fxEntry)
      let port ← setRange port parameterId start end_ type
      .ok (some (fxEntry, port))
    | _ => .ok none

/-! ## Ports of numbers -/

/-- A port whose properties are numbers. -/
def IntPort (p : Port) (f : UInt64 → Option Int32) : Prop :=
  IsMap p fun h => (f h).map fun v => storagePutAtomValue .int [v]

theorem intPort_new : IntPort (vevoPortNew (-1)) fun _ => none where
  wf := wf_vevoPortNew _
  list_backed := rfl
  stored_eq h := stored_vevoPortNew _ h

theorem getInt_eq {p : Port} {f : UInt64 → Option Int32} (hp : IntPort p f) (key : CStr) :
    getInt p key = .ok ((f (hashKeyCode key)).map Int32.toInt) := by
  rw [getInt, vevoPropertyGet_of_isMap hp, ok_bind]
  cases f (hashKeyCode key) with
  | none => rfl
  | some v => rfl

theorem set_intPort {p : Port} {f : UInt64 → Option Int32} (hp : IntPort p f) (key : CStr) (v : Int32) :
    Ensures (vevoPropertySet p key .int [v]) fun a =>
      IntPort a.2 (Function.update f (hashKeyCode key) (some v)) := by
  have hset := applyStore_isMap hp (.set key .int [v])
  refine hset.mono fun a ha => ?_
  have hmap : (fun h => (Function.update f (hashKeyCode key) (some v) h).map fun v => storagePutAtomValue .int [v])
      = noteOp hashKeyCode (fun h => (f h).map fun v => storagePutAtomValue .int [v]) (.set key .int [v]) := by
    funext h
    rw [noteOp, Function.update_apply, Function.update_apply]
    by_cases hh : h = hashKeyCode key
    · rw [if_pos hh]
      exact (if_pos hh).symm
    · rw [if_neg hh]
      exact (if_neg hh).symm
  rw [IntPort, hmap]
  exact ha

/-! ## Numbers -/

theorem intBytes_length (v : ℤ) : (intBytes v).length = 4 := rfl

theorem intBytes_zero : intBytes 0 = List.replicate 4 0 := by
  simp [intBytes]

theorem byte_toNat (z : ℤ) : ((UInt8.ofNat (z % 256).toNat).toNat : ℤ) = z % 256 := by
  rw [UInt8.toNat_ofNat', Nat.mod_eq_of_lt (by omega)]
  omega

/-- The four bytes of a number are its digits to the base 256. -/
theorem bytes_sum (v : ℤ) :
    v % 256 + 2 ^ 8 * (v / 2 ^ 8 % 256) + 2 ^ 16 * (v / 2 ^ 16 % 256) + 2 ^ 24 * (v / 2 ^ 24 % 256) = v % 2 ^ 32 := by
  omega

theorem bmod_of_inInt {v : ℤ} (h : InInt v) : (v % (2 ^ 32 : ℤ)).bmod (2 ^ 32) = v := by
  obtain ⟨hlo, hhi⟩ := h
  have hbmod : (v % (2 ^ 32 : ℤ)).bmod (2 ^ 32) = v.bmod (2 ^ 32) := Int.emod_bmod v (2 ^ 32)
  rw [hbmod]
  exact Int.bmod_eq_of_le (by omega) (by omega)

/-- A value reads back from its bytes. -/
theorem bytesInt_intBytes {v : ℤ} (h : InInt v) {b₀ b₁ b₂ b₃ : UInt8} (hb : intBytes v = [b₀, b₁, b₂, b₃]) :
    bytesInt b₀ b₁ b₂ b₃ = v := by
  rw [intBytes] at hb
  simp only [List.cons.injEq, and_true] at hb
  obtain ⟨h₀, h₁, h₂, h₃⟩ := hb
  have hsum : ((b₀.toNat + 2 ^ 8 * b₁.toNat + 2 ^ 16 * b₂.toNat + 2 ^ 24 * b₃.toNat : ℕ) : ℤ) = v % 2 ^ 32 := by
    rw [← h₀, ← h₁, ← h₂, ← h₃]
    push_cast
    rw [byte_toNat, byte_toNat, byte_toNat, byte_toNat]
    exact bytes_sum v
  calc bytesInt b₀ b₁ b₂ b₃ = (v % 2 ^ 32 : ℤ).bmod (2 ^ 32) := congrArg (fun z => Int.bmod z (2 ^ 32)) hsum
    _ = v := bmod_of_inInt h

/-- Whether a number fits a field of the header. -/
def FitsWidth (w : ℕ) (z : ℤ) : Prop := -10 ^ (w - 1) < z ∧ z < 10 ^ w

theorem le_padded_length {w : ℕ} (hw : 1 ≤ w) (z : ℤ) : w ≤ (padded w z).length := by
  rw [padded]
  split_ifs
  · have hlen := le_zeroPadded_length (w - 1) z.natAbs
    rw [List.length_cons]
    omega
  · exact le_zeroPadded_length w z.natAbs

/-- A number that fits its field has exactly its width. -/
theorem padded_length {w : ℕ} (hw : 2 ≤ w) {z : ℤ} (h : FitsWidth w z) : (padded w z).length = w := by
  obtain ⟨hlo, hhi⟩ := h
  rw [padded]
  split_ifs with hz
  · have habs : z.natAbs < 10 ^ (w - 1) := by
      zify
      rw [abs_of_neg hz]
      omega
    rw [List.length_cons, zeroPadded_length (by omega) habs]
    omega
  · have habs : z.natAbs < 10 ^ w := by
      zify
      rw [abs_of_nonneg (by omega)]
      exact hhi
    exact zeroPadded_length (by omega) habs

/-- **One field of the header.**  The bytes of a printed number that are in its field read as the number exactly
if it fits. -/
theorem readField_padded {w : ℕ} (hw : 2 ≤ w) (z : ℤ) (rest : List UInt8) :
    ∃ v, readField w ((padded w z).take w ++ rest) = .ok (.val v rest) ∧ (v = z ↔ FitsWidth w z) := by
  rw [padded, FitsWidth]
  split_ifs with hz
  · -- the sign takes one byte of the field
    obtain ⟨k, rfl⟩ : ∃ k, w = k + 1 := ⟨w - 1, by omega⟩
    have hdigits : ∀ c ∈ (zeroPadded k z.natAbs).take k, isDigit c = true := fun c hc =>
      isDigit_of_mem_zeroPadded (List.mem_of_mem_take hc)
    have hlen : ((zeroPadded k z.natAbs).take k).length = k :=
      List.length_take_of_le (le_zeroPadded_length k z.natAbs)
    refine ⟨-(digitsValue ((zeroPadded k z.natAbs).take k) : ℤ), ?_, ?_⟩
    · rw [Nat.add_sub_cancel, List.take_succ_cons, List.cons_append, readField, skipSpace, if_neg (by decide), ok_bind]
      dsimp only
      rw [if_neg (by decide), if_pos rfl, Nat.add_sub_cancel, readDigits,
        takeDigits_digits hdigits hlen.le (Or.inl hlen.symm), ok_bind]
      have hne : (zeroPadded k z.natAbs).take k ≠ [] := List.ne_nil_of_length_pos (by omega)
      generalize (zeroPadded k z.natAbs).take k = ds at hne ⊢
      cases ds with
      | nil => exact absurd rfl hne
      | cons d ds => rfl
    · rw [Nat.add_sub_cancel]
      by_cases hfit : z.natAbs < 10 ^ k
      · have hval : digitsValue ((zeroPadded k z.natAbs).take k) = z.natAbs := by
          rw [List.take_of_length_le (zeroPadded_length (by omega) hfit).le, digitsValue_zeroPadded]
        have habs : (z.natAbs : ℤ) < 10 ^ k := by exact_mod_cast hfit
        have hpos : (0 : ℤ) < 10 ^ (k + 1) := by positivity
        rw [hval]
        exact ⟨fun _ => ⟨by omega, by omega⟩, fun _ => by omega⟩
      · have hlt := zeroPadded_take_lt (Nat.le_of_not_lt hfit)
        have habs : (10 ^ k : ℤ) ≤ z.natAbs := by exact_mod_cast Nat.le_of_not_lt hfit
        exact ⟨fun h => by omega, fun h => by omega⟩
  · have hdigits : ∀ c ∈ zeroPadded w z.natAbs, isDigit c = true := fun c => isDigit_of_mem_zeroPadded
    have hlen : ((zeroPadded w z.natAbs).take w).length = w :=
      List.length_take_of_le (le_zeroPadded_length w z.natAbs)
    refine ⟨digitsValue ((zeroPadded w z.natAbs).take w), ?_, ?_⟩
    · refine readField_digits (List.ne_nil_of_length_pos (by omega)) (fun c hc => ?_) hlen.le (Or.inl hlen.symm)
      exact hdigits c (List.mem_of_mem_take hc)
    · have hneg : (-10 ^ (w - 1) : ℤ) < 0 := by
        have hpos : (0 : ℤ) < 10 ^ (w - 1) := by positivity
        omega
      by_cases hfit : z.natAbs < 10 ^ w
      · have hval : digitsValue ((zeroPadded w z.natAbs).take w) = z.natAbs := by
          rw [List.take_of_length_le (zeroPadded_length (by omega) hfit).le, digitsValue_zeroPadded]
        have habs : (z.natAbs : ℤ) < 10 ^ w := by exact_mod_cast hfit
        rw [hval]
        exact ⟨fun _ => ⟨by omega, by omega⟩, fun _ => by omega⟩
      · have hlt := zeroPadded_take_lt (Nat.le_of_not_lt hfit)
        have habs : (10 ^ w : ℤ) ≤ z.natAbs := by exact_mod_cast Nat.le_of_not_lt hfit
        exact ⟨fun h => by omega, fun h => by omega⟩

/-! ## The loops -/

/-- What `keyframe_pack` stores for a frame. -/
def frameValue (f : UInt64 → Option Int32) (parameterId i : ℤ) : Int32 :=
  (f (hashKeyCode (keyframeId parameterId i))).getD 0

/-- One round of the loop: the cell of the frame gets its value. -/
theorem packFrame_spec {p : Port} {f : UInt64 → Option Int32} (hp : IntPort p f) (parameterId i : ℤ) {k : ℕ}
    {mem : List UInt8} (hzero : HasAt mem (valuesAt + 4 * k) (List.replicate 4 0)) :
    Ensures (packFrame p parameterId i k mem) fun mem' =>
      mem'.length = mem.length ∧ HasAt mem' (valuesAt + 4 * k) (intBytes (frameValue f parameterId i).toInt) ∧
      ∀ a bytes, HasAt mem a bytes → a + bytes.length ≤ valuesAt + 4 * k ∨ valuesAt + 4 * (k + 1) ≤ a →
        HasAt mem' a bytes := by
  rw [packFrame, getInt_eq hp, ok_bind, frameValue]
  cases f (hashKeyCode (keyframeId parameterId i)) with
  | none =>
    refine ⟨mem, rfl, rfl, ?_, fun _ _ h _ => h⟩
    show HasAt mem _ (intBytes 0)
    rw [intBytes_zero]
    exact hzero
  | some v =>
    have hroom : valuesAt + 4 * k + (intBytes v.toInt).length ≤ mem.length := by
      rw [intBytes_length]
      exact hzero.1
    obtain ⟨mem', hover⟩ := overwrite_of_le hroom
    refine ⟨mem', hover, overwrite_length hover, hasAt_of_overwrite hover, fun a bytes h happart => ?_⟩
    refine h.kept hover ?_
    rw [intBytes_length]
    omega

/-- **The loop of `keyframe_pack`** writes the values of the frames into zeroed cells and nothing else. -/
theorem packLoop_spec {p : Port} {f : UInt64 → Option Int32} (hp : IntPort p f) (parameterId : ℤ) :
    ∀ (n : ℕ) (i : ℤ) (k : ℕ) (mem : List UInt8),
      (∀ j < n, HasAt mem (valuesAt + 4 * (k + j)) (List.replicate 4 0)) →
      Ensures (packLoop p parameterId n i k mem) fun r => r.2 = k + n ∧
        (∀ a bytes, HasAt mem a bytes → a + bytes.length ≤ valuesAt + 4 * k ∨ valuesAt + 4 * (k + n) ≤ a →
          HasAt r.1 a bytes) ∧
        ∀ j < n, HasAt r.1 (valuesAt + 4 * (k + j)) (intBytes (frameValue f parameterId (i + j)).toInt) := by
  intro n
  induction n with
  | zero =>
    intro i k mem _
    exact ⟨_, rfl, rfl, fun _ _ h _ => h, fun j hj => absurd hj (Nat.not_lt_zero j)⟩
  | succ n ih =>
    intro i k mem hzero
    obtain ⟨mem', hround, hlen, hcell, hkept⟩ := packFrame_spec hp parameterId i (hzero 0 (Nat.succ_pos n))
    have hzero' : ∀ j < n, HasAt mem' (valuesAt + 4 * (k + 1 + j)) (List.replicate 4 0) := by
      intro j hj
      have hj' := hzero (j + 1) (by omega)
      rw [show k + (j + 1) = k + 1 + j by omega] at hj'
      exact hkept _ _ hj' (Or.inr (by omega))
    obtain ⟨r, hrun, hr, houter, hcells⟩ := ih (i + 1) (k + 1) mem' hzero'
    refine ⟨r, ?_, by omega, fun a bytes h happart => ?_, fun j hj => ?_⟩
    · rw [packLoop]
      simp only [add_zero] at hround
      rw [hround, ok_bind]
      exact hrun
    · exact houter a bytes (hkept a bytes h (by omega)) (by omega)
    · cases j with
      | zero =>
        simp only [Nat.cast_zero, add_zero] at hcell ⊢
        refine houter _ _ hcell (Or.inl ?_)
        rw [intBytes_length]
        omega
      | succ j =>
        have hj' := hcells j (by omega)
        rw [show i + 1 + (j : ℤ) = i + ((j + 1 : ℕ) : ℤ) by push_cast; omega,
          show k + 1 + j = k + (j + 1) by omega] at hj'
        exact hj'

/-- What reading in the frames `i` to `i + n - 1` makes of a port of numbers. -/
def Written (parameterId : ℤ) (n : ℕ) (i : ℤ) (value : ℕ → Int32) (f g : UInt64 → Option Int32) : Prop :=
  ∀ h, (g h = f h ∧ ∀ j < n, hashKeyCode (keyframeId parameterId (i + (j : ℕ))) ≠ h) ∨
    ∃ j < n, hashKeyCode (keyframeId parameterId (i + (j : ℕ))) = h ∧ g h = some (value j) ∧
      ∀ j' < n, j < j' → hashKeyCode (keyframeId parameterId (i + (j' : ℕ))) ≠ h

/-- Four bytes of a packet, one after the other. -/
theorem byteAt_intBytes {packet : List UInt8} {ptr : ℕ} {v : ℤ} (h : HasAt packet ptr (intBytes v)) (hv : InInt v) :
    ∃ b₀ b₁ b₂ b₃, byteAt packet ptr = .ok b₀ ∧ byteAt packet (ptr + 1) = .ok b₁ ∧
      byteAt packet (ptr + 2) = .ok b₂ ∧ byteAt packet (ptr + 3) = .ok b₃ ∧ bytesInt b₀ b₁ b₂ b₃ = v := by
  obtain ⟨hlen, htake⟩ := h
  rw [intBytes_length] at hlen htake
  have hat : ∀ j < 4, byteAt packet (ptr + j : ℕ) = .ok ((intBytes v).getD j 0) := by
    intro j hj
    have hj' : ptr + j < packet.length := by omega
    rw [byteAt_of_lt hj', ← htake, List.getD_eq_getElem?_getD, List.getElem?_take_of_lt hj, List.getElem?_drop,
      List.getElem?_eq_getElem hj']
    rfl
  have h₀ := hat 0 (by omega)
  have h₁ := hat 1 (by omega)
  have h₂ := hat 2 (by omega)
  have h₃ := hat 3 (by omega)
  push_cast at h₀ h₁ h₂ h₃
  rw [add_zero] at h₀
  exact ⟨_, _, _, _, h₀, h₁, h₂, h₃, bytesInt_intBytes hv rfl⟩

theorem inInt_toInt (v : Int32) : InInt v.toInt :=
  ⟨Int32.le_toInt v, Int32.toInt_lt v⟩

/-- **The loop of `keyframe_unpack`** sets the frames one after the other. -/
theorem unpackLoop_spec {packet : List UInt8} (parameterId : ℤ) :
    ∀ (n : ℕ) (i : ℤ) (ptr : ℕ) (value : ℕ → Int32) {port : Port} {f : UInt64 → Option Int32}, IntPort port f →
      (∀ j < n, HasAt packet (ptr + 4 * j) (intBytes (value j).toInt)) →
      Ensures (unpackLoop packet parameterId n i ptr port) fun port' =>
        ∃ g, IntPort port' g ∧ Written parameterId n i value f g := by
  intro n
  induction n with
  | zero =>
    intro i ptr value port f hport _
    exact ⟨port, rfl, f, hport, fun h => Or.inl ⟨rfl, fun j hj => absurd hj (Nat.not_lt_zero j)⟩⟩
  | succ n ih =>
    intro i ptr value port f hport hcells
    obtain ⟨b₀, b₁, b₂, b₃, h₀, h₁, h₂, h₃, hvalue⟩ :=
      byteAt_intBytes (hcells 0 (Nat.succ_pos n)) (inInt_toInt (value 0))
    obtain ⟨⟨e, port₁⟩, hset, hport₁⟩ := set_intPort hport (keyframeId parameterId i) (value 0)
    have hcells' : ∀ j < n, HasAt packet (ptr + 4 + 4 * j) (intBytes (value (j + 1)).toInt) := by
      intro j hj
      have hj' := hcells (j + 1) (by omega)
      rwa [show ptr + 4 * (j + 1) = ptr + 4 + 4 * j by omega] at hj'
    obtain ⟨port', hrun, g, hg, hwritten⟩ := ih (i + 1) (ptr + 4) (fun j => value (j + 1)) hport₁ hcells'
    refine ⟨port', ?_, g, hg, fun h => ?_⟩
    · rw [unpackLoop]
      rw [mul_zero, add_zero] at h₀ h₁ h₂ h₃
      rw [h₀, ok_bind, h₁, ok_bind, h₂, ok_bind, h₃, ok_bind, hvalue, Int32.ofInt_toInt, hset, ok_bind]
      exact hrun
    · have hshift : ∀ j : ℕ, i + 1 + (j : ℤ) = i + ((j + 1 : ℕ) : ℤ) := fun j => by push_cast; omega
      rcases hwritten h with ⟨hsame, hother⟩ | ⟨j, hj, hcode, hval, hlast⟩
      · by_cases hhead : hashKeyCode (keyframeId parameterId i) = h
        · right
          refine ⟨0, Nat.succ_pos n, by rw [Nat.cast_zero, add_zero]; exact hhead, ?_, fun j' hj' hpos => ?_⟩
          · rw [hsame, ← hhead, Function.update_self]
          · obtain ⟨j, rfl⟩ : ∃ j, j' = j + 1 := ⟨j' - 1, by omega⟩
            rw [← hshift]
            exact hother j (by omega)
        · left
          refine ⟨by rw [hsame, Function.update_of_ne (Ne.symm hhead)], fun j' hj' => ?_⟩
          cases j' with
          | zero =>
            rw [Nat.cast_zero, add_zero]
            exact hhead
          | succ j =>
            rw [← hshift]
            exact hother j (by omega)
      · right
        refine ⟨j + 1, by omega, by rw [← hshift]; exact hcode, hval, fun j' hj' hlt => ?_⟩
        obtain ⟨k, rfl⟩ : ∃ k, j' = k + 1 := ⟨j' - 1, by omega⟩
        rw [← hshift]
        exact hlast k (by omega) (by omega)

/-! ## The header -/

/-- One field of the header, with the fields behind it. -/
theorem readFields_padded {w : ℕ} (hw : 2 ≤ w) (z : ℤ) (ws : List ℕ) (n : ℕ) (others : CStr) (rest : List UInt8) :
    ∃ v, (v = z ↔ FitsWidth w z) ∧
      readFields (w :: ws) ((padded w z ++ others).take (w + n) ++ rest) =
        (readFields ws (((padded w z).drop w ++ others).take n ++ rest) >>= fun vs =>
          .ok (vs.map fun vs => v :: vs)) := by
  have hlen := le_padded_length (show 1 ≤ w by omega) z
  have htake : (padded w z ++ others).take (w + n) ++ rest =
      (padded w z).take w ++ (((padded w z).drop w ++ others).take n ++ rest) := by
    rw [List.take_add, List.take_append_of_le_length hlen, List.drop_append_of_le_length hlen, List.append_assoc]
  obtain ⟨v, hread, hv⟩ := readField_padded hw z (((padded w z).drop w ++ others).take n ++ rest)
  refine ⟨v, hv, ?_⟩
  rw [htake, readFields_cons hread]

theorem padded_drop {w : ℕ} (hw : 2 ≤ w) {z : ℤ} (h : FitsWidth w z) : (padded w z).drop w = [] :=
  List.drop_eq_nil_of_le (padded_length hw h).le

theorem some_of_cons {x : Exec (Option (List ℤ))} {v : ℤ} {vs : List ℤ}
    (h : (x >>= fun vs => .ok (vs.map fun vs => v :: vs)) = .ok (some vs)) :
    ∃ vs', x = .ok (some vs') ∧ vs = v :: vs' := by
  obtain ⟨y, hx, hy⟩ := bind_eq_ok.mp h
  obtain ⟨vs', hvs, hcons⟩ := Option.map_eq_some_iff.mp (Except.ok.inj hy)
  exact ⟨vs', by rw [hx, hvs], hcons.symm⟩

/-- The bytes of the header that are read as numbers. -/
def headerFields (entryId parameterId start end_ type : ℤ) : CStr :=
  ((header entryId parameterId start end_ type).take valuesAt).drop 3

theorem headerFields_eq (entryId parameterId start end_ type : ℤ) :
    headerFields entryId parameterId start end_ type =
      (padded 2 entryId ++ (padded 2 parameterId ++ (padded 8 start ++ (padded 8 end_ ++ padded 2 type)))).take
        (2 + (2 + (8 + (8 + (2 + 0))))) := by
  rw [headerFields, header, List.drop_take]
  rfl

/-- **The header**: what is read is the entry, the parameter, and the range and type as far as they fit. -/
theorem readFields_header {entryId parameterId start end_ type : ℤ} {rest : List UInt8} {vs : List ℤ}
    (hentry : FitsWidth 2 entryId) (hparameter : FitsWidth 2 parameterId)
    (h : readFields [2, 2, 8, 8, 2] (headerFields entryId parameterId start end_ type ++ rest) = .ok (some vs)) :
    ∃ s e t, vs = [entryId, parameterId, s, e, t] ∧ (s = start ↔ FitsWidth 8 start) ∧
      (FitsWidth 8 start → (e = end_ ↔ FitsWidth 8 end_) ∧ (FitsWidth 8 end_ → (t = type ↔ FitsWidth 2 type))) := by
  rw [headerFields_eq] at h
  obtain ⟨v₁, hv₁, h₁⟩ := readFields_padded le_rfl entryId [2, 8, 8, 2] (2 + (8 + (8 + (2 + 0))))
    (padded 2 parameterId ++ (padded 8 start ++ (padded 8 end_ ++ padded 2 type))) rest
  obtain rfl := hv₁.mpr hentry
  rw [h₁, padded_drop le_rfl hentry, List.nil_append] at h
  obtain ⟨vs₁, hvs₁, rfl⟩ := some_of_cons h
  obtain ⟨v₂, hv₂, h₂⟩ := readFields_padded le_rfl parameterId [8, 8, 2] (8 + (8 + (2 + 0)))
    (padded 8 start ++ (padded 8 end_ ++ padded 2 type)) rest
  obtain rfl := hv₂.mpr hparameter
  rw [h₂, padded_drop le_rfl hparameter, List.nil_append] at hvs₁
  obtain ⟨vs₂, hvs₂, rfl⟩ := some_of_cons hvs₁
  obtain ⟨s, hs, h₃⟩ := readFields_padded (show 2 ≤ 8 by omega) start [8, 2] (8 + (2 + 0))
    (padded 8 end_ ++ padded 2 type) rest
  rw [h₃] at hvs₂
  obtain ⟨vs₃, hvs₃, rfl⟩ := some_of_cons hvs₂
  by_cases hfit : FitsWidth 8 start
  · rw [padded_drop (by omega) hfit, List.nil_append] at hvs₃
    obtain ⟨e, he, h₄⟩ := readFields_padded (show 2 ≤ 8 by omega) end_ [2] (2 + 0) (padded 2 type) rest
    rw [h₄] at hvs₃
    obtain ⟨vs₄, hvs₄, rfl⟩ := some_of_cons hvs₃
    obtain ⟨t, ht, rfl⟩ : ∃ t, (FitsWidth 8 end_ → (t = type ↔ FitsWidth 2 type)) ∧ vs₄ = [t] := by
      by_cases hfit' : FitsWidth 8 end_
      · obtain ⟨t, ht, h₅⟩ := readFields_padded le_rfl type [] 0 [] rest
        rw [padded_drop (by omega) hfit', List.nil_append, ← List.append_nil (padded 2 type), h₅] at hvs₄
        obtain ⟨vs₅, hvs₅, rfl⟩ := some_of_cons hvs₄
        obtain rfl := Option.some.inj (Except.ok.inj hvs₅)
        exact ⟨t, fun _ => ht, rfl⟩
      · obtain ⟨t, rfl⟩ := List.length_eq_one_iff.mp (readFields_lt hvs₄).length_eq.symm
        exact ⟨t, fun hc => absurd hc hfit', rfl⟩
    exact ⟨s, e, t, rfl, hs, fun _ => ⟨he, ht⟩⟩
  · have hlen : vs₃.length = 2 := (readFields_lt hvs₃).length_eq.symm
    obtain ⟨e, t, rfl⟩ := List.length_eq_two.mp hlen
    exact ⟨s, e, t, rfl, hs, fun hc => absurd hc hfit⟩

theorem readFields_header_fits {entryId parameterId start end_ type : ℤ} (rest : List UInt8)
    (hentry : FitsWidth 2 entryId) (hparameter : FitsWidth 2 parameterId) (hstart : FitsWidth 8 start)
    (hend : FitsWidth 8 end_) (htype : FitsWidth 2 type) :
    readFields [2, 2, 8, 8, 2] (headerFields entryId parameterId start end_ type ++ rest) =
      .ok (some [entryId, parameterId, start, end_, type]) := by
  rw [headerFields_eq]
  obtain ⟨v₁, hv₁, h₁⟩ := readFields_padded le_rfl entryId [2, 8, 8, 2] (2 + (8 + (8 + (2 + 0))))
    (padded 2 parameterId ++ (padded 8 start ++ (padded 8 end_ ++ padded 2 type))) rest
  obtain ⟨v₂, hv₂, h₂⟩ := readFields_padded le_rfl parameterId [8, 8, 2] (8 + (8 + (2 + 0)))
    (padded 8 start ++ (padded 8 end_ ++ padded 2 type)) rest
  obtain ⟨s, hs, h₃⟩ := readFields_padded (show 2 ≤ 8 by omega) start [8, 2] (8 + (2 + 0))
    (padded 8 end_ ++ padded 2 type) rest
  obtain ⟨e, he, h₄⟩ := readFields_padded (show 2 ≤ 8 by omega) end_ [2] (2 + 0) (padded 2 type) rest
  obtain ⟨t, ht, h₅⟩ := readFields_padded le_rfl type [] 0 [] rest
  rw [List.append_nil] at h₅
  rw [padded_drop le_rfl hentry, List.nil_append, h₂, padded_drop le_rfl hparameter, List.nil_append, h₃,
    padded_drop (by omega) hstart, List.nil_append, h₄, padded_drop (by omega) hend, List.nil_append, h₅] at h₁
  rw [h₁, hv₁.mpr hentry, hv₂.mpr hparameter, hs.mpr hstart, he.mpr hend, ht.mpr htype]
  rfl

/-! ## The round trip -/

/-- The range and the type are under different names for the vevo port. -/
theorem extract_apart {parameterId : ℤ} (h : 0 ≤ parameterId ∧ parameterId ≤ 9) :
    hashKeyCode (extract "start" parameterId) ≠ hashKeyCode (extract "end" parameterId) ∧
    hashKeyCode (extract "start" parameterId) ≠ hashKeyCode (extract "type" parameterId) ∧
    hashKeyCode (extract "end" parameterId) ≠ hashKeyCode (extract "type" parameterId) := by
  obtain ⟨hlo, hhi⟩ := h
  interval_cases parameterId <;> decide

/-- The map of a port after the range and the type were set. -/
def withRange (g : UInt64 → Option Int32) (parameterId : ℤ) (start end_ type : Int32) : UInt64 → Option Int32 :=
  Function.update (Function.update (Function.update g (hashKeyCode (extract "start" parameterId)) (some start))
    (hashKeyCode (extract "end" parameterId)) (some end_)) (hashKeyCode (extract "type" parameterId)) (some type)

theorem setRange_intPort {port : Port} {g : UInt64 → Option Int32} (hport : IntPort port g)
    (parameterId start end_ type : ℤ) :
    Ensures (setRange port parameterId start end_ type) fun q =>
      IntPort q (withRange g parameterId (Int32.ofInt start) (Int32.ofInt end_) (Int32.ofInt type)) := by
  obtain ⟨⟨_, port₁⟩, ha, hport₁⟩ := set_intPort hport (extract "start" parameterId) (Int32.ofInt start)
  obtain ⟨⟨_, port₂⟩, hb, hport₂⟩ :=
    set_intPort (show IntPort port₁ _ from hport₁) (extract "end" parameterId) (Int32.ofInt end_)
  obtain ⟨⟨_, port₃⟩, hc, hport₃⟩ :=
    set_intPort (show IntPort port₂ _ from hport₂) (extract "type" parameterId) (Int32.ofInt type)
  refine ⟨port₃, ?_, hport₃⟩
  simp only [setRange, ha, hb, hc, ok_bind]

theorem withRange_range {g : UInt64 → Option Int32} {parameterId : ℤ} (hparameter : 0 ≤ parameterId ∧ parameterId ≤ 9)
    (start end_ type : Int32) :
    withRange g parameterId start end_ type (hashKeyCode (extract "start" parameterId)) = some start ∧
    withRange g parameterId start end_ type (hashKeyCode (extract "end" parameterId)) = some end_ ∧
    withRange g parameterId start end_ type (hashKeyCode (extract "type" parameterId)) = some type := by
  obtain ⟨hse, hst, het⟩ := extract_apart hparameter
  refine ⟨?_, ?_, Function.update_self _ _ _⟩
  · rw [withRange, Function.update_of_ne hst, Function.update_of_ne hse, Function.update_self]
  · rw [withRange, Function.update_of_ne het, Function.update_self]

theorem withRange_other {g : UInt64 → Option Int32} {parameterId : ℤ} (start end_ type : Int32) {h : UInt64}
    (hh : ∀ key ∈ ["start", "end", "type"], hashKeyCode (extract key parameterId) ≠ h) :
    withRange g parameterId start end_ type h = g h := by
  have hs := hh "start" List.mem_cons_self
  have he := hh "end" (List.mem_cons_of_mem _ List.mem_cons_self)
  have ht := hh "type" (List.mem_cons_of_mem _ (List.mem_cons_of_mem _ List.mem_cons_self))
  rw [withRange, Function.update_of_ne (Ne.symm ht), Function.update_of_ne (Ne.symm he),
    Function.update_of_ne (Ne.symm hs)]

/-- What stands in front of the values stays there. -/
theorem packLoop_front {port : Port} {parameterId : ℤ} {bytes : List UInt8} (hlen : bytes.length ≤ valuesAt) :
    ∀ {n : ℕ} {i : ℤ} {k : ℕ} {mem : List UInt8} {r : List UInt8 × ℕ},
      packLoop port parameterId n i k mem = .ok r → HasAt mem 0 bytes → HasAt r.1 0 bytes := by
  intro n
  induction n with
  | zero =>
    intro i k mem r h hmem
    obtain rfl := Except.ok.inj h
    exact hmem
  | succ n ih =>
    intro i k mem r h hmem
    rw [packLoop] at h
    obtain ⟨mem', hround, hrest⟩ := bind_eq_ok.mp h
    refine ih hrest ?_
    rw [packFrame] at hround
    obtain ⟨x, -, hround⟩ := bind_eq_ok.mp hround
    cases x with
    | none =>
      obtain rfl := Except.ok.inj hround
      exact hmem
    | some v => exact hmem.kept hround (Or.inl (by omega))

/-- What each setting of a frame keeps, the loop keeps. -/
theorem unpackLoop_keeps {Q : Port → Prop} {packet : List UInt8} {parameterId : ℤ} :
    ∀ {n : ℕ} {i : ℤ} {ptr : ℕ} {port port' : Port},
      (∀ j : ℕ, j < n → ∀ port v, Q port →
        Ensures (vevoPropertySet port (keyframeId parameterId (i + j)) .int [v]) fun a => Q a.2) →
      Q port → unpackLoop packet parameterId n i ptr port = .ok port' → Q port' := by
  intro n
  induction n with
  | zero =>
    intro i ptr port port' _ hport h
    obtain rfl := Except.ok.inj h
    exact hport
  | succ n ih =>
    intro i ptr port port' hset hport h
    rw [unpackLoop] at h
    obtain ⟨b₀, -, h⟩ := bind_eq_ok.mp h
    obtain ⟨b₁, -, h⟩ := bind_eq_ok.mp h
    obtain ⟨b₂, -, h⟩ := bind_eq_ok.mp h
    obtain ⟨b₃, -, h⟩ := bind_eq_ok.mp h
    obtain ⟨a, ha, h⟩ := bind_eq_ok.mp h
    have hfirst := hset 0 (Nat.succ_pos n) port (Int32.ofInt (bytesInt b₀ b₁ b₂ b₃)) hport
    rw [Nat.cast_zero, add_zero] at hfirst
    refine ih (fun j hj port v hport => ?_) (hfirst.apply ha) h
    have hnext := hset (j + 1) (by omega) port v hport
    rwa [show i + ((j + 1 : ℕ) : ℤ) = i + 1 + (j : ℕ) by push_cast; ring] at hnext

/-- The loop of `keyframe_unpack` leaves a port of numbers. -/
theorem unpackLoop_intPort {packet : List UInt8} {parameterId : ℤ} {n : ℕ} {i : ℤ} {ptr : ℕ} {port port' : Port}
    {f : UInt64 → Option Int32} (hport : IntPort port f)
    (h : unpackLoop packet parameterId n i ptr port = .ok port') : ∃ g, IntPort port' g := by
  refine unpackLoop_keeps (Q := fun port => ∃ g, IntPort port g) (fun j _ port v hport => ?_) ⟨f, hport⟩ h
  obtain ⟨g, hg⟩ := hport
  exact (set_intPort hg _ v).mono fun _ ha => ⟨_, ha⟩

section RoundTrip

variable {p : Port} {f : UInt64 → Option Int32} {entryId parameterId : ℤ} {start end_ type : Int32}

/-- The port that is packed has a range and a type for the parameter. -/
structure HasRange (f : UInt64 → Option Int32) (parameterId : ℤ) (start end_ type : Int32) : Prop where
  start_eq : f (hashKeyCode (extract "start" parameterId)) = some start
  end_eq : f (hashKeyCode (extract "end" parameterId)) = some end_
  type_eq : f (hashKeyCode (extract "type" parameterId)) = some type

/-- The range and the type fit the header. -/
def HeaderFits (start end_ type : Int32) : Prop :=
  FitsWidth 8 start.toInt ∧ FitsWidth 8 end_.toInt ∧ FitsWidth 2 type.toInt

/-- There is no keyframe in the last frame of the range, or its value is zero; or the vevo port takes its name for
one of the other three. -/
def LastFrameEmpty (f : UInt64 → Option Int32) (parameterId end_ : ℤ) : Prop :=
  f (hashKeyCode (keyframeId parameterId end_)) = none ∨ f (hashKeyCode (keyframeId parameterId end_)) = some 0 ∨
    ∃ key ∈ ["start", "end", "type"], hashKeyCode (extract key parameterId) = hashKeyCode (keyframeId parameterId end_)

/-- Unpacking the packet of a parameter into an empty port restores its range and type, and every keyframe of the
range. -/
def Restored (p : Port) (entryId parameterId start end_ : ℤ) : Prop :=
  ∃ packet rlen fxEntry q, keyframePack p parameterId entryId = .ok (some (packet, rlen)) ∧
    keyframeUnpack packet (fun _ => vevoPortNew (-1)) = .ok (some (fxEntry, q)) ∧
    (∀ key ∈ ["start", "end", "type"], getInt q (extract key parameterId) = getInt p (extract key parameterId)) ∧
    ∀ i v, start ≤ i → i ≤ end_ → getInt p (keyframeId parameterId i) = .ok (some v) →
      getInt q (keyframeId parameterId i) = .ok (some v)

theorem keyframePack_eq (hp : IntPort p f) (hrange : HasRange f parameterId start end_ type) (entryId : ℤ) :
    keyframePack p parameterId entryId =
      (let len := end_.toInt - start.toInt
      if ¬ (InInt len ∧ InInt (len * 4) ∧ InInt (len * 4 + 64)) then .error .overflow
      else if len * 4 + 64 < 0 then .error .nullPointer
      else do
        let result := List.replicate (len * 4 + 64).toNat 0
        let result ← overwrite result 0 (header entryId parameterId start.toInt end_.toInt type.toInt ++ [0])
        let (result, k) ← packLoop p parameterId len.toNat start.toInt 0 result
        .ok (some (result, valuesAt + 4 * k))) := by
  rw [keyframePack, getInt_eq hp, hrange.start_eq, ok_bind]
  dsimp only [Option.map_some]
  rw [getInt_eq hp, hrange.end_eq, ok_bind]
  dsimp only [Option.map_some]
  rw [getInt_eq hp, hrange.type_eq, ok_bind]
  rfl

/-- The packet begins with the header. -/
theorem keyframePack_front (hp : IntPort p f) (hrange : HasRange f parameterId start end_ type)
    {packet : List UInt8} {rlen : ℕ} (h : keyframePack p parameterId entryId = .ok (some (packet, rlen))) :
    ∃ rest, packet =
      (header entryId parameterId start.toInt end_.toInt type.toInt).take valuesAt ++ rest := by
  obtain ⟨hd, hhd⟩ : ∃ hd, hd = header entryId parameterId start.toInt end_.toInt type.toInt := ⟨_, rfl⟩
  rw [keyframePack_eq hp hrange entryId, ← hhd] at h
  dsimp only at h
  rw [← hhd]
  split_ifs at h with hint hneg
  obtain ⟨mem, hmem, h⟩ := bind_eq_ok.mp h
  obtain ⟨r, hloop, h⟩ := bind_eq_ok.mp h
  obtain rfl := (Prod.mk.inj (Option.some.inj (Except.ok.inj h))).1
  have hfront : HasAt mem 0 (hd.take valuesAt) := by
    have hall := (hasAt_of_overwrite hmem).left
    rw [← List.take_append_drop valuesAt hd] at hall
    exact hall.left
  obtain ⟨hlen, htake⟩ := packLoop_front (List.length_take_le _ _) hloop hfront
  rw [List.drop_zero] at htake
  exact ⟨_, by rw [← htake, List.take_append_drop]⟩

theorem header_take_three (entryId parameterId start end_ type : ℤ) (rest : List UInt8) :
    ((header entryId parameterId start end_ type).take valuesAt ++ rest).take 3 = lit "key" := by
  rw [header, valuesAt]
  rfl

theorem header_drop_three (entryId parameterId start end_ type : ℤ) (rest : List UInt8) :
    ((header entryId parameterId start end_ type).take valuesAt ++ rest).drop 3 =
      headerFields entryId parameterId start end_ type ++ rest := by
  rw [header, valuesAt]
  rfl

/-- What fits a field of eight digits is an `int`. -/
theorem inInt_of_lt {z : ℤ} {w : ℕ} (hw : w ≤ 8) (h : -(10 ^ w : ℤ) < z ∧ z < 10 ^ w) : InInt z := by
  have hpow : (10 : ℤ) ^ w ≤ 10 ^ 8 := pow_le_pow_right₀ (by norm_num) hw
  exact ⟨by omega, by omega⟩

theorem toInt_ofInt {z : ℤ} (h : InInt z) : (Int32.ofInt z).toInt = z :=
  int32_toInt_ofInt h.1 h.2

/-- **What is restored fits the header.** -/
theorem headerFits_of_restored (hp : IntPort p f) (hrange : HasRange f parameterId start end_ type)
    (hentry : FitsWidth 2 entryId) (hparameter : 0 ≤ parameterId ∧ parameterId ≤ 9)
    (h : Restored p entryId parameterId start.toInt end_.toInt) : HeaderFits start end_ type := by
  obtain ⟨packet, rlen, fxEntry, q, hpack, hunpack, hkeys, -⟩ := h
  obtain ⟨rest, rfl⟩ := keyframePack_front hp hrange hpack
  rw [keyframeUnpack, if_neg (by rw [header_take_three]; exact fun hne => hne rfl), header_drop_three] at hunpack
  obtain ⟨fields, hread, hunpack⟩ := bind_eq_ok.mp hunpack
  have hparameterFits : FitsWidth 2 parameterId := by
    rw [FitsWidth]
    omega
  cases fields with
  | none => cases hunpack
  | some vs =>
    have hlt := readFields_lt hread
    obtain ⟨s, e, t, rfl, hs, hrest⟩ := readFields_header hentry hparameterFits hread
    simp only [List.forall₂_cons, List.forall₂_nil_left_iff, and_true] at hlt
    obtain ⟨-, -, hlts, hlte, hltt⟩ := hlt
    obtain ⟨port, hloop, hunpack⟩ := bind_eq_ok.mp hunpack
    obtain ⟨g, hg⟩ := unpackLoop_intPort intPort_new hloop
    obtain ⟨q', hset, hq'⟩ := setRange_intPort hg parameterId s e t
    rw [hset, ok_bind] at hunpack
    obtain ⟨rfl, rfl⟩ := Prod.mk.inj (Option.some.inj (Except.ok.inj hunpack))
    obtain ⟨hgs, hge, hgt⟩ := @withRange_range g parameterId hparameter (Int32.ofInt s) (Int32.ofInt e) (Int32.ofInt t)
    have hstart := hkeys "start" List.mem_cons_self
    have hend := hkeys "end" (List.mem_cons_of_mem _ List.mem_cons_self)
    have htype := hkeys "type" (List.mem_cons_of_mem _ (List.mem_cons_of_mem _ List.mem_cons_self))
    rw [getInt_eq hq', getInt_eq hp, hgs, hrange.start_eq] at hstart
    rw [getInt_eq hq', getInt_eq hp, hge, hrange.end_eq] at hend
    rw [getInt_eq hq', getInt_eq hp, hgt, hrange.type_eq] at htype
    have hseq : s = start.toInt := by
      rw [← Option.some.inj (Except.ok.inj hstart), toInt_ofInt (inInt_of_lt le_rfl hlts)]
    have heeq : e = end_.toInt := by
      rw [← Option.some.inj (Except.ok.inj hend), toInt_ofInt (inInt_of_lt le_rfl hlte)]
    have hteq : t = type.toInt := by
      rw [← Option.some.inj (Except.ok.inj htype), toInt_ofInt (inInt_of_lt (by omega) hltt)]
    have hfits := hs.mp hseq
    have hfite := (hrest hfits).1.mp heeq
    exact ⟨hfits, hfite, ((hrest hfits).2 hfite).mp hteq⟩

theorem hasAt_replicate {n a m : ℕ} (h : a + m ≤ n) :
    HasAt (List.replicate n (0 : UInt8)) a (List.replicate m 0) := by
  refine ⟨by rwa [List.length_replicate, List.length_replicate], ?_⟩
  rw [List.length_replicate, List.drop_replicate, List.take_replicate, Nat.min_eq_left (by omega)]

theorem header_length {start end_ type : ℤ} (hentry : FitsWidth 2 entryId) (hparameter : FitsWidth 2 parameterId)
    (hstart : FitsWidth 8 start) (hend : FitsWidth 8 end_) (htype : FitsWidth 2 type) :
    (header entryId parameterId start end_ type).length = valuesAt := by
  rw [header]
  simp only [List.length_append]
  rw [padded_length le_rfl hentry, padded_length le_rfl hparameter, padded_length (by omega) hstart,
    padded_length (by omega) hend, padded_length le_rfl htype]
  rfl

/-- The cells behind a header are zero, the first of them with the zero that ends the header. -/
theorem cells_zero {hd mem : List UInt8} {n : ℕ} (hlen : hd.length = valuesAt)
    (hmem : overwrite (List.replicate (4 * n + 64) 0) 0 (hd ++ [0]) = .ok mem) {j : ℕ} (hj : j ≤ n) :
    HasAt mem (valuesAt + 4 * j) (List.replicate 4 0) := by
  have hsize : (hd ++ [(0 : UInt8)]).length = valuesAt + 1 := by rw [List.length_append, hlen]; rfl
  have hbehind : ∀ a m, valuesAt + 1 ≤ a → a + m ≤ 4 * n + 64 → HasAt mem a (List.replicate m 0) := by
    intro a m ha hm
    exact (hasAt_replicate hm).kept hmem (Or.inr (by omega))
  have hvalues : valuesAt = 25 := rfl
  cases j with
  | zero =>
    have hfirst : HasAt mem valuesAt [0] := by
      have hright := (hasAt_of_overwrite hmem).right
      rwa [hlen, Nat.zero_add] at hright
    exact hfirst.append (hbehind (valuesAt + 1) 3 le_rfl (by omega))
  | succ j => exact hbehind _ _ (by omega) (by omega)

/-- What `keyframe_unpack` stores for the frames: there is no value for the last one. -/
def unpackedValue (f : UInt64 → Option Int32) (parameterId start : ℤ) (len j : ℕ) : Int32 :=
  if j < len then frameValue f parameterId (start + j) else 0

/-- **Where the header fits**, the packet is unpacked: the frames in front of the last one get their values, the
last one gets zero. -/
theorem keyframeUnpack_fits (hp : IntPort p f) (hrange : HasRange f parameterId start end_ type)
    (hentry : FitsWidth 2 entryId) (hparameter : FitsWidth 2 parameterId) (hlt : start.toInt < end_.toInt)
    (hfits : HeaderFits start end_ type) :
    ∃ packet rlen q g, keyframePack p parameterId entryId = .ok (some (packet, rlen)) ∧
      keyframeUnpack packet (fun _ => vevoPortNew (-1)) = .ok (some (entryId, q)) ∧
      Written parameterId ((end_.toInt - start.toInt).toNat + 1) start.toInt
        (unpackedValue f parameterId start.toInt (end_.toInt - start.toInt).toNat) (fun _ => none) g ∧
      IntPort q (withRange g parameterId start end_ type) := by
  obtain ⟨hs, he, ht⟩ := hfits
  obtain ⟨n, hn⟩ : ∃ n, n = (end_.toInt - start.toInt).toNat := ⟨_, rfl⟩
  have hlen : end_.toInt - start.toInt = n := by omega
  have hbound : n < 2 ^ 28 := by
    obtain ⟨hs, -⟩ := hs
    obtain ⟨-, he⟩ := he
    omega
  obtain ⟨hd, hhd⟩ : ∃ hd, hd = header entryId parameterId start.toInt end_.toInt type.toInt := ⟨_, rfl⟩
  have hhdlen : hd.length = valuesAt := by rw [hhd, header_length hentry hparameter hs he ht]
  have hvalues : valuesAt = 25 := rfl
  have hroom : 0 + (hd ++ [(0 : UInt8)]).length ≤ (List.replicate (4 * n + 64) (0 : UInt8)).length := by
    rw [List.length_append, hhdlen, List.length_replicate, List.length_singleton]
    omega
  obtain ⟨mem, hmem⟩ := overwrite_of_le hroom
  obtain ⟨r, hloop, hr, houter, hcells⟩ := packLoop_spec hp parameterId n start.toInt 0 mem fun j hj => by
    rw [Nat.zero_add]
    exact cells_zero hhdlen hmem hj.le
  have hpack : keyframePack p parameterId entryId = .ok (some (r.1, valuesAt + 4 * r.2)) := by
    have hsize : ((n : ℤ) * 4 + 64).toNat = 4 * n + 64 := by omega
    rw [keyframePack_eq hp hrange entryId, ← hhd, hlen]
    dsimp only
    rw [if_neg (fun h => h ⟨⟨by omega, by omega⟩, ⟨by omega, by omega⟩, ⟨by omega, by omega⟩⟩), if_neg (by omega),
      hsize, Int.toNat_natCast, hmem, ok_bind, hloop]
    rfl
  obtain ⟨rest, hfront⟩ := keyframePack_front hp hrange hpack
  -- the cell of the last frame was never written
  have hread : ∀ j < n + 1, HasAt r.1 (valuesAt + 4 * j)
      (intBytes (unpackedValue f parameterId start.toInt n j).toInt) := by
    intro j hj
    rw [unpackedValue]
    split_ifs with hlast
    · have hcell := hcells j hlast
      rwa [Nat.zero_add] at hcell
    · obtain rfl : j = n := by omega
      exact houter _ _ (cells_zero hhdlen hmem le_rfl) (Or.inr (by omega))
  obtain ⟨port, hunpack, g, hg, hwritten⟩ :=
    unpackLoop_spec parameterId (n + 1) start.toInt valuesAt _ intPort_new hread
  obtain ⟨q, hset, hq⟩ := setRange_intPort hg parameterId start.toInt end_.toInt type.toInt
  rw [Int32.ofInt_toInt, Int32.ofInt_toInt, Int32.ofInt_toInt] at hq
  refine ⟨r.1, _, q, g, hpack, ?_, by rw [← hn]; exact hwritten, hq⟩
  have hcount : (end_.toInt - start.toInt + 1).toNat = n + 1 := by omega
  rw [hfront] at hunpack ⊢
  rw [keyframeUnpack, if_neg (by rw [header_take_three]; exact fun hne => hne rfl), header_drop_three,
    readFields_header_fits rest hentry hparameter hs he ht, ok_bind]
  dsimp only
  rw [hcount, hunpack, ok_bind, hset]
  rfl

/-- The range and the type are those of the port that was packed. -/
theorem withRange_key (hrange : HasRange f parameterId start end_ type)
    (hparameter : 0 ≤ parameterId ∧ parameterId ≤ 9) (g : UInt64 → Option Int32) {key : String}
    (hkey : key ∈ ["start", "end", "type"]) :
    withRange g parameterId start end_ type (hashKeyCode (extract key parameterId)) =
      f (hashKeyCode (extract key parameterId)) := by
  obtain ⟨hs, he, ht⟩ := @withRange_range g parameterId hparameter start end_ type
  simp only [List.mem_cons, List.not_mem_nil, or_false] at hkey
  rcases hkey with rfl | rfl | rfl
  · rw [hs, hrange.start_eq]
  · rw [he, hrange.end_eq]
  · rw [ht, hrange.type_eq]

/-- What a frame of the range is after unpacking: its name is that of some frame that was set last. -/
theorem Written.frame {n : ℕ} {value : ℕ → Int32} {g : UInt64 → Option Int32} {first : ℤ}
    (hg : Written parameterId n first value (fun _ => none) g) {j : ℕ} (hj : j < n) :
    ∃ j' < n, j ≤ j' ∧ hashKeyCode (keyframeId parameterId (first + (j' : ℕ))) =
        hashKeyCode (keyframeId parameterId (first + (j : ℕ))) ∧
      g (hashKeyCode (keyframeId parameterId (first + (j : ℕ)))) = some (value j') := by
  rcases hg (hashKeyCode (keyframeId parameterId (first + (j : ℕ)))) with ⟨-, hnone⟩ | ⟨j', hj', hcode, hval, hlast⟩
  · exact absurd rfl (hnone j hj)
  · refine ⟨j', hj', ?_, hcode, hval⟩
    by_contra hlt
    exact hlast j hj (by omega) rfl

/-- **What is restored has no keyframe in the last frame.** -/
theorem lastFrameEmpty_of_restored (hp : IntPort p f) (hentry : FitsWidth 2 entryId)
    (hparameter : FitsWidth 2 parameterId) (hrange : HasRange f parameterId start end_ type)
    (hlt : start.toInt < end_.toInt) (hfits : HeaderFits start end_ type)
    (h : Restored p entryId parameterId start.toInt end_.toInt) : LastFrameEmpty f parameterId end_.toInt := by
  have hlast : start.toInt + ((end_.toInt - start.toInt).toNat : ℕ) = end_.toInt := by omega
  obtain ⟨packet, rlen, q, g, hpack, hunpack, hg, hq⟩ :=
    keyframeUnpack_fits hp hrange hentry hparameter hlt hfits
  obtain ⟨packet', rlen', fxEntry, q', hpack', hunpack', -, hframes⟩ := h
  obtain ⟨rfl, -⟩ := Prod.mk.inj (Option.some.inj (Except.ok.inj (hpack.symm.trans hpack')))
  obtain ⟨-, rfl⟩ := Prod.mk.inj (Option.some.inj (Except.ok.inj (hunpack.symm.trans hunpack')))
  rw [LastFrameEmpty]
  by_cases hclash : ∃ key ∈ ["start", "end", "type"],
      hashKeyCode (extract key parameterId) = hashKeyCode (keyframeId parameterId end_.toInt)
  · exact Or.inr (Or.inr hclash)
  · cases hv : f (hashKeyCode (keyframeId parameterId end_.toInt)) with
    | none => exact Or.inl rfl
    | some v =>
      have hframe := hframes end_.toInt v.toInt hlt.le le_rfl (by rw [getInt_eq hp, hv]; rfl)
      rw [getInt_eq hq, withRange_other _ _ _ fun key hkey heq => hclash ⟨key, hkey, heq⟩] at hframe
      obtain ⟨j, hj, hle, -, hval⟩ := hg.frame (Nat.lt_succ_self _)
      obtain rfl : j = (end_.toInt - start.toInt).toNat := by omega
      rw [hlast, unpackedValue, if_neg (Nat.lt_irrefl _)] at hval
      rw [hval] at hframe
      have hzero : (0 : Int32).toInt = v.toInt := Option.some.inj (Except.ok.inj hframe)
      rw [← Int32.toInt_inj.mp hzero]
      exact Or.inr (Or.inl rfl)

/-- **Keyframe round trip.**  Packing the keyframes of a parameter and unpacking the packet into an empty port
restores the range, the type and every keyframe of the range exactly if the header has room for the range and the
type and the last frame of the range has no keyframe but zero. -/
theorem keyframes_restored_iff (hp : IntPort p f) (hentry : 0 ≤ entryId ∧ entryId ≤ 20)
    (hparameter : 0 ≤ parameterId ∧ parameterId ≤ 9) (hrange : HasRange f parameterId start end_ type)
    (hlt : start.toInt < end_.toInt) :
    Restored p entryId parameterId start.toInt end_.toInt ↔
      HeaderFits start end_ type ∧ LastFrameEmpty f parameterId end_.toInt := by
  have hentryFits : FitsWidth 2 entryId := by
    rw [FitsWidth]
    omega
  have hparameterFits : FitsWidth 2 parameterId := by
    rw [FitsWidth]
    omega
  have hlast : start.toInt + ((end_.toInt - start.toInt).toNat : ℕ) = end_.toInt := by omega
  constructor
  · intro h
    have hfits := headerFits_of_restored hp hrange hentryFits hparameter h
    exact ⟨hfits, lastFrameEmpty_of_restored hp hentryFits hparameterFits hrange hlt hfits h⟩
  · rintro ⟨hfits, hempty⟩
    obtain ⟨packet, rlen, q, g, hpack, hunpack, hg, hq⟩ :=
      keyframeUnpack_fits hp hrange hentryFits hparameterFits hlt hfits
    refine ⟨packet, rlen, entryId, q, hpack, hunpack, fun key hkey => ?_, fun i v hlo hhi hv => ?_⟩
    · rw [getInt_eq hq, getInt_eq hp, withRange_key hrange hparameter g hkey]
    · rw [getInt_eq hp] at hv
      rw [getInt_eq hq, ← hv]
      congr 2
      by_cases hclash : ∃ key ∈ ["start", "end", "type"],
          hashKeyCode (extract key parameterId) = hashKeyCode (keyframeId parameterId i)
      · obtain ⟨key, hkey, hcode⟩ := hclash
        rw [← hcode, withRange_key hrange hparameter g hkey]
      · rw [withRange_other _ _ _ fun key hkey heq => hclash ⟨key, hkey, heq⟩]
        obtain ⟨w, hw, -⟩ := Option.map_eq_some_iff.mp (Except.ok.inj hv)
        obtain ⟨j, rfl⟩ : ∃ j : ℕ, i = start.toInt + (j : ℕ) := ⟨(i - start.toInt).toNat, by omega⟩
        obtain ⟨j', hj', -, hcode, hval⟩ := @Written.frame parameterId _ _ _ _ hg j (by omega)
        rw [hval, unpackedValue, hw]
        split_ifs with hin
        · rw [frameValue, hcode, hw]
          rfl
        · obtain rfl : j' = (end_.toInt - start.toInt).toNat := by omega
          rw [hlast] at hcode
          rw [LastFrameEmpty, hcode, hw] at hempty
          rcases hempty with hnone | hzero | hname
          · cases hnone
          · exact hzero.symm
          · exact absurd hname hclash

end RoundTrip

/-! ## A curve over two frames -/

/-- The map of a port after some numbers were set. -/
def mapOf (l : List (CStr × Int32)) : UInt64 → Option Int32 :=
  l.foldl (fun f kv => Function.update f (hashKeyCode kv.1) (some kv.2)) fun _ => none

theorem exists_intPort (l : List (CStr × Int32)) : ∃ p, IntPort p (mapOf l) := by
  have hfold : ∀ (l : List (CStr × Int32)) (p : Port) (f : UInt64 → Option Int32), IntPort p f →
      ∃ p', IntPort p' (l.foldl (fun f kv => Function.update f (hashKeyCode kv.1) (some kv.2)) f) := by
    intro l
    induction l with
    | nil => exact fun p f hp => ⟨p, hp⟩
    | cons kv l ih =>
      intro p f hp
      obtain ⟨a, -, ha⟩ := set_intPort hp kv.1 kv.2
      exact ih a.2 _ ha
  exact hfold l _ _ intPort_new

/-- A curve from frame 0 to frame 1, with a keyframe in frame 0 and these ones. -/
def curve (l : List (CStr × Int32)) : UInt64 → Option Int32 :=
  mapOf ([(extract "start" 0, 0), (extract "end" 0, 1), (extract "type" 0, 2), (keyframeId 0 0, 5)] ++ l)

theorem curve_hasRange : HasRange (curve []) 0 0 1 2 := ⟨by decide, by decide, by decide⟩

theorem curve_restored : ∃ p, Restored p 3 0 0 1 := by
  obtain ⟨p, hp⟩ := exists_intPort
    [(extract "start" 0, 0), (extract "end" 0, 1), (extract "type" 0, 2), (keyframeId 0 0, 5)]
  refine ⟨p, (keyframes_restored_iff hp (by decide) (by decide) curve_hasRange (by decide)).mpr ⟨?_, Or.inl ?_⟩⟩
  · exact ⟨by constructor <;> decide, by constructor <;> decide, by constructor <;> decide⟩
  · decide

/-- **A keyframe in the last frame** of the range is lost. -/
theorem lastKeyframe_lost :
    ¬ ∀ (p : Port) (f : UInt64 → Option Int32) (entryId parameterId : ℤ) (start end_ type : Int32), IntPort p f →
      0 ≤ entryId ∧ entryId ≤ 20 → 0 ≤ parameterId ∧ parameterId ≤ 9 → HasRange f parameterId start end_ type →
      start.toInt < end_.toInt → Restored p entryId parameterId start.toInt end_.toInt := by
  intro h
  obtain ⟨p, hp⟩ := exists_intPort ([(extract "start" 0, 0), (extract "end" 0, 1), (extract "type" 0, 2),
    (keyframeId 0 0, 5)] ++ [(keyframeId 0 1, 7)])
  have hrange : HasRange (curve [(keyframeId 0 1, 7)]) 0 0 1 2 := ⟨by decide, by decide, by decide⟩
  have hrestored := h p _ 3 0 0 1 2 hp (by decide) (by decide) hrange (by decide)
  have hempty := lastFrameEmpty_of_restored hp (by constructor <;> decide) (by constructor <;> decide) hrange
    (by decide) ⟨by constructor <;> decide, by constructor <;> decide, by constructor <;> decide⟩ hrestored
  rcases hempty with hnone | hzero | ⟨key, hkey, hcode⟩
  · exact absurd hnone (by decide)
  · exact absurd hzero (by decide)
  · revert hcode
    revert key
    decide

end Veejay.Keyframes
