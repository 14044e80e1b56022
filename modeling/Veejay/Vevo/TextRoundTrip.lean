import Veejay.CLib.Word
import Veejay.Vevo.Text

/-!
# Writing a port and reading it back

The text of a port is read into another port that has properties of the same names and types.  The
reader gets one element from each piece of the text, and of a string it keeps the closing quote; so what
comes back is exactly the properties with one number.

* `vevoSscanfProperty_change` — what one piece of text can do to any property, whoever wrote it;
* `vevoSscanfPort_change` — the same over a whole text;
* `vevoSprintfProperty_number`, `vevoSscanfProperty_number` — one number, written and read;
* `textRoundTrip_numbers` — **the round trip** of ports of single numbers, and why no other property that
  the target does not hold already comes back.
-/

namespace Veejay.Vevo

open CLib

/-- A well-formed port all of whose data pointers are storages. -/
structure Sound (p : Port) : Prop where
  wf : Wf p
  storages : ∀ h slot, stored p h = some slot → ∃ st, slot = .storage st

variable {lib : TextLib} {p p' : Port} {key : CStr} {h : UInt64}

theorem Sound.freeable (hp : Sound p) (h : UInt64) : Freeable p h := by
  intro slot hslot
  obtain ⟨st, rfl⟩ := hp.storages h slot hslot
  rfl

/-- The storage under a hash code. -/
def storageAt (p : Port) (h : UInt64) : Option Storage :=
  (stored p h).bind fun
    | .storage st => some st
    | .word _ => none

theorem storageAt_eq_some {st : Storage} :
    storageAt p h = some st ↔ stored p h = some (.storage st) := by
  unfold storageAt
  cases stored p h with
  | none => simp
  | some slot => cases slot <;> simp

theorem Sound.findProperty_eq (hp : Sound p) (key : CStr) :
    findProperty p key = .ok (storageAt p (hashKeyCode key)) := by
  unfold findProperty storageAt
  cases hs : stored p (hashKeyCode key) with
  | none => rfl
  | some slot =>
    obtain ⟨st, rfl⟩ := hp.storages _ slot hs
    rfl

/-- Setting a property of a sound port. -/
theorem Sound.vevoPropertySet_spec (hp : Sound p) (key : CStr) (t : AtomType) (src : List t.Elem) :
    Ensures (vevoPropertySet p key t src) fun a => a.1 = .noError ∧ Sound a.2 ∧
      ∀ h, storageAt a.2 h
        = if hashKeyCode key = h then some (storagePutAtomValue t src) else storageAt p h := by
  obtain ⟨p', hrun, hs⟩ := storeProperty_spec hp.wf key (storagePutAtomValue t src) (hp.freeable _)
  refine ⟨(.noError, p'), by rw [vevoPropertySet, hrun, ok_bind], rfl, ⟨hs.wf, ?_⟩, fun h => ?_⟩
  · intro h slot hslot
    rw [hs.stored_eq] at hslot
    split_ifs at hslot
    · exact ⟨_, (Option.some.inj hslot).symm⟩
    · exact hp.storages h slot hslot
  · unfold storageAt
    rw [hs.stored_eq]
    split_ifs <;> rfl

/-! ## The scanners -/

theorem takeWhile_append_cons {w rest : CStr} {d : UInt8} (hw : d ∉ w) :
    (w ++ d :: rest).takeWhile (· ≠ d) = w := by
  have hne : ∀ c ∈ w, decide (c ≠ d) = true := fun c hc =>
    decide_eq_true fun heq => hw (heq ▸ hc)
  rw [List.takeWhile_append_of_pos hne]
  simp

theorem takeWhile_of_not_mem {w : CStr} {d : UInt8} (hw : d ∉ w) : w.takeWhile (· ≠ d) = w :=
  List.takeWhile_eq_self_iff.mpr fun _ hc => decide_eq_true fun heq => hw (heq ▸ hc)

/-- A string is without the delimiter, or has a first one. -/
theorem split_at (s : CStr) (d : UInt8) : d ∉ s ∨ ∃ w rest, d ∉ w ∧ s = w ++ d :: rest := by
  by_cases hs : d ∈ s
  · obtain ⟨w, rest, rfl, hw⟩ := List.eq_append_cons_of_mem hs
    exact Or.inr ⟨w, rest, hw, rfl⟩
  · exact Or.inl hs

theorem vevoSplitToken_append {w rest : CStr} {d : UInt8} (hw : d ∉ w) (n : ℕ) :
    vevoSplitToken (w ++ d :: rest) d n
      = if w.length < n then .ok (some (w, rest)) else .error .outOfBounds := by
  have hlen : w.length ≠ (w ++ d :: rest).length := by simp
  simp only [vevoSplitToken, takeWhile_append_cons hw, if_neg hlen]
  rw [List.drop_append, List.drop_of_length_le (by omega)]
  simp

theorem vevoSplitToken_none {s : CStr} {d : UInt8} (hs : d ∉ s) (n : ℕ) :
    vevoSplitToken s d n = .ok none := by
  simp only [vevoSplitToken, takeWhile_of_not_mem hs, if_true]

theorem vevoScanToken_append {w rest : CStr} (hw : colon ∉ w) :
    vevoScanToken (w ++ colon :: rest) = some (w ++ [colon]) := by
  have hlen : w.length ≠ (w ++ colon :: rest).length := by simp
  simp only [vevoScanToken, takeWhile_append_cons hw, if_neg hlen]

theorem vevoScanToken_none {s : CStr} (hs : colon ∉ s) : vevoScanToken s = none := by
  simp only [vevoScanToken, takeWhile_of_not_mem hs, if_true]

/-! ## What one piece can do -/

/-- A piece of text as the reader cuts it: no `:`, but for one at the end. -/
def OnePiece (s : CStr) : Prop := ∃ w, colon ∉ w ∧ (s = w ∨ s = w ++ [colon])

theorem OnePiece.value {key value : CStr} (hs : OnePiece (key ++ equalsSign :: value)) :
    OnePiece value := by
  obtain ⟨w, hw, heq | heq⟩ := hs
  · refine ⟨value, fun hc => hw ?_, Or.inl rfl⟩
    rw [← heq]
    exact List.mem_append_right key (List.mem_cons_of_mem equalsSign hc)
  · rcases List.eq_nil_or_concat value with rfl | ⟨v, c, rfl⟩
    · exact ⟨[], List.not_mem_nil, Or.inl rfl⟩
    · have hcat : (key ++ equalsSign :: v) ++ [c] = w ++ [colon] := by
        rw [← heq]
        simp
      obtain ⟨hv, hc⟩ := List.append_inj' hcat rfl
      obtain rfl : c = colon := by simpa using hc
      refine ⟨v, fun hmem => hw ?_, Or.inr (by simp)⟩
      rw [← hv]
      exact List.mem_append_right key (List.mem_cons_of_mem equalsSign hmem)

/-- Scanning other than strings: one element, or none. -/
theorem scanElements_other {t : AtomType} (ht : t ≠ .string) {c : ℕ} (hc : 1 ≤ c) {value : CStr}
    (hv : OnePiece value) {n : ℤ} {vals : List (Option t.Elem)}
    (hscan : scanElements lib t c 0 value 0 [] = .ok (some (n, vals))) : c = 1 ∧ vals.length = 1 := by
  obtain ⟨c, rfl⟩ := Nat.exists_eq_add_of_le' hc
  rw [scanElements, if_neg ht] at hscan
  obtain ⟨w, hw, rfl | rfl⟩ := hv
  · rw [vevoSplitToken_none hw] at hscan
    simp at hscan
  · rw [vevoSplitToken_append hw] at hscan
    split_ifs at hscan
    · simp only [ok_bind, List.nil_append] at hscan
      split_ifs at hscan
      cases c with
      | zero =>
        obtain ⟨-, rfl⟩ := Prod.mk.inj (Option.some.inj (Except.ok.inj hscan))
        exact ⟨rfl, rfl⟩
      | succ c =>
        -- nothing is left for a second element
        rw [scanElements, if_neg ht, vevoSplitToken_none List.not_mem_nil] at hscan
        simp at hscan
    · simp at hscan

/-- What a string is read as: everything up to the `:`, without the opening quote. -/
def stringArg (value : CStr) : CStr := (value.takeWhile (· ≠ colon)).drop 1

theorem colon_not_mem_stringArg (value : CStr) : colon ∉ stringArg value := fun hc => by
  have hmem := List.mem_of_mem_drop hc
  simpa using List.mem_takeWhile_imp hmem

theorem vevoSplitTokenQ_eq_some {value arg rest : CStr} {n : ℕ}
    (hsplit : vevoSplitTokenQ value colon n = .ok (some (arg, rest))) :
    arg = stringArg value ∧ rest = value := by
  unfold vevoSplitTokenQ at hsplit
  dsimp only at hsplit
  split_ifs at hsplit
  · cases hsplit
  · cases hsplit
  · obtain ⟨rfl, rfl⟩ := Prod.mk.inj (Option.some.inj (Except.ok.inj hsplit))
    exact ⟨rfl, rfl⟩

theorem scanElements_string_succ (c cur : ℕ) (value : CStr) (n : ℤ)
    (vals : List (Option AtomType.string.Elem)) :
    scanElements lib .string (c + 1) cur value n vals
      = (do
        let split ← vevoSplitTokenQ value colon argLen
        match split with
        | none => .ok none
        | some (arg, p) =>
          if maxElements ≤ cur then .error .outOfBounds
          else scanElements lib .string c (cur + 1) p 1 (vals ++ [some (some arg)])) := by
  rw [scanElements, if_pos rfl]
  refine congrArg _ (funext fun split => ?_)
  rcases split with - | ⟨arg, p⟩
  · rfl
  · simp only [scanElement, Option.isSome_some, and_true]

/-- Scanning strings: the same argument for every element. -/
theorem scanElements_string {c cur : ℕ} {value : CStr} {n n' : ℤ}
    {vals vals' : List (Option AtomType.string.Elem)}
    (hscan : scanElements lib .string c cur value n vals = .ok (some (n', vals'))) :
    (c = 0 → n' = n) ∧ (1 ≤ c → n' = 1) ∧
      vals' = vals ++ List.replicate c (some (some (stringArg value))) := by
  induction c generalizing cur n vals with
  | zero =>
    obtain ⟨rfl, rfl⟩ := Prod.mk.inj (Option.some.inj (Except.ok.inj hscan))
    exact ⟨fun _ => rfl, fun h => absurd h (by decide), by simp⟩
  | succ c ih =>
    rw [scanElements_string_succ] at hscan
    obtain ⟨split, hsplit, hscan⟩ := bind_eq_ok.mp hscan
    rcases split with - | ⟨arg, p⟩
    · cases hscan
    · obtain ⟨rfl, rfl⟩ := vevoSplitTokenQ_eq_some hsplit
      dsimp only at hscan
      split_ifs at hscan
      obtain ⟨hzero, hpos, hvals⟩ := ih hscan
      refine ⟨fun h => absurd h (by omega), fun _ => ?_, ?_⟩
      · rcases Nat.eq_zero_or_pos c with h0 | h1
        · exact hzero h0
        · exact hpos h1
      · rw [hvals, List.append_assoc, List.replicate_succ]
        rfl

/-- The elements a property is set to by a scan. -/
theorem initialised_eq {t : AtomType} {vals : List (Option t.Elem)} {src : List t.Elem}
    (hi : initialised vals = .ok src) : vals = src.map some := by
  induction vals generalizing src with
  | nil =>
    obtain rfl : [] = src := Except.ok.inj hi
    rfl
  | cons v vals ih =>
    cases v with
    | none => cases hi
    | some v =>
      rw [initialised] at hi
      obtain ⟨rest, hrest, heq⟩ := bind_eq_ok.mp hi
      obtain rfl : v :: rest = src := Except.ok.inj heq
      rw [ih hrest, List.map_cons]

/-- The last call sets the property to what was scanned. -/
theorem setScanned_eq {t : AtomType} {n : ℤ} {vals : List (Option t.Elem)} {a : VevoError × Port}
    (hset : setScanned p key t n vals = .ok a) :
    ∃ src : List t.Elem, vevoPropertySet p key t src = .ok a ∧ src.length ≤ vals.length ∧
      ∀ v ∈ src, some v ∈ vals ∨ t = .hidden := by
  unfold setScanned at hset
  split_ifs at hset
  · exact ⟨[], hset, Nat.zero_le _, fun v hv => by cases hv⟩
  · obtain ⟨src, hi, hset⟩ := bind_eq_ok.mp hset
    have hvals := initialised_eq hi
    exact ⟨src, hset, by rw [hvals, List.length_map],
      fun v hv => Or.inl (hvals ▸ List.mem_map_of_mem hv)⟩
  · cases t
    case hidden =>
      exact ⟨_, hset, by rw [List.length_replicate], fun v _ => Or.inr rfl⟩
    all_goals cases hset

/-- What a piece of text can do to a property: nothing, or a new value of the same type.  Other than
strings, only a property of at most one element is set, and to at most one; strings are set to strings
without a `:`. -/
def Change (old new : Option Storage) : Prop :=
  new = old ∨ ∃ (t : AtomType) (src : List t.Elem), new = some (storagePutAtomValue t src) ∧
    t = (old.map Storage.atomType).getD .double ∧
    (t ≠ .string → (old.map fun st => st.elements.length).getD 0 ≤ 1 ∧ src.length ≤ 1) ∧
    ∀ v ∈ src, ∀ s, (⟨t, v⟩ : Data) = ⟨.string, some s⟩ → colon ∉ s

theorem Change.trans {a b c : Option Storage} (hab : Change a b) (hbc : Change b c) : Change a c := by
  rcases hab with rfl | ⟨t, src, rfl, ht, hlen, hcolon⟩
  · exact hbc
  · rcases hbc with rfl | ⟨t', src', rfl, ht', hlen', hcolon'⟩
    · exact Or.inr ⟨t, src, rfl, ht, hlen, hcolon⟩
    · have htt : t' = t := ht'
      subst htt
      exact Or.inr ⟨t', src', rfl, ht, fun hs => ⟨(hlen hs).1, (hlen' hs).2⟩, hcolon'⟩

/-- No property is a function. -/
def NoFunc (p : Port) : Prop := ∀ h st, storageAt p h = some st → st.atomType ≠ .funcptr

theorem NoFunc.of_change (hf : NoFunc p) (hc : ∀ h, Change (storageAt p h) (storageAt p' h)) :
    NoFunc p' := by
  intro h st hst
  rcases hc h with heq | ⟨t, src, heq, ht, -, -⟩
  · exact hf h st (heq ▸ hst)
  · rw [heq] at hst
    obtain rfl := Option.some.inj hst
    show t ≠ .funcptr
    rw [ht]
    cases hold : storageAt p h with
    | none => simp
    | some st => exact hf h st hold

/-- The change a scan makes to the property it was made for. -/
theorem scanned_change {old : Option Storage} {t : AtomType}
    (ht : t = (old.map Storage.atomType).getD .double) {value : CStr} (hv : OnePiece value) {n : ℤ}
    {vals : List (Option t.Elem)} {src : List t.Elem}
    (hscan : scanElements lib t (formatLen old) 0 value 0 [] = .ok (some (n, vals)))
    (hlen : src.length ≤ vals.length) (hmem : ∀ v ∈ src, some v ∈ vals ∨ t = .hidden) :
    Change old (some (storagePutAtomValue t src)) := by
  refine Or.inr ⟨t, src, rfl, ht, fun hne => ?_, fun v hv s heq => ?_⟩
  · obtain ⟨hc, hone⟩ := scanElements_other hne (Nat.le_max_left _ _) hv hscan
    refine ⟨?_, hone ▸ hlen⟩
    rw [← hc]
    exact Nat.le_max_right _ _
  · obtain ⟨rfl, hvs⟩ := Sigma.mk.inj heq
    obtain rfl := eq_of_heq hvs
    rcases hmem _ hv with hin | hhidden
    · rw [(scanElements_string hscan).2.2, List.nil_append, List.mem_replicate] at hin
      obtain rfl : s = stringArg value := by simpa using hin.2
      exact colon_not_mem_stringArg value
    · cases hhidden

/-- **One piece of text**, whoever wrote it. -/
theorem vevoSscanfProperty_change (hp : Sound p) (hf : NoFunc p) {s : CStr} (hs : OnePiece s) {r : ℤ}
    (hrun : vevoSscanfProperty lib p s = .ok (r, p')) :
    Sound p' ∧ ∀ h, Change (storageAt p h) (storageAt p' h) := by
  have hsame : Sound p ∧ ∀ h, Change (storageAt p h) (storageAt p h) := ⟨hp, fun _ => Or.inl rfl⟩
  unfold vevoSscanfProperty at hrun
  rcases split_at s equalsSign with hno | ⟨key, value, hkey, rfl⟩
  · rw [vevoSplitToken_none hno] at hrun
    obtain ⟨-, rfl⟩ := Prod.mk.inj (Except.ok.inj hrun)
    exact hsame
  · rw [vevoSplitToken_append hkey] at hrun
    split_ifs at hrun with hshort
    · simp only [ok_bind, hp.findProperty_eq] at hrun
      have htype : ((storageAt p (hashKeyCode key)).map Storage.atomType).getD .double ≠ .funcptr := by
        cases hold : storageAt p (hashKeyCode key) with
        | none => simp
        | some st => exact hf _ st hold
      rw [if_neg htype] at hrun
      obtain ⟨scanned, hscan, hrun⟩ := bind_eq_ok.mp hrun
      rcases scanned with - | ⟨n, vals⟩
      · obtain ⟨-, rfl⟩ := Prod.mk.inj (Except.ok.inj hrun)
        exact hsame
      · obtain ⟨a, hset, hrun⟩ := bind_eq_ok.mp hrun
        obtain ⟨-, rfl⟩ := Prod.mk.inj (Except.ok.inj hrun)
        obtain ⟨src, hset, hlen, hmem⟩ := setScanned_eq hset
        obtain ⟨-, hp', hstored⟩ := (hp.vevoPropertySet_spec key _ src).apply hset
        refine ⟨hp', fun h => ?_⟩
        rw [hstored]
        split_ifs with hh
        · subst hh
          exact scanned_change rfl hs.value hscan hlen hmem
        · exact Or.inl rfl
    · simp at hrun

/-- The pieces the reader cuts. -/
theorem onePiece_scanToken {s token : CStr} (h : vevoScanToken s = some token) : OnePiece token := by
  rcases split_at s colon with hno | ⟨w, rest, hw, rfl⟩
  · rw [vevoScanToken_none hno] at h
    cases h
  · rw [vevoScanToken_append hw] at h
    obtain rfl := Option.some.inj h
    exact ⟨w, hw, Or.inr rfl⟩

theorem onePiece_rest {s : CStr} (h : vevoScanToken s = none) : OnePiece s := by
  rcases split_at s colon with hno | ⟨w, rest, hw, rfl⟩
  · exact ⟨s, hno, Or.inl rfl⟩
  · rw [vevoScanToken_append hw] at h
    cases h

theorem sscanfLoop_change {fuel : ℕ} {len i r : ℤ} {s : CStr} (hp : Sound p) (hf : NoFunc p)
    (hrun : sscanfLoop lib fuel len s i p = .ok (r, p')) :
    ∀ h, Change (storageAt p h) (storageAt p' h) := by
  induction fuel generalizing len i s p with
  | zero =>
    obtain ⟨-, rfl⟩ := Prod.mk.inj (Except.ok.inj hrun)
    exact fun _ => Or.inl rfl
  | succ fuel ih =>
    rw [sscanfLoop] at hrun
    split_ifs at hrun
    · obtain ⟨-, rfl⟩ := Prod.mk.inj (Except.ok.inj hrun)
      exact fun _ => Or.inl rfl
    · cases htoken : vevoScanToken s with
      | some token =>
        rw [htoken] at hrun
        obtain ⟨⟨r', p₁⟩, hone, hrun⟩ := bind_eq_ok.mp hrun
        obtain ⟨hp₁, hchange⟩ := vevoSscanfProperty_change hp hf (onePiece_scanToken htoken) hone
        exact fun h => (hchange h).trans (ih hp₁ (hf.of_change hchange) hrun h)
      | none =>
        rw [htoken] at hrun
        obtain ⟨⟨r', p₁⟩, hone, hrun⟩ := bind_eq_ok.mp hrun
        obtain ⟨-, rfl⟩ := Prod.mk.inj (Except.ok.inj hrun)
        exact (vevoSscanfProperty_change hp hf (onePiece_rest htoken) hone).2

/-- **A whole text**, whoever wrote it. -/
theorem vevoSscanfPort_change {s : CStr} {r : ℤ} (hp : Sound p) (hf : NoFunc p)
    (hrun : vevoSscanfPort lib p s = .ok (r, p')) :
    ∀ h, Change (storageAt p h) (storageAt p' h) :=
  sscanfLoop_change hp hf hrun

/-! ## One number, written and read -/

/-- The types whose values are printed as whole numbers. -/
def AtomType.IsNumber (t : AtomType) : Prop := t = .int ∨ t = .bool ∨ t = .uint64

/-- A number as `vevo_sprintf_property` prints it. -/
def numberText : (t : AtomType) → t.Elem → CStr
  | .int, v | .bool, v => decimalInt v.toInt
  | .uint64, v => decimalInt v.toInt64.toInt
  | _, _ => []

/-- The piece of text of one property. -/
def pieceOf (key : CStr) (t : AtomType) (v : t.Elem) : CStr := key ++ equalsSign :: numberText t v

/-- The property holds these values. -/
def HoldsValues (p : Port) (k : CStr) (t : AtomType) (vals : List t.Elem) : Prop :=
  ∃ soft, storageAt p (hashKeyCode k) = some ⟨t, vals.map .data, soft⟩

/-- A printed number fits the buffers, has no `:` in it, and is read back. -/
theorem numberText_facts (lib : TextLib) {t : AtomType} (ht : t.IsNumber) (v : t.Elem) :
    colon ∉ numberText t v ∧ (numberText t v).length ≤ 21 ∧
      scanElement lib t (numberText t v) = (1, some v) := by
  have hcolon : ∀ z, colon ∉ decimalInt z := by
    intro z hz
    rcases mem_decimalInt hz with hd | hd
    · exact absurd hd (by decide)
    · exact absurd hd (by decide)
  have hscan : ∀ z, scanInt (decimalInt z) = .val z [] := fun z => by
    have h := scanInt_decimalInt z [] (by simp)
    rwa [List.append_nil] at h
  have hint : ∀ x : Int32, (decimalInt x.toInt).length ≤ 21 ∧
      Int32.ofInt (intValue x.toInt) = x := by
    intro x
    have hlo := x.le_toInt
    have hhi := x.toInt_lt
    refine ⟨decimalInt_length_le (by decide) (by norm_num; omega), ?_⟩
    rw [intValue_of_fits hlo hhi, Int32.ofInt_toInt]
  rcases ht with rfl | rfl | rfl
  · refine ⟨hcolon _, (hint v).1, ?_⟩
    simp only [scanElement, numberText, hscan, (hint v).2]
  · refine ⟨hcolon _, (hint v).1, ?_⟩
    simp only [scanElement, numberText, hscan, (hint v).2]
  · have hlo := Int64.le_toInt v.toInt64
    have hhi := Int64.toInt_lt v.toInt64
    refine ⟨hcolon _, decimalInt_length_le (by decide) (by norm_num; omega), ?_⟩
    simp only [scanElement, numberText, hscan]
    rw [longValue_of_fits hlo hhi, uint64_ofInt_toInt64]

theorem findProperty_of_holds {k : CStr} {t : AtomType} {vals : List t.Elem} {soft : Bool}
    (hk : storageAt p (hashKeyCode k) = some ⟨t, vals.map .data, soft⟩) :
    findProperty p k = .ok (some ⟨t, vals.map .data, soft⟩) := by
  rw [findProperty, storageAt_eq_some.mp hk]
  rfl

/-- **Writing one number.** -/
theorem vevoSprintfProperty_number {k : CStr} {t : AtomType} {v : t.Elem} (ht : t.IsNumber)
    (hk : HoldsValues p k t [v]) (hlen : k.length < propertyKeySize) :
    vevoSprintfProperty lib p k = .ok (some (pieceOf k t v ++ [colon])) := by
  obtain ⟨soft, hst⟩ := hk
  have hshort := (numberText_facts lib ht v).2.1
  have hfit : (k ++ [equalsSign]).take (propMaxLen - 1) = k ++ [equalsSign] := by
    refine List.take_of_length_le ?_
    simp only [List.length_append, List.length_singleton, propMaxLen, propertyKeySize] at hlen ⊢
    omega
  have htext : elementText lib k ⟨t, [v].map .data, soft⟩ 0 none
      = .ok (some (numberText t v ++ [colon], some ⟨t, v⟩)) := by
    rcases ht with rfl | rfl | rfl <;> rfl
  rw [vevoSprintfProperty, findProperty_of_holds hst, ok_bind]
  show sprintfElements lib k _ 1 0 none propMaxLen _ = _
  rw [hfit, sprintfElements, htext, ok_bind]
  dsimp only
  have hsize : 0 < (propMaxLen : ℤ) - (numberText t v ++ [colon]).length := by
    simp only [List.length_append, List.length_singleton, propMaxLen]
    omega
  have hroom : (k ++ [equalsSign]).length + (numberText t v ++ [colon]).length < propMaxLen := by
    simp only [List.length_append, List.length_singleton, propMaxLen, propertyKeySize] at hlen ⊢
    omega
  rw [if_pos hsize, if_pos hroom, sprintfElements, pieceOf]
  simp

/-- **Reading one number.** -/
theorem vevoSscanfProperty_number (lib : TextLib) {k : CStr} {t : AtomType} {v : t.Elem} {vals : List t.Elem}
    (hp : Sound p) (ht : t.IsNumber) (hk : HoldsValues p k t vals) (hone : vals.length ≤ 1)
    (hequals : equalsSign ∉ k) (hlen : k.length < propertyKeySize) :
    Ensures (vevoSscanfProperty lib p (pieceOf k t v ++ [colon])) fun a => Sound a.2 ∧
      ∀ h, storageAt a.2 h
        = if hashKeyCode k = h then some (storagePutAtomValue t [v]) else storageAt p h := by
  obtain ⟨soft, hst⟩ := hk
  obtain ⟨hcolon, hshort, hscan⟩ := numberText_facts lib ht v
  have hpiece : pieceOf k t v ++ [colon] = k ++ equalsSign :: (numberText t v ++ [colon]) := by
    simp [pieceOf]
  have hfunc : t ≠ .funcptr := by rcases ht with rfl | rfl | rfl <;> simp
  have hstring : t ≠ .string := by rcases ht with rfl | rfl | rfl <;> simp
  have hformat : formatLen (some ⟨t, vals.map .data, soft⟩) = 1 := by
    simp only [formatLen, Option.map_some, List.length_map, Option.getD_some]
    omega
  have harg : (numberText t v).length < argLen := by
    simp only [argLen]
    omega
  have helem : ¬ (maxElements ≤ 0 ∧ (some v).isSome = true) := by simp [maxElements]
  have hscanned : scanElements lib t 1 0 (numberText t v ++ [colon]) 0 [] = .ok (some (1, [some v])) := by
    rw [scanElements, if_neg hstring, vevoSplitToken_append hcolon, if_pos harg, ok_bind]
    dsimp only
    rw [hscan, if_neg helem, scanElements]
    rfl
  rw [vevoSscanfProperty, hpiece, vevoSplitToken_append hequals, if_pos hlen]
  simp only [ok_bind, findProperty_of_holds hst, Option.map_some, Option.getD_some, if_neg hfunc,
    hformat, hscanned]
  unfold setScanned
  rw [if_neg (by decide), if_pos (by decide)]
  simp only [initialised, ok_bind, ensures_bind, ensures_ok]
  exact (hp.vevoPropertySet_spec k t [v]).mono fun a ha => ha.2

/-! ## The round trip -/

/-- The names a port lists. -/
def listing (p : Port) : List CStr := (vevoListProperties p).getD []

/-- Two ports of the text types, the second with the names and types of the first. -/
structure TextPorts (s t : Port) : Prop where
  codes : ((listing s).map hashKeyCode).Nodup
  target : Sound t
  same : ∀ k ∈ listing s, ∃ (ty : AtomType) (vals vals' : List ty.Elem),
    (ty.IsNumber ∨ ty = .string) ∧ HoldsValues s k ty vals ∧ HoldsValues t k ty vals'
  only : ∀ h st, storageAt t h = some st → h ∈ (listing s).map hashKeyCode

/-- Writing the first port and reading the text into the second one restores every property. -/
def RestoresText (lib : TextLib) (s t : Port) : Prop :=
  Ensures (do
    let texts ← vevoSprintfPort lib s
    vevoSscanfPort lib t (texts.getD []).flatten) fun a =>
      ∀ k ∈ listing s, ∀ ty vals, HoldsValues s k ty vals → HoldsValues a.2 k ty vals

/-- A property that the text carries: one number, a name that survives the scanners, and at most one
element in the target. -/
def Carried (s t : Port) (k : CStr) : Prop :=
  equalsSign ∉ k ∧ colon ∉ k ∧ k.length < propertyKeySize ∧
    ∃ (ty : AtomType) (v : ty.Elem) (vals' : List ty.Elem), ty.IsNumber ∧ HoldsValues s k ty [v] ∧
      HoldsValues t k ty vals' ∧ vals'.length ≤ 1

/-- The text of a property that holds one number. -/
def propertyText (p : Port) (k : CStr) : CStr :=
  match storageAt p (hashKeyCode k) with
  | some ⟨ty, [.data v], _⟩ => pieceOf k ty v ++ [colon]
  | _ => []

/-- **The condition**: every property is carried, and the text's length fits an `int`. -/
def CarriedPort (s t : Port) : Prop :=
  (∀ k ∈ listing s, Carried s t k) ∧ ((listing s).flatMap (propertyText s)).length < 2 ^ 31

theorem HoldsValues.unique {k : CStr} {ty ty' : AtomType} {vals : List ty.Elem} {vals' : List ty'.Elem}
    (h : HoldsValues p k ty vals) (h' : HoldsValues p k ty' vals') :
    (⟨ty, vals⟩ : (t : AtomType) × List t.Elem) = ⟨ty', vals'⟩ := by
  obtain ⟨soft, hst⟩ := h
  obtain ⟨soft', hst'⟩ := h'
  obtain ⟨rfl, heq, -⟩ := Storage.mk.inj (Option.some.inj (hst.symm.trans hst'))
  have hvals : vals = vals' := List.map_injective_iff.mpr (fun a b hab => Atom.data.inj hab)
    (eq_of_heq heq)
  rw [hvals]

theorem Carried.pieces (lib : TextLib) {s t : Port} {k : CStr} (hc : Carried s t k) :
    ∃ w, colon ∉ w ∧ propertyText s k = w ++ [colon] ∧
      vevoSprintfProperty lib s k = .ok (some (w ++ [colon])) := by
  obtain ⟨-, hcolon, hlen, ty, v, vals', hty, hs, -, -⟩ := hc
  refine ⟨pieceOf k ty v, ?_, ?_, vevoSprintfProperty_number hty hs hlen⟩
  · simp only [pieceOf, List.mem_append, List.mem_cons, not_or]
    exact ⟨hcolon, by decide, (numberText_facts lib hty v).1⟩
  · obtain ⟨soft, hst⟩ := hs
    rw [propertyText, hst]
    rfl

/-- The writer writes the pieces one after the other. -/
theorem sprintfKeys_carried (lib : TextLib) {s t : Port} {ks : List CStr} (hc : ∀ k ∈ ks, Carried s t k) :
    ∃ texts, sprintfKeys lib s ks = .ok texts ∧ texts.flatten = ks.flatMap (propertyText s) := by
  induction ks with
  | nil => exact ⟨[], rfl, rfl⟩
  | cons k ks ih =>
    obtain ⟨texts, hrun, htexts⟩ := ih fun k' hk' => hc k' (List.mem_cons_of_mem k hk')
    obtain ⟨w, -, htext, hwrite⟩ := (hc k List.mem_cons_self).pieces lib
    refine ⟨(w ++ [colon]) :: texts, ?_, ?_⟩
    · rw [sprintfKeys, hwrite, ok_bind, hrun]
      rfl
    · rw [List.flatten_cons, htexts, List.flatMap_cons, htext]

/-- One step of the reader's loop. -/
theorem sscanfLoop_piece {w rest : CStr} (hw : colon ∉ w) (fuel : ℕ) (i : ℤ) (p : Port) :
    sscanfLoop lib (fuel + 1) ((w ++ [colon]) ++ rest).length ((w ++ [colon]) ++ rest) i p
      = (do
        let a ← vevoSscanfProperty lib p (w ++ [colon])
        sscanfLoop lib fuel rest.length rest (i + a.1) a.2) := by
  have hscan : vevoScanToken ((w ++ [colon]) ++ rest) = some (w ++ [colon]) := by
    rw [List.append_assoc, List.singleton_append, vevoScanToken_append hw]
  have hpos : ¬ ((((w ++ [colon]) ++ rest).length : ℤ) ≤ 0) := by
    simp only [List.length_append, List.length_singleton]
    omega
  rw [sscanfLoop, if_neg hpos, hscan]
  dsimp only
  rw [List.drop_left]
  refine congrArg _ (funext fun a => ?_)
  rw [@List.length_append _ (w ++ [colon])]
  congr 1
  omega

/-- **The reader takes the pieces one after the other.** -/
theorem sscanfLoop_carried {s : Port} {ks : List CStr} :
    ∀ {p : Port} {fuel : ℕ} {i : ℤ}, (ks.map hashKeyCode).Nodup → Sound p →
      (∀ k ∈ ks, Carried s p k) → (ks.flatMap (propertyText s)).length < fuel →
      Ensures (sscanfLoop lib fuel (ks.flatMap (propertyText s)).length (ks.flatMap (propertyText s)) i p)
        fun a => (∀ k ∈ ks, ∀ ty vals, HoldsValues s k ty vals → HoldsValues a.2 k ty vals) ∧
          ∀ h, h ∉ ks.map hashKeyCode → storageAt a.2 h = storageAt p h := by
  induction ks with
  | nil =>
    intro p fuel i _ _ _ hfuel
    obtain ⟨fuel, rfl⟩ := Nat.exists_eq_add_of_lt hfuel
    refine ⟨(i, p), ?_, fun k hk => (by cases hk), fun _ _ => rfl⟩
    simp [sscanfLoop]
  | cons k ks ih =>
    intro p fuel i hnodup hp hc hfuel
    obtain ⟨hnot, hnodup⟩ := List.nodup_cons.mp hnodup
    obtain ⟨w, hw, htext, -⟩ := (hc k List.mem_cons_self).pieces lib
    obtain ⟨hequals, -, hlen, ty, v, vals', hty, hs, ht, hone⟩ := hc k List.mem_cons_self
    have hpiece : w ++ [colon] = pieceOf k ty v ++ [colon] := by
      obtain ⟨soft, hst⟩ := hs
      rw [← htext, propertyText, hst]
      rfl
    obtain ⟨fuel, rfl⟩ := Nat.exists_eq_add_of_lt hfuel
    obtain ⟨⟨r, p₁⟩, hone, hp₁, hset⟩ :=
      vevoSscanfProperty_number lib (v := v) hp hty ht hone hequals hlen
    have hother : ∀ k' ∈ ks, storageAt p₁ (hashKeyCode k') = storageAt p (hashKeyCode k') := by
      intro k' hk'
      rw [hset, if_neg]
      exact fun heq => hnot (heq ▸ List.mem_map_of_mem hk')
    have hcarried : ∀ k' ∈ ks, Carried s p₁ k' := by
      intro k' hk'
      obtain ⟨he, hcol, hl, ty', v', vals'', hty', hs', ⟨soft, ht'⟩, hone'⟩ :=
        hc k' (List.mem_cons_of_mem k hk')
      exact ⟨he, hcol, hl, ty', v', vals'', hty', hs', ⟨soft, (hother k' hk').trans ht'⟩, hone'⟩
    have hrest := @ih p₁ (((w ++ [colon]) ++ ks.flatMap (propertyText s)).length + fuel) (i + r)
      hnodup hp₁ hcarried (by
        rw [List.length_append, List.length_append, List.length_singleton]
        omega)
    rw [List.flatMap_cons, htext, sscanfLoop_piece hw, hpiece, hone, ok_bind, ← hpiece]
    refine hrest.mono fun a ha => ⟨fun k' hk' ty' vals hvals => ?_, fun h hh => ?_⟩
    · rcases List.mem_cons.mp hk' with rfl | hk'
      · -- later pieces are of other hash codes
        have hkept := ha.2 _ hnot
        rw [hset, if_pos rfl] at hkept
        cases hs.unique hvals
        exact ⟨false, hkept⟩
      · exact ha.1 k' hk' ty' vals hvals
    · rw [List.map_cons, List.mem_cons, not_or] at hh
      rw [ha.2 h hh.2, hset, if_neg (Ne.symm hh.1)]

/-- The port is written as its pieces. -/
theorem vevoSprintfPort_carried (lib : TextLib) {s t : Port} (hc : ∀ k ∈ listing s, Carried s t k) :
    ∃ texts, vevoSprintfPort lib s = .ok texts ∧
      (texts.getD []).flatten = (listing s).flatMap (propertyText s) := by
  unfold vevoSprintfPort
  split_ifs with hzero
  · have hlist : listing s = [] := by
      have hindex : s.index = [] := List.length_eq_zero_iff.mp hzero
      simp [listing, vevoListProperties, hindex]
    exact ⟨none, rfl, by rw [hlist]; rfl⟩
  · obtain ⟨texts, hrun, htexts⟩ := sprintfKeys_carried lib hc
    refine ⟨some texts, ?_, htexts⟩
    show (do
      let res ← sprintfKeys lib s (listing s)
      Except.ok (some res)) = _
    rw [hrun]
    rfl

theorem restoresText_of_carried {s t : Port} (hst : TextPorts s t) (hc : CarriedPort s t) :
    RestoresText lib s t := by
  obtain ⟨texts, hwrite, htexts⟩ := vevoSprintfPort_carried lib hc.1
  rw [RestoresText, hwrite, ok_bind, htexts, vevoSscanfPort]
  have hlen : (((listing s).flatMap (propertyText s)).length : ℤ).bmod (2 ^ 32)
      = ((listing s).flatMap (propertyText s)).length := by
    have hfit := hc.2
    rw [Int.bmod_eq_of_le] <;> omega
  rw [hlen]
  exact (sscanfLoop_carried hst.codes hst.target hc.1 (Nat.lt_succ_self _)).mono fun a ha => ha.1

/-- What does not come back, whatever else is in the text: a property other than a string of two or more
elements on either side, and a string with a `:` — unless the target held the values before. -/
def Recoverable (ty : AtomType) (vals vals' : List ty.Elem) : Prop :=
  (ty ≠ .string → vals.length ≤ 1 ∧ vals'.length ≤ 1) ∧
    ∀ v ∈ vals, ∀ str, (⟨ty, v⟩ : Data) = ⟨.string, some str⟩ → colon ∉ str

theorem recoverable_of_restores {s t : Port} (hst : TextPorts s t) (hr : RestoresText lib s t)
    {k : CStr} (hk : k ∈ listing s) {ty : AtomType} {vals vals' : List ty.Elem}
    (hs : HoldsValues s k ty vals) (ht : HoldsValues t k ty vals') (hne : vals' ≠ vals) :
    Recoverable ty vals vals' := by
  have hnofunc : NoFunc t := by
    intro h st hstore hfunc
    obtain ⟨k', hk', rfl⟩ := List.mem_map.mp (hst.only h st hstore)
    obtain ⟨ty', vals, vals', hty', -, soft, ht'⟩ := hst.same k' hk'
    obtain rfl := Option.some.inj (ht'.symm.trans hstore)
    obtain rfl : ty' = .funcptr := hfunc
    rcases hty' with (h | h | h) | h <;> cases h
  obtain ⟨⟨r, t'⟩, hrun, hall⟩ := hr
  obtain ⟨texts, -, hread⟩ := bind_eq_ok.mp hrun
  have hchange := vevoSscanfPort_change hst.target hnofunc hread (hashKeyCode k)
  obtain ⟨soft, hnew⟩ := hall k hk ty vals hs
  obtain ⟨soft', hold⟩ := ht
  dsimp only at hnew
  rw [hnew, hold] at hchange
  rcases hchange with heq | ⟨ty', src, heq, hty', hlen, hcolon⟩
  · obtain ⟨-, hvals, -⟩ := Storage.mk.inj (Option.some.inj heq)
    exact absurd (List.map_injective_iff.mpr (fun a b hab => Atom.data.inj hab)
      (eq_of_heq hvals)).symm hne
  · obtain rfl : ty' = ty := hty'
    obtain ⟨-, hvals, -⟩ := Storage.mk.inj (Option.some.inj heq)
    obtain rfl : vals = src := List.map_injective_iff.mpr (fun a b hab => Atom.data.inj hab)
      (eq_of_heq hvals)
    refine ⟨fun hstr => ?_, hcolon⟩
    have hboth := hlen hstr
    simp only [Option.map_some, List.length_map, Option.getD_some] at hboth
    exact ⟨hboth.2, hboth.1⟩

/-- **The text round trip.**  Every property that the text carries comes back; of the others, none that
is not recoverable does, unless the target holds its values already. -/
theorem textRoundTrip_numbers (lib : TextLib) {s t : Port} (hst : TextPorts s t) :
    (CarriedPort s t → RestoresText lib s t) ∧
    (RestoresText lib s t → ∀ k ∈ listing s, ∀ (ty : AtomType) (vals vals' : List ty.Elem),
      HoldsValues s k ty vals → HoldsValues t k ty vals' → vals' ≠ vals →
        Recoverable ty vals vals') :=
  ⟨restoresText_of_carried hst, fun hr _ hk _ _ _ hs ht hne =>
    recoverable_of_restores hst hr hk hs ht hne⟩

/-- A port of list type with one property. -/
def onePort (key : CStr) (t : AtomType) (src : List t.Elem) : Port where
  table := none
  list := [{ key := hashKeyCode key, st := storagePutAtomValue t src }]
  index := [{ key := key, hashCode := hashKeyCode key }]

theorem storageAt_onePort (key : CStr) (t : AtomType) (src : List t.Elem) (h : UInt64) :
    storageAt (onePort key t src) h
      = if hashKeyCode key = h then some (storagePutAtomValue t src) else none := by
  unfold storageAt stored onePort propNodeGet
  by_cases hk : hashKeyCode key = h <;> simp [Chain.find, hk]

theorem textPorts_onePort (key : CStr) {t : AtomType} (ht : t.IsNumber ∨ t = .string)
    (src dst : List t.Elem) : TextPorts (onePort key t src) (onePort key t dst) where
  codes := List.nodup_singleton _
  target := by
    refine ⟨⟨List.nodup_singleton _, fun t ht => by cases ht⟩, fun h slot hslot => ?_⟩
    rw [stored_of_list rfl] at hslot
    obtain ⟨n, -, rfl⟩ := Option.map_eq_some_iff.mp hslot
    exact ⟨n.st, rfl⟩
  same := by
    intro k hk
    obtain rfl : k = key := List.mem_singleton.mp hk
    refine ⟨t, src, dst, ht, ⟨false, ?_⟩, ⟨false, ?_⟩⟩
    · rw [storageAt_onePort, if_pos rfl]
      rfl
    · rw [storageAt_onePort, if_pos rfl]
      rfl
  only := by
    intro h st hst
    rw [storageAt_onePort] at hst
    split_ifs at hst with hk
    exact List.mem_singleton.mpr hk.symm

/-- A text library for ports without doubles, port pointers and functions. -/
def plainLib : TextLib where
  formatDouble := fun _ => []
  scanDouble := fun _ => (0, none)
  portText := fun _ => none
  callProperty := fun p _ _ => .ok (0, p)

theorem restoresText_onePort : RestoresText plainLib (onePort [97] .int [-5]) (onePort [97] .int [7]) := by
  refine (textRoundTrip_numbers plainLib (textPorts_onePort [97] (Or.inl (Or.inl rfl)) [-5] [7])).1 ?_
  refine ⟨fun k hk => ?_, by decide⟩
  obtain rfl : k = [97] := List.mem_singleton.mp hk
  exact ⟨by decide, by decide, by decide, .int, -5, [7], Or.inl rfl, ⟨false, rfl⟩, ⟨false, rfl⟩, le_rfl⟩

/-- **Two numbers do not come back**: the reader is given the first of them only. -/
theorem not_restoresText_pair :
    ¬ ∀ (lib : TextLib) (s t : Port), TextPorts s t → RestoresText lib s t := by
  intro h
  have hst := textPorts_onePort [97] (Or.inl (Or.inl rfl) : AtomType.int.IsNumber ∨ _) [1, 2] [0, 0]
  have hrec := recoverable_of_restores hst (h plainLib _ _ hst) (k := [97]) (List.mem_singleton_self _)
    ⟨false, rfl⟩ ⟨false, rfl⟩ (by decide)
  exact absurd (hrec.1 (by decide)).1 (by decide)

end Veejay.Vevo
