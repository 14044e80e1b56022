import Veejay.Client.Receive

/-!
# The list of effects

The server sends the whole table of effects in one reply (`vj_event_send_effect_list`): it adds up the bytes first, with
a function of its own, and prints each effect then.  The client takes the list apart (`load_effectlist_info`,
`_effect_new`).

* `vjEffectGetSummaryLen`, `vjEffectGetSummary`, `vjEventSendEffectList` — the reply;
* `effectNew`, `loadEffectlistInfo` — what the client makes of it;
* `effectNew_summary` — **one effect** comes through where its fields are wide enough;
* `effectSize_le_of_read` — an effect that was read from a line is no longer than the line, but for one field;
* `effectList_iff` — **the list comes through** exactly where all of its fields are wide enough.
-/

namespace Veejay.Client

open CLib

/-! ## The server -/

/-- `FX_LIMIT` -/
def fxLimit : ℕ := 1024

/-- `MAX_EFFECTS` -/
def maxEffects : ℕ := 140

/-- `VJ_VIDEO_COUNT` -/
def vjVideoCount : ℕ := 48

/-- `SAMPLE_MAX_PARAMETERS` -/
def sampleMaxParameters : ℕ := 32

/-- A parameter of an effect. -/
structure EffectParam where
  min : ℤ
  max : ℤ
  default : ℤ
  description : CStr
  deriving DecidableEq

/-- A number of type `int`. -/
def IsInt (z : ℤ) : Prop := -2 ^ 31 ≤ z ∧ z < 2 ^ 31

instance (z : ℤ) : Decidable (IsInt z) := inferInstanceAs (Decidable (_ ∧ _))

/-- An effect, as far as the list tells of it. -/
structure VjEffect where
  description : CStr
  extraFrame : ℤ
  rgbConv : ℤ
  params : List EffectParam
  params_le : params.length ≤ sampleMaxParameters
  extraFrame_int : IsInt extraFrame
  rgbConv_int : IsInt rgbConv
  params_int : ∀ q ∈ params, IsInt q.min ∧ IsInt q.max ∧ IsInt q.default
  text : (0 : UInt8) ∉ description
  params_text : ∀ q ∈ params, (0 : UInt8) ∉ q.description

/-- `vj_effects`, up to `vj_effect_max_effects ()`: the effects and the plugins. -/
structure EffectTable where
  effects : List (Option VjEffect)
  limit : effects.length ≤ fxLimit

/-- The entries that are listed: the first one is not. -/
def EffectTable.entries (t : EffectTable) : List (Option VjEffect × ℕ) := t.effects.zipIdx.tail

/-- `vj_effect_get_real_id` of an entry of the table. -/
def vjEffectGetRealId (i : ℕ) : ℤ :=
  if 0 < i ∧ i < vjVideoCount then i + 200
  else if vjVideoCount ≤ i ∧ i < maxEffects then i - vjVideoCount + 100
  else if maxEffects ≤ i then i - maxEffects + 500
  else 0

/-- The bytes of an effect in the list, behind the length of its line. -/
def effectSize (description : CStr) (params : List EffectParam) : ℕ :=
  description.length + 10 + (params.map fun q => 21 + q.description.length).sum

/-- `vj_effect_get_summary_len` -/
def vjEffectGetSummaryLen : Option VjEffect → ℕ
  | none => 0
  | some e =>
    e.description.length + 3 + 3 + 1 + 1 + 2 + 3 + e.params.length * 18 +
      (e.params.map fun q => q.description.length + 3).sum

/-- `%06d%06d%06d%03zu%s` of a parameter. -/
def paramText (q : EffectParam) : CStr :=
  zeroPaddedInt 6 q.min ++ (zeroPaddedInt 6 q.max ++ (zeroPaddedInt 6 q.default ++ counted 3 q.description))

/-- `%03zu%s%03d%1d%1d%02d` of an effect. -/
def effectText (i : ℕ) (e : VjEffect) : CStr :=
  counted 3 e.description ++ (zeroPaddedInt 3 (vjEffectGetRealId i) ++ (decimalInt e.extraFrame ++
    (decimalInt e.rgbConv ++ zeroPadded 2 e.params.length)))

/-- `vj_effect_get_summary`; it reads the number of parameters before it looks whether there is an effect. -/
def vjEffectGetSummary : Option VjEffect × ℕ → Exec CStr
  | (none, _) => .error .nullPointer
  | (some e, i) => do
    let dst ← printInto 4096 (effectText i e)
    e.params.foldlM (fun dst q => appendInto 4096 dst ((paramText q).take 4095)) dst

/-- The bytes that `vj_event_send_effect_list` announces. -/
def announcedLen (t : EffectTable) : ℕ := (t.entries.map fun p => vjEffectGetSummaryLen p.1).sum

/-- `vj_event_send_effect_list` -/
def vjEventSendEffectList (t : EffectTable) : Exec CStr := do
  let privMsg ← printInto (6 + announcedLen t + 4096) (zeroPadded 6 (announcedLen t))
  t.entries.foldlM (fun privMsg p => do
    let line ← vjEffectGetSummary p
    appendInto (6 + announcedLen t + 4096) privMsg ((counted 3 line).take 4095)) privMsg

/-! ## The client -/

/-- `effect_constr`: what the client knows of an effect. -/
structure EffectConstr where
  id : ℤ
  description : CStr
  isVideo : ℤ
  hasRgb : ℤ
  numArg : ℤ
  params : List EffectParam
  deriving DecidableEq

/-- The loop of `_effect_new` over the parameters, from parameter `p` on, at `offset`. -/
def effectParams (line : CStr) : ℕ → ℕ → ℕ → Exec (List EffectParam)
  | 0, _, _ => .ok []
  | left + 1, p, offset =>
    let values := scanFields [6, 6, 6, 3] (line.drop offset)
    if values = [] then .ok []
    else if p < sampleMaxParameters then do
      let len := values.getD 3 0
      let description ← copyInto (len + 1).toNat (line.drop (offset + 21)) len
      let rest ← effectParams line left (p + 1) (offset + 21 + len.toNat)
      .ok (⟨values.getD 0 0, values.getD 1 0, values.getD 2 0, description⟩ :: rest)
    else .error .overrun

/-- `_effect_new` -/
def effectNew (line : CStr) : Exec (List EffectConstr) :=
  let descrLen := (scanFields [3] (line.take 3)).getD 0 0
  if descrLen ≤ 0 then .ok []
  else do
    let description ← copyInto 150 (line.drop 3) descrLen
    let values := scanFields [3, 1, 1, 2] (line.drop (descrLen.toNat + 3))
    let params ← effectParams line (values.getD 3 0).toNat 0 (descrLen.toNat + 10)
    .ok [⟨values.getD 0 0, description, values.getD 1 0, values.getD 2 0, values.getD 3 0, params⟩]

/-- `load_effectlist_info`: the effects it reads. -/
def loadEffectlistInfo (fuel : ℕ) : Option CStr → Exec (List EffectConstr)
  | none => .ok []
  | some fxtext => loadRecords 4096 effectNew fuel fxtext

/-- What is to be read of an effect. -/
def effectConstr (e : VjEffect) (i : ℕ) : EffectConstr :=
  ⟨vjEffectGetRealId i, e.description, e.extraFrame, e.rgbConv, e.params.length, e.params⟩

/-- The effects of the table, with their places in it. -/
def EffectTable.listed (t : EffectTable) : List (VjEffect × ℕ) :=
  t.entries.filterMap fun p => p.1.map fun e => (e, p.2)

/-- The list of effects comes through: the total that is announced is the number of bytes that follow, and the client
reads every effect as it is. -/
def EffectListRecovered (t : EffectTable) : Prop :=
  ∃ reply fxtext, vjEventSendEffectList t = .ok reply ∧ Framed 6 reply ∧ recvVims 6 reply = some (fxtext, []) ∧
    ∀ fuel, reply.length ≤ fuel → loadEffectlistInfo fuel fxtext = .ok (t.listed.map fun p => effectConstr p.1 p.2)

/-! ## One effect -/

/-- The fields of an effect are wide enough for it. -/
structure FieldsFit (e : VjEffect) (i : ℕ) : Prop where
  id : Fits 3 (vjEffectGetRealId i)
  extraFrame : Fits 1 e.extraFrame
  rgbConv : Fits 1 e.rgbConv
  params : ∀ q ∈ e.params, Fits 6 q.min ∧ Fits 6 q.max ∧ Fits 6 q.default
  line : effectSize e.description e.params < 1000

/-- The summary of an effect. -/
def summary (e : VjEffect) (i : ℕ) : CStr := effectText i e ++ (e.params.map paramText).flatten

theorem vjEffectGetSummaryLen_eq (e : VjEffect) :
    vjEffectGetSummaryLen (some e) = 3 + effectSize e.description e.params := by
  have hsum : (e.params.map fun q => 21 + q.description.length).sum =
      e.params.length * 18 + (e.params.map fun q => q.description.length + 3).sum := by
    induction e.params with
    | nil => rfl
    | cons q qs ih =>
      rw [List.map_cons, List.map_cons, List.sum_cons, List.sum_cons, List.length_cons, ih]
      ring
  rw [vjEffectGetSummaryLen, effectSize, hsum]
  ring

theorem le_paramText_length (q : EffectParam) : 21 + q.description.length ≤ (paramText q).length := by
  have h1 := le_zeroPaddedInt_length 6 q.min
  have h2 := le_zeroPaddedInt_length 6 q.max
  have h3 := le_zeroPaddedInt_length 6 q.default
  have h4 := le_counted_length 3 q.description
  rw [paramText, List.length_append, List.length_append, List.length_append]
  omega

/-- **A parameter keeps its size exactly where its fields are wide enough.** -/
theorem paramText_length_iff {q : EffectParam} :
    (paramText q).length = 21 + q.description.length ↔
      (Fits 6 q.min ∧ Fits 6 q.max ∧ Fits 6 q.default) ∧ q.description.length < 1000 := by
  have h1 := le_zeroPaddedInt_length 6 q.min
  have h2 := le_zeroPaddedInt_length 6 q.max
  have h3 := le_zeroPaddedInt_length 6 q.default
  have h4 := le_counted_length 3 q.description
  have i4 := @counted_length_iff 3 q.description (by decide)
  rw [← zeroPaddedInt_length_iff (by decide), ← zeroPaddedInt_length_iff (by decide),
    ← zeroPaddedInt_length_iff (by decide), ← show 10 ^ 3 = 1000 from rfl, ← i4, paramText, List.length_append,
    List.length_append, List.length_append]
  omega

theorem le_effectText_length (e : VjEffect) (i : ℕ) : e.description.length + 10 ≤ (effectText i e).length := by
  have h1 := le_counted_length 3 e.description
  have h2 := le_zeroPaddedInt_length 3 (vjEffectGetRealId i)
  have h3 := le_zeroPaddedInt_length 1 e.extraFrame
  have h4 := le_zeroPaddedInt_length 1 e.rgbConv
  have h5 := le_zeroPadded_length 2 e.params.length
  rw [effectText, decimalInt_eq, decimalInt_eq, List.length_append, List.length_append, List.length_append,
    List.length_append]
  omega

theorem effectText_length_iff {e : VjEffect} {i : ℕ} :
    (effectText i e).length = e.description.length + 10 ↔
      Fits 3 (vjEffectGetRealId i) ∧ Fits 1 e.extraFrame ∧ Fits 1 e.rgbConv ∧ e.description.length < 1000 := by
  have h1 := le_counted_length 3 e.description
  have h2 := le_zeroPaddedInt_length 3 (vjEffectGetRealId i)
  have h3 := le_zeroPaddedInt_length 1 e.extraFrame
  have h4 := le_zeroPaddedInt_length 1 e.rgbConv
  have h5 : (zeroPadded 2 e.params.length).length = 2 := by
    have := e.params_le
    rw [sampleMaxParameters] at this
    exact zeroPadded_length (by decide) (by omega)
  have i1 := @counted_length_iff 3 e.description (by decide)
  rw [← zeroPaddedInt_length_iff (by decide), ← zeroPaddedInt_length_iff (by decide),
    ← zeroPaddedInt_length_iff (by decide), ← show 10 ^ 3 = 1000 from rfl, ← i1, effectText, decimalInt_eq,
    decimalInt_eq, List.length_append, List.length_append, List.length_append, List.length_append]
  omega

/-- Sums of sizes that are bounded one by one are equal only where all sizes are. -/
theorem map_eq_of_sum_le {β : Type} {f g : β → ℕ} {l : List β} (hle : ∀ b ∈ l, f b ≤ g b)
    (hsum : (l.map g).sum ≤ (l.map f).sum) : ∀ b ∈ l, g b = f b := by
  induction l with
  | nil => exact fun b hb => absurd hb List.not_mem_nil
  | cons a l ih =>
    rw [List.map_cons, List.map_cons, List.sum_cons, List.sum_cons] at hsum
    have ha := hle a List.mem_cons_self
    have hrest : (l.map f).sum ≤ (l.map g).sum :=
      List.sum_le_sum fun b hb => hle b (List.mem_cons_of_mem _ hb)
    have htail := ih (fun b hb => hle b (List.mem_cons_of_mem _ hb)) (by omega)
    intro b hb
    rcases List.mem_cons.mp hb with rfl | hb
    · omega
    · exact htail b hb

theorem length_flatten_map {β : Type} (l : List β) (f : β → CStr) :
    (l.map f).flatten.length = (l.map fun b => (f b).length).sum := by
  rw [List.length_flatten, List.map_map]
  rfl

theorem le_summary_length (e : VjEffect) (i : ℕ) : effectSize e.description e.params ≤ (summary e i).length := by
  have h1 := le_effectText_length e i
  have h2 : (e.params.map fun q => 21 + q.description.length).sum ≤ (e.params.map fun q => (paramText q).length).sum :=
    List.sum_le_sum fun q _ => le_paramText_length q
  rw [summary, effectSize, List.length_append, length_flatten_map]
  omega

/-- **An effect keeps its size exactly where its fields are wide enough.** -/
theorem fieldsFit_iff {e : VjEffect} {i : ℕ} :
    FieldsFit e i ↔ (summary e i).length = effectSize e.description e.params ∧
      effectSize e.description e.params < 1000 := by
  have h1 := le_effectText_length e i
  have hparams : ∀ q ∈ e.params, 21 + q.description.length ≤ (paramText q).length := fun q _ => le_paramText_length q
  have h2 := List.sum_le_sum hparams
  rw [summary, effectSize, List.length_append, length_flatten_map]
  constructor
  · intro h
    have hline := h.line
    rw [effectSize] at hline
    have hdescr : ∀ q ∈ e.params, q.description.length < 1000 := by
      intro q hq
      have := List.single_le_sum (fun _ _ => Nat.zero_le _) _
        (List.mem_map.mpr ⟨q, hq, rfl⟩ : _ ∈ e.params.map fun q => 21 + q.description.length)
      omega
    have htext := effectText_length_iff.mpr ⟨h.id, h.extraFrame, h.rgbConv, (by omega)⟩
    have hall : (e.params.map fun q => (paramText q).length) = e.params.map fun q => 21 + q.description.length :=
      List.map_congr_left fun q hq => paramText_length_iff.mpr ⟨h.params q hq, hdescr q hq⟩
    rw [hall]
    exact ⟨by omega, hline⟩
  · rintro ⟨hlen, hline⟩
    have htext : (effectText i e).length = e.description.length + 10 := by omega
    obtain ⟨hid, hextra, hrgb, -⟩ := effectText_length_iff.mp htext
    have hall := map_eq_of_sum_le hparams (by omega)
    exact ⟨hid, hextra, hrgb, fun q hq => (paramText_length_iff.mp (hall q hq)).1, hline⟩

theorem summary_no_zero (e : VjEffect) (i : ℕ) : (0 : UInt8) ∉ summary e i := by
  have hparams : (0 : UInt8) ∉ (e.params.map paramText).flatten := by
    intro h
    obtain ⟨t, ht, h0⟩ := List.mem_flatten.mp h
    obtain ⟨q, hq, rfl⟩ := List.mem_map.mp ht
    rw [paramText, List.mem_append, List.mem_append, List.mem_append] at h0
    rcases h0 with h0 | h0 | h0 | h0
    · exact zeroPaddedInt_no_zero _ _ h0
    · exact zeroPaddedInt_no_zero _ _ h0
    · exact zeroPaddedInt_no_zero _ _ h0
    · exact counted_no_zero (e.params_text q hq) h0
  rw [summary, effectText, decimalInt_eq, decimalInt_eq]
  simp only [List.mem_append, not_or]
  exact ⟨⟨counted_no_zero e.text, zeroPaddedInt_no_zero _ _, zeroPaddedInt_no_zero _ _, zeroPaddedInt_no_zero _ _,
    zeroPadded_no_zero _ _⟩, hparams⟩

/-- The fields of one parameter. -/
theorem scanFields_paramText {q : EffectParam} (hfit : Fits 6 q.min ∧ Fits 6 q.max ∧ Fits 6 q.default)
    (hlen : q.description.length < 1000) (rest : CStr) :
    scanFields [6, 6, 6, 3] (paramText q ++ rest) = [q.min, q.max, q.default, (q.description.length : ℤ)] := by
  have hint : ∀ {z : ℤ}, Fits 6 z → -2 ^ 31 ≤ z ∧ z < 2 ^ 31 := by
    intro z hz
    obtain ⟨hlo, hhi⟩ := hz
    exact ⟨by omega, by omega⟩
  obtain ⟨hmin, hmax, hdefault⟩ := hfit
  rw [paramText, List.append_assoc, List.append_assoc, List.append_assoc,
    scanFields_cons (by decide) hmin (hint hmin), scanFields_cons (by decide) hmax (hint hmax),
    scanFields_cons (by decide) hdefault (hint hdefault), counted, List.append_assoc,
    scanFields_cons_nat (by decide) (by omega) (by omega)]
  rfl

/-- **The parameters of an effect**, from one of them on. -/
theorem effectParams_texts {qs : List EffectParam}
    (hfit : ∀ q ∈ qs, (Fits 6 q.min ∧ Fits 6 q.max ∧ Fits 6 q.default) ∧ q.description.length < 1000)
    (htext : ∀ q ∈ qs, (0 : UInt8) ∉ q.description) {line front : CStr}
    (hline : line = front ++ (qs.map paramText).flatten) {p : ℕ} (hp : p + qs.length ≤ sampleMaxParameters) :
    effectParams line qs.length p front.length = .ok qs := by
  induction qs generalizing front p with
  | nil => rfl
  | cons q qs ih =>
    obtain ⟨hq, hlen⟩ := hfit q List.mem_cons_self
    have hsize := paramText_length_iff.mpr ⟨hq, hlen⟩
    rw [List.map_cons, List.flatten_cons] at hline
    rw [List.length_cons] at hp
    have hscan : scanFields [6, 6, 6, 3] (line.drop front.length) =
        [q.min, q.max, q.default, (q.description.length : ℤ)] := by
      rw [hline, List.drop_left]
      exact scanFields_paramText hq hlen _
    have hdrop : line.drop (front.length + 21) = q.description ++ (qs.map paramText).flatten := by
      have hnumbers : (front ++ (zeroPaddedInt 6 q.min ++ (zeroPaddedInt 6 q.max ++ (zeroPaddedInt 6 q.default ++
          zeroPadded 3 q.description.length)))).length = front.length + 21 := by
        simp only [List.length_append]
        rw [(zeroPaddedInt_length_iff (by decide)).mpr hq.1, (zeroPaddedInt_length_iff (by decide)).mpr hq.2.1,
          (zeroPaddedInt_length_iff (by decide)).mpr hq.2.2, zeroPadded_length (by decide) (by omega)]
      have hsplit : line = (front ++ (zeroPaddedInt 6 q.min ++ (zeroPaddedInt 6 q.max ++ (zeroPaddedInt 6 q.default ++
          zeroPadded 3 q.description.length)))) ++ (q.description ++ (qs.map paramText).flatten) := by
        rw [hline, paramText, counted]
        simp only [List.append_assoc]
      rw [hsplit]
      exact List.drop_left' hnumbers
    have hnext : line = (front ++ paramText q) ++ (qs.map paramText).flatten := by rw [hline, List.append_assoc]
    have hrest := ih (fun q hq => hfit q (List.mem_cons_of_mem _ hq)) (fun q hq => htext q (List.mem_cons_of_mem _ hq))
      hnext (show p + 1 + qs.length ≤ sampleMaxParameters by omega)
    rw [List.length_append, hsize] at hrest
    rw [List.length_cons, effectParams, hscan]
    show (if [q.min, q.max, q.default, (q.description.length : ℤ)] = [] then _ else _) = _
    rw [if_neg (List.cons_ne_nil _ _), if_pos (by omega)]
    show (copyInto ((q.description.length : ℤ) + 1).toNat (line.drop (front.length + 21)) q.description.length >>= _) = _
    rw [hdrop, copyInto_append _ (by omega) (htext q List.mem_cons_self), ok_bind]
    show (effectParams line qs.length (p + 1) (front.length + 21 + (q.description.length : ℤ).toNat) >>= _) = _
    rw [Int.toNat_natCast, Nat.add_assoc, hrest]
    rfl

/-- **One effect** comes through where its fields are wide enough, and the client has room for its name. -/
theorem effectNew_summary {e : VjEffect} {i : ℕ} (hfit : FieldsFit e i) (hname : 0 < e.description.length)
    (hroom : e.description.length < 150) : effectNew (summary e i) = .ok [effectConstr e i] := by
  have hdigits : (zeroPadded 3 e.description.length).length = 3 := zeroPadded_length (by decide) (by omega)
  have hcount := e.params_le
  rw [sampleMaxParameters] at hcount
  have hint : ∀ {w : ℕ} {z : ℤ}, w ≤ 3 → Fits w z → -2 ^ 31 ≤ z ∧ z < 2 ^ 31 := by
    intro w z hw hz
    obtain ⟨hlo, hhi⟩ := hz
    have h1 : (10 : ℤ) ^ w ≤ 10 ^ 3 := pow_le_pow_right₀ (by norm_num) hw
    have h2 : (10 : ℤ) ^ (w - 1) ≤ 10 ^ 3 := pow_le_pow_right₀ (by norm_num) (by omega)
    exact ⟨by omega, by omega⟩
  have hdescr : ∀ q ∈ e.params, q.description.length < 1000 := by
    intro q hq
    have hsum := List.single_le_sum (fun _ _ => Nat.zero_le _) _
      (List.mem_map.mpr ⟨q, hq, rfl⟩ : _ ∈ e.params.map fun q => 21 + q.description.length)
    have hline := hfit.line
    rw [effectSize] at hline
    omega
  have hsplit : summary e i = zeroPadded 3 e.description.length ++ (e.description ++
      (zeroPaddedInt 3 (vjEffectGetRealId i) ++ (zeroPaddedInt 1 e.extraFrame ++ (zeroPaddedInt 1 e.rgbConv ++
        (zeroPadded 2 e.params.length ++ (e.params.map paramText).flatten))))) := by
    rw [summary, effectText, counted, decimalInt_eq, decimalInt_eq]
    simp only [List.append_assoc]
  have hlen : (scanFields [3] ((summary e i).take 3)).getD 0 0 = e.description.length := by
    have hscan := @scanFields_cons_nat 3 [] e.description.length [] (by decide) (by omega) (by omega)
    rw [List.append_nil] at hscan
    rw [hsplit, List.take_left' hdigits, hscan]
    rfl
  have hcopy : copyInto 150 ((summary e i).drop 3) e.description.length = .ok e.description := by
    rw [hsplit, List.drop_left' hdigits]
    exact copyInto_append _ hroom e.text
  have hvalues : scanFields [3, 1, 1, 2] ((summary e i).drop (e.description.length + 3)) =
      [vjEffectGetRealId i, e.extraFrame, e.rgbConv, (e.params.length : ℤ)] := by
    have hfront : (zeroPadded 3 e.description.length ++ e.description).length = e.description.length + 3 := by
      rw [List.length_append, hdigits]
      omega
    rw [hsplit, ← List.append_assoc, List.drop_left' hfront, scanFields_cons (by decide) hfit.id (hint (by decide) hfit.id),
      scanFields_cons (by decide) hfit.extraFrame (hint (by decide) hfit.extraFrame),
      scanFields_cons (by decide) hfit.rgbConv (hint (by decide) hfit.rgbConv),
      scanFields_cons_nat (by decide) (by omega) (by omega)]
    rfl
  have hparams : effectParams (summary e i) e.params.length 0 (e.description.length + 10) = .ok e.params := by
    have htext := effectText_length_iff.mpr ⟨hfit.id, hfit.extraFrame, hfit.rgbConv, (by omega)⟩
    have h := effectParams_texts (fun q hq => ⟨hfit.params q hq, hdescr q hq⟩) e.params_text
      (show summary e i = effectText i e ++ _ from rfl) (show 0 + e.params.length ≤ sampleMaxParameters by
        rw [Nat.zero_add]
        exact e.params_le)
    rw [htext] at h
    exact h
  rw [effectNew, hlen, if_neg (by omega), hcopy, ok_bind, Int.toNat_natCast, hvalues]
  show (effectParams (summary e i) (e.params.length : ℤ).toNat 0 (e.description.length + 10) >>= _) = _
  rw [Int.toNat_natCast, hparams]
  rfl

/-- An effect without a name is not read. -/
theorem effectNew_unnamed {e : VjEffect} {i : ℕ} (hname : e.description = []) : effectNew (summary e i) = .ok [] := by
  have hlen : (scanFields [3] ((summary e i).take 3)).getD 0 0 = 0 := by
    have hscan := @scanFields_cons_nat 3 [] 0 [] (by decide) (by decide) (by decide)
    have htake : (summary e i).take 3 = zeroPadded 3 0 := by
      rw [summary, effectText, counted, hname, List.append_assoc, List.append_assoc]
      exact List.take_left' (by decide)
    rw [List.append_nil] at hscan
    rw [htake, hscan]
    rfl
  rw [effectNew, hlen, if_pos (Int.le_refl 0)]

/-! ## What is read of any line -/

theorem sum_le_of_effectParams {line : CStr} {left p offset : ℕ} {qs : List EffectParam}
    (h : effectParams line left p offset = .ok qs) (hne : qs ≠ []) :
    (qs.map fun q => 21 + q.description.length).sum + offset ≤ line.length + 20 := by
  induction left generalizing p offset qs with
  | zero => exact absurd (Except.ok.inj h).symm hne
  | succ left ih =>
    rw [effectParams] at h
    change (if scanFields [6, 6, 6, 3] (line.drop offset) = [] then _ else _) = _ at h
    split_ifs at h with hstop hp
    · exact absurd (Except.ok.inj h).symm hne
    · obtain ⟨description, hcopy, hnext⟩ := bind_eq_ok.mp h
      obtain ⟨rest, hrest, hdone⟩ := bind_eq_ok.mp hnext
      obtain rfl := Except.ok.inj hdone
      have hin : offset < line.length := by
        by_contra hout
        rw [List.drop_eq_nil_of_le (by omega), scanFields_nil] at hstop
        exact hstop rfl
      obtain ⟨hpos, hcount, hlen⟩ := copyInto_eq_ok hcopy
      rw [List.length_drop] at hlen
      rw [List.map_cons, List.sum_cons]
      cases rest with
      | nil =>
        rw [List.map_nil, List.sum_nil]
        show 21 + description.length + 0 + offset ≤ _
        omega
      | cons q qs =>
        have hsum := ih hrest (List.cons_ne_nil _ _)
        show 21 + description.length + _ + offset ≤ _
        omega

/-- **An effect that was read from a line** is not longer than the line, but for the last field. -/
theorem effectSize_le_of_read {line : CStr} {cs : List EffectConstr} (h : effectNew line = .ok cs) :
    ∀ ec ∈ cs, effectSize ec.description ec.params ≤ line.length + 20 := by
  rw [effectNew] at h
  change (if (scanFields [3] (line.take 3)).getD 0 0 ≤ 0 then _ else _) = _ at h
  split_ifs at h with hempty
  · obtain rfl := Except.ok.inj h
    exact fun ec hec => absurd hec List.not_mem_nil
  · obtain ⟨description, hcopy, hnext⟩ := bind_eq_ok.mp h
    obtain ⟨params, hparams, hdone⟩ := bind_eq_ok.mp hnext
    obtain rfl := Except.ok.inj hdone
    obtain ⟨hpos, hcount, hlen⟩ := copyInto_eq_ok hcopy
    rw [List.length_drop] at hlen
    intro ec hec
    obtain rfl := List.mem_singleton.mp hec
    show effectSize description params ≤ _
    rw [effectSize]
    cases params with
    | nil =>
      rw [List.map_nil, List.sum_nil]
      omega
    | cons q qs =>
      have hsum := sum_le_of_effectParams hparams (List.cons_ne_nil _ _)
      omega

theorem description_lt_of_read {line : CStr} {cs : List EffectConstr} (h : effectNew line = .ok cs) :
    ∀ ec ∈ cs, ec.description.length < 150 := by
  rw [effectNew] at h
  change (if (scanFields [3] (line.take 3)).getD 0 0 ≤ 0 then _ else _) = _ at h
  split_ifs at h with hempty
  · obtain rfl := Except.ok.inj h
    exact fun ec hec => absurd hec List.not_mem_nil
  · obtain ⟨description, hcopy, hnext⟩ := bind_eq_ok.mp h
    obtain ⟨params, -, hdone⟩ := bind_eq_ok.mp hnext
    obtain rfl := Except.ok.inj hdone
    have hlt := copyInto_lt hcopy
    intro ec hec
    obtain rfl := List.mem_singleton.mp hec
    exact hlt

/-! ## The reply -/

/-- The effects in the list. -/
def effectRecords (t : EffectTable) : CStr := t.listed.flatMap fun p => counted 3 (summary p.1 p.2)

theorem snd_lt_of_entries {t : EffectTable} {p : Option VjEffect × ℕ} (hp : p ∈ t.entries) : p.2 < fxLimit := by
  have h := List.snd_lt_of_mem_zipIdx (List.mem_of_mem_tail hp)
  have := t.limit
  omega

theorem mem_listed {t : EffectTable} {p : VjEffect × ℕ} : p ∈ t.listed ↔ (some p.1, p.2) ∈ t.entries := by
  obtain ⟨e, i⟩ := p
  rw [EffectTable.listed, List.mem_filterMap]
  constructor
  · rintro ⟨⟨o, j⟩, hmem, hmap⟩
    obtain ⟨e', rfl, heq⟩ := Option.map_eq_some_iff.mp hmap
    obtain ⟨rfl, rfl⟩ := Prod.mk.inj heq
    exact hmem
  · intro hmem
    exact ⟨(some e, i), hmem, rfl⟩

/-- A table without gaps. -/
theorem entries_eq {t : EffectTable} (h : ∀ p ∈ t.entries, p.1 ≠ none) :
    t.entries = t.listed.map fun p => (some p.1, p.2) := by
  rw [EffectTable.listed]
  revert h
  generalize t.entries = ps
  intro h
  induction ps with
  | nil => rfl
  | cons p ps ih =>
    obtain ⟨o, i⟩ := p
    cases o with
    | none => exact absurd rfl (h (none, i) List.mem_cons_self)
    | some e =>
      have hrest := ih fun p hp => h p (List.mem_cons_of_mem _ hp)
      show _ = (some e, i) :: _
      rw [← hrest]

theorem announcedLen_eq {t : EffectTable} (h : ∀ p ∈ t.entries, p.1 ≠ none) :
    announcedLen t = (t.listed.map fun p => 3 + effectSize p.1.description p.1.params).sum := by
  rw [announcedLen, entries_eq h, List.map_map]
  congr 1
  exact List.map_congr_left fun p _ => vjEffectGetSummaryLen_eq p.1

/-- What `vj_effect_get_summary` returns. -/
theorem vjEffectGetSummary_eq_ok {e : VjEffect} {i : ℕ} {line : CStr} :
    vjEffectGetSummary (some e, i) = .ok line ↔
      (effectText i e).length < 4096 ∧ line.length < 4096 ∧
        line = effectText i e ++ (e.params.map fun q => (paramText q).take 4095).flatten := by
  rw [vjEffectGetSummary, bind_eq_ok]
  have hloop : ∀ dst : CStr, e.params.foldlM (fun dst q => appendInto 4096 dst ((paramText q).take 4095)) dst =
      (e.params.map fun q => (paramText q).take 4095).foldlM (appendInto 4096) dst := fun dst => by rw [List.foldlM_map]
  constructor
  · rintro ⟨dst, hdst, hline⟩
    obtain ⟨hlt, rfl⟩ := printInto_eq_ok.mp hdst
    rw [hloop, foldlM_appendInto _ hlt] at hline
    obtain ⟨hlen, rfl⟩ := hline
    exact ⟨hlt, hlen, rfl⟩
  · rintro ⟨hlt, hlen, rfl⟩
    refine ⟨_, printInto_of_lt hlt, ?_⟩
    rw [hloop]
    exact (foldlM_appendInto _ hlt).mpr ⟨hlen, rfl⟩

/-- **One effect after the other** is appended. -/
theorem foldlM_summaries {size : ℕ} (ps : List (Option VjEffect × ℕ)) {buf r : CStr} (hbuf : buf.length < size) :
    ps.foldlM (fun privMsg p => do
      let line ← vjEffectGetSummary p
      appendInto size privMsg ((counted 3 line).take 4095)) buf = .ok r ↔
    ∃ lines, List.Forall₂ (fun p line => vjEffectGetSummary p = .ok line) ps lines ∧
      (buf ++ (lines.map fun line => (counted 3 line).take 4095).flatten).length < size ∧
      r = buf ++ (lines.map fun line => (counted 3 line).take 4095).flatten := by
  induction ps generalizing buf r with
  | nil =>
    rw [List.foldlM_nil]
    constructor
    · intro h
      obtain rfl := Except.ok.inj h
      exact ⟨[], List.Forall₂.nil, by rw [List.map_nil, List.flatten_nil, List.append_nil]; exact hbuf,
        (List.append_nil _).symm⟩
    · rintro ⟨lines, hlines, -, rfl⟩
      cases hlines
      exact congrArg Except.ok (List.append_nil _).symm
  | cons p ps ih =>
    rw [List.foldlM_cons, bind_eq_ok]
    constructor
    · rintro ⟨b, hb, hr⟩
      obtain ⟨line, hline, happ⟩ := bind_eq_ok.mp hb
      obtain ⟨hlt, rfl⟩ := printInto_eq_ok.mp happ
      obtain ⟨lines, hlines, hlen, rfl⟩ := (ih hlt).mp hr
      refine ⟨line :: lines, List.Forall₂.cons hline hlines, ?_, ?_⟩
      · rw [List.map_cons, List.flatten_cons, ← List.append_assoc]
        exact hlen
      · rw [List.map_cons, List.flatten_cons, ← List.append_assoc]
    · rintro ⟨lines, hlines, hlen, rfl⟩
      cases hlines with
      | @cons _ line _ lines hline hlines =>
        rw [List.map_cons, List.flatten_cons, ← List.append_assoc] at hlen ⊢
        have hlt : (buf ++ (counted 3 line).take 4095).length < size := by
          rw [List.length_append] at hlen
          omega
        have hrest := (@ih (buf ++ (counted 3 line).take 4095) _ hlt).mpr ⟨lines, hlines, hlen, rfl⟩
        refine ⟨buf ++ (counted 3 line).take 4095, ?_, hrest⟩
        rw [hline, ok_bind]
        exact printInto_of_lt hlt

theorem exists_of_forall₂ {β γ : Type} {R : β → γ → Prop} {bs : List β} {cs : List γ} (h : List.Forall₂ R bs cs) :
    ∀ b ∈ bs, ∃ c, R b c := by
  induction h with
  | nil => exact fun b hb => absurd hb List.not_mem_nil
  | cons hbc _ ih =>
    intro b hb
    rcases List.mem_cons.mp hb with rfl | hb
    · exact ⟨_, hbc⟩
    · exact ih b hb

theorem eq_map_of_forall₂ {β γ : Type} {R : β → γ → Prop} {f : β → γ} {bs : List β} {cs : List γ}
    (h : List.Forall₂ R bs cs) (hf : ∀ b ∈ bs, ∀ c, R b c → c = f b) : cs = bs.map f := by
  induction h with
  | nil => rfl
  | cons hbc _ ih =>
    rw [List.map_cons, hf _ List.mem_cons_self _ hbc, ih fun b hb => hf b (List.mem_cons_of_mem _ hb)]

/-- The list has room for its effects. -/
structure ListFits (t : EffectTable) : Prop where
  present : ∀ p ∈ t.entries, p.1 ≠ none
  fields : ∀ p ∈ t.listed, FieldsFit p.1 p.2
  total : announcedLen t < 1000000

theorem effectRecords_length {t : EffectTable} (h : ListFits t) : (effectRecords t).length = announcedLen t := by
  rw [announcedLen_eq h.present, effectRecords, List.length_flatMap]
  refine congrArg List.sum (List.map_congr_left fun p hp => ?_)
  obtain ⟨hlen, hlt⟩ := fieldsFit_iff.mp (h.fields p hp)
  show (counted 3 (summary p.1 p.2)).length = _
  rw [(counted_length_iff (by decide)).mpr (by omega), hlen]

/-- **The reply**, where the list has room. -/
theorem vjEventSendEffectList_of_fits {t : EffectTable} (h : ListFits t) :
    vjEventSendEffectList t = .ok (counted 6 (effectRecords t)) := by
  have hlen := effectRecords_length h
  have hsix : (zeroPadded 6 (announcedLen t)).length = 6 := zeroPadded_length (by decide) h.total
  have hline : ∀ p ∈ t.listed, vjEffectGetSummary (some p.1, p.2) = .ok (summary p.1 p.2) := by
    intro p hp
    obtain ⟨hsum, hlt⟩ := fieldsFit_iff.mp (h.fields p hp)
    have htext : (effectText p.2 p.1).length ≤ (summary p.1 p.2).length := by
      rw [summary, List.length_append]
      omega
    have hwhole : (p.1.params.map fun q => (paramText q).take 4095) = p.1.params.map paramText := by
      apply List.map_congr_left
      intro q hq
      have hq' := List.single_le_sum (fun _ _ => Nat.zero_le _) _
        (List.mem_map.mpr ⟨q, hq, rfl⟩ : _ ∈ p.1.params.map fun q => (paramText q).length)
      rw [← length_flatten_map] at hq'
      rw [summary, List.length_append] at hsum
      exact List.take_of_length_le (by omega)
    exact vjEffectGetSummary_eq_ok.mpr ⟨by omega, by omega, by rw [hwhole]; rfl⟩
  have hall : List.Forall₂ (fun p line => vjEffectGetSummary p = .ok line) t.entries
      (t.listed.map fun p => summary p.1 p.2) := by
    rw [entries_eq h.present, List.forall₂_map_left_iff, List.forall₂_map_right_iff, List.forall₂_same]
    exact hline
  have hrecords : ((t.listed.map fun p => summary p.1 p.2).map fun line => (counted 3 line).take 4095).flatten =
      effectRecords t := by
    rw [effectRecords, List.flatMap_def, List.map_map]
    refine congrArg List.flatten (List.map_congr_left fun p hp => ?_)
    obtain ⟨hsum, hlt⟩ := fieldsFit_iff.mp (h.fields p hp)
    apply List.take_of_length_le
    show (counted 3 (summary p.1 p.2)).length ≤ 4095
    rw [(counted_length_iff (by decide)).mpr (by omega)]
    omega
  rw [vjEventSendEffectList, printInto_of_lt (by omega), ok_bind, foldlM_summaries _ (by omega)]
  refine ⟨_, hall, ?_, ?_⟩
  · rw [hrecords, List.length_append, hsix, hlen]
    omega
  · rw [hrecords, counted, hlen]

/-! ## The size of what is printed -/

theorem paramText_length_le {q : EffectParam} (hq : IsInt q.min ∧ IsInt q.max ∧ IsInt q.default)
    (hlen : q.description.length < 10000) : (paramText q).length ≤ 37 + q.description.length := by
  have hint : ∀ {z : ℤ}, IsInt z → (zeroPaddedInt 6 z).length ≤ 11 := by
    intro z hz
    obtain ⟨hlo, hhi⟩ := hz
    exact zeroPaddedInt_length_le (by decide) (by decide) (by omega)
  have h1 := hint hq.1
  have h2 := hint hq.2.1
  have h3 := hint hq.2.2
  have h4 : (zeroPadded 3 q.description.length).length ≤ 4 := zeroPadded_length_le (by decide) (by decide) hlen
  rw [paramText, counted, List.length_append, List.length_append, List.length_append, List.length_append]
  omega

theorem effectText_length_le {e : VjEffect} {i : ℕ} (hi : i < fxLimit) (hlen : e.description.length < 10000) :
    (effectText i e).length ≤ 33 + e.description.length := by
  have hid : (zeroPaddedInt 3 (vjEffectGetRealId i)).length ≤ 5 := by
    apply zeroPaddedInt_length_le (by decide) (by decide)
    rw [fxLimit] at hi
    rw [vjEffectGetRealId, vjVideoCount, maxEffects]
    split_ifs
    · omega
    · omega
    · omega
    · decide
  have hint : ∀ {z : ℤ}, IsInt z → (zeroPaddedInt 1 z).length ≤ 11 := by
    intro z hz
    obtain ⟨hlo, hhi⟩ := hz
    exact zeroPaddedInt_length_le (by decide) (by decide) (by omega)
  have hcount := e.params_le
  rw [sampleMaxParameters] at hcount
  have h1 : (zeroPadded 3 e.description.length).length ≤ 4 := zeroPadded_length_le (by decide) (by decide) hlen
  have h2 := hint e.extraFrame_int
  have h3 := hint e.rgbConv_int
  have h4 : (zeroPadded 2 e.params.length).length = 2 := zeroPadded_length (by decide) (by omega)
  rw [effectText, counted, decimalInt_eq, decimalInt_eq, List.length_append, List.length_append, List.length_append,
    List.length_append, List.length_append]
  omega

/-- **An effect of moderate size is printed whole.** -/
theorem vjEffectGetSummary_whole {e : VjEffect} {i : ℕ} (hi : i < fxLimit)
    (hsize : effectSize e.description e.params < 1020) {line : CStr}
    (h : vjEffectGetSummary (some e, i) = .ok line) : line = summary e i ∧ line.length < 4000 := by
  rw [effectSize] at hsize
  have hdescr : ∀ q ∈ e.params, q.description.length < 1000 := by
    intro q hq
    have hsum := List.single_le_sum (fun _ _ => Nat.zero_le _) _
      (List.mem_map.mpr ⟨q, hq, rfl⟩ : _ ∈ e.params.map fun q => 21 + q.description.length)
    omega
  have hbound : ∀ q ∈ e.params, (paramText q).length ≤ 37 + q.description.length := by
    intro q hq
    have := hdescr q hq
    exact paramText_length_le (e.params_int q hq) (by omega)
  have hwhole : (e.params.map fun q => (paramText q).take 4095) = e.params.map paramText := by
    apply List.map_congr_left
    intro q hq
    have h1 := hbound q hq
    have h2 := hdescr q hq
    exact List.take_of_length_le (by omega)
  obtain ⟨-, -, rfl⟩ := vjEffectGetSummary_eq_ok.mp h
  rw [hwhole]
  refine ⟨rfl, ?_⟩
  have htext := @effectText_length_le e i hi (by omega)
  have hsum := List.sum_le_sum hbound
  have hsplit : (e.params.map fun q => 37 + q.description.length).sum =
      16 * e.params.length + (e.params.map fun q => 21 + q.description.length).sum := by
    have heq : (fun q : EffectParam => 37 + q.description.length) = fun q => 16 + (21 + q.description.length) := by
      funext q
      omega
    rw [heq, List.sum_map_add, List.map_const', List.sum_replicate, smul_eq_mul, Nat.mul_comm]
  have hcount := e.params_le
  rw [sampleMaxParameters] at hcount
  rw [List.length_append, length_flatten_map]
  omega

/-! ## The whole list -/

/-- The client has room for the names of the effects. -/
def NamesFit (t : EffectTable) : Prop := ∀ p ∈ t.listed, 0 < p.1.description.length ∧ p.1.description.length < 150

theorem summary_line {e : VjEffect} {i : ℕ} (h : FieldsFit e i) : Line 4096 (summary e i) := by
  obtain ⟨hsum, hlt⟩ := fieldsFit_iff.mp h
  refine ⟨List.ne_nil_of_length_pos ?_, by omega, by omega, summary_no_zero e i⟩
  rw [hsum, effectSize]
  omega

/-- What the client reads, where the list has room. -/
theorem loadEffectlistInfo_of_fits {t : EffectTable} (h : ListFits t) (hnames : NamesFit t) {fuel : ℕ}
    (hfuel : (effectRecords t).length ≤ fuel) :
    loadEffectlistInfo fuel (received (effectRecords t)) = .ok (t.listed.map fun p => effectConstr p.1 p.2) := by
  have hitems : t.listed.length ≤ (effectRecords t).length := length_le_records t.listed fun p => summary p.1 p.2
  have hload : loadRecords 4096 effectNew fuel (effectRecords t) = .ok (t.listed.map fun p => effectConstr p.1 p.2) := by
    rw [effectRecords, loadRecords_counted (fun p hp => summary_line (h.fields p hp))
      (fun p hp => effectNew_summary (h.fields p hp) (hnames p hp).1 (hnames p hp).2) (by omega)]
    exact congrArg Except.ok (List.flatMap_pure_eq_map (fun p : VjEffect × ℕ => effectConstr p.1 p.2) _)
  rw [received]
  by_cases hempty : effectRecords t = []
  · rw [if_pos hempty]
    have hnone : t.listed = [] := by
      rw [hempty] at hitems
      exact List.length_eq_zero_iff.mp (Nat.le_zero.mp hitems)
    rw [hnone]
    rfl
  · rw [if_neg hempty]
    exact hload

/-- What the client has read fits its lines and its arrays. -/
theorem size_of_recovered {fuel : ℕ} {fxtext : Option CStr} {ecs : List EffectConstr}
    (h : loadEffectlistInfo fuel fxtext = .ok ecs) :
    ∀ ec ∈ ecs, effectSize ec.description ec.params < 1020 ∧ ec.description.length < 150 := by
  cases fxtext with
  | none =>
    obtain rfl := Except.ok.inj h
    exact fun ec hec => absurd hec List.not_mem_nil
  | some fxtext =>
    intro ec hec
    obtain ⟨line, rs, hlen, hparse, hmem⟩ := mem_loadRecords h ec hec
    have hsize := effectSize_le_of_read hparse ec hmem
    exact ⟨by omega, description_lt_of_read hparse ec hmem⟩

/-- **In a reply that was announced right**, no field is wider than its place. -/
theorem listFits_of_framed {t : EffectTable} {reply : CStr} (hsend : vjEventSendEffectList t = .ok reply)
    (hframed : Framed 6 reply) (hsize : ∀ p ∈ t.listed, effectSize p.1.description p.1.params < 1020) :
    ListFits t := by
  obtain ⟨privMsg, hprint, hfold⟩ := bind_eq_ok.mp hsend
  obtain ⟨hbuf, rfl⟩ := printInto_eq_ok.mp hprint
  obtain ⟨lines, hlines, -, rfl⟩ := (foldlM_summaries _ hbuf).mp hfold
  have hpresent : ∀ p ∈ t.entries, p.1 ≠ none := by
    intro p hp hnone
    obtain ⟨line, hline⟩ := exists_of_forall₂ hlines p hp
    obtain ⟨o, i⟩ := p
    obtain rfl : o = none := hnone
    cases hline
  have hwhole : ∀ p ∈ t.listed, ∀ line, vjEffectGetSummary (some p.1, p.2) = .ok line →
      line = summary p.1 p.2 ∧ line.length < 4000 := fun p hp line hline =>
    vjEffectGetSummary_whole (snd_lt_of_entries (mem_listed.mp hp)) (hsize p hp) hline
  rw [entries_eq hpresent, List.forall₂_map_left_iff] at hlines
  have hlines' : lines = t.listed.map fun p => summary p.1 p.2 :=
    eq_map_of_forall₂ hlines fun p hp line hline => (hwhole p hp line hline).1
  have hflat : (lines.map fun line => (counted 3 line).take 4095).flatten = effectRecords t := by
    rw [hlines', effectRecords, List.flatMap_def, List.map_map]
    refine congrArg List.flatten (List.map_congr_left fun p hp => ?_)
    obtain ⟨line, hline⟩ := exists_of_forall₂ hlines p hp
    obtain ⟨rfl, hlt⟩ := hwhole p hp line hline
    have hdigits : (zeroPadded 3 (summary p.1 p.2).length).length ≤ 4 :=
      zeroPadded_length_le (by decide) (by decide) (by omega)
    apply List.take_of_length_le
    show (counted 3 (summary p.1 p.2)).length ≤ 4095
    rw [counted, List.length_append]
    omega
  rw [hflat] at hframed
  have hle : ∀ p ∈ t.listed,
      3 + effectSize p.1.description p.1.params ≤ (counted 3 (summary p.1 p.2)).length := by
    intro p _
    have h1 := le_counted_length 3 (summary p.1 p.2)
    have h2 := le_summary_length p.1 p.2
    omega
  have hrecords : (effectRecords t).length = (t.listed.map fun p => (counted 3 (summary p.1 p.2)).length).sum := by
    rw [effectRecords, List.length_flatMap]
  have htotal := List.sum_le_sum hle
  rw [← announcedLen_eq hpresent, ← hrecords] at htotal
  obtain ⟨body, hbody, hreply⟩ := hframed
  have hlen := congrArg List.length hreply
  have hsix := le_zeroPadded_length 6 (announcedLen t)
  rw [(counted_length_iff (by decide)).mpr hbody, List.length_append] at hlen
  have hannounced : announcedLen t < 10 ^ 6 := by omega
  obtain ⟨hdigits, hbody'⟩ := List.append_inj hreply (by
    rw [zeroPadded_length (by decide) hannounced, zeroPadded_length (by decide) hbody])
  have hexact : announcedLen t = body.length := by
    have h := congrArg digitsValue hdigits
    rw [digitsValue_zeroPadded, digitsValue_zeroPadded] at h
    exact h
  have hall := map_eq_of_sum_le hle (by
    rw [← announcedLen_eq hpresent, ← hrecords, hbody', hexact])
  refine ⟨hpresent, fun p hp => ?_, hannounced⟩
  have h1 := le_counted_length 3 (summary p.1 p.2)
  have h2 := le_summary_length p.1 p.2
  have h3 := hall p hp
  have h4 : (summary p.1 p.2).length < 10 ^ 3 := (counted_length_iff (by decide)).mp (by omega)
  exact fieldsFit_iff.mpr ⟨by omega, by omega⟩

/-- **In a list that is read whole**, every effect has a name. -/
theorem namesFit_of_read {t : EffectTable} (h : ListFits t) (hroom : ∀ p ∈ t.listed, p.1.description.length < 150)
    {fuel : ℕ} (hfuel : (effectRecords t).length ≤ fuel)
    (hload : loadEffectlistInfo fuel (received (effectRecords t)) =
      .ok (t.listed.map fun p => effectConstr p.1 p.2)) : NamesFit t := by
  have hitems : t.listed.length ≤ (effectRecords t).length := length_le_records t.listed fun p => summary p.1 p.2
  have hparse : ∀ p ∈ t.listed, effectNew (summary p.1 p.2) =
      .ok (if p.1.description = [] then [] else [effectConstr p.1 p.2]) := by
    intro p hp
    by_cases hempty : p.1.description = []
    · rw [if_pos hempty]
      exact effectNew_unnamed hempty
    · rw [if_neg hempty]
      exact effectNew_summary (h.fields p hp) (List.length_pos_iff.mpr hempty) (hroom p hp)
  by_cases hnone : effectRecords t = []
  · have hlisted : t.listed = [] := by
      rw [hnone] at hitems
      exact List.length_eq_zero_iff.mp (Nat.le_zero.mp hitems)
    intro p hp
    rw [hlisted] at hp
    exact absurd hp List.not_mem_nil
  · rw [received, if_neg hnone] at hload
    have hread := loadRecords_counted (fun p hp => summary_line (h.fields p hp)) hparse (hitems.trans hfuel)
    have heq := Except.ok.inj (hread.symm.trans hload)
    have hcount := congrArg List.length heq
    rw [List.length_flatMap, List.length_map] at hcount
    have hle : ∀ p ∈ t.listed,
        (if p.1.description = [] then [] else [effectConstr p.1 p.2] : List EffectConstr).length ≤ 1 := by
      intro p _
      split_ifs
      · exact Nat.zero_le _
      · exact Nat.le_refl _
    have hall := map_eq_of_sum_le hle (by rw [hcount, List.map_const', List.sum_replicate, smul_eq_mul, Nat.mul_one])
    intro p hp
    refine ⟨?_, hroom p hp⟩
    by_contra hzero
    have hempty : p.1.description = [] := List.length_eq_zero_iff.mp (by omega)
    have h1 := hall p hp
    rw [if_pos hempty] at h1
    exact absurd h1 (by decide)

/-- A list that comes through has room for its effects, and names for them. -/
theorem fits_of_recovered {t : EffectTable} (hrecovered : EffectListRecovered t) : ListFits t ∧ NamesFit t := by
  obtain ⟨reply, fxtext, hsend, hframed, hrecv, hload⟩ := hrecovered
  have hread := size_of_recovered (hload _ (Nat.le_refl _))
  have hsize : ∀ p ∈ t.listed, effectSize p.1.description p.1.params < 1020 ∧ p.1.description.length < 150 :=
    fun p hp => hread (effectConstr p.1 p.2) (List.mem_map.mpr ⟨p, hp, rfl⟩)
  have h := listFits_of_framed hsend hframed fun p hp => (hsize p hp).1
  have hbody : (effectRecords t).length < 10 ^ 6 := by
    rw [effectRecords_length h]
    exact h.total
  rw [vjEventSendEffectList_of_fits h] at hsend
  obtain rfl := Except.ok.inj hsend
  have hrecv' := recvVims_framed (by decide) (by decide) hbody []
  rw [List.append_nil, hrecv] at hrecv'
  obtain rfl : fxtext = received (effectRecords t) := congrArg Prod.fst (Option.some.inj hrecv')
  have hle := le_counted_length 6 (effectRecords t)
  exact ⟨h, namesFit_of_read h (fun p hp => (hsize p hp).2) (by omega) (hload _ (Nat.le_refl _))⟩

/-- **The list of effects comes through** exactly where all of its fields are wide enough for the table. -/
theorem effectList_iff (t : EffectTable) : EffectListRecovered t ↔ ListFits t ∧ NamesFit t := by
  constructor
  · exact fits_of_recovered
  · rintro ⟨h, hnames⟩
    have hbody : (effectRecords t).length < 10 ^ 6 := by
      rw [effectRecords_length h]
      exact h.total
    have hrecv := recvVims_framed (by decide) (by decide) hbody []
    rw [List.append_nil] at hrecv
    refine ⟨_, _, vjEventSendEffectList_of_fits h, ⟨_, hbody, rfl⟩, hrecv, fun fuel hfuel => ?_⟩
    have hle := le_counted_length 6 (effectRecords t)
    exact loadEffectlistInfo_of_fits h hnames (by omega)

/-- An effect with one parameter. -/
def blurEffect (max : ℤ) (h : IsInt max) : VjEffect where
  description := lit "Blur"
  extraFrame := 0
  rgbConv := 0
  params := [⟨0, max, 5, lit "Radius"⟩]
  params_le := Nat.le_of_ble_eq_true rfl
  extraFrame_int := by decide
  rgbConv_int := by decide
  params_int q hq := by
    obtain rfl := List.mem_singleton.mp hq
    exact ⟨show IsInt 0 by decide, h, show IsInt 5 by decide⟩
  text := by decide
  params_text q hq := by
    obtain rfl := List.mem_singleton.mp hq
    show (0 : UInt8) ∉ lit "Radius"
    decide

/-- A table with that effect. -/
def blurTable (max : ℤ) (h : IsInt max) : EffectTable where
  effects := [none, some (blurEffect max h)]
  limit := Nat.le_of_ble_eq_true rfl

/-- A parameter that goes up to a million does not come through. -/
theorem effectList_lost : ¬ EffectListRecovered (blurTable 1000000 (by decide)) := by
  intro h
  have hfit := (fits_of_recovered h).1.fields _ List.mem_cons_self
  exact absurd (hfit.params _ List.mem_cons_self).2.1 (by decide)

end Veejay.Client
