import Veejay.Vims.IdMessage

/-!
# Dispatch of integer messages

An event is registered with a format, a default for each argument and flags.  `vj_event_parse_msg` scans the numbers
of a message `020:1 2;` one after the other into the places of the arguments, which hold the defaults, and
`vj_event_fire_net_event` counts them again.

* `EventPort`, `newEvent` — the events of `index_map_`; `indexEvents` — the interpreter that looks them up;
* `integerMessage` — a message of numbers; `scanArgs_integers` is the loop that scans them;
* `fireOnce` — the event fires with a list of numbers;
* `parseMsg_integers` — **what an integer message does**.
-/

namespace Veejay.Vims

open CLib

/-! ## The table of events -/

/-- A default, as `_new_event` stores it: `argument_%d`. -/
inductive DefaultArg where
  | int (dd : ℤ)
  | str (ds : Option CStr)
  deriving DecidableEq

/-- The port of an event. -/
structure EventPort where
  format : CStr
  arguments : ℕ
  flags : ℕ
  /-- `argument_%d` -/
  argument : ℕ → Option DefaultArg

/-- `_new_event`: an argument is stored as what its place in the format says. -/
def newEvent (format : CStr) (nArg flags : ℕ) (va : List DefaultArg) : EventPort where
  format := format
  arguments := nArg
  flags := flags
  argument n :=
    if n < nArg then
      match va[n]? with
      | some (.int dd) => if format[1 + 3 * n]? = some 100 then some (.int dd) else none
      | some (.str ds) => if format[1 + 3 * n]? = some 100 then none else some (.str ds)
      | none => none
    else none

/-- `index_map_` -/
abbrev IndexMap := ℤ → Option EventPort

/-- `vj_event_vevo_get_default_value` -/
def vjEventVevoGetDefaultValue (index : IndexMap) (id : ℤ) (p : ℕ) : ℤ :=
  match index id with
  | none => 0
  | some port => match port.argument p with
    | some (.int n) => n
    | _ => 0

/-- `vj_event_vevo_get_num_args` -/
def vjEventVevoGetNumArgs (index : IndexMap) (id : ℤ) : ℕ :=
  match index id with
  | none => 0
  | some port => port.arguments

/-- `vj_event_vevo_get_event_format` -/
def vjEventVevoGetEventFormat (index : IndexMap) (id : ℤ) : CStr :=
  match index id with
  | none => []
  | some port => port.format

/-- `vj_event_vevo_get_flags` -/
def vjEventVevoGetFlags (index : IndexMap) (id : ℤ) : ℕ :=
  match index id with
  | none => 0
  | some port => port.flags

variable {S : Type}

/-- The interpreter that looks the events up; `base` has their functions. -/
def indexEvents (index : IndexMap) (base : Events S) : Events S where
  bundleGet := base.bundleGet
  textAt := base.textAt
  numArgs := vjEventVevoGetNumArgs index
  format := vjEventVevoGetEventFormat index
  defaultValue := vjEventVevoGetDefaultValue index
  -- `VIMS_ALLOW_ANY`, `VIMS_LONG_PARAMS` and `VIMS_REQUIRE_ALL_PARAMS`
  allowAny id := (vjEventVevoGetFlags index id).testBit 4
  longParams id := (vjEventVevoGetFlags index id).testBit 3
  requireAll id := (vjEventVevoGetFlags index id).testBit 0
  fire := base.fire
  parseKf := base.parseKf
  storeMacro := base.storeMacro

/-- The format of `k` numbers: `%d %d`. -/
def intFormat : ℕ → CStr
  | 0 => []
  | k + 1 => lit "%d" ++ (List.replicate k (lit " %d")).flatten

/-- An event of `k` numbers is registered, with these defaults; the format is that of `k` numbers. -/
structure IntegerEvent (index : IndexMap) (id : ℤ) (k flags : ℕ) (defaults : List ℤ) : Prop where
  valid : ValidId id
  noBundle : ¬ (vimsBundleStart ≤ id ∧ id < vimsBundleEnd)
  noPreset : id ≠ vimsChainEntrySetPreset
  pos : 1 ≤ k
  /-- `vims_arguments[16]` -/
  le : k ≤ 16
  length : defaults.length = k
  registered : index id = some (newEvent (intFormat k) k flags (defaults.map .int))

/-- A place of the format. -/
theorem intFormat_kind {k m : ℕ} (hm : m < k) : (intFormat k)[1 + 3 * m]? = some 100 := by
  cases k with
  | zero => exact absurd hm (Nat.not_lt_zero m)
  | succ k =>
    cases m with
    | zero => rfl
    | succ m =>
      have hplace : ∀ k m, m < k → ((List.replicate k (lit " %d")).flatten)[2 + 3 * m]? = some 100 := by
        intro k
        induction k with
        | zero => exact fun m hm => absurd hm (Nat.not_lt_zero m)
        | succ k ih =>
          intro m hm
          rw [List.replicate_succ, List.flatten_cons]
          cases m with
          | zero => rfl
          | succ m =>
            rw [List.getElem?_append_right (by show 3 ≤ _; omega)]
            show _[2 + 3 * (m + 1) - 3]? = _
            rw [show 2 + 3 * (m + 1) - 3 = 2 + 3 * m by omega]
            exact ih m (by omega)
      rw [intFormat, List.getElem?_append_right (by show 2 ≤ _; omega)]
      show _[1 + 3 * (m + 1) - 2]? = _
      rw [show 1 + 3 * (m + 1) - 2 = 2 + 3 * m by omega]
      exact hplace k m (by omega)

section Registered

variable {index : IndexMap} {id : ℤ} {k flags : ℕ} {defaults : List ℤ}

theorem IntegerEvent.kind (h : IntegerEvent index id k flags defaults) (base : Events S) {m : ℕ} (hm : m < k) :
    ((indexEvents index base).format id)[1 + 3 * m]? = some 100 := by
  show (vjEventVevoGetEventFormat index id)[1 + 3 * m]? = _
  rw [vjEventVevoGetEventFormat, h.registered]
  exact intFormat_kind hm

theorem IntegerEvent.numArgs (h : IntegerEvent index id k flags defaults) (base : Events S) :
    (indexEvents index base).numArgs id = k := by
  show vjEventVevoGetNumArgs index id = k
  rw [vjEventVevoGetNumArgs, h.registered]
  rfl

theorem IntegerEvent.allowAny (h : IntegerEvent index id k flags defaults) (base : Events S) :
    (indexEvents index base).allowAny id = flags.testBit 4 := by
  show (vjEventVevoGetFlags index id).testBit 4 = _
  rw [vjEventVevoGetFlags, h.registered]
  rfl

/-- The places of the arguments hold the defaults. -/
theorem IntegerEvent.argDefaults (h : IntegerEvent index id k flags defaults) (base : Events S) :
    (List.range k).map (fun i => some ((indexEvents index base).defaultValue id i)) = defaults.map some := by
  refine List.ext_getElem? fun i => ?_
  rw [List.getElem?_map, List.getElem?_map]
  rcases Nat.lt_or_ge i k with hi | hi
  · have hlen : i < defaults.length := by
      rw [h.length]
      exact hi
    have hval : (indexEvents index base).defaultValue id i = defaults[i] := by
      show vjEventVevoGetDefaultValue index id i = _
      rw [vjEventVevoGetDefaultValue, h.registered]
      simp only [newEvent, if_pos hi, List.getElem?_map, List.getElem?_eq_getElem hlen, Option.map_some,
        if_pos (intFormat_kind hi)]
    rw [List.getElem?_range hi, List.getElem?_eq_getElem hlen, Option.map_some, Option.map_some, hval]
  · rw [List.getElem?_eq_none (by rw [List.length_range]; exact hi),
      List.getElem?_eq_none (by rw [h.length]; exact hi)]
    rfl

end Registered

/-! ## Scanning -/

/-- Numbers with a blank between them. -/
def integersText : List ℤ → CStr
  | [] => []
  | v :: vs => decimalInt v ++ vs.flatMap fun w => 32 :: decimalInt w

/-- A message of numbers. -/
def integerMessage (id : ℤ) (vs : List ℤ) : CStr := idMessage id (integersText vs ++ [59])

/-- A number that an `int` holds. -/
def InRange (v : ℤ) : Prop := -2 ^ 31 ≤ v ∧ v < 2 ^ 31

instance (v : ℤ) : Decidable (InRange v) := inferInstanceAs (Decidable (_ ∧ _))

theorem integersText_ne_nil {vs : List ℤ} (hne : vs ≠ []) : integersText vs ≠ [] := by
  cases vs with
  | nil => exact absurd rfl hne
  | cons v vs =>
    obtain ⟨c, t, hc, -⟩ := decimalInt_head v
    rw [integersText, hc]
    exact List.cons_ne_nil _ _

/-- The text of the numbers is made of digits, signs and blanks. -/
theorem mem_integersText {vs : List ℤ} {c : UInt8} (hc : c ∈ integersText vs) : isDigit c = true ∨ c = 45 ∨ c = 32 := by
  cases vs with
  | nil => exact absurd hc List.not_mem_nil
  | cons v vs =>
    rw [integersText] at hc
    rcases List.mem_append.mp hc with hc | hc
    · exact (mem_decimalInt hc).imp_right .inl
    · obtain ⟨w, -, hw⟩ := List.mem_flatMap.mp hc
      rcases List.mem_cons.mp hw with rfl | hw
      · exact .inr (.inr rfl)
      · exact (mem_decimalInt hw).imp_right .inl

theorem integersText_no (vs : List ℤ) {c : UInt8} (hdigit : isDigit c = false) (h45 : c ≠ 45) (h32 : c ≠ 32) :
    c ∉ integersText vs := by
  intro hc
  rcases mem_integersText hc with h | h | h
  · rw [hdigit] at h
    cases h
  · exact h45 h
  · exact h32 h

section Scanning

variable {ev : Events S} {id : ℤ} {left i fmtOffset : ℕ} {str : Option CStr} {args : List (Option ℤ)}

/-- A number in front of other ones is scanned. -/
theorem scanArgs_number (hd : (ev.format id)[fmtOffset]? = some 100) {v : ℤ} (hv : InRange v) (rest : CStr) :
    scanArgs ev id (left + 1) i fmtOffset (decimalInt v ++ 32 :: rest) str args =
      scanArgs ev id left (i + 1) (fmtOffset + 3) rest str (args.set i (some v)) := by
  have hscan : scanInt (decimalInt v ++ 32 :: rest) = .val v (32 :: rest) := scanInt_decimalInt v _ (by simp [isDigit])
  rw [scanArgs]
  simp only [hd, if_true, hscan, intValue_of_fits hv.1 hv.2]
  rw [if_neg (by decide)]

/-- The last number is scanned. -/
theorem scanArgs_lastNumber (hd : (ev.format id)[fmtOffset]? = some 100) {v : ℤ} (hv : InRange v) :
    scanArgs ev id (left + 1) i fmtOffset (decimalInt v) str args = .ok (some (i + 1, str, args.set i (some v))) := by
  have hscan : scanInt (decimalInt v) = .val v [] := by
    have h := scanInt_decimalInt v [] (by simp)
    rwa [List.append_nil] at h
  rw [scanArgs]
  simp only [hd, if_true, hscan, intValue_of_fits hv.1 hv.2]

/-- A string is the rest of a message, of an event with long parameters. -/
theorem scanArgs_rest (hs : (ev.format id)[fmtOffset]? = some 115) (hlong : ev.longParams id = true) {t : CStr}
    (ht : t ≠ []) : scanArgs ev id (left + 1) i fmtOffset t none args = .ok (some (i + 1, some t, args)) := by
  have hword : inlineStrToStr (ev.longParams id) t = .ok (some t) := by
    rw [inlineStrToStr, if_neg ht, hlong, if_pos rfl]
  rw [scanArgs]
  simp only [hs]
  rw [if_neg (by decide), if_pos ⟨trivial, trivial⟩, hword, ok_bind]
  simp only [List.drop_length]

end Scanning

/-- **The loop over the arguments**: the numbers of the message take the places from `i` on, one each.  One more
argument is counted where numbers are left. -/
theorem scanArgs_integers (ev : Events S) (id : ℤ) {k : ℕ} (hkind : ∀ m, m < k → (ev.format id)[1 + 3 * m]? = some 100)
    {vs : List ℤ} (hne : vs ≠ []) (hvs : ∀ v ∈ vs, InRange v) (front back : List (Option ℤ)) (hback : back ≠ [])
    (hk : front.length + back.length = k) :
    scanArgs ev id back.length front.length (1 + 3 * front.length) (integersText vs) none (front ++ back) =
      .ok (some (front.length + min vs.length (back.length + 1), none,
        front ++ (vs.take back.length).map some ++ back.drop vs.length)) := by
  induction back generalizing vs front with
  | nil => exact absurd rfl hback
  | cons b back ih =>
    cases vs with
    | nil => exact absurd rfl hne
    | cons v vs =>
      have hkind' := hkind front.length (by rw [List.length_cons] at hk; omega)
      obtain ⟨hlo, hhi⟩ := hvs v List.mem_cons_self
      have hset : (front ++ b :: back).set front.length (some (intValue v)) = (front ++ [some v]) ++ back := by
        rw [intValue_of_fits hlo hhi, List.set_append_right _ _ (Nat.le_refl _), Nat.sub_self]
        simp
      have hscan : scanInt (integersText (v :: vs)) = .val v (vs.flatMap fun w => 32 :: decimalInt w) := by
        refine scanInt_decimalInt v _ fun c hc => ?_
        cases vs with
        | nil => cases hc
        | cons w ws =>
          obtain rfl := Option.some.inj hc
          rfl
      rw [List.length_cons, scanArgs]
      simp only [hkind', if_true, hscan, hset]
      cases vs with
      | nil =>
        simp only [List.flatMap_nil, List.length_cons, List.length_nil, List.take_succ_cons, List.take_nil,
          List.map_cons, List.map_nil, List.drop_succ_cons, List.drop_zero]
        congr 4
      | cons w ws =>
        have hrest : (w :: ws).flatMap (fun w => 32 :: decimalInt w) = 32 :: integersText (w :: ws) := rfl
        simp only [hrest]
        rw [if_neg (by decide), if_pos trivial]
        cases back with
        | nil =>
          have hcount : min (v :: w :: ws).length (([] : List (Option ℤ)).length + 1 + 1) = 2 := by
            simp only [List.length_cons, List.length_nil]
            omega
          rw [hcount]
          simp only [List.length_nil, scanArgs, List.take_succ_cons, List.take_zero, List.map_cons, List.map_nil,
            List.drop_succ_cons, List.drop_nil, List.append_nil, List.length_cons]
        | cons b' back =>
          have hrec := ih (List.cons_ne_nil w ws) (fun x hx => hvs x (List.mem_cons_of_mem v hx)) (front ++ [some v])
            (List.cons_ne_nil b' back) (by simp only [List.length_append, List.length_cons, List.length_nil] at hk ⊢; omega)
          have hlen : (front ++ [some v]).length = front.length + 1 := by
            rw [List.length_append, List.length_singleton]
          rw [hlen, show 1 + 3 * (front.length + 1) = 1 + 3 * front.length + 3 by omega] at hrec
          have hcount : front.length + 1 + min (w :: ws).length ((b' :: back).length + 1) =
              front.length + min (v :: w :: ws).length ((b :: b' :: back).length + 1) := by
            simp only [List.length_cons]
            omega
          have hargs : front ++ [some v] ++ ((w :: ws).take (b' :: back).length).map some ++
                (b' :: back).drop (w :: ws).length =
              front ++ ((v :: w :: ws).take (b :: b' :: back).length).map some ++
                (b :: b' :: back).drop (v :: w :: ws).length := by
            simp
          rw [hrec, hcount, hargs]
          rfl

/-! ## The message -/

section Message

variable {index : IndexMap} {id : ℤ} {k flags : ℕ} {defaults vs : List ℤ}

theorem integersText_no_zero (vs : List ℤ) : (0 : UInt8) ∉ integersText vs :=
  integersText_no vs (by decide) (by decide) (by decide)

/-- What `vj_event_parse_msg` gives to `vj_event_fire_net_event`. -/
theorem select_integers (hev : IntegerEvent index id k flags defaults) (base : Events S) (get : ℤ → Option ℕ)
    (hne : vs ≠ []) (hvs : ∀ v ∈ vs, InRange v) (tail : List UInt8) :
    select (indexEvents index base) get ⟨integerMessage id vs ++ 0 :: tail, (integerMessage id vs).length⟩ =
      .ok (fireNetEvent (indexEvents index base) get id none ((vs.take k ++ defaults.drop vs.length).map some)
        (if flags.testBit 4 then k else min vs.length (k + 1)) (base.storeMacro id (integerMessage id vs))
        fun s => s) := by
  have hpos := hev.pos
  have hback : (defaults.map some).length = k := by
    rw [List.length_map, hev.length]
  have hfirst : ((indexEvents index base).format id)[1]? = some 100 := hev.kind base (m := 0) hpos
  have hinitial : initialArgs (indexEvents index base) id = defaults.map some := by
    rw [initialArgs, hev.numArgs base]
    simp only [hfirst, if_true]
    exact hev.argDefaults base
  have hscan := scanArgs_integers (indexEvents index base) id (fun m hm => hev.kind base hm) hne hvs []
    (defaults.map some) (List.ne_nil_of_length_pos (by omega)) (by simpa using hback)
  rw [hback] at hscan
  simp only [List.length_nil, Nat.mul_zero, Nat.add_zero, List.nil_append, Nat.zero_add] at hscan
  have h59 : (59 : UInt8) ∉ integersText vs := integersText_no vs (by decide) (by decide) (by decide)
  rw [integerMessage, select_arguments _ get hev.valid hev.noBundle (by rw [hev.numArgs base]; omega)
    (integersText_ne_nil hne) h59 (integersText_no_zero vs) tail, hev.numArgs base, hinitial, hscan, ok_bind,
    hev.allowAny base]
  simp only [List.map_append, List.map_drop]
  rfl

end Message

/-! ## Firing -/

/-- An event is fired with these numbers: its function runs once, after a macro took the message; the function of
`VIMS_BUNDLE` runs the bundle that the number names. -/
def fireOnce (ev : Events S) (fuel : ℕ) (id : ℤ) (text : CStr) (args : List ℤ) (s : S) : Exec S :=
  if id = vimsBundle then
    match args.head?.bind (ev.bundleGet s) with
    | none => .ok s
    | some block =>
      match ev.textAt s block with
      | none => .error .useAfterFree
      | some t => parseBundle (parseMsg ev fuel) (fun s' => ev.textAt s' block == some t) (t ++ [0]) s
  else .ok (ev.fire id none (args.map some) (ev.storeMacro id text s))

section Firing

variable {index : IndexMap} {id : ℤ} {k flags : ℕ} {defaults vs : List ℤ}

/-- **What an integer message does.**  With as many numbers as the event has, its function runs once, with these
numbers in their order; with others it runs only where the event allows any: fewer numbers are followed by the
defaults of the other places, and the numbers that are too many are left out. -/
theorem parseMsg_integers (hev : IntegerEvent index id k flags defaults) (base : Events S) (hne : vs ≠ [])
    (hvs : ∀ v ∈ vs, InRange v) (tail : List UInt8) (fuel : ℕ) (s : S) :
    parseMsg (indexEvents index base) (fuel + 1)
        ⟨integerMessage id vs ++ 0 :: tail, (integerMessage id vs).length⟩ s =
      if vs.length = k ∨ flags.testBit 4 = true then
        fireOnce (indexEvents index base) fuel id (integerMessage id vs) (vs.take k ++ defaults.drop vs.length) s
      else .ok (base.storeMacro id (integerMessage id vs) s) := by
  have hselect := select_integers hev base ((indexEvents index base).bundleGet s) hne hvs tail
  have hverify : ∀ args n, verifyArgs (indexEvents index base) id args n = decide (n = k) := by
    intro args n
    rw [verifyArgs, if_pos hev.noPreset, hev.numArgs base]
  have hstrings : stringsThere (indexEvents index base) id none k = true := by
    refine List.all_eq_true.mpr fun i hi => ?_
    rw [hev.kind base (List.mem_range.mp hi)]
    rfl
  rw [parseMsg, hselect, ok_bind, fireNetEvent, hverify]
  by_cases hfire : vs.length = k ∨ flags.testBit 4 = true
  · have hcount : (if flags.testBit 4 = true then k else min vs.length (k + 1)) = k := by
      split_ifs with hany
      · rfl
      · have := hfire.resolve_right hany
        omega
    rw [if_pos hfire, hcount, decide_eq_true rfl, hstrings, fireOnce]
    simp only [Bool.not_true, Bool.false_eq_true, if_false, and_false]
    by_cases hb : id = vimsBundle
    · rw [if_pos hb, if_pos hb]
      generalize vs.take k ++ defaults.drop vs.length = args
      cases args with
      | nil => rfl
      | cons n args =>
        simp only [List.map_cons, List.getElem?_cons_zero, List.head?_cons, Option.bind_some]
        cases (indexEvents index base).bundleGet s n with
        | none => rfl
        | some block => rfl
    · rw [if_neg hb, if_neg hb]
      rfl
  · have hcount : (if flags.testBit 4 = true then k else min vs.length (k + 1)) ≠ k := by
      rw [if_neg fun h => hfire (.inr h)]
      intro h
      exact hfire (.inl (by omega))
    rw [if_neg hfire, decide_eq_false hcount, if_pos (by rfl)]

end Firing

/-- An event of two numbers, with the defaults 0 and 1, that allows any. -/
def pairIndex : IndexMap := fun id => if id = 20 then some (newEvent (lit "%d %d") 2 16 [.int 0, .int 1]) else none

/-- The state is what was fired. -/
def firedEvents : Events (List (ℤ × List (Option ℤ))) where
  bundleGet _ _ := none
  textAt _ _ := none
  numArgs _ := 0
  format _ := []
  defaultValue _ _ := 0
  allowAny _ := false
  longParams _ := false
  requireAll _ := false
  fire id _ args s := s ++ [(id, args)]
  parseKf _ s := s
  storeMacro _ _ s := s

/-- One number of two: the other one is the default. -/
theorem parseMsg_integers_pair :
    parseMsg (indexEvents pairIndex firedEvents) 1 ⟨integerMessage 20 [-3] ++ [0], (integerMessage 20 [-3]).length⟩ [] =
      .ok [(20, [some (-3), some 1])] := by
  have hev : IntegerEvent pairIndex 20 2 16 [0, 1] :=
    ⟨by decide, by decide, by decide, by decide, by decide, rfl, rfl⟩
  have hvs : ∀ v ∈ ([-3] : List ℤ), InRange v := by decide
  exact (parseMsg_integers hev firedEvents (List.cons_ne_nil _ _) hvs [] 0 []).trans rfl

end Veejay.Vims
