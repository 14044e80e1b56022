import Veejay.CLib.Fields
import Veejay.Keyframes.Packet

/-!
# Keyframes in a samplelist

`keyframe_xml_pack` writes an element for each keyframe of a parameter, without the frame that it is for;
`keyframe_xml_unpack` gives the first value to the first frame of the range, the second value to the second frame, and
so on (`veejay/vjkf.c`).

* `keyframeXmlPack`, `keyframeXmlUnpack` — the two functions, with the texts of the elements;
* `presentValues` — the values that are written; `Gapless` — where their frames are the first ones of the range;
* `stored` — the map of a port into which the values were read;
* `keyframeXmlPack_eq`, `keyframeXmlUnpack_eq` — what is written, and what is read;
* `xmlRestored_iff` — **the round trip**: no gap, and nothing in the last frame.
-/

namespace Veejay.Keyframes

open CLib Vevo

/-! ## The functions -/

/-- An element: its name and its text. -/
abbrev Element := CStr × CStr

/-- The loop of `keyframe_xml_pack` from frame `i` on. -/
def xmlValues (port : Port) (parameterId : ℤ) : ℕ → ℤ → Exec (List Element)
  | 0, _ => .ok []
  | n + 1, i => do
    let value ← getInt port (keyframeId parameterId i)
    let rest ← xmlValues port parameterId n (i + 1)
    .ok (match value with
      | some value => (lit "value", decimalInt parameterId ++ 32 :: decimalInt value) :: rest
      | none => rest)

/-- `keyframe_xml_pack`: the elements; none where the parameter has no range. -/
def keyframeXmlPack (port : Port) (parameterId : ℤ) : Exec (Option (List Element)) := do
  match ← getInt port (extract "start" parameterId) with
  | none => .ok none
  | some start =>
    match ← getInt port (extract "end" parameterId) with
    | none => .ok none
    | some end_ =>
      match ← getInt port (extract "type" parameterId) with
      | none => .ok none
      | some type =>
        -- `for (i = start; i < end; i++)`
        let values ← xmlValues port parameterId (end_ - start).toNat start
        .ok (some ((extract "start" parameterId, decimalInt start) :: (extract "end" parameterId, decimalInt end_) ::
          (extract "type" parameterId, decimalInt type) :: values))

/-- `get_xml_2int`: `sscanf (ch, "%d %d", &res, second)`, for two numbers that are zero before. -/
def getXml2int (s : CStr) : ℤ × ℤ :=
  match scanInt s with
  | .val res rest =>
    match scanInt rest with
    | .val second _ => (intValue res, intValue second)
    | _ => (intValue res, 0)
  | _ => (0, 0)

/-- `!xmlStrncmp (name, prefix, n)` -/
def sameStart (name key : CStr) (n : ℕ) : Bool := name.take n == key.take n

/-- The locals of `keyframe_xml_unpack` that it uses, and the port. -/
structure XmlState where
  start : ℤ
  frame : ℤ
  nodes : ℤ
  port : Port

/-- One element. -/
def xmlElement (s : XmlState) (node : Element) : Exec XmlState :=
  if sameStart node.1 (lit "start") 4 then do
    let (_, port) ← vevoPropertySet s.port node.1 .int [Int32.ofInt (atoi node.2)]
    .ok { s with start := atoi node.2, nodes := s.nodes + 1, port := port }
  else if sameStart node.1 (lit "end") 3 then do
    let (_, port) ← vevoPropertySet s.port node.1 .int [Int32.ofInt (atoi node.2)]
    .ok { s with port := port }
  else if sameStart node.1 (lit "type") 4 then do
    let (_, port) ← vevoPropertySet s.port node.1 .int [Int32.ofInt (atoi node.2)]
    .ok { s with port := port }
  else if node.1 = lit "value" then do
    let (pid, val) := getXml2int node.2
    let (_, port) ← vevoPropertySet s.port (keyframeId pid (s.start + s.frame)) .int [Int32.ofInt val]
    .ok { s with frame := s.frame + 1, port := port }
  else .ok s

/-- `keyframe_xml_unpack`: what it returns, and the port. -/
def keyframeXmlUnpack (nodes : List Element) (port : Port) : Exec (ℤ × Port) := do
  let s ← nodes.foldlM xmlElement ⟨0, 0, 0, port⟩
  .ok (s.nodes, s.port)

/-! ## What is to be restored -/

/-- The keyframe of a frame, in a port of numbers. -/
def frameIn (f : UInt64 → Option Int32) (parameterId i : ℤ) : Option Int32 := f (hashKeyCode (keyframeId parameterId i))

/-- **The keyframes are there again** in an empty port: the range and the type, and the same value in the same frames
of the range. -/
def XmlRestored (p : Port) (parameterId start end_ : ℤ) : Prop :=
  ∃ nodes r q, keyframeXmlPack p parameterId = .ok (some nodes) ∧
    keyframeXmlUnpack nodes (vevoPortNew (-1)) = .ok (r, q) ∧
    (∀ key ∈ ["start", "end", "type"], getInt q (extract key parameterId) = getInt p (extract key parameterId)) ∧
    ∀ i, start ≤ i → i ≤ end_ → getInt q (keyframeId parameterId i) = getInt p (keyframeId parameterId i)

/-- No frame without a keyframe is in front of one with a keyframe, up to the last frame of the range. -/
def Gapless (f : UInt64 → Option Int32) (parameterId start end_ : ℤ) : Prop :=
  ∀ i i', start ≤ i → i ≤ i' → i' < end_ → frameIn f parameterId i' ≠ none → frameIn f parameterId i ≠ none

/-- The last frame of the range has no keyframe, or the vevo port takes its name for another one that is written. -/
def LastFrameFree (f : UInt64 → Option Int32) (parameterId start end_ : ℤ) : Prop :=
  frameIn f parameterId end_ = none ∨
    (∃ i, start ≤ i ∧ i < end_ ∧ hashKeyCode (keyframeId parameterId i) = hashKeyCode (keyframeId parameterId end_)) ∨
    ∃ key ∈ ["start", "end", "type"], hashKeyCode (extract key parameterId) = hashKeyCode (keyframeId parameterId end_)

/-! ## Writing -/

/-- The frame `k` behind the next one. -/
theorem frame_succ (i : ℤ) (k : ℕ) : i + 1 + (k : ℤ) = i + ((k + 1 : ℕ) : ℤ) := by
  push_cast
  omega

section Values

variable (f : UInt64 → Option Int32) (parameterId : ℤ)

/-- The keyframes of the frames `i` to `i + n - 1` that there are, in order. -/
def presentValues : ℕ → ℤ → List Int32
  | 0, _ => []
  | n + 1, i => (frameIn f parameterId i).toList ++ presentValues n (i + 1)

/-- The element of a value. -/
def valueElement (v : Int32) : Element := (lit "value", decimalInt parameterId ++ 32 :: decimalInt v.toInt)

theorem xmlValues_eq {p : Port} (hp : IntPort p f) (n : ℕ) :
    ∀ i, xmlValues p parameterId n i = .ok ((presentValues f parameterId n i).map (valueElement parameterId)) := by
  induction n with
  | zero => exact fun _ => rfl
  | succ n ih =>
    intro i
    rw [xmlValues, getInt_eq hp, ok_bind, ih, ok_bind, presentValues, frameIn]
    cases f (hashKeyCode (keyframeId parameterId i)) <;> rfl

theorem presentValues_length_le (n : ℕ) : ∀ i, (presentValues f parameterId n i).length ≤ n := by
  induction n with
  | zero => exact fun _ => Nat.le_refl 0
  | succ n ih =>
    intro i
    have hle := ih (i + 1)
    rw [presentValues, List.length_append]
    cases frameIn f parameterId i with
    | none =>
      rw [Option.toList_none, List.length_nil]
      omega
    | some v =>
      rw [Option.toList_some, List.length_singleton]
      omega

theorem presentValues_eq_nil {n : ℕ} : ∀ {i : ℤ}, presentValues f parameterId n i = [] →
    ∀ j < n, frameIn f parameterId (i + (j : ℕ)) = none := by
  induction n with
  | zero => exact fun _ j hj => absurd hj (Nat.not_lt_zero j)
  | succ n ih =>
    intro i h j hj
    obtain ⟨hhead, htail⟩ := List.append_eq_nil_iff.mp h
    cases j with
    | zero =>
      rw [Nat.cast_zero, add_zero]
      exact Option.toList_eq_nil_iff.mp hhead
    | succ j =>
      have hnone := ih htail j (by omega)
      rwa [frame_succ] at hnone

theorem presentValues_of_absent {n : ℕ} : ∀ {i : ℤ}, (∀ j < n, frameIn f parameterId (i + (j : ℕ)) = none) →
    presentValues f parameterId n i = [] := by
  induction n with
  | zero => exact fun _ => rfl
  | succ n ih =>
    intro i h
    have hhead := h 0 (Nat.succ_pos n)
    rw [Nat.cast_zero, add_zero] at hhead
    rw [presentValues, hhead, Option.toList_none, List.nil_append]
    refine ih fun j hj => ?_
    have hnone := h (j + 1) (by omega)
    rwa [← frame_succ] at hnone

/-- If as many frames as there are values are the first ones, there are no others. -/
theorem absent_of_first {n : ℕ} : ∀ {i : ℤ},
    (∀ j < (presentValues f parameterId n i).length, frameIn f parameterId (i + (j : ℕ)) ≠ none) →
      ∀ j < n, (presentValues f parameterId n i).length ≤ j → frameIn f parameterId (i + (j : ℕ)) = none := by
  induction n with
  | zero => exact fun _ j hj => absurd hj (Nat.not_lt_zero j)
  | succ n ih =>
    intro i hfirst j hj hle
    rw [presentValues, List.length_append] at hfirst hle
    cases hhead : frameIn f parameterId i with
    | none =>
      -- the first frame would have to be one with a keyframe
      rw [hhead, Option.toList_none, List.length_nil, Nat.zero_add] at hfirst
      have hnil : presentValues f parameterId n (i + 1) = [] := by
        by_contra hne
        have h := hfirst 0 (List.length_pos_of_ne_nil hne)
        rw [Nat.cast_zero, add_zero] at h
        exact h hhead
      refine presentValues_eq_nil f parameterId (n := n + 1) ?_ j hj
      rw [presentValues, hhead, hnil]
      rfl
    | some v =>
      rw [hhead, Option.toList_some, List.length_singleton] at hfirst hle
      obtain ⟨j, rfl⟩ : ∃ k, j = k + 1 := ⟨j - 1, by omega⟩
      rw [← frame_succ]
      refine @ih (i + 1) (fun k hk => ?_) j (by omega) (by omega)
      have h := hfirst (k + 1) (by omega)
      rwa [← frame_succ] at h

/-- Without a gap the values are those of the first frames. -/
theorem presentValues_gapless {n : ℕ} : ∀ {i : ℤ}, Gapless f parameterId i (i + (n : ℕ)) →
    (∀ j < (presentValues f parameterId n i).length,
      frameIn f parameterId (i + (j : ℕ)) = (presentValues f parameterId n i)[j]?) ∧
    ∀ j < n, (presentValues f parameterId n i).length ≤ j → frameIn f parameterId (i + (j : ℕ)) = none := by
  induction n with
  | zero => exact fun _ => ⟨fun j hj => absurd hj (Nat.not_lt_zero j), fun j hj => absurd hj (Nat.not_lt_zero j)⟩
  | succ n ih =>
    intro i hgap
    cases hhead : frameIn f parameterId i with
    | none =>
      -- behind a frame without a keyframe there is none
      have habsent : ∀ j < n + 1, frameIn f parameterId (i + (j : ℕ)) = none := by
        intro j hj
        by_contra hne
        exact hgap i (i + (j : ℕ)) le_rfl (by omega) (by push_cast; omega) hne hhead
      rw [presentValues_of_absent f parameterId habsent]
      exact ⟨fun j hj => absurd hj (Nat.not_lt_zero j), fun j hj _ => habsent j hj⟩
    | some v =>
      obtain ⟨hvalues, habsent⟩ := @ih (i + 1) fun a b ha hab hb => hgap a b (by omega) hab (by push_cast; omega)
      rw [presentValues, hhead, Option.toList_some, List.singleton_append, List.length_cons]
      refine ⟨fun j hj => ?_, fun j hj hle => ?_⟩
      · cases j with
        | zero =>
          rw [Nat.cast_zero, add_zero, hhead]
          rfl
        | succ j =>
          rw [← frame_succ, hvalues j (by omega), List.getElem?_cons_succ]
      · obtain ⟨j, rfl⟩ : ∃ k, j = k + 1 := ⟨j - 1, by omega⟩
        rw [← frame_succ]
        exact habsent j (by omega) (by omega)

end Values

/-- The elements of the range and the type. -/
def rangeElements (parameterId : ℤ) (start end_ type : Int32) : List Element :=
  [(extract "start" parameterId, decimalInt start.toInt), (extract "end" parameterId, decimalInt end_.toInt),
    (extract "type" parameterId, decimalInt type.toInt)]

/-- **What is written.** -/
theorem keyframeXmlPack_eq {p : Port} {f : UInt64 → Option Int32} {parameterId : ℤ} {start end_ type : Int32}
    (hp : IntPort p f) (hrange : HasRange f parameterId start end_ type) :
    keyframeXmlPack p parameterId = .ok (some (rangeElements parameterId start end_ type ++
      (presentValues f parameterId (end_.toInt - start.toInt).toNat start.toInt).map (valueElement parameterId))) := by
  rw [keyframeXmlPack, getInt_eq hp, hrange.start_eq, ok_bind]
  dsimp only [Option.map_some]
  rw [getInt_eq hp, hrange.end_eq, ok_bind]
  dsimp only [Option.map_some]
  rw [getInt_eq hp, hrange.type_eq, ok_bind]
  dsimp only [Option.map_some]
  rw [xmlValues_eq f parameterId hp, ok_bind]
  rfl

/-! ## Reading -/

/-- The map of a port after values were stored from frame `i` on. -/
def withValues (parameterId : ℤ) : ℤ → List Int32 → (UInt64 → Option Int32) → UInt64 → Option Int32
  | _, [], g => g
  | i, v :: vs, g =>
    withValues parameterId (i + 1) vs (Function.update g (hashKeyCode (keyframeId parameterId i)) (some v))

section Reading

variable {parameterId : ℤ}

/-- What is in the port: what was in it, and the frames. -/
theorem withValues_ne_none {vs : List Int32} {h : UInt64} : ∀ {i : ℤ} {g : UInt64 → Option Int32},
    withValues parameterId i vs g h ≠ none ↔
      g h ≠ none ∨ ∃ j < vs.length, hashKeyCode (keyframeId parameterId (i + (j : ℕ))) = h := by
  induction vs with
  | nil => exact fun {_ _} => ⟨.inl, fun h => h.resolve_right fun ⟨j, hj, _⟩ => absurd hj (Nat.not_lt_zero j)⟩
  | cons v vs ih =>
    intro i g
    rw [withValues, ih]
    constructor
    · rintro (hg | ⟨j, hj, hcode⟩)
      · by_cases hhead : h = hashKeyCode (keyframeId parameterId i)
        · exact .inr ⟨0, Nat.succ_pos _, by rw [Nat.cast_zero, add_zero, hhead]⟩
        · rw [Function.update_of_ne hhead] at hg
          exact .inl hg
      · exact .inr ⟨j + 1, Nat.succ_lt_succ hj, by rw [← frame_succ, hcode]⟩
    · by_cases hhead : h = hashKeyCode (keyframeId parameterId i)
      · intro _
        left
        rw [hhead, Function.update_self]
        exact Option.some_ne_none v
      · rw [Function.update_of_ne hhead]
        rintro (hg | ⟨j, hj, hcode⟩)
        · exact .inl hg
        · cases j with
          | zero =>
            rw [Nat.cast_zero, add_zero] at hcode
            exact absurd hcode.symm hhead
          | succ j => exact .inr ⟨j, Nat.lt_of_succ_lt_succ hj, by rw [frame_succ, hcode]⟩

/-- Values that are those of another port leave what is in that port too. -/
theorem withValues_agrees {f : UInt64 → Option Int32} {vs : List Int32} : ∀ {i : ℤ} {g : UInt64 → Option Int32},
    (∀ h, g h ≠ none → g h = f h) → (∀ j < vs.length, frameIn f parameterId (i + (j : ℕ)) = vs[j]?) →
      ∀ h, withValues parameterId i vs g h ≠ none → withValues parameterId i vs g h = f h := by
  induction vs with
  | nil => exact fun hg _ => hg
  | cons v vs ih =>
    intro i g hg hvs
    refine ih (fun h hne => ?_) fun j hj => ?_
    · by_cases hhead : h = hashKeyCode (keyframeId parameterId i)
      · have hfirst := hvs 0 (Nat.succ_pos _)
        rw [Nat.cast_zero, add_zero, frameIn] at hfirst
        rw [hhead, Function.update_self, hfirst]
        rfl
      · rw [Function.update_of_ne hhead] at hne ⊢
        exact hg h hne
    · have hnext := hvs (j + 1) (Nat.succ_lt_succ hj)
      rwa [List.getElem?_cons_succ, ← frame_succ] at hnext

theorem getXml2int_eq {pid : ℤ} (hpid : InInt pid) (v : Int32) :
    getXml2int (decimalInt pid ++ 32 :: decimalInt v.toInt) = (pid, v.toInt) := by
  have hfirst := scanInt_decimalInt pid (32 :: decimalInt v.toInt) (by rintro c ⟨⟩; rfl)
  have hsecond := scanInt_blank_decimalInt v.toInt [] (fun _ h => by cases h)
  rw [List.append_nil] at hsecond
  have hv := inInt_toInt v
  rw [getXml2int, hfirst]
  dsimp only
  rw [hsecond]
  dsimp only
  rw [intValue_of_fits hpid.1 hpid.2, intValue_of_fits hv.1 hv.2]

theorem atoi_toInt (v : Int32) : Int32.ofInt (atoi (decimalInt v.toInt)) = v ∧ atoi (decimalInt v.toInt) = v.toInt := by
  have hv := inInt_toInt v
  have h := atoi_decimalInt hv.1 hv.2 [] (fun _ h => by cases h)
  rw [List.append_nil] at h
  exact ⟨by rw [h, Int32.ofInt_toInt], h⟩

/-- The element of a value is stored in the next frame. -/
theorem xmlElement_value (hpid : InInt parameterId) {s : XmlState} {g : UInt64 → Option Int32} (hs : IntPort s.port g)
    (v : Int32) :
    Ensures (xmlElement s (valueElement parameterId v)) fun s' =>
      s'.start = s.start ∧ s'.frame = s.frame + 1 ∧
        IntPort s'.port (Function.update g (hashKeyCode (keyframeId parameterId (s.start + s.frame))) (some v)) := by
  have hname : ∀ key ∈ [(lit "start", 4), (lit "end", 3), (lit "type", 4)],
      ¬ sameStart (lit "value") key.1 key.2 = true := by decide
  obtain ⟨⟨e, port⟩, hset, hport⟩ := set_intPort hs (keyframeId parameterId (s.start + s.frame)) v
  refine ⟨{ s with frame := s.frame + 1, port := port }, ?_, rfl, rfl, hport⟩
  rw [xmlElement, valueElement]
  dsimp only
  rw [if_neg (hname (lit "start", 4) (by simp)), if_neg (hname (lit "end", 3) (by simp)),
    if_neg (hname (lit "type", 4) (by simp)), if_pos rfl, getXml2int_eq hpid]
  dsimp only
  rw [Int32.ofInt_toInt, hset, ok_bind]

/-- **The values are stored** one behind the other. -/
theorem xmlElements_values (hpid : InInt parameterId) (vs : List Int32) :
    ∀ {s : XmlState} {g : UInt64 → Option Int32}, IntPort s.port g →
      Ensures ((vs.map (valueElement parameterId)).foldlM xmlElement s) fun s' =>
        IntPort s'.port (withValues parameterId (s.start + s.frame) vs g) := by
  induction vs with
  | nil => exact fun {s _} hs => ⟨s, rfl, hs⟩
  | cons v vs ih =>
    intro s g hs
    obtain ⟨s₁, hfirst, hstart, hframe, hport⟩ := xmlElement_value hpid hs v
    obtain ⟨s₂, hrest, hport₂⟩ := ih hport
    refine ⟨s₂, ?_, ?_⟩
    · rw [List.map_cons, List.foldlM_cons, hfirst, ok_bind, hrest]
    · rw [hstart, hframe, ← add_assoc] at hport₂
      exact hport₂

/-- **What is read.** -/
theorem keyframeXmlUnpack_eq (hpid : InInt parameterId) (start end_ type : Int32) (vs : List Int32) :
    Ensures (keyframeXmlUnpack (rangeElements parameterId start end_ type ++ vs.map (valueElement parameterId))
        (vevoPortNew (-1))) fun a =>
      IntPort a.2 (withValues parameterId start.toInt vs (withRange (fun _ => none) parameterId start end_ type)) := by
  obtain ⟨⟨_, port₁⟩, ha, hport₁⟩ := set_intPort intPort_new (extract "start" parameterId) start
  obtain ⟨⟨_, port₂⟩, hb, hport₂⟩ := set_intPort (show IntPort port₁ _ from hport₁) (extract "end" parameterId) end_
  obtain ⟨⟨_, port₃⟩, hc, hport₃⟩ := set_intPort (show IntPort port₂ _ from hport₂) (extract "type" parameterId) type
  have hstart : xmlElement ⟨0, 0, 0, vevoPortNew (-1)⟩ (extract "start" parameterId, decimalInt start.toInt) =
      .ok ⟨start.toInt, 0, 1, port₁⟩ := by
    have hname : sameStart (extract "start" parameterId) (lit "start") 4 = true := rfl
    rw [xmlElement, if_pos hname, (atoi_toInt start).1, (atoi_toInt start).2, ha, ok_bind]
    rfl
  have hend : xmlElement ⟨start.toInt, 0, 1, port₁⟩ (extract "end" parameterId, decimalInt end_.toInt) =
      .ok ⟨start.toInt, 0, 1, port₂⟩ := by
    have hname : sameStart (extract "end" parameterId) (lit "start") 4 = false := rfl
    have hname' : sameStart (extract "end" parameterId) (lit "end") 3 = true := rfl
    rw [xmlElement, hname, if_neg Bool.false_ne_true, if_pos hname', (atoi_toInt end_).1, hb, ok_bind]
  have htype : xmlElement ⟨start.toInt, 0, 1, port₂⟩ (extract "type" parameterId, decimalInt type.toInt) =
      .ok ⟨start.toInt, 0, 1, port₃⟩ := by
    have hname : sameStart (extract "type" parameterId) (lit "start") 4 = false := rfl
    have hname' : sameStart (extract "type" parameterId) (lit "end") 3 = false := rfl
    have hname'' : sameStart (extract "type" parameterId) (lit "type") 4 = true := rfl
    rw [xmlElement, hname, if_neg Bool.false_ne_true, hname', if_neg Bool.false_ne_true, if_pos hname'',
      (atoi_toInt type).1, hc, ok_bind]
  obtain ⟨s, hvalues, hs⟩ := xmlElements_values hpid vs
    (show IntPort (XmlState.mk start.toInt 0 1 port₃).port _ from hport₃)
  rw [add_zero] at hs
  refine ⟨(s.nodes, s.port), ?_, hs⟩
  rw [keyframeXmlUnpack, rangeElements, List.cons_append, List.cons_append, List.cons_append, List.nil_append,
    List.foldlM_cons, hstart, ok_bind, List.foldlM_cons, hend, ok_bind, List.foldlM_cons, htype, ok_bind, hvalues,
    ok_bind]

end Reading

/-! ## The round trip -/

section RoundTrip

variable {p : Port} {f : UInt64 → Option Int32} {parameterId : ℤ} {start end_ type : Int32}

/-- What is in a port of a range only. -/
theorem withRange_ne_none {h : UInt64} : withRange (fun _ => none) parameterId start end_ type h ≠ none ↔
    ∃ key ∈ ["start", "end", "type"], hashKeyCode (extract key parameterId) = h := by
  constructor
  · intro hne
    by_contra hnot
    push Not at hnot
    exact hne (withRange_other start end_ type fun key hkey => hnot key hkey)
  · rintro ⟨key, hkey, rfl⟩
    rw [withRange, Function.update_apply, Function.update_apply, Function.update_apply]
    simp only [List.mem_cons, List.not_mem_nil, or_false] at hkey
    split_ifs with htype hend hstart
    · exact Option.some_ne_none _
    · exact Option.some_ne_none _
    · exact Option.some_ne_none _
    · rcases hkey with rfl | rfl | rfl
      · exact absurd rfl hstart
      · exact absurd rfl hend
      · exact absurd rfl htype

/-- The range and the type are those of the other port. -/
theorem withRange_agrees (hrange : HasRange f parameterId start end_ type) (h : UInt64)
    (hne : withRange (fun _ => none) parameterId start end_ type h ≠ none) :
    withRange (fun _ => none) parameterId start end_ type h = f h := by
  rw [withRange, Function.update_apply, Function.update_apply, Function.update_apply] at hne ⊢
  split_ifs at hne ⊢ with htype hend hstart
  · rw [htype, hrange.type_eq]
  · rw [hend, hrange.end_eq]
  · rw [hstart, hrange.start_eq]
  · exact absurd rfl hne

/-- The map of the port that the keyframes of another port are read into. -/
def reread (f : UInt64 → Option Int32) (parameterId : ℤ) (start end_ type : Int32) : UInt64 → Option Int32 :=
  withValues parameterId start.toInt (presentValues f parameterId (end_.toInt - start.toInt).toNat start.toInt)
    (withRange (fun _ => none) parameterId start end_ type)

theorem reread_ne_none {h : UInt64} : reread f parameterId start end_ type h ≠ none ↔
    (∃ key ∈ ["start", "end", "type"], hashKeyCode (extract key parameterId) = h) ∨
      ∃ j < (presentValues f parameterId (end_.toInt - start.toInt).toNat start.toInt).length,
        hashKeyCode (keyframeId parameterId (start.toInt + (j : ℕ))) = h := by
  rw [reread, withValues_ne_none, withRange_ne_none]

/-- The port that is read is the other one, as far as its names and the range go. -/
theorem xmlRestored_iff_reread (hp : IntPort p f) (hpid : InInt parameterId)
    (hrange : HasRange f parameterId start end_ type) :
    XmlRestored p parameterId start.toInt end_.toInt ↔
      (∀ key ∈ ["start", "end", "type"], reread f parameterId start end_ type (hashKeyCode (extract key parameterId)) =
        f (hashKeyCode (extract key parameterId))) ∧
      ∀ i, start.toInt ≤ i → i ≤ end_.toInt →
        reread f parameterId start end_ type (hashKeyCode (keyframeId parameterId i)) = frameIn f parameterId i := by
  obtain ⟨⟨r, q⟩, hunpack, hq⟩ := keyframeXmlUnpack_eq hpid start end_ type
    (presentValues f parameterId (end_.toInt - start.toInt).toNat start.toInt)
  have hqmap : IntPort q (reread f parameterId start end_ type) := hq
  have hsame : ∀ key, getInt q key = getInt p key ↔
      reread f parameterId start end_ type (hashKeyCode key) = f (hashKeyCode key) := by
    intro key
    rw [getInt_eq hqmap, getInt_eq hp]
    constructor
    · exact fun h => Option.map_injective (fun _ _ => Int32.toInt_inj.mp) (Except.ok.inj h)
    · exact fun h => by rw [h]
  constructor
  · rintro ⟨nodes, r', q', hpack, hunpack', hkeys, hframes⟩
    rw [keyframeXmlPack_eq hp hrange] at hpack
    obtain rfl := Option.some.inj (Except.ok.inj hpack)
    obtain ⟨-, rfl⟩ := Prod.mk.inj (Except.ok.inj (hunpack.symm.trans hunpack'))
    exact ⟨fun key hkey => (hsame _).mp (hkeys key hkey), fun i hlo hhi => (hsame _).mp (hframes i hlo hhi)⟩
  · rintro ⟨hkeys, hframes⟩
    exact ⟨_, r, q, keyframeXmlPack_eq hp hrange, hunpack, fun key hkey => (hsame _).mpr (hkeys key hkey),
      fun i hlo hhi => (hsame _).mpr (hframes i hlo hhi)⟩

/-- The frames in front of the last one are there again only without a gap. -/
theorem gapless_of_reread (hframes : ∀ i, start.toInt ≤ i → i ≤ end_.toInt →
    reread f parameterId start end_ type (hashKeyCode (keyframeId parameterId i)) = frameIn f parameterId i) :
    Gapless f parameterId start.toInt end_.toInt := by
  have hle := presentValues_length_le f parameterId (end_.toInt - start.toInt).toNat start.toInt
  -- the frames that are read are as many as were written
  have hfirst : ∀ j < (presentValues f parameterId (end_.toInt - start.toInt).toNat start.toInt).length,
      frameIn f parameterId (start.toInt + (j : ℕ)) ≠ none := by
    intro j hj
    rw [← hframes _ (by omega) (by omega)]
    exact reread_ne_none.mpr (.inr ⟨j, hj, rfl⟩)
  have habsent := absent_of_first f parameterId hfirst
  intro i i' hlo hii' hhi hpresent
  have hj : (i' - start.toInt).toNat <
      (presentValues f parameterId (end_.toInt - start.toInt).toNat start.toInt).length := by
    by_contra hnot
    have hnone := habsent (i' - start.toInt).toNat (by omega) (by omega)
    rw [show start.toInt + ((i' - start.toInt).toNat : ℤ) = i' by omega] at hnone
    exact hpresent hnone
  have hi := hfirst (i - start.toInt).toNat (by omega)
  rwa [show start.toInt + ((i - start.toInt).toNat : ℤ) = i by omega] at hi

/-- Without a gap, all that is read is what was written. -/
theorem reread_agrees (hrange : HasRange f parameterId start end_ type)
    (hgap : Gapless f parameterId start.toInt end_.toInt) (h : UInt64) :
    reread f parameterId start end_ type h ≠ none → reread f parameterId start end_ type h = f h := by
  have hvalues := @presentValues_gapless f parameterId (end_.toInt - start.toInt).toNat start.toInt
    fun i i' hlo hii' hhi => hgap i i' hlo hii' (by omega)
  exact withValues_agrees (withRange_agrees hrange) hvalues.1 h

/-- Without a gap, every frame in front of the last one is there again. -/
theorem reread_frame (hrange : HasRange f parameterId start end_ type)
    (hgap : Gapless f parameterId start.toInt end_.toInt) {i : ℤ} (hlo : start.toInt ≤ i) (hhi : i < end_.toInt) :
    reread f parameterId start end_ type (hashKeyCode (keyframeId parameterId i)) = frameIn f parameterId i := by
  have hvalues := @presentValues_gapless f parameterId (end_.toInt - start.toInt).toNat start.toInt
    fun i i' hlo hii' hhi => hgap i i' hlo hii' (by omega)
  have hi : start.toInt + ((i - start.toInt).toNat : ℤ) = i := by omega
  by_cases hj : (i - start.toInt).toNat <
      (presentValues f parameterId (end_.toInt - start.toInt).toNat start.toInt).length
  · exact reread_agrees hrange hgap _ (reread_ne_none.mpr (.inr ⟨_, hj, by rw [hi]⟩))
  · have hnone := hvalues.2 (i - start.toInt).toNat (by omega) (by omega)
    rw [hi] at hnone
    rw [hnone]
    by_contra hne
    exact hne ((reread_agrees hrange hgap _ hne).trans hnone)

/-- **Keyframes in a samplelist.**  The elements of a parameter restore its range, its type and its keyframes, in the
same frames, exactly if no frame without a keyframe is in front of one with a keyframe and the last frame of the range
has none. -/
theorem xmlRestored_iff (hp : IntPort p f) (hpid : InInt parameterId)
    (hrange : HasRange f parameterId start end_ type) :
    XmlRestored p parameterId start.toInt end_.toInt ↔
      Gapless f parameterId start.toInt end_.toInt ∧
        (start.toInt ≤ end_.toInt → LastFrameFree f parameterId start.toInt end_.toInt) := by
  rw [xmlRestored_iff_reread hp hpid hrange]
  have hle := presentValues_length_le f parameterId (end_.toInt - start.toInt).toNat start.toInt
  constructor
  · rintro ⟨-, hframes⟩
    refine ⟨gapless_of_reread hframes, fun hrangele => ?_⟩
    rw [LastFrameFree]
    by_cases hnone : frameIn f parameterId end_.toInt = none
    · exact .inl hnone
    · rw [← hframes _ hrangele le_rfl] at hnone
      rcases reread_ne_none.mp hnone with hkey | ⟨j, hj, hcode⟩
      · exact .inr (.inr hkey)
      · exact .inr (.inl ⟨start.toInt + (j : ℕ), by omega, by omega, hcode⟩)
  · rintro ⟨hgap, hlast⟩
    have hagrees := reread_agrees hrange hgap
    refine ⟨fun key hkey => hagrees _ (reread_ne_none.mpr (.inl ⟨key, hkey, rfl⟩)), fun i hlo hhi => ?_⟩
    by_cases hi : i < end_.toInt
    · exact reread_frame hrange hgap hlo hi
    · obtain rfl : i = end_.toInt := by omega
      rcases hlast hlo with hnone | ⟨i, hlo', hhi', hcode⟩ | hkey
      · rw [hnone]
        by_contra hne
        exact hne ((hagrees _ hne).trans hnone)
      · rw [frameIn, ← hcode]
        exact reread_frame hrange hgap hlo' hhi'
      · exact hagrees _ (reread_ne_none.mpr (.inl hkey))

end RoundTrip

/-- A curve from frame 0 to frame 2, with these keyframes. -/
def sparseCurve (l : List (CStr × Int32)) : List (CStr × Int32) :=
  [(extract "start" 0, 0), (extract "end" 0, 2), (extract "type" 0, 1)] ++ l

/-- A keyframe in the first frame. -/
theorem xmlRestored_first : ∃ p, XmlRestored p 0 (0 : Int32).toInt (2 : Int32).toInt ↔
    Gapless (mapOf (sparseCurve [(keyframeId 0 0, 5)])) 0 (0 : Int32).toInt (2 : Int32).toInt ∧
      ((0 : Int32).toInt ≤ (2 : Int32).toInt →
        LastFrameFree (mapOf (sparseCurve [(keyframeId 0 0, 5)])) 0 (0 : Int32).toInt (2 : Int32).toInt) := by
  obtain ⟨p, hp⟩ := exists_intPort (sparseCurve [(keyframeId 0 0, 5)])
  exact ⟨p, @xmlRestored_iff p _ 0 0 2 1 hp (by decide) ⟨by decide, by decide, by decide⟩⟩

/-- **A keyframe behind a frame without one** is in another frame after saving and loading. -/
theorem not_xmlRestored_gap : ¬ ∀ (p : Port) (f : UInt64 → Option Int32) (parameterId : ℤ) (start end_ type : Int32),
    IntPort p f → InInt parameterId → HasRange f parameterId start end_ type →
      XmlRestored p parameterId start.toInt end_.toInt := by
  intro h
  obtain ⟨p, hp⟩ := exists_intPort (sparseCurve [(keyframeId 0 1, 5)])
  have hrange : HasRange (mapOf (sparseCurve [(keyframeId 0 1, 5)])) 0 0 2 1 := ⟨by decide, by decide, by decide⟩
  have hrestored := h p _ 0 0 2 1 hp (by decide) hrange
  rw [xmlRestored_iff_reread hp (by decide) hrange] at hrestored
  have hgap := gapless_of_reread hrestored.2 0 1 (by decide) (by decide) (by decide)
  revert hgap
  decide

end Veejay.Keyframes
