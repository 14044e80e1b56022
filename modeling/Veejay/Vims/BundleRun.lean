import Veejay.Vims.Termination

/-!
# Running a bundle

A bundle `BUN:002{101:;500:;}` declares how many messages it has; each of them ends with a semicolon.
`vj_event_parse_bundle` copies one message after the other into `atomic_msg` and has it interpreted.

* `BundleText` — a bundle in its parts, with as many messages as it declares;
* `dispatchAll`, `DispatchesExactly` — its messages interpreted, each once and in order;
* `cutMessages_eq_iff` — when the loop cuts exactly the messages out of the text;
* `dispatchesExactly_iff` — **when a bundle is run as it is written.**
-/

namespace Veejay.Vims

open CLib

/-! ## Bundles -/

/-- A message with its semicolon. -/
def closed (m : CStr) : CStr := m ++ [59]

/-- What is behind the opening brace of a bundle. -/
def bundleBody (messages : List CStr) (last behind : CStr) : CStr :=
  messages.flatMap closed ++ (last ++ 125 :: behind)

/-- A bundle: what is in front of the opening brace, the messages without their semicolons, what is between the last
semicolon and the closing brace, and what is behind that brace. -/
structure BundleText where
  head : CStr
  messages : List CStr
  last : CStr
  behind : CStr
  head_length : head.length = 7
  colon : head[3]? = some 58
  head_text : (0 : UInt8) ∉ head
  messages_text : ∀ m ∈ messages, (0 : UInt8) ∉ m ∧ (59 : UInt8) ∉ m ∧ (125 : UInt8) ∉ m
  last_text : (0 : UInt8) ∉ last ∧ (59 : UInt8) ∉ last ∧ (125 : UInt8) ∉ last
  behind_text : (0 : UInt8) ∉ behind
  declared : numMsg (head ++ 123 :: (bundleBody messages last behind ++ [0])) = messages.length

/-- The bytes of a bundle. -/
def BundleText.bytes (b : BundleText) : List UInt8 :=
  b.head ++ 123 :: (bundleBody b.messages b.last b.behind ++ [0])

section Dispatch

variable {S : Type}

/-- Messages interpreted one after the other, while the bundle's text is allocated. -/
def dispatchAll (parse : Message → S → Exec S) (held : S → Bool) : List CStr → S → Exec S
  | [], s => .ok s
  | t :: ts, s => do
      let s ← parse (atomic t) s
      if held s then dispatchAll parse held ts s else .error .useAfterFree

end Dispatch

/-- The messages of a bundle are interpreted, each once, complete and in order, and nothing is written outside
`atomic_msg`: whatever interpreting a message does. -/
def DispatchesExactly (b : BundleText) : Prop :=
  ∀ (S : Type) (parse : Message → S → Exec S) (held : S → Bool) (s : S),
    parseBundle parse held b.bytes s = dispatchAll parse held (b.messages.map closed) s

/-- The condition: every message fits `atomic_msg`, only the first one may be empty, and what is behind the closing
brace has no semicolon in front of the next brace, where the brace directly follows a semicolon. -/
def RunsAsWritten (b : BundleText) : Prop :=
  b.messages = [] ∨
    (∀ m ∈ b.messages, (closed m).length < atomicSize) ∧ (∀ m ∈ b.messages.tail, m ≠ []) ∧
      (b.last ≠ [] ∨ (59 : UInt8) ∉ b.behind.takeWhile (· ≠ 125))

/-! ## The messages that are cut out -/

theorem cutMessages_closed {m : CStr} (h59 : (59 : UInt8) ∉ m) (h125 : (125 : UInt8) ∉ m) (seen rest : CStr) :
    cutMessages false seen (closed m ++ rest) = (seen ++ closed m) :: cutMessages true [] rest := by
  rw [closed, List.append_assoc, cutMessages_append h59 h125, List.singleton_append, cutMessages, if_neg (by decide),
    if_pos rfl, List.append_assoc]

/-- Nothing is cut out where no semicolon is in front of the next brace. -/
theorem cutMessages_eq_nil_iff (t : CStr) : ∀ seen : CStr,
    cutMessages false seen t = [] ↔ (59 : UInt8) ∉ t.takeWhile (· ≠ 125) := by
  induction t with
  | nil => exact fun _ => iff_of_true rfl List.not_mem_nil
  | cons c t ih =>
    intro seen
    rw [cutMessages]
    by_cases hend : c = 125
    · rw [if_pos hend, List.takeWhile_cons_of_neg (by simp [hend])]
      exact iff_of_true rfl List.not_mem_nil
    · rw [if_neg hend, List.takeWhile_cons_of_pos (by simp [hend]), List.mem_cons, not_or]
      by_cases hsemi : c = 59
      · rw [if_pos hsemi]
        exact iff_of_false (List.cons_ne_nil _ _) fun h => h.1 hsemi.symm
      · rw [if_neg hsemi, ih]
        exact ⟨fun h => ⟨fun hc => hsemi hc.symm, h⟩, fun h => h.2⟩

/-- What follows the last semicolon: the byte behind it is not looked at. -/
theorem cutMessages_last {last : CStr} (h59 : (59 : UInt8) ∉ last) (h125 : (125 : UInt8) ∉ last) (behind : CStr) :
    cutMessages true [] (last ++ 125 :: behind) = [] ↔
      last ≠ [] ∨ (59 : UInt8) ∉ behind.takeWhile (· ≠ 125) := by
  cases last with
  | nil =>
    rw [List.nil_append, cutMessages, cutMessages_eq_nil_iff]
    exact ⟨Or.inr, fun h => h.resolve_left fun hne => hne rfl⟩
  | cons c last =>
    refine iff_of_true ?_ (Or.inl (List.cons_ne_nil c last))
    rw [cutMessages_skip h59 h125 (List.cons_ne_nil c last), cutMessages, if_pos rfl]

/-- Behind a message, the messages are cut out as they are exactly where none of them is empty. -/
theorem cutMessages_eq_iff {last : CStr} (h59 : (59 : UInt8) ∉ last) (h125 : (125 : UInt8) ∉ last) (behind : CStr)
    (ms : List CStr) (hms : ∀ m ∈ ms, (59 : UInt8) ∉ m ∧ (125 : UInt8) ∉ m) :
    cutMessages true [] (bundleBody ms last behind) = ms.map closed ↔
      (∀ m ∈ ms, m ≠ []) ∧ (last ≠ [] ∨ (59 : UInt8) ∉ behind.takeWhile (· ≠ 125)) := by
  induction ms with
  | nil =>
    rw [bundleBody, List.flatMap_nil, List.nil_append, List.map_nil, cutMessages_last h59 h125]
    exact ⟨fun h => ⟨fun m hm => absurd hm List.not_mem_nil, h⟩, fun h => h.2⟩
  | cons m ms ih =>
    obtain ⟨hm59, hm125⟩ := hms m List.mem_cons_self
    have hrest := ih fun n hn => hms n (List.mem_cons_of_mem m hn)
    rw [bundleBody] at hrest ⊢
    rw [List.flatMap_cons, List.append_assoc, List.map_cons, List.forall_mem_cons]
    cases m with
    | nil =>
      -- the semicolon of an empty message becomes the first byte of the next one
      refine iff_of_false (fun h => ?_) fun h => h.1.1 rfl
      have hseen : ∀ (t seen : CStr), seen ≠ [] → ∀ u ∈ (cutMessages false seen t).head?, 2 ≤ u.length := by
        intro t
        induction t with
        | nil => exact fun _ _ u hu => absurd hu (by simp [cutMessages])
        | cons c t iht =>
          intro seen hne u hu
          rw [cutMessages] at hu
          split_ifs at hu
          · exact absurd hu (by simp)
          · obtain rfl : seen ++ [c] = u := by simpa using hu
            have := List.length_pos_iff.mpr hne
            rw [List.length_append, List.length_singleton]
            omega
          · exact iht (seen ++ [c]) (by simp) u hu
      have htwo := hseen (ms.flatMap closed ++ (last ++ 125 :: behind)) [59] (by simp) (closed [])
      rw [closed, List.nil_append, List.singleton_append, cutMessages] at h
      rw [h] at htwo
      exact absurd (htwo rfl) (by decide)
    | cons c m =>
      have hm59' := List.not_mem_of_not_mem_cons hm59
      have hm125' := List.not_mem_of_not_mem_cons hm125
      have hcut : cutMessages true [] (closed (c :: m) ++ (ms.flatMap closed ++ (last ++ 125 :: behind))) =
          closed (c :: m) :: cutMessages true [] (ms.flatMap closed ++ (last ++ 125 :: behind)) := by
        rw [closed, List.cons_append, List.cons_append, cutMessages, ← closed, cutMessages_closed hm59' hm125']
        rfl
      rw [hcut, List.cons.injEq, eq_self, true_and, hrest, and_assoc]
      exact ⟨fun h => ⟨List.cons_ne_nil c m, h⟩, fun h => h.2⟩

/-! ## The messages that are dispatched -/

/-- An interpreter that records the messages. -/
def record (m : Message) (seen : List CStr) : Exec (List CStr) := .ok (seen ++ [m.bytes.take m.len.toNat])

theorem record_atomic (t : CStr) (seen : List CStr) : record (atomic t) seen = .ok (seen ++ [t]) := by
  rw [record, atomic, Int.toNat_natCast, List.take_left]

theorem dispatchAll_record (ts : List CStr) : ∀ seen : List CStr,
    dispatchAll record (fun _ => true) ts seen = .ok (seen ++ ts) := by
  induction ts with
  | nil =>
    intro seen
    rw [dispatchAll, List.append_nil]
  | cons t ts ih =>
    intro seen
    rw [dispatchAll, record_atomic, ok_bind, if_pos rfl, ih, List.append_assoc, List.singleton_append]

theorem runMessages_eq_dispatchAll {S : Type} (parse : Message → S → Exec S) (held : S → Bool) {ts : List CStr}
    (hts : ∀ t ∈ ts, t.length < atomicSize) : ∀ s, runMessages parse held ts s = dispatchAll parse held ts s := by
  induction ts with
  | nil => exact fun _ => rfl
  | cons t ts ih =>
    intro s
    have hrest := ih fun u hu => hts u (List.mem_cons_of_mem t hu)
    rw [runMessages, dispatchAll, if_neg (Nat.not_le.mpr (hts t List.mem_cons_self))]
    simp only [hrest]

/-- What is recorded of messages that have been run: they fit the buffer. -/
theorem runMessages_record {ts : List CStr} {seen seen' : List CStr}
    (h : runMessages record (fun _ => true) ts seen = .ok seen') :
    (∀ t ∈ ts, t.length < atomicSize) ∧ seen' = seen ++ ts := by
  have hfits : ∀ (ts : List CStr) (seen : List CStr), runMessages record (fun _ => true) ts seen = .ok seen' →
      ∀ t ∈ ts, t.length < atomicSize := by
    intro ts
    induction ts with
    | nil => exact fun _ _ t ht => absurd ht List.not_mem_nil
    | cons t ts ih =>
      intro seen hrun
      rw [runMessages] at hrun
      by_cases hlong : atomicSize ≤ t.length
      · rw [if_pos hlong] at hrun
        cases hrun
      · rw [if_neg hlong, record_atomic, ok_bind, if_pos rfl] at hrun
        exact List.forall_mem_cons.mpr ⟨Nat.not_le.mp hlong, ih _ hrun⟩
  have hall := hfits ts seen h
  rw [runMessages_eq_dispatchAll _ _ hall, dispatchAll_record] at h
  exact ⟨hall, (Except.ok.inj h).symm⟩

/-- Messages are run as the given ones exactly where they are these, and fit the buffer. -/
theorem runs_exactly_iff {ts us : List CStr} :
    (∀ (S : Type) (parse : Message → S → Exec S) (held : S → Bool) (s : S),
        runMessages parse held ts s = dispatchAll parse held us s) ↔
      ts = us ∧ ∀ t ∈ us, t.length < atomicSize := by
  constructor
  · intro h
    have hrun := h (List CStr) record (fun _ => true) []
    rw [dispatchAll_record, List.nil_append] at hrun
    obtain ⟨hfits, hus⟩ := runMessages_record hrun
    obtain rfl : us = ts := hus
    exact ⟨rfl, hfits⟩
  · rintro ⟨rfl, hfits⟩ S parse held s
    exact runMessages_eq_dispatchAll parse held hfits s

/-! ## Bundles that are run as written -/

theorem bundleBody_text (b : BundleText) : (0 : UInt8) ∉ bundleBody b.messages b.last b.behind := by
  simp only [bundleBody, closed, List.mem_append, List.mem_flatMap, List.mem_cons, List.not_mem_nil, or_false, not_or,
    not_exists, not_and]
  exact ⟨fun m hm => ⟨(b.messages_text m hm).1, by decide⟩, b.last_text.1, by decide, b.behind_text⟩

/-- The messages that are cut out of a bundle. -/
theorem bundleMessages_bytes (b : BundleText) :
    bundleMessages b.bytes =
      .ok (if b.messages = [] then [] else cutMessages false [] (bundleBody b.messages b.last b.behind)) := by
  have hlen := b.head_length
  have h0 := bundleBody_text b
  have h3 : byteAt b.bytes 3 = .ok 58 := by
    refine byteAt_eq_ok.mpr ⟨by decide, ?_⟩
    rw [BundleText.bytes]
    exact (List.getElem?_append_left (by omega)).trans b.colon
  have h7 : byteAt b.bytes 7 = .ok 123 := by
    refine byteAt_eq_ok.mpr ⟨by decide, ?_⟩
    rw [BundleText.bytes]
    show (b.head ++ _)[7]? = _
    rw [List.getElem?_append_right (by omega), hlen]
    rfl
  have hbody : (cstring b.bytes).drop 8 = bundleBody b.messages b.last b.behind := by
    have hall : ∀ c ∈ b.head ++ 123 :: bundleBody b.messages b.last b.behind, decide (c ≠ (0 : UInt8)) = true := by
      intro c hc
      rw [decide_eq_true_eq]
      rintro rfl
      rcases List.mem_append.mp hc with hc | hc
      · exact b.head_text hc
      · exact h0 (List.mem_of_ne_of_mem (by decide) hc)
    have hcut : cstring b.bytes = b.head ++ 123 :: bundleBody b.messages b.last b.behind := by
      have hsplit : b.bytes = (b.head ++ 123 :: bundleBody b.messages b.last b.behind) ++ [0] := by
        rw [BundleText.bytes, List.append_assoc, List.cons_append]
      rw [hsplit, cstring, List.takeWhile_append_of_pos hall, List.takeWhile_cons_of_neg (by simp), List.append_nil]
    rw [hcut, List.drop_append, hlen, List.drop_of_length_le (by omega), List.nil_append]
    rfl
  rw [bundleMessages, h3, ok_bind, if_pos rfl, BundleText.bytes, b.declared, ← BundleText.bytes, h7, hbody]
  cases hms : b.messages with
  | nil => rfl
  | cons m ms =>
    rw [if_neg (by rw [List.length_cons]; omega), ok_bind, if_pos rfl, if_neg (List.cons_ne_nil m ms)]

/-- **When a bundle is run as it is written.** -/
theorem dispatchesExactly_iff (b : BundleText) : DispatchesExactly b ↔ RunsAsWritten b := by
  have hrun : ∀ (S : Type) (parse : Message → S → Exec S) (held : S → Bool) (s : S),
      parseBundle parse held b.bytes s = runMessages parse held
        (if b.messages = [] then [] else cutMessages false [] (bundleBody b.messages b.last b.behind)) s := by
    intro S parse held s
    rw [parseBundle_eq, bundleMessages_bytes, ok_bind]
  rw [DispatchesExactly, RunsAsWritten]
  simp only [hrun]
  rw [runs_exactly_iff]
  cases hms : b.messages with
  | nil => exact iff_of_true ⟨rfl, fun t ht => absurd ht List.not_mem_nil⟩ (Or.inl rfl)
  | cons m ms =>
    have htext : ∀ n ∈ m :: ms, (59 : UInt8) ∉ n ∧ (125 : UInt8) ∉ n := fun n hn =>
      (b.messages_text n (hms ▸ hn)).2
    obtain ⟨h59, h125⟩ := htext m List.mem_cons_self
    have hfirst : cutMessages false [] (bundleBody (m :: ms) b.last b.behind) =
        closed m :: cutMessages true [] (bundleBody ms b.last b.behind) := by
      rw [bundleBody, List.flatMap_cons, List.append_assoc, cutMessages_closed h59 h125, List.nil_append]
      rfl
    rw [if_neg (List.cons_ne_nil m ms), hfirst, List.map_cons, List.cons.injEq, eq_self, true_and,
      cutMessages_eq_iff b.last_text.2.1 b.last_text.2.2 b.behind ms fun n hn => htext n (List.mem_cons_of_mem m hn),
      ← List.map_cons, List.forall_mem_map, List.tail_cons, and_comm]
    exact ⟨Or.inr, fun h => h.resolve_left (List.cons_ne_nil m ms)⟩

/-- A bundle of one message of 255 bytes and its semicolon. -/
def longMessage : BundleText where
  head := lit "BUN:001"
  messages := [List.replicate 255 49]
  last := []
  behind := []
  head_length := rfl
  colon := rfl
  head_text := by decide
  messages_text := by
    intro m hm
    obtain rfl := List.mem_singleton.mp hm
    refine ⟨fun h => ?_, fun h => ?_, fun h => ?_⟩ <;> exact absurd (List.eq_of_mem_replicate h) (by decide)
  last_text := by decide
  behind_text := by decide
  declared := rfl

/-- Its last byte and the terminating zero are written behind `atomic_msg`. -/
theorem longMessage_overruns : ¬ DispatchesExactly longMessage := by
  intro h
  have hrun := h (List CStr) record (fun _ => true) []
  rw [dispatchAll_record] at hrun
  have h59 : (59 : UInt8) ∉ List.replicate 255 49 := (longMessage.messages_text _ List.mem_cons_self).2.1
  have h125 : (125 : UInt8) ∉ List.replicate 255 49 := (longMessage.messages_text _ List.mem_cons_self).2.2
  have hcut : cutMessages false [] (bundleBody longMessage.messages longMessage.last longMessage.behind) =
      closed (List.replicate 255 49) :: cutMessages true [] [125] := by
    rw [longMessage, bundleBody, List.flatMap_singleton, cutMessages_closed h59 h125]
    rfl
  have hlong : atomicSize ≤ (closed (List.replicate 255 49)).length := by
    rw [closed, List.length_append, List.length_replicate]
    exact Nat.le_refl 256
  have hne : longMessage.messages ≠ [] := List.cons_ne_nil _ _
  rw [parseBundle_eq, bundleMessages_bytes, ok_bind, if_neg hne, hcut, runMessages, if_pos hlong] at hrun
  cases hrun

end Veejay.Vims
