import Veejay.CLib.Fields
import Veejay.Vims.Message

/-!
# Messages with an id

What `vj_event_parse_msg` makes of a message `NNN:rest`, whatever follows its colon.

* `idMessage` — the message;
* `unlined`, `chompStr_idMessage` — the newline that `veejay_chomp_str` takes off its end;
* `select_idMessage` — **what the message asks for**: the bundle with the id, or the event;
* `select_cutArguments` — what it asks for with arguments.
-/

namespace Veejay.Vims

open CLib

/-- A message with an id: `500:` and anything. -/
def idMessage (id : ℤ) (rest : CStr) : CStr := zeroPadded 3 id.toNat ++ 58 :: rest

/-- A text without the newline at its end. -/
def unlined (t : CStr) : CStr := if t.getLast? = some newline then t.dropLast else t

theorem message_text {t : CStr} (h0 : (0 : UInt8) ∉ t) : (message t).text = t := by
  have hall : ∀ c ∈ t, decide (c ≠ (0 : UInt8)) = true := fun c hc => decide_eq_true fun h => h0 (h ▸ hc)
  show (t ++ [0]).takeWhile _ = t
  rw [List.takeWhile_append_of_pos hall, List.takeWhile_cons_of_neg (by simp), List.append_nil]

theorem unlined_no_zero {t : CStr} (h0 : (0 : UInt8) ∉ t) : (0 : UInt8) ∉ unlined t := by
  rw [unlined]
  split_ifs
  · exact fun h => h0 (List.mem_of_mem_dropLast h)
  · exact h0

/-- A text of several bytes in an object of its own: its newline is overwritten. -/
theorem chompStr_message {t : CStr} (h0 : (0 : UInt8) ∉ t) (hlen : 1 < t.length) :
    ∃ tail, chompStr (message t) = ⟨unlined t ++ 0 :: tail, (unlined t).length⟩ := by
  rw [chompStr, message_text h0, unlined]
  by_cases hlast : t.getLast? = some newline
  · rw [if_pos ⟨hlen, hlast⟩, if_pos hlast]
    obtain ⟨front, rfl⟩ := List.getLast?_eq_some_iff.mp hlast
    have hset : (message (front ++ [newline])).bytes.set ((front ++ [newline]).length - 1) 0 = front ++ [0, 0] := by
      show (front ++ [newline] ++ [0]).set _ 0 = _
      rw [List.append_assoc, List.length_append, List.length_singleton, Nat.add_sub_cancel,
        List.set_append_right _ _ (Nat.le_refl _), Nat.sub_self]
      rfl
    refine ⟨[0], ?_⟩
    rw [hset, List.dropLast_concat, List.length_append, List.length_singleton]
    congr 1
    push_cast
    omega
  · rw [if_neg fun h => hlast h.2, if_neg hlast]
    exact ⟨[], rfl⟩

theorem text_of_bytes {t : CStr} (h0 : (0 : UInt8) ∉ t) (tail : List UInt8) (len : ℤ) :
    (⟨t ++ 0 :: tail, len⟩ : Message).text = t := by
  have hall : ∀ c ∈ t, decide (c ≠ (0 : UInt8)) = true := fun c hc => decide_eq_true fun h => h0 (h ▸ hc)
  show (t ++ 0 :: tail).takeWhile _ = t
  rw [List.takeWhile_append_of_pos hall, List.takeWhile_cons_of_neg (by simp), List.append_nil]

/-! ## The id -/

/-- An id that is scanned for an event or a bundle. -/
abbrev ValidId (id : ℤ) : Prop := 0 < id ∧ id < vimsMax

theorem ValidId.digits {id : ℤ} (hid : ValidId id) :
    (zeroPadded 3 id.toNat).length = 3 ∧ id.toNat < 10 ^ 3 ∧ (id.toNat : ℤ) = id := by
  obtain ⟨hpos, hlt⟩ := hid
  rw [vimsMax] at hlt
  exact ⟨zeroPadded_length (by decide) (by omega), by omega, by omega⟩

theorem idMessage_length {id : ℤ} (hid : ValidId id) (rest : CStr) : (idMessage id rest).length = rest.length + 4 := by
  rw [idMessage, List.length_append, hid.digits.1, List.length_cons]
  omega

theorem idMessage_no_zero {id : ℤ} {rest : CStr} (h0 : (0 : UInt8) ∉ rest) : (0 : UInt8) ∉ idMessage id rest := by
  rw [idMessage, List.mem_append, not_or]
  refine ⟨fun h => absurd (isDigit_of_mem_zeroPadded h) (by decide), fun h => ?_⟩
  rcases List.mem_cons.mp h with h | h
  · exact absurd h (by decide)
  · exact h0 h

/-- The newline is that of the rest. -/
theorem unlined_idMessage (id : ℤ) (rest : CStr) : unlined (idMessage id rest) = idMessage id (unlined rest) := by
  rw [unlined, unlined]
  cases hrest : rest.getLast? with
  | none =>
    obtain rfl := List.getLast?_eq_none_iff.mp hrest
    have hlast : (idMessage id []).getLast? = some 58 := by
      rw [idMessage, List.getLast?_append_cons]
      rfl
    rw [hlast, if_neg (by decide), if_neg (by decide)]
  | some c =>
    have hne : rest ≠ [] := fun h => by
      rw [h] at hrest
      cases hrest
    have hlast : (idMessage id rest).getLast? = some c := by
      rw [idMessage, List.getLast?_append_cons, List.getLast?_cons_of_ne_nil hne, hrest]
    have hdrop : (idMessage id rest).dropLast = idMessage id rest.dropLast := by
      rw [idMessage, List.dropLast_append_cons, List.dropLast_cons_of_ne_nil hne]
      rfl
    rw [hlast, hdrop]
    split_ifs
    · rfl
    · rfl

/-- **After the newline is taken off**, the message still begins with its id. -/
theorem chompStr_idMessage {id : ℤ} (hid : ValidId id) {rest : CStr} (h0 : (0 : UInt8) ∉ rest) :
    ∃ tail, chompStr (message (idMessage id rest)) =
      ⟨idMessage id (unlined rest) ++ 0 :: tail, (unlined rest).length + 4⟩ := by
  have hlen := idMessage_length hid rest
  obtain ⟨tail, h⟩ := chompStr_message (@idMessage_no_zero id _ h0) (by omega)
  rw [unlined_idMessage, idMessage_length hid] at h
  exact ⟨tail, h⟩

theorem chompStr_idMessage_text {id : ℤ} (hid : ValidId id) {rest : CStr} (h0 : (0 : UInt8) ∉ rest) :
    (chompStr (message (idMessage id rest))).text = idMessage id (unlined rest) := by
  obtain ⟨tail, h⟩ := chompStr_idMessage hid h0
  rw [h]
  exact text_of_bytes (idMessage_no_zero (unlined_no_zero h0)) tail _

/-- The id of a message is scanned. -/
theorem scanField_idMessage {id : ℤ} (hid : ValidId id) (rest : CStr) :
    scanField 3 (idMessage id rest) = .val id (58 :: rest) := by
  obtain ⟨-, hlt, hcast⟩ := hid.digits
  rw [idMessage, scanField_zeroPadded _ (by decide) hlt, hcast]

/-- No message with an id is a bundle itself, or a keyframe packet. -/
theorem startsWith_idMessage {id : ℤ} (hid : ValidId id) (rest : CStr) :
    startsWith "BUN" (idMessage id rest) = false ∧ startsWith "KEY" (idMessage id rest) = false := by
  have hlen := hid.digits.1
  have htake : (idMessage id rest).take 3 = zeroPadded 3 id.toNat := by
    rw [idMessage, List.take_append_of_le_length hlen.ge, List.take_of_length_le hlen.le]
  have hdig : ∀ c ∈ zeroPadded 3 id.toNat, isDigit c = true := fun c => isDigit_of_mem_zeroPadded
  have hno : ∀ word : String, (∃ c w, lit word = c :: w ∧ ∀ d, isDigit d = true → toUpper d ≠ c) →
      startsWith word (idMessage id rest) = false := by
    intro word hword
    obtain ⟨c, w, hw, hc⟩ := hword
    rw [startsWith, htake, hw]
    refine decide_eq_false fun h => ?_
    cases hz : zeroPadded 3 id.toNat with
    | nil => exact zeroPadded_ne_nil _ _ hz
    | cons d t =>
      rw [hz, List.map_cons] at h
      exact hc d (hdig d (by rw [hz]; exact List.mem_cons_self)) (List.cons.inj h).1
  have hdigit : ∀ c : UInt8, 65 ≤ c.toNat → ∀ d, isDigit d = true → toUpper d ≠ c := by
    intro c hc d hd h
    have hlo : d.toNat ≤ 57 := by
      rw [isDigit, Bool.and_eq_true, decide_eq_true_eq, decide_eq_true_eq] at hd
      exact UInt8.le_iff_toNat_le.mp hd.2
    have hnot : ¬ (97 ≤ d ∧ d ≤ 122) := fun hle => by
      have := UInt8.le_iff_toNat_le.mp hle.1
      have h97 : (97 : UInt8).toNat = 97 := rfl
      omega
    rw [toUpper, if_neg hnot] at h
    rw [h] at hlo
    omega
  exact ⟨hno "BUN" ⟨66, lit "UN", rfl, hdigit 66 (by decide)⟩, hno "KEY" ⟨75, lit "EY", rfl, hdigit 75 (by decide)⟩⟩

variable {S : Type}

/-- **What a message with an id asks for**, wherever it is held. -/
theorem select_of_text (ev : Events S) (get : ℤ → Option ℕ) {id : ℤ} (hid : ValidId id) {m : Message}
    {rest rest' : CStr} (hlen : msgMinLen ≤ m.len) (hm : m.text = idMessage id rest)
    (hchomp : (chompStr m).text = idMessage id rest') :
    select ev get m =
      if vimsBundleStart ≤ id ∧ id < vimsBundleEnd then
        match get id with
        | some block => .ok (.registered block)
        | none => .ok .nothing
      else selectEvent ev get id (chompStr m) := by
  obtain ⟨hbun, hkey⟩ := startsWith_idMessage hid rest
  have hrange : ¬ (id ≤ 0 ∨ vimsMax ≤ id) := by
    obtain ⟨hpos, hlt⟩ := hid
    omega
  rw [select, if_neg (Int.not_lt.mpr hlen), hm, hbun, if_neg Bool.false_ne_true, hkey, if_neg Bool.false_ne_true]
  by_cases hb : vimsBundleStart ≤ id ∧ id < vimsBundleEnd
  · cases hget : get id <;> simp only [hchomp, scanField_idMessage hid, if_neg hrange, if_pos hb, hget]
  · simp only [hchomp, scanField_idMessage hid, if_neg hrange, if_neg hb]

/-- **What a message with an id asks for**, in an object of its own. -/
theorem select_idMessage (ev : Events S) (get : ℤ → Option ℕ) {id : ℤ} (hid : ValidId id) {rest : CStr}
    (h0 : (0 : UInt8) ∉ rest) :
    select ev get (message (idMessage id rest)) =
      if vimsBundleStart ≤ id ∧ id < vimsBundleEnd then
        match get id with
        | some block => .ok (.registered block)
        | none => .ok .nothing
      else selectEvent ev get id (chompStr (message (idMessage id rest))) := by
  refine select_of_text ev get hid ?_ (message_text (idMessage_no_zero h0)) (chompStr_idMessage_text hid h0)
  show (4 : ℤ) ≤ ((idMessage id rest).length : ℤ)
  rw [idMessage_length hid]
  push_cast
  omega

/-- A message that does not end in a newline, with the rest of the object that holds it. -/
theorem chompStr_of_unlined {t : CStr} (h0 : (0 : UInt8) ∉ t) (hlast : t.getLast? ≠ some newline) (tail : List UInt8)
    (len : ℤ) : chompStr ⟨t ++ 0 :: tail, len⟩ = ⟨t ++ 0 :: tail, len⟩ := by
  rw [chompStr, text_of_bytes h0, if_neg fun h => hlast h.2]

/-! ## Arguments -/

/-- What firing an event does: the event's function, or nothing where its arguments are not verified. -/
theorem fireNetEvent_acts (ev : Events S) (get : ℤ → Option ℕ) {id : ℤ} (hid : id ≠ vimsBundle) (str : Option CStr)
    (args : List (Option ℤ)) (n : ℕ) (before after : S → S) :
    fireNetEvent ev get id str args n before after = .event (fun s => after (before s)) ∨
      fireNetEvent ev get id str args n before after = .event fun s => after (ev.fire id str args (before s)) := by
  rw [fireNetEvent]
  split_ifs
  · exact .inl rfl
  · exact .inl rfl
  · exact .inr rfl

/-- What `scanArgs` does behind an argument: it ends, or it reads the next one. -/
def scanNext (ev : Events S) (id : ℤ) (left i fmtOffset : ℕ) (rest : CStr) (str : Option CStr)
    (args : List (Option ℤ)) : Exec (Option (ℕ × Option CStr × List (Option ℤ))) :=
  match rest with
  | [] => .ok (some (i + 1, str, args))
  | c :: rest' =>
    if c = 59 then .ok (some (i + 1, str, args))
    else scanArgs ev id left (i + 1) (fmtOffset + 3) (if c = 32 then rest' else rest) str args

/-- The scanning leaves the places before the one where it starts. -/
theorem scanArgs_front {ev : Events S} {id : ℤ} {left i fmtOffset n : ℕ} {t : CStr} {str str' : Option CStr}
    {args args' : List (Option ℤ)} (h : scanArgs ev id left i fmtOffset t str args = .ok (some (n, str', args')))
    {m : ℕ} (hm : m < i) : args'[m]? = args[m]? := by
  induction left generalizing i fmtOffset t str args with
  | zero =>
    obtain ⟨-, -, rfl⟩ : i + 1 = n ∧ str = str' ∧ args = args' := by simpa [scanArgs] using h
    rfl
  | succ left ih =>
    -- what follows an argument: the end, or the next one
    have hnext : ∀ (rest : CStr) (str : Option CStr) (args : List (Option ℤ)),
        scanNext ev id left i fmtOffset rest str args = .ok (some (n, str', args')) → args'[m]? = args[m]? := by
      intro rest str args hrest
      cases rest with
      | nil =>
        obtain ⟨-, -, rfl⟩ : i + 1 = n ∧ str = str' ∧ args = args' := by simpa [scanNext] using hrest
        rfl
      | cons c rest =>
        rw [scanNext] at hrest
        by_cases hc : c = 59
        · rw [if_pos hc] at hrest
          obtain ⟨-, -, rfl⟩ : i + 1 = n ∧ str = str' ∧ args = args' := by simpa using hrest
          rfl
        · rw [if_neg hc] at hrest
          exact ih hrest (by omega)
    rw [scanArgs] at h
    dsimp only at h
    by_cases hd : (ev.format id)[fmtOffset]? = some 100
    · rw [if_pos hd] at h
      cases hscan : scanInt t with
      | val v rest =>
        rw [hscan] at h
        rw [hnext _ _ _ h, List.getElem?_set_ne (by omega)]
      | eof =>
        rw [hscan] at h
        cases h
      | fail =>
        rw [hscan] at h
        cases h
    · rw [if_neg hd] at h
      by_cases hs : (ev.format id)[fmtOffset]? = some 115 ∧ str = none
      · rw [if_pos hs] at h
        obtain ⟨word, -, h⟩ := bind_eq_ok.mp h
        cases word with
        | none => cases h
        | some word => exact hnext _ _ _ h
      · rw [if_neg hs] at h
        cases h

section Arguments

variable {id : ℤ} {t : CStr}

/-- The text of the arguments is cut out of the message, without the semicolon; the byte that is looked at for another
one is the fourth from the end of the arguments. -/
theorem message_arguments (hid : ValidId id) (t : CStr) (tail : List UInt8) :
    (∃ c, byteAt (idMessage id (t ++ [59]) ++ 0 :: tail) t.length = .ok c ∧ (c = 59 ↔ t.reverse[3]? = some 59)) ∧
      ∀ n ≤ t.length, slice (idMessage id (t ++ [59]) ++ 0 :: tail) 4 n = .ok (t.take n) := by
  have hfront : (zeroPadded 3 id.toNat ++ [58]).length = 4 := by
    rw [List.length_append, hid.digits.1]
    rfl
  have hmsg : idMessage id (t ++ [59]) ++ 0 :: tail = (zeroPadded 3 id.toNat ++ [58]) ++ (t ++ (59 :: 0 :: tail)) := by
    simp [idMessage]
  have hlen : ((zeroPadded 3 id.toNat ++ [58]) ++ t).length = t.length + 4 := by
    rw [List.length_append, hfront, Nat.add_comm]
  rw [hmsg]
  constructor
  · have hlt : t.length < ((zeroPadded 3 id.toNat ++ [58]) ++ t).length := by omega
    refine ⟨((zeroPadded 3 id.toNat ++ [58]) ++ t)[t.length], ?_, ?_⟩
    · rw [← List.append_assoc]
      exact byteAt_append (byteAt_of_lt hlt) _
    · have hback : ((zeroPadded 3 id.toNat ++ [58]) ++ t)[t.length]? =
          (t.reverse ++ (zeroPadded 3 id.toNat ++ [58]).reverse)[3]? := by
        rw [← List.reverse_append, List.getElem?_reverse (by omega), hlen]
        rfl
      rw [← Option.some_inj, ← List.getElem?_eq_getElem hlt, hback]
      rcases Nat.lt_or_ge 3 t.length with h3 | h3
      · rw [List.getElem?_append_left (by rw [List.length_reverse]; exact h3)]
      · -- the byte is one of the id or the colon
        have hnone : t.reverse[3]? = none := List.getElem?_eq_none (by rw [List.length_reverse]; exact h3)
        rw [List.getElem?_append_right (by rw [List.length_reverse]; exact h3), hnone]
        refine iff_of_false (fun hc => ?_) (fun hc => by cases hc)
        rcases List.mem_append.mp (List.mem_reverse.mp (List.mem_of_getElem? hc)) with h | h
        · exact absurd (isDigit_of_mem_zeroPadded h) (by decide)
        · exact absurd (List.mem_singleton.mp h) (by decide)
  · intro n hn
    rw [slice_eq_ok]
    refine ⟨.inr ⟨by decide, ?_⟩, ?_⟩
    · rw [List.length_append, hfront, List.length_append]
      push_cast
      omega
    · have h4 : (4 : ℤ).toNat = (zeroPadded 3 id.toNat ++ [58]).length := by
        rw [hfront]
        rfl
      rw [h4, List.drop_left, List.take_append_of_le_length hn]

/-- The arguments as they are scanned: one byte is missing where the fourth one from the end is a semicolon. -/
def cutArguments (t : CStr) : CStr := if t.reverse[3]? = some 59 then t.dropLast else t

/-- The places of the arguments before they are scanned. -/
def initialArgs (ev : Events S) (id : ℤ) : List (Option ℤ) :=
  (List.range (ev.numArgs id)).map fun i =>
    if (ev.format id)[1]? = some 100 then some (ev.defaultValue id i) else none

/-- **What a message with arguments asks for**, wherever it is held, and whatever the arguments are. -/
theorem select_cutArguments (ev : Events S) (get : ℤ → Option ℕ) (hid : ValidId id)
    (hb : ¬ (vimsBundleStart ≤ id ∧ id < vimsBundleEnd)) (hnp : ev.numArgs id ≠ 0) (hne : t ≠ [])
    (h0 : (0 : UInt8) ∉ t) (tail : List UInt8) :
    select ev get ⟨idMessage id (t ++ [59]) ++ 0 :: tail, (idMessage id (t ++ [59])).length⟩ =
      scanArgs ev id (ev.numArgs id) 0 1 (cutArguments t) none (initialArgs ev id) >>= fun r =>
        match r with
        | none => .ok .nothing
        | some (i, str, args) =>
          .ok (fireNetEvent ev get id str args (if ev.allowAny id then ev.numArgs id else i)
            (ev.storeMacro id (idMessage id (t ++ [59]))) fun s => s) := by
  have h0' : (0 : UInt8) ∉ idMessage id (t ++ [59]) := by
    refine idMessage_no_zero fun h => ?_
    rcases List.mem_append.mp h with h | h
    · exact h0 h
    · exact absurd (List.mem_singleton.mp h) (by decide)
  have hlast : (idMessage id (t ++ [59])).getLast? ≠ some newline := by
    rw [idMessage, List.getLast?_append_cons, ← List.cons_append, List.getLast?_append_cons]
    decide
  have hpos := List.length_pos_of_ne_nil hne
  have hlen : ((idMessage id (t ++ [59])).length : ℤ) - 1 = t.length + 4 := by
    rw [idMessage_length hid, List.length_append, List.length_singleton]
    push_cast
    omega
  have hmin : msgMinLen ≤ ((idMessage id (t ++ [59])).length : ℤ) := by
    rw [msgMinLen]
    omega
  have hchomp := chompStr_of_unlined h0' hlast tail (idMessage id (t ++ [59])).length
  have htext : ∀ len, (⟨idMessage id (t ++ [59]) ++ 0 :: tail, len⟩ : Message).text = idMessage id (t ++ [59]) :=
    fun len => text_of_bytes h0' tail len
  have hcut : ∀ u : CStr, (0 : UInt8) ∉ u → cstring u = u := fun u hu =>
    List.takeWhile_eq_self_iff.mpr fun b hb => decide_eq_true fun h => hu (h ▸ hb)
  obtain ⟨⟨c, hc, hc59⟩, hslice⟩ := message_arguments hid t tail
  rw [select_of_text ev get hid hmin (htext _) (by rw [hchomp]; exact htext _), if_neg hb, hchomp, selectEvent]
  simp only [hlen, htext]
  rw [if_neg (by rw [msgMinLen]; omega), show (t.length : ℤ) + 4 - 4 = t.length by omega, hc, ok_bind, cutArguments]
  by_cases hback : t.reverse[3]? = some 59
  · rw [if_pos (hc59.mpr hback), if_pos hback, show ((t.length : ℤ) + 4 - 5).toNat = t.length - 1 by omega,
      hslice _ (Nat.sub_le _ _), ok_bind, if_neg hnp, ← List.dropLast_eq_take,
      hcut _ fun h => h0 (List.mem_of_mem_dropLast h)]
    rfl
  · rw [if_neg (fun h => hback (hc59.mp h)), if_neg hback, show ((t.length : ℤ) + 4 - 4).toNat = t.length by omega,
      hslice _ (Nat.le_refl _), List.take_length, ok_bind, if_neg hnp, hcut t h0]
    rfl

/-- **What a message with arguments asks for**, where there is no semicolon in them. -/
theorem select_arguments (ev : Events S) (get : ℤ → Option ℕ) (hid : ValidId id)
    (hb : ¬ (vimsBundleStart ≤ id ∧ id < vimsBundleEnd)) (hnp : ev.numArgs id ≠ 0) (hne : t ≠ [])
    (h59 : (59 : UInt8) ∉ t) (h0 : (0 : UInt8) ∉ t) (tail : List UInt8) :
    select ev get ⟨idMessage id (t ++ [59]) ++ 0 :: tail, (idMessage id (t ++ [59])).length⟩ =
      scanArgs ev id (ev.numArgs id) 0 1 t none (initialArgs ev id) >>= fun r =>
        match r with
        | none => .ok .nothing
        | some (i, str, args) =>
          .ok (fireNetEvent ev get id str args (if ev.allowAny id then ev.numArgs id else i)
            (ev.storeMacro id (idMessage id (t ++ [59]))) fun s => s) := by
  have hcut : cutArguments t = t := if_neg fun h => h59 (List.mem_reverse.mp (List.mem_of_getElem? h))
  rw [select_cutArguments ev get hid hb hnp hne h0 tail, hcut]

end Arguments

end Veejay.Vims
