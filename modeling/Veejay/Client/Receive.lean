import Veejay.CLib.FixedWidth
import Veejay.CLib.Loop

/-!
# What the client receives

The client asks the server for a list and reads the reply from the command socket: some digits, and as many bytes as
they say (`recv_vims`, `vj-api.c`).  Most lists are records behind their lengths.

* `vjClientRead`, `recvVims` — reading from the socket;
* `Framed`, `recvVims_framed` — **a reply of digits and as many bytes is read to its end**, and no further;
* `loadRecords`, `loadRecords_counted` — the loop over the records of a list;
* `mem_loadRecords` — what it reads of any text.
-/

namespace Veejay.Client

open CLib

/-- `vj_client_read`: the bytes, and those after them.  Where there are fewer, it waits for more. -/
def vjClientRead (bytes : ℕ) (wire : List UInt8) : Option (List UInt8 × List UInt8) :=
  if bytes ≤ wire.length then some (wire.take bytes, wire.drop bytes) else none

/-- `recv_vims`: the text, if there is one, and the bytes after it. -/
def recvVims (slen : ℕ) (wire : List UInt8) : Option (Option CStr × List UInt8) := do
  let (tmp, wire) ← vjClientRead slen wire
  match scanInt (cstring tmp) with
  | .val v _ =>
    if intValue v ≤ 0 ∨ slen = 0 then some (none, wire)
    else do
      let (result, wire) ← vjClientRead (intValue v).toNat wire
      some (some result, wire)
  | _ => some (none, wire)

/-- A reply: `w` digits, and as many bytes as they say. -/
def Framed (w : ℕ) (reply : List UInt8) : Prop := ∃ body : List UInt8, body.length < 10 ^ w ∧ reply = counted w body

/-- The text of a reply, for the reader: an empty one is none. -/
def received (body : List UInt8) : Option CStr := if body = [] then none else some body

theorem vjClientRead_append (front rest : List UInt8) : vjClientRead front.length (front ++ rest) = some (front, rest) := by
  rw [vjClientRead, if_pos (by rw [List.length_append]; omega), List.take_left, List.drop_left]

/-- The digits of a reply. -/
theorem scanInt_zeroPadded (w n : ℕ) : scanInt (cstring (zeroPadded w n)) = .val n [] := by
  rw [cstring_of_not_mem (zeroPadded_no_zero w n)]
  have h := @scanField_digits _ [] _ (zeroPadded_ne_nil w n) (fun c => isDigit_of_mem_zeroPadded)
    (Nat.le_refl _) (.inl rfl)
  rw [List.append_nil, digitsValue_zeroPadded] at h
  exact h

/-- **A reply is read to its end**, and no further. -/
theorem recvVims_framed {w : ℕ} {body : List UInt8} (hw : 1 ≤ w) (hw9 : w ≤ 9) (hbody : body.length < 10 ^ w)
    (rest : List UInt8) : recvVims w (counted w body ++ rest) = some (received body, rest) := by
  have hint : (body.length : ℤ) < 2 ^ 31 := by
    have hpow : (10 : ℕ) ^ w ≤ 10 ^ 9 := Nat.pow_le_pow_right (by norm_num) hw9
    have : body.length < 10 ^ 9 := by omega
    have : (body.length : ℤ) < 10 ^ 9 := by exact_mod_cast this
    omega
  have hlen : (zeroPadded w body.length).length = w := zeroPadded_length hw hbody
  have hread : vjClientRead w (zeroPadded w body.length ++ (body ++ rest)) =
      some (zeroPadded w body.length, body ++ rest) := by
    have h := vjClientRead_append (zeroPadded w body.length) (body ++ rest)
    rw [hlen] at h
    exact h
  have hval : intValue body.length = body.length := intValue_of_fits (by omega) hint
  rw [recvVims, counted, List.append_assoc, hread]
  show (match scanInt (cstring (zeroPadded w body.length)) with | .val v _ => _ | _ => _) = _
  rw [scanInt_zeroPadded]
  show (if intValue body.length ≤ 0 ∨ w = 0 then _ else _) = _
  rw [hval, received]
  by_cases hempty : body = []
  · subst hempty
    rw [if_pos (.inl (by rw [List.length_nil]; exact Int.le_refl 0)), if_pos rfl, List.nil_append]
  · have hpos := List.length_pos_iff.mpr hempty
    rw [if_neg (by omega), if_neg hempty, Int.toNat_natCast, vjClientRead_append]
    rfl

/-! ## Records -/

/-- Where the client is in a list, and what it has read. -/
structure Cursor (α : Type) where
  offset : ℤ
  rows : List α

/-- One record of a list: its length in three digits, and the line, which is copied before it is taken apart. -/
def nextRecord {α : Type} (lineSize : ℕ) (parse : CStr → Exec (List α)) (fxtext : CStr) (s : Cursor α) :
    Exec (Cursor α) := do
  let at_ ← textFrom fxtext s.offset
  let len := atoi (at_.take 3)
  if 0 < len then do
    let at_ ← textFrom fxtext (s.offset + 3)
    let line ← copyInto lineSize at_ len
    let rows ← parse line
    .ok ⟨s.offset + 3 + len, s.rows ++ rows⟩
  else .ok ⟨s.offset + 3 + len, s.rows⟩

/-- The loop over the records of a list. -/
def loadRecords {α : Type} (lineSize : ℕ) (parse : CStr → Exec (List α)) (fuel : ℕ) (fxtext : CStr) :
    Exec (List α) := do
  let s ← whileLoop (fun s => decide (s.offset < (fxtext.length : ℤ))) (nextRecord lineSize parse fxtext) fuel ⟨0, []⟩
  .ok s.rows

section Records

variable {α : Type} {lineSize : ℕ} {parse : CStr → Exec (List α)}

/-- A line that is one record of a list. -/
structure Line (lineSize : ℕ) (line : CStr) : Prop where
  ne_nil : line ≠ []
  lt : line.length < 1000
  room : line.length < lineSize
  text : (0 : UInt8) ∉ line

/-- **One record.** -/
theorem nextRecord_counted {line : CStr} {rows : List α} (h : Line lineSize line) (hparse : parse line = .ok rows)
    (front rest : CStr) (read : List α) :
    nextRecord lineSize parse (front ++ (counted 3 line ++ rest)) ⟨front.length, read⟩ =
      .ok ⟨(front ++ counted 3 line).length, read ++ rows⟩ := by
  have hpos := List.length_pos_iff.mpr h.ne_nil
  have hdigits : (zeroPadded 3 line.length).length = 3 := zeroPadded_length (by decide) h.lt
  have hlen : atoi ((counted 3 line ++ rest).take 3) = line.length := by
    have htake : (counted 3 line ++ rest).take 3 = zeroPadded 3 line.length := by
      rw [counted, List.append_assoc, List.take_left' hdigits]
    rw [htake]
    have := h.lt
    exact atoi_zeroPadded (by omega)
  have hnext : textFrom (front ++ (counted 3 line ++ rest)) (front.length + 3) = .ok (line ++ rest) := by
    have h3 := textFrom_append (front ++ zeroPadded 3 line.length) (line ++ rest)
    rw [List.length_append, hdigits] at h3
    rw [counted, List.append_assoc, ← List.append_assoc front]
    exact_mod_cast h3
  rw [nextRecord, textFrom_append]
  show (if 0 < atoi _ then _ else _) = _
  rw [hlen, if_pos (by omega), hnext]
  show (copyInto lineSize (line ++ rest) line.length >>= _) = _
  rw [copyInto_append rest h.room h.text]
  show (parse line >>= _) = _
  rw [hparse]
  show Except.ok _ = Except.ok _
  rw [List.length_append, (counted_length_iff (by decide)).mpr h.lt]
  push_cast
  congr 2
  omega

/-- **The records of a list**, from one of them on. -/
theorem whileLoop_records {β : Type} {items : List β} {line : β → CStr} {rows : β → List α}
    (hlines : ∀ b ∈ items, Line lineSize (line b)) (hparse : ∀ b ∈ items, parse (line b) = .ok (rows b))
    {text : CStr} (front : CStr) (htext : text = front ++ items.flatMap fun b => counted 3 (line b)) (read : List α)
    {fuel : ℕ} (hfuel : items.length ≤ fuel) :
    whileLoop (fun s => decide (s.offset < (text.length : ℤ))) (nextRecord lineSize parse text) fuel
      ⟨front.length, read⟩ = .ok ⟨text.length, read ++ items.flatMap rows⟩ := by
  induction items generalizing front read fuel with
  | nil =>
    obtain rfl : text = front := htext.trans (List.append_nil front)
    rw [whileLoop_of_false (by simp), List.flatMap_nil, List.append_nil]
  | cons b items ih =>
    obtain ⟨fuel, rfl⟩ : ∃ f, fuel = f + 1 := ⟨fuel - 1, by rw [List.length_cons] at hfuel; omega⟩
    rw [List.flatMap_cons] at htext
    have hcond : decide ((front.length : ℤ) < text.length) = true := by
      have h3 := le_counted_length 3 (line b)
      rw [htext, List.length_append, List.length_append]
      exact decide_eq_true (by push_cast; omega)
    have hstep := nextRecord_counted (hlines b List.mem_cons_self) (hparse b List.mem_cons_self) front
      (items.flatMap fun b => counted 3 (line b)) read
    rw [← htext] at hstep
    have hrest := ih (fun b hb => hlines b (List.mem_cons_of_mem _ hb))
      (fun b hb => hparse b (List.mem_cons_of_mem _ hb)) (front ++ counted 3 (line b))
      (by rw [htext, List.append_assoc]) (read ++ rows b) (Nat.le_of_succ_le_succ hfuel)
    rw [whileLoop_succ_of_true (by exact hcond), hstep, List.flatMap_cons, ← List.append_assoc]
    exact hrest

/-- **A list of records** is read as it was written. -/
theorem loadRecords_counted {β : Type} {items : List β} {line : β → CStr} {rows : β → List α}
    (hlines : ∀ b ∈ items, Line lineSize (line b)) (hparse : ∀ b ∈ items, parse (line b) = .ok (rows b))
    {fuel : ℕ} (hfuel : items.length ≤ fuel) :
    loadRecords lineSize parse fuel (items.flatMap fun b => counted 3 (line b)) = .ok (items.flatMap rows) := by
  have h := whileLoop_records hlines hparse [] (List.nil_append _).symm [] hfuel
  have hstart : (⟨0, []⟩ : Cursor α) = ⟨(([] : CStr).length : ℤ), []⟩ := rfl
  rw [loadRecords, hstart, h]
  rfl

/-- Each record takes at least three bytes. -/
theorem length_le_records {β : Type} (items : List β) (line : β → CStr) :
    items.length ≤ (items.flatMap fun b => counted 3 (line b)).length := by
  induction items with
  | nil => exact Nat.zero_le _
  | cons b items ih =>
    have h3 := le_counted_length 3 (line b)
    rw [List.flatMap_cons, List.length_append, List.length_cons]
    omega

/-- **What is read comes from lines** of at most 999 bytes, whatever the text is. -/
theorem mem_loadRecords {fuel : ℕ} {fxtext : CStr} {rows : List α}
    (h : loadRecords lineSize parse fuel fxtext = .ok rows) :
    ∀ r ∈ rows, ∃ line rs, line.length < 1000 ∧ parse line = .ok rs ∧ r ∈ rs := by
  obtain ⟨s, hs, hrows⟩ := bind_eq_ok.mp h
  obtain rfl : s.rows = rows := Except.ok.inj hrows
  refine (whileLoop_ok (fun s => ∀ r ∈ s.rows, ∃ line rs, line.length < 1000 ∧ parse line = .ok rs ∧ r ∈ rs)
    (fun s s' hs _ hbody => ?_) hs (fun r hr => absurd hr List.not_mem_nil)).1
  obtain ⟨at_, -, hlen⟩ := bind_eq_ok.mp hbody
  change (if 0 < atoi (at_.take 3) then _ else _) = _ at hlen
  split_ifs at hlen with hpos
  · obtain ⟨at', -, hline⟩ := bind_eq_ok.mp hlen
    obtain ⟨line, hcopy, hparse⟩ := bind_eq_ok.mp hline
    obtain ⟨rs, hrs, hdone⟩ := bind_eq_ok.mp hparse
    obtain rfl := Except.ok.inj hdone
    have hlt := atoi_lt (List.length_take_le 3 at_)
    have hcount := (copyInto_eq_ok hcopy).2.1
    intro r hr
    rcases List.mem_append.mp hr with hr | hr
    · exact hs r hr
    · exact ⟨line, rs, by omega, hrs, hr⟩
  · obtain rfl := Except.ok.inj hlen
    exact hs

end Records

end Veejay.Client
