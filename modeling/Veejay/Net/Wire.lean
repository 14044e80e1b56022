import Veejay.Net.Agreement

/-!
# Messages behind their headers

A message of at most 999 bytes that ends with `';'` stands behind a header of exactly five bytes, three of
them the decimal digits of its length.

* `WellFormed` — the messages that the server takes;
* `wire`, `wires` — a message behind its header, and one after the other;
* `framed_wires` — **what the verifier sees** in the bytes of well-formed messages;
* `CopiesFit` — room in the pool for the copies, one behind the other;
* `parse_messages` — **what the parser leaves** in the queue: the messages themselves;
* `wires_inj` — the messages are determined by their bytes.
-/

namespace Veejay.Net

open CLib

variable {useMcast colon : Bool} {buf rest : List UInt8} {bufLen i : ℤ} {ps : List Packet}
  {msg : CStr} {msgs : List CStr}

/-! ## Headers -/

theorem padded_length {n : ℕ} (h : n ≤ 999) : (padded n).length = 3 :=
  zeroPadded_length (by norm_num : 1 ≤ 3) (show n < 10 ^ 3 by omega)

theorem isDigit_of_mem_padded {n : ℕ} {c : UInt8} (h : c ∈ padded n) : isDigit c = true :=
  @isDigit_of_mem_zeroPadded 3 n c h

theorem digitsValue_padded (n : ℕ) : digitsValue (padded n) = n :=
  digitsValue_zeroPadded 3 n

/-- The id that `sscanf` finds at the start of a message. -/
def vimsId (msg : CStr) : Option ℤ :=
  match readField 3 msg with
  | .ok (.val id _) => some id
  | _ => none

/-- The ids that the server takes a message with. -/
def idTaken (useMcast : Bool) (id : ℤ) : Prop :=
  0 < id ∧ id ≤ 600 ∧ ¬(useMcast = true ∧ 400 ≤ id ∧ id < 500)

/-- The messages that the server takes. -/
structure WellFormed (useMcast : Bool) (msg : CStr) : Prop where
  short : msg.length ≤ 999
  ends : msg.getLast? = some semicolon
  ident : ∃ id, vimsId msg = some id ∧ idTaken useMcast id

/-- A well-formed message is not empty. -/
theorem WellFormed.length_pos (hmsg : WellFormed useMcast msg) : 0 < msg.length := by
  refine List.length_pos_of_ne_nil fun h => ?_
  have hends := hmsg.ends
  rw [h] at hends
  cases hends

/-- The id of a message is read inside the message. -/
theorem readField_message (hends : msg.getLast? = some semicolon) :
    ∃ x, readField 3 msg = .ok x ∧ ∀ v t, x = .val v t → t ≠ [] := by
  obtain ⟨m, rfl⟩ := List.getLast?_eq_some_iff.mp hends
  obtain ⟨x, hx, hval⟩ := readField_stops m 3 (show isSpace semicolon = false from rfl) rfl
    (by decide) (by decide)
  refine ⟨x, hx, fun v t h => ?_⟩
  obtain ⟨t', rfl⟩ := hval v t h
  simp

/-- **The header of a message**: what `sscanf` finds in the bytes that the client sends for it. -/
theorem scanHeader_padded (hshort : msg.length ≤ 999) (hends : msg.getLast? = some semicolon) :
    scanHeader colon (padded msg.length ++ byteD :: (msg ++ rest))
      = .ok ((vimsId msg).map fun id => ((msg.length : ℤ), id)) := by
  have hlen := padded_length hshort
  have hne : padded msg.length ≠ [] := by
    intro h
    rw [h] at hlen
    cases hlen
  have hread : readField 3 (padded msg.length ++ byteD :: (msg ++ rest))
      = .ok (.val msg.length (byteD :: (msg ++ rest))) := by
    rw [readField_digits hne (fun c => isDigit_of_mem_padded) hlen.le (Or.inl hlen.symm),
      digitsValue_padded]
  obtain ⟨x, hx, hval⟩ := readField_message hends
  have hD : byteAt (byteD :: (msg ++ rest)) 0 = .ok byteD := rfl
  rw [scanHeader, hread, ok_bind]
  dsimp only
  rw [hD, ok_bind, if_pos rfl, vimsId, hx, List.drop_succ_cons, List.drop_zero, readField_append hx rest,
    ok_bind]
  cases x with
  | eof => rfl
  | fail => rfl
  | val id t =>
    have ht := hval id t rfl
    cases colon with
    | false => rfl
    | true =>
      cases t with
      | nil => exact absurd rfl ht
      | cons c t => rfl

/-! ## The bytes of messages -/

/-- A message behind its header. -/
def wire (msg : CStr) : List UInt8 := header msg.length ++ msg

/-- Messages one after the other. -/
def wires (msgs : List CStr) : List UInt8 := msgs.flatMap wire

theorem wires_cons : wires (msg :: msgs) = wire msg ++ wires msgs := rfl

theorem wires_append (as bs : List CStr) : wires (as ++ bs) = wires as ++ wires bs :=
  List.flatMap_append

theorem header_length {n : ℕ} (h : n ≤ 999) : (header n).length = 5 := by
  simp [header, padded_length h]

theorem wire_length (hshort : msg.length ≤ 999) : (wire msg).length = msg.length + 5 := by
  rw [wire, List.length_append, header_length hshort, Nat.add_comm]

/-- The packets of messages that stand one after the other. -/
def packetsAt : ℤ → List CStr → List Packet
  | _, [] => []
  | pos, msg :: msgs =>
    .vims pos msg.length ((vimsId msg).getD 0) :: packetsAt (pos + 5 + msg.length) msgs

theorem packetsAt_length (pos : ℤ) (msgs : List CStr) : (packetsAt pos msgs).length = msgs.length := by
  induction msgs generalizing pos with
  | nil => rfl
  | cons msg msgs ih => rw [packetsAt, List.length_cons, List.length_cons, ih]

theorem packetsAt_sizes (pos : ℤ) (msgs : List CStr) :
    (packetsAt pos msgs).map (fun p => p.size.toNat) = msgs.map fun msg => msg.length + 1 := by
  induction msgs generalizing pos with
  | nil => rfl
  | cons msg msgs ih =>
    rw [packetsAt, List.map_cons, List.map_cons, ih]
    rfl

/-- A well-formed message is accepted where it stands. -/
theorem accepted_wire (hmsg : WellFormed useMcast msg) (front rest : List UInt8) :
    Accepted useMcast (front ++ (wire msg ++ rest)) (.vims front.length msg.length ((vimsId msg).getD 0)) := by
  obtain ⟨hshort, hends, id, hid, h0, h600, hmcast⟩ := hmsg
  have hwire : wire msg ++ rest = byteV :: (padded msg.length ++ byteD :: (msg ++ rest)) := by
    simp [wire, header]
  have hdrop : (front ++ (wire msg ++ rest)).drop ((front.length : ℤ) + 1).toNat
      = padded msg.length ++ byteD :: (msg ++ rest) := by
    rw [show ((front.length : ℤ) + 1).toNat = front.length + 1 from by omega, ← List.drop_drop,
      List.drop_left, hwire, List.drop_succ_cons, List.drop_zero]
  obtain ⟨m, rfl⟩ := List.getLast?_eq_some_iff.mp hends
  rw [hid, Option.getD_some]
  refine .vims ?_ ?_ ⟨h0.le, h600⟩ hmcast (by simp) ?_
  · refine byteAt_eq_ok.mpr ⟨Int.natCast_nonneg _, ?_⟩
    rw [Int.toNat_natCast, List.getElem?_append_right le_rfl, Nat.sub_self, hwire]
    rfl
  · rw [hdrop, scanHeader_padded hshort hends, hid]
    rfl
  · have hheader := header_length hshort
    refine byteAt_eq_ok.mpr ⟨by simp; omega, ?_⟩
    rw [show ((front.length : ℤ) + 5 + (((m ++ [semicolon]).length : ℕ) - 1)).toNat
        = front.length + (5 + m.length) from by simp; omega,
      List.getElem?_append_right (Nat.le_add_right _ _), Nat.add_sub_cancel_left, wire, List.append_assoc,
      List.getElem?_append_right (by omega), hheader, Nat.add_sub_cancel_left, List.append_assoc,
      List.getElem?_append_right le_rfl, Nat.sub_self]
    rfl

/-- **What the verifier sees**: one packet for each message.  The last byte of the last message is looked
at, be it counted as received or not. -/
theorem framed_wires (hmsgs : ∀ msg ∈ msgs, WellFormed useMcast msg) (front rest : List UInt8)
    (hlow : front.length + (wires msgs).length ≤ bufLen + 1)
    (hhigh : bufLen ≤ front.length + (wires msgs).length) :
    Framed useMcast (front ++ (wires msgs ++ rest)) bufLen front.length (packetsAt front.length msgs) := by
  induction msgs generalizing front with
  | nil => exact .done (by simpa [wires] using hhigh)
  | cons msg msgs ih =>
    have hmsg := hmsgs msg List.mem_cons_self
    have hlen := wire_length hmsg.short
    have hne := hmsg.length_pos
    rw [wires_cons, List.length_append] at hlow hhigh
    have hrec := ih (fun m hm => hmsgs m (List.mem_cons_of_mem msg hm)) (front ++ wire msg)
      (by rw [List.length_append]; push_cast at hlow ⊢; omega)
      (by rw [List.length_append]; push_cast at hhigh ⊢; omega)
    rw [List.append_assoc, ← List.append_assoc (wire msg), ← wires_cons, List.length_append, hlen,
      show ((front.length + (msg.length + 5) : ℕ) : ℤ) = front.length + 5 + msg.length from by
        push_cast; omega] at hrec
    refine Framed.packet (p := .vims front.length msg.length ((vimsId msg).getD 0)) ?_ ?_ hrec
    · show (front.length : ℤ) < bufLen
      push_cast at hlow
      omega
    · rw [wires_cons, List.append_assoc]
      exact accepted_wire hmsg front (wires msgs ++ rest)

/-- Each packet holds its message. -/
theorem packetsAt_messages (hmsgs : ∀ msg ∈ msgs, msg.length ≤ 999) (front rest : List UInt8) :
    (packetsAt front.length msgs).map (Packet.message (front ++ (wires msgs ++ rest))) = msgs := by
  induction msgs generalizing front with
  | nil => rfl
  | cons msg msgs ih =>
    have hshort := hmsgs msg List.mem_cons_self
    have hlen := wire_length hshort
    have hheader := header_length hshort
    have hrec := ih (fun m hm => hmsgs m (List.mem_cons_of_mem msg hm)) (front ++ wire msg)
    rw [List.append_assoc, ← List.append_assoc (wire msg), ← wires_cons, List.length_append, hlen,
      show ((front.length + (msg.length + 5) : ℕ) : ℤ) = front.length + 5 + msg.length from by
        push_cast; omega] at hrec
    rw [packetsAt, List.map_cons, hrec]
    congr 1
    show ((front ++ (wires (msg :: msgs) ++ rest)).drop ((front.length : ℤ) + 5).toNat).take
      ((msg.length : ℤ)).toNat = msg
    rw [show ((front.length : ℤ) + 5).toNat = front.length + 5 from by omega, ← List.drop_drop,
      List.drop_left, wires_cons, wire, List.append_assoc, List.append_assoc, List.drop_left' hheader,
      Int.toNat_natCast, List.take_left' rfl]

theorem packetsAt_copied (hmsgs : ∀ msg ∈ msgs, WellFormed useMcast msg) (buf : List UInt8) (pos : ℤ) :
    ∀ p ∈ packetsAt pos msgs, Copied buf p := by
  induction msgs generalizing pos with
  | nil => exact fun p hp => by cases hp
  | cons msg msgs ih =>
    intro p hp
    rcases List.mem_cons.mp hp with rfl | hp
    · obtain ⟨id, hid, h0, -⟩ := (hmsgs msg List.mem_cons_self).ident
      show (vimsId msg).getD 0 ≠ 0
      rw [hid, Option.getD_some]
      omega
    · exact ih (fun m hm => hmsgs m (List.mem_cons_of_mem msg hm)) _ p hp

/-- The verifier counts the messages. -/
theorem verify_wires {fuel : ℕ} (hmsgs : ∀ msg ∈ msgs, WellFormed useMcast msg) (hne : msgs ≠ [])
    (hfuel : msgs.length ≤ fuel) (hlow : (wires msgs).length ≤ bufLen + 1)
    (hhigh : bufLen ≤ (wires msgs).length) :
    vjVerifyMsg fuel useMcast (wires msgs ++ rest) bufLen = .ok msgs.length := by
  have hframed : Framed useMcast (wires msgs ++ rest) bufLen 0 (packetsAt 0 msgs) :=
    framed_wires hmsgs [] rest (by simpa using hlow) (by simpa using hhigh)
  have hlong : 5 ≤ bufLen := by
    cases msgs with
    | nil => exact absurd rfl hne
    | cons msg msgs =>
      have hmsg := hmsgs msg List.mem_cons_self
      have hpos := hmsg.length_pos
      rw [wires_cons, List.length_append, wire_length hmsg.short] at hlow
      push_cast at hlow
      omega
  rw [vjVerifyMsg, verifyWalk, if_neg (by omega), verifyWalk_of_framed hframed (by
    rw [packetsAt_length]; exact hfuel), ok_bind, List.nil_append, packetsAt_length]

/-! ## The copies -/

theorem le_rup8 (n : ℕ) : n ≤ rup8 n := by
  have h : (n + 8) &&& 8 ≤ 8 := Nat.and_le_right
  unfold rup8
  omega

theorem rup8_le (n : ℕ) : rup8 n ≤ n + 8 := Nat.sub_le _ _

/-- Room in a pool for copies of these sizes, behind what it has handed out and above `top`. -/
def CopiesFit (len memLen : ℕ) : ℕ → ℕ → List ℕ → Prop
  | _, _, [] => True
  | cur, top, n :: sizes =>
    cur + n ≤ len ∧ copyAddr cur n + n ≤ memLen ∧ top ≤ copyAddr cur n ∧
      CopiesFit len memLen (cur + rup8 n) (copyAddr cur n + n) sizes

/-- The messages behind the entries of the queue. -/
def Link.queued (link : Link) : List (List UInt8) := link.queue.map fun m => link.bytesAt m.msg m.len

/-- A copy above `top` is a new message, and leaves those below `top` as they are. -/
theorem queued_copy {link : Link} {pool : Pool} {mem bytes tail : List UInt8} {addr top cur : ℕ} {src : ℤ}
    (hpool : link.pool = some pool) (hbelow : ∀ m ∈ link.queue, m.msg + m.len.toNat ≤ top)
    (htop : top ≤ addr) (hwrite : overwrite pool.mem addr (bytes ++ tail) = .ok mem) :
    ({ link with
      pool := some { pool with cur := cur, mem := mem }
      queue := link.queue ++ [{ msg := addr, len := bytes.length, src := src }] } : Link).queued
      = link.queued ++ [bytes] := by
  unfold Link.queued
  rw [List.map_append, List.map_singleton]
  congr 1
  · refine List.map_congr_left fun m hm => ?_
    have hm' := hbelow m hm
    show (mem.drop m.msg).take m.len.toNat = _
    rw [overwrite_apart hwrite (Or.inl (by omega)), Link.bytesAt, hpool]
  · have hcopy := congrArg (List.take bytes.length) (take_drop_overwrite hwrite)
    rw [List.take_take, List.length_append, min_eq_left (Nat.le_add_right _ _), List.take_left' rfl] at hcopy
    exact congrArg (fun x => [x]) hcopy

/-- **What the parser leaves in the queue**, if it copies every packet above the one before. -/
theorem parse_messages (h : Framed useMcast buf bufLen i ps) :
    ∀ {fuel : ℕ} {link : Link} {pool : Pool} {top : ℕ}, ps.length ≤ fuel → (∀ p ∈ ps, Copied buf p) →
      link.pool = some pool → link.queue.length + ps.length < vjMaxPendingMsg →
      (∀ m ∈ link.queue, m.msg + m.len.toNat ≤ top) →
      CopiesFit pool.len pool.mem.length pool.cur top (ps.map fun p => p.size.toNat) →
      Ensures (roundLoop (inside bufLen) (parseRound buf) parseExit fuel (i, link)) fun a =>
        a.1 = link.queue.length + ps.length ∧ a.2.nQueued = a.2.queue.length ∧ a.2.nRetrieved = 0 ∧
          a.2.inUse = link.inUse ∧ a.2.queued = link.queued ++ ps.map (Packet.message buf) ∧
          a.2.queue.map Message.len = link.queue.map Message.len ++ ps.map Packet.len ∧
          ∃ pool', a.2.pool = some pool' ∧ pool'.len = pool.len ∧ pool'.mem.length = pool.mem.length := by
  induction h with
  | done hi =>
    intro fuel link pool top _ _ hpool _ _ _
    rw [roundLoop_exit (by simpa [inside] using hi), ensures_ok]
    exact ⟨by simp [parseExit], rfl, rfl, rfl, (List.append_nil _).symm, (List.append_nil _).symm,
      pool, hpool, rfl, rfl⟩
  | @packet p ps hi hp hps ih =>
    intro fuel link pool top hfuel hcopied hpool hroom hbelow hfit
    obtain ⟨fuel, rfl⟩ : ∃ n, fuel = n + 1 := ⟨fuel - 1, by simp only [List.length_cons] at hfuel; omega⟩
    rw [List.length_cons] at hfuel hroom
    rw [List.map_cons] at hfit
    obtain ⟨hlen, hmem, htop, hfit⟩ := hfit
    have hcopy := hcopied p List.mem_cons_self
    obtain ⟨-, h0, hin⟩ := hcopy.facts hp
    obtain ⟨mem, hwrite, htake⟩ := takePacket_copied hp hcopy (by omega) hpool hlen hmem
    have hlength := overwrite_length hwrite
    have hround := parseRound_copied hp hcopy htake (by
      rw [List.length_append, List.length_singleton]
      omega)
    have hmessage : (((p.message buf).length : ℕ) : ℤ) = p.len := by
      rw [Packet.message, List.length_take, List.length_drop]
      omega
    rw [roundLoop_again (by simpa [inside] using hi) hround]
    refine (ih (by omega) (fun q hq => hcopied q (List.mem_cons_of_mem p hq)) rfl
      (by rw [List.length_append, List.length_singleton]; omega) (fun m hm => ?_)
      (by dsimp only; rw [hlength]; exact hfit)).mono fun a ha => ?_
    · have hsize : p.size = p.len + p.tail.length := rfl
      rcases List.mem_append.mp hm with hm | hm
      · have hm' := hbelow m hm
        omega
      · obtain rfl := List.mem_singleton.mp hm
        dsimp only
        omega
    · obtain ⟨hcount, hqueued, hretrieved, huse, hmsgs, hlens, pool', hpool', hlen', hmem'⟩ := ha
      have hnew : Link.queued { link with
          pool := some { pool with cur := pool.cur + rup8 p.size.toNat, mem := mem }
          queue := link.queue ++
            [{ msg := copyAddr pool.cur p.size.toNat, len := p.len, src := p.start }] }
          = link.queued ++ [p.message buf] := by
        rw [← hmessage]
        exact queued_copy hpool hbelow htop hwrite
      refine ⟨by rw [hcount, List.length_append, List.length_singleton, List.length_cons]; omega,
        hqueued, hretrieved, huse, ?_, ?_, pool', hpool', hlen', hmem'.trans hlength⟩
      · rw [hmsgs, hnew, List.append_assoc]
        rfl
      · rw [hlens, List.map_append, List.append_assoc]
        rfl

/-- The parser queues the messages. -/
theorem parse_wires {fuel : ℕ} {link : Link} {pool : Pool} (hmsgs : ∀ msg ∈ msgs, WellFormed useMcast msg)
    (hfuel : msgs.length ≤ fuel) (hroom : msgs.length < vjMaxPendingMsg)
    (hlow : (wires msgs).length ≤ bufLen + 1) (hhigh : bufLen ≤ (wires msgs).length)
    (hpool : link.pool = some pool)
    (hfit : CopiesFit pool.len pool.mem.length pool.cur 0 (msgs.map fun msg => msg.length + 1)) :
    Ensures (vjParseMsg fuel (wires msgs ++ rest) bufLen link) fun a =>
      a.1 = msgs.length ∧ a.2.nQueued = a.2.queue.length ∧ a.2.nRetrieved = 0 ∧ a.2.inUse = link.inUse ∧
        a.2.queued = msgs ∧ a.2.queue.map Message.len = (packetsAt 0 msgs).map Packet.len ∧
        ∃ pool', a.2.pool = some pool' ∧ pool'.len = pool.len ∧ pool'.mem.length = pool.mem.length := by
  have hframed : Framed useMcast (wires msgs ++ rest) bufLen 0 (packetsAt 0 msgs) :=
    framed_wires hmsgs [] rest (by simpa using hlow) (by simpa using hhigh)
  have hmessages : (packetsAt 0 msgs).map (Packet.message (wires msgs ++ rest)) = msgs :=
    packetsAt_messages (fun msg hmsg => (hmsgs msg hmsg).short) [] rest
  have hempty : ({ link with queue := [] } : Link).pool = some pool := hpool
  refine (parse_messages hframed (by rw [packetsAt_length]; exact hfuel) (packetsAt_copied hmsgs _ _)
    hempty (by rw [packetsAt_length]; simpa using hroom) (fun m hm => by cases hm)
    (by rw [packetsAt_sizes]; exact hfit)).mono fun a ha => ?_
  obtain ⟨hcount, hqueued, hretrieved, huse, hmsgs', hlens, hpool'⟩ := ha
  rw [packetsAt_length] at hcount
  rw [hmessages] at hmsgs'
  exact ⟨by simpa using hcount, hqueued, hretrieved, huse, hmsgs', hlens, hpool'⟩

/-! ## The messages behind the bytes -/

theorem padded_inj {m n : ℕ} (h : padded m = padded n) : m = n := by
  rw [← digitsValue_padded m, h, digitsValue_padded]

/-- **The messages are determined by their bytes.** -/
theorem wires_inj {as bs : List CStr} (has : ∀ msg ∈ as, msg.length ≤ 999)
    (hbs : ∀ msg ∈ bs, msg.length ≤ 999) (h : wires as = wires bs) : as = bs := by
  induction as generalizing bs with
  | nil =>
    cases bs with
    | nil => rfl
    | cons b bs => simp [wires, wire, header] at h
  | cons a as ih =>
    cases bs with
    | nil => simp [wires, wire, header] at h
    | cons b bs =>
      have ha := header_length (has a List.mem_cons_self)
      have hb := header_length (hbs b List.mem_cons_self)
      simp only [wires_cons, wire, List.append_assoc] at h
      obtain ⟨hheader, h⟩ := List.append_inj h (ha.trans hb.symm)
      have hlen : a.length = b.length := by
        simp only [header, List.cons_append, List.cons.injEq, true_and] at hheader
        exact padded_inj (List.append_inj_left' hheader rfl)
      obtain ⟨rfl, hrest⟩ := List.append_inj h hlen
      rw [ih (fun m hm => has m (List.mem_cons_of_mem a hm))
        (fun m hm => hbs m (List.mem_cons_of_mem a hm)) hrest]

end Veejay.Net
