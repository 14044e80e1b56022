import Veejay.Net.Wire

/-!
# From the client to the queue

`vj_client_send` prints the header of a message to its buffer and copies the message behind the fifth byte.
The header has five bytes as long as the length has at most three digits; a fourth digit pushes the `'D'`
to the sixth byte, and the message is copied over it.

* `vjClientSend_eq` — what goes to the socket;
* `scanHeader_long` — the header of a message of 1000 bytes or more cannot be read;
* `Returned` — the message is accepted, queued and handed out;
* `vjClientSend_returned_iff` — **the condition**: at most 999 bytes, and an id that the server takes.
-/

namespace Veejay.Net

open CLib

variable {useMcast colon : Bool} {msg : CStr} {blob rest : List UInt8} {bufLen : ℤ} {link : Link}

/-! ## Sending -/

/-- **What goes to the socket**: five bytes of header, and the message. -/
theorem vjClientSend_eq (hblob : blob.length = packetLen) (hfits : msg.length + 5 ≤ packetLen) :
    ∃ blob', vjClientSend blob msg = .ok ((header msg.length).take 5 ++ msg, blob') := by
  have hpacket : packetLen = 4096 := rfl
  have hhigh : (padded msg.length).length ≤ 4 :=
    zeroPadded_length_le (by norm_num) (by norm_num : 3 ≤ 4) (show msg.length < 10 ^ 4 by omega)
  have hlow : 3 ≤ (padded msg.length).length := le_zeroPadded_length 3 msg.length
  have hheader : (header msg.length).length = (padded msg.length).length + 2 := by simp [header]
  have hfirst : overwrite blob 0 (header msg.length ++ [0])
      = .ok (header msg.length ++ [0] ++ blob.drop ((header msg.length).length + 1)) :=
    overwrite_eq_ok.mpr ⟨by rw [List.length_append, List.length_singleton]; omega, by simp⟩
  have hlength := overwrite_length hfirst
  obtain ⟨blob', hsecond⟩ : ∃ blob', overwrite
      (header msg.length ++ [0] ++ blob.drop ((header msg.length).length + 1)) 5 msg = .ok blob' :=
    ⟨_, overwrite_eq_ok.mpr ⟨by omega, rfl⟩⟩
  have htake : (header msg.length ++ [0] ++ blob.drop ((header msg.length).length + 1)).take 5
      = (header msg.length).take 5 := by
    rw [List.append_assoc, List.take_append_of_le_length (by omega)]
  have hsent : slice blob' 0 (msg.length + 5) = .ok ((header msg.length).take 5 ++ msg) := by
    refine slice_eq_ok.mpr ⟨Or.inr ⟨le_rfl, ?_⟩, ?_⟩
    · rw [overwrite_length hsecond, hlength, hblob]
      push_cast
      omega
    · obtain ⟨-, rfl⟩ := overwrite_eq_ok.mp hsecond
      rw [htake]
      refine (List.take_left' ?_).symm
      rw [List.length_append, List.length_take]
      omega
  exact ⟨blob', by rw [vjClientSend, hfirst, ok_bind, hsecond, ok_bind, hsent]; rfl⟩

theorem take_header (hshort : msg.length ≤ 999) : (header msg.length).take 5 ++ msg = wire msg := by
  rw [wire, List.take_of_length_le (header_length hshort).le]

/-- **A header of four digits**: where the `'D'` should be, there is a digit. -/
theorem scanHeader_long {n : ℕ} (h : 1000 ≤ n) :
    scanHeader colon ((padded n).take 4 ++ rest) = .ok none := by
  have hlen : 3 < (padded n).length := lt_zeroPadded_length (show 10 ^ 3 ≤ n by omega)
  have hdigit : ∀ c ∈ padded n, isDigit c = true := fun c => isDigit_of_mem_padded
  match hp : padded n with
  | [] => rw [hp] at hlen; cases hlen
  | [_] => rw [hp] at hlen; simp at hlen
  | [_, _] => rw [hp] at hlen; simp at hlen
  | [_, _, _] => rw [hp] at hlen; simp at hlen
  | a :: b :: c :: d :: t =>
    rw [hp] at hdigit
    have hread : readField 3 ([a, b, c] ++ (d :: rest))
        = .ok (.val (digitsValue [a, b, c]) (d :: rest)) := by
      refine readField_digits (List.cons_ne_nil _ _) (fun x hx => hdigit x ?_) le_rfl (Or.inl rfl)
      simp only [List.mem_cons, List.not_mem_nil, or_false] at hx ⊢
      tauto
    have hD : d ≠ byteD := by
      rintro rfl
      exact absurd (hdigit byteD (by simp)) (by decide)
    have hat : byteAt (d :: rest) 0 = .ok d := rfl
    show scanHeader colon ([a, b, c] ++ (d :: rest)) = .ok none
    rw [scanHeader, hread, ok_bind]
    dsimp only
    rw [hat, ok_bind, if_neg hD]

/-! ## Through the server -/

/-- A link as `_vj_server_empty_queue` leaves it, with the pool that `vj_server_init_msg_pool` allocates. -/
structure Idle (link : Link) : Prop where
  inUse : link.inUse = true
  nQueued : link.nQueued = 0
  pool : ∃ pool, link.pool = some pool ∧ pool.len = msgPoolSize ∧ pool.mem.length = rup8 msgPoolSize ∧
    pool.cur = 0

/-- The client's bytes for a message are accepted as one message, and the message is handed out as it was.
They stand in the receive buffer in front of `rest`. -/
def Returned (fuel : ℕ) (useMcast : Bool) (msg : CStr) (blob rest : List UInt8) (bufLen : ℤ)
    (link : Link) : Prop :=
  Ensures (vjClientSend blob msg) fun sent =>
    vjVerifyMsg fuel useMcast (sent.1 ++ rest) bufLen = .ok 1 ∧
      Ensures (vjParseMsg fuel (sent.1 ++ rest) bufLen link) fun parsed =>
        Ensures (vjServerRetrieveMsg parsed.2) fun r =>
          ∃ ptr, r.1 = some (ptr, (msg.length : ℤ)) ∧ r.2.bytesAt ptr msg.length = msg

/-- A well-formed message comes back. -/
theorem returned_of_wellFormed {fuel : ℕ} (hfuel : 0 < fuel) (hblob : blob.length = packetLen)
    (hmsg : WellFormed useMcast msg) (hlow : msg.length + 4 ≤ bufLen) (hhigh : bufLen ≤ msg.length + 5)
    (hlink : Idle link) : Returned fuel useMcast msg blob rest bufLen link := by
  have hpacket : packetLen = 4096 := rfl
  have hsize : msgPoolSize = 4194304 := rfl
  have hshort := hmsg.short
  have hwire := wire_length hshort
  obtain ⟨huse, -, pool, hpool, hlen, hmem, hcur⟩ := hlink
  obtain ⟨blob', hsend⟩ := vjClientSend_eq hblob (by omega : msg.length + 5 ≤ packetLen)
  rw [take_header hshort] at hsend
  have hsingle : wires [msg] = wire msg := by simp [wires]
  have hall : ∀ m ∈ [msg], WellFormed useMcast m := fun m hm => List.mem_singleton.mp hm ▸ hmsg
  have hlow' : (wires [msg]).length ≤ bufLen + 1 := by
    rw [hsingle, hwire]
    push_cast
    omega
  have hhigh' : bufLen ≤ (wires [msg]).length := by
    rw [hsingle, hwire]
    push_cast
    omega
  have hfit : CopiesFit pool.len pool.mem.length pool.cur 0 ([msg].map fun msg => msg.length + 1) := by
    have h1 := rup8_le (msg.length + 1)
    have h2 := le_rup8 msgPoolSize
    rw [hcur, hlen, hmem]
    refine ⟨?_, ?_, Nat.zero_le _, trivial⟩
    · show 0 + (msg.length + 1) ≤ msgPoolSize
      omega
    · show rup8 0 + (0 + rup8 (msg.length + 1)) + (msg.length + 1) ≤ rup8 msgPoolSize
      rw [show rup8 0 = 0 from rfl]
      omega
  have hverify : vjVerifyMsg fuel useMcast (wires [msg] ++ rest) bufLen = .ok 1 :=
    verify_wires hall (List.cons_ne_nil _ _) hfuel hlow' hhigh'
  obtain ⟨parsed, hparse, -, hqueued, hretrieved, huse', hmsgs, hlens, -⟩ :=
    parse_wires hall hfuel (show 1 < vjMaxPendingMsg by decide) hlow' hhigh' hpool hfit
  rw [hsingle] at hverify hparse
  refine ⟨_, hsend, hverify, parsed, hparse, ?_⟩
  show Ensures (vjServerRetrieveMsg parsed.2) _
  rcases hq : parsed.2.queue with _ | ⟨m, _ | ⟨m', ms⟩⟩
  · rw [hq] at hlens
    cases hlens
  · rw [hq] at hlens hqueued
    have hbytes : parsed.2.bytesAt m.msg m.len = msg := by
      rw [Link.queued, hq] at hmsgs
      exact (List.cons.inj hmsgs).1
    have hmlen : m.len = msg.length := (List.cons.inj hlens).1
    rw [vjServerRetrieveMsg, if_neg (by rw [huse']; simp [huse]), if_neg (by simp [hqueued, hretrieved]),
      hretrieved, hq]
    refine ⟨_, rfl, m.msg, by rw [← hmlen], ?_⟩
    rw [← hmlen]
    exact hbytes
  · rw [hq] at hlens
    exact absurd (congrArg List.length hlens) (by simp [packetsAt])

/-- What comes back was well formed. -/
theorem wellFormed_of_returned {fuel : ℕ} (hblob : blob.length = packetLen)
    (hfits : msg.length + 5 ≤ packetLen) (hends : msg.getLast? = some semicolon)
    (h : Returned fuel useMcast msg blob rest bufLen link) : WellFormed useMcast msg := by
  obtain ⟨blob', hsend⟩ := vjClientSend_eq hblob hfits
  obtain ⟨sent, hsent, hverify, parsed, hparse, r, hretrieve, ptr, hr, -⟩ := h
  obtain rfl := Except.ok.inj (hsend.symm.trans hsent)
  obtain ⟨walked, hwalk, hone⟩ := bind_eq_ok.mp hverify
  have hlen : walked.length = 1 := Except.ok.inj hone
  obtain ⟨hframed, -⟩ := framed_of_verifyWalk hwalk (List.ne_nil_of_length_pos (by omega))
  obtain ⟨p, rfl⟩ := List.length_eq_one_iff.mp hlen
  -- the message was queued, since one was handed out
  have hcopied : Copied ((header msg.length).take 5 ++ msg ++ rest) p := by
    have hroom : ({ link with queue := [] } : Link).queue.length + [p].length < vjMaxPendingMsg :=
      show 0 + 1 < vjMaxPendingMsg by decide
    have hqueue := copied_of_parse hframed hroom hparse
    refine hqueue.2 (le_antisymm hqueue.1 ?_) p List.mem_cons_self
    unfold vjServerRetrieveMsg at hretrieve
    split_ifs at hretrieve
    · rw [← Except.ok.inj hretrieve] at hr
      cases hr
    · rw [← Except.ok.inj hretrieve] at hr
      cases hr
    · cases hm : parsed.2.queue[parsed.2.nRetrieved]? with
      | none =>
        rw [hm] at hretrieve
        cases hretrieve
      | some m =>
        have hlt := (List.getElem?_eq_some_iff.mp hm).1
        show 1 ≤ parsed.2.queue.length
        omega
  have hhead : (header msg.length).take 5 ++ msg ++ rest
      = byteV :: ((padded msg.length ++ [byteD]).take 4 ++ (msg ++ rest)) := by
    rw [header, List.cons_append, List.take_succ_cons, List.append_assoc]
    rfl
  obtain ⟨hpos, haccepted⟩ := hframed.head
  rw [hhead] at haccepted
  cases haccepted with
  | @vims i slen netid hbyte hscan hid hmcast =>
    obtain rfl : i = 0 := hpos
    have hid0 : netid ≠ 0 := hcopied
    rw [show ((0 : ℤ) + 1).toNat = 1 from rfl, List.drop_succ_cons, List.drop_zero] at hscan
    rcases Nat.lt_or_ge msg.length 1000 with hshort | hlong
    · have hthree := padded_length (show msg.length ≤ 999 by omega)
      rw [List.take_of_length_le (by rw [List.length_append, hthree]; rfl), List.append_assoc,
        List.singleton_append, scanHeader_padded (by omega) hends] at hscan
      obtain ⟨id, hvims, heq⟩ := Option.map_eq_some_iff.mp (Except.ok.inj hscan)
      obtain rfl : id = netid := (Prod.mk.inj heq).2
      exact ⟨by omega, hends, id, hvims, by omega, hid.2, hmcast⟩
    · rw [List.take_append_of_le_length (show 4 ≤ (padded msg.length).length from
        lt_zeroPadded_length (show 10 ^ 3 ≤ msg.length by omega)), scanHeader_long hlong] at hscan
      cases hscan
  | @keyframe i len rest' hbyte hscan =>
    obtain rfl : i = 0 := hpos
    cases hbyte
  | @ended i hbyte hscan =>
    obtain rfl : i = 0 := hpos
    cases hbyte

/-- **A message comes back** exactly if it has at most 999 bytes and an id that the server takes.  Over TCP
the server counts one byte less than it received. -/
theorem vjClientSend_returned_iff {fuel : ℕ} {useMcast : Bool} {msg : CStr} {blob rest : List UInt8}
    {bufLen : ℤ} {link : Link} (hfuel : 0 < fuel) (hblob : blob.length = packetLen)
    (hfits : msg.length + 5 ≤ packetLen) (hends : msg.getLast? = some semicolon)
    (hlow : msg.length + 4 ≤ bufLen) (hhigh : bufLen ≤ msg.length + 5) (hlink : Idle link) :
    Returned fuel useMcast msg blob rest bufLen link ↔
      msg.length ≤ 999 ∧ ∃ id, vimsId msg = some id ∧ idTaken useMcast id := by
  constructor
  · intro h
    have hmsg := wellFormed_of_returned hblob hfits hends h
    exact ⟨hmsg.short, hmsg.ident⟩
  · rintro ⟨hshort, hident⟩
    exact returned_of_wellFormed hfuel hblob ⟨hshort, hends, hident⟩ hlow hhigh hlink

/-- A client that has just connected has an idle link. -/
theorem idle_freshLink : Idle (freshLink (vjSimplePoolInit msgPoolSize)) := by
  have hsmall : msgPoolSize < 2 ^ 63 := by decide
  have hpool : vjSimplePoolInit msgPoolSize
      = some ⟨msgPoolSize, List.replicate (rup8 msgPoolSize) 0, 0, hsmall⟩ := dif_pos hsmall
  exact ⟨rfl, rfl, _, hpool, rfl, List.length_replicate, rfl⟩

theorem select_returned :
    Returned 1 false (lit "600:;") (List.replicate packetLen 0) [] 9
      (freshLink (vjSimplePoolInit msgPoolSize)) :=
  (vjClientSend_returned_iff Nat.one_pos List.length_replicate (by decide) rfl (by decide) (by decide)
    idle_freshLink).mpr ⟨by decide, 600, rfl, by decide, by decide, by decide⟩

/-- A message of 1000 bytes. -/
def longMessage : CStr := lit "600:" ++ List.replicate 995 97 ++ [semicolon]

/-- **A length of four digits** pushes the end of the header out of its place. -/
theorem four_digits_not_returned :
    ¬ ∀ (fuel : ℕ) (useMcast : Bool) (msg : CStr) (blob rest : List UInt8) (bufLen : ℤ) (link : Link),
      0 < fuel → blob.length = packetLen → msg.length + 5 ≤ packetLen → msg.getLast? = some semicolon →
      (∃ id, vimsId msg = some id ∧ idTaken useMcast id) → msg.length + 4 ≤ bufLen →
      bufLen ≤ msg.length + 5 → Idle link → Returned fuel useMcast msg blob rest bufLen link := by
  intro h
  have hlen : longMessage.length = 1000 := by
    rw [longMessage, List.length_append, List.length_append, List.length_replicate]
    rfl
  have hpacket : packetLen = 4096 := rfl
  have hends : longMessage.getLast? = some semicolon := List.getLast?_concat
  have hret := h 1 false longMessage (List.replicate packetLen 0) [] 1004
    (freshLink (vjSimplePoolInit msgPoolSize)) Nat.one_pos List.length_replicate (by omega) hends
    ⟨600, rfl, by decide, by decide, by decide⟩ (by rw [hlen]; norm_num) (by rw [hlen]; norm_num)
    idle_freshLink
  have hshort := (wellFormed_of_returned List.length_replicate (by omega) hends hret).short
  omega

end Veejay.Net
