import Veejay.Net.Bounds

/-!
# A call of `vj_server_update` and the bytes it received

The walks are run over the whole receive buffer, with what earlier calls left in it; where they stay inside
the received bytes they do not see the rest (`verifyWalk_append`, `vjParseMsg_append`).  Each message is
copied to the pool, at an address that takes what is in use already into account twice, so that a copy may
lie over an earlier one.

* `AccessesInside`, `InsideBuffer` — what a call touches, and the condition on its input;
* `CopiesApart` — no copy is put over an earlier one;
* `update_confined` — **the call**: it stays inside exactly under the condition, and if no copy lies over
  another one, then every queued message is a contiguous part of what was received.
-/

namespace Veejay.Net

open CLib

variable {useMcast : Bool} {data buf rest : List UInt8} {bufLen i : ℤ} {p : Packet} {link link' : Link}
  {s : Server} {arrivals : List Recv}

/-! ## Bytes behind the received ones -/

theorem drop_append_of_byteAt {c : UInt8} (h : byteAt data i = .ok c) (rest : List UInt8) :
    (data ++ rest).drop (i + 1).toNat = data.drop (i + 1).toNat ++ rest := by
  have hi := byteAt_bounds h
  exact List.drop_append_of_le_length (by omega)

theorem scanHeader_append {colon : Bool} {str : List UInt8} {x : Option (ℤ × ℤ)}
    (h : scanHeader colon str = .ok x) (rest : List UInt8) :
    scanHeader colon (str ++ rest) = .ok x := by
  unfold scanHeader at h ⊢
  obtain ⟨y, hy, h⟩ := bind_eq_ok.mp h
  rw [readField_append hy, ok_bind]
  cases y with
  | eof => exact h
  | fail => exact h
  | val slen m =>
    obtain ⟨c, hc, h⟩ := bind_eq_ok.mp h
    have hm := byteAt_bounds hc
    show (byteAt (m ++ rest) 0 >>= fun c => _) = _
    rw [byteAt_append hc, ok_bind]
    by_cases hD : c = byteD
    · rw [if_pos hD] at h ⊢
      obtain ⟨z, hz, h⟩ := bind_eq_ok.mp h
      rw [List.drop_append_of_le_length (by omega), readField_append hz, ok_bind]
      cases z with
      | eof => exact h
      | fail => exact h
      | val netid m' =>
        cases colon with
        | false => exact h
        | true =>
          obtain ⟨d, hd, h⟩ := bind_eq_ok.mp h
          show (byteAt (m' ++ rest) 0 >>= fun _ => _) = _
          rw [byteAt_append hd, ok_bind]
          exact h
    · rw [if_neg hD] at h ⊢
      exact h

theorem verifyPacket_append {x : Option Packet} (h : verifyPacket useMcast data i = .ok x)
    (rest : List UInt8) : verifyPacket useMcast (data ++ rest) i = .ok x := by
  unfold verifyPacket at h ⊢
  obtain ⟨c, hc, h⟩ := bind_eq_ok.mp h
  rw [byteAt_append hc, ok_bind, drop_append_of_byteAt hc]
  by_cases hV : c = byteV
  · rw [if_pos hV] at h ⊢
    obtain ⟨y, hy, h⟩ := bind_eq_ok.mp h
    rw [scanHeader_append hy, ok_bind]
    cases y with
    | none => exact h
    | some y =>
      obtain ⟨slen, netid⟩ := y
      dsimp only at h ⊢
      split_ifs at h ⊢
      · exact h
      · exact h
      · obtain ⟨last, hlast, h⟩ := bind_eq_ok.mp h
        rw [byteAt_append hlast, ok_bind]
        exact h
      · exact h
  · rw [if_neg hV] at h ⊢
    by_cases hK : c = byteK
    · rw [if_pos hK] at h ⊢
      obtain ⟨y, hy, h⟩ := bind_eq_ok.mp h
      rw [readField_append hy, ok_bind]
      cases y <;> exact h
    · rw [if_neg hK] at h ⊢
      exact h

/-- **The verifier does not see what lies behind the received bytes.** -/
theorem vjVerifyMsg_append (h : VerifyInside useMcast data) (fuel : ℕ) (rest : List UInt8) :
    vjVerifyMsg fuel useMcast (data ++ rest) data.length = vjVerifyMsg fuel useMcast data data.length := by
  have hwalk : verifyWalk fuel useMcast (data ++ rest) data.length
      = verifyWalk fuel useMcast data data.length := by
    unfold verifyWalk
    split_ifs with hshort
    · rfl
    · refine roundLoop_congr (fun t ht hin => ?_) fuel
      have hinside := h t ⟨by omega, by simpa [inside] using hin, ht⟩
      obtain ⟨x, hx⟩ := (verifyPacket_readsOnly useMcast data t.1).returns
        (verifyPacket_inside_iff.mpr hinside)
      rw [verifyRound, verifyPacket_append hx, verifyRound, hx]
  rw [vjVerifyMsg, hwalk, vjVerifyMsg]

theorem parseHeader_append {x : Option Packet} (h : parseHeader data i = .ok x) (rest : List UInt8) :
    parseHeader (data ++ rest) i = .ok x := by
  unfold parseHeader at h ⊢
  obtain ⟨c, hc, h⟩ := bind_eq_ok.mp h
  rw [byteAt_append hc, ok_bind, drop_append_of_byteAt hc]
  by_cases hV : c = byteV
  · rw [if_pos hV] at h ⊢
    obtain ⟨y, hy, h⟩ := bind_eq_ok.mp h
    rw [scanHeader_append hy, ok_bind]
    cases y <;> exact h
  · rw [if_neg hV] at h ⊢
    by_cases hK : c = byteK
    · rw [if_pos hK] at h ⊢
      obtain ⟨y, hy, h⟩ := bind_eq_ok.mp h
      rw [readField_append hy, ok_bind]
      cases y <;> exact h
    · rw [if_neg hK] at h ⊢
      exact h

theorem takePacket_append (h : takePacket data link p ≠ .error .outOfBounds) (rest : List UInt8) :
    takePacket (data ++ rest) link p = takePacket data link p := by
  unfold takePacket enqueue at h ⊢
  split_ifs at h ⊢ with hwanted hroom
  · rfl
  · cases hpool : link.pool with
    | none => rfl
    | some pool =>
      rw [hpool] at h
      dsimp only at h ⊢
      cases halloc : vjSimplePoolAlloc pool (toSize p.size) with
      | none => rfl
      | some a =>
        obtain ⟨addr, pool'⟩ := a
        rw [halloc] at h
        dsimp only at h ⊢
        cases hslice : slice data p.start (toSize p.len) with
        | error f =>
          rw [hslice, error_bind] at h
          exact absurd (congrArg Except.error (slice_readsOnly _ _ _ f hslice)) h
        | ok bytes => rw [slice_append hslice]
  · rfl

/-- **The parser does not see what lies behind the received bytes.** -/
theorem vjParseMsg_append (h : ParseInside data link) (fuel : ℕ) (rest : List UInt8) :
    vjParseMsg fuel (data ++ rest) data.length link = vjParseMsg fuel data data.length link := by
  refine roundLoop_congr (fun t ht hin => ?_) fuel
  have hinside := h t ⟨by simpa [inside] using hin, ht⟩
  have hround := parseRound_inside_iff.mpr hinside
  obtain ⟨x, hx⟩ := (parseHeader_readsOnly data t.1).returns (parseHeader_inside_iff.mpr hinside.1)
  unfold parseRound at hround ⊢
  rw [hx, ok_bind] at hround
  rw [parseHeader_append hx, hx, ok_bind, ok_bind]
  cases x with
  | none => rfl
  | some p =>
    have htake : takePacket data t.2 p ≠ .error .outOfBounds := by
      intro herr
      dsimp only at hround
      rw [herr, error_bind] at hround
      exact hround rfl
    dsimp only
    rw [takePacket_append htake]

/-! ## The copies -/

/-- Every queued message is a contiguous part of the bytes. -/
def Slices (data : List UInt8) (link : Link) : Prop :=
  ∀ m ∈ link.queue, link.bytesAt m.msg m.len <:+: data

/-- The next copy is not put over a queued message. -/
def CopyApart (data : List UInt8) (t : ℤ × Link) : Prop :=
  ∀ p pool addr pool', p.pos = t.1 → Headed data p → t.2.pool = some pool →
    vjSimplePoolAlloc pool (toSize p.size) = some (addr, pool') →
      ∀ m ∈ t.2.queue, m.msg + m.len.toNat ≤ addr ∨ addr + (toSize p.len + p.tail.length) ≤ m.msg

theorem vjSimplePoolAlloc_mem {pool pool' : Pool} {n addr : ℕ}
    (h : vjSimplePoolAlloc pool n = some (addr, pool')) : pool'.mem = pool.mem := by
  unfold vjSimplePoolAlloc at h
  split_ifs at h
  obtain ⟨-, rfl⟩ := Prod.mk.inj (Option.some.inj h)
  rfl

/-- A copy that is not put over a queued message keeps the queue a part of the bytes. -/
theorem takePacket_slices {t : ℤ × Link} (hslices : Slices data t.2) (hpos : p.pos = t.1)
    (hp : Headed data p) (hapart : CopyApart data t) (h : takePacket data t.2 p = .ok link') :
    Slices data link' := by
  unfold takePacket at h
  split_ifs at h
  · obtain ⟨-, pool, hpool, ⟨-, rfl⟩ | ⟨addr, pool', bytes, mem, halloc, hslice, hwrite, rfl⟩⟩ :=
      enqueue_cases h
    · exact hslices
    · intro m hm
      have hmem := vjSimplePoolAlloc_mem halloc
      have hlen := slice_length hslice
      rcases List.mem_append.mp hm with hm | hm
      · have hold := hslices m hm
        have hdisjoint := hapart p pool addr pool' hpos hp hpool halloc m hm
        unfold Link.bytesAt at hold ⊢
        rw [hpool] at hold
        dsimp only at hold ⊢
        rw [overwrite_apart hwrite (by rw [List.length_append, hlen]; exact hdisjoint), hmem]
        exact hold
      · obtain rfl := List.mem_singleton.mp hm
        unfold Link.bytesAt
        dsimp only
        have hcopy := take_drop_overwrite hwrite
        have hpart : (mem.drop addr).take bytes.length = bytes := by
          have := congrArg (List.take bytes.length) hcopy
          rwa [List.take_take, List.length_append, min_eq_left (by omega), List.take_left' rfl] at this
        have hsmall : p.len.toNat ≤ bytes.length := by
          have hbounds := hp.small
          rcases lt_or_ge p.len 0 with hneg | h0
          · omega
          · rw [hlen, toSize_of_nonneg h0 (by omega)]
        refine List.IsInfix.trans ?_ (slice_within hslice)
        rw [← hpart]
        exact (List.take_prefix_take_left hsmall).isInfix
  · obtain rfl := Except.ok.inj h
    exact hslices

/-- No copy that the parser makes is put over an earlier one. -/
def CopiesApart (data : List UInt8) (link : Link) : Prop :=
  ∀ t, ParseVisits data data.length link t → CopyApart data t

/-- Whatever the parser returns, what it queued is made of parts of the bytes. -/
theorem vjParseMsg_slices {fuel : ℕ} {a : ℕ × Link} (hapart : CopiesApart data link)
    (h : vjParseMsg fuel data data.length link = .ok a) : Slices data a.2 := by
  have hvisits : ∀ t, Visits (inside data.length) (parseRound data) (0, { link with queue := [] }) t →
      Slices data t.2 := by
    intro t ht
    induction ht with
    | first => exact fun m hm => by cases hm
    | @next t t' ht hc hr ih =>
      obtain ⟨p, link', hpos, hp, htake, -, rfl⟩ := parseRound_again.mp hr
      exact takePacket_slices ih hpos hp (hapart t ⟨by simpa [inside] using hc, ht⟩) htake
  obtain ⟨t, ht, ⟨-, hx⟩ | ⟨hc, ⟨r, hr, hx⟩ | ⟨f, -, hx⟩⟩⟩ := roundLoop_stops h fun heq => by cases heq
  · obtain rfl := Except.ok.inj hx
    exact hvisits t ht
  · obtain rfl := Except.ok.inj hx
    obtain ⟨x, hx, hr⟩ := bind_eq_ok.mp hr
    cases x with
    | none =>
      obtain rfl := Round.leave.inj (Except.ok.inj hr)
      exact hvisits t ht
    | some p =>
      obtain ⟨hpos, hp⟩ := parseHeader_eq_some.mp hx
      obtain ⟨link', htake, hr⟩ := bind_eq_ok.mp hr
      split_ifs at hr with hfull
      · obtain rfl := Round.leave.inj (Except.ok.inj hr)
        exact takePacket_slices (hvisits t ht) hpos hp (hapart t ⟨by simpa [inside] using hc, ht⟩) htake
      · cases Except.ok.inj hr
  · cases hx

/-! ## The call -/

/-- The bytes that a call scans, if it comes to that. -/
def Scans (s : Server) (arrivals : List Recv) (data : List UInt8) : Prop :=
  ∃ n buf, receive s arrivals = .ok (some n, buf) ∧ 0 < n ∧ data = buf.take n.toNat

/-- The verifier accepts the bytes, with a number of packets that the queue can hold. -/
def AcceptedWith (useMcast : Bool) (data : List UInt8) : Prop :=
  ∃ fuel n, vjVerifyMsg fuel useMcast data data.length = .ok n ∧ 0 < n ∧ n < vjMaxPendingMsg

/-- A call writes only to the receive buffer what it receives, and reads only what it received. -/
structure AccessesInside (s : Server) (link : Link) (arrivals : List Recv) : Prop where
  receives : receive s arrivals ≠ .error .overrun
  verifies : ∀ data, Scans s arrivals data → ∀ fuel,
    vjVerifyMsg fuel s.useMcast data data.length ≠ .error .outOfBounds
  parses : ∀ data, Scans s arrivals data → AcceptedWith s.useMcast data → ∀ link₀,
    vjServerEmptyQueue link = .ok link₀ → ∀ fuel,
      vjParseMsg fuel data data.length link₀ ≠ .error .outOfBounds

/-- The packets of accepted bytes. -/
def FramedWith (useMcast : Bool) (data : List UInt8) : Prop :=
  5 ≤ data.length ∧ ∃ ps, Framed useMcast data data.length 0 ps ∧ 0 < ps.length ∧
    ps.length < vjMaxPendingMsg

/-- **The condition**: what is received fits the buffer, and the packets that the walks come to, with all
that their headers announce, lie inside the bytes that are scanned. -/
structure InsideBuffer (s : Server) (link : Link) (arrivals : List Recv) : Prop where
  fits : (taken s arrivals).length ≤ s.recvBuf.length
  verifies : ∀ data, Scans s arrivals data → VerifyInside s.useMcast data
  parses : ∀ data, Scans s arrivals data → FramedWith s.useMcast data → ∀ link₀,
    vjServerEmptyQueue link = .ok link₀ → ParseInside data link₀

/-- What the verifier accepts, as packets. -/
theorem acceptedWith_iff : AcceptedWith useMcast data ↔ FramedWith useMcast data := by
  constructor
  · rintro ⟨fuel, n, h, hpos, hmax⟩
    obtain ⟨walked, hwalk, hn⟩ := bind_eq_ok.mp h
    obtain rfl := Except.ok.inj hn
    have hne := List.ne_nil_of_length_pos hpos
    refine ⟨?_, walked, (framed_of_verifyWalk hwalk hne).1, hpos, hmax⟩
    by_contra hshort
    rw [verifyWalk, if_pos (by omega)] at hwalk
    exact hne (Except.ok.inj hwalk).symm
  · rintro ⟨hlen, ps, hframed, hpos, hmax⟩
    refine ⟨ps.length, ps.length, ?_, hpos, hmax⟩
    rw [vjVerifyMsg, verifyWalk, if_neg (by omega), verifyWalk_of_framed hframed le_rfl]
    rfl

theorem accessesInside_iff : AccessesInside s link arrivals ↔ InsideBuffer s link arrivals := by
  constructor
  · intro h
    exact ⟨(receive_overrun_iff s arrivals).mp h.receives,
      fun data hdata => verify_inside_iff.mp (h.verifies data hdata),
      fun data hdata hframed link₀ hlink =>
        parse_inside_iff.mp (h.parses data hdata (acceptedWith_iff.mpr hframed) link₀ hlink)⟩
  · intro h
    exact ⟨(receive_overrun_iff s arrivals).mpr h.fits,
      fun data hdata => verify_inside_iff.mpr (h.verifies data hdata),
      fun data hdata haccepted link₀ hlink =>
        parse_inside_iff.mpr (h.parses data hdata (acceptedWith_iff.mp haccepted) link₀ hlink)⟩

/-- Whatever a call queues is a contiguous part of what was received. -/
def QueuesSlices (s : Server) (link : Link) (arrivals : List Recv) : Prop :=
  ∀ fuel res s' link', vjServerUpdate fuel s link true arrivals = .ok (res, s', link') →
    link.inUse = true → ∀ m ∈ link'.messages, m <:+: taken s arrivals

theorem slices_messages (h : Slices data link) {m : List UInt8} (hm : m ∈ link.messages) :
    m <:+: data := by
  obtain ⟨msg, hmsg, rfl⟩ := List.mem_map.mp hm
  exact h msg (List.mem_of_mem_take hmsg)

theorem messages_of_empty {link₀ : Link} (h : vjServerEmptyQueue link = .ok link₀) :
    link₀.messages = [] := by
  unfold vjServerEmptyQueue at h
  cases hpool : link.pool with
  | none =>
    rw [hpool] at h
    cases h
  | some pool =>
    rw [hpool] at h
    obtain rfl := Except.ok.inj h
    rfl

theorem queuesSlices_of_apart (hin : InsideBuffer s link arrivals)
    (hapart : ∀ data link₀, Scans s arrivals data → vjServerEmptyQueue link = .ok link₀ →
      CopiesApart data link₀) : QueuesSlices s link arrivals := by
  intro fuel res s' link' hrun huse m hm
  rw [vjServerUpdate, if_neg (by simp [huse])] at hrun
  obtain ⟨link₀, hlink, hrun⟩ := bind_eq_ok.mp hrun
  have hempty := messages_of_empty hlink
  rw [if_neg (by simp)] at hrun
  obtain ⟨⟨received, buf⟩, hreceive, hrun⟩ := bind_eq_ok.mp hrun
  have hsame : ∀ {res' : ℤ} {s₁ : Server}, (Except.ok (res', s₁, link₀) : Exec (ℤ × Server × Link))
      = .ok (res, s', link') → m <:+: taken s arrivals := by
    intro res' s₁ heq
    obtain ⟨-, heq⟩ := Prod.mk.inj (Except.ok.inj heq)
    obtain ⟨-, rfl⟩ := Prod.mk.inj heq
    rw [hempty] at hm
    cases hm
  cases received with
  | none => exact hsame hrun
  | some n =>
    dsimp only at hrun
    split_ifs at hrun with hn
    · exact hsame hrun
    · obtain ⟨hfront, hle⟩ := receive_prefix hreceive (by omega)
      have hdata : (((buf.take n.toNat).length : ℕ) : ℤ) = n := by
        rw [List.length_take]
        omega
      have hscans : Scans s arrivals (buf.take n.toNat) := ⟨n, buf, hreceive, by omega, rfl⟩
      have hverify := hin.verifies _ hscans
      obtain ⟨nMsg, hmsg, hrun⟩ := bind_eq_ok.mp hrun
      have hmsg' : vjVerifyMsg fuel s.useMcast (buf.take n.toNat) (buf.take n.toNat).length = .ok nMsg := by
        rw [← vjVerifyMsg_append hverify fuel (buf.drop n.toNat), List.take_append_drop, hdata]
        exact hmsg
      split_ifs at hrun with hzero hmax
      · exact hsame hrun
      · have haccepted : AcceptedWith s.useMcast (buf.take n.toNat) :=
          ⟨fuel, nMsg, hmsg', Nat.pos_of_ne_zero hzero, hmax⟩
        have hparse := hin.parses _ hscans (acceptedWith_iff.mp haccepted) link₀ hlink
        obtain ⟨⟨nn, link₁⟩, hnn, hrun⟩ := bind_eq_ok.mp hrun
        have hnn' : vjParseMsg fuel (buf.take n.toNat) (buf.take n.toNat).length link₀ = .ok (nn, link₁) := by
          rw [← vjParseMsg_append hparse fuel (buf.drop n.toNat), List.take_append_drop, hdata]
          exact hnn
        have hslices := vjParseMsg_slices (hapart _ link₀ hscans hlink) hnn'
        have hlink' : link' = link₁ := by
          dsimp only at hrun
          split_ifs at hrun
          · exact (Prod.mk.inj (Prod.mk.inj (Except.ok.inj hrun)).2).2.symm
          · exact (Prod.mk.inj (Prod.mk.inj (Except.ok.inj hrun)).2).2.symm
        subst hlink'
        exact (slices_messages hslices hm).trans hfront.isInfix
      · exact hsame hrun

/-- **A call stays inside the bytes it received** exactly if these fit its buffer and hold all that their
headers announce; if moreover no copy is put over an earlier one, then every message it queues is a
contiguous part of them. -/
theorem update_confined (s : Server) (link : Link) (arrivals : List Recv) :
    (AccessesInside s link arrivals ↔ InsideBuffer s link arrivals) ∧
      (InsideBuffer s link arrivals →
        (∀ data link₀, Scans s arrivals data → vjServerEmptyQueue link = .ok link₀ →
          CopiesApart data link₀) → QueuesSlices s link arrivals) :=
  ⟨accessesInside_iff, queuesSlices_of_apart⟩

/-- A server with a receive buffer of 16 bytes. -/
def smallServer : Server where
  useMcast := false
  recvBuf := List.replicate 16 0

/-- A message and a newline, as they arrive. -/
def oneMessage : List Recv := [.bytes (lit "V") false, .bytes (lit "005D600:;\n") false]

theorem scans_oneMessage {data : List UInt8} (h : Scans smallServer oneMessage data) :
    data = lit "V005D600:;" := by
  obtain ⟨n, buf, hreceive, -, rfl⟩ := h
  have hrun : receive smallServer oneMessage
      = .ok (some 10, lit "V005D600:;\n" ++ List.replicate 5 0) := rfl
  obtain ⟨hn, rfl⟩ := Prod.mk.inj (Except.ok.inj (hreceive.symm.trans hrun))
  obtain rfl := Option.some.inj hn
  rfl

/-- The parser makes one round over the message. -/
theorem parseVisits_oneMessage {link₀ : Link} {t : ℤ × Link}
    (hlink : vjServerEmptyQueue (freshLink (vjSimplePoolInit 64)) = .ok link₀)
    (ht : ParseVisits (lit "V005D600:;") 10 link₀ t) : t = (0, link₀) := by
  obtain rfl := Except.ok.inj hlink
  obtain ⟨link₁, hround⟩ : ∃ link₁, parseRound (lit "V005D600:;")
      (0, { freshLink (vjSimplePoolInit 64) with queue := [] }) = .ok (.again (10, link₁)) := ⟨_, rfl⟩
  exact ht.2.once hround rfl (by simpa [inside] using ht.1)

theorem oneMessage_confined :
    AccessesInside smallServer (freshLink (vjSimplePoolInit 64)) oneMessage ∧
      QueuesSlices smallServer (freshLink (vjSimplePoolInit 64)) oneMessage := by
  obtain ⟨haccess, hqueue⟩ :=
    update_confined smallServer (freshLink (vjSimplePoolInit 64)) oneMessage
  have hin : InsideBuffer smallServer (freshLink (vjSimplePoolInit 64)) oneMessage := by
    refine ⟨by decide, fun data hdata t ht => ?_, fun data hdata _ link₀ hlink t ht => ?_⟩
    · obtain rfl := scans_oneMessage hdata
      have hround : verifyRound false (lit "V005D600:;") (0, [])
          = .ok (.again (10, [.vims 0 5 600])) := rfl
      obtain rfl := ht.2.2.once hround rfl (by simpa [inside] using ht.2.1)
      exact verifyPacket_inside_iff.mp fun h => by cases h
    · obtain rfl := scans_oneMessage hdata
      obtain rfl := parseVisits_oneMessage hlink ht
      obtain rfl := Except.ok.inj hlink
      exact parseRound_inside_iff.mp fun h => by cases h
  refine ⟨haccess.mpr hin, hqueue hin fun data link₀ hdata hlink t ht => ?_⟩
  obtain rfl := scans_oneMessage hdata
  obtain rfl := parseVisits_oneMessage hlink ht
  obtain rfl := Except.ok.inj hlink
  exact fun _ _ _ _ _ _ _ _ m hm => by cases hm

/-- **A keyframe packet that announces more than arrived** is read on behind what arrived. -/
theorem keyframe_read_outside :
    ¬ ∀ (s : Server) (link : Link) (arrivals : List Recv),
      AccessesInside s link arrivals ∧ QueuesSlices s link arrivals := by
  intro h
  obtain ⟨hin, -⟩ := h smallServer (freshLink (vjSimplePoolInit 64))
    [.bytes (lit "K") false, .bytes (lit "00000020abc") false]
  exact hin.parses (lit "K00000020ab") ⟨11, _, rfl, by decide, rfl⟩ ⟨2, 1, rfl, by decide, by decide⟩
    (freshLink (vjSimplePoolInit 64)) rfl 1 rfl

end Veejay.Net
