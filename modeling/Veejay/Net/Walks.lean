import Veejay.Net.Vims

/-!
# The two walks over a buffer

What one round of the verifier and of the parser does, said once.

* `Accepted` — a packet that the verifier goes on behind, as conditions on the bytes at its position
  (`verifyPacket_eq_some`);
* `Headed` — a packet whose header the parser can read (`parseHeader_eq_some`);
* `verifyRound_again`, `parseRound_again` — the rounds that go on;
* `VerifyVisits`, `ParseVisits` — where the walks come to.
-/

namespace Veejay.Net

open CLib

variable {useMcast : Bool} {buf : List UInt8} {i bufLen : ℤ} {p : Packet}

/-! ## Headers -/

theorem scanHeader_readsOnly (colon : Bool) (str : List UInt8) : ReadsOnly (scanHeader colon str) := by
  refine (readField_readsOnly 3 str).bind fun x => ?_
  cases x with
  | eof => exact readsOnly_ok _
  | fail => exact readsOnly_ok _
  | val slen rest =>
    refine (byteAt_readsOnly rest 0).bind fun c => ?_
    by_cases hc : c = byteD
    · rw [if_pos hc]
      refine (readField_readsOnly 3 _).bind fun x => ?_
      cases x with
      | eof => exact readsOnly_ok _
      | fail => exact readsOnly_ok _
      | val netid rest =>
        cases colon
        · exact readsOnly_ok _
        · exact (byteAt_readsOnly rest 0).bind fun _ => readsOnly_ok _
    · rw [if_neg hc]
      exact readsOnly_ok _

/-- Both numbers of a header were converted. -/
theorem scanHeader_eq_some {colon : Bool} {str : List UInt8} {slen netid : ℤ}
    (h : scanHeader colon str = .ok (some (slen, netid))) :
    ∃ rest rest', readField 3 str = .ok (.val slen rest) ∧ byteAt rest 0 = .ok byteD ∧
      readField 3 (rest.drop 1) = .ok (.val netid rest') ∧
        (colon = true → ∃ c, byteAt rest' 0 = .ok c) := by
  obtain ⟨x, hx, h⟩ := bind_eq_ok.mp h
  cases x with
  | eof => cases h
  | fail => cases h
  | val v rest =>
    obtain ⟨c, hc, h⟩ := bind_eq_ok.mp h
    by_cases hD : c = byteD
    · rw [if_pos hD] at h
      obtain ⟨y, hy, h⟩ := bind_eq_ok.mp h
      cases y with
      | eof => cases h
      | fail => cases h
      | val n rest' =>
        cases colon with
        | false =>
          obtain ⟨rfl, rfl⟩ := Prod.mk.inj (Option.some.inj (Except.ok.inj h))
          exact ⟨rest, rest', hx, hD ▸ hc, hy, fun h => by cases h⟩
        | true =>
          obtain ⟨d, hd, h⟩ := bind_eq_ok.mp h
          obtain ⟨rfl, rfl⟩ := Prod.mk.inj (Option.some.inj (Except.ok.inj h))
          exact ⟨rest, rest', hx, hD ▸ hc, hy, fun _ => ⟨d, hd⟩⟩
    · rw [if_neg hD] at h
      cases h

/-- The `':'` of the longer format is never waited for. -/
theorem scanHeader_of_colon {str : List UInt8} {x : Option (ℤ × ℤ)}
    (h : scanHeader true str = .ok x) : scanHeader false str = .ok x := by
  unfold scanHeader at h ⊢
  obtain ⟨y, hy, h⟩ := bind_eq_ok.mp h
  rw [hy, ok_bind]
  cases y with
  | eof => exact h
  | fail => exact h
  | val slen rest =>
    obtain ⟨c, hc, h⟩ := bind_eq_ok.mp h
    show (byteAt rest 0 >>= fun c => _) = _
    rw [hc, ok_bind]
    by_cases hD : c = byteD
    · rw [if_pos hD] at h ⊢
      obtain ⟨z, hz, h⟩ := bind_eq_ok.mp h
      rw [hz, ok_bind]
      cases z with
      | eof => exact h
      | fail => exact h
      | val netid rest =>
        obtain ⟨d, -, h⟩ := bind_eq_ok.mp h
        exact h
    · rw [if_neg hD] at h ⊢
      exact h

/-- The packets that the verifier goes on behind. -/
inductive Accepted (useMcast : Bool) (buf : List UInt8) : Packet → Prop
  | vims {i slen netid : ℤ} (hbyte : byteAt buf i = .ok byteV)
      (hscan : scanHeader true (buf.drop (i + 1).toNat) = .ok (some (slen, netid)))
      (hid : 0 ≤ netid ∧ netid ≤ 600) (hmcast : ¬(useMcast = true ∧ 400 ≤ netid ∧ netid < 500))
      (hlen : 0 < slen) (hlast : byteAt buf (i + 5 + (slen - 1)) = .ok semicolon) :
      Accepted useMcast buf (.vims i slen netid)
  | keyframe {i len : ℤ} {rest : List UInt8} (hbyte : byteAt buf i = .ok byteK)
      (hscan : readField 8 (buf.drop (i + 1).toNat) = .ok (.val len rest)) :
      Accepted useMcast buf (.keyframe i (some len))
  | ended {i : ℤ} (hbyte : byteAt buf i = .ok byteK)
      (hscan : readField 8 (buf.drop (i + 1).toNat) = .ok .eof) :
      Accepted useMcast buf (.keyframe i none)

/-- The packets whose header the parser reads. -/
inductive Headed (buf : List UInt8) : Packet → Prop
  | vims {i slen netid : ℤ} (hbyte : byteAt buf i = .ok byteV)
      (hscan : scanHeader false (buf.drop (i + 1).toNat) = .ok (some (slen, netid))) :
      Headed buf (.vims i slen netid)
  | keyframe {i len : ℤ} {rest : List UInt8} (hbyte : byteAt buf i = .ok byteK)
      (hscan : readField 8 (buf.drop (i + 1).toNat) = .ok (.val len rest)) :
      Headed buf (.keyframe i (some len))

/-- **The verifier's packet.** -/
theorem verifyPacket_eq_some :
    verifyPacket useMcast buf i = .ok (some p) ↔ p.pos = i ∧ Accepted useMcast buf p := by
  constructor
  · intro h
    unfold verifyPacket at h
    obtain ⟨c, hc, h⟩ := bind_eq_ok.mp h
    split_ifs at h with hV hK
    · subst hV
      obtain ⟨x, hx, h⟩ := bind_eq_ok.mp h
      cases x with
      | none => cases h
      | some x =>
        obtain ⟨slen, netid⟩ := x
        dsimp only at h
        split_ifs at h with hid hm hlen
        · cases h
        · cases h
        · obtain ⟨last, hlast, h⟩ := bind_eq_ok.mp h
          split_ifs at h with hsemi
          · obtain rfl := Option.some.inj (Except.ok.inj h)
            exact ⟨rfl, .vims hc hx (by omega) hm hlen (hsemi ▸ hlast)⟩
          · cases h
        · cases h
    · subst hK
      obtain ⟨x, hx, h⟩ := bind_eq_ok.mp h
      cases x with
      | fail => cases h
      | eof =>
        obtain rfl := Option.some.inj (Except.ok.inj h)
        exact ⟨rfl, .ended hc hx⟩
      | val len rest =>
        obtain rfl := Option.some.inj (Except.ok.inj h)
        exact ⟨rfl, .keyframe hc hx⟩
    · cases h
  · rintro ⟨rfl, h⟩
    cases h with
    | vims hbyte hscan hid hmcast hlen hlast =>
      simp only [verifyPacket, Packet.pos, hbyte, ok_bind, if_true, hscan, if_neg hmcast, if_pos hlen, hlast]
      rw [if_neg (by omega)]
    | keyframe hbyte hscan =>
      simp only [verifyPacket, Packet.pos, hbyte, ok_bind, hscan]
      rfl
    | ended hbyte hscan =>
      simp only [verifyPacket, Packet.pos, hbyte, ok_bind, hscan]
      rfl

/-- **The parser's packet.** -/
theorem parseHeader_eq_some : parseHeader buf i = .ok (some p) ↔ p.pos = i ∧ Headed buf p := by
  constructor
  · intro h
    unfold parseHeader at h
    obtain ⟨c, hc, h⟩ := bind_eq_ok.mp h
    split_ifs at h with hV hK
    · subst hV
      obtain ⟨x, hx, h⟩ := bind_eq_ok.mp h
      cases x with
      | none => cases h
      | some x =>
        obtain rfl := Option.some.inj (Except.ok.inj h)
        exact ⟨rfl, .vims hc hx⟩
    · subst hK
      obtain ⟨x, hx, h⟩ := bind_eq_ok.mp h
      cases x with
      | fail => cases h
      | eof => cases h
      | val len rest =>
        obtain rfl := Option.some.inj (Except.ok.inj h)
        exact ⟨rfl, .keyframe hc hx⟩
    · cases h
  · rintro ⟨rfl, h⟩
    cases h with
    | vims hbyte hscan =>
      simp only [parseHeader, Packet.pos, hbyte, ok_bind, if_true, hscan]
    | keyframe hbyte hscan =>
      simp only [parseHeader, Packet.pos, hbyte, ok_bind, hscan]
      rfl

/-- The parser reads the header of an accepted packet, unless the number of a keyframe packet is missing. -/
theorem Accepted.parseHeader (h : Accepted useMcast buf p) :
    parseHeader buf p.pos
      = .ok (match p with
        | .keyframe _ none => none
        | p => some p) := by
  cases h with
  | vims hbyte hscan => exact parseHeader_eq_some.mpr ⟨rfl, .vims hbyte (scanHeader_of_colon hscan)⟩
  | keyframe hbyte hscan => exact parseHeader_eq_some.mpr ⟨rfl, .keyframe hbyte hscan⟩
  | ended hbyte hscan =>
    simp only [Net.parseHeader, Packet.pos, hbyte, ok_bind, hscan]
    rfl

/-! ## Rounds -/

theorem verifyPacket_readsOnly (useMcast : Bool) (buf : List UInt8) (i : ℤ) :
    ReadsOnly (verifyPacket useMcast buf i) := by
  refine (byteAt_readsOnly buf i).bind fun c => ?_
  split_ifs
  · refine (scanHeader_readsOnly _ _).bind fun x => ?_
    cases x with
    | none => exact readsOnly_ok _
    | some x =>
      dsimp only
      split_ifs
      · exact readsOnly_ok _
      · exact readsOnly_ok _
      · refine (byteAt_readsOnly _ _).bind fun last => ?_
        split_ifs <;> exact readsOnly_ok _
      · exact readsOnly_ok _
  · refine (readField_readsOnly _ _).bind fun x => ?_
    cases x <;> exact readsOnly_ok _
  · exact readsOnly_ok _

theorem verifyRound_halts (useMcast : Bool) (buf : List UInt8) (s : ℤ × List Packet) :
    Halts (verifyRound useMcast buf s) := by
  refine (verifyPacket_readsOnly useMcast buf s.1).halts.bind fun x => ?_
  cases x <;> exact halts_ok _

theorem parseHeader_readsOnly (buf : List UInt8) (i : ℤ) : ReadsOnly (parseHeader buf i) := by
  refine (byteAt_readsOnly buf i).bind fun c => ?_
  split_ifs
  · refine (scanHeader_readsOnly _ _).bind fun x => ?_
    cases x <;> exact readsOnly_ok _
  · refine (readField_readsOnly _ _).bind fun x => ?_
    cases x <;> exact readsOnly_ok _
  · exact readsOnly_ok _

theorem enqueue_halts (link : Link) (buf : List UInt8) (p : Packet) : Halts (enqueue link buf p) := by
  unfold enqueue
  split_ifs
  · exact halts_error (by decide)
  · cases link.pool with
    | none => exact halts_error (by decide)
    | some pool =>
      dsimp only
      cases vjSimplePoolAlloc pool (toSize p.size) with
      | none => exact halts_ok _
      | some a =>
        exact (slice_readsOnly _ _ _).halts.bind fun bytes => (overwrite_halts _ _ _).bind fun mem => halts_ok _

theorem takePacket_halts (buf : List UInt8) (link : Link) (p : Packet) :
    Halts (takePacket buf link p) := by
  unfold takePacket
  split_ifs
  · exact enqueue_halts _ _ _
  · exact halts_ok _

theorem parseRound_halts (buf : List UInt8) (s : ℤ × Link) : Halts (parseRound buf s) := by
  refine (parseHeader_readsOnly buf s.1).halts.bind fun x => ?_
  cases x with
  | none => exact halts_ok _
  | some p =>
    refine (takePacket_halts buf s.2 p).bind fun link => ?_
    split_ifs <;> exact halts_ok _

/-- A round of the verifier that goes on walks over one accepted packet. -/
theorem verifyRound_again {s s' : ℤ × List Packet} :
    verifyRound useMcast buf s = .ok (.again s') ↔
      ∃ p, p.pos = s.1 ∧ Accepted useMcast buf p ∧ s' = (p.next, s.2 ++ [p]) := by
  constructor
  · intro h
    obtain ⟨x, hx, h⟩ := bind_eq_ok.mp h
    cases x with
    | none => cases h
    | some p =>
      obtain ⟨hpos, hacc⟩ := verifyPacket_eq_some.mp hx
      exact ⟨p, hpos, hacc, (Round.again.inj (Except.ok.inj h)).symm⟩
  · rintro ⟨p, hpos, hacc, rfl⟩
    rw [verifyRound, verifyPacket_eq_some.mpr ⟨hpos, hacc⟩, ok_bind]

/-- A round of the parser that goes on takes one packet. -/
theorem parseRound_again {s s' : ℤ × Link} :
    parseRound buf s = .ok (.again s') ↔
      ∃ p link, p.pos = s.1 ∧ Headed buf p ∧ takePacket buf s.2 p = .ok link ∧
        queueFull link p = false ∧ s' = (p.next, link) := by
  constructor
  · intro h
    obtain ⟨x, hx, h⟩ := bind_eq_ok.mp h
    cases x with
    | none => cases h
    | some p =>
      obtain ⟨hpos, hhead⟩ := parseHeader_eq_some.mp hx
      obtain ⟨link, hlink, h⟩ := bind_eq_ok.mp h
      cases hfull : queueFull link p with
      | true =>
        rw [if_pos hfull] at h
        cases h
      | false =>
        rw [if_neg (by simp [hfull])] at h
        exact ⟨p, link, hpos, hhead, hlink, hfull, (Round.again.inj (Except.ok.inj h)).symm⟩
  · rintro ⟨p, link, hpos, hhead, hlink, hfull, rfl⟩
    simp only [parseRound, parseHeader_eq_some.mpr ⟨hpos, hhead⟩, ok_bind, hlink, hfull]
    rfl

/-! ## Where the walks come to -/

/-- `_vj_verify_msg` begins a round in the state `s`. -/
def VerifyVisits (useMcast : Bool) (buf : List UInt8) (bufLen : ℤ) (s : ℤ × List Packet) : Prop :=
  5 ≤ bufLen ∧ s.1 < bufLen ∧ Visits (inside bufLen) (verifyRound useMcast buf) (0, []) s

/-- `_vj_parse_msg` begins a round in the state `s`. -/
def ParseVisits (buf : List UInt8) (bufLen : ℤ) (link : Link) (s : ℤ × Link) : Prop :=
  s.1 < bufLen ∧ Visits (inside bufLen) (parseRound buf) (0, { link with queue := [] }) s

/-! ## The queue -/

/-- An allocation of a negative size is refused. -/
theorem vjSimplePoolAlloc_negative (pool : Pool) {n : ℤ} (hneg : n < 0) (hlow : -2 ^ 63 ≤ n) :
    vjSimplePoolAlloc pool (toSize n) = none := by
  have hsmall := pool.small
  have hsize : 2 ^ 63 ≤ toSize n := by
    unfold toSize
    omega
  rw [vjSimplePoolAlloc, if_pos (Or.inl (by omega))]

/-- What `enqueue` does to a link with a pool and a place in its queue. -/
theorem enqueue_cases {link link' : Link} (h : enqueue link buf p = .ok link') :
    link.queue.length < vjMaxPendingMsg ∧ ∃ pool, link.pool = some pool ∧
      ((vjSimplePoolAlloc pool (toSize p.size) = none ∧ link' = link) ∨
        ∃ addr pool' bytes mem, vjSimplePoolAlloc pool (toSize p.size) = some (addr, pool') ∧
          slice buf p.start (toSize p.len) = .ok bytes ∧
          overwrite pool'.mem addr (bytes ++ p.tail) = .ok mem ∧
          link' = { link with
            pool := some { pool' with mem := mem }
            queue := link.queue ++ [{ msg := addr, len := p.len, src := p.start }] }) := by
  unfold enqueue at h
  split_ifs at h with hfull
  refine ⟨by omega, ?_⟩
  cases hpool : link.pool with
  | none =>
    rw [hpool] at h
    cases h
  | some pool =>
    rw [hpool] at h
    refine ⟨pool, rfl, ?_⟩
    dsimp only at h
    cases halloc : vjSimplePoolAlloc pool (toSize p.size) with
    | none =>
      rw [halloc] at h
      exact Or.inl ⟨rfl, (Except.ok.inj h).symm⟩
    | some a =>
      obtain ⟨addr, pool'⟩ := a
      rw [halloc] at h
      obtain ⟨bytes, hbytes, h⟩ := bind_eq_ok.mp h
      obtain ⟨mem, hmem, h⟩ := bind_eq_ok.mp h
      exact Or.inr ⟨addr, pool', bytes, mem, rfl, hbytes, hmem, (Except.ok.inj h).symm⟩

/-- A refused allocation leaves the link as it is. -/
theorem enqueue_refused {link : Link} {pool : Pool} (hroom : link.queue.length < vjMaxPendingMsg)
    (hpool : link.pool = some pool) (halloc : vjSimplePoolAlloc pool (toSize p.size) = none) :
    enqueue link buf p = .ok link := by
  rw [enqueue, if_neg (by omega), hpool]
  dsimp only
  rw [halloc]

/-- The pool stays where it is. -/
theorem takePacket_pool {link link' : Link} (h : takePacket buf link p = .ok link')
    (hpool : link.pool.isSome) : link'.pool.isSome := by
  unfold takePacket at h
  split_ifs at h
  · obtain ⟨-, pool, -, ⟨-, rfl⟩ | ⟨addr, pool', bytes, mem, -, -, -, rfl⟩⟩ := enqueue_cases h
    · exact hpool
    · rfl
  · obtain rfl := Except.ok.inj h
    exact hpool

theorem ParseVisits.pool {link : Link} {s : ℤ × Link} (h : ParseVisits buf bufLen link s)
    (hpool : link.pool.isSome) : s.2.pool.isSome := by
  refine h.2.invariant (fun s => s.2.pool.isSome) hpool fun t t' ht _ hr => ?_
  obtain ⟨p, link', -, -, hlink, -, rfl⟩ := parseRound_again.mp hr
  exact takePacket_pool hlink ht

end Veejay.Net
