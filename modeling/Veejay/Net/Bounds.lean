import Veejay.Net.Agreement

/-!
# What receiving and scanning touch

The receive loop asks for 4096 bytes at a time wherever it stands, and compares with the size of the buffer
only afterwards.  The verifier looks at the last byte of a message wherever the header says it is, and the
parser copies as many bytes of a keyframe packet as the header says there are.

* `taken` — the bytes that the receive loop writes (`receive_overrun_iff`);
* `VerifyInside`, `ParseInside` — **the conditions**: the headers the walks come to, and what they announce,
  lie inside the received bytes (`verify_inside_iff`, `parse_inside_iff`).
-/

namespace Veejay.Net

open CLib

variable {useMcast : Bool} {data buf rest : List UInt8} {bufLen i : ℤ} {p : Packet} {link link' : Link}
  {s : Server} {arrivals : List Recv}

/-! ## Receiving -/

/-- What the loop from `readmore_lbl` on receives. -/
def delivered : List Recv → List UInt8
  | [] => []
  | .failed eagain :: rest => if eagain then delivered rest else []
  | .bytes data eagain :: rest =>
    data ++ if data.length = recvSize ∧ eagain = true then delivered rest else []

/-- What one call of `vj_server_update` receives. -/
def taken (s : Server) : List Recv → List UInt8
  | .bytes data _ :: rest =>
    if s.useMcast then data
    else match data with
      | [c] => c :: if c = byteV ∨ c = byteK ∨ c = byteD then delivered rest else []
      | _ => []
  | _ => []

/-- The loop stays inside its buffer exactly if what it receives fits. -/
theorem readMore_overrun_iff {ptr : ℕ} {received : ℤ} (hptr : ptr ≤ buf.length)
    (hreceived : received + 1 = ptr) :
    readMore buf.length arrivals ptr received buf ≠ .error .overrun ↔
      ptr + (delivered arrivals).length ≤ buf.length := by
  induction arrivals generalizing ptr received buf with
  | nil => simp [readMore, delivered, hptr]
  | cons r arrivals ih =>
    cases r with
    | failed eagain =>
      cases eagain with
      | true =>
        simp only [readMore, delivered, if_true]
        exact ih hptr hreceived
      | false => simp [readMore, delivered, hptr]
    | bytes data eagain =>
      rw [readMore, delivered, List.length_append]
      by_cases hfit : ptr + data.length ≤ buf.length
      · obtain ⟨buf', hbuf⟩ : ∃ buf', overwrite buf ptr data = .ok buf' :=
          ⟨_, overwrite_eq_ok.mpr ⟨hfit, rfl⟩⟩
        have hlen := overwrite_length hbuf
        rw [hbuf, ok_bind]
        by_cases hmore : data.length = recvSize ∧ eagain = true
        · have hptr' : ptr + data.length ≤ buf'.length := by omega
          have hreceived' : received + data.length + 1 = ((ptr + data.length : ℕ) : ℤ) := by
            push_cast
            omega
          rw [if_pos hmore, if_pos hmore, if_neg (by omega), ← hlen, ih hptr' hreceived', add_assoc]
        · rw [if_neg hmore, if_neg hmore]
          simpa using hfit
      · have hover : overwrite buf ptr data = .error .overrun := by
          unfold overwrite
          rw [if_neg hfit]
        rw [hover, error_bind]
        simp only [ne_eq, not_true_eq_false, false_iff]
        omega

/-- **The receive loop never writes behind its buffer** exactly if what it receives fits. -/
theorem receive_overrun_iff (s : Server) (arrivals : List Recv) :
    receive s arrivals ≠ .error .overrun ↔ (taken s arrivals).length ≤ s.recvBuf.length := by
  have hwrite : ∀ {α : Type} (data : List UInt8) (k : List UInt8 → α),
      (overwrite s.recvBuf 0 data >>= fun buf => .ok (k buf)) ≠ .error .overrun ↔
        data.length ≤ s.recvBuf.length := by
    intro α data k
    unfold overwrite
    split_ifs with hfit
    · simp only [ok_bind, ne_eq, reduceCtorEq, not_false_eq_true, true_iff]
      omega
    · simp only [error_bind, ne_eq, not_true_eq_false, false_iff]
      omega
  unfold receive
  cases hm : s.useMcast with
  | true =>
    simp only [if_true]
    cases arrivals with
    | nil => simp [taken]
    | cons r arrivals =>
      cases r with
      | failed eagain => simp [taken]
      | bytes data eagain =>
        simp only [taken, hm, if_true]
        exact hwrite data fun buf => (some (data.length : ℤ), buf)
  | false =>
    simp only [Bool.false_eq_true, if_false]
    cases arrivals with
    | nil => simp [taken]
    | cons r arrivals =>
      cases r with
      | failed eagain => simp [taken]
      | bytes data eagain =>
        simp only [taken, hm, Bool.false_eq_true, if_false]
        match data with
        | [] => simp
        | c :: d :: data => simp
        | [c] =>
          by_cases hc : c = byteV ∨ c = byteK ∨ c = byteD
          · simp only [if_pos hc]
            by_cases hone : 1 ≤ s.recvBuf.length
            · obtain ⟨buf, hbuf⟩ : ∃ buf, overwrite s.recvBuf 0 [c] = .ok buf :=
                ⟨_, overwrite_eq_ok.mpr ⟨by simpa using hone, rfl⟩⟩
              have hlen := overwrite_length hbuf
              rw [hbuf, ok_bind, ← hlen, readMore_overrun_iff (by omega) (by norm_num),
                List.length_cons, Nat.add_comm]
            · have hover : overwrite s.recvBuf 0 [c] = .error .overrun := by
                unfold overwrite
                rw [if_neg (by simpa using hone)]
              rw [hover, error_bind]
              simp only [ne_eq, not_true_eq_false, false_iff, List.length_cons]
              omega
          · simp only [if_neg hc]
            exact hwrite [c] fun buf => (some (0 : ℤ), buf)

/-- What the loop leaves in the buffer, if it received anything. -/
theorem readMore_eq_ok {max n received : ℤ} {ptr : ℕ} {buf' : List UInt8} (hptr : ptr ≤ buf.length)
    (h : readMore max arrivals ptr received buf = .ok (some n, buf')) (hn : 0 < n) :
    n = received + (delivered arrivals).length ∧
      buf'.take (ptr + (delivered arrivals).length) = buf.take ptr ++ delivered arrivals := by
  induction arrivals generalizing ptr received buf with
  | nil => cases h
  | cons r arrivals ih =>
    cases r with
    | failed eagain =>
      cases eagain with
      | true =>
        simp only [readMore, delivered, if_true] at h ⊢
        exact ih hptr h
      | false =>
        simp only [readMore, Bool.false_eq_true, if_false] at h
        obtain ⟨hn', -⟩ := Prod.mk.inj (Except.ok.inj h)
        obtain rfl := Option.some.inj hn'
        exact absurd hn (by decide)
    | bytes data eagain =>
      rw [readMore] at h
      obtain ⟨buf₁, hbuf, h⟩ := bind_eq_ok.mp h
      have hlen := overwrite_length hbuf
      obtain ⟨hfit, rfl⟩ := overwrite_eq_ok.mp hbuf
      have htake : (buf.take ptr ++ data ++ buf.drop (ptr + data.length)).take (ptr + data.length)
          = buf.take ptr ++ data :=
        List.take_left' (by rw [List.length_append, List.length_take]; omega)
      by_cases hmore : data.length = recvSize ∧ eagain = true
      · rw [if_pos hmore] at h
        split_ifs at h with hmax
        · cases h
        · obtain ⟨hcount, hbytes⟩ := ih (by omega) h
          rw [delivered, if_pos hmore, List.length_append]
          refine ⟨by push_cast; omega, ?_⟩
          rw [← add_assoc, hbytes, htake, List.append_assoc]
      · rw [if_neg hmore] at h
        obtain ⟨hn', rfl⟩ := Prod.mk.inj (Except.ok.inj h)
        obtain rfl := Option.some.inj hn'
        rw [delivered, if_neg hmore, List.append_nil]
        exact ⟨rfl, htake⟩

/-- **The bytes that are scanned were received.** -/
theorem receive_prefix {n : ℤ} (h : receive s arrivals = .ok (some n, buf)) (hn : 0 < n) :
    buf.take n.toNat <+: taken s arrivals ∧ n.toNat ≤ buf.length := by
  unfold receive at h
  cases hm : s.useMcast with
  | true =>
    rw [hm, if_pos rfl] at h
    cases arrivals with
    | nil => cases h
    | cons r arrivals =>
      cases r with
      | failed eagain =>
        obtain ⟨hn', -⟩ := Prod.mk.inj (Except.ok.inj h)
        obtain rfl := Option.some.inj hn'
        exact absurd hn (by decide)
      | bytes data eagain =>
        obtain ⟨buf', hbuf, h⟩ := bind_eq_ok.mp h
        obtain ⟨hn', rfl⟩ := Prod.mk.inj (Except.ok.inj h)
        obtain rfl := Option.some.inj hn'
        have hdata := take_drop_overwrite hbuf
        rw [List.drop_zero] at hdata
        simp only [taken, hm, if_true, Int.toNat_natCast, hdata]
        exact ⟨List.prefix_rfl, by
          rw [overwrite_length hbuf]
          simpa using (overwrite_eq_ok.mp hbuf).1⟩
  | false =>
    rw [hm, if_neg (by decide)] at h
    cases arrivals with
    | nil => cases h
    | cons r arrivals =>
      cases r with
      | failed eagain =>
        obtain ⟨hn', -⟩ := Prod.mk.inj (Except.ok.inj h)
        obtain rfl := Option.some.inj hn'
        exact absurd hn (by decide)
      | bytes data eagain =>
        have hnone : ∀ {x : Exec (Option ℤ × List UInt8)}, x = .ok (some (-1), s.recvBuf) →
            x ≠ .ok (some n, buf) := by
          rintro x rfl heq
          obtain ⟨hn', -⟩ := Prod.mk.inj (Except.ok.inj heq)
          obtain rfl := Option.some.inj hn'
          exact absurd hn (by decide)
        match data with
        | [] => exact absurd h (hnone rfl)
        | c :: d :: data => exact absurd h (hnone rfl)
        | [c] =>
          obtain ⟨buf₁, hbuf, h⟩ := bind_eq_ok.mp h
          have hfirst := take_drop_overwrite hbuf
          have hone : 1 ≤ buf₁.length := by
            rw [overwrite_length hbuf]
            simpa using (overwrite_eq_ok.mp hbuf).1
          by_cases hc : c = byteV ∨ c = byteK ∨ c = byteD
          · rw [if_pos hc] at h
            obtain ⟨hcount, hbytes⟩ := readMore_eq_ok hone h hn
            rw [List.drop_zero, List.length_singleton] at hfirst
            rw [hfirst] at hbytes
            have hle : n.toNat ≤ 1 + (delivered arrivals).length := by omega
            have hlen := congrArg List.length hbytes
            rw [List.length_take, List.length_append, List.length_singleton] at hlen
            refine ⟨?_, by omega⟩
            rw [taken, hm, if_neg (by decide), if_pos hc, ← List.singleton_append, ← hbytes]
            exact (List.take_prefix_take_left hle)
          · rw [if_neg hc] at h
            obtain ⟨hn', -⟩ := Prod.mk.inj (Except.ok.inj h)
            obtain rfl := Option.some.inj hn'
            exact absurd hn (by decide)

/-! ## The verifier -/

/-- The header at `i` is there, and its numbers end inside the bytes. -/
def HeaderInside (colon : Bool) (data : List UInt8) (i : ℤ) : Prop :=
  (0 ≤ i ∧ i < data.length) ∧
    (byteAt data i = .ok byteV →
      scanHeader colon (data.drop (i + 1).toNat) ≠ .error .outOfBounds) ∧
    (byteAt data i = .ok byteK → readField 8 (data.drop (i + 1).toNat) ≠ .error .outOfBounds)

/-- A message at `i` that is accepted but for its last byte ends inside the bytes. -/
def MessageInside (useMcast : Bool) (data : List UInt8) (i : ℤ) : Prop :=
  ∀ slen netid, byteAt data i = .ok byteV →
    scanHeader true (data.drop (i + 1).toNat) = .ok (some (slen, netid)) →
    0 ≤ netid ∧ netid ≤ 600 → ¬(useMcast = true ∧ 400 ≤ netid ∧ netid < 500) → 0 < slen →
      i + 5 + slen ≤ data.length

/-- **The condition for the verifier**: what it comes to lies inside the received bytes. -/
def VerifyInside (useMcast : Bool) (data : List UInt8) : Prop :=
  ∀ s, VerifyVisits useMcast data data.length s →
    HeaderInside true data s.1 ∧ MessageInside useMcast data s.1

theorem verifyPacket_inside_iff :
    verifyPacket useMcast data i ≠ .error .outOfBounds ↔
      HeaderInside true data i ∧ MessageInside useMcast data i := by
  rcases byteAt_cases data i with ⟨c, hc, hi⟩ | ⟨herr, hi⟩
  · unfold verifyPacket HeaderInside MessageInside
    simp only [hc, ok_bind, hi, Except.ok.injEq, and_self, true_and]
    by_cases hV : c = byteV
    · subst hV
      simp only [if_true, forall_const, show byteV ≠ byteK from by decide, IsEmpty.forall_iff, and_true]
      cases hscan : scanHeader true (data.drop (i + 1).toNat) with
      | error f => cases f <;> simp
      | ok x =>
        cases x with
        | none => simp
        | some x =>
          obtain ⟨slen, netid⟩ := x
          have hgoal : (∀ slen' netid' : ℤ, (Except.ok (some (slen, netid)) : Exec (Option (ℤ × ℤ)))
              = .ok (some (slen', netid')) → 0 ≤ netid' ∧ netid' ≤ 600 →
              ¬(useMcast = true ∧ 400 ≤ netid' ∧ netid' < 500) → 0 < slen' →
                i + 5 + slen' ≤ data.length) ↔
              (0 ≤ netid ∧ netid ≤ 600 → ¬(useMcast = true ∧ 400 ≤ netid ∧ netid < 500) → 0 < slen →
                i + 5 + slen ≤ data.length) := by
            constructor
            · exact fun h => h slen netid rfl
            · rintro h slen' netid' heq
              obtain ⟨rfl, rfl⟩ := Prod.mk.inj (Option.some.inj (Except.ok.inj heq))
              exact h
          rw [hgoal]
          simp only [ok_bind, ne_eq, reduceCtorEq, not_false_eq_true, true_and]
          by_cases hid : netid < 0 ∨ 600 < netid
          · simp only [if_pos hid, reduceCtorEq, not_false_eq_true, true_iff]
            intro hrange
            omega
          · rw [if_neg hid]
            by_cases hm : useMcast = true ∧ 400 ≤ netid ∧ netid < 500
            · simp [hm]
            · rw [if_neg hm]
              by_cases hlen : 0 < slen
              · rw [if_pos hlen]
                rcases byteAt_cases data (i + 5 + (slen - 1)) with ⟨last, hlast, hin⟩ | ⟨herr, hout⟩
                · rw [hlast, ok_bind]
                  split_ifs <;> simp only [not_false_eq_true, true_iff] <;> omega
                · rw [herr, error_bind]
                  simp only [not_true_eq_false, false_iff]
                  intro h
                  have := h (by omega) hm hlen
                  omega
              · simp [hlen]
    · simp only [hV, if_false, IsEmpty.forall_iff, true_and, implies_true, and_true]
      by_cases hK : c = byteK
      · subst hK
        simp only [if_true, forall_const]
        cases hscan : readField 8 (data.drop (i + 1).toNat) with
        | error f => cases f <;> simp
        | ok x => cases x <;> simp
      · simp [hK]
  · unfold verifyPacket HeaderInside
    rw [herr, error_bind]
    simp [hi]

theorem verify_inside_iff :
    (∀ fuel, vjVerifyMsg fuel useMcast data data.length ≠ .error .outOfBounds) ↔
      VerifyInside useMcast data := by
  have hmsg : ∀ fuel, vjVerifyMsg fuel useMcast data data.length ≠ .error .outOfBounds ↔
      verifyWalk fuel useMcast data data.length ≠ .error .outOfBounds := by
    intro fuel
    unfold vjVerifyMsg
    cases verifyWalk fuel useMcast data data.length with
    | error f => cases f <;> simp
    | ok walked => simp
  have hround : ∀ t, verifyRound useMcast data t ≠ .error .outOfBounds ↔
      verifyPacket useMcast data t.1 ≠ .error .outOfBounds := by
    intro t
    unfold verifyRound
    cases verifyPacket useMcast data t.1 with
    | error f => cases f <;> simp
    | ok x => cases x <;> simp
  simp only [hmsg]
  unfold verifyWalk VerifyInside VerifyVisits
  by_cases hshort : (data.length : ℤ) < 5
  · simp only [if_pos hshort, ne_eq, reduceCtorEq, not_false_eq_true, implies_true, true_iff]
    intro t ht
    omega
  · simp only [if_neg hshort]
    rw [roundLoop_ne_error_iff (by decide)]
    simp only [hround, verifyPacket_inside_iff]
    constructor
    · exact fun h t ht => h t ht.2.2 (by simpa [inside] using ht.2.1)
    · exact fun h t ht hin => h t ⟨by omega, by simpa [inside] using hin, ht⟩

/-! ## The parser -/

/-- The bytes that the parser would copy, where its pool has room, lie inside the bytes. -/
def CopyInside (data : List UInt8) (t : ℤ × Link) : Prop :=
  ∀ p pool a, p.pos = t.1 → Headed data p → p.wanted = true → t.2.queue.length < vjMaxPendingMsg →
    t.2.pool = some pool → vjSimplePoolAlloc pool (toSize p.size) = some a →
      toSize p.len = 0 ∨ p.start + toSize p.len ≤ data.length

/-- **The condition for the parser.** -/
def ParseInside (data : List UInt8) (link : Link) : Prop :=
  ∀ t, ParseVisits data data.length link t → HeaderInside false data t.1 ∧ CopyInside data t

theorem parseHeader_inside_iff :
    parseHeader data i ≠ .error .outOfBounds ↔ HeaderInside false data i := by
  rcases byteAt_cases data i with ⟨c, hc, hi⟩ | ⟨herr, hi⟩
  · unfold parseHeader HeaderInside
    simp only [hc, ok_bind, hi, Except.ok.injEq, and_self, true_and]
    by_cases hV : c = byteV
    · subst hV
      simp only [if_true, forall_const, show byteV ≠ byteK from by decide, IsEmpty.forall_iff, and_true]
      cases hscan : scanHeader false (data.drop (i + 1).toNat) with
      | error f => cases f <;> simp
      | ok x => cases x <;> simp
    · simp only [hV, if_false, IsEmpty.forall_iff, true_and]
      by_cases hK : c = byteK
      · subst hK
        simp only [if_true, forall_const]
        cases hscan : readField 8 (data.drop (i + 1).toNat) with
        | error f => cases f <;> simp
        | ok x => cases x <;> simp
      · simp [hK]
  · unfold parseHeader HeaderInside
    rw [herr, error_bind]
    simp [hi]

theorem Headed.unique {q : Packet} (hp : Headed buf p) (hq : Headed buf q) (hpos : q.pos = p.pos) :
    q = p := by
  have hsame := (parseHeader_eq_some.mpr ⟨hpos, hq⟩).symm.trans (parseHeader_eq_some.mpr ⟨rfl, hp⟩)
  exact Option.some.inj (Except.ok.inj hsame)

theorem Headed.pos_nonneg (h : Headed buf p) : 0 ≤ p.start := by
  cases h with
  | vims hbyte =>
    have := byteAt_bounds hbyte
    simp only [Packet.start]
    omega
  | keyframe hbyte =>
    have := byteAt_bounds hbyte
    simp only [Packet.start]
    omega

/-- Taking a packet reads outside the bytes exactly if its copy does. -/
theorem takePacket_inside_iff (hp : Headed data p) :
    takePacket data link p ≠ .error .outOfBounds ↔
      (p.wanted = true → link.queue.length < vjMaxPendingMsg → ∀ pool a, link.pool = some pool →
        vjSimplePoolAlloc pool (toSize p.size) = some a →
          toSize p.len = 0 ∨ p.start + toSize p.len ≤ data.length) := by
  have hpos := hp.pos_nonneg
  unfold takePacket enqueue
  by_cases hwanted : p.wanted = true
  · rw [if_pos hwanted]
    by_cases hroom : vjMaxPendingMsg ≤ link.queue.length
    · rw [if_pos hroom]
      simp only [ne_eq, Except.error.injEq, reduceCtorEq, not_false_eq_true, true_iff]
      omega
    · rw [if_neg hroom]
      cases hpool : link.pool with
      | none => simp
      | some pool =>
        dsimp only
        cases halloc : vjSimplePoolAlloc pool (toSize p.size) with
        | none =>
          simp only [ne_eq, reduceCtorEq, not_false_eq_true, Option.some.injEq, true_iff]
          rintro - - pool' a rfl ha
          rw [halloc] at ha
          cases ha
        | some a =>
          obtain ⟨addr, pool'⟩ := a
          have hright : (p.wanted = true → link.queue.length < vjMaxPendingMsg →
              ∀ pool₁ a, some pool = some pool₁ → vjSimplePoolAlloc pool₁ (toSize p.size) = some a →
                toSize p.len = 0 ∨ p.start + toSize p.len ≤ data.length) ↔
              (toSize p.len = 0 ∨ p.start + toSize p.len ≤ data.length) := by
            constructor
            · exact fun h => h hwanted (by omega) pool _ rfl halloc
            · exact fun h _ _ _ _ _ _ => h
          rw [hright]
          dsimp only
          cases hslice : slice data p.start (toSize p.len) with
          | error f =>
            have hout : ¬(toSize p.len = 0 ∨ p.start + toSize p.len ≤ data.length) := by
              intro hin
              have hok := slice_eq_ok.mpr (⟨by omega, rfl⟩ : (toSize p.len = 0 ∨
                (0 ≤ p.start ∧ p.start + toSize p.len ≤ data.length)) ∧ _)
              rw [hslice] at hok
              cases hok
            have hf : f = .outOfBounds := by
              unfold slice at hslice
              split_ifs at hslice
              exact (Except.error.inj hslice).symm
            simp [hf, hout]
          | ok bytes =>
            have hin := (slice_eq_ok.mp hslice).1
            rw [ok_bind]
            refine iff_of_true ?_ (by omega)
            unfold overwrite
            split_ifs <;> simp
  · simp [hwanted]

theorem parseRound_inside_iff {t : ℤ × Link} :
    parseRound data t ≠ .error .outOfBounds ↔ HeaderInside false data t.1 ∧ CopyInside data t := by
  have hvacuous : (∀ p, parseHeader data t.1 ≠ .ok (some p)) → CopyInside data t :=
    fun h p _ _ hpos hp => absurd (parseHeader_eq_some.mpr ⟨hpos, hp⟩) (h p)
  unfold parseRound
  rw [← parseHeader_inside_iff]
  cases hhead : parseHeader data t.1 with
  | error f =>
    have hcopy : CopyInside data t := hvacuous fun p h => by rw [hhead] at h; cases h
    simp [hcopy]
  | ok x =>
    cases x with
    | none =>
      have hcopy : CopyInside data t := hvacuous fun p h => by rw [hhead] at h; cases h
      simp [hcopy]
    | some p =>
      obtain ⟨hpos, hp⟩ := parseHeader_eq_some.mp hhead
      have hcopy : CopyInside data t ↔ takePacket data t.2 p ≠ .error .outOfBounds := by
        rw [takePacket_inside_iff hp]
        constructor
        · exact fun h hwanted hroom pool a hpool halloc => h p pool a hpos hp hwanted hroom hpool halloc
        · intro h q pool a hq hheaded hwanted hroom hpool halloc
          obtain rfl := hp.unique hheaded (hq.trans hpos.symm)
          exact h hwanted hroom pool a hpool halloc
      rw [hcopy, ok_bind]
      simp only [ne_eq, reduceCtorEq, not_false_eq_true, true_and]
      cases takePacket data t.2 p with
      | error f => cases f <;> simp
      | ok link =>
        rw [ok_bind]
        split_ifs <;> simp

theorem parse_inside_iff :
    (∀ fuel, vjParseMsg fuel data data.length link ≠ .error .outOfBounds) ↔
      ParseInside data link := by
  unfold vjParseMsg ParseInside ParseVisits
  rw [roundLoop_ne_error_iff (by decide)]
  simp only [parseRound_inside_iff]
  constructor
  · exact fun h t ht => h t ht.2 (by simpa [inside] using ht.1)
  · exact fun h t ht hin => h t ⟨by simpa [inside] using hin, ht⟩

end Veejay.Net
