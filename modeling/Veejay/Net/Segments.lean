import Veejay.Net.Bounds
import Veejay.Net.Framing

/-!
# The stream of a client, cut into calls

TCP delivers the bytes of a client in pieces that have nothing to do with its messages.  One call of
`vj_server_update` receives one piece, scans it as if it began and ended with a message, and keeps nothing
of it for the next call.  So a piece that ends inside a message is refused, and the client is dropped.

* `Segments`, `Arrives` — what the `recv`s of one call come back with, as long as none fails;
* `receive_arrives` — what the call then has in its buffer;
* `WholeMessages` — **the condition**: the piece is made of whole messages, and there is room for them;
* `update_wires` — one call over whole messages;
* `serve_segments` — a run of such calls hands out the messages of the stream, each once and in order.
-/

namespace Veejay.Net

open CLib

variable {arrivals : List Recv} {bytes data buf : List UInt8} {s : Server} {link : Link} {msgs : List CStr}

/-! ## Receiving -/

/-- What the loop from `readmore_lbl` on receives, if no `recv` fails. -/
inductive Segments : List Recv → List UInt8 → Prop
  | last {data : List UInt8} {eagain : Bool} (hlast : ¬(data.length = recvSize ∧ eagain = true)) :
      Segments [.bytes data eagain] data
  | retry {arrivals : List Recv} {data : List UInt8} (h : Segments arrivals data) :
      Segments (.failed true :: arrivals) data
  | full {arrivals : List Recv} {data more : List UInt8} (hfull : data.length = recvSize)
      (h : Segments arrivals more) : Segments (.bytes data true :: arrivals) (data ++ more)

/-- What one call of `vj_server_update` receives, if no `recv` fails. -/
inductive Arrives : List Recv → List UInt8 → Prop
  | other {c : UInt8} {eagain : Bool} (hc : ¬(c = byteV ∨ c = byteK ∨ c = byteD)) :
      Arrives [.bytes [c] eagain] [c]
  | header {c : UInt8} {eagain : Bool} {arrivals : List Recv} {data : List UInt8}
      (hc : c = byteV ∨ c = byteK ∨ c = byteD) (h : Segments arrivals data) :
      Arrives (.bytes [c] eagain :: arrivals) (c :: data)

/-- **The receive loop** puts what arrives behind what is there. -/
theorem readMore_segments (h : Segments arrivals data) {ptr : ℕ} {received : ℤ}
    (hptr : received + 1 = ptr) (hfit : ptr + data.length ≤ buf.length) :
    readMore buf.length arrivals ptr received buf
      = .ok (some (received + data.length), buf.take ptr ++ data ++ buf.drop (ptr + data.length)) := by
  induction h generalizing ptr received buf with
  | last hlast =>
    rw [readMore, overwrite_eq_ok.mpr ⟨hfit, rfl⟩, ok_bind, if_neg hlast]
  | retry h ih =>
    rw [readMore, if_pos rfl]
    exact ih hptr hfit
  | @full arrivals data more hfull h ih =>
    rw [List.length_append] at hfit
    obtain ⟨buf', hwrite⟩ : ∃ buf', overwrite buf ptr data = .ok buf' :=
      ⟨_, overwrite_eq_ok.mpr ⟨by omega, rfl⟩⟩
    have hlength := overwrite_length hwrite
    have hbuf' := (overwrite_eq_ok.mp hwrite).2
    have hfront : (buf.take ptr ++ data).length = ptr + data.length := by
      rw [List.length_append, List.length_take]
      omega
    have htake : buf'.take (ptr + data.length) = buf.take ptr ++ data := by
      rw [hbuf', List.take_left' hfront]
    have hdrop : buf'.drop (ptr + data.length + more.length) = buf.drop (ptr + (data.length + more.length)) := by
      rw [← List.drop_drop, hbuf', List.drop_left' hfront, List.drop_drop, add_assoc]
    have hrec : readMore buf'.length arrivals (ptr + data.length) (received + data.length) buf'
        = .ok (some (received + data.length + more.length), buf.take ptr ++ data ++ more
          ++ buf.drop (ptr + (data.length + more.length))) := by
      rw [← htake, ← hdrop]
      exact ih (by push_cast; omega) (by omega)
    rw [readMore, hwrite, ok_bind, if_pos ⟨hfull, rfl⟩, if_neg (by omega), ← hlength, hrec,
      List.length_append, List.append_assoc (buf.take ptr) data more, add_assoc]
    push_cast
    rfl

/-- **What a call has in its buffer.**  The first byte is not counted. -/
theorem receive_arrives (hmcast : s.useMcast = false) (h : Arrives arrivals (byteV :: data))
    (hfit : (byteV :: data).length ≤ s.recvBuf.length) :
    receive s arrivals = .ok (some (data.length : ℤ),
      byteV :: data ++ s.recvBuf.drop (byteV :: data).length) := by
  unfold receive
  rw [if_neg (by simp [hmcast])]
  cases h with
  | other hc => exact absurd (Or.inl rfl) hc
  | @header _ eagain arrivals _ hc h =>
    rw [List.length_cons] at hfit ⊢
    have hwrite : overwrite s.recvBuf 0 [byteV] = .ok (byteV :: s.recvBuf.drop 1) :=
      overwrite_eq_ok.mpr ⟨by simp; omega, by simp⟩
    have hlength := overwrite_length hwrite
    have hread : readMore (byteV :: s.recvBuf.drop 1).length arrivals 1 0 (byteV :: s.recvBuf.drop 1)
        = .ok (some (0 + data.length), _) :=
      readMore_segments h (by norm_num) (by rw [hlength]; omega)
    rw [hlength] at hread
    dsimp only
    rw [hwrite, ok_bind, if_pos hc, hread]
    simp [Nat.add_comm]

/-! ## One call -/

/-- What a call finds: the client is connected, over TCP, and has the pool that `vj_server_init_msg_pool`
allocates. -/
structure Serving (bufLen : ℕ) (st : Server × Link) : Prop where
  tcp : st.1.useMcast = false
  recvBuf : st.1.recvBuf.length = bufLen
  inUse : st.2.inUse = true
  pool : ∃ pool, st.2.pool = some pool ∧ pool.len = msgPoolSize ∧ pool.mem.length = rup8 msgPoolSize

/-- Whole messages, that fit the receive buffer, the queue and the pool. -/
def WholeMessages (bufLen : ℕ) (bytes : List UInt8) : Prop :=
  ∃ msgs, msgs ≠ [] ∧ (∀ msg ∈ msgs, WellFormed false msg) ∧ bytes = wires msgs ∧
    bytes.length ≤ bufLen ∧ msgs.length < vjMaxPendingMsg ∧
    CopiesFit msgPoolSize (rup8 msgPoolSize) 0 0 (msgs.map fun msg => msg.length + 1)

/-- A call of `vj_server_update`, and the messages that are queued afterwards. -/
def serve (fuel : ℕ) (st : Server × Link) (arrivals : List Recv) :
    Exec ((ℤ × List (List UInt8)) × (Server × Link)) := do
  let (res, s, link) ← vjServerUpdate fuel st.1 st.2 true arrivals
  .ok ((res, link.messages), (s, link))

/-- **One call over whole messages** queues them. -/
theorem serve_wires {fuel bufLen : ℕ} {st : Server × Link} (hst : Serving bufLen st) (hne : msgs ≠ [])
    (hmsgs : ∀ msg ∈ msgs, WellFormed false msg) (harrives : Arrives arrivals (wires msgs))
    (hbuf : (wires msgs).length ≤ bufLen) (hroom : msgs.length < vjMaxPendingMsg) (hfuel : msgs.length ≤ fuel)
    (hfit : CopiesFit msgPoolSize (rup8 msgPoolSize) 0 0 (msgs.map fun msg => msg.length + 1)) :
    Ensures (serve fuel st arrivals) fun a => a.1 = ((msgs.length : ℤ), msgs) ∧ Serving bufLen a.2 := by
  obtain ⟨s, link⟩ := st
  obtain ⟨htcp, hrecv, huse, pool, hpool, hlen, hmem⟩ := hst
  dsimp only at htcp hrecv huse hpool
  obtain ⟨data, hdata⟩ : ∃ data, wires msgs = byteV :: data := by
    cases msgs with
    | nil => exact absurd rfl hne
    | cons msg msgs => exact ⟨_, rfl⟩
  have hcount : (wires msgs).length = data.length + 1 := by rw [hdata, List.length_cons]
  have hpos : 0 < data.length := by
    cases msgs with
    | nil => exact absurd rfl hne
    | cons msg msgs =>
      have hwire := wire_length (hmsgs msg List.mem_cons_self).short
      rw [wires_cons, List.length_append, hwire] at hcount
      omega
  have hreceive : receive s arrivals = .ok (some (data.length : ℤ),
      wires msgs ++ s.recvBuf.drop (wires msgs).length) := by
    rw [hdata] at harrives hbuf ⊢
    exact receive_arrives htcp harrives (by omega)
  have hempty : vjServerEmptyQueue link = .ok { link with
      pool := some (vjSimplePoolReset pool), queue := [], nQueued := 0, nRetrieved := 0 } := by
    rw [vjServerEmptyQueue, hpool]
  have hverify : vjVerifyMsg fuel s.useMcast (wires msgs ++ s.recvBuf.drop (wires msgs).length)
      data.length = .ok msgs.length := by
    rw [htcp]
    exact verify_wires hmsgs hne hfuel (by omega) (by omega)
  have hfit' : CopiesFit (vjSimplePoolReset pool).len (vjSimplePoolReset pool).mem.length
      (vjSimplePoolReset pool).cur 0 (msgs.map fun msg => msg.length + 1) := by
    show CopiesFit pool.len pool.mem.length 0 0 _
    rw [hlen, hmem]
    exact hfit
  have hparsed : Ensures (vjParseMsg fuel (wires msgs ++ s.recvBuf.drop (wires msgs).length) data.length
      { link with pool := some (vjSimplePoolReset pool), queue := [], nQueued := 0, nRetrieved := 0 }) _ :=
    parse_wires hmsgs hfuel hroom (by omega) (by omega) rfl hfit'
  obtain ⟨⟨nn, link'⟩, hparse, hnn, hqueued, -, huse', hqueue, -, pool', hpool', hlen', hmem'⟩ := hparsed
  dsimp only at hnn hqueued huse' hqueue hpool'
  subst hnn
  have hn0 : msgs.length ≠ 0 := fun h => hne (List.length_eq_zero_iff.mp h)
  have hupdate : vjServerUpdate fuel s link true arrivals
      = .ok ((msgs.length : ℤ), { s with recvBuf := wires msgs ++ s.recvBuf.drop (wires msgs).length },
          link') := by
    rw [vjServerUpdate, if_neg (by simp [huse]), hempty, ok_bind, if_neg (by simp), hreceive, ok_bind]
    dsimp only
    rw [if_neg (by omega), hverify, ok_bind, if_neg hn0, if_pos hroom, hparse, ok_bind]
    dsimp only
    rw [if_neg (by simp)]
  have hmessages : link'.messages = msgs := by
    rw [Link.messages, hqueued, List.take_length]
    exact hqueue
  refine ⟨_, by rw [serve, hupdate, ok_bind], by rw [hmessages], htcp, ?_, huse'.trans huse, pool', hpool',
    hlen'.trans hlen, hmem'.trans hmem⟩
  show (wires msgs ++ s.recvBuf.drop (wires msgs).length).length = bufLen
  rw [List.length_append, List.length_drop]
  omega

/-! ## The stream -/

/-- The answer to a call: it succeeds, and its messages are the bytes that it received. -/
def Answers (s : Server) (call : List Recv) (answer : ℤ × List (List UInt8)) : Prop :=
  0 < answer.1 ∧ wires answer.2 = taken s call ∧ ∀ msg ∈ answer.2, msg.length ≤ 999

/-- The messages of the answers are those of the pieces. -/
theorem wires_of_answers {calls : List (List Recv)} {answers : List (ℤ × List (List UInt8))}
    (h : List.Forall₂ (Answers s) calls answers) :
    (∀ answer ∈ answers, 0 < answer.1) ∧ wires (answers.flatMap Prod.snd) = calls.flatMap (taken s) ∧
      ∀ msg ∈ answers.flatMap Prod.snd, msg.length ≤ 999 := by
  induction h with
  | nil => exact ⟨fun _ h => (by cases h), rfl, fun _ h => (by cases h)⟩
  | @cons call answer calls answers hcall h ih =>
    obtain ⟨hpos, hwires, hshort⟩ := hcall
    obtain ⟨hpos', hwires', hshort'⟩ := ih
    refine ⟨fun a ha => ?_, ?_, fun m hm => ?_⟩
    · rcases List.mem_cons.mp ha with rfl | ha
      · exact hpos
      · exact hpos' a ha
    · rw [List.flatMap_cons, wires_append, hwires, hwires']
      rfl
    · rcases List.mem_append.mp hm with hm | hm
      · exact hshort m hm
      · exact hshort' m hm

/-- **A stream that is cut between its messages**: every call succeeds, and the messages that the calls hand
out are those of the stream. -/
theorem serve_segments {fuel bufLen : ℕ} {st : Server × Link} {msgs : List CStr}
    {calls : List (List Recv)} (hfuel : vjMaxPendingMsg ≤ fuel) (hst : Serving bufLen st)
    (hmsgs : ∀ msg ∈ msgs, WellFormed false msg) (hcalls : ∀ call ∈ calls, Arrives call (taken st.1 call))
    (hstream : calls.flatMap (taken st.1) = wires msgs)
    (hwhole : ∀ call ∈ calls, WholeMessages bufLen (taken st.1 call)) :
    Ensures (runOps (serve fuel) st calls) fun a =>
      (∀ answer ∈ a.1, 0 < answer.1) ∧ a.1.flatMap Prod.snd = msgs := by
  have hstep : ∀ (st' : Server × Link) (call : List Recv), Serving bufLen st' →
      Arrives call (taken st.1 call) ∧ WholeMessages bufLen (taken st.1 call) →
      Ensures (serve fuel st' call) fun a => Answers st.1 call a.1 ∧ Serving bufLen a.2 := by
    rintro st' call hst' ⟨harrives, ms, hne, hms, hbytes, hbuf, hroom, hfit⟩
    unfold Answers
    rw [hbytes] at harrives hbuf ⊢
    refine (serve_wires hst' hne hms harrives hbuf hroom (by omega) hfit).mono fun a ha => ?_
    obtain ⟨hanswer, hserving⟩ := ha
    rw [hanswer]
    exact ⟨⟨Int.natCast_pos.mpr (List.length_pos_of_ne_nil hne), rfl, fun m hm => (hms m hm).short⟩, hserving⟩
  have hrun := @runOps_answers _ _ _ (serve fuel) _ (Serving bufLen) (Answers st.1) hstep calls st hst
    fun call hcall => ⟨hcalls call hcall, hwhole call hcall⟩
  refine hrun.mono fun a ha => ?_
  obtain ⟨hpos, hwires, hshort⟩ := wires_of_answers ha.1
  exact ⟨hpos, wires_inj hshort (fun m hm => (hmsgs m hm).short) (hwires.trans hstream)⟩

/-- Two messages that arrive in one call, with a receive buffer of 32 bytes. -/
def twoTogether : List (List Recv) := [[.bytes (lit "V") false, .bytes (lit "008D600:1 2;V005D600:;") false]]

theorem serving_freshLink (bufLen : ℕ) :
    Serving bufLen (⟨false, List.replicate bufLen 0⟩, freshLink (vjSimplePoolInit msgPoolSize)) := by
  obtain ⟨huse, -, pool, hpool, hlen, hmem, -⟩ := idle_freshLink
  exact ⟨rfl, List.length_replicate, huse, pool, hpool, hlen, hmem⟩

theorem selects_wellFormed : ∀ msg ∈ [lit "600:1 2;", lit "600:;"], WellFormed false msg := by
  intro msg hmsg
  simp only [List.mem_cons, List.not_mem_nil, or_false] at hmsg
  rcases hmsg with rfl | rfl
  · exact ⟨by decide, rfl, 600, rfl, by decide, by decide, by decide⟩
  · exact ⟨by decide, rfl, 600, rfl, by decide, by decide, by decide⟩

theorem twoTogether_served :
    Ensures (runOps (serve 4096) (⟨false, List.replicate 32 0⟩, freshLink (vjSimplePoolInit msgPoolSize))
      twoTogether) fun a =>
        (∀ answer ∈ a.1, 0 < answer.1) ∧ a.1.flatMap Prod.snd = [lit "600:1 2;", lit "600:;"] := by
  have hmsgs := selects_wellFormed
  refine serve_segments le_rfl (serving_freshLink 32) hmsgs (fun call hcall => ?_) rfl fun call hcall => ?_
  · obtain rfl := List.mem_singleton.mp hcall
    exact .header (Or.inl rfl) (.last (by decide))
  · obtain rfl := List.mem_singleton.mp hcall
    refine ⟨_, List.cons_ne_nil _ _, hmsgs, rfl, by decide, by decide, ?_⟩
    exact ⟨by decide, by decide, by decide, by decide, by decide, by decide, trivial⟩

/-- **A cut inside a message** is taken for a message that is too small, and the client is dropped. -/
theorem cut_message_dropped :
    ¬ ∀ (fuel bufLen : ℕ) (st : Server × Link) (msgs : List CStr) (calls : List (List Recv)),
      vjMaxPendingMsg ≤ fuel → Serving bufLen st → (∀ msg ∈ msgs, WellFormed false msg) →
      (∀ call ∈ calls, Arrives call (taken st.1 call)) → calls.flatMap (taken st.1) = wires msgs →
      Ensures (runOps (serve fuel) st calls) fun a =>
        (∀ answer ∈ a.1, 0 < answer.1) ∧ a.1.flatMap Prod.snd = msgs := by
  intro h
  have hserve : ∃ st', serve 4096
      (⟨false, List.replicate 32 0⟩, freshLink (vjSimplePoolInit msgPoolSize))
      [.bytes (lit "V") false, .bytes (lit "00") false] = .ok ((-1, []), st') := ⟨_, rfl⟩
  obtain ⟨st', hserve⟩ := hserve
  have hcalls : ∀ call ∈ [[.bytes (lit "V") false, .bytes (lit "00") false], [.bytes (lit "5") false],
      [.bytes (lit "D") false, .bytes (lit "600:;") false]],
      Arrives call (taken ⟨false, List.replicate 32 0⟩ call) := by
    intro call hcall
    simp only [List.mem_cons, List.not_mem_nil, or_false] at hcall
    rcases hcall with rfl | rfl | rfl
    · exact .header (Or.inl rfl) (.last (by decide))
    · exact .other (by decide)
    · exact .header (Or.inr (Or.inr rfl)) (.last (by decide))
  obtain ⟨a, hrun, hpos, -⟩ := h 4096 32 _ [lit "600:;"] _ le_rfl (serving_freshLink 32)
    (fun msg hmsg => selects_wellFormed msg (List.mem_cons_of_mem _ hmsg)) hcalls rfl
  rw [runOps, hserve, ok_bind] at hrun
  obtain ⟨rest, -, hrun⟩ := bind_eq_ok.mp hrun
  obtain rfl := Except.ok.inj hrun
  exact absurd (hpos _ List.mem_cons_self) (show ¬(0 : ℤ) < -1 by decide)

end Veejay.Net
