import Veejay.Net.Walks

/-!
# The verifier and the parser over one buffer

The packets of a buffer are a matter of its bytes alone (`Framed`): the verifier counts them
(`framed_of_verifyWalk`), and the parser copies their messages one after the other.  A message with id
zero is counted and passed over, and so is a keyframe packet of negative length; a keyframe packet without
a number ends the parser, and one that announces more than the receive buffer holds makes it read on
behind the buffer.

* `Framed` — the packets that the bytes from a position on are made of;
* `PoolServes` — room in the pool for copies of the given sizes;
* `Copied` — **the condition** on one packet;
* `walks_agree_iff` — the parser queues exactly the packets the verifier walked over.
-/

namespace Veejay.Net

open CLib

variable {useMcast : Bool} {buf : List UInt8} {bufLen i : ℤ} {p : Packet} {ps walked : List Packet}
  {link link' : Link}

/-! ## The packets of a buffer -/

/-- The buffer is made of accepted packets from `i` on. -/
inductive Framed (useMcast : Bool) (buf : List UInt8) (bufLen : ℤ) : ℤ → List Packet → Prop
  | done {i : ℤ} (hi : bufLen ≤ i) : Framed useMcast buf bufLen i []
  | packet {p : Packet} {ps : List Packet} (hi : p.pos < bufLen) (hp : Accepted useMcast buf p)
      (hps : Framed useMcast buf bufLen p.next ps) : Framed useMcast buf bufLen p.pos (p :: ps)

theorem Accepted.unique {q : Packet} (hp : Accepted useMcast buf p) (hq : Accepted useMcast buf q)
    (hpos : q.pos = p.pos) : q = p := by
  have hsame := (verifyPacket_eq_some.mpr ⟨hpos, hq⟩).symm.trans (verifyPacket_eq_some.mpr ⟨rfl, hp⟩)
  exact Option.some.inj (Except.ok.inj hsame)

/-- The first packet. -/
theorem Framed.head (h : Framed useMcast buf bufLen i (p :: ps)) :
    p.pos = i ∧ Accepted useMcast buf p := by
  cases h with
  | packet _ hp _ => exact ⟨rfl, hp⟩

/-- A buffer is framed in one way. -/
theorem Framed.unique (h : Framed useMcast buf bufLen i ps) :
    ∀ {qs : List Packet}, Framed useMcast buf bufLen i qs → qs = ps := by
  induction h with
  | done hi =>
    intro qs hqs
    cases hqs with
    | done => rfl
    | packet hlt => omega
  | packet hi hp hps ih =>
    intro qs hqs
    generalize hpos : Packet.pos _ = i at hqs
    cases hqs with
    | done hge => omega
    | packet hlt hq hqs =>
      obtain rfl := hp.unique hq hpos.symm
      rw [ih hqs]

/-- **The verifier walks over the packets of the buffer.** -/
theorem framed_of_roundLoop {fuel : ℕ} {acc : List Packet}
    (h : roundLoop (inside bufLen) (verifyRound useMcast buf) Prod.snd fuel (i, acc) = .ok walked)
    (hne : walked ≠ []) :
    ∃ ps, walked = acc ++ ps ∧ Framed useMcast buf bufLen i ps ∧ ps.length ≤ fuel := by
  induction fuel generalizing i acc with
  | zero =>
    cases hin : inside bufLen (i, acc) with
    | false =>
      rw [roundLoop_exit hin] at h
      obtain rfl := Except.ok.inj h
      exact ⟨[], by simp, .done (by simpa [inside] using hin), le_rfl⟩
    | true =>
      rw [roundLoop, if_pos hin] at h
      cases h
  | succ fuel ih =>
    cases hin : inside bufLen (i, acc) with
    | false =>
      rw [roundLoop_exit hin] at h
      obtain rfl := Except.ok.inj h
      exact ⟨[], by simp, .done (by simpa [inside] using hin), Nat.zero_le _⟩
    | true =>
      cases hr : verifyRound useMcast buf (i, acc) with
      | error f =>
        rw [roundLoop_error hin hr] at h
        cases h
      | ok a =>
        cases a with
        | leave r =>
          rw [roundLoop_leave hin hr] at h
          obtain rfl := Except.ok.inj h
          obtain ⟨x, -, hx⟩ := bind_eq_ok.mp hr
          cases x with
          | none => exact absurd (Round.leave.inj (Except.ok.inj hx)).symm hne
          | some p => cases hx
        | again s' =>
          rw [roundLoop_again hin hr] at h
          obtain ⟨p, hpos, hacc, rfl⟩ := verifyRound_again.mp hr
          obtain ⟨ps, rfl, hps, hlen⟩ := ih h
          obtain rfl : p.pos = i := hpos
          refine ⟨p :: ps, by simp, .packet (by simpa [inside] using hin) hacc hps, ?_⟩
          rw [List.length_cons]
          omega

theorem framed_of_verifyWalk {fuel : ℕ} (h : verifyWalk fuel useMcast buf bufLen = .ok walked)
    (hne : walked ≠ []) : Framed useMcast buf bufLen 0 walked ∧ walked.length ≤ fuel := by
  unfold verifyWalk at h
  split_ifs at h
  · exact absurd (Except.ok.inj h).symm hne
  · obtain ⟨ps, rfl, hps, hlen⟩ := framed_of_roundLoop h hne
    exact ⟨hps, hlen⟩

/-- The verifier walks over whatever the buffer is made of. -/
theorem verifyWalk_of_framed {ps : List Packet} (h : Framed useMcast buf bufLen i ps) :
    ∀ {acc : List Packet} {fuel : ℕ}, ps.length ≤ fuel →
      roundLoop (inside bufLen) (verifyRound useMcast buf) Prod.snd fuel (i, acc) = .ok (acc ++ ps) := by
  induction h with
  | done hi =>
    intro acc fuel _
    rw [roundLoop_exit (by simpa [inside] using hi), List.append_nil]
  | @packet p ps hi hp hps ih =>
    intro acc fuel hfuel
    obtain ⟨fuel, rfl⟩ : ∃ n, fuel = n + 1 := ⟨fuel - 1, by simp only [List.length_cons] at hfuel; omega⟩
    rw [roundLoop_again (by simpa [inside] using hi) (verifyRound_again.mpr ⟨p, rfl, hp, rfl⟩),
      ih (by simpa using hfuel), List.append_assoc]
    rfl

/-! ## Room in the pool -/

/-- A pool of the given length, in memory of the given length, has room for copies of these sizes behind
what it has handed out. -/
def PoolServes (len memLen : ℕ) : ℕ → List ℕ → Prop
  | _, [] => True
  | cur, s :: sizes =>
    cur + s ≤ len ∧ rup8 cur + (cur + rup8 s) + s ≤ memLen ∧ PoolServes len memLen (cur + rup8 s) sizes

/-- The sizes of the packets that announce no negative length. -/
def poolSizes (ps : List Packet) : List ℕ :=
  ps.filterMap fun p => if 0 ≤ p.len then some p.size.toNat else none

/-- The packets that the parser copies: all but messages with id zero, and keyframe packets without a
number, of negative length, or with more bytes than the receive buffer has. -/
def Copied (buf : List UInt8) : Packet → Prop
  | .vims _ _ netid => netid ≠ 0
  | .keyframe _ none => False
  | .keyframe pos (some len) => 0 ≤ len ∧ (len = 0 ∨ pos + 9 + len ≤ buf.length)

theorem toSize_of_nonneg {n : ℤ} (h0 : 0 ≤ n) (h : n < 2 ^ 63) : toSize n = n.toNat := by
  unfold toSize
  rw [Int.emod_eq_of_lt h0 (by omega)]

/-- The numbers of a header are small. -/
theorem Headed.small (h : Headed buf p) : -10 ^ 8 < p.len ∧ p.len < 10 ^ 8 := by
  cases h with
  | vims hbyte hscan =>
    obtain ⟨rest, rest', hread, -⟩ := scanHeader_eq_some hscan
    have hlt := readField_lt hread
    simp only [Packet.len]
    omega
  | keyframe hbyte hscan =>
    have hlt := readField_lt hscan
    simp only [Packet.len, Option.getD_some]
    omega

theorem Accepted.small (h : Accepted useMcast buf p) : -10 ^ 8 < p.len ∧ p.len < 10 ^ 8 := by
  cases h with
  | vims hbyte hscan =>
    exact Headed.small (.vims hbyte (scanHeader_of_colon hscan))
  | keyframe hbyte hscan => exact Headed.small (.keyframe hbyte hscan)
  | ended => simp [Packet.len]

/-- A message lies in the buffer: its last byte was looked at. -/
theorem byteAt_bounds {c : UInt8} (h : byteAt buf i = .ok c) : 0 ≤ i ∧ i < buf.length := by
  rcases byteAt_cases buf i with ⟨-, -, hi⟩ | ⟨herr, -⟩
  · exact hi
  · rw [herr] at h
    cases h

/-- What makes a copy possible. -/
theorem Copied.facts (hp : Accepted useMcast buf p) (h : Copied buf p) :
    p.wanted = true ∧ 0 ≤ p.len ∧ (p.len = 0 ∨ (0 ≤ p.start ∧ p.start + p.len ≤ buf.length)) := by
  cases hp with
  | @vims pos slen netid hbyte hscan hid hmcast hlen hlast =>
    have hnetid : netid ≠ 0 := h
    have hin := byteAt_bounds hlast
    have hpos := byteAt_bounds hbyte
    refine ⟨by simp only [Packet.wanted, Bool.and_eq_true, decide_eq_true_eq]; omega, hlen.le, Or.inr ?_⟩
    simp only [Packet.start, Packet.len]
    omega
  | @keyframe pos len rest hbyte hscan =>
    obtain ⟨h0, hin⟩ := h
    have hpos := byteAt_bounds hbyte
    refine ⟨rfl, h0, ?_⟩
    simp only [Packet.start, Packet.len, Option.getD_some]
    omega
  | ended => exact absurd h not_false

theorem Packet.tail_length (p : Packet) : p.tail.length ≤ 1 := by
  cases p <;> simp [Packet.tail]

/-- Where in the pool a copy of size `n` is put, behind `cur`: the offset is added to an address that has
it already. -/
def copyAddr (cur n : ℕ) : ℕ := rup8 cur + (cur + rup8 n)

/-- The message of a packet, as it stands in the buffer. -/
def Packet.message (buf : List UInt8) (p : Packet) : List UInt8 :=
  (buf.drop p.start.toNat).take p.len.toNat

/-- **A packet that is copied.** -/
theorem takePacket_copied {pool : Pool} (hp : Accepted useMcast buf p) (hcopied : Copied buf p)
    (hroom : link.queue.length < vjMaxPendingMsg) (hpool : link.pool = some pool)
    (hfit : pool.cur + p.size.toNat ≤ pool.len)
    (hmem : copyAddr pool.cur p.size.toNat + p.size.toNat ≤ pool.mem.length) :
    ∃ mem, overwrite pool.mem (copyAddr pool.cur p.size.toNat) (p.message buf ++ p.tail) = .ok mem ∧
      takePacket buf link p = .ok { link with
        pool := some { pool with cur := pool.cur + rup8 p.size.toNat, mem := mem }
        queue := link.queue ++
          [{ msg := copyAddr pool.cur p.size.toNat, len := p.len, src := p.start }] } := by
  have hsmall := hp.small
  have htail := p.tail_length
  obtain ⟨hwanted, h0, hin⟩ := hcopied.facts hp
  have hsize : p.size = p.len + p.tail.length := rfl
  have hsz : toSize p.size = p.size.toNat := toSize_of_nonneg (by omega) (by omega)
  have hln : toSize p.len = p.len.toNat := toSize_of_nonneg h0 (by omega)
  have hslice : slice buf p.start p.len.toNat = .ok (p.message buf) :=
    slice_eq_ok.mpr ⟨by omega, rfl⟩
  have hbytes := slice_length hslice
  obtain ⟨mem, hwrite⟩ : ∃ mem, overwrite pool.mem (copyAddr pool.cur p.size.toNat)
      (p.message buf ++ p.tail) = .ok mem :=
    ⟨_, overwrite_eq_ok.mpr ⟨by rw [List.length_append, hbytes]; omega, rfl⟩⟩
  refine ⟨mem, hwrite, ?_⟩
  rw [takePacket, if_pos hwanted, enqueue, if_neg (by omega), hpool]
  dsimp only
  rw [hsz, hln, vjSimplePoolAlloc, if_neg (by omega)]
  dsimp only
  rw [hslice, ok_bind]
  change (overwrite pool.mem (copyAddr pool.cur p.size.toNat) _ >>= fun mem => _) = _
  rw [hwrite, ok_bind]
  rfl

/-- **What a packet can add to the queue**: nothing, or one message, and then it is one that is copied. -/
theorem takePacket_cases (hp : Accepted useMcast buf p) (hhead : Headed buf p)
    (h : takePacket buf link p = .ok link') :
    link'.queue.length = link.queue.length ∨
      (link'.queue.length = link.queue.length + 1 ∧ Copied buf p) := by
  have hsmall := hp.small
  unfold takePacket at h
  split_ifs at h with hwanted
  · obtain ⟨-, pool, -, ⟨-, rfl⟩ | ⟨addr, pool', bytes, mem, halloc, hslice, -, rfl⟩⟩ := enqueue_cases h
    · exact Or.inl rfl
    · refine Or.inr ⟨by simp, ?_⟩
      cases hhead with
      | @vims pos slen netid hbyte hscan =>
        simp only [Packet.wanted, Bool.and_eq_true, decide_eq_true_eq] at hwanted
        exact show netid ≠ 0 by omega
      | @keyframe pos len rest hbyte hscan =>
        have hsize : (Packet.keyframe pos (some len)).size = len := add_zero len
        simp only [Packet.len, Option.getD_some] at hsmall hslice
        have h0 : 0 ≤ len := by
          by_contra hneg
          rw [hsize, vjSimplePoolAlloc_negative pool (by omega) (by omega)] at halloc
          cases halloc
        obtain ⟨hin, -⟩ := slice_eq_ok.mp hslice
        simp only [toSize_of_nonneg h0 (by omega), Packet.start] at hin
        exact ⟨h0, by omega⟩
  · obtain rfl := Except.ok.inj h
    exact Or.inl rfl

/-! ## The parser over a framed buffer -/

/-- The parser goes on behind a packet that it copied, as long as its queue is not full. -/
theorem parseRound_copied (hp : Accepted useMcast buf p) (hcopied : Copied buf p)
    (htake : takePacket buf link p = .ok link') (hroom : link'.queue.length < vjMaxPendingMsg) :
    parseRound buf (p.pos, link) = .ok (.again (p.next, link')) := by
  have hhead : parseHeader buf p.pos = .ok (some p) := by
    rw [hp.parseHeader]
    cases hp with
    | vims => rfl
    | keyframe => rfl
    | ended => exact absurd hcopied not_false
  have hfull : queueFull link' p = false := by
    cases p with
    | vims =>
      simp only [queueFull, decide_eq_false_iff_not]
      omega
    | keyframe => rfl
  exact parseRound_again.mpr ⟨p, link', rfl, (parseHeader_eq_some.mp hhead).2, htake, hfull, rfl⟩

/-- The parser queues every packet, if each of them is copied. -/
theorem parse_of_copied (h : Framed useMcast buf bufLen i ps) :
    ∀ {fuel : ℕ} {link : Link} {pool : Pool}, ps.length ≤ fuel → (∀ p ∈ ps, Copied buf p) →
      link.pool = some pool → link.queue.length + ps.length < vjMaxPendingMsg →
      PoolServes pool.len pool.mem.length pool.cur (poolSizes ps) →
      Ensures (roundLoop (inside bufLen) (parseRound buf) parseExit fuel (i, link)) fun a =>
        a.1 = link.queue.length + ps.length ∧ a.2.nQueued = a.1 ∧
          a.2.queue.map (fun m => (m.src, m.len)) =
            link.queue.map (fun m => (m.src, m.len)) ++ ps.map fun p => (p.start, p.len) := by
  induction h with
  | done hi =>
    intro fuel link pool _ _ _ _ _
    rw [roundLoop_exit (by simpa [inside] using hi), ensures_ok]
    exact ⟨by simp [parseExit], rfl, by simp [parseExit]⟩
  | @packet p ps hi hp hps ih =>
    intro fuel link pool hfuel hcopied hpool hroom hserves
    obtain ⟨fuel, rfl⟩ : ∃ n, fuel = n + 1 := ⟨fuel - 1, by simp only [List.length_cons] at hfuel; omega⟩
    rw [List.length_cons] at hfuel hroom
    have hcopy := hcopied p List.mem_cons_self
    have hnonneg : 0 ≤ p.len := (hcopy.facts hp).2.1
    rw [poolSizes, List.filterMap_cons, if_pos hnonneg] at hserves
    obtain ⟨hfit, hmem, hserves⟩ := hserves
    obtain ⟨mem, hwrite, htake⟩ := takePacket_copied hp hcopy (by omega) hpool hfit hmem
    have hlength := overwrite_length hwrite
    have hround := parseRound_copied hp hcopy htake (by
      rw [List.length_append, List.length_singleton]
      omega)
    rw [roundLoop_again (by simpa [inside] using hi) hround]
    refine (ih (by omega) (fun q hq => hcopied q (List.mem_cons_of_mem p hq)) rfl
      (by rw [List.length_append, List.length_singleton]; omega)
      (by dsimp only; rw [hlength]; exact hserves)).mono fun a ha => ?_
    obtain ⟨hcount, hqueued, hmap⟩ := ha
    refine ⟨by rw [hcount, List.length_append, List.length_singleton, List.length_cons]; omega, hqueued, ?_⟩
    rw [hmap, List.map_append, List.append_assoc]
    rfl

/-- The parser queues no more than the packets, and as many only if each of them is copied. -/
theorem copied_of_parse (h : Framed useMcast buf bufLen i ps) :
    ∀ {fuel : ℕ} {link : Link} {a : ℕ × Link}, link.queue.length + ps.length < vjMaxPendingMsg →
      roundLoop (inside bufLen) (parseRound buf) parseExit fuel (i, link) = .ok a →
      a.2.queue.length ≤ link.queue.length + ps.length ∧
        (a.2.queue.length = link.queue.length + ps.length → ∀ p ∈ ps, Copied buf p) := by
  induction h with
  | done hi =>
    intro fuel link a _ hrun
    rw [roundLoop_exit (by simpa [inside] using hi)] at hrun
    obtain rfl := Except.ok.inj hrun
    exact ⟨le_rfl, fun _ p hp => by cases hp⟩
  | @packet p ps hi hp hps ih =>
    intro fuel link a hroom hrun
    have hin : inside bufLen (p.pos, link) = true := by simpa [inside] using hi
    rw [List.length_cons] at hroom
    cases fuel with
    | zero =>
      rw [roundLoop, if_pos hin] at hrun
      cases hrun
    | succ fuel =>
      cases hr : parseRound buf (p.pos, link) with
      | error f =>
        rw [roundLoop_error hin hr] at hrun
        cases hrun
      | ok round =>
        obtain ⟨x, hx, hround⟩ := bind_eq_ok.mp hr
        cases x with
        | none =>
          -- the parser gives up at a keyframe packet without a number
          obtain rfl := Except.ok.inj hround
          rw [roundLoop_leave hin hr] at hrun
          obtain rfl := Except.ok.inj hrun
          dsimp only
          exact ⟨by omega, fun heq => by rw [List.length_cons] at heq; omega⟩
        | some q =>
          obtain ⟨hpos, hhead⟩ := parseHeader_eq_some.mp hx
          obtain rfl : q = p := by
            rw [hp.parseHeader] at hx
            cases hp with
            | vims => exact (Option.some.inj (Except.ok.inj hx)).symm
            | keyframe => exact (Option.some.inj (Except.ok.inj hx)).symm
            | ended => cases hx
          obtain ⟨link', htake, hround⟩ := bind_eq_ok.mp hround
          have hcases := takePacket_cases hp hhead htake
          dsimp only at hcases
          have hfull : queueFull link' q = false := by
            cases q with
            | vims =>
              simp only [queueFull, decide_eq_false_iff_not]
              omega
            | keyframe => rfl
          rw [if_neg (by simp [hfull])] at hround
          obtain rfl := Except.ok.inj hround
          rw [roundLoop_again hin hr] at hrun
          obtain ⟨hle, hall⟩ := ih (by omega) hrun
          rw [List.length_cons]
          refine ⟨by omega, fun heq => ?_⟩
          rcases hcases with hsame | ⟨hmore, hcopied⟩
          · omega
          · intro r hr
            rcases List.mem_cons.mp hr with rfl | hr
            · exact hcopied
            · exact hall (by omega) r hr

/-- The parser queues exactly the packets: their number, and for each where its message starts in the
buffer and its length. -/
def Agrees (fuel : ℕ) (buf : List UInt8) (bufLen : ℤ) (link : Link) (walked : List Packet) : Prop :=
  Ensures (vjParseMsg fuel buf bufLen link) fun a =>
    a.1 = walked.length ∧ a.2.nQueued = walked.length ∧
      a.2.queue.map (fun m => (m.src, m.len)) = walked.map fun p => (p.start, p.len)

/-- **The two walks agree** on an accepted buffer exactly if each of its packets is one that the parser
copies. -/
theorem walks_agree_iff {fuel : ℕ} {useMcast : Bool} {buf : List UInt8} {bufLen : ℤ}
    {walked : List Packet} {link : Link} {pool : Pool}
    (hverify : verifyWalk fuel useMcast buf bufLen = .ok walked) (hsome : 0 < walked.length)
    (hmax : walked.length < vjMaxPendingMsg) (hpool : link.pool = some pool)
    (hserves : PoolServes pool.len pool.mem.length pool.cur (poolSizes walked)) :
    Agrees fuel buf bufLen link walked ↔
      ∀ ps, Framed useMcast buf bufLen 0 ps → ∀ p ∈ ps, Copied buf p := by
  obtain ⟨hframed, hfuel⟩ := framed_of_verifyWalk hverify (List.ne_nil_of_length_pos hsome)
  constructor
  · rintro ⟨a, hrun, -, -, hmap⟩ ps hps
    obtain rfl := hframed.unique hps
    refine (copied_of_parse hframed ?_ hrun).2 ?_
    · simpa using hmax
    · have hlen := congrArg List.length hmap
      simpa using hlen
  · intro hcopied
    have hempty : ({ link with queue := [] } : Link).pool = some pool := hpool
    refine (parse_of_copied hframed hfuel (hcopied walked hframed) hempty (by simpa using hmax)
      hserves).mono fun a ha => ?_
    obtain ⟨hcount, hqueued, hmap⟩ := ha
    exact ⟨by simpa using hcount, by rw [hqueued]; simpa using hcount, by simpa using hmap⟩

theorem two_messages_agree :
    Agrees 10 (lit "V005D600:;V003D12;") 17 (freshLink (vjSimplePoolInit 64))
      [.vims 0 5 600, .vims 10 3 12] := by
  have hverify : verifyWalk 10 false (lit "V005D600:;V003D12;") 17
      = .ok [.vims 0 5 600, .vims 10 3 12] := rfl
  refine (walks_agree_iff hverify (by decide) (by decide) rfl
    ⟨by decide, by decide, by decide, by decide, trivial⟩).mpr fun ps hps p hp => ?_
  obtain rfl := (framed_of_verifyWalk hverify (List.cons_ne_nil _ _)).1.unique hps
  rcases List.mem_cons.mp hp with rfl | hp
  · exact show (600 : ℤ) ≠ 0 by decide
  · obtain rfl := List.mem_singleton.mp hp
    exact show (12 : ℤ) ≠ 0 by decide

/-- **A message with id zero** is counted and not queued. -/
theorem id_zero_not_queued :
    ¬ ∀ (fuel : ℕ) (useMcast : Bool) (buf : List UInt8) (bufLen : ℤ) (walked : List Packet) (link : Link)
      (pool : Pool), verifyWalk fuel useMcast buf bufLen = .ok walked → 0 < walked.length →
      walked.length < vjMaxPendingMsg → link.pool = some pool →
      PoolServes pool.len pool.mem.length pool.cur (poolSizes walked) →
      Agrees fuel buf bufLen link walked := by
  intro h
  obtain ⟨a, hrun, hcount, -⟩ := h 5 false (lit "V003D0:;") 7 [.vims 0 3 0]
    (freshLink (vjSimplePoolInit 64)) _ rfl (by decide) (by decide) rfl
    ⟨by decide, by decide, trivial⟩
  have hnone : (vjParseMsg 5 (lit "V003D0:;") 7 (freshLink (vjSimplePoolInit 64))).map Prod.fst = .ok 0 :=
    rfl
  rw [hrun] at hnone
  have hzero : a.1 = 0 := Except.ok.inj hnone
  rw [hcount] at hzero
  exact absurd hzero (by decide)

end Veejay.Net
