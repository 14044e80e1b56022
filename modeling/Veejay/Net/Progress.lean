import Veejay.Net.Walks

/-!
# Scanning VIMS packets comes to an end

A walk is done when its position is behind the received bytes, and each round moves the position by what
it read from the packet.  A keyframe packet may announce any number that fits its eight bytes, a negative
one included: from a length of -9 on the walk stays where it is, or goes back.

* `keyframeLength`, `messageHeader` — what is announced at a position;
* `VerifyProgresses`, `ParseProgresses` — the loop ends, and each of its rounds that goes on moves forward;
* `scanning_progresses_iff` — **the condition**: no announced length takes back the header.
-/

namespace Veejay.Net

open CLib

variable {useMcast : Bool} {buf : List UInt8} {bufLen : ℤ} {link : Link}

/-- The length that a keyframe packet at `i` announces. -/
def keyframeLength (buf : List UInt8) (i : ℤ) : Option ℤ :=
  if byteAt buf i = .ok byteK then
    match readField 8 (buf.drop (i + 1).toNat) with
    | .ok (.val len _) => some len
    | _ => none
  else none

/-- The length and the id that a message at `i` announces. -/
def messageHeader (buf : List UInt8) (i : ℤ) : Option (ℤ × ℤ) :=
  if byteAt buf i = .ok byteV then
    match scanHeader false (buf.drop (i + 1).toNat) with
    | .ok x => x
    | _ => none
  else none

theorem keyframeLength_eq_some {i len : ℤ} :
    keyframeLength buf i = some len ↔
      byteAt buf i = .ok byteK ∧ ∃ rest, readField 8 (buf.drop (i + 1).toNat) = .ok (.val len rest) := by
  unfold keyframeLength
  split_ifs with hK
  · simp only [hK, true_and]
    rcases readField 8 (buf.drop (i + 1).toNat) with f | x
    · simp
    · cases x <;> simp
  · simp [hK]

theorem messageHeader_eq_some {i slen netid : ℤ} :
    messageHeader buf i = some (slen, netid) ↔
      byteAt buf i = .ok byteV ∧
        scanHeader false (buf.drop (i + 1).toNat) = .ok (some (slen, netid)) := by
  unfold messageHeader
  split_ifs with hV
  · simp only [hV, true_and]
    rcases scanHeader false (buf.drop (i + 1).toNat) with f | x <;> simp
  · simp [hV]

theorem keyframeLength_headed {i len : ℤ} (h : keyframeLength buf i = some len) :
    Headed buf (.keyframe i (some len)) ∧ -100000000 < len := by
  obtain ⟨hK, rest, hscan⟩ := keyframeLength_eq_some.mp h
  exact ⟨.keyframe hK hscan, by have := (readField_lt hscan).1; omega⟩

theorem messageHeader_headed {i slen netid : ℤ} (h : messageHeader buf i = some (slen, netid)) :
    Headed buf (.vims i slen netid) ∧ -1000 < slen := by
  obtain ⟨hV, hscan⟩ := messageHeader_eq_some.mp h
  obtain ⟨rest, rest', hread, -⟩ := scanHeader_eq_some hscan
  exact ⟨.vims hV hscan, by have := (readField_lt hread).1; omega⟩

/-! ## Verification -/

/-- The loop of `_vj_verify_msg` ends, and each round that goes on moves forward. -/
def VerifyProgresses (useMcast : Bool) (buf : List UInt8) (bufLen : ℤ) : Prop :=
  (∃ fuel, Halts (vjVerifyMsg fuel useMcast buf bufLen)) ∧
    ∀ s s', VerifyVisits useMcast buf bufLen s → verifyRound useMcast buf s = .ok (.again s') →
      s.1 < s'.1

/-- No keyframe packet that the verifier comes to takes its header back. -/
def VerifyLengths (useMcast : Bool) (buf : List UInt8) (bufLen : ℤ) : Prop :=
  ∀ s, VerifyVisits useMcast buf bufLen s → ∀ len, keyframeLength buf s.1 = some len → -9 < len

/-- A variant: what is left of the buffer. -/
theorem roundLoop_forward {α ρ : Type} {round : ℤ × α → Exec (Round (ℤ × α) ρ)} {exit : ℤ × α → ρ}
    {a : α} (hround : ∀ t, Halts (round t))
    (hforward : ∀ t t', t.1 < bufLen → Visits (inside bufLen) round (0, a) t →
      round t = .ok (.again t') → t.1 < t'.1) :
    Halts (roundLoop (inside bufLen) round exit (bufLen.toNat + 1) (0, a)) := by
  refine roundLoop_terminates (fun t => (bufLen - t.1).toNat) hround (fun t t' ht hc hr => ?_) (by simp)
  have hin : t.1 < bufLen := by simpa [inside] using hc
  have hlt := hforward t t' hin ht hr
  omega

theorem verifyProgresses_iff :
    VerifyProgresses useMcast buf bufLen ↔ VerifyLengths useMcast buf bufLen := by
  constructor
  · rintro ⟨-, hforward⟩ s hs len hlen
    obtain ⟨hK, rest, hscan⟩ := keyframeLength_eq_some.mp hlen
    have hagain := hforward s _ hs (verifyRound_again.mpr ⟨_, rfl, .keyframe hK hscan, rfl⟩)
    simp only [Packet.next, Packet.start, Packet.len, Option.getD_some] at hagain
    omega
  · intro hlens
    have hforward : ∀ s s', VerifyVisits useMcast buf bufLen s →
        verifyRound useMcast buf s = .ok (.again s') → s.1 < s'.1 := by
      intro s s' hs hr
      obtain ⟨p, hpos, hacc, rfl⟩ := verifyRound_again.mp hr
      dsimp only
      rw [← hpos]
      cases hacc with
      | vims hbyte hscan hid hmcast hlen hlast =>
        simp only [Packet.next, Packet.start, Packet.len, Packet.pos]
        omega
      | keyframe hbyte hscan =>
        have hlen := hlens s hs _ (keyframeLength_eq_some.mpr (by rw [← hpos]; exact ⟨hbyte, _, hscan⟩))
        simp only [Packet.next, Packet.start, Packet.len, Packet.pos, Option.getD_some]
        omega
      | ended hbyte hscan =>
        simp only [Packet.next, Packet.start, Packet.len, Packet.pos, Option.getD_none]
        omega
    refine ⟨⟨bufLen.toNat + 1, ?_⟩, hforward⟩
    refine Halts.bind ?_ fun _ => halts_ok _
    unfold verifyWalk
    split_ifs with hshort
    · exact halts_ok _
    · exact roundLoop_forward (verifyRound_halts useMcast buf) fun t t' hin ht hr =>
        hforward t t' ⟨by omega, hin, ht⟩ hr

/-! ## Parsing -/

/-- The loop of `_vj_parse_msg` ends, and each round that goes on moves forward. -/
def ParseProgresses (buf : List UInt8) (bufLen : ℤ) (link : Link) : Prop :=
  (∃ fuel, Halts (vjParseMsg fuel buf bufLen link)) ∧
    ∀ s s', ParseVisits buf bufLen link s → parseRound buf s = .ok (.again s') → s.1 < s'.1

/-- No packet that the parser comes to with a place in its queue takes its header back. -/
def ParseLengths (buf : List UInt8) (bufLen : ℤ) (link : Link) : Prop :=
  ∀ s, ParseVisits buf bufLen link s → s.2.queue.length < vjMaxPendingMsg →
    (∀ len, keyframeLength buf s.1 = some len → -9 < len) ∧
      ∀ slen netid, messageHeader buf s.1 = some (slen, netid) → -5 < slen

/-- A round that goes on began with a place in the queue. -/
theorem room_of_takePacket {link' : Link} {p : Packet} (h : takePacket buf link p = .ok link')
    (hfull : queueFull link' p = false) : link.queue.length < vjMaxPendingMsg := by
  unfold takePacket at h
  split_ifs at h with hwanted
  · exact (enqueue_cases h).1
  · obtain rfl := Except.ok.inj h
    cases p with
    | vims => simpa [queueFull] using hfull
    | keyframe => exact absurd rfl hwanted

theorem parseProgresses_iff (hpool : link.pool.isSome) :
    ParseProgresses buf bufLen link ↔ ParseLengths buf bufLen link := by
  constructor
  · rintro ⟨-, hforward⟩ s hs hroom
    obtain ⟨pool, hpool⟩ := Option.isSome_iff_exists.mp (hs.pool hpool)
    refine ⟨fun len hlen => ?_, fun slen netid hlen => ?_⟩
    · obtain ⟨hhead, hlow⟩ := keyframeLength_headed hlen
      by_contra hback
      have hsize : (Packet.keyframe s.1 (some len)).size = len := add_zero len
      have htake : takePacket buf s.2 (.keyframe s.1 (some len)) = .ok s.2 :=
        enqueue_refused hroom hpool
          (vjSimplePoolAlloc_negative pool (by omega) (by omega))
      have hagain := hforward s _ hs (parseRound_again.mpr ⟨_, _, rfl, hhead, htake, rfl, rfl⟩)
      simp only [Packet.next, Packet.start, Packet.len, Option.getD_some] at hagain
      omega
    · obtain ⟨hhead, hlow⟩ := messageHeader_headed hlen
      by_contra hback
      have hsize : (Packet.vims s.1 slen netid).size = slen + 1 := rfl
      have htake : takePacket buf s.2 (.vims s.1 slen netid) = .ok s.2 := by
        unfold takePacket
        split_ifs
        · exact enqueue_refused hroom hpool (vjSimplePoolAlloc_negative pool (by omega) (by omega))
        · rfl
      have hagain := hforward s _ hs (parseRound_again.mpr ⟨_, _, rfl, hhead, htake,
        by simpa [queueFull] using hroom, rfl⟩)
      simp only [Packet.next, Packet.start, Packet.len] at hagain
      omega
  · intro hlens
    have hforward : ∀ s s', ParseVisits buf bufLen link s →
        parseRound buf s = .ok (.again s') → s.1 < s'.1 := by
      intro s s' hs hr
      obtain ⟨p, link', hpos, hhead, htake, hfull, rfl⟩ := parseRound_again.mp hr
      obtain ⟨hkey, hmessage⟩ := hlens s hs (room_of_takePacket htake hfull)
      dsimp only
      rw [← hpos]
      cases hhead with
      | vims hbyte hscan =>
        have hlen := hmessage _ _ (messageHeader_eq_some.mpr (by rw [← hpos]; exact ⟨hbyte, hscan⟩))
        simp only [Packet.next, Packet.start, Packet.len, Packet.pos]
        omega
      | keyframe hbyte hscan =>
        have hlen := hkey _ (keyframeLength_eq_some.mpr (by rw [← hpos]; exact ⟨hbyte, _, hscan⟩))
        simp only [Packet.next, Packet.start, Packet.len, Packet.pos, Option.getD_some]
        omega
    exact ⟨⟨bufLen.toNat + 1, roundLoop_forward (parseRound_halts buf) fun t t' hin ht hr =>
      hforward t t' ⟨hin, ht⟩ hr⟩, hforward⟩

/-- **Scanning progresses** exactly where no announced length takes back the header in front of it. -/
theorem scanning_progresses_iff (useMcast : Bool) (buf : List UInt8) (bufLen : ℤ) (link : Link)
    (hpool : link.pool.isSome) :
    (VerifyProgresses useMcast buf bufLen ↔ VerifyLengths useMcast buf bufLen) ∧
      (ParseProgresses buf bufLen link ↔ ParseLengths buf bufLen link) :=
  ⟨verifyProgresses_iff, parseProgresses_iff hpool⟩

/-- A buffer without a minus sign announces no such length. -/
theorem lengths_of_no_minus (hbuf : (45 : UInt8) ∉ buf) (i : ℤ) :
    (∀ len, keyframeLength buf i = some len → -9 < len) ∧
      ∀ slen netid, messageHeader buf i = some (slen, netid) → -5 < slen := by
  have hdrop : ∀ n : ℕ, (45 : UInt8) ∉ buf.drop n := fun n hmem => hbuf (List.mem_of_mem_drop hmem)
  refine ⟨fun len hlen => ?_, fun slen netid hlen => ?_⟩
  · obtain ⟨-, rest, hscan⟩ := keyframeLength_eq_some.mp hlen
    have := readField_nonneg (hdrop _) hscan
    omega
  · obtain ⟨-, hscan⟩ := messageHeader_eq_some.mp hlen
    obtain ⟨rest, rest', hread, -⟩ := scanHeader_eq_some hscan
    have := readField_nonneg (hdrop _) hread
    omega

theorem one_message_progresses :
    VerifyProgresses false (lit "V005D600:;") 9 ∧ ParseProgresses (lit "V005D600:;") 9 (freshLink (vjSimplePoolInit 64)) := by
  have hbuf : (45 : UInt8) ∉ lit "V005D600:;" := by decide
  obtain ⟨hverify, hparse⟩ := scanning_progresses_iff false (lit "V005D600:;") 9 (freshLink (vjSimplePoolInit 64)) rfl
  exact ⟨hverify.mpr fun s _ => (lengths_of_no_minus hbuf s.1).1,
    hparse.mpr fun s _ _ => lengths_of_no_minus hbuf s.1⟩

/-- **A keyframe packet of length -9** is walked over for ever. -/
theorem keyframe_takes_header_back :
    ¬ ∀ (useMcast : Bool) (buf : List UInt8) (bufLen : ℤ) (link : Link), link.pool.isSome →
      VerifyProgresses useMcast buf bufLen ∧ ParseProgresses buf bufLen link := by
  intro h
  obtain ⟨⟨-, hforward⟩, -⟩ := h false (lit "K-9;;;") 6 (freshLink (vjSimplePoolInit 64)) rfl
  exact absurd (hforward (0, []) (0, [.keyframe 0 (some (-9))]) ⟨by decide, by decide, .first⟩ rfl)
    (by decide)

end Veejay.Net
