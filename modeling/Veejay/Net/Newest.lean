import Veejay.Net.ChunkBounds

/-!
# Which frame the multicast receiver returns, and which it drops

The receiver keeps at most three frames, which it tells apart by their stamps, and gives up the one with the smallest
stamp when a fourth one comes.  The sender counts its stamps up, and begins again when it has come to `0xffff`.

* `Heads`, `heads` — the slots without their bytes, on which all of this depends;
* `recvPacketFrame_heads` — **the receiver refines** what `Heads.packet` says of a datagram;
* `SenderRun` — the calls of `mcast_send_frame`, one after the other;
* `receiveStamp` — `mcast_recv_frame`, with the stamp of the frame that it returns;
* `newest_first` — **a call returns the only complete frame** that it holds, and, while the stamps do not begin again,
  **a frame that was sent later** than the last one returned is given up only if it is the first one of three that are in
  use when another one comes.
-/

namespace Veejay.Net

open CLib

/-! ## Slots without bytes -/

/-- A slot: its stamp, the datagrams that were counted, and whether it is complete. -/
structure SlotHead where
  usec : UInt32
  count : ℕ
  rdy : Bool
  deriving DecidableEq

/-- The slots, and the stamp of the last complete frame. -/
@[ext]
structure Heads where
  slot : Fin 3 → SlotHead
  last : ℕ

def PacketBuffer.head (pb : PacketBuffer) : SlotHead := ⟨pb.hdr.usec, pb.count, pb.rdy⟩

/-- What is seen of a receiver. -/
def heads (q : McastReceiver) : Heads := ⟨fun i => (q.slot i).head, q.last⟩

namespace Heads

/-- The slot of the stamp, or else one that is not in use. -/
def find (h : Heads) (usec : UInt32) : Option (Fin 3) :=
  match (List.finRange 3).find? fun i => (h.slot i).usec = usec with
  | some i => some i
  | none => (List.finRange 3).find? fun i => (h.slot i).count = 0

theorem slots_pos : 0 < 3 := by decide

/-- The slot with the smallest stamp. -/
def oldest (h : Heads) : Fin 3 :=
  ((List.finRange 3).foldl (fun (o : Fin 3 × ℕ) i =>
    if (h.slot i).usec.toNat < o.2 then (i, (h.slot i).usec.toNat) else o) (⟨0, slots_pos⟩, 2 ^ 63 - 1)).1

/-- The slot that a datagram goes to, and what is in it then. -/
def taken (h : Heads) (usec : UInt32) : Fin 3 × SlotHead :=
  match h.find usec with
  | some i => (i, h.slot i)
  | none => (h.oldest, ⟨0, 0, false⟩)

/-- A datagram of a frame of `length` chunks: whether the frame is complete, and the slots. -/
def packet (h : Heads) (usec : UInt32) (length : ℕ) : Bool × Heads :=
  let (i, s) := h.taken usec
  let full := decide (length ≤ s.count + 1)
  (full, {
    slot := Function.update h.slot i ⟨usec, s.count + 1, s.rdy || full⟩
    last := if full then usec.toNat else h.last })

/-- Complete frames, and frames that are older than the last complete one, are given up. -/
def release (h : Heads) : Heads :=
  { h with slot := fun i =>
      if (h.slot i).rdy = true ∨ (h.slot i).usec.toNat < h.last then ⟨0, 0, false⟩ else h.slot i }

/-- A part of the frame with this stamp is held. -/
def HoldsPart (h : Heads) (t : UInt32) : Prop := ∃ i, (h.slot i).usec = t ∧ (h.slot i).count ≠ 0 ∧ (h.slot i).rdy = false

/-- No frame is complete. -/
def NoneReady (h : Heads) : Prop := ∀ i, (h.slot i).rdy = false

/-- The frame in the slot `i` is the only complete one, and the last one. -/
def OneReady (h : Heads) (i : Fin 3) : Prop := (∀ j, (h.slot j).rdy = true ↔ j = i) ∧ h.last = (h.slot i).usec.toNat

/-- **The frame with the stamp `t` is given up** for a datagram of another one: no slot is free, and it has the smallest
stamp. -/
def Drops (h : Heads) (usec t : UInt32) : Prop :=
  (∀ i, (h.slot i).usec ≠ usec ∧ (h.slot i).count ≠ 0) ∧ (∃ i, (h.slot i).usec = t) ∧ ∀ i, t ≤ (h.slot i).usec

section Packets

variable {h : Heads} {usec t : UInt32} {length : ℕ} {i : Fin 3}

theorem find_some (hfind : h.find usec = some i) : (h.slot i).usec = usec ∨ (h.slot i).count = 0 := by
  unfold find at hfind
  cases hstamp : (List.finRange 3).find? fun i => (h.slot i).usec = usec with
  | some j =>
    rw [hstamp] at hfind
    obtain rfl := Option.some.inj hfind
    exact .inl (of_decide_eq_true (List.find?_some (p := fun i => decide ((h.slot i).usec = usec)) hstamp))
  | none =>
    rw [hstamp] at hfind
    exact .inr (of_decide_eq_true (List.find?_some (p := fun i => decide ((h.slot i).count = 0)) hfind))

theorem find_none (hfind : h.find usec = none) (i : Fin 3) : (h.slot i).usec ≠ usec ∧ (h.slot i).count ≠ 0 := by
  unfold find at hfind
  cases hstamp : (List.finRange 3).find? fun i => (h.slot i).usec = usec with
  | some j =>
    rw [hstamp] at hfind
    cases hfind
  | none =>
    rw [hstamp] at hfind
    have husec := List.find?_eq_none.mp hstamp i (List.mem_finRange i)
    have hcount := List.find?_eq_none.mp hfind i (List.mem_finRange i)
    exact ⟨fun heq => husec (decide_eq_true heq), fun heq => hcount (decide_eq_true heq)⟩

/-- The search for the smallest value. -/
theorem foldl_least {α : Type} (f : α → ℕ) (l : List α) (o : α × ℕ) :
    let r := l.foldl (fun o i => if f i < o.2 then (i, f i) else o) o
    (r = o ∨ r.2 = f r.1) ∧ r.2 ≤ o.2 ∧ ∀ i ∈ l, r.2 ≤ f i := by
  induction l generalizing o with
  | nil => exact ⟨.inl rfl, le_rfl, fun i hi => absurd hi List.not_mem_nil⟩
  | cons i l ih =>
    rw [List.foldl_cons]
    by_cases hlt : f i < o.2
    · rw [if_pos hlt]
      obtain ⟨hwhere, hle, hall⟩ := ih (i, f i)
      refine ⟨.inr ?_, hle.trans hlt.le, List.forall_mem_cons.mpr ⟨hle, hall⟩⟩
      rcases hwhere with heq | hvalue
      · rw [heq]
      · exact hvalue
    · rw [if_neg hlt]
      obtain ⟨hwhere, hle, hall⟩ := ih o
      exact ⟨hwhere, hle, List.forall_mem_cons.mpr ⟨hle.trans (Nat.not_lt.mp hlt), hall⟩⟩

/-- No stamp is smaller. -/
theorem oldest_le (h : Heads) (i : Fin 3) : (h.slot h.oldest).usec ≤ (h.slot i).usec := by
  obtain ⟨hwhere, -, hall⟩ := foldl_least (fun i => (h.slot i).usec.toNat) (List.finRange 3) (⟨0, slots_pos⟩, 2 ^ 63 - 1)
  have hsize := (h.slot 0).usec.toNat_lt
  have hzero := hall 0 (List.mem_finRange 0)
  rw [UInt32.le_iff_toNat_le]
  rcases hwhere with hstart | hvalue
  · rw [hstart] at hzero
    dsimp only at hzero
    omega
  · rw [oldest, ← hvalue]
    exact hall i (List.mem_finRange i)

theorem packet_slot_of_ne {j : Fin 3} (hj : j ≠ (h.taken usec).1) : (h.packet usec length).2.slot j = h.slot j :=
  Function.update_of_ne hj ..

theorem packet_slot (h : Heads) (usec : UInt32) (length : ℕ) : (h.packet usec length).2.slot (h.taken usec).1 =
    ⟨usec, (h.taken usec).2.count + 1, (h.taken usec).2.rdy || (h.packet usec length).1⟩ :=
  Function.update_self ..

/-- **What a datagram does to a part of a frame**: it stays, it becomes complete, or it is given up. -/
theorem packet_part (usec : UInt32) (length : ℕ) (hpart : h.HoldsPart t) :
    (h.packet usec length).2.HoldsPart t ∨ ((h.packet usec length).1 = true ∧ usec = t) ∨ h.Drops usec t := by
  obtain ⟨j, hstamp, hcount, hrdy⟩ := hpart
  by_cases hj : j = (h.taken usec).1
  · cases hfind : h.find usec with
    | some i =>
      have htaken : h.taken usec = (i, h.slot i) := by rw [taken, hfind]
      rw [htaken] at hj
      obtain rfl : j = i := hj
      have hsame : usec = t := by
        rw [← hstamp]
        exact ((find_some hfind).resolve_right hcount).symm
      cases hfull : (h.packet usec length).1 with
      | true => exact .inr (.inl ⟨rfl, hsame⟩)
      | false =>
        have hslot := packet_slot h usec length
        rw [htaken, hfull, hrdy] at hslot
        refine .inl ⟨j, ?_⟩
        rw [hslot]
        exact ⟨hsame, Nat.succ_ne_zero _, rfl⟩
    | none =>
      have htaken : h.taken usec = (h.oldest, ⟨0, 0, false⟩) := by rw [taken, hfind]
      rw [htaken] at hj
      refine .inr (.inr ⟨find_none hfind, ⟨j, hstamp⟩, fun i => ?_⟩)
      rw [← hstamp, show j = h.oldest from hj]
      exact h.oldest_le i
  · refine .inl ⟨j, ?_⟩
    rw [packet_slot_of_ne hj]
    exact ⟨hstamp, hcount, hrdy⟩

theorem taken_rdy (hnone : h.NoneReady) : (h.taken usec).2.rdy = false := by
  rw [taken]
  cases h.find usec with
  | some i => exact hnone i
  | none => rfl

/-- A frame that becomes complete is the only complete one. -/
theorem packet_full (hnone : h.NoneReady) (hfull : (h.packet usec length).1 = true) :
    (h.packet usec length).2.OneReady (h.taken usec).1 ∧
      ((h.packet usec length).2.slot (h.taken usec).1).usec = usec := by
  have hslot := packet_slot h usec length
  rw [taken_rdy hnone, hfull] at hslot
  refine ⟨⟨fun j => ⟨fun hj => ?_, fun hj => ?_⟩, ?_⟩, by rw [hslot]⟩
  · by_contra hne
    rw [packet_slot_of_ne hne, hnone j] at hj
    cases hj
  · rw [hj, hslot]
    rfl
  · rw [hslot]
    exact if_pos hfull

/-- Otherwise none is complete. -/
theorem packet_not_full (hnone : h.NoneReady) (hfull : (h.packet usec length).1 = false) :
    (h.packet usec length).2.NoneReady ∧ (h.packet usec length).2.last = h.last := by
  have hslot := packet_slot h usec length
  rw [taken_rdy hnone, hfull] at hslot
  refine ⟨fun j => ?_, if_neg fun h => Bool.noConfusion (hfull.symm.trans h)⟩
  by_cases hj : j = (h.taken usec).1
  · rw [hj, hslot]
    rfl
  · rw [packet_slot_of_ne hj]
    exact hnone j

end Packets

end Heads

/-! ## The receiver -/

section Receiver

variable {q q' : McastReceiver} {d : Datagram} {fill : ℕ → UInt8}

/-- The slot that is chosen, as it is seen. -/
theorem chooseSlot_head (q : McastReceiver) (usec : UInt32) :
    ((chooseSlot q usec).1, ((chooseSlot q usec).2.slot (chooseSlot q usec).1).head) = (heads q).taken usec := by
  rw [chooseSlot, Heads.taken]
  change _ = match findSlot q usec with
    | some i => (i, (q.slot i).head)
    | none => (oldestSlot q, (⟨0, 0, false⟩ : SlotHead))
  cases findSlot q usec with
  | some i => rfl
  | none =>
    dsimp only
    rw [setSlot_same]
    rfl

theorem chooseSlot_last (q : McastReceiver) (usec : UInt32) : (chooseSlot q usec).2.last = q.last := by
  rw [chooseSlot]
  cases findSlot q usec with
  | some i => rfl
  | none => rfl

/-- The slots, with the chosen one filled. -/
theorem chooseSlot_filled (q : McastReceiver) (usec : UInt32) (pb : PacketBuffer) :
    (heads ((chooseSlot q usec).2.setSlot (chooseSlot q usec).1 pb)).slot =
      Function.update (heads q).slot (chooseSlot q usec).1 pb.head := by
  funext j
  by_cases hj : j = (chooseSlot q usec).1
  · rw [hj, Function.update_self, heads]
    dsimp only
    rw [setSlot_same]
  · rw [Function.update_of_ne hj, heads]
    dsimp only
    rw [setSlot_other _ hj, (chooseSlot_cases q usec).2 j hj]
    rfl

/-- **The receiver refines** the slots without bytes. -/
theorem recvPacketFrame_heads {n : ℕ} (h : mcastRecvPacketFrame q d fill = .ok (n, q')) :
    (heads q).packet d.hdr.usec d.hdr.length.toNat = (decide (n = 2), heads q') := by
  have hfilled := chooseSlot_filled q d.hdr.usec
  have hlast := chooseSlot_last q d.hdr.usec
  rw [mcastRecvPacketFrame] at h
  rw [Heads.packet, ← chooseSlot_head]
  generalize chooseSlot q d.hdr.usec = c at h hfilled hlast
  obtain ⟨i, qc⟩ := c
  dsimp only at h hfilled hlast
  obtain ⟨mem, -, h⟩ := bind_eq_ok.mp h
  dsimp only [PacketBuffer.head] at h hfilled ⊢
  split_ifs at h with hfull
  · obtain ⟨rfl, rfl⟩ := Prod.mk.inj (Except.ok.inj h)
    have hslots := hfilled ⟨d.hdr, d.inf, some mem, d.inf.len, (qc.slot i).count + 1, true⟩
    rw [decide_eq_true hfull, Bool.or_true, if_pos rfl, ← hslots]
    rfl
  · obtain ⟨rfl, rfl⟩ := Prod.mk.inj (Except.ok.inj h)
    have hslots := hfilled ⟨d.hdr, d.inf, some mem, d.inf.len, (qc.slot i).count + 1, (qc.slot i).rdy⟩
    rw [decide_eq_false hfull, Bool.or_false, if_neg Bool.false_ne_true, ← hslots]
    dsimp only [heads]
    rw [← hlast]
    rfl

/-- While the datagrams of a call are received, one of them meets `P`. -/
def LoopMeets (P : Heads → UInt32 → Prop) : McastReceiver → List (Datagram × (ℕ → UInt8)) → Prop
  | _, [] => False
  | q, (d, fill) :: arrivals =>
    P (heads q) d.hdr.usec ∨ ∃ q', mcastRecvPacketFrame q d fill = .ok (1, q') ∧ LoopMeets P q' arrivals

theorem LoopMeets.mono {P Q : Heads → UInt32 → Prop} (hPQ : ∀ h usec, P h usec → Q h usec)
    {arrivals : List (Datagram × (ℕ → UInt8))} (h : LoopMeets P q arrivals) : LoopMeets Q q arrivals := by
  induction arrivals generalizing q with
  | nil => exact h
  | cons a arrivals ih =>
    rcases h with hP | ⟨q', hrecv, hrest⟩
    · exact .inl (hPQ _ _ hP)
    · exact .inr ⟨q', hrecv, ih hrest⟩

theorem recvPacketFrame_number {n : ℕ} (h : mcastRecvPacketFrame q d fill = .ok (n, q')) : n = 1 ∨ n = 2 := by
  obtain ⟨mem, -, h⟩ := bind_eq_ok.mp h
  dsimp only at h
  split_ifs at h
  · exact .inr (Prod.mk.inj (Except.ok.inj h)).1.symm
  · exact .inl (Prod.mk.inj (Except.ok.inj h)).1.symm

/-- **The loop of a call** ends with one complete frame or with none. -/
theorem recvLoop_ready {arrivals : List (Datagram × (ℕ → UInt8))} (hnone : (heads q).NoneReady)
    (h : recvLoop q arrivals = .ok q') :
    ((heads q').NoneReady ∧ q'.last = q.last) ∨ ∃ i, (heads q').OneReady i := by
  induction arrivals generalizing q with
  | nil =>
    obtain rfl := Except.ok.inj h
    exact .inl ⟨hnone, rfl⟩
  | cons a arrivals ih =>
    obtain ⟨d, fill⟩ := a
    obtain ⟨⟨n, q₁⟩, hrecv, h⟩ := bind_eq_ok.mp h
    have hpacket := recvPacketFrame_heads hrecv
    dsimp only at h
    split_ifs at h with hn
    · obtain rfl := Except.ok.inj h
      have hfull := (Heads.packet_full hnone (by rw [hpacket, hn]; rfl)).1
      rw [hpacket] at hfull
      exact .inr ⟨_, hfull⟩
    · have hrest := Heads.packet_not_full hnone (by rw [hpacket, decide_eq_false hn])
      rw [hpacket] at hrest
      rcases ih hrest.1 h with ⟨hnone', hlast⟩ | hone
      · exact .inl ⟨hnone', hlast.trans hrest.2⟩
      · exact .inr hone

/-- **A part of a frame** stays, becomes complete, or is given up for another frame. -/
theorem recvLoop_part {arrivals : List (Datagram × (ℕ → UInt8))} {t : UInt32} (hnone : (heads q).NoneReady)
    (hpart : (heads q).HoldsPart t) (h : recvLoop q arrivals = .ok q') :
    (heads q').HoldsPart t ∨ (∃ i, (heads q').OneReady i ∧ ((heads q').slot i).usec = t) ∨
      LoopMeets (fun h usec => h.Drops usec t) q arrivals := by
  induction arrivals generalizing q with
  | nil =>
    obtain rfl := Except.ok.inj h
    exact .inl hpart
  | cons a arrivals ih =>
    obtain ⟨d, fill⟩ := a
    obtain ⟨⟨n, q₁⟩, hrecv, h⟩ := bind_eq_ok.mp h
    have hpacket := recvPacketFrame_heads hrecv
    have hwhat := Heads.packet_part d.hdr.usec d.hdr.length.toNat hpart
    dsimp only at h
    split_ifs at h with hn
    · obtain rfl := Except.ok.inj h
      obtain ⟨hfull, hstamp⟩ := Heads.packet_full hnone (by rw [hpacket, hn]; rfl)
      rw [hpacket] at hwhat hfull hstamp
      rcases hwhat with hstays | ⟨-, rfl⟩ | hdrops
      · exact .inl hstays
      · exact .inr (.inl ⟨_, hfull, hstamp⟩)
      · exact .inr (.inr (.inl hdrops))
    · have hrest := Heads.packet_not_full hnone (by rw [hpacket, decide_eq_false hn])
      have hnumber := (recvPacketFrame_number hrecv).resolve_right hn
      rw [hpacket, decide_eq_false hn] at hwhat
      rw [hpacket] at hrest
      rcases hwhat with hstays | ⟨hno, -⟩ | hdrops
      · rcases ih hrest.1 hstays h with hpart' | hone | hdrops
        · exact .inl hpart'
        · exact .inr (.inl hone)
        · exact .inr (.inr (.inr ⟨q₁, hnumber ▸ hrecv, hdrops⟩))
      · cases hno
      · exact .inr (.inr (.inl hdrops))

/-! ## One call -/

theorem release_noneReady (q : McastReceiver) : (heads (mcastReleaseSlots q)).NoneReady := by
  intro i
  by_cases hold : (q.slot i).rdy = true ∨ (q.slot i).hdr.usec.toNat < q.last
  · show PacketBuffer.rdy (if _ then _ else _) = false
    rw [if_pos hold]
    rfl
  · show PacketBuffer.rdy (if _ then _ else _) = false
    rw [if_neg hold]
    exact Bool.eq_false_iff.mpr fun hrdy => hold (.inl hrdy)

/-- A part of a frame that is not older than the last complete one is kept. -/
theorem release_part {t : UInt32} (hpart : (heads q).HoldsPart t) (hlast : q.last ≤ t.toNat) :
    (heads (mcastReleaseSlots q)).HoldsPart t := by
  obtain ⟨i, hstamp, hcount, hrdy⟩ := hpart
  have hkept : (mcastReleaseSlots q).slot i = q.slot i := by
    refine if_neg ?_
    rintro (hready | hold)
    · exact Bool.noConfusion (hrdy.symm.trans hready)
    · have hsame : (q.slot i).hdr.usec = t := hstamp
      rw [hsame] at hold
      omega
  refine ⟨i, ?_⟩
  rw [heads]
  dsimp only
  rw [hkept]
  exact ⟨hstamp, hcount, hrdy⟩

theorem newestReady_none (hnone : (heads q).NoneReady) : newestReady q = none := by
  cases hready : newestReady q with
  | none => rfl
  | some i =>
    have hrdy := newestReady_ready hready
    exact absurd hrdy (Bool.eq_false_iff.mp (hnone i))

theorem newestReady_one {i : Fin 3} (hone : (heads q).OneReady i) : newestReady q = some i := by
  cases hready : newestReady q with
  | none =>
    unfold newestReady at hready
    cases hfind : (List.finRange 3).find? fun i => (q.slot i).rdy with
    | none => exact absurd ((hone.1 i).mpr rfl) (List.find?_eq_none.mp hfind i (List.mem_finRange i))
    | some j =>
      rw [hfind] at hready
      cases hready
  | some j => rw [(hone.1 j).mp (newestReady_ready hready)]

/-- `mcast_recv_frame`, with the stamp of the frame that is returned. -/
def receiveStamp (q : McastReceiver) (arrivals : List (Datagram × (ℕ → UInt8))) : Exec (Option UInt32 × McastReceiver) := do
  let (_, q') ← mcastRecvFrame q arrivals
  .ok ((newestReady q').map fun i => (q'.slot i).hdr.usec, q')

/-- A call is its loop, and returns what is newest then. -/
theorem receiveStamp_cases {arrivals : List (Datagram × (ℕ → UInt8))} {r : Option UInt32}
    (h : receiveStamp q arrivals = .ok (r, q')) :
    recvLoop (mcastReleaseSlots q) arrivals = .ok q' ∧ r = (newestReady q').map fun i => (q'.slot i).hdr.usec := by
  obtain ⟨⟨a, q₁⟩, hframe, h⟩ := bind_eq_ok.mp h
  obtain ⟨hr, rfl⟩ := Prod.mk.inj (Except.ok.inj h)
  obtain ⟨q₂, hloop, hframe⟩ := bind_eq_ok.mp hframe
  have hsame : q₂ = q₁ := by
    cases hready : newestReady q₂ with
    | none =>
      rw [hready] at hframe
      exact (Prod.mk.inj (Except.ok.inj hframe)).2
    | some i =>
      rw [hready] at hframe
      exact (Prod.mk.inj (Except.ok.inj hframe)).2
  exact ⟨hsame ▸ hloop, hr.symm⟩

/-- **A call** returns the only complete frame, or none. -/
theorem receiveStamp_ready {arrivals : List (Datagram × (ℕ → UInt8))} {r : Option UInt32}
    (h : receiveStamp q arrivals = .ok (r, q')) :
    (r = none ∧ (heads q').NoneReady ∧ q'.last = q.last) ∨
      ∃ i, (heads q').OneReady i ∧ r = some ((heads q').slot i).usec := by
  obtain ⟨hloop, rfl⟩ := receiveStamp_cases h
  rcases recvLoop_ready (release_noneReady q) hloop with ⟨hnone, hlast⟩ | ⟨i, hone⟩
  · rw [newestReady_none hnone]
    exact .inl ⟨rfl, hnone, hlast⟩
  · rw [newestReady_one hone]
    exact .inr ⟨i, hone, rfl⟩

end Receiver

/-! ## Runs of the receiver -/

/-- The stamp of the last frame that was returned. -/
def lastReturned (returned : List (Option UInt32)) : Option UInt32 := returned.foldl (fun l r => r.or l) none

/-- What the receiver knows of it. -/
def LastIs (l : Option UInt32) (q : McastReceiver) : Prop := q.last = (l.map UInt32.toNat).getD 0

theorem receiveStamp_last {q q' : McastReceiver} {arrivals : List (Datagram × (ℕ → UInt8))} {r l : Option UInt32}
    (hl : LastIs l q) (h : receiveStamp q arrivals = .ok (r, q')) : LastIs (r.or l) q' := by
  rcases receiveStamp_ready h with ⟨rfl, -, hlast⟩ | ⟨i, hone, rfl⟩
  · exact hlast.trans hl
  · exact hone.2

/-- **The run lemma**: the receiver knows the stamp of the last frame that it has returned. -/
theorem runOps_last {calls : List (List (Datagram × (ℕ → UInt8)))} {q q' : McastReceiver} {l : Option UInt32}
    {returned : List (Option UInt32)} (hl : LastIs l q) (h : runOps receiveStamp q calls = .ok (returned, q')) :
    LastIs (returned.foldl (fun l r => r.or l) l) q' := by
  induction calls generalizing q l returned with
  | nil =>
    obtain ⟨rfl, rfl⟩ := Prod.mk.inj (Except.ok.inj h)
    exact hl
  | cons arrivals calls ih =>
    obtain ⟨⟨r, q₁⟩, hcall, h⟩ := bind_eq_ok.mp h
    obtain ⟨⟨rs, q₂⟩, hrest, h⟩ := bind_eq_ok.mp h
    obtain ⟨rfl, rfl⟩ := Prod.mk.inj (Except.ok.inj h)
    rw [List.foldl_cons]
    exact ih (receiveStamp_last hl hcall) hrest

/-! ## Runs of the sender -/

/-- The calls of `mcast_send_frame` of one sender, one after the other. -/
def SenderRun : McastSender → List Sent → Prop
  | _, [] => True
  | v, f :: sent =>
    (stampMake v).stamp = f.stamp ∧ ∃ rest res r,
      mcastSendFrame v f.frame (f.bytes ++ rest) f.bytes.length f.ms f.mode res = .ok r ∧ SenderRun r.2.2 sent

/-- What a call leaves of the sender. -/
theorem mcastSendFrame_leaves {v : McastSender} {frame : VJFrame} {buf : List UInt8} {totalLen : ℕ} {ms : ℤ}
    {mode : UInt8} {res : ℕ → ℤ} {r : ℤ × List Datagram × McastSender}
    (h : mcastSendFrame v frame buf totalLen ms mode res = .ok r) :
    r.2.2 = stampMake v ∨ r.2.2 = stampWrap (stampMake v) := by
  rw [mcastSendFrame] at h
  dsimp only at h
  by_cases hone : totalLen ≤ chunkSize
  · rw [if_pos hone] at h
    obtain ⟨data, -, h⟩ := bind_eq_ok.mp h
    split_ifs at h <;> obtain rfl := Except.ok.inj h <;> exact .inl rfl
  · rw [if_neg hone] at h
    obtain ⟨⟨all, sent⟩, -, h⟩ := bind_eq_ok.mp h
    dsimp only at h
    by_cases hall : all = false
    · rw [if_pos hall] at h
      obtain rfl := Except.ok.inj h
      exact .inl rfl
    · rw [if_neg hall] at h
      by_cases hleft : totalLen % chunkSize = 0
      · rw [if_pos hleft] at h
        obtain rfl := Except.ok.inj h
        exact .inr rfl
      · rw [if_neg hleft] at h
        obtain ⟨data, -, h⟩ := bind_eq_ok.mp h
        by_cases hres : res (totalLen / chunkSize) ≤ 0
        · rw [if_pos hres] at h
          obtain rfl := Except.ok.inj h
          exact .inl rfl
        · rw [if_neg hres] at h
          obtain rfl := Except.ok.inj h
          exact .inr rfl

/-- **While they do not begin again**, the stamps count the frames. -/
theorem SenderRun.stamps {v : McastSender} {sent : List Sent} (h : SenderRun v sent)
    (hwrap : v.stamp.toNat + sent.length ≤ 0xffff) {k : ℕ} {f : Sent} (hk : sent[k]? = some f) :
    f.stamp.toNat = v.stamp.toNat + k + 1 := by
  induction sent generalizing v k with
  | nil => cases hk
  | cons g sent ih =>
    obtain ⟨hstamp, rest, res, r, hsend, hrest⟩ := h
    rw [List.length_cons] at hwrap
    have hmade : (stampMake v).stamp.toNat = v.stamp.toNat + 1 := by
      rw [stampMake, UInt32.toNat_add]
      exact Nat.mod_eq_of_lt (by change _ + 1 < _; omega)
    cases k with
    | zero =>
      obtain rfl := Option.some.inj hk
      rw [← hstamp, hmade]
    | succ k =>
      rw [List.getElem?_cons_succ] at hk
      have hlen : k < sent.length := (List.getElem?_eq_some_iff.mp hk).1
      have hnot : stampWrap (stampMake v) = stampMake v := by
        refine if_neg fun heq => ?_
        rw [heq] at hmade
        change 65535 = _ at hmade
        omega
      have hleft : r.2.2 = stampMake v := by
        rcases mcastSendFrame_leaves hsend with hleft | hleft
        · exact hleft
        · exact hleft.trans hnot
      rw [hleft] at hrest
      rw [ih hrest (by rw [hmade]; omega) hk, hmade]
      omega

/-! ## The newest frame -/

/-- **A frame is given up for another one**: no slot is free, and among the frames in the three slots it is the one that
was sent first. -/
def GivesUp (sent : List Sent) (k : ℕ) (t : UInt32) (h : Heads) (usec : UInt32) : Prop :=
  h.Drops usec t ∧ ∀ i j g, sent[j]? = some g → (h.slot i).usec = g.stamp → k ≤ j

/-- **Newest first.**  A call returns the only complete frame that the receiver holds.  While the stamps do not begin
again, a part of a frame that was sent later than the last one returned stays after a call, or becomes complete and is
returned, or the frame is given up because another one comes while it is the first one of three. -/
theorem newest_first {v : McastSender} {sent : List Sent} (hsend : SenderRun v sent)
    {calls : List (List (Datagram × (ℕ → UInt8)))} {returned : List (Option UInt32)} {q : McastReceiver}
    (hrun : runOps receiveStamp mcastNewReceiver calls = .ok (returned, q))
    {arrivals : List (Datagram × (ℕ → UInt8))} {r : Option UInt32} {q' : McastReceiver}
    (hcall : receiveStamp q arrivals = .ok (r, q')) :
    ((r = none ∧ ∀ i, (q'.slot i).rdy = false) ∨
        ∃ i, r = some (q'.slot i).hdr.usec ∧ ∀ j, (q'.slot j).rdy = true ↔ j = i) ∧
      (v.stamp.toNat + sent.length ≤ 0xffff → ∀ k f, sent[k]? = some f → (heads q).HoldsPart f.stamp →
        (lastReturned returned = none ∨
          ∃ j g, sent[j]? = some g ∧ lastReturned returned = some g.stamp ∧ j < k) →
        (heads q').HoldsPart f.stamp ∨ r = some f.stamp ∨
          LoopMeets (GivesUp sent k f.stamp) (mcastReleaseSlots q) arrivals) := by
  constructor
  · rcases receiveStamp_ready hcall with ⟨hr, hnone, -⟩ | ⟨i, hone, hr⟩
    · exact .inl ⟨hr, hnone⟩
    · exact .inr ⟨i, hr, hone.1⟩
  · intro hwrap k f hk hpart hlater
    have hlast := runOps_last (show LastIs none mcastNewReceiver from rfl) hrun
    have hle : q.last ≤ f.stamp.toNat := by
      rcases hlater with hnone | ⟨j, g, hj, hg, hjk⟩
      · rw [lastReturned] at hnone
        rw [hnone] at hlast
        rw [show q.last = 0 from hlast]
        exact Nat.zero_le _
      · rw [lastReturned] at hg
        rw [hg] at hlast
        rw [show q.last = g.stamp.toNat from hlast, hsend.stamps hwrap hj, hsend.stamps hwrap hk]
        omega
    rcases recvLoop_part (release_noneReady q) (release_part hpart hle) (receiveStamp_cases hcall).1 with
      hstays | ⟨i, hone, hstamp⟩ | hdrops
    · exact .inl hstays
    · refine .inr (.inl ?_)
      rw [(receiveStamp_cases hcall).2, newestReady_one hone]
      exact congrArg some hstamp
    · refine .inr (.inr (hdrops.mono ?_))
      rintro h usec ⟨hfull, hheld, hleast⟩
      refine ⟨⟨hfull, hheld, hleast⟩, fun i j g hj hg => ?_⟩
      have hstamps := UInt32.le_iff_toNat_le.mp (hleast i)
      rw [hg, hsend.stamps hwrap hj, hsend.stamps hwrap hk] at hstamps
      omega

/-! ## Five frames -/

/-- A slot that is not in use has no buffer. -/
def Clean (q : McastReceiver) : Prop := ∀ i, (q.slot i).count = 0 → (q.slot i).buf = none

/-- The first chunk of a frame fits the buffer that is allocated for it. -/
def FirstFits (f : Sent) : Prop := 0 < f.chunks ∧ f.chunks ≤ 255 ∧ chunkSize ≤ f.room

/-- The first chunks of frames, as they arrive. -/
def firstChunks (fs : List Sent) : List (Datagram × (ℕ → UInt8)) := fs.map fun f => (f.datagram 0, fun _ => 255)

namespace Heads

/-- The first chunks of frames: stamps, and numbers of chunks. -/
def firsts (h : Heads) : List (UInt32 × ℕ) → Heads
  | [] => h
  | (usec, length) :: fs =>
    let (full, h') := h.packet usec length
    if full then h' else h'.firsts fs

/-- No slot has the stamp of one of them when it comes. -/
def Fresh : Heads → List (UInt32 × ℕ) → Prop
  | _, [] => True
  | h, (usec, length) :: fs => (∀ i, (h.slot i).usec ≠ usec) ∧ Fresh (h.packet usec length).2 fs

instance decidableFresh : (h : Heads) → (fs : List (UInt32 × ℕ)) → Decidable (h.Fresh fs)
  | _, [] => inferInstanceAs (Decidable True)
  | h, (usec, length) :: fs =>
    haveI := decidableFresh (h.packet usec length).2 fs
    inferInstanceAs (Decidable ((∀ i, (h.slot i).usec ≠ usec) ∧ _))

end Heads

section Evaluation

variable {q q' : McastReceiver} {f : Sent}

theorem heads_release (q : McastReceiver) : heads (mcastReleaseSlots q) = (heads q).release := by
  rw [heads, Heads.release]
  congr 1
  funext i
  show PacketBuffer.head (if _ then _ else _) = if _ then _ else _
  rw [apply_ite PacketBuffer.head]
  rfl

theorem Clean.release (h : Clean q) : Clean (mcastReleaseSlots q) := by
  intro i hcount
  by_cases hold : (q.slot i).rdy = true ∨ (q.slot i).hdr.usec.toNat < q.last
  · show PacketBuffer.buf (if _ then _ else _) = none
    rw [if_pos hold]
    rfl
  · have hkept : (mcastReleaseSlots q).slot i = q.slot i := if_neg hold
    rw [hkept] at hcount ⊢
    exact h i hcount

/-- The first chunk of a frame of which nothing is held. -/
theorem recvPacketFrame_first (hclean : Clean q) (hfits : FirstFits f) (hnew : ∀ i, ((heads q).slot i).usec ≠ f.stamp)
    (fill : ℕ → UInt8) :
    ∃ n q', mcastRecvPacketFrame q (f.datagram 0) fill = .ok (n, q') ∧ Clean q' ∧
      (heads q).packet f.stamp f.chunks = (decide (n = 2), heads q') := by
  obtain ⟨hpos, hchunks, hroom⟩ := hfits
  obtain ⟨hchosen, hothers⟩ := chooseSlot_cases q f.stamp
  have hfree : ((chooseSlot q f.stamp).2.slot (chooseSlot q f.stamp).1).buf = none := by
    rcases hchosen with ⟨hsame, hstamp | hcount⟩ | hreleased
    · exact absurd hstamp (hnew _)
    · rw [hsame]
      exact hclean _ hcount
    · rw [hreleased]
      rfl
  obtain ⟨⟨n, q'⟩, hrecv⟩ := (@recvPacketFrame_ok_iff q (f.datagram 0) fill (chunk_length 0)).mpr
    ((fits_datagram_iff hchunks hpos hfree).mpr hroom)
  have hheads := recvPacketFrame_heads hrecv
  rw [length_toNat hchunks] at hheads
  refine ⟨n, q', hrecv, fun j hcount => ?_, hheads⟩
  obtain ⟨mem, hwrite, -⟩ := bind_eq_ok.mp hrecv
  have hslots := (mcastRecvPacketFrame_eq hwrite).apply hrecv
  dsimp only at hslots
  rw [hslots] at hcount ⊢
  by_cases hj : j = (chooseSlot q (f.datagram 0).hdr.usec).1
  · rw [hj, Function.update_self] at hcount
    exact absurd hcount (Nat.succ_ne_zero _)
  · rw [Function.update_of_ne hj] at hcount ⊢
    have hkept : (chooseSlot q (f.datagram 0).hdr.usec).2.slot j = q.slot j := hothers j hj
    rw [hkept] at hcount ⊢
    exact hclean j hcount

/-- **First chunks** in the loop of a call. -/
theorem recvLoop_firsts {fs : List Sent} (hclean : Clean q) (hfits : ∀ f ∈ fs, FirstFits f)
    (hnew : (heads q).Fresh (fs.map fun f => (f.stamp, f.chunks))) :
    ∃ q', recvLoop q (firstChunks fs) = .ok q' ∧ Clean q' ∧
      heads q' = (heads q).firsts (fs.map fun f => (f.stamp, f.chunks)) := by
  induction fs generalizing q with
  | nil => exact ⟨q, rfl, hclean, rfl⟩
  | cons f fs ih =>
    obtain ⟨hf, hfs⟩ := List.forall_mem_cons.mp hfits
    rw [List.map_cons] at hnew ⊢
    obtain ⟨n, q₁, hrecv, hclean₁, hpacket⟩ := recvPacketFrame_first hclean hf hnew.1 fun _ => 255
    have hrest := hnew.2
    rw [hpacket] at hrest
    rw [firstChunks, List.map_cons, recvLoop, hrecv, ok_bind, Heads.firsts, hpacket]
    dsimp only
    by_cases hn : n = 2
    · rw [if_pos hn, if_pos (decide_eq_true hn)]
      exact ⟨q₁, rfl, hclean₁, rfl⟩
    · rw [if_neg hn, if_neg (by rw [decide_eq_true_iff]; exact hn)]
      exact ih hclean₁ hfs hrest

/-- **First chunks** in a call. -/
theorem receiveStamp_firsts {fs : List Sent} {l : List (UInt32 × ℕ)} {h h' : Heads} (hclean : Clean q)
    (hfits : ∀ f ∈ fs, FirstFits f) (hl : (fs.map fun f => (f.stamp, f.chunks)) = l) (hh : heads q = h)
    (hnew : h.release.Fresh l) (hh' : h.release.firsts l = h') :
    ∃ r q', receiveStamp q (firstChunks fs) = .ok (r, q') ∧ Clean q' ∧ heads q' = h' := by
  subst hl hh
  rw [← heads_release] at hnew hh'
  obtain ⟨q', hloop, hclean', hheads⟩ := recvLoop_firsts hclean.release hfits hnew
  rw [receiveStamp, mcastRecvFrame, hloop, ok_bind]
  cases newestReady q' with
  | none => exact ⟨_, q', rfl, hclean', hheads.trans hh'⟩
  | some i => exact ⟨_, q', rfl, hclean', hheads.trans hh'⟩

/-- The run of a sender, one call earlier. -/
theorem SenderRun.cons {v : McastSender} {sent : List Sent} {d : Datagram} (hstamp : (stampMake v).stamp = f.stamp)
    (hemits : f.Emits d) (hwrap : f.stamp ≠ 0xffff) (h : SenderRun (stampMake v) sent) : SenderRun v (f :: sent) := by
  obtain ⟨⟨s⟩, rest, res, r, hs, hsend, -⟩ := hemits
  have hsame : s = v.stamp := add_right_cancel (hs.trans hstamp.symm)
  rw [hsame] at hsend
  refine ⟨hstamp, rest, res, r, hsend, ?_⟩
  have hleft : r.2.2 = stampMake v := by
    rcases mcastSendFrame_leaves hsend with hleft | hleft
    · exact hleft
    · refine hleft.trans (if_neg ?_)
      rw [hstamp]
      exact hwrap
  rw [hleft]
  exact h

theorem receiveStamp_none {arrivals : List (Datagram × (ℕ → UInt8))} {r : Option UInt32} (hnone : (heads q').NoneReady)
    (h : receiveStamp q arrivals = .ok (r, q')) : r = none := by
  rw [(receiveStamp_cases h).2, newestReady_none hnone]
  rfl

theorem receiveStamp_one {arrivals : List (Datagram × (ℕ → UInt8))} {r : Option UInt32} {i : Fin 3}
    (hone : (heads q').OneReady i) (h : receiveStamp q arrivals = .ok (r, q')) : r = some ((heads q').slot i).usec := by
  rw [(receiveStamp_cases h).2, newestReady_one hone]
  rfl

end Evaluation

/-- A frame of one chunk, the first that is sent. -/
def firstFrame : Sent := { threeBytes with stamp := 1 }

/-- A frame of two chunks. -/
def laterFrame (stamp : UInt32) : Sent := { twoChunks with stamp := stamp }

/-- Five frames. -/
def fiveFrames : List Sent := [firstFrame, laterFrame 2, laterFrame 3, laterFrame 4, laterFrame 5]

theorem firstFrame_emits : firstFrame.Emits (firstFrame.datagram 0) :=
  ⟨⟨0⟩, [], fun _ => 1, _, rfl, rfl, List.mem_singleton.mpr rfl⟩

theorem firstFrame_fits : FirstFits firstFrame := ⟨by decide, by decide, by decide⟩

theorem laterFrame_count (stamp : UInt32) : (laterFrame stamp).chunks = 2 := twoChunks_count

theorem laterFrame_emits (stamp : UInt32) : (laterFrame stamp).Emits ((laterFrame stamp).datagram 0) := by
  have hlen : (laterFrame stamp).bytes.length = 2000 := twoChunks_length
  have hsize : chunkSize = 1468 := rfl
  exact emits_of_full (by omega) (by rw [laterFrame_count]; norm_num) (by omega)

theorem laterFrame_fits (stamp : UInt32) : FirstFits (laterFrame stamp) := by
  refine ⟨by rw [laterFrame_count]; norm_num, by rw [laterFrame_count]; norm_num, ?_⟩
  show chunkSize ≤ 32 * 32 * 3
  decide

theorem fiveFrames_sent : SenderRun ⟨0⟩ fiveFrames :=
  .cons rfl firstFrame_emits (by decide) <| .cons rfl (laterFrame_emits 2) (by decide) <|
    .cons rfl (laterFrame_emits 3) (by decide) <| .cons rfl (laterFrame_emits 4) (by decide) <|
      .cons rfl (laterFrame_emits 5) (by decide) trivial

/-- The slots after the first frame. -/
def afterFirst : Heads := ⟨![⟨1, 1, true⟩, ⟨0, 0, false⟩, ⟨0, 0, false⟩], 1⟩

/-- The slots with the next three. -/
def threeHeld : Heads := ⟨![⟨2, 1, false⟩, ⟨3, 1, false⟩, ⟨4, 1, false⟩], 1⟩

/-- The slots after the last frame. -/
def secondDropped : Heads := ⟨![⟨5, 1, false⟩, ⟨3, 1, false⟩, ⟨4, 1, false⟩], 1⟩

/-- **The first chunks of five frames**: the first frame is returned, the next three fill the slots, and for the last one
the second is given up. -/
theorem fiveFrames_run :
    ∃ q r q', runOps receiveStamp mcastNewReceiver
        [firstChunks [firstFrame], firstChunks [laterFrame 2, laterFrame 3, laterFrame 4]] = .ok ([some 1, none], q) ∧
      receiveStamp q (firstChunks [laterFrame 5]) = .ok (r, q') ∧ (heads q).HoldsPart 2 ∧
      ¬ ((heads q').HoldsPart 2 ∨ r = some 2) := by
  have hclean : Clean mcastNewReceiver := fun _ _ => rfl
  obtain ⟨r₁, q₁, hcall₁, hclean₁, hheads₁⟩ := @receiveStamp_firsts _ [firstFrame] [(1, 1)] _ afterFirst hclean
    (by simp only [List.forall_mem_singleton, firstFrame_fits]) rfl rfl (by decide)
    (Heads.ext (funext (by decide)) (by decide))
  obtain ⟨r₂, q₂, hcall₂, hclean₂, hheads₂⟩ := @receiveStamp_firsts _ [laterFrame 2, laterFrame 3, laterFrame 4]
    [(2, 2), (3, 2), (4, 2)] _ threeHeld hclean₁
    (by simp only [List.forall_mem_cons, laterFrame_fits]; simp)
    (by simp only [List.map_cons, laterFrame_count]; rfl) hheads₁ (by decide)
    (Heads.ext (funext (by decide)) (by decide))
  obtain ⟨r₃, q₃, hcall₃, hclean₃, hheads₃⟩ := @receiveStamp_firsts _ [laterFrame 5] [(5, 2)] _ secondDropped hclean₂
    (by simp only [List.forall_mem_singleton, laterFrame_fits])
    (by simp only [List.map_cons, laterFrame_count]; rfl) hheads₂ (by decide)
    (Heads.ext (funext (by decide)) (by decide))
  have hfirst : r₁ = some 1 := by
    rw [receiveStamp_one (hheads₁ ▸ (show afterFirst.OneReady 0 from ⟨by decide, rfl⟩)) hcall₁, hheads₁]
    rfl
  have hnext : r₂ = none := receiveStamp_none (hheads₂ ▸ (show threeHeld.NoneReady by rw [Heads.NoneReady]; decide)) hcall₂
  have hlast : r₃ = none := receiveStamp_none (hheads₃ ▸ (show secondDropped.NoneReady by rw [Heads.NoneReady]; decide)) hcall₃
  refine ⟨q₂, r₃, q₃, ?_, hcall₃, ?_, ?_⟩
  · rw [runOps, hcall₁, ok_bind, runOps, hcall₂, hfirst, hnext]
    rfl
  · rw [hheads₂]
    exact ⟨0, by decide⟩
  · rw [hheads₃, hlast]
    rintro (⟨i, hi⟩ | hsome)
    · revert i
      decide
    · cases hsome

/-- **Not every frame that was sent later is kept**: the second one is given up for the fifth. -/
theorem not_newest_first : ¬ ∀ (v : McastSender) (sent : List Sent), SenderRun v sent →
    ∀ (calls : List (List (Datagram × (ℕ → UInt8)))) (returned : List (Option UInt32)) (q : McastReceiver),
    (∀ arrivals ∈ calls, ∀ a ∈ arrivals, ∃ f ∈ sent, f.Emits a.1) →
    runOps receiveStamp mcastNewReceiver calls = .ok (returned, q) →
    ∀ (arrivals : List (Datagram × (ℕ → UInt8))) (r : Option UInt32) (q' : McastReceiver),
    (∀ a ∈ arrivals, ∃ f ∈ sent, f.Emits a.1) → receiveStamp q arrivals = .ok (r, q') →
    ∀ (k : ℕ) (f : Sent), sent[k]? = some f → (heads q).HoldsPart f.stamp →
      (lastReturned returned = none ∨ ∃ (j : ℕ) (g : Sent), sent[j]? = some g ∧ lastReturned returned = some g.stamp ∧ j < k) →
      (heads q').HoldsPart f.stamp ∨ r = some f.stamp := by
  intro h
  obtain ⟨q, r, q', hrun, hcall, hpart, hgone⟩ := fiveFrames_run
  have hfirsts : ∀ fs : List Sent, (∀ f ∈ fs, f ∈ fiveFrames ∧ f.Emits (f.datagram 0)) →
      ∀ a ∈ firstChunks fs, ∃ f ∈ fiveFrames, f.Emits a.1 := by
    intro fs hfs a ha
    obtain ⟨f, hf, rfl⟩ := List.mem_map.mp ha
    exact ⟨f, hfs f hf⟩
  refine hgone (h ⟨0⟩ fiveFrames fiveFrames_sent _ _ q ?_ hrun _ r q' ?_ hcall 1 (laterFrame 2) rfl hpart
    (.inr ⟨0, firstFrame, rfl, rfl, Nat.one_pos⟩))
  · refine List.forall_mem_cons.mpr ⟨hfirsts _ ?_, List.forall_mem_singleton.mpr (hfirsts _ ?_)⟩
    · simp [fiveFrames, firstFrame_emits]
    · simp [fiveFrames, laterFrame_emits]
  · refine hfirsts _ ?_
    simp [fiveFrames, laterFrame_emits]

/-- There the second frame is the first one of three when the fifth comes. -/
theorem fiveFrames_newest :
    ∃ q arrivals, (heads q).HoldsPart 2 ∧ LoopMeets (GivesUp fiveFrames 1 2) (mcastReleaseSlots q) arrivals := by
  obtain ⟨q, r, q', hrun, hcall, hpart, hgone⟩ := fiveFrames_run
  have hkept := (newest_first fiveFrames_sent hrun hcall).2 (by decide) 1 (laterFrame 2) rfl hpart
    (.inr ⟨0, firstFrame, rfl, rfl, Nat.one_pos⟩)
  rw [← or_assoc] at hkept
  exact ⟨q, _, hpart, hkept.resolve_left hgone⟩

end Veejay.Net
