import Veejay.Net.Reassembly

/-!
# Where multicast chunks are written

The receiver writes a chunk at the place that its sequence number says, into a buffer of the size that the first
datagram of the slot has declared.  Neither is checked against the other (`mcast_recv_packet_frame`).

* `PacketBuffer.room` — the size of the buffer that a datagram goes to;
* `Fits` — a whole chunk has its place there;
* `recvPacketFrame_ok_iff`, `recvLoop_ok_iff` — one datagram, and the loop of a call;
* `chunks_inside_iff` — **nothing is written outside in any run of calls exactly if** every datagram fits;
* `fits_datagram_iff` — the last chunk of a frame is written as a whole, so that the buffer has to hold whole chunks.
-/

namespace Veejay.Net

open CLib

/-! ## The condition -/

/-- The size of the buffer of a slot, allocated if needed. -/
def PacketBuffer.room (pb : PacketBuffer) (inf : FrameInfo) : ℕ :=
  match pb.buf with
  | some mem => mem.length
  | none => inf.width.toNat * inf.height.toNat * 3

/-- **The condition** on a datagram: its slot has room for the chunk of its number. -/
def Fits (q : McastReceiver) (d : Datagram) : Prop :=
  chunkSize * (d.hdr.seqNum.toNat + 1) ≤
    ((chooseSlot q d.hdr.usec).2.slot (chooseSlot q d.hdr.usec).1).room d.inf

/-- The datagrams that a call receives fit. -/
def ArrivalsFit : McastReceiver → List (Datagram × (ℕ → UInt8)) → Prop
  | _, [] => True
  | q, (d, fill) :: arrivals =>
    Fits q d ∧ ∀ n q', mcastRecvPacketFrame q d fill = .ok (n, q') → n ≠ 2 → ArrivalsFit q' arrivals

/-- The condition on a call. -/
def CallFits (q : McastReceiver) (arrivals : List (Datagram × (ℕ → UInt8))) : Prop :=
  ArrivalsFit (mcastReleaseSlots q) arrivals

/-- A datagram has `CHUNK_SIZE` bytes behind the headers. -/
def WholeChunks (arrivals : List (Datagram × (ℕ → UInt8))) : Prop := ∀ a ∈ arrivals, a.1.data.length = chunkSize

/-! ## Datagrams and calls -/

section Calls

variable {q : McastReceiver} {d : Datagram} {fill : ℕ → UInt8}

theorem memory_length (pb : PacketBuffer) (fill : ℕ → UInt8) (inf : FrameInfo) :
    (pb.memory fill inf).length = pb.room inf := by
  rw [PacketBuffer.memory, PacketBuffer.room]
  cases pb.buf with
  | none => exact malloc_length ..
  | some mem => rfl

/-- **One datagram** is written inside the buffer exactly if it fits. -/
theorem recvPacketFrame_ok_iff (hdata : d.data.length = chunkSize) :
    (∃ a, mcastRecvPacketFrame q d fill = .ok a) ↔ Fits q d := by
  have hplace : chunkSize * (d.hdr.seqNum.toNat + 1) = chunkSize * d.hdr.seqNum.toNat + d.data.length := by
    rw [hdata, Nat.mul_succ]
  rw [Fits, hplace, ← memory_length _ fill]
  constructor
  · rintro ⟨a, h⟩
    obtain ⟨mem, hwrite, -⟩ := bind_eq_ok.mp h
    exact (overwrite_eq_ok.mp hwrite).1
  · intro h
    obtain ⟨a, ha, -⟩ := @mcastRecvPacketFrame_eq d q fill _ (overwrite_eq_ok.mpr ⟨h, rfl⟩)
    exact ⟨a, ha⟩

theorem recvLoop_ok_iff {arrivals : List (Datagram × (ℕ → UInt8))} (hdata : WholeChunks arrivals) :
    (∃ q', recvLoop q arrivals = .ok q') ↔ ArrivalsFit q arrivals := by
  induction arrivals generalizing q with
  | nil => exact ⟨fun _ => trivial, fun _ => ⟨q, rfl⟩⟩
  | cons a arrivals ih =>
    obtain ⟨d, fill⟩ := a
    obtain ⟨hd, hrest⟩ := List.forall_mem_cons.mp hdata
    rw [ArrivalsFit, ← @recvPacketFrame_ok_iff q d fill hd]
    constructor
    · rintro ⟨q', h⟩
      obtain ⟨⟨n, q₁⟩, hrecv, h⟩ := bind_eq_ok.mp h
      refine ⟨⟨_, hrecv⟩, fun n' q₂ hrecv' hn => (ih hrest).mp ?_⟩
      obtain ⟨rfl, rfl⟩ := Prod.mk.inj (Except.ok.inj (hrecv.symm.trans hrecv'))
      dsimp only at h
      rw [if_neg hn] at h
      exact ⟨q', h⟩
    · rintro ⟨⟨⟨n, q₁⟩, hrecv⟩, h⟩
      rw [recvLoop, hrecv, ok_bind]
      dsimp only
      split_ifs with hn
      · exact ⟨q₁, rfl⟩
      · exact (ih hrest).mpr (h n q₁ hrecv hn)

theorem recvFrame_ok_iff {arrivals : List (Datagram × (ℕ → UInt8))} (hdata : WholeChunks arrivals) :
    (∃ a, mcastRecvFrame q arrivals = .ok a) ↔ CallFits q arrivals := by
  rw [CallFits, ← recvLoop_ok_iff hdata]
  constructor
  · rintro ⟨a, h⟩
    obtain ⟨q', hloop, -⟩ := bind_eq_ok.mp h
    exact ⟨q', hloop⟩
  · rintro ⟨q', hloop⟩
    rw [mcastRecvFrame, hloop, ok_bind]
    cases newestReady q' with
    | none => exact ⟨_, rfl⟩
    | some i => exact ⟨_, rfl⟩

end Calls

/-- **Every chunk is written inside the buffer of its slot**, in any run of calls of `mcast_recv_frame`, exactly if every
datagram that is received fits: the receiver itself checks nothing. -/
theorem chunks_inside_iff (q : McastReceiver) (calls : List (List (Datagram × (ℕ → UInt8))))
    (hdata : ∀ arrivals ∈ calls, WholeChunks arrivals) :
    (Ensures (runOps mcastRecvFrame q calls) fun _ => True) ↔ RunMeets mcastRecvFrame CallFits q calls :=
  runOps_ok_iff (fun q arrivals harrivals => @recvFrame_ok_iff q arrivals harrivals) calls q hdata

/-- **A chunk of a frame that was sent** fits a slot that is not in use exactly if the buffer holds all chunks up to it as
whole ones. -/
theorem fits_datagram_iff {f : Sent} {k : ℕ} (hchunks : f.chunks ≤ 255) (hk : k < f.chunks) {q : McastReceiver}
    (hfree : ((chooseSlot q f.stamp).2.slot (chooseSlot q f.stamp).1).buf = none) :
    Fits q (f.datagram k) ↔ chunkSize * (k + 1) ≤ f.room := by
  rw [Fits, seqNum_toNat hchunks hk]
  have hroom : ((chooseSlot q (f.datagram k).hdr.usec).2.slot (chooseSlot q (f.datagram k).hdr.usec).1).room
      (f.datagram k).inf = f.room := by
    have hbuf : ((chooseSlot q (f.datagram k).hdr.usec).2.slot (chooseSlot q (f.datagram k).hdr.usec).1).buf = none :=
      hfree
    rw [PacketBuffer.room, hbuf]
    rfl
  rw [hroom]

/-! ## Two small pictures -/

theorem wholeChunks_datagram (f : Sent) (k : ℕ) (fill : ℕ → UInt8) : WholeChunks [(f.datagram k, fill)] := by
  intro a ha
  rw [List.mem_singleton.mp ha]
  exact chunk_length k

/-- The buffer of a picture of 32 by 16 has room for one chunk. -/
theorem threeBytes_inside :
    Ensures (runOps mcastRecvFrame mcastNewReceiver [[(threeBytes.datagram 0, fun _ => 255)]]) fun _ => True := by
  refine (chunks_inside_iff mcastNewReceiver _ ?_).mpr ⟨⟨?_, fun _ _ _ _ => trivial⟩, fun _ _ _ => trivial⟩
  · intro arrivals harrivals
    rw [List.mem_singleton.mp harrivals]
    exact wholeChunks_datagram _ _ _
  · exact (fits_datagram_iff (by decide) (by decide) rfl).mpr (by decide)

/-- A picture of two by two. -/
def fourPixels : Sent where
  stamp := 2
  frame := ⟨2, 2, 0⟩
  bytes := List.replicate 12 1
  ms := 40
  mode := 0

theorem fourPixels_emits : fourPixels.Emits (fourPixels.datagram 0) :=
  ⟨⟨1⟩, [], fun _ => 1, _, rfl, rfl, List.mem_singleton.mpr rfl⟩

/-- **The one chunk of a small picture** is written past the end of its buffer. -/
theorem not_chunks_inside : ¬ ∀ (sent : List Sent) (calls : List (List (Datagram × (ℕ → UInt8)))),
    (∀ arrivals ∈ calls, ∀ a ∈ arrivals, ∃ f ∈ sent, f.Emits a.1) →
    Ensures (runOps mcastRecvFrame mcastNewReceiver calls) fun _ => True := by
  intro h
  obtain ⟨a, ha, -⟩ := h [fourPixels] [[(fourPixels.datagram 0, fun _ => 255)]] (by
    intro arrivals harrivals b hb
    rw [List.mem_singleton.mp harrivals] at hb
    rw [List.mem_singleton.mp hb]
    exact ⟨fourPixels, List.mem_cons_self, fourPixels_emits⟩)
  obtain ⟨r, hr, -⟩ := bind_eq_ok.mp ha
  have hfits := ((recvFrame_ok_iff (wholeChunks_datagram fourPixels 0 _)).mp ⟨r, hr⟩).1
  exact absurd ((fits_datagram_iff (by decide) (by decide) rfl).mp hfits) (by decide)

end Veejay.Net
