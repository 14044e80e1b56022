import Veejay.Net.Multicast

/-!
# Putting multicast frames together

The receiver decides by counting that a frame is complete: as many datagrams with the stamp of the frame as
the header announces.  A datagram that arrives twice is counted twice, and the number of chunks is kept in
eight bits.

* `Sent` — a frame and its stamp, with the datagrams that the sender makes of it (`Sent.emits_datagram`);
* `watchStep` — the receiver, watched: which chunks were put in each slot since it was taken;
* `Assembles` — **the invariant** of a slot;
* `Once` — **the condition**: no datagram arrives again while its frame is being put together;
* `slots_assembled` — a slot that is marked ready holds the frame;
* `mcastRecvFrame_returns` — what the calls of the receiver return, one after the other, are frames that were sent.
-/

namespace Veejay.Net

open CLib

/-! ## What the sender makes of a frame -/

/-- The number of chunks of a frame. -/
def chunkCount (len : ℕ) : ℕ :=
  if len ≤ chunkSize then 1 else len / chunkSize + if 0 < len % chunkSize then 1 else 0

/-- A call of `mcast_send_frame`: the stamp that it made, and its arguments. -/
structure Sent where
  stamp : UInt32
  frame : VJFrame
  bytes : List UInt8
  ms : ℤ
  mode : UInt8

namespace Sent

variable (f : Sent)

def info : FrameInfo := frameInfo f.frame f.bytes.length f.mode

def chunks : ℕ := chunkCount f.bytes.length

/-- The size of the buffer that the receiver allocates. -/
def room : ℕ := f.info.width.toNat * f.info.height.toNat * 3

/-- The bytes of a chunk. -/
def chunk (k : ℕ) : List UInt8 := paddedChunk ((f.bytes.drop (k * chunkSize)).take chunkSize)

/-- The datagram of a chunk. -/
def datagram (k : ℕ) : Datagram where
  hdr := { frameHeader f.stamp f.ms f.chunks with seqNum := UInt8.ofNat k }
  inf := f.info
  data := f.chunk k

/-- The call sends the datagram; its buffer may be longer than the frame. -/
def Emits (d : Datagram) : Prop :=
  ∃ v rest res r, (stampMake v).stamp = f.stamp ∧
    mcastSendFrame v f.frame (f.bytes ++ rest) f.bytes.length f.ms f.mode res = .ok r ∧ d ∈ r.2.1

/-- The buffers admit the frame: its length is an `int`, and its chunks fit the receiver's buffer. -/
def Admitted : Prop := f.bytes.length < 2 ^ 31 ∧ f.chunks * chunkSize ≤ f.room

end Sent

variable {f : Sent} {sent : List Sent} {d : Datagram}

theorem chunkSize_pos : 0 < chunkSize := by decide

theorem chunk_length (k : ℕ) : (f.chunk k).length = chunkSize := by
  rw [Sent.chunk, paddedChunk, List.length_append, List.length_replicate, List.length_take]
  omega

/-- The chunks hold all bytes of the frame. -/
theorem length_le_chunks (f : Sent) : f.bytes.length ≤ f.chunks * chunkSize := by
  unfold Sent.chunks chunkCount
  split_ifs with hone hleft
  · omega
  · have hdiv := Nat.div_add_mod' f.bytes.length chunkSize
    have hmod := Nat.mod_lt f.bytes.length chunkSize_pos
    rw [Nat.add_mul]
    omega
  · have hdiv := Nat.div_add_mod' f.bytes.length chunkSize
    rw [Nat.add_zero]
    omega

theorem sendChunks_mem {res : ℕ → ℤ} {header : PacketHeader} {info : FrameInfo} {buf : List UInt8}
    {i n : ℕ} {r : Bool × List Datagram} (h : sendChunks res header info buf i n = .ok r)
    (hd : d ∈ r.2) :
    ∃ k, i ≤ k ∧ k < i + n ∧
      d = ⟨{ header with seqNum := UInt8.ofNat k }, info, (buf.drop (k * chunkSize)).take chunkSize⟩ := by
  induction n generalizing i r with
  | zero =>
    obtain rfl := Except.ok.inj h
    cases hd
  | succ n ih =>
    obtain ⟨data, hdata, h⟩ := bind_eq_ok.mp h
    split_ifs at h with hres
    · obtain rfl := Except.ok.inj h
      cases hd
    · obtain ⟨⟨all, rest⟩, hrec, h⟩ := bind_eq_ok.mp h
      obtain rfl := Except.ok.inj h
      rcases List.mem_cons.mp hd with rfl | hd
      · obtain ⟨-, rfl⟩ := slice_eq_ok.mp hdata
        refine ⟨i, le_rfl, by omega, ?_⟩
        rw [show ((i : ℤ) * (chunkSize : ℤ)).toNat = i * chunkSize from by
          rw [← Nat.cast_mul, Int.toNat_natCast]]
      · obtain ⟨k, hlow, hhigh, hk⟩ := ih hrec hd
        exact ⟨k, by omega, by omega, hk⟩

theorem paddedChunk_full {data : List UInt8} (h : data.length = chunkSize) : paddedChunk data = data := by
  rw [paddedChunk, h, Nat.sub_self, List.replicate_zero, List.append_nil]

/-- A chunk in front of the last one is full. -/
theorem chunk_of_full {k : ℕ} (hk : (k + 1) * chunkSize ≤ f.bytes.length) (rest : List UInt8) :
    ((f.bytes ++ rest).drop (k * chunkSize)).take chunkSize = f.chunk k := by
  rw [Nat.add_mul, Nat.one_mul] at hk
  rw [List.drop_append_of_le_length (by omega), List.take_append_of_le_length (by
    rw [List.length_drop]; omega), Sent.chunk, paddedChunk_full]
  rw [List.length_take, List.length_drop]
  omega

/-- The index of the last chunk, as it is read off the header. -/
theorem lastIndex (hchunks : f.chunks ≤ 255) (hcount : f.chunks = f.bytes.length / chunkSize + 1) :
    ((frameHeader f.stamp f.ms f.chunks).length.toNat : ℤ) - 1 = (f.bytes.length / chunkSize : ℕ) := by
  show (((UInt8.ofNat f.chunks).toNat : ℕ) : ℤ) - 1 = _
  rw [UInt8.toNat_ofNat', Nat.mod_eq_of_lt (by omega)]
  omega

/-- The last chunk, if it is not full: its place is read off the number of chunks in the header. -/
theorem lastDatagram (hchunks : f.chunks ≤ 255) (hcount : f.chunks = f.bytes.length / chunkSize + 1)
    (rest : List UInt8) :
    (⟨{ frameHeader f.stamp f.ms f.chunks with
          seqNum := UInt8.ofInt (((frameHeader f.stamp f.ms f.chunks).length.toNat : ℤ) - 1) }, f.info,
        paddedChunk (((f.bytes ++ rest).drop ((((frameHeader f.stamp f.ms f.chunks).length.toNat : ℤ) - 1)
          * chunkSize).toNat).take (f.bytes.length % chunkSize))⟩ : Datagram)
      = f.datagram (f.bytes.length / chunkSize) := by
  have hdiv := Nat.div_add_mod' f.bytes.length chunkSize
  have hmod := Nat.mod_lt f.bytes.length chunkSize_pos
  have hseq : UInt8.ofInt ((f.bytes.length / chunkSize : ℕ) : ℤ) = UInt8.ofNat (f.bytes.length / chunkSize) := by
    rw [UInt8.ofInt, Int.emod_eq_of_lt (Int.natCast_nonneg _) (by omega), Int.toNat_natCast]
  have hplace : (((f.bytes.length / chunkSize : ℕ) : ℤ) * (chunkSize : ℤ)).toNat
      = f.bytes.length / chunkSize * chunkSize := by
    rw [← Nat.cast_mul, Int.toNat_natCast]
  rw [lastIndex hchunks hcount, hplace, hseq, List.drop_append_of_le_length (by omega),
    List.take_left' (by rw [List.length_drop]; omega), Sent.datagram, Sent.chunk,
    List.take_of_length_le (by rw [List.length_drop]; omega)]

/-- **The datagrams of a frame** of at most 255 chunks. -/
theorem emits_datagram (hchunks : f.chunks ≤ 255) (h : f.Emits d) : ∃ k < f.chunks, d = f.datagram k := by
  obtain ⟨v, rest, res, r, hstamp, hsend, hd⟩ := h
  unfold mcastSendFrame at hsend
  dsimp only at hsend
  rw [hstamp] at hsend
  by_cases hone : f.bytes.length ≤ chunkSize
  · rw [if_pos hone] at hsend
    obtain ⟨data, hdata, hsend⟩ := bind_eq_ok.mp hsend
    have hcount : f.chunks = 1 := by rw [Sent.chunks, chunkCount, if_pos hone]
    by_cases hres : res 0 ≤ 0
    · rw [if_pos hres] at hsend
      obtain rfl := Except.ok.inj hsend
      cases hd
    · rw [if_neg hres] at hsend
      obtain rfl := Except.ok.inj hsend
      obtain rfl := List.mem_singleton.mp hd
      obtain ⟨-, rfl⟩ := slice_eq_ok.mp hdata
      refine ⟨0, by omega, ?_⟩
      rw [Sent.datagram, hcount, Sent.chunk, Nat.zero_mul, List.drop_zero, List.take_of_length_le hone,
        Int.toNat_zero, List.drop_zero, List.take_left' rfl]
      rfl
  · have hcount : f.chunks = f.bytes.length / chunkSize + if 0 < f.bytes.length % chunkSize then 1 else 0 := by
      rw [Sent.chunks, chunkCount, if_neg hone]
    have hdiv := Nat.div_add_mod' f.bytes.length chunkSize
    rw [if_neg hone, ← hcount] at hsend
    obtain ⟨⟨all, full⟩, hfull, hsend⟩ := bind_eq_ok.mp hsend
    have hmem : ∀ e ∈ full, ∃ k < f.chunks, e = f.datagram k := by
      intro e he
      obtain ⟨k, -, hk, rfl⟩ := sendChunks_mem hfull he
      have hle : (k + 1) * chunkSize ≤ f.bytes.length := by
        have hmul := Nat.mul_le_mul_right chunkSize (show k + 1 ≤ f.bytes.length / chunkSize by omega)
        omega
      refine ⟨k, by omega, ?_⟩
      rw [chunk_of_full hle]
      rfl
    dsimp only at hsend
    by_cases hall : all = false
    · rw [if_pos hall] at hsend
      obtain rfl := Except.ok.inj hsend
      exact hmem d hd
    · rw [if_neg hall] at hsend
      by_cases hleft : f.bytes.length % chunkSize = 0
      · rw [if_pos hleft] at hsend
        obtain rfl := Except.ok.inj hsend
        exact hmem d hd
      · rw [if_neg hleft] at hsend
        obtain ⟨data, hdata, hsend⟩ := bind_eq_ok.mp hsend
        by_cases hres : res (f.bytes.length / chunkSize) ≤ 0
        · rw [if_pos hres] at hsend
          obtain rfl := Except.ok.inj hsend
          exact hmem d hd
        · rw [if_neg hres] at hsend
          obtain rfl := Except.ok.inj hsend
          rcases List.mem_append.mp hd with hd | hd
          · exact hmem d hd
          · obtain rfl := List.mem_singleton.mp hd
            obtain ⟨-, rfl⟩ := slice_eq_ok.mp hdata
            rw [if_pos (Nat.pos_of_ne_zero hleft)] at hcount
            exact ⟨f.bytes.length / chunkSize, by omega, lastDatagram hchunks hcount rest⟩

/-- If every `sendto` succeeds, every full chunk is sent. -/
theorem sendChunks_all (header : PacketHeader) (info : FrameInfo) (buf : List UInt8) (i n : ℕ)
    (hlen : (i + n) * chunkSize ≤ buf.length) :
    sendChunks (fun _ => 1) header info buf i n = .ok (true, (List.range' i n).map fun k =>
      ⟨{ header with seqNum := UInt8.ofNat k }, info, (buf.drop (k * chunkSize)).take chunkSize⟩) := by
  induction n generalizing i with
  | zero => rfl
  | succ n ih =>
    have hslice : slice buf ((i : ℤ) * (chunkSize : ℤ)) chunkSize
        = .ok ((buf.drop (i * chunkSize)).take chunkSize) := by
      rw [← Nat.cast_mul, slice_eq_ok, Int.toNat_natCast]
      have hmul := Nat.mul_le_mul_right chunkSize (show i + 1 ≤ i + (n + 1) by omega)
      rw [Nat.add_mul, Nat.one_mul] at hmul
      exact ⟨Or.inr ⟨Int.natCast_nonneg _, by push_cast at hmul hlen ⊢; omega⟩, rfl⟩
    rw [sendChunks, hslice, ok_bind, if_neg (by decide),
      ih (i + 1) (by rw [show i + 1 + n = i + (n + 1) from by omega]; exact hlen), ok_bind,
      List.range'_succ, List.map_cons]

/-- The frame's datagrams are sent, when every `sendto` succeeds. -/
theorem emits_of_full {k : ℕ} (hone : ¬f.bytes.length ≤ chunkSize) (hchunks : f.chunks ≤ 255)
    (hk : (k + 1) * chunkSize ≤ f.bytes.length) : f.Emits (f.datagram k) := by
  have hdiv := Nat.div_add_mod' f.bytes.length chunkSize
  have hmod := Nat.mod_lt f.bytes.length chunkSize_pos
  have hlt : k < f.bytes.length / chunkSize := (Nat.le_div_iff_mul_le chunkSize_pos).mpr hk
  have hcount : f.chunks = f.bytes.length / chunkSize + if 0 < f.bytes.length % chunkSize then 1 else 0 := by
    rw [Sent.chunks, chunkCount, if_neg hone]
  have hsend := sendChunks_all (frameHeader f.stamp f.ms f.chunks) f.info (f.bytes ++ []) 0
    (f.bytes.length / chunkSize) (by rw [List.append_nil, Nat.zero_add]; omega)
  have hmem : f.datagram k ∈ (List.range' 0 (f.bytes.length / chunkSize)).map fun k =>
      (⟨{ frameHeader f.stamp f.ms f.chunks with seqNum := UInt8.ofNat k }, f.info,
        ((f.bytes ++ []).drop (k * chunkSize)).take chunkSize⟩ : Datagram) := by
    refine List.mem_map.mpr ⟨k, List.mem_range'_1.mpr ⟨Nat.zero_le k, by omega⟩, ?_⟩
    rw [chunk_of_full hk]
    rfl
  have hstamp : (stampMake ⟨f.stamp - 1⟩).stamp = f.stamp := UInt32.sub_add_cancel f.stamp 1
  refine ⟨⟨f.stamp - 1⟩, [], fun _ => 1, ?_⟩
  rw [mcastSendFrame]
  dsimp only
  rw [hstamp, if_neg hone, ← hcount]
  change ∃ r, f.stamp = f.stamp ∧ (sendChunks _ _ f.info _ _ _ >>= _) = _ ∧ _
  rw [hsend, ok_bind]
  dsimp only
  rw [if_neg (by decide)]
  by_cases hleft : f.bytes.length % chunkSize = 0
  · rw [if_pos hleft]
    exact ⟨_, rfl, rfl, hmem⟩
  · rw [if_pos (Nat.pos_of_ne_zero hleft)] at hcount
    obtain ⟨data, hslice⟩ : ∃ data, slice (f.bytes ++ [])
        (((f.bytes.length / chunkSize : ℕ) : ℤ) * (chunkSize : ℤ)) (f.bytes.length % chunkSize) = .ok data := by
      rw [← Nat.cast_mul, List.append_nil]
      exact ⟨_, slice_eq_ok.mpr ⟨Or.inr ⟨Int.natCast_nonneg _, by omega⟩, rfl⟩⟩
    rw [if_neg hleft, lastIndex hchunks hcount, hslice, ok_bind, if_neg (by decide)]
    exact ⟨_, rfl, rfl, List.mem_append_left _ hmem⟩

/-! ## The receiver, watched -/

/-- The receiver, and the sequence numbers that were put in each slot since it was taken. -/
abbrev Watched := McastReceiver × (Fin 3 → List ℕ)

/-- A new receiver. -/
def watchNew : Watched := (mcastNewReceiver, fun _ => [])

/-- What happens to the receiver: `mcast_recv_frame` begins, or a datagram is received, with what is in the
memory that may have to be allocated for it. -/
inductive Event where
  | begin
  | packet (d : Datagram) (fill : ℕ → UInt8)

/-- The sequence numbers of a slot with one more datagram. -/
def heldWith (pb : PacketBuffer) (held : List ℕ) (d : Datagram) : List ℕ :=
  if pb.count = 0 then [d.hdr.seqNum.toNat] else d.hdr.seqNum.toNat :: held

def watchStep (st : Watched) : Event → Exec (ℕ × Watched)
  | .begin =>
    let q := mcastReleaseSlots st.1
    .ok (0, (q, fun i => if (q.slot i).count = 0 then [] else st.2 i))
  | .packet d fill => do
    let (n, q) ← mcastRecvPacketFrame st.1 d fill
    let (i, taken) := chooseSlot st.1 d.hdr.usec
    .ok (n, (q, Function.update st.2 i (heldWith (taken.slot i) (st.2 i) d)))

/-- The datagrams are those of the frames. -/
def Event.From (sent : List Sent) : Event → Prop
  | .begin => True
  | .packet d _ => ∃ f ∈ sent, f.Emits d

/-- **The condition**: a datagram does not arrive again while its frame is being put together. -/
def Once (st : Watched) : Event → Prop
  | .begin => True
  | .packet d _ =>
    let (i, taken) := chooseSlot st.1 d.hdr.usec
    (taken.slot i).count ≠ 0 → (taken.slot i).rdy = false → d.hdr.seqNum.toNat ∉ st.2 i

/-- A slot is free. -/
def Free (pb : PacketBuffer) (held : List ℕ) : Prop :=
  pb.count = 0 ∧ pb.buf = none ∧ pb.rdy = false ∧ held = []

/-- The memory of a slot, with the chunks of these numbers in their places. -/
def Filled (f : Sent) (mem : List UInt8) (held : List ℕ) : Prop :=
  mem.length = f.room ∧
    ∀ k ∈ held, k < f.chunks ∧ (mem.drop (k * chunkSize)).take chunkSize = f.chunk k

/-- A slot holds chunks of a frame. -/
structure Holds (f : Sent) (pb : PacketBuffer) (held : List ℕ) : Prop where
  stamp : pb.hdr.usec = f.stamp
  info : pb.inf = f.info
  len : pb.len = f.info.len
  memory : ∃ mem, pb.buf = some mem ∧ Filled f mem held
  count_pos : 0 < pb.count
  incomplete : pb.rdy = false → held.Nodup ∧ held.length = pb.count ∧ pb.count < f.chunks
  complete : pb.rdy = true → f.chunks ≤ pb.count ∧ ∀ k < f.chunks, k ∈ held

/-- **The invariant of a slot.** -/
def Assembles (sent : List Sent) (pb : PacketBuffer) (held : List ℕ) : Prop :=
  Free pb held ∨ ∃ f ∈ sent, Holds f pb held

theorem setSlot_same (q : McastReceiver) (i : Fin 3) (pb : PacketBuffer) : (q.setSlot i pb).slot i = pb := by
  simp [McastReceiver.setSlot]

theorem setSlot_other (q : McastReceiver) {i j : Fin 3} (h : j ≠ i) (pb : PacketBuffer) :
    (q.setSlot i pb).slot j = q.slot j := by
  simp [McastReceiver.setSlot, h]

theorem findSlot_eq_some {q : McastReceiver} {usec : UInt32} {i : Fin 3} (h : findSlot q usec = some i) :
    (q.slot i).hdr.usec = usec ∨ (q.slot i).count = 0 := by
  unfold findSlot at h
  cases hstamp : (List.finRange 3).find? fun i => (q.slot i).hdr.usec = usec with
  | some j =>
    rw [hstamp] at h
    obtain rfl := Option.some.inj h
    have hj := List.find?_some hstamp
    exact Or.inl (of_decide_eq_true hj)
  | none =>
    rw [hstamp] at h
    have hi := List.find?_some h
    exact Or.inr (of_decide_eq_true hi)

/-- **The slot to fill** is that of the stamp, or it is not used. -/
theorem chooseSlot_cases (q : McastReceiver) (usec : UInt32) :
    (((chooseSlot q usec).2 = q ∧ ((q.slot (chooseSlot q usec).1).hdr.usec = usec ∨
        (q.slot (chooseSlot q usec).1).count = 0)) ∨
      (chooseSlot q usec).2.slot (chooseSlot q usec).1 = (q.slot (chooseSlot q usec).1).release) ∧
    ∀ j, j ≠ (chooseSlot q usec).1 → (chooseSlot q usec).2.slot j = q.slot j := by
  unfold chooseSlot
  cases hfind : findSlot q usec with
  | none => exact ⟨Or.inr (setSlot_same q _ _), fun j hj => setSlot_other q hj _⟩
  | some i =>
    exact ⟨Or.inl ⟨rfl, findSlot_eq_some hfind⟩, fun _ _ => rfl⟩

/-- A slot that is given up is free. -/
theorem free_release (pb : PacketBuffer) : Free pb.release [] := ⟨rfl, rfl, rfl, rfl⟩

/-- What a slot is taken for. -/
theorem Assembles.taken {st : Watched} (hinv : ∀ i, Assembles sent (st.1.slot i) (st.2 i)) (usec : UInt32) :
    let (i, q) := chooseSlot st.1 usec
    Free (q.slot i) [] ∨ ∃ f ∈ sent, f.stamp = usec ∧ Holds f (q.slot i) (st.2 i) := by
  obtain ⟨⟨hsame, hstamp⟩ | hreleased, -⟩ := chooseSlot_cases st.1 usec
  · dsimp only
    rw [hsame]
    rcases hinv (chooseSlot st.1 usec).1 with ⟨hcount, hbuf, hrdy, -⟩ | ⟨f, hf, hholds⟩
    · exact Or.inl ⟨hcount, hbuf, hrdy, rfl⟩
    · rcases hstamp with hstamp | hcount
      · exact Or.inr ⟨f, hf, hholds.stamp.symm.trans hstamp, hholds⟩
      · exact absurd hcount hholds.count_pos.ne'
  · dsimp only
    rw [hreleased]
    exact Or.inl (free_release _)

/-! ## One datagram -/

/-- **A chunk is put in its place**, and leaves the others as they are. -/
theorem Filled.put {mem : List UInt8} {held : List ℕ} {k : ℕ} (h : Filled f mem held)
    (hrange : f.Admitted) (hk : k < f.chunks) :
    ∃ mem', overwrite mem (chunkSize * k) (f.chunk k) = .ok mem' ∧ Filled f mem' (k :: held) := by
  obtain ⟨hlen, hheld⟩ := h
  have hroom := hrange.2
  have hfit : chunkSize * k + (f.chunk k).length ≤ mem.length := by
    have hmul := Nat.mul_le_mul_right chunkSize (show k + 1 ≤ f.chunks by omega)
    rw [chunk_length, hlen, Nat.mul_comm]
    rw [Nat.add_mul, Nat.one_mul] at hmul
    omega
  obtain ⟨mem', hwrite⟩ : ∃ mem', overwrite mem (chunkSize * k) (f.chunk k) = .ok mem' :=
    ⟨_, overwrite_eq_ok.mpr ⟨hfit, rfl⟩⟩
  have hput : (mem'.drop (k * chunkSize)).take chunkSize = f.chunk k := by
    have hcopy := take_drop_overwrite hwrite
    rwa [chunk_length, Nat.mul_comm] at hcopy
  refine ⟨mem', hwrite, (overwrite_length hwrite).trans hlen, fun j hj => ?_⟩
  rcases List.mem_cons.mp hj with rfl | hj
  · exact ⟨hk, hput⟩
  · obtain ⟨hlt, hchunk⟩ := hheld j hj
    rcases Nat.lt_trichotomy j k with hjk | rfl | hjk
    · have hmul := Nat.mul_le_mul_right chunkSize (show j + 1 ≤ k by omega)
      rw [Nat.add_mul, Nat.one_mul] at hmul
      have hapart : j * chunkSize + chunkSize ≤ chunkSize * k := by rw [Nat.mul_comm chunkSize k]; exact hmul
      exact ⟨hlt, (overwrite_apart hwrite (Or.inl hapart)).trans hchunk⟩
    · exact ⟨hlt, hput⟩
    · have hmul := Nat.mul_le_mul_right chunkSize (show k + 1 ≤ j by omega)
      rw [Nat.add_mul, Nat.one_mul] at hmul
      have hapart : chunkSize * k + (f.chunk k).length ≤ j * chunkSize := by
        rw [Nat.mul_comm chunkSize k, chunk_length]
        exact hmul
      exact ⟨hlt, (overwrite_apart hwrite (Or.inr hapart)).trans hchunk⟩

/-- **Counting is enough** for numbers that are pairwise different. -/
theorem mem_of_count {held : List ℕ} {n : ℕ} (hnodup : held.Nodup) (hlt : ∀ k ∈ held, k < n)
    (hcount : n ≤ held.length) : ∀ k < n, k ∈ held := by
  have hsub : held.toFinset ⊆ Finset.range n := by
    intro k hk
    exact Finset.mem_range.mpr (hlt k (List.mem_toFinset.mp hk))
  have heq : held.toFinset = Finset.range n := by
    refine Finset.eq_of_subset_of_card_le hsub ?_
    rw [Finset.card_range, List.toFinset_card_of_nodup hnodup]
    exact hcount
  intro k hk
  exact List.mem_toFinset.mp (heq ▸ Finset.mem_range.mpr hk)

theorem seqNum_toNat {k : ℕ} (hchunks : f.chunks ≤ 255) (hk : k < f.chunks) :
    (f.datagram k).hdr.seqNum.toNat = k := by
  show (UInt8.ofNat k).toNat = k
  rw [UInt8.toNat_ofNat', Nat.mod_eq_of_lt (by omega)]

theorem length_toNat (hchunks : f.chunks ≤ 255) (k : ℕ) : (f.datagram k).hdr.length.toNat = f.chunks := by
  show (UInt8.ofNat f.chunks).toNat = f.chunks
  rw [UInt8.toNat_ofNat', Nat.mod_eq_of_lt (by omega)]

/-- The slot after a datagram. -/
def PacketBuffer.put (pb : PacketBuffer) (d : Datagram) (mem : List UInt8) : PacketBuffer where
  hdr := d.hdr
  inf := d.inf
  buf := some mem
  len := d.inf.len
  count := pb.count + 1
  rdy := if d.hdr.length.toNat ≤ pb.count + 1 then true else pb.rdy

/-- **A datagram in its slot**: what the slot held before, and the chunk. -/
theorem Holds.put {pb : PacketBuffer} {held : List ℕ} {k : ℕ} (fill : ℕ → UInt8)
    (hrange : f.Admitted) (hchunks : f.chunks ≤ 255) (hk : k < f.chunks)
    (h : Free pb [] ∨ Holds f pb held) (honce : pb.count ≠ 0 → pb.rdy = false → k ∉ held) :
    ∃ mem, overwrite (pb.memory fill f.info) (chunkSize * k) (f.chunk k) = .ok mem ∧
      Holds f (pb.put (f.datagram k) mem) (heldWith pb held (f.datagram k)) := by
  have hseq := seqNum_toNat hchunks hk
  have hlength := length_toNat hchunks k
  unfold heldWith PacketBuffer.put
  rw [hseq, hlength]
  rcases h with ⟨hcount, hbuf, hrdy, -⟩ | h
  · have hempty : Filled f (pb.memory fill f.info) [] := by
      refine ⟨?_, fun j hj => by cases hj⟩
      rw [PacketBuffer.memory, hbuf, Option.getD_none, malloc_length]
      rfl
    obtain ⟨mem, hwrite, hfilled⟩ := hempty.put hrange hk
    rw [if_pos hcount, hcount, hrdy]
    refine ⟨mem, hwrite, rfl, rfl, rfl, ⟨mem, rfl, hfilled⟩, Nat.succ_pos 0, fun hnot => ?_, fun hready => ?_⟩
    · dsimp only at hnot ⊢
      split_ifs at hnot
      exact ⟨List.nodup_singleton k, rfl, by omega⟩
    · dsimp only at hready ⊢
      split_ifs at hready with hone
      exact ⟨hone, fun j hj => List.mem_singleton.mpr (by omega)⟩
  · obtain ⟨mem₀, hmem, hfilled₀⟩ := h.memory
    obtain ⟨mem, hwrite, hfilled⟩ := hfilled₀.put hrange hk
    have hmemory : pb.memory fill f.info = mem₀ := by rw [PacketBuffer.memory, hmem, Option.getD_some]
    rw [hmemory, if_neg h.count_pos.ne']
    refine ⟨mem, hwrite, rfl, rfl, rfl, ⟨mem, rfl, hfilled⟩, Nat.succ_pos _, fun hnot => ?_, fun hready => ?_⟩
    · dsimp only at hnot ⊢
      split_ifs at hnot with hall
      obtain ⟨hnodup, hlen, -⟩ := h.incomplete hnot
      exact ⟨List.nodup_cons.mpr ⟨honce h.count_pos.ne' hnot, hnodup⟩, by rw [List.length_cons, hlen],
        Nat.lt_of_not_le hall⟩
    · dsimp only at hready ⊢
      cases hrdy : pb.rdy with
      | true =>
        obtain ⟨hcount, hall⟩ := h.complete hrdy
        exact ⟨by omega, fun j hj => List.mem_cons_of_mem k (hall j hj)⟩
      | false =>
        rw [hrdy] at hready
        split_ifs at hready with hcount
        obtain ⟨hnodup, hlen, -⟩ := h.incomplete hrdy
        refine ⟨hcount, mem_of_count (List.nodup_cons.mpr ⟨honce h.count_pos.ne' hrdy, hnodup⟩)
          (fun j hj => (hfilled.2 j hj).1) ?_⟩
        rw [List.length_cons, hlen]
        exact hcount

/-- The receiver over one datagram. -/
theorem mcastRecvPacketFrame_eq {q : McastReceiver} {fill : ℕ → UInt8} {mem : List UInt8}
    (hwrite : overwrite (((chooseSlot q d.hdr.usec).2.slot (chooseSlot q d.hdr.usec).1).memory fill d.inf)
      (chunkSize * d.hdr.seqNum.toNat) d.data = .ok mem) :
    Ensures (mcastRecvPacketFrame q d fill) fun a =>
      a.2.slot = Function.update (chooseSlot q d.hdr.usec).2.slot (chooseSlot q d.hdr.usec).1
        (((chooseSlot q d.hdr.usec).2.slot (chooseSlot q d.hdr.usec).1).put d mem) := by
  rw [mcastRecvPacketFrame]
  dsimp only
  rw [hwrite, ok_bind]
  split_ifs with hall
  · rw [ensures_ok]
    dsimp only [McastReceiver.setSlot]
    rw [PacketBuffer.put, if_pos hall]
  · rw [ensures_ok]
    dsimp only [McastReceiver.setSlot]
    rw [PacketBuffer.put, if_neg hall]

/-! ## Runs -/

/-- The frames that are on the way: at most one for each stamp, and all of them admitted by the buffers. -/
structure OnTheWay (sent : List Sent) : Prop where
  stamps : ∀ f ∈ sent, ∀ g ∈ sent, f.stamp = g.stamp → f = g
  admitted : ∀ f ∈ sent, f.Admitted

/-- Every slot assembles a frame. -/
def SlotsAssemble (sent : List Sent) (st : Watched) : Prop :=
  ∀ i, Assembles sent (st.1.slot i) (st.2 i)

/-- **What one step keeps.** -/
theorem watchStep_assembles (hsent : OnTheWay sent) (hchunks : ∀ f ∈ sent, f.chunks ≤ 255) {st : Watched} {e : Event}
    (hinv : SlotsAssemble sent st) (hfrom : e.From sent) (honce : Once st e) :
    Ensures (watchStep st e) fun a => SlotsAssemble sent a.2 := by
  cases e with
  | begin =>
    rw [watchStep, ensures_ok]
    intro i
    show Assembles sent ((mcastReleaseSlots st.1).slot i) _
    unfold mcastReleaseSlots
    dsimp only
    split_ifs with hgone hcount hcount
    · exact Or.inl (free_release _)
    · exact absurd rfl hcount
    · rcases hinv i with hfree | ⟨f, -, hholds⟩
      · exact Or.inl ⟨hfree.1, hfree.2.1, hfree.2.2.1, rfl⟩
      · exact absurd hcount hholds.count_pos.ne'
    · exact hinv i
  | packet d fill =>
    obtain ⟨f, hf, hemits⟩ := hfrom
    obtain ⟨k, hk, rfl⟩ := emits_datagram (hchunks f hf) hemits
    have hseq := seqNum_toNat (hchunks f hf) hk
    -- the slot is free, or holds chunks of this very frame
    have htaken : Free ((chooseSlot st.1 f.stamp).2.slot (chooseSlot st.1 f.stamp).1) [] ∨
        Holds f ((chooseSlot st.1 f.stamp).2.slot (chooseSlot st.1 f.stamp).1)
          (st.2 (chooseSlot st.1 f.stamp).1) := by
      rcases Assembles.taken hinv f.stamp with hfree | ⟨g, hg, hstamp, hholds⟩
      · exact Or.inl hfree
      · obtain rfl := hsent.stamps g hg f hf hstamp
        exact Or.inr hholds
    have hnew : ((chooseSlot st.1 f.stamp).2.slot (chooseSlot st.1 f.stamp).1).count ≠ 0 →
        ((chooseSlot st.1 f.stamp).2.slot (chooseSlot st.1 f.stamp).1).rdy = false →
          k ∉ st.2 (chooseSlot st.1 f.stamp).1 := by
      rw [← hseq]
      exact honce
    obtain ⟨mem, hwrite, hholds⟩ :=
      Holds.put fill (hsent.admitted f hf) (hchunks f hf) hk htaken hnew
    have hstep : Ensures (mcastRecvPacketFrame st.1 (f.datagram k) fill) _ :=
      mcastRecvPacketFrame_eq (by rw [hseq]; exact hwrite)
    obtain ⟨⟨n, q⟩, hrecv, hslot⟩ := hstep
    have husec : (f.datagram k).hdr.usec = f.stamp := rfl
    rw [watchStep, hrecv, ok_bind, ensures_ok]
    intro i
    show Assembles sent (q.slot i) (Function.update st.2 _ _ i)
    dsimp only at hslot
    rw [hslot, husec]
    by_cases hi : i = (chooseSlot st.1 f.stamp).1
    · subst hi
      rw [Function.update_self, Function.update_self]
      exact Or.inr ⟨f, hf, hholds⟩
    · rw [Function.update_of_ne hi, Function.update_of_ne hi]
      have hother := (chooseSlot_cases st.1 f.stamp).2 i hi
      show Assembles sent ((chooseSlot st.1 f.stamp).2.slot i) (st.2 i)
      rw [hother]
      exact hinv i

/-- A slot that is ready holds the bytes of its frame. -/
theorem Holds.bytes {pb : PacketBuffer} {held : List ℕ} (hrange : f.Admitted) (h : Holds f pb held)
    (hready : pb.rdy = true) : ∃ mem, pb.buf = some mem ∧ mem.take pb.inf.len.toNat = f.bytes := by
  obtain ⟨mem, hmem, -, hfilled⟩ := h.memory
  have hlen : pb.inf.len.toNat = f.bytes.length := by
    rw [h.info]
    show (UInt32.ofNat f.bytes.length).toNat = f.bytes.length
    have hsmall := hrange.1
    rw [UInt32.toNat_ofNat', Nat.mod_eq_of_lt (by omega)]
  refine ⟨mem, hmem, ?_⟩
  rw [hlen]
  refine take_of_pieces chunkSize_pos (length_le_chunks f) fun k hk => ?_
  have hchunk := (hfilled k ((h.complete hready).2 k hk)).2
  exact ⟨_, hchunk.trans rfl⟩

/-- **A slot that is marked ready holds the frame** that was sent with its stamp, after any delivery of the
datagrams of frames of at most 255 chunks in which none arrives again while its frame is being put
together. -/
theorem slots_assembled {sent : List Sent} {events : List Event} (hsent : OnTheWay sent)
    (hfrom : ∀ e ∈ events, e.From sent) (hchunks : ∀ f ∈ sent, f.chunks ≤ 255) (honce : RunMeets watchStep Once watchNew events) :
    Ensures (runOps watchStep watchNew events) fun a =>
      ∀ i, (a.2.1.slot i).rdy = true → ∃ f ∈ sent, (a.2.1.slot i).hdr.usec = f.stamp ∧
        ∃ mem, (a.2.1.slot i).buf = some mem ∧ mem.take (a.2.1.slot i).inf.len.toNat = f.bytes := by
  have hnew : SlotsAssemble sent watchNew := fun i => Or.inl ⟨rfl, rfl, rfl, rfl⟩
  have hrun := runOps_ensures (fun st e hst he => watchStep_assembles hsent hchunks hst he.1 he.2) events watchNew
    hnew (honce.and_of_mem hfrom)
  refine hrun.mono fun a ha i hready => ?_
  rcases ha i with hfree | ⟨f, hf, hholds⟩
  · rw [hfree.2.2.1] at hready
    cases hready
  · exact ⟨f, hf, hholds.stamp, hholds.bytes (hsent.admitted f hf) hready⟩

/-! ## What `mcast_recv_frame` returns -/

theorem newestReady_ready {q : McastReceiver} {i : Fin 3} (h : newestReady q = some i) :
    (q.slot i).rdy = true := by
  unfold newestReady at h
  cases hfind : (List.finRange 3).find? fun i => (q.slot i).rdy with
  | none =>
    rw [hfind] at h
    cases h
  | some d =>
    rw [hfind] at h
    obtain rfl := Option.some.inj h
    have hd := List.find?_some hfind
    -- the fold goes from ready slot to ready slot
    have hfold : ∀ (l : List (Fin 3)) (o : Fin 3), (q.slot o).rdy = true → (q.slot (l.foldl (fun o i =>
        if (q.slot i).rdy = true ∧ (q.slot d).hdr.usec < (q.slot i).hdr.usec then i else o) o)).rdy = true := by
      intro l
      induction l with
      | nil => exact fun o ho => ho
      | cons i l ih =>
        intro o ho
        refine ih _ ?_
        dsimp only
        split_ifs with hi
        · exact hi.1
        · exact ho
    exact hfold _ d hd

section Calls

/-- The stamp of a datagram, and its number. -/
def Datagram.id (d : Datagram) : UInt32 × ℕ := (d.hdr.usec, d.hdr.seqNum.toNat)

/-- The receiver assembles frames, and holds none of the datagrams that are still to come. -/
def Awaits (sent : List Sent) (coming : List (UInt32 × ℕ)) (q : McastReceiver) : Prop :=
  coming.Nodup ∧ ∃ held, SlotsAssemble sent (q, held) ∧ ∀ i, ∀ k ∈ held i, ((q.slot i).hdr.usec, k) ∉ coming

variable {coming : List (UInt32 × ℕ)} {arrivals : List (Datagram × (ℕ → UInt8))} {q : McastReceiver}
  (hsent : OnTheWay sent) (hchunks : ∀ f ∈ sent, f.chunks ≤ 255)

include hsent hchunks

theorem Awaits.packet (h : Awaits sent (d.id :: coming) q) (hfrom : ∃ f ∈ sent, f.Emits d) (fill : ℕ → UInt8) :
    Ensures (mcastRecvPacketFrame q d fill) fun a => Awaits sent coming a.2 := by
  obtain ⟨hnodup, held, hinv, hheld⟩ := h
  obtain ⟨hnew, hcoming⟩ := List.nodup_cons.mp hnodup
  obtain ⟨hslot, hother⟩ := chooseSlot_cases q d.hdr.usec
  have hput := @mcastRecvPacketFrame_eq d q fill
  cases hc : chooseSlot q d.hdr.usec with
  | mk i taken =>
    rw [hc] at hslot hother hput
    dsimp only at hput
    have hstamp : (taken.slot i).count ≠ 0 → (q.slot i).hdr.usec = d.hdr.usec := by
      intro hcount
      rcases hslot with ⟨hsame, hstamp⟩ | hreleased
      · exact hstamp.resolve_right (hsame ▸ hcount)
      · exact absurd (congrArg PacketBuffer.count hreleased) hcount
    have honce : Once (q, held) (.packet d fill) := by
      simp only [Once, hc]
      intro hcount _ hk
      exact hheld i _ hk (hstamp hcount ▸ List.mem_cons_self)
    obtain ⟨⟨n, st⟩, hstep, hinv'⟩ := watchStep_assembles (e := .packet d fill) hsent hchunks hinv hfrom honce
    obtain ⟨⟨m, q'⟩, hrecv, hst⟩ := bind_eq_ok.mp hstep
    simp only [hc] at hst
    obtain ⟨-, rfl⟩ := Prod.mk.inj (Except.ok.inj hst)
    have hwrite := hrecv
    rw [mcastRecvPacketFrame, hc] at hwrite
    obtain ⟨mem, hwrite, -⟩ := bind_eq_ok.mp hwrite
    refine ⟨_, hrecv, hcoming, _, hinv', fun j k hk => ?_⟩
    dsimp only at hk ⊢
    rw [(hput hwrite).apply hrecv]
    by_cases hj : j = i
    · subst hj
      rw [Function.update_self] at hk ⊢
      have hk' : k = d.hdr.seqNum.toNat ∨ (taken.slot j).count ≠ 0 ∧ k ∈ held j := by
        unfold heldWith at hk
        split_ifs at hk with hcount <;> simp_all
      rcases hk' with rfl | ⟨hcount, hk⟩
      · exact hnew
      · exact fun hmem => hheld j k hk (List.mem_cons_of_mem _ (hstamp hcount ▸ hmem))
    · rw [Function.update_of_ne hj] at hk ⊢
      rw [hother j hj]
      exact fun hmem => hheld j k hk (List.mem_cons_of_mem _ hmem)

/-- The loop may end before it has received all that could come. -/
theorem Awaits.loop (h : Awaits sent (arrivals.map (·.1.id) ++ coming) q)
    (hfrom : ∀ a ∈ arrivals, ∃ f ∈ sent, f.Emits a.1) : Ensures (recvLoop q arrivals) (Awaits sent coming) := by
  induction arrivals generalizing q with
  | nil => exact ⟨q, rfl, h⟩
  | cons a arrivals ih =>
    rw [recvLoop, ensures_bind]
    refine (Awaits.packet hsent hchunks h (hfrom a List.mem_cons_self) a.2).mono fun r hr => ?_
    dsimp only
    split_ifs
    · obtain ⟨hnodup, held, hinv, hheld⟩ := hr
      exact ⟨_, rfl, (List.nodup_append.mp hnodup).2.1, held, hinv, fun i k hk hmem =>
        hheld i k hk (List.mem_append_right _ hmem)⟩
    · exact ih hr fun b hb => hfrom b (List.mem_cons_of_mem _ hb)

/-- One call: what it returns is a frame that was sent. -/
theorem Awaits.frame (h : Awaits sent (arrivals.map (·.1.id) ++ coming) q)
    (hfrom : ∀ a ∈ arrivals, ∃ f ∈ sent, f.Emits a.1) : Ensures (mcastRecvFrame q arrivals) fun a =>
      (∀ r ∈ a.1, ∃ f ∈ sent, r.1.take r.2 = f.bytes) ∧ Awaits sent coming a.2 := by
  obtain ⟨hnodup, held, hinv, hheld⟩ := h
  obtain ⟨⟨m, st⟩, hbegin, hinv'⟩ := watchStep_assembles (e := .begin) hsent hchunks hinv trivial trivial
  obtain ⟨-, rfl⟩ := Prod.mk.inj (Except.ok.inj hbegin)
  rw [mcastRecvFrame, ensures_bind]
  refine (Awaits.loop hsent hchunks ⟨hnodup, _, hinv', fun i k hk => ?_⟩ hfrom).mono fun q' hq => ?_
  · unfold mcastReleaseSlots at hk ⊢
    dsimp only at hk ⊢
    split_ifs at hk ⊢ with hgone hcount hcount
    · cases hk
    · exact absurd rfl hcount
    · cases hk
    · exact hheld i k hk
  · cases hready : newestReady q' with
    | none => exact ⟨_, rfl, by simp, hq⟩
    | some i =>
      refine ⟨_, rfl, fun r hr => ?_, hq⟩
      obtain ⟨-, held', hall, -⟩ := hq
      have hrdy := newestReady_ready hready
      rcases hall i with hfree | ⟨f, hf, hholds⟩
      · rw [hfree.2.2.1] at hrdy
        cases hrdy
      · obtain ⟨mem, hmem, htake⟩ := hholds.bytes (hsent.admitted f hf) hrdy
        rw [hholds.info] at htake
        rw [hmem, hholds.len] at hr
        obtain rfl := Option.some.inj hr
        exact ⟨f, hf, htake⟩

end Calls

/-! ## A frame of one chunk, and a frame of two -/

/-- A frame of three bytes. -/
def threeBytes : Sent where
  stamp := 2
  frame := ⟨32, 16, 0⟩
  bytes := [1, 2, 3]
  ms := 40
  mode := 0

theorem threeBytes_emits : threeBytes.Emits (threeBytes.datagram 0) :=
  ⟨⟨1⟩, [], fun _ => 1, _, rfl, rfl, List.mem_singleton.mpr rfl⟩

theorem threeBytes_assembled :
    Ensures (runOps watchStep watchNew [.begin, .packet (threeBytes.datagram 0) fun _ => 255]) fun a =>
      ∀ i, (a.2.1.slot i).rdy = true → ∃ f ∈ [threeBytes], (a.2.1.slot i).hdr.usec = f.stamp ∧
        ∃ mem, (a.2.1.slot i).buf = some mem ∧ mem.take (a.2.1.slot i).inf.len.toNat = f.bytes := by
  refine slots_assembled ⟨?_, ?_⟩ ?_ ?_ ?_
  · intro f hf g hg _
    rw [List.mem_singleton.mp hf, List.mem_singleton.mp hg]
  · intro f hf
    obtain rfl := List.mem_singleton.mp hf
    exact ⟨by decide, by decide⟩
  · intro e he
    simp only [List.mem_cons, List.not_mem_nil, or_false] at he
    rcases he with rfl | rfl
    · trivial
    · exact ⟨threeBytes, List.mem_cons_self, threeBytes_emits⟩
  · intro f hf
    obtain rfl := List.mem_singleton.mp hf
    decide
  · refine ⟨trivial, fun r st hst => ⟨?_, fun _ _ _ => trivial⟩⟩
    obtain ⟨-, rfl⟩ := Prod.mk.inj (Except.ok.inj hst)
    exact fun hcount => absurd rfl hcount

/-- A frame of two chunks. -/
def twoChunks : Sent where
  stamp := 2
  frame := ⟨32, 32, 0⟩
  bytes := List.replicate 2000 1
  ms := 40
  mode := 0

theorem twoChunks_length : twoChunks.bytes.length = 2000 := List.length_replicate

theorem twoChunks_count : twoChunks.chunks = 2 := by
  rw [Sent.chunks, twoChunks_length]
  rfl

theorem twoChunks_admitted : twoChunks.Admitted := by
  refine ⟨by rw [twoChunks_length]; norm_num, ?_⟩
  rw [twoChunks_count]
  show 2 * chunkSize ≤ 32 * 32 * 3
  decide

theorem twoChunks_emits : twoChunks.Emits (twoChunks.datagram 0) := by
  have hlen := twoChunks_length
  have hsize : chunkSize = 1468 := rfl
  exact emits_of_full (by omega) (by rw [twoChunks_count]; norm_num) (by omega)

/-- A datagram that arrives in the first slot. -/
theorem chooseSlot_new (usec : UInt32) : chooseSlot mcastNewReceiver usec = (0, mcastNewReceiver) := by
  by_cases h : (0 : UInt32) = usec
  · simp [chooseSlot, findSlot, mcastNewReceiver, PacketBuffer.zero, List.finRange_succ, h]
  · simp [chooseSlot, findSlot, mcastNewReceiver, PacketBuffer.zero, List.finRange_succ, h]

theorem chooseSlot_first {q : McastReceiver} {usec : UInt32} (h : (q.slot 0).hdr.usec = usec) :
    chooseSlot q usec = (0, q) := by
  simp [chooseSlot, findSlot, List.finRange_succ, h]

/-- The receiver over one datagram for the first slot. -/
theorem mcastRecvPacketFrame_first {q : McastReceiver} {fill : ℕ → UInt8} {mem : List UInt8}
    (hchoose : chooseSlot q d.hdr.usec = (0, q))
    (hwrite : overwrite ((q.slot 0).memory fill d.inf) (chunkSize * d.hdr.seqNum.toNat) d.data = .ok mem) :
    Ensures (mcastRecvPacketFrame q d fill) fun a => a.2.slot 0 = (q.slot 0).put d mem := by
  have hstep : Ensures (mcastRecvPacketFrame q d fill) _ :=
    mcastRecvPacketFrame_eq (by rw [hchoose]; exact hwrite)
  refine hstep.mono fun a ha => ?_
  rw [ha, hchoose, Function.update_self]

/-- **The first chunk, twice**: two datagrams are counted, and the second chunk is what was in the memory. -/
theorem first_chunk_twice (hcount : f.chunks = 2) (hrange : f.Admitted) (fill : ℕ → UInt8) :
    Ensures (runOps watchStep watchNew [.packet (f.datagram 0) fill, .packet (f.datagram 0) fill]) fun a =>
      (a.2.1.slot 0).rdy = true ∧ (a.2.1.slot 0).inf = f.info ∧ ∃ mem, (a.2.1.slot 0).buf = some mem ∧
        (mem.drop chunkSize).take 1 = ((malloc fill f.room).drop chunkSize).take 1 := by
  have hpos : 0 < f.chunks := by omega
  have hchunks : f.chunks ≤ 255 := by omega
  have hseq := seqNum_toNat hchunks hpos
  have hlength := length_toNat hchunks 0
  have hroom : (malloc fill f.room).length = f.room := malloc_length fill f.room
  have hempty : Filled f (malloc fill f.room) [] := ⟨hroom, fun j hj => by cases hj⟩
  obtain ⟨mem₁, hwrite₁, hfilled₁⟩ := hempty.put hrange hpos
  obtain ⟨mem₂, hwrite₂, -⟩ := hfilled₁.put hrange hpos
  obtain ⟨⟨n₁, q₁⟩, hrecv₁, hslot₁⟩ := mcastRecvPacketFrame_first
    (chooseSlot_new (f.datagram 0).hdr.usec) (by rw [hseq]; exact hwrite₁)
  dsimp only at hslot₁
  have hchoose : chooseSlot q₁ (f.datagram 0).hdr.usec = (0, q₁) := by
    refine chooseSlot_first ?_
    rw [hslot₁]
    rfl
  have hsecond : Ensures (mcastRecvPacketFrame q₁ (f.datagram 0) fill) _ :=
    mcastRecvPacketFrame_first hchoose (by rw [hslot₁, hseq]; exact hwrite₂)
  obtain ⟨⟨n₂, q₂⟩, hrecv₂, hslot₂⟩ := hsecond
  dsimp only at hslot₂
  obtain ⟨st, hrun, hst⟩ : ∃ st, runOps watchStep watchNew
      [.packet (f.datagram 0) fill, .packet (f.datagram 0) fill] = .ok ([n₁, n₂], st) ∧ st.1 = q₂ := by
    have hnew : mcastRecvPacketFrame watchNew.1 (f.datagram 0) fill = .ok (n₁, q₁) := hrecv₁
    simp only [runOps, watchStep, hnew, hrecv₂, ok_bind]
    exact ⟨_, rfl, rfl⟩
  rw [hrun, ensures_ok]
  dsimp only
  rw [hst, hslot₂, hslot₁]
  refine ⟨?_, rfl, mem₂, rfl, ?_⟩
  · show (if (f.datagram 0).hdr.length.toNat ≤ 2 then true else _) = true
    rw [hlength, hcount]
    rfl
  · have hfirst : chunkSize * 0 + (f.chunk 0).length ≤ chunkSize := by
      rw [chunk_length]
      omega
    have hapart₁ : (mem₁.drop chunkSize).take 1 = _ := overwrite_apart hwrite₁ (Or.inr hfirst)
    have hapart₂ : (mem₂.drop chunkSize).take 1 = _ := overwrite_apart hwrite₂ (Or.inr hfirst)
    exact hapart₂.trans hapart₁

/-- **A datagram that arrives twice** is counted twice, and the frame is taken for complete. -/
theorem duplicate_completes :
    ¬ ∀ (sent : List Sent) (events : List Event), OnTheWay sent → (∀ e ∈ events, e.From sent) →
      Ensures (runOps watchStep watchNew events) fun a =>
        ∀ i, (a.2.1.slot i).rdy = true → ∃ f ∈ sent, (a.2.1.slot i).hdr.usec = f.stamp ∧
          ∃ mem, (a.2.1.slot i).buf = some mem ∧ mem.take (a.2.1.slot i).inf.len.toNat = f.bytes := by
  intro h
  have hsent : OnTheWay [twoChunks] := by
    refine ⟨fun f hf g hg _ => ?_, fun f hf => ?_⟩
    · rw [List.mem_singleton.mp hf, List.mem_singleton.mp hg]
    · exact List.mem_singleton.mp hf ▸ twoChunks_admitted
  obtain ⟨a, hrun, hready, hinfo, mem, hmem, hsecond⟩ :=
    first_chunk_twice twoChunks_count twoChunks_admitted fun _ => 0
  obtain ⟨a', hrun', hall⟩ := h [twoChunks]
    [.packet (twoChunks.datagram 0) fun _ => 0, .packet (twoChunks.datagram 0) fun _ => 0] hsent (by
      intro e he
      simp only [List.mem_cons, List.not_mem_nil, or_false, or_self] at he
      exact he ▸ ⟨twoChunks, List.mem_cons_self, twoChunks_emits⟩)
  obtain rfl := Except.ok.inj (hrun.symm.trans hrun')
  obtain ⟨f, hf, -, mem', hmem', htake⟩ := hall 0 hready
  obtain rfl := List.mem_singleton.mp hf
  obtain rfl := Option.some.inj (hmem.symm.trans hmem')
  have hlen : twoChunks.info.len.toNat = 2000 := by
    show (UInt32.ofNat twoChunks.bytes.length).toNat = 2000
    rw [twoChunks_length]
    rfl
  rw [hinfo, hlen] at htake
  -- the byte behind the first chunk: 1 in the frame, 0 in the memory
  have hframe := congrArg (fun l => l[chunkSize]?) htake
  have hmemory := congrArg (fun l => l[0]?) hsecond
  have hsize : chunkSize = 1468 := rfl
  simp only [List.getElem?_take, List.getElem?_drop, Nat.add_zero] at hframe hmemory
  rw [if_pos (by omega)] at hframe
  rw [if_pos Nat.one_pos, if_pos Nat.one_pos, hframe] at hmemory
  have hone : twoChunks.bytes[chunkSize]? = some 1 := by
    show (List.replicate 2000 (1 : UInt8))[chunkSize]? = some 1
    rw [List.getElem?_replicate, if_pos (by omega)]
  have hroom : chunkSize < twoChunks.room := by
    show chunkSize < 32 * 32 * 3
    omega
  have hzero : (malloc (fun _ => 0) twoChunks.room)[chunkSize]? = some 0 := by
    rw [malloc, List.getElem?_map, List.getElem?_range hroom]
    rfl
  rw [hone, hzero] at hmemory
  exact absurd (Option.some.inj hmemory) (by decide)

end Veejay.Net
