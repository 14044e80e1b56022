import Veejay.Net.Links

/-!
# Requests for frames

A client asks for the next frame with `VIMS_GET_FRAME` on its data link.  The number of the link is put into `rlinks`,
and after the next frame is rendered it is sent to the data links whose numbers are there (`veejay/vj-event.c`,
`veejay/vj-perform.c`).  The numbers are put there before the port is looked at, and stay there when a link is closed.

* `State` — the links of the servers, the numbers of the links that wait, and what was accepted and sent so far;
* `vjEventSendFrame`, `vjPerformSendPrimaryFrameS2` — the handler, and the loop that sends;
* `Answers` — what a request is answered with;
* `Fits` — no number is put there, or left there, for another connection;
* `one_frame_per_request` — **in such runs, every accepted request is answered with one frame**.
-/

namespace Veejay.FrameRequests

open CLib Veejay.Net

/-! ## The server -/

/-- The links, each with the number of its connection; the numbers in `rlinks`, of which 8 are used;
`unicast_frame_sender`; and for each connection how many requests were accepted on its data link and how many frames
were sent there. -/
structure State where
  servers : Servers ℕ
  nextConnection : ℕ
  rlinks : Fin 8 → Option (Fin vjMaxConnections)
  unicastFrameSender : Bool
  accepted : ℕ → ℕ
  frames : ℕ → ℕ

/-- What is sent to a connection. -/
inductive Output where
  | header (connection : ℕ)
  | frame (connection : ℕ)
  deriving DecidableEq, Repr

/-- What happens, in any order; `sent` says which messages and frames can be sent. -/
inductive FrameEvent where
  | connect (p : Port)
  | close (i : Fin vjMaxConnections) (ports : List Port)
  | cmdRequest (i : Fin vjMaxConnections) (sent : Bool)
  | datRequest (i : Fin vjMaxConnections) (sent : Bool)
  | render (sent : Fin 8 → Bool)

/-- No connection, no request. -/
def start : State where
  servers := noClients
  nextConnection := 0
  rlinks := fun _ => none
  unicastFrameSender := false
  accepted := fun _ => 0
  frames := fun _ => 0

/-- `SEND_MSG`, which sends to the command link of the number `current_link`, and closes the links of this number on
all servers where it fails. -/
def sendMsg (i : Fin vjMaxConnections) (sent : Bool) (st : State) : List Output × State :=
  match st.servers .cmd i with
  | none => ([], st)
  | some c =>
    if sent then ([.header c], st)
    else ([], { st with servers := (delClients st.servers i [.cmd, .sta, .dat]).2 })

/-- One more request was accepted on the data link. -/
def accept (i : Fin vjMaxConnections) (st : State) : State :=
  match st.servers .dat i with
  | none => st
  | some c => { st with accepted := Function.update st.accepted c (st.accepted c + 1) }

/-- The loop for a place in `rlinks`. -/
def freePlace (rlinks : Fin 8 → Option (Fin vjMaxConnections)) : Option (Fin 8) :=
  (List.finRange 8).find? fun k => (rlinks k).isNone

/-- `vj_event_send_frame`, for a request on a link of the command or the data port. -/
def vjEventSendFrame (isDat : Bool) (i : Fin vjMaxConnections) (sent : Bool) (st : State) : List Output × State :=
  match freePlace st.rlinks with
  | none => sendMsg i sent st
  | some k =>
    let st := { st with rlinks := Function.update st.rlinks k (some i) }
    if !isDat then sendMsg i sent st
    else ([], accept i { st with unicastFrameSender := true })

/-- The frame is sent to one of the links that wait. -/
def sendFrame (sent : Fin 8 → Bool) (k : Fin 8) (st : State) : List Output × State :=
  match st.rlinks k with
  | none => ([], st)
  | some i =>
    let st := { st with rlinks := Function.update st.rlinks k none }
    match st.servers .dat i with
    | none => ([], st)
    | some c =>
      if sent k then ([.frame c], { st with frames := Function.update st.frames c (st.frames c + 1) })
      else ([], { st with servers := (vjServerDelClient st.servers .dat i).2 })

/-- The loop of `vj_perform_send_primary_frame_s2`. -/
def sendLoop (sent : Fin 8 → Bool) : List (Fin 8) → State → List Output × State
  | [], st => ([], st)
  | k :: ks, st =>
    let first := sendFrame sent k st
    let rest := sendLoop sent ks first.2
    (first.1 ++ rest.1, rest.2)

/-- `vj_perform_send_primary_frame_s2` and `vj_perform_done_s2`, in `veejay_screen_update`. -/
def vjPerformSendPrimaryFrameS2 (sent : Fin 8 → Bool) (st : State) : List Output × State :=
  if st.unicastFrameSender then
    let sentAll := sendLoop sent (List.finRange 8) st
    (sentAll.1, { sentAll.2 with unicastFrameSender := false })
  else ([], st)

/-- One event; a request comes on a link that is in use. -/
def frameStep (st : State) : FrameEvent → Exec (List Output × State)
  | .connect p =>
    .ok ([], { st with
      servers := vjServerNewClient st.servers p st.nextConnection, nextConnection := st.nextConnection + 1 })
  | .close i ports => .ok ([], { st with servers := (delClients st.servers i ports).2 })
  | .cmdRequest i sent =>
    if (st.servers .cmd i).isSome then .ok (vjEventSendFrame false i sent st) else .ok ([], st)
  | .datRequest i sent =>
    if (st.servers .dat i).isSome then .ok (vjEventSendFrame true i sent st) else .ok ([], st)
  | .render sent => .ok (vjPerformSendPrimaryFrameS2 sent st)

/-! ## Answers -/

/-- How a request, or a frame that is rendered, is answered. -/
def Answers (st : State) (e : FrameEvent) (out : List Output) (st' : State) : Prop :=
  (∀ c, st'.frames c = st.frames c + out.count (.frame c)) ∧
    (∀ c, st'.frames c ≤ st'.accepted c) ∧
    match e with
    | .cmdRequest i sent =>
      ∀ c, st.servers .cmd i = some c → out = (if sent then [.header c] else []) ∧ st'.accepted = st.accepted
    | .datRequest i _ =>
      ∀ c, st.servers .dat i = some c →
        out = [] ∧ st'.accepted = Function.update st.accepted c (st.accepted c + 1)
    | .render _ =>
      st'.accepted = st.accepted ∧ ∀ i c, st'.servers .dat i = some c → st'.frames c = st'.accepted c
    | _ => out = [] ∧ st'.accepted = st.accepted

/-- The steps after which no number is in `rlinks` for another connection: a request on the command port finds no
place, or no data link of its number; one on the data port finds a place; and a new data connection takes no link
whose number is there. -/
def Fits (st : State) : FrameEvent → Prop
  | .connect .dat => ∀ i, vjServerFreeSlot st.servers .dat = some i → ∀ k, st.rlinks k ≠ some i
  | .cmdRequest i _ => (st.servers .cmd i).isSome → st.servers .dat i = none ∨ ∀ k, st.rlinks k ≠ none
  | .datRequest i _ => (st.servers .dat i).isSome → ∃ k, st.rlinks k = none
  | _ => True

/-- How often the number of a link is in `rlinks`. -/
def queued (rlinks : Fin 8 → Option (Fin vjMaxConnections)) (i : Fin vjMaxConnections) : ℕ :=
  ∑ k, if rlinks k = some i then 1 else 0

/-- What waits is what was accepted and not yet answered. -/
structure Inv (st : State) : Prop where
  owed : ∀ i c, st.servers .dat i = some c → st.accepted c = st.frames c + queued st.rlinks i
  sent : ∀ c, st.frames c ≤ st.accepted c
  sender : ∀ i c, st.servers .dat i = some c → queued st.rlinks i ≠ 0 → st.unicastFrameSender = true
  known : ∀ i c, st.servers .dat i = some c → c < st.nextConnection
  once : ∀ i j c, st.servers .dat i = some c → st.servers .dat j = some c → i = j
  fresh : ∀ c, st.nextConnection ≤ c → st.accepted c = 0

/-! ## Numbers that wait -/

section Queued

variable {rlinks : Fin 8 → Option (Fin vjMaxConnections)} {i : Fin vjMaxConnections} {k : Fin 8}

theorem queued_update (rlinks : Fin 8 → Option (Fin vjMaxConnections)) (k : Fin 8) (v : Option (Fin vjMaxConnections))
    (i : Fin vjMaxConnections) :
    queued (Function.update rlinks k v) i + (if rlinks k = some i then 1 else 0) =
      queued rlinks i + if v = some i then 1 else 0 := by
  have hrest : ∑ j ∈ Finset.univ.erase k, (if Function.update rlinks k v j = some i then 1 else 0) =
      ∑ j ∈ Finset.univ.erase k, if rlinks j = some i then 1 else 0 :=
    Finset.sum_congr rfl fun j hj => by rw [Function.update_of_ne (Finset.ne_of_mem_erase hj)]
  unfold queued
  rw [← Finset.add_sum_erase _ _ (Finset.mem_univ k), hrest, Function.update_self,
    ← Finset.add_sum_erase (Finset.univ) (fun j => if rlinks j = some i then 1 else 0) (Finset.mem_univ k)]
  omega

theorem queued_eq_zero : queued rlinks i = 0 ↔ ∀ k, rlinks k ≠ some i := by
  unfold queued
  rw [Finset.sum_eq_zero_iff]
  refine forall_congr' fun k => ?_
  split_ifs with h
  · exact iff_of_false (fun hk => hk (Finset.mem_univ k)) (not_not_intro h)
  · exact iff_of_true (fun _ => rfl) h

theorem freePlace_none (h : freePlace rlinks = none) (k : Fin 8) : rlinks k ≠ none := by
  intro hk
  have hall := List.find?_eq_none.mp h k (List.mem_finRange k)
  rw [hk] at hall
  exact hall rfl

theorem freePlace_some (h : freePlace rlinks = some k) : rlinks k = none := by
  have hnone := List.find?_some h
  exact Option.isNone_iff_eq_none.mp hnone

end Queued

/-! ## Steps -/

section Steps

variable {st : State} {i : Fin vjMaxConnections} {sent : Bool}

/-- Links that are closed owe nothing. -/
theorem Inv.closed (h : Inv st) {servers : Servers ℕ}
    (hsub : ∀ i c, servers .dat i = some c → st.servers .dat i = some c) : Inv { st with servers := servers } where
  owed i c hc := h.owed i c (hsub i c hc)
  sent := h.sent
  sender i c hc := h.sender i c (hsub i c hc)
  known i c hc := h.known i c (hsub i c hc)
  once i j c hi hj := h.once i j c (hsub i c hi) (hsub j c hj)
  fresh := h.fresh

theorem Inv.sendMsg (h : Inv st) (i : Fin vjMaxConnections) (sent : Bool) : Inv (sendMsg i sent st).2 := by
  unfold FrameRequests.sendMsg
  cases st.servers .cmd i with
  | none => exact h
  | some c =>
    cases sent with
    | true => exact h
    | false => exact h.closed fun i c hc => delClients_link hc

/-- The answer to a request that is refused. -/
theorem sendMsg_answer {c : ℕ} (hc : st.servers .cmd i = some c) :
    (sendMsg i sent st).1 = (if sent then [.header c] else []) ∧ (sendMsg i sent st).2.accepted = st.accepted ∧
      (sendMsg i sent st).2.frames = st.frames := by
  unfold sendMsg
  rw [hc]
  cases sent <;> exact ⟨rfl, rfl, rfl⟩

/-- A number that is put into `rlinks`. -/
theorem queued_put {rlinks : Fin 8 → Option (Fin vjMaxConnections)} {k : Fin 8} (hk : rlinks k = none)
    (i j : Fin vjMaxConnections) :
    queued (Function.update rlinks k (some i)) j = queued rlinks j + if i = j then 1 else 0 := by
  have h := queued_update rlinks k (some i) j
  rw [hk, if_neg nofun, add_zero] at h
  simpa only [Option.some.injEq] using h

/-- A number that is taken out. -/
theorem queued_take {rlinks : Fin 8 → Option (Fin vjMaxConnections)} {k : Fin 8} (hk : rlinks k = some i)
    (j : Fin vjMaxConnections) :
    queued (Function.update rlinks k none) j + (if i = j then 1 else 0) = queued rlinks j := by
  have h := queued_update rlinks k none j
  rw [hk, if_neg (c := none = some j) nofun, add_zero] at h
  simpa only [Option.some.injEq] using h

/-- **A request on the command port** is refused; its number does not wait for anyone. -/
theorem cmdRequest_spec (h : Inv st) {c : ℕ} (hc : st.servers .cmd i = some c)
    (hfits : st.servers .dat i = none ∨ ∀ k, st.rlinks k ≠ none) :
    Inv (vjEventSendFrame false i sent st).2 ∧
      (vjEventSendFrame false i sent st).1 = (if sent then [.header c] else []) ∧
      (vjEventSendFrame false i sent st).2.accepted = st.accepted ∧
      (vjEventSendFrame false i sent st).2.frames = st.frames := by
  unfold vjEventSendFrame
  cases hfree : freePlace st.rlinks with
  | none => exact ⟨h.sendMsg i sent, sendMsg_answer hc⟩
  | some k =>
    have hk := freePlace_some hfree
    have hnone : st.servers .dat i = none := hfits.resolve_right fun hall => hall k hk
    have hother : ∀ j c', st.servers .dat j = some c' →
        queued (Function.update st.rlinks k (some i)) j = queued st.rlinks j := by
      intro j c' hj
      rw [queued_put hk, if_neg, add_zero]
      rintro rfl
      rw [hnone] at hj
      cases hj
    have hput : Inv { st with rlinks := Function.update st.rlinks k (some i) } := by
      refine ⟨fun j c' hj => ?_, h.sent, fun j c' hj hq => ?_, h.known, h.once, h.fresh⟩
      · show st.accepted c' = st.frames c' + queued (Function.update st.rlinks k (some i)) j
        rw [hother j c' hj]
        exact h.owed j c' hj
      · refine h.sender j c' hj ?_
        rw [← hother j c' hj]
        exact hq
    exact ⟨hput.sendMsg i sent, sendMsg_answer hc⟩

/-- **A request on the data port** finds a place and is accepted. -/
theorem datRequest_spec (h : Inv st) {c : ℕ} (hc : st.servers .dat i = some c) (hfits : ∃ k, st.rlinks k = none) :
    Inv (vjEventSendFrame true i sent st).2 ∧ (vjEventSendFrame true i sent st).1 = [] ∧
      (vjEventSendFrame true i sent st).2.accepted = Function.update st.accepted c (st.accepted c + 1) ∧
      (vjEventSendFrame true i sent st).2.frames = st.frames := by
  unfold vjEventSendFrame
  cases hfree : freePlace st.rlinks with
  | none =>
    obtain ⟨k, hk⟩ := hfits
    exact absurd hk (freePlace_none hfree k)
  | some k =>
    have hk := freePlace_some hfree
    have haccept : accept i { st with rlinks := Function.update st.rlinks k (some i), unicastFrameSender := true } =
        { st with
          rlinks := Function.update st.rlinks k (some i)
          unicastFrameSender := true
          accepted := Function.update st.accepted c (st.accepted c + 1) } := by
      unfold accept
      dsimp only
      rw [hc]
    dsimp only
    rw [if_neg (by decide), haccept]
    refine ⟨⟨fun j c' hj => ?_, fun c' => ?_, fun _ _ _ _ => rfl, h.known, h.once, fun c' hc' => ?_⟩, rfl, rfl, rfl⟩
    · show Function.update st.accepted c _ c' = st.frames c' + queued (Function.update st.rlinks k (some i)) j
      rw [queued_put hk, Function.update_apply]
      have howed := h.owed j c' hj
      by_cases hj' : i = j
      · subst hj'
        obtain rfl := Option.some.inj (hc.symm.trans hj)
        rw [if_pos rfl, if_pos rfl]
        omega
      · have hne : c' ≠ c := by
          rintro rfl
          exact hj' (h.once i j c' hc hj)
        rw [if_neg hj', if_neg hne]
        exact howed
    · show st.frames c' ≤ Function.update st.accepted c _ c'
      have hsent := h.sent c'
      rw [Function.update_apply]
      split_ifs with hcc
      · rw [hcc] at hsent ⊢
        omega
      · exact hsent
    · show Function.update st.accepted c _ c' = 0
      have hknown := h.known i c hc
      have hlt : c < c' := lt_of_lt_of_le hknown hc'
      rw [Function.update_of_ne (by omega)]
      exact h.fresh c' hc'

/-- **A new connection** takes a link for which no number waits. -/
theorem connect_inv (h : Inv st) (p : Port) (hfits : Fits st (.connect p)) :
    Inv { st with
      servers := vjServerNewClient st.servers p st.nextConnection, nextConnection := st.nextConnection + 1 } := by
  have hold : ∀ servers : Servers ℕ, (∀ j, servers .dat j = st.servers .dat j) →
      Inv { st with servers := servers, nextConnection := st.nextConnection + 1 } := by
    intro servers hsame
    have hclosed := @Inv.closed _ h servers fun j c hj => (hsame j).symm.trans hj
    exact ⟨hclosed.owed, h.sent, hclosed.sender, fun j c hj => (hclosed.known j c hj).trans (Nat.lt_succ_self _),
      hclosed.once, fun c hc => h.fresh c (Nat.le_of_succ_le hc)⟩
  unfold vjServerNewClient
  cases hslot : vjServerFreeSlot st.servers p with
  | none => exact hold _ fun _ => rfl
  | some i =>
    dsimp only
    by_cases hp : p = .dat
    · subst hp
      have hwaits := queued_eq_zero.mpr (hfits i hslot)
      have hlink : ∀ j c, setLink st.servers .dat i (some st.nextConnection) .dat j = some c →
          j = i ∧ c = st.nextConnection ∨ j ≠ i ∧ st.servers .dat j = some c := by
        intro j c hj
        by_cases hji : j = i
        · subst hji
          rw [setLink_same] at hj
          exact .inl ⟨rfl, (Option.some.inj hj).symm⟩
        · rw [setLink_other _ (.inr hji)] at hj
          exact .inr ⟨hji, hj⟩
      have hfresh := h.fresh st.nextConnection le_rfl
      have hzero : st.frames st.nextConnection = 0 := Nat.le_zero.mp (hfresh ▸ h.sent st.nextConnection)
      refine ⟨fun j c hj => ?_, h.sent, fun j c hj hq => ?_, fun j c hj => ?_, fun j j' c hj hj' => ?_,
        fun c hc => h.fresh c (Nat.le_of_succ_le hc)⟩
      · rcases hlink j c hj with ⟨rfl, rfl⟩ | ⟨-, hj⟩
        · show st.accepted st.nextConnection = st.frames st.nextConnection + queued st.rlinks j
          rw [hfresh, hzero, hwaits]
        · exact h.owed j c hj
      · rcases hlink j c hj with ⟨rfl, rfl⟩ | ⟨-, hj⟩
        · exact absurd hwaits hq
        · exact h.sender j c hj hq
      · show c < st.nextConnection + 1
        rcases hlink j c hj with ⟨-, rfl⟩ | ⟨-, hj⟩
        · exact Nat.lt_succ_self _
        · exact (h.known j c hj).trans (Nat.lt_succ_self _)
      · rcases hlink j c hj with ⟨rfl, rfl⟩ | ⟨-, hjold⟩
        · rcases hlink j' _ hj' with ⟨rfl, -⟩ | ⟨-, hj'⟩
          · rfl
          · exact absurd (h.known j' _ hj') (lt_irrefl _)
        · rcases hlink j' c hj' with ⟨rfl, rfl⟩ | ⟨-, hj'⟩
          · exact absurd (h.known j _ hjold) (lt_irrefl _)
          · exact h.once j j' c hjold hj'
    · exact hold _ fun j => setLink_other _ (.inl (Ne.symm hp))

/-- What one round of the loop keeps and changes. -/
theorem sendFrame_spec (h : Inv st) (hsender : st.unicastFrameSender = true) (sent : Fin 8 → Bool) (k : Fin 8) :
    Inv (sendFrame sent k st).2 ∧ (sendFrame sent k st).2.unicastFrameSender = true ∧
      (sendFrame sent k st).2.rlinks = Function.update st.rlinks k none ∧
      (sendFrame sent k st).2.accepted = st.accepted ∧
      ∀ c, (sendFrame sent k st).2.frames c = st.frames c + (sendFrame sent k st).1.count (.frame c) := by
  unfold sendFrame
  cases hk : st.rlinks k with
  | none =>
    have hsame : Function.update st.rlinks k none = st.rlinks := by rw [← hk, Function.update_eq_self]
    exact ⟨h, hsender, hsame.symm, rfl, fun c => rfl⟩
  | some i =>
    dsimp only
    have htake : ∀ servers : Servers ℕ, (∀ j c, servers .dat j = some c → st.servers .dat j = some c ∧ j ≠ i) →
        Inv { st with servers := servers, rlinks := Function.update st.rlinks k none } := by
      intro servers hsub
      have hclosed := @Inv.closed _ h servers fun j c hj => (hsub j c hj).1
      refine ⟨fun j c hj => ?_, h.sent, fun _ _ _ _ => hsender, hclosed.known, hclosed.once, h.fresh⟩
      have htaken := queued_take hk j
      rw [if_neg (hsub j c hj).2.symm, add_zero] at htaken
      show st.accepted c = st.frames c + queued (Function.update st.rlinks k none) j
      rw [htaken]
      exact hclosed.owed j c hj
    cases hc : st.servers .dat i with
    | none =>
      refine ⟨htake st.servers fun j c hj => ⟨hj, ?_⟩, hsender, rfl, rfl, fun c => rfl⟩
      rintro rfl
      rw [hc] at hj
      cases hj
    | some c =>
      dsimp only
      cases sent k with
      | true =>
        refine ⟨⟨fun j c' hj => ?_, fun c' => ?_, fun _ _ _ _ => hsender, h.known, h.once, h.fresh⟩, hsender, rfl, rfl,
          fun c' => ?_⟩
        · show st.accepted c' = Function.update st.frames c _ c' + queued (Function.update st.rlinks k none) j
          have howed := h.owed j c' hj
          have htaken := queued_take hk j
          rw [Function.update_apply]
          by_cases hj' : i = j
          · subst hj'
            obtain rfl := Option.some.inj (hc.symm.trans hj)
            rw [if_pos rfl] at htaken ⊢
            omega
          · have hne : c' ≠ c := by
              rintro rfl
              exact hj' (h.once i j c' hc hj)
            rw [if_neg hj'] at htaken
            rw [if_neg hne]
            omega
        · show Function.update st.frames c _ c' ≤ st.accepted c'
          rw [Function.update_apply]
          split_ifs with hcc
          · have howed := h.owed i c hc
            have htaken := queued_take hk i
            rw [if_pos rfl] at htaken
            rw [hcc]
            omega
          · exact h.sent c'
        · show Function.update st.frames c _ c' = st.frames c' + List.count (Output.frame c') [.frame c]
          rw [Function.update_apply, List.count_singleton]
          by_cases hcc : c' = c
          · subst hcc
            rw [if_pos rfl, beq_self_eq_true, if_pos rfl]
          · have hne : ¬ (Output.frame c == Output.frame c') = true := by
              rw [beq_iff_eq]
              rintro ⟨⟩
              exact hcc rfl
            rw [if_neg hcc, if_neg hne]
            rfl
      | false =>
        refine ⟨htake _ fun j c' hj => ⟨vjServerDelClient_link hj, ?_⟩, hsender, rfl, rfl, fun c => rfl⟩
        rintro rfl
        rw [vjServerDelClient, hc] at hj
        dsimp only at hj
        rw [setLink_same] at hj
        cases hj

/-- **The loop** answers what waits. -/
theorem sendLoop_spec (sent : Fin 8 → Bool) {ks : List (Fin 8)} :
    ∀ {st : State}, Inv st → st.unicastFrameSender = true →
      Inv (sendLoop sent ks st).2 ∧ (sendLoop sent ks st).2.unicastFrameSender = true ∧
        (∀ k, k ∈ ks ∨ st.rlinks k = none → (sendLoop sent ks st).2.rlinks k = none) ∧
        (sendLoop sent ks st).2.accepted = st.accepted ∧
        ∀ c, (sendLoop sent ks st).2.frames c = st.frames c + (sendLoop sent ks st).1.count (.frame c) := by
  induction ks with
  | nil => exact fun h hsender => ⟨h, hsender, fun k hk => hk.resolve_left List.not_mem_nil, rfl, fun c => rfl⟩
  | cons k ks ih =>
    intro st h hsender
    obtain ⟨h₁, hsender₁, hlinks₁, haccepted₁, hframes₁⟩ := sendFrame_spec h hsender sent k
    obtain ⟨h₂, hsender₂, hlinks₂, haccepted₂, hframes₂⟩ := ih h₁ hsender₁
    refine ⟨h₂, hsender₂, fun j hj => hlinks₂ j ?_, haccepted₂.trans haccepted₁, fun c => ?_⟩
    · rw [hlinks₁, Function.update_apply]
      by_cases hjk : j = k
      · exact .inr (if_pos hjk)
      · rw [if_neg hjk]
        exact hj.imp (fun hmem => (List.mem_cons.mp hmem).resolve_left hjk) id
    · show (sendLoop sent ks _).2.frames c = st.frames c + List.count _ (_ ++ _)
      rw [hframes₂ c, hframes₁ c, List.count_append, Nat.add_assoc]

/-- **A frame is rendered.** -/
theorem render_spec (h : Inv st) (sent : Fin 8 → Bool) :
    Inv (vjPerformSendPrimaryFrameS2 sent st).2 ∧
      Answers st (.render sent) (vjPerformSendPrimaryFrameS2 sent st).1 (vjPerformSendPrimaryFrameS2 sent st).2 := by
  unfold vjPerformSendPrimaryFrameS2
  by_cases hsender : st.unicastFrameSender = true
  · obtain ⟨h', -, hlinks, haccepted, hframes⟩ := @sendLoop_spec sent (List.finRange 8) _ h hsender
    have hnone : ∀ i, queued (sendLoop sent (List.finRange 8) st).2.rlinks i = 0 := by
      intro i
      rw [queued_eq_zero]
      intro k hk
      rw [hlinks k (.inl (List.mem_finRange k))] at hk
      cases hk
    rw [if_pos hsender]
    refine ⟨⟨h'.owed, h'.sent, fun i c _ hq => absurd (hnone i) hq, h'.known, h'.once, h'.fresh⟩, hframes, h'.sent,
      haccepted, fun i c hc => ?_⟩
    have howed := h'.owed i c hc
    rw [hnone i] at howed
    exact howed.symm
  · rw [if_neg hsender]
    refine ⟨h, fun c => rfl, h.sent, rfl, fun i c hc => ?_⟩
    have howed := h.owed i c hc
    have hnone : queued st.rlinks i = 0 := not_not.mp fun hq => hsender (h.sender i c hc hq)
    rw [hnone] at howed
    exact howed.symm

/-- One event. -/
theorem frameStep_spec (h : Inv st) (e : FrameEvent) (hfits : Fits st e) :
    ∃ out st', frameStep st e = .ok (out, st') ∧ Inv st' ∧ Answers st e out st' := by
  cases e with
  | connect p => exact ⟨[], _, rfl, connect_inv h p hfits, fun c => rfl, h.sent, rfl, rfl⟩
  | close i ports => exact ⟨[], _, rfl, h.closed fun i c hc => delClients_link hc, fun c => rfl, h.sent, rfl, rfl⟩
  | render sent =>
    obtain ⟨h', hanswers⟩ := render_spec h sent
    exact ⟨_, _, rfl, h', hanswers⟩
  | cmdRequest i sent =>
    cases hc : st.servers .cmd i with
    | none =>
      refine ⟨[], st, ?_, h, fun c => rfl, h.sent, fun c hc' => ?_⟩
      · rw [frameStep, hc]
        rfl
      · rw [hc] at hc'
        cases hc'
    | some c =>
      obtain ⟨h', hout, haccepted, hframes⟩ := @cmdRequest_spec _ _ sent h _ hc (hfits (by rw [hc]; rfl))
      refine ⟨(vjEventSendFrame false i sent st).1, (vjEventSendFrame false i sent st).2, ?_, h', fun c' => ?_, h'.sent,
        fun c' hc' => ?_⟩
      · rw [frameStep, hc]
        rfl
      · rw [hframes, hout]
        cases sent <;> rfl
      · obtain rfl := Option.some.inj (hc.symm.trans hc')
        exact ⟨hout, haccepted⟩
  | datRequest i sent =>
    cases hc : st.servers .dat i with
    | none =>
      refine ⟨[], st, ?_, h, fun c => rfl, h.sent, fun c hc' => ?_⟩
      · rw [frameStep, hc]
        rfl
      · rw [hc] at hc'
        cases hc'
    | some c =>
      obtain ⟨h', hout, haccepted, hframes⟩ := @datRequest_spec _ _ sent h _ hc (hfits (by rw [hc]; rfl))
      refine ⟨(vjEventSendFrame true i sent st).1, (vjEventSendFrame true i sent st).2, ?_, h', fun c' => ?_, h'.sent,
        fun c' hc' => ?_⟩
      · rw [frameStep, hc]
        rfl
      · rw [hframes, hout]
        rfl
      · obtain rfl := Option.some.inj (hc.symm.trans hc')
        exact ⟨hout, haccepted⟩

end Steps

/-! ## Runs -/

theorem start_inv : Inv start where
  owed _ _ hc := nomatch hc
  sent _ := le_rfl
  sender _ _ hc := nomatch hc
  known _ _ hc := nomatch hc
  once _ _ _ hc := nomatch hc
  fresh _ _ := rfl

/-- **One frame for each request**, in runs that leave no number for another connection. -/
theorem one_frame_per_request {events : List FrameEvent} (hfits : RunMeets frameStep Fits start events) :
    RunShows frameStep Answers start events := by
  have hstep : ∀ st e, Inv st → Fits st e → ∃ out st', frameStep st e = .ok (out, st') ∧ Inv st' ∧ Answers st e out st' :=
    fun st e h hfits => frameStep_spec h e hfits
  exact runOps_shows hstep events start start_inv hfits

/-- Two requests on a data link, and a frame. -/
theorem one_frame_per_request_twice :
    RunShows frameStep Answers start
      [.connect .cmd, .connect .dat, .datRequest 0 true, .datRequest 0 true, .render fun _ => true] := by
  refine one_frame_per_request ⟨trivial, fun _ s₁ h₁ => ⟨?_, fun _ s₂ h₂ => ⟨?_, fun _ s₃ h₃ => ⟨?_, fun _ s₄ h₄ => ?_⟩⟩⟩⟩
  all_goals obtain ⟨-, rfl⟩ := Prod.mk.inj (Except.ok.inj h₁)
  · exact fun _ _ _ => nofun
  all_goals obtain ⟨-, rfl⟩ := Prod.mk.inj (Except.ok.inj h₂)
  · exact fun _ => ⟨0, rfl⟩
  all_goals obtain ⟨-, rfl⟩ := Prod.mk.inj (Except.ok.inj h₃)
  · exact fun _ => ⟨1, rfl⟩
  · exact ⟨trivial, fun _ _ _ => trivial⟩

/-- **A request on the command port** makes the data link of its number get a frame that it did not ask for. -/
theorem frame_without_request :
    Ensures (runOps frameStep start
      [.connect .cmd, .connect .dat, .connect .dat, .cmdRequest 0 true, .datRequest 1 true, .render fun _ => true])
      fun a => a.2.servers .dat 0 = some 1 ∧ a.2.accepted 1 = 0 ∧ a.2.frames 1 = 1 := by
  refine ⟨_, rfl, ?_⟩
  decide

/-- A link that is closed leaves its number for the next connection. -/
example :
    Ensures (runOps frameStep start
      [.connect .dat, .datRequest 0 true, .close 0 [.dat], .connect .dat, .render fun _ => true])
      fun a => a.2.servers .dat 0 = some 1 ∧ a.2.accepted 1 = 0 ∧ a.2.frames 1 = 1 := by
  refine ⟨_, rfl, ?_⟩
  decide

end Veejay.FrameRequests
