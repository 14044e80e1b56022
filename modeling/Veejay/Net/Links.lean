import Veejay.CLib.Exec

/-!
# Links of the three servers

A client has a connection to the command port, one to the status port and one to the data port.  Each of the
three servers gives a new connection the first link that it does not use; what closes a command connection
addresses all three servers by the number of its link.

* `Servers` — the links of the three servers, with the client at the other end;
* `LinkEvent`, `linkStep` — what happens on them, and what is closed;
* `Isolated` — nothing of another client is closed with a command connection;
* `TakesOwnLink` — a new connection takes a link that no other client has on the other servers;
* `links_isolated_iff` — **links are isolated exactly then.**
-/

namespace Veejay.Net

open CLib

/-- `VJ_MAX_CONNECTIONS` -/
abbrev vjMaxConnections : ℕ := 16

/-- The servers that a client connects to: `VEEJAY_PORT_CMD`, `VEEJAY_PORT_STA` and `VEEJAY_PORT_DAT`. -/
inductive Port where
  | cmd
  | sta
  | dat
  deriving DecidableEq, Repr

section Servers

variable {Client : Type}

/-- The links that are in use, and whose they are. -/
abbrev Servers (Client : Type) := Port → Fin vjMaxConnections → Option Client

/-- A connection that was closed. -/
structure Closed (Client : Type) where
  port : Port
  link : Fin vjMaxConnections
  client : Client

/-- Three servers without a client. -/
def noClients : Servers Client := fun _ _ => none

/-- `_vj_server_free_slot` -/
def vjServerFreeSlot (s : Servers Client) (p : Port) : Option (Fin vjMaxConnections) :=
  (List.finRange vjMaxConnections).find? fun i => (s p i).isNone

/-- The link of a server is set. -/
def setLink (s : Servers Client) (p : Port) (i : Fin vjMaxConnections) (c : Option Client) : Servers Client :=
  Function.update s p (Function.update (s p) i c)

/-- `_vj_server_new_client`; where all links are in use the connection is not taken. -/
def vjServerNewClient (s : Servers Client) (p : Port) (c : Client) : Servers Client :=
  match vjServerFreeSlot s p with
  | none => s
  | some i => setLink s p i (some c)

/-- `_vj_server_del_client`: what is closed, and the servers. -/
def vjServerDelClient (s : Servers Client) (p : Port) (i : Fin vjMaxConnections) :
    List (Closed Client) × Servers Client :=
  match s p i with
  | none => ([], s)
  | some c => ([⟨p, i, c⟩], setLink s p i none)

/-- `_vj_server_del_client` on several servers, one after the other. -/
def delClients (s : Servers Client) (i : Fin vjMaxConnections) :
    List Port → List (Closed Client) × Servers Client
  | [] => ([], s)
  | p :: ps =>
    let (closed, s) := vjServerDelClient s p i
    let (more, s) := delClients s i ps
    (closed ++ more, s)

/-- What happens on the links of the servers. -/
inductive LinkEvent (Client : Type) where
  /-- `vj_server_new_connection` -/
  | connect (p : Port) (c : Client)
  /-- `vj_server_update` fails on a command link, in `vj_event_update_remote` -/
  | commandFails (i : Fin vjMaxConnections)
  /-- `vj_server_update` fails on a data link, in `vj_event_update_remote` -/
  | dataFails (i : Fin vjMaxConnections)
  /-- `SEND_DATA` or `SEND_MSG` cannot send to `current_link` -/
  | replyFails (i : Fin vjMaxConnections)
  /-- `vj_event_linkclose` -/
  | linkClose (i : Fin vjMaxConnections)
  /-- a status line cannot be sent, in `veejay_handle_callbacks` -/
  | statusFails (i : Fin vjMaxConnections)
  /-- a frame cannot be sent, in `vj_perform_send_primary_frame_s2` -/
  | frameFails (i : Fin vjMaxConnections)

/-- The link that an event closes, and on which servers. -/
def LinkEvent.closes : LinkEvent Client → Option (Fin vjMaxConnections × List Port)
  | .connect _ _ => none
  | .commandFails i => some (i, [.cmd, .sta])
  | .dataFails i => some (i, [.dat])
  | .replyFails i => some (i, [.cmd, .sta, .dat])
  | .linkClose i => some (i, [.cmd, .sta, .dat])
  | .statusFails i => some (i, [.cmd, .sta, .dat])
  | .frameFails i => some (i, [.dat])

/-- One event: what is closed, and the servers. -/
def linkStep (s : Servers Client) (e : LinkEvent Client) : Exec (List (Closed Client) × Servers Client) :=
  match e with
  | .connect p c => .ok ([], vjServerNewClient s p c)
  | e =>
    match e.closes with
    | none => .ok ([], s)
    | some (i, ps) => .ok (delClients s i ps)

/-! ## Isolation -/

/-- An event that closes a client's command connection closes no status or data connection of another
client. -/
def Isolates (s : Servers Client) (e : LinkEvent Client) : Prop :=
  Ensures (linkStep s e) fun a => ∀ x ∈ a.1, x.port = .cmd → ∀ y ∈ a.1, y.client = x.client

/-- Whatever happens next, no other client loses a connection with a command connection. -/
def Isolated (s : Servers Client) : Prop := ∀ e, Isolates s e

/-- A new connection takes a link that is free, or the same client's, on the other servers: on the command
server if it is a status or data connection, on the other two if it is a command connection. -/
def TakesOwnLink (s : Servers Client) : LinkEvent Client → Prop
  | .connect p c => ∀ i, vjServerFreeSlot s p = some i → ∀ q d, q ≠ p → (p = .cmd ∨ q = .cmd) →
      s q i = some d → d = c
  | _ => True

/-- A status or data link belongs to the client that has the command link of its number. -/
def Aligned (s : Servers Client) : Prop :=
  ∀ i c p d, s .cmd i = some c → s p i = some d → d = c

/-! ## Closing -/

theorem setLink_same (s : Servers Client) (p : Port) (i : Fin vjMaxConnections) (c : Option Client) :
    setLink s p i c p i = c := by
  rw [setLink, Function.update_self, Function.update_self]

theorem setLink_other {s : Servers Client} {p q : Port} {i j : Fin vjMaxConnections} (c : Option Client)
    (h : q ≠ p ∨ j ≠ i) : setLink s p i c q j = s q j := by
  rw [setLink]
  by_cases hq : q = p
  · subst hq
    rw [Function.update_self, Function.update_of_ne (h.resolve_left fun hne => hne rfl)]
  · rw [Function.update_of_ne hq]

/-- A link that is still in use was in use before. -/
theorem vjServerDelClient_link {s : Servers Client} {p q : Port} {i j : Fin vjMaxConnections} {c : Client}
    (h : (vjServerDelClient s p i).2 q j = some c) : s q j = some c := by
  rw [vjServerDelClient] at h
  split at h
  · exact h
  · dsimp only at h
    by_cases hsame : q = p ∧ j = i
    · obtain ⟨rfl, rfl⟩ := hsame
      rw [setLink_same] at h
      cases h
    · rwa [setLink_other none (by tauto)] at h

theorem delClients_link {ps : List Port} {s : Servers Client} {q : Port} {i j : Fin vjMaxConnections}
    {c : Client} (h : (delClients s i ps).2 q j = some c) : s q j = some c := by
  induction ps generalizing s with
  | nil => exact h
  | cons p ps ih => exact vjServerDelClient_link (ih h)

/-- What is closed was in use, with its client. -/
theorem delClients_closed {ps : List Port} {s : Servers Client} {i : Fin vjMaxConnections} {x : Closed Client}
    (h : x ∈ (delClients s i ps).1) : s x.port i = some x.client := by
  induction ps generalizing s with
  | nil => exact absurd h List.not_mem_nil
  | cons p ps ih =>
    rw [delClients] at h
    rcases List.mem_append.mp h with hfirst | hmore
    · rw [vjServerDelClient] at hfirst
      split at hfirst
      · exact absurd hfirst List.not_mem_nil
      · rename_i c hc
        obtain rfl := List.mem_singleton.mp hfirst
        exact hc
    · exact vjServerDelClient_link (ih hmore)

/-- On every server that is addressed, the link is closed. -/
theorem mem_delClients {ps : List Port} {s : Servers Client} {i : Fin vjMaxConnections} {p : Port} {c : Client}
    (hp : p ∈ ps) (h : s p i = some c) : ⟨p, i, c⟩ ∈ (delClients s i ps).1 := by
  induction ps generalizing s with
  | nil => exact absurd hp List.not_mem_nil
  | cons q ps ih =>
    rw [delClients]
    refine List.mem_append.mpr ?_
    by_cases hq : p = q
    · subst hq
      left
      rw [vjServerDelClient, h]
      exact List.mem_singleton_self _
    · right
      refine ih ((List.mem_cons.mp hp).resolve_left hq) ?_
      rw [vjServerDelClient]
      split
      · exact h
      · dsimp only
        rw [setLink_other none (Or.inl hq)]
        exact h

/-- An event that is not a new connection closes one link on some servers. -/
theorem linkStep_closes {s : Servers Client} {e : LinkEvent Client} (h : ∀ p c, e ≠ .connect p c) :
    ∃ i ps, linkStep s e = .ok (delClients s i ps) := by
  cases e with
  | connect p c => exact absurd rfl (h p c)
  | commandFails i => exact ⟨i, _, rfl⟩
  | dataFails i => exact ⟨i, _, rfl⟩
  | replyFails i => exact ⟨i, _, rfl⟩
  | linkClose i => exact ⟨i, _, rfl⟩
  | statusFails i => exact ⟨i, _, rfl⟩
  | frameFails i => exact ⟨i, _, rfl⟩

/-- Links are isolated where they are aligned. -/
theorem isolated_iff_aligned (s : Servers Client) : Isolated s ↔ Aligned s := by
  constructor
  · intro h i c p d hc hd
    obtain ⟨a, ha, hclosed⟩ := h (.replyFails i)
    obtain rfl := Except.ok.inj ha
    have hp : p ∈ [Port.cmd, .sta, .dat] := by cases p <;> decide
    exact hclosed ⟨.cmd, i, c⟩ (mem_delClients List.mem_cons_self hc) rfl ⟨p, i, d⟩ (mem_delClients hp hd)
  · intro h e
    by_cases hconnect : ∃ p c, e = .connect p c
    · obtain ⟨p, c, rfl⟩ := hconnect
      exact ⟨_, rfl, fun x hx => absurd hx List.not_mem_nil⟩
    · obtain ⟨i, ps, hstep⟩ := @linkStep_closes _ s e fun p c he => hconnect ⟨p, c, he⟩
      refine ⟨_, hstep, fun x hx hcmd y hy => ?_⟩
      have hxs := delClients_closed hx
      rw [hcmd] at hxs
      exact h i x.client y.port y.client hxs (delClients_closed hy)

/-! ## Connecting -/

/-- **A new connection** leaves the links aligned exactly if it takes its own link. -/
theorem connect_aligned_iff {s : Servers Client} (h : Aligned s) (p : Port) (c : Client) :
    Aligned (vjServerNewClient s p c) ↔ TakesOwnLink s (.connect p c) := by
  rw [vjServerNewClient, TakesOwnLink]
  cases hslot : vjServerFreeSlot s p with
  | none => exact ⟨fun _ i hi => (by cases hi), fun _ => h⟩
  | some i =>
    dsimp only
    constructor
    · intro ht i' hi' q d hq hcmd hd
      obtain rfl := Option.some.inj hi'
      have hd' : setLink s p i (some c) q i = some d := by
        rw [setLink_other _ (Or.inl hq)]
        exact hd
      have hc' : setLink s p i (some c) p i = some c := setLink_same s p i _
      rcases hcmd with rfl | rfl
      · exact ht i c q d hc' hd'
      · exact (ht i d p c hd' hc').symm
    · intro hown j c' q d hc' hd'
      by_cases hj : j = i
      · subst hj
        by_cases hp : p = .cmd
        · subst hp
          rw [setLink_same] at hc'
          obtain rfl := Option.some.inj hc'
          by_cases hq : q = .cmd
          · subst hq
            rw [setLink_same] at hd'
            exact (Option.some.inj hd').symm
          · rw [setLink_other _ (Or.inl hq)] at hd'
            exact hown j rfl q d hq (Or.inl rfl) hd'
        · rw [setLink_other _ (Or.inl (Ne.symm hp))] at hc'
          by_cases hq : q = p
          · subst hq
            rw [setLink_same] at hd'
            obtain rfl := Option.some.inj hd'
            exact (hown j rfl .cmd c' (Ne.symm hp) (Or.inr rfl) hc').symm
          · rw [setLink_other _ (Or.inl hq)] at hd'
            exact h j c' q d hc' hd'
      · rw [setLink_other _ (Or.inr hj)] at hc' hd'
        exact h j c' q d hc' hd'

/-- One event leaves the links isolated exactly under its condition. -/
theorem linkStep_isolated_iff {s : Servers Client} (h : Isolated s) (e : LinkEvent Client) :
    ∃ closed s', linkStep s e = .ok (closed, s') ∧ (Isolated s' ↔ TakesOwnLink s e) := by
  have haligned := (isolated_iff_aligned s).mp h
  by_cases hconnect : ∃ p c, e = .connect p c
  · obtain ⟨p, c, rfl⟩ := hconnect
    exact ⟨[], vjServerNewClient s p c, rfl, (isolated_iff_aligned _).trans (connect_aligned_iff haligned p c)⟩
  · obtain ⟨i, ps, hstep⟩ := @linkStep_closes _ s e fun p c he => hconnect ⟨p, c, he⟩
    have hown : TakesOwnLink s e := by
      cases e with
      | connect p c => exact absurd ⟨p, c, rfl⟩ hconnect
      | commandFails i => trivial
      | dataFails i => trivial
      | replyFails i => trivial
      | linkClose i => trivial
      | statusFails i => trivial
      | frameFails i => trivial
    refine ⟨_, _, hstep, fun _ => hown, fun _ => (isolated_iff_aligned _).mpr ?_⟩
    exact fun j c p d hc hd => haligned j c p d (delClients_link hc) (delClients_link hd)

end Servers

end Veejay.Net
