import TestLinux.Kcp.Server
import TestLinux.Kcp.Endpoint

/-!
# Datagrams that `ikcp_input` rejects

`Run` looks up or creates the session of a datagram, announces it and stores the source address
before the datagram is passed to `ikcp_input`. `unchanged_iff` says for every state of the server
and every rejected datagram when this leaves the server as it is: exactly if the conversation is
known and the datagram comes from the address that is stored for it. Of `ikcp_input` the theorem
uses that it does not touch the queue of messages to send.

`rejected_datagram_joins` is the failure: a datagram with an unknown command opens a session.
-/

set_option autoImplicit false
set_option relaxedAutoImplicit false

namespace TestLinux.Kcp

open TestLinux.Streams

variable {K D : Type} (ikcp : Ikcp K D)

/-- `Input` of the session that `GetSession` returns for a datagram reports an error. -/
def Server.Rejects (server : Server K) (datagram : D) (addr : SockAddr) : Prop :=
  let found := server.getSession ikcp (getConv (ikcp.bytes datagram)) addr
  ((found.2.objects found.1).input ikcp datagram).1 ≠ 0

instance decidableRejects (server : Server K) (datagram : D) (addr : SockAddr) :
    Decidable (server.Rejects ikcp datagram addr) := inferInstanceAs (Decidable (_ ≠ _))

/-- The sessions, the users, the addresses and the queues of messages to send are the same. -/
def Unchanged (outgoing : K → List (List UInt8)) (server next : Server K) : Prop :=
  next.sessions = server.sessions ∧ next.users = server.users ∧
    ∀ id, (next.objects id).addr = (server.objects id).addr ∧
      outgoing (next.objects id).kcp = outgoing (server.objects id).kcp

section Rejected

variable {ikcp} {server : Server K} {datagram : D} {addr : SockAddr}

theorem setAddr_buf (server : Server K) (buf : List UInt8) (id : ℕ) (addr : SockAddr) :
    Server.setAddr { server with buf := buf } id addr =
      { server.setAddr id addr with buf := buf } := by
  unfold Server.setAddr
  dsimp only
  split_ifs <;> rfl

/-- The buffer plays no part in finding a session. -/
theorem getSession_buf (server : Server K) (buf : List UInt8) (conv : UInt32) (addr : SockAddr) :
    Server.getSession ikcp { server with buf := buf } conv addr =
      ((server.getSession ikcp conv addr).1,
        { (server.getSession ikcp conv addr).2 with buf := buf }) := by
  unfold Server.getSession
  dsimp only
  cases server.sessions.lookup conv with
  | some id => exact congrArg (Prod.mk id) (setAddr_buf server buf id addr)
  | none =>
    have hnext := setAddr_buf { server.newSession ikcp conv addr with
      sessions := (server.newSession ikcp conv addr).sessions.insert conv server.nextId } buf
      server.nextId addr
    exact congrArg (Prod.mk server.nextId) hnext

/-- A rejected datagram changes what `GetSession` changes, and the control block of the session. -/
theorem receive_of_rejects (clock : ℕ → ℤ) (hlength : 24 ≤ (ikcp.bytes datagram).length)
    (hrejects : server.Rejects ikcp datagram addr) :
    server.receive ikcp datagram addr clock =
      let found := server.getSession ikcp (getConv (ikcp.bytes datagram)) addr
      { found.2.store found.1 ((found.2.objects found.1).input ikcp datagram).2 with
        buf := overwrite server.buf (ikcp.bytes datagram) } := by
  unfold Server.receive
  dsimp only
  rw [if_neg (Nat.not_lt.mpr hlength), getConv_overwrite hlength, getSession_buf]
  unfold Server.handleSession
  exact if_pos hrejects

theorem getSession_of_known {id : ℕ}
    (hid : server.sessions.lookup (getConv (ikcp.bytes datagram)) = some id) :
    server.getSession ikcp (getConv (ikcp.bytes datagram)) addr = (id, server.setAddr id addr) := by
  unfold Server.getSession
  rw [hid]

theorem addr_setAddr (server : Server K) (id : ℕ) (addr : SockAddr) :
    ((server.setAddr id addr).objects id).addr = addr := by
  unfold Server.setAddr
  split_ifs with hdiffers
  · show (Function.update server.objects id _ id).addr = addr
    rw [Function.update_self]
  · exact not_not.mp hdiffers

/-- If a rejected datagram changes nothing, then it comes from the stored address of a known
conversation. -/
theorem known_of_unchanged {outgoing : K → List (List UInt8)} {clock : ℕ → ℤ}
    (hlength : 24 ≤ (ikcp.bytes datagram).length) (hrejects : server.Rejects ikcp datagram addr)
    (hunchanged : Unchanged outgoing server (server.receive ikcp datagram addr clock)) :
    ∃ id, server.sessions.lookup (getConv (ikcp.bytes datagram)) = some id ∧
      (server.objects id).addr = addr := by
  rw [receive_of_rejects clock hlength hrejects] at hunchanged
  obtain ⟨hsessions, -, hobjects⟩ := hunchanged
  cases hlookup : server.sessions.lookup (getConv (ikcp.bytes datagram)) with
  | some id =>
    refine ⟨id, rfl, ?_⟩
    rw [← (hobjects id).1, getSession_of_known hlookup]
    show (Function.update (server.setAddr id addr).objects id _ id).addr = addr
    rw [Function.update_self]
    exact addr_setAddr server id addr
  | none =>
    -- a new session is stored
    have hfound := (moves_getSession ikcp server datagram addr clock).2
    have hsame : (server.getSession ikcp (getConv (ikcp.bytes datagram)) addr).2.sessions =
        server.sessions := hsessions
    rw [hsame, hlookup] at hfound
    exact absurd hfound (by simp)

/-- A rejected datagram from the stored address of a known conversation changes nothing. -/
theorem unchanged_of_known {outgoing : K → List (List UInt8)}
    (hinput : ∀ kcp datagram, outgoing (ikcp.input kcp datagram).2 = outgoing kcp)
    (clock : ℕ → ℤ) (hlength : 24 ≤ (ikcp.bytes datagram).length)
    (hrejects : server.Rejects ikcp datagram addr) {id : ℕ}
    (hid : server.sessions.lookup (getConv (ikcp.bytes datagram)) = some id)
    (haddr : (server.objects id).addr = addr) :
    Unchanged outgoing server (server.receive ikcp datagram addr clock) := by
  have hfound : server.setAddr id addr = server := if_neg (not_not.mpr haddr)
  rw [receive_of_rejects clock hlength hrejects, getSession_of_known hid, hfound]
  refine ⟨rfl, rfl, fun other ↦ ?_⟩
  show (Function.update server.objects id _ other).addr = _ ∧
    outgoing (Function.update server.objects id _ other).kcp = _
  by_cases hother : other = id
  · rw [hother, Function.update_self]
    exact ⟨rfl, hinput _ _⟩
  · rw [Function.update_of_ne hother]
    exact ⟨rfl, rfl⟩

/-- A rejected datagram changes nothing exactly if its conversation is known and it comes from the
address that is stored for it. Assumes: `ikcp_input` leaves the queue of messages to send alone, the
datagram has the size of a header, and it is rejected. -/
theorem unchanged_iff (outgoing : K → List (List UInt8))
    (hinput : ∀ kcp datagram, outgoing (ikcp.input kcp datagram).2 = outgoing kcp)
    (clock : ℕ → ℤ) (hlength : 24 ≤ (ikcp.bytes datagram).length)
    (hrejects : server.Rejects ikcp datagram addr) :
    Unchanged outgoing server (server.receive ikcp datagram addr clock) ↔
      ∃ id, server.sessions.lookup (getConv (ikcp.bytes datagram)) = some id ∧
        (server.objects id).addr = addr := by
  constructor
  · exact known_of_unchanged hlength hrejects
  · rintro ⟨id, hid, haddr⟩
    exact unchanged_of_known hinput clock hlength hrejects hid haddr

end Rejected

/-- A server that a client has joined. -/
def joinedServer : Server Endpoint :=
  (Server.start queueIkcp chatOpt).receive queueIkcp ⟨segment 1 83 [], []⟩ ⟨10, 0, 0, 1, 7001⟩
    fun _ ↦ 100

/-- A datagram with an unknown command from the client. -/
theorem unchanged_iff_joinedServer :
    joinedServer.Rejects queueIkcp ⟨segment 1 0 [], []⟩ ⟨10, 0, 0, 1, 7001⟩ ∧
      Unchanged Endpoint.outgoing joinedServer (joinedServer.receive queueIkcp
        ⟨segment 1 0 [], []⟩ ⟨10, 0, 0, 1, 7001⟩ fun _ ↦ 101) := by
  have hrejects : joinedServer.Rejects queueIkcp ⟨segment 1 0 [], []⟩ ⟨10, 0, 0, 1, 7001⟩ := by
    decide +kernel
  refine ⟨hrejects, (unchanged_iff Endpoint.outgoing (fun _ _ ↦ rfl) _ (by decide) hrejects).mpr ?_⟩
  exact ⟨0, by decide +kernel, by decide +kernel⟩

/-- The failure: a datagram with an unknown command from nobody opens a session and is announced,
and the same datagram with the conversation of a client replaces the address of the client. -/
theorem rejected_datagram_joins :
    ((Server.start queueIkcp chatOpt).Rejects queueIkcp ⟨segment 9 0 [], []⟩ ⟨10, 0, 0, 9, 7009⟩ ∧
      ((Server.start queueIkcp chatOpt).receive queueIkcp ⟨segment 9 0 [], []⟩
        ⟨10, 0, 0, 9, 7009⟩ fun _ ↦ 100).users = {0} ∧
      ¬ Unchanged Endpoint.outgoing (Server.start queueIkcp chatOpt)
        ((Server.start queueIkcp chatOpt).receive queueIkcp ⟨segment 9 0 [], []⟩
          ⟨10, 0, 0, 9, 7009⟩ fun _ ↦ 100)) ∧
    joinedServer.Rejects queueIkcp ⟨segment 1 0 [], []⟩ ⟨10, 0, 0, 9, 7009⟩ ∧
      ((joinedServer.receive queueIkcp ⟨segment 1 0 [], []⟩ ⟨10, 0, 0, 9, 7009⟩
        fun _ ↦ 101).objects 0).addr = ⟨10, 0, 0, 9, 7009⟩ := by
  have husers : ((Server.start queueIkcp chatOpt).receive queueIkcp ⟨segment 9 0 [], []⟩
      ⟨10, 0, 0, 9, 7009⟩ fun _ ↦ 100).users = {0} := by decide +kernel
  refine ⟨⟨by decide +kernel, husers, fun hunchanged ↦ ?_⟩, by decide +kernel, by decide +kernel⟩
  have hsame := hunchanged.2.1
  rw [husers] at hsame
  exact absurd hsame (Finset.singleton_ne_empty 0)

end TestLinux.Kcp
