import TestLinux.Library.Runs
import TestLinux.Library.Streams
import TestLinux.Kcp.Session
import Mathlib.Data.Finset.Erase
import Mathlib.Data.Finset.Insert
import Mathlib.Data.List.AList
import Mathlib.Logic.Relation

/-!
# `KcpServer` and `ChatServer` of `2.2.3-udp-kcp-quic`

The chat server keeps its sessions in `sessions_`, by conversation number, and in `users_`. A
session is a shared object: `objects` is the memory, and both containers hold numbers of objects.
`Run` handles one datagram and `Update` visits all sessions, each under the mutex of the server, so
that the two threads are interleaved at whole calls.

`Notify` calls `Send` of every user; the calls do not depend on each other, and the order in which
`users_` is visited is not modelled. The order in which `Update` visits the sessions is that of an
unordered map: it is part of the event, as are the readings of the clock. `calls` records the calls
of `HandleConnection`, `HandleMessage` and `HandleClose` with the users at the time of their
`Notify`; no step reads it.

The loop of `HandleSession` ends because every message that is taken out decreases the number of
pending segments of the session, and the broadcast of it leaves that number alone.
-/

set_option autoImplicit false
set_option relaxedAutoImplicit false

namespace TestLinux.Kcp

open TestLinux.Streams

/-! ### Texts -/

/-- The handlers of `ChatServer`. -/
inductive Notice
  | join
  | message (msg : List UInt8)
  | leave
  deriving DecidableEq

/-- The text that a handler passes to `Notify`. -/
def Notice.text (notice : Notice) (addr : SockAddr) : List UInt8 :=
  ascii "user from [".toList ++ addr.toText ++
    match notice with
    | .join => ascii "] join the ChatRoom!".toList
    | .message msg => ascii "] : ".toList ++ msg
    | .leave => ascii "] left the ChatRoom!".toList

/-- A call of a handler, with the address of the session and the users that are notified. -/
structure Call where
  notice : Notice
  session : ℕ
  addr : SockAddr
  users : Finset ℕ
  deriving DecidableEq

/-- The text that is sent. -/
def Call.text (call : Call) : List UInt8 := call.notice.text call.addr

/-! ### The server -/

/-- `KcpServer`, `ChatServer` and their sessions. -/
structure Server (K : Type) where
  opt : KcpOpt
  sessions : AList fun _ : UInt32 ↦ ℕ
  users : Finset ℕ
  objects : ℕ → Session K
  nextId : ℕ
  buf : List UInt8
  calls : List Call
  exited : Bool

/-- The options of `main` of the chat server. -/
def chatOpt : KcpOpt := ⟨true, 5000, 0⟩

section Server

variable {K D : Type} (ikcp : Ikcp K D)

/-- The constructor. -/
def Server.start (opt : KcpOpt) : Server K where
  opt := opt
  sessions := ∅
  users := ∅
  objects := fun _ ↦ .new ikcp opt ⟨0, 0, 0, 0, 0⟩
  nextId := 0
  buf := List.replicate 4096 0
  calls := []
  exited := false

/-- A session object changes. -/
def Server.store (server : Server K) (id : ℕ) (session : Session K) : Server K :=
  { server with objects := Function.update server.objects id session }

/-- `Notify`. -/
def Server.notify (server : Server K) (text : List UInt8) : Server K :=
  { server with objects := fun id ↦
      if id ∈ server.users then (Session.send ikcp (server.objects id) text).2
      else server.objects id }

/-- The common end of the handlers. -/
def Server.announce (server : Server K) (notice : Notice) (id : ℕ) : Server K :=
  { server.notify ikcp (notice.text (server.objects id).addr) with
    calls := server.calls ++ [⟨notice, id, (server.objects id).addr, server.users⟩] }

/-- `HandleConnection`. -/
def Server.handleConnection (server : Server K) (id : ℕ) : Server K :=
  Server.announce ikcp { server with users := insert id server.users } .join id

/-- `HandleMessage`. -/
def Server.handleMessage (server : Server K) (id : ℕ) (msg : List UInt8) : Server K :=
  server.announce ikcp (.message msg) id

/-- `HandleClose`. -/
def Server.handleClose (server : Server K) (id : ℕ) : Server K :=
  Server.announce ikcp { server with users := server.users.erase id } .leave id

/-- `NewSession`. The session is the next object. -/
def Server.newSession (server : Server K) (conv : UInt32) (addr : SockAddr) : Server K :=
  Server.handleConnection ikcp
    { server.store server.nextId (.new ikcp { server.opt with conv := conv } addr) with
      nextId := server.nextId + 1 } server.nextId

/-- `SetAddr`, if the address of the session differs. -/
def Server.setAddr (server : Server K) (id : ℕ) (addr : SockAddr) : Server K :=
  if (server.objects id).addr ≠ addr then
    server.store id { server.objects id with addr := addr }
  else server

/-- `GetSession`. -/
def Server.getSession (server : Server K) (conv : UInt32) (addr : SockAddr) : ℕ × Server K :=
  match server.sessions.lookup conv with
  | some id => (id, server.setAddr id addr)
  | none =>
    let next := server.newSession ikcp conv addr
    (server.nextId,
      { next with sessions := next.sessions.insert conv server.nextId }.setAddr server.nextId addr)

/-- `SetKeepAlive`. -/
def Server.setKeepAlive (server : Server K) (id : ℕ) (current : ℤ) : Server K :=
  server.store id { server.objects id with recvLatestTime := current }

/-! ### The loop of `HandleSession` -/

theorem pending_announce (server : Server K) (notice : Notice) (other id : ℕ) :
    ikcp.pending ((server.announce ikcp notice other).objects id).kcp =
      ikcp.pending (server.objects id).kcp := by
  show ikcp.pending (if id ∈ server.users then
    (Session.send ikcp (server.objects id) _).2 else server.objects id).kcp = _
  split_ifs
  · exact ikcp.pending_send _ _
  · rfl

theorem pending_of_recv {session next : Session K} {size : ℕ} {message : List UInt8}
    (hrecv : session.recv ikcp size = .ok (message, next)) (hmessage : message ≠ []) :
    ikcp.pending next.kcp < ikcp.pending session.kcp := by
  unfold Session.recv at hrecv
  split at hrecv
  · cases hrecv
  · rename_i taken kcp hkcp
    obtain ⟨rfl, rfl⟩ := Prod.mk.inj (Except.ok.inj hrecv)
    exact ikcp.pending_recv _ _ _ _ hkcp hmessage

/-- A message has been copied to the front of the buffer. -/
def Server.take (server : Server K) (id : ℕ) (session : Session K) (message : List UInt8) :
    Server K :=
  { server.store id session with buf := overwrite server.buf message }

/-- The loop takes out messages until there is none, or an empty one. The comparison with the
keep-alive command reads the buffer and not the length of the message. -/
def Server.drain (server : Server K) (id : ℕ) (clock : ℕ → ℤ) (count : ℕ) : Server K :=
  match _hrecv : (server.objects id).recv ikcp 4096 with
  | .error code => if code = -3 then { server with exited := true } else server
  | .ok (message, session) =>
    let next := server.take id session message
    if _hmessage : message = [] then next
    else if next.buf.take keepAliveCmd.length = keepAliveCmd then
      (next.setKeepAlive id (clock count)).drain id clock (count + 1)
    else (next.handleMessage ikcp id message).drain id clock (count + 1)
termination_by ikcp.pending (server.objects id).kcp
decreasing_by
  · have hless := pending_of_recv ikcp _hrecv _hmessage
    simpa [Server.setKeepAlive, Server.take, Server.store] using hless
  · have hless := pending_of_recv ikcp _hrecv _hmessage
    rw [Server.handleMessage, pending_announce]
    simpa [Server.take, Server.store] using hless

/-- `HandleSession`. -/
def Server.handleSession (server : Server K) (id : ℕ) (datagram : D) (clock : ℕ → ℤ) : Server K :=
  let result := (server.objects id).input ikcp datagram
  let next := server.store id result.2
  if result.1 ≠ 0 then next else next.drain ikcp id clock 0

/-- `GetConv`. -/
def getConv (data : List UInt8) : UInt32 := UInt32.ofNat (decode32u data)

/-- The body of the loop of `Run` for a datagram. -/
def Server.receive (server : Server K) (datagram : D) (addr : SockAddr) (clock : ℕ → ℤ) :
    Server K :=
  let server := { server with buf := overwrite server.buf (ikcp.bytes datagram) }
  if (ikcp.bytes datagram).length < 24 then server
  else
    let found := server.getSession ikcp (getConv server.buf) addr
    found.2.handleSession ikcp found.1 datagram clock

/-- The loop of `Update` over the sessions, with the time at which each of them is visited. -/
def Server.update (server : Server K) : List (UInt32 × ℤ) → Server K
  | [] => server
  | (conv, current) :: rest =>
    match server.sessions.lookup conv with
    | none => server.update rest
    | some id =>
      let result := (server.objects id).update ikcp current
      let next := server.store id result.2
      if result.1 then
        let closed := next.handleClose ikcp id
        Server.update { closed with sessions := closed.sessions.erase conv } rest
      else next.update rest

/-- What happens under the mutex: a datagram is handled, or `Update` is called. -/
inductive Event (D : Type)
  | datagram (datagram : D) (addr : SockAddr) (clock : ℕ → ℤ)
  | tick (order : List (UInt32 × ℤ))

/-- One step of the server. A datagram is cut to the size of the buffer when it is received, and
`Update` visits every session once. -/
def step (server : Server K) (event : Event D) : Option (Server K) :=
  if server.exited then none
  else
    match event with
    | .datagram datagram addr clock =>
      if (ikcp.bytes datagram).length ≤ 4096 then some (server.receive ikcp datagram addr clock)
      else none
    | .tick order =>
      if (order.map Prod.fst).Perm server.sessions.keys then some (server.update ikcp order)
      else none

/-! ### What a step can do -/

/-- The parts of a step, in the order of the source: a datagram is copied to the buffer, its session
is found or created, and messages are taken out of it; a tick refreshes or closes sessions. -/
inductive Move (server : Server K) : Event D → Server K → Prop
  | buffer {datagram : D} {addr : SockAddr} {clock : ℕ → ℤ} :
    Move server (.datagram datagram addr clock)
      { server with buf := overwrite server.buf (ikcp.bytes datagram) }
  | connect {datagram : D} {addr : SockAddr} {clock : ℕ → ℤ}
      (hnew : server.sessions.lookup (getConv (ikcp.bytes datagram)) = none) :
    Move server (.datagram datagram addr clock)
      { server.newSession ikcp (getConv (ikcp.bytes datagram)) addr with
        sessions := server.sessions.insert (getConv (ikcp.bytes datagram)) server.nextId }
  | setAddr {datagram : D} {addr : SockAddr} {clock : ℕ → ℤ} {id : ℕ}
      (hid : server.sessions.lookup (getConv (ikcp.bytes datagram)) = some id) :
    Move server (.datagram datagram addr clock)
      (server.store id { server.objects id with addr := addr })
  | input {datagram : D} {addr : SockAddr} {clock : ℕ → ℤ} {id : ℕ}
      (hid : server.sessions.lookup (getConv (ikcp.bytes datagram)) = some id) :
    Move server (.datagram datagram addr clock)
      (server.store id ((server.objects id).input ikcp datagram).2)
  | empty {datagram : D} {addr : SockAddr} {clock : ℕ → ℤ} {id : ℕ} {session : Session K}
      (hid : server.sessions.lookup (getConv (ikcp.bytes datagram)) = some id)
      (hrecv : (server.objects id).recv ikcp 4096 = .ok ([], session)) :
    Move server (.datagram datagram addr clock) (server.take id session [])
  | keepAlive {datagram : D} {addr : SockAddr} {clock : ℕ → ℤ} {id : ℕ} {session : Session K}
      {message : List UInt8}
      (hid : server.sessions.lookup (getConv (ikcp.bytes datagram)) = some id)
      (hrecv : (server.objects id).recv ikcp 4096 = .ok (message, session))
      (hcmd : (overwrite server.buf message).take keepAliveCmd.length = keepAliveCmd)
      (count : ℕ) :
    Move server (.datagram datagram addr clock)
      ((server.take id session message).setKeepAlive id (clock count))
  | message {datagram : D} {addr : SockAddr} {clock : ℕ → ℤ} {id : ℕ} {session : Session K}
      {message : List UInt8}
      (hid : server.sessions.lookup (getConv (ikcp.bytes datagram)) = some id)
      (hrecv : (server.objects id).recv ikcp 4096 = .ok (message, session))
      (hcmd : (overwrite server.buf message).take keepAliveCmd.length ≠ keepAliveCmd) :
    Move server (.datagram datagram addr clock)
      ((server.take id session message).handleMessage ikcp id message)
  | tooLong {datagram : D} {addr : SockAddr} {clock : ℕ → ℤ} {id : ℕ}
      (hid : server.sessions.lookup (getConv (ikcp.bytes datagram)) = some id)
      (hrecv : (server.objects id).recv ikcp 4096 = .error (-3)) :
    Move server (.datagram datagram addr clock) { server with exited := true }
  | refresh {order : List (UInt32 × ℤ)} {conv : UInt32} {id : ℕ} {current : ℤ}
      (hid : server.sessions.lookup conv = some id)
      (halive : ((server.objects id).update ikcp current).1 = false) :
    Move server (.tick order) (server.store id ((server.objects id).update ikcp current).2)
  | close {order : List (UInt32 × ℤ)} {conv : UInt32} {id : ℕ} {current : ℤ}
      (hid : server.sessions.lookup conv = some id)
      (hexpired : ((server.objects id).update ikcp current).1 = true) :
    Move server (.tick order)
      { (server.store id ((server.objects id).update ikcp current).2).handleClose ikcp id with
        sessions := server.sessions.erase conv }

/-- Any number of parts. -/
def Moves (event : Event D) : Server K → Server K → Prop :=
  Relation.ReflTransGen fun server next ↦ Move ikcp server event next

theorem getConv_overwrite {data : List UInt8} (hdata : 24 ≤ data.length) (buffer : List UInt8) :
    getConv (overwrite buffer data) = getConv data := by
  have hget (index : ℕ) (hindex : index < 4) :
      (overwrite buffer data).getD index 0 = data.getD index 0 := by
    rw [List.getD_eq_getElem?_getD, List.getD_eq_getElem?_getD, overwrite,
      List.getElem?_append_left (by omega)]
  rw [getConv, getConv, decode32u, decode32u, hget 0 (by omega), hget 1 (by omega),
    hget 2 (by omega), hget 3 (by omega)]

theorem moves_drain {server : Server K} {datagram : D} {id : ℕ}
    (hid : server.sessions.lookup (getConv (ikcp.bytes datagram)) = some id) (addr : SockAddr)
    (clock : ℕ → ℤ) (count : ℕ) :
    Moves ikcp (.datagram datagram addr clock) server (server.drain ikcp id clock count) := by
  fun_induction Server.drain ikcp server id clock count with
  | case1 server count hrecv => exact .single (.tooLong hid hrecv)
  | case2 server count code hrecv hcode => exact .refl
  | case3 server count session hrecv => exact .single (.empty hid hrecv)
  | case4 server count message session hrecv next hmessage hcmd ih =>
    exact .head (.keepAlive hid hrecv hcmd count) (ih hid)
  | case5 server count message session hrecv next hmessage hcmd ih =>
    exact .head (.message hid hrecv hcmd) (ih hid)

theorem moves_setAddr {server : Server K} {datagram : D} {id : ℕ}
    (hid : server.sessions.lookup (getConv (ikcp.bytes datagram)) = some id) (addr : SockAddr)
    (clock : ℕ → ℤ) :
    Moves ikcp (.datagram datagram addr clock) server (server.setAddr id addr) := by
  unfold Server.setAddr
  split_ifs
  · exact .single (.setAddr hid)
  · exact .refl

theorem sessions_setAddr (server : Server K) (id : ℕ) (addr : SockAddr) :
    (server.setAddr id addr).sessions = server.sessions := by
  unfold Server.setAddr
  split_ifs <;> rfl

/-- `GetSession` leaves the session of the datagram behind. -/
theorem moves_getSession (server : Server K) (datagram : D) (addr : SockAddr) (clock : ℕ → ℤ) :
    Moves ikcp (.datagram datagram addr clock) server
        (server.getSession ikcp (getConv (ikcp.bytes datagram)) addr).2 ∧
      (server.getSession ikcp (getConv (ikcp.bytes datagram)) addr).2.sessions.lookup
          (getConv (ikcp.bytes datagram)) =
        some (server.getSession ikcp (getConv (ikcp.bytes datagram)) addr).1 := by
  unfold Server.getSession
  cases hlookup : server.sessions.lookup (getConv (ikcp.bytes datagram)) with
  | some id =>
    refine ⟨moves_setAddr ikcp hlookup addr clock, ?_⟩
    show (server.setAddr id addr).sessions.lookup _ = some id
    rw [sessions_setAddr, hlookup]
  | none =>
    have hinsert : (server.sessions.insert (getConv (ikcp.bytes datagram))
        server.nextId).lookup (getConv (ikcp.bytes datagram)) = some server.nextId :=
      AList.lookup_insert _
    constructor
    · exact .head (.connect hlookup) (moves_setAddr ikcp hinsert addr clock)
    · show (Server.setAddr _ _ _).sessions.lookup _ = _
      rw [sessions_setAddr]
      exact hinsert

theorem moves_handleSession {server : Server K} {datagram : D} {id : ℕ}
    (hid : server.sessions.lookup (getConv (ikcp.bytes datagram)) = some id) (addr : SockAddr)
    (clock : ℕ → ℤ) :
    Moves ikcp (.datagram datagram addr clock) server
      (server.handleSession ikcp id datagram clock) := by
  unfold Server.handleSession
  dsimp only
  split_ifs
  · exact .single (.input hid)
  · have hstored : (server.store id ((server.objects id).input ikcp datagram).2).sessions.lookup
        (getConv (ikcp.bytes datagram)) = some id := hid
    exact .head (.input hid) (moves_drain ikcp hstored addr clock 0)

theorem moves_receive (server : Server K) (datagram : D) (addr : SockAddr) (clock : ℕ → ℤ) :
    Moves ikcp (.datagram datagram addr clock) server
      (server.receive ikcp datagram addr clock) := by
  unfold Server.receive
  dsimp only
  split_ifs with hshort
  · exact .single .buffer
  · rw [getConv_overwrite (Nat.not_lt.mp hshort)]
    obtain ⟨hfound, hid⟩ := moves_getSession ikcp
      { server with buf := overwrite server.buf (ikcp.bytes datagram) } datagram addr clock
    exact .head .buffer (hfound.trans (moves_handleSession ikcp hid addr clock))

theorem moves_update (server : Server K) (order rest : List (UInt32 × ℤ)) :
    Moves ikcp (.tick order) server (server.update ikcp rest) := by
  induction rest generalizing server with
  | nil => exact .refl
  | cons visit rest ih =>
    unfold Server.update
    split
    · exact ih server
    · rename_i id hid
      dsimp only
      by_cases hexpired : ((server.objects id).update ikcp visit.2).1 = true
      · rw [if_pos hexpired]
        exact .head (.close hid hexpired) (ih _)
      · rw [if_neg hexpired]
        exact .head (.refresh hid ((Bool.not_eq_true _).mp hexpired)) (ih _)

theorem moves_of_step {server next : Server K} {event : Event D}
    (hstep : step ikcp server event = some next) : Moves ikcp event server next := by
  unfold step at hstep
  obtain ⟨-, hstep⟩ := Option.ite_none_left_eq_some.mp hstep
  cases event with
  | datagram datagram addr clock =>
    obtain ⟨-, hnext⟩ := Option.ite_none_right_eq_some.mp hstep
    exact Option.some.inj hnext ▸ moves_receive ikcp server datagram addr clock
  | tick order =>
    obtain ⟨-, hnext⟩ := Option.ite_none_right_eq_some.mp hstep
    exact Option.some.inj hnext ▸ moves_update ikcp server order order

variable {ikcp}

/-- Induction over the parts of a step. Assumes: every part keeps the invariant. -/
theorem Moves.invariant {event : Event D} {invariant : Server K → Prop} {server next : Server K}
    (hmoves : Moves ikcp event server next)
    (hpreserved : ∀ server next, invariant server → Move ikcp server event next → invariant next)
    (hserver : invariant server) : invariant next := by
  induction hmoves with
  | refl => exact hserver
  | tail _ hmove ih => exact hpreserved _ _ ih hmove

end Server

end TestLinux.Kcp
