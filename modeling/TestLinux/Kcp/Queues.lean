import TestLinux.Kcp.Client
import TestLinux.Kcp.Rejection
import TestLinux.Kcp.Timeline

/-!
# The receive loops of server and client

What the receive loops rely on is a `Queue`: a control block has a list of complete messages that
`ikcp_recv` takes out one by one, unless the next one is too long, and that `ikcp_send` leaves
alone. Both loops read messages until there is none or an empty one, since they treat every length
that is not positive as the end. `leftBehind` is what is then left, `handedOver` what the client
passes on, and `treated` how the server classifies the messages; `drain_client` and `drain_server`
say that these are what the loops compute.

`sessions_drained_iff` is the result on what is left: nothing, exactly if no message except the last
is empty.
-/

set_option autoImplicit false
set_option relaxedAutoImplicit false

namespace TestLinux.Kcp

open TestLinux.Streams

/-- A control block as a queue of complete messages. Without one, `ikcp_recv` fails, and not with
the code for a short buffer. -/
structure Queue {K D : Type} (ikcp : Ikcp K D) where
  ready : K → List (List UInt8)
  recv_nil : ∀ kcp size, ready kcp = [] → ∃ code, ikcp.recv kcp size = .error code ∧ code ≠ -3
  recv_cons : ∀ kcp size message rest, ready kcp = message :: rest → message.length ≤ size →
    ∃ next, ikcp.recv kcp size = .ok (message, next) ∧ ready next = rest
  ready_send : ∀ kcp message, ready (ikcp.send kcp message).2 = ready kcp

/-- The queues of `queueIkcp`. -/
def endpointQueue : Queue queueIkcp where
  ready := Endpoint.ready
  recv_nil := fun endpoint size hready ↦ by
    refine ⟨-1, ?_, by decide⟩
    change endpoint.recv size = _
    rw [Endpoint.recv, hready]
  recv_cons := fun endpoint size message rest hready hlength ↦ by
    refine ⟨{ endpoint with ready := rest }, ?_, rfl⟩
    change endpoint.recv size = _
    rw [Endpoint.recv, hready]
    simp only [if_neg (Nat.not_lt.mpr hlength)]
  ready_send := ready_send

/-! ### What the loops make of a queue -/

/-- The messages that stay in the session: those behind the first empty one. -/
def leftBehind : List (List UInt8) → List (List UInt8)
  | [] => []
  | message :: rest => if message = [] then rest else leftBehind rest

/-- What the client passes to `HandleMessage`, with a string of the given size to begin with. -/
def handedOver (size : ℕ) : List (List UInt8) → List (List UInt8)
  | [] => []
  | message :: rest =>
    if message = [] then [] else resize size message :: handedOver message.length rest

/-- The bytes at the front of the buffer are those of the keep-alive command. -/
def LooksAlive (buf : List UInt8) : Prop := buf.take keepAliveCmd.length = keepAliveCmd
  deriving Decidable

/-- The messages that the server takes out, and whether each is treated as keep-alive. -/
def treated (buf : List UInt8) : List (List UInt8) → List (List UInt8 × Bool)
  | [] => []
  | message :: rest =>
    if message = [] then []
    else (message, decide (LooksAlive (overwrite buf message))) ::
      treated (overwrite buf message) rest

variable {K D : Type} {ikcp : Ikcp K D} (queue : Queue ikcp)

theorem Queue.session_recv_nil {session : Session K} (hready : queue.ready session.kcp = [])
    (size : ℕ) : ∃ code, session.recv ikcp size = .error code ∧ code ≠ -3 := by
  obtain ⟨code, hrecv, hcode⟩ := queue.recv_nil session.kcp size hready
  refine ⟨code, ?_, hcode⟩
  rw [Session.recv, hrecv]

theorem Queue.session_recv_cons {session : Session K} {size : ℕ} {message : List UInt8}
    {rest : List (List UInt8)} (hready : queue.ready session.kcp = message :: rest)
    (hlength : message.length ≤ size) :
    ∃ kcp, session.recv ikcp size = .ok (message, { session with kcp := kcp }) ∧
      queue.ready kcp = rest := by
  obtain ⟨kcp, hrecv, hrest⟩ := queue.recv_cons session.kcp size message rest hready hlength
  refine ⟨kcp, ?_, hrest⟩
  rw [Session.recv, hrecv]

/-! ### The client -/

theorem drain_client_error {client : Client K} {code : ℤ}
    (hrecv : client.session.recv ikcp 4096 = .error code) (hcode : code ≠ -3) (size : ℕ) :
    client.drain ikcp size = client := by
  rw [Client.drain]
  split
  · rename_i other hother
    obtain rfl := Except.error.inj (hrecv.symm.trans hother)
    rw [if_neg hcode]
  · rename_i hok
    cases hrecv.symm.trans hok

theorem drain_client_ok {client : Client K} {message : List UInt8} {session : Session K}
    (hrecv : client.session.recv ikcp 4096 = .ok (message, session)) (size : ℕ) :
    client.drain ikcp size =
      if message = [] then { client with session := session }
      else Client.drain ikcp { client with
        session := session
        handled := client.handled ++ [resize size message] } message.length := by
  rw [Client.drain]
  split
  · rename_i hcode
    cases hrecv.symm.trans hcode
  · rename_i other session' hok
    obtain ⟨rfl, rfl⟩ := Prod.mk.inj (Except.ok.inj (hrecv.symm.trans hok))
    split_ifs <;> rfl

/-- What the loop of the client does to the queue of its session. -/
theorem drain_client {messages : List (List UInt8)} {client : Client K}
    (hready : queue.ready client.session.kcp = messages)
    (hlength : ∀ message ∈ messages, message.length ≤ 4096) (size : ℕ) :
    (client.drain ikcp size).handled = client.handled ++ handedOver size messages ∧
      queue.ready (client.drain ikcp size).session.kcp = leftBehind messages := by
  induction messages generalizing client size with
  | nil =>
    obtain ⟨code, hrecv, hcode⟩ := queue.session_recv_nil hready 4096
    rw [drain_client_error hrecv hcode]
    exact ⟨(List.append_nil _).symm, hready⟩
  | cons message rest ih =>
    obtain ⟨kcp, hrecv, hrest⟩ :=
      queue.session_recv_cons hready (hlength message List.mem_cons_self)
    rw [drain_client_ok hrecv, handedOver, leftBehind]
    split_ifs with hempty
    · exact ⟨(List.append_nil _).symm, hrest⟩
    · obtain ⟨hhandled, hleft⟩ := @ih { client with
        session := { client.session with kcp := kcp }
        handled := client.handled ++ [resize size message] } hrest
        (fun other hother ↦ hlength other (List.mem_cons_of_mem message hother)) message.length
      refine ⟨?_, hleft⟩
      rw [hhandled, List.append_assoc]
      rfl

/-! ### The server -/

theorem drain_server_error {server : Server K} {id : ℕ} {code : ℤ}
    (hrecv : (server.objects id).recv ikcp 4096 = .error code) (hcode : code ≠ -3)
    (clock : ℕ → ℤ) (count : ℕ) : server.drain ikcp id clock count = server := by
  rw [Server.drain]
  split
  · rename_i other hother
    obtain rfl := Except.error.inj (hrecv.symm.trans hother)
    rw [if_neg hcode]
  · rename_i hok
    cases hrecv.symm.trans hok

theorem drain_server_ok {server : Server K} {id : ℕ} {message : List UInt8} {session : Session K}
    (hrecv : (server.objects id).recv ikcp 4096 = .ok (message, session)) (clock : ℕ → ℤ)
    (count : ℕ) :
    server.drain ikcp id clock count =
      if message = [] then server.take id session message
      else if LooksAlive (overwrite server.buf message) then
        ((server.take id session message).setKeepAlive id (clock count)).drain ikcp id clock
          (count + 1)
      else
        ((server.take id session message).handleMessage ikcp id message).drain ikcp id clock
          (count + 1) := by
  rw [Server.drain]
  split
  · rename_i hcode
    cases hrecv.symm.trans hcode
  · rename_i other session' hok
    obtain ⟨rfl, rfl⟩ := Prod.mk.inj (Except.ok.inj (hrecv.symm.trans hok))
    split_ifs with hempty halive
    · rfl
    · exact if_pos halive
    · exact if_neg halive

/-- A broadcast leaves the queues of all sessions alone. -/
theorem ready_announce (server : Server K) (notice : Notice) (id other : ℕ) :
    queue.ready ((server.announce ikcp notice id).objects other).kcp =
      queue.ready (server.objects other).kcp := by
  show queue.ready (if other ∈ server.users then _ else server.objects other : Session K).kcp = _
  split_ifs
  · exact queue.ready_send _ _
  · rfl

/-- The calls of `HandleMessage`, for the messages that were not taken for keep-alive commands. -/
def callsOf (id : ℕ) (addr : SockAddr) (users : Finset ℕ) (taken : List (List UInt8 × Bool)) :
    List Call :=
  (taken.filter fun entry ↦ !entry.2).map fun entry ↦ ⟨.message entry.1, id, addr, users⟩

/-- The server behind the round of the loop for a message, with the other messages still in the
queue. -/
structure AfterMessage (server : Server K) (id : ℕ) (message : List UInt8)
    (rest : List (List UInt8)) (next : Server K) : Prop where
  ready : queue.ready (next.objects id).kcp = rest
  addr : (next.objects id).addr = (server.objects id).addr
  users : next.users = server.users
  buf : next.buf = overwrite server.buf message
  calls : next.calls = server.calls ++ callsOf id (server.objects id).addr server.users
    [(message, decide (LooksAlive (overwrite server.buf message)))]

section Round

variable {server : Server K} {id : ℕ} {message : List UInt8} {rest : List (List UInt8)} {kcp : K}

theorem objects_take (session : Session K) :
    (server.take id session message).objects id = session :=
  Function.update_self _ _ _

theorem afterMessage_setKeepAlive (hrest : queue.ready kcp = rest)
    (halive : LooksAlive (overwrite server.buf message)) (current : ℤ) :
    AfterMessage queue server id message rest
      ((server.take id { server.objects id with kcp := kcp } message).setKeepAlive id current) := by
  have hset : ((server.take id { server.objects id with kcp := kcp } message).setKeepAlive id
      current).objects id = { server.objects id with kcp := kcp, recvLatestTime := current } := by
    rw [Server.setKeepAlive, Server.store, objects_take]
    exact Function.update_self _ _ _
  refine ⟨?_, ?_, rfl, rfl, ?_⟩
  · rw [hset]
    exact hrest
  · rw [hset]
  · rw [decide_eq_true halive]
    exact (List.append_nil _).symm

theorem afterMessage_handleMessage (hrest : queue.ready kcp = rest)
    (halive : ¬ LooksAlive (overwrite server.buf message)) :
    AfterMessage queue server id message rest
      ((server.take id { server.objects id with kcp := kcp } message).handleMessage ikcp id
        message) := by
  refine ⟨?_, ?_, rfl, rfl, ?_⟩
  · rw [Server.handleMessage, ready_announce, objects_take]
    exact hrest
  · rw [Server.handleMessage, addr_announce, objects_take]
  · rw [decide_eq_false halive, Server.handleMessage, Server.announce, objects_take]
    rfl

/-- A round of the loop. -/
theorem exists_afterMessage (hrecv : (server.objects id).recv ikcp 4096 =
      .ok (message, { server.objects id with kcp := kcp })) (hrest : queue.ready kcp = rest)
    (hmessage : message ≠ []) (clock : ℕ → ℤ) (count : ℕ) :
    ∃ next, AfterMessage queue server id message rest next ∧
      server.drain ikcp id clock count = next.drain ikcp id clock (count + 1) ∧
      server.drained ikcp id clock count =
        ⟨id, clock count, decide (LooksAlive (overwrite server.buf message))⟩ ::
          next.drained ikcp id clock (count + 1) := by
  rw [drain_server_ok hrecv, if_neg hmessage]
  by_cases halive : LooksAlive (overwrite server.buf message)
  · rw [if_pos halive, (drained_message hrecv hmessage clock count).trans (if_pos halive),
      decide_eq_true halive]
    exact ⟨_, afterMessage_setKeepAlive queue hrest halive (clock count), rfl, rfl⟩
  · rw [if_neg halive, (drained_message hrecv hmessage clock count).trans (if_neg halive),
      decide_eq_false halive]
    exact ⟨_, afterMessage_handleMessage queue hrest halive, rfl, rfl⟩

end Round

/-- What the loop of the server does to the queue of its session: which messages it treats as
keep-alive, which it hands to `HandleMessage`, and what it leaves. -/
theorem drain_server {messages : List (List UInt8)} {server : Server K} {id : ℕ}
    (hready : queue.ready (server.objects id).kcp = messages)
    (hlength : ∀ message ∈ messages, message.length ≤ 4096) (clock : ℕ → ℤ) (count : ℕ) :
    (server.drained ikcp id clock count).map Taken.keepAlive =
        (treated server.buf messages).map Prod.snd ++ (if [] ∈ messages then [false] else []) ∧
      (server.drain ikcp id clock count).calls =
        server.calls ++ callsOf id (server.objects id).addr server.users
          (treated server.buf messages) ∧
      queue.ready ((server.drain ikcp id clock count).objects id).kcp = leftBehind messages := by
  induction messages generalizing server count with
  | nil =>
    obtain ⟨code, hrecv, hcode⟩ := queue.session_recv_nil hready 4096
    rw [drained_error hrecv, drain_server_error hrecv hcode]
    exact ⟨rfl, (List.append_nil _).symm, hready⟩
  | cons message rest ih =>
    obtain ⟨kcp, hrecv, hrest⟩ :=
      queue.session_recv_cons hready (hlength message List.mem_cons_self)
    rw [treated, leftBehind]
    by_cases hempty : message = []
    · subst hempty
      rw [drain_server_ok hrecv, drained_empty hrecv, if_pos rfl, if_pos rfl, if_pos rfl,
        if_pos List.mem_cons_self, objects_take]
      exact ⟨rfl, (List.append_nil _).symm, hrest⟩
    · obtain ⟨next, hnext, hdrain, htaken⟩ :=
        exists_afterMessage queue hrecv hrest hempty clock count
      obtain ⟨hdrained, hcalls, hleft⟩ := ih hnext.ready
        (fun other hother ↦ hlength other (List.mem_cons_of_mem message hother)) (count + 1)
      rw [hnext.buf] at hdrained
      rw [hnext.buf, hnext.addr, hnext.users, hnext.calls, List.append_assoc] at hcalls
      rw [hdrain, htaken, if_neg hempty, if_neg hempty]
      refine ⟨?_, ?_, hleft⟩
      · have hmem : [] ∈ message :: rest ↔ [] ∈ rest :=
          List.mem_cons.trans (or_iff_right (Ne.symm hempty))
        simp only [hmem, List.map_cons, hdrained, List.cons_append]
      · rw [hcalls, callsOf, callsOf, ← List.map_append, ← List.filter_append]
        rfl

/-! ### What is left -/

/-- Nothing is left behind if an empty message can only be the last one. -/
theorem leftBehind_eq_nil_iff (messages : List (List UInt8)) :
    leftBehind messages = [] ↔ ∀ message ∈ messages.dropLast, message ≠ [] := by
  induction messages with
  | nil => simp [leftBehind]
  | cons message rest ih =>
    cases rest with
    | nil => simp [leftBehind]
    | cons next others =>
      rw [leftBehind, List.dropLast_cons_of_ne_nil (List.cons_ne_nil next others),
        List.forall_mem_cons]
      by_cases hempty : message = []
      · rw [if_pos hempty]
        exact iff_of_false (List.cons_ne_nil next others) fun hall ↦ hall.1 hempty
      · rw [if_neg hempty, ih]
        exact ⟨fun hall ↦ ⟨hempty, hall⟩, fun hall ↦ hall.2⟩

/-- The complete messages of a session after `Input`. -/
def Queue.afterInput (session : Session K) (datagram : D) : List (List UInt8) :=
  queue.ready (session.input ikcp datagram).2.kcp

theorem ready_handleSession {server : Server K} {id : ℕ} {datagram : D}
    (hinput : ((server.objects id).input ikcp datagram).1 = 0)
    (hlength : ∀ message ∈ queue.afterInput (server.objects id) datagram,
      message.length ≤ 4096) (clock : ℕ → ℤ) :
    queue.ready ((server.handleSession ikcp id datagram clock).objects id).kcp =
      leftBehind (queue.afterInput (server.objects id) datagram) := by
  have hready : queue.ready ((server.store id
      ((server.objects id).input ikcp datagram).2).objects id).kcp =
        queue.afterInput (server.objects id) datagram := by
    rw [Server.store]
    simp only [Function.update_self]
    rfl
  rw [Server.handleSession]
  simp only [hinput, ne_eq, not_true_eq_false, if_false]
  exact (drain_server queue hready hlength clock 0).2.2

/-- A datagram of the server that `Run` passes to `Input`. -/
structure Client.Accepts (ikcp : Ikcp K D) (client : Client K) (current : ℤ) (datagram : D)
    (addr : SockAddr) : Prop where
  connected : (client.session.update ikcp current).1 = false
  addr : addr = client.serverAddr
  length : 24 ≤ (ikcp.bytes datagram).length
  input : ((client.session.update ikcp current).2.input ikcp datagram).1 = 0

/-- `Run` for such a datagram is the receive loop. -/
theorem run_of_accepts {client : Client K} {current : ℤ} {datagram : D} {addr : SockAddr}
    (haccepts : client.Accepts ikcp current datagram addr) :
    client.run ikcp current (some (datagram, addr)) =
      Client.drain ikcp { client with
        session := ((client.session.update ikcp current).2.input ikcp datagram).2 } 4096 := by
  simp only [Client.run, Client.receive, haccepts.connected, haccepts.addr, haccepts.input, ne_eq,
    not_true_eq_false, if_false, Bool.false_eq_true]
  rw [if_neg (Nat.not_lt.mpr haccepts.length)]

/-- After a datagram that `Input` accepts, and messages of at most 4096 bytes, no complete message
is left in the session, of the server as of the client, exactly if no message of the session except
the last is empty. -/
theorem sessions_drained_iff :
    (∀ (server : Server K) (id : ℕ) (datagram : D) (clock : ℕ → ℤ),
      ((server.objects id).input ikcp datagram).1 = 0 →
      (∀ message ∈ queue.afterInput (server.objects id) datagram, message.length ≤ 4096) →
      (queue.ready ((server.handleSession ikcp id datagram clock).objects id).kcp = [] ↔
        ∀ message ∈ (queue.afterInput (server.objects id) datagram).dropLast, message ≠ [])) ∧
    ∀ (client : Client K) (current : ℤ) (datagram : D) (addr : SockAddr),
      client.Accepts ikcp current datagram addr →
      (∀ message ∈ queue.afterInput (client.session.update ikcp current).2 datagram,
        message.length ≤ 4096) →
      (queue.ready (client.run ikcp current (some (datagram, addr))).session.kcp = [] ↔
        ∀ message ∈ (queue.afterInput (client.session.update ikcp current).2 datagram).dropLast,
          message ≠ []) := by
  refine ⟨fun server id datagram clock hinput hlength ↦ ?_,
    fun client current datagram addr haccepts hlength ↦ ?_⟩
  · rw [ready_handleSession queue hinput hlength clock, leftBehind_eq_nil_iff]
  · have hready : queue.ready ({ client with
        session := ((client.session.update ikcp current).2.input ikcp datagram).2 } :
          Client K).session.kcp =
            queue.afterInput (client.session.update ikcp current).2 datagram := rfl
    rw [run_of_accepts haccepts, (drain_client queue hready hlength 4096).2,
      leftBehind_eq_nil_iff]

/-- A client that has not received anything. -/
def newClient : Client Endpoint := .start queueIkcp 1 ⟨10, 0, 0, 2, 7000⟩

/-- A line and an empty line, in one datagram. -/
def emptyLast : Datagram := ⟨segment 1 81 [104] ++ segment 1 81 [], [[104], []]⟩

/-- An empty line and a line, in one datagram. -/
def emptyFirst : Datagram := ⟨segment 1 81 [] ++ segment 1 81 [104], [[], [104]]⟩

theorem sessions_drained_iff_emptyLast :
    endpointQueue.ready ((joinedServer.handleSession queueIkcp 0 emptyLast
        fun _ ↦ 101).objects 0).kcp = [] ∧
      endpointQueue.ready (newClient.run queueIkcp 100
        (some (emptyLast, ⟨10, 0, 0, 2, 7000⟩))).session.kcp = [] := by
  have haccepts : newClient.Accepts queueIkcp 100 emptyLast ⟨10, 0, 0, 2, 7000⟩ :=
    ⟨by decide +kernel, rfl, by decide +kernel, by decide +kernel⟩
  obtain ⟨hserver, hclient⟩ := sessions_drained_iff endpointQueue
  exact ⟨(hserver joinedServer 0 emptyLast _ (by decide +kernel) (by decide +kernel)).mpr
      (by decide +kernel),
    (hclient newClient 100 emptyLast _ haccepts (by decide +kernel)).mpr (by decide +kernel)⟩

/-- The failure: a line behind an empty line stays in the session, on the server and on the
client. -/
theorem line_left_behind :
    ((joinedServer.objects 0).input queueIkcp emptyFirst).1 = 0 ∧
      endpointQueue.ready ((joinedServer.handleSession queueIkcp 0 emptyFirst
        fun _ ↦ 101).objects 0).kcp = [[104]] ∧
      newClient.Accepts queueIkcp 100 emptyFirst ⟨10, 0, 0, 2, 7000⟩ ∧
      endpointQueue.ready (newClient.run queueIkcp 100
        (some (emptyFirst, ⟨10, 0, 0, 2, 7000⟩))).session.kcp = [[104]] :=
  ⟨by decide +kernel, by decide +kernel,
    ⟨by decide +kernel, rfl, by decide +kernel, by decide +kernel⟩, by decide +kernel⟩

end TestLinux.Kcp
