import TestLinux.Kcp.Client
import TestLinux.Kcp.Membership
import Mathlib.Algebra.Group.Nat.Defs

/-!
# Message sizes in the chat system

The server and any number of clients, connected by control blocks that deliver every accepted
message whole and in order (`queueIkcp`). A datagram moves the first messages that one side has
accepted for sending to the other side. Clients may have the same conversation number: the server
then has one session for them, and its datagrams may reach any of them.

`Fits` is the condition on a message under which nobody gets a message that is too long for its
buffer: the message itself fits into the buffer of the server, and it is a keep-alive command or the
text that the server makes of it fits into the buffers of the clients. `nobody_exits` says that in
every run in which all messages accepted by `Send` fit, neither the server nor a client reaches
`exit(-1)`. `long_message_exits` is the failure: `Send` accepts a message of 4097 bytes, and the
server exits.
-/

set_option autoImplicit false
set_option relaxedAutoImplicit false

namespace TestLinux.Kcp

open TestLinux.Runs TestLinux.Streams

/-! ### Lengths of texts -/

theorem length_ascii (text : List Char) : (ascii text).length = text.length := List.length_map _

theorem length_decimal_le {number digits : ℕ} (hdigits : 0 < digits)
    (hnumber : number < 10 ^ digits) : (decimal number).length ≤ digits := by
  rw [decimal, length_ascii]
  exact (Nat.length_toDigits_le_iff (by decide) hdigits).mpr hnumber

theorem length_toText_le (addr : SockAddr) : addr.toText.length ≤ 21 := by
  have hbyte (byte : UInt8) : (decimal byte.toNat).length ≤ 3 :=
    length_decimal_le (by decide) (Nat.lt_trans byte.toNat_lt (by decide))
  have hport : (decimal addr.port.toNat).length ≤ 5 :=
    length_decimal_le (by decide) (Nat.lt_trans addr.port.toNat_lt (by decide))
  have hfirst := hbyte addr.first
  have hsecond := hbyte addr.second
  have hthird := hbyte addr.third
  have hfourth := hbyte addr.fourth
  simp only [SockAddr.toText, List.length_append, length_ascii, List.length_cons, List.length_nil]
  omega

theorem length_text_message (msg : List UInt8) (addr : SockAddr) :
    ((Notice.message msg).text addr).length = msg.length + 15 + addr.toText.length := by
  have hfront : (ascii "user from [".toList).length = 11 := by decide +kernel
  have hback : (ascii "] : ".toList).length = 4 := by decide +kernel
  simp only [Notice.text, List.length_append, hfront, hback]
  omega

theorem length_text_join_le (addr : SockAddr) : (Notice.join.text addr).length ≤ 4096 := by
  have hfront : (ascii "user from [".toList).length = 11 := by decide +kernel
  have hback : (ascii "] join the ChatRoom!".toList).length = 20 := by decide +kernel
  have haddr := length_toText_le addr
  simp only [Notice.text, List.length_append, hfront, hback]
  omega

theorem length_text_leave_le (addr : SockAddr) : (Notice.leave.text addr).length ≤ 4096 := by
  have hfront : (ascii "user from [".toList).length = 11 := by decide +kernel
  have hback : (ascii "] left the ChatRoom!".toList).length = 20 := by decide +kernel
  have haddr := length_toText_le addr
  simp only [Notice.text, List.length_append, hfront, hback]
  omega

/-! ### The system -/

/-- The clients: their conversation numbers and addresses, and the address of the server. -/
structure Site where
  conv : ℕ → UInt32
  addr : ℕ → SockAddr
  serverAddr : SockAddr

/-- The server and the clients. -/
structure System where
  server : Server Endpoint
  clients : ℕ → Client Endpoint

/-- Nobody has sent anything. -/
def System.start (site : Site) : System where
  server := .start queueIkcp chatOpt
  clients := fun client ↦ .start queueIkcp (site.conv client) site.serverAddr

/-- The first messages to send have been put into a datagram. -/
def Session.deliver (session : Session Endpoint) (count : ℕ) : Session Endpoint :=
  { session with
    kcp := { session.kcp with outgoing := session.kcp.outgoing.drop count } }

/-- What happens in the system: a client calls `Send`; a client calls `Run`, with a datagram that
carries the first `count` messages of a session of the server or without one; a datagram of a client
reaches the server; the server calls `Update`. -/
inductive SystemEvent
  | send (client : ℕ) (data : List UInt8)
  | run (client : ℕ) (current : ℤ) (arrival : Option (ℕ × List UInt8 × ℕ))
  | receive (client : ℕ) (bytes : List UInt8) (count : ℕ) (clock : ℕ → ℤ)
  | tick (order : List (UInt32 × ℤ))

/-- `Run` of a client with a datagram from a session of the server. -/
def System.runClient (system : System) (site : Site) (client : ℕ) (current : ℤ) (id : ℕ)
    (bytes : List UInt8) (count : ℕ) : System where
  server := system.server.store id ((system.server.objects id).deliver count)
  clients := Function.update system.clients client ((system.clients client).run queueIkcp current
    (some (⟨bytes, (system.server.objects id).kcp.outgoing.take count⟩, site.serverAddr)))

/-- The datagram that a client sends. -/
def System.datagram (system : System) (client : ℕ) (bytes : List UInt8) (count : ℕ) : Datagram :=
  ⟨bytes, (system.clients client).session.kcp.outgoing.take count⟩

/-- A client without the messages that are on their way. -/
def System.deliver (system : System) (client count : ℕ) : ℕ → Client Endpoint :=
  Function.update system.clients client
    { system.clients client with session := (system.clients client).session.deliver count }

/-- One step of the system. -/
def systemStep (site : Site) (system : System) : SystemEvent → Option System
  | .send client data =>
    if (system.clients client).exited then none
    else
      some { system with
        clients := Function.update system.clients client
          ((system.clients client).send queueIkcp data) }
  | .run client current none =>
    if (system.clients client).running && !(system.clients client).exited then
      some { system with
        clients := Function.update system.clients client
          ((system.clients client).run queueIkcp current none) }
    else none
  | .run client current (some (id, bytes, count)) =>
    if ((system.clients client).running && !(system.clients client).exited) = true ∧
        (system.server.objects id).opt.conv = site.conv client ∧ bytes.length ≤ 4096 then
      some (system.runClient site client current id bytes count)
    else none
  | .receive client bytes count clock =>
    if getConv bytes = site.conv client then
      (step queueIkcp system.server (.datagram (system.datagram client bytes count)
        (site.addr client) clock)).map fun server ↦ ⟨server, system.deliver client count⟩
    else none
  | .tick order =>
    (step queueIkcp system.server (.tick order)).map fun server ↦ { system with server := server }

/-! ### Messages that fit -/

/-- The message fits into the buffer of the server, and it is a keep-alive command or the text made
of it fits into the buffers of the clients. -/
def Fits (site : Site) (conv : UInt32) (message : List UInt8) : Prop :=
  message.length ≤ 4096 ∧ (keepAliveCmd <+: message ∨ ∀ client, site.conv client = conv →
    message.length + 15 + (site.addr client).toText.length ≤ 4096)

/-- What `Send` passes to `ikcp_send`: the size is a `uint32_t`. -/
def passed (data : List UInt8) : List UInt8 := data.take (data.length % 4294967296)

/-- A message that `Send` accepts fits. -/
def SendFits (site : Site) : SystemEvent → Prop
  | .send client data => fragments (passed data) < 128 → Fits site (site.conv client) (passed data)
  | _ => True

theorem fits_keepAliveCmd (site : Site) (conv : UInt32) : Fits site conv keepAliveCmd :=
  ⟨by decide +kernel, Or.inl (List.prefix_refl _)⟩

theorem mem_outgoing_send {endpoint : Endpoint} {data message : List UInt8}
    (hmessage : message ∈ (endpoint.send data).2.outgoing) :
    message ∈ endpoint.outgoing ∨ message = data ∧ fragments data < 128 := by
  unfold Endpoint.send at hmessage
  split_ifs at hmessage with hnegative hmany
  · exact Or.inl hmessage
  · exact Or.inl hmessage
  · rcases List.mem_append.mp hmessage with hbefore | hlast
    · exact Or.inl hbefore
    · exact Or.inr ⟨List.mem_singleton.mp hlast, Nat.not_le.mp hmany⟩

theorem mem_outgoing_session_send {session : Session Endpoint} {data message : List UInt8}
    (hmessage : message ∈ (session.send queueIkcp data).2.kcp.outgoing) :
    message ∈ session.kcp.outgoing ∨ message = passed data ∧ fragments (passed data) < 128 :=
  mem_outgoing_send hmessage

theorem ready_session_send (session : Session Endpoint) (data : List UInt8) :
    (session.send queueIkcp data).2.kcp.ready = session.kcp.ready := ready_send _ _

theorem length_passed_le (data : List UInt8) : (passed data).length ≤ data.length := by
  rw [passed, List.length_take]
  exact Nat.min_le_right _ _

theorem session_of_recv {session next : Session Endpoint} {size : ℕ} {message : List UInt8}
    (hrecv : session.recv queueIkcp size = .ok (message, next)) :
    session.kcp.ready = message :: next.kcp.ready ∧
      next.kcp.outgoing = session.kcp.outgoing := by
  unfold Session.recv at hrecv
  split at hrecv
  · cases hrecv
  · rename_i taken kcp hkcp
    obtain ⟨rfl, rfl⟩ := Prod.mk.inj (Except.ok.inj hrecv)
    exact ready_of_recv hkcp

/-- `ikcp_recv` returns -3 only for a message that is too long. -/
theorem length_of_recv_error {session : Session Endpoint} {size : ℕ}
    (hrecv : session.recv queueIkcp size = .error (-3)) :
    ∃ message ∈ session.kcp.ready, size < message.length := by
  unfold Session.recv at hrecv
  split at hrecv
  · rename_i code hkcp
    change session.kcp.recv size = .error code at hkcp
    unfold Endpoint.recv at hkcp
    split at hkcp
    · rw [← Except.error.inj hkcp] at hrecv
      exact absurd (Except.error.inj hrecv) (by decide)
    · rename_i message rest hready
      split_ifs at hkcp with hsize
      exact ⟨message, by rw [hready]; exact List.mem_cons_self, hsize⟩
  · cases hrecv

/-! ### The server -/

/-- The messages of the server fit, and its sessions have addresses of their clients. -/
structure Bounded (site : Site) (server : Server Endpoint) : Prop where
  ready : ∀ id, ∀ message ∈ (server.objects id).kcp.ready,
    Fits site (server.objects id).opt.conv message
  outgoing : ∀ id, ∀ message ∈ (server.objects id).kcp.outgoing, message.length ≤ 4096
  address : ∀ id < server.nextId, ∃ client,
    site.conv client = (server.objects id).opt.conv ∧ site.addr client = (server.objects id).addr
  alive : server.exited = false

theorem bounded_start (site : Site) : Bounded site (.start queueIkcp chatOpt) where
  ready := fun _ _ hmessage ↦ absurd hmessage List.not_mem_nil
  outgoing := fun _ _ hmessage ↦ absurd hmessage List.not_mem_nil
  address := fun id hid ↦ absurd hid (Nat.not_lt_zero id)
  alive := rfl

section Bounded

variable {site : Site} {server : Server Endpoint}

theorem Bounded.store (hbounded : Bounded site server) {id : ℕ} {session : Session Endpoint}
    (hready : ∀ message ∈ session.kcp.ready, Fits site session.opt.conv message)
    (houtgoing : ∀ message ∈ session.kcp.outgoing, message.length ≤ 4096)
    (haddress : id < server.nextId → ∃ client,
      site.conv client = session.opt.conv ∧ site.addr client = session.addr) :
    Bounded site (server.store id session) where
  ready := fun other ↦ by
    rw [objects_store]
    split_ifs
    · exact hready
    · exact hbounded.ready other
  outgoing := fun other ↦ by
    rw [objects_store]
    split_ifs
    · exact houtgoing
    · exact hbounded.outgoing other
  address := fun other hother ↦ by
    rw [objects_store]
    split_ifs with hid
    · exact haddress (hid ▸ hother)
    · exact hbounded.address other hother
  alive := hbounded.alive

/-- A session changes in something that no other field of `Bounded` speaks about. -/
theorem Bounded.touch (hbounded : Bounded site server) {id : ℕ} {session : Session Endpoint}
    (hopt : session.opt = (server.objects id).opt) (haddr : session.addr = (server.objects id).addr)
    (hready : ∀ message ∈ session.kcp.ready, message ∈ (server.objects id).kcp.ready)
    (houtgoing : ∀ message ∈ session.kcp.outgoing,
      message ∈ (server.objects id).kcp.outgoing) : Bounded site (server.store id session) := by
  refine hbounded.store (fun message hmessage ↦ ?_)
    (fun message hmessage ↦ hbounded.outgoing id message (houtgoing message hmessage)) fun hid ↦ ?_
  · rw [hopt]
    exact hbounded.ready id message (hready message hmessage)
  · rw [hopt, haddr]
    exact hbounded.address id hid

theorem Bounded.congr (hbounded : Bounded site server) {next : Server Endpoint}
    (hobjects : next.objects = server.objects) (hnextId : next.nextId = server.nextId)
    (hexited : next.exited = false) : Bounded site next where
  ready := by
    rw [hobjects]
    exact hbounded.ready
  outgoing := by
    rw [hobjects]
    exact hbounded.outgoing
  address := by
    rw [hobjects, hnextId]
    exact hbounded.address
  alive := hexited

/-- A broadcast of a text that fits into the buffers of the clients. -/
theorem Bounded.announce (hbounded : Bounded site server) (notice : Notice) (id : ℕ)
    (htext : (notice.text (server.objects id).addr).length ≤ 4096) :
    Bounded site (server.announce queueIkcp notice id) where
  ready := fun other ↦ by
    show ∀ message ∈ (if other ∈ server.users then _ else server.objects other :
      Session Endpoint).kcp.ready, Fits site ((server.announce queueIkcp notice id).objects
        other).opt.conv message
    rw [opt_announce]
    split_ifs
    · rw [ready_session_send]
      exact hbounded.ready other
    · exact hbounded.ready other
  outgoing := fun other ↦ by
    show ∀ message ∈ (if other ∈ server.users then _ else server.objects other :
      Session Endpoint).kcp.outgoing, message.length ≤ 4096
    split_ifs
    · intro message hmessage
      rcases mem_outgoing_session_send hmessage with hbefore | ⟨hlast, -⟩
      · exact hbounded.outgoing other message hbefore
      · rw [hlast]
        exact Nat.le_trans (length_passed_le _) htext
    · exact hbounded.outgoing other
  address := fun other hother ↦ by
    rw [opt_announce, addr_announce]
    exact hbounded.address other hother
  alive := hbounded.alive

theorem bounded_take (hbounded : Bounded site server) {id : ℕ} {session : Session Endpoint}
    {message : List UInt8}
    (hrecv : (server.objects id).recv queueIkcp 4096 = .ok (message, session)) :
    Bounded site (server.take id session message) := by
  obtain ⟨hopt, haddr, -⟩ := opt_of_recv queueIkcp _ hrecv
  obtain ⟨hready, houtgoing⟩ := session_of_recv hrecv
  have hstored : Bounded site (server.store id session) := by
    refine hbounded.touch hopt haddr (fun other hother ↦ ?_) fun other hother ↦ ?_
    · rw [hready]
      exact List.mem_cons_of_mem message hother
    · rw [← houtgoing]
      exact hother
  exact hstored.congr rfl rfl hstored.alive

/-- A message that reaches `HandleMessage` is not a keep-alive command. -/
theorem not_prefix_of_ne {buf message : List UInt8}
    (hcmd : (overwrite buf message).take keepAliveCmd.length ≠ keepAliveCmd) :
    ¬ keepAliveCmd <+: message := by
  rintro ⟨rest, rfl⟩
  rw [take_overwrite (by simp), List.take_left] at hcmd
  exact hcmd rfl

theorem bounded_message (hbounded : Bounded site server) {id : ℕ} {session : Session Endpoint}
    {message : List UInt8} (hid : id < server.nextId)
    (hrecv : (server.objects id).recv queueIkcp 4096 = .ok (message, session))
    (hcmd : (overwrite server.buf message).take keepAliveCmd.length ≠ keepAliveCmd) :
    Bounded site ((server.take id session message).handleMessage queueIkcp id message) := by
  have hfits : Fits site (server.objects id).opt.conv message :=
    hbounded.ready id message (by rw [(session_of_recv hrecv).1]; exact List.mem_cons_self)
  obtain ⟨client, hconv, haddr⟩ := hbounded.address id hid
  have hlength := (hfits.2.resolve_left (not_prefix_of_ne hcmd)) client hconv
  refine (bounded_take hbounded hrecv).announce _ id ?_
  have hsame : ((server.take id session message).objects id).addr = site.addr client := by
    show ((server.store id session).objects id).addr = site.addr client
    rw [objects_store, if_pos rfl, (opt_of_recv queueIkcp _ hrecv).2.1, haddr]
  rw [hsame, length_text_message]
  exact hlength

theorem bounded_connect (hbounded : Bounded site server) {conv : UInt32} {client : ℕ}
    (hconv : site.conv client = conv) (sessions : AList fun _ : UInt32 ↦ ℕ) :
    Bounded site { server.newSession queueIkcp conv (site.addr client) with
      sessions := sessions } := by
  have hstored : Bounded site { server.store server.nextId (.new queueIkcp
      { server.opt with conv := conv } (site.addr client)) with
        nextId := server.nextId + 1, users := insert server.nextId server.users } := by
    have hnew : Bounded site (server.store server.nextId (.new queueIkcp
        { server.opt with conv := conv } (site.addr client))) :=
      hbounded.store (fun _ hmessage ↦ absurd hmessage List.not_mem_nil)
        (fun _ hmessage ↦ absurd hmessage List.not_mem_nil) fun _ ↦ ⟨client, hconv, rfl⟩
    refine ⟨hnew.ready, hnew.outgoing, fun id hid ↦ ?_, hnew.alive⟩
    show ∃ other, site.conv other = ((server.store _ _).objects id).opt.conv ∧
      site.addr other = ((server.store _ _).objects id).addr
    rw [objects_store]
    split_ifs with hlast
    · exact ⟨client, hconv, rfl⟩
    · exact hbounded.address id (Nat.lt_of_le_of_ne (Nat.lt_succ_iff.mp hid) hlast)
  have hannounced := hstored.announce .join server.nextId (length_text_join_le _)
  exact hannounced.congr rfl rfl hannounced.alive

theorem bounded_close (hbounded : Bounded site server) (id : ℕ)
    (sessions : AList fun _ : UInt32 ↦ ℕ) :
    Bounded site { server.handleClose queueIkcp id with sessions := sessions } := by
  have hstored : Bounded site { server with users := server.users.erase id } :=
    hbounded.congr rfl rfl hbounded.alive
  have hannounced := hstored.announce .leave id (length_text_leave_le _)
  exact hannounced.congr rfl rfl hannounced.alive

/-- A datagram comes from a client with its conversation number, and carries messages that fit. -/
def Arrives (site : Site) (event : Event Datagram) : Prop :=
  ∀ datagram addr clock, event = .datagram datagram addr clock →
    ∃ client, site.conv client = getConv datagram.bytes ∧ site.addr client = addr ∧
      ∀ message ∈ datagram.messages, Fits site (site.conv client) message

/-- `Update` of the server changes only times. -/
theorem bounded_refresh (hbounded : Bounded site server) (hlogged : Logged server) (id : ℕ)
    (current : ℤ) :
    Bounded site (server.store id ((server.objects id).update queueIkcp current).2) := by
  have hkcp : ((server.objects id).update queueIkcp current).2.kcp = (server.objects id).kcp := by
    unfold Session.update
    dsimp only
    split_ifs with hexpired hidle
    · rfl
    · exact absurd (hlogged.serving.2 id) hidle.1
    · rfl
  refine hbounded.touch (opt_update queueIkcp _ _) (addr_update queueIkcp _ _)
    (fun message hmessage ↦ ?_) fun message hmessage ↦ ?_
  · rw [hkcp] at hmessage
    exact hmessage
  · rw [hkcp] at hmessage
    exact hmessage

theorem bounded_move {next : Server Endpoint} {event : Event Datagram} (hroom : Room server)
    (hlogged : Logged server) (hbounded : Bounded site server) (harrives : Arrives site event)
    (hmove : Move queueIkcp server event next) : Bounded site next := by
  cases hmove with
  | buffer => exact hbounded.congr rfl rfl hbounded.alive
  | @connect datagram addr clock hnew =>
    obtain ⟨client, hconv, haddr, -⟩ := harrives datagram addr clock rfl
    rw [← haddr]
    exact bounded_connect hbounded hconv _
  | @setAddr datagram addr clock id hid =>
    obtain ⟨client, hconv, haddr, -⟩ := harrives datagram addr clock rfl
    exact hbounded.store (hbounded.ready id) (hbounded.outgoing id) fun _ ↦
      ⟨client, hconv.trans (hroom.own _ id hid).symm, haddr⟩
  | @input datagram addr clock id hid =>
    obtain ⟨client, hconv, -, hmessages⟩ := harrives datagram addr clock rfl
    have hown : site.conv client = (server.objects id).opt.conv :=
      hconv.trans (hroom.own _ id hid).symm
    refine hbounded.store (fun message hmessage ↦ ?_) (hbounded.outgoing id) (hbounded.address id)
    rcases List.mem_append.mp hmessage with hbefore | hnew
    · exact hbounded.ready id message hbefore
    · exact hown ▸ hmessages message hnew
  | empty hid hrecv => exact bounded_take hbounded hrecv
  | keepAlive hid hrecv hcmd count =>
    exact (bounded_take hbounded hrecv).touch rfl rfl (fun _ hmessage ↦ hmessage)
      fun _ hmessage ↦ hmessage
  | message hid hrecv hcmd =>
    exact bounded_message hbounded (hroom.below _ _ hid) hrecv hcmd
  | @tooLong datagram addr clock id hid hrecv =>
    obtain ⟨message, hmessage, hlong⟩ := length_of_recv_error hrecv
    exact absurd (hbounded.ready id message hmessage).1 (Nat.not_le.mpr hlong)
  | refresh hid halive => exact bounded_refresh hbounded hlogged _ _
  | close hid hexpired => exact bounded_close (bounded_refresh hbounded hlogged _ _) _ _

end Bounded

/-! ### The clients -/

/-- The messages of the session of a client fit. -/
structure Carries (site : Site) (conv : UInt32) (session : Session Endpoint) : Prop where
  opt : session.opt = clientOpt conv
  ready : ∀ message ∈ session.kcp.ready, message.length ≤ 4096
  outgoing : ∀ message ∈ session.kcp.outgoing, Fits site conv message

section Carries

variable {site : Site} {conv : UInt32} {session : Session Endpoint}

theorem carries_start (site : Site) (conv : UInt32) (serverAddr : SockAddr) :
    Carries site conv (.new queueIkcp (clientOpt conv) serverAddr) where
  opt := rfl
  ready := fun _ hmessage ↦ absurd hmessage List.not_mem_nil
  outgoing := fun _ hmessage ↦ absurd hmessage List.not_mem_nil

theorem carries_send (hcarries : Carries site conv session) {data : List UInt8}
    (hfits : fragments (passed data) < 128 → Fits site conv (passed data)) :
    Carries site conv (session.send queueIkcp data).2 where
  opt := hcarries.opt
  ready := by
    rw [ready_session_send]
    exact hcarries.ready
  outgoing := fun message hmessage ↦ by
    rcases mem_outgoing_session_send hmessage with hbefore | ⟨hlast, haccepted⟩
    · exact hcarries.outgoing message hbefore
    · rw [hlast]
      exact hfits haccepted

/-- `Update` of a client never ends the client, and sends at most a keep-alive command. -/
theorem carries_update (hcarries : Carries site conv session) (current : ℤ) :
    (session.update queueIkcp current).1 = false ∧
      Carries site conv (session.update queueIkcp current).2 := by
  have hrefreshed : Carries site conv (session.refresh queueIkcp current) :=
    ⟨hcarries.opt, hcarries.ready, hcarries.outgoing⟩
  unfold Session.update
  dsimp only
  split_ifs with hexpired hidle
  · have hserver := hexpired.1
    rw [hrefreshed.opt] at hserver
    exact absurd hserver Bool.false_ne_true
  · have htimed : Carries site conv
        { session.refresh queueIkcp current with sendLatestTime := current } :=
      ⟨hrefreshed.opt, hrefreshed.ready, hrefreshed.outgoing⟩
    refine ⟨rfl, carries_send htimed fun _ ↦ ?_⟩
    have hpassed : passed keepAliveCmd = keepAliveCmd := by decide +kernel
    rw [hpassed]
    exact fits_keepAliveCmd site conv
  · exact ⟨rfl, hrefreshed⟩

theorem carries_input (hcarries : Carries site conv session) {datagram : Datagram}
    (hmessages : ∀ message ∈ datagram.messages, message.length ≤ 4096) :
    Carries site conv (session.input queueIkcp datagram).2 where
  opt := hcarries.opt
  ready := fun message hmessage ↦ by
    rcases List.mem_append.mp hmessage with hbefore | hnew
    · exact hcarries.ready message hbefore
    · exact hmessages message hnew
  outgoing := hcarries.outgoing

theorem carries_of_recv (hcarries : Carries site conv session) {next : Session Endpoint} {size : ℕ}
    {message : List UInt8} (hrecv : session.recv queueIkcp size = .ok (message, next)) :
    Carries site conv next := by
  obtain ⟨hready, houtgoing⟩ := session_of_recv hrecv
  refine ⟨(opt_of_recv queueIkcp _ hrecv).1.trans hcarries.opt, fun other hother ↦ ?_, ?_⟩
  · exact hcarries.ready other (by rw [hready]; exact List.mem_cons_of_mem message hother)
  · rw [houtgoing]
    exact hcarries.outgoing

/-- The receive loop of a client does not exit. -/
theorem carries_drain {client : Client Endpoint} (hcarries : Carries site conv client.session)
    (halive : client.exited = false) (size : ℕ) :
    Carries site conv (client.drain queueIkcp size).session ∧
      (client.drain queueIkcp size).exited = false := by
  fun_induction Client.drain queueIkcp client size with
  | case1 client size hrecv =>
    obtain ⟨message, hmessage, hlong⟩ := length_of_recv_error hrecv
    exact absurd (hcarries.ready message hmessage) (Nat.not_le.mpr hlong)
  | case2 client size code hrecv hcode => exact ⟨hcarries, halive⟩
  | case3 client size session hrecv => exact ⟨carries_of_recv hcarries hrecv, halive⟩
  | case4 client size message session hrecv hmessage ih =>
    exact ih (carries_of_recv hcarries hrecv) halive

theorem carries_receive {client : Client Endpoint} (hcarries : Carries site conv client.session)
    (halive : client.exited = false) {datagram : Datagram}
    (hmessages : ∀ message ∈ datagram.messages, message.length ≤ 4096) (addr : SockAddr) :
    Carries site conv (client.receive queueIkcp datagram addr).session ∧
      (client.receive queueIkcp datagram addr).exited = false := by
  have hinput := carries_input hcarries hmessages
  unfold Client.receive
  dsimp only
  split_ifs
  · exact ⟨hcarries, halive⟩
  · exact ⟨hcarries, halive⟩
  · exact ⟨hinput, halive⟩
  · refine carries_drain ?_ ?_ 4096
    · exact hinput
    · exact halive

theorem carries_run {client : Client Endpoint} (hcarries : Carries site conv client.session)
    (halive : client.exited = false) (current : ℤ) {arrival : Option (Datagram × SockAddr)}
    (hmessages : ∀ datagram addr, arrival = some (datagram, addr) →
      ∀ message ∈ datagram.messages, message.length ≤ 4096) :
    Carries site conv (client.run queueIkcp current arrival).session ∧
      (client.run queueIkcp current arrival).exited = false := by
  obtain ⟨hlasting, hupdated⟩ := carries_update hcarries current
  unfold Client.run
  dsimp only
  rw [if_neg (by rw [hlasting]; exact Bool.false_ne_true)]
  cases arrival with
  | none => exact ⟨hupdated, halive⟩
  | some arrived =>
    refine carries_receive ?_ ?_ (hmessages arrived.1 arrived.2 rfl) arrived.2
    · exact hupdated
    · exact halive

end Carries

/-! ### Runs -/

/-- What holds between two steps of the system. -/
structure Secure (site : Site) (system : System) : Prop where
  room : Room system.server
  logged : Logged system.server
  bounded : Bounded site system.server
  clients : ∀ client, Carries site (site.conv client) (system.clients client).session ∧
    (system.clients client).exited = false

theorem secure_start (site : Site) : Secure site (System.start site) where
  room := room_start chatOpt
  logged := logged_start rfl
  bounded := bounded_start site
  clients := fun client ↦ ⟨carries_start site (site.conv client) site.serverAddr, rfl⟩

section Secure

variable {site : Site} {system : System}

theorem Secure.update (hsecure : Secure site system) {client : ℕ} {next : Client Endpoint}
    (hnext : Carries site (site.conv client) next.session ∧ next.exited = false) :
    ∀ other, Carries site (site.conv other)
        (Function.update system.clients client next other).session ∧
      (Function.update system.clients client next other).exited = false := by
  intro other
  by_cases hother : other = client
  · rw [hother, Function.update_self]
    exact hnext
  · rw [Function.update_of_ne hother]
    exact hsecure.clients other

/-- A step of the server. -/
theorem Secure.server_step (hsecure : Secure site system) {event : Event Datagram}
    {server : Server Endpoint} (harrives : Arrives site event)
    (hstep : step queueIkcp system.server event = some server) :
    Room server ∧ Logged server ∧ Bounded site server := by
  have hparts : ∀ before after, Room before ∧ Logged before ∧ Bounded site before →
      Move queueIkcp before event after → Room after ∧ Logged after ∧ Bounded site after := by
    rintro before after ⟨hroom, hlogged, hbounded⟩ hmove
    exact ⟨room_move hroom hmove, logged_move hlogged hroom hmove,
      bounded_move hroom hlogged hbounded harrives hmove⟩
  exact (moves_of_step queueIkcp hstep).invariant hparts
    ⟨hsecure.room, hsecure.logged, hsecure.bounded⟩

theorem secure_runClient (hsecure : Secure site system) (client : ℕ) (current : ℤ) (id : ℕ)
    (bytes : List UInt8) (count : ℕ) :
    Secure site (system.runClient site client current id bytes count) where
  room := hsecure.room.store rfl
  logged := hsecure.logged.store rfl rfl
  bounded := hsecure.bounded.touch rfl rfl (fun _ hmessage ↦ hmessage) fun _ hmessage ↦
    List.mem_of_mem_drop hmessage
  clients := by
    obtain ⟨hcarries, halive⟩ := hsecure.clients client
    refine hsecure.update (carries_run hcarries halive current fun datagram addr harrival ↦ ?_)
    rw [← (Prod.mk.inj (Option.some.inj harrival)).1]
    intro message hmessage
    exact hsecure.bounded.outgoing id message (List.mem_of_mem_take hmessage)

theorem carries_deliver {conv : UInt32} {session : Session Endpoint}
    (hcarries : Carries site conv session) (count : ℕ) :
    Carries site conv (session.deliver count) where
  opt := hcarries.opt
  ready := hcarries.ready
  outgoing := fun message hmessage ↦ hcarries.outgoing message (List.mem_of_mem_drop hmessage)

theorem secure_systemStep (hsecure : Secure site system) {event : SystemEvent} {next : System}
    (hfits : SendFits site event) (hstep : systemStep site system event = some next) :
    Secure site next := by
  cases event with
  | send client data =>
    obtain ⟨-, hnext⟩ := Option.ite_none_left_eq_some.mp hstep
    rw [← Option.some.inj hnext]
    obtain ⟨hcarries, halive⟩ := hsecure.clients client
    exact ⟨hsecure.room, hsecure.logged, hsecure.bounded,
      hsecure.update ⟨carries_send hcarries hfits, halive⟩⟩
  | run client current arrival =>
    cases arrival with
    | none =>
      obtain ⟨-, hnext⟩ := Option.ite_none_right_eq_some.mp hstep
      rw [← Option.some.inj hnext]
      obtain ⟨hcarries, halive⟩ := hsecure.clients client
      exact ⟨hsecure.room, hsecure.logged, hsecure.bounded, hsecure.update
        (carries_run hcarries halive current fun _ _ harrival ↦ absurd harrival (by simp))⟩
    | some arrival =>
      obtain ⟨-, hnext⟩ := Option.ite_none_right_eq_some.mp hstep
      rw [← Option.some.inj hnext]
      exact secure_runClient hsecure client current _ _ _
  | receive client bytes count clock =>
    obtain ⟨hconv, hmap⟩ := Option.ite_none_right_eq_some.mp hstep
    obtain ⟨server, hserver, hnext⟩ := Option.map_eq_some_iff.mp hmap
    rw [← hnext]
    obtain ⟨hcarries, halive⟩ := hsecure.clients client
    have harrives : Arrives site (.datagram (system.datagram client bytes count)
        (site.addr client) clock) := by
      intro datagram addr other hevent
      obtain ⟨hdatagram, haddr, -⟩ := Event.datagram.inj hevent
      rw [← hdatagram]
      exact ⟨client, hconv.symm, haddr, fun message hmessage ↦
        hcarries.outgoing message (List.mem_of_mem_take hmessage)⟩
    obtain ⟨hroom, hlogged, hbounded⟩ := hsecure.server_step harrives hserver
    exact ⟨hroom, hlogged, hbounded, hsecure.update ⟨carries_deliver hcarries count, halive⟩⟩
  | tick order =>
    obtain ⟨server, hserver, hnext⟩ := Option.map_eq_some_iff.mp hstep
    rw [← hnext]
    have harrives : Arrives site (.tick order) := by
      intro datagram addr clock hevent
      cases hevent
    obtain ⟨hroom, hlogged, hbounded⟩ := hsecure.server_step harrives hserver
    exact ⟨hroom, hlogged, hbounded, hsecure.clients⟩

end Secure

/-- Neither the server nor a client reaches `exit(-1)`. Assumes: every message that `Send` of a
client accepts fits into the buffer of the server, and it is a keep-alive command or the text that
the server makes of it fits into the buffers of the clients. -/
theorem nobody_exits (site : Site) {events : List SystemEvent} {final : System}
    (hfits : ∀ event ∈ events, SendFits site event)
    (hrun : run (systemStep site) (System.start site) events = some final) :
    final.server.exited = false ∧ ∀ client, (final.clients client).exited = false := by
  have halong : Along (systemStep site) (fun _ event ↦ SendFits site event) (System.start site)
      events := along_of_forall (fun event hevent _ ↦ hfits event hevent) _
  have hfinal : Secure site final :=
    run_invariant_along (fun _ _ _ hsecure hevent hstep ↦
      secure_systemStep hsecure hevent hstep) (secure_start site) halong hrun
  exact ⟨hfinal.bounded.alive, fun client ↦ (hfinal.clients client).2⟩

/-- Clients with different conversation numbers. -/
def sampleSite : Site where
  conv := fun client ↦ UInt32.ofNat (client + 1)
  addr := fun client ↦ ⟨10, 0, 0, 1, UInt16.ofNat (7001 + client)⟩
  serverAddr := ⟨10, 0, 0, 254, 7000⟩

/-- A client sends a message, and gets it back from the server. -/
def sayAndListen (data : List UInt8) : List SystemEvent :=
  [.send 0 data, .receive 0 (segment 1 81 []) 1 (fun _ ↦ 100),
    .run 0 200 (some (0, segment 1 81 [], 2))]

theorem nobody_exits_sayAndListen :
    ∃ final, run (systemStep sampleSite) (System.start sampleSite) (sayAndListen [104, 105]) =
        some final ∧ (final.clients 0).handled.length = 2 ∧ final.server.exited = false ∧
      ∀ client, (final.clients client).exited = false := by
  have hview : (run (systemStep sampleSite) (System.start sampleSite)
      (sayAndListen [104, 105])).map (fun system ↦ (system.clients 0).handled.length) = some 2 := by
    decide +kernel
  obtain ⟨final, hrun, hhandled⟩ := exists_of_view hview
  refine ⟨final, hrun, hhandled, nobody_exits sampleSite (fun event hevent ↦ ?_) hrun⟩
  rcases List.mem_cons.mp hevent with rfl | hrest
  · intro _
    refine ⟨by decide, Or.inr fun client _ ↦ ?_⟩
    have haddr := length_toText_le (sampleSite.addr client)
    have hlength : (passed [104, 105]).length = 2 := by decide
    omega
  · rcases List.mem_cons.mp hrest with rfl | hlast
    · trivial
    · rw [List.mem_singleton.mp hlast]
      trivial

/-- The failure: a message of 4097 bytes is accepted and ends the server, and one of 4090 bytes
ends the client that gets the text made of it. -/
theorem long_message_exits :
    (run (systemStep sampleSite) (System.start sampleSite)
        ((sayAndListen (List.replicate 4097 97)).take 2)).map (·.server.exited) = some true ∧
      (run (systemStep sampleSite) (System.start sampleSite)
        (sayAndListen (List.replicate 4090 97))).map
          (fun system ↦ (system.server.exited, (system.clients 0).exited)) =
        some (false, true) := by
  constructor <;> decide +kernel

end TestLinux.Kcp
