import TestLinux.Kcp.Queues
import TestLinux.Library.Runs

/-!
# The echo server `server.c`

`loop` makes one pass after the other: it updates the control block and asks for a datagram. A
datagram goes to `ikcp_input`, and then a single message is taken out, with the length of the
datagram as the limit, and is sent back. `EchoServer.step` is a pass; a datagram of no bytes ends
the loop.

`Reliable` adds to a `Queue` that datagrams only append complete messages, that `ikcp_update` and
`ikcp_flush` leave them alone, and that a message beyond the limit is kept. `Observed` records next
to the server which messages the datagrams have completed. `echoed_iff` compares the two over whole
runs: after each pass everything that is complete has been echoed, exactly if every datagram
completes nothing, or a single message that is no longer than the datagram.
-/

set_option autoImplicit false
set_option relaxedAutoImplicit false

namespace TestLinux.Kcp

open TestLinux.Runs TestLinux.Streams

/-! ### The loop -/

/-- What `recvfrom` returns: a datagram, a datagram of no bytes, or `EWOULDBLOCK`. -/
inductive Arrival (D : Type) where
  | datagram (data : D) (addr : SockAddr)
  | empty (addr : SockAddr)
  | nothing

/-- What the loop meets in one pass: the clock and what has arrived. -/
structure Pass (D : Type) where
  current : UInt32
  arrival : Arrival D

/-- `kcpObj` and the buffer of `loop`. `echoed` records what has been passed to `ikcp_send`, and
`stopped` that the loop has ended. -/
structure EchoServer (K : Type) where
  kcp : K
  cientAddr : SockAddr
  buf : List UInt8
  echoed : List (List UInt8)
  stopped : Bool

section Loop

variable {K D : Type} (ikcp : Ikcp K D) (flush : K → K)

/-- The beginning of `loop`. The address is what was on the stack. -/
def EchoServer.start (current : UInt32) (addr : SockAddr) : EchoServer K where
  kcp := ikcp.update (ikcp.create 1) current
  cientAddr := addr
  buf := List.replicate 1500 0
  echoed := []
  stopped := false

/-- The branch of the loop for a datagram. -/
def EchoServer.reply (server : EchoServer K) (data : D) : EchoServer K :=
  let kcp := (ikcp.input server.kcp data).2
  if (ikcp.input server.kcp data).1 < 0 then { server with kcp := kcp }
  else
    match ikcp.recv kcp (ikcp.bytes data).length with
    | .error _ => { server with kcp := kcp }
    | .ok (message, kcp) =>
      let buf := overwrite server.buf message
      { server with
        kcp := flush (ikcp.send kcp (buf.take message.length)).2
        buf := buf
        echoed := server.echoed ++ [buf.take message.length] }

/-- The server after `recvfrom` has returned a datagram. -/
def EchoServer.filled (server : EchoServer K) (data : D) (addr : SockAddr) : EchoServer K :=
  { server with
    cientAddr := addr
    buf := overwrite server.buf (ikcp.bytes data) }

/-- One pass of the loop. `recvfrom` returns at most 1500 bytes. -/
def EchoServer.step (server : EchoServer K) (pass : Pass D) : Option (EchoServer K) :=
  let server := { server with kcp := ikcp.update server.kcp pass.current }
  if server.stopped then none
  else
    match pass.arrival with
    | .datagram data addr =>
      if 1 ≤ (ikcp.bytes data).length ∧ (ikcp.bytes data).length ≤ 1500 then
        some ((server.filled ikcp data addr).reply ikcp flush data)
      else none
    | .empty addr => some { server with cientAddr := addr, stopped := true }
    | .nothing => some server

end Loop

/-! ### What the datagrams complete -/

/-- `ikcp` as a reliable and ordered queue. -/
structure Reliable {K D : Type} (ikcp : Ikcp K D) (flush : K → K) extends Queue ikcp where
  ready_create : ∀ conv, ready (ikcp.create conv) = []
  ready_input : ∀ kcp data, ready kcp <+: ready (ikcp.input kcp data).2
  ready_update : ∀ kcp current, ready (ikcp.update kcp current) = ready kcp
  ready_flush : ∀ kcp, ready (flush kcp) = ready kcp
  recv_short : ∀ kcp size message rest, ready kcp = message :: rest → size < message.length →
    ∃ code, ikcp.recv kcp size = .error code

variable {K D : Type} {ikcp : Ikcp K D} {flush : K → K}

/-- The messages that a datagram completes. -/
def Reliable.completes (reliable : Reliable ikcp flush) (kcp : K) (data : D) :
    List (List UInt8) :=
  (reliable.ready (ikcp.input kcp data).2).drop (reliable.ready kcp).length

/-- The messages that become complete in a pass. -/
def Reliable.completesIn (reliable : Reliable ikcp flush) (kcp : K) (pass : Pass D) :
    List (List UInt8) :=
  match pass.arrival with
  | .datagram data _ => reliable.completes (ikcp.update kcp pass.current) data
  | .empty _ => []
  | .nothing => []

/-- A server, with the messages that have become complete since the start of the loop. -/
structure Observed (K : Type) where
  server : EchoServer K
  completed : List (List UInt8)

/-- One pass, observed. -/
def Reliable.observe (reliable : Reliable ikcp flush) (observed : Observed K) (pass : Pass D) :
    Option (Observed K) :=
  (observed.server.step ikcp flush pass).map fun next ↦
    ⟨next, observed.completed ++ reliable.completesIn observed.server.kcp pass⟩

/-- Everything that has become complete has been echoed, once, in order and unchanged. -/
def Observed.Echoed (observed : Observed K) : Prop :=
  observed.server.echoed = observed.completed

/-- A datagram that completes nothing, or one message that is no longer than the datagram, and is
not rejected. -/
def Reliable.OneAtMost (reliable : Reliable ikcp flush) (kcp : K) (data : D) : Prop :=
  reliable.completes kcp data = [] ∨
    0 ≤ (ikcp.input kcp data).1 ∧ (reliable.completes kcp data).length = 1 ∧
      ∀ message ∈ reliable.completes kcp data, message.length ≤ (ikcp.bytes data).length
  deriving Decidable

/-- The passes that the loop can cope with. -/
def Reliable.Copes (reliable : Reliable ikcp flush) (observed : Observed K) (pass : Pass D) :
    Prop :=
  match pass.arrival with
  | .datagram data _ => reliable.OneAtMost (ikcp.update observed.server.kcp pass.current) data
  | .empty _ => True
  | .nothing => True

instance decidableCopes (reliable : Reliable ikcp flush) (observed : Observed K) :
    ∀ pass, Decidable (reliable.Copes observed pass)
  | ⟨current, .datagram data _⟩ =>
    inferInstanceAs (Decidable (reliable.OneAtMost (ikcp.update observed.server.kcp current) data))
  | ⟨_, .empty _⟩ => isTrue trivial
  | ⟨_, .nothing⟩ => isTrue trivial

/-! ### One pass -/

section Reply

variable (reliable : Reliable ikcp flush) {server : EchoServer K} {data : D}

theorem Reliable.completes_of_nil {kcp : K} (hempty : reliable.ready kcp = []) (data : D) :
    reliable.completes kcp data = reliable.ready (ikcp.input kcp data).2 := by
  rw [Reliable.completes, hempty]
  rfl

/-- A datagram that is rejected is not followed by a reply. -/
theorem reply_of_rejected (hcode : (ikcp.input server.kcp data).1 < 0) :
    server.reply ikcp flush data = { server with kcp := (ikcp.input server.kcp data).2 } :=
  if_pos hcode

/-- Nor is one after which `ikcp_recv` fails. -/
theorem reply_of_recv_error {code : ℤ} (hcode : 0 ≤ (ikcp.input server.kcp data).1)
    (hrecv : ikcp.recv (ikcp.input server.kcp data).2 (ikcp.bytes data).length = .error code) :
    server.reply ikcp flush data = { server with kcp := (ikcp.input server.kcp data).2 } := by
  rw [EchoServer.reply, if_neg (Int.not_lt.mpr hcode), hrecv]

/-- The reply is the message, byte for byte. -/
theorem reply_of_recv_ok {message : List UInt8} {kcp : K}
    (hcode : 0 ≤ (ikcp.input server.kcp data).1)
    (hrecv : ikcp.recv (ikcp.input server.kcp data).2 (ikcp.bytes data).length =
      .ok (message, kcp)) :
    server.reply ikcp flush data =
      { server with
        kcp := flush (ikcp.send kcp message).2
        buf := overwrite server.buf message
        echoed := server.echoed ++ [message] } := by
  have hmessage : (overwrite server.buf message).take message.length = message := by
    rw [take_overwrite (Nat.le_refl message.length), List.take_length]
  rw [EchoServer.reply, if_neg (Int.not_lt.mpr hcode), hrecv]
  simp only [hmessage]

/-- With no message waiting, a datagram that completes at most one is handled completely. -/
theorem reply_of_oneAtMost (hempty : reliable.ready server.kcp = [])
    (hone : reliable.OneAtMost server.kcp data) :
    (server.reply ikcp flush data).echoed =
        server.echoed ++ reliable.completes server.kcp data ∧
      reliable.ready (server.reply ikcp flush data).kcp = [] := by
  rw [Reliable.OneAtMost, reliable.completes_of_nil hempty] at hone
  rw [reliable.completes_of_nil hempty]
  rcases hone with hnothing | ⟨hcode, hsingle, hlength⟩
  · rw [hnothing, List.append_nil]
    rcases Int.lt_or_le (ikcp.input server.kcp data).1 0 with hcode | hcode
    · rw [reply_of_rejected hcode]
      exact ⟨rfl, hnothing⟩
    · obtain ⟨code, hrecv, -⟩ := reliable.recv_nil _ (ikcp.bytes data).length hnothing
      rw [reply_of_recv_error hcode hrecv]
      exact ⟨rfl, hnothing⟩
  · obtain ⟨message, harrived⟩ := List.length_eq_one_iff.mp hsingle
    rw [harrived, List.forall_mem_singleton] at hlength
    obtain ⟨kcp, hrecv, hrest⟩ := reliable.recv_cons _ _ message [] harrived hlength
    rw [reply_of_recv_ok hcode hrecv, harrived]
    refine ⟨rfl, ?_⟩
    rw [reliable.ready_flush, reliable.ready_send, hrest]

/-- A datagram that completes more, or a longer message, or is rejected, leaves something over. -/
theorem oneAtMost_of_reply (hempty : reliable.ready server.kcp = [])
    (hechoed : (server.reply ikcp flush data).echoed =
      server.echoed ++ reliable.completes server.kcp data) :
    reliable.OneAtMost server.kcp data := by
  rw [Reliable.OneAtMost]
  rw [reliable.completes_of_nil hempty] at hechoed ⊢
  -- nothing is echoed if `ikcp_input` or `ikcp_recv` fails
  have hfailed : server.reply ikcp flush data =
      { server with kcp := (ikcp.input server.kcp data).2 } →
        reliable.ready (ikcp.input server.kcp data).2 = [] := by
    intro hreply
    rw [hreply] at hechoed
    exact List.self_eq_append_right.mp hechoed
  rcases Int.lt_or_le (ikcp.input server.kcp data).1 0 with hcode | hcode
  · exact Or.inl (hfailed (reply_of_rejected hcode))
  · cases harrived : reliable.ready (ikcp.input server.kcp data).2 with
    | nil => exact Or.inl rfl
    | cons message rest =>
      rcases Nat.lt_or_ge (ikcp.bytes data).length message.length with hlong | hlength
      · obtain ⟨code, hrecv⟩ := reliable.recv_short _ _ message rest harrived hlong
        have hnothing := hfailed (reply_of_recv_error hcode hrecv)
        rw [harrived] at hnothing
        exact absurd hnothing (List.cons_ne_nil message rest)
      · obtain ⟨kcp, hrecv, -⟩ := reliable.recv_cons _ _ message rest harrived hlength
        rw [reply_of_recv_ok hcode hrecv, harrived] at hechoed
        have hrest : [message] = message :: rest := List.append_cancel_left hechoed
        rw [← hrest, List.forall_mem_singleton]
        exact Or.inr ⟨hcode, rfl, hlength⟩

end Reply

/-! ### Whole runs -/

section Runs

variable (reliable : Reliable ikcp flush)

/-- What holds before each pass as long as the loop has coped: nothing is waiting, and everything
has been echoed. -/
structure Settled (observed : Observed K) : Prop where
  ready : reliable.ready observed.server.kcp = []
  echoed : observed.Echoed

theorem settled_start (current : UInt32) (addr : SockAddr) :
    Settled reliable ⟨.start ikcp current addr, []⟩ := by
  refine ⟨?_, rfl⟩
  change reliable.ready (ikcp.update (ikcp.create 1) current) = []
  rw [reliable.ready_update, reliable.ready_create]

/-- The passes: the loop replies to a datagram, or leaves the messages alone. -/
inductive Observation (observed : Observed K) : Pass D → Observed K → Prop where
  | datagram (current : UInt32) (data : D) (addr : SockAddr) (server : EchoServer K)
      (hkcp : server.kcp = ikcp.update observed.server.kcp current)
      (hechoed : server.echoed = observed.server.echoed) :
      Observation observed ⟨current, .datagram data addr⟩
        ⟨server.reply ikcp flush data, observed.completed ++ reliable.completes server.kcp data⟩
  | other (pass : Pass D) (next : Observed K)
      (hpass : ∀ data addr, pass.arrival ≠ .datagram data addr)
      (hkcp : next.server.kcp = ikcp.update observed.server.kcp pass.current)
      (hechoed : next.server.echoed = observed.server.echoed)
      (hcompleted : next.completed = observed.completed) : Observation observed pass next

theorem observation_of_observe {observed next : Observed K} {pass : Pass D}
    (hstep : reliable.observe observed pass = some next) :
    Observation reliable observed pass next := by
  obtain ⟨server, hserver, rfl⟩ := Option.map_eq_some_iff.mp hstep
  obtain ⟨current, arrival⟩ := pass
  simp only [EchoServer.step] at hserver
  split_ifs at hserver
  cases arrival with
  | datagram data addr =>
    dsimp only at hserver
    split_ifs at hserver
    rw [← Option.some.inj hserver]
    exact .datagram current data addr _ rfl rfl
  | empty addr =>
    rw [← Option.some.inj hserver]
    exact .other _ _ (fun data addr' h ↦ nomatch h) rfl rfl (List.append_nil _)
  | nothing =>
    rw [← Option.some.inj hserver]
    exact .other _ _ (fun data addr' h ↦ nomatch h) rfl rfl (List.append_nil _)

/-- A pass that the loop can cope with leaves it settled. -/
theorem settled_observe {observed next : Observed K} {pass : Pass D}
    (hsettled : Settled reliable observed) (hcopes : reliable.Copes observed pass)
    (hstep : reliable.observe observed pass = some next) : Settled reliable next := by
  obtain ⟨hready, hall⟩ := hsettled
  cases observation_of_observe reliable hstep with
  | datagram current data addr server hkcp hechoed =>
    have hempty : reliable.ready server.kcp = [] := by
      rw [hkcp, reliable.ready_update, hready]
    rw [Reliable.Copes, ← hkcp] at hcopes
    obtain ⟨hreply, hnext⟩ := reply_of_oneAtMost reliable hempty hcopes
    refine ⟨hnext, ?_⟩
    rw [Observed.Echoed, hreply, hechoed, hall]
  | other pass next hpass hkcp hechoed hcompleted =>
    refine ⟨?_, ?_⟩
    · rw [hkcp, reliable.ready_update, hready]
    · rw [Observed.Echoed, hechoed, hcompleted, hall]

/-- After any other pass something has not been echoed. -/
theorem copes_of_echoed {observed next : Observed K} {pass : Pass D}
    (hsettled : Settled reliable observed) (hstep : reliable.observe observed pass = some next)
    (hnext : next.Echoed) : reliable.Copes observed pass := by
  obtain ⟨hready, hall⟩ := hsettled
  cases observation_of_observe reliable hstep with
  | datagram current data addr server hkcp hechoed =>
    have hempty : reliable.ready server.kcp = [] := by
      rw [hkcp, reliable.ready_update, hready]
    rw [Reliable.Copes, ← hkcp]
    refine oneAtMost_of_reply reliable hempty ?_
    rw [hechoed, hall]
    exact hnext
  | other pass next hpass hkcp hechoed hcompleted =>
    rw [Reliable.Copes]
    cases harrival : pass.arrival with
    | datagram data addr => exact absurd harrival (hpass data addr)
    | empty addr => trivial
    | nothing => trivial

/-- In every run of the loop, with any datagrams in any order, after each pass every message that
has become complete has been passed to `ikcp_send` once, in order and unchanged, exactly if every
datagram of the run completes nothing, or is accepted and completes one message that is no longer
than the datagram. -/
theorem echoed_iff {current : UInt32} {addr : SockAddr} {passes : List (Pass D)}
    {final : Observed K}
    (hrun : run reliable.observe ⟨.start ikcp current addr, []⟩ passes = some final) :
    Throughout reliable.observe Observed.Echoed ⟨.start ikcp current addr, []⟩ passes ↔
      Along reliable.observe reliable.Copes ⟨.start ikcp current addr, []⟩ passes :=
  throughout_iff_along (fun _ hsettled ↦ hsettled.echoed)
    (fun _ _ _ hsettled hcopes hstep ↦ settled_observe reliable hsettled hcopes hstep)
    (fun _ _ _ hsettled hstep hnext ↦ copes_of_echoed reliable hsettled hstep hnext)
    (settled_start reliable current addr) hrun

end Runs

/-- `queueIkcp` is reliable. -/
def endpointReliable : Reliable queueIkcp id where
  toQueue := endpointQueue
  ready_create := fun _ ↦ rfl
  ready_input := fun _ data ↦ List.prefix_append _ data.messages
  ready_update := fun _ _ ↦ rfl
  ready_flush := fun _ ↦ rfl
  recv_short := fun endpoint size message rest hready hshort ↦ by
    refine ⟨-3, ?_⟩
    change endpoint.recv size = _
    replace hready : endpoint.ready = message :: rest := hready
    rw [Endpoint.recv, hready]
    simp only [if_pos hshort]

/-- The server at the start, observed. -/
def echoStart : Observed Endpoint := ⟨.start queueIkcp 0 ⟨0, 0, 0, 0, 0⟩, []⟩

/-- A pass in which the client's datagram arrives. -/
def echoPass (bytes : List UInt8) (messages : List (List UInt8)) : Pass Datagram :=
  ⟨10, .datagram ⟨bytes, messages⟩ ⟨10, 0, 0, 1, 7001⟩⟩

/-- Two messages, each in its own datagram. -/
def twoPasses : List (Pass Datagram) :=
  [echoPass (segment 1 81 [104]) [[104]], echoPass (segment 1 81 [105]) [[105]]]

theorem echoed_iff_twoPasses :
    Throughout endpointReliable.observe Observed.Echoed echoStart twoPasses := by
  have hview : (run endpointReliable.observe echoStart twoPasses).map
      (fun observed ↦ observed.server.echoed) = some [[104], [105]] := by decide +kernel
  obtain ⟨final, hrun, -⟩ := exists_of_view hview
  have hcopes : Along endpointReliable.observe endpointReliable.Copes echoStart twoPasses := by
    decide +kernel
  exact (echoed_iff endpointReliable hrun).mpr hcopes

/-- The failure: of two messages that one datagram completes only the first is echoed, and a
message of 1500 bytes is not echoed when its last fragment, of 148 bytes, completes it. -/
theorem message_not_echoed :
    (run endpointReliable.observe echoStart [echoPass (segment 1 81 [104] ++ segment 1 81 [105])
        [[104], [105]]]).map (fun observed ↦ (observed.server.echoed, observed.completed)) =
      some ([[104]], [[104], [105]]) ∧
    (run endpointReliable.observe echoStart [echoPass (segment 1 81 (List.replicate 124 104))
        [List.replicate 1500 104]]).map
          (fun observed ↦ (observed.server.echoed, observed.completed)) =
      some ([], [List.replicate 1500 104]) :=
  ⟨by decide +kernel, by decide +kernel⟩

end TestLinux.Kcp
