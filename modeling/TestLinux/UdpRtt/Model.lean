import TestLinux.Kcp.Limits

/-!
# The RTT clients of `tcp-udp-rtt/udp-rtt`

The server and the KCP classes of `udp-rtt` are those of `2.2.3-udp-kcp-quic`. A client has two
threads: `Start` sends a message of 1024 letters, waits for the condition variable and sends again;
`Run` receives, and `HandleMessage` takes the time since the last message was sent, stores it in
`rtt_vec` and notifies the condition variable. The wait has no predicate, and `HandleMessage` does
not look at the message. `start_time` is written under the mutex and read without it. A client ends
when a division by `g_loop_num` fails, and the receiving thread when `Input` fails.

KCP delivers reliably and in order: the texts that a client receives from a session of the server
are those that the server has passed to `Send` of the session, in their order and without a gap, and
`received` is the number of those that have arrived; the messages that the server receives are those
that the client has passed to `Send`. A text of the server is a call of a handler of `ChatServer`
with its number among all calls, so that equal texts are told apart.

`starts`, `samples`, `released` and `echoes` are a history: the start times of the messages that
were sent, the values that were pushed with the time and the text of the call of `HandleMessage`,
the texts whose notification has woken the sender, and the texts that the server has made of the
messages of a client. No step reads them.
-/

set_option autoImplicit false
set_option relaxedAutoImplicit false

namespace TestLinux.UdpRtt

open TestLinux.Runs TestLinux.Kcp

/-! ### Texts of the server -/

/-- A call of a handler with its number. -/
structure Text where
  call : Call
  number : ℕ
  deriving DecidableEq

/-- The calls with their numbers. -/
def numbered (calls : List Call) : List Text := calls.mapIdx fun number call ↦ ⟨call, number⟩

/-- The texts that are passed to `Send` of a session. -/
def textsTo (id : ℕ) (calls : List Call) : List Text :=
  (numbered calls).filter (id ∈ ·.call.users)

/-- The text was made of a message of a client. -/
def Text.isMessage (text : Text) : Bool :=
  match text.call.notice with
  | .message _ => true
  | _ => false

/-! ### The client -/

/-- The threads of a client. -/
inductive Thread
  | sender
  | receiver
  deriving DecidableEq

/-- The loop of `Start`: before the mutex is locked, before the clock is read, before `Send`, before
and in the wait, before the mutex is locked again, and before it is unlocked. -/
inductive Sender
  | lock
  | stamp
  | send
  | wait
  | waiting
  | woken
  | unlock
  deriving DecidableEq

/-- The thread of `Run`: between two calls of `Run`, in the loop of `Run`, and in `HandleMessage`
before the clock is read, before the mutex is locked, before the notification and before the mutex
is unlocked. -/
inductive Receiver
  | idle
  | loop
  | handle (text : Text)
  | lock (text : Text)
  | notify (text : Text)
  | unlock
  deriving DecidableEq

/-- A value that was pushed into `rtt_vec`. -/
structure Sample where
  value : ℤ
  time : ℤ
  text : Text
  deriving DecidableEq

/-- What is printed. -/
structure Report where
  rtts : List ℤ
  avg : ℤ
  min : ℤ
  max : ℤ
  deriving DecidableEq

/-- `ChatClient`. -/
structure ChatClient where
  session : Session Endpoint
  received : ℕ → ℕ
  inbox : List Text
  mutex : Option Thread
  sender : Sender
  receiver : Receiver
  startTime : ℤ
  rttVec : List ℤ
  loopNum : ℤ
  printed : List Report
  running : Bool
  exited : Bool
  starts : List ℤ
  samples : List Sample
  released : List Text

/-- The constructor, and the start of the thread. -/
def ChatClient.start (conv : UInt32) (serverAddr : SockAddr) : ChatClient where
  session := .new queueIkcp (clientOpt conv) serverAddr
  received := fun _ ↦ 0
  inbox := []
  mutex := none
  sender := .lock
  receiver := .idle
  startTime := 0
  rttVec := []
  loopNum := 0
  printed := []
  running := true
  exited := false
  starts := []
  samples := []
  released := []

/-- `MESSAGE_SIZE` letters. -/
def message : List UInt8 := List.replicate 1024 97

/-- The next step of the loop of `Start`. -/
def ChatClient.send (client : ChatClient) (current : ℤ) : Option ChatClient :=
  match client.sender with
  | .lock =>
    if client.mutex = none then some { client with mutex := some .sender, sender := .stamp }
    else none
  | .stamp => some { client with startTime := current, sender := .send }
  | .send =>
    some { client with
      session := (client.session.send queueIkcp message).2
      sender := .wait
      starts := client.starts ++ [client.startTime] }
  | .wait => some { client with mutex := none, sender := .waiting }
  | .waiting => none
  | .woken =>
    if client.mutex = none then some { client with mutex := some .sender, sender := .unlock }
    else none
  | .unlock => some { client with mutex := none, sender := .lock }

/-- The texts that a datagram from a session completes. -/
def ChatClient.arriving (client : ChatClient) (server : Server Endpoint) (id count : ℕ) :
    List Text :=
  ((textsTo id server.calls).drop (client.received id)).take count

/-- `Run` up to its loop. A datagram of the server is one of a session with the conversation number
of the client. `HandleClose` exits. -/
def ChatClient.run (server : Server Endpoint) (client : ChatClient) (current : ℤ)
    (arrival : Option (ℕ × List UInt8 × ℕ)) : Option ChatClient :=
  if client.receiver = .idle ∧ client.running = true then
    let result := client.session.update queueIkcp current
    let next := { client with session := result.2 }
    if result.1 then some { next with exited := true }
    else
      match arrival with
      | none => some next
      | some (id, bytes, count) =>
        if (server.objects id).opt.conv = client.session.opt.conv ∧ bytes.length ≤ 4096 then
          if bytes.length < 24 then some next
          else if inputCode client.session.opt.conv bytes ≠ 0 then
            some { next with running := false }
          else
            some { next with
              inbox := client.inbox ++ client.arriving server id count
              received := Function.update client.received id
                (client.received id + (client.arriving server id count).length)
              receiver := .loop }
        else none
  else none

/-- `Recv` in the loop of `Run`. -/
def ChatClient.recv (client : ChatClient) : Option ChatClient :=
  if client.receiver = .loop then
    match client.inbox with
    | [] => some { client with receiver := .idle }
    | text :: rest =>
      if 4096 < text.call.text.length then some { client with exited := true }
      else some { client with inbox := rest, receiver := .handle text }
  else none

/-- What `HandleMessage` prints when `g_loop_num` values have been pushed. -/
def report (gLoopNum : ℤ) (rttVec : List ℤ) : Report where
  rtts := rttVec.take gLoopNum.toNat
  avg := ((rttVec.take gLoopNum.toNat).foldl (· + ·) 0).tdiv gLoopNum
  min := (rttVec.take gLoopNum.toNat).foldl min (rttVec.headD 0)
  max := (rttVec.take gLoopNum.toNat).foldl max (rttVec.headD 0)

/-- `HandleMessage` up to the mutex. -/
def ChatClient.handleMessage (gLoopNum : ℤ) (client : ChatClient) (text : Text) (current : ℤ) :
    ChatClient :=
  let rtt := current - client.startTime
  let next := { client with
    receiver := .lock text
    rttVec := client.rttVec ++ [rtt]
    loopNum := client.loopNum + 1
    samples := client.samples ++ [⟨rtt, current, text⟩] }
  if gLoopNum ≤ next.loopNum then
    if gLoopNum = 0 then { next with exited := true }
    else
      { next with
        rttVec := []
        loopNum := 0
        printed := client.printed ++ [report gLoopNum next.rttVec] }
  else next

/-- The end of `HandleMessage`: the mutex is locked, a sender that waits is woken, the mutex is
unlocked. -/
def ChatClient.finish (client : ChatClient) : Option ChatClient :=
  match client.receiver with
  | .lock text =>
    if client.mutex = none then
      some { client with mutex := some .receiver, receiver := .notify text }
    else none
  | .notify text =>
    if client.sender = .waiting then
      some { client with
        sender := .woken
        receiver := .unlock
        released := client.released ++ [text] }
    else some { client with receiver := .unlock }
  | .unlock => some { client with mutex := none, receiver := .loop }
  | _ => none

/-- The steps of a client. A wait may end without a notification. -/
inductive Action
  | send (current : ℤ)
  | wake
  | run (current : ℤ) (arrival : Option (ℕ × List UInt8 × ℕ))
  | recv
  | handle (current : ℤ)
  | finish
  deriving DecidableEq

/-- One step of a client. -/
def ChatClient.act (gLoopNum : ℤ) (server : Server Endpoint) (client : ChatClient)
    (action : Action) : Option ChatClient :=
  if client.exited then none
  else
    match action with
    | .send current => client.send current
    | .wake => if client.sender = .waiting then some { client with sender := .woken } else none
    | .run current arrival => client.run server current arrival
    | .recv => client.recv
    | .handle current =>
      match client.receiver with
      | .handle text => some (client.handleMessage gLoopNum text current)
      | _ => none
    | .finish => client.finish

/-! ### The system -/

/-- The server and the clients. -/
structure System where
  server : Server Endpoint
  clients : ℕ → ChatClient
  echoes : ℕ → List Text

/-- Nobody has sent anything. -/
def System.start (site : Site) : System where
  server := .start queueIkcp chatOpt
  clients := fun index ↦ .start (site.conv index) site.serverAddr
  echoes := fun _ ↦ []

/-- What happens in the system: a step of a client; a datagram of a client reaches the server, with
the next `count` messages of the client; the server calls `Update`. -/
inductive Event
  | client (index : ℕ) (action : Action)
  | receive (index : ℕ) (bytes : List UInt8) (count : ℕ) (clock : ℕ → ℤ)
  | tick (order : List (UInt32 × ℤ))

/-- The messages of a datagram: none, if it is rejected. -/
def accepted (conv : UInt32) (bytes : List UInt8) (count : ℕ) : ℕ :=
  if inputCode conv bytes = 0 then count else 0

/-- One step of the system. -/
def systemStep (site : Site) (gLoopNum : ℤ) (system : System) : Event → Option System
  | .client index action =>
    ((system.clients index).act gLoopNum system.server action).map fun client ↦
      { system with clients := Function.update system.clients index client }
  | .receive index bytes count clock =>
    if getConv bytes = site.conv index then
      let client := system.clients index
      let count := accepted (site.conv index) bytes count
      (step queueIkcp system.server (.datagram ⟨bytes, client.session.kcp.outgoing.take count⟩
          (site.addr index) clock)).map fun server ↦
        { server := server
          clients := Function.update system.clients index
            { client with session := client.session.deliver count }
          echoes := Function.update system.echoes index (system.echoes index ++
            ((numbered server.calls).drop system.server.calls.length).filter Text.isMessage) }
    else none
  | .tick order =>
    (step queueIkcp system.server (.tick order)).map fun server ↦ { system with server := server }

end TestLinux.UdpRtt
