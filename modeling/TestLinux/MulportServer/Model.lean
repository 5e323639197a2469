import TestLinux.Library.ReadyQueue
import TestLinux.Library.Runs
import TestLinux.Library.Threads
import Mathlib.Data.Finset.Card
import Mathlib.Data.Fintype.Option

/-!
# `2.3.1-coroutine/server_mulport_epoll.c`

The main thread watches its listening sockets and its clients edge-triggered. For the event of a
listening socket it accepts one connection, counts it in `curfds` and adds it to `epoll`; for the
event of a client it queues a `client_job`, or, once `nRun` is set, reads itself. A job reads at
most `MAX_BUFFER` bytes with `nRecv` and closes the socket when nothing was read and the result is
`ENOTCONN`. Several jobs for one descriptor may be queued and run at the same time.

The server is cut at its system calls and at the accesses to `curfds`, and connections and data
arrive between any two of them. The ready list of `epoll` is a queue without duplicates: arrivals
before the event is taken coalesce. A client is queued when it is added, since it is writable then,
and whenever data, a FIN or a reset arrives or it becomes writable again. `epoll_wait` takes the
first `curfds` events and fails when `curfds` is not positive; the program ends when it fails, and
when `accept` does. `accept` hands out any descriptor that is not open. No socket has descriptor 0,
so `listenfd` returns 0 for clients only. The jobs wait in a stack, and an idle worker takes the
top.

`recv` returns any number of the unread bytes that fits, zero behind the last byte of a connection
that the peer has closed, or an error, `EAGAIN` only when nothing is there. `poll` reports a hangup
for a connection that was reset, and when it fails, `revents` is whatever it was. On a descriptor
that is not open `recv` fails and `poll` returns at once without a hangup. What is read is not
looked at: the answer of `nSend` has no part in what follows.

`connection` names the connection behind an open descriptor and `closes` lists the calls of `close`
with the connection that each has closed. No step reads them.
-/

set_option autoImplicit false
set_option relaxedAutoImplicit false

namespace TestLinux.MulportServer

open TestLinux.ReadyQueue TestLinux.Threads

/-! ### `nRecv` -/

/-- `MAX_BUFFER`. -/
def maxBuffer : ℕ := 128

/-- `EINTR`. -/
def eintr : ℕ := 4

/-- `EAGAIN`, which is `EWOULDBLOCK` as well. -/
def eagain : ℕ := 11

/-- `ENOTCONN`. -/
def enotconn : ℕ := 107

/-- `ETIMEDOUT`. -/
def etimedout : ℕ := 110

/-- Where a thread is in `client_job` or `client_data_process`: in front of `recv` or `poll`, behind
`nRecv`, or in front of `close`. -/
inductive TaskPoint
  | recv
  | poll
  | returned
  | close
  deriving DecidableEq

/-- A thread in `client_job` or `client_data_process`, with the variables of `nRecv`. -/
structure Task where
  fd : ℕ
  leftBytes : ℕ
  retCode : ℕ
  point : TaskPoint
  deriving DecidableEq

/-- The call of `nRecv`. -/
def Task.new (fd : ℕ) : Task := ⟨fd, maxBuffer, 0, .recv⟩

/-- The answer of `recv`. -/
inductive RecvAnswer
  | data (count : ℕ)
  | disconnect
  | error (errno : ℕ)
  deriving DecidableEq

/-- The answer of `poll` with `POLLHUP` in `revents`. -/
inductive PollAnswer
  | ready (hangup : Bool)
  | timeout
  | error (errno : ℕ) (hangup : Bool)
  deriving DecidableEq

/-- `errno != 0 ? errno : EINTR`. -/
def orEintr (errno : ℕ) : ℕ := if errno ≠ 0 then errno else eintr

/-- Behind `recv`. -/
def Task.recv (task : Task) : RecvAnswer → Task
  | .data count =>
    { task with
      leftBytes := task.leftBytes - count
      point := if 0 < task.leftBytes - count then .recv else .returned }
  | .error errno =>
    { task with
      retCode := if errno = eagain ∨ errno = eintr then task.retCode else orEintr errno
      point := .poll }
  | .disconnect => { task with retCode := enotconn, point := .returned }

/-- Behind `poll`. -/
def Task.poll (task : Task) : PollAnswer → Task
  | .ready true | .error _ true => { task with retCode := enotconn, point := .returned }
  | .ready false => { task with point := .recv }
  | .timeout => { task with retCode := etimedout, point := .returned }
  | .error errno false =>
    { task with
      retCode := if errno = eintr then task.retCode else orEintr errno
      point := .recv }

/-! ### Connections and sockets -/

/-- What a connection holds for the server. -/
structure Stream where
  unread : ℕ
  fin : Bool
  reset : Bool
  deriving DecidableEq

/-- A connection that has just been made. -/
def Stream.new : Stream := ⟨0, false, false⟩

/-- What the peer does. -/
inductive Arrival
  | data (count : ℕ)
  | fin
  | reset
  deriving DecidableEq

/-- Something arrives. Behind a FIN the peer sends no more data. -/
def Stream.arrive (stream : Stream) : Arrival → Option Stream
  | .data count => if stream.fin then none else some { stream with unread := stream.unread + count }
  | .fin => some { stream with fin := true }
  | .reset => some { stream with reset := true }

/-- `recv` would not return `EAGAIN`. -/
def Stream.readable (stream : Stream) : Bool :=
  decide (0 < stream.unread) || stream.fin || stream.reset

/-- What `recv` can answer for `leftBytes` bytes. -/
def RecvAnswer.Possible (stream : Stream) (leftBytes : ℕ) : RecvAnswer → Prop
  | .data count => 1 ≤ count ∧ count ≤ leftBytes ∧ count ≤ stream.unread
  | .disconnect => stream.unread = 0 ∧ (stream.fin || stream.reset) = true
  | .error errno => errno = eagain → stream.readable = false

/-- What `poll` can answer. -/
def PollAnswer.Possible (stream : Stream) : PollAnswer → Prop
  | .ready hangup => stream.readable = true ∧ hangup = stream.reset
  | .timeout => stream.readable = false
  | .error _ _ => True

instance decidableRecvPossible (stream : Stream) (leftBytes : ℕ) : ∀ answer : RecvAnswer,
    Decidable (answer.Possible stream leftBytes)
  | .data count => inferInstanceAs (Decidable (1 ≤ count ∧ count ≤ leftBytes ∧
      count ≤ stream.unread))
  | .disconnect => inferInstanceAs (Decidable (stream.unread = 0 ∧
      (stream.fin || stream.reset) = true))
  | .error errno => inferInstanceAs (Decidable (errno = eagain → stream.readable = false))

instance decidablePollPossible (stream : Stream) : ∀ answer : PollAnswer,
    Decidable (answer.Possible stream)
  | .ready hangup => inferInstanceAs (Decidable (stream.readable = true ∧
      hangup = stream.reset))
  | .timeout => inferInstanceAs (Decidable (stream.readable = false))
  | .error _ _ => isTrue trivial

/-! ### The server -/

/-- `MAX_THREAD`. -/
abbrev maxThread : ℕ := 80

/-- The worker with a number. -/
def workerAt (number : ℕ) : Fin maxThread := Fin.ofNat maxThread number

/-- `MAX_PORT`. -/
def maxPort : ℕ := 100

/-- The descriptors of the listening sockets, behind those of the standard streams and of `epoll`.
-/
def ports : List ℕ := List.range' 4 maxPort

/-- The threads that read from clients: the workers, and the main thread. -/
abbrev Agent (size : ℕ) : Type := Option (Fin size)

/-- The worker with a number as a thread. -/
def agentAt (number : ℕ) : Agent maxThread := some (workerAt number)

/-- The main thread. -/
def Agent.main {size : ℕ} : Agent size := none

/-- Where the main thread is: in front of `epoll_wait`, in the loop over the events with the
remaining ones, behind `accept` in front of `curfds ++`, in front of `EPOLL_CTL_ADD`, inside
`client_data_process`, or at its end. -/
inductive Point
  | wait
  | events (rest : List ℕ)
  | count (clientfd : ℕ) (rest : List ℕ)
  | register (clientfd : ℕ) (rest : List ℕ)
  | process (rest : List ℕ)
  | stopped
  deriving DecidableEq

/-- The server and its sockets. -/
structure State (size : ℕ) where
  point : Point
  sockfds : List ℕ
  backlog : ℕ → List Stream
  clients : Finset ℕ
  stream : ℕ → Stream
  watched : ℕ → Bool
  ready : List ℕ
  waitingJobs : List ℕ
  task : Agent size → Option Task
  curfds : ℤ
  nRun : Bool
  accepted : ℕ
  connection : ℕ → ℕ
  closes : List (Option ℕ)

/-- In front of the main loop. -/
def State.start (size : ℕ) (sockfds : List ℕ) : State size where
  point := .wait
  sockfds := sockfds
  backlog := fun _ ↦ []
  clients := ∅
  stream := fun _ ↦ Stream.new
  watched := fun fd ↦ decide (fd ∈ sockfds)
  ready := []
  waitingJobs := []
  task := fun _ ↦ none
  curfds := 1
  nRun := false
  accepted := 0
  connection := fun _ ↦ 0
  closes := []

variable {size : ℕ}

/-- Something has happened on a socket. -/
def State.wake (state : State size) (fd : ℕ) : State size :=
  { state with ready := if state.watched fd then enqueue fd state.ready else state.ready }

/-- A connection in a backlog, or the client on a descriptor. -/
inductive Place
  | pending (listenFd index : ℕ)
  | client (fd : ℕ)
  deriving DecidableEq

/-- A connection is made to a listening socket. -/
def State.connect (state : State size) (listenFd : ℕ) : State size :=
  { state with
    backlog := Function.update state.backlog listenFd
      (state.backlog listenFd ++ [Stream.new]) }.wake listenFd

/-- Something arrives on a connection. -/
def State.arrive (state : State size) (arrival : Arrival) : Place → Option (State size)
  | .pending listenFd index =>
    (state.backlog listenFd)[index]?.bind fun stream ↦
      (stream.arrive arrival).map fun stream ↦
        { state with
          backlog := Function.update state.backlog listenFd
            ((state.backlog listenFd).set index stream) }
  | .client fd =>
    if fd ∈ state.clients then
      ((state.stream fd).arrive arrival).map fun stream ↦
        { state with stream := Function.update state.stream fd stream }.wake fd
    else none

/-- `epoll_wait`. -/
def State.wait (state : State size) : State size :=
  if 0 < state.curfds then
    { state with
      point := .events (state.ready.take state.curfds.toNat)
      ready := state.ready.drop state.curfds.toNat }
  else { state with point := .stopped }

/-- `accept` returns a descriptor for the first connection of the backlog. -/
def State.accept (state : State size) (listenFd clientfd : ℕ) (stream : Stream)
    (rest : List ℕ) : State size :=
  { state with
    point := .count clientfd rest
    backlog := Function.update state.backlog listenFd (state.backlog listenFd).tail
    clients := insert clientfd state.clients
    stream := Function.update state.stream clientfd stream
    accepted := state.accepted + 1
    connection := Function.update state.connection clientfd state.accepted }

/-- `if (curfds ++ > 1000 * 1000) nRun = 1`. -/
def State.count (state : State size) (clientfd : ℕ) (rest : List ℕ) : State size :=
  { state with
    point := .register clientfd rest
    curfds := state.curfds + 1
    nRun := decide (1000 * 1000 < state.curfds) || state.nRun }

/-- `EPOLL_CTL_ADD` of a client, which is writable. It fails when the descriptor was closed
meanwhile. -/
def State.register (state : State size) (clientfd : ℕ) (rest : List ℕ) : State size :=
  { state with
    point := .events rest
    watched := if clientfd ∈ state.clients then Function.update state.watched clientfd true
      else state.watched
    ready := if clientfd ∈ state.clients then enqueue clientfd state.ready else state.ready }

/-- The event of a client. -/
def State.dispatch (state : State size) (fd : ℕ) (rest : List ℕ) : State size :=
  if state.nRun then
    { state with
      point := .process rest
      task := Function.update state.task Agent.main (some (Task.new fd)) }
  else
    { state with point := .events rest, waitingJobs := fd :: state.waitingJobs }

/-- The state with one thread further on. -/
def State.setTask (state : State size) (agent : Agent size) (task : Task) : State size :=
  { state with task := Function.update state.task agent (some task) }

/-- A thread is at the end of `client_job` or `client_data_process`. -/
def State.endTask (state : State size) (agent : Agent size) : State size :=
  { state with
    point := match agent, state.point with
      | none, .process rest => .events rest
      | _, point => point
    task := Function.update state.task agent none }

/-- Behind `nRecv`. When nothing was read and the connection is gone, `curfds` goes down and the
socket is still to be closed. -/
def State.finish (state : State size) (agent : Agent size) (task : Task) : State size :=
  if task.leftBytes < maxBuffer then state.endTask agent
  else if task.retCode = enotconn then
    { state.setTask agent { task with point := .close } with curfds := state.curfds - 1 }
  else state.endTask agent

/-- `close`. On a descriptor that is not open it fails. -/
def State.close (state : State size) (agent : Agent size) (fd : ℕ) : State size :=
  if fd ∈ state.clients then
    { state.endTask agent with
      clients := state.clients.erase fd
      watched := Function.update state.watched fd false
      ready := dequeue fd state.ready
      closes := state.closes ++ [some (state.connection fd)] }
  else { state.endTask agent with closes := state.closes ++ [none] }

/-- What the peers do, and the steps of the main thread and the workers with the answers of their
system calls. `dispatch` is the event of a client, `next` the end of the loop over the events. -/
inductive Event (size : ℕ)
  | connect (listenFd : ℕ)
  | arrive (arrival : Arrival) (place : Place)
  | writable (fd : ℕ)
  | wait
  | interrupted
  | accept (clientfd : Option ℕ)
  | count
  | register
  | dispatch
  | next
  | takeJob (index : Fin size)
  | recv (agent : Agent size) (answer : RecvAnswer)
  | poll (agent : Agent size) (answer : PollAnswer)
  | finish (agent : Agent size)
  | close (agent : Agent size)
  deriving DecidableEq

/-- `accept` for the event of a listening socket. -/
def acceptStep (state : State size) (clientfd : Option ℕ) : Option (State size) :=
  match state.point with
  | .events (fd :: rest) =>
    if fd ∈ state.sockfds then
      match clientfd, state.backlog fd with
      | none, _ => some { state with point := .stopped }
      | some clientfd, stream :: _ =>
        if clientfd ∉ state.clients ∧ clientfd ∉ state.sockfds then
          some (state.accept fd clientfd stream rest)
        else none
      | some _, [] => none
    else none
  | _ => none

/-- A step of the main thread between its system calls. -/
def mainStep (state : State size) : Event size → Option (State size)
  | .count =>
    match state.point with
    | .count clientfd rest => some (state.count clientfd rest)
    | _ => none
  | .register =>
    match state.point with
    | .register clientfd rest => some (state.register clientfd rest)
    | _ => none
  | .dispatch =>
    match state.point with
    | .events (fd :: rest) =>
      if fd ∈ state.sockfds then none else some (state.dispatch fd rest)
    | _ => none
  | .next =>
    match state.point with
    | .events [] => some { state with point := .wait }
    | _ => none
  | _ => none

/-- An idle worker takes a job. -/
def takeJobStep (state : State size) (index : Fin size) : Option (State size) :=
  match state.task (some index), state.waitingJobs with
  | none, fd :: waitingJobs =>
    some { state.setTask (some index) (Task.new fd) with waitingJobs := waitingJobs }
  | _, _ => none

/-- `recv` in `nRecv`. The bytes that it returns are read. -/
def recvStep (state : State size) (agent : Agent size) (answer : RecvAnswer) :
    Option (State size) :=
  (state.task agent).bind fun task ↦
    if task.point = .recv then
      if task.fd ∈ state.clients then
        if answer.Possible (state.stream task.fd) task.leftBytes then
          match answer with
          | .data count =>
            some { state.setTask agent (task.recv (.data count)) with
              stream := Function.update state.stream task.fd
                { state.stream task.fd with unread := (state.stream task.fd).unread - count } }
          | answer => some (state.setTask agent (task.recv answer))
        else none
      else
        match answer with
        | .error errno =>
          if errno = eagain then none else some (state.setTask agent (task.recv (.error errno)))
        | _ => none
    else none

/-- `poll` in `nRecv`. -/
def pollStep (state : State size) (agent : Agent size) (answer : PollAnswer) :
    Option (State size) :=
  (state.task agent).bind fun task ↦
    if task.point = .poll then
      if task.fd ∈ state.clients then
        if answer.Possible (state.stream task.fd) then some (state.setTask agent (task.poll answer))
        else none
      else if answer = .ready false then some (state.setTask agent (task.poll answer))
      else none
    else none

/-- One step of the peers or of the server. -/
def step (state : State size) : Event size → Option (State size)
  | .connect listenFd => if listenFd ∈ state.sockfds then some (state.connect listenFd) else none
  | .arrive arrival place => state.arrive arrival place
  | .writable fd => if fd ∈ state.clients then some (state.wake fd) else none
  | .wait => if state.point = .wait then some state.wait else none
  | .interrupted => if state.point = .wait then some { state with point := .stopped } else none
  | .accept clientfd => acceptStep state clientfd
  | .takeJob index => takeJobStep state index
  | .recv agent answer => recvStep state agent answer
  | .poll agent answer => pollStep state agent answer
  | .finish agent =>
    (state.task agent).bind fun task ↦
      if task.point = .returned then some (state.finish agent task) else none
  | .close agent =>
    (state.task agent).bind fun task ↦
      if task.point = .close then some (state.close agent task.fd) else none
  | event => mainStep state event

/-! ### What a step can do -/

/-- The transitions. -/
inductive Move (state : State size) : Event size → State size → Prop
  | connect {listenFd : ℕ} (hlisten : listenFd ∈ state.sockfds) :
    Move state (.connect listenFd) (state.connect listenFd)
  | arrivePending {arrival : Arrival} {listenFd index : ℕ} {stream next : Stream}
      (hstream : (state.backlog listenFd)[index]? = some stream)
      (hnext : stream.arrive arrival = some next) :
    Move state (.arrive arrival (.pending listenFd index)) { state with
      backlog := Function.update state.backlog listenFd
        ((state.backlog listenFd).set index next) }
  | arriveClient {arrival : Arrival} {fd : ℕ} {next : Stream} (hopen : fd ∈ state.clients)
      (hnext : (state.stream fd).arrive arrival = some next) :
    Move state (.arrive arrival (.client fd))
      ({ state with stream := Function.update state.stream fd next }.wake fd)
  | writable {fd : ℕ} (hopen : fd ∈ state.clients) : Move state (.writable fd) (state.wake fd)
  | wait (hpoint : state.point = .wait) (hcurfds : 0 < state.curfds) :
    Move state .wait { state with
      point := .events (state.ready.take state.curfds.toNat)
      ready := state.ready.drop state.curfds.toNat }
  | invalid (hpoint : state.point = .wait) (hcurfds : state.curfds ≤ 0) :
    Move state .wait { state with point := .stopped }
  | interrupted (hpoint : state.point = .wait) :
    Move state .interrupted { state with point := .stopped }
  | refused {fd : ℕ} {rest : List ℕ} (hpoint : state.point = .events (fd :: rest))
      (hlisten : fd ∈ state.sockfds) : Move state (.accept none) { state with point := .stopped }
  | accept {fd clientfd : ℕ} {rest : List ℕ} {stream : Stream} {pending : List Stream}
      (hpoint : state.point = .events (fd :: rest)) (hlisten : fd ∈ state.sockfds)
      (hbacklog : state.backlog fd = stream :: pending) (hclosed : clientfd ∉ state.clients)
      (hclient : clientfd ∉ state.sockfds) :
    Move state (.accept (some clientfd)) (state.accept fd clientfd stream rest)
  | count {clientfd : ℕ} {rest : List ℕ} (hpoint : state.point = .count clientfd rest) :
    Move state .count (state.count clientfd rest)
  | register {clientfd : ℕ} {rest : List ℕ} (hpoint : state.point = .register clientfd rest) :
    Move state .register (state.register clientfd rest)
  | queueJob {fd : ℕ} {rest : List ℕ} (hpoint : state.point = .events (fd :: rest))
      (hclient : fd ∉ state.sockfds) (hrun : state.nRun = false) :
    Move state .dispatch { state with
      point := .events rest
      waitingJobs := fd :: state.waitingJobs }
  | process {fd : ℕ} {rest : List ℕ} (hpoint : state.point = .events (fd :: rest))
      (hclient : fd ∉ state.sockfds) (hrun : state.nRun = true) :
    Move state .dispatch { state.setTask Agent.main (Task.new fd) with point := .process rest }
  | next (hpoint : state.point = .events []) : Move state .next { state with point := .wait }
  | takeJob {index : Fin size} {fd : ℕ} {waitingJobs : List ℕ}
      (hidle : state.task (some index) = none) (hjobs : state.waitingJobs = fd :: waitingJobs) :
    Move state (.takeJob index)
      { state.setTask (some index) (Task.new fd) with waitingJobs := waitingJobs }
  | recvData {agent : Agent size} {task : Task} {count : ℕ} (htask : state.task agent = some task)
      (hpoint : task.point = .recv) (hopen : task.fd ∈ state.clients)
      (hpossible : (RecvAnswer.data count).Possible (state.stream task.fd) task.leftBytes) :
    Move state (.recv agent (.data count)) { state.setTask agent (task.recv (.data count)) with
      stream := Function.update state.stream task.fd
        { state.stream task.fd with unread := (state.stream task.fd).unread - count } }
  | recvDisconnect {agent : Agent size} {task : Task} (htask : state.task agent = some task)
      (hpoint : task.point = .recv) (hopen : task.fd ∈ state.clients)
      (hpossible : RecvAnswer.disconnect.Possible (state.stream task.fd) task.leftBytes) :
    Move state (.recv agent .disconnect) (state.setTask agent (task.recv .disconnect))
  | recvError {agent : Agent size} {task : Task} {errno : ℕ}
      (htask : state.task agent = some task) (hpoint : task.point = .recv) :
    Move state (.recv agent (.error errno)) (state.setTask agent (task.recv (.error errno)))
  | poll {agent : Agent size} {task : Task} {answer : PollAnswer}
      (htask : state.task agent = some task) (hpoint : task.point = .poll)
      (hpossible : task.fd ∈ state.clients ∧ answer.Possible (state.stream task.fd) ∨
        task.fd ∉ state.clients ∧ answer = .ready false) :
    Move state (.poll agent answer) (state.setTask agent (task.poll answer))
  | finish {agent : Agent size} {task : Task} (htask : state.task agent = some task)
      (hpoint : task.point = .returned)
      (hkept : task.leftBytes < maxBuffer ∨ task.retCode ≠ enotconn) :
    Move state (.finish agent) (state.endTask agent)
  | decrement {agent : Agent size} {task : Task} (htask : state.task agent = some task)
      (hpoint : task.point = .returned) (hnothing : maxBuffer ≤ task.leftBytes)
      (hcode : task.retCode = enotconn) :
    Move state (.finish agent)
      { state.setTask agent { task with point := .close } with curfds := state.curfds - 1 }
  | close {agent : Agent size} {task : Task} (htask : state.task agent = some task)
      (hpoint : task.point = .close) (hopen : task.fd ∈ state.clients) :
    Move state (.close agent) { state.endTask agent with
      clients := state.clients.erase task.fd
      watched := Function.update state.watched task.fd false
      ready := dequeue task.fd state.ready
      closes := state.closes ++ [some (state.connection task.fd)] }
  | closeStray {agent : Agent size} {task : Task} (htask : state.task agent = some task)
      (hpoint : task.point = .close) (hclosed : task.fd ∉ state.clients) :
    Move state (.close agent) { state.endTask agent with closes := state.closes ++ [none] }

variable {state next : State size}

theorem move_of_arrive {arrival : Arrival} {place : Place}
    (hstep : state.arrive arrival place = some next) : Move state (.arrive arrival place) next := by
  cases place with
  | pending listenFd index =>
    obtain ⟨stream, hstream, hrest⟩ := Option.bind_eq_some_iff.mp hstep
    obtain ⟨arrived, harrived, rfl⟩ := Option.map_eq_some_iff.mp hrest
    exact .arrivePending hstream harrived
  | client fd =>
    obtain ⟨hopen, hrest⟩ := Option.ite_none_right_eq_some.mp hstep
    obtain ⟨arrived, harrived, rfl⟩ := Option.map_eq_some_iff.mp hrest
    exact .arriveClient hopen harrived

theorem move_of_acceptStep {clientfd : Option ℕ} (hstep : acceptStep state clientfd = some next) :
    Move state (.accept clientfd) next := by
  unfold acceptStep at hstep
  split at hstep
  next fd rest hpoint =>
    rw [Option.ite_none_right_eq_some] at hstep
    obtain ⟨hlisten, hstep⟩ := hstep
    split at hstep
    next => exact Option.some.inj hstep ▸ .refused hpoint hlisten
    next clientfd stream pending hbacklog =>
      obtain ⟨⟨hclosed, hclient⟩, hnext⟩ := Option.ite_none_right_eq_some.mp hstep
      exact Option.some.inj hnext ▸ .accept hpoint hlisten hbacklog hclosed hclient
    next => cases hstep
  next => cases hstep

theorem move_of_dispatch {fd : ℕ} {rest : List ℕ} (hpoint : state.point = .events (fd :: rest))
    (hclient : fd ∉ state.sockfds) : Move state .dispatch (state.dispatch fd rest) := by
  unfold State.dispatch
  split_ifs with hrun
  · exact .process hpoint hclient hrun
  · exact .queueJob hpoint hclient (Bool.eq_false_of_not_eq_true hrun)

theorem move_of_mainStep {event : Event size} (hstep : mainStep state event = some next) :
    Move state event next := by
  cases event with
  | count =>
    simp only [mainStep] at hstep
    split at hstep
    next clientfd rest hpoint => exact Option.some.inj hstep ▸ .count hpoint
    next => cases hstep
  | register =>
    simp only [mainStep] at hstep
    split at hstep
    next clientfd rest hpoint => exact Option.some.inj hstep ▸ .register hpoint
    next => cases hstep
  | dispatch =>
    simp only [mainStep] at hstep
    split at hstep
    next fd rest hpoint =>
      obtain ⟨hclient, hnext⟩ := Option.ite_none_left_eq_some.mp hstep
      exact Option.some.inj hnext ▸ move_of_dispatch hpoint hclient
    next => cases hstep
  | next =>
    simp only [mainStep] at hstep
    split at hstep
    next hpoint => exact Option.some.inj hstep ▸ .next hpoint
    next => cases hstep
  | connect | arrive | writable | wait | interrupted | accept | takeJob | recv | poll | finish
  | close => cases hstep

theorem move_of_takeJobStep {index : Fin size} (hstep : takeJobStep state index = some next) :
    Move state (.takeJob index) next := by
  unfold takeJobStep at hstep
  split at hstep
  next fd waitingJobs hidle hjobs => exact Option.some.inj hstep ▸ .takeJob hidle hjobs
  next => cases hstep

theorem move_of_recvStep {agent : Agent size} {answer : RecvAnswer}
    (hstep : recvStep state agent answer = some next) : Move state (.recv agent answer) next := by
  obtain ⟨task, htask, hrest⟩ := Option.bind_eq_some_iff.mp hstep
  obtain ⟨hpoint, hrest⟩ := Option.ite_none_right_eq_some.mp hrest
  split_ifs at hrest with hopen hpossible
  · cases answer with
    | data count => exact Option.some.inj hrest ▸ .recvData htask hpoint hopen hpossible
    | disconnect => exact Option.some.inj hrest ▸ .recvDisconnect htask hpoint hopen hpossible
    | error errno => exact Option.some.inj hrest ▸ .recvError htask hpoint
  · cases answer with
    | data count => cases hrest
    | disconnect => cases hrest
    | error errno =>
      obtain ⟨-, hnext⟩ := Option.ite_none_left_eq_some.mp hrest
      exact Option.some.inj hnext ▸ .recvError htask hpoint

theorem move_of_pollStep {agent : Agent size} {answer : PollAnswer}
    (hstep : pollStep state agent answer = some next) : Move state (.poll agent answer) next := by
  obtain ⟨task, htask, hrest⟩ := Option.bind_eq_some_iff.mp hstep
  obtain ⟨hpoint, hrest⟩ := Option.ite_none_right_eq_some.mp hrest
  split_ifs at hrest with hopen hpossible hready
  · exact Option.some.inj hrest ▸ .poll htask hpoint (.inl ⟨hopen, hpossible⟩)
  · exact Option.some.inj hrest ▸ .poll htask hpoint (.inr ⟨hopen, hready⟩)

theorem move_of_finish {agent : Agent size} {task : Task} (htask : state.task agent = some task)
    (hpoint : task.point = .returned) : Move state (.finish agent) (state.finish agent task) := by
  unfold State.finish
  split_ifs with hread hcode
  · exact .finish htask hpoint (.inl hread)
  · exact .decrement htask hpoint (Nat.le_of_not_lt hread) hcode
  · exact .finish htask hpoint (.inr hcode)

theorem move_of_close {agent : Agent size} {task : Task} (htask : state.task agent = some task)
    (hpoint : task.point = .close) : Move state (.close agent) (state.close agent task.fd) := by
  unfold State.close
  split_ifs with hopen
  · exact .close htask hpoint hopen
  · exact .closeStray htask hpoint hopen

/-- Every step is one of the listed transitions. -/
theorem move_of_step {event : Event size} (hstep : step state event = some next) :
    Move state event next := by
  cases event with
  | connect listenFd =>
    obtain ⟨hlisten, hnext⟩ := Option.ite_none_right_eq_some.mp hstep
    exact Option.some.inj hnext ▸ .connect hlisten
  | arrive arrival place => exact move_of_arrive hstep
  | writable fd =>
    obtain ⟨hopen, hnext⟩ := Option.ite_none_right_eq_some.mp hstep
    exact Option.some.inj hnext ▸ .writable hopen
  | wait =>
    obtain ⟨hpoint, hnext⟩ := Option.ite_none_right_eq_some.mp hstep
    rw [← Option.some.inj hnext, State.wait]
    split_ifs with hcurfds
    · exact .wait hpoint hcurfds
    · exact .invalid hpoint (not_lt.mp hcurfds)
  | interrupted =>
    obtain ⟨hpoint, hnext⟩ := Option.ite_none_right_eq_some.mp hstep
    exact Option.some.inj hnext ▸ .interrupted hpoint
  | accept clientfd => exact move_of_acceptStep hstep
  | count | register | dispatch | next => exact move_of_mainStep hstep
  | takeJob index => exact move_of_takeJobStep hstep
  | recv agent answer => exact move_of_recvStep hstep
  | poll agent answer => exact move_of_pollStep hstep
  | finish agent =>
    obtain ⟨task, htask, hrest⟩ := Option.bind_eq_some_iff.mp hstep
    obtain ⟨hpoint, hnext⟩ := Option.ite_none_right_eq_some.mp hrest
    exact Option.some.inj hnext ▸ move_of_finish htask hpoint
  | close agent =>
    obtain ⟨task, htask, hrest⟩ := Option.bind_eq_some_iff.mp hstep
    obtain ⟨hpoint, hnext⟩ := Option.ite_none_right_eq_some.mp hrest
    exact Option.some.inj hnext ▸ move_of_close htask hpoint

/-! ### The main thread as a reader -/

/-- The main thread is inside `client_data_process` when it reads from a client. -/
def Serving (state : State size) : Prop :=
  ∀ task ∈ state.task Agent.main, ∃ rest, state.point = .process rest

theorem serving_start (sockfds : List ℕ) : Serving (State.start size sockfds) :=
  fun _ htask ↦ absurd htask (by simp [State.start])

theorem Serving.congr {state next : State size} (hstate : Serving state)
    (htask : next.task Agent.main = state.task Agent.main)
    (hpoint : ∀ rest, state.point = .process rest → next.point = .process rest) :
    Serving next := by
  intro task hmem
  obtain ⟨rest, hrest⟩ := hstate task (htask ▸ hmem)
  exact ⟨rest, hpoint rest hrest⟩

/-- A thread that reads from a client moves on. -/
theorem Serving.setTask {state next : State size} (hstate : Serving state) {agent : Agent size}
    {task : Task} {new : Option Task} (htask : state.task agent = some task)
    (hnext : next.task = Function.update state.task agent new)
    (hpoint : next.point = state.point) : Serving next := by
  intro task' hmem
  by_cases hagent : Agent.main = agent
  · subst hagent
    obtain ⟨rest, hrest⟩ := hstate task htask
    exact ⟨rest, hpoint.trans hrest⟩
  · rw [hnext, Function.update_of_ne hagent] at hmem
    obtain ⟨rest, hrest⟩ := hstate task' hmem
    exact ⟨rest, hpoint.trans hrest⟩

theorem serving_endTask {state next : State size} (hstate : Serving state) (agent : Agent size)
    (htask : next.task = (state.endTask agent).task)
    (hpoint : next.point = (state.endTask agent).point) : Serving next := by
  intro task hmem
  rw [htask] at hmem
  rw [hpoint]
  cases agent with
  | none => simp [State.endTask, Agent.main] at hmem
  | some index =>
    simp only [State.endTask, Agent.main, ne_eq, reduceCtorEq, not_false_eq_true,
      Function.update_of_ne] at hmem
    exact hstate task hmem

theorem serving_move {state next : State size} {event : Event size} (hstate : Serving state)
    (hmove : Move state event next) : Serving next := by
  cases hmove with
  | connect | arrivePending | arriveClient | writable => exact hstate.congr rfl fun _ h ↦ h
  | wait hpoint | invalid hpoint | interrupted hpoint | refused hpoint | accept hpoint
  | count hpoint | register hpoint | queueJob hpoint | next hpoint =>
    exact hstate.congr rfl fun rest h ↦ absurd (hpoint.symm.trans h) (by simp)
  | process => exact fun _ _ ↦ ⟨_, rfl⟩
  | @takeJob index fd =>
    refine hstate.congr ?_ fun _ h ↦ h
    exact Function.update_of_ne (Option.some_ne_none index).symm (some (Task.new fd)) state.task
  | recvData htask | recvDisconnect htask | recvError htask | poll htask | decrement htask =>
    exact hstate.setTask htask rfl rfl
  | @finish agent | @close agent | @closeStray agent =>
    exact serving_endTask hstate agent rfl rfl

end TestLinux.MulportServer
