import TestLinux.Library.ReadyQueue
import TestLinux.Library.Runs
import Mathlib.Logic.Function.Basic

/-!
# `epoll_server` of `test7/tcpserver.cpp`

The server watches its listening sockets level-triggered and its clients edge-triggered. `Stream` is
one connection: what has arrived from the peer, what of it has not been read yet, whether the peer
has closed or reset the connection, and what the server has printed of it. A connection waits in the
backlog of a listening socket until `accept` gives it a descriptor; its data may arrive before.

The ready list of `epoll` is a queue without duplicates. A watched socket is queued when it is added
while readable and whenever data, a FIN or a reset arrives, also while it is being read.
`epoll_wait` scans the queue from its front and takes at most 1024 readable sockets; a listening
socket that has been taken is queued again at the end, a client is not. Closing a socket removes it
from `epoll`, so that the `EPOLL_CTL_DEL` behind each `close` fails and does nothing.

The server is cut at its system calls, and connections and data arrive between any two of them.
`accept` hands out every descriptor that is not open and can fail at any time. The listening sockets
are blocking: `accept` without a connection in the backlog and without a failure has no result.
`recv` on a client returns any number of the unread bytes that fits into the buffer, zero behind the
last byte of a closed connection, `EAGAIN` when nothing is there, and can fail at any time.
`finished` records the connections closed because `recv` has returned zero.
-/

set_option autoImplicit false
set_option relaxedAutoImplicit false

namespace TestLinux.EpollServer

open TestLinux.ReadyQueue

/-! ### Connections and sockets -/

/-- A connection, from the peer to the output of the server. -/
structure Stream where
  arrived : List UInt8
  unread : List UInt8
  fin : Bool
  reset : Bool
  printed : List UInt8
  deriving DecidableEq

/-- A connection that has just been made. -/
def Stream.new : Stream := ⟨[], [], false, false, []⟩

/-- What the peer does. -/
inductive Arrival
  | data (bytes : List UInt8)
  | fin
  | reset

/-- Something arrives. Behind a FIN the peer sends no more data. -/
def Stream.arrive (stream : Stream) : Arrival → Option Stream
  | .data bytes =>
    if stream.fin then none
    else some { stream with arrived := stream.arrived ++ bytes, unread := stream.unread ++ bytes }
  | .fin => some { stream with fin := true }
  | .reset => some { stream with reset := true }

/-- `recv` would not return `EAGAIN`. -/
def Stream.readable (stream : Stream) : Bool := !stream.unread.isEmpty || stream.fin || stream.reset

/-- `recv` of `count` bytes, and their output. -/
def Stream.print (stream : Stream) (count : ℕ) : Stream :=
  { stream with
    unread := stream.unread.drop count
    printed := stream.printed ++ stream.unread.take count }

/-- Where the server is: in the loop that adds the listening sockets, in front of `epoll_wait`, in
the loop over the events with the remaining ones, or in front of the `EPOLL_CTL_ADD` of a client. -/
inductive Point
  | setup (rest : List ℕ)
  | wait
  | events (rest : List ℕ)
  | register (clientfd : ℕ) (rest : List ℕ)
  deriving DecidableEq

/-- The server and its sockets. -/
structure State where
  point : Point
  listenFds : List ℕ
  backlog : ℕ → List Stream
  socket : ℕ → Option Stream
  watched : ℕ → Bool
  ready : List ℕ
  finished : List Stream

/-- In front of the first loop. -/
def State.start (listenFds : List ℕ) : State where
  point := .setup listenFds
  listenFds := listenFds
  backlog := fun _ ↦ []
  socket := fun _ ↦ none
  watched := fun _ ↦ false
  ready := []
  finished := []

/-! ### `epoll` -/

/-- A listening socket with a connection to accept, or a client that `recv` has something for. -/
def State.readable (state : State) (fd : ℕ) : Bool :=
  if fd ∈ state.listenFds then !(state.backlog fd).isEmpty
  else (state.socket fd).any Stream.readable

/-- Something has happened on a socket. -/
def State.wake (state : State) (fd : ℕ) : State :=
  { state with ready := if state.watched fd then enqueue fd state.ready else state.ready }

/-- `EPOLL_CTL_ADD`. A socket that is watched already is left alone. -/
def State.add (state : State) (fd : ℕ) : State :=
  { state with
    watched := Function.update state.watched fd true
    ready := if !state.watched fd && state.readable fd then enqueue fd state.ready
      else state.ready }

/-- `epoll_wait` with an array of 1024 events. -/
def State.wait (state : State) : State :=
  let scan := collect state.readable 1024 state.ready
  { state with
    point := .events scan.1
    ready := scan.2 ++ scan.1.filter (· ∈ state.listenFds) }

/-- `close` of a client. -/
def State.close (state : State) (fd : ℕ) : State :=
  { state with
    socket := Function.update state.socket fd none
    watched := Function.update state.watched fd false
    ready := dequeue fd state.ready }

/-! ### The peers -/

/-- A connection in a backlog, or the client on a descriptor. -/
inductive Place
  | pending (listenFd index : ℕ)
  | client (fd : ℕ)

/-- A connection is made to a listening socket. -/
def State.connect (state : State) (listenFd : ℕ) : State :=
  { state with
    backlog := Function.update state.backlog listenFd
      (state.backlog listenFd ++ [Stream.new]) }.wake listenFd

/-- Something arrives on a connection. -/
def State.arrive (state : State) (arrival : Arrival) : Place → Option State
  | .pending listenFd index => do
    let stream ← (state.backlog listenFd)[index]?
    let stream ← stream.arrive arrival
    some { state with
      backlog := Function.update state.backlog listenFd
        ((state.backlog listenFd).set index stream) }
  | .client fd => do
    let stream ← state.socket fd
    let stream ← stream.arrive arrival
    some ({ state with socket := Function.update state.socket fd (some stream) }.wake fd)

/-! ### The server -/

/-- The answer of `recv`. -/
inductive RecvAnswer
  | data (count : ℕ)
  | disconnect
  | again
  | error

/-- What `recv` can answer for a connection. -/
def RecvAnswer.Possible (stream : Stream) : RecvAnswer → Prop
  | .data count => 1 ≤ count ∧ count ≤ 1024 ∧ count ≤ stream.unread.length
  | .disconnect => stream.unread = [] ∧ stream.fin = true
  | .again => stream.readable = false
  | .error => True

instance decidablePossible (stream : Stream) : ∀ answer : RecvAnswer,
    Decidable (answer.Possible stream)
  | .data count => inferInstanceAs (Decidable (1 ≤ count ∧ count ≤ 1024 ∧
      count ≤ stream.unread.length))
  | .disconnect => inferInstanceAs (Decidable (stream.unread = [] ∧ stream.fin = true))
  | .again => inferInstanceAs (Decidable (stream.readable = false))
  | .error => isTrue trivial

/-- `accept` returns a descriptor for the first connection of the backlog. -/
def State.accept (state : State) (listenFd clientfd : ℕ) (stream : Stream) (rest : List ℕ) :
    State :=
  { state with
    point := .register clientfd rest
    backlog := Function.update state.backlog listenFd (state.backlog listenFd).tail
    socket := Function.update state.socket clientfd (some stream) }

/-- One call of `recv` on a client, and what follows it in the loop. -/
def State.recv (state : State) (fd : ℕ) (rest : List ℕ) (stream : Stream) : RecvAnswer → State
  | .data count =>
    { state with socket := Function.update state.socket fd (some (stream.print count)) }
  | .again => { state with point := .events rest }
  | .disconnect =>
    { state.close fd with point := .events rest, finished := state.finished ++ [stream] }
  | .error => { state.close fd with point := .events rest }

/-- What the peers do, and the system calls of the server with their answers. `next` is the end of
the loops over the listening sockets and over the events. -/
inductive Event
  | connect (listenFd : ℕ)
  | arrive (arrival : Arrival) (place : Place)
  | add
  | wait
  | interrupted
  | accept (clientfd : Option ℕ)
  | recv (answer : RecvAnswer)
  | next

/-- `EPOLL_CTL_ADD` of a listening socket or of a new client. -/
def addStep (state : State) : Option State :=
  match state.point with
  | .setup (fd :: rest) => some { state.add fd with point := .setup rest }
  | .register clientfd rest => some { state.add clientfd with point := .events rest }
  | _ => none

/-- `accept` for the event of a listening socket. -/
def acceptStep (state : State) (clientfd : Option ℕ) : Option State :=
  match state.point with
  | .events (fd :: rest) =>
    if fd ∈ state.listenFds then
      match clientfd, state.backlog fd with
      | none, _ => some { state with point := .events rest }
      | some clientfd, stream :: _ =>
        if state.socket clientfd = none ∧ clientfd ∉ state.listenFds then
          some (state.accept fd clientfd stream rest)
        else none
      | some _, [] => none
    else none
  | _ => none

/-- `recv` for the event of a client. On a descriptor that is not open it can only fail. -/
def recvStep (state : State) (answer : RecvAnswer) : Option State :=
  match state.point with
  | .events (fd :: rest) =>
    if fd ∈ state.listenFds then none
    else
      match state.socket fd, answer with
      | some stream, answer =>
        if answer.Possible stream then some (state.recv fd rest stream answer) else none
      | none, .error => some { state.close fd with point := .events rest }
      | none, _ => none
  | _ => none

/-- The end of a loop. -/
def nextStep (state : State) : Option State :=
  match state.point with
  | .setup [] => some { state with point := .wait }
  | .events [] => some { state with point := .wait }
  | _ => none

/-- One step of the peers or of the server. -/
def step (state : State) : Event → Option State
  | .connect listenFd => if listenFd ∈ state.listenFds then some (state.connect listenFd) else none
  | .arrive arrival place => state.arrive arrival place
  | .add => addStep state
  | .wait => if state.point = .wait then some state.wait else none
  | .interrupted => if state.point = .wait then some state else none
  | .accept clientfd => acceptStep state clientfd
  | .recv answer => recvStep state answer
  | .next => nextStep state

/-! ### What a step can do -/

/-- The transitions. -/
inductive Move (state : State) : Event → State → Prop
  | connect {listenFd : ℕ} (hlisten : listenFd ∈ state.listenFds) :
    Move state (.connect listenFd) (state.connect listenFd)
  | arrivePending {arrival : Arrival} {listenFd index : ℕ} {stream next : Stream}
      (hstream : (state.backlog listenFd)[index]? = some stream)
      (hnext : stream.arrive arrival = some next) :
    Move state (.arrive arrival (.pending listenFd index)) { state with
      backlog := Function.update state.backlog listenFd
        ((state.backlog listenFd).set index next) }
  | arriveClient {arrival : Arrival} {fd : ℕ} {stream next : Stream}
      (hstream : state.socket fd = some stream) (hnext : stream.arrive arrival = some next) :
    Move state (.arrive arrival (.client fd))
      ({ state with socket := Function.update state.socket fd (some next) }.wake fd)
  | addListen {fd : ℕ} {rest : List ℕ} (hpoint : state.point = .setup (fd :: rest)) :
    Move state .add { state.add fd with point := .setup rest }
  | addClient {clientfd : ℕ} {rest : List ℕ} (hpoint : state.point = .register clientfd rest) :
    Move state .add { state.add clientfd with point := .events rest }
  | wait (hpoint : state.point = .wait) : Move state .wait state.wait
  | interrupted (hpoint : state.point = .wait) : Move state .interrupted state
  | refused {fd : ℕ} {rest : List ℕ} (hpoint : state.point = .events (fd :: rest))
      (hlisten : fd ∈ state.listenFds) :
    Move state (.accept none) { state with point := .events rest }
  | accept {fd clientfd : ℕ} {rest : List ℕ} {stream : Stream} {pending : List Stream}
      (hpoint : state.point = .events (fd :: rest)) (hlisten : fd ∈ state.listenFds)
      (hbacklog : state.backlog fd = stream :: pending) (hclosed : state.socket clientfd = none)
      (hclient : clientfd ∉ state.listenFds) :
    Move state (.accept (some clientfd)) (state.accept fd clientfd stream rest)
  | recv {fd : ℕ} {rest : List ℕ} {stream : Stream} {answer : RecvAnswer}
      (hpoint : state.point = .events (fd :: rest)) (hclient : fd ∉ state.listenFds)
      (hstream : state.socket fd = some stream) (hpossible : answer.Possible stream) :
    Move state (.recv answer) (state.recv fd rest stream answer)
  | stale {fd : ℕ} {rest : List ℕ} (hpoint : state.point = .events (fd :: rest))
      (hclient : fd ∉ state.listenFds) (hclosed : state.socket fd = none) :
    Move state (.recv .error) { state.close fd with point := .events rest }
  | next (hpoint : state.point = .setup [] ∨ state.point = .events []) :
    Move state .next { state with point := .wait }

theorem move_of_step {state next : State} {event : Event} (hstep : step state event = some next) :
    Move state event next := by
  cases event with
  | connect listenFd =>
    obtain ⟨hlisten, hnext⟩ := Option.ite_none_right_eq_some.mp hstep
    exact Option.some.inj hnext ▸ .connect hlisten
  | arrive arrival place =>
    cases place with
    | pending listenFd index =>
      obtain ⟨stream, hstream, hrest⟩ := Option.bind_eq_some_iff.mp hstep
      obtain ⟨arrived, harrived, hnext⟩ := Option.bind_eq_some_iff.mp hrest
      exact Option.some.inj hnext ▸ .arrivePending hstream harrived
    | client fd =>
      obtain ⟨stream, hstream, hrest⟩ := Option.bind_eq_some_iff.mp hstep
      obtain ⟨arrived, harrived, hnext⟩ := Option.bind_eq_some_iff.mp hrest
      exact Option.some.inj hnext ▸ .arriveClient hstream harrived
  | add =>
    change addStep state = some next at hstep
    unfold addStep at hstep
    split at hstep
    · rename_i fd rest hpoint
      exact Option.some.inj hstep ▸ .addListen hpoint
    · rename_i clientfd rest hpoint
      exact Option.some.inj hstep ▸ .addClient hpoint
    · cases hstep
  | wait =>
    obtain ⟨hpoint, hnext⟩ := Option.ite_none_right_eq_some.mp hstep
    exact Option.some.inj hnext ▸ .wait hpoint
  | interrupted =>
    obtain ⟨hpoint, hnext⟩ := Option.ite_none_right_eq_some.mp hstep
    exact Option.some.inj hnext ▸ .interrupted hpoint
  | accept clientfd =>
    change acceptStep state clientfd = some next at hstep
    unfold acceptStep at hstep
    split at hstep
    · rename_i fd rest hpoint
      rw [Option.ite_none_right_eq_some] at hstep
      obtain ⟨hlisten, hstep⟩ := hstep
      split at hstep
      · exact Option.some.inj hstep ▸ .refused hpoint hlisten
      · rename_i clientfd stream pending hbacklog
        obtain ⟨⟨hclosed, hclient⟩, hnext⟩ := Option.ite_none_right_eq_some.mp hstep
        exact Option.some.inj hnext ▸ .accept hpoint hlisten hbacklog hclosed hclient
      · cases hstep
    · cases hstep
  | recv answer =>
    change recvStep state answer = some next at hstep
    unfold recvStep at hstep
    split at hstep
    · rename_i fd rest hpoint
      rw [Option.ite_none_left_eq_some] at hstep
      obtain ⟨hclient, hstep⟩ := hstep
      split at hstep
      · rename_i stream hstream
        obtain ⟨hpossible, hnext⟩ := Option.ite_none_right_eq_some.mp hstep
        exact Option.some.inj hnext ▸ .recv hpoint hclient hstream hpossible
      · rename_i hclosed
        exact Option.some.inj hstep ▸ .stale hpoint hclient hclosed
      · cases hstep
    · cases hstep
  | next =>
    change nextStep state = some next at hstep
    unfold nextStep at hstep
    split at hstep
    · rename_i hpoint
      exact Option.some.inj hstep ▸ .next (Or.inl hpoint)
    · rename_i hpoint
      exact Option.some.inj hstep ▸ .next (Or.inr hpoint)
    · cases hstep

end TestLinux.EpollServer
