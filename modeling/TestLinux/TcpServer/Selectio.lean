import TestLinux.Library.Runs
import TestLinux.TcpServer.Sockets

/-!
# `selectio` of `test8/tcpserver.cpp`

The loop of `selectio` is cut at its system calls like that of `pollio`: it is about to call
`select`, about to call `accept`, or in the scan of the descriptors above the listening socket.
`rfds` are the descriptors to watch and `rfdsT` the ones that `select` has reported; both are sets.
A descriptor from `FD_SETSIZE` on, and the -1 of a failed `accept`, which the source does not look
at, would be written outside of the set: such events have no result.
-/

set_option autoImplicit false
set_option relaxedAutoImplicit false

namespace TestLinux.TcpServer.Selectio

/-- Where the loop is. -/
inductive Point
  | select
  | accept
  | scan (index : ℕ)
  deriving DecidableEq

/-- The locals of `selectio`, the sockets and the buffer. -/
structure State where
  point : Point
  sockfd : ℕ
  rfds : ℕ → Bool
  rfdsT : ℕ → Bool
  maxfd : ℕ
  kernel : Kernel
  inbox : Inbox

/-- In front of the loop. -/
def State.start (sockfd : ℕ) : State where
  point := .select
  sockfd := sockfd
  rfds := fun fd ↦ fd == sockfd
  rfdsT := fun _ ↦ false
  maxfd := sockfd
  kernel := .start
  inbox := .start

/-- The declaration of the buffer and the beginning of the scan. -/
def State.beginScan (state : State) : State :=
  { state with point := .scan (state.sockfd + 1), inbox := state.inbox.newRound }

/-- `select` returns with the readable descriptors up to `maxfd`. -/
def State.afterSelect (state : State) (ready : ℕ → Bool) : State :=
  let state := { state with
    rfdsT := fun fd ↦ state.rfds fd && ready fd && decide (fd ≤ state.maxfd) }
  if state.rfdsT state.sockfd then { state with point := .accept } else state.beginScan

/-- `accept` returns a descriptor, which is watched from the next round on. -/
def State.afterAccept (state : State) (clientfd : ℕ) : State :=
  { state with
    rfds := Function.update state.rfds clientfd true
    maxfd := max state.maxfd clientfd
    kernel := state.kernel.accept clientfd }.beginScan

/-- The branches `count == 0` and `count < 0`. -/
def State.remove (state : State) (index : ℕ) : State :=
  { state with
    point := .scan (index + 1)
    rfds := Function.update state.rfds index false
    kernel := (state.kernel.finish index).close index }

/-- A message of a client. -/
def State.afterData (state : State) (index : ℕ) (bytes : List UInt8) : State :=
  { state with point := .scan (index + 1), inbox := state.inbox.print index bytes }

/-- The iteration of the scan that calls `recv`. -/
def State.afterRecv (state : State) (index : ℕ) : RecvAnswer → State
  | .data bytes => state.afterData index bytes
  | .disconnect => state.remove index
  | .error => state.remove index

/-- The system calls with their answers, and the iterations of the scan without one. -/
inductive Event
  | select (ready : Option (ℕ → Bool))
  | accept (clientfd : ℕ)
  | recv (answer : RecvAnswer)
  | next

/-- The scan is about to call `recv` on a descriptor. -/
def State.Receives (state : State) (index : ℕ) : Prop :=
  state.point = .scan index ∧ index ≤ state.maxfd ∧ state.rfdsT index = true

/-- One system call, or one iteration of the scan. -/
def step (state : State) (event : Event) : Option State :=
  match state.point, event with
  | .select, .select none => some state
  | .select, .select (some ready) => some (state.afterSelect ready)
  | .accept, .accept clientfd =>
    if state.kernel.socket clientfd = none ∧ clientfd ≠ state.sockfd ∧ clientfd < 1024 then
      some (state.afterAccept clientfd)
    else none
  | .scan index, .recv answer =>
    if index ≤ state.maxfd ∧ state.rfdsT index = true ∧ answer.Possible state.kernel index then
      some (state.afterRecv index answer)
    else none
  | .scan index, .next =>
    if index ≤ state.maxfd then
      if state.rfdsT index then none else some { state with point := .scan (index + 1) }
    else some { state with point := .select }
  | _, _ => none

end TestLinux.TcpServer.Selectio
