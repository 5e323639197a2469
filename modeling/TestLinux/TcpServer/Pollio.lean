import TestLinux.Library.Runs
import TestLinux.TcpServer.Sockets

/-!
# `pollio` of `test8/tcpserver.cpp`

The loop of `pollio` is cut at its system calls: it is about to call `poll`, about to call `accept`
because `poll` has reported the listening socket, or in the scan of the clients at some index. The
array `pfds` has 1024 entries, of which the first `nfds` are in use; only `POLLIN` of `events` and
`revents` is ever read. What `poll`, `accept` and `recv` answer is part of the event that calls
them. `accept` hands out every descriptor that is not open, also one that was open before.

A client is removed as in the source: the last entry in use overwrites its entry, `nfds` is
decreased, and the descriptor that then stands in the entry is closed. A new client is placed in the
first entry that is not in use, whose `revents` is left as it is.

`step` has no result when an event does not fit the point of the loop, when the operating system
cannot give the answer, and when `pfds[1024]` would be written. The field `reported` records which
connections the last `poll` has reported, by descriptor; no step reads it.
-/

set_option autoImplicit false
set_option relaxedAutoImplicit false

namespace TestLinux.TcpServer.Pollio

/-- `pollfd`, with `POLLIN` of `events` and `revents`. -/
structure PollFd where
  fd : ℕ
  events : Bool
  revents : Bool
  deriving DecidableEq

/-- An entry of the zero-initialised array. -/
def PollFd.zero : PollFd := ⟨0, false, false⟩

/-- Where the loop is. -/
inductive Point
  | poll
  | accept
  | scan (index : ℕ)
  deriving DecidableEq

/-- The locals of `pollio`, the sockets and the buffer. -/
structure State where
  point : Point
  sockfd : ℕ
  pfds : List PollFd
  nfds : ℕ
  kernel : Kernel
  inbox : Inbox
  reported : ℕ → Option ℕ

/-- In front of the loop. -/
def State.start (sockfd : ℕ) : State where
  point := .poll
  sockfd := sockfd
  pfds := ⟨sockfd, true, false⟩ :: List.replicate 1023 .zero
  nfds := 1
  kernel := .start
  inbox := .start
  reported := fun _ ↦ none

/-- `pfds[index]`. -/
def State.entry (state : State) (index : ℕ) : PollFd := state.pfds.getD index .zero

/-- The descriptors of the clients, `pfds[1]` to `pfds[nfds - 1]`. -/
def State.registered (state : State) : List ℕ :=
  ((state.pfds.take state.nfds).drop 1).map PollFd.fd

/-- `poll` reports `POLLIN` for a descriptor: the socket on it is readable. -/
def State.readable (state : State) (ready : ℕ → Bool) (fd : ℕ) : Bool :=
  ready fd && (fd == state.sockfd || (state.kernel.socket fd).isSome)

/-- An entry after `poll`. -/
def State.polled (state : State) (ready : ℕ → Bool) (entry : PollFd) : PollFd :=
  { entry with revents := entry.events && state.readable ready entry.fd }

/-- `poll` sets `POLLIN` in an entry for the descriptor. -/
def State.reports (state : State) (ready : ℕ → Bool) (fd : ℕ) : Bool :=
  (state.pfds.take state.nfds).any fun entry ↦
    entry.fd == fd && (state.polled ready entry).revents

/-- The declaration of the buffer and the beginning of the scan. -/
def State.beginScan (state : State) : State :=
  { state with point := .scan 1, inbox := state.inbox.newRound }

/-- `poll` returns with the readable sockets in `revents`. -/
def State.afterPoll (state : State) (ready : ℕ → Bool) : State :=
  let state := { state with
    pfds := (state.pfds.take state.nfds).map (state.polled ready) ++ state.pfds.drop state.nfds
    reported := fun fd ↦ if state.reports ready fd then state.kernel.socket fd else none }
  if (state.entry 0).revents then { state with point := .accept } else state.beginScan

/-- `accept` returns a descriptor: the client is placed in the next entry. -/
def State.afterAccept (state : State) (clientfd : ℕ) : State :=
  { state with
    pfds := state.pfds.set state.nfds
      { state.entry state.nfds with fd := clientfd, events := true }
    nfds := state.nfds + 1
    kernel := state.kernel.accept clientfd }.beginScan

/-- The branches `count == 0` and `count < 0`. -/
def State.remove (state : State) (index : ℕ) : State :=
  { state with
    point := .scan (index + 1)
    pfds := state.pfds.set index (state.entry (state.nfds - 1))
    nfds := state.nfds - 1
    kernel := (state.kernel.finish (state.entry index).fd).close
      (state.entry (state.nfds - 1)).fd }

/-- A message of a client. -/
def State.afterData (state : State) (index : ℕ) (bytes : List UInt8) : State :=
  { state with
    point := .scan (index + 1)
    inbox := state.inbox.print (state.entry index).fd bytes }

/-- The iteration of the scan that calls `recv`. -/
def State.afterRecv (state : State) (index : ℕ) : RecvAnswer → State
  | .data bytes => state.afterData index bytes
  | .disconnect => state.remove index
  | .error => state.remove index

/-- The system calls with their answers, and the iterations of the scan without one. -/
inductive Event
  | poll (ready : Option (ℕ → Bool))
  | accept (clientfd : Option ℕ)
  | recv (answer : RecvAnswer)
  | next

/-- The scan is about to call `recv` at an index. -/
def State.Receives (state : State) (index : ℕ) : Prop :=
  state.point = .scan index ∧ index < state.nfds ∧ (state.entry index).revents = true

/-- One system call, or one iteration of the scan. -/
def step (state : State) (event : Event) : Option State :=
  match state.point, event with
  | .poll, .poll none => some state
  | .poll, .poll (some ready) => some (state.afterPoll ready)
  | .accept, .accept none => some { state with point := .poll }
  | .accept, .accept (some clientfd) =>
    if state.kernel.socket clientfd = none ∧ clientfd ≠ state.sockfd ∧ state.nfds < 1024 then
      some (state.afterAccept clientfd)
    else none
  | .scan index, .recv answer =>
    if index < state.nfds ∧ (state.entry index).revents = true ∧
        answer.Possible state.kernel (state.entry index).fd then
      some (state.afterRecv index answer)
    else none
  | .scan index, .next =>
    if index < state.nfds then
      if (state.entry index).revents then none else some { state with point := .scan (index + 1) }
    else some { state with point := .poll }
  | _, _ => none

/-! ### The state after `poll` -/

section AfterPoll

variable (state : State) (ready : ℕ → Bool)

theorem pfds_afterPoll : (state.afterPoll ready).pfds =
    (state.pfds.take state.nfds).map (state.polled ready) ++ state.pfds.drop state.nfds := by
  unfold State.afterPoll
  dsimp only
  split_ifs <;> rfl

theorem nfds_afterPoll : (state.afterPoll ready).nfds = state.nfds := by
  unfold State.afterPoll
  dsimp only
  split_ifs <;> rfl

theorem kernel_afterPoll : (state.afterPoll ready).kernel = state.kernel := by
  unfold State.afterPoll
  dsimp only
  split_ifs <;> rfl

theorem sockfd_afterPoll : (state.afterPoll ready).sockfd = state.sockfd := by
  unfold State.afterPoll
  dsimp only
  split_ifs <;> rfl

theorem reported_afterPoll : (state.afterPoll ready).reported =
    fun fd ↦ if state.reports ready fd then state.kernel.socket fd else none := by
  unfold State.afterPoll
  dsimp only
  split_ifs <;> rfl

/-- After `poll` the loop calls `accept` or begins the scan. -/
theorem point_afterPoll : (state.afterPoll ready).point = .accept ∧
      (state.afterPoll ready).inbox = state.inbox ∨
    (state.afterPoll ready).point = .scan 1 ∧
      (state.afterPoll ready).inbox = state.inbox.newRound := by
  unfold State.afterPoll
  dsimp only
  split_ifs
  · exact Or.inl ⟨rfl, rfl⟩
  · exact Or.inr ⟨rfl, rfl⟩

theorem scan_pos_afterPoll {index : ℕ} (hpoint : (state.afterPoll ready).point = .scan index) :
    1 ≤ index := by
  rcases point_afterPoll state ready with ⟨haccept, -⟩ | ⟨hscan, -⟩
  · exact absurd (hpoint.symm.trans haccept) (by simp)
  · exact Nat.le_of_eq (Point.scan.inj (hscan.symm.trans hpoint))

end AfterPoll

/-! ### What a step can do -/

/-- The transitions of the loop. -/
inductive Move (state : State) : Event → State → Prop
  | interrupted (hpoint : state.point = .poll) : Move state (.poll none) state
  | poll (hpoint : state.point = .poll) (ready : ℕ → Bool) :
    Move state (.poll (some ready)) (state.afterPoll ready)
  | refused (hpoint : state.point = .accept) :
    Move state (.accept none) { state with point := .poll }
  | accept (hpoint : state.point = .accept) {clientfd : ℕ}
      (hclosed : state.kernel.socket clientfd = none) (hne : clientfd ≠ state.sockfd)
      (hroom : state.nfds < 1024) :
    Move state (.accept (some clientfd)) (state.afterAccept clientfd)
  | data {index : ℕ} (hreceives : state.Receives index) {bytes : List UInt8}
      (hpossible : (RecvAnswer.data bytes).Possible state.kernel (state.entry index).fd) :
    Move state (.recv (.data bytes)) (state.afterData index bytes)
  | remove {index : ℕ} (hreceives : state.Receives index) {answer : RecvAnswer}
      (hanswer : ∀ bytes, answer ≠ .data bytes)
      (hpossible : answer.Possible state.kernel (state.entry index).fd) :
    Move state (.recv answer) (state.remove index)
  | skip {index : ℕ} (hpoint : state.point = .scan index) (hindex : index < state.nfds)
      (hunready : (state.entry index).revents = false) :
    Move state .next { state with point := .scan (index + 1) }
  | finish {index : ℕ} (hpoint : state.point = .scan index) (hindex : state.nfds ≤ index) :
    Move state .next { state with point := .poll }

theorem move_of_step {state next : State} {event : Event} (hstep : step state event = some next) :
    Move state event next := by
  unfold step at hstep
  split at hstep
  · rename_i hpoint
    exact Option.some.inj hstep ▸ .interrupted hpoint
  · rename_i ready hpoint
    exact Option.some.inj hstep ▸ .poll hpoint ready
  · rename_i hpoint
    exact Option.some.inj hstep ▸ .refused hpoint
  · rename_i clientfd hpoint
    rw [Option.ite_none_right_eq_some] at hstep
    obtain ⟨⟨hclosed, hne, hroom⟩, hnext⟩ := hstep
    exact Option.some.inj hnext ▸ .accept hpoint hclosed hne hroom
  · rename_i index answer hpoint
    rw [Option.ite_none_right_eq_some] at hstep
    obtain ⟨⟨hindex, hready, hpossible⟩, hnext⟩ := hstep
    have hreceives : state.Receives index := ⟨hpoint, hindex, hready⟩
    rw [← Option.some.inj hnext]
    cases answer with
    | data bytes => exact .data hreceives hpossible
    | disconnect => exact .remove hreceives (fun _ ↦ RecvAnswer.noConfusion) hpossible
    | error => exact .remove hreceives (fun _ ↦ RecvAnswer.noConfusion) hpossible
  · rename_i index hpoint
    split_ifs at hstep with hindex hready
    · exact Option.some.inj hstep ▸ .skip hpoint hindex (Bool.eq_false_iff.mpr hready)
    · exact Option.some.inj hstep ▸ .finish hpoint (Nat.not_lt.mp hindex)
  · cases hstep

/-! ### The array -/

/-- The array has 1024 entries, `pfds[0]` is always in use, and the scan is about clients. -/
structure Shape (state : State) : Prop where
  length_eq : state.pfds.length = 1024
  nfds_pos : 1 ≤ state.nfds
  nfds_le : state.nfds ≤ 1024
  scan_pos : ∀ index, state.point = .scan index → 1 ≤ index

theorem shape_start (sockfd : ℕ) : Shape (State.start sockfd) where
  length_eq := by rw [State.start, List.length_cons, List.length_replicate]
  nfds_pos := Nat.le_refl _
  nfds_le := by
    show 1 ≤ 1024
    decide
  scan_pos := fun _ hpoint ↦ Point.noConfusion hpoint

section Shape

variable {state : State}

theorem Shape.lt_length (hshape : Shape state) {index : ℕ} (hindex : index < state.nfds) :
    index < state.pfds.length := by
  rw [hshape.length_eq]
  exact Nat.lt_of_lt_of_le hindex hshape.nfds_le

theorem Shape.advance (hshape : Shape state) {index : ℕ} {inbox : Inbox} :
    Shape { state with point := .scan (index + 1), inbox := inbox } :=
  { hshape with
    scan_pos := fun other hscan ↦ by
      rw [← Point.scan.inj hscan]
      exact Nat.succ_pos index }

theorem Shape.toPoll (hshape : Shape state) : Shape { state with point := .poll } :=
  { hshape with scan_pos := fun _ hscan ↦ Point.noConfusion hscan }

theorem shape_afterPoll (hshape : Shape state) (ready : ℕ → Bool) :
    Shape (state.afterPoll ready) where
  length_eq := by
    rw [pfds_afterPoll, List.length_append, List.length_map, ← List.length_append,
      List.take_append_drop]
    exact hshape.length_eq
  nfds_pos := by
    rw [nfds_afterPoll]
    exact hshape.nfds_pos
  nfds_le := by
    rw [nfds_afterPoll]
    exact hshape.nfds_le
  scan_pos := fun _ hpoint ↦ scan_pos_afterPoll state ready hpoint

theorem shape_move {next : State} {event : Event} (hshape : Shape state)
    (hmove : Move state event next) : Shape next := by
  cases hmove with
  | interrupted hpoint => exact hshape
  | poll hpoint ready => exact shape_afterPoll hshape ready
  | refused hpoint => exact hshape.toPoll
  | accept hpoint hclosed hne hroom =>
    refine ⟨?_, Nat.le_succ_of_le hshape.nfds_pos, hroom, fun index hscan ↦ ?_⟩
    · show (state.pfds.set state.nfds _).length = 1024
      rw [List.length_set]
      exact hshape.length_eq
    · exact Nat.le_of_eq (Point.scan.inj hscan)
  | data hreceives hpossible => exact hshape.advance
  | @remove index hreceives answer hanswer hpossible =>
    obtain ⟨hpoint, hindex, -⟩ := hreceives
    have hpos := hshape.scan_pos index hpoint
    refine ⟨?_, ?_, Nat.le_trans (Nat.sub_le _ _) hshape.nfds_le, fun other hscan ↦ ?_⟩
    · show (state.pfds.set index _).length = 1024
      rw [List.length_set]
      exact hshape.length_eq
    · show 1 ≤ state.nfds - 1
      omega
    · rw [← Point.scan.inj hscan]
      exact Nat.succ_pos index
  | skip hpoint hindex hunready => exact hshape.advance
  | finish hpoint hindex => exact hshape.toPoll

end Shape

end TestLinux.TcpServer.Pollio
