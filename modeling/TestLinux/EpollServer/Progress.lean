import TestLinux.EpollServer.Delivery
import Mathlib.Algebra.GroupWithZero.Nat
import Mathlib.Data.Fintype.EquivFin

/-!
# What `epoll_server` gets done

`Batched` is the invariant about the events that the loop has taken: they are of different sockets,
a listening socket among them has a connection to accept, and a client among them is open. So no
call of the loop blocks or finds a stale descriptor. `State.work` counts what is left to do until
the next `epoll_wait`; each step of the server lowers it (`work_lt_of_move`), and a step of the
server is possible until `epoll_wait` is reached (`goesOn`). `State.Settles` says both.

`Due` follows a client from the report of its event on: the event is in the batch until the drain
loop has printed all that had arrived. `streams_delivered` puts this and the invariants about
reports and data together.
-/

set_option autoImplicit false
set_option relaxedAutoImplicit false

namespace TestLinux.EpollServer

open TestLinux.Runs TestLinux.ReadyQueue

/-! ### Batches -/

/-- The events that the loop has taken are of different sockets, and each of these still has what it
was reported for. All but finitely many descriptors are free. -/
structure Batched (state : State) : Prop where
  ready : state.ready.Nodup
  batch : state.point.batch.Nodup
  listeners : ∀ fd ∈ state.point.batch, fd ∈ state.listenFds → state.backlog fd ≠ []
  clients : ∀ fd ∈ state.point.batch, fd ∉ state.listenFds → state.socket fd ≠ none
  spare : ∃ bound, ∀ fd, bound ≤ fd → state.socket fd = none

theorem batched_start (listenFds : List ℕ) : Batched (State.start listenFds) where
  ready := List.nodup_nil
  batch := List.nodup_nil
  listeners := fun _ hbatch ↦ absurd hbatch List.not_mem_nil
  clients := fun _ hbatch ↦ absurd hbatch List.not_mem_nil
  spare := ⟨0, fun _ _ ↦ rfl⟩

section Batched

variable {state next : State}

theorem nodup_wake (hready : state.ready.Nodup) (fd : ℕ) : (state.wake fd).ready.Nodup := by
  show (if state.watched fd = true then enqueue fd state.ready else state.ready).Nodup
  split_ifs
  · exact nodup_enqueue hready fd
  · exact hready

theorem nodup_add (hready : state.ready.Nodup) (fd : ℕ) : (state.add fd).ready.Nodup := by
  show (if (!state.watched fd && state.readable fd) = true then enqueue fd state.ready
    else state.ready).Nodup
  split_ifs
  · exact nodup_enqueue hready fd
  · exact hready

theorem Batched.spare_update (hstate : Batched state) (fd : ℕ) (stream : Option Stream) :
    ∃ bound, ∀ other, bound ≤ other → Function.update state.socket fd stream other = none := by
  obtain ⟨bound, hbound⟩ := hstate.spare
  refine ⟨max bound (fd + 1), fun other hother ↦ ?_⟩
  rw [Function.update_of_ne (by omega)]
  exact hbound other (by omega)

/-- A step that takes no event and leaves to the events that remain what they were reported for. -/
theorem Batched.of_step (hstate : Batched state) (hlistenFds : next.listenFds = state.listenFds)
    (hready : next.ready.Nodup) (hbatch : next.point.batch.Sublist state.point.batch)
    (hbacklog : ∀ fd ∈ next.point.batch, state.backlog fd ≠ [] → next.backlog fd ≠ [])
    (hsocket : ∀ fd ∈ next.point.batch, state.socket fd ≠ none → next.socket fd ≠ none)
    (hspare : ∃ bound, ∀ fd, bound ≤ fd → next.socket fd = none) : Batched next where
  ready := hready
  batch := hstate.batch.sublist hbatch
  listeners := fun fd hfd hlisten ↦
    hbacklog fd hfd (hstate.listeners fd (hbatch.subset hfd) (hlistenFds ▸ hlisten))
  clients := fun fd hfd hclient ↦
    hsocket fd hfd (hstate.clients fd (hbatch.subset hfd) (hlistenFds ▸ hclient))
  spare := hspare

theorem Batched.head (hstate : Batched state) {fd : ℕ} {rest : List ℕ}
    (hpoint : state.point = .events (fd :: rest)) : fd ∉ rest := by
  have hbatch := hstate.batch
  rw [hpoint] at hbatch
  exact (List.nodup_cons.mp hbatch).1

/-- What happens to the client of an event leaves the clients of the other events alone. -/
theorem Batched.socket_of_mem (hstate : Batched state) {fd other : ℕ} {rest : List ℕ}
    (hpoint : state.point = .events (fd :: rest)) (stream : Option Stream) (hother : other ∈ rest) :
    Function.update state.socket fd stream other = state.socket other := by
  have hne : other ≠ fd := by
    rintro rfl
    exact hstate.head hpoint hother
  exact Function.update_of_ne hne stream state.socket

theorem batch_tail {fd : ℕ} {rest : List ℕ} (hpoint : state.point = .events (fd :: rest)) :
    rest.Sublist state.point.batch := by
  rw [hpoint]
  exact List.sublist_cons_self fd rest

theorem Batched.skip (hstate : Batched state) {fd : ℕ} {rest : List ℕ}
    (hpoint : state.point = .events (fd :: rest)) : Batched { state with point := .events rest } :=
  hstate.of_step rfl hstate.ready (batch_tail hpoint) (fun _ _ hbacklog ↦ hbacklog)
    (fun _ _ hopen ↦ hopen) hstate.spare

/-- The loop closes the client of its event, of which it holds no other event. -/
theorem Batched.close (hstate : Batched state) {fd : ℕ} {rest : List ℕ}
    (hpoint : state.point = .events (fd :: rest)) (finished : List Stream) :
    Batched { state.close fd with point := .events rest, finished := finished } := by
  refine hstate.of_step rfl (hstate.ready.filter _) (batch_tail hpoint)
    (fun _ _ hbacklog ↦ hbacklog) (fun other hother hopen ↦ ?_) (hstate.spare_update fd none)
  show Function.update state.socket fd none other ≠ none
  rw [hstate.socket_of_mem hpoint none hother]
  exact hopen

theorem update_some_ne_none {fd other : ℕ} (stream : Stream) (hopen : state.socket other ≠ none) :
    Function.update state.socket fd (some stream) other ≠ none := by
  by_cases hother : other = fd
  · rw [hother, Function.update_self]
    exact Option.some_ne_none stream
  · rw [Function.update_of_ne hother]
    exact hopen

theorem batched_wait (hstate : Batched state) : Batched state.wait := by
  obtain ⟨hbatch, hboth⟩ := nodup_collect hstate.ready 1024 state.readable
  refine ⟨hboth.sublist (List.Sublist.append_left List.filter_sublist _), hbatch,
    fun fd hfd hlisten hempty ↦ ?_, fun fd hfd hclient hclosed ↦ ?_, hstate.spare⟩
  · have hreadable : state.readable fd = true := reports_of_mem_collect hfd
    rw [@readable_of_listen state fd hlisten, show state.backlog fd = [] from hempty]
      at hreadable
    exact absurd hreadable Bool.false_ne_true
  · have hreadable : state.readable fd = true := reports_of_mem_collect hfd
    rw [@readable_of_client state fd hclient, show state.socket fd = none from hclosed]
      at hreadable
    exact absurd hreadable Bool.false_ne_true

theorem batched_move {event : Event} (hstate : Batched state) (hmove : Move state event next) :
    Batched next := by
  cases hmove with
  | @connect listenFd hlisten =>
    refine hstate.of_step rfl (nodup_wake hstate.ready listenFd) (List.Sublist.refl _)
      (fun fd _ hbacklog ↦ ?_) (fun _ _ hopen ↦ hopen) hstate.spare
    show Function.update state.backlog listenFd (state.backlog listenFd ++ [Stream.new]) fd ≠ []
    by_cases hfd : fd = listenFd
    · rw [hfd, Function.update_self]
      exact List.append_ne_nil_of_right_ne_nil _ (List.cons_ne_nil _ _)
    · rw [Function.update_of_ne hfd]
      exact hbacklog
  | @arrivePending arrival listenFd index stream arrived hstream harrived =>
    refine hstate.of_step rfl hstate.ready (List.Sublist.refl _) (fun fd _ hbacklog ↦ ?_)
      (fun _ _ hopen ↦ hopen) hstate.spare
    rw [← List.isEmpty_eq_false_iff] at hbacklog ⊢
    exact (isEmpty_update_set listenFd index arrived fd).trans hbacklog
  | @arriveClient arrival fd stream arrived hstream harrived =>
    exact hstate.of_step rfl (nodup_wake hstate.ready fd) (List.Sublist.refl _)
      (fun _ _ hbacklog ↦ hbacklog) (fun _ _ ↦ update_some_ne_none arrived)
      (hstate.spare_update fd (some arrived))
  | addListen hpoint | addClient hpoint =>
    refine hstate.of_step rfl (nodup_add hstate.ready _) ?_ (fun _ _ hbacklog ↦ hbacklog)
      (fun _ _ hopen ↦ hopen) hstate.spare
    rw [hpoint]
    exact List.Sublist.refl _
  | wait hpoint => exact batched_wait hstate
  | interrupted hpoint => exact hstate
  | refused hpoint hlisten => exact hstate.skip hpoint
  | @accept fd clientfd rest stream pending hpoint hlisten hbacklog hclosed hclient =>
    refine hstate.of_step rfl hstate.ready (batch_tail hpoint) (fun other hother hpending ↦ ?_)
      (fun _ _ ↦ update_some_ne_none stream) (hstate.spare_update clientfd (some stream))
    have hne : other ≠ fd := fun heq ↦ hstate.head hpoint (heq ▸ hother)
    show Function.update state.backlog fd (state.backlog fd).tail other ≠ []
    rw [Function.update_of_ne hne]
    exact hpending
  | @recv fd rest stream answer hpoint hclient hstream hpossible =>
    cases answer with
    | data count =>
      exact hstate.of_step rfl hstate.ready (List.Sublist.refl _) (fun _ _ hbacklog ↦ hbacklog)
        (fun _ _ ↦ update_some_ne_none _) (hstate.spare_update fd _)
    | disconnect => exact hstate.close hpoint _
    | again => exact hstate.skip hpoint
    | error => exact hstate.close hpoint _
  | stale hpoint hclient hclosed => exact hstate.close hpoint _
  | next hpoint =>
    exact hstate.of_step rfl hstate.ready (List.nil_sublist _) (fun _ _ hbacklog ↦ hbacklog)
      (fun _ _ hopen ↦ hopen) hstate.spare

end Batched

/-! ### The work of a batch -/

/-- The steps that the server takes itself, without `epoll_wait`. -/
def Event.ofServer : Event → Bool
  | .add | .accept _ | .recv _ | .next => true
  | .connect _ | .arrive _ _ | .wait | .interrupted => false

/-- `accept` or `recv` reports an error. -/
def Event.fails : Event → Bool
  | .accept none | .recv .error => true
  | _ => false

/-- The steps for one event: `accept` and `EPOLL_CTL_ADD`, or the calls of `recv`. -/
def State.cost (state : State) (fd : ℕ) : ℕ :=
  if fd ∈ state.listenFds then 2
  else 1 + (state.socket fd).elim 0 fun stream ↦ stream.unread.length

def State.costs (state : State) (batch : List ℕ) : ℕ := (batch.map state.cost).sum

/-- The steps up to the next `epoll_wait`, at most. -/
def State.work (state : State) : ℕ :=
  match state.point with
  | .setup rest => rest.length + 1
  | .wait => 0
  | .events rest => 1 + state.costs rest
  | .register _ rest => 2 + state.costs rest

/-- The server is at `epoll_wait`, or it can take a step. The step is no error unless the connection
was reset. -/
def State.GoesOn (state : State) : Prop :=
  state.point = .wait ∨ ∃ event next, event.ofServer = true ∧ step state event = some next ∧
    (event.fails = true → ∃ fd rest stream, state.point = .events (fd :: rest) ∧
      state.socket fd = some stream ∧ stream.reset = true)

/-- Whatever the server does by itself brings it to `epoll_wait` within a bounded number of
steps. -/
def State.Settles (state : State) : Prop :=
  ∀ own last, (∀ event ∈ own, event.ofServer = true) → run step state own = some last →
    own.length ≤ state.work ∧ last.GoesOn

section Work

variable {state next : State}

theorem costs_congr (hlistenFds : next.listenFds = state.listenFds) {batch : List ℕ}
    (hsocket : ∀ fd ∈ batch, next.socket fd = state.socket fd) :
    next.costs batch = state.costs batch := by
  have hcost : ∀ fd ∈ batch, next.cost fd = state.cost fd := by
    intro fd hfd
    unfold State.cost
    rw [hlistenFds, hsocket fd hfd]
  rw [State.costs, State.costs, List.map_congr_left hcost]

theorem work_events {fd : ℕ} {rest : List ℕ} (hpoint : state.point = .events (fd :: rest)) :
    state.work = 1 + (state.cost fd + state.costs rest) := by
  rw [State.work, hpoint]
  rfl

theorem cost_client {fd : ℕ} {stream : Stream} (hclient : fd ∉ state.listenFds)
    (hstream : state.socket fd = some stream) : state.cost fd = 1 + stream.unread.length := by
  rw [State.cost, if_neg hclient, hstream]
  rfl

theorem cost_pos (state : State) (fd : ℕ) : 0 < state.cost fd := by
  unfold State.cost
  split_ifs <;> omega

/-- The event at the head of the batch is done. -/
theorem work_done {fd : ℕ} {rest : List ℕ} (hpoint : state.point = .events (fd :: rest))
    (hnext : next.point = .events rest) (hlistenFds : next.listenFds = state.listenFds)
    (hsocket : ∀ other ∈ rest, next.socket other = state.socket other) :
    next.work < state.work := by
  have hcost := cost_pos state fd
  rw [work_events hpoint, State.work, hnext]
  show 1 + next.costs rest < _
  rw [costs_congr hlistenFds hsocket]
  omega

/-- Each step of the server brings `epoll_wait` closer. -/
theorem work_lt_of_move {event : Event} (hstate : Batched state) (hmove : Move state event next)
    (hevent : event.ofServer = true) : next.work < state.work := by
  cases hmove with
  | connect | arrivePending | arriveClient | wait | interrupted =>
    exact absurd hevent Bool.false_ne_true
  | addListen hpoint =>
    rw [State.work, State.work, hpoint]
    exact Nat.lt_succ_self _
  | addClient hpoint =>
    rw [State.work, State.work, hpoint]
    exact Nat.add_lt_add_right (Nat.lt_succ_self 1) _
  | refused hpoint hlisten => exact work_done hpoint rfl rfl fun _ _ ↦ rfl
  | @accept fd clientfd rest stream pending hpoint hlisten hbacklog hclosed hclient =>
    have hother : ∀ other ∈ rest,
        Function.update state.socket clientfd (some stream) other = state.socket other := by
      refine fun other hother ↦ Function.update_of_ne ?_ _ _
      rintro rfl
      exact hstate.clients other ((batch_tail hpoint).subset hother) hclient hclosed
    have hsame : (state.accept fd clientfd stream rest).costs rest = state.costs rest := by
      refine costs_congr ?_ hother
      rfl
    rw [work_events hpoint, State.cost, if_pos hlisten]
    show 2 + (state.accept fd clientfd stream rest).costs rest < _
    rw [hsame]
    omega
  | @recv fd rest stream answer hpoint hclient hstream hpossible =>
    cases answer with
    | data count =>
      obtain ⟨hcount, -, hlength⟩ := hpossible
      have hpoint' : (state.recv fd rest stream (.data count)).point = .events (fd :: rest) :=
        hpoint
      have hprinted : (state.recv fd rest stream (.data count)).cost fd =
          1 + (stream.print count).unread.length :=
        cost_client hclient (Function.update_self ..)
      have hless : (stream.print count).unread.length = stream.unread.length - count :=
        List.length_drop
      have hsame : (state.recv fd rest stream (.data count)).costs rest = state.costs rest := by
        refine costs_congr ?_ fun other hother ↦ hstate.socket_of_mem hpoint _ hother
        rfl
      rw [work_events hpoint, work_events hpoint', cost_client hclient hstream, hprinted, hless,
        hsame]
      omega
    | disconnect =>
      exact work_done hpoint rfl rfl fun other hother ↦ hstate.socket_of_mem hpoint none hother
    | again => exact work_done hpoint rfl rfl fun _ _ ↦ rfl
    | error =>
      exact work_done hpoint rfl rfl fun other hother ↦ hstate.socket_of_mem hpoint none hother
  | stale hpoint hclient hclosed =>
    exact work_done hpoint rfl rfl fun other hother ↦ hstate.socket_of_mem hpoint none hother
  | next hpoint =>
    rcases hpoint with hpoint | hpoint <;> rw [State.work, State.work, hpoint] <;>
      exact Nat.succ_pos _

/-- `recv` has an answer other than an error for a connection that was not reset. -/
theorem exists_answer (stream : Stream) : ∃ answer : RecvAnswer, answer.Possible stream ∧
    ((Event.recv answer).fails = true → stream.reset = true) := by
  cases hunread : stream.unread with
  | cons byte bytes =>
    refine ⟨.data 1, ⟨Nat.le_refl 1, by decide, ?_⟩, fun hfails ↦ absurd hfails Bool.false_ne_true⟩
    rw [hunread]
    exact Nat.succ_pos _
  | nil =>
    cases hfin : stream.fin with
    | true => exact ⟨.disconnect, ⟨hunread, hfin⟩, fun hfails ↦ absurd hfails Bool.false_ne_true⟩
    | false =>
      cases hreset : stream.reset with
      | true => exact ⟨.error, trivial, fun _ ↦ rfl⟩
      | false =>
        refine ⟨.again, ?_, fun hfails ↦ absurd hfails Bool.false_ne_true⟩
        show stream.readable = false
        rw [Stream.readable, hunread, hfin, hreset]
        rfl

theorem exists_spare (hstate : Batched state) :
    ∃ clientfd, state.socket clientfd = none ∧ clientfd ∉ state.listenFds := by
  obtain ⟨bound, hbound⟩ := hstate.spare
  obtain ⟨clientfd, hfree⟩ :=
    Infinite.exists_notMem_finset (state.listenFds.toFinset ∪ Finset.range bound)
  rw [Finset.mem_union, not_or, List.mem_toFinset, Finset.mem_range, not_lt] at hfree
  exact ⟨clientfd, hbound clientfd hfree.2, hfree.1⟩

theorem goesOn (hstate : Batched state) : state.GoesOn := by
  have hsucceeds (event : Event) (hevent : event.ofServer = true) (hok : event.fails = false)
      (hstep : ∃ next, step state event = some next) : state.GoesOn := by
    obtain ⟨next, hnext⟩ := hstep
    exact Or.inr ⟨event, next, hevent, hnext, fun hfails ↦ absurd (hok.symm.trans hfails) (by simp)⟩
  cases hpoint : state.point with
  | wait => exact Or.inl hpoint
  | setup rest =>
    cases rest with
    | nil => exact hsucceeds .next rfl rfl ⟨_, by rw [step, nextStep, hpoint]⟩
    | cons fd rest => exact hsucceeds .add rfl rfl ⟨_, by rw [step, addStep, hpoint]⟩
  | register clientfd rest =>
    exact hsucceeds .add rfl rfl ⟨_, by rw [step, addStep, hpoint]⟩
  | events batch =>
    cases batch with
    | nil => exact hsucceeds .next rfl rfl ⟨_, by rw [step, nextStep, hpoint]⟩
    | cons fd rest =>
      have hbatch : fd ∈ state.point.batch := by
        rw [hpoint]
        exact List.mem_cons_self
      by_cases hlisten : fd ∈ state.listenFds
      · obtain ⟨stream, pending, hbacklog⟩ :=
          List.exists_cons_of_ne_nil (hstate.listeners fd hbatch hlisten)
        obtain ⟨clientfd, hspare⟩ := exists_spare hstate
        refine hsucceeds (.accept (some clientfd)) rfl rfl
          ⟨state.accept fd clientfd stream rest, ?_⟩
        simp only [step, acceptStep, hpoint, if_pos hlisten, hbacklog]
        exact if_pos hspare
      · obtain ⟨stream, hstream⟩ := Option.ne_none_iff_exists'.mp
          (hstate.clients fd hbatch hlisten)
        obtain ⟨answer, hpossible, hreset⟩ := exists_answer stream
        refine Or.inr ⟨.recv answer, state.recv fd rest stream answer, rfl, ?_,
          fun hfails ↦ ⟨fd, rest, stream, hpoint, hstream, hreset hfails⟩⟩
        simp only [step, recvStep, hpoint, if_neg hlisten, hstream]
        exact if_pos hpossible

/-- The server comes back to `epoll_wait`. -/
theorem settles (hstate : Batched state) : state.Settles := by
  intro own last hown hrun
  have hstep : ∀ state event next, Batched state → event.ofServer = true →
      step state event = some next → Batched next ∧ next.work < state.work :=
    fun _ _ _ hbatched hevent hstep ↦ ⟨batched_move hbatched (move_of_step hstep),
      work_lt_of_move hbatched (move_of_step hstep) hevent⟩
  have hbound := length_add_rank_le State.work hstep hstate hown hrun
  have hlast : Batched last := run_invariant
    (fun _ _ _ hbatched hstep ↦ batched_move hbatched (move_of_step hstep)) hstate hrun
  exact ⟨Nat.le_trans (Nat.le_add_right _ _) hbound, goesOn hlast⟩

end Work

/-! ### Data that is due -/

/-- The connection at a later time. -/
structure Stream.Extends (stream later : Stream) : Prop where
  arrived : stream.arrived <+: later.arrived
  fin : stream.fin = true → later.fin = true

theorem Stream.Extends.refl (stream : Stream) : stream.Extends stream :=
  ⟨List.prefix_rfl, fun hfin ↦ hfin⟩

theorem Stream.Extends.arrive {stream later next : Stream} {arrival : Arrival}
    (hextends : stream.Extends later) (harrive : later.arrive arrival = some next) :
    stream.Extends next := by
  unfold Stream.arrive at harrive
  split at harrive
  · obtain ⟨-, hnext⟩ := Option.ite_none_left_eq_some.mp harrive
    rw [← Option.some.inj hnext]
    exact ⟨hextends.arrived.trans (List.prefix_append _ _), hextends.fin⟩
  · rw [← Option.some.inj harrive]
    exact ⟨hextends.arrived, fun _ ↦ rfl⟩
  · rw [← Option.some.inj harrive]
    exact ⟨hextends.arrived, hextends.fin⟩

theorem printed_arrive {stream next : Stream} {arrival : Arrival}
    (harrive : stream.arrive arrival = some next) : next.printed = stream.printed := by
  unfold Stream.arrive at harrive
  split at harrive
  · obtain ⟨-, hnext⟩ := Option.ite_none_left_eq_some.mp harrive
    rw [← Option.some.inj hnext]
  · rw [← Option.some.inj harrive]
  · rw [← Option.some.inj harrive]

/-- `recv` for the event of this client does not fail. -/
def Unfailing (fd : ℕ) (state : State) : Event → Prop
  | .recv .error => state.point.batch.head? ≠ some fd
  | _ => True

instance decidableUnfailing (fd : ℕ) (state : State) : ∀ event, Decidable (Unfailing fd state event)
  | .recv .error => inferInstanceAs (Decidable (_ ≠ _))
  | .recv (.data _) | .recv .disconnect | .recv .again | .connect _ | .arrive _ _ | .add | .wait
  | .interrupted | .accept _ | .next => isTrue trivial

/-- What had arrived of the client has been printed. If the end of the stream had arrived as well,
the connection is closed: it is one of those that have been finished since `before`. -/
def State.Printed (state : State) (fd : ℕ) (stream : Stream) (before : List Stream) : Prop :=
  ∃ more, before ++ more = state.finished ∧
    ((stream.fin = false ∧ ∃ later, state.socket fd = some later ∧
        stream.arrived <+: later.printed) ∨
      ∃ later ∈ more, stream.arrived <+: later.printed)

/-- The client is open, and more may have arrived. -/
structure Alive (fd : ℕ) (stream : Stream) (before : List Stream) (state : State) : Prop where
  socket : ∃ later, state.socket fd = some later ∧ stream.Extends later
  finished : before <+: state.finished

/-- The event of the client is not finished, or the data is printed. -/
def Due (fd : ℕ) (stream : Stream) (before : List Stream) (state : State) : Prop :=
  Alive fd stream before state ∧ fd ∈ state.point.batch ∨ state.Printed fd stream before

section Due

variable {state next : State} {fd : ℕ} {stream : Stream} {before : List Stream}

theorem finished_move {event : Event} (hmove : Move state event next) :
    state.finished <+: next.finished := by
  cases hmove with
  | @recv fd rest stream answer hpoint hclient hstream hpossible =>
    cases answer with
    | disconnect => exact List.prefix_append _ _
    | data | again | error => exact List.prefix_rfl
  | _ => exact List.prefix_rfl

/-- What a step does to an open client: nothing, more arrives, or it is a `recv` for the event of
the client. In the first two cases an event of it stays where it is. -/
theorem socket_move {event : Event} {client : Stream} (hmove : Move state event next)
    (hopen : state.socket fd = some client) (hclient : fd ∉ state.listenFds) :
    ((next.socket fd = some client ∨ ∃ arrival arrived, client.arrive arrival = some arrived ∧
        next.socket fd = some arrived) ∧ (fd ∈ state.point.batch → fd ∈ next.point.batch)) ∨
    ∃ rest, state.point = .events (fd :: rest) ∧ ∃ answer, event = .recv answer ∧
      answer.Possible client ∧ next = state.recv fd rest client answer := by
  have hrest {other : ℕ} {rest : List ℕ} (hpoint : state.point = .events (other :: rest))
      (hother : fd ≠ other) (hbatch : fd ∈ state.point.batch) : fd ∈ rest := by
    rw [hpoint] at hbatch
    exact (List.mem_cons.mp hbatch).resolve_left hother
  have hne {other : ℕ} (hclosed : state.socket other = none) : fd ≠ other := by
    rintro rfl
    exact absurd (hclosed.symm.trans hopen) (by simp)
  cases hmove with
  | connect | arrivePending | interrupted => exact Or.inl ⟨Or.inl hopen, id⟩
  | @arriveClient arrival other stream arrived hstream harrived =>
    refine Or.inl ⟨?_, id⟩
    by_cases hfd : fd = other
    · subst hfd
      rw [Option.some.inj (hopen.symm.trans hstream)]
      exact Or.inr ⟨arrival, arrived, harrived, Function.update_self ..⟩
    · exact Or.inl ((Function.update_of_ne hfd _ _).trans hopen)
  | addListen hpoint | addClient hpoint =>
    refine Or.inl ⟨Or.inl hopen, fun hbatch ↦ ?_⟩
    rw [hpoint] at hbatch
    exact hbatch
  | wait hpoint =>
    refine Or.inl ⟨Or.inl hopen, fun hbatch ↦ ?_⟩
    rw [hpoint] at hbatch
    exact absurd hbatch List.not_mem_nil
  | refused hpoint hlisten =>
    exact Or.inl ⟨Or.inl hopen, hrest hpoint fun heq ↦ hclient (heq ▸ hlisten)⟩
  | accept hpoint hlisten hbacklog hclosed hfree =>
    exact Or.inl ⟨Or.inl ((Function.update_of_ne (hne hclosed) _ _).trans hopen),
      hrest hpoint fun heq ↦ hclient (heq ▸ hlisten)⟩
  | @recv other rest stream answer hpoint hlisten hstream hpossible =>
    by_cases hfd : fd = other
    · subst hfd
      obtain rfl := Option.some.inj (hopen.symm.trans hstream)
      exact Or.inr ⟨rest, hpoint, answer, rfl, hpossible, rfl⟩
    · left
      cases answer with
      | data count => exact ⟨Or.inl ((Function.update_of_ne hfd _ _).trans hopen), id⟩
      | again => exact ⟨Or.inl hopen, hrest hpoint hfd⟩
      | disconnect =>
        exact ⟨Or.inl ((Function.update_of_ne hfd _ _).trans hopen), hrest hpoint hfd⟩
      | error => exact ⟨Or.inl ((Function.update_of_ne hfd _ _).trans hopen), hrest hpoint hfd⟩
  | stale hpoint hlisten hclosed =>
    exact Or.inl ⟨Or.inl ((Function.update_of_ne (hne hclosed) _ _).trans hopen),
      hrest hpoint (hne hclosed)⟩
  | next hpoint =>
    refine Or.inl ⟨Or.inl hopen, fun hbatch ↦ ?_⟩
    rcases hpoint with hpoint | hpoint
    · rw [hpoint] at hbatch
      exact hbatch
    · rw [hpoint] at hbatch
      exact hbatch

/-- The loop is at the event of the client. -/
theorem not_unfailing_error {rest : List ℕ} (hpoint : state.point = .events (fd :: rest)) :
    ¬ Unfailing fd state (.recv .error) := fun hunfailing ↦ hunfailing (by rw [hpoint]; rfl)

/-- `recv` has found nothing more. -/
theorem printed_eq_arrived {client : Stream} (hsound : client.Sound) (hread : client.unread = []) :
    client.printed = client.arrived := by
  rw [← show client.printed ++ client.unread = client.arrived from hsound, hread, List.append_nil]

theorem printed_move {event : Event} (hprinted : state.Printed fd stream before)
    (hwatching : Watching state) (hunfailing : Unfailing fd state event)
    (hmove : Move state event next) : next.Printed fd stream before := by
  obtain ⟨more, hmore, hlater⟩ := hprinted
  obtain ⟨new, hnew⟩ := finished_move hmove
  refine ⟨more ++ new, by rw [← List.append_assoc, hmore, hnew], ?_⟩
  rcases hlater with ⟨hfin, later, hopen, hprinted⟩ | ⟨later, hlater, hprinted⟩
  · have hclient := hwatching.not_listen (hopen.trans_ne (Option.some_ne_none later))
    obtain ⟨hsame | ⟨arrival, arrived, harrived, hsocket⟩, -⟩ |
      ⟨rest, hpoint, answer, rfl, -, rfl⟩ := socket_move hmove hopen hclient
    · exact Or.inl ⟨hfin, later, hsame, hprinted⟩
    · exact Or.inl ⟨hfin, arrived, hsocket, (printed_arrive harrived).symm ▸ hprinted⟩
    · cases answer with
      | data count =>
        exact Or.inl ⟨hfin, later.print count, Function.update_self ..,
          hprinted.trans (List.prefix_append _ _)⟩
      | again => exact Or.inl ⟨hfin, later, hopen, hprinted⟩
      | disconnect =>
        have hlast : new = [later] := List.append_cancel_left hnew
        rw [hlast]
        exact Or.inr ⟨later, List.mem_append_right _ List.mem_cons_self, hprinted⟩
      | error => exact absurd hunfailing (not_unfailing_error hpoint)
  · exact Or.inr ⟨later, List.mem_append_left _ hlater, hprinted⟩

theorem Alive.of_socket_move (halive : Alive fd stream before state) {event : Event}
    {client : Stream} (hextends : stream.Extends client) (hmove : Move state event next)
    (hsocket : next.socket fd = some client ∨ ∃ arrival arrived,
      client.arrive arrival = some arrived ∧ next.socket fd = some arrived) :
    Alive fd stream before next := by
  have hfinished := halive.finished.trans (finished_move hmove)
  rcases hsocket with hsame | ⟨arrival, arrived, harrived, hsocket⟩
  · exact ⟨⟨client, hsame, hextends⟩, hfinished⟩
  · exact ⟨⟨arrived, hsocket, hextends.arrive harrived⟩, hfinished⟩

/-- The loop gives up the event of a client only when everything is printed. -/
theorem due_move {event : Event} (hdue : Due fd stream before state) (hwatching : Watching state)
    (hprinting : Printing state) (hunfailing : Unfailing fd state event)
    (hmove : Move state event next) : Due fd stream before next := by
  rcases hdue with ⟨halive, hbatch⟩ | hprinted
  · obtain ⟨client, hopen, hextends⟩ := halive.socket
    obtain ⟨more, hmore⟩ := halive.finished
    have hclient := hwatching.not_listen (hopen.trans_ne (Option.some_ne_none client))
    have hsound := hprinting.clients fd client hopen
    obtain ⟨hsocket, hkept⟩ | ⟨rest, hpoint, answer, rfl, hpossible, rfl⟩ :=
      socket_move hmove hopen hclient
    · exact Or.inl ⟨halive.of_socket_move hextends hmove hsocket, hkept hbatch⟩
    · cases answer with
      | data count =>
        exact Or.inl ⟨⟨⟨client.print count, Function.update_self .., hextends.arrived,
          hextends.fin⟩, halive.finished⟩, hbatch⟩
      | again =>
        have hnothing : client.unread = [] ∧ client.fin = false := by
          have hreadable : client.readable = false := hpossible
          simp only [Stream.readable, Bool.or_eq_false_iff, Bool.not_eq_false',
            List.isEmpty_iff] at hreadable
          exact hreadable.1
        have hfin : stream.fin = false := by
          by_contra hended
          exact absurd (hnothing.2.symm.trans (hextends.fin ((Bool.not_eq_false _).mp hended)))
            (by simp)
        refine Or.inr ⟨more, hmore, Or.inl ⟨hfin, client, hopen, ?_⟩⟩
        rw [printed_eq_arrived hsound hnothing.1]
        exact hextends.arrived
      | disconnect =>
        refine Or.inr ⟨more ++ [client], ?_, Or.inr ⟨client, ?_, ?_⟩⟩
        · rw [← List.append_assoc, hmore]
          rfl
        · exact List.mem_append_right _ List.mem_cons_self
        · rw [printed_eq_arrived hsound hpossible.1]
          exact hextends.arrived
      | error => exact absurd hunfailing (not_unfailing_error hpoint)
  · exact Or.inr (printed_move hprinted hwatching hunfailing hmove)

/-- From its report on the event of a client is in the batch until everything is printed, and at
`epoll_wait` the batch is empty. -/
theorem printed_of_due {events : List Event} {last : State} (hdue : Due fd stream before state)
    (hwatching : Watching state) (hprinting : Printing state)
    (hrun : run step state events = some last) (halong : Along step (Unfailing fd) state events)
    (hlast : last.point = .wait) : last.Printed fd stream before := by
  have hpreserved : ∀ state event next,
      (Watching state ∧ Printing state ∧ Due fd stream before state) → Unfailing fd state event →
        step state event = some next →
          Watching next ∧ Printing next ∧ Due fd stream before next := by
    rintro state event next ⟨hwatching, hprinting, hdue⟩ hunfailing hstep
    have hmove := move_of_step hstep
    exact ⟨watching_move hwatching hmove, printing_move hprinting hmove,
      due_move hdue hwatching hprinting hunfailing hmove⟩
  obtain ⟨-, -, hend⟩ := run_invariant_along hpreserved ⟨hwatching, hprinting, hdue⟩ halong hrun
  refine hend.resolve_left fun hpending ↦ ?_
  rw [hlast] at hpending
  exact absurd hpending.2 List.not_mem_nil

/-- A client that is waiting to be reported is printed when the server is at `epoll_wait` again. -/
theorem printed_of_waiting {events : List Event} {last : State} {place : ℕ}
    (hwaiting : Waiting fd place state) (hwatching : Watching state) (hprinting : Printing state)
    (halive : Alive fd stream before state) (hrun : run step state events = some last)
    (halong : Along step (Unfailing fd) state events)
    (hwaits : place < 1024 * events.countP Event.isWait) (hlast : last.point = .wait) :
    last.Printed fd stream before := by
  induction events generalizing state place with
  | nil => exact absurd hwaits (Nat.not_lt_zero place)
  | cons event rest ih =>
    obtain ⟨next, hstep, hrest⟩ := run_cons_eq_some.mp hrun
    obtain ⟨hunfailing, hlater⟩ := along_cons hstep halong
    have hmove := move_of_step hstep
    have hwatching' := watching_move hwatching hmove
    have hprinting' := printing_move hprinting hmove
    obtain ⟨client, hopen, hextends⟩ := halive.socket
    have hclient := hwatching.not_listen (hopen.trans_ne (Option.some_ne_none client))
    have halive' : Alive fd stream before next := by
      obtain ⟨hsocket, -⟩ | ⟨batch, hpoint, -⟩ := socket_move hmove hopen hclient
      · exact halive.of_socket_move hextends hmove hsocket
      · exact absurd rfl (hwaiting.not_current hpoint).1
    by_cases hevent : event.isWait = true
    · cases hmove with
      | wait hpoint =>
        rcases reported_or_waiting hwaiting with hbatch | ⟨hfar, hcloser⟩
        · exact printed_of_due (Or.inl ⟨halive', hbatch⟩) hwatching' hprinting' hrest hlater hlast
        · refine ih hcloser hwatching' hprinting' halive' hrest hlater ?_
          rw [List.countP_cons_of_pos hevent] at hwaits
          omega
      | _ => exact absurd hevent Bool.false_ne_true
    · refine ih (waiting_move hwaiting hwatching hmove ((Bool.not_eq_true _).mp hevent))
        hwatching' hprinting' halive' hrest hlater ?_
      rw [List.countP_cons_of_neg hevent] at hwaits
      exact hwaits

end Due

/-! ### Runs -/

/-- In every continuation in which `recv` does not fail for the client, and in which `epoll_wait`
has been called often enough for the sockets in front of it, everything that has arrived by now is
printed when the server is at `epoll_wait` again, and the connection is closed if its end has
arrived by now. -/
def State.WillPrint (state : State) (fd : ℕ) (stream : Stream) : Prop :=
  ∀ later last, run step state later = some last → Along step (Unfailing fd) state later →
    state.ready.idxOf fd < 1024 * later.countP Event.isWait → last.point = .wait →
      last.Printed fd stream state.finished

theorem Watching.willPrint {state : State} (hstate : Watching state) (hprinting : Printing state)
    (hpoint : state.point = .wait) {fd : ℕ} {stream : Stream}
    (hstream : state.socket fd = some stream) (hreadable : stream.readable = true) :
    state.WillPrint fd stream := by
  have hopen : state.socket fd ≠ none := hstream.trans_ne (Option.some_ne_none stream)
  have hwatched := hstate.watched_of_wait hpoint (Or.inr hopen)
  have hread : state.readable fd = true := by
    rw [readable_of_client (hstate.not_listen hopen), hstream]
    exact hreadable
  have hunreported : fd ∉ state.point.batch := by
    rw [hpoint]
    exact List.not_mem_nil
  have hwaiting : Waiting fd (state.ready.idxOf fd) state :=
    ⟨hwatched, hread, (hstate.willReport hpoint hwatched hread).1, Nat.le_refl _, hunreported⟩
  exact fun later last hrun halong hwaits hlast ↦ printed_of_waiting hwaiting hstate hprinting
    ⟨⟨stream, hstream, .refl stream⟩, List.prefix_rfl⟩ hrun halong hwaits hlast

/-- Whenever the server calls `epoll_wait`, every client is watched, the clients with unread data or
an unread FIN and the listening sockets with a connection to accept are in the ready list, following
calls of `epoll_wait` report them, and the data of these clients is printed when the server is back
at `epoll_wait`. At any time the server comes to `epoll_wait` by its own steps. What has been
printed of a client is what has arrived from it up to the unread bytes, and a client closed at the
end of its stream has been printed completely. -/
theorem streams_delivered (listenFds : List ℕ) {events : List Event} {final : State}
    (hrun : run step (State.start listenFds) events = some final) :
    (final.point = .wait →
      (∀ fd stream, final.socket fd = some stream → final.watched fd = true ∧
        (stream.unread ≠ [] ∨ stream.fin = true →
          final.WillReport fd ∧ final.WillPrint fd stream)) ∧
      ∀ fd ∈ listenFds, final.backlog fd ≠ [] → final.WillReport fd) ∧
    final.Settles ∧
    (∀ fd stream, final.socket fd = some stream →
      stream.printed ++ stream.unread = stream.arrived) ∧
    ∀ stream ∈ final.finished, stream.fin = true ∧ stream.printed = stream.arrived := by
  have hwatching : Watching final :=
    run_invariant (fun _ _ _ hstate hstep ↦ watching_move hstate (move_of_step hstep))
      (watching_start listenFds) hrun
  have hprinting : Printing final :=
    run_invariant (fun _ _ _ hstate hstep ↦ printing_move hstate (move_of_step hstep))
      (printing_start listenFds) hrun
  have hbatched : Batched final :=
    run_invariant (fun _ _ _ hstate hstep ↦ batched_move hstate (move_of_step hstep))
      (batched_start listenFds) hrun
  have hkept : ∀ state event next, state.listenFds = listenFds → step state event = some next →
      next.listenFds = listenFds := fun _ _ _ hstate hstep ↦
    (listenFds_move (move_of_step hstep)).trans hstate
  have hlistenFds : final.listenFds = listenFds := run_invariant hkept rfl hrun
  refine ⟨fun hpoint ↦ ⟨fun fd stream hstream ↦ ?_, fun fd hlisten hbacklog ↦ ?_⟩,
    settles hbatched, hprinting.clients, hprinting.finished⟩
  · have hopen : final.socket fd ≠ none := hstream.trans_ne (Option.some_ne_none stream)
    have hwatched := hwatching.watched_of_wait hpoint (Or.inr hopen)
    refine ⟨hwatched, fun hunread ↦ ?_⟩
    have hreadable : stream.readable = true := by
      rcases hunread with hdata | hfin
      · simp [Stream.readable, hdata]
      · simp [Stream.readable, hfin]
    refine ⟨hwatching.willReport hpoint hwatched ?_,
      hwatching.willPrint hprinting hpoint hstream hreadable⟩
    rw [readable_of_client (hwatching.not_listen hopen), hstream]
    exact hreadable
  · rw [← hlistenFds] at hlisten
    refine hwatching.willReport hpoint (hwatching.watched_of_wait hpoint (Or.inl hlisten)) ?_
    rw [readable_of_listen hlisten]
    simpa using hbacklog

/-- A client connects and sends before the server has added its listening socket. It is
accepted. -/
def earlyClient : List Event :=
  [.connect 3, .arrive (.data [104, 105]) (.pending 3 0), .add, .next, .wait, .accept (some 7),
    .add, .next]

/-- The client closes the connection, and the server reads it to the end. -/
def readToEnd : List Event :=
  [.arrive .fin (.client 7), .wait, .recv (.data 1), .recv (.data 1), .recv .disconnect, .next]

theorem streams_delivered_earlyClient :
    ∃ waiting final, run step (State.start [3]) earlyClient = some waiting ∧
      (waiting.point, waiting.socket 7) =
        (.wait, some ⟨[104, 105], [104, 105], false, false, []⟩) ∧ waiting.WillReport 7 ∧
      run step waiting readToEnd = some final ∧
      final.Printed 7 ⟨[104, 105], [104, 105], false, false, []⟩ waiting.finished ∧
      (final.point, final.socket 7, final.finished) =
        (.wait, none, [⟨[104, 105], [], true, false, [104, 105]⟩]) := by
  have hmiddle : (run step (State.start [3]) earlyClient).map (fun state ↦
      ((state.point, state.socket 7), state.ready.idxOf 7)) =
        some ((.wait, some ⟨[104, 105], [104, 105], false, false, []⟩), 1) := by decide +kernel
  have hend : (run step (State.start [3]) (earlyClient ++ readToEnd)).map
      (fun state ↦ (state.point, state.socket 7, state.finished)) =
        some (.wait, none, [⟨[104, 105], [], true, false, [104, 105]⟩]) := by decide +kernel
  have halong : Along step (Unfailing 7) (State.start [3]) (earlyClient ++ readToEnd) := by
    decide +kernel
  obtain ⟨waiting, final, hfirst, hsecond, hseen, hlast⟩ := exists_of_views hmiddle hend
  obtain ⟨hsocket, hplace⟩ := Prod.mk.inj hseen
  obtain ⟨hclients, -⟩ := (streams_delivered [3] hfirst).1 (Prod.mk.inj hsocket).1
  obtain ⟨hreport, hprint⟩ := (hclients 7 _ (Prod.mk.inj hsocket).2).2
    (Or.inl (List.cons_ne_nil _ _))
  refine ⟨waiting, final, hfirst, hsocket, hreport, hsecond, ?_, hlast⟩
  refine hprint readToEnd final hsecond (along_append hfirst halong).2 ?_ (Prod.mk.inj hlast).1
  rw [hplace]
  decide

end TestLinux.EpollServer
