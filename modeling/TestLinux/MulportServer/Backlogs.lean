import TestLinux.MulportServer.Model

/-!
# Events and backlogs

What is outstanding for a socket: the events of it that are queued or taken, the waiting jobs, and
what the running jobs can still read. `Fits` is the condition on arrivals: no connection is made
while an event of its listening socket is queued, and the bytes that arrive fit into what is
outstanding for their client.

`Watched` relates the ready list of `epoll` to the sockets that are there, and `Announced` says of a
run in which all arrivals fit that every backlog has an event for each of its connections.
-/

set_option autoImplicit false
set_option relaxedAutoImplicit false

namespace TestLinux.MulportServer

open TestLinux.ReadyQueue TestLinux.Threads TestLinux.Runs

variable {size : ℕ}

/-! ### Outstanding events and jobs -/

/-- The events that the main thread has taken and not handled. -/
def Point.batch : Point → List ℕ
  | .events rest | .count _ rest | .register _ rest | .process rest => rest
  | .wait | .stopped => []

/-- The client that is about to be added to `epoll`. -/
def Point.unregistered : Point → Option ℕ
  | .count clientfd _ | .register clientfd _ => some clientfd
  | .wait | .events _ | .process _ | .stopped => none

/-- The events of a socket that are queued or taken. -/
def State.pending (state : State size) (fd : ℕ) : ℕ :=
  (if fd ∈ state.ready then 1 else 0) + state.point.batch.count fd

/-- The events and the waiting jobs of a client, and the event that it will have when it is added.
-/
def State.units (state : State size) (fd : ℕ) : ℕ :=
  state.pending fd + state.waitingJobs.count fd +
    (if state.point.unregistered = some fd then 1 else 0)

/-- What a thread can still read from a descriptor before it returns from `nRecv`. -/
def readingTask (fd : ℕ) : Option Task → ℕ
  | some task =>
    if task.fd = fd ∧ (task.point = .recv ∨ task.point = .poll) then task.leftBytes else 0
  | none => 0

/-- What the threads that read from a descriptor can still read. -/
def State.reading (state : State size) (fd : ℕ) : ℕ := ∑ agent, readingTask fd (state.task agent)

/-- What the outstanding events and jobs can read from a client. -/
def State.room (state : State size) (fd : ℕ) : ℕ := maxBuffer * state.units fd + state.reading fd

/-- A connection is made only when no event of its listening socket is queued, and data arrives only
as far as there is room for it, the event that it causes included. In a backlog there is room for
one event. -/
def Fits (state : State size) : Event size → Prop
  | .connect listenFd => listenFd ∉ state.ready
  | .arrive (.data count) (.client fd) =>
    (state.stream fd).unread + count ≤ (state.wake fd).room fd
  | .arrive (.data count) (.pending listenFd index) =>
    ∀ stream ∈ (state.backlog listenFd)[index]?, stream.unread + count ≤ maxBuffer
  | _ => True

instance (state : State size) : (event : Event size) → Decidable (Fits state event)
  | .connect listenFd => inferInstanceAs (Decidable (listenFd ∉ state.ready))
  | .arrive (.data count) (.client fd) =>
    inferInstanceAs (Decidable ((state.stream fd).unread + count ≤ (state.wake fd).room fd))
  | .arrive (.data count) (.pending listenFd index) =>
    inferInstanceAs (Decidable (∀ stream ∈ (state.backlog listenFd)[index]?,
      stream.unread + count ≤ maxBuffer))
  | .arrive .fin _ | .arrive .reset _ | .writable _ | .wait | .interrupted | .accept _ | .count
  | .register | .dispatch | .next | .takeJob _ | .recv _ _ | .poll _ _ | .finish _ | .close _ =>
    isTrue trivial

/-- `epoll_wait` and `accept` do not fail, and `poll` reports no hangup. -/
def Undisturbed : Event size → Prop
  | .interrupted => False
  | .accept none => False
  | .poll _ (.ready hangup) => hangup = false
  | .poll _ (.error _ hangup) => hangup = false
  | _ => True

instance : (event : Event size) → Decidable (Undisturbed event)
  | .interrupted => isFalse id
  | .accept none => isFalse id
  | .poll _ (.ready hangup) => inferInstanceAs (Decidable (hangup = false))
  | .poll _ (.error _ hangup) => inferInstanceAs (Decidable (hangup = false))
  | .poll _ .timeout | .accept (some _) | .connect _ | .arrive _ _ | .writable _ | .wait | .count
  | .register | .dispatch | .next | .takeJob _ | .recv _ _ | .finish _ | .close _ => isTrue trivial

/-- No event is queued or taken, no job waits or runs, and the main thread is at the end of its loop
or in front of `epoll_wait`. -/
def State.Idle (state : State size) : Prop :=
  state.ready = [] ∧ state.waitingJobs = [] ∧ (∀ agent, state.task agent = none) ∧
    (state.point = .wait ∨ state.point = .events [])

instance (state : State size) : Decidable state.Idle :=
  inferInstanceAs (Decidable (_ ∧ _ ∧ _ ∧ (_ ∨ _)))

/-! ### The sockets that `epoll` watches -/

/-- Which sockets are watched and queued. -/
structure Watched (state : State size) : Prop where
  listening : ∀ fd ∈ state.sockfds, state.watched fd = true
  known : ∀ fd, state.watched fd = true → fd ∈ state.sockfds ∨ fd ∈ state.clients
  queued : ∀ fd ∈ state.ready, state.watched fd = true
  apart : ∀ fd ∈ state.clients, fd ∉ state.sockfds
  unregistered : ∀ fd, state.point.unregistered = some fd → state.watched fd = false

theorem watched_start (sockfds : List ℕ) : Watched (State.start size sockfds) where
  listening := fun fd hlisten ↦ decide_eq_true hlisten
  known := fun fd hwatched ↦ .inl (of_decide_eq_true hwatched)
  queued := fun fd hready ↦ absurd hready List.not_mem_nil
  apart := fun fd hclient ↦ absurd hclient (Finset.notMem_empty fd)
  unregistered := fun fd hpoint ↦ by cases hpoint

theorem Watched.congr {state next : State size} (hstate : Watched state)
    (hsockfds : next.sockfds = state.sockfds) (hclients : next.clients = state.clients)
    (hwatched : next.watched = state.watched) (hready : next.ready ⊆ state.ready)
    (hpoint : ∀ fd, next.point.unregistered = some fd → state.point.unregistered = some fd) :
    Watched next where
  listening := by
    rw [hsockfds, hwatched]
    exact hstate.listening
  known := by
    rw [hsockfds, hclients, hwatched]
    exact hstate.known
  queued := fun fd hmem ↦ by
    rw [hwatched]
    exact hstate.queued fd (hready hmem)
  apart := by
    rw [hsockfds, hclients]
    exact hstate.apart
  unregistered := fun fd hfd ↦ by
    rw [hwatched]
    exact hstate.unregistered fd (hpoint fd hfd)

theorem mem_wake {state : State size} {fd other : ℕ} :
    other ∈ (state.wake fd).ready ↔
      other ∈ state.ready ∨ other = fd ∧ state.watched fd = true := by
  simp only [State.wake]
  split_ifs with hwatched
  · rw [mem_enqueue, or_comm, and_iff_left hwatched]
  · simp [hwatched]

theorem watched_wake {state : State size} (hstate : Watched state) (fd : ℕ) :
    Watched (state.wake fd) where
  listening := hstate.listening
  known := hstate.known
  queued := by
    intro other hother
    rcases mem_wake.mp hother with hold | ⟨rfl, hwatched⟩
    · exact hstate.queued other hold
    · exact hwatched
  apart := hstate.apart
  unregistered := hstate.unregistered

theorem unregistered_endTask (state : State size) (agent : Agent size) :
    (state.endTask agent).point.unregistered = state.point.unregistered := by
  cases agent with
  | some index => rfl
  | none => cases hpoint : state.point <;> simp [State.endTask, hpoint, Point.unregistered]

theorem batch_endTask (state : State size) (agent : Agent size) :
    (state.endTask agent).point.batch = state.point.batch := by
  cases agent with
  | some index => rfl
  | none => cases hpoint : state.point <;> simp [State.endTask, hpoint, Point.batch]

theorem watched_accept {state : State size} (hstate : Watched state) {fd clientfd : ℕ}
    {rest : List ℕ} (stream : Stream) (hclosed : clientfd ∉ state.clients)
    (hclient : clientfd ∉ state.sockfds) : Watched (state.accept fd clientfd stream rest) where
  listening := hstate.listening
  known := fun other hwatched ↦ (hstate.known other hwatched).imp_right Finset.mem_insert_of_mem
  queued := hstate.queued
  apart := by
    intro other hother
    rcases Finset.mem_insert.mp hother with rfl | hmem
    · exact hclient
    · exact hstate.apart other hmem
  unregistered := by
    intro other hother
    obtain rfl : clientfd = other := Option.some.inj hother
    refine Bool.eq_false_of_not_eq_true fun hwatched ↦ ?_
    rcases hstate.known clientfd hwatched with hlisten | hopen
    · exact hclient hlisten
    · exact hclosed hopen

theorem watched_register {state : State size} (hstate : Watched state) {clientfd : ℕ}
    {rest : List ℕ} : Watched (state.register clientfd rest) := by
  by_cases hopen : clientfd ∈ state.clients
  · refine ⟨fun fd hlisten ↦ ?_, fun fd hwatched ↦ ?_, fun fd hmem ↦ ?_, hstate.apart, ?_⟩
    · simp only [State.register, hopen, ↓reduceIte]
      by_cases hfd : fd = clientfd
      · rw [hfd, Function.update_self]
      · rw [Function.update_of_ne hfd]
        exact hstate.listening fd hlisten
    · by_cases hfd : fd = clientfd
      · exact .inr (hfd ▸ hopen)
      · simp only [State.register, hopen, ↓reduceIte, Function.update_of_ne hfd] at hwatched
        exact hstate.known fd hwatched
    · simp only [State.register, hopen, ↓reduceIte] at hmem ⊢
      rcases mem_enqueue.mp hmem with rfl | hold
      · rw [Function.update_self]
      · by_cases hfd : fd = clientfd
        · rw [hfd, Function.update_self]
        · rw [Function.update_of_ne hfd]
          exact hstate.queued fd hold
    · intro fd hfd
      cases hfd
  · refine hstate.congr rfl rfl ?_ ?_ fun fd hfd ↦ by cases hfd
    · simp [State.register, hopen]
    · simp [State.register, hopen]

theorem watched_close {state next : State size} (hstate : Watched state) {fd : ℕ}
    (hopen : fd ∈ state.clients) (hsockfds : next.sockfds = state.sockfds)
    (hclients : next.clients = state.clients.erase fd)
    (hwatched : next.watched = Function.update state.watched fd false)
    (hready : next.ready = dequeue fd state.ready)
    (hpoint : next.point.unregistered = state.point.unregistered) : Watched next := by
  refine ⟨fun other hlisten ↦ ?_, fun other hother ↦ ?_, fun other hmem ↦ ?_, fun other hmem ↦ ?_,
    fun other hother ↦ ?_⟩
  · rw [hsockfds] at hlisten
    have hne : other ≠ fd := fun heq ↦ hstate.apart fd hopen (heq ▸ hlisten)
    rw [hwatched, Function.update_of_ne hne]
    exact hstate.listening other hlisten
  · have hne : other ≠ fd := by
      rintro rfl
      simp [hwatched] at hother
    rw [hwatched, Function.update_of_ne hne] at hother
    rw [hsockfds, hclients]
    exact (hstate.known other hother).imp_right fun hmem ↦ Finset.mem_erase.mpr ⟨hne, hmem⟩
  · rw [hready] at hmem
    obtain ⟨hold, hne⟩ := mem_dequeue.mp hmem
    rw [hwatched, Function.update_of_ne hne]
    exact hstate.queued other hold
  · rw [hclients] at hmem
    rw [hsockfds]
    exact hstate.apart other (Finset.mem_of_mem_erase hmem)
  · rw [hpoint] at hother
    rw [hwatched]
    by_cases hne : other = fd
    · rw [hne, Function.update_self]
    · rw [Function.update_of_ne hne]
      exact hstate.unregistered other hother

theorem watched_move {state next : State size} {event : Event size} (hstate : Watched state)
    (hmove : Move state event next) : Watched next := by
  cases hmove with
  | connect | arriveClient =>
    refine watched_wake ?_ _
    exact hstate.congr rfl rfl rfl (List.Subset.refl _) fun _ h ↦ h
  | writable => exact watched_wake hstate _
  | arrivePending | takeJob | recvData | recvDisconnect | recvError | poll | decrement =>
    exact hstate.congr rfl rfl rfl (List.Subset.refl _) fun _ h ↦ h
  | wait => exact hstate.congr rfl rfl rfl (List.drop_subset _ _) nofun
  | invalid | interrupted | refused | queueJob | process | next =>
    exact hstate.congr rfl rfl rfl (List.Subset.refl _) nofun
  | accept hpoint hlisten hbacklog hclosed hclient =>
    exact watched_accept hstate _ hclosed hclient
  | count hpoint =>
    refine hstate.congr rfl rfl rfl (List.Subset.refl _) fun fd hfd ↦ ?_
    rw [hpoint]
    exact hfd
  | register => exact watched_register hstate
  | @finish agent | @closeStray agent =>
    refine hstate.congr rfl rfl rfl (List.Subset.refl _) fun fd hfd ↦ ?_
    rw [← unregistered_endTask state agent]
    exact hfd
  | @close agent task htask hpoint hopen =>
    exact watched_close hstate hopen rfl rfl rfl rfl (unregistered_endTask state agent)

/-! ### Backlogs -/

/-- `epoll_wait` moves an event from the queue to the loop. -/
theorem pending_le_take_drop (ready : List ℕ) (limit fd : ℕ) :
    (if fd ∈ ready then 1 else 0) ≤
      (if fd ∈ ready.drop limit then 1 else 0) + (ready.take limit).count fd := by
  by_cases hmem : fd ∈ ready
  · rw [← List.take_append_drop limit ready, List.mem_append] at hmem
    rcases hmem with htaken | hleft
    · have hcount := List.count_pos_iff.mpr htaken
      split_ifs <;> omega
    · rw [if_pos hleft]
      split_ifs <;> omega
  · rw [if_neg hmem]
    exact Nat.zero_le _

theorem queued_le_of_subset {ready ready' : List ℕ} {fd : ℕ} (hmem : fd ∈ ready → fd ∈ ready') :
    (if fd ∈ ready then 1 else 0) ≤ (if fd ∈ ready' then 1 else 0) := by
  by_cases hfd : fd ∈ ready
  · rw [if_pos hfd, if_pos (hmem hfd)]
  · rw [if_neg hfd]
    exact Nat.zero_le _

/-- The events of a socket that are queued or taken do not get fewer in an undisturbed step, unless
it is the step that handles one of them or closes the socket. -/
theorem pending_le_of_move {state next : State size} {event : Event size}
    (hevent : Undisturbed event) (hmove : Move state event next) {fd : ℕ}
    (hhandled : ∀ rest, state.point = .events (fd :: rest) →
      event ≠ .dispatch ∧ ∀ clientfd, event ≠ .accept clientfd)
    (hclosed : ∀ agent, ∀ task ∈ state.task agent, event = .close agent →
      task.fd ∈ state.clients → task.fd ≠ fd) :
    state.pending fd ≤ next.pending fd := by
  cases hmove with
  | connect | arriveClient | writable =>
    exact Nat.add_le_add_right (queued_le_of_subset fun hmem ↦ mem_wake.mpr (.inl hmem)) _
  | arrivePending | takeJob | recvData | recvDisconnect | recvError | poll | decrement =>
    exact Nat.le_refl _
  | wait hpoint =>
    rw [State.pending, hpoint]
    exact pending_le_take_drop state.ready _ fd
  | invalid hpoint | next hpoint =>
    rw [State.pending, hpoint]
    exact Nat.le_refl _
  | interrupted | refused => exact absurd hevent id
  | @accept other clientfd rest _ _ hpoint =>
    have hne : other ≠ fd := by
      rintro rfl
      exact (hhandled rest hpoint).2 _ rfl
    rw [State.pending, hpoint, Point.batch, List.count_cons_of_ne hne]
    exact Nat.le_refl _
  | @queueJob other rest hpoint | @process other rest hpoint =>
    have hne : other ≠ fd := by
      rintro rfl
      exact (hhandled rest hpoint).1 rfl
    rw [State.pending, hpoint, Point.batch, List.count_cons_of_ne hne]
    exact Nat.le_refl _
  | count hpoint =>
    rw [State.pending, hpoint]
    exact Nat.le_refl _
  | @register clientfd rest hpoint =>
    rw [State.pending, hpoint]
    refine Nat.add_le_add_right (queued_le_of_subset fun hmem ↦ ?_) _
    simp only [State.register]
    split_ifs
    · exact mem_enqueue.mpr (.inr hmem)
    · exact hmem
  | @finish agent | @closeStray agent =>
    rw [State.pending, State.pending]
    change _ ≤ _ + (state.endTask agent).point.batch.count fd
    rw [batch_endTask]
    exact Nat.le_refl _
  | @close agent task htask _ hopen =>
    rw [State.pending, State.pending]
    change _ ≤ (if fd ∈ dequeue task.fd state.ready then 1 else 0) +
      (state.endTask agent).point.batch.count fd
    rw [batch_endTask]
    refine Nat.add_le_add_right (queued_le_of_subset fun hmem ↦ mem_dequeue.mpr ⟨hmem, ?_⟩) _
    exact (hclosed agent task htask rfl hopen).symm

/-- Every connection in a backlog has an event, and has received no more than one event can read. -/
structure Announced (state : State size) : Prop where
  events : ∀ fd ∈ state.sockfds, (state.backlog fd).length ≤ state.pending fd
  early : ∀ fd, ∀ stream ∈ state.backlog fd, stream.unread ≤ maxBuffer

theorem announced_start (sockfds : List ℕ) : Announced (State.start size sockfds) where
  events := fun _ _ ↦ Nat.zero_le _
  early := fun _ _ hstream ↦ absurd hstream List.not_mem_nil

theorem Announced.congr {state next : State size} (hstate : Announced state)
    (hsockfds : next.sockfds = state.sockfds) (hbacklog : next.backlog = state.backlog)
    (hpending : ∀ fd ∈ state.sockfds, state.pending fd ≤ next.pending fd) : Announced next where
  events := by
    intro fd hfd
    rw [hsockfds] at hfd
    rw [hbacklog]
    exact (hstate.events fd hfd).trans (hpending fd hfd)
  early := by
    rw [hbacklog]
    exact hstate.early

theorem announced_connect {state : State size} (hstate : Announced state)
    (hwatched : Watched state) {listenFd : ℕ} (hlisten : listenFd ∈ state.sockfds)
    (hfits : listenFd ∉ state.ready) : Announced (state.connect listenFd) where
  events := by
    intro fd hfd
    have hold := hstate.events fd hfd
    change (Function.update state.backlog listenFd
      (state.backlog listenFd ++ [Stream.new]) fd).length ≤
        (if fd ∈ (state.connect listenFd).ready then 1 else 0) + state.point.batch.count fd
    by_cases hne : fd = listenFd
    · subst hne
      have hmem : fd ∈ (state.connect fd).ready :=
        mem_wake.mpr (.inr ⟨rfl, hwatched.listening fd hlisten⟩)
      rw [State.pending, if_neg hfits] at hold
      rw [Function.update_self, if_pos hmem, List.length_append, List.length_singleton]
      omega
    · rw [Function.update_of_ne hne]
      exact hold.trans (Nat.add_le_add_right
        (queued_le_of_subset fun hmem ↦ mem_wake.mpr (.inl hmem)) _)
  early := by
    intro fd stream hstream
    change stream ∈ Function.update state.backlog listenFd
      (state.backlog listenFd ++ [Stream.new]) fd at hstream
    by_cases hfd : fd = listenFd
    · rw [hfd, Function.update_self, List.mem_append, List.mem_singleton] at hstream
      rcases hstream with hold | rfl
      · exact hstate.early listenFd stream hold
      · exact Nat.zero_le _
    · rw [Function.update_of_ne hfd] at hstream
      exact hstate.early fd stream hstream

/-- Only data changes the number of unread bytes. -/
theorem Stream.unread_arrive {stream next : Stream} {arrival : Arrival}
    (hnext : stream.arrive arrival = some next) {bound : ℕ} (hbound : stream.unread ≤ bound)
    (hdata : ∀ count, arrival = .data count → stream.unread + count ≤ bound) :
    next.unread ≤ bound := by
  cases arrival with
  | data count =>
    obtain ⟨-, hsome⟩ := Option.ite_none_left_eq_some.mp hnext
    rw [← Option.some.inj hsome]
    exact hdata count rfl
  | fin | reset =>
    rw [← Option.some.inj hnext]
    exact hbound

theorem announced_arrivePending {state : State size} (hstate : Announced state)
    {arrival : Arrival} {listenFd index : ℕ} {stream next : Stream}
    (hfits : Fits state (.arrive arrival (.pending listenFd index)))
    (hstream : (state.backlog listenFd)[index]? = some stream)
    (hnext : stream.arrive arrival = some next) :
    Announced { state with
      backlog := Function.update state.backlog listenFd
        ((state.backlog listenFd).set index next) } where
  events := by
    intro fd hfd
    refine Nat.le_trans (Nat.le_of_eq ?_) (hstate.events fd hfd)
    by_cases hne : fd = listenFd
    · simp only [hne, Function.update_self, List.length_set]
    · simp only [Function.update_of_ne hne]
  early := by
    intro fd other hother
    by_cases hne : fd = listenFd
    · simp only [hne, Function.update_self] at hother
      rcases List.mem_or_eq_of_mem_set hother with hold | rfl
      · exact hstate.early listenFd other hold
      · refine Stream.unread_arrive hnext
          (hstate.early listenFd stream (List.mem_of_getElem? hstream)) fun count hcount ↦ ?_
        subst hcount
        exact hfits stream hstream
    · simp only [Function.update_of_ne hne] at hother
      exact hstate.early fd other hother

theorem announced_accept {state : State size} (hstate : Announced state) {fd clientfd : ℕ}
    {rest : List ℕ} (stream : Stream) (hpoint : state.point = .events (fd :: rest)) :
    Announced (state.accept fd clientfd stream rest) where
  events := by
    intro other hother
    have hold := hstate.events other hother
    rw [State.pending, hpoint, Point.batch] at hold
    change (Function.update state.backlog fd (state.backlog fd).tail other).length ≤
      (if other ∈ state.ready then 1 else 0) + rest.count other
    by_cases hne : other = fd
    · subst hne
      rw [List.count_cons_self] at hold
      rw [Function.update_self, List.length_tail]
      omega
    · rw [List.count_cons_of_ne (Ne.symm hne)] at hold
      rw [Function.update_of_ne hne]
      exact hold
  early := by
    intro other stream' hstream'
    change stream' ∈ Function.update state.backlog fd (state.backlog fd).tail other at hstream'
    by_cases hne : other = fd
    · rw [hne, Function.update_self] at hstream'
      exact hstate.early fd stream' (List.mem_of_mem_tail hstream')
    · rw [Function.update_of_ne hne] at hstream'
      exact hstate.early other stream' hstream'

theorem announced_move {state next : State size} {event : Event size} (hstate : Announced state)
    (hwatched : Watched state) (hevent : Undisturbed event) (hfits : Fits state event)
    (hmove : Move state event next) : Announced next := by
  have hpending : (∀ clientfd, event ≠ .accept clientfd) →
      ∀ fd ∈ state.sockfds, state.pending fd ≤ next.pending fd := by
    intro haccept fd hfd
    refine pending_le_of_move hevent hmove (fun rest hpoint ↦ ⟨?_, haccept⟩) ?_
    · rintro rfl
      cases hmove with
      | queueJob hpoint' hclient | process hpoint' hclient =>
        rw [hpoint, Point.events.injEq, List.cons.injEq] at hpoint'
        exact hclient (hpoint'.1 ▸ hfd)
    · rintro agent task - - hopen rfl
      exact hwatched.apart task.fd hopen hfd
  cases hmove with
  | connect hlisten => exact announced_connect hstate hwatched hlisten hfits
  | arrivePending hstream hnext => exact announced_arrivePending hstate hfits hstream hnext
  | accept hpoint => exact announced_accept hstate _ hpoint
  | refused => exact absurd hevent id
  | arriveClient | writable | wait | invalid | interrupted | count | register | queueJob | process
  | next | takeJob | recvData | recvDisconnect | recvError | poll | finish | decrement | close
  | closeStray => exact hstate.congr rfl rfl (hpending (by simp))

end TestLinux.MulportServer
