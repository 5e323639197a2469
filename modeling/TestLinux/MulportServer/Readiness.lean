import TestLinux.MulportServer.Backlogs

/-!
# What the server leaves behind

All sockets are watched edge-triggered, but one event of a listening socket leads to one `accept`,
and one event of a client to a read of at most `MAX_BUFFER` bytes. What coalesces into one event and
is more than that stays where it is until something else arrives: the second of two connections that
were made before the event of the first was taken, or the bytes behind the first 128
(`left_behind`).

`State.room` is what the events and jobs that are outstanding for a client can still read: 128 bytes
for each event that is queued, taken or about to be queued and for each waiting job, and for a
running job what is left of its buffer. As long as no connection is made while an event of its
listening socket is queued, and as long as the bytes that arrive fit into the room of their client
(`Fits`), every backlog has an event for each of its connections and every client has room for its
unread bytes (`Provided`). A running job never gives up while there is something to read and room
for it. When no event and no job is outstanding, the room is zero, and nothing is left.
-/

set_option autoImplicit false
set_option relaxedAutoImplicit false

namespace TestLinux.MulportServer

open TestLinux.ReadyQueue TestLinux.Threads TestLinux.Runs

variable {size : ℕ}

/-! ### Clients -/

/-- Every client has room for its unread bytes. -/
def Provided (state : State size) : Prop :=
  ∀ fd ∈ state.clients, (state.stream fd).unread ≤ state.room fd

theorem provided_start (sockfds : List ℕ) : Provided (State.start size sockfds) :=
  fun fd hfd ↦ absurd hfd (Finset.notMem_empty fd)

theorem room_mono {state next : State size} {fd : ℕ} (hunits : state.units fd ≤ next.units fd)
    (hreading : state.reading fd ≤ next.reading fd) : state.room fd ≤ next.room fd :=
  Nat.add_le_add (Nat.mul_le_mul_left _ hunits) hreading

theorem units_mono {state next : State size} {fd : ℕ}
    (hpending : state.pending fd ≤ next.pending fd)
    (hwaiting : next.waitingJobs = state.waitingJobs)
    (hpoint : state.point.unregistered = some fd → next.point.unregistered = some fd) :
    state.units fd ≤ next.units fd := by
  rw [State.units, State.units, hwaiting]
  refine Nat.add_le_add (Nat.add_le_add_right hpending _) ?_
  split_ifs with hold hnew
  · exact Nat.le_refl _
  · exact absurd (hpoint hold) hnew
  · exact Nat.zero_le _
  · exact Nat.le_refl _

theorem units_of_events {state : State size} {rest : List ℕ}
    (hpoint : state.point = .events rest) (fd : ℕ) :
    state.units fd = (if fd ∈ state.ready then 1 else 0) + rest.count fd +
      state.waitingJobs.count fd := by
  rw [State.units, State.pending, hpoint]
  rfl

theorem reading_update {state next : State size} {agent : Agent size} {new : Option Task}
    (htask : next.task = Function.update state.task agent new) (fd : ℕ) :
    next.reading fd + readingTask fd (state.task agent) =
      state.reading fd + readingTask fd new := by
  rw [State.reading, htask]
  exact sum_update_add (readingTask fd) state.task agent new

theorem readingTask_of_ne {fd : ℕ} {task : Task} (hfd : task.fd ≠ fd) :
    readingTask fd (some task) = 0 := if_neg fun h ↦ hfd h.1

theorem readingTask_of_done {fd : ℕ} {task : Task}
    (hpoint : task.point = .returned ∨ task.point = .close) : readingTask fd (some task) = 0 := by
  refine if_neg fun h ↦ ?_
  rcases hpoint with hpoint | hpoint <;> simp [hpoint] at h

theorem readingTask_of_active {fd : ℕ} {task : Task} (hfd : task.fd = fd)
    (hpoint : task.point = .recv ∨ task.point = .poll) :
    readingTask fd (some task) = task.leftBytes := if_pos ⟨hfd, hpoint⟩

/-- Bytes that were read leave the buffer of the thread as well. -/
theorem readingTask_recvData {task : Task} (count : ℕ) :
    readingTask task.fd (some (task.recv (.data count))) = task.leftBytes - count := by
  by_cases hleft : 0 < task.leftBytes - count
  · simp [readingTask, Task.recv, hleft]
  · simp [readingTask, Task.recv, hleft]
    omega

/-- A step that leaves the data of a client alone and does not take from its room. -/
theorem Provided.mono {state next : State size} (hstate : Provided state)
    (hkept : ∀ fd ∈ next.clients, fd ∈ state.clients ∧ next.stream fd = state.stream fd ∧
      state.room fd ≤ next.room fd) : Provided next := by
  intro fd hfd
  obtain ⟨hold, hstream, hroom⟩ := hkept fd hfd
  rw [hstream]
  exact (hstate fd hold).trans hroom

/-- A step of a thread that reads from a client. Assumes: for its own client, the unread bytes and
the room of the thread change together, or nothing is left to read. -/
theorem Provided.thread {state next : State size} (hstate : Provided state) {agent : Agent size}
    {task : Task} {new : Option Task} (htask : state.task agent = some task)
    (hnext : next.task = Function.update state.task agent new)
    (hnew : ∀ task' ∈ new, task'.fd = task.fd) (hclients : next.clients ⊆ state.clients)
    (hunits : ∀ fd ∈ next.clients, state.units fd ≤ next.units fd)
    (hothers : ∀ fd, fd ≠ task.fd → next.stream fd = state.stream fd)
    (hself : task.fd ∈ next.clients → (next.stream task.fd).unread = 0 ∨
      (next.stream task.fd).unread + readingTask task.fd (some task) ≤
        (state.stream task.fd).unread + readingTask task.fd new) : Provided next := by
  intro fd hfd
  have hold := hstate fd (hclients hfd)
  have hreading := reading_update hnext fd
  have hmore := Nat.mul_le_mul_left maxBuffer (hunits fd hfd)
  rw [htask] at hreading
  rw [State.room] at hold ⊢
  by_cases hne : fd = task.fd
  · subst hne
    rcases hself hfd with hnothing | htogether
    · rw [hnothing]
      exact Nat.zero_le _
    · omega
  · have hnone : readingTask fd new = 0 := by
      cases new with
      | none => rfl
      | some task' => exact readingTask_of_ne (hnew task' rfl ▸ Ne.symm hne)
    rw [readingTask_of_ne (Ne.symm hne), hnone] at hreading
    rw [hothers fd hne]
    omega

@[simp] theorem Task.recv_fd (task : Task) (answer : RecvAnswer) :
    (task.recv answer).fd = task.fd := by
  cases answer <;> rfl

@[simp] theorem Task.poll_fd (task : Task) (answer : PollAnswer) :
    (task.poll answer).fd = task.fd := by
  cases answer with
  | timeout => rfl
  | ready hangup | error errno hangup => cases hangup <;> rfl

theorem provided_recvData {state : State size} (hstate : Provided state) {agent : Agent size}
    {task : Task} {count : ℕ} (htask : state.task agent = some task) (hpoint : task.point = .recv)
    (hpossible : (RecvAnswer.data count).Possible (state.stream task.fd) task.leftBytes) :
    Provided { state.setTask agent (task.recv (.data count)) with
      stream := Function.update state.stream task.fd
        { state.stream task.fd with unread := (state.stream task.fd).unread - count } } := by
  obtain ⟨-, hroom, hunread⟩ := hpossible
  refine hstate.thread htask rfl (fun task' htask' ↦ ?_) (Finset.Subset.refl _)
    (fun _ _ ↦ Nat.le_refl _) (fun fd hfd ↦ Function.update_of_ne hfd _ _) fun _ ↦ .inr ?_
  · rw [← Option.mem_some_iff.mp htask', Task.recv_fd]
  · rw [readingTask_of_active rfl (.inl hpoint), readingTask_recvData]
    simp only [Function.update_self]
    omega

theorem provided_poll {state : State size} (hstate : Provided state) {agent : Agent size}
    {task : Task} {answer : PollAnswer} (hevent : Undisturbed (.poll agent answer))
    (htask : state.task agent = some task) (hpoint : task.point = .poll)
    (hpossible : task.fd ∈ state.clients ∧ answer.Possible (state.stream task.fd) ∨
      task.fd ∉ state.clients ∧ answer = .ready false) :
    Provided (state.setTask agent (task.poll answer)) := by
  refine hstate.thread htask rfl (fun task' htask' ↦ ?_) (Finset.Subset.refl _)
    (fun _ _ ↦ Nat.le_refl _) (fun _ _ ↦ rfl) fun hopen ↦ ?_
  · rw [← Option.mem_some_iff.mp htask', Task.poll_fd]
  · cases answer with
    | timeout =>
      rcases hpossible with ⟨-, hunreadable⟩ | ⟨hclosed, -⟩
      · refine .inl ?_
        simp only [PollAnswer.Possible, Stream.readable, Bool.or_eq_false_iff,
          decide_eq_false_iff_not] at hunreadable
        exact Nat.eq_zero_of_not_pos hunreadable.1.1
      · exact absurd hopen hclosed
    | ready hangup | error errno hangup =>
      obtain rfl : hangup = false := hevent
      refine .inr (Nat.le_of_eq ?_)
      rw [readingTask_of_active rfl (.inr hpoint), readingTask_of_active (by simp)
        (.inl (by simp [Task.poll]))]
      rfl

theorem room_le_wake (state : State size) (fd other : ℕ) :
    state.room other ≤ (state.wake fd).room other := by
  refine room_mono (units_mono ?_ rfl id) (Nat.le_refl _)
  exact Nat.add_le_add_right (queued_le_of_subset fun hmem ↦ mem_wake.mpr (.inl hmem)) _

theorem provided_arriveClient {state : State size} (hstate : Provided state) {arrival : Arrival}
    {fd : ℕ} {next : Stream} (hfits : Fits state (.arrive arrival (.client fd)))
    (hopen : fd ∈ state.clients) (hnext : (state.stream fd).arrive arrival = some next) :
    Provided ({ state with stream := Function.update state.stream fd next }.wake fd) := by
  intro other hother
  change (Function.update state.stream fd next other).unread ≤ (state.wake fd).room other
  by_cases hne : other = fd
  · subst hne
    rw [Function.update_self]
    refine Stream.unread_arrive hnext ((hstate other hopen).trans (room_le_wake state other other))
      fun count hcount ↦ ?_
    subst hcount
    exact hfits
  · rw [Function.update_of_ne hne]
    exact (hstate other hother).trans (room_le_wake state fd other)

/-- A new client will have an event when it is added. -/
theorem provided_accept {state : State size} (hstate : Provided state) (hwatched : Watched state)
    {fd clientfd : ℕ} {rest : List ℕ} {stream : Stream}
    (hpoint : state.point = .events (fd :: rest)) (hlisten : fd ∈ state.sockfds)
    (hclosed : clientfd ∉ state.clients) (hearly : stream.unread ≤ maxBuffer) :
    Provided (state.accept fd clientfd stream rest) := by
  intro other hother
  change (Function.update state.stream clientfd stream other).unread ≤ _
  rcases Finset.mem_insert.mp hother with rfl | hmem
  · rw [Function.update_self]
    refine hearly.trans ((Nat.le_mul_of_pos_right maxBuffer ?_).trans (Nat.le_add_right _ _))
    rw [State.units]
    simp only [State.accept, Point.unregistered, ↓reduceIte]
    exact Nat.succ_pos _
  · rw [Function.update_of_ne (ne_of_mem_of_not_mem hmem hclosed)]
    refine (hstate other hmem).trans (room_mono (units_mono ?_ rfl ?_) (Nat.le_refl _))
    · have hne : fd ≠ other := fun heq ↦ hwatched.apart other hmem (heq ▸ hlisten)
      rw [State.pending, hpoint, Point.batch, List.count_cons_of_ne hne]
      exact Nat.le_refl _
    · rw [hpoint]
      intro hnone
      cases hnone

/-- The event of a new client takes the place of the one that was promised. -/
theorem provided_register {state : State size} (hstate : Provided state)
    (hwatched : Watched state) {clientfd : ℕ} {rest : List ℕ}
    (hpoint : state.point = .register clientfd rest) :
    Provided (state.register clientfd rest) := by
  refine hstate.mono fun fd hfd ↦ ⟨hfd, rfl, room_mono ?_ (Nat.le_refl _)⟩
  have hopen : fd ∈ state.clients := hfd
  have hbefore : state.units fd = (if fd ∈ state.ready then 1 else 0) + rest.count fd +
      state.waitingJobs.count fd + (if clientfd = fd then 1 else 0) := by
    rw [State.units, State.pending, hpoint]
    simp only [Point.batch, Point.unregistered, Option.some.injEq]
  have hafter : (state.register clientfd rest).units fd =
      (if fd ∈ (state.register clientfd rest).ready then 1 else 0) + rest.count fd +
        state.waitingJobs.count fd := rfl
  rw [hbefore, hafter]
  by_cases hne : clientfd = fd
  · subst hne
    have hunwatched := hwatched.unregistered clientfd (by rw [hpoint]; rfl)
    have hunqueued : clientfd ∉ state.ready := fun hmem ↦ by
      simp [hwatched.queued clientfd hmem] at hunwatched
    have hqueued : clientfd ∈ (state.register clientfd rest).ready := by
      simp only [State.register, hopen, ↓reduceIte]
      exact mem_enqueue.mpr (.inl rfl)
    rw [if_neg hunqueued, if_pos hqueued, if_pos rfl]
    omega
  · have hqueued : fd ∈ state.ready → fd ∈ (state.register clientfd rest).ready := by
      intro hmem
      simp only [State.register]
      split_ifs
      · exact mem_enqueue.mpr (.inr hmem)
      · exact hmem
    have hle := queued_le_of_subset hqueued
    rw [if_neg hne]
    omega

theorem provided_queueJob {state : State size} (hstate : Provided state) {fd : ℕ}
    {rest : List ℕ} (hpoint : state.point = .events (fd :: rest)) :
    Provided { state with point := .events rest, waitingJobs := fd :: state.waitingJobs } := by
  refine hstate.mono fun other hother ↦ ⟨hother, rfl, room_mono ?_ (Nat.le_refl _)⟩
  have hafter : State.units { state with
      point := .events rest
      waitingJobs := fd :: state.waitingJobs } other =
        (if other ∈ state.ready then 1 else 0) + rest.count other +
          (fd :: state.waitingJobs).count other := rfl
  rw [units_of_events hpoint, hafter, List.count_cons, List.count_cons]
  omega

theorem readingTask_new (fd other : ℕ) :
    readingTask other (some (Task.new fd)) = if fd = other then maxBuffer else 0 := by
  simp [readingTask, Task.new]

/-- An event or a waiting job of a client becomes a thread that reads from it. -/
theorem provided_new {state next : State size} (hstate : Provided state) {agent : Agent size}
    {fd : ℕ} (hidle : state.task agent = none)
    (hnext : next.task = Function.update state.task agent (some (Task.new fd)))
    (hclients : next.clients = state.clients) (hstream : next.stream = state.stream)
    (hunits : ∀ other, state.units other = next.units other + if fd = other then 1 else 0) :
    Provided next := by
  refine hstate.mono fun other hother ↦ ⟨hclients ▸ hother, by rw [hstream], ?_⟩
  have hreading := reading_update hnext other
  rw [hidle, readingTask_new] at hreading
  rw [State.room, State.room, hunits other]
  by_cases hne : fd = other
  · simp only [hne, ↓reduceIte, readingTask, Nat.mul_add, Nat.mul_one, Nat.add_zero] at hreading ⊢
    omega
  · simp only [hne, ↓reduceIte, readingTask, Nat.add_zero] at hreading ⊢
    omega

theorem provided_process {state : State size} (hstate : Provided state) (hserving : Serving state)
    {fd : ℕ} {rest : List ℕ} (hpoint : state.point = .events (fd :: rest)) :
    Provided { state.setTask Agent.main (Task.new fd) with point := .process rest } := by
  have hidle : state.task Agent.main = none := by
    refine Option.eq_none_iff_forall_not_mem.mpr fun task htask ↦ ?_
    obtain ⟨rest', hprocess⟩ := hserving task htask
    exact absurd (hpoint.symm.trans hprocess) (by simp)
  refine provided_new hstate hidle rfl rfl rfl fun other ↦ ?_
  have hafter : State.units { state.setTask Agent.main (Task.new fd) with point := .process rest }
      other = (if other ∈ state.ready then 1 else 0) + rest.count other +
        state.waitingJobs.count other := rfl
  rw [units_of_events hpoint, hafter, List.count_cons]
  simp only [beq_iff_eq]
  omega

theorem provided_takeJob {state : State size} (hstate : Provided state) {index : Fin size}
    {fd : ℕ} {waitingJobs : List ℕ} (hidle : state.task (some index) = none)
    (hjobs : state.waitingJobs = fd :: waitingJobs) :
    Provided { state.setTask (some index) (Task.new fd) with waitingJobs := waitingJobs } := by
  refine provided_new hstate hidle rfl rfl rfl fun other ↦ ?_
  have hbefore : state.units other = state.pending other + (fd :: waitingJobs).count other +
      (if state.point.unregistered = some other then 1 else 0) := by
    rw [State.units, hjobs]
  have hafter : State.units { state.setTask (some index) (Task.new fd) with
      waitingJobs := waitingJobs } other = state.pending other + waitingJobs.count other +
        (if state.point.unregistered = some other then 1 else 0) := rfl
  rw [hbefore, hafter, List.count_cons]
  simp only [beq_iff_eq]
  omega

theorem provided_recvDisconnect {state : State size} (hstate : Provided state)
    {agent : Agent size} {task : Task} (htask : state.task agent = some task)
    (hnothing : (state.stream task.fd).unread = 0) :
    Provided (state.setTask agent (task.recv .disconnect)) := by
  refine hstate.thread htask rfl (fun task' htask' ↦ ?_) (Finset.Subset.refl _)
    (fun _ _ ↦ Nat.le_refl _) (fun _ _ ↦ rfl) fun _ ↦ .inl hnothing
  rw [← Option.mem_some_iff.mp htask', Task.recv_fd]

theorem provided_recvError {state : State size} (hstate : Provided state) {agent : Agent size}
    {task : Task} {errno : ℕ} (htask : state.task agent = some task)
    (hpoint : task.point = .recv) :
    Provided (state.setTask agent (task.recv (.error errno))) := by
  refine hstate.thread htask rfl (fun task' htask' ↦ ?_) (Finset.Subset.refl _)
    (fun _ _ ↦ Nat.le_refl _) (fun _ _ ↦ rfl) fun _ ↦ .inr (Nat.le_of_eq ?_)
  · rw [← Option.mem_some_iff.mp htask', Task.recv_fd]
  · have hstill : readingTask task.fd (some (task.recv (.error errno))) = task.leftBytes :=
      readingTask_of_active rfl (.inr rfl)
    rw [readingTask_of_active rfl (.inl hpoint), hstill]
    rfl

/-- A thread behind `nRecv` reads nothing any more. -/
theorem provided_done {state next : State size} (hstate : Provided state) {agent : Agent size}
    {task : Task} {new : Option Task} (htask : state.task agent = some task)
    (hpoint : task.point = .returned ∨ task.point = .close)
    (hnext : next.task = Function.update state.task agent new)
    (hnew : ∀ task' ∈ new, task'.fd = task.fd) (hclients : next.clients ⊆ state.clients)
    (hunits : ∀ fd ∈ next.clients, state.units fd ≤ next.units fd)
    (hstream : next.stream = state.stream) : Provided next := by
  refine hstate.thread htask hnext hnew hclients hunits (fun _ _ ↦ by rw [hstream])
    fun _ ↦ .inr ?_
  rw [readingTask_of_done hpoint, hstream]
  exact Nat.le_add_right _ _

theorem provided_move {state next : State size} {event : Event size} (hstate : Provided state)
    (hwatched : Watched state) (hserving : Serving state) (hannounced : Announced state)
    (hevent : Undisturbed event) (hfits : Fits state event) (hmove : Move state event next) :
    Provided next := by
  have hpending : event ≠ .dispatch → ∀ fd ∈ state.clients,
      (∀ agent, ∀ task ∈ state.task agent, event = .close agent → task.fd ≠ fd) →
        state.pending fd ≤ next.pending fd := by
    intro hdispatch fd hfd hclosed
    refine pending_le_of_move hevent hmove (fun rest hpoint ↦ ⟨hdispatch, ?_⟩)
      fun agent task htask hclose _ ↦ hclosed agent task htask hclose
    rintro clientfd rfl
    cases hmove with
    | accept hpoint' hlisten | refused hpoint' hlisten =>
      rw [hpoint, Point.events.injEq, List.cons.injEq] at hpoint'
      exact hwatched.apart fd hfd (hpoint'.1 ▸ hlisten)
  cases hmove with
  | connect | arrivePending | writable =>
    refine hstate.mono fun fd hfd ↦ ⟨hfd, rfl, room_mono (units_mono ?_ rfl id) (Nat.le_refl _)⟩
    exact hpending (by simp) fd hfd (by simp)
  | wait hpoint | invalid hpoint | next hpoint =>
    refine hstate.mono fun fd hfd ↦ ⟨hfd, rfl, room_mono (units_mono ?_ rfl ?_) (Nat.le_refl _)⟩
    · exact hpending (by simp) fd hfd (by simp)
    · rw [hpoint]
      intro hnone
      cases hnone
  | count hpoint =>
    refine hstate.mono fun fd hfd ↦ ⟨hfd, rfl, room_mono (units_mono ?_ rfl ?_) (Nat.le_refl _)⟩
    · exact hpending (by simp) fd hfd (by simp)
    · rw [hpoint]
      exact id
  | arriveClient hopen hnext => exact provided_arriveClient hstate hfits hopen hnext
  | interrupted | refused => exact absurd hevent id
  | @accept fd clientfd rest stream _ hpoint hlisten hbacklog hclosed =>
    refine provided_accept hstate hwatched hpoint hlisten hclosed ?_
    exact hannounced.early fd stream (hbacklog ▸ List.mem_cons_self)
  | register hpoint => exact provided_register hstate hwatched hpoint
  | queueJob hpoint => exact provided_queueJob hstate hpoint
  | process hpoint => exact provided_process hstate hserving hpoint
  | takeJob hidle hjobs => exact provided_takeJob hstate hidle hjobs
  | recvData htask hpoint hopen hpossible => exact provided_recvData hstate htask hpoint hpossible
  | recvDisconnect htask hpoint hopen hpossible =>
    exact provided_recvDisconnect hstate htask hpossible.1
  | recvError htask hpoint => exact provided_recvError hstate htask hpoint
  | poll htask hpoint hpossible => exact provided_poll hstate hevent htask hpoint hpossible
  | @finish agent task htask hpoint =>
    refine provided_done hstate htask (.inl hpoint) rfl (by simp) (Finset.Subset.refl _)
      (fun fd hfd ↦ units_mono (hpending (by simp) fd hfd (by simp)) rfl ?_) rfl
    exact (unregistered_endTask state agent).trans
  | @decrement agent task htask hpoint =>
    refine provided_done hstate htask (.inl hpoint) rfl (fun task' htask' ↦ ?_)
      (Finset.Subset.refl _) (fun _ _ ↦ Nat.le_refl _) rfl
    rw [← Option.mem_some_iff.mp htask']
  | @close agent task htask hpoint hopen =>
    refine provided_done hstate htask (.inr hpoint) rfl (by simp) (Finset.erase_subset _ _)
      (fun fd hfd ↦ units_mono (hpending (by simp) fd (Finset.mem_of_mem_erase hfd) ?_) rfl ?_) rfl
    · intro agent' task' htask' hagent
      obtain rfl := Event.close.inj hagent
      rw [Option.mem_def, htask, Option.some.injEq] at htask'
      exact htask' ▸ (Finset.ne_of_mem_erase hfd).symm
    · exact (unregistered_endTask state agent).trans
  | @closeStray agent task htask hpoint hclosed =>
    refine provided_done hstate htask (.inr hpoint) rfl (by simp) (Finset.Subset.refl _)
      (fun fd hfd ↦ units_mono (hpending (by simp) fd hfd ?_) rfl ?_) rfl
    · intro agent' task' htask' hagent
      obtain rfl := Event.close.inj hagent
      rw [Option.mem_def, htask, Option.some.injEq] at htask'
      exact htask' ▸ (ne_of_mem_of_not_mem hfd hclosed).symm
    · exact (unregistered_endTask state agent).trans

/-! ### Whole runs -/

/-- What holds between two steps of an undisturbed run in which everything fits. -/
structure Covered (state : State size) : Prop where
  watched : Watched state
  serving : Serving state
  announced : Announced state
  provided : Provided state

theorem covered_move {state next : State size} {event : Event size} (hstate : Covered state)
    (hevent : Undisturbed event) (hfits : Fits state event) (hmove : Move state event next) :
    Covered next where
  watched := watched_move hstate.watched hmove
  serving := serving_move hstate.serving hmove
  announced := announced_move hstate.announced hstate.watched hevent hfits hmove
  provided := provided_move hstate.provided hstate.watched hstate.serving hstate.announced hevent
    hfits hmove

theorem covered_of_run {sockfds : List ℕ} {events : List (Event size)} {state : State size}
    (hevents : ∀ event ∈ events, Undisturbed event)
    (hfits : Along step Fits (State.start size sockfds) events)
    (hrun : run step (State.start size sockfds) events = some state) : Covered state := by
  have hundisturbed : Along step (fun _ event ↦ Undisturbed event) (State.start size sockfds)
      events := along_of_forall (fun event hevent _ ↦ hevents event hevent) _
  refine run_invariant_along (fun _ _ _ hstate hallowed hstep ↦
    covered_move hstate hallowed.1 hallowed.2 (move_of_step hstep)) ?_ (hundisturbed.and hfits) hrun
  exact ⟨watched_start sockfds, serving_start sockfds, announced_start sockfds,
    provided_start sockfds⟩

theorem State.Idle.pending_eq_zero {state : State size} (hidle : state.Idle) (fd : ℕ) :
    state.pending fd = 0 := by
  obtain ⟨hready, -, -, hpoint | hpoint⟩ := hidle <;>
    simp [State.pending, hready, hpoint, Point.batch]

theorem State.Idle.room_eq_zero {state : State size} (hidle : state.Idle) (fd : ℕ) :
    state.room fd = 0 := by
  have hpending := hidle.pending_eq_zero fd
  obtain ⟨-, hwaiting, htask, hpoint⟩ := hidle
  have hunregistered : state.point.unregistered ≠ some fd := by
    rcases hpoint with hpoint | hpoint <;> simp [hpoint, Point.unregistered]
  simp [State.room, State.units, State.reading, hpending, hwaiting, htask, hunregistered,
    readingTask]

/-- In every run without failing calls and hangups in which each connection is made while no event
of its listening socket is queued, and in which the data that arrives fits into what the outstanding
events and jobs of its client can read: whenever no event is queued or taken and no job waits or
runs, every backlog is empty and no client has unread bytes. -/
theorem nothing_left {sockfds : List ℕ} {events : List (Event size)} {state : State size}
    (hevents : ∀ event ∈ events, Undisturbed event)
    (hfits : Along step Fits (State.start size sockfds) events)
    (hrun : run step (State.start size sockfds) events = some state) (hidle : state.Idle) :
    (∀ fd ∈ state.sockfds, state.backlog fd = []) ∧
      ∀ fd ∈ state.clients, (state.stream fd).unread = 0 := by
  obtain ⟨-, -, hannounced, hprovided⟩ := covered_of_run hevents hfits hrun
  constructor
  · intro fd hfd
    have hlength := hannounced.events fd hfd
    rw [hidle.pending_eq_zero fd] at hlength
    exact List.length_eq_zero_iff.mp (Nat.le_zero.mp hlength)
  · intro fd hfd
    have hunread := hprovided fd hfd
    rw [hidle.room_eq_zero fd] at hunread
    exact Nat.le_zero.mp hunread

/-- The main thread accepts a connection and queues the job of its first event. -/
def acceptSchedule : List (Event maxThread) :=
  [.wait, .accept (some 104), .count, .register, .next, .wait, .dispatch, .next,
    .takeJob (workerAt 0)]

/-- A client that connects and sends 100 bytes at once, and 50 more when its job has read them. -/
def fittingSchedule : List (Event maxThread) :=
  List.flatten [[.connect 4, .arrive (.data 100) (.pending 4 0)], acceptSchedule,
    [.recv (agentAt 0) (.data 100), .arrive (.data 50) (.client 104), .recv (agentAt 0) (.data 28),
      .finish (agentAt 0), .wait, .dispatch, .next, .takeJob (workerAt 7),
      .recv (agentAt 7) (.data 22), .recv (agentAt 7) (.error eagain), .poll (agentAt 7) .timeout,
      .finish (agentAt 7)]]

theorem nothing_left_fittingSchedule :
    ∃ state, run step (State.start maxThread ports) fittingSchedule = some state ∧ state.Idle ∧
      state.clients = {104} ∧ ∀ fd ∈ state.clients, (state.stream fd).unread = 0 := by
  have hview : (run step (State.start maxThread ports) fittingSchedule).map (fun state ↦
      decide (state.Idle ∧ state.clients = {104})) = some true := by decide +kernel
  obtain ⟨state, hrun, hseen⟩ := exists_of_view hview
  obtain ⟨hidle, hclients⟩ := of_decide_eq_true hseen
  have hfits : Along step Fits (State.start maxThread ports) fittingSchedule := by
    decide +kernel
  exact ⟨state, hrun, hidle, hclients, (nothing_left (by decide +kernel) hfits hrun hidle).2⟩

/-- Two connections to one port before its event is taken; the job of the first finds nothing to
read. -/
def twoConnections : List (Event maxThread) :=
  List.flatten [[.connect 4, .connect 4], acceptSchedule,
    [.recv (agentAt 0) (.error eagain), .poll (agentAt 0) .timeout, .finish (agentAt 0)]]

/-- A client that sends 200 bytes at once. -/
def longMessage : List (Event maxThread) :=
  List.flatten [[.connect 4], acceptSchedule.take 5, [.arrive (.data 200) (.client 104)],
    acceptSchedule.drop 5, [.recv (agentAt 0) (.data 128), .finish (agentAt 0)]]

/-- The second connection stays in the backlog, and the bytes behind the first 128 stay unread,
although no event and no job is left. -/
theorem left_behind :
    (∃ state, run step (State.start maxThread ports) twoConnections = some state ∧ state.Idle ∧
        (state.backlog 4).length = 1) ∧
      ∃ state, run step (State.start maxThread ports) longMessage = some state ∧ state.Idle ∧
        104 ∈ state.clients ∧ (state.stream 104).unread = 72 := by
  constructor
  · have hview : (run step (State.start maxThread ports) twoConnections).map (fun state ↦
        decide (state.Idle ∧ (state.backlog 4).length = 1)) = some true := by decide +kernel
    obtain ⟨state, hrun, hseen⟩ := exists_of_view hview
    exact ⟨state, hrun, of_decide_eq_true hseen⟩
  · have hview : (run step (State.start maxThread ports) longMessage).map (fun state ↦
        decide (state.Idle ∧ 104 ∈ state.clients ∧ (state.stream 104).unread = 72)) =
          some true := by decide +kernel
    obtain ⟨state, hrun, hseen⟩ := exists_of_view hview
    exact ⟨state, hrun, of_decide_eq_true hseen⟩

end TestLinux.MulportServer
