import TestLinux.MulportServer.Model

/-!
# The count of connections

`curfds` is to be one more than the number of open clients: it goes up behind `accept` and down in
front of `close`. Two jobs for one client can both find the connection gone, since nothing tells a
job that another one has found it first; both then decrement and both close. Two threads are enough
for that, and with one client the count comes to zero and `epoll_wait` fails (`closed_twice`).

A thread is doomed when it is bound to decrement and close. As long as no thread becomes doomed
while another one is doomed for the same descriptor (`Alone`), the doomed threads have descriptors
of their own, all of them open (`Distinct`), the count is right up to the threads that are between
`accept` and `curfds ++` or between `curfds --` and `close` (`Balanced`), and no call of `close`
fails or closes a connection again (`Once`).
-/

set_option autoImplicit false
set_option relaxedAutoImplicit false

namespace TestLinux.MulportServer

open TestLinux.ReadyQueue TestLinux.Threads TestLinux.Runs

variable {size : ℕ}

/-! ### Doomed threads -/

/-- The thread is bound to decrement `curfds` and to close its descriptor, or has done the first. -/
def Task.doomed (task : Task) : Prop :=
  task.point = .close ∨
    task.point = .returned ∧ maxBuffer ≤ task.leftBytes ∧ task.retCode = enotconn

instance (task : Task) : Decidable task.doomed :=
  inferInstanceAs (Decidable (_ ∨ _ ∧ _ ∧ _))

/-- If the thread has read nothing, no other thread is doomed for the same descriptor. -/
def State.Alone (state : State size) (agent : Agent size) : Prop :=
  ∀ task ∈ state.task agent, maxBuffer ≤ task.leftBytes → ∀ other, other ≠ agent →
    ∀ task' ∈ state.task other, task'.fd = task.fd → ¬ task'.doomed

instance (state : State size) (agent : Agent size) : Decidable (state.Alone agent) :=
  inferInstanceAs (Decidable (∀ task ∈ state.task agent, _))

/-- When a thread learns that the connection is gone, it is alone with that. -/
def Single (state : State size) : Event size → Prop
  | .recv agent .disconnect => state.Alone agent
  | .poll agent (.ready true) => state.Alone agent
  | .poll agent (.error _ true) => state.Alone agent
  | _ => True

instance (state : State size) : (event : Event size) → Decidable (Single state event)
  | .recv agent .disconnect => inferInstanceAs (Decidable (state.Alone agent))
  | .poll agent (.ready true) => inferInstanceAs (Decidable (state.Alone agent))
  | .poll agent (.error _ true) => inferInstanceAs (Decidable (state.Alone agent))
  | .recv _ (.data _) | .recv _ (.error _) | .poll _ (.ready false) | .poll _ .timeout
  | .poll _ (.error _ false) | .connect _ | .arrive _ _ | .writable _ | .wait | .interrupted
  | .accept _ | .count | .register | .dispatch | .next | .takeJob _ | .finish _ | .close _ =>
    isTrue trivial

/-- The doomed threads have descriptors of their own, and these are open. -/
structure Distinct (state : State size) : Prop where
  opened : ∀ agent, ∀ task ∈ state.task agent, task.doomed → task.fd ∈ state.clients
  alone : ∀ agent other, agent ≠ other → ∀ task ∈ state.task agent, ∀ task' ∈ state.task other,
    task.doomed → task'.doomed → task.fd ≠ task'.fd

theorem distinct_start (sockfds : List ℕ) : Distinct (State.start size sockfds) where
  opened := fun _ _ htask ↦ absurd htask (by simp [State.start])
  alone := fun _ _ _ _ htask ↦ absurd htask (by simp [State.start])

/-- A step that does not move a thread and closes nothing. -/
theorem Distinct.congr {state next : State size} (hstate : Distinct state)
    (htask : next.task = state.task) (hclients : state.clients ⊆ next.clients) :
    Distinct next where
  opened := fun agent task hmem hdoomed ↦
    hclients (hstate.opened agent task (htask ▸ hmem) hdoomed)
  alone := fun agent other hne task hmem task' hmem' ↦
    hstate.alone agent other hne task (htask ▸ hmem) task' (htask ▸ hmem')

/-- A step of one thread. Assumes: if it is doomed then, its descriptor is open and no other
thread's, and the descriptors of the others stay open. -/
theorem Distinct.update {state next : State size} (hstate : Distinct state) {agent : Agent size}
    {new : Option Task} (htask : next.task = Function.update state.task agent new)
    (hnew : ∀ task ∈ new, task.doomed → task.fd ∈ next.clients ∧ ∀ other, other ≠ agent →
      ∀ task' ∈ state.task other, task'.doomed → task'.fd ≠ task.fd)
    (hothers : ∀ other, other ≠ agent → ∀ task' ∈ state.task other, task'.doomed →
      task'.fd ∈ next.clients) : Distinct next where
  opened := by
    intro other task hmem hdoomed
    rw [htask] at hmem
    by_cases hother : other = agent
    · rw [hother, Function.update_self] at hmem
      exact (hnew task hmem hdoomed).1
    · rw [Function.update_of_ne hother] at hmem
      exact hothers other hother task hmem hdoomed
  alone := by
    intro first second hne task hmem task' hmem' hdoomed hdoomed'
    rw [htask] at hmem hmem'
    by_cases hfirst : first = agent
    · have hsecond : second ≠ agent := fun heq ↦ hne (hfirst.trans heq.symm)
      rw [hfirst, Function.update_self] at hmem
      rw [Function.update_of_ne hsecond] at hmem'
      exact ((hnew task hmem hdoomed).2 second hsecond task' hmem' hdoomed').symm
    · rw [Function.update_of_ne hfirst] at hmem
      by_cases hsecond : second = agent
      · rw [hsecond, Function.update_self] at hmem'
        exact (hnew task' hmem' hdoomed').2 first hfirst task hmem hdoomed
      · rw [Function.update_of_ne hsecond] at hmem'
        exact hstate.alone first second hne task hmem task' hmem' hdoomed hdoomed'

/-- A step of one thread that is not doomed then, and that closes nothing. -/
theorem Distinct.spared {state next : State size} (hstate : Distinct state) {agent : Agent size}
    {new : Option Task} (htask : next.task = Function.update state.task agent new)
    (hclients : next.clients = state.clients) (hnew : ∀ task ∈ new, ¬ task.doomed) :
    Distinct next :=
  hstate.update htask (fun task hmem hdoomed ↦ absurd hdoomed (hnew task hmem))
    fun other _ task' hmem' hdoomed ↦ hclients ▸ hstate.opened other task' hmem' hdoomed

theorem Task.new_not_doomed (fd : ℕ) : ¬ (Task.new fd).doomed := by
  simp [Task.new, Task.doomed]

theorem Task.not_doomed_recvData (task : Task) (count : ℕ) :
    ¬ (task.recv (.data count)).doomed := by
  by_cases hleft : 0 < task.leftBytes - count
  · simp [Task.recv, Task.doomed, hleft]
  · simp only [Task.recv, hleft, Task.doomed, ↓reduceIte, maxBuffer]
    rintro (hpoint | ⟨-, hnothing, -⟩)
    · cases hpoint
    · omega

theorem Task.not_doomed_recvError (task : Task) (errno : ℕ) :
    ¬ (task.recv (.error errno)).doomed := by
  simp [Task.recv, Task.doomed]

/-- `POLLHUP` is set. -/
def PollAnswer.hangup : PollAnswer → Bool
  | .ready hangup => hangup
  | .timeout => false
  | .error _ hangup => hangup

theorem Task.not_doomed_poll (task : Task) {answer : PollAnswer}
    (hanswer : answer.hangup = false) : ¬ (task.poll answer).doomed := by
  cases answer with
  | timeout => simp [Task.poll, Task.doomed, etimedout, enotconn]
  | ready hangup | error errno hangup =>
    obtain rfl : hangup = false := hanswer
    simp [Task.poll, Task.doomed]

theorem Task.poll_of_hangup (task : Task) {answer : PollAnswer} (hanswer : answer.hangup = true) :
    task.poll answer = { task with retCode := enotconn, point := .returned } := by
  cases answer with
  | timeout => cases hanswer
  | ready hangup | error errno hangup =>
    obtain rfl : hangup = true := hanswer
    rfl

theorem Single.alone_of_hangup {state : State size} {agent : Agent size} {answer : PollAnswer}
    (hsingle : Single state (.poll agent answer)) (hanswer : answer.hangup = true) :
    state.Alone agent := by
  cases answer with
  | timeout => cases hanswer
  | ready hangup | error errno hangup =>
    obtain rfl : hangup = true := hanswer
    exact hsingle

/-- A thread learns that its connection, which is open, is gone. -/
theorem distinct_doom {state : State size} (hstate : Distinct state) {agent : Agent size}
    {task : Task} (htask : state.task agent = some task) (halone : state.Alone agent)
    (hopen : task.fd ∈ state.clients) :
    Distinct (state.setTask agent { task with retCode := enotconn, point := .returned }) := by
  refine hstate.update rfl ?_ fun other _ task' hmem' hdoomed ↦
    hstate.opened other task' hmem' hdoomed
  intro new hnew hdoomed
  obtain rfl := Option.mem_some_iff.mp hnew
  refine ⟨hopen, fun other hother task' hmem' hdoomed' heq ↦ ?_⟩
  have hnothing : maxBuffer ≤ task.leftBytes := by simpa [Task.doomed] using hdoomed
  exact halone task htask hnothing other hother task' hmem' heq hdoomed'

theorem distinct_decrement {state : State size} (hstate : Distinct state) {agent : Agent size}
    {task : Task} (htask : state.task agent = some task) (hdoomed : task.doomed) :
    Distinct { state.setTask agent { task with point := .close } with
      curfds := state.curfds - 1 } := by
  refine hstate.update rfl ?_ fun other _ task' hmem' hdoomed' ↦
    hstate.opened other task' hmem' hdoomed'
  intro new hnew _
  obtain rfl := Option.mem_some_iff.mp hnew
  exact ⟨hstate.opened agent task htask hdoomed, fun other hother task' hmem' hdoomed' ↦
    hstate.alone other agent hother task' hmem' task htask hdoomed' hdoomed⟩

theorem distinct_close {state : State size} (hstate : Distinct state) {agent : Agent size}
    {task : Task} (htask : state.task agent = some task) (hpoint : task.point = .close)
    {next : State size} (hnext : next.task = Function.update state.task agent none)
    (hclients : next.clients = state.clients.erase task.fd) : Distinct next := by
  refine hstate.update hnext (fun new hnew ↦ absurd hnew (by simp)) ?_
  intro other hother task' hmem' hdoomed'
  rw [hclients]
  exact Finset.mem_erase.mpr ⟨hstate.alone other agent hother task' hmem' task htask hdoomed'
    (.inl hpoint), hstate.opened other task' hmem' hdoomed'⟩

theorem distinct_move {state next : State size} {event : Event size} (hstate : Distinct state)
    (hsingle : Single state event) (hmove : Move state event next) : Distinct next := by
  cases hmove with
  | connect | arrivePending | arriveClient | writable | wait | invalid | interrupted | refused
  | count | register | queueJob | next => exact hstate.congr rfl (Finset.Subset.refl _)
  | accept => exact hstate.congr rfl (Finset.subset_insert _ _)
  | process | takeJob =>
    refine hstate.spared rfl rfl fun task hmem ↦ ?_
    obtain rfl := Option.mem_some_iff.mp hmem
    exact Task.new_not_doomed _
  | @recvData agent task count =>
    refine hstate.spared rfl rfl fun new hmem ↦ ?_
    obtain rfl := Option.mem_some_iff.mp hmem
    exact task.not_doomed_recvData count
  | @recvError agent task errno =>
    refine hstate.spared rfl rfl fun new hmem ↦ ?_
    obtain rfl := Option.mem_some_iff.mp hmem
    exact task.not_doomed_recvError errno
  | recvDisconnect htask hpoint hopen => exact distinct_doom hstate htask hsingle hopen
  | @poll agent task answer htask hpoint hpossible =>
    cases hanswer : answer.hangup with
    | true =>
      rw [task.poll_of_hangup hanswer]
      refine distinct_doom hstate htask (hsingle.alone_of_hangup hanswer) ?_
      rcases hpossible with ⟨hopen, -⟩ | ⟨-, rfl⟩
      · exact hopen
      · cases hanswer
    | false =>
      refine hstate.spared rfl rfl fun new hmem ↦ ?_
      obtain rfl := Option.mem_some_iff.mp hmem
      exact task.not_doomed_poll hanswer
  | finish => exact hstate.spared rfl rfl fun new hmem ↦ absurd hmem (by simp)
  | decrement htask hpoint hnothing hcode =>
    exact distinct_decrement hstate htask (.inr ⟨hpoint, hnothing, hcode⟩)
  | close htask hpoint hopen => exact distinct_close hstate htask hpoint rfl rfl
  | closeStray htask hpoint hclosed =>
    exact absurd (hstate.opened _ _ htask (.inl hpoint)) hclosed

/-! ### The balance -/

/-- The thread is between `curfds --` and `close`. -/
def closingTask (task : Option Task) : Prop := task.map Task.point = some .close

instance : DecidablePred closingTask := fun _ ↦ inferInstanceAs (Decidable (_ = _))

/-- The number of threads between `curfds --` and `close`. -/
def State.closing (state : State size) : ℕ := population closingTask state.task

/-- One if the main thread is between `accept` and `curfds ++`. -/
def Point.counting : Point → ℕ
  | .count _ _ => 1
  | _ => 0

/-- The count is one more than the number of open clients, up to the threads that have changed one
of the two and not yet the other. -/
def Balanced (state : State size) : Prop :=
  state.curfds + state.closing + state.point.counting = 1 + state.clients.card

theorem balanced_start (sockfds : List ℕ) : Balanced (State.start size sockfds) := by
  simp [Balanced, State.start, State.closing, population, closingTask, Point.counting]

theorem Balanced.congr {state next : State size} (hstate : Balanced state)
    (hcurfds : next.curfds = state.curfds) (hclosing : next.closing = state.closing)
    (hcounting : next.point.counting = state.point.counting)
    (hclients : next.clients = state.clients) : Balanced next := by
  rw [Balanced, hcurfds, hclosing, hcounting, hclients]
  exact hstate

theorem closing_update {state next : State size} {agent : Agent size} {new : Option Task}
    (htask : next.task = Function.update state.task agent new) :
    next.closing + (if closingTask (state.task agent) then 1 else 0) =
      state.closing + (if closingTask new then 1 else 0) := by
  rw [State.closing, htask]
  exact population_update_add closingTask state.task agent new

/-- A thread moves on outside the section between `curfds --` and `close`. -/
theorem closing_eq {state next : State size} {agent : Agent size} {new : Option Task}
    (htask : next.task = Function.update state.task agent new)
    (hold : ¬ closingTask (state.task agent)) (hnew : ¬ closingTask new) :
    next.closing = state.closing := by
  have hsum := closing_update htask
  rw [if_neg hold, if_neg hnew] at hsum
  exact hsum

theorem not_closingTask {task : Option Task} (hpoint : ∀ t ∈ task, t.point ≠ .close) :
    ¬ closingTask task := by
  intro hclosing
  obtain ⟨t, ht, hclose⟩ := Option.map_eq_some_iff.mp hclosing
  exact hpoint t ht hclose

theorem not_closingTask_of_eq {state : State size} {agent : Agent size} {task : Task}
    (htask : state.task agent = some task) (hpoint : task.point ≠ .close) :
    ¬ closingTask (state.task agent) := by
  refine not_closingTask fun t ht ↦ ?_
  rw [htask] at ht
  exact Option.mem_some_iff.mp ht ▸ hpoint

theorem counting_endTask (state : State size) (agent : Agent size) :
    (state.endTask agent).point.counting = state.point.counting := by
  cases agent with
  | some index => rfl
  | none => cases hpoint : state.point <;> simp [State.endTask, hpoint, Point.counting]

theorem Task.recv_point_ne_close (task : Task) (answer : RecvAnswer) :
    (task.recv answer).point ≠ .close := by
  cases answer with
  | data count =>
    simp only [Task.recv]
    split_ifs <;> simp
  | disconnect | error => simp [Task.recv]

theorem Task.poll_point_ne_close (task : Task) (answer : PollAnswer) :
    (task.poll answer).point ≠ .close := by
  cases answer with
  | timeout => simp [Task.poll]
  | ready hangup | error errno hangup => cases hangup <;> simp [Task.poll]

/-- A thread moves on outside the section between `curfds --` and `close`, and the count and the
clients stay. -/
theorem Balanced.setTask {state next : State size} (hstate : Balanced state) {agent : Agent size}
    {new : Task} (htask : next.task = Function.update state.task agent (some new))
    (hold : ¬ closingTask (state.task agent)) (hnew : new.point ≠ .close)
    (hcurfds : next.curfds = state.curfds)
    (hcounting : next.point.counting = state.point.counting)
    (hclients : next.clients = state.clients) : Balanced next := by
  refine hstate.congr hcurfds (closing_eq htask hold ?_) hcounting hclients
  exact not_closingTask fun t ht ↦ Option.mem_some_iff.mp ht ▸ hnew

/-- A thread decrements the count and is about to close. -/
theorem balanced_decrement {state : State size} (hstate : Balanced state) {agent : Agent size}
    {task : Task} (htask : state.task agent = some task) (hpoint : task.point = .returned) :
    Balanced { state.setTask agent { task with point := .close } with
      curfds := state.curfds - 1 } := by
  have hsum : (state.setTask agent { task with point := .close }).closing +
      (if closingTask (state.task agent) then 1 else 0) =
        state.closing + (if closingTask (some { task with point := .close }) then 1 else 0) :=
    closing_update rfl
  rw [if_neg (not_closingTask_of_eq htask (by simp [hpoint])), if_pos (by simp [closingTask])]
    at hsum
  have hold : state.curfds + state.closing + state.point.counting = 1 + state.clients.card :=
    hstate
  change state.curfds - 1 +
    ((state.setTask agent { task with point := .close }).closing : ℤ) + state.point.counting =
      1 + (state.clients.card : ℤ)
  omega

/-- A thread closes its descriptor, which is open. -/
theorem balanced_close {state next : State size} (hstate : Balanced state) {agent : Agent size}
    {task : Task} (htask : state.task agent = some task) (hpoint : task.point = .close)
    (hopen : task.fd ∈ state.clients)
    (hnext : next.task = Function.update state.task agent none)
    (hcurfds : next.curfds = state.curfds)
    (hcounting : next.point.counting = state.point.counting)
    (hclients : next.clients = state.clients.erase task.fd) : Balanced next := by
  have hsum := closing_update hnext
  rw [htask, if_pos (by simp [closingTask, hpoint]), if_neg (by simp [closingTask])] at hsum
  have hold : state.curfds + state.closing + state.point.counting = 1 + state.clients.card :=
    hstate
  have hcard : (state.clients.erase task.fd).card + 1 = state.clients.card :=
    Finset.card_erase_add_one hopen
  rw [Balanced, hcurfds, hcounting, hclients]
  omega

theorem balanced_move {state next : State size} {event : Event size} (hstate : Balanced state)
    (hdistinct : Distinct state) (hserving : Serving state) (hmove : Move state event next) :
    Balanced next := by
  cases hmove with
  | connect | arrivePending | arriveClient | writable => exact hstate.congr rfl rfl rfl rfl
  | wait hpoint | invalid hpoint | interrupted hpoint | refused hpoint | register hpoint
  | queueJob hpoint | next hpoint =>
    refine hstate.congr rfl rfl ?_ rfl
    rw [hpoint]
    rfl
  | @accept fd clientfd rest stream pending hpoint hlisten hbacklog hclosed =>
    have hcounting : state.point.counting = 0 := by rw [hpoint]; rfl
    have hold : state.curfds + state.closing + state.point.counting = 1 + state.clients.card :=
      hstate
    change state.curfds + (state.closing : ℤ) + (1 : ℕ) =
      1 + ((insert clientfd state.clients).card : ℤ)
    rw [Finset.card_insert_of_notMem hclosed]
    push_cast
    omega
  | count hpoint =>
    have hcounting : state.point.counting = 1 := by rw [hpoint]; rfl
    have hold : state.curfds + state.closing + state.point.counting = 1 + state.clients.card :=
      hstate
    change state.curfds + 1 + (state.closing : ℤ) + (0 : ℕ) = 1 + (state.clients.card : ℤ)
    omega
  | process hpoint =>
    refine hstate.setTask rfl ?_ (by simp [Task.new]) rfl ?_ rfl
    · refine not_closingTask fun task htask ↦ ?_
      obtain ⟨rest, hprocess⟩ := hserving task htask
      exact absurd (hpoint.symm.trans hprocess) (by simp)
    · rw [hpoint]
      rfl
  | takeJob hidle =>
    refine hstate.setTask rfl ?_ (by simp [Task.new]) rfl rfl rfl
    rw [hidle]
    simp [closingTask]
  | @recvData agent task count htask hpoint =>
    exact hstate.setTask rfl (not_closingTask_of_eq htask (by simp [hpoint]))
      (task.recv_point_ne_close _) rfl rfl rfl
  | @recvDisconnect agent task htask hpoint =>
    exact hstate.setTask rfl (not_closingTask_of_eq htask (by simp [hpoint]))
      (task.recv_point_ne_close _) rfl rfl rfl
  | @recvError agent task errno htask hpoint =>
    exact hstate.setTask rfl (not_closingTask_of_eq htask (by simp [hpoint]))
      (task.recv_point_ne_close _) rfl rfl rfl
  | @poll agent task answer htask hpoint =>
    exact hstate.setTask rfl (not_closingTask_of_eq htask (by simp [hpoint]))
      (task.poll_point_ne_close _) rfl rfl rfl
  | @finish agent task htask hpoint =>
    refine hstate.congr rfl ?_ (counting_endTask state agent) rfl
    exact closing_eq rfl (not_closingTask_of_eq htask (by simp [hpoint])) (by simp [closingTask])
  | decrement htask hpoint => exact balanced_decrement hstate htask hpoint
  | @close agent task htask hpoint hopen =>
    exact balanced_close hstate htask hpoint hopen rfl rfl (counting_endTask state agent) rfl
  | closeStray htask hpoint hclosed =>
    exact absurd (hdistinct.opened _ _ htask (.inl hpoint)) hclosed

theorem closing_le_card {state : State size} (hstate : Distinct state) :
    state.closing ≤ state.clients.card := by
  rw [State.closing, population, ← Finset.card_filter]
  refine Finset.card_le_card_of_injOn (fun agent ↦ ((state.task agent).map Task.fd).getD 0) ?_ ?_
  · intro agent hagent
    obtain ⟨task, htask, hpoint⟩ := Option.map_eq_some_iff.mp (Finset.mem_filter.mp hagent).2
    simp only [htask, Option.map_some, Option.getD_some]
    exact hstate.opened agent task htask (.inl hpoint)
  · intro agent hagent other hother hfd
    obtain ⟨task, htask, hpoint⟩ := Option.map_eq_some_iff.mp (Finset.mem_filter.mp hagent).2
    obtain ⟨task', htask', hpoint'⟩ := Option.map_eq_some_iff.mp (Finset.mem_filter.mp hother).2
    simp only [htask, htask', Option.map_some, Option.getD_some] at hfd
    by_contra hne
    exact hstate.alone agent other hne task htask task' htask' (.inl hpoint) (.inl hpoint') hfd

/-! ### The calls of `close` -/

/-- Every call of `close` has closed a connection, and no connection was closed twice. -/
structure Once (state : State size) : Prop where
  stray : none ∉ state.closes
  nodup : state.closes.Nodup
  closed : ∀ connection, some connection ∈ state.closes → connection < state.accepted
  opened : ∀ fd ∈ state.clients, state.connection fd < state.accepted
  fresh : ∀ fd ∈ state.clients, some (state.connection fd) ∉ state.closes
  apart : ∀ fd ∈ state.clients, ∀ other ∈ state.clients,
    state.connection fd = state.connection other → fd = other

theorem once_start (sockfds : List ℕ) : Once (State.start size sockfds) := by
  constructor <;> simp [State.start]

theorem Once.congr {state next : State size} (hstate : Once state)
    (hclients : next.clients = state.clients) (haccepted : next.accepted = state.accepted)
    (hconnection : next.connection = state.connection) (hcloses : next.closes = state.closes) :
    Once next := by
  obtain ⟨hstray, hnodup, hclosed, hopened, hfresh, hapart⟩ := hstate
  constructor
  · rw [hcloses]
    exact hstray
  · rw [hcloses]
    exact hnodup
  · rw [hcloses, haccepted]
    exact hclosed
  · rw [hclients, hconnection, haccepted]
    exact hopened
  · rw [hclients, hconnection, hcloses]
    exact hfresh
  · rw [hclients, hconnection]
    exact hapart

theorem once_accept {state : State size} (hstate : Once state) {fd clientfd : ℕ}
    {rest : List ℕ} (stream : Stream) (hclosed : clientfd ∉ state.clients) :
    Once (state.accept fd clientfd stream rest) := by
  have hold : ∀ other ∈ state.clients,
      (state.accept fd clientfd stream rest).connection other = state.connection other :=
    fun other hother ↦ Function.update_of_ne (ne_of_mem_of_not_mem hother hclosed) _ _
  have hnew : (state.accept fd clientfd stream rest).connection clientfd = state.accepted :=
    Function.update_self clientfd _ _
  refine ⟨hstate.stray, hstate.nodup, fun connection hmem ↦ ?_, fun other hother ↦ ?_,
    fun other hother ↦ ?_, fun first hfirst second hsecond heq ↦ ?_⟩
  · exact Nat.lt_succ_of_lt (hstate.closed connection hmem)
  · rcases Finset.mem_insert.mp hother with rfl | hmem
    · rw [hnew]
      exact Nat.lt_succ_self _
    · rw [hold other hmem]
      exact Nat.lt_succ_of_lt (hstate.opened other hmem)
  · rcases Finset.mem_insert.mp hother with rfl | hmem
    · rw [hnew]
      exact fun hclosed ↦ Nat.lt_irrefl _ (hstate.closed _ hclosed)
    · rw [hold other hmem]
      exact hstate.fresh other hmem
  · rcases Finset.mem_insert.mp hfirst with rfl | hmem
    · rcases Finset.mem_insert.mp hsecond with rfl | hmem'
      · rfl
      · rw [hnew, hold second hmem'] at heq
        exact absurd heq.symm (hstate.opened second hmem').ne
    · rcases Finset.mem_insert.mp hsecond with rfl | hmem'
      · rw [hnew, hold first hmem] at heq
        exact absurd heq (hstate.opened first hmem).ne
      · rw [hold first hmem, hold second hmem'] at heq
        exact hstate.apart first hmem second hmem' heq

theorem once_close {state next : State size} (hstate : Once state) {fd : ℕ}
    (hopen : fd ∈ state.clients) (hclients : next.clients = state.clients.erase fd)
    (haccepted : next.accepted = state.accepted) (hconnection : next.connection = state.connection)
    (hcloses : next.closes = state.closes ++ [some (state.connection fd)]) : Once next := by
  refine ⟨?_, ?_, fun connection hmem ↦ ?_, fun other hother ↦ ?_, fun other hother ↦ ?_,
    fun first hfirst second hsecond heq ↦ ?_⟩
  · simpa [hcloses] using hstate.stray
  · rw [hcloses, ← List.concat_eq_append]
    exact (List.nodup_concat _ _).mpr ⟨hstate.fresh fd hopen, hstate.nodup⟩
  · rw [hcloses, List.mem_append, List.mem_singleton] at hmem
    rw [haccepted]
    rcases hmem with hmem | heq
    · exact hstate.closed connection hmem
    · rw [Option.some.inj heq]
      exact hstate.opened fd hopen
  · rw [hclients] at hother
    rw [hconnection, haccepted]
    exact hstate.opened other (Finset.mem_of_mem_erase hother)
  · rw [hclients] at hother
    obtain ⟨hne, hmem⟩ := Finset.mem_erase.mp hother
    rw [hconnection, hcloses, List.mem_append, List.mem_singleton, Option.some.injEq]
    rintro (hclosed | heq)
    · exact hstate.fresh other hmem hclosed
    · exact hne (hstate.apart other hmem fd hopen heq)
  · rw [hclients] at hfirst hsecond
    rw [hconnection] at heq
    exact hstate.apart first (Finset.mem_of_mem_erase hfirst) second
      (Finset.mem_of_mem_erase hsecond) heq

theorem once_move {state next : State size} {event : Event size} (hstate : Once state)
    (hdistinct : Distinct state) (hmove : Move state event next) : Once next := by
  cases hmove with
  | connect | arrivePending | arriveClient | writable | wait | invalid | interrupted | refused
  | count | register | queueJob | process | next | takeJob | recvData | recvDisconnect | recvError
  | poll | finish | decrement => exact hstate.congr rfl rfl rfl rfl
  | accept hpoint hlisten hbacklog hclosed => exact once_accept hstate _ hclosed
  | close htask hpoint hopen => exact once_close hstate hopen rfl rfl rfl rfl
  | closeStray htask hpoint hclosed =>
    exact absurd (hdistinct.opened _ _ htask (.inl hpoint)) hclosed

/-! ### Whole runs -/

/-- What holds as long as no two threads are doomed for one descriptor. -/
structure Accounted (state : State size) : Prop where
  distinct : Distinct state
  serving : Serving state
  balanced : Balanced state
  once : Once state

theorem accounted_move {state next : State size} {event : Event size} (hstate : Accounted state)
    (hsingle : Single state event) (hmove : Move state event next) : Accounted next where
  distinct := distinct_move hstate.distinct hsingle hmove
  serving := serving_move hstate.serving hmove
  balanced := balanced_move hstate.balanced hstate.distinct hstate.serving hmove
  once := once_move hstate.once hstate.distinct hmove

theorem accounted_of_run {sockfds : List ℕ} {events : List (Event size)} {state : State size}
    (halong : Along step Single (State.start size sockfds) events)
    (hrun : run step (State.start size sockfds) events = some state) : Accounted state :=
  run_invariant_along (fun _ _ _ hstate hsingle hstep ↦
      accounted_move hstate hsingle (move_of_step hstep))
    ⟨distinct_start sockfds, serving_start sockfds, balanced_start sockfds, once_start sockfds⟩
    halong hrun

/-- In every run in which no thread learns that a connection is gone, having read nothing, while
another thread is already bound to close the same descriptor: the count is one more than the number
of open clients, up to the threads between `accept` and `curfds ++` and those between `curfds --`
and `close`; every call of `close` has closed a connection and none was closed twice; and
`epoll_wait` is called with a positive number of events. -/
theorem connections_accounted {sockfds : List ℕ} {events : List (Event size)} {state : State size}
    (halong : Along step Single (State.start size sockfds) events)
    (hrun : run step (State.start size sockfds) events = some state) :
    state.curfds + state.closing + state.point.counting = 1 + state.clients.card ∧
      (none ∉ state.closes ∧ state.closes.Nodup) ∧
      (state.point = .wait → 0 < state.curfds) := by
  obtain ⟨hdistinct, -, hbalanced, honce⟩ := accounted_of_run halong hrun
  refine ⟨hbalanced, ⟨honce.stray, honce.nodup⟩, fun hpoint ↦ ?_⟩
  have hcounting : state.point.counting = 0 := by rw [hpoint]; rfl
  have hclosing := closing_le_card hdistinct
  rw [Balanced] at hbalanced
  omega

/-- A client connects and gets descriptor 104; a worker takes the job for its first event and finds
nothing to read. -/
def connectSchedule : List (Event maxThread) :=
  [.connect 4, .wait, .accept (some 104), .count, .register, .next, .wait, .dispatch,
    .takeJob (workerAt 0), .recv (agentAt 0) (.error eagain)]

/-- The client leaves. The worker sees it and closes the socket. -/
def leaveSchedule : List (Event maxThread) :=
  List.flatten [connectSchedule, [.arrive .fin (.client 104), .poll (agentAt 0) (.ready false),
    .recv (agentAt 0) .disconnect, .finish (agentAt 0), .close (agentAt 0), .next, .wait]]

theorem connections_accounted_leaveSchedule :
    ∃ state, run step (State.start maxThread ports) leaveSchedule = some state ∧
      (state.curfds, state.clients, state.closes) = (1, ∅, [some 0]) ∧
      state.curfds + state.closing + state.point.counting = 1 + state.clients.card := by
  have hview : (run step (State.start maxThread ports) leaveSchedule).map (fun state ↦
      (state.curfds, state.clients, state.closes)) = some (1, ∅, [some 0]) := by decide +kernel
  obtain ⟨state, hrun, hseen⟩ := exists_of_view hview
  have halong : Along step Single (State.start maxThread ports) leaveSchedule := by
    decide +kernel
  exact ⟨state, hrun, hseen, (connections_accounted halong hrun).1⟩

/-- The client leaves, and its second event is taken while the first worker is still in `poll`. Both
workers find the connection gone. -/
def hangupSchedule : List (Event maxThread) :=
  List.flatten [connectSchedule, [.arrive .fin (.client 104), .next, .wait, .dispatch,
    .takeJob (workerAt 1), .recv (agentAt 1) .disconnect, .poll (agentAt 0) (.ready false),
    .recv (agentAt 0) .disconnect, .finish (agentAt 0), .close (agentAt 0), .finish (agentAt 1),
    .close (agentAt 1), .next]]

/-- One connection was accepted and is closed, the second call of `close` has failed, and the count
is zero: `epoll_wait` fails and the server stops. -/
theorem closed_twice :
    ∃ state, run step (State.start maxThread ports) hangupSchedule = some state ∧
      (state.point, state.curfds, state.clients, state.closes) =
        (.wait, 0, ∅, [some 0, none]) ∧
      (∀ agent, state.task agent = none) ∧
      (step state .wait).map State.point = some .stopped := by
  have hview : (run step (State.start maxThread ports) hangupSchedule).map (fun state ↦
      decide ((state.point, state.curfds, state.clients, state.closes) =
          (.wait, 0, ∅, [some 0, none]) ∧
        (∀ agent, state.task agent = none) ∧
        (step state .wait).map State.point = some .stopped)) = some true := by decide +kernel
  obtain ⟨state, hrun, hseen⟩ := exists_of_view hview
  exact ⟨state, hrun, of_decide_eq_true hseen⟩

end TestLinux.MulportServer
