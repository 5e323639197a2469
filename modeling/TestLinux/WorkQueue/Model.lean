import TestLinux.Library.LinkedList
import TestLinux.Library.Threads
import Mathlib.Data.Fintype.Basic

/-!
# The work queue of `2.3.1-coroutine/server_mulport_epoll.c`

A `workqueue_t` has a list `waiting_jobs` of jobs behind `jobs_mutex`, the condition variable
`jobs_cond`, and `size` workers that run `worker_function`. Every call of `workqueue_add_job` is a
thread of its own, named by its job, and one thread runs `workqueue_shutdown`. A job is an object:
its address is handed out by `malloc`, which may hand out the address of a job that has been freed,
and its node in the heap holds its name. The run of a job ends with `free`, as that of `client_job`
does.

Each lock, unlock, wait, signal and broadcast is a step of its own, and so is each write and each
test of a `terminate` flag, which is not under the mutex, and what is done to the list in between.
The workers are visited by `workqueue_shutdown` from the last to the first, since each was added at
the front of the list of workers; that a worker may be freed while its `next` is still to be read is
not modelled.

`added` and `taken` record history: the jobs in the order of their `LL_ADD`, and the jobs that were
taken out with the worker that did. No step reads them.
-/

set_option autoImplicit false
set_option relaxedAutoImplicit false

namespace TestLinux.WorkQueue

open TestLinux.LinkedList TestLinux.Threads

/-! ### The macros -/

section Macros

variable {α : Type*}

/-- `LL_ADD`: the item points to the old front, which is left as it is. -/
def llAdd (heap : Heap α) (item : ℕ) (list : Option ℕ) : Option (Heap α × Option ℕ) :=
  (heap.setPrev item none).bind fun heap ↦
    (heap.setNext item list).map fun heap ↦ (heap, some item)

/-- `LL_REMOVE`. -/
def llRemove (heap : Heap α) (item : ℕ) (list : Option ℕ) : Option (Heap α × Option ℕ) :=
  (heap.get item).bind fun node ↦
    (heap.linkNext node.prev node.next).bind fun heap ↦
      (heap.get item).bind fun node ↦
        (heap.linkPrev node.next node.prev).bind fun heap ↦
          (heap.get item).map fun node ↦
            (heap.set item { node with prev := none, next := none },
              if list = some item then node.next else list)

end Macros

/-! ### Threads -/

/-- The program points of a worker. From `test` to `unlock` it owns the mutex, and so it does when
it has left its loop. -/
inductive WorkerPoint
  | lock
  | test
  | checkInner
  | sleep
  | waiting (phase : Sleep)
  | checkOuter
  | take
  | unlock (job : Option ℕ)
  | run (job : ℕ)
  | left
  deriving DecidableEq

/-- The program points of a call of `workqueue_add_job`, with the address of the job. -/
inductive CallerPoint
  | idle
  | lock (addr : ℕ)
  | add (addr : ℕ)
  | signal
  | unlock
  | returned
  deriving DecidableEq

/-- The program points of `workqueue_shutdown`; `flag visited` has visited that many workers. -/
inductive ShutdownPoint
  | idle
  | flag (visited : ℕ)
  | lock
  | clear
  | broadcast
  | unlock
  | returned
  deriving DecidableEq

/-- The threads that take the mutex. -/
inductive Agent (size : ℕ) (Job : Type*)
  | worker (index : Fin size)
  | caller (job : Job)
  | shutdown
  deriving DecidableEq

/-- The work queue, the program points of all threads, and the history. -/
structure State (size : ℕ) (Job : Type*) where
  jobsMutex : Option (Agent size Job)
  waitingJobs : Option ℕ
  heap : Heap Job
  terminate : Fin size → Bool
  worker : Fin size → WorkerPoint
  caller : Job → CallerPoint
  shutdown : ShutdownPoint
  added : List Job
  taken : List (Job × Fin size)

/-- Behind `workqueue_init`. -/
def start (size : ℕ) (Job : Type*) : State size Job where
  jobsMutex := none
  waitingJobs := none
  heap := .empty
  terminate := fun _ ↦ false
  worker := fun _ ↦ .lock
  caller := fun _ ↦ .idle
  shutdown := .idle
  added := []
  taken := []

variable {size : ℕ} {Job : Type*}

/-- The state with one worker at another program point. -/
def State.setWorker (state : State size Job) (index : Fin size) (point : WorkerPoint) :
    State size Job :=
  { state with worker := Function.update state.worker index point }

@[simp] theorem setWorker_worker (state : State size Job) (index : Fin size)
    (point : WorkerPoint) :
    (state.setWorker index point).worker = Function.update state.worker index point := rfl

variable [DecidableEq Job]

/-- The state with one call at another program point. -/
def State.setCaller (state : State size Job) (job : Job) (point : CallerPoint) : State size Job :=
  { state with caller := Function.update state.caller job point }

@[simp] theorem setCaller_caller (state : State size Job) (job : Job) (point : CallerPoint) :
    (state.setCaller job point).caller = Function.update state.caller job point := rfl

@[simp] theorem setCaller_worker (state : State size Job) (job : Job) (point : CallerPoint) :
    (state.setCaller job point).worker = state.worker := rfl

/-- `pthread_cond_signal`: a blocked worker is woken, whichever the environment has `chosen`;
nothing happens when no worker is blocked. -/
def State.signal (state : State size Job) : Option (Fin size) → Option (State size Job)
  | some index =>
    if state.worker index = .waiting .blocked then
      some (state.setWorker index (.waiting .notified))
    else none
  | none => if ∀ index, state.worker index ≠ .waiting .blocked then some state else none

/-- `pthread_cond_broadcast`. -/
def State.broadcast (state : State size Job) : State size Job :=
  { state with worker := fun index ↦
      if state.worker index = .waiting .blocked then .waiting .notified else state.worker index }

/-- A worker takes a job out of the list, if there is one. -/
def State.take (state : State size Job) (index : Fin size) : Option (State size Job) :=
  match state.waitingJobs with
  | none => some (state.setWorker index (.unlock none))
  | some job =>
    (state.heap.get job).bind fun node ↦
      (llRemove state.heap job state.waitingJobs).map fun (heap, waitingJobs) ↦
        { state.setWorker index (.unlock (some job)) with
          heap := heap
          waitingJobs := waitingJobs
          taken := state.taken ++ [(node.data, index)] }

/-- One step of a worker. A worker that leaves the loop keeps the mutex. -/
def workerStep (state : State size Job) (index : Fin size) : Option (State size Job) :=
  match state.worker index with
  | .lock =>
    if state.jobsMutex = none then
      some { state.setWorker index .test with jobsMutex := some (.worker index) }
    else none
  | .test =>
    some (state.setWorker index (if state.waitingJobs = none then .checkInner else .checkOuter))
  | .checkInner =>
    some (state.setWorker index (if state.terminate index then .checkOuter else .sleep))
  | .sleep => some { state.setWorker index (.waiting .blocked) with jobsMutex := none }
  | .waiting .blocked => none
  | .waiting .notified | .waiting .spurious =>
    if state.jobsMutex = none then
      some { state.setWorker index .test with jobsMutex := some (.worker index) }
    else none
  | .checkOuter => some (state.setWorker index (if state.terminate index then .left else .take))
  | .take => state.take index
  | .unlock none => some { state.setWorker index .lock with jobsMutex := none }
  | .unlock (some job) => some { state.setWorker index (.run job) with jobsMutex := none }
  | .run job => some { state.setWorker index .lock with heap := state.heap.free job }
  | .left => none

/-- The choices of the scheduler: which thread moves, the address that `malloc` hands out for a new
job, the worker that a signal wakes, and the wait that returns spuriously. -/
inductive Event (size : ℕ) (Job : Type*)
  | work (index : Fin size)
  | spurious (index : Fin size)
  | create (job : Job) (addr : ℕ)
  | call (job : Job) (chosen : Option (Fin size))
  | shutdown
  deriving DecidableEq

/-- One step of a call of `workqueue_add_job`. -/
def callerStep (state : State size Job) (job : Job) (chosen : Option (Fin size)) :
    Option (State size Job) :=
  match state.caller job with
  | .idle => none
  | .lock addr =>
    if state.jobsMutex = none then
      some { state.setCaller job (.add addr) with jobsMutex := some (.caller job) }
    else none
  | .add addr =>
    (llAdd state.heap addr state.waitingJobs).map fun (heap, waitingJobs) ↦
      { state.setCaller job .signal with
        heap := heap
        waitingJobs := waitingJobs
        added := state.added ++ [job] }
  | .signal => (state.setCaller job .unlock).signal chosen
  | .unlock => some { state.setCaller job .returned with jobsMutex := none }
  | .returned => none

/-- One step of `workqueue_shutdown`. -/
def shutdownStep (state : State size Job) : Option (State size Job) :=
  match state.shutdown with
  | .idle => some { state with shutdown := .flag 0 }
  | .flag visited =>
    if hvisited : visited < size then
      some { state with
        terminate := Function.update state.terminate
          ⟨size - 1 - visited, by omega⟩ true
        shutdown := .flag (visited + 1) }
    else some { state with shutdown := .lock }
  | .lock =>
    if state.jobsMutex = none then
      some { state with jobsMutex := some .shutdown, shutdown := .clear }
    else none
  | .clear => some { state with waitingJobs := none, shutdown := .broadcast }
  | .broadcast => some { state.broadcast with shutdown := .unlock }
  | .unlock => some { state with jobsMutex := none, shutdown := .returned }
  | .returned => none

/-- One step of the system. The memory of a new job holds nothing that is read. -/
def step (state : State size Job) : Event size Job → Option (State size Job)
  | .work index => workerStep state index
  | .spurious index =>
    if state.worker index = .waiting .blocked then
      some (state.setWorker index (.waiting .spurious))
    else none
  | .create job addr =>
    if state.caller job = .idle ∧ state.heap.get addr = none then
      some { state.setCaller job (.lock addr) with heap := state.heap.set addr ⟨job, none, none⟩ }
    else none
  | .call job chosen => callerStep state job chosen
  | .shutdown => shutdownStep state

/-! ### What a step can do -/

/-- A worker that needs the mutex next: at the head of its loop, or after a wake-up. -/
def WorkerPoint.wantsMutex (point : WorkerPoint) : Prop :=
  point = .lock ∨ point = .waiting .notified ∨ point = .waiting .spurious

/-- The transitions of the system, each with the guards under which the code takes it. -/
inductive Move : State size Job → Event size Job → State size Job → Prop
  | takeMutex {state : State size Job} {index : Fin size}
      (hpoint : (state.worker index).wantsMutex) (hfree : state.jobsMutex = none) :
      Move state (.work index)
        { state.setWorker index .test with jobsMutex := some (.worker index) }
  | testEmpty {state : State size Job} {index : Fin size} (hpoint : state.worker index = .test)
      (hempty : state.waitingJobs = none) :
      Move state (.work index) (state.setWorker index .checkInner)
  | testFilled {state : State size Job} {index : Fin size} (hpoint : state.worker index = .test)
      (hfilled : state.waitingJobs ≠ none) :
      Move state (.work index) (state.setWorker index .checkOuter)
  | breakInner {state : State size Job} {index : Fin size}
      (hpoint : state.worker index = .checkInner) (hflag : state.terminate index = true) :
      Move state (.work index) (state.setWorker index .checkOuter)
  | enterWait {state : State size Job} {index : Fin size}
      (hpoint : state.worker index = .checkInner) (hflag : state.terminate index = false) :
      Move state (.work index) (state.setWorker index .sleep)
  | block {state : State size Job} {index : Fin size} (hpoint : state.worker index = .sleep) :
      Move state (.work index)
        { state.setWorker index (.waiting .blocked) with jobsMutex := none }
  | breakOuter {state : State size Job} {index : Fin size}
      (hpoint : state.worker index = .checkOuter) (hflag : state.terminate index = true) :
      Move state (.work index) (state.setWorker index .left)
  | goOn {state : State size Job} {index : Fin size}
      (hpoint : state.worker index = .checkOuter) (hflag : state.terminate index = false) :
      Move state (.work index) (state.setWorker index .take)
  | takeNone {state : State size Job} {index : Fin size} (hpoint : state.worker index = .take)
      (hempty : state.waitingJobs = none) :
      Move state (.work index) (state.setWorker index (.unlock none))
  | takeJob {state : State size Job} {index : Fin size} {job : ℕ} {node : Node Job}
      {heap : Heap Job} {waitingJobs : Option ℕ} (hpoint : state.worker index = .take)
      (hjob : state.waitingJobs = some job) (hnode : state.heap.get job = some node)
      (hremove : llRemove state.heap job (some job) = some (heap, waitingJobs)) :
      Move state (.work index)
        { state.setWorker index (.unlock (some job)) with
          heap := heap
          waitingJobs := waitingJobs
          taken := state.taken ++ [(node.data, index)] }
  | unlockNone {state : State size Job} {index : Fin size}
      (hpoint : state.worker index = .unlock none) :
      Move state (.work index) { state.setWorker index .lock with jobsMutex := none }
  | unlockJob {state : State size Job} {index : Fin size} {job : ℕ}
      (hpoint : state.worker index = .unlock (some job)) :
      Move state (.work index) { state.setWorker index (.run job) with jobsMutex := none }
  | finish {state : State size Job} {index : Fin size} {job : ℕ}
      (hpoint : state.worker index = .run job) :
      Move state (.work index)
        { state.setWorker index .lock with heap := state.heap.free job }
  | spurious {state : State size Job} {index : Fin size}
      (hpoint : state.worker index = .waiting .blocked) :
      Move state (.spurious index) (state.setWorker index (.waiting .spurious))
  | create {state : State size Job} {job : Job} {addr : ℕ} (hpoint : state.caller job = .idle)
      (hnew : state.heap.get addr = none) :
      Move state (.create job addr)
        { state.setCaller job (.lock addr) with heap := state.heap.set addr ⟨job, none, none⟩ }
  | addLock {state : State size Job} {job : Job} {chosen : Option (Fin size)} {addr : ℕ}
      (hpoint : state.caller job = .lock addr) (hfree : state.jobsMutex = none) :
      Move state (.call job chosen)
        { state.setCaller job (.add addr) with jobsMutex := some (.caller job) }
  | add {state : State size Job} {job : Job} {chosen : Option (Fin size)} {addr : ℕ}
      {heap : Heap Job} {waitingJobs : Option ℕ} (hpoint : state.caller job = .add addr)
      (hadd : llAdd state.heap addr state.waitingJobs = some (heap, waitingJobs)) :
      Move state (.call job chosen)
        { state.setCaller job .signal with
          heap := heap
          waitingJobs := waitingJobs
          added := state.added ++ [job] }
  | signalOne {state : State size Job} {job : Job} {index : Fin size}
      (hpoint : state.caller job = .signal) (hblocked : state.worker index = .waiting .blocked) :
      Move state (.call job (some index))
        ((state.setCaller job .unlock).setWorker index (.waiting .notified))
  | signalNone {state : State size Job} {job : Job} (hpoint : state.caller job = .signal)
      (hblocked : ∀ index, state.worker index ≠ .waiting .blocked) :
      Move state (.call job none) (state.setCaller job .unlock)
  | addUnlock {state : State size Job} {job : Job} {chosen : Option (Fin size)}
      (hpoint : state.caller job = .unlock) :
      Move state (.call job chosen) { state.setCaller job .returned with jobsMutex := none }
  | shutdownCall {state : State size Job} (hpoint : state.shutdown = .idle) :
      Move state .shutdown { state with shutdown := .flag 0 }
  | shutdownFlag {state : State size Job} {visited : ℕ} {index : Fin size}
      (hpoint : state.shutdown = .flag visited) (hindex : index.val = size - 1 - visited) :
      Move state .shutdown
        { state with
          terminate := Function.update state.terminate index true
          shutdown := .flag (visited + 1) }
  | shutdownFlagged {state : State size Job} {visited : ℕ}
      (hpoint : state.shutdown = .flag visited) (hvisited : size ≤ visited) :
      Move state .shutdown { state with shutdown := .lock }
  | shutdownLock {state : State size Job} (hpoint : state.shutdown = .lock)
      (hfree : state.jobsMutex = none) :
      Move state .shutdown { state with jobsMutex := some .shutdown, shutdown := .clear }
  | shutdownClear {state : State size Job} (hpoint : state.shutdown = .clear) :
      Move state .shutdown { state with waitingJobs := none, shutdown := .broadcast }
  | shutdownBroadcast {state : State size Job} (hpoint : state.shutdown = .broadcast) :
      Move state .shutdown { state.broadcast with shutdown := .unlock }
  | shutdownUnlock {state : State size Job} (hpoint : state.shutdown = .unlock) :
      Move state .shutdown { state with jobsMutex := none, shutdown := .returned }

theorem move_of_take {state next : State size Job} {index : Fin size}
    (hpoint : state.worker index = .take) (hstep : state.take index = some next) :
    Move state (.work index) next := by
  unfold State.take at hstep
  split at hstep
  next hempty => exact Option.some.inj hstep ▸ .takeNone hpoint hempty
  next job hjob =>
    obtain ⟨node, hnode, hrest⟩ := Option.bind_eq_some_iff.mp hstep
    obtain ⟨⟨heap, waitingJobs⟩, hremove, rfl⟩ := Option.map_eq_some_iff.mp hrest
    rw [hjob] at hremove
    exact .takeJob hpoint hjob hnode hremove

theorem move_of_workerStep {state next : State size Job} {index : Fin size}
    (hstep : workerStep state index = some next) : Move state (.work index) next := by
  unfold workerStep at hstep
  split at hstep
  next hpoint =>
    obtain ⟨hfree, hnext⟩ := Option.ite_none_right_eq_some.mp hstep
    exact Option.some.inj hnext ▸ .takeMutex (.inl hpoint) hfree
  next hpoint =>
    rw [Option.some.injEq] at hstep
    subst hstep
    split_ifs with hempty
    · exact .testEmpty hpoint hempty
    · exact .testFilled hpoint hempty
  next hpoint =>
    rw [Option.some.injEq] at hstep
    subst hstep
    split_ifs with hflag
    · exact .breakInner hpoint hflag
    · exact .enterWait hpoint (Bool.eq_false_of_not_eq_true hflag)
  next hpoint => exact Option.some.inj hstep ▸ .block hpoint
  next => cases hstep
  next hpoint =>
    obtain ⟨hfree, hnext⟩ := Option.ite_none_right_eq_some.mp hstep
    exact Option.some.inj hnext ▸ .takeMutex (.inr (.inl hpoint)) hfree
  next hpoint =>
    obtain ⟨hfree, hnext⟩ := Option.ite_none_right_eq_some.mp hstep
    exact Option.some.inj hnext ▸ .takeMutex (.inr (.inr hpoint)) hfree
  next hpoint =>
    rw [Option.some.injEq] at hstep
    subst hstep
    split_ifs with hflag
    · exact .breakOuter hpoint hflag
    · exact .goOn hpoint (Bool.eq_false_of_not_eq_true hflag)
  next hpoint => exact move_of_take hpoint hstep
  next hpoint => exact Option.some.inj hstep ▸ .unlockNone hpoint
  next job hpoint => exact Option.some.inj hstep ▸ .unlockJob hpoint
  next job hpoint => exact Option.some.inj hstep ▸ .finish hpoint
  next => cases hstep

theorem move_of_callerStep {state next : State size Job} {job : Job}
    {chosen : Option (Fin size)} (hstep : callerStep state job chosen = some next) :
    Move state (.call job chosen) next := by
  unfold callerStep at hstep
  split at hstep
  next => cases hstep
  next addr hpoint =>
    obtain ⟨hfree, hnext⟩ := Option.ite_none_right_eq_some.mp hstep
    exact Option.some.inj hnext ▸ .addLock hpoint hfree
  next addr hpoint =>
    obtain ⟨⟨heap, waitingJobs⟩, hadd, rfl⟩ := Option.map_eq_some_iff.mp hstep
    exact .add hpoint hadd
  next hpoint =>
    cases chosen with
    | none =>
      obtain ⟨hblocked, hnext⟩ := Option.ite_none_right_eq_some.mp hstep
      exact Option.some.inj hnext ▸ .signalNone hpoint hblocked
    | some index =>
      obtain ⟨hblocked, hnext⟩ := Option.ite_none_right_eq_some.mp hstep
      exact Option.some.inj hnext ▸ .signalOne hpoint hblocked
  next hpoint => exact Option.some.inj hstep ▸ .addUnlock hpoint
  next => cases hstep

theorem move_of_shutdownStep {state next : State size Job}
    (hstep : shutdownStep state = some next) : Move state .shutdown next := by
  unfold shutdownStep at hstep
  split at hstep
  next hpoint => exact Option.some.inj hstep ▸ .shutdownCall hpoint
  next visited hpoint =>
    split_ifs at hstep with hvisited
    · exact Option.some.inj hstep ▸ .shutdownFlag hpoint rfl
    · exact Option.some.inj hstep ▸ .shutdownFlagged hpoint (Nat.le_of_not_lt hvisited)
  next hpoint =>
    obtain ⟨hfree, hnext⟩ := Option.ite_none_right_eq_some.mp hstep
    exact Option.some.inj hnext ▸ .shutdownLock hpoint hfree
  next hpoint => exact Option.some.inj hstep ▸ .shutdownClear hpoint
  next hpoint => exact Option.some.inj hstep ▸ .shutdownBroadcast hpoint
  next hpoint => exact Option.some.inj hstep ▸ .shutdownUnlock hpoint
  next => cases hstep

/-- Every step of the system is one of the listed transitions. -/
theorem move_of_step {state next : State size Job} {event : Event size Job}
    (hstep : step state event = some next) : Move state event next := by
  cases event with
  | work index => exact move_of_workerStep hstep
  | spurious index =>
    obtain ⟨hpoint, hnext⟩ := Option.ite_none_right_eq_some.mp hstep
    exact Option.some.inj hnext ▸ .spurious hpoint
  | create job addr =>
    obtain ⟨⟨hpoint, hnew⟩, hnext⟩ := Option.ite_none_right_eq_some.mp hstep
    exact Option.some.inj hnext ▸ .create hpoint hnew
  | call job chosen => exact move_of_callerStep hstep
  | shutdown => exact move_of_shutdownStep hstep

/-- One of two workers. -/
def firstWorker : Fin 2 := 0

/-- The other one. -/
def secondWorker : Fin 2 := 1

end TestLinux.WorkQueue
