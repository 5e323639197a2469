import TestLinux.Library.Runs
import TestLinux.Library.Threads
import Mathlib.Data.Fintype.Basic

/-!
# The thread pool of `test3/threadpool.h` as a transition system

A `ThreadPool` has `size` worker threads, a queue `tasks` behind the mutex `mutex_tp`, the condition
variable `cv_tp` and the atomic `active_flag`. Three kinds of threads act on it: the workers run the
loop of `start`, every call of `submit` is a thread of its own named by an element of `Call`, and
one thread runs `stop`. A task is named by the call that submits it.

Every point at which another thread can intervene is a program point: the test of `while`, taking
and giving back the mutex, the evaluation of the wait predicate, falling asleep, the test of the
flag after the wait, the run of the task, the test of the flag in `submit`, the two notifications,
the store in `stop` and each `join`. What happens under the mutex and reads no atomic twice is one
step. `cv_tp.wait` is the loop of its definition: while the predicate is false, release the mutex
and block in one step, and take the mutex again after a notification or a spurious wake-up.

`step` is the executable transition function; `Move` lists what it can do, one constructor for each
transition, and `move_of_step` says that it does nothing else. The fields `accepted`, `started` and
`finished` record history: the calls whose `emplace` has run, the tasks taken out of the queue in
the order in which they left it, and the tasks whose run has ended. No step reads them.
-/

set_option autoImplicit false
set_option relaxedAutoImplicit false

namespace TestLinux.ThreadPool

open TestLinux.Threads

/-- What a worker does once it has given back the mutex: return from the thread function, go round
the loop, or run the task it has taken. -/
inductive Resume (Call : Type*)
  | leave
  | loop
  | run (task : Call)
  deriving DecidableEq

/-- The program points of a worker. At `evaluate`, `sleep`, `dispatch` and `unlock` it owns the
mutex. -/
inductive WorkerPoint (Call : Type*)
  | test
  | lock
  | evaluate
  | sleep
  | waiting (phase : Sleep)
  | dispatch
  | unlock (next : Resume Call)
  | run (task : Call)
  | exited
  deriving DecidableEq

/-- The program points of a call of `submit`. At `emplace` and `unlock` it owns the mutex. -/
inductive CallerPoint
  | idle
  | lock
  | emplace
  | unlock
  | notify
  | returned
  | threw
  deriving DecidableEq

/-- The program points of `stop`; `join joined` has joined the first `joined` threads. -/
inductive StopPoint
  | idle
  | store
  | notify
  | join (joined : ℕ)
  | returned
  deriving DecidableEq

/-- The threads that take the mutex. `stop` never does. -/
inductive Agent (size : ℕ) (Call : Type*)
  | worker (index : Fin size)
  | caller (call : Call)
  deriving DecidableEq

/-- The shared fields of the pool, the program points of all threads, and the history. -/
structure State (size : ℕ) (Call : Type*) where
  mutex : Option (Agent size Call)
  activeFlag : Bool
  tasks : List Call
  worker : Fin size → WorkerPoint Call
  caller : Call → CallerPoint
  stopper : StopPoint
  accepted : List Call
  started : List Call
  finished : List Call

/-- The pool after its constructor: the flag is set, the queue is empty, every worker is about to
test the flag. -/
def start (size : ℕ) (Call : Type*) : State size Call where
  mutex := none
  activeFlag := true
  tasks := []
  worker := fun _ ↦ .test
  caller := fun _ ↦ .idle
  stopper := .idle
  accepted := []
  started := []
  finished := []

variable {size : ℕ} {Call : Type*} [DecidableEq Call]

/-- The state with one worker at another program point. -/
def State.setWorker (state : State size Call) (index : Fin size) (point : WorkerPoint Call) :
    State size Call :=
  { state with worker := Function.update state.worker index point }

/-- The state with one call of `submit` at another program point. -/
def State.setCaller (state : State size Call) (call : Call) (point : CallerPoint) :
    State size Call :=
  { state with caller := Function.update state.caller call point }

/-- The predicate of `cv_tp.wait`: there is a task, or the pool has been stopped. -/
def State.wakeable (state : State size Call) : Bool :=
  !state.tasks.isEmpty || state.activeFlag == false

/-- `notify_one`: a blocked worker is notified, whichever the environment has `chosen`; nothing
happens when no worker is blocked. -/
def State.notifyOne (state : State size Call) : Option (Fin size) → Option (State size Call)
  | some index =>
    if state.worker index = .waiting .blocked then
      some (state.setWorker index (.waiting .notified))
    else none
  | none => if ∀ index, state.worker index ≠ .waiting .blocked then some state else none

/-- `notify_all`: every blocked worker is notified. -/
def State.notifyAll (state : State size Call) : State size Call :=
  { state with worker := fun index ↦
      if state.worker index = .waiting .blocked then .waiting .notified else state.worker index }

/-- One step of a worker, the loop of `start`. -/
def workerStep (state : State size Call) (index : Fin size) : Option (State size Call) :=
  match state.worker index with
  | .test => some (state.setWorker index (if state.activeFlag then .lock else .exited))
  | .lock =>
    if state.mutex = none then
      some { state.setWorker index .evaluate with mutex := some (.worker index) }
    else none
  | .evaluate => some (state.setWorker index (if state.wakeable then .dispatch else .sleep))
  | .sleep => some { state.setWorker index (.waiting .blocked) with mutex := none }
  | .waiting .blocked => none
  | .waiting .notified | .waiting .spurious =>
    if state.mutex = none then
      some { state.setWorker index .evaluate with mutex := some (.worker index) }
    else none
  | .dispatch =>
    if state.activeFlag == false && state.tasks.isEmpty then
      some (state.setWorker index (.unlock .leave))
    else
      match state.tasks with
      | [] => some (state.setWorker index (.unlock .loop))
      | task :: rest =>
        some { state.setWorker index (.unlock (.run task)) with
          tasks := rest
          started := state.started ++ [task] }
  | .unlock .leave => some { state.setWorker index .exited with mutex := none }
  | .unlock .loop => some { state.setWorker index .test with mutex := none }
  | .unlock (.run task) => some { state.setWorker index (.run task) with mutex := none }
  | .run task => some { state.setWorker index .test with finished := state.finished ++ [task] }
  | .exited => none

/-- One step of a call of `submit`; `chosen` is the worker its `notify_one` wakes. -/
def callerStep (state : State size Call) (call : Call) (chosen : Option (Fin size)) :
    Option (State size Call) :=
  match state.caller call with
  | .idle => some (state.setCaller call (if state.activeFlag == false then .threw else .lock))
  | .lock =>
    if state.mutex = none then
      some { state.setCaller call .emplace with mutex := some (.caller call) }
    else none
  | .emplace =>
    some { state.setCaller call .unlock with
      tasks := state.tasks ++ [call]
      accepted := state.accepted ++ [call] }
  | .unlock => some { state.setCaller call .notify with mutex := none }
  | .notify => (state.setCaller call .returned).notifyOne chosen
  | .returned | .threw => none

/-- One step of `stop`. The call itself is a step, so that what happened before it is visible. -/
def stopStep (state : State size Call) : Option (State size Call) :=
  match state.stopper with
  | .idle => some { state with stopper := .store }
  | .store => some { state with activeFlag := false, stopper := .notify }
  | .notify => some { state.notifyAll with stopper := .join 0 }
  | .join joined =>
    if hjoined : joined < size then
      if state.worker ⟨joined, hjoined⟩ = .exited then
        some { state with stopper := .join (joined + 1) }
      else none
    else some { state with stopper := .returned }
  | .returned => none

/-- The choices of the scheduler: which thread moves, which worker `notify_one` wakes, and which
wait returns spuriously. -/
inductive Event (size : ℕ) (Call : Type*)
  | work (index : Fin size)
  | spurious (index : Fin size)
  | call (call : Call) (chosen : Option (Fin size))
  | stop
  deriving DecidableEq

/-- One step of the system. -/
def step (state : State size Call) : Event size Call → Option (State size Call)
  | .work index => workerStep state index
  | .spurious index =>
    if state.worker index = .waiting .blocked then
      some (state.setWorker index (.waiting .spurious))
    else none
  | .call call chosen => callerStep state call chosen
  | .stop => stopStep state

/-! ### What a step can do -/

@[simp] theorem setCaller_caller (state : State size Call) (call : Call) (point : CallerPoint) :
    (state.setCaller call point).caller = Function.update state.caller call point := rfl

/-- A worker that needs the mutex next: before the wait, or after a wake-up. -/
def WorkerPoint.wantsMutex (point : WorkerPoint Call) : Prop :=
  point = .lock ∨ point = .waiting .notified ∨ point = .waiting .spurious

/-- The transitions of the system, each with the guards under which the code takes it. -/
inductive Move : State size Call → Event size Call → State size Call → Prop
  | testActive {state : State size Call} {index : Fin size} (hpoint : state.worker index = .test)
      (hflag : state.activeFlag = true) :
      Move state (.work index) (state.setWorker index .lock)
  | testStopped {state : State size Call} {index : Fin size} (hpoint : state.worker index = .test)
      (hflag : state.activeFlag = false) :
      Move state (.work index) (state.setWorker index .exited)
  | takeMutex {state : State size Call} {index : Fin size}
      (hpoint : (state.worker index).wantsMutex) (hfree : state.mutex = none) :
      Move state (.work index)
        { state.setWorker index .evaluate with mutex := some (.worker index) }
  | passWait {state : State size Call} {index : Fin size}
      (hpoint : state.worker index = .evaluate)
      (hwake : state.tasks ≠ [] ∨ state.activeFlag = false) :
      Move state (.work index) (state.setWorker index .dispatch)
  | enterWait {state : State size Call} {index : Fin size}
      (hpoint : state.worker index = .evaluate) (hempty : state.tasks = [])
      (hflag : state.activeFlag = true) :
      Move state (.work index) (state.setWorker index .sleep)
  | block {state : State size Call} {index : Fin size} (hpoint : state.worker index = .sleep) :
      Move state (.work index) { state.setWorker index (.waiting .blocked) with mutex := none }
  | dispatchLeave {state : State size Call} {index : Fin size}
      (hpoint : state.worker index = .dispatch) (hflag : state.activeFlag = false)
      (hempty : state.tasks = []) :
      Move state (.work index) (state.setWorker index (.unlock .leave))
  | dispatchLoop {state : State size Call} {index : Fin size}
      (hpoint : state.worker index = .dispatch) (hflag : state.activeFlag = true)
      (hempty : state.tasks = []) :
      Move state (.work index) (state.setWorker index (.unlock .loop))
  | dispatchRun {state : State size Call} {index : Fin size} {task : Call} {rest : List Call}
      (hpoint : state.worker index = .dispatch) (htasks : state.tasks = task :: rest) :
      Move state (.work index)
        { state.setWorker index (.unlock (.run task)) with
          tasks := rest
          started := state.started ++ [task] }
  | unlockLeave {state : State size Call} {index : Fin size}
      (hpoint : state.worker index = .unlock .leave) :
      Move state (.work index) { state.setWorker index .exited with mutex := none }
  | unlockLoop {state : State size Call} {index : Fin size}
      (hpoint : state.worker index = .unlock .loop) :
      Move state (.work index) { state.setWorker index .test with mutex := none }
  | unlockRun {state : State size Call} {index : Fin size} {task : Call}
      (hpoint : state.worker index = .unlock (.run task)) :
      Move state (.work index) { state.setWorker index (.run task) with mutex := none }
  | finish {state : State size Call} {index : Fin size} {task : Call}
      (hpoint : state.worker index = .run task) :
      Move state (.work index)
        { state.setWorker index .test with finished := state.finished ++ [task] }
  | spurious {state : State size Call} {index : Fin size}
      (hpoint : state.worker index = .waiting .blocked) :
      Move state (.spurious index) (state.setWorker index (.waiting .spurious))
  | submitThrow {state : State size Call} {call : Call} {chosen : Option (Fin size)}
      (hpoint : state.caller call = .idle) (hflag : state.activeFlag = false) :
      Move state (.call call chosen) (state.setCaller call .threw)
  | submitPass {state : State size Call} {call : Call} {chosen : Option (Fin size)}
      (hpoint : state.caller call = .idle) (hflag : state.activeFlag = true) :
      Move state (.call call chosen) (state.setCaller call .lock)
  | submitLock {state : State size Call} {call : Call} {chosen : Option (Fin size)}
      (hpoint : state.caller call = .lock) (hfree : state.mutex = none) :
      Move state (.call call chosen)
        { state.setCaller call .emplace with mutex := some (.caller call) }
  | emplace {state : State size Call} {call : Call} {chosen : Option (Fin size)}
      (hpoint : state.caller call = .emplace) :
      Move state (.call call chosen)
        { state.setCaller call .unlock with
          tasks := state.tasks ++ [call]
          accepted := state.accepted ++ [call] }
  | submitUnlock {state : State size Call} {call : Call} {chosen : Option (Fin size)}
      (hpoint : state.caller call = .unlock) :
      Move state (.call call chosen) { state.setCaller call .notify with mutex := none }
  | notifyOne {state : State size Call} {call : Call} {index : Fin size}
      (hpoint : state.caller call = .notify) (hblocked : state.worker index = .waiting .blocked) :
      Move state (.call call (some index))
        ((state.setCaller call .returned).setWorker index (.waiting .notified))
  | notifyNone {state : State size Call} {call : Call} (hpoint : state.caller call = .notify)
      (hblocked : ∀ index, state.worker index ≠ .waiting .blocked) :
      Move state (.call call none) (state.setCaller call .returned)
  | stopCall {state : State size Call} (hpoint : state.stopper = .idle) :
      Move state .stop { state with stopper := .store }
  | stopStore {state : State size Call} (hpoint : state.stopper = .store) :
      Move state .stop { state with activeFlag := false, stopper := .notify }
  | stopNotify {state : State size Call} (hpoint : state.stopper = .notify) :
      Move state .stop { state.notifyAll with stopper := .join 0 }
  | joinOne {state : State size Call} {joined : ℕ} (hpoint : state.stopper = .join joined)
      (hjoined : joined < size) (hexited : state.worker ⟨joined, hjoined⟩ = .exited) :
      Move state .stop { state with stopper := .join (joined + 1) }
  | joinAll {state : State size Call} {joined : ℕ} (hpoint : state.stopper = .join joined)
      (hjoined : size ≤ joined) :
      Move state .stop { state with stopper := .returned }

theorem move_of_workerStep {state next : State size Call} {index : Fin size}
    (hstep : workerStep state index = some next) : Move state (.work index) next := by
  unfold workerStep at hstep
  split at hstep
  next hpoint =>
    cases hflag : state.activeFlag with
    | true =>
      simp only [hflag, ↓reduceIte, Option.some.injEq] at hstep
      exact hstep ▸ .testActive hpoint hflag
    | false =>
      simp only [hflag, Bool.false_eq_true, ↓reduceIte, Option.some.injEq] at hstep
      exact hstep ▸ .testStopped hpoint hflag
  next hpoint =>
    obtain ⟨hfree, hnext⟩ := Option.ite_none_right_eq_some.mp hstep
    exact Option.some.inj hnext ▸ .takeMutex (.inl hpoint) hfree
  next hpoint =>
    rw [Option.some.injEq] at hstep
    subst hstep
    split_ifs with hwake
    · refine .passWait hpoint ?_
      simpa [State.wakeable] using hwake
    · simp only [State.wakeable, Bool.not_eq_true, Bool.or_eq_false_iff, Bool.not_eq_false',
        List.isEmpty_iff, beq_eq_false_iff_ne, ne_eq, Bool.not_eq_false] at hwake
      exact .enterWait hpoint hwake.1 hwake.2
  next hpoint => exact Option.some.inj hstep ▸ .block hpoint
  next => cases hstep
  next hpoint =>
    obtain ⟨hfree, hnext⟩ := Option.ite_none_right_eq_some.mp hstep
    exact Option.some.inj hnext ▸ .takeMutex (.inr (.inl hpoint)) hfree
  next hpoint =>
    obtain ⟨hfree, hnext⟩ := Option.ite_none_right_eq_some.mp hstep
    exact Option.some.inj hnext ▸ .takeMutex (.inr (.inr hpoint)) hfree
  next hpoint =>
    split_ifs at hstep with hleave
    · simp only [beq_iff_eq, Bool.and_eq_true, List.isEmpty_iff] at hleave
      exact Option.some.inj hstep ▸ .dispatchLeave hpoint hleave.1 hleave.2
    · split at hstep
      next hempty =>
        have hflag : state.activeFlag = true := by simpa [hempty] using hleave
        exact Option.some.inj hstep ▸ .dispatchLoop hpoint hflag hempty
      next task rest htasks => exact Option.some.inj hstep ▸ .dispatchRun hpoint htasks
  next hpoint => exact Option.some.inj hstep ▸ .unlockLeave hpoint
  next hpoint => exact Option.some.inj hstep ▸ .unlockLoop hpoint
  next task hpoint => exact Option.some.inj hstep ▸ .unlockRun hpoint
  next task hpoint => exact Option.some.inj hstep ▸ .finish hpoint
  next => cases hstep

theorem move_of_callerStep {state next : State size Call} {call : Call}
    {chosen : Option (Fin size)} (hstep : callerStep state call chosen = some next) :
    Move state (.call call chosen) next := by
  unfold callerStep at hstep
  split at hstep
  next hpoint =>
    cases hflag : state.activeFlag with
    | true =>
      simp only [hflag, beq_false, Bool.not_true, Bool.false_eq_true,
        ↓reduceIte, Option.some.injEq] at hstep
      exact hstep ▸ .submitPass hpoint hflag
    | false =>
      simp only [hflag, BEq.rfl, ↓reduceIte, Option.some.injEq] at hstep
      exact hstep ▸ .submitThrow hpoint hflag
  next hpoint =>
    obtain ⟨hfree, hnext⟩ := Option.ite_none_right_eq_some.mp hstep
    exact Option.some.inj hnext ▸ .submitLock hpoint hfree
  next hpoint => exact Option.some.inj hstep ▸ .emplace hpoint
  next hpoint => exact Option.some.inj hstep ▸ .submitUnlock hpoint
  next hpoint =>
    cases chosen with
    | none =>
      obtain ⟨hblocked, hnext⟩ := Option.ite_none_right_eq_some.mp hstep
      exact Option.some.inj hnext ▸ .notifyNone hpoint hblocked
    | some index =>
      obtain ⟨hblocked, hnext⟩ := Option.ite_none_right_eq_some.mp hstep
      exact Option.some.inj hnext ▸ .notifyOne hpoint hblocked
  next => cases hstep
  next => cases hstep

theorem move_of_stopStep {state next : State size Call} (hstep : stopStep state = some next) :
    Move state .stop next := by
  unfold stopStep at hstep
  split at hstep
  next hpoint => exact Option.some.inj hstep ▸ .stopCall hpoint
  next hpoint => exact Option.some.inj hstep ▸ .stopStore hpoint
  next hpoint => exact Option.some.inj hstep ▸ .stopNotify hpoint
  next joined hpoint =>
    split_ifs at hstep with hjoined hexited
    · exact Option.some.inj hstep ▸ .joinOne hpoint hjoined hexited
    · exact Option.some.inj hstep ▸ .joinAll hpoint (Nat.le_of_not_lt hjoined)
  next => cases hstep

/-- Every step of the system is one of the listed transitions. -/
theorem move_of_step {state next : State size Call} {event : Event size Call}
    (hstep : step state event = some next) : Move state event next := by
  cases event with
  | work index => exact move_of_workerStep hstep
  | spurious index =>
    obtain ⟨hpoint, hnext⟩ := Option.ite_none_right_eq_some.mp hstep
    exact Option.some.inj hnext ▸ .spurious hpoint
  | call call chosen => exact move_of_callerStep hstep
  | stop => exact move_of_stopStep hstep

end TestLinux.ThreadPool
