import TestLinux.WorkQueue.Model
import TestLinux.Library.Runs

/-!
# Shutting the work queue down

`worker_function` has one `pthread_mutex_unlock`, behind the removal of a job. A worker that finds
its `terminate` flag set breaks out of both loops above it and ends with the mutex in its hands.
Nobody can unlock it then: the other workers never leave, and `workqueue_shutdown` itself, which
sets the flags before it locks, may never return (`shutdown_locked_out`).

`Owned` says who is inside the mutex, and a worker that has left is (`WorkerPoint.owns`). So the
state is free of such workers exactly as long as no worker has met its flag at the second test
(`leaves_holding_iff`). `Announced` follows `workqueue_shutdown`: when it has returned, every flag
is set and nobody is blocked, so that each worker by itself could still come to leave.
-/

set_option autoImplicit false
set_option relaxedAutoImplicit false

namespace TestLinux.WorkQueue

open TestLinux.LinkedList TestLinux.Threads TestLinux.Runs

variable {size : ℕ} {Job : Type*}

/-! ### The owner of the mutex -/

/-- The points at which a worker owns the mutex. -/
def WorkerPoint.owns : WorkerPoint → Prop
  | .lock | .waiting _ | .run _ => False
  | _ => True

/-- The points at which a call of `workqueue_add_job` owns the mutex. -/
def CallerPoint.owns : CallerPoint → Prop
  | .add _ | .signal | .unlock => True
  | _ => False

/-- The points at which `workqueue_shutdown` owns the mutex. -/
def ShutdownPoint.owns : ShutdownPoint → Prop
  | .clear | .broadcast | .unlock => True
  | _ => False

/-- The threads inside the mutex. -/
def State.owns (state : State size Job) : Agent size Job → Prop
  | .worker index => (state.worker index).owns
  | .caller job => (state.caller job).owns
  | .shutdown => state.shutdown.owns

/-- The threads inside the mutex are exactly its owner. -/
def Owned (state : State size Job) : Prop := Exclusive state.jobsMutex state.owns

theorem owned_start : Owned (start size Job) := by
  intro agent
  cases agent <;> simp [start, State.owns, WorkerPoint.owns, CallerPoint.owns, ShutdownPoint.owns]

theorem owns_worker_of_ne {state next : State size Job} {index : Fin size} {point : WorkerPoint}
    (hworker : next.worker = Function.update state.worker index point)
    (hcaller : next.caller = state.caller) (hshutdown : next.shutdown = state.shutdown)
    (agent : Agent size Job) (hagent : agent ≠ .worker index) :
    next.owns agent ↔ state.owns agent := by
  cases agent with
  | worker other =>
    have hother : other ≠ index := fun heq ↦ hagent (heq ▸ rfl)
    simp only [State.owns, hworker, Function.update_of_ne hother]
  | caller job => simp only [State.owns, hcaller]
  | shutdown => simp only [State.owns, hshutdown]

theorem owns_shutdown_of_ne {state next : State size Job} (hworker : next.worker = state.worker)
    (hcaller : next.caller = state.caller) (agent : Agent size Job) (hagent : agent ≠ .shutdown) :
    next.owns agent ↔ state.owns agent := by
  cases agent with
  | worker index => simp only [State.owns, hworker]
  | caller job => simp only [State.owns, hcaller]
  | shutdown => exact absurd rfl hagent

theorem owns_broadcast (state : State size Job) (index : Fin size) :
    (state.broadcast.worker index).owns ↔ (state.worker index).owns := by
  simp only [State.broadcast]
  split_ifs with hblocked
  · rw [hblocked]
    rfl
  · rfl

/-! ### Leaving -/

/-- A worker that has left its loop is not the owner of the mutex. -/
def Released (state : State size Job) : Prop :=
  ∀ index, state.worker index = .left → state.jobsMutex ≠ some (.worker index)

/-- The step is not the second test of a `terminate` flag that is set. -/
def Stays (state : State size Job) : Event size Job → Prop
  | .work index => ¬ (state.worker index = .checkOuter ∧ state.terminate index = true)
  | _ => True

instance (state : State size Job) : (event : Event size Job) → Decidable (Stays state event)
  | .work _ => instDecidableNot
  | .spurious _ | .create _ _ | .call _ _ | .shutdown => isTrue trivial

theorem stays_iff {state : State size Job} {event : Event size Job} :
    Stays state event ↔ ∀ index, ¬ (event = .work index ∧ state.worker index = .checkOuter ∧
      state.terminate index = true) := by
  cases event with
  | work index =>
    constructor
    · rintro hstays other ⟨hevent, hmet⟩
      cases hevent
      exact hstays hmet
    · exact fun hnobody hmet ↦ hnobody index ⟨rfl, hmet⟩
  | spurious | create | call | shutdown => simp [Stays]

theorem Owned.mutex_of_left {state : State size Job} (hstate : Owned state) {index : Fin size}
    (hleft : state.worker index = .left) : state.jobsMutex = some (.worker index) := by
  refine (hstate (.worker index)).mp ?_
  simp [State.owns, WorkerPoint.owns, hleft]

theorem released_iff {state : State size Job} (hstate : Owned state) :
    Released state ↔ ∀ index, state.worker index ≠ .left := by
  constructor
  · intro hreleased index hleft
    exact hreleased index hleft (hstate.mutex_of_left hleft)
  · intro hnobody index hleft
    exact absurd hleft (hnobody index)

theorem update_left_iff {worker : Fin size → WorkerPoint} {index : Fin size} {point : WorkerPoint}
    (hold : worker index ≠ .left) (hnew : point ≠ .left) (other : Fin size) :
    Function.update worker index point other = .left ↔ worker other = .left := by
  by_cases hother : other = index
  · subst hother
    rw [Function.update_self]
    exact ⟨fun heq ↦ absurd heq hnew, fun heq ↦ absurd heq hold⟩
  · rw [Function.update_of_ne hother]

/-- What the workers know of `workqueue_shutdown`: the flags it has set, and that from its broadcast
on nobody is blocked. -/
structure Announced (state : State size Job) : Prop where
  visited : ∀ visited, state.shutdown = .flag visited →
    ∀ index : Fin size, size - 1 - index.val < visited → state.terminate index = true
  flagged : state.shutdown ≠ .idle → (∀ visited, state.shutdown ≠ .flag visited) →
    ∀ index, state.terminate index = true
  awake : state.shutdown.owns ∨ state.shutdown = .returned → ∀ index, state.worker index ≠ .sleep
  woken : state.shutdown = .unlock ∨ state.shutdown = .returned →
    ∀ index, state.worker index ≠ .waiting .blocked

theorem announced_start : Announced (start size Job) where
  visited := by simp [start]
  flagged := by simp [start]
  awake := by simp [start, ShutdownPoint.owns]
  woken := by simp [start]

theorem Announced.terminate_of_owns {state : State size Job} (hstate : Announced state)
    (hpoint : state.shutdown.owns ∨ state.shutdown = .returned) (index : Fin size) :
    state.terminate index = true := by
  refine hstate.flagged (fun heq ↦ ?_) (fun visited heq ↦ ?_) index
  · simp [heq, ShutdownPoint.owns] at hpoint
  · simp [heq, ShutdownPoint.owns] at hpoint

/-- A step that leaves `workqueue_shutdown` and the flags alone. Assumes: a worker goes to sleep
only when its flag is not set, and is blocked only from there. -/
theorem Announced.congr {state next : State size Job} (hstate : Announced state)
    (hshutdown : next.shutdown = state.shutdown) (hterminate : next.terminate = state.terminate)
    (hsleep : ∀ index, next.worker index = .sleep →
      state.worker index = .sleep ∨ state.terminate index = false)
    (hblocked : ∀ index, next.worker index = .waiting .blocked →
      state.worker index = .waiting .blocked ∨ state.worker index = .sleep) :
    Announced next where
  visited := by
    rw [hshutdown, hterminate]
    exact hstate.visited
  flagged := by
    rw [hshutdown, hterminate]
    exact hstate.flagged
  awake := by
    intro hpoint index hnext
    rw [hshutdown] at hpoint
    rcases hsleep index hnext with hold | hunset
    · exact hstate.awake hpoint index hold
    · simp [hstate.terminate_of_owns hpoint index] at hunset
  woken := by
    intro hpoint index hnext
    rw [hshutdown] at hpoint
    rcases hblocked index hnext with hold | hold
    · exact hstate.woken hpoint index hold
    · refine hstate.awake ?_ index hold
      rcases hpoint with hpoint | hpoint
      · exact .inl (by simp [hpoint, ShutdownPoint.owns])
      · exact .inr hpoint

/-- A worker moves on to a point other than going to sleep or being blocked. -/
theorem Announced.moveWorker {state next : State size Job} {index : Fin size}
    {point : WorkerPoint} (hstate : Announced state) (hshutdown : next.shutdown = state.shutdown)
    (hterminate : next.terminate = state.terminate)
    (hworker : next.worker = Function.update state.worker index point)
    (hsleep : point = .sleep → state.terminate index = false)
    (hblocked : point = .waiting .blocked → state.worker index = .sleep) : Announced next := by
  refine hstate.congr hshutdown hterminate (fun other hnext ↦ ?_) (fun other hnext ↦ ?_)
  all_goals
    rw [hworker] at hnext
    by_cases hother : other = index
  · subst hother
    rw [Function.update_self] at hnext
    exact .inr (hsleep hnext)
  · rw [Function.update_of_ne hother] at hnext
    exact .inl hnext
  · subst hother
    rw [Function.update_self] at hnext
    exact .inr (hblocked hnext)
  · rw [Function.update_of_ne hother] at hnext
    exact .inl hnext

/-! ### What the transitions keep -/

variable [DecidableEq Job]

theorem owns_caller_of_ne {state next : State size Job} {job : Job} {point : CallerPoint}
    (hworker : next.worker = state.worker)
    (hcaller : next.caller = Function.update state.caller job point)
    (hshutdown : next.shutdown = state.shutdown) (agent : Agent size Job)
    (hagent : agent ≠ .caller job) : next.owns agent ↔ state.owns agent := by
  cases agent with
  | worker index => simp only [State.owns, hworker]
  | caller other =>
    have hother : other ≠ job := fun heq ↦ hagent (heq ▸ rfl)
    simp only [State.owns, hcaller, Function.update_of_ne hother]
  | shutdown => simp only [State.owns, hshutdown]

/-- Every transition keeps the mutex with its owner. -/
theorem owned_move {state next : State size Job} {event : Event size Job} (hstate : Owned state)
    (hmove : Move state event next) : Owned next := by
  cases hmove with
  | @takeMutex index hpoint hfree =>
    have hunowned : Exclusive none state.owns := hfree ▸ hstate
    refine hunowned.acquire ?_ (owns_worker_of_ne rfl rfl rfl)
    simp [State.owns, WorkerPoint.owns]
  | @testEmpty index hpoint | @testFilled index hpoint | @breakInner index hpoint
  | @enterWait index hpoint | @breakOuter index hpoint | @goOn index hpoint
  | @takeNone index hpoint | @takeJob index _ _ _ _ hpoint | @finish index _ hpoint
  | @spurious index hpoint =>
    refine hstate.stay (.worker index) ?_ (owns_worker_of_ne rfl rfl rfl)
    simp [State.owns, WorkerPoint.owns, hpoint]
  | @block index hpoint | @unlockNone index hpoint | @unlockJob index _ hpoint =>
    have hinside : state.owns (.worker index) := by simp [State.owns, WorkerPoint.owns, hpoint]
    refine hstate.release hinside ?_ (owns_worker_of_ne rfl rfl rfl)
    simp [State.owns, WorkerPoint.owns]
  | @addLock job _ _ hpoint hfree =>
    have hunowned : Exclusive none state.owns := hfree ▸ hstate
    refine hunowned.acquire ?_ (owns_caller_of_ne rfl rfl rfl)
    simp [State.owns, CallerPoint.owns]
  | @create job _ hpoint | @add job _ _ _ _ hpoint | @signalNone job hpoint =>
    refine hstate.stay (.caller job) ?_ (owns_caller_of_ne rfl rfl rfl)
    simp [State.owns, CallerPoint.owns, hpoint]
  | @signalOne job index hpoint hblocked =>
    have hcaller : Owned (state.setCaller job .unlock) := by
      refine hstate.stay (.caller job) ?_ (owns_caller_of_ne rfl rfl rfl)
      simp [State.owns, CallerPoint.owns, hpoint]
    refine hcaller.stay (.worker index) ?_ (owns_worker_of_ne rfl rfl rfl)
    change _ ↔ (state.worker index).owns
    simp [State.owns, WorkerPoint.owns, hblocked]
  | @addUnlock job _ hpoint =>
    have hinside : state.owns (.caller job) := by simp [State.owns, CallerPoint.owns, hpoint]
    refine hstate.release hinside ?_ (owns_caller_of_ne rfl rfl rfl)
    simp [State.owns, CallerPoint.owns]
  | shutdownLock hpoint hfree =>
    have hunowned : Exclusive none state.owns := hfree ▸ hstate
    refine hunowned.acquire ?_ (owns_shutdown_of_ne rfl rfl)
    simp [State.owns, ShutdownPoint.owns]
  | shutdownCall hpoint | shutdownFlag hpoint | shutdownFlagged hpoint | shutdownClear hpoint =>
    refine hstate.stay .shutdown ?_ (owns_shutdown_of_ne rfl rfl)
    simp [State.owns, ShutdownPoint.owns, hpoint]
  | shutdownBroadcast hpoint =>
    refine hstate.congr fun agent ↦ ?_
    cases agent with
    | worker index => exact owns_broadcast state index
    | caller job => rfl
    | shutdown => simp [State.owns, ShutdownPoint.owns, hpoint]
  | shutdownUnlock hpoint =>
    have hinside : state.owns .shutdown := by simp [State.owns, ShutdownPoint.owns, hpoint]
    refine hstate.release hinside ?_ (owns_shutdown_of_ne rfl rfl)
    simp [State.owns, ShutdownPoint.owns]

theorem owned_of_run {events : List (Event size Job)} {state final : State size Job}
    (hstate : Owned state) (hrun : run step state events = some final) : Owned final :=
  run_invariant (fun _ _ _ hstate hstep ↦ owned_move hstate (move_of_step hstep)) hstate hrun

/-- A worker has left behind a step if it had before, or met its flag at the second test. -/
theorem left_move {state next : State size Job} {event : Event size Job}
    (hmove : Move state event next) (other : Fin size) :
    next.worker other = .left ↔ state.worker other = .left ∨
      (event = .work other ∧ state.worker other = .checkOuter ∧ state.terminate other = true) := by
  cases hmove with
  | @takeMutex index hpoint hfree =>
    have hold : state.worker index ≠ .left ∧ state.worker index ≠ .checkOuter := by
      rcases hpoint with hpoint | hpoint | hpoint <;> simp [hpoint]
    refine (update_left_iff hold.1 (by simp) other).trans (or_iff_left ?_).symm
    rintro ⟨hevent, hpoint', -⟩
    cases hevent
    exact hold.2 hpoint'
  | @testEmpty index hpoint | @testFilled index hpoint | @breakInner index hpoint
  | @enterWait index hpoint | @block index hpoint | @takeNone index hpoint
  | @takeJob index _ _ _ _ hpoint | @unlockNone index hpoint | @unlockJob index _ hpoint
  | @finish index _ hpoint =>
    refine (update_left_iff (by simp [hpoint]) (by simp) other).trans (or_iff_left ?_).symm
    rintro ⟨hevent, hpoint', -⟩
    cases hevent
    simp [hpoint] at hpoint'
  | @goOn index hpoint hflag =>
    refine (update_left_iff (by simp [hpoint]) (by simp) other).trans (or_iff_left ?_).symm
    rintro ⟨hevent, -, hflag'⟩
    cases hevent
    simp [hflag] at hflag'
  | @breakOuter index hpoint hflag =>
    rw [setWorker_worker]
    by_cases hother : other = index
    · subst hother
      simp [hpoint, hflag]
    · rw [Function.update_of_ne hother]
      simp [Ne.symm hother]
  | @spurious index hpoint | @signalOne _ index _ hpoint =>
    refine (update_left_iff (by simp [hpoint]) (by simp) other).trans (or_iff_left ?_).symm
    simp
  | shutdownBroadcast =>
    simp only [State.broadcast]
    split_ifs with hblocked
    · simp [hblocked]
    · simp
  | create | addLock | add | signalNone | addUnlock | shutdownCall | shutdownFlag
  | shutdownFlagged | shutdownLock | shutdownClear | shutdownUnlock => simp

/-- Nobody has left behind a run exactly if nobody had before and nobody met its flag at the second
test. -/
theorem nobody_left_iff {events : List (Event size Job)} {state final : State size Job}
    (hrun : run step state events = some final) :
    (∀ index, final.worker index ≠ .left) ↔
      (∀ index, state.worker index ≠ .left) ∧ Along step Stays state events := by
  induction events generalizing state with
  | nil =>
    rw [run_nil, Option.some.injEq] at hrun
    subst hrun
    exact (and_iff_left trivial).symm
  | cons event rest ih =>
    obtain ⟨next, hstep, hrest⟩ := run_cons_eq_some.mp hrun
    have hnext : (∀ index, next.worker index ≠ .left) ↔
        (∀ index, state.worker index ≠ .left) ∧ Stays state event := by
      simp only [ne_eq, left_move (move_of_step hstep), not_or, stays_iff, forall_and]
    rw [ih hrest, hnext, and_assoc]
    refine and_congr_right fun _ ↦ ?_
    rw [Along, hstep]

/-- A worker that has left keeps the mutex, and nobody else leaves any more. -/
theorem shut_out_of_left {events : List (Event size Job)} {state final : State size Job}
    (hstate : Owned state) {index : Fin size} (hleft : state.worker index = .left)
    (hrun : run step state events = some final) :
    final.jobsMutex = some (.worker index) ∧
      ∀ other, other ≠ index → final.worker other ≠ .left := by
  have hfinal := owned_of_run hstate hrun
  have hstill : final.worker index = .left :=
    run_invariant (fun _ _ _ hstate hstep ↦
      (left_move (move_of_step hstep) index).mpr (.inl hstate)) hleft hrun
  have hmutex := hfinal.mutex_of_left hstill
  refine ⟨hmutex, fun other hother hleft' ↦ hother ?_⟩
  rw [hfinal.mutex_of_left hleft', Option.some.injEq] at hmutex
  exact Agent.worker.inj hmutex

/-! ### Behind the shutdown -/

theorem announced_move {state next : State size Job} {event : Event size Job}
    (howned : Owned state) (hstate : Announced state) (hmove : Move state event next) :
    Announced next := by
  cases hmove with
  | takeMutex | testEmpty | testFilled | breakInner | breakOuter | goOn | takeNone | takeJob
  | unlockNone | unlockJob | finish | spurious | signalOne =>
    exact hstate.moveWorker rfl rfl rfl (by simp) (by simp)
  | enterWait hpoint hflag => exact hstate.moveWorker rfl rfl rfl (fun _ ↦ hflag) (by simp)
  | block hpoint => exact hstate.moveWorker rfl rfl rfl (by simp) fun _ ↦ hpoint
  | create | addLock | add | signalNone | addUnlock =>
    exact hstate.congr rfl rfl (fun _ ↦ .inl) fun _ ↦ .inl
  | shutdownCall hpoint =>
    exact ⟨by simp, by simp, by simp [ShutdownPoint.owns], by simp⟩
  | @shutdownFlag visited index hpoint hindex =>
    refine ⟨?_, by simp, by simp [ShutdownPoint.owns], by simp⟩
    intro count hcount other hother
    obtain rfl : visited + 1 = count := by simpa using hcount
    by_cases hne : other = index
    · simp [hne]
    · have hearlier : size - 1 - other.val < visited := by
        have : other.val ≠ index.val := fun heq ↦ hne (Fin.ext heq)
        omega
      simp [hne, hstate.visited visited hpoint other hearlier]
  | @shutdownFlagged visited hpoint hvisited =>
    refine ⟨by simp, ?_, by simp [ShutdownPoint.owns], by simp⟩
    exact fun _ _ index ↦ hstate.visited visited hpoint index (by omega)
  | shutdownLock hpoint hfree =>
    refine ⟨by simp, fun _ _ ↦ hstate.flagged (by simp [hpoint]) (by simp [hpoint]), ?_, by simp⟩
    intro _ index hsleep
    change state.worker index = .sleep at hsleep
    have hinside : state.owns (.worker index) := by simp [State.owns, WorkerPoint.owns, hsleep]
    simp [(howned _).mp hinside] at hfree
  | shutdownClear hpoint =>
    refine ⟨by simp, fun _ _ ↦ hstate.flagged (by simp [hpoint]) (by simp [hpoint]), ?_, by simp⟩
    exact fun _ ↦ hstate.awake (.inl (by simp [hpoint, ShutdownPoint.owns]))
  | shutdownBroadcast hpoint =>
    refine ⟨by simp, fun _ _ ↦ hstate.flagged (by simp [hpoint]) (by simp [hpoint]), ?_, ?_⟩
    · intro _ index hsleep
      refine hstate.awake (.inl (by simp [hpoint, ShutdownPoint.owns])) index ?_
      simp only [State.broadcast] at hsleep
      split_ifs at hsleep
      exact hsleep
    · intro _ index hblocked
      simp only [State.broadcast] at hblocked
      split_ifs at hblocked with hwas
      · simp at hblocked
      · exact hwas hblocked
  | shutdownUnlock hpoint =>
    refine ⟨by simp, fun _ _ ↦ hstate.flagged (by simp [hpoint]) (by simp [hpoint]), ?_, ?_⟩
    · exact fun _ ↦ hstate.awake (.inl (by simp [hpoint, ShutdownPoint.owns]))
    · exact fun _ ↦ hstate.woken (.inl hpoint)

theorem announced_of_run {events : List (Event size Job)} {state : State size Job}
    (hrun : run step (start size Job) events = some state) : Owned state ∧ Announced state := by
  have hkept : ∀ (before : State size Job) (event : Event size Job) (after : State size Job),
      Owned before ∧ Announced before → step before event = some after →
        Owned after ∧ Announced after := by
    rintro before event after ⟨howned, hannounced⟩ hstep
    have hmove := move_of_step hstep
    exact ⟨owned_move howned hmove, announced_move howned hannounced hmove⟩
  exact run_invariant hkept ⟨owned_start, announced_start⟩ hrun

/-- Some schedule makes the worker leave. -/
def CanLeave (state : State size Job) (index : Fin size) : Prop :=
  ∃ later final, run step state later = some final ∧ final.worker index = .left

theorem CanLeave.of_step {state next : State size Job} {index : Fin size}
    (hnext : CanLeave next index) (event : Event size Job) (hstep : step state event = some next) :
    CanLeave state index := by
  obtain ⟨later, final, hrun, hleft⟩ := hnext
  exact ⟨event :: later, final, run_cons_eq_some.mpr ⟨next, hstep, hrun⟩, hleft⟩

theorem canLeave_of_checkOuter {state : State size Job} {index : Fin size}
    (hpoint : state.worker index = .checkOuter) (hflag : state.terminate index = true) :
    CanLeave state index := by
  refine ⟨[.work index], state.setWorker index .left, ?_, by simp⟩
  simp [run, step, workerStep, hpoint, hflag]

theorem canLeave_of_test {state : State size Job} {index : Fin size}
    (hpoint : state.worker index = .test) (hflag : state.terminate index = true) :
    CanLeave state index := by
  by_cases hempty : state.waitingJobs = none
  · have hbreak : CanLeave (state.setWorker index .checkInner) index := by
      have houter : CanLeave ((state.setWorker index .checkInner).setWorker index .checkOuter)
          index := canLeave_of_checkOuter (by simp) hflag
      refine houter.of_step (.work index) ?_
      simp [step, workerStep, State.setWorker, hflag]
    refine hbreak.of_step (.work index) ?_
    simp [step, workerStep, hpoint, hempty]
  · have houter : CanLeave (state.setWorker index .checkOuter) index :=
      canLeave_of_checkOuter (by simp) hflag
    refine houter.of_step (.work index) ?_
    simp [step, workerStep, hpoint, hempty]

/-- A worker that is about to take a free mutex and whose flag is set can leave. -/
theorem canLeave_of_wantsMutex {state : State size Job} {index : Fin size}
    (hpoint : (state.worker index).wantsMutex) (hfree : state.jobsMutex = none)
    (hflag : state.terminate index = true) : CanLeave state index := by
  have htest : CanLeave { state.setWorker index .test with jobsMutex := some (.worker index) }
      index := canLeave_of_test (by simp) hflag
  refine htest.of_step (.work index) ?_
  rcases hpoint with hpoint | hpoint | hpoint <;> simp [step, workerStep, hpoint, hfree]

/-- When `workqueue_shutdown` has returned and the mutex is free, each worker can leave. -/
theorem canLeave_of_returned {state : State size Job} (howned : Owned state)
    (hstate : Announced state) (hreturned : state.shutdown = .returned)
    (hfree : state.jobsMutex = none) (index : Fin size) : CanLeave state index := by
  have hflag := hstate.terminate_of_owns (.inr hreturned) index
  have houtside : ¬ (state.worker index).owns := fun hinside ↦ by
    simp [(howned (.worker index)).mp hinside] at hfree
  cases hpoint : state.worker index with
  | lock => exact canLeave_of_wantsMutex (.inl hpoint) hfree hflag
  | waiting phase =>
    cases phase with
    | blocked => exact absurd hpoint (hstate.woken (.inr hreturned) index)
    | notified => exact canLeave_of_wantsMutex (.inr (.inl hpoint)) hfree hflag
    | spurious => exact canLeave_of_wantsMutex (.inr (.inr hpoint)) hfree hflag
  | run job =>
    have hback : CanLeave { state.setWorker index .lock with heap := state.heap.free job }
        index := canLeave_of_wantsMutex (.inl (by simp)) hfree hflag
    refine hback.of_step (.work index) ?_
    simp [step, workerStep, hpoint]
  | test | checkInner | sleep | checkOuter | take | unlock | left =>
    exact absurd (by rw [hpoint]; trivial) houtside

/-- For every number of workers and every run: no worker has left its loop with the mutex in its
hands exactly if no worker has met its set flag at the test behind the inner loop. Once a worker has
left, it keeps the mutex in every continuation, and no other worker leaves. As long as the mutex is
free behind `workqueue_shutdown`, each worker could be the one. -/
theorem leaves_holding_iff {events : List (Event size Job)} {state : State size Job}
    (hrun : run step (start size Job) events = some state) :
    (Released state ↔ Along step Stays (start size Job) events) ∧
      (∀ index, state.worker index = .left → ∀ later final,
        run step state later = some final → final.jobsMutex = some (.worker index) ∧
          ∀ other, other ≠ index → final.worker other ≠ .left) ∧
      (state.shutdown = .returned → state.jobsMutex = none → ∀ index, CanLeave state index) := by
  obtain ⟨howned, hannounced⟩ := announced_of_run hrun
  refine ⟨?_, fun index hleft later final hlater ↦ shut_out_of_left howned hleft hlater,
    canLeave_of_returned howned hannounced⟩
  rw [released_iff howned, nobody_left_iff hrun]
  exact and_iff_right fun index ↦ by simp [start]

/-- Two workers; the flags are set and the first worker comes to its second test. -/
def flaggedSchedule : List (Event 2 (Fin 1)) :=
  List.replicate 4 .shutdown ++ List.replicate 3 (.work firstWorker)

theorem leaves_holding_iff_flaggedSchedule :
    ∃ state, run step (start 2 (Fin 1)) flaggedSchedule = some state ∧
      state.worker 0 = .checkOuter ∧ Released state := by
  have hview : (run step (start 2 (Fin 1)) flaggedSchedule).map (fun state ↦ state.worker 0) =
      some .checkOuter := by decide +kernel
  obtain ⟨state, hrun, hseen⟩ := exists_of_view hview
  exact ⟨state, hrun, hseen, (leaves_holding_iff hrun).1.mpr (by decide +kernel)⟩

/-- One step later that worker has left with the mutex while `workqueue_shutdown` is still to lock
it. In every continuation the mutex stays where it is and the other worker does not leave. -/
theorem shutdown_locked_out :
    ∃ state, run step (start 2 (Fin 1)) (flaggedSchedule ++ [.work 0]) = some state ∧
      (state.worker 0, state.shutdown, state.jobsMutex) =
        (.left, .lock, some (.worker 0)) ∧
      ¬ Released state ∧
      ∀ later final, run step state later = some final →
        final.jobsMutex = some (.worker 0) ∧ final.worker 1 ≠ .left := by
  have hview : (run step (start 2 (Fin 1)) (flaggedSchedule ++ [.work 0])).map (fun state ↦
      (state.worker 0, state.shutdown, state.jobsMutex)) =
        some (.left, .lock, some (.worker 0)) := by decide +kernel
  obtain ⟨state, hrun, hseen⟩ := exists_of_view hview
  obtain ⟨hleft, -, hmutex⟩ : state.worker 0 = .left ∧ state.shutdown = .lock ∧
      state.jobsMutex = some (.worker 0) := by simpa using hseen
  refine ⟨state, hrun, hseen, fun hreleased ↦ hreleased 0 hleft hmutex, ?_⟩
  intro later final hlater
  obtain ⟨hstill, hothers⟩ := shut_out_of_left (owned_of_run owned_start hrun) hleft hlater
  exact ⟨hstill, hothers 1 (by decide)⟩

end TestLinux.WorkQueue
