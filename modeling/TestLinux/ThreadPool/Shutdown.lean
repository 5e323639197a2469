import TestLinux.ThreadPool.Conservation

/-!
# Stopping the thread pool

`stop` clears `active_flag`, notifies all workers and joins them, without ever taking the mutex.
Two of its promises depend on where the workers are at that moment.

The comment in the worker loop promises that a worker that has received the stop signal leaves only
when there is no task left. The test inside the critical section does that, but the loop condition
`while(active_flag)` is tested first: a worker coming back from a task finds the flag cleared and
leaves at once, whatever is queued (`queued_task_lost_at_stop`). In every run in which no worker
leaves through the loop condition while a task is queued, every task whose `submit` returned before
`stop` was called has been run when `stop` returns (`accepted_before_stop_finished`).

The comment at the wait promises that the stop signal wakes every worker. The predicate of the wait
is evaluated under the mutex, but `stop` clears the flag and notifies without it, so that both can
happen between the evaluation and the moment the worker blocks (`worker_stranded_by_stop`). This
window is the only one: when `notify_all` runs while no worker is in it, no worker is ever blocked
while `stop` joins (`no_worker_stranded`), and when it runs while one is in it, that worker can
block for good (`stranded_of_window`).
-/

set_option autoImplicit false
set_option relaxedAutoImplicit false

namespace TestLinux.ThreadPool

open TestLinux.Threads TestLinux.Runs

variable {size : ℕ} {Call : Type*}

/-- A worker on its way out: it has left its loop, or is about to return from it. -/
def WorkerPoint.leaving (point : WorkerPoint Call) : Prop :=
  point = .exited ∨ point = .unlock .leave

/-- How far `stop` has got, and what follows for the flag and the workers. -/
structure Lifecycle (state : State size Call) : Prop where
  flag : state.activeFlag = true ↔ state.stopper = .idle ∨ state.stopper = .store
  leaving : ∀ index, (state.worker index).leaving → state.activeFlag = false
  joined : ∀ joined, state.stopper = .join joined →
    ∀ index : Fin size, index.val < joined → state.worker index = .exited
  returned : state.stopper = .returned → ∀ index, state.worker index = .exited

theorem lifecycle_start : Lifecycle (start size Call) where
  flag := by simp [start]
  leaving := fun index hleaving ↦ by simp [start, WorkerPoint.leaving] at hleaving
  joined := fun joined hstopper ↦ by simp [start] at hstopper
  returned := fun hstopper ↦ by simp [start] at hstopper

/-- A step of the workers that leaves the flag and `stop` alone. Assumes: an exited worker stays
exited, and a worker starts leaving only when the flag is cleared. -/
theorem Lifecycle.congr {state next : State size Call} (hstate : Lifecycle state)
    (hflag : next.activeFlag = state.activeFlag) (hstopper : next.stopper = state.stopper)
    (hexited : ∀ index, state.worker index = .exited → next.worker index = .exited)
    (hleaving : ∀ index, (next.worker index).leaving →
      state.activeFlag = false ∨ (state.worker index).leaving) : Lifecycle next where
  flag := by rw [hflag, hstopper, hstate.flag]
  leaving := by
    intro index hnext
    rw [hflag]
    rcases hleaving index hnext with hcleared | hold
    · exact hcleared
    · exact hstate.leaving index hold
  joined := by
    intro joined hjoin index hindex
    exact hexited index (hstate.joined joined (hstopper ▸ hjoin) index hindex)
  returned := fun hreturned index ↦ hexited index (hstate.returned (hstopper ▸ hreturned) index)

/-- A step of one worker that has not exited. -/
theorem Lifecycle.moveWorker {state next : State size Call} {index : Fin size}
    {point : WorkerPoint Call} (hstate : Lifecycle state)
    (hflag : next.activeFlag = state.activeFlag) (hstopper : next.stopper = state.stopper)
    (hworker : next.worker = Function.update state.worker index point)
    (hold : state.worker index ≠ .exited)
    (hnew : point.leaving → state.activeFlag = false ∨ (state.worker index).leaving) :
    Lifecycle next := by
  refine hstate.congr hflag hstopper ?_ ?_
  · intro other hother
    have hne : other ≠ index := fun heq ↦ hold (heq ▸ hother)
    rw [hworker, Function.update_of_ne hne, hother]
  · intro other hother
    rw [hworker] at hother
    by_cases hne : other = index
    · subst hne
      rw [Function.update_self] at hother
      exact hnew hother
    · rw [Function.update_of_ne hne] at hother
      exact .inr hother

theorem notifyAll_worker_eq_iff [DecidableEq Call] (state : State size Call) (index : Fin size)
    {point : WorkerPoint Call} (hblocked : point ≠ .waiting .blocked)
    (hnotified : point ≠ .waiting .notified) :
    state.notifyAll.worker index = point ↔ state.worker index = point := by
  simp only [State.notifyAll]
  split_ifs with hpoint
  · rw [hpoint]
    exact ⟨fun heq ↦ absurd heq.symm hnotified, fun heq ↦ absurd heq.symm hblocked⟩
  · rfl

theorem notifyAll_worker_ne_blocked [DecidableEq Call] (state : State size Call)
    (index : Fin size) : state.notifyAll.worker index ≠ .waiting .blocked := by
  simp only [State.notifyAll]
  split_ifs with hpoint
  · simp
  · exact hpoint

theorem leaving_notifyAll [DecidableEq Call] (state : State size Call) (index : Fin size) :
    (state.notifyAll.worker index).leaving ↔ (state.worker index).leaving :=
  or_congr (notifyAll_worker_eq_iff state index (by simp) (by simp))
    (notifyAll_worker_eq_iff state index (by simp) (by simp))

theorem lifecycle_stopNotify [DecidableEq Call] {state : State size Call} (hstate : Lifecycle state)
    (hpoint : state.stopper = .notify) :
    Lifecycle { state.notifyAll with stopper := .join 0 } where
  flag := by
    have hcleared : ¬ state.activeFlag = true := by simp [hstate.flag, hpoint]
    change state.activeFlag = true ↔ _
    simp [hcleared]
  leaving := fun index hleaving ↦
    hstate.leaving index ((leaving_notifyAll state index).mp hleaving)
  joined := by
    intro joined hjoin index hindex
    obtain rfl : 0 = joined := by simpa using hjoin
    exact absurd hindex (Nat.not_lt_zero _)
  returned := nofun

theorem lifecycle_joinOne {state : State size Call} {joined : ℕ} (hstate : Lifecycle state)
    (hpoint : state.stopper = .join joined) (hjoined : joined < size)
    (hexited : state.worker ⟨joined, hjoined⟩ = .exited) :
    Lifecycle { state with stopper := .join (joined + 1) } where
  flag := by
    have hcleared : ¬ state.activeFlag = true := by simp [hstate.flag, hpoint]
    simp [hcleared]
  leaving := hstate.leaving
  joined := by
    intro count hjoin index hindex
    obtain rfl : joined + 1 = count := by simpa using hjoin
    rcases Nat.lt_succ_iff_lt_or_eq.mp hindex with hless | heq
    · exact hstate.joined joined hpoint index hless
    · have hindexEq : index = ⟨joined, hjoined⟩ := Fin.ext heq
      exact hindexEq ▸ hexited
  returned := nofun

theorem lifecycle_joinAll {state : State size Call} {joined : ℕ} (hstate : Lifecycle state)
    (hpoint : state.stopper = .join joined) (hjoined : size ≤ joined) :
    Lifecycle { state with stopper := .returned } where
  flag := by
    have hcleared : ¬ state.activeFlag = true := by simp [hstate.flag, hpoint]
    simp [hcleared]
  leaving := hstate.leaving
  joined := nofun
  returned := fun _ index ↦ hstate.joined joined hpoint index (index.isLt.trans_le hjoined)

variable [DecidableEq Call]

theorem lifecycle_move {state next : State size Call} {event : Event size Call}
    (hstate : Lifecycle state) (hmove : Move state event next) : Lifecycle next := by
  cases hmove with
  | testActive hpoint | passWait hpoint | enterWait hpoint | block hpoint | dispatchLoop hpoint
  | dispatchRun hpoint | unlockLoop hpoint | unlockRun hpoint | finish hpoint
  | spurious hpoint =>
    refine hstate.moveWorker rfl rfl rfl (by simp [hpoint]) fun hleaving ↦ ?_
    simp [WorkerPoint.leaving] at hleaving
  | testStopped hpoint hflag | dispatchLeave hpoint hflag =>
    exact hstate.moveWorker rfl rfl rfl (by simp [hpoint]) fun _ ↦ .inl hflag
  | unlockLeave hpoint =>
    exact hstate.moveWorker rfl rfl rfl (by simp [hpoint]) fun _ ↦ .inr (.inr hpoint)
  | takeMutex hpoint =>
    refine hstate.moveWorker rfl rfl rfl ?_ fun hleaving ↦ ?_
    · rcases hpoint with hpoint | hpoint | hpoint <;> simp [hpoint]
    · simp [WorkerPoint.leaving] at hleaving
  | notifyOne _ hblocked =>
    refine hstate.moveWorker rfl rfl rfl (by simp [hblocked]) fun hleaving ↦ ?_
    simp [WorkerPoint.leaving] at hleaving
  | submitThrow | submitPass | submitLock | emplace | submitUnlock | notifyNone =>
    exact hstate.congr rfl rfl (fun _ ↦ id) fun _ ↦ .inr
  | stopCall hpoint =>
    exact ⟨by simp [hstate.flag, hpoint], hstate.leaving, nofun, nofun⟩
  | stopStore hpoint => exact ⟨by simp, fun _ _ ↦ rfl, nofun, nofun⟩
  | stopNotify hpoint => exact lifecycle_stopNotify hstate hpoint
  | joinOne hpoint hjoined hexited => exact lifecycle_joinOne hstate hpoint hjoined hexited
  | joinAll hpoint hjoined => exact lifecycle_joinAll hstate hpoint hjoined

theorem lifecycle_of_run {events : List (Event size Call)} {state : State size Call}
    (hrun : run step (start size Call) events = some state) : Lifecycle state :=
  run_invariant (fun _ _ _ hstate hstep ↦ lifecycle_move hstate (move_of_step hstep))
    lifecycle_start hrun

/-! ### Tasks accepted before the stop -/

/-- A worker does not leave through the loop condition `while(active_flag)` while a task is
queued. -/
def LeavesDrained (state : State size Call) (event : Event size Call) : Prop :=
  ∀ index, event = .work index → state.worker index = .test → state.activeFlag = false →
    state.tasks = []

instance (state : State size Call) (event : Event size Call) :
    Decidable (LeavesDrained state event) :=
  inferInstanceAs (Decidable (∀ _, _ → _ → _ → _))

/-- Once a worker is on its way out, the accepted `call` has been taken out of the queue. -/
structure Drained (call : Call) (state : State size Call) : Prop where
  conserved : Conserved state
  accepted : call ∈ state.accepted
  leaving : ∀ index, (state.worker index).leaving → call ∈ state.started

omit [DecidableEq Call] in
theorem Drained.started_of_tasks_eq_nil {call : Call} {state : State size Call}
    (hstate : Drained call state) (hempty : state.tasks = []) : call ∈ state.started := by
  have horder := hstate.conserved.order
  rw [hempty, List.append_nil] at horder
  exact horder ▸ hstate.accepted

omit [DecidableEq Call] in
/-- A step of one worker. Assumes: it starts leaving only when the queue is empty. -/
theorem Drained.moveWorker {call : Call} {state next : State size Call} {index : Fin size}
    {point : WorkerPoint Call} (hstate : Drained call state) (hconserved : Conserved next)
    (haccepted : next.accepted = state.accepted)
    (hstarted : ∀ task ∈ state.started, task ∈ next.started)
    (hworker : next.worker = Function.update state.worker index point)
    (hnew : point.leaving → state.tasks = [] ∨ (state.worker index).leaving) :
    Drained call next := by
  refine ⟨hconserved, haccepted ▸ hstate.accepted, fun other hother ↦ hstarted call ?_⟩
  rw [hworker] at hother
  by_cases hne : other = index
  · subst hne
    rw [Function.update_self] at hother
    rcases hnew hother with hempty | hold
    · exact hstate.started_of_tasks_eq_nil hempty
    · exact hstate.leaving other hold
  · rw [Function.update_of_ne hne] at hother
    exact hstate.leaving other hother

theorem drained_move {call : Call} {state next : State size Call} {event : Event size Call}
    (hstate : Drained call state) (hallowed : LeavesDrained state event)
    (hmove : Move state event next) : Drained call next := by
  have hconserved := conserved_move hstate.conserved hmove
  cases hmove with
  | testActive | passWait | enterWait | block | dispatchLoop | unlockLoop | unlockRun | finish
  | spurious | takeMutex | notifyOne =>
    refine hstate.moveWorker hconserved rfl (fun _ ↦ id) rfl fun hleaving ↦ ?_
    simp [WorkerPoint.leaving] at hleaving
  | dispatchRun =>
    refine hstate.moveWorker hconserved rfl (fun _ ↦ List.mem_append_left _) rfl fun hleaving ↦ ?_
    simp [WorkerPoint.leaving] at hleaving
  | @testStopped index hpoint hflag =>
    exact hstate.moveWorker hconserved rfl (fun _ ↦ id) rfl fun _ ↦
      .inl (hallowed index rfl hpoint hflag)
  | dispatchLeave hpoint hflag hempty =>
    exact hstate.moveWorker hconserved rfl (fun _ ↦ id) rfl fun _ ↦ .inl hempty
  | unlockLeave hpoint =>
    exact hstate.moveWorker hconserved rfl (fun _ ↦ id) rfl fun _ ↦ .inr (.inr hpoint)
  | emplace => exact ⟨hconserved, List.mem_append_left _ hstate.accepted, hstate.leaving⟩
  | submitThrow | submitPass | submitLock | submitUnlock | notifyNone | stopCall | stopStore
  | joinOne | joinAll => exact ⟨hconserved, hstate.accepted, hstate.leaving⟩
  | stopNotify =>
    exact ⟨hconserved, hstate.accepted, fun index hleaving ↦
      hstate.leaving index ((leaving_notifyAll state index).mp hleaving)⟩

omit [DecidableEq Call] in
/-- When every worker has exited, every task taken out of the queue has been run. -/
theorem finished_of_exited {state : State size Call} (hstate : Conserved state)
    (hexited : ∀ index, state.worker index = .exited) {task : Call}
    (htask : task ∈ state.started) : task ∈ state.finished := by
  have hrunning : state.running = 0 := by
    refine Finset.sum_eq_zero fun index _ ↦ ?_
    rw [hexited index]
    rfl
  have htaken := hstate.taken
  rw [hrunning, zero_add, Multiset.coe_eq_coe] at htaken
  exact htaken.mem_iff.mp htask

/-- In every run in which no worker leaves through the loop condition while a task is queued, a task
whose `submit` returned before `stop` was called has been run, and is not in the queue, when `stop`
returns. -/
theorem accepted_before_stop_finished (hsize : 0 < size) {before after : List (Event size Call)}
    {called final : State size Call} {call : Call}
    (hbefore : run step (start size Call) before = some called) (hidle : called.stopper = .idle)
    (hreturned : called.caller call = .returned)
    (hafter : run step called after = some final) (hstopped : final.stopper = .returned)
    (halong : Along step LeavesDrained called after) :
    call ∈ final.finished ∧ call ∉ final.tasks := by
  have hcalled := conserved_of_run hbefore
  have hactive := (lifecycle_of_run hbefore).flag.mpr (.inl hidle)
  have hdrained : Drained call called := by
    refine ⟨hcalled, ?_, fun index hleaving ↦ ?_⟩
    · rw [hcalled.submitted, hreturned]
      exact .inr (.inr rfl)
    · rw [(lifecycle_of_run hbefore).leaving index hleaving] at hactive
      exact absurd hactive Bool.false_ne_true
  have hfinal : Drained call final :=
    run_invariant_along (fun _ _ _ hstate hallowed hstep ↦
      drained_move hstate hallowed (move_of_step hstep)) hdrained halong hafter
  have hwhole : run step (start size Call) (before ++ after) = some final := by
    rw [run_append, hbefore, Option.bind_some, hafter]
  have hexited := (lifecycle_of_run hwhole).returned hstopped
  have hstarted := hfinal.leaving ⟨0, hsize⟩ (.inl (hexited _))
  refine ⟨finished_of_exited hfinal.conserved hexited hstarted, fun hqueued ↦ ?_⟩
  have hdistinct := hfinal.conserved.distinct
  rw [← hfinal.conserved.order] at hdistinct
  exact (List.disjoint_of_nodup_append hdistinct) hstarted hqueued

/-- The steps of one call of `submit` that nobody waits for. -/
def submitSchedule (call : Bool) : List (Event 1 Bool) :=
  List.replicate 5 (.call call none)

/-- The only worker runs one task, blocks, is notified by `stop` and leaves through the test inside
the critical section. -/
def drainSchedule : List (Event 1 Bool) :=
  List.replicate 10 (.work soleWorker) ++ List.replicate 3 .stop ++
    List.replicate 4 (.work soleWorker) ++ List.replicate 2 .stop

theorem accepted_before_stop_finished_drainSchedule :
    ∃ called final, run step (start 1 Bool) (submitSchedule false) = some called ∧
      run step called drainSchedule = some final ∧ final.stopper = .returned ∧
      false ∈ final.finished ∧ false ∉ final.tasks := by
  have hmiddle : (run step (start 1 Bool) (submitSchedule false)).map (fun state ↦
      (state.stopper, state.caller false)) = some (.idle, .returned) := by decide +kernel
  have hend : (run step (start 1 Bool) (submitSchedule false ++ drainSchedule)).map (fun state ↦
      state.stopper) = some .returned := by decide +kernel
  have halong : Along step LeavesDrained (start 1 Bool)
      (submitSchedule false ++ drainSchedule) := by decide +kernel
  obtain ⟨called, final, hbefore, hafter, hcalled, hfinal⟩ := exists_of_views hmiddle hend
  exact ⟨called, final, hbefore, hafter, hfinal,
    accepted_before_stop_finished Nat.one_pos hbefore (congrArg Prod.fst hcalled)
      (congrArg Prod.snd hcalled) hafter hfinal (along_append hbefore halong).2⟩

/-- Two calls of `submit` return and the only worker starts the first task. -/
def busySchedule : List (Event 1 Bool) :=
  submitSchedule false ++ submitSchedule true ++ List.replicate 5 (.work soleWorker)

/-- The failure: while the worker runs the first task `stop` clears the flag; the worker comes back
to the loop condition and leaves; `stop` returns with the second task in the queue. -/
theorem queued_task_lost_at_stop :
    ∃ called final, run step (start 1 Bool) busySchedule = some called ∧
      run step called [.stop, .stop, .stop, .work 0, .work 0, .stop, .stop] = some final ∧
      (called.stopper, called.caller true) = (.idle, .returned) ∧
      (final.stopper, final.finished, final.tasks) = (.returned, [false], [true]) :=
  exists_of_views (by decide +kernel) (by decide +kernel)

/-! ### The lost wake-up -/

/-- `notify_all` of `stop` runs while no worker is between the evaluation of its wait predicate and
the moment it blocks. -/
def NotifiesOutsideWindow (state : State size Call) (event : Event size Call) : Prop :=
  event = .stop → state.stopper = .notify → ∀ index, state.worker index ≠ .sleep

instance (state : State size Call) (event : Event size Call) :
    Decidable (NotifiesOutsideWindow state event) :=
  inferInstanceAs (Decidable (_ → _ → ∀ _, _))

/-- `stop` is past its `notify_all`. -/
def StopPoint.pastNotify (point : StopPoint) : Prop :=
  point = .returned ∨ ∃ joined, point = .join joined

/-- A worker that is asleep or falling asleep without a notification. -/
def WorkerPoint.asleep (point : WorkerPoint Call) : Prop :=
  point = .sleep ∨ point = .waiting .blocked

/-- Past `notify_all` no worker is asleep or falling asleep. -/
structure Awake (state : State size Call) : Prop where
  lifecycle : Lifecycle state
  awake : state.stopper.pastNotify → ∀ index, ¬ (state.worker index).asleep

omit [DecidableEq Call] in
theorem Awake.flag_of_pastNotify {state : State size Call} (hstate : Awake state)
    (hpast : state.stopper.pastNotify) : state.activeFlag ≠ true := by
  rw [Ne, hstate.lifecycle.flag]
  rcases hpast with hpast | ⟨joined, hpast⟩ <;> simp [hpast]

omit [DecidableEq Call] in
/-- A step of one worker. Assumes: it falls asleep only while `stop` is not past `notify_all`. -/
theorem Awake.moveWorker {state next : State size Call} {index : Fin size}
    {point : WorkerPoint Call} (hstate : Awake state) (hlifecycle : Lifecycle next)
    (hstopper : next.stopper = state.stopper)
    (hworker : next.worker = Function.update state.worker index point)
    (hnew : point.asleep → ¬ state.stopper.pastNotify ∨ (state.worker index).asleep) :
    Awake next := by
  refine ⟨hlifecycle, fun hpast other hother ↦ ?_⟩
  rw [hstopper] at hpast
  rw [hworker] at hother
  by_cases hne : other = index
  · subst hne
    rw [Function.update_self] at hother
    rcases hnew hother with hnot | hold
    · exact hnot hpast
    · exact hstate.awake hpast other hold
  · rw [Function.update_of_ne hne] at hother
    exact hstate.awake hpast other hother

theorem awake_move {state next : State size Call} {event : Event size Call}
    (hstate : Awake state) (hallowed : NotifiesOutsideWindow state event)
    (hmove : Move state event next) : Awake next := by
  have hlifecycle := lifecycle_move hstate.lifecycle hmove
  cases hmove with
  | testActive | testStopped | passWait | dispatchLeave | dispatchLoop | dispatchRun | unlockLeave
  | unlockLoop | unlockRun | finish | spurious | takeMutex | notifyOne =>
    refine hstate.moveWorker hlifecycle rfl rfl fun hasleep ↦ ?_
    simp [WorkerPoint.asleep] at hasleep
  | enterWait hpoint hempty hflag =>
    exact hstate.moveWorker hlifecycle rfl rfl fun _ ↦
      .inl fun hpast ↦ hstate.flag_of_pastNotify hpast hflag
  | block hpoint =>
    exact hstate.moveWorker hlifecycle rfl rfl fun _ ↦ .inr (.inl hpoint)
  | submitThrow | submitPass | submitLock | emplace | submitUnlock | notifyNone =>
    exact ⟨hlifecycle, hstate.awake⟩
  | stopCall | stopStore =>
    exact ⟨hlifecycle, fun hpast ↦ by simp [StopPoint.pastNotify] at hpast⟩
  | stopNotify hpoint =>
    refine ⟨hlifecycle, fun _ index hasleep ↦ ?_⟩
    rcases hasleep with hsleep | hblocked
    · exact hallowed rfl hpoint index
        ((notifyAll_worker_eq_iff state index (by simp) (by simp)).mp hsleep)
    · exact notifyAll_worker_ne_blocked state index hblocked
  | joinOne hpoint | joinAll hpoint =>
    exact ⟨hlifecycle, fun _ ↦ hstate.awake (.inr ⟨_, hpoint⟩)⟩

/-- In every run in which `notify_all` never falls into the window of a worker, no worker is blocked
without a notification while `stop` joins. -/
theorem no_worker_stranded {events : List (Event size Call)} {state : State size Call}
    (hrun : run step (start size Call) events = some state)
    (halong : Along step NotifiesOutsideWindow (start size Call) events) :
    ¬ (state.activeFlag = false ∧ (∃ joined, state.stopper = .join joined) ∧
      ∃ index, state.worker index = .waiting .blocked) := by
  rintro ⟨-, hjoin, index, hblocked⟩
  have hstart : Awake (start size Call) :=
    ⟨lifecycle_start, fun hpast ↦ by simp [start, StopPoint.pastNotify] at hpast⟩
  have hstate : Awake state :=
    run_invariant_along (fun _ _ _ hstate hallowed hstep ↦
      awake_move hstate hallowed (move_of_step hstep)) hstart halong hrun
  exact hstate.awake (.inr hjoin) index (.inr hblocked)

/-- The worker is blocked when `notify_all` runs, and is notified by it. -/
theorem no_worker_stranded_blocked_before_notify :
    ∃ state, run step (start 1 Bool) (List.replicate 4 (.work 0) ++ List.replicate 3 .stop) =
        some state ∧
      (state.activeFlag, state.stopper, state.worker 0) = (false, .join 0, .waiting .notified) ∧
      ¬ (state.activeFlag = false ∧ (∃ joined, state.stopper = .join joined) ∧
        ∃ index, state.worker index = .waiting .blocked) := by
  have hview : (run step (start 1 Bool) (List.replicate 4 (.work 0) ++
      List.replicate 3 .stop)).map (fun state ↦
        (state.activeFlag, state.stopper, state.worker 0)) =
          some (false, .join 0, .waiting .notified) := by decide +kernel
  obtain ⟨state, hrun, hseen⟩ := exists_of_view hview
  exact ⟨state, hrun, hseen, no_worker_stranded hrun (by decide)⟩

/-- The failure: the worker has found the queue empty and the flag set; `stop` clears the flag and
notifies nobody; the worker blocks. -/
theorem worker_stranded_by_stop :
    ∃ state, run step (start 1 Bool)
        [.work 0, .work 0, .work 0, .stop, .stop, .stop, .work 0] = some state ∧
      (state.activeFlag, state.stopper, state.worker 0) = (false, .join 0, .waiting .blocked) :=
  exists_of_view (by decide +kernel)

/-- The window is exact: from every reachable state in which `notify_all` is about to run while a
worker is in it, two steps leave that worker blocked while `stop` joins. -/
theorem stranded_of_window {events : List (Event size Call)} {state : State size Call}
    {index : Fin size} (hrun : run step (start size Call) events = some state)
    (hstopper : state.stopper = .notify) (hsleep : state.worker index = .sleep) :
    ∃ next, run step state [.stop, .work index] = some next ∧ next.activeFlag = false ∧
      next.stopper = .join 0 ∧ next.worker index = .waiting .blocked := by
  have hflag : state.activeFlag = false := by
    have hcleared : ¬ state.activeFlag = true := by
      simp [(lifecycle_of_run hrun).flag, hstopper]
    simpa using hcleared
  have hkept : state.notifyAll.worker index = .sleep :=
    (notifyAll_worker_eq_iff state index (by simp) (by simp)).mpr hsleep
  refine ⟨{ (state.notifyAll.setWorker index (.waiting .blocked)) with
    mutex := none, stopper := .join 0 }, ?_, hflag, rfl, ?_⟩
  · simp only [run, step, stopStep, hstopper, workerStep, hkept, Option.bind_some]
    rfl
  · exact Function.update_self index _ _

end TestLinux.ThreadPool
