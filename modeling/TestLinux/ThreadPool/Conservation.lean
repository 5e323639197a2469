import TestLinux.ThreadPool.Model

/-!
# No task of the thread pool is lost, repeated or reordered

`Conserved` is the accounting of the pool: the tasks taken out of the queue followed by the tasks
still in it are the accepted tasks in the order of their `emplace`; the tasks taken out are those
some worker holds together with the finished ones; no call is accepted twice, because the accepted
calls are exactly those past their `emplace`. Every transition keeps it (`conserved_move`), so it
holds in every state that any interleaving reaches (`conserved_of_run`), and
`accepted_eq_queued_add_running_add_finished` reads the multiset equation off it.
-/

set_option autoImplicit false
set_option relaxedAutoImplicit false

namespace TestLinux.ThreadPool

open TestLinux.Threads TestLinux.Runs

variable {size : ℕ} {Call : Type*}

/-- The task that a worker has taken out of the queue and not finished. -/
def WorkerPoint.task : WorkerPoint Call → Multiset Call
  | .unlock (.run task) => {task}
  | .run task => {task}
  | _ => 0

/-- The tasks held by the workers. -/
def State.running (state : State size Call) : Multiset Call :=
  ∑ index, (state.worker index).task

/-- A call of `submit` that is past its `emplace`. -/
def CallerPoint.submitted (point : CallerPoint) : Prop :=
  point = .unlock ∨ point = .notify ∨ point = .returned

/-- The accounting of the tasks. -/
structure Conserved (state : State size Call) : Prop where
  order : state.started ++ state.tasks = state.accepted
  taken : (state.started : Multiset Call) = state.running + state.finished
  distinct : state.accepted.Nodup
  submitted : ∀ call, call ∈ state.accepted ↔ (state.caller call).submitted

theorem conserved_start : Conserved (start size Call) where
  order := rfl
  taken := by simp [start, State.running, WorkerPoint.task]
  distinct := List.nodup_nil
  submitted := fun call ↦ by simp [start, CallerPoint.submitted]

/-- A step that leaves the queue, the history and the program points of the callers alone and
moves no task from one worker to another. -/
theorem Conserved.congr {state next : State size Call} (hstate : Conserved state)
    (htasks : next.tasks = state.tasks) (hcaller : next.caller = state.caller)
    (haccepted : next.accepted = state.accepted) (hstarted : next.started = state.started)
    (hfinished : next.finished = state.finished) (hrunning : next.running = state.running) :
    Conserved next where
  order := by rw [hstarted, htasks, haccepted, hstate.order]
  taken := by rw [hstarted, hrunning, hfinished, hstate.taken]
  distinct := haccepted ▸ hstate.distinct
  submitted := fun call ↦ by rw [haccepted, hcaller, hstate.submitted]

/-- A step of one caller that does not pass its `emplace` and leaves everything else alone. -/
theorem Conserved.moveCaller [DecidableEq Call] {state next : State size Call} {call : Call}
    {point : CallerPoint} (hstate : Conserved state) (htasks : next.tasks = state.tasks)
    (hworker : next.worker = state.worker)
    (hcaller : next.caller = Function.update state.caller call point)
    (hpoint : point.submitted ↔ (state.caller call).submitted)
    (haccepted : next.accepted = state.accepted) (hstarted : next.started = state.started)
    (hfinished : next.finished = state.finished) : Conserved next where
  order := by rw [hstarted, htasks, haccepted, hstate.order]
  taken := by rw [hstarted, hfinished, hstate.taken, State.running, State.running, hworker]
  distinct := haccepted ▸ hstate.distinct
  submitted := by
    intro other
    rw [haccepted, hcaller, hstate.submitted]
    by_cases hother : other = call
    · subst hother
      rw [Function.update_self, hpoint]
    · rw [Function.update_of_ne hother]

theorem running_setWorker_add (state : State size Call) (index : Fin size)
    (point : WorkerPoint Call) :
    (state.setWorker index point).running + (state.worker index).task =
      state.running + point.task :=
  sum_update_add WorkerPoint.task state.worker index point

/-- Moving a worker between two points at which it holds the same task. -/
theorem running_setWorker {state : State size Call} {index : Fin size} {point : WorkerPoint Call}
    (htask : (state.worker index).task = point.task) :
    (state.setWorker index point).running = state.running := by
  have hsum := running_setWorker_add state index point
  rw [htask] at hsum
  exact add_right_cancel hsum

theorem running_notifyAll [DecidableEq Call] (state : State size Call) :
    state.notifyAll.running = state.running := by
  refine Finset.sum_congr rfl fun index _ ↦ ?_
  simp only [State.notifyAll]
  split_ifs with hblocked
  · rw [hblocked]
    rfl
  · rfl

theorem accepted_eq_queued_add_running_add_finished {state : State size Call}
    (hstate : Conserved state) :
    (state.accepted : Multiset Call) = state.tasks + state.running + state.finished := by
  rw [← hstate.order, ← Multiset.coe_add, hstate.taken, add_comm, add_assoc]

theorem conserved_dispatchRun {state : State size Call} {index : Fin size} {task : Call}
    {rest : List Call} (hstate : Conserved state) (hpoint : state.worker index = .dispatch)
    (htasks : state.tasks = task :: rest) :
    Conserved { state.setWorker index (.unlock (.run task)) with
      tasks := rest
      started := state.started ++ [task] } where
  order := by
    change state.started ++ [task] ++ rest = state.accepted
    rw [← hstate.order, htasks, List.append_assoc, List.singleton_append]
  taken := by
    have hsum := running_setWorker_add state index (.unlock (.run task))
    rw [hpoint] at hsum
    simp only [WorkerPoint.task, add_zero] at hsum
    change ((state.started ++ [task] : List Call) : Multiset Call) =
      (state.setWorker index (.unlock (.run task))).running + state.finished
    rw [hsum, ← Multiset.coe_add, hstate.taken, Multiset.coe_singleton]
    exact add_right_comm _ _ _
  distinct := hstate.distinct
  submitted := hstate.submitted

theorem conserved_finish {state : State size Call} {index : Fin size} {task : Call}
    (hstate : Conserved state) (hpoint : state.worker index = .run task) :
    Conserved { state.setWorker index .test with finished := state.finished ++ [task] } where
  order := hstate.order
  taken := by
    have hsum := running_setWorker_add state index .test
    rw [hpoint] at hsum
    simp only [WorkerPoint.task, add_zero] at hsum
    change (state.started : Multiset Call) =
      (state.setWorker index .test).running +
        ((state.finished ++ [task] : List Call) : Multiset Call)
    rw [hstate.taken, ← hsum, ← Multiset.coe_add, Multiset.coe_singleton, add_assoc,
      add_comm ({task} : Multiset Call)]
  distinct := hstate.distinct
  submitted := hstate.submitted

variable [DecidableEq Call]

theorem conserved_emplace {state : State size Call} {call : Call} (hstate : Conserved state)
    (hpoint : state.caller call = .emplace) :
    Conserved { state.setCaller call .unlock with
      tasks := state.tasks ++ [call]
      accepted := state.accepted ++ [call] } where
  order := by
    change state.started ++ (state.tasks ++ [call]) = state.accepted ++ [call]
    rw [← hstate.order, List.append_assoc]
  taken := hstate.taken
  distinct := by
    have hnew : call ∉ state.accepted := by
      rw [hstate.submitted, hpoint]
      simp [CallerPoint.submitted]
    change (state.accepted ++ [call]).Nodup
    rw [← List.concat_eq_append]
    exact (List.nodup_concat _ _).mpr ⟨hnew, hstate.distinct⟩
  submitted := by
    intro other
    rw [List.mem_append, List.mem_singleton, hstate.submitted]
    by_cases hother : other = call
    · subst hother
      simp [CallerPoint.submitted]
    · simp [hother]

/-- Every transition keeps the accounting. -/
theorem conserved_move {state next : State size Call} {event : Event size Call}
    (hstate : Conserved state) (hmove : Move state event next) : Conserved next := by
  cases hmove with
  | testActive hpoint | testStopped hpoint | passWait hpoint | enterWait hpoint | block hpoint
  | dispatchLeave hpoint | dispatchLoop hpoint | unlockLeave hpoint | unlockLoop hpoint
  | unlockRun hpoint | spurious hpoint =>
    exact hstate.congr rfl rfl rfl rfl rfl (running_setWorker (by rw [hpoint]; rfl))
  | takeMutex hpoint =>
    refine hstate.congr rfl rfl rfl rfl rfl (running_setWorker ?_)
    rcases hpoint with hpoint | hpoint | hpoint <;> rw [hpoint] <;> rfl
  | dispatchRun hpoint htasks => exact conserved_dispatchRun hstate hpoint htasks
  | finish hpoint => exact conserved_finish hstate hpoint
  | submitThrow hpoint | submitPass hpoint | submitLock hpoint | submitUnlock hpoint
  | notifyNone hpoint =>
    exact hstate.moveCaller rfl rfl rfl (by rw [hpoint]; simp [CallerPoint.submitted]) rfl rfl rfl
  | emplace hpoint => exact conserved_emplace hstate hpoint
  | @notifyOne call index hpoint hblocked =>
    have hcaller : Conserved (state.setCaller call .returned) :=
      hstate.moveCaller rfl rfl rfl (by rw [hpoint]; simp [CallerPoint.submitted]) rfl rfl rfl
    exact hcaller.congr rfl rfl rfl rfl rfl (running_setWorker (by
      change (state.worker index).task = _
      rw [hblocked]
      rfl))
  | stopNotify => exact hstate.congr rfl rfl rfl rfl rfl (running_notifyAll state)
  | stopCall | stopStore | joinOne | joinAll => exact hstate.congr rfl rfl rfl rfl rfl rfl

/-- The accounting holds in every reachable state. -/
theorem conserved_of_run {events : List (Event size Call)} {state : State size Call}
    (hrun : run step (start size Call) events = some state) : Conserved state :=
  run_invariant (fun _ _ _ hstate hstep ↦ conserved_move hstate (move_of_step hstep))
    conserved_start hrun

/-- In every reachable state of every interleaving the accepted tasks are the disjoint union of the
queued, the running and the finished ones; no task leaves the queue twice, and the tasks leave it in
the order in which their `emplace` ran; a call of `submit` that throws is not accepted, and the step
in which it throws leaves the queue alone. -/
theorem tasks_conserved {events : List (Event size Call)} {state : State size Call}
    (hrun : run step (start size Call) events = some state) :
    (state.accepted : Multiset Call) = state.tasks + state.running + state.finished ∧
      state.accepted.Nodup ∧ state.started.Nodup ∧
      state.started ++ state.tasks = state.accepted ∧
      (∀ call, state.caller call = .threw → call ∉ state.accepted) ∧
      ∀ call chosen next, step state (.call call chosen) = some next →
        next.caller call = .threw → next.tasks = state.tasks := by
  have hstate := conserved_of_run hrun
  refine ⟨accepted_eq_queued_add_running_add_finished hstate, hstate.distinct, ?_, hstate.order,
    ?_, ?_⟩
  · have hdistinct := hstate.distinct
    rw [← hstate.order] at hdistinct
    exact hdistinct.of_append_left
  · intro call hthrew
    rw [hstate.submitted, hthrew]
    simp [CallerPoint.submitted]
  · intro call chosen next hstep hthrew
    cases move_of_step hstep with
    | emplace => simp at hthrew
    | submitThrow | submitPass | submitLock | submitUnlock | notifyOne | notifyNone => rfl

/-- The worker of a pool of one. -/
def soleWorker : Fin 1 := 0

/-- A schedule of one worker after which one task is finished, one is running, one is queued, and
one call has thrown. -/
def sampleSchedule : List (Event 1 (Fin 4)) :=
  List.replicate 5 (.call 0 none) ++ List.replicate 6 (.work soleWorker) ++
    List.replicate 5 (.call 1 none) ++ List.replicate 5 (.call 2 none) ++
    List.replicate 5 (.work soleWorker) ++ [.stop, .stop, .call 3 none]

theorem tasks_conserved_sampleSchedule :
    ∃ state, run step (start 1 (Fin 4)) sampleSchedule = some state ∧
      (state.finished, state.worker 0, state.tasks, state.caller 3) = ([0], .run 1, [2], .threw) ∧
      (state.accepted : Multiset (Fin 4)) = state.tasks + state.running + state.finished := by
  have hview : (run step (start 1 (Fin 4)) sampleSchedule).map (fun state ↦
      (state.finished, state.worker 0, state.tasks, state.caller 3)) =
        some ([0], .run 1, [2], .threw) := by decide +kernel
  obtain ⟨state, hrun, hseen⟩ := exists_of_view hview
  exact ⟨state, hrun, hseen, (tasks_conserved hrun).1⟩

end TestLinux.ThreadPool
