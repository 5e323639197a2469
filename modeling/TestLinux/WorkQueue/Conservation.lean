import TestLinux.WorkQueue.Model
import TestLinux.Library.Runs

/-!
# No job of the work queue is lost or taken twice

`LL_ADD` leaves the back pointer of the old front null, so the list of waiting jobs has no back
pointers at all (`Stacked`). The only job that a worker ever takes out is the front of the list, and
for the front a null back pointer is right: `LL_REMOVE` then changes nothing but the front and the
node that is taken out (`llRemove_front`).

`Conserved` is the accounting: the list holds the jobs that were added and not taken, most recent
first; a job is added by its own call only, and taken at most once; and the job in the hands of a
call that has not added it, or of a worker that has not finished it, is a live node that is not in
the list. The last part is what makes `free` and `malloc` harmless: what a worker frees, or what is
handed out again, is never a node of the list. Every transition but those of `workqueue_shutdown`
keeps the accounting (`conserved_move`).
-/

set_option autoImplicit false
set_option relaxedAutoImplicit false

namespace TestLinux.WorkQueue

open TestLinux.LinkedList TestLinux.Threads TestLinux.Runs

/-! ### The macros -/

section Macros

variable {α : Type*}

/-- `LL_ADD` of a live item changes that item and nothing else. -/
theorem llAdd_live {heap : Heap α} {item : ℕ} {node : Node α} (hnode : heap.get item = some node)
    (list : Option ℕ) :
    ∃ heap', llAdd heap item list = some (heap', some item) ∧
      heap'.get item = some ⟨node.data, none, list⟩ ∧
      ∀ other, other ≠ item → heap'.get other = heap.get other := by
  have hprev := Heap.setPrev_eq none hnode
  have hnext := Heap.setNext_eq list (Heap.get_set_self heap item { node with prev := none })
  refine ⟨(heap.set item { node with prev := none }).set item ⟨node.data, none, list⟩, ?_,
    Heap.get_set_self _ _ _, fun other hother ↦ ?_⟩
  · rw [llAdd, hprev, Option.bind_some, hnext, Option.map_some]
  · rw [Heap.get_set_of_ne _ _ hother, Heap.get_set_of_ne _ _ hother]

/-- Clearing the back pointer of the first node of a stack, which is null, changes nothing. -/
theorem linkPrev_null {heap : Heap α} {first : Option ℕ} {nodes : List (ℕ × α)}
    (hstacked : Stacked heap first nodes) :
    ∃ heap', heap.linkPrev first none = some heap' ∧
      ∀ other, heap'.get other = heap.get other := by
  cases nodes with
  | nil =>
    cases hstacked
    exact ⟨heap, rfl, fun _ ↦ rfl⟩
  | cons node rest =>
    obtain ⟨rfl, next, hnode, -⟩ := hstacked
    refine ⟨_, Heap.setPrev_eq none hnode, fun other ↦ ?_⟩
    by_cases hother : other = node.1
    · rw [hother, Heap.get_set_self, hnode]
    · rw [Heap.get_set_of_ne _ _ hother]

/-- `LL_REMOVE` of the front of a stack changes the front and that node, and nothing else. -/
theorem llRemove_front {heap : Heap α} {item : ℕ} {data : α} {next : Option ℕ}
    {rest : List (ℕ × α)} (hnode : heap.get item = some ⟨data, none, next⟩)
    (hrest : Stacked heap next rest) :
    ∃ heap', llRemove heap item (some item) = some (heap', next) ∧
      heap'.get item = some ⟨data, none, none⟩ ∧
      ∀ other, other ≠ item → heap'.get other = heap.get other := by
  obtain ⟨heap₁, hlink, hsame⟩ := linkPrev_null hrest
  refine ⟨heap₁.set item ⟨data, none, none⟩, ?_, Heap.get_set_self _ _ _,
    fun other hother ↦ ?_⟩
  · have hnode₁ := (hsame item).trans hnode
    simp only [llRemove, hnode, Option.bind_some, Heap.linkNext, hlink, hnode₁, Option.map_some,
      ↓reduceIte]
  · rw [Heap.get_set_of_ne _ _ hother, hsame]

end Macros

/-! ### The accounting -/

variable {size : ℕ} {Job : Type*}

/-- The job object in the hands of a call that has not added it yet. -/
def CallerPoint.holding : CallerPoint → Option ℕ
  | .lock addr | .add addr => some addr
  | _ => none

/-- The job object in the hands of a worker that has taken it and not finished it. -/
def WorkerPoint.holding : WorkerPoint → Option ℕ
  | .unlock job => job
  | .run job => some job
  | _ => none

/-- A call of `workqueue_add_job` that is past its `LL_ADD`. -/
def CallerPoint.submitted (point : CallerPoint) : Prop :=
  point = .signal ∨ point = .unlock ∨ point = .returned

/-- The jobs that some worker has taken. -/
def State.takenJobs (state : State size Job) : List Job := state.taken.map Prod.fst

/-- A worker moves between two points at which it holds the same. -/
theorem holding_setWorker {state : State size Job} {index : Fin size} {point : WorkerPoint}
    (hsame : (state.worker index).holding = point.holding) (other : Fin size) :
    ((state.setWorker index point).worker other).holding = (state.worker other).holding := by
  by_cases hother : other = index
  · subst hother
    rw [setWorker_worker, Function.update_self, hsame]
  · rw [setWorker_worker, Function.update_of_ne hother]

variable [DecidableEq Job]

/-- The jobs that were added and not taken, the most recent first. -/
def State.pending (state : State size Job) : List Job :=
  state.added.reverse.filter fun job ↦ job ∉ state.takenJobs

/-- The accounting of the jobs. -/
structure Conserved (state : State size Job) : Prop where
  chain : ∃ nodes, Stacked state.heap state.waitingJobs nodes ∧ (addresses nodes).Nodup ∧
    nodes.map Prod.snd = state.pending
  distinct : state.added.Nodup
  submitted : ∀ job, job ∈ state.added ↔ (state.caller job).submitted
  once : state.takenJobs.Nodup
  subset : ∀ job ∈ state.takenJobs, job ∈ state.added
  created : ∀ job addr, (state.caller job).holding = some addr →
    ∃ node, state.heap.get addr = some node ∧ node.data = job
  held : ∀ index addr, (state.worker index).holding = some addr →
    ∃ node, state.heap.get addr = some node ∧ (node.data, index) ∈ state.taken

theorem conserved_start : Conserved (start size Job) where
  chain := ⟨[], rfl, List.nodup_nil, rfl⟩
  distinct := List.nodup_nil
  submitted := fun job ↦ by simp [start, CallerPoint.submitted]
  once := List.nodup_nil
  subset := fun job hjob ↦ absurd hjob List.not_mem_nil
  created := fun job addr haddr ↦ by simp [start, CallerPoint.holding] at haddr
  held := fun index addr haddr ↦ by simp [start, WorkerPoint.holding] at haddr

theorem mem_pending {state : State size Job} {job : Job} :
    job ∈ state.pending ↔ job ∈ state.added ∧ job ∉ state.takenJobs := by
  simp [State.pending]

/-- A job in the hands of a call has not been added. -/
theorem CallerPoint.not_submitted_of_holding {point : CallerPoint} {addr : ℕ}
    (hholding : point.holding = some addr) : ¬ point.submitted := by
  cases point <;> simp_all [CallerPoint.holding, CallerPoint.submitted]

/-- A job object that a worker holds is nobody else's: not in the list, not in the hands of a call
or of another worker. -/
theorem Conserved.apart_of_held {state : State size Job} (hstate : Conserved state)
    {index : Fin size} {addr : ℕ} (hheld : (state.worker index).holding = some addr) :
    (∀ nodes, Stacked state.heap state.waitingJobs nodes → nodes.map Prod.snd = state.pending →
        addr ∉ addresses nodes) ∧
      (∀ job other, (state.caller job).holding = some other → other ≠ addr) ∧
      ∀ index', index' ≠ index → (state.worker index').holding ≠ some addr := by
  obtain ⟨node, hnode, htaken⟩ := hstate.held index addr hheld
  have hjob : node.data ∈ state.takenJobs := List.mem_map.mpr ⟨_, htaken, rfl⟩
  refine ⟨fun nodes hstacked hpending haddr ↦ ?_, fun job other hother heq ↦ ?_,
    fun index' hne hheld' ↦ ?_⟩
  · obtain ⟨⟨_, data⟩, hmem, rfl⟩ := List.mem_map.mp haddr
    obtain ⟨next, hlive⟩ := hstacked.get_of_mem hmem
    have hdata : node.data = data := by
      rw [hnode, Option.some.injEq] at hlive
      rw [hlive]
    have hwaiting : data ∈ state.pending := hpending ▸ List.mem_map.mpr ⟨_, hmem, rfl⟩
    exact (mem_pending.mp hwaiting).2 (hdata ▸ hjob)
  · subst heq
    obtain ⟨node', hnode', hdata⟩ := hstate.created job other hother
    rw [hnode, Option.some.injEq] at hnode'
    subst hnode'
    have hadded := hstate.subset _ hjob
    rw [hdata, hstate.submitted] at hadded
    exact CallerPoint.not_submitted_of_holding hother hadded
  · obtain ⟨node', hnode', htaken'⟩ := hstate.held index' addr hheld'
    rw [hnode, Option.some.injEq] at hnode'
    subst hnode'
    have hpair := List.inj_on_of_nodup_map hstate.once htaken' htaken rfl
    exact hne (Prod.mk.inj hpair).2

/-! ### Steps that leave the list alone -/

/-- A step that leaves the heap, the list and the history alone and in which no job changes
hands. -/
theorem Conserved.congr {state next : State size Job} (hstate : Conserved state)
    (hheap : next.heap = state.heap) (hlist : next.waitingJobs = state.waitingJobs)
    (hadded : next.added = state.added) (htaken : next.taken = state.taken)
    (hcaller : ∀ job, (next.caller job).holding = (state.caller job).holding ∧
      ((next.caller job).submitted ↔ (state.caller job).submitted))
    (hworker : ∀ index, (next.worker index).holding = (state.worker index).holding) :
    Conserved next where
  chain := by
    rw [hheap, hlist, State.pending, State.takenJobs, hadded, htaken]
    exact hstate.chain
  distinct := hadded ▸ hstate.distinct
  submitted := fun job ↦ by rw [hadded, hstate.submitted, (hcaller job).2]
  once := by
    rw [State.takenJobs, htaken]
    exact hstate.once
  subset := fun job ↦ by
    rw [State.takenJobs, htaken, hadded]
    exact hstate.subset job
  created := fun job addr haddr ↦ by
    rw [hheap]
    exact hstate.created job addr ((hcaller job).1 ▸ haddr)
  held := fun index addr haddr ↦ by
    rw [hheap, htaken]
    exact hstate.held index addr (hworker index ▸ haddr)

/-- A call moves between two points at which it holds the same. -/
theorem holding_setCaller {state : State size Job} {job : Job} {point : CallerPoint}
    (hsame : (state.caller job).holding = point.holding)
    (hsubmitted : (state.caller job).submitted ↔ point.submitted) (other : Job) :
    ((state.setCaller job point).caller other).holding = (state.caller other).holding ∧
      (((state.setCaller job point).caller other).submitted ↔
        (state.caller other).submitted) := by
  by_cases hother : other = job
  · subst hother
    rw [setCaller_caller, Function.update_self]
    exact ⟨hsame.symm, hsubmitted.symm⟩
  · rw [setCaller_caller, Function.update_of_ne hother]
    exact ⟨rfl, Iff.rfl⟩

theorem Conserved.moveWorker {state next : State size Job} {index : Fin size}
    {point : WorkerPoint} (hstate : Conserved state)
    (hsame : (state.worker index).holding = point.holding)
    (hnext : next = { state.setWorker index point with jobsMutex := next.jobsMutex }) :
    Conserved next := by
  rw [hnext]
  exact hstate.congr rfl rfl rfl rfl (fun _ ↦ ⟨rfl, Iff.rfl⟩) (holding_setWorker hsame)

theorem Conserved.moveCaller {state next : State size Job} {job : Job} {point : CallerPoint}
    (hstate : Conserved state) (hsame : (state.caller job).holding = point.holding)
    (hsubmitted : (state.caller job).submitted ↔ point.submitted)
    (hnext : next = { state.setCaller job point with jobsMutex := next.jobsMutex }) :
    Conserved next := by
  rw [hnext]
  exact hstate.congr rfl rfl rfl rfl (holding_setCaller hsame hsubmitted) fun _ ↦ rfl

/-! ### Steps on the heap and the list -/

/-- A call gets the memory of its job: no live node is there. -/
theorem conserved_create {state : State size Job} {job : Job} {addr : ℕ}
    (hstate : Conserved state) (hpoint : state.caller job = .idle)
    (hnew : state.heap.get addr = none) :
    Conserved { state.setCaller job (.lock addr) with
      heap := state.heap.set addr ⟨job, none, none⟩ } where
  chain := by
    obtain ⟨nodes, hstacked, hnodup, hpending⟩ := hstate.chain
    refine ⟨nodes, hstacked.congr fun other hother ↦ Heap.get_set_of_ne _ _ ?_, hnodup, hpending⟩
    rintro rfl
    obtain ⟨⟨_, data⟩, hmem, rfl⟩ := List.mem_map.mp hother
    obtain ⟨next, hlive⟩ := hstacked.get_of_mem hmem
    simp [hnew] at hlive
  distinct := hstate.distinct
  submitted := by
    intro other
    change other ∈ state.added ↔ _
    rw [hstate.submitted]
    by_cases hother : other = job
    · subst hother
      simp [hpoint, CallerPoint.submitted]
    · simp [hother]
  once := hstate.once
  subset := hstate.subset
  created := by
    intro other addr' haddr'
    by_cases hother : other = job
    · subst hother
      simp only [setCaller_caller, Function.update_self, CallerPoint.holding,
        Option.some.injEq] at haddr'
      subst haddr'
      exact ⟨_, Heap.get_set_self _ _ _, rfl⟩
    · simp only [setCaller_caller, Function.update_of_ne hother] at haddr'
      obtain ⟨node, hnode, hdata⟩ := hstate.created other addr' haddr'
      refine ⟨node, ?_, hdata⟩
      rw [Heap.get_set_of_ne _ _ fun heq ↦ by simp [← heq, hnode] at hnew, hnode]
  held := by
    intro index addr' haddr'
    obtain ⟨node, hnode, htaken⟩ := hstate.held index addr' haddr'
    refine ⟨node, ?_, htaken⟩
    rw [Heap.get_set_of_ne _ _ fun heq ↦ by simp [← heq, hnode] at hnew, hnode]

/-- The run of a job ends and frees it. -/
theorem conserved_finish {state : State size Job} {index : Fin size} {job : ℕ}
    (hstate : Conserved state) (hpoint : state.worker index = .run job) :
    Conserved { state.setWorker index .lock with heap := state.heap.free job } := by
  have hheld : (state.worker index).holding = some job := by rw [hpoint]; rfl
  obtain ⟨hlist, hcallers, hworkers⟩ := hstate.apart_of_held hheld
  refine ⟨?_, hstate.distinct, hstate.submitted, hstate.once, hstate.subset, ?_, ?_⟩
  · obtain ⟨nodes, hstacked, hnodup, hpending⟩ := hstate.chain
    refine ⟨nodes, hstacked.congr fun other hother ↦ Heap.get_free_of_ne _ ?_, hnodup, hpending⟩
    rintro rfl
    exact hlist nodes hstacked hpending hother
  · intro other addr haddr
    obtain ⟨node, hnode, hdata⟩ := hstate.created other addr haddr
    exact ⟨node, (Heap.get_free_of_ne _ (hcallers other addr haddr)).trans hnode, hdata⟩
  · intro other addr haddr
    by_cases hother : other = index
    · subst hother
      simp [WorkerPoint.holding] at haddr
    · simp only [setWorker_worker, Function.update_of_ne hother] at haddr
      obtain ⟨node, hnode, htaken⟩ := hstate.held other addr haddr
      refine ⟨node, (Heap.get_free_of_ne _ ?_).trans hnode, htaken⟩
      rintro rfl
      exact hworkers other hother haddr

/-- A call adds its job at the front of the list. -/
theorem conserved_add {state : State size Job} {job : Job} {addr : ℕ} {heap : Heap Job}
    {waitingJobs : Option ℕ} (hstate : Conserved state)
    (hpoint : state.caller job = .add addr)
    (hadd : llAdd state.heap addr state.waitingJobs = some (heap, waitingJobs)) :
    Conserved { state.setCaller job .signal with
      heap := heap
      waitingJobs := waitingJobs
      added := state.added ++ [job] } := by
  have hholding : (state.caller job).holding = some addr := by rw [hpoint]; rfl
  obtain ⟨node, hnode, rfl⟩ := hstate.created job addr hholding
  have hnew : node.data ∉ state.added := by
    rw [hstate.submitted]
    exact CallerPoint.not_submitted_of_holding hholding
  have huntaken : node.data ∉ state.takenJobs := fun hmem ↦ hnew (hstate.subset _ hmem)
  obtain ⟨heap', hadd', hfront, hothers⟩ := llAdd_live hnode state.waitingJobs
  rw [hadd, Option.some.injEq, Prod.mk.injEq] at hadd'
  obtain ⟨rfl, rfl⟩ := hadd'
  refine ⟨?_, ?_, ?_, hstate.once, fun job hjob ↦ ?_, ?_, ?_⟩
  · obtain ⟨nodes, hstacked, hnodup, hpending⟩ := hstate.chain
    have hfresh : addr ∉ addresses nodes := by
      intro haddr
      obtain ⟨⟨other, data⟩, hmem, rfl⟩ := List.mem_map.mp haddr
      obtain ⟨next, hlive⟩ := hstacked.get_of_mem hmem
      have hwaiting : data ∈ state.pending := hpending ▸ List.mem_map.mpr ⟨_, hmem, rfl⟩
      exact Heap.ne_of_data_ne hnode hlive (fun heq ↦ hnew (heq ▸ (mem_pending.mp hwaiting).1)) rfl
    refine ⟨(addr, node.data) :: nodes, ⟨rfl, state.waitingJobs, hfront, ?_⟩,
      List.nodup_cons.mpr ⟨hfresh, hnodup⟩, ?_⟩
    · exact hstacked.congr fun other hother ↦ hothers other fun heq ↦ hfresh (heq ▸ hother)
    · change node.data :: nodes.map Prod.snd =
        (state.added ++ [node.data]).reverse.filter fun job ↦ job ∉ state.takenJobs
      rw [List.reverse_append, List.reverse_singleton, List.singleton_append,
        List.filter_cons_of_pos (by simpa using huntaken), hpending, State.pending]
  · change (state.added ++ [node.data]).Nodup
    rw [← List.concat_eq_append]
    exact (List.nodup_concat _ _).mpr ⟨hnew, hstate.distinct⟩
  · intro other
    rw [List.mem_append, List.mem_singleton, hstate.submitted]
    by_cases hother : other = node.data
    · simp [hother, CallerPoint.submitted]
    · simp [hother]
  · exact List.mem_append_left _ (hstate.subset job hjob)
  · intro other addr' haddr'
    by_cases hother : other = node.data
    · simp [hother, CallerPoint.holding] at haddr'
    · simp only [setCaller_caller, Function.update_of_ne hother] at haddr'
      obtain ⟨node', hnode', hdata⟩ := hstate.created other addr' haddr'
      have hapart := Heap.ne_of_data_ne hnode hnode' (hdata ▸ hother)
      exact ⟨node', (hothers addr' hapart).trans hnode', hdata⟩
  · intro index addr' haddr'
    obtain ⟨node', hnode', htaken⟩ := hstate.held index addr' haddr'
    have hapart := Heap.ne_of_data_ne hnode hnode' fun heq ↦
      huntaken (heq ▸ List.mem_map.mpr ⟨_, htaken, rfl⟩)
    exact ⟨node', (hothers addr' hapart).trans hnode', htaken⟩

/-- Taking the first of the pending jobs leaves the others, in their order. -/
theorem filter_taken {added taken rest : List Job} {job : Job} (hdistinct : added.Nodup)
    (hpending : job :: rest = added.reverse.filter fun other ↦ other ∉ taken) :
    rest = added.reverse.filter fun other ↦ other ∉ taken ++ [job] := by
  have hnodup : (job :: rest).Nodup := hpending ▸ (List.nodup_reverse.mpr hdistinct).filter _
  have hrest : ∀ other ∈ rest, other ≠ job := fun other hother heq ↦
    (List.nodup_cons.mp hnodup).1 (heq ▸ hother)
  calc rest = (job :: rest).filter (· ≠ job) := by
        rw [List.filter_cons_of_neg (by simp), List.filter_eq_self.mpr (by simpa using hrest)]
    _ = added.reverse.filter fun other ↦ other ∉ taken ++ [job] := by
        rw [hpending, List.filter_filter]
        refine List.filter_congr fun other _ ↦ ?_
        simp [and_comm]

/-- A worker takes out the front of the list. -/
theorem conserved_takeJob {state : State size Job} {index : Fin size} {job : ℕ} {node : Node Job}
    {heap : Heap Job} {waitingJobs : Option ℕ} (hstate : Conserved state)
    (hjob : state.waitingJobs = some job) (hnode : state.heap.get job = some node)
    (hremove : llRemove state.heap job (some job) = some (heap, waitingJobs)) :
    Conserved { state.setWorker index (.unlock (some job)) with
      heap := heap
      waitingJobs := waitingJobs
      taken := state.taken ++ [(node.data, index)] } := by
  obtain ⟨nodes, hstacked, hnodup, hpending⟩ := hstate.chain
  cases nodes with
  | nil => exact absurd (hjob.symm.trans hstacked) (Option.some_ne_none _)
  | cons front rest =>
    obtain ⟨hfirst, next, hfront, hrest⟩ := hstacked
    rw [hjob, Option.some.injEq] at hfirst
    obtain ⟨addr, data⟩ := front
    subst hfirst
    rw [hfront, Option.some.injEq] at hnode
    subst hnode
    obtain ⟨heap', hremove', htaken, hothers⟩ := llRemove_front hfront hrest
    rw [hremove, Option.some.injEq, Prod.mk.injEq] at hremove'
    obtain ⟨rfl, rfl⟩ := hremove'
    obtain ⟨hfresh, hnodup'⟩ := List.nodup_cons.mp hnodup
    have hwaiting : data ∈ state.pending := hpending ▸ List.mem_cons_self
    obtain ⟨hadded, huntaken⟩ := mem_pending.mp hwaiting
    have htakenJobs : (state.taken ++ [(data, index)]).map Prod.fst = state.takenJobs ++ [data] :=
      List.map_append
    refine ⟨⟨rest, ?_, hnodup', ?_⟩, hstate.distinct, hstate.submitted, ?_, ?_, ?_, ?_⟩
    · exact hrest.congr fun other hother ↦ hothers other fun heq ↦ hfresh (heq ▸ hother)
    · rw [State.pending, State.takenJobs, htakenJobs]
      exact filter_taken hstate.distinct hpending
    · rw [State.takenJobs, htakenJobs, ← List.concat_eq_append]
      exact (List.nodup_concat _ _).mpr ⟨huntaken, hstate.once⟩
    · intro other hother
      rw [State.takenJobs, htakenJobs, List.mem_append, List.mem_singleton] at hother
      rcases hother with hother | rfl
      · exact hstate.subset other hother
      · exact hadded
    · intro other addr' haddr'
      obtain ⟨node', hnode', hdata⟩ := hstate.created other addr' haddr'
      have hapart := Heap.ne_of_data_ne hfront hnode' fun heq ↦
        CallerPoint.not_submitted_of_holding haddr'
          ((hstate.submitted other).mp (hdata ▸ heq ▸ hadded))
      exact ⟨node', (hothers addr' hapart).trans hnode', hdata⟩
    · intro other addr' haddr'
      by_cases hother : other = index
      · subst hother
        simp only [setWorker_worker, Function.update_self, WorkerPoint.holding,
          Option.some.injEq] at haddr'
        subst haddr'
        exact ⟨_, htaken, List.mem_append_right _ List.mem_cons_self⟩
      · simp only [setWorker_worker, Function.update_of_ne hother] at haddr'
        obtain ⟨node', hnode', hmem⟩ := hstate.held other addr' haddr'
        have hapart := Heap.ne_of_data_ne hfront hnode' fun heq : node'.data = data ↦
          huntaken (heq ▸ List.mem_map.mpr ⟨_, hmem, rfl⟩)
        exact ⟨node', (hothers addr' hapart).trans hnode', List.mem_append_left _ hmem⟩

/-- Every transition but those of `workqueue_shutdown` keeps the accounting. -/
theorem conserved_move {state next : State size Job} {event : Event size Job}
    (hstate : Conserved state) (hevent : event ≠ .shutdown) (hmove : Move state event next) :
    Conserved next := by
  cases hmove with
  | takeMutex hpoint =>
    refine hstate.moveWorker ?_ rfl
    rcases hpoint with hpoint | hpoint | hpoint <;> rw [hpoint] <;> rfl
  | testEmpty hpoint | testFilled hpoint | breakInner hpoint | enterWait hpoint | block hpoint
  | breakOuter hpoint | goOn hpoint | takeNone hpoint | unlockNone hpoint | unlockJob hpoint
  | spurious hpoint =>
    refine hstate.moveWorker ?_ rfl
    rw [hpoint]
    rfl
  | takeJob hpoint hjob hnode hremove => exact conserved_takeJob hstate hjob hnode hremove
  | finish hpoint => exact conserved_finish hstate hpoint
  | create hpoint hnew => exact conserved_create hstate hpoint hnew
  | add hpoint hadd => exact conserved_add hstate hpoint hadd
  | addLock hpoint | signalNone hpoint | addUnlock hpoint =>
    refine hstate.moveCaller ?_ ?_ rfl
    · rw [hpoint]
      rfl
    · rw [hpoint]
      simp [CallerPoint.submitted]
  | @signalOne job index hpoint hblocked =>
    have hcaller : Conserved (state.setCaller job .unlock) := by
      refine hstate.moveCaller ?_ ?_ rfl
      · rw [hpoint]
        rfl
      · rw [hpoint]
        simp [CallerPoint.submitted]
    refine hcaller.moveWorker ?_ rfl
    change (state.worker index).holding = _
    rw [hblocked]
    rfl
  | shutdownCall | shutdownFlag | shutdownFlagged | shutdownLock | shutdownClear
  | shutdownBroadcast | shutdownUnlock => exact absurd rfl hevent

/-- The accounting holds in every state that is reached without `workqueue_shutdown`. -/
theorem conserved_of_run {events : List (Event size Job)} {state : State size Job}
    (hevents : .shutdown ∉ events) (hrun : run step (start size Job) events = some state) :
    Conserved state := by
  have halong : Along step (fun _ event ↦ event ≠ .shutdown) (start size Job) events :=
    along_of_forall (fun event hevent _ ↦ ne_of_mem_of_not_mem hevent hevents) _
  exact run_invariant_along (fun _ _ _ hstate hevent hstep ↦
    conserved_move hstate hevent (move_of_step hstep)) conserved_start halong hrun

/-- The macros never meet a dead node: a call that is to add its job and a worker that is to take
one out can do so. -/
theorem Conserved.list_step {state : State size Job} (hstate : Conserved state) :
    (∀ job addr chosen, state.caller job = .add addr → ∃ next,
        step state (.call job chosen) = some next ∧ next.waitingJobs = some addr) ∧
      ∀ index, state.worker index = .take → ∃ next, step state (.work index) = some next := by
  constructor
  · intro job addr chosen hpoint
    obtain ⟨node, hnode, -⟩ := hstate.created job addr (by rw [hpoint]; rfl)
    obtain ⟨heap, hadd, -⟩ := llAdd_live hnode state.waitingJobs
    simp only [step, callerStep, hpoint, hadd, Option.map_some]
    exact ⟨_, rfl, rfl⟩
  · intro index hpoint
    obtain ⟨nodes, hstacked, -⟩ := hstate.chain
    simp only [step, workerStep, hpoint, State.take]
    cases nodes with
    | nil =>
      rw [show state.waitingJobs = none from hstacked]
      exact ⟨_, rfl⟩
    | cons front rest =>
      obtain ⟨hfirst, next, hfront, hrest⟩ := hstacked
      obtain ⟨heap, hremove, -⟩ := llRemove_front hfront hrest
      simp only [hfirst, hfront, hremove, Option.bind_some, Option.map_some]
      exact ⟨_, rfl⟩

/-- In every state that any interleaving of calls of `workqueue_add_job` and workers reaches, the
list of waiting jobs ends, its nodes are the jobs that were added and not taken, the most recent
first, and the back pointer of the front is null; a job is added once, and a job that was taken was
added and was taken by one worker, once; and the macros find every node they touch alive. The mutex
may be held or free. -/
theorem jobs_conserved {events : List (Event size Job)} {state : State size Job}
    (hevents : .shutdown ∉ events) (hrun : run step (start size Job) events = some state) :
    (∃ nodes, Stacked state.heap state.waitingJobs nodes ∧ (addresses nodes).Nodup ∧
        nodes.map Prod.snd = state.added.reverse.filter fun job ↦ job ∉ state.taken.map Prod.fst) ∧
      (∀ front, state.waitingJobs = some front →
        ∃ node, state.heap.get front = some node ∧ node.prev = none) ∧
      state.added.Nodup ∧ (state.taken.map Prod.fst).Nodup ∧
      (∀ job ∈ state.taken.map Prod.fst, job ∈ state.added) ∧
      (∀ job addr chosen, state.caller job = .add addr → ∃ next,
        step state (.call job chosen) = some next ∧ next.waitingJobs = some addr) ∧
      ∀ index, state.worker index = .take → ∃ next, step state (.work index) = some next := by
  have hstate := conserved_of_run hevents hrun
  refine ⟨hstate.chain, fun front hfront ↦ ?_, hstate.distinct, hstate.once, hstate.subset,
    hstate.list_step⟩
  obtain ⟨nodes, hstacked, -⟩ := hstate.chain
  cases nodes with
  | nil => exact absurd (hfront.symm.trans hstacked) (Option.some_ne_none _)
  | cons node rest =>
    obtain ⟨hfirst, next, hnode, -⟩ := hstacked
    rw [hfront, Option.some.injEq] at hfirst
    exact ⟨_, hfirst ▸ hnode, rfl⟩

/-- Jobs 0, 1 and 2 are added and a worker takes the last of them, runs and frees it; job 3 gets its
memory, and the other worker takes job 3. -/
def sampleSchedule : List (Event 2 ℕ) :=
  List.flatten [[.create 0 10, .create 1 11, .create 2 12], List.replicate 4 (.call 0 none),
    List.replicate 4 (.call 1 none), List.replicate 4 (.call 2 none),
    List.replicate 6 (.work firstWorker), [.create 3 12], List.replicate 4 (.call 3 none),
    List.replicate 4 (.work secondWorker)]

theorem jobs_conserved_sampleSchedule :
    ∃ state, run step (start 2 ℕ) sampleSchedule = some state ∧
      (state.waitingJobs, state.added, state.taken) =
        (some 11, [0, 1, 2, 3], [(2, firstWorker), (3, secondWorker)]) ∧
      ∃ nodes, Stacked state.heap state.waitingJobs nodes ∧ (addresses nodes).Nodup ∧
        nodes.map Prod.snd =
          state.added.reverse.filter fun job ↦ job ∉ state.taken.map Prod.fst := by
  have hview : (run step (start 2 ℕ) sampleSchedule).map (fun state ↦
      (state.waitingJobs, state.added, state.taken)) =
        some (some 11, [0, 1, 2, 3], [(2, firstWorker), (3, secondWorker)]) := by decide +kernel
  obtain ⟨state, hrun, hseen⟩ := exists_of_view hview
  exact ⟨state, hrun, hseen, (jobs_conserved (by decide) hrun).1⟩

end TestLinux.WorkQueue
