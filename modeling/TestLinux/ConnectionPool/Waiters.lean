import TestLinux.ConnectionPool.Ownership

/-!
# No client waits for a connection that is there

A client in `acquire` blocks when it finds the queue empty and the pool active. `release` wakes one
blocked client for each connection it queues, but the woken client has to take the mutex again, and
a newcomer may be faster; `init` and `shutdown` wake everybody. `Served` is the counting invariant
behind this: as long as some client is blocked, the queue is not longer than the number of clients
that are notified or already inside `acquire` (`State.expecting`), and the pool is active. It needs
that the clients at a point that owns the mutex are exactly its owner (`exclusive_move`), so that
nothing changes between the moment a client finds the queue empty and the moment it blocks.

When the mutex is free nobody is inside `acquire`, and `blocked_only_if_no_connection_spare` bounds
the queue by the notified clients alone.
-/

set_option autoImplicit false
set_option relaxedAutoImplicit false

namespace TestLinux.ConnectionPool

open TestLinux.Threads TestLinux.Runs

variable {Client Handle : Type*}

/-- The program points at which a client owns the mutex. -/
def Point.owns : Point Handle → Prop
  | .inside _ | .sleep | .unlock => True
  | .idle | .lock _ | .waiting _ => False

/-- The owner of the mutex is the only client at a point that owns it. -/
def MutexOwned (state : State Client Handle) : Prop :=
  Exclusive state.mutex fun client ↦ (state.point client).owns

theorem MutexOwned.unique {state : State Client Handle} (hstate : MutexOwned state)
    {client other : Client} (hclient : (state.point client).owns)
    (hother : (state.point other).owns) : client = other := by
  have howner := (hstate client).mp hclient
  rw [(hstate other).mp hother] at howner
  exact (Option.some.inj howner).symm

/-- A program point at which a client looks at the queue next because it was notified, or because it
is inside `acquire`. -/
def Point.expects (point : Point Handle) : Prop :=
  point = .waiting .notified ∨ point = .inside .acquire

instance [DecidableEq Handle] (point : Point Handle) : Decidable point.expects :=
  inferInstanceAs (Decidable (_ ∨ _))

section Exclusion

variable [DecidableEq Client]

theorem MutexOwned.setPoint {state : State Client Handle} (hstate : MutexOwned state)
    (client : Client) (point : Point Handle) (hpoint : point.owns ↔ (state.point client).owns) :
    MutexOwned (state.setPoint client point) := by
  refine hstate.congr fun other ↦ ?_
  by_cases hother : other = client
  · subst hother
    simpa only [State.setPoint, Function.update_self] using hpoint
  · simp only [State.setPoint, Function.update_of_ne hother]

theorem update_owns_of_ne (state : State Client Handle) (client : Client) (point : Point Handle) :
    ∀ other, other ≠ client →
      ((Function.update state.point client point other).owns ↔ (state.point other).owns) := by
  intro other hother
  rw [Function.update_of_ne hother]

variable [DecidableEq Handle]

omit [DecidableEq Client] in
theorem mutexOwned_notifyAll {state : State Client Handle} (hstate : MutexOwned state) :
    MutexOwned state.notifyAll := by
  refine hstate.congr fun client ↦ ?_
  simp only [State.notifyAll]
  split_ifs with hblocked
  · simp [hblocked, Point.owns]
  · rfl

omit [DecidableEq Client] in
theorem mutexOwned_afterInit {state : State Client Handle} (hstate : MutexOwned state)
    (result : InitResult Handle) : MutexOwned (state.afterInit result) := by
  unfold State.afterInit
  split_ifs
  · exact mutexOwned_notifyAll hstate
  · exact hstate

theorem mutexOwned_move {state next : State Client Handle} {event : Event Client Handle}
    (hstate : MutexOwned state) (hmove : Move state event next) : MutexOwned next := by
  cases hmove with
  | releaseNull => exact hstate
  | start hpoint | acquireWait hpoint | acquireNull hpoint | releaseInside hpoint
  | spurious hpoint => exact hstate.setPoint _ _ (by simp [hpoint, Point.owns])
  | @takeMutex client _ _ call hpoint hfree =>
    have hunowned : Exclusive none fun client ↦ (state.point client).owns := hfree ▸ hstate
    refine hunowned.acquire ?_ (update_owns_of_ne state client (.inside call))
    simp [State.setPoint, Point.owns]
  | init hpoint =>
    exact mutexOwned_afterInit (hstate.setPoint _ _ (by simp [hpoint, Point.owns])) _
  | acquireTake hpoint | releaseAlone hpoint =>
    exact hstate.setPoint _ .unlock (by simp [hpoint, Point.owns])
  | @releaseWake client woken _ conn hpoint hblocked =>
    have hclient : MutexOwned (state.setPoint client .unlock) :=
      hstate.setPoint client .unlock (by simp [hpoint, Point.owns])
    have hne : woken ≠ client := fun heq ↦ by simp [heq, hpoint] at hblocked
    refine hclient.setPoint woken (.waiting .notified) ?_
    simp [State.setPoint, Function.update_of_ne hne, hblocked, Point.owns]
  | @shutdown client _ _ hpoint =>
    have hclient : MutexOwned (state.setPoint client .unlock) :=
      hstate.setPoint client .unlock (by simp [hpoint, Point.owns])
    exact mutexOwned_notifyAll hclient
  | @block client _ _ hpoint =>
    refine Exclusive.release hstate ?_ ?_ (update_owns_of_ne state client (.waiting .blocked))
    · simp [hpoint, Point.owns]
    · simp [State.setPoint, Point.owns]
  | @unlock client _ _ hpoint =>
    refine Exclusive.release hstate ?_ ?_ (update_owns_of_ne state client .idle)
    · simp [hpoint, Point.owns]
    · simp [State.setPoint, Point.owns]

end Exclusion

section Waiting

variable [Fintype Client] [DecidableEq Handle]

/-- The number of clients that look at the queue next. -/
def State.expecting (state : State Client Handle) : ℕ := population Point.expects state.point

/-- As long as a client is blocked, the pool is active and every queued connection has a client that
looks at the queue next; a client falling asleep has found the queue empty and the pool active. -/
structure Served (state : State Client Handle) : Prop where
  owned : MutexOwned state
  sleeping : ∀ client, state.point client = .sleep →
    state.pool.connections = [] ∧ state.pool.activeFlag = true
  blocked : ∀ client, state.point client = .waiting .blocked →
    state.pool.activeFlag = true ∧ state.pool.connections.length ≤ state.expecting

theorem served_start : Served (start Client Handle) where
  owned := fun client ↦ by simp [start, Point.owns]
  sleeping := fun client hsleep ↦ by simp [start] at hsleep
  blocked := fun client hblocked ↦ by simp [start] at hblocked

/-- After a notification of all clients nobody is blocked. Assumes: nobody is falling asleep. -/
theorem served_of_notifyAll {state next : State Client Handle} (howned : MutexOwned next)
    (hnext : next.point = state.notifyAll.point)
    (hsleeping : ∀ client, state.point client ≠ .sleep) : Served next := by
  refine ⟨howned, fun client hsleep ↦ ?_, fun client hblocked ↦ ?_⟩
  · simp only [hnext, State.notifyAll] at hsleep
    split_ifs at hsleep with hpoint
    exact absurd hsleep (hsleeping client)
  · simp only [hnext, State.notifyAll] at hblocked
    split_ifs at hblocked with hpoint
    · simp at hblocked
    · exact absurd hblocked hpoint

/-- A step that changes neither the mutex, the program points nor the fields of the pool. -/
theorem Served.congr {state next : State Client Handle} (hstate : Served state)
    (hmutex : next.mutex = state.mutex) (hpoint : next.point = state.point)
    (hpool : next.pool = state.pool) : Served next where
  owned := by
    rw [MutexOwned, hmutex, hpoint]
    exact hstate.owned
  sleeping := by
    rw [hpoint, hpool]
    exact hstate.sleeping
  blocked := by
    rw [State.expecting, hpoint, hpool]
    exact hstate.blocked

variable [DecidableEq Client]

/-- The clients that look at the queue next, after a step of one client. -/
theorem expecting_setPoint_add (state : State Client Handle) (client : Client)
    (point : Point Handle) :
    (state.setPoint client point).expecting + (if (state.point client).expects then 1 else 0) =
      state.expecting + (if point.expects then 1 else 0) :=
  population_update_add Point.expects state.point client point

omit [Fintype Client] [DecidableEq Handle] in
/-- While a client owns the mutex, no other client is falling asleep. -/
theorem MutexOwned.not_sleep {state : State Client Handle} (hstate : MutexOwned state)
    {client : Client} (hclient : (state.point client).owns) (point : Point Handle)
    (hpoint : point ≠ .sleep) :
    ∀ other, (state.setPoint client point).point other ≠ .sleep := by
  intro other hsleep
  by_cases hother : other = client
  · subst hother
    simp only [State.setPoint, Function.update_self] at hsleep
    exact hpoint hsleep
  · simp only [State.setPoint, Function.update_of_ne hother] at hsleep
    exact hother (hstate.unique (by simp [hsleep, Point.owns]) hclient)

omit [Fintype Client] [DecidableEq Handle] in
theorem blocked_of_setPoint {state : State Client Handle} (client : Client) {other : Client}
    {point : Point Handle} (hpoint : point ≠ .waiting .blocked)
    (hblocked : (state.setPoint client point).point other = .waiting .blocked) :
    state.point other = .waiting .blocked := by
  by_cases hother : other = client
  · subst hother
    simp only [State.setPoint, Function.update_self] at hblocked
    exact absurd hblocked hpoint
  · simpa only [State.setPoint, Function.update_of_ne hother] using hblocked

/-- A step of one client that leaves the fields of the pool alone, does not make it sleep or block,
and does not make it stop looking at the queue. -/
theorem Served.moveClient {state next : State Client Handle} (hstate : Served state)
    (client : Client) (point : Point Handle) (howned : MutexOwned next)
    (hpool : next.pool = state.pool) (hnext : next.point = (state.setPoint client point).point)
    (hsleep : point ≠ .sleep) (hblocked : point ≠ .waiting .blocked)
    (hexpects : (state.point client).expects → point.expects) : Served next := by
  refine ⟨howned, fun other hother ↦ ?_, fun other hother ↦ ?_⟩
  · rw [hnext] at hother
    by_cases hne : other = client
    · subst hne
      simp only [State.setPoint, Function.update_self] at hother
      exact absurd hother hsleep
    · simp only [State.setPoint, Function.update_of_ne hne] at hother
      exact hpool ▸ hstate.sleeping other hother
  · rw [hnext] at hother
    obtain ⟨hactive, hlength⟩ := hstate.blocked other (blocked_of_setPoint client hblocked hother)
    have hexpecting : next.expecting = (state.setPoint client point).expecting := by
      simp only [State.expecting, hnext]
    have hsum := expecting_setPoint_add state client point
    rw [hpool, hexpecting]
    refine ⟨hactive, ?_⟩
    by_cases hold : (state.point client).expects
    · rw [if_pos hold, if_pos (hexpects hold)] at hsum
      omega
    · rw [if_neg hold] at hsum
      omega

theorem served_init {state : State Client Handle} {client : Client} {maxConnNum : ℕ}
    {attempt : ℕ → Attempt Handle} (hstate : Served state)
    (hpoint : state.point client = .inside (.init maxConnNum))
    (howned : MutexOwned
      ((state.setPoint client .unlock).afterInit (state.pool.init maxConnNum attempt))) :
    Served ((state.setPoint client .unlock).afterInit (state.pool.init maxConnNum attempt)) := by
  have howns : (state.point client).owns := by simp [hpoint, Point.owns]
  have hclient : Served (state.setPoint client .unlock) :=
    hstate.moveClient client .unlock
      (hstate.owned.setPoint client .unlock (by simp [hpoint, Point.owns])) rfl rfl (by simp)
      (by simp) (by simp [hpoint, Point.expects])
  rcases init_spec state.pool maxConnNum attempt with ⟨hfailed, hpool, -⟩ | ⟨hsuccess, -⟩
  · refine hclient.congr ?_ ?_ ?_ <;>
      simp only [State.afterInit, hfailed, Bool.false_eq_true, ↓reduceIte, hpool, State.setPoint]
  · refine served_of_notifyAll howned ?_ (hstate.owned.not_sleep howns .unlock (by simp))
    simp only [State.afterInit, hsuccess, ↓reduceIte]

theorem served_afterTake {state : State Client Handle} {client : Client} {conn : Handle}
    {rest : List Handle} {pool : Pool Handle} (hstate : Served state)
    (hpoint : state.point client = .inside .acquire)
    (hconnections : state.pool.connections = conn :: rest) (hrest : pool.connections = rest)
    (hactive : pool.activeFlag = true) (howned : MutexOwned (state.afterTake client conn pool)) :
    Served (state.afterTake client conn pool) := by
  have howns : (state.point client).owns := by simp [hpoint, Point.owns]
  refine ⟨howned, fun other hsleep ↦ ?_, fun other hblocked ↦ ⟨hactive, ?_⟩⟩
  · exact absurd hsleep (hstate.owned.not_sleep howns .unlock (by simp) other)
  · obtain ⟨-, hlength⟩ := hstate.blocked other
      (blocked_of_setPoint client (by simp) hblocked)
    have hsum := expecting_setPoint_add state client .unlock
    rw [hpoint, if_pos (.inr rfl), if_neg (by simp [Point.expects])] at hsum
    rw [hconnections, List.length_cons] at hlength
    change pool.connections.length ≤ (state.setPoint client .unlock).expecting
    rw [hrest]
    omega

theorem served_releaseWake {state : State Client Handle} {client woken : Client} {conn : Handle}
    (hstate : Served state) (hpoint : state.point client = .inside (.release (some conn)))
    (hwoken : state.point woken = .waiting .blocked)
    (howned : MutexOwned ((state.afterRelease client conn).setPoint woken (.waiting .notified))) :
    Served ((state.afterRelease client conn).setPoint woken (.waiting .notified)) := by
  have howns : (state.point client).owns := by simp [hpoint, Point.owns]
  have hne : woken ≠ client := fun heq ↦ by simp [heq, hpoint] at hwoken
  have hkept : (state.afterRelease client conn).point woken = .waiting .blocked := by
    simpa [State.afterRelease, State.setPoint, Function.update_of_ne hne] using hwoken
  obtain ⟨hactive, hlength⟩ := hstate.blocked woken hwoken
  refine ⟨howned, fun other hsleep ↦ ?_, fun other _ ↦ ⟨hactive, ?_⟩⟩
  · by_cases hother : other = woken
    · subst hother
      simp [State.setPoint] at hsleep
    · simp only [State.setPoint, Function.update_of_ne hother] at hsleep
      exact absurd hsleep (hstate.owned.not_sleep howns .unlock (by simp) other)
  · have hfirst := expecting_setPoint_add state client .unlock
    have hsecond := expecting_setPoint_add (state.afterRelease client conn) woken
      (.waiting .notified)
    rw [hpoint, if_neg (by simp [Point.expects]), if_neg (by simp [Point.expects])] at hfirst
    rw [hkept, if_neg (by simp [Point.expects]), if_pos (.inl rfl)] at hsecond
    change (state.pool.connections ++ [conn]).length ≤ _
    rw [List.length_append, List.length_singleton, ← add_zero (State.expecting _), hsecond]
    exact Nat.succ_le_succ (hlength.trans hfirst.ge)

theorem served_move {state next : State Client Handle} {event : Event Client Handle}
    (hstate : Served state) (hmove : Move state event next) : Served next := by
  have howned := mutexOwned_move hstate.owned hmove
  cases hmove with
  | releaseNull => exact hstate
  | start hpoint | releaseInside hpoint | unlock hpoint | spurious hpoint =>
    exact hstate.moveClient _ _ howned rfl rfl (by simp) (by simp) (by simp [hpoint, Point.expects])
  | @takeMutex client _ _ call hpoint hfree =>
    refine hstate.moveClient client (.inside call) howned rfl rfl (by simp) (by simp) ?_
    rcases hpoint with hlock | ⟨rfl, -⟩
    · simp [hlock, Point.expects]
    · exact fun _ ↦ .inr rfl
  | init hpoint => exact served_init hstate hpoint howned
  | acquireWait hpoint hempty hactive =>
    refine ⟨howned, fun _ _ ↦ ⟨hempty, hactive⟩, fun _ _ ↦ ⟨hactive, ?_⟩⟩
    simp [State.setPoint, hempty]
  | @acquireNull client _ _ hpoint hinactive =>
    have howns : (state.point client).owns := by simp [hpoint, Point.owns]
    refine ⟨howned, fun other hsleep ↦ ?_, fun other hblocked ↦ ?_⟩
    · exact absurd hsleep (hstate.owned.not_sleep howns .unlock (by simp) other)
    · have hactive := (hstate.blocked other (blocked_of_setPoint client (by simp) hblocked)).1
      rw [hinactive] at hactive
      cases hactive
  | acquireTake hpoint hactive hconnections =>
    exact served_afterTake hstate hpoint hconnections rfl hactive howned
  | releaseWake hpoint hblocked => exact served_releaseWake hstate hpoint hblocked howned
  | @releaseAlone client _ conn hpoint hblocked =>
    have howns : (state.point client).owns := by simp [hpoint, Point.owns]
    refine ⟨howned, fun other hsleep ↦ ?_, fun other hwaiting ↦ ?_⟩
    · exact absurd hsleep (hstate.owned.not_sleep howns .unlock (by simp) other)
    · exact absurd (blocked_of_setPoint client (by simp) hwaiting) (hblocked other)
  | @shutdown client _ _ hpoint =>
    have howns : (state.point client).owns := by simp [hpoint, Point.owns]
    exact served_of_notifyAll howned rfl (hstate.owned.not_sleep howns .unlock (by simp))
  | @block client _ _ hpoint =>
    obtain ⟨hempty, hactive⟩ := hstate.sleeping client hpoint
    refine ⟨howned, fun _ _ ↦ ⟨hempty, hactive⟩, fun _ _ ↦ ⟨hactive, ?_⟩⟩
    simp [State.setPoint, hempty]

theorem served_of_run {events : List (Event Client Handle)} {state : State Client Handle}
    (hrun : run step (start Client Handle) events = some state) : Served state :=
  run_invariant (fun _ _ _ hstate hstep ↦ served_move hstate (move_of_step hstep)) served_start hrun

omit [DecidableEq Client] in
/-- When the mutex is free, the clients that look at the queue next are the notified ones. -/
theorem expecting_eq_of_free {state : State Client Handle} (hstate : MutexOwned state)
    (hfree : state.mutex = none) :
    state.expecting = population (· = .waiting .notified) state.point := by
  refine Finset.sum_congr rfl fun client _ ↦ ?_
  have houtside : state.point client ≠ .inside .acquire := by
    intro hinside
    have howner := (hstate client).mp (by simp [hinside, Point.owns])
    rw [hfree] at howner
    cases howner
  simp [Point.expects, houtside]

/-- In every reachable state in which the mutex is free, a client that is blocked in `acquire`
without a notification waits for an active pool, and every idle connection is matched by a client
that has been notified and has not yet resumed. -/
theorem blocked_only_if_no_connection_spare {events : List (Event Client Handle)}
    {state : State Client Handle} (hrun : run step (start Client Handle) events = some state)
    (hfree : state.mutex = none) {client : Client}
    (hblocked : state.point client = .waiting .blocked) :
    state.pool.activeFlag = true ∧
      state.pool.connections.length ≤ population (· = .waiting .notified) state.point := by
  have hstate := served_of_run hrun
  rw [← expecting_eq_of_free hstate.owned hfree]
  exact hstate.blocked client hblocked

/-- Two clients block on an empty pool; the third gives its connection back and one is woken. -/
def twoWaitersSchedule : List (Event (Fin 3) ℕ) :=
  callSchedule 0 (.init 1) (fun i ↦ .connected i) ++
    callSchedule 0 .acquire (fun i ↦ .connected i) ++
    callSchedule 1 .acquire (fun i ↦ .connected i) ++
    callSchedule 2 .acquire (fun i ↦ .connected i) ++
    [.call 0 (.release (some 0)), .move 0 (fun i ↦ .connected i) none,
      .move 0 (fun i ↦ .connected i) (some 1), .move 0 (fun i ↦ .connected i) none]

theorem blocked_only_if_no_connection_spare_twoWaitersSchedule :
    ∃ state, run step (start (Fin 3) ℕ) twoWaitersSchedule = some state ∧
      (state.mutex, state.point 1, state.point 2, state.pool.connections) =
        (none, .waiting .notified, .waiting .blocked, [0]) ∧
      state.pool.activeFlag = true ∧
      state.pool.connections.length ≤ population (· = .waiting .notified) state.point := by
  have hview : (run step (start (Fin 3) ℕ) twoWaitersSchedule).map (fun state ↦
      (state.mutex, state.point 1, state.point 2, state.pool.connections)) =
        some (none, .waiting .notified, .waiting .blocked, [0]) := by decide +kernel
  obtain ⟨state, hrun, hseen⟩ := exists_of_view hview
  have hfree : state.mutex = none := congrArg Prod.fst hseen
  have hblocked : state.point 2 = .waiting .blocked := congrArg (·.2.2.1) hseen
  exact ⟨state, hrun, hseen, blocked_only_if_no_connection_spare hrun hfree hblocked⟩

end Waiting

end TestLinux.ConnectionPool
