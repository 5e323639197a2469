import TestLinux.ConnectionPool.Ownership

/-!
# One pool, one target

The class comment says that a pool connects to one user and one database, and `total_connection`
counts the connections of the pool. Both are about the connections of the most recent successful
`init`. A connection that is out when `shutdown` runs escapes both: `release` queues whatever it is
given, so a connection released after the shutdown sits in the queue of an inactive pool, above a
total of zero, and the next `init` puts its own connections behind it (`stale_connection_acquired`).

`ReleasesCurrent` is the condition under which this does not happen: a connection is released only
into the pool that opened it, still active. Under it `Targeted` holds in every reachable state:
everything queued was opened by the last successful `init`, an inactive pool has nothing queued, and
the total counts the queued connections and those of this `init` that are held.
`acquired_from_last_init` is the result.
-/

set_option autoImplicit false
set_option relaxedAutoImplicit false

namespace TestLinux.ConnectionPool

open TestLinux.Threads TestLinux.Runs

variable {Client Handle : Type*}

/-- The connection was opened by the most recent successful `init`. -/
def State.isCurrent (state : State Client Handle) (conn : Handle) : Bool :=
  state.opener conn == state.inits

/-- The body of `release` runs only while the pool is active, with a connection that was opened by
the most recent successful `init`: no `shutdown` has run since the connection was acquired. -/
def ReleasesCurrent (state : State Client Handle) : Event Client Handle → Prop
  | .move client _ _ =>
    match state.point client with
    | .inside (.release (some conn)) =>
      state.pool.activeFlag = true ∧ state.isCurrent conn = true
    | _ => True
  | _ => True

instance (state : State Client Handle) : (event : Event Client Handle) →
    Decidable (ReleasesCurrent state event)
  | .move client _ _ =>
    match hpoint : state.point client with
    | .inside (.release (some conn)) =>
      decidable_of_iff (state.pool.activeFlag = true ∧ state.isCurrent conn = true)
        (by simp [ReleasesCurrent, hpoint])
    | .idle | .sleep | .unlock | .lock _ | .waiting _ | .inside (.init _) | .inside .acquire
    | .inside (.release none) | .inside .shutdown => isTrue (by simp [ReleasesCurrent, hpoint])
  | .call _ _ | .spurious _ => isTrue trivial

theorem ReleasesCurrent.of_release {state : State Client Handle} {client : Client}
    {attempt : ℕ → Attempt Handle} {chosen : Option Client} {conn : Handle}
    (hallowed : ReleasesCurrent state (.move client attempt chosen))
    (hpoint : state.point client = .inside (.release (some conn))) :
    state.pool.activeFlag = true ∧ state.isCurrent conn = true := by
  simpa only [ReleasesCurrent, hpoint] using hallowed

section Target

variable [Fintype Client]

/-- The number of held connections that the most recent successful `init` opened. -/
def State.heldCurrent (state : State Client Handle) : ℕ :=
  ∑ client, (state.held client).countP state.isCurrent

/-- Queue and counters belong to the most recent successful `init`. -/
structure Targeted (state : State Client Handle) : Prop where
  owned : Owned state
  opener : ∀ conn, state.opener conn ≤ state.inits
  inactive : state.pool.activeFlag = false →
    state.pool.connections = [] ∧ state.pool.totalConnection = 0
  queued : ∀ conn ∈ state.pool.connections, state.isCurrent conn = true
  total : state.pool.activeFlag = true →
    state.pool.totalConnection = state.pool.connections.length + state.heldCurrent

theorem targeted_start : Targeted (start Client Handle) where
  owned := owned_start
  opener := fun _ ↦ le_rfl
  inactive := fun _ ↦ ⟨rfl, rfl⟩
  queued := nofun
  total := nofun

/-- A step that leaves the fields and the history alone. -/
theorem Targeted.congr {state next : State Client Handle} (hstate : Targeted state)
    (howned : Owned next) (hpool : next.pool = state.pool) (hheld : next.held = state.held)
    (hinits : next.inits = state.inits) (hopener : next.opener = state.opener) :
    Targeted next where
  owned := howned
  opener := by rw [hopener, hinits]; exact hstate.opener
  inactive := by rw [hpool]; exact hstate.inactive
  queued := by
    intro conn hconn
    rw [hpool] at hconn
    rw [State.isCurrent, hopener, hinits]
    exact hstate.queued conn hconn
  total := by
    intro hactive
    have hsame : next.isCurrent = state.isCurrent := by
      funext conn
      simp only [State.isCurrent, hopener, hinits]
    rw [hpool] at hactive ⊢
    rw [State.heldCurrent, hheld, hsame]
    exact hstate.total hactive

/-- A held handle is among the handles obtained so far. -/
theorem Owned.mem_handles_of_held {state : State Client Handle} (hstate : Owned state)
    {client : Client} {conn : Handle} (hheld : conn ∈ state.held client) :
    conn ∈ state.handles := by
  rw [← Multiset.mem_coe, ← hstate.places]
  refine Multiset.mem_add.mpr (.inl (Multiset.mem_add.mpr (.inr ?_)))
  exact Multiset.mem_sum.mpr ⟨client, Finset.mem_univ client, hheld⟩

variable [DecidableEq Client]

theorem heldCurrent_update_add (state : State Client Handle) (client : Client)
    (handles : List Handle) :
    (∑ other, (Function.update state.held client handles other).countP state.isCurrent) +
        (state.held client).countP state.isCurrent =
      state.heldCurrent + handles.countP state.isCurrent :=
  sum_update_add (fun handles : List Handle ↦ handles.countP state.isCurrent) state.held client
    handles

theorem targeted_afterTake {state : State Client Handle} (hstate : Targeted state)
    (client : Client) {conn : Handle} {rest : List Handle}
    (hactive : state.pool.activeFlag = true)
    (hconnections : state.pool.connections = conn :: rest) :
    Targeted (state.afterTake client conn { state.pool with
      connections := rest
      availableConnection := decrement state.pool.availableConnection }) where
  owned := owned_afterTake hstate.owned client hconnections
  opener := hstate.opener
  inactive := fun hinactive ↦ by
    change state.pool.activeFlag = false at hinactive
    rw [hactive] at hinactive
    cases hinactive
  queued := fun other hother ↦
    hstate.queued other (hconnections ▸ List.mem_cons_of_mem conn hother)
  total := by
    intro _
    have hsum := heldCurrent_update_add state client (conn :: state.held client)
    have hcurrent := hstate.queued conn (hconnections ▸ List.mem_cons_self)
    have htotal := hstate.total hactive
    rw [List.countP_cons, if_pos hcurrent] at hsum
    rw [hconnections, List.length_cons] at htotal
    change state.pool.totalConnection = rest.length + ∑ other, (Function.update state.held client
      (conn :: state.held client) other).countP state.isCurrent
    omega

variable [DecidableEq Handle]

theorem targeted_afterRelease {state : State Client Handle} (hstate : Targeted state)
    {client : Client} {conn : Handle} (hheld : conn ∈ state.held client)
    (hactive : state.pool.activeFlag = true) (hcurrent : state.isCurrent conn = true) :
    Targeted (state.afterRelease client conn) where
  owned := owned_afterRelease hstate.owned hheld
  opener := hstate.opener
  inactive := fun hinactive ↦ by
    change state.pool.activeFlag = false at hinactive
    rw [hactive] at hinactive
    cases hinactive
  queued := by
    intro other hother
    rcases List.mem_append.mp hother with hold | hnew
    · exact hstate.queued other hold
    · exact (List.mem_singleton.mp hnew) ▸ hcurrent
  total := by
    intro _
    have hsum := heldCurrent_update_add state client ((state.held client).erase conn)
    have hcount : (state.held client).countP state.isCurrent =
        ((state.held client).erase conn).countP state.isCurrent + 1 := by
      rw [(List.perm_cons_erase hheld).countP_eq, List.countP_cons, if_pos hcurrent]
    have htotal := hstate.total hactive
    change state.pool.totalConnection = (state.pool.connections ++ [conn]).length +
      ∑ other, (Function.update state.held client ((state.held client).erase conn) other).countP
        state.isCurrent
    rw [List.length_append, List.length_singleton]
    omega

omit [DecidableEq Client] in
/-- A successful `init` finds an inactive pool with nothing queued, and no client holds one of the
connections it opens. -/
theorem targeted_afterInit {state : State Client Handle} (hstate : Targeted state)
    {maxConnNum : ℕ} {attempt : ℕ → Attempt Handle}
    (hdistinct : (state.pool.init maxConnNum attempt).obtained.Nodup)
    (hfresh : ∀ conn ∈ (state.pool.init maxConnNum attempt).obtained, conn ∉ state.handles) :
    Targeted (state.afterInit (state.pool.init maxConnNum attempt)) := by
  have howned := owned_afterInit hstate.owned hdistinct hfresh
  rcases init_spec state.pool maxConnNum attempt with
    ⟨hfailed, hpool, -⟩ | ⟨hsuccess, hinactive, hlength, hpool⟩
  · refine hstate.congr howned ?_ ?_ ?_ ?_ <;>
      simp only [State.afterInit, hfailed, Bool.false_eq_true, ↓reduceIte, hpool]
  · obtain ⟨hempty, hzero⟩ := hstate.inactive hinactive
    simp only [InitResult.obtained, hsuccess, ↓reduceIte] at hfresh
    have hopener : ∀ conn, (state.afterInit (state.pool.init maxConnNum attempt)).opener conn =
        if conn ∈ (state.pool.init maxConnNum attempt).created then state.inits + 1
        else state.opener conn := by
      intro conn
      simp only [State.afterInit, hsuccess, ↓reduceIte]
    have hinits : (state.afterInit (state.pool.init maxConnNum attempt)).inits =
        state.inits + 1 := by
      simp only [State.afterInit, hsuccess, ↓reduceIte]
    have hheld : (state.afterInit (state.pool.init maxConnNum attempt)).held = state.held := by
      simp only [State.afterInit, hsuccess, ↓reduceIte, State.notifyAll]
    have hafter : (state.afterInit (state.pool.init maxConnNum attempt)).pool =
        (state.pool.init maxConnNum attempt).pool := by
      simp only [State.afterInit, hsuccess, ↓reduceIte]
    rw [hpool, hempty, hzero, List.nil_append, zero_add] at hafter
    refine ⟨howned, fun conn ↦ ?_, fun hfalse ↦ ?_, fun conn hconn ↦ ?_, fun _ ↦ ?_⟩
    · rw [hopener, hinits]
      split_ifs
      · exact le_rfl
      · exact (hstate.opener conn).trans (Nat.le_succ _)
    · rw [hafter] at hfalse
      cases hfalse
    · rw [hafter] at hconn
      rw [State.isCurrent, hopener, hinits, if_pos hconn]
      exact beq_self_eq_true _
    · have hnone : (state.afterInit (state.pool.init maxConnNum attempt)).heldCurrent = 0 := by
        refine Finset.sum_eq_zero fun client _ ↦ ?_
        rw [hheld, List.countP_eq_zero]
        intro conn hconn
        have hold : conn ∉ (state.pool.init maxConnNum attempt).created := fun hnew ↦
          hfresh conn hnew (hstate.owned.mem_handles_of_held hconn)
        rw [State.isCurrent, hopener, hinits, if_neg hold, beq_iff_eq]
        exact Nat.ne_of_lt (Nat.lt_succ_of_le (hstate.opener conn))
      rw [hafter, hnone, hlength, add_zero]

theorem targeted_move {state next : State Client Handle} {event : Event Client Handle}
    (hstate : Targeted state) (hdisciplined : Disciplined state event)
    (hallowed : ReleasesCurrent state event) (hmove : Move state event next) : Targeted next := by
  have howned := owned_move hstate.owned hdisciplined hmove
  cases hmove with
  | releaseNull | start | takeMutex | acquireWait | acquireNull | releaseInside | block | unlock
  | spurious => exact hstate.congr howned rfl rfl rfl rfl
  | @init client attempt chosen maxConnNum hpoint =>
    obtain ⟨hdistinct, hfresh⟩ := hdisciplined.of_init hpoint
    have hmoved : Targeted (state.setPoint client .unlock) :=
      hstate.congr (hstate.owned.setPoint client rfl) rfl rfl rfl rfl
    exact targeted_afterInit hmoved hdistinct hfresh
  | acquireTake hpoint hactive hconnections =>
    exact targeted_afterTake hstate _ hactive hconnections
  | releaseWake hpoint =>
    obtain ⟨hactive, hcurrent⟩ := hallowed.of_release hpoint
    have hheld := hstate.owned.releasing _ _ (by rw [hpoint]; rfl)
    exact (targeted_afterRelease hstate hheld hactive hcurrent).congr howned rfl rfl rfl rfl
  | releaseAlone hpoint =>
    obtain ⟨hactive, hcurrent⟩ := hallowed.of_release hpoint
    have hheld := hstate.owned.releasing _ _ (by rw [hpoint]; rfl)
    exact targeted_afterRelease hstate hheld hactive hcurrent
  | shutdown => exact ⟨howned, hstate.opener, fun _ ↦ ⟨rfl, rfl⟩, nofun, nofun⟩

/-- In every run of disciplined clients in which connections are released only into the active pool
whose `init` opened them, what `acquire` returns was opened by the most recent successful `init`,
and no more connections are available than the pool has. -/
theorem acquired_from_last_init {events : List (Event Client Handle)} {state : State Client Handle}
    (hrun : run step (start Client Handle) events = some state)
    (hdisciplined : Along step Disciplined (start Client Handle) events)
    (hcurrent : Along step ReleasesCurrent (start Client Handle) events) :
    (∀ conn, state.pool.take.1 = some conn → state.opener conn = state.inits) ∧
      state.pool.availableConnection ≤ state.pool.totalConnection := by
  have hstate : Targeted state :=
    run_invariant_along (fun _ _ _ hstate hallowed hstep ↦
      targeted_move hstate hallowed.1 hallowed.2 (move_of_step hstep)) targeted_start
      (hdisciplined.and hcurrent) hrun
  constructor
  · intro conn htake
    obtain ⟨rest, hconnections⟩ := exists_cons_of_take htake
    exact beq_iff_eq.mp (hstate.queued conn (hconnections ▸ List.mem_cons_self))
  · rw [hstate.owned.available]
    cases hactive : state.pool.activeFlag with
    | false =>
      obtain ⟨hempty, -⟩ := hstate.inactive hactive
      rw [hempty]
      exact Nat.zero_le _
    | true =>
      rw [hstate.total hactive]
      exact Nat.le_add_right _ _

/-- Two clients open, use, release and shut down, one after the other. -/
def orderlySchedule : List (Event Bool ℕ) :=
  callSchedule false (.init 1) (fun i ↦ .connected i) ++
    callSchedule false .acquire (fun i ↦ .connected i) ++
    callSchedule false (.release (some 0)) (fun i ↦ .connected i) ++
    callSchedule true .shutdown (fun i ↦ .connected i) ++
    callSchedule true (.init 1) (fun i ↦ .connected (i + 1))

theorem acquired_from_last_init_orderlySchedule :
    ∃ state, run step (start Bool ℕ) orderlySchedule = some state ∧
      (state.pool.take.1, state.inits) = (some 1, 2) ∧ state.opener 1 = state.inits ∧
      state.pool.availableConnection ≤ state.pool.totalConnection := by
  have hview : (run step (start Bool ℕ) orderlySchedule).map (fun state ↦
      (state.pool.take.1, state.inits)) = some (some 1, 2) := by decide
  obtain ⟨state, hrun, hseen⟩ := exists_of_view hview
  obtain ⟨hopener, hcounters⟩ := acquired_from_last_init hrun (by decide) (by decide)
  exact ⟨state, hrun, hseen, hopener 1 (congrArg Prod.fst hseen), hcounters⟩

/-- A connection is out while the other client shuts the pool down and is released afterwards; then
the pool is opened again. -/
def staleSchedule : List (Event Bool ℕ) :=
  callSchedule false (.init 1) (fun i ↦ .connected i) ++
    callSchedule false .acquire (fun i ↦ .connected i) ++
    callSchedule true .shutdown (fun i ↦ .connected i) ++
    callSchedule false (.release (some 0)) (fun i ↦ .connected i) ++
    callSchedule true (.init 1) (fun i ↦ .connected (i + 1))

/-- The failure: with disciplined clients `acquire` returns a connection of the first `init` after
the second one has succeeded, and two connections are available out of a total of one. -/
theorem stale_connection_acquired :
    Along step Disciplined (start Bool ℕ) staleSchedule ∧
      ∃ state, run step (start Bool ℕ) staleSchedule = some state ∧
        (state.pool.take.1, state.opener 0, state.inits, state.pool.availableConnection,
          state.pool.totalConnection) = (some 0, 1, 2, 2, 1) :=
  ⟨by decide, exists_of_view (by decide)⟩

end Target

end TestLinux.ConnectionPool
