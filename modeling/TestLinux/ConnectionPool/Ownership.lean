import TestLinux.ConnectionPool.Model
import Mathlib.Algebra.Order.BigOperators.Group.Finset

/-!
# Every connection has exactly one place

`Owned` is the accounting of the handles: the queued handles, those held by the clients and the
closed ones together are the handles ever obtained, none of which was obtained twice. It also says
that `available_connection` counts the queue and that a client about to release a connection holds
it. Every transition keeps it (`owned_move`), so it holds across `shutdown`, late calls of `release`
and repeated calls of `init` (`owned_of_run`). `connections_owned_once` reads off where a connected
handle can be and what `acquire` can return.
-/

set_option autoImplicit false
set_option relaxedAutoImplicit false

namespace TestLinux.ConnectionPool

open TestLinux.Threads TestLinux.Runs

section Members

variable {Handle : Type*}

/-- The loop of `init` adds one connection for each increment of `i`, and never passes its bound. -/
theorem connectLoop_spec (attempt : ℕ → Attempt Handle) (remaining i : ℕ) (created : List Handle) :
    (connectLoop attempt remaining i created).1 ≤ i + remaining ∧
      (connectLoop attempt remaining i created).2.1.length + i =
        created.length + (connectLoop attempt remaining i created).1 := by
  induction remaining generalizing i created with
  | zero => simp [connectLoop]
  | succ remaining ih =>
    simp only [connectLoop]
    cases attempt i with
    | initFailed | connectFailed conn => simp
    | connected conn =>
      obtain ⟨hbound, hlength⟩ := ih (i + 1) (created ++ [conn])
      rw [List.length_append, List.length_singleton] at hlength
      constructor
      · exact hbound.trans (by omega)
      · change (connectLoop attempt remaining (i + 1) (created ++ [conn])).2.1.length + i =
          created.length + (connectLoop attempt remaining (i + 1) (created ++ [conn])).1
        omega

/-- A call of `init` that fails leaves the fields alone and has closed what it created; one that
succeeds has found the pool inactive and appends exactly `maxConnNum` connections. -/
theorem init_spec (pool : Pool Handle) (maxConnNum : ℕ) (attempt : ℕ → Attempt Handle) :
    let result := pool.init maxConnNum attempt
    (result.success = false ∧ result.pool = pool ∧
        ∀ conn ∈ result.created, conn ∈ result.closed) ∨
      (result.success = true ∧ pool.activeFlag = false ∧ result.created.length = maxConnNum ∧
        result.pool = { connections := pool.connections ++ result.created
                        activeFlag := true
                        totalConnection := pool.totalConnection + maxConnNum
                        availableConnection := pool.availableConnection + maxConnNum }) := by
  obtain ⟨hbound, hlength⟩ := connectLoop_spec attempt maxConnNum 0 []
  simp only [Pool.init]
  cases hactive : pool.activeFlag with
  | true => exact .inl ⟨rfl, rfl, nofun⟩
  | false =>
    simp only [Bool.false_eq_true, ↓reduceIte]
    split_ifs with hfailed
    · exact .inl ⟨rfl, rfl, fun conn hconn ↦ List.mem_append_right _ hconn⟩
    · refine .inr ⟨rfl, trivial, ?_, rfl⟩
      change (connectLoop attempt maxConnNum 0 []).2.1.length = maxConnNum
      rw [List.length_nil] at hlength
      omega

/-- `acquire` returns the front of the queue. -/
theorem exists_cons_of_take {pool : Pool Handle} {conn : Handle}
    (htake : pool.take.1 = some conn) : ∃ rest, pool.connections = conn :: rest := by
  unfold Pool.take at htake
  split_ifs at htake with hinactive
  cases hqueue : pool.connections with
  | nil => simp [hqueue] at htake
  | cons front rest =>
    simp only [hqueue, Option.some.injEq] at htake
    exact ⟨rest, by rw [htake]⟩

end Members

variable {Client Handle : Type*}

/-- The connection that a client is about to release. -/
def Point.releasing : Point Handle → Option Handle
  | .lock (.release conn) => conn
  | .inside (.release conn) => conn
  | _ => none

theorem Disciplined.of_init {state : State Client Handle} {client : Client}
    {attempt : ℕ → Attempt Handle} {chosen : Option Client} {maxConnNum : ℕ}
    (hallowed : Disciplined state (.move client attempt chosen))
    (hpoint : state.point client = .inside (.init maxConnNum)) :
    (state.pool.init maxConnNum attempt).obtained.Nodup ∧
      ∀ conn ∈ (state.pool.init maxConnNum attempt).obtained, conn ∉ state.handles :=
  hallowed maxConnNum (by rw [hpoint]; rfl)

section Ownership

variable [Fintype Client]

/-- The handles held by the clients. -/
def State.heldByAll (state : State Client Handle) : Multiset Handle :=
  ∑ client, (state.held client : Multiset Handle)

/-- The accounting of the handles. -/
structure Owned (state : State Client Handle) : Prop where
  available : state.pool.availableConnection = state.pool.connections.length
  places : (state.pool.connections : Multiset Handle) + state.heldByAll + state.closed =
    state.handles
  distinct : state.handles.Nodup
  connected : ∀ conn ∈ state.connected, conn ∈ state.handles
  releasing : ∀ client conn, (state.point client).releasing = some conn →
    conn ∈ state.held client

theorem owned_start : Owned (start Client Handle) where
  available := rfl
  places := by simp [start, State.heldByAll]
  distinct := List.nodup_nil
  connected := nofun
  releasing := fun client conn hreleasing ↦ by simp [start, Point.releasing] at hreleasing

/-- A step that moves clients between program points and nothing else. -/
theorem Owned.congr {state next : State Client Handle} (hstate : Owned state)
    (hpool : next.pool = state.pool) (hheld : next.held = state.held)
    (hclosed : next.closed = state.closed) (hhandles : next.handles = state.handles)
    (hconnected : next.connected = state.connected)
    (hreleasing : ∀ client conn, (next.point client).releasing = some conn →
      conn ∈ state.held client) : Owned next where
  available := by rw [hpool, hstate.available]
  places := by rw [hpool, State.heldByAll, hheld, hclosed, hhandles]; exact hstate.places
  distinct := hhandles ▸ hstate.distinct
  connected := by rw [hconnected, hhandles]; exact hstate.connected
  releasing := hheld ▸ hreleasing

variable [DecidableEq Client]

/-- After a step of one client the other clients still hold what they are about to release. -/
theorem Owned.releasing_update {state : State Client Handle} (hstate : Owned state)
    (client : Client) (point : Point Handle)
    (hpoint : ∀ conn, point.releasing = some conn → conn ∈ state.held client) :
    ∀ other conn, (Function.update state.point client point other).releasing = some conn →
      conn ∈ state.held other := by
  intro other conn hreleasing
  by_cases hother : other = client
  · subst hother
    rw [Function.update_self] at hreleasing
    exact hpoint conn hreleasing
  · rw [Function.update_of_ne hother] at hreleasing
    exact hstate.releasing other conn hreleasing

/-- A step of one client to a point at which it is not about to release anything. -/
theorem Owned.setPoint {state : State Client Handle} (hstate : Owned state) (client : Client)
    {point : Point Handle} (hpoint : point.releasing = none) :
    Owned (state.setPoint client point) :=
  hstate.congr rfl rfl rfl rfl rfl
    (hstate.releasing_update client point fun conn hconn ↦ by simp [hpoint] at hconn)

theorem heldByAll_update_add (state : State Client Handle) (client : Client)
    (handles : List Handle) :
    (∑ other, ((Function.update state.held client handles other : List Handle) :
        Multiset Handle)) + state.held client = state.heldByAll + handles :=
  sum_update_add (fun handles : List Handle ↦ (handles : Multiset Handle)) state.held client handles

variable [DecidableEq Handle]

omit [DecidableEq Client] in
theorem owned_notifyAll {state : State Client Handle} (hstate : Owned state) :
    Owned state.notifyAll := by
  refine hstate.congr rfl rfl rfl rfl rfl fun client conn hreleasing ↦ ?_
  simp only [State.notifyAll] at hreleasing
  split_ifs at hreleasing with hblocked
  · simp [Point.releasing] at hreleasing
  · exact hstate.releasing client conn hreleasing

omit [DecidableEq Handle] in
theorem heldByAll_afterTake (state : State Client Handle) (client : Client) (conn : Handle)
    (pool : Pool Handle) :
    (state.afterTake client conn pool).heldByAll = state.heldByAll + {conn} := by
  have hsum := heldByAll_update_add state client (conn :: state.held client)
  rw [← Multiset.cons_coe, ← Multiset.singleton_add, ← add_assoc] at hsum
  exact add_right_cancel hsum

theorem heldByAll_afterRelease {state : State Client Handle} {client : Client} {conn : Handle}
    (hheld : conn ∈ state.held client) :
    (state.afterRelease client conn).heldByAll + {conn} = state.heldByAll := by
  have hsum := heldByAll_update_add state client ((state.held client).erase conn)
  have herase : (state.held client : Multiset Handle) =
      {conn} + ((state.held client).erase conn : List Handle) := by
    rw [Multiset.singleton_add, Multiset.cons_coe]
    exact Multiset.coe_eq_coe.mpr (List.perm_cons_erase hheld)
  rw [herase, ← add_assoc] at hsum
  exact add_right_cancel hsum

omit [DecidableEq Handle] in
/-- After a step in which the list of one client changes, with nothing about to be released by it,
the other clients still hold what they are about to release. -/
theorem Owned.releasing_of_update {state : State Client Handle} (hstate : Owned state)
    (client : Client) {point : Point Handle} (hpoint : point.releasing = none)
    (handles : List Handle) :
    ∀ other conn, (Function.update state.point client point other).releasing = some conn →
      conn ∈ Function.update state.held client handles other := by
  intro other conn hreleasing
  by_cases hother : other = client
  · subst hother
    rw [Function.update_self, hpoint] at hreleasing
    cases hreleasing
  · rw [Function.update_of_ne hother] at hreleasing ⊢
    exact hstate.releasing other conn hreleasing

omit [DecidableEq Handle] in
/-- `acquire` moves the front of the queue to the client. -/
theorem owned_afterTake {state : State Client Handle} (hstate : Owned state) (client : Client)
    {conn : Handle} {rest : List Handle} (hconnections : state.pool.connections = conn :: rest) :
    Owned (state.afterTake client conn { state.pool with
      connections := rest
      availableConnection := decrement state.pool.availableConnection }) where
  available := by
    change decrement state.pool.availableConnection = rest.length
    rw [hstate.available, hconnections]
    rfl
  places := by
    have hplaces := hstate.places
    rw [hconnections, ← Multiset.cons_coe, ← Multiset.singleton_add] at hplaces
    rw [heldByAll_afterTake]
    change (rest : Multiset Handle) + (state.heldByAll + {conn}) + state.closed = state.handles
    rw [← hplaces]
    ac_rfl
  distinct := hstate.distinct
  connected := hstate.connected
  releasing := hstate.releasing_of_update client rfl _

/-- `release` moves the connection from the client to the end of the queue. -/
theorem owned_afterRelease {state : State Client Handle} (hstate : Owned state) {client : Client}
    {conn : Handle} (hheld : conn ∈ state.held client) :
    Owned (state.afterRelease client conn) where
  available := by
    change state.pool.availableConnection + 1 = (state.pool.connections ++ [conn]).length
    rw [hstate.available, List.length_append, List.length_singleton]
  places := by
    change ((state.pool.connections ++ [conn] : List Handle) : Multiset Handle) +
      (state.afterRelease client conn).heldByAll + state.closed = state.handles
    rw [← hstate.places, ← heldByAll_afterRelease hheld, ← Multiset.coe_add,
      Multiset.coe_singleton]
    ac_rfl
  distinct := hstate.distinct
  connected := hstate.connected
  releasing := hstate.releasing_of_update client rfl _

omit [DecidableEq Handle] in
/-- `shutdown` moves the whole queue to the closed handles. -/
theorem owned_afterShutdown {state : State Client Handle} (hstate : Owned state)
    (client : Client) : Owned (state.afterShutdown client) where
  available := rfl
  places := by
    change (([] : List Handle) : Multiset Handle) + state.heldByAll +
      ((state.closed ++ state.pool.connections : List Handle) : Multiset Handle) = state.handles
    rw [← hstate.places, ← Multiset.coe_add, Multiset.coe_nil, zero_add]
    ac_rfl
  distinct := hstate.distinct
  connected := hstate.connected
  releasing := (hstate.setPoint client rfl).releasing

omit [DecidableEq Client] in
/-- `init` puts the new handles into the queue or among the closed ones. -/
theorem owned_afterInit {state : State Client Handle} (hstate : Owned state) {maxConnNum : ℕ}
    {attempt : ℕ → Attempt Handle}
    (hdistinct : (state.pool.init maxConnNum attempt).obtained.Nodup)
    (hfresh : ∀ conn ∈ (state.pool.init maxConnNum attempt).obtained, conn ∉ state.handles) :
    Owned (state.afterInit (state.pool.init maxConnNum attempt)) := by
  have hall : (state.handles ++ (state.pool.init maxConnNum attempt).obtained).Nodup :=
    List.nodup_append.mpr ⟨hstate.distinct, hdistinct, fun conn hold other hnew heq ↦
      hfresh other hnew (heq ▸ hold)⟩
  rcases init_spec state.pool maxConnNum attempt with
    ⟨hfailed, hpool, hclosed⟩ | ⟨hsuccess, -, hlength, hpool⟩
  · simp only [InitResult.obtained, hfailed, Bool.false_eq_true, ↓reduceIte] at hall
    simp only [State.afterInit, hfailed, Bool.false_eq_true, ↓reduceIte, hpool]
    refine ⟨hstate.available, ?_, hall, ?_, hstate.releasing⟩
    · change (state.pool.connections : Multiset Handle) + state.heldByAll +
        ((state.closed ++ (state.pool.init maxConnNum attempt).closed : List Handle) :
          Multiset Handle) = ((state.handles ++ (state.pool.init maxConnNum attempt).closed :
            List Handle) : Multiset Handle)
      rw [← Multiset.coe_add, ← Multiset.coe_add, ← hstate.places]
      ac_rfl
    · intro conn hconn
      rcases List.mem_append.mp hconn with hold | hnew
      · exact List.mem_append_left _ (hstate.connected conn hold)
      · exact List.mem_append_right _ (hclosed conn hnew)
  · simp only [InitResult.obtained, hsuccess, ↓reduceIte] at hall
    have hnotified := owned_notifyAll hstate
    simp only [State.afterInit, hsuccess, ↓reduceIte, hpool]
    refine ⟨?_, ?_, hall, ?_, hnotified.releasing⟩
    · change state.pool.availableConnection + maxConnNum =
        (state.pool.connections ++ (state.pool.init maxConnNum attempt).created).length
      rw [hstate.available, List.length_append, hlength]
    · change ((state.pool.connections ++ (state.pool.init maxConnNum attempt).created :
          List Handle) : Multiset Handle) + state.heldByAll + state.closed =
        ((state.handles ++ (state.pool.init maxConnNum attempt).created : List Handle) :
          Multiset Handle)
      rw [← Multiset.coe_add, ← Multiset.coe_add, ← hstate.places]
      ac_rfl
    · intro conn hconn
      rcases List.mem_append.mp hconn with hold | hnew
      · exact List.mem_append_left _ (hstate.connected conn hold)
      · exact List.mem_append_right _ hnew

theorem owned_move {state next : State Client Handle} {event : Event Client Handle}
    (hstate : Owned state) (hallowed : Disciplined state event) (hmove : Move state event next) :
    Owned next := by
  cases hmove with
  | releaseNull => exact hstate
  | @start client call hpoint hcall =>
    refine hstate.congr rfl rfl rfl rfl rfl (hstate.releasing_update client _ fun conn hconn ↦ ?_)
    cases call with
    | release held =>
      obtain rfl : held = some conn := hconn
      exact hallowed
    | init | acquire | shutdown => cases hconn
  | @takeMutex client attempt chosen call hpoint hfree =>
    refine hstate.congr rfl rfl rfl rfl rfl (hstate.releasing_update client _ fun conn hconn ↦ ?_)
    rcases hpoint with hlock | ⟨rfl, -⟩
    · refine hstate.releasing client conn ?_
      rw [hlock]
      cases call with
      | release held => exact hconn
      | init | acquire | shutdown => cases hconn
    · cases hconn
  | init hpoint =>
    obtain ⟨hdistinct, hfresh⟩ := hallowed.of_init hpoint
    exact owned_afterInit (hstate.setPoint _ rfl) hdistinct hfresh
  | acquireWait | acquireNull | releaseInside | spurious => exact hstate.setPoint _ rfl
  | acquireTake hpoint hactive hconnections => exact owned_afterTake hstate _ hconnections
  | releaseWake hpoint =>
    have hheld := hstate.releasing _ _ (by rw [hpoint]; rfl)
    exact (owned_afterRelease hstate hheld).setPoint _ rfl
  | releaseAlone hpoint =>
    exact owned_afterRelease hstate (hstate.releasing _ _ (by rw [hpoint]; rfl))
  | shutdown => exact owned_notifyAll (owned_afterShutdown hstate _)
  | block | unlock =>
    exact (hstate.setPoint _ rfl).congr rfl rfl rfl rfl rfl (hstate.setPoint _ rfl).releasing

/-- The accounting holds in every reachable state. -/
theorem owned_of_run {events : List (Event Client Handle)} {state : State Client Handle}
    (hrun : run step (start Client Handle) events = some state)
    (halong : Along step Disciplined (start Client Handle) events) : Owned state :=
  run_invariant_along (fun _ _ _ hstate hallowed hstep ↦
    owned_move hstate hallowed (move_of_step hstep)) owned_start halong hrun

omit [DecidableEq Client] in
/-- A handle is counted once over the queue, the clients and the closed handles. -/
theorem Owned.count_eq_one {state : State Client Handle} (hstate : Owned state) {conn : Handle}
    (hconn : conn ∈ state.handles) :
    state.pool.connections.count conn + ∑ client, (state.held client).count conn +
      state.closed.count conn = 1 := by
  have hcount := congrArg (Multiset.count conn) hstate.places
  simp only [State.heldByAll, Multiset.count_add, Multiset.count_sum', Multiset.coe_count] at hcount
  rw [hcount]
  exact List.count_eq_one_of_mem hstate.distinct hconn

omit [DecidableEq Client] in
/-- A queued handle is neither closed nor held. -/
theorem Owned.not_closed_of_queued {state : State Client Handle} (hstate : Owned state)
    {conn : Handle} (hqueued : conn ∈ state.pool.connections) :
    conn ∉ state.closed ∧ ∀ client, conn ∉ state.held client := by
  have hmem : conn ∈ state.handles := by
    rw [← Multiset.mem_coe, ← hstate.places]
    exact Multiset.mem_add.mpr (.inl (Multiset.mem_add.mpr (.inl hqueued)))
  have hcount := hstate.count_eq_one hmem
  have hpositive := List.count_pos_iff.mpr hqueued
  refine ⟨fun hclosed ↦ ?_, fun client hheld ↦ ?_⟩
  · have hpositive' := List.count_pos_iff.mpr hclosed
    omega
  · have hpositive' := List.count_pos_iff.mpr hheld
    have hsingle : (state.held client).count conn ≤ ∑ other, (state.held other).count conn :=
      Finset.single_le_sum (f := fun other ↦ (state.held other).count conn)
        (fun _ _ ↦ Nat.zero_le _) (Finset.mem_univ client)
    omega

/-- In every state that disciplined clients reach, the counter of available connections is the
length of the queue, so that its decrement never wraps; every connected handle is exactly once in
the queue, with one client or among the closed handles; what `acquire` returns is neither closed nor
held by any client. -/
theorem connections_owned_once {events : List (Event Client Handle)} {state : State Client Handle}
    (hrun : run step (start Client Handle) events = some state)
    (halong : Along step Disciplined (start Client Handle) events) :
    state.pool.availableConnection = state.pool.connections.length ∧
      (∀ conn ∈ state.connected, state.pool.connections.count conn +
        ∑ client, (state.held client).count conn + state.closed.count conn = 1) ∧
      ∀ conn, state.pool.take.1 = some conn → 0 < state.pool.availableConnection ∧
        conn ∉ state.closed ∧ ∀ client, conn ∉ state.held client := by
  have hstate := owned_of_run hrun halong
  refine ⟨hstate.available, fun conn hconn ↦ hstate.count_eq_one (hstate.connected conn hconn), ?_⟩
  intro conn htake
  obtain ⟨rest, hconnections⟩ := exists_cons_of_take htake
  have hqueued : conn ∈ state.pool.connections := hconnections ▸ List.mem_cons_self
  exact ⟨hstate.available ▸ List.length_pos_of_mem hqueued, hstate.not_closed_of_queued hqueued⟩

/-- One client opens two connections and takes both; the other shuts the pool down and opens two
more, of which the second fails; the first client gives one connection back afterwards. -/
def lateReleaseSchedule : List (Event Bool ℕ) :=
  callSchedule false (.init 2) (fun i ↦ .connected i) ++
    callSchedule false .acquire (fun i ↦ .connected i) ++
    callSchedule false .acquire (fun i ↦ .connected i) ++
    callSchedule true .shutdown (fun i ↦ .connected i) ++
    callSchedule true (.init 2) (fun i ↦ if i = 0 then .connected 2 else .connectFailed 3) ++
    callSchedule false (.release (some 1)) (fun i ↦ .connected i)

theorem connections_owned_once_lateReleaseSchedule :
    ∃ state, run step (start Bool ℕ) lateReleaseSchedule = some state ∧
      (state.pool.connections, state.held false, state.closed, state.connected) =
        ([1], [0], [3, 2], [0, 1, 2]) ∧
      state.pool.availableConnection = state.pool.connections.length := by
  have hview : (run step (start Bool ℕ) lateReleaseSchedule).map (fun state ↦
      (state.pool.connections, state.held false, state.closed, state.connected)) =
        some ([1], [0], [3, 2], [0, 1, 2]) := by decide
  obtain ⟨state, hrun, hseen⟩ := exists_of_view hview
  exact ⟨state, hrun, hseen, (connections_owned_once hrun (by decide)).1⟩

end Ownership

end TestLinux.ConnectionPool
