import TestLinux.Library.Runs
import TestLinux.Library.Threads
import Mathlib.Data.Fintype.Basic

/-!
# The connection pool of `test4/connectionpool.h` as a transition system

The member functions of `ConnectionPool` are modelled first as functions of its fields (`Pool`):
`Pool.init` with the loop that opens connections one by one and closes all of them when one fails,
the predicate `Pool.ready` of the wait in `acquire` and what `acquire` does after it (`Pool.take`),
`Pool.release` and `Pool.shutdown`. `mysql_init` and `mysql_real_connect` are not part of the
repository; each iteration of the loop asks an oracle for the outcome of the pair (`Attempt`), and
`mysql_close` is recorded.

The system then lets any number of clients call these functions. Every access to the fields happens
under `mutex_cp`, so the body of a call is one step between taking and giving back the mutex. The
wait in `acquire` is the loop of its definition: while the predicate is false, release the mutex and
block in one step, and take the mutex again after a notification or a spurious wake-up.

The fields `held`, `closed`, `handles`, `connected`, `inits` and `opener` record history: what
`acquire` returned to each client and has not been given back, the handles passed to `mysql_close`,
the handles returned by `mysql_init`, those of them that got connected, the number of successful
calls of `init`, and for each handle which of these calls opened it. No step reads them.

`step` is the executable transition function; `Move` lists what it can do and `move_of_step` says
that it does nothing else. `Disciplined` is what the ownership of connections rests on outside the
class: a client calls `release` only with connections that it holds, and the handles that `init`
obtains from the library have not been seen before.
-/

set_option autoImplicit false
set_option relaxedAutoImplicit false

namespace TestLinux.ConnectionPool

open TestLinux.Threads

/-! ### The member functions -/

/-- The fields of the pool. -/
structure Pool (Handle : Type*) where
  connections : List Handle
  activeFlag : Bool
  totalConnection : ℕ
  availableConnection : ℕ

/-- The outcome of `mysql_init` followed by `mysql_real_connect` in one iteration of `init`. -/
inductive Attempt (Handle : Type*)
  | initFailed
  | connectFailed (conn : Handle)
  | connected (conn : Handle)

/-- The loop of `init` from iteration `i` on: the value of `i` at its end, the connections created
and the handles closed because they could not be connected. -/
def connectLoop {Handle : Type*} (attempt : ℕ → Attempt Handle) :
    (remaining i : ℕ) → (created : List Handle) → ℕ × List Handle × List Handle
  | 0, i, created => (i, created, [])
  | remaining + 1, i, created =>
    match attempt i with
    | .initFailed => (i, created, [])
    | .connectFailed conn => (i, created, [conn])
    | .connected conn => connectLoop attempt remaining (i + 1) (created ++ [conn])

/-- What a call of `init` does: its return value, the fields after it, the connections it created
and the handles it closed. -/
structure InitResult (Handle : Type*) where
  success : Bool
  pool : Pool Handle
  created : List Handle
  closed : List Handle

section Members

variable {Handle : Type*} (pool : Pool Handle)

/-- `ConnectionPool::init`. -/
def Pool.init (maxConnNum : ℕ) (attempt : ℕ → Attempt Handle) : InitResult Handle :=
  if pool.activeFlag then ⟨false, pool, [], []⟩
  else
    let (i, created, failed) := connectLoop attempt maxConnNum 0 []
    if i < maxConnNum then ⟨false, pool, created, failed ++ created⟩
    else
      ⟨true,
        { connections := pool.connections ++ created
          activeFlag := true
          totalConnection := pool.totalConnection + maxConnNum
          availableConnection := pool.availableConnection + maxConnNum },
        created, []⟩

/-- The predicate of the wait in `acquire`. -/
def Pool.ready : Bool := !pool.connections.isEmpty || !pool.activeFlag

/-- `available_connection--` on an unsigned counter of 64 bits. -/
def decrement (count : ℕ) : ℕ := if count = 0 then 2 ^ 64 - 1 else count - 1

/-- `ConnectionPool::acquire` after its wait: the returned pointer and the fields after it. -/
def Pool.take : Option Handle × Pool Handle :=
  if pool.activeFlag = false then (none, pool)
  else
    match pool.connections with
    | [] => (none, pool)
    | conn :: rest =>
      (some conn, { pool with
        connections := rest
        availableConnection := decrement pool.availableConnection })

/-- `ConnectionPool::release` of a pointer that is not null. -/
def Pool.release (conn : Handle) : Pool Handle :=
  { pool with
    connections := pool.connections ++ [conn]
    availableConnection := pool.availableConnection + 1 }

/-- `ConnectionPool::shutdown`: the fields after it and the handles it closed, which are the queued
connections from the front of the queue to its end. -/
def Pool.shutdown : Pool Handle × List Handle :=
  ({ connections := []
     activeFlag := false
     totalConnection := 0
     availableConnection := 0 }, pool.connections)

end Members

/-! ### The clients -/

/-- A call of a member function; a null pointer passed to `release` is `none`. -/
inductive Call (Handle : Type*)
  | init (maxConnNum : ℕ)
  | acquire
  | release (conn : Option Handle)
  | shutdown
  deriving DecidableEq

/-- The program points of a client. At `inside`, `sleep` and `unlock` it owns the mutex. -/
inductive Point (Handle : Type*)
  | idle
  | lock (call : Call Handle)
  | inside (call : Call Handle)
  | sleep
  | waiting (phase : Sleep)
  | unlock
  deriving DecidableEq

/-- The argument of the `init` whose body comes next. -/
def Point.initializing {Handle : Type*} : Point Handle → Option ℕ
  | .inside (.init maxConnNum) => some maxConnNum
  | _ => none

/-- The pool, the program points of the clients and the history. -/
structure State (Client Handle : Type*) where
  pool : Pool Handle
  mutex : Option Client
  point : Client → Point Handle
  held : Client → List Handle
  closed : List Handle
  handles : List Handle
  connected : List Handle
  inits : ℕ
  opener : Handle → ℕ

/-- The pool after its constructor. -/
def start (Client Handle : Type*) : State Client Handle where
  pool := ⟨[], false, 0, 0⟩
  mutex := none
  point := fun _ ↦ .idle
  held := fun _ ↦ []
  closed := []
  handles := []
  connected := []
  inits := 0
  opener := fun _ ↦ 0

/-- The choices of the scheduler and of the environment: a client starts a call, a client makes its
next step (with the outcomes of the connection attempts if it is the body of `init`, and the client
woken by `notify_one` if it is the body of `release`), or a wait returns spuriously. -/
inductive Event (Client Handle : Type*)
  | call (client : Client) (call : Call Handle)
  | move (client : Client) (attempt : ℕ → Attempt Handle) (chosen : Option Client)
  | spurious (client : Client)

section Steps

variable {Client Handle : Type*} [DecidableEq Client] [DecidableEq Handle]

/-- The state with one client at another program point. -/
def State.setPoint (state : State Client Handle) (client : Client) (point : Point Handle) :
    State Client Handle :=
  { state with point := Function.update state.point client point }

/-- `notify_one`: a blocked client is notified, whichever the environment has `chosen`; nothing
happens when no client is blocked. -/
def State.notifyOne [Fintype Client] (state : State Client Handle) :
    Option Client → Option (State Client Handle)
  | some client =>
    if state.point client = .waiting .blocked then
      some (state.setPoint client (.waiting .notified))
    else none
  | none => if ∀ client, state.point client ≠ .waiting .blocked then some state else none

/-- `notify_all`: every blocked client is notified. -/
def State.notifyAll (state : State Client Handle) : State Client Handle :=
  { state with point := fun client ↦
      if state.point client = .waiting .blocked then .waiting .notified else state.point client }

/-- The state after the body of `init`, with the history it leaves. -/
def State.afterInit (state : State Client Handle) (result : InitResult Handle) :
    State Client Handle :=
  if result.success then
    { state.notifyAll with
      pool := result.pool
      handles := state.handles ++ result.created
      connected := state.connected ++ result.created
      inits := state.inits + 1
      opener := fun conn ↦
        if conn ∈ result.created then state.inits + 1 else state.opener conn }
  else
    { state with
      pool := result.pool
      closed := state.closed ++ result.closed
      handles := state.handles ++ result.closed
      connected := state.connected ++ result.created }

/-- The state after `acquire` has returned `conn` to a client and left the fields as `pool`. -/
def State.afterTake (state : State Client Handle) (client : Client) (conn : Handle)
    (pool : Pool Handle) : State Client Handle :=
  { state.setPoint client .unlock with
    pool := pool
    held := Function.update state.held client (conn :: state.held client) }

/-- The state after `release` has queued the `conn` of a client, before its notification. -/
def State.afterRelease (state : State Client Handle) (client : Client) (conn : Handle) :
    State Client Handle :=
  { state.setPoint client .unlock with
    pool := state.pool.release conn
    held := Function.update state.held client ((state.held client).erase conn) }

/-- The state after `shutdown` has emptied the queue, before its notification. -/
def State.afterShutdown (state : State Client Handle) (client : Client) : State Client Handle :=
  { state.setPoint client .unlock with
    pool := state.pool.shutdown.1
    closed := state.closed ++ state.pool.shutdown.2 }

/-- The handles that a call of `init` obtained from `mysql_init`. -/
def InitResult.obtained (result : InitResult Handle) : List Handle :=
  if result.success then result.created else result.closed

/-- The body of a call, run by a client that owns the mutex. -/
def bodyStep [Fintype Client] (state : State Client Handle) (client : Client)
    (attempt : ℕ → Attempt Handle) (chosen : Option Client) :
    Call Handle → Option (State Client Handle)
  | .init maxConnNum =>
    some ((state.setPoint client .unlock).afterInit (state.pool.init maxConnNum attempt))
  | .acquire =>
    if state.pool.ready then
      match state.pool.take with
      | (none, pool) => some { state.setPoint client .unlock with pool := pool }
      | (some conn, pool) => some (state.afterTake client conn pool)
    else some (state.setPoint client .sleep)
  | .release none => some (state.setPoint client .unlock)
  | .release (some conn) => (state.afterRelease client conn).notifyOne chosen
  | .shutdown => some (state.afterShutdown client).notifyAll

/-- One step of a client that has called a member function. -/
def moveStep [Fintype Client] (state : State Client Handle) (client : Client)
    (attempt : ℕ → Attempt Handle) (chosen : Option Client) : Option (State Client Handle) :=
  match state.point client with
  | .idle => none
  | .lock call =>
    if state.mutex = none then
      some { state.setPoint client (.inside call) with mutex := some client }
    else none
  | .inside call => bodyStep state client attempt chosen call
  | .sleep => some { state.setPoint client (.waiting .blocked) with mutex := none }
  | .waiting .blocked => none
  | .waiting .notified | .waiting .spurious =>
    if state.mutex = none then
      some { state.setPoint client (.inside .acquire) with mutex := some client }
    else none
  | .unlock => some { state.setPoint client .idle with mutex := none }

/-- A client starts a call. `release` returns at once when it is given a null pointer. -/
def callStep (state : State Client Handle) (client : Client) (call : Call Handle) :
    Option (State Client Handle) :=
  if state.point client = .idle then
    match call with
    | .release none => some state
    | _ => some (state.setPoint client (.lock call))
  else none

/-- One step of the system. -/
def step [Fintype Client] (state : State Client Handle) :
    Event Client Handle → Option (State Client Handle)
  | .call client call => callStep state client call
  | .move client attempt chosen => moveStep state client attempt chosen
  | .spurious client =>
    if state.point client = .waiting .blocked then
      some (state.setPoint client (.waiting .spurious))
    else none

/-- What the callers and the library promise: a client releases only connections that it holds, and
the handles that a call of `init` obtains are pairwise distinct and new. -/
def Disciplined (state : State Client Handle) : Event Client Handle → Prop
  | .call client (.release (some conn)) => conn ∈ state.held client
  | .move client attempt _ =>
    ∀ maxConnNum ∈ (state.point client).initializing,
      (state.pool.init maxConnNum attempt).obtained.Nodup ∧
        ∀ conn ∈ (state.pool.init maxConnNum attempt).obtained, conn ∉ state.handles
  | _ => True

instance (state : State Client Handle) : (event : Event Client Handle) →
    Decidable (Disciplined state event)
  | .call client (.release (some conn)) => inferInstanceAs (Decidable (conn ∈ state.held client))
  | .move client attempt _ => inferInstanceAs (Decidable (∀ maxConnNum ∈
      (state.point client).initializing, (state.pool.init maxConnNum attempt).obtained.Nodup ∧
        ∀ conn ∈ (state.pool.init maxConnNum attempt).obtained, conn ∉ state.handles))
  | .call _ (.init _) | .call _ .acquire | .call _ (.release none) | .call _ .shutdown
  | .spurious _ => isTrue trivial

/-! ### What a step can do -/

/-- A client that needs the mutex next for `call`: before its body, or after a wake-up in the wait
of `acquire`. -/
def Point.wantsMutex (point : Point Handle) (call : Call Handle) : Prop :=
  point = .lock call ∨
    call = .acquire ∧ (point = .waiting .notified ∨ point = .waiting .spurious)

/-- The transitions of the system, each with the guards under which the code takes it. -/
inductive Move : State Client Handle → Event Client Handle → State Client Handle → Prop
  | releaseNull {state : State Client Handle} {client : Client}
      (hpoint : state.point client = .idle) : Move state (.call client (.release none)) state
  | start {state : State Client Handle} {client : Client} {call : Call Handle}
      (hpoint : state.point client = .idle) (hcall : call ≠ .release none) :
      Move state (.call client call) (state.setPoint client (.lock call))
  | takeMutex {state : State Client Handle} {client : Client} {attempt : ℕ → Attempt Handle}
      {chosen : Option Client} {call : Call Handle}
      (hpoint : (state.point client).wantsMutex call) (hfree : state.mutex = none) :
      Move state (.move client attempt chosen)
        { state.setPoint client (.inside call) with mutex := some client }
  | init {state : State Client Handle} {client : Client} {attempt : ℕ → Attempt Handle}
      {chosen : Option Client} {maxConnNum : ℕ}
      (hpoint : state.point client = .inside (.init maxConnNum)) :
      Move state (.move client attempt chosen)
        ((state.setPoint client .unlock).afterInit (state.pool.init maxConnNum attempt))
  | acquireWait {state : State Client Handle} {client : Client} {attempt : ℕ → Attempt Handle}
      {chosen : Option Client} (hpoint : state.point client = .inside .acquire)
      (hempty : state.pool.connections = []) (hactive : state.pool.activeFlag = true) :
      Move state (.move client attempt chosen) (state.setPoint client .sleep)
  | acquireNull {state : State Client Handle} {client : Client} {attempt : ℕ → Attempt Handle}
      {chosen : Option Client} (hpoint : state.point client = .inside .acquire)
      (hinactive : state.pool.activeFlag = false) :
      Move state (.move client attempt chosen) (state.setPoint client .unlock)
  | acquireTake {state : State Client Handle} {client : Client} {attempt : ℕ → Attempt Handle}
      {chosen : Option Client} {conn : Handle} {rest : List Handle}
      (hpoint : state.point client = .inside .acquire) (hactive : state.pool.activeFlag = true)
      (hconnections : state.pool.connections = conn :: rest) :
      Move state (.move client attempt chosen)
        (state.afterTake client conn { state.pool with
          connections := rest
          availableConnection := decrement state.pool.availableConnection })
  | releaseInside {state : State Client Handle} {client : Client} {attempt : ℕ → Attempt Handle}
      {chosen : Option Client} (hpoint : state.point client = .inside (.release none)) :
      Move state (.move client attempt chosen) (state.setPoint client .unlock)
  | releaseWake {state : State Client Handle} {client woken : Client}
      {attempt : ℕ → Attempt Handle} {conn : Handle}
      (hpoint : state.point client = .inside (.release (some conn)))
      (hblocked : state.point woken = .waiting .blocked) :
      Move state (.move client attempt (some woken))
        ((state.afterRelease client conn).setPoint woken (.waiting .notified))
  | releaseAlone {state : State Client Handle} {client : Client} {attempt : ℕ → Attempt Handle}
      {conn : Handle} (hpoint : state.point client = .inside (.release (some conn)))
      (hblocked : ∀ other, state.point other ≠ .waiting .blocked) :
      Move state (.move client attempt none) (state.afterRelease client conn)
  | shutdown {state : State Client Handle} {client : Client} {attempt : ℕ → Attempt Handle}
      {chosen : Option Client} (hpoint : state.point client = .inside .shutdown) :
      Move state (.move client attempt chosen) (state.afterShutdown client).notifyAll
  | block {state : State Client Handle} {client : Client} {attempt : ℕ → Attempt Handle}
      {chosen : Option Client} (hpoint : state.point client = .sleep) :
      Move state (.move client attempt chosen)
        { state.setPoint client (.waiting .blocked) with mutex := none }
  | unlock {state : State Client Handle} {client : Client} {attempt : ℕ → Attempt Handle}
      {chosen : Option Client} (hpoint : state.point client = .unlock) :
      Move state (.move client attempt chosen)
        { state.setPoint client .idle with mutex := none }
  | spurious {state : State Client Handle} {client : Client}
      (hpoint : state.point client = .waiting .blocked) :
      Move state (.spurious client) (state.setPoint client (.waiting .spurious))

omit [DecidableEq Handle] in
theorem ready_eq_false_iff (pool : Pool Handle) :
    pool.ready = false ↔ pool.connections = [] ∧ pool.activeFlag = true := by
  simp [Pool.ready]

omit [DecidableEq Handle] in
theorem take_of_inactive {pool : Pool Handle} (hinactive : pool.activeFlag = false) :
    pool.take = (none, pool) := if_pos hinactive

omit [DecidableEq Handle] in
theorem take_of_cons {pool : Pool Handle} {conn : Handle} {rest : List Handle}
    (hactive : pool.activeFlag = true) (hconnections : pool.connections = conn :: rest) :
    pool.take = (some conn, { pool with
      connections := rest
      availableConnection := decrement pool.availableConnection }) := by
  simp [Pool.take, hactive, hconnections]

theorem move_of_acquire {state next : State Client Handle} {client : Client}
    {attempt : ℕ → Attempt Handle} {chosen : Option Client} [Fintype Client]
    (hpoint : state.point client = .inside .acquire)
    (hstep : bodyStep state client attempt chosen .acquire = some next) :
    Move state (.move client attempt chosen) next := by
  unfold bodyStep at hstep
  split_ifs at hstep with hready
  · cases hactive : state.pool.activeFlag with
    | false =>
      rw [take_of_inactive hactive] at hstep
      exact Option.some.inj hstep ▸ .acquireNull hpoint hactive
    | true =>
      cases hconnections : state.pool.connections with
      | nil => simp [Pool.ready, hactive, hconnections] at hready
      | cons conn rest =>
        rw [take_of_cons hactive hconnections] at hstep
        exact Option.some.inj hstep ▸ .acquireTake hpoint hactive hconnections
  · rw [Bool.not_eq_true, ready_eq_false_iff] at hready
    exact Option.some.inj hstep ▸ .acquireWait hpoint hready.1 hready.2

theorem move_of_release [Fintype Client] {state next : State Client Handle} {client : Client}
    {attempt : ℕ → Attempt Handle} {chosen : Option Client} {conn : Handle}
    (hpoint : state.point client = .inside (.release (some conn)))
    (hstep : bodyStep state client attempt chosen (.release (some conn)) = some next) :
    Move state (.move client attempt chosen) next := by
  have hothers : ∀ other, (state.afterRelease client conn).point other = .waiting .blocked ↔
      state.point other = .waiting .blocked := by
    intro other
    by_cases hother : other = client
    · subst hother
      simp [State.afterRelease, State.setPoint, hpoint]
    · simp [State.afterRelease, State.setPoint, hother]
  cases chosen with
  | none =>
    obtain ⟨hblocked, hnext⟩ := Option.ite_none_right_eq_some.mp hstep
    refine Option.some.inj hnext ▸ .releaseAlone hpoint fun other ↦ ?_
    exact fun heq ↦ hblocked other ((hothers other).mpr heq)
  | some woken =>
    obtain ⟨hblocked, hnext⟩ := Option.ite_none_right_eq_some.mp hstep
    exact Option.some.inj hnext ▸ .releaseWake hpoint ((hothers woken).mp hblocked)

theorem move_of_moveStep [Fintype Client] {state next : State Client Handle} {client : Client}
    {attempt : ℕ → Attempt Handle} {chosen : Option Client}
    (hstep : moveStep state client attempt chosen = some next) :
    Move state (.move client attempt chosen) next := by
  unfold moveStep at hstep
  split at hstep
  next => cases hstep
  next call hpoint =>
    obtain ⟨hfree, hnext⟩ := Option.ite_none_right_eq_some.mp hstep
    exact Option.some.inj hnext ▸ .takeMutex (.inl hpoint) hfree
  next call hpoint =>
    cases call with
    | init maxConnNum => exact Option.some.inj hstep ▸ .init hpoint
    | acquire => exact move_of_acquire hpoint hstep
    | release conn =>
      cases conn with
      | none => exact Option.some.inj hstep ▸ .releaseInside hpoint
      | some conn => exact move_of_release hpoint hstep
    | shutdown => exact Option.some.inj hstep ▸ .shutdown hpoint
  next hpoint => exact Option.some.inj hstep ▸ .block hpoint
  next => cases hstep
  next hpoint =>
    obtain ⟨hfree, hnext⟩ := Option.ite_none_right_eq_some.mp hstep
    exact Option.some.inj hnext ▸ .takeMutex (.inr ⟨rfl, .inl hpoint⟩) hfree
  next hpoint =>
    obtain ⟨hfree, hnext⟩ := Option.ite_none_right_eq_some.mp hstep
    exact Option.some.inj hnext ▸ .takeMutex (.inr ⟨rfl, .inr hpoint⟩) hfree
  next hpoint => exact Option.some.inj hstep ▸ .unlock hpoint

/-- Every step of the system is one of the listed transitions. -/
theorem move_of_step [Fintype Client] {state next : State Client Handle}
    {event : Event Client Handle} (hstep : step state event = some next) :
    Move state event next := by
  cases event with
  | call client call =>
    obtain ⟨hpoint, hnext⟩ := Option.ite_none_right_eq_some.mp hstep
    cases call with
    | init maxConnNum => exact Option.some.inj hnext ▸ .start hpoint nofun
    | acquire => exact Option.some.inj hnext ▸ .start hpoint nofun
    | shutdown => exact Option.some.inj hnext ▸ .start hpoint nofun
    | release conn =>
      cases conn with
      | none => exact Option.some.inj hnext ▸ .releaseNull hpoint
      | some conn => exact Option.some.inj hnext ▸ .start hpoint nofun
  | move client attempt chosen => exact move_of_moveStep hstep
  | spurious client =>
    obtain ⟨hpoint, hnext⟩ := Option.ite_none_right_eq_some.mp hstep
    exact Option.some.inj hnext ▸ .spurious hpoint

/-! ### Schedules -/

/-- A call that is not interrupted: start it, take the mutex, run the body, give the mutex back. -/
def callSchedule (client : Client) (call : Call Handle) (attempt : ℕ → Attempt Handle) :
    List (Event Client Handle) :=
  .call client call :: List.replicate 3 (.move client attempt none)

end Steps

end TestLinux.ConnectionPool
