import TestLinux.Kcp.Membership

/-!
# The history of a chat server

A `Timeline` is the server with a history of what has happened when: `taken` lists the messages that
`HandleSession` has taken out, `visits` the visits of `Update`, and `removed` the sessions that it
has removed. `drained`, `visited` and `removals` go through the loops of `drain` and `update` and
list what these do. No step reads the history.

`Steady` says what `HandleSession` leaves alone, and `recvLatestTime_drain` what it does to the time
stamps of the sessions: a keep-alive command sets that of its session, and nothing else does.
-/

set_option autoImplicit false
set_option relaxedAutoImplicit false

namespace TestLinux.Kcp

open TestLinux.Runs TestLinux.Streams

variable {K D : Type}

/-! ### The history -/

/-- A message that was taken out of a session. -/
structure Taken where
  session : ℕ
  time : ℤ
  keepAlive : Bool
  deriving DecidableEq

section History

variable (ikcp : Ikcp K D)

/-- The messages that the loop of `HandleSession` takes out, with the time of each. The empty
message that ends the loop is one of them. -/
def Server.drained (server : Server K) (id : ℕ) (clock : ℕ → ℤ) (count : ℕ) : List Taken :=
  match _hrecv : (server.objects id).recv ikcp 4096 with
  | .error _ => []
  | .ok (message, session) =>
    let next := server.take id session message
    if _hmessage : message = [] then [⟨id, clock count, false⟩]
    else if next.buf.take keepAliveCmd.length = keepAliveCmd then
      ⟨id, clock count, true⟩ :: (next.setKeepAlive id (clock count)).drained id clock (count + 1)
    else
      ⟨id, clock count, false⟩ :: (next.handleMessage ikcp id message).drained id clock (count + 1)
termination_by ikcp.pending (server.objects id).kcp
decreasing_by
  · have hless := pending_of_recv ikcp _hrecv _hmessage
    simpa [Server.setKeepAlive, Server.take, Server.store] using hless
  · have hless := pending_of_recv ikcp _hrecv _hmessage
    rw [Server.handleMessage, pending_announce]
    simpa [Server.take, Server.store] using hless

/-- The messages that `HandleSession` takes out. -/
def Server.handled (server : Server K) (id : ℕ) (datagram : D) (clock : ℕ → ℤ) : List Taken :=
  let result := (server.objects id).input ikcp datagram
  if result.1 ≠ 0 then [] else (server.store id result.2).drained ikcp id clock 0

/-- The messages that are taken out because of a datagram. -/
def Server.received (server : Server K) (datagram : D) (addr : SockAddr) (clock : ℕ → ℤ) :
    List Taken :=
  let server := { server with buf := overwrite server.buf (ikcp.bytes datagram) }
  if (ikcp.bytes datagram).length < 24 then []
  else
    let found := server.getSession ikcp (getConv server.buf) addr
    found.2.handled ikcp found.1 datagram clock

/-- One visit of `Update` to a session. -/
def Server.visit (server : Server K) (conv : UInt32) (id : ℕ) (current : ℤ) : Server K :=
  let result := (server.objects id).update ikcp current
  let next := server.store id result.2
  if result.1 then
    let closed := next.handleClose ikcp id
    { closed with sessions := closed.sessions.erase conv }
  else next

/-- The sessions that `Update` visits, with the times. -/
def Server.visited (server : Server K) : List (UInt32 × ℤ) → List (ℕ × ℤ)
  | [] => []
  | (conv, current) :: rest =>
    match server.sessions.lookup conv with
    | none => server.visited rest
    | some id => (id, current) :: (server.visit ikcp conv id current).visited rest

/-- The sessions that `Update` removes, with the times. -/
def Server.removals (server : Server K) : List (UInt32 × ℤ) → List (ℕ × ℤ)
  | [] => []
  | (conv, current) :: rest =>
    match server.sessions.lookup conv with
    | none => server.removals rest
    | some id =>
      if ((server.objects id).update ikcp current).1 then
        (id, current) :: (server.visit ikcp conv id current).removals rest
      else (server.visit ikcp conv id current).removals rest

/-- The server and its history. `now` is the last reading of the clock. -/
structure Timeline (K : Type) where
  server : Server K
  now : ℤ
  created : ℕ → ℤ
  taken : List Taken
  visits : List (ℕ × ℤ)
  removed : List (ℕ × ℤ)

/-- The constructor. The clock is positive. -/
def Timeline.start (opt : KcpOpt) : Timeline K where
  server := .start ikcp opt
  now := 1
  created := fun _ ↦ 1
  taken := []
  visits := []
  removed := []

/-- An event, with the readings of the clock at its beginning and at its end. -/
structure Timed (D : Type) where
  begin : ℤ
  finish : ℤ
  event : Event D

/-- One step. A session is created at the beginning of the step. -/
def timelineStep (timeline : Timeline K) (timed : Timed D) : Option (Timeline K) :=
  (step ikcp timeline.server timed.event).map fun next ↦
    match timed.event with
    | .datagram datagram addr clock =>
      { timeline with
        server := next
        now := timed.finish
        created := if timeline.server.nextId < next.nextId then
          Function.update timeline.created timeline.server.nextId timed.begin else timeline.created
        taken := timeline.taken ++ timeline.server.received ikcp datagram addr clock }
    | .tick order =>
      { timeline with
        server := next
        now := timed.finish
        visits := timeline.visits ++ timeline.server.visited ikcp order
        removed := timeline.removed ++ timeline.server.removals ikcp order }

/-- The clock does not go backwards. -/
def Ordered (timeline : Timeline K) (timed : Timed D) : Prop :=
  timeline.now ≤ timed.begin ∧ timed.begin ≤ timed.finish ∧
    match timed.event with
    | .datagram datagram addr clock =>
      (timeline.server.received ikcp datagram addr clock).Pairwise (fun first second ↦
          first.time ≤ second.time) ∧
        ∀ taken ∈ timeline.server.received ikcp datagram addr clock,
          timed.begin ≤ taken.time ∧ taken.time ≤ timed.finish
    | .tick order => order.Pairwise (fun first second ↦ first.2 ≤ second.2) ∧
        ∀ visit ∈ order, timed.begin ≤ visit.2 ∧ visit.2 ≤ timed.finish

instance decidableOrdered (timeline : Timeline K) (timed : Timed D) :
    Decidable (Ordered ikcp timeline timed) :=
  match hevent : timed.event with
  | .datagram datagram addr clock => decidable_of_iff (timeline.now ≤ timed.begin ∧
      timed.begin ≤ timed.finish ∧
      (timeline.server.received ikcp datagram addr clock).Pairwise (fun first second ↦
          first.time ≤ second.time) ∧
        ∀ taken ∈ timeline.server.received ikcp datagram addr clock,
          timed.begin ≤ taken.time ∧ taken.time ≤ timed.finish) (by simp [Ordered, hevent])
  | .tick order => decidable_of_iff (timeline.now ≤ timed.begin ∧ timed.begin ≤ timed.finish ∧
      order.Pairwise (fun first second ↦ first.2 ≤ second.2) ∧
        ∀ visit ∈ order, timed.begin ≤ visit.2 ∧ visit.2 ≤ timed.finish)
      (by simp [Ordered, hevent])

end History

/-! ### Time stamps of sessions -/

section Stamps

variable {ikcp : Ikcp K D}

/-- What a message does to the time stamp of its session. -/
def Taken.stamp (recvLatestTime : ℤ) (taken : Taken) : ℤ :=
  if taken.keepAlive then taken.time else recvLatestTime

theorem recvLatestTime_announce (server : Server K) (notice : Notice) (id other : ℕ) :
    ((server.announce ikcp notice id).objects other).recvLatestTime =
      (server.objects other).recvLatestTime := by
  show (if other ∈ server.users then _ else server.objects other : Session K).recvLatestTime = _
  split_ifs <;> rfl

theorem recvLatestTime_of_recv {session next : Session K} {size : ℕ} {message : List UInt8}
    (hrecv : session.recv ikcp size = .ok (message, next)) :
    next.recvLatestTime = session.recvLatestTime := by
  unfold Session.recv at hrecv
  split at hrecv
  · cases hrecv
  · obtain ⟨-, rfl⟩ := Prod.mk.inj (Except.ok.inj hrecv)
    rfl

theorem recvLatestTime_store {server : Server K} {id : ℕ} {session : Session K}
    (hsame : session.recvLatestTime = (server.objects id).recvLatestTime) (other : ℕ) :
    ((server.store id session).objects other).recvLatestTime =
      (server.objects other).recvLatestTime := by
  rw [objects_store]
  split_ifs with hother
  · rw [hother, hsame]
  · rfl

theorem drained_error {server : Server K} {id : ℕ} {code : ℤ}
    (hrecv : (server.objects id).recv ikcp 4096 = .error code) (clock : ℕ → ℤ) (count : ℕ) :
    server.drained ikcp id clock count = [] := by
  rw [Server.drained]
  split
  · rfl
  · rename_i hok
    cases hrecv.symm.trans hok

theorem drained_empty {server : Server K} {id : ℕ} {session : Session K}
    (hrecv : (server.objects id).recv ikcp 4096 = .ok ([], session)) (clock : ℕ → ℤ)
    (count : ℕ) : server.drained ikcp id clock count = [⟨id, clock count, false⟩] := by
  rw [Server.drained]
  split
  · rename_i hcode
    cases hrecv.symm.trans hcode
  · rename_i message session' hok
    obtain ⟨rfl, rfl⟩ := Prod.mk.inj (Except.ok.inj (hrecv.symm.trans hok))
    rfl

theorem drained_message {server : Server K} {id : ℕ} {message : List UInt8} {session : Session K}
    (hrecv : (server.objects id).recv ikcp 4096 = .ok (message, session))
    (hmessage : message ≠ []) (clock : ℕ → ℤ) (count : ℕ) :
    server.drained ikcp id clock count =
      if (server.take id session message).buf.take keepAliveCmd.length = keepAliveCmd then
        ⟨id, clock count, true⟩ ::
          ((server.take id session message).setKeepAlive id (clock count)).drained ikcp id clock
            (count + 1)
      else ⟨id, clock count, false⟩ ::
        ((server.take id session message).handleMessage ikcp id message).drained ikcp id clock
          (count + 1) := by
  rw [Server.drained]
  split
  · rename_i hcode
    cases hrecv.symm.trans hcode
  · rename_i message' session' hok
    obtain ⟨rfl, rfl⟩ := Prod.mk.inj (Except.ok.inj (hrecv.symm.trans hok))
    rw [dif_neg hmessage]

variable (ikcp) in
/-- The loop leaves the time stamps of the other sessions alone and refreshes that of its own for
each keep-alive command. -/
theorem recvLatestTime_drain (server : Server K) (id : ℕ) (clock : ℕ → ℤ) (count other : ℕ) :
    ((server.drain ikcp id clock count).objects other).recvLatestTime =
      if other = id then (server.drained ikcp id clock count).foldl Taken.stamp
        (server.objects id).recvLatestTime
      else (server.objects other).recvLatestTime := by
  fun_induction Server.drain ikcp server id clock count with
  | case1 server count hrecv =>
    rw [drained_error hrecv]
    split_ifs with hother <;> simp [hother]
  | case2 server count code hrecv hcode =>
    rw [drained_error hrecv]
    split_ifs with hother <;> simp [hother]
  | case3 server count session hrecv =>
    rw [drained_empty hrecv, List.foldl_cons, List.foldl_nil]
    have hsame := recvLatestTime_store (recvLatestTime_of_recv hrecv) other
    split_ifs with hother
    · rw [← hother]
      exact hsame
    · exact hsame
  | case4 server count message session hrecv next hmessage hcmd ih =>
    rw [ih, drained_message hrecv hmessage, if_pos hcmd, List.foldl_cons]
    split_ifs with hother
    · simp [Server.setKeepAlive, objects_store, Taken.stamp]
      rfl
    · rw [Server.setKeepAlive, objects_store, if_neg hother]
      exact recvLatestTime_store (recvLatestTime_of_recv hrecv) other
  | case5 server count message session hrecv next hmessage hcmd ih =>
    have hsame (any : ℕ) : ((next.handleMessage ikcp id message).objects any).recvLatestTime =
        (server.objects any).recvLatestTime :=
      (recvLatestTime_announce next _ id any).trans
        (recvLatestTime_store (recvLatestTime_of_recv hrecv) any)
    rw [ih, drained_message hrecv hmessage, if_neg hcmd, List.foldl_cons, hsame, hsame]
    rfl

/-- The messages of one loop are all of its session. -/
theorem session_of_mem_drained {server : Server K} {id : ℕ} {clock : ℕ → ℤ} {count : ℕ}
    {taken : Taken} (htaken : taken ∈ server.drained ikcp id clock count) :
    taken.session = id := by
  fun_induction Server.drained ikcp server id clock count with
  | case1 => exact absurd htaken List.not_mem_nil
  | case2 =>
    rw [List.mem_singleton.mp htaken]
  | case3 server count message session hrecv next hmessage hcmd ih
  | case4 server count message session hrecv next hmessage hcmd ih =>
    rcases List.mem_cons.mp htaken with rfl | hrest
    · rfl
    · exact ih hrest

/-- What `HandleSession` leaves alone. -/
structure Steady (server next : Server K) : Prop where
  sessions : next.sessions = server.sessions
  nextId : next.nextId = server.nextId
  opt : next.opt = server.opt
  objects : ∀ id, (next.objects id).opt = (server.objects id).opt

theorem Steady.refl (server : Server K) : Steady server server := ⟨rfl, rfl, rfl, fun _ ↦ rfl⟩

theorem Steady.trans {server middle next : Server K} (hfirst : Steady server middle)
    (hsecond : Steady middle next) : Steady server next where
  sessions := hsecond.sessions.trans hfirst.sessions
  nextId := hsecond.nextId.trans hfirst.nextId
  opt := hsecond.opt.trans hfirst.opt
  objects := fun id ↦ (hsecond.objects id).trans (hfirst.objects id)

theorem steady_store {server : Server K} {id : ℕ} {session : Session K}
    (hopt : session.opt = (server.objects id).opt) : Steady server (server.store id session) :=
  ⟨rfl, rfl, rfl, opt_store hopt⟩

theorem steady_take {server : Server K} {id size : ℕ} {session : Session K}
    {message : List UInt8} (hrecv : (server.objects id).recv ikcp size = .ok (message, session)) :
    Steady server (server.take id session message) :=
  ⟨rfl, rfl, rfl, opt_store (opt_of_recv ikcp _ hrecv).1⟩

theorem steady_announce (server : Server K) (notice : Notice) (id : ℕ) :
    Steady server (server.announce ikcp notice id) :=
  ⟨rfl, rfl, rfl, opt_announce server notice id⟩

theorem steady_drain (server : Server K) (id : ℕ) (clock : ℕ → ℤ) (count : ℕ) :
    Steady server (server.drain ikcp id clock count) := by
  fun_induction Server.drain ikcp server id clock count with
  | case1 server count hrecv => exact ⟨rfl, rfl, rfl, fun _ ↦ rfl⟩
  | case2 server count code hrecv hcode => exact .refl server
  | case3 server count session hrecv => exact steady_take hrecv
  | case4 server count message session hrecv next hmessage hcmd ih =>
    have hset : Steady next (next.setKeepAlive id (clock count)) := steady_store rfl
    exact ((steady_take hrecv).trans hset).trans ih
  | case5 server count message session hrecv next hmessage hcmd ih =>
    exact ((steady_take hrecv).trans (steady_announce _ _ _)).trans ih

end Stamps

end TestLinux.Kcp
