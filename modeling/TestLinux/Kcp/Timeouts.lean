import TestLinux.Kcp.Stamps

/-!
# Who is timed out

`Update` removes a session when `recv_latest_time` is more than `keep_alive_timeout` ms ago. The
comment at the option speaks of any information from the client, but only the keep-alive command
calls `SetKeepAlive`: a chat text that is taken out leaves the time stamp alone. The time stamp of a
session that has sent no keep-alive command is the time of the first visit of `Update`, so that a
client that sends nothing but chat texts is removed 5 seconds later, in the middle of the
conversation (`talking_client_removed`).

`removals_silent_iff` says of one call of `Update`, and `removed_silent_iff` of all runs, exactly
when only silent clients are removed.
-/

set_option autoImplicit false
set_option relaxedAutoImplicit false

namespace TestLinux.Kcp

open TestLinux.Runs

variable {K D : Type}

/-! ### Silent clients -/

/-- At the time of its removal the session had existed for longer than the timeout, and no message
was taken out of it during the timeout. -/
def Timeline.Silent (timeline : Timeline K) (removal : ℕ × ℤ) : Prop :=
  timeline.server.opt.keepAliveTimeout < removal.2 - timeline.created removal.1 ∧
    ∀ message ∈ timeline.taken, message.session = removal.1 →
      timeline.server.opt.keepAliveTimeout < removal.2 - message.time

instance decidableSilent (timeline : Timeline K) (removal : ℕ × ℤ) :
    Decidable (timeline.Silent removal) :=
  inferInstanceAs (Decidable (_ ∧ _))

/-- `Update` visits only clients that were heard. -/
def Kept (timeline : Timeline K) (timed : Timed D) : Prop :=
  match timed.event with
  | .datagram _ _ _ => True
  | .tick order => ∀ visit ∈ order, ∀ id ∈ timeline.server.sessions.lookup visit.1,
      Heard timeline.server.opt.keepAliveTimeout timeline.taken timeline.visits id visit.2

instance decidableKept (timeline : Timeline K) (timed : Timed D) :
    Decidable (Kept timeline timed) :=
  match hevent : timed.event with
  | .datagram _ _ _ => isTrue (by simp [Kept, hevent])
  | .tick order => decidable_of_iff (∀ visit ∈ order,
      ∀ id ∈ timeline.server.sessions.lookup visit.1, Heard timeline.server.opt.keepAliveTimeout
        timeline.taken timeline.visits id visit.2) (by simp [Kept, hevent])

section Silent

variable {ikcp : Ikcp K D} {timeline : Timeline K}

variable (ikcp) in
/-- A visit removes a silent client or none, exactly if the client was heard. -/
theorem Dated.silent_iff_heard (hdated : Dated timeline) {conv : UInt32} {id : ℕ}
    (hid : timeline.server.sessions.lookup conv = some id) {current : ℤ}
    (hcurrent : timeline.now ≤ current) :
    (((timeline.server.objects id).update ikcp current).1 = true → timeline.Silent (id, current)) ↔
      Heard timeline.server.opt.keepAliveTimeout timeline.taken timeline.visits id current := by
  have hstamped := hdated.stamped conv id hid
  have hcreated := (hdated.created id).2.trans hcurrent
  have hbefore : ∀ message ∈ timeline.taken, message.session = id → message.time ≤ current :=
    fun message hmessage _ ↦ (hdated.taken message hmessage).2.trans hcurrent
  rw [update_expired_iff ikcp (hdated.serving id).1, (hdated.serving id).2,
    hstamped.heard_iff hbefore]
  refine imp_congr_right fun hexpired ↦ and_iff_right ?_
  show timeline.server.opt.keepAliveTimeout < current - timeline.created id
  split_ifs at hexpired with hzero
  · omega
  · have hset := hstamped.created hzero
    omega

/-- A visit to another session does not matter. -/
theorem heard_append {timeout : ℤ} {taken : List Taken} {visits : List (ℕ × ℤ)} {id other : ℕ}
    {visited current : ℤ} (hother : other ≠ id) :
    Heard timeout taken (visits ++ [(id, visited)]) other current ↔
      Heard timeout taken visits other current := by
  have hvisits : (∀ visit ∈ visits ++ [(id, visited)], visit.1 = other →
      current - visit.2 ≤ timeout) ↔
      ∀ visit ∈ visits, visit.1 = other → current - visit.2 ≤ timeout := by
    constructor
    · exact fun hall visit hvisit ↦ hall visit (List.mem_append_left _ hvisit)
    · intro hall visit hvisit hid
      rcases List.mem_append.mp hvisit with hold | hnew
      · exact hall visit hold hid
      · rw [List.mem_singleton.mp hnew] at hid
        exact absurd hid.symm hother
  unfold Heard
  rw [hvisits]

theorem silent_congr {next : Timeline K} {removal : ℕ × ℤ}
    (hopt : next.server.opt = timeline.server.opt)
    (hcreated : next.created removal.1 = timeline.created removal.1)
    (htaken : ∀ message : Taken, message.session = removal.1 →
      (message ∈ next.taken ↔ message ∈ timeline.taken)) :
    next.Silent removal ↔ timeline.Silent removal := by
  unfold Timeline.Silent
  rw [hopt, hcreated]
  refine and_congr_right fun _ ↦ forall_congr' fun message ↦ ?_
  constructor
  · exact fun hall hmessage hid ↦ hall ((htaken message hid).mpr hmessage) hid
  · exact fun hall hmessage hid ↦ hall ((htaken message hid).mp hmessage) hid

theorem silent_visit {next : Server K} {conv : UInt32} {id : ℕ} {current : ℤ} {expired : Bool}
    (hvisited : Visited timeline.server next conv id current expired) (removal : ℕ × ℤ) :
    (timeline.visit next id current expired).Silent removal ↔ timeline.Silent removal :=
  silent_congr hvisited.opt rfl fun _ _ ↦ Iff.rfl

/-- What is left of the loop visits other sessions. -/
theorem heard_visit {next : Server K} (hroom : Room timeline.server) {conv key : UInt32} {id : ℕ}
    {current later : ℤ} {expired : Bool}
    (hvisited : Visited timeline.server next conv id current expired)
    (hid : timeline.server.sessions.lookup conv = some id) (hkey : key ≠ conv) :
    (∀ other ∈ next.sessions.lookup key, Heard next.opt.keepAliveTimeout timeline.taken
        (timeline.visits ++ [(id, current)]) other later) ↔
      ∀ other ∈ timeline.server.sessions.lookup key,
        Heard timeline.server.opt.keepAliveTimeout timeline.taken timeline.visits other later := by
  rw [hvisited.lookup_of_ne hkey, hvisited.opt]
  refine forall₂_congr fun other hother ↦ heard_append ?_
  rintro rfl
  exact hkey ((hroom.own key other hother).symm.trans (hroom.own conv other hid))

theorem room_visit {server : Server K} (hroom : Room server) {conv : UInt32} {id : ℕ}
    (hid : server.sessions.lookup conv = some id) (current : ℤ) :
    Room (server.visit ikcp conv id current) := by
  unfold Server.visit
  dsimp only
  split_ifs with hexpired
  · exact room_close (hroom.store (opt_update ikcp _ _)) hid
  · exact hroom.store (opt_update ikcp _ _)

variable (ikcp) in
/-- The loop of `Update` and what it does, at a session that is there. -/
theorem update_visit {server : Server K} {conv : UInt32} {id : ℕ}
    (hid : server.sessions.lookup conv = some id) (current : ℤ) (rest : List (UInt32 × ℤ)) :
    server.update ikcp ((conv, current) :: rest) =
        (server.visit ikcp conv id current).update ikcp rest ∧
      server.visited ikcp ((conv, current) :: rest) =
        (id, current) :: (server.visit ikcp conv id current).visited ikcp rest ∧
      server.removals ikcp ((conv, current) :: rest) =
        (if ((server.objects id).update ikcp current).1 then [(id, current)] else []) ++
          (server.visit ikcp conv id current).removals ikcp rest := by
  rw [Server.update, Server.visited, Server.removals, hid]
  refine ⟨?_, rfl, ?_⟩
  · unfold Server.visit
    dsimp only
    split_ifs <;> rfl
  · dsimp only
    split_ifs <;> rfl

variable (ikcp) in
theorem update_skip {server : Server K} {conv : UInt32}
    (hconv : server.sessions.lookup conv = none) (current : ℤ) (rest : List (UInt32 × ℤ)) :
    server.update ikcp ((conv, current) :: rest) = server.update ikcp rest ∧
      server.visited ikcp ((conv, current) :: rest) = server.visited ikcp rest ∧
      server.removals ikcp ((conv, current) :: rest) = server.removals ikcp rest := by
  rw [Server.update, Server.visited, Server.removals, hconv]
  exact ⟨rfl, rfl, rfl⟩

/-- `Update` is called. -/
theorem Dated.update (hdated : Dated timeline) (hroom : Room timeline.server)
    {order : List (UInt32 × ℤ)} {finish : ℤ} (hfinish : timeline.now ≤ finish)
    (hsorted : order.Pairwise fun first second ↦ first.2 ≤ second.2)
    (htimes : ∀ visit ∈ order, timeline.now ≤ visit.2 ∧ visit.2 ≤ finish) :
    Dated { timeline with
      server := timeline.server.update ikcp order
      now := finish
      visits := timeline.visits ++ timeline.server.visited ikcp order
      removed := timeline.removed ++ timeline.server.removals ikcp order } := by
  induction order generalizing timeline with
  | nil =>
    rw [Server.update, Server.visited, Server.removals, List.append_nil, List.append_nil]
    exact hdated.later hfinish
  | cons visit rest ih =>
    obtain ⟨conv, current⟩ := visit
    obtain ⟨hfirst, hrest⟩ := List.pairwise_cons.mp hsorted
    obtain ⟨hcurrent, hlast⟩ := htimes _ List.mem_cons_self
    cases hlookup : timeline.server.sessions.lookup conv with
    | none =>
      obtain ⟨hupdate, hvisited, hremovals⟩ := update_skip ikcp hlookup current rest
      rw [hupdate, hvisited, hremovals]
      exact ih hdated hroom hfinish hrest fun visit hvisit ↦
        htimes visit (List.mem_cons_of_mem _ hvisit)
    | some id =>
      obtain ⟨hupdate, hvisited, hremovals⟩ := update_visit ikcp hlookup current rest
      rw [hupdate, hvisited, hremovals, ← List.append_assoc, List.append_cons]
      have hone := hdated.visit hroom hlookup
        (visited_visit ikcp timeline.server conv id current) hcurrent
      exact ih hone (room_visit hroom hlookup current) hlast hrest fun visit hvisit ↦
        ⟨hfirst visit hvisit, (htimes visit (List.mem_cons_of_mem _ hvisit)).2⟩

variable (ikcp) in
/-- The sessions that `Update` removes are silent exactly if it visits only clients that were heard.
-/
theorem Dated.removals_silent_iff (hdated : Dated timeline) (hroom : Room timeline.server)
    {order : List (UInt32 × ℤ)} (hkeys : (order.map Prod.fst).Nodup)
    (hsorted : order.Pairwise fun first second ↦ first.2 ≤ second.2)
    (htimes : ∀ visit ∈ order, timeline.now ≤ visit.2) :
    (∀ removal ∈ timeline.server.removals ikcp order, timeline.Silent removal) ↔
      ∀ visit ∈ order, ∀ id ∈ timeline.server.sessions.lookup visit.1,
        Heard timeline.server.opt.keepAliveTimeout timeline.taken timeline.visits id visit.2 := by
  induction order generalizing timeline with
  | nil => simp [Server.removals]
  | cons visit rest ih =>
    obtain ⟨conv, current⟩ := visit
    obtain ⟨hfirst, hrest⟩ := List.pairwise_cons.mp hsorted
    obtain ⟨hconv, hkeys'⟩ := List.nodup_cons.mp hkeys
    have hcurrent := htimes _ List.mem_cons_self
    rw [List.forall_mem_cons]
    cases hlookup : timeline.server.sessions.lookup conv with
    | none =>
      rw [(update_skip ikcp hlookup current rest).2.2, ih hdated hroom hkeys' hrest
        fun visit hvisit ↦ htimes visit (List.mem_cons_of_mem _ hvisit)]
      exact (and_iff_right fun id hid ↦ absurd hid (by simp)).symm
    | some id =>
      have hvisited := visited_visit ikcp timeline.server conv id current
      have hone := hdated.visit hroom hlookup hvisited hcurrent
      have htail := ih hone (room_visit hroom hlookup current) hkeys' hrest hfirst
      rw [(update_visit ikcp hlookup current rest).2.2, List.forall_mem_append]
      refine and_congr ?_ ?_
      · have hheard := hdated.silent_iff_heard ikcp hlookup hcurrent
        constructor
        · rintro hremoved _ ⟨⟩
          refine hheard.mp fun hexpired ↦ hremoved _ ?_
          rw [if_pos hexpired]
          exact List.mem_singleton_self _
        · intro hall removal hremoval
          split_ifs at hremoval with hexpired
          · rw [List.mem_singleton.mp hremoval]
            exact hheard.mpr (hall id rfl) hexpired
          · exact absurd hremoval List.not_mem_nil
      · rw [← forall₂_congr fun removal _ ↦ silent_visit hvisited removal]
        refine htail.trans (forall₂_congr fun visit hvisit ↦ heard_visit hroom hvisited hlookup ?_)
        exact fun hkey ↦ hconv (List.mem_map.mpr ⟨visit, hvisit, hkey⟩)

/-- A message is taken out of a session that is there. -/
theorem session_of_mem_received {server : Server K} {datagram : D} {addr : SockAddr}
    {clock : ℕ → ℤ} {message : Taken}
    (hmessage : message ∈ server.received ikcp datagram addr clock) :
    ∃ conv, (server.receive ikcp datagram addr clock).sessions.lookup conv =
      some message.session := by
  unfold Server.received at hmessage
  unfold Server.receive
  dsimp only at hmessage ⊢
  split_ifs at hmessage with hshort
  · exact absurd hmessage List.not_mem_nil
  · rw [getConv_overwrite (Nat.not_lt.mp hshort)] at hmessage
    rw [if_neg hshort, getConv_overwrite (Nat.not_lt.mp hshort),
      (steady_handleSession _ _ datagram clock).sessions]
    refine ⟨getConv (ikcp.bytes datagram), ?_⟩
    rw [(moves_getSession ikcp _ datagram addr clock).2]
    unfold Server.handled at hmessage
    dsimp only at hmessage
    split_ifs at hmessage
    · exact absurd hmessage List.not_mem_nil
    · rw [session_of_mem_drained hmessage]

theorem opt_of_moves {server next : Server K} {event : Event D}
    (hmoves : Moves ikcp event server next) : next.opt = server.opt := by
  have hparts : ∀ before after, before.opt = server.opt → Move ikcp before event after →
      after.opt = server.opt := by
    intro before after hbefore hmove
    cases hmove <;> exact hbefore
  exact hmoves.invariant hparts rfl

/-! ### Runs -/

/-- One step keeps the invariant. It removes only silent clients exactly if it visits only clients
that were heard. -/
theorem dated_step (hdated : Dated timeline) (hroom : Room timeline.server) {timed : Timed D}
    {next : Timeline K} (hordered : Ordered ikcp timeline timed)
    (hstep : timelineStep ikcp timeline timed = some next) :
    Dated next ∧ Room next.server ∧ ((∀ removal ∈ next.removed, next.Silent removal) ↔
      (∀ removal ∈ timeline.removed, timeline.Silent removal) ∧ Kept timeline timed) := by
  obtain ⟨server, hserver, rfl⟩ := Option.map_eq_some_iff.mp hstep
  have hmoves := moves_of_step ikcp hserver
  have hnextRoom := hmoves.invariant (fun _ _ hbefore hmove ↦ room_move hbefore hmove) hroom
  have hopt := opt_of_moves hmoves
  obtain ⟨begin, finish, event⟩ := timed
  unfold step at hserver
  obtain ⟨-, hserver⟩ := Option.ite_none_left_eq_some.mp hserver
  cases event with
  | datagram datagram addr clock =>
    obtain ⟨-, hnext⟩ := Option.ite_none_right_eq_some.mp hserver
    obtain rfl := Option.some.inj hnext
    have hnextDated := hdated.receive hroom hordered
    refine ⟨hnextDated, hnextRoom, ?_⟩
    refine Iff.trans (forall₂_congr fun removal hremoval ↦ ?_) (and_iff_left trivial).symm
    obtain ⟨hbelow, -⟩ := hdated.removed removal hremoval
    refine silent_congr hopt ?_ fun message hid ↦ ?_
    · dsimp only
      split_ifs
      · exact Function.update_of_ne hbelow.ne _ _
      · rfl
    · refine List.mem_append.trans (or_iff_left fun hmessage ↦ ?_)
      obtain ⟨conv, hconv⟩ := session_of_mem_received hmessage
      exact (hnextDated.removed removal hremoval).2 conv (hid ▸ hconv)
  | tick order =>
    obtain ⟨hperm, hnext⟩ := Option.ite_none_right_eq_some.mp hserver
    obtain rfl := Option.some.inj hnext
    obtain ⟨hbegin, hfinish, hsorted, htimes⟩ := hordered
    have hkeys : (order.map Prod.fst).Nodup :=
      hperm.nodup_iff.mpr timeline.server.sessions.nodupKeys
    have hafter : ∀ visit ∈ order, timeline.now ≤ visit.2 ∧ visit.2 ≤ finish :=
      fun visit hvisit ↦ ⟨hbegin.trans (htimes visit hvisit).1, (htimes visit hvisit).2⟩
    refine ⟨hdated.update hroom (hbegin.trans hfinish) hsorted hafter, hnextRoom, ?_⟩
    have hsilent := hdated.removals_silent_iff ikcp hroom hkeys hsorted
      fun visit hvisit ↦ (hafter visit hvisit).1
    refine Iff.trans (forall₂_congr fun removal _ ↦ silent_congr hopt rfl fun _ _ ↦ Iff.rfl) ?_
    exact List.forall_mem_append.trans (and_congr_right' hsilent)

theorem dated_run {timed : List (Timed D)} {final : Timeline K} (hdated : Dated timeline)
    (hroom : Room timeline.server)
    (halong : Along (timelineStep ikcp) (Ordered ikcp) timeline timed)
    (hrun : run (timelineStep ikcp) timeline timed = some final) :
    (∀ removal ∈ final.removed, final.Silent removal) ↔
      (∀ removal ∈ timeline.removed, timeline.Silent removal) ∧
        Along (timelineStep ikcp) Kept timeline timed := by
  induction timed generalizing timeline with
  | nil =>
    rw [run_nil, Option.some.injEq] at hrun
    subst hrun
    exact (and_iff_left trivial).symm
  | cons event rest ih =>
    obtain ⟨next, hstep, hrest⟩ := run_cons_eq_some.mp hrun
    obtain ⟨hordered, htail⟩ := along_cons hstep halong
    obtain ⟨hnextDated, hnextRoom, hsilent⟩ := dated_step hdated hroom hordered hstep
    rw [ih hnextDated hnextRoom htail hrest, hsilent, along_cons_iff hstep, and_assoc]

/-- In every run with a clock that does not go backwards: `Update` has removed only sessions that
were silent for the timeout, exactly if for each of its visits to a session from which a message was
taken out during the timeout, a keep-alive command was taken out during the timeout, or there was
never one and all earlier visits were during the timeout. -/
theorem removed_silent_iff {opt : KcpOpt} (hopt : opt.isServer = true) {timed : List (Timed D)}
    {final : Timeline K}
    (halong : Along (timelineStep ikcp) (Ordered ikcp) (Timeline.start ikcp opt) timed)
    (hrun : run (timelineStep ikcp) (Timeline.start ikcp opt) timed = some final) :
    (∀ removal ∈ final.removed, final.Silent removal) ↔
      Along (timelineStep ikcp) Kept (Timeline.start ikcp opt) timed := by
  rw [dated_run (dated_start hopt) (room_start opt) halong hrun]
  exact and_iff_right fun removal hremoval ↦ absurd hremoval List.not_mem_nil

end Silent

/-- The first client says `hi`. -/
def sayHi (time : ℤ) : Timed Datagram :=
  ⟨time, time, .datagram ⟨segment 1 81 [104, 105], [[104, 105]]⟩ ⟨10, 0, 0, 1, 7001⟩ fun _ ↦ time⟩

/-- The first client sends a keep-alive command. -/
def sayAlive (time : ℤ) : Timed Datagram :=
  ⟨time, time, .datagram ⟨segment 1 81 keepAliveCmd, [keepAliveCmd]⟩ ⟨10, 0, 0, 1, 7001⟩
    fun _ ↦ time⟩

/-- The client is alive at first and is silent afterwards. -/
def fallSilent : List (Timed Datagram) :=
  [sayHi 10, ⟨20, 20, .tick [(1, 20)]⟩, sayAlive 3000, sayHi 6000, ⟨7000, 7000, .tick [(1, 7000)]⟩,
    ⟨11001, 11001, .tick [(1, 11001)]⟩]

theorem removed_silent_iff_fallSilent :
    ∃ final : Timeline Endpoint,
      run (timelineStep queueIkcp) (Timeline.start queueIkcp chatOpt) fallSilent = some final ∧
        final.removed = [(0, 11001)] ∧ ∀ removal ∈ final.removed, final.Silent removal := by
  have hview : (run (timelineStep queueIkcp) (Timeline.start queueIkcp chatOpt) fallSilent).map
      Timeline.removed = some [(0, 11001)] := by decide +kernel
  obtain ⟨final, hrun, hremoved⟩ := exists_of_view hview
  refine ⟨final, hrun, hremoved, (removed_silent_iff rfl (by decide +kernel) hrun).mpr ?_⟩
  decide +kernel

/-- The failure: a client that says `hi` every few seconds is removed 21 ms after its last text. -/
theorem talking_client_removed :
    Along (timelineStep queueIkcp) (Ordered queueIkcp) (Timeline.start queueIkcp chatOpt)
        [sayHi 10, ⟨20, 20, .tick [(1, 20)]⟩, sayHi 2500, sayHi 5000,
          ⟨5021, 5021, .tick [(1, 5021)]⟩] ∧
      ∃ final : Timeline Endpoint,
        run (timelineStep queueIkcp) (Timeline.start queueIkcp chatOpt)
            [sayHi 10, ⟨20, 20, .tick [(1, 20)]⟩, sayHi 2500, sayHi 5000,
              ⟨5021, 5021, .tick [(1, 5021)]⟩] = some final ∧
          final.removed = [(0, 5021)] ∧ ⟨0, 5000, false⟩ ∈ final.taken ∧
          ¬ ∀ removal ∈ final.removed, final.Silent removal := by
  refine ⟨by decide +kernel, ?_⟩
  have hview : (run (timelineStep queueIkcp) (Timeline.start queueIkcp chatOpt)
      [sayHi 10, ⟨20, 20, .tick [(1, 20)]⟩, sayHi 2500, sayHi 5000,
        ⟨5021, 5021, .tick [(1, 5021)]⟩]).map (fun final ↦ decide (final.removed = [(0, 5021)] ∧
          ⟨0, 5000, false⟩ ∈ final.taken ∧ ¬ ∀ removal ∈ final.removed, final.Silent removal)) =
        some true := by decide +kernel
  obtain ⟨final, hrun, hseen⟩ := exists_of_view hview
  exact ⟨final, hrun, of_decide_eq_true hseen⟩

end TestLinux.Kcp
