import TestLinux.Kcp.Timeline

/-!
# What a time stamp says

`recv_latest_time` of a session is the time of its last keep-alive command, or of the first visit of
`Update` if there was no keep-alive command before it. `Stamped` states this in terms of the
history, and `Dated` states it of all sessions, between two steps. `Dated.receive` and `Dated.visit`
are the two ways in which time stamps change: a datagram is handled, and `Update` visits a session.
-/

set_option autoImplicit false
set_option relaxedAutoImplicit false

namespace TestLinux.Kcp

open TestLinux.Streams

variable {K D : Type}

/-! ### What the time stamp of a session says -/

/-- The time stamp of a session, from what was taken out of it and when it was visited: zero, if
there was neither a keep-alive command nor a visit; the time of the last keep-alive command, if
there was one; else the time of the first visit. -/
structure Stamped (created : ℤ) (taken : List Taken) (visits : List (ℕ × ℤ)) (id : ℕ)
    (stamp : ℤ) : Prop where
  unset : stamp = 0 → (∀ message ∈ taken, message.session = id → message.keepAlive = false) ∧
    ∀ visit ∈ visits, visit.1 ≠ id
  created : stamp ≠ 0 → created ≤ stamp
  keepAlive : ∀ message ∈ taken, message.session = id → message.keepAlive = true →
    message.time ≤ stamp
  origin : stamp ≠ 0 →
    (∃ message ∈ taken, message.session = id ∧ message.keepAlive = true ∧ message.time = stamp) ∨
      (∀ message ∈ taken, message.session = id → message.keepAlive = false) ∧
        (id, stamp) ∈ visits ∧ ∀ visit ∈ visits, visit.1 = id → stamp ≤ visit.2

section Stamped

variable {created : ℤ} {taken : List Taken} {visits : List (ℕ × ℤ)} {id : ℕ} {stamp : ℤ}

theorem stamped_new (hnothing : ∀ message ∈ taken, message.session ≠ id)
    (hunvisited : ∀ visit ∈ visits, visit.1 ≠ id) : Stamped created taken visits id 0 where
  unset := fun _ ↦ ⟨fun message hmessage hid ↦ absurd hid (hnothing message hmessage), hunvisited⟩
  created := fun hstamp ↦ absurd rfl hstamp
  keepAlive := fun message hmessage hid ↦ absurd hid (hnothing message hmessage)
  origin := fun hstamp ↦ absurd rfl hstamp

/-- A message of another session, or a visit to another session. -/
theorem Stamped.congr {taken' : List Taken} {visits' : List (ℕ × ℤ)}
    (hstamped : Stamped created taken visits id stamp)
    (htaken : ∀ message, message.session = id → (message ∈ taken' ↔ message ∈ taken))
    (hvisits : ∀ visit : ℕ × ℤ, visit.1 = id → (visit ∈ visits' ↔ visit ∈ visits)) :
    Stamped created taken' visits' id stamp where
  unset := by
    intro hstamp
    obtain ⟨hnothing, hunvisited⟩ := hstamped.unset hstamp
    exact ⟨fun message hmessage hid ↦ hnothing message ((htaken message hid).mp hmessage) hid,
      fun visit hvisit hid ↦ hunvisited visit ((hvisits visit hid).mp hvisit) hid⟩
  created := hstamped.created
  keepAlive := fun message hmessage hid ↦
    hstamped.keepAlive message ((htaken message hid).mp hmessage) hid
  origin := by
    intro hstamp
    rcases hstamped.origin hstamp with ⟨message, hmessage, hid, horigin⟩ | ⟨hnone, hvisit, hfirst⟩
    · exact .inl ⟨message, (htaken message hid).mpr hmessage, hid, horigin⟩
    · exact .inr ⟨fun message hmessage hid ↦ hnone message ((htaken message hid).mp hmessage) hid,
        (hvisits _ rfl).mpr hvisit,
        fun visit hvisit hid ↦ hfirst visit ((hvisits visit hid).mp hvisit) hid⟩

/-- A message is taken out of the session. -/
theorem Stamped.take (hstamped : Stamped created taken visits id stamp) {message : Taken}
    (hid : message.session = id) (hpositive : 0 < message.time) (hcreated : created ≤ message.time)
    (hlast : ∀ earlier ∈ taken, earlier.session = id → earlier.time ≤ message.time) :
    Stamped created (taken ++ [message]) visits id (message.stamp stamp) := by
  have hmem : ∀ other, other ∈ taken ++ [message] ↔ other ∈ taken ∨ other = message := by simp
  cases hcommand : message.keepAlive with
  | false =>
    have hstamp : message.stamp stamp = stamp := by simp [Taken.stamp, hcommand]
    rw [hstamp]
    refine ⟨fun hzero ↦ ⟨fun other hother hsession ↦ ?_, (hstamped.unset hzero).2⟩,
      hstamped.created, fun other hother hsession hkeepAlive ↦ ?_, fun hset ↦ ?_⟩
    · rcases (hmem other).mp hother with hold | rfl
      · exact (hstamped.unset hzero).1 other hold hsession
      · exact hcommand
    · rcases (hmem other).mp hother with hold | rfl
      · exact hstamped.keepAlive other hold hsession hkeepAlive
      · simp [hcommand] at hkeepAlive
    · rcases hstamped.origin hset with ⟨other, hother, horigin⟩ | ⟨hnone, hvisits⟩
      · exact .inl ⟨other, (hmem other).mpr (.inl hother), horigin⟩
      · refine .inr ⟨fun other hother hsession ↦ ?_, hvisits⟩
        rcases (hmem other).mp hother with hold | rfl
        · exact hnone other hold hsession
        · exact hcommand
  | true =>
    have hstamp : message.stamp stamp = message.time := by simp [Taken.stamp, hcommand]
    rw [hstamp]
    refine ⟨fun hzero ↦ absurd hzero hpositive.ne', fun _ ↦ hcreated,
      fun other hother hsession _ ↦ ?_, fun _ ↦ ?_⟩
    · rcases (hmem other).mp hother with hold | rfl
      · exact hlast other hold hsession
      · exact le_refl _
    · exact .inl ⟨message, (hmem message).mpr (.inr rfl), hid, hcommand, rfl⟩

/-- The session is visited. -/
theorem Stamped.visit (hstamped : Stamped created taken visits id stamp) {current : ℤ}
    (hpositive : 0 < current) (hcreated : created ≤ current)
    (hlast : stamp ≤ current) :
    Stamped created taken (visits ++ [(id, current)]) id
      (if stamp = 0 then current else stamp) := by
  have hmem : ∀ visit : ℕ × ℤ, visit ∈ visits ++ [(id, current)] ↔
      visit ∈ visits ∨ visit = (id, current) := by simp
  by_cases hzero : stamp = 0
  · obtain ⟨hnone, hunvisited⟩ := hstamped.unset hzero
    rw [if_pos hzero]
    refine ⟨fun hcurrent ↦ absurd hcurrent hpositive.ne', fun _ ↦ hcreated,
      fun message hmessage hid hkeepAlive ↦ ?_, fun _ ↦ .inr ⟨hnone, (hmem _).mpr (.inr rfl), ?_⟩⟩
    · simp [hnone message hmessage hid] at hkeepAlive
    · intro visit hvisit hid
      rcases (hmem visit).mp hvisit with hold | rfl
      · exact absurd hid (hunvisited visit hold)
      · exact le_refl _
  · rw [if_neg hzero]
    refine ⟨fun h ↦ absurd h hzero, hstamped.created, hstamped.keepAlive, fun _ ↦ ?_⟩
    rcases hstamped.origin hzero with horigin | ⟨hnone, hvisit, hfirst⟩
    · exact .inl horigin
    · refine .inr ⟨hnone, (hmem _).mpr (.inl hvisit), fun visit hvisit' hid ↦ ?_⟩
      rcases (hmem visit).mp hvisit' with hold | rfl
      · exact hfirst visit hold hid
      · exact hlast

/-- The messages of a whole loop are taken out of the session. -/
theorem Stamped.takeAll (hstamped : Stamped created taken visits id stamp) {log : List Taken}
    (hid : ∀ message ∈ log, message.session = id)
    (hpositive : ∀ message ∈ log, 0 < message.time)
    (hcreated : ∀ message ∈ log, created ≤ message.time)
    (hsorted : log.Pairwise fun first second ↦ first.time ≤ second.time)
    (hlast : ∀ message ∈ log, ∀ earlier ∈ taken, earlier.session = id →
      earlier.time ≤ message.time) :
    Stamped created (taken ++ log) visits id (log.foldl Taken.stamp stamp) := by
  induction log generalizing taken stamp with
  | nil =>
    rw [List.append_nil]
    exact hstamped
  | cons message log ih =>
    obtain ⟨hfirst, hrest⟩ := List.pairwise_cons.mp hsorted
    have hone := hstamped.take (hid message List.mem_cons_self)
      (hpositive message List.mem_cons_self) (hcreated message List.mem_cons_self)
      (hlast message List.mem_cons_self)
    have hall := ih hone (fun other h ↦ hid other (List.mem_cons_of_mem _ h))
      (fun other h ↦ hpositive other (List.mem_cons_of_mem _ h))
      (fun other h ↦ hcreated other (List.mem_cons_of_mem _ h)) hrest
      fun other hother earlier h ↦ ?_
    · rw [List.append_assoc, List.singleton_append] at hall
      exact hall
    · rw [List.mem_append, List.mem_singleton] at h
      rcases h with hold | rfl
      · exact hlast other (List.mem_cons_of_mem _ hother) earlier hold
      · exact fun _ ↦ hfirst other hother

/-- A client from which a message was taken out in the last `timeout` ms has sent a keep-alive
command in that time, or it has never sent one and was not visited before that time. -/
def Heard (timeout : ℤ) (taken : List Taken) (visits : List (ℕ × ℤ)) (id : ℕ) (current : ℤ) :
    Prop :=
  (∃ message ∈ taken, message.session = id ∧ current - message.time ≤ timeout) →
    (∃ message ∈ taken, message.session = id ∧ message.keepAlive = true ∧
        current - message.time ≤ timeout) ∨
      (∀ message ∈ taken, message.session = id → message.keepAlive = false) ∧
        ∀ visit ∈ visits, visit.1 = id → current - visit.2 ≤ timeout

instance decidableHeard (timeout : ℤ) (taken : List Taken) (visits : List (ℕ × ℤ)) (id : ℕ)
    (current : ℤ) : Decidable (Heard timeout taken visits id current) :=
  inferInstanceAs (Decidable (_ → _))

/-- A visit either finds the time stamp recent enough or finds a client that was silent, exactly if
the client was heard. -/
theorem Stamped.heard_iff (hstamped : Stamped created taken visits id stamp) {timeout current : ℤ}
    (hbefore : ∀ message ∈ taken, message.session = id → message.time ≤ current) :
    Heard timeout taken visits id current ↔
      (timeout < current - (if stamp = 0 then current else stamp) →
        ∀ message ∈ taken, message.session = id → timeout < current - message.time) := by
  constructor
  · intro hheard hexpired message hmessage hid
    by_contra hrecent
    rcases hheard ⟨message, hmessage, hid, not_lt.mp hrecent⟩ with
      ⟨command, hcommand, hsession, hkeepAlive, hin⟩ | ⟨hnone, hvisits⟩
    · by_cases hzero : stamp = 0
      · simp [(hstamped.unset hzero).1 command hcommand hsession] at hkeepAlive
      · rw [if_neg hzero] at hexpired
        have hlast := hstamped.keepAlive command hcommand hsession hkeepAlive
        omega
    · by_cases hzero : stamp = 0
      · rw [if_pos hzero] at hexpired
        have hpast := hbefore message hmessage hid
        omega
      · rw [if_neg hzero] at hexpired
        rcases hstamped.origin hzero with ⟨command, hcommand, hsession, hkeepAlive, -⟩ |
          ⟨-, hvisit, -⟩
        · simp [hnone command hcommand hsession] at hkeepAlive
        · have hin := hvisits _ hvisit rfl
          omega
  · rintro hsilent ⟨message, hmessage, hid, hrecent⟩
    have halive : current - (if stamp = 0 then current else stamp) ≤ timeout := by
      by_contra hexpired
      have hold := hsilent (not_le.mp hexpired) message hmessage hid
      omega
    by_cases hzero : stamp = 0
    · obtain ⟨hnone, hunvisited⟩ := hstamped.unset hzero
      exact .inr ⟨hnone, fun visit hvisit hvisited ↦ absurd hvisited (hunvisited visit hvisit)⟩
    · rw [if_neg hzero] at halive
      rcases hstamped.origin hzero with ⟨command, hcommand, hsession, hkeepAlive, htime⟩ |
        ⟨hnone, -, hfirst⟩
      · exact .inl ⟨command, hcommand, hsession, hkeepAlive, htime ▸ halive⟩
      · refine .inr ⟨hnone, fun visit hvisit hvisited ↦ ?_⟩
        have hlater := hfirst visit hvisit hvisited
        omega

end Stamped

/-! ### The invariant -/

/-- What holds between two steps about the history and the time stamps. -/
structure Dated (timeline : Timeline K) : Prop where
  serving : ∀ id, (timeline.server.objects id).opt.isServer = true ∧
    (timeline.server.objects id).opt.keepAliveTimeout = timeline.server.opt.keepAliveTimeout
  optServer : timeline.server.opt.isServer = true
  created : ∀ id, 0 < timeline.created id ∧ timeline.created id ≤ timeline.now
  taken : ∀ message ∈ timeline.taken, message.session < timeline.server.nextId ∧
    message.time ≤ timeline.now
  visits : ∀ visit ∈ timeline.visits, visit.1 < timeline.server.nextId
  removed : ∀ removal ∈ timeline.removed, removal.1 < timeline.server.nextId ∧
    ∀ conv, timeline.server.sessions.lookup conv ≠ some removal.1
  stamp : ∀ conv id, timeline.server.sessions.lookup conv = some id →
    (timeline.server.objects id).recvLatestTime ≤ timeline.now
  stamped : ∀ conv id, timeline.server.sessions.lookup conv = some id →
    Stamped (timeline.created id) timeline.taken timeline.visits id
      (timeline.server.objects id).recvLatestTime

section Dated

variable {ikcp : Ikcp K D} {timeline : Timeline K}

theorem dated_start {opt : KcpOpt} (hopt : opt.isServer = true) :
    Dated (Timeline.start ikcp opt) where
  serving := fun _ ↦ ⟨hopt, rfl⟩
  optServer := hopt
  created := fun _ ↦ ⟨Int.one_pos, le_refl _⟩
  taken := fun _ hmessage ↦ absurd hmessage List.not_mem_nil
  visits := fun _ hvisit ↦ absurd hvisit List.not_mem_nil
  removed := fun _ hremoval ↦ absurd hremoval List.not_mem_nil
  stamp := fun conv id hconv ↦ absurd hconv (lookup_start_ne opt conv id)
  stamped := fun conv id hconv ↦ absurd hconv (lookup_start_ne opt conv id)

/-- Time passes. -/
theorem Dated.later (hdated : Dated timeline) {now : ℤ} (hnow : timeline.now ≤ now) :
    Dated { timeline with now := now } where
  serving := hdated.serving
  optServer := hdated.optServer
  created := fun id ↦ ⟨(hdated.created id).1, (hdated.created id).2.trans hnow⟩
  taken := fun message hmessage ↦
    ⟨(hdated.taken message hmessage).1, (hdated.taken message hmessage).2.trans hnow⟩
  visits := hdated.visits
  removed := hdated.removed
  stamp := fun conv id hconv ↦ (hdated.stamp conv id hconv).trans hnow
  stamped := hdated.stamped

theorem Dated.now_pos (hdated : Dated timeline) : 0 < timeline.now :=
  (hdated.created 0).1.trans_le (hdated.created 0).2

/-- A part of a step that leaves the sessions and their time stamps alone. -/
theorem Dated.steady (hdated : Dated timeline) {server : Server K}
    (hsteady : Steady timeline.server server)
    (hstamp : ∀ id, (server.objects id).recvLatestTime =
      (timeline.server.objects id).recvLatestTime) :
    Dated { timeline with server := server } where
  serving := fun id ↦ by
    rw [hsteady.objects, hsteady.opt]
    exact hdated.serving id
  optServer := hsteady.opt ▸ hdated.optServer
  created := hdated.created
  taken := fun message hmessage ↦ by
    rw [hsteady.nextId]
    exact hdated.taken message hmessage
  visits := fun visit hvisit ↦ by
    rw [hsteady.nextId]
    exact hdated.visits visit hvisit
  removed := fun removal hremoval ↦ by
    rw [hsteady.nextId, hsteady.sessions]
    exact hdated.removed removal hremoval
  stamp := fun conv id hconv ↦ by
    rw [hstamp]
    exact hdated.stamp conv id (hsteady.sessions ▸ hconv)
  stamped := fun conv id hconv ↦ by
    rw [hstamp]
    exact hdated.stamped conv id (hsteady.sessions ▸ hconv)

/-! ### A datagram -/

theorem recvLatestTime_newSession (server : Server K) (conv : UInt32) (addr : SockAddr) (id : ℕ) :
    ((server.newSession ikcp conv addr).objects id).recvLatestTime =
      if id = server.nextId then 0 else (server.objects id).recvLatestTime := by
  refine (recvLatestTime_announce _ _ _ id).trans ?_
  show ((server.store server.nextId _).objects id).recvLatestTime = _
  rw [objects_store]
  split_ifs <;> rfl

/-- A session is created. -/
theorem Dated.connect (hdated : Dated timeline) (hroom : Room timeline.server) (conv : UInt32)
    (addr : SockAddr) {begin : ℤ} (hbegin : timeline.now ≤ begin) :
    Dated { timeline with
      server := { timeline.server.newSession ikcp conv addr with
        sessions := timeline.server.sessions.insert conv timeline.server.nextId }
      now := begin
      created := Function.update timeline.created timeline.server.nextId begin } := by
  have hlater := hdated.later hbegin
  refine ⟨fun id ↦ ?_, hdated.optServer, fun id ↦ ?_, fun message hmessage ↦ ?_,
    fun visit hvisit ↦ ?_, fun removal hremoval ↦ ?_, fun other id hother ↦ ?_,
    fun other id hother ↦ ?_⟩
  · show ((timeline.server.newSession ikcp conv addr).objects id).opt.isServer = true ∧ _ = _
    rw [opt_newSession]
    split_ifs
    · exact ⟨hdated.optServer, rfl⟩
    · exact hdated.serving id
  · show 0 < Function.update timeline.created timeline.server.nextId begin id ∧
      Function.update timeline.created timeline.server.nextId begin id ≤ begin
    by_cases hid : id = timeline.server.nextId
    · rw [hid, Function.update_self]
      exact ⟨hlater.now_pos, le_refl _⟩
    · rw [Function.update_of_ne hid]
      exact hlater.created id
  · obtain ⟨hbelow, htime⟩ := hlater.taken message hmessage
    exact ⟨Nat.lt_succ_of_lt hbelow, htime⟩
  · exact Nat.lt_succ_of_lt (hdated.visits visit hvisit)
  · obtain ⟨hbelow, hgone⟩ := hdated.removed removal hremoval
    refine ⟨Nat.lt_succ_of_lt hbelow, fun other hother ↦ ?_⟩
    rcases hroom.lookup_insert hother with ⟨-, hid⟩ | ⟨-, hold⟩
    · omega
    · exact hgone other hold
  · show ((timeline.server.newSession ikcp conv addr).objects id).recvLatestTime ≤ begin
    rw [recvLatestTime_newSession]
    rcases hroom.lookup_insert hother with ⟨-, rfl⟩ | ⟨hbelow, hold⟩
    · rw [if_pos rfl]
      exact hlater.now_pos.le
    · rw [if_neg hbelow.ne]
      exact hlater.stamp other id hold
  · show Stamped (Function.update timeline.created timeline.server.nextId begin id) timeline.taken
      timeline.visits id ((timeline.server.newSession ikcp conv addr).objects id).recvLatestTime
    rw [recvLatestTime_newSession]
    rcases hroom.lookup_insert hother with ⟨-, rfl⟩ | ⟨hbelow, hold⟩
    · rw [if_pos rfl]
      exact stamped_new (fun message hmessage ↦ (hdated.taken message hmessage).1.ne)
        fun visit hvisit ↦ (hdated.visits visit hvisit).ne
    · rw [if_neg hbelow.ne, Function.update_of_ne hbelow.ne]
      exact hdated.stamped other id hold

/-- What a loop makes of a time stamp is the time stamp or the time of one of the messages. -/
theorem foldl_stamp_le {log : List Taken} {stamp bound : ℤ} (hstamp : stamp ≤ bound)
    (hlog : ∀ message ∈ log, message.time ≤ bound) : log.foldl Taken.stamp stamp ≤ bound := by
  induction log generalizing stamp with
  | nil => exact hstamp
  | cons message log ih =>
    refine ih ?_ fun other hother ↦ hlog other (List.mem_cons_of_mem _ hother)
    unfold Taken.stamp
    split_ifs
    · exact hlog message List.mem_cons_self
    · exact hstamp

/-- Messages are taken out of a session. -/
theorem Dated.drain (hdated : Dated timeline) (hroom : Room timeline.server) {conv : UInt32}
    {id : ℕ} (hid : timeline.server.sessions.lookup conv = some id) (clock : ℕ → ℤ)
    {finish : ℤ} (hfinish : timeline.now ≤ finish)
    (hsorted : (timeline.server.drained ikcp id clock 0).Pairwise fun first second ↦
      first.time ≤ second.time)
    (htimes : ∀ message ∈ timeline.server.drained ikcp id clock 0,
      timeline.now ≤ message.time ∧ message.time ≤ finish) :
    Dated { timeline with
      server := timeline.server.drain ikcp id clock 0
      now := finish
      taken := timeline.taken ++ timeline.server.drained ikcp id clock 0 } := by
  have hlater := hdated.later hfinish
  have hsteady : Steady timeline.server (timeline.server.drain ikcp id clock 0) :=
    steady_drain timeline.server id clock 0
  have hstamp := recvLatestTime_drain ikcp timeline.server id clock 0
  have hmem : ∀ message, message ∈ timeline.taken ++ timeline.server.drained ikcp id clock 0 ↔
      message ∈ timeline.taken ∨ message ∈ timeline.server.drained ikcp id clock 0 :=
    fun _ ↦ List.mem_append
  refine ⟨fun other ↦ ?_, hsteady.opt ▸ hdated.optServer, hlater.created,
    fun message hmessage ↦ ?_, fun visit hvisit ↦ ?_, fun removal hremoval ↦ ?_,
    fun key other hkey ↦ ?_, fun key other hkey ↦ ?_⟩
  · rw [hsteady.objects, hsteady.opt]
    exact hdated.serving other
  · rw [hsteady.nextId]
    rcases (hmem message).mp hmessage with hold | hlog
    · exact hlater.taken message hold
    · rw [session_of_mem_drained hlog]
      exact ⟨hroom.below conv id hid, (htimes message hlog).2⟩
  · rw [hsteady.nextId]
    exact hdated.visits visit hvisit
  · rw [hsteady.nextId, hsteady.sessions]
    exact hdated.removed removal hremoval
  · rw [hsteady.sessions] at hkey
    rw [hstamp]
    split_ifs
    · exact foldl_stamp_le (hlater.stamp conv id hid) fun message hmessage ↦
        (htimes message hmessage).2
    · exact hlater.stamp key other hkey
  · rw [hsteady.sessions] at hkey
    rw [hstamp]
    split_ifs with hother
    · subst hother
      refine (hdated.stamped key other hkey).takeAll (fun _ ↦ session_of_mem_drained)
        (fun message hmessage ↦ ?_) (fun message hmessage ↦ ?_) hsorted
        fun message hmessage earlier hearlier _ ↦ ?_
      · exact hdated.now_pos.trans_le (htimes message hmessage).1
      · exact (hdated.created other).2.trans (htimes message hmessage).1
      · exact (hdated.taken earlier hearlier).2.trans (htimes message hmessage).1
    · refine (hdated.stamped key other hkey).congr (fun message hsession ↦ ?_) fun _ _ ↦ Iff.rfl
      rw [hmem, or_iff_left]
      exact fun hlog ↦ hother (hsession.symm.trans (session_of_mem_drained hlog))

/-- `HandleSession` is called. -/
theorem Dated.handleSession (hdated : Dated timeline) (hroom : Room timeline.server)
    {conv : UInt32} {id : ℕ} (hid : timeline.server.sessions.lookup conv = some id) (datagram : D)
    (clock : ℕ → ℤ) {finish : ℤ} (hfinish : timeline.now ≤ finish)
    (hsorted : (timeline.server.handled ikcp id datagram clock).Pairwise fun first second ↦
      first.time ≤ second.time)
    (htimes : ∀ message ∈ timeline.server.handled ikcp id datagram clock,
      timeline.now ≤ message.time ∧ message.time ≤ finish) :
    Dated { timeline with
      server := timeline.server.handleSession ikcp id datagram clock
      now := finish
      taken := timeline.taken ++ timeline.server.handled ikcp id datagram clock } := by
  have hinput : Dated { timeline with
      server := timeline.server.store id ((timeline.server.objects id).input ikcp datagram).2 } :=
    hdated.steady (steady_store rfl) (recvLatestTime_store rfl)
  have hinputRoom : Room (timeline.server.store id
      ((timeline.server.objects id).input ikcp datagram).2) := hroom.store rfl
  unfold Server.handled at hsorted htimes ⊢
  unfold Server.handleSession
  dsimp only at hsorted htimes ⊢
  split_ifs at hsorted htimes ⊢
  · rw [List.append_nil]
    exact hinput.later hfinish
  · exact hinput.drain hinputRoom hid clock hfinish hsorted htimes

theorem Dated.setAddr (hdated : Dated timeline) (id : ℕ) (addr : SockAddr) :
    Dated { timeline with server := timeline.server.setAddr id addr } := by
  unfold Server.setAddr
  split_ifs
  · exact hdated.steady (steady_store rfl) (recvLatestTime_store rfl)
  · exact hdated

theorem nextId_setAddr (server : Server K) (id : ℕ) (addr : SockAddr) :
    (server.setAddr id addr).nextId = server.nextId := by
  unfold Server.setAddr
  split_ifs <;> rfl

/-- `GetSession` is called. -/
theorem Dated.getSession (hdated : Dated timeline) (hroom : Room timeline.server) (conv : UInt32)
    (addr : SockAddr) {begin : ℤ} (hbegin : timeline.now ≤ begin) :
    Dated { timeline with
      server := (timeline.server.getSession ikcp conv addr).2
      now := begin
      created :=
        if timeline.server.nextId < (timeline.server.getSession ikcp conv addr).2.nextId then
          Function.update timeline.created timeline.server.nextId begin
        else timeline.created } := by
  unfold Server.getSession
  cases hlookup : timeline.server.sessions.lookup conv with
  | some id =>
    dsimp only
    rw [nextId_setAddr, if_neg (lt_irrefl _)]
    exact (hdated.setAddr id addr).later hbegin
  | none =>
    dsimp only
    rw [nextId_setAddr]
    have hcreated : timeline.server.nextId < (timeline.server.newSession ikcp conv addr).nextId :=
      Nat.lt_succ_self _
    rw [if_pos hcreated]
    exact (hdated.connect hroom conv addr hbegin).setAddr timeline.server.nextId addr

theorem steady_handleSession (server : Server K) (id : ℕ) (datagram : D) (clock : ℕ → ℤ) :
    Steady server (server.handleSession ikcp id datagram clock) := by
  have hinput : Steady server (server.store id ((server.objects id).input ikcp datagram).2) :=
    steady_store rfl
  unfold Server.handleSession
  dsimp only
  split_ifs
  · exact hinput
  · exact hinput.trans (steady_drain _ id clock 0)

/-- A datagram is received. -/
theorem Dated.receive (hdated : Dated timeline) (hroom : Room timeline.server) {datagram : D}
    {addr : SockAddr} {clock : ℕ → ℤ} {begin finish : ℤ}
    (hordered : Ordered ikcp timeline ⟨begin, finish, .datagram datagram addr clock⟩) :
    Dated { timeline with
      server := timeline.server.receive ikcp datagram addr clock
      now := finish
      created :=
        if timeline.server.nextId < (timeline.server.receive ikcp datagram addr clock).nextId then
          Function.update timeline.created timeline.server.nextId begin
        else timeline.created
      taken := timeline.taken ++ timeline.server.received ikcp datagram addr clock } := by
  obtain ⟨hbegin, hfinish, hsorted, htimes⟩ := hordered
  have hbuffer : Dated { timeline with server := { timeline.server with
      buf := overwrite timeline.server.buf (ikcp.bytes datagram) } } :=
    hdated.steady ⟨rfl, rfl, rfl, fun _ ↦ rfl⟩ fun _ ↦ rfl
  have hbufferRoom : Room { timeline.server with
      buf := overwrite timeline.server.buf (ikcp.bytes datagram) } :=
    hroom.congr rfl rfl rfl fun _ ↦ rfl
  unfold Server.received at hsorted htimes ⊢
  unfold Server.receive
  dsimp only at hsorted htimes ⊢
  by_cases hshort : (ikcp.bytes datagram).length < 24
  · rw [if_pos hshort, if_pos hshort, List.append_nil, if_neg (lt_irrefl _)]
    exact hbuffer.later (hbegin.trans hfinish)
  · simp only [if_neg hshort] at hsorted htimes ⊢
    rw [getConv_overwrite (Nat.not_lt.mp hshort)] at hsorted htimes ⊢
    rw [(steady_handleSession _ _ datagram clock).nextId]
    obtain ⟨hmoves, hid⟩ := moves_getSession ikcp { timeline.server with
      buf := overwrite timeline.server.buf (ikcp.bytes datagram) } datagram addr clock
    have hfoundRoom :=
      hmoves.invariant (fun _ _ hbefore hmove ↦ room_move hbefore hmove) hbufferRoom
    exact (hbuffer.getSession hbufferRoom _ addr hbegin).handleSession hfoundRoom hid datagram clock
      hfinish hsorted htimes

/-! ### A visit of `Update` -/

theorem recvLatestTime_update (session : Session K) (current : ℤ) :
    (session.update ikcp current).2.recvLatestTime =
      if session.recvLatestTime = 0 then current else session.recvLatestTime := by
  show _ = (session.refresh ikcp current).recvLatestTime
  unfold Session.update
  dsimp only
  split_ifs <;> rfl

variable (ikcp) in
theorem update_expired_iff {session : Session K} (hserver : session.opt.isServer = true)
    (current : ℤ) :
    (session.update ikcp current).1 = true ↔
      session.opt.keepAliveTimeout <
        current - (if session.recvLatestTime = 0 then current else session.recvLatestTime) := by
  unfold Session.update
  simp only [Session.refresh, hserver, true_and, not_true_eq_false, false_and, if_false, gt_iff_lt]
  split_ifs <;> simp_all

/-- What a visit does. -/
structure Visited (server next : Server K) (conv : UInt32) (id : ℕ) (current : ℤ)
    (expired : Bool) : Prop where
  opt : next.opt = server.opt
  nextId : next.nextId = server.nextId
  objects : ∀ other, (next.objects other).opt = (server.objects other).opt
  stamp : ∀ other, (next.objects other).recvLatestTime =
    if other = id then
      if (server.objects id).recvLatestTime = 0 then current else (server.objects id).recvLatestTime
    else (server.objects other).recvLatestTime
  sessions : next.sessions = if expired then server.sessions.erase conv else server.sessions

variable (ikcp) in
theorem visited_visit (server : Server K) (conv : UInt32) (id : ℕ) (current : ℤ) :
    Visited server (server.visit ikcp conv id current) conv id current
      ((server.objects id).update ikcp current).1 := by
  have hobjects : ∀ other, ((server.store id ((server.objects id).update ikcp
      current).2).objects other).opt = (server.objects other).opt :=
    opt_store (opt_update ikcp (server.objects id) current)
  have hstamp (other : ℕ) : ((server.store id ((server.objects id).update ikcp
      current).2).objects other).recvLatestTime =
      if other = id then
        if (server.objects id).recvLatestTime = 0 then current
        else (server.objects id).recvLatestTime
      else (server.objects other).recvLatestTime := by
    rw [objects_store]
    split_ifs with hother hzero
    · rw [recvLatestTime_update, if_pos hzero]
    · rw [recvLatestTime_update, if_neg hzero]
    · rfl
  unfold Server.visit
  dsimp only
  split_ifs with hexpired
  · exact ⟨rfl, rfl, fun other ↦ (opt_announce _ _ _ other).trans (hobjects other),
      fun other ↦ (recvLatestTime_announce _ _ _ other).trans (hstamp other),
      (if_pos hexpired).symm⟩
  · exact ⟨rfl, rfl, hobjects, hstamp, (if_neg hexpired).symm⟩

/-- A session that is there after a visit was there before it and is not the one that was removed.
-/
theorem Visited.lookup {server next : Server K} {conv key : UInt32} {id other : ℕ} {current : ℤ}
    {expired : Bool} (hvisited : Visited server next conv id current expired)
    (hkey : next.sessions.lookup key = some other) :
    server.sessions.lookup key = some other ∧ (expired = true → key ≠ conv) := by
  rw [hvisited.sessions] at hkey
  split_ifs at hkey with hexpired
  · obtain ⟨hne, hbefore⟩ := lookup_of_erase hkey
    exact ⟨hbefore, fun _ ↦ hne⟩
  · exact ⟨hkey, fun h ↦ absurd h hexpired⟩

theorem Visited.lookup_of_ne {server next : Server K} {conv key : UInt32} {id : ℕ} {current : ℤ}
    {expired : Bool} (hvisited : Visited server next conv id current expired)
    (hne : key ≠ conv) : next.sessions.lookup key = server.sessions.lookup key := by
  rw [hvisited.sessions]
  split_ifs
  · exact AList.lookup_erase_ne hne
  · rfl

/-- The history of one visit. -/
def Timeline.visit (timeline : Timeline K) (next : Server K) (id : ℕ) (current : ℤ)
    (expired : Bool) : Timeline K :=
  { timeline with
    server := next
    now := current
    visits := timeline.visits ++ [(id, current)]
    removed := timeline.removed ++ if expired then [(id, current)] else [] }

theorem Dated.visit (hdated : Dated timeline) (hroom : Room timeline.server) {next : Server K}
    {conv : UInt32} {id : ℕ} (hid : timeline.server.sessions.lookup conv = some id) {current : ℤ}
    {expired : Bool} (hvisited : Visited timeline.server next conv id current expired)
    (hcurrent : timeline.now ≤ current) : Dated (timeline.visit next id current expired) := by
  have hlater := hdated.later hcurrent
  refine ⟨fun other ↦ ?_, ?_, hlater.created, fun message hmessage ↦ ?_, fun visit hvisit ↦ ?_,
    fun removal hremoval ↦ ?_, fun key other hkey ↦ ?_, fun key other hkey ↦ ?_⟩
  · show (next.objects other).opt.isServer = true ∧
      (next.objects other).opt.keepAliveTimeout = next.opt.keepAliveTimeout
    rw [hvisited.objects, hvisited.opt]
    exact hdated.serving other
  · show next.opt.isServer = true
    rw [hvisited.opt]
    exact hdated.optServer
  · show message.session < next.nextId ∧ message.time ≤ current
    rw [hvisited.nextId]
    exact hlater.taken message hmessage
  · show visit.1 < next.nextId
    rw [hvisited.nextId]
    rcases List.mem_append.mp hvisit with hold | hnew
    · exact hdated.visits visit hold
    · rw [List.mem_singleton.mp hnew]
      exact hroom.below conv id hid
  · show removal.1 < next.nextId ∧ ∀ key, next.sessions.lookup key ≠ some removal.1
    rw [hvisited.nextId]
    rcases List.mem_append.mp hremoval with hold | hnew
    · exact ⟨(hdated.removed removal hold).1,
        fun key hkey ↦ (hdated.removed removal hold).2 key (hvisited.lookup hkey).1⟩
    · split_ifs at hnew with hexpired
      · rw [List.mem_singleton.mp hnew]
        refine ⟨hroom.below conv id hid, fun key hkey ↦ ?_⟩
        obtain ⟨hold, hne⟩ := hvisited.lookup hkey
        exact hne hexpired ((hroom.own key id hold).symm.trans (hroom.own conv id hid))
      · exact absurd hnew List.not_mem_nil
  · show (next.objects other).recvLatestTime ≤ current
    have hold := hlater.stamp key other (hvisited.lookup hkey).1
    rw [hvisited.stamp]
    split_ifs with hother
    · exact le_refl _
    · exact hother ▸ hold
    · exact hold
  · show Stamped (timeline.created other) timeline.taken (timeline.visits ++ [(id, current)]) other
      (next.objects other).recvLatestTime
    have hold := hdated.stamped key other (hvisited.lookup hkey).1
    rw [hvisited.stamp]
    by_cases hother : other = id
    · subst hother
      rw [if_pos rfl]
      exact hold.visit hlater.now_pos (hlater.created other).2 (hlater.stamp conv other hid)
    · rw [if_neg hother]
      refine hold.congr (fun _ _ ↦ Iff.rfl) fun visit hvisit ↦ ?_
      rw [List.mem_append, List.mem_singleton, or_iff_left]
      rintro rfl
      exact hother hvisit.symm

end Dated

end TestLinux.Kcp
