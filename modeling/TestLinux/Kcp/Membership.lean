import TestLinux.Kcp.Server
import TestLinux.Kcp.Endpoint

/-!
# The members of the chat room

`Room` is the invariant about the two containers: between two steps `users_` holds exactly the
sessions that are stored in `sessions_`, and a session is stored under its own conversation number.
Inside of a step it does not hold: a new session is in `users_` first, and a closed one is removed
from `users_` first.

`Logged` is the invariant about the broadcasts. `membersAfter` reads the members off the calls of
the handlers, and every broadcast is passed to `Send` of exactly the members at that time.
`chat_room_agreement` follows: as long as two sessions are both members, the same texts are passed
to both, one for each call of a handler.
-/

set_option autoImplicit false
set_option relaxedAutoImplicit false

namespace TestLinux.Kcp

open TestLinux.Runs

/-! ### Sessions that change -/

section Session

variable {K D : Type} (ikcp : Ikcp K D) (session : Session K)

theorem opt_of_recv {next : Session K} {size : ℕ} {message : List UInt8}
    (hrecv : session.recv ikcp size = .ok (message, next)) :
    next.opt = session.opt ∧ next.addr = session.addr ∧ next.sent = session.sent := by
  unfold Session.recv at hrecv
  split at hrecv
  · cases hrecv
  · obtain ⟨-, rfl⟩ := Prod.mk.inj (Except.ok.inj hrecv)
    exact ⟨rfl, rfl, rfl⟩

theorem opt_update (current : ℤ) : (session.update ikcp current).2.opt = session.opt := by
  unfold Session.update
  dsimp only
  split_ifs <;> rfl

theorem addr_update (current : ℤ) : (session.update ikcp current).2.addr = session.addr := by
  unfold Session.update
  dsimp only
  split_ifs <;> rfl

/-- A server sends no keep-alive commands. -/
theorem sent_update (hserver : session.opt.isServer = true) (current : ℤ) :
    (session.update ikcp current).2.sent = session.sent := by
  unfold Session.update
  dsimp only
  split_ifs with hexpired hidle
  · rfl
  · exact absurd hserver hidle.1
  · rfl

end Session

variable {K D : Type} {ikcp : Ikcp K D}

theorem objects_store (server : Server K) (id other : ℕ) (session : Session K) :
    (server.store id session).objects other =
      if other = id then session else server.objects other :=
  Function.update_apply _ _ _ _

/-- What a step may change in a session without anybody noticing. -/
theorem opt_store {server : Server K} {id : ℕ} {session : Session K}
    (hopt : session.opt = (server.objects id).opt) (other : ℕ) :
    ((server.store id session).objects other).opt = (server.objects other).opt := by
  rw [objects_store]
  split_ifs with hother
  · rw [hother, hopt]
  · rfl

theorem sent_store {server : Server K} {id : ℕ} {session : Session K}
    (hsent : session.sent = (server.objects id).sent) (other : ℕ) :
    ((server.store id session).objects other).sent = (server.objects other).sent := by
  rw [objects_store]
  split_ifs with hother
  · rw [hother, hsent]
  · rfl

theorem opt_announce (server : Server K) (notice : Notice) (id other : ℕ) :
    ((server.announce ikcp notice id).objects other).opt = (server.objects other).opt := by
  show (if other ∈ server.users then _ else server.objects other : Session K).opt = _
  split_ifs <;> rfl

theorem opt_newSession (server : Server K) (conv : UInt32) (addr : SockAddr) (id : ℕ) :
    ((server.newSession ikcp conv addr).objects id).opt =
      if id = server.nextId then { server.opt with conv := conv } else (server.objects id).opt := by
  refine (opt_announce _ _ _ id).trans ?_
  show ((server.store server.nextId _).objects id).opt = _
  rw [objects_store]
  split_ifs <;> rfl

theorem addr_announce (server : Server K) (notice : Notice) (id other : ℕ) :
    ((server.announce ikcp notice id).objects other).addr = (server.objects other).addr := by
  show (if other ∈ server.users then _ else server.objects other : Session K).addr = _
  split_ifs <;> rfl

theorem sent_announce (server : Server K) (notice : Notice) (id other : ℕ) :
    ((server.announce ikcp notice id).objects other).sent = (server.objects other).sent ++
      if other ∈ server.users then [notice.text (server.objects id).addr] else [] := by
  show (if other ∈ server.users then _ else server.objects other : Session K).sent = _
  split_ifs
  · rfl
  · rw [List.append_nil]

/-! ### Two containers -/

/-- What holds between two steps about `sessions_` and `users_`. -/
structure Room (server : Server K) : Prop where
  members : ∀ id, id ∈ server.users ↔ ∃ conv, server.sessions.lookup conv = some id
  own : ∀ conv id, server.sessions.lookup conv = some id → (server.objects id).opt.conv = conv
  below : ∀ conv id, server.sessions.lookup conv = some id → id < server.nextId

theorem lookup_start_ne (opt : KcpOpt) (conv : UInt32) (id : ℕ) :
    (Server.start ikcp opt).sessions.lookup conv ≠ some id := by
  intro hconv
  have hempty := hconv.symm.trans (AList.lookup_empty conv)
  exact absurd hempty (by simp)

theorem room_start (opt : KcpOpt) : Room (Server.start ikcp opt) where
  members := fun id ↦ by
    constructor
    · exact fun hid ↦ absurd hid (Finset.notMem_empty id)
    · rintro ⟨conv, hconv⟩
      exact absurd hconv (lookup_start_ne opt conv id)
  own := fun conv id hconv ↦ absurd hconv (lookup_start_ne opt conv id)
  below := fun conv id hconv ↦ absurd hconv (lookup_start_ne opt conv id)

section Room

variable {server next : Server K}

theorem Room.congr (hroom : Room server) (hsessions : next.sessions = server.sessions)
    (husers : next.users = server.users) (hnextId : next.nextId = server.nextId)
    (hopt : ∀ id, (next.objects id).opt = (server.objects id).opt) : Room next where
  members := by
    rw [hsessions, husers]
    exact hroom.members
  own := fun conv id hconv ↦ by
    rw [hopt id]
    exact hroom.own conv id (hsessions ▸ hconv)
  below := by
    rw [hsessions, hnextId]
    exact hroom.below

theorem Room.store (hroom : Room server) {id : ℕ} {session : Session K}
    (hopt : session.opt = (server.objects id).opt) : Room (server.store id session) :=
  hroom.congr rfl rfl rfl (opt_store hopt)

theorem room_take (hroom : Room server) {id size : ℕ} {session : Session K} {message : List UInt8}
    (hrecv : (server.objects id).recv ikcp size = .ok (message, session)) :
    Room (server.take id session message) :=
  hroom.congr rfl rfl rfl (opt_store (opt_of_recv ikcp _ hrecv).1)

/-- A session that is there after `NewSession` is the new one or was there before. -/
theorem Room.lookup_insert (hroom : Room server) {conv other : UInt32} {id : ℕ}
    (hother : (server.sessions.insert conv server.nextId).lookup other = some id) :
    other = conv ∧ id = server.nextId ∨
      id < server.nextId ∧ server.sessions.lookup other = some id := by
  by_cases hconv : other = conv
  · rw [hconv, AList.lookup_insert] at hother
    exact .inl ⟨hconv, (Option.some.inj hother).symm⟩
  · rw [AList.lookup_insert_ne hconv] at hother
    exact .inr ⟨hroom.below other id hother, hother⟩

/-- A session that is there after another one was erased was there before. -/
theorem lookup_of_erase {sessions : AList fun _ : UInt32 ↦ ℕ} {conv key : UInt32} {id : ℕ}
    (hkey : (sessions.erase conv).lookup key = some id) :
    key ≠ conv ∧ sessions.lookup key = some id := by
  have hne : key ≠ conv := by
    rintro rfl
    rw [AList.lookup_erase] at hkey
    cases hkey
  exact ⟨hne, (AList.lookup_erase_ne hne).symm.trans hkey⟩

theorem room_connect (hroom : Room server) {conv : UInt32} (addr : SockAddr)
    (hnew : server.sessions.lookup conv = none) :
    Room { server.newSession ikcp conv addr with
      sessions := server.sessions.insert conv server.nextId } where
  members := by
    intro id
    show id ∈ insert server.nextId server.users ↔
      ∃ other, (server.sessions.insert conv server.nextId).lookup other = some id
    rw [Finset.mem_insert]
    constructor
    · rintro (rfl | hid)
      · exact ⟨conv, AList.lookup_insert _⟩
      · obtain ⟨other, hother⟩ := (hroom.members id).mp hid
        have hne : other ≠ conv := by
          rintro rfl
          exact absurd (hother.symm.trans hnew) (by simp)
        exact ⟨other, (AList.lookup_insert_ne hne).trans hother⟩
    · rintro ⟨other, hother⟩
      rcases hroom.lookup_insert hother with ⟨-, hid⟩ | ⟨-, hbefore⟩
      · exact Or.inl hid
      · exact Or.inr ((hroom.members id).mpr ⟨other, hbefore⟩)
  own := by
    intro other id hother
    show ((server.newSession ikcp conv addr).objects id).opt.conv = other
    rw [opt_newSession]
    rcases hroom.lookup_insert hother with ⟨rfl, hid⟩ | ⟨hbelow, hbefore⟩
    · rw [if_pos hid]
    · rw [if_neg hbelow.ne]
      exact hroom.own other id hbefore
  below := by
    intro other id hother
    show id < server.nextId + 1
    rcases hroom.lookup_insert hother with ⟨-, hid⟩ | ⟨hbelow, -⟩
    · exact Nat.lt_succ_of_le hid.le
    · exact Nat.lt_succ_of_lt hbelow

theorem room_close (hroom : Room server) {conv : UInt32} {id : ℕ}
    (hid : server.sessions.lookup conv = some id) :
    Room { server.handleClose ikcp id with sessions := server.sessions.erase conv } where
  members := by
    intro other
    show other ∈ server.users.erase id ↔ ∃ key, (server.sessions.erase conv).lookup key = some other
    rw [Finset.mem_erase]
    constructor
    · rintro ⟨hne, hmember⟩
      obtain ⟨key, hkey⟩ := (hroom.members other).mp hmember
      have hkeys : key ≠ conv := by
        rintro rfl
        exact hne (Option.some.inj (hkey.symm.trans hid))
      exact ⟨key, (AList.lookup_erase_ne hkeys).trans hkey⟩
    · rintro ⟨key, hkey⟩
      obtain ⟨hkeys, hbefore⟩ := lookup_of_erase hkey
      refine ⟨?_, (hroom.members other).mpr ⟨key, hbefore⟩⟩
      rintro rfl
      exact hkeys ((hroom.own key other hbefore).symm.trans (hroom.own conv other hid))
  own := by
    intro key other hkey
    show ((Server.announce ikcp _ .leave id).objects other).opt.conv = key
    rw [opt_announce]
    exact hroom.own key other (lookup_of_erase hkey).2
  below := by
    intro key other hkey
    exact hroom.below key other (lookup_of_erase hkey).2

theorem room_move {event : Event D} (hroom : Room server) (hmove : Move ikcp server event next) :
    Room next := by
  cases hmove with
  | buffer => exact hroom.congr rfl rfl rfl fun _ ↦ rfl
  | connect hnew => exact room_connect hroom _ hnew
  | setAddr hid => exact hroom.store rfl
  | input hid => exact hroom.store rfl
  | empty hid hrecv => exact room_take hroom hrecv
  | keepAlive hid hrecv hcmd count => exact (room_take hroom hrecv).store rfl
  | message hid hrecv hcmd =>
    exact (room_take hroom hrecv).congr rfl rfl rfl (opt_announce _ _ _)
  | tooLong hid hrecv => exact hroom.congr rfl rfl rfl fun _ ↦ rfl
  | refresh hid halive => exact hroom.store (opt_update ikcp _ _)
  | close hid hexpired => exact room_close (hroom.store (opt_update ikcp _ _)) hid

end Room

/-! ### Broadcasts -/

/-- The members when the handler notifies them. -/
def Call.after (members : Finset ℕ) (call : Call) : Finset ℕ :=
  match call.notice with
  | .join => insert call.session members
  | .message _ => members
  | .leave => members.erase call.session

/-- The members after the calls. -/
def membersAfter (calls : List Call) : Finset ℕ := calls.foldl Call.after ∅

/-- The texts that are passed to `Send` of a session. -/
def sentTo (id : ℕ) (calls : List Call) : List (List UInt8) :=
  (calls.filter (id ∈ ·.users)).map Call.text

theorem membersAfter_append (calls : List Call) (call : Call) :
    membersAfter (calls ++ [call]) = call.after (membersAfter calls) := by
  rw [membersAfter, List.foldl_append, List.foldl_cons, List.foldl_nil, membersAfter]

theorem sentTo_append (id : ℕ) (calls : List Call) (call : Call) :
    sentTo id (calls ++ [call]) =
      sentTo id calls ++ if id ∈ call.users then [call.text] else [] := by
  rw [sentTo, List.filter_append, List.map_append, sentTo]
  congr 1
  split_ifs with hid
  · rw [List.filter_cons_of_pos (by simpa using hid)]
    rfl
  · rw [List.filter_cons_of_neg (by simpa using hid)]
    rfl

theorem sentTo_eq_nil {id : ℕ} {calls : List Call} (hid : ∀ call ∈ calls, id ∉ call.users) :
    sentTo id calls = [] := by
  rw [sentTo, List.filter_eq_nil_iff.mpr fun call hcall ↦ by simpa using hid call hcall]
  rfl

/-- A session to which all the calls are sent. -/
theorem sentTo_eq_map {id : ℕ} {calls : List Call} (hid : ∀ call ∈ calls, id ∈ call.users) :
    sentTo id calls = calls.map Call.text := by
  rw [sentTo, List.filter_eq_self.mpr fun call hcall ↦ by simpa using hid call hcall]

/-- What holds between two steps about the broadcasts. -/
structure Logged (server : Server K) : Prop where
  users : server.users = membersAfter server.calls
  notified : ∀ front call back, server.calls = front ++ call :: back →
    call.users = membersAfter (front ++ [call])
  sent : ∀ id, (server.objects id).sent = sentTo id server.calls
  below : ∀ call ∈ server.calls, ∀ id ∈ call.users, id < server.nextId
  serving : server.opt.isServer = true ∧ ∀ id, (server.objects id).opt.isServer = true

theorem logged_start {opt : KcpOpt} (hopt : opt.isServer = true) :
    Logged (Server.start ikcp opt) where
  users := rfl
  notified := fun front call back hcalls ↦ by
    have hnil : ([] : List Call) = front ++ call :: back := hcalls
    exact absurd hnil.symm (by simp)
  sent := fun _ ↦ rfl
  below := fun _ hcall ↦ absurd hcall List.not_mem_nil
  serving := ⟨hopt, fun _ ↦ hopt⟩

section Logged

variable {server next : Server K}

theorem Logged.congr (hlogged : Logged server) (hopt : next.opt = server.opt)
    (husers : next.users = server.users) (hcalls : next.calls = server.calls)
    (hnextId : next.nextId = server.nextId)
    (hobjects : ∀ id, (next.objects id).opt = (server.objects id).opt ∧
      (next.objects id).sent = (server.objects id).sent) : Logged next where
  users := by
    rw [husers, hcalls]
    exact hlogged.users
  notified := by
    rw [hcalls]
    exact hlogged.notified
  sent := fun id ↦ by
    rw [(hobjects id).2, hcalls]
    exact hlogged.sent id
  below := by
    rw [hcalls, hnextId]
    exact hlogged.below
  serving := by
    rw [hopt]
    refine ⟨hlogged.serving.1, fun id ↦ ?_⟩
    rw [(hobjects id).1]
    exact hlogged.serving.2 id

theorem Logged.store (hlogged : Logged server) {id : ℕ} {session : Session K}
    (hopt : session.opt = (server.objects id).opt)
    (hsent : session.sent = (server.objects id).sent) : Logged (server.store id session) :=
  hlogged.congr rfl rfl rfl rfl fun other ↦ ⟨opt_store hopt other, sent_store hsent other⟩

theorem logged_take (hlogged : Logged server) {id size : ℕ} {session : Session K}
    {message : List UInt8}
    (hrecv : (server.objects id).recv ikcp size = .ok (message, session)) :
    Logged (server.take id session message) := by
  obtain ⟨hopt, -, hsent⟩ := opt_of_recv ikcp _ hrecv
  exact hlogged.congr rfl rfl rfl rfl fun other ↦ ⟨opt_store hopt other, sent_store hsent other⟩

/-- A broadcast is passed to `Send` of exactly the members after the call. -/
theorem Logged.append (hlogged : Logged server) {call : Call}
    (hopt : next.opt = server.opt) (hserving : ∀ id, (next.objects id).opt.isServer = true)
    (hcalls : next.calls = server.calls ++ [call]) (husers : next.users = call.users)
    (hafter : call.users = call.after server.users) (hnextId : server.nextId ≤ next.nextId)
    (hbelow : ∀ id ∈ call.users, id < next.nextId)
    (hsent : ∀ id, (next.objects id).sent =
      (server.objects id).sent ++ if id ∈ call.users then [call.text] else []) :
    Logged next where
  users := by
    rw [husers, hcalls, membersAfter_append, ← hlogged.users]
    exact hafter
  notified := by
    intro front other back hsplit
    rw [hcalls] at hsplit
    -- the call is the last one, or it was there before
    rcases List.eq_nil_or_concat back with rfl | ⟨rest, last, rfl⟩
    · obtain ⟨rfl, hlast⟩ := List.append_inj' hsplit rfl
      rw [← (List.cons.inj hlast).1, membersAfter_append, ← hlogged.users]
      exact hafter
    · rw [List.concat_eq_append, ← List.cons_append, ← List.append_assoc] at hsplit
      exact hlogged.notified front other rest (List.append_inj' hsplit rfl).1
  sent := fun id ↦ by
    rw [hsent id, hcalls, sentTo_append, hlogged.sent id]
  below := by
    intro other hother id hid
    rw [hcalls] at hother
    rcases List.mem_append.mp hother with hbefore | hlast
    · exact Nat.lt_of_lt_of_le (hlogged.below other hbefore id hid) hnextId
    · rw [List.mem_singleton.mp hlast] at hid
      exact hbelow id hid
  serving := by
    rw [hopt]
    exact ⟨hlogged.serving.1, hserving⟩

theorem Room.lt_of_mem_users (hroom : Room server) {id : ℕ} (hid : id ∈ server.users) :
    id < server.nextId := by
  obtain ⟨conv, hconv⟩ := (hroom.members id).mp hid
  exact hroom.below conv id hconv

theorem logged_message (hlogged : Logged server) (hroom : Room server) (id : ℕ)
    (message : List UInt8) : Logged (server.handleMessage ikcp id message) := by
  refine hlogged.append rfl (fun other ↦ ?_) rfl rfl rfl (Nat.le_refl _)
    (fun other hother ↦ hroom.lt_of_mem_users hother) (sent_announce server _ id)
  rw [Server.handleMessage, opt_announce]
  exact hlogged.serving.2 other

theorem logged_connect (hlogged : Logged server) (hroom : Room server) (conv : UInt32)
    (addr : SockAddr) (sessions : AList fun _ : UInt32 ↦ ℕ) :
    Logged { server.newSession ikcp conv addr with sessions := sessions } := by
  refine hlogged.append rfl (fun other ↦ ?_) rfl rfl rfl (Nat.le_succ _) (fun other hother ↦ ?_)
    fun other ↦ ?_
  · show ((server.newSession ikcp conv addr).objects other).opt.isServer = true
    rw [opt_newSession]
    split_ifs
    · exact hlogged.serving.1
    · exact hlogged.serving.2 other
  · rcases Finset.mem_insert.mp hother with rfl | hmember
    · exact Nat.lt_succ_self _
    · exact Nat.lt_succ_of_lt (hroom.lt_of_mem_users hmember)
  · refine (sent_announce _ .join server.nextId other).trans (congrArg (· ++ _) ?_)
    show ((server.store server.nextId _).objects other).sent = (server.objects other).sent
    rw [objects_store]
    split_ifs with hnew
    · -- nothing has been sent to a session that did not exist
      rw [hlogged.sent other, sentTo_eq_nil]
      · rfl
      · intro call hcall hmember
        exact absurd (hlogged.below call hcall other hmember) (by omega)
    · rfl

theorem logged_close (hlogged : Logged server) (hroom : Room server) (id : ℕ)
    (sessions : AList fun _ : UInt32 ↦ ℕ) :
    Logged { server.handleClose ikcp id with sessions := sessions } := by
  refine hlogged.append rfl (fun other ↦ ?_) rfl rfl rfl (Nat.le_refl _) (fun other hother ↦ ?_)
    (sent_announce _ .leave id)
  · show ((Server.announce ikcp _ .leave id).objects other).opt.isServer = true
    rw [opt_announce]
    exact hlogged.serving.2 other
  · exact hroom.lt_of_mem_users (Finset.mem_of_mem_erase hother)

theorem logged_move {event : Event D} (hlogged : Logged server) (hroom : Room server)
    (hmove : Move ikcp server event next) : Logged next := by
  cases hmove with
  | buffer => exact hlogged.congr rfl rfl rfl rfl fun _ ↦ ⟨rfl, rfl⟩
  | connect hnew => exact logged_connect hlogged hroom _ _ _
  | setAddr hid => exact hlogged.store rfl rfl
  | input hid => exact hlogged.store rfl rfl
  | empty hid hrecv => exact logged_take hlogged hrecv
  | keepAlive hid hrecv hcmd count => exact (logged_take hlogged hrecv).store rfl rfl
  | message hid hrecv hcmd =>
    exact logged_message (logged_take hlogged hrecv) (room_take hroom hrecv) _ _
  | tooLong hid hrecv => exact hlogged.congr rfl rfl rfl rfl fun _ ↦ ⟨rfl, rfl⟩
  | refresh hid halive =>
    exact hlogged.store (opt_update ikcp _ _) (sent_update ikcp _ (hlogged.serving.2 _) _)
  | close hid hexpired =>
    exact logged_close
      (hlogged.store (opt_update ikcp _ _) (sent_update ikcp _ (hlogged.serving.2 _) _))
      (hroom.store (opt_update ikcp _ _)) _ _

end Logged

/-! ### Runs -/

theorem room_and_logged_step {server next : Server K} {event : Event D}
    (hserver : Room server ∧ Logged server) (hstep : step ikcp server event = some next) :
    Room next ∧ Logged next := by
  have hparts : ∀ before after, Room before ∧ Logged before →
      Move ikcp before event after → Room after ∧ Logged after := fun _ _ hbefore hmove ↦
    ⟨room_move hbefore.1 hmove, logged_move hbefore.2 hbefore.1 hmove⟩
  exact (moves_of_step ikcp hstep).invariant hparts hserver

theorem room_and_logged_of_run {events : List (Event D)} {final : Server K}
    (hrun : run (step ikcp) (Server.start ikcp chatOpt) events = some final) :
    Room final ∧ Logged final :=
  run_invariant (fun _ _ _ hserver hstep ↦ room_and_logged_step hserver hstep)
    ⟨room_start chatOpt, logged_start rfl⟩ hrun

/-- The two sessions are members at the time of each of the calls in `span`, which follow those in
`front`. -/
def BothMembers (front span : List Call) (first second : ℕ) : Prop :=
  ∀ index < span.length, first ∈ membersAfter (front ++ span.take (index + 1)) ∧
    second ∈ membersAfter (front ++ span.take (index + 1))

instance decidableBothMembers (front span : List Call) (first second : ℕ) :
    Decidable (BothMembers front span first second) :=
  inferInstanceAs (Decidable (∀ index < span.length,
    first ∈ membersAfter (front ++ span.take (index + 1)) ∧
      second ∈ membersAfter (front ++ span.take (index + 1))))

/-- Between two steps `users_` holds the sessions that are stored in `sessions_`, each of them is
stored under its own conversation number and under no other key, and the texts passed to `Send` of a
session are those of the calls that notify it. In every part of the run in which two sessions are
both members, the texts passed to both are the same, one for each call of a handler in its order. -/
theorem chat_room_agreement {events : List (Event D)} {final : Server K}
    (hrun : run (step ikcp) (Server.start ikcp chatOpt) events = some final) :
    (∀ id, id ∈ final.users ↔ ∃ conv, final.sessions.lookup conv = some id) ∧
    (∀ conv id, final.sessions.lookup conv = some id → (final.objects id).opt.conv = conv ∧
      ∀ other, final.sessions.lookup other = some id → other = conv) ∧
    (∀ id, (final.objects id).sent = sentTo id final.calls) ∧
    ∀ front span back first second, final.calls = front ++ span ++ back →
      BothMembers front span first second →
      sentTo first span = sentTo second span ∧ sentTo first span = span.map Call.text := by
  obtain ⟨hroom, hlogged⟩ := room_and_logged_of_run hrun
  refine ⟨hroom.members, fun conv id hconv ↦ ⟨hroom.own conv id hconv, fun other hother ↦ ?_⟩,
    hlogged.sent, fun front span back first second hcalls hboth ↦ ?_⟩
  · exact (hroom.own other id hother).symm.trans (hroom.own conv id hconv)
  · have hnotified : ∀ call ∈ span, first ∈ call.users ∧ second ∈ call.users := by
      intro call hcall
      obtain ⟨earlier, later, rfl⟩ := List.append_of_mem hcall
      have husers := hlogged.notified (front ++ earlier) call (later ++ back)
        (by rw [hcalls]; simp)
      have hmembers := hboth earlier.length (by simp)
      rw [List.take_length_add_append, List.take_succ_cons, List.take_zero,
        ← List.append_assoc, ← husers] at hmembers
      exact hmembers
    have hfirst : sentTo first span = span.map Call.text :=
      sentTo_eq_map fun call hcall ↦ (hnotified call hcall).1
    have hsecond : sentTo second span = span.map Call.text :=
      sentTo_eq_map fun call hcall ↦ (hnotified call hcall).2
    exact ⟨hfirst.trans hsecond.symm, hfirst⟩

/-- Two clients join, and the first one says `hi`. -/
def smallTalk : List (Event Datagram) :=
  [.datagram ⟨segment 1 83 [], []⟩ ⟨10, 0, 0, 1, 7001⟩ (fun _ ↦ 100),
    .datagram ⟨segment 2 83 [], []⟩ ⟨10, 0, 0, 2, 7002⟩ (fun _ ↦ 101),
    .datagram ⟨segment 1 81 [104, 105], [[104, 105]]⟩ ⟨10, 0, 0, 1, 7001⟩ (fun _ ↦ 102),
    .tick [(1, 103), (2, 103)]]

theorem chat_room_agreement_smallTalk :
    ∃ final : Server Endpoint,
      run (step queueIkcp) (Server.start queueIkcp chatOpt) smallTalk = some final ∧
        final.calls.length = 3 ∧ sentTo 0 (final.calls.drop 1) = sentTo 1 (final.calls.drop 1) := by
  have hview : (run (step queueIkcp) (Server.start queueIkcp chatOpt) smallTalk).map
      (fun server ↦ server.calls) =
        some [⟨.join, 0, ⟨10, 0, 0, 1, 7001⟩, {0}⟩, ⟨.join, 1, ⟨10, 0, 0, 2, 7002⟩, {1, 0}⟩,
          ⟨.message [104, 105], 0, ⟨10, 0, 0, 1, 7001⟩, {1, 0}⟩] := by decide +kernel
  obtain ⟨final, hrun, hcalls⟩ := exists_of_view hview
  refine ⟨final, hrun, by rw [hcalls]; rfl, ?_⟩
  have hagree := (chat_room_agreement hrun).2.2.2 (final.calls.take 1) (final.calls.drop 1) [] 0 1
    (by rw [List.append_nil, List.take_append_drop]) (by rw [hcalls]; decide)
  exact hagree.1

end TestLinux.Kcp
