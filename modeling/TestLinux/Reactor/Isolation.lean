import TestLinux.Reactor.Stream

/-!
# The streams of the whole reactor

The array `conns` is indexed by descriptors, and a slot outlives the socket that used it.
`State.session` reads the session of a descriptor off the state of the reactor. An event of a client
is a `Session.step` of its session and leaves all the others alone (`client_step`), so the result
for one connection carries over; an accept starts a new session on an old slot
(`session_afterAccept`).

The exits of `write_callback` that close the socket do not call `reset_w`, and neither does
`register_clinetfd`, so a new connection inherits the offset at which the last owner of its slot
stopped. `CleanAccept` is the condition that this offset is zero: the slot is new, its last response
was complete, or no byte of it had been taken. `streams_isolated` says that in every run that
accepts only such descriptors each stream is a prefix of the response repeated;
`inherited_offset_sent` is a run in which a connection gets the response from its second byte on.
-/

set_option autoImplicit false
set_option relaxedAutoImplicit false

namespace TestLinux.Reactor

open TestLinux.Runs TestLinux.Streams

/-! ### Sessions of the reactor -/

/-- The session of a descriptor. -/
def State.session (state : State) (fd : ℕ) : Session :=
  ⟨state.conns fd, state.interest fd, state.sent fd, state.requests fd⟩

theorem session_afterAccept (state : State) (clientfd : ℕ) :
    (state.afterAccept clientfd).session = Function.update state.session clientfd
      ⟨registerClinetfd clientfd (state.conns clientfd), some .recv, [], 0⟩ := by
  funext fd
  by_cases hfd : fd = clientfd
  · subst hfd
    simp [State.session, State.afterAccept]
  · simp [State.session, State.afterAccept, Function.update_of_ne hfd]

theorem session_afterRead (state : State) (client : ℕ) (result : RecvResult) :
    (state.afterRead client result).session = Function.update state.session client
      ((state.session client).afterRead result) := by
  funext fd
  by_cases hfd : fd = client
  · subst hfd
    simp [State.session, State.afterRead, Session.afterRead]
  · simp [State.session, State.afterRead, Function.update_of_ne hfd]

/-- `write_callback` changes one session, provided that it writes to the socket of the slot. -/
theorem session_afterWrite {res : Resource} {state : State} {client : ℕ} {written : Written}
    (opened : Option ℕ) (hsocket : written.socket = client) :
    (state.afterWrite res client opened written).session = Function.update state.session client
      ((state.session client).afterWrite written) := by
  funext fd
  by_cases hfd : fd = client
  · subst hfd
    simp [State.session, State.afterWrite, Session.afterWrite, hsocket]
  · simp [State.session, State.afterWrite, hsocket, Function.update_of_ne hfd]

/-! ### The slot of a socket keeps its descriptor -/

theorem fd_readCallback (result : RecvResult) (conn : Connection) :
    (readCallback result conn).1.fd = conn.fd := by
  cases result with
  | again => rfl
  | error => rfl
  | received data =>
    simp only [readCallback]
    split_ifs <;> rfl

theorem Connection.fd_resetW (conn : Connection) : conn.resetW.fd = conn.fd := by
  cases hfile : conn.wFileFd <;> simp [Connection.resetW, hfile]

theorem fd_startResponse (res : Resource) (conn : Connection) :
    (startResponse res conn).fd = conn.fd := by
  unfold startResponse
  split_ifs <;> rfl

theorem fd_fillBuffer {res : Resource} {conn loaded : Connection}
    (hfill : fillBuffer res conn = some loaded) : loaded.fd = conn.fd := by
  unfold fillBuffer at hfill
  split at hfill
  · rw [copyHeader, Option.ite_none_left_eq_some] at hfill
    rw [← Option.some.inj hfill.2]
  · rw [copyBody, Option.ite_none_left_eq_some] at hfill
    rw [← Option.some.inj hfill.2]
  · rw [Option.some.inj hfill]

theorem fd_httpResponse {res : Resource} {opened : Option ℕ} {conn : Connection}
    {returned : ℤ × Connection} (hresponse : httpResponse res opened conn = some returned) :
    returned.2.fd = conn.fd := by
  have hstart := fd_startResponse res conn
  have hfilled : ∀ before : Connection,
      (fillBuffer res before).map (fun conn ↦ ((0 : ℤ), conn)) = some returned →
      before.fd = conn.fd → returned.2.fd = conn.fd := by
    intro before hmap hbefore
    obtain ⟨loaded, hfill, rfl⟩ := Option.map_eq_some_iff.mp hmap
    exact (fd_fillBuffer hfill).trans hbefore
  unfold httpResponse at hresponse
  simp only at hresponse
  split_ifs at hresponse with hswitch hlong
  · cases opened with
    | none => exact Option.some.inj hresponse ▸ hstart
    | some filefd => exact Option.some.inj hresponse ▸ hstart
  · exact hfilled _ hresponse hstart
  · exact hfilled _ hresponse hstart

theorem switchEvent_socket (conn : Connection) (socket : ℕ) (accepted : List UInt8) :
    (switchEvent conn socket accepted).socket = socket ∧
      (switchEvent conn socket accepted).conn.fd = conn.fd := by
  by_cases hend : conn.wstatus = .body ∧ conn.woffset = conn.wtotallength
  · simp [switchEvent, hend, Connection.fd_resetW]
  · by_cases hfinished : conn.wstatus = .finished
    · simp [switchEvent, hfinished, Connection.fd_resetW]
    · simp only [switchEvent, if_neg hend, if_neg hfinished, and_self]

theorem sendBuffer_socket (fd : ℕ) (result : SendResult) (conn : Connection) :
    (sendBuffer fd result conn).socket = fd ∧
      (sendBuffer fd result conn).conn.fd = conn.fd := by
  cases result with
  | again => exact ⟨rfl, rfl⟩
  | error => exact ⟨rfl, rfl⟩
  | accepts room =>
    simp only [sendBuffer]
    split_ifs with hzero
    · exact ⟨rfl, rfl⟩
    · exact switchEvent_socket _ _ _

theorem sendFile_socket (res : Resource) (result : SendResult) (conn : Connection) :
    (sendFile res result conn).socket = conn.fd ∧
      (sendFile res result conn).conn.fd = conn.fd := by
  cases result with
  | again => exact ⟨rfl, rfl⟩
  | error => exact ⟨rfl, rfl⟩
  | accepts room =>
    simp only [sendFile]
    split_ifs with hzero
    · exact ⟨rfl, rfl⟩
    · exact switchEvent_socket _ _ _

/-- `write_callback` writes to the socket it is called for, although one branch takes the socket
from the slot. Assumes: the slot is the one of that socket. -/
theorem writeCallback_socket {res : Resource} {fd : ℕ} {opened : Option ℕ} {result : SendResult}
    {conn : Connection} {written : Written} (hfd : conn.fd = fd)
    (hcallback : writeCallback res fd opened result conn = some written) :
    written.socket = fd ∧ written.conn.fd = fd := by
  obtain ⟨⟨code, loaded⟩, hresponse, rfl⟩ := Option.map_eq_some_iff.mp hcallback
  have hloaded : loaded.fd = fd := (fd_httpResponse hresponse).trans hfd
  cases hfile : loaded.wFileFd with
  | none =>
    simp only [hfile]
    rw [← hloaded]
    exact sendBuffer_socket _ _ _
  | some _ =>
    simp only [hfile]
    rw [← hloaded]
    exact sendFile_socket _ _ _

/-- An event of a client is an event of its session, and leaves the other sessions and the past
streams alone. Assumes: while the socket is open, its slot has its descriptor. -/
theorem client_step {res : Resource} {state next : State} {fd : ℕ} {dispatch : Dispatch}
    (hregistered : state.interest fd ≠ none → (state.conns fd).fd = fd)
    (hstep : Transition res state (.client fd dispatch) next) :
    ∃ session, (state.session fd).step res dispatch = some session ∧ session.conn.fd = fd ∧
      next.session = Function.update state.session fd session ∧ next.past = state.past := by
  cases hstep with
  | @read _ result hinterest hcount =>
    have hfd := hregistered (hinterest ▸ Option.some_ne_none _)
    refine ⟨(state.session fd).afterRead result, if_pos ⟨hinterest, hcount⟩, ?_,
      session_afterRead state fd result, rfl⟩
    exact (fd_readCallback result (state.conns fd)).trans hfd
  | @write _ opened result written hinterest hopened hcallback =>
    have hfd := hregistered (hinterest ▸ Option.some_ne_none _)
    obtain ⟨hsocket, hslot⟩ := writeCallback_socket hfd hcallback
    refine ⟨(state.session fd).afterWrite written, ?_, hslot,
      session_afterWrite opened hsocket, rfl⟩
    have hsession : writeCallback res (state.session fd).conn.fd opened result
        (state.session fd).conn = some written := by
      rw [← hcallback]
      exact congrArg (fun socket ↦ writeCallback res socket opened result (state.conns fd)) hfd
    rw [Session.step, if_pos (show (state.session fd).interest = some .send from hinterest),
      hsession, Option.map_some]

/-! ### The invariant of the reactor -/

/-- Every open socket is in its own slot, and every stream is one of responses. -/
structure Isolated (res : Resource) (state : State) : Prop where
  registered : ∀ fd, state.interest fd ≠ none → (state.conns fd).fd = fd
  streaming : ∀ fd, Streaming res (state.session fd)
  past : ∀ stream ∈ state.past, ∃ count, stream <+: repeated count res.response

/-- The slot of an accepted descriptor has no bytes of an unfinished response behind it. -/
def CleanAccept (state : State) : Event → Prop
  | .listen _ (.accepted clientfd) => (state.conns clientfd).woffset = 0
  | .listen _ .again => True
  | .listen _ .error => True
  | .client _ _ => True

instance decidableCleanAccept (state : State) : ∀ event, Decidable (CleanAccept state event)
  | .listen _ (.accepted clientfd) =>
    inferInstanceAs (Decidable ((state.conns clientfd).woffset = 0))
  | .listen _ .again => isTrue trivial
  | .listen _ .error => isTrue trivial
  | .client _ _ => isTrue trivial

theorem writeReset_unused : Connection.unused.WriteReset := ⟨rfl, rfl, rfl, rfl, rfl, rfl⟩

theorem interest_start_self (listenfd : ℕ) :
    (State.start listenfd).interest listenfd = some .recv := by
  simp [State.start]

theorem interest_start_of_ne {listenfd fd : ℕ} (hfd : fd ≠ listenfd) :
    (State.start listenfd).interest fd = none := by
  simp [State.start, hfd]

theorem isolated_start (res : Resource) (listenfd : ℕ) : Isolated res (State.start listenfd) where
  registered := fun fd hopen ↦ by
    by_cases hfd : fd = listenfd
    · subst hfd
      simp [State.start]
    · exact absurd (interest_start_of_ne hfd) hopen
  streaming := fun fd ↦ by
    have hunused := writeReset_unused.progress res
    by_cases hfd : fd = listenfd
    · subst hfd
      refine .of_receiving (interest_start_self fd) ?_ rfl
      simp only [State.session, State.start, Function.update_self]
      exact { hunused with }
    · have hslot : ((State.start listenfd).session fd).conn = .unused := by
        simp only [State.session, State.start, Function.update_of_ne hfd]
      rw [← hslot] at hunused
      exact .of_closed (interest_start_of_ne hfd) hunused List.prefix_rfl
  past := fun _ hmem ↦ absurd hmem List.not_mem_nil

theorem isolated_afterAccept {res : Resource} {state : State} {clientfd : ℕ}
    (hstate : Isolated res state) (hunopened : state.Unopened clientfd)
    (hclean : (state.conns clientfd).woffset = 0) :
    Isolated res (state.afterAccept clientfd) where
  registered := fun fd hopen ↦ by
    by_cases hfd : fd = clientfd
    · subst hfd
      simp [State.afterAccept, registerClinetfd]
    · simp only [State.afterAccept, Function.update_of_ne hfd] at hopen ⊢
      exact hstate.registered fd hopen
  streaming := fun fd ↦ by
    rw [session_afterAccept]
    by_cases hfd : fd = clientfd
    · subst hfd
      rw [Function.update_self]
      obtain ⟨⟨offset, hconn⟩, -⟩ := (hstate.streaming fd).closed hunopened.1
      obtain rfl : offset = 0 := hconn.woffset.symm.trans hclean
      exact .of_receiving rfl { hconn with } rfl
    · rw [Function.update_of_ne hfd]
      exact hstate.streaming fd
  past := fun stream hmem ↦ by
    rcases List.mem_append.mp hmem with hold | hnew
    · exact hstate.past stream hold
    · rw [List.mem_singleton.mp hnew]
      exact ⟨_, (hstate.streaming clientfd).isPrefix⟩

/-- An event on one client that keeps its slot and its stream in order. -/
theorem Isolated.update {res : Resource} {state next : State} {client : ℕ} {session : Session}
    (hstate : Isolated res state)
    (hsession : next.session = Function.update state.session client session)
    (hpast : next.past = state.past) (hfd : session.conn.fd = client)
    (hstreaming : Streaming res session) : Isolated res next where
  registered := fun fd hopen ↦ by
    have hat := congrFun hsession fd
    by_cases heq : fd = client
    · subst heq
      rw [Function.update_self] at hat
      rw [← hat] at hfd
      exact hfd
    · rw [Function.update_of_ne heq] at hat
      have hconn : next.conns fd = state.conns fd := congrArg Session.conn hat
      have hinterest : next.interest fd = state.interest fd := congrArg Session.interest hat
      rw [hconn]
      exact hstate.registered fd (hinterest ▸ hopen)
  streaming := fun fd ↦ by
    rw [hsession]
    by_cases heq : fd = client
    · subst heq
      rw [Function.update_self]
      exact hstreaming
    · rw [Function.update_of_ne heq]
      exact hstate.streaming fd
  past := fun stream hmem ↦ hstate.past stream (hpast ▸ hmem)

theorem isolated_step {res : Resource} {state next : State} {event : Event}
    (hstate : Isolated res state) (hclean : CleanAccept state event) (hopen : event.OpenSucceeds)
    (hstep : step res state event = some next) : Isolated res next := by
  have htransition := transition_of_step hstep
  cases event with
  | listen fd result =>
    cases htransition with
    | idle => exact hstate
    | accept hunopened => exact isolated_afterAccept hstate hunopened hclean
  | client fd dispatch =>
    obtain ⟨session, hsession, hfd, hupdate, hpast⟩ :=
      client_step (hstate.registered fd) htransition
    exact hstate.update hupdate hpast hfd (streaming_step (hstate.streaming fd) hopen hsession).1

/-! ### Streams of accepted connections -/

/-- The streams of all connections, present and past, are prefixes of the response repeated, and no
`write_callback` leaves the cached data. Assumes: every `open` succeeds, and every accepted
descriptor has a slot whose `woffset` is zero. -/
theorem streams_isolated (res : Resource) (listenfd : ℕ) {events : List Event} {final : State}
    (hopen : ∀ event ∈ events, event.OpenSucceeds)
    (hclean : Along (step res) CleanAccept (State.start listenfd) events)
    (hrun : run (step res) (State.start listenfd) events = some final) :
    (∀ fd, ∃ count, final.sent fd <+: repeated count res.response) ∧
      (∀ stream ∈ final.past, ∃ count, stream <+: repeated count res.response) ∧
      ∀ fd, final.interest fd = some .send → ∀ filefd result, ∃ written,
        writeCallback res fd (some filefd) result (final.conns fd) = some written := by
  have hfinal : Isolated res final :=
    run_invariant_along (fun state event next hstate hallowed hstep ↦
      isolated_step hstate hallowed.1 hallowed.2 hstep) (isolated_start res listenfd)
      (hclean.and (along_of_forall (fun event hmem _ ↦ hopen event hmem) _)) hrun
  refine ⟨fun fd ↦ ⟨_, (hfinal.streaming fd).isPrefix⟩, hfinal.past,
    fun fd hinterest filefd result ↦ ?_⟩
  obtain ⟨count, offset, -, hconn, -⟩ := (hfinal.streaming fd).sending hinterest
  obtain ⟨written, hcallback, -⟩ := hconn.writeCallback fd filefd result
  exact ⟨written, hcallback⟩

/-- A file of one byte with the header of the source. -/
def byteResource : Resource := .ofFile [7] (by decide) (by decide)

/-- A connection is answered completely and closed, and its descriptor is used again. -/
def orderlySchedule : List Event :=
  [.listen 3 (.accepted 5), .client 5 (.read (.received [65])),
    .client 5 (.write (some 9) (.accepts 100)), .client 5 (.write (some 9) (.accepts 100)),
    .client 5 (.read (.received [])), .listen 3 (.accepted 5), .client 5 (.read (.received [65])),
    .client 5 (.write (some 9) (.accepts 1))]

theorem streams_isolated_orderlySchedule :
    ∃ final, run (step byteResource) (State.start 3) orderlySchedule = some final ∧
      final.sent 5 = [72] ∧ ∃ count, final.sent 5 <+: repeated count byteResource.response := by
  have hview : (run (step byteResource) (State.start 3) orderlySchedule).map
      (fun state ↦ state.sent 5) = some [72] := by decide +kernel
  obtain ⟨final, hrun, hsent⟩ := exists_of_view hview
  have hopen : ∀ event ∈ orderlySchedule, event.OpenSucceeds := by
    simp [orderlySchedule, Event.OpenSucceeds, Dispatch.OpenSucceeds]
  have hclean : Along (step byteResource) CleanAccept (State.start 3) orderlySchedule := by
    decide +kernel
  exact ⟨final, hrun, hsent, (streams_isolated byteResource 3 hopen hclean hrun).1 5⟩

/-- A peer disconnects after the first byte of its response, and its descriptor is used again. -/
def reuseSchedule : List Event :=
  [.listen 3 (.accepted 5), .client 5 (.read (.received [65])),
    .client 5 (.write (some 9) (.accepts 1)), .client 5 (.write (some 9) .error),
    .listen 3 (.accepted 5), .client 5 (.read (.received [65])),
    .client 5 (.write (some 9) (.accepts 1))]

/-- The failure: the second connection on the descriptor gets the response from its second byte
on. -/
theorem inherited_offset_sent :
    (∀ event ∈ reuseSchedule, event.OpenSucceeds) ∧
      ∃ final, run (step byteResource) (State.start 3) reuseSchedule = some final ∧
        final.sent 5 = [84] ∧
        ¬ ∃ count, final.sent 5 <+: repeated count byteResource.response := by
  refine ⟨by simp [reuseSchedule, Event.OpenSucceeds, Dispatch.OpenSucceeds], ?_⟩
  have hview : (run (step byteResource) (State.start 3) reuseSchedule).map
      (fun state ↦ state.sent 5) = some [84] := by decide +kernel
  obtain ⟨final, hrun, hsent⟩ := exists_of_view hview
  refine ⟨final, hrun, hsent, ?_⟩
  rintro ⟨count, hstream⟩
  rw [hsent] at hstream
  have hfirst := head?_of_prefix_repeated hstream rfl byteResource.response_ne_nil
  exact absurd hfirst (by decide +kernel)

end TestLinux.Reactor
