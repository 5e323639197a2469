import TestLinux.Reactor.Slots

/-!
# Responses whose file cannot be opened

`http_response` returns -1 when `open` fails, with the status already switched to the body and the
buffer and its length as the last piece of the header left them. `write_callback` does not look at
the return value: without an open file it sends the buffer, that is, bytes of the header once more,
and with one from an earlier call it goes on with `sendfile`.

`RefusedOnFailure` is the condition that the socket takes nothing in such a call. In these runs the
stream is not affected by failing `open`s (`Sending.writeCallback_of_refused`), and the next call
tries again. `failed_open_iff` says that the condition is also necessary for the callback to send
nothing; for that the buffer must not be empty, which is the invariant `Primed`.
-/

set_option autoImplicit false
set_option relaxedAutoImplicit false

namespace TestLinux.Reactor

open TestLinux.Runs TestLinux.Streams

/-! ### Calls with a failing `open` -/

/-- When `http_response` returns -1, `write_callback` sends nothing. -/
def QuietOnFailure (res : Resource) (session : Session) : Dispatch → Prop
  | .read _ => True
  | .write opened result => ∀ conn written,
    httpResponse res opened session.conn = some (-1, conn) →
    writeCallback res session.conn.fd opened result session.conn = some written →
    written.accepted = []

/-- The socket takes no bytes in a call whose `open` fails. -/
def RefusedOnFailure (res : Resource) (session : Session) : Dispatch → Prop
  | .write none (.accepts room) => opensFile res session.conn → room = 0
  | .write none .again => True
  | .write none .error => True
  | .write (some _) _ => True
  | .read _ => True

/-- Only a failing `open` makes `http_response` return -1. -/
theorem opensFile_of_failure {res : Resource} {conn loaded : Connection} {opened : Option ℕ}
    (hresponse : httpResponse res opened conn = some (-1, loaded)) :
    opensFile res conn ∧ opened = none ∧ loaded = switched res conn := by
  by_cases hopens : opensFile res conn
  · cases opened with
    | none =>
      rw [httpResponse_of_failed_open hopens, Option.some.injEq, Prod.mk.injEq] at hresponse
      exact ⟨hopens, rfl, hresponse.2.symm⟩
    | some filefd =>
      rw [httpResponse_of_opened hopens, Option.some.injEq, Prod.mk.injEq] at hresponse
      exact absurd hresponse.1 (by decide)
  · rw [httpResponse_of_not_opensFile hopens, Option.map_eq_some_iff] at hresponse
    obtain ⟨filled, -, heq⟩ := hresponse
    exact absurd (Prod.mk.inj heq).1 (by decide)

/-- A call in which the socket takes nothing. -/
theorem writeCallback_of_refused {res : Resource} {conn loaded : Connection} {fd : ℕ} {code : ℤ}
    {opened : Option ℕ} {result : SendResult}
    (hresponse : httpResponse res opened conn = some (code, loaded))
    (hresult : ∀ room, result = .accepts room → room = 0) :
    ∃ socket next, writeCallback res fd opened result conn = some ⟨loaded, socket, [], next⟩ ∧
      (next = .keep ∨ next = .close) := by
  rw [writeCallback, hresponse, Option.map_some]
  cases hfile : loaded.wFileFd with
  | none =>
    simp only [hfile]
    cases result with
    | again => exact ⟨fd, .keep, rfl, Or.inl rfl⟩
    | error => exact ⟨fd, .close, rfl, Or.inr rfl⟩
    | accepts room =>
      obtain rfl := hresult room rfl
      refine ⟨fd, .close, ?_, Or.inr rfl⟩
      rw [sendBuffer]
      simp
  | some filefd =>
    simp only [hfile]
    cases result with
    | again => exact ⟨loaded.fd, .keep, rfl, Or.inl rfl⟩
    | error => exact ⟨loaded.fd, .close, rfl, Or.inr rfl⟩
    | accepts room =>
      obtain rfl := hresult room rfl
      refine ⟨loaded.fd, .close, ?_, Or.inr rfl⟩
      rw [sendFile]
      simp

theorem RefusedOnFailure.accepts {res : Resource} {session : Session} {result : SendResult}
    (hrefused : RefusedOnFailure res session (.write none result))
    (hopens : opensFile res session.conn) : ∀ room, result = .accepts room → room = 0 := by
  rintro room rfl
  exact hrefused hopens

/-- `write_callback` is quiet if the socket takes nothing. -/
theorem quiet_of_refused {res : Resource} {session : Session} {dispatch : Dispatch}
    (hrefused : RefusedOnFailure res session dispatch) : QuietOnFailure res session dispatch := by
  cases dispatch with
  | read result => trivial
  | write opened result =>
    intro loaded written hresponse hcallback
    obtain ⟨hopens, rfl, -⟩ := opensFile_of_failure hresponse
    obtain ⟨socket, next, hrefusedCallback, -⟩ :=
      writeCallback_of_refused hresponse (hrefused.accepts hopens)
    rw [hcallback, Option.some.injEq] at hrefusedCallback
    rw [hrefusedCallback]

/-! ### The stream -/

theorem Sending.offset_of_opensFile {res : Resource} {conn : Connection} {offset : ℕ}
    (hconn : Sending res conn offset) (hopens : opensFile res conn) :
    offset = res.header.length := by
  have hoffset := hopens.1
  rw [startResponse_eq hconn.toProgress] at hoffset
  exact hconn.woffset.symm.trans hoffset

/-- After a failed `open` the next call is again at the end of the header. -/
theorem Sending.switched {res : Resource} {conn : Connection} {offset : ℕ}
    (hconn : Sending res conn offset) (hopens : opensFile res conn) :
    Sending res (switched res conn) offset := by
  have hoffset := hconn.offset_of_opensFile hopens
  have hswitched : Reactor.switched res conn = { conn with
      wtotallength := res.header.length + res.file.length
      wstatus := .body } := by
    rw [Reactor.switched, if_pos hopens.1, startResponse_eq hconn.toProgress]
  rw [hswitched]
  exact {
    hconn.toProgress.setTotal .body with
    inHeader := fun hheader ↦ absurd hoffset (Nat.ne_of_lt hheader)
    inBody := fun _ ↦ rfl
    notFinished := by
      change WStatus.body ≠ WStatus.finished
      decide }

/-- One call of `write_callback`, whatever `open` returns. -/
theorem Sending.writeCallback_of_refused {res : Resource} {session : Session} {offset : ℕ}
    {opened : Option ℕ} {result : SendResult} (hconn : Sending res session.conn offset)
    (hrefused : RefusedOnFailure res session (.write opened result)) :
    ∃ written, Reactor.writeCallback res session.conn.fd opened result session.conn =
      some written ∧ Advanced res offset written := by
  cases opened with
  | some filefd => exact hconn.writeCallback session.conn.fd filefd result
  | none =>
    by_cases hopens : opensFile res session.conn
    · obtain ⟨socket, next, hcallback, hnext⟩ := Reactor.writeCallback_of_refused
        (httpResponse_of_failed_open hopens) (hrefused.accepts hopens)
      exact ⟨_, hcallback, .waiting next hnext (hconn.switched hopens)⟩
    · obtain ⟨written, hcallback, hadvanced⟩ := hconn.writeCallback session.conn.fd 0 result
      refine ⟨written, ?_, hadvanced⟩
      rw [Reactor.writeCallback, httpResponse_of_not_opensFile hopens] at hcallback ⊢
      exact hcallback

theorem streaming_step_of_refused {res : Resource} {session next : Session} {dispatch : Dispatch}
    (hsession : Streaming res session) (hrefused : RefusedOnFailure res session dispatch)
    (hstep : session.step res dispatch = some next) : Streaming res next := by
  refine (hsession.step_of_advanced ?_ hstep).1
  rintro opened result offset rfl hconn
  exact hconn.writeCallback_of_refused hrefused

/-! ### What a failing call would send -/

/-- At the end of the header and without a file, the buffer still has bytes of the header. -/
def Primed (res : Resource) (conn : Connection) : Prop :=
  conn.woffset = res.header.length → conn.wFileFd = none →
    0 < conn.wlength ∧ conn.wbuffer ≠ []

theorem Loaded.primed {res : Resource} {conn : Connection} {offset : ℕ}
    (hconn : Loaded res conn offset) (hfile : conn.wFileFd = none) :
    0 < conn.wlength ∧ conn.wbuffer ≠ [] := by
  have hlength := hconn.length_pos hfile
  refine ⟨hlength, fun hnil ↦ ?_⟩
  have hbuffer := congrArg List.length (hconn.buffer hfile 1 hlength)
  have hunfinished := hconn.unfinished
  rw [hnil, List.take_nil, List.length_nil, List.length_take, List.length_drop,
    res.length_response] at hbuffer
  omega

/-- Unless it opens the file, `http_response` hands over a buffer with bytes in it. -/
theorem Sending.primed_httpResponse {res : Resource} {conn loaded : Connection} {offset : ℕ}
    {opened : Option ℕ} {code : ℤ} (hconn : Sending res conn offset) (hprimed : Primed res conn)
    (hresponse : Reactor.httpResponse res opened conn = some (code, loaded))
    (hfile : loaded.wFileFd = none) : 0 < loaded.wlength ∧ loaded.wbuffer ≠ [] := by
  have hloaded : ∀ filefd, Reactor.httpResponse res (some filefd) conn = some (code, loaded) →
      0 < loaded.wlength ∧ loaded.wbuffer ≠ [] := by
    intro filefd hsome
    obtain ⟨other, hother, hready⟩ := hconn.httpResponse filefd
    rw [hsome, Option.some.injEq, Prod.mk.injEq] at hother
    obtain ⟨-, rfl⟩ := hother
    exact hready.primed hfile
  cases opened with
  | some filefd => exact hloaded filefd hresponse
  | none =>
    by_cases hopens : opensFile res conn
    · rw [httpResponse_of_failed_open hopens, Option.some.injEq, Prod.mk.injEq, Reactor.switched,
        if_pos hopens.1, startResponse_eq hconn.toProgress] at hresponse
      obtain ⟨-, rfl⟩ := hresponse
      exact hprimed (hconn.woffset.trans (hconn.offset_of_opensFile hopens)) hfile
    · rw [httpResponse_of_not_opensFile hopens] at hresponse
      exact hloaded 0 (by rw [httpResponse_of_not_opensFile hopens, hresponse])

theorem accepted_switchEvent (conn : Connection) (socket : ℕ) (accepted : List UInt8) :
    (switchEvent conn socket accepted).accepted = accepted := by
  simp only [switchEvent]
  split_ifs <;> rfl

theorem switchEvent_of_keep {conn : Connection} {socket : ℕ} {accepted : List UInt8}
    (hkeep : (switchEvent conn socket accepted).next = .keep) :
    (switchEvent conn socket accepted).conn = conn := by
  by_cases hend : conn.wstatus = .body ∧ conn.woffset = conn.wtotallength
  · simp [switchEvent, hend] at hkeep
  · by_cases hfinished : conn.wstatus = .finished
    · simp [switchEvent, hfinished] at hkeep
    · simp only [switchEvent, if_neg hend, if_neg hfinished]

/-- As long as the response goes on, the sending code only moves the offsets. -/
theorem conn_of_keep {res : Resource} {conn loaded : Connection} {fd : ℕ} {code : ℤ}
    {opened : Option ℕ} {result : SendResult} {written : Written}
    (hresponse : httpResponse res opened conn = some (code, loaded))
    (hcallback : writeCallback res fd opened result conn = some written)
    (hkeep : written.next = .keep) :
    ∃ woffset wfileOffset,
      written.conn = { loaded with woffset := woffset, wfileOffset := wfileOffset } := by
  rw [writeCallback, hresponse, Option.map_some, Option.some.injEq] at hcallback
  subst hcallback
  cases hfile : loaded.wFileFd with
  | none =>
    simp only [hfile] at hkeep ⊢
    cases result with
    | again => exact ⟨loaded.woffset, loaded.wfileOffset, by rw [← hfile]; rfl⟩
    | error => exact absurd hkeep (by simp [sendBuffer])
    | accepts room =>
      simp only [sendBuffer] at hkeep ⊢
      split_ifs at hkeep ⊢
      rw [switchEvent_of_keep hkeep]
      exact ⟨_, loaded.wfileOffset, by rw [← hfile]⟩
  | some filefd =>
    simp only [hfile] at hkeep ⊢
    cases result with
    | again => exact ⟨loaded.woffset, loaded.wfileOffset, by rw [← hfile]; rfl⟩
    | error => exact absurd hkeep (by simp [sendFile])
    | accepts room =>
      simp only [sendFile] at hkeep ⊢
      split_ifs at hkeep ⊢
      rw [switchEvent_of_keep hkeep]
      exact ⟨_, _, by rw [← hfile]⟩

/-- With bytes at hand, a socket that has room takes some in a call whose `open` fails. -/
theorem Sending.accepted_ne_nil {res : Resource} {conn : Connection} {offset room fd : ℕ}
    {written : Written} (hconn : Sending res conn offset) (hprimed : Primed res conn)
    (hopens : opensFile res conn) (hroom : room ≠ 0)
    (hcallback : Reactor.writeCallback res fd none (.accepts room) conn = some written) :
    written.accepted ≠ [] := by
  have hresponse := httpResponse_of_failed_open hopens
  have hoffset := hconn.offset_of_opensFile hopens
  have hsending := hconn.switched hopens
  have hpos := res.file_pos
  rw [Reactor.writeCallback, hresponse, Option.map_some, Option.some.injEq] at hcallback
  cases hfile : (Reactor.switched res conn).wFileFd with
  | none =>
    obtain ⟨hlength, hbuffer⟩ := hconn.primed_httpResponse hprimed hresponse hfile
    have hsome : min room (Reactor.switched res conn).wlength ≠ 0 := by omega
    simp only [hfile, sendBuffer, if_neg hsome] at hcallback
    rw [← hcallback, accepted_switchEvent, ne_eq, List.take_eq_nil_iff, not_or]
    exact ⟨hsome, hbuffer⟩
  | some filefd =>
    have hfileOffset := hsending.fileOffset (hfile ▸ Option.some_ne_none _)
    rw [hoffset, Nat.sub_self] at hfileOffset
    have hleft : (Reactor.switched res conn).wtotallength -
        (Reactor.switched res conn).woffset = res.file.length := by
      rw [hsending.woffset, hoffset, Reactor.switched, if_pos hopens.1,
        startResponse_eq hconn.toProgress]
      exact Nat.add_sub_cancel_left _ _
    have hsome : min room res.file.length ≠ 0 := by omega
    simp only [hfile, Reactor.sendFile, hleft, if_neg hsome, hfileOffset, List.drop_zero]
      at hcallback
    rw [← hcallback, accepted_switchEvent, ne_eq, List.take_eq_nil_iff, not_or]
    exact ⟨hsome, List.ne_nil_of_length_pos hpos⟩

/-! ### Runs -/

/-- The invariant of a session whose `open` may fail. -/
structure Serving (res : Resource) (session : Session) : Prop where
  streaming : Streaming res session
  primed : session.interest = some .send → Primed res session.conn

theorem woffset_readCallback (result : RecvResult) (conn : Connection) :
    (readCallback result conn).1.woffset = conn.woffset := by
  cases result with
  | again => rfl
  | error => rfl
  | received data =>
    simp only [readCallback]
    split_ifs <;> rfl

/-- A response starts in front of its header. -/
theorem Streaming.primed_afterRead {res : Resource} {session : Session}
    (hsession : Streaming res session) (hinterest : session.interest = some .recv)
    (result : RecvResult) : Primed res (session.afterRead result).conn := by
  intro hoffset
  have hzero := (hsession.receiving hinterest).1.woffset
  have hpos := res.header_pos
  change (readCallback result session.conn).1.woffset = _ at hoffset
  rw [woffset_readCallback, hzero] at hoffset
  omega

theorem Advanced.next_of_send {res : Resource} {offset : ℕ} {written : Written}
    (hadvanced : Advanced res offset written)
    (hsend : written.next.apply (some .send) = some .send) : written.next = .keep := by
  cases hadvanced with
  | waiting next hnext hlater =>
    rcases hnext with rfl | rfl
    · rfl
    · exact absurd hsend (by simp [Next.apply])
  | sent count hlater => rfl
  | finished count hlater hcount => exact absurd hsend (by simp [Next.apply])

theorem serving_step {res : Resource} {session next : Session} {dispatch : Dispatch}
    (hsession : Serving res session) (hrefused : RefusedOnFailure res session dispatch)
    (hstep : session.step res dispatch = some next) : Serving res next := by
  refine ⟨streaming_step_of_refused hsession.streaming hrefused hstep, fun hsend ↦ ?_⟩
  cases dispatch with
  | read result =>
    rw [Session.step, Option.ite_none_right_eq_some] at hstep
    obtain ⟨⟨hinterest, -⟩, hnext⟩ := hstep
    obtain rfl := Option.some.inj hnext
    exact hsession.streaming.primed_afterRead hinterest result
  | write opened result =>
    rw [Session.step, Option.ite_none_right_eq_some] at hstep
    obtain ⟨hinterest, hwritten⟩ := hstep
    obtain ⟨count, offset, -, hconn, -⟩ := hsession.streaming.sending hinterest
    obtain ⟨written, hcallback, hadvanced⟩ := hconn.writeCallback_of_refused hrefused
    rw [hcallback] at hwritten
    obtain rfl := Option.some.inj hwritten
    change written.next.apply session.interest = some .send at hsend
    rw [hinterest] at hsend
    obtain ⟨⟨code, loaded⟩, hresponse, -⟩ := Option.map_eq_some_iff.mp hcallback
    obtain ⟨woffset, wfileOffset, hlater⟩ :=
      conn_of_keep hresponse hcallback (hadvanced.next_of_send hsend)
    have hprimed := hconn.primed_httpResponse (hsession.primed hinterest) hresponse
    change Primed res written.conn
    rw [hlater]
    exact fun _ hfile ↦ hprimed hfile

/-- A quiet call whose `open` fails is one in which the socket takes nothing. -/
theorem refused_of_quiet {res : Resource} {session next : Session} {dispatch : Dispatch}
    (hsession : Serving res session) (hquiet : QuietOnFailure res session dispatch)
    (hstep : session.step res dispatch = some next) : RefusedOnFailure res session dispatch := by
  cases dispatch with
  | read result => trivial
  | write opened result =>
    cases opened with
    | some filefd => trivial
    | none =>
      cases result with
      | again => trivial
      | error => trivial
      | accepts room =>
        intro hopens
        by_contra hroom
        rw [Session.step, Option.ite_none_right_eq_some] at hstep
        obtain ⟨hinterest, hwritten⟩ := hstep
        obtain ⟨written, hcallback, -⟩ := Option.map_eq_some_iff.mp hwritten
        obtain ⟨count, offset, -, hconn, -⟩ := hsession.streaming.sending hinterest
        have haccepted := hquiet _ written (httpResponse_of_failed_open hopens) hcallback
        exact hconn.accepted_ne_nil (hsession.primed hinterest) hopens hroom hcallback haccepted

theorem serving_start (res : Resource) {conn : Connection} (hconn : conn.WriteReset) :
    Serving res ⟨conn, some .recv, [], 0⟩ where
  streaming := .of_receiving rfl (hconn.progress res) rfl
  primed := fun hsend ↦ absurd hsend (by simp)

/-- In every run of one connection, the stream stays a prefix of the response repeated once for
each request, and `write_callback` sends nothing in the calls in which `http_response` returns -1,
exactly if the socket takes nothing in the calls whose `open` fails. Assumes: the connection starts
in a slot as `reset_w` leaves it. -/
theorem failed_open_iff (res : Resource) {conn : Connection} (hconn : conn.WriteReset)
    {events : List Dispatch} {final : Session}
    (hrun : run (Session.step res) ⟨conn, some .recv, [], 0⟩ events = some final) :
    (Throughout (Session.step res)
        (fun session ↦ session.sent <+: repeated session.requests res.response)
        ⟨conn, some .recv, [], 0⟩ events ∧
      Along (Session.step res) (QuietOnFailure res) ⟨conn, some .recv, [], 0⟩ events) ↔
      Along (Session.step res) (RefusedOnFailure res) ⟨conn, some .recv, [], 0⟩ events := by
  have hstart := serving_start res hconn
  have hserving : ∀ session dispatch next, Serving res session →
      RefusedOnFailure res session dispatch → session.step res dispatch = some next →
      Serving res next := fun _ _ _ ↦ serving_step
  constructor
  · rintro ⟨-, hquiet⟩
    have hrefused : ∀ session dispatch next, Serving res session →
        QuietOnFailure res session dispatch → session.step res dispatch = some next →
        RefusedOnFailure res session dispatch := fun _ _ _ ↦ refused_of_quiet
    exact hquiet.of_invariant (fun session dispatch next hsession hcall hstep ↦
      hserving session dispatch next hsession (hrefused _ _ _ hsession hcall hstep) hstep)
      hrefused hstart hrun
  · intro hrefused
    refine ⟨fun first hfirst middle hmiddle ↦ ?_, ?_⟩
    · exact (hrefused.throughout hserving hstart first hfirst middle hmiddle).streaming.isPrefix
    · exact hrefused.of_invariant hserving
        (fun _ _ _ _ hcall _ ↦ quiet_of_refused hcall) hstart hrun

instance decidableRefusedOnFailure (res : Resource) (session : Session) :
    ∀ dispatch, Decidable (RefusedOnFailure res session dispatch)
  | .write none (.accepts room) =>
    inferInstanceAs (Decidable (opensFile res session.conn → room = 0))
  | .write none .again => isTrue trivial
  | .write none .error => isTrue trivial
  | .write (some _) _ => isTrue trivial
  | .read _ => isTrue trivial

/-- The header is sent in two pieces, `open` fails while the socket is full, and the file is sent
after the next `open`. -/
def secondAttempt : List Dispatch :=
  [.read (.received [65]), .write none (.accepts 80), .write none (.accepts 80),
    .write none .again, .write (some 9) (.accepts 1000)]

theorem failed_open_iff_secondAttempt :
    ∃ final, run (Session.step imageResource) ⟨.unused, some .recv, [], 0⟩ secondAttempt =
        some final ∧
      final.sent.length = 1085 ∧ final.sent <+: repeated final.requests imageResource.response := by
  have hview : (run (Session.step imageResource) ⟨.unused, some .recv, [], 0⟩ secondAttempt).map
      (fun session ↦ session.sent.length) = some 1085 := by decide +kernel
  obtain ⟨final, hrun, hlength⟩ := exists_of_view hview
  have hrefused : Along (Session.step imageResource) (RefusedOnFailure imageResource)
      ⟨.unused, some .recv, [], 0⟩ secondAttempt := by decide +kernel
  have hstream := (failed_open_iff imageResource writeReset_unused hrun).mpr hrefused
  exact ⟨final, hrun, hlength, hstream.1 secondAttempt List.prefix_rfl final hrun⟩

/-- The header is sent in two pieces, and `open` fails while the socket has room. -/
def failingAttempt : List Dispatch :=
  [.read (.received [65]), .write none (.accepts 80), .write none (.accepts 80),
    .write none (.accepts 80)]

/-- The failure: with `open` failing, the last five bytes of the header are sent a second time. -/
theorem header_sent_twice :
    imageResource.Long ∧
      ∃ final, run (Session.step imageResource) ⟨.unused, some .recv, [], 0⟩ failingAttempt =
          some final ∧
        final.requests = 1 ∧ final.sent.length = 90 ∧
        ¬ final.sent <+: repeated final.requests imageResource.response := by
  have hlong : imageResource.Long := by
    rw [Resource.Long]
    decide +kernel
  have hview : (run (Session.step imageResource) ⟨.unused, some .recv, [], 0⟩ failingAttempt).map
      (fun session ↦ (session.requests, session.sent.length,
        decide (session.sent <+: repeated session.requests imageResource.response))) =
      some (1, 90, false) := by decide +kernel
  obtain ⟨final, hrun, hseen⟩ := exists_of_view hview
  obtain ⟨hrequests, hrest⟩ := Prod.mk.inj hseen
  obtain ⟨hlength, hprefix⟩ := Prod.mk.inj hrest
  exact ⟨hlong, final, hrun, hrequests, hlength, of_decide_eq_false hprefix⟩

end TestLinux.Reactor
