import TestLinux.Library.Runs
import TestLinux.Library.Streams
import TestLinux.Library.Wire
import Mathlib.Logic.Function.Basic

/-!
# The reactor of `test8/reactor.cpp` and `test8/webserver.cpp`

`Connection` is `test8::connection`; `resetW`, `httpRequest`, `httpResponse`, `readCallback`,
`writeCallback`, `registerClinetfd` and `listenCallback` are the functions of the same names. What
the kernel answers to `accept`, `recv`, `open`, `send` and `sendfile` is part of the event that
calls them: `SendResult.accepts room` is a socket with room for `room` bytes, of which a call takes
as many as it offers, so that every count that the call can return is the answer to some room.

`httpResponse` and `writeCallback` return `none` where the source calls `memcpy` with a length that
is negative as an `int`, or reads outside the cached file: the process does not continue from there.

A `Session` is one slot of `conns` with the events that epoll watches for it, the bytes its socket
has taken and the number of requests it has read; no function reads the last two. `Session.step` is
the dispatch of one event of that slot. `State` is the whole reactor: the array `conns`, the epoll
set, the descriptors that `http_response` opened and has not closed, and the streams. Its `step`
dispatches any event of any descriptor and lets `accept` hand out every descriptor that is not open,
also one that was open before; `Transition` lists what such an event can do.

The cached header and file are loaded by the first call of `http_response` and never change
afterwards; they are the `Resource` that every function here is given, and `Resource.ofFile` is the
one that the loading code builds from a file.
-/

set_option autoImplicit false
set_option relaxedAutoImplicit false

namespace TestLinux.Reactor

open TestLinux.Streams TestLinux.Wire

/-! ### The connection -/

/-- `BUFFER_LENGTH`. -/
def bufferLength : ℕ := 1024

/-- The values 0, 1 and 2 of `wstatus`. -/
inductive WStatus
  | header
  | body
  | finished
  deriving DecidableEq

/-- The functions stored in `recv_cb` and `send_cb`. -/
inductive Handler
  | listenCallback
  | readCallback
  | writeCallback
  deriving DecidableEq

/-- `test8::connection`. No file is open when `wFileFd` is `none`, the -1 of the source. -/
structure Connection where
  fd : ℕ
  rbuffer : List UInt8
  rlength : ℕ
  wbuffer : List UInt8
  wlength : ℕ
  wstatus : WStatus
  woffset : ℕ
  wtotallength : ℕ
  wFileFd : Option ℕ
  wfileOffset : ℕ
  sendCb : Option Handler
  recvCb : Option Handler
  deriving DecidableEq

/-- A slot of `conns` before its first use. -/
def Connection.unused : Connection where
  fd := 0
  rbuffer := List.replicate bufferLength 0
  rlength := 0
  wbuffer := List.replicate bufferLength 0
  wlength := 0
  wstatus := .header
  woffset := 0
  wtotallength := 0
  wFileFd := none
  wfileOffset := 0
  sendCb := none
  recvCb := none

/-- `connection::reset_w`. It closes the descriptor in `wFileFd`. -/
def Connection.resetW (conn : Connection) : Connection :=
  let conn := { conn with wstatus := .header, woffset := 0, wlength := 0, wtotallength := 0 }
  match conn.wFileFd with
  | none => conn
  | some _ => { conn with wfileOffset := 0, wFileFd := none }

/-! ### The cached response -/

/-- The cached header and file. -/
structure Resource where
  header : List UInt8
  file : List UInt8
  header_pos : 0 < header.length
  header_lt : header.length < bufferLength
  file_pos : 0 < file.length
  file_lt : file.length < 2 ^ 31

/-- The response to one request. -/
def Resource.response (res : Resource) : List UInt8 := res.header ++ res.file

theorem Resource.length_response (res : Resource) :
    res.response.length = res.header.length + res.file.length :=
  List.length_append

theorem Resource.response_ne_nil (res : Resource) : res.response ≠ [] := by
  intro hnil
  have hlength := res.length_response
  have hpos := res.header_pos
  rw [hnil, List.length_nil] at hlength
  omega

/-- The bytes of an ASCII text. -/
def asciiBytes (text : List Char) : List UInt8 := text.map fun char ↦ UInt8.ofNat char.toNat

/-- The header that `snprintf` writes for a file of `len` bytes. -/
def responseHeader (len : ℕ) : List UInt8 :=
  asciiBytes ("HTTP/1.1 200 OK\r\nContent-Type: image/jpg\r\nContent-Length: ".toList ++
    Nat.toDigits 10 len ++ "\r\nConnection: close\r\n\r\n".toList)

theorem length_responseHeader (len : ℕ) :
    (responseHeader len).length = 81 + (Nat.toDigits 10 len).length := by
  have hfront :
      "HTTP/1.1 200 OK\r\nContent-Type: image/jpg\r\nContent-Length: ".toList.length = 58 := by
    decide +kernel
  have hback : "\r\nConnection: close\r\n\r\n".toList.length = 23 := by decide +kernel
  rw [responseHeader, asciiBytes, List.length_map, List.length_append, List.length_append, hfront,
    hback]
  omega

/-- What the first call of `http_response` caches. -/
def Resource.ofFile (file : List UInt8) (hpos : 0 < file.length) (hlt : file.length < 2 ^ 31) :
    Resource where
  header := responseHeader file.length
  file := file
  header_pos := by
    rw [length_responseHeader]
    omega
  header_lt := by
    have hdigits : (Nat.toDigits 10 file.length).length ≤ 10 :=
      (Nat.length_toDigits_le_iff (by decide) (by decide)).mpr
        (Nat.lt_trans hlt (by decide))
    rw [length_responseHeader, bufferLength]
    omega
  file_pos := hpos
  file_lt := hlt

/-! ### The handlers of requests and responses -/

/-- `http_request`. -/
def httpRequest (conn : Connection) : Connection := { conn with wlength := 0, wstatus := .header }

/-- The initialisation of the totals at the first call for a response. -/
def startResponse (res : Resource) (conn : Connection) : Connection :=
  if conn.wtotallength = 0 then
    { conn with wtotallength := res.header.length + res.file.length, woffset := 0 }
  else conn

/-- The branch `wstatus == 0`: the rest of the header. -/
def copyHeader (res : Resource) (conn : Connection) : Option Connection :=
  let num := toInt32 (res.header.length - conn.woffset)
  if num < 0 then none
  else
    some { conn with
      wbuffer := overwrite conn.wbuffer ((res.header.drop conn.woffset).take num.toNat)
      wlength := num.toNat }

/-- The branch `wstatus == 1`: the next part of the file. -/
def copyBody (res : Resource) (conn : Connection) : Option Connection :=
  let offsetT := toInt32 (conn.woffset - res.header.length)
  if offsetT < 0 ∨ res.file.length < offsetT then none
  else
    let readnum := min (res.file.length - offsetT.toNat) bufferLength
    some { conn with
      wbuffer := overwrite conn.wbuffer ((res.file.drop offsetT.toNat).take readnum)
      wlength := readnum }

/-- The copy into the write buffer. -/
def fillBuffer (res : Resource) (conn : Connection) : Option Connection :=
  match conn.wstatus with
  | .header => copyHeader res conn
  | .body => copyBody res conn
  | .finished => some conn

/-- `http_response` opens the file: the header has been sent and the response is a long one. -/
def opensFile (res : Resource) (conn : Connection) : Prop :=
  (startResponse res conn).woffset = res.header.length ∧
    (startResponse res conn).wtotallength > bufferLength * 3
  deriving Decidable

/-- `http_response`: its return value and the connection. `opened` is what `open` returns if it is
called. -/
def httpResponse (res : Resource) (opened : Option ℕ) (conn : Connection) :
    Option (ℤ × Connection) :=
  let conn := startResponse res conn
  if conn.woffset = res.header.length then
    let conn := { conn with wstatus := .body }
    if conn.wtotallength > bufferLength * 3 then
      match opened with
      | none => some (-1, conn)
      | some filefd => some (0, { conn with wFileFd := some filefd, wlength := res.file.length })
    else (fillBuffer res conn).map fun conn ↦ (0, conn)
  else (fillBuffer res conn).map fun conn ↦ (0, conn)

/-! ### The callbacks -/

/-- The event that epoll watches: `RECV_EV` or `SEND_EV`. -/
inductive Interest
  | recv
  | send
  deriving DecidableEq

/-- What a callback does to its own socket: nothing, `EPOLL_CTL_MOD`, or `EPOLL_CTL_DEL` and
`close`. -/
inductive Next
  | keep
  | watch (interest : Interest)
  | close
  deriving DecidableEq

/-- What epoll watches afterwards. -/
def Next.apply (next : Next) (interest : Option Interest) : Option Interest :=
  match next with
  | .keep => interest
  | .watch interest => some interest
  | .close => none

/-- The answer of `recv`: at most `BUFFER_LENGTH` bytes, none at the end of the stream. -/
inductive RecvResult
  | received (data : List UInt8)
  | again
  | error

/-- `read_callback`. The terminator is written behind the data; when the data fill the buffer, that
place is outside of it. -/
def readCallback (result : RecvResult) (conn : Connection) : Connection × Next :=
  match result with
  | .again => (conn, .keep)
  | .error => (conn, .close)
  | .received data =>
    if data.length = 0 then (conn, .close)
    else
      (httpRequest { conn with
        rbuffer := (overwrite conn.rbuffer data).set data.length 0
        rlength := data.length }, .watch .send)

/-- The answer of `send` and `sendfile`. A call that takes nothing returns zero. -/
inductive SendResult
  | accepts (room : ℕ)
  | again
  | error

/-- What `write_callback` leaves: the connection, the socket it wrote to, the bytes that the socket
took, and what happens to the socket of the connection. -/
structure Written where
  conn : Connection
  socket : ℕ
  accepted : List UInt8
  next : Next

/-- The end of `write_callback`, after `woffset` has been advanced. -/
def switchEvent (conn : Connection) (socket : ℕ) (accepted : List UInt8) : Written :=
  let conn :=
    if conn.wstatus = .body ∧ conn.woffset = conn.wtotallength then
      { conn with wstatus := .finished }
    else conn
  if conn.wstatus = .finished then ⟨conn.resetW, socket, accepted, .watch .recv⟩
  else ⟨conn, socket, accepted, .keep⟩

/-- The branch of `write_callback` that sends the write buffer. -/
def sendBuffer (fd : ℕ) (result : SendResult) (conn : Connection) : Written :=
  match result with
  | .again => ⟨conn, fd, [], .keep⟩
  | .error => ⟨conn, fd, [], .close⟩
  | .accepts room =>
    let sended := min room conn.wlength
    if sended = 0 then ⟨conn, fd, [], .close⟩
    else switchEvent { conn with woffset := conn.woffset + sended } fd (conn.wbuffer.take sended)

/-- The branch of `write_callback` that sends from the open file, on the socket in the slot. A zero
is told apart by `errno`, like a failure. -/
def sendFile (res : Resource) (result : SendResult) (conn : Connection) : Written :=
  match result with
  | .again => ⟨conn, conn.fd, [], .keep⟩
  | .error => ⟨conn, conn.fd, [], .close⟩
  | .accepts room =>
    let sent := min room (conn.wtotallength - conn.woffset)
    if sent = 0 then ⟨conn, conn.fd, [], .close⟩
    else
      switchEvent { conn with
        woffset := conn.woffset + sent
        wfileOffset := conn.wfileOffset + sent } conn.fd
        ((res.file.drop conn.wfileOffset).take sent)

/-- `write_callback`, which does not look at what `http_response` returns. -/
def writeCallback (res : Resource) (fd : ℕ) (opened : Option ℕ) (result : SendResult)
    (conn : Connection) : Option Written :=
  (httpResponse res opened conn).map fun (_, conn) ↦
    match conn.wFileFd with
    | none => sendBuffer fd result conn
    | some _ => sendFile res result conn

/-- What `register_clinetfd` stores in the slot. -/
def registerClinetfd (fd : ℕ) (conn : Connection) : Connection :=
  { conn with fd := fd, recvCb := some .readCallback, sendCb := some .writeCallback }

/-! ### One connection -/

/-- A slot of `conns`, what epoll watches for its socket, the bytes that the socket has taken and
the number of requests read from it. -/
structure Session where
  conn : Connection
  interest : Option Interest
  sent : List UInt8
  requests : ℕ

/-- The events of one connection, with the answers of the kernel. -/
inductive Dispatch
  | read (result : RecvResult)
  | write (opened : Option ℕ) (result : SendResult)

/-- The requests that an answer of `recv` brings. -/
def RecvResult.requests : RecvResult → ℕ
  | .received data => if data.length = 0 then 0 else 1
  | .again => 0
  | .error => 0

/-- The number of bytes that an answer of `recv` brings. -/
def RecvResult.count : RecvResult → ℕ
  | .received data => data.length
  | .again => 0
  | .error => 0

/-- The session after `read_callback`. -/
def Session.afterRead (session : Session) (result : RecvResult) : Session where
  conn := (readCallback result session.conn).1
  interest := (readCallback result session.conn).2.apply session.interest
  sent := session.sent
  requests := session.requests + result.requests

/-- The session after `write_callback`. -/
def Session.afterWrite (session : Session) (written : Written) : Session where
  conn := written.conn
  interest := written.next.apply session.interest
  sent := session.sent ++ written.accepted
  requests := session.requests

/-- One event of one connection. Epoll reports only what it watches for the socket. -/
def Session.step (res : Resource) (session : Session) : Dispatch → Option Session
  | .read result =>
    if session.interest = some .recv ∧ result.count ≤ bufferLength then
      some (session.afterRead result)
    else none
  | .write opened result =>
    if session.interest = some .send then
      (writeCallback res session.conn.fd opened result session.conn).map session.afterWrite
    else none

/-! ### The reactor -/

/-- The answer of `accept`. -/
inductive AcceptResult
  | accepted (clientfd : ℕ)
  | again
  | error

/-- The events that the loop of `main` dispatches. -/
inductive Event
  | listen (fd : ℕ) (result : AcceptResult)
  | client (fd : ℕ) (dispatch : Dispatch)

/-- The reactor. `interest` is the epoll set, whose members are the open sockets; `files` are the
descriptors opened by `http_response` and not closed; `sent` and `requests` belong to the last
connection accepted on each descriptor, and `past` holds the streams of the connections before it,
with an empty one for a descriptor used for the first time. -/
structure State where
  conns : ℕ → Connection
  interest : ℕ → Option Interest
  files : List ℕ
  sent : ℕ → List UInt8
  requests : ℕ → ℕ
  past : List (List UInt8)

/-- After `register_listenfd`. -/
def State.start (listenfd : ℕ) : State where
  conns := Function.update (fun _ ↦ .unused) listenfd
    { Connection.unused with fd := listenfd, recvCb := some .listenCallback }
  interest := Function.update (fun _ ↦ none) listenfd (some .recv)
  files := []
  sent := fun _ ↦ []
  requests := fun _ ↦ 0
  past := []

/-- The kernel can hand out the descriptor. -/
def State.Unopened (state : State) (fd : ℕ) : Prop := state.interest fd = none ∧ fd ∉ state.files
  deriving Decidable

/-- `listen_callback` after a successful `accept`. -/
def State.afterAccept (state : State) (clientfd : ℕ) : State :=
  { state with
    conns := Function.update state.conns clientfd
      (registerClinetfd clientfd (state.conns clientfd))
    interest := Function.update state.interest clientfd (some .recv)
    sent := Function.update state.sent clientfd []
    requests := Function.update state.requests clientfd 0
    past := state.past ++ [state.sent clientfd] }

/-- `read_callback` on a descriptor. -/
def State.afterRead (state : State) (fd : ℕ) (result : RecvResult) : State :=
  { state with
    conns := Function.update state.conns fd (readCallback result (state.conns fd)).1
    interest := Function.update state.interest fd
      ((readCallback result (state.conns fd)).2.apply (state.interest fd))
    requests := Function.update state.requests fd (state.requests fd + result.requests) }

/-- The descriptors of files after `write_callback`: `http_response` may have opened one, and
`reset_w` closes the one in the slot. -/
def filesAfterWrite (res : Resource) (opened : Option ℕ) (conn : Connection) (next : Next)
    (files : List ℕ) : List ℕ :=
  let held := if opensFile res conn then opened.toList ++ files else files
  let inSlot := if opensFile res conn then opened.or conn.wFileFd else conn.wFileFd
  if next = .watch .recv then
    match inSlot with
    | none => held
    | some filefd => held.erase filefd
  else held

/-- `write_callback` on a descriptor. -/
def State.afterWrite (res : Resource) (state : State) (fd : ℕ) (opened : Option ℕ)
    (written : Written) : State :=
  { state with
    conns := Function.update state.conns fd written.conn
    interest := Function.update state.interest fd (written.next.apply (state.interest fd))
    files := filesAfterWrite res opened (state.conns fd) written.next state.files
    sent := Function.update state.sent written.socket
      (state.sent written.socket ++ written.accepted) }

/-- One event of the reactor. -/
def step (res : Resource) (state : State) : Event → Option State
  | .listen fd result =>
    if state.interest fd = some .recv ∧ (state.conns fd).recvCb = some .listenCallback then
      match result with
      | .again => some state
      | .error => some state
      | .accepted clientfd =>
        if state.Unopened clientfd then some (state.afterAccept clientfd) else none
    else none
  | .client fd (.read result) =>
    if state.interest fd = some .recv ∧ (state.conns fd).recvCb = some .readCallback ∧
        result.count ≤ bufferLength then
      some (state.afterRead fd result)
    else none
  | .client fd (.write opened result) =>
    if state.interest fd = some .send ∧ (state.conns fd).sendCb = some .writeCallback ∧
        ∀ filefd ∈ opened, state.Unopened filefd then
      (writeCallback res fd opened result (state.conns fd)).map (state.afterWrite res fd opened)
    else none

/-- What an event that the reactor dispatches can do. -/
inductive Transition (res : Resource) (state : State) : Event → State → Prop
  | idle (fd : ℕ) (result : AcceptResult) : Transition res state (.listen fd result) state
  | accept {fd clientfd : ℕ} (hunopened : state.Unopened clientfd) :
    Transition res state (.listen fd (.accepted clientfd)) (state.afterAccept clientfd)
  | read {fd : ℕ} {result : RecvResult} (hinterest : state.interest fd = some .recv)
      (hcount : result.count ≤ bufferLength) :
    Transition res state (.client fd (.read result)) (state.afterRead fd result)
  | write {fd : ℕ} {opened : Option ℕ} {result : SendResult} {written : Written}
      (hinterest : state.interest fd = some .send)
      (hopened : ∀ filefd ∈ opened, state.Unopened filefd)
      (hcallback : writeCallback res fd opened result (state.conns fd) = some written) :
    Transition res state (.client fd (.write opened result))
      (state.afterWrite res fd opened written)

theorem transition_of_step {res : Resource} {state next : State} {event : Event}
    (hstep : step res state event = some next) : Transition res state event next := by
  cases event with
  | listen fd result =>
    cases result with
    | again =>
      simp only [step, Option.ite_none_right_eq_some, Option.some.injEq] at hstep
      exact hstep.2 ▸ .idle fd .again
    | error =>
      simp only [step, Option.ite_none_right_eq_some, Option.some.injEq] at hstep
      exact hstep.2 ▸ .idle fd .error
    | accepted clientfd =>
      simp only [step, Option.ite_none_right_eq_some, Option.some.injEq] at hstep
      obtain ⟨-, hunopened, rfl⟩ := hstep
      exact .accept hunopened
  | client fd dispatch =>
    cases dispatch with
    | read result =>
      rw [step, Option.ite_none_right_eq_some] at hstep
      obtain ⟨⟨hinterest, -, hcount⟩, hnext⟩ := hstep
      obtain rfl := Option.some.inj hnext
      exact .read hinterest hcount
    | write opened result =>
      rw [step, Option.ite_none_right_eq_some] at hstep
      obtain ⟨⟨hinterest, -, hopened⟩, hnext⟩ := hstep
      obtain ⟨written, hcallback, rfl⟩ := Option.map_eq_some_iff.mp hnext
      exact .write hinterest hopened hcallback

/-- `open` succeeds if the event calls it. -/
def Dispatch.OpenSucceeds : Dispatch → Prop
  | .read _ => True
  | .write opened _ => opened ≠ none

/-- `open` succeeds if the event calls it. -/
def Event.OpenSucceeds : Event → Prop
  | .listen _ _ => True
  | .client _ dispatch => dispatch.OpenSucceeds

end TestLinux.Reactor
