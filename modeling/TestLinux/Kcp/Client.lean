import TestLinux.Kcp.Server

/-!
# `KcpClient` and `ChatClient` of `2.2.3-udp-kcp-quic`

A client has one session, with the server. `Run` is called again and again by the thread of `Start`
until it returns false; `Send` is called for the lines that are typed. `handled` records what has
been passed to `HandleMessage`.

The receive loop of `Run` reads every message into one string, which it cuts or extends to the
length of the message afterwards. The first message is read into a string of 4096 characters, a
later one into a string that has the length of the message before it; characters by which the string
is extended are NUL, also where the message has been written (`resize`).
-/

set_option autoImplicit false
set_option relaxedAutoImplicit false

namespace TestLinux.Kcp

/-- `KcpClient`. -/
structure Client (K : Type) where
  session : Session K
  serverAddr : SockAddr
  handled : List (List UInt8)
  running : Bool
  exited : Bool

/-- The options of `main` of the chat client. -/
def clientOpt (conv : UInt32) : KcpOpt := ⟨false, 1000, conv⟩

section Client

variable {K D : Type} (ikcp : Ikcp K D)

/-- The constructor. -/
def Client.start (conv : UInt32) (serverAddr : SockAddr) : Client K where
  session := .new ikcp (clientOpt conv) serverAddr
  serverAddr := serverAddr
  handled := []
  running := true
  exited := false

/-- `Send`. -/
def Client.send (client : Client K) (data : List UInt8) : Client K :=
  { client with session := (client.session.send ikcp data).2 }

/-- A message that has been written into a string of the given size, after `resize` of the string to
the length of the message. -/
def resize (size : ℕ) (message : List UInt8) : List UInt8 :=
  message.take size ++ List.replicate (message.length - size) 0

/-- The loop of `Run` with a string of the given size. -/
def Client.drain (client : Client K) (size : ℕ) : Client K :=
  match _hrecv : client.session.recv ikcp 4096 with
  | .error code => if code = -3 then { client with exited := true } else client
  | .ok (message, session) =>
    if _hmessage : message = [] then { client with session := session }
    else
      Client.drain
        { client with
          session := session
          handled := client.handled ++ [resize size message] } message.length
termination_by ikcp.pending client.session.kcp
decreasing_by exact pending_of_recv ikcp _hrecv _hmessage

/-- `Run` after `RecvFrom` has returned a datagram. -/
def Client.receive (client : Client K) (datagram : D) (addr : SockAddr) : Client K :=
  if addr ≠ client.serverAddr then client
  else if (ikcp.bytes datagram).length < 24 then client
  else
    let result := client.session.input ikcp datagram
    let next := { client with session := result.2 }
    if result.1 ≠ 0 then { next with running := false } else next.drain ikcp 4096

/-- `Run`, with the datagram that has arrived, if there is one. `HandleClose` exits. -/
def Client.run (client : Client K) (current : ℤ) (arrival : Option (D × SockAddr)) : Client K :=
  let result := client.session.update ikcp current
  let next := { client with session := result.2 }
  if result.1 then { next with running := false, exited := true }
  else
    match arrival with
    | none => next
    | some (datagram, addr) => next.receive ikcp datagram addr

end Client

end TestLinux.Kcp
