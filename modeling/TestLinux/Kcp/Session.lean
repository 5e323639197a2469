import Mathlib.Data.Int.Notation
import Mathlib.Data.Nat.Notation

/-!
# Sessions of `2.2.3-udp-kcp-quic`

`Ikcp` is what the chat programs use of `ikcp.c`: control blocks with `ikcp_create`, `ikcp_input`,
`ikcp_send`, `ikcp_recv` and `ikcp_update`. `ikcp_recv` returns the next complete message, or a
negative code and leaves the control block as it is. The only laws are about `pending`, the segments
that have been received and not taken out: a message that is taken out consists of some of them, and
`ikcp_send` does not touch them. A datagram has bytes; an instance that leaves out the bookkeeping
of segments may let it carry more than that.

`Session` is `KcpSession`. Time is in milliseconds. `sent` records what has been passed to `Send`.
-/

set_option autoImplicit false
set_option relaxedAutoImplicit false

namespace TestLinux.Kcp

/-! ### Addresses and texts -/

/-- The bytes of an ASCII text. -/
def ascii (text : List Char) : List UInt8 := text.map fun char ↦ UInt8.ofNat char.toNat

/-- A number in decimal digits. -/
def decimal (number : ℕ) : List UInt8 := ascii (Nat.toDigits 10 number)

/-- `sockaddr_in`: the four bytes of the address and the port. -/
structure SockAddr where
  first : UInt8
  second : UInt8
  third : UInt8
  fourth : UInt8
  port : UInt16
  deriving DecidableEq

/-- `GetAddrToString`. -/
def SockAddr.toText (addr : SockAddr) : List UInt8 :=
  decimal addr.first.toNat ++ ascii ['.'] ++ decimal addr.second.toNat ++ ascii ['.'] ++
    decimal addr.third.toNat ++ ascii ['.'] ++ decimal addr.fourth.toNat ++ ascii [':'] ++
    decimal addr.port.toNat

/-- `KCP_KEEP_ALIVE_CMD` with its terminating NUL. -/
def keepAliveCmd : List UInt8 := ascii "KCP_KEEP_ALIVE_CMD".toList ++ [0]

/-! ### `ikcp` -/

/-- The functions of `ikcp.c` on control blocks `K`, for datagrams `D`. -/
structure Ikcp (K D : Type) where
  bytes : D → List UInt8
  create : UInt32 → K
  input : K → D → ℤ × K
  send : K → List UInt8 → ℤ × K
  recv : K → ℕ → Except ℤ (List UInt8 × K)
  update : K → UInt32 → K
  pending : K → ℕ
  pending_send : ∀ kcp message, pending (send kcp message).2 = pending kcp
  pending_recv : ∀ kcp size message next, recv kcp size = .ok (message, next) → message ≠ [] →
    pending next < pending kcp

/-- A 32-bit word at the front of a datagram, the low byte first. -/
def decode32u (data : List UInt8) : ℕ :=
  (data.getD 0 0).toNat + 256 * ((data.getD 1 0).toNat +
    256 * ((data.getD 2 0).toNat + 256 * (data.getD 3 0).toNat))

/-! ### `KcpSession` -/

/-- `KcpOpt`, without the parameters that are only handed to `ikcp`. -/
structure KcpOpt where
  isServer : Bool
  keepAliveTimeout : ℤ
  conv : UInt32
  deriving DecidableEq

/-- `KcpSession`. -/
structure Session (K : Type) where
  opt : KcpOpt
  addr : SockAddr
  kcp : K
  recvLatestTime : ℤ
  sendLatestTime : ℤ
  sent : List (List UInt8)

section Session

variable {K D : Type} (ikcp : Ikcp K D)

/-- The constructor. -/
def Session.new (opt : KcpOpt) (addr : SockAddr) : Session K where
  opt := opt
  addr := addr
  kcp := ikcp.create opt.conv
  recvLatestTime := 0
  sendLatestTime := 0
  sent := []

/-- `Input`. -/
def Session.input (session : Session K) (datagram : D) : ℤ × Session K :=
  ((ikcp.input session.kcp datagram).1,
    { session with kcp := (ikcp.input session.kcp datagram).2 })

/-- `Send`. The size is a `uint32_t`. -/
def Session.send (session : Session K) (data : List UInt8) : ℤ × Session K :=
  let message := data.take (data.length % 4294967296)
  ((ikcp.send session.kcp message).1,
    { session with
      kcp := (ikcp.send session.kcp message).2
      sent := session.sent ++ [data] })

/-- `Recv`. -/
def Session.recv (session : Session K) (size : ℕ) : Except ℤ (List UInt8 × Session K) :=
  match ikcp.recv session.kcp size with
  | .error code => .error code
  | .ok (message, kcp) => .ok (message, { session with kcp := kcp })

/-- The beginning of `Update`. -/
def Session.refresh (session : Session K) (current : ℤ) : Session K :=
  { session with
    kcp := ikcp.update session.kcp (UInt32.ofInt current)
    recvLatestTime := if session.recvLatestTime = 0 then current else session.recvLatestTime }

/-- `Update`. The result says whether the peer is gone, which only a server finds out; a client that
has sent no keep-alive command for some time sends one. -/
def Session.update (session : Session K) (current : ℤ) : Bool × Session K :=
  let session := session.refresh ikcp current
  if session.opt.isServer ∧ current - session.recvLatestTime > session.opt.keepAliveTimeout then
    (true, session)
  else if ¬ session.opt.isServer ∧
      current - session.sendLatestTime > session.opt.keepAliveTimeout then
    (false, (Session.send ikcp { session with sendLatestTime := current } keepAliveCmd).2)
  else (false, session)

end Session

end TestLinux.Kcp
