import TestLinux.Kcp.Session
import Mathlib.Data.List.Basic

/-!
# Control blocks as queues of messages

The instance of `Ikcp` that keeps of a control block its conversation number, the complete messages
that can be received and the messages that have been accepted for sending. `ikcp_send` accepts a
message of fewer than 128 fragments, and `ikcp_recv` returns -3 if the next message is longer than
the buffer. Segments, acknowledgements and windows are left out: a datagram says which messages it
completes. What `ikcp_input` returns is computed from its bytes, by the checks of the headers of its
segments.
-/

set_option autoImplicit false
set_option relaxedAutoImplicit false

namespace TestLinux.Kcp

/-- The loop of `ikcp_input` over the segments of a datagram: the code it returns. The commands are
`IKCP_CMD_PUSH`, `IKCP_CMD_ACK`, `IKCP_CMD_WASK` and `IKCP_CMD_WINS`. -/
def inputLoop (conv : UInt32) (data : List UInt8) : ℤ :=
  if data.length < 24 then 0
  else if UInt32.ofNat (decode32u data) ≠ conv then -1
  else
    let len := decode32u (data.drop 20)
    if data.length - 24 < len ∨ 2147483648 ≤ len then -2
    else if data.getD 4 0 ∉ [81, 82, 83, 84] then -3
    else inputLoop conv (data.drop (24 + len))
termination_by data.length
decreasing_by
  rw [List.length_drop]
  omega

/-- The code that `ikcp_input` returns. -/
def inputCode (conv : UInt32) (data : List UInt8) : ℤ :=
  if data.length < 24 then -1 else inputLoop conv data

/-- The number of fragments of a message. -/
def fragments (message : List UInt8) : ℕ :=
  if message.length ≤ 1376 then 1 else (message.length + 1375) / 1376

/-- A control block. -/
structure Endpoint where
  conv : UInt32
  ready : List (List UInt8)
  outgoing : List (List UInt8)
  deriving DecidableEq

/-- A datagram, with the messages that it completes. -/
structure Datagram where
  bytes : List UInt8
  messages : List (List UInt8)

/-- `ikcp_send`. The length is an `int`. -/
def Endpoint.send (endpoint : Endpoint) (message : List UInt8) : ℤ × Endpoint :=
  if 2147483648 ≤ message.length then (-1, endpoint)
  else if 128 ≤ fragments message then (-2, endpoint)
  else (0, { endpoint with outgoing := endpoint.outgoing ++ [message] })

/-- `ikcp_recv`. -/
def Endpoint.recv (endpoint : Endpoint) (size : ℕ) : Except ℤ (List UInt8 × Endpoint) :=
  match endpoint.ready with
  | [] => .error (-1)
  | message :: rest =>
    if size < message.length then .error (-3)
    else .ok (message, { endpoint with ready := rest })

/-- `ikcp_input`. -/
def Endpoint.input (endpoint : Endpoint) (datagram : Datagram) : ℤ × Endpoint :=
  (inputCode endpoint.conv datagram.bytes,
    { endpoint with ready := endpoint.ready ++ datagram.messages })

theorem ready_send (endpoint : Endpoint) (message : List UInt8) :
    (endpoint.send message).2.ready = endpoint.ready := by
  unfold Endpoint.send
  split_ifs <;> rfl

theorem ready_of_recv {endpoint next : Endpoint} {size : ℕ} {message : List UInt8}
    (hrecv : endpoint.recv size = .ok (message, next)) :
    endpoint.ready = message :: next.ready ∧ next.outgoing = endpoint.outgoing := by
  unfold Endpoint.recv at hrecv
  split at hrecv
  · cases hrecv
  · rename_i first rest hready
    split_ifs at hrecv with hsize
    obtain ⟨rfl, rfl⟩ := Prod.mk.inj (Except.ok.inj hrecv)
    exact ⟨hready, rfl⟩

/-- Control blocks as queues. -/
def queueIkcp : Ikcp Endpoint Datagram where
  bytes := Datagram.bytes
  create := fun conv ↦ ⟨conv, [], []⟩
  input := Endpoint.input
  send := Endpoint.send
  recv := Endpoint.recv
  update := fun endpoint _ ↦ endpoint
  pending := fun endpoint ↦ endpoint.ready.length
  pending_send := fun endpoint message ↦ congrArg List.length (ready_send endpoint message)
  pending_recv := fun endpoint _ message next hrecv _ ↦ by
    rw [(ready_of_recv hrecv).1]
    exact Nat.lt_succ_self next.ready.length

/-- A datagram of one segment. -/
def segment (conv cmd : UInt8) (data : List UInt8) : List UInt8 :=
  [conv, 0, 0, 0, cmd, 0, 32, 0, 0, 0, 0, 0, 0, 0, 0, 0, 0, 0, 0, 0, UInt8.ofNat data.length,
    0, 0, 0] ++ data

end TestLinux.Kcp
