import TestLinux.Library.Streams
import TestLinux.Library.CString
import Mathlib.Logic.Function.Basic

/-!
# Sockets and the shared buffer of the servers in `test8/tcpserver.cpp`

`selectio` and `pollio` accept connections on one listening socket and print what the clients send.
`Kernel` is what they see of the operating system: the connection that is open on each descriptor. A
connection is named by the number of connections accepted before it, so that a descriptor that is
closed and handed out again belongs to two different connections. `ended` and `closed` record
history: the connections for which `recv` has returned zero or failed, and those whose socket has
been closed.

`Inbox` is the buffer that all clients of one round share. It is filled with zeros at the beginning
of a round; `recv` overwrites its front, and `printf` shows it up to its first NUL, without a result
if there is none in it. `received` and `printed` record the messages of the round and all texts.
-/

set_option autoImplicit false
set_option relaxedAutoImplicit false

namespace TestLinux.TcpServer

open TestLinux.Streams TestLinux.CString

/-! ### Connections -/

/-- The connections on the descriptors, and their history. -/
structure Kernel where
  socket : ℕ → Option ℕ
  accepted : ℕ
  ended : List ℕ
  closed : List ℕ

/-- No connection yet. -/
def Kernel.start : Kernel := ⟨fun _ ↦ none, 0, [], []⟩

/-- `accept` returns a descriptor for the next connection. -/
def Kernel.accept (kernel : Kernel) (fd : ℕ) : Kernel :=
  { kernel with
    socket := Function.update kernel.socket fd (some kernel.accepted)
    accepted := kernel.accepted + 1 }

/-- `recv` on a descriptor returns zero or fails. -/
def Kernel.finish (kernel : Kernel) (fd : ℕ) : Kernel :=
  { kernel with ended := kernel.ended ++ (kernel.socket fd).toList }

/-- `close`. A descriptor that is not open is left alone. -/
def Kernel.close (kernel : Kernel) (fd : ℕ) : Kernel :=
  { kernel with
    socket := Function.update kernel.socket fd none
    closed := kernel.closed ++ (kernel.socket fd).toList }

/-- An accepted connection that has neither disconnected nor failed. -/
def Kernel.Live (kernel : Kernel) (conn : ℕ) : Prop :=
  conn < kernel.accepted ∧ conn ∉ kernel.ended

/-- The answer of `recv`. -/
inductive RecvAnswer
  | data (bytes : List UInt8)
  | disconnect
  | error

/-- What `recv` can answer on a descriptor: data into a buffer of 1024 bytes or the end of the
stream if a connection is open on it, and an error in any case. -/
def RecvAnswer.Possible (kernel : Kernel) (fd : ℕ) : RecvAnswer → Prop
  | .data bytes => kernel.socket fd ≠ none ∧ 1 ≤ bytes.length ∧ bytes.length ≤ 1024
  | .disconnect => kernel.socket fd ≠ none
  | .error => True

instance decidablePossible (kernel : Kernel) (fd : ℕ) :
    ∀ answer : RecvAnswer, Decidable (answer.Possible kernel fd)
  | .data bytes => inferInstanceAs (Decidable (kernel.socket fd ≠ none ∧ 1 ≤ bytes.length ∧
      bytes.length ≤ 1024))
  | .disconnect => inferInstanceAs (Decidable (kernel.socket fd ≠ none))
  | .error => isTrue trivial

/-! ### The shared buffer -/

/-- The buffer, the messages of the round, and the texts printed so far with the descriptors they
are printed for. -/
structure Inbox where
  buffer : List UInt8
  received : List (List UInt8)
  printed : List (ℕ × Option (List UInt8))

/-- `char buffer[1024] = {0}`. -/
def zeroBuffer : List UInt8 := List.replicate 1024 0

/-- Nothing received yet. -/
def Inbox.start : Inbox := ⟨zeroBuffer, [], []⟩

/-- The declaration of the buffer at the beginning of a round. -/
def Inbox.newRound (inbox : Inbox) : Inbox := { inbox with buffer := zeroBuffer, received := [] }

/-- The text that `printf` shows of a message received into the buffer. -/
def Inbox.text (inbox : Inbox) (bytes : List UInt8) : Option (List UInt8) :=
  cstring (overwrite inbox.buffer bytes)

/-- `recv` into the buffer and `printf` of the buffer. -/
def Inbox.print (inbox : Inbox) (fd : ℕ) (bytes : List UInt8) : Inbox where
  buffer := overwrite inbox.buffer bytes
  received := inbox.received ++ [bytes]
  printed := inbox.printed ++ [(fd, inbox.text bytes)]

end TestLinux.TcpServer
