import TestLinux.Kcp.Queues

/-!
# The messages that a client hands over

`KcpClient::Run` reads all messages of one call into the same string. `Recv` is told that the string
has room for 4096 bytes, which is true of the first message only: `resize` then cuts the string to
the length of that message, and extends it with NUL characters, over the bytes just received, when a
later message is longer than the one before it. So a message arrives as it was sent if it is no
longer than its predecessor, or has nothing but NUL behind that length (`Covers`);
`messages_unchanged_iff` says that this is exactly the condition.
-/

set_option autoImplicit false
set_option relaxedAutoImplicit false

namespace TestLinux.Kcp

/-- A string of the length of the first message keeps the second one. -/
def Covers (first second : List UInt8) : Prop := ∀ byte ∈ second.drop first.length, byte = 0
  deriving Decidable

theorem resize_eq_iff (size : ℕ) (message : List UInt8) :
    resize size message = message ↔ ∀ byte ∈ message.drop size, byte = 0 := by
  have hsplit : resize size message = message ↔
      List.replicate (message.length - size) 0 = message.drop size := by
    rw [resize]
    nth_rewrite 3 [← List.take_append_drop size message]
    exact List.append_cancel_left_eq _ _ _ |>.to_iff
  rw [hsplit, eq_comm, List.eq_replicate_iff, List.length_drop]
  exact and_iff_right rfl

theorem resize_of_le {size : ℕ} {message : List UInt8} (hlength : message.length ≤ size) :
    resize size message = message := by
  rw [resize_eq_iff, List.drop_eq_nil_of_le hlength]
  exact fun byte hbyte ↦ absurd hbyte List.not_mem_nil

/-- What is handed over are the messages if the string keeps the first of them and each of them
keeps the next. -/
theorem handedOver_eq_iff {messages : List (List UInt8)}
    (hnonempty : ∀ message ∈ messages, message ≠ []) (size : ℕ) :
    handedOver size messages = messages ↔
      (∀ message ∈ messages.head?, resize size message = message) ∧
        messages.IsChain Covers := by
  induction messages generalizing size with
  | nil => simp [handedOver]
  | cons message rest ih =>
    have hrest := ih (fun other hother ↦ hnonempty other (List.mem_cons_of_mem message hother))
      message.length
    rw [handedOver, if_neg (hnonempty message List.mem_cons_self), List.cons.injEq, hrest]
    cases rest with
    | nil => simp
    | cons next others =>
      rw [List.isChain_cons_cons]
      simp only [List.head?_cons, Option.mem_some_iff, forall_eq', resize_eq_iff, Covers]

/-- For a datagram after whose `Input` the session has complete messages of 1 to 4096 bytes, one
call of `Run` passes exactly these messages to `HandleMessage`, in order and unchanged, exactly if
each of them keeps the next. -/
theorem messages_unchanged_iff {K D : Type} {ikcp : Ikcp K D} (queue : Queue ikcp)
    {client : Client K} {current : ℤ} {datagram : D} {addr : SockAddr}
    {messages : List (List UInt8)} (haccepts : client.Accepts ikcp current datagram addr)
    (hready : queue.afterInput (client.session.update ikcp current).2 datagram = messages)
    (hlength : ∀ message ∈ messages, 1 ≤ message.length ∧ message.length ≤ 4096) :
    (client.run ikcp current (some (datagram, addr))).handled = client.handled ++ messages ↔
      messages.IsChain Covers := by
  have hnonempty : ∀ message ∈ messages, message ≠ [] := fun message hmessage ↦
    List.ne_nil_of_length_pos (hlength message hmessage).1
  have hfirst : ∀ message ∈ messages.head?, resize 4096 message = message := fun message hhead ↦
    resize_of_le (hlength message (List.mem_of_mem_head? hhead)).2
  have hqueue : queue.ready ({ client with
      session := ((client.session.update ikcp current).2.input ikcp datagram).2 } :
        Client K).session.kcp = messages := hready
  obtain ⟨hhandled, -⟩ :=
    drain_client queue hqueue (fun message hmessage ↦ (hlength message hmessage).2) 4096
  rw [run_of_accepts haccepts, hhandled, List.append_cancel_left_eq, handedOver_eq_iff hnonempty]
  exact and_iff_right hfirst

/-- Two messages in one datagram, the longer one first. -/
def longerFirst : Datagram :=
  ⟨segment 1 81 [104, 105] ++ segment 1 81 [106], [[104, 105], [106]]⟩

/-- Two messages in one datagram, the shorter one first. -/
def shorterFirst : Datagram :=
  ⟨segment 1 81 [106] ++ segment 1 81 [104, 105], [[106], [104, 105]]⟩

theorem messages_unchanged_iff_longerFirst :
    (newClient.run queueIkcp 100 (some (longerFirst, ⟨10, 0, 0, 2, 7000⟩))).handled =
      [[104, 105], [106]] := by
  have haccepts : newClient.Accepts queueIkcp 100 longerFirst ⟨10, 0, 0, 2, 7000⟩ :=
    ⟨by decide +kernel, rfl, by decide +kernel, by decide +kernel⟩
  have hready : endpointQueue.afterInput (newClient.session.update queueIkcp 100).2 longerFirst =
      [[104, 105], [106]] := by decide +kernel
  exact (messages_unchanged_iff endpointQueue haccepts hready (by decide)).mpr (by simp [Covers])

/-- The failure: behind a message of one byte, a message of two bytes loses its second byte. -/
theorem longer_message_cut :
    newClient.Accepts queueIkcp 100 shorterFirst ⟨10, 0, 0, 2, 7000⟩ ∧
      endpointQueue.afterInput (newClient.session.update queueIkcp 100).2 shorterFirst =
        [[106], [104, 105]] ∧
      (newClient.run queueIkcp 100 (some (shorterFirst, ⟨10, 0, 0, 2, 7000⟩))).handled =
        [[106], [104, 0]] :=
  ⟨⟨by decide +kernel, rfl, by decide +kernel, by decide +kernel⟩, by decide +kernel,
    by decide +kernel⟩

end TestLinux.Kcp
