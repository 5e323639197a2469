import Mathlib.Data.List.Basic
import Mathlib.Data.List.Induction

/-!
# Buffers and repeated messages

A sender copies pieces of a message to the front of a buffer and hands them to a channel that takes
any part of them. `overwrite` is the copy: it replaces the front of a buffer and keeps the rest, so
that several copies leave at each position what the last one that reached it wrote
(`getElem?_foldl_overwrite`).
`repeated count message` is the message written `count` times, and a stream in the middle of a
message is `repeated count message ++ message.take offset`.

`repeated_append_take` says how such a stream grows when the channel takes the next piece of the
message, and `repeated_succ_of_length_le` that it becomes a whole number of messages at the end.
`take_prefix_repeated` places the stream among the prefixes of the repeated message, and
`repeated_append_take_ne` separates it from the whole messages. `head?_of_prefix_repeated` reads off
the first element.
-/

set_option autoImplicit false
set_option relaxedAutoImplicit false

namespace TestLinux.Streams

variable {α : Type*}

/-! ### Buffers -/

/-- Replaces the front of a buffer. -/
def overwrite (buffer piece : List α) : List α := piece ++ buffer.drop piece.length

theorem take_overwrite {buffer piece : List α} {count : ℕ} (hcount : count ≤ piece.length) :
    (overwrite buffer piece).take count = piece.take count :=
  List.take_append_of_le_length hcount

/-- The last of the messages that are longer than `size`. -/
def lastLonger (size : ℕ) (messages : List (List α)) : Option (List α) :=
  messages.reverse.find? fun message ↦ size < message.length

/-- A buffer that messages have overwritten one after the other holds at each position what the last
message that reached it has left there. -/
theorem getElem?_foldl_overwrite (buffer : List α) (messages : List (List α)) (index : ℕ) :
    (messages.foldl overwrite buffer)[index]? =
      match lastLonger index messages with
      | none => buffer[index]?
      | some message => message[index]? := by
  induction messages using List.reverseRecOn with
  | nil => rfl
  | append_singleton messages message ih =>
    rw [List.foldl_append, List.foldl_cons, List.foldl_nil, overwrite, lastLonger,
      List.reverse_append, List.reverse_singleton, List.singleton_append]
    by_cases hlonger : index < message.length
    · rw [List.getElem?_append_left hlonger, List.find?_cons_of_pos (by simpa using hlonger)]
    · have hbehind : message.length + (index - message.length) = index := by omega
      rw [List.getElem?_append_right (Nat.not_lt.mp hlonger), List.getElem?_drop, hbehind,
        List.find?_cons_of_neg (by simpa using hlonger), ih]
      rfl

/-! ### Repeated messages -/

/-- The message written `count` times. -/
def repeated (count : ℕ) (message : List α) : List α := (List.replicate count message).flatten

@[simp] theorem repeated_zero (message : List α) : repeated 0 message = [] := rfl

theorem repeated_succ (count : ℕ) (message : List α) :
    repeated (count + 1) message = repeated count message ++ message := by
  rw [repeated, repeated, List.replicate_succ', List.flatten_append, List.flatten_singleton]

/-- The next piece of the message continues a stream in the middle of it. -/
theorem repeated_append_take (count : ℕ) (message : List α) (offset size : ℕ) :
    repeated count message ++ message.take offset ++ (message.drop offset).take size =
      repeated count message ++ message.take (offset + size) := by
  rw [List.append_assoc, ← List.take_add]

theorem repeated_succ_of_length_le {message : List α} {offset : ℕ} (count : ℕ)
    (hoffset : message.length ≤ offset) :
    repeated count message ++ message.take offset = repeated (count + 1) message := by
  rw [List.take_of_length_le hoffset, repeated_succ]

theorem take_prefix_repeated (count offset : ℕ) (message : List α) :
    repeated count message ++ message.take offset <+: repeated (count + 1) message := by
  rw [repeated_succ, List.prefix_append_right_inj]
  exact List.take_prefix offset message

/-- A stream in the middle of a message is not a whole number of messages. -/
theorem repeated_append_take_ne {message : List α} {count offset : ℕ}
    (hoffset : offset < message.length) :
    repeated count message ++ message.take offset ≠ repeated (count + 1) message := by
  intro heq
  rw [repeated_succ, List.append_cancel_left_eq] at heq
  have hlength := congrArg List.length heq
  rw [List.length_take] at hlength
  omega

/-- The first element of a prefix of the repeated message is that of the message. -/
theorem head?_of_prefix_repeated {stream message : List α} {count : ℕ} {first : α}
    (hstream : stream <+: repeated count message) (hfirst : stream.head? = some first)
    (hmessage : message ≠ []) : message.head? = some first := by
  obtain ⟨rest, hrest⟩ := hstream
  have hhead : (repeated count message).head? = some first := by
    rw [← hrest, List.head?_append, hfirst, Option.some_or]
  cases count with
  | zero => simp at hhead
  | succ count =>
    rw [repeated, List.replicate_succ, List.flatten_cons, List.head?_append] at hhead
    cases hfind : message.head? with
    | none => exact absurd (List.head?_eq_none_iff.mp hfind) hmessage
    | some element =>
      rw [hfind, Option.some_or] at hhead
      exact hhead

end TestLinux.Streams
