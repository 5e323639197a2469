import TestLinux.TcpServer.Pollio
import TestLinux.TcpServer.Selectio

/-!
# What the servers print for a client

All clients of a round are received into one buffer that is zero only at the beginning of the round.
Along every run of `selectio` and of `pollio` the buffer holds what the messages of the round have
left in it (`Filled`), so the text printed for a message depends on the byte behind it: the buffer
shows the message alone if the message holds a NUL, or if that byte is inside of the buffer and is
still zero. The byte belongs to the last earlier message of the round that is longer, if there is
one (`Separated`).

`text_eq_iff` says that the printed text is the message up to its first NUL in exactly this case,
for both servers, and that then the other messages have no influence on it. `leaked_text` is the
failure: a short message behind a long one is printed with the end of the long one.
-/

set_option autoImplicit false
set_option relaxedAutoImplicit false

namespace TestLinux.TcpServer

open TestLinux.Runs TestLinux.Streams TestLinux.CString

/-! ### The buffer -/

/-- The buffer holds what the messages of the round have left in it. -/
structure Filled (inbox : Inbox) : Prop where
  buffer : inbox.buffer = inbox.received.foldl overwrite zeroBuffer
  length_le : ∀ message ∈ inbox.received, message.length ≤ 1024

theorem filled_start : Filled .start where
  buffer := rfl
  length_le := fun _ hmessage ↦ absurd hmessage List.not_mem_nil

theorem filled_newRound (inbox : Inbox) : Filled inbox.newRound where
  buffer := rfl
  length_le := fun _ hmessage ↦ absurd hmessage List.not_mem_nil

theorem Filled.print {inbox : Inbox} (hinbox : Filled inbox) (fd : ℕ) {bytes : List UInt8}
    (hbytes : bytes.length ≤ 1024) : Filled (inbox.print fd bytes) where
  buffer := by
    change overwrite inbox.buffer bytes = (inbox.received ++ [bytes]).foldl overwrite zeroBuffer
    rw [List.foldl_append, ← hinbox.buffer, List.foldl_cons, List.foldl_nil]
  length_le := by
    intro message hmessage
    rcases List.mem_append.mp hmessage with hearlier | hlast
    · exact hinbox.length_le message hearlier
    · rw [List.mem_singleton.mp hlast]
      exact hbytes

/-- The message is followed by a NUL when it is printed: it holds one itself, or it is shorter than
the buffer and the last earlier message of the round that is longer has a NUL where it ends. -/
def Separated (earlier : List (List UInt8)) (data : List UInt8) : Prop :=
  0 ∈ data ∨ data.length < 1024 ∧
    ∀ longer, lastLonger data.length earlier = some longer → longer[data.length]? = some 0

theorem length_lt_of_lastLonger {size : ℕ} {messages : List (List UInt8)} {longer : List UInt8}
    (hlonger : lastLonger size messages = some longer) :
    longer ∈ messages ∧ size < longer.length := by
  refine ⟨List.mem_reverse.mp (List.mem_of_find?_eq_some hlonger), ?_⟩
  have hfound : decide (size < longer.length) = true :=
    List.find?_some (p := fun message : List UInt8 ↦ decide (size < message.length)) hlonger
  exact of_decide_eq_true hfound

/-- The byte behind a message is zero if it is inside of the buffer and no earlier message has left
another one there. -/
theorem Filled.getElem?_eq_zero_iff {inbox : Inbox} (hinbox : Filled inbox) (index : ℕ) :
    inbox.buffer[index]? = some 0 ↔ index < 1024 ∧
      ∀ longer, lastLonger index inbox.received = some longer → longer[index]? = some 0 := by
  rw [hinbox.buffer, getElem?_foldl_overwrite]
  cases hlast : lastLonger index inbox.received with
  | none =>
    show (List.replicate 1024 (0 : UInt8))[index]? = some 0 ↔ _
    rw [List.getElem?_replicate]
    constructor
    · intro hbyte
      exact ⟨(Option.ite_none_right_eq_some.mp hbyte).1, fun _ hlonger ↦ absurd hlonger (by simp)⟩
    · rintro ⟨hindex, -⟩
      rw [if_pos hindex]
  | some message =>
    obtain ⟨hmem, hlonger⟩ := length_lt_of_lastLonger hlast
    constructor
    · intro hbyte
      refine ⟨Nat.lt_of_lt_of_le hlonger (hinbox.length_le message hmem), fun longer heq ↦ ?_⟩
      rw [← Option.some.inj heq]
      exact hbyte
    · rintro ⟨-, hall⟩
      exact hall message rfl

theorem Filled.text_eq {inbox : Inbox} (hinbox : Filled inbox) (data : List UInt8) :
    inbox.text data = some (upToNul data) ↔ Separated inbox.received data := by
  rw [Inbox.text, overwrite, cstring_append_eq_iff, List.head?_drop,
    hinbox.getElem?_eq_zero_iff]
  rfl

/-! ### The two servers -/

/-- What a step does to the buffer. -/
inductive Inbox.Next (inbox : Inbox) : Inbox → Prop
  | same : Inbox.Next inbox inbox
  | newRound : Inbox.Next inbox inbox.newRound
  | print (fd : ℕ) {bytes : List UInt8} (hbytes : bytes.length ≤ 1024) :
    Inbox.Next inbox (inbox.print fd bytes)

theorem Filled.next {inbox next : Inbox} (hinbox : Filled inbox) (hnext : inbox.Next next) :
    Filled next := by
  cases hnext with
  | same => exact hinbox
  | newRound => exact filled_newRound inbox
  | print fd hbytes => exact hinbox.print fd hbytes

theorem Pollio.inbox_next {state next : Pollio.State} {event : Pollio.Event}
    (hstep : Pollio.step state event = some next) : state.inbox.Next next.inbox := by
  cases Pollio.move_of_step hstep with
  | interrupted hpoint => exact .same
  | poll hpoint ready =>
    rcases Pollio.point_afterPoll state ready with ⟨-, hinbox⟩ | ⟨-, hinbox⟩
    · rw [hinbox]
      exact .same
    · rw [hinbox]
      exact .newRound
  | refused hpoint => exact .same
  | accept hpoint hclosed hne hroom => exact .newRound
  | data hreceives hpossible => exact .print _ hpossible.2.2
  | remove hreceives hanswer hpossible => exact .same
  | skip hpoint hindex hunready => exact .same
  | finish hpoint hindex => exact .same

theorem Selectio.inbox_next {state next : Selectio.State} {event : Selectio.Event}
    (hstep : Selectio.step state event = some next) : state.inbox.Next next.inbox := by
  unfold Selectio.step at hstep
  split at hstep
  · exact Option.some.inj hstep ▸ .same
  · rename_i ready hpoint
    rw [← Option.some.inj hstep]
    unfold Selectio.State.afterSelect
    dsimp only
    split_ifs
    · exact .same
    · exact .newRound
  · rw [Option.ite_none_right_eq_some] at hstep
    exact Option.some.inj hstep.2 ▸ .newRound
  · rename_i index answer hpoint
    rw [Option.ite_none_right_eq_some] at hstep
    obtain ⟨⟨-, -, hpossible⟩, hnext⟩ := hstep
    rw [← Option.some.inj hnext]
    cases answer with
    | data bytes => exact .print index hpossible.2.2
    | disconnect => exact .same
    | error => exact .same
  · split_ifs at hstep
    · exact Option.some.inj hstep ▸ .same
    · exact Option.some.inj hstep ▸ .same
  · cases hstep

theorem Pollio.inbox_of_data {state next : Pollio.State} {data : List UInt8}
    (hstep : Pollio.step state (.recv (.data data)) = some next) :
    ∃ fd, next.inbox = state.inbox.print fd data := by
  cases Pollio.move_of_step hstep with
  | data hreceives hpossible => exact ⟨_, rfl⟩
  | remove hreceives hanswer hpossible => exact absurd rfl (hanswer data)

theorem Selectio.inbox_of_data {state next : Selectio.State} {data : List UInt8}
    (hstep : Selectio.step state (.recv (.data data)) = some next) :
    ∃ fd, next.inbox = state.inbox.print fd data := by
  unfold Selectio.step at hstep
  split at hstep
  case h_4 index answer hpoint hevent =>
    rw [Option.ite_none_right_eq_some] at hstep
    rw [← Option.some.inj hstep.2, ← Selectio.Event.recv.inj hevent]
    exact ⟨index, rfl⟩
  all_goals contradiction

section Prints

variable {State Event : Type} (step : State → Event → Option State) (start : ℕ → State)
  (inbox : State → Inbox) (recv : RecvAnswer → Event)

/-- In a run of a server, a message is received behind the `earlier` ones of the same round, and
`text` is printed for it. -/
def Prints (earlier : List (List UInt8)) (data : List UInt8) (text : Option (List UInt8)) : Prop :=
  ∃ sockfd events state next fd,
    run step (start sockfd) events = some state ∧ (inbox state).received = earlier ∧
      step state (recv (.data data)) = some next ∧
      (inbox next).printed = (inbox state).printed ++ [(fd, text)]

variable {step start inbox recv}

/-- The printed text is what the buffer of the round shows. Assumes: the server begins with an empty
buffer, its steps change the buffer like a round of `recv` calls, and the step that receives a
message prints it. -/
theorem text_of_prints {earlier : List (List UInt8)} {data : List UInt8}
    {text : Option (List UInt8)} (hprints : Prints step start inbox recv earlier data text)
    (hstart : ∀ sockfd, Filled (inbox (start sockfd)))
    (hnext : ∀ state event next, step state event = some next → (inbox state).Next (inbox next))
    (hdata : ∀ state data next, step state (recv (.data data)) = some next →
      ∃ fd, inbox next = (inbox state).print fd data) :
    text = some (upToNul data) ↔ Separated earlier data := by
  obtain ⟨sockfd, events, state, next, fd, hrun, hearlier, hstep, hprinted⟩ := hprints
  have hkept : ∀ state event next, Filled (inbox state) → step state event = some next →
      Filled (inbox next) := fun state event next hstate hstep ↦
    hstate.next (hnext state event next hstep)
  have hstate : Filled (inbox state) := run_invariant hkept (hstart sockfd) hrun
  obtain ⟨printedFd, hprint⟩ := hdata state data next hstep
  rw [hprint] at hprinted
  have hlast : [(printedFd, (inbox state).text data)] = [(fd, text)] :=
    List.append_cancel_left hprinted
  have htext : (inbox state).text data = text := (Prod.mk.inj (List.cons.inj hlast).1).2
  rw [← htext, ← hearlier]
  exact hstate.text_eq data

end Prints

/-- A text that `pollio` prints. -/
def Pollio.Prints : List (List UInt8) → List UInt8 → Option (List UInt8) → Prop :=
  TcpServer.Prints Pollio.step Pollio.State.start Pollio.State.inbox Pollio.Event.recv

/-- A text that `selectio` prints. -/
def Selectio.Prints : List (List UInt8) → List UInt8 → Option (List UInt8) → Prop :=
  TcpServer.Prints Selectio.step Selectio.State.start Selectio.State.inbox Selectio.Event.recv

/-- A text that one of the servers prints. -/
def Printed (earlier : List (List UInt8)) (data : List UInt8) (text : Option (List UInt8)) : Prop :=
  Selectio.Prints earlier data text ∨ Pollio.Prints earlier data text

theorem printed_alone_iff {earlier : List (List UInt8)} {data : List UInt8}
    {text : Option (List UInt8)} (hprinted : Printed earlier data text) :
    text = some (upToNul data) ↔ Separated earlier data := by
  rcases hprinted with hselect | hpoll
  · exact text_of_prints hselect (fun _ ↦ filled_start)
      (fun _ _ _ hstep ↦ Selectio.inbox_next hstep) fun _ _ _ hstep ↦ Selectio.inbox_of_data hstep
  · exact text_of_prints hpoll (fun _ ↦ filled_start)
      (fun _ _ _ hstep ↦ Pollio.inbox_next hstep) fun _ _ _ hstep ↦ Pollio.inbox_of_data hstep

/-- The text printed for a message is the message up to its first NUL exactly if the message is
followed by a NUL in the buffer, and then it does not depend on the other messages of the round: in
every other run in which the same message is followed by a NUL, the same text is printed. -/
theorem text_eq_iff {earlier : List (List UInt8)} {data : List UInt8} {text : Option (List UInt8)}
    (hprinted : Printed earlier data text) :
    (text = some (upToNul data) ↔ Separated earlier data) ∧
      ∀ otherEarlier otherText, Printed otherEarlier data otherText → Separated earlier data →
        Separated otherEarlier data → text = otherText := by
  refine ⟨printed_alone_iff hprinted, fun otherEarlier otherText hother hseparated hseparated' ↦ ?_⟩
  calc text = some (upToNul data) := (printed_alone_iff hprinted).mpr hseparated
    _ = otherText := ((printed_alone_iff hother).mpr hseparated').symm

/-- Two clients are accepted by `pollio`, both send in one round, and the first one is received. -/
def bothSend (first : List UInt8) : List Pollio.Event :=
  [.poll (some (· == 3)), .accept (some 5), .next, .next, .poll (some (· == 3)),
    .accept (some 6), .next, .next, .next, .poll (some (3 < ·)), .recv (.data first)]

/-- The text printed for the second client. -/
theorem Pollio.prints_of_view {first second : List UInt8} {text : Option (List UInt8)}
    (hview : (run Pollio.step (Pollio.State.start 3) (bothSend first)).map
      (fun state ↦ (state.inbox.received, state.inbox.printed.length)) = some ([first], 1))
    (hend : (run Pollio.step (Pollio.State.start 3) (bothSend first ++
      [.recv (.data second)])).map (fun state ↦ state.inbox.printed.drop 1) = some [(6, text)]) :
    Pollio.Prints [first] second text := by
  obtain ⟨state, next, hrun, hlast, hseen, hprinted⟩ := exists_of_views hview hend
  obtain ⟨other, hstep, hdone⟩ := run_cons_eq_some.mp hlast
  obtain ⟨fd, hinbox⟩ := Pollio.inbox_of_data hstep
  rw [run_nil, Option.some.injEq] at hdone
  subst hdone
  obtain ⟨hreceived, hlength⟩ := Prod.mk.inj hseen
  refine ⟨3, bothSend first, state, other, fd, hrun, hreceived, hstep, ?_⟩
  have hprint : other.inbox.printed = state.inbox.printed ++ [(fd, state.inbox.text second)] := by
    rw [hinbox]
    rfl
  have hlast : [(fd, state.inbox.text second)] = [(6, text)] := by
    rw [← hprinted, hprint, ← hlength, List.drop_left]
  rw [hprint, (Prod.mk.inj (List.cons.inj hlast).1).2]

/-- The second client sends more than the first one. -/
theorem text_eq_iff_bothSend :
    Printed [[104, 105]] [97, 98, 99] (some [97, 98, 99]) ∧
      Separated [[104, 105]] [97, 98, 99] := by
  have hprinted : Printed [[104, 105]] [97, 98, 99] (some [97, 98, 99]) :=
    Or.inr (Pollio.prints_of_view (by decide +kernel) (by decide +kernel))
  exact ⟨hprinted, (text_eq_iff hprinted).1.mp (by decide)⟩

/-- The failure: `hi` behind `SECRET` is printed as `hiCRET`, and behind `x` as `hi`. -/
theorem leaked_text :
    Printed [[83, 69, 67, 82, 69, 84]] [104, 105] (some [104, 105, 67, 82, 69, 84]) ∧
      some [104, 105, 67, 82, 69, 84] ≠ some (upToNul [104, 105]) ∧
      Printed [[120]] [104, 105] (some [104, 105]) := by
  refine ⟨Or.inr (Pollio.prints_of_view ?_ ?_), ?_, Or.inr (Pollio.prints_of_view ?_ ?_)⟩
  all_goals decide +kernel

end TestLinux.TcpServer
