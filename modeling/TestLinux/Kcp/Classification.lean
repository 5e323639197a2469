import TestLinux.Kcp.Queues

/-!
# Keep-alive commands and messages

`HandleSession` compares the first 19 bytes of `buf_` with the keep-alive command, whatever the
length of the message that was read into it. Behind a short message the buffer still holds the
datagram or earlier messages, and of a long message only the beginning is compared. `looksAlive_iff`
takes the comparison apart, and `Mistaken` are the messages for which it goes wrong: a message that
begins with the whole command and goes on, and a proper beginning of the command that the old
contents of the buffer complete.

`classified_iff` says that the loop tells commands and messages apart, for every content of the
buffer and every sequence of messages, exactly if none of them is such a message.
-/

set_option autoImplicit false
set_option relaxedAutoImplicit false

namespace TestLinux.Kcp

open TestLinux.Streams

/-- A message that the comparison takes for the keep-alive command, with the given bytes in the
buffer before. -/
def Mistaken (buf message : List UInt8) : Prop :=
  keepAliveCmd <+: message ∧ message ≠ keepAliveCmd ∨
    ∃ tail, tail ≠ [] ∧ keepAliveCmd = message ++ tail ∧ tail <+: buf.drop message.length

/-- None of the messages is mistaken for a command. Each of them overwrites the front of the
buffer. -/
def Unmistaken (buf : List UInt8) : List (List UInt8) → Prop
  | [] => True
  | message :: rest => ¬ Mistaken buf message ∧ Unmistaken (overwrite buf message) rest

/-- The comparison looks at the message and at what is behind it. -/
theorem looksAlive_iff (buf message : List UInt8) :
    LooksAlive (overwrite buf message) ↔ keepAliveCmd <+: message ∨
      ∃ tail, keepAliveCmd = message ++ tail ∧ tail <+: buf.drop message.length := by
  have hcompared : LooksAlive (overwrite buf message) ↔
      keepAliveCmd <+: message ++ buf.drop message.length := by
    rw [LooksAlive, overwrite, eq_comm]
    exact List.prefix_iff_eq_take.symm
  rw [hcompared]
  constructor
  · rintro ⟨rest, hrest⟩
    rcases List.append_eq_append_iff.mp hrest with ⟨middle, hmessage, -⟩ | ⟨tail, hcmd, hbehind⟩
    · exact Or.inl ⟨middle, hmessage.symm⟩
    · exact Or.inr ⟨tail, hcmd, rest, hbehind.symm⟩
  · rintro (hfront | ⟨tail, hcmd, hbehind⟩)
    · exact hfront.trans (List.prefix_append _ _)
    · rw [hcmd]
      exact (List.prefix_append_right_inj message).mpr hbehind

/-- The comparison is right about every message that is not mistaken. -/
theorem looksAlive_iff_eq (buf message : List UInt8) :
    (LooksAlive (overwrite buf message) ↔ message = keepAliveCmd) ↔ ¬ Mistaken buf message := by
  rw [looksAlive_iff]
  by_cases hcmd : message = keepAliveCmd
  · have hnot : ¬ Mistaken buf message := by
      rintro (⟨-, hne⟩ | ⟨tail, htail, heq, -⟩)
      · exact hne hcmd
      · rw [hcmd, List.self_eq_append_right] at heq
        exact htail heq
    refine iff_of_true (iff_of_true (Or.inl ?_) hcmd) hnot
    rw [hcmd]
  · rw [iff_false_right hcmd]
    refine not_congr ⟨?_, ?_⟩
    · rintro (hfront | ⟨tail, heq, hbehind⟩)
      · exact Or.inl ⟨hfront, hcmd⟩
      · refine Or.inr ⟨tail, ?_, heq, hbehind⟩
        rintro rfl
        exact hcmd (heq.trans (List.append_nil _)).symm
    · rintro (⟨hfront, -⟩ | ⟨tail, -, heq, hbehind⟩)
      · exact Or.inl hfront
      · exact Or.inr ⟨tail, heq, hbehind⟩

/-- The classification of a sequence of messages. -/
theorem treated_iff {messages : List (List UInt8)}
    (hnonempty : ∀ message ∈ messages, message ≠ []) (buf : List UInt8) :
    (treated buf messages).map Prod.snd =
        messages.map (fun message ↦ decide (message = keepAliveCmd)) ↔
      Unmistaken buf messages := by
  induction messages generalizing buf with
  | nil => simp [treated, Unmistaken]
  | cons message rest ih =>
    have hrest := ih (fun other hother ↦ hnonempty other (List.mem_cons_of_mem message hother))
      (overwrite buf message)
    rw [treated, if_neg (hnonempty message List.mem_cons_self), List.map_cons, List.map_cons,
      List.cons.injEq, hrest, decide_eq_decide, looksAlive_iff_eq, Unmistaken]

theorem treated_of_unmistaken {messages : List (List UInt8)} {buf : List UInt8}
    (hnonempty : ∀ message ∈ messages, message ≠ []) (hclear : Unmistaken buf messages) :
    treated buf messages =
      messages.map fun message ↦ (message, decide (message = keepAliveCmd)) := by
  induction messages generalizing buf with
  | nil => rfl
  | cons message rest ih =>
    have hrest := ih (fun other hother ↦ hnonempty other (List.mem_cons_of_mem message hother))
      hclear.2
    rw [treated, if_neg (hnonempty message List.mem_cons_self), List.map_cons, hrest,
      decide_eq_decide.mpr ((looksAlive_iff_eq buf message).mpr hclear.1)]

/-- The loop of `HandleSession`, with any content of the buffer and any complete messages of 1 to
4096 bytes, treats exactly the keep-alive commands as such and hands every other message to
`HandleMessage`, once, in order and with its own bytes, exactly if no message is mistaken. -/
theorem classified_iff {K D : Type} {ikcp : Ikcp K D} (queue : Queue ikcp) {server : Server K}
    {id : ℕ} {messages : List (List UInt8)}
    (hready : queue.ready (server.objects id).kcp = messages)
    (hlength : ∀ message ∈ messages, 1 ≤ message.length ∧ message.length ≤ 4096)
    (clock : ℕ → ℤ) (count : ℕ) :
    ((server.drained ikcp id clock count).map Taken.keepAlive =
        messages.map (fun message ↦ decide (message = keepAliveCmd)) ∧
      (server.drain ikcp id clock count).calls = server.calls ++
        (messages.filter fun message ↦ message ≠ keepAliveCmd).map fun message ↦
          ⟨.message message, id, (server.objects id).addr, server.users⟩) ↔
      Unmistaken server.buf messages := by
  have hnonempty : ∀ message ∈ messages, message ≠ [] := fun message hmessage ↦
    List.ne_nil_of_length_pos (hlength message hmessage).1
  obtain ⟨hdrained, hcalls, -⟩ := drain_server queue hready
    (fun message hmessage ↦ (hlength message hmessage).2) clock count
  rw [if_neg fun hempty ↦ hnonempty [] hempty rfl, List.append_nil] at hdrained
  rw [hdrained, hcalls, List.append_cancel_left_eq, treated_iff hnonempty]
  refine and_iff_left_of_imp fun hclear ↦ ?_
  rw [treated_of_unmistaken hnonempty hclear, callsOf, List.filter_map, List.map_map]
  simp only [Function.comp_def, decide_not]

/-- The server of one client, with the given messages in its session. -/
def receivedServer (messages : List (List UInt8)) : Server Endpoint :=
  joinedServer.store 0 { joinedServer.objects 0 with kcp := ⟨1, messages, []⟩ }

theorem classified_iff_receivedServer :
    ((receivedServer [[104], keepAliveCmd, [105]]).drained queueIkcp 0 (fun _ ↦ 101) 0).map
        Taken.keepAlive = [false, true, false] ∧
      ((receivedServer [[104], keepAliveCmd, [105]]).drain queueIkcp 0 (fun _ ↦ 101) 0).calls =
        joinedServer.calls ++ [⟨.message [104], 0, ⟨10, 0, 0, 1, 7001⟩, {0}⟩,
          ⟨.message [105], 0, ⟨10, 0, 0, 1, 7001⟩, {0}⟩] := by
  have hclear : Unmistaken (receivedServer [[104], keepAliveCmd, [105]]).buf
      [[104], keepAliveCmd, [105]] := (treated_iff (by decide) _).mp (by decide +kernel)
  have hready : endpointQueue.ready
      ((receivedServer [[104], keepAliveCmd, [105]]).objects 0).kcp =
        [[104], keepAliveCmd, [105]] := by decide +kernel
  obtain ⟨hdrained, hcalls⟩ :=
    (classified_iff endpointQueue hready (by decide +kernel) (fun _ ↦ 101) 0).mpr hclear
  exact ⟨hdrained.trans (by decide +kernel), hcalls.trans (by decide +kernel)⟩

/-- The failure: the message `K` right behind a keep-alive command, and a message that begins with
the command, are treated as keep-alive commands and reach nobody. -/
theorem message_taken_for_keepAlive :
    ((receivedServer [keepAliveCmd, [75]]).drained queueIkcp 0 (fun _ ↦ 101) 0).map
        Taken.keepAlive = [true, true] ∧
      ((receivedServer [keepAliveCmd, [75]]).drain queueIkcp 0 (fun _ ↦ 101) 0).calls =
        joinedServer.calls ∧
      ((receivedServer [keepAliveCmd ++ [33]]).drained queueIkcp 0 (fun _ ↦ 101) 0).map
        Taken.keepAlive = [true] ∧
      ((receivedServer [keepAliveCmd ++ [33]]).drain queueIkcp 0 (fun _ ↦ 101) 0).calls =
        joinedServer.calls :=
  ⟨by decide +kernel, by decide +kernel, by decide +kernel, by decide +kernel⟩

end TestLinux.Kcp
