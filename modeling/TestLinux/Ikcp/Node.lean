import TestLinux.Ikcp.Steps
import TestLinux.Library.Runs

/-!
# Calls of `ikcp.c` and their history

A `Node` is a control block with the history of the calls: the segments and messages that
`ikcp_recv` has handed over, the messages that `ikcp_send` has accepted, the fragments that
`ikcp_flush` has numbered, and the datagrams that have been passed to the output callback. `ikcp.c`
neither stores nor reads the history. A datagram for `ikcp_input` may contain anything.

`ikcp_setmtu` allocates a new buffer and does not look at the segments that are queued already. When
one of them does not fit into the new `mtu`, the next flush writes past the end of the buffer.
`Node.step` has no result for such a call, so that the runs over it are those that the source
survives.
-/

set_option autoImplicit false
set_option relaxedAutoImplicit false

namespace TestLinux.Ikcp

open TestLinux.Serial

/-- The calls that change a control block, with their arguments. -/
inductive Call where
  | send (buffer : List UInt8)
  | recv (len : ℤ)
  | input (data : List UInt8)
  | flush
  | update (current : UInt32)
  | setmtu (mtu : Int32)
  | interval (interval : Int32)
  | nodelay (nodelay interval resend nc : Int32)
  | wndsize (sndwnd rcvwnd : Int32)

/-- A control block and its history. -/
structure Node where
  kcp : Ikcpcb
  read : List Ikcpseg
  delivered : List (List UInt8)
  accepted : List (List UInt8)
  numbered : List (UInt32 × List UInt8)
  datagrams : List (List UInt8)

/-- A new control block, in message mode or in streaming mode. -/
def Node.start (conv : UInt32) (stream : Int32) : Node :=
  ⟨{ create conv with stream := stream }, [], [], [], [], []⟩

/-- A control block after `ikcp_flush` or `ikcp_update`. -/
def Node.flushed (node : Node) (result : List (List UInt8) × Ikcpcb) : Node :=
  { node with
    kcp := result.2
    numbered := node.numbered ++ (node.kcp.sndQueue.take
      (node.kcp.sndQueue.length - result.2.sndQueue.length)).map Ikcpseg.fragment
    datagrams := node.datagrams ++ result.1 }

/-- A call. -/
def Node.call (node : Node) : Call → Node
  | .send buffer =>
    { node with
      kcp := (send node.kcp buffer).2
      accepted :=
        if (send node.kcp buffer).1 = 0 then node.accepted ++ [buffer] else node.accepted }
  | .recv len =>
    if 0 ≤ (recv node.kcp len).1 ∧ 0 ≤ len then
      { node with
        kcp := (recv node.kcp len).2.2
        read := node.read ++ (mergeLoop node.kcp.rcvQueue).1
        delivered := node.delivered ++ [(recv node.kcp len).2.1] }
    else { node with kcp := (recv node.kcp len).2.2 }
  | .input data => { node with kcp := (input node.kcp data).2 }
  | .flush => node.flushed (flush node.kcp)
  | .update current => node.flushed (update node.kcp current)
  | .setmtu mtu => { node with kcp := (setmtu node.kcp mtu).2 }
  | .interval time => { node with kcp := interval node.kcp time }
  | .nodelay delay time resend nc => { node with kcp := nodelay node.kcp delay time resend nc }
  | .wndsize sndwnd rcvwnd => { node with kcp := wndsize node.kcp sndwnd rcvwnd }

/-- A call leaves the `mtu` alone. -/
def Call.KeepsMtu : Call → Prop
  | .setmtu _ => False
  | _ => True

theorem fixed_call (node : Node) {call : Call} (hcall : call.KeepsMtu) :
    (node.call call).kcp.fixed = node.kcp.fixed := by
  cases call with
  | send buffer =>
    change (send node.kcp buffer).2.fixed = _
    rw [send_spec]
    rfl
  | recv len =>
    rw [Node.call]
    split <;> exact fixed_recv node.kcp len
  | input data => exact fixed_input node.kcp data
  | flush => exact fixed_flush node.kcp
  | update current => exact fixed_update node.kcp current
  | setmtu mtu => exact hcall.elim
  | interval time => rfl
  | nodelay delay time resend nc => rfl
  | wndsize sndwnd rcvwnd => rfl

/-- Every segment in `snd_queue` and `snd_buf` fits into a datagram. -/
def Ikcpcb.Fits (kcp : Ikcpcb) (mtu : ℕ) : Prop :=
  ∀ seg ∈ kcp.sndQueue ++ kcp.sndBuf, overhead + seg.data.length ≤ mtu

instance decidableFits (kcp : Ikcpcb) (mtu : ℕ) : Decidable (kcp.Fits mtu) :=
  inferInstanceAs (Decidable (∀ _ ∈ _, _))

/-- `ikcp_setmtu` leaves room for the segments that are queued, and the size of the new buffer does
not wrap. -/
def Call.Keeps (node : Node) : Call → Prop
  | .setmtu mtu => 50 ≤ mtu → mtu < 1431655742 ∧ node.kcp.Fits mtu.toUInt32.toNat
  | _ => True

instance decidableKeeps (node : Node) : ∀ call : Call, Decidable (call.Keeps node)
  | .setmtu mtu =>
    inferInstanceAs (Decidable (50 ≤ mtu → mtu < 1431655742 ∧ node.kcp.Fits mtu.toUInt32.toNat))
  | .send _ | .recv _ | .input _ | .flush | .update _ | .interval _ | .nodelay _ _ _ _
  | .wndsize _ _ => isTrue trivial

/-- A call as a step. A change of the `mtu` has to leave room. -/
def Node.step (node : Node) (call : Call) : Option Node :=
  if call.Keeps node then some (node.call call) else none

theorem Node.step_eq_some {node next : Node} {call : Call} :
    node.step call = some next ↔ call.Keeps node ∧ node.call call = next := by
  rw [Node.step, Option.ite_none_right_eq_some, Option.some.injEq]

/-- A control block after calls, oldest first. -/
def Node.run (node : Node) (calls : List Call) : Node := calls.foldl Node.call node

/-- Induction over calls. Assumes: every call that is made keeps the invariant. -/
theorem Node.run_induction {motive : Node → Prop} {calls : List Call} {node : Node}
    (hstart : motive node)
    (hcall : ∀ node, ∀ call ∈ calls, motive node → motive (node.call call)) :
    motive (node.run calls) := by
  induction calls generalizing node with
  | nil => exact hstart
  | cons call rest ih =>
    refine ih (hcall node call List.mem_cons_self hstart) ?_
    intro later other hother
    exact hcall later other (List.mem_cons_of_mem call hother)

theorem Node.run_of_step {node next : Node} {calls : List Call}
    (hrun : Runs.run Node.step node calls = some next) : node.run calls = next := by
  induction calls generalizing node with
  | nil => exact Option.some.inj hrun
  | cons call rest ih =>
    obtain ⟨middle, hstep, hrest⟩ := Runs.run_cons_eq_some.mp hrun
    obtain ⟨-, rfl⟩ := Node.step_eq_some.mp hstep
    exact ih hrest

/-- Induction over steps. Assumes: every call that is made keeps the invariant. -/
theorem Node.step_induction {motive : Node → Prop} {calls : List Call} {node next : Node}
    (hrun : Runs.run Node.step node calls = some next) (hstart : motive node)
    (hcall : ∀ node, ∀ call ∈ calls, motive node → motive (node.call call)) : motive next := by
  rw [← Node.run_of_step hrun]
  exact Node.run_induction hstart hcall

end TestLinux.Ikcp
