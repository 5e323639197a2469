import TestLinux.Ikcp.Progress

/-!
# What arrives from a peer

A datagram of a hostile peer can change what is complete in any way. A datagram of a peer that runs
`ikcp.c` can only append to it: `completes_run` says so for two control blocks and a network that
loses, duplicates, delays and reorders. With `refines_run` each of the two is then simulated by a
queue of messages, over all that the sessions do with it.

The argument counts the numbers that have arrived. Taking out messages neither adds to them nor
gives up any of them, and when no message is complete any more, all that has arrived without a gap
has been taken out of `rcv_buf`.
-/

set_option autoImplicit false
set_option relaxedAutoImplicit false

namespace TestLinux.Ikcp

open TestLinux.Serial

/-- Fragments of a message whose last one is missing. -/
theorem assemble_eq_nil {fragments tail : List (UInt32 × List UInt8)}
    (hcountdown : Countdown (fragments ++ tail))
    (hlong : ∀ fragment ∈ fragments.head?, fragments.length ≤ fragment.1.toNat)
    (start : List UInt8) : assemble start fragments = [] := by
  induction fragments generalizing start with
  | nil => rfl
  | cons fragment rest ih =>
    have hlength := hlong fragment rfl
    rw [List.length_cons] at hlength
    have hne : fragment.1 ≠ 0 := by
      intro hzero
      rw [hzero] at hlength
      exact absurd hlength (Nat.not_succ_le_zero _)
    rw [assemble, if_neg hne]
    refine ih hcountdown.tail ?_ _
    intro next hnext
    cases rest with
    | nil => cases hnext
    | cons other rest =>
      obtain rfl : other = next := by simpa using hnext
      have hnat := congrArg UInt32.toNat (hcountdown.1 hne)
      rw [UInt32.toNat_add] at hnat
      change (other.1.toNat + 1) % 4294967296 = fragment.1.toNat at hnat
      have hrange := other.1.toNat_lt
      omega

variable {link : Link}

/-- When no message is complete, all that has been received in order has been handed over, but for
the beginning of one message. -/
theorem assemble_received (hready : link.Ready) (hdrained : link.second.Drained) :
    assemble [] (link.received.map Ikcpseg.fragment) = link.second.delivered := by
  have hreads := (hready.messages.reads hready.short_numbered).2
  obtain ⟨tail, htail⟩ : link.second.read.map Ikcpseg.fragment ++
      link.second.kcp.rcvQueue.map Ikcpseg.fragment <+: link.first.queued := by
    rw [← List.map_append]
    exact hready.flow.owns.taken.received.trans (List.prefix_append _ _)
  have hcountdown : Countdown (link.second.kcp.rcvQueue.map Ikcpseg.fragment ++ tail) := by
    have hqueued := hready.messages.cut.1.countdown
    rw [← htail, List.append_assoc] at hqueued
    exact hqueued.drop
  have hnothing : assemble [] (link.second.kcp.rcvQueue.map Ikcpseg.fragment) = [] := by
    refine assemble_eq_nil hcountdown ?_ []
    intro fragment hfragment
    cases hqueue : link.second.kcp.rcvQueue with
    | nil =>
      rw [hqueue] at hfragment
      cases hfragment
    | cons seg rest =>
      rw [hqueue] at hfragment
      obtain rfl : seg.fragment = fragment := by simpa using hfragment
      rw [List.length_map, ← hqueue]
      exact hready.second.incomplete hready.frg hdrained hqueue
  rw [Link.received, Receiver.inOrder, List.map_append,
    assemble_append hreads.closed (fun _ ↦ rfl), hreads.messages]
  change link.second.delivered ++
    assemble [] (link.second.kcp.rcvQueue.map Ikcpseg.fragment) = link.second.delivered
  rw [hnothing, List.append_nil]

/-- The messages that are complete are the next ones of those that the peer has accepted. -/
theorem delivered_complete_front (hready : link.Ready) :
    link.second.delivered ++ complete link.second.kcp <+: link.first.accepted := by
  obtain ⟨second, hlater, -, hdelivered, -⟩ := exists_taken hready rfl
  rw [← hdelivered]
  exact delivered_front hlater.ready.flow hlater.ready.messages.cut.1
    (hlater.ready.messages.reads hlater.ready.short_numbered).2

/-- When all complete messages have been taken out of both, what had arrived in order before a
datagram is part of what has arrived in order after it. -/
theorem received_le (hready : link.Ready) {second second' : Node}
    (hlater : link.Later ⟨link.first, second⟩) (hlater' : link.Later ⟨link.first, second'⟩)
    (hdrained' : second'.Drained)
    (hheld : ∀ sn, second.kcp.receiver.Held second.read sn →
      second'.kcp.receiver.Held second'.read sn) :
    (second.kcp.receiver.inOrder second.read).length ≤
      (second'.kcp.receiver.inOrder second'.read).length := by
  by_contra hlt
  have hcount : (second.kcp.receiver.inOrder second.read).length ≤ link.first.numbered.length :=
    hlater.ready.flow.owns.taken.count_le
  have hshort := hready.short_numbered.1
  unfold bound at hshort
  have hroom := hlater'.ready.second.room hlater'.ready.frg hdrained'
  refine not_held_next hlater'.ready hroom (hheld _ (Or.inl ?_))
  change (UInt32.ofNat (second'.kcp.receiver.inOrder second'.read).length).toNat < _
  rw [toNat_ofNat_of_lt (by omega)]
  omega

/-- A datagram of the peer only appends to what is complete. -/
theorem complete_input_of_arrives (hready : link.Ready) {data : List UInt8}
    (hdata : data ∈ link.first.datagrams) :
    complete link.second.kcp <+: complete (input link.second.kcp data).2 := by
  have hinput := @Link.Ready.second_call _ hready (.input data) trivial hdata
  obtain ⟨second, hlater, hdrained, hdelivered, hheld⟩ := exists_taken hready rfl
  obtain ⟨second', hlater', hdrained', hdelivered', hheld'⟩ := exists_taken hinput.ready rfl
  have hgrows := (hready.flow.owns.input hready.short_numbered.1
    (hready.flow.carried data hdata)).2
  have hle := received_le hready hlater (hinput.trans hlater') hdrained'
    fun sn hsn ↦ (hheld' sn).mpr (hgrows.held sn ((hheld sn).mp hsn))
  have hfront : (second.kcp.receiver.inOrder second.read).map Ikcpseg.fragment <+:
      (second'.kcp.receiver.inOrder second'.read).map Ikcpseg.fragment := by
    refine List.prefix_of_prefix_length_le hlater.ready.flow.owns.taken.received
      hlater'.ready.flow.owns.taken.received ?_
    rw [List.length_map, List.length_map]
    exact hle
  have hmessages := assemble_mono hfront []
  have hfirst := assemble_received hlater.ready hdrained
  have hsecond := assemble_received hlater'.ready hdrained'
  simp only [Link.received] at hfirst hsecond
  rw [hfirst, hsecond, hdelivered, hdelivered'] at hmessages
  exact (List.prefix_append_right_inj _).mp hmessages

/-! ### Both directions -/

/-- One side sees its peer as a queue of messages: what is complete are the next messages of the
peer, and a datagram of the peer appends to them, as it does in the queue. -/
structure Completes (sender receiver : Node) : Prop where
  front : receiver.delivered ++ complete receiver.kcp <+: sender.accepted
  appends : ∀ data ∈ sender.datagrams, ∃ messages,
    ((input receiver.kcp data).1, (receiver.call (.input data)).endpoint) =
      receiver.endpoint.input ⟨data, messages⟩

/-- The two sides exchanged. -/
def Link.swap (link : Link) : Link := ⟨link.second, link.first⟩

theorem Link.Ready.swap (hready : link.Ready) : link.swap.Ready := by
  obtain ⟨⟨⟨hconv, hsends, hframed, hflows⟩, hcut, hreceived, hreads⟩, hfirst, hsecond, hshort⟩ :=
    hready
  exact ⟨⟨⟨hconv.symm, hsends.symm, hframed.symm, fun hshort ↦ (hflows hshort.symm).symm⟩,
    hcut.symm, hreceived.symm, fun hshort ↦ (hreads hshort.symm).symm⟩, hsecond, hfirst,
    hshort.symm⟩

theorem Link.Ready.completes (hready : link.Ready) : Completes link.first link.second where
  front := delivered_complete_front hready
  appends := by
    intro data hdata
    obtain ⟨messages, hmessages⟩ := complete_input_of_arrives hready hdata
    have hconv : (input link.second.kcp data).2.conv = link.second.kcp.conv :=
      congrArg Fixed.conv (fixed_input link.second.kcp data)
    refine ⟨messages, ?_⟩
    rw [input_code, Node.endpoint, Node.call, hconv, ← hmessages]
    rfl

/-- In message mode, over a network that loses, duplicates, delays and reorders datagrams, each side
sees the other one as a queue of messages. Assumes: no receive window beyond 65535 is asked for, and
the numbers last for all that is queued. -/
theorem completes_run {conv : UInt32} {events : List Link.Event} {link : Link}
    (hrun : Runs.run Link.step (Link.start conv 0) events = some link)
    (hasks : ∀ event ∈ events, event.Asks 65535)
    (hshort : link.first.queued.length ≤ bound ∧ link.second.queued.length ≤ bound) :
    Completes link.first link.second ∧ Completes link.second link.first := by
  have hready := ready_run hrun hasks hshort
  exact ⟨hready.completes, hready.swap.completes⟩

/-- The datagram of `unanswered`. -/
def late : List UInt8 :=
  [1, 0, 0, 0, 81, 0, 128, 0, 0, 0, 0, 0, 0, 0, 0, 0, 0, 0, 0, 0, 3, 0, 0, 0, 1, 2, 3]

/-- The datagram arrives after all, and its message is complete. -/
theorem completes_late :
    ∃ link, Runs.run Link.step (Link.start 1 0) unanswered = some link ∧
      link.second.endpoint.ready = [] ∧
      (link.second.call (.input late)).endpoint.ready = [[1, 2, 3]] ∧
      ∃ messages, ((input link.second.kcp late).1, (link.second.call (.input late)).endpoint) =
        link.second.endpoint.input ⟨late, messages⟩ := by
  have hview : (Runs.run Link.step (Link.start 1 0) unanswered).map (fun link ↦
      (link.second.endpoint.ready, (link.second.call (.input late)).endpoint.ready,
        link.first.datagrams, link.first.queued.length, link.second.queued.length)) =
      some ([], [[1, 2, 3]], [late], 1, 0) := by decide +kernel
  obtain ⟨link, hrun, hseen⟩ := Runs.exists_of_view hview
  simp only [Prod.mk.injEq] at hseen
  obtain ⟨hbefore, hafter, hdatagrams, hfirst, hsecond⟩ := hseen
  refine ⟨link, hrun, hbefore, hafter, (completes_run hrun ?_ ⟨?_, ?_⟩).1.appends late ?_⟩
  · intro event hevent
    simp only [unanswered, List.mem_cons, List.not_mem_nil, or_false] at hevent
    rcases hevent with rfl | rfl | rfl <;> trivial
  · rw [hfirst]
    decide
  · rw [hsecond]
    decide
  · rw [hdatagrams]
    exact List.mem_singleton_self late

end TestLinux.Ikcp
