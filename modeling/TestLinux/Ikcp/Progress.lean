import TestLinux.Ikcp.Windows
import TestLinux.Ikcp.Refinement

/-!
# No deadlock

From every state that two control blocks in message mode can reach over a network that loses,
duplicates, delays and reorders datagrams, it is possible to go on such that everything that has
been accepted is handed over (`deliverable_run`): no sequence of losses, no full queue and no closed
window is final. Assumes: no receive window is larger than 65535, and what is queued fits into half
of the range of sequence numbers.

`Link.Later` is what is needed of a continuation. Nothing is sent in it, and the fragments that have
been numbered and those that have been received in order never become fewer. As long as something is
missing, one of the two numbers can be made to grow: the next segment is sent again and received
(`exists_received`), or, when all that is numbered has been received, the sender learns so together
with the window of the receiver and numbers the next one (`exists_numbered`).
-/

set_option autoImplicit false
set_option relaxedAutoImplicit false

namespace TestLinux.Ikcp

open TestLinux.Serial

/-! ### Continuations -/

/-- The calls of a continuation. -/
def Call.Quiet : Call → Prop
  | .recv _ => True
  | .input _ => True
  | .flush => True
  | .update _ => True
  | _ => False

/-- An event of a continuation. -/
def Link.Event.Quiet : Link.Event → Prop
  | .first call => call.Quiet
  | .second call => call.Quiet

theorem Call.Quiet.asks {call : Call} (hquiet : call.Quiet) (limit : ℕ) : call.Asks limit := by
  cases call with
  | wndsize sndwnd rcvwnd => cases hquiet
  | _ => trivial

theorem Call.Quiet.keeps {call : Call} (hquiet : call.Quiet) (node : Node) : call.Keeps node := by
  cases call with
  | setmtu mtu => cases hquiet
  | _ => trivial

theorem Call.Quiet.not_send {call : Call} (hquiet : call.Quiet) (buffer : List UInt8) :
    call ≠ .send buffer := by
  rintro rfl
  cases hquiet

/-- The invariants of two sides in message mode with windows that can be told, as long as the
numbers last for all that is queued. -/
structure Link.Ready (link : Link) : Prop where
  messages : link.Messages
  first : link.first.Open
  second : link.second.Open
  short : link.first.queued.length ≤ bound ∧ link.second.queued.length ≤ bound

theorem Link.Ready.short_numbered {link : Link} (hready : link.Ready) : link.Short := by
  have hle : ∀ node : Node, node.numbered.length ≤ node.queued.length := by
    intro node
    rw [Node.queued, List.length_append]
    exact Nat.le_add_right _ _
  exact ⟨Nat.le_trans (hle link.first) hready.short.1,
    Nat.le_trans (hle link.second) hready.short.2⟩

/-- What the second side has received in order. -/
def Link.received (link : Link) : List Ikcpseg :=
  link.second.kcp.receiver.inOrder link.second.read

/-- A state that can be reached without sending. -/
structure Link.Later (link next : Link) : Prop where
  run : ∃ events, (∀ event ∈ events, event.Quiet) ∧ Runs.run Link.step link events = some next
  ready : next.Ready
  queued : next.first.queued = link.first.queued
  accepted : next.first.accepted = link.first.accepted
  numbered : link.first.numbered.length ≤ next.first.numbered.length
  received : link.received.length ≤ next.received.length

theorem Link.Later.refl {link : Link} (hready : link.Ready) : link.Later link :=
  ⟨⟨[], fun _ hevent ↦ absurd hevent List.not_mem_nil, rfl⟩, hready, rfl, rfl, Nat.le_refl _,
    Nat.le_refl _⟩

theorem Link.Later.trans {link middle next : Link} (hfirst : link.Later middle)
    (hsecond : middle.Later next) : link.Later next := by
  obtain ⟨events, hquiet, hevents⟩ := hfirst.run
  obtain ⟨events', hquiet', hevents'⟩ := hsecond.run
  refine ⟨⟨events ++ events', List.forall_mem_append.mpr ⟨hquiet, hquiet'⟩, ?_⟩, hsecond.ready,
    hsecond.queued.trans hfirst.queued, hsecond.accepted.trans hfirst.accepted,
    Nat.le_trans hfirst.numbered hsecond.numbered, Nat.le_trans hfirst.received hsecond.received⟩
  rw [Runs.run_append, hevents]
  exact hevents'

/-- What has been received in order stays received. -/
theorem Flow.count_call {sender receiver : Node} (hflow : Flow sender receiver)
    (hbound : sender.numbered.length ≤ bound) {call : Call} (harrives : call.Arrives sender) :
    (receiver.kcp.receiver.inOrder receiver.read).length ≤
      ((receiver.call call).kcp.receiver.inOrder (receiver.call call).read).length := by
  have hflush : ∀ kcp : Ikcpcb, (flush kcp).2.rcvQueue = kcp.rcvQueue := by
    intro kcp
    by_cases hupdated : kcp.updated = 0
    · rw [flush, if_pos hupdated]
    · obtain ⟨moved, rest, added, -, -, hreceiver, -, -⟩ := flush_spec hupdated
      exact congrArg Receiver.rcvQueue hreceiver
  cases call with
  | recv len =>
    rcases recv_spec receiver.kcp len with ⟨code, hcode, hrecv⟩ | ⟨probe, hrecv, -⟩
    · have hcall : receiver.call (.recv len) = receiver := by
        rw [Node.call, hrecv, if_neg (fun h ↦ absurd h.1 (not_le.mpr hcode))]
      exact Nat.le_of_eq (congrArg (fun node : Node ↦
        (node.kcp.receiver.inOrder node.read).length) hcall.symm)
    · have hgrows := (hflow.owns.recv hbound len).2.count
      rw [Node.call, hrecv]
      by_cases hlen : len < 0
      · rw [if_neg (fun h ↦ absurd h.2 (not_le.mpr hlen))]
        rw [if_pos hlen] at hgrows
        exact hgrows
      · rw [if_pos ⟨Int.natCast_nonneg _, not_lt.mp hlen⟩]
        rw [if_neg hlen] at hgrows
        exact hgrows
  | input data => exact (hflow.owns.input hbound (hflow.carried data harrives)).2.count
  | flush =>
    refine Nat.le_of_eq (congrArg List.length ?_)
    change receiver.read ++ receiver.kcp.rcvQueue =
      receiver.read ++ (flush receiver.kcp).2.rcvQueue
    rw [hflush]
  | update current =>
    refine Nat.le_of_eq (congrArg List.length ?_)
    change receiver.read ++ receiver.kcp.rcvQueue =
      receiver.read ++ (update receiver.kcp current).2.rcvQueue
    obtain ⟨updated, tsFlush, -, hupdate | hupdate⟩ := update_spec receiver.kcp current
    · rw [hupdate]
      rfl
    · rw [hupdate, hflush]
      rfl
  | send buffer =>
    refine Nat.le_of_eq (congrArg List.length ?_)
    change receiver.read ++ receiver.kcp.rcvQueue =
      receiver.read ++ (send receiver.kcp buffer).2.rcvQueue
    rw [send_spec]
  | setmtu mtu =>
    refine Nat.le_of_eq (congrArg List.length ?_)
    change receiver.read ++ receiver.kcp.rcvQueue =
      receiver.read ++ (setmtu receiver.kcp mtu).2.rcvQueue
    unfold setmtu
    split <;> rfl
  | interval time => exact Nat.le_refl _
  | nodelay delay time resend nc => exact Nat.le_refl _
  | wndsize sndwnd rcvwnd => exact Nat.le_refl _

/-- A call of the first side. -/
theorem Link.Ready.first_call {link : Link} (hready : link.Ready) {call : Call}
    (hquiet : call.Quiet) (harrives : call.Arrives link.second) :
    link.Later { link with first := link.first.call call } := by
  have hstep : link.step (.first call) = some { link with first := link.first.call call } :=
    if_pos ⟨harrives, hquiet.keeps link.first⟩
  obtain ⟨hqueued, haccepted⟩ := queued_call link.first hquiet.not_send
  refine ⟨⟨[.first call], List.forall_mem_singleton.mpr hquiet,
      Runs.run_cons_eq_some.mpr ⟨_, hstep, rfl⟩⟩,
    ⟨hready.messages.step hstep, hready.first.call (hquiet.asks 65535), hready.second, ?_⟩, hqueued,
    haccepted, length_numbered_call link.first call, Nat.le_refl _⟩
  refine ⟨?_, hready.short.2⟩
  change (link.first.call call).queued.length ≤ bound
  rw [hqueued]
  exact hready.short.1

/-- A call of the second side. -/
theorem Link.Ready.second_call {link : Link} (hready : link.Ready) {call : Call}
    (hquiet : call.Quiet) (harrives : call.Arrives link.first) :
    link.Later { link with second := link.second.call call } := by
  have hstep : link.step (.second call) = some { link with second := link.second.call call } :=
    if_pos ⟨harrives, hquiet.keeps link.second⟩
  obtain ⟨hqueued, -⟩ := queued_call link.second hquiet.not_send
  obtain ⟨hforth, -⟩ := hready.messages.valid.flows hready.short_numbered
  refine ⟨⟨[.second call], List.forall_mem_singleton.mpr hquiet,
      Runs.run_cons_eq_some.mpr ⟨_, hstep, rfl⟩⟩,
    ⟨hready.messages.step hstep, hready.first, hready.second.call (hquiet.asks 65535), ?_⟩, rfl,
    rfl, Nat.le_refl _, hforth.count_call hready.short_numbered.1 harrives⟩
  refine ⟨hready.short.1, ?_⟩
  change (link.second.call call).queued.length ≤ bound
  rw [hqueued]
  exact hready.short.2

/-! ### Flushing -/

/-- A flush is possible at any time of the clock. -/
theorem Node.flush_at (node : Node) (current : UInt32) : ∃ updated tsFlush, updated ≠ 0 ∧
    (node.call (.update current) =
        node.flushed (flush (node.kcp.clocked current updated tsFlush)) ∨
      (node.call (.update current)).call .flush =
        node.flushed (flush (node.kcp.clocked current updated tsFlush))) := by
  obtain ⟨updated, tsFlush, hupdated, hupdate | hupdate⟩ := update_spec node.kcp current
  · refine ⟨updated, tsFlush, hupdated, Or.inr ?_⟩
    have hcall : node.call (.update current) =
        node.flushed ([], node.kcp.clocked current updated tsFlush) := by
      rw [Node.call, hupdate]
    rw [hcall, Node.call]
    have hidle : (node.flushed ([], node.kcp.clocked current updated tsFlush)).numbered =
        node.numbered := by
      refine (flushed_idle node ?_).1
      rfl
    simp only [Node.flushed] at hidle ⊢
    rw [hidle, List.append_nil]
    rfl
  · refine ⟨updated, tsFlush, hupdated, Or.inl ?_⟩
    rw [Node.call, hupdate]

theorem Link.Ready.first_flush {link : Link} (hready : link.Ready) (current : UInt32) :
    ∃ updated tsFlush, updated ≠ 0 ∧ link.Later
      ⟨link.first.flushed (flush (link.first.kcp.clocked current updated tsFlush)),
        link.second⟩ := by
  obtain ⟨updated, tsFlush, hupdated, hcall⟩ := link.first.flush_at current
  refine ⟨updated, tsFlush, hupdated, ?_⟩
  have hupdate := @Link.Ready.first_call link hready (.update current) trivial trivial
  rcases hcall with hcall | hcall
  · rw [← hcall]
    exact hupdate
  · rw [← hcall]
    exact hupdate.trans (hupdate.ready.first_call trivial trivial)

theorem Link.Ready.second_flush {link : Link} (hready : link.Ready) (current : UInt32) :
    ∃ updated tsFlush, updated ≠ 0 ∧ link.Later
      ⟨link.first,
        link.second.flushed (flush (link.second.kcp.clocked current updated tsFlush))⟩ := by
  obtain ⟨updated, tsFlush, hupdated, hcall⟩ := link.second.flush_at current
  refine ⟨updated, tsFlush, hupdated, ?_⟩
  have hupdate := @Link.Ready.second_call link hready (.update current) trivial trivial
  rcases hcall with hcall | hcall
  · rw [← hcall]
    exact hupdate
  · rw [← hcall]
    exact hupdate.trans (hupdate.ready.second_call trivial trivial)

/-! ### Receiving the next segment -/

variable {link : Link}

theorem Link.Ready.flow (hready : link.Ready) : Flow link.first link.second :=
  (hready.messages.valid.flows hready.short_numbered).1

theorem Link.Ready.frg (hready : link.Ready) :
    ∀ seg ∈ link.second.kcp.rcvQueue, seg.frg.toNat < 128 := by
  intro seg hseg
  have hmem : seg.fragment ∈ link.first.numbered :=
    hready.flow.owns.taken.received.subset
      (List.mem_map_of_mem (List.mem_append_right link.second.read hseg))
  exact (hready.messages.valid.framed.1.fragments seg.fragment (List.mem_append_left _ hmem)).1

/-- With room in the queue, the next segment has not arrived. -/
theorem not_held_next (hready : link.Ready) (hroom : link.second.kcp.rcvQueue.length < 128) :
    ¬ link.second.kcp.receiver.Held link.second.read (UInt32.ofNat link.received.length) := by
  have hcount : link.received.length ≤ link.first.numbered.length :=
    hready.flow.owns.taken.count_le
  have hshort := hready.short_numbered.1
  unfold bound at hshort
  rintro (hheld | ⟨seg, hseg, hheld⟩)
  · rw [toNat_ofNat_of_lt (by omega)] at hheld
    exact Nat.lt_irrefl _ hheld
  · have hnext := hready.flow.owns.taken.next
    have hwaits := hready.second.settled.waits seg hseg (hheld.trans hnext.symm)
    exact absurd hroom (Nat.not_lt.mpr hwaits)

/-- The next segment is missing only if the sender still has it. -/
theorem exists_next (hready : link.Ready) (hroom : link.second.kcp.rcvQueue.length < 128)
    (hlt : link.received.length < link.first.numbered.length) :
    ∃ seg ∈ link.first.kcp.sndBuf, seg.sn.toNat = link.received.length := by
  have hshort := hready.short_numbered.1
  unfold bound at hshort
  have hsn : (UInt32.ofNat link.received.length).toNat = link.received.length :=
    toNat_ofNat_of_lt (by omega)
  rcases hready.flow.kept (UInt32.ofNat link.received.length) (by omega) with
    hheld | ⟨seg, hseg, hkept⟩
  · exact absurd hheld (not_held_next hready hroom)
  · exact ⟨seg, hseg, by rw [hkept, hsn]⟩

/-- A segment of `snd_buf` can be sent again and arrive. -/
theorem exists_arrived (hready : link.Ready) {seg : Ikcpseg} (hseg : seg ∈ link.first.kcp.sndBuf) :
    ∃ first bytes, link.Later ⟨first, link.second⟩ ∧ bytes ∈ first.datagrams ∧
      Carries (Ikcpseg.Carried link.second.kcp.conv first.numbered)
        (fun other ↦ other.content = seg.content) bytes := by
  obtain ⟨updated, tsFlush, hupdated, hlater⟩ := hready.first_flush seg.resendts
  set ready := link.first.kcp.clocked seg.resendts updated tsFlush
  have hdue : 0 ≤ diff ready.current seg.resendts := by
    rw [diff_nonneg_iff]
    change offset seg.resendts seg.resendts < 2147483648
    rw [offset_self]
    decide
  have hready' : ready.updated ≠ 0 := hupdated
  obtain ⟨bytes, hbytes, hcarries⟩ := flush_holds hready'
    (Or.inr ⟨seg, hseg, hdue, fun other hother ↦ hother⟩)
  refine ⟨_, bytes, hlater, List.mem_append_right _ hbytes, hcarries.mono ?_⟩
  have hvalid := hlater.ready.messages.valid
  have hconv : link.second.kcp.conv = ready.conv := hready.messages.valid.conv.symm
  have hsame : (link.first.flushed (flush ready)).kcp.conv = ready.conv :=
    congrArg Fixed.conv (fixed_flush ready)
  intro other hemitted
  rw [hconv]
  exact carried_of_emitted hvalid.sends.1 hvalid.framed.1 hlater.ready.short_numbered.1 hsame
    hemitted

/-- As long as not all that is numbered has been received, more of it can be. -/
theorem exists_received (hready : link.Ready) (hdrained : link.second.Drained)
    (hlt : link.received.length < link.first.numbered.length) :
    ∃ next, link.Later next ∧ link.received.length < next.received.length := by
  have hroom := hready.second.room hready.frg hdrained
  obtain ⟨seg, hseg, hsn⟩ := exists_next hready hroom hlt
  obtain ⟨first, bytes, hlater, hbytes, hcarries⟩ := exists_arrived hready hseg
  have hinput := @Link.Ready.second_call _ hlater.ready (.input bytes) trivial hbytes
  refine ⟨_, hlater.trans hinput, ?_⟩
  have hcmd := (hready.messages.valid.sends.1.content seg hseg).2.1
  refine input_advance (by decide) hlater.ready.short_numbered.1 hlater.ready.flow.owns
    hready.second.valid (Nat.lt_of_lt_of_le hroom hready.second.settled.window) (hcarries.imp ?_)
  intro other hcontent
  simp only [Ikcpseg.content, Content.mk.injEq] at hcontent
  obtain ⟨-, hcmd', hsn', -, -⟩ := hcontent
  refine ⟨?_, by rw [hsn']; exact hsn⟩
  rw [hcmd', hcmd]
  decide

/-! ### Numbering the next segment -/

theorem wndUnused_pos {node : Node} (hopen : node.Open) (hroom : node.kcp.rcvQueue.length < 128) :
    0 < (wndUnused node.kcp).toNat ∧ (wndUnused node.kcp).toNat ≤ 65535 := by
  have hwindow : 128 ≤ node.kcp.rcvWnd.toNat := hopen.settled.window
  have hlimit : node.kcp.rcvWnd.toNat ≤ 65535 := hopen.valid.window
  have hqueue : node.kcp.nrcvQue.toNat = node.kcp.rcvQueue.length := by
    have hcount : node.kcp.nrcvQue = UInt32.ofNat node.kcp.rcvQueue.length := hopen.valid.queue
    rw [hcount, toNat_ofNat_of_lt (by omega)]
  have hlt : node.kcp.nrcvQue < node.kcp.rcvWnd := UInt32.lt_iff_toNat_lt.mpr (by omega)
  rw [wndUnused, if_pos hlt, UInt32.toNat_sub_of_le _ _ (UInt32.le_of_lt hlt)]
  omega

/-- What is numbered and what waits is all that is queued. -/
theorem Node.length_queued (node : Node) :
    node.queued.length = node.numbered.length + node.kcp.sndQueue.length := by
  rw [Node.queued, List.length_append, List.length_map]

/-- When all that is numbered has been received, and the receiver has something to answer, the
sender can learn both this and the window. -/
theorem exists_answered (hready : link.Ready) (hroom : link.second.kcp.rcvQueue.length < 128)
    (hall : link.received.length = link.first.numbered.length)
    (hanswer : link.second.kcp.acklist ≠ [] ∨ link.second.kcp.probe &&& askTell ≠ 0) :
    ∃ next, link.Later next ∧ next.first.kcp.sndBuf = [] ∧ 0 < next.first.kcp.rmtWnd.toNat ∧
      next.first.kcp.sndQueue = link.first.kcp.sndQueue := by
  obtain ⟨updated, tsFlush, hupdated, hlater⟩ := hready.second_flush 0
  set ready := link.second.kcp.clocked 0 updated tsFlush
  have hready' : ready.updated ≠ 0 := hupdated
  have hheld : (flushHead ready).2.1.Holds (Emitted ready []) fun _ ↦ True :=
    hanswer.elim (fun hacks ↦ flushHead_holds_ack hacks) fun htell ↦ flushHead_holds_tell htell
  obtain ⟨bytes, hbytes, hcarries⟩ := flush_holds hready' (Or.inl hheld)
  have hinput := @Link.Ready.first_call _ hlater.ready (.input bytes) trivial
    (List.mem_append_right _ hbytes)
  obtain ⟨hpos, hlimit⟩ := wndUnused_pos hready.second hroom
  have hvalid := hlater.ready.messages.valid
  -- what the receiver reports is the number of all that is numbered
  have huna : link.second.kcp.rcvNxt.toNat = link.first.numbered.length :=
    (hready.flow.owns.taken.toNat_next hready.short_numbered.1).trans hall
  have hbehind : ∀ seg ∈ link.first.kcp.sndBuf, 0 < diff link.second.kcp.rcvNxt seg.sn := by
    intro seg hseg
    have hshort := hready.short_numbered.1
    obtain ⟨-, hinflight⟩ := hready.messages.valid.sends.1.position hshort hseg
    obtain ⟨hlt, -⟩ := List.getElem?_eq_some_iff.mp
      (hready.messages.valid.sends.1.getElem hshort hseg)
    rw [diff_of_toNat (by omega) (by omega)]
    omega
  have hreports : Carries (fun seg ↦ seg.Readable link.first.kcp.conv ∧
      seg.una = link.second.kcp.rcvNxt ∧ seg.wnd = wndUnused link.second.kcp)
      (fun _ ↦ True) bytes := by
    refine hcarries.mono fun seg hemitted ↦ ⟨?_, hemitted.una, hemitted.wnd⟩
    have hconv : link.first.kcp.conv = ready.conv := hready.messages.valid.conv
    have hsame : (link.second.flushed (flush ready)).kcp.conv = ready.conv :=
      congrArg Fixed.conv (fixed_flush ready)
    rw [hconv]
    exact readable_of_emitted hvalid.sends.2
      (fun fragment hfragment ↦ (hvalid.framed.2.fragments fragment hfragment).2) hsame hemitted
  obtain ⟨hbuf, hwnd⟩ := input_una hlimit hbehind hreports
  refine ⟨_, hlater.trans hinput, hbuf, ?_, congrArg Prod.fst (waiting_input _ _)⟩
  change 0 < (input link.first.kcp bytes).2.rmtWnd.toNat
  rwa [hwnd]

/-- A flush that numbers nothing leaves `snd_buf` empty. -/
theorem sndBuf_flushed {kcp : Ikcpcb} (hupdated : kcp.updated ≠ 0) (hbuf : kcp.sndBuf = [])
    (hqueue : (flush kcp).2.sndQueue.length = kcp.sndQueue.length) :
    (flush kcp).2.sndBuf = [] ∧ (flush kcp).2.rmtWnd = kcp.rmtWnd := by
  obtain ⟨moved, rest, added, hnumbered, -, -, hsender, hcontent⟩ := flush_spec hupdated
  refine ⟨?_, congrArg Sender.rmtWnd hsender⟩
  have hrest : (flush kcp).2.sndQueue = rest := congrArg Sender.sndQueue hsender
  have hmoved : moved.length = 0 := by
    rw [hrest, hnumbered.queue, List.length_append] at hqueue
    omega
  have hadded : added.length = moved.length := by
    rw [← List.length_map Ikcpseg.fragment, hnumbered.fragments, List.length_map]
  rw [hbuf, List.nil_append] at hcontent
  have hlength := congrArg List.length hcontent
  rw [List.length_map, List.length_map, hadded, hmoved] at hlength
  exact List.length_eq_zero_iff.mp hlength

/-- When all that is numbered has been received, a datagram does not change that. -/
theorem input_all (hready : link.Ready) (hroom : link.second.kcp.rcvQueue.length < 128)
    (hall : link.received.length = link.first.numbered.length) {bytes : List UInt8}
    (hbytes : bytes ∈ link.first.datagrams) :
    link.Later ⟨link.first, link.second.call (.input bytes)⟩ ∧
      (⟨link.first, link.second.call (.input bytes)⟩ : Link).received.length =
        link.first.numbered.length ∧
      (input link.second.kcp bytes).2.rcvQueue.length < 128 := by
  have hinput := @Link.Ready.second_call _ hready (.input bytes) trivial hbytes
  have hle : (⟨link.first, link.second.call (.input bytes)⟩ : Link).received.length ≤
      link.first.numbered.length := hinput.ready.flow.owns.taken.count_le
  have hge := hinput.received
  have hsame : (⟨link.first, link.second.call (.input bytes)⟩ : Link).received.length =
      link.first.numbered.length := Nat.le_antisymm hle (hall ▸ hge)
  refine ⟨hinput, hsame, ?_⟩
  have hbefore : link.received.length =
      link.second.read.length + link.second.kcp.rcvQueue.length := List.length_append
  have hafter : (⟨link.first, link.second.call (.input bytes)⟩ : Link).received.length =
      link.second.read.length + (input link.second.kcp bytes).2.rcvQueue.length :=
    List.length_append
  omega

/-- When all that is numbered has been received, the sender can learn so, unless it numbers more. -/
theorem exists_acked (hready : link.Ready) (hroom : link.second.kcp.rcvQueue.length < 128)
    (hall : link.received.length = link.first.numbered.length)
    (hbuf : link.first.kcp.sndBuf ≠ []) :
    ∃ next, link.Later next ∧ (link.first.numbered.length < next.first.numbered.length ∨
      next.first.kcp.sndBuf = [] ∧ 0 < next.first.kcp.rmtWnd.toNat) := by
  obtain ⟨seg, hseg⟩ := List.exists_mem_of_ne_nil _ hbuf
  obtain ⟨first, bytes, hlater, hbytes, hcarries⟩ := exists_arrived hready hseg
  rcases Nat.lt_or_eq_of_le hlater.numbered with hgrown | hsame
  · exact ⟨_, hlater, Or.inl hgrown⟩
  have hsends := hready.messages.valid.sends.1
  have hcmd := (hsends.content seg hseg).2.1
  have hacks : (input link.second.kcp bytes).2.acklist ≠ [] := by
    refine input_acks (Nat.le_refl _) hlater.ready.short_numbered.1 hlater.ready.flow.owns
      hready.second.valid (hall.trans hsame) (hcarries.imp ?_)
    intro other hcontent
    simp only [Ikcpseg.content, Content.mk.injEq] at hcontent
    obtain ⟨-, hcmd', hsn', -, -⟩ := hcontent
    refine ⟨?_, ?_⟩
    · rw [hcmd', hcmd]
      decide
    · rw [hsn', ← hsame]
      exact (hsends.position hready.short_numbered.1 hseg).2
  obtain ⟨hinput, hall', hroom'⟩ := input_all hlater.ready hroom (hall.trans hsame) hbytes
  obtain ⟨next, hnext, hempty, hpos, -⟩ := exists_answered hinput.ready hroom' hall' (Or.inl hacks)
  exact ⟨next, (hlater.trans hinput).trans hnext, Or.inr ⟨hempty, hpos⟩⟩

/-- A closed window is probed: a time for it is set, unless the sender numbers more. -/
theorem exists_waiting (hready : link.Ready) (hbuf : link.first.kcp.sndBuf = [])
    (hwnd : link.first.kcp.rmtWnd = 0) :
    ∃ first, link.Later ⟨first, link.second⟩ ∧
      (link.first.numbered.length < first.numbered.length ∨
        first.kcp.sndBuf = [] ∧ first.kcp.rmtWnd = 0 ∧ first.kcp.probeWait ≠ 0) := by
  by_cases hwait : link.first.kcp.probeWait = 0
  · obtain ⟨updated, tsFlush, hupdated, hlater⟩ := hready.first_flush 0
    rcases Nat.lt_or_eq_of_le hlater.numbered with hgrown | hsame
    · exact ⟨_, hlater, Or.inl hgrown⟩
    set ready := link.first.kcp.clocked 0 updated tsFlush
    have hready' : ready.updated ≠ 0 := hupdated
    have hqueue : (flush ready).2.sndQueue.length = ready.sndQueue.length := by
      have hqueued := congrArg List.length hlater.queued
      rw [Node.length_queued, Node.length_queued, ← hsame] at hqueued
      exact Nat.add_left_cancel hqueued
    obtain ⟨hempty, hstill⟩ := sndBuf_flushed hready' hbuf hqueue
    exact ⟨_, hlater, Or.inr ⟨hempty, hstill.trans hwnd, probeWait_flush hready' hwnd hwait⟩⟩
  · exact ⟨link.first, Link.Later.refl hready, Or.inr ⟨hbuf, hwnd, hwait⟩⟩

/-- When all that is numbered has been received, a closed window can be opened, unless the sender
numbers more. -/
theorem exists_opened (hready : link.Ready) (hroom : link.second.kcp.rcvQueue.length < 128)
    (hall : link.received.length = link.first.numbered.length)
    (hbuf : link.first.kcp.sndBuf = []) (hwnd : link.first.kcp.rmtWnd = 0) :
    ∃ next, link.Later next ∧ (link.first.numbered.length < next.first.numbered.length ∨
      next.first.kcp.sndBuf = [] ∧ 0 < next.first.kcp.rmtWnd.toNat) := by
  obtain ⟨first, hlater, hgrown | ⟨hempty, hclosed, hwait⟩⟩ := exists_waiting hready hbuf hwnd
  · exact ⟨_, hlater, Or.inl hgrown⟩
  rcases Nat.lt_or_eq_of_le hlater.numbered with hgrown | hsame
  · exact ⟨_, hlater, Or.inl hgrown⟩
  obtain ⟨updated, tsFlush, hupdated, hflush⟩ := hlater.ready.first_flush first.kcp.tsProbe
  rcases Nat.lt_or_eq_of_le hflush.numbered with hgrown | hsame'
  · exact ⟨_, hlater.trans hflush, Or.inl (hsame ▸ hgrown)⟩
  set ready := first.kcp.clocked first.kcp.tsProbe updated tsFlush
  have hready' : ready.updated ≠ 0 := hupdated
  have hdue : 0 ≤ diff ready.current ready.tsProbe := by
    rw [diff_nonneg_iff]
    change offset first.kcp.tsProbe first.kcp.tsProbe < 2147483648
    rw [offset_self]
    decide
  obtain ⟨bytes, hbytes, hcarries⟩ :=
    flush_holds hready' (Or.inl (flushHead_holds_ask hclosed hwait hdue))
  have hvalid := hflush.ready.messages.valid
  have hasks : (input link.second.kcp bytes).2.probe &&& askTell ≠ 0 := by
    refine input_asks (hcarries.mono fun seg hemitted ↦ ?_)
    have hconv : link.second.kcp.conv = ready.conv := hlater.ready.messages.valid.conv.symm
    have hsame : (first.flushed (flush ready)).kcp.conv = ready.conv :=
      congrArg Fixed.conv (fixed_flush ready)
    rw [hconv]
    exact readable_of_emitted hvalid.sends.1
      (fun fragment hfragment ↦ (hvalid.framed.1.fragments fragment hfragment).2) hsame hemitted
  obtain ⟨hinput, hall', hroom'⟩ := input_all hflush.ready hroom
    ((hall.trans hsame).trans hsame') (List.mem_append_right _ hbytes)
  obtain ⟨next, hnext, hempty', hpos, -⟩ := exists_answered hinput.ready hroom' hall' (Or.inr hasks)
  exact ⟨next, ((hlater.trans hflush).trans hinput).trans hnext, Or.inr ⟨hempty', hpos⟩⟩

/-- Nothing in flight and an open window: the sender numbers more. -/
theorem exists_flushed (hready : link.Ready) (hbuf : link.first.kcp.sndBuf = [])
    (hwnd : 0 < link.first.kcp.rmtWnd.toNat) (hqueue : link.first.kcp.sndQueue ≠ []) :
    ∃ next, link.Later next ∧ link.first.numbered.length < next.first.numbered.length := by
  -- the first flush opens the congestion window
  obtain ⟨updated, tsFlush, hupdated, hlater⟩ := hready.first_flush 0
  rcases Nat.lt_or_eq_of_le hlater.numbered with hgrown | hsame
  · exact ⟨_, hlater, hgrown⟩
  set ready := link.first.kcp.clocked 0 updated tsFlush
  have hready' : ready.updated ≠ 0 := hupdated
  have hlength : (flush ready).2.sndQueue.length = link.first.kcp.sndQueue.length := by
    have hqueued := congrArg List.length hlater.queued
    rw [Node.length_queued, Node.length_queued, ← hsame] at hqueued
    exact Nat.add_left_cancel hqueued
  obtain ⟨hempty, hstill⟩ := sndBuf_flushed hready' hbuf hlength
  obtain ⟨updated', tsFlush', hupdated', hflush⟩ := hlater.ready.first_flush 0
  refine ⟨_, hlater.trans hflush, ?_⟩
  set ready' := (flush ready).2.clocked 0 updated' tsFlush'
  have hsends : (link.first.flushed (flush ready)).Sends := hlater.ready.messages.valid.sends.1
  have hnumbers : (flush ready').2.sndQueue.length < (flush ready).2.sndQueue.length := by
    refine @flush_numbers ready' hupdated' ?_ ?_ ?_ ?_
    · intro hnil
      have hzero := congrArg List.length hnil
      change (flush ready).2.sndQueue.length = 0 at hzero
      rw [hlength] at hzero
      exact hqueue (List.length_eq_zero_iff.mp hzero)
    · have huna : (flush ready).2.sndUna =
          ((flush ready).2.sndBuf.map Ikcpseg.sn).headD (flush ready).2.sndNxt := hsends.una
      rw [hempty] at huna
      exact huna
    · refine flushWindow_pos ?_ ?_ (cwnd_flush hready')
      · change 0 < (flush ready).2.sndWnd.toNat
        rw [sndWnd_flush hready']
        exact hready.first.send
      · change 0 < (flush ready).2.rmtWnd.toNat
        rw [hstill]
        exact hwnd
    · exact hsends.remote
  have hqueued := congrArg List.length hflush.queued
  rw [Node.length_queued, Node.length_queued] at hqueued
  change _ + (flush ready').2.sndQueue.length =
    (link.first.flushed (flush ready)).numbered.length + (flush ready).2.sndQueue.length at hqueued
  change link.first.numbered.length = (link.first.flushed (flush ready)).numbered.length at hsame
  omega

/-- When all that is numbered has been received and more is queued, more can be numbered. -/
theorem exists_numbered (hready : link.Ready) (hdrained : link.second.Drained)
    (hall : link.received.length = link.first.numbered.length)
    (hqueue : link.first.kcp.sndQueue ≠ []) :
    ∃ next, link.Later next ∧ link.first.numbered.length < next.first.numbered.length := by
  have hroom := hready.second.room hready.frg hdrained
  obtain ⟨next, hlater, hgrown | ⟨hempty, hpos⟩⟩ : ∃ next, link.Later next ∧
      (link.first.numbered.length < next.first.numbered.length ∨
        next.first.kcp.sndBuf = [] ∧ 0 < next.first.kcp.rmtWnd.toNat) := by
    by_cases hbuf : link.first.kcp.sndBuf = []
    · by_cases hwnd : link.first.kcp.rmtWnd = 0
      · exact exists_opened hready hroom hall hbuf hwnd
      · refine ⟨link, Link.Later.refl hready, Or.inr ⟨hbuf, Nat.pos_of_ne_zero ?_⟩⟩
        exact fun hzero ↦ hwnd (UInt32.toNat_inj.mp hzero)
    · exact exists_acked hready hroom hall hbuf
  · exact ⟨next, hlater, hgrown⟩
  rcases Nat.lt_or_eq_of_le hlater.numbered with hgrown | hsame
  · exact ⟨next, hlater, hgrown⟩
  have hqueue' : next.first.kcp.sndQueue ≠ [] := by
    intro hnil
    have hqueued := congrArg List.length hlater.queued
    rw [Node.length_queued, Node.length_queued, hnil, List.length_nil, ← hsame] at hqueued
    exact hqueue (List.length_eq_zero_iff.mp (Nat.add_left_cancel hqueued).symm)
  obtain ⟨final, hfinal, hgrown⟩ := exists_flushed hlater.ready hempty hpos hqueue'
  exact ⟨final, hlater.trans hfinal, hsame ▸ hgrown⟩

/-! ### Handing over -/

/-- The first of the complete messages is taken out, and the others stay. -/
theorem Link.Ready.take (hready : link.Ready) {message : List UInt8}
    {rest : List (List UInt8)} (hcons : complete link.second.kcp = message :: rest) :
    ∃ second, link.Later ⟨link.first, second⟩ ∧ complete second.kcp = rest ∧
      second.delivered = link.second.delivered ++ [message] ∧
      ∀ sn, second.kcp.receiver.Held second.read sn ↔
        link.second.kcp.receiver.Held link.second.read sn := by
  obtain ⟨hsize, hmessage, -⟩ := complete_cons hcons
  have hlength : peeksize link.second.kcp = (message.length : ℤ) := by
    rw [peeksize_eq hsize, hmessage]
  obtain ⟨probe, hrecv⟩ := recv_peeksize hsize (Int.le_of_eq hlength)
  have hneg : ¬ (message.length : ℤ) < 0 := not_lt.mpr (Int.natCast_nonneg _)
  have hcall : link.second.call (.recv message.length) = { link.second with
      kcp := { moveAvailable (takeFragments link.second.kcp message.length) with probe := probe }
      read := link.second.read ++ (mergeLoop link.second.kcp.rcvQueue).1
      delivered := link.second.delivered ++ [message] } := by
    rw [Node.call, hrecv, if_pos ⟨Int.natCast_nonneg _, Int.natCast_nonneg _⟩, ← hmessage]
  have hlater := @Link.Ready.second_call _ hready (.recv message.length) trivial trivial
  rw [hcall] at hlater
  refine ⟨_, hlater, ?_, rfl, fun sn ↦ ?_⟩
  · obtain ⟨next, hnext, hrest⟩ := recv_of_fits hcons (Nat.le_refl message.length)
    rw [hrecv] at hnext
    rw [← hrest, ← (Prod.mk.inj (Prod.mk.inj hnext).2).2]
  · have hheld := held_takeFragments link.second.kcp link.second.read message.length sn
    have htaken := hready.flow.owns.taken.takeFragments message.length
    rw [if_neg hneg] at hheld htaken
    have hbound := hready.short_numbered.1
    exact ⟨fun hlate ↦ hheld.mp (htaken.held_of_moveAvailable hbound hlate),
      fun hearly ↦ (htaken.moveAvailable hbound).2.held sn (hheld.mpr hearly)⟩

/-- All complete messages are taken out. -/
theorem exists_taken (hready : link.Ready) {messages : List (List UInt8)}
    (hmessages : complete link.second.kcp = messages) :
    ∃ second, link.Later ⟨link.first, second⟩ ∧ second.Drained ∧
      second.delivered = link.second.delivered ++ messages ∧
      ∀ sn, second.kcp.receiver.Held second.read sn ↔
        link.second.kcp.receiver.Held link.second.read sn := by
  induction messages generalizing link with
  | nil =>
    exact ⟨link.second, Link.Later.refl hready, peeksize_neg hmessages,
      (List.append_nil _).symm, fun _ ↦ Iff.rfl⟩
  | cons message rest ih =>
    obtain ⟨middle, hlater, hrest, hdelivered, hheld⟩ := hready.take hmessages
    obtain ⟨second, hsecond, hdrained, hall, hheld'⟩ := ih hlater.ready hrest
    refine ⟨second, hlater.trans hsecond, hdrained, ?_, fun sn ↦ (hheld' sn).trans (hheld sn)⟩
    rw [hall, hdelivered, List.append_assoc]
    rfl

/-- When everything has been received and nothing more can be handed over, everything has been. -/
theorem delivered_all (hready : link.Ready) (hdrained : link.second.Drained)
    (hall : link.received.length = link.first.numbered.length)
    (hqueue : link.first.kcp.sndQueue = []) :
    link.second.delivered = link.first.accepted := by
  have hqueued : link.first.queued = link.first.numbered := by
    rw [Node.queued, hqueue, List.map_nil, List.append_nil]
  have hreceived : link.second.read.map Ikcpseg.fragment ++
      link.second.kcp.rcvQueue.map Ikcpseg.fragment = link.first.queued := by
    rw [hqueued, ← List.map_append]
    exact hready.flow.owns.taken.received.eq_of_length (by rw [List.length_map]; exact hall)
  have hcut := hready.messages.cut.1
  have hreads := (hready.messages.reads hready.short_numbered).2
  have hcountdown : Countdown (link.second.kcp.rcvQueue.map Ikcpseg.fragment) := by
    have hcountdown := hcut.countdown
    rw [← hreceived] at hcountdown
    exact hcountdown.drop
  have hempty : link.second.kcp.rcvQueue = [] := by
    cases hsegs : link.second.kcp.rcvQueue with
    | nil => rfl
    | cons seg rest =>
      -- the fragments go down to 0, so that the first message would be complete
      have hle := hready.second.incomplete hready.frg hdrained hsegs
      rw [hsegs] at hcountdown hle
      have hlt := hcountdown.lt_length
      rw [List.length_cons, List.length_map, ← List.length_cons] at hlt
      exact absurd hle (Nat.not_le.mpr hlt)
  rw [hempty, List.map_nil, List.append_nil] at hreceived
  rw [← hreads.messages, ← hcut.messages, hreceived]

/-- From every such state, everything that has been accepted can be handed over. -/
theorem exists_delivered (hready : link.Ready) :
    ∃ next, link.Later next ∧ next.second.delivered = link.first.accepted := by
  induction hmissing : 2 * link.first.queued.length -
      (link.first.numbered.length + link.received.length) using Nat.strongRecOn
      generalizing link with
  | ind missing ih =>
    obtain ⟨second, hdrain, hdrained, -⟩ := exists_taken hready rfl
    have hle := hdrain.ready.flow.owns.taken.count_le
    have hcount : ∀ {next : Link}, link.Later next → next.first.numbered.length ≤
        link.first.queued.length := by
      intro next hlater
      rw [← hlater.queued, Node.length_queued]
      exact Nat.le_add_right _ _
    have hgoal : ∀ {next : Link}, link.Later next →
        link.first.numbered.length + link.received.length <
          next.first.numbered.length + next.received.length →
        ∃ final, link.Later final ∧ final.second.delivered = link.first.accepted := by
      intro next hlater hmore
      have hbound := hcount hlater
      have hreceived : next.received.length ≤ next.first.numbered.length :=
        hlater.ready.flow.owns.taken.count_le
      obtain ⟨final, hfinal, hdelivered⟩ := ih _ (by rw [hlater.queued]; omega) hlater.ready rfl
      exact ⟨final, hlater.trans hfinal, hdelivered.trans hlater.accepted⟩
    rcases Nat.lt_or_eq_of_le hle with hlt | hall
    · obtain ⟨next, hlater, hmore⟩ := exists_received hdrain.ready hdrained hlt
      refine hgoal (hdrain.trans hlater) ?_
      exact Nat.add_lt_add_of_le_of_lt hlater.numbered (Nat.lt_of_le_of_lt hdrain.received hmore)
    · by_cases hqueue : link.first.kcp.sndQueue = []
      · exact ⟨_, hdrain, delivered_all hdrain.ready hdrained hall hqueue⟩
      · obtain ⟨next, hlater, hmore⟩ := exists_numbered hdrain.ready hdrained hall hqueue
        refine hgoal (hdrain.trans hlater) ?_
        exact Nat.add_lt_add_of_lt_of_le hmore (Nat.le_trans hdrain.received hlater.received)

/-! ### Runs -/

/-- A call at one of the two sides does not ask for a receive window beyond the limit. -/
def Link.Event.Asks (limit : ℕ) : Link.Event → Prop
  | .first call => call.Asks limit
  | .second call => call.Asks limit

theorem open_step {link next : Link} {event : Link.Event}
    (hopen : link.first.Open ∧ link.second.Open) (hasks : event.Asks 65535)
    (hstep : link.step event = some next) : next.first.Open ∧ next.second.Open := by
  cases event with
  | first call =>
    rw [Link.step, Option.ite_none_right_eq_some] at hstep
    obtain rfl := Option.some.inj hstep.2
    exact ⟨hopen.1.call hasks, hopen.2⟩
  | second call =>
    rw [Link.step, Option.ite_none_right_eq_some] at hstep
    obtain rfl := Option.some.inj hstep.2
    exact ⟨hopen.1, hopen.2.call hasks⟩

/-- The state after a run. Assumes: no receive window beyond 65535 is asked for, and the numbers
last for all that is queued. -/
theorem ready_run {conv : UInt32} {events : List Link.Event} {link : Link}
    (hrun : Runs.run Link.step (Link.start conv 0) events = some link)
    (hasks : ∀ event ∈ events, event.Asks 65535)
    (hshort : link.first.queued.length ≤ bound ∧ link.second.queued.length ≤ bound) :
    link.Ready := by
  have hmessages : link.Messages :=
    Runs.run_invariant (fun _ _ _ hmessages hstep ↦ hmessages.step hstep) (link_messages_start conv)
      hrun
  obtain ⟨hfirst, hsecond⟩ : link.first.Open ∧ link.second.Open :=
    Runs.run_invariant_along (fun _ _ _ hopen hasks hstep ↦ open_step hopen hasks hstep)
      ⟨open_start conv 0, open_start conv 0⟩
      (Runs.along_of_forall (fun event hevent _ ↦ hasks event hevent) _) hrun
  exact ⟨hmessages, hfirst, hsecond, hshort⟩

/-- In message mode, over a network that loses, duplicates, delays and reorders datagrams: whatever
has happened so far, a continuation without sending, in which only `ikcp_recv`, `ikcp_input`,
`ikcp_flush` and `ikcp_update` are called, hands over everything that the first side has accepted.
Assumes: no receive window beyond 65535 is asked for, and the numbers last for all that is
queued. -/
theorem deliverable_run {conv : UInt32} {events : List Link.Event} {link : Link}
    (hrun : Runs.run Link.step (Link.start conv 0) events = some link)
    (hasks : ∀ event ∈ events, event.Asks 65535)
    (hshort : link.first.queued.length ≤ bound ∧ link.second.queued.length ≤ bound) :
    ∃ more final, (∀ event ∈ more, event.Quiet) ∧ Runs.run Link.step link more = some final ∧
      final.first.accepted = link.first.accepted ∧
      final.second.delivered = link.first.accepted := by
  obtain ⟨final, hlater, hdelivered⟩ := exists_delivered (ready_run hrun hasks hshort)
  obtain ⟨more, hquiet, hmore⟩ := hlater.run
  exact ⟨more, final, hquiet, hmore, hlater.accepted, hdelivered⟩

/-- What has been lost can still be delivered. -/
theorem deliverable_unanswered :
    ∃ link, Runs.run Link.step (Link.start 1 0) unanswered = some link ∧
      link.second.delivered = [] ∧
      ∃ more final, (∀ event ∈ more, event.Quiet) ∧ Runs.run Link.step link more = some final ∧
        final.first.accepted = link.first.accepted ∧
        final.second.delivered = [[1, 2, 3]] := by
  have hview : (Runs.run Link.step (Link.start 1 0) unanswered).map (fun link ↦
      (link.second.delivered, link.first.accepted, link.first.queued.length,
        link.second.queued.length)) = some ([], [[1, 2, 3]], 1, 0) := by decide +kernel
  obtain ⟨link, hrun, hseen⟩ := Runs.exists_of_view hview
  simp only [Prod.mk.injEq] at hseen
  obtain ⟨hdelivered, haccepted, hfirst, hsecond⟩ := hseen
  refine ⟨link, hrun, hdelivered, ?_⟩
  rw [← haccepted]
  refine deliverable_run hrun ?_ ⟨?_, ?_⟩
  · intro event hevent
    simp only [unanswered, List.mem_cons, List.not_mem_nil, or_false] at hevent
    rcases hevent with rfl | rfl | rfl <;> trivial
  · rw [hfirst]
    decide
  · rw [hsecond]
    decide

end TestLinux.Ikcp
