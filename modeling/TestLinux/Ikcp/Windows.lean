import TestLinux.Ikcp.Exchange

/-!
# Windows that stay open

A receive window of 128 segments has room for every message that `ikcp_send` accepts, so that a full
`rcv_queue` begins with a complete message. `Node.Open` is the invariant behind this, over all
calls: both windows are positive, the receive window is at least 128 and at most 65535, and the next
segment waits in `rcv_buf` only while 128 segments are in `rcv_queue`.

The upper bound is not for the code to check: on the wire a window has 16 bits, and a receive window
of 65536 is told to the peer as 0.
-/

set_option autoImplicit false
set_option relaxedAutoImplicit false

namespace TestLinux.Ikcp

open TestLinux.Serial

variable {limit : ℕ} {read : List Ikcpseg} {kcp : Ikcpcb}

/-! ### The receive window -/

/-- The receive window has room for a message, and the next segment only waits for room. -/
structure Receiver.Settled (receiver : Receiver) : Prop where
  window : 128 ≤ receiver.rcvWnd.toNat
  waits : ∀ seg ∈ receiver.rcvBuf, seg.sn = receiver.rcvNxt → 128 ≤ receiver.rcvQueue.length

theorem rcvWnd_moveAvailable (kcp : Ikcpcb) : (moveAvailable kcp).rcvWnd = kcp.rcvWnd := by
  obtain ⟨moved, rest, -, -, -, -, heq⟩ := moveLoop_spec kcp kcp.rcvBuf
  rw [moveAvailable, heq]

theorem settled_moveAvailable (hlimit : limit < 2147483648)
    (hvalid : kcp.receiver.Valid limit read) (hwindow : 128 ≤ kcp.rcvWnd.toNat) :
    (moveAvailable kcp).receiver.Settled := by
  have hwnd := rcvWnd_moveAvailable kcp
  have hvalid' := hvalid.moveAvailable hlimit
  constructor
  · change 128 ≤ (moveAvailable kcp).rcvWnd.toNat
    rwa [hwnd]
  · intro seg hseg hsn
    have hfull : ¬ (moveAvailable kcp).receiver.nrcvQue < (moveAvailable kcp).receiver.rcvWnd :=
      moveAvailable_settled hlimit hvalid hseg hsn
    rw [hvalid'.room hlimit, Nat.not_lt] at hfull
    refine Nat.le_trans ?_ hfull
    change 128 ≤ (moveAvailable kcp).rcvWnd.toNat
    rwa [hwnd]

theorem Receiver.Settled.inputSegment (hlimit : limit < 2147483648) {inputting : Inputting}
    (hvalid : inputting.kcp.receiver.Valid limit read) (hsettled : inputting.kcp.receiver.Settled)
    (header : Header) (data : List UInt8) :
    (inputSegment inputting header data).kcp.receiver.Settled := by
  have hcommon := receiver_inputCommon inputting.kcp header
  have hsettled' : (inputCommon inputting.kcp header).receiver.Settled := hcommon ▸ hsettled
  simp only [Ikcp.inputSegment]
  split_ifs
  · rwa [receiver_inputAck]
  · simp only [inputPush]
    split_ifs
    · set acked := ackPush (inputCommon inputting.kcp header) header.sn header.ts with hacked
      have hvalid' : acked.receiver.Valid limit read := by
        have hpush : (inputCommon inputting.kcp header).receiver.Valid limit read :=
          hcommon ▸ hvalid
        exact hpush.acklist _
      unfold parseData
      split
      · exact ⟨hsettled'.window, hsettled'.waits⟩
      · rename_i hwindow
        refine settled_moveAvailable hlimit (hvalid'.insertBuf_window hlimit hwindow) ?_
        obtain ⟨-, -, -, heq⟩ := mem_insertBuf acked (header.segment data)
        have hwnd : (insertBuf acked (header.segment data)).rcvWnd = acked.rcvWnd :=
          congrArg Receiver.rcvWnd heq
        rw [hwnd]
        exact hsettled'.window
    · exact ⟨hsettled'.window, hsettled'.waits⟩
    · exact hsettled'
  · exact hsettled'
  · exact hsettled'

theorem Receiver.Settled.input (hlimit : limit < 2147483648)
    (hvalid : kcp.receiver.Valid limit read) (hsettled : kcp.receiver.Settled)
    (data : List UInt8) : (input kcp data).2.receiver.Settled := by
  refine (input_induction (motive := fun next ↦ next.receiver.Valid limit read ∧
    next.receiver.Settled) ?_ ?_ ?_ kcp data ⟨hvalid, hsettled⟩).2
  · rintro inputting header payload ⟨hnext, hnextsettled⟩ -
    exact ⟨hnext.inputSegment hlimit header payload,
      hnextsettled.inputSegment hlimit hnext header payload⟩
  · intro next sn hnext
    rwa [receiver_parseFastack]
  · intro next prevUna hnext
    rwa [receiver_growWindow]

theorem Receiver.Settled.flush (hsettled : kcp.receiver.Settled) :
    (flush kcp).2.receiver.Settled := by
  by_cases hupdated : kcp.updated = 0
  · rwa [Ikcp.flush, if_pos hupdated]
  · obtain ⟨moved, rest, added, -, -, hreceiver, -, -⟩ := flush_spec hupdated
    rw [hreceiver]
    exact ⟨hsettled.window, hsettled.waits⟩

theorem Receiver.Settled.update (hsettled : kcp.receiver.Settled) (current : UInt32) :
    (update kcp current).2.receiver.Settled := by
  obtain ⟨updated, tsFlush, -, hupdate | hupdate⟩ := update_spec kcp current
  · rw [hupdate]
    exact hsettled
  · have hready : (kcp.clocked current updated tsFlush).receiver.Settled := hsettled
    rw [hupdate]
    exact hready.flush

theorem Receiver.Settled.call {node : Node} (hlimit : limit < 2147483648)
    (hvalid : node.kcp.receiver.Valid limit node.read) (hsettled : node.kcp.receiver.Settled)
    (call : Call) : (node.call call).kcp.receiver.Settled := by
  cases call with
  | send buffer =>
    change (send node.kcp buffer).2.receiver.Settled
    rw [send_spec]
    exact hsettled
  | recv len =>
    have hwnd : (takeFragments node.kcp len).rcvWnd = node.kcp.rcvWnd := by
      unfold takeFragments
      split <;> rfl
    rcases recv_spec node.kcp len with ⟨code, hcode, hrecv⟩ | ⟨probe, hrecv, -⟩
    · rw [Node.call, hrecv, if_neg (fun h ↦ absurd h.1 (not_le.mpr hcode))]
      exact hsettled
    · have hmoved : (moveAvailable (takeFragments node.kcp len)).receiver.Settled := by
        by_cases hlen : len < 0
        · rw [takeFragments, if_pos hlen]
          exact settled_moveAvailable hlimit hvalid hsettled.window
        · exact settled_moveAvailable hlimit (hvalid.takeFragments hlen) (hwnd ▸ hsettled.window)
      rw [Node.call, hrecv]
      split <;> exact hmoved
  | input data => exact hsettled.input hlimit hvalid data
  | flush => exact hsettled.flush
  | update current => exact hsettled.update current
  | setmtu mtu =>
    change (setmtu node.kcp mtu).2.receiver.Settled
    unfold setmtu
    split <;> exact hsettled
  | interval time => exact hsettled
  | nodelay delay time resend nc => exact hsettled
  | wndsize sndwnd rcvwnd =>
    refine ⟨?_, hsettled.waits⟩
    change 128 ≤ (if 0 < rcvwnd then imax rcvwnd.toUInt32 wndRcv else node.kcp.rcvWnd).toNat
    split
    · unfold imax
      split
      · rename_i hle
        exact UInt32.le_iff_toNat_le.mp hle
      · decide
    · exact hsettled.window

/-! ### `ikcp_flush` and the policy -/

theorem flush_eq {kcp : Ikcpcb} (hupdated : kcp.updated ≠ 0) : ∃ visited xmit state change lost,
    (flush kcp).2 = shrinkWindow
      { (flushHead kcp).1 with sndBuf := visited, xmit := xmit, state := state } (flushWindow kcp)
      change lost := by
  rw [flush, if_neg hupdated]
  exact ⟨_, _, _, _, _, rfl⟩

theorem cwnd_shrinkWindow (kcp : Ikcpcb) (cwnd : UInt32) (change lost : Bool) :
    0 < (shrinkWindow kcp cwnd change lost).cwnd.toNat := by
  have hlast : ∀ next : Ikcpcb,
      0 < (if next.cwnd < 1 then { next with cwnd := 1, incr := next.mss }
        else next).cwnd.toNat := by
    intro next
    split
    · change 0 < (1 : UInt32).toNat
      decide
    · rename_i hcwnd
      exact Nat.not_le.mp fun hle ↦ hcwnd (UInt32.lt_iff_toNat_lt.mpr (Nat.lt_succ_of_le hle))
  exact hlast _

/-- After a flush the congestion window is open. -/
theorem cwnd_flush (hupdated : kcp.updated ≠ 0) : 0 < (flush kcp).2.cwnd.toNat := by
  obtain ⟨visited, xmit, state, change, lost, heq⟩ := flush_eq hupdated
  rw [heq]
  exact cwnd_shrinkWindow _ _ _ _

theorem policy_shrinkWindow (kcp : Ikcpcb) (cwnd : UInt32) (change lost : Bool) :
    (shrinkWindow kcp cwnd change lost).policy = kcp.policy := by
  unfold shrinkWindow
  dsimp only
  split_ifs <;> rfl

theorem policy_numberLoop (cwnd wnd : UInt32) (kcp : Ikcpcb) (segs : List Ikcpseg) :
    (numberLoop cwnd wnd kcp segs).policy = kcp.policy := by
  obtain ⟨moved, rest, added, -, -, -, -, -, -, heq⟩ := numberLoop_spec cwnd wnd kcp segs
  rw [heq]
  rfl

/-- `ikcp_flush` probes the window of the peer and then has nothing left to ask or to tell. -/
theorem policy_flush (hupdated : kcp.updated ≠ 0) :
    (flush kcp).2.policy = { (probeWindow kcp).policy with probe := 0 } := by
  obtain ⟨visited, xmit, state, change, lost, heq⟩ := flush_eq hupdated
  have hhead : (flushHead kcp).1.policy =
      { (probeWindow { kcp with acklist := [] }).policy with probe := 0 } :=
    policy_numberLoop _ _ _ _
  rw [heq, policy_shrinkWindow]
  refine hhead.trans ?_
  simp only [probeWindow]
  split_ifs <;> rfl

/-- When the peer has no room, `ikcp_flush` sets a time to probe it. -/
theorem probeWait_flush (hupdated : kcp.updated ≠ 0) (hwnd : kcp.rmtWnd = 0)
    (hwait : kcp.probeWait = 0) : (flush kcp).2.probeWait ≠ 0 := by
  have hflush : (flush kcp).2.probeWait = (probeWindow kcp).probeWait :=
    congrArg Policy.probeWait (policy_flush hupdated)
  rw [hflush, probeWindow, if_pos hwnd, if_pos hwait]
  change probeInit ≠ 0
  decide

theorem sndWnd_flush (hupdated : kcp.updated ≠ 0) : (flush kcp).2.sndWnd = kcp.sndWnd := by
  have hwnd : (flush kcp).2.sndWnd = (probeWindow kcp).sndWnd :=
    congrArg Policy.sndWnd (policy_flush hupdated)
  obtain ⟨wait, ts, probe, hprobe⟩ := probeWindow_spec kcp
  rw [hwnd, hprobe]

theorem sndWnd_input (kcp : Ikcpcb) (data : List UInt8) :
    (input kcp data).2.sndWnd = kcp.sndWnd := by
  refine input_induction (motive := fun next ↦ next.policy.sndWnd = kcp.sndWnd) ?_ ?_ ?_ kcp data
    rfl
  · intro inputting header payload hnext _
    rw [policy_inputSegment]
    split <;> exact hnext
  · intro next sn hnext
    rwa [policy_parseFastack]
  · intro next prevUna hnext
    rwa [policy_growWindow]

theorem sndWnd_moveLoop (kcp : Ikcpcb) (segs : List Ikcpseg) :
    (moveLoop kcp segs).sndWnd = kcp.sndWnd := congrArg Policy.sndWnd (policy_moveLoop kcp segs)

theorem sndWnd_recv (kcp : Ikcpcb) (len : ℤ) : (recv kcp len).2.2.sndWnd = kcp.sndWnd := by
  rcases recv_spec kcp len with ⟨code, -, hrecv⟩ | ⟨probe, hrecv, -⟩
  · rw [hrecv]
  · rw [hrecv]
    change (moveLoop _ _).sndWnd = kcp.sndWnd
    rw [sndWnd_moveLoop, takeFragments]
    split <;> rfl

/-- The send window is only changed by `ikcp_wndsize`, to a positive one. -/
theorem sndWnd_call {node : Node} (hpos : 0 < node.kcp.sndWnd.toNat) (call : Call) :
    0 < (node.call call).kcp.sndWnd.toNat := by
  have hflush : ∀ kcp : Ikcpcb, (flush kcp).2.sndWnd = kcp.sndWnd := by
    intro kcp
    by_cases hupdated : kcp.updated = 0
    · rw [flush, if_pos hupdated]
    · exact sndWnd_flush hupdated
  cases call with
  | send buffer =>
    change 0 < (send node.kcp buffer).2.sndWnd.toNat
    rwa [send_spec]
  | recv len =>
    rw [Node.call]
    split <;> rwa [sndWnd_recv]
  | input data =>
    change 0 < (input node.kcp data).2.sndWnd.toNat
    rwa [sndWnd_input]
  | flush =>
    change 0 < (flush node.kcp).2.sndWnd.toNat
    rwa [hflush]
  | update current =>
    change 0 < (update node.kcp current).2.sndWnd.toNat
    obtain ⟨updated, tsFlush, -, hupdate | hupdate⟩ := update_spec node.kcp current
    · rwa [hupdate]
    · rw [hupdate, hflush]
      exact hpos
  | setmtu mtu =>
    change 0 < (setmtu node.kcp mtu).2.sndWnd.toNat
    unfold setmtu
    split <;> exact hpos
  | interval time => exact hpos
  | nodelay delay time resend nc => exact hpos
  | wndsize sndwnd rcvwnd =>
    change 0 < (if 0 < sndwnd then sndwnd.toUInt32 else node.kcp.sndWnd).toNat
    split
    · rename_i hsndwnd
      have hnat := toNat_toUInt32 hsndwnd
      have hint : 0 < sndwnd.toInt := Int32.lt_iff_toInt_lt.mp hsndwnd
      omega
    · exact hpos

theorem imin_pos {first second : UInt32} (hfirst : 0 < first.toNat) (hsecond : 0 < second.toNat) :
    0 < (imin first second).toNat := by
  unfold imin
  split
  · exact hfirst
  · exact hsecond

theorem flushWindow_pos (hsnd : 0 < kcp.sndWnd.toNat) (hrmt : 0 < kcp.rmtWnd.toNat)
    (hcwnd : 0 < kcp.cwnd.toNat) : 0 < (flushWindow kcp).toNat := by
  unfold flushWindow
  dsimp only
  split
  · exact imin_pos hcwnd (imin_pos hsnd hrmt)
  · exact imin_pos hsnd hrmt

/-- With nothing in flight and an open window, `ikcp_flush` numbers a segment. -/
theorem flush_numbers (hupdated : kcp.updated ≠ 0) (hqueue : kcp.sndQueue ≠ [])
    (huna : kcp.sndUna = kcp.sndNxt) (hpos : 0 < (flushWindow kcp).toNat)
    (hlimit : kcp.rmtWnd.toNat ≤ 65535) :
    (flush kcp).2.sndQueue.length < kcp.sndQueue.length := by
  obtain ⟨moved, rest, added, hnumbered, -, -, hsender, -⟩ := flush_spec hupdated
  have hrest : (flush kcp).2.sndQueue = rest := congrArg Sender.sndQueue hsender
  have hmoved : moved ≠ [] := by
    rintro rfl
    have hstays : rest ≠ [] := by
      rintro rfl
      exact hqueue hnumbered.queue
    have hfull := hnumbered.full hstays
    have hle := flushWindow_le kcp
    have hneg : diff kcp.sndNxt (kcp.sndNxt + flushWindow kcp) < 0 :=
      diff_add_neg (by rw [offset_self]; omega) (by rw [offset_self]; omega)
    have hnext : kcp.sndNxt + UInt32.ofNat ([] : List Ikcpseg).length = kcp.sndNxt := by simp
    rw [hnext, huna] at hfull
    omega
  have hpos' := List.length_pos_of_ne_nil hmoved
  rw [hrest, hnumbered.queue, List.length_append]
  omega

/-! ### All calls -/

/-- Both windows are open, and what the peer is told fits into 16 bits. -/
structure Node.Open (node : Node) : Prop where
  send : 0 < node.kcp.sndWnd.toNat
  valid : node.kcp.receiver.Valid 65535 node.read
  settled : node.kcp.receiver.Settled

theorem Node.Open.call {node : Node} (hopen : node.Open) {call : Call} (hasks : call.Asks 65535) :
    (node.call call).Open :=
  ⟨sndWnd_call hopen.send call, hopen.valid.call (by decide) (by decide) hasks,
    hopen.settled.call (by decide) hopen.valid call⟩

theorem open_start (conv : UInt32) (stream : Int32) : (Node.start conv stream).Open :=
  ⟨show 0 < wndSnd.toNat by decide, receiver_valid_start (by decide) conv stream,
    show 128 ≤ wndRcv.toNat by decide, fun _ hseg ↦ absurd hseg List.not_mem_nil⟩

/-- `ikcp_peeksize` finds no message. -/
def Node.Drained (node : Node) : Prop := peeksize node.kcp < 0

/-- Without a message to hand over, the first one is not complete. -/
theorem Node.Open.incomplete {node : Node} (hopen : node.Open)
    (hfrg : ∀ seg ∈ node.kcp.rcvQueue, seg.frg.toNat < 128) (hdrained : node.Drained)
    {seg : Ikcpseg} {rest : List Ikcpseg} (hqueue : node.kcp.rcvQueue = seg :: rest) :
    node.kcp.rcvQueue.length ≤ seg.frg.toNat := by
  have hlt := hfrg seg (hqueue ▸ List.mem_cons_self)
  have hcount : node.kcp.nrcvQue = UInt32.ofNat node.kcp.rcvQueue.length := hopen.valid.queue
  have hlength : node.kcp.rcvQueue.length ≤ 65535 := hopen.valid.queue_le
  unfold Node.Drained peeksize at hdrained
  simp only [hqueue] at hdrained
  split_ifs at hdrained with hzero hroom
  · omega
  · rw [UInt32.lt_iff_toNat_lt, hcount, toNat_ofNat_of_lt (by omega), UInt32.toNat_add] at hroom
    change node.kcp.rcvQueue.length < (seg.frg.toNat + 1) % 4294967296 at hroom
    omega
  · omega

/-- Without a message to hand over there is room. -/
theorem Node.Open.room {node : Node} (hopen : node.Open)
    (hfrg : ∀ seg ∈ node.kcp.rcvQueue, seg.frg.toNat < 128) (hdrained : node.Drained) :
    node.kcp.rcvQueue.length < 128 := by
  cases hqueue : node.kcp.rcvQueue with
  | nil => decide
  | cons seg rest =>
    have hle := hopen.incomplete hfrg hdrained hqueue
    rw [hqueue] at hle
    exact Nat.lt_of_le_of_lt hle (hfrg seg (hqueue ▸ List.mem_cons_self))

end TestLinux.Ikcp
