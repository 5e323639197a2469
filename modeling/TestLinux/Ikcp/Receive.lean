import TestLinux.Ikcp.Node

/-!
# Receiving whatever arrives

The invariant of the receiving part of a control block, over all runs and whatever the datagrams
contain. The segments that have reached `rcv_queue` have the numbers 0, 1, 2 and so on,
and `rcv_nxt` is the next of them; `rcv_buf` is ordered, without repetition, and lies in the window
ahead of `rcv_nxt`; the counters are the lengths of the queues.

The limit is a bound for the receive windows that are asked for. Both queues stay within it.
-/

set_option autoImplicit false
set_option relaxedAutoImplicit false

namespace TestLinux.Ikcp

open TestLinux.Serial

/-- The receiving part is in order. -/
structure Receiver.Valid (limit : ℕ) (read : List Ikcpseg) (receiver : Receiver) : Prop where
  numbers : (read ++ receiver.rcvQueue).map Ikcpseg.sn =
    consecutive 0 (read ++ receiver.rcvQueue).length
  next : receiver.rcvNxt = UInt32.ofNat (read ++ receiver.rcvQueue).length
  queue : receiver.nrcvQue = UInt32.ofNat receiver.rcvQueue.length
  buf : receiver.nrcvBuf = UInt32.ofNat receiver.rcvBuf.length
  window : receiver.rcvWnd.toNat ≤ limit
  queue_le : receiver.rcvQueue.length ≤ limit
  ascending : Ascending receiver.rcvNxt limit (receiver.rcvBuf.map Ikcpseg.sn)

variable {limit : ℕ} {read : List Ikcpseg} {kcp : Ikcpcb}

/-- The acknowledgements to be sent play no role. -/
theorem Receiver.Valid.acklist {receiver : Receiver} (hvalid : receiver.Valid limit read)
    (acklist : List (UInt32 × UInt32)) : Valid limit read { receiver with acklist := acklist } :=
  ⟨hvalid.numbers, hvalid.next, hvalid.queue, hvalid.buf, hvalid.window, hvalid.queue_le,
    hvalid.ascending⟩

theorem sub_ofNat {total part : ℕ} (hpart : part ≤ total) :
    UInt32.ofNat total - UInt32.ofNat part = UInt32.ofNat (total - part) :=
  (UInt32.ofNat_sub hpart).symm

/-- As long as there is room for each of the segments, they fit into the window. -/
theorem add_le_of_room {queue count : ℕ} {window : UInt32} (hqueue : queue ≤ limit)
    (hwindow : window.toNat ≤ limit) (hlimit : limit < 2147483648) (hcount : count ≤ limit)
    (hroom : ∀ k < count, UInt32.ofNat queue + UInt32.ofNat k < window) :
    queue + count ≤ limit := by
  cases count with
  | zero => exact hqueue
  | succ count =>
    have hlast := UInt32.lt_iff_toNat_lt.mp (hroom count (Nat.lt_succ_self count))
    rw [← UInt32.ofNat_add, toNat_ofNat_of_lt (by omega)] at hlast
    omega

theorem Receiver.Valid.moveAvailable (hlimit : limit < 2147483648)
    (hvalid : kcp.receiver.Valid limit read) : (moveAvailable kcp).receiver.Valid limit read := by
  obtain ⟨moved, rest, hbuf, hmoved, hroom, -, heq⟩ := moveLoop_spec kcp kcp.rcvBuf
  have hascending : Ascending kcp.rcvNxt limit (consecutive kcp.rcvNxt moved.length ++
      rest.map Ikcpseg.sn) := by
    rw [← hmoved, ← List.map_append, ← hbuf]
    exact hvalid.ascending
  have hcount : moved.length ≤ limit := by
    have hlength := hascending.length_le
    rw [List.length_append, length_consecutive] at hlength
    exact Nat.le_trans (Nat.le_add_right _ _) hlength
  have hqueue : kcp.nrcvQue = UInt32.ofNat kcp.rcvQueue.length := hvalid.queue
  have hnext : kcp.rcvNxt = UInt32.ofNat (read ++ kcp.rcvQueue).length := hvalid.next
  have hnrcv : kcp.nrcvBuf = UInt32.ofNat kcp.rcvBuf.length := hvalid.buf
  have htotal : (read ++ (kcp.rcvQueue ++ moved)).length =
      (read ++ kcp.rcvQueue).length + moved.length := by
    rw [← List.append_assoc, List.length_append]
  rw [Ikcp.moveAvailable, heq]
  refine ⟨?_, ?_, ?_, ?_, hvalid.window, ?_, ?_⟩
  · change (read ++ (kcp.rcvQueue ++ moved)).map Ikcpseg.sn =
      consecutive 0 (read ++ (kcp.rcvQueue ++ moved)).length
    rw [htotal, ← List.append_assoc, List.map_append, hmoved, consecutive_append, UInt32.zero_add,
      ← hnext]
    exact congrArg (· ++ consecutive kcp.rcvNxt moved.length) hvalid.numbers
  · change kcp.rcvNxt + UInt32.ofNat moved.length =
      UInt32.ofNat (read ++ (kcp.rcvQueue ++ moved)).length
    rw [htotal, UInt32.ofNat_add, hnext]
  · change kcp.nrcvQue + UInt32.ofNat moved.length = UInt32.ofNat (kcp.rcvQueue ++ moved).length
    rw [List.length_append, UInt32.ofNat_add, hqueue]
  · change kcp.nrcvBuf - UInt32.ofNat moved.length = UInt32.ofNat rest.length
    rw [hnrcv, hbuf, List.length_append, sub_ofNat (Nat.le_add_right _ _), Nat.add_sub_cancel_left]
  · change (kcp.rcvQueue ++ moved).length ≤ limit
    rw [List.length_append]
    rw [hqueue] at hroom
    exact add_le_of_room hvalid.queue_le hvalid.window hlimit hcount hroom
  · exact (hascending.advance (by omega)).mono (Nat.sub_le _ _)

/-- Where a new segment goes, in the reversed list: behind those with a greater number. -/
theorem insertLoop_spec (newseg : Ikcpseg) (segs : List Ikcpseg) :
    (insertLoop newseg segs = none ∧ ∃ seg ∈ segs, seg.sn = newseg.sn) ∨
      ∃ after before, segs = after ++ before ∧
        insertLoop newseg segs = some (after ++ newseg :: before) ∧
        (∀ seg ∈ after, seg.sn ≠ newseg.sn ∧ diff newseg.sn seg.sn ≤ 0) ∧
        ∀ seg ∈ before.head?, 0 < diff newseg.sn seg.sn := by
  induction segs with
  | nil => exact Or.inr ⟨[], [], rfl, rfl, by simp, by simp⟩
  | cons seg rest ih =>
    rw [insertLoop]
    split_ifs with hsame hless
    · exact Or.inl ⟨rfl, seg, List.mem_cons_self, hsame⟩
    · refine Or.inr ⟨[], seg :: rest, rfl, rfl, by simp, ?_⟩
      intro first hfirst
      obtain rfl : seg = first := by simpa using hfirst
      exact hless
    · rcases ih with ⟨hnone, other, hother, hsn⟩ | ⟨after, before, rfl, hsome, hafter, hbefore⟩
      · exact Or.inl ⟨by rw [hnone, Option.map_none], other, List.mem_cons_of_mem seg hother, hsn⟩
      · refine Or.inr ⟨seg :: after, before, rfl, by rw [hsome]; rfl, ?_, hbefore⟩
        intro first hfirst
        rcases List.mem_cons.mp hfirst with rfl | hfirst
        · exact ⟨hsame, not_lt.mp hless⟩
        · exact hafter first hfirst

/-- A new segment of the window keeps `rcv_buf` in order. -/
theorem Receiver.Valid.insertBuf (hlimit : limit < 2147483648)
    (hvalid : kcp.receiver.Valid limit read) {newseg : Ikcpseg}
    (hwindow : offset kcp.rcvNxt newseg.sn < limit) :
    (insertBuf kcp newseg).receiver.Valid limit read := by
  unfold Ikcp.insertBuf
  rcases insertLoop_spec newseg kcp.rcvBuf.reverse with
    ⟨hnone, -⟩ | ⟨after, before, hreverse, hsome, hafter, hbefore⟩
  · simp only [hnone]
    exact hvalid
  simp only [hsome]
  have hbuf : kcp.rcvBuf = before.reverse ++ after.reverse := by
    rw [← List.reverse_append, ← hreverse, List.reverse_reverse]
  have hascending : Ascending kcp.rcvNxt limit
      (before.reverse.map Ikcpseg.sn ++ after.reverse.map Ikcpseg.sn) := by
    rw [← List.map_append, ← hbuf]
    exact hvalid.ascending
  have hmem : ∀ seg, seg ∈ before ∨ seg ∈ after → offset kcp.rcvNxt seg.sn < limit := by
    intro seg hseg
    refine hascending.below seg.sn ?_
    rw [← List.map_append, List.mem_map]
    exact ⟨seg, by simpa using hseg, rfl⟩
  have hdiff : ∀ seg, seg ∈ before ∨ seg ∈ after →
      diff newseg.sn seg.sn = offset kcp.rcvNxt newseg.sn - offset kcp.rcvNxt seg.sn := by
    intro seg hseg
    have hseg' := hmem seg hseg
    exact diff_eq_sub (by omega) (by omega)
  refine ⟨hvalid.numbers, hvalid.next, hvalid.queue, ?_, hvalid.window, hvalid.queue_le, ?_⟩
  · change kcp.nrcvBuf + 1 = UInt32.ofNat (after ++ newseg :: before).reverse.length
    have hcount : kcp.nrcvBuf = UInt32.ofNat kcp.rcvBuf.length := hvalid.buf
    have hlength : (after ++ newseg :: before).reverse.length = kcp.rcvBuf.length + 1 := by
      rw [hbuf]
      simp only [List.length_reverse, List.length_append, List.length_cons]
      omega
    rw [hlength, UInt32.ofNat_add, hcount]
    rfl
  change Ascending kcp.rcvNxt limit ((after ++ newseg :: before).reverse.map Ikcpseg.sn)
  rw [List.reverse_append, List.reverse_cons, List.append_assoc, List.map_append, List.map_append,
    List.map_singleton, List.singleton_append]
  refine hascending.insert ?_ ?_ hwindow
  · -- the segment that the search stops at is the greatest of those before
    intro number hnumber
    obtain ⟨seg, hseg, rfl⟩ := List.mem_map.mp hnumber
    rw [List.mem_reverse] at hseg
    cases before with
    | nil => cases hseg
    | cons first rest =>
      have hfirst := hbefore first rfl
      rw [hdiff first (Or.inl List.mem_cons_self)] at hfirst
      rcases List.mem_cons.mp hseg with rfl | hrest
      · omega
      · have hpairwise := (List.pairwise_append.mp hascending.increasing).1
        rw [List.reverse_cons, List.map_append, List.pairwise_append] at hpairwise
        have hlt := hpairwise.2.2 seg.sn
          (List.mem_map_of_mem (List.mem_reverse.mpr hrest)) first.sn (by simp)
        omega
  · intro number hnumber
    obtain ⟨seg, hseg, rfl⟩ := List.mem_map.mp hnumber
    rw [List.mem_reverse] at hseg
    obtain ⟨hne, hle⟩ := hafter seg hseg
    rw [hdiff seg (Or.inr hseg)] at hle
    have hoffset : offset kcp.rcvNxt newseg.sn ≠ offset kcp.rcvNxt seg.sn :=
      fun heq ↦ hne (offset_inj heq).symm
    omega

/-- A segment that `ikcp_parse_data` does not drop is one of the window. -/
theorem Receiver.Valid.insertBuf_window (hlimit : limit < 2147483648)
    (hvalid : kcp.receiver.Valid limit read) {newseg : Ikcpseg}
    (hwindow : ¬ (0 ≤ diff newseg.sn (kcp.rcvNxt + kcp.rcvWnd) ∨ diff newseg.sn kcp.rcvNxt < 0)) :
    (Ikcp.insertBuf kcp newseg).receiver.Valid limit read := by
  rw [not_or, not_le, not_lt, diff_nonneg_iff] at hwindow
  have hwnd : kcp.rcvWnd.toNat ≤ limit := hvalid.window
  rw [@diff_eq_sub kcp.rcvNxt _ _ hwindow.2 (by rw [offset_add]; omega), offset_add] at hwindow
  exact hvalid.insertBuf hlimit (by omega)

theorem Receiver.Valid.parseData (hlimit : limit < 2147483648)
    (hvalid : kcp.receiver.Valid limit read) (newseg : Ikcpseg) :
    (parseData kcp newseg).receiver.Valid limit read := by
  unfold Ikcp.parseData
  split
  · exact hvalid
  · rename_i hwindow
    exact (hvalid.insertBuf_window hlimit hwindow).moveAvailable hlimit

theorem Receiver.Valid.inputSegment (hlimit : limit < 2147483648) {inputting : Inputting}
    (hvalid : inputting.kcp.receiver.Valid limit read) (header : Header) (data : List UInt8) :
    (inputSegment inputting header data).kcp.receiver.Valid limit read := by
  have hcommon : (inputCommon inputting.kcp header).receiver.Valid limit read := by
    rwa [receiver_inputCommon]
  simp only [Ikcp.inputSegment]
  split_ifs
  · rwa [receiver_inputAck]
  · simp only [inputPush]
    split_ifs
    · have hpush : (ackPush (inputCommon inputting.kcp header) header.sn
          header.ts).receiver.Valid limit read := hcommon.acklist _
      exact hpush.parseData hlimit _
    · exact hcommon.acklist _
    · exact hcommon
  · exact hcommon
  · exact hcommon

theorem Receiver.Valid.input (hlimit : limit < 2147483648)
    (hvalid : kcp.receiver.Valid limit read) (data : List UInt8) :
    (input kcp data).2.receiver.Valid limit read := by
  refine input_induction (motive := fun next ↦ next.receiver.Valid limit read) ?_ ?_ ?_ kcp data
    hvalid
  · intro inputting header payload hnext _
    exact hnext.inputSegment hlimit header payload
  · intro next sn hnext
    rwa [receiver_parseFastack]
  · intro next prevUna hnext
    rwa [receiver_growWindow]

/-- The segments of a message move from `rcv_queue` to those that have been read. -/
theorem Receiver.Valid.takeFragments (hvalid : kcp.receiver.Valid limit read) {len : ℤ}
    (hlen : ¬ len < 0) :
    (takeFragments kcp len).receiver.Valid limit (read ++ (mergeLoop kcp.rcvQueue).1) := by
  have hqueue := mergeLoop_append kcp.rcvQueue
  have happend : read ++ (mergeLoop kcp.rcvQueue).1 ++ (mergeLoop kcp.rcvQueue).2 =
      read ++ kcp.rcvQueue := by
    rw [List.append_assoc, hqueue]
  have hlength : kcp.rcvQueue.length =
      (mergeLoop kcp.rcvQueue).1.length + (mergeLoop kcp.rcvQueue).2.length := by
    rw [← List.length_append, hqueue]
  have hcount : kcp.nrcvQue = UInt32.ofNat kcp.rcvQueue.length := hvalid.queue
  have hle : kcp.rcvQueue.length ≤ limit := hvalid.queue_le
  rw [Ikcp.takeFragments, if_neg hlen]
  refine ⟨?_, ?_, ?_, hvalid.buf, hvalid.window, ?_, hvalid.ascending⟩
  · change (read ++ (mergeLoop kcp.rcvQueue).1 ++ (mergeLoop kcp.rcvQueue).2).map Ikcpseg.sn =
      consecutive 0 (read ++ (mergeLoop kcp.rcvQueue).1 ++ (mergeLoop kcp.rcvQueue).2).length
    rw [happend]
    exact hvalid.numbers
  · change kcp.rcvNxt = UInt32.ofNat
      (read ++ (mergeLoop kcp.rcvQueue).1 ++ (mergeLoop kcp.rcvQueue).2).length
    rw [happend]
    exact hvalid.next
  · change kcp.nrcvQue - UInt32.ofNat (mergeLoop kcp.rcvQueue).1.length =
      UInt32.ofNat (mergeLoop kcp.rcvQueue).2.length
    rw [hcount, hlength, sub_ofNat (Nat.le_add_right _ _), Nat.add_sub_cancel_left]
  · change (mergeLoop kcp.rcvQueue).2.length ≤ limit
    omega

/-- `ikcp_flush` only clears the acknowledgements. -/
theorem Receiver.Valid.flush (hvalid : kcp.receiver.Valid limit read) :
    (flush kcp).2.receiver.Valid limit read := by
  by_cases hupdated : kcp.updated = 0
  · rwa [Ikcp.flush, if_pos hupdated]
  · obtain ⟨moved, rest, added, -, -, hreceiver, -, -⟩ := flush_spec hupdated
    rw [hreceiver]
    exact hvalid.acklist []

theorem Receiver.Valid.update (hvalid : kcp.receiver.Valid limit read) (current : UInt32) :
    (update kcp current).2.receiver.Valid limit read := by
  obtain ⟨updated, tsFlush, -, hupdate | hupdate⟩ := update_spec kcp current
  · rw [hupdate]
    exact hvalid
  · have hready : (kcp.clocked current updated tsFlush).receiver.Valid limit read := hvalid
    rw [hupdate]
    exact hready.flush

theorem Receiver.Valid.wndsize (hvalid : kcp.receiver.Valid limit read) (hlimit : 128 ≤ limit)
    (sndwnd : Int32) {rcvwnd : Int32} (hrcvwnd : rcvwnd.toInt ≤ limit) :
    (wndsize kcp sndwnd rcvwnd).receiver.Valid limit read := by
  refine ⟨hvalid.numbers, hvalid.next, hvalid.queue, hvalid.buf, ?_, hvalid.queue_le,
    hvalid.ascending⟩
  change (if 0 < rcvwnd then imax rcvwnd.toUInt32 wndRcv else kcp.rcvWnd).toNat ≤ limit
  split
  · rename_i hpos
    have hnat := toNat_toUInt32 hpos
    unfold imax
    split
    · omega
    · exact hlimit
  · exact hvalid.window

/-! ### Runs -/

/-- A call does not ask for a receive window beyond the limit. -/
def Call.Asks (limit : ℕ) : Call → Prop
  | .wndsize _ rcvwnd => rcvwnd.toInt ≤ limit
  | _ => True

theorem Receiver.Valid.call {node : Node} (hlimit : 128 ≤ limit) (hlimit' : limit < 2147483648)
    (hvalid : node.kcp.receiver.Valid limit node.read) {call : Call} (hcall : call.Asks limit) :
    (node.call call).kcp.receiver.Valid limit (node.call call).read := by
  cases call with
  | send buffer =>
    change (send node.kcp buffer).2.receiver.Valid limit node.read
    rw [send_spec]
    exact hvalid
  | recv len =>
    rcases recv_spec node.kcp len with ⟨code, hcode, hrecv⟩ | ⟨probe, hrecv, -⟩
    · rw [Node.call, hrecv, if_neg (fun h ↦ absurd h.1 (not_le.mpr hcode))]
      exact hvalid
    · rw [Node.call, hrecv]
      split
      · rename_i hlen
        exact (hvalid.takeFragments (not_lt.mpr hlen.2)).moveAvailable hlimit'
      · rename_i hlen
        have hneg : len < 0 := by
          by_contra hnot
          exact hlen ⟨Int.natCast_nonneg _, not_lt.mp hnot⟩
        rw [Ikcp.takeFragments, if_pos hneg]
        exact hvalid.moveAvailable hlimit'
  | input data => exact hvalid.input hlimit' data
  | flush => exact hvalid.flush
  | update current => exact hvalid.update current
  | setmtu mtu =>
    change (setmtu node.kcp mtu).2.receiver.Valid limit node.read
    unfold setmtu
    split <;> exact hvalid
  | interval time => exact hvalid
  | nodelay delay time resend nc => exact hvalid
  | wndsize sndwnd rcvwnd => exact hvalid.wndsize hlimit sndwnd hcall

theorem receiver_valid_start (hlimit : 128 ≤ limit) (conv : UInt32) (stream : Int32) :
    (Node.start conv stream).kcp.receiver.Valid limit [] :=
  ⟨rfl, rfl, rfl, rfl, hlimit, Nat.zero_le limit, ascending_nil 0 limit⟩

/-- Whatever datagrams arrive and whatever is called, the segments that reach `rcv_queue` have the
numbers 0, 1, 2 and so on, each once; `rcv_buf` is strictly ascending in the window ahead of the
next one; and neither queue grows beyond the limit. -/
theorem receiver_valid_run (hlimit : 128 ≤ limit) (hlimit' : limit < 2147483648) {conv : UInt32}
    {stream : Int32} {calls : List Call} (hcalls : ∀ call ∈ calls, call.Asks limit) {node : Node}
    (hrun : Runs.run Node.step (Node.start conv stream) calls = some node) :
    node.kcp.receiver.Valid limit node.read := by
  refine Node.step_induction (motive := fun node ↦ node.kcp.receiver.Valid limit node.read) hrun
    (receiver_valid_start hlimit conv stream) ?_
  intro node call hcall hvalid
  exact hvalid.call hlimit hlimit' (hcalls call hcall)

/-- The second segment of a message arrives twice, and the first one after it. -/
def outOfOrder : List Call :=
  let second : List UInt8 := [1, 0, 0, 0, 81, 0, 128, 0, 0, 0, 0, 0, 1, 0, 0, 0, 0, 0, 0, 0, 1, 0,
    0, 0, 8]
  let first : List UInt8 := [1, 0, 0, 0, 81, 1, 128, 0, 0, 0, 0, 0, 0, 0, 0, 0, 0, 0, 0, 0, 1, 0,
    0, 0, 7]
  [.wndsize 32 200, .input second, .input second, .input first, .recv 10]

theorem receiver_valid_outOfOrder :
    ∃ node, Runs.run Node.step (Node.start 1 0) outOfOrder = some node ∧
      node.delivered = [[7, 8]] ∧ node.kcp.receiver.Valid 256 node.read := by
  have hview : (Runs.run Node.step (Node.start 1 0) outOfOrder).map Node.delivered =
      some [[7, 8]] := by decide +kernel
  obtain ⟨node, hrun, hseen⟩ := Runs.exists_of_view hview
  refine ⟨node, hrun, hseen, receiver_valid_run (by decide) (by decide) ?_ hrun⟩
  intro call hcall
  simp only [outOfOrder, List.mem_cons, List.not_mem_nil, or_false] at hcall
  rcases hcall with rfl | rfl | rfl | rfl | rfl
  · change (200 : Int32).toInt ≤ 256
    decide
  all_goals trivial

end TestLinux.Ikcp
