import TestLinux.Ikcp.Transmit
import TestLinux.Kcp.Queues
import TestLinux.Kcp.Rejection

/-!
# Control blocks as the sessions see them

The chat programs see a control block as a queue of complete messages. `complete` is this queue: the
messages that `ikcp_recv` returns one after another, given a buffer that is large enough.
`Node.endpoint` forgets everything else, and `Refines` says that a control block answers every call
as the queue does. It holds after any calls that a session makes, whatever the datagrams contain.

`segmentIkcp` is `ikcp.c` itself in the place of the parameter of the sessions, and `segmentQueue`
are the laws that their receive loops rely on. `unchanged_segments_iff` is what is known of rejected
datagrams with `ikcp.c` in that place: the messages to send are those of `snd_queue`, which
`ikcp_input` leaves alone.
-/

set_option autoImplicit false
set_option relaxedAutoImplicit false

namespace TestLinux.Ikcp

open TestLinux.Kcp (decode32u)

/-! ### The code of `ikcp_input` -/

theorem decode32u_lt (data : List UInt8) : decode32u data < 4294967296 := by
  have hfirst := (data.getD 0 0).toNat_lt
  have hsecond := (data.getD 1 0).toNat_lt
  have hthird := (data.getD 2 0).toNat_lt
  have hfourth := (data.getD 3 0).toNat_lt
  unfold decode32u
  omega

theorem decodeHeader_conv (data : List UInt8) :
    (decodeHeader data).1.conv = UInt32.ofNat (decode32u data) := rfl

theorem decodeHeader_cmd (data : List UInt8) :
    (decodeHeader data).1.cmd = data.getD 4 0 := by
  simp only [decodeHeader, decodeWord, decode8u, List.getD_eq_getElem?_getD, List.getElem?_drop,
    Nat.add_zero]

theorem decodeHeader_len (data : List UInt8) :
    (decodeHeader data).1.len.toNat = decode32u (data.drop 20) := by
  simp only [decodeHeader, decodeWord, decode8u, decode16u, List.drop_drop]
  exact UInt32.toNat_ofNat_of_lt' (decode32u_lt _)

/-- The checks of one header, with the header decoded. -/
theorem inputLoop_eq (conv : UInt32) (data : List UInt8) :
    Kcp.inputLoop conv data =
      if data.length < overhead then 0
      else if (decodeHeader data).1.conv ≠ conv then -1
      else if (data.drop overhead).length < (decodeHeader data).1.len.toNat ∨
        2147483648 ≤ (decodeHeader data).1.len.toNat then -2
      else if (decodeHeader data).1.cmd ∉ [cmdPush, cmdAck, cmdWask, cmdWins] then -3
      else Kcp.inputLoop conv ((data.drop overhead).drop (decodeHeader data).1.len.toNat) := by
  rw [Kcp.inputLoop, decodeHeader_conv, decodeHeader_cmd, decodeHeader_len, List.drop_drop,
    List.length_drop]
  rfl

/-- The loop of `ikcp_input` returns what its checks of the headers decide. -/
theorem inputLoop_code (inputting : Inputting) (data : List UInt8) :
    (inputLoop inputting data).1 = Kcp.inputLoop inputting.kcp.conv data := by
  fun_induction inputLoop inputting data with
  | case1 inputting data hshort => rw [inputLoop_eq, if_pos hshort]
  | case2 inputting data hshort header hconv => rw [inputLoop_eq, if_neg hshort, if_pos hconv]
  | case3 inputting data hshort header data' hconv hlen =>
    rw [inputLoop_eq, if_neg hshort, if_neg hconv, if_pos hlen]
  | case4 inputting data hshort header data' hconv hlen hcmd =>
    rw [inputLoop_eq, if_neg hshort, if_neg hconv, if_neg hlen, if_pos hcmd]
  | case5 inputting data hshort header data' hconv hlen hcmd ih =>
    have hsame : (inputSegment inputting header (data'.take header.len.toNat)).kcp.conv =
        inputting.kcp.conv := congrArg Fixed.conv (fixed_inputSegment _ _ _)
    rw [ih, hsame, inputLoop_eq _ data, if_neg hshort, if_neg hconv, if_neg hlen, if_neg hcmd]

/-- `ikcp_input` returns what its checks of the headers decide. -/
theorem input_code (kcp : Ikcpcb) (data : List UInt8) :
    (input kcp data).1 = Kcp.inputCode kcp.conv data := by
  have hloop := inputLoop_code ⟨kcp, false, 0⟩ data
  by_cases hshort : data.length < overhead
  · rw [input, if_pos hshort]
    exact (if_pos hshort).symm
  · have hcode : Kcp.inputCode kcp.conv data = (inputLoop ⟨kcp, false, 0⟩ data).1 :=
      (if_neg hshort).trans hloop.symm
    rw [input, if_neg hshort, hcode]
    dsimp only
    split
    · rfl
    · rename_i hpassed
      exact (not_not.mp hpassed).symm

/-! ### The queue of complete messages -/

/-- The segments that have been received and not handed over. -/
def Ikcpcb.pending (kcp : Ikcpcb) : ℕ := kcp.rcvQueue.length + kcp.rcvBuf.length

theorem pending_moveAvailable (kcp : Ikcpcb) : (moveAvailable kcp).pending = kcp.pending := by
  obtain ⟨moved, rest, hbuf, -, -, -, heq⟩ := moveLoop_spec kcp kcp.rcvBuf
  rw [moveAvailable, heq, Ikcpcb.pending, Ikcpcb.pending, hbuf]
  simp only [List.length_append]
  omega

theorem pending_takeFragments {kcp : Ikcpcb} (hqueue : kcp.rcvQueue ≠ []) {len : ℤ}
    (hlen : 0 ≤ len) : (takeFragments kcp len).pending < kcp.pending := by
  have hsplit := congrArg List.length (mergeLoop_append kcp.rcvQueue)
  have hpos : 0 < (mergeLoop kcp.rcvQueue).1.length := by
    cases hsegs : kcp.rcvQueue with
    | nil => exact absurd hsegs hqueue
    | cons seg rest =>
      rw [mergeLoop]
      split <;> exact Nat.succ_pos _
  rw [List.length_append] at hsplit
  rw [takeFragments, if_neg (not_lt.mpr hlen), Ikcpcb.pending, Ikcpcb.pending]
  dsimp only
  omega

theorem rcvQueue_ne_nil {kcp : Ikcpcb} (hsize : 0 ≤ peeksize kcp) : kcp.rcvQueue ≠ [] := by
  intro hnil
  have hnone : peeksize kcp = -1 := by rw [peeksize, hnil]
  omega

/-- A message that `ikcp_peeksize` finds can be taken out. -/
theorem recv_peeksize {kcp : Ikcpcb} (hsize : 0 ≤ peeksize kcp) {len : ℤ}
    (hlen : peeksize kcp ≤ len) : ∃ probe, recv kcp len =
      (((dataOf (mergeLoop kcp.rcvQueue).1).length : ℤ), dataOf (mergeLoop kcp.rcvQueue).1,
        { moveAvailable (takeFragments kcp len) with probe := probe }) := by
  have habs : ¬ (len.natAbs : ℤ) < peeksize kcp := by omega
  rw [recv, if_neg (rcvQueue_ne_nil hsize), if_neg (not_lt.mpr hsize), if_neg habs]
  dsimp only
  split_ifs <;> exact ⟨_, rfl⟩

/-- The messages that `ikcp_recv` returns one after another, given a buffer that is large enough. -/
def complete (kcp : Ikcpcb) : List (List UInt8) :=
  if _hsize : peeksize kcp < 0 then []
  else dataOf (mergeLoop kcp.rcvQueue).1 :: complete (moveAvailable (takeFragments kcp 0))
termination_by kcp.pending
decreasing_by
  rw [pending_moveAvailable]
  exact pending_takeFragments (rcvQueue_ne_nil (not_lt.mp _hsize)) (Int.le_refl 0)

/-- The receiving part without the acknowledgements. -/
def Ikcpcb.shelves (kcp : Ikcpcb) : Receiver := { kcp.receiver with acklist := [] }

section Shelves

variable {kcp kcp' : Ikcpcb} (hsame : kcp.shelves = kcp'.shelves)

include hsame

theorem peeksize_congr : peeksize kcp = peeksize kcp' := by
  have hqueue : kcp.rcvQueue = kcp'.rcvQueue := congrArg Receiver.rcvQueue hsame
  have hcount : kcp.nrcvQue = kcp'.nrcvQue := congrArg Receiver.nrcvQue hsame
  rw [peeksize, peeksize, hqueue, hcount]

theorem shelves_takeFragments (len : ℤ) :
    (takeFragments kcp len).shelves = (takeFragments kcp' len).shelves := by
  rw [takeFragments, takeFragments]
  split
  · exact hsame
  · exact congrArg (fun receiver : Receiver ↦ { receiver with
      rcvQueue := (mergeLoop receiver.rcvQueue).2
      nrcvQue := receiver.nrcvQue - UInt32.ofNat (mergeLoop receiver.rcvQueue).1.length }) hsame

theorem shelves_moveLoop (segs : List Ikcpseg) :
    (moveLoop kcp segs).shelves = (moveLoop kcp' segs).shelves := by
  induction segs generalizing kcp kcp' with
  | nil => exact congrArg (fun receiver : Receiver ↦ { receiver with rcvBuf := [] }) hsame
  | cons seg rest ih =>
    have hnext : kcp.rcvNxt = kcp'.rcvNxt := congrArg Receiver.rcvNxt hsame
    have hcount : kcp.nrcvQue = kcp'.nrcvQue := congrArg Receiver.nrcvQue hsame
    have hwnd : kcp.rcvWnd = kcp'.rcvWnd := congrArg Receiver.rcvWnd hsame
    by_cases hseg : seg.sn = kcp.rcvNxt ∧ kcp.nrcvQue < kcp.rcvWnd
    · have hseg' : seg.sn = kcp'.rcvNxt ∧ kcp'.nrcvQue < kcp'.rcvWnd := by
        rwa [← hnext, ← hcount, ← hwnd]
      rw [moveLoop, if_pos hseg, moveLoop, if_pos hseg']
      exact ih (congrArg (fun receiver : Receiver ↦ { receiver with
        nrcvBuf := receiver.nrcvBuf - 1
        rcvQueue := receiver.rcvQueue ++ [seg]
        nrcvQue := receiver.nrcvQue + 1
        rcvNxt := receiver.rcvNxt + 1 }) hsame)
    · have hseg' : ¬ (seg.sn = kcp'.rcvNxt ∧ kcp'.nrcvQue < kcp'.rcvWnd) := by
        rwa [← hnext, ← hcount, ← hwnd]
      rw [moveLoop, if_neg hseg, moveLoop, if_neg hseg']
      exact congrArg (fun receiver : Receiver ↦ { receiver with rcvBuf := seg :: rest }) hsame

/-- What is complete only depends on what has been received. -/
theorem complete_congr : complete kcp = complete kcp' := by
  fun_induction complete kcp generalizing kcp' with
  | case1 kcp hsize =>
    rw [peeksize_congr hsame] at hsize
    rw [complete, dif_pos hsize]
  | case2 kcp hsize ih =>
    have hqueue : kcp.rcvQueue = kcp'.rcvQueue := congrArg Receiver.rcvQueue hsame
    have hbuf : (takeFragments kcp 0).rcvBuf = (takeFragments kcp' 0).rcvBuf :=
      congrArg Receiver.rcvBuf (shelves_takeFragments hsame 0)
    have hmoved : (moveAvailable (takeFragments kcp 0)).shelves =
        (moveAvailable (takeFragments kcp' 0)).shelves := by
      rw [moveAvailable, moveAvailable, hbuf]
      exact shelves_moveLoop (shelves_takeFragments hsame 0) _
    rw [peeksize_congr hsame] at hsize
    rw [complete.eq_1 kcp', dif_neg hsize, hqueue, ih hmoved]

end Shelves

theorem complete_send (kcp : Ikcpcb) (buffer : List UInt8) :
    complete (send kcp buffer).2 = complete kcp := by
  refine complete_congr ?_
  rw [send_spec]
  rfl

theorem complete_update (kcp : Ikcpcb) (current : UInt32) :
    complete (update kcp current).2 = complete kcp := by
  refine complete_congr ?_
  obtain ⟨updated, tsFlush, hupdated, hupdate | hupdate⟩ := update_spec kcp current
  · rw [hupdate]
    rfl
  · obtain ⟨moved, rest, added, -, -, hreceiver, -⟩ :=
      @flush_spec (kcp.clocked current updated tsFlush) hupdated
    rw [hupdate, Ikcpcb.shelves, hreceiver]
    rfl

/-! ### `ikcp_recv` -/

theorem peeksize_eq {kcp : Ikcpcb} (hsize : 0 ≤ peeksize kcp) :
    peeksize kcp = (dataOf (mergeLoop kcp.rcvQueue).1).length := by
  cases hqueue : kcp.rcvQueue with
  | nil => exact absurd hqueue (rcvQueue_ne_nil hsize)
  | cons seg rest =>
    rw [peeksize, hqueue] at hsize ⊢
    dsimp only at hsize ⊢
    split_ifs at hsize ⊢ with hfrg hcount
    · rw [mergeLoop, if_pos hfrg]
      simp [dataOf]
    · omega
    · rfl

theorem peeksize_neg {kcp : Ikcpcb} (hnil : complete kcp = []) : peeksize kcp < 0 := by
  by_contra hsize
  rw [complete, dif_neg hsize] at hnil
  exact List.cons_ne_nil _ _ hnil

/-- Without a complete message, `ikcp_recv` fails, and not because of a short buffer. -/
theorem recv_of_complete_nil {kcp : Ikcpcb} (hnil : complete kcp = []) (len : ℤ) :
    ∃ code, recv kcp len = (code, [], kcp) ∧ code < 0 ∧ code ≠ -3 := by
  have hsize := peeksize_neg hnil
  by_cases hqueue : kcp.rcvQueue = []
  · exact ⟨-1, by rw [recv, if_pos hqueue], by decide, by decide⟩
  · exact ⟨-2, by rw [recv, if_neg hqueue, if_pos hsize], by decide, by decide⟩

theorem complete_cons {kcp : Ikcpcb} {message : List UInt8} {rest : List (List UInt8)}
    (hcons : complete kcp = message :: rest) : 0 ≤ peeksize kcp ∧
      message = dataOf (mergeLoop kcp.rcvQueue).1 ∧
      rest = complete (moveAvailable (takeFragments kcp 0)) := by
  rw [complete] at hcons
  split at hcons
  · cases hcons
  · rename_i hsize
    obtain ⟨rfl, rfl⟩ := List.cons.inj hcons
    exact ⟨not_lt.mp hsize, rfl, rfl⟩

/-- The next message does not fit into the buffer. -/
theorem recv_of_short {kcp : Ikcpcb} {message : List UInt8} {rest : List (List UInt8)}
    (hcons : complete kcp = message :: rest) {size : ℕ} (hshort : size < message.length) :
    recv kcp size = (-3, [], kcp) := by
  obtain ⟨hsize, rfl, -⟩ := complete_cons hcons
  have hlong : ((size : ℤ).natAbs : ℤ) < peeksize kcp := by
    rw [peeksize_eq hsize]
    omega
  rw [recv, if_neg (rcvQueue_ne_nil hsize), if_neg (not_lt.mpr hsize), if_pos hlong]

/-- The next message fits into the buffer: it is handed over, and the others stay. -/
theorem recv_of_fits {kcp : Ikcpcb} {message : List UInt8} {rest : List (List UInt8)}
    (hcons : complete kcp = message :: rest) {size : ℕ} (hfits : message.length ≤ size) :
    ∃ next, recv kcp size = ((message.length : ℤ), message, next) ∧ complete next = rest := by
  obtain ⟨hsize, rfl, rfl⟩ := complete_cons hcons
  have hlen : peeksize kcp ≤ size := by
    rw [peeksize_eq hsize]
    omega
  obtain ⟨probe, hrecv⟩ := recv_peeksize hsize hlen
  have htake : takeFragments kcp size = takeFragments kcp 0 := by
    rw [takeFragments, takeFragments, if_neg (not_lt.mpr (Int.natCast_nonneg size)),
      if_neg (lt_irrefl 0)]
  rw [htake] at hrecv
  exact ⟨_, hrecv, complete_congr rfl⟩

/-! ### Control blocks and queues -/

/-- A control block as a queue of messages. -/
def Node.endpoint (node : Node) : Kcp.Endpoint :=
  ⟨node.kcp.conv, complete node.kcp, node.accepted⟩

/-- A control block answers as the queue does. What a datagram completes is not described: only the
queue of complete messages may change. -/
structure Node.Refines (node : Node) : Prop where
  input_code : ∀ data messages,
    (input node.kcp data).1 = (node.endpoint.input ⟨data, messages⟩).1
  input_rest : ∀ data, ∃ ready,
    (node.call (.input data)).endpoint = { node.endpoint with ready := ready }
  send : ∀ buffer, ((send node.kcp buffer).1, (node.call (.send buffer)).endpoint) =
    node.endpoint.send buffer
  recv_ok : ∀ (size : ℕ) message endpoint,
    node.endpoint.recv size = .ok (message, endpoint) →
      (recv node.kcp size).1 = message.length ∧ (recv node.kcp size).2.1 = message ∧
        (node.call (.recv size)).endpoint = endpoint
  recv_error : ∀ (size : ℕ) code, node.endpoint.recv size = .error code →
    (recv node.kcp size).1 < 0 ∧ ((recv node.kcp size).1 = -3 ↔ code = -3) ∧
      (node.call (.recv size)).endpoint = node.endpoint
  update : ∀ current, (node.call (.update current)).endpoint = node.endpoint

/-- The parameters of a session: message mode and the `mtu` of `ikcp_create`. -/
structure Fixed.Plain (fixed : Fixed) : Prop where
  mss : fixed.mss = 1376
  stream : fixed.stream = 0

theorem fragmentCount_eq (buffer : List UInt8) :
    fragmentCount 1376 buffer.length = Kcp.fragments buffer := by
  have hsum : buffer.length + 1376 - 1 = buffer.length + 1375 := by omega
  rw [fragmentCount, Kcp.fragments, hsum]

theorem send_code {kcp : Ikcpcb} (hplain : kcp.fixed.Plain) (buffer : List UInt8) :
    (send kcp buffer).1 =
      if 2147483648 ≤ buffer.length then -1 else if 128 ≤ Kcp.fragments buffer then -2 else 0 := by
  have hmss : kcp.mss.toNat = 1376 := congrArg UInt32.toNat hplain.mss
  have hstream : ¬ kcp.stream ≠ 0 := not_not.mpr hplain.stream
  rw [send, if_neg hstream, sendRest, hmss, fragmentCount_eq]
  by_cases hlength : 2147483648 ≤ buffer.length
  · rw [if_pos hlength, if_pos hlength]
  · rw [if_neg hlength, if_neg hlength]
    by_cases hcount : 128 ≤ Kcp.fragments buffer
    · have hcount' : wndRcv.toNat ≤ Kcp.fragments buffer := hcount
      rw [if_pos hcount, if_pos hcount']
    · have hcount' : ¬ wndRcv.toNat ≤ Kcp.fragments buffer := hcount
      rw [if_neg hcount, if_neg hcount']

theorem Node.send_endpoint {node : Node} (hplain : node.kcp.fixed.Plain) (buffer : List UInt8) :
    ((send node.kcp buffer).1, (node.call (.send buffer)).endpoint) =
      node.endpoint.send buffer := by
  have hconv : (send node.kcp buffer).2.conv = node.kcp.conv := by rw [send_spec]
  rw [Node.endpoint, Node.call, complete_send, hconv, send_code hplain, Kcp.Endpoint.send]
  by_cases hlength : 2147483648 ≤ buffer.length
  · rw [if_pos hlength, if_pos hlength]
    rfl
  · rw [if_neg hlength, if_neg hlength]
    by_cases hcount : 128 ≤ Kcp.fragments buffer
    · rw [if_pos hcount, if_pos hcount]
      rfl
    · rw [if_neg hcount, if_neg hcount]
      rfl

theorem Node.call_recv_of_error {node : Node} {size : ℤ} {code : ℤ}
    (hrecv : recv node.kcp size = (code, [], node.kcp)) (hcode : code < 0) :
    node.call (.recv size) = node := by
  rw [Node.call, hrecv, if_neg (fun hok ↦ (not_le.mpr hcode) hok.1)]

theorem Node.recv_error_endpoint {node : Node} {size : ℕ} {code : ℤ}
    (herror : node.endpoint.recv size = .error code) :
    (recv node.kcp size).1 < 0 ∧ ((recv node.kcp size).1 = -3 ↔ code = -3) ∧
      (node.call (.recv size)).endpoint = node.endpoint := by
  cases hready : complete node.kcp with
  | nil =>
    obtain ⟨failed, hrecv, hneg, hother⟩ := recv_of_complete_nil hready size
    have hcode : code = -1 := by
      rw [Kcp.Endpoint.recv, Node.endpoint, hready] at herror
      exact (Except.error.inj herror).symm
    rw [call_recv_of_error hrecv hneg, hrecv, hcode]
    exact ⟨hneg, iff_of_false hother (by decide), rfl⟩
  | cons message rest =>
    rw [Kcp.Endpoint.recv, Node.endpoint, hready] at herror
    dsimp only at herror
    split at herror
    · rename_i hshort
      have hrecv := recv_of_short hready hshort
      rw [call_recv_of_error hrecv (by decide), hrecv, ← Except.error.inj herror]
      exact ⟨show (-3 : ℤ) < 0 by decide, Iff.rfl, rfl⟩
    · cases herror

theorem Node.recv_ok_endpoint {node : Node} {size : ℕ} {message : List UInt8}
    {endpoint : Kcp.Endpoint} (hok : node.endpoint.recv size = .ok (message, endpoint)) :
    (recv node.kcp size).1 = message.length ∧ (recv node.kcp size).2.1 = message ∧
      (node.call (.recv size)).endpoint = endpoint := by
  cases hready : complete node.kcp with
  | nil =>
    rw [Kcp.Endpoint.recv, Node.endpoint, hready] at hok
    cases hok
  | cons first rest =>
    rw [Kcp.Endpoint.recv, Node.endpoint, hready] at hok
    dsimp only at hok
    split at hok
    · cases hok
    · rename_i hfits
      obtain ⟨rfl, rfl⟩ := Prod.mk.inj (Except.ok.inj hok)
      obtain ⟨next, hrecv, hrest⟩ := recv_of_fits hready (not_lt.mp hfits)
      have hconv : next.conv = node.kcp.conv := by
        have hfixed := congrArg Fixed.conv (fixed_recv node.kcp size)
        rwa [hrecv] at hfixed
      rw [Node.call, hrecv, if_pos ⟨Int.natCast_nonneg _, Int.natCast_nonneg _⟩]
      refine ⟨rfl, rfl, ?_⟩
      rw [Node.endpoint, hconv, hrest]

/-- A control block with these parameters refines the queue, in whatever state it is. -/
theorem Node.refines {node : Node} (hplain : node.kcp.fixed.Plain) : node.Refines where
  input_code := fun data _ ↦ Ikcp.input_code node.kcp data
  input_rest := fun data ↦ by
    have hconv : (input node.kcp data).2.conv = node.kcp.conv :=
      congrArg Fixed.conv (fixed_input node.kcp data)
    refine ⟨complete (input node.kcp data).2, ?_⟩
    rw [Node.endpoint, Node.call, hconv]
    rfl
  send := send_endpoint hplain
  recv_ok := fun _ _ _ ↦ recv_ok_endpoint
  recv_error := fun _ _ ↦ recv_error_endpoint
  update := fun current ↦ by
    have hconv : (update node.kcp current).2.conv = node.kcp.conv :=
      congrArg Fixed.conv (fixed_update node.kcp current)
    have hready := complete_update node.kcp current
    rw [Node.endpoint, Node.call, Node.flushed, hconv, hready]
    rfl

/-- After any calls but `ikcp_setmtu`, and whatever has arrived, a control block in message mode
answers as a queue of messages. -/
theorem refines_run (conv : UInt32) {calls : List Call}
    (hcalls : ∀ call ∈ calls, call.KeepsMtu) : ((Node.start conv 0).run calls).Refines := by
  refine Node.refines (Node.run_induction (motive := fun node ↦ node.kcp.fixed.Plain)
    ⟨rfl, rfl⟩ ?_)
  intro node call hcall hplain
  rw [fixed_call node (hcalls call hcall)]
  exact hplain

/-- A message arrives in two fragments, the second one first. -/
def arriving : List Call :=
  [.input ({ newSegment 0 [105] with conv := 1, cmd := 81, sn := 1 } : Ikcpseg).bytes,
    .input ({ newSegment 1 [104] with conv := 1, cmd := 81 } : Ikcpseg).bytes]

theorem refines_run_arriving :
    ((Node.start 1 0).run arriving).endpoint = ⟨1, [[104, 105]], []⟩ ∧
      (recv ((Node.start 1 0).run arriving).kcp 4096).2.1 = [104, 105] ∧
      (((Node.start 1 0).run arriving).call (.recv 4096)).endpoint = ⟨1, [], []⟩ := by
  have hcalls : ∀ call ∈ arriving, call.KeepsMtu := by simp [arriving, Call.KeepsMtu]
  have hendpoint : ((Node.start 1 0).run arriving).endpoint = ⟨1, [[104, 105]], []⟩ := by
    decide +kernel
  have hrecv : ((Node.start 1 0).run arriving).endpoint.recv 4096 =
      .ok ([104, 105], ⟨1, [], []⟩) := by
    rw [hendpoint]
    rfl
  obtain ⟨-, hmessage, hnext⟩ := (refines_run 1 hcalls).recv_ok 4096 _ _ hrecv
  exact ⟨hendpoint, hmessage, hnext⟩

/-! ### Sessions -/

/-- The members of `KcpOpt` that `KcpSession` only hands to `ikcp`. -/
structure Settings where
  sndwnd : Int32
  rcvwnd : Int32
  nodelay : Int32
  interval : Int32
  resend : Int32
  nc : Int32

/-- `ikcp.c` as the sessions use it. -/
def segmentIkcp (settings : Settings) : Kcp.Ikcp Ikcpcb (List UInt8) where
  bytes := id
  create := fun conv ↦ nodelay (wndsize (create conv) settings.sndwnd settings.rcvwnd)
    settings.nodelay settings.interval settings.resend settings.nc
  input := input
  send := send
  recv := fun kcp size ↦
    if (recv kcp size).1 < 0 then .error (recv kcp size).1 else .ok (recv kcp size).2
  update := fun kcp current ↦ (update kcp current).2
  pending := Ikcpcb.pending
  pending_send := fun kcp message ↦ by
    rw [send_spec]
    rfl
  pending_recv := fun kcp size message next hok _ ↦ by
    rcases recv_spec kcp size with ⟨code, hcode, hrecv⟩ | ⟨probe, hrecv, hqueue, -⟩
    · rw [hrecv, if_pos hcode] at hok
      cases hok
    · rw [hrecv, if_neg (not_lt.mpr (Int.natCast_nonneg _))] at hok
      rw [← (Prod.mk.inj (Except.ok.inj hok)).2]
      change (moveAvailable (takeFragments kcp size)).pending < kcp.pending
      rw [pending_moveAvailable]
      exact pending_takeFragments hqueue (Int.natCast_nonneg size)

/-- The laws that the receive loops of server and client rely on. -/
def segmentQueue (settings : Settings) : Kcp.Queue (segmentIkcp settings) where
  ready := complete
  recv_nil := fun kcp size hnil ↦ by
    obtain ⟨code, hrecv, hcode, hother⟩ := recv_of_complete_nil hnil size
    refine ⟨code, ?_, hother⟩
    change (if (recv kcp size).1 < 0 then _ else _) = _
    rw [hrecv, if_pos hcode]
  recv_cons := fun kcp size message rest hready hfits ↦ by
    obtain ⟨next, hrecv, hrest⟩ := recv_of_fits hready hfits
    refine ⟨next, ?_, hrest⟩
    change (if (recv kcp size).1 < 0 then _ else _) = _
    rw [hrecv, if_neg (not_lt.mpr (Int.natCast_nonneg _))]
  ready_send := complete_send

/-- A server takes the messages out of a control block that a datagram has completed, up to the
first empty one. -/
theorem complete_handleSession (settings : Settings) {server : Kcp.Server Ikcpcb} {id : ℕ}
    {data : List UInt8} (hcode : Kcp.inputCode (server.objects id).kcp.conv data = 0)
    (hlength : ∀ message ∈ complete (input (server.objects id).kcp data).2, message.length ≤ 4096)
    (clock : ℕ → ℤ) :
    complete ((server.handleSession (segmentIkcp settings) id data clock).objects id).kcp =
      Kcp.leftBehind (complete (input (server.objects id).kcp data).2) :=
  Kcp.ready_handleSession (segmentQueue settings) ((input_code _ _).trans hcode) hlength clock

/-- What `ikcp_send` has queued and no flush has taken yet. -/
def Ikcpcb.outgoing (kcp : Ikcpcb) : List (List UInt8) := kcp.sndQueue.map Ikcpseg.data

theorem outgoing_input (kcp : Ikcpcb) (data : List UInt8) :
    (input kcp data).2.outgoing = kcp.outgoing := by
  have hqueue : (input kcp data).2.sndQueue = kcp.sndQueue :=
    congrArg Prod.fst (waiting_input kcp data)
  rw [Ikcpcb.outgoing, hqueue, Ikcpcb.outgoing]

/-- A datagram that `ikcp_input` rejects changes neither the sessions, the users, the addresses nor
`snd_queue` exactly if it comes from the stored address of a known conversation. -/
theorem unchanged_segments_iff (settings : Settings) {server : Kcp.Server Ikcpcb}
    {data : List UInt8} {addr : Kcp.SockAddr} (clock : ℕ → ℤ) (hlength : 24 ≤ data.length)
    (hrejects : server.Rejects (segmentIkcp settings) data addr) :
    Kcp.Unchanged Ikcpcb.outgoing server
        (server.receive (segmentIkcp settings) data addr clock) ↔
      ∃ id, server.sessions.lookup (Kcp.getConv data) = some id ∧
        (server.objects id).addr = addr := by
  constructor
  · exact Kcp.known_of_unchanged hlength hrejects
  · rintro ⟨id, hid, haddr⟩
    exact Kcp.unchanged_of_known outgoing_input clock hlength hrejects hid haddr

end TestLinux.Ikcp
