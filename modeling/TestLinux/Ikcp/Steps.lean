import TestLinux.Ikcp.Model

/-!
# What the functions of `ikcp.c` do

A control block is seen as three parts: `receiver`, `sender` and the `fixed` members. The functions
for acknowledgements leave the receiver alone, and those for data the sender, so that an invariant
of one part needs no argument for the functions of the other. The loops that move segments are
described by what they move: `moveLoop_spec` for arriving data and `numberLoop_spec` for data that
is sent the first time. `inputLoop_induction` is the induction over the segments of a datagram that
may contain anything.
-/

set_option autoImplicit false
set_option relaxedAutoImplicit false

namespace TestLinux.Ikcp

open TestLinux.Serial

/-- A positive `int` is the same number as an `IUINT32`. -/
theorem toNat_toUInt32 {number : Int32} (hpos : 0 < number) :
    (number.toUInt32.toNat : ℤ) = number.toInt := by
  have hint : 0 < number.toBitVec.toInt := Int32.lt_iff_toInt_lt.mp hpos
  have hlt := number.toBitVec.isLt
  change (number.toBitVec.toNat : ℤ) = number.toBitVec.toInt
  rw [BitVec.toInt_eq_toNat_cond] at hint ⊢
  split_ifs at hint ⊢ <;> omega

/-! ### Parts of a control block -/

/-- The members that receiving works on. -/
structure Receiver where
  rcvNxt : UInt32
  rcvWnd : UInt32
  nrcvBuf : UInt32
  nrcvQue : UInt32
  rcvQueue : List Ikcpseg
  rcvBuf : List Ikcpseg
  acklist : List (UInt32 × UInt32)

/-- The members that sending works on. -/
structure Sender where
  sndUna : UInt32
  sndNxt : UInt32
  nsndBuf : UInt32
  nsndQue : UInt32
  rmtWnd : UInt32
  sndQueue : List Ikcpseg
  sndBuf : List Ikcpseg

/-- The members that only the functions for parameters write. -/
structure Fixed where
  conv : UInt32
  mtu : UInt32
  mss : UInt32
  stream : Int32

/-- The receiving part. -/
def Ikcpcb.receiver (kcp : Ikcpcb) : Receiver :=
  ⟨kcp.rcvNxt, kcp.rcvWnd, kcp.nrcvBuf, kcp.nrcvQue, kcp.rcvQueue, kcp.rcvBuf, kcp.acklist⟩

/-- The sending part. -/
def Ikcpcb.sender (kcp : Ikcpcb) : Sender :=
  ⟨kcp.sndUna, kcp.sndNxt, kcp.nsndBuf, kcp.nsndQue, kcp.rmtWnd, kcp.sndQueue, kcp.sndBuf⟩

/-- The fixed part. -/
def Ikcpcb.fixed (kcp : Ikcpcb) : Fixed := ⟨kcp.conv, kcp.mtu, kcp.mss, kcp.stream⟩

/-! ### Functions for acknowledgements -/

@[simp] theorem receiver_updateAck (kcp : Ikcpcb) (rtt : Int32) :
    (updateAck kcp rtt).receiver = kcp.receiver := rfl

@[simp] theorem sender_updateAck (kcp : Ikcpcb) (rtt : Int32) :
    (updateAck kcp rtt).sender = kcp.sender := rfl

@[simp] theorem fixed_updateAck (kcp : Ikcpcb) (rtt : Int32) :
    (updateAck kcp rtt).fixed = kcp.fixed := rfl

@[simp] theorem receiver_shrinkBuf (kcp : Ikcpcb) : (shrinkBuf kcp).receiver = kcp.receiver := by
  unfold shrinkBuf
  split <;> rfl

@[simp] theorem fixed_shrinkBuf (kcp : Ikcpcb) : (shrinkBuf kcp).fixed = kcp.fixed := by
  unfold shrinkBuf
  split <;> rfl

@[simp] theorem receiver_parseAck (kcp : Ikcpcb) (sn : UInt32) :
    (parseAck kcp sn).receiver = kcp.receiver := by
  unfold parseAck
  split <;> rfl

@[simp] theorem fixed_parseAck (kcp : Ikcpcb) (sn : UInt32) :
    (parseAck kcp sn).fixed = kcp.fixed := by
  unfold parseAck
  split <;> rfl

@[simp] theorem receiver_parseUna (kcp : Ikcpcb) (una : UInt32) :
    (parseUna kcp una).receiver = kcp.receiver := rfl

@[simp] theorem fixed_parseUna (kcp : Ikcpcb) (una : UInt32) :
    (parseUna kcp una).fixed = kcp.fixed := rfl

@[simp] theorem receiver_parseFastack (kcp : Ikcpcb) (sn : UInt32) :
    (parseFastack kcp sn).receiver = kcp.receiver := by
  unfold parseFastack
  split <;> rfl

@[simp] theorem fixed_parseFastack (kcp : Ikcpcb) (sn : UInt32) :
    (parseFastack kcp sn).fixed = kcp.fixed := by
  unfold parseFastack
  split <;> rfl

@[simp] theorem receiver_inputCommon (kcp : Ikcpcb) (header : Header) :
    (inputCommon kcp header).receiver = kcp.receiver := by
  rw [inputCommon, receiver_shrinkBuf, receiver_parseUna]
  rfl

@[simp] theorem fixed_inputCommon (kcp : Ikcpcb) (header : Header) :
    (inputCommon kcp header).fixed = kcp.fixed := by
  rw [inputCommon, fixed_shrinkBuf, fixed_parseUna]
  rfl

@[simp] theorem receiver_inputAck (inputting : Inputting) (header : Header) :
    (inputAck inputting header).kcp.receiver = inputting.kcp.receiver := by
  simp only [inputAck, receiver_shrinkBuf, receiver_parseAck]
  split <;> simp

@[simp] theorem fixed_inputAck (inputting : Inputting) (header : Header) :
    (inputAck inputting header).kcp.fixed = inputting.kcp.fixed := by
  simp only [inputAck, fixed_shrinkBuf, fixed_parseAck]
  split <;> simp

@[simp] theorem receiver_growWindow (kcp : Ikcpcb) (prevUna : UInt32) :
    (growWindow kcp prevUna).receiver = kcp.receiver := by
  unfold growWindow
  dsimp only
  split_ifs <;> rfl

@[simp] theorem sender_growWindow (kcp : Ikcpcb) (prevUna : UInt32) :
    (growWindow kcp prevUna).sender = kcp.sender := by
  unfold growWindow
  dsimp only
  split_ifs <;> rfl

@[simp] theorem fixed_growWindow (kcp : Ikcpcb) (prevUna : UInt32) :
    (growWindow kcp prevUna).fixed = kcp.fixed := by
  unfold growWindow
  dsimp only
  split_ifs <;> rfl

/-! ### Functions for data -/

/-- What the loop that moves data does. The moved segments have the numbers from `rcv_nxt` on, there
was room for each of them, and the loop stops at a gap or without room. -/
theorem moveLoop_spec (kcp : Ikcpcb) (segs : List Ikcpseg) :
    ∃ moved rest, segs = moved ++ rest ∧
      moved.map Ikcpseg.sn = consecutive kcp.rcvNxt moved.length ∧
      (∀ k < moved.length, kcp.nrcvQue + UInt32.ofNat k < kcp.rcvWnd) ∧
      (∀ seg ∈ rest.head?, ¬ (seg.sn = kcp.rcvNxt + UInt32.ofNat moved.length ∧
        kcp.nrcvQue + UInt32.ofNat moved.length < kcp.rcvWnd)) ∧
      moveLoop kcp segs = { kcp with
        rcvBuf := rest
        nrcvBuf := kcp.nrcvBuf - UInt32.ofNat moved.length
        rcvQueue := kcp.rcvQueue ++ moved
        nrcvQue := kcp.nrcvQue + UInt32.ofNat moved.length
        rcvNxt := kcp.rcvNxt + UInt32.ofNat moved.length } := by
  induction segs generalizing kcp with
  | nil => exact ⟨[], [], rfl, rfl, by simp, by simp, by simp [moveLoop]⟩
  | cons seg rest ih =>
    rw [moveLoop]
    split
    · rename_i hseg
      obtain ⟨moved, left, rfl, hnumbers, hroom, hstop, heq⟩ := ih { kcp with
        nrcvBuf := kcp.nrcvBuf - 1
        rcvQueue := kcp.rcvQueue ++ [seg]
        nrcvQue := kcp.nrcvQue + 1
        rcvNxt := kcp.rcvNxt + 1 }
      refine ⟨seg :: moved, left, rfl, ?_, ?_, ?_, ?_⟩
      · rw [List.map_cons, hnumbers, List.length_cons, consecutive, hseg.1]
      · intro k hk
        cases k with
        | zero => simpa using hseg.2
        | succ k =>
          rw [← add_ofNat_succ]
          exact hroom k (Nat.lt_of_succ_lt_succ hk)
      · intro last hlast
        rw [List.length_cons, ← add_ofNat_succ, ← add_ofNat_succ]
        exact hstop last hlast
      · rw [heq]
        simp only [List.length_cons, List.append_assoc, List.singleton_append, add_ofNat_succ,
          sub_ofNat_succ]
    · rename_i hseg
      refine ⟨[], seg :: rest, rfl, rfl, by simp, ?_, by simp⟩
      intro last hlast
      obtain rfl : seg = last := by simpa using hlast
      simpa using hseg

@[simp] theorem sender_moveLoop (kcp : Ikcpcb) (segs : List Ikcpseg) :
    (moveLoop kcp segs).sender = kcp.sender := by
  obtain ⟨moved, rest, -, -, -, -, heq⟩ := moveLoop_spec kcp segs
  rw [heq]
  rfl

@[simp] theorem fixed_moveLoop (kcp : Ikcpcb) (segs : List Ikcpseg) :
    (moveLoop kcp segs).fixed = kcp.fixed := by
  obtain ⟨moved, rest, -, -, -, -, heq⟩ := moveLoop_spec kcp segs
  rw [heq]
  rfl

@[simp] theorem sender_insertBuf (kcp : Ikcpcb) (newseg : Ikcpseg) :
    (insertBuf kcp newseg).sender = kcp.sender := by
  unfold insertBuf
  split <;> rfl

@[simp] theorem fixed_insertBuf (kcp : Ikcpcb) (newseg : Ikcpseg) :
    (insertBuf kcp newseg).fixed = kcp.fixed := by
  unfold insertBuf
  split <;> rfl

@[simp] theorem sender_parseData (kcp : Ikcpcb) (newseg : Ikcpseg) :
    (parseData kcp newseg).sender = kcp.sender := by
  unfold parseData moveAvailable
  split
  · rfl
  · rw [sender_moveLoop, sender_insertBuf]

@[simp] theorem fixed_parseData (kcp : Ikcpcb) (newseg : Ikcpseg) :
    (parseData kcp newseg).fixed = kcp.fixed := by
  unfold parseData moveAvailable
  split
  · rfl
  · rw [fixed_moveLoop, fixed_insertBuf]

@[simp] theorem sender_inputPush (kcp : Ikcpcb) (header : Header) (data : List UInt8) :
    (inputPush kcp header data).sender = kcp.sender := by
  simp only [inputPush]
  split_ifs
  · rw [sender_parseData]
    rfl
  · rfl
  · rfl

@[simp] theorem fixed_inputPush (kcp : Ikcpcb) (header : Header) (data : List UInt8) :
    (inputPush kcp header data).fixed = kcp.fixed := by
  simp only [inputPush]
  split_ifs
  · rw [fixed_parseData]
    rfl
  · rfl
  · rfl

@[simp] theorem fixed_inputSegment (inputting : Inputting) (header : Header)
    (data : List UInt8) :
    (inputSegment inputting header data).kcp.fixed = inputting.kcp.fixed := by
  simp only [inputSegment]
  split_ifs
  · simp
  · simp
  · exact fixed_inputCommon inputting.kcp header
  · simp

/-! ### Datagrams that arrive -/

/-- Induction over the segments of a datagram that may contain anything. -/
theorem inputLoop_induction {motive : Inputting → Prop}
    (hsegment : ∀ inputting header data, motive inputting → header.conv = inputting.kcp.conv →
      motive (inputSegment inputting header data))
    (inputting : Inputting) (data : List UInt8) (hstart : motive inputting) :
    motive (inputLoop inputting data).2 := by
  fun_induction inputLoop inputting data with
  | case1 => exact hstart
  | case2 => exact hstart
  | case3 => exact hstart
  | case4 => exact hstart
  | case5 inputting data _ header data' hconv _ _ ih =>
    exact ih (hsegment inputting header _ hstart (not_not.mp hconv))

/-- What holds of a control block whatever arrives. -/
theorem input_induction {motive : Ikcpcb → Prop}
    (hsegment : ∀ inputting header data, motive inputting.kcp →
      header.conv = inputting.kcp.conv → motive (inputSegment inputting header data).kcp)
    (hfastack : ∀ kcp sn, motive kcp → motive (parseFastack kcp sn))
    (hgrow : ∀ kcp prevUna, motive kcp → motive (growWindow kcp prevUna))
    (kcp : Ikcpcb) (data : List UInt8) (hstart : motive kcp) : motive (input kcp data).2 := by
  have hloop := inputLoop_induction hsegment ⟨kcp, false, 0⟩ data hstart
  simp only [input]
  split_ifs
  · exact hstart
  · exact hloop
  · exact hgrow _ _ (hfastack _ _ hloop)
  · exact hgrow _ _ hloop

@[simp] theorem fixed_input (kcp : Ikcpcb) (data : List UInt8) :
    (input kcp data).2.fixed = kcp.fixed := by
  refine input_induction (motive := fun next ↦ next.fixed = kcp.fixed) ?_ ?_ ?_ kcp data rfl
  · intro inputting header payload hfixed _
    rw [fixed_inputSegment, hfixed]
  · intro next sn hfixed
    rw [fixed_parseFastack, hfixed]
  · intro next prevUna hfixed
    rw [fixed_growWindow, hfixed]

/-! ### Datagrams that are sent -/

/-- What a segment carries, apart from the bookkeeping of its transmissions. -/
structure Content where
  conv : UInt32
  cmd : UInt32
  sn : UInt32
  frg : UInt32
  data : List UInt8

/-- What a segment carries. -/
def Ikcpseg.content (seg : Ikcpseg) : Content := ⟨seg.conv, seg.cmd, seg.sn, seg.frg, seg.data⟩

/-- A part of a message: the fragment number and the data. -/
def Ikcpseg.fragment (seg : Ikcpseg) : UInt32 × List UInt8 := (seg.frg, seg.data)

theorem content_fastackLoop (sn : UInt32) (segs : List Ikcpseg) :
    (fastackLoop sn segs).map Ikcpseg.content = segs.map Ikcpseg.content := by
  induction segs with
  | nil => rfl
  | cons seg rest ih =>
    rw [fastackLoop]
    split_ifs
    · rfl
    · rw [List.map_cons, List.map_cons, ih]
      rfl
    · rw [List.map_cons, List.map_cons, ih]

@[simp] theorem content_resend (segment : Ikcpseg) (kcp : Ikcpcb) (wnd : UInt32)
    (reason : Reason) : (segment.resend kcp wnd reason).content = segment.content := by
  cases reason <;> rfl

/-- What the loop that numbers segments does. The moved segments keep their fragments and get the
numbers from `snd_nxt` on, there was room in the window for each of them, and the loop stops with
the queue empty or the window full. -/
theorem numberLoop_spec (cwnd wnd : UInt32) (kcp : Ikcpcb) (segs : List Ikcpseg) :
    ∃ moved rest added, segs = moved ++ rest ∧
      added.map Ikcpseg.fragment = moved.map Ikcpseg.fragment ∧
      added.map Ikcpseg.sn = consecutive kcp.sndNxt moved.length ∧
      (∀ seg ∈ added, seg.conv = kcp.conv ∧ seg.cmd = cmdPush.toUInt32 ∧ seg.xmit = 0) ∧
      (∀ k < moved.length, diff (kcp.sndNxt + UInt32.ofNat k) (kcp.sndUna + cwnd) < 0) ∧
      (rest ≠ [] →
        0 ≤ diff (kcp.sndNxt + UInt32.ofNat moved.length) (kcp.sndUna + cwnd)) ∧
      numberLoop cwnd wnd kcp segs = { kcp with
        sndQueue := rest
        sndBuf := kcp.sndBuf ++ added
        nsndQue := kcp.nsndQue - UInt32.ofNat moved.length
        nsndBuf := kcp.nsndBuf + UInt32.ofNat moved.length
        sndNxt := kcp.sndNxt + UInt32.ofNat moved.length } := by
  induction segs generalizing kcp with
  | nil => exact ⟨[], [], [], rfl, rfl, rfl, by simp, by simp, by simp, by simp [numberLoop]⟩
  | cons seg rest ih =>
    rw [numberLoop]
    split
    · rename_i hroom
      obtain ⟨moved, left, added, rfl, hfragment, hnumbers, hnew, hwindow, hstop, heq⟩ :=
        ih { kcp with
          sndBuf := kcp.sndBuf ++ [seg.number kcp wnd]
          nsndQue := kcp.nsndQue - 1
          nsndBuf := kcp.nsndBuf + 1
          sndNxt := kcp.sndNxt + 1 }
      refine ⟨seg :: moved, left, seg.number kcp wnd :: added, rfl, ?_, ?_, ?_, ?_, ?_, ?_⟩
      · rw [List.map_cons, List.map_cons, hfragment]
        rfl
      · rw [List.map_cons, hnumbers, List.length_cons, consecutive]
        rfl
      · intro new hmem
        rcases List.mem_cons.mp hmem with rfl | hmem
        · exact ⟨rfl, rfl, rfl⟩
        · exact hnew new hmem
      · intro k hk
        cases k with
        | zero => simpa using hroom
        | succ k =>
          rw [← add_ofNat_succ]
          exact hwindow k (Nat.lt_of_succ_lt_succ hk)
      · intro hleft
        rw [List.length_cons, ← add_ofNat_succ]
        exact hstop hleft
      · rw [heq]
        simp only [List.length_cons, List.append_assoc, List.singleton_append, add_ofNat_succ,
          sub_ofNat_succ]
    · rename_i hroom
      refine ⟨[], seg :: rest, [], rfl, rfl, rfl, by simp, by simp, ?_, by simp⟩
      intro _
      simpa using hroom

/-- The probing of the window writes nothing else. -/
theorem probeWindow_spec (kcp : Ikcpcb) : ∃ wait ts probe,
    probeWindow kcp = { kcp with probeWait := wait, tsProbe := ts, probe := probe } := by
  refine ⟨(probeWindow kcp).probeWait, (probeWindow kcp).tsProbe, (probeWindow kcp).probe, ?_⟩
  simp only [probeWindow]
  split_ifs <;> rfl

theorem content_foldl_flushSegment (kcp : Ikcpcb) (wnd : UInt32) (segs : List Ikcpseg)
    (flushing : Flushing) :
    (segs.foldl (flushSegment kcp wnd) flushing).visited.map Ikcpseg.content =
      flushing.visited.map Ikcpseg.content ++ segs.map Ikcpseg.content := by
  induction segs generalizing flushing with
  | nil => exact (List.append_nil _).symm
  | cons seg rest ih =>
    rw [List.foldl_cons, ih, List.map_cons]
    unfold flushSegment
    split <;> simp

theorem content_flushData (kcp : Ikcpcb) (wnd : UInt32) (out : Output) :
    (flushData kcp wnd out).visited.map Ikcpseg.content = kcp.sndBuf.map Ikcpseg.content :=
  content_foldl_flushSegment kcp wnd kcp.sndBuf _

@[simp] theorem receiver_shrinkWindow (kcp : Ikcpcb) (cwnd : UInt32) (change lost : Bool) :
    (shrinkWindow kcp cwnd change lost).receiver = kcp.receiver := by
  unfold shrinkWindow
  dsimp only
  split_ifs <;> rfl

@[simp] theorem sender_shrinkWindow (kcp : Ikcpcb) (cwnd : UInt32) (change lost : Bool) :
    (shrinkWindow kcp cwnd change lost).sender = kcp.sender := by
  unfold shrinkWindow
  dsimp only
  split_ifs <;> rfl

@[simp] theorem fixed_shrinkWindow (kcp : Ikcpcb) (cwnd : UInt32) (change lost : Bool) :
    (shrinkWindow kcp cwnd change lost).fixed = kcp.fixed := by
  unfold shrinkWindow
  dsimp only
  split_ifs <;> rfl

/-- The segments that `ikcp_flush` numbers: `moved` leave `snd_queue`, `rest` stays, and `added`
enter `snd_buf`. -/
structure Numbered (kcp : Ikcpcb) (moved rest added : List Ikcpseg) : Prop where
  queue : kcp.sndQueue = moved ++ rest
  fragments : added.map Ikcpseg.fragment = moved.map Ikcpseg.fragment
  numbers : added.map Ikcpseg.sn = consecutive kcp.sndNxt moved.length
  segments : ∀ seg ∈ added, seg.conv = kcp.conv ∧ seg.cmd = cmdPush.toUInt32 ∧ seg.xmit = 0
  room : ∀ k < moved.length,
    diff (kcp.sndNxt + UInt32.ofNat k) (kcp.sndUna + flushWindow kcp) < 0
  full : rest ≠ [] →
    0 ≤ diff (kcp.sndNxt + UInt32.ofNat moved.length) (kcp.sndUna + flushWindow kcp)

theorem flushHead_spec (kcp : Ikcpcb) : ∃ moved rest added, Numbered kcp moved rest added ∧
    ∃ wait ts, (flushHead kcp).1 = { kcp with
      acklist := []
      probeWait := wait
      tsProbe := ts
      probe := 0
      sndQueue := rest
      sndBuf := kcp.sndBuf ++ added
      nsndQue := kcp.nsndQue - UInt32.ofNat moved.length
      nsndBuf := kcp.nsndBuf + UInt32.ofNat moved.length
      sndNxt := kcp.sndNxt + UInt32.ofNat moved.length } := by
  obtain ⟨wait, ts, probe, hprobe⟩ := probeWindow_spec { kcp with acklist := [] }
  simp only [flushHead, hprobe]
  set wnd := (flushAcks kcp.mtu kcp.acklist (flushSeg kcp) ⟨[], []⟩).1.wnd
  set start : Ikcpcb := { kcp with acklist := [], probeWait := wait, tsProbe := ts, probe := 0 }
  obtain ⟨moved, rest, added, hqueue, hfragments, hnumbers, hsegments, hroom, hfull, heq⟩ :=
    numberLoop_spec (flushWindow start) wnd start kcp.sndQueue
  exact ⟨moved, rest, added, ⟨hqueue, hfragments, hnumbers, hsegments, hroom, hfull⟩, wait, ts, heq⟩

/-- What `ikcp_flush` does to a control block, once `ikcp_update` has been called. -/
theorem flush_spec {kcp : Ikcpcb} (hupdated : kcp.updated ≠ 0) :
    ∃ moved rest added, Numbered kcp moved rest added ∧
      (flush kcp).2.fixed = kcp.fixed ∧
      (flush kcp).2.receiver = { kcp.receiver with acklist := [] } ∧
      (flush kcp).2.sender = { kcp.sender with
        sndQueue := rest
        sndBuf := (flush kcp).2.sndBuf
        nsndQue := kcp.nsndQue - UInt32.ofNat moved.length
        nsndBuf := kcp.nsndBuf + UInt32.ofNat moved.length
        sndNxt := kcp.sndNxt + UInt32.ofNat moved.length } ∧
      (flush kcp).2.sndBuf.map Ikcpseg.content =
        (kcp.sndBuf ++ added).map Ikcpseg.content := by
  obtain ⟨moved, rest, added, hnumbered, wait, ts, heq⟩ := flushHead_spec kcp
  have hflush : (flush kcp).2 = shrinkWindow { (flushHead kcp).1 with
      sndBuf := (flushData (flushHead kcp).1 (flushHead kcp).2.2 (flushHead kcp).2.1).visited
      xmit := (flushData (flushHead kcp).1 (flushHead kcp).2.2 (flushHead kcp).2.1).xmit
      state := (flushData (flushHead kcp).1 (flushHead kcp).2.2 (flushHead kcp).2.1).state }
      (flushWindow kcp)
      (flushData (flushHead kcp).1 (flushHead kcp).2.2 (flushHead kcp).2.1).change
      (flushData (flushHead kcp).1 (flushHead kcp).2.2 (flushHead kcp).2.1).lost := by
    rw [flush, if_neg hupdated]
  have hbuf : (flush kcp).2.sndBuf =
      (flushData (flushHead kcp).1 (flushHead kcp).2.2 (flushHead kcp).2.1).visited := by
    rw [hflush]
    exact congrArg Sender.sndBuf (sender_shrinkWindow _ _ _ _)
  refine ⟨moved, rest, added, hnumbered, ?_, ?_, ?_, ?_⟩
  · rw [hflush, fixed_shrinkWindow, heq]
    rfl
  · rw [hflush, receiver_shrinkWindow, heq]
    rfl
  · rw [hbuf, hflush, sender_shrinkWindow, heq]
    rfl
  · rw [hbuf, content_flushData, heq]

/-- A control block with other times. -/
def Ikcpcb.clocked (kcp : Ikcpcb) (current updated tsFlush : UInt32) : Ikcpcb :=
  { kcp with current := current, updated := updated, tsFlush := tsFlush }

/-- `ikcp_update` notes the time and may flush. -/
theorem update_spec (kcp : Ikcpcb) (current : UInt32) : ∃ updated tsFlush, updated ≠ 0 ∧
    (update kcp current = ([], kcp.clocked current updated tsFlush) ∨
      update kcp current = flush (kcp.clocked current updated tsFlush)) := by
  have hupdated : (noteTime kcp current).updated ≠ 0 := by
    simp only [noteTime]
    split
    · decide
    · assumption
  simp only [update]
  split_ifs
  all_goals first
    | exact ⟨_, _, hupdated, Or.inr rfl⟩
    | exact ⟨_, _, hupdated, Or.inl rfl⟩

@[simp] theorem fixed_flush (kcp : Ikcpcb) : (flush kcp).2.fixed = kcp.fixed := by
  by_cases hupdated : kcp.updated = 0
  · rw [flush, if_pos hupdated]
  · obtain ⟨moved, rest, added, -, hfixed, -⟩ := flush_spec hupdated
    exact hfixed

@[simp] theorem fixed_update (kcp : Ikcpcb) (current : UInt32) :
    (update kcp current).2.fixed = kcp.fixed := by
  obtain ⟨updated, tsFlush, -, hupdate | hupdate⟩ := update_spec kcp current
  · rw [hupdate]
    rfl
  · rw [hupdate, fixed_flush]
    rfl

/-! ### Messages -/

theorem mergeLoop_append (segs : List Ikcpseg) :
    (mergeLoop segs).1 ++ (mergeLoop segs).2 = segs := by
  induction segs with
  | nil => rfl
  | cons seg rest ih =>
    rw [mergeLoop]
    split
    · rfl
    · rw [List.cons_append, ih]

/-- `ikcp_recv` fails and leaves the control block as it is, or hands over the segments up to the
first one with the fragment number 0, and moves data. -/
theorem recv_spec (kcp : Ikcpcb) (len : ℤ) :
    (∃ code < 0, recv kcp len = (code, [], kcp)) ∨
      ∃ probe, recv kcp len =
        (((dataOf (mergeLoop kcp.rcvQueue).1).length : ℤ), dataOf (mergeLoop kcp.rcvQueue).1,
          { moveAvailable (takeFragments kcp len) with probe := probe }) ∧
        kcp.rcvQueue ≠ [] ∧ 0 ≤ peeksize kcp ∧ peeksize kcp ≤ len.natAbs := by
  unfold recv
  by_cases hempty : kcp.rcvQueue = []
  · exact Or.inl ⟨-1, by decide, if_pos hempty⟩
  by_cases hsize : peeksize kcp < 0
  · exact Or.inl ⟨-2, by decide, by rw [if_neg hempty, if_pos hsize]⟩
  by_cases hlen : len.natAbs < peeksize kcp
  · exact Or.inl ⟨-3, by decide, by rw [if_neg hempty, if_neg hsize, if_pos hlen]⟩
  refine Or.inr ?_
  rw [if_neg hempty, if_neg hsize, if_neg hlen]
  dsimp only
  split_ifs
  all_goals exact ⟨_, rfl, hempty, not_lt.mp hsize, not_lt.mp hlen⟩

@[simp] theorem sender_recv (kcp : Ikcpcb) (len : ℤ) :
    (recv kcp len).2.2.sender = kcp.sender := by
  rcases recv_spec kcp len with ⟨code, -, hrecv⟩ | ⟨probe, hrecv, -⟩
  · rw [hrecv]
  · have hsender : (moveAvailable (takeFragments kcp len)).sender = kcp.sender := by
      rw [moveAvailable, sender_moveLoop, takeFragments]
      split <;> rfl
    rw [hrecv]
    exact hsender

@[simp] theorem fixed_recv (kcp : Ikcpcb) (len : ℤ) :
    (recv kcp len).2.2.fixed = kcp.fixed := by
  rcases recv_spec kcp len with ⟨code, -, hrecv⟩ | ⟨probe, hrecv, -⟩
  · rw [hrecv]
  · have hfixed : (moveAvailable (takeFragments kcp len)).fixed = kcp.fixed := by
      rw [moveAvailable, fixed_moveLoop, takeFragments]
      split <;> rfl
    rw [hrecv]
    exact hfixed

theorem length_fragmentLoop (mss : ℕ) (stream : Int32) (left : ℕ) (buffer : List UInt8) :
    (fragmentLoop mss stream left buffer).length = left := by
  induction left generalizing buffer with
  | zero => rfl
  | succ left ih => rw [fragmentLoop, List.length_cons, ih]

theorem fragmentCount_pos {mss len : ℕ} (hmss : 0 < mss) : 0 < fragmentCount mss len := by
  unfold fragmentCount
  split
  · exact Nat.one_pos
  · exact Nat.div_pos (by omega) hmss

/-- `ikcp_send` only writes `snd_queue` and counts it. -/
theorem send_spec (kcp : Ikcpcb) (buffer : List UInt8) :
    (send kcp buffer).2 = { kcp with
      sndQueue := (send kcp buffer).2.sndQueue
      nsndQue := (send kcp buffer).2.nsndQue } := by
  simp only [send, sendRest]
  split_ifs <;> rfl

end TestLinux.Ikcp
