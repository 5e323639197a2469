import TestLinux.Ikcp.Node

/-!
# Sending under whatever arrives

The invariant of the sending part of a control block, over all runs and whatever the datagrams
contain. `snd_nxt` counts the fragments that have been numbered, `snd_buf` is strictly
ascending from `snd_una` on and below `snd_nxt`, and its segments carry the fragments that were
given these numbers; at most 65535 numbers are in flight, since the window of the other side has 16
bits; the counters are the lengths of the queues. A datagram can delete segments of `snd_buf` and
does nothing else to the data.
-/

set_option autoImplicit false
set_option relaxedAutoImplicit false

namespace TestLinux.Ikcp

open TestLinux.Serial

/-- The sending part is in order, for a conversation and the fragments that have been numbered. -/
structure Sender.Valid (conv : UInt32) (numbered : List (UInt32 × List UInt8)) (sender : Sender) :
    Prop where
  next : sender.sndNxt = UInt32.ofNat numbered.length
  una : sender.sndUna = (sender.sndBuf.map Ikcpseg.sn).headD sender.sndNxt
  inflight : offset sender.sndUna sender.sndNxt ≤ 65535
  inflight_le : offset sender.sndUna sender.sndNxt ≤ numbered.length
  remote : sender.rmtWnd.toNat ≤ 65535
  queue : sender.nsndQue = UInt32.ofNat sender.sndQueue.length
  buf : sender.nsndBuf = UInt32.ofNat sender.sndBuf.length
  ascending : Ascending sender.sndUna (offset sender.sndUna sender.sndNxt)
    (sender.sndBuf.map Ikcpseg.sn)
  content : ∀ seg ∈ sender.sndBuf, seg.conv = conv ∧ seg.cmd = cmdPush.toUInt32 ∧
    numbered[numbered.length - offset seg.sn sender.sndNxt]? = some seg.fragment

variable {conv : UInt32} {numbered : List (UInt32 × List UInt8)} {kcp : Ikcpcb}

/-! ### Deleting segments -/

/-- What `ikcp_parse_ack` leaves: only the segment with the number can be gone. -/
theorem ackLoop_spec (sn : UInt32) (segs : List Ikcpseg) :
    (ackLoop sn segs).1.Sublist segs ∧
      UInt32.ofNat segs.length - (ackLoop sn segs).2 = UInt32.ofNat (ackLoop sn segs).1.length ∧
      ∀ seg ∈ segs, seg ∈ (ackLoop sn segs).1 ∨ seg.sn = sn := by
  induction segs with
  | nil => exact ⟨List.Sublist.refl _, by simp [ackLoop], by simp⟩
  | cons seg rest ih =>
    rw [ackLoop]
    split_ifs with hsame hless
    · refine ⟨List.sublist_cons_self seg rest, ?_, ?_⟩
      · rw [List.length_cons, UInt32.ofNat_add]
        exact UInt32.add_sub_cancel _ _
      · intro other hother
        rcases List.mem_cons.mp hother with rfl | hother
        · exact Or.inr hsame.symm
        · exact Or.inl hother
    · exact ⟨List.Sublist.refl _, UInt32.sub_zero _, fun other hother ↦ Or.inl hother⟩
    · obtain ⟨hsublist, hcount, hmem⟩ := ih
      refine ⟨hsublist.cons_cons seg, ?_, ?_⟩
      · rw [List.length_cons, List.length_cons, UInt32.ofNat_add, UInt32.ofNat_add, ← hcount]
        grind
      · intro other hother
        rcases List.mem_cons.mp hother with rfl | hother
        · exact Or.inl List.mem_cons_self
        · exact (hmem other hother).imp_left (List.mem_cons_of_mem seg)

/-- What `ikcp_parse_una` leaves: only segments before `una` can be gone. -/
theorem unaLoop_spec (una : UInt32) (segs : List Ikcpseg) :
    (unaLoop una segs).1.Sublist segs ∧
      UInt32.ofNat segs.length - (unaLoop una segs).2 =
        UInt32.ofNat (unaLoop una segs).1.length ∧
      ∀ seg ∈ segs, seg ∈ (unaLoop una segs).1 ∨ 0 < diff una seg.sn := by
  induction segs with
  | nil => exact ⟨List.Sublist.refl _, by simp [unaLoop], by simp⟩
  | cons seg rest ih =>
    rw [unaLoop]
    split_ifs with hbefore
    · obtain ⟨hsublist, hcount, hmem⟩ := ih
      refine ⟨hsublist.cons seg, ?_, ?_⟩
      · rw [List.length_cons, UInt32.ofNat_add, ← hcount]
        change UInt32.ofNat rest.length + 1 - ((unaLoop una rest).2 + 1) = _
        grind
      · intro other hother
        rcases List.mem_cons.mp hother with rfl | hother
        · exact Or.inr hbefore
        · exact hmem other hother
    · exact ⟨List.Sublist.refl _, UInt32.sub_zero _, fun other hother ↦ Or.inl hother⟩

/-- `snd_una` follows what is left of `snd_buf`. -/
theorem Sender.Valid.shrink {sender : Sender} (hvalid : sender.Valid conv numbered)
    {segs : List Ikcpseg} (hsegs : segs.Sublist sender.sndBuf) {window : UInt32}
    (hwindow : window.toNat ≤ 65535) :
    Valid conv numbered { sender with
      sndUna := (segs.map Ikcpseg.sn).headD sender.sndNxt
      nsndBuf := UInt32.ofNat segs.length
      rmtWnd := window
      sndBuf := segs } := by
  obtain ⟨hascending, hle⟩ := (hvalid.ascending.sublist (hsegs.map Ikcpseg.sn)).rebase
  exact ⟨hvalid.next, rfl, Nat.le_trans hle hvalid.inflight, Nat.le_trans hle hvalid.inflight_le,
    hwindow, hvalid.queue, rfl, hascending, fun seg hseg ↦ hvalid.content seg (hsegs.subset hseg)⟩

/-- The bookkeeping of transmissions plays no role. -/
theorem Sender.Valid.of_content {sender : Sender} (hvalid : sender.Valid conv numbered)
    {segs : List Ikcpseg}
    (hsegs : segs.map Ikcpseg.content = sender.sndBuf.map Ikcpseg.content) :
    Valid conv numbered { sender with sndBuf := segs } := by
  have hsn : segs.map Ikcpseg.sn = sender.sndBuf.map Ikcpseg.sn := by
    have hmap := congrArg (List.map Content.sn) hsegs
    rw [List.map_map, List.map_map] at hmap
    exact hmap
  have hlength : segs.length = sender.sndBuf.length := by
    simpa only [List.length_map] using congrArg List.length hsegs
  refine ⟨hvalid.next, ?_, hvalid.inflight, hvalid.inflight_le, hvalid.remote, hvalid.queue, ?_,
    ?_, ?_⟩
  · change sender.sndUna = (segs.map Ikcpseg.sn).headD sender.sndNxt
    rw [hsn]
    exact hvalid.una
  · change sender.nsndBuf = UInt32.ofNat segs.length
    rw [hlength]
    exact hvalid.buf
  · change Ascending sender.sndUna (offset sender.sndUna sender.sndNxt) (segs.map Ikcpseg.sn)
    rw [hsn]
    exact hvalid.ascending
  · intro seg hseg
    have hmem : seg.content ∈ sender.sndBuf.map Ikcpseg.content := by
      rw [← hsegs]
      exact List.mem_map_of_mem hseg
    obtain ⟨old, hold, heq⟩ := List.mem_map.mp hmem
    obtain ⟨hconv, hcmd, hfragment⟩ := hvalid.content old hold
    simp only [Ikcpseg.content, Content.mk.injEq] at heq
    obtain ⟨hconv', hcmd', hsn', hfrg', hdata'⟩ := heq
    refine ⟨hconv' ▸ hconv, hcmd' ▸ hcmd, ?_⟩
    rw [← hsn', hfragment, Ikcpseg.fragment, Ikcpseg.fragment, hfrg', hdata']

theorem sender_shrinkBuf (kcp : Ikcpcb) : (shrinkBuf kcp).sender =
    { kcp.sender with sndUna := (kcp.sndBuf.map Ikcpseg.sn).headD kcp.sndNxt } := by
  unfold shrinkBuf
  split <;> rename_i hbuf <;> rw [hbuf] <;> simp [Ikcpcb.sender, hbuf]

theorem Sender.Valid.inputCommon (hvalid : kcp.sender.Valid conv numbered) (header : Header) :
    (inputCommon kcp header).sender.Valid conv numbered := by
  obtain ⟨hsublist, hcount, -⟩ := unaLoop_spec header.una kcp.sndBuf
  have hbuf : kcp.nsndBuf = UInt32.ofNat kcp.sndBuf.length := hvalid.buf
  have hwindow : header.wnd.toUInt32.toNat ≤ 65535 := by
    rw [UInt16.toNat_toUInt32]
    exact Nat.le_of_lt_succ header.wnd.toNat_lt
  have hshrink := hvalid.shrink hsublist hwindow
  rw [← hcount, ← hbuf] at hshrink
  rw [Ikcp.inputCommon, sender_shrinkBuf]
  exact hshrink

theorem Sender.Valid.parseAck (hvalid : kcp.sender.Valid conv numbered) (sn : UInt32) :
    (shrinkBuf (parseAck kcp sn)).sender.Valid conv numbered := by
  have hbuf : kcp.nsndBuf = UInt32.ofNat kcp.sndBuf.length := hvalid.buf
  rw [sender_shrinkBuf]
  unfold Ikcp.parseAck
  split
  · have hshrink := hvalid.shrink (List.Sublist.refl kcp.sndBuf) hvalid.remote
    rw [← hbuf] at hshrink
    exact hshrink
  · obtain ⟨hsublist, hcount, -⟩ := ackLoop_spec sn kcp.sndBuf
    have hshrink := hvalid.shrink hsublist hvalid.remote
    rw [← hcount, ← hbuf] at hshrink
    exact hshrink

theorem Sender.Valid.inputSegment {inputting : Inputting}
    (hvalid : inputting.kcp.sender.Valid conv numbered) (header : Header) (data : List UInt8) :
    (inputSegment inputting header data).kcp.sender.Valid conv numbered := by
  have hcommon := hvalid.inputCommon header
  simp only [Ikcp.inputSegment]
  split_ifs
  · simp only [inputAck]
    refine Sender.Valid.parseAck ?_ header.sn
    split
    · rwa [sender_updateAck]
    · exact hcommon
  · rwa [sender_inputPush]
  · exact hcommon
  · exact hcommon

theorem Sender.Valid.input (hvalid : kcp.sender.Valid conv numbered) (data : List UInt8) :
    (input kcp data).2.sender.Valid conv numbered := by
  refine input_induction (motive := fun next ↦ next.sender.Valid conv numbered) ?_ ?_ ?_ kcp data
    hvalid
  · intro inputting header payload hnext _
    exact hnext.inputSegment header payload
  · intro next sn hnext
    unfold parseFastack
    split
    · exact hnext
    · exact hnext.of_content (content_fastackLoop sn next.sndBuf)
  · intro next prevUna hnext
    rwa [sender_growWindow]

/-- What waits in `snd_queue`, and the next number. -/
def Ikcpcb.waiting (kcp : Ikcpcb) : List Ikcpseg × UInt32 := (kcp.sndQueue, kcp.sndNxt)

theorem waiting_shrinkBuf (kcp : Ikcpcb) : (shrinkBuf kcp).waiting = kcp.waiting := by
  have hsender := sender_shrinkBuf kcp
  have hqueue : (shrinkBuf kcp).sndQueue = kcp.sndQueue := congrArg Sender.sndQueue hsender
  have hnext : (shrinkBuf kcp).sndNxt = kcp.sndNxt := congrArg Sender.sndNxt hsender
  rw [Ikcpcb.waiting, hqueue, hnext]
  rfl

theorem waiting_parseAck (kcp : Ikcpcb) (sn : UInt32) :
    (parseAck kcp sn).waiting = kcp.waiting := by
  unfold parseAck
  split <;> rfl

theorem waiting_of_sender {kcp next : Ikcpcb} (hsender : next.sender = kcp.sender) :
    next.waiting = kcp.waiting := by
  have hqueue : next.sndQueue = kcp.sndQueue := congrArg Sender.sndQueue hsender
  have hnext : next.sndNxt = kcp.sndNxt := congrArg Sender.sndNxt hsender
  rw [Ikcpcb.waiting, hqueue, hnext]
  rfl

theorem waiting_inputSegment (inputting : Inputting) (header : Header) (data : List UInt8) :
    (inputSegment inputting header data).kcp.waiting = inputting.kcp.waiting := by
  have hcommon : (inputCommon inputting.kcp header).waiting = inputting.kcp.waiting :=
    waiting_shrinkBuf _
  simp only [inputSegment]
  split_ifs
  · simp only [inputAck]
    rw [waiting_shrinkBuf, waiting_parseAck]
    split
    · exact hcommon
    · exact hcommon
  · rw [waiting_of_sender (sender_inputPush _ header data)]
    exact hcommon
  · exact hcommon
  · exact hcommon

/-- Whatever arrives, nothing is added to `snd_queue` or taken from it. -/
theorem waiting_input (kcp : Ikcpcb) (data : List UInt8) :
    (input kcp data).2.waiting = kcp.waiting := by
  refine input_induction (motive := fun next ↦ next.waiting = kcp.waiting) ?_ ?_ ?_ kcp data rfl
  · intro inputting header payload hwaiting _
    rw [waiting_inputSegment, hwaiting]
  · intro next sn hwaiting
    unfold parseFastack
    split <;> exact hwaiting
  · intro next prevUna hwaiting
    rw [waiting_of_sender (sender_growWindow next prevUna), hwaiting]

/-! ### Numbering segments -/

theorem imin_le_right (first second : UInt32) : (imin first second).toNat ≤ second.toNat := by
  unfold imin
  split
  · rename_i hle
    exact UInt32.le_iff_toNat_le.mp hle
  · exact Nat.le_refl _

theorem flushWindow_le (kcp : Ikcpcb) : (flushWindow kcp).toNat ≤ kcp.rmtWnd.toNat := by
  simp only [flushWindow]
  split
  · exact Nat.le_trans (imin_le_right _ _) (imin_le_right _ _)
  · exact imin_le_right _ _

/-- Numbering stops when the window is full. -/
theorem Sender.Valid.inflight_numbered (hvalid : kcp.sender.Valid conv numbered)
    {moved rest added : List Ikcpseg} (hnumbered : Numbered kcp moved rest added) {count : ℕ}
    (hcount : count ≤ moved.length) : offset kcp.sndUna kcp.sndNxt + count ≤ 65535 := by
  have hwindow : (flushWindow kcp).toNat ≤ 65535 :=
    Nat.le_trans (flushWindow_le kcp) hvalid.remote
  induction count with
  | zero => exact hvalid.inflight
  | succ count ih =>
    have hle := ih (Nat.le_of_succ_le hcount)
    have hroom := hnumbered.room count hcount
    have hoffset := @offset_add_right kcp.sndUna kcp.sndNxt count (by omega)
    rw [@diff_eq_sub kcp.sndUna _ _ (by omega) (by rw [offset_add]; omega), hoffset, offset_add]
      at hroom
    omega

/-- The segments that are in `snd_buf` already keep their fragments. -/
theorem Sender.Valid.content_old (hvalid : kcp.sender.Valid conv numbered)
    {moved rest added : List Ikcpseg} (hnumbered : Numbered kcp moved rest added)
    {seg : Ikcpseg} (hseg : seg ∈ kcp.sndBuf) :
    seg.conv = conv ∧ seg.cmd = cmdPush.toUInt32 ∧
      (numbered ++ moved.map Ikcpseg.fragment)[(numbered ++ moved.map Ikcpseg.fragment).length -
        offset seg.sn (kcp.sndNxt + UInt32.ofNat moved.length)]? = some seg.fragment := by
  obtain ⟨hconv, hcmd, hfragment⟩ := hvalid.content seg hseg
  have hinflight := hvalid.inflight_numbered hnumbered (Nat.le_refl moved.length)
  have hbelow : offset kcp.sndUna seg.sn < offset kcp.sndUna kcp.sndNxt :=
    hvalid.ascending.below seg.sn (List.mem_map_of_mem hseg)
  have hsub := offset_sub (Nat.le_of_lt hbelow)
  have hoffset := @offset_add_right seg.sn kcp.sndNxt moved.length (by omega)
  refine ⟨hconv, hcmd, ?_⟩
  have hindex : (numbered ++ moved.map Ikcpseg.fragment).length -
      offset seg.sn (kcp.sndNxt + UInt32.ofNat moved.length) =
        numbered.length - offset seg.sn kcp.sndNxt := by
    rw [hoffset, List.length_append, List.length_map]
    omega
  change numbered[numbered.length - offset seg.sn kcp.sndNxt]? = some seg.fragment at hfragment
  obtain ⟨hlt, -⟩ := List.getElem?_eq_some_iff.mp hfragment
  rw [hindex, List.getElem?_append_left hlt]
  exact hfragment

/-- The segments that are numbered carry the fragments of `snd_queue`. -/
theorem Sender.Valid.content_new (hvalid : kcp.sender.Valid conv numbered)
    {moved rest added : List Ikcpseg} (hnumbered : Numbered kcp moved rest added)
    {seg : Ikcpseg} (hseg : seg ∈ added) :
    seg.conv = kcp.conv ∧ seg.cmd = cmdPush.toUInt32 ∧
      (numbered ++ moved.map Ikcpseg.fragment)[(numbered ++ moved.map Ikcpseg.fragment).length -
        offset seg.sn (kcp.sndNxt + UInt32.ofNat moved.length)]? = some seg.fragment := by
  obtain ⟨hconv, hcmd, -⟩ := hnumbered.segments seg hseg
  refine ⟨hconv, hcmd, ?_⟩
  have hinflight := hvalid.inflight_numbered hnumbered (Nat.le_refl moved.length)
  have hlength : added.length = moved.length := by
    simpa using congrArg List.length hnumbered.fragments
  obtain ⟨k, hk⟩ := List.mem_iff_getElem?.mp hseg
  obtain ⟨hlt, -⟩ := List.getElem?_eq_some_iff.mp hk
  have hsn : some seg.sn = some (kcp.sndNxt + UInt32.ofNat k) := by
    rw [← getElem?_consecutive kcp.sndNxt (hlength ▸ hlt), ← hnumbered.numbers, List.getElem?_map,
      hk, Option.map_some]
  have hfragment : (moved.map Ikcpseg.fragment)[k]? = some seg.fragment := by
    rw [← hnumbered.fragments, List.getElem?_map, hk, Option.map_some]
  have hahead := @offset_add_right kcp.sndNxt kcp.sndNxt k (by rw [offset_self]; omega)
  have hend := @offset_add_right kcp.sndNxt kcp.sndNxt moved.length (by rw [offset_self]; omega)
  rw [offset_self] at hahead hend
  have hdistance : offset seg.sn (kcp.sndNxt + UInt32.ofNat moved.length) = moved.length - k := by
    rw [Option.some.inj hsn, @offset_sub kcp.sndNxt _ _ (by omega), hahead, hend]
    omega
  rw [hdistance, List.length_append, List.length_map,
    List.getElem?_append_right (by omega)]
  rw [← hfragment]
  congr 1
  omega

theorem Sender.Valid.flush (hvalid : kcp.sender.Valid kcp.conv numbered)
    {moved rest added : List Ikcpseg} (hnumbered : Numbered kcp moved rest added) :
    Valid kcp.conv (numbered ++ moved.map Ikcpseg.fragment) { kcp.sender with
      sndQueue := rest
      sndBuf := kcp.sndBuf ++ added
      nsndQue := kcp.nsndQue - UInt32.ofNat moved.length
      nsndBuf := kcp.nsndBuf + UInt32.ofNat moved.length
      sndNxt := kcp.sndNxt + UInt32.ofNat moved.length } := by
  have hinflight := hvalid.inflight_numbered hnumbered (Nat.le_refl moved.length)
  have hoffset := @offset_add_right kcp.sndUna kcp.sndNxt moved.length (by omega)
  have hnext : kcp.sndNxt = UInt32.ofNat numbered.length := hvalid.next
  have hlength : added.length = moved.length := by
    simpa using congrArg List.length hnumbered.fragments
  have hqueue : kcp.nsndQue = UInt32.ofNat kcp.sndQueue.length := hvalid.queue
  have hbuf : kcp.nsndBuf = UInt32.ofNat kcp.sndBuf.length := hvalid.buf
  have hle : offset kcp.sndUna kcp.sndNxt ≤ numbered.length := hvalid.inflight_le
  have hascending : Ascending kcp.sndUna (offset kcp.sndUna kcp.sndNxt)
    (kcp.sndBuf.map Ikcpseg.sn) := hvalid.ascending
  refine ⟨?_, ?_, ?_, ?_, hvalid.remote, ?_, ?_, ?_, ?_⟩
  · change kcp.sndNxt + UInt32.ofNat moved.length = UInt32.ofNat (numbered ++ _).length
    rw [List.length_append, List.length_map, UInt32.ofNat_add, hnext]
  · change kcp.sndUna = ((kcp.sndBuf ++ added).map Ikcpseg.sn).headD
      (kcp.sndNxt + UInt32.ofNat moved.length)
    rw [List.map_append, hnumbered.numbers]
    have huna : kcp.sndUna = (kcp.sndBuf.map Ikcpseg.sn).headD kcp.sndNxt := hvalid.una
    cases hsegs : kcp.sndBuf with
    | nil =>
      rw [hsegs] at huna
      cases moved with
      | nil => simpa [consecutive] using huna
      | cons first later => exact huna
    | cons first later =>
      rw [hsegs] at huna
      exact huna
  · change offset kcp.sndUna (kcp.sndNxt + UInt32.ofNat moved.length) ≤ 65535
    omega
  · change offset kcp.sndUna (kcp.sndNxt + UInt32.ofNat moved.length) ≤ (numbered ++ _).length
    rw [hoffset, List.length_append, List.length_map]
    omega
  · change kcp.nsndQue - UInt32.ofNat moved.length = UInt32.ofNat rest.length
    rw [hqueue, hnumbered.queue, List.length_append, UInt32.ofNat_add]
    grind
  · change kcp.nsndBuf + UInt32.ofNat moved.length = UInt32.ofNat (kcp.sndBuf ++ added).length
    rw [List.length_append, hlength, UInt32.ofNat_add, hbuf]
  · change Ascending kcp.sndUna (offset kcp.sndUna (kcp.sndNxt + UInt32.ofNat moved.length))
      ((kcp.sndBuf ++ added).map Ikcpseg.sn)
    rw [hoffset, List.map_append, hnumbered.numbers]
    exact hascending.append (by omega)
  · intro seg hseg
    change seg ∈ kcp.sndBuf ++ added at hseg
    rcases List.mem_append.mp hseg with hseg | hseg
    · exact hvalid.content_old hnumbered hseg
    · exact hvalid.content_new hnumbered hseg

/-! ### Runs -/

theorem length_appendLast (mss : ℕ) (queue : List Ikcpseg) (buffer : List UInt8) :
    (appendLast mss queue buffer).length = queue.length := by
  unfold appendLast
  split
  · rfl
  · rename_i old hold
    split
    · have hne : queue ≠ [] := by
        rintro rfl
        cases hold
      rw [List.length_append, List.length_dropLast, List.length_singleton,
        Nat.sub_add_cancel (List.length_pos_iff.mpr hne)]
    · rfl

/-- The segments that `ikcp_send` makes are counted. -/
theorem count_sendRest (kcp : Ikcpcb) (buffer : List UInt8)
    (hcount : kcp.nsndQue = UInt32.ofNat kcp.sndQueue.length) :
    (sendRest kcp buffer).2.nsndQue = UInt32.ofNat (sendRest kcp buffer).2.sndQueue.length := by
  simp only [sendRest]
  split
  · exact hcount
  · simp only [List.length_append, length_fragmentLoop, UInt32.ofNat_add, hcount]

theorem count_send (kcp : Ikcpcb) (buffer : List UInt8)
    (hcount : kcp.nsndQue = UInt32.ofNat kcp.sndQueue.length) :
    (send kcp buffer).2.nsndQue = UInt32.ofNat (send kcp buffer).2.sndQueue.length := by
  have happend : kcp.nsndQue =
      UInt32.ofNat (appendLast kcp.mss.toNat kcp.sndQueue buffer).length := by
    rw [length_appendLast, hcount]
  simp only [send]
  split_ifs
  · exact hcount
  · exact happend
  · exact count_sendRest _ _ happend
  · exact count_sendRest kcp buffer hcount

/-- The sending part of a control block and its history are in order. -/
def Node.Sends (node : Node) : Prop := node.kcp.sender.Valid node.kcp.conv node.numbered

theorem Node.Sends.flushed {node : Node} (hsends : node.Sends)
    {result : List (List UInt8) × Ikcpcb} {ready : Ikcpcb} (hupdated : ready.updated ≠ 0)
    (hsender : ready.sender = node.kcp.sender) (hfixed : ready.fixed = node.kcp.fixed)
    (hresult : result = Ikcp.flush ready) : (node.flushed result).Sends := by
  subst hresult
  obtain ⟨moved, rest, added, hnumbered, hfixed', -, hsender', hbuf⟩ := flush_spec hupdated
  have hconv : ready.conv = node.kcp.conv := congrArg Fixed.conv hfixed
  have hconv' : (Ikcp.flush ready).2.conv = node.kcp.conv :=
    (congrArg Fixed.conv hfixed').trans hconv
  have hqueue : node.kcp.sndQueue = moved ++ rest := by
    rw [← hnumbered.queue]
    exact (congrArg Sender.sndQueue hsender).symm
  have hqueue' : (Ikcp.flush ready).2.sndQueue = rest := congrArg Sender.sndQueue hsender'
  have hvalid : ready.sender.Valid ready.conv node.numbered := by
    rw [hsender, hconv]
    exact hsends
  have hmoved : node.kcp.sndQueue.take
      (node.kcp.sndQueue.length - (Ikcp.flush ready).2.sndQueue.length) = moved := by
    rw [hqueue, hqueue', List.length_append, Nat.add_sub_cancel, List.take_left]
  have hflush := (hvalid.flush hnumbered).of_content hbuf
  unfold Node.Sends Node.flushed
  rw [hmoved, hconv', ← hconv, hsender']
  exact hflush

/-- Nothing is numbered while the queue stays as it is. -/
theorem Node.Sends.idle {node : Node} (hsends : node.Sends) {ready : Ikcpcb}
    (hsender : ready.sender = node.kcp.sender) (hfixed : ready.fixed = node.kcp.fixed) :
    (node.flushed ([], ready)).Sends := by
  have hqueue : ready.sndQueue = node.kcp.sndQueue := congrArg Sender.sndQueue hsender
  have hconv : ready.conv = node.kcp.conv := congrArg Fixed.conv hfixed
  unfold Node.Sends Node.flushed
  simp only [hqueue, hconv, hsender, Nat.sub_self, List.take_zero, List.map_nil, List.append_nil]
  exact hsends

theorem Node.Sends.flush {node : Node} (hsends : node.Sends) : (node.call .flush).Sends := by
  change (node.flushed (Ikcp.flush node.kcp)).Sends
  by_cases hupdated : node.kcp.updated = 0
  · rw [Ikcp.flush, if_pos hupdated]
    exact hsends.idle rfl rfl
  · exact hsends.flushed hupdated rfl rfl rfl

theorem Node.Sends.update {node : Node} (hsends : node.Sends) (current : UInt32) :
    (node.call (.update current)).Sends := by
  change (node.flushed (Ikcp.update node.kcp current)).Sends
  obtain ⟨updated, tsFlush, hupdated, hupdate | hupdate⟩ := update_spec node.kcp current
  · rw [hupdate]
    exact hsends.idle rfl rfl
  · have hready : (node.kcp.clocked current updated tsFlush).updated ≠ 0 := hupdated
    exact hsends.flushed hready rfl rfl hupdate

theorem Node.Sends.call {node : Node} (hsends : node.Sends) (call : Call) :
    (node.call call).Sends := by
  cases call with
  | send buffer =>
    have hcount := count_send node.kcp buffer hsends.queue
    change (send node.kcp buffer).2.sender.Valid (send node.kcp buffer).2.conv node.numbered
    rw [send_spec]
    exact ⟨hsends.next, hsends.una, hsends.inflight, hsends.inflight_le, hsends.remote, hcount,
      hsends.buf, hsends.ascending, hsends.content⟩
  | recv len =>
    have hconv : (Ikcp.recv node.kcp len).2.2.conv = node.kcp.conv :=
      congrArg Fixed.conv (fixed_recv node.kcp len)
    have hvalid : (Ikcp.recv node.kcp len).2.2.sender.Valid
        (Ikcp.recv node.kcp len).2.2.conv node.numbered := by
      rw [sender_recv, hconv]
      exact hsends
    rw [Node.call]
    split <;> exact hvalid
  | input data =>
    have hconv : (Ikcp.input node.kcp data).2.conv = node.kcp.conv :=
      congrArg Fixed.conv (fixed_input node.kcp data)
    change (Ikcp.input node.kcp data).2.sender.Valid (Ikcp.input node.kcp data).2.conv node.numbered
    rw [hconv]
    exact Sender.Valid.input hsends data
  | flush => exact hsends.flush
  | update current => exact hsends.update current
  | setmtu mtu =>
    change (setmtu node.kcp mtu).2.sender.Valid (setmtu node.kcp mtu).2.conv node.numbered
    unfold setmtu
    split <;> exact hsends
  | interval time => exact hsends
  | nodelay delay time resend nc => exact hsends
  | wndsize sndwnd rcvwnd => exact hsends

theorem sends_start (conv : UInt32) (stream : Int32) : (Node.start conv stream).Sends := by
  have hinflight : offset 0 0 = 0 := offset_self 0
  have hremote : wndRcv.toNat ≤ 65535 := by decide
  exact ⟨rfl, rfl, hinflight ▸ Nat.zero_le _, hinflight ▸ Nat.zero_le _, hremote, rfl, rfl,
    ascending_nil 0 _, fun _ hseg ↦ absurd hseg List.not_mem_nil⟩

/-- Whatever datagrams arrive and whatever is called, `snd_buf` is strictly ascending from `snd_una`
on, at most 65535 numbers are in flight, and each segment that can be sent again carries the
fragment that was given its number. -/
theorem sends_run {conv : UInt32} {stream : Int32} {calls : List Call} {node : Node}
    (hrun : Runs.run Node.step (Node.start conv stream) calls = some node) : node.Sends := by
  refine Node.step_induction hrun (sends_start conv stream) ?_
  intro node call _ hsends
  exact hsends.call call

/-- Two messages are sent, and sent again after two seconds. -/
theorem sends_run_twice :
    ∃ node, Runs.run Node.step (Node.start 1 0) [.nodelay 1 10 2 1, .send [1, 2], .send [3],
        .update 0, .update 2000] = some node ∧
      node.numbered = [(0, [1, 2]), (0, [3])] ∧
      node.kcp.sndBuf.map (fun seg ↦ (seg.sn, seg.xmit)) = [(0, 2), (1, 2)] ∧ node.Sends := by
  have hview : (Runs.run Node.step (Node.start 1 0) [.nodelay 1 10 2 1, .send [1, 2], .send [3],
      .update 0, .update 2000]).map (fun node ↦
        (node.numbered, node.kcp.sndBuf.map fun seg ↦ (seg.sn, seg.xmit))) =
      some ([(0, [1, 2]), (0, [3])], [(0, 2), (1, 2)]) := by decide +kernel
  obtain ⟨node, hrun, hseen⟩ := Runs.exists_of_view hview
  obtain ⟨hnumbered, hbuf⟩ := Prod.mk.inj hseen
  exact ⟨node, hrun, hnumbered, hbuf, sends_run hrun⟩

end TestLinux.Ikcp
