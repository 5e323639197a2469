import TestLinux.Ikcp.Fragments
import TestLinux.Ikcp.Receive

/-!
# What a receiver takes from its peer

The receiving part of a control block beside the fragments that the peer has numbered. `Held` says
that a number has arrived, in order or out of order. As long as all that arrives are segments of the
peer, what has been received in order is a prefix of the fragments of the peer, and what waits in
`rcv_buf` are fragments of it under their numbers (`Receiver.Taken`). No step gives up what is held
(`Grows`), and only numbers that are held are acknowledged.

The numbers of the peer have not wrapped around beyond half of their range: `bound` is 2147483648.
-/

set_option autoImplicit false
set_option relaxedAutoImplicit false

namespace TestLinux.Ikcp

open TestLinux.Serial

/-- Half of the range of the sequence numbers. -/
def bound : ℕ := 2147483648

/-- The segments that have arrived in order. -/
def Receiver.inOrder (receiver : Receiver) (read : List Ikcpseg) : List Ikcpseg :=
  read ++ receiver.rcvQueue

/-- A number has arrived, in order or out of order. -/
def Receiver.Held (receiver : Receiver) (read : List Ikcpseg) (sn : UInt32) : Prop :=
  sn.toNat < (receiver.inOrder read).length ∨ ∃ seg ∈ receiver.rcvBuf, seg.sn = sn

/-- The receiving part holds fragments of the peer under their numbers. -/
structure Receiver.Taken (numbered : List (UInt32 × List UInt8)) (read : List Ikcpseg)
    (receiver : Receiver) : Prop where
  next : receiver.rcvNxt = UInt32.ofNat (receiver.inOrder read).length
  received : (receiver.inOrder read).map Ikcpseg.fragment <+: numbered
  buffered : ∀ seg ∈ receiver.rcvBuf, numbered[seg.sn.toNat]? = some seg.fragment

/-- Nothing that is held is given up. -/
structure Grows (read : List Ikcpseg) (receiver : Receiver) (read' : List Ikcpseg)
    (receiver' : Receiver) : Prop where
  count : (receiver.inOrder read).length ≤ (receiver'.inOrder read').length
  held : ∀ sn, receiver.Held read sn → receiver'.Held read' sn

theorem Grows.refl (read : List Ikcpseg) (receiver : Receiver) :
    Grows read receiver read receiver := ⟨Nat.le_refl _, fun _ h ↦ h⟩

theorem Grows.trans {read read' read'' : List Ikcpseg} {receiver receiver' receiver'' : Receiver}
    (hfirst : Grows read receiver read' receiver')
    (hsecond : Grows read' receiver' read'' receiver'') : Grows read receiver read'' receiver'' :=
  ⟨Nat.le_trans hfirst.count hsecond.count, fun sn hheld ↦ hsecond.held sn (hfirst.held sn hheld)⟩

variable {numbered : List (UInt32 × List UInt8)} {read : List Ikcpseg} {kcp : Ikcpcb}

theorem Receiver.Taken.count_le {receiver : Receiver} (htaken : receiver.Taken numbered read) :
    (receiver.inOrder read).length ≤ numbered.length := by
  simpa using htaken.received.length_le

theorem Receiver.Taken.toNat_next {receiver : Receiver} (htaken : receiver.Taken numbered read)
    (hbound : numbered.length ≤ bound) :
    receiver.rcvNxt.toNat = (receiver.inOrder read).length := by
  have hle := htaken.count_le
  rw [htaken.next, toNat_ofNat_of_lt]
  unfold bound at hbound
  omega

/-- The peer numbers more fragments. -/
theorem Receiver.Taken.extend {receiver : Receiver} (htaken : receiver.Taken numbered read)
    (more : List (UInt32 × List UInt8)) : receiver.Taken (numbered ++ more) read := by
  refine ⟨htaken.next, htaken.received.trans (List.prefix_append _ _), ?_⟩
  intro seg hseg
  have hget := htaken.buffered seg hseg
  obtain ⟨hlt, -⟩ := List.getElem?_eq_some_iff.mp hget
  rwa [List.getElem?_append_left hlt]

/-- A prefix goes on with the elements that follow it. -/
theorem prefix_append_of_getElem {α : Type} {items : List α} :
    ∀ {moved first : List α}, first <+: items →
      (∀ k item, moved[k]? = some item → items[first.length + k]? = some item) →
      first ++ moved <+: items
  | [], first, hfirst, _ => by simpa using hfirst
  | item :: rest, first, hfirst, hmoved => by
    have hitem := hmoved 0 item rfl
    have hstep : first ++ [item] <+: items := by
      obtain ⟨tail, rfl⟩ := hfirst
      rw [Nat.add_zero, List.getElem?_append_right (Nat.le_refl _), Nat.sub_self] at hitem
      cases tail with
      | nil => cases hitem
      | cons head tail =>
        obtain rfl : head = item := by simpa using hitem
        exact ⟨tail, by simp⟩
    have hlater : ∀ k other, rest[k]? = some other →
        items[(first ++ [item]).length + k]? = some other := by
      intro k other hother
      have hnext := hmoved (k + 1) other (by simpa using hother)
      rw [List.length_append, List.length_singleton, Nat.add_assoc, Nat.add_comm 1 k]
      exact hnext
    simpa using prefix_append_of_getElem hstep hlater

/-- Segments with consecutive numbers from `rcv_nxt` on are the next ones of the peer. -/
theorem Receiver.Taken.toNat_moved {receiver : Receiver} (htaken : receiver.Taken numbered read)
    (hbound : numbered.length ≤ bound) {moved : List Ikcpseg}
    (hmoved : moved.map Ikcpseg.sn = consecutive receiver.rcvNxt moved.length)
    (hbuf : moved ⊆ receiver.rcvBuf) {k : ℕ} :
    ∀ {seg : Ikcpseg}, moved[k]? = some seg →
      seg.sn.toNat = (receiver.inOrder read).length + k := by
  have hnext := htaken.toNat_next hbound
  have hcount := htaken.count_le
  have hsn : ∀ j seg, moved[j]? = some seg → seg.sn = receiver.rcvNxt + UInt32.ofNat j := by
    intro j seg hseg
    obtain ⟨hlt, -⟩ := List.getElem?_eq_some_iff.mp hseg
    have hsome : some seg.sn = some (receiver.rcvNxt + UInt32.ofNat j) := by
      rw [← getElem?_consecutive receiver.rcvNxt hlt, ← hmoved, List.getElem?_map, hseg,
        Option.map_some]
    exact Option.some.inj hsome
  unfold bound at hbound
  -- each of them is numbered by the peer, so that the next number does not wrap around
  induction k with
  | zero =>
    intro seg hseg
    rw [hsn 0 seg hseg, Nat.add_zero, ← hnext]
    simp
  | succ k ih =>
    intro seg hseg
    obtain ⟨hlt, -⟩ := List.getElem?_eq_some_iff.mp hseg
    obtain ⟨before, hbefore⟩ : ∃ before, moved[k]? = some before :=
      ⟨_, List.getElem?_eq_getElem (Nat.lt_of_succ_lt hlt)⟩
    have hnumber := ih hbefore
    obtain ⟨hlt', -⟩ := List.getElem?_eq_some_iff.mp
      (htaken.buffered before (hbuf (List.mem_of_getElem? hbefore)))
    rw [hsn (k + 1) seg hseg, UInt32.toNat_add, hnext, toNat_ofNat_of_lt (by omega)]
    exact Nat.mod_eq_of_lt (by omega)

/-- Moving data keeps everything that is held. -/
theorem Receiver.Taken.moveAvailable (hbound : numbered.length ≤ bound)
    (htaken : kcp.receiver.Taken numbered read) :
    (moveAvailable kcp).receiver.Taken numbered read ∧
      Grows read kcp.receiver read (moveAvailable kcp).receiver := by
  obtain ⟨moved, rest, hbuf, hmoved, -, -, heq⟩ := moveLoop_spec kcp kcp.rcvBuf
  have hsubset : moved ⊆ kcp.receiver.rcvBuf := by
    intro seg hseg
    change seg ∈ kcp.rcvBuf
    rw [hbuf]
    exact List.mem_append_left _ hseg
  have hfront : (kcp.receiver.inOrder read ++ moved).map Ikcpseg.fragment <+: numbered := by
    rw [List.map_append]
    refine prefix_append_of_getElem htaken.received ?_
    intro k fragment hfragment
    rw [List.getElem?_map, Option.map_eq_some_iff] at hfragment
    obtain ⟨seg, hseg, rfl⟩ := hfragment
    rw [List.length_map, ← htaken.toNat_moved hbound hmoved hsubset hseg]
    exact htaken.buffered seg (hsubset (List.mem_of_getElem? hseg))
  rw [Ikcp.moveAvailable, heq]
  set next : Receiver := { kcp.receiver with
    rcvBuf := rest
    nrcvBuf := kcp.nrcvBuf - UInt32.ofNat moved.length
    rcvQueue := kcp.rcvQueue ++ moved
    nrcvQue := kcp.nrcvQue + UInt32.ofNat moved.length
    rcvNxt := kcp.rcvNxt + UInt32.ofNat moved.length }
  change next.Taken numbered read ∧ Grows read kcp.receiver read next
  have horder : next.inOrder read = kcp.receiver.inOrder read ++ moved :=
    (List.append_assoc read kcp.rcvQueue moved).symm
  have hgrows : Grows read kcp.receiver read next := by
    constructor
    · rw [horder, List.length_append]
      exact Nat.le_add_right _ _
    · rintro sn (hsn | ⟨seg, hseg, rfl⟩)
      · refine Or.inl ?_
        rw [horder, List.length_append]
        omega
      · change seg ∈ kcp.rcvBuf at hseg
        rw [hbuf] at hseg
        rcases List.mem_append.mp hseg with hseg | hseg
        · obtain ⟨k, hk⟩ := List.mem_iff_getElem?.mp hseg
          obtain ⟨hlt, -⟩ := List.getElem?_eq_some_iff.mp hk
          refine Or.inl ?_
          rw [htaken.toNat_moved hbound hmoved hsubset hk, horder, List.length_append]
          omega
        · exact Or.inr ⟨seg, hseg, rfl⟩
  refine ⟨⟨?_, ?_, ?_⟩, hgrows⟩
  · have hnext : kcp.rcvNxt = UInt32.ofNat (kcp.receiver.inOrder read).length := htaken.next
    rw [horder, List.length_append, UInt32.ofNat_add, ← hnext]
  · rw [horder]
    exact hfront
  · intro seg hseg
    refine htaken.buffered seg ?_
    change seg ∈ kcp.rcvBuf
    rw [hbuf]
    exact List.mem_append_right _ hseg

/-- Moving data adds nothing to what is held. -/
theorem Receiver.Taken.held_of_moveAvailable (hbound : numbered.length ≤ bound)
    (htaken : kcp.receiver.Taken numbered read) {sn : UInt32}
    (hheld : (Ikcp.moveAvailable kcp).receiver.Held read sn) : kcp.receiver.Held read sn := by
  obtain ⟨moved, rest, hbuf, hmoved, -, -, heq⟩ := moveLoop_spec kcp kcp.rcvBuf
  have hsubset : moved ⊆ kcp.receiver.rcvBuf := by
    intro seg hseg
    change seg ∈ kcp.rcvBuf
    rw [hbuf]
    exact List.mem_append_left _ hseg
  rw [Ikcp.moveAvailable, heq] at hheld
  rcases hheld with hlt | ⟨seg, hseg, rfl⟩
  · change sn.toNat < (read ++ (kcp.rcvQueue ++ moved)).length at hlt
    rw [← List.append_assoc, List.length_append] at hlt
    by_cases hold : sn.toNat < (kcp.receiver.inOrder read).length
    · exact Or.inl hold
    -- the segment with this number has just been moved
    obtain ⟨k, hk⟩ := Nat.exists_eq_add_of_le (Nat.not_lt.mp hold)
    have hlength : k < moved.length := by
      change _ < (kcp.receiver.inOrder read).length + moved.length at hlt
      omega
    have hseg := List.getElem?_eq_getElem hlength
    have hnumber := htaken.toNat_moved hbound hmoved hsubset hseg
    exact Or.inr ⟨_, hsubset (List.getElem_mem hlength),
      UInt32.toNat_inj.mp (hnumber.trans hk.symm)⟩
  · refine Or.inr ⟨seg, ?_, rfl⟩
    change seg ∈ kcp.rcvBuf
    rw [hbuf]
    exact List.mem_append_right _ hseg

/-! ### Segments of the peer -/

/-- A segment on its way from the peer: if it carries data, they are the fragment with its number.
-/
structure Ikcpseg.Carried (conv : UInt32) (numbered : List (UInt32 × List UInt8)) (seg : Ikcpseg) :
    Prop where
  readable : seg.Readable conv
  frg : seg.frg.toNat < 256
  push : seg.cmd.toUInt8 = cmdPush → numbered[seg.sn.toNat]? = some seg.fragment

theorem Ikcpseg.Carried.extend {conv : UInt32} {seg : Ikcpseg} (hseg : seg.Carried conv numbered)
    (more : List (UInt32 × List UInt8)) : seg.Carried conv (numbered ++ more) := by
  refine ⟨hseg.readable, hseg.frg, ?_⟩
  intro hpush
  have hget := hseg.push hpush
  obtain ⟨hlt, -⟩ := List.getElem?_eq_some_iff.mp hget
  rwa [List.getElem?_append_left hlt]

theorem fragment_segment_header {seg : Ikcpseg} (hfrg : seg.frg.toNat < 256) :
    (seg.header.segment seg.data).fragment = seg.fragment := by
  have heq : seg.frg.toUInt8.toUInt32 = seg.frg := by
    refine UInt32.toNat_inj.mp ?_
    rw [UInt8.toNat_toUInt32, UInt32.toNat_toUInt8]
    exact Nat.mod_eq_of_lt hfrg
  exact Prod.ext heq rfl

/-- A new segment is in `rcv_buf` afterwards, or one with its number. -/
theorem mem_insertBuf (kcp : Ikcpcb) (newseg : Ikcpseg) :
    (∃ seg ∈ (insertBuf kcp newseg).rcvBuf, seg.sn = newseg.sn) ∧
      (∀ seg ∈ kcp.rcvBuf, seg ∈ (insertBuf kcp newseg).rcvBuf) ∧
      (∀ seg ∈ (insertBuf kcp newseg).rcvBuf, seg ∈ kcp.rcvBuf ∨ seg = newseg) ∧
      (insertBuf kcp newseg).receiver = { kcp.receiver with
        rcvBuf := (insertBuf kcp newseg).rcvBuf
        nrcvBuf := (insertBuf kcp newseg).nrcvBuf } := by
  unfold insertBuf
  rcases insertLoop_spec newseg kcp.rcvBuf.reverse with
    ⟨hnone, seg, hseg, hsn⟩ | ⟨after, before, hreverse, hsome, -, -⟩
  · simp only [hnone]
    exact ⟨⟨seg, List.mem_reverse.mp hseg, hsn⟩, fun _ h ↦ h, fun _ h ↦ Or.inl h, rfl⟩
  · have hmem : ∀ seg, seg ∈ kcp.rcvBuf ↔ seg ∈ after ∨ seg ∈ before := by
      intro seg
      rw [← List.mem_append, ← hreverse, List.mem_reverse]
    simp only [hsome, List.mem_reverse, List.mem_append, List.mem_cons]
    refine ⟨⟨newseg, Or.inr (Or.inl rfl), rfl⟩, ?_, ?_, rfl⟩
    · intro seg hseg
      rcases (hmem seg).mp hseg with h | h
      · exact Or.inl h
      · exact Or.inr (Or.inr h)
    · rintro seg (h | rfl | h)
      · exact Or.inl ((hmem seg).mpr (Or.inl h))
      · exact Or.inr rfl
      · exact Or.inl ((hmem seg).mpr (Or.inr h))

theorem Receiver.Taken.insertBuf (htaken : kcp.receiver.Taken numbered read) {newseg : Ikcpseg}
    (hnew : numbered[newseg.sn.toNat]? = some newseg.fragment) :
    (insertBuf kcp newseg).receiver.Taken numbered read ∧
      Grows read kcp.receiver read (insertBuf kcp newseg).receiver ∧
      (insertBuf kcp newseg).receiver.Held read newseg.sn := by
  obtain ⟨hsn, hold, hmem, heq⟩ := mem_insertBuf kcp newseg
  have horder : (Ikcp.insertBuf kcp newseg).receiver.inOrder read = kcp.receiver.inOrder read := by
    rw [heq]
    rfl
  have hgrows : Grows read kcp.receiver read (Ikcp.insertBuf kcp newseg).receiver := by
    constructor
    · exact Nat.le_of_eq (congrArg List.length horder).symm
    · rintro sn (hlt | ⟨seg, hseg, rfl⟩)
      · exact Or.inl (by rwa [horder])
      · exact Or.inr ⟨seg, hold seg hseg, rfl⟩
  refine ⟨⟨?_, ?_, ?_⟩, hgrows, Or.inr hsn⟩
  · rw [horder, heq]
    exact htaken.next
  · rw [horder]
    exact htaken.received
  · intro seg hseg
    rcases hmem seg hseg with hseg | rfl
    · exact htaken.buffered seg hseg
    · exact hnew

/-- Numbers that are not ahead have been received. -/
theorem Receiver.Taken.lt_of_diff_neg {receiver : Receiver} (htaken : receiver.Taken numbered read)
    (hbound : numbered.length ≤ bound) {sn : UInt32} (hsn : sn.toNat < numbered.length)
    (hdiff : ¬ 0 ≤ diff sn receiver.rcvNxt) : sn.toNat < (receiver.inOrder read).length := by
  have hnext := htaken.toNat_next hbound
  have hcount := htaken.count_le
  rw [diff_nonneg_iff, offset_eq_ite] at hdiff
  unfold bound at hbound
  split at hdiff <;> omega

theorem acklist_moveAvailable (kcp : Ikcpcb) : (moveAvailable kcp).acklist = kcp.acklist := by
  obtain ⟨moved, rest, -, -, -, -, heq⟩ := moveLoop_spec kcp kcp.rcvBuf
  rw [Ikcp.moveAvailable, heq]

/-- Data of the peer: what is acknowledged is held afterwards. -/
theorem Receiver.Taken.inputPush (hbound : numbered.length ≤ bound)
    (htaken : kcp.receiver.Taken numbered read) {conv : UInt32} {seg : Ikcpseg}
    (hseg : seg.Carried conv numbered) (hpush : seg.cmd.toUInt8 = cmdPush) :
    (inputPush kcp seg.header seg.data).receiver.Taken numbered read ∧
      Grows read kcp.receiver read (inputPush kcp seg.header seg.data).receiver ∧
      ∀ ack ∈ (inputPush kcp seg.header seg.data).acklist, ack ∈ kcp.acklist ∨
        (inputPush kcp seg.header seg.data).receiver.Held read ack.1 := by
  have hnew : numbered[(seg.header.segment seg.data).sn.toNat]? =
      some (seg.header.segment seg.data).fragment := by
    rw [fragment_segment_header hseg.frg]
    exact hseg.push hpush
  obtain ⟨hlt, -⟩ := List.getElem?_eq_some_iff.mp (hseg.push hpush)
  have hqueued : (ackPush kcp seg.sn seg.ts).receiver.Taken numbered read :=
    ⟨htaken.next, htaken.received, htaken.buffered⟩
  have hacks : ∀ ack ∈ (ackPush kcp seg.sn seg.ts).acklist,
      ack ∈ kcp.acklist ∨ ack = (seg.sn, seg.ts) := by
    intro ack hack
    exact (List.mem_append.mp hack).imp_right List.mem_singleton.mp
  simp only [Ikcp.inputPush]
  split
  · rename_i hwindow
    split
    · rename_i hahead
      obtain ⟨hinsert, hgrows, hheld⟩ := hqueued.insertBuf hnew
      obtain ⟨hmove, hgrows'⟩ := hinsert.moveAvailable hbound
      have hgrows'' : Grows read kcp.receiver read _ :=
        Grows.trans ⟨hgrows.count, hgrows.held⟩ hgrows'
      have hparse : parseData (ackPush kcp seg.header.sn seg.header.ts)
          (seg.header.segment seg.data) = Ikcp.moveAvailable (Ikcp.insertBuf
            (ackPush kcp seg.sn seg.ts) (seg.header.segment seg.data)) :=
        if_neg (not_or.mpr ⟨not_le.mpr hwindow, not_lt.mpr hahead⟩)
      rw [hparse]
      refine ⟨hmove, hgrows'', ?_⟩
      intro ack hack
      rw [acklist_moveAvailable] at hack
      obtain ⟨-, -, -, heq⟩ := mem_insertBuf (ackPush kcp seg.sn seg.ts)
        (seg.header.segment seg.data)
      have hlist : (Ikcp.insertBuf (ackPush kcp seg.sn seg.ts)
          (seg.header.segment seg.data)).acklist = (ackPush kcp seg.sn seg.ts).acklist :=
        congrArg Receiver.acklist heq
      rcases hacks ack (hlist ▸ hack) with hack | rfl
      · exact Or.inl hack
      · exact Or.inr (hgrows'.held seg.sn hheld)
    · rename_i hbehind
      refine ⟨hqueued, ⟨Nat.le_refl _, fun _ h ↦ h⟩, ?_⟩
      intro ack hack
      rcases hacks ack hack with hack | rfl
      · exact Or.inl hack
      · exact Or.inr (Or.inl (htaken.lt_of_diff_neg hbound hlt hbehind))
  · exact ⟨htaken, Grows.refl _ _, fun _ hack ↦ Or.inl hack⟩

/-! ### Datagrams of the peer -/

/-- The receiving part, with the acknowledgements that wait. -/
structure Receiver.Owns (numbered : List (UInt32 × List UInt8)) (read : List Ikcpseg)
    (receiver : Receiver) : Prop where
  taken : receiver.Taken numbered read
  acks : ∀ ack ∈ receiver.acklist, receiver.Held read ack.1

theorem Receiver.Owns.inputSegment (hbound : numbered.length ≤ bound) {inputting : Inputting}
    (howns : inputting.kcp.receiver.Owns numbered read) {conv : UInt32} {seg : Ikcpseg}
    (hseg : seg.Carried conv numbered) :
    (inputSegment inputting seg.header seg.data).kcp.receiver.Owns numbered read ∧
      Grows read inputting.kcp.receiver read
        (inputSegment inputting seg.header seg.data).kcp.receiver := by
  have hcommon := receiver_inputCommon inputting.kcp seg.header
  have hstay : ∀ next : Ikcpcb, next.receiver = inputting.kcp.receiver →
      next.receiver.Owns numbered read ∧ Grows read inputting.kcp.receiver read next.receiver := by
    intro next hnext
    rw [hnext]
    exact ⟨howns, Grows.refl _ _⟩
  simp only [Ikcp.inputSegment]
  split_ifs with hack hpush
  · exact hstay _ (by rw [receiver_inputAck]; exact hcommon)
  · have htaken : (inputCommon inputting.kcp seg.header).receiver.Taken numbered read :=
      hcommon ▸ howns.taken
    obtain ⟨hnext, hgrows, hacks⟩ := htaken.inputPush hbound hseg hpush
    rw [hcommon] at hgrows
    refine ⟨⟨hnext, ?_⟩, hgrows⟩
    intro ack hmem
    rcases hacks ack hmem with hold | hheld
    · have hold' : ack ∈ inputting.kcp.receiver.acklist := by
        rw [← hcommon]
        exact hold
      exact hgrows.held ack.1 (howns.acks ack hold')
    · exact hheld
  · exact hstay _ hcommon
  · exact hstay _ hcommon

/-- A datagram of the peer. -/
theorem Receiver.Owns.input (hbound : numbered.length ≤ bound)
    (howns : kcp.receiver.Owns numbered read) {bytes : List UInt8}
    (hdatagram : Datagram (Ikcpseg.Carried kcp.conv numbered) bytes) :
    (input kcp bytes).2.receiver.Owns numbered read ∧
      Grows read kcp.receiver read (input kcp bytes).2.receiver := by
  refine input_datagram_induction (motive := fun next ↦ next.receiver.Owns numbered read ∧
    Grows read kcp.receiver read next.receiver) hdatagram (fun _ hseg ↦ hseg.readable)
    ⟨howns, Grows.refl _ _⟩ ?_ ?_ ?_
  · intro inputting seg hnext hseg
    obtain ⟨howns', hgrows⟩ := hnext.1.inputSegment hbound hseg
    exact ⟨howns', hnext.2.trans hgrows⟩
  · intro next sn hnext
    rwa [receiver_parseFastack]
  · intro next prevUna hnext
    rwa [receiver_growWindow]

/-- What is handed over has been received before. -/
theorem inOrder_takeFragments (kcp : Ikcpcb) (read : List Ikcpseg) (len : ℤ) :
    (takeFragments kcp len).receiver.inOrder
      (if len < 0 then read else read ++ (mergeLoop kcp.rcvQueue).1) =
        kcp.receiver.inOrder read := by
  rw [takeFragments]
  split
  · rfl
  · change read ++ (mergeLoop kcp.rcvQueue).1 ++ (mergeLoop kcp.rcvQueue).2 = read ++ kcp.rcvQueue
    rw [List.append_assoc, mergeLoop_append]

theorem rest_takeFragments (kcp : Ikcpcb) (len : ℤ) :
    (takeFragments kcp len).rcvNxt = kcp.rcvNxt ∧ (takeFragments kcp len).rcvBuf = kcp.rcvBuf ∧
      (takeFragments kcp len).acklist = kcp.acklist := by
  rw [takeFragments]
  split <;> exact ⟨rfl, rfl, rfl⟩

theorem held_takeFragments (kcp : Ikcpcb) (read : List Ikcpseg) (len : ℤ) (sn : UInt32) :
    (takeFragments kcp len).receiver.Held
      (if len < 0 then read else read ++ (mergeLoop kcp.rcvQueue).1) sn ↔
        kcp.receiver.Held read sn := by
  have hbuf : (takeFragments kcp len).receiver.rcvBuf = kcp.receiver.rcvBuf :=
    (rest_takeFragments kcp len).2.1
  rw [Receiver.Held, inOrder_takeFragments, hbuf]
  rfl

theorem Receiver.Taken.takeFragments (htaken : kcp.receiver.Taken numbered read) (len : ℤ) :
    (takeFragments kcp len).receiver.Taken numbered
      (if len < 0 then read else read ++ (mergeLoop kcp.rcvQueue).1) := by
  obtain ⟨hnext, hbuf, -⟩ := rest_takeFragments kcp len
  refine ⟨?_, ?_, ?_⟩
  · rw [inOrder_takeFragments]
    exact hnext.trans htaken.next
  · rw [inOrder_takeFragments]
    exact htaken.received
  · change ∀ seg ∈ (Ikcp.takeFragments kcp len).rcvBuf, _
    rw [hbuf]
    exact htaken.buffered

/-- `ikcp_recv` hands over what has been received in order. -/
theorem Receiver.Owns.recv (hbound : numbered.length ≤ bound)
    (howns : kcp.receiver.Owns numbered read) (len : ℤ) :
    (moveAvailable (takeFragments kcp len)).receiver.Owns numbered
        (if len < 0 then read else read ++ (mergeLoop kcp.rcvQueue).1) ∧
      Grows read kcp.receiver (if len < 0 then read else read ++ (mergeLoop kcp.rcvQueue).1)
        (moveAvailable (takeFragments kcp len)).receiver := by
  have hgrows : Grows read kcp.receiver
      (if len < 0 then read else read ++ (mergeLoop kcp.rcvQueue).1)
      (takeFragments kcp len).receiver :=
    ⟨Nat.le_of_eq (congrArg List.length (inOrder_takeFragments kcp read len)).symm,
      fun sn hheld ↦ (held_takeFragments kcp read len sn).mpr hheld⟩
  obtain ⟨hmove, hgrows'⟩ := (howns.taken.takeFragments len).moveAvailable hbound
  refine ⟨⟨hmove, ?_⟩, hgrows.trans hgrows'⟩
  intro ack hack
  change ack ∈ (moveAvailable (takeFragments kcp len)).acklist at hack
  rw [acklist_moveAvailable, (rest_takeFragments kcp len).2.2] at hack
  exact (hgrows.trans hgrows').held ack.1 (howns.acks ack hack)

end TestLinux.Ikcp
