import TestLinux.Ikcp.Delivery

/-!
# Two control blocks and a network

Two control blocks of one conversation, each called in any way that leaves room for what is queued
when the `mtu` changes, and a network that can lose, duplicate, delay and reorder datagrams:
whatever one of them has ever put out may arrive at the other one at any time, any number of times,
or never.

`Flow sender receiver` is the invariant for one direction. The receiver has a prefix of the
fragments that the sender has numbered; what is on the way, in either direction, agrees with both
sides; and every number is held by the receiver or still in `snd_buf` of the sender, so that nothing
is lost. It holds as long as neither side numbers more than 2147483648 segments: from then on an old
datagram cannot be told from a new one.
-/

set_option autoImplicit false
set_option relaxedAutoImplicit false

namespace TestLinux.Ikcp

open TestLinux.Serial

/-! ### One direction -/

/-- A segment on its way back: it reports what the receiver holds. -/
structure Ikcpseg.Replies (conv : UInt32) (receiver : Receiver) (read : List Ikcpseg)
    (seg : Ikcpseg) : Prop where
  readable : seg.Readable conv
  una : seg.una.toNat ≤ (receiver.inOrder read).length
  ack : seg.cmd.toUInt8 = cmdAck → receiver.Held read seg.sn

theorem Ikcpseg.Replies.mono {conv : UInt32} {receiver receiver' : Receiver}
    {read read' : List Ikcpseg} (hgrows : Grows read receiver read' receiver') {seg : Ikcpseg}
    (hseg : seg.Replies conv receiver read) : seg.Replies conv receiver' read' :=
  ⟨hseg.readable, Nat.le_trans hseg.una hgrows.count, fun hack ↦ hgrows.held seg.sn (hseg.ack hack)⟩

/-- The invariant for one direction. -/
structure Flow (sender receiver : Node) : Prop where
  owns : receiver.kcp.receiver.Owns sender.numbered receiver.read
  carried : ∀ bytes ∈ sender.datagrams,
    Datagram (Ikcpseg.Carried receiver.kcp.conv sender.numbered) bytes
  replies : ∀ bytes ∈ receiver.datagrams,
    Datagram (Ikcpseg.Replies sender.kcp.conv receiver.kcp.receiver receiver.read) bytes
  kept : ∀ sn : UInt32, sn.toNat < sender.numbered.length →
    receiver.kcp.receiver.Held receiver.read sn ∨ ∃ seg ∈ sender.kcp.sndBuf, seg.sn = sn

/-- A step of the sender that gives up no number. -/
theorem Flow.of_sender {sender sender' receiver : Node} (hflow : Flow sender receiver)
    (hconv : sender'.kcp.conv = sender.kcp.conv) {more : List (UInt32 × List UInt8)}
    (hnumbered : sender'.numbered = sender.numbered ++ more)
    (hdatagrams : ∀ bytes ∈ sender'.datagrams, bytes ∈ sender.datagrams ∨
      Datagram (Ikcpseg.Carried receiver.kcp.conv sender'.numbered) bytes)
    (hkept : ∀ sn : UInt32, sn.toNat < sender'.numbered.length →
      (∃ seg ∈ sender'.kcp.sndBuf, seg.sn = sn) ∨
        sn.toNat < sender.numbered.length ∧ ¬ ∃ seg ∈ sender.kcp.sndBuf, seg.sn = sn) :
    Flow sender' receiver := by
  refine ⟨⟨?_, hflow.owns.acks⟩, ?_, ?_, ?_⟩
  · rw [hnumbered]
    exact hflow.owns.taken.extend more
  · intro bytes hbytes
    rcases hdatagrams bytes hbytes with hbytes | hbytes
    · rw [hnumbered]
      exact (hflow.carried bytes hbytes).mono fun _ hseg ↦ hseg.extend more
    · exact hbytes
  · rw [hconv]
    exact hflow.replies
  · intro sn hsn
    rcases hkept sn hsn with hseg | ⟨hlt, hnot⟩
    · exact Or.inr hseg
    · exact Or.inl ((hflow.kept sn hlt).resolve_right hnot)

/-- A step of the receiver that gives up nothing. -/
theorem Flow.of_receiver {sender receiver receiver' : Node} (hflow : Flow sender receiver)
    (hconv : receiver'.kcp.conv = receiver.kcp.conv)
    (howns : receiver'.kcp.receiver.Owns sender.numbered receiver'.read)
    (hgrows : Grows receiver.read receiver.kcp.receiver receiver'.read receiver'.kcp.receiver)
    (hdatagrams : ∀ bytes ∈ receiver'.datagrams, bytes ∈ receiver.datagrams ∨
      Datagram (Ikcpseg.Replies sender.kcp.conv receiver'.kcp.receiver receiver'.read) bytes) :
    Flow sender receiver' := by
  refine ⟨howns, ?_, ?_, ?_⟩
  · rw [hconv]
    exact hflow.carried
  · intro bytes hbytes
    rcases hdatagrams bytes hbytes with hbytes | hbytes
    · exact (hflow.replies bytes hbytes).mono fun _ hseg ↦ hseg.mono hgrows
    · exact hbytes
  · intro sn hsn
    exact (hflow.kept sn hsn).imp_left (hgrows.held sn)

/-! ### Steps of the sender -/

/-- Before half of the range is used up, the number of a segment of `snd_buf` is a position among
the numbered fragments, and one of the last. -/
theorem Node.Sends.position {node : Node} (hsends : node.Sends)
    (hbound : node.numbered.length ≤ bound) {seg : Ikcpseg} (hseg : seg ∈ node.kcp.sndBuf) :
    node.numbered.length - offset seg.sn node.kcp.sndNxt = seg.sn.toNat ∧
      node.numbered.length ≤ seg.sn.toNat + 65535 := by
  have hnext : node.kcp.sndNxt = UInt32.ofNat node.numbered.length := hsends.next
  have hbelow : offset node.kcp.sndUna seg.sn < offset node.kcp.sndUna node.kcp.sndNxt :=
    hsends.ascending.below seg.sn (List.mem_map_of_mem hseg)
  have hle : offset node.kcp.sndUna node.kcp.sndNxt ≤ node.numbered.length := hsends.inflight_le
  have hinflight : offset node.kcp.sndUna node.kcp.sndNxt ≤ 65535 := hsends.inflight
  have hsub := offset_sub (Nat.le_of_lt hbelow)
  have hlt := seg.sn.toNat_lt
  have hoffset := offset_eq_ite seg.sn node.kcp.sndNxt
  unfold bound at hbound
  rw [hnext, toNat_ofNat_of_lt (by omega)] at hoffset
  rw [hnext] at hsub hbelow hle hinflight ⊢
  split at hoffset <;> omega

/-- A segment of `snd_buf` carries the fragment that its number is the position of. -/
theorem Node.Sends.getElem {node : Node} (hsends : node.Sends)
    (hbound : node.numbered.length ≤ bound) {seg : Ikcpseg} (hseg : seg ∈ node.kcp.sndBuf) :
    node.numbered[seg.sn.toNat]? = some seg.fragment := by
  rw [← (hsends.position hbound hseg).1]
  exact (hsends.content seg hseg).2.2

/-- What is written carries the fragments of the sender. -/
theorem carried_of_emitted {kcp : Ikcpcb} {node : Node} (hsends : node.Sends)
    (hframed : node.Framed) (hbound : node.numbered.length ≤ bound)
    (hconv : node.kcp.conv = kcp.conv) {seg : Ikcpseg}
    (hemitted : Emitted kcp node.kcp.sndBuf seg) : seg.Carried kcp.conv node.numbered := by
  have hreadable := readable_of_emitted hsends
    (fun fragment hfragment ↦ (hframed.fragments fragment hfragment).2) hconv hemitted
  rcases hemitted.kind with ⟨-, hfragment, hkind⟩ | hmem
  · have hfrg : seg.frg = 0 := congrArg Prod.fst hfragment
    refine ⟨hreadable, by rw [hfrg]; decide, ?_⟩
    intro hpush
    rcases hkind with ⟨hcmd, -⟩ | hcmd | hcmd
    all_goals
      rw [hcmd] at hpush
      exact absurd hpush (by decide)
  · have hget := hsends.getElem hbound hmem
    have hfragment := (hframed.fragments seg.fragment
      (List.mem_append_left _ (List.mem_of_getElem? hget))).1
    exact ⟨hreadable, Nat.lt_trans hfragment (by decide), fun _ ↦ hget⟩

/-- What is written reports what is held. -/
theorem replies_of_emitted {kcp : Ikcpcb} {node : Node} (hsends : node.Sends)
    (hframed : node.Framed) (hconv : node.kcp.conv = kcp.conv)
    {numbered : List (UInt32 × List UInt8)} {read : List Ikcpseg}
    (howns : kcp.receiver.Owns numbered read) (hbound : numbered.length ≤ bound) {seg : Ikcpseg}
    (hemitted : Emitted kcp node.kcp.sndBuf seg) : seg.Replies kcp.conv kcp.receiver read := by
  have hreadable := readable_of_emitted hsends
    (fun fragment hfragment ↦ (hframed.fragments fragment hfragment).2) hconv hemitted
  have hnext : kcp.rcvNxt.toNat = _ := howns.taken.toNat_next hbound
  refine ⟨hreadable, hemitted.una ▸ Nat.le_of_eq hnext, ?_⟩
  intro hack
  rcases hemitted.kind with ⟨-, -, hkind⟩ | hmem
  · rcases hkind with ⟨-, hmem⟩ | hcmd | hcmd
    · exact howns.acks (seg.sn, seg.ts) hmem
    all_goals
      rw [hcmd] at hack
      exact absurd hack (by decide)
  · obtain ⟨-, hcmd, -⟩ := hsends.content seg hmem
    rw [hcmd] at hack
    exact absurd hack (by decide)

/-- A segment that is deleted because of `una` comes before it. -/
theorem lt_of_diff_pos {una sn : UInt32} (hsn : sn.toNat ≤ bound) (hdiff : 0 < diff una sn) :
    sn.toNat < una.toNat := by
  have hoffset : offset sn una < 2147483648 := diff_nonneg_iff.mp (Int.le_of_lt hdiff)
  have hne : offset sn una ≠ 0 := by
    intro hzero
    rw [diff_eq_ite, hzero] at hdiff
    exact absurd hdiff (by decide)
  have hlt := una.toNat_lt
  rw [offset_eq_ite] at hoffset hne
  unfold bound at hsn
  split_ifs at hoffset hne <;> omega

/-- The numbers of `snd_buf` and those that the receiver holds. -/
def Ikcpcb.Keeps (kcp : Ikcpcb) (limit : ℕ) (held : UInt32 → Prop) : Prop :=
  (∀ seg ∈ kcp.sndBuf, seg.sn.toNat < limit) ∧
    ∀ sn : UInt32, sn.toNat < limit → held sn ∨ ∃ seg ∈ kcp.sndBuf, seg.sn = sn

/-- Deleting a segment whose number is held. -/
theorem Ikcpcb.Keeps.delete {kcp next : Ikcpcb} {limit : ℕ} {held : UInt32 → Prop}
    (hkeeps : kcp.Keeps limit held) (hsublist : next.sndBuf.Sublist kcp.sndBuf)
    (hdeleted : ∀ seg ∈ kcp.sndBuf, seg ∈ next.sndBuf ∨ held seg.sn) : next.Keeps limit held := by
  refine ⟨fun seg hseg ↦ hkeeps.1 seg (hsublist.subset hseg), ?_⟩
  intro sn hsn
  rcases hkeeps.2 sn hsn with hheld | ⟨seg, hseg, rfl⟩
  · exact Or.inl hheld
  · rcases hdeleted seg hseg with hmem | hheld
    · exact Or.inr ⟨seg, hmem, rfl⟩
    · exact Or.inl hheld

/-- A segment on its way back deletes what is held. -/
theorem Ikcpcb.Keeps.inputSegment {inputting : Inputting} {limit : ℕ} (hlimit : limit ≤ bound)
    {conv : UInt32} {receiver : Receiver} {read : List Ikcpseg}
    (hkeeps : inputting.kcp.Keeps limit (receiver.Held read)) {seg : Ikcpseg}
    (hseg : seg.Replies conv receiver read) :
    (inputSegment inputting seg.header seg.data).kcp.Keeps limit (receiver.Held read) := by
  have hcommon : (inputCommon inputting.kcp seg.header).Keeps limit (receiver.Held read) := by
    obtain ⟨hsublist, -, hdeleted⟩ := unaLoop_spec seg.una inputting.kcp.sndBuf
    have hbuf : (inputCommon inputting.kcp seg.header).sndBuf =
        (unaLoop seg.una inputting.kcp.sndBuf).1 := sndBuf_shrinkBuf _
    refine hkeeps.delete (by rw [hbuf]; exact hsublist) ?_
    intro other hother
    rw [hbuf]
    refine (hdeleted other hother).imp_right fun hdiff ↦ Or.inl ?_
    have hlt := lt_of_diff_pos (Nat.le_trans (Nat.le_of_lt (hkeeps.1 other hother)) hlimit) hdiff
    exact Nat.lt_of_lt_of_le hlt hseg.una
  simp only [Ikcp.inputSegment]
  split_ifs with hack
  · simp only [inputAck]
    set ready := if 0 ≤ diff (inputCommon inputting.kcp seg.header).current seg.header.ts then
        updateAck (inputCommon inputting.kcp seg.header)
          (Int32.ofInt (diff (inputCommon inputting.kcp seg.header).current seg.header.ts))
      else inputCommon inputting.kcp seg.header with hready
    have hbuf : ready.sndBuf = (inputCommon inputting.kcp seg.header).sndBuf := by
      rw [hready]
      split <;> rfl
    obtain ⟨hsublist, -, hdeleted⟩ := ackLoop_spec seg.sn ready.sndBuf
    have hparse : (parseAck ready seg.header.sn).sndBuf = ready.sndBuf ∨
        (parseAck ready seg.header.sn).sndBuf = (ackLoop seg.sn ready.sndBuf).1 := by
      unfold parseAck
      split
      · exact Or.inl rfl
      · exact Or.inr rfl
    refine hcommon.delete ?_ ?_
    · rw [sndBuf_shrinkBuf, ← hbuf]
      rcases hparse with hparse | hparse
      · rw [hparse]
      · rw [hparse]
        exact hsublist
    · intro other hother
      rw [← hbuf] at hother
      rw [sndBuf_shrinkBuf]
      rcases hparse with hparse | hparse
      · rw [hparse]
        exact Or.inl hother
      · rw [hparse]
        rcases hdeleted other hother with hmem | hsn
        · exact Or.inl hmem
        · rw [hsn]
          exact Or.inr (hseg.ack hack)
  · have hbuf : (inputPush (inputCommon inputting.kcp seg.header) seg.header seg.data).sndBuf =
        (inputCommon inputting.kcp seg.header).sndBuf :=
      congrArg Sender.sndBuf (sender_inputPush _ seg.header seg.data)
    refine hcommon.delete ?_ ?_
    · rw [hbuf]
    · rw [hbuf]
      exact fun _ h ↦ Or.inl h
  · exact hcommon
  · exact hcommon

theorem sn_of_content {segs olds : List Ikcpseg}
    (hcontent : segs.map Ikcpseg.content = olds.map Ikcpseg.content) {seg : Ikcpseg}
    (hseg : seg ∈ segs) : ∃ old ∈ olds, old.sn = seg.sn := by
  have hmem : seg.content ∈ olds.map Ikcpseg.content := by
    rw [← hcontent]
    exact List.mem_map_of_mem hseg
  obtain ⟨old, hold, heq⟩ := List.mem_map.mp hmem
  exact ⟨old, hold, congrArg Content.sn heq⟩

/-- A datagram on its way back deletes what is held. -/
theorem Ikcpcb.Keeps.input {kcp : Ikcpcb} {limit : ℕ} (hlimit : limit ≤ bound)
    {receiver : Receiver} {read : List Ikcpseg} (hkeeps : kcp.Keeps limit (receiver.Held read))
    {bytes : List UInt8} (hdatagram : Datagram (Ikcpseg.Replies kcp.conv receiver read) bytes) :
    (input kcp bytes).2.Keeps limit (receiver.Held read) := by
  refine input_datagram_induction (motive := fun next ↦ next.Keeps limit (receiver.Held read))
    hdatagram (fun _ hseg ↦ hseg.readable) hkeeps ?_ ?_ ?_
  · intro inputting seg hnext hseg
    exact hnext.inputSegment hlimit hseg
  · intro next sn hnext
    unfold parseFastack
    split
    · exact hnext
    · constructor
      · intro seg hseg
        obtain ⟨old, hold, hsn⟩ := sn_of_content (content_fastackLoop sn next.sndBuf) hseg
        rw [← hsn]
        exact hnext.1 old hold
      · intro other hother
        refine (hnext.2 other hother).imp_right ?_
        rintro ⟨seg, hseg, rfl⟩
        exact sn_of_content (content_fastackLoop sn next.sndBuf).symm hseg
  · intro next prevUna hnext
    have hbuf : (growWindow next prevUna).sndBuf = next.sndBuf :=
      congrArg Sender.sndBuf (sender_growWindow next prevUna)
    rwa [Ikcpcb.Keeps, hbuf]

/-- `ikcp_flush` keeps the numbers of `snd_buf` and adds the new ones. -/
theorem Flow.sender_flushed {sender receiver : Node} (hflow : Flow sender receiver)
    (hconv : sender.kcp.conv = receiver.kcp.conv) (hsends : sender.Sends) (hframed : sender.Framed)
    {ready : Ikcpcb} (hupdated : ready.updated ≠ 0) (hsender : ready.sender = sender.kcp.sender)
    (hfixed : ready.fixed = sender.kcp.fixed)
    (hsends' : (sender.flushed (flush ready)).Sends)
    (hbound : (sender.flushed (flush ready)).numbered.length ≤ bound) :
    Flow (sender.flushed (flush ready)) receiver := by
  obtain ⟨moved, rest, added, hnumbered, hfixed', -, hsender', hbuf⟩ := flush_spec hupdated
  have hqueue : sender.kcp.sndQueue = moved ++ rest := by
    rw [← hnumbered.queue]
    exact (congrArg Sender.sndQueue hsender).symm
  have hqueue' : (flush ready).2.sndQueue = rest := congrArg Sender.sndQueue hsender'
  have hmoved : sender.kcp.sndQueue.take
      (sender.kcp.sndQueue.length - (flush ready).2.sndQueue.length) = moved := by
    rw [hqueue, hqueue', List.length_append, Nat.add_sub_cancel, List.take_left]
  have hlog : (sender.flushed (flush ready)).numbered =
      sender.numbered ++ moved.map Ikcpseg.fragment := by
    rw [Node.flushed, hmoved]
  have hconv' : (flush ready).2.conv = sender.kcp.conv :=
    congrArg Fixed.conv (hfixed'.trans hfixed)
  have hready : ready.conv = sender.kcp.conv := congrArg Fixed.conv hfixed
  have hsuffix : (flush ready).2.sndQueue <:+ sender.kcp.sndQueue := by
    rw [hqueue, hqueue']
    exact List.suffix_append moved rest
  have hframed' : (sender.flushed (flush ready)).Framed :=
    hframed.flushed hsends' (hfixed'.trans hfixed) hsuffix hfixed (flush_datagrams ready)
  refine hflow.of_sender hconv' hlog ?_ ?_
  · intro bytes hbytes
    refine (List.mem_append.mp hbytes).imp_right fun hnew ↦ ?_
    rw [← hconv, ← hready]
    refine (flush_datagrams ready bytes hnew).mono fun seg hemitted ↦ ?_
    exact carried_of_emitted hsends' hframed' hbound (hconv'.trans hready.symm) hemitted
  · intro sn hsn
    have hold : ready.sndBuf = sender.kcp.sndBuf := congrArg Sender.sndBuf hsender
    have hin : ∀ seg ∈ sender.kcp.sndBuf ++ added,
        ∃ seg' ∈ (flush ready).2.sndBuf, seg'.sn = seg.sn := by
      intro seg hseg
      rw [← hold] at hseg
      exact sn_of_content hbuf.symm hseg
    by_cases hlt : sn.toNat < sender.numbered.length
    · by_cases hmem : ∃ seg ∈ sender.kcp.sndBuf, seg.sn = sn
      · obtain ⟨seg, hseg, rfl⟩ := hmem
        exact Or.inl (hin seg (List.mem_append_left _ hseg))
      · exact Or.inr ⟨hlt, hmem⟩
    · have hnext : ready.sndNxt = UInt32.ofNat sender.numbered.length :=
        (congrArg Sender.sndNxt hsender).trans hsends.next
      have hnew : sn ∈ added.map Ikcpseg.sn := by
        rw [hlog, List.length_append, List.length_map] at hsn
        rw [hnumbered.numbers, hnext, mem_consecutive]
        refine ⟨sn.toNat - sender.numbered.length, by omega, ?_⟩
        rw [← UInt32.ofNat_add, Nat.add_sub_cancel' (Nat.le_of_not_lt hlt), UInt32.ofNat_toNat]
      obtain ⟨seg, hseg, rfl⟩ := List.mem_map.mp hnew
      exact Or.inl (hin seg (List.mem_append_right _ hseg))

/-- A call that leaves numbers, datagrams and `snd_buf` alone. -/
theorem Flow.sender_idle {sender sender' receiver : Node} (hflow : Flow sender receiver)
    (hconv : sender'.kcp.conv = sender.kcp.conv) (hnumbered : sender'.numbered = sender.numbered)
    (hdatagrams : sender'.datagrams = sender.datagrams)
    (hbuf : sender'.kcp.sndBuf = sender.kcp.sndBuf) : Flow sender' receiver := by
  have hsame : sender'.numbered = sender.numbered ++ [] := by rw [hnumbered, List.append_nil]
  refine hflow.of_sender hconv hsame ?_ ?_
  · intro bytes hbytes
    exact Or.inl (hdatagrams ▸ hbytes)
  · intro sn hsn
    rw [hbuf]
    by_cases hmem : ∃ seg ∈ sender.kcp.sndBuf, seg.sn = sn
    · exact Or.inl hmem
    · exact Or.inr ⟨hnumbered ▸ hsn, hmem⟩

theorem flushed_idle (node : Node) {ready : Ikcpcb} (hsender : ready.sender = node.kcp.sender) :
    (node.flushed ([], ready)).numbered = node.numbered ∧
      (node.flushed ([], ready)).datagrams = node.datagrams ∧
      (node.flushed ([], ready)).kcp.sndBuf = node.kcp.sndBuf := by
  have hqueue : ready.sndQueue = node.kcp.sndQueue := congrArg Sender.sndQueue hsender
  have hbuf : ready.sndBuf = node.kcp.sndBuf := congrArg Sender.sndBuf hsender
  refine ⟨?_, List.append_nil _, hbuf⟩
  simp only [Node.flushed, hqueue, Nat.sub_self, List.take_zero, List.map_nil, List.append_nil]

/-- A call brings what the peer has put out. -/
def Call.Arrives (peer : Node) : Call → Prop
  | .input data => data ∈ peer.datagrams
  | _ => True

instance (peer : Node) : DecidablePred (Call.Arrives peer)
  | .input data => inferInstanceAs (Decidable (data ∈ peer.datagrams))
  | .send _ => isTrue trivial
  | .recv _ => isTrue trivial
  | .flush => isTrue trivial
  | .update _ => isTrue trivial
  | .setmtu _ => isTrue trivial
  | .interval _ => isTrue trivial
  | .nodelay _ _ _ _ => isTrue trivial
  | .wndsize _ _ => isTrue trivial

/-- Any call of the sender. -/
theorem Flow.sender_call {sender receiver : Node} (hflow : Flow sender receiver)
    (hconv : sender.kcp.conv = receiver.kcp.conv) (hsends : sender.Sends) (hframed : sender.Framed)
    {call : Call} (harrives : call.Arrives receiver)
    (hbound : (sender.call call).numbered.length ≤ bound) : Flow (sender.call call) receiver := by
  have hconv' := conv_call sender call
  cases call with
  | send buffer =>
    refine hflow.sender_idle hconv' rfl rfl ?_
    change (send sender.kcp buffer).2.sndBuf = sender.kcp.sndBuf
    rw [send_spec]
  | recv len =>
    have hbuf : (recv sender.kcp len).2.2.sndBuf = sender.kcp.sndBuf :=
      congrArg Sender.sndBuf (sender_recv sender.kcp len)
    have hcall : (sender.call (.recv len)).numbered = sender.numbered ∧
        (sender.call (.recv len)).datagrams = sender.datagrams ∧
        (sender.call (.recv len)).kcp.sndBuf = sender.kcp.sndBuf := by
      rw [Node.call]
      split <;> exact ⟨rfl, rfl, hbuf⟩
    exact hflow.sender_idle hconv' hcall.1 hcall.2.1 hcall.2.2
  | input data =>
    have hkeeps : sender.kcp.Keeps sender.numbered.length
        (receiver.kcp.receiver.Held receiver.read) := by
      refine ⟨?_, hflow.kept⟩
      intro seg hseg
      obtain ⟨hlt, -⟩ := List.getElem?_eq_some_iff.mp (hsends.getElem hbound hseg)
      exact hlt
    have hinput := hkeeps.input hbound (hflow.replies data harrives)
    refine ⟨hflow.owns, hflow.carried, ?_, hinput.2⟩
    rw [hconv']
    exact hflow.replies
  | flush =>
    change Flow (sender.flushed (flush sender.kcp)) receiver
    by_cases hupdated : sender.kcp.updated = 0
    · have hidle : flush sender.kcp = ([], sender.kcp) := by rw [flush, if_pos hupdated]
      obtain ⟨hnumbered, hdatagrams, hbuf⟩ := @flushed_idle sender sender.kcp rfl
      rw [hidle]
      exact hflow.sender_idle rfl hnumbered hdatagrams hbuf
    · exact hflow.sender_flushed hconv hsends hframed hupdated rfl rfl (hsends.call .flush) hbound
  | update current =>
    have hsends' := hsends.call (.update current)
    change (sender.flushed (update sender.kcp current)).Sends at hsends'
    change (sender.flushed (update sender.kcp current)).numbered.length ≤ bound at hbound
    change Flow (sender.flushed (update sender.kcp current)) receiver
    obtain ⟨updated, tsFlush, hupdated, hupdate | hupdate⟩ := update_spec sender.kcp current
    · have hclocked : (sender.kcp.clocked current updated tsFlush).sender = sender.kcp.sender := rfl
      obtain ⟨hnumbered, hdatagrams, hbuf⟩ := flushed_idle sender hclocked
      rw [hupdate]
      exact hflow.sender_idle rfl hnumbered hdatagrams hbuf
    · have hready : (sender.kcp.clocked current updated tsFlush).updated ≠ 0 := hupdated
      rw [hupdate] at hsends' hbound ⊢
      exact hflow.sender_flushed hconv hsends hframed hready rfl rfl hsends' hbound
  | setmtu mtu =>
    refine hflow.sender_idle hconv' rfl rfl ?_
    change (setmtu sender.kcp mtu).2.sndBuf = sender.kcp.sndBuf
    unfold setmtu
    split <;> rfl
  | interval time => exact hflow.sender_idle hconv' rfl rfl rfl
  | nodelay delay time resend nc => exact hflow.sender_idle hconv' rfl rfl rfl
  | wndsize sndwnd rcvwnd => exact hflow.sender_idle hconv' rfl rfl rfl

/-! ### Steps of the receiver -/

/-- A call that leaves the receiving part and the datagrams alone. -/
theorem Flow.receiver_idle {sender receiver receiver' : Node} (hflow : Flow sender receiver)
    (hconv : receiver'.kcp.conv = receiver.kcp.conv) (hread : receiver'.read = receiver.read)
    (hreceiver : receiver'.kcp.receiver = receiver.kcp.receiver)
    (hdatagrams : receiver'.datagrams = receiver.datagrams) : Flow sender receiver' := by
  refine hflow.of_receiver hconv ?_ ?_ ?_
  · rw [hreceiver, hread]
    exact hflow.owns
  · rw [hreceiver, hread]
    exact Grows.refl _ _
  · intro bytes hbytes
    exact Or.inl (hdatagrams ▸ hbytes)

/-- `ikcp_flush` reports what is held. -/
theorem Flow.receiver_flushed {sender receiver : Node} (hflow : Flow sender receiver)
    (hconv : sender.kcp.conv = receiver.kcp.conv) (hframed : receiver.Framed) {ready : Ikcpcb}
    (hupdated : ready.updated ≠ 0) (hreceiver : ready.receiver = receiver.kcp.receiver)
    (hfixed : ready.fixed = receiver.kcp.fixed) (hqueue : ready.sndQueue = receiver.kcp.sndQueue)
    (hsends' : (receiver.flushed (flush ready)).Sends)
    (hbound : sender.numbered.length ≤ bound) :
    Flow sender (receiver.flushed (flush ready)) := by
  obtain ⟨moved, rest, added, hnumbered, hfixed', hreceiver', -, -⟩ := flush_spec hupdated
  have hconv' : (flush ready).2.conv = receiver.kcp.conv :=
    congrArg Fixed.conv (hfixed'.trans hfixed)
  have hready : ready.conv = receiver.kcp.conv := congrArg Fixed.conv hfixed
  have howns : ready.receiver.Owns sender.numbered receiver.read := by
    rw [hreceiver]
    exact hflow.owns
  have hframed' : (receiver.flushed (flush ready)).Framed :=
    hframed.flushed hsends' (hfixed'.trans hfixed) (hqueue ▸ flush_queue ready) hfixed
      (flush_datagrams ready)
  have hgrows : Grows receiver.read receiver.kcp.receiver receiver.read
      (flush ready).2.receiver := by
    rw [hreceiver', ← hreceiver]
    exact ⟨Nat.le_refl _, fun _ h ↦ h⟩
  refine hflow.of_receiver hconv' ?_ hgrows ?_
  · change (flush ready).2.receiver.Owns sender.numbered receiver.read
    rw [hreceiver']
    exact ⟨⟨howns.taken.next, howns.taken.received, howns.taken.buffered⟩,
      fun _ hack ↦ absurd hack List.not_mem_nil⟩
  · intro bytes hbytes
    refine (List.mem_append.mp hbytes).imp_right fun hnew ↦ ?_
    refine (flush_datagrams ready bytes hnew).mono fun seg hemitted ↦ ?_
    have hreplies := replies_of_emitted hsends' hframed' (hconv'.trans hready.symm) howns hbound
      hemitted
    rw [hready, ← hconv, hreceiver] at hreplies
    exact hreplies.mono hgrows

/-- Any call of the receiver. -/
theorem Flow.receiver_call {sender receiver : Node} (hflow : Flow sender receiver)
    (hconv : sender.kcp.conv = receiver.kcp.conv) (hsends : receiver.Sends)
    (hframed : receiver.Framed) {call : Call} (harrives : call.Arrives sender)
    (hbound : sender.numbered.length ≤ bound) : Flow sender (receiver.call call) := by
  have hconv' := conv_call receiver call
  cases call with
  | send buffer =>
    refine hflow.receiver_idle hconv' rfl ?_ rfl
    change (send receiver.kcp buffer).2.receiver = receiver.kcp.receiver
    rw [send_spec]
    rfl
  | recv len =>
    rcases recv_spec receiver.kcp len with ⟨code, hcode, hrecv⟩ | ⟨probe, hrecv, -⟩
    · have hcall : receiver.call (.recv len) = receiver := by
        rw [Node.call, hrecv, if_neg (fun h ↦ absurd h.1 (not_le.mpr hcode))]
      rw [hcall]
      exact hflow
    · obtain ⟨howns, hgrows⟩ := hflow.owns.recv hbound len
      have hcall : (receiver.call (.recv len)).kcp.receiver =
            (moveAvailable (takeFragments receiver.kcp len)).receiver ∧
          (receiver.call (.recv len)).read =
            (if len < 0 then receiver.read
              else receiver.read ++ (mergeLoop receiver.kcp.rcvQueue).1) ∧
          (receiver.call (.recv len)).datagrams = receiver.datagrams := by
        rw [Node.call, hrecv]
        by_cases hlen : len < 0
        · rw [if_neg (fun h ↦ absurd h.2 (not_le.mpr hlen)), if_pos hlen]
          exact ⟨rfl, rfl, rfl⟩
        · rw [if_pos ⟨Int.natCast_nonneg _, not_lt.mp hlen⟩, if_neg hlen]
          exact ⟨rfl, rfl, rfl⟩
      obtain ⟨hreceiver, hread, hdatagrams⟩ := hcall
      refine hflow.of_receiver hconv' ?_ ?_ ?_
      · rw [hreceiver, hread]
        exact howns
      · rw [hreceiver, hread]
        exact hgrows
      · intro bytes hbytes
        exact Or.inl (hdatagrams ▸ hbytes)
  | input data =>
    obtain ⟨howns, hgrows⟩ := hflow.owns.input hbound (hflow.carried data harrives)
    exact hflow.of_receiver hconv' howns hgrows fun _ hbytes ↦ Or.inl hbytes
  | flush =>
    change Flow sender (receiver.flushed (flush receiver.kcp))
    by_cases hupdated : receiver.kcp.updated = 0
    · have hidle : flush receiver.kcp = ([], receiver.kcp) := by rw [flush, if_pos hupdated]
      obtain ⟨-, hdatagrams, -⟩ := @flushed_idle receiver receiver.kcp rfl
      rw [hidle]
      exact hflow.receiver_idle rfl rfl rfl hdatagrams
    · exact hflow.receiver_flushed hconv hframed hupdated rfl rfl rfl (hsends.call .flush) hbound
  | update current =>
    have hsends' := hsends.call (.update current)
    change (receiver.flushed (update receiver.kcp current)).Sends at hsends'
    change Flow sender (receiver.flushed (update receiver.kcp current))
    obtain ⟨updated, tsFlush, hupdated, hupdate | hupdate⟩ := update_spec receiver.kcp current
    · have hclocked : (receiver.kcp.clocked current updated tsFlush).sender =
        receiver.kcp.sender := rfl
      obtain ⟨-, hdatagrams, -⟩ := flushed_idle receiver hclocked
      rw [hupdate]
      exact hflow.receiver_idle rfl rfl rfl hdatagrams
    · have hready : (receiver.kcp.clocked current updated tsFlush).updated ≠ 0 := hupdated
      rw [hupdate] at hsends' ⊢
      exact hflow.receiver_flushed hconv hframed hready rfl rfl rfl hsends' hbound
  | setmtu mtu =>
    refine hflow.receiver_idle hconv' rfl ?_ rfl
    change (setmtu receiver.kcp mtu).2.receiver = receiver.kcp.receiver
    unfold setmtu
    split <;> rfl
  | interval time => exact hflow.receiver_idle hconv' rfl rfl rfl
  | nodelay delay time resend nc => exact hflow.receiver_idle hconv' rfl rfl rfl
  | wndsize sndwnd rcvwnd =>
    refine hflow.of_receiver hconv' ?_ ?_ fun _ hbytes ↦ Or.inl hbytes
    · obtain ⟨htaken, hacks⟩ := hflow.owns
      exact ⟨⟨htaken.next, htaken.received, htaken.buffered⟩, hacks⟩
    · exact ⟨Nat.le_refl _, fun _ h ↦ h⟩

/-! ### Both directions -/

/-- Two control blocks of one conversation. -/
structure Link where
  first : Node
  second : Node

/-- A call at one of the two. -/
inductive Link.Event where
  | first (call : Call)
  | second (call : Call)

/-- A call is possible unless it brings a datagram that the other side has never put out, or changes
the `mtu` without leaving room for what is queued. -/
def Link.step (link : Link) : Link.Event → Option Link
  | .first call =>
    if call.Arrives link.second ∧ call.Keeps link.first then
      some { link with first := link.first.call call }
    else none
  | .second call =>
    if call.Arrives link.first ∧ call.Keeps link.second then
      some { link with second := link.second.call call }
    else none

/-- Two new control blocks. -/
def Link.start (conv : UInt32) (stream : Int32) : Link :=
  ⟨Node.start conv stream, Node.start conv stream⟩

/-- Neither side has numbered more segments than half of the range. -/
def Link.Short (link : Link) : Prop :=
  link.first.numbered.length ≤ bound ∧ link.second.numbered.length ≤ bound

/-- The invariant of the two sides. -/
structure Link.Valid (link : Link) : Prop where
  conv : link.first.kcp.conv = link.second.kcp.conv
  sends : link.first.Sends ∧ link.second.Sends
  framed : link.first.Framed ∧ link.second.Framed
  flows : link.Short → Flow link.first link.second ∧ Flow link.second link.first

theorem length_numbered_call (node : Node) (call : Call) :
    node.numbered.length ≤ (node.call call).numbered.length := by
  cases call with
  | recv len =>
    rw [Node.call]
    split <;> exact Nat.le_refl _
  | flush =>
    change node.numbered.length ≤ (node.flushed _).numbered.length
    rw [Node.flushed, List.length_append]
    exact Nat.le_add_right _ _
  | update current =>
    change node.numbered.length ≤ (node.flushed _).numbered.length
    rw [Node.flushed, List.length_append]
    exact Nat.le_add_right _ _
  | _ => exact Nat.le_refl _

theorem flow_start (conv : UInt32) (stream : Int32) :
    Flow (Node.start conv stream) (Node.start conv stream) :=
  ⟨⟨⟨rfl, List.nil_prefix, fun _ h ↦ absurd h List.not_mem_nil⟩,
      fun _ h ↦ absurd h List.not_mem_nil⟩,
    fun _ h ↦ absurd h List.not_mem_nil, fun _ h ↦ absurd h List.not_mem_nil,
    fun _ h ↦ absurd h (Nat.not_lt_zero _)⟩

theorem link_valid_start (conv : UInt32) (stream : Int32) : (Link.start conv stream).Valid :=
  ⟨rfl, ⟨sends_start conv stream, sends_start conv stream⟩,
    ⟨framed_start conv stream, framed_start conv stream⟩,
    fun _ ↦ ⟨flow_start conv stream, flow_start conv stream⟩⟩

theorem Link.Valid.step {link next : Link} {event : Link.Event} (hvalid : link.Valid)
    (hstep : link.step event = some next) : next.Valid := by
  obtain ⟨hconv, ⟨hsends, hsends'⟩, ⟨hframed, hframed'⟩, hflows⟩ := hvalid
  cases event with
  | first call =>
    rw [Link.step, Option.ite_none_right_eq_some] at hstep
    obtain ⟨⟨harrives, -⟩, hnext⟩ := hstep
    obtain rfl := Option.some.inj hnext
    refine ⟨(conv_call link.first call).trans hconv, ⟨hsends.call call, hsends'⟩,
      ⟨hframed.call hsends call, hframed'⟩, ?_⟩
    rintro ⟨hshort, hshort'⟩
    obtain ⟨hforth, hback⟩ :=
      hflows ⟨Nat.le_trans (length_numbered_call link.first call) hshort, hshort'⟩
    exact ⟨hforth.sender_call hconv hsends hframed harrives hshort,
      hback.receiver_call hconv.symm hsends hframed harrives hshort'⟩
  | second call =>
    rw [Link.step, Option.ite_none_right_eq_some] at hstep
    obtain ⟨⟨harrives, -⟩, hnext⟩ := hstep
    obtain rfl := Option.some.inj hnext
    refine ⟨hconv.trans (conv_call link.second call).symm, ⟨hsends, hsends'.call call⟩,
      ⟨hframed, hframed'.call hsends' call⟩, ?_⟩
    rintro ⟨hshort, hshort'⟩
    obtain ⟨hforth, hback⟩ :=
      hflows ⟨hshort, Nat.le_trans (length_numbered_call link.second call) hshort'⟩
    exact ⟨hforth.receiver_call hconv hsends' hframed' harrives hshort,
      hback.sender_call hconv.symm hsends' hframed' harrives hshort'⟩

theorem link_valid_run {conv : UInt32} {stream : Int32} {events : List Link.Event} {link : Link}
    (hrun : Runs.run Link.step (Link.start conv stream) events = some link) : link.Valid :=
  Runs.run_invariant (fun _ _ _ hvalid hstep ↦ hvalid.step hstep) (link_valid_start conv stream)
    hrun

theorem Flow.kept_fragment {sender receiver : Node} (hflow : Flow sender receiver)
    (hsends : sender.Sends) (hbound : sender.numbered.length ≤ bound) (sn : UInt32)
    (hsn : sn.toNat < sender.numbered.length) :
    receiver.kcp.receiver.Held receiver.read sn ∨ ∃ seg ∈ sender.kcp.sndBuf, seg.sn = sn ∧
      sender.numbered[sn.toNat]? = some seg.fragment := by
  refine (hflow.kept sn hsn).imp_right ?_
  rintro ⟨seg, hseg, rfl⟩
  exact ⟨seg, hseg, rfl, hsends.getElem hbound hseg⟩

/-- Whatever the network does: what a side has received in order are the first fragments that the
other side has numbered, and every fragment that has been numbered has been received or can still be
sent again. Assumes: neither side numbers more than half of the range of sequence numbers. -/
theorem nothing_lost_run {conv : UInt32} {stream : Int32} {events : List Link.Event} {link : Link}
    (hrun : Runs.run Link.step (Link.start conv stream) events = some link) (hshort : link.Short) :
    ((link.second.kcp.receiver.inOrder link.second.read).map Ikcpseg.fragment <+:
        link.first.numbered ∧
      ∀ sn : UInt32, sn.toNat < link.first.numbered.length →
        link.second.kcp.receiver.Held link.second.read sn ∨
          ∃ seg ∈ link.first.kcp.sndBuf, seg.sn = sn ∧
            link.first.numbered[sn.toNat]? = some seg.fragment) ∧
    ((link.first.kcp.receiver.inOrder link.first.read).map Ikcpseg.fragment <+:
        link.second.numbered ∧
      ∀ sn : UInt32, sn.toNat < link.second.numbered.length →
        link.first.kcp.receiver.Held link.first.read sn ∨
          ∃ seg ∈ link.second.kcp.sndBuf, seg.sn = sn ∧
            link.second.numbered[sn.toNat]? = some seg.fragment) := by
  have hvalid := link_valid_run hrun
  obtain ⟨hforth, hback⟩ := hvalid.flows hshort
  exact ⟨⟨hforth.owns.taken.received, hforth.kept_fragment hvalid.sends.1 hshort.1⟩,
    ⟨hback.owns.taken.received, hback.kept_fragment hvalid.sends.2 hshort.2⟩⟩

/-- A message is sent, and its datagram is lost. -/
def unanswered : List Link.Event :=
  [.first (.nodelay 1 10 2 1), .first (.send [1, 2, 3]), .first (.update 0)]

theorem nothing_lost_unanswered :
    ∃ link, Runs.run Link.step (Link.start 1 0) unanswered = some link ∧
      link.first.numbered = [(0, [1, 2, 3])] ∧
      (link.second.kcp.receiver.Held link.second.read 0 ∨
        ∃ seg ∈ link.first.kcp.sndBuf, seg.sn = 0 ∧
          link.first.numbered[(0 : UInt32).toNat]? = some seg.fragment) := by
  have hview : (Runs.run Link.step (Link.start 1 0) unanswered).map (fun link ↦
      (link.first.numbered, link.second.numbered.length)) = some ([(0, [1, 2, 3])], 0) := by
    decide +kernel
  obtain ⟨link, hrun, hseen⟩ := Runs.exists_of_view hview
  simp only [Prod.mk.injEq] at hseen
  obtain ⟨hfirst, hsecond⟩ := hseen
  have hshort : link.Short := by
    refine ⟨?_, ?_⟩
    · rw [hfirst]
      decide
    · rw [hsecond]
      decide
  refine ⟨link, hrun, hfirst, (nothing_lost_run hrun hshort).1.2 0 ?_⟩
  rw [hfirst]
  decide

end TestLinux.Ikcp
