import TestLinux.Ikcp.Datagrams

/-!
# Fragments and the datagrams that carry them

`ikcp_send` cuts a buffer into fewer than 128 fragments of at most `mss` bytes. So every fragment
number fits into the byte that it has on the wire, every length is that of the data, and what
`ikcp_flush` writes can be read back: `accepted_datagrams_run` is about all runs, whatever arrives.

`Ikcpcb.Roomy` says that the segments that are queued fit into the `mtu`. Every call of a run keeps
it, so no datagram is longer than the `mtu` (`length_datagrams_run`), and what is written into the
buffer of `(mtu + 24) * 3` bytes fits into it.
-/

set_option autoImplicit false
set_option relaxedAutoImplicit false

namespace TestLinux.Ikcp

open TestLinux.Serial

/-! ### `ikcp_send` -/

/-- A fragment as `ikcp_send` makes it. -/
structure Ikcpseg.Fragment (mss : ℕ) (seg : Ikcpseg) : Prop where
  frg : seg.frg.toNat < 128
  length : seg.data.length ≤ mss

theorem mem_fragmentLoop {mss : ℕ} {stream : Int32} {left : ℕ} {buffer : List UInt8}
    (hleft : left ≤ 128) {seg : Ikcpseg} (hseg : seg ∈ fragmentLoop mss stream left buffer) :
    seg.Fragment mss := by
  induction left generalizing buffer with
  | zero => cases hseg
  | succ left ih =>
    rw [fragmentLoop] at hseg
    rcases List.mem_cons.mp hseg with rfl | hseg
    · constructor
      · change (if stream = 0 then UInt32.ofNat left else 0).toNat < 128
        split
        · rw [toNat_ofNat_of_lt (by omega)]
          omega
        · decide
      · exact List.length_take_le mss buffer
    · exact ih (Nat.le_of_succ_le hleft) hseg

theorem mem_appendLast {mss : ℕ} {queue : List Ikcpseg} {buffer : List UInt8} {seg : Ikcpseg}
    (hseg : seg ∈ appendLast mss queue buffer) : seg ∈ queue ∨ seg.Fragment mss := by
  unfold appendLast at hseg
  split at hseg
  · exact Or.inl hseg
  · rename_i old hold
    split at hseg
    · rename_i hshort
      rcases List.mem_append.mp hseg with hseg | hseg
      · exact Or.inl (List.dropLast_subset queue hseg)
      · obtain rfl := List.mem_singleton.mp hseg
        refine Or.inr ⟨Nat.zero_lt_succ 127, ?_⟩
        change (old.data ++ buffer.take (extend mss queue buffer)).length ≤ mss
        simp only [extend, hold, List.length_append, List.length_take]
        omega
    · exact Or.inl hseg

theorem mem_sendRest {kcp : Ikcpcb} {buffer : List UInt8} {seg : Ikcpseg}
    (hseg : seg ∈ (sendRest kcp buffer).2.sndQueue) :
    seg ∈ kcp.sndQueue ∨ seg.Fragment kcp.mss.toNat := by
  simp only [sendRest] at hseg
  split at hseg
  · exact Or.inl hseg
  · rename_i hcount
    have hlt : fragmentCount kcp.mss.toNat buffer.length < 128 := Nat.lt_of_not_le hcount
    refine (List.mem_append.mp hseg).imp_right fun hnew ↦ mem_fragmentLoop ?_ hnew
    split <;> omega

/-- What `ikcp_send` puts into `snd_queue`. -/
theorem mem_send {kcp : Ikcpcb} {buffer : List UInt8} {seg : Ikcpseg}
    (hseg : seg ∈ (send kcp buffer).2.sndQueue) :
    seg ∈ kcp.sndQueue ∨ seg.Fragment kcp.mss.toNat := by
  simp only [send] at hseg
  split_ifs at hseg
  · exact Or.inl hseg
  · exact mem_appendLast hseg
  · rcases mem_sendRest hseg with hseg | hseg
    · exact mem_appendLast hseg
    · exact Or.inr hseg
  · exact mem_sendRest hseg

/-! ### What is queued -/

/-- All fragments so far: those that are numbered and those that wait. -/
def Node.queued (node : Node) : List (UInt32 × List UInt8) :=
  node.numbered ++ node.kcp.sndQueue.map Ikcpseg.fragment

theorem flush_queue (kcp : Ikcpcb) : (flush kcp).2.sndQueue <:+ kcp.sndQueue := by
  by_cases hupdated : kcp.updated = 0
  · have hidle : (flush kcp).2.sndQueue = kcp.sndQueue := by rw [flush, if_pos hupdated]
    exact ⟨[], hidle⟩
  · obtain ⟨moved, rest, added, hnumbered, -, -, hsender, -⟩ := flush_spec hupdated
    have hqueue : (flush kcp).2.sndQueue = rest := congrArg Sender.sndQueue hsender
    rw [hqueue, hnumbered.queue]
    exact List.suffix_append moved rest

theorem update_queue (kcp : Ikcpcb) (current : UInt32) :
    (update kcp current).2.sndQueue <:+ kcp.sndQueue := by
  obtain ⟨updated, tsFlush, -, hupdate | hupdate⟩ := update_spec kcp current
  · rw [hupdate]
    exact List.suffix_rfl
  · rw [hupdate]
    exact flush_queue (kcp.clocked current updated tsFlush)

/-- Numbering moves fragments within what is queued. -/
theorem Node.queued_flushed {node : Node} {result : List (List UInt8) × Ikcpcb}
    (hsuffix : result.2.sndQueue <:+ node.kcp.sndQueue) :
    (node.flushed result).queued = node.queued := by
  obtain ⟨moved, hmoved⟩ := hsuffix
  unfold Node.queued Node.flushed
  rw [← hmoved, List.length_append, Nat.add_sub_cancel, List.take_left, List.append_assoc,
    ← List.map_append]

/-- The parameters and the fragments are within their bounds, and the datagrams can be read. -/
structure Node.Framed (node : Node) : Prop where
  mss : node.kcp.mss.toNat + overhead = node.kcp.mtu.toNat
  mtu : 50 ≤ node.kcp.mtu.toNat
  mtu_lt : node.kcp.mtu.toNat < 2147483648
  fragments : ∀ fragment ∈ node.queued, fragment.1.toNat < 128 ∧ fragment.2.length < 2147483648
  datagrams : ∀ bytes ∈ node.datagrams, Datagram (Ikcpseg.Readable node.kcp.conv) bytes

theorem Node.Framed.of_eq {node next : Node} (hframed : node.Framed)
    (hfixed : next.kcp.fixed = node.kcp.fixed)
    (hqueued : ∀ fragment ∈ next.queued, fragment ∈ node.queued)
    (hdatagrams : ∀ bytes ∈ next.datagrams, bytes ∈ node.datagrams ∨
      Datagram (Ikcpseg.Readable node.kcp.conv) bytes) : next.Framed := by
  have hmss : next.kcp.mss = node.kcp.mss := congrArg Fixed.mss hfixed
  have hmtu : next.kcp.mtu = node.kcp.mtu := congrArg Fixed.mtu hfixed
  have hconv : next.kcp.conv = node.kcp.conv := congrArg Fixed.conv hfixed
  refine ⟨?_, ?_, ?_, fun fragment hfragment ↦ hframed.fragments fragment
    (hqueued fragment hfragment), ?_⟩
  · rw [hmss, hmtu]
    exact hframed.mss
  · rw [hmtu]
    exact hframed.mtu
  · rw [hmtu]
    exact hframed.mtu_lt
  · intro bytes hbytes
    rw [hconv]
    rcases hdatagrams bytes hbytes with hbytes | hbytes
    · exact hframed.datagrams bytes hbytes
    · exact hbytes

/-- The segments that are written can be read. -/
theorem readable_of_emitted {kcp : Ikcpcb} {node : Node} (hsends : node.Sends)
    (hframed : ∀ fragment ∈ node.queued, fragment.2.length < 2147483648)
    (hconv : node.kcp.conv = kcp.conv) {seg : Ikcpseg}
    (hemitted : Emitted kcp node.kcp.sndBuf seg) : seg.Readable kcp.conv := by
  rcases hemitted.kind with ⟨hconv', hfragment, hkind⟩ | hmem
  · have hdata : seg.data = [] := congrArg Prod.snd hfragment
    refine ⟨hconv', ?_, by rw [hdata]; decide⟩
    rcases hkind with ⟨hcmd, -⟩ | hcmd | hcmd
    all_goals rw [hcmd]; decide
  · obtain ⟨hconv', hcmd, hfragment⟩ := hsends.content seg hmem
    refine ⟨hconv'.trans hconv, by rw [hcmd]; decide, ?_⟩
    exact hframed seg.fragment (List.mem_append_left _ (List.mem_of_getElem? hfragment))

/-- What `ikcp_flush` and `ikcp_update` write. -/
theorem datagrams_update {kcp : Ikcpcb} (current : UInt32) :
    ∃ ready, ready.rcvNxt = kcp.rcvNxt ∧ ready.fixed = kcp.fixed ∧
      ready.receiver = kcp.receiver ∧
      ∀ bytes ∈ (update kcp current).1,
        Datagram (Emitted ready (update kcp current).2.sndBuf) bytes := by
  obtain ⟨updated, tsFlush, -, hupdate | hupdate⟩ := update_spec kcp current
  · rw [hupdate]
    exact ⟨kcp, rfl, rfl, rfl, fun _ hbytes ↦ absurd hbytes List.not_mem_nil⟩
  · rw [hupdate]
    exact ⟨kcp.clocked current updated tsFlush, rfl, rfl, rfl, flush_datagrams _⟩

theorem Node.Framed.flushed {node : Node} (hframed : node.Framed)
    {result : List (List UInt8) × Ikcpcb} (hsends : (node.flushed result).Sends)
    (hfixed : result.2.fixed = node.kcp.fixed) (hsuffix : result.2.sndQueue <:+ node.kcp.sndQueue)
    {ready : Ikcpcb} (hready : ready.fixed = node.kcp.fixed)
    (hdatagrams : ∀ bytes ∈ result.1, Datagram (Emitted ready result.2.sndBuf) bytes) :
    (node.flushed result).Framed := by
  have hqueued := Node.queued_flushed hsuffix
  have hconv : ready.conv = node.kcp.conv := congrArg Fixed.conv hready
  have hconv' : result.2.conv = ready.conv :=
    (congrArg Fixed.conv hfixed).trans hconv.symm
  refine hframed.of_eq hfixed (fun fragment hfragment ↦ hqueued ▸ hfragment) ?_
  intro bytes hbytes
  refine (List.mem_append.mp hbytes).imp_right fun hnew ↦ ?_
  rw [← hconv]
  refine (hdatagrams bytes hnew).mono fun seg hemitted ↦ ?_
  refine readable_of_emitted hsends ?_ hconv' hemitted
  intro fragment hfragment
  rw [hqueued] at hfragment
  exact (hframed.fragments fragment hfragment).2

theorem setmtu_bounds {mtu : Int32} (hmtu : ¬ (mtu < 50 ∨ mtu < 24)) :
    (mtu.toUInt32 - 24).toNat + overhead = mtu.toUInt32.toNat ∧ 50 ≤ mtu.toUInt32.toNat ∧
      mtu.toUInt32.toNat < 2147483648 := by
  have hge : 50 ≤ mtu := Int32.not_lt.mp fun hlt ↦ hmtu (Or.inl hlt)
  have hint : (50 : ℤ) ≤ mtu.toInt := Int32.le_iff_toInt_le.mp hge
  have hpos : 0 < mtu := Int32.lt_iff_toInt_lt.mpr (lt_of_lt_of_le (by decide) hint)
  have hnat := toNat_toUInt32 hpos
  have hlt := mtu.toInt_lt
  have hsub : (mtu.toUInt32 - 24).toNat = mtu.toUInt32.toNat - 24 := by
    refine UInt32.toNat_sub_of_le _ _ (UInt32.le_iff_toNat_le.mpr ?_)
    change 24 ≤ mtu.toUInt32.toNat
    omega
  rw [hsub, overhead]
  omega

theorem Node.Framed.call {node : Node} (hsends : node.Sends) (hframed : node.Framed)
    (call : Call) : (node.call call).Framed := by
  cases call with
  | send buffer =>
    have hspec := send_spec node.kcp buffer
    have hfixed : (send node.kcp buffer).2.fixed = node.kcp.fixed := by
      rw [hspec]
      rfl
    have hmss : (send node.kcp buffer).2.mss = node.kcp.mss := congrArg Fixed.mss hfixed
    have hmtu : (send node.kcp buffer).2.mtu = node.kcp.mtu := congrArg Fixed.mtu hfixed
    have hconv : (send node.kcp buffer).2.conv = node.kcp.conv := congrArg Fixed.conv hfixed
    refine ⟨?_, ?_, ?_, ?_, ?_⟩
    · change (send node.kcp buffer).2.mss.toNat + overhead = (send node.kcp buffer).2.mtu.toNat
      rw [hmss, hmtu]
      exact hframed.mss
    · change 50 ≤ (send node.kcp buffer).2.mtu.toNat
      rw [hmtu]
      exact hframed.mtu
    · change (send node.kcp buffer).2.mtu.toNat < 2147483648
      rw [hmtu]
      exact hframed.mtu_lt
    · intro fragment hfragment
      rcases List.mem_append.mp hfragment with hfragment | hfragment
      · exact hframed.fragments fragment (List.mem_append_left _ hfragment)
      · obtain ⟨seg, hseg, rfl⟩ := List.mem_map.mp hfragment
        rcases mem_send hseg with hseg | hseg
        · exact hframed.fragments _ (List.mem_append_right _ (List.mem_map_of_mem hseg))
        · have hlength : seg.data.length ≤ node.kcp.mss.toNat := hseg.length
          have hmss' := hframed.mss
          have hlt := hframed.mtu_lt
          exact ⟨hseg.frg, by change seg.data.length < _; omega⟩
    · intro bytes hbytes
      change Datagram (Ikcpseg.Readable (send node.kcp buffer).2.conv) bytes
      rw [hconv]
      exact hframed.datagrams bytes hbytes
  | recv len =>
    have hqueue : (recv node.kcp len).2.2.sndQueue = node.kcp.sndQueue :=
      congrArg Sender.sndQueue (sender_recv node.kcp len)
    rw [Node.call]
    split
    all_goals
      refine hframed.of_eq (fixed_recv node.kcp len) ?_ (fun bytes hbytes ↦ Or.inl hbytes)
      intro fragment hfragment
      rw [Node.queued, hqueue] at hfragment
      exact hfragment
  | input data =>
    have hqueue : (input node.kcp data).2.sndQueue = node.kcp.sndQueue :=
      congrArg Prod.fst (waiting_input node.kcp data)
    refine hframed.of_eq (fixed_input node.kcp data) ?_ (fun bytes hbytes ↦ Or.inl hbytes)
    intro fragment hfragment
    rw [Node.queued, Node.call, hqueue] at hfragment
    exact hfragment
  | flush =>
    exact hframed.flushed (hsends.call .flush) (fixed_flush node.kcp) (flush_queue node.kcp) rfl
      (flush_datagrams node.kcp)
  | update current =>
    obtain ⟨ready, -, hready, -, hdatagrams⟩ := @datagrams_update node.kcp current
    exact hframed.flushed (hsends.call (.update current)) (fixed_update node.kcp current)
      (update_queue node.kcp current) hready hdatagrams
  | setmtu mtu =>
    change Node.Framed { node with kcp := (setmtu node.kcp mtu).2 }
    unfold setmtu
    split
    · exact hframed
    · rename_i hmtu
      obtain ⟨hmss, hge, hlt⟩ := setmtu_bounds hmtu
      exact ⟨hmss, hge, hlt, hframed.fragments, hframed.datagrams⟩
  | interval time => exact hframed.of_eq rfl (fun _ h ↦ h) (fun _ h ↦ Or.inl h)
  | nodelay delay time resend nc => exact hframed.of_eq rfl (fun _ h ↦ h) (fun _ h ↦ Or.inl h)
  | wndsize sndwnd rcvwnd => exact hframed.of_eq rfl (fun _ h ↦ h) (fun _ h ↦ Or.inl h)

theorem framed_start (conv : UInt32) (stream : Int32) : (Node.start conv stream).Framed := by
  have hmss : (mtuDef - 24).toNat + overhead = mtuDef.toNat := by decide
  have hmtu : 50 ≤ mtuDef.toNat := by decide
  have hlt : mtuDef.toNat < 2147483648 := by decide
  exact ⟨hmss, hmtu, hlt, fun _ h ↦ absurd h List.not_mem_nil, fun _ h ↦ absurd h List.not_mem_nil⟩

theorem framed_run {conv : UInt32} {stream : Int32} {calls : List Call} {node : Node}
    (hrun : Runs.run Node.step (Node.start conv stream) calls = some node) : node.Framed := by
  have hboth : node.Sends ∧ node.Framed := by
    refine Node.step_induction (motive := fun node ↦ node.Sends ∧ node.Framed) hrun
      ⟨sends_start conv stream, framed_start conv stream⟩ ?_
    intro node call _ hnode
    exact ⟨hnode.1.call call, hnode.2.call hnode.1 call⟩
  exact hboth.2

theorem conv_call (node : Node) (call : Call) : (node.call call).kcp.conv = node.kcp.conv := by
  by_cases hcall : call.KeepsMtu
  · exact congrArg Fixed.conv (fixed_call node hcall)
  · cases call with
    | setmtu mtu =>
      change (setmtu node.kcp mtu).2.conv = node.kcp.conv
      unfold setmtu
      split <;> rfl
    | _ => exact absurd trivial hcall

theorem conv_run {conv : UInt32} {stream : Int32} {calls : List Call} {node : Node}
    (hrun : Runs.run Node.step (Node.start conv stream) calls = some node) :
    node.kcp.conv = conv := by
  refine Node.step_induction (motive := fun node ↦ node.kcp.conv = conv) hrun rfl ?_
  intro node call _ hconv
  exact (conv_call node call).trans hconv

/-- Whatever has arrived and been called, every datagram that a control block has put out is
accepted by every control block of the same conversation. -/
theorem accepted_datagrams_run {conv : UInt32} {stream : Int32} {calls : List Call} {node : Node}
    (hrun : Runs.run Node.step (Node.start conv stream) calls = some node)
    {bytes : List UInt8} (hbytes : bytes ∈ node.datagrams) {kcp : Ikcpcb}
    (hconv : kcp.conv = conv) : (input kcp bytes).1 = 0 := by
  have hdatagram := (framed_run hrun).datagrams bytes hbytes
  rw [conv_run hrun, ← hconv] at hdatagram
  exact input_datagram hdatagram

theorem accepted_datagrams_hello :
    ∃ node, Runs.run Node.step (Node.start 1 0)
        [.nodelay 1 10 2 1, .send [104, 105], .update 0] = some node ∧
      node.datagrams = [[1, 0, 0, 0, 81, 0, 128, 0, 0, 0, 0, 0, 0, 0, 0, 0, 0, 0, 0, 0, 2, 0, 0, 0,
        104, 105]] ∧
      ∀ bytes ∈ node.datagrams, (input (create 1) bytes).1 = 0 := by
  have hview : (Runs.run Node.step (Node.start 1 0)
      [.nodelay 1 10 2 1, .send [104, 105], .update 0]).map Node.datagrams =
        some [[1, 0, 0, 0, 81, 0, 128, 0, 0, 0, 0, 0, 0, 0, 0, 0, 0, 0, 0, 0, 2, 0, 0, 0, 104,
          105]] := by decide +kernel
  obtain ⟨node, hrun, hseen⟩ := Runs.exists_of_view hview
  exact ⟨node, hrun, hseen, fun bytes hbytes ↦ accepted_datagrams_run hrun hbytes rfl⟩

/-! ### Sizes -/

/-- The data of the segments of one control block are found in another. -/
def Ikcpcb.Covers (kcp next : Ikcpcb) : Prop :=
  ∀ seg ∈ next.sndQueue ++ next.sndBuf, ∃ old ∈ kcp.sndQueue ++ kcp.sndBuf, old.data = seg.data

theorem Ikcpcb.Covers.fits {kcp next : Ikcpcb} (hcovers : kcp.Covers next) {mtu : ℕ}
    (hfits : kcp.Fits mtu) : next.Fits mtu := by
  intro seg hseg
  obtain ⟨old, hold, hdata⟩ := hcovers seg hseg
  rw [← hdata]
  exact hfits old hold

theorem exists_data_of_content {segs olds : List Ikcpseg}
    (hcontent : segs.map Ikcpseg.content = olds.map Ikcpseg.content) {seg : Ikcpseg}
    (hseg : seg ∈ segs) : ∃ old ∈ olds, old.data = seg.data := by
  have hmem : seg.content ∈ olds.map Ikcpseg.content := by
    rw [← hcontent]
    exact List.mem_map_of_mem hseg
  obtain ⟨old, hold, heq⟩ := List.mem_map.mp hmem
  exact ⟨old, hold, congrArg Content.data heq⟩

theorem covers_flush (kcp : Ikcpcb) : kcp.Covers (flush kcp).2 := by
  by_cases hupdated : kcp.updated = 0
  · rw [flush, if_pos hupdated]
    exact fun seg hseg ↦ ⟨seg, hseg, rfl⟩
  · obtain ⟨moved, rest, added, hnumbered, -, -, hsender, hbuf⟩ := flush_spec hupdated
    have hqueue : (flush kcp).2.sndQueue = rest := congrArg Sender.sndQueue hsender
    intro seg hseg
    rw [hnumbered.queue]
    rw [hqueue] at hseg
    rcases List.mem_append.mp hseg with hseg | hseg
    · exact ⟨seg, List.mem_append_left _ (List.mem_append_right _ hseg), rfl⟩
    · obtain ⟨middle, hmiddle, hdata⟩ := exists_data_of_content hbuf hseg
      rcases List.mem_append.mp hmiddle with hmiddle | hmiddle
      · exact ⟨middle, List.mem_append_right _ hmiddle, hdata⟩
      · have hmem : middle.fragment ∈ moved.map Ikcpseg.fragment := by
          rw [← hnumbered.fragments]
          exact List.mem_map_of_mem hmiddle
        obtain ⟨old, hold, heq⟩ := List.mem_map.mp hmem
        exact ⟨old, List.mem_append_left _ (List.mem_append_left _ hold),
          (congrArg Prod.snd heq).trans hdata⟩

theorem covers_update (kcp : Ikcpcb) (current : UInt32) : kcp.Covers (update kcp current).2 := by
  obtain ⟨updated, tsFlush, -, hupdate | hupdate⟩ := update_spec kcp current
  · rw [hupdate]
    exact fun seg hseg ↦ ⟨seg, hseg, rfl⟩
  · rw [hupdate]
    exact covers_flush (kcp.clocked current updated tsFlush)

theorem sndBuf_shrinkBuf (kcp : Ikcpcb) : (shrinkBuf kcp).sndBuf = kcp.sndBuf :=
  congrArg Sender.sndBuf (sender_shrinkBuf kcp)

theorem sndBuf_inputCommon (kcp : Ikcpcb) (header : Header) :
    (inputCommon kcp header).sndBuf = (unaLoop header.una kcp.sndBuf).1 := sndBuf_shrinkBuf _

theorem sndBuf_inputSegment_common (inputting : Inputting) (header : Header) (data : List UInt8) :
    (inputSegment inputting header data).kcp.sndBuf.Sublist
      (inputCommon inputting.kcp header).sndBuf := by
  simp only [inputSegment]
  split_ifs
  · simp only [inputAck, sndBuf_shrinkBuf]
    unfold parseAck
    split_ifs
    all_goals first
      | exact List.Sublist.refl _
      | exact (ackLoop_spec header.sn (inputCommon inputting.kcp header).sndBuf).1
  · have hpush : (inputPush (inputCommon inputting.kcp header) header data).sndBuf = _ :=
      congrArg Sender.sndBuf (sender_inputPush (inputCommon inputting.kcp header) header data)
    rw [hpush]
    exact List.Sublist.refl _
  · exact List.Sublist.refl _
  · exact List.Sublist.refl _

/-- What arrives only takes segments out of `snd_buf`. -/
theorem sndBuf_inputSegment (inputting : Inputting) (header : Header) (data : List UInt8) :
    (inputSegment inputting header data).kcp.sndBuf.Sublist inputting.kcp.sndBuf := by
  refine (sndBuf_inputSegment_common inputting header data).trans ?_
  rw [sndBuf_inputCommon]
  exact (unaLoop_spec header.una inputting.kcp.sndBuf).1

theorem covers_input (kcp : Ikcpcb) (data : List UInt8) : kcp.Covers (input kcp data).2 := by
  have hbuf : ∀ seg ∈ (input kcp data).2.sndBuf, ∃ old ∈ kcp.sndBuf, old.data = seg.data := by
    refine input_induction (motive := fun next ↦ ∀ seg ∈ next.sndBuf, ∃ old ∈ kcp.sndBuf,
      old.data = seg.data) ?_ ?_ ?_ kcp data fun seg hseg ↦ ⟨seg, hseg, rfl⟩
    · intro inputting header payload hnext _ seg hseg
      exact hnext seg ((sndBuf_inputSegment inputting header payload).subset hseg)
    · intro next sn hnext seg hseg
      unfold parseFastack at hseg
      split at hseg
      · exact hnext seg hseg
      · obtain ⟨middle, hmiddle, hdata⟩ :=
          exists_data_of_content (content_fastackLoop sn next.sndBuf) hseg
        obtain ⟨old, hold, hold'⟩ := hnext middle hmiddle
        exact ⟨old, hold, hold'.trans hdata⟩
    · intro next prevUna hnext seg hseg
      have hgrow : (growWindow next prevUna).sndBuf = next.sndBuf :=
        congrArg Sender.sndBuf (sender_growWindow next prevUna)
      exact hnext seg (hgrow ▸ hseg)
  have hqueue : (input kcp data).2.sndQueue = kcp.sndQueue :=
    congrArg Prod.fst (waiting_input kcp data)
  intro seg hseg
  rw [hqueue] at hseg
  rcases List.mem_append.mp hseg with hseg | hseg
  · exact ⟨seg, List.mem_append_left _ hseg, rfl⟩
  · obtain ⟨old, hold, hdata⟩ := hbuf seg hseg
    exact ⟨old, List.mem_append_right _ hold, hdata⟩

/-- The buffer is large enough for whatever a flush writes. -/
structure Ikcpcb.Roomy (kcp : Ikcpcb) : Prop where
  mtu : overhead ≤ kcp.mtu.toNat ∧ kcp.mtu.toNat < 1431655742
  fits : kcp.Fits kcp.mtu.toNat

/-- Up to this `mtu` the size of the buffer does not wrap. -/
theorem Ikcpcb.Roomy.capacity {kcp : Ikcpcb} (hroomy : kcp.Roomy) :
    kcp.mtu.toNat ≤ kcp.capacity.toNat := by
  have hlt := hroomy.mtu.2
  rw [Ikcpcb.capacity, UInt32.toNat_mul, UInt32.toNat_add]
  change kcp.mtu.toNat ≤ (kcp.mtu.toNat + 24) % 4294967296 * 3 % 4294967296
  rw [Nat.mod_eq_of_lt (by omega), Nat.mod_eq_of_lt (by omega)]
  omega

theorem Ikcpcb.Roomy.flush {kcp : Ikcpcb} (hroomy : kcp.Roomy) :
    ∀ bytes ∈ (flush kcp).1, bytes.length ≤ kcp.mtu.toNat := flush_fits hroomy.mtu.1 hroomy.fits

theorem Ikcpcb.Roomy.update {kcp : Ikcpcb} (hroomy : kcp.Roomy) (current : UInt32) :
    (∀ bytes ∈ (update kcp current).1, bytes.length ≤ kcp.mtu.toNat) ∧
      (update kcp current).2.mtu = kcp.mtu ∧ (update kcp current).2.Roomy := by
  have hmtu : (Ikcp.update kcp current).2.mtu = kcp.mtu :=
    congrArg Fixed.mtu (fixed_update kcp current)
  refine ⟨?_, hmtu, hmtu ▸ hroomy.mtu, hmtu ▸ (covers_update kcp current).fits hroomy.fits⟩
  obtain ⟨updated, tsFlush, -, hupdate | hupdate⟩ := update_spec kcp current
  · rw [hupdate]
    exact fun bytes hbytes ↦ absurd hbytes List.not_mem_nil
  · rw [hupdate]
    exact @flush_fits (kcp.clocked current updated tsFlush) hroomy.mtu.1 hroomy.fits

/-- While the `mtu` is kept, so is the room in the datagrams. -/
theorem fits_call {node : Node} (hframed : node.Framed) {call : Call} (hcall : call.KeepsMtu)
    (hfits : node.kcp.Fits node.kcp.mtu.toNat) :
    (node.call call).kcp.Fits node.kcp.mtu.toNat := by
  cases call with
  | send buffer =>
    have hbuf : (send node.kcp buffer).2.sndBuf = node.kcp.sndBuf := by rw [send_spec]
    change (send node.kcp buffer).2.Fits node.kcp.mtu.toNat
    intro seg hseg
    rw [hbuf] at hseg
    rcases List.mem_append.mp hseg with hseg | hseg
    · rcases mem_send hseg with hseg | hseg
      · exact hfits seg (List.mem_append_left _ hseg)
      · have hlength := hseg.length
        have hmss := hframed.mss
        omega
    · exact hfits seg (List.mem_append_right _ hseg)
  | recv len =>
    have hsender := sender_recv node.kcp len
    have hqueue : (recv node.kcp len).2.2.sndQueue = node.kcp.sndQueue :=
      congrArg Sender.sndQueue hsender
    have hbuf : (recv node.kcp len).2.2.sndBuf = node.kcp.sndBuf := congrArg Sender.sndBuf hsender
    have hrecv : (recv node.kcp len).2.2.Fits node.kcp.mtu.toNat := by
      intro seg hseg
      rw [hqueue, hbuf] at hseg
      exact hfits seg hseg
    rw [Node.call]
    split <;> exact hrecv
  | input data => exact (covers_input node.kcp data).fits hfits
  | flush => exact (covers_flush node.kcp).fits hfits
  | update current => exact (covers_update node.kcp current).fits hfits
  | setmtu mtu => exact hcall.elim
  | interval time => exact hfits
  | nodelay delay time resend nc => exact hfits
  | wndsize sndwnd rcvwnd => exact hfits

/-- The new `mtu` leaves room, or `ikcp_setmtu` refuses it. -/
theorem Ikcpcb.Roomy.setmtu {kcp : Ikcpcb} (hroomy : kcp.Roomy) {mtu : Int32}
    (hkeeps : 50 ≤ mtu → mtu < 1431655742 ∧ kcp.Fits mtu.toUInt32.toNat) :
    (Ikcp.setmtu kcp mtu).2.Roomy := by
  unfold Ikcp.setmtu
  split
  · exact hroomy
  · rename_i hmtu
    have hge : 50 ≤ mtu := Int32.not_lt.mp fun hlt ↦ hmtu (Or.inl hlt)
    obtain ⟨hsmall, hfits⟩ := hkeeps hge
    have hint : (50 : ℤ) ≤ mtu.toInt := Int32.le_iff_toInt_le.mp hge
    have hlt : mtu.toInt < (1431655742 : ℤ) := Int32.lt_iff_toInt_lt.mp hsmall
    have hpos : 0 < mtu := Int32.lt_iff_toInt_lt.mpr (lt_of_lt_of_le (by decide) hint)
    have hnat := toNat_toUInt32 hpos
    refine ⟨?_, hfits⟩
    change 24 ≤ mtu.toUInt32.toNat ∧ mtu.toUInt32.toNat < 1431655742
    omega

theorem roomy_call {node : Node} (hframed : node.Framed) {call : Call} (hkeeps : call.Keeps node)
    (hroomy : node.kcp.Roomy) : (node.call call).kcp.Roomy := by
  by_cases hcall : call.KeepsMtu
  · have hmtu : (node.call call).kcp.mtu = node.kcp.mtu :=
      congrArg Fixed.mtu (fixed_call node hcall)
    exact ⟨hmtu ▸ hroomy.mtu, hmtu ▸ fits_call hframed hcall hroomy.fits⟩
  · cases call with
    | setmtu mtu => exact hroomy.setmtu hkeeps
    | _ => exact absurd trivial hcall

/-- A control block whose segments fit into datagrams. -/
structure Node.Sized (node : Node) : Prop where
  sends : node.Sends
  framed : node.Framed
  roomy : node.kcp.Roomy

theorem sized_start (conv : UInt32) (stream : Int32) : (Node.start conv stream).Sized := by
  have hmtu : overhead ≤ mtuDef.toNat ∧ mtuDef.toNat < 1431655742 := by decide
  exact ⟨sends_start conv stream, framed_start conv stream, hmtu,
    fun _ hseg ↦ absurd hseg List.not_mem_nil⟩

theorem sized_run {conv : UInt32} {stream : Int32} {calls : List Call} {node : Node}
    (hrun : Runs.run Node.step (Node.start conv stream) calls = some node) : node.Sized := by
  refine Runs.run_invariant ?_ (sized_start conv stream) hrun
  intro node call next hsized hstep
  obtain ⟨hkeeps, rfl⟩ := Node.step_eq_some.mp hstep
  exact ⟨hsized.sends.call call, hsized.framed.call hsized.sends call,
    roomy_call hsized.framed hkeeps hsized.roomy⟩

/-- No datagram is longer than the `mtu` at the time, whatever arrives, and so what is written fits
into the buffer. -/
theorem length_datagrams_run {conv : UInt32} {stream : Int32} {calls : List Call} {node : Node}
    (hrun : Runs.run Node.step (Node.start conv stream) calls = some node) (current : UInt32)
    {bytes : List UInt8}
    (hbytes : bytes ∈ (flush node.kcp).1 ∨ bytes ∈ (update node.kcp current).1) :
    bytes.length ≤ node.kcp.mtu.toNat ∧ node.kcp.mtu.toNat ≤ node.kcp.capacity.toNat := by
  have hroomy := (sized_run hrun).roomy
  refine ⟨?_, hroomy.capacity⟩
  rcases hbytes with hbytes | hbytes
  · exact hroomy.flush bytes hbytes
  · exact (hroomy.update current).1 bytes hbytes

/-- The smallest `mtu`, and a message of two fragments. -/
def smallest : List Call := [.setmtu 50, .nodelay 1 10 2 1, .send (List.replicate 30 7)]

theorem length_datagrams_smallest :
    ∃ node, Runs.run Node.step (Node.start 1 0) smallest = some node ∧ node.kcp.mtu = 50 ∧
      (update node.kcp 0).1.map List.length = [50, 28] ∧
      ∀ bytes ∈ (update node.kcp 0).1, bytes.length ≤ node.kcp.mtu.toNat := by
  have hview : (Runs.run Node.step (Node.start 1 0) smallest).map (fun node ↦
      (node.kcp.mtu, (update node.kcp 0).1.map List.length)) = some (50, [50, 28]) := by
    decide +kernel
  obtain ⟨node, hrun, hseen⟩ := Runs.exists_of_view hview
  obtain ⟨hmtu, hlengths⟩ := Prod.mk.inj hseen
  exact ⟨node, hrun, hmtu, hlengths,
    fun bytes hbytes ↦ (length_datagrams_run hrun 0 (Or.inr hbytes)).1⟩

end TestLinux.Ikcp
