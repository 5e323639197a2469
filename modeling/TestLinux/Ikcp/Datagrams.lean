import TestLinux.Ikcp.Transmit

/-!
# Datagrams of `ikcp_flush`

`Datagram property bytes` says that the bytes are those of one or more segments with the property.
`flush_datagrams` says which segments the datagrams of `ikcp_flush` consist of, and
`inputLoop_bytes` how `ikcp_input` reads such a datagram: as the sequence of its segments.
-/

set_option autoImplicit false
set_option relaxedAutoImplicit false

namespace TestLinux.Ikcp

open TestLinux.Serial

/-- The bytes of one or more segments with a property. -/
def Datagram (property : Ikcpseg → Prop) (bytes : List UInt8) : Prop :=
  ∃ segs : List Ikcpseg, segs ≠ [] ∧ bytes = segs.flatMap Ikcpseg.bytes ∧
    ∀ seg ∈ segs, property seg

theorem Datagram.mono {property property' : Ikcpseg → Prop} {bytes : List UInt8}
    (hdatagram : Datagram property bytes) (hmono : ∀ seg, property seg → property' seg) :
    Datagram property' bytes := by
  obtain ⟨segs, hne, hbytes, hsegs⟩ := hdatagram
  exact ⟨segs, hne, hbytes, fun seg hseg ↦ hmono seg (hsegs seg hseg)⟩

/-! ### Writing -/

/-- The buffer holds whole segments with a property, and so do the datagrams. -/
structure Output.Made (property : Ikcpseg → Prop) (out : Output) : Prop where
  buffer : ∃ segs : List Ikcpseg, out.buffer = segs.flatMap Ikcpseg.bytes ∧
    ∀ seg ∈ segs, property seg
  sent : ∀ bytes ∈ out.sent, Datagram property bytes

variable {property : Ikcpseg → Prop} {out : Output}

theorem made_empty : (⟨[], []⟩ : Output).Made property :=
  ⟨⟨[], rfl, fun _ hseg ↦ absurd hseg List.not_mem_nil⟩,
    fun _ hbytes ↦ absurd hbytes List.not_mem_nil⟩

theorem Output.Made.mono {property' : Ikcpseg → Prop} (hmade : out.Made property)
    (hmono : ∀ seg, property seg → property' seg) : out.Made property' := by
  obtain ⟨⟨segs, hbuffer, hsegs⟩, hsent⟩ := hmade
  exact ⟨⟨segs, hbuffer, fun seg hseg ↦ hmono seg (hsegs seg hseg)⟩,
    fun bytes hbytes ↦ (hsent bytes hbytes).mono hmono⟩

theorem Output.Made.output (hmade : out.Made property) : out.output.Made property := by
  obtain ⟨⟨segs, hbuffer, hsegs⟩, hsent⟩ := hmade
  refine ⟨⟨[], rfl, fun _ hseg ↦ absurd hseg List.not_mem_nil⟩, ?_⟩
  intro bytes hbytes
  unfold Output.output at hbytes
  split at hbytes
  · exact hsent bytes hbytes
  · rename_i hne
    rcases List.mem_append.mp hbytes with hbytes | hbytes
    · exact hsent bytes hbytes
    · obtain rfl := List.mem_singleton.mp hbytes
      refine ⟨segs, ?_, hbuffer, hsegs⟩
      rintro rfl
      exact hne hbuffer

theorem Output.Made.reserve (hmade : out.Made property) (mtu : UInt32) (need : ℕ) :
    (out.reserve mtu need).Made property := by
  unfold Output.reserve
  split
  · exact hmade.output
  · exact hmade

theorem Output.Made.write (hmade : out.Made property) {seg : Ikcpseg} (hseg : property seg) :
    (out.write seg.bytes).Made property := by
  obtain ⟨⟨segs, hbuffer, hsegs⟩, hsent⟩ := hmade
  refine ⟨⟨segs ++ [seg], ?_, ?_⟩, hsent⟩
  · change out.buffer ++ seg.bytes = _
    rw [hbuffer, List.flatMap_append, List.flatMap_singleton]
  · intro other hother
    rcases List.mem_append.mp hother with hother | hother
    · exact hsegs other hother
    · exact List.mem_singleton.mp hother ▸ hseg

/-- A header without data is a segment. -/
theorem Output.Made.header (hmade : out.Made property) {seg : Ikcpseg} (hseg : property seg)
    (hdata : seg.data = []) : (out.write (encodeSeg seg)).Made property := by
  have hbytes : seg.bytes = encodeSeg seg := by rw [Ikcpseg.bytes, hdata, List.append_nil]
  rw [← hbytes]
  exact hmade.write hseg

/-- The room that is reserved is what the `mtu` allows. -/
structure Output.Fits (mtu : UInt32) (out : Output) : Prop where
  buffer : out.buffer.length ≤ mtu.toNat
  sent : ∀ bytes ∈ out.sent, bytes.length ≤ mtu.toNat

theorem Output.Fits.output {mtu : UInt32} (hfits : out.Fits mtu) : out.output.Fits mtu := by
  refine ⟨Nat.zero_le _, ?_⟩
  intro bytes hbytes
  unfold Output.output at hbytes
  split at hbytes
  · exact hfits.sent bytes hbytes
  · rcases List.mem_append.mp hbytes with hbytes | hbytes
    · exact hfits.sent bytes hbytes
    · exact List.mem_singleton.mp hbytes ▸ hfits.buffer

theorem Output.Fits.write {mtu : UInt32} (hfits : out.Fits mtu) {bytes : List UInt8}
    (hbytes : bytes.length ≤ mtu.toNat) :
    ((out.reserve mtu bytes.length).write bytes).Fits mtu := by
  unfold Output.reserve
  split
  · exact ⟨hbytes, hfits.output.sent⟩
  · rename_i hroom
    refine ⟨?_, hfits.sent⟩
    change (out.buffer ++ bytes).length ≤ mtu.toNat
    rw [List.length_append]
    exact Nat.not_lt.mp hroom

theorem Output.Fits.header {mtu : UInt32} (hfits : out.Fits mtu) (hmtu : overhead ≤ mtu.toNat)
    (seg : Ikcpseg) : ((out.reserve mtu overhead).write (encodeSeg seg)).Fits mtu :=
  @Output.Fits.write out mtu hfits (encodeSeg seg) hmtu

/-! ### `ikcp_flush` -/

/-- The segments that `ikcp_flush` writes: acknowledgements, window commands, and the segments of
`snd_buf` as they are then. -/
structure Emitted (kcp : Ikcpcb) (buf : List Ikcpseg) (seg : Ikcpseg) : Prop where
  una : seg.una = kcp.rcvNxt
  wnd : seg.wnd = wndUnused kcp
  kind : (seg.conv = kcp.conv ∧ seg.fragment = (0, []) ∧
      (seg.cmd = cmdAck.toUInt32 ∧ (seg.sn, seg.ts) ∈ kcp.acklist ∨
        seg.cmd = cmdWask.toUInt32 ∨ seg.cmd = cmdWins.toUInt32)) ∨ seg ∈ buf

/-- The variable `seg` of `ikcp_flush` changes only in number and time. -/
theorem flushAcks_seg (mtu : UInt32) (acks : List (UInt32 × UInt32)) (seg : Ikcpseg)
    (out : Output) :
    ∃ sn ts, (flushAcks mtu acks seg out).1 = { seg with sn := sn, ts := ts } := by
  induction acks generalizing seg out with
  | nil => exact ⟨seg.sn, seg.ts, rfl⟩
  | cons ack rest ih =>
    obtain ⟨sn, ts, heq⟩ := ih { seg with sn := ack.1, ts := ack.2 }
      ((out.reserve mtu overhead).write (encodeSeg { seg with sn := ack.1, ts := ack.2 }))
    exact ⟨sn, ts, heq⟩

theorem flushAcks_made {mtu : UInt32} {acks : List (UInt32 × UInt32)} {seg : Ikcpseg}
    (hdata : seg.data = []) (hmade : out.Made property)
    (hacks : ∀ ack ∈ acks, property { seg with sn := ack.1, ts := ack.2 }) :
    (flushAcks mtu acks seg out).2.Made property := by
  induction acks generalizing seg out with
  | nil => exact hmade
  | cons ack rest ih =>
    refine ih hdata ((hmade.reserve mtu overhead).header (hacks ack List.mem_cons_self) hdata) ?_
    intro other hother
    exact hacks other (List.mem_cons_of_mem ack hother)

theorem flushProbe_made {kcp : Ikcpcb} {ask : UInt32} {seg : Ikcpseg} (hdata : seg.data = [])
    (hmade : out.Made property) (hseg : property seg) :
    (flushProbe kcp ask seg out).Made property := by
  unfold flushProbe
  split
  · exact (hmade.reserve kcp.mtu overhead).header hseg hdata
  · exact hmade

/-- What has been written before the loop over `snd_buf`. -/
theorem flushHead_made (kcp : Ikcpcb) (buf : List Ikcpseg) :
    (flushHead kcp).2.1.Made (Emitted kcp buf) ∧ (flushHead kcp).2.2 = wndUnused kcp := by
  obtain ⟨sn, ts, hseg⟩ := flushAcks_seg kcp.mtu kcp.acklist (flushSeg kcp) ⟨[], []⟩
  have hacks : (flushAcks kcp.mtu kcp.acklist (flushSeg kcp) ⟨[], []⟩).2.Made
      (Emitted kcp buf) := by
    refine flushAcks_made rfl made_empty ?_
    intro ack hack
    exact ⟨rfl, rfl, Or.inl ⟨rfl, rfl, Or.inl ⟨rfl, hack⟩⟩⟩
  simp only [flushHead, hseg]
  refine ⟨?_, rfl⟩
  refine flushProbe_made rfl (flushProbe_made rfl hacks ?_) ?_
  · exact ⟨rfl, rfl, Or.inl ⟨rfl, rfl, Or.inr (Or.inl rfl)⟩⟩
  · exact ⟨rfl, rfl, Or.inl ⟨rfl, rfl, Or.inr (Or.inr rfl)⟩⟩

theorem Emitted.mono {kcp : Ikcpcb} {buf buf' : List Ikcpseg} (hbuf : buf ⊆ buf') {seg : Ikcpseg}
    (hemitted : Emitted kcp buf seg) : Emitted kcp buf' seg :=
  ⟨hemitted.una, hemitted.wnd, hemitted.kind.imp_right fun hseg ↦ hbuf hseg⟩

theorem una_resend (segment : Ikcpseg) (kcp : Ikcpcb) (wnd : UInt32) (reason : Reason) :
    (segment.resend kcp wnd reason).una = kcp.rcvNxt ∧
      (segment.resend kcp wnd reason).wnd = wnd := by
  cases reason <;> exact ⟨rfl, rfl⟩

/-- One segment of the loop over `snd_buf`. -/
theorem flushSegment_made {kcp start : Ikcpcb} (hnext : kcp.rcvNxt = start.rcvNxt)
    {flushing : Flushing} (segment : Ikcpseg)
    (hmade : flushing.out.Made (Emitted start flushing.visited)) :
    (flushSegment kcp (wndUnused start) flushing segment).out.Made
      (Emitted start (flushSegment kcp (wndUnused start) flushing segment).visited) := by
  unfold flushSegment
  split
  · exact hmade.mono fun seg ↦ Emitted.mono (List.subset_append_left _ _)
  · rename_i reason _
    obtain ⟨huna, hwnd⟩ := una_resend segment kcp (wndUnused start) reason
    have hmono : flushing.out.Made (Emitted start (flushing.visited ++
        [segment.resend kcp (wndUnused start) reason])) :=
      hmade.mono fun seg ↦ Emitted.mono (List.subset_append_left _ _)
    refine (hmono.reserve kcp.mtu _).write ⟨huna.trans hnext, hwnd, Or.inr ?_⟩
    exact List.mem_append_right _ List.mem_cons_self

theorem flushData_made {kcp start : Ikcpcb} (hnext : kcp.rcvNxt = start.rcvNxt)
    (hmade : out.Made (Emitted start [])) :
    (flushData kcp (wndUnused start) out).out.Made
      (Emitted start (flushData kcp (wndUnused start) out).visited) := by
  have hfold : ∀ (segs : List Ikcpseg) (flushing : Flushing),
      flushing.out.Made (Emitted start flushing.visited) →
      (segs.foldl (flushSegment kcp (wndUnused start)) flushing).out.Made (Emitted start
        (segs.foldl (flushSegment kcp (wndUnused start)) flushing).visited) := by
    intro segs
    induction segs with
    | nil => exact fun flushing hflushing ↦ hflushing
    | cons seg rest ih =>
      exact fun flushing hflushing ↦ ih _ (flushSegment_made hnext seg hflushing)
  exact hfold kcp.sndBuf _ hmade

/-- `ikcp_flush` in terms of its two loops. -/
theorem flush_parts {kcp : Ikcpcb} (hupdated : kcp.updated ≠ 0) :
    (flush kcp).1 =
        (flushData (flushHead kcp).1 (flushHead kcp).2.2 (flushHead kcp).2.1).out.output.sent ∧
      (flush kcp).2.sndBuf =
        (flushData (flushHead kcp).1 (flushHead kcp).2.2 (flushHead kcp).2.1).visited := by
  rw [flush, if_neg hupdated]
  exact ⟨rfl, congrArg Sender.sndBuf (sender_shrinkWindow _ _ _ _)⟩

/-- The datagrams of `ikcp_flush` consist of acknowledgements, window commands and segments of
`snd_buf`. -/
theorem flush_datagrams (kcp : Ikcpcb) :
    ∀ bytes ∈ (flush kcp).1, Datagram (Emitted kcp (flush kcp).2.sndBuf) bytes := by
  by_cases hupdated : kcp.updated = 0
  · rw [flush, if_pos hupdated]
    exact fun bytes hbytes ↦ absurd hbytes List.not_mem_nil
  · obtain ⟨moved, rest, added, -, wait, ts, heq⟩ := flushHead_spec kcp
    have hnext : (flushHead kcp).1.rcvNxt = kcp.rcvNxt := by rw [heq]
    obtain ⟨hmade, hwnd⟩ := flushHead_made kcp []
    obtain ⟨hsent, hbuf⟩ := flush_parts hupdated
    rw [hsent, hbuf, hwnd]
    exact (flushData_made hnext hmade).output.sent

/-! ### Sizes -/

theorem flushAcks_fits {mtu : UInt32} (hmtu : overhead ≤ mtu.toNat)
    (acks : List (UInt32 × UInt32)) (seg : Ikcpseg) (hfits : out.Fits mtu) :
    (flushAcks mtu acks seg out).2.Fits mtu := by
  induction acks generalizing seg out with
  | nil => exact hfits
  | cons ack rest ih => exact ih _ (hfits.header hmtu _)

theorem flushProbe_fits {kcp : Ikcpcb} {mtu : UInt32} (hmtu : overhead ≤ mtu.toNat)
    (hkcp : kcp.mtu = mtu) (ask : UInt32) (seg : Ikcpseg) (hfits : out.Fits mtu) :
    (flushProbe kcp ask seg out).Fits mtu := by
  unfold flushProbe
  rw [hkcp]
  split
  · exact hfits.header hmtu seg
  · exact hfits

theorem flushHead_fits {kcp : Ikcpcb} (hmtu : overhead ≤ kcp.mtu.toNat) :
    (flushHead kcp).2.1.Fits kcp.mtu := by
  have hempty : (⟨[], []⟩ : Output).Fits kcp.mtu :=
    ⟨Nat.zero_le _, fun _ hbytes ↦ absurd hbytes List.not_mem_nil⟩
  obtain ⟨wait, ts, probe, hprobe⟩ := probeWindow_spec { kcp with acklist := [] }
  simp only [flushHead, hprobe]
  have hacks := flushAcks_fits hmtu kcp.acklist (flushSeg kcp) hempty
  refine flushProbe_fits hmtu ?_ askTell _ (flushProbe_fits hmtu ?_ askSend _ hacks)
  all_goals rfl

theorem data_resend (segment : Ikcpseg) (kcp : Ikcpcb) (wnd : UInt32) (reason : Reason) :
    (segment.resend kcp wnd reason).data = segment.data :=
  congrArg Content.data (content_resend segment kcp wnd reason)

theorem flushData_fits {kcp : Ikcpcb} (wnd : UInt32) (hfits : out.Fits kcp.mtu)
    (hbuf : ∀ seg ∈ kcp.sndBuf, overhead + seg.data.length ≤ kcp.mtu.toNat) :
    (flushData kcp wnd out).out.Fits kcp.mtu := by
  have hfold : ∀ (segs : List Ikcpseg) (flushing : Flushing),
      (∀ seg ∈ segs, overhead + seg.data.length ≤ kcp.mtu.toNat) → flushing.out.Fits kcp.mtu →
      (segs.foldl (flushSegment kcp wnd) flushing).out.Fits kcp.mtu := by
    intro segs
    induction segs with
    | nil => exact fun flushing _ hflushing ↦ hflushing
    | cons seg rest ih =>
      intro flushing hsegs hflushing
      refine ih _ (fun other hother ↦ hsegs other (List.mem_cons_of_mem seg hother)) ?_
      unfold flushSegment
      split
      · exact hflushing
      · rename_i reason _
        have hlength : overhead + (seg.resend kcp wnd reason).data.length =
            (seg.resend kcp wnd reason).bytes.length := (length_bytes _).symm
        simp only [hlength]
        refine hflushing.write ?_
        rw [← hlength, data_resend]
        exact hsegs seg List.mem_cons_self
  exact hfold kcp.sndBuf _ hbuf hfits

/-- No datagram is longer than the `mtu`. Assumes: the segments are not longer. -/
theorem flush_fits {kcp : Ikcpcb} (hmtu : overhead ≤ kcp.mtu.toNat)
    (hsegs : ∀ seg ∈ kcp.sndQueue ++ kcp.sndBuf, overhead + seg.data.length ≤ kcp.mtu.toNat) :
    ∀ bytes ∈ (flush kcp).1, bytes.length ≤ kcp.mtu.toNat := by
  by_cases hupdated : kcp.updated = 0
  · rw [flush, if_pos hupdated]
    exact fun bytes hbytes ↦ absurd hbytes List.not_mem_nil
  · obtain ⟨moved, rest, added, hnumbered, wait, ts, heq⟩ := flushHead_spec kcp
    have hfits := flushHead_fits hmtu
    have hmtu' : (flushHead kcp).1.mtu = kcp.mtu := by rw [heq]
    have hbuf : (flushHead kcp).1.sndBuf = kcp.sndBuf ++ added := by rw [heq]
    have hadded : ∀ seg ∈ added, ∃ old ∈ moved, old.data = seg.data := by
      intro seg hseg
      have hmem : seg.fragment ∈ moved.map Ikcpseg.fragment := by
        rw [← hnumbered.fragments]
        exact List.mem_map_of_mem hseg
      obtain ⟨old, hold, heq'⟩ := List.mem_map.mp hmem
      exact ⟨old, hold, congrArg Prod.snd heq'⟩
    obtain ⟨hsent, -⟩ := flush_parts hupdated
    rw [hsent, ← hmtu']
    rw [← hmtu'] at hfits
    refine (flushData_fits _ hfits ?_).output.sent
    intro seg hseg
    rw [hbuf] at hseg
    rw [hmtu']
    rcases List.mem_append.mp hseg with hseg | hseg
    · exact hsegs seg (List.mem_append_right _ hseg)
    · obtain ⟨old, hold, hdata⟩ := hadded seg hseg
      rw [← hdata]
      refine hsegs old (List.mem_append_left _ ?_)
      rw [hnumbered.queue]
      exact List.mem_append_left _ hold

/-! ### Reading -/

/-- A segment that `ikcp_input` of the same conversation accepts. -/
structure Ikcpseg.Readable (conv : UInt32) (seg : Ikcpseg) : Prop where
  conv_eq : seg.conv = conv
  cmd : seg.cmd.toUInt8 ∈ [cmdPush, cmdAck, cmdWask, cmdWins]
  length : seg.data.length < 2147483648

/-- A segment at the front of a datagram is read as it was written. -/
theorem inputLoop_cons {inputting : Inputting} {seg : Ikcpseg}
    (hseg : seg.Readable inputting.kcp.conv) (rest : List UInt8) :
    inputLoop inputting (seg.bytes ++ rest) =
      inputLoop (inputSegment inputting seg.header seg.data) rest := by
  have hlen : seg.header.len.toNat = seg.data.length :=
    toNat_ofNat_of_lt (Nat.lt_trans hseg.length (by decide))
  have hdrop : (seg.bytes ++ rest).drop overhead = seg.data ++ rest := by
    rw [Ikcpseg.bytes, List.append_assoc]
    exact List.drop_left' (length_encodeSeg seg)
  have hheader : (decodeHeader (seg.bytes ++ rest)).1 = seg.header := by
    rw [Ikcpseg.bytes, List.append_assoc, decodeHeader_encodeSeg]
  have hsize : ¬ (seg.bytes ++ rest).length < overhead := by
    rw [List.length_append, length_bytes, overhead]
    omega
  have hfits : ¬ ((seg.data ++ rest).length < seg.data.length ∨
      2147483648 ≤ seg.data.length) := by
    have hlength := hseg.length
    rw [List.length_append]
    omega
  conv_lhs => rw [inputLoop]
  simp only [hheader, hdrop, hlen, if_neg hsize, if_neg hfits, List.take_left, List.drop_left]
  have hconv : seg.header.conv = inputting.kcp.conv := hseg.conv_eq
  have hcmd : seg.header.cmd ∈ [cmdPush, cmdAck, cmdWask, cmdWins] := hseg.cmd
  rw [if_neg (not_not.mpr hconv), if_neg (not_not.mpr hcmd)]

/-- The bytes of segments are read as these segments, one after the other. -/
theorem inputLoop_bytes {segs : List Ikcpseg} {inputting : Inputting}
    (hsegs : ∀ seg ∈ segs, seg.Readable inputting.kcp.conv) :
    inputLoop inputting (segs.flatMap Ikcpseg.bytes) =
      (0, segs.foldl (fun inputting seg ↦ inputSegment inputting seg.header seg.data)
        inputting) := by
  induction segs generalizing inputting with
  | nil =>
    rw [inputLoop]
    rfl
  | cons seg rest ih =>
    have hconv : (inputSegment inputting seg.header seg.data).kcp.conv = inputting.kcp.conv :=
      congrArg Fixed.conv (fixed_inputSegment inputting seg.header seg.data)
    rw [List.flatMap_cons, inputLoop_cons (hsegs seg List.mem_cons_self), List.foldl_cons]
    refine ih ?_
    intro other hother
    rw [hconv]
    exact hsegs other (List.mem_cons_of_mem seg hother)

/-- `ikcp_input` for the segments of a datagram, one after the other. -/
def inputSegments (inputting : Inputting) (segs : List Ikcpseg) : Inputting :=
  segs.foldl (fun inputting seg ↦ inputSegment inputting seg.header seg.data) inputting

/-- A datagram of such segments is accepted, and its segments are worked off. -/
theorem input_bytes {kcp : Ikcpcb} {segs : List Ikcpseg} (hne : segs ≠ [])
    (hsegs : ∀ seg ∈ segs, seg.Readable kcp.conv) :
    input kcp (segs.flatMap Ikcpseg.bytes) =
      (0, growWindow (if (inputSegments ⟨kcp, false, 0⟩ segs).flag then
          parseFastack (inputSegments ⟨kcp, false, 0⟩ segs).kcp
            (inputSegments ⟨kcp, false, 0⟩ segs).maxack
        else (inputSegments ⟨kcp, false, 0⟩ segs).kcp) kcp.sndUna) := by
  have hloop : inputLoop ⟨kcp, false, 0⟩ (segs.flatMap Ikcpseg.bytes) =
      (0, inputSegments ⟨kcp, false, 0⟩ segs) := inputLoop_bytes hsegs
  have hsize : ¬ (segs.flatMap Ikcpseg.bytes).length < overhead := by
    cases segs with
    | nil => exact absurd rfl hne
    | cons seg rest =>
      rw [List.flatMap_cons, List.length_append, length_bytes, overhead]
      omega
  simp only [input, if_neg hsize, hloop, ne_eq, not_true_eq_false, if_false]

theorem input_datagram {kcp : Ikcpcb} {bytes : List UInt8}
    (hdatagram : Datagram (Ikcpseg.Readable kcp.conv) bytes) : (input kcp bytes).1 = 0 := by
  obtain ⟨segs, hne, rfl, hsegs⟩ := hdatagram
  rw [input_bytes hne hsegs]

/-- Induction over the segments of a datagram. Assumes: they can be read, and each keeps what is
claimed of the control block. -/
theorem input_datagram_induction {property : Ikcpseg → Prop} {motive : Ikcpcb → Prop}
    {kcp : Ikcpcb} {bytes : List UInt8} (hdatagram : Datagram property bytes)
    (hreadable : ∀ seg, property seg → seg.Readable kcp.conv) (hstart : motive kcp)
    (hsegment : ∀ inputting seg, motive inputting.kcp → property seg →
      motive (inputSegment inputting seg.header seg.data).kcp)
    (hfastack : ∀ next sn, motive next → motive (parseFastack next sn))
    (hgrow : ∀ next prevUna, motive next → motive (growWindow next prevUna)) :
    motive (input kcp bytes).2 := by
  obtain ⟨segs, hne, rfl, hsegs⟩ := hdatagram
  have hfold : ∀ (segs : List Ikcpseg) (inputting : Inputting), (∀ seg ∈ segs, property seg) →
      motive inputting.kcp → motive (inputSegments inputting segs).kcp := by
    intro segs
    induction segs with
    | nil => exact fun inputting _ hinputting ↦ hinputting
    | cons seg rest ih =>
      intro inputting hproperty hinputting
      refine ih _ (fun other hother ↦ hproperty other (List.mem_cons_of_mem seg hother)) ?_
      exact hsegment inputting seg hinputting (hproperty seg List.mem_cons_self)
  rw [input_bytes hne fun seg hseg ↦ hreadable seg (hsegs seg hseg)]
  refine hgrow _ _ ?_
  split
  · exact hfastack _ _ (hfold segs _ hsegs hstart)
  · exact hfold segs _ hsegs hstart

end TestLinux.Ikcp
