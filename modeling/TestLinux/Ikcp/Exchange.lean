import TestLinux.Ikcp.Messages

/-!
# What `ikcp_flush` must put out, and what it does to the peer

`flush_datagrams` says which segments the datagrams of `ikcp_flush` consist of. This module says
which of them cannot be missing: an acknowledgement if one is waiting, a window command if it is
asked for, and every segment of `snd_buf` whose time has come. `input_carries` is the induction over
the segments of a datagram that contains such a segment.
-/

set_option autoImplicit false
set_option relaxedAutoImplicit false

namespace TestLinux.Ikcp

open TestLinux.Serial

/-! ### A segment that is not missing -/

/-- The bytes of segments with a property, one of which is the wanted one. -/
def Carries (property wanted : Ikcpseg → Prop) (bytes : List UInt8) : Prop :=
  ∃ segs : List Ikcpseg, bytes = segs.flatMap Ikcpseg.bytes ∧ (∀ seg ∈ segs, property seg) ∧
    ∃ seg ∈ segs, wanted seg

/-- The buffer or a datagram carries the wanted segment. -/
def Output.Holds (property wanted : Ikcpseg → Prop) (out : Output) : Prop :=
  Carries property wanted out.buffer ∨ ∃ bytes ∈ out.sent, Carries property wanted bytes

variable {property wanted : Ikcpseg → Prop} {out : Output}

theorem Carries.mono {property' : Ikcpseg → Prop} {bytes : List UInt8}
    (hcarries : Carries property wanted bytes) (hmono : ∀ seg, property seg → property' seg) :
    Carries property' wanted bytes := by
  obtain ⟨segs, hbytes, hsegs, hwanted⟩ := hcarries
  exact ⟨segs, hbytes, fun seg hseg ↦ hmono seg (hsegs seg hseg), hwanted⟩

theorem Output.Holds.mono {property' : Ikcpseg → Prop} (hholds : out.Holds property wanted)
    (hmono : ∀ seg, property seg → property' seg) : out.Holds property' wanted := by
  rcases hholds with hbuffer | ⟨bytes, hbytes, hcarries⟩
  · exact Or.inl (hbuffer.mono hmono)
  · exact Or.inr ⟨bytes, hbytes, hcarries.mono hmono⟩

theorem Carries.imp {wanted' : Ikcpseg → Prop} {bytes : List UInt8}
    (hcarries : Carries property wanted bytes) (himp : ∀ seg, wanted seg → wanted' seg) :
    Carries property wanted' bytes := by
  obtain ⟨segs, hbytes, hsegs, seg, hseg, hwanted⟩ := hcarries
  exact ⟨segs, hbytes, hsegs, seg, hseg, himp seg hwanted⟩

theorem Output.Holds.imp {wanted' : Ikcpseg → Prop} (hholds : out.Holds property wanted)
    (himp : ∀ seg, wanted seg → wanted' seg) : out.Holds property wanted' := by
  rcases hholds with hbuffer | ⟨bytes, hbytes, hcarries⟩
  · exact Or.inl (hbuffer.imp himp)
  · exact Or.inr ⟨bytes, hbytes, hcarries.imp himp⟩

/-- The bytes of a segment are passed on and not kept back. -/
theorem Output.Holds.output (hholds : out.Holds property wanted) :
    ∃ bytes ∈ out.output.sent, Carries property wanted bytes := by
  unfold Output.output
  rcases hholds with hbuffer | ⟨bytes, hbytes, hcarries⟩
  · have hne : out.buffer ≠ [] := by
      obtain ⟨segs, hbytes, -, seg, hseg, -⟩ := hbuffer
      rw [hbytes]
      intro hnil
      have hempty := List.flatMap_eq_nil_iff.mp hnil seg hseg
      have hlength := length_bytes seg
      rw [hempty, List.length_nil] at hlength
      exact absurd hlength (by omega)
    rw [if_neg hne]
    exact ⟨out.buffer, List.mem_append_right _ List.mem_cons_self, hbuffer⟩
  · refine ⟨bytes, ?_, hcarries⟩
    split
    · exact hbytes
    · exact List.mem_append_left _ hbytes

theorem Output.Holds.reserve (hholds : out.Holds property wanted) (mtu : UInt32) (need : ℕ) :
    (out.reserve mtu need).Holds property wanted := by
  unfold Output.reserve
  split
  · exact Or.inr hholds.output
  · exact hholds

theorem Output.Holds.write (hholds : out.Holds property wanted) {seg : Ikcpseg}
    (hseg : property seg) : (out.write seg.bytes).Holds property wanted := by
  rcases hholds with ⟨segs, hbytes, hsegs, other, hother, hwanted⟩ | hsent
  · refine Or.inl ⟨segs ++ [seg], ?_, ?_, other, List.mem_append_left _ hother, hwanted⟩
    · change out.buffer ++ seg.bytes = _
      rw [hbytes, List.flatMap_append, List.flatMap_singleton]
    · intro last hlast
      rcases List.mem_append.mp hlast with hlast | hlast
      · exact hsegs last hlast
      · exact List.mem_singleton.mp hlast ▸ hseg
  · exact Or.inr hsent

/-- The wanted segment is written. -/
theorem Output.Made.holds (hmade : out.Made property) {seg : Ikcpseg} (hseg : property seg)
    (hwanted : wanted seg) : (out.write seg.bytes).Holds property wanted := by
  obtain ⟨⟨segs, hbuffer, hsegs⟩, -⟩ := hmade
  refine Or.inl ⟨segs ++ [seg], ?_, ?_, seg, List.mem_append_right _ List.mem_cons_self, hwanted⟩
  · change out.buffer ++ seg.bytes = _
    rw [hbuffer, List.flatMap_append, List.flatMap_singleton]
  · intro other hother
    rcases List.mem_append.mp hother with hother | hother
    · exact hsegs other hother
    · exact List.mem_singleton.mp hother ▸ hseg

theorem bytes_of_data_nil {seg : Ikcpseg} (hdata : seg.data = []) : seg.bytes = encodeSeg seg := by
  rw [Ikcpseg.bytes, hdata, List.append_nil]

theorem Output.Holds.header (hholds : out.Holds property wanted) {seg : Ikcpseg}
    (hseg : property seg) (hdata : seg.data = []) :
    (out.write (encodeSeg seg)).Holds property wanted :=
  bytes_of_data_nil hdata ▸ hholds.write hseg

theorem Output.Made.holds_header (hmade : out.Made property) {seg : Ikcpseg} (hseg : property seg)
    (hwanted : wanted seg) (hdata : seg.data = []) :
    (out.write (encodeSeg seg)).Holds property wanted :=
  bytes_of_data_nil hdata ▸ hmade.holds hseg hwanted

/-! ### The parts of `ikcp_flush` -/

theorem Output.Holds.flushAcks {mtu : UInt32} {acks : List (UInt32 × UInt32)} {seg : Ikcpseg}
    (hdata : seg.data = []) (hholds : out.Holds property wanted)
    (hacks : ∀ ack ∈ acks, property { seg with sn := ack.1, ts := ack.2 }) :
    (flushAcks mtu acks seg out).2.Holds property wanted := by
  induction acks generalizing seg out with
  | nil => exact hholds
  | cons ack rest ih =>
    refine ih hdata ((hholds.reserve mtu overhead).header (hacks ack List.mem_cons_self) hdata) ?_
    intro other hother
    exact hacks other (List.mem_cons_of_mem ack hother)

/-- A waiting acknowledgement is written. -/
theorem flushAcks_holds {mtu : UInt32} {acks : List (UInt32 × UInt32)} (hne : acks ≠ [])
    {seg : Ikcpseg} (hdata : seg.data = []) (hmade : out.Made property)
    (hacks : ∀ ack ∈ acks, property { seg with sn := ack.1, ts := ack.2 }) :
    (flushAcks mtu acks seg out).2.Holds property fun _ ↦ True := by
  cases acks with
  | nil => exact absurd rfl hne
  | cons ack rest =>
    rw [flushAcks]
    refine Output.Holds.flushAcks hdata
      ((hmade.reserve mtu overhead).holds_header (hacks ack List.mem_cons_self) trivial hdata) ?_
    intro other hother
    exact hacks other (List.mem_cons_of_mem ack hother)

theorem Output.Holds.flushProbe {kcp : Ikcpcb} {ask : UInt32} {seg : Ikcpseg}
    (hdata : seg.data = []) (hholds : out.Holds property wanted) (hseg : property seg) :
    (flushProbe kcp ask seg out).Holds property wanted := by
  unfold Ikcp.flushProbe
  split
  · exact (hholds.reserve kcp.mtu overhead).header hseg hdata
  · exact hholds

/-- A window command that is asked for is written. -/
theorem flushProbe_holds {kcp : Ikcpcb} {ask : UInt32} (hask : kcp.probe &&& ask ≠ 0)
    {seg : Ikcpseg} (hdata : seg.data = []) (hmade : out.Made property) (hseg : property seg)
    (hwanted : wanted seg) : (flushProbe kcp ask seg out).Holds property wanted := by
  unfold flushProbe
  rw [if_pos hask]
  exact (hmade.reserve kcp.mtu overhead).holds_header hseg hwanted hdata

/-- What is written before the loop over `snd_buf`: the waiting acknowledgements, then the window
commands. -/
theorem flushHead_parts (kcp : Ikcpcb) : ∃ ask tell out,
    (flushHead kcp).2.1 = flushProbe (probeWindow { kcp with acklist := [] }) askTell tell
      (flushProbe (probeWindow { kcp with acklist := [] }) askSend ask out) ∧
    Emitted kcp [] ask ∧ ask.data = [] ∧ ask.cmd = cmdWask.toUInt32 ∧
    Emitted kcp [] tell ∧ tell.data = [] ∧ out.Made (Emitted kcp []) ∧
    (kcp.acklist ≠ [] → out.Holds (Emitted kcp []) fun _ ↦ True) := by
  obtain ⟨sn, ts, hseg⟩ := flushAcks_seg kcp.mtu kcp.acklist (flushSeg kcp) ⟨[], []⟩
  have hacks : ∀ ack ∈ kcp.acklist,
      Emitted kcp [] { flushSeg kcp with sn := ack.1, ts := ack.2 } :=
    fun ack hack ↦ ⟨rfl, rfl, Or.inl ⟨rfl, rfl, Or.inl ⟨rfl, hack⟩⟩⟩
  refine ⟨{ flushSeg kcp with sn := sn, ts := ts, cmd := cmdWask.toUInt32 },
    { flushSeg kcp with sn := sn, ts := ts, cmd := cmdWins.toUInt32 },
    (flushAcks kcp.mtu kcp.acklist (flushSeg kcp) ⟨[], []⟩).2, ?_,
    ⟨rfl, rfl, Or.inl ⟨rfl, rfl, Or.inr (Or.inl rfl)⟩⟩, rfl, rfl,
    ⟨rfl, rfl, Or.inl ⟨rfl, rfl, Or.inr (Or.inr rfl)⟩⟩, rfl, ?_, ?_⟩
  · simp only [flushHead, hseg]
  · exact flushAcks_made rfl made_empty hacks
  · exact fun hne ↦ flushAcks_holds hne rfl made_empty hacks

theorem flushHead_holds_ack {kcp : Ikcpcb} (hne : kcp.acklist ≠ []) :
    (flushHead kcp).2.1.Holds (Emitted kcp []) fun _ ↦ True := by
  obtain ⟨ask, tell, out, heq, hask, haskdata, -, htell, htelldata, -, hholds⟩ :=
    flushHead_parts kcp
  rw [heq]
  exact ((hholds hne).flushProbe haskdata hask).flushProbe htelldata htell

theorem or_and_ne_zero {first second mask : UInt32}
    (hne : first &&& mask ≠ 0 ∨ second &&& mask ≠ 0) : (first ||| second) &&& mask ≠ 0 := by
  intro hzero
  have hbits : ∀ i (hi : i < 32), first.toBitVec[i] = true ∨ second.toBitVec[i] = true →
      mask.toBitVec[i] = false := by
    intro i hi
    have hbit := congrArg (fun word : UInt32 ↦ word.toBitVec[i]) hzero
    simpa using hbit
  rcases hne with hne | hne
  all_goals
    refine hne (UInt32.toBitVec_inj.1 (BitVec.eq_of_getElem_eq fun i hi ↦ ?_))
    have hbit := hbits i hi
    simp only [UInt32.toBitVec_and, BitVec.getElem_and, UInt32.toBitVec_ofNat, BitVec.getElem_zero]
    grind

/-- The peer is told the window when it asks. -/
theorem flushHead_holds_tell {kcp : Ikcpcb} (hprobe : kcp.probe &&& askTell ≠ 0) :
    (flushHead kcp).2.1.Holds (Emitted kcp []) fun _ ↦ True := by
  obtain ⟨ask, tell, out, heq, hask, haskdata, -, htell, htelldata, hmade, -⟩ :=
    flushHead_parts kcp
  have hstill : (probeWindow { kcp with acklist := [] }).probe &&& askTell ≠ 0 := by
    have hor : (kcp.probe ||| askSend) &&& askTell ≠ 0 := or_and_ne_zero (Or.inl hprobe)
    unfold probeWindow
    dsimp only
    split_ifs <;> assumption
  rw [heq]
  exact flushProbe_holds hstill htelldata (flushProbe_made haskdata hmade hask) htell trivial

/-- The peer is asked for its window when the time has come. -/
theorem flushHead_holds_ask {kcp : Ikcpcb} (hwnd : kcp.rmtWnd = 0) (hwait : kcp.probeWait ≠ 0)
    (hdue : 0 ≤ diff kcp.current kcp.tsProbe) :
    (flushHead kcp).2.1.Holds (Emitted kcp []) fun seg ↦ seg.cmd = cmdWask.toUInt32 := by
  obtain ⟨ask, tell, out, heq, hask, haskdata, hcmd, htell, htelldata, hmade, -⟩ :=
    flushHead_parts kcp
  have hset : (probeWindow { kcp with acklist := [] }).probe &&& askSend ≠ 0 := by
    unfold probeWindow
    dsimp only
    rw [if_pos hwnd, if_neg hwait, if_pos hdue]
    exact or_and_ne_zero (Or.inr (by decide))
  rw [heq]
  exact (flushProbe_holds hset haskdata hmade hask hcmd).flushProbe htelldata htell

/-- The loop over `snd_buf` leaves what is held. -/
theorem flushSegment_holds {kcp start : Ikcpcb} (hnext : kcp.rcvNxt = start.rcvNxt)
    {flushing : Flushing} (segment : Ikcpseg)
    (hholds : flushing.out.Holds (Emitted start flushing.visited) wanted) :
    (flushSegment kcp (wndUnused start) flushing segment).out.Holds
      (Emitted start (flushSegment kcp (wndUnused start) flushing segment).visited) wanted := by
  unfold flushSegment
  split
  · exact hholds.mono fun seg ↦ Emitted.mono (List.subset_append_left _ _)
  · rename_i reason _
    obtain ⟨huna, hwnd⟩ := una_resend segment kcp (wndUnused start) reason
    have hmono : flushing.out.Holds (Emitted start (flushing.visited ++
        [segment.resend kcp (wndUnused start) reason])) wanted :=
      hholds.mono fun seg ↦ Emitted.mono (List.subset_append_left _ _)
    refine (hmono.reserve kcp.mtu _).write ⟨huna.trans hnext, hwnd, Or.inr ?_⟩
    exact List.mem_append_right _ List.mem_cons_self

theorem needsend_of_due {kcp : Ikcpcb} {segment : Ikcpseg}
    (hdue : 0 ≤ diff kcp.current segment.resendts) :
    ∃ reason, needsend kcp segment = some reason := by
  by_cases hxmit : segment.xmit = 0
  · exact ⟨.first, by rw [needsend, if_pos hxmit]⟩
  · exact ⟨.timeout, by rw [needsend, if_neg hxmit, if_pos hdue]⟩

/-- A segment whose time has come is written. -/
theorem flushSegment_due {kcp start : Ikcpcb} (hnext : kcp.rcvNxt = start.rcvNxt)
    {flushing : Flushing} {segment : Ikcpseg} (hdue : 0 ≤ diff kcp.current segment.resendts)
    (hmade : flushing.out.Made (Emitted start flushing.visited)) :
    (flushSegment kcp (wndUnused start) flushing segment).out.Holds
      (Emitted start (flushSegment kcp (wndUnused start) flushing segment).visited)
      fun other ↦ other.content = segment.content := by
  obtain ⟨reason, hreason⟩ := needsend_of_due hdue
  obtain ⟨huna, hwnd⟩ := una_resend segment kcp (wndUnused start) reason
  simp only [flushSegment, hreason]
  have hmono : flushing.out.Made (Emitted start (flushing.visited ++
      [segment.resend kcp (wndUnused start) reason])) :=
    hmade.mono fun seg ↦ Emitted.mono (List.subset_append_left _ _)
  exact (hmono.reserve kcp.mtu _).holds
    ⟨huna.trans hnext, hwnd, Or.inr (List.mem_append_right _ List.mem_cons_self)⟩
    (content_resend segment kcp (wndUnused start) reason)

/-- What is held before the loop over `snd_buf` is held after it, and so are the segments whose time
has come. -/
theorem flushData_holds {kcp start : Ikcpcb} (hnext : kcp.rcvNxt = start.rcvNxt)
    (hmade : out.Made (Emitted start []))
    (hwanted : out.Holds (Emitted start []) wanted ∨ ∃ seg ∈ kcp.sndBuf,
      0 ≤ diff kcp.current seg.resendts ∧ ∀ other, other.content = seg.content → wanted other) :
    (flushData kcp (wndUnused start) out).out.Holds
      (Emitted start (flushData kcp (wndUnused start) out).visited) wanted := by
  have hfold : ∀ (segs : List Ikcpseg) (flushing : Flushing),
      flushing.out.Made (Emitted start flushing.visited) →
      (flushing.out.Holds (Emitted start flushing.visited) wanted ∨ ∃ seg ∈ segs,
        0 ≤ diff kcp.current seg.resendts ∧ ∀ other, other.content = seg.content → wanted other) →
      (segs.foldl (flushSegment kcp (wndUnused start)) flushing).out.Holds (Emitted start
        (segs.foldl (flushSegment kcp (wndUnused start)) flushing).visited) wanted := by
    intro segs
    induction segs with
    | nil =>
      intro flushing _ hflushing
      exact hflushing.resolve_right fun ⟨_, hseg, _⟩ ↦ absurd hseg List.not_mem_nil
    | cons seg rest ih =>
      intro flushing hflushing hheld
      refine ih _ (flushSegment_made hnext seg hflushing) ?_
      rcases hheld with hheld | ⟨other, hother, hdue, hwanted⟩
      · exact Or.inl (flushSegment_holds hnext seg hheld)
      · rcases List.mem_cons.mp hother with rfl | hother
        · exact Or.inl ((flushSegment_due hnext hdue hflushing).imp hwanted)
        · exact Or.inr ⟨other, hother, hdue, hwanted⟩
  exact hfold kcp.sndBuf _ hmade hwanted

/-- What `ikcp_flush` must put out. -/
theorem flush_holds {kcp : Ikcpcb} (hupdated : kcp.updated ≠ 0)
    (hwanted : (flushHead kcp).2.1.Holds (Emitted kcp []) wanted ∨ ∃ seg ∈ kcp.sndBuf,
      0 ≤ diff kcp.current seg.resendts ∧ ∀ other, other.content = seg.content → wanted other) :
    ∃ bytes ∈ (flush kcp).1, Carries (Emitted kcp (flush kcp).2.sndBuf) wanted bytes := by
  obtain ⟨moved, rest, added, -, wait, ts, heq⟩ := flushHead_spec kcp
  have hnext : (flushHead kcp).1.rcvNxt = kcp.rcvNxt := by rw [heq]
  have hbuf : (flushHead kcp).1.sndBuf = kcp.sndBuf ++ added := by rw [heq]
  have hcurrent : (flushHead kcp).1.current = kcp.current := by rw [heq]
  obtain ⟨hmade, hwnd⟩ := flushHead_made kcp []
  obtain ⟨hsent, hvisited⟩ := flush_parts hupdated
  rw [hsent, hvisited, hwnd]
  refine (flushData_holds hnext hmade (hwanted.imp_right ?_)).output
  rintro ⟨seg, hseg, hdue, hall⟩
  refine ⟨seg, ?_, ?_, hall⟩
  · rw [hbuf]
    exact List.mem_append_left _ hseg
  · rw [hcurrent]
    exact hdue

/-! ### `ikcp_input` with the wanted segment -/

/-- Induction over the segments of a datagram that carries the wanted one: what holds before it, and
what holds after it. -/
theorem input_carries {before after : Ikcpcb → Prop} {kcp : Ikcpcb} {bytes : List UInt8}
    (hcarries : Carries property wanted bytes)
    (hreadable : ∀ seg, property seg → seg.Readable kcp.conv) (hstart : before kcp)
    (hbefore : ∀ inputting seg, before inputting.kcp → property seg →
      before (inputSegment inputting seg.header seg.data).kcp)
    (hwanted : ∀ inputting seg, before inputting.kcp → property seg → wanted seg →
      after (inputSegment inputting seg.header seg.data).kcp)
    (hafter : ∀ inputting seg, after inputting.kcp → property seg →
      after (inputSegment inputting seg.header seg.data).kcp)
    (hfastack : ∀ next sn, after next → after (parseFastack next sn))
    (hgrow : ∀ next prevUna, after next → after (growWindow next prevUna)) :
    after (input kcp bytes).2 := by
  obtain ⟨segs, rfl, hsegs, hmem⟩ := hcarries
  have hlater : ∀ (segs : List Ikcpseg) (inputting : Inputting), (∀ seg ∈ segs, property seg) →
      after inputting.kcp → after (inputSegments inputting segs).kcp := by
    intro segs
    induction segs with
    | nil => exact fun inputting _ hinputting ↦ hinputting
    | cons seg rest ih =>
      intro inputting hproperty hinputting
      refine ih _ (fun other hother ↦ hproperty other (List.mem_cons_of_mem seg hother)) ?_
      exact hafter inputting seg hinputting (hproperty seg List.mem_cons_self)
  have hfold : ∀ (segs : List Ikcpseg) (inputting : Inputting), (∀ seg ∈ segs, property seg) →
      (∃ seg ∈ segs, wanted seg) → before inputting.kcp →
      after (inputSegments inputting segs).kcp := by
    intro segs
    induction segs with
    | nil => exact fun _ _ ⟨_, hseg, _⟩ _ ↦ absurd hseg List.not_mem_nil
    | cons seg rest ih =>
      rintro inputting hproperty ⟨other, hother, hgoal⟩ hinputting
      have hseg := hproperty seg List.mem_cons_self
      have hrest : ∀ later ∈ rest, property later :=
        fun later hlater ↦ hproperty later (List.mem_cons_of_mem seg hlater)
      rcases List.mem_cons.mp hother with rfl | hother
      · exact hlater rest _ hrest (hwanted inputting other hinputting hseg hgoal)
      · exact ih _ hrest ⟨other, hother, hgoal⟩ (hbefore inputting seg hinputting hseg)
  have hne : segs ≠ [] := by
    obtain ⟨seg, hseg, -⟩ := hmem
    exact List.ne_nil_of_mem hseg
  have hdone := hfold segs ⟨kcp, false, 0⟩ hsegs hmem hstart
  rw [input_bytes hne fun seg hseg ↦ hreadable seg (hsegs seg hseg)]
  refine hgrow _ _ ?_
  split
  · exact hfastack _ _ hdone
  · exact hdone

/-! ### The next segment -/

variable {limit : ℕ} {numbered : List (UInt32 × List UInt8)} {read : List Ikcpseg} {kcp : Ikcpcb}

/-- The counter of `rcv_queue` shows whether there is room. -/
theorem Receiver.Valid.room {receiver : Receiver} (hlimit : limit < 2147483648)
    (hvalid : receiver.Valid limit read) :
    receiver.nrcvQue < receiver.rcvWnd ↔ receiver.rcvQueue.length < receiver.rcvWnd.toNat := by
  have hqueue := hvalid.queue_le
  rw [UInt32.lt_iff_toNat_lt, hvalid.queue, toNat_ofNat_of_lt (by omega)]

/-- The next segment stays in `rcv_buf` only if `rcv_queue` is full. -/
theorem moveAvailable_settled (hlimit : limit < 2147483648)
    (hvalid : kcp.receiver.Valid limit read) {seg : Ikcpseg}
    (hseg : seg ∈ (moveAvailable kcp).rcvBuf) (hsn : seg.sn = (moveAvailable kcp).rcvNxt) :
    ¬ (moveAvailable kcp).nrcvQue < (moveAvailable kcp).rcvWnd := by
  have hascending := (hvalid.moveAvailable hlimit).ascending
  have hhead : ((moveAvailable kcp).rcvBuf.map Ikcpseg.sn).head? =
      some (moveAvailable kcp).rcvNxt :=
    hascending.head_of_mem (List.mem_map.mpr ⟨seg, hseg, hsn⟩)
  obtain ⟨moved, rest, -, -, -, hstop, heq⟩ := moveLoop_spec kcp kcp.rcvBuf
  rw [moveAvailable, heq] at hhead ⊢
  rw [List.head?_map, Option.map_eq_some_iff] at hhead
  obtain ⟨first, hfirst, hnext⟩ := hhead
  exact fun hroom ↦ hstop first hfirst ⟨hnext, hroom⟩

/-- If the next segment is in `rcv_buf` and there is room, data are moved. -/
theorem moveAvailable_advance (hvalid : kcp.receiver.Valid limit read) {seg : Ikcpseg}
    (hseg : seg ∈ kcp.rcvBuf) (hsn : seg.sn = kcp.rcvNxt) (hroom : kcp.nrcvQue < kcp.rcvWnd) :
    kcp.rcvQueue.length < (moveAvailable kcp).rcvQueue.length := by
  have hhead : (kcp.rcvBuf.map Ikcpseg.sn).head? = some kcp.rcvNxt :=
    hvalid.ascending.head_of_mem (List.mem_map.mpr ⟨seg, hseg, hsn⟩)
  obtain ⟨moved, rest, hbuf, -, -, hstop, heq⟩ := moveLoop_spec kcp kcp.rcvBuf
  have hmoved : moved ≠ [] := by
    rintro rfl
    rw [List.nil_append] at hbuf
    rw [hbuf, List.head?_map, Option.map_eq_some_iff] at hhead
    obtain ⟨first, hfirst, hnext⟩ := hhead
    exact hstop first hfirst (by simpa using ⟨hnext, hroom⟩)
  rw [moveAvailable, heq, List.length_append]
  have hpos := List.length_pos_of_ne_nil hmoved
  omega

/-- The number that is expected arrives, and there is room for it. -/
theorem inputPush_advance (hlimit : limit < 2147483648) (hvalid : kcp.receiver.Valid limit read)
    (hroom : kcp.nrcvQue < kcp.rcvWnd) {header : Header} (hsn : header.sn = kcp.rcvNxt)
    (data : List UInt8) :
    kcp.rcvQueue.length < (inputPush kcp header data).rcvQueue.length := by
  have hwindow : kcp.rcvWnd.toNat ≤ limit := hvalid.window
  have hpos : 0 < kcp.rcvWnd.toNat :=
    Nat.lt_of_le_of_lt (Nat.zero_le _) (UInt32.lt_iff_toNat_lt.mp hroom)
  have hself : 0 ≤ diff header.sn kcp.rcvNxt := by
    rw [hsn, diff_nonneg_iff, offset_self]
    decide
  have hahead : diff header.sn (kcp.rcvNxt + kcp.rcvWnd) < 0 := by
    rw [hsn, @diff_eq_sub kcp.rcvNxt _ _ (by rw [offset_self]; decide) (by rw [offset_add]; omega),
      offset_self, offset_add]
    omega
  set acked := ackPush kcp header.sn header.ts with hacked
  have hvalid' : acked.receiver.Valid limit read := hvalid.acklist _
  have hpush : inputPush kcp header data =
      moveAvailable (insertBuf acked (header.segment data)) := by
    rw [inputPush, if_pos hahead]
    change (if 0 ≤ diff header.sn kcp.rcvNxt then parseData acked (header.segment data) else _) = _
    rw [if_pos hself]
    exact if_neg (not_or.mpr ⟨not_le.mpr hahead, not_lt.mpr hself⟩)
  obtain ⟨⟨seg, hseg, hnumber⟩, -, -, heq⟩ := mem_insertBuf acked (header.segment data)
  have hinsert : (insertBuf acked (header.segment data)).receiver.Valid limit read := by
    refine hvalid'.insertBuf hlimit ?_
    change offset kcp.rcvNxt header.sn < limit
    rw [hsn, offset_self]
    omega
  have hnext : (insertBuf acked (header.segment data)).rcvNxt = kcp.rcvNxt :=
    congrArg Receiver.rcvNxt heq
  have hcount : (insertBuf acked (header.segment data)).nrcvQue = kcp.nrcvQue :=
    congrArg Receiver.nrcvQue heq
  have hwnd : (insertBuf acked (header.segment data)).rcvWnd = kcp.rcvWnd :=
    congrArg Receiver.rcvWnd heq
  have hqueue : (insertBuf acked (header.segment data)).rcvQueue = kcp.rcvQueue :=
    congrArg Receiver.rcvQueue heq
  rw [hpush, ← hqueue]
  refine moveAvailable_advance hinsert hseg ?_ ?_
  · exact (hnumber.trans hsn).trans hnext.symm
  · rwa [hcount, hwnd]

theorem inputSegment_push (inputting : Inputting) {header : Header} (hcmd : header.cmd = cmdPush)
    (data : List UInt8) :
    (inputSegment inputting header data).kcp =
      inputPush (inputCommon inputting.kcp header) header data := by
  have hack : header.cmd ≠ cmdAck := by
    rw [hcmd]
    decide
  simp only [inputSegment, if_neg hack, if_pos hcmd]

theorem rcvWnd_inputPush (kcp : Ikcpcb) (header : Header) (data : List UInt8) :
    (inputPush kcp header data).rcvWnd = kcp.rcvWnd := by
  simp only [inputPush, parseData]
  split_ifs
  · rfl
  · obtain ⟨-, -, -, hinsert⟩ := mem_insertBuf (ackPush kcp header.sn header.ts)
      (header.segment data)
    obtain ⟨moved, rest, -, -, -, -, heq⟩ := moveLoop_spec
      (insertBuf (ackPush kcp header.sn header.ts) (header.segment data))
      (insertBuf (ackPush kcp header.sn header.ts) (header.segment data)).rcvBuf
    rw [moveAvailable, heq]
    exact congrArg Receiver.rcvWnd hinsert
  · rfl
  · rfl

theorem rcvWnd_inputSegment (inputting : Inputting) (header : Header) (data : List UInt8) :
    (inputSegment inputting header data).kcp.rcvWnd = inputting.kcp.rcvWnd := by
  have hcommon : (inputCommon inputting.kcp header).rcvWnd = inputting.kcp.rcvWnd :=
    congrArg Receiver.rcvWnd (receiver_inputCommon inputting.kcp header)
  simp only [inputSegment]
  split_ifs
  · exact (congrArg Receiver.rcvWnd (receiver_inputAck _ header)).trans hcommon
  · rw [rcvWnd_inputPush, hcommon]
  · exact hcommon
  · exact hcommon

/-- A datagram with the number that is expected takes the receiver further, if there is room. -/
theorem input_advance (hlimit : limit < 2147483648) (hbound : numbered.length ≤ bound)
    (howns : kcp.receiver.Owns numbered read) (hvalid : kcp.receiver.Valid limit read)
    (hroom : kcp.rcvQueue.length < kcp.rcvWnd.toNat) {bytes : List UInt8}
    (hcarries : Carries (Ikcpseg.Carried kcp.conv numbered) (fun seg ↦
      seg.cmd.toUInt8 = cmdPush ∧ seg.sn.toNat = (kcp.receiver.inOrder read).length) bytes) :
    (kcp.receiver.inOrder read).length <
      ((input kcp bytes).2.receiver.inOrder read).length := by
  have hcount : ∀ next : Ikcpcb, (next.receiver.inOrder read).length =
      read.length + next.rcvQueue.length := fun next ↦ List.length_append
  refine (@input_carries _ _
    (fun next ↦ next.receiver.Owns numbered read ∧ next.receiver.Valid limit read ∧
      next.rcvWnd = kcp.rcvWnd ∧
      (kcp.receiver.inOrder read).length ≤ (next.receiver.inOrder read).length)
    (fun next ↦ next.receiver.Owns numbered read ∧
      (kcp.receiver.inOrder read).length < (next.receiver.inOrder read).length)
    kcp bytes hcarries (fun _ hseg ↦ hseg.readable) ⟨howns, hvalid, rfl, Nat.le_refl _⟩
    ?_ ?_ ?_ ?_ ?_).2
  · rintro inputting seg ⟨hnext, hnextvalid, hwnd, hle⟩ hseg
    obtain ⟨hnext', hgrows⟩ := hnext.inputSegment hbound hseg
    exact ⟨hnext', hnextvalid.inputSegment hlimit seg.header seg.data,
      (rcvWnd_inputSegment _ _ _).trans hwnd, Nat.le_trans hle hgrows.count⟩
  · rintro inputting seg ⟨hnext, hnextvalid, hwnd, hle⟩ hseg ⟨hpush, hsn⟩
    obtain ⟨hnext', hgrows⟩ := hnext.inputSegment hbound hseg
    refine ⟨hnext', ?_⟩
    rcases Nat.lt_or_eq_of_le hle with hlt | heq
    · exact Nat.lt_of_lt_of_le hlt hgrows.count
    · -- nothing has been moved, so that the number is still expected and there is still room
      have hcommon := receiver_inputCommon inputting.kcp seg.header
      have hexpected : inputting.kcp.rcvNxt.toNat = _ := hnext.taken.toNat_next hbound
      have hqueue : inputting.kcp.rcvQueue.length = kcp.rcvQueue.length := by
        rw [hcount, hcount] at heq
        omega
      have hvalid' : (inputCommon inputting.kcp seg.header).receiver.Valid limit read :=
        hcommon ▸ hnextvalid
      have hroom' : (inputCommon inputting.kcp seg.header).nrcvQue <
          (inputCommon inputting.kcp seg.header).rcvWnd := by
        refine (hvalid'.room hlimit).mpr ?_
        rw [hcommon]
        change inputting.kcp.rcvQueue.length < inputting.kcp.rcvWnd.toNat
        rwa [hqueue, hwnd]
      have hsn' : seg.header.sn = (inputCommon inputting.kcp seg.header).rcvNxt := by
        have hnxt : (inputCommon inputting.kcp seg.header).rcvNxt = inputting.kcp.rcvNxt :=
          congrArg Receiver.rcvNxt hcommon
        rw [hnxt, ← UInt32.toNat_inj, hexpected, ← heq]
        exact hsn
      have hadvance := inputPush_advance hlimit hvalid' hroom' hsn' seg.data
      have hqueue' : (inputCommon inputting.kcp seg.header).rcvQueue = inputting.kcp.rcvQueue :=
        congrArg Receiver.rcvQueue hcommon
      rw [hqueue', ← inputSegment_push inputting hpush] at hadvance
      rw [heq, hcount, hcount]
      exact Nat.add_lt_add_left hadvance _
  · rintro inputting seg ⟨hnext, hlt⟩ hseg
    obtain ⟨hnext', hgrows⟩ := hnext.inputSegment hbound hseg
    exact ⟨hnext', Nat.lt_of_lt_of_le hlt hgrows.count⟩
  · intro next sn hnext
    rwa [receiver_parseFastack]
  · intro next prevUna hnext
    rwa [receiver_growWindow]

/-! ### Acknowledgements -/

theorem acklist_parseData (kcp : Ikcpcb) (seg : Ikcpseg) :
    (parseData kcp seg).acklist = kcp.acklist := by
  unfold parseData
  split
  · rfl
  · obtain ⟨-, -, -, heq⟩ := mem_insertBuf kcp seg
    rw [acklist_moveAvailable]
    exact congrArg Receiver.acklist heq

/-- Every number below the end of the window is acknowledged. -/
theorem acklist_inputPush (kcp : Ikcpcb) (header : Header) (data : List UInt8) :
    (inputPush kcp header data).acklist =
      if diff header.sn (kcp.rcvNxt + kcp.rcvWnd) < 0 then
        kcp.acklist ++ [(header.sn, header.ts)]
      else kcp.acklist := by
  unfold inputPush
  split
  · dsimp only
    split
    · rw [acklist_parseData]
      rfl
    · rfl
  · rfl

/-- Acknowledgements wait until the next flush. -/
theorem acklist_inputSegment (inputting : Inputting) (header : Header) (data : List UInt8) :
    inputting.kcp.acklist <+: (inputSegment inputting header data).kcp.acklist := by
  have hcommon : (inputCommon inputting.kcp header).acklist = inputting.kcp.acklist :=
    congrArg Receiver.acklist (receiver_inputCommon inputting.kcp header)
  rw [← hcommon]
  simp only [inputSegment]
  split_ifs
  · have hack := congrArg Receiver.acklist (receiver_inputAck
      ⟨inputCommon inputting.kcp header, inputting.flag, inputting.maxack⟩ header)
    exact ⟨[], (List.append_nil _).trans hack.symm⟩
  · rw [acklist_inputPush]
    split
    · exact List.prefix_append _ _
    · exact List.prefix_rfl
  · exact List.prefix_rfl
  · exact List.prefix_rfl

/-- When all numbers have been received, one that arrives again is acknowledged again. -/
theorem input_acks (hlimit : limit ≤ 65535) (hbound : numbered.length ≤ bound)
    (howns : kcp.receiver.Owns numbered read) (hvalid : kcp.receiver.Valid limit read)
    (hall : (kcp.receiver.inOrder read).length = numbered.length) {bytes : List UInt8}
    (hcarries : Carries (Ikcpseg.Carried kcp.conv numbered) (fun seg ↦
      seg.cmd.toUInt8 = cmdPush ∧ numbered.length ≤ seg.sn.toNat + 65535) bytes) :
    (input kcp bytes).2.acklist ≠ [] := by
  refine @input_carries _ _
    (fun next ↦ next.receiver.Owns numbered read ∧ next.receiver.Valid limit read ∧
      numbered.length ≤ (next.receiver.inOrder read).length)
    (fun next ↦ next.receiver.acklist ≠ []) kcp bytes hcarries (fun _ hseg ↦ hseg.readable)
    ⟨howns, hvalid, Nat.le_of_eq hall.symm⟩ ?_ ?_ ?_ ?_ ?_
  · rintro inputting seg ⟨hnext, hnextvalid, hle⟩ hseg
    obtain ⟨hnext', hgrows⟩ := hnext.inputSegment hbound hseg
    exact ⟨hnext', hnextvalid.inputSegment (by omega) seg.header seg.data,
      Nat.le_trans hle hgrows.count⟩
  · rintro inputting seg ⟨hnext, hnextvalid, hle⟩ hseg ⟨hpush, hsn⟩
    obtain ⟨hlt, -⟩ := List.getElem?_eq_some_iff.mp (hseg.push hpush)
    have hnext' : inputting.kcp.rcvNxt.toNat = _ := hnext.taken.toNat_next hbound
    have hcount := hnext.taken.count_le
    have hwnd : inputting.kcp.rcvWnd.toNat ≤ limit := hnextvalid.window
    have hoffset := offset_eq_ite seg.sn inputting.kcp.rcvNxt
    have hacked : diff seg.sn (inputting.kcp.rcvNxt + inputting.kcp.rcvWnd) < 0 := by
      rw [if_pos (by omega)] at hoffset
      exact diff_add_neg (by omega) (by omega)
    have hcommon := receiver_inputCommon inputting.kcp seg.header
    have hpushed := acklist_inputPush (inputCommon inputting.kcp seg.header) seg.header seg.data
    rw [if_pos] at hpushed
    · rw [inputSegment_push inputting hpush]
      change (inputPush _ _ _).acklist ≠ []
      rw [hpushed]
      exact List.append_ne_nil_of_right_ne_nil _ (List.cons_ne_nil _ _)
    · change diff seg.sn ((inputCommon inputting.kcp seg.header).receiver.rcvNxt +
        (inputCommon inputting.kcp seg.header).receiver.rcvWnd) < 0
      rw [hcommon]
      exact hacked
  · intro inputting seg hnext _
    obtain ⟨more, hmore⟩ := acklist_inputSegment inputting seg.header seg.data
    change (inputSegment inputting seg.header seg.data).kcp.acklist ≠ []
    rw [← hmore]
    exact List.append_ne_nil_of_left_ne_nil hnext more
  · intro next sn hnext
    rwa [receiver_parseFastack]
  · intro next prevUna hnext
    rwa [receiver_growWindow]

/-! ### Windows -/

/-- The members that decide when the window of the peer is probed, and how many segments may be in
flight. -/
structure Policy where
  sndWnd : UInt32
  probe : UInt32
  probeWait : UInt32
  tsProbe : UInt32

/-- The policy of a control block. -/
def Ikcpcb.policy (kcp : Ikcpcb) : Policy := ⟨kcp.sndWnd, kcp.probe, kcp.probeWait, kcp.tsProbe⟩

theorem policy_shrinkBuf (kcp : Ikcpcb) : (shrinkBuf kcp).policy = kcp.policy := by
  unfold shrinkBuf
  split <;> rfl

theorem policy_inputCommon (kcp : Ikcpcb) (header : Header) :
    (inputCommon kcp header).policy = kcp.policy := policy_shrinkBuf _

theorem policy_inputAck (inputting : Inputting) (header : Header) :
    (inputAck inputting header).kcp.policy = inputting.kcp.policy := by
  simp only [inputAck, policy_shrinkBuf, parseAck]
  split_ifs <;> rfl

theorem policy_moveLoop (kcp : Ikcpcb) (segs : List Ikcpseg) :
    (moveLoop kcp segs).policy = kcp.policy := by
  obtain ⟨moved, rest, -, -, -, -, heq⟩ := moveLoop_spec kcp segs
  rw [heq]
  rfl

theorem policy_inputPush (kcp : Ikcpcb) (header : Header) (data : List UInt8) :
    (inputPush kcp header data).policy = kcp.policy := by
  have hinsert : ∀ (start : Ikcpcb) (seg : Ikcpseg),
      (insertBuf start seg).policy = start.policy := by
    intro start seg
    unfold insertBuf
    split <;> rfl
  simp only [inputPush, parseData]
  split_ifs
  · rfl
  · rw [moveAvailable, policy_moveLoop, hinsert]
    rfl
  · rfl
  · rfl

/-- A window command of the peer asks for an answer; nothing else that arrives changes the policy.
-/
theorem policy_inputSegment (inputting : Inputting) (header : Header) (data : List UInt8) :
    (inputSegment inputting header data).kcp.policy =
      if header.cmd = cmdWask then
        { inputting.kcp.policy with probe := inputting.kcp.probe ||| askTell }
      else inputting.kcp.policy := by
  have hcommon := policy_inputCommon inputting.kcp header
  simp only [inputSegment]
  split_ifs with hack hask hpush hask hask
  · rw [hack] at hask
    exact absurd hask (by decide)
  · rw [policy_inputAck]
    exact hcommon
  · rw [hpush] at hask
    exact absurd hask (by decide)
  · rw [policy_inputPush]
    exact hcommon
  · change ({ (inputCommon inputting.kcp header).policy with
      probe := (inputCommon inputting.kcp header).policy.probe ||| askTell } : Policy) = _
    rw [hcommon]
    rfl
  · exact hcommon

theorem policy_parseFastack (kcp : Ikcpcb) (sn : UInt32) :
    (parseFastack kcp sn).policy = kcp.policy := by
  unfold parseFastack
  split <;> rfl

theorem policy_growWindow (kcp : Ikcpcb) (prevUna : UInt32) :
    (growWindow kcp prevUna).policy = kcp.policy := by
  unfold growWindow
  dsimp only
  split_ifs <;> rfl

/-- The peer asks for the window. -/
theorem input_asks {bytes : List UInt8}
    (hcarries : Carries (Ikcpseg.Readable kcp.conv)
      (fun seg ↦ seg.cmd = cmdWask.toUInt32) bytes) :
    (input kcp bytes).2.probe &&& askTell ≠ 0 := by
  refine @input_carries _ _ (fun _ ↦ True) (fun next ↦ next.policy.probe &&& askTell ≠ 0) kcp bytes
    hcarries (fun _ hseg ↦ hseg) trivial (fun _ _ _ _ ↦ trivial) ?_ ?_ ?_ ?_
  · intro inputting seg _ _ hcmd
    have hheader : seg.header.cmd = cmdWask := by
      change seg.cmd.toUInt8 = cmdWask
      rw [hcmd]
      decide
    rw [policy_inputSegment, if_pos hheader]
    exact or_and_ne_zero (Or.inr (by decide))
  · intro inputting seg hnext _
    rw [policy_inputSegment]
    split
    · exact or_and_ne_zero (Or.inl hnext)
    · exact hnext
  · intro next sn hnext
    rwa [policy_parseFastack]
  · intro next prevUna hnext
    rwa [policy_growWindow]

theorem wnd_header {seg : Ikcpseg} (hwnd : seg.wnd.toNat ≤ 65535) :
    seg.header.wnd.toUInt32 = seg.wnd := by
  refine UInt32.toNat_inj.mp ?_
  change seg.wnd.toUInt16.toUInt32.toNat = seg.wnd.toNat
  rw [UInt16.toNat_toUInt32, UInt32.toNat_toUInt16]
  exact Nat.mod_eq_of_lt (Nat.lt_succ_of_le hwnd)

theorem unaLoop_eq_nil {una : UInt32} {segs : List Ikcpseg}
    (hsegs : ∀ seg ∈ segs, 0 < diff una seg.sn) : (unaLoop una segs).1 = [] := by
  induction segs with
  | nil => rfl
  | cons seg rest ih =>
    rw [unaLoop, if_pos (hsegs seg List.mem_cons_self)]
    exact ih fun other hother ↦ hsegs other (List.mem_cons_of_mem seg hother)

theorem rmtWnd_inputSegment (inputting : Inputting) (header : Header) (data : List UInt8) :
    (inputSegment inputting header data).kcp.rmtWnd = header.wnd.toUInt32 := by
  have hshrink : ∀ start : Ikcpcb, (shrinkBuf start).rmtWnd = start.rmtWnd :=
    fun start ↦ congrArg Sender.rmtWnd (sender_shrinkBuf start)
  have hcommon : (inputCommon inputting.kcp header).rmtWnd = header.wnd.toUInt32 := hshrink _
  simp only [inputSegment]
  split_ifs
  · simp only [inputAck, hshrink, parseAck]
    split_ifs <;> exact hcommon
  · exact (congrArg Sender.rmtWnd (sender_inputPush _ header data)).trans hcommon
  · exact hcommon
  · exact hcommon

/-- A datagram that reports everything in flight as received empties `snd_buf`, and it brings the
window of the peer. -/
theorem input_una {una wnd : UInt32} (hwnd : wnd.toNat ≤ 65535)
    (hbehind : ∀ seg ∈ kcp.sndBuf, 0 < diff una seg.sn) {bytes : List UInt8}
    (hcarries : Carries (fun seg ↦ seg.Readable kcp.conv ∧ seg.una = una ∧ seg.wnd = wnd)
      (fun _ ↦ True) bytes) :
    (input kcp bytes).2.sndBuf = [] ∧ (input kcp bytes).2.rmtWnd = wnd := by
  have hstep : ∀ (inputting : Inputting) (seg : Ikcpseg),
      (∀ other ∈ inputting.kcp.sndBuf, 0 < diff una other.sn) →
      seg.Readable kcp.conv ∧ seg.una = una ∧ seg.wnd = wnd →
      (inputSegment inputting seg.header seg.data).kcp.sender.sndBuf = [] ∧
        (inputSegment inputting seg.header seg.data).kcp.sender.rmtWnd = wnd := by
    rintro inputting seg hinputting ⟨-, huna, hseg⟩
    constructor
    · refine List.eq_nil_of_subset_nil ?_
      have hsublist := sndBuf_inputSegment_common inputting seg.header seg.data
      rw [sndBuf_inputCommon, show seg.header.una = una from huna, unaLoop_eq_nil hinputting]
        at hsublist
      exact hsublist.subset
    · exact (rmtWnd_inputSegment _ _ _).trans ((wnd_header (hseg ▸ hwnd)).trans hseg)
  refine @input_carries _ _ (fun next ↦ ∀ seg ∈ next.sndBuf, 0 < diff una seg.sn)
    (fun next ↦ next.sender.sndBuf = [] ∧ next.sender.rmtWnd = wnd) kcp bytes hcarries
    (fun _ hseg ↦ hseg.1) hbehind ?_ ?_ ?_ ?_ ?_
  · intro inputting seg hnext _ other hother
    exact hnext other ((sndBuf_inputSegment inputting seg.header seg.data).subset hother)
  · exact fun inputting seg hnext hseg _ ↦ hstep inputting seg hnext hseg
  · intro inputting seg hnext hseg
    refine hstep inputting seg ?_ hseg
    intro other hother
    have hempty : inputting.kcp.sndBuf = [] := hnext.1
    rw [hempty] at hother
    cases hother
  · intro next sn hnext
    unfold parseFastack
    split
    · exact hnext
    · have hempty : next.sndBuf = [] := hnext.1
      refine ⟨?_, hnext.2⟩
      change fastackLoop sn next.sndBuf = []
      rw [hempty]
      rfl
  · intro next prevUna hnext
    rwa [sender_growWindow]

end TestLinux.Ikcp
