import TestLinux.Ikcp.Messages

/-!
# Bytes in streaming mode

In streaming mode `ikcp_send` fills up the last segment of `snd_queue` before it makes new ones, and
every segment is handed over by itself. `delivered_bytes_run` is the result in either mode: the
bytes that one side hands over are the first of those that the other side has accepted.

When a buffer needs too many segments, `ikcp_send` returns -2. In streaming mode it has then put the
first bytes of the buffer into `snd_queue` already, and the peer receives them (`send_refused`). So
in this mode no buffer may be longer than 127 segments.
-/

set_option autoImplicit false
set_option relaxedAutoImplicit false

namespace TestLinux.Ikcp

open TestLinux.Serial

/-! ### `ikcp_send` -/

theorem dataOf_append (first second : List Ikcpseg) :
    dataOf (first ++ second) = dataOf first ++ dataOf second :=
  List.flatMap_append

/-- The new segments contain the buffer. -/
theorem dataOf_fragmentLoop {mss : ℕ} (stream : Int32) {left : ℕ} {buffer : List UInt8}
    (hlength : buffer.length ≤ left * mss) :
    dataOf (fragmentLoop mss stream left buffer) = buffer := by
  induction left generalizing buffer with
  | zero =>
    rw [Nat.zero_mul, Nat.le_zero, List.length_eq_zero_iff] at hlength
    rw [hlength]
    rfl
  | succ left ih =>
    have hrest : (buffer.drop mss).length ≤ left * mss := by
      rw [List.length_drop]
      rw [Nat.succ_mul] at hlength
      omega
    calc dataOf (fragmentLoop mss stream (left + 1) buffer)
        = buffer.take mss ++ dataOf (fragmentLoop mss stream left (buffer.drop mss)) := rfl
      _ = buffer.take mss ++ buffer.drop mss := by rw [ih hrest]
      _ = buffer := List.take_append_drop mss buffer

/-- The last segment is filled up from the buffer. -/
theorem dataOf_appendLast (mss : ℕ) (queue : List Ikcpseg) (buffer : List UInt8) :
    dataOf (appendLast mss queue buffer) =
      dataOf queue ++ buffer.take (extend mss queue buffer) := by
  rcases List.eq_nil_or_concat queue with rfl | ⟨front, old, rfl⟩
  · rfl
  · have hlast : (front.concat old).getLast? = some old := by simp
    simp only [appendLast, extend, hlast]
    split
    · rw [List.concat_eq_append, List.dropLast_concat, dataOf_append, dataOf_append,
        List.append_assoc, dataOf, dataOf, dataOf, List.flatMap_singleton, List.flatMap_singleton]
      rfl
    · rename_i hfull
      rw [Nat.sub_eq_zero_of_le (Nat.le_of_not_lt hfull), Nat.min_zero, List.take_zero,
        List.append_nil]

theorem fragmentCount_lt {mss len : ℕ} (hmss : 0 < mss) (hlen : len ≤ 127 * mss) :
    fragmentCount mss len < 128 := by
  unfold fragmentCount
  split
  · decide
  · rw [Nat.div_lt_iff_lt_mul hmss]
    omega

/-- The second part of `ikcp_send` queues all that is left of a short buffer. -/
theorem sendRest_bytes {kcp : Ikcpcb} (hmss : 0 < kcp.mss.toNat) {buffer : List UInt8}
    (hcount : fragmentCount kcp.mss.toNat buffer.length < 128) :
    (sendRest kcp buffer).1 = 0 ∧
      dataOf (sendRest kcp buffer).2.sndQueue = dataOf kcp.sndQueue ++ buffer := by
  have hne : fragmentCount kcp.mss.toNat buffer.length ≠ 0 := Nat.ne_of_gt (fragmentCount_pos hmss)
  have hroom : ¬ wndRcv.toNat ≤ fragmentCount kcp.mss.toNat buffer.length := Nat.not_le.mpr hcount
  simp only [sendRest]
  rw [if_neg hroom, if_neg hne]
  exact ⟨rfl, by rw [dataOf_append, dataOf_fragmentLoop _ (length_le_fragmentCount hmss)]⟩

/-- `ikcp_send` refuses a buffer and changes nothing, or queues all of its bytes. Assumes: in
streaming mode the buffer is not longer than 127 segments. -/
theorem send_bytes {kcp : Ikcpcb} (hmss : 0 < kcp.mss.toNat) {buffer : List UInt8}
    (hshort : kcp.stream ≠ 0 → buffer.length ≤ 127 * kcp.mss.toNat) :
    (send kcp buffer).1 ≠ 0 ∧ (send kcp buffer).2.sndQueue = kcp.sndQueue ∨
      (send kcp buffer).1 = 0 ∧
        dataOf (send kcp buffer).2.sndQueue = dataOf kcp.sndQueue ++ buffer := by
  by_cases hstream : kcp.stream = 0
  · rcases send_message hstream hmss buffer with ⟨hcode, hsame⟩ | ⟨hcode, count, -, hlength, hqueue⟩
    · exact Or.inl ⟨hcode, by rw [hsame]⟩
    · exact Or.inr ⟨hcode, by rw [hqueue, dataOf_append, dataOf_fragmentLoop _ hlength]⟩
  · by_cases hlong : 2147483648 ≤ buffer.length
    · rw [send, if_pos hlong]
      exact Or.inl ⟨by simp, rfl⟩
    refine Or.inr ?_
    rw [send, if_neg hlong, if_pos hstream]
    dsimp only
    split
    · rename_i hempty
      have htake : buffer.take (extend kcp.mss.toNat kcp.sndQueue buffer) = buffer := by
        rw [List.length_drop] at hempty
        exact List.take_of_length_le (Nat.le_of_sub_eq_zero hempty)
      exact ⟨rfl, by rw [dataOf_appendLast, htake]⟩
    · have hlength : (buffer.drop (extend kcp.mss.toNat kcp.sndQueue buffer)).length ≤
          127 * kcp.mss.toNat := by
        rw [List.length_drop]
        exact Nat.le_trans (Nat.sub_le _ _) (hshort hstream)
      obtain ⟨hcode, hdata⟩ := @sendRest_bytes
        { kcp with sndQueue := appendLast kcp.mss.toNat kcp.sndQueue buffer } hmss
        (buffer.drop (extend kcp.mss.toNat kcp.sndQueue buffer)) (fragmentCount_lt hmss hlength)
      refine ⟨hcode, hdata.trans ?_⟩
      rw [dataOf_appendLast, List.append_assoc, List.take_append_drop]

/-- In streaming mode, the first bytes of a buffer that is refused with -2 have been queued. -/
theorem send_refused {kcp : Ikcpcb} (hstream : kcp.stream ≠ 0) {buffer : List UInt8}
    (hcode : (send kcp buffer).1 = -2) :
    dataOf (send kcp buffer).2.sndQueue =
      dataOf kcp.sndQueue ++ buffer.take (extend kcp.mss.toNat kcp.sndQueue buffer) := by
  rw [← dataOf_appendLast]
  revert hcode
  simp only [send, sendRest]
  split_ifs
  all_goals intro hcode
  all_goals first
    | rfl
    | exact absurd hcode (by simp)

/-! ### Both directions -/

/-- The bytes of fragments. -/
def bytesOf (fragments : List (UInt32 × List UInt8)) : List UInt8 := fragments.flatMap Prod.snd

theorem bytesOf_fragment (segs : List Ikcpseg) :
    bytesOf (segs.map Ikcpseg.fragment) = dataOf segs :=
  List.flatMap_map Ikcpseg.fragment Prod.snd segs

theorem bytesOf_mono {first second : List (UInt32 × List UInt8)} (hfront : first <+: second) :
    bytesOf first <+: bytesOf second := by
  obtain ⟨tail, rfl⟩ := hfront
  rw [bytesOf, bytesOf, List.flatMap_append]
  exact List.prefix_append _ _

theorem bytesOf_queued (node : Node) :
    bytesOf node.queued = bytesOf node.numbered ++ dataOf node.kcp.sndQueue := by
  rw [← bytesOf_fragment]
  exact List.flatMap_append

/-- In streaming mode, a buffer is not longer than 127 segments. -/
def Call.Streams (node : Node) : Call → Prop
  | .send buffer => node.kcp.stream = 0 ∨ buffer.length ≤ 127 * node.kcp.mss.toNat
  | _ => True

instance (node : Node) : DecidablePred (Call.Streams node)
  | .send buffer => inferInstanceAs
      (Decidable (node.kcp.stream = 0 ∨ buffer.length ≤ 127 * node.kcp.mss.toNat))
  | .recv _ => isTrue trivial
  | .input _ => isTrue trivial
  | .flush => isTrue trivial
  | .update _ => isTrue trivial
  | .setmtu _ => isTrue trivial
  | .interval _ => isTrue trivial
  | .nodelay _ _ _ _ => isTrue trivial
  | .wndsize _ _ => isTrue trivial

/-- All bytes that are accepted are queued, and all bytes that are read are handed over. -/
structure Node.Bytes (node : Node) : Prop where
  queued : bytesOf node.queued = node.accepted.flatten
  delivered : dataOf node.read = node.delivered.flatten

theorem Node.Bytes.call {node : Node} (hbytes : node.Bytes) (hframed : node.Framed) {call : Call}
    (hstreams : call.Streams node) : (node.call call).Bytes := by
  constructor
  · by_cases hsend : ∃ buffer, call = .send buffer
    · obtain ⟨buffer, rfl⟩ := hsend
      have hmss : 0 < node.kcp.mss.toNat := by
        have hsum := hframed.mss
        have hmtu := hframed.mtu
        rw [overhead] at hsum
        omega
      rw [bytesOf_queued]
      change bytesOf node.numbered ++ dataOf (send node.kcp buffer).2.sndQueue =
        (if (send node.kcp buffer).1 = 0 then node.accepted ++ [buffer] else node.accepted).flatten
      rcases send_bytes hmss hstreams.resolve_left with ⟨hcode, hsame⟩ | ⟨hcode, hdata⟩
      · rw [hsame, if_neg hcode, ← bytesOf_queued]
        exact hbytes.queued
      · rw [hdata, if_pos hcode, ← List.append_assoc, ← bytesOf_queued, hbytes.queued,
          List.flatten_append, List.flatten_singleton]
    · obtain ⟨hqueued, haccepted⟩ := queued_call node fun buffer heq ↦ hsend ⟨buffer, heq⟩
      rw [hqueued, haccepted]
      exact hbytes.queued
  · cases call with
    | recv len =>
      rcases recv_spec node.kcp len with ⟨code, hcode, hrecv⟩ | ⟨probe, hrecv, -⟩
      · rw [Node.call, hrecv, if_neg (fun h ↦ absurd h.1 (not_le.mpr hcode))]
        exact hbytes.delivered
      · rw [Node.call, hrecv]
        split
        · rw [dataOf_append, hbytes.delivered, List.flatten_append, List.flatten_singleton]
        · exact hbytes.delivered
    | _ => exact hbytes.delivered

theorem bytes_start (conv : UInt32) (stream : Int32) : (Node.start conv stream).Bytes := ⟨rfl, rfl⟩

/-- A call at one of the two sides is not too long for streaming mode. -/
def Link.Streams (link : Link) : Link.Event → Prop
  | .first call => call.Streams link.first
  | .second call => call.Streams link.second

instance (link : Link) : DecidablePred (Link.Streams link)
  | .first call => inferInstanceAs (Decidable (call.Streams link.first))
  | .second call => inferInstanceAs (Decidable (call.Streams link.second))

/-- The invariant of the bytes. -/
structure Link.Bytes (link : Link) : Prop where
  valid : link.Valid
  first : link.first.Bytes
  second : link.second.Bytes

theorem Link.Bytes.step {link next : Link} {event : Link.Event} (hbytes : link.Bytes)
    (hstreams : link.Streams event) (hstep : link.step event = some next) : next.Bytes := by
  obtain ⟨hvalid, hfirst, hsecond⟩ := hbytes
  have hvalid' := hvalid.step hstep
  cases event with
  | first call =>
    rw [Link.step, Option.ite_none_right_eq_some] at hstep
    obtain rfl := Option.some.inj hstep.2
    exact ⟨hvalid', hfirst.call hvalid.framed.1 hstreams, hsecond⟩
  | second call =>
    rw [Link.step, Option.ite_none_right_eq_some] at hstep
    obtain rfl := Option.some.inj hstep.2
    exact ⟨hvalid', hfirst, hsecond.call hvalid.framed.2 hstreams⟩

theorem delivered_bytes {sender receiver : Node} (hflow : Flow sender receiver)
    (hsender : sender.Bytes) (hreceiver : receiver.Bytes) :
    receiver.delivered.flatten <+: sender.accepted.flatten := by
  rw [← hreceiver.delivered, ← bytesOf_fragment, ← hsender.queued]
  refine bytesOf_mono ?_
  have hreceived := hflow.owns.taken.received
  rw [Receiver.inOrder, List.map_append] at hreceived
  exact (List.prefix_append _ _).trans (hreceived.trans (List.prefix_append _ _))

/-- In either mode, over a network that loses, duplicates, delays and reorders datagrams, the bytes
that a side hands over are the first of those that the other side has accepted. Assumes: in
streaming mode no buffer is longer than 127 segments, and neither side numbers more than half of the
range of sequence numbers. -/
theorem delivered_bytes_run {conv : UInt32} {stream : Int32} {events : List Link.Event}
    {link : Link} (hrun : Runs.run Link.step (Link.start conv stream) events = some link)
    (hstreams : Runs.Along Link.step Link.Streams (Link.start conv stream) events)
    (hshort : link.Short) :
    link.second.delivered.flatten <+: link.first.accepted.flatten ∧
      link.first.delivered.flatten <+: link.second.accepted.flatten := by
  obtain ⟨hvalid, hfirst, hsecond⟩ : link.Bytes := Runs.run_invariant_along
    (fun _ _ _ hbytes hallowed hstep ↦ hbytes.step hallowed hstep)
    ⟨link_valid_start conv stream, bytes_start conv stream, bytes_start conv stream⟩ hstreams hrun
  obtain ⟨hforth, hback⟩ := hvalid.flows hshort
  exact ⟨delivered_bytes hforth hfirst hsecond, delivered_bytes hback hsecond hfirst⟩

/-- Two buffers go into one segment. -/
def joined : List Link.Event :=
  [.first (.nodelay 1 10 2 1), .first (.send [1, 2]), .first (.send [3, 4, 5]),
    .first (.update 0), .second (.input [1, 0, 0, 0, 81, 0, 128, 0, 0, 0, 0, 0, 0, 0, 0, 0, 0, 0, 0,
      0, 5, 0, 0, 0, 1, 2, 3, 4, 5]), .second (.recv 100)]

theorem delivered_bytes_joined :
    ∃ link, Runs.run Link.step (Link.start 1 1) joined = some link ∧
      link.second.delivered = [[1, 2, 3, 4, 5]] ∧ link.first.accepted = [[1, 2], [3, 4, 5]] ∧
      link.second.delivered.flatten <+: link.first.accepted.flatten ∧
        link.first.delivered.flatten <+: link.second.accepted.flatten := by
  have hview : (Runs.run Link.step (Link.start 1 1) joined).map (fun link ↦
      (link.second.delivered, link.first.accepted, link.first.numbered.length,
        link.second.numbered.length)) =
      some ([[1, 2, 3, 4, 5]], [[1, 2], [3, 4, 5]], 1, 0) := by decide +kernel
  obtain ⟨link, hrun, hseen⟩ := Runs.exists_of_view hview
  simp only [Prod.mk.injEq] at hseen
  obtain ⟨hdelivered, haccepted, hfirst, hsecond⟩ := hseen
  refine ⟨link, hrun, hdelivered, haccepted,
    delivered_bytes_run hrun (by decide +kernel) ⟨?_, ?_⟩⟩
  · rw [hfirst]
    decide
  · rw [hsecond]
    decide

end TestLinux.Ikcp
