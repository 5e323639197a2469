import TestLinux.Ikcp.Network

/-!
# Messages

In message mode `ikcp_send` numbers the fragments of a message downwards to 0, and `ikcp_recv` hands
over the segments up to the next fragment number 0. `assemble` is what this makes of a list of
fragments. `delivered_prefix_accepted_run` is the result on two control blocks and a network that
loses, duplicates, delays and reorders: the messages that one side hands over are the first of those
that the other side has accepted, each once and whole.
-/

set_option autoImplicit false
set_option relaxedAutoImplicit false

namespace TestLinux.Ikcp

open TestLinux.Serial

/-! ### Fragments and messages -/

/-- The messages of a list of fragments, with the bytes that have been collected so far. -/
def assemble (start : List UInt8) : List (UInt32 × List UInt8) → List (List UInt8)
  | [] => []
  | (frg, data) :: rest =>
    if frg = 0 then (start ++ data) :: assemble [] rest else assemble (start ++ data) rest

/-- Fragment numbers go down to 0, and the last one is 0. -/
def Countdown : List (UInt32 × List UInt8) → Prop
  | [] => True
  | [fragment] => fragment.1 = 0
  | fragment :: next :: rest =>
    (fragment.1 ≠ 0 → next.1 + 1 = fragment.1) ∧ Countdown (next :: rest)

theorem Countdown.tail {fragment : UInt32 × List UInt8} {rest : List (UInt32 × List UInt8)}
    (hcountdown : Countdown (fragment :: rest)) : Countdown rest := by
  cases rest with
  | nil => trivial
  | cons next rest => exact hcountdown.2

theorem Countdown.append {first second : List (UInt32 × List UInt8)} (hfirst : Countdown first)
    (hsecond : Countdown second) : Countdown (first ++ second) := by
  induction first with
  | nil => exact hsecond
  | cons fragment rest ih =>
    cases rest with
    | nil =>
      cases second with
      | nil => exact hfirst
      | cons next second => exact ⟨fun hne ↦ absurd hfirst hne, hsecond⟩
    | cons next rest => exact ⟨hfirst.1, ih hfirst.2⟩

theorem Countdown.drop {first second : List (UInt32 × List UInt8)}
    (hcountdown : Countdown (first ++ second)) : Countdown second := by
  induction first with
  | nil => exact hcountdown
  | cons fragment rest ih => exact ih hcountdown.tail

/-- The number of a fragment says how many of its message follow. -/
theorem Countdown.lt_length {fragment : UInt32 × List UInt8} {rest : List (UInt32 × List UInt8)}
    (hcountdown : Countdown (fragment :: rest)) :
    fragment.1.toNat < (fragment :: rest).length := by
  induction rest generalizing fragment with
  | nil =>
    rw [show fragment.1 = 0 from hcountdown]
    exact Nat.succ_pos _
  | cons next rest ih =>
    have hnext := ih hcountdown.2
    by_cases hzero : fragment.1 = 0
    · rw [hzero]
      exact Nat.succ_pos _
    · rw [← hcountdown.1 hzero, UInt32.toNat_add]
      exact Nat.lt_of_le_of_lt (Nat.mod_le _ _) (Nat.succ_lt_succ hnext)

/-- More fragments complete more messages, in order. -/
theorem assemble_mono {first second : List (UInt32 × List UInt8)} (hfront : first <+: second)
    (start : List UInt8) : assemble start first <+: assemble start second := by
  induction first generalizing second start with
  | nil => exact List.nil_prefix
  | cons fragment rest ih =>
    obtain ⟨tail, rfl⟩ := hfront
    simp only [List.cons_append, assemble]
    split
    · exact List.cons_prefix_cons.mpr ⟨rfl, ih (List.prefix_append rest tail) []⟩
    · exact ih (List.prefix_append rest tail) _

/-- The last of the fragments has the number 0. -/
def Closed (fragments : List (UInt32 × List UInt8)) : Prop :=
  ∀ fragment ∈ fragments.getLast?, fragment.1 = 0

theorem Closed.append {first second : List (UInt32 × List UInt8)} (hfirst : Closed first)
    (hsecond : Closed second) : Closed (first ++ second) := by
  intro fragment hfragment
  rw [List.getLast?_append, Option.mem_def, Option.or_eq_some_iff] at hfragment
  rcases hfragment with hlast | ⟨-, hlast⟩
  · exact hsecond fragment hlast
  · exact hfirst fragment hlast

/-- After complete messages a new one begins. -/
theorem assemble_append {first : List (UInt32 × List UInt8)} (hfirst : Closed first)
    {start : List UInt8} (hstart : first = [] → start = [])
    (second : List (UInt32 × List UInt8)) :
    assemble start (first ++ second) = assemble start first ++ assemble [] second := by
  induction first generalizing start with
  | nil =>
    rw [hstart rfl]
    rfl
  | cons fragment rest ih =>
    have hrest : Closed rest := by
      intro last hlast
      refine hfirst last ?_
      cases rest with
      | nil => cases hlast
      | cons next rest => simpa using hlast
    simp only [List.cons_append, assemble]
    split
    · rw [ih hrest fun _ ↦ rfl, List.cons_append]
    · rename_i hne
      refine ih hrest ?_
      rintro rfl
      exact absurd (hfirst fragment rfl) hne

theorem Countdown.closed {fragments : List (UInt32 × List UInt8)}
    (hcountdown : Countdown fragments) : Closed fragments := by
  induction fragments with
  | nil => exact fun _ hlast ↦ absurd hlast (by simp)
  | cons fragment rest ih =>
    intro last hlast
    cases rest with
    | nil =>
      obtain rfl : fragment = last := by simpa using hlast
      exact hcountdown
    | cons next rest => exact ih hcountdown.2 last (by simpa using hlast)

/-! ### `ikcp_send` -/

theorem fragment_fragmentLoop (mss left : ℕ) (buffer : List UInt8) :
    ((fragmentLoop mss 0 (left + 1) buffer).map Ikcpseg.fragment) =
      (UInt32.ofNat left, buffer.take mss) ::
        (fragmentLoop mss 0 left (buffer.drop mss)).map Ikcpseg.fragment := rfl

theorem ofNat_ne_zero {number : ℕ} (hpos : 0 < number) (hlt : number < 4294967296) :
    UInt32.ofNat number ≠ 0 := by
  intro hzero
  have hnat := congrArg UInt32.toNat hzero
  rw [toNat_ofNat_of_lt hlt] at hnat
  exact absurd hnat (Nat.ne_of_gt hpos)

/-- The fragments of a message are numbered downwards. -/
theorem countdown_fragmentLoop {mss left : ℕ} (hleft : left ≤ 128) (buffer : List UInt8) :
    Countdown ((fragmentLoop mss 0 left buffer).map Ikcpseg.fragment) := by
  induction left generalizing buffer with
  | zero => trivial
  | succ left ih =>
    rw [fragment_fragmentLoop]
    have hrest := ih (Nat.le_of_succ_le hleft) (buffer.drop mss)
    cases left with
    | zero => rfl
    | succ left =>
      rw [fragment_fragmentLoop] at hrest ⊢
      exact ⟨fun _ ↦ (UInt32.ofNat_add left 1).symm, hrest⟩

/-- The fragments of a message are put together again. -/
theorem assemble_fragmentLoop {mss left : ℕ} (hleft : left ≤ 128) (start buffer : List UInt8) :
    assemble start ((fragmentLoop mss 0 (left + 1) buffer).map Ikcpseg.fragment) =
      [start ++ buffer.take ((left + 1) * mss)] := by
  induction left generalizing start buffer with
  | zero =>
    rw [fragment_fragmentLoop, Nat.zero_add, Nat.one_mul]
    rfl
  | succ left ih =>
    rw [fragment_fragmentLoop, assemble, if_neg (ofNat_ne_zero (Nat.succ_pos left) (by omega)),
      ih (Nat.le_of_succ_le hleft), List.append_assoc, ← List.take_add]
    congr 3
    rw [Nat.succ_mul (left + 1), Nat.add_comm]

theorem length_le_fragmentCount {mss len : ℕ} (hmss : 0 < mss) :
    len ≤ fragmentCount mss len * mss := by
  unfold fragmentCount
  split
  · omega
  · have hdiv := Nat.div_add_mod (len + mss - 1) mss
    have hmod := Nat.mod_lt (len + mss - 1) hmss
    rw [Nat.mul_comm]
    omega

/-- In message mode `ikcp_send` refuses a buffer and changes nothing, or queues its fragments. -/
theorem send_message {kcp : Ikcpcb} (hstream : kcp.stream = 0) (hmss : 0 < kcp.mss.toNat)
    (buffer : List UInt8) :
    (send kcp buffer).1 ≠ 0 ∧ (send kcp buffer).2 = kcp ∨
      (send kcp buffer).1 = 0 ∧ ∃ count < 128, buffer.length ≤ (count + 1) * kcp.mss.toNat ∧
        (send kcp buffer).2.sndQueue =
          kcp.sndQueue ++ fragmentLoop kcp.mss.toNat 0 (count + 1) buffer := by
  have hpos : 0 < fragmentCount kcp.mss.toNat buffer.length := fragmentCount_pos hmss
  have hlength : buffer.length ≤ fragmentCount kcp.mss.toNat buffer.length * kcp.mss.toNat :=
    length_le_fragmentCount hmss
  simp only [send, hstream, sendRest]
  split
  · exact Or.inl ⟨by simp, rfl⟩
  · rw [if_neg (not_not.mpr rfl)]
    split
    · exact Or.inl ⟨by simp, rfl⟩
    · rename_i hcount
      have hlt : fragmentCount kcp.mss.toNat buffer.length < 128 := Nat.lt_of_not_le hcount
      refine Or.inr ⟨rfl, fragmentCount kcp.mss.toNat buffer.length - 1, by omega, ?_, ?_⟩
      · rwa [Nat.sub_add_cancel hpos]
      · rw [if_neg (Nat.ne_of_gt hpos), Nat.sub_add_cancel hpos]

/-- A call other than `ikcp_send` does not change what is queued or accepted. -/
theorem queued_call (node : Node) {call : Call} (hcall : ∀ buffer, call ≠ .send buffer) :
    (node.call call).queued = node.queued ∧ (node.call call).accepted = node.accepted := by
  cases call with
  | send buffer => exact absurd rfl (hcall buffer)
  | recv len =>
    have hqueue : (recv node.kcp len).2.2.sndQueue = node.kcp.sndQueue :=
      congrArg Sender.sndQueue (sender_recv node.kcp len)
    rw [Node.call]
    split
    all_goals
      refine ⟨?_, rfl⟩
      rw [Node.queued, hqueue]
      rfl
  | input data =>
    have hqueue : (input node.kcp data).2.sndQueue = node.kcp.sndQueue :=
      congrArg Prod.fst (waiting_input node.kcp data)
    refine ⟨?_, rfl⟩
    rw [Node.call, Node.queued, hqueue]
    rfl
  | flush => exact ⟨Node.queued_flushed (flush_queue node.kcp), rfl⟩
  | update current => exact ⟨Node.queued_flushed (update_queue node.kcp current), rfl⟩
  | setmtu mtu =>
    refine ⟨?_, rfl⟩
    change node.numbered ++ (setmtu node.kcp mtu).2.sndQueue.map Ikcpseg.fragment = node.queued
    unfold setmtu
    split <;> rfl
  | interval time => exact ⟨rfl, rfl⟩
  | nodelay delay time resend nc => exact ⟨rfl, rfl⟩
  | wndsize sndwnd rcvwnd => exact ⟨rfl, rfl⟩

theorem stream_call (node : Node) (call : Call) :
    (node.call call).kcp.stream = node.kcp.stream := by
  cases call with
  | send buffer =>
    change (send node.kcp buffer).2.stream = node.kcp.stream
    rw [send_spec]
  | recv len =>
    rw [Node.call]
    split <;> exact congrArg Fixed.stream (fixed_recv node.kcp len)
  | input data => exact congrArg Fixed.stream (fixed_input node.kcp data)
  | flush => exact congrArg Fixed.stream (fixed_flush node.kcp)
  | update current => exact congrArg Fixed.stream (fixed_update node.kcp current)
  | setmtu mtu =>
    change (setmtu node.kcp mtu).2.stream = node.kcp.stream
    unfold setmtu
    split <;> rfl
  | interval time => rfl
  | nodelay delay time resend nc => rfl
  | wndsize sndwnd rcvwnd => rfl

/-- In message mode, what is queued are the messages that have been accepted, cut up. -/
structure Node.Cut (node : Node) : Prop where
  stream : node.kcp.stream = 0
  countdown : Countdown node.queued
  messages : assemble [] node.queued = node.accepted

theorem Node.Cut.call {node : Node} (hcut : node.Cut) (hframed : node.Framed) (call : Call) :
    (node.call call).Cut := by
  by_cases hsend : ∃ buffer, call = .send buffer
  · obtain ⟨buffer, rfl⟩ := hsend
    have hmss : 0 < node.kcp.mss.toNat := by
      have hsum := hframed.mss
      have hmtu := hframed.mtu
      rw [overhead] at hsum
      omega
    refine ⟨(stream_call node _).trans hcut.stream, ?_, ?_⟩
    all_goals
      rw [Node.call, Node.queued]
      rcases send_message hcut.stream hmss buffer with
        ⟨hcode, hsame⟩ | ⟨hcode, count, hcount, hlength, hqueue⟩
    · rw [hsame]
      exact hcut.countdown
    · rw [hqueue, List.map_append, ← List.append_assoc]
      exact hcut.countdown.append (countdown_fragmentLoop hcount buffer)
    · rw [hsame, if_neg hcode]
      exact hcut.messages
    · rw [hqueue, if_pos hcode, List.map_append, ← List.append_assoc]
      change assemble [] (node.queued ++ _) = node.accepted ++ [buffer]
      rw [assemble_append hcut.countdown.closed (fun _ ↦ rfl),
        assemble_fragmentLoop (Nat.le_of_lt hcount), List.take_of_length_le hlength, hcut.messages]
      rfl
  · obtain ⟨hqueued, haccepted⟩ := queued_call node fun buffer heq ↦ hsend ⟨buffer, heq⟩
    refine ⟨(stream_call node call).trans hcut.stream, ?_, ?_⟩
    · rw [hqueued]
      exact hcut.countdown
    · rw [hqueued, haccepted]
      exact hcut.messages

theorem cut_start (conv : UInt32) : (Node.start conv 0).Cut := ⟨rfl, trivial, rfl⟩

/-! ### `ikcp_recv` -/

/-- The segments up to the first one with the fragment number 0 are a message. Assumes: the first
one has such a number that this segment is there. -/
theorem mergeLoop_message {segs : List Ikcpseg} {more : List (UInt32 × List UInt8)}
    (hcountdown : Countdown (segs.map Ikcpseg.fragment ++ more))
    (hlength : ∀ seg ∈ segs.head?, seg.frg.toNat < segs.length) (hsegs : segs ≠ [])
    (start : List UInt8) :
    Closed ((mergeLoop segs).1.map Ikcpseg.fragment) ∧
      assemble start ((mergeLoop segs).1.map Ikcpseg.fragment) =
        [start ++ dataOf (mergeLoop segs).1] := by
  induction segs generalizing start with
  | nil => exact absurd rfl hsegs
  | cons seg rest ih =>
    have hhead := hlength seg rfl
    rw [mergeLoop]
    by_cases hfrg : seg.frg = 0
    · rw [if_pos hfrg]
      refine ⟨?_, ?_⟩
      · intro fragment hfragment
        obtain rfl : seg.fragment = fragment := by simpa using hfragment
        exact hfrg
      · change (if seg.frg = 0 then _ else _) = _
        rw [if_pos hfrg, dataOf, List.flatMap_singleton]
        rfl
    · rw [if_neg hfrg]
      cases rest with
      | nil =>
        refine absurd (UInt32.toNat_inj.mp ?_) hfrg
        exact Nat.lt_one_iff.mp hhead
      | cons next rest =>
        -- the next fragment is numbered one less
        have hnext : next.frg + 1 = seg.frg := hcountdown.1 hfrg
        have hlt : next.frg.toNat < (next :: rest).length := by
          have hpos : 0 < seg.frg.toNat :=
            Nat.pos_of_ne_zero fun hzero ↦ hfrg (UInt32.toNat_inj.mp hzero)
          have hnat := congrArg UInt32.toNat hnext
          rw [UInt32.toNat_add] at hnat
          change (next.frg.toNat + 1) % 4294967296 = seg.frg.toNat at hnat
          have hrange := next.frg.toNat_lt
          simp only [List.length_cons] at hhead ⊢
          omega
        have hlater : ∀ other ∈ (next :: rest).head?, other.frg.toNat < (next :: rest).length := by
          intro other hother
          obtain rfl : next = other := by simpa using hother
          exact hlt
        obtain ⟨hclosed, hassemble⟩ :=
          ih hcountdown.2 hlater (List.cons_ne_nil next rest) (start ++ seg.data)
        refine ⟨?_, ?_⟩
        · intro fragment hfragment
          refine hclosed fragment ?_
          rw [List.map_cons, List.getLast?_cons] at hfragment
          cases hlast : ((mergeLoop (next :: rest)).1.map Ikcpseg.fragment).getLast? with
          | some last => simpa [hlast] using hfragment
          | none =>
            rw [List.getLast?_eq_none_iff] at hlast
            rw [hlast] at hassemble
            cases hassemble
        · change (if seg.frg = 0 then _ else _) = _
          rw [if_neg hfrg]
          refine hassemble.trans ?_
          rw [List.append_assoc]
          rfl

/-- What has been handed over are complete messages. -/
structure Node.Reads (node : Node) : Prop where
  closed : Closed (node.read.map Ikcpseg.fragment)
  messages : assemble [] (node.read.map Ikcpseg.fragment) = node.delivered

/-- When `ikcp_peeksize` finds a message, its last segment is there. -/
theorem lt_length_of_peeksize {kcp : Ikcpcb} (hsize : 0 ≤ peeksize kcp)
    (hcount : kcp.nrcvQue = UInt32.ofNat kcp.rcvQueue.length)
    (hlength : kcp.rcvQueue.length < 4294967296)
    (hfrg : ∀ seg ∈ kcp.rcvQueue, seg.frg.toNat < 128) :
    ∀ seg ∈ kcp.rcvQueue.head?, seg.frg.toNat < kcp.rcvQueue.length := by
  intro seg hseg
  have hmem : seg ∈ kcp.rcvQueue := List.mem_of_mem_head? hseg
  have hlt := hfrg seg hmem
  unfold peeksize at hsize
  split at hsize
  · rename_i hempty
    rw [hempty] at hseg
    cases hseg
  · rename_i head rest hqueue
    obtain rfl : head = seg := by
      rw [hqueue] at hseg
      simpa using hseg
    split_ifs at hsize with hzero hroom
    · rw [hzero]
      exact List.length_pos_of_mem hmem
    · exact absurd hsize (by decide)
    · rw [UInt32.lt_iff_toNat_lt, Nat.not_lt, hcount, toNat_ofNat_of_lt hlength,
        UInt32.toNat_add] at hroom
      change (head.frg.toNat + 1) % 4294967296 ≤ kcp.rcvQueue.length at hroom
      omega

theorem Node.Reads.call {sender receiver : Node} (hreads : receiver.Reads)
    (hflow : Flow sender receiver) (hcut : sender.Cut) (hframed : sender.Framed)
    (hvalid : receiver.kcp.receiver.Valid 2147483647 receiver.read) (call : Call) :
    (receiver.call call).Reads := by
  cases call with
  | recv len =>
    rcases recv_spec receiver.kcp len with ⟨code, hcode, hrecv⟩ | ⟨probe, hrecv, hempty, hsize, -⟩
    · have hcall : receiver.call (.recv len) = receiver := by
        rw [Node.call, hrecv, if_neg (fun h ↦ absurd h.1 (not_le.mpr hcode))]
      rw [hcall]
      exact hreads
    · rw [Node.call]
      split
      · obtain ⟨tail, htail⟩ : receiver.read.map Ikcpseg.fragment ++
            receiver.kcp.rcvQueue.map Ikcpseg.fragment <+: sender.queued := by
          rw [← List.map_append]
          exact hflow.owns.taken.received.trans (List.prefix_append _ _)
        have hcountdown : Countdown (receiver.kcp.rcvQueue.map Ikcpseg.fragment ++ tail) := by
          have hqueued := hcut.countdown
          rw [← htail, List.append_assoc] at hqueued
          exact hqueued.drop
        have hfrg : ∀ seg ∈ receiver.kcp.rcvQueue, seg.frg.toNat < 128 := by
          intro seg hseg
          refine (hframed.fragments seg.fragment ?_).1
          rw [← htail]
          exact List.mem_append_left _ (List.mem_append_right _ (List.mem_map_of_mem hseg))
        have hlength := hvalid.queue_le
        obtain ⟨hclosed, hassemble⟩ := mergeLoop_message hcountdown
          (lt_length_of_peeksize hsize hvalid.queue (Nat.lt_of_le_of_lt hlength (by decide)) hfrg)
          hempty []
        refine ⟨?_, ?_⟩
        · rw [List.map_append]
          exact hreads.closed.append hclosed
        · rw [List.map_append, assemble_append hreads.closed (fun _ ↦ rfl), hreads.messages,
            hassemble, hrecv]
          rfl
      · exact ⟨hreads.closed, hreads.messages⟩
  | _ => exact ⟨hreads.closed, hreads.messages⟩

/-! ### Both directions -/

/-- The invariant of two sides in message mode. -/
structure Link.Messages (link : Link) : Prop where
  valid : link.Valid
  cut : link.first.Cut ∧ link.second.Cut
  received : link.first.kcp.receiver.Valid 2147483647 link.first.read ∧
    link.second.kcp.receiver.Valid 2147483647 link.second.read
  reads : link.Short → link.first.Reads ∧ link.second.Reads

/-- The receive window of `ikcp_wndsize` is an `int`. -/
theorem asks_int (call : Call) : call.Asks 2147483647 := by
  cases call with
  | wndsize sndwnd rcvwnd => exact Int.le_of_lt_add_one rcvwnd.toInt_lt
  | _ => trivial

theorem reads_start (conv : UInt32) : (Node.start conv 0).Reads :=
  ⟨fun _ hlast ↦ absurd hlast (Option.not_mem_none _), rfl⟩

theorem link_messages_start (conv : UInt32) : (Link.start conv 0).Messages :=
  ⟨link_valid_start conv 0, ⟨cut_start conv, cut_start conv⟩,
    ⟨receiver_valid_start (by decide) conv 0, receiver_valid_start (by decide) conv 0⟩,
    fun _ ↦ ⟨reads_start conv, reads_start conv⟩⟩

theorem Link.Messages.step {link next : Link} {event : Link.Event} (hmessages : link.Messages)
    (hstep : link.step event = some next) : next.Messages := by
  obtain ⟨hvalid, ⟨hcut, hcut'⟩, ⟨hreceived, hreceived'⟩, hreads⟩ := hmessages
  have hvalid' := hvalid.step hstep
  cases event with
  | first call =>
    rw [Link.step, Option.ite_none_right_eq_some] at hstep
    obtain ⟨-, hnext⟩ := hstep
    obtain rfl := Option.some.inj hnext
    refine ⟨hvalid', ⟨hcut.call hvalid.framed.1 call, hcut'⟩,
      ⟨hreceived.call (by decide) (by decide) (asks_int call), hreceived'⟩, ?_⟩
    rintro ⟨hshort, hshort'⟩
    have hbefore : link.Short :=
      ⟨Nat.le_trans (length_numbered_call link.first call) hshort, hshort'⟩
    obtain ⟨hfirst, hsecond⟩ := hreads hbefore
    exact ⟨hfirst.call (hvalid.flows hbefore).2 hcut' hvalid.framed.2 hreceived call, hsecond⟩
  | second call =>
    rw [Link.step, Option.ite_none_right_eq_some] at hstep
    obtain ⟨-, hnext⟩ := hstep
    obtain rfl := Option.some.inj hnext
    refine ⟨hvalid', ⟨hcut, hcut'.call hvalid.framed.2 call⟩,
      ⟨hreceived, hreceived'.call (by decide) (by decide) (asks_int call)⟩, ?_⟩
    rintro ⟨hshort, hshort'⟩
    have hbefore : link.Short :=
      ⟨hshort, Nat.le_trans (length_numbered_call link.second call) hshort'⟩
    obtain ⟨hfirst, hsecond⟩ := hreads hbefore
    exact ⟨hfirst, hsecond.call (hvalid.flows hbefore).1 hcut hvalid.framed.1 hreceived' call⟩

/-- What a receiver has handed over are the first messages of its peer. -/
theorem delivered_front {sender receiver : Node} (hflow : Flow sender receiver)
    (hcut : sender.Cut) (hreads : receiver.Reads) : receiver.delivered <+: sender.accepted := by
  have hread : receiver.read.map Ikcpseg.fragment <+: sender.queued := by
    have hreceived := hflow.owns.taken.received
    rw [Receiver.inOrder, List.map_append] at hreceived
    exact (List.prefix_append _ _).trans (hreceived.trans (List.prefix_append _ _))
  rw [← hreads.messages, ← hcut.messages]
  exact assemble_mono hread []

/-- In message mode, over a network that loses, duplicates, delays and reorders datagrams, each side
hands over the messages that the other side has accepted: whole, in order, each once, none left out.
Assumes: neither side numbers more than half of the range of sequence numbers. -/
theorem delivered_prefix_accepted_run {conv : UInt32} {events : List Link.Event} {link : Link}
    (hrun : Runs.run Link.step (Link.start conv 0) events = some link) (hshort : link.Short) :
    link.second.delivered <+: link.first.accepted ∧
      link.first.delivered <+: link.second.accepted := by
  obtain ⟨hvalid, ⟨hcut, hcut'⟩, -, hreads⟩ : link.Messages :=
    Runs.run_invariant (fun _ _ _ hmessages hstep ↦ hmessages.step hstep) (link_messages_start conv)
      hrun
  obtain ⟨hforth, hback⟩ := hvalid.flows hshort
  obtain ⟨hfirst, hsecond⟩ := hreads hshort
  exact ⟨delivered_front hforth hcut hsecond, delivered_front hback hcut' hfirst⟩

/-- A message in two fragments and a second one. The second datagram arrives first and twice. -/
def reordered : List Link.Event :=
  let first : List UInt8 := [1, 0, 0, 0, 81, 1, 128, 0, 0, 0, 0, 0, 0, 0, 0, 0, 0, 0, 0, 0, 26, 0,
    0, 0] ++ List.replicate 26 7
  let second : List UInt8 := [1, 0, 0, 0, 81, 0, 128, 0, 0, 0, 0, 0, 1, 0, 0, 0, 0, 0, 0, 0, 4, 0,
    0, 0, 7, 7, 7, 7]
  [.first (.setmtu 50), .first (.nodelay 1 10 2 1), .first (.send (List.replicate 30 7)),
    .first (.send [1, 2, 3]), .first (.update 0), .second (.input second),
    .second (.input second), .second (.recv 100), .second (.input first), .second (.recv 100)]

theorem delivered_prefix_accepted_reordered :
    ∃ link, Runs.run Link.step (Link.start 1 0) reordered = some link ∧
      link.second.delivered = [List.replicate 30 7] ∧
      link.second.delivered <+: link.first.accepted ∧
        link.first.delivered <+: link.second.accepted := by
  have hview : (Runs.run Link.step (Link.start 1 0) reordered).map (fun link ↦
      (link.second.delivered, link.first.numbered.length, link.second.numbered.length)) =
      some ([List.replicate 30 7], 3, 0) := by decide +kernel
  obtain ⟨link, hrun, hseen⟩ := Runs.exists_of_view hview
  simp only [Prod.mk.injEq] at hseen
  obtain ⟨hdelivered, hfirst, hsecond⟩ := hseen
  refine ⟨link, hrun, hdelivered, delivered_prefix_accepted_run hrun ⟨?_, ?_⟩⟩
  · rw [hfirst]
    decide
  · rw [hsecond]
    decide

end TestLinux.Ikcp
