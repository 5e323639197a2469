import TestLinux.Reactor.Isolation

/-!
# What every slot of the reactor satisfies

`Progress` of the module on streams speaks of connections that started in a reset slot and whose
`open` calls succeeded. `Placed` is what remains without these assumptions: the totals, the offset
and the status of a slot fit together in every state of every run, also in a slot that was taken
over in the middle of a response and after an `open` that failed.

The one relation that does not survive is that an offset behind the header goes with the status of
the body (`InBody`): `http_request` sets the status of the header and leaves the offset alone. A
slot without it has no defined `write_callback`, so `Placed.inBody_of_some` gives it back wherever
the callback returns. `Ready` is what `http_response` then hands over, and `Ready.outcome` what the
sending code makes of it.
-/

set_option autoImplicit false
set_option relaxedAutoImplicit false

namespace TestLinux.Reactor

open TestLinux.Runs TestLinux.Streams TestLinux.Wire

/-! ### Slots between two events -/

/-- The fields of a slot that `http_response` reads fit together. -/
structure Placed (res : Resource) (conn : Connection) : Prop where
  total : conn.wtotallength = res.header.length + res.file.length ∨
    conn.wtotallength = 0 ∧ conn.woffset = 0
  unfinished : conn.woffset < res.header.length + res.file.length
  file : conn.wFileFd ≠ none → res.header.length ≤ conn.woffset
  buffered : conn.wFileFd = none → conn.wlength ≤ bufferLength
  inHeader : conn.woffset < res.header.length → conn.wstatus = .header
  notFinished : conn.wstatus ≠ .finished

/-- An offset behind the header goes with the status of the body. -/
def InBody (res : Resource) (conn : Connection) : Prop :=
  res.header.length < conn.woffset → conn.wstatus = .body

/-- What `http_response` hands to the sending code. -/
structure Ready (res : Resource) (conn : Connection) : Prop where
  total : conn.wtotallength = res.header.length + res.file.length
  unfinished : conn.woffset < res.header.length + res.file.length
  file : conn.wFileFd ≠ none → res.header.length ≤ conn.woffset
  buffered : conn.wFileFd = none → conn.wlength ≤ bufferLength
  inHeader : conn.woffset < res.header.length → conn.wstatus = .header
  inBody : res.header.length ≤ conn.woffset → conn.wstatus = .body
  withinHeader : conn.woffset < res.header.length →
    conn.woffset + conn.wlength ≤ res.header.length
  withinBody : conn.wFileFd = none →
    conn.woffset + conn.wlength ≤ res.header.length + res.file.length

/-- The descriptor in the slot after the `open` of `http_response`, if it is called. -/
def fileAfterOpen (res : Resource) (opened : Option ℕ) (conn : Connection) : Option ℕ :=
  if opensFile res conn then opened.or conn.wFileFd else conn.wFileFd

theorem Ready.placed {res : Resource} {conn : Connection} (hconn : Ready res conn) :
    Placed res conn where
  total := Or.inl hconn.total
  unfinished := hconn.unfinished
  file := hconn.file
  buffered := hconn.buffered
  inHeader := hconn.inHeader
  notFinished := by
    rcases Nat.lt_or_ge conn.woffset res.header.length with hheader | hbody
    · rw [hconn.inHeader hheader]
      decide
    · rw [hconn.inBody hbody]
      decide

theorem placed_resetW (res : Resource) (conn : Connection) : Placed res conn.resetW := by
  have hpos := res.header_pos
  cases hfile : conn.wFileFd <;>
    constructor <;> simp [Connection.resetW, hfile, Nat.lt_add_right _ hpos]

theorem Placed.registerClinetfd {res : Resource} {conn : Connection} (hconn : Placed res conn)
    (fd : ℕ) : Placed res (registerClinetfd fd conn) :=
  { hconn with }

/-- `read_callback` leaves the offset and the file of the slot alone. -/
theorem Placed.readCallback {res : Resource} {conn : Connection} (hconn : Placed res conn)
    (result : RecvResult) : Placed res (readCallback result conn).1 := by
  cases result with
  | again => exact hconn
  | error => exact hconn
  | received data =>
    simp only [Reactor.readCallback]
    split_ifs
    · exact hconn
    · exact {
        hconn with
        buffered := fun _ ↦ Nat.zero_le _
        inHeader := fun _ ↦ rfl
        notFinished := by
          change WStatus.header ≠ WStatus.finished
          decide }

/-- A property of all slots survives the change of one slot to one that has it. -/
theorem forall_update {property : Connection → Prop} {conns : ℕ → Connection} {client : ℕ}
    {conn : Connection} (hconns : ∀ fd, property (conns fd)) (hconn : property conn) (fd : ℕ) :
    property (Function.update conns client conn fd) :=
  (Function.forall_update_iff conns fun _ conn ↦ property conn).mpr
    ⟨hconn, fun other _ ↦ hconns other⟩ fd

/-! ### What `http_response` prepares -/

/-- The connection after the block of `http_response` that switches to the body. -/
def switched (res : Resource) (conn : Connection) : Connection :=
  if (startResponse res conn).woffset = res.header.length then
    { startResponse res conn with wstatus := .body }
  else startResponse res conn

/-- Without an `open`, `http_response` fills the buffer and succeeds. -/
theorem httpResponse_of_not_opensFile {res : Resource} {conn : Connection}
    (hopens : ¬ opensFile res conn) (opened : Option ℕ) :
    httpResponse res opened conn =
      (fillBuffer res (switched res conn)).map fun conn ↦ (0, conn) := by
  unfold httpResponse switched
  by_cases hswitch : (startResponse res conn).woffset = res.header.length
  · have hshort : ¬ (startResponse res conn).wtotallength > bufferLength * 3 := fun hlong ↦
      hopens ⟨hswitch, hlong⟩
    simp only [if_pos hswitch, if_neg hshort]
  · simp only [if_neg hswitch]

/-- A failed `open` leaves the buffer and its length as they were. -/
theorem httpResponse_of_failed_open {res : Resource} {conn : Connection}
    (hopens : opensFile res conn) :
    httpResponse res none conn = some (-1, switched res conn) := by
  unfold httpResponse switched
  simp only [if_pos hopens.1, if_pos hopens.2]

theorem httpResponse_of_opened {res : Resource} {conn : Connection} (hopens : opensFile res conn)
    (filefd : ℕ) :
    httpResponse res (some filefd) conn = some (0, { switched res conn with
      wFileFd := some filefd
      wlength := res.file.length }) := by
  unfold httpResponse switched
  simp only [if_pos hopens.1, if_pos hopens.2]

theorem Placed.switched_eq {res : Resource} {conn : Connection} (hconn : Placed res conn) :
    switched res conn = { conn with
      wtotallength := res.header.length + res.file.length
      wstatus := if conn.woffset = res.header.length then .body else conn.wstatus } := by
  unfold switched
  rw [startResponse_eq_of_total hconn.total]
  split_ifs <;> rfl

theorem Placed.opensFile_iff {res : Resource} {conn : Connection} (hconn : Placed res conn) :
    opensFile res conn ↔ conn.woffset = res.header.length ∧ res.Long := by
  rw [opensFile, startResponse_eq_of_total hconn.total]
  rfl

theorem Resource.length_piece_le_bufferLength (res : Resource) (offset : ℕ) :
    (res.piece offset).length ≤ bufferLength := by
  have hheader := res.header_lt
  unfold Resource.piece
  split_ifs
  · rw [List.length_drop]
    omega
  · exact List.length_take_le _ _

/-- The status fits the offset after the switch. -/
theorem Placed.switched_status {res : Resource} {conn : Connection} (hconn : Placed res conn)
    (hinBody : InBody res conn) :
    (conn.woffset < res.header.length → (switched res conn).wstatus = .header) ∧
      (res.header.length ≤ conn.woffset → (switched res conn).wstatus = .body) := by
  rw [hconn.switched_eq]
  refine ⟨fun hheader ↦ ?_, fun hbody ↦ ?_⟩
  · change (if conn.woffset = res.header.length then WStatus.body else conn.wstatus) = .header
    rw [if_neg (Nat.ne_of_lt hheader)]
    exact hconn.inHeader hheader
  · change (if conn.woffset = res.header.length then WStatus.body else conn.wstatus) = .body
    split_ifs with hswitch
    · rfl
    · exact hinBody (Nat.lt_of_le_of_ne hbody (Ne.symm hswitch))

/-- The next piece of the response in the buffer. -/
theorem Placed.ready_fillBuffer {res : Resource} {conn : Connection} (hconn : Placed res conn)
    (hinBody : InBody res conn) :
    ∃ loaded, fillBuffer res (switched res conn) = some loaded ∧ Ready res loaded ∧
      loaded.wFileFd = conn.wFileFd := by
  obtain ⟨hheaderStatus, hbodyStatus⟩ := hconn.switched_status hinBody
  rw [hconn.switched_eq] at hheaderStatus hbodyStatus ⊢
  refine ⟨_, fillBuffer_eq hheaderStatus hbodyStatus (Nat.le_of_lt hconn.unfinished), ?_, rfl⟩
  exact {
    total := rfl
    unfinished := hconn.unfinished
    file := hconn.file
    buffered := fun _ ↦ res.length_piece_le_bufferLength _
    inHeader := hheaderStatus
    inBody := hbodyStatus
    withinHeader := fun hheader ↦ Nat.le_of_eq (Resource.length_piece_of_lt hheader)
    withinBody := fun _ ↦ Resource.length_piece_le hconn.unfinished }

/-- The slot of a long response at the end of its header. Without a file, the length is that of an
earlier piece of the header, for which the response has room. -/
theorem Placed.ready_open {res : Resource} {conn : Connection} (hconn : Placed res conn)
    (hopens : opensFile res conn) {filefd : Option ℕ} {wlength : ℕ}
    (hlength : filefd = none → wlength ≤ bufferLength) :
    Ready res { switched res conn with wFileFd := filefd, wlength := wlength } := by
  obtain ⟨hswitch, hlong⟩ := hconn.opensFile_iff.mp hopens
  have hheader := res.header_lt
  rw [Resource.Long] at hlong
  rw [hconn.switched_eq]
  exact {
    total := rfl
    unfinished := hconn.unfinished
    file := fun _ ↦ Nat.le_of_eq hswitch.symm
    buffered := hlength
    inHeader := fun hbefore ↦ absurd hswitch (Nat.ne_of_lt hbefore)
    inBody := fun _ ↦ if_pos hswitch
    withinHeader := fun hbefore ↦ absurd hswitch (Nat.ne_of_lt hbefore)
    withinBody := fun hnone ↦ by
      have hle := hlength hnone
      change conn.woffset + wlength ≤ _
      omega }

/-- `http_response` in a slot whose status fits its offset. -/
theorem Placed.httpResponse {res : Resource} {conn : Connection} (hconn : Placed res conn)
    (hinBody : InBody res conn) (opened : Option ℕ) :
    ∃ code loaded, httpResponse res opened conn = some (code, loaded) ∧ Ready res loaded ∧
      loaded.wFileFd = fileAfterOpen res opened conn := by
  by_cases hopens : opensFile res conn
  · rw [fileAfterOpen, if_pos hopens]
    cases opened with
    | none =>
      refine ⟨-1, switched res conn, httpResponse_of_failed_open hopens, ?_, ?_⟩
      · have hready := hconn.ready_open hopens hconn.buffered
        rw [hconn.switched_eq] at hready ⊢
        exact hready
      · rw [hconn.switched_eq]
        rfl
    | some filefd =>
      refine ⟨0, _, httpResponse_of_opened hopens filefd, ?_, rfl⟩
      exact hconn.ready_open hopens fun hnone ↦ absurd hnone (Option.some_ne_none _)
  · obtain ⟨loaded, hfill, hloaded, hsame⟩ := hconn.ready_fillBuffer hinBody
    rw [httpResponse_of_not_opensFile hopens, hfill, fileAfterOpen, if_neg hopens]
    exact ⟨0, loaded, rfl, hloaded, hsame⟩

/-- Behind the header, the rest of the header is a negative number of bytes. -/
theorem Placed.toInt32_neg {res : Resource} {conn : Connection} (hconn : Placed res conn)
    (hbehind : res.header.length < conn.woffset) :
    toInt32 (res.header.length - conn.woffset) < 0 := by
  have hunfinished := hconn.unfinished
  have hfile := res.file_lt
  rw [toInt32_of_lt (by omega) (by omega)]
  omega

theorem Placed.status_of_not_inBody {res : Resource} {conn : Connection} (hconn : Placed res conn)
    (hinBody : ¬ InBody res conn) :
    res.header.length < conn.woffset ∧ conn.wstatus = .header := by
  obtain ⟨hbehind, hstatus⟩ := Classical.not_imp.mp hinBody
  refine ⟨hbehind, ?_⟩
  cases hvalue : conn.wstatus with
  | header => rfl
  | body => exact absurd hvalue hstatus
  | finished => exact absurd hvalue hconn.notFinished

/-- A slot that is behind the header with the status of the header makes `memcpy` run over. -/
theorem Placed.httpResponse_eq_none {res : Resource} {conn : Connection} (hconn : Placed res conn)
    (hinBody : ¬ InBody res conn) (opened : Option ℕ) :
    Reactor.httpResponse res opened conn = none := by
  obtain ⟨hbehind, hstatus⟩ := hconn.status_of_not_inBody hinBody
  have hswitch : conn.woffset ≠ res.header.length := Nat.ne_of_gt hbehind
  have hopens : ¬ opensFile res conn := fun hopens ↦ hswitch (hconn.opensFile_iff.mp hopens).1
  rw [httpResponse_of_not_opensFile hopens, hconn.switched_eq, if_neg hswitch, fillBuffer]
  simp only [hstatus, copyHeader, if_pos (hconn.toInt32_neg hbehind), Option.map_none]

theorem Placed.inBody_of_some {res : Resource} {conn : Connection} {opened : Option ℕ}
    {returned : ℤ × Connection} (hconn : Placed res conn)
    (hresponse : Reactor.httpResponse res opened conn = some returned) : InBody res conn := by
  by_contra hinBody
  rw [hconn.httpResponse_eq_none hinBody] at hresponse
  exact absurd hresponse.symm (Option.some_ne_none _)

/-! ### What the sending code leaves -/

/-- Where the sending code leaves a slot: as it was, some bytes further, or at the end of the
response. -/
inductive Outcome (res : Resource) (loaded : Connection) : Written → Prop
  | waiting {socket : ℕ} (next : Next) (hnext : next = .keep ∨ next = .close) :
    Outcome res loaded ⟨loaded, socket, [], next⟩
  | sent {later : Connection} {socket : ℕ} {accepted : List UInt8} (hlater : Placed res later)
      (hinBody : InBody res later) (hfile : later.wFileFd = loaded.wFileFd) :
    Outcome res loaded ⟨later, socket, accepted, .keep⟩
  | finished {later : Connection} {socket : ℕ} {accepted : List UInt8} (hlater : Placed res later)
      (hinBody : InBody res later) (hfile : later.wFileFd = none) :
    Outcome res loaded ⟨later, socket, accepted, .watch .recv⟩

theorem Ready.toInBody {res : Resource} {conn : Connection} (hconn : Ready res conn) :
    InBody res conn :=
  fun hbehind ↦ hconn.inBody (Nat.le_of_lt hbehind)

theorem Outcome.placed {res : Resource} {loaded : Connection} {written : Written}
    (houtcome : Outcome res loaded written) (hloaded : Ready res loaded) :
    Placed res written.conn ∧ InBody res written.conn := by
  cases houtcome with
  | waiting next hnext => exact ⟨hloaded.placed, hloaded.toInBody⟩
  | sent hlater hinBody hfile => exact ⟨hlater, hinBody⟩
  | finished hlater hinBody hfile => exact ⟨hlater, hinBody⟩

theorem Connection.wFileFd_resetW (conn : Connection) : conn.resetW.wFileFd = none := by
  cases hfile : conn.wFileFd <;> simp [Connection.resetW, hfile]

theorem Connection.woffset_resetW (conn : Connection) : conn.resetW.woffset = 0 := by
  cases hfile : conn.wFileFd <;> simp [Connection.resetW, hfile]

/-- `count` more bytes that do not end the response. -/
theorem Ready.advance {res : Resource} {conn : Connection} {count : ℕ} (hconn : Ready res conn)
    (hunfinished : conn.woffset + count < res.header.length + res.file.length)
    (wfileOffset : ℕ) :
    Placed res { conn with woffset := conn.woffset + count, wfileOffset := wfileOffset } where
  total := Or.inl hconn.total
  unfinished := hunfinished
  file := fun hfile ↦ Nat.le_trans (hconn.file hfile) (Nat.le_add_right _ _)
  buffered := hconn.buffered
  inHeader := fun hheader ↦ hconn.inHeader (Nat.lt_of_le_of_lt (Nat.le_add_right _ _) hheader)
  notFinished := hconn.placed.notFinished

/-- The end of `write_callback` after `count` more bytes. -/
theorem Ready.switchEvent {res : Resource} {conn : Connection} {count : ℕ} (hconn : Ready res conn)
    (hwithin : conn.woffset < res.header.length → conn.woffset + count ≤ res.header.length)
    (htotal : conn.woffset + count ≤ res.header.length + res.file.length) (wfileOffset socket : ℕ)
    (accepted : List UInt8) :
    Outcome res conn (switchEvent { conn with
      woffset := conn.woffset + count
      wfileOffset := wfileOffset } socket accepted) := by
  have hbodyStatus : res.header.length < conn.woffset + count → conn.wstatus = .body := by
    intro hbehind
    rcases Nat.lt_or_ge conn.woffset res.header.length with hheader | hbody
    · exact absurd hbehind (Nat.not_lt.mpr (hwithin hheader))
    · exact hconn.inBody hbody
  have hnotFinished := hconn.placed.notFinished
  rcases Nat.lt_or_eq_of_le htotal with hunfinished | hend
  · have hne : ¬ (conn.wstatus = .body ∧ conn.woffset + count = conn.wtotallength) := by
      rw [hconn.total]
      omega
    simp only [Reactor.switchEvent, if_neg hne, if_neg hnotFinished]
    exact .sent (hconn.advance hunfinished wfileOffset) hbodyStatus rfl
  · have hpos := res.file_pos
    have heq : conn.wstatus = .body ∧ conn.woffset + count = conn.wtotallength :=
      ⟨hbodyStatus (by omega), hend.trans hconn.total.symm⟩
    simp only [Reactor.switchEvent, if_pos heq, ↓reduceIte]
    refine .finished (placed_resetW res _) (fun hbehind ↦ ?_) (Connection.wFileFd_resetW _)
    rw [Connection.woffset_resetW] at hbehind
    exact absurd hbehind (Nat.not_lt_zero _)

theorem Ready.sendBuffer {res : Resource} {conn : Connection} (hconn : Ready res conn)
    (hfile : conn.wFileFd = none) (fd : ℕ) (result : SendResult) :
    Outcome res conn (sendBuffer fd result conn) := by
  cases result with
  | again => exact .waiting .keep (Or.inl rfl)
  | error => exact .waiting .close (Or.inr rfl)
  | accepts room =>
    simp only [Reactor.sendBuffer]
    split_ifs with hzero
    · exact .waiting .close (Or.inr rfl)
    · have hle : conn.woffset + min room conn.wlength ≤ conn.woffset + conn.wlength :=
        Nat.add_le_add_left (Nat.min_le_right _ _) _
      exact hconn.switchEvent (fun hheader ↦ Nat.le_trans hle (hconn.withinHeader hheader))
        (Nat.le_trans hle (hconn.withinBody hfile)) conn.wfileOffset fd _

theorem Ready.sendFile {res : Resource} {conn : Connection} (hconn : Ready res conn)
    (hfile : conn.wFileFd ≠ none) (result : SendResult) :
    Outcome res conn (sendFile res result conn) := by
  cases result with
  | again => exact .waiting .keep (Or.inl rfl)
  | error => exact .waiting .close (Or.inr rfl)
  | accepts room =>
    simp only [Reactor.sendFile]
    split_ifs with hzero
    · exact .waiting .close (Or.inr rfl)
    · have hopen := hconn.file hfile
      have hunfinished := hconn.unfinished
      have hle : min room (conn.wtotallength - conn.woffset) ≤ conn.wtotallength - conn.woffset :=
        Nat.min_le_right _ _
      rw [hconn.total] at hle
      refine hconn.switchEvent (fun hheader ↦ absurd hheader (Nat.not_lt.mpr hopen)) ?_ _ _ _
      rw [hconn.total]
      omega

/-- One call of `write_callback`, from any slot in which it returns. -/
theorem Placed.writeCallback {res : Resource} {conn : Connection} {fd : ℕ} {opened : Option ℕ}
    {result : SendResult} {written : Written} (hconn : Placed res conn)
    (hcallback : writeCallback res fd opened result conn = some written) :
    ∃ loaded, Ready res loaded ∧ loaded.wFileFd = fileAfterOpen res opened conn ∧
      Outcome res loaded written ∧
      (loaded.wFileFd = none ∧ written = Reactor.sendBuffer fd result loaded ∨
        loaded.wFileFd ≠ none ∧ written = Reactor.sendFile res result loaded) := by
  obtain ⟨returned, hresponse, hwritten⟩ := Option.map_eq_some_iff.mp hcallback
  obtain ⟨code, loaded, hresponse', hready, hfile⟩ :=
    hconn.httpResponse (hconn.inBody_of_some hresponse) opened
  obtain rfl : returned = (code, loaded) := Option.some.inj (hresponse.symm.trans hresponse')
  refine ⟨loaded, hready, hfile, ?_⟩
  cases hvalue : loaded.wFileFd with
  | none =>
    simp only [hvalue] at hwritten
    subst hwritten
    exact ⟨hready.sendBuffer hvalue fd result, Or.inl ⟨rfl, rfl⟩⟩
  | some filefd =>
    simp only [hvalue] at hwritten
    subst hwritten
    have hsome : loaded.wFileFd ≠ none := hvalue ▸ Option.some_ne_none _
    exact ⟨hready.sendFile hsome result, Or.inr ⟨Option.some_ne_none _, rfl⟩⟩

/-! ### All slots in all runs -/

theorem placed_unused (res : Resource) : Placed res .unused where
  total := Or.inr ⟨rfl, rfl⟩
  unfinished := Nat.lt_add_right _ res.header_pos
  file := fun hfile ↦ absurd rfl hfile
  buffered := fun _ ↦ Nat.zero_le _
  inHeader := fun _ ↦ rfl
  notFinished := by
    change WStatus.header ≠ WStatus.finished
    decide

theorem placed_start (res : Resource) (listenfd fd : ℕ) :
    Placed res ((State.start listenfd).conns fd) := by
  have hunused := placed_unused res
  by_cases hfd : fd = listenfd
  · subst hfd
    simp only [State.start, Function.update_self]
    exact { hunused with }
  · simp only [State.start, Function.update_of_ne hfd]
    exact hunused

theorem placed_step {res : Resource} {state next : State} {event : Event}
    (hstate : ∀ fd, Placed res (state.conns fd)) (hstep : Transition res state event next)
    (fd : ℕ) : Placed res (next.conns fd) := by
  cases hstep with
  | idle => exact hstate fd
  | @accept _ clientfd hunopened =>
    exact forall_update hstate ((hstate clientfd).registerClinetfd clientfd) fd
  | @read client result hinterest hcount =>
    exact forall_update hstate ((hstate client).readCallback result) fd
  | @write client opened result written hinterest hopened hcallback =>
    obtain ⟨loaded, hready, -, houtcome, -⟩ := (hstate client).writeCallback hcallback
    exact forall_update hstate (houtcome.placed hready).1 fd

/-- A file of 3000 bytes, which is sent with `sendfile`, behind a header of 85 bytes. -/
def imageResource : Resource :=
  .ofFile (List.replicate 3000 7) (by rw [List.length_replicate]; decide)
    (by rw [List.length_replicate]; decide)

end TestLinux.Reactor
