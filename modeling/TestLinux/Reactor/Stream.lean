import TestLinux.Reactor.Model

/-!
# The response stream of one connection

Between two events a connection is at some offset of the current response. `Progress res conn
offset` says what the fields that survive from one call to the next look like there, whatever
`wstatus` is, and `Sending` adds the value of `wstatus` that goes with the offset. `Loaded` is the
connection that `http_response` hands to the sending code: either the write buffer holds the next
bytes of the response, never across the end of the header, or the file is open at the right place.

`httpResponse_loaded` takes `Sending` to `Loaded`, and `Loaded.written` covers both sending
branches: whatever the socket takes is the next piece of the response, and the connection is either
`Sending` behind it or, at the end of the response and only there, as `reset_w` leaves it.
`Streaming` is the invariant of a whole session, kept by every event (`streaming_step`).

`response_stream` is the result for one connection over any number of requests, short writes and
`EAGAIN`s, for responses that go through the buffer and for those that go through `sendfile`.
-/

set_option autoImplicit false
set_option relaxedAutoImplicit false

namespace TestLinux.Reactor

open TestLinux.Runs TestLinux.Streams TestLinux.Wire

/-! ### Connections between two events -/

/-- The write state as `reset_w` leaves it. -/
structure Connection.WriteReset (conn : Connection) : Prop where
  wstatus : conn.wstatus = .header
  woffset : conn.woffset = 0
  wlength : conn.wlength = 0
  wtotallength : conn.wtotallength = 0
  wFileFd : conn.wFileFd = none
  wfileOffset : conn.wfileOffset = 0

/-- The response is sent with `sendfile`. -/
def Resource.Long (res : Resource) : Prop :=
  res.header.length + res.file.length > bufferLength * 3

/-- The connection has sent `offset` bytes of the current response. -/
structure Progress (res : Resource) (conn : Connection) (offset : ℕ) : Prop where
  woffset : conn.woffset = offset
  unfinished : offset < res.header.length + res.file.length
  total : conn.wtotallength = res.header.length + res.file.length ∨
    conn.wtotallength = 0 ∧ offset = 0
  file : conn.wFileFd ≠ none → res.Long ∧ res.header.length ≤ offset
  opened : res.Long → res.header.length < offset → conn.wFileFd ≠ none
  fileOffset : conn.wFileFd ≠ none → conn.wfileOffset = offset - res.header.length
  noFile : conn.wFileFd = none → conn.wfileOffset = 0

/-- The connection waits for room in the socket, with `offset` bytes of the response sent. -/
structure Sending (res : Resource) (conn : Connection) (offset : ℕ) : Prop
    extends Progress res conn offset where
  inHeader : offset < res.header.length → conn.wstatus = .header
  inBody : res.header.length < offset → conn.wstatus = .body
  notFinished : conn.wstatus ≠ .finished

/-- What `http_response` hands over, with `offset` bytes of the response sent. -/
structure Loaded (res : Resource) (conn : Connection) (offset : ℕ) : Prop
    extends Progress res conn offset where
  totalSet : conn.wtotallength = res.header.length + res.file.length
  inHeader : offset < res.header.length → conn.wstatus = .header
  inBody : res.header.length ≤ offset → conn.wstatus = .body
  openedAtBody : res.Long → res.header.length ≤ offset → conn.wFileFd ≠ none
  length_pos : conn.wFileFd = none → 0 < conn.wlength
  withinHeader : offset < res.header.length → offset + conn.wlength ≤ res.header.length
  withinBody : conn.wFileFd = none →
    offset + conn.wlength ≤ res.header.length + res.file.length
  buffer : conn.wFileFd = none → ∀ count ≤ conn.wlength,
    conn.wbuffer.take count = (res.response.drop offset).take count

theorem Connection.WriteReset.progress {conn : Connection} (hconn : conn.WriteReset)
    (res : Resource) : Progress res conn 0 where
  woffset := hconn.woffset
  unfinished := Nat.lt_add_right _ res.header_pos
  total := Or.inr ⟨hconn.wtotallength, rfl⟩
  file := fun hfile ↦ absurd hconn.wFileFd hfile
  opened := fun _ hoffset ↦ absurd hoffset (Nat.not_lt_zero _)
  fileOffset := fun hfile ↦ absurd hconn.wFileFd hfile
  noFile := fun _ ↦ hconn.wfileOffset

/-- After a request the response starts at its first byte. -/
theorem Progress.httpRequest {res : Resource} {conn : Connection} (hconn : Progress res conn 0)
    (rbuffer : List UInt8) (rlength : ℕ) :
    Sending res (httpRequest { conn with rbuffer := rbuffer, rlength := rlength }) 0 where
  woffset := hconn.woffset
  unfinished := hconn.unfinished
  total := hconn.total
  file := hconn.file
  opened := hconn.opened
  fileOffset := hconn.fileOffset
  noFile := hconn.noFile
  inHeader := fun _ ↦ rfl
  inBody := fun hoffset ↦ absurd hoffset (Nat.not_lt_zero _)
  notFinished := by
    change WStatus.header ≠ WStatus.finished
    decide

/-- `reset_w` resets the offset in the file as well, provided that a connection without a file has
none. -/
theorem Connection.writeReset_resetW {conn : Connection}
    (hnoFile : conn.wFileFd = none → conn.wfileOffset = 0) : conn.resetW.WriteReset := by
  cases hfile : conn.wFileFd with
  | none => constructor <;> simp [Connection.resetW, hfile, hnoFile hfile]
  | some filefd => constructor <;> simp [Connection.resetW, hfile]

/-! ### What `http_response` prepares -/

theorem startResponse_eq_of_total {res : Resource} {conn : Connection}
    (htotal : conn.wtotallength = res.header.length + res.file.length ∨
      conn.wtotallength = 0 ∧ conn.woffset = 0) :
    startResponse res conn =
      { conn with wtotallength := res.header.length + res.file.length } := by
  unfold startResponse
  split_ifs with hzero
  · rcases htotal with htotal | ⟨-, hwoffset⟩
    · have hpos := res.header_pos
      omega
    · rw [← hwoffset]
  · rcases htotal with htotal | ⟨htotal, -⟩
    · rw [← htotal]
    · exact absurd htotal hzero

theorem startResponse_eq {res : Resource} {conn : Connection} {offset : ℕ}
    (hconn : Progress res conn offset) :
    startResponse res conn =
      { conn with wtotallength := res.header.length + res.file.length } := by
  apply startResponse_eq_of_total
  rw [hconn.woffset]
  exact hconn.total

theorem drop_response_of_le {res : Resource} {offset : ℕ} (hoffset : offset ≤ res.header.length) :
    res.response.drop offset = res.header.drop offset ++ res.file :=
  List.drop_append_of_le_length hoffset

theorem drop_response_of_ge {res : Resource} {offset : ℕ} (hoffset : res.header.length ≤ offset) :
    res.response.drop offset = res.file.drop (offset - res.header.length) := by
  rw [Resource.response, List.drop_append, List.drop_eq_nil_of_le hoffset, List.nil_append]

/-- The bytes of the response that the buffer gets at an offset: the rest of the header, or the next
part of the file. -/
def Resource.piece (res : Resource) (offset : ℕ) : List UInt8 :=
  if offset < res.header.length then res.header.drop offset
  else (res.file.drop (offset - res.header.length)).take bufferLength

theorem Resource.piece_prefix_drop (res : Resource) (offset : ℕ) :
    res.piece offset <+: res.response.drop offset := by
  unfold Resource.piece
  split_ifs with hheader
  · rw [drop_response_of_le (Nat.le_of_lt hheader)]
    exact List.prefix_append _ _
  · rw [drop_response_of_ge (Nat.not_lt.mp hheader)]
    exact List.take_prefix _ _

theorem Resource.length_piece_pos {res : Resource} {offset : ℕ}
    (hoffset : offset < res.header.length + res.file.length) : 0 < (res.piece offset).length := by
  unfold Resource.piece
  split_ifs with hheader
  · rw [List.length_drop]
    omega
  · rw [List.length_take, List.length_drop, bufferLength]
    omega

theorem Resource.length_piece_of_lt {res : Resource} {offset : ℕ}
    (hheader : offset < res.header.length) :
    offset + (res.piece offset).length = res.header.length := by
  rw [Resource.piece, if_pos hheader, List.length_drop]
  omega

theorem Resource.length_piece_le {res : Resource} {offset : ℕ}
    (hoffset : offset < res.header.length + res.file.length) :
    offset + (res.piece offset).length ≤ res.header.length + res.file.length := by
  have hlength := (res.piece_prefix_drop offset).length_le
  rw [List.length_drop, res.length_response] at hlength
  omega

/-- The branch `wstatus == 0` copies the rest of the header. -/
theorem copyHeader_eq {res : Resource} {conn : Connection}
    (hheader : conn.woffset < res.header.length) :
    copyHeader res conn = some { conn with
      wbuffer := overwrite conn.wbuffer (res.piece conn.woffset)
      wlength := (res.piece conn.woffset).length } := by
  have hlt := res.header_lt
  rw [bufferLength] at hlt
  have hnum : toInt32 (res.header.length - conn.woffset) =
      ((res.header.drop conn.woffset).length : ℤ) := by
    rw [toInt32_of_lt (by omega) (by omega), List.length_drop]
    omega
  simp only [copyHeader, hnum, Int.toNat_natCast, List.take_length, Resource.piece,
    if_pos hheader]
  rw [if_neg (by omega)]

/-- The branch `wstatus == 1` copies the next part of the file. -/
theorem copyBody_eq {res : Resource} {conn : Connection}
    (hbody : res.header.length ≤ conn.woffset)
    (htotal : conn.woffset ≤ res.header.length + res.file.length) :
    copyBody res conn = some { conn with
      wbuffer := overwrite conn.wbuffer (res.piece conn.woffset)
      wlength := (res.piece conn.woffset).length } := by
  have hlt := res.file_lt
  have hoffsetT : toInt32 (conn.woffset - res.header.length) =
      ((conn.woffset - res.header.length : ℕ) : ℤ) := by
    rw [toInt32_of_lt (by omega) (by omega)]
    omega
  have hlength : min (res.file.length - (conn.woffset - res.header.length)) bufferLength =
      ((res.file.drop (conn.woffset - res.header.length)).take bufferLength).length := by
    rw [List.length_take, List.length_drop, Nat.min_comm]
  have htake : (res.file.drop (conn.woffset - res.header.length)).take
        ((res.file.drop (conn.woffset - res.header.length)).take bufferLength).length =
      (res.file.drop (conn.woffset - res.header.length)).take bufferLength :=
    List.prefix_iff_eq_take.mp (List.take_prefix _ _) |>.symm
  simp only [copyBody, hoffsetT, Int.toNat_natCast, hlength, htake, Resource.piece,
    if_neg (Nat.not_lt.mpr hbody)]
  rw [if_neg (by omega)]

theorem fillBuffer_eq {res : Resource} {conn : Connection}
    (hinHeader : conn.woffset < res.header.length → conn.wstatus = .header)
    (hinBody : res.header.length ≤ conn.woffset → conn.wstatus = .body)
    (htotal : conn.woffset ≤ res.header.length + res.file.length) :
    fillBuffer res conn = some { conn with
      wbuffer := overwrite conn.wbuffer (res.piece conn.woffset)
      wlength := (res.piece conn.woffset).length } := by
  rcases Nat.lt_or_ge conn.woffset res.header.length with hheader | hbody
  · have hfill : fillBuffer res conn = copyHeader res conn := by
      simp only [fillBuffer, hinHeader hheader]
    rw [hfill, copyHeader_eq hheader]
  · have hfill : fillBuffer res conn = copyBody res conn := by
      simp only [fillBuffer, hinBody hbody]
    rw [hfill, copyBody_eq hbody htotal]

/-- With the next piece of the response in the buffer, the connection is ready to send. -/
theorem Progress.loaded_buffer {res : Resource} {conn : Connection} {offset : ℕ}
    (hconn : Progress res conn offset)
    (hinHeader : offset < res.header.length → conn.wstatus = .header)
    (hinBody : res.header.length ≤ offset → conn.wstatus = .body)
    (htotalSet : conn.wtotallength = res.header.length + res.file.length)
    (hopened : res.Long → res.header.length ≤ offset → conn.wFileFd ≠ none) :
    ∃ loaded, fillBuffer res conn = some loaded ∧ Loaded res loaded offset := by
  obtain rfl := hconn.woffset
  refine ⟨_, fillBuffer_eq hinHeader hinBody (Nat.le_of_lt hconn.unfinished), ?_⟩
  exact {
    hconn with
    totalSet := htotalSet
    inHeader := hinHeader
    inBody := hinBody
    openedAtBody := hopened
    length_pos := fun _ ↦ Resource.length_piece_pos hconn.unfinished
    withinHeader := fun hheader ↦ Nat.le_of_eq (Resource.length_piece_of_lt hheader)
    withinBody := fun _ ↦ Resource.length_piece_le hconn.unfinished
    buffer := fun _ count hcount ↦ by
      obtain ⟨rest, hrest⟩ := res.piece_prefix_drop conn.woffset
      rw [← hrest, List.take_append_of_le_length hcount]
      exact take_overwrite hcount }

/-- At the end of the header of a long response, the file is open at its beginning. -/
theorem Progress.loaded_open {res : Resource} {conn : Connection} (filefd : ℕ)
    (hconn : Progress res conn res.header.length) (hlong : res.Long)
    (htotalSet : conn.wtotallength = res.header.length + res.file.length) :
    Loaded res { conn with
      wstatus := .body
      wFileFd := some filefd
      wlength := res.file.length } res.header.length where
  woffset := hconn.woffset
  unfinished := hconn.unfinished
  total := hconn.total
  file := fun _ ↦ ⟨hlong, Nat.le_refl _⟩
  opened := fun _ hoffset ↦ absurd hoffset (Nat.lt_irrefl _)
  fileOffset := fun _ ↦ by
    cases hfile : conn.wFileFd with
    | none => rw [hconn.noFile hfile, Nat.sub_self]
    | some _ =>
      apply hconn.fileOffset
      rw [hfile]
      exact Option.some_ne_none _
  noFile := fun hnone ↦ absurd hnone (Option.some_ne_none _)
  totalSet := htotalSet
  inHeader := fun hoffset ↦ absurd hoffset (Nat.lt_irrefl _)
  inBody := fun _ ↦ rfl
  openedAtBody := fun _ _ ↦ Option.some_ne_none _
  length_pos := fun hnone ↦ absurd hnone (Option.some_ne_none _)
  withinHeader := fun hoffset ↦ absurd hoffset (Nat.lt_irrefl _)
  withinBody := fun hnone ↦ absurd hnone (Option.some_ne_none _)
  buffer := fun hnone ↦ absurd hnone (Option.some_ne_none _)

/-- `Progress` does not read the status. -/
theorem Progress.setTotal {res : Resource} {conn : Connection} {offset : ℕ}
    (hconn : Progress res conn offset) (wstatus : WStatus) :
    Progress res { conn with
      wtotallength := res.header.length + res.file.length
      wstatus := wstatus } offset :=
  { hconn with total := Or.inl rfl }

/-- `http_response` without the switch to the body. -/
theorem Sending.httpResponse_of_ne {res : Resource} {conn : Connection} {offset : ℕ}
    (opened : Option ℕ) (hconn : Sending res conn offset) (hne : offset ≠ res.header.length) :
    ∃ loaded, httpResponse res opened conn = some (0, loaded) ∧ Loaded res loaded offset := by
  have hafter : res.header.length ≤ offset → res.header.length < offset :=
    fun hbody ↦ Nat.lt_of_le_of_ne hbody (Ne.symm hne)
  obtain ⟨loaded, hfill, hloaded⟩ :=
    (hconn.toProgress.setTotal conn.wstatus).loaded_buffer hconn.inHeader
      (fun hbody ↦ hconn.inBody (hafter hbody)) rfl
      (fun hlong hbody ↦ hconn.opened hlong (hafter hbody))
  rw [← hconn.woffset] at hne
  refine ⟨loaded, ?_, hloaded⟩
  simp only [httpResponse, startResponse_eq hconn.toProgress, if_neg hne]
  rw [hfill]
  rfl

/-- `http_response` at the switch to the body. -/
theorem Sending.httpResponse_of_eq {res : Resource} {conn : Connection} (filefd : ℕ)
    (hconn : Sending res conn res.header.length) :
    ∃ loaded, httpResponse res (some filefd) conn = some (0, loaded) ∧
      Loaded res loaded res.header.length := by
  have hprogress := hconn.toProgress.setTotal .body
  have hstart := startResponse_eq hconn.toProgress
  by_cases hlong : res.header.length + res.file.length > bufferLength * 3
  · refine ⟨_, ?_, hprogress.loaded_open filefd hlong rfl⟩
    simp only [httpResponse, hstart, if_pos hconn.woffset, if_pos hlong]
  · obtain ⟨loaded, hfill, hloaded⟩ := hprogress.loaded_buffer
      (fun hheader ↦ absurd hheader (Nat.lt_irrefl _)) (fun _ ↦ rfl) rfl
      (fun hlong' ↦ absurd hlong' hlong)
    refine ⟨loaded, ?_, hloaded⟩
    simp only [httpResponse, hstart, if_pos hconn.woffset, if_neg hlong]
    rw [hfill]
    rfl

/-- `http_response` prepares the next bytes of the response. -/
theorem Sending.httpResponse {res : Resource} {conn : Connection} {offset : ℕ} (filefd : ℕ)
    (hconn : Sending res conn offset) :
    ∃ loaded, httpResponse res (some filefd) conn = some (0, loaded) ∧
      Loaded res loaded offset := by
  by_cases hswitch : offset = res.header.length
  · subst hswitch
    exact hconn.httpResponse_of_eq filefd
  · exact hconn.httpResponse_of_ne (some filefd) hswitch

/-! ### What the socket takes -/

/-- Where `write_callback` leaves a connection that had sent `offset` bytes of the response: no
further, some bytes further, or at the end of the response. -/
inductive Advanced (res : Resource) (offset : ℕ) : Written → Prop
  | waiting {later : Connection} {socket : ℕ} (next : Next) (hnext : next = .keep ∨ next = .close)
      (hlater : Sending res later offset) :
    Advanced res offset ⟨later, socket, [], next⟩
  | sent {later : Connection} {socket : ℕ} (count : ℕ)
      (hlater : Sending res later (offset + count)) :
    Advanced res offset ⟨later, socket, (res.response.drop offset).take count, .keep⟩
  | finished {later : Connection} {socket : ℕ} (count : ℕ) (hlater : later.WriteReset)
      (hcount : offset + count = res.header.length + res.file.length) :
    Advanced res offset ⟨later, socket, (res.response.drop offset).take count, .watch .recv⟩

theorem Loaded.sending {res : Resource} {conn : Connection} {offset : ℕ}
    (hconn : Loaded res conn offset) : Sending res conn offset where
  toProgress := hconn.toProgress
  inHeader := hconn.inHeader
  inBody := fun hbody ↦ hconn.inBody (Nat.le_of_lt hbody)
  notFinished := by
    rcases Nat.lt_or_ge offset res.header.length with hheader | hbody
    · rw [hconn.inHeader hheader]
      decide
    · rw [hconn.inBody hbody]
      decide

/-- The offset in the file after `count` more bytes: `sendfile` advances it, `send` leaves it alone.
-/
def Connection.fileOffsetAfter (conn : Connection) (count : ℕ) : ℕ :=
  match conn.wFileFd with
  | none => conn.wfileOffset
  | some _ => conn.wfileOffset + count

theorem Connection.fileOffsetAfter_of_none {conn : Connection} (count : ℕ)
    (hnone : conn.wFileFd = none) : conn.fileOffsetAfter count = conn.wfileOffset := by
  simp only [Connection.fileOffsetAfter, hnone]

theorem Connection.fileOffsetAfter_of_ne {conn : Connection} (count : ℕ)
    (hfile : conn.wFileFd ≠ none) : conn.fileOffsetAfter count = conn.wfileOffset + count := by
  obtain ⟨filefd, hsome⟩ := Option.ne_none_iff_exists'.mp hfile
  simp only [Connection.fileOffsetAfter, hsome]

theorem Loaded.noFileAfter {res : Resource} {conn : Connection} {offset : ℕ}
    (hconn : Loaded res conn offset) (count : ℕ) (hnone : conn.wFileFd = none) :
    conn.fileOffsetAfter count = 0 := by
  rw [Connection.fileOffsetAfter_of_none count hnone]
  exact hconn.noFile hnone

/-- `count` more bytes that do not end the response. -/
theorem Loaded.advance {res : Resource} {conn : Connection} {offset count : ℕ}
    (hconn : Loaded res conn offset)
    (hwithin : offset < res.header.length → offset + count ≤ res.header.length)
    (hunfinished : offset + count < res.header.length + res.file.length) (hcount : 0 < count) :
    Sending res { conn with
      woffset := conn.woffset + count
      wfileOffset := conn.fileOffsetAfter count } (offset + count) where
  woffset := by rw [hconn.woffset]
  unfinished := hunfinished
  total := Or.inl hconn.totalSet
  file := fun hfile ↦
    have hopen := hconn.file hfile
    ⟨hopen.1, Nat.le_trans hopen.2 (Nat.le_add_right _ _)⟩
  opened := fun hlong hoffset ↦ by
    rcases Nat.lt_or_ge offset res.header.length with hheader | hbody
    · exact absurd hoffset (Nat.not_lt.mpr (hwithin hheader))
    · exact hconn.openedAtBody hlong hbody
  fileOffset := fun hfile ↦ by
    change conn.wFileFd ≠ none at hfile
    have hopen := (hconn.file hfile).2
    have hfileOffset := hconn.fileOffset hfile
    change conn.fileOffsetAfter count = offset + count - res.header.length
    rw [Connection.fileOffsetAfter_of_ne count hfile]
    omega
  noFile := hconn.noFileAfter count
  inHeader := fun hoffset ↦ hconn.inHeader (Nat.lt_of_le_of_lt (Nat.le_add_right _ _) hoffset)
  inBody := fun hoffset ↦ by
    rcases Nat.lt_or_ge offset res.header.length with hheader | hbody
    · exact absurd hoffset (Nat.not_lt.mpr (hwithin hheader))
    · exact hconn.inBody hbody
  notFinished := hconn.sending.notFinished

/-- The end of `write_callback` after `count` more bytes of the response. -/
theorem Loaded.switchEvent {res : Resource} {conn : Connection} {offset count : ℕ}
    (hconn : Loaded res conn offset)
    (hwithin : offset < res.header.length → offset + count ≤ res.header.length)
    (htotal : offset + count ≤ res.header.length + res.file.length) (hcount : 0 < count)
    (socket : ℕ) :
    Advanced res offset (switchEvent
      { conn with
        woffset := conn.woffset + count
        wfileOffset := conn.fileOffsetAfter count } socket
      ((res.response.drop offset).take count)) := by
  have hnotFinished := hconn.sending.notFinished
  have hwoffset := hconn.woffset
  rcases Nat.lt_or_eq_of_le htotal with hunfinished | hend
  · have hne : ¬ (conn.wstatus = .body ∧ conn.woffset + count = conn.wtotallength) := by
      rw [hconn.totalSet, hwoffset]
      omega
    simp only [Reactor.switchEvent, if_neg hne, if_neg hnotFinished]
    exact .sent count (hconn.advance hwithin hunfinished hcount)
  · have hbody : res.header.length ≤ offset := by
      have hpos := res.file_pos
      rcases Nat.lt_or_ge offset res.header.length with hheader | hbody
      · have hle := hwithin hheader
        omega
      · exact hbody
    have heq : conn.wstatus = .body ∧ conn.woffset + count = conn.wtotallength := by
      rw [hconn.totalSet, hwoffset]
      exact ⟨hconn.inBody hbody, hend⟩
    simp only [Reactor.switchEvent, if_pos heq, ↓reduceIte]
    exact .finished count (Connection.writeReset_resetW (hconn.noFileAfter count)) hend

/-- The branch that sends the write buffer. -/
theorem Loaded.sendBuffer {res : Resource} {conn : Connection} {offset : ℕ}
    (hconn : Loaded res conn offset) (hfile : conn.wFileFd = none) (fd : ℕ)
    (result : SendResult) : Advanced res offset (sendBuffer fd result conn) := by
  cases result with
  | again => exact .waiting .keep (Or.inl rfl) hconn.sending
  | error => exact .waiting .close (Or.inr rfl) hconn.sending
  | accepts room =>
    simp only [Reactor.sendBuffer]
    split_ifs with hzero
    · exact .waiting .close (Or.inr rfl) hconn.sending
    · have hle : min room conn.wlength ≤ conn.wlength := Nat.min_le_right _ _
      have hwithin : offset < res.header.length →
          offset + min room conn.wlength ≤ res.header.length := fun hheader ↦
        Nat.le_trans (Nat.add_le_add_left hle _) (hconn.withinHeader hheader)
      have htotal := Nat.le_trans (Nat.add_le_add_left hle _) (hconn.withinBody hfile)
      have hadvanced := hconn.switchEvent hwithin htotal (Nat.pos_of_ne_zero hzero) fd
      rw [Connection.fileOffsetAfter_of_none _ hfile] at hadvanced
      rw [hconn.buffer hfile _ hle]
      exact hadvanced

/-- The branch that sends from the file. -/
theorem Loaded.sendFile {res : Resource} {conn : Connection} {offset : ℕ}
    (hconn : Loaded res conn offset) (hfile : conn.wFileFd ≠ none) (result : SendResult) :
    Advanced res offset (sendFile res result conn) := by
  cases result with
  | again => exact .waiting .keep (Or.inl rfl) hconn.sending
  | error => exact .waiting .close (Or.inr rfl) hconn.sending
  | accepts room =>
    simp only [Reactor.sendFile]
    split_ifs with hzero
    · exact .waiting .close (Or.inr rfl) hconn.sending
    · have hopen := (hconn.file hfile).2
      have hle : min room (conn.wtotallength - conn.woffset) ≤ conn.wtotallength - conn.woffset :=
        Nat.min_le_right _ _
      rw [hconn.totalSet, hconn.woffset] at hle
      have hunfinished := hconn.unfinished
      have hadvanced := hconn.switchEvent (fun hheader ↦ absurd hheader (Nat.not_lt.mpr hopen))
        (by rw [hconn.totalSet, hconn.woffset]; omega) (Nat.pos_of_ne_zero hzero) conn.fd
      rw [Connection.fileOffsetAfter_of_ne _ hfile, drop_response_of_ge hopen,
        ← hconn.fileOffset hfile] at hadvanced
      exact hadvanced

/-- One call of `write_callback`. -/
theorem Sending.writeCallback {res : Resource} {conn : Connection} {offset : ℕ}
    (hconn : Sending res conn offset) (fd filefd : ℕ) (result : SendResult) :
    ∃ written, writeCallback res fd (some filefd) result conn = some written ∧
      Advanced res offset written := by
  obtain ⟨loaded, hresponse, hloaded⟩ := hconn.httpResponse filefd
  rw [Reactor.writeCallback, hresponse]
  refine ⟨_, rfl, ?_⟩
  cases hfile : loaded.wFileFd with
  | none =>
    simp only [hfile]
    exact hloaded.sendBuffer hfile fd result
  | some _ =>
    simp only [hfile]
    exact hloaded.sendFile (hfile ▸ Option.some_ne_none _) result

/-! ### Sessions -/

/-- The stream of a session is a whole number of responses, or stops inside the last one. -/
structure Streaming (res : Resource) (session : Session) : Prop where
  closed : session.interest = none →
    (∃ offset, Progress res session.conn offset) ∧
      session.sent <+: repeated session.requests res.response
  receiving : session.interest = some .recv →
    Progress res session.conn 0 ∧ session.sent = repeated session.requests res.response
  sending : session.interest = some .send →
    ∃ count offset, session.requests = count + 1 ∧ Sending res session.conn offset ∧
      session.sent = repeated count res.response ++ res.response.take offset

theorem Streaming.of_closed {res : Resource} {session : Session} {offset : ℕ}
    (hinterest : session.interest = none) (hconn : Progress res session.conn offset)
    (hsent : session.sent <+: repeated session.requests res.response) : Streaming res session where
  closed := fun _ ↦ ⟨⟨offset, hconn⟩, hsent⟩
  receiving := fun hrecv ↦ absurd (hinterest.symm.trans hrecv) (by simp)
  sending := fun hsend ↦ absurd (hinterest.symm.trans hsend) (by simp)

theorem Streaming.of_receiving {res : Resource} {session : Session}
    (hinterest : session.interest = some .recv) (hconn : Progress res session.conn 0)
    (hsent : session.sent = repeated session.requests res.response) : Streaming res session where
  closed := fun hnone ↦ absurd (hinterest.symm.trans hnone) (by simp)
  receiving := fun _ ↦ ⟨hconn, hsent⟩
  sending := fun hsend ↦ absurd (hinterest.symm.trans hsend) (by simp)

theorem Streaming.of_sending {res : Resource} {session : Session} {count offset : ℕ}
    (hinterest : session.interest = some .send) (hconn : Sending res session.conn offset)
    (hrequests : session.requests = count + 1)
    (hsent : session.sent = repeated count res.response ++ res.response.take offset) :
    Streaming res session where
  closed := fun hnone ↦ absurd (hinterest.symm.trans hnone) (by simp)
  receiving := fun hrecv ↦ absurd (hinterest.symm.trans hrecv) (by simp)
  sending := fun _ ↦ ⟨count, offset, hrequests, hconn, hsent⟩

theorem Streaming.isPrefix {res : Resource} {session : Session} (hsession : Streaming res session) :
    session.sent <+: repeated session.requests res.response := by
  cases hinterest : session.interest with
  | none => exact (hsession.closed hinterest).2
  | some interest =>
    cases interest with
    | recv => exact (hsession.receiving hinterest).2 ▸ List.prefix_rfl
    | send =>
      obtain ⟨count, offset, hrequests, -, hsent⟩ := hsession.sending hinterest
      rw [hsent, hrequests]
      exact take_prefix_repeated count offset res.response

/-- `read_callback` on a session. -/
theorem Streaming.afterRead {res : Resource} {session : Session} (hsession : Streaming res session)
    (hinterest : session.interest = some .recv) (result : RecvResult) :
    Streaming res (session.afterRead result) ∧
      ((session.afterRead result).interest = some .recv →
        (session.afterRead result).conn = session.conn) := by
  obtain ⟨hconn, hsent⟩ := hsession.receiving hinterest
  cases result with
  | again => exact ⟨.of_receiving hinterest hconn hsent, fun _ ↦ rfl⟩
  | error => exact ⟨.of_closed rfl hconn (hsent ▸ List.prefix_rfl), fun _ ↦ rfl⟩
  | received data =>
    by_cases hdata : data.length = 0
    · simp only [Session.afterRead, readCallback, RecvResult.requests, if_pos hdata]
      exact ⟨.of_closed rfl hconn (hsent ▸ List.prefix_rfl), fun _ ↦ trivial⟩
    · simp only [Session.afterRead, readCallback, RecvResult.requests, if_neg hdata]
      refine ⟨.of_sending rfl (hconn.httpRequest _ _) rfl ?_, fun hrecv ↦ ?_⟩
      · rw [List.take_zero, List.append_nil]
        exact hsent
      · exact absurd hrecv (by simp [Next.apply])

/-- `write_callback` on a session. -/
theorem Streaming.afterWrite {res : Resource} {session : Session} {offset count : ℕ}
    {written : Written} (hinterest : session.interest = some .send)
    (hrequests : session.requests = count + 1)
    (hsent : session.sent = repeated count res.response ++ res.response.take offset)
    (hwritten : Advanced res offset written) :
    Streaming res (session.afterWrite written) ∧
      ((session.afterWrite written).interest = some .recv → written.conn.WriteReset) := by
  have hfront := take_prefix_repeated count offset res.response
  rw [← hsent, ← hrequests] at hfront
  cases hwritten with
  | waiting next hnext hlater =>
    rw [Session.afterWrite, List.append_nil]
    rcases hnext with rfl | rfl
    · refine ⟨.of_sending hinterest hlater hrequests hsent, fun hrecv ↦ ?_⟩
      exact absurd (hinterest.symm.trans hrecv) (by simp)
    · refine ⟨.of_closed rfl hlater.toProgress hfront, fun hrecv ↦ ?_⟩
      exact absurd hrecv (by simp [Next.apply])
  | sent taken hlater =>
    refine ⟨.of_sending hinterest hlater hrequests ?_, fun hrecv ↦ ?_⟩
    · exact (congrArg (· ++ _) hsent).trans (repeated_append_take count res.response offset taken)
    · exact absurd (hinterest.symm.trans hrecv) (by simp)
  | finished taken hlater htotal =>
    refine ⟨.of_receiving rfl (hlater.progress res) ?_, fun _ ↦ hlater⟩
    have hend : res.response.length ≤ offset + taken :=
      Nat.le_of_eq (res.length_response.trans htotal.symm)
    calc session.sent ++ (res.response.drop offset).take taken
        = repeated count res.response ++ res.response.take (offset + taken) := by
          rw [hsent, repeated_append_take]
      _ = repeated session.requests res.response := by
          rw [repeated_succ_of_length_le count hend, hrequests]

/-- One event of a session. Assumes: `write_callback` returns and sends the next bytes of the
response. -/
theorem Streaming.step_of_advanced {res : Resource} {session next : Session} {dispatch : Dispatch}
    (hsession : Streaming res session)
    (hwrite : ∀ opened result offset, dispatch = .write opened result →
      Sending res session.conn offset → ∃ written,
        writeCallback res session.conn.fd opened result session.conn = some written ∧
        Advanced res offset written)
    (hstep : session.step res dispatch = some next) :
    Streaming res next ∧ (next.interest = some .recv →
      session.interest = some .recv ∧ next.conn = session.conn ∨ next.conn.WriteReset) := by
  cases dispatch with
  | read result =>
    rw [Session.step, Option.ite_none_right_eq_some] at hstep
    obtain ⟨⟨hinterest, -⟩, hnext⟩ := hstep
    obtain rfl := Option.some.inj hnext
    obtain ⟨hstreaming, hsame⟩ := hsession.afterRead hinterest result
    exact ⟨hstreaming, fun hrecv ↦ Or.inl ⟨hinterest, hsame hrecv⟩⟩
  | write opened result =>
    rw [Session.step, Option.ite_none_right_eq_some] at hstep
    obtain ⟨hinterest, hwritten⟩ := hstep
    obtain ⟨count, offset, hrequests, hconn, hsent⟩ := hsession.sending hinterest
    obtain ⟨written, hcallback, hadvanced⟩ := hwrite opened result offset rfl hconn
    rw [hcallback] at hwritten
    obtain rfl := Option.some.inj hwritten
    obtain ⟨hstreaming, hreset⟩ := Streaming.afterWrite hinterest hrequests hsent hadvanced
    exact ⟨hstreaming, fun hrecv ↦ Or.inr (hreset hrecv)⟩

theorem streaming_step {res : Resource} {session next : Session} {dispatch : Dispatch}
    (hsession : Streaming res session) (hopen : dispatch.OpenSucceeds)
    (hstep : session.step res dispatch = some next) :
    Streaming res next ∧ (next.interest = some .recv →
      session.interest = some .recv ∧ next.conn = session.conn ∨ next.conn.WriteReset) := by
  refine hsession.step_of_advanced ?_ hstep
  rintro opened result offset rfl hconn
  obtain ⟨filefd, rfl⟩ := Option.ne_none_iff_exists'.mp hopen
  exact hconn.writeCallback session.conn.fd filefd result

/-- No call of `write_callback` in the middle of a response leaves the cached data. -/
theorem Streaming.write_defined {res : Resource} {session : Session}
    (hsession : Streaming res session) (hinterest : session.interest = some .send) (filefd : ℕ)
    (result : SendResult) : ∃ next, session.step res (.write (some filefd) result) = some next := by
  obtain ⟨count, offset, -, hconn, -⟩ := hsession.sending hinterest
  obtain ⟨written, hcallback, -⟩ := hconn.writeCallback session.conn.fd filefd result
  refine ⟨session.afterWrite written, ?_⟩
  rw [Session.step, if_pos hinterest, hcallback]
  rfl

/-- The bytes that an open socket has taken are a prefix of the response repeated once for each
request; they are all of it exactly while the reactor waits for the next request, and then the write
state is as `reset_w` leaves it. Assumes: the connection starts in that write state, and every
`open` succeeds. -/
theorem response_stream (res : Resource) {conn : Connection} (hconn : conn.WriteReset)
    {events : List Dispatch} {final : Session}
    (hopen : ∀ dispatch ∈ events, dispatch.OpenSucceeds)
    (hrun : run (Session.step res) ⟨conn, some .recv, [], 0⟩ events = some final) :
    final.sent <+: repeated final.requests res.response ∧
      (final.interest ≠ none →
        (final.interest = some .recv ↔ final.sent = repeated final.requests res.response)) ∧
      (final.interest = some .recv → final.conn.WriteReset) ∧
      (final.interest = some .send → ∀ filefd result, ∃ next,
        final.step res (.write (some filefd) result) = some next) := by
  have hpreserved : ∀ session dispatch next,
      Streaming res session ∧ (session.interest = some .recv → session.conn.WriteReset) →
      dispatch.OpenSucceeds → session.step res dispatch = some next →
      Streaming res next ∧ (next.interest = some .recv → next.conn.WriteReset) := by
    intro session dispatch next hsession hallowed hstep
    obtain ⟨hstreaming, hreset⟩ := streaming_step hsession.1 hallowed hstep
    refine ⟨hstreaming, fun hrecv ↦ ?_⟩
    rcases hreset hrecv with ⟨hbefore, hsame⟩ | hafter
    · rw [hsame]
      exact hsession.2 hbefore
    · exact hafter
  have hfinal := run_invariant_along hpreserved
    ⟨.of_receiving rfl (hconn.progress res) rfl, fun _ ↦ hconn⟩
    (along_of_forall (fun dispatch hmem _ ↦ hopen dispatch hmem) _) hrun
  obtain ⟨hstreaming, hreset⟩ := hfinal
  refine ⟨hstreaming.isPrefix, fun hinterest ↦ ⟨fun hrecv ↦ (hstreaming.receiving hrecv).2,
    fun hwhole ↦ ?_⟩, hreset, fun hsend ↦ hstreaming.write_defined hsend⟩
  by_contra hrecv
  have hsend : final.interest = some .send := by
    cases hvalue : final.interest with
    | none => exact absurd hvalue hinterest
    | some interest =>
      cases interest with
      | recv => exact absurd hvalue hrecv
      | send => rfl
  obtain ⟨count, offset, hrequests, hsending, hsent⟩ := hstreaming.sending hsend
  rw [hsent, hrequests] at hwhole
  refine repeated_append_take_ne ?_ hwhole
  rw [res.length_response]
  exact hsending.unfinished

/-- A response of three bytes, sent from the buffer. -/
def shortResource : Resource :=
  ⟨[72], [1, 2], by decide, by decide, by decide, by decide⟩

/-- A response of 3073 bytes, sent from the file. -/
def longResource : Resource :=
  ⟨[72], List.replicate 3072 7, by decide, by decide, by rw [List.length_replicate]; decide,
    by rw [List.length_replicate]; decide⟩

/-- One request whose response is taken in pieces. -/
def piecewise : List Dispatch :=
  [.read (.received [65]), .write (some 9) (.accepts 1), .write (some 9) .again,
    .write (some 9) (.accepts 1), .write (some 9) (.accepts 3100)]

theorem response_stream_piecewise :
    (∃ final, run (Session.step shortResource) ⟨.unused, some .recv, [], 0⟩ piecewise = some final ∧
      final.sent = [72, 1, 2] ∧ final.conn.WriteReset) ∧
    ∃ final, run (Session.step longResource) ⟨.unused, some .recv, [], 0⟩ piecewise = some final ∧
      final.sent = repeated 1 longResource.response ∧ final.conn.WriteReset := by
  have hopen : ∀ dispatch ∈ piecewise, dispatch.OpenSucceeds := by
    simp [piecewise, Dispatch.OpenSucceeds]
  have hconn : Connection.unused.WriteReset := ⟨rfl, rfl, rfl, rfl, rfl, rfl⟩
  have hshort : (run (Session.step shortResource) ⟨.unused, some .recv, [], 0⟩ piecewise).map
      (fun session ↦ (session.interest, session.sent)) = some (some .recv, [72, 1, 2]) := by
    decide +kernel
  have hlong : (run (Session.step longResource) ⟨.unused, some .recv, [], 0⟩ piecewise).map
      (fun session ↦ (session.interest, session.requests)) = some (some .recv, 1) := by
    decide +kernel
  obtain ⟨short, hrun, hview⟩ := exists_of_view hshort
  obtain ⟨long, hrun', hview'⟩ := exists_of_view hlong
  obtain ⟨hinterest, hsent⟩ := Prod.mk.inj hview
  obtain ⟨hinterest', hrequests⟩ := Prod.mk.inj hview'
  have hstream := response_stream shortResource hconn hopen hrun
  have hstream' := response_stream longResource hconn hopen hrun'
  refine ⟨⟨short, hrun, hsent, hstream.2.2.1 hinterest⟩, long, hrun', ?_, hstream'.2.2.1 hinterest'⟩
  rw [← hrequests]
  exact (hstream'.2.1 (hinterest' ▸ Option.some_ne_none _)).mp hinterest'

end TestLinux.Reactor
