import TestLinux.MulportServer.Receive
import TestLinux.Library.CString

/-!
# The echo of `client_job` and `client_data_process`

Both functions clear a buffer of `MAX_BUFFER` bytes, let `nRecv` write to it, and send it back with
`nSend`, under the condition that `nRun` is set or the first byte is an `a`. The number of bytes
that `nSend` gets is not the number that `nRecv` has counted but the result of `strlen`, which has
no result in this model when it would read behind the buffer.

`nSend_transmits` says that `nSend` sends what it is given, in as many pieces as the socket takes
it. `echo_exact_iff` says what it is given: the bytes received if there is no NUL among them and a
cleared byte is left behind them, and something else or nothing at all otherwise.
-/

set_option autoImplicit false
set_option relaxedAutoImplicit false

namespace TestLinux.MulportServer

open TestLinux.CString TestLinux.Wire

/-! ### `nSend` -/

/-- The answers of `poll` and, where it is called, of `send` in one round of the loop. `send` takes
the given number of bytes, or all that are left if these are fewer; `none` is an error. -/
structure SendOutcome where
  poll : PollAnswer
  send : Option ℕ
  deriving DecidableEq

/-- The variables of `nSend`, the bytes on their way to the client, and the return value. -/
structure Sender where
  wrotelen : ℕ
  sent : List UInt8
  returned : Option ℤ
  deriving DecidableEq

/-- The condition of the loop. -/
def Sender.continue (length : ℕ) (sender : Sender) : Sender :=
  if sender.wrotelen < length then sender else { sender with returned := some sender.wrotelen }

/-- The body of the loop. -/
def Sender.round (bytes : List UInt8) (sender : Sender) (outcome : SendOutcome) : Sender :=
  match outcome.poll with
  | .ready true | .error _ true => { sender with returned := some (-1) }
  | .error errno false =>
    if errno = eintr then sender.continue bytes.length else { sender with returned := some (-1) }
  | .timeout => { sender with returned := some (-1) }
  | .ready false =>
    match outcome.send with
    | none => { sender with returned := some sender.wrotelen }
    | some count =>
      let writeret := min count (bytes.length - sender.wrotelen)
      if writeret = 0 then { sender with returned := some sender.wrotelen }
      else
        Sender.continue bytes.length
          { sender with
            wrotelen := sender.wrotelen + writeret
            sent := sender.sent ++ (bytes.drop sender.wrotelen).take writeret }

/-- The variables of `nSend(sockfd, bytes, length, 0)` behind the given number of rounds, or where
it has returned before. -/
def nSend (bytes : List UInt8) (outcomes : ℕ → SendOutcome) : (rounds : ℕ) → Sender
  | 0 => ⟨0, [], none⟩
  | rounds + 1 =>
    if (nSend bytes outcomes rounds).returned.isSome then nSend bytes outcomes rounds
    else (nSend bytes outcomes rounds).round bytes (outcomes rounds)

/-- The socket is ready whenever it is asked, and takes at least a byte. -/
def Takes (outcomes : ℕ → SendOutcome) : Prop :=
  ∀ round, (outcomes round).poll = .ready false ∧ ∃ count, (outcomes round).send = some (count + 1)

theorem nSend_of_returned {bytes : List UInt8} {outcomes : ℕ → SendOutcome} {rounds later : ℕ}
    (hreturned : (nSend bytes outcomes rounds).returned.isSome = true) (hlater : rounds ≤ later) :
    nSend bytes outcomes later = nSend bytes outcomes rounds := by
  induction later, hlater using Nat.le_induction with
  | base => rfl
  | succ later _ ih => rw [nSend, ih, if_pos hreturned]

/-- What `nSend` has done when the socket takes bytes: it has sent all and returned, or it has sent
some of them and is at work on the others. -/
def Sender.InOrder (bytes : List UInt8) (rounds : ℕ) (sender : Sender) : Prop :=
  sender.returned = some (bytes.length : ℤ) ∧ sender.sent = bytes ∨
    sender.returned = none ∧ sender.sent = bytes.take sender.wrotelen ∧
      rounds ≤ sender.wrotelen ∧ sender.wrotelen < bytes.length

/-- A round sends at least one more byte, the ones that follow in the order given. -/
theorem round_inOrder {bytes : List UInt8} {rounds count : ℕ} {sender : Sender}
    {outcome : SendOutcome} (hpoll : outcome.poll = .ready false)
    (hsend : outcome.send = some (count + 1)) (hreturned : sender.returned = none)
    (hsent : sender.sent = bytes.take sender.wrotelen) (hrounds : rounds ≤ sender.wrotelen)
    (hlength : sender.wrotelen < bytes.length) :
    (sender.round bytes outcome).InOrder bytes (rounds + 1) := by
  obtain ⟨writeret, hwriteret⟩ :
      ∃ writeret, writeret = min (count + 1) (bytes.length - sender.wrotelen) := ⟨_, rfl⟩
  have htaken : sender.sent ++ (bytes.drop sender.wrotelen).take writeret =
      bytes.take (sender.wrotelen + writeret) := by
    rw [hsent, List.take_add]
  rw [Sender.round, hpoll, hsend]
  dsimp only
  rw [← hwriteret, if_neg (by omega), htaken, Sender.continue]
  dsimp only
  split_ifs with hmore
  · exact Or.inr ⟨hreturned, rfl, by dsimp only; omega, hmore⟩
  · have hall : sender.wrotelen + writeret = bytes.length := by omega
    refine Or.inl ⟨by rw [hall], ?_⟩
    dsimp only
    rw [hall, List.take_length]

theorem nSend_inOrder {bytes : List UInt8} {outcomes : ℕ → SendOutcome} (houtcomes : Takes outcomes)
    (hbytes : bytes ≠ []) (rounds : ℕ) : (nSend bytes outcomes rounds).InOrder bytes rounds := by
  induction rounds with
  | zero => exact Or.inr ⟨rfl, rfl, Nat.le_refl 0, List.length_pos_iff.mpr hbytes⟩
  | succ rounds ih =>
    rcases ih with ⟨hreturned, hsent⟩ | ⟨hreturned, hsent, hrounds, hlength⟩
    · rw [nSend, if_pos (by rw [hreturned]; rfl)]
      exact Or.inl ⟨hreturned, hsent⟩
    · obtain ⟨hpoll, count, hsend⟩ := houtcomes rounds
      rw [nSend, if_neg (by rw [hreturned]; exact Bool.false_ne_true)]
      exact round_inOrder hpoll hsend hreturned hsent hrounds hlength

/-- A socket that takes bytes gets all that `nSend` is given. -/
theorem nSend_transmits {outcomes : ℕ → SendOutcome} (houtcomes : Takes outcomes)
    (bytes : List UInt8) :
    ∃ rounds, (nSend bytes outcomes rounds).returned = some (bytes.length : ℤ) ∧
      (nSend bytes outcomes rounds).sent = bytes := by
  by_cases hbytes : bytes = []
  · -- the only round calls `send` for no bytes, which leaves the loop
    obtain ⟨hpoll, count, hsend⟩ := houtcomes 0
    subst hbytes
    refine ⟨1, ?_⟩
    simp [nSend, Sender.round, hpoll, hsend]
  · rcases nSend_inOrder houtcomes hbytes bytes.length with hdone | ⟨-, -, hle, hlt⟩
    · exact ⟨bytes.length, hdone⟩
    · exact absurd hle (Nat.not_le.mpr hlt)

/-- `nSend` sends these bytes and returns. -/
def Transmits (bytes : List UInt8) (outcomes : ℕ → SendOutcome) (sent : List UInt8) : Prop :=
  ∃ rounds, (nSend bytes outcomes rounds).returned.isSome = true ∧
    (nSend bytes outcomes rounds).sent = sent

theorem transmits_iff {outcomes : ℕ → SendOutcome} (houtcomes : Takes outcomes)
    {bytes sent : List UInt8} : Transmits bytes outcomes sent ↔ bytes = sent := by
  obtain ⟨rounds, hreturned, hsent⟩ := nSend_transmits houtcomes bytes
  have hsome : (nSend bytes outcomes rounds).returned.isSome = true := by
    rw [hreturned]
    rfl
  constructor
  · rintro ⟨rounds', hsome', rfl⟩
    rcases Nat.le_total rounds rounds' with hle | hle
    · rw [nSend_of_returned hsome hle, hsent]
    · rw [← nSend_of_returned hsome' hle, hsent]
  · rintro rfl
    exact ⟨rounds, hsome, hsent⟩

/-! ### The two functions -/

/-- What the functions do with the socket behind `nRecv`. -/
inductive Response
  | send (bytes : List UInt8)
  | close
  | nothing
  deriving DecidableEq

/-- The buffer behind `nRecv`. -/
def Receiver.cleared (receiver : Receiver) : List UInt8 :=
  receiver.buffer ++ List.replicate (maxBuffer - receiver.buffer.length) 0

/-- The part of the functions behind `nRecv`. There is no result when `printf` and `strlen` read
behind the end of the buffer. -/
def respond (nRun : Bool) (receiver : Receiver) : Option Response :=
  if 0 < receiver.count maxBuffer then
    if nRun = true ∨ receiver.cleared.head? = some 0x61 then
      (cstring receiver.cleared).map .send
    else some .nothing
  else if receiver.retCode = enotconn then some .close
  else some .nothing

/-- `client_job`. -/
def clientJob (nRun : Bool) (receiver : Receiver) : Option Response := respond nRun receiver

/-- `client_data_process`. -/
def clientDataProcess (nRun : Bool) (receiver : Receiver) : Option Response :=
  respond nRun receiver

/-- `nRecv` returns with these variables. -/
def Delivers (outcomes : ℕ → Outcome) (receiver : Receiver) : Prop :=
  ∃ rounds, (∀ round < rounds, ¬ (nRecv maxBuffer outcomes round).Finished) ∧
    (nRecv maxBuffer outcomes rounds).Finished ∧ nRecv maxBuffer outcomes rounds = receiver

theorem Delivers.count_eq {outcomes : ℕ → Outcome} {receiver : Receiver}
    (hpossible : Possible maxBuffer outcomes) (hdelivers : Delivers outcomes receiver) :
    receiver.count maxBuffer = receiver.buffer.length ∧ receiver.buffer.length ≤ maxBuffer := by
  obtain ⟨rounds, hbefore, -, rfl⟩ := hdelivers
  obtain ⟨hbuffer, hcount, hle⟩ := nRecv_received hpossible hbefore
  have hmax : max 0 (toInt32 maxBuffer) = maxBuffer := by decide
  rw [hmax] at hle
  rw [hbuffer]
  exact ⟨hcount, Int.ofNat_le.mp hle⟩

/-- The string in the buffer is what has been received exactly if no NUL is among it and a cleared
byte is left. -/
theorem cstring_cleared_eq_iff {receiver : Receiver}
    (hlength : receiver.buffer.length ≤ maxBuffer) :
    cstring receiver.cleared = some receiver.buffer ↔
      0 ∉ receiver.buffer ∧ receiver.buffer.length < maxBuffer := by
  by_cases hzero : 0 ∈ receiver.buffer
  · rw [Receiver.cleared, cstring_append_of_zero_mem hzero, Option.some.injEq, upToNul_eq_self_iff]
    exact iff_of_false (not_not.mpr hzero) fun hnot ↦ hnot.1 hzero
  · have hself := upToNul_eq_self_iff.mpr hzero
    have hiff := cstring_append_eq_iff receiver.buffer
      (List.replicate (maxBuffer - receiver.buffer.length) 0)
    rw [hself] at hiff
    rw [Receiver.cleared, hiff, List.head?_replicate, or_iff_right hzero, and_iff_right hzero]
    split_ifs with hfull
    · exact iff_of_false id (by omega)
    · exact iff_of_true rfl (by omega)

/-- The socket gets back what was received. -/
def Echoes (response : Option Response) (sends : ℕ → SendOutcome) (received : List UInt8) : Prop :=
  ∃ bytes, response = some (.send bytes) ∧ Transmits bytes sends received

theorem respond_echoes_iff {nRun : Bool} {receiver : Receiver} {sends : ℕ → SendOutcome}
    (hcount : receiver.count maxBuffer = receiver.buffer.length)
    (hlength : receiver.buffer.length ≤ maxBuffer) (hreceived : receiver.buffer ≠ [])
    (hecho : nRun = true ∨ receiver.buffer.head? = some 0x61) (hsends : Takes sends) :
    Echoes (respond nRun receiver) sends receiver.buffer ↔
      0 ∉ receiver.buffer ∧ receiver.buffer.length < maxBuffer := by
  have hpositive : 0 < receiver.count maxBuffer := by
    rw [hcount]
    exact Int.natCast_pos.mpr (List.length_pos_iff.mpr hreceived)
  have hcondition : nRun = true ∨ receiver.cleared.head? = some 0x61 := by
    refine hecho.imp_right fun hhead ↦ ?_
    rw [Receiver.cleared, List.head?_append, hhead]
    rfl
  rw [Echoes, respond, if_pos hpositive, if_pos hcondition, ← cstring_cleared_eq_iff hlength]
  constructor
  · rintro ⟨bytes, hresponse, htransmits⟩
    obtain ⟨text, htext, heq⟩ := Option.map_eq_some_iff.mp hresponse
    rw [htext, Response.send.inj heq, (transmits_iff hsends).mp htransmits]
  · intro hstring
    exact ⟨receiver.buffer, by rw [hstring]; rfl, (transmits_iff hsends).mpr rfl⟩

/-- The bytes arrive at once, and nothing behind them. -/
def arrival (bytes : List UInt8) : ℕ → Outcome
  | 0 => ⟨.data bytes, .timeout⟩
  | _ + 1 => ⟨.error eagain, .timeout⟩

/-- Everything that fits the buffer can be delivered. -/
theorem exists_delivers {bytes : List UInt8} (hbytes : bytes ≠ [])
    (hlength : bytes.length ≤ maxBuffer) :
    Possible maxBuffer (arrival bytes) ∧
      ∃ receiver, Delivers (arrival bytes) receiver ∧ receiver.buffer = bytes := by
  have hmax : toInt32 maxBuffer = 128 := by decide
  have hpossible : Possible maxBuffer (arrival bytes) := by
    intro round other _ hrecv
    cases round with
    | zero =>
      obtain rfl := Received.data.inj hrecv
      refine ⟨hbytes, ?_⟩
      rw [nRecv, Receiver.start, hmax]
      exact Int.ofNat_le.mpr hlength
    | succ round => exact absurd hrecv (by simp [arrival])
  have hdelivered : delivered (arrival bytes) 1 = bytes := by
    rw [delivered_succ]
    rfl
  have hrunning : Running maxBuffer (arrival bytes) 1 := by
    refine running_succ.mpr ⟨fun _ hround ↦ absurd hround (Nat.not_lt_zero _), id, ?_⟩
    rw [hmax]
    exact (by decide : (0 : ℤ) < 128)
  refine ⟨hpossible, ?_⟩
  by_cases hfull : bytes.length = maxBuffer
  · refine ⟨_, ⟨1, not_finished_of_running hrunning, ?_, rfl⟩, ?_⟩
    · rw [finished_iff_of_running hrunning, hmax, hdelivered, hfull]
      decide
    · rw [nRecv_of_running hrunning, hdelivered]
  · have hroom : ((delivered (arrival bytes) 1).length : ℤ) < toInt32 maxBuffer := by
      rw [hmax, hdelivered]
      exact Int.ofNat_lt.mpr (Nat.lt_of_le_of_ne hlength hfull)
    have hstate := nRecv_of_breaks hrunning hroom trivial
    refine ⟨_, ⟨2, not_finished_of_room hrunning hroom, ?_, rfl⟩, ?_⟩
    · rw [hstate]
      exact Or.inl rfl
    · rw [hstate, delivered_succ, hdelivered]
      exact List.append_nil bytes

/-- For all bytes that `nRecv` delivers, where the functions echo and `nSend` finds a socket that
takes bytes: each of the two functions sends back exactly these bytes if and only if there is no NUL
among them and they are fewer than `MAX_BUFFER`. Assumes: `recv` keeps to the length that it is
given. -/
theorem echo_exact_iff {nRun : Bool} {outcomes : ℕ → Outcome} {receiver : Receiver}
    {sends : ℕ → SendOutcome} (hpossible : Possible maxBuffer outcomes)
    (hdelivers : Delivers outcomes receiver) (hreceived : receiver.buffer ≠ [])
    (hecho : nRun = true ∨ receiver.buffer.head? = some 0x61) (hsends : Takes sends) :
    (Echoes (clientJob nRun receiver) sends receiver.buffer ↔
        0 ∉ receiver.buffer ∧ receiver.buffer.length < maxBuffer) ∧
      (Echoes (clientDataProcess nRun receiver) sends receiver.buffer ↔
        0 ∉ receiver.buffer ∧ receiver.buffer.length < maxBuffer) := by
  obtain ⟨hcount, hlength⟩ := hdelivers.count_eq hpossible
  have hiff := respond_echoes_iff hcount hlength hreceived hecho hsends
  exact ⟨hiff, hiff⟩

/-- A socket that takes one byte at a time. -/
def byteByByte : ℕ → SendOutcome := fun _ ↦ ⟨.ready false, some 1⟩

theorem takes_byteByByte : Takes byteByByte := fun _ ↦ ⟨rfl, 0, rfl⟩

/-- The bytes `ab` come back. -/
theorem echo_exact_of_two_letters :
    ∃ receiver, Delivers (arrival [0x61, 0x62]) receiver ∧ receiver.buffer = [0x61, 0x62] ∧
      Echoes (clientJob false receiver) byteByByte [0x61, 0x62] := by
  obtain ⟨hpossible, receiver, hdelivers, hbuffer⟩ :=
    @exists_delivers [0x61, 0x62] (by decide) (by decide)
  have hreceived : receiver.buffer ≠ [] := by rw [hbuffer]; decide
  have hecho : false = true ∨ receiver.buffer.head? = some 0x61 := by rw [hbuffer]; decide
  have hiff := (echo_exact_iff hpossible hdelivers hreceived hecho takes_byteByByte).1
  rw [hbuffer] at hiff
  exact ⟨receiver, hdelivers, hbuffer, hiff.mpr (by decide)⟩

/-- Bytes that arrive at once and do not come back. -/
theorem exists_not_echoes {bytes : List UInt8} (hlength : bytes.length ≤ maxBuffer)
    (hhead : bytes.head? = some 0x61) (hbytes : 0 ∈ bytes ∨ bytes.length = maxBuffer) :
    ∃ receiver, Possible maxBuffer (arrival bytes) ∧ Delivers (arrival bytes) receiver ∧
      receiver.buffer = bytes ∧ ¬ Echoes (clientJob false receiver) byteByByte bytes := by
  have hne : bytes ≠ [] := by
    rintro rfl
    exact absurd hhead (by decide)
  obtain ⟨hpossible, receiver, hdelivers, rfl⟩ := exists_delivers hne hlength
  refine ⟨receiver, hpossible, hdelivers, rfl, fun hechoes ↦ ?_⟩
  have hcount := (hdelivers.count_eq hpossible).1
  obtain ⟨hzero, hroom⟩ :=
    (respond_echoes_iff hcount hlength hne (Or.inr hhead) takes_byteByByte).mp hechoes
  exact hbytes.elim hzero (Nat.ne_of_lt hroom)

/-- The failures: of `a`, a NUL and `b` not all comes back, and for a full buffer of letters
`client_job` reads behind the buffer. -/
theorem echo_cut_at_nul_and_overrun :
    (∃ receiver, Possible maxBuffer (arrival [0x61, 0, 0x62]) ∧
      Delivers (arrival [0x61, 0, 0x62]) receiver ∧ receiver.buffer = [0x61, 0, 0x62] ∧
      ¬ Echoes (clientJob false receiver) byteByByte [0x61, 0, 0x62]) ∧
      ∃ receiver, Possible maxBuffer (arrival (List.replicate 128 0x61)) ∧
        Delivers (arrival (List.replicate 128 0x61)) receiver ∧
        receiver.buffer = List.replicate 128 0x61 ∧
        ¬ Echoes (clientJob false receiver) byteByByte (List.replicate 128 0x61) := by
  constructor
  · exact exists_not_echoes (by decide) rfl (Or.inl (by decide))
  · have hlength : (List.replicate 128 (0x61 : UInt8)).length = maxBuffer := List.length_replicate
    exact exists_not_echoes (Nat.le_of_eq hlength) rfl (Or.inr hlength)

end TestLinux.MulportServer
