import TestLinux.MulportServer.Model
import TestLinux.Library.Wire

/-!
# `nRecv` and the bytes that it receives

`Receiver.round` is the body of the loop of `nRecv` with the bytes that `recv` puts into the buffer,
for any requested length; `nRecv` runs the loop over a sequence of answers of `recv` and `poll`.
With the bytes counted only, a round is the pair of steps that a thread of the server takes in
`nRecv` (`round_task`).

An error of `recv` that is not a reason to wait is recorded in `ret_code`, but it does not leave the
loop: only a full buffer, a disconnect, a hangup and a timeout do. `nRecv_of_running` says what the
variables are as long as none of them has come up, and `nRecv_reports_iff` what this means for a
socket that is dead from some round on: the loop has been left before, or it is never left.
-/

set_option autoImplicit false
set_option relaxedAutoImplicit false

namespace TestLinux.MulportServer

open TestLinux.Wire

/-! ### The loop -/

/-- The answer of `recv` with the bytes that it has put into the buffer. -/
inductive Received
  | data (bytes : List UInt8)
  | disconnect
  | error (errno : ℕ)
  deriving DecidableEq

/-- The answers of `recv` and, where it is called, of `poll` in one round of the loop. -/
structure Outcome where
  recv : Received
  poll : PollAnswer
  deriving DecidableEq

/-- The variables of `nRecv`: `buffer` is what has been written in front of `p`, and `left` tells
that the loop has been left by a `break`. -/
structure Receiver where
  leftBytes : ℤ
  buffer : List UInt8
  retCode : ℕ
  left : Bool
  deriving DecidableEq

/-- In front of the loop. -/
def Receiver.start (length : ℕ) : Receiver := ⟨toInt32 length, [], 0, false⟩

/-- The loop is not entered again. -/
def Receiver.Finished (receiver : Receiver) : Prop :=
  receiver.left = true ∨ receiver.leftBytes ≤ 0
  deriving Decidable

/-- Behind `poll`. -/
def Receiver.poll (receiver : Receiver) : PollAnswer → Receiver
  | .ready true | .error _ true => { receiver with retCode := enotconn, left := true }
  | .ready false => receiver
  | .timeout => { receiver with retCode := etimedout, left := true }
  | .error errno false =>
    { receiver with retCode := if errno = eintr then receiver.retCode else orEintr errno }

/-- The body of the loop. -/
def Receiver.round (receiver : Receiver) (outcome : Outcome) : Receiver :=
  match outcome.recv with
  | .data bytes =>
    { receiver with
      leftBytes := receiver.leftBytes - bytes.length
      buffer := receiver.buffer ++ bytes }
  | .disconnect => { receiver with retCode := enotconn, left := true }
  | .error errno =>
    Receiver.poll
      { receiver with
        retCode := if errno = eagain ∨ errno = eintr then receiver.retCode else orEintr errno }
      outcome.poll

/-- The variables behind the given number of rounds, or where the loop has ended before. -/
def nRecv (length : ℕ) (outcomes : ℕ → Outcome) : (rounds : ℕ) → Receiver
  | 0 => .start length
  | rounds + 1 =>
    if (nRecv length outcomes rounds).Finished then nRecv length outcomes rounds
    else (nRecv length outcomes rounds).round (outcomes rounds)

/-- `*count`. -/
def Receiver.count (length : ℕ) (receiver : Receiver) : ℤ :=
  toInt32 (length - receiver.leftBytes)

/-! ### The thread of the server -/

/-- The bytes are counted only. -/
def Received.answer : Received → RecvAnswer
  | .data bytes => .data bytes.length
  | .disconnect => .disconnect
  | .error errno => .error errno

/-- The thread that is in front of `recv` or behind `nRecv`. -/
def Receiver.task (fd : ℕ) (receiver : Receiver) : Task where
  fd := fd
  leftBytes := receiver.leftBytes.toNat
  retCode := receiver.retCode
  point := if receiver.Finished then .returned else .recv

/-- The steps of a thread in one round. -/
def Task.round (task : Task) (outcome : Outcome) : Task :=
  if (task.recv outcome.recv.answer).point = .poll then
    (task.recv outcome.recv.answer).poll outcome.poll
  else task.recv outcome.recv.answer

/-- A round of `nRecv` is what a thread of the server does in it. -/
theorem round_task (fd : ℕ) {receiver : Receiver} (hrunning : ¬ receiver.Finished)
    (outcome : Outcome) :
    (receiver.round outcome).task fd = (receiver.task fd).round outcome := by
  obtain ⟨leftBytes, buffer, retCode, left⟩ := receiver
  obtain ⟨hleft, hbytes⟩ := not_or.mp hrunning
  obtain rfl : left = false := Bool.eq_false_of_not_eq_true hleft
  obtain ⟨count, rfl⟩ := Int.eq_ofNat_of_zero_le (Int.le_of_lt (Int.not_le.mp hbytes))
  have hcount : count ≠ 0 := Nat.ne_of_gt (Int.natCast_pos.mp (Int.not_le.mp hbytes))
  obtain ⟨recv, poll⟩ := outcome
  cases recv with
  | data bytes =>
    have hleftBytes : ((count : ℤ) - bytes.length).toNat = count - bytes.length := by omega
    by_cases hmore : 0 < count - bytes.length
    · have hrest : ¬ (count : ℤ) - bytes.length ≤ 0 := by omega
      simp only [Receiver.round, Receiver.task, Task.round, Received.answer, Task.recv,
        Receiver.Finished, Int.toNat_natCast, hleftBytes, hrest, hmore, Bool.false_eq_true,
        false_or, if_true, if_false, reduceCtorEq]
    · have hrest : (count : ℤ) - bytes.length ≤ 0 := by omega
      simp only [Receiver.round, Receiver.task, Task.round, Received.answer, Task.recv,
        Receiver.Finished, Int.toNat_natCast, hleftBytes, hrest, hmore, Bool.false_eq_true,
        or_true, if_true, if_false, reduceCtorEq]
  | disconnect => rfl
  | error errno =>
    cases poll with
    | ready hangup => cases hangup <;> simp [Receiver.round, Receiver.poll, Receiver.task,
        Task.round, Received.answer, Task.recv, Task.poll, Receiver.Finished, hcount]
    | timeout => rfl
    | error _ hangup => cases hangup <;> simp [Receiver.round, Receiver.poll, Receiver.task,
        Task.round, Received.answer, Task.recv, Task.poll, Receiver.Finished, hcount]

/-! ### What the answers amount to -/

/-- The bytes of an answer. -/
def Received.bytes : Received → List UInt8
  | .data bytes => bytes
  | .disconnect => []
  | .error _ => []

/-- All bytes of the first rounds, in order. -/
def delivered (outcomes : ℕ → Outcome) (rounds : ℕ) : List UInt8 :=
  (List.range rounds).flatMap fun round ↦ (outcomes round).recv.bytes

/-- The answers behind which the loop is left: a disconnect, and, when `recv` has failed, a hangup
or a timeout. -/
def Outcome.Breaks (outcome : Outcome) : Prop :=
  match outcome.recv, outcome.poll with
  | .data _, _ => False
  | .disconnect, _ => True
  | .error _, .ready hangup => hangup = true
  | .error _, .timeout => True
  | .error _, .error _ hangup => hangup = true

/-- The code that a round leaves in `ret_code`, given the one before. -/
def Outcome.code (outcome : Outcome) (before : ℕ) : ℕ :=
  match outcome.recv, outcome.poll with
  | .data _, _ => before
  | .disconnect, _ => enotconn
  | .error _, .ready true => enotconn
  | .error _, .error _ true => enotconn
  | .error _, .timeout => etimedout
  | .error errno, .ready false => if errno = eagain ∨ errno = eintr then before else orEintr errno
  | .error errno, .error other false =>
    if other = eintr then if errno = eagain ∨ errno = eintr then before else orEintr errno
    else orEintr other

/-- The code that the first rounds leave. -/
def codeAfter (outcomes : ℕ → Outcome) : (rounds : ℕ) → ℕ
  | 0 => 0
  | rounds + 1 => (outcomes rounds).code (codeAfter outcomes rounds)

theorem delivered_succ (outcomes : ℕ → Outcome) (rounds : ℕ) :
    delivered outcomes (rounds + 1) =
      delivered outcomes rounds ++ (outcomes rounds).recv.bytes := by
  rw [delivered, List.range_succ, List.flatMap_append, List.flatMap_singleton, ← delivered]

/-- The first rounds neither leave the loop nor fill the buffer. -/
def Running (length : ℕ) (outcomes : ℕ → Outcome) (rounds : ℕ) : Prop :=
  ∀ round < rounds, ¬ (outcomes round).Breaks ∧
    ((delivered outcomes round).length : ℤ) < toInt32 length

theorem running_succ {length : ℕ} {outcomes : ℕ → Outcome} {rounds : ℕ} :
    Running length outcomes (rounds + 1) ↔ Running length outcomes rounds ∧
      ¬ (outcomes rounds).Breaks ∧ ((delivered outcomes rounds).length : ℤ) < toInt32 length :=
  Nat.forall_lt_succ_right

/-- One round in terms of what its answers amount to. -/
theorem round_eq (receiver : Receiver) (outcome : Outcome) :
    receiver.round outcome =
        ⟨receiver.leftBytes - outcome.recv.bytes.length, receiver.buffer ++ outcome.recv.bytes,
          outcome.code receiver.retCode, receiver.left⟩ ∧ ¬ outcome.Breaks ∨
      receiver.round outcome =
        ⟨receiver.leftBytes, receiver.buffer, outcome.code receiver.retCode, true⟩ ∧
          outcome.Breaks := by
  obtain ⟨recv, poll⟩ := outcome
  cases recv with
  | data bytes => exact Or.inl ⟨rfl, id⟩
  | disconnect => exact Or.inr ⟨rfl, trivial⟩
  | error errno =>
    cases poll with
    | ready hangup => cases hangup <;> simp [Receiver.round, Receiver.poll, Received.bytes,
        Outcome.code, Outcome.Breaks]
    | timeout => exact Or.inr ⟨rfl, trivial⟩
    | error _ hangup => cases hangup <;> simp [Receiver.round, Receiver.poll, Received.bytes,
        Outcome.code, Outcome.Breaks]

/-- The variables as long as nothing ends the loop. -/
theorem nRecv_of_running {length : ℕ} {outcomes : ℕ → Outcome} {rounds : ℕ}
    (hrunning : Running length outcomes rounds) :
    nRecv length outcomes rounds =
      ⟨toInt32 length - (delivered outcomes rounds).length, delivered outcomes rounds,
        codeAfter outcomes rounds, false⟩ := by
  induction rounds with
  | zero => simp [nRecv, Receiver.start, delivered, codeAfter]
  | succ rounds ih =>
    obtain ⟨hbefore, hbreaks, hroom⟩ := running_succ.mp hrunning
    have hcontinues : ¬ (nRecv length outcomes rounds).Finished := by
      rw [ih hbefore]
      rintro (hleft | hbytes)
      · exact Bool.false_ne_true hleft
      · exact absurd hbytes (by dsimp only; omega)
    have hround := ((round_eq (nRecv length outcomes rounds) (outcomes rounds)).resolve_right
      fun hbroken ↦ hbreaks hbroken.2).1
    rw [nRecv, if_neg hcontinues, hround, ih hbefore, delivered_succ, List.length_append,
      codeAfter, Receiver.mk.injEq]
    refine ⟨?_, rfl, rfl, rfl⟩
    dsimp only
    omega

/-! ### The end of the loop -/

theorem Outcome.Breaks.bytes_eq {outcome : Outcome} (hbreaks : outcome.Breaks) :
    outcome.recv.bytes = [] := by
  obtain ⟨recv, poll⟩ := outcome
  cases recv with
  | data bytes => exact absurd hbreaks id
  | disconnect => rfl
  | error errno => rfl

section Ends

variable {length : ℕ} {outcomes : ℕ → Outcome} {rounds : ℕ}

theorem finished_iff_of_running (hrunning : Running length outcomes rounds) :
    (nRecv length outcomes rounds).Finished ↔
      toInt32 length ≤ (delivered outcomes rounds).length := by
  rw [nRecv_of_running hrunning, Receiver.Finished]
  simp only [Bool.false_eq_true, false_or]
  omega

/-- The round that leaves the loop. -/
theorem nRecv_of_breaks (hrunning : Running length outcomes rounds)
    (hroom : ((delivered outcomes rounds).length : ℤ) < toInt32 length)
    (hbreaks : (outcomes rounds).Breaks) :
    nRecv length outcomes (rounds + 1) =
      ⟨toInt32 length - (delivered outcomes (rounds + 1)).length, delivered outcomes (rounds + 1),
        codeAfter outcomes (rounds + 1), true⟩ := by
  have hcontinues : ¬ (nRecv length outcomes rounds).Finished := by
    rw [finished_iff_of_running hrunning]
    exact Int.not_le.mpr hroom
  have hround := ((round_eq (nRecv length outcomes rounds) (outcomes rounds)).resolve_left
    fun hkept ↦ hkept.2 hbreaks).1
  rw [nRecv, if_neg hcontinues, hround, nRecv_of_running hrunning, delivered_succ,
    hbreaks.bytes_eq, List.append_nil, codeAfter]

/-- A loop that has not ended before is still running, or it has just been left. -/
theorem running_or_breaks
    (hbefore : ∀ round < rounds, ¬ (nRecv length outcomes round).Finished) :
    Running length outcomes rounds ∨ ∃ last, rounds = last + 1 ∧ Running length outcomes last ∧
      ((delivered outcomes last).length : ℤ) < toInt32 length ∧ (outcomes last).Breaks := by
  induction rounds with
  | zero => exact Or.inl fun _ hround ↦ absurd hround (Nat.not_lt_zero _)
  | succ rounds ih =>
    have hcontinues := hbefore rounds (Nat.lt_succ_self rounds)
    rcases ih fun round hround ↦ hbefore round (Nat.lt_succ_of_lt hround) with
      hrunning | ⟨last, rfl, hrunning, hroom, hbreaks⟩
    · have hroom := Int.not_le.mp (mt (finished_iff_of_running hrunning).mpr hcontinues)
      by_cases hbreaks : (outcomes rounds).Breaks
      · exact Or.inr ⟨rounds, rfl, hrunning, hroom, hbreaks⟩
      · exact Or.inl (running_succ.mpr ⟨hrunning, hbreaks, hroom⟩)
    · rw [nRecv_of_breaks hrunning hroom hbreaks] at hcontinues
      exact absurd (Or.inl rfl) hcontinues

theorem not_finished_of_running (hrunning : Running length outcomes rounds) :
    ∀ round < rounds, ¬ (nRecv length outcomes round).Finished := by
  intro round hround
  have hearlier : Running length outcomes round := fun earlier hearlier ↦
    hrunning earlier (Nat.lt_trans hearlier hround)
  rw [finished_iff_of_running hearlier]
  exact Int.not_le.mpr (hrunning round hround).2

/-- A loop with room left is entered once more. -/
theorem not_finished_of_room (hrunning : Running length outcomes rounds)
    (hroom : ((delivered outcomes rounds).length : ℤ) < toInt32 length) :
    ∀ round < rounds + 1, ¬ (nRecv length outcomes round).Finished := by
  intro round hround
  rcases Nat.lt_succ_iff_lt_or_eq.mp hround with hbefore | rfl
  · exact not_finished_of_running hrunning round hbefore
  · rw [finished_iff_of_running hrunning]
    exact Int.not_le.mpr hroom

/-- `recv` returns at least one byte when it succeeds, and no more than it is asked for. -/
def Possible (length : ℕ) (outcomes : ℕ → Outcome) : Prop :=
  ∀ round bytes, ¬ (nRecv length outcomes round).Finished →
    (outcomes round).recv = .data bytes →
    bytes ≠ [] ∧ (bytes.length : ℤ) ≤ (nRecv length outcomes round).leftBytes

/-- No more is delivered than was asked for. -/
theorem length_delivered_le (hpossible : Possible length outcomes)
    (hrunning : Running length outcomes rounds) :
    ((delivered outcomes rounds).length : ℤ) ≤ max 0 (toInt32 length) := by
  cases rounds with
  | zero => exact Int.le_max_left _ _
  | succ rounds =>
    obtain ⟨hbefore, -, hroom⟩ := running_succ.mp hrunning
    have hcontinues : ¬ (nRecv length outcomes rounds).Finished := by
      rw [finished_iff_of_running hbefore]
      exact Int.not_le.mpr hroom
    rw [delivered_succ, List.length_append]
    cases hrecv : (outcomes rounds).recv with
    | data bytes =>
      have hle := (hpossible rounds bytes hcontinues hrecv).2
      rw [nRecv_of_running hbefore] at hle
      simp only [Received.bytes] at hle ⊢
      omega
    | disconnect =>
      simp only [Received.bytes, List.length_nil]
      omega
    | error errno =>
      simp only [Received.bytes, List.length_nil]
      omega

/-- `*count` is the number of bytes delivered, although it goes through two conversions. -/
theorem count_eq {receiver : Receiver} {count : ℕ}
    (hleft : receiver.leftBytes = toInt32 length - count)
    (hcount : (count : ℤ) ≤ max 0 (toInt32 length)) : receiver.count length = count := by
  rw [Receiver.count, hleft]
  rw [toInt32_eq_ite length] at hcount ⊢
  rw [toInt32_eq_ite]
  split_ifs at hcount ⊢ with hlength <;> omega

/-- Where the loop has not ended before, the buffer holds what has been delivered and `*count` tells
how much this is, no more than was asked for. -/
theorem nRecv_received (hpossible : Possible length outcomes)
    (hbefore : ∀ round < rounds, ¬ (nRecv length outcomes round).Finished) :
    (nRecv length outcomes rounds).buffer = delivered outcomes rounds ∧
      (nRecv length outcomes rounds).count length = (delivered outcomes rounds).length ∧
      ((delivered outcomes rounds).length : ℤ) ≤ max 0 (toInt32 length) := by
  rcases running_or_breaks hbefore with hrunning | ⟨last, rfl, hrunning, hroom, hbreaks⟩
  · have hstate := nRecv_of_running hrunning
    have hle := length_delivered_le hpossible hrunning
    exact ⟨by rw [hstate], count_eq (by rw [hstate]) hle, hle⟩
  · have hstate := nRecv_of_breaks hrunning hroom hbreaks
    have hle := length_delivered_le hpossible hrunning
    rw [delivered_succ, hbreaks.bytes_eq, List.append_nil] at hstate ⊢
    exact ⟨by rw [hstate], count_eq (by rw [hstate]) hle, hle⟩

end Ends

/-! ### Dead sockets -/

/-- The errors other than `EAGAIN`, `EWOULDBLOCK` and `EINTR`. -/
def Hard (errno : ℕ) : Prop := errno ≠ 0 ∧ errno ≠ eagain ∧ errno ≠ eintr

/-- From a round on `recv` fails with the error, and `poll` returns at once without a hangup. -/
def DeadFrom (outcomes : ℕ → Outcome) (first errno : ℕ) : Prop :=
  ∀ round, first ≤ round → outcomes round = ⟨.error errno, .ready false⟩

/-- `nRecv` returns behind some round with the error, the number of bytes it has received, and these
bytes in the buffer. -/
def Reports (length : ℕ) (outcomes : ℕ → Outcome) (errno : ℕ) : Prop :=
  ∃ rounds, (∀ round < rounds, ¬ (nRecv length outcomes round).Finished) ∧
    (nRecv length outcomes rounds).Finished ∧
    (nRecv length outcomes rounds).retCode = errno ∧
    (nRecv length outcomes rounds).count length = (delivered outcomes rounds).length ∧
    (nRecv length outcomes rounds).buffer = delivered outcomes rounds

/-- Before the socket is dead the loop ends: what has been delivered is all that was asked for, or a
round leaves the loop; and the code that the rounds up to there have left is the error. -/
def EndsBefore (length : ℕ) (outcomes : ℕ → Outcome) (first errno : ℕ) : Prop :=
  ∃ rounds ≤ first, Running length outcomes rounds ∧
    (toInt32 length ≤ (delivered outcomes rounds).length ∧ codeAfter outcomes rounds = errno ∨
      ((delivered outcomes rounds).length : ℤ) < toInt32 length ∧ rounds < first ∧
        (outcomes rounds).Breaks ∧ codeAfter outcomes (rounds + 1) = errno)

section Dead

variable {length : ℕ} {outcomes : ℕ → Outcome} {first errno : ℕ}

theorem DeadFrom.not_breaks (hdead : DeadFrom outcomes first errno) {round : ℕ}
    (hround : first ≤ round) : ¬ (outcomes round).Breaks := by
  rw [hdead round hround]
  exact Bool.false_ne_true

theorem DeadFrom.delivered_eq (hdead : DeadFrom outcomes first errno) {rounds : ℕ}
    (hrounds : first ≤ rounds) : delivered outcomes rounds = delivered outcomes first := by
  induction rounds, hrounds using Nat.le_induction with
  | base => rfl
  | succ rounds hrounds ih =>
    rw [delivered_succ, hdead rounds hrounds, ih]
    exact List.append_nil _

/-- A loop that is still running when the socket is dead is never left. -/
theorem DeadFrom.running (hdead : DeadFrom outcomes first errno)
    (hrunning : Running length outcomes first)
    (hroom : ((delivered outcomes first).length : ℤ) < toInt32 length) (rounds : ℕ) :
    Running length outcomes rounds := by
  intro round _
  rcases Nat.lt_or_ge round first with hbefore | hround
  · exact hrunning round hbefore
  · refine ⟨hdead.not_breaks hround, ?_⟩
    rw [hdead.delivered_eq hround]
    exact hroom

theorem DeadFrom.not_reports (hdead : DeadFrom outcomes first errno)
    (hrunning : Running length outcomes first)
    (hroom : ((delivered outcomes first).length : ℤ) < toInt32 length) :
    ¬ Reports length outcomes errno := by
  rintro ⟨rounds, -, hfinished, -⟩
  have hlater := hdead.running hrunning hroom (rounds + 1)
  exact not_finished_of_running hlater rounds (Nat.lt_succ_self rounds) hfinished

theorem reports_of_endsBefore (hpossible : Possible length outcomes)
    (hends : EndsBefore length outcomes first errno) : Reports length outcomes errno := by
  obtain ⟨rounds, -, hrunning, ⟨hfull, hcode⟩ | ⟨hroom, -, hbreaks, hcode⟩⟩ := hends
  · have hbefore := not_finished_of_running hrunning
    obtain ⟨hbuffer, hcount, -⟩ := nRecv_received hpossible hbefore
    refine ⟨rounds, hbefore, (finished_iff_of_running hrunning).mpr hfull, ?_, hcount, hbuffer⟩
    rw [nRecv_of_running hrunning, hcode]
  · have hstate := nRecv_of_breaks hrunning hroom hbreaks
    have hbefore := not_finished_of_room hrunning hroom
    obtain ⟨hbuffer, hcount, -⟩ := nRecv_received hpossible hbefore
    refine ⟨rounds + 1, hbefore, ?_, ?_, hcount, hbuffer⟩
    · rw [hstate]
      exact Or.inl rfl
    · rw [hstate, hcode]

/-- For every requested length and all answers of `recv` and `poll` in which the socket is dead from
some round on: `nRecv` reports the error, the number of bytes and the bytes exactly if the loop has
ended before that round with this error recorded. Assumes: `recv` keeps to the length that it is
given. -/
theorem nRecv_reports_iff (hpossible : Possible length outcomes)
    (hdead : DeadFrom outcomes first errno) :
    Reports length outcomes errno ↔ EndsBefore length outcomes first errno := by
  refine ⟨?_, reports_of_endsBefore hpossible⟩
  rintro ⟨rounds, hbefore, hfinished, hcode, -⟩
  rcases running_or_breaks hbefore with hrunning | ⟨last, rfl, hrunning, hroom, hbreaks⟩
  · have hfull := (finished_iff_of_running hrunning).mp hfinished
    rw [nRecv_of_running hrunning] at hcode
    refine ⟨rounds, Nat.le_of_not_lt fun hlater ↦ ?_, hrunning, Or.inl ⟨hfull, hcode⟩⟩
    rw [hdead.delivered_eq (Nat.le_of_lt hlater)] at hfull
    exact Int.not_lt.mpr hfull (hrunning first hlater).2
  · rw [nRecv_of_breaks hrunning hroom hbreaks] at hcode
    have hlast : last < first := Nat.lt_of_not_le fun hlater ↦ hdead.not_breaks hlater hbreaks
    exact ⟨last, Nat.le_of_lt hlast, hrunning, Or.inr ⟨hroom, hlast, hbreaks, hcode⟩⟩

end Dead

/-- `EBADF`, then a byte, and `EBADF` from there on. -/
def byteBetweenErrors : ℕ → Outcome
  | 1 => ⟨.data [0x61], .ready false⟩
  | _ => ⟨.error 9, .ready false⟩

/-- A buffer of one byte is filled before the socket is dead, with the error in `ret_code`. -/
theorem nRecv_reports_byteBetweenErrors : Reports 1 byteBetweenErrors 9 := by
  have hdead : DeadFrom byteBetweenErrors 2 9 := by
    intro round hround
    obtain ⟨later, rfl⟩ := Nat.exists_eq_add_of_le hround
    rw [Nat.add_comm]
    rfl
  have hpossible : Possible 1 byteBetweenErrors := by
    intro round bytes _ hrecv
    match round with
    | 0 => exact absurd hrecv (by simp [byteBetweenErrors])
    | 1 =>
      obtain rfl := Received.data.inj hrecv
      decide
    | _ + 2 => exact absurd hrecv (by simp [byteBetweenErrors])
  refine (nRecv_reports_iff hpossible hdead).mpr ?_
  refine ⟨2, Nat.le_refl 2, ?_, Or.inl (by decide)⟩
  intro round hround
  match round with
  | 0 => exact ⟨by simp [byteBetweenErrors, Outcome.Breaks], by decide⟩
  | 1 => exact ⟨by simp [byteBetweenErrors, Outcome.Breaks], by decide⟩

/-- A descriptor that is not open: `recv` fails with `EBADF`. -/
def notOpen : ℕ → Outcome := fun _ ↦ ⟨.error 9, .ready false⟩

/-- The failure: for a buffer of `MAX_BUFFER` bytes and a descriptor that is not open, `nRecv` does
not return. -/
theorem nRecv_loops_on_closed_socket :
    0 < maxBuffer ∧ Possible maxBuffer notOpen ∧ Hard 9 ∧ DeadFrom notOpen 0 9 ∧
      (∀ rounds, ¬ (nRecv maxBuffer notOpen rounds).Finished) ∧ ¬ Reports maxBuffer notOpen 9 := by
  have hdead : DeadFrom notOpen 0 9 := fun _ _ ↦ rfl
  have hrunning : Running maxBuffer notOpen 0 := fun _ hround ↦ absurd hround (Nat.not_lt_zero _)
  have hroom : ((delivered notOpen 0).length : ℤ) < toInt32 maxBuffer := by decide
  refine ⟨by decide, ?_, by simp [Hard, eagain, eintr], hdead, ?_, hdead.not_reports hrunning hroom⟩
  · intro round bytes _ hrecv
    exact absurd hrecv (by simp [notOpen])
  · intro rounds
    exact not_finished_of_running (hdead.running hrunning hroom (rounds + 1)) rounds
      (Nat.lt_succ_self rounds)

end TestLinux.MulportServer
