import TestLinux.Ikcp.Fragments

/-!
# When to call `ikcp_update`

`ikcp_update` is to be called repeatedly, or at the time that `ikcp_check` names. Before that time a
call changes nothing but the clock of the control block and puts nothing out
(`update_before_check`). So when nothing is sent or received in between, waiting for `ikcp_check`
puts out the same datagrams as a call at every tick (`onSchedule_eq_everyTick`). Assumes: two ticks
are less than 2147473648 ms apart, and the segments that are queued fit into the `mtu`.
-/

set_option autoImplicit false
set_option relaxedAutoImplicit false

namespace TestLinux.Ikcp

open TestLinux.Serial

/-! ### `ikcp_check` -/

/-- The time to the first segment is positive and not longer than the one to begin with. -/
theorem checkLoop_pos {current : UInt32} {segs : List Ikcpseg} {limit time : ℤ}
    (hcheck : checkLoop current segs limit = some time) (hlimit : 0 < limit) :
    0 < time ∧ time ≤ limit := by
  induction segs generalizing limit with
  | nil =>
    obtain rfl : limit = time := by simpa [checkLoop] using hcheck
    exact ⟨hlimit, Int.le_refl _⟩
  | cons seg rest ih =>
    rw [checkLoop] at hcheck
    split at hcheck
    · cases hcheck
    · rename_i hdue
      obtain ⟨hpos, hle⟩ := ih hcheck (lt_min (Int.not_le.mp hdue) hlimit)
      exact ⟨hpos, Int.le_trans hle (min_le_right _ _)⟩

/-- Where `ikcp_check` names a later time, the next flush is at that time or later, and less than
ten seconds ahead. -/
theorem check_le {kcp : Ikcpcb} {current : UInt32} (hlater : check kcp current ≠ current) :
    kcp.updated ≠ 0 ∧ offset current (check kcp current) ≤ offset current kcp.tsFlush ∧
      offset current kcp.tsFlush ≤ 10000 := by
  have hself : 0 ≤ diff current current := by
    rw [diff_nonneg_iff, offset_self]
    decide
  by_cases hupdated : kcp.updated = 0
  · exact absurd (by rw [check, if_pos hupdated]) hlater
  by_cases hlate : 10000 ≤ diff current kcp.tsFlush ∨ diff current kcp.tsFlush < -10000
  · exact absurd (by rw [check, if_neg hupdated]; simp only [if_pos hlate, if_pos hself]) hlater
  by_cases hnow : 0 ≤ diff current kcp.tsFlush
  · exact absurd (by rw [check, if_neg hupdated]; simp only [if_neg hlate, if_pos hnow]) hlater
  -- the flush is ahead
  have hoffset : offset current kcp.tsFlush ≤ 10000 ∧
      diff kcp.tsFlush current = offset current kcp.tsFlush :=
    offset_of_diff_neg (by decide) (Int.not_le.mp hnow) (Int.not_lt.mp fun h ↦ hlate (Or.inr h))
  refine ⟨hupdated, ?_, hoffset.1⟩
  rw [check, if_neg hupdated]
  simp only [if_neg hlate, if_neg hnow]
  cases hpacket : checkLoop current kcp.sndBuf 2147483647 with
  | none => simp
  | some tmPacket =>
    obtain ⟨hpos, -⟩ := checkLoop_pos hpacket (by decide)
    rw [hoffset.2]
    dsimp only
    rw [offset_add]
    have hle : (UInt32.ofInt (min tmPacket (offset current kcp.tsFlush))).toNat ≤
        offset current kcp.tsFlush := by
      obtain ⟨time, htime⟩ := Int.eq_ofNat_of_zero_le
        (le_min (Int.le_of_lt hpos) (Int.natCast_nonneg (offset current kcp.tsFlush)))
      have hmin : (time : ℤ) ≤ offset current kcp.tsFlush := htime ▸ min_le_right _ _
      have hlt := offset_lt current kcp.tsFlush
      have hmod : ((time : ℤ) % 2 ^ 32).toNat = time := by omega
      rw [htime, UInt32.ofInt, hmod, toNat_ofNat_of_lt (by omega)]
      omega
    split
    · rename_i hinterval
      exact Nat.le_trans (UInt32.le_iff_toNat_le.mp hinterval) hle
    · exact hle

/-- Before the time that `ikcp_check` names, `ikcp_update` only notes the time. -/
theorem update_before_check {kcp : Ikcpcb} {current time : UInt32}
    (hbefore : offset current time < offset current (check kcp current)) :
    update kcp time = ([], { kcp with current := time }) := by
  have hlater : check kcp current ≠ current := by
    intro heq
    rw [heq, offset_self] at hbefore
    exact absurd hbefore (Nat.not_lt_zero _)
  obtain ⟨hupdated, hflush, hlimit⟩ := check_le hlater
  have hdiff : diff time kcp.tsFlush = offset current time - offset current kcp.tsFlush :=
    diff_eq_sub (by omega) (by omega)
  have hlate : ¬ (10000 ≤ diff time kcp.tsFlush ∨ diff time kcp.tsFlush < -10000) := by omega
  have hnot : ¬ 0 ≤ diff time kcp.tsFlush := by omega
  simp only [update, noteTime, if_neg hupdated, if_neg hlate, if_neg hnot]

/-! ### Two ways to call `ikcp_update` -/

/-- A call at every tick: the datagrams that are put out, and the control block. -/
def everyTick (kcp : Ikcpcb) : List UInt32 → List (List UInt8) × Ikcpcb
  | [] => ([], kcp)
  | time :: rest =>
    let result := update kcp time
    let later := everyTick result.2 rest
    (result.1 ++ later.1, later.2)

/-- A call at the first tick from the time on that `ikcp_check` has named. -/
def onSchedule (kcp : Ikcpcb) (due : UInt32) : List UInt32 → List (List UInt8) × Ikcpcb
  | [] => ([], kcp)
  | time :: rest =>
    if diff time due < 0 then onSchedule kcp due rest
    else
      let result := update kcp time
      let later := onSchedule result.2 (check result.2 time) rest
      (result.1 ++ later.1, later.2)

/-- The ticks follow one another by less than half of the range of the clock, less ten seconds. -/
def Ticks (current : UInt32) : List UInt32 → Prop
  | [] => True
  | time :: rest => offset current time < 2147473648 ∧ Ticks time rest

instance decidableTicks : ∀ current times, Decidable (Ticks current times)
  | _, [] => isTrue trivial
  | current, time :: rest =>
    have := decidableTicks time rest
    inferInstanceAs (Decidable (offset current time < 2147473648 ∧ Ticks time rest))

/-- The clock of the control block plays no role in the next call. -/
theorem everyTick_current (kcp : Ikcpcb) (current : UInt32) {times : List UInt32}
    (htimes : times ≠ []) :
    everyTick { kcp with current := current } times = everyTick kcp times := by
  cases times with
  | nil => exact absurd rfl htimes
  | cons time rest => rfl

/-- Waiting for the time that `ikcp_check` has named, from any tick before it on. -/
theorem onSchedule_spec {times : List UInt32} :
    ∀ {kcp : Ikcpcb} {current last : UInt32}, Ticks last times →
      (offset current last = 0 ∨ offset current last < offset current (check kcp current)) →
      (everyTick kcp times).1 = (onSchedule kcp (check kcp current) times).1 ∧
        ∃ clock, (everyTick kcp times).2 =
          { (onSchedule kcp (check kcp current) times).2 with current := clock } := by
  induction times with
  | nil => exact fun {kcp _ _} _ _ ↦ ⟨rfl, kcp.current, rfl⟩
  | cons time rest ih =>
    intro kcp current last hticks hlast
    obtain ⟨hstep, hticks⟩ := hticks
    have hdue : offset current (check kcp current) ≤ 10000 := by
      by_cases hnow : check kcp current = current
      · rw [hnow, offset_self]
        decide
      · obtain ⟨-, hflush, hlimit⟩ := check_le hnow
        exact Nat.le_trans hflush hlimit
    have htime : offset current time = offset current last + offset last time :=
      offset_trans (by omega)
    have hdiff : diff time (check kcp current) =
        offset current time - offset current (check kcp current) :=
      diff_eq_sub (by omega) (by omega)
    rw [everyTick, onSchedule]
    by_cases hskip : diff time (check kcp current) < 0
    · have hbefore : offset current time < offset current (check kcp current) := by omega
      rw [if_pos hskip, update_before_check hbefore]
      by_cases hrest : rest = []
      · subst hrest
        exact ⟨rfl, time, rfl⟩
      · dsimp only
        rw [everyTick_current kcp time hrest, List.nil_append]
        exact ih hticks (Or.inr hbefore)
    · rw [if_neg hskip]
      obtain ⟨hsame, clock, hclock⟩ := @ih (update kcp time).2 time time hticks
        (Or.inl (offset_self time))
      exact ⟨congrArg ((update kcp time).1 ++ ·) hsame, clock, hclock⟩

/-- The calls at every tick write no more than the buffer holds. -/
theorem length_everyTick {times : List UInt32} {kcp : Ikcpcb} (hroomy : kcp.Roomy) :
    ∀ bytes ∈ (everyTick kcp times).1, bytes.length ≤ kcp.mtu.toNat := by
  induction times generalizing kcp with
  | nil => exact fun bytes hbytes ↦ absurd hbytes List.not_mem_nil
  | cons time rest ih =>
    obtain ⟨hsent, hmtu, hnext⟩ := hroomy.update time
    intro bytes hbytes
    rcases List.mem_append.mp hbytes with hbytes | hbytes
    · exact hsent bytes hbytes
    · rw [← hmtu]
      exact ih hnext bytes hbytes

/-- Waiting for the time that `ikcp_check` names puts out the same datagrams as a call at every
tick, none of them longer than the buffer, and leads to the same control block but for its clock.
Assumes: what is queued fits into the `mtu`, and from one tick to the next the clock goes on by less
than half of its range, less ten seconds. -/
theorem onSchedule_eq_everyTick {kcp : Ikcpcb} (hroomy : kcp.Roomy) {current : UInt32}
    {times : List UInt32} (hticks : Ticks current times) :
    (onSchedule kcp (check kcp current) times).1 = (everyTick kcp times).1 ∧
      (∀ bytes ∈ (everyTick kcp times).1, bytes.length ≤ kcp.capacity.toNat) ∧
      ∃ clock, (everyTick kcp times).2 =
        { (onSchedule kcp (check kcp current) times).2 with current := clock } := by
  obtain ⟨hsame, hclock⟩ := @onSchedule_spec times kcp current current hticks
    (Or.inl (offset_self current))
  refine ⟨hsame.symm, fun bytes hbytes ↦ ?_, hclock⟩
  exact Nat.le_trans (length_everyTick hroomy bytes hbytes) hroomy.capacity

/-- A control block that has been flushed once and has a message to send. -/
def waitingKcp : Ikcpcb := (send (update (create 1) 0).2 [1, 2, 3]).2

theorem onSchedule_eq_everyTick_waitingKcp :
    Ticks 10 [20, 90, 110, 150, 210, 330] ∧
      (everyTick waitingKcp [20, 90, 110, 150, 210, 330]).1 ≠ [] ∧
      (onSchedule waitingKcp (check waitingKcp 10) [20, 90, 110, 150, 210, 330]).1 =
        (everyTick waitingKcp [20, 90, 110, 150, 210, 330]).1 := by
  have hroomy : waitingKcp.Roomy := ⟨by decide +kernel, by decide +kernel⟩
  exact ⟨by decide +kernel, by decide +kernel,
    (onSchedule_eq_everyTick hroomy (show Ticks 10 _ by decide +kernel)).1⟩

end TestLinux.Ikcp
