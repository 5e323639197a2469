import TestLinux.ConnectionPool.Ownership

/-!
# `init` is all or nothing

`handlesFrom` are the handles that the loop of `init` obtains from `mysql_init`: those of the
iterations up to the first failure, with the handle of that iteration if it is the connection that
fails. `connectLoop_handles` says what the loop has done with them when it ends, wherever that is,
and `init_all_or_nothing` what the call has done: a call that fails leaves the fields alone and has
closed each of the handles once, and a call that succeeds has queued all of them and closed none.
-/

set_option autoImplicit false
set_option relaxedAutoImplicit false

namespace TestLinux.ConnectionPool

variable {Handle : Type*}

/-- The handles that the loop of `init` obtains from iteration `i` on. -/
def handlesFrom (attempt : ℕ → Attempt Handle) : (remaining i : ℕ) → List Handle
  | 0, _ => []
  | remaining + 1, i =>
    match attempt i with
    | .initFailed => []
    | .connectFailed conn => [conn]
    | .connected conn => conn :: handlesFrom attempt remaining (i + 1)

/-- The handles that are created during a call of `init`. -/
def Pool.handles (pool : Pool Handle) (maxConnNum : ℕ) (attempt : ℕ → Attempt Handle) :
    List Handle :=
  if pool.activeFlag then [] else handlesFrom attempt maxConnNum 0

/-- At the end of the loop the first iterations have been successful, their handles are those
created, and there is a further handle, which has been closed, only if the loop has been left
early. -/
theorem connectLoop_handles (attempt : ℕ → Attempt Handle) (remaining i : ℕ)
    (created : List Handle) :
    ∃ handles failed, connectLoop attempt remaining i created =
        (i + handles.length, created ++ handles, failed) ∧
      handlesFrom attempt remaining i = handles ++ failed ∧
      (List.range' i handles.length).map attempt = handles.map .connected ∧
      handles.length ≤ remaining ∧ (handles.length = remaining → failed = []) := by
  induction remaining generalizing i created with
  | zero => exact ⟨[], [], by simp [connectLoop, handlesFrom]⟩
  | succ remaining ih =>
    simp only [connectLoop, handlesFrom]
    cases hattempt : attempt i with
    | initFailed => exact ⟨[], [], by simp⟩
    | connectFailed conn => exact ⟨[], [conn], by simp⟩
    | connected conn =>
      obtain ⟨handles, failed, hloop, hhandles, hattempts, hle, hall⟩ :=
        ih (i + 1) (created ++ [conn])
      refine ⟨conn :: handles, failed, ?_, ?_, ?_, ?_, ?_⟩
      · dsimp only
        rw [hloop, List.length_cons, List.append_assoc, List.singleton_append,
          Nat.add_right_comm i 1, Nat.add_assoc]
      · dsimp only
        rw [hhandles, List.cons_append]
      · rw [List.length_cons, List.range'_succ, List.map_cons, hattempt, List.map_cons, hattempts]
      · exact Nat.succ_le_succ hle
      · exact fun hlength ↦ hall (Nat.succ.inj hlength)

/-- For every pool, every number and all outcomes of `mysql_init` and `mysql_real_connect`: if
`init` returns false, the fields are as they were, and each of the handles created during the call
has been closed once; if it returns true, the handles of `maxConnNum` successful attempts have been
put at the end of the queue in the order of their creation, both counters have grown by their
number, and nothing has been closed. -/
theorem init_all_or_nothing (pool : Pool Handle) (maxConnNum : ℕ)
    (attempt : ℕ → Attempt Handle) :
    (pool.init maxConnNum attempt).success = false ∧
        (pool.init maxConnNum attempt).pool = pool ∧
        ((pool.init maxConnNum attempt).closed).Perm (pool.handles maxConnNum attempt) ∨
      (pool.init maxConnNum attempt).success = true ∧
        (pool.handles maxConnNum attempt).length = maxConnNum ∧
        (List.range maxConnNum).map attempt =
          (pool.handles maxConnNum attempt).map .connected ∧
        (pool.init maxConnNum attempt).pool =
          { connections := pool.connections ++ pool.handles maxConnNum attempt
            activeFlag := true
            totalConnection := pool.totalConnection + maxConnNum
            availableConnection := pool.availableConnection + maxConnNum } ∧
        (pool.init maxConnNum attempt).closed = [] := by
  obtain ⟨handles, failed, hloop, hhandles, hattempts, hle, hall⟩ :=
    connectLoop_handles attempt maxConnNum 0 []
  rw [Pool.init, Pool.handles]
  by_cases hactive : pool.activeFlag = true
  · rw [if_pos hactive, if_pos hactive]
    exact Or.inl ⟨rfl, rfl, List.Perm.refl []⟩
  · rw [if_neg hactive, if_neg hactive, hloop, hhandles, Nat.zero_add, List.nil_append]
    dsimp only
    rcases Nat.lt_or_eq_of_le hle with hearly | hend
    · rw [if_pos hearly]
      exact Or.inl ⟨rfl, rfl, List.perm_append_comm⟩
    · rw [if_neg (Nat.not_lt.mpr (Nat.le_of_eq hend.symm)), hall hend, List.append_nil]
      refine Or.inr ⟨rfl, hend, ?_, rfl, rfl⟩
      rw [← hattempts, hend, List.range_eq_range']

end TestLinux.ConnectionPool
