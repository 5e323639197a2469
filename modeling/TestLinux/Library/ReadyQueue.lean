import Mathlib.Data.List.Nodup

/-!
# Ready queues

A queue of items that have something to report. `enqueue` appends an item that is not queued yet,
and `dequeue` removes an item. `collect` is one scan of the queue from its front: it takes at most
`limit` items that still have something to report, and drops the others that it passes.

`mem_or_idxOf_collect` says that a scan either takes an item that has something to report or brings
it `limit` places closer to the front; `idxOf_enqueue` and `idxOf_dequeue_le` say that nothing else
moves an item back. `nodup_enqueue` and `nodup_collect` say that no item is in the queue twice.
-/

set_option autoImplicit false
set_option relaxedAutoImplicit false

namespace TestLinux.ReadyQueue

variable {α : Type*} [DecidableEq α]

/-- Appends an item, once. -/
def enqueue (item : α) (queue : List α) : List α :=
  if item ∈ queue then queue else queue ++ [item]

/-- Removes an item. -/
def dequeue (item : α) (queue : List α) : List α := queue.filter (· ≠ item)

/-- Takes at most `limit` items with something to report from the front. The result is what has been
taken and the rest of the queue. -/
def collect (reports : α → Bool) : ℕ → List α → List α × List α
  | 0, queue => ([], queue)
  | _ + 1, [] => ([], [])
  | limit + 1, item :: queue =>
    if reports item then
      (item :: (collect reports limit queue).1, (collect reports limit queue).2)
    else collect reports (limit + 1) queue

theorem mem_enqueue {item other : α} {queue : List α} :
    item ∈ enqueue other queue ↔ item = other ∨ item ∈ queue := by
  unfold enqueue
  split_ifs with hmem
  · constructor
    · exact Or.inr
    · rintro (rfl | hitem)
      · exact hmem
      · exact hitem
  · rw [List.mem_append, List.mem_singleton, or_comm]

theorem idxOf_enqueue {item : α} (other : α) {queue : List α} (hitem : item ∈ queue) :
    (enqueue other queue).idxOf item = queue.idxOf item := by
  unfold enqueue
  split_ifs
  · rfl
  · exact List.idxOf_append_of_mem hitem

theorem mem_dequeue {item other : α} {queue : List α} :
    item ∈ dequeue other queue ↔ item ∈ queue ∧ item ≠ other := by
  rw [dequeue, List.mem_filter, decide_eq_true_iff]

theorem idxOf_dequeue_le {item other : α} (hne : item ≠ other) (queue : List α) :
    (dequeue other queue).idxOf item ≤ queue.idxOf item := by
  induction queue with
  | nil => exact Nat.le_refl _
  | cons first queue ih =>
    unfold dequeue at ih ⊢
    by_cases hfirst : first = item
    · rw [List.filter_cons_of_pos (by simpa [hfirst] using hne), hfirst, List.idxOf_cons_self]
      exact Nat.zero_le _
    · rw [List.idxOf_cons_ne queue hfirst]
      by_cases hother : first = other
      · rw [List.filter_cons_of_neg (by simp [hother])]
        exact Nat.le_succ_of_le ih
      · rw [List.filter_cons_of_pos (by simpa using hother), List.idxOf_cons_ne _ hfirst]
        exact Nat.succ_le_succ ih

theorem nodup_enqueue {queue : List α} (hqueue : queue.Nodup) (item : α) :
    (enqueue item queue).Nodup := by
  unfold enqueue
  split_ifs with hmem
  · exact hqueue
  · exact List.nodup_append.mpr ⟨hqueue, List.nodup_singleton item, fun other hother last hlast ↦ by
      rw [List.mem_singleton.mp hlast]
      exact fun heq ↦ hmem (heq ▸ hother)⟩

/-! ### One scan -/

omit [DecidableEq α] in
/-- What a scan takes has something to report. -/
theorem reports_of_mem_collect {limit : ℕ} {reports : α → Bool} {item : α} {queue : List α}
    (hitem : item ∈ (collect reports limit queue).1) : reports item = true := by
  fun_induction collect reports limit queue with
  | case1 | case2 => exact absurd hitem List.not_mem_nil
  | case3 limit first queue hfirst ih =>
    rcases List.mem_cons.mp hitem with rfl | hrest
    · exact hfirst
    · exact ih hrest
  | case4 limit first queue hfirst ih => exact ih hitem

omit [DecidableEq α] in
theorem collect_sublist (limit : ℕ) (reports : α → Bool) (queue : List α) :
    ((collect reports limit queue).1 ++ (collect reports limit queue).2).Sublist queue := by
  fun_induction collect reports limit queue with
  | case1 queue => exact List.Sublist.refl queue
  | case2 => exact List.Sublist.refl []
  | case3 limit first queue hfirst ih => exact ih.cons_cons first
  | case4 limit first queue hfirst ih => exact ih.cons first

omit [DecidableEq α] in
/-- A scan takes no item twice, and none that it leaves. -/
theorem nodup_collect {queue : List α} (hqueue : queue.Nodup) (limit : ℕ) (reports : α → Bool) :
    (collect reports limit queue).1.Nodup ∧
      ((collect reports limit queue).2 ++ (collect reports limit queue).1).Nodup := by
  have hnodup := hqueue.sublist (collect_sublist limit reports queue)
  exact ⟨hnodup.of_append_left, List.nodup_append_comm.mp hnodup⟩

/-- A scan takes an item that has something to report, or brings it closer to the front. -/
theorem mem_or_idxOf_collect (limit : ℕ) {reports : α → Bool} {item : α} {queue : List α}
    (hreports : reports item = true) (hitem : item ∈ queue) :
    item ∈ (collect reports limit queue).1 ∨ item ∈ (collect reports limit queue).2 ∧
      limit + (collect reports limit queue).2.idxOf item ≤ queue.idxOf item := by
  fun_induction collect reports limit queue with
  | case1 queue => exact Or.inr ⟨hitem, Nat.le_of_eq (Nat.zero_add _)⟩
  | case2 limit => exact absurd hitem List.not_mem_nil
  | case3 limit first queue hfirst ih =>
    by_cases hsame : first = item
    · exact Or.inl (hsame ▸ List.mem_cons_self)
    · have hrest := (List.mem_cons.mp hitem).resolve_left (Ne.symm hsame)
      rcases ih hrest with htaken | ⟨hleft, hplace⟩
      · exact Or.inl (List.mem_cons_of_mem _ htaken)
      · refine Or.inr ⟨hleft, ?_⟩
        rw [List.idxOf_cons_ne queue hsame]
        show limit + 1 + (collect reports limit queue).2.idxOf item ≤ queue.idxOf item + 1
        omega
  | case4 limit first queue hfirst ih =>
    have hsame : first ≠ item := by
      rintro rfl
      exact hfirst hreports
    have hrest := (List.mem_cons.mp hitem).resolve_left hsame.symm
    rw [List.idxOf_cons_ne queue hsame]
    exact (ih hrest).imp_right fun ⟨hleft, hplace⟩ ↦ ⟨hleft, Nat.le_succ_of_le hplace⟩

end TestLinux.ReadyQueue
