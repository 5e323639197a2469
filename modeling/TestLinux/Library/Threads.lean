import Mathlib.Algebra.BigOperators.Group.Finset.Basic
import Mathlib.Algebra.BigOperators.Group.Finset.Piecewise
import Mathlib.Data.Fintype.BigOperators

/-!
# Families of threads

A finite family of threads is a function from thread names to whatever one thread owns: its program
point, the values it holds. One step of one thread is a `Function.update` of that function. A
quantity summed over the family changes under such a step by what the one thread gains and loses
(`sum_update_add`), and so does the number of threads at a kind of program point (`population`,
`population_update_add`).

`Sleep` is the state of a thread inside the wait of a condition variable. A thread enters it
`blocked`; a notification makes it `notified`; the wait may also return without a notification,
which is `spurious`. In each of the two last states the thread still has to take the mutex again.
`Exclusive owner holds` says that the threads inside the mutex are exactly its owner.
-/

set_option autoImplicit false
set_option relaxedAutoImplicit false

namespace TestLinux.Threads

/-- The state of a thread inside the wait of a condition variable. -/
inductive Sleep
  | blocked
  | notified
  | spurious
  deriving DecidableEq

section Sums

variable {Thread Value : Type*} [Fintype Thread] [DecidableEq Thread]

/-- A sum over a family changes under a step of one thread by what that thread gains and loses. -/
theorem sum_update_add {Total : Type*} [AddCommMonoid Total] (measure : Value → Total)
    (family : Thread → Value) (thread : Thread) (value : Value) :
    ∑ other, measure (Function.update family thread value other) + measure (family thread) =
      ∑ other, measure (family other) + measure value := by
  have hcompose : ∀ other, measure (Function.update family thread value other) =
      Function.update (fun other ↦ measure (family other)) thread (measure value) other := by
    intro other
    by_cases hother : other = thread
    · subst hother
      simp only [Function.update_self]
    · simp only [Function.update_of_ne hother]
  simp only [hcompose]
  rw [Finset.sum_update_of_mem (Finset.mem_univ thread), Finset.sdiff_singleton_eq_erase,
    ← Finset.sum_erase_add Finset.univ (fun other ↦ measure (family other))
      (Finset.mem_univ thread)]
  rw [add_assoc, add_comm]

/-- The number of threads whose value satisfies a predicate. -/
def population (predicate : Value → Prop) [DecidablePred predicate] (family : Thread → Value) :
    ℕ := ∑ thread, if predicate (family thread) then 1 else 0

theorem population_update_add (predicate : Value → Prop) [DecidablePred predicate]
    (family : Thread → Value) (thread : Thread) (value : Value) :
    population predicate (Function.update family thread value) +
        (if predicate (family thread) then 1 else 0) =
      population predicate family + (if predicate value then 1 else 0) :=
  sum_update_add (fun value ↦ if predicate value then 1 else 0) family thread value

end Sums

section Exclusion

variable {Thread : Type*}

/-- The threads inside the mutex are exactly its owner. -/
def Exclusive (owner : Option Thread) (holds : Thread → Prop) : Prop :=
  ∀ thread, holds thread ↔ owner = some thread

/-- A thread takes a free mutex. -/
theorem Exclusive.acquire {holds holds' : Thread → Prop} {thread : Thread}
    (hexclusive : Exclusive none holds) (hthread : holds' thread)
    (hothers : ∀ other, other ≠ thread → (holds' other ↔ holds other)) :
    Exclusive (some thread) holds' := by
  intro other
  by_cases hother : other = thread
  · subst hother
    simpa using hthread
  · rw [hothers other hother, hexclusive other]
    simp [Ne.symm hother]

/-- The owner gives the mutex back. -/
theorem Exclusive.release {owner : Option Thread} {holds holds' : Thread → Prop} {thread : Thread}
    (hexclusive : Exclusive owner holds) (hinside : holds thread) (hthread : ¬ holds' thread)
    (hothers : ∀ other, other ≠ thread → (holds' other ↔ holds other)) :
    Exclusive none holds' := by
  intro other
  by_cases hother : other = thread
  · subst hother
    simpa using hthread
  · rw [hothers other hother, hexclusive other, (hexclusive thread).mp hinside]
    simp [Ne.symm hother]

/-- A step of one thread that neither takes nor gives back the mutex. -/
theorem Exclusive.stay {owner : Option Thread} {holds holds' : Thread → Prop}
    (hexclusive : Exclusive owner holds) (thread : Thread) (hthread : holds' thread ↔ holds thread)
    (hothers : ∀ other, other ≠ thread → (holds' other ↔ holds other)) :
    Exclusive owner holds' := by
  intro other
  by_cases hother : other = thread
  · rw [hother, hthread, hexclusive thread]
  · rw [hothers other hother, hexclusive other]

/-- A step that neither takes nor gives back the mutex. -/
theorem Exclusive.congr {owner : Option Thread} {holds holds' : Thread → Prop}
    (hexclusive : Exclusive owner holds) (hsame : ∀ thread, holds' thread ↔ holds thread) :
    Exclusive owner holds' :=
  fun thread ↦ (hsame thread).trans (hexclusive thread)

end Exclusion

end TestLinux.Threads
