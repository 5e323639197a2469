import Mathlib.Data.Finset.Card
import Mathlib.Data.Set.Card

/-!
# Maximal runs in a list

A maximal run of a property in a list is a non-empty range of positions that all hold an element
with the property, while the position before the range and the one behind it, where there is one,
do not. `starts` are the positions with the property that are first or preceded by one without it.
Each of them begins one maximal run and every maximal run begins at one of them
(`ncard_maximalRun`), and a scan that goes through the list from the left can count them with one
bit of memory (`card_starts_concat`).
-/

set_option autoImplicit false
set_option relaxedAutoImplicit false

namespace TestLinux.Segments

variable {α : Type*}

/-- There is an element at the position, and it has the property. -/
def holdsAt (p : α → Bool) (l : List α) (i : ℕ) : Bool := l[i]?.any p

/-- The position has the property, and it is first or preceded by one that has not. -/
def IsStart (p : α → Bool) (l : List α) (i : ℕ) : Prop :=
  holdsAt p l i = true ∧ (i = 0 ∨ holdsAt p l (i - 1) = false)

instance (p : α → Bool) (l : List α) (i : ℕ) : Decidable (IsStart p l i) := instDecidableAnd

def starts (p : α → Bool) (l : List α) : Finset ℕ := (Finset.range l.length).filter (IsStart p l)

/-- The positions from `first` up to `stop` all have the property, and neither end can be moved
outwards. -/
structure IsMaximalRun (p : α → Bool) (l : List α) (first stop : ℕ) : Prop where
  nonempty : first < stop
  holds : ∀ i, first ≤ i → i < stop → holdsAt p l i = true
  left : first = 0 ∨ holdsAt p l (first - 1) = false
  right : holdsAt p l stop = false

theorem holdsAt_of_length_le {p : α → Bool} {l : List α} {i : ℕ} (hi : l.length ≤ i) :
    holdsAt p l i = false := by
  rw [holdsAt, List.getElem?_eq_none hi, Option.any_none]

theorem holdsAt_append_left {p : α → Bool} {l l' : List α} {i : ℕ} (hi : i < l.length) :
    holdsAt p (l ++ l') i = holdsAt p l i := by
  rw [holdsAt, List.getElem?_append_left hi, holdsAt]

theorem holdsAt_concat_length {p : α → Bool} {l : List α} {x : α} :
    holdsAt p (l ++ [x]) l.length = p x := by
  rw [holdsAt, List.getElem?_concat_length, Option.any_some]

theorem IsStart.lt_length {p : α → Bool} {l : List α} {i : ℕ} (hstart : IsStart p l i) :
    i < l.length := by
  by_contra hi
  have hnone := holdsAt_of_length_le (p := p) (Nat.le_of_not_lt hi)
  exact Bool.false_ne_true (hnone.symm.trans hstart.1)

theorem mem_starts {p : α → Bool} {l : List α} {i : ℕ} : i ∈ starts p l ↔ IsStart p l i := by
  rw [starts, Finset.mem_filter, Finset.mem_range]
  exact and_iff_right_of_imp IsStart.lt_length

theorem IsMaximalRun.isStart {p : α → Bool} {l : List α} {first stop : ℕ}
    (hrun : IsMaximalRun p l first stop) : IsStart p l first :=
  ⟨hrun.holds first (Nat.le_refl first) hrun.nonempty, hrun.left⟩

/-- Two maximal runs that begin at the same position end at the same position. -/
theorem IsMaximalRun.stop_unique {p : α → Bool} {l : List α} {first stop stop' : ℕ}
    (hrun : IsMaximalRun p l first stop) (hrun' : IsMaximalRun p l first stop') :
    stop = stop' := by
  rcases Nat.lt_trichotomy stop stop' with hlt | heq | hgt
  · have hholds := hrun'.holds stop (Nat.le_of_lt hrun.nonempty) hlt
    exact absurd (hrun.right.symm.trans hholds) Bool.false_ne_true
  · exact heq
  · have hholds := hrun.holds stop' (Nat.le_of_lt hrun'.nonempty) hgt
    exact absurd (hrun'.right.symm.trans hholds) Bool.false_ne_true

/-- At a start begins the run up to the first position behind it without the property. -/
theorem IsStart.exists_maximalRun {p : α → Bool} {l : List α} {first : ℕ}
    (hstart : IsStart p l first) : ∃ stop, IsMaximalRun p l first stop := by
  have hexists : ∃ stop, first ≤ stop ∧ holdsAt p l stop = false :=
    ⟨l.length, Nat.le_of_lt hstart.lt_length, holdsAt_of_length_le (Nat.le_refl _)⟩
  obtain ⟨hle, hright⟩ := Nat.find_spec hexists
  refine ⟨Nat.find hexists, Nat.lt_of_le_of_ne hle ?_, ?_, hstart.2, hright⟩
  · intro heq
    rw [← heq] at hright
    exact Bool.false_ne_true (hright.symm.trans hstart.1)
  · intro i hi hlt
    have hnot := Nat.find_min hexists hlt
    exact eq_true_of_ne_false fun hfalse ↦ hnot ⟨hi, hfalse⟩

/-- There are as many maximal runs as positions at which one begins. -/
theorem ncard_maximalRun (p : α → Bool) (l : List α) :
    {run : ℕ × ℕ | IsMaximalRun p l run.1 run.2}.ncard = (starts p l).card := by
  have himage : Prod.fst '' {run : ℕ × ℕ | IsMaximalRun p l run.1 run.2} = ↑(starts p l) := by
    ext first
    rw [Finset.mem_coe, mem_starts]
    constructor
    · rintro ⟨run, hrun, rfl⟩
      exact hrun.isStart
    · intro hstart
      obtain ⟨stop, hrun⟩ := hstart.exists_maximalRun
      exact ⟨(first, stop), hrun, rfl⟩
  have hinjective : Set.InjOn Prod.fst {run : ℕ × ℕ | IsMaximalRun p l run.1 run.2} := by
    rintro ⟨first, stop⟩ hrun ⟨first', stop'⟩ hrun' heq
    obtain rfl : first = first' := heq
    exact Prod.ext rfl (hrun.stop_unique hrun')
  rw [← hinjective.ncard_image, himage, Set.ncard_coe_finset]

theorem isStart_append_left {p : α → Bool} {l l' : List α} {i : ℕ} (hi : i < l.length) :
    IsStart p (l ++ l') i ↔ IsStart p l i := by
  have hpred : i - 1 < l.length := Nat.lt_of_le_of_lt (Nat.sub_le i 1) hi
  rw [IsStart, holdsAt_append_left hi, holdsAt_append_left hpred, IsStart]

theorem isStart_concat_length {p : α → Bool} {l : List α} {x : α} :
    IsStart p (l ++ [x]) l.length ↔ p x = true ∧ l.getLast?.any p = false := by
  rw [IsStart, holdsAt_concat_length]
  refine and_congr_right fun _ ↦ ?_
  rcases Nat.eq_zero_or_pos l.length with hzero | hpos
  · simp [List.eq_nil_of_length_eq_zero hzero]
  · rw [holdsAt_append_left (Nat.sub_lt hpos Nat.one_pos), holdsAt, List.getLast?_eq_getElem?]
    exact or_iff_right (Nat.ne_of_gt hpos)

/-- An element that is added at the end begins a maximal run exactly if it has the property and the
last element before it has not. -/
theorem card_starts_concat (p : α → Bool) (l : List α) (x : α) :
    (starts p (l ++ [x])).card =
      (starts p l).card + if p x = true ∧ l.getLast?.any p = false then 1 else 0 := by
  have hleft : (Finset.range l.length).filter (IsStart p (l ++ [x])) = starts p l :=
    Finset.filter_congr fun i hi ↦ isStart_append_left (Finset.mem_range.mp hi)
  rw [starts, List.length_append, List.length_singleton, Finset.range_add_one,
    Finset.filter_insert, hleft]
  split_ifs with hstart hnew hnew
  · refine Finset.card_insert_of_notMem fun hmem ↦ ?_
    exact Nat.lt_irrefl _ (mem_starts.mp hmem).lt_length
  · exact absurd (isStart_concat_length.mp hstart) hnew
  · exact absurd (isStart_concat_length.mpr hnew) hstart
  · rfl

end TestLinux.Segments
