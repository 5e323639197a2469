import Mathlib.Data.List.Basic

/-!
# Adjoining ranges

A list of ranges, each an offset and a length, adjoins from `start` to `stop` if the first one
begins at `start`, each of the others where the one before ends, and the last one ends at `stop`.
The parts of a list at such ranges are the list between the two ends, cut into pieces
(`flatten_slices`), and a list that is overwritten with them agrees with it there (`fill_slices`).
Whether all indices of a range are below a bound is decided by the last one (`forall_add_lt_iff`).
-/

set_option autoImplicit false
set_option relaxedAutoImplicit false

namespace TestLinux.Ranges

variable {α : Type*}

theorem forall_add_lt_iff {start count bound : ℕ} (hcount : 0 < count) :
    (∀ index < count, start + index < bound) ↔ start + count ≤ bound := by
  constructor
  · intro hall
    have hlast := hall (count - 1) (by omega)
    omega
  · intro hend index hindex
    omega

theorem forall_mem_range'_lt_iff {start count bound : ℕ} (hcount : 0 < count) :
    (∀ index ∈ List.range' start count, index < bound) ↔ start + count ≤ bound := by
  rw [List.range'_eq_map_range, List.forall_mem_map]
  simp only [List.mem_range]
  exact forall_add_lt_iff hcount

/-- The ranges follow each other without a gap from `start` to `stop`. -/
def Adjoining : List (ℕ × ℕ) → (start stop : ℕ) → Prop
  | [], start, stop => start = stop
  | range :: rest, start, stop => range.1 = start ∧ Adjoining rest (start + range.2) stop

/-- The part of a list at a range. -/
def slice (l : List α) (range : ℕ × ℕ) : List α := (l.drop range.1).take range.2

/-- Writes new elements over those from an offset on. -/
def overwrite (l : List α) (offset : ℕ) (new : List α) : List α :=
  l.take offset ++ new ++ l.drop (offset + new.length)

/-- Writes over all of the ranges, one after the other. -/
def fill (source : ℕ × ℕ → List α) (l : List α) (ranges : List (ℕ × ℕ)) : List α :=
  ranges.foldl (fun l range ↦ overwrite l range.1 (source range)) l

theorem Adjoining.le {ranges : List (ℕ × ℕ)} {start stop : ℕ}
    (hranges : Adjoining ranges start stop) : start ≤ stop := by
  induction ranges generalizing start with
  | nil => exact Nat.le_of_eq hranges
  | cons range rest ih => exact Nat.le_trans (Nat.le_add_right _ _) (ih hranges.2)

theorem Adjoining.range_le {ranges : List (ℕ × ℕ)} {start stop : ℕ}
    (hranges : Adjoining ranges start stop) : ∀ range ∈ ranges, range.1 + range.2 ≤ stop := by
  induction ranges generalizing start with
  | nil => exact fun _ hmem ↦ absurd hmem List.not_mem_nil
  | cons first rest ih =>
    obtain ⟨rfl, hrest⟩ := hranges
    rw [List.forall_mem_cons]
    exact ⟨hrest.le, ih hrest⟩

/-- The parts at adjoining ranges are together what lies between the ends. -/
theorem flatten_slices {ranges : List (ℕ × ℕ)} {start stop : ℕ}
    (hranges : Adjoining ranges start stop) (l : List α) :
    (ranges.map (slice l)).flatten = (l.drop start).take (stop - start) := by
  induction ranges generalizing start with
  | nil =>
    obtain rfl : start = stop := hranges
    rw [Nat.sub_self, List.take_zero]
    rfl
  | cons range rest ih =>
    obtain ⟨rfl, hrest⟩ := hranges
    have hsplit : stop - range.1 = range.2 + (stop - (range.1 + range.2)) := by
      have hle := hrest.le
      omega
    rw [List.map_cons, List.flatten_cons, ih hrest, hsplit, List.take_add, List.drop_drop]
    rfl

theorem length_slice {l : List α} {range : ℕ × ℕ} (hrange : range.1 + range.2 ≤ l.length) :
    (slice l range).length = range.2 := by
  rw [slice, List.length_take, List.length_drop]
  omega

theorem length_overwrite {l new : List α} {offset : ℕ} (hnew : offset + new.length ≤ l.length) :
    (overwrite l offset new).length = l.length := by
  rw [overwrite, List.length_append, List.length_append, List.length_take, List.length_drop]
  omega

/-- Overwriting with the part that comes next extends the agreement of two lists. -/
theorem take_overwrite_slice {l source : List α} {range : ℕ × ℕ}
    (hagree : l.take range.1 = source.take range.1)
    (hrange : range.1 + range.2 ≤ source.length) :
    (overwrite l range.1 (slice source range)).take (range.1 + range.2) =
      source.take (range.1 + range.2) := by
  have hlength : (source.take range.1 ++ slice source range).length = range.1 + range.2 := by
    rw [List.length_append, length_slice hrange, List.length_take]
    omega
  rw [overwrite, hagree, List.take_left' hlength, List.take_add]
  rfl

/-- A list that is overwritten at adjoining ranges agrees with the source up to their end. -/
theorem fill_slices {ranges : List (ℕ × ℕ)} {start stop : ℕ}
    (hranges : Adjoining ranges start stop) {l source : List α} (hlength : l.length = source.length)
    (hstop : stop ≤ source.length) (hagree : l.take start = source.take start) :
    (fill (slice source) l ranges).take stop = source.take stop ∧
      (fill (slice source) l ranges).length = source.length := by
  induction ranges generalizing start l with
  | nil =>
    obtain rfl : start = stop := hranges
    exact ⟨hagree, hlength⟩
  | cons range rest ih =>
    obtain ⟨rfl, hrest⟩ := hranges
    have hrange : range.1 + range.2 ≤ source.length := Nat.le_trans hrest.le hstop
    refine ih hrest ?_ (take_overwrite_slice hagree hrange)
    rw [length_overwrite, hlength]
    rw [length_slice hrange, hlength]
    exact hrange

end TestLinux.Ranges
