import Mathlib.Data.List.Basic
import Mathlib.Logic.Function.Basic

/-!
# Handles and their holders

A system acquires handles, keeps each of them with one of its owners and gives it back when that
owner is done. `Tally holding handles` says that the books are right: the list `handles` of those
acquired and not given back has exactly the handles that some owner holds, once each, and no handle
has two holders.

`Tally.acquire` and `Tally.release` are the two entries that keep the books right, and
`not_tally_update` the entry that does not: an owner lets go of a handle that stays in the list.
-/

set_option autoImplicit false
set_option relaxedAutoImplicit false

namespace TestLinux.Holdings

variable {Owner Handle : Type*}

/-- The handles of the list are those that the owners hold, each held once. -/
structure Tally (holding : Owner → Option Handle) (handles : List Handle) : Prop where
  mem_iff : ∀ handle, handle ∈ handles ↔ ∃ owner, holding owner = some handle
  unique : ∀ handle owner other, holding owner = some handle → holding other = some handle →
    owner = other
  nodup : handles.Nodup

theorem tally_nil : Tally (fun _ : Owner ↦ (none : Option Handle)) [] where
  mem_iff := fun handle ↦ by simp
  unique := fun handle owner other howner ↦ by simp at howner
  nodup := List.nodup_nil

section Update

variable [DecidableEq Owner] {holding : Owner → Option Handle} {handles : List Handle}
  {owner : Owner} {handle : Handle}

theorem update_eq_some_of_ne {value : Option Handle} {other : Owner}
    (hupdate : Function.update holding owner value other = some handle)
    (hvalue : value ≠ some handle) : other ≠ owner ∧ holding other = some handle := by
  have hne : other ≠ owner := by
    rintro rfl
    rw [Function.update_self] at hupdate
    exact hvalue hupdate
  rw [Function.update_of_ne hne] at hupdate
  exact ⟨hne, hupdate⟩

/-- An owner without a handle gets a new one. -/
theorem Tally.acquire (htally : Tally holding handles) (howner : holding owner = none)
    (hnew : handle ∉ handles) :
    Tally (Function.update holding owner (some handle)) (handle :: handles) where
  mem_iff := fun seen ↦ by
    rw [List.mem_cons, htally.mem_iff]
    constructor
    · rintro (rfl | ⟨other, hother⟩)
      · exact ⟨owner, Function.update_self _ _ _⟩
      · have hne : other ≠ owner := by
          rintro rfl
          rw [howner] at hother
          exact absurd hother.symm (Option.some_ne_none _)
        exact ⟨other, by rw [Function.update_of_ne hne, hother]⟩
    · rintro ⟨other, hother⟩
      by_cases hseen : seen = handle
      · exact Or.inl hseen
      · exact Or.inr ⟨other, (update_eq_some_of_ne hother fun heq ↦
          hseen (Option.some.inj heq).symm).2⟩
  unique := fun seen first second hfirst hsecond ↦ by
    by_cases hseen : seen = handle
    · subst hseen
      have honly : ∀ other, Function.update holding owner (some seen) other = some seen →
          other = owner := by
        intro other hother
        by_contra hne
        rw [Function.update_of_ne hne] at hother
        exact hnew ((htally.mem_iff seen).mpr ⟨other, hother⟩)
      rw [honly first hfirst, honly second hsecond]
    · have hvalue : some handle ≠ some seen := fun heq ↦ hseen (Option.some.inj heq).symm
      exact htally.unique seen first second (update_eq_some_of_ne hfirst hvalue).2
        (update_eq_some_of_ne hsecond hvalue).2
  nodup := List.nodup_cons.mpr ⟨hnew, htally.nodup⟩

/-- An owner gives its handle back. -/
theorem Tally.release [DecidableEq Handle] (htally : Tally holding handles)
    (howner : holding owner = some handle) :
    Tally (Function.update holding owner none) (handles.erase handle) where
  mem_iff := fun seen ↦ by
    rw [htally.nodup.mem_erase_iff, htally.mem_iff]
    constructor
    · rintro ⟨hne, other, hother⟩
      have hneOwner : other ≠ owner := by
        rintro rfl
        exact hne (Option.some.inj (hother.symm.trans howner))
      exact ⟨other, by rw [Function.update_of_ne hneOwner, hother]⟩
    · rintro ⟨other, hother⟩
      obtain ⟨hne, hheld⟩ := update_eq_some_of_ne hother (Option.some_ne_none seen).symm
      refine ⟨?_, other, hheld⟩
      rintro rfl
      exact hne (htally.unique seen other owner hheld howner)
  unique := fun seen first second hfirst hsecond ↦
    htally.unique seen first second
      (update_eq_some_of_ne hfirst (Option.some_ne_none seen).symm).2
      (update_eq_some_of_ne hsecond (Option.some_ne_none seen).symm).2
  nodup := htally.nodup.erase handle

/-- The books are wrong when a handle is left in the list that nobody holds. -/
theorem not_tally_update {value : Option Handle} {left : List Handle}
    (hothers : ∀ other, other ≠ owner → holding other ≠ some handle)
    (hvalue : value ≠ some handle) (hleft : handle ∈ left) :
    ¬ Tally (Function.update holding owner value) left := by
  intro htally
  obtain ⟨other, hother⟩ := (htally.mem_iff handle).mp hleft
  obtain ⟨hne, hheld⟩ := update_eq_some_of_ne hother hvalue
  exact hothers other hne hheld

end Update

end TestLinux.Holdings
