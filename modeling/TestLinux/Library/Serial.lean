import Mathlib.Data.List.Perm.Subperm
import Mathlib.Data.Int.Order.Basic

/-!
# Serial numbers

32-bit numbers that are compared on a circle. `diff later earlier` is the signed distance from
`earlier` to `later`, and `offset base number` how far `number` is ahead of `base`. Seen from a
base, numbers less than half of the circle ahead of it are in the order of their offsets
(`diff_eq_sub`), and moving the base past some of them shifts the offsets of the others
(`offset_advance`). Numbers that have not wrapped around are in their usual order (`diff_of_toNat`).

`Ascending base limit numbers` is the order of a sliding window: the offsets increase strictly and
stay below the limit.
-/

set_option autoImplicit false
set_option relaxedAutoImplicit false

namespace TestLinux.Serial

/-- The signed distance from one serial number to another. -/
def diff (later earlier : UInt32) : ℤ := (later - earlier).toInt32.toInt

/-- How far a serial number is ahead of a base. -/
def offset (base number : UInt32) : ℕ := (number - base).toNat

theorem toNat_ofNat_of_lt {count : ℕ} (hcount : count < 4294967296) :
    (UInt32.ofNat count).toNat = count := UInt32.toNat_ofNat_of_lt' hcount

theorem offset_lt (base number : UInt32) : offset base number < 4294967296 :=
  (number - base).toNat_lt

theorem offset_eq_ite (base number : UInt32) :
    offset base number =
      if base.toNat ≤ number.toNat then number.toNat - base.toNat
      else number.toNat + 4294967296 - base.toNat := by
  have hbase := base.toNat_lt
  have hnumber := number.toNat_lt
  rw [offset, UInt32.toNat_sub]
  split_ifs <;> omega

theorem diff_eq_ite (later earlier : UInt32) :
    diff later earlier =
      if offset earlier later < 2147483648 then (offset earlier later : ℤ)
      else offset earlier later - 4294967296 := by
  have hoffset := offset_lt earlier later
  change (later - earlier).toBitVec.toInt = _
  rw [BitVec.toInt_eq_toNat_cond, UInt32.toNat_toBitVec, ← offset]
  split_ifs <;> omega

@[simp] theorem offset_self (base : UInt32) : offset base base = 0 := by
  simp [offset_eq_ite]

theorem offset_inj {base first second : UInt32} (hoffset : offset base first = offset base second) :
    first = second := by
  have hsub : first - base = second - base := UInt32.toNat_inj.mp hoffset
  have hadd := congrArg (· + base) hsub
  simpa only [UInt32.sub_add_cancel] using hadd

/-- Less than half of the circle ahead of a base, serial numbers are ordered by their offsets. -/
theorem diff_eq_sub {base later earlier : UInt32} (hlater : offset base later < 2147483648)
    (hearlier : offset base earlier < 2147483648) :
    diff later earlier = offset base later - offset base earlier := by
  have hbase := base.toNat_lt
  have hl := later.toNat_lt
  have he := earlier.toNat_lt
  rw [diff_eq_ite]
  simp only [offset_eq_ite] at hlater hearlier ⊢
  split_ifs at * <;> omega

/-- Serial numbers that have not wrapped around are in their usual order. -/
theorem diff_of_toNat {later earlier : UInt32} (hlower : earlier.toNat ≤ later.toNat + 2147483648)
    (hupper : later.toNat < earlier.toNat + 2147483648) :
    diff later earlier = later.toNat - earlier.toNat := by
  have hl := later.toNat_lt
  have he := earlier.toNat_lt
  rw [diff_eq_ite]
  simp only [offset_eq_ite]
  split_ifs <;> omega

theorem diff_nonneg_iff {later earlier : UInt32} :
    0 ≤ diff later earlier ↔ offset earlier later < 2147483648 := by
  have hoffset := offset_lt earlier later
  rw [diff_eq_ite]
  split_ifs <;> omega

/-- A number that is not reached yet is as far ahead as the difference says. -/
theorem offset_of_diff_neg {later earlier : UInt32} {limit : ℕ} (hlimit : limit < 2147483648)
    (hneg : diff earlier later < 0) (hlow : -(limit : ℤ) ≤ diff earlier later) :
    offset earlier later ≤ limit ∧ diff later earlier = offset earlier later := by
  have hl := later.toNat_lt
  have he := earlier.toNat_lt
  simp only [diff_eq_ite, offset_eq_ite] at hneg hlow ⊢
  split_ifs at * <;> omega

/-- Offsets add up until they wrap around. -/
theorem offset_trans {base middle number : UInt32}
    (hlt : offset base middle + offset middle number < 4294967296) :
    offset base number = offset base middle + offset middle number := by
  have hbase := base.toNat_lt
  have hmiddle := middle.toNat_lt
  have hnumber := number.toNat_lt
  simp only [offset_eq_ite] at hlt ⊢
  split_ifs at * <;> omega

/-- Moving the base past numbers that are not counted shifts the offsets of the others. -/
theorem offset_advance {base step number : UInt32} (hstep : step.toNat ≤ offset base number) :
    offset (base + step) number = offset base number - step.toNat := by
  have hbase := base.toNat_lt
  have hnumber := number.toNat_lt
  have hsteplt := step.toNat_lt
  simp only [offset_eq_ite, UInt32.toNat_add] at hstep ⊢
  split_ifs at * <;> omega

theorem offset_add {base step : UInt32} : offset base (base + step) = step.toNat := by
  have hstep := step.toNat_lt
  have hbase := base.toNat_lt
  simp only [offset_eq_ite, UInt32.toNat_add]
  split_ifs <;> omega

/-- A number is behind the end of a window that begins further on. -/
theorem diff_add_neg {number base step : UInt32} (hpos : 0 < offset number base + step.toNat)
    (hlt : offset number base + step.toNat < 2147483648) : diff number (base + step) < 0 := by
  have hoffset : offset number (base + step) = offset number base + step.toNat := by
    have htrans := @offset_trans number base (base + step)
    rw [offset_add] at htrans
    exact htrans (by omega)
  rw [@diff_eq_sub number _ _ (by rw [offset_self]; decide) (by rwa [hoffset]), offset_self,
    hoffset]
  omega

/-- The serial numbers from a base on. -/
def consecutive (base : UInt32) : ℕ → List UInt32
  | 0 => []
  | count + 1 => base :: consecutive (base + 1) count

theorem add_ofNat_succ (base : UInt32) (count : ℕ) :
    base + 1 + UInt32.ofNat count = base + UInt32.ofNat (count + 1) := by
  rw [UInt32.ofNat_add, UInt32.add_assoc, UInt32.add_comm (UInt32.ofNat count)]
  rfl

theorem sub_ofNat_succ (base : UInt32) (count : ℕ) :
    base - 1 - UInt32.ofNat count = base - UInt32.ofNat (count + 1) := by
  rw [UInt32.ofNat_add, UInt32.add_comm]
  grind

theorem consecutive_append (base : UInt32) (first second : ℕ) :
    consecutive base (first + second) =
      consecutive base first ++ consecutive (base + UInt32.ofNat first) second := by
  induction first generalizing base with
  | zero => simp [consecutive]
  | succ first ih =>
    rw [Nat.succ_add, consecutive, consecutive, ih, add_ofNat_succ, List.cons_append]

@[simp] theorem length_consecutive (base : UInt32) (count : ℕ) :
    (consecutive base count).length = count := by
  induction count generalizing base with
  | zero => rfl
  | succ count ih => rw [consecutive, List.length_cons, ih]

theorem getElem?_consecutive (base : UInt32) {count k : ℕ} (hk : k < count) :
    (consecutive base count)[k]? = some (base + UInt32.ofNat k) := by
  induction count generalizing base k with
  | zero => exact absurd hk (Nat.not_lt_zero k)
  | succ count ih =>
    cases k with
    | zero => simp [consecutive]
    | succ k =>
      rw [consecutive, List.getElem?_cons_succ, ih (base + 1) (Nat.lt_of_succ_lt_succ hk),
        add_ofNat_succ]

theorem mem_consecutive {base number : UInt32} {count : ℕ} :
    number ∈ consecutive base count ↔ ∃ k < count, number = base + UInt32.ofNat k := by
  induction count generalizing base with
  | zero => simp [consecutive]
  | succ count ih =>
    rw [consecutive, List.mem_cons, ih]
    constructor
    · rintro (rfl | ⟨k, hk, rfl⟩)
      · exact ⟨0, Nat.succ_pos count, by simp⟩
      · exact ⟨k + 1, Nat.succ_lt_succ hk, add_ofNat_succ base k⟩
    · rintro ⟨k, hk, rfl⟩
      cases k with
      | zero => exact Or.inl (by simp)
      | succ k =>
        exact Or.inr ⟨k, Nat.lt_of_succ_lt_succ hk, (add_ofNat_succ base k).symm⟩

/-! ### Windows -/

/-- Serial numbers in a window: their offsets increase and stay below the limit. -/
structure Ascending (base : UInt32) (limit : ℕ) (numbers : List UInt32) : Prop where
  increasing : numbers.Pairwise fun first second ↦ offset base first < offset base second
  below : ∀ number ∈ numbers, offset base number < limit

theorem ascending_nil (base : UInt32) (limit : ℕ) : Ascending base limit [] :=
  ⟨List.Pairwise.nil, by simp⟩

theorem Ascending.sublist {base : UInt32} {limit : ℕ} {numbers rest : List UInt32}
    (hascending : Ascending base limit numbers) (hrest : rest.Sublist numbers) :
    Ascending base limit rest :=
  ⟨hascending.increasing.sublist hrest,
    fun number hnumber ↦ hascending.below number (hrest.subset hnumber)⟩

theorem Ascending.mono {base : UInt32} {limit limit' : ℕ} {numbers : List UInt32}
    (hascending : Ascending base limit numbers) (hlimit : limit ≤ limit') :
    Ascending base limit' numbers :=
  ⟨hascending.increasing, fun number hnumber ↦
    Nat.lt_of_lt_of_le (hascending.below number hnumber) hlimit⟩

/-- The base of a window can only be the first of its numbers. -/
theorem Ascending.head_of_mem {base : UInt32} {limit : ℕ} {numbers : List UInt32}
    (hascending : Ascending base limit numbers) (hmem : base ∈ numbers) :
    numbers.head? = some base := by
  cases numbers with
  | nil => cases hmem
  | cons first rest =>
    rcases List.mem_cons.mp hmem with rfl | hrest
    · rfl
    · have hlt := List.rel_of_pairwise_cons hascending.increasing hrest
      rw [offset_self] at hlt
      exact absurd hlt (Nat.not_lt_zero _)

/-- A window has room for as many numbers as its limit says. -/
theorem Ascending.length_le {base : UInt32} {limit : ℕ} {numbers : List UInt32}
    (hascending : Ascending base limit numbers) : numbers.length ≤ limit := by
  have hnodup : (numbers.map (offset base)).Nodup := by
    rw [List.Nodup, List.pairwise_map]
    exact hascending.increasing.imp fun hlt ↦ Nat.ne_of_lt hlt
  have hsubset : numbers.map (offset base) ⊆ List.range limit := by
    intro position hposition
    obtain ⟨number, hnumber, rfl⟩ := List.mem_map.mp hposition
    exact List.mem_range.mpr (hascending.below number hnumber)
  simpa using (hnodup.subperm hsubset).length_le

theorem Ascending.insert {base number : UInt32} {limit : ℕ} {before after : List UInt32}
    (hascending : Ascending base limit (before ++ after))
    (hbefore : ∀ other ∈ before, offset base other < offset base number)
    (hafter : ∀ other ∈ after, offset base number < offset base other)
    (hlimit : offset base number < limit) : Ascending base limit (before ++ number :: after) := by
  obtain ⟨hincreasing, hbelow⟩ := hascending
  rw [List.pairwise_append] at hincreasing
  constructor
  · refine List.pairwise_append.mpr ⟨hincreasing.1, List.pairwise_cons.mpr
      ⟨hafter, hincreasing.2.1⟩, ?_⟩
    intro first hfirst second hsecond
    rcases List.mem_cons.mp hsecond with rfl | hsecond
    · exact hbefore first hfirst
    · exact hincreasing.2.2 first hfirst second hsecond
  · intro other hother
    rcases List.mem_append.mp hother with hother | hother
    · exact hbelow other (List.mem_append_left _ hother)
    · rcases List.mem_cons.mp hother with rfl | hother
      · exact hlimit
      · exact hbelow other (List.mem_append_right _ hother)

/-- Numbers behind the consecutive ones at the front of a window are further ahead. -/
theorem Ascending.le_offset {base : UInt32} {limit count : ℕ} {rest : List UInt32}
    (hascending : Ascending base limit (consecutive base count ++ rest))
    (hcount : count < 4294967296) {number : UInt32} (hnumber : number ∈ rest) :
    count ≤ offset base number := by
  cases count with
  | zero => exact Nat.zero_le _
  | succ count =>
    have hlast : base + UInt32.ofNat count ∈ consecutive base (count + 1) :=
      mem_consecutive.mpr ⟨count, Nat.lt_succ_self count, rfl⟩
    have hlt := (List.pairwise_append.mp hascending.increasing).2.2 _ hlast _ hnumber
    rw [offset_add, toNat_ofNat_of_lt (Nat.lt_of_succ_lt hcount)] at hlt
    exact hlt

/-- The window moves past the consecutive numbers at its front. -/
theorem Ascending.advance {base : UInt32} {limit count : ℕ} {rest : List UInt32}
    (hascending : Ascending base limit (consecutive base count ++ rest))
    (hcount : count < 4294967296) :
    Ascending (base + UInt32.ofNat count) (limit - count) rest := by
  have hoffset : ∀ number ∈ rest,
      offset (base + UInt32.ofNat count) number = offset base number - count := by
    intro number hnumber
    have hle := hascending.le_offset hcount hnumber
    rw [offset_advance (by rwa [toNat_ofNat_of_lt hcount]), toNat_ofNat_of_lt hcount]
  obtain ⟨-, hincreasing, -⟩ := List.pairwise_append.mp hascending.increasing
  constructor
  · refine hincreasing.imp_of_mem ?_
    intro first second hfirst hsecond hlt
    rw [hoffset first hfirst, hoffset second hsecond]
    have hle := hascending.le_offset hcount hfirst
    omega
  · intro number hnumber
    rw [hoffset number hnumber]
    have hle := hascending.le_offset hcount hnumber
    have hlt := hascending.below number (List.mem_append_right _ hnumber)
    omega

/-- The offsets from a number that is itself ahead of the base. -/
theorem offset_sub {base first number : UInt32} (hle : offset base first ≤ offset base number) :
    offset first number = offset base number - offset base first := by
  have hfirst : base + (first - base) = first := by
    rw [UInt32.add_comm, UInt32.sub_add_cancel]
  have hadvance := @offset_advance base (first - base) number hle
  rwa [hfirst] at hadvance

theorem offset_add_right {base number : UInt32} {count : ℕ}
    (hcount : offset base number + count < 4294967296) :
    offset base (number + UInt32.ofNat count) = offset base number + count := by
  have hstep : (UInt32.ofNat count).toNat = count := toNat_ofNat_of_lt (by omega)
  have hbase := base.toNat_lt
  have hnumber := number.toNat_lt
  simp only [offset_eq_ite, UInt32.toNat_add, hstep] at hcount ⊢
  split_ifs at * <;> omega

/-- The window moves up to its first number, or to its end if there is none. -/
theorem Ascending.rebase {base next : UInt32} {numbers : List UInt32}
    (hascending : Ascending base (offset base next) numbers) :
    Ascending (numbers.headD next) (offset (numbers.headD next) next) numbers ∧
      offset (numbers.headD next) next ≤ offset base next := by
  cases numbers with
  | nil =>
    rw [List.headD_nil, offset_self]
    exact ⟨ascending_nil next 0, Nat.zero_le _⟩
  | cons first rest =>
    rw [List.headD_cons]
    obtain ⟨hincreasing, hbelow⟩ := hascending
    have hle : ∀ number ∈ first :: rest, offset base first ≤ offset base number := by
      intro number hnumber
      rcases List.mem_cons.mp hnumber with rfl | hnumber
      · exact Nat.le_refl _
      · exact Nat.le_of_lt ((List.pairwise_cons.mp hincreasing).1 number hnumber)
    have hnext := hbelow first List.mem_cons_self
    rw [offset_sub (Nat.le_of_lt hnext)]
    refine ⟨⟨hincreasing.imp_of_mem ?_, ?_⟩, Nat.sub_le _ _⟩
    · intro one other hone hother hlt
      rw [offset_sub (hle one hone), offset_sub (hle other hother)]
      have hfirst := hle one hone
      omega
    · intro number hnumber
      rw [offset_sub (hle number hnumber)]
      have hfirst := hle number hnumber
      have hlast := hbelow number hnumber
      omega

/-- New numbers at the end of the window. -/
theorem Ascending.append {base next : UInt32} {numbers : List UInt32} {count : ℕ}
    (hascending : Ascending base (offset base next) numbers)
    (hcount : offset base next + count < 4294967296) :
    Ascending base (offset base next + count) (numbers ++ consecutive next count) := by
  induction count with
  | zero => simpa [consecutive] using hascending
  | succ count ih =>
    have hih := ih (by omega)
    rw [consecutive_append, ← List.append_assoc]
    have hoffset := @offset_add_right base next count (by omega)
    change Ascending base (offset base next + count + 1)
      (numbers ++ consecutive next count ++ [next + UInt32.ofNat count])
    refine Ascending.insert (by simpa using hih.mono (Nat.le_succ _)) ?_ (by simp) (by omega)
    intro other hother
    rw [hoffset]
    exact hih.below other hother

end TestLinux.Serial
