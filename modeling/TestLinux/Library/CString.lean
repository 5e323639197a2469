import Mathlib.Data.Int.Notation
import Mathlib.Data.List.TakeWhile

/-!
# C strings in byte arrays

A C string is read from an array of bytes up to its first NUL. `cstring` is that string, and has no
result when the array holds no NUL; `strcmp` compares two arrays byte by byte and has no result when
it would read behind the end of one of them; `strncpy` copies at most `count` bytes and fills up
with NULs. `strcmp_eq_zero_iff` says that on arrays that hold a NUL `strcmp` stays inside and
decides equality of the strings; `cstring_append_eq_iff` says when an array whose front has been
overwritten shows the new bytes alone.
-/

set_option autoImplicit false
set_option relaxedAutoImplicit false

namespace TestLinux.CString

/-- The string in an array, up to its first NUL. -/
def cstring : List UInt8 → Option (List UInt8)
  | [] => none
  | byte :: rest => if byte = 0 then some [] else (cstring rest).map (byte :: ·)

/-- `strcmp` on two arrays. -/
def strcmp : List UInt8 → List UInt8 → Option ℤ
  | [], _ => none
  | _ :: _, [] => none
  | left :: lefts, right :: rights =>
    if left ≠ right then some (left.toNat - right.toNat)
    else if left = 0 then some 0
    else strcmp lefts rights

/-- The text up to its first NUL, the part of it that `c_str` shows. -/
def upToNul (text : List UInt8) : List UInt8 := text.takeWhile (· ≠ 0)

/-- The bytes that `strncpy` writes. -/
def strncpy (text : List UInt8) (count : ℕ) : List UInt8 :=
  (upToNul text).take count ++ List.replicate (count - ((upToNul text).take count).length) 0

theorem length_strncpy (text : List UInt8) (count : ℕ) : (strncpy text count).length = count := by
  rw [strncpy, List.length_append, List.length_replicate, List.length_take]
  omega

theorem ne_zero_of_mem_upToNul {text : List UInt8} {byte : UInt8} (hbyte : byte ∈ upToNul text) :
    byte ≠ 0 := by
  have hpasses := List.mem_takeWhile_imp hbyte
  exact of_decide_eq_true hpasses

theorem upToNul_eq_self_iff {text : List UInt8} : upToNul text = text ↔ 0 ∉ text := by
  constructor
  · intro hall hzero
    rw [← hall] at hzero
    exact ne_zero_of_mem_upToNul hzero rfl
  · intro htext
    unfold upToNul
    rw [List.takeWhile_eq_self_iff]
    intro byte hbyte
    exact decide_eq_true fun hzero ↦ htext (hzero ▸ hbyte)

/-- A text without NULs stands in front of the string behind it. -/
theorem cstring_append {text : List UInt8} (htext : ∀ byte ∈ text, byte ≠ 0)
    (rest : List UInt8) : cstring (text ++ rest) = (cstring rest).map (text ++ ·) := by
  induction text with
  | nil => exact Option.map_id'.symm
  | cons byte text ih =>
    have hbyte : byte ≠ 0 := htext byte List.mem_cons_self
    rw [List.cons_append, cstring, if_neg hbyte,
      ih fun other hother ↦ htext other (List.mem_cons_of_mem byte hother), Option.map_map]
    rfl

theorem cstring_append_zero {text : List UInt8} (htext : ∀ byte ∈ text, byte ≠ 0)
    (rest : List UInt8) : cstring (text ++ 0 :: rest) = some text := by
  rw [cstring_append htext, cstring, if_pos rfl, Option.map_some, List.append_nil]

/-- The empty string is a NUL at the front. -/
theorem cstring_eq_nil_iff {bytes : List UInt8} :
    cstring bytes = some [] ↔ bytes.head? = some 0 := by
  cases bytes with
  | nil => exact ⟨fun hnone ↦ absurd hnone (by simp [cstring]), fun hnone ↦ absurd hnone (by simp)⟩
  | cons byte rest =>
    rw [cstring, List.head?_cons, Option.some.injEq]
    split_ifs with hbyte
    · exact ⟨fun _ ↦ hbyte, fun _ ↦ rfl⟩
    · refine ⟨fun hmap ↦ ?_, fun heq ↦ absurd heq hbyte⟩
      obtain ⟨tail, -, htail⟩ := Option.map_eq_some_iff.mp hmap
      exact absurd htail (List.cons_ne_nil _ _)

/-- A copy with a NUL behind it holds the first `count` bytes of the string. -/
theorem cstring_strncpy (text : List UInt8) (count : ℕ) :
    cstring (strncpy text count ++ [0]) = some ((upToNul text).take count) := by
  have hzeros : List.replicate (count - ((upToNul text).take count).length) (0 : UInt8) ++ [0] =
      0 :: List.replicate (count - ((upToNul text).take count).length) 0 := by
    rw [← List.replicate_succ', List.replicate_succ]
  rw [strncpy, List.append_assoc, hzeros]
  exact cstring_append_zero
    (fun byte hbyte ↦ ne_zero_of_mem_upToNul (List.mem_of_mem_take hbyte)) _

/-- An array that holds a NUL holds the string in front of it. -/
theorem cstring_of_zero_mem {bytes : List UInt8} (hzero : 0 ∈ bytes) :
    cstring bytes = some (upToNul bytes) := by
  induction bytes with
  | nil => exact absurd hzero List.not_mem_nil
  | cons byte rest ih =>
    rw [cstring, upToNul]
    split_ifs with hbyte
    · rw [List.takeWhile_cons_of_neg (by simp [hbyte])]
    · have hrest : 0 ∈ rest := (List.mem_cons.mp hzero).resolve_left (Ne.symm hbyte)
      rw [ih hrest, List.takeWhile_cons_of_pos (by simp [hbyte]), Option.map_some, upToNul]

/-- What stands behind a NUL does not matter. -/
theorem cstring_append_of_zero_mem {bytes : List UInt8} (hzero : 0 ∈ bytes) (rest : List UInt8) :
    cstring (bytes ++ rest) = some (upToNul bytes) := by
  obtain ⟨front, back, rfl, hnot⟩ := List.eq_append_cons_of_mem hzero
  have hfront : ∀ byte ∈ front, byte ≠ 0 := by
    rintro byte hbyte rfl
    exact hnot hbyte
  have hstring := cstring_of_zero_mem hzero
  rw [cstring_append_zero hfront] at hstring
  rw [List.append_assoc, List.cons_append, cstring_append_zero hfront]
  exact hstring

/-- New bytes in front of old ones are shown alone exactly if they hold a NUL or the old ones start
with one. -/
theorem cstring_append_eq_iff (bytes rest : List UInt8) :
    cstring (bytes ++ rest) = some (upToNul bytes) ↔ 0 ∈ bytes ∨ rest.head? = some 0 := by
  by_cases hzero : 0 ∈ bytes
  · exact ⟨fun _ ↦ Or.inl hzero, fun _ ↦ cstring_append_of_zero_mem hzero rest⟩
  · have hbytes : ∀ byte ∈ bytes, byte ≠ 0 := by
      rintro byte hbyte rfl
      exact hzero hbyte
    rw [cstring_append hbytes, upToNul_eq_self_iff.mpr hzero, Option.map_eq_some_iff,
      ← cstring_eq_nil_iff]
    constructor
    · rintro ⟨tail, htail, happend⟩
      rw [List.append_right_eq_self.mp happend] at htail
      exact Or.inr htail
    · rintro (hmem | htail)
      · exact absurd hmem hzero
      · exact ⟨[], htail, List.append_nil bytes⟩

/-- Strings that start with different bytes differ. -/
theorem cstring_ne_of_ne {first second : UInt8} {lefts rights left right : List UInt8}
    (hne : first ≠ second) (hleft : cstring (first :: lefts) = some left)
    (hright : cstring (second :: rights) = some right) : left ≠ right := by
  rintro rfl
  rw [cstring] at hleft hright
  split_ifs at hleft hright with hfirst hsecond hsecond
  · exact hne (hfirst.trans hsecond.symm)
  · obtain rfl := Option.some.inj hleft
    simp at hright
  · obtain rfl := Option.some.inj hright
    simp at hleft
  · obtain ⟨left, -, rfl⟩ := Option.map_eq_some_iff.mp hleft
    obtain ⟨right, -, heq⟩ := Option.map_eq_some_iff.mp hright
    exact hne (List.cons.inj heq).1.symm

/-- On arrays that hold a NUL, `strcmp` returns zero exactly for equal strings. -/
theorem strcmp_eq_zero_iff {lefts rights left right : List UInt8}
    (hleft : cstring lefts = some left) (hright : cstring rights = some right) :
    ∃ order, strcmp lefts rights = some order ∧ (order = 0 ↔ left = right) := by
  induction lefts generalizing rights left right with
  | nil => exact absurd hleft (by simp [cstring])
  | cons first lefts ih =>
    cases rights with
    | nil => exact absurd hright (by simp [cstring])
    | cons second rights =>
      by_cases hsame : first = second
      · subst hsame
        rw [cstring] at hleft hright
        by_cases hzero : first = 0
        · rw [if_pos hzero] at hleft hright
          refine ⟨0, by simp [strcmp, hzero], fun _ ↦ ?_, fun _ ↦ rfl⟩
          exact Option.some.inj (hleft.symm.trans hright)
        · rw [if_neg hzero, Option.map_eq_some_iff] at hleft hright
          obtain ⟨leftTail, hleftTail, rfl⟩ := hleft
          obtain ⟨rightTail, hrightTail, rfl⟩ := hright
          obtain ⟨order, horder, hiff⟩ := ih hleftTail hrightTail
          exact ⟨order, by simp [strcmp, hzero, horder], by simp [hiff]⟩
      · have hbytes : (first.toNat : ℤ) ≠ second.toNat := fun heq ↦
          hsame (UInt8.toNat_inj.mp (Int.ofNat_inj.mp heq))
        refine ⟨first.toNat - second.toNat, by simp [strcmp, hsame], fun hzero ↦ ?_, fun heq ↦ ?_⟩
        · omega
        · exact absurd heq (cstring_ne_of_ne hsame hleft hright)

end TestLinux.CString
