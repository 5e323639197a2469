import Mathlib.Algebra.Group.Int.Defs
import Mathlib.Algebra.Group.Nat.Defs
import Mathlib.Data.Int.Order.Basic
import Mathlib.Data.List.Basic

/-!
# Machine words, network byte order and length-prefixed labels

`toInt32` is the narrowing of an integer to a 32-bit `int`.

The byte formats of DNS messages follow, independent of any program that writes them: words with the
high byte first, and sequences of labels, each preceded by one byte with its length and the whole
sequence ended by a zero byte. Reading what was written gives it back, with whatever follows left
over (`readU16_bigEndian16`, `readLabels_writeLabels`), also for a reader that keeps a position in
the message (`wordAt_append`); a label that can be read has at most 255 bytes
(`length_lt_of_readLabels`). Written labels take one byte more than the same labels joined by a
separator (`length_writeLabels`).
-/

set_option autoImplicit false
set_option relaxedAutoImplicit false

namespace TestLinux.Wire

/-- The conversion to a 32-bit `int`. -/
def toInt32 (value : ℤ) : ℤ := value.bmod (2 ^ 32)

theorem toInt32_of_lt {value : ℤ} (hlower : -2 ^ 31 ≤ value) (hupper : value < 2 ^ 31) :
    toInt32 value = value :=
  Int.bmod_eq_of_le (by omega) (by omega)

/-- The conversion in terms that `omega` knows. -/
theorem toInt32_eq_ite (value : ℤ) :
    toInt32 value = if value % 4294967296 < 2147483648 then value % 4294967296
      else value % 4294967296 - 4294967296 := rfl

/-- A 16-bit word in network byte order. -/
def bigEndian16 (word : UInt16) : List UInt8 :=
  [UInt8.ofNat (word.toNat / 256), UInt8.ofNat (word.toNat % 256)]

/-- Reads a 16-bit word in network byte order. -/
def readU16 : List UInt8 → Option (UInt16 × List UInt8)
  | high :: low :: rest => some (UInt16.ofNat (high.toNat * 256 + low.toNat), rest)
  | _ => none

@[simp] theorem length_bigEndian16 (word : UInt16) : (bigEndian16 word).length = 2 := rfl

theorem readU16_bigEndian16 (word : UInt16) (rest : List UInt8) :
    readU16 (bigEndian16 word ++ rest) = some (word, rest) := by
  have hword := word.toNat_lt
  have hhigh : (UInt8.ofNat (word.toNat / 256)).toNat = word.toNat / 256 := by
    rw [UInt8.toNat_ofNat']
    exact Nat.mod_eq_of_lt (by omega)
  have hlow : (UInt8.ofNat (word.toNat % 256)).toNat = word.toNat % 256 := by
    rw [UInt8.toNat_ofNat']
    exact Nat.mod_eq_of_lt (by omega)
  have hsum : word.toNat / 256 * 256 + word.toNat % 256 = word.toNat := Nat.div_add_mod' _ _
  change some (UInt16.ofNat ((UInt8.ofNat (word.toNat / 256)).toNat * 256 +
    (UInt8.ofNat (word.toNat % 256)).toNat), rest) = some (word, rest)
  rw [hhigh, hlow, hsum, UInt16.ofNat_toNat]

/-- The 16-bit word at a position of a message. Behind its end there are zeros. -/
def wordAt (bytes : List UInt8) (pos : ℕ) : ℕ :=
  (bytes.getD pos 0).toNat * 256 + (bytes.getD (pos + 1) 0).toNat

theorem wordAt_append {front : List UInt8} {pos : ℕ} (hpos : front.length = pos) (word : UInt16)
    (rest : List UInt8) : wordAt (front ++ (bigEndian16 word ++ rest)) pos = word.toNat := by
  subst hpos
  have hword := word.toNat_lt
  have hhigh : (front ++ (bigEndian16 word ++ rest)).getD front.length 0 =
      UInt8.ofNat (word.toNat / 256) := by
    simp [bigEndian16]
  have hlow : (front ++ (bigEndian16 word ++ rest)).getD (front.length + 1) 0 =
      UInt8.ofNat (word.toNat % 256) := by
    simp [bigEndian16, List.getD_eq_getElem?_getD]
  rw [wordAt, hhigh, hlow, UInt8.toNat_ofNat', UInt8.toNat_ofNat']
  omega

theorem wordAt_drop (bytes : List UInt8) (start pos : ℕ) :
    wordAt (bytes.drop start) pos = wordAt bytes (start + pos) := by
  rw [wordAt, wordAt, List.getD_eq_getElem?_getD, List.getD_eq_getElem?_getD, List.getElem?_drop,
    List.getElem?_drop, List.getD_eq_getElem?_getD, List.getD_eq_getElem?_getD, Nat.add_assoc]

/-- A 32-bit word in network byte order. -/
def bigEndian32 (word : UInt32) : List UInt8 :=
  [UInt8.ofNat (word.toNat / 16777216), UInt8.ofNat (word.toNat / 65536 % 256),
    UInt8.ofNat (word.toNat / 256 % 256), UInt8.ofNat (word.toNat % 256)]

@[simp] theorem length_bigEndian32 (word : UInt32) : (bigEndian32 word).length = 4 := rfl

/-- Labels, each preceded by its length. -/
def writeLabels (labels : List (List UInt8)) : List UInt8 :=
  labels.flatMap fun label ↦ UInt8.ofNat label.length :: label

@[simp] theorem writeLabels_nil : writeLabels [] = [] := rfl

@[simp] theorem writeLabels_cons (label : List UInt8) (labels : List (List UInt8)) :
    writeLabels (label :: labels) = UInt8.ofNat label.length :: (label ++ writeLabels labels) := rfl

/-- With its length in front of it a label takes as much room as with a separator behind it. -/
theorem length_writeLabels {labels : List (List UInt8)} (hlabels : labels ≠ [])
    (separator : UInt8) :
    (writeLabels labels).length = ([separator].intercalate labels).length + 1 := by
  induction labels with
  | nil => exact absurd rfl hlabels
  | cons label rest ih =>
    cases rest with
    | nil =>
      rw [List.intercalate_singleton, writeLabels_cons, writeLabels_nil, List.append_nil,
        List.length_cons]
    | cons next others =>
      have htail := ih (List.cons_ne_nil _ _)
      rw [List.intercalate_cons_cons, writeLabels_cons, List.length_cons, List.length_append, htail,
        List.length_append, List.length_append, List.length_singleton]
      omega

theorem length_lt_writeLabels {labels : List (List UInt8)} {label : List UInt8}
    (hlabel : label ∈ labels) : label.length < (writeLabels labels).length := by
  induction labels with
  | nil => exact absurd hlabel List.not_mem_nil
  | cons first rest ih =>
    rw [writeLabels_cons, List.length_cons, List.length_append]
    rcases List.mem_cons.mp hlabel with rfl | hrest
    · omega
    · have hlength := ih hrest
      omega

/-- Reads labels up to the zero byte. -/
def readLabels : List UInt8 → Option (List (List UInt8) × List UInt8)
  | [] => none
  | count :: rest =>
    if count = 0 then some ([], rest)
    else if rest.length < count.toNat then none
    else
      (readLabels (rest.drop count.toNat)).map fun (labels, tail) ↦
        (rest.take count.toNat :: labels, tail)
termination_by bytes => bytes.length
decreasing_by
  rw [List.length_drop, List.length_cons]
  omega

/-- A label that one length byte can announce. -/
def Announceable (label : List UInt8) : Prop := 1 ≤ label.length ∧ label.length < 256

theorem toNat_length_byte {label : List UInt8} (hlabel : Announceable label) :
    (UInt8.ofNat label.length).toNat = label.length := by
  rw [UInt8.toNat_ofNat']
  exact Nat.mod_eq_of_lt hlabel.2

theorem length_byte_ne_zero {label : List UInt8} (hlabel : Announceable label) :
    UInt8.ofNat label.length ≠ 0 := by
  intro hzero
  have hlength := toNat_length_byte hlabel
  rw [hzero] at hlength
  have hpositive := hlabel.1
  rw [← hlength] at hpositive
  exact absurd hpositive (by decide)

theorem readLabels_writeLabels {labels : List (List UInt8)}
    (hlabels : ∀ label ∈ labels, Announceable label) (rest : List UInt8) :
    readLabels (writeLabels labels ++ 0 :: rest) = some (labels, rest) := by
  induction labels with
  | nil => simp [readLabels]
  | cons label labels ih =>
    have hlabel := hlabels label List.mem_cons_self
    have htail := ih fun other hother ↦ hlabels other (List.mem_cons_of_mem label hother)
    rw [writeLabels_cons, List.cons_append, readLabels, if_neg (length_byte_ne_zero hlabel),
      toNat_length_byte hlabel, List.append_assoc, if_neg (by simp), List.drop_left, htail,
      List.take_left]
    rfl

theorem length_lt_of_readLabels {bytes rest : List UInt8} {labels : List (List UInt8)}
    (hread : readLabels bytes = some (labels, rest)) : ∀ label ∈ labels, label.length < 256 := by
  induction bytes using readLabels.induct generalizing labels with
  | case1 => simp [readLabels] at hread
  | case2 tail =>
    simp only [readLabels, ↓reduceIte, Option.some.injEq, Prod.mk.injEq] at hread
    rw [← hread.1]
    exact fun label hlabel ↦ absurd hlabel List.not_mem_nil
  | case3 count tail hcount hshort => simp [readLabels, hcount, hshort] at hread
  | case4 count tail hcount hlong ih =>
    rw [readLabels, if_neg hcount, if_neg hlong, Option.map_eq_some_iff] at hread
    obtain ⟨⟨others, left⟩, hothers, heq⟩ := hread
    obtain ⟨rfl, rfl⟩ := Prod.mk.inj heq
    intro label hlabel
    rcases List.mem_cons.mp hlabel with rfl | hother
    · exact Nat.lt_of_le_of_lt (List.length_take_le _ _) count.toNat_lt
    · exact ih hothers label hother

end TestLinux.Wire
