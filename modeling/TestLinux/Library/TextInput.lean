import Mathlib.Data.Int.Notation
import Mathlib.Data.List.Infix
import Mathlib.Data.Prod.Basic

/-!
# Input streams of the C++ library

An `Istream` is what is left of a finite input, with the two bits of its state that a finite input
can set. A function reads only from a stream with neither bit set, and sets `fail` otherwise.
`readInt` is the extraction of an `int` with `operator>>`, `ignoreLine` is `ignore` up to the end of
a line, and `getline` is the function of that name.

`leadingInt` is the integer that a text begins with, and `dropLine` the text behind its first line;
they do not mention the state. `readInt_of_some` and `readInt_of_none` say what an extraction does
in their terms. A stream is `Ready` if it is good or used up; from such a stream the functions that
read lines take what `dropLine` takes off the text, and leave such a stream.
-/

set_option autoImplicit false
set_option relaxedAutoImplicit false

namespace TestLinux.TextInput

/-! ### Text -/

/-- `isspace` in the classic locale. -/
def isSpace (c : UInt8) : Bool := c == 0x20 || (0x09 ≤ c && c ≤ 0x0D)

def isDigit (c : UInt8) : Bool := 0x30 ≤ c && c ≤ 0x39

/-- Every byte but the one that ends a line. -/
def inLine (c : UInt8) : Bool := c != 0x0A

/-- The value of a sequence of digits. -/
def decimal (digits : List UInt8) : ℕ :=
  digits.foldl (fun value c ↦ 10 * value + (c.toNat - 0x30)) 0

/-- Takes a sign off the text and tells whether it is a minus. -/
def splitSign : List UInt8 → Bool × List UInt8
  | [] => (false, [])
  | c :: rest =>
    if c = 0x2D then (true, rest) else if c = 0x2B then (false, rest) else (false, c :: rest)

/-- `INT_MIN`. -/
def intMin : ℤ := -2147483648

/-- `INT_MAX`. -/
def intMax : ℤ := 2147483647

/-- Behind white space and a sign: the value of the digits, if there are any, and the text behind
them. -/
def scanInt (text : List UInt8) : Option ℤ × List UInt8 :=
  let signed := splitSign (text.dropWhile isSpace)
  let digits := signed.2.takeWhile isDigit
  let value : ℤ := if signed.1 then -decimal digits else decimal digits
  (if digits = [] then none else some value, signed.2.dropWhile isDigit)

/-- The integer that a text begins with, if it fits an `int`, and the text behind it. -/
def leadingInt (text : List UInt8) : Option (ℤ × List UInt8) :=
  (scanInt text).1.bind fun value ↦
    if intMin ≤ value ∧ value ≤ intMax then some (value, (scanInt text).2) else none

/-- The first line of a text. -/
def takeLine (text : List UInt8) : List UInt8 := text.takeWhile inLine

/-- The text behind its first line. -/
def dropLine (text : List UInt8) : List UInt8 := (text.dropWhile inLine).drop 1

theorem length_dropLine_le (text : List UInt8) : (dropLine text).length ≤ text.length :=
  ((List.drop_suffix _ _).trans (List.dropWhile_suffix _)).length_le

theorem length_splitSign_le (text : List UInt8) : (splitSign text).2.length ≤ text.length := by
  cases text with
  | nil => exact Nat.le_refl _
  | cons c rest =>
    rw [splitSign]
    split_ifs with hminus hplus
    · exact Nat.le_succ _
    · exact Nat.le_succ _
    · exact Nat.le_refl _

/-- The digits of an integer are taken off the text. -/
theorem length_lt_of_leadingInt {text rest : List UInt8} {value : ℤ}
    (hleading : leadingInt text = some (value, rest)) : rest.length < text.length := by
  obtain ⟨scanned, hscanned, hrange⟩ := Option.bind_eq_some_iff.mp hleading
  obtain ⟨-, heq⟩ := Option.ite_none_right_eq_some.mp hrange
  obtain rfl : (scanInt text).2 = rest := congrArg Prod.snd (Option.some.inj heq)
  have hsome : ∃ c, c ∈ (splitSign (text.dropWhile isSpace)).2.takeWhile isDigit := by
    refine List.exists_mem_of_ne_nil _ fun hempty ↦ ?_
    rw [scanInt, hempty] at hscanned
    exact absurd hscanned.symm (Option.some_ne_none _)
  obtain ⟨c, hc⟩ := hsome
  have hsplit := congrArg List.length
    (List.takeWhile_append_dropWhile (p := isDigit) (l := (splitSign (text.dropWhile isSpace)).2))
  rw [List.length_append] at hsplit
  have hdigits := List.length_pos_of_mem hc
  have hsign := length_splitSign_le (text.dropWhile isSpace)
  have hspace := (List.dropWhile_suffix isSpace (l := text)).length_le
  change ((splitSign (text.dropWhile isSpace)).2.dropWhile isDigit).length < text.length
  omega

/-! ### Streams -/

/-- What has not been read, `eofbit` and `failbit`. -/
structure Istream where
  unread : List UInt8
  eof : Bool
  fail : Bool
  deriving DecidableEq, Repr

namespace Istream

/-- A stream that nothing has been read from. -/
def ofText (text : List UInt8) : Istream := ⟨text, false, false⟩

def good (stream : Istream) : Bool := !stream.eof && !stream.fail

/-- What a function that reads does to a stream that is not good. -/
def refuse (stream : Istream) : Istream := { stream with fail := true }

/-- `stream >> value`: the new value of the variable and the stream. The variable keeps its value
where there is nothing behind the white space; otherwise it becomes 0 where there are no digits, and
the nearest `int` where the integer does not fit. -/
def readInt (stream : Istream) (value : ℤ) : ℤ × Istream :=
  if stream.good then
    if stream.unread.dropWhile isSpace = [] then (value, ⟨[], true, true⟩)
    else
      let rest := (scanInt stream.unread).2
      match (scanInt stream.unread).1 with
      | none => (0, ⟨rest, rest.isEmpty, true⟩)
      | some scanned =>
        if scanned < intMin then (intMin, ⟨rest, rest.isEmpty, true⟩)
        else if scanned > intMax then (intMax, ⟨rest, rest.isEmpty, true⟩)
        else (scanned, ⟨rest, rest.isEmpty, false⟩)
  else (value, stream.refuse)

/-- `stream.ignore(max, '\n')`. -/
def ignoreLine (stream : Istream) : Istream :=
  if stream.good then
    ⟨dropLine stream.unread, (stream.unread.dropWhile inLine).isEmpty, false⟩
  else stream.refuse

/-- `getline(stream, line)` into an empty string. It fails if it takes nothing off the input. -/
def getline (stream : Istream) : List UInt8 × Istream :=
  if stream.good then
    (takeLine stream.unread, ⟨dropLine stream.unread, (stream.unread.dropWhile inLine).isEmpty,
      stream.unread.isEmpty⟩)
  else ([], stream.refuse)

theorem good_ofText (text : List UInt8) : (ofText text).good = true := rfl

theorem refuse_of_fail {stream : Istream} (hfail : stream.fail = true) :
    stream.refuse = stream := by
  cases stream
  simp_all [refuse]

theorem good_eq_false_of_fail {stream : Istream} (hfail : stream.fail = true) :
    stream.good = false := by
  rw [good, hfail, Bool.not_true, Bool.and_false]

theorem readInt_of_fail {stream : Istream} (hfail : stream.fail = true) (value : ℤ) :
    stream.readInt value = (value, stream) := by
  rw [readInt, good_eq_false_of_fail hfail, if_neg Bool.false_ne_true, refuse_of_fail hfail]

theorem ignoreLine_of_fail {stream : Istream} (hfail : stream.fail = true) :
    stream.ignoreLine = stream := by
  rw [ignoreLine, good_eq_false_of_fail hfail, if_neg Bool.false_ne_true, refuse_of_fail hfail]

theorem getline_of_fail {stream : Istream} (hfail : stream.fail = true) :
    stream.getline = ([], stream) := by
  rw [getline, good_eq_false_of_fail hfail, if_neg Bool.false_ne_true, refuse_of_fail hfail]

/-- An integer at the beginning of the text is extracted. -/
theorem readInt_of_some {stream : Istream} {scanned : ℤ} {rest : List UInt8}
    (hgood : stream.good = true) (hleading : leadingInt stream.unread = some (scanned, rest))
    (value : ℤ) : stream.readInt value = (scanned, ⟨rest, rest.isEmpty, false⟩) := by
  obtain ⟨scanned', hscanned, hrange⟩ := Option.bind_eq_some_iff.mp hleading
  obtain ⟨⟨hlower, hupper⟩, heq⟩ := Option.ite_none_right_eq_some.mp hrange
  obtain ⟨rfl, rfl⟩ := Prod.ext_iff.mp (Option.some.inj heq)
  have hne : stream.unread.dropWhile isSpace ≠ [] := by
    intro hempty
    rw [scanInt, hempty] at hscanned
    exact absurd hscanned.symm (Option.some_ne_none _)
  rw [readInt, if_pos hgood, if_neg hne, hscanned]
  dsimp only
  rw [if_neg (Int.not_lt.mpr hlower), if_neg (Int.not_lt.mpr hupper)]

/-- Without an integer that fits at the beginning of the text the extraction fails, and the variable
keeps its value or becomes 0 or a limit of `int`. -/
theorem readInt_of_none {stream : Istream} (hleading : leadingInt stream.unread = none)
    (value : ℤ) :
    (stream.readInt value).2.fail = true ∧
      (stream.readInt value).1 ∈ [value, 0, intMin, intMax] := by
  rw [readInt]
  split_ifs with hgood hempty
  · exact ⟨rfl, by simp⟩
  · cases hscanned : (scanInt stream.unread).1 with
    | none => exact ⟨rfl, by simp⟩
    | some scanned =>
      rw [leadingInt, hscanned, Option.bind_some, ite_eq_right_iff] at hleading
      dsimp only
      split_ifs with hlower hupper
      · exact ⟨rfl, by simp⟩
      · exact ⟨rfl, by simp⟩
      · exact absurd (hleading ⟨Int.not_lt.mp hlower, Int.not_lt.mp hupper⟩)
          (Option.some_ne_none _)
  · exact ⟨rfl, by simp⟩

/-- The stream is good, or there is nothing left of it. -/
def Ready (stream : Istream) : Prop := stream.good = true ∨ stream.unread = []

theorem ready_mk (rest : List UInt8) : Ready ⟨rest, rest.isEmpty, false⟩ := by
  cases rest with
  | nil => exact Or.inr rfl
  | cons c rest => exact Or.inl rfl

theorem Ready.ignoreLine {stream : Istream} (hready : stream.Ready) :
    stream.ignoreLine.Ready ∧ stream.ignoreLine.unread = dropLine stream.unread := by
  rw [Istream.ignoreLine]
  split_ifs with hgood
  · refine ⟨?_, rfl⟩
    cases hrest : stream.unread.dropWhile inLine with
    | nil => exact Or.inr (by rw [dropLine, hrest]; rfl)
    | cons c rest => exact Or.inl rfl
  · have hempty := hready.resolve_left hgood
    exact ⟨Or.inr hempty, by rw [hempty]; exact hempty⟩

theorem Ready.getline {stream : Istream} (hready : stream.Ready) :
    stream.getline.2.Ready ∧ stream.getline.2.unread = dropLine stream.unread := by
  rw [Istream.getline]
  split_ifs with hgood
  · refine ⟨?_, rfl⟩
    cases hrest : stream.unread.dropWhile inLine with
    | nil => exact Or.inr (by rw [dropLine, hrest]; rfl)
    | cons c rest =>
      have hne : stream.unread ≠ [] := by
        rintro hempty
        rw [hempty] at hrest
        exact absurd hrest (List.cons_ne_nil _ _).symm
      exact Or.inl (by simp [good, hne])
  · have hempty := hready.resolve_left hgood
    exact ⟨Or.inr hempty, by rw [hempty]; exact hempty⟩

end Istream

end TestLinux.TextInput
