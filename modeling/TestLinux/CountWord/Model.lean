import Mathlib.Data.Fintype.Basic
import TestLinux.Library.Segments

/-!
# The word counter

`count_word` reads a file in pieces of at most `SIZE_BUFFER` bytes and counts the transitions from
an interval to a word, with a status that is kept from one piece to the next. `scanByte` is the body
of the inner loop and `readLoop` the outer loop over what `fread` returns. The counter is a natural
number: it never exceeds the number of bytes of the file, which a `size_t` can hold.

`scan_spec` is the invariant of the inner loop, in terms of all the bytes scanned since the start of
the file; the outer loop only cuts them (`readLoop_eq`).
-/

set_option autoImplicit false
set_option relaxedAutoImplicit false

namespace TestLinux.CountWord

open Segments

/-- `SIZE_BUFFER`. -/
def sizeBuffer : ℕ := 2048

/-- `is_letter`, where a `char` is signed. -/
def isLetter (w : UInt8) : Bool :=
  (w.toInt8 ≤ 0x7A && w.toInt8 ≥ 0x61) || (w.toInt8 ≤ 0x5A && w.toInt8 ≥ 0x41)

/-- `Status_wd`. -/
inductive Status
  | interval
  | wordEn
  deriving DecidableEq, Repr

structure Counter where
  wordCnt : ℕ
  status : Status
  deriving DecidableEq, Repr

/-- The values before the loop. -/
def Counter.start : Counter := { wordCnt := 0, status := .interval }

/-- The body of the inner loop. -/
def scanByte (counter : Counter) (w : UInt8) : Counter :=
  if isLetter w then
    if counter.status = .interval then
      { wordCnt := counter.wordCnt + 1, status := .wordEn }
    else counter
  else if counter.status = .wordEn then { counter with status := .interval }
  else counter

/-- The inner loop over the bytes that one `fread` has put into the buffer. -/
def scan (counter : Counter) (bytes : List UInt8) : Counter := bytes.foldl scanByte counter

/-- The outer loop over the results of `fread`: it is left behind an empty one. -/
def readLoop (counter : Counter) : List (List UInt8) → Option Counter
  | [] => none
  | bytes :: reads =>
    if bytes.length = 0 then some (scan counter bytes)
    else readLoop (scan counter bytes) reads

/-- The letters of ASCII, by their codes. -/
def asciiLetter (w : UInt8) : Bool :=
  decide (0x41 ≤ w.toNat ∧ w.toNat ≤ 0x5A ∨ 0x61 ≤ w.toNat ∧ w.toNat ≤ 0x7A)

theorem isLetter_eq_asciiLetter : isLetter = asciiLetter := by
  funext w
  have hall : ∀ byte : Fin 256, isLetter (UInt8.ofFin byte) = asciiLetter (UInt8.ofFin byte) := by
    decide +kernel
  exact hall w.toFin

/-- After the bytes scanned so far the counter shows the words that have begun in them, and the
status whether the last of them is a letter. -/
theorem scan_spec (bytes : List UInt8) :
    (scan Counter.start bytes).wordCnt = (starts isLetter bytes).card ∧
      ((scan Counter.start bytes).status = .wordEn ↔ bytes.getLast?.any isLetter = true) := by
  induction bytes using List.reverseRecOn with
  | nil => exact ⟨rfl, by decide⟩
  | append_singleton bytes w ih =>
    obtain ⟨hcount, hstatus⟩ := ih
    have hscan : scan Counter.start (bytes ++ [w]) = scanByte (scan Counter.start bytes) w :=
      List.foldl_concat ..
    rw [hscan, card_starts_concat, List.getLast?_concat, Option.any_some, ← hcount]
    cases hletter : isLetter w with
    | true =>
      cases hbefore : (scan Counter.start bytes).status with
      | interval =>
        have hlast : bytes.getLast?.any isLetter = false := by
          rw [← Bool.not_eq_true, ← hstatus, hbefore]
          exact Status.noConfusion
        simp [scanByte, hletter, hbefore, hlast]
      | wordEn =>
        have hlast : bytes.getLast?.any isLetter = true := hstatus.mp hbefore
        simp [scanByte, hletter, hbefore, hlast]
    | false =>
      cases hbefore : (scan Counter.start bytes).status with
      | interval => simp [scanByte, hletter, hbefore]
      | wordEn => simp [scanByte, hletter, hbefore]

theorem scan_append (counter : Counter) (bytes bytes' : List UInt8) :
    scan counter (bytes ++ bytes') = scan (scan counter bytes) bytes' := List.foldl_append ..

/-- The outer loop scans the pieces as if they had been read at once. -/
theorem readLoop_eq {chunks : List (List UInt8)} (hchunks : ∀ chunk ∈ chunks, chunk ≠ [])
    (counter : Counter) :
    readLoop counter (chunks ++ [[]]) = some (scan counter chunks.flatten) := by
  induction chunks generalizing counter with
  | nil => rfl
  | cons chunk chunks ih =>
    have hchunk : chunk.length ≠ 0 := fun hlength ↦
      hchunks chunk List.mem_cons_self (List.eq_nil_of_length_eq_zero hlength)
    rw [List.cons_append, readLoop, if_neg hchunk, List.flatten_cons, scan_append]
    exact ih (fun later hlater ↦ hchunks later (List.mem_cons_of_mem chunk hlater)) _

/-- For every content of the file and every way in which `fread` cuts it into non-empty pieces of at
most `sizeBuffer` bytes, behind which it returns nothing: the loop ends, and the counter is the
number of maximal runs of letters in the whole content, which is also the number of positions with
a letter that are first or preceded by something else. -/
theorem wordCnt_eq_of_chunks (bytes : List UInt8) (chunks : List (List UInt8))
    (hbytes : chunks.flatten = bytes)
    (hchunks : ∀ chunk ∈ chunks, chunk ≠ [] ∧ chunk.length ≤ sizeBuffer) :
    ∃ final, readLoop Counter.start (chunks ++ [[]]) = some final ∧
      final.wordCnt = {run : ℕ × ℕ | IsMaximalRun asciiLetter bytes run.1 run.2}.ncard ∧
      final.wordCnt = (starts asciiLetter bytes).card := by
  have hcount : (scan Counter.start bytes).wordCnt = (starts asciiLetter bytes).card := by
    rw [(scan_spec bytes).1, isLetter_eq_asciiLetter]
  refine ⟨scan Counter.start bytes, ?_, ?_, hcount⟩
  · rw [readLoop_eq fun chunk hchunk ↦ (hchunks chunk hchunk).1, hbytes]
  · rw [ncard_maximalRun, hcount]

/-- The text `ab1c` in two pieces, of which the first ends inside a word. -/
theorem wordCnt_of_two_chunks :
    ∃ final, readLoop Counter.start [[0x61], [0x62, 0x31, 0x63], []] = some final ∧
      final.wordCnt =
        {run : ℕ × ℕ | IsMaximalRun asciiLetter [0x61, 0x62, 0x31, 0x63] run.1 run.2}.ncard ∧
      final.wordCnt = (starts asciiLetter [0x61, 0x62, 0x31, 0x63]).card :=
  wordCnt_eq_of_chunks [0x61, 0x62, 0x31, 0x63] [[0x61], [0x62, 0x31, 0x63]] rfl (by decide)

end TestLinux.CountWord
