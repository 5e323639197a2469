import TestLinux.Dns.Request

/-!
# Responses of a name server

The format of a response, stated without looking at a program that reads it. A `Response` has a
header whose counts match, questions with uncompressed names, answers whose owner is a compression
pointer, and whatever follows behind them. The limits of the format are fields: labels have 1 to 63
bytes, an offset has 14 bits, the other lengths and counts have 16 bits.
-/

set_option autoImplicit false
set_option relaxedAutoImplicit false

namespace TestLinux.Dns

open TestLinux.Wire

/-- A question with an uncompressed name. -/
structure Question where
  labels : List (List UInt8)
  qtype : UInt16
  qclass : UInt16
  sized : ∀ label ∈ labels, 1 ≤ label.length ∧ label.length ≤ 63

/-- A question as it stands in a message. -/
def Question.bytes (question : Question) : List UInt8 :=
  writeLabels question.labels ++
    0 :: (bigEndian16 question.qtype ++ bigEndian16 question.qclass)

theorem Question.announceable (question : Question) :
    ∀ label ∈ question.labels, Announceable label := by
  intro label hlabel
  obtain ⟨hlower, hupper⟩ := question.sized label hlabel
  exact ⟨hlower, Nat.lt_of_le_of_lt hupper (by decide)⟩

theorem Question.length_bytes (question : Question) :
    question.bytes.length = (writeLabels question.labels).length + 5 := by
  simp [Question.bytes]

/-- An answer. Its owner is a pointer to `offset`. -/
structure Answer where
  offset : ℕ
  type : UInt16
  rclass : UInt16
  ttl : UInt32
  rdata : List UInt8
  offset_lt : offset < 16384
  rdata_lt : rdata.length < 65536

/-- The part of an answer in front of its data. -/
def Answer.header (answer : Answer) : List UInt8 :=
  bigEndian16 (UInt16.ofNat (49152 + answer.offset)) ++ (bigEndian16 answer.type ++
    (bigEndian16 answer.rclass ++ (bigEndian32 answer.ttl ++
      bigEndian16 (UInt16.ofNat answer.rdata.length))))

/-- An answer as it stands in a message. -/
def Answer.bytes (answer : Answer) : List UInt8 := answer.header ++ answer.rdata

/-- An answer with an internet address. -/
def Answer.IsAddress (answer : Answer) : Prop :=
  answer.type = 1 ∧ answer.rclass = 1 ∧ answer.rdata.length = 4
  deriving Decidable

theorem Answer.length_header (answer : Answer) : answer.header.length = 12 := rfl

theorem Answer.length_bytes (answer : Answer) :
    answer.bytes.length = 12 + answer.rdata.length := by
  rw [Answer.bytes, List.length_append, answer.length_header]

section Words

variable (answer : Answer) (front rest : List UInt8)

theorem Answer.type_at :
    wordAt (front ++ (answer.bytes ++ rest)) (front.length + 2) = answer.type.toNat := by
  have hfront : front ++ (answer.bytes ++ rest) =
      (front ++ bigEndian16 (UInt16.ofNat (49152 + answer.offset))) ++
        (bigEndian16 answer.type ++ (bigEndian16 answer.rclass ++ (bigEndian32 answer.ttl ++
          (bigEndian16 (UInt16.ofNat answer.rdata.length) ++ (answer.rdata ++ rest))))) := by
    simp [Answer.bytes, Answer.header]
  rw [hfront]
  exact wordAt_append (by simp) _ _

theorem Answer.rdlength_at :
    wordAt (front ++ (answer.bytes ++ rest)) (front.length + 10) = answer.rdata.length := by
  have hfront : front ++ (answer.bytes ++ rest) =
      (front ++ (bigEndian16 (UInt16.ofNat (49152 + answer.offset)) ++ (bigEndian16 answer.type ++
        (bigEndian16 answer.rclass ++ bigEndian32 answer.ttl)))) ++
          (bigEndian16 (UInt16.ofNat answer.rdata.length) ++ (answer.rdata ++ rest)) := by
    simp [Answer.bytes, Answer.header]
  have hlength : (UInt16.ofNat answer.rdata.length).toNat = answer.rdata.length := by
    rw [UInt16.toNat_ofNat']
    exact Nat.mod_eq_of_lt answer.rdata_lt
  rw [hfront]
  exact (wordAt_append (by simp) _ _).trans hlength

end Words

theorem toNat_eq_one_iff (word : UInt16) : word.toNat = 1 ↔ word = 1 :=
  ⟨fun hword ↦ UInt16.toNat_inj.mp hword, fun hword ↦ hword ▸ rfl⟩

theorem toNat_eq_five_iff (word : UInt16) : word.toNat = 5 ↔ word = 5 :=
  ⟨fun hword ↦ UInt16.toNat_inj.mp hword, fun hword ↦ hword ▸ rfl⟩

/-- A response with matching counts. `rest` is what stands behind the answers. -/
structure Response where
  id : UInt16
  flags : UInt16
  questions : List Question
  answers : List Answer
  authorityRrs : UInt16
  additionalRrs : UInt16
  rest : List UInt8
  questions_lt : questions.length < 65536
  answers_lt : answers.length < 65536

/-- The header. -/
def Response.head (response : Response) : DnsHeader where
  id := response.id
  flags := response.flags
  questions := UInt16.ofNat response.questions.length
  answerRrs := UInt16.ofNat response.answers.length
  authorityRrs := response.authorityRrs
  additionalRrs := response.additionalRrs

/-- The whole message. -/
def Response.bytes (response : Response) : List UInt8 :=
  response.head.bytes ++ (response.questions.flatMap Question.bytes ++
    (response.answers.flatMap Answer.bytes ++ response.rest))

theorem Response.question_count (response : Response) (behind : List UInt8) :
    wordAt (response.bytes ++ behind) 4 = response.questions.length := by
  have hlength : response.head.questions.toNat = response.questions.length := by
    show (UInt16.ofNat _).toNat = _
    rw [UInt16.toNat_ofNat']
    exact Nat.mod_eq_of_lt response.questions_lt
  rw [← hlength]
  simp only [Response.bytes, DnsHeader.bytes, List.append_assoc]
  rw [← List.append_assoc]
  exact wordAt_append (by simp) _ _

theorem Response.answer_count (response : Response) (behind : List UInt8) :
    wordAt (response.bytes ++ behind) 6 = response.answers.length := by
  have hlength : response.head.answerRrs.toNat = response.answers.length := by
    show (UInt16.ofNat _).toNat = _
    rw [UInt16.toNat_ofNat']
    exact Nat.mod_eq_of_lt response.answers_lt
  rw [← hlength]
  simp only [Response.bytes, DnsHeader.bytes, List.append_assoc]
  rw [← List.append_assoc, ← List.append_assoc]
  exact wordAt_append (by simp) _ _

end TestLinux.Dns
