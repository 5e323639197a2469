import TestLinux.Library.CString
import TestLinux.Dns.Message

/-!
# The response parser of `2.3.1-coroutine/async_dns_client_noblock.c`

`dnsParseResponse` is `dns_parse_response` on the buffer of 1024 bytes that `recvfrom` has filled;
`buffered` is that buffer for a message. A read behind the end of the buffer has no result, and
neither has a name that does not fit into the 128 bytes of the array that it is written to. The
array is zero in front of each call of `dns_parse_name`, and bytes are appended to what has been
written, so that `out` is the part of it that has been written and `len` its length. A name can
point to itself: `fuel` bounds the number of rounds of `dns_parse_name`, and a run that needs more
has no result. `calloc` succeeds. `Spells` says on the bytes of the buffer which text
`dns_parse_name` finds at a position (`spells_of_dnsParseName`, `dnsParseName_of_spells`).

The cursor is moved over the data of an answer only if the answer is of type A or CNAME, so that the
data of any other answer is read as the next answer. The class is not looked at, and the name of an
address goes up to its first NUL. `parses_addresses_iff` says that, as long as no answer of another
type with data stands in front of another answer, nothing else goes wrong.
-/

set_option autoImplicit false
set_option relaxedAutoImplicit false

namespace TestLinux.AsyncDns

open TestLinux.CString TestLinux.Wire TestLinux.Dns

/-! ### The parser -/

/-- `is_pointer`. -/
def isPointer (flag : UInt8) : Bool := flag &&& 0xC0 == 0xC0

/-- `dns_parse_name`. Behind a pointer it is called again and the loop is left, which continues the
name at the target. -/
def dnsParseName (chunk : List UInt8) : (fuel ptr : ℕ) → (out : List UInt8) → Option (List UInt8)
  | 0, _, _ => none
  | fuel + 1, ptr, out =>
    (chunk[ptr]?).bind fun flag ↦
      if flag = 0 then some out
      else if isPointer flag then
        (chunk[ptr + 1]?).bind fun n ↦ dnsParseName chunk fuel n.toNat out
      else if chunk.length < ptr + 1 + flag.toNat ∨ 128 < out.length + flag.toNat then none
      else
        let out := out ++ (chunk.drop (ptr + 1)).take flag.toNat
        let ptr := ptr + 1 + flag.toNat
        (chunk[ptr]?).bind fun next ↦
          if next = 0 then dnsParseName chunk fuel ptr out
          else if 128 ≤ out.length then none
          else dnsParseName chunk fuel ptr (out ++ [dot])

/-- `dns_item`. -/
structure DnsItem where
  domain : List UInt8
  ip : List UInt8
  deriving DecidableEq

/-- `inet_ntop` for `AF_INET`. -/
def inetNtop (netip : List UInt8) : List UInt8 :=
  [dot].intercalate (netip.map fun byte ↦
    (Nat.toDigits 10 byte.toNat).map fun digit ↦ UInt8.ofNat digit.toNat)

/-- A 16-bit word of the buffer. -/
def readWord (buffer : List UInt8) (ptr : ℕ) : Option ℕ :=
  if ptr + 2 ≤ buffer.length then some (wordAt buffer ptr) else none

/-- The loop over the labels of a question. -/
def skipLabels (buffer : List UInt8) (ptr : ℕ) : Option ℕ :=
  if _hptr : ptr < buffer.length then
    if buffer.getD ptr 0 = 0 then some (ptr + 1)
    else skipLabels buffer (ptr + ((buffer.getD ptr 0).toNat + 1))
  else none
termination_by buffer.length - ptr

/-- The loop over the questions. -/
def skipQuerys (buffer : List UInt8) : (querys ptr : ℕ) → Option ℕ
  | 0, ptr => some ptr
  | querys + 1, ptr =>
    (skipLabels buffer ptr).bind fun ptr ↦ skipQuerys buffer querys (ptr + 4)

/-- The array `aname` behind `dns_parse_name`. -/
def nameArray (out : List UInt8) : List UInt8 := out ++ List.replicate (128 - out.length) 0

/-- The loop over the answers: the items that are added to the list. Of the TTL the first word is
read, and nothing but a line of output depends on it. -/
def answersLoop (fuel : ℕ) (buffer : List UInt8) : (answers ptr : ℕ) → Option (List DnsItem)
  | 0, _ => some []
  | answers + 1, ptr =>
    (dnsParseName buffer fuel ptr []).bind fun aname ↦
      (readWord buffer (ptr + 2)).bind fun type ↦
        (readWord buffer (ptr + 6)).bind fun _ttl ↦
          (readWord buffer (ptr + 10)).bind fun datalen ↦
            if type = 5 then
              (dnsParseName buffer fuel (ptr + 12) []).bind fun _cname ↦
                answersLoop fuel buffer answers (ptr + 12 + datalen)
            else if type = 1 then
              if datalen = 4 then
                if buffer.length < ptr + 12 + 4 then none
                else
                  (cstring (nameArray aname)).bind fun domain ↦
                    (answersLoop fuel buffer answers (ptr + 12 + datalen)).map fun list ↦
                      ⟨domain, inetNtop ((buffer.drop (ptr + 12)).take 4)⟩ :: list
              else answersLoop fuel buffer answers (ptr + 12 + datalen)
            else answersLoop fuel buffer answers (ptr + 12)

/-- `dns_parse_response`: the value it returns and the list. -/
def dnsParseResponse (fuel : ℕ) (buffer : List UInt8) : Option (ℕ × List DnsItem) :=
  (readWord buffer 4).bind fun querys ↦
    (readWord buffer 6).bind fun answers ↦
      (skipQuerys buffer querys 12).bind fun ptr ↦
        (answersLoop fuel buffer answers ptr).map fun list ↦ (list.length, list)

/-- The buffer of 1024 bytes behind `recvfrom`. It was zero before, and a longer message is cut. -/
def buffered (message : List UInt8) : List UInt8 :=
  message.take 1024 ++ List.replicate (1024 - message.length) 0

/-! ### Names -/

/-- A name as it is shown. -/
def dotted (labels : List (List UInt8)) : List UInt8 := [dot].intercalate labels

theorem dotted_cons {labels : List (List UInt8)} (hlabels : labels ≠ []) (label : List UInt8) :
    dotted (label :: labels) = label ++ ([dot] ++ dotted labels) := by
  cases labels with
  | nil => exact absurd rfl hlabels
  | cons second labels =>
    rw [← List.append_assoc]
    exact List.intercalate_cons_cons

theorem not_isPointer {count : ℕ} (hcount : count ≤ 63) :
    isPointer (UInt8.ofNat count) = false := by
  have hall : ∀ count ≤ 63, isPointer (UInt8.ofNat count) = false := by decide
  exact hall count hcount

theorem ne_zero_of_isPointer {flag : UInt8} (hpointer : isPointer flag) : flag ≠ 0 := by
  rintro rfl
  exact absurd hpointer (by decide)

/-- A label whose length byte is followed by all its bytes. -/
theorem length_take_label {chunk : List UInt8} {ptr : ℕ} {flag : UInt8}
    (hinside : ptr + 1 + flag.toNat < chunk.length) :
    ((chunk.drop (ptr + 1)).take flag.toNat).length = flag.toNat := by
  rw [List.length_take, List.length_drop]
  omega

theorem getElem?_of_drop {chunk : List UInt8} {ptr : ℕ} {byte : UInt8} {rest : List UInt8}
    (hchunk : chunk.drop ptr = byte :: rest) : chunk[ptr]? = some byte := by
  have hhead : (chunk.drop ptr)[0]? = chunk[ptr + 0]? := List.getElem?_drop
  rw [hchunk] at hhead
  exact hhead.symm

theorem dnsParseName_ended {chunk : List UInt8} {ptr : ℕ} (hflag : chunk[ptr]? = some 0)
    (fuel : ℕ) (out : List UInt8) : dnsParseName chunk (fuel + 1) ptr out = some out := by
  rw [dnsParseName, hflag, Option.bind_some, if_pos rfl]

theorem dnsParseName_pointer {chunk : List UInt8} {ptr : ℕ} {flag n : UInt8}
    (hflag : chunk[ptr]? = some flag) (hpointer : isPointer flag) (hn : chunk[ptr + 1]? = some n)
    (fuel : ℕ) (out : List UInt8) :
    dnsParseName chunk (fuel + 1) ptr out = dnsParseName chunk fuel n.toNat out := by
  rw [dnsParseName, hflag, Option.bind_some, if_neg (ne_zero_of_isPointer hpointer),
    if_pos hpointer, hn, Option.bind_some]

/-- A round over a label: it is copied, with a dot behind it unless the name ends there. -/
theorem dnsParseName_label {chunk out : List UInt8} {ptr fuel : ℕ} {flag next : UInt8}
    (hflag : chunk[ptr]? = some flag) (hzero : flag ≠ 0) (hlabel : ¬ isPointer flag)
    (hnext : chunk[ptr + 1 + flag.toNat]? = some next)
    (hroom : out.length + flag.toNat + (if next = 0 then [] else [dot]).length ≤ 128) :
    dnsParseName chunk (fuel + 1) ptr out =
      dnsParseName chunk fuel (ptr + 1 + flag.toNat)
        (out ++ ((chunk.drop (ptr + 1)).take flag.toNat ++ (if next = 0 then [] else [dot]))) := by
  obtain ⟨hinside, -⟩ := List.getElem?_eq_some_iff.mp hnext
  have hcopied := length_take_label hinside
  rw [dnsParseName, hflag, Option.bind_some, if_neg hzero, if_neg hlabel, if_neg (by omega)]
  dsimp only
  rw [hnext, Option.bind_some]
  split_ifs at hroom ⊢ with hend hfull
  · rw [List.append_nil]
  · rw [List.length_append, hcopied] at hfull
    rw [List.length_singleton] at hroom
    omega
  · rw [List.append_assoc]

/-- The first round of a call that finds a name. -/
theorem dnsParseName_cases {chunk out name : List UInt8} {fuel ptr : ℕ}
    (hname : dnsParseName chunk (fuel + 1) ptr out = some name) :
    (chunk[ptr]? = some 0 ∧ name = out) ∨
    (∃ flag n, chunk[ptr]? = some flag ∧ isPointer flag ∧ chunk[ptr + 1]? = some n ∧
      dnsParseName chunk fuel n.toNat out = some name) ∨
    ∃ flag next, chunk[ptr]? = some flag ∧ flag ≠ 0 ∧ ¬ isPointer flag ∧
      chunk[ptr + 1 + flag.toNat]? = some next ∧
      out.length + flag.toNat + (if next = 0 then [] else [dot]).length ≤ 128 ∧
      dnsParseName chunk fuel (ptr + 1 + flag.toNat)
        (out ++ ((chunk.drop (ptr + 1)).take flag.toNat ++ (if next = 0 then [] else [dot]))) =
          some name := by
  rw [dnsParseName] at hname
  obtain ⟨flag, hflag, hrest⟩ := Option.bind_eq_some_iff.mp hname
  split_ifs at hrest with hzero hpointer hlong
  · exact Or.inl ⟨hzero ▸ hflag, (Option.some.inj hrest).symm⟩
  · obtain ⟨n, hn, hrest⟩ := Option.bind_eq_some_iff.mp hrest
    exact Or.inr (Or.inl ⟨flag, n, hflag, hpointer, hn, hrest⟩)
  · dsimp only at hrest
    obtain ⟨next, hnext, hrest⟩ := Option.bind_eq_some_iff.mp hrest
    obtain ⟨hinside, -⟩ := List.getElem?_eq_some_iff.mp hnext
    refine Or.inr (Or.inr ⟨flag, next, hflag, hzero, hpointer, hnext, ?_⟩)
    split_ifs at hrest ⊢ with hend hfull
    · rw [List.append_nil, List.length_nil]
      exact ⟨by omega, hrest⟩
    · rw [List.length_append, length_take_label hinside] at hfull
      rw [List.length_singleton, ← List.append_assoc]
      exact ⟨by omega, hrest⟩

/-- More rounds do not change a name. -/
theorem dnsParseName_mono {chunk : List UInt8} {fuel more ptr : ℕ} {out name : List UInt8}
    (hname : dnsParseName chunk fuel ptr out = some name) (hmore : fuel ≤ more) :
    dnsParseName chunk more ptr out = some name := by
  induction fuel generalizing more ptr out with
  | zero => cases hname
  | succ fuel ih =>
    obtain ⟨more, rfl⟩ : ∃ less, more = less + 1 :=
      Nat.exists_eq_succ_of_ne_zero (Nat.ne_of_gt (Nat.lt_of_lt_of_le (Nat.succ_pos _) hmore))
    have hless := Nat.le_of_succ_le_succ hmore
    obtain ⟨hend, rfl⟩ | ⟨flag, n, hflag, hpointer, hn, hrest⟩ |
      ⟨flag, next, hflag, hzero, hlabel, hnext, hroom, hrest⟩ := dnsParseName_cases hname
    · exact dnsParseName_ended hend more name
    · rw [dnsParseName_pointer hflag hpointer hn]
      exact ih hrest hless
    · rw [dnsParseName_label hflag hzero hlabel hnext hroom]
      exact ih hrest hless

/-- The text that the parser reads from a position on. It takes labels as they come, and goes on
behind a pointer at the position that its second byte says. -/
inductive Spells (chunk : List UInt8) : ℕ → List UInt8 → Prop where
  | ended (ptr : ℕ) (hflag : chunk[ptr]? = some 0) : Spells chunk ptr []
  | pointer (ptr : ℕ) (flag n : UInt8) (text : List UInt8) (hflag : chunk[ptr]? = some flag)
      (hpointer : isPointer flag) (hn : chunk[ptr + 1]? = some n)
      (htext : Spells chunk n.toNat text) : Spells chunk ptr text
  | label (ptr : ℕ) (flag next : UInt8) (text : List UInt8) (hflag : chunk[ptr]? = some flag)
      (hzero : flag ≠ 0) (hlabel : ¬ isPointer flag)
      (hnext : chunk[ptr + 1 + flag.toNat]? = some next)
      (htext : Spells chunk (ptr + 1 + flag.toNat) text) :
      Spells chunk ptr ((chunk.drop (ptr + 1)).take flag.toNat ++
        ((if next = 0 then [] else [dot]) ++ text))

theorem spells_of_dnsParseName {chunk : List UInt8} {fuel ptr : ℕ} {out name : List UInt8}
    (hname : dnsParseName chunk fuel ptr out = some name) :
    ∃ text, Spells chunk ptr text ∧ name = out ++ text := by
  induction fuel generalizing ptr out with
  | zero => cases hname
  | succ fuel ih =>
    obtain ⟨hend, rfl⟩ | ⟨flag, n, hflag, hpointer, hn, hrest⟩ |
      ⟨flag, next, hflag, hzero, hlabel, hnext, -, hrest⟩ := dnsParseName_cases hname
    · exact ⟨[], .ended ptr hend, (List.append_nil name).symm⟩
    · obtain ⟨text, htext, hname⟩ := ih hrest
      exact ⟨text, .pointer ptr flag n text hflag hpointer hn htext, hname⟩
    · obtain ⟨text, htext, hname⟩ := ih hrest
      refine ⟨_, .label ptr flag next text hflag hzero hlabel hnext htext, ?_⟩
      rw [hname, List.append_assoc, List.append_assoc]

/-- The text is found if there is room for it in the array. -/
theorem dnsParseName_of_spells {chunk text : List UInt8} {ptr : ℕ}
    (hspells : Spells chunk ptr text) :
    ∃ bound, ∀ out, out.length + text.length ≤ 128 → ∀ fuel ≥ bound,
      dnsParseName chunk fuel ptr out = some (out ++ text) := by
  induction hspells with
  | ended ptr hflag =>
    refine ⟨1, fun out _ fuel hfuel ↦ ?_⟩
    obtain ⟨fuel, rfl⟩ := Nat.exists_eq_add_of_le' hfuel
    rw [dnsParseName_ended hflag, List.append_nil]
  | pointer ptr flag n text hflag hpointer hn htext ih =>
    obtain ⟨bound, hbound⟩ := ih
    refine ⟨bound + 1, fun out hroom fuel hfuel ↦ ?_⟩
    obtain ⟨fuel, rfl⟩ := Nat.exists_eq_add_of_le' (Nat.le_of_add_left_le hfuel)
    rw [dnsParseName_pointer hflag hpointer hn]
    exact hbound out hroom fuel (Nat.le_of_succ_le_succ hfuel)
  | label ptr flag next text hflag hzero hlabel hnext htext ih =>
    obtain ⟨bound, hbound⟩ := ih
    refine ⟨bound + 1, fun out hroom fuel hfuel ↦ ?_⟩
    obtain ⟨fuel, rfl⟩ := Nat.exists_eq_add_of_le' (Nat.le_of_add_left_le hfuel)
    obtain ⟨hinside, -⟩ := List.getElem?_eq_some_iff.mp hnext
    have hcopied := length_take_label hinside
    rw [List.length_append, List.length_append, hcopied] at hroom
    have hwritten : (out ++ ((chunk.drop (ptr + 1)).take flag.toNat ++
        (if next = 0 then [] else [dot]))).length + text.length ≤ 128 := by
      rw [List.length_append, List.length_append, hcopied]
      omega
    rw [dnsParseName_label hflag hzero hlabel hnext (by omega),
      hbound _ hwritten fuel (Nat.le_of_succ_le_succ hfuel), List.append_assoc, List.append_assoc]

theorem length_le_of_dnsParseName {chunk out name : List UInt8} {fuel ptr : ℕ}
    (hname : dnsParseName chunk fuel ptr out = some name) (hout : out.length ≤ 128) :
    name.length ≤ 128 := by
  induction fuel generalizing ptr out with
  | zero => cases hname
  | succ fuel ih =>
    obtain ⟨-, rfl⟩ | ⟨flag, n, -, -, -, hrest⟩ |
      ⟨flag, next, -, -, -, hnext, hroom, hrest⟩ := dnsParseName_cases hname
    · exact hout
    · exact ih hrest hout
    · refine ih hrest ?_
      obtain ⟨hinside, -⟩ := List.getElem?_eq_some_iff.mp hnext
      rw [List.length_append, List.length_append, length_take_label hinside]
      omega

/-- An uncompressed name is appended to what has been written. -/
theorem dnsParseName_of_labels {labels : List (List UInt8)}
    (hsized : ∀ label ∈ labels, 1 ≤ label.length ∧ label.length ≤ 63)
    {chunk rest out : List UInt8} {ptr fuel : ℕ}
    (hchunk : chunk.drop ptr = writeLabels labels ++ 0 :: rest)
    (hroom : out.length + (dotted labels).length ≤ 128) (hfuel : labels.length < fuel) :
    dnsParseName chunk fuel ptr out = some (out ++ dotted labels) := by
  induction labels generalizing ptr out fuel with
  | nil =>
    obtain ⟨fuel, rfl⟩ : ∃ less, fuel = less + 1 :=
      Nat.exists_eq_succ_of_ne_zero (Nat.ne_of_gt hfuel)
    rw [dnsParseName_ended (getElem?_of_drop hchunk)]
    exact congrArg some (List.append_nil out).symm
  | cons label labels ih =>
    obtain ⟨fuel, rfl⟩ : ∃ less, fuel = less + 1 :=
      Nat.exists_eq_succ_of_ne_zero (Nat.ne_of_gt (Nat.lt_of_le_of_lt (Nat.zero_le _) hfuel))
    obtain ⟨hlower, hupper⟩ := hsized label List.mem_cons_self
    have hlabel : Announceable label := ⟨hlower, Nat.lt_of_le_of_lt hupper (by decide)⟩
    have hothers : ∀ other ∈ labels, 1 ≤ other.length ∧ other.length ≤ 63 := fun other hother ↦
      hsized other (List.mem_cons_of_mem label hother)
    rw [writeLabels_cons, List.cons_append, List.append_assoc] at hchunk
    have hbehind : chunk.drop (ptr + 1) = label ++ (writeLabels labels ++ 0 :: rest) := by
      rw [← List.drop_drop, hchunk, List.drop_one, List.tail_cons]
    have hnext : chunk.drop (ptr + 1 + label.length) = writeLabels labels ++ 0 :: rest := by
      rw [← List.drop_drop, hbehind, List.drop_left]
    -- what is written behind the label, and the byte it depends on
    obtain ⟨next, hbyte, hdotted⟩ : ∃ next, chunk[ptr + 1 + label.length]? = some next ∧
        dotted (label :: labels) =
          label ++ (if next = 0 then [] else [dot]) ++ dotted labels := by
      cases labels with
      | nil => exact ⟨0, getElem?_of_drop hnext, by simp [dotted]⟩
      | cons second labels =>
        obtain ⟨hsecond, hbound⟩ := hothers second List.mem_cons_self
        have hannounced : Announceable second :=
          ⟨hsecond, Nat.lt_of_le_of_lt hbound (by decide)⟩
        refine ⟨UInt8.ofNat second.length, getElem?_of_drop hnext, ?_⟩
        rw [if_neg (length_byte_ne_zero hannounced), List.append_assoc]
        exact dotted_cons (List.cons_ne_nil second labels) label
    have hcount := congrArg List.length hdotted
    rw [List.length_append, List.length_append] at hcount
    have hround := @dnsParseName_label chunk out ptr fuel (UInt8.ofNat label.length) next
      (getElem?_of_drop hchunk) (length_byte_ne_zero hlabel)
      (by rw [not_isPointer hupper]; exact Bool.false_ne_true)
    rw [toNat_length_byte hlabel, hbehind, List.take_left] at hround
    rw [hround hbyte (by omega), ih hothers hnext
      (by rw [List.length_append, List.length_append]; omega) (Nat.lt_of_succ_lt_succ hfuel),
      hdotted, List.append_assoc, List.append_assoc]

/-! ### Answers -/

/-- The owner of an answer is a pointer with an offset below 256 to an uncompressed name of at most
127 characters. -/
structure Owned (message : List UInt8) (answer : Answer) (labels : List (List UInt8)) : Prop where
  near : answer.offset < 256
  name : ∃ rest, message.drop answer.offset = writeLabels labels ++ 0 :: rest
  sized : ∀ label ∈ labels, 1 ≤ label.length ∧ label.length ≤ 63
  short : (dotted labels).length ≤ 127

theorem length_le_dotted (labels : List (List UInt8)) :
    labels.length ≤ (dotted labels).length + 1 := by
  induction labels with
  | nil => exact Nat.zero_le _
  | cons label labels ih =>
    cases labels with
    | nil => exact Nat.le_add_left _ _
    | cons second labels =>
      rw [dotted_cons (List.cons_ne_nil second labels), List.length_append, List.length_append,
        List.length_cons, List.length_singleton]
      omega

theorem Owned.length_le {message : List UInt8} {answer : Answer} {labels : List (List UInt8)}
    (howned : Owned message answer labels) : labels.length ≤ 128 :=
  Nat.le_trans (length_le_dotted labels) (Nat.succ_le_succ howned.short)

theorem buffered_of_length {message : List UInt8} (hmessage : message.length ≤ 1024) :
    buffered message = message ++ List.replicate (1024 - message.length) 0 := by
  rw [buffered, List.take_of_length_le hmessage]

theorem pointer_bytes {answer : Answer} (hnear : answer.offset < 256) :
    ∃ tail, answer.bytes = 192 :: UInt8.ofNat answer.offset :: tail := by
  have hword : (UInt16.ofNat (49152 + answer.offset)).toNat = 49152 + answer.offset := by
    rw [UInt16.toNat_ofNat']
    exact Nat.mod_eq_of_lt (by omega)
  have hhigh : (49152 + answer.offset) / 256 = 192 := by omega
  have hlow : (49152 + answer.offset) % 256 = answer.offset := by omega
  refine ⟨(bigEndian16 answer.type ++ (bigEndian16 answer.rclass ++ (bigEndian32 answer.ttl ++
    bigEndian16 (UInt16.ofNat answer.rdata.length)))) ++ answer.rdata, ?_⟩
  have hpointer : bigEndian16 (UInt16.ofNat (49152 + answer.offset)) =
      [192, UInt8.ofNat answer.offset] := by
    rw [bigEndian16, hword, hhigh, hlow]
    rfl
  rw [Answer.bytes, Answer.header, hpointer]
  rfl

/-- The owner of the answer at the cursor. -/
theorem dnsParseName_owner {message chunk front rest : List UInt8} {answer : Answer}
    {labels : List (List UInt8)} (howned : Owned message answer labels)
    {zeros : List UInt8} (hchunk : chunk = message ++ zeros)
    (hanswer : chunk = front ++ (answer.bytes ++ rest)) {fuel : ℕ} (hfuel : 129 < fuel) :
    dnsParseName chunk fuel front.length [] = some (dotted labels) := by
  obtain ⟨tail, htail⟩ := pointer_bytes howned.near
  obtain ⟨behind, hname⟩ := howned.name
  obtain ⟨fuel, rfl⟩ : ∃ less, fuel = less + 1 :=
    Nat.exists_eq_succ_of_ne_zero (Nat.ne_of_gt (Nat.lt_of_le_of_lt (Nat.zero_le _) hfuel))
  have hdrop : chunk.drop front.length = 192 :: UInt8.ofNat answer.offset :: (tail ++ rest) := by
    rw [hanswer, List.drop_left, htail]
    rfl
  have hnext : chunk.drop (front.length + 1) = UInt8.ofNat answer.offset :: (tail ++ rest) := by
    rw [← List.drop_drop, hdrop, List.drop_one, List.tail_cons]
  have hoffset : (UInt8.ofNat answer.offset).toNat = answer.offset := by
    rw [UInt8.toNat_ofNat']
    exact Nat.mod_eq_of_lt howned.near
  have hinside : answer.offset ≤ message.length := by
    have hcount := congrArg List.length hname
    rw [List.length_drop, List.length_append, List.length_cons] at hcount
    omega
  have htarget : chunk.drop answer.offset = writeLabels labels ++ 0 :: (behind ++ zeros) := by
    rw [hchunk, List.drop_append_of_le_length hinside, hname, List.append_assoc,
      List.cons_append]
  rw [dnsParseName_pointer (getElem?_of_drop hdrop) (by decide) (getElem?_of_drop hnext), hoffset]
  exact dnsParseName_of_labels howned.sized htarget
    (Nat.le_trans (by simpa using howned.short) (by decide))
    (Nat.lt_of_le_of_lt howned.length_le (Nat.lt_of_succ_lt_succ hfuel))

/-- What the parser puts into the list for an answer. -/
def listedItem (labels : List (List UInt8)) (answer : Answer) : DnsItem :=
  ⟨upToNul (dotted labels), inetNtop answer.rdata⟩

theorem cstring_nameArray {name : List UInt8} (hname : name.length ≤ 127) :
    cstring (nameArray name) = some (upToNul name) := by
  have hzero : List.replicate (128 - name.length) (0 : UInt8) =
      0 :: List.replicate (127 - name.length) 0 := by
    rw [← List.replicate_succ]
    congr 1
    omega
  rw [nameArray, hzero]
  exact (cstring_append_eq_iff name _).mpr (Or.inr rfl)

/-- One round of the loop over the answers, at the beginning of an answer. -/
theorem answersLoop_answer {fuel : ℕ} (count : ℕ) {front rest : List UInt8} {answer : Answer}
    {labels : List (List UInt8)}
    (hname : dnsParseName (front ++ (answer.bytes ++ rest)) fuel front.length [] =
      some (dotted labels)) (hshort : (dotted labels).length ≤ 127) :
    answersLoop fuel (front ++ (answer.bytes ++ rest)) (count + 1) front.length =
      if answer.type = 5 then
        (dnsParseName (front ++ (answer.bytes ++ rest)) fuel (front.length + 12) []).bind fun _ ↦
          answersLoop fuel (front ++ (answer.bytes ++ rest)) count (front ++ answer.bytes).length
      else if answer.type = 1 then
        if answer.rdata.length = 4 then
          (answersLoop fuel (front ++ (answer.bytes ++ rest)) count
            (front ++ answer.bytes).length).map (listedItem labels answer :: ·)
        else answersLoop fuel (front ++ (answer.bytes ++ rest)) count (front ++ answer.bytes).length
      else answersLoop fuel (front ++ (answer.bytes ++ rest)) count (front.length + 12) := by
  have hlength : (front ++ (answer.bytes ++ rest)).length =
      front.length + (12 + answer.rdata.length + rest.length) := by
    rw [List.length_append, List.length_append, answer.length_bytes]
  have hpos : front.length + 12 + answer.rdata.length = (front ++ answer.bytes).length := by
    rw [List.length_append, answer.length_bytes, Nat.add_assoc]
  have hrdata : (front ++ (answer.bytes ++ rest)).drop (front.length + 12) =
      answer.rdata ++ rest := by
    rw [← List.drop_drop, List.drop_left, Answer.bytes, List.append_assoc]
    exact List.drop_left' answer.length_header
  have hword (offset : ℕ) (hoffset : offset ≤ 10) :
      readWord (front ++ (answer.bytes ++ rest)) (front.length + offset) =
        some (wordAt (front ++ (answer.bytes ++ rest)) (front.length + offset)) := by
    rw [readWord, if_pos (by omega)]
  rw [answersLoop, hname, Option.bind_some, hword 2 (by decide), Option.bind_some,
    hword 6 (by decide), Option.bind_some, hword 10 (by decide), Option.bind_some,
    answer.type_at, answer.rdlength_at, hpos]
  simp only [toNat_eq_five_iff, toNat_eq_one_iff]
  split_ifs with halias haddress hfour hend
  · rfl
  · omega
  · rw [cstring_nameArray hshort, Option.bind_some, hrdata, List.take_left' hfour]
    rfl
  · rfl
  · rfl

/-- Every answer in front of another one is one whose data the cursor is moved over, or has none. -/
def Aligned : List Answer → Prop
  | [] => True
  | [_] => True
  | answer :: next :: answers =>
    (answer.type = 1 ∨ answer.type = 5 ∨ answer.rdata = []) ∧ Aligned (next :: answers)

/-- An answer of type A with four bytes of data. -/
def Listed (answer : Answer) : Prop := answer.type = 1 ∧ answer.rdata.length = 4
  deriving Decidable

/-- Some text is spelled at a position, inside the buffer and not longer than the array. -/
def Readable (chunk : List UInt8) (ptr : ℕ) : Prop :=
  ∃ text, Spells chunk ptr text ∧ text.length ≤ 128

/-- `dns_parse_name` comes back exactly from what is readable. -/
theorem readable_iff {chunk : List UInt8} {ptr : ℕ} :
    Readable chunk ptr ↔ ∃ fuel name, dnsParseName chunk fuel ptr [] = some name := by
  constructor
  · rintro ⟨text, hspells, hroom⟩
    obtain ⟨bound, hbound⟩ := dnsParseName_of_spells hspells
    exact ⟨bound, text, hbound [] (by simpa using hroom) bound (Nat.le_refl bound)⟩
  · rintro ⟨fuel, name, hname⟩
    obtain ⟨text, hspells, htext⟩ := spells_of_dnsParseName hname
    rw [List.nil_append] at htext
    exact ⟨text, hspells, htext ▸ length_le_of_dnsParseName hname (Nat.zero_le 128)⟩

/-- The data of every CNAME among the answers from `ptr` on can be read as a name. -/
def AliasesReadable (chunk : List UInt8) : (ptr : ℕ) → List Answer → Prop
  | _, [] => True
  | ptr, answer :: answers =>
    (answer.type = 5 → Readable chunk (ptr + 12)) ∧
      AliasesReadable chunk (ptr + answer.bytes.length) answers

/-- The items for some answers. -/
def listedItems (owner : Answer → List (List UInt8)) (answers : List Answer) : List DnsItem :=
  (answers.filter (Listed ·)).map fun answer ↦ listedItem (owner answer) answer

theorem listedItems_of_listed (owner : Answer → List (List UInt8)) {answer : Answer}
    (hlisted : Listed answer) (answers : List Answer) :
    listedItems owner (answer :: answers) =
      listedItem (owner answer) answer :: listedItems owner answers := by
  rw [listedItems, List.filter_cons_of_pos (by simpa using hlisted)]
  rfl

theorem listedItems_of_not_listed (owner : Answer → List (List UInt8)) {answer : Answer}
    (hlisted : ¬ Listed answer) (answers : List Answer) :
    listedItems owner (answer :: answers) = listedItems owner answers := by
  rw [listedItems, List.filter_cons_of_neg (by simpa using hlisted)]
  rfl

section Loop

variable {message zeros chunk front rest : List UInt8} {owner : Answer → List (List UInt8)}
  {answer : Answer} {answers : List Answer} {fuel : ℕ}

theorem Aligned.tail (haligned : Aligned (answer :: answers)) : Aligned answers := by
  cases answers with
  | nil => trivial
  | cons next answers => exact haligned.2

/-- One round in front of aligned answers. -/
theorem answersLoop_aligned (haligned : Aligned (answer :: answers))
    (howned : Owned message answer (owner answer))
    (hanswer : chunk = front ++ (answer.bytes ++ rest))
    (hname : dnsParseName chunk fuel front.length [] = some (dotted (owner answer))) :
    answersLoop fuel chunk (answers.length + 1) front.length =
      if answer.type = 5 then
        (dnsParseName chunk fuel (front.length + 12) []).bind fun _ ↦
          answersLoop fuel chunk answers.length (front ++ answer.bytes).length
      else if Listed answer then
        (answersLoop fuel chunk answers.length (front ++ answer.bytes).length).map
          (listedItem (owner answer) answer :: ·)
      else answersLoop fuel chunk answers.length (front ++ answer.bytes).length := by
  subst hanswer
  rw [answersLoop_answer answers.length hname howned.short]
  by_cases halias : answer.type = 5
  · rw [if_pos halias, if_pos halias]
  · rw [if_neg halias, if_neg halias]
    by_cases haddress : answer.type = 1
    · rw [if_pos haddress]
      by_cases hfour : answer.rdata.length = 4
      · rw [if_pos hfour, if_pos ⟨haddress, hfour⟩]
      · rw [if_neg hfour, if_neg fun hlisted ↦ hfour hlisted.2]
    · rw [if_neg haddress, if_neg fun hlisted ↦ haddress hlisted.1]
      cases answers with
      | nil => rfl
      | cons next answers =>
        have hempty : answer.rdata = [] :=
          (haligned.1.resolve_left haddress).resolve_left halias
        have hpos : (front ++ answer.bytes).length = front.length + 12 := by
          rw [List.length_append, answer.length_bytes, hempty]
          rfl
        rw [hpos]

/-- When the data of every CNAME can be read, the loop over aligned answers comes back with the
items. -/
theorem answersLoop_of_readable (hchunk : chunk = message ++ zeros)
    (hanswers : chunk = front ++ (answers.flatMap Answer.bytes ++ rest))
    (haligned : Aligned answers)
    (howned : ∀ answer ∈ answers, Owned message answer (owner answer))
    (haliases : AliasesReadable chunk front.length answers) :
    ∃ bound, ∀ fuel ≥ bound, answersLoop fuel chunk answers.length front.length =
      some (listedItems owner answers) := by
  induction answers generalizing front with
  | nil => exact ⟨0, fun fuel _ ↦ rfl⟩
  | cons answer answers ih =>
    have hfirst := howned answer List.mem_cons_self
    have hanswer : chunk =
        front ++ (answer.bytes ++ (answers.flatMap Answer.bytes ++ rest)) := by
      rw [hanswers, List.flatMap_cons, List.append_assoc]
    obtain ⟨halias, hothers⟩ := haliases
    rw [← List.length_append] at hothers
    obtain ⟨bound, hbound⟩ := ih (hanswer.trans (List.append_assoc _ _ _).symm) haligned.tail
      (fun other hother ↦ howned other (List.mem_cons_of_mem answer hother)) hothers
    by_cases htype : answer.type = 5
    · obtain ⟨enough, cname, hcname⟩ := readable_iff.mp (halias htype)
      refine ⟨max bound (max enough 130), fun fuel hfuel ↦ ?_⟩
      have henough : 129 < fuel := by omega
      have hname := dnsParseName_owner hfirst hchunk hanswer henough
      have hlisted : ¬ Listed answer := fun hlisted ↦
        absurd (htype.symm.trans hlisted.1) (by decide)
      rw [List.length_cons, answersLoop_aligned haligned hfirst hanswer hname,
        if_pos htype, dnsParseName_mono hcname (by omega), Option.bind_some,
        hbound fuel (by omega), listedItems_of_not_listed owner hlisted]
    · refine ⟨max bound 130, fun fuel hfuel ↦ ?_⟩
      have henough : 129 < fuel := by omega
      have hname := dnsParseName_owner hfirst hchunk hanswer henough
      rw [List.length_cons, answersLoop_aligned haligned hfirst hanswer hname,
        if_neg htype, hbound fuel (by omega)]
      split_ifs with hlisted
      · rw [listedItems_of_listed owner hlisted, Option.map_some]
      · rw [listedItems_of_not_listed owner hlisted]

/-- When the loop over aligned answers comes back, the data of every CNAME can be read. -/
theorem readable_of_answersLoop (hchunk : chunk = message ++ zeros)
    (hanswers : chunk = front ++ (answers.flatMap Answer.bytes ++ rest))
    (haligned : Aligned answers)
    (howned : ∀ answer ∈ answers, Owned message answer (owner answer))
    (hfuel : 129 < fuel) {list : List DnsItem}
    (hloop : answersLoop fuel chunk answers.length front.length = some list) :
    AliasesReadable chunk front.length answers := by
  induction answers generalizing front list with
  | nil => trivial
  | cons answer answers ih =>
    have hfirst := howned answer List.mem_cons_self
    have hanswer : chunk =
        front ++ (answer.bytes ++ (answers.flatMap Answer.bytes ++ rest)) := by
      rw [hanswers, List.flatMap_cons, List.append_assoc]
    have hname := dnsParseName_owner hfirst hchunk hanswer hfuel
    rw [List.length_cons, answersLoop_aligned haligned hfirst hanswer hname] at hloop
    obtain ⟨list, hothers⟩ : ∃ list, answersLoop fuel chunk answers.length
        (front ++ answer.bytes).length = some list := by
      split_ifs at hloop with htype hlisted
      · obtain ⟨cname, -, hrest⟩ := Option.bind_eq_some_iff.mp hloop
        exact ⟨list, hrest⟩
      · obtain ⟨list, hrest, -⟩ := Option.map_eq_some_iff.mp hloop
        exact ⟨list, hrest⟩
      · exact ⟨list, hloop⟩
    constructor
    · intro htype
      rw [if_pos htype] at hloop
      obtain ⟨cname, hcname, -⟩ := Option.bind_eq_some_iff.mp hloop
      exact readable_iff.mpr ⟨fuel, cname, hcname⟩
    · rw [← List.length_append]
      exact ih (hanswer.trans (List.append_assoc _ _ _).symm) haligned.tail
        (fun other hother ↦ howned other (List.mem_cons_of_mem answer hother)) hothers

end Loop

/-! ### Questions -/

theorem skipLabels_of_labels {labels : List (List UInt8)}
    (hlabels : ∀ label ∈ labels, Announceable label) (front rest : List UInt8) :
    skipLabels (front ++ (writeLabels labels ++ 0 :: rest)) front.length =
      some (front.length + (writeLabels labels).length + 1) := by
  induction labels generalizing front with
  | nil =>
    rw [skipLabels, dif_pos (by simp), if_pos (by simp)]
    rfl
  | cons label labels ih =>
    have hlabel := hlabels label List.mem_cons_self
    have hothers : ∀ other ∈ labels, Announceable other := fun other hother ↦
      hlabels other (List.mem_cons_of_mem label hother)
    have hbyte : (front ++ (writeLabels (label :: labels) ++ 0 :: rest)).getD front.length 0 =
        UInt8.ofNat label.length := by simp
    have hfront : front ++ (writeLabels (label :: labels) ++ 0 :: rest) =
        (front ++ UInt8.ofNat label.length :: label) ++ (writeLabels labels ++ 0 :: rest) := by
      simp
    have hpos : front.length + (label.length + 1) =
        (front ++ UInt8.ofNat label.length :: label).length := by simp
    rw [skipLabels, dif_pos (by simp), hbyte, if_neg (length_byte_ne_zero hlabel),
      toNat_length_byte hlabel, hpos, hfront, ih hothers, ← hpos, writeLabels_cons,
      List.length_cons, List.length_append]
    congr 1
    omega

theorem skipQuerys_of_questions (questions : List Question) (front rest : List UInt8) :
    skipQuerys (front ++ (questions.flatMap Question.bytes ++ rest)) questions.length
        front.length = some (front ++ questions.flatMap Question.bytes).length := by
  induction questions generalizing front with
  | nil => rw [List.flatMap_nil, List.append_nil]; rfl
  | cons question questions ih =>
    have hname := skipLabels_of_labels question.announceable front
      (bigEndian16 question.qtype ++ bigEndian16 question.qclass ++
        (questions.flatMap Question.bytes ++ rest))
    have hbytes : front ++ ((question :: questions).flatMap Question.bytes ++ rest) =
        front ++ (writeLabels question.labels ++ 0 :: (bigEndian16 question.qtype ++
          bigEndian16 question.qclass ++ (questions.flatMap Question.bytes ++ rest))) := by
      simp [Question.bytes]
    have hfront : front ++ ((question :: questions).flatMap Question.bytes ++ rest) =
        (front ++ question.bytes) ++ (questions.flatMap Question.bytes ++ rest) := by
      simp
    have hpos : front.length + (writeLabels question.labels).length + 1 + 4 =
        (front ++ question.bytes).length := by
      rw [List.length_append, question.length_bytes]
      omega
    rw [List.length_cons, skipQuerys, hbytes, hname, Option.bind_some, hpos, ← hbytes, hfront, ih,
      List.append_assoc, List.flatMap_cons]

/-! ### Whole responses -/

/-- The items for the internet addresses among some answers. -/
def addressItems (owner : Answer → List (List UInt8)) (answers : List Answer) : List DnsItem :=
  (answers.filter (·.IsAddress)).map fun answer ↦ ⟨dotted (owner answer), inetNtop answer.rdata⟩

theorem addressItems_of_not_address (owner : Answer → List (List UInt8)) {answer : Answer}
    (haddress : ¬ answer.IsAddress) (answers : List Answer) :
    addressItems owner (answer :: answers) = addressItems owner answers := by
  rw [addressItems, List.filter_cons_of_neg (by simpa using haddress)]
  rfl

theorem length_addressItems_le (owner : Answer → List (List UInt8)) (answers : List Answer) :
    (addressItems owner answers).length ≤ (listedItems owner answers).length := by
  rw [addressItems, listedItems, List.length_map, List.length_map]
  refine (List.monotone_filter_right answers fun answer haddress ↦ ?_).length_le
  have hfields : answer.IsAddress := of_decide_eq_true haddress
  exact decide_eq_true ⟨hfields.1, hfields.2.2⟩

/-- The parser lists exactly the internet addresses when the class of what it lists is IN and no
name of these holds a NUL. -/
theorem listedItems_eq_iff (owner : Answer → List (List UInt8)) (answers : List Answer) :
    listedItems owner answers = addressItems owner answers ↔
      ∀ answer ∈ answers, Listed answer → answer.rclass = 1 ∧ 0 ∉ dotted (owner answer) := by
  induction answers with
  | nil => exact ⟨fun _ answer hanswer ↦ absurd hanswer List.not_mem_nil, fun _ ↦ rfl⟩
  | cons answer answers ih =>
    rw [List.forall_mem_cons, ← ih]
    by_cases hlisted : Listed answer
    · rw [listedItems_of_listed owner hlisted]
      by_cases hclass : answer.rclass = 1
      · have haddress : answer.IsAddress := ⟨hlisted.1, hclass, hlisted.2⟩
        have hitems : addressItems owner (answer :: answers) =
            ⟨dotted (owner answer), inetNtop answer.rdata⟩ :: addressItems owner answers := by
          rw [addressItems, List.filter_cons_of_pos (by simpa using haddress)]
          rfl
        rw [hitems, List.cons.injEq, listedItem, DnsItem.mk.injEq, upToNul_eq_self_iff]
        constructor
        · rintro ⟨⟨hname, -⟩, hrest⟩
          exact ⟨fun _ ↦ ⟨hclass, hname⟩, hrest⟩
        · rintro ⟨hfirst, hrest⟩
          exact ⟨⟨(hfirst hlisted).2, rfl⟩, hrest⟩
      · rw [addressItems_of_not_address owner fun haddress ↦ hclass haddress.2.1]
        constructor
        · intro heq
          have hcount := congrArg List.length heq
          have hle := length_addressItems_le owner answers
          rw [List.length_cons] at hcount
          omega
        · rintro ⟨hfirst, -⟩
          exact absurd (hfirst hlisted).1 hclass
    · rw [listedItems_of_not_listed owner hlisted, addressItems_of_not_address owner
        fun haddress ↦ hlisted ⟨haddress.1, haddress.2.2⟩]
      exact ⟨fun hrest ↦ ⟨fun hfirst ↦ absurd hfirst hlisted, hrest⟩, fun hboth ↦ hboth.2⟩

/-- What the parser relies on, besides the alignment of the answers: the class of the addresses that
it lists is IN, their names hold no NUL, and the data of every CNAME can be read. -/
structure Plain (response : Response) (owner : Answer → List (List UInt8)) : Prop where
  listed : ∀ answer ∈ response.answers, Listed answer →
    answer.rclass = 1 ∧ 0 ∉ dotted (owner answer)
  aliases : AliasesReadable (buffered response.bytes)
    (12 + (response.questions.flatMap Question.bytes).length) response.answers

/-- The parser comes back with the number and the items of the internet addresses. -/
def ParsesAddresses (response : Response) (owner : Answer → List (List UInt8)) : Prop :=
  ∃ bound, ∀ fuel ≥ bound, dnsParseResponse fuel (buffered response.bytes) =
    some ((addressItems owner response.answers).length, addressItems owner response.answers)

theorem dnsParseResponse_eq (fuel : ℕ) {response : Response}
    (hlength : response.bytes.length ≤ 1024) :
    dnsParseResponse fuel (buffered response.bytes) =
      (answersLoop fuel (buffered response.bytes) response.answers.length
        (12 + (response.questions.flatMap Question.bytes).length)).map
          fun list ↦ (list.length, list) := by
  have hhead : response.head.bytes.length = 12 := rfl
  have htwelve : 12 ≤ (buffered response.bytes).length := by
    rw [buffered_of_length hlength, Response.bytes, List.length_append, List.length_append, hhead]
    omega
  have hskip := skipQuerys_of_questions response.questions response.head.bytes
    (response.answers.flatMap Answer.bytes ++ response.rest ++
      List.replicate (1024 - response.bytes.length) 0)
  have hbytes : buffered response.bytes = response.head.bytes ++
      (response.questions.flatMap Question.bytes ++ (response.answers.flatMap Answer.bytes ++
        response.rest ++ List.replicate (1024 - response.bytes.length) 0)) := by
    rw [buffered_of_length hlength, Response.bytes, List.append_assoc, List.append_assoc]
  rw [← hbytes, hhead, List.length_append, hhead] at hskip
  rw [dnsParseResponse, readWord, if_pos (by omega), Option.bind_some, readWord,
    if_pos (by omega), Option.bind_some, buffered_of_length hlength, response.question_count,
    response.answer_count, ← buffered_of_length hlength, hskip, Option.bind_some]

/-- For every response of at most 1024 bytes whose answers are owned by near names, and in which no
answer of a type other than A and CNAME that has data stands in front of another answer, the parser
comes back with exactly the internet addresses if and only if the response is plain. -/
theorem parses_addresses_iff {response : Response} {owner : Answer → List (List UInt8)}
    (hlength : response.bytes.length ≤ 1024)
    (howned : ∀ answer ∈ response.answers, Owned response.bytes answer (owner answer))
    (haligned : Aligned response.answers) :
    ParsesAddresses response owner ↔ Plain response owner := by
  have hhead : response.head.bytes.length = 12 := rfl
  have hchunk := buffered_of_length hlength
  have hbytes : buffered response.bytes = (response.head.bytes ++
      response.questions.flatMap Question.bytes) ++ (response.answers.flatMap Answer.bytes ++
        (response.rest ++ List.replicate (1024 - response.bytes.length) 0)) := by
    rw [buffered_of_length hlength, Response.bytes]
    simp only [List.append_assoc]
  have hfront : (response.head.bytes ++ response.questions.flatMap Question.bytes).length =
      12 + (response.questions.flatMap Question.bytes).length := by
    rw [List.length_append, hhead]
  constructor
  · rintro ⟨bound, hparses⟩
    obtain ⟨list, hloop, -⟩ := Option.map_eq_some_iff.mp
      ((dnsParseResponse_eq _ hlength).symm.trans (hparses (max bound 130) (le_max_left _ _)))
    rw [← hfront] at hloop
    have haliases := readable_of_answersLoop hchunk hbytes haligned howned
      (Nat.lt_of_lt_of_le (by decide) (le_max_right bound 130)) hloop
    obtain ⟨enough, henough⟩ := answersLoop_of_readable hchunk hbytes haligned howned haliases
    have hresult := hparses (max bound enough) (le_max_left _ _)
    rw [dnsParseResponse_eq _ hlength, ← hfront, henough _ (le_max_right _ _),
      Option.map_some, Option.some.injEq, Prod.mk.injEq] at hresult
    exact ⟨(listedItems_eq_iff owner response.answers).mp hresult.2, hfront ▸ haliases⟩
  · rintro ⟨hlisted, haliases⟩
    rw [← hfront] at haliases
    obtain ⟨bound, hbound⟩ := answersLoop_of_readable hchunk hbytes haligned howned haliases
    refine ⟨bound, fun fuel hfuel ↦ ?_⟩
    rw [dnsParseResponse_eq _ hlength, ← hfront, hbound fuel hfuel, Option.map_some,
      (listedItems_eq_iff owner response.answers).mpr hlisted]

/-- The question for `a`. -/
def sampleQuestion : Question := ⟨[[97]], 1, 1, by decide⟩

/-- An address, an alias and an answer of type AAAA, all for the name of the question. -/
def sampleAddress : Answer := ⟨12, 1, 1, 60, [1, 2, 3, 4], by decide, by decide⟩

@[inherit_doc sampleAddress]
def sampleAlias : Answer := ⟨12, 5, 1, 60, [192, 12], by decide, by decide⟩

@[inherit_doc sampleAddress]
def sampleOther : Answer := ⟨12, 28, 1, 60, List.replicate 16 0, by decide, by decide⟩

/-- The response with two answers. -/
def sampleResponse (first second : Answer) : Response :=
  ⟨7, 33152, [sampleQuestion], [first, second], 0, 0, [], by decide, by simp⟩

theorem owned_sample {message : List UInt8} {answer : Answer} (hoffset : answer.offset = 12)
    (hmessage : message.drop 12 = 1 :: 97 :: 0 :: message.drop 15) :
    Owned message answer [[97]] where
  near := by
    rw [hoffset]
    decide
  name := ⟨message.drop 15, by rw [hoffset, hmessage]; rfl⟩
  sized := by decide
  short := by decide

theorem parses_addresses_iff_sample :
    ParsesAddresses (sampleResponse sampleAlias sampleAddress) (fun _ ↦ [[97]]) := by
  have haligned : Aligned [sampleAlias, sampleAddress] := ⟨Or.inr (Or.inl rfl), trivial⟩
  refine (parses_addresses_iff (by decide +kernel) ?_ haligned).mpr ?_
  · intro answer hanswer
    have hoffset : ∀ answer ∈ [sampleAlias, sampleAddress], answer.offset = 12 := by
      simp [sampleAlias, sampleAddress]
    exact owned_sample (hoffset answer hanswer) (by decide +kernel)
  · constructor
    · have hclass : ∀ answer ∈ [sampleAlias, sampleAddress], answer.rclass = 1 := by
        simp [sampleAlias, sampleAddress]
      exact fun answer hanswer _ ↦ ⟨hclass answer hanswer, by decide⟩
    · exact ⟨fun _ ↦ readable_iff.mpr ⟨4, [97], by decide +kernel⟩,
        fun haddress ↦ absurd haddress (by decide), trivial⟩

theorem answersLoop_mono {fuel more : ℕ} {buffer : List UInt8} {answers ptr : ℕ}
    {list : List DnsItem} (hloop : answersLoop fuel buffer answers ptr = some list)
    (hmore : fuel ≤ more) : answersLoop more buffer answers ptr = some list := by
  induction answers generalizing ptr list with
  | zero => exact hloop
  | succ answers ih =>
    rw [answersLoop] at hloop ⊢
    obtain ⟨aname, haname, hloop⟩ := Option.bind_eq_some_iff.mp hloop
    obtain ⟨type, htype, hloop⟩ := Option.bind_eq_some_iff.mp hloop
    obtain ⟨ttl, httl, hloop⟩ := Option.bind_eq_some_iff.mp hloop
    obtain ⟨datalen, hdatalen, hloop⟩ := Option.bind_eq_some_iff.mp hloop
    rw [dnsParseName_mono haname hmore, Option.bind_some, htype, Option.bind_some, httl,
      Option.bind_some, hdatalen, Option.bind_some]
    split_ifs at hloop ⊢ with halias haddress hfour hend
    · obtain ⟨cname, hcname, hloop⟩ := Option.bind_eq_some_iff.mp hloop
      rw [dnsParseName_mono hcname hmore, Option.bind_some]
      exact ih hloop
    · obtain ⟨domain, hdomain, hloop⟩ := Option.bind_eq_some_iff.mp hloop
      obtain ⟨rest, hrest, hlist⟩ := Option.map_eq_some_iff.mp hloop
      rw [hdomain, Option.bind_some, ih hrest, Option.map_some, hlist]
    · exact ih hloop
    · exact ih hloop

/-- The failure: behind an answer of type AAAA the address is not found. -/
theorem other_type_misread :
    (sampleResponse sampleOther sampleAddress).bytes.length ≤ 1024 ∧
      (∀ answer ∈ (sampleResponse sampleOther sampleAddress).answers,
        Owned (sampleResponse sampleOther sampleAddress).bytes answer [[97]]) ∧
      answersLoop 4 (buffered (sampleResponse sampleOther sampleAddress).bytes) 2 19 = some [] ∧
      ¬ ParsesAddresses (sampleResponse sampleOther sampleAddress) (fun _ ↦ [[97]]) := by
  have hlength : (sampleResponse sampleOther sampleAddress).bytes.length ≤ 1024 := by
    decide +kernel
  have hloop : answersLoop 4 (buffered (sampleResponse sampleOther sampleAddress).bytes) 2 19 =
      some [] := by decide +kernel
  refine ⟨hlength, fun answer hanswer ↦ ?_, hloop, ?_⟩
  · have hoffset : ∀ answer ∈ [sampleOther, sampleAddress], answer.offset = 12 := by
      simp [sampleOther, sampleAddress]
    exact owned_sample (hoffset answer hanswer) (by decide +kernel)
  · rintro ⟨bound, hparses⟩
    have hresult := hparses (max bound 4) (le_max_left _ _)
    rw [dnsParseResponse_eq _ hlength] at hresult
    have hempty : answersLoop (max bound 4)
        (buffered (sampleResponse sampleOther sampleAddress).bytes)
        (sampleResponse sampleOther sampleAddress).answers.length
        (12 + ((sampleResponse sampleOther sampleAddress).questions.flatMap
          Question.bytes).length) = some [] :=
      answersLoop_mono hloop (le_max_right _ _)
    rw [hempty, Option.map_some, Option.some.injEq, Prod.mk.injEq] at hresult
    exact absurd hresult.1 (by decide +kernel)

end TestLinux.AsyncDns
