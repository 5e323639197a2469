import TestLinux.Library.Wire
import Mathlib.Data.Int.Order.Basic

/-!
# The DNS request of `test5/dnstest.cpp`

`encodeHostname` is `dns_queries::encode_hostname` with the index arithmetic of its loop and the
narrowing of the label length to a 32-bit `int`; `dnsBuildRequest` is `dns_build_request`;
`skipName` and `skipQuestions` are the loops of `print_dns_a_records` that skip the question
section. `decodeRequest` is the reader that the format prescribes, stated without looking at the
writer.

The loop of `encode_hostname` runs over the hostname by position; `encodeLoop_spec` says what it has
written when it returns zero: the dot-separated labels of what is left, each preceded by its
narrowed length, and the zero byte. From there the request is a header, a name and two words, which
`decodeRequest` takes apart again (`decodeRequest_of_labels`), and the skipping loop walks over the
name to the last byte (`skipQuestions_of_labels`).

The length of a label is narrowed to `int` before it is checked, so that a label of `2 ^ 32 + 1`
bytes passes as one of a single byte. `request_round_trip_iff` says that this is the only way in
which an accepted hostname fails to come back, and `oversized_label_not_recovered` is such a
hostname.
-/

set_option autoImplicit false
set_option relaxedAutoImplicit false

namespace TestLinux.Dns

open TestLinux.Wire

/-! ### The encoder -/

/-- The byte `'.'`. -/
def dot : UInt8 := 46

/-- `find_first_of('.', index)`, with the size of the hostname in place of `npos`. -/
def dotIndex (hostname : List UInt8) (index : ℕ) : ℕ :=
  match (hostname.drop index).findIdx? (· == dot) with
  | some offset => index + offset
  | none => hostname.length

theorem le_dotIndex {hostname : List UInt8} {index : ℕ} (hindex : index < hostname.length) :
    index ≤ dotIndex hostname index := by
  unfold dotIndex
  split
  · exact Nat.le_add_right _ _
  · exact Nat.le_of_lt hindex

/-- The loop of `encode_hostname` from position `index` on, with the bytes written so far: the
return value and the bytes written at the end. -/
def encodeLoop (hostname : List UInt8) (index : ℕ) (result : List UInt8) : ℤ × List UInt8 :=
  if hindex : index < hostname.length then
    let domainLen := toInt32 (dotIndex hostname index - index : ℕ)
    if domainLen ≥ 63 ∨ domainLen < 1 then (-1, result)
    else
      encodeLoop hostname (dotIndex hostname index + 1)
        (result ++ UInt8.ofNat domainLen.toNat ::
          (hostname.take (dotIndex hostname index)).drop index)
  else (0, result ++ [0])
termination_by hostname.length - index
decreasing_by
  have hdot := le_dotIndex hindex
  omega

/-- `dns_queries::encode_hostname`. An empty hostname leaves the previous `result` alone; every
other one clears it first. -/
def encodeHostname (hostname result : List UInt8) : ℤ × List UInt8 :=
  if hostname = [] then (-2, result) else encodeLoop hostname 0 []

/-- The six words of `dns_header`. -/
structure DnsHeader where
  id : UInt16
  flags : UInt16
  questions : UInt16
  answerRrs : UInt16
  authorityRrs : UInt16
  additionalRrs : UInt16
  deriving DecidableEq

/-- `dns_queries`. -/
structure DnsQueries where
  qname : List UInt8
  qtype : UInt16
  qclass : UInt16
  deriving DecidableEq

/-- The header as it stands in front of a message. -/
def DnsHeader.bytes (head : DnsHeader) : List UInt8 :=
  bigEndian16 head.id ++ bigEndian16 head.flags ++ bigEndian16 head.questions ++
    bigEndian16 head.answerRrs ++ bigEndian16 head.authorityRrs ++ bigEndian16 head.additionalRrs

/-- `dns_build_request`. -/
def dnsBuildRequest (head : DnsHeader) (qry : DnsQueries) : List UInt8 :=
  head.bytes ++ qry.qname ++ bigEndian16 qry.qtype ++ bigEndian16 qry.qclass

/-! ### The question-skipping loop of `print_dns_a_records` -/

/-- The inner loop: over the labels to the zero byte, or to the end of the message. -/
def skipName (response : List UInt8) (len pos : ℕ) : ℕ :=
  if pos < len ∧ response.getD pos 0 ≠ 0 then
    skipName response len (pos + ((response.getD pos 0).toNat + 1))
  else pos
termination_by len - pos

/-- The outer loop: each question is a name, its zero byte, a type and a class. -/
def skipQuestions (response : List UInt8) (len : ℕ) : (questionNum pos : ℕ) → ℕ
  | 0, pos => pos
  | questionNum + 1, pos =>
    skipQuestions response len questionNum (skipName response len pos + 1 + 4)

/-! ### The format -/

/-- A decoded request, with the bytes left over. -/
structure Request where
  head : DnsHeader
  labels : List (List UInt8)
  qtype : UInt16
  qclass : UInt16
  rest : List UInt8
  deriving DecidableEq

/-- Reads six words, labels up to the zero byte, and two words. -/
def decodeRequest (bytes : List UInt8) : Option Request := do
  let (id, bytes) ← readU16 bytes
  let (flags, bytes) ← readU16 bytes
  let (questions, bytes) ← readU16 bytes
  let (answerRrs, bytes) ← readU16 bytes
  let (authorityRrs, bytes) ← readU16 bytes
  let (additionalRrs, bytes) ← readU16 bytes
  let (labels, bytes) ← readLabels bytes
  let (qtype, bytes) ← readU16 bytes
  let (qclass, bytes) ← readU16 bytes
  return ⟨⟨id, flags, questions, answerRrs, authorityRrs, additionalRrs⟩, labels, qtype, qclass,
    bytes⟩

/-- A hostname without a single trailing dot. -/
def stripDot (hostname : List UInt8) : List UInt8 :=
  if hostname.getLast? = some dot then hostname.dropLast else hostname

/-- The dot-separated labels of a hostname, a single trailing dot ignored. -/
def labels (hostname : List UInt8) : List (List UInt8) := (stripDot hostname).splitOn dot

/-- The labels of what is left of a hostname behind a dot or at its end. -/
def labelsFrom (rest : List UInt8) : List (List UInt8) := if rest = [] then [] else labels rest

/-! ### What the encoder writes -/

/-- The first label of a non-empty rest, what the loop sees of it and what it leaves. -/
theorem exists_label {hostname : List UInt8} {index : ℕ} (hindex : index < hostname.length) :
    ∃ label, dot ∉ label ∧ dotIndex hostname index = index + label.length ∧
      (hostname.take (dotIndex hostname index)).drop index = label ∧
      (hostname.drop index = label ∧ hostname.drop (dotIndex hostname index + 1) = [] ∨
        hostname.drop index = label ++ dot :: hostname.drop (dotIndex hostname index + 1)) := by
  have hlength : (hostname.drop index).length = hostname.length - index := List.length_drop
  cases hfind : (hostname.drop index).findIdx? (· == dot) with
  | none =>
    have hdot : dotIndex hostname index = hostname.length := by simp [dotIndex, hfind]
    rw [List.findIdx?_eq_none_iff] at hfind
    refine ⟨hostname.drop index, fun hmem ↦ ?_, ?_, ?_, .inl ⟨rfl, ?_⟩⟩
    · exact absurd (hfind dot hmem) (by simp)
    · omega
    · rw [hdot, List.take_length]
    · rw [hdot]
      exact List.drop_of_length_le (Nat.le_succ _)
  | some offset =>
    have hdot : dotIndex hostname index = index + offset := by simp [dotIndex, hfind]
    obtain ⟨hoffset, hbyte, hbefore⟩ := List.findIdx?_eq_some_iff_getElem.mp hfind
    have hsplit : hostname.drop index =
        (hostname.drop index).take offset ++ dot :: (hostname.drop index).drop (offset + 1) := by
      rw [← beq_iff_eq.mp hbyte, ← List.drop_eq_getElem_cons hoffset, List.take_append_drop]
    refine ⟨(hostname.drop index).take offset, fun hmem ↦ ?_, ?_, ?_, .inr ?_⟩
    · obtain ⟨position, hposition, heq⟩ := List.mem_iff_getElem.mp hmem
      rw [List.length_take] at hposition
      rw [List.getElem_take] at heq
      exact hbefore position (by omega) (beq_iff_eq.mpr heq)
    · rw [hdot, List.length_take]
      omega
    · rw [hdot, List.drop_take]
      congr 1
      omega
    · rw [hdot, Nat.add_assoc, ← List.drop_drop]
      exact hsplit

/-- A trailing dot is stripped from what follows, if anything does. -/
theorem stripDot_append (front : List UInt8) {rest : List UInt8} (hrest : rest ≠ []) :
    stripDot (front ++ rest) = front ++ stripDot rest := by
  unfold stripDot
  rw [List.getLast?_append_of_ne_nil front hrest, List.dropLast_append_of_ne_nil hrest]
  split_ifs <;> rfl

theorem labelsFrom_of_last {label : List UInt8} (hlabel : dot ∉ label) (hne : label ≠ []) :
    labelsFrom label = [label] := by
  have hlast : label.getLast? ≠ some dot := fun hlast ↦ hlabel (List.mem_of_getLast? hlast)
  rw [labelsFrom, if_neg hne, labels, stripDot, if_neg hlast, List.splitOn_eq_singleton hlabel]

theorem labelsFrom_of_dot {label rest : List UInt8} (hlabel : dot ∉ label) :
    labelsFrom (label ++ dot :: rest) = label :: labelsFrom rest := by
  have hne : label ++ dot :: rest ≠ [] := by simp
  rw [labelsFrom, if_neg hne, labels]
  by_cases hrest : rest = []
  · subst hrest
    rw [stripDot, if_pos (by simp), List.dropLast_concat, List.splitOn_eq_singleton hlabel]
    rfl
  · rw [List.append_cons, stripDot_append _ hrest, ← List.append_cons,
      List.splitOn_append_cons_self_of_not_mem hlabel, labelsFrom, if_neg hrest, labels]

/-- A label whose narrowed length passes the check of the encoder. -/
def Accepted (label : List UInt8) : Prop :=
  1 ≤ toInt32 label.length ∧ toInt32 label.length < 63

/-- Labels as the encoder writes them, each preceded by its narrowed length. -/
def writtenLabels (labels : List (List UInt8)) : List UInt8 :=
  labels.flatMap fun label ↦ UInt8.ofNat (toInt32 label.length).toNat :: label

/-- What the loop has written when it returns zero: the labels of the rest of the hostname and the
zero byte. -/
theorem encodeLoop_spec {hostname result written : List UInt8} {index : ℕ}
    (hzero : encodeLoop hostname index result = (0, written)) :
    written = result ++ writtenLabels (labelsFrom (hostname.drop index)) ++ [0] ∧
      ∀ label ∈ labelsFrom (hostname.drop index), Accepted label := by
  induction index, result using encodeLoop.induct hostname with
  | case1 index result hindex domainLen hrejected =>
    rw [encodeLoop, dif_pos hindex, if_pos hrejected] at hzero
    cases hzero
  | case2 index result hindex domainLen haccepted ih =>
    rw [encodeLoop, dif_pos hindex, if_neg haccepted] at hzero
    obtain ⟨hwritten, hlabels⟩ := ih hzero
    obtain ⟨label, hlabel, hdot, hslice, hrest⟩ := exists_label hindex
    have hlength : domainLen = toInt32 label.length := by
      change toInt32 (dotIndex hostname index - index : ℕ) = _
      rw [hdot, Nat.add_sub_cancel_left]
    have hok : Accepted label := by
      rw [Accepted, ← hlength]
      omega
    have hfrom : labelsFrom (hostname.drop index) =
        label :: labelsFrom (hostname.drop (dotIndex hostname index + 1)) := by
      rcases hrest with ⟨hlast, hnil⟩ | hmore
      · have hne : label ≠ [] := by
          rintro rfl
          exact absurd hok.1 (by decide)
        rw [hlast, hnil, labelsFrom_of_last hlabel hne]
        rfl
      · rw [hmore, labelsFrom_of_dot hlabel]
    refine ⟨?_, ?_⟩
    · rw [hwritten, hfrom, hslice, hlength]
      simp [writtenLabels]
    · rw [hfrom]
      intro other hother
      rcases List.mem_cons.mp hother with rfl | hmem
      · exact hok
      · exact hlabels other hmem
  | case3 index result hindex =>
    rw [encodeLoop, dif_neg hindex] at hzero
    have hnil : hostname.drop index = [] := List.drop_of_length_le (Nat.le_of_not_lt hindex)
    rw [hnil]
    obtain rfl := (Prod.mk.inj hzero).2
    simp [labelsFrom, writtenLabels]

/-- What `encode_hostname` has written when it returns zero. -/
theorem encodeHostname_spec {hostname previous written : List UInt8}
    (hzero : encodeHostname hostname previous = (0, written)) :
    written = writtenLabels (labels hostname) ++ [0] ∧
      ∀ label ∈ labels hostname, Accepted label := by
  unfold encodeHostname at hzero
  split_ifs at hzero with hne
  · exact absurd (Prod.mk.inj hzero).1 (by decide)
  have hspec := encodeLoop_spec hzero
  rw [List.drop_zero, labelsFrom, if_neg hne, List.nil_append] at hspec
  exact hspec

/-! ### Reading the request back -/

theorem toInt32_eq_of_lt {value : ℕ} (hvalue : value < 2 ^ 32) (hpositive : 1 ≤ toInt32 value) :
    toInt32 value = value := by
  rw [toInt32_eq_ite] at hpositive ⊢
  split_ifs at hpositive ⊢ with hhalf <;> omega

theorem announceable_of_accepted {label : List UInt8} (haccepted : Accepted label)
    (hlength : label.length < 2 ^ 32) : Announceable label := by
  have heq := toInt32_eq_of_lt hlength haccepted.1
  rw [Accepted, heq] at haccepted
  exact ⟨by omega, by omega⟩

/-- Accepted labels below `2 ^ 32` bytes are written as the format prescribes. -/
theorem writtenLabels_eq_writeLabels {labels : List (List UInt8)}
    (haccepted : ∀ label ∈ labels, Accepted label)
    (hlength : ∀ label ∈ labels, label.length < 2 ^ 32) :
    writtenLabels labels = writeLabels labels := by
  unfold writtenLabels writeLabels
  refine List.flatMap_congr fun label hlabel ↦ ?_
  rw [toInt32_eq_of_lt (hlength label hlabel) (haccepted label hlabel).1, Int.toNat_natCast]

theorem decodeRequest_of_labels (head : DnsHeader) {labels : List (List UInt8)}
    (qtype qclass : UInt16) (hlabels : ∀ label ∈ labels, Announceable label) :
    decodeRequest (dnsBuildRequest head ⟨writeLabels labels ++ [0], qtype, qclass⟩) =
      some ⟨head, labels, qtype, qclass, []⟩ := by
  have hqclass := readU16_bigEndian16 qclass []
  rw [List.append_nil] at hqclass
  simp only [decodeRequest, dnsBuildRequest, DnsHeader.bytes, List.append_assoc,
    readU16_bigEndian16, List.cons_append, List.nil_append, readLabels_writeLabels hlabels, hqclass,
    Option.bind_eq_bind, Option.bind_some]
  rfl

theorem length_lt_of_decodeRequest {bytes : List UInt8} {request : Request}
    (hdecode : decodeRequest bytes = some request) :
    ∀ label ∈ request.labels, label.length < 256 := by
  simp only [decodeRequest, Option.bind_eq_bind, Option.bind_eq_some_iff] at hdecode
  obtain ⟨_, _, _, _, _, _, _, _, _, _, _, _, ⟨names, rest⟩, hnames, _, _, _, _, hrequest⟩ :=
    hdecode
  obtain rfl := Option.some.inj hrequest
  exact length_lt_of_readLabels hnames

/-- From the first byte of a name the skipping loop goes to its zero byte. -/
theorem skipName_of_labels {labels : List (List UInt8)}
    (hlabels : ∀ label ∈ labels, Announceable label) (front rest : List UInt8) (len : ℕ)
    (hlen : front.length + (writeLabels labels).length < len) :
    skipName (front ++ (writeLabels labels ++ 0 :: rest)) len front.length =
      front.length + (writeLabels labels).length := by
  induction labels generalizing front with
  | nil =>
    rw [skipName, if_neg (by simp)]
    rfl
  | cons label labels ih =>
    have hlabel := hlabels label List.mem_cons_self
    have hothers : ∀ other ∈ labels, Announceable other := fun other hother ↦
      hlabels other (List.mem_cons_of_mem label hother)
    have hbyte : (front ++ (writeLabels (label :: labels) ++ 0 :: rest)).getD front.length 0 =
        UInt8.ofNat label.length := by simp
    have hfront : front ++ (writeLabels (label :: labels) ++ 0 :: rest) =
        (front ++ UInt8.ofNat label.length :: label) ++ (writeLabels labels ++ 0 :: rest) := by
      simp
    have hpos : front.length + (label.length + 1) =
        (front ++ UInt8.ofNat label.length :: label).length := by simp
    have hcount : (writeLabels (label :: labels)).length =
        label.length + 1 + (writeLabels labels).length := by
      rw [writeLabels_cons, List.length_cons, List.length_append]
      omega
    rw [skipName, hbyte, if_pos ⟨by omega, length_byte_ne_zero hlabel⟩, toNat_length_byte hlabel,
      hpos, hfront, ih hothers _ (by omega), ← hpos, hcount]
    omega

/-- On a request with one question the skipping loops stop exactly at its end. -/
theorem skipQuestions_of_labels (head : DnsHeader) {labels : List (List UInt8)}
    (qtype qclass : UInt16) (hlabels : ∀ label ∈ labels, Announceable label) :
    skipQuestions (dnsBuildRequest head ⟨writeLabels labels ++ [0], qtype, qclass⟩)
        (dnsBuildRequest head ⟨writeLabels labels ++ [0], qtype, qclass⟩).length 1 12 =
      (dnsBuildRequest head ⟨writeLabels labels ++ [0], qtype, qclass⟩).length := by
  have hhead : head.bytes.length = 12 := rfl
  have hbytes : dnsBuildRequest head ⟨writeLabels labels ++ [0], qtype, qclass⟩ =
      head.bytes ++ (writeLabels labels ++ 0 :: (bigEndian16 qtype ++ bigEndian16 qclass)) := by
    simp [dnsBuildRequest]
  have hlength : (dnsBuildRequest head ⟨writeLabels labels ++ [0], qtype, qclass⟩).length =
      12 + (writeLabels labels).length + 5 := by
    rw [hbytes, List.length_append, List.length_append, List.length_cons, List.length_append,
      length_bigEndian16, length_bigEndian16, hhead]
    omega
  have hskip := skipName_of_labels hlabels head.bytes (bigEndian16 qtype ++ bigEndian16 qclass)
    (12 + (writeLabels labels).length + 5) (by omega)
  rw [hhead] at hskip
  rw [hlength, skipQuestions, skipQuestions, hbytes, hskip]

/-- For every accepted hostname, the request decodes to the header, the labels of the hostname, the
type and the class with nothing left over, and the question-skipping loop stops at its end, exactly
when no label has `2 ^ 32` bytes or more. -/
theorem request_round_trip_iff (head : DnsHeader) (qtype qclass : UInt16)
    {hostname previous qname : List UInt8}
    (haccepted : encodeHostname hostname previous = (0, qname)) :
    (decodeRequest (dnsBuildRequest head ⟨qname, qtype, qclass⟩) =
        some ⟨head, labels hostname, qtype, qclass, []⟩ ∧
      skipQuestions (dnsBuildRequest head ⟨qname, qtype, qclass⟩)
          (dnsBuildRequest head ⟨qname, qtype, qclass⟩).length 1 12 =
        (dnsBuildRequest head ⟨qname, qtype, qclass⟩).length) ↔
      ∀ label ∈ labels hostname, label.length < 2 ^ 32 := by
  obtain ⟨rfl, hlabels⟩ := encodeHostname_spec haccepted
  constructor
  · rintro ⟨hdecode, -⟩ label hlabel
    exact Nat.lt_trans (length_lt_of_decodeRequest hdecode label hlabel) (by decide)
  · intro hlength
    have hannounceable : ∀ label ∈ labels hostname, Announceable label := fun label hlabel ↦
      announceable_of_accepted (hlabels label hlabel) (hlength label hlabel)
    rw [writtenLabels_eq_writeLabels hlabels hlength]
    exact ⟨decodeRequest_of_labels head qtype qclass hannounceable,
      skipQuestions_of_labels head qtype qclass hannounceable⟩

/-- The hostname `a.bc.` and its encoding. -/
theorem encodeHostname_trailing_dot :
    encodeHostname [97, 46, 98, 99, 46] [] = (0, [1, 97, 2, 98, 99, 0]) := by decide +kernel

theorem request_round_trip_iff_trailing_dot :
    labels [97, 46, 98, 99, 46] = [[97], [98, 99]] ∧
      decodeRequest (dnsBuildRequest ⟨7, 256, 1, 0, 0, 0⟩ ⟨[1, 97, 2, 98, 99, 0], 1, 1⟩) =
        some ⟨⟨7, 256, 1, 0, 0, 0⟩, labels [97, 46, 98, 99, 46], 1, 1, []⟩ :=
  ⟨by decide, ((request_round_trip_iff _ _ _ encodeHostname_trailing_dot).mpr (by decide)).1⟩

/-- A hostname of one label is accepted by the narrowed length of that label. -/
theorem encodeHostname_of_label {label : List UInt8} (hdot : dot ∉ label)
    (haccepted : Accepted label) (previous : List UInt8) :
    encodeHostname label previous =
      (0, UInt8.ofNat (toInt32 label.length).toNat :: label ++ [0]) := by
  have hne : label ≠ [] := by
    rintro rfl
    exact absurd haccepted.1 (by decide)
  have hfind : label.findIdx? (· == dot) = none := by
    rw [List.findIdx?_eq_none_iff]
    intro byte hbyte
    exact beq_eq_false_iff_ne.mpr fun heq ↦ hdot (heq ▸ hbyte)
  have hend : dotIndex label 0 = label.length := by
    rw [dotIndex, List.drop_zero, hfind]
  have hcheck : ¬ (toInt32 (label.length - 0 : ℕ) ≥ 63 ∨ toInt32 (label.length - 0 : ℕ) < 1) := by
    rw [Nat.sub_zero]
    have hbounds := haccepted
    rw [Accepted] at hbounds
    omega
  rw [encodeHostname, if_neg hne, encodeLoop, dif_pos (List.length_pos_of_ne_nil hne), hend]
  simp only [if_neg hcheck]
  rw [encodeLoop, dif_neg (by omega), List.take_length, List.drop_zero, Nat.sub_zero,
    List.nil_append]

/-- A label of `2 ^ 32 + 1` bytes without a dot is accepted with length byte one, and no header,
type or class makes its request decode to the label. -/
theorem oversized_of_length {label : List UInt8} (hdot : dot ∉ label)
    (hlength : label.length = 2 ^ 32 + 1) :
    encodeHostname label [] = (0, 1 :: label ++ [0]) ∧
      ∀ head qtype qclass,
        decodeRequest (dnsBuildRequest head ⟨1 :: label ++ [0], qtype, qclass⟩) ≠
          some ⟨head, labels label, qtype, qclass, []⟩ := by
  have hnarrow : toInt32 label.length = 1 := by rw [hlength]; decide
  have hne : label ≠ [] := by
    rintro rfl
    exact absurd hlength (by decide)
  have haccepted : Accepted label := by
    rw [Accepted, hnarrow]
    decide
  have hencode := encodeHostname_of_label hdot haccepted []
  rw [hnarrow] at hencode
  refine ⟨hencode, fun head qtype qclass hdecode ↦ ?_⟩
  have hlabels := labelsFrom_of_last hdot hne
  rw [labelsFrom, if_neg hne] at hlabels
  have hbound := length_lt_of_decodeRequest hdecode label
    (hlabels ▸ List.mem_singleton_self label)
  omega

/-- The failure: a hostname of one label of `2 ^ 32 + 1` letters is accepted, its length byte is
one, and no header, type or class makes the request decode to the label. -/
theorem oversized_label_not_recovered :
    encodeHostname (List.replicate (2 ^ 32 + 1) 97) [] =
        (0, 1 :: List.replicate (2 ^ 32 + 1) 97 ++ [0]) ∧
      ∀ head qtype qclass, decodeRequest (dnsBuildRequest head
          ⟨1 :: List.replicate (2 ^ 32 + 1) 97 ++ [0], qtype, qclass⟩) ≠
        some ⟨head, labels (List.replicate (2 ^ 32 + 1) 97), qtype, qclass, []⟩ :=
  oversized_of_length
    (fun hmem ↦ absurd (List.eq_of_mem_replicate hmem) (by decide)) List.length_replicate

end TestLinux.Dns
