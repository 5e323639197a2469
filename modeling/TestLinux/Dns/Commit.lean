import TestLinux.Dns.Request

/-!
# The query that `dns_commit` sends

`dnsCommit` is `dns_commit` of `test5/dnstest.cpp` up to the response it hands to
`print_dns_a_records`. What it gets from outside is the `Environment`: the answers of the socket
calls, the random identifier, and what the two words of a new `dns_queries` hold before `create`
sets them, since the class does not initialise them.

`create` returns before it sets the type and the class when `encode_hostname` fails, and
`dns_commit` does not look at what `create` returns. A hostname with an empty or an overlong label
is therefore sent as the labels in front of that one, without the zero byte and with an arbitrary
type and class. `encodeHostname_eq_zero_iff` says which hostnames are encoded, and
`commit_asks_iff` that exactly those whose labels have 1 to 62 bytes are asked for.
-/

set_option autoImplicit false
set_option relaxedAutoImplicit false

namespace TestLinux.Dns

open TestLinux.Wire

/-! ### The commit -/

/-- `dns_queries::TYPE`. -/
inductive RecordType
  | a
  | ns
  | cname
  deriving DecidableEq

/-- The values of `dns_queries::TYPE`. -/
def RecordType.code : RecordType → UInt16
  | .a => 1
  | .ns => 2
  | .cname => 5

/-- `dns_header::create`, given the random identifier. -/
def DnsHeader.create (id flag quesNum : UInt16) : DnsHeader := ⟨id, flag, quesNum, 0, 0, 0⟩

/-- `dns_queries::create` on an object: its return value and the object. -/
def DnsQueries.create (hostname : List UInt8) (type : RecordType) (qclass : UInt16)
    (queries : DnsQueries) : ℤ × DnsQueries :=
  let (returned, qname) := encodeHostname hostname queries.qname
  if 0 ≠ returned then (-1, { queries with qname := qname })
  else (0, ⟨qname, type.code, qclass⟩)

/-- What `dns_commit` gets from outside. `qtype` and `qclass` are the words of a `dns_queries` that
has not been set; `response` is what `recv` delivers, empty when it fails. -/
structure Environment where
  socket : ℤ
  connect : ℤ
  id : UInt16
  qtype : UInt16
  qclass : UInt16
  sendNum : ℤ
  response : List UInt8

/-- What `dns_commit` does: its return value, the datagrams it passes to `send`, and the response it
passes to `print_dns_a_records`. -/
structure Commit where
  returned : ℤ
  sent : List (List UInt8)
  printed : Option (List UInt8)
  deriving DecidableEq

/-- `dns_commit`. -/
def dnsCommit (env : Environment) (hostname : List UInt8) : Commit :=
  if env.socket < 0 then ⟨-1, [], none⟩
  else if 0 ≠ env.connect then ⟨-4, [], none⟩
  else
    let dh := DnsHeader.create env.id 0x0100 1
    let dq := (DnsQueries.create hostname .a 1 ⟨[], env.qtype, env.qclass⟩).2
    let request := dnsBuildRequest dh dq
    if env.sendNum ≤ 0 then ⟨-2, [request], none⟩
    else if env.response.length = 0 then ⟨-3, [request], none⟩
    else ⟨0, [request], some env.response⟩

/-- `socket` and `connect` succeed. -/
def Environment.Connects (env : Environment) : Prop := 0 ≤ env.socket ∧ env.connect = 0
  deriving Decidable

/-- The datagram is one question for the labels of the hostname, of type A and class IN, and nothing
else. -/
def Asks (hostname datagram : List UInt8) : Prop :=
  ∃ request, decodeRequest datagram = some request ∧ request.head.questions = 1 ∧
    request.labels = labels hostname ∧ request.qtype = RecordType.a.code ∧ request.qclass = 1 ∧
    request.rest = []

theorem sent_of_not_connects {env : Environment} (henv : ¬ env.Connects)
    (hostname : List UInt8) : (dnsCommit env hostname).sent = [] := by
  unfold dnsCommit
  split_ifs with hsocket hconnect
  · rfl
  · rfl
  all_goals exact absurd ⟨Int.not_lt.mp hsocket, (not_not.mp hconnect).symm⟩ henv

theorem sent_of_connects {env : Environment} (henv : env.Connects) (hostname : List UInt8) :
    (dnsCommit env hostname).sent = [dnsBuildRequest (.create env.id 0x0100 1)
      (DnsQueries.create hostname .a 1 ⟨[], env.qtype, env.qclass⟩).2] := by
  unfold dnsCommit
  rw [if_neg (Int.not_lt.mpr henv.1), if_neg (not_not.mpr henv.2.symm)]
  dsimp only
  split_ifs <;> rfl

/-! ### Accepted hostnames -/

/-- The loop returns zero as soon as all labels of the rest are accepted. -/
theorem encodeLoop_eq_zero {hostname result : List UInt8} {index : ℕ}
    (hlabels : ∀ label ∈ labelsFrom (hostname.drop index), Accepted label) :
    ∃ written, encodeLoop hostname index result = (0, written) := by
  induction index, result using encodeLoop.induct hostname with
  | case1 index result hindex domainLen hrejected =>
    obtain ⟨label, hlabel, hdot, -, hrest⟩ := exists_label hindex
    have hlength : domainLen = toInt32 label.length := by
      change toInt32 (dotIndex hostname index - index : ℕ) = _
      rw [hdot, Nat.add_sub_cancel_left]
    have hmem : label ∈ labelsFrom (hostname.drop index) := by
      rcases hrest with ⟨hlast, -⟩ | hmore
      · have hne : label ≠ [] := by
          rw [← hlast]
          exact List.drop_eq_nil_iff.not.mpr (Nat.not_le.mpr hindex)
        rw [hlast, labelsFrom_of_last hlabel hne]
        exact List.mem_cons_self
      · rw [hmore, labelsFrom_of_dot hlabel]
        exact List.mem_cons_self
    obtain ⟨hlower, hupper⟩ := hlabels label hmem
    rw [← hlength] at hlower hupper
    rcases hrejected with hlong | hempty
    · exact absurd hupper (Int.not_lt.mpr hlong)
    · exact absurd hlower (Int.not_le.mpr hempty)
  | case2 index result hindex domainLen haccepted ih =>
    rw [encodeLoop, dif_pos hindex, if_neg haccepted]
    apply ih
    intro other hother
    obtain ⟨label, hlabel, -, -, hrest⟩ := exists_label hindex
    apply hlabels
    rcases hrest with ⟨-, hnil⟩ | hmore
    · rw [hnil] at hother
      exact absurd hother List.not_mem_nil
    · rw [hmore, labelsFrom_of_dot hlabel]
      exact List.mem_cons_of_mem label hother
  | case3 index result hindex =>
    refine ⟨result ++ [0], ?_⟩
    rw [encodeLoop, dif_neg hindex]

/-- The labels of an empty hostname are one empty label. -/
theorem labels_nil : labels [] = [[]] := by decide

/-- `encode_hostname` accepts the hostnames all of whose labels pass its check. -/
theorem encodeHostname_eq_zero_iff (hostname previous : List UInt8) :
    (encodeHostname hostname previous).1 = 0 ↔ ∀ label ∈ labels hostname, Accepted label := by
  constructor
  · intro hzero
    exact (encodeHostname_spec (Prod.ext hzero rfl)).2
  · intro hlabels
    have hne : hostname ≠ [] := by
      rintro rfl
      have hempty := hlabels [] (by rw [labels_nil]; exact List.mem_cons_self)
      exact absurd hempty.1 (by decide)
    obtain ⟨written, hwritten⟩ : ∃ written, encodeLoop hostname 0 [] = (0, written) := by
      apply encodeLoop_eq_zero
      rw [List.drop_zero, labelsFrom, if_neg hne]
      exact hlabels
    rw [encodeHostname, if_neg hne, hwritten]

/-- A label of 1 to 62 bytes. -/
def Sized (label : List UInt8) : Prop := 1 ≤ label.length ∧ label.length < 63
  deriving Decidable

theorem Sized.accepted {label : List UInt8} (hlabel : Sized label) : Accepted label := by
  obtain ⟨hlower, hupper⟩ := hlabel
  rw [Accepted, toInt32_of_lt (by omega) (by omega)]
  omega

theorem sized_of_accepted {label : List UInt8} (haccepted : Accepted label)
    (hlength : label.length < 2 ^ 32) : Sized label := by
  rw [Accepted, toInt32_eq_of_lt hlength haccepted.1] at haccepted
  rw [Sized]
  omega

/-! ### What is sent -/

theorem create_of_eq_zero {hostname : List UInt8} (type : RecordType) (qclass : UInt16)
    {queries : DnsQueries} (hzero : (encodeHostname hostname queries.qname).1 = 0) :
    DnsQueries.create hostname type qclass queries =
      (0, ⟨writtenLabels (labels hostname) ++ [0], type.code, qclass⟩) := by
  obtain ⟨written, hwritten⟩ : ∃ written, encodeHostname hostname queries.qname = (0, written) :=
    ⟨_, Prod.ext hzero rfl⟩
  simp only [DnsQueries.create, hwritten, ne_eq, not_true_eq_false, if_false]
  rw [(encodeHostname_spec hwritten).1]

/-- A hostname with labels of 1 to 62 bytes is asked for. -/
theorem asks_of_sized {env : Environment} {hostname datagram : List UInt8}
    (hlabels : ∀ label ∈ labels hostname, Sized label)
    (hsent : datagram ∈ (dnsCommit env hostname).sent) : Asks hostname datagram := by
  have haccepted : ∀ label ∈ labels hostname, Accepted label := fun label hlabel ↦
    (hlabels label hlabel).accepted
  have hlength : ∀ label ∈ labels hostname, label.length < 2 ^ 32 := fun label hlabel ↦
    Nat.lt_trans (hlabels label hlabel).2 (by decide)
  by_cases henv : env.Connects
  · have hzero := (encodeHostname_eq_zero_iff hostname []).mpr haccepted
    have hcreate := create_of_eq_zero .a 1 (show (encodeHostname hostname
      (⟨[], env.qtype, env.qclass⟩ : DnsQueries).qname).1 = 0 from hzero)
    rw [sent_of_connects henv, List.mem_singleton, hcreate,
      writtenLabels_eq_writeLabels haccepted hlength] at hsent
    refine ⟨⟨.create env.id 0x0100 1, labels hostname, RecordType.a.code, 1, []⟩, ?_, rfl, rfl,
      rfl, rfl, rfl⟩
    rw [hsent]
    exact decodeRequest_of_labels _ _ _ fun label hlabel ↦
      announceable_of_accepted (haccepted label hlabel) (hlength label hlabel)
  · rw [sent_of_not_connects henv] at hsent
    exact absurd hsent List.not_mem_nil

theorem length_lt_of_asks {hostname datagram : List UInt8} (hasks : Asks hostname datagram) :
    ∀ label ∈ labels hostname, label.length < 2 ^ 32 := by
  obtain ⟨request, hdecode, -, hlabels, -⟩ := hasks
  intro label hlabel
  rw [← hlabels] at hlabel
  exact Nat.lt_trans (length_lt_of_decodeRequest hdecode label hlabel) (by decide)

/-- Every datagram that is sent asks for the labels of the hostname, and nothing is sent for a
hostname that the encoder rejects, exactly when nothing can be sent at all or every label of the
hostname has 1 to 62 bytes. -/
theorem commit_asks_iff (env : Environment) (hostname : List UInt8) :
    ((∀ datagram ∈ (dnsCommit env hostname).sent, Asks hostname datagram) ∧
      ((encodeHostname hostname []).1 ≠ 0 → (dnsCommit env hostname).sent = [])) ↔
      ¬ env.Connects ∨ ∀ label ∈ labels hostname, Sized label := by
  constructor
  · rintro ⟨hasks, hnothing⟩
    by_cases henv : env.Connects
    · right
      have hsent := sent_of_connects henv hostname
      have hzero : (encodeHostname hostname []).1 = 0 := by
        by_contra hrejected
        rw [hnothing hrejected] at hsent
        exact absurd hsent (List.cons_ne_nil _ _).symm
      have hlength := length_lt_of_asks
        (hasks _ (by rw [hsent]; exact List.mem_singleton_self _))
      intro label hlabel
      exact sized_of_accepted ((encodeHostname_eq_zero_iff hostname []).mp hzero label hlabel)
        (hlength label hlabel)
    · exact Or.inl henv
  · intro hcondition
    constructor
    · intro datagram hsent
      rcases hcondition with henv | hlabels
      · rw [sent_of_not_connects henv] at hsent
        exact absurd hsent List.not_mem_nil
      · exact asks_of_sized hlabels hsent
    · intro hrejected
      rcases hcondition with henv | hlabels
      · exact sent_of_not_connects henv hostname
      · exact absurd ((encodeHostname_eq_zero_iff hostname []).mpr fun label hlabel ↦
          (hlabels label hlabel).accepted) hrejected

/-- A socket that connects, with zeros in the words that are not set. -/
def plainEnvironment : Environment := ⟨3, 0, 7, 0, 0, 18, []⟩

/-- The failure: the hostname `a..b` is rejected, and a datagram that ends in the middle of the
question is sent. -/
theorem rejected_hostname_sent :
    (encodeHostname [97, 46, 46, 98] []).1 = -1 ∧
      (dnsCommit plainEnvironment [97, 46, 46, 98]).sent =
        [[0, 7, 1, 0, 0, 1, 0, 0, 0, 0, 0, 0, 1, 97, 0, 0, 0, 0]] ∧
      ¬ ((∀ datagram ∈ (dnsCommit plainEnvironment [97, 46, 46, 98]).sent,
            Asks [97, 46, 46, 98] datagram) ∧
          ((encodeHostname [97, 46, 46, 98] []).1 ≠ 0 →
            (dnsCommit plainEnvironment [97, 46, 46, 98]).sent = [])) := by
  have hcode : (encodeHostname [97, 46, 46, 98] []).1 = -1 := by decide +kernel
  have hsent : (dnsCommit plainEnvironment [97, 46, 46, 98]).sent =
      [[0, 7, 1, 0, 0, 1, 0, 0, 0, 0, 0, 0, 1, 97, 0, 0, 0, 0]] := by decide +kernel
  refine ⟨hcode, hsent, ?_⟩
  rintro ⟨-, hnothing⟩
  rw [hsent] at hnothing
  exact absurd (hnothing (by rw [hcode]; decide)) (List.cons_ne_nil _ _)

end TestLinux.Dns
