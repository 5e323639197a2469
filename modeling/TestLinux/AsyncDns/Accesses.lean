import TestLinux.AsyncDns.NameAccesses

/-!
# The memory that `dns_parse_response` touches

`ParseAccess` are the bytes of the buffer that `dns_parse_response` reads, in its loop over the
questions (`QuerysAccess`), in its loop over the answers (`AnswersAccess`) and in the names of
these, and the bytes of `aname` and `cname` that it writes. The length of the datagram is not known
to the parser, and it checks nothing: as in `NameAccesses`, it is followed beyond the buffer, where
all bytes are zero.

The parser of `Response`, which has no result where it would leave its memory, is the same parser:
where it has a result, no access is out of memory (`within_of_dnsParseResponse`).

`Contained` lists the buffers that the parser stays in. The names of the questions end in the
buffer, and each answer that the parser comes to has its twelve bytes in the buffer behind a name
that it can read, and so have its data. `staysInBuffers_iff` says that these are all.
-/

set_option autoImplicit false
set_option relaxedAutoImplicit false

namespace TestLinux.AsyncDns

open TestLinux.Wire TestLinux.Dns StateTransition Relation

/-! ### The parser -/

/-- One round of the loop over the labels of a question. -/
def labelRound (buffer : List UInt8) (ptr : ℕ) : Option ℕ :=
  let flag := byteAt buffer ptr
  if flag = 0 then none else some (ptr + (flag.toNat + 1))

theorem labelRound_of_getElem? {buffer : List UInt8} {ptr : ℕ} {flag : UInt8}
    (hflag : buffer[ptr]? = some flag) (hzero : flag ≠ 0) :
    labelRound buffer ptr = some (ptr + (flag.toNat + 1)) := by
  simp only [labelRound, byteAt_of_getElem? hflag, if_neg hzero]

/-- An access of the loop over the answers. -/
def AnswersAccess (buffer : List UInt8) : (answers ptr : ℕ) → Access → Prop
  | 0, _, _ => False
  | answers + 1, ptr, access =>
    NameAccess buffer ptr access ∨
      Returns buffer ptr ∧
        (access ∈ reads (ptr + 2) 2 ∨ access ∈ reads (ptr + 6) 2 ∨ access ∈ reads (ptr + 10) 2 ∨
          let type := wordAt buffer (ptr + 2)
          let datalen := wordAt buffer (ptr + 10)
          if type = 5 then
            NameAccess buffer (ptr + 12) access ∨
              Returns buffer (ptr + 12) ∧
                AnswersAccess buffer answers (ptr + 12 + datalen) access
          else if type = 1 then
            datalen = 4 ∧ access ∈ reads (ptr + 12) 4 ∨
              AnswersAccess buffer answers (ptr + 12 + datalen) access
          else AnswersAccess buffer answers (ptr + 12) access)

/-- An access of the loop over the questions, or of the loop over the answers behind it. -/
def QuerysAccess (buffer : List UInt8) (answers : ℕ) : (querys ptr : ℕ) → Access → Prop
  | 0, ptr, access => AnswersAccess buffer answers ptr access
  | querys + 1, ptr, access =>
    (∃ reached, Reaches (labelRound buffer) ptr reached ∧ access = .read reached) ∨
      ∃ last ∈ eval (labelRound buffer) ptr,
        QuerysAccess buffer answers querys (last + 1 + 4) access

/-- An access of `dns_parse_response`. -/
def ParseAccess (buffer : List UInt8) (access : Access) : Prop :=
  access ∈ reads 4 2 ∨ access ∈ reads 6 2 ∨
    QuerysAccess buffer (wordAt buffer 6) (wordAt buffer 4) 12 access

/-- `dns_parse_response` reads nothing outside the buffer, and it leaves the last byte of `aname`
and `cname` alone. -/
def StaysInBuffers (buffer : List UInt8) : Prop :=
  ∀ access, ParseAccess buffer access → access.InRange

/-! ### Buffers that the parser stays in -/

/-- A name of a question, up to the zero byte at its end. -/
inductive LabelsEnd (buffer : List UInt8) (last : ℕ) : ℕ → Prop
  | ended (hflag : buffer[last]? = some 0) : LabelsEnd buffer last last
  | label (ptr : ℕ) (flag : UInt8) (hflag : buffer[ptr]? = some flag) (hzero : flag ≠ 0)
      (hrest : LabelsEnd buffer last (ptr + (flag.toNat + 1))) : LabelsEnd buffer last ptr

/-- The answers that the parser comes to. It moves on over the data of an alias or an address only,
and it stays at a name that leads in a circle. -/
inductive AnswersFit (buffer : List UInt8) : (answers ptr : ℕ) → Prop
  | none (ptr : ℕ) : AnswersFit buffer 0 ptr
  | circle (answers ptr : ℕ) (howner : Circles buffer ptr) : AnswersFit buffer (answers + 1) ptr
  | cnameCircle (answers ptr : ℕ) (howner : ShortName buffer ptr) (hheader : ptr + 12 ≤ 1024)
      (htype : wordAt buffer (ptr + 2) = 5) (hdata : Circles buffer (ptr + 12)) :
      AnswersFit buffer (answers + 1) ptr
  | cname (answers ptr : ℕ) (howner : ShortName buffer ptr) (hheader : ptr + 12 ≤ 1024)
      (htype : wordAt buffer (ptr + 2) = 5) (hdata : ShortName buffer (ptr + 12))
      (hrest : AnswersFit buffer answers (ptr + 12 + wordAt buffer (ptr + 10))) :
      AnswersFit buffer (answers + 1) ptr
  | host (answers ptr : ℕ) (howner : ShortName buffer ptr) (hheader : ptr + 12 ≤ 1024)
      (htype : wordAt buffer (ptr + 2) = 1)
      (hdata : wordAt buffer (ptr + 10) = 4 → ptr + 16 ≤ 1024)
      (hrest : AnswersFit buffer answers (ptr + 12 + wordAt buffer (ptr + 10))) :
      AnswersFit buffer (answers + 1) ptr
  | other (answers ptr : ℕ) (howner : ShortName buffer ptr) (hheader : ptr + 12 ≤ 1024)
      (hcname : wordAt buffer (ptr + 2) ≠ 5) (hhost : wordAt buffer (ptr + 2) ≠ 1)
      (hrest : AnswersFit buffer answers (ptr + 12)) : AnswersFit buffer (answers + 1) ptr

/-- The questions, and the answers behind them. -/
inductive QuerysFit (buffer : List UInt8) (answers : ℕ) : (querys ptr : ℕ) → Prop
  | none (ptr : ℕ) (hanswers : AnswersFit buffer answers ptr) : QuerysFit buffer answers 0 ptr
  | question (querys ptr last : ℕ) (hname : LabelsEnd buffer last ptr)
      (hrest : QuerysFit buffer answers querys (last + 5)) :
      QuerysFit buffer answers (querys + 1) ptr

/-- A buffer that the parser stays in. -/
def Contained (buffer : List UInt8) : Prop :=
  QuerysFit buffer (wordAt buffer 6) (wordAt buffer 4) 12

/-! ### The bounded parser -/

section Bounded

variable {buffer : List UInt8} {fuel : ℕ}

/-- The loop over the labels ends at the zero byte and reads nothing behind the buffer. -/
theorem LabelsEnd.spec {ptr last : ℕ} (hend : LabelsEnd buffer last ptr) :
    last ∈ eval (labelRound buffer) ptr ∧
      ∀ reached, Reaches (labelRound buffer) ptr reached → reached < buffer.length := by
  induction hend with
  | ended hflag =>
    obtain ⟨hinside, -⟩ := List.getElem?_eq_some_iff.mp hflag
    have hround : labelRound buffer last = none := by
      simp only [labelRound, byteAt_of_getElem? hflag, if_true]
    have hmem : last ∈ eval (labelRound buffer) last :=
      mem_eval.mpr ⟨ReflTransGen.refl, hround⟩
    refine ⟨hmem, fun reached hreaches ↦ ?_⟩
    rw [(eval_maximal hmem).mp hreaches]
    exact hinside
  | label ptr flag hflag hzero hrest ih =>
    obtain ⟨hinside, -⟩ := List.getElem?_eq_some_iff.mp hflag
    have hround := labelRound_of_getElem? hflag hzero
    refine ⟨?_, fun reached hreaches ↦ ?_⟩
    · rw [reaches_eval (ReflTransGen.single hround)]
      exact ih.1
    · rcases ReflTransGen.cases_head hreaches with rfl | ⟨second, hsecond, hlater⟩
      · exact hinside
      · rw [Option.mem_def, hround, Option.some.injEq] at hsecond
        subst hsecond
        exact ih.2 reached hlater

theorem labelsEnd_of_skipLabels {ptr stop : ℕ} (hskip : skipLabels buffer ptr = some stop) :
    ∃ last, LabelsEnd buffer last ptr ∧ stop = last + 1 := by
  fun_induction skipLabels buffer ptr with
  | case1 ptr hptr hzero =>
    have hflag : buffer[ptr]? = some 0 := hzero ▸ getElem?_eq_byteAt hptr
    exact ⟨ptr, .ended hflag, (Option.some.inj hskip).symm⟩
  | case2 ptr hptr hzero ih =>
    obtain ⟨last, hlast, hstop⟩ := ih hskip
    exact ⟨last, .label ptr _ (getElem?_eq_byteAt hptr) hzero hlast, hstop⟩
  | case3 ptr hptr => cases hskip

theorem readWord_eq_some_iff {ptr word : ℕ} :
    readWord buffer ptr = some word ↔ ptr + 2 ≤ buffer.length ∧ wordAt buffer ptr = word := by
  rw [readWord]
  split_ifs with hinside
  · simp [hinside]
  · simp [hinside]

theorem within_of_answersLoop {answers ptr : ℕ} {list : List DnsItem}
    (hloop : answersLoop fuel buffer answers ptr = some list) :
    ∀ access, AnswersAccess buffer answers ptr access → access.Within buffer.length 128 := by
  induction answers generalizing ptr list with
  | zero => exact fun _ haccess ↦ haccess.elim
  | succ answers ih =>
    rw [answersLoop] at hloop
    obtain ⟨aname, haname, hloop⟩ := Option.bind_eq_some_iff.mp hloop
    obtain ⟨_, htype, hloop⟩ := Option.bind_eq_some_iff.mp hloop
    obtain ⟨_, httl, hloop⟩ := Option.bind_eq_some_iff.mp hloop
    obtain ⟨_, hdatalen, hloop⟩ := Option.bind_eq_some_iff.mp hloop
    obtain ⟨htypeEnd, rfl⟩ := readWord_eq_some_iff.mp htype
    obtain ⟨httlEnd, rfl⟩ := readWord_eq_some_iff.mp httl
    obtain ⟨hdatalenEnd, rfl⟩ := readWord_eq_some_iff.mp hdatalen
    rintro access (howner | ⟨-, hword | hword | hword | hdata⟩)
    · exact within_of_dnsParseName haname access howner
    · exact (reads_within_iff (by decide)).mpr htypeEnd access hword
    · exact (reads_within_iff (by decide)).mpr httlEnd access hword
    · exact (reads_within_iff (by decide)).mpr hdatalenEnd access hword
    · dsimp only at hdata
      split_ifs at hloop hdata with hcname hhost hfour hend
      · obtain ⟨cname, hcname, hloop⟩ := Option.bind_eq_some_iff.mp hloop
        rcases hdata with hdata | ⟨-, hrest⟩
        · exact within_of_dnsParseName hcname access hdata
        · exact ih hloop access hrest
      · obtain ⟨domain, -, hloop⟩ := Option.bind_eq_some_iff.mp hloop
        obtain ⟨rest, hloop, -⟩ := Option.map_eq_some_iff.mp hloop
        rcases hdata with ⟨-, hdata⟩ | hrest
        · exact (reads_within_iff (by decide)).mpr (Nat.not_lt.mp hend) access hdata
        · exact ih hloop access hrest
      · rcases hdata with ⟨hlength, -⟩ | hrest
        · exact absurd hlength hfour
        · exact ih hloop access hrest
      · exact ih hloop access hdata

theorem within_of_skipQuerys {answers querys ptr stop : ℕ} {list : List DnsItem}
    (hskip : skipQuerys buffer querys ptr = some stop)
    (hloop : answersLoop fuel buffer answers stop = some list) :
    ∀ access, QuerysAccess buffer answers querys ptr access →
      access.Within buffer.length 128 := by
  induction querys generalizing ptr with
  | zero =>
    obtain rfl := Option.some.inj hskip
    exact within_of_answersLoop hloop
  | succ querys ih =>
    rw [skipQuerys] at hskip
    obtain ⟨middle, hlabels, hskip⟩ := Option.bind_eq_some_iff.mp hskip
    obtain ⟨last, hname, rfl⟩ := labelsEnd_of_skipLabels hlabels
    obtain ⟨hlast, hinside⟩ := hname.spec
    rintro access (⟨reached, hreaches, rfl⟩ | ⟨other, hother, haccess⟩)
    · exact hinside reached hreaches
    · obtain rfl := Part.mem_unique hlast hother
      exact ih hskip access haccess

/-- Where `dnsParseResponse` has a result, the parser stays in the buffer and in the arrays. -/
theorem within_of_dnsParseResponse {result : ℕ × List DnsItem}
    (hparse : dnsParseResponse fuel buffer = some result) :
    ∀ access, ParseAccess buffer access → access.Within buffer.length 128 := by
  obtain ⟨_, hquerys, hparse⟩ := Option.bind_eq_some_iff.mp hparse
  obtain ⟨_, hanswers, hparse⟩ := Option.bind_eq_some_iff.mp hparse
  obtain ⟨hquerysEnd, rfl⟩ := readWord_eq_some_iff.mp hquerys
  obtain ⟨hanswersEnd, rfl⟩ := readWord_eq_some_iff.mp hanswers
  obtain ⟨ptr, hskip, hparse⟩ := Option.bind_eq_some_iff.mp hparse
  obtain ⟨list, hloop, -⟩ := Option.map_eq_some_iff.mp hparse
  rintro access (hword | hword | haccess)
  · exact (reads_within_iff (by decide)).mpr hquerysEnd access hword
  · exact (reads_within_iff (by decide)).mpr hanswersEnd access hword
  · exact within_of_skipQuerys hskip hloop access haccess

end Bounded

/-! ### Answers -/

section Types

variable {buffer : List UInt8} {answers ptr : ℕ}

theorem answersFit_cname_iff (htype : wordAt buffer (ptr + 2) = 5) :
    AnswersFit buffer (answers + 1) ptr ↔
      Circles buffer ptr ∨ ShortName buffer ptr ∧ ptr + 12 ≤ 1024 ∧
        (Circles buffer (ptr + 12) ∨ ShortName buffer (ptr + 12) ∧
          AnswersFit buffer answers (ptr + 12 + wordAt buffer (ptr + 10))) := by
  constructor
  · intro hfit
    cases hfit with
    | circle _ _ howner => exact Or.inl howner
    | cnameCircle _ _ howner hheader _ hdata => exact Or.inr ⟨howner, hheader, Or.inl hdata⟩
    | cname _ _ howner hheader _ hdata hrest =>
      exact Or.inr ⟨howner, hheader, Or.inr ⟨hdata, hrest⟩⟩
    | host _ _ _ _ hhost => exact absurd (htype.symm.trans hhost) (by decide)
    | other _ _ _ _ hcname => exact absurd htype hcname
  · rintro (howner | ⟨howner, hheader, hdata | ⟨hdata, hrest⟩⟩)
    · exact .circle answers ptr howner
    · exact .cnameCircle answers ptr howner hheader htype hdata
    · exact .cname answers ptr howner hheader htype hdata hrest

theorem answersFit_host_iff (htype : wordAt buffer (ptr + 2) = 1) :
    AnswersFit buffer (answers + 1) ptr ↔
      Circles buffer ptr ∨ ShortName buffer ptr ∧ ptr + 12 ≤ 1024 ∧
        (wordAt buffer (ptr + 10) = 4 → ptr + 16 ≤ 1024) ∧
          AnswersFit buffer answers (ptr + 12 + wordAt buffer (ptr + 10)) := by
  constructor
  · intro hfit
    cases hfit with
    | circle _ _ howner => exact Or.inl howner
    | cnameCircle _ _ _ _ hcname => exact absurd (htype.symm.trans hcname) (by decide)
    | cname _ _ _ _ hcname => exact absurd (htype.symm.trans hcname) (by decide)
    | host _ _ howner hheader _ hdata hrest => exact Or.inr ⟨howner, hheader, hdata, hrest⟩
    | other _ _ _ _ _ hhost => exact absurd htype hhost
  · rintro (howner | ⟨howner, hheader, hdata, hrest⟩)
    · exact .circle answers ptr howner
    · exact .host answers ptr howner hheader htype hdata hrest

theorem answersFit_other_iff (hcname : wordAt buffer (ptr + 2) ≠ 5)
    (hhost : wordAt buffer (ptr + 2) ≠ 1) :
    AnswersFit buffer (answers + 1) ptr ↔
      Circles buffer ptr ∨ ShortName buffer ptr ∧ ptr + 12 ≤ 1024 ∧
        AnswersFit buffer answers (ptr + 12) := by
  constructor
  · intro hfit
    cases hfit with
    | circle _ _ howner => exact Or.inl howner
    | cnameCircle _ _ _ _ htype => exact absurd htype hcname
    | cname _ _ _ _ htype => exact absurd htype hcname
    | host _ _ _ _ htype => exact absurd htype hhost
    | other _ _ howner hheader _ _ hrest => exact Or.inr ⟨howner, hheader, hrest⟩
  · rintro (howner | ⟨howner, hheader, hrest⟩)
    · exact .circle answers ptr howner
    · exact .other answers ptr howner hheader hcname hhost hrest

end Types

section Buffer

variable {buffer : List UInt8}

/-- The last word of the header of an answer decides whether the header is in the buffer. -/
theorem header_inRange_iff (ptr : ℕ) {data : Access → Prop} :
    (∀ access, access ∈ reads (ptr + 2) 2 ∨ access ∈ reads (ptr + 6) 2 ∨
        access ∈ reads (ptr + 10) 2 ∨ data access → access.InRange) ↔
      ptr + 12 ≤ 1024 ∧ ∀ access, data access → access.InRange := by
  simp only [or_imp, forall_and]
  rw [reads_inRange_iff (by decide), reads_inRange_iff (by decide), reads_inRange_iff (by decide)]
  constructor
  · rintro ⟨-, -, hheader, hdata⟩
    exact ⟨hheader, hdata⟩
  · rintro ⟨hheader, hdata⟩
    exact ⟨by omega, by omega, hheader, hdata⟩

variable (hlength : buffer.length = 1024)

include hlength

/-- What comes behind a name is reached unless the name leads in a circle. -/
theorem behind_name_inRange_iff (ptr : ℕ) {behind : Access → Prop} :
    (∀ access, NameAccess buffer ptr access ∨ Returns buffer ptr ∧ behind access →
        access.InRange) ↔
      Circles buffer ptr ∨ ShortName buffer ptr ∧ ∀ access, behind access → access.InRange := by
  constructor
  · intro hall
    rcases (nameAccess_inRange_iff hlength ptr).mp fun access haccess ↦
      hall access (Or.inl haccess) with hcircles | hname
    · exact Or.inl hcircles
    · exact Or.inr ⟨hname, fun access haccess ↦
        hall access (Or.inr ⟨hname.returns hlength, haccess⟩)⟩
  · rintro (hcircles | ⟨hname, hbehind⟩) access (haccess | ⟨hreturns, haccess⟩)
    · exact (nameAccess_inRange_iff hlength ptr).mpr (Or.inl hcircles) access haccess
    · exact absurd hreturns (hcircles.not_returns hlength)
    · exact (nameAccess_inRange_iff hlength ptr).mpr (Or.inr hname) access haccess
    · exact hbehind access haccess

theorem answersAccess_inRange_iff (answers ptr : ℕ) :
    (∀ access, AnswersAccess buffer answers ptr access → access.InRange) ↔
      AnswersFit buffer answers ptr := by
  induction answers generalizing ptr with
  | zero => exact iff_of_true (fun _ haccess ↦ haccess.elim) (.none ptr)
  | succ answers ih =>
    refine (behind_name_inRange_iff hlength ptr).trans ?_
    rw [header_inRange_iff]
    dsimp only
    by_cases hcname : wordAt buffer (ptr + 2) = 5
    · simp only [if_pos hcname]
      rw [answersFit_cname_iff hcname, behind_name_inRange_iff hlength, ih]
    · simp only [if_neg hcname]
      by_cases hhost : wordAt buffer (ptr + 2) = 1
      · simp only [if_pos hhost, or_imp, and_imp, forall_and]
        rw [answersFit_host_iff hhost, ih, forall_comm,
          imp_congr_right fun _ ↦ reads_inRange_iff (by decide)]
      · simp only [if_neg hhost]
        rw [answersFit_other_iff hcname hhost, ih]

/-! ### Questions -/

/-- Every label takes the loop upwards, so that inside the buffer it comes to an end. -/
theorem exists_labelsEnd {ptr : ℕ}
    (hinside : ∀ reached, Reaches (labelRound buffer) ptr reached → reached < 1024) :
    ∃ last, LabelsEnd buffer last ptr := by
  induction hroom : 1024 - ptr using Nat.strong_induction_on generalizing ptr with
  | _ room ih =>
    have hptr := hinside ptr ReflTransGen.refl
    have hflag := getElem?_eq_byteAt (hlength ▸ hptr : ptr < buffer.length)
    by_cases hzero : byteAt buffer ptr = 0
    · exact ⟨ptr, .ended (hzero ▸ hflag)⟩
    · have hround := labelRound_of_getElem? hflag hzero
      obtain ⟨last, hlast⟩ := ih _ (by omega)
        (fun reached hreaches ↦ hinside reached (ReflTransGen.head hround hreaches)) rfl
      exact ⟨last, .label ptr _ hflag hzero hlast⟩

theorem querysAccess_inRange_iff (answers querys ptr : ℕ) :
    (∀ access, QuerysAccess buffer answers querys ptr access → access.InRange) ↔
      QuerysFit buffer answers querys ptr := by
  induction querys generalizing ptr with
  | zero =>
    refine (answersAccess_inRange_iff hlength answers ptr).trans ⟨.none ptr, fun hfit ↦ ?_⟩
    cases hfit with
    | none _ hanswers => exact hanswers
  | succ querys ih =>
    constructor
    · intro hall
      obtain ⟨last, hname⟩ := exists_labelsEnd hlength fun reached hreaches ↦
        hall (.read reached) (Or.inl ⟨reached, hreaches, rfl⟩)
      refine .question querys ptr last hname ((ih (last + 5)).mp fun access haccess ↦ ?_)
      exact hall access (Or.inr ⟨last, hname.spec.1, haccess⟩)
    · intro hfit
      cases hfit with
      | question _ _ last hname hrest =>
        obtain ⟨hlast, hinside⟩ := hname.spec
        rintro access (⟨reached, hreaches, rfl⟩ | ⟨other, hother, haccess⟩)
        · have hreached := hinside reached hreaches
          rw [hlength] at hreached
          exact hreached
        · obtain rfl := Part.mem_unique hlast hother
          exact (ih (last + 5)).mpr hrest access haccess

/-! ### Whole responses -/

/-- For every content of the buffer, the parser stays in the buffer and in front of the last byte
of the two arrays exactly if the names of the questions end in the buffer, and each answer that it
comes to has its twelve bytes, its owner and its data in the buffer, with names of at most 127
characters, up to one whose name leads in a circle. -/
theorem staysInBuffers_iff : StaysInBuffers buffer ↔ Contained buffer := by
  rw [Contained, ← querysAccess_inRange_iff hlength]
  constructor
  · intro hall access haccess
    exact hall access (Or.inr (Or.inr haccess))
  · rintro hquerys access (haccess | haccess | haccess)
    · exact (reads_inRange_iff (by decide)).mpr (by decide) access haccess
    · exact (reads_inRange_iff (by decide)).mpr (by decide) access haccess
    · exact hquerys access haccess

end Buffer

/-- The buffer for a response with a question, an alias and an address. -/
def sampleBuffer : List UInt8 := buffered (sampleResponse sampleAlias sampleAddress).bytes

/-- The owner of both answers, and the data of the first, is a pointer to the question. -/
theorem shortName_sample {ptr : ℕ} (hflag : sampleBuffer[ptr]? = some 192)
    (hn : sampleBuffer[ptr + 1]? = some 12) : ShortName sampleBuffer ptr :=
  ⟨_, .pointer ptr 192 12 _ hflag (by decide) hn
    (.label 12 1 0 [] (by decide +kernel) (by decide) (by decide) (by decide +kernel)
      (.ended 14 (by decide +kernel))), by decide +kernel⟩

theorem staysInBuffers_sample : sampleBuffer.length = 1024 ∧ StaysInBuffers sampleBuffer := by
  have hlength : sampleBuffer.length = 1024 := by decide +kernel
  have hquerys : wordAt sampleBuffer 4 = 1 := by decide +kernel
  have hanswers : wordAt sampleBuffer 6 = 2 := by decide +kernel
  have hquestion : LabelsEnd sampleBuffer 14 12 :=
    .label 12 1 (by decide +kernel) (by decide) (.ended (by decide +kernel))
  have hdatalen : wordAt sampleBuffer (19 + 10) = 2 := by decide +kernel
  have haddress : AnswersFit sampleBuffer 1 33 :=
    .host 0 33 (shortName_sample (by decide +kernel) (by decide +kernel)) (by decide)
      (by decide +kernel) (fun _ ↦ by decide) (.none _)
  have halias : AnswersFit sampleBuffer 2 19 := by
    refine .cname 1 19 (shortName_sample (by decide +kernel) (by decide +kernel)) (by decide)
      (by decide +kernel) (shortName_sample (by decide +kernel) (by decide +kernel)) ?_
    rw [hdatalen]
    exact haddress
  refine ⟨hlength, (staysInBuffers_iff hlength).mpr ?_⟩
  rw [Contained, hquerys, hanswers]
  exact .question 0 12 14 hquestion (.none 19 halias)

/-- A response with one answer, whose owner begins with a length of 191. -/
def longLabel : List UInt8 := [0, 7, 129, 128, 0, 0, 0, 1, 0, 0, 0, 0, 191]

/-- A response with two answers, the first of which announces 65535 bytes of data. -/
def longData : List UInt8 :=
  [0, 7, 129, 128, 0, 0, 0, 2, 0, 0, 0, 0, 0, 0, 0, 1, 0, 1, 0, 0, 0, 0, 255, 255]

/-- The failure: the label is written over the end of `aname`, and for the second answer the parser
reads far behind the buffer. -/
theorem label_and_data_out_of_range :
    (buffered longLabel).length = 1024 ∧ ParseAccess (buffered longLabel) (.write 127) ∧
      ¬ StaysInBuffers (buffered longLabel) ∧
    (buffered longData).length = 1024 ∧ ParseAccess (buffered longData) (.read 65559) ∧
      ¬ StaysInBuffers (buffered longData) := by
  have hlabel : ParseAccess (buffered longLabel) (.write 127) := by
    have hquerys : wordAt (buffered longLabel) 4 = 0 := by decide +kernel
    have hanswers : wordAt (buffered longLabel) 6 = 1 := by decide +kernel
    have hround : Access.write 127 ∈ roundAccesses (buffered longLabel) (12, []) := by
      decide +kernel
    rw [ParseAccess, hquerys, hanswers]
    exact Or.inr (Or.inr (Or.inl ⟨(12, []), ReflTransGen.refl, hround⟩))
  have hdata : ParseAccess (buffered longData) (.read 65559) := by
    have hquerys : wordAt (buffered longData) 4 = 0 := by decide +kernel
    have hanswers : wordAt (buffered longData) 6 = 2 := by decide +kernel
    have htype : wordAt (buffered longData) (12 + 2) = 1 := by decide +kernel
    have hdatalen : wordAt (buffered longData) (12 + 10) = 65535 := by decide +kernel
    have hreturns : Returns (buffered longData) 12 :=
      ⟨12, [], ReflTransGen.refl, by decide +kernel⟩
    have hround : Access.read 65559 ∈ roundAccesses (buffered longData) (12 + 12 + 65535, []) := by
      decide +kernel
    rw [ParseAccess, hquerys, hanswers]
    refine Or.inr (Or.inr (Or.inr ⟨hreturns, Or.inr (Or.inr (Or.inr ?_))⟩))
    rw [htype, hdatalen, if_neg (by decide), if_pos rfl]
    exact Or.inr (Or.inl ⟨(12 + 12 + 65535, []), ReflTransGen.refl, hround⟩)
  have hwrite : ¬ (Access.write 127).InRange := Nat.lt_irrefl 127
  have hread : ¬ (Access.read 65559).InRange := Nat.not_lt.mpr (by decide)
  exact ⟨by decide +kernel, hlabel, fun hstays ↦ hwrite (hstays _ hlabel), by decide +kernel,
    hdata, fun hstays ↦ hread (hstays _ hdata)⟩

end TestLinux.AsyncDns
