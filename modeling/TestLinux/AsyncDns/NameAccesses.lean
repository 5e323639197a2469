import TestLinux.Library.Ranges
import TestLinux.AsyncDns.Pointers
import TestLinux.AsyncDns.Names

/-!
# The memory that `dns_parse_name` touches

`roundAccesses` are the bytes of the buffer that one round of `dns_parse_name` reads and the bytes
of the array that it writes, and `NameAccess` those of all rounds of a call, whether it returns or
not. The rounds go through a memory without limits, so that a call is followed up to its first
access out of range and beyond. `SafeRound` lists the rounds without such an access.

A call stays in range in two ways (`nameAccess_inRange_iff`). Either the bytes spell a text of at
most 127 characters, and then the call returns; or the parser comes, over labels that are together
that short, to pointers that lead back to where it is, and then it never returns, but touches
nothing else.
-/

set_option autoImplicit false
set_option relaxedAutoImplicit false

namespace TestLinux.AsyncDns

open TestLinux.Dns TestLinux.Chains TestLinux.Ranges StateTransition Relation

/-! ### Accesses -/

/-- A byte of the buffer that is read, or a byte of `aname` or `cname` that is written. -/
inductive Access
  | read (index : ℕ)
  | write (index : ℕ)
  deriving DecidableEq

/-- Inside a buffer and an array of the given sizes. -/
def Access.Within (size room : ℕ) : Access → Prop
  | .read index => index < size
  | .write index => index < room

/-- Inside the buffer, and in front of the last byte of the array. -/
def Access.InRange (access : Access) : Prop := access.Within 1024 127

def reads (ptr count : ℕ) : List Access := (List.range count).map fun index ↦ .read (ptr + index)

def writes (pos count : ℕ) : List Access := (List.range count).map fun index ↦ .write (pos + index)

/-- The accesses of one round of `dns_parse_name`. -/
def roundAccesses (chunk : List UInt8) : ℕ × List UInt8 → List Access
  | (ptr, out) =>
    let flag := byteAt chunk ptr
    if flag = 0 then [.read ptr]
    else if isPointer flag then [.read ptr, .read (ptr + 1)]
    else
      .read ptr :: reads (ptr + 1) flag.toNat ++ writes out.length flag.toNat ++
        .read (ptr + 1 + flag.toNat) ::
          if byteAt chunk (ptr + 1 + flag.toNat) = 0 then []
          else [.write (out.length + flag.toNat)]

/-- An access of the rounds from a state on. -/
def AccessFrom (chunk : List UInt8) (state : ℕ × List UInt8) (access : Access) : Prop :=
  ∃ reached, Reaches (nameRound chunk) state reached ∧ access ∈ roundAccesses chunk reached

/-- An access of `dns_parse_name`, started at the position with `*len = 0`. -/
def NameAccess (chunk : List UInt8) (ptr : ℕ) (access : Access) : Prop :=
  AccessFrom chunk (ptr, []) access

theorem reads_within_iff {ptr count size room : ℕ} (hcount : 0 < count) :
    (∀ access ∈ reads ptr count, access.Within size room) ↔ ptr + count ≤ size := by
  simp only [reads, List.forall_mem_map, List.mem_range, Access.Within]
  exact forall_add_lt_iff hcount

theorem reads_inRange_iff {ptr count : ℕ} (hcount : 0 < count) :
    (∀ access ∈ reads ptr count, access.InRange) ↔ ptr + count ≤ 1024 :=
  reads_within_iff hcount

theorem writes_within_iff {pos count size room : ℕ} (hcount : 0 < count) :
    (∀ access ∈ writes pos count, access.Within size room) ↔ pos + count ≤ room := by
  simp only [writes, List.forall_mem_map, List.mem_range, Access.Within]
  exact forall_add_lt_iff hcount

/-! ### Rounds in range -/

/-- What is written for a label. -/
def written (chunk : List UInt8) (ptr : ℕ) (flag next : UInt8) : List UInt8 :=
  (chunk.drop (ptr + 1)).take flag.toNat ++ (if next = 0 then [] else [dot])

/-- The rounds that stay in range. -/
inductive SafeRound (chunk : List UInt8) : ℕ × List UInt8 → Option (ℕ × List UInt8) → Prop
  | ended (ptr : ℕ) (out : List UInt8) (hflag : chunk[ptr]? = some 0) :
      SafeRound chunk (ptr, out) none
  | pointer (ptr : ℕ) (flag n : UInt8) (out : List UInt8) (hflag : chunk[ptr]? = some flag)
      (hpointer : isPointer flag) (hn : chunk[ptr + 1]? = some n) :
      SafeRound chunk (ptr, out) (some (n.toNat, out))
  | label (ptr : ℕ) (flag next : UInt8) (out : List UInt8) (hflag : chunk[ptr]? = some flag)
      (hzero : flag ≠ 0) (hlabel : ¬ isPointer flag)
      (hnext : chunk[ptr + 1 + flag.toNat]? = some next)
      (hroom : (out ++ written chunk ptr flag next).length ≤ 127) :
      SafeRound chunk (ptr, out)
        (some (ptr + 1 + flag.toNat, out ++ written chunk ptr flag next))

section Rounds

variable {chunk : List UInt8} {state : ℕ × List UInt8} {next : Option (ℕ × List UInt8)}

theorem getElem?_eq_byteAt {ptr : ℕ} (hptr : ptr < chunk.length) :
    chunk[ptr]? = some (byteAt chunk ptr) := by
  rw [byteAt, List.getD_eq_getElem?_getD, List.getElem?_eq_getElem hptr, Option.getD_some]

theorem length_written {ptr : ℕ} {flag next : UInt8}
    (hinside : ptr + 1 + flag.toNat < chunk.length) :
    (written chunk ptr flag next).length =
      flag.toNat + (if next = 0 then [] else [dot]).length := by
  rw [written, List.length_append, length_take_label hinside]

theorem toNat_pos {flag : UInt8} (hzero : flag ≠ 0) : 0 < flag.toNat :=
  Nat.pos_of_ne_zero fun htoNat ↦ hzero (UInt8.toNat_inj.mp htoNat)

section Accesses

variable {size room ptr : ℕ} {out : List UInt8}

theorem roundAccesses_ended (hzero : byteAt chunk ptr = 0) :
    (∀ access ∈ roundAccesses chunk (ptr, out), access.Within size room) ↔ ptr < size := by
  simp only [roundAccesses, hzero, if_true, List.forall_mem_singleton, Access.Within]

theorem roundAccesses_pointer (hpointer : isPointer (byteAt chunk ptr)) :
    (∀ access ∈ roundAccesses chunk (ptr, out), access.Within size room) ↔ ptr + 1 < size := by
  simp only [roundAccesses, ne_zero_of_isPointer hpointer, hpointer, if_true, if_false,
    List.forall_mem_cons, List.not_mem_nil, IsEmpty.forall_iff, implies_true, and_true,
    Access.Within]
  omega

theorem roundAccesses_label (hzero : byteAt chunk ptr ≠ 0)
    (hlabel : ¬ isPointer (byteAt chunk ptr)) :
    (∀ access ∈ roundAccesses chunk (ptr, out), access.Within size room) ↔
      ptr + 1 + (byteAt chunk ptr).toNat < size ∧
        out.length + (byteAt chunk ptr).toNat +
          (if byteAt chunk (ptr + 1 + (byteAt chunk ptr).toNat) = 0 then [] else [dot]).length ≤
            room := by
  have hpositive := toNat_pos hzero
  have haccesses : roundAccesses chunk (ptr, out) =
      .read ptr :: reads (ptr + 1) (byteAt chunk ptr).toNat ++
        writes out.length (byteAt chunk ptr).toNat ++
        .read (ptr + 1 + (byteAt chunk ptr).toNat) ::
          if byteAt chunk (ptr + 1 + (byteAt chunk ptr).toNat) = 0 then []
          else [.write (out.length + (byteAt chunk ptr).toNat)] := by
    simp only [roundAccesses, hzero, hlabel, if_false, Bool.false_eq_true]
  rw [haccesses, List.forall_mem_append, List.forall_mem_append, List.forall_mem_cons,
    reads_within_iff hpositive, writes_within_iff hpositive, List.forall_mem_cons]
  split_ifs with hend
  · simp only [List.not_mem_nil, IsEmpty.forall_iff, implies_true, and_true, List.length_nil,
      Access.Within]
    omega
  · simp only [List.forall_mem_singleton, List.length_singleton, Access.Within]
    omega

end Accesses

/-- A safe round is what the parser does, and all it touches is in range. -/
theorem SafeRound.spec (hlength : chunk.length = 1024) (hround : SafeRound chunk state next) :
    nameRound chunk state = next ∧ ∀ access ∈ roundAccesses chunk state, access.InRange := by
  cases hround with
  | ended ptr out hflag =>
    obtain ⟨hinside, -⟩ := List.getElem?_eq_some_iff.mp hflag
    refine ⟨nameRound_ended hflag out, (roundAccesses_ended (byteAt_of_getElem? hflag)).mpr ?_⟩
    exact hlength ▸ hinside
  | pointer ptr flag n out hflag hpointer hn =>
    obtain ⟨hinside, -⟩ := List.getElem?_eq_some_iff.mp hn
    refine ⟨nameRound_pointer hflag hpointer hn out, ?_⟩
    rw [← byteAt_of_getElem? hflag] at hpointer
    exact (roundAccesses_pointer hpointer).mpr (hlength ▸ hinside)
  | label ptr flag next out hflag hzero hlabel hnext hroom =>
    obtain ⟨hinside, -⟩ := List.getElem?_eq_some_iff.mp hnext
    refine ⟨nameRound_label hflag hzero hlabel hnext out, ?_⟩
    obtain rfl := byteAt_of_getElem? hflag
    obtain rfl := byteAt_of_getElem? hnext
    rw [List.length_append, length_written hinside, ← Nat.add_assoc] at hroom
    exact (roundAccesses_label hzero hlabel).mpr ⟨hlength ▸ hinside, hroom⟩

/-- A round that touches nothing out of range is a safe one. -/
theorem safeRound_of_inRange (hlength : chunk.length = 1024)
    (hinRange : ∀ access ∈ roundAccesses chunk state, access.InRange) :
    SafeRound chunk state (nameRound chunk state) := by
  obtain ⟨ptr, out⟩ := state
  by_cases hzero : byteAt chunk ptr = 0
  · have hptr : ptr < chunk.length := hlength ▸ (roundAccesses_ended hzero).mp hinRange
    have hflag : chunk[ptr]? = some 0 := hzero ▸ getElem?_eq_byteAt hptr
    rw [nameRound_ended hflag]
    exact .ended ptr out hflag
  · by_cases hpointer : isPointer (byteAt chunk ptr)
    · have hinside := (roundAccesses_pointer hpointer).mp hinRange
      have hflag := getElem?_eq_byteAt (by omega : ptr < chunk.length)
      have hn := getElem?_eq_byteAt (by omega : ptr + 1 < chunk.length)
      rw [nameRound_pointer hflag hpointer hn]
      exact .pointer ptr _ _ out hflag hpointer hn
    · obtain ⟨hinside, hroom⟩ := (roundAccesses_label hzero hpointer).mp hinRange
      rw [← hlength] at hinside
      have hflag := getElem?_eq_byteAt (by omega : ptr < chunk.length)
      have hnext := getElem?_eq_byteAt hinside
      rw [nameRound_label hflag hzero hpointer hnext]
      refine .label ptr _ _ out hflag hzero hpointer hnext ?_
      rw [List.length_append, length_written hinside, ← Nat.add_assoc]
      exact hroom

end Rounds

/-! ### Calls -/

/-- All accesses of the rounds from a state on are in range. -/
def SafeFrom (chunk : List UInt8) (state : ℕ × List UInt8) : Prop :=
  ∀ access, AccessFrom chunk state access → access.InRange

/-- The rounds from a state on come to an end. -/
def EndsFrom (chunk : List UInt8) (state : ℕ × List UInt8) : Prop :=
  (eval (nameRound chunk) state).Dom

section Calls

variable {chunk : List UInt8}

theorem returns_iff_endsFrom (ptr : ℕ) : Returns chunk ptr ↔ EndsFrom chunk (ptr, []) := by
  rw [EndsFrom, Part.dom_iff_mem]
  constructor
  · rintro ⟨last, name, hlast⟩
    exact ⟨(last, name), mem_eval.mpr hlast⟩
  · rintro ⟨⟨last, name⟩, hlast⟩
    exact ⟨last, name, mem_eval.mp hlast⟩

/-- The last round of a call is all that there is to it. -/
theorem accessFrom_iff_of_none {state : ℕ × List UInt8} (hnone : nameRound chunk state = none)
    {access : Access} : AccessFrom chunk state access ↔ access ∈ roundAccesses chunk state := by
  constructor
  · rintro ⟨reached, hreaches, haccess⟩
    have hmem : state ∈ eval (nameRound chunk) state := mem_eval.mpr ⟨ReflTransGen.refl, hnone⟩
    rw [(eval_maximal hmem).mp hreaches] at haccess
    exact haccess
  · intro haccess
    exact ⟨state, ReflTransGen.refl, haccess⟩

theorem accessFrom_iff_of_some {state next : ℕ × List UInt8}
    (hsome : nameRound chunk state = some next) {access : Access} :
    AccessFrom chunk state access ↔
      access ∈ roundAccesses chunk state ∨ AccessFrom chunk next access := by
  constructor
  · rintro ⟨reached, hreaches, haccess⟩
    rcases ReflTransGen.cases_head hreaches with rfl | ⟨second, hsecond, hrest⟩
    · exact Or.inl haccess
    · rw [Option.mem_def, hsome, Option.some.injEq] at hsecond
      subst hsecond
      exact Or.inr ⟨reached, hrest, haccess⟩
  · rintro (haccess | ⟨reached, hreaches, haccess⟩)
    · exact ⟨state, ReflTransGen.refl, haccess⟩
    · exact ⟨reached, ReflTransGen.head hsome hreaches, haccess⟩

theorem SafeFrom.reaches {state reached : ℕ × List UInt8} (hsafe : SafeFrom chunk state)
    (hreaches : Reaches (nameRound chunk) state reached) : SafeFrom chunk reached := by
  rintro access ⟨later, hlater, haccess⟩
  exact hsafe access ⟨later, hreaches.trans hlater, haccess⟩

theorem SafeFrom.round (hlength : chunk.length = 1024) {state : ℕ × List UInt8}
    (hsafe : SafeFrom chunk state) : SafeRound chunk state (nameRound chunk state) :=
  safeRound_of_inRange hlength fun access haccess ↦
    hsafe access ⟨state, ReflTransGen.refl, haccess⟩

/-- A last round that is safe. -/
theorem safeFrom_of_none (hlength : chunk.length = 1024) {state : ℕ × List UInt8}
    (hround : SafeRound chunk state none) : SafeFrom chunk state ∧ EndsFrom chunk state := by
  obtain ⟨hnone, hinRange⟩ := hround.spec hlength
  refine ⟨fun access haccess ↦ ?_,
    Part.dom_iff_mem.mpr ⟨state, mem_eval.mpr ⟨ReflTransGen.refl, hnone⟩⟩⟩
  exact hinRange access ((accessFrom_iff_of_none hnone).mp haccess)

/-- A safe round in front of safe rounds. -/
theorem safeFrom_of_some (hlength : chunk.length = 1024) {state next : ℕ × List UInt8}
    (hround : SafeRound chunk state (some next)) (hnext : SafeFrom chunk next) :
    SafeFrom chunk state := by
  obtain ⟨hsome, hinRange⟩ := hround.spec hlength
  intro access haccess
  rcases (accessFrom_iff_of_some hsome).mp haccess with hfirst | hlater
  · exact hinRange access hfirst
  · exact hnext access hlater

theorem endsFrom_iff_of_some (hlength : chunk.length = 1024) {state next : ℕ × List UInt8}
    (hround : SafeRound chunk state (some next)) :
    EndsFrom chunk state ↔ EndsFrom chunk next := by
  rw [EndsFrom, reaches_eval (ReflTransGen.single (hround.spec hlength).1), EndsFrom]

/-- Where `dnsParseName` finds a name, the call stays in the buffer and in the array. -/
theorem within_of_dnsParseName {fuel ptr : ℕ} {out name : List UInt8}
    (hname : dnsParseName chunk fuel ptr out = some name) :
    ∀ access, AccessFrom chunk (ptr, out) access → access.Within chunk.length 128 := by
  induction fuel generalizing ptr out with
  | zero => cases hname
  | succ fuel ih =>
    intro access haccess
    obtain ⟨hend, -⟩ | ⟨flag, n, hflag, hpointer, hn, hrest⟩ |
      ⟨flag, next, hflag, hzero, hlabel, hnext, hroom, hrest⟩ := dnsParseName_cases hname
    · obtain ⟨hinside, -⟩ := List.getElem?_eq_some_iff.mp hend
      rw [accessFrom_iff_of_none (nameRound_ended hend out)] at haccess
      exact (roundAccesses_ended (byteAt_of_getElem? hend)).mpr hinside access haccess
    · obtain ⟨hinside, -⟩ := List.getElem?_eq_some_iff.mp hn
      rw [accessFrom_iff_of_some (nameRound_pointer hflag hpointer hn out)] at haccess
      rw [← byteAt_of_getElem? hflag] at hpointer
      rcases haccess with hfirst | hlater
      · exact (roundAccesses_pointer hpointer).mpr hinside access hfirst
      · exact ih hrest access hlater
    · obtain ⟨hinside, -⟩ := List.getElem?_eq_some_iff.mp hnext
      rw [accessFrom_iff_of_some (nameRound_label hflag hzero hlabel hnext out)] at haccess
      rcases haccess with hfirst | hlater
      · obtain rfl := byteAt_of_getElem? hflag
        obtain rfl := byteAt_of_getElem? hnext
        exact (roundAccesses_label hzero hlabel).mpr ⟨hinside, hroom⟩ access hfirst
      · exact ih hrest access hlater

/-! ### Texts -/

/-- A text that is short enough is read in range. -/
theorem safeFrom_of_spells (hlength : chunk.length = 1024) {ptr : ℕ} {text : List UInt8}
    (hspells : Spells chunk ptr text) (out : List UInt8)
    (hroom : out.length + text.length ≤ 127) :
    SafeFrom chunk (ptr, out) ∧ EndsFrom chunk (ptr, out) := by
  induction hspells generalizing out with
  | ended ptr hflag => exact safeFrom_of_none hlength (.ended ptr out hflag)
  | pointer ptr flag n text hflag hpointer hn htext ih =>
    have hround := SafeRound.pointer ptr flag n out hflag hpointer hn
    obtain ⟨hsafe, hends⟩ := ih out hroom
    exact ⟨safeFrom_of_some hlength hround hsafe,
      (endsFrom_iff_of_some hlength hround).mpr hends⟩
  | label ptr flag next text hflag hzero hlabel hnext htext ih =>
    have hlengths : (out ++ written chunk ptr flag next).length + text.length ≤ 127 := by
      rw [← List.append_assoc, ← written, List.length_append] at hroom
      rw [List.length_append]
      omega
    have hround := SafeRound.label ptr flag next out hflag hzero hlabel hnext
      (Nat.le_of_add_right_le hlengths)
    obtain ⟨hsafe, hends⟩ := ih _ hlengths
    exact ⟨safeFrom_of_some hlength hround hsafe,
      (endsFrom_iff_of_some hlength hround).mpr hends⟩

/-- A call that stays in range and returns has read a text that is short enough. -/
theorem exists_spells (hlength : chunk.length = 1024) {state : ℕ × List UInt8}
    (hsafe : SafeFrom chunk state) (hends : EndsFrom chunk state) (hout : state.2.length ≤ 127) :
    ∃ text, Spells chunk state.1 text ∧ state.2.length + text.length ≤ 127 := by
  obtain ⟨last, hlast⟩ := Part.dom_iff_mem.mp hends
  obtain ⟨hreaches, hnone⟩ := mem_eval.mp hlast
  clear hends hlast
  induction hreaches using ReflTransGen.head_induction_on with
  | refl =>
    have hround := hsafe.round hlength
    rw [hnone] at hround
    cases hround with
    | ended ptr out hflag => exact ⟨[], .ended ptr hflag, hout⟩
  | @head state next hstep hrest ih =>
    have hround := hsafe.round hlength
    rw [Option.mem_def.mp hstep] at hround
    have hnext := hsafe.reaches (ReflTransGen.single hstep)
    cases hround with
    | pointer ptr flag n out hflag hpointer hn =>
      obtain ⟨text, htext, hroom⟩ := ih hnext hout
      exact ⟨text, .pointer ptr flag n text hflag hpointer hn htext, hroom⟩
    | label ptr flag byte out hflag hzero hlabel hbyte hfits =>
      obtain ⟨text, htext, hroom⟩ := ih hnext hfits
      refine ⟨_, .label ptr flag byte text hflag hzero hlabel hbyte htext, ?_⟩
      rw [← List.append_assoc, ← written, List.length_append]
      dsimp only at hroom ⊢
      rw [List.length_append] at hroom
      omega

end Calls

/-! ### Circles of pointers -/

/-- Where a pointer leads. -/
def pointerStep (chunk : List UInt8) (ptr : ℕ) : Option ℕ :=
  (chunk[ptr]?).bind fun flag ↦
    if isPointer flag then (chunk[ptr + 1]?).map UInt8.toNat else none

/-- Over labels and pointers the parser comes from a position to the target, and it writes the text
on the way. -/
inductive Leads (chunk : List UInt8) (target : ℕ) : ℕ → List UInt8 → Prop
  | here : Leads chunk target target []
  | pointer (ptr next : ℕ) (text : List UInt8) (hnext : pointerStep chunk ptr = some next)
      (htext : Leads chunk target next text) : Leads chunk target ptr text
  | label (ptr : ℕ) (flag next : UInt8) (text : List UInt8) (hflag : chunk[ptr]? = some flag)
      (hzero : flag ≠ 0) (hlabel : ¬ isPointer flag)
      (hnext : chunk[ptr + 1 + flag.toNat]? = some next)
      (htext : Leads chunk target (ptr + 1 + flag.toNat) text) :
      Leads chunk target ptr (written chunk ptr flag next ++ text)

/-- The parser comes, over labels of at most 127 characters, to pointers that lead in a circle. -/
def Circles (chunk : List UInt8) (ptr : ℕ) : Prop :=
  ∃ target text, Leads chunk target ptr text ∧ text.length ≤ 127 ∧
    Reaches₁ (pointerStep chunk) target target

/-- The bytes spell a text of at most 127 characters. -/
def ShortName (chunk : List UInt8) (ptr : ℕ) : Prop :=
  ∃ text, Spells chunk ptr text ∧ text.length ≤ 127

section Circles

variable {chunk : List UInt8}

theorem pointerStep_eq_some_iff {ptr next : ℕ} :
    pointerStep chunk ptr = some next ↔ ∃ flag n : UInt8, chunk[ptr]? = some flag ∧
      isPointer flag ∧ chunk[ptr + 1]? = some n ∧ n.toNat = next := by
  rw [pointerStep, Option.bind_eq_some_iff]
  constructor
  · rintro ⟨flag, hflag, hnext⟩
    split_ifs at hnext with hpointer
    obtain ⟨n, hn, htarget⟩ := Option.map_eq_some_iff.mp hnext
    exact ⟨flag, n, hflag, hpointer, hn, htarget⟩
  · rintro ⟨flag, n, hflag, hpointer, hn, htarget⟩
    refine ⟨flag, hflag, ?_⟩
    rw [if_pos hpointer, hn, Option.map_some, htarget]

/-- A pointer is a safe round that writes nothing. -/
theorem safeRound_of_pointerStep {ptr next : ℕ} (hnext : pointerStep chunk ptr = some next)
    (out : List UInt8) : SafeRound chunk (ptr, out) (some (next, out)) := by
  obtain ⟨flag, n, hflag, hpointer, hn, rfl⟩ := pointerStep_eq_some_iff.mp hnext
  exact .pointer ptr flag n out hflag hpointer hn

/-- Pointers lead to the first 256 bytes. -/
theorem finite_pointers (chunk : List UInt8) (ptr : ℕ) :
    {position | Reaches (pointerStep chunk) ptr position}.Finite := by
  refine ((Set.finite_lt_nat 256).insert ptr).subset fun position hreaches ↦ ?_
  rcases ReflTransGen.cases_tail hreaches with hstart | ⟨previous, -, hstep⟩
  · exact Or.inl hstart
  · obtain ⟨_, n, -, -, -, rfl⟩ := pointerStep_eq_some_iff.mp hstep
    exact Or.inr n.toNat_lt

theorem Leads.of_reaches {ptr last target : ℕ} {text : List UInt8}
    (hreaches : Reaches (pointerStep chunk) ptr last) (hleads : Leads chunk target last text) :
    Leads chunk target ptr text := by
  induction hreaches using ReflTransGen.head_induction_on with
  | refl => exact hleads
  | head hstep _ ih => exact .pointer _ _ text hstep ih

variable (hlength : chunk.length = 1024)

include hlength

theorem mem_nameRound_of_pointerStep {ptr next : ℕ} (out : List UInt8)
    (hnext : next ∈ pointerStep chunk ptr) : (next, out) ∈ nameRound chunk (ptr, out) :=
  ((safeRound_of_pointerStep hnext out).spec hlength).1

/-- On a circle the parser touches nothing but the pointers, and it never leaves it. -/
theorem safeFrom_of_cycle {target : ℕ} (hcycle : Reaches₁ (pointerStep chunk) target target)
    (out : List UInt8) : SafeFrom chunk (target, out) ∧ ¬ EndsFrom chunk (target, out) := by
  constructor
  · rintro access ⟨reached, hreaches, haccess⟩
    have hon : ∃ ptr, reached = (ptr, out) ∧ Reaches₁ (pointerStep chunk) ptr ptr := by
      clear haccess
      induction hreaches with
      | refl => exact ⟨target, rfl, hcycle⟩
      | tail _ hstep ih =>
        obtain ⟨ptr, rfl, hcircle⟩ := ih
        obtain ⟨next, hnext, -⟩ := TransGen.head'_iff.mp hcircle
        rw [Option.mem_def, mem_nameRound_of_pointerStep hlength out hnext,
          Option.some.injEq] at hstep
        exact ⟨next, hstep.symm, cycle_of_reaches hcircle (ReflTransGen.single hnext)⟩
    obtain ⟨ptr, rfl, hcircle⟩ := hon
    obtain ⟨next, hnext, -⟩ := TransGen.head'_iff.mp hcircle
    exact ((safeRound_of_pointerStep hnext out).spec hlength).2 access haccess
  · refine not_dom_of_cycle ReflTransGen.refl ?_
    exact TransGen.lift (fun ptr ↦ (ptr, out))
      (fun _ _ hnext ↦ mem_nameRound_of_pointerStep hlength out hnext) _ _ hcycle

/-- The way to a circle, if there is room for what is written on it. -/
theorem safeFrom_of_leads {target ptr : ℕ} {text : List UInt8}
    (hleads : Leads chunk target ptr text) (hcycle : Reaches₁ (pointerStep chunk) target target)
    (out : List UInt8) (hroom : out.length + text.length ≤ 127) :
    SafeFrom chunk (ptr, out) ∧ ¬ EndsFrom chunk (ptr, out) := by
  induction hleads generalizing out with
  | here => exact safeFrom_of_cycle hlength hcycle out
  | pointer ptr next text hnext htext ih =>
    have hround := safeRound_of_pointerStep hnext out
    obtain ⟨hsafe, hends⟩ := ih out hroom
    exact ⟨safeFrom_of_some hlength hround hsafe,
      (endsFrom_iff_of_some hlength hround).not.mpr hends⟩
  | label ptr flag next text hflag hzero hlabel hnext htext ih =>
    have hlengths : (out ++ written chunk ptr flag next).length + text.length ≤ 127 := by
      rw [List.length_append] at hroom ⊢
      omega
    have hround := SafeRound.label ptr flag next out hflag hzero hlabel hnext
      (Nat.le_of_add_right_le hlengths)
    obtain ⟨hsafe, hends⟩ := ih _ hlengths
    exact ⟨safeFrom_of_some hlength hround hsafe,
      (endsFrom_iff_of_some hlength hround).not.mpr hends⟩

/-- Where the pointers end in a call that stays in range and does not return, a label stands. -/
theorem label_behind_pointers {ptr : ℕ} {out : List UInt8} (hsafe : SafeFrom chunk (ptr, out))
    (hends : ¬ EndsFrom chunk (ptr, out)) (hdom : (eval (pointerStep chunk) ptr).Dom) :
    ∃ last next text, Reaches (pointerStep chunk) ptr last ∧ text ≠ [] ∧
      (∀ target rest, Leads chunk target next rest → Leads chunk target last (text ++ rest)) ∧
      (out ++ text).length ≤ 127 ∧ SafeFrom chunk (next, out ++ text) ∧
      ¬ EndsFrom chunk (next, out ++ text) := by
  obtain ⟨last, hlast⟩ := Part.dom_iff_mem.mp hdom
  obtain ⟨hpointers, hstop⟩ := mem_eval.mp hlast
  have hreaches : Reaches (nameRound chunk) (ptr, out) (last, out) :=
    ReflTransGen.lift (fun ptr ↦ (ptr, out))
      (fun _ _ hnext ↦ mem_nameRound_of_pointerStep hlength out hnext) _ _ hpointers
  have hrest := hsafe.reaches hreaches
  rw [EndsFrom, reaches_eval hreaches] at hends
  have hround := hrest.round hlength
  cases hnext : nameRound chunk (last, out) with
  | none =>
    rw [hnext] at hround
    exact absurd (safeFrom_of_none hlength hround).2 hends
  | some next =>
    rw [hnext] at hround
    have hbehind := hrest.reaches (ReflTransGen.single hnext)
    rw [reaches_eval (ReflTransGen.single hnext)] at hends
    cases hround with
    | pointer _ flag n _ hflag hpointer hn =>
      rw [pointerStep_eq_some_iff.mpr ⟨flag, n, hflag, hpointer, hn, rfl⟩] at hstop
      cases hstop
    | label _ flag byte _ hflag hzero hlabel hbyte hfits =>
      obtain ⟨hinside, -⟩ := List.getElem?_eq_some_iff.mp hbyte
      have hpositive := toNat_pos hzero
      have hcount := @length_written chunk last flag byte hinside
      refine ⟨last, _, _, hpointers, List.ne_nil_of_length_pos (by omega), ?_, hfits, hbehind,
        hends⟩
      exact fun target rest hleads ↦ .label last flag byte rest hflag hzero hlabel hbyte hleads

/-- A call that stays in range and does not return comes to a circle: a label takes some of the
room that is left, and between two labels the pointers end or lead in a circle. -/
theorem exists_leads (room : ℕ) {ptr : ℕ} {out : List UInt8} (hsafe : SafeFrom chunk (ptr, out))
    (hends : ¬ EndsFrom chunk (ptr, out)) (hroom : out.length + room = 127) :
    ∃ target text, Leads chunk target ptr text ∧ text.length ≤ room ∧
      Reaches₁ (pointerStep chunk) target target := by
  induction room using Nat.strong_induction_on generalizing ptr out with
  | _ room ih =>
    by_cases hdom : (eval (pointerStep chunk) ptr).Dom
    · obtain ⟨last, next, text, hpointers, htext, hlabel, hfits, hbehind, hforever⟩ :=
        label_behind_pointers hlength hsafe hends hdom
      have hpositive := List.length_pos_iff.mpr htext
      rw [List.length_append] at hfits
      obtain ⟨target, rest, hleads, hrest, hcycle⟩ :=
        ih (room - text.length) (by omega) hbehind hforever (by rw [List.length_append]; omega)
      refine ⟨target, text ++ rest, .of_reaches hpointers (hlabel target rest hleads), ?_, hcycle⟩
      rw [List.length_append]
      omega
    · by_contra hnone
      refine hdom (dom_of_acyclic (finite_pointers chunk ptr) fun target hreaches hcycle ↦ ?_)
      exact hnone ⟨target, [], .of_reaches hreaches .here, Nat.zero_le room, hcycle⟩

/-- For every content of the buffer and every start, `dns_parse_name` touches nothing out of range
exactly if it comes to a circle of pointers or reads a text, and writes at most 127 characters. -/
theorem nameAccess_inRange_iff (ptr : ℕ) :
    (∀ access, NameAccess chunk ptr access → access.InRange) ↔
      Circles chunk ptr ∨ ShortName chunk ptr := by
  constructor
  · intro hsafe
    by_cases hends : EndsFrom chunk (ptr, [])
    · obtain ⟨text, hspells, hroom⟩ := exists_spells hlength hsafe hends (Nat.zero_le 127)
      exact Or.inr ⟨text, hspells, Nat.le_of_add_left_le hroom⟩
    · exact Or.inl (exists_leads hlength 127 hsafe hends rfl)
  · rintro (⟨target, text, hleads, hroom, hcycle⟩ | ⟨text, hspells, hroom⟩)
    · exact (safeFrom_of_leads hlength hleads hcycle [] (by simpa using hroom)).1
    · exact (safeFrom_of_spells hlength hspells [] (by simpa using hroom)).1

theorem ShortName.returns {ptr : ℕ} (hname : ShortName chunk ptr) : Returns chunk ptr := by
  obtain ⟨text, hspells, hroom⟩ := hname
  rw [returns_iff_endsFrom]
  exact (safeFrom_of_spells hlength hspells [] (by simpa using hroom)).2

theorem Circles.not_returns {ptr : ℕ} (hcircles : Circles chunk ptr) : ¬ Returns chunk ptr := by
  obtain ⟨target, text, hleads, hroom, hcycle⟩ := hcircles
  rw [returns_iff_endsFrom]
  exact (safeFrom_of_leads hlength hleads hcycle [] (by simpa using hroom)).2

end Circles

end TestLinux.AsyncDns
