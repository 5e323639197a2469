import TestLinux.AsyncDns.Response
import TestLinux.Library.Chains

/-!
# Whether `dns_parse_name` returns

`nameRound` is one round of `dns_parse_name` in a memory without limits: bytes behind the buffer
read as zero, and the name may become as long as it likes. A call for a pointer is the last thing
that the function does, so that the call continues with the next round. `mem_eval_of_dnsParseName`
connects the rounds with `dnsParseName`, which has no result where they do not end.

Where a round goes depends on the position only (`follow`). Labels lead upwards and pointers to one
of the first 256 bytes, so that finitely many positions can be reached, and `returns_iff` says that
the function returns exactly if no pointer that it meets leads back to itself.
-/

set_option autoImplicit false
set_option relaxedAutoImplicit false

namespace TestLinux.AsyncDns

open TestLinux.Dns TestLinux.Chains StateTransition Relation

/-! ### Rounds -/

/-- A byte of the buffer, or zero behind it. -/
def byteAt (chunk : List UInt8) (ptr : ℕ) : UInt8 := chunk.getD ptr 0

/-- What `memcpy` copies. -/
def bytesAt (chunk : List UInt8) (ptr count : ℕ) : List UInt8 :=
  (List.range count).map fun index ↦ byteAt chunk (ptr + index)

/-- One round of `dns_parse_name`, on the cursor and what has been written. -/
def nameRound (chunk : List UInt8) : ℕ × List UInt8 → Option (ℕ × List UInt8)
  | (ptr, out) =>
    let flag := byteAt chunk ptr
    if flag = 0 then none
    else if isPointer flag then some ((byteAt chunk (ptr + 1)).toNat, out)
    else
      let out := out ++ bytesAt chunk (ptr + 1) flag.toNat
      let ptr := ptr + 1 + flag.toNat
      some (ptr, if byteAt chunk ptr = 0 then out else out ++ [dot])

/-- `dns_parse_name` returns, with a name and its length, after finitely many rounds. -/
def Returns (chunk : List UInt8) (ptr : ℕ) : Prop :=
  ∃ last name, Reaches (nameRound chunk) (ptr, []) (last, name) ∧
    nameRound chunk (last, name) = none

/-- Where the parser goes from a position. -/
def follow (chunk : List UInt8) (ptr : ℕ) : Option ℕ :=
  let flag := byteAt chunk ptr
  if flag = 0 then none
  else if isPointer flag then some (byteAt chunk (ptr + 1)).toNat
  else some (ptr + 1 + flag.toNat)

/-! ### The bounded parser -/

theorem byteAt_of_getElem? {chunk : List UInt8} {ptr : ℕ} {byte : UInt8}
    (hbyte : chunk[ptr]? = some byte) : byteAt chunk ptr = byte := by
  rw [byteAt, List.getD_eq_getElem?_getD, hbyte]
  rfl

theorem bytesAt_eq {chunk : List UInt8} {ptr count : ℕ} (hcount : ptr + count ≤ chunk.length) :
    bytesAt chunk ptr count = (chunk.drop ptr).take count := by
  refine List.ext_getElem? fun index ↦ ?_
  by_cases hindex : index < count
  · have hinside : ptr + index < chunk.length := by omega
    rw [bytesAt, List.getElem?_map, List.getElem?_range hindex, List.getElem?_take_of_lt hindex,
      List.getElem?_drop, List.getElem?_eq_getElem hinside, Option.map_some,
      byteAt_of_getElem? (List.getElem?_eq_getElem hinside)]
  · have hbehind := Nat.not_lt.mp hindex
    rw [List.getElem?_eq_none (by simpa [bytesAt] using hbehind),
      List.getElem?_eq_none (by rw [List.length_take]; omega)]

theorem nameRound_ended {chunk : List UInt8} {ptr : ℕ} (hflag : chunk[ptr]? = some 0)
    (out : List UInt8) : nameRound chunk (ptr, out) = none := by
  simp only [nameRound, byteAt_of_getElem? hflag, if_true]

theorem nameRound_pointer {chunk : List UInt8} {ptr : ℕ} {flag n : UInt8}
    (hflag : chunk[ptr]? = some flag) (hpointer : isPointer flag) (hn : chunk[ptr + 1]? = some n)
    (out : List UInt8) : nameRound chunk (ptr, out) = some (n.toNat, out) := by
  simp only [nameRound, byteAt_of_getElem? hflag, ne_zero_of_isPointer hpointer, hpointer,
    if_true, if_false, byteAt_of_getElem? hn]

theorem nameRound_label {chunk : List UInt8} {ptr : ℕ} {flag next : UInt8}
    (hflag : chunk[ptr]? = some flag) (hzero : flag ≠ 0) (hlabel : ¬ isPointer flag)
    (hnext : chunk[ptr + 1 + flag.toNat]? = some next) (out : List UInt8) :
    nameRound chunk (ptr, out) = some (ptr + 1 + flag.toNat,
      out ++ ((chunk.drop (ptr + 1)).take flag.toNat ++ (if next = 0 then [] else [dot]))) := by
  obtain ⟨hinside, -⟩ := List.getElem?_eq_some_iff.mp hnext
  simp only [nameRound, byteAt_of_getElem? hflag, hzero, hlabel, if_false,
    byteAt_of_getElem? hnext, bytesAt_eq (Nat.le_of_lt hinside), Bool.false_eq_true]
  split_ifs with hend
  · rw [List.append_nil]
  · rw [List.append_assoc]

/-- A name that `dnsParseName` finds is what the rounds end with. -/
theorem mem_eval_of_dnsParseName {chunk : List UInt8} {fuel ptr : ℕ} {out name : List UInt8}
    (hname : dnsParseName chunk fuel ptr out = some name) :
    ∃ last, (last, name) ∈ eval (nameRound chunk) (ptr, out) := by
  induction fuel generalizing ptr out with
  | zero => cases hname
  | succ fuel ih =>
    have hround {next : ℕ × List UInt8} (hnext : nameRound chunk (ptr, out) = some next)
        (hmem : ∃ last, (last, name) ∈ eval (nameRound chunk) next) :
        ∃ last, (last, name) ∈ eval (nameRound chunk) (ptr, out) := by
      rwa [reaches_eval (ReflTransGen.single hnext)]
    obtain ⟨hend, rfl⟩ | ⟨flag, n, hflag, hpointer, hn, hrest⟩ |
      ⟨flag, next, hflag, hzero, hlabel, hnext, -, hrest⟩ := dnsParseName_cases hname
    · exact ⟨ptr, mem_eval.mpr ⟨ReflTransGen.refl, nameRound_ended hend name⟩⟩
    · exact hround (nameRound_pointer hflag hpointer hn out) (ih hrest)
    · exact hround (nameRound_label hflag hzero hlabel hnext out) (ih hrest)

/-! ### Positions -/

theorem follow_eq (chunk : List UInt8) (ptr : ℕ) (out : List UInt8) :
    follow chunk ptr = (nameRound chunk (ptr, out)).map Prod.fst := by
  simp only [follow, nameRound]
  split_ifs <;> rfl

theorem returns_iff_dom (chunk : List UInt8) (ptr : ℕ) :
    Returns chunk ptr ↔ (eval (follow chunk) ptr).Dom := by
  have hrespects : Respects (nameRound chunk) (follow chunk) fun state position ↦
      state.1 = position := by
    refine fun_respects.mpr fun state ↦ ?_
    have hfollow := follow_eq chunk state.1 state.2
    cases hround : nameRound chunk state with
    | none =>
      rw [hround] at hfollow
      exact hfollow
    | some next =>
      rw [hround] at hfollow
      exact TransGen.single hfollow
  rw [tr_eval_dom hrespects (show (ptr, ([] : List UInt8)).1 = ptr from rfl), Part.dom_iff_mem]
  constructor
  · rintro ⟨last, name, hreaches, hend⟩
    exact ⟨(last, name), mem_eval.mpr ⟨hreaches, hend⟩⟩
  · rintro ⟨⟨last, name⟩, hmem⟩
    exact ⟨last, name, mem_eval.mp hmem⟩

/-- Behind the buffer the parser stops. -/
theorem lt_length_of_follow {chunk : List UInt8} {ptr next : ℕ}
    (hnext : follow chunk ptr = some next) : ptr < chunk.length := by
  by_contra hbehind
  have hzero : byteAt chunk ptr = 0 := by
    rw [byteAt, List.getD_eq_getElem?_getD, List.getElem?_eq_none (Nat.not_lt.mp hbehind)]
    rfl
  simp only [follow, hzero, if_true] at hnext
  cases hnext

/-- Every position that is reached is near the buffer. -/
theorem follow_lt {chunk : List UInt8} {ptr next : ℕ} (hnext : follow chunk ptr = some next) :
    next < chunk.length + 256 := by
  have hinside := lt_length_of_follow hnext
  have hflag := (byteAt chunk ptr).toNat_lt
  have htarget := (byteAt chunk (ptr + 1)).toNat_lt
  simp only [follow] at hnext
  split_ifs at hnext
  · rw [← Option.some.inj hnext]
    omega
  · rw [← Option.some.inj hnext]
    omega

theorem finite_reaches (chunk : List UInt8) (ptr : ℕ) :
    {position | Reaches (follow chunk) ptr position}.Finite := by
  refine ((Set.finite_lt_nat (chunk.length + 256)).insert ptr).subset fun position hreaches ↦ ?_
  rcases ReflTransGen.cases_tail hreaches with hstart | ⟨previous, -, hstep⟩
  · exact Or.inl hstart
  · exact Or.inr (follow_lt hstep)

/-- A label leads upwards. -/
theorem lt_of_follow {chunk : List UInt8} {ptr next : ℕ} (hnext : follow chunk ptr = some next)
    (hlabel : ¬ isPointer (byteAt chunk ptr)) : ptr < next := by
  simp only [follow, if_neg hlabel] at hnext
  split_ifs at hnext
  rw [← Option.some.inj hnext]
  omega

/-- For every content of the buffer and every start, `dns_parse_name` returns exactly if no pointer
that it meets leads back to itself, over whatever labels and pointers stand behind its target. -/
theorem returns_iff (chunk : List UInt8) (ptr : ℕ) :
    Returns chunk ptr ↔ ∀ position, Reaches (follow chunk) ptr position →
      isPointer (byteAt chunk position) → ¬ Reaches₁ (follow chunk) position position := by
  rw [returns_iff_dom]
  exact dom_iff_of_jumps (fun _ _ hnext hlabel ↦ lt_of_follow hnext hlabel)
    (finite_reaches chunk ptr)

/-- Without a return, `dnsParseName` runs out of rounds or of memory, whatever their number is. -/
theorem dnsParseName_eq_none {chunk : List UInt8} {ptr : ℕ} (hreturns : ¬ Returns chunk ptr)
    (fuel : ℕ) : dnsParseName chunk fuel ptr [] = none := by
  refine Option.eq_none_iff_forall_not_mem.mpr fun name hname ↦ hreturns ?_
  obtain ⟨last, hlast⟩ := mem_eval_of_dnsParseName hname
  exact ⟨last, name, mem_eval.mp hlast⟩

/-- A response with one answer, which is owned by a pointer to itself. -/
def selfPointer : List UInt8 := [0, 7, 129, 128, 0, 0, 0, 1, 0, 0, 0, 0, 192, 12]

/-- The failure: from a pointer to itself the parser never returns, and `dns_parse_response` calls
it there. -/
theorem pointer_to_itself :
    ¬ Returns (buffered selfPointer) 12 ∧
      ∀ fuel, dnsParseResponse fuel (buffered selfPointer) = none := by
  have hfollow : follow (buffered selfPointer) 12 = some 12 := by decide +kernel
  have hreturns : ¬ Returns (buffered selfPointer) 12 := by
    rw [returns_iff_dom]
    exact not_dom_of_cycle ReflTransGen.refl (TransGen.single hfollow)
  refine ⟨hreturns, fun fuel ↦ ?_⟩
  have hquerys : readWord (buffered selfPointer) 4 = some 0 := by decide +kernel
  have hanswers : readWord (buffered selfPointer) 6 = some 1 := by decide +kernel
  rw [dnsParseResponse, hquerys, hanswers, Option.bind_some, Option.bind_some, skipQuerys,
    Option.bind_some, answersLoop, dnsParseName_eq_none hreturns]
  rfl

end TestLinux.AsyncDns
