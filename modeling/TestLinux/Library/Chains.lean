import Mathlib.Computability.StateTransition
import Mathlib.Data.Fintype.Card
import Mathlib.Data.Set.Finite.Basic

/-!
# Chains of states

A step function `State → Option State` leads from each state along a chain, which stops at a state
without successor or goes on forever. `StateTransition.eval` has a result in the first case. A chain
that comes back to a state never stops (`not_dom_of_cycle`), and a chain through finitely many
states that never comes back does (`dom_of_acyclic`).

Where the states are ordered and only some steps, the jumps, do not go upwards, every cycle contains
a jump, so that `dom_iff_of_jumps` has to look at these only.
-/

set_option autoImplicit false
set_option relaxedAutoImplicit false

namespace TestLinux.Chains

open StateTransition Relation

variable {State : Type*} {step : State → Option State}

/-- What is reached from a state on a cycle is on a cycle. -/
theorem cycle_of_reaches {state other : State} (hcycle : Reaches₁ step state state)
    (hreaches : Reaches step state other) : Reaches₁ step other other := by
  induction hreaches with
  | refl => exact hcycle
  | tail _ hstep ih => exact TransGen.tail' (reaches₁_fwd ih hstep) hstep

theorem not_dom_of_cycle {start state : State} (hreaches : Reaches step start state)
    (hcycle : Reaches₁ step state state) : ¬ (eval step start).Dom := by
  intro hdom
  rw [reaches_eval hreaches] at hdom
  have hfinal := Part.get_mem hdom
  exact eval_maximal₁ hfinal _ (cycle_of_reaches hcycle (mem_eval.mp hfinal).1)

/-- The states of a chain in the order in which they are left behind, the last one first. -/
def Later (step : State → Option State) (start : State)
    (first second : {state // Reaches step start state}) : Prop :=
  Reaches₁ step second.1 first.1

/-- Without cycles, going on along a chain through finitely many states is well-founded. -/
theorem wellFounded_later {start : State} (hfinite : {state | Reaches step start state}.Finite)
    (hacyclic : ∀ state, Reaches step start state → ¬ Reaches₁ step state state) :
    WellFounded (Later step start) := by
  have : Finite {state // Reaches step start state} := hfinite
  have : IsTrans {state // Reaches step start state} (Later step start) :=
    ⟨fun _ _ _ hfirst hsecond ↦ hsecond.trans hfirst⟩
  have : Std.Irrefl (Later step start) := ⟨fun state ↦ hacyclic state.1 state.2⟩
  exact Finite.wellFounded_of_trans_of_irrefl (Later step start)

theorem dom_of_acyclic {start : State} (hfinite : {state | Reaches step start state}.Finite)
    (hacyclic : ∀ state, Reaches step start state → ¬ Reaches₁ step state state) :
    (eval step start).Dom := by
  have hall : ∀ state : {state // Reaches step start state}, (eval step state.1).Dom := by
    intro state
    induction state using (wellFounded_later hfinite hacyclic).induction with
    | _ state ih =>
      cases hnext : step state.1 with
      | none => exact Part.dom_iff_mem.mpr ⟨state.1, mem_eval.mpr ⟨ReflTransGen.refl, hnext⟩⟩
      | some next =>
        have hreaches : Reaches step start next := state.2.tail hnext
        rw [reaches_eval (ReflTransGen.single hnext)]
        exact ih ⟨next, hreaches⟩ (TransGen.single hnext)
  exact hall ⟨start, ReflTransGen.refl⟩

/-- Steps that are not jumps go upwards, so that a way that does not go upwards contains a jump. -/
theorem lt_or_exists_jump [Preorder State] {jump : State → Prop}
    (hupwards : ∀ state next, next ∈ step state → ¬ jump state → state < next)
    {first last : State} (hreaches : Reaches₁ step first last) :
    first < last ∨ ∃ state, jump state ∧ Reaches step first state := by
  induction hreaches with
  | @single last hstep =>
    by_cases hjump : jump first
    · exact Or.inr ⟨first, hjump, ReflTransGen.refl⟩
    · exact Or.inl (hupwards first last hstep hjump)
  | @tail middle last hmiddle hstep ih =>
    rcases ih with hlt | hjump
    · by_cases hjump : jump middle
      · exact Or.inr ⟨middle, hjump, hmiddle.to_reflTransGen⟩
      · exact Or.inl (hlt.trans (hupwards middle last hstep hjump))
    · exact Or.inr hjump

/-- A chain through finitely many states stops exactly if no jump that it reaches leads back to
itself. Assumes: every step that is not a jump goes upwards. -/
theorem dom_iff_of_jumps [Preorder State] {jump : State → Prop}
    (hupwards : ∀ state next, next ∈ step state → ¬ jump state → state < next) {start : State}
    (hfinite : {state | Reaches step start state}.Finite) :
    (eval step start).Dom ↔
      ∀ state, Reaches step start state → jump state → ¬ Reaches₁ step state state := by
  constructor
  · intro hdom state hreaches _ hcycle
    exact not_dom_of_cycle hreaches hcycle hdom
  · intro hjumps
    refine dom_of_acyclic hfinite fun state hreaches hcycle ↦ ?_
    rcases lt_or_exists_jump hupwards hcycle with hlt | ⟨other, hjump, hto⟩
    · exact lt_irrefl state hlt
    · exact hjumps other (hreaches.trans hto) hjump (cycle_of_reaches hcycle hto)

end TestLinux.Chains
