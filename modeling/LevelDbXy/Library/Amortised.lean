import LevelDbXy.Library.Machine
import Mathlib.Algebra.BigOperators.Group.List.Basic
import Mathlib.Tactic.Ring

/-!
# Accounts of whole runs

What a run adds up to, from what each step adds: a quantity that every step changes by
what its action brings is conserved, and the cost of a run is bounded by what it is charged
and a potential that each step may save in or draw from.
-/

namespace Machine

variable {State Action : Type*} {step : State → Action → Option State}

/-- What the steps of a run are charged in all. -/
def charged (step : State → Action → Option State) (charge : State → Action → Nat) :
    State → List Action → Nat
  | _, [] => 0
  | state, action :: actions =>
    charge state action + ((step state action).elim 0 fun next => charged step charge next actions)

/-- A step is charged before the rest of the run. -/
theorem charged_cons {charge : State → Action → Nat} {state next : State} {action : Action}
    (stepped : step state action = some next) (actions : List Action) :
    charged step charge state (action :: actions) =
      charge state action + charged step charge next actions := by
  rw [charged, stepped, Option.elim_some]

/-- A charge for the action alone is the sum over the actions. -/
theorem charged_eq_sum (charge : Action → Nat) {state final : State} {actions : List Action}
    (ran : run step state actions = some final) :
    charged step (fun _ action => charge action) state actions = (actions.map charge).sum := by
  induction actions generalizing state with
  | nil => rfl
  | cons action actions inductionHypothesis =>
    obtain ⟨next, stepped, rest⟩ := run_cons_eq_some.mp ran
    rw [charged_cons stepped, inductionHypothesis rest, List.map_cons, List.sum_cons]

/-- Two charges can be made apart. -/
theorem charged_add (first second : State → Action → Nat) (state : State) (actions : List Action) :
    charged step (fun state action => first state action + second state action) state actions =
      charged step first state actions + charged step second state actions := by
  induction actions generalizing state with
  | nil => rfl
  | cons action actions inductionHypothesis =>
    simp only [charged]
    cases step state action with
    | none => simp only [Option.elim_none]; omega
    | some next => simp only [Option.elim_some, inductionHypothesis next]; omega

/-- A charge can be made at another rate. -/
theorem charged_mul (rate : Nat) (charge : State → Action → Nat) (state : State)
    (actions : List Action) :
    charged step (fun state action => rate * charge state action) state actions =
      rate * charged step charge state actions := by
  induction actions generalizing state with
  | nil => rfl
  | cons action actions inductionHypothesis =>
    simp only [charged]
    cases step state action with
    | none => simp only [Option.elim_none]; ring
    | some next => simp only [Option.elim_some, inductionHypothesis next]; ring

/-- A condition that all actions of the run meet. -/
theorem meets_of_actions {wanted : Action → Prop} {actions : List Action}
    (all : ∀ action ∈ actions, wanted action) (state : State) :
    Meets step (fun _ action => wanted action) state actions := by
  induction actions generalizing state with
  | nil => trivial
  | cons action actions inductionHypothesis =>
    refine ⟨all action List.mem_cons_self, fun next _ => inductionHypothesis ?_ next⟩
    exact fun later member => all later (List.mem_cons_of_mem action member)

/-- If every step pays its cost from its charge and the potential, so does the run. -/
theorem run_amortised {condition : State → Action → Prop} {invariant : State → Prop}
    {cost charge : State → Action → Nat} {potential : State → Nat}
    (keeps : ∀ {state action next}, invariant state → condition state action →
      step state action = some next → invariant next)
    (pays : ∀ {state action next}, invariant state → condition state action →
      step state action = some next →
        cost state action + potential next ≤ potential state + charge state action)
    {actions : List Action} {state final : State} (start : invariant state)
    (meets : Meets step condition state actions) (ran : run step state actions = some final) :
    charged step cost state actions + potential final ≤
      potential state + charged step charge state actions := by
  induction actions generalizing state with
  | nil =>
    obtain rfl : state = final := by simpa [run] using ran
    exact Nat.le_of_eq (Nat.add_comm _ _)
  | cons action actions inductionHypothesis =>
    obtain ⟨next, stepped, rest⟩ := run_cons_eq_some.mp ran
    have later := inductionHypothesis (keeps start meets.1 stepped) (meets.2 next stepped) rest
    have now := pays start meets.1 stepped
    rw [charged_cons stepped, charged_cons stepped]
    omega

/-- A quantity grows in a run by what the actions bring. -/
theorem run_conserves {Quantity : Type*} [AddCommMonoid Quantity]
    {condition : State → Action → Prop} {invariant : State → Prop} {quantity : State → Quantity}
    {brings : Action → Quantity}
    (keeps : ∀ {state action next}, invariant state → condition state action →
      step state action = some next → invariant next)
    (grows : ∀ {state action next}, invariant state → condition state action →
      step state action = some next → quantity next = quantity state + brings action)
    {actions : List Action} {state final : State} (start : invariant state)
    (meets : Meets step condition state actions) (ran : run step state actions = some final) :
    quantity final = quantity state + (actions.map brings).sum := by
  induction actions generalizing state with
  | nil =>
    obtain rfl : state = final := by simpa [run] using ran
    simp
  | cons action actions inductionHypothesis =>
    obtain ⟨next, stepped, rest⟩ := run_cons_eq_some.mp ran
    have later := inductionHypothesis (keeps start meets.1 stepped) (meets.2 next stepped) rest
    rw [later, grows start meets.1 stepped, List.map_cons, List.sum_cons, add_assoc]

end Machine
