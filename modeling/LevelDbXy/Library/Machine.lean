import Mathlib.Data.List.Basic

/-!
# Machines and their runs

A machine is a partial step function: `step state action` is `none` when the action is
not possible in that state. A run takes a list of actions in order. `Machine.Meets` says
that every step of a run is taken in a state that meets a condition on steps, and
`Machine.run_invariant` is the induction over such a run. `Machine.Always` says that every
state of a run has a property, and `Machine.always_iff_meets` when that comes down to a
condition on its steps.
-/

namespace Machine

variable {State Action : Type*}

/-- Take the actions one after the other. -/
def run (step : State → Action → Option State) (state : State) (actions : List Action) :
    Option State :=
  actions.foldlM step state

/-- Every step that the run takes meets the condition. -/
def Meets (step : State → Action → Option State) (condition : State → Action → Prop) :
    State → List Action → Prop
  | _, [] => True
  | state, action :: actions => condition state action ∧
      ∀ next, step state action = some next → Meets step condition next actions

/-- Every state that the run passes through has the property. -/
def Always (step : State → Action → Option State) (property : State → Prop) :
    State → List Action → Prop
  | state, [] => property state
  | state, action :: actions => property state ∧
      ∀ next, step state action = some next → Always step property next actions

variable {step : State → Action → Option State} {condition : State → Action → Prop}

/-- A run is a step and a run from there. -/
theorem run_cons_eq_some {state final : State} {action : Action} {actions : List Action} :
    run step state (action :: actions) = some final ↔
      ∃ next, step state action = some next ∧ run step next actions = some final := by
  rw [run, List.foldlM_cons]
  exact Option.bind_eq_some_iff

/-- A run meets a condition if its first action and the rest of it do. -/
theorem meets_cons_of_some {state next : State} {action : Action} {actions : List Action}
    (stepped : step state action = some next) :
    Meets step condition state (action :: actions) ↔
      condition state action ∧ Meets step condition next actions := by
  simp [Meets, stepped]

/-- Where the machine stops, only the action that stops it is asked for the condition. -/
theorem meets_cons_of_none {state : State} {action : Action} {actions : List Action}
    (stuck : step state action = none) :
    Meets step condition state (action :: actions) ↔ condition state action := by
  simp [Meets, stuck]

/-- A run meets a condition when its first step and the run from there do. -/
theorem meets_of_step {state next : State} {action : Action} {actions : List Action}
    (stepped : step state action = some next) (meets : condition state action)
    (rest : Meets step condition next actions) :
    Meets step condition state (action :: actions) := by
  exact (meets_cons_of_some stepped).mpr ⟨meets, rest⟩

/-- A condition that every step meets. -/
theorem meets_of_forall (all : ∀ state action, condition state action) (state : State)
    (actions : List Action) : Meets step condition state actions := by
  induction actions generalizing state with
  | nil => trivial
  | cons action actions inductionHypothesis =>
    exact ⟨all state action, fun next _ => inductionHypothesis next⟩

/-- A condition on the actions alone can be added to one on the steps. -/
theorem Meets.and_forall {wanted : Action → Prop} {state : State} {actions : List Action}
    (meets : Meets step condition state actions) (all : ∀ action ∈ actions, wanted action) :
    Meets step (fun state action => condition state action ∧ wanted action) state actions := by
  induction actions generalizing state with
  | nil => trivial
  | cons action actions inductionHypothesis =>
    refine ⟨⟨meets.1, all action List.mem_cons_self⟩, fun next stepped => ?_⟩
    exact inductionHypothesis (meets.2 next stepped) fun later member =>
      all later (List.mem_cons_of_mem action member)

/-- A decidable condition on steps can be checked along a run. -/
instance decidableMeets [∀ state action, Decidable (condition state action)] :
    ∀ state actions, Decidable (Meets step condition state actions)
  | _, [] => isTrue trivial
  | state, action :: actions =>
    match stepped : step state action with
    | none => decidable_of_iff _ (meets_cons_of_none stepped).symm
    | some next =>
      haveI := decidableMeets next actions
      decidable_of_iff _ (meets_cons_of_some stepped).symm

/-- A run can be cut into two. -/
theorem run_append_eq_some {state final : State} {earlier later : List Action} :
    run step state (earlier ++ later) = some final ↔
      ∃ middle, run step state earlier = some middle ∧ run step middle later = some final := by
  rw [run, List.foldlM_append]
  exact Option.bind_eq_some_iff

/-- A run that meets a condition meets it in both of its parts. -/
theorem meets_append {state : State} {earlier later : List Action}
    (meets : Meets step condition state (earlier ++ later)) :
    Meets step condition state earlier ∧
      ∀ middle, run step state earlier = some middle → Meets step condition middle later := by
  induction earlier generalizing state with
  | nil =>
    refine ⟨trivial, fun middle reached => ?_⟩
    obtain rfl : state = middle := by simpa [run] using reached
    exact meets
  | cons action earlier inductionHypothesis =>
    refine ⟨⟨meets.1, fun next stepped => (inductionHypothesis (meets.2 next stepped)).1⟩,
      fun middle reached => ?_⟩
    obtain ⟨next, stepped, rest⟩ := run_cons_eq_some.mp reached
    exact (inductionHypothesis (meets.2 next stepped)).2 middle rest

/-- What each step that meets the condition keeps holds after the run. -/
theorem run_invariant {invariant : State → Prop}
    (keeps : ∀ {state action next}, invariant state → condition state action →
      step state action = some next → invariant next)
    {actions : List Action} {state final : State} (start : invariant state)
    (meets : Meets step condition state actions) (ran : run step state actions = some final) :
    invariant final := by
  induction actions generalizing state with
  | nil =>
    obtain rfl : state = final := by simpa [run] using ran
    exact start
  | cons action actions inductionHypothesis =>
    obtain ⟨next, stepped, rest⟩ := run_cons_eq_some.mp ran
    exact inductionHypothesis (keeps start meets.1 stepped) (meets.2 next stepped) rest

/-- What every step keeps holds after any run. -/
theorem run_keeps {invariant : State → Prop}
    (keeps : ∀ {state action next}, invariant state → step state action = some next →
      invariant next)
    {actions : List Action} {state final : State} (start : invariant state)
    (ran : run step state actions = some final) : invariant final :=
  run_invariant (fun holds (_ : True) stepped => keeps holds stepped) start
    (meets_of_forall (fun _ _ => trivial) state actions) ran

/-- What always holds holds at the start. -/
theorem Always.head {property : State → Prop} {state : State} {actions : List Action}
    (always : Always step property state actions) : property state := by
  cases actions with
  | nil => exact always
  | cons action actions => exact always.1

/-- A property that follows from what the steps keep holds in every state of the run. -/
theorem always_of_invariant {invariant property : State → Prop}
    (keeps : ∀ {state action next}, invariant state → condition state action →
      step state action = some next → invariant next)
    (holds : ∀ {state}, invariant state → property state) {actions : List Action} {state : State}
    (start : invariant state) (meets : Meets step condition state actions) :
    Always step property state actions := by
  induction actions generalizing state with
  | nil => exact holds start
  | cons action actions inductionHypothesis =>
    refine ⟨holds start, fun next stepped => ?_⟩
    exact inductionHypothesis (keeps start meets.1 stepped) (meets.2 next stepped)

/-- If a step from a state with the property meets the condition exactly when it leads to such
a state again, then a run stays in such states exactly when all its steps meet it. -/
theorem always_iff_meets {invariant property : State → Prop}
    (keeps : ∀ {state action next}, invariant state → step state action = some next →
      invariant next)
    (exact_ : ∀ {state action}, invariant state → property state →
      (condition state action ↔ ∀ next, step state action = some next → property next))
    {actions : List Action} {state : State} (start : invariant state) (holds : property state) :
    Always step property state actions ↔ Meets step condition state actions := by
  induction actions generalizing state with
  | nil => exact iff_of_true holds trivial
  | cons action actions inductionHypothesis =>
    constructor
    · rintro ⟨-, later⟩
      have met := (exact_ start holds).mpr fun next stepped => (later next stepped).head
      refine ⟨met, fun next stepped => ?_⟩
      have holdsNext := (exact_ start holds).mp met next stepped
      exact (inductionHypothesis (keeps start stepped) holdsNext).mp (later next stepped)
    · rintro ⟨met, later⟩
      refine ⟨holds, fun next stepped => ?_⟩
      have holdsNext := (exact_ start holds).mp met next stepped
      exact (inductionHypothesis (keeps start stepped) holdsNext).mpr (later next stepped)

/-- A run follows the abstract one, if a relation between the two states and the actions to come
is passed on by each step. -/
theorem run_relates {Abstract : Type*} {abstract : Abstract → Action → Abstract}
    {relation : State → Abstract → List Action → Prop}
    (passes : ∀ {state abs action actions}, relation state abs (action :: actions) →
      ∃ next, step state action = some next ∧ relation next (abstract abs action) actions)
    {actions : List Action} {state : State} {abs : Abstract}
    (start : relation state abs actions) :
    ∃ final, run step state actions = some final ∧
      relation final (actions.foldl abstract abs) [] := by
  induction actions generalizing state abs with
  | nil => exact ⟨state, rfl, start⟩
  | cons action actions inductionHypothesis =>
    obtain ⟨next, stepped, related⟩ := passes start
    obtain ⟨final, ran, after⟩ := inductionHypothesis related
    exact ⟨final, run_cons_eq_some.mpr ⟨next, stepped, ran⟩, after⟩

/-- If each step that meets the condition is possible and follows the abstract one, then so is
the run. -/
theorem run_simulates {Abstract : Type*} {abstract : Abstract → Action → Abstract}
    (relation : State → Abstract → Prop)
    (simulates : ∀ state abs action, relation state abs → condition state action →
      ∃ next, step state action = some next ∧ relation next (abstract abs action))
    {actions : List Action} {state : State} {abs : Abstract} (start : relation state abs)
    (meets : Meets step condition state actions) :
    ∃ final, run step state actions = some final ∧ relation final (actions.foldl abstract abs) := by
  obtain ⟨final, ran, after, -⟩ := @run_relates _ _ step _ abstract
    (fun state abs actions => relation state abs ∧ Meets step condition state actions)
    (fun {state abs action actions} related => by
      obtain ⟨next, stepped, after⟩ := simulates state abs action related.1 related.2.1
      exact ⟨next, stepped, after, related.2.2 next stepped⟩)
    actions state abs ⟨start, meets⟩
  exact ⟨final, ran, after⟩

/-- The same for a condition on the steps of the abstract machine. -/
theorem run_implements {Abstract : Type*} {abstract : Abstract → Action → Abstract}
    {possible : Abstract → Action → Prop} (relation : State → Abstract → Prop)
    (simulates : ∀ state abs action, relation state abs → possible abs action →
      ∃ next, step state action = some next ∧ relation next (abstract abs action))
    {actions : List Action} {state : State} {abs : Abstract} (start : relation state abs)
    (meets : Meets (fun abs action => some (abstract abs action)) possible abs actions) :
    ∃ final, run step state actions = some final ∧ relation final (actions.foldl abstract abs) := by
  obtain ⟨final, ran, after, -⟩ := @run_relates _ _ step _ abstract
    (fun state abs actions => relation state abs ∧
      Meets (fun abs action => some (abstract abs action)) possible abs actions)
    (fun {state abs action actions} related => by
      obtain ⟨next, stepped, after⟩ := simulates state abs action related.1 related.2.1
      exact ⟨next, stepped, after, related.2.2 _ rfl⟩)
    actions state abs ⟨start, meets⟩
  exact ⟨final, ran, after⟩

/-- If each step that meets the condition is possible and keeps the invariant, then the run is
possible and keeps it. -/
theorem run_possible {invariant : State → Prop}
    (keeps : ∀ {state action}, invariant state → condition state action →
      ∃ next, step state action = some next ∧ invariant next)
    {actions : List Action} {state : State} (start : invariant state)
    (meets : Meets step condition state actions) :
    ∃ final, run step state actions = some final ∧ invariant final :=
  @run_simulates _ _ step condition Unit (fun _ _ => ()) (fun state _ => invariant state)
    (fun _ _ _ holds met => keeps holds met) actions state () start meets

end Machine
