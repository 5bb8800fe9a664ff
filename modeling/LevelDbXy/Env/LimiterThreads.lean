import LevelDbXy.Env.RandomAccessFile
import Mathlib.Algebra.BigOperators.Group.Finset.Basic
import Mathlib.Algebra.Order.BigOperators.Group.Finset

/-!
# Threads in a limiter

`Limiter` of `env/env_posix.cpp` under any number of threads. A call of `Acquire` is two
atomic steps when it is refused: it has taken from the counter what it then gives back, and
other threads decide on the value in between. The counter is what the grants and these
attempts leave of the limit (`Consistent.counter`), so nobody is granted more than there is.
-/

namespace LevelDbXy.LimiterThreads

open Posix

/-- Where a thread stands. -/
inductive Phase where
  | idle
  /-- In `Acquire`, before `fetch_sub`. -/
  | acquiring
  /-- In `Acquire`, after `fetch_sub` has returned the old value. -/
  | subtracted (old : Int)
  /-- In `Release`, before `fetch_add`. -/
  | releasing
  deriving DecidableEq, Repr

/-- The counter, the threads, and how many calls of `Acquire` have returned true without a
call of `Release` since. -/
structure State (Thread : Type) where
  acquiresAllowed : Int
  phase : Thread → Phase
  granted : Nat
  /-- Every assertion evaluated so far was true. -/
  assertsHold : Bool

/-- A thread calls `Acquire` or `Release`, or takes the next step of its call. -/
inductive Action (Thread : Type) where
  | acquire (name : Thread)
  | release (name : Thread)
  | advance (name : Thread)
  deriving DecidableEq, Repr

variable {Thread : Type} [DecidableEq Thread]

/-- `Limiter::Limiter`. -/
def State.initial (maxAcquires : Int) : State Thread := ⟨maxAcquires, fun _ => .idle, 0, true⟩

/-- The thread stands at another point. -/
def State.goto (state : State Thread) (name : Thread) (next : Phase) : State Thread :=
  { state with phase := Function.update state.phase name next }

/-- `fetch_add(1)` with the assertion on the value it returns. -/
def State.giveBack (state : State Thread) (maxAcquires : Int) : State Thread :=
  { state with
    acquiresAllowed := truncI32 (state.acquiresAllowed + 1)
    assertsHold := state.assertsHold && decide (state.acquiresAllowed < maxAcquires) }

/-- One step of one thread. `Release` is called once for each `Acquire` that returned true. -/
def step (maxAcquires : Int) (state : State Thread) : Action Thread → Option (State Thread)
  | .acquire name => if state.phase name = .idle then some (state.goto name .acquiring) else none
  | .release name =>
    if state.phase name = .idle ∧ 0 < state.granted then
      some ({ state with granted := state.granted - 1 }.goto name .releasing)
    else none
  | .advance name =>
    match state.phase name with
    | .idle => none
    | .acquiring =>
      some ({ state with acquiresAllowed := truncI32 (state.acquiresAllowed - 1) }.goto name
        (.subtracted state.acquiresAllowed))
    | .subtracted old =>
      if 0 < old then some ({ state with granted := state.granted + 1 }.goto name .idle)
      else some ((state.giveBack maxAcquires).goto name .idle)
    | .releasing => some ((state.giveBack maxAcquires).goto name .idle)

/-! ### What the threads have taken -/

/-- The thread has a grant that its call has not returned, or not given back yet. -/
def Phase.grant : Phase → Nat
  | .subtracted old => if 0 < old then 1 else 0
  | .releasing => 1
  | _ => 0

/-- The thread has taken from the counter what it will give back. -/
def Phase.attempt : Phase → Nat
  | .subtracted old => if 0 < old then 0 else 1
  | _ => 0

/-- The thread is in a call. -/
def Phase.busy : Phase → Nat
  | .idle => 0
  | _ => 1

@[simp] theorem grant_idle : Phase.idle.grant = 0 := rfl

@[simp] theorem attempt_idle : Phase.idle.attempt = 0 := rfl

@[simp] theorem busy_idle : Phase.idle.busy = 0 := rfl

variable [Fintype Thread]

/-- The acquisitions granted and not released. -/
def State.outstanding (state : State Thread) : Nat :=
  state.granted + ∑ thread, (state.phase thread).grant

/-- The refused attempts that have not given back what they took. -/
def State.attempts (state : State Thread) : Nat := ∑ thread, (state.phase thread).attempt

/-- The threads in a call. -/
def State.inCall (state : State Thread) : Nat := ∑ thread, (state.phase thread).busy

/-- A thread begins a call only while fewer than 2^31 threads are in one, itself included. -/
def FewThreads (state : State Thread) : Action Thread → Prop
  | .advance _ => True
  | _ => state.inCall + 1 < 2 ^ 31

instance (state : State Thread) : ∀ action, Decidable (FewThreads state action)
  | .acquire _ => inferInstanceAs (Decidable (_ < _))
  | .release _ => inferInstanceAs (Decidable (_ < _))
  | .advance _ => isTrue trivial

/-- A total over the threads after one of them has moved. -/
theorem sum_goto (state : State Thread) (name : Thread) (next : Phase) (weight : Phase → Nat) :
    ∑ thread, weight ((state.goto name next).phase thread) + weight (state.phase name) =
      ∑ thread, weight (state.phase thread) + weight next := by
  have moved := Finset.add_sum_erase Finset.univ
    (fun thread => weight ((state.goto name next).phase thread)) (Finset.mem_univ name)
  have before := Finset.add_sum_erase Finset.univ (fun thread => weight (state.phase thread))
    (Finset.mem_univ name)
  have others : ∑ thread ∈ Finset.univ.erase name, weight ((state.goto name next).phase thread) =
      ∑ thread ∈ Finset.univ.erase name, weight (state.phase thread) := by
    apply Finset.sum_congr rfl
    intro thread member
    simp [State.goto, Function.update_of_ne (Finset.ne_of_mem_erase member)]
  simp only [State.goto, Function.update_self] at moved others ⊢
  omega

omit [DecidableEq Thread] in
/-- A refused attempt is a thread in a call. -/
theorem attempts_le_inCall (state : State Thread) : state.attempts ≤ state.inCall := by
  apply Finset.sum_le_sum
  intro thread _
  cases state.phase thread with
  | idle => exact Nat.le_refl 0
  | acquiring => exact Nat.zero_le 1
  | releasing => exact Nat.zero_le 1
  | subtracted old =>
    simp only [Phase.attempt, Phase.busy]
    split <;> omega

/-! ### The invariant -/

/-- The counter is what the grants and the refused attempts leave of the limit. -/
structure Consistent (maxAcquires : Int) (state : State Thread) : Prop where
  counter : state.acquiresAllowed = maxAcquires - state.outstanding - state.attempts
  bounded : (state.outstanding : Int) ≤ maxAcquires
  few : state.inCall < 2 ^ 31
  asserts : state.assertsHold = true

omit [DecidableEq Thread] in
/-- At first all of the limit is left. -/
theorem initial_consistent {maxAcquires : Int} (nonneg : 0 ≤ maxAcquires) :
    Consistent maxAcquires (State.initial maxAcquires : State Thread) := by
  constructor <;> simp [State.initial, State.outstanding, State.attempts, State.inCall,
    Phase.grant, Phase.attempt, Phase.busy, nonneg]

/-- Values a limit can bring the counter to are not changed by `int32_t`. -/
theorem truncI32_of_range {value : Int} (low : -2 ^ 31 ≤ value) (high : value < 2 ^ 31) :
    truncI32 value = value :=
  Int.bmod_eq_of_le (by omega) (by omega)

section Steps

variable {maxAcquires : Int} {state : State Thread} {name : Thread}

/-- What one thread's move makes of the totals, with the counter, the grants and the assertions
it leaves. -/
theorem totals_goto (state : State Thread) (name : Thread) (next : Phase) (counter : Int)
    (granted : Nat) (asserts : Bool) :
    ((State.mk counter state.phase granted asserts).goto name next).outstanding + state.granted +
        (state.phase name).grant = state.outstanding + granted + next.grant ∧
      ((State.mk counter state.phase granted asserts).goto name next).attempts +
        (state.phase name).attempt = state.attempts + next.attempt ∧
      ((State.mk counter state.phase granted asserts).goto name next).inCall +
        (state.phase name).busy = state.inCall + next.busy := by
  have grants := sum_goto (State.mk counter state.phase granted asserts) name next Phase.grant
  have attempts := sum_goto (State.mk counter state.phase granted asserts) name next Phase.attempt
  have calls := sum_goto (State.mk counter state.phase granted asserts) name next Phase.busy
  refine ⟨?_, attempts, calls⟩
  simp only [State.outstanding]
  simp only [State.goto] at grants ⊢
  omega

/-- A thread moves with the counter as it is. -/
theorem Consistent.move (consistent : Consistent maxAcquires state) {next : Phase} {granted : Nat}
    (grants : granted + next.grant = state.granted + (state.phase name).grant)
    (attempts : next.attempt = (state.phase name).attempt)
    (few : state.inCall + next.busy < 2 ^ 31 + (state.phase name).busy) :
    Consistent maxAcquires ({ state with granted := granted }.goto name next) := by
  obtain ⟨counter, bounded, -, asserts⟩ := consistent
  obtain ⟨grantsAfter, attemptsAfter, callsAfter⟩ :=
    totals_goto state name next state.acquiresAllowed granted state.assertsHold
  refine ⟨?_, ?_, ?_, asserts⟩
  · change state.acquiresAllowed = _
    omega
  · omega
  · omega

/-- A thread gives back one unit that it has taken. -/
theorem Consistent.giveBack (consistent : Consistent maxAcquires state)
    (limit : maxAcquires < 2 ^ 31)
    (taken : (state.phase name).grant + (state.phase name).attempt = 1) :
    Consistent maxAcquires ((state.giveBack maxAcquires).goto name .idle) := by
  obtain ⟨counter, bounded, few, asserts⟩ := consistent
  have fewAttempts := attempts_le_inCall state
  obtain ⟨grantsAfter, attemptsAfter, callsAfter⟩ :=
    totals_goto state name .idle (truncI32 (state.acquiresAllowed + 1)) state.granted
      (state.assertsHold && decide (state.acquiresAllowed < maxAcquires))
  simp only [grant_idle, attempt_idle, busy_idle] at grantsAfter attemptsAfter callsAfter
  have below : state.acquiresAllowed < maxAcquires := by omega
  refine ⟨?_, ?_, ?_, ?_⟩
  · change truncI32 (state.acquiresAllowed + 1) = _
    exact (truncI32_of_range (by omega) (by omega)).trans (by simp only [State.giveBack]; omega)
  · simp only [State.giveBack]
    omega
  · simp only [State.giveBack]
    omega
  · change (state.assertsHold && decide (state.acquiresAllowed < maxAcquires)) = true
    rw [asserts, decide_eq_true below]
    rfl

/-- `fetch_sub` of a thread that is granted or refused by the value it gets. -/
theorem Consistent.fetchSub (consistent : Consistent maxAcquires state)
    (limit : maxAcquires < 2 ^ 31) (standing : state.phase name = .acquiring) :
    Consistent maxAcquires
      ({ state with acquiresAllowed := truncI32 (state.acquiresAllowed - 1) }.goto name
        (.subtracted state.acquiresAllowed)) := by
  obtain ⟨counter, bounded, few, asserts⟩ := consistent
  obtain ⟨grantsAfter, attemptsAfter, callsAfter⟩ :=
    totals_goto state name (.subtracted state.acquiresAllowed)
      (truncI32 (state.acquiresAllowed - 1)) state.granted state.assertsHold
  have fewAttempts := attempts_le_inCall
    ({ state with acquiresAllowed := truncI32 (state.acquiresAllowed - 1) }.goto name
      (.subtracted state.acquiresAllowed))
  rw [standing] at grantsAfter attemptsAfter callsAfter
  simp only [Phase.grant, Phase.attempt, Phase.busy] at grantsAfter attemptsAfter callsAfter
  refine ⟨?_, ?_, ?_, asserts⟩
  · change truncI32 (state.acquiresAllowed - 1) = _
    split_ifs at grantsAfter attemptsAfter
    · exact (truncI32_of_range (by omega) (by omega)).trans (by omega)
    · exact (truncI32_of_range (by omega) (by omega)).trans (by omega)
  · split_ifs at grantsAfter attemptsAfter <;> omega
  · omega

/-- Every step keeps the invariant while fewer than 2^31 threads are in a call. -/
theorem Consistent.step {action : Action Thread} {after : State Thread}
    (limit : maxAcquires < 2 ^ 31) (consistent : Consistent maxAcquires state)
    (few : FewThreads state action)
    (stepped : LimiterThreads.step maxAcquires state action = some after) :
    Consistent maxAcquires after := by
  cases action with
  | acquire name =>
    simp only [LimiterThreads.step] at stepped
    split_ifs at stepped with standing
    cases stepped
    exact consistent.move (by rw [standing]; rfl) (by rw [standing]; rfl)
      (by rw [standing]; exact few)
  | release name =>
    simp only [LimiterThreads.step] at stepped
    split_ifs at stepped with allowed
    obtain ⟨standing, some_⟩ := allowed
    cases stepped
    refine consistent.move ?_ (by rw [standing]; rfl) (by rw [standing]; exact few)
    rw [standing]
    simp only [Phase.grant]
    omega
  | advance name =>
    have calls := consistent.few
    simp only [LimiterThreads.step] at stepped
    cases standing : state.phase name with
    | idle =>
      rw [standing] at stepped
      cases stepped
    | acquiring =>
      rw [standing] at stepped
      cases stepped
      exact consistent.fetchSub limit standing
    | subtracted old =>
      rw [standing] at stepped
      dsimp only at stepped
      split_ifs at stepped with granted
      · cases stepped
        apply consistent.move
        · rw [standing]
          simp [Phase.grant, granted]
        · rw [standing]
          simp [Phase.attempt, granted]
        · rw [standing]
          simp only [Phase.busy]
          omega
      · cases stepped
        apply consistent.giveBack limit
        rw [standing]
        simp [Phase.grant, Phase.attempt, granted]
    | releasing =>
      rw [standing] at stepped
      cases stepped
      apply consistent.giveBack limit
      rw [standing]
      rfl

omit [Fintype Thread] in
/-- A call of `Acquire` with no step of another thread in it is the call of `Posix.Limiter`. -/
theorem run_acquire_alone (standing : state.phase name = .idle)
    (low : -2 ^ 31 < state.acquiresAllowed) (high : state.acquiresAllowed < 2 ^ 31) :
    ∃ after, Machine.run (LimiterThreads.step maxAcquires) state
        [.acquire name, .advance name, .advance name] = some after ∧
      after.phase name = .idle ∧
      (Limiter.acquire ⟨state.acquiresAllowed⟩).2 = ⟨after.acquiresAllowed⟩ ∧
      after.granted = state.granted + (Limiter.acquire ⟨state.acquiresAllowed⟩).1.toNat := by
  have taken := truncI32_of_range (show -2 ^ 31 ≤ state.acquiresAllowed - 1 by omega) (by omega)
  have restored := truncI32_of_range (show -2 ^ 31 ≤ state.acquiresAllowed by omega) high
  by_cases free : 0 < state.acquiresAllowed
  · simp [Machine.run, LimiterThreads.step, State.goto, standing, Limiter.acquire, free, taken]
  · simp [Machine.run, LimiterThreads.step, State.goto, State.giveBack, standing, Limiter.acquire,
      free, taken, restored]

end Steps

/-- However the threads are interleaved, no more is granted than the limit, the assertions hold,
and between calls the counter is the limit less the grants. -/
theorem limiter_never_over_grants (maxAcquires : Int) (nonneg : 0 ≤ maxAcquires)
    (limit : maxAcquires < 2 ^ 31) (actions : List (Action Thread)) (final : State Thread)
    (few : Machine.Meets (step maxAcquires) FewThreads (State.initial maxAcquires) actions)
    (ran : Machine.run (step maxAcquires) (State.initial maxAcquires) actions = some final) :
    (final.outstanding : Int) ≤ maxAcquires ∧ final.assertsHold = true ∧
      ((∀ thread, final.phase thread = .idle) →
        final.outstanding = final.granted ∧
          final.acquiresAllowed = maxAcquires - final.outstanding) := by
  have consistent : Consistent maxAcquires final :=
    Machine.run_invariant (fun consistent few stepped => consistent.step limit few stepped)
      (initial_consistent nonneg) few ran
  refine ⟨consistent.bounded, consistent.asserts, fun quiet => ?_⟩
  have noGrants : ∑ thread, (final.phase thread).grant = 0 := by simp [quiet]
  have noAttempts : final.attempts = 0 := by simp [State.attempts, quiet]
  refine ⟨by rw [State.outstanding, noGrants, Nat.add_zero], ?_⟩
  rw [consistent.counter, noAttempts]
  simp

/-- Two threads and a limit of one: the second is refused between the two steps of the first,
and gives back what it took after the first has released. -/
theorem limiter_never_over_grants_refused :
    ∃ final : State (Fin 2), Machine.run (step 1) (State.initial 1)
        [.acquire 0, .acquire 1, .advance 0, .advance 1, .advance 0, .release 0, .advance 0,
          .advance 1] = some final ∧ final.assertsHold = true ∧ final.acquiresAllowed = 1 := by
  obtain ⟨final, ran⟩ : ∃ final : State (Fin 2), Machine.run (step 1) (State.initial 1)
      [.acquire 0, .acquire 1, .advance 0, .advance 1, .advance 0, .release 0, .advance 0,
        .advance 1] = some final := Option.isSome_iff_exists.mp (by decide)
  obtain ⟨-, asserts, -⟩ := limiter_never_over_grants 1 (by decide) (by decide) _ final
    (by decide) ran
  have counter : (Machine.run (step 1) (State.initial 1 : State (Fin 2))
      [.acquire 0, .acquire 1, .advance 0, .advance 1, .advance 0, .release 0, .advance 0,
        .advance 1]).map State.acquiresAllowed = some 1 := by decide
  rw [ran] at counter
  exact ⟨final, ran, asserts, Option.some.inj counter⟩

end LevelDbXy.LimiterThreads
