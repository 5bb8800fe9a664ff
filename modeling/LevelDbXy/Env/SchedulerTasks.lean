import LevelDbXy.Env.SchedulerInvariant

/-!
# Tasks of the background thread

What the invariant of background work says about the tasks: they run in the order they
were enqueued, and they run under the mutex.
-/

namespace LevelDbXy.Scheduler

variable {Caller Task : Type} [DecidableEq Caller] {state : State Caller Task}

/-! ### Tasks in order -/

/-- Whatever the tasks do, and however the threads are interleaved: at most one background
thread exists, the tasks run are the first ones enqueued, in order, and no wake-up is lost. -/
theorem background_work_in_order (calls : Task → List Task) (actions : List (Action Caller Task))
    (final : State Caller Task)
    (ran : Machine.run (step calls) State.initial actions = some final) :
    final.backgroundThreads ≤ 1 ∧ final.ran <+: final.enqueued ∧ ¬ final.LostWakeUp := by
  have consistent := run_consistent ran
  refine ⟨?_, ?_, ?_⟩
  · rw [consistent.started]
    split <;> omega
  · rw [consistent.history, List.append_assoc]
    exact List.prefix_append _ _
  · rintro ⟨-, work, index, waits⟩
    have first : index = 0 := by
      by_contra other
      rw [consistent.only_first other] at waits
      cases waits
    subst first
    exact work (consistent.awake waits).1

/-- The steps of a caller through `Schedule(task)`. -/
def scheduleActions (name : Caller) (task : Task) : List (Action Caller Task) :=
  .call name task :: List.replicate 5 (.caller name 0)

/-- Two callers schedule a task each, and the background thread runs the first one. -/
theorem background_work_in_order_two_callers :
    ∃ final, Machine.run (step fun _ => []) (State.initial : State Nat Nat)
        (scheduleActions 0 7 ++ scheduleActions 1 8 ++ List.replicate 5 (.worker 0 0)) =
      some final ∧ final.ran = [7] ∧ final.ran <+: final.enqueued := by
  obtain ⟨final, ran⟩ : ∃ final, Machine.run (step fun _ => []) (State.initial : State Nat Nat)
      (scheduleActions 0 7 ++ scheduleActions 1 8 ++ List.replicate 5 (.worker 0 0)) =
        some final := Option.isSome_iff_exists.mp (by decide)
  refine ⟨final, ran, ?_, (background_work_in_order _ _ final ran).2.1⟩
  have seven : (Machine.run (step fun _ => []) (State.initial : State Nat Nat)
      (scheduleActions 0 7 ++ scheduleActions 1 8 ++ List.replicate 5 (.worker 0 0))).map
        State.ran = some [7] := by decide
  rw [ran] at seven
  exact Option.some.inj seven

/-! ### The mutex in a task -/

/-- The step calls the function of an item taken from the queue. -/
def BeginsTask (state : State Caller Task) : Action Caller Task → Prop
  | .worker index _ => ∃ task, state.workers index = .dequeued task
  | _ => False

omit [DecidableEq Caller] in
/-- The promise holds exactly while no background thread is inside a task. -/
theorem Consistent.noSelfDeadlock_iff (consistent : Consistent state) :
    state.NoSelfDeadlock ↔ ∀ index, (state.workers index).inTask = false := by
  constructor
  · rintro ⟨-, running⟩ index
    cases inside : (state.workers index).inTask with
    | false => rfl
    | true =>
      have holds : state.holds (.worker index) = true := by
        rw [State.holds]
        cases phase : state.workers index <;> rw [phase] at inside <;> first | rfl | cases inside
      exact absurd ((consistent.owner _).mpr holds) (running index inside)
  · intro outside
    refine ⟨?_, fun index inside => absurd inside (by rw [outside index]; decide)⟩
    rintro (name | index) acquiring locked
    · obtain ⟨task, standing⟩ := acquiring
      have holds := (consistent.owner _).mp locked
      simp [State.holds, standing, SchedulePhase.holds] at holds
    · have holds := (consistent.owner _).mp locked
      have notInTask := outside index
      rw [State.holds] at holds
      rcases acquiring with phase | phase | ⟨task, rest, phase⟩
      · rw [phase] at holds
        cases holds
      · rw [phase] at holds
        cases holds
      · rw [phase] at notInTask
        cases notInTask

omit [DecidableEq Caller] in
/-- Sending a background thread outside all tasks keeps the others as they are. -/
theorem inTask_update {workers : Nat → WorkerPhase Task} {index : Nat} {phase : WorkerPhase Task}
    (outside : ∀ other, (workers other).inTask = false) (moved : phase.inTask = false)
    (other : Nat) : (Function.update workers index phase other).inTask = false := by
  by_cases same : other = index
  · rw [same, Function.update_self, moved]
  · rw [Function.update_of_ne same, outside other]

omit [DecidableEq Caller] in
/-- `Schedule` itself puts no background thread inside a task. -/
theorem scheduleStep_inTask {self : Thread Caller} {woken : Nat} {phase : SchedulePhase Task}
    {after : State Caller Task} {next : Option (SchedulePhase Task)}
    (outside : ∀ index, (state.workers index).inTask = false)
    (stepped : scheduleStep self woken state phase = some (after, next)) :
    ∀ index, (after.workers index).inTask = false := by
  cases phase with
  | locking task =>
    simp only [scheduleStep] at stepped
    split_ifs at stepped
    cases stepped
    exact outside
  | starting task =>
    simp only [scheduleStep] at stepped
    split_ifs at stepped
    · cases stepped
      exact outside
    · cases stepped
      exact inTask_update outside rfl
  | notifying task =>
    simp only [scheduleStep] at stepped
    split_ifs at stepped
    · obtain ⟨notified, woke, pair⟩ := Option.map_eq_some_iff.mp stepped
      cases pair
      rw [notifyOne] at woke
      split_ifs at woke
      · cases woke
        exact inTask_update outside rfl
      · cases woke
        exact outside
    · cases stepped
      exact outside
  | enqueuing task =>
    cases stepped
    exact outside
  | unlocking =>
    cases stepped
    exact outside

omit [DecidableEq Caller] in
/-- From outside all tasks, a step of a background thread enters one exactly by calling it. -/
theorem workerStep_inTask {calls : Task → List Task} {index woken : Nat} {after : State Caller Task}
    (outside : ∀ other, (state.workers other).inTask = false)
    (stepped : workerStep calls index woken state (state.workers index) = some after) :
    (∀ other, (after.workers other).inTask = false) ↔
      ¬ ∃ task, state.workers index = .dequeued task := by
  cases phase : state.workers index with
  | dequeued task =>
    rw [phase] at stepped
    cases stepped
    refine iff_of_false (fun quiet => ?_) fun none_ => none_ ⟨task, rfl⟩
    have entered := quiet index
    simp [State.goto, WorkerPhase.inTask] at entered
  | running rest =>
    have inside := outside index
    rw [phase] at inside
    cases inside
  | scheduling inner rest =>
    have inside := outside index
    rw [phase] at inside
    cases inside
  | unstarted =>
    rw [phase] at stepped
    cases stepped
  | dequeuing =>
    rw [phase] at stepped
    simp only [workerStep] at stepped
    split at stepped <;> cases stepped
    exact iff_of_true (inTask_update outside rfl) (by simp)
  | waiting notified =>
    rw [phase] at stepped
    cases stepped
    exact iff_of_true (inTask_update outside rfl) (by simp)
  | unlocking =>
    rw [phase] at stepped
    cases stepped
    exact iff_of_true (inTask_update outside rfl) (by simp)
  | locking | checking | relocking =>
    rw [phase] at stepped
    simp only [workerStep] at stepped
    split_ifs at stepped
    all_goals
      cases stepped
      exact iff_of_true (inTask_update outside rfl) (by simp)

/-- From a state that keeps the promise, a step keeps it exactly if it calls no task. -/
theorem Consistent.noSelfDeadlock_step {calls : Task → List Task} {action : Action Caller Task}
    (consistent : Consistent state) (safe : state.NoSelfDeadlock) :
    ¬ BeginsTask state action ↔
      ∀ next, Scheduler.step calls state action = some next → next.NoSelfDeadlock := by
  have outside := consistent.noSelfDeadlock_iff.mp safe
  cases action with
  | call name task =>
    refine iff_of_true id fun next stepped => ?_
    refine (consistent.step stepped).noSelfDeadlock_iff.mpr ?_
    simp only [Scheduler.step] at stepped
    split at stepped <;> cases stepped
    exact outside
  | caller name woken =>
    refine iff_of_true id fun next stepped => ?_
    refine (consistent.step stepped).noSelfDeadlock_iff.mpr ?_
    simp only [Scheduler.step] at stepped
    split at stepped
    · cases stepped
    · obtain ⟨⟨between, phase⟩, moved, rfl⟩ := Option.map_eq_some_iff.mp stepped
      have quiet := scheduleStep_inTask outside moved
      exact quiet
  | worker index woken =>
    constructor
    · intro idle next stepped
      exact (consistent.step stepped).noSelfDeadlock_iff.mpr
        ((workerStep_inTask outside stepped).mpr idle)
    · rintro kept ⟨task, phase⟩
      have stepped : Scheduler.step calls state (.worker index woken) =
          some ({ state with ran := state.ran ++ [task] }.goto index (.running (calls task))) := by
        rw [Scheduler.step, phase, Scheduler.workerStep]
      have quiet := (consistent.step stepped).noSelfDeadlock_iff.mp (kept _ stepped)
      exact (workerStep_inTask outside stepped).mp quiet ⟨task, phase⟩

/-- In every run, no thread acquires a mutex it holds and no task runs under the mutex exactly
if no task is run at all. -/
theorem noSelfDeadlock_iff_no_task (calls : Task → List Task)
    (actions : List (Action Caller Task)) :
    Machine.Always (step calls) State.NoSelfDeadlock State.initial actions ↔
      Machine.Meets (step calls) (fun state action => ¬ BeginsTask state action)
        State.initial actions := by
  refine Machine.always_iff_meets (fun consistent stepped => consistent.step stepped)
    (fun consistent safe => consistent.noSelfDeadlock_step safe) initial_consistent ?_
  exact initial_consistent.noSelfDeadlock_iff.mpr fun _ => rfl

/-- One task that schedules another: the background thread reaches the guard of `Schedule` in
the task, and holds the mutex. -/
theorem noSelfDeadlock_fails_reentrant :
    ∃ final : State Nat Nat,
      Machine.run (step fun task => if task = 0 then [1] else []) State.initial
          (scheduleActions 0 0 ++ List.replicate 5 (.worker 0 0)) = some final ∧
      final.Acquiring (.worker 0) ∧ (final.workers 0).inTask = true ∧
      final.holder = some (.worker 0) ∧ ¬ final.NoSelfDeadlock := by
  obtain ⟨final, ran⟩ : ∃ final : State Nat Nat,
      Machine.run (step fun task => if task = 0 then [1] else []) State.initial
        (scheduleActions 0 0 ++ List.replicate 5 (.worker 0 0)) = some final :=
    Option.isSome_iff_exists.mp (by decide)
  have reached : (Machine.run (step fun task => if task = 0 then [1] else [])
      (State.initial : State Nat Nat)
      (scheduleActions 0 0 ++ List.replicate 5 (.worker 0 0))).map
        (fun state => (state.workers 0, state.holder)) =
      some (.scheduling (.locking 1) [], some (.worker 0)) := by decide
  rw [ran, Option.map_some, Option.some.injEq, Prod.mk.injEq] at reached
  obtain ⟨phase, holder⟩ := reached
  have inside : (final.workers 0).inTask = true := by rw [phase]; rfl
  exact ⟨final, ran, .inr (.inr ⟨1, [], phase⟩), inside, holder,
    fun safe => safe.running 0 inside holder⟩

end LevelDbXy.Scheduler
