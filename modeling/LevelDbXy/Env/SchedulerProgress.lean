import LevelDbXy.Env.SchedulerTasks
import LevelDbXy.Library.Amortised
import Mathlib.Algebra.BigOperators.Group.Finset.Piecewise
import Mathlib.Algebra.Order.BigOperators.Group.Multiset

/-!
# Background work gets done

Tasks that do not call `Schedule` themselves: every call of `Schedule` and every spurious
wake-up is followed by a bounded number of steps, and where no thread can go on, every
task that was scheduled has run. So no schedule of the threads, fair or not, keeps work from
being done except by not letting a thread run that can.
-/

namespace LevelDbXy.Scheduler

variable {Caller Task : Type} [DecidableEq Caller]

/-! ### What a step can do -/

/-- The steps where tasks do not call back and only one background thread exists. -/
inductive Transition (state : State Caller Task) :
    Action Caller Task → State Caller Task → Prop where
  | call {name : Caller} (task : Task) (outside : state.callers name = none) :
    Transition state (.call name task) (state.gotoCaller name (some (.locking task)))
  | lock {name : Caller} {task : Task} (woken : Nat)
      (standing : state.callers name = some (.locking task)) (free : state.holder = none) :
    Transition state (.caller name woken)
      ({ state with holder := some (.caller name) }.gotoCaller name (some (.starting task)))
  | goOn {name : Caller} {task : Task} (woken : Nat)
      (standing : state.callers name = some (.starting task))
      (started : state.startedBackgroundThread = true) :
    Transition state (.caller name woken) (state.gotoCaller name (some (.notifying task)))
  | start {name : Caller} {task : Task} (woken : Nat)
      (standing : state.callers name = some (.starting task))
      (notStarted : state.startedBackgroundThread = false) :
    Transition state (.caller name woken)
      ({ state with
        startedBackgroundThread := true
        backgroundThreads := 1
        workers := Function.update state.workers 0 .locking }.gotoCaller name
          (some (.notifying task)))
  | notify {name : Caller} {task : Task}
      (standing : state.callers name = some (.notifying task))
      (waits : state.workers 0 = .waiting false) :
    Transition state (.caller name 0)
      ((state.goto 0 (.waiting true)).gotoCaller name (some (.enqueuing task)))
  | passOn {name : Caller} {task : Task} (woken : Nat)
      (standing : state.callers name = some (.notifying task))
      (awake : state.workers 0 ≠ .waiting false) :
    Transition state (.caller name woken) (state.gotoCaller name (some (.enqueuing task)))
  | enqueue {name : Caller} {task : Task} (woken : Nat)
      (standing : state.callers name = some (.enqueuing task)) :
    Transition state (.caller name woken)
      ({ state with
        queue := state.queue ++ [task]
        enqueued := state.enqueued ++ [task] }.gotoCaller name (some .unlocking))
  | unlock {name : Caller} (woken : Nat) (standing : state.callers name = some .unlocking) :
    Transition state (.caller name woken)
      ({ state with holder := none }.gotoCaller name none)
  | workerLock (woken : Nat)
      (standing : state.workers 0 = .locking ∨ state.workers 0 = .relocking)
      (free : state.holder = none) :
    Transition state (.worker 0 woken) ({ state with holder := some (.worker 0) }.goto 0 .checking)
  | sleep (woken : Nat) (standing : state.workers 0 = .checking) (empty : state.queue = []) :
    Transition state (.worker 0 woken) ({ state with holder := none }.goto 0 (.waiting false))
  | check (woken : Nat) (standing : state.workers 0 = .checking) (work : state.queue ≠ []) :
    Transition state (.worker 0 woken) (state.goto 0 .dequeuing)
  | wake (woken : Nat) {notified : Bool} (standing : state.workers 0 = .waiting notified) :
    Transition state (.worker 0 woken) (state.goto 0 .relocking)
  | dequeue (woken : Nat) {task : Task} {queue : List Task}
      (standing : state.workers 0 = .dequeuing) (work : state.queue = task :: queue) :
    Transition state (.worker 0 woken) ({ state with queue := queue }.goto 0 (.dequeued task))
  | begin (woken : Nat) {task : Task} (standing : state.workers 0 = .dequeued task) :
    Transition state (.worker 0 woken)
      ({ state with ran := state.ran ++ [task] }.goto 0 (.running []))
  | finish (woken : Nat) (standing : state.workers 0 = .running []) :
    Transition state (.worker 0 woken) (state.goto 0 .unlocking)
  | workerUnlock (woken : Nat) (standing : state.workers 0 = .unlocking) :
    Transition state (.worker 0 woken) ({ state with holder := none }.goto 0 .locking)

/-- The background thread finds work where it takes it, does not schedule any itself, and is
there before any work is. -/
structure Working (state : State Caller Task) : Prop where
  dequeuing : state.workers 0 = .dequeuing → state.queue ≠ []
  running : ∀ rest, state.workers 0 = .running rest → rest = []
  notScheduling : ∀ phase rest, state.workers 0 ≠ .scheduling phase rest
  there : state.startedBackgroundThread = true → state.workers 0 ≠ .unstarted
  started : state.startedBackgroundThread = false → state.queue = [] ∧ state.enqueued = [] ∧
    ∀ name phase, state.callers name = some phase → ∃ task, phase = .locking task ∨
      phase = .starting task

variable {state next : State Caller Task} {action : Action Caller Task}

omit [DecidableEq Caller] in
/-- A thread waits that has not been woken. -/
theorem WorkerPhase.isWaiting_eq_true {phase : WorkerPhase Task} :
    phase.isWaiting = true ↔ phase = .waiting false := by
  cases phase <;> simp [WorkerPhase.isWaiting]

/-- A step of a caller is one of these. -/
theorem Consistent.caller_transition (consistent : Consistent state) {name : Caller} {woken : Nat}
    {phase : SchedulePhase Task} (standing : state.callers name = some phase)
    {after : State Caller Task} {further : Option (SchedulePhase Task)}
    (stepped : Scheduler.scheduleStep (.caller name) woken state phase = some (after, further)) :
    Transition state (.caller name woken) (after.gotoCaller name further) := by
  cases phase with
  | locking task =>
    simp only [Scheduler.scheduleStep] at stepped
    split_ifs at stepped with free
    cases stepped
    exact .lock woken standing free
  | starting task =>
    simp only [Scheduler.scheduleStep] at stepped
    split_ifs at stepped with started
    · cases stepped
      exact .goOn woken standing started
    · cases stepped
      have none_ : state.backgroundThreads = 0 := by rw [consistent.started, if_neg started]
      rw [none_]
      exact .start woken standing (Bool.eq_false_iff.mpr started)
  | notifying task =>
    simp only [Scheduler.scheduleStep] at stepped
    split_ifs at stepped with empty
    · obtain ⟨notified, woke, pair⟩ := Option.map_eq_some_iff.mp stepped
      cases pair
      rw [Scheduler.notifyOne] at woke
      split_ifs at woke with waits nobody
      · have first : woken = 0 := by
          by_contra other
          rw [consistent.only_first other] at waits
          cases waits
        subst first
        cases woke
        exact .notify standing (WorkerPhase.isWaiting_eq_true.mp waits)
      · cases woke
        refine .passOn woken standing fun waits => ?_
        have exists_ : 0 < state.backgroundThreads := by
          by_contra none_
          rw [consistent.existing 0 (by omega)] at waits
          cases waits
        have quiet := List.all_eq_true.mp nobody 0 (List.mem_range.mpr exists_)
        rw [waits] at quiet
        cases quiet
    · cases stepped
      refine .passOn woken standing fun waits => empty ?_
      rw [(consistent.awake waits).1]
      rfl
  | enqueuing task =>
    cases stepped
    exact .enqueue woken standing
  | unlocking =>
    cases stepped
    exact .unlock woken standing

/-- So is every step. -/
theorem Consistent.transition (consistent : Consistent state) (working : Working state)
    (stepped : Scheduler.step (fun _ => []) state action = some next) :
    Transition state action next := by
  cases action with
  | call name task =>
    simp only [Scheduler.step] at stepped
    split at stepped
    case h_1 outside =>
      cases stepped
      exact .call task outside
    case h_2 => cases stepped
  | caller name woken =>
    simp only [Scheduler.step] at stepped
    split at stepped
    case h_1 => cases stepped
    case h_2 phase standing =>
      obtain ⟨⟨after, further⟩, moved, rfl⟩ := Option.map_eq_some_iff.mp stepped
      exact consistent.caller_transition standing moved
  | worker index woken =>
    have first : index = 0 := by
      by_contra other
      rw [Scheduler.step, consistent.only_first other] at stepped
      cases stepped
    subst first
    rw [Scheduler.step] at stepped
    cases phase : state.workers 0 with
    | unstarted =>
      rw [phase] at stepped
      cases stepped
    | locking | relocking =>
      rw [phase] at stepped
      simp only [Scheduler.workerStep] at stepped
      split_ifs at stepped with free
      cases stepped
      exact .workerLock woken (by simp [phase]) free
    | checking =>
      rw [phase] at stepped
      simp only [Scheduler.workerStep] at stepped
      split_ifs at stepped with empty
      · cases stepped
        exact .sleep woken phase (List.isEmpty_iff.mp empty)
      · cases stepped
        exact .check woken phase fun none_ => empty (List.isEmpty_iff.mpr none_)
    | waiting notified =>
      rw [phase] at stepped
      cases stepped
      exact .wake woken phase
    | dequeuing =>
      rw [phase] at stepped
      simp only [Scheduler.workerStep] at stepped
      split at stepped
      next => cases stepped
      next task queue work =>
        cases stepped
        exact .dequeue woken phase work
    | dequeued task =>
      rw [phase] at stepped
      cases stepped
      exact .begin woken phase
    | running rest =>
      obtain rfl := working.running rest phase
      rw [phase] at stepped
      cases stepped
      exact .finish woken phase
    | scheduling inner rest => exact absurd phase (working.notScheduling inner rest)
    | unlocking =>
      rw [phase] at stepped
      cases stepped
      exact .workerUnlock woken phase

/-! ### What every step keeps -/

omit [DecidableEq Caller] in
/-- At first no background thread was started. -/
theorem initial_working : Working (State.initial : State Caller Task) where
  dequeuing standing := by cases standing
  running rest standing := by cases standing
  notScheduling phase rest standing := by cases standing
  there started := by cases started
  started _ := ⟨rfl, rfl, fun name phase standing => by cases standing⟩

omit [DecidableEq Caller] in
/-- Past the test of `started_background_thread_` the thread has been started. -/
theorem Working.isStarted (working : Working state) {name : Caller} {phase : SchedulePhase Task}
    (standing : state.callers name = some phase) (notLocking : ∀ task, phase ≠ .locking task)
    (notStarting : ∀ task, phase ≠ .starting task) : state.startedBackgroundThread = true := by
  by_contra notStarted
  obtain ⟨-, -, early⟩ := working.started (Bool.eq_false_iff.mpr notStarted)
  obtain ⟨task, locking | starting⟩ := early name phase standing
  · exact notLocking task locking
  · exact notStarting task starting

omit [DecidableEq Caller] in
/-- A background thread that does anything has been started. -/
theorem Consistent.isStarted (consistent : Consistent state)
    (exists_ : state.workers 0 ≠ .unstarted) : state.startedBackgroundThread = true := by
  by_contra notStarted
  refine exists_ (consistent.existing 0 ?_)
  rw [consistent.started, if_neg notStarted]

omit [DecidableEq Caller] in
/-- Before it is started it does nothing. -/
theorem Consistent.unstarted (consistent : Consistent state)
    (notStarted : state.startedBackgroundThread = false) : state.workers 0 = .unstarted := by
  by_contra exists_
  rw [consistent.isStarted exists_] at notStarted
  cases notStarted

/-- A caller that has not come to the thread changes nothing about it. -/
theorem Working.gotoCaller_early (working : Working state) (holder : Option (Thread Caller))
    (name : Caller) {phase : SchedulePhase Task}
    (early : ∃ task, phase = .locking task ∨ phase = .starting task) :
    Working ({ state with holder := holder }.gotoCaller name (some phase)) where
  dequeuing := working.dequeuing
  running := working.running
  notScheduling := working.notScheduling
  there := working.there
  started notStarted := by
    obtain ⟨queue, enqueued, others⟩ := working.started notStarted
    refine ⟨queue, enqueued, fun other standing isPhase => ?_⟩
    by_cases same : other = name
    · subst same
      obtain rfl : phase = standing := by simpa [State.gotoCaller] using isPhase
      exact early
    · refine others other standing ?_
      simpa [State.gotoCaller, Function.update_of_ne same] using isPhase

/-- Every step keeps it. -/
theorem Transition.working (moved : Transition state action next) (consistent : Consistent state)
    (working : Working state) : Working next := by
  cases moved with
  | call task outside => exact working.gotoCaller_early state.holder _ ⟨task, .inl rfl⟩
  | lock woken standing free => exact working.gotoCaller_early _ _ ⟨_, .inr rfl⟩
  | goOn woken standing started =>
    exact ⟨working.dequeuing, working.running, working.notScheduling, working.there,
      fun notStarted => absurd (started.symm.trans notStarted) (by decide)⟩
  | start woken standing notStarted =>
    exact ⟨by simp [State.gotoCaller], by simp [State.gotoCaller], by simp [State.gotoCaller],
      by simp [State.gotoCaller],
      fun notStarted => by cases notStarted⟩
  | notify standing waits =>
    have started := working.isStarted standing (by simp) (by simp)
    exact ⟨by simp [State.gotoCaller, State.goto], by simp [State.gotoCaller, State.goto],
      by simp [State.gotoCaller, State.goto], by simp [State.gotoCaller, State.goto],
      fun notStarted => absurd (started.symm.trans notStarted) (by decide)⟩
  | passOn woken standing awake =>
    have started := working.isStarted standing (by simp) (by simp)
    exact ⟨working.dequeuing, working.running, working.notScheduling, working.there,
      fun notStarted => absurd (started.symm.trans notStarted) (by decide)⟩
  | enqueue woken standing =>
    have started := working.isStarted standing (by simp) (by simp)
    exact ⟨by simp [State.gotoCaller], working.running, working.notScheduling, working.there,
      fun notStarted => absurd (started.symm.trans notStarted) (by decide)⟩
  | unlock woken standing =>
    have started := working.isStarted standing (by simp) (by simp)
    exact ⟨working.dequeuing, working.running, working.notScheduling, working.there,
      fun notStarted => absurd (started.symm.trans notStarted) (by decide)⟩
  | workerLock woken standing free =>
    have started := consistent.isStarted (by rcases standing with is | is <;> simp [is])
    exact ⟨by simp [State.goto], by simp [State.goto], by simp [State.goto], by simp [State.goto],
      fun notStarted => absurd (started.symm.trans notStarted) (by decide)⟩
  | check woken standing work =>
    have started := consistent.isStarted (by simp [standing])
    exact ⟨fun _ => work, by simp [State.goto], by simp [State.goto], by simp [State.goto],
      fun notStarted => absurd (started.symm.trans notStarted) (by decide)⟩
  | sleep woken standing | wake woken standing | dequeue woken standing | begin woken standing
  | finish woken standing | workerUnlock woken standing =>
    have started := consistent.isStarted (by simp [standing])
    exact ⟨by simp [State.goto], by simp [State.goto], by simp [State.goto], by simp [State.goto],
      fun notStarted => absurd (started.symm.trans notStarted) (by decide)⟩

/-! ### The number of steps -/

/-- A bound on the steps that a call of `Schedule` still brings about. -/
def callerWeight : Option (SchedulePhase Task) → Nat
  | none => 0
  | some (.locking _) => 14
  | some (.starting _) => 13
  | some (.notifying _) => 12
  | some (.enqueuing _) => 8
  | some .unlocking => 1

/-- A bound on the steps of the background thread up to `wait` with an empty queue. -/
def workerWeight : WorkerPhase Task → Nat
  | .unstarted => 2
  | .locking => 2
  | .checking => 1
  | .waiting notified => if notified then 3 else 0
  | .relocking => 2
  | .dequeuing => 0
  | .dequeued _ => 5
  | .running _ => 4
  | .scheduling _ _ => 4
  | .unlocking => 3

/-- A bound on the steps of all calls. -/
def callersWeight (names : Finset Caller) (callers : Caller → Option (SchedulePhase Task)) : Nat :=
  ∑ name ∈ names, callerWeight (callers name)

/-- A bound on all steps to come; a task in the queue needs six. -/
def potential (names : Finset Caller) (state : State Caller Task) : Nat :=
  callersWeight names state.callers + workerWeight (state.workers 0) + 6 * state.queue.length

/-- The task that is scheduled. -/
def Action.given : Action Caller Task → Multiset Task
  | .call _ task => {task}
  | .caller _ _ => 0
  | .worker _ _ => 0

/-- The thread that calls `Schedule`. -/
def Action.name? : Action Caller Task → Option Caller
  | .call name _ => some name
  | .caller name _ => some name
  | .worker _ _ => none

/-- One if the background thread wakes without a notification. -/
def spurious (state : State Caller Task) : Action Caller Task → Nat
  | .worker index _ => (state.workers index).isWaiting.toNat
  | _ => 0

/-- A sum over the callers of which one goes on. -/
theorem sum_gotoCaller {Quantity : Type*} [AddCommMonoid Quantity]
    (amount : Option (SchedulePhase Task) → Quantity) {names : Finset Caller} {name : Caller}
    (member : name ∈ names) (state : State Caller Task) (further : Option (SchedulePhase Task)) :
    ∑ other ∈ names, amount ((state.gotoCaller name further).callers other) +
        amount (state.callers name) =
      ∑ other ∈ names, amount (state.callers other) + amount further := by
  have rest : ∑ other ∈ names.erase name, amount ((state.gotoCaller name further).callers other) =
      ∑ other ∈ names.erase name, amount (state.callers other) := by
    refine Finset.sum_congr rfl fun other isOther => ?_
    simp only [State.gotoCaller, Function.update_of_ne (Finset.ne_of_mem_erase isOther)]
  have moved : (state.gotoCaller name further).callers name = further := by simp [State.gotoCaller]
  rw [← Finset.sum_erase_add names _ member, ← Finset.sum_erase_add names _ member, rest, moved]
  exact add_right_comm _ _ _

omit [DecidableEq Caller] in
/-- The callers keep theirs when the background thread goes on. -/
theorem potential_goto (names : Finset Caller) (between : State Caller Task)
    (phase : WorkerPhase Task) :
    potential names (between.goto 0 phase) =
      callersWeight names between.callers + workerWeight phase + 6 * between.queue.length := by
  simp only [potential, State.goto, Function.update_self]

/-- The weight of one caller changes when it goes on. -/
theorem potential_gotoCaller {names : Finset Caller} {name : Caller} (member : name ∈ names)
    (between : State Caller Task) (further : Option (SchedulePhase Task)) :
    potential names (between.gotoCaller name further) + callerWeight (between.callers name) =
      callersWeight names between.callers + callerWeight further +
        workerWeight (between.workers 0) + 6 * between.queue.length := by
  have sum := sum_gotoCaller callerWeight member between further
  simp only [potential, callersWeight, State.gotoCaller] at sum ⊢
  omega

/-- A step takes from the potential, if it is not a call or a spurious wake-up. -/
theorem Transition.pays (moved : Transition state action next) (consistent : Consistent state)
    {names : Finset Caller} (known : ∀ name, action.name? = some name → name ∈ names) :
    1 + potential names next ≤
      potential names state + (15 * Multiset.card action.given + 3 * spurious state action) := by
  have before : potential names state = callersWeight names state.callers +
      workerWeight (state.workers 0) + 6 * state.queue.length := rfl
  cases moved with
  | call task outside =>
    have after := potential_gotoCaller (known _ rfl) state (some (.locking task))
    simp only [outside, callerWeight, Action.given, Multiset.card_singleton] at after ⊢
    omega
  | @lock name task woken standing free =>
    have after := potential_gotoCaller (known _ rfl) { state with holder := some (.caller name) }
      (some (.starting task))
    simp only [standing, callerWeight] at after
    omega
  | @goOn name task woken standing started =>
    have after := potential_gotoCaller (known _ rfl) state (some (.notifying task))
    simp only [standing, callerWeight] at after
    omega
  | @start name task woken standing notStarted =>
    have after := potential_gotoCaller (known _ rfl) { state with
      startedBackgroundThread := true
      backgroundThreads := 1
      workers := Function.update state.workers 0 .locking } (some (.notifying task))
    simp only [standing, callerWeight, Function.update_self, workerWeight] at after
    simp only [consistent.unstarted notStarted, workerWeight] at before
    omega
  | @notify name task standing waits =>
    have after := potential_gotoCaller (known _ rfl) (state.goto 0 (.waiting true))
      (some (.enqueuing task))
    simp only [State.goto, standing, callerWeight, Function.update_self, workerWeight,
      if_true] at after ⊢
    simp only [waits, workerWeight, Bool.false_eq_true, if_false] at before
    omega
  | @passOn name task woken standing awake =>
    have after := potential_gotoCaller (known _ rfl) state (some (.enqueuing task))
    simp only [standing, callerWeight] at after
    omega
  | @enqueue name task woken standing =>
    have after := potential_gotoCaller (known _ rfl) { state with
      queue := state.queue ++ [task], enqueued := state.enqueued ++ [task] } (some .unlocking)
    simp only [standing, callerWeight, List.length_append, List.length_singleton] at after
    omega
  | unlock woken standing =>
    have after := potential_gotoCaller (known _ rfl) { state with holder := none } none
    simp only [standing, callerWeight] at after
    omega
  | workerLock woken standing free =>
    rw [potential_goto]
    rcases standing with is | is <;> simp only [is, workerWeight] at before ⊢ <;> omega
  | wake woken standing =>
    rename_i notified
    rw [potential_goto]
    simp only [standing, workerWeight, spurious, WorkerPhase.isWaiting] at before ⊢
    cases notified <;> simp at before ⊢ <;> omega
  | dequeue woken standing work =>
    rw [potential_goto]
    simp only [standing, work, workerWeight, List.length_cons] at before ⊢
    omega
  | sleep woken standing | check woken standing | begin woken standing | finish woken standing
  | workerUnlock woken standing =>
    rw [potential_goto]
    simp only [standing, workerWeight, Bool.false_eq_true, if_false] at before ⊢
    omega

/-! ### The tasks -/

/-- The tasks that were scheduled. -/
def scheduled (actions : List (Action Caller Task)) : Multiset Task :=
  (actions.map Action.given).sum

/-- The task that a call of `Schedule` has not enqueued yet. -/
def pending : Option (SchedulePhase Task) → Multiset Task
  | none => 0
  | some (.locking task) => {task}
  | some (.starting task) => {task}
  | some (.notifying task) => {task}
  | some (.enqueuing task) => {task}
  | some .unlocking => 0

/-- The tasks that have been enqueued or will be. -/
def accepted (names : Finset Caller) (state : State Caller Task) : Multiset Task :=
  ∑ name ∈ names, pending (state.callers name) + (state.enqueued : Multiset Task)

/-- A step adds the task that is scheduled. -/
theorem Transition.accepts (moved : Transition state action next) {names : Finset Caller}
    (known : ∀ name, action.name? = some name → name ∈ names) :
    accepted names next = accepted names state + action.given := by
  have goesOn : ∀ {name : Caller} (between : State Caller Task)
      (further : Option (SchedulePhase Task)), name ∈ names → between.callers = state.callers →
      between.enqueued = state.enqueued → pending further = pending (state.callers name) →
      accepted names (between.gotoCaller name further) = accepted names state := by
    intro name between further member callers enqueued kept
    have sum := sum_gotoCaller pending member between further
    rw [callers, kept] at sum
    rw [accepted, accepted, add_right_cancel sum, State.gotoCaller, enqueued]
  cases moved with
  | @call name task outside =>
    have sum := sum_gotoCaller pending (known name rfl) state (some (.locking task))
    rw [outside, pending, pending, add_zero] at sum
    rw [accepted, accepted, sum, Action.given]
    exact add_right_comm _ _ _
  | @enqueue name task woken standing =>
    have sum := sum_gotoCaller pending (known name rfl) { state with
      queue := state.queue ++ [task], enqueued := state.enqueued ++ [task] } (some .unlocking)
    have gone : pending (some (.unlocking : SchedulePhase Task)) = 0 := rfl
    have waiting : pending (some (.enqueuing task)) = {task} := rfl
    have grown : ((state.enqueued ++ [task] : List Task) : Multiset Task) =
        {task} + (state.enqueued : Multiset Task) := by
      rw [Multiset.singleton_add, Multiset.cons_coe]
      exact Multiset.coe_eq_coe.mpr (List.perm_append_singleton task state.enqueued)
    rw [standing, gone, waiting, add_zero] at sum
    rw [accepted, accepted, Action.given, add_zero, ← sum, add_assoc, ← grown]
    rfl
  | lock woken standing | goOn woken standing | start woken standing | notify standing
  | passOn woken standing | unlock woken standing =>
    rw [Action.given, add_zero]
    exact goesOn _ _ (known _ rfl) rfl rfl (by rw [standing]; rfl)
  | workerLock | sleep | check | wake | dequeue | begin | finish | workerUnlock =>
    rw [Action.given, add_zero]
    rfl

/-! ### Where nothing goes on -/

/-- The step is not a new call and not a spurious wake-up. -/
def Continues (state : State Caller Task) : Action Caller Task → Prop
  | .call _ _ => False
  | .caller _ _ => True
  | .worker index _ => state.workers index ≠ .waiting false

omit [DecidableEq Caller] in
/-- `notify_one` always returns. -/
theorem exists_notifyOne (state : State Caller Task) :
    ∃ woken after, notifyOne state woken = some after := by
  by_cases somebody : ∃ index, (state.workers index).isWaiting = true
  · obtain ⟨index, waits⟩ := somebody
    exact ⟨index, _, by rw [notifyOne, if_pos waits]⟩
  · have nobody : ∀ index, (state.workers index).isWaiting = false := fun index =>
      Bool.eq_false_iff.mpr fun waits => somebody ⟨index, waits⟩
    refine ⟨0, state, ?_⟩
    rw [notifyOne, if_neg (by simp [nobody]), if_pos (by simp [nobody])]

omit [DecidableEq Caller] in
/-- A caller that holds the mutex can go on. -/
theorem exists_scheduleStep (self : Thread Caller) (state : State Caller Task)
    {phase : SchedulePhase Task} (holds : phase.holds = true) :
    ∃ woken after, scheduleStep self woken state phase = some after := by
  cases phase with
  | locking task => cases holds
  | starting task =>
    exact ⟨0, _, (apply_ite some _ _ _).symm⟩
  | notifying task =>
    obtain ⟨woken, after, notified⟩ := exists_notifyOne state
    by_cases empty : state.queue.isEmpty = true
    · exact ⟨woken, _, by rw [scheduleStep, if_pos empty, notified, Option.map_some]⟩
    · exact ⟨0, _, by rw [scheduleStep, if_neg empty]⟩
  | enqueuing task => exact ⟨0, _, rfl⟩
  | unlocking => exact ⟨0, _, rfl⟩

omit [DecidableEq Caller] in
/-- So can the background thread. -/
theorem Working.exists_workerStep (working : Working state)
    (holds : (state.workers 0).holds = true) :
    ∃ after, workerStep (fun _ => []) 0 0 state (state.workers 0) = some after := by
  cases phase : state.workers 0 with
  | unstarted | locking | waiting | relocking =>
    rw [phase] at holds
    cases holds
  | checking => exact ⟨_, (apply_ite some _ _ _).symm⟩
  | dequeuing =>
    obtain ⟨task, queue, work⟩ := List.exists_cons_of_ne_nil (working.dequeuing phase)
    refine ⟨{ state with queue := queue }.goto 0 (.dequeued task), ?_⟩
    simp only [workerStep, work]
  | dequeued task => exact ⟨_, rfl⟩
  | running rest =>
    obtain rfl := working.running rest phase
    exact ⟨_, rfl⟩
  | scheduling inner rest => exact absurd phase (working.notScheduling inner rest)
  | unlocking => exact ⟨_, rfl⟩

/-- If no thread can go on, no call of `Schedule` is unfinished and all work is done. -/
theorem Consistent.done_of_stuck (consistent : Consistent state) (working : Working state)
    (stuck : ∀ action, Continues state action →
      Scheduler.step (fun _ => []) state action = none) :
    (∀ name, state.callers name = none) ∧ state.ran = state.enqueued := by
  have callerStuck : ∀ name phase, state.callers name = some phase → ∀ woken,
      Scheduler.scheduleStep (.caller name) woken state phase = none := by
    intro name phase standing woken
    simpa [Scheduler.step, standing] using stuck (.caller name woken) trivial
  have workerStuck : state.workers 0 ≠ .waiting false →
      Scheduler.workerStep (fun _ => []) 0 0 state (state.workers 0) = none :=
    fun awake => stuck (.worker 0 0) awake
  -- the thread that holds the mutex could go on
  have free : state.holder = none := by
    by_contra held
    obtain ⟨thread, isHolder⟩ := Option.ne_none_iff_exists'.mp held
    have holds := (consistent.owner thread).mp isHolder
    cases thread with
    | caller name =>
      obtain ⟨phase, standing, inside⟩ := (Option.any_eq_true ..).mp holds
      obtain ⟨woken, after, stepped⟩ := exists_scheduleStep (.caller name) state inside
      rw [callerStuck name phase standing woken] at stepped
      cases stepped
    | worker index =>
      have first : index = 0 := by
        by_contra other
        rw [State.holds, consistent.only_first other] at holds
        cases holds
      subst first
      obtain ⟨after, stepped⟩ := working.exists_workerStep holds
      rw [workerStuck fun waits => by rw [State.holds, waits] at holds; cases holds] at stepped
      cases stepped
  have outside : ∀ name, state.callers name = none := by
    intro name
    cases standing : state.callers name with
    | none => rfl
    | some phase =>
      have notHolding := consistent.not_holds free (.caller name)
      rw [State.holds, standing] at notHolding
      have blocked := callerStuck name phase standing 0
      cases phase with
      | locking task => simp [Scheduler.scheduleStep, free] at blocked
      | _ => cases notHolding
  refine ⟨outside, ?_⟩
  have notHolding := consistent.not_holds free (.worker 0)
  rw [State.holds] at notHolding
  have history := consistent.history
  cases phase : state.workers 0 with
  | unstarted =>
    have notStarted : state.startedBackgroundThread = false :=
      Bool.eq_false_iff.mpr fun started => working.there started phase
    obtain ⟨queue, enqueued, -⟩ := working.started notStarted
    rw [phase, queue, enqueued] at history
    simpa [WorkerPhase.inFlight, enqueued] using history.symm
  | waiting notified =>
    cases notified with
    | true =>
      have blocked := workerStuck (by simp [phase])
      rw [phase] at blocked
      cases blocked
    | false =>
      rw [phase, (consistent.awake phase).1] at history
      simpa [WorkerPhase.inFlight] using history.symm
  | locking | relocking =>
    have blocked := workerStuck (by simp [phase])
    simp [phase, Scheduler.workerStep, free] at blocked
  | _ =>
    rw [phase] at notHolding
    cases notHolding

/-! ### Whole runs -/

/-- The spurious wake-ups of a run. -/
def spuriousWakeUps (actions : List (Action Caller Task)) : Nat :=
  Machine.charged (step fun _ => []) spurious State.initial actions

omit [DecidableEq Caller] in
/-- The tasks of a run are those that its actions give. -/
theorem card_scheduled (actions : List (Action Caller Task)) :
    Multiset.card (scheduled actions) =
      (actions.map fun action => Multiset.card action.given).sum := by
  induction actions with
  | nil => rfl
  | cons action actions inductionHypothesis =>
    rw [scheduled, List.map_cons, List.sum_cons, Multiset.card_add, List.map_cons, List.sum_cons,
      ← inductionHypothesis, scheduled]

/-- Every step keeps both. -/
theorem consistent_working_step (holds : Consistent state ∧ Working state)
    (stepped : step (fun _ => []) state action = some next) : Consistent next ∧ Working next := by
  obtain ⟨consistent, working⟩ := holds
  exact ⟨consistent.step stepped,
    (consistent.transition working stepped).working consistent working⟩

/-- However the threads are interleaved: a run has at most fifteen steps for each call of
`Schedule`, three for each spurious wake-up of the background thread, and two. And where it
cannot be continued but by new calls or spurious wake-ups, exactly the tasks that were
scheduled have run, each as often as it was scheduled, in the order they were enqueued. -/
theorem scheduled_work_gets_done (actions : List (Action Caller Task))
    (final : State Caller Task)
    (ran : Machine.run (step fun _ => []) State.initial actions = some final) :
    actions.length ≤
      15 * Multiset.card (scheduled actions) + 3 * spuriousWakeUps actions + 2 ∧
    ((∀ action, Continues final action → step (fun _ => []) final action = none) →
      (final.ran : Multiset Task) = scheduled actions ∧ final.ran = final.enqueued ∧
        ∀ name, final.callers name = none) := by
  let names := (actions.filterMap Action.name?).toFinset
  have start : Consistent (State.initial : State Caller Task) ∧
      Working (State.initial : State Caller Task) :=
    ⟨initial_consistent, initial_working⟩
  have meets : Machine.Meets (step fun _ => [])
      (fun _ action => ∀ name, action.name? = some name → name ∈ names) State.initial actions :=
    Machine.meets_of_actions (fun action member name isName =>
      List.mem_toFinset.mpr (List.mem_filterMap.mpr ⟨action, member, isName⟩)) _
  constructor
  · have paid : Machine.charged (step fun _ => []) (fun _ _ => 1) State.initial actions +
          potential names final ≤ potential names State.initial +
        Machine.charged (step fun _ => [])
          (fun state action => 15 * Multiset.card action.given + 3 * spurious state action)
          State.initial actions :=
      Machine.run_amortised (fun holds _ => consistent_working_step holds)
        (fun holds known stepped => (holds.1.transition holds.2 stepped).pays holds.1 known)
        start meets ran
    have length : Machine.charged (step fun _ => []) (fun _ _ => 1) State.initial actions =
        actions.length := by
      rw [Machine.charged_eq_sum (fun _ => 1) ran]
      simp
    have nothing : potential names (State.initial : State Caller Task) = 2 := by
      simp [potential, callersWeight, State.initial, callerWeight, workerWeight]
    rw [length, nothing, Machine.charged_add, Machine.charged_mul, Machine.charged_mul,
      Machine.charged_eq_sum (fun action => Multiset.card action.given) ran,
      ← card_scheduled] at paid
    rw [spuriousWakeUps]
    omega
  · intro stuck
    obtain ⟨consistent, working⟩ := Machine.run_keeps consistent_working_step start ran
    obtain ⟨outside, inOrder⟩ := consistent.done_of_stuck working stuck
    have sum : accepted names final = accepted names State.initial + scheduled actions :=
      Machine.run_conserves (fun holds _ => consistent_working_step holds)
        (fun holds known stepped => (holds.1.transition holds.2 stepped).accepts known)
        start meets ran
    refine ⟨?_, inOrder, outside⟩
    rw [inOrder]
    simpa [accepted, outside, pending, State.initial] using sum

/-- A task is scheduled and run, and the background thread waits again. -/
theorem scheduled_work_gets_done_one_task :
    ∃ final : State Nat Nat, Machine.run (step fun _ => []) State.initial
        (scheduleActions 0 7 ++ List.replicate 8 (.worker 0 0)) = some final ∧
      (final.ran : Multiset Nat) = {7} := by
  refine ⟨_, rfl, ((scheduled_work_gets_done
    (scheduleActions 0 7 ++ List.replicate 8 (.worker 0 0)) _ rfl).2 ?_).1⟩
  intro action continues
  cases action with
  | call name task => exact continues.elim
  | caller name woken => cases name <;> rfl
  | worker index woken =>
    cases index with
    | zero => exact absurd rfl continues
    | succ index => rfl

end LevelDbXy.Scheduler
