import LevelDbXy.Env.Scheduler

/-!
# The invariant of background work

Who is where decides who holds the mutex (`Consistent.owner`), whatever the tasks do: a
task that calls `Schedule` leaves its thread at the guard for good. From this follow the
order of the tasks and that a thread in `wait` without a notification finds an empty queue
and nobody about to fill it (`Consistent.awake`): `notify_one` comes before `emplace`, and the
mutex is held from the one to the other.
-/

namespace LevelDbXy.Scheduler

variable {Caller Task : Type}

/-! ### The invariant -/

/-- The thread is between acquiring and releasing the mutex in this call of `Schedule`. -/
def SchedulePhase.holds : SchedulePhase Task → Bool
  | .locking _ => false
  | _ => true

/-- The background thread is inside its guard and not in `wait`. -/
def WorkerPhase.holds : WorkerPhase Task → Bool
  | .unstarted => false
  | .locking => false
  | .waiting _ => false
  | .relocking => false
  | _ => true

/-- The thread is where it owns the mutex. -/
def State.holds (state : State Caller Task) : Thread Caller → Bool
  | .caller name => (state.callers name).any SchedulePhase.holds
  | .worker index => (state.workers index).holds

/-- The task taken from the queue and not yet run. -/
def WorkerPhase.inFlight : WorkerPhase Task → List Task
  | .dequeued task => [task]
  | _ => []

/-- How the threads, the mutex and the queue fit together. -/
structure Consistent (state : State Caller Task) : Prop where
  owner : ∀ thread, state.holder = some thread ↔ state.holds thread = true
  reentrant : ∀ phase rest, state.workers 0 = .scheduling phase rest → phase.holds = false
  started : state.backgroundThreads = if state.startedBackgroundThread then 1 else 0
  existing : ∀ index, state.backgroundThreads ≤ index → state.workers index = .unstarted
  history : state.enqueued = state.ran ++ (state.workers 0).inFlight ++ state.queue
  awake : state.workers 0 = .waiting false →
    state.queue = [] ∧ ∀ name task, state.callers name ≠ some (.enqueuing task)

variable {state : State Caller Task}

/-- At first nothing is scheduled, and there is no background thread. -/
theorem initial_consistent : Consistent (State.initial : State Caller Task) := by
  refine ⟨?_, ?_, rfl, fun _ _ => rfl, rfl, ?_⟩
  · rintro (name | index) <;> simp [State.initial, State.holds, WorkerPhase.holds]
  · simp [State.initial]
  · simp [State.initial]

/-- Only the first background thread exists. -/
theorem Consistent.only_first (consistent : Consistent state) {index : Nat} (other : index ≠ 0) :
    state.workers index = .unstarted := by
  refine consistent.existing index ?_
  rw [consistent.started]
  split <;> omega

/-- The mutex is free when no thread is where it owns it. -/
theorem Consistent.not_holds (consistent : Consistent state) (free : state.holder = none)
    (thread : Thread Caller) : state.holds thread = false := by
  cases held : state.holds thread with
  | false => rfl
  | true =>
    have owned := (consistent.owner thread).mpr held
    rw [free] at owned
    cases owned

/-- A thread that owns the mutex is its holder, and no other thread is. -/
theorem Consistent.eq_of_holds (consistent : Consistent state) {a b : Thread Caller}
    (first : state.holds a = true) (second : state.holds b = true) : a = b := by
  have heldA := (consistent.owner a).mpr first
  have heldB := (consistent.owner b).mpr second
  exact Option.some.inj (heldA.symm.trans heldB)

/-! ### Ownership through a step -/

section Ownership

variable {after : State Caller Task} {self : Thread Caller}

/-- The thread that moves and the other ones are looked at in turn. -/
theorem owner_of_moving (moving : Thread Caller)
    (mine : after.holder = some moving ↔ after.holds moving = true)
    (others : ∀ thread, thread ≠ moving →
      (after.holder = some thread ↔ after.holds thread = true)) :
    ∀ thread, after.holder = some thread ↔ after.holds thread = true := by
  intro thread
  by_cases same : thread = moving
  · subst same
    exact mine
  · exact others thread same

/-- A free mutex is acquired by the thread that moves. -/
theorem owner_acquire (consistent : Consistent state) (free : state.holder = none)
    (taken : after.holder = some self) (mine : after.holds self = true)
    (others : ∀ thread, thread ≠ self → after.holds thread = state.holds thread) :
    ∀ thread, after.holder = some thread ↔ after.holds thread = true := by
  refine owner_of_moving self (by simp [taken, mine]) fun thread other => ?_
  rw [taken, others thread other, consistent.not_holds free thread]
  simp [Ne.symm other]

/-- The thread that moves releases the mutex. -/
theorem owner_release (consistent : Consistent state) (held : state.holds self = true)
    (freed : after.holder = none) (gone : after.holds self = false)
    (others : ∀ thread, thread ≠ self → after.holds thread = state.holds thread) :
    ∀ thread, after.holder = some thread ↔ after.holds thread = true := by
  refine owner_of_moving self (by simp [freed, gone]) fun thread other => ?_
  rw [freed, others thread other]
  exact iff_of_false (by simp) fun also => other (consistent.eq_of_holds also held)

/-- The mutex does not change hands. -/
theorem owner_keep (consistent : Consistent state) (kept : after.holder = state.holder)
    (same : ∀ thread, after.holds thread = state.holds thread) :
    ∀ thread, after.holder = some thread ↔ after.holds thread = true := by
  intro thread
  rw [kept, same thread]
  exact consistent.owner thread

end Ownership

/-! ### Steps of a caller -/

section Callers

/-- The first background thread comes into being, at the guard of its loop. -/
theorem Consistent.startThread (consistent : Consistent state)
    (notStarted : ¬ state.startedBackgroundThread = true) :
    Consistent { state with
      startedBackgroundThread := true
      backgroundThreads := state.backgroundThreads + 1
      workers := Function.update state.workers state.backgroundThreads .locking } := by
  have noThread : state.backgroundThreads = 0 := by rw [consistent.started, if_neg notStarted]
  have unstarted := consistent.existing 0 (by omega)
  rw [noThread]
  refine ⟨owner_keep consistent rfl ?_, by simp, rfl, ?_, ?_, by simp⟩
  · rintro (other | index)
    · rfl
    · by_cases first : index = 0
      · subst first
        simp [State.holds, unstarted, WorkerPhase.holds]
      · simp [State.holds, Function.update_of_ne first]
  · intro index above
    have other : index ≠ 0 := by
      dsimp only at above
      omega
    simpa [Function.update_of_ne other] using consistent.only_first other
  · have kept := consistent.history
    rw [unstarted] at kept
    exact kept

/-- After `notify_one` the background thread does not wait without a notification. -/
theorem Consistent.notifyOne (consistent : Consistent state) {woken : Nat}
    {after : State Caller Task} (notified : notifyOne state woken = some after) :
    Consistent after ∧ after.callers = state.callers ∧ after.workers 0 ≠ .waiting false := by
  rw [Scheduler.notifyOne] at notified
  split_ifs at notified with waits nobody
  · have first : woken = 0 := by
      by_contra other
      rw [consistent.only_first other] at waits
      cases waits
    subst first
    have phase : state.workers 0 = .waiting false := by
      generalize state.workers 0 = phase at waits
      cases phase <;> simp_all [WorkerPhase.isWaiting]
    cases notified
    refine ⟨⟨owner_keep consistent rfl ?_, by simp, consistent.started, ?_, ?_, by simp⟩, rfl,
      by simp⟩
    · rintro (other | index)
      · rfl
      · by_cases first : index = 0
        · subst first
          simp [State.holds, phase, WorkerPhase.holds]
        · simp [State.holds, Function.update_of_ne first]
    · intro index above
      have other : index ≠ 0 := by
        rintro rfl
        rw [consistent.existing 0 above] at phase
        cases phase
      simpa [Function.update_of_ne other] using consistent.existing index above
    · have kept := consistent.history
      rw [phase] at kept
      simpa [WorkerPhase.inFlight] using kept
  · cases notified
    refine ⟨consistent, rfl, fun waits => ?_⟩
    rcases Nat.eq_zero_or_pos state.backgroundThreads with none_ | some_
    · rw [consistent.existing 0 (by omega)] at waits
      cases waits
    · have quiet := List.all_eq_true.mp nobody 0 (List.mem_range.mpr some_)
      rw [waits] at quiet
      cases quiet

variable [DecidableEq Caller]

/-- A caller goes on at another point of `Schedule`, or returns. -/
def State.gotoCaller (state : State Caller Task) (name : Caller)
    (next : Option (SchedulePhase Task)) : State Caller Task :=
  { state with callers := Function.update state.callers name next }

/-- Whether a caller has the mutex is said by its phase. -/
theorem holds_gotoCaller_self (state : State Caller Task) (name : Caller)
    (next : Option (SchedulePhase Task)) :
    (state.gotoCaller name next).holds (.caller name) = next.any SchedulePhase.holds := by
  simp [State.holds, State.gotoCaller]

/-- No other thread gets or loses it by that. -/
theorem holds_gotoCaller_other (state : State Caller Task) {name : Caller}
    (next : Option (SchedulePhase Task)) {thread : Thread Caller}
    (other : thread ≠ .caller name) :
    (state.gotoCaller name next).holds thread = state.holds thread := by
  cases thread with
  | worker index => rfl
  | caller otherName =>
    have different : otherName ≠ name := fun same => other (by rw [same])
    simp [State.holds, State.gotoCaller, Function.update_of_ne different]

/-- A waiting thread is not disturbed by a caller that goes elsewhere than before `emplace`. -/
theorem awake_gotoCaller (consistent : Consistent state) (name : Caller)
    {next : Option (SchedulePhase Task)}
    (quiet : (∀ task, next ≠ some (.enqueuing task)) ∨ state.workers 0 ≠ .waiting false) :
    (state.gotoCaller name next).workers 0 = .waiting false →
      (state.gotoCaller name next).queue = [] ∧
        ∀ other task, (state.gotoCaller name next).callers other ≠ some (.enqueuing task) := by
  intro waits
  obtain ⟨empty, nobody⟩ := consistent.awake waits
  refine ⟨empty, fun other task => ?_⟩
  by_cases same : other = name
  · subst same
    have elsewhere := quiet.resolve_right (not_not.mpr waits) task
    simpa [State.gotoCaller] using elsewhere
  · simpa [State.gotoCaller, Function.update_of_ne same] using nobody other task

/-- A caller goes on; what is left to show is who owns the mutex then. -/
theorem Consistent.gotoCaller_owner (consistent : Consistent state) {name : Caller}
    {holder : Option (Thread Caller)} {next : Option (SchedulePhase Task)}
    (owner : ∀ thread, ({ state with holder := holder }.gotoCaller name next).holder = some thread ↔
      ({ state with holder := holder }.gotoCaller name next).holds thread = true)
    (quiet : (∀ task, next ≠ some (.enqueuing task)) ∨ state.workers 0 ≠ .waiting false) :
    Consistent ({ state with holder := holder }.gotoCaller name next) where
  owner := owner
  reentrant := consistent.reentrant
  started := consistent.started
  existing := consistent.existing
  history := consistent.history
  awake := awake_gotoCaller consistent name quiet

/-- A caller goes on without acquiring or releasing the mutex. -/
theorem Consistent.gotoCaller (consistent : Consistent state) {name : Caller}
    {next : Option (SchedulePhase Task)}
    (same : next.any SchedulePhase.holds = state.holds (.caller name))
    (quiet : (∀ task, next ≠ some (.enqueuing task)) ∨ state.workers 0 ≠ .waiting false) :
    Consistent (state.gotoCaller name next) := by
  refine consistent.gotoCaller_owner (owner_keep consistent rfl fun thread => ?_) quiet
  by_cases self : thread = .caller name
  · subst self
    rw [holds_gotoCaller_self, same]
  · exact holds_gotoCaller_other state next self

/-- A step of `Schedule` by a caller keeps the invariant. -/
theorem Consistent.scheduleStep (consistent : Consistent state) {name : Caller} {woken : Nat}
    {phase : SchedulePhase Task} {after : State Caller Task} {next : Option (SchedulePhase Task)}
    (standing : state.callers name = some phase)
    (stepped : scheduleStep (.caller name) woken state phase = some (after, next)) :
    Consistent (after.gotoCaller name next) := by
  have holds : phase.holds = state.holds (.caller name) := by simp [State.holds, standing]
  cases phase with
  | locking task =>
    simp only [Scheduler.scheduleStep] at stepped
    split_ifs at stepped with free
    cases stepped
    refine consistent.gotoCaller_owner (owner_acquire consistent free rfl ?_ ?_) (.inl (by simp))
    · rw [holds_gotoCaller_self]
      rfl
    · exact fun thread other => holds_gotoCaller_other _ _ other
  | starting task =>
    simp only [Scheduler.scheduleStep] at stepped
    split_ifs at stepped with started
    · cases stepped
      exact consistent.gotoCaller holds (.inl (by simp))
    · cases stepped
      exact (consistent.startThread started).gotoCaller holds (.inl (by simp))
  | notifying task =>
    simp only [Scheduler.scheduleStep] at stepped
    split_ifs at stepped with empty
    · obtain ⟨notified, woke, pair⟩ := Option.map_eq_some_iff.mp stepped
      cases pair
      obtain ⟨kept, sameCallers, awake⟩ := consistent.notifyOne woke
      refine kept.gotoCaller ?_ (.inr awake)
      rw [State.holds, sameCallers]
      exact holds
    · cases stepped
      refine consistent.gotoCaller holds (.inr fun waits => ?_)
      exact empty (by rw [(consistent.awake waits).1]; rfl)
  | enqueuing task =>
    cases stepped
    have asleep : state.workers 0 ≠ .waiting false := fun waits =>
      (consistent.awake waits).2 name task standing
    have appended : Consistent { state with
        queue := state.queue ++ [task], enqueued := state.enqueued ++ [task] } := by
      refine ⟨consistent.owner, consistent.reentrant, consistent.started, consistent.existing, ?_,
        fun waits => absurd waits asleep⟩
      simp only [consistent.history, List.append_assoc]
    exact appended.gotoCaller holds (.inl (by simp))
  | unlocking =>
    cases stepped
    refine consistent.gotoCaller_owner (owner_release consistent holds.symm rfl ?_ ?_)
      (.inl (by simp))
    · rw [holds_gotoCaller_self]
      rfl
    · exact fun thread other => holds_gotoCaller_other _ _ other

end Callers

/-! ### Steps of the background thread -/

/-- Whether the background thread has the mutex is said by its phase. -/
theorem holds_goto_self (state : State Caller Task) (index : Nat) (next : WorkerPhase Task) :
    (state.goto index next).holds (.worker index) = next.holds := by
  simp [State.holds, State.goto]

/-- No other thread gets or loses it by that. -/
theorem holds_goto_other (state : State Caller Task) {index : Nat} (next : WorkerPhase Task)
    {thread : Thread Caller} (other : thread ≠ .worker index) :
    (state.goto index next).holds thread = state.holds thread := by
  cases thread with
  | caller name => rfl
  | worker otherIndex =>
    have different : otherIndex ≠ index := fun same => other (by rw [same])
    simp [State.holds, State.goto, Function.update_of_ne different]

/-- The threads stand where they stood. -/
structure SameThreads (before after : State Caller Task) : Prop where
  callers : after.callers = before.callers
  workers : after.workers = before.workers
  count : after.backgroundThreads = before.backgroundThreads
  flag : after.startedBackgroundThread = before.startedBackgroundThread

/-- A move of the background thread after a change that touches no thread. -/
theorem SameThreads.holds_goto {between : State Caller Task} (same : SameThreads state between)
    (next : WorkerPhase Task) (thread : Thread Caller) (other : thread ≠ .worker 0) :
    (between.goto 0 next).holds thread = state.holds thread := by
  rw [holds_goto_other between next other]
  cases thread <;> simp [State.holds, same.callers, same.workers]

section Worker

variable {between : State Caller Task} {phase next : WorkerPhase Task}

/-- The background thread goes on at `next`; what is left to show is who owns the mutex then. -/
theorem Consistent.goto (consistent : Consistent state) (same : SameThreads state between)
    (standing : state.workers 0 = phase) (exists_ : phase ≠ .unstarted)
    (owner : ∀ thread, (between.goto 0 next).holder = some thread ↔
      (between.goto 0 next).holds thread = true)
    (reentrant : ∀ inner rest, next = .scheduling inner rest → inner.holds = false)
    (history : between.enqueued = between.ran ++ next.inFlight ++ between.queue)
    (awake : next = .waiting false →
      between.queue = [] ∧ ∀ name task, between.callers name ≠ some (.enqueuing task)) :
    Consistent (between.goto 0 next) := by
  refine ⟨owner, ?_, ?_, ?_, ?_, ?_⟩
  · simpa [State.goto] using reentrant
  · simpa [State.goto, same.count, same.flag] using consistent.started
  · intro index above
    have inside : state.backgroundThreads ≤ index := by rwa [← same.count]
    have other : index ≠ 0 := by
      rintro rfl
      exact exists_ (standing.symm.trans (consistent.existing 0 inside))
    simpa [State.goto, Function.update_of_ne other, same.workers] using
      consistent.existing index inside
  · simpa [State.goto] using history
  · simpa [State.goto] using awake

/-- The background thread acquires the free mutex and tests the queue. -/
theorem Consistent.goto_acquire (consistent : Consistent state) (standing : state.workers 0 = phase)
    (exists_ : phase ≠ .unstarted) (idle : phase.inFlight = []) (free : state.holder = none) :
    Consistent ({ state with holder := some (.worker 0) }.goto 0 .checking) := by
  have same : SameThreads state { state with holder := some (.worker 0) } := ⟨rfl, rfl, rfl, rfl⟩
  have history := consistent.history
  rw [standing, idle] at history
  exact consistent.goto same standing exists_
    (owner_acquire consistent free rfl (holds_goto_self ..) (same.holds_goto _)) (by simp) history
    (by simp)

/-- The background thread gives the mutex up. -/
theorem Consistent.goto_release (consistent : Consistent state) (standing : state.workers 0 = phase)
    (holds : phase.holds = true) (idle : phase.inFlight = []) (gone : next.holds = false)
    (idleNext : next.inFlight = []) (awake : next = .waiting false → state.queue = []) :
    Consistent ({ state with holder := none }.goto 0 next) := by
  have same : SameThreads state { state with holder := none } := ⟨rfl, rfl, rfl, rfl⟩
  have owns : state.holds (.worker 0) = true := by rw [State.holds, standing, holds]
  have history := consistent.history
  rw [standing, idle, ← idleNext] at history
  refine consistent.goto same standing ?_
    (owner_release consistent owns rfl ((holds_goto_self ..).trans gone) (same.holds_goto _)) ?_
    history fun waits => ⟨awake waits, fun name task enqueuing => ?_⟩
  · rintro rfl
    cases holds
  · rintro inner rest rfl
    cases gone
  · -- A caller before `emplace` would hold the mutex too.
    have callerOwns : state.holds (.caller name) = true := by
      simp [State.holds, show state.callers name = _ from enqueuing, SchedulePhase.holds]
    cases consistent.eq_of_holds callerOwns owns

/-- The background thread goes on with the mutex as it was. -/
theorem Consistent.goto_keep (consistent : Consistent state) (same : SameThreads state between)
    (holder : between.holder = state.holder) (standing : state.workers 0 = phase)
    (exists_ : phase ≠ .unstarted) (holds : next.holds = phase.holds)
    (reentrant : ∀ inner rest, next = .scheduling inner rest → inner.holds = false)
    (history : between.enqueued = between.ran ++ next.inFlight ++ between.queue)
    (awake : next ≠ .waiting false) :
    Consistent (between.goto 0 next) := by
  refine consistent.goto same standing exists_ (owner_keep consistent holder fun thread => ?_)
    reentrant history fun waits => absurd waits awake
  by_cases self : thread = .worker 0
  · subst self
    rw [holds_goto_self, holds, State.holds, standing]
  · exact same.holds_goto next thread self

end Worker

/-- A step of the background thread keeps the invariant. -/
theorem Consistent.workerStep (consistent : Consistent state) {calls : Task → List Task}
    {index woken : Nat} {after : State Caller Task}
    (stepped : workerStep calls index woken state (state.workers index) = some after) :
    Consistent after := by
  have first : index = 0 := by
    by_contra other
    rw [consistent.only_first other] at stepped
    cases stepped
  subst first
  have history := consistent.history
  have still : SameThreads state state := ⟨rfl, rfl, rfl, rfl⟩
  cases phase : state.workers 0 with
  | unstarted =>
    rw [phase] at stepped
    cases stepped
  | locking | relocking =>
    rw [phase] at stepped
    simp only [Scheduler.workerStep] at stepped
    split_ifs at stepped with free
    cases stepped
    exact consistent.goto_acquire phase (by simp) rfl free
  | checking =>
    rw [phase] at stepped history
    simp only [Scheduler.workerStep] at stepped
    split_ifs at stepped with empty
    · cases stepped
      exact consistent.goto_release phase rfl rfl rfl rfl fun _ => List.isEmpty_iff.mp empty
    · cases stepped
      exact consistent.goto_keep still rfl phase (by simp) rfl (by simp) history (by simp)
  | waiting notified =>
    rw [phase] at stepped history
    cases stepped
    exact consistent.goto_keep still rfl phase (by simp) rfl (by simp) history (by simp)
  | dequeuing =>
    rw [phase] at stepped history
    simp only [Scheduler.workerStep] at stepped
    cases waiting : state.queue with
    | nil =>
      rw [waiting] at stepped
      cases stepped
    | cons task queue =>
      rw [waiting] at stepped history
      cases stepped
      refine consistent.goto_keep ⟨rfl, rfl, rfl, rfl⟩ rfl phase (by simp) rfl (by simp) ?_
        (by simp)
      simpa [WorkerPhase.inFlight] using history
  | dequeued task =>
    rw [phase] at stepped history
    cases stepped
    refine consistent.goto_keep ⟨rfl, rfl, rfl, rfl⟩ rfl phase (by simp) rfl (by simp) ?_ (by simp)
    simpa [WorkerPhase.inFlight] using history
  | running rest =>
    rw [phase] at stepped history
    cases rest with
    | nil =>
      cases stepped
      exact consistent.goto_keep still rfl phase (by simp) rfl (by simp) history (by simp)
    | cons task rest =>
      cases stepped
      refine consistent.goto_keep still rfl phase (by simp) rfl ?_ history (by simp)
      rintro inner rest ⟨⟩
      rfl
  | scheduling inner rest =>
    -- The thread stands at the guard of `Schedule` and holds the mutex itself.
    have locked := (consistent.owner (.worker 0)).mpr (by rw [State.holds, phase]; rfl)
    have outside := consistent.reentrant inner rest phase
    rw [phase] at stepped
    cases inner with
    | locking task => simp [Scheduler.workerStep, Scheduler.scheduleStep, locked] at stepped
    | starting task => cases outside
    | notifying task => cases outside
    | enqueuing task => cases outside
    | unlocking => cases outside
  | unlocking =>
    rw [phase] at stepped
    cases stepped
    exact consistent.goto_release phase rfl rfl rfl rfl (by simp)

variable [DecidableEq Caller]

/-- Every step keeps the invariant. -/
theorem Consistent.step {calls : Task → List Task} {action : Action Caller Task}
    {after : State Caller Task} (consistent : Consistent state)
    (stepped : step calls state action = some after) : Consistent after := by
  cases action with
  | call name task =>
    simp only [Scheduler.step] at stepped
    split at stepped
    case h_1 outside =>
      cases stepped
      have notHolding : state.holds (.caller name) = false := by simp [State.holds, outside]
      exact consistent.gotoCaller notHolding.symm (.inl (by simp))
    case h_2 => cases stepped
  | caller name woken =>
    simp only [Scheduler.step] at stepped
    split at stepped
    case h_1 => cases stepped
    case h_2 phase standing =>
      obtain ⟨⟨between, next⟩, moved, rfl⟩ := Option.map_eq_some_iff.mp stepped
      exact consistent.scheduleStep standing moved
  | worker index woken => exact consistent.workerStep stepped

/-- Mutex, queue and background thread fit together after any run. -/
theorem run_consistent {calls : Task → List Task} {actions : List (Action Caller Task)}
    {final : State Caller Task}
    (ran : Machine.run (step calls) State.initial actions = some final) : Consistent final := by
  exact Machine.run_keeps Consistent.step initial_consistent ran

end LevelDbXy.Scheduler
