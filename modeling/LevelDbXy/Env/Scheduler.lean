import LevelDbXy.Library.Machine
import Mathlib.Logic.Function.Basic

/-!
# Background work

`PosixEnv::Schedule` and `BackgroundThreadMain` (`env/env_posix.cpp`) as a machine of
threads that take one step at a time: any number of callers of `Schedule`, and the
background threads it starts. The scoped guard of the worker loop lives to the end of the
loop body, so the worker still holds `background_work_mutex_` when it runs a task. A task
is known by the tasks it schedules in turn (`calls`); its own calls of `Schedule` are made
by the worker that runs it.
-/

namespace LevelDbXy.Scheduler

/-- Where a thread stands in `Schedule(task)`. -/
inductive SchedulePhase (Task : Type) where
  /-- At the guard, which acquires the mutex. -/
  | locking (task : Task)
  /-- Before the test of `started_background_thread_`. -/
  | starting (task : Task)
  /-- Before the test of the queue and `notify_one`. -/
  | notifying (task : Task)
  /-- Before `emplace`. -/
  | enqueuing (task : Task)
  /-- At the end of the guard. -/
  | unlocking
  deriving DecidableEq, Repr

/-- Where a background thread stands in `BackgroundThreadMain`. -/
inductive WorkerPhase (Task : Type) where
  /-- The thread does not exist. -/
  | unstarted
  /-- At the guard of the loop body. -/
  | locking
  /-- At the test whether the queue is empty. -/
  | checking
  /-- In `wait`, with or without a notification since. -/
  | waiting (notified : Bool)
  /-- Woken, by a notification or not: `wait` acquires the mutex again. -/
  | relocking
  /-- Before `front` and `pop`. -/
  | dequeuing
  /-- Before the call of the function. -/
  | dequeued (task : Task)
  /-- In the function, with calls of `Schedule` still to make. -/
  | running (rest : List Task)
  /-- In a call of `Schedule` that the function makes. -/
  | scheduling (phase : SchedulePhase Task) (rest : List Task)
  /-- At the end of the guard. -/
  | unlocking
  deriving DecidableEq, Repr

/-- A thread: a caller of `Schedule` or one of the background threads. -/
inductive Thread (Caller : Type) where
  | caller (name : Caller)
  | worker (index : Nat)
  deriving DecidableEq, Repr

/-- The guarded fields of `PosixEnv`, the threads, and the tasks enqueued and run so far. -/
structure State (Caller Task : Type) where
  holder : Option (Thread Caller)
  startedBackgroundThread : Bool
  backgroundThreads : Nat
  queue : List Task
  callers : Caller → Option (SchedulePhase Task)
  workers : Nat → WorkerPhase Task
  enqueued : List Task
  ran : List Task

/-- The next step of a thread. A caller outside `Schedule` calls it with a task; `woken` is the
thread that `notify_one` wakes, if the step is one. -/
inductive Action (Caller Task : Type) where
  | call (name : Caller) (task : Task)
  | caller (name : Caller) (woken : Nat)
  | worker (index : Nat) (woken : Nat)
  deriving DecidableEq, Repr

variable {Caller Task : Type}

/-- A new `PosixEnv`. -/
def State.initial : State Caller Task :=
  ⟨none, false, 0, [], fun _ => none, fun _ => .unstarted, [], []⟩

/-- The thread waits without a notification. -/
def WorkerPhase.isWaiting : WorkerPhase Task → Bool
  | .waiting notified => !notified
  | _ => false

/-- `notify_one`: some waiting thread is notified, if there is one. -/
def notifyOne (state : State Caller Task) (woken : Nat) : Option (State Caller Task) :=
  if (state.workers woken).isWaiting then
    some { state with workers := Function.update state.workers woken (.waiting true) }
  else if (List.range state.backgroundThreads).all fun index =>
      !(state.workers index).isWaiting then
    some state
  else none

/-- A step of `Schedule` by the thread `self`, and where it stands then; nowhere after the
return. -/
def scheduleStep (self : Thread Caller) (woken : Nat) (state : State Caller Task) :
    SchedulePhase Task → Option (State Caller Task × Option (SchedulePhase Task))
  | .locking task =>
    if state.holder = none then some ({ state with holder := some self }, some (.starting task))
    else none
  | .starting task =>
    if state.startedBackgroundThread then some (state, some (.notifying task))
    else some ({ state with
      startedBackgroundThread := true
      backgroundThreads := state.backgroundThreads + 1
      workers := Function.update state.workers state.backgroundThreads .locking },
      some (.notifying task))
  | .notifying task =>
    if state.queue.isEmpty then
      (notifyOne state woken).map fun notified => (notified, some (.enqueuing task))
    else some (state, some (.enqueuing task))
  | .enqueuing task =>
    some ({ state with queue := state.queue ++ [task], enqueued := state.enqueued ++ [task] },
      some .unlocking)
  | .unlocking => some ({ state with holder := none }, none)

/-- The background thread `index` goes on at `phase`. -/
def State.goto (state : State Caller Task) (index : Nat) (phase : WorkerPhase Task) :
    State Caller Task :=
  { state with workers := Function.update state.workers index phase }

/-- A step of `BackgroundThreadMain`. -/
def workerStep (calls : Task → List Task) (index woken : Nat) (state : State Caller Task) :
    WorkerPhase Task → Option (State Caller Task)
  | .unstarted => none
  | .locking =>
    if state.holder = none then
      some ({ state with holder := some (.worker index) }.goto index .checking)
    else none
  | .checking =>
    if state.queue.isEmpty then some ({ state with holder := none }.goto index (.waiting false))
    else some (state.goto index .dequeuing)
  | .waiting _ => some (state.goto index .relocking)
  | .relocking =>
    if state.holder = none then
      some ({ state with holder := some (.worker index) }.goto index .checking)
    else none
  | .dequeuing =>
    match state.queue with
    | [] => none
    | task :: queue => some ({ state with queue := queue }.goto index (.dequeued task))
  | .dequeued task =>
    some ({ state with ran := state.ran ++ [task] }.goto index (.running (calls task)))
  | .running [] => some (state.goto index .unlocking)
  | .running (task :: rest) => some (state.goto index (.scheduling (.locking task) rest))
  | .scheduling phase rest =>
    (scheduleStep (.worker index) woken state phase).map fun (after, next) =>
      after.goto index (match next with
        | some phase => .scheduling phase rest
        | none => .running rest)
  | .unlocking => some ({ state with holder := none }.goto index .locking)

/-- The next step of a thread, if it can take one. -/
def step [DecidableEq Caller] (calls : Task → List Task) (state : State Caller Task) :
    Action Caller Task → Option (State Caller Task)
  | .call name task =>
    match state.callers name with
    | none => some { state with
        callers := Function.update state.callers name (some (.locking task)) }
    | some _ => none
  | .caller name woken =>
    match state.callers name with
    | none => none
    | some phase =>
      (scheduleStep (.caller name) woken state phase).map fun (after, next) =>
        { after with callers := Function.update after.callers name next }
  | .worker index woken => workerStep calls index woken state (state.workers index)

/-! ### What is promised -/

/-- The thread is at a point that acquires the mutex. -/
def State.Acquiring (state : State Caller Task) : Thread Caller → Prop
  | .caller name => ∃ task, state.callers name = some (.locking task)
  | .worker index => state.workers index = .locking ∨ state.workers index = .relocking ∨
      ∃ task rest, state.workers index = .scheduling (.locking task) rest

/-- The background thread is inside a task. -/
def WorkerPhase.inTask : WorkerPhase Task → Bool
  | .running _ => true
  | .scheduling _ _ => true
  | _ => false

/-- No thread acquires a mutex it holds, and none runs a task while it holds the mutex. -/
structure State.NoSelfDeadlock (state : State Caller Task) : Prop where
  acquiring : ∀ thread, state.Acquiring thread → state.holder ≠ some thread
  running : ∀ index, (state.workers index).inTask = true → state.holder ≠ some (.worker index)

/-- A background thread waits on the condition variable without a notification, although the
mutex is free and there is work. -/
def State.LostWakeUp (state : State Caller Task) : Prop :=
  state.holder = none ∧ state.queue ≠ [] ∧ ∃ index, state.workers index = .waiting false

end LevelDbXy.Scheduler
