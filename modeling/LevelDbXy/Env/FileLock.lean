import LevelDbXy.Library.Machine
import Mathlib.Logic.Function.Basic

/-!
# Locking a file across processes

`PosixEnv::LockFile` and `UnlockFile` (`env/env_posix.cpp`) guard one path with two
layers: a `PosixLockTable` in each process and the record lock of the kernel, which belongs
to a process. They are updated in separate steps, with a descriptor opened before and
closed after them, and closing any descriptor of the file drops the record lock of the
process. A caller is one use of the lock: a `LockFile` call and, if that is OK, the
`UnlockFile` calls on its result. A thread that calls `LockFile` again while it holds a
lock counts as another caller.
-/

namespace LevelDbXy.FileLock

/-- Where a caller stands between its steps. -/
inductive Phase where
  /-- Before `LockFile`, or after a call that has returned for good. -/
  | idle
  /-- `LockFile` has a descriptor. -/
  | opened
  /-- `locks_.Insert` was false. -/
  | refused
  /-- `locks_.Insert` was true. -/
  | inserted
  /-- `F_WRLCK` failed. -/
  | denied
  /-- The descriptor of the failed attempt is closed. -/
  | deniedClosed
  /-- `F_WRLCK` succeeded: the `FileLock` that `LockFile` returns is live. -/
  | locked
  /-- `F_UNLCK` succeeded in `UnlockFile`. -/
  | unlocked
  /-- `UnlockFile` has removed the name from the table. -/
  | removed
  deriving DecidableEq, Repr

/-- Whether the system call at which a caller stands works; a conflict of record locks is
not an outcome to choose. -/
inductive Outcome where
  | ok
  | error
  deriving DecidableEq, Repr

variable {Process Caller : Type} [DecidableEq Process] [DecidableEq Caller]

/-- The lock tables, as far as the path is concerned, the process that holds the record
lock, and the callers. -/
structure State (Process Caller : Type) where
  lockedFiles : Process → Bool
  holder : Option Process
  phase : Caller → Phase

/-- No process has locked the file. -/
def State.initial : State Process Caller := ⟨fun _ => false, none, fun _ => .idle⟩

/-- `close` or `F_UNLCK` by a process: its record lock on the file is gone. -/
def release (holder : Option Process) (process : Process) : Option Process :=
  if holder = some process then none else holder

/-- The next step of a caller in the process `home caller`. -/
def step (home : Caller → Process) (state : State Process Caller) (action : Caller × Outcome) :
    Option (State Process Caller) :=
  let (caller, outcome) := action
  let process := home caller
  let goto := Function.update state.phase caller
  match state.phase caller, outcome with
  -- `open`
  | .idle, .error => some state
  | .idle, .ok => some { state with phase := goto .opened }
  -- `locks_.Insert`
  | .opened, .ok =>
    if state.lockedFiles process then some { state with phase := goto .refused }
    else some { state with
      lockedFiles := Function.update state.lockedFiles process true
      phase := goto .inserted }
  -- `close` and "already held by process"
  | .refused, .ok =>
    some { state with holder := release state.holder process, phase := goto .idle }
  -- `F_WRLCK` fails while another process holds the record lock
  | .inserted, .ok =>
    if state.holder = none ∨ state.holder = some process then
      some { state with holder := some process, phase := goto .locked }
    else some { state with phase := goto .denied }
  -- `close`, then `locks_.Remove`
  | .denied, .ok =>
    some { state with holder := release state.holder process, phase := goto .deniedClosed }
  | .deniedClosed, .ok =>
    some { state with
      lockedFiles := Function.update state.lockedFiles process false
      phase := goto .idle }
  -- `UnlockFile`: `F_UNLCK`
  | .locked, .error => some state
  | .locked, .ok =>
    some { state with holder := release state.holder process, phase := goto .unlocked }
  -- `locks_.Remove`, then `close`
  | .unlocked, .ok =>
    some { state with
      lockedFiles := Function.update state.lockedFiles process false
      phase := goto .removed }
  | .removed, .ok =>
    some { state with holder := release state.holder process, phase := goto .idle }
  | _, .error => none

/-- At most one `FileLock` is live. -/
def Exclusive (state : State Process Caller) : Prop :=
  ∀ c d, state.phase c = .locked → state.phase d = .locked → c = d

/-- The step does not drop a record lock that its process holds: neither the `close` of a
refused `LockFile` nor that of an `UnlockFile` comes while the process holds it. -/
def KeepsRecordLock (home : Caller → Process) (state : State Process Caller)
    (action : Caller × Outcome) : Prop :=
  state.phase action.1 = .refused ∨ state.phase action.1 = .removed →
    state.holder ≠ some (home action.1)

instance (home : Caller → Process) (state : State Process Caller) (action : Caller × Outcome) :
    Decidable (KeepsRecordLock home state action) :=
  inferInstanceAs (Decidable (_ → _))

/-! ### The invariant -/

/-- The caller has put the name into the table of its process and not removed it. -/
def Phase.Owns (phase : Phase) : Prop :=
  phase = .inserted ∨ phase = .denied ∨ phase = .deniedClosed ∨ phase = .locked ∨
    phase = .unlocked

/-- How the two layers fit together. -/
structure Consistent (home : Caller → Process) (state : State Process Caller) : Prop where
  listed : ∀ c, (state.phase c).Owns → state.lockedFiles (home c) = true
  unique : ∀ c d, (state.phase c).Owns → (state.phase d).Owns → home c = home d → c = d
  held : ∀ c, state.phase c = .locked → state.holder = some (home c)
  live : ∀ process, state.holder = some process → ∃ c, home c = process ∧ state.phase c = .locked

omit [DecidableEq Process] [DecidableEq Caller] in
/-- At first nothing is locked. -/
theorem initial_consistent (home : Caller → Process) :
    Consistent home (State.initial : State Process Caller) := by
  constructor <;> simp [State.initial, Phase.Owns]

omit [DecidableEq Process] [DecidableEq Caller] in
/-- One live lock holds the record lock, and its process has one owner. -/
theorem Consistent.exclusive {home : Caller → Process} {state : State Process Caller}
    (consistent : Consistent home state) : Exclusive state := by
  intro c d cLocked dLocked
  have same := (consistent.held c cLocked).symm.trans (consistent.held d dLocked)
  refine consistent.unique c d ?_ ?_ (Option.some.inj same)
  · simp [cLocked, Phase.Owns]
  · simp [dLocked, Phase.Owns]

/-- A process without the record lock drops nothing. -/
theorem release_of_ne {holder : Option Process} {process : Process}
    (other : holder ≠ some process) : release holder process = holder :=
  if_neg other

/-- The owners after a move of one caller, if that one owned the name before. -/
theorem owns_before {phases : Caller → Phase} {caller : Caller} {next : Phase}
    (owns : next.Owns → (phases caller).Owns) (c : Caller)
    (owner : (Function.update phases caller next c).Owns) : (phases c).Owns := by
  rcases eq_or_ne c caller with rfl | other
  · exact owns (by simpa using owner)
  · simpa [other] using owner

/-- The callers that have the lock after a move of one that neither has it nor gets it. -/
theorem locked_update_iff {phases : Caller → Phase} {caller : Caller} {next : Phase}
    (notLocked : phases caller ≠ .locked) (notLocking : next ≠ .locked) (c : Caller) :
    Function.update phases caller next c = .locked ↔ phases c = .locked := by
  rcases eq_or_ne c caller with rfl | other
  · simp [notLocked, notLocking]
  · simp [other]

namespace Consistent

variable {home : Caller → Process} {state : State Process Caller} {caller : Caller} {next : Phase}
  (consistent : Consistent home state)

include consistent

omit [DecidableEq Process] in
/-- A caller moves on without touching the table; what is left to show is about the record
lock. -/
theorem keepTable {holder : Option Process} (owns : next.Owns → (state.phase caller).Owns)
    (held : ∀ c, Function.update state.phase caller next c = .locked → holder = some (home c))
    (live : ∀ process, holder = some process →
      ∃ c, home c = process ∧ Function.update state.phase caller next c = .locked) :
    Consistent home { state with
      holder := holder, phase := Function.update state.phase caller next } where
  listed c owner := consistent.listed c (owns_before owns c owner)
  unique c d cOwner dOwner :=
    consistent.unique c d (owns_before owns c cOwner) (owns_before owns d dOwner)
  held := held
  live := live

omit [DecidableEq Process] in
/-- A caller moves on without taking or giving up anything. -/
theorem move (owns : next.Owns → (state.phase caller).Owns)
    (notLocked : state.phase caller ≠ .locked) (notLocking : next ≠ .locked) :
    Consistent home { state with phase := Function.update state.phase caller next } := by
  have lockedIff := locked_update_iff notLocked notLocking
  refine consistent.keepTable owns (fun c isLocked => ?_) fun process holds => ?_
  · exact consistent.held c ((lockedIff c).mp isLocked)
  · obtain ⟨c, atHome, isLocked⟩ := consistent.live process holds
    exact ⟨c, atHome, (lockedIff c).mpr isLocked⟩

/-- The name was not in the table, so no other caller of the process owns it. -/
theorem insert (free : state.lockedFiles (home caller) = false)
    (notLocked : state.phase caller ≠ .locked) :
    Consistent home { state with
      lockedFiles := Function.update state.lockedFiles (home caller) true
      phase := Function.update state.phase caller .inserted } := by
  have elsewhere : ∀ c, (state.phase c).Owns → home c ≠ home caller := by
    intro c owner same
    have listed := consistent.listed c owner
    rw [same, free] at listed
    cases listed
  have ownerCases : ∀ c, (Function.update state.phase caller .inserted c).Owns →
      c = caller ∨ (state.phase c).Owns := by
    intro c owner
    rcases eq_or_ne c caller with rfl | other
    · exact Or.inl rfl
    · exact Or.inr (by simpa [other] using owner)
  have notLocking : Phase.inserted ≠ .locked := by simp
  have lockedIff := locked_update_iff notLocked notLocking
  constructor
  · intro c owner
    rcases ownerCases c owner with rfl | owned
    · simp
    · simpa [elsewhere c owned] using consistent.listed c owned
  · intro c d cOwner dOwner same
    rcases ownerCases c cOwner with rfl | cOwned <;> rcases ownerCases d dOwner with rfl | dOwned
    · rfl
    · exact absurd same.symm (elsewhere d dOwned)
    · exact absurd same (elsewhere c cOwned)
    · exact consistent.unique c d cOwned dOwned same
  · exact fun c isLocked => consistent.held c ((lockedIff c).mp isLocked)
  · intro process holds
    obtain ⟨c, atHome, isLocked⟩ := consistent.live process holds
    exact ⟨c, atHome, (lockedIff c).mpr isLocked⟩

omit [DecidableEq Process] in
/-- No other process holds the record lock, and no other caller of this one does. -/
theorem lock (standing : state.phase caller = .inserted)
    (available : state.holder = none ∨ state.holder = some (home caller)) :
    Consistent home { state with
      holder := some (home caller), phase := Function.update state.phase caller .locked } := by
  have owner : (state.phase caller).Owns := by simp [standing, Phase.Owns]
  have noneLocked : ∀ c, state.phase c ≠ .locked := by
    intro c isLocked
    have holds := consistent.held c isLocked
    rcases available with free | own
    · rw [free] at holds
      cases holds
    · have same : home c = home caller := Option.some.inj (holds.symm.trans own)
      have equal := consistent.unique c caller (by simp [isLocked, Phase.Owns]) owner same
      rw [equal, standing] at isLocked
      cases isLocked
  refine consistent.keepTable (fun _ => owner) (fun c isLocked => ?_) fun process holds => ?_
  · rcases eq_or_ne c caller with rfl | other
    · rfl
    · exact absurd (by simpa [other] using isLocked) (noneLocked c)
  · exact ⟨caller, Option.some.inj holds, by simp⟩

/-- The live lock is the only one, so none is left. -/
theorem unlock (standing : state.phase caller = .locked) :
    Consistent home { state with
      holder := release state.holder (home caller)
      phase := Function.update state.phase caller .unlocked } := by
  have released : release state.holder (home caller) = none :=
    if_pos (consistent.held caller standing)
  have owner : (state.phase caller).Owns := by simp [standing, Phase.Owns]
  rw [released]
  refine consistent.keepTable (fun _ => owner) (fun c isLocked => ?_) fun process holds => ?_
  · rcases eq_or_ne c caller with rfl | other
    · simp at isLocked
    · exact absurd (consistent.exclusive c caller (by simpa [other] using isLocked) standing) other
  · cases holds

/-- The only owner in its process takes the name out of the table. -/
theorem remove (owner : (state.phase caller).Owns) (notLocked : state.phase caller ≠ .locked)
    (leaves : ¬ next.Owns) :
    Consistent home { state with
      lockedFiles := Function.update state.lockedFiles (home caller) false
      phase := Function.update state.phase caller next } := by
  have ownedBefore : ∀ c, (Function.update state.phase caller next c).Owns →
      c ≠ caller ∧ (state.phase c).Owns := by
    intro c owns
    rcases eq_or_ne c caller with rfl | other
    · exact absurd (by simpa using owns) leaves
    · exact ⟨other, by simpa [other] using owns⟩
  have notLocking : next ≠ .locked := by
    rintro rfl
    exact leaves (by simp [Phase.Owns])
  have lockedIff := locked_update_iff notLocked notLocking
  constructor
  · intro c owns
    obtain ⟨other, owned⟩ := ownedBefore c owns
    have elsewhere : home c ≠ home caller := fun same =>
      other (consistent.unique c caller owned owner same)
    simpa [elsewhere] using consistent.listed c owned
  · exact fun c d cOwner dOwner =>
      consistent.unique c d (ownedBefore c cOwner).2 (ownedBefore d dOwner).2
  · exact fun c isLocked => consistent.held c ((lockedIff c).mp isLocked)
  · intro process holds
    obtain ⟨c, atHome, isLocked⟩ := consistent.live process holds
    exact ⟨c, atHome, (lockedIff c).mpr isLocked⟩

omit [DecidableEq Process] [DecidableEq Caller] in
/-- A caller that was denied is the only owner in its process, so its `close` drops
nothing. -/
theorem holder_ne_of_denied (standing : state.phase caller = .denied) :
    state.holder ≠ some (home caller) := by
  intro holds
  obtain ⟨c, atHome, isLocked⟩ := consistent.live _ holds
  have equal := consistent.unique c caller (by simp [isLocked, Phase.Owns])
    (by simp [standing, Phase.Owns]) atHome
  rw [equal, standing] at isLocked
  cases isLocked

/-- Every step that keeps the record lock of its process keeps the two layers
consistent. -/
theorem step {after : State Process Caller} {action : Caller × Outcome}
    (keeps : KeepsRecordLock home state action)
    (stepped : FileLock.step home state action = some after) : Consistent home after := by
  obtain ⟨caller, outcome⟩ := action
  simp only [FileLock.step] at stepped
  cases standing : state.phase caller <;> cases outcome <;>
    simp only [standing, Option.some.injEq, reduceCtorEq] at stepped
  case idle.error => exact stepped ▸ consistent
  case idle.ok =>
    rw [← stepped]
    exact consistent.move (by simp [Phase.Owns]) (by simp [standing]) (by simp)
  case opened.ok =>
    cases listed : state.lockedFiles (home caller) with
    | true =>
      rw [listed, if_pos rfl] at stepped
      rw [← Option.some.inj stepped]
      exact consistent.move (by simp [Phase.Owns]) (by simp [standing]) (by simp)
    | false =>
      rw [listed, if_neg (by simp)] at stepped
      rw [← Option.some.inj stepped]
      exact consistent.insert listed (by simp [standing])
  case refused.ok =>
    rw [← stepped, release_of_ne (keeps (Or.inl standing))]
    exact consistent.move (by simp [Phase.Owns]) (by simp [standing]) (by simp)
  case inserted.ok =>
    split_ifs at stepped with available
    · rw [← Option.some.inj stepped]
      exact consistent.lock standing available
    · rw [← Option.some.inj stepped]
      exact consistent.move (by simp [standing, Phase.Owns]) (by simp [standing]) (by simp)
  case denied.ok =>
    rw [← stepped, release_of_ne (consistent.holder_ne_of_denied standing)]
    exact consistent.move (by simp [standing, Phase.Owns]) (by simp [standing]) (by simp)
  case deniedClosed.ok =>
    rw [← stepped]
    exact consistent.remove (by simp [standing, Phase.Owns]) (by simp [standing])
      (by simp [Phase.Owns])
  case locked.error => exact stepped ▸ consistent
  case locked.ok =>
    rw [← stepped]
    exact consistent.unlock standing
  case unlocked.ok =>
    rw [← stepped]
    exact consistent.remove (by simp [standing, Phase.Owns]) (by simp [standing])
      (by simp [Phase.Owns])
  case removed.ok =>
    rw [← stepped, release_of_ne (keeps (Or.inr standing))]
    exact consistent.move (by simp [Phase.Owns]) (by simp [standing]) (by simp)

end Consistent

/-- In every run in which no process closes a descriptor of the file while it holds the
record lock, at most one lock is live in every state reached. -/
theorem exclusive_of_keepsRecordLock (home : Caller → Process)
    (actions : List (Caller × Outcome)) (state : State Process Caller)
    (keeps : Machine.Meets (step home) (KeepsRecordLock home) State.initial actions)
    (ran : Machine.run (step home) State.initial actions = some state) : Exclusive state :=
  (Machine.run_invariant (fun consistent keeps stepped => consistent.step keeps stepped)
    (initial_consistent home) keeps ran).exclusive

/-- Callers 0 and 1 share a process, caller 2 is in another. -/
def sharedHome (caller : Nat) : Bool := caller == 2

/-- Caller 1 is refused before caller 0 has locked the file, caller 2 is denied while it has,
and after caller 0 has unlocked it caller 2 locks it: each of them closes its descriptor when
its process does not hold the record lock. -/
def handOver : List (Nat × Outcome) :=
  [(0, .ok), (0, .ok), (1, .ok), (1, .ok), (1, .ok), (0, .ok), (2, .ok), (2, .ok), (2, .ok),
    (2, .ok), (2, .ok), (0, .ok), (0, .ok), (0, .ok), (2, .ok), (2, .ok), (2, .ok)]

/-- The lock has passed to the second process, and no other one is live. -/
theorem exclusive_of_keepsRecordLock_denied :
    ∃ state : State Bool Nat,
      Machine.run (step sharedHome) State.initial handOver = some state ∧
      state.phase 0 = .idle ∧ state.phase 1 = .idle ∧ state.phase 2 = .locked ∧
      Exclusive state := by
  refine ⟨_, rfl, rfl, rfl, rfl, exclusive_of_keepsRecordLock sharedHome handOver _ ?_ rfl⟩
  iterate 17 refine Machine.meets_of_step rfl (by decide) ?_
  trivial

/-- A failed attempt in the locking process drops the record lock, and another process
locks the file too. -/
theorem refused_attempt_breaks_exclusion :
    ∃ state : State Bool Nat,
      Machine.run (step sharedHome) State.initial
        [(0, .ok), (0, .ok), (0, .ok), (1, .ok), (1, .ok), (1, .ok), (2, .ok), (2, .ok),
          (2, .ok)] = some state ∧
      state.phase 0 = .locked ∧ state.phase 2 = .locked ∧ ¬ Exclusive state := by
  refine ⟨_, rfl, rfl, rfl, fun exclusive => ?_⟩
  exact absurd (exclusive 0 2 rfl rfl) (by decide)

end LevelDbXy.FileLock
