import LevelDbXy.Log.Durability
import LevelDbXy.WriteBatch.Apply

/-!
# Recovering batches from a log

The contents of write batches as the records of a log: what is read from the log after a crash
is installed in a batch with `SetContents` and inserted into a new memtable. The memtable then
holds the operations of the first batches that were logged, each of them once, and those of
every batch that a `Sync` has covered.
-/

namespace LevelDbXy

open Log Posix WriteBatchInternal

/-! ### The records of a session -/

/-- The record of a call. -/
def Log.LogCall.record? : LogCall → Option Bytes
  | .addRecord record => some record
  | .sync => none

namespace Log.LogSession

variable {strerror : Nat → String} {session next : LogSession strerror} {earlier : List Bytes}

/-- A call adds its result, and a record is added only if none has failed. -/
theorem call_results {request : LogCall} (called : session.call request = some next) :
    (request.record?.isSome → session.failed = false) ∧
      ∃ status, next.results = session.results ++ [(request, status)] := by
  cases request with
  | addRecord record =>
    rw [LogSession.call] at called
    split_ifs at called with failed
    cases called
    exact ⟨fun _ => Bool.eq_false_iff.mpr failed, _, rfl⟩
  | sync =>
    cases called
    exact ⟨fun isRecord => (Bool.false_ne_true isRecord).elim, _, rfl⟩

/-- What was acknowledged is what was added, up to the record that failed. -/
structure Recorded (earlier records : List Bytes) (session : LogSession strerror) : Prop where
  begins : (session.history earlier).acknowledged <+: earlier ++ records
  all : session.failed = false → (session.history earlier).acknowledged = earlier ++ records

/-- A call keeps the record of what was added. -/
theorem Recorded.call {records : List Bytes} (recorded : session.Recorded earlier records)
    {request : LogCall} (called : session.call request = some next) :
    next.Recorded earlier (records ++ request.record?.toList) := by
  obtain ⟨running, status, results⟩ := call_results called
  have isHistory : next.history earlier = (session.history earlier).note (request, status) := by
    rw [history, results, history_snoc]
    rfl
  have isFailed : next.failed = (session.failed || LogCall.fails (request, status)) := by
    rw [failed, failed, results, failed_snoc]
  cases request with
  | addRecord record =>
    have before := recorded.all (running rfl)
    rw [running rfl, Bool.false_or] at isFailed
    by_cases isOk : status.isOk = true
    · have longer : (next.history earlier).acknowledged = earlier ++ (records ++ [record]) := by
        rw [isHistory, LogHistory.note, if_pos isOk, ← List.append_assoc, ← before]
      exact ⟨longer ▸ List.prefix_refl _, fun _ => longer⟩
    · refine ⟨?_, fun ok => ?_⟩
      · rw [isHistory, LogHistory.note, if_neg isOk, before, ← List.append_assoc]
        exact List.prefix_append _ _
      · rw [isFailed] at ok
        simp [LogCall.fails, isOk] at ok
  | sync =>
    have same : (next.history earlier).acknowledged = (session.history earlier).acknowledged := by
      rw [isHistory, LogHistory.note]
      split_ifs <;> rfl
    have none : records ++ (LogCall.record? .sync).toList = records := List.append_nil records
    rw [none]
    refine ⟨same ▸ recorded.begins, fun ok => same.trans (recorded.all ?_)⟩
    rw [isFailed] at ok
    exact (Bool.or_eq_false_iff.mp ok).1

/-- After any calls the acknowledged records are the first of those that were added. -/
theorem run_recorded {records : List Bytes} {calls : List LogCall} {final : LogSession strerror}
    (recorded : session.Recorded earlier records)
    (ran : Machine.run LogSession.call session calls = some final) :
    final.Recorded earlier (records ++ calls.filterMap LogCall.record?) := by
  induction calls generalizing session records with
  | nil =>
    obtain rfl : session = final := by simpa [Machine.run] using ran
    rwa [List.filterMap_nil, List.append_nil]
  | cons request calls inductionHypothesis =>
    obtain ⟨next, called, rest⟩ := Machine.run_cons_eq_some.mp ran
    have later := inductionHypothesis (recorded.call called) rest
    rw [List.append_assoc] at later
    cases request with
    | addRecord record => exact later
    | sync => exact later

end Log.LogSession

/-! ### Replaying -/

/-- Each record is installed in a batch, which is inserted with the heights drawn meanwhile; a
batch that does not come back OK ends it. -/
def replay (records : List (Bytes × (Nat → Nat))) (mem : MemTable) : Option MemTable :=
  records.foldlM (fun mem record =>
    let inserted := insertInto (setContents record.1) mem record.2
    if inserted.1.isOk then inserted.2 else none) mem

/-- Two lists made of one, the first of them cut. -/
theorem zip_map_take {α β γ : Type} (f : α → β) (g : α → γ) (values : List α) (count : Nat) :
    ((values.take count).map f).zip (values.map g) =
      (values.take count).map fun value => (f value, g value) := by
  induction values generalizing count with
  | nil => simp
  | cons value values inductionHypothesis =>
    cases count with
    | zero => rfl
    | succ count =>
      rw [List.take_succ_cons, List.map_cons, List.map_cons, List.map_cons, List.zip_cons_cons,
        inductionHypothesis]

namespace Application

variable {batches : Nat → WriteBatch} {lists : Nat → List Op}

/-- The contents of the batch at its sequence number, as they are logged. -/
def contents (batches : Nat → WriteBatch) (app : Application) : Bytes :=
  (setSequence (batches app.batch) app.base).rep

/-- Replaying the contents of batches does what inserting the batches does. -/
theorem replay_eq (encodes : ∀ b, Encodes (batches b) (lists b)) (apps : List Application)
    (mem : MemTable) :
    replay (apps.map fun app => (app.contents batches, app.heights)) mem =
      applyAll batches apps mem := by
  induction apps generalizing mem with
  | nil => rfl
  | cons app apps inductionHypothesis =>
    have numbered := ((encodes app.batch).setSequence app.base).1
    have isOk : (insertInto (setContents (app.contents batches)) mem app.heights).1 = .ok := by
      simp only [insertInto, setContents, contents, numbered.iterate_eq]
    rw [replay, List.map_cons, List.foldlM_cons, applyAll, List.foldlM_cons]
    simp only [isOk, Status.isOk, if_true]
    exact congrArg _ (funext inductionHypothesis)

/-- The contents of batches are logged, with any behaviour of the system calls, and what a crash
has left of the log is replayed: that inserts the first batches that were logged, those that a
`Sync` has covered among them, and without a crash all that were acknowledged. -/
theorem replay_recovers_first_batches (program : List BatchCall)
    (fits : ∀ call ∈ program, call.Fits) (apps : List Application) (strerror : Nat → String)
    (filename : String) (fd : Nat) (writes : List WriteOutcome) (others : List (Option Nat))
    {calls : List LogCall} {session : LogSession strerror}
    (ran : Machine.run LogSession.call (.open_ filename fd writes others []) calls = some session)
    (logged : calls.filterMap LogCall.record? = apps.map (contents (BatchCall.run program)))
    {cut : Bytes} (isCut : cut <+: session.contents)
    (kept : (session.disk []).synced ≤ cut.length) (reporting : Bool) {fuel : Nat}
    (enough : cut.length + 2 ≤ fuel) (mem : MemTable) :
    ∃ returned last count,
      (openReader cut ⟨reporting, 0⟩).readAll fuel = some (returned, last) ∧
      last.reports = [] ∧ (session.history []).covered.length ≤ count ∧
      count ≤ (session.history []).acknowledged.length ∧
      (cut = session.contents → count = (session.history []).acknowledged.length) ∧
      replay ((returned.map Prod.fst).zip (apps.map heights)) mem =
        applyAll (BatchCall.run program) (apps.take count) mem := by
  have intact := LogSession.run_intact ran
  have start : LogSession.Recorded [] []
      (.open_ filename fd writes others [] : LogSession strerror) :=
    ⟨List.prefix_refl _, fun _ => rfl⟩
  have recorded := (LogSession.run_recorded start ran).begins
  rw [List.nil_append, List.nil_append, logged] at recorded
  obtain ⟨returned, last, most, read, isTake, atLeast, whole, silent⟩ :=
    intact.readAll_cut isCut kept reporting enough
  have covered := intact.covered.length_le
  generalize (session.history []).acknowledged = acknowledged at *
  refine ⟨returned, last, min most acknowledged.length, read, silent, Nat.le_min.mpr
    ⟨atLeast, covered⟩, Nat.min_le_right _ _, fun uncut => Nat.min_eq_right (whole uncut), ?_⟩
  have first : returned.map Prod.fst =
      (apps.take (min most acknowledged.length)).map (contents (BatchCall.run program)) := by
    calc
      returned.map Prod.fst = acknowledged.take most := isTake
      _ = ((apps.map (contents (BatchCall.run program))).take acknowledged.length).take most := by
        rw [← List.prefix_iff_eq_take.mp recorded]
      _ = _ := by rw [List.take_take, List.map_take]
  rw [first, zip_map_take, replay_eq (BatchCall.run_encodes fits)]

end Application

end LevelDbXy
