import LevelDbXy.DataStructure.MemTableConcurrent
import LevelDbXy.WriteBatch.Recovery

/-!
# Reading at a snapshot after recovery

Batches in the order of their sequence numbers make one list of versions, the newest last. A
read at a snapshot returns the last version in it that it sees, so after a crash what is read
is what the first batches that were logged have written, those that a `Sync` has covered among
them. The user comparator is a lawful one here; with the shipped one no read finds anything.
-/

namespace LevelDbXy

open Log Posix WriteBatchInternal

namespace MemTable

/-- The last version of an equivalent key that the snapshot sees. -/
def lastVersion (user : Comparator) (versions : List AddCall) (k : Bytes) (s : Nat) :
    Option AddCall :=
  versions.reverse.find? fun call => user.compare call.key k = 0 ∧ call.seq ≤ s

/-- What a read reports of it. -/
def versionResult (last : Option AddCall) (value : Bytes) (status : Status) : GetResult :=
  last.elim ⟨false, value, status⟩ fun call => readResult call value status

section Versions

variable {user : Comparator} {versions : List AddCall} {k : Bytes} {s : Nat}

/-- The last visible version is the latest one if the sequence numbers rise. -/
theorem latest_of_lastVersion {call : AddCall}
    (increasing : versions.Pairwise fun a b => a.seq < b.seq)
    (isLast : lastVersion user versions k s = some call) : Latest user versions k s call := by
  obtain ⟨seen, newer, older, split, unseen⟩ := List.find?_eq_some_iff_append.mp isLast
  have order : versions = older.reverse ++ call :: newer.reverse := by
    rw [← List.reverse_reverse versions, split]
    simp
  have isSeen : user.compare call.key k = 0 ∧ call.seq ≤ s := of_decide_eq_true seen
  refine ⟨by simp [order], isSeen, fun other added isVisible => ?_⟩
  rw [order] at added increasing
  rcases List.mem_append.mp added with before | behind
  · exact Nat.le_of_lt ((List.pairwise_append.mp increasing).2.2 other before call
      List.mem_cons_self)
  · rcases List.mem_cons.mp behind with rfl | after
    · exact Nat.le_refl _
    · have hidden := unseen other (List.mem_reverse.mp after)
      simp only [Bool.not_eq_true', decide_eq_false_iff_not] at hidden
      exact absurd isVisible hidden

/-- If there is no last visible version, there is none at all. -/
theorem unseen_of_lastVersion (nothing : lastVersion user versions k s = none) :
    ∀ call ∈ versions, ¬ Visible user k s call := by
  intro call added isVisible
  have hidden := List.find?_eq_none.mp nothing call (List.mem_reverse.mpr added)
  exact hidden (decide_eq_true (show user.compare call.key k = 0 ∧ call.seq ≤ s from isVisible))

/-- Where the search of a read ends. -/
theorem exists_found_of_holds (lawful : ThreeWay user.compare) {mem : MemTable}
    (isUser : mem.userComparator = user) (fits : ∀ call ∈ versions, call.Fits)
    (holds : SkipList.Holds (keyCompare user) mem.table
      (insertEntries (keyCompare user) [] versions))
    (size : k.length + 8 < 2 ^ 32) (snapshot : s ≤ kMaxSequenceNumber) (value : Bytes)
    (status : Status) :
    ∃ first, Found user versions (versions.map AddCall.entry) k s first ∧
      mem.get (LookupKey.new k s) value status = some (foundResult user k first value status) := by
  subst isUser
  have order := keyCompare_weakOrder lawful
  have sorted := sorted_insertEntries order versions List.Pairwise.nil
  have visibleBehind : ∀ call ∈ versions, Visible mem.userComparator k s call →
      ¬ SkipList.Lt (keyCompare mem.userComparator) call.entry (LookupKey.new k s).memtableKey := by
    intro call isCall isVisible
    rw [keyCompare_lookupKey_neg_iff _ (fits call isCall) size snapshot]
    obtain ⟨equivalent, inSnapshot⟩ := isVisible
    omega
  obtain ⟨node, sought, stored⟩ := SkipList.seek_holds holds order (LookupKey.new k s).memtableKey
  cases found : ((insertEntries (keyCompare mem.userComparator) [] versions).dropWhile
      fun key => keyCompare mem.userComparator key (LookupKey.new k s).memtableKey < 0).head? with
  | none =>
    rw [found, Option.map_none, Option.map_eq_none_iff] at stored
    subst stored
    refine ⟨none, ⟨fun _ isSome => (nomatch isSome), fun _ isSome => (nomatch isSome),
      fun call isCall _ isVisible => ?_⟩, get_of_seek_none value status sought⟩
    have before := @WeakOrder.lt_of_head?_dropWhile_eq_none _
      (SkipList.Lt (keyCompare mem.userComparator)) _ _ _ _ found
      (mem_insertEntries.mpr ⟨call, isCall, rfl⟩)
    exact absurd before (visibleBehind call isCall isVisible)
  | some entry =>
    obtain ⟨listed, notBefore, leads⟩ := order.before_of_head?_dropWhile sorted found
    obtain ⟨first, isCall, rfl⟩ := mem_insertEntries.mp listed
    obtain ⟨n, rfl, keyed⟩ : ∃ n, node = some n ∧ mem.table.keyOf n = some first.entry := by
      rw [found] at stored
      cases node with
      | none => simp at stored
      | some n => exact ⟨n, rfl, by simpa using stored⟩
    refine ⟨some first, ⟨fun call isSome => Option.some.inj isSome ▸ isCall,
      fun call isSome => Option.some.inj isSome ▸ notBefore,
      fun call isVersion _ isVisible => ⟨first, rfl, ?_⟩⟩,
      get_of_seek_entry (fits first isCall) k s value status sought keyed⟩
    exact leads call.entry (mem_insertEntries.mpr ⟨call, isVersion, rfl⟩)
      (visibleBehind call isVersion isVisible)

/-- A read finds the last version of those added in the order of their sequence numbers. -/
theorem get_lastVersion (lawful : ThreeWay user.compare) {mem : MemTable}
    (isUser : mem.userComparator = user) (fits : ∀ call ∈ versions, call.Fits)
    (holds : SkipList.Holds (keyCompare user) mem.table
      (insertEntries (keyCompare user) [] versions))
    (increasing : versions.Pairwise fun a b => a.seq < b.seq) (size : k.length + 8 < 2 ^ 32)
    (snapshot : s ≤ kMaxSequenceNumber) (value : Bytes) (status : Status) :
    mem.get (LookupKey.new k s) value status =
      some (versionResult (lastVersion user versions k s) value status) := by
  obtain ⟨first, found, reads⟩ :=
    exists_found_of_holds lawful isUser fits holds size snapshot value status
  have distinct : versions.Pairwise fun a b =>
      user.compare a.key b.key = 0 → a.seq ≠ b.seq := by
    refine increasing.imp ?_
    exact fun before _ => Nat.ne_of_lt before
  obtain ⟨some_, all, only, latest, nothing⟩ :=
    found.reads_latest lawful fits distinct snapshot size value status
  have whole : ∀ call, call ∈ some_ ↔ call ∈ versions := fun call =>
    ⟨only call, fun added => all call added (List.mem_map_of_mem added)⟩
  rw [reads]
  cases isLast : lastVersion user versions k s with
  | none =>
    exact congrArg some (nothing fun call added =>
      unseen_of_lastVersion isLast call ((whole call).mp added))
  | some call =>
    obtain ⟨added, isVisible, largest⟩ := latest_of_lastVersion increasing isLast
    exact congrArg some (latest call ⟨(whole call).mpr added, isVisible, fun other member =>
      largest other ((whole other).mp member)⟩)

end Versions

end MemTable

namespace Application

/-- The versions of a list of applications, in order. -/
def versions (lists : Nat → List Op) (apps : List Application) : List AddCall :=
  apps.flatMap (calls lists)

section Order

variable {lists : Nat → List Op} {apps : List Application}

/-- The sequence numbers rise through all batches. -/
theorem increasing_versions
    (ranges : apps.Pairwise fun a b => a.base + (lists a.batch).length ≤ b.base) :
    (versions lists apps).Pairwise fun a b => a.seq < b.seq := by
  refine List.pairwise_flatMap.mpr ⟨fun app _ => increasing_calls app, ranges.imp ?_⟩
  intro first second apart a aMember b bMember
  have := (seq_of_mem_calls aMember).2.1
  have := (seq_of_mem_calls bMember).1
  omega

end Order

/-- Batches at ascending sequence numbers are logged, with any behaviour of the system calls, and
what a crash has left of the log is replayed into a new memtable: `Get` returns what the last
write that its snapshot sees has written, among those of the first batches. All batches are
among the first ones that a `Sync` has covered, and without a crash all that were acknowledged. -/
theorem get_after_recovery (user : Comparator) (lawful : ThreeWay user.compare)
    (program : List BatchCall) (fits : ∀ call ∈ program, call.Fits) (apps : List Application)
    (sizes : ∀ app ∈ apps, ∀ op ∈ BatchCall.logicalRun program app.batch,
      op.key.length + 8 < 2 ^ 32)
    (ranges : apps.Pairwise fun a b =>
      a.base + (BatchCall.logicalRun program a.batch).length ≤ b.base)
    (bounded : ∀ app ∈ apps,
      app.base + (BatchCall.logicalRun program app.batch).length ≤ kMaxSequenceNumber + 1)
    (heights : ∀ app ∈ apps, ∀ index, 1 ≤ app.heights index ∧ app.heights index ≤ kMaxHeight)
    (strerror : Nat → String) (filename : String) (fd : Nat) (writes : List WriteOutcome)
    (others : List (Option Nat)) {calls : List LogCall} {session : LogSession strerror}
    (ran : Machine.run LogSession.call (.open_ filename fd writes others []) calls = some session)
    (logged : calls.filterMap LogCall.record? = apps.map (contents (BatchCall.run program)))
    {cut : Bytes} (isCut : cut <+: session.contents)
    (kept : (session.disk []).synced ≤ cut.length) (reporting : Bool) {fuel : Nat}
    (enough : cut.length + 2 ≤ fuel) :
    ∃ returned last count mem,
      (openReader cut ⟨reporting, 0⟩).readAll fuel = some (returned, last) ∧
      last.reports = [] ∧ (session.history []).covered.length ≤ count ∧
      count ≤ (session.history []).acknowledged.length ∧
      (cut = session.contents → count = (session.history []).acknowledged.length) ∧
      replay ((returned.map Prod.fst).zip (apps.map Application.heights)) (MemTable.new user) =
        some mem ∧
      ∀ k s value status, k.length + 8 < 2 ^ 32 → s ≤ kMaxSequenceNumber →
        mem.get (LookupKey.new k s) value status =
          some (MemTable.versionResult (MemTable.lastVersion user
            (versions (BatchCall.logicalRun program) (apps.take count)) k s) value status) := by
  obtain ⟨returned, last, count, read, silent, atLeast, atMost, whole, replayed⟩ :=
    replay_recovers_first_batches program fits apps strerror filename fd writes others ran logged
      isCut kept reporting enough (MemTable.new user)
  have encodes := BatchCall.run_encodes fits
  have among : ∀ {app}, app ∈ apps.take count → app ∈ apps := fun member =>
    List.mem_of_mem_take member
  obtain ⟨mem, added, isUser, holds⟩ :=
    MemTable.addAll_new_holds (MemTable.keyCompare_weakOrder lawful)
      ((apps.take count).flatMap fun app => insertionCalls app.heights (truncU64 app.base) 0
        (BatchCall.logicalRun program app.batch)) (by
      intro call member
      obtain ⟨app, appMember, callMember⟩ := List.mem_flatMap.mp member
      exact heights_insertionCalls (heights app (among appMember)) _ _ _ call callMember)
  have added_ : ((apps.take count).flatMap fun app => insertionCalls app.heights
      (truncU64 app.base) 0 (BatchCall.logicalRun program app.batch)).map Prod.fst =
        versions (BatchCall.logicalRun program) (apps.take count) := by
    rw [List.map_flatMap]
    exact List.flatMap_congr fun app member => map_fst_insertionCalls (bounded app (among member))
  rw [added_] at holds
  refine ⟨returned, last, count, mem, read, silent, atLeast, atMost, whole, ?_, ?_⟩
  · rw [replayed, applyAll_eq encodes, added]
  · intro k s value status size snapshot
    refine MemTable.get_lastVersion lawful isUser ?_ holds
      (increasing_versions (ranges.sublist (List.take_sublist count apps))) size snapshot value
      status
    intro call member
    obtain ⟨app, appMember, callMember⟩ := List.mem_flatMap.mp member
    exact fits_of_mem_calls (encodes app.batch) (sizes app (among appMember))
      (bounded app (among appMember)) callMember

/-- Two batches that write one key, with a `Sync` between them and a crash in the second record: at
the sequence number of the first batch its version is read. -/
theorem get_after_recovery_torn_batch :
    ∃ (session : LogSession fun _ => "") (returned : List (Bytes × Nat)) (last : Reader BytesFile)
        (mem : MemTable),
      Machine.run LogSession.call (.open_ "000001.log" 3 [.wrote 4] [] [])
        [.addRecord (contents (BatchCall.run [.put 0 [97] [98], .delete 1 [97]])
            ⟨0, 1, fun _ => 1⟩), .sync,
          .addRecord (contents (BatchCall.run [.put 0 [97] [98], .delete 1 [97]])
            ⟨1, 2, fun _ => 2⟩)] = some session ∧
      session.contents.length = 46 ∧
      (openReader (session.contents.take 30) ⟨true, 0⟩).readAll 32 = some (returned, last) ∧
      replay ((returned.map Prod.fst).zip [fun _ => 1, fun _ => 2])
        (MemTable.new MemTable.lexicographicComparator) = some mem ∧
      mem.get (LookupKey.new [97] 1) [] .ok = some ⟨true, [98], .ok⟩ := by
  have results : (Machine.run LogSession.call
      (.open_ "000001.log" 3 [.wrote 4] [] [] : LogSession fun _ => "")
      [.addRecord (contents (BatchCall.run [.put 0 [97] [98], .delete 1 [97]])
          ⟨0, 1, fun _ => 1⟩), .sync,
        .addRecord (contents (BatchCall.run [.put 0 [97] [98], .delete 1 [97]])
          ⟨1, 2, fun _ => 2⟩)]).map (fun session =>
            ((session.history []).covered.length, (session.history []).acknowledged.length,
              (session.disk []).synced, session.contents.length)) = some (1, 2, 24, 46) := by
    decide +kernel
  obtain ⟨session, ran, summary⟩ := Option.map_eq_some_iff.mp results
  obtain ⟨covered, acknowledged, synced, length⟩ : (session.history []).covered.length = 1 ∧
      (session.history []).acknowledged.length = 2 ∧ (session.disk []).synced = 24 ∧
      session.contents.length = 46 := by
    simpa only [Prod.mk.injEq] using summary
  have isCut : (session.contents.take 30).length = 30 := by
    rw [List.length_take, length]
    rfl
  obtain ⟨returned, last, count, mem, read, -, atLeast, atMost, -, replayed, reads⟩ :=
    get_after_recovery MemTable.lexicographicComparator MemTable.lexicographicComparator_lawful
      [.put 0 [97] [98], .delete 1 [97]] (by simp [BatchCall.Fits, Op.Fits])
      [⟨0, 1, fun _ => 1⟩, ⟨1, 2, fun _ => 2⟩] (by decide) (by decide) (by decide)
      (by
        intro app member index
        simp only [List.mem_cons, List.not_mem_nil, or_false] at member
        rcases member with rfl | rfl <;> simp [kMaxHeight])
      (fun _ => "") "000001.log" 3 [.wrote 4] [] ran rfl (List.take_prefix 30 _)
      (by rw [isCut, synced]; decide) true (Nat.le_of_eq (congrArg (· + 2) isCut))
  refine ⟨session, returned, last, mem, ran, length, read, replayed, ?_⟩
  have first := reads [97] 1 [] .ok (by decide) (by decide)
  -- the second record may be lost or not: the version it would add is later than the snapshot
  obtain rfl | rfl : count = 1 ∨ count = 2 := by omega
  · exact first
  · exact first

end Application

end LevelDbXy
