import LevelDbXy.WriteBatch.Codec
import LevelDbXy.DataStructure.MemTableRead

/-!
# Applying batches to a memtable

Batches applied with `InsertInto` become a sequence of `Add` calls at consecutive
sequence numbers. In the shipped configuration the comparison of two entries only
looks at their user keys, so a new entry is put in front of all entries of its key:
applied in the order of their sequence numbers, the versions of a key stand newest
first. The same comparison never reports two user keys as equal, so no read finds
anything (`get_bytewise`).
-/

namespace LevelDbXy

open Coding WriteBatchInternal

/-! ### The heights drawn -/

/-- The insertions of a batch have the heights that were drawn. -/
theorem heights_insertionCalls {heights : Nat → Nat}
    (bounds : ∀ index, 1 ≤ heights index ∧ heights index ≤ kMaxHeight) (seq drawn : Nat)
    (ops : List Op) :
    ∀ call ∈ insertionCalls heights seq drawn ops, 1 ≤ call.2 ∧ call.2 ≤ kMaxHeight := by
  intro call member
  obtain ⟨index, inside, rfl⟩ := List.mem_mapIdx.mp member
  exact bounds _

/-! ### The shipped configuration -/

namespace MemTable

/-- With the shipped comparator entries are ordered by their user keys only. -/
theorem keyCompare_bytewise_entry_iff {a b : AddCall} (aFits : a.Fits) (bFits : b.Fits) :
    SkipList.Lt (keyCompare bytewiseComparator) a.entry b.entry ↔ a.key < b.key := by
  rw [SkipList.Lt, keyCompare, internalCompare_bytewise_neg_iff,
    AddCall.lengthPrefixedAt_entry aFits, AddCall.lengthPrefixedAt_entry bFits,
    AddCall.extractUserKey_internalKey, AddCall.extractUserKey_internalKey]

/-- With the shipped comparator no read finds anything: the entry the search
stands on is decoded, but its user key never compares equal. -/
theorem get_bytewise {mem : MemTable} (calls : List AddCall)
    (shipped : mem.userComparator = bytewiseComparator)
    (holds : SkipList.Holds (keyCompare bytewiseComparator) mem.table
      (insertEntries (keyCompare bytewiseComparator) [] calls))
    (key : LookupKey) (value : Bytes) (status : Status) :
    mem.get key value status = some ⟨false, value, status⟩ := by
  obtain ⟨node, sought, stored⟩ :=
    SkipList.seek_holds holds keyCompare_bytewise_weakOrder key.memtableKey
  rw [← shipped] at sought
  cases node with
  | none => exact get_of_seek_none value status sought
  | some node =>
    cases found : ((insertEntries (keyCompare bytewiseComparator) [] calls).dropWhile
        fun k => keyCompare bytewiseComparator k key.memtableKey < 0).head? with
    | none =>
      rw [found] at stored
      simp at stored
    | some entry =>
      rw [found] at stored
      have keyed : mem.table.keyOf node = some entry := by simpa using stored
      obtain ⟨call, -, rfl⟩ :=
        mem_insertEntries.mp (List.dropWhile_subset _ (List.mem_of_mem_head? found))
      obtain ⟨rest, decoded⟩ := call.getVarint32Ptr_entry
      simp only [get, sought, keyed, decoded, Option.bind_eq_bind, Option.bind_some]
      rw [if_neg]
      rw [shipped]
      exact bytewiseComparator_compare_ne_zero _ _

end MemTable

/-! ### Reading a batch back -/

/-- The user key an operation writes. -/
def Op.key : Op → Bytes
  | .put key _ => key
  | .delete key => key

namespace WriteBatch

/-- The `Put` or `Delete` call for an operation. -/
def record (batch : WriteBatch) : Op → WriteBatch
  | .put key value => batch.put key value
  | .delete key => batch.delete key

/-- A new batch after a sequence of `Put` and `Delete` calls. -/
def ofOps (ops : List Op) : WriteBatch := ops.foldl record clear

/-- No call shortens the header, whatever the sizes of its arguments. -/
theorem length_record {batch : WriteBatch} (large : kHeader ≤ batch.rep.length) (op : Op) :
    kHeader ≤ (batch.record op).rep.length := by
  simp only [kHeader] at large ⊢
  cases op <;>
    simp only [record, put, delete, setCount, putLengthPrefixedSlice, putVarint32,
      List.length_append, List.length_take, List.length_drop, length_encodeFixed32] <;>
    omega

/-- A batch has its header. -/
theorem length_ofOps (ops : List Op) : kHeader ≤ (ofOps ops).rep.length := by
  suffices general : ∀ batch : WriteBatch, kHeader ≤ batch.rep.length →
      kHeader ≤ (ops.foldl record batch).rep.length from general clear (by decide)
  induction ops with
  | nil => exact fun _ large => large
  | cons op ops inductionHypothesis =>
    exact fun batch large => inductionHypothesis _ (length_record large op)

end WriteBatch

/-- The last operation on `k` whose sequence number, counted from `q`, is not above
the snapshot `s`. -/
def lastWrite (ops : List Op) (q : Nat) (k : Bytes) (s : Nat) : Option Op :=
  (ops.mapIdx fun index op => (q + index, op)).reverse.findSome? fun (seq, op) =>
    if op.key = k ∧ seq ≤ s then some op else none

/-- What a read that sees its own writes reports. -/
def ownRead (last : Option Op) (value : Bytes) (status : Status) : MemTable.GetResult :=
  match last with
  | some (.put _ written) => ⟨true, written, status⟩
  | some (.delete _) => ⟨true, value, .notFound ""⟩
  | none => ⟨false, value, status⟩

/-- No write is the last one if none of the key is seen. -/
theorem lastWrite_eq_none_iff {ops : List Op} {q : Nat} {k : Bytes} {s : Nat} :
    lastWrite ops q k s = none ↔
      ∀ index op, ops[index]? = some op → op.key = k → s < q + index := by
  simp only [lastWrite, List.findSome?_eq_none_iff, List.mem_reverse, List.mem_mapIdx]
  constructor
  · intro unseen index op stands sameKey
    obtain ⟨inside, rfl⟩ := List.getElem?_eq_some_iff.mp stands
    have missed := unseen (q + index, ops[index]) ⟨index, inside, rfl⟩
    simp only [sameKey, true_and, ite_eq_right_iff, reduceCtorEq, imp_false] at missed
    omega
  · rintro later _ ⟨index, inside, rfl⟩
    have above := later index ops[index] (List.getElem?_eq_getElem inside)
    simp only [ite_eq_right_iff, reduceCtorEq, imp_false, not_and]
    intro sameKey
    have := above sameKey
    omega

/-- A read reports something found exactly if there is a write to report. -/
theorem ownRead_eq_unfound_iff (last : Option Op) (value : Bytes) (status : Status) :
    ownRead last value status = ⟨false, value, status⟩ ↔ last = none := by
  rcases last with _ | ⟨key, written⟩ | key <;> simp [ownRead]

/-- Inserting any batch with a header into a new memtable succeeds, and afterwards
no read finds anything. -/
theorem get_after_insertInto {batch : WriteBatch} (large : kHeader ≤ batch.rep.length)
    {heights : Nat → Nat} (bounds : ∀ index, 1 ≤ heights index ∧ heights index ≤ kMaxHeight) :
    ∃ mem, (insertInto batch (MemTable.new bytewiseComparator) heights).2 = some mem ∧
      ∀ key value status, mem.get key value status = some ⟨false, value, status⟩ := by
  obtain ⟨records, rest, stream, stuck⟩ := exists_stuck_stream (batch.rep.drop kHeader)
  obtain ⟨mem, added, shipped, holds⟩ :=
    MemTable.addAll_new_holds MemTable.keyCompare_bytewise_weakOrder
      (insertionCalls heights (WriteBatchInternal.sequence batch) 0 records)
      (heights_insertionCalls bounds _ _ _)
  refine ⟨mem, ?_, MemTable.get_bytewise _ shipped holds⟩
  rw [insertInto_stream large stream stuck, added]

/-- A batch applied to a new memtable in the shipped configuration can be read back
at a key and a snapshot only where there is nothing to read: `Slice::compare` does
not return zero on equal slices, so `Get` rejects the entry it has found. -/
theorem get_reads_last_write_iff (ops : List Op) (q : Nat) (k : Bytes) (s : Nat) (value : Bytes)
    (status : Status) (heights : Nat → Nat)
    (bounds : ∀ index, 1 ≤ heights index ∧ heights index ≤ kMaxHeight) :
    ∃ mem, (insertInto (setSequence (WriteBatch.ofOps ops) q)
        (MemTable.new bytewiseComparator) heights).2 = some mem ∧
      (mem.get (LookupKey.new k s) value status =
          some (ownRead (lastWrite ops q k s) value status) ↔
        ∀ index op, ops[index]? = some op → op.key = k → s < q + index) := by
  have large : kHeader ≤ (setSequence (WriteBatch.ofOps ops) q).rep.length := by
    have header := WriteBatch.length_ofOps ops
    simp only [kHeader] at header ⊢
    simp only [setSequence, List.length_append, length_encodeFixed64, List.length_drop]
    omega
  obtain ⟨mem, inserted, unfound⟩ := get_after_insertInto large bounds
  refine ⟨mem, inserted, ?_⟩
  rw [unfound, Option.some.injEq, eq_comm, ownRead_eq_unfound_iff, lastWrite_eq_none_iff]

/-- A key that was not written reads as absent. -/
theorem get_reads_last_write_iff_other_key :
    ∃ mem, (insertInto (setSequence (WriteBatch.ofOps [.put [97] [98]]) 1)
        (MemTable.new bytewiseComparator) fun _ => 1).2 = some mem ∧
      mem.get (LookupKey.new [99] 1) [] .ok = some ⟨false, [], .ok⟩ := by
  obtain ⟨mem, inserted, reads⟩ := get_reads_last_write_iff [.put [97] [98]] 1 [99] 1 [] .ok
    (fun _ => 1) (fun _ => by decide)
  refine ⟨mem, inserted, reads.mpr ?_⟩
  intro index op stands sameKey
  obtain rfl : op = .put [97] [98] := by simpa using List.mem_of_getElem? stands
  exact absurd sameKey (by decide)

/-- One written key, read at its own sequence number: `Get` returns false and leaves
the value alone, where the value `[98]` was written. -/
theorem get_misses_own_write :
    ∃ mem, (insertInto (setSequence (WriteBatch.ofOps [.put [97] [98]]) 1)
        (MemTable.new bytewiseComparator) fun _ => 1).2 = some mem ∧
      mem.get (LookupKey.new [97] 1) [] .ok = some ⟨false, [], .ok⟩ ∧
      ownRead (lastWrite [.put [97] [98]] 1 [97] 1) [] .ok = ⟨true, [98], .ok⟩ ∧
      mem.get (LookupKey.new [97] 1) [] .ok ≠
        some (ownRead (lastWrite [.put [97] [98]] 1 [97] 1) [] .ok) := by
  obtain ⟨mem, inserted, unfound⟩ :=
    @get_after_insertInto (setSequence (WriteBatch.ofOps [.put [97] [98]]) 1) (by decide)
      (fun _ => 1) (fun _ => by decide)
  refine ⟨mem, inserted, unfound _ _ _, by decide, ?_⟩
  rw [unfound]
  decide

/-! ### Applying several batches -/

/-- One batch of a program, the sequence number it is given and the heights drawn
while it is inserted. -/
structure Application where
  batch : Nat
  base : Nat
  heights : Nat → Nat

namespace Application

/-- `SetSequence`, then `InsertInto`. -/
def apply (batches : Nat → WriteBatch) (app : Application) (mem : MemTable) : Option MemTable :=
  (insertInto (setSequence (batches app.batch) app.base) mem app.heights).2

/-- A list of batches applied to one memtable. -/
def applyAll (batches : Nat → WriteBatch) (apps : List Application) (mem : MemTable) :
    Option MemTable :=
  apps.foldlM (fun mem app => app.apply batches mem) mem

/-- The versions an application adds. -/
def calls (lists : Nat → List Op) (app : Application) : List AddCall :=
  (lists app.batch).mapIdx fun index op => op.toCall (app.base + index)

variable {batches : Nat → WriteBatch} {lists : Nat → List Op}

/-- An application adds the operations of its batch at consecutive sequence numbers. -/
theorem apply_eq {app : Application} (encodes : Encodes (batches app.batch) (lists app.batch))
    (mem : MemTable) :
    app.apply batches mem =
      mem.addAll (insertionCalls app.heights (truncU64 app.base) 0 (lists app.batch)) := by
  obtain ⟨numbered, sequenced⟩ := encodes.setSequence app.base
  have stream := recordStream_encode numbered.fits
  rw [← numbered.drop_header] at stream
  rw [apply, insertInto_stream numbered.length_rep stream stuck_nil, sequenced]

/-- The additions of a list of applications, one after the other. -/
theorem applyAll_eq (encodes : ∀ b, Encodes (batches b) (lists b)) (apps : List Application)
    (mem : MemTable) :
    applyAll batches apps mem = mem.addAll (apps.flatMap fun app =>
      insertionCalls app.heights (truncU64 app.base) 0 (lists app.batch)) := by
  induction apps generalizing mem with
  | nil => rfl
  | cons app apps inductionHypothesis =>
    rw [applyAll, List.foldlM_cons, List.flatMap_cons, MemTable.addAll, List.foldlM_append,
      apply_eq (encodes app.batch)]
    exact congrArg _ (funext inductionHypothesis)

end Application

/-- Versions in the order of a scan: by user key, and newest first for one key. -/
def AddCall.ScanOrder (a b : AddCall) : Prop := a.key < b.key ∨ a.key = b.key ∧ b.seq < a.seq

/-- The user-key order of additions, which is all that the shipped comparison sees. -/
def AddCall.KeyLt (a b : AddCall) : Prop := a.key < b.key

instance : DecidableRel AddCall.KeyLt := fun a b => inferInstanceAs (Decidable (a.key < b.key))

namespace MemTable

/-- The additions are ordered by their keys. -/
theorem weakOrder_keyLt : WeakOrder AddCall.KeyLt := weakOrder_bytes.comap AddCall.key

/-- A scan goes by rising keys. -/
theorem before_of_scanOrder {a b : AddCall} (ordered : a.ScanOrder b) :
    WeakOrder.Before AddCall.KeyLt a b := by
  rcases ordered with below | ⟨same, -⟩
  · exact weakOrder_keyLt.asymm below
  · rw [WeakOrder.Before, AddCall.KeyLt, same]
    exact weakOrder_bytes.irrefl _

/-- A version newer than all present ones goes in front of the versions of its key. -/
theorem scanOrder_orderedInsert {sorted : List AddCall} {call : AddCall}
    (ordered : sorted.Pairwise AddCall.ScanOrder) (newest : ∀ old ∈ sorted, old.seq < call.seq) :
    (sorted.orderedInsert (WeakOrder.Before AddCall.KeyLt) call).Pairwise AddCall.ScanOrder := by
  have byKey : (sorted.map id).Pairwise (WeakOrder.Before AddCall.KeyLt) := by
    rw [List.map_id]
    exact ordered.imp before_of_scanOrder
  rw [WeakOrder.orderedInsert_eq]
  have split := ordered
  rw [← @List.takeWhile_append_dropWhile _ (fun old => AddCall.KeyLt old call) sorted] at split
  obtain ⟨front, back, across⟩ := List.pairwise_append.mp split
  refine List.pairwise_append.mpr ⟨front, List.pairwise_cons.mpr ⟨?_, back⟩, ?_⟩
  · intro old member
    have notBelow := weakOrder_keyLt.not_lt_of_mem_dropWhile id byKey call member
    have older := newest old (List.dropWhile_subset _ member)
    by_cases above : call.key < old.key
    · exact Or.inl above
    · exact Or.inr ⟨List.le_antisymm (List.not_lt.mp notBelow) (List.not_lt.mp above), older⟩
  · intro old member other otherMember
    rcases List.mem_cons.mp otherMember with rfl | later
    · have below := List.mem_takeWhile_imp member
      exact Or.inl (of_decide_eq_true below)
    · exact across old member other later

/-- Versions added in the order of their sequence numbers stand in scan order. -/
theorem insertEntries_ordered {calls : List AddCall} (fits : ∀ call ∈ calls, call.Fits)
    (increasing : calls.Pairwise fun a b => a.seq < b.seq) :
    ∃ sorted : List AddCall,
      insertEntries (keyCompare bytewiseComparator) [] calls = sorted.map AddCall.entry ∧
      sorted.Perm calls ∧ sorted.Pairwise AddCall.ScanOrder := by
  -- induction from the back: the last call is the newest of all
  induction calls using List.reverseRecOn with
  | nil => exact ⟨[], rfl, List.Perm.refl _, List.Pairwise.nil⟩
  | append_singleton calls call inductionHypothesis =>
    obtain ⟨earlier, -, last⟩ := List.pairwise_append.mp increasing
    obtain ⟨sorted, same, perm, ordered⟩ := inductionHypothesis
      (fun old member => fits old (List.mem_append_left _ member)) earlier
    have callFits := fits call (by simp)
    have sortedFits : ∀ old ∈ sorted, old.Fits := fun old member =>
      fits old (List.mem_append_left _ (perm.mem_iff.mp member))
    refine ⟨sorted.orderedInsert (WeakOrder.Before AddCall.KeyLt) call, ?_, ?_, ?_⟩
    · rw [insertEntries, List.foldl_append, List.foldl_cons, List.foldl_nil]
      change (insertEntries (keyCompare bytewiseComparator) [] calls).orderedInsert _ _ = _
      rw [same]
      refine (List.map_orderedInsert _ _ AddCall.entry sorted call ?_ ?_).symm
      · intro old member
        exact not_congr (keyCompare_bytewise_entry_iff callFits (sortedFits old member)).symm
      · intro old member
        exact not_congr (keyCompare_bytewise_entry_iff (sortedFits old member) callFits).symm
    · exact ((List.perm_orderedInsert _ _ _).trans (perm.cons call)).trans
        (List.perm_append_singleton _ _).symm
    · exact scanOrder_orderedInsert ordered fun old member =>
        last old (perm.mem_iff.mp member) call (List.mem_singleton_self _)

/-- A forward scan decodes the entries one by one. -/
theorem forwardScan_entries {compare : Bytes → Bytes → Int} {mem : MemTable}
    {sorted : List AddCall} (fits : ∀ call ∈ sorted, call.Fits)
    (holds : SkipList.Holds compare mem.table (sorted.map AddCall.entry)) :
    mem.forwardScan = some (sorted.map fun call => (call.internalKey, call.value)) := by
  rw [forwardScan, SkipList.scan_holds holds, Option.map_some, List.map_map]
  congr 1
  refine List.map_congr_left fun call member => ?_
  simp [fits call member]

end MemTable

@[simp] theorem Op.seq_toCall (op : Op) (seq : Nat) : (op.toCall seq).seq = seq := by
  cases op <;> rfl

namespace Application

variable {lists : Nat → List Op} {app : Application}

/-- Below the largest sequence number the numbers do not wrap. -/
theorem map_fst_insertionCalls
    (bounded : app.base + (lists app.batch).length ≤ kMaxSequenceNumber + 1) :
    (insertionCalls app.heights (truncU64 app.base) 0 (lists app.batch)).map Prod.fst =
      app.calls lists := by
  refine List.ext_getElem (by simp [insertionCalls, calls]) ?_
  intro index inside _
  have short : index < (lists app.batch).length := by simpa [insertionCalls] using inside
  have kept : truncU64 (truncU64 app.base + index) = app.base + index := by
    simp only [truncU64, kMaxSequenceNumber] at bounded ⊢
    omega
  simp [insertionCalls, calls, kept]

/-- The sequence numbers of an application are those of its range. -/
theorem seq_of_mem_calls {call : AddCall} (member : call ∈ app.calls lists) :
    app.base ≤ call.seq ∧ call.seq < app.base + (lists app.batch).length ∧
      ∃ op ∈ lists app.batch, call = op.toCall call.seq := by
  obtain ⟨index, inside, rfl⟩ := List.mem_mapIdx.mp member
  simp only [Op.seq_toCall]
  exact ⟨by omega, by omega, _, List.getElem_mem inside, rfl⟩

/-- The additions of a batch fit if its keys and sequence numbers do. -/
theorem fits_of_mem_calls {batch : WriteBatch} (encodes : Encodes batch (lists app.batch))
    (sizes : ∀ op ∈ lists app.batch, op.key.length + 8 < 2 ^ 32)
    (bounded : app.base + (lists app.batch).length ≤ kMaxSequenceNumber + 1) {call : AddCall}
    (member : call ∈ app.calls lists) : call.Fits := by
  obtain ⟨-, below, op, recorded, shape⟩ := seq_of_mem_calls member
  have size := sizes op recorded
  have opFits := encodes.fits op recorded
  refine ⟨by omega, ?_, ?_⟩ <;> rw [shape]
  · cases op <;> exact size
  · cases op with
    | put key value => exact opFits.2
    | delete key => exact Nat.two_pow_pos 32

/-- The sequence numbers of a batch rise. -/
theorem increasing_calls (app : Application) :
    (app.calls lists).Pairwise fun a b => a.seq < b.seq := by
  refine List.pairwise_iff_getElem.mpr fun i j _ _ before => ?_
  simpa [calls] using before

/-- Batches applied in the order of their sequence ranges: the forward scan yields
every operation of every batch once, by ascending user key and, for one key, newest
first. -/
theorem forwardScan_ordered (program : List BatchCall) (apps : List Application)
    (fits : ∀ call ∈ program, call.Fits)
    (sizes : ∀ app ∈ apps, ∀ op ∈ BatchCall.logicalRun program app.batch,
      op.key.length + 8 < 2 ^ 32)
    (ranges : apps.Pairwise fun a b =>
      a.base + (BatchCall.logicalRun program a.batch).length ≤ b.base)
    (bounded : ∀ app ∈ apps,
      app.base + (BatchCall.logicalRun program app.batch).length ≤ kMaxSequenceNumber + 1)
    (heights : ∀ app ∈ apps, ∀ index, 1 ≤ app.heights index ∧ app.heights index ≤ kMaxHeight) :
    ∃ (mem : MemTable) (sorted : List AddCall) (contents : List (Bytes × Bytes)),
      applyAll (BatchCall.run program) apps (MemTable.new bytewiseComparator) = some mem ∧
      sorted.Perm (apps.flatMap (calls (BatchCall.logicalRun program))) ∧
      sorted.Pairwise AddCall.ScanOrder ∧
      mem.forwardScan = some contents ∧
      contents.map (fun entry => (parseInternalKey entry.1, entry.2)) =
        sorted.map fun call => (some ⟨call.key, call.seq, call.type⟩, call.value) := by
  have encodes := BatchCall.run_encodes fits
  have allFits : ∀ call ∈ apps.flatMap (calls (BatchCall.logicalRun program)), call.Fits := by
    intro call member
    obtain ⟨app, appMember, callMember⟩ := List.mem_flatMap.mp member
    exact fits_of_mem_calls (encodes app.batch) (sizes app appMember) (bounded app appMember)
      callMember
  have increasing : (apps.flatMap (calls (BatchCall.logicalRun program))).Pairwise
      fun a b => a.seq < b.seq := by
    refine List.pairwise_flatMap.mpr ⟨fun app _ => increasing_calls app, ranges.imp ?_⟩
    intro first second apart a aMember b bMember
    have := (seq_of_mem_calls aMember).2.1
    have := (seq_of_mem_calls bMember).1
    omega
  obtain ⟨mem, added, shipped, holds⟩ :=
    MemTable.addAll_new_holds MemTable.keyCompare_bytewise_weakOrder
      (apps.flatMap fun app => insertionCalls app.heights (truncU64 app.base) 0
        (BatchCall.logicalRun program app.batch)) (by
      intro call member
      obtain ⟨app, appMember, callMember⟩ := List.mem_flatMap.mp member
      exact heights_insertionCalls (heights app appMember) _ _ _ call callMember)
  have versions : (apps.flatMap fun app => insertionCalls app.heights (truncU64 app.base) 0
      (BatchCall.logicalRun program app.batch)).map Prod.fst =
        apps.flatMap (calls (BatchCall.logicalRun program)) := by
    rw [List.map_flatMap]
    exact List.flatMap_congr fun app member => map_fst_insertionCalls (bounded app member)
  rw [versions] at holds
  obtain ⟨sorted, same, perm, ordered⟩ := MemTable.insertEntries_ordered allFits increasing
  rw [same] at holds
  have sortedFits : ∀ call ∈ sorted, call.Fits := fun call member =>
    allFits call (perm.mem_iff.mp member)
  refine ⟨mem, sorted, _, ?_, perm, ordered, MemTable.forwardScan_entries sortedFits holds, ?_⟩
  · rw [applyAll_eq encodes, added]
  · rw [List.map_map]
    refine List.map_congr_left fun call member => ?_
    simp [AddCall.parseInternalKey_internalKey (sortedFits call member)]

/-- Two batches that write one key: the newer version is scanned first. -/
theorem forwardScan_ordered_two_batches :
    ∃ (mem : MemTable) (sorted : List AddCall) (contents : List (Bytes × Bytes)),
      applyAll (BatchCall.run [.put 0 [97] [98], .delete 1 [97]])
        [⟨0, 1, fun _ => 1⟩, ⟨1, 2, fun _ => 2⟩] (MemTable.new bytewiseComparator) = some mem ∧
      sorted.Perm [⟨1, .kTypeValue, [97], [98]⟩, ⟨2, .kTypeDeletion, [97], []⟩] ∧
      sorted.Pairwise AddCall.ScanOrder ∧
      mem.forwardScan = some contents ∧
      contents.map (fun entry => (parseInternalKey entry.1, entry.2)) =
        sorted.map fun call => (some ⟨call.key, call.seq, call.type⟩, call.value) :=
  forwardScan_ordered [.put 0 [97] [98], .delete 1 [97]]
    [⟨0, 1, fun _ => 1⟩, ⟨1, 2, fun _ => 2⟩]
    (by simp [BatchCall.Fits, Op.Fits]) (by decide) (by decide) (by decide)
    (by
      intro app member index
      simp only [List.mem_cons, List.not_mem_nil, or_false] at member
      rcases member with rfl | rfl <;> simp [kMaxHeight])

end Application

end LevelDbXy
