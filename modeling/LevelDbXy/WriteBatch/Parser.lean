import LevelDbXy.WriteBatch.Batch
import LevelDbXy.Library.RecordStream

/-!
# What the batch parser accepts

`CompleteRecord` states the record format on its own terms: a tag byte and the
length-prefixed strings that belong to it, lengths as `GetVarint32` accepts them.
`Iterate` hands exactly the longest stream of complete records to its handler and
returns OK only if nothing is left and the counter agrees.
-/

namespace LevelDbXy

open Coding WriteBatchInternal

/-- `input` starts with a length the varint decoder accepts and that many bytes. -/
def LengthPrefixed (input str rest : Bytes) : Prop :=
  ∃ body, getVarint32 input = some (str.length, body) ∧ body = str ++ rest

/-- One complete record in front of the rest of the input. -/
inductive CompleteRecord : Bytes → Op → Bytes → Prop where
  | put {input key afterKey value rest} (keyRead : LengthPrefixed input key afterKey)
      (valueRead : LengthPrefixed afterKey value rest) :
      CompleteRecord (1 :: input) (.put key value) rest
  | delete {input key rest} (keyRead : LengthPrefixed input key rest) :
      CompleteRecord (0 :: input) (.delete key) rest

/-- `GetLengthPrefixedSlice` reads exactly what is behind its size. -/
theorem getLengthPrefixedSlice_eq_some_iff {input str rest : Bytes} :
    getLengthPrefixedSlice input = some (str, rest) ↔ LengthPrefixed input str rest := by
  unfold getLengthPrefixedSlice LengthPrefixed
  cases varint : getVarint32 input with
  | none => simp
  | some pair =>
    obtain ⟨len, body⟩ := pair
    simp only [Option.some.injEq, Prod.mk.injEq]
    constructor
    · intro read
      split_ifs at read with enough
      cases read
      refine ⟨body, ⟨?_, rfl⟩, (List.take_append_drop len body).symm⟩
      rw [List.length_take, Nat.min_eq_left enough]
    · rintro ⟨_, ⟨rfl, rfl⟩, rfl⟩
      simp

/-- The parser's `switch` accepts exactly the complete records. -/
theorem readRecord_eq_ok_iff {tag : UInt8} {input rest : Bytes} {op : Op} :
    WriteBatch.readRecord tag input = .ok (op, rest) ↔ CompleteRecord (tag :: input) op rest := by
  constructor
  · intro read
    unfold WriteBatch.readRecord at read
    split_ifs at read with isPut isDelete
    · obtain rfl : tag = 1 := UInt8.toNat_inj.mp isPut
      split at read
      · cases read
      · next keyRead =>
        split at read
        · cases read
        · next valueRead =>
          cases read
          exact .put (getLengthPrefixedSlice_eq_some_iff.mp keyRead)
            (getLengthPrefixedSlice_eq_some_iff.mp valueRead)
    · obtain rfl : tag = 0 := UInt8.toNat_inj.mp isDelete
      split at read
      · cases read
      · next keyRead =>
        cases read
        exact .delete (getLengthPrefixedSlice_eq_some_iff.mp keyRead)
  · intro complete
    cases complete with
    | put keyRead valueRead =>
      rw [← getLengthPrefixedSlice_eq_some_iff] at keyRead valueRead
      simp [WriteBatch.readRecord, ValueType.toNat, keyRead, valueRead]
    | delete keyRead =>
      rw [← getLengthPrefixedSlice_eq_some_iff] at keyRead
      simp [WriteBatch.readRecord, ValueType.toNat, keyRead]

/-- An input begins with one record at most. -/
theorem completeRecord_deterministic : RecordStream.Deterministic CompleteRecord := by
  intro input op rest op' rest' first second
  cases input with
  | nil => cases first
  | cons tag input =>
    rw [← readRecord_eq_ok_iff] at first second
    rw [first] at second
    simpa using second

/-- An input that the parser rejects does not start with a complete record. -/
theorem stuck_of_readRecord_error {tag : UInt8} {input : Bytes} {status : Status}
    (rejected : WriteBatch.readRecord tag input = .error status) :
    RecordStream.Stuck CompleteRecord (tag :: input) := by
  intro op rest complete
  rw [← readRecord_eq_ok_iff, rejected] at complete
  cases complete

/-- An empty input has none. -/
theorem stuck_nil : RecordStream.Stuck CompleteRecord [] := by
  intro op rest complete
  cases complete

/-- Every rejection is a corruption. -/
theorem isCorruption_of_readRecord_error {tag : UInt8} {input : Bytes} {status : Status}
    (rejected : WriteBatch.readRecord tag input = .error status) : status.isCorruption = true := by
  unfold WriteBatch.readRecord at rejected
  split_ifs at rejected
  · split at rejected
    · cases rejected
      rfl
    · split at rejected
      · cases rejected
        rfl
      · cases rejected
  · split at rejected
    · cases rejected
      rfl
    · cases rejected
  · cases rejected
    rfl

/-! ### The loop -/

section Loop

variable {σ : Type} (handler : Handler σ) (count : Int)

/-- At the end the loop checks the count. -/
theorem iterateLoop_nil (found : Int) (state : σ) :
    WriteBatch.iterateLoop handler count [] found state =
      (if found ≠ count then .corruption "WriteBatch has wrong count" else .ok, state) := by
  rw [WriteBatch.iterateLoop]

/-- A record is handed to the handler, and the loop goes on behind it. -/
theorem iterateLoop_ok {tag : UInt8} {input rest : Bytes} {op : Op} (found : Int) (state : σ)
    (read : WriteBatch.readRecord tag input = .ok (op, rest)) :
    WriteBatch.iterateLoop handler count (tag :: input) found state =
      WriteBatch.iterateLoop handler count rest (truncI32 (found + 1))
        (handler.apply state op) := by
  rw [WriteBatch.iterateLoop]
  split
  · next rejected =>
    rw [read] at rejected
    cases rejected
  · next accepted =>
    rw [read] at accepted
    cases accepted
    rfl

/-- A malformed record ends the loop. -/
theorem iterateLoop_error {tag : UInt8} {input : Bytes} {status : Status} (found : Int) (state : σ)
    (rejected : WriteBatch.readRecord tag input = .error status) :
    WriteBatch.iterateLoop handler count (tag :: input) found state = (status, state) := by
  rw [WriteBatch.iterateLoop]
  split
  · next again =>
    rw [rejected] at again
    cases again
    rfl
  · next accepted =>
    rw [rejected] at accepted
    cases accepted

/-- Only the last conversion matters. -/
theorem truncI32_truncI32_add (value : Int) (n : Int) :
    truncI32 (truncI32 value + n) = truncI32 (value + n) :=
  Int.bmod_add_bmod

/-- The loop hands a stream of complete records on, one by one. -/
theorem iterateLoop_stream {input rest : Bytes} {records : List Op}
    (stream : RecordStream CompleteRecord input records rest) (found : Int) (state : σ) :
    WriteBatch.iterateLoop handler count input (truncI32 found) state =
      WriteBatch.iterateLoop handler count rest (truncI32 (found + records.length))
        (records.foldl handler.apply state) := by
  induction stream generalizing found state with
  | done => simp
  | @item input op middle records rest first others inductionHypothesis =>
    cases input with
    | nil => cases first
    | cons tag input =>
      rw [iterateLoop_ok handler count _ _ (readRecord_eq_ok_iff.mpr first),
        truncI32_truncI32_add, inductionHypothesis, List.foldl_cons, List.length_cons]
      congr 2
      omega

/-- Where no record starts the loop stops, with OK only at the end of the input. -/
theorem iterateLoop_stuck {rest : Bytes} (stuck : RecordStream.Stuck CompleteRecord rest)
    (found : Int) (state : σ) :
    (WriteBatch.iterateLoop handler count rest found state).2 = state ∧
      ((WriteBatch.iterateLoop handler count rest found state).1 = .ok ↔
        rest = [] ∧ found = count) ∧
      ((WriteBatch.iterateLoop handler count rest found state).1 ≠ .ok →
        (WriteBatch.iterateLoop handler count rest found state).1.isCorruption = true) := by
  cases rest with
  | nil =>
    rw [iterateLoop_nil]
    by_cases equal : found = count <;> simp [equal, Status.isCorruption]
  | cons tag rest =>
    cases read : WriteBatch.readRecord tag rest with
    | ok pair => exact absurd (readRecord_eq_ok_iff.mp read) (stuck pair.1 pair.2)
    | error status =>
      have corruption := isCorruption_of_readRecord_error read
      rw [iterateLoop_error handler count found state read]
      refine ⟨rfl, ⟨fun (ok : status = .ok) => ?_, fun impossible => by simp at impossible⟩,
        fun _ => corruption⟩
      subst ok
      cases corruption

end Loop

/-- Every input has a stream of records that cannot be continued. -/
theorem exists_stuck_stream (input : Bytes) :
    ∃ records rest, RecordStream CompleteRecord input records rest ∧
      RecordStream.Stuck CompleteRecord rest := by
  induction size : input.length using Nat.strongRecOn generalizing input with
  | ind size inductionHypothesis =>
    cases input with
    | nil => exact ⟨[], [], .done, stuck_nil⟩
    | cons tag input =>
      cases read : WriteBatch.readRecord tag input with
      | error status => exact ⟨[], tag :: input, .done, stuck_of_readRecord_error read⟩
      | ok pair =>
        obtain ⟨op, middle⟩ := pair
        have shorter := WriteBatch.readRecord_length read
        obtain ⟨records, rest, stream, stuck⟩ := inductionHypothesis middle.length
          (by rw [← size, List.length_cons]; omega) middle rfl
        exact ⟨op :: records, rest, .item (readRecord_eq_ok_iff.mp read) stream, stuck⟩

/-! ### The memtable handler -/

/-- The calls that inserting these operations from a sequence number on makes. -/
def insertionCalls (heights : Nat → Nat) (seq drawn : Nat) (ops : List Op) :
    List (AddCall × Nat) :=
  ops.mapIdx fun index op => (op.toCall (truncU64 (seq + index)), heights (drawn + index))

/-- The inserter adds the operations in order at consecutive sequence numbers. -/
theorem insertOps_mem (heights : Nat → Nat) (ops : List Op) (seq drawn : Nat)
    (mem : Option MemTable) :
    (ops.foldl (MemTableInserter.handler heights).apply ⟨truncU64 seq, mem, drawn⟩).mem =
      mem.bind fun mem => mem.addAll (insertionCalls heights seq drawn ops) := by
  induction ops generalizing seq drawn mem with
  | nil => cases mem <;> rfl
  | cons op ops inductionHypothesis =>
    have step : (MemTableInserter.handler heights).apply ⟨truncU64 seq, mem, drawn⟩ op =
        ⟨truncU64 (seq + 1), mem.bind fun mem => mem.add (op.toCall (truncU64 seq)) (heights drawn),
          drawn + 1⟩ := by
      cases op <;>
        simp [MemTableInserter.handler, Handler.apply, MemTableInserter.insertOp, truncU64]
    have shifted : insertionCalls heights seq drawn (op :: ops) =
        (op.toCall (truncU64 seq), heights drawn) ::
          insertionCalls heights (seq + 1) (drawn + 1) ops := by
      simp [insertionCalls, List.mapIdx_cons, Nat.add_assoc, Nat.add_comm 1]
    rw [List.foldl_cons, step, inductionHypothesis, shifted]
    cases mem with
    | none => rfl
    | some mem => simp [MemTable.addAll, List.foldlM_cons]

/-! ### Whole batches -/

/-- An unsigned conversion before it does not matter. -/
theorem truncI32_truncU32 (n : Nat) : truncI32 (truncU32 n : Nat) = truncI32 n := by
  rw [truncU32, Int.natCast_emod]
  exact Int.emod_bmod _ _

/-- A small number is kept. -/
theorem truncI32_of_lt {n : Nat} (small : n < 2 ^ 31) : truncI32 n = n :=
  Int.bmod_eq_of_le (by omega) (by omega)

/-- Iterating a batch that starts with a stream of records reaches its end. -/
theorem iterate_stream {σ : Type} {batch : WriteBatch} {records : List Op} {rest : Bytes}
    (large : kHeader ≤ batch.rep.length)
    (stream : RecordStream CompleteRecord (batch.rep.drop kHeader) records rest)
    (handler : Handler σ) (state : σ) :
    batch.iterate handler state =
      WriteBatch.iterateLoop handler (count batch) rest (truncI32 records.length)
        (records.foldl handler.apply state) := by
  have streamed := iterateLoop_stream handler (count batch) stream 0 state
  have start : truncI32 0 = 0 := by decide
  rw [start, Int.zero_add] at streamed
  rw [WriteBatch.iterate, if_neg (by omega), streamed]

/-- Inserting a batch adds its records in order. -/
theorem insertInto_stream {batch : WriteBatch} {records : List Op} {rest : Bytes}
    (large : kHeader ≤ batch.rep.length)
    (stream : RecordStream CompleteRecord (batch.rep.drop kHeader) records rest)
    (stuck : RecordStream.Stuck CompleteRecord rest) (mem : MemTable) (heights : Nat → Nat) :
    (insertInto batch mem heights).2 =
      mem.addAll (insertionCalls heights (WriteBatchInternal.sequence batch) 0 records) := by
  have kept : truncU64 (WriteBatchInternal.sequence batch) = WriteBatchInternal.sequence batch :=
    Nat.mod_eq_of_lt (decodeFixed64_lt _)
  have inserted := insertOps_mem heights records (WriteBatchInternal.sequence batch) 0 (some mem)
  rw [kept] at inserted
  simp only [insertInto, iterate_stream large stream]
  rw [(iterateLoop_stuck _ _ stuck _ _).1, inserted]
  rfl

/-- `Iterate` hands the longest stream of complete records to its handler, in order.
It returns OK exactly if the stream reaches the end of the batch and its length,
counted in an `int32_t`, equals the stored count, and a corruption otherwise.
`InsertInto` adds the records at consecutive sequence numbers in every case. -/
theorem iterate_hands_on_longest_stream (c : Bytes) (large : kHeader ≤ c.length) :
    ∃ records rest, RecordStream.Longest CompleteRecord (c.drop kHeader) records rest ∧
      (∀ {σ : Type} (handler : Handler σ) (state : σ),
        ((setContents c).iterate handler state).2 = records.foldl handler.apply state ∧
        (((setContents c).iterate handler state).1 = .ok ↔
          rest = [] ∧ truncI32 records.length = truncI32 (decodeFixed32 (c.drop 8))) ∧
        (((setContents c).iterate handler state).1 ≠ .ok →
          ((setContents c).iterate handler state).1.isCorruption = true)) ∧
      (∀ (mem : MemTable) (heights : Nat → Nat),
        (insertInto (setContents c) mem heights).2 =
          mem.addAll
            (insertionCalls heights (WriteBatchInternal.sequence (setContents c)) 0 records)) := by
  obtain ⟨records, rest, stream, stuck⟩ := exists_stuck_stream (c.drop kHeader)
  have ran := fun {σ : Type} (handler : Handler σ) (state : σ) =>
    @iterate_stream σ (setContents c) records rest large stream handler state
  refine ⟨records, rest, RecordStream.longest_of_stuck completeRecord_deterministic stream stuck,
    ?_, ?_⟩
  · intro σ handler state
    rw [ran handler state]
    exact iterateLoop_stuck handler _ stuck _ _
  · intro mem heights
    exact @insertInto_stream (setContents c) records rest large stream stuck mem heights

/-- A deletion of the empty key followed by an unknown tag: the deletion is handed
on and then the result is a corruption. -/
theorem iterate_hands_on_longest_stream_unknown_tag :
    ∃ records rest, RecordStream.Longest CompleteRecord
        (([0, 0, 0, 0, 0, 0, 0, 0, 1, 0, 0, 0, 0, 0, 7] : Bytes).drop kHeader) records rest ∧
      ((setContents [0, 0, 0, 0, 0, 0, 0, 0, 1, 0, 0, 0, 0, 0, 7]).iterate
          (⟨fun ops key value => ops ++ [.put key value], fun ops key => ops ++ [.delete key]⟩ :
            Handler (List Op)) []).2 = records.foldl (fun ops op => ops ++ [op]) [] := by
  obtain ⟨records, rest, longest, handed, -⟩ := iterate_hands_on_longest_stream
    [0, 0, 0, 0, 0, 0, 0, 0, 1, 0, 0, 0, 0, 0, 7] (by decide)
  refine ⟨records, rest, longest, ?_⟩
  rw [(handed _ _).1]
  refine congrArg (fun f => records.foldl f []) (funext fun ops => funext fun op => ?_)
  cases op <;> rfl

/-- A batch of `n` deletions of the empty key whose count field holds `n`. -/
def manyDeletions (n : Nat) : Bytes :=
  List.replicate 8 0 ++ (encodeFixed32 n ++ (List.replicate n [0, 0]).flatten)

/-- Deletions of the empty key, of two bytes each. -/
theorem recordStream_deletions (n : Nat) :
    RecordStream CompleteRecord (List.replicate n [0, 0]).flatten
      (List.replicate n (.delete [])) [] := by
  induction n with
  | zero => exact .done
  | succ n inductionHypothesis =>
    rw [List.replicate_succ, List.replicate_succ, List.flatten_cons]
    refine .item (.delete ⟨(List.replicate n [0, 0]).flatten, ?_, rfl⟩) inductionHypothesis
    simp [getVarint32, getVarint32Ptr, getVarint32PtrLoop, truncU32]

/-- The counter wraps with the count field, so every such batch is accepted. -/
theorem iterate_manyDeletions (n : Nat) :
    RecordStream.Longest CompleteRecord ((manyDeletions n).drop kHeader)
        (List.replicate n (.delete [])) [] ∧
      ((setContents (manyDeletions n)).iterate ⟨fun _ _ _ => (), fun _ _ => ()⟩ ()).1 = .ok ∧
      truncI32 (decodeFixed32 ((manyDeletions n).drop 8)) = truncI32 n := by
  have body : (manyDeletions n).drop kHeader = (List.replicate n [0, 0]).flatten := by
    have sized : (List.replicate 8 0 ++ encodeFixed32 n : Bytes).length = kHeader := rfl
    rw [manyDeletions, ← List.append_assoc, ← sized, List.drop_left]
  have field : truncI32 (decodeFixed32 ((manyDeletions n).drop 8)) = truncI32 n := by
    have dropped : (manyDeletions n).drop 8 =
        encodeFixed32 n ++ (List.replicate n [0, 0]).flatten := rfl
    rw [dropped, decodeFixed32_encodeFixed32, truncI32_truncU32]
  have large : kHeader ≤ (manyDeletions n).length := by
    simp [manyDeletions, kHeader]
  have longest := RecordStream.longest_of_stuck completeRecord_deterministic
    (recordStream_deletions n) stuck_nil
  rw [← body] at longest
  refine ⟨longest, ?_, field⟩
  rw [@iterate_stream _ (setContents (manyDeletions n)) _ _ large longest.stream, iterateLoop_nil,
    List.length_replicate, if_neg]
  intro different
  exact different field.symm

/-- A batch of `2 ^ 31` deletions whose count field is `-2 ^ 31` as an `int32_t`:
all records are complete and handed on, the number of records differs from the
count, and yet the result is OK. -/
theorem iterate_counts_modulo :
    ¬ (((setContents (manyDeletions (2 ^ 31))).iterate
        ⟨fun _ _ _ => (), fun _ _ => ()⟩ ()).1 = .ok ↔
      ([] : Bytes) = [] ∧ ((List.replicate (2 ^ 31) (Op.delete [])).length : Int) =
        truncI32 (decodeFixed32 ((manyDeletions (2 ^ 31)).drop 8))) ∧
      RecordStream.Longest CompleteRecord ((manyDeletions (2 ^ 31)).drop kHeader)
        (List.replicate (2 ^ 31) (.delete [])) [] := by
  obtain ⟨longest, accepted, field⟩ := iterate_manyDeletions (2 ^ 31)
  refine ⟨fun same => ?_, longest⟩
  have equal := (same.mp accepted).2
  rw [field, List.length_replicate] at equal
  exact absurd equal (by decide)

end LevelDbXy
