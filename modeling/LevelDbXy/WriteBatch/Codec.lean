import LevelDbXy.WriteBatch.Parser
import Mathlib.Logic.Function.Basic

/-!
# The batch codec

`Encodes batch ops` says that the representation of a batch is a header whose count
is the number of operations, followed by the encodings of exactly those operations.
Every update of a batch extends the encoded list as its name says, so a program of
updates over any number of batches keeps each batch an encoding of its logical list.
-/

namespace LevelDbXy

open Coding WriteBatchInternal

namespace Op

/-- The bytes an operation appends to a batch. -/
def encode : Op → Bytes
  | .put key value => 1 :: (putLengthPrefixedSlice [] key ++ putLengthPrefixedSlice [] value)
  | .delete key => 0 :: putLengthPrefixedSlice [] key

/-- The lengths fit the 32-bit length fields. -/
def Fits : Op → Prop
  | .put key value => key.length < 2 ^ 32 ∧ value.length < 2 ^ 32
  | .delete key => key.length < 2 ^ 32

end Op

/-- A batch is the encoding of a list of operations. -/
structure Encodes (batch : WriteBatch) (ops : List Op) : Prop where
  rep : ∃ head, head.length = 8 ∧
    batch.rep = head ++ (encodeFixed32 (truncU32 ops.length) ++ ops.flatMap Op.encode)
  fits : ∀ op ∈ ops, op.Fits

/-! ### Reading an encoding -/

/-- What is put with its size can be read. -/
theorem lengthPrefixed_put {value : Bytes} (rest : Bytes) (fits : value.length < 2 ^ 32) :
    LengthPrefixed (putLengthPrefixedSlice [] value ++ rest) value rest :=
  getLengthPrefixedSlice_eq_some_iff.mp (getLengthPrefixedSlice_put rest fits)

/-- An encoded operation is a record. -/
theorem completeRecord_encode {op : Op} (rest : Bytes) (fits : op.Fits) :
    CompleteRecord (op.encode ++ rest) op rest := by
  cases op with
  | put key value =>
    rw [Op.encode, List.cons_append, List.append_assoc]
    exact .put (lengthPrefixed_put _ fits.1) (lengthPrefixed_put rest fits.2)
  | delete key => exact .delete (lengthPrefixed_put rest fits)

/-- The encodings of a list of operations are a stream of exactly those. -/
theorem recordStream_encode {ops : List Op} (fits : ∀ op ∈ ops, op.Fits) :
    RecordStream CompleteRecord (ops.flatMap Op.encode) ops [] := by
  induction ops with
  | nil => exact .done
  | cons op ops inductionHypothesis =>
    rw [List.flatMap_cons]
    exact .item (completeRecord_encode _ (fits op (List.mem_cons_self ..)))
      (inductionHypothesis fun other member => fits other (List.mem_cons_of_mem _ member))

/-- Bytes behind do not change the ones in front. -/
theorem byteAt_append {head : Bytes} (rest : Bytes) {index : Nat} (inside : index < head.length) :
    byteAt (head ++ rest) index = byteAt head index := by
  simp only [byteAt, List.getD_eq_getElem?_getD, List.getElem?_append_left inside]

/-- The sequence number only depends on the first eight bytes. -/
theorem decodeFixed64_append {head : Bytes} (rest : Bytes) (size : head.length = 8) :
    decodeFixed64 (head ++ rest) = decodeFixed64 head := by
  simp only [decodeFixed64_eq_sum]
  rw [byteAt_append rest (by omega), byteAt_append rest (by omega), byteAt_append rest (by omega),
    byteAt_append rest (by omega), byteAt_append rest (by omega), byteAt_append rest (by omega),
    byteAt_append rest (by omega), byteAt_append rest (by omega)]

/-- The conversion to 32 bits keeps the residue. -/
theorem truncI32_emod (value : Int) : truncI32 value % 2 ^ 32 = value % 2 ^ 32 :=
  Int.bmod_emod

namespace Encodes

variable {batch source : WriteBatch} {ops others : List Op}

/-- The count of a batch is the number of its operations, in 32 bits. -/
theorem count_eq (encodes : Encodes batch ops) : count batch = truncI32 ops.length := by
  obtain ⟨head, size, rep⟩ := encodes.rep
  have drop : batch.rep.drop 8 =
      encodeFixed32 (truncU32 ops.length) ++ ops.flatMap Op.encode := by
    rw [rep, ← size, List.drop_left]
  have again : truncU32 (truncU32 ops.length) = truncU32 ops.length := Nat.mod_mod _ _
  rw [count, drop, decodeFixed32_encodeFixed32, again, truncI32_truncU32]

/-- Behind the header are the operations. -/
theorem drop_header (encodes : Encodes batch ops) :
    batch.rep.drop kHeader = ops.flatMap Op.encode := by
  obtain ⟨head, size, rep⟩ := encodes.rep
  have sized : (head ++ encodeFixed32 (truncU32 ops.length)).length = kHeader := by
    simp [size, kHeader]
  rw [rep, ← List.append_assoc, ← sized, List.drop_left]

/-- A batch has its header. -/
theorem length_rep (encodes : Encodes batch ops) : kHeader ≤ batch.rep.length := by
  obtain ⟨head, size, rep⟩ := encodes.rep
  rw [rep]
  simp only [List.length_append, size, length_encodeFixed32, kHeader]
  omega

/-- Iterating an encoding hands on the encoded operations. The result is OK
because header and records agree on the number of operations. -/
theorem iterate_eq {σ : Type} (encodes : Encodes batch ops) (handler : Handler σ) (state : σ) :
    batch.iterate handler state = (.ok, ops.foldl handler.apply state) := by
  have stream := recordStream_encode encodes.fits
  rw [← encodes.drop_header] at stream
  rw [iterate_stream encodes.length_rep stream handler state, iterateLoop_nil, encodes.count_eq,
    if_neg (by simp)]

/-! ### Updates -/

/-- Patching the count leaves the sequence number and the records alone. -/
theorem rep_setCount {head records : Bytes} {field : Nat} (size : head.length = 8) (n : Int)
    (rep : batch.rep = head ++ (encodeFixed32 field ++ records)) :
    (setCount batch n).rep = head ++ (encodeFixed32 (n % 2 ^ 32).toNat ++ records) := by
  have front : batch.rep.take 8 = head := by rw [rep, ← size, List.take_left]
  have sized : (head ++ encodeFixed32 field).length = 12 := by simp [size]
  have back : batch.rep.drop 12 = records := by
    rw [rep, ← List.append_assoc, ← sized, List.drop_left]
  rw [setCount, front, back, List.append_assoc]

/-- The count field stored for a wrapped sum of counts. -/
theorem stored_count (n m : Nat) :
    (truncI32 (truncI32 n + truncI32 m) % 2 ^ 32).toNat = truncU32 (n + m) := by
  have sum : truncI32 (truncI32 n + truncI32 m) = truncI32 (n + m) := by
    simp only [truncI32, Int.bmod_add_bmod, Int.add_bmod_bmod]
  rw [sum, truncI32_emod, truncU32]
  omega

/-- A cleared batch has no operation. -/
theorem clear : Encodes WriteBatch.clear [] := by
  refine ⟨⟨List.replicate 8 0, rfl, ?_⟩, by simp⟩
  decide

/-- Adding to the count and appending encoded records extends the encoded list,
and does not touch the sequence number. -/
theorem extend (encodes : Encodes batch ops) (added : List Op) (fits : ∀ op ∈ added, op.Fits)
    {n : Int} (counted : (n % 2 ^ 32).toNat = truncU32 (ops.length + added.length)) :
    Encodes ⟨(setCount batch n).rep ++ added.flatMap Op.encode⟩ (ops ++ added) ∧
      WriteBatchInternal.sequence ⟨(setCount batch n).rep ++ added.flatMap Op.encode⟩ =
        WriteBatchInternal.sequence batch := by
  obtain ⟨head, size, rep⟩ := encodes.rep
  have patched := rep_setCount size n rep
  rw [counted] at patched
  refine ⟨⟨⟨head, size, ?_⟩, ?_⟩, ?_⟩
  · simp [patched]
  · intro op member
    rcases List.mem_append.mp member with old | new
    · exact encodes.fits op old
    · exact fits op new
  · rw [WriteBatchInternal.sequence, WriteBatchInternal.sequence, patched, rep, List.append_assoc,
      decodeFixed64_append _ size,
      decodeFixed64_append _ size]

/-- `Put` and `Delete` append their operation. -/
theorem put (encodes : Encodes batch ops) {key value : Bytes} (fits : (Op.put key value).Fits) :
    Encodes (batch.put key value) (ops ++ [.put key value]) ∧
      WriteBatchInternal.sequence (batch.put key value) = WriteBatchInternal.sequence batch := by
  have counted := stored_count ops.length 1
  rw [← encodes.count_eq] at counted
  have extended := encodes.extend [.put key value] (by simpa using fits) counted
  have same : batch.put key value =
      ⟨(setCount batch (truncI32 (count batch + 1))).rep ++
        [Op.put key value].flatMap Op.encode⟩ := by
    simp [WriteBatch.put, Op.encode, putLengthPrefixedSlice, putVarint32, lowByte, ValueType.toNat]
  rw [same]
  exact extended

/-- `Delete` adds an operation and keeps the sequence number. -/
theorem delete (encodes : Encodes batch ops) {key : Bytes} (fits : (Op.delete key).Fits) :
    Encodes (batch.delete key) (ops ++ [.delete key]) ∧
      WriteBatchInternal.sequence (batch.delete key) = WriteBatchInternal.sequence batch := by
  have counted := stored_count ops.length 1
  rw [← encodes.count_eq] at counted
  have extended := encodes.extend [.delete key] (by simpa using fits) counted
  have same : batch.delete key =
      ⟨(setCount batch (truncI32 (count batch + 1))).rep ++ [Op.delete key].flatMap Op.encode⟩ := by
    simp [WriteBatch.delete, Op.encode, putLengthPrefixedSlice, putVarint32, lowByte,
      ValueType.toNat]
  rw [same]
  exact extended

/-- `Append` appends the whole list of its source, which may be the batch itself. -/
theorem append (encodes : Encodes batch ops) (encodesSource : Encodes source others) :
    Encodes (batch.append source) (ops ++ others) ∧
      WriteBatchInternal.sequence (batch.append source) = WriteBatchInternal.sequence batch := by
  have counted := stored_count ops.length others.length
  rw [← encodes.count_eq, ← encodesSource.count_eq] at counted
  have extended := encodes.extend others encodesSource.fits counted
  rw [← encodesSource.drop_header] at extended
  exact extended

/-- `SetSequence` keeps the operations. -/
theorem setSequence (encodes : Encodes batch ops) (seq : Nat) :
    Encodes (setSequence batch seq) ops ∧
      WriteBatchInternal.sequence (WriteBatchInternal.setSequence batch seq) = truncU64 seq := by
  obtain ⟨head, size, rep⟩ := encodes.rep
  refine ⟨⟨⟨encodeFixed64 seq, rfl, ?_⟩, encodes.fits⟩, ?_⟩
  · rw [WriteBatchInternal.setSequence, rep, ← size, List.drop_left]
  · rw [WriteBatchInternal.sequence, WriteBatchInternal.setSequence, decodeFixed64_encodeFixed64]

end Encodes

/-! ### Programs over several batches -/

/-- One call on one of the batches of a program, named by numbers. -/
inductive BatchCall where
  | put (batch : Nat) (key value : Bytes)
  | delete (batch : Nat) (key : Bytes)
  | clear (batch : Nat)
  | append (batch source : Nat)
  | setSequence (batch seq : Nat)
  deriving DecidableEq, Repr

namespace BatchCall

/-- The call on the batches themselves. -/
def step (batches : Nat → WriteBatch) : BatchCall → Nat → WriteBatch
  | .put b key value => Function.update batches b ((batches b).put key value)
  | .delete b key => Function.update batches b ((batches b).delete key)
  | .clear b => Function.update batches b WriteBatch.clear
  | .append b source => Function.update batches b ((batches b).append (batches source))
  | .setSequence b seq =>
    Function.update batches b (WriteBatchInternal.setSequence (batches b) seq)

/-- The call on the logical lists. -/
def logicalStep (lists : Nat → List Op) : BatchCall → Nat → List Op
  | .put b key value => Function.update lists b (lists b ++ [.put key value])
  | .delete b key => Function.update lists b (lists b ++ [.delete key])
  | .clear b => Function.update lists b []
  | .append b source => Function.update lists b (lists b ++ lists source)
  | .setSequence _ _ => lists

/-- The lengths given to the call fit their length fields. -/
def Fits : BatchCall → Prop
  | .put _ key value => (Op.put key value).Fits
  | .delete _ key => (Op.delete key).Fits
  | _ => True

/-- The calls that must not touch sequence numbers. -/
def KeepsSequence : BatchCall → Prop
  | .put .. | .delete .. | .append .. => True
  | .clear _ | .setSequence .. => False

/-- The batches after a program that starts from newly constructed batches. -/
def run (program : List BatchCall) : Nat → WriteBatch :=
  program.foldl step fun _ => WriteBatch.clear

/-- The logical lists after a program. -/
def logicalRun (program : List BatchCall) : Nat → List Op :=
  program.foldl logicalStep fun _ => []

/-- One call keeps every batch an encoding of its logical list. -/
theorem step_encodes {batches : Nat → WriteBatch} {lists : Nat → List Op} {call : BatchCall}
    (encodes : ∀ b, Encodes (batches b) (lists b)) (fits : call.Fits) :
    ∀ b, Encodes (call.step batches b) (call.logicalStep lists b) := by
  -- only the updated batch differs; each case is the lemma of its operation
  have update : ∀ {b : Nat} {batch : WriteBatch} {ops : List Op}, Encodes batch ops →
      ∀ c, Encodes (Function.update batches b batch c) (Function.update lists b ops c) := by
    intro b batch ops updated c
    by_cases same : c = b
    · subst same
      simpa using updated
    · simpa [same] using encodes c
  cases call with
  | put b key value => exact update ((encodes b).put fits).1
  | delete b key => exact update ((encodes b).delete fits).1
  | clear b => exact update Encodes.clear
  | append b source => exact update ((encodes b).append (encodes source)).1
  | setSequence b seq =>
    have updated := @update b _ _ ((encodes b).setSequence seq).1
    simpa [step, logicalStep] using updated

/-- Any program keeps all batches encoded. -/
theorem foldl_encodes (program : List BatchCall) {batches : Nat → WriteBatch}
    {lists : Nat → List Op} (encodes : ∀ b, Encodes (batches b) (lists b))
    (fits : ∀ call ∈ program, call.Fits) (b : Nat) :
    Encodes (program.foldl step batches b) (program.foldl logicalStep lists b) := by
  induction program generalizing batches lists with
  | nil => exact encodes b
  | cons call program inductionHypothesis =>
    exact inductionHypothesis (step_encodes encodes (fits call (List.mem_cons_self ..)))
      fun other member => fits other (List.mem_cons_of_mem _ member)

/-- After any program every batch encodes its logical list. -/
theorem run_encodes {program : List BatchCall} (fits : ∀ call ∈ program, call.Fits) (b : Nat) :
    Encodes (run program b) (logicalRun program b) :=
  foldl_encodes program (fun _ => Encodes.clear) fits b

/-- Such a call keeps the sequence numbers. -/
theorem step_sequence {batches : Nat → WriteBatch} {lists : Nat → List Op} {call : BatchCall}
    (encodes : ∀ b, Encodes (batches b) (lists b)) (fits : call.Fits)
    (keeps : call.KeepsSequence) (b : Nat) :
    WriteBatchInternal.sequence (call.step batches b) =
      WriteBatchInternal.sequence (batches b) := by
  have update : ∀ {c : Nat} {batch : WriteBatch},
      WriteBatchInternal.sequence batch = WriteBatchInternal.sequence (batches c) →
      WriteBatchInternal.sequence (Function.update batches c batch b) =
        WriteBatchInternal.sequence (batches b) := by
    intro c batch same
    by_cases equal : b = c
    · subst equal
      simpa using same
    · simp [equal]
  cases call with
  | put c key value => exact update ((encodes c).put fits).2
  | delete c key => exact update ((encodes c).delete fits).2
  | append c source => exact update ((encodes c).append (encodes source)).2
  | clear c => exact keeps.elim
  | setSequence c seq => exact keeps.elim

/-- The batch codec over every program of calls on any number of batches: iterating
a batch hands on its logical list and returns OK, the count is the length of that
list, and `Put`, `Delete` and `Append` leave every sequence number unchanged. -/
theorem program_iterates_logical_lists (program : List BatchCall)
    (fits : ∀ call ∈ program, call.Fits) :
    (∀ b, (logicalRun program b).length < 2 ^ 31 →
      (∀ {σ : Type} (handler : Handler σ) (state : σ),
        (run program b).iterate handler state =
          (.ok, (logicalRun program b).foldl handler.apply state)) ∧
      count (run program b) = (logicalRun program b).length) ∧
    (∀ call : BatchCall, call.Fits → call.KeepsSequence → ∀ b,
      WriteBatchInternal.sequence (run (program ++ [call]) b) =
        WriteBatchInternal.sequence (run program b)) := by
  have encodes := run_encodes fits
  refine ⟨fun b short => ⟨fun handler state => (encodes b).iterate_eq handler state, ?_⟩, ?_⟩
  · rw [(encodes b).count_eq, truncI32_of_lt short]
  · intro call callFits keeps b
    have last : run (program ++ [call]) = call.step (run program) := by
      simp [run]
    rw [last]
    exact step_sequence encodes callFits keeps b

/-- A batch appended to itself, next to one that was cleared. -/
theorem program_iterates_logical_lists_self_append :
    ∃ batches : Nat → WriteBatch,
      batches = run [.put 0 [1] [2], .delete 1 [3], .append 0 0, .clear 1, .append 0 1] ∧
      count (batches 0) = 2 ∧ count (batches 1) = 0 := by
  obtain ⟨reads, -⟩ := program_iterates_logical_lists
    [.put 0 [1] [2], .delete 1 [3], .append 0 0, .clear 1, .append 0 1]
    (by
      intro call member
      simp only [List.mem_cons, List.not_mem_nil, or_false] at member
      rcases member with rfl | rfl | rfl | rfl | rfl <;> simp [Fits, Op.Fits])
  refine ⟨_, rfl, ?_, ?_⟩
  · exact (reads 0 (by decide)).2
  · exact (reads 1 (by decide)).2

end BatchCall

end LevelDbXy
