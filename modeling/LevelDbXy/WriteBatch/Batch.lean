import LevelDbXy.DataStructure.MemTable

/-!
# Write batches

`write_batch/write_batch.cpp`. The representation of a batch is one string

    sequence (fixed64), count (fixed32), records

whose records are a tag byte followed by length-prefixed strings. The count is an
`int32_t` that every update patches in place; its arithmetic wraps here as two's
complement does.
-/

namespace LevelDbXy

open Coding

/-- `kHeader`: the sequence number and the count. -/
def kHeader : Nat := 12

/-- `WriteBatch`, as its `rep_`. -/
structure WriteBatch where
  rep : Bytes
  deriving DecidableEq, Repr

/-- `WriteBatch::Handler` as a state transformer. -/
structure Handler (σ : Type) where
  put : σ → Bytes → Bytes → σ
  delete : σ → Bytes → σ

/-- One operation recorded in a batch. -/
inductive Op where
  | put (key value : Bytes)
  | delete (key : Bytes)
  deriving DecidableEq, Repr

/-- The handler call for one operation. -/
def Handler.apply {σ : Type} (handler : Handler σ) (state : σ) : Op → σ
  | .put key value => handler.put state key value
  | .delete key => handler.delete state key

namespace WriteBatchInternal

/-- `WriteBatchInternal::Count`. -/
def count (batch : WriteBatch) : Int := truncI32 (decodeFixed32 (batch.rep.drop 8))

/-- `WriteBatchInternal::SetCount`. -/
def setCount (batch : WriteBatch) (n : Int) : WriteBatch :=
  ⟨batch.rep.take 8 ++ encodeFixed32 (n % 2 ^ 32).toNat ++ batch.rep.drop 12⟩

/-- `WriteBatchInternal::Sequence`. -/
def sequence (batch : WriteBatch) : Nat := decodeFixed64 batch.rep

/-- `WriteBatchInternal::SetSequence`. -/
def setSequence (batch : WriteBatch) (seq : Nat) : WriteBatch :=
  ⟨encodeFixed64 seq ++ batch.rep.drop 8⟩

/-- `WriteBatchInternal::SetContents`. -/
def setContents (contents : Bytes) : WriteBatch := ⟨contents⟩

/-- `WriteBatchInternal::Append`; `src` may be `dst` itself. The count is stored
before the records are copied, which does not touch the records of `src`. -/
def append (dst src : WriteBatch) : WriteBatch :=
  let counted := setCount dst (truncI32 (count dst + count src))
  ⟨counted.rep ++ src.rep.drop kHeader⟩

end WriteBatchInternal

open WriteBatchInternal

namespace WriteBatch

/-- `WriteBatch::Clear`, and the constructor: a zeroed header and no records. -/
def clear : WriteBatch := ⟨List.replicate kHeader 0⟩

/-- `WriteBatch::Put`. -/
def put (batch : WriteBatch) (key value : Bytes) : WriteBatch :=
  let counted := setCount batch (truncI32 (count batch + 1))
  let tagged := counted.rep ++ [lowByte ValueType.kTypeValue.toNat]
  ⟨putLengthPrefixedSlice (putLengthPrefixedSlice tagged key) value⟩

/-- `WriteBatch::Delete`. -/
def delete (batch : WriteBatch) (key : Bytes) : WriteBatch :=
  let counted := setCount batch (truncI32 (count batch + 1))
  let tagged := counted.rep ++ [lowByte ValueType.kTypeDeletion.toNat]
  ⟨putLengthPrefixedSlice tagged key⟩

/-- `WriteBatch::Append`. -/
def append (batch source : WriteBatch) : WriteBatch := WriteBatchInternal.append batch source

/-- The `switch` of `WriteBatch::Iterate` on the tag in front of `input`: the
operation to hand on and the rest of the input, or the status to return. -/
def readRecord (tag : UInt8) (input : Bytes) : Except Status (Op × Bytes) :=
  if tag.toNat = ValueType.kTypeValue.toNat then
    match getLengthPrefixedSlice input with
    | none => .error (.corruption "bad WriteBatch Put")
    | some (key, afterKey) =>
      match getLengthPrefixedSlice afterKey with
      | none => .error (.corruption "bad WriteBatch Put")
      | some (value, rest) => .ok (.put key value, rest)
  else if tag.toNat = ValueType.kTypeDeletion.toNat then
    match getLengthPrefixedSlice input with
    | none => .error (.corruption "badWriteBatch Delete")
    | some (key, rest) => .ok (.delete key, rest)
  else .error (.corruption "unknown WriteBatch tag")

/-- A record that is read is not empty. -/
theorem readRecord_length {tag : UInt8} {input rest : Bytes} {op : Op}
    (read : readRecord tag input = .ok (op, rest)) : rest.length < input.length := by
  unfold readRecord at read
  split_ifs at read
  · split at read
    · cases read
    · next keyRead =>
      split at read
      · cases read
      · next valueRead =>
        cases read
        exact (getLengthPrefixedSlice_length valueRead).trans
          (getLengthPrefixedSlice_length keyRead)
  · split at read
    · cases read
    · next keyRead =>
      cases read
      exact getLengthPrefixedSlice_length keyRead

/-- The loop of `WriteBatch::Iterate` with the final count check. `found` is an `int`: past
`2 ^ 31 - 1` its increment is undefined in C++, and here wraps as the compiled code does. -/
def iterateLoop {σ : Type} (handler : Handler σ) (count : Int) (input : Bytes) (found : Int)
    (state : σ) : Status × σ :=
  match input with
  | [] => (if found ≠ count then .corruption "WriteBatch has wrong count" else .ok, state)
  | tag :: input =>
    let found := truncI32 (found + 1)
    match _read : readRecord tag input with
    | .error status => (status, state)
    | .ok (op, rest) => iterateLoop handler count rest found (handler.apply state op)
termination_by input.length
decreasing_by
  rw [List.length_cons]
  exact Nat.lt_succ_of_lt (readRecord_length _read)

/-- `WriteBatch::Iterate`. -/
def iterate {σ : Type} (batch : WriteBatch) (handler : Handler σ) (state : σ) : Status × σ :=
  if batch.rep.length < kHeader then (.corruption "malformed WriteBatch (too small)", state)
  else iterateLoop handler (count batch) (batch.rep.drop kHeader) 0 state

end WriteBatch

/-- `MemTableInserter`: its fields, and how many node heights it has drawn. -/
structure MemTableInserter where
  sequence : Nat
  mem : Option MemTable
  drawn : Nat

/-- The memtable call for one operation at a sequence number. -/
def Op.toCall : Op → Nat → AddCall
  | .put key value, seq => ⟨seq, .kTypeValue, key, value⟩
  | .delete key, seq => ⟨seq, .kTypeDeletion, key, []⟩

namespace MemTableInserter

/-- Both handler methods: add at the current sequence number, then advance it. -/
def insertOp (heights : Nat → Nat) (inserter : MemTableInserter) (op : Op) : MemTableInserter where
  sequence := truncU64 (inserter.sequence + 1)
  mem := inserter.mem.bind fun mem =>
    mem.add (op.toCall inserter.sequence) (heights inserter.drawn)
  drawn := inserter.drawn + 1

/-- `MemTableInserter::Put` and `MemTableInserter::Delete`. -/
def handler (heights : Nat → Nat) : Handler MemTableInserter where
  put inserter key value := inserter.insertOp heights (.put key value)
  delete inserter key := inserter.insertOp heights (.delete key)

end MemTableInserter

/-- `WriteBatchInternal::InsertInto`; `heights` are the heights drawn for the nodes
that this call adds. -/
def WriteBatchInternal.insertInto (batch : WriteBatch) (mem : MemTable) (heights : Nat → Nat) :
    Status × Option MemTable :=
  let start : MemTableInserter := ⟨sequence batch, some mem, 0⟩
  let (status, inserter) := batch.iterate (MemTableInserter.handler heights) start
  (status, inserter.mem)

end LevelDbXy
