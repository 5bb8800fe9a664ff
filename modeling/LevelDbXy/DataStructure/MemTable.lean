import LevelDbXy.DataStructure.SkipListInsert
import LevelDbXy.DbFormat.InternalKey
import LevelDbXy.Util.Status

/-!
# The memtable

`data_structure/mem_table.cpp`: a skip list whose keys are pointers to encoded
entries

    varint32 of the internal key size, user key, tag, varint32 of the value size, value

compared through their length-prefixed internal keys. An entry pointer is the
memory it points to. A `none` result stands for undefined behaviour or for a
search that does not end; the theorems show that neither happens.
-/

namespace LevelDbXy

open Coding

/-- The file-local `GetLengthPrefixedSlice`, which reads a pointer and is only
given valid encodings: the slice and the memory behind it. -/
def lengthPrefixedAt (data : Bytes) : Bytes × Bytes :=
  match getVarint32Ptr data 5 with
  | some (len, p) => (p.take len, p.drop len)
  | none => ([], [])

/-- `MemTable::KeyComparator`. -/
def keyCompare (user : Comparator) (a b : Bytes) : Int :=
  internalCompare user (lengthPrefixedAt a).1 (lengthPrefixedAt b).1

/-- `MemTable` over the user comparator of its `InternalKeyComparator`. -/
structure MemTable where
  userComparator : Comparator
  table : SkipList Bytes

/-- One call of `MemTable::Add`. -/
structure AddCall where
  seq : Nat
  type : ValueType
  key : Bytes
  value : Bytes
  deriving DecidableEq, Repr

/-- The internal key of an added entry. -/
def AddCall.internalKey (call : AddCall) : Bytes :=
  call.key ++ encodeFixed64 (truncU64 (call.seq <<< 8) ||| call.type.toNat)

/-- The bytes `MemTable::Add` writes into its buffer. -/
def AddCall.entry (call : AddCall) : Bytes :=
  encodeVarint32 (truncU32 (call.key.length + 8)) ++ call.internalKey ++
    (encodeVarint32 (truncU32 call.value.length) ++ call.value)

/-- The size of the buffer that `MemTable::Add` allocates. -/
def AddCall.encodedLen (call : AddCall) : Nat :=
  varintLength (call.key.length + 8) + (call.key.length + 8) + varintLength call.value.length +
    call.value.length

namespace MemTable

/-- `MemTable::MemTable`. -/
def new (user : Comparator) : MemTable := ⟨user, SkipList.new⟩

/-- `MemTable::Add`, with the height drawn for the new node. -/
def add (mem : MemTable) (call : AddCall) (height : Nat) : Option MemTable :=
  (mem.table.insert (keyCompare mem.userComparator) call.entry height).map fun table =>
    { mem with table }

/-- A sequence of `Add` calls, each with the height drawn for its node. -/
def addAll (mem : MemTable) (calls : List (AddCall × Nat)) : Option MemTable :=
  calls.foldlM (fun mem call => mem.add call.1 call.2) mem

/-- What `Get` returns and what it leaves in `*value` and `*s`. -/
structure GetResult where
  found : Bool
  value : Bytes
  status : Status
  deriving DecidableEq, Repr

/-- `MemTable::Get`. -/
def get (mem : MemTable) (key : LookupKey) (value : Bytes) (status : Status) :
    Option GetResult := do
  let node ← mem.table.seek (keyCompare mem.userComparator) key.memtableKey
  match node with
  | none => some ⟨false, value, status⟩
  | some node =>
    let entry ← mem.table.keyOf node
    let (keyLength, keyPtr) ← getVarint32Ptr entry 5
    if mem.userComparator.compare (keyPtr.take (truncU32 (keyLength + 2 ^ 32 - 8))) key.userKey = 0
    then
      let tag := decodeFixed64 (keyPtr.drop (keyLength - 8))
      match ValueType.ofNat? (tag &&& 0xFF) with
      | some .kTypeValue => some ⟨true, (lengthPrefixedAt (keyPtr.drop keyLength)).1, status⟩
      | some .kTypeDeletion => some ⟨true, value, .notFound ""⟩
      | none => some ⟨false, value, status⟩
    else some ⟨false, value, status⟩

/-- `MemTableIterator::key` on an entry. -/
def iterKey (entry : Bytes) : Bytes := (lengthPrefixedAt entry).1

/-- `MemTableIterator::value` on an entry. -/
def iterValue (entry : Bytes) : Bytes := (lengthPrefixedAt (lengthPrefixedAt entry).2).1

/-- `SeekToFirst`, then `Next` until not `Valid`: the keys and values met. -/
def forwardScan (mem : MemTable) : Option (List (Bytes × Bytes)) :=
  mem.table.scan.map fun entries => entries.map fun entry => (iterKey entry, iterValue entry)

end MemTable

/-! ### The entry encoding -/

/-- An `Add` whose sequence number and sizes fit their encoded fields. -/
structure AddCall.Fits (call : AddCall) : Prop where
  seq : call.seq ≤ kMaxSequenceNumber
  key : call.key.length + 8 < 2 ^ 32
  value : call.value.length < 2 ^ 32

/-- A value behind its size is decoded. -/
theorem lengthPrefixedAt_encode {value : Bytes} (rest : Bytes) (bounded : value.length < 2 ^ 32) :
    lengthPrefixedAt (encodeVarint32 value.length ++ value ++ rest) = (value, rest) := by
  have decoded := getVarint32Ptr_encodeVarint32 (value ++ rest) bounded
    (length_encodeVarint32_bounds value.length).2
  rw [lengthPrefixedAt, List.append_assoc, decoded]
  simp

namespace AddCall

variable {call : AddCall}

@[simp] theorem length_internalKey : call.internalKey.length = call.key.length + 8 := by
  simp [internalKey]

/-- The first varint of an entry is its internal key size, whatever the sizes. -/
theorem getVarint32Ptr_entry (call : AddCall) :
    ∃ rest, getVarint32Ptr call.entry 5 = some (truncU32 (call.key.length + 8), rest) := by
  have bounded : truncU32 (call.key.length + 8) < 2 ^ 32 := Nat.mod_lt _ (by decide)
  rw [entry, List.append_assoc]
  exact ⟨_, getVarint32Ptr_encodeVarint32 _ bounded (length_encodeVarint32_bounds _).2⟩

/-- An entry that fits splits into its internal key and its value. -/
theorem lengthPrefixedAt_entry (fits : call.Fits) :
    lengthPrefixedAt call.entry =
      (call.internalKey, encodeVarint32 call.value.length ++ call.value) := by
  have keyKept : truncU32 (call.key.length + 8) = call.key.length + 8 :=
    Nat.mod_eq_of_lt fits.key
  have valueKept : truncU32 call.value.length = call.value.length := Nat.mod_eq_of_lt fits.value
  have sized := @length_internalKey call
  have split := @lengthPrefixedAt_encode call.internalKey
    (encodeVarint32 call.value.length ++ call.value) (by rw [sized]; exact fits.key)
  rw [sized] at split
  rw [entry, keyKept, valueKept]
  exact split

@[simp] theorem iterKey_entry (fits : call.Fits) :
    MemTable.iterKey call.entry = call.internalKey := by
  rw [MemTable.iterKey, lengthPrefixedAt_entry fits]

@[simp] theorem iterValue_entry (fits : call.Fits) :
    MemTable.iterValue call.entry = call.value := by
  have value := @lengthPrefixedAt_encode call.value [] fits.value
  rw [List.append_nil] at value
  rw [MemTable.iterValue, lengthPrefixedAt_entry fits, value]

/-- The buffer is filled exactly. -/
theorem length_entry (fits : call.Fits) : call.entry.length = call.encodedLen := by
  have keyKept : truncU32 (call.key.length + 8) = call.key.length + 8 :=
    Nat.mod_eq_of_lt fits.key
  have valueKept : truncU32 call.value.length = call.value.length := Nat.mod_eq_of_lt fits.value
  have keyBound := fits.key
  have valueBound := fits.value
  rw [encodedLen, varintLength_eq (by omega), varintLength_eq (by omega), entry, keyKept, valueKept]
  simp only [List.length_append, length_internalKey]
  omega

/-- The internal key of an entry is its user key and its tag. -/
theorem internalKey_eq (call : AddCall) :
    call.internalKey = call.key ++ encodeFixed64 (packSequenceAndType call.seq call.type) := rfl

@[simp] theorem extractUserKey_internalKey (call : AddCall) :
    extractUserKey call.internalKey = call.key := by
  rw [internalKey_eq, extractUserKey_append]

/-- The tag of an internal key is its sequence number and type. -/
theorem extractTag_internalKey (fits : call.Fits) :
    extractTag call.internalKey = call.seq * 256 + call.type.toNat := by
  rw [internalKey_eq, extractTag_append _ (packSequenceAndType_lt _ fits.seq),
    packSequenceAndType_eq _ fits.seq]

/-- An internal key is parsed into what it was made of. -/
theorem parseInternalKey_internalKey (fits : call.Fits) :
    parseInternalKey call.internalKey = some ⟨call.key, call.seq, call.type⟩ := by
  rw [internalKey_eq, parseInternalKey_append _ _ fits.seq]

end AddCall

end LevelDbXy
