import LevelDbXy.DataStructure.MemTableIterator
import LevelDbXy.DataStructure.SkipListStored

/-!
# The memtable in memory

`data_structure/mem_table.cpp` once more, on the bytes of its arena: `Add` writes the entry
field by field into memory that the arena hands out and inserts the pointer to it, and `Get`
and the iterators decode what the pointers point to. Everything they return is what the
memtable of entries returns, and no entry is ever moved or written to again.
-/

namespace LevelDbXy

open Coding FlatMemory StoredSkipList

/-- The file-local `GetLengthPrefixedSlice`: where the slice starts and how long it is. -/
def lengthPrefixedIn (memory : Memory) (data : Nat) : Nat × Nat :=
  match getVarint32Ptr (read memory data 5) 5 with
  | some (len, rest) => (data + (5 - rest.length), len)
  | none => (0, 0)

/-- The bytes of a slice. -/
def sliceIn (memory : Memory) (slice : Nat × Nat) : Bytes := read memory slice.1 slice.2

/-- `MemTable::KeyComparator`. -/
def keyCompareIn (user : Comparator) (memory : Memory) (a b : Nat) : Int :=
  internalCompare user (sliceIn memory (lengthPrefixedIn memory a))
    (sliceIn memory (lengthPrefixedIn memory b))

/-- `MemTable` with the memory of its arena. -/
structure StoredMemTable where
  userComparator : Comparator
  table : StoredSkipList

/-- A call of `Add`, with the height drawn for the node and the addresses that `operator new[]`
may return for the entry and for the node. -/
structure AddAt where
  call : AddCall
  height : Nat
  freshEntry : Nat
  freshNode : Nat
  deriving DecidableEq, Repr

namespace StoredMemTable

/-- `MemTable::MemTable`. -/
def new (user : Comparator) (memory : Memory) (fresh : Nat) : StoredMemTable :=
  ⟨user, StoredSkipList.new memory Arena.new fresh⟩

/-- The stores of `Add` from its buffer on: the pointer `p` in front of the value, and the
memory. -/
def writeEntry (memory : Memory) (buf : Nat) (call : AddCall) : Nat × Memory :=
  let keySize := encodeVarint32 (truncU32 (call.key.length + 8))
  let memory := write memory buf keySize
  let p := buf + keySize.length
  let memory := write memory p call.key
  let p := p + call.key.length
  let memory := write memory p
    (encodeFixed64 (truncU64 (call.seq <<< 8) ||| call.type.toNat))
  let p := p + 8
  let valSize := encodeVarint32 (truncU32 call.value.length)
  let memory := write memory p valSize
  let p := p + valSize.length
  (p, write memory p call.value)

/-- What `Add` asks the arena for. -/
def entryRequest (action : AddAt) : Arena.Request :=
  ⟨false, action.call.encodedLen, action.freshEntry⟩

/-- `MemTable::Add`, with its assertion. -/
def add (fuel : Nat) (mem : StoredMemTable) (action : AddAt) : Option StoredMemTable := do
  let (buf, arena) := mem.table.arena.serve (entryRequest action)
  let (p, memory) := writeEntry mem.table.memory buf action.call
  if p + action.call.value.length = buf + action.call.encodedLen then
    let table ← StoredSkipList.insert (keyCompareIn mem.userComparator)
      { mem.table with memory, arena } fuel buf action.height action.freshNode
    some { mem with table }
  else none

/-- `MemTable::ApproximateMemoryUsage`. -/
def approximateMemoryUsage (mem : StoredMemTable) : Nat := mem.table.arena.memoryUsage

/-- `MemTable::Get`; `memKey` points to the lookup key's memtable key. -/
def get (fuel : Nat) (mem : StoredMemTable) (memKey : Nat) (key : LookupKey) (value : Bytes)
    (status : Status) : Option MemTable.GetResult := do
  let (node, _) ← mem.table.findGreaterOrEqual (keyCompareIn mem.userComparator) fuel memKey
  if node = 0 then some ⟨false, value, status⟩
  else
    let entry := mem.table.keyOf node
    let (keyLength, rest) ← getVarint32Ptr (read mem.table.memory entry 5) 5
    let keyPtr := entry + (5 - rest.length)
    if mem.userComparator.compare
        (read mem.table.memory keyPtr (truncU32 (keyLength + 2 ^ 32 - 8))) key.userKey = 0 then
      let tag := loadWord mem.table.memory (keyPtr + keyLength - 8)
      match ValueType.ofNat? (tag &&& 0xFF) with
      | some .kTypeValue =>
        some ⟨true, sliceIn mem.table.memory
          (lengthPrefixedIn mem.table.memory (keyPtr + keyLength)), status⟩
      | some .kTypeDeletion => some ⟨true, value, .notFound ""⟩
      | none => some ⟨false, value, status⟩
    else some ⟨false, value, status⟩

/-- `MemTableIterator::key`. -/
def iterKey (mem : StoredMemTable) (node : Nat) : Nat × Nat :=
  lengthPrefixedIn mem.table.memory (mem.table.keyOf node)

/-- `MemTableIterator::value`. -/
def iterValue (mem : StoredMemTable) (node : Nat) : Nat × Nat :=
  let keySlice := mem.iterKey node
  lengthPrefixedIn mem.table.memory (keySlice.1 + keySlice.2)

/-- What `key` and `value` of a new iterator point to after some calls, if it is valid; the
target of `Seek` is the pointer that `EncodeKey` returns. -/
def iterObserve (fuel : Nat) (mem : StoredMemTable) (calls : List (Cursor.Call Nat)) :
    Option (Option (Bytes × Bytes)) := do
  let node ← calls.foldlM
    (mem.table.iterStep (keyCompareIn mem.userComparator) fuel) 0
  some (if node = 0 then none
    else some (sliceIn mem.table.memory (mem.iterKey node),
      sliceIn mem.table.memory (mem.iterValue node)))

/-- What `Add` calls ask the arena for. -/
def requestsOf (actions : List AddAt) : List Arena.Request :=
  actions.flatMap fun action =>
    [entryRequest action, nodeRequest action.height action.freshNode]

/-- A request that `operator new[]` answers as it should. -/
def Granted (history : Arena.History) (request : Arena.Request) : Prop :=
  Arena.Allowed history request ∧ Placed (history.arena.serve request).2.blocks

instance (history : Arena.History) (request : Arena.Request) :
    Decidable (Granted history request) := inferInstanceAs (Decidable (_ ∧ _))

end StoredMemTable

/-! ### Decoding what is held -/

section Decoding

variable {memory : Memory} {p : Nat}

/-- The size in front of something. -/
theorem getVarint32Ptr_held {value : Nat} (small : value < 2 ^ 32)
    (held : Holds memory p (encodeVarint32 value)) :
    ∃ rest, getVarint32Ptr (read memory p 5) 5 = some (value, rest) ∧
      5 - rest.length = (encodeVarint32 value).length := by
  have length := (length_encodeVarint32_bounds value).2
  have cut := read_add memory p (encodeVarint32 value).length
    (5 - (encodeVarint32 value).length)
  rw [Nat.add_sub_cancel' length, show read memory p _ = _ from held] at cut
  rw [cut]
  refine ⟨_, getVarint32Ptr_encodeVarint32 _ small length, ?_⟩
  rw [length_read]
  omega

/-- A string behind its size. -/
theorem lengthPrefixedIn_held {content : Bytes} (bounded : content.length < 2 ^ 32)
    (held : Holds memory p (encodeVarint32 content.length ++ content)) :
    lengthPrefixedIn memory p =
        (p + (encodeVarint32 content.length).length, content.length) ∧
      sliceIn memory (lengthPrefixedIn memory p) = content := by
  obtain ⟨front, back⟩ := holds_append.mp held
  obtain ⟨rest, decoded, used⟩ := getVarint32Ptr_held bounded front
  have found : lengthPrefixedIn memory p =
      (p + (encodeVarint32 content.length).length, content.length) := by
    rw [lengthPrefixedIn, decoded]
    simp only [used]
  rw [found]
  exact ⟨rfl, back⟩

/-- A string behind its size in front of more. -/
def Prefixed (key : Bytes) : Prop :=
  ∃ content more, content.length < 2 ^ 32 ∧
    key = encodeVarint32 content.length ++ content ++ more

/-- What `Add` writes. -/
def IsEntry (key : Bytes) : Prop := ∃ call : AddCall, call.Fits ∧ key = call.entry

/-- An entry begins with its internal key behind its size. -/
theorem prefixed_of_isEntry {key : Bytes} (isEntry : IsEntry key) : Prefixed key := by
  obtain ⟨call, fits, rfl⟩ := isEntry
  have kept : truncU32 (call.key.length + 8) = call.internalKey.length := by
    rw [AddCall.length_internalKey]
    exact Nat.mod_eq_of_lt fits.key
  refine ⟨call.internalKey, encodeVarint32 (truncU32 call.value.length) ++ call.value, ?_, ?_⟩
  · rw [AddCall.length_internalKey]
    exact fits.key
  · rw [AddCall.entry, kept]

/-- A lookup key has its size in front, too. -/
theorem prefixed_memtableKey {k : Bytes} (s : Nat) (size : k.length + 8 < 2 ^ 32) :
    Prefixed (LookupKey.new k s).memtableKey := by
  have kept : truncU32 (k.length + 8) = k.length + 8 := Nat.mod_eq_of_lt size
  refine ⟨k ++ encodeFixed64 (packSequenceAndType s kValueTypeForSeek), [], ?_, ?_⟩
  · simpa using size
  · simp [LookupKey.new, kept]

/-- The comparator reads the internal keys that its arguments point to. -/
theorem reads_keyCompareIn (user : Comparator) :
    Reads (keyCompareIn user) (keyCompare user) IsEntry Prefixed := by
  have reads : ∀ {memory p key}, Prefixed key → Holds memory p key →
      sliceIn memory (lengthPrefixedIn memory p) = (lengthPrefixedAt key).1 := by
    rintro memory p key ⟨content, more, bounded, rfl⟩ held
    rw [(lengthPrefixedIn_held bounded (holds_append.mp held).1).2,
      lengthPrefixedAt_encode more bounded]
  intro memory p q a b isEntry prefixed heldA heldB
  rw [keyCompareIn, reads (prefixed_of_isEntry isEntry) heldA, reads prefixed heldB, keyCompare]

/-- The fields of an entry in memory. -/
structure EntryAt (memory : Memory) (p : Nat) (call : AddCall) : Prop where
  size : Holds memory p (encodeVarint32 (call.key.length + 8))
  key : Holds memory (p + (encodeVarint32 (call.key.length + 8)).length) call.key
  tag : Holds memory (p + (encodeVarint32 (call.key.length + 8)).length + call.key.length)
    (encodeFixed64 (packSequenceAndType call.seq call.type))
  value : Holds memory (p + (encodeVarint32 (call.key.length + 8)).length + (call.key.length + 8))
    (encodeVarint32 call.value.length ++ call.value)

/-- An entry in memory has its fields where `Get` looks for them. -/
theorem entryAt_of_holds {call : AddCall} (fits : call.Fits) (held : Holds memory p call.entry) :
    EntryAt memory p call := by
  have keyKept : truncU32 (call.key.length + 8) = call.key.length + 8 :=
    Nat.mod_eq_of_lt fits.key
  have valueKept : truncU32 call.value.length = call.value.length := Nat.mod_eq_of_lt fits.value
  rw [AddCall.entry, keyKept, valueKept, AddCall.internalKey_eq] at held
  obtain ⟨front, value⟩ := holds_append.mp held
  obtain ⟨size, internal⟩ := holds_append.mp front
  obtain ⟨key, tag⟩ := holds_append.mp internal
  refine ⟨size, key, tag, ?_⟩
  simpa [Nat.add_assoc] using value

end Decoding

namespace StoredMemTable

/-- The stores of `Add` fill its buffer with the entry, and the pointer ends where the assertion
says. -/
theorem writeEntry_eq (memory : Memory) (buf : Nat) {call : AddCall} (fits : call.Fits) :
    (writeEntry memory buf call).1 + call.value.length = buf + call.encodedLen ∧
      (writeEntry memory buf call).2 = write memory buf call.entry := by
  have length := AddCall.length_entry fits
  have tagLength := length_encodeFixed64 (truncU64 (call.seq <<< 8) ||| call.type.toNat)
  constructor
  · rw [← length, AddCall.entry, AddCall.internalKey, writeEntry]
    simp only [List.length_append, tagLength]
    omega
  · simp only [writeEntry]
    rw [write_behind _ _ rfl, write_behind _ _ (by rw [tagLength]), write_behind _ _ rfl,
      write_behind _ _ rfl, AddCall.entry, AddCall.internalKey]
    simp only [List.append_assoc]

/-- An entry is not empty and not too large for the arena. -/
theorem encodedLen_lt {call : AddCall} (fits : call.Fits) :
    0 < call.encodedLen ∧ call.encodedLen < 2 ^ 63 := by
  have key := fits.key
  have value := fits.value
  have keySize := length_encodeVarint32_bounds (call.key.length + 8)
  have valueSize := length_encodeVarint32_bounds call.value.length
  rw [AddCall.encodedLen, varintLength_eq (by omega), varintLength_eq (by omega)]
  omega

/-! ### What the memtable in memory shows -/

/-- The memtable in memory shows a memtable of entries. -/
structure Stores (stored : StoredMemTable) (mem : MemTable) (place : Nat → Nat)
    (returned : List Arena.Returned) : Prop where
  user : stored.userComparator = mem.userComparator
  shows_ : Shows IsEntry stored.table mem.table place returned
  sized : Arena.Sized stored.table.arena returned

variable {stored : StoredMemTable} {mem after : MemTable} {place : Nat → Nat}
  {returned : List Arena.Returned} {fuel : Nat}

/-- What an `Add` returns regions for: the entry and the node. -/
def regionsOf (action : AddAt) (entry node : Nat) : List Arena.Returned :=
  [⟨⟨entry, action.call.encodedLen⟩, false⟩, ⟨⟨node, 8 * (action.height + 1)⟩, true⟩]

/-- Where an `Add` puts its entry. -/
def bufferOf (stored : StoredMemTable) (action : AddAt) : Nat :=
  (stored.table.arena.serve (entryRequest action)).1

/-- An `Add` writes its entry and inserts the pointer to it. -/
theorem add_eq (fuel : Nat) (stored : StoredMemTable) {action : AddAt} (fits : action.call.Fits) :
    add fuel stored action =
      (StoredSkipList.insert (keyCompareIn stored.userComparator)
        { stored.table with
          memory := write stored.table.memory (bufferOf stored action) action.call.entry
          arena := (stored.table.arena.serve (entryRequest action)).2 }
        fuel (bufferOf stored action) action.height action.freshNode).map fun table =>
          { stored with table } := by
  obtain ⟨ends, written⟩ := writeEntry_eq stored.table.memory (bufferOf stored action) fits
  unfold bufferOf at ends written ⊢
  simp only [add, if_pos ends, written]
  exact Option.map_eq_bind.symm

/-- An `Add` to the memory shows the memtable after it. It puts its entry into memory that was
free, and writes to no other entry. -/
theorem Stores.add (stores : Stores stored mem place returned) {action : AddAt}
    (fits : action.call.Fits) (positive : 1 ≤ action.height)
    (heightBound : action.height ≤ kMaxHeight) {history : Arena.History}
    (sameArena : history.arena = stored.table.arena) {rest : List Arena.Request}
    (granted : Machine.Meets Arena.step Granted history (entryRequest action ::
      nodeRequest action.height action.freshNode :: rest))
    (enough : mem.table.searchBudget ≤ fuel)
    (ran : mem.add action.call action.height = some after) :
    ∃ next place' node, StoredMemTable.add fuel stored action = some next ∧
      Stores next after place' (returned ++ regionsOf action (bufferOf stored action) node) ∧
      KeepsKeys returned stored.table.memory next.table.memory ∧
      Holds next.table.memory (bufferOf stored action) action.call.entry ∧
      ∃ later : Arena.History, later.arena = next.table.arena ∧
        Machine.Meets Arena.step Granted later rest := by
  obtain ⟨⟨⟨-, -, separateEntry⟩, placedEntry⟩, others⟩ := granted
  obtain ⟨⟨⟨-, -, separateNode⟩, placedNode⟩, later⟩ := others _ rfl
  rw [sameArena] at separateEntry placedEntry
  simp only [sameArena] at separateNode placedNode later
  obtain ⟨table, inserted, rfl⟩ := Option.map_eq_some_iff.mp ran
  obtain ⟨lengthPositive, lengthBound⟩ := encodedLen_lt fits
  have isEntry : IsEntry action.call.entry := ⟨_, fits, rfl⟩
  have filled := AddCall.length_entry fits
  have nodeBytes := bytes_nodeRequest positive action.freshNode
  -- the buffer is apart from all that was returned before
  have consistent := @Arena.Consistent.serve _ _ stores.shows_.consistent (entryRequest action)
    lengthPositive lengthBound separateEntry
  have free : ∀ r ∈ returned, r.region.Disjoint
      ⟨bufferOf stored action, action.call.encodedLen⟩ := fun r earlier =>
    (List.pairwise_append.mp consistent.apart).2.2 r earlier _ (List.mem_singleton_self _)
  have entryKeeps : ∀ r ∈ returned, ∀ a, r.region.base ≤ a →
      a < r.region.base + r.region.size →
        write stored.table.memory (bufferOf stored action) action.call.entry a =
          stored.table.memory a := by
    intro r earlier a low high
    have disjoint := free r earlier
    simp only [Region.Disjoint] at disjoint
    exact write_outside _ _ (by omega)
  have grown := stores.shows_.grow consistent placedEntry entryKeeps
  have held : Holds (write stored.table.memory (bufferOf stored action) action.call.entry)
      (bufferOf stored action) action.call.entry := holds_write _ _ _
  have listed : (⟨⟨bufferOf stored action, action.call.entry.length⟩, false⟩ : Arena.Returned) ∈
      returned ++ [⟨⟨bufferOf stored action, action.call.encodedLen⟩, false⟩] := by
    rw [filled]
    exact List.mem_append_right _ (List.mem_singleton_self _)
  obtain ⟨next, place', node, insertedAt, shown, arena, nodeKeeps⟩ :=
    grown.insert (reads_keyCompareIn mem.userComparator) isEntry (prefixed_of_isEntry isEntry)
      (by rw [filled]; exact lengthPositive) held listed positive heightBound separateNode
      placedNode enough inserted
  have entrySized := @Arena.Sized.serve _ _ (entryRequest action) stores.sized lengthBound
    (bufferOf stored action)
  have nodeSized := @Arena.Sized.serve _ _ (nodeRequest action.height action.freshNode) entrySized
    (by have : kMaxHeight = 12 := rfl; omega) node
  rw [nodeBytes, List.append_assoc] at nodeSized
  refine ⟨{ stored with table := next }, place', node, ?_, ⟨stores.user, ?_, ?_⟩, ?_, ?_,
    ⟨_, arena.symm, later _ rfl⟩⟩
  · rw [add_eq fuel stored fits, stores.user]
    exact congrArg (Option.map _) insertedAt
  · rw [List.append_assoc] at shown
    exact shown
  · rw [show next.arena = _ from arena]
    exact nodeSized
  · exact KeepsKeys.trans (fun r earlier _ => entryKeeps r earlier)
      fun r earlier => nodeKeeps r (List.mem_append_left _ earlier)
  · exact held.congr fun a low high => nodeKeeps _ listed rfl a low high

/-! ### Reading -/

/-- The tag of an entry as `Get` reads it. -/
theorem tag_held {memory : Memory} {p : Nat} {call : AddCall} (fits : call.Fits)
    (entry : EntryAt memory p call) :
    ValueType.ofNat? (loadWord memory (p + (encodeVarint32 (call.key.length + 8)).length +
      (call.key.length + 8) - 8) &&& 0xFF) = some call.type := by
  have small := call.type.toNat_le_one
  have decoded := decodeFixed64_encodeFixed64 (packSequenceAndType call.seq call.type) []
  have loaded : read memory (p + (encodeVarint32 (call.key.length + 8)).length +
      call.key.length) 8 = encodeFixed64 (packSequenceAndType call.seq call.type) := entry.tag
  rw [List.append_nil, truncU64,
    Nat.mod_eq_of_lt (packSequenceAndType_lt _ fits.seq)] at decoded
  rw [← Nat.add_assoc, Nat.add_sub_cancel, loadWord, loaded, decoded,
    packSequenceAndType_eq _ fits.seq, Nat.and_two_pow_sub_one_eq_mod _ 8,
    show (call.seq * 256 + call.type.toNat) % 2 ^ 8 = call.type.toNat by omega,
    ValueType.ofNat?_toNat]

/-- `Get` on the entry that the search stands on. -/
theorem get_of_found {memKey node : Nat} {prev : List (Option Nat)} {call : AddCall}
    (fits : call.Fits) (k : Bytes) (s : Nat) (value : Bytes) (status : Status)
    (searched : stored.table.findGreaterOrEqual (keyCompareIn stored.userComparator) fuel memKey =
      some (node, prev)) (notNull : node ≠ 0)
    (entry : EntryAt stored.table.memory (stored.table.keyOf node) call) :
    stored.get fuel memKey (LookupKey.new k s) value status =
      some (if stored.userComparator.compare call.key k = 0 then
        MemTable.readResult call value status else ⟨false, value, status⟩) := by
  obtain ⟨rest, decoded, used⟩ := getVarint32Ptr_held fits.key entry.size
  have keyLength : truncU32 (call.key.length + 8 + 2 ^ 32 - 8) = call.key.length := by
    have := fits.key
    rw [truncU32]
    omega
  have userKey : read stored.table.memory (stored.table.keyOf node +
      (encodeVarint32 (call.key.length + 8)).length) call.key.length = call.key := entry.key
  have valueRead := (lengthPrefixedIn_held fits.value entry.value).2
  have tag := tag_held fits entry
  simp only [get, searched, Option.bind_eq_bind, Option.bind_some, if_neg notNull, decoded, used,
    keyLength, userKey, MemTable.userKey_lookupKey, tag, valueRead]
  split_ifs with equivalent
  · cases shape : call.type <;> simp [MemTable.readResult, shape]
  · rfl

/-- The slices that an iterator shows on an entry. -/
theorem iter_held {node : Nat} {call : AddCall} (fits : call.Fits)
    (held : Holds stored.table.memory (stored.table.keyOf node) call.entry) :
    sliceIn stored.table.memory (stored.iterKey node) = call.internalKey ∧
      sliceIn stored.table.memory (stored.iterValue node) = call.value := by
  have entry := entryAt_of_holds fits held
  have length := @AddCall.length_internalKey call
  have key : Holds stored.table.memory (stored.table.keyOf node)
      (encodeVarint32 call.internalKey.length ++ call.internalKey) := by
    rw [length, AddCall.internalKey_eq]
    exact holds_append.mpr ⟨entry.size, holds_append.mpr ⟨entry.key, entry.tag⟩⟩
  obtain ⟨found, read⟩ := lengthPrefixedIn_held (length.symm ▸ fits.key) key
  refine ⟨read, ?_⟩
  have value := (lengthPrefixedIn_held fits.value entry.value).2
  rw [iterValue, iterKey, found, length]
  exact value

namespace Stores

variable (stores : Stores stored mem place returned)

include stores

/-- `Get` on the memory returns what it returns on the entries. -/
theorem get {keys : List Bytes} (order : WeakOrder (SkipList.Lt (keyCompare mem.userComparator)))
    (holds : SkipList.Holds (keyCompare mem.userComparator) mem.table keys)
    (enough : mem.table.searchBudget ≤ fuel) {k : Bytes} (size : k.length + 8 < 2 ^ 32) (s : Nat)
    {memKey : Nat} (held : Holds stored.table.memory memKey (LookupKey.new k s).memtableKey)
    (value : Bytes) (status : Status) :
    stored.get fuel memKey (LookupKey.new k s) value status =
      mem.get (LookupKey.new k s) value status := by
  obtain ⟨node, sought, keyed⟩ := SkipList.seek_holds holds order (LookupKey.new k s).memtableKey
  obtain ⟨⟨found, recorded⟩, searched, rfl⟩ := Option.map_eq_some_iff.mp sought
  obtain ⟨searchedAt, -, inside⟩ := stores.shows_.findGreaterOrEqual
    (reads_keyCompareIn mem.userComparator) (prefixed_memtableKey s size) held enough searched
  rw [← stores.user] at searchedAt
  cases found with
  | none =>
    rw [MemTable.get_of_seek_none value status sought]
    simp only [StoredMemTable.get, searchedAt, Option.bind_eq_bind, Option.bind_some]
    rfl
  | some n =>
    obtain ⟨entry, isEntry⟩ : ∃ entry, mem.table.keyOf n = some entry := by
      rw [Option.map_some] at keyed
      obtain ⟨entry, -, same⟩ := Option.map_eq_some_iff.mp keyed.symm
      exact ⟨entry, same.symm⟩
    obtain ⟨⟨call, fits, rfl⟩, heldEntry, -⟩ := stores.shows_.key isEntry
    have notNull := (stores.shows_.place_bounds (inside n rfl)).1
    rw [MemTable.get_of_seek_entry fits k s value status sought isEntry, ← stores.user]
    exact get_of_found fits k s value status searchedAt (by
      rw [Shows.addressOf_some]
      omega) (entryAt_of_holds fits heldEntry)

/-- An iterator on the memory shows what one on the entries shows. -/
theorem iterObserve (enough : mem.table.searchBudget ≤ fuel) {callsAt : List (Cursor.Call Nat)}
    {calls : List (Cursor.Call Bytes)} {shown : Option (Bytes × Bytes)}
    (targets : List.Forall₂ (Targets Prefixed stored.table.memory) callsAt
      (calls.map (Cursor.Call.map encodeKey)))
    (observed : mem.iterObserve calls = some shown) :
    stored.iterObserve fuel callsAt = some shown := by
  obtain ⟨node, moved, isShown⟩ := Option.bind_eq_some_iff.mp observed
  obtain ⟨movedAt, inside⟩ := stores.shows_.iterRun (reads_keyCompareIn mem.userComparator)
    targets prefixed_of_isEntry (fun y impossible => by cases impossible) enough moved
  rw [← stores.user] at movedAt
  rw [StoredMemTable.iterObserve,
    show callsAt.foldlM _ 0 = some (addressOf place node) from movedAt]
  simp only [Option.bind_eq_bind, Option.bind_some]
  cases node with
  | none => exact isShown
  | some n =>
    obtain ⟨entry, isEntry, rfl⟩ := Option.map_eq_some_iff.mp isShown
    obtain ⟨⟨call, fits, rfl⟩, heldEntry, -⟩ := stores.shows_.key isEntry
    have notNull := (stores.shows_.place_bounds (inside n rfl)).1
    obtain ⟨key, value⟩ := iter_held fits heldEntry
    rw [Shows.addressOf_some, if_neg (by omega), key, value, AddCall.iterKey_entry fits,
      AddCall.iterValue_entry fits]

end Stores

/-! ### Runs -/

/-- An `Add` without its addresses. -/
def addOf (action : AddAt) : AddCall × Nat := (action.call, action.height)

/-- What the `Add` calls and the head need of the arena. -/
def bytesFor (actions : List AddAt) : Nat :=
  (actions.map fun action => action.call.encodedLen + 8 * (action.height + 1)).sum

/-- Any `Add` calls on the memory show the memtable after them; no entry that was there before is
written to. -/
theorem Stores.run {actions : List AddAt} (stores : Stores stored mem place returned)
    {keys : List Bytes} (order : WeakOrder (SkipList.Lt (keyCompare mem.userComparator)))
    (holds : SkipList.Holds (keyCompare mem.userComparator) mem.table keys)
    (fits : ∀ action ∈ actions, action.call.Fits)
    (heights : ∀ action ∈ actions, 1 ≤ action.height ∧ action.height ≤ kMaxHeight)
    {history : Arena.History} (sameArena : history.arena = stored.table.arena)
    {rest : List Arena.Request}
    (granted : Machine.Meets Arena.step Granted history (requestsOf actions ++ rest))
    (enough : kMaxHeight * (mem.table.nodes.length + actions.length) ≤ fuel) :
    ∃ final after place' more, Machine.run (StoredMemTable.add fuel) stored actions = some final ∧
      mem.addAll (actions.map addOf) = some after ∧
      Stores final after place' (returned ++ more) ∧
      KeepsKeys returned stored.table.memory final.table.memory ∧
      after.table.nodes.length = mem.table.nodes.length + actions.length ∧
      Arena.bytesOf more = bytesFor actions ∧ Arena.alignedIn more = actions.length ∧
      SkipList.Holds (keyCompare after.userComparator) after.table
        (MemTable.insertEntries (keyCompare mem.userComparator) keys
          (actions.map fun action => action.call)) ∧
      after.userComparator = mem.userComparator ∧
      ∃ later : Arena.History, later.arena = final.table.arena ∧
        Machine.Meets Arena.step Granted later rest := by
  induction actions generalizing stored mem place returned keys history with
  | nil =>
    refine ⟨stored, mem, place, [], rfl, rfl, ?_, fun _ _ _ _ _ _ => rfl, rfl, rfl, rfl, holds,
      rfl, history, sameArena, granted⟩
    rwa [List.append_nil]
  | cons action actions inductionHypothesis =>
    obtain ⟨positive, heightBound⟩ := heights action List.mem_cons_self
    have budget : mem.table.searchBudget ≤ fuel := by
      obtain ⟨levels, keyAt, rep, -⟩ := holds
      exact (Nat.mul_le_mul rep.heightBound (Nat.le_add_right _ _)).trans enough
    obtain ⟨table, inserted, holdsTable⟩ :=
      SkipList.insert_holds holds order action.call.entry positive heightBound
    have added : mem.add action.call action.height = some { mem with table } := by
      simp [MemTable.add, inserted]
    obtain ⟨next, place', node, stepped, storesNext, kept, -, later, sameLater, grantedLater⟩ :=
      stores.add (fits action List.mem_cons_self) positive heightBound sameArena granted budget
        added
    have size := Shows.length_nodes_insert inserted
    obtain ⟨final, after, finalPlace, more, ran, addedAll, storesFinal, keeps, length, bytes,
        aligned, holdsFinal, sameUser, grantedRest⟩ :=
      @inductionHypothesis next { mem with table } _ _ storesNext _ order holdsTable
      (fun a member => fits a (List.mem_cons_of_mem _ member))
      (fun a member => heights a (List.mem_cons_of_mem _ member)) _ sameLater grantedLater
      (by simpa only [size, List.length_cons, Nat.add_assoc, Nat.add_comm 1] using enough)
    refine ⟨final, after, finalPlace,
      regionsOf action (bufferOf stored action) node ++ more,
      Machine.run_cons_eq_some.mpr ⟨next, stepped, ran⟩, ?_, ?_,
      kept.trans fun r earlier => keeps r (List.mem_append_left _ earlier), ?_, ?_, ?_,
      holdsFinal, sameUser, grantedRest⟩
    · rw [List.map_cons, MemTable.addAll, List.foldlM_cons]
      exact Option.bind_eq_some_iff.mpr ⟨_, added, addedAll⟩
    · rw [← List.append_assoc]
      exact storesFinal
    · simp only at length size
      rw [length, size, List.length_cons]
      omega
    · simp only [Arena.bytesOf, bytesFor, regionsOf, List.map_append, List.sum_append,
        List.map_cons, List.sum_cons, List.map_nil, List.sum_nil] at bytes ⊢
      omega
    · have both : (regionsOf action (bufferOf stored action) node).countP
          Arena.Returned.aligned = 1 := rfl
      rw [Arena.alignedIn, List.countP_append, both, ← Arena.alignedIn, aligned, List.length_cons,
        Nat.add_comm]

/-! ### The memtable in memory -/

/-- What the memtable asks its arena for: its head, and then what the `Add` calls need. -/
def allRequests (fresh : Nat) (actions : List AddAt) : List Arena.Request :=
  nodeRequest kMaxHeight fresh :: requestsOf actions

section Whole

variable {user : Comparator} {fresh : Nat} {actions : List AddAt} {rest : List Arena.Request}

/-- A new memtable in memory, whatever the memory held before. -/
theorem new_stores (user : Comparator) (memory : Memory)
    (granted : Machine.Meets Arena.step Granted ⟨Arena.new, []⟩
      (nodeRequest kMaxHeight fresh :: rest)) :
    ∃ place region, Stores (new user memory fresh) (MemTable.new user) place [⟨region, true⟩] ∧
      region.size = 8 * (kMaxHeight + 1) ∧
      ∃ history : Arena.History, history.arena = (new user memory fresh).table.arena ∧
        Machine.Meets Arena.step Granted history rest := by
  obtain ⟨⟨⟨-, bounded, separate⟩, placed⟩, later⟩ := granted
  obtain ⟨place, region, shown, size, arena⟩ :=
    new_shows IsEntry memory Arena.new_consistent separate placed
  have sized := @Arena.Sized.serve _ _ (nodeRequest kMaxHeight fresh) Arena.new_sized bounded
    region.base
  refine ⟨place, region, ⟨rfl, shown, ?_⟩, size, _, arena.symm, later _ rfl⟩
  have same : (⟨⟨region.base, (nodeRequest kMaxHeight fresh).bytes⟩, true⟩ : Arena.Returned) =
      ⟨region, true⟩ := by
    rw [bytes_nodeRequest (by decide), ← size]
  rw [show (nodeRequest kMaxHeight fresh).aligned = true from rfl, same] at sized
  rw [show (new user memory fresh).table.arena = _ from arena]
  exact sized

/-- A new memtable in memory and any `Add` calls on it. -/
theorem run_stores (order : WeakOrder (SkipList.Lt (keyCompare user))) (memory : Memory)
    (fits : ∀ action ∈ actions, action.call.Fits)
    (heights : ∀ action ∈ actions, 1 ≤ action.height ∧ action.height ≤ kMaxHeight)
    (granted : Machine.Meets Arena.step Granted ⟨Arena.new, []⟩
      (allRequests fresh actions ++ rest)) {fuel : Nat}
    (enough : kMaxHeight * (actions.length + 1) ≤ fuel) :
    ∃ stored mem place returned keys,
      Machine.run (add fuel) (new user memory fresh) actions = some stored ∧
      (MemTable.new user).addAll (actions.map addOf) = some mem ∧
      Stores stored mem place returned ∧ mem.userComparator = user ∧
      mem.table.nodes.length = actions.length + 1 ∧
      SkipList.Holds (keyCompare mem.userComparator) mem.table keys ∧
      Arena.bytesOf returned = 8 * (kMaxHeight + 1) + bytesFor actions ∧
      Arena.alignedIn returned = actions.length + 1 ∧
      ∃ history : Arena.History, history.arena = stored.table.arena ∧
        Machine.Meets Arena.step Granted history rest := by
  obtain ⟨place, region, stores, size, history, sameArena, grantedAdds⟩ :=
    new_stores user memory granted
  have budget : kMaxHeight * ((MemTable.new user).table.nodes.length + actions.length) ≤ fuel := by
    rw [Nat.add_comm]
    exact enough
  obtain ⟨stored, mem, finalPlace, more, ran, added, storesFinal, -, length, bytes, aligned, holds,
      sameUser, later⟩ := stores.run order
    (SkipList.new_holds _) fits heights sameArena grantedAdds budget
  refine ⟨stored, mem, finalPlace, _, _, ran, added, storesFinal, sameUser, ?_, holds, ?_, ?_,
    later⟩
  · rw [length]
    exact Nat.add_comm 1 _
  · rw [List.singleton_append, Arena.bytesOf, List.map_cons, List.sum_cons, ← Arena.bytesOf, bytes,
      size]
  · rw [List.singleton_append, Arena.alignedIn, List.countP_cons, ← Arena.alignedIn, aligned]
    rfl

/-- The fuel is enough for any search of a memtable with so many nodes. -/
theorem searchBudget_le {mem : MemTable} {keys : List Bytes} {fuel count : Nat}
    (holds : SkipList.Holds (keyCompare mem.userComparator) mem.table keys)
    (length : mem.table.nodes.length = count) (enough : kMaxHeight * count ≤ fuel) :
    mem.table.searchBudget ≤ fuel := by
  obtain ⟨levels, keyAt, rep, -⟩ := holds
  rw [SkipList.searchBudget, length]
  exact (Nat.mul_le_mul_right _ rep.heightBound).trans enough

end Whole

/-- Two versions of a key in one block. -/
def twoVersions : List AddAt :=
  [⟨⟨2, .kTypeDeletion, [97], []⟩, 1, 0, 0⟩, ⟨⟨1, .kTypeValue, [97], [98]⟩, 2, 0, 0⟩]

/-- One block has room for both. -/
theorem twoVersions_granted :
    Machine.Meets Arena.step Granted ⟨Arena.new, []⟩ (allRequests 4096 twoVersions) := by
  have requests : allRequests 4096 twoVersions =
      [⟨true, 104, 4096⟩, ⟨false, 11, 0⟩, ⟨true, 16, 0⟩, ⟨false, 12, 0⟩, ⟨true, 24, 0⟩] := by
    have oneByte : ∀ n < 128, varintLength n = 1 := fun n small => by
      rw [varintLength_eq (by omega), encodeVarint32_of_lt small]
      rfl
    simp [allRequests, requestsOf, twoVersions, entryRequest, nodeRequest, AddCall.encodedLen,
      oneByte, kMaxHeight, sizeofNode, sizeofLink]
  rw [requests]
  decide

/-- The sizes of both fit. -/
theorem twoVersions_fits : ∀ action ∈ twoVersions, action.call.Fits := by
  intro action member
  simp only [twoVersions, List.mem_cons, List.not_mem_nil, or_false] at member
  rcases member with rfl | rfl <;> constructor <;> decide

/-- An entry is never moved or written to again: after any later `Add` calls it still is where it
was put. -/
theorem entries_stay (user : Comparator)
    (order : WeakOrder (SkipList.Lt (keyCompare user))) (memory : Memory) (fresh : Nat)
    (earlier : List AddAt) (action : AddAt) (later : List AddAt)
    (fits : ∀ a ∈ earlier ++ action :: later, a.call.Fits)
    (heights : ∀ a ∈ earlier ++ action :: later, 1 ≤ a.height ∧ a.height ≤ kMaxHeight)
    (granted : Machine.Meets Arena.step Granted ⟨Arena.new, []⟩
      (allRequests fresh (earlier ++ action :: later)))
    (fuel : Nat) (enough : kMaxHeight * ((earlier ++ action :: later).length + 1) ≤ fuel) :
    ∃ before stored, Machine.run (add fuel) (new user memory fresh) earlier = some before ∧
      Machine.run (add fuel) before (action :: later) = some stored ∧
      Holds stored.table.memory (bufferOf before action) action.call.entry := by
  have split : allRequests fresh (earlier ++ action :: later) =
      allRequests fresh earlier ++ (entryRequest action ::
        nodeRequest action.height action.freshNode :: (requestsOf later ++ [])) := by
    simp [allRequests, requestsOf]
  rw [split] at granted
  rw [List.length_append, List.length_cons] at enough
  have all : kMaxHeight * (earlier.length + (later.length + 1) + 1) ≤ fuel := enough
  obtain ⟨before, mem, place, returned, keys, ranEarlier, -, stores, rfl, length, holds, -, -,
      history, sameArena, grantedAdd⟩ :=
    run_stores order memory (fun a member => fits a (List.mem_append_left _ member))
      (fun a member => heights a (List.mem_append_left _ member)) granted
      ((Nat.mul_le_mul_left _ (by omega)).trans all)
  have member : action ∈ earlier ++ action :: later :=
    List.mem_append_right _ List.mem_cons_self
  obtain ⟨positive, heightBound⟩ := heights action member
  obtain ⟨table, inserted, holdsTable⟩ :=
    SkipList.insert_holds holds order action.call.entry positive heightBound
  have added : mem.add action.call action.height = some { mem with table } := by
    simp [MemTable.add, inserted]
  obtain ⟨next, place', node, stepped, storesNext, -, held, afterAdd, sameAfter, grantedLater⟩ :=
    stores.add (fits action member) positive heightBound sameArena grantedAdd
      (searchBudget_le holds length ((Nat.mul_le_mul_left _ (by omega)).trans all)) added
  have size := Shows.length_nodes_insert inserted
  obtain ⟨stored, -, -, -, ranLater, -, -, keeps, -⟩ := storesNext.run order holdsTable
    (fun a later => fits a (List.mem_append_right _ (List.mem_cons_of_mem _ later)))
    (fun a later => heights a (List.mem_append_right _ (List.mem_cons_of_mem _ later))) sameAfter
    grantedLater ((Nat.mul_le_mul_left _ (by simp only [size, length]; omega)).trans all)
  refine ⟨before, stored, ranEarlier, Machine.run_cons_eq_some.mpr ⟨next, stepped, ranLater⟩, ?_⟩
  have filled := AddCall.length_entry (fits action member)
  exact held.congr fun a low high =>
    keeps ⟨⟨bufferOf before action, action.call.encodedLen⟩, false⟩
      (List.mem_append_right _ List.mem_cons_self) rfl a low (by rwa [filled] at high)

/-- The entry of the first version after the second one has been added. -/
theorem entries_stay_first_version :
    ∃ before stored, Machine.run (add 36)
        (new bytewiseComparator (fun _ => 255) 4096) [] = some before ∧
      Machine.run (add 36) before twoVersions = some stored ∧
      Holds stored.table.memory (bufferOf before ⟨⟨2, .kTypeDeletion, [97], []⟩, 1, 0, 0⟩)
        [9, 97, 0, 2, 0, 0, 0, 0, 0, 0, 0] :=
  entries_stay bytewiseComparator MemTable.keyCompare_bytewise_weakOrder
    (fun _ => 255) 4096 [] ⟨⟨2, .kTypeDeletion, [97], []⟩, 1, 0, 0⟩
    [⟨⟨1, .kTypeValue, [97], [98]⟩, 2, 0, 0⟩] twoVersions_fits (by decide) twoVersions_granted 36
    (by decide)

/-- What `ApproximateMemoryUsage` reports covers what the entries and nodes take, and is not much
more than a third larger, but for one block. -/
theorem memory_usage_close (user : Comparator)
    (order : WeakOrder (SkipList.Lt (keyCompare user))) (memory : Memory) (fresh : Nat)
    (actions : List AddAt) (fits : ∀ action ∈ actions, action.call.Fits)
    (heights : ∀ action ∈ actions, 1 ≤ action.height ∧ action.height ≤ kMaxHeight)
    (granted : Machine.Meets Arena.step Granted ⟨Arena.new, []⟩ (allRequests fresh actions))
    (fuel : Nat) (enough : kMaxHeight * (actions.length + 1) ≤ fuel) :
    ∃ stored, Machine.run (add fuel) (new user memory fresh) actions = some stored ∧
      ∃ usage, stored.approximateMemoryUsage = truncU64 usage ∧
        8 * (kMaxHeight + 1) + bytesFor actions ≤ usage ∧
        3060 * usage ≤ 4096 * (8 * (kMaxHeight + 1) + bytesFor actions +
          7 * (actions.length + 1) + kArenaBlockSize) := by
  rw [← List.append_nil (allRequests fresh actions)] at granted
  obtain ⟨stored, mem, place, returned, keys, ran, -, stores, -, -, -, bytes, aligned, -⟩ :=
    run_stores order memory fits heights granted enough
  obtain ⟨rest, holds, paid⟩ := stores.sized
  exact ⟨stored, ran, _, stores.shows_.consistent.usage, by omega, by omega⟩

/-- Two entries of 11 and 12 bytes and their nodes. -/
theorem memory_usage_close_two_versions :
    ∃ stored, Machine.run (add 36) (new bytewiseComparator (fun _ => 255) 4096)
        twoVersions = some stored ∧
      ∃ usage, stored.approximateMemoryUsage = truncU64 usage ∧
        8 * (kMaxHeight + 1) + bytesFor twoVersions ≤ usage ∧
        3060 * usage ≤ 4096 * (8 * (kMaxHeight + 1) + bytesFor twoVersions +
          7 * (twoVersions.length + 1) + kArenaBlockSize) :=
  memory_usage_close bytewiseComparator MemTable.keyCompare_bytewise_weakOrder
    (fun _ => 255) 4096 twoVersions twoVersions_fits (by decide) twoVersions_granted 36 (by decide)

end StoredMemTable

end LevelDbXy
