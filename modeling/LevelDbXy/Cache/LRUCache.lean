import LevelDbXy.DataStructure.Slice
import Mathlib.Logic.Function.Basic

/-!
# One shard of the cache

`LRUCache`, `HandleTable` and `LRUHandle` of `cache/cache.cpp`. An entry is allocated under
a number that is never used again, and the memory of the entries is a function of that
number; a freed entry is absent. The pointers `next` and `prev` of the entries and of
the two list heads `lru_` and `in_use_`, and the pointers `next_hash` of the entries, are
functions of their own. A null pointer is `none`.

An operation has no result if it follows a null or dangling pointer, fails an assertion, or
does not end; the theorems show that none of this happens.
-/

namespace LevelDbXy

/-- The address of a list head or of an entry. -/
inductive HandlePtr where
  | lru
  | inUse
  | entry (id : Nat)
  deriving DecidableEq, Repr

/-- `LRUHandle` without its pointers; `key` stands for `key_length` and `key_data`. -/
structure LRUHandle (Value Deleter : Type) where
  value : Value
  deleter : Deleter
  charge : Nat
  key : Bytes
  inCache : Bool
  refs : Nat
  hash : Nat

/-- `HandleTable`. -/
structure HandleTable where
  length : Nat
  elems : Nat
  list : List (Option Nat)

/-- The call of an entry's deleter. -/
structure Deletion (Value Deleter : Type) where
  id : Nat
  deleter : Deleter
  key : Bytes
  value : Value
  deriving DecidableEq

/-- `LRUCache`, the memory of its entries, and the deleter calls so far. -/
structure LRUCache (Value Deleter : Type) where
  capacity : Nat
  usage : Nat
  table : HandleTable
  heap : Nat → Option (LRUHandle Value Deleter)
  next : HandlePtr → Option HandlePtr
  prev : HandlePtr → Option HandlePtr
  nextHash : Nat → Option Nat
  /-- The number of the next entry to be allocated. -/
  fresh : Nat
  deletions : List (Deletion Value Deleter)

namespace LRUCache

variable {Value Deleter : Type}

/-- Overwrite fields of an entry. -/
def modify (cache : LRUCache Value Deleter) (id : Nat) (handle : LRUHandle Value Deleter) :
    LRUCache Value Deleter :=
  { cache with heap := Function.update cache.heap id (some handle) }

/-- `LRUHandle::key` with its assertion. -/
def keyOf (cache : LRUCache Value Deleter) (id : Nat) : Option Bytes := do
  let handle ← cache.heap id
  if cache.next (.entry id) = some (.entry id) then none else some handle.key

/-! ### The two lists -/

/-- The address is that of a list head or of an allocated entry. -/
def valid (cache : LRUCache Value Deleter) : HandlePtr → Bool
  | .entry id => (cache.heap id).isSome
  | _ => true

/-- `p->next`, which is then followed. -/
def getNext (cache : LRUCache Value Deleter) (p : HandlePtr) : Option HandlePtr :=
  if cache.valid p then cache.next p else none

/-- `p->prev`, which is then followed. -/
def getPrev (cache : LRUCache Value Deleter) (p : HandlePtr) : Option HandlePtr :=
  if cache.valid p then cache.prev p else none

/-- `p->next = q`. -/
def setNext (cache : LRUCache Value Deleter) (p : HandlePtr) (q : Option HandlePtr) :
    Option (LRUCache Value Deleter) :=
  if cache.valid p then some { cache with next := Function.update cache.next p q } else none

/-- `p->prev = q`. -/
def setPrev (cache : LRUCache Value Deleter) (p : HandlePtr) (q : Option HandlePtr) :
    Option (LRUCache Value Deleter) :=
  if cache.valid p then some { cache with prev := Function.update cache.prev p q } else none

/-- `LRU_Remove`. -/
def lruRemove (cache : LRUCache Value Deleter) (e : HandlePtr) :
    Option (LRUCache Value Deleter) := do
  let next ← cache.getNext e
  let cache ← cache.setPrev next (cache.prev e)
  let prev ← cache.getPrev e
  cache.setNext prev (cache.next e)

/-- `LRU_Append`. -/
def lruAppend (cache : LRUCache Value Deleter) (list e : HandlePtr) :
    Option (LRUCache Value Deleter) := do
  let cache ← cache.setNext e (some list)
  let cache ← cache.setPrev e (cache.prev list)
  let prev ← cache.getPrev e
  let cache ← cache.setNext prev (some e)
  let next ← cache.getNext e
  cache.setPrev next (some e)

/-! ### The hash table -/

/-- What a pointer to a pointer in the table points to: a bucket or an entry's
`next_hash`. -/
inductive Slot where
  | bucket (index : Nat)
  | nextHash (id : Nat)
  deriving DecidableEq, Repr

/-- `*ptr`. -/
def readSlot (cache : LRUCache Value Deleter) : Slot → Option (Option Nat)
  | .bucket index => cache.table.list[index]?
  | .nextHash id => if (cache.heap id).isSome then some (cache.nextHash id) else none

/-- `*ptr = target`, for a slot that has been read. -/
def writeSlot (cache : LRUCache Value Deleter) (slot : Slot) (target : Option Nat) :
    LRUCache Value Deleter :=
  match slot with
  | .bucket index => { cache with
      table := { cache.table with list := cache.table.list.set index target } }
  | .nextHash id => { cache with nextHash := Function.update cache.nextHash id target }

/-- The loop of `FindPointer`. The key of an entry is only read when its hash agrees. -/
def findPointerLoop (cache : LRUCache Value Deleter) (key : Bytes) (hash : Nat) :
    Nat → Slot → Option Slot
  | 0, _ => none
  | fuel + 1, slot => do
    let target ← cache.readSlot slot
    match target with
    | none => some slot
    | some id =>
      let handle ← cache.heap id
      if handle.hash ≠ hash then cache.findPointerLoop key hash fuel (.nextHash id)
      else
        let entryKey ← cache.keyOf id
        if Slice.equal key entryKey = false then cache.findPointerLoop key hash fuel (.nextHash id)
        else some slot

/-- `FindPointer`. A chain has no more entries than were ever allocated. -/
def findPointer (cache : LRUCache Value Deleter) (key : Bytes) (hash : Nat) : Option Slot :=
  cache.findPointerLoop key hash (cache.fresh + 1) (.bucket (hash &&& (cache.table.length - 1)))

/-- `HandleTable::Lookup`. -/
def tableLookup (cache : LRUCache Value Deleter) (key : Bytes) (hash : Nat) :
    Option (Option Nat) := do
  let slot ← cache.findPointer key hash
  cache.readSlot slot

/-- The doubling loop of `Resize`, in `uint32_t`. -/
def growLength (elems : Nat) : Nat → Nat → Option Nat
  | 0, _ => none
  | fuel + 1, newLength =>
    if newLength < elems then growLength elems fuel (newLength * 2 % 2 ^ 32) else some newLength

/-- What `Resize` has moved so far: `next_hash` of the entries, the new buckets and the
count. -/
structure Moved where
  nextHash : Nat → Option Nat
  list : List (Option Nat)
  count : Nat

/-- The inner loop of `Resize`, which moves the entries of a chain. -/
def moveChain (cache : LRUCache Value Deleter) (newLength : Nat) :
    Nat → Option Nat → Moved → Option Moved
  | _, none, moved => some moved
  | 0, some _, _ => none
  | fuel + 1, some id, moved => do
    let handle ← cache.heap id
    let next := moved.nextHash id
    let index := handle.hash &&& (newLength - 1)
    let front ← moved.list[index]?
    cache.moveChain newLength fuel next
      { nextHash := Function.update moved.nextHash id front
        list := moved.list.set index (some id)
        count := (moved.count + 1) % 2 ^ 32 }

/-- `HandleTable::Resize`. -/
def resize (cache : LRUCache Value Deleter) : Option (LRUCache Value Deleter) := do
  let newLength ← growLength cache.table.elems 32 4
  let moved ← (List.range cache.table.length).foldlM
    (fun moved i => do
      let head ← cache.table.list[i]?
      cache.moveChain newLength (cache.fresh + 1) head moved)
    { nextHash := cache.nextHash, list := List.replicate newLength none, count := 0 }
  if cache.table.elems = moved.count then
    some { cache with
      nextHash := moved.nextHash
      table := { length := newLength, elems := cache.table.elems, list := moved.list } }
  else none

/-- `HandleTable::Insert`: the entry that was replaced, if any. -/
def tableInsert (cache : LRUCache Value Deleter) (id : Nat) :
    Option (LRUCache Value Deleter × Option Nat) := do
  let handle ← cache.heap id
  let key ← cache.keyOf id
  let slot ← cache.findPointer key handle.hash
  let old ← cache.readSlot slot
  let cache := cache.writeSlot (.nextHash id) (old.bind cache.nextHash)
  let cache := cache.writeSlot slot (some id)
  if old = none then
    let elems := (cache.table.elems + 1) % 2 ^ 32
    let cache := { cache with table := { cache.table with elems } }
    if cache.table.length < elems then
      let cache ← cache.resize
      some (cache, old)
    else some (cache, old)
  else some (cache, old)

/-- `HandleTable::Remove`: the entry that was removed, if any. -/
def tableRemove (cache : LRUCache Value Deleter) (key : Bytes) (hash : Nat) :
    Option (LRUCache Value Deleter × Option Nat) := do
  let slot ← cache.findPointer key hash
  let result ← cache.readSlot slot
  match result with
  | none => some (cache, none)
  | some id =>
    let cache := cache.writeSlot slot (cache.nextHash id)
    let elems := (cache.table.elems + 2 ^ 32 - 1) % 2 ^ 32
    some ({ cache with table := { cache.table with elems } }, some id)

/-! ### References -/

/-- `Ref`. -/
def ref (cache : LRUCache Value Deleter) (id : Nat) : Option (LRUCache Value Deleter) := do
  let handle ← cache.heap id
  let cache ←
    if handle.refs = 1 ∧ handle.inCache = true then do
      let cache ← cache.lruRemove (.entry id)
      cache.lruAppend .inUse (.entry id)
    else some cache
  some (cache.modify id { handle with refs := (handle.refs + 1) % 2 ^ 32 })

/-- The deleter is called and the entry freed. -/
def free (cache : LRUCache Value Deleter) (id : Nat) (handle : LRUHandle Value Deleter)
    (key : Bytes) : LRUCache Value Deleter :=
  { cache with
    heap := Function.update cache.heap id none
    deletions := cache.deletions ++ [⟨id, handle.deleter, key, handle.value⟩] }

/-- `Unref`. -/
def unref (cache : LRUCache Value Deleter) (id : Nat) : Option (LRUCache Value Deleter) := do
  let handle ← cache.heap id
  if handle.refs = 0 then none
  else
    let handle := { handle with refs := handle.refs - 1 }
    let cache := cache.modify id handle
    if handle.refs = 0 then
      if handle.inCache then none
      else
        let key ← cache.keyOf id
        some (cache.free id handle key)
    else if handle.inCache = true ∧ handle.refs = 1 then
      let cache ← cache.lruRemove (.entry id)
      cache.lruAppend .lru (.entry id)
    else some cache

/-- `FinishErase`. -/
def finishErase (cache : LRUCache Value Deleter) : Option Nat → Option (LRUCache Value Deleter)
  | none => some cache
  | some id => do
    let handle ← cache.heap id
    if handle.inCache = false then none
    else
      let cache ← cache.lruRemove (.entry id)
      let cache := cache.modify id { handle with inCache := false }
      let usage := (cache.usage + (2 ^ 64 - handle.charge % 2 ^ 64)) % 2 ^ 64
      let cache := { cache with usage }
      cache.unref id

/-- The loops of `Insert` and `Prune`, which remove the oldest unused entry as long as
there is one and `more` asks for it. -/
def evictWhile (more : LRUCache Value Deleter → Bool) :
    Nat → LRUCache Value Deleter → Option (LRUCache Value Deleter)
  | 0, _ => none
  | fuel + 1, cache =>
    if more cache = true ∧ cache.next .lru ≠ some .lru then
      match cache.next .lru with
      | some (.entry old) => do
        let handle ← cache.heap old
        if handle.refs = 1 then
          let key ← cache.keyOf old
          let (cache, removed) ← cache.tableRemove key handle.hash
          let cache ← cache.finishErase removed
          evictWhile more fuel cache
        else none
      | _ => none
    else some cache

/-! ### The operations -/

/-- `LRUCache::LRUCache`, with `HandleTable::HandleTable`, and `SetCapacity`. -/
def new (capacity : Nat) : Option (LRUCache Value Deleter) :=
  resize
    { capacity
      usage := 0
      table := { length := 0, elems := 0, list := [] }
      heap := fun _ => none
      next := fun p => match p with | .entry _ => none | head => some head
      prev := fun p => match p with | .entry _ => none | head => some head
      nextHash := fun _ => none
      fresh := 0
      deletions := [] }

/-- `new LRUHandle`: an entry with one reference, for the returned handle, and null
pointers. -/
def allocate (cache : LRUCache Value Deleter) (key : Bytes) (hash : Nat) (value : Value)
    (charge : Nat) (deleter : Deleter) : LRUCache Value Deleter :=
  { cache with
    heap := Function.update cache.heap cache.fresh
      (some { value, deleter, charge, key, inCache := false, refs := 1, hash })
    next := Function.update cache.next (.entry cache.fresh) none
    prev := Function.update cache.prev (.entry cache.fresh) none
    nextHash := Function.update cache.nextHash cache.fresh none
    fresh := cache.fresh + 1 }

/-- The branch of `Insert` that puts a new entry into the cache. -/
def cacheNew (cache : LRUCache Value Deleter) (id : Nat) : Option (LRUCache Value Deleter) := do
  let handle ← cache.heap id
  let cache := cache.modify id { handle with refs := handle.refs + 1, inCache := true }
  let cache ← cache.lruAppend .inUse (.entry id)
  let cache := { cache with usage := (cache.usage + handle.charge) % 2 ^ 64 }
  let (cache, old) ← cache.tableInsert id
  cache.finishErase old

/-- `LRUCache::Insert`: the entry whose handle is returned is the one just allocated. -/
def insert (cache : LRUCache Value Deleter) (key : Bytes) (hash : Nat) (value : Value)
    (charge : Nat) (deleter : Deleter) : Option (LRUCache Value Deleter × Nat) := do
  let id := cache.fresh
  let cache := cache.allocate key hash value charge deleter
  let cache ← if 0 < cache.capacity then cache.cacheNew id else some cache
  let cache ←
    evictWhile (fun cache => decide (cache.capacity < cache.usage)) (cache.fresh + 1) cache
  some (cache, id)

/-- `LRUCache::Lookup`. -/
def lookup (cache : LRUCache Value Deleter) (key : Bytes) (hash : Nat) :
    Option (LRUCache Value Deleter × Option Nat) := do
  let e ← cache.tableLookup key hash
  match e with
  | none => some (cache, none)
  | some id =>
    let cache ← cache.ref id
    some (cache, some id)

/-- `LRUCache::Release`. -/
def release (cache : LRUCache Value Deleter) (id : Nat) : Option (LRUCache Value Deleter) :=
  cache.unref id

/-- `LRUCache::Erase`. -/
def erase (cache : LRUCache Value Deleter) (key : Bytes) (hash : Nat) :
    Option (LRUCache Value Deleter) := do
  let (cache, removed) ← cache.tableRemove key hash
  cache.finishErase removed

/-- `LRUCache::Prune`. -/
def prune (cache : LRUCache Value Deleter) : Option (LRUCache Value Deleter) :=
  evictWhile (fun _ => true) (cache.fresh + 1) cache

/-- The loop of `LRUCache::~LRUCache`. -/
def destroyFrom : Nat → HandlePtr → LRUCache Value Deleter → Option (LRUCache Value Deleter)
  | _, .lru, cache => some cache
  | fuel + 1, .entry id, cache => do
    let handle ← cache.heap id
    let next ← cache.getNext (.entry id)
    if handle.inCache = true ∧ handle.refs = 1 then
      let cache := cache.modify id { handle with inCache := false }
      let cache ← cache.unref id
      destroyFrom fuel next cache
    else none
  | _, _, _ => none

/-- `LRUCache::~LRUCache`. -/
def destroy (cache : LRUCache Value Deleter) : Option (LRUCache Value Deleter) := do
  if cache.next .inUse = some .inUse then
    let first ← cache.next .lru
    destroyFrom cache.fresh first cache
  else none

end LRUCache

end LevelDbXy
