import LevelDbXy.Cache.HandleTableInsert
import LevelDbXy.Cache.Memory

/-!
# What a cache contains

`Contents` is the state of a cache without pointers: the entries ever inserted, the two
lists in order, and the handles that callers hold. An entry has a reference for each of its
handles and one for being on a list. The operations are those of the cache.
-/

namespace LevelDbXy

/-- The inserted entries, the two lists, and the outstanding handles. -/
structure Contents (Value Deleter : Type) where
  capacity : Nat
  entries : List (Entry Value Deleter)
  lru : List Nat
  inUse : List Nat
  handles : List Nat

namespace Contents

variable {Value Deleter : Type}

/-- The contents of a new cache. -/
def new (capacity : Nat) : Contents Value Deleter :=
  { capacity, entries := [], lru := [], inUse := [], handles := [] }

variable (contents : Contents Value Deleter)

/-- The cached entries. -/
def cached : List Nat := contents.lru ++ contents.inUse

/-- The references of an entry. -/
def refs (id : Nat) : Nat := contents.handles.count id + if id ∈ contents.cached then 1 else 0

/-- The entry was inserted with this key and hash. -/
def named (key : Bytes) (hash : Nat) (id : Nat) : Bool :=
  contents.entries[id]?.any fun entry => decide (entry.hash = hash ∧ entry.key = key)

/-- The cached entry with this key and hash. -/
def find (key : Bytes) (hash : Nat) : Option Nat := contents.cached.find? (contents.named key hash)

/-- The total charge, in `uint64_t`. -/
def usage : Nat := LRUCache.totalCharge contents.entries contents.cached % 2 ^ 64

/-- Take an entry out of the cache, if there is one to be taken out. -/
def drop (removed : Option Nat) : Contents Value Deleter :=
  { contents with
    lru := LRUCache.without contents.lru removed
    inUse := LRUCache.without contents.inUse removed }

/-- Hand out a handle on a cached entry. -/
def pin (id : Nat) : Contents Value Deleter :=
  { contents with
    lru := contents.lru.erase id
    inUse := if id ∈ contents.lru then contents.inUse ++ [id] else contents.inUse
    handles := id :: contents.handles }

/-- Take a handle back. -/
def unpin (id : Nat) : Contents Value Deleter :=
  if id ∈ contents.inUse ∧ contents.handles.count id = 1 then
    { contents with
      lru := contents.lru ++ [id]
      inUse := contents.inUse.erase id
      handles := contents.handles.erase id }
  else { contents with handles := contents.handles.erase id }

/-- Take entries out of the cache from the front of `lru_`, which is the given list. -/
def evictFrom (more : Contents Value Deleter → Bool) :
    List Nat → Contents Value Deleter → Contents Value Deleter
  | [], contents => contents
  | id :: rest, contents =>
    if more contents then evictFrom more rest (contents.drop (some id)) else contents

/-- The loops of `Insert` and `Prune`. -/
def evict (more : Contents Value Deleter → Bool) : Contents Value Deleter :=
  evictFrom more contents.lru contents

/-- A new entry with a handle on it. -/
def allocate (entry : Entry Value Deleter) : Contents Value Deleter :=
  { contents with
    entries := contents.entries ++ [entry]
    handles := contents.entries.length :: contents.handles }

/-- Put an entry at the end of `in_use_`. -/
def append (id : Nat) : Contents Value Deleter :=
  { contents with inUse := contents.inUse ++ [id] }

/-- Cache an entry in place of the one with the same key and hash. -/
def cacheNew (id : Nat) (entry : Entry Value Deleter) : Contents Value Deleter :=
  (contents.append id).drop (contents.find entry.key entry.hash)

/-- `Insert`. -/
def insert (entry : Entry Value Deleter) : Contents Value Deleter :=
  let allocated := contents.allocate entry
  evict (if 0 < contents.capacity then allocated.cacheNew contents.entries.length entry
    else allocated)
    fun contents => decide (contents.capacity < contents.usage)

/-- `Lookup`. -/
def lookup (key : Bytes) (hash : Nat) : Contents Value Deleter :=
  match contents.find key hash with
  | none => contents
  | some id => contents.pin id

/-- `Erase`. -/
def erase (key : Bytes) (hash : Nat) : Contents Value Deleter :=
  contents.drop (contents.find key hash)

/-- `Prune`. -/
def prune : Contents Value Deleter := contents.evict fun _ => true

/-! ### References -/

variable {contents} {id : Nat}

/-- Handing out a handle moves an entry from one list to the other. -/
theorem cached_pin (contents : Contents Value Deleter) (id : Nat) :
    (contents.pin id).cached.Perm contents.cached := by
  unfold pin cached
  by_cases inLru : id ∈ contents.lru
  · simp only [inLru, if_true]
    refine List.Perm.symm (((List.perm_cons_erase inLru).append_right contents.inUse).trans ?_)
    rw [← List.append_assoc]
    exact @List.perm_append_comm _ [id] (contents.lru.erase id ++ contents.inUse)
  · simp only [inLru, if_false, List.erase_of_not_mem inLru]
    exact List.Perm.refl _

/-- Taking a handle back may move an entry from one list to the other. -/
theorem cached_unpin (contents : Contents Value Deleter) (id : Nat) :
    (contents.unpin id).cached.Perm contents.cached := by
  unfold unpin
  split_ifs with moves
  · simp only [cached, List.append_assoc]
    exact ((List.perm_cons_erase moves.1).append_left contents.lru).symm
  · exact List.Perm.refl _

@[simp] theorem handles_pin (contents : Contents Value Deleter) (id : Nat) :
    (contents.pin id).handles = id :: contents.handles := rfl

@[simp] theorem handles_drop (contents : Contents Value Deleter) (removed : Option Nat) :
    (contents.drop removed).handles = contents.handles := rfl

@[simp] theorem handles_allocate (contents : Contents Value Deleter) (entry : Entry Value Deleter) :
    (contents.allocate entry).handles = contents.entries.length :: contents.handles := rfl

@[simp] theorem cached_allocate (contents : Contents Value Deleter) (entry : Entry Value Deleter) :
    (contents.allocate entry).cached = contents.cached := rfl

@[simp] theorem handles_unpin (contents : Contents Value Deleter) (id : Nat) :
    (contents.unpin id).handles = contents.handles.erase id := by
  unfold unpin
  split_ifs <;> rfl

@[simp] theorem entries_unpin (contents : Contents Value Deleter) (id : Nat) :
    (contents.unpin id).entries = contents.entries := by
  unfold unpin
  split_ifs <;> rfl

@[simp] theorem capacity_unpin (contents : Contents Value Deleter) (id : Nat) :
    (contents.unpin id).capacity = contents.capacity := by
  unfold unpin
  split_ifs <;> rfl

/-- A handle more is a reference more. -/
theorem refs_pin (contents : Contents Value Deleter) (id : Nat) :
    (contents.pin id).refs = Function.update contents.refs id (contents.refs id + 1) := by
  funext other
  have sameCached := (contents.cached_pin id).mem_iff (a := other)
  by_cases same : other = id
  · subst same
    simp only [Function.update_self, refs, sameCached, handles_pin, List.count_cons_self]
    omega
  · rw [Function.update_of_ne same]
    simp [refs, sameCached, List.count_cons_of_ne (Ne.symm same)]

/-- A handle less is a reference less. -/
theorem refs_unpin (member : id ∈ contents.handles) :
    (contents.unpin id).refs = Function.update contents.refs id (contents.refs id - 1) := by
  funext other
  have sameCached := (contents.cached_unpin id).mem_iff (a := other)
  have held : 0 < contents.handles.count id := List.count_pos_iff.mpr member
  by_cases same : other = id
  · subst same
    simp only [Function.update_self, refs, sameCached, handles_unpin, List.count_erase_self]
    omega
  · rw [Function.update_of_ne same]
    simp [refs, sameCached, List.count_erase_of_ne same]

/-- What is put into the cache is in it. -/
theorem cached_append (contents : Contents Value Deleter) (id : Nat) :
    (contents.append id).cached.Perm (id :: contents.cached) := by
  rw [cached, append, ← List.append_assoc]
  exact List.perm_append_comm

/-- The cache itself is a reference. -/
theorem refs_append (notCached : id ∉ contents.cached) :
    (contents.append id).refs = Function.update contents.refs id (contents.refs id + 1) := by
  funext other
  have member := (contents.cached_append id).mem_iff (a := other)
  by_cases same : other = id
  · subst same
    simp only [List.mem_cons, true_or, iff_true] at member
    rw [Function.update_self, refs, refs, if_pos member, if_neg notCached]
    rfl
  · simp only [List.mem_cons, same, false_or] at member
    rw [Function.update_of_ne same]
    simp only [refs, member]
    rfl

/-- What is dropped is no longer cached, and everything else is. -/
theorem mem_cached_drop (distinct : contents.cached.Nodup) {removed : Option Nat} {other : Nat} :
    other ∈ (contents.drop removed).cached ↔ other ∈ contents.cached ∧ removed ≠ some other := by
  obtain ⟨lruDistinct, inUseDistinct, -⟩ := List.nodup_append.mp distinct
  simp only [cached, drop, List.mem_append, LRUCache.mem_without lruDistinct,
    LRUCache.mem_without inUseDistinct]
  tauto

/-- To drop an entry adds none. -/
theorem cached_drop_sublist (contents : Contents Value Deleter) (removed : Option Nat) :
    (contents.drop removed).cached.Sublist contents.cached := by
  cases removed with
  | none => exact List.Sublist.refl _
  | some id => exact List.erase_sublist.append List.erase_sublist

/-- No entry is cached twice after one is dropped. -/
theorem nodup_cached_drop (distinct : contents.cached.Nodup) (removed : Option Nat) :
    (contents.drop removed).cached.Nodup :=
  distinct.sublist (contents.cached_drop_sublist removed)

/-- What is left in the cache when an entry is taken out. -/
theorem without_perm_cached_drop (distinct : contents.cached.Nodup) (removed : Option Nat) :
    (LRUCache.without contents.cached removed).Perm (contents.drop removed).cached := by
  rw [List.perm_ext_iff_of_nodup (LRUCache.nodup_without distinct removed)
    (nodup_cached_drop distinct removed)]
  intro other
  rw [LRUCache.mem_without distinct, mem_cached_drop distinct]

/-- The reference of the cache is gone with the entry. -/
theorem refs_drop (distinct : contents.cached.Nodup) (listed : id ∈ contents.cached) :
    (contents.drop (some id)).refs = Function.update contents.refs id (contents.refs id - 1) := by
  funext other
  have kept := @mem_cached_drop _ _ contents distinct (some id) other
  by_cases same : other = id
  · subst same
    simp only [ne_eq, not_true_eq_false, and_false, iff_false] at kept
    simp [refs, kept, listed]
  · simp only [ne_eq, Option.some.injEq, Ne.symm same, not_false_eq_true, and_true] at kept
    rw [Function.update_of_ne same]
    simp [refs, kept]

end Contents

end LevelDbXy
