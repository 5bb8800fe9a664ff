import LevelDbXy.Cache.Holds
import LevelDbXy.Library.Machine

/-!
# Callers of a cache

A run is a sequence of calls on a new cache, from any number of callers: the mutex
makes the calls atomic. The callers remember the entries they inserted, the
handles they have not released yet and what the calls returned. They may release only
handles they hold, cache at most 2^31 entries at once and hold fewer than 2^32 - 1
handles on one entry; then every call succeeds, and the cache holds the contents that the
same calls leave behind.
-/

namespace LevelDbXy

/-- A call of the interface of `LRUCache`. -/
inductive CacheCall (Value Deleter : Type) where
  | insert (entry : Entry Value Deleter)
  | lookup (key : Bytes) (hash : Nat)
  | release (id : Nat)
  | erase (key : Bytes) (hash : Nat)
  | prune

/-- A cache, the entries inserted so far, the outstanding handles and the returned ones. -/
structure CacheClient (Value Deleter : Type) where
  cache : LRUCache Value Deleter
  entries : List (Entry Value Deleter)
  handles : List Nat
  results : List (Option Nat)

namespace LRUCache

variable {Value Deleter : Type}

/-- The entry is allocated and `in_cache`. -/
def isCached (cache : LRUCache Value Deleter) (id : Nat) : Bool :=
  (cache.heap id).any LRUHandle.inCache

/-- The entries that are `in_cache`. -/
def cachedIds (cache : LRUCache Value Deleter) : List Nat :=
  (List.range cache.fresh).filter cache.isCached

end LRUCache

namespace CacheClient

variable {Value Deleter : Type}

/-- A new cache that nobody has used. -/
def new (Value Deleter : Type) (capacity : Nat) : Option (CacheClient Value Deleter) := do
  let cache ← LRUCache.new capacity
  some { cache, entries := [], handles := [], results := [] }

/-- A call and what the callers remember of it. -/
def step (client : CacheClient Value Deleter) :
    CacheCall Value Deleter → Option (CacheClient Value Deleter)
  | .insert entry => do
    let (cache, id) ←
      client.cache.insert entry.key entry.hash entry.value entry.charge entry.deleter
    some
      { cache
        entries := client.entries ++ [entry]
        handles := id :: client.handles
        results := client.results ++ [some id] }
  | .lookup key hash => do
    let (cache, found) ← client.cache.lookup key hash
    some { client with
      cache
      handles := found.toList ++ client.handles
      results := client.results ++ [found] }
  | .release id => do
    let cache ← client.cache.release id
    some { client with cache, handles := client.handles.erase id }
  | .erase key hash => do
    let cache ← client.cache.erase key hash
    some { client with cache }
  | .prune => do
    let cache ← client.cache.prune
    some { client with cache }

/-- What callers keep to: an insertion that does not replace an entry finds fewer than 2^31
cached entries, a lookup leaves fewer than 2^32 - 1 handles on the entry it finds, and only
outstanding handles are released. -/
def Allowed (client : CacheClient Value Deleter) : CacheCall Value Deleter → Prop
  | .insert entry => client.cache.capacity = 0 ∨ client.cache.cachedIds.length < 2 ^ 31 ∨
      ∃ id ∈ client.cache.cachedIds, client.cache.Matches entry.key entry.hash id
  | .lookup key hash => ∀ id ∈ client.cache.cachedIds, client.cache.Matches key hash id →
      client.handles.count id + 1 < 2 ^ 32 - 1
  | .release id => id ∈ client.handles
  | _ => True

instance (client : CacheClient Value Deleter) :
    ∀ call, Decidable (client.Allowed call)
  | .insert _ => inferInstanceAs (Decidable (_ ∨ _ ∨ _))
  | .lookup _ _ => inferInstanceAs (Decidable (∀ id ∈ client.cache.cachedIds, _ → _))
  | .release _ => inferInstanceAs (Decidable (_ ∈ _))
  | .erase _ _ => isTrue trivial
  | .prune => isTrue trivial

/-- A run of calls on a new cache. -/
def run (capacity : Nat) (calls : List (CacheCall Value Deleter)) :
    Option (CacheClient Value Deleter) := do
  let client ← new Value Deleter capacity
  Machine.run step client calls

/-- A run of a client begins with a new cache. -/
theorem run_eq_some {capacity : Nat} {calls : List (CacheCall Value Deleter)}
    {final : CacheClient Value Deleter} :
    run capacity calls = some final ↔
      ∃ client, new Value Deleter capacity = some client ∧
        Machine.run step client calls = some final := by
  rw [run]
  exact Option.bind_eq_some_iff

/-- Every call of the run is one that callers keep to. -/
def Keeps (capacity : Nat) (calls : List (CacheCall Value Deleter)) : Prop :=
  ∀ client, new Value Deleter capacity = some client → Machine.Meets step Allowed client calls

instance (capacity : Nat) (calls : List (CacheCall Value Deleter)) :
    Decidable (Keeps capacity calls) :=
  match created : new Value Deleter capacity with
  | none => isTrue (by simp [Keeps, created])
  | some client =>
    decidable_of_iff (Machine.Meets step Allowed client calls) (by simp [Keeps, created])

end CacheClient

namespace Contents

variable {Value Deleter : Type}

/-- The effect of a call. -/
def step (contents : Contents Value Deleter) : CacheCall Value Deleter → Contents Value Deleter
  | .insert entry => contents.insert entry
  | .lookup key hash => contents.lookup key hash
  | .release id => contents.unpin id
  | .erase key hash => contents.erase key hash
  | .prune => contents.prune

/-- What a call returns. -/
def result (contents : Contents Value Deleter) : CacheCall Value Deleter → List (Option Nat)
  | .insert _ => [some contents.entries.length]
  | .lookup key hash => [contents.find key hash]
  | _ => []

/-- Taking entries out of the cache changes the lists only. -/
theorem evict_frame (contents : Contents Value Deleter) (more : Contents Value Deleter → Bool) :
    (contents.evict more).entries = contents.entries ∧
      (contents.evict more).handles = contents.handles := by
  unfold evict
  generalize contents.lru = ids
  induction ids generalizing contents with
  | nil => exact ⟨rfl, rfl⟩
  | cons id ids inductionHypothesis =>
    rw [evictFrom]
    split_ifs
    · exact inductionHypothesis (contents.drop (some id))
    · exact ⟨rfl, rfl⟩

/-- An insertion adds its entry and its handle, whatever it evicts. -/
theorem insert_frame (contents : Contents Value Deleter) (entry : Entry Value Deleter) :
    (contents.insert entry).entries = contents.entries ++ [entry] ∧
      (contents.insert entry).handles = contents.entries.length :: contents.handles := by
  rw [insert]
  obtain ⟨sameEntries, sameHandles⟩ := evict_frame
    (if 0 < contents.capacity then
      (contents.allocate entry).cacheNew contents.entries.length entry
    else contents.allocate entry) fun contents => decide (contents.capacity < contents.usage)
  rw [sameEntries, sameHandles]
  split_ifs <;> exact ⟨rfl, rfl⟩

/-- A lookup adds a handle on what it finds, and no entry. -/
theorem lookup_frame (contents : Contents Value Deleter) (key : Bytes) (hash : Nat) :
    (contents.lookup key hash).entries = contents.entries ∧
      (contents.lookup key hash).handles =
        (contents.find key hash).toList ++ contents.handles := by
  unfold lookup
  cases contents.find key hash <;> exact ⟨rfl, rfl⟩

end Contents

/-! ### Calls on a cache that holds its contents -/

namespace LRUCache.Holds

variable {Value Deleter : Type} {cache : LRUCache Value Deleter}
  {contents : Contents Value Deleter} {id : Nat}

/-- An entry is marked as cached exactly while it is on one of the lists. -/
theorem isCached_iff (holds : Holds cache contents) :
    cache.isCached id = true ↔ id ∈ contents.cached := by
  constructor
  · intro isCached
    obtain ⟨handle, stored, inCache⟩ := (Option.any_eq_true _ _).mp isCached
    rw [holds.memory.stored] at stored
    obtain ⟨entry, -, shape⟩ := Option.bind_eq_some_iff.mp stored
    split_ifs at shape
    obtain rfl := Option.some.inj shape
    exact of_decide_eq_true inCache
  · intro listed
    obtain ⟨entry, known⟩ := holds.memory.known_of_listed listed
    rw [isCached, holds.memory.stored_eq known (holds.memory.live_of_listed listed)]
    exact decide_eq_true listed

/-- The entries that are marked as cached are those on the lists. -/
theorem cachedIds_perm (holds : Holds cache contents) :
    cache.cachedIds.Perm contents.cached := by
  refine (List.perm_ext_iff_of_nodup (List.nodup_range.filter _) holds.distinct).mpr fun id => ?_
  rw [List.mem_filter, List.mem_range, holds.isCached_iff]
  exact and_iff_right_of_imp fun listed => (holds.table.alive id listed).1

/-- An allowed insertion finds room in the table. -/
theorem insert_room (holds : Holds cache contents) {client : CacheClient Value Deleter}
    (same : client.cache = cache) {entry : Entry Value Deleter}
    (allowed : client.Allowed (.insert entry)) :
    contents.capacity = 0 ∨ contents.cached.length < 2 ^ 31 ∨
      contents.find entry.key entry.hash ≠ none := by
  subst same
  rcases allowed with none | room | ⟨id, member, matching⟩
  · exact Or.inl (holds.capacity ▸ none)
  · rw [holds.cachedIds_perm.length_eq] at room
    exact Or.inr (Or.inl room)
  · have found := holds.find_iff.mpr ⟨holds.cachedIds_perm.mem_iff.mp member, matching⟩
    exact Or.inr (Or.inr (Option.ne_none_iff_exists'.mpr ⟨id, found⟩))

/-- An allowed lookup does not wrap the reference count. -/
theorem lookup_room (holds : Holds cache contents) {client : CacheClient Value Deleter}
    (same : client.cache = cache) (sameHandles : client.handles = contents.handles)
    {key : Bytes} {hash : Nat} (allowed : client.Allowed (.lookup key hash)) :
    ∀ id, contents.find key hash = some id → contents.handles.count id + 2 < 2 ^ 32 := by
  subst same
  intro id found
  obtain ⟨member, matching⟩ := holds.find_iff.mp found
  have few := allowed id (holds.cachedIds_perm.mem_iff.mpr member) matching
  rw [sameHandles] at few
  omega

end LRUCache.Holds

namespace CacheClient

variable {Value Deleter : Type} {client : CacheClient Value Deleter}
  {contents : Contents Value Deleter}

/-- The cache holds the contents, and the callers remember them rightly. -/
structure Follows (client : CacheClient Value Deleter) (contents : Contents Value Deleter) :
    Prop where
  holds : client.cache.Holds contents
  entries : client.entries = contents.entries
  handles : client.handles = contents.handles

/-- An allowed call succeeds and has its effect on the contents. -/
theorem Follows.step (follows : client.Follows contents) {call : CacheCall Value Deleter}
    (allowed : client.Allowed call) :
    ∃ next, client.step call = some next ∧ next.Follows (contents.step call) ∧
      next.results = client.results ++ contents.result call ∧
      client.cache.deletions <+: next.cache.deletions := by
  have holds := follows.holds
  cases call with
  | insert entry =>
    obtain ⟨cache, inserted, after, longer⟩ := holds.insert (holds.insert_room rfl allowed)
    obtain ⟨sameEntries, sameHandles⟩ := contents.insert_frame entry
    have stepped : client.step (.insert entry) = some
        { cache
          entries := client.entries ++ [entry]
          handles := contents.entries.length :: client.handles
          results := client.results ++ [some contents.entries.length] } := by
      simp only [CacheClient.step, inserted, Option.bind_eq_bind, Option.bind_some]
    refine ⟨_, stepped, ⟨after, ?_, ?_⟩, rfl, longer⟩
    · rw [Contents.step, sameEntries, follows.entries]
    · rw [Contents.step, sameHandles, follows.handles]
  | lookup key hash =>
    obtain ⟨cache, found, after, longer⟩ :=
      holds.lookup (holds.lookup_room rfl follows.handles allowed)
    obtain ⟨sameEntries, sameHandles⟩ := contents.lookup_frame key hash
    have stepped : client.step (.lookup key hash) = some { client with
        cache
        handles := (contents.find key hash).toList ++ client.handles
        results := client.results ++ [contents.find key hash] } := by
      simp only [CacheClient.step, found, Option.bind_eq_bind, Option.bind_some]
    refine ⟨_, stepped, ⟨after, ?_, ?_⟩, rfl, longer⟩
    · rw [Contents.step, sameEntries, follows.entries]
    · rw [Contents.step, sameHandles, follows.handles]
  | release id =>
    have outstanding : id ∈ contents.handles := by
      rw [← follows.handles]
      exact allowed
    obtain ⟨cache, released, after, longer⟩ := holds.release outstanding
    have stepped : client.step (.release id) =
        some { client with cache, handles := client.handles.erase id } := by
      simp only [CacheClient.step, released, Option.bind_eq_bind, Option.bind_some]
    refine ⟨_, stepped, ⟨after, ?_, ?_⟩, (List.append_nil _).symm, longer⟩
    · rw [Contents.step, Contents.entries_unpin, follows.entries]
    · rw [Contents.step, Contents.handles_unpin, follows.handles]
  | erase key hash =>
    obtain ⟨cache, erased, after, longer⟩ := holds.erase key hash
    have stepped : client.step (.erase key hash) = some { client with cache } := by
      simp only [CacheClient.step, erased, Option.bind_eq_bind, Option.bind_some]
    exact ⟨_, stepped, ⟨after, follows.entries, follows.handles⟩, (List.append_nil _).symm, longer⟩
  | prune =>
    obtain ⟨cache, pruned, after, longer⟩ := holds.prune
    obtain ⟨sameEntries, sameHandles⟩ := contents.evict_frame fun _ => true
    have stepped : client.step .prune = some { client with cache } := by
      simp only [CacheClient.step, pruned, Option.bind_eq_bind, Option.bind_some]
    exact ⟨_, stepped, ⟨after, follows.entries.trans sameEntries.symm,
      follows.handles.trans sameHandles.symm⟩, (List.append_nil _).symm, longer⟩

/-- A new cache has the contents of one. -/
theorem new_follows (capacity : Nat) :
    ∃ client, new Value Deleter capacity = some client ∧
      client.Follows (Contents.new capacity) ∧ client.results = [] ∧
      client.cache.deletions = [] := by
  obtain ⟨cache, created, holds, noDeletions⟩ := LRUCache.Holds.new capacity
  have stepped : new Value Deleter capacity =
      some { cache, entries := [], handles := [], results := [] } := by
    simp only [new, created, Option.bind_eq_bind, Option.bind_some]
  exact ⟨_, stepped, ⟨holds, rfl, rfl⟩, rfl, noDeletions⟩

/-- Every call of a run succeeds, and the cache holds what the calls leave behind. -/
theorem run_follows {capacity : Nat} {calls : List (CacheCall Value Deleter)}
    (keeps : Keeps capacity calls) :
    ∃ final, run capacity calls = some final ∧
      final.Follows (calls.foldl Contents.step (Contents.new capacity)) := by
  obtain ⟨client, created, follows, -⟩ := new_follows capacity
  have simulates : ∀ (client : CacheClient Value Deleter) contents call,
      client.Follows contents → client.Allowed call →
      ∃ next, step client call = some next ∧ next.Follows (Contents.step contents call) := by
    intro client contents call follows allowed
    obtain ⟨next, stepped, after, -⟩ := follows.step allowed
    exact ⟨next, stepped, after⟩
  obtain ⟨final, ran, after⟩ :=
    Machine.run_simulates Follows simulates follows (keeps client created)
  exact ⟨final, run_eq_some.mpr ⟨client, created, ran⟩, after⟩

end CacheClient

end LevelDbXy
