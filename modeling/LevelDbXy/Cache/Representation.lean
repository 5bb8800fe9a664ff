import LevelDbXy.Cache.Client

/-!
# The representation of a cache

What holds of the hash table, the two lists, the marks, the reference counts and the
charges in every state that calls can reach. The assertions of the code are part of the
model: a call that failed one would have no result.
-/

namespace LevelDbXy

namespace LRUCache

variable {Value Deleter : Type}

/-- The charge of an allocated entry. -/
def chargeOf (cache : LRUCache Value Deleter) (id : Nat) : Nat :=
  (cache.heap id).elim 0 LRUHandle.charge

/-- The charge of a cached entry is the one it was inserted with. -/
theorem Holds.sum_chargeOf {cache : LRUCache Value Deleter} {contents : Contents Value Deleter}
    (holds : Holds cache contents) {ids : List Nat} (listed : ∀ id ∈ ids, id ∈ contents.cached) :
    (ids.map cache.chargeOf).sum = totalCharge contents.entries ids := by
  refine congrArg List.sum (List.map_congr_left fun id member => ?_)
  have memory := holds.memory
  obtain ⟨entry, known⟩ := memory.known_of_listed (listed id member)
  rw [chargeOf, memory.stored_eq known (memory.live_of_listed (listed id member)), known]
  rfl

end LRUCache

namespace CacheClient

variable {Value Deleter : Type} {client : CacheClient Value Deleter}
  {contents : Contents Value Deleter}

/-- The representation invariant, with the entries of `lru_` and `in_use_` in order. -/
structure Represented (client : CacheClient Value Deleter) (lru inUse : List Nat) : Prop where
  lruRing : LinkRing client.cache.next client.cache.prev .lru (lru.map .entry)
  inUseRing : LinkRing client.cache.next client.cache.prev .inUse (inUse.map .entry)
  allocated : ∀ id, id ∈ lru ∨ id ∈ inUse → (client.cache.heap id).isSome
  inCache_iff_found : ∀ id handle, client.cache.heap id = some handle →
    (handle.inCache = true ↔
      client.cache.tableLookup handle.key handle.hash = some (some id))
  inCache_iff_listed : ∀ id handle, client.cache.heap id = some handle →
    (handle.inCache = true ↔ (id ∈ lru ∧ id ∉ inUse) ∨ (id ∈ inUse ∧ id ∉ lru))
  lru_iff : ∀ id handle, client.cache.heap id = some handle →
    (id ∈ lru ↔ handle.inCache = true ∧ handle.refs = 1)
  inUse_iff : ∀ id handle, client.cache.heap id = some handle →
    (id ∈ inUse ↔ handle.inCache = true ∧ 2 ≤ handle.refs)
  refs_eq : ∀ id handle, client.cache.heap id = some handle →
    handle.refs = client.handles.count id + if handle.inCache = true then 1 else 0
  usage : client.cache.usage = (client.cache.cachedIds.map client.cache.chargeOf).sum % 2 ^ 64

/-- The mark and the reference count of an allocated entry. -/
theorem Follows.stored (follows : client.Follows contents) {id : Nat}
    {handle : LRUHandle Value Deleter} (stored : client.cache.heap id = some handle) :
    (handle.inCache = true ↔ id ∈ contents.cached) ∧ handle.refs = contents.refs id := by
  rw [follows.holds.memory.stored] at stored
  obtain ⟨entry, -, shape⟩ := Option.bind_eq_some_iff.mp stored
  split_ifs at shape
  obtain rfl := Option.some.inj shape
  exact ⟨decide_eq_true_iff, rfl⟩

/-- The usage is the sum of the charges that are stored. -/
theorem Follows.usage (follows : client.Follows contents) :
    client.cache.usage = (client.cache.cachedIds.map client.cache.chargeOf).sum % 2 ^ 64 := by
  have holds := follows.holds
  rw [holds.memory.usage, (holds.cachedIds_perm.map client.cache.chargeOf).sum_eq,
    holds.sum_chargeOf fun id listed => listed]
  rfl

/-- A cache that holds its contents is well formed. -/
theorem Follows.represented (follows : client.Follows contents) :
    client.Represented contents.lru contents.inUse := by
  have holds := follows.holds
  have memory := holds.memory
  have cached : ∀ id, id ∈ contents.cached ↔ id ∈ contents.lru ∨ id ∈ contents.inUse :=
    fun id => List.mem_append
  refine ⟨memory.lists.lruRing, memory.lists.inUseRing, memory.lists.alive, ?_, ?_, ?_, ?_, ?_,
    follows.usage⟩ <;> intro id handle stored <;> obtain ⟨marked, counted⟩ := follows.stored stored
  · rw [marked, holds.tableLookup, Option.some.injEq, holds.find_iff]
    exact ⟨fun listed => ⟨listed, handle, stored, rfl, rfl⟩, And.left⟩
  · rw [marked, cached]
    constructor
    · rintro (inLru | inInUse)
      · exact Or.inl ⟨inLru, memory.lists.apart id inLru⟩
      · exact Or.inr ⟨inInUse, fun inLru => memory.lists.apart id inLru inInUse⟩
    · rintro (⟨inLru, -⟩ | ⟨inInUse, -⟩)
      · exact Or.inl inLru
      · exact Or.inr inInUse
  · rw [marked, cached, counted]
    constructor
    · exact fun inLru => ⟨Or.inl inLru, memory.lru_refs id inLru⟩
    · rintro ⟨inLru | inInUse, one⟩
      · exact inLru
      · exact absurd one (memory.inUse_refs id inInUse).ne'
  · rw [marked, cached, counted]
    constructor
    · exact fun inInUse => ⟨Or.inr inInUse, memory.inUse_refs id inInUse⟩
    · rintro ⟨inLru | inInUse, several⟩
      · have := memory.lru_refs id inLru
        omega
      · exact inInUse
  · rw [counted, Contents.refs, follows.handles]
    simp only [marked]

/-- Every call of a run succeeds, so that no assertion fails, and the state it reaches is
well formed. -/
theorem run_represented {capacity : Nat} {calls : List (CacheCall Value Deleter)}
    (keeps : Keeps capacity calls) :
    ∃ final lru inUse, run capacity calls = some final ∧ final.Represented lru inUse := by
  obtain ⟨final, ran, follows⟩ := run_follows keeps
  exact ⟨final, _, _, ran, follows.represented⟩

/-- An entry of a full cache is replaced while it is pinned, and evicted when it is not. -/
theorem run_represented_replaced :
    ∃ (final : CacheClient Nat Unit) (lru inUse : List Nat),
      run 1 [.insert ⟨[1], 5, 10, 1, ()⟩, .insert ⟨[1], 5, 11, 1, ()⟩, .release 1, .lookup [1] 5,
        .release 0, .release 1, .insert ⟨[2], 5, 12, 1, ()⟩] = some final ∧
      final.Represented lru inUse :=
  run_represented (by decide)

end CacheClient

end LevelDbXy
