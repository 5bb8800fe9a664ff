import LevelDbXy.Cache.Reference

/-!
# The cache refines the map and the queue

Calls on a cache with a positive capacity, in which a key is always hashed to the same
value and the charges fit into `uint64_t`, have the effects and the results of the same
calls on the reference.
-/

namespace LevelDbXy

namespace LRUCache

variable {Value Deleter : Type}

/-- The charges in the cache once the entry is cached in place of the one with its key and
hash. -/
def chargeWith (cache : LRUCache Value Deleter) (entry : Entry Value Deleter) : Nat :=
  ((cache.cachedIds.filter fun id => decide (¬ cache.Matches entry.key entry.hash id)).map
    cache.chargeOf).sum + entry.charge

/-- The total charge of the contents once the entry is cached. -/
theorem Holds.totalCharge_cacheNew {cache : LRUCache Value Deleter}
    {contents : Contents Value Deleter} (holds : Holds cache contents)
    (entry : Entry Value Deleter) :
    totalCharge (contents.entries ++ [entry])
      ((contents.allocate entry).cacheNew contents.entries.length entry).cached =
      cache.chargeWith entry := by
  have allocated := holds.allocate entry
  have notCached := holds.fresh_number.1
  have inside : ∀ id ∈ without contents.cached (contents.find entry.key entry.hash),
      id ∈ contents.cached := fun id member => ((mem_without holds.distinct).mp member).1
  have distinct : ((contents.allocate entry).append contents.entries.length).cached.Nodup := by
    rw [(Contents.cached_append ..).nodup_iff]
    exact List.nodup_cons.mpr ⟨notCached, holds.distinct⟩
  have left : (contents.entries.length ::
      without contents.cached (contents.find entry.key entry.hash)).Perm
      ((contents.allocate entry).cacheNew contents.entries.length entry).cached := by
    have left := allocated.without_cached_append notCached entry.key entry.hash
    rw [holds.find_allocate] at left
    rw [Contents.cacheNew, holds.find_allocate]
    exact left.trans (Contents.without_perm_cached_drop distinct _)
  have kept : (without contents.cached (contents.find entry.key entry.hash)).Perm
      (cache.cachedIds.filter fun id => decide (¬ cache.Matches entry.key entry.hash id)) := by
    have cachedDistinct := holds.cachedIds_perm.nodup_iff.mpr holds.distinct
    refine (List.perm_ext_iff_of_nodup (nodup_without holds.distinct _)
      (cachedDistinct.filter _)).mpr fun id => ?_
    rw [mem_without holds.distinct, List.mem_filter, holds.cachedIds_perm.mem_iff,
      decide_eq_true_iff]
    refine and_congr_right fun listed => not_congr ?_
    rw [holds.find_iff]
    exact and_iff_right listed
  have known : ∀ id ∈ without contents.cached (contents.find entry.key entry.hash),
      id < contents.entries.length := by
    intro id member
    obtain ⟨known, isKnown⟩ := holds.memory.known_of_listed (inside id member)
    exact (List.getElem?_eq_some_iff.mp isKnown).1
  calc totalCharge (contents.entries ++ [entry])
        ((contents.allocate entry).cacheNew contents.entries.length entry).cached
      = totalCharge (contents.entries ++ [entry]) (contents.entries.length ::
          without contents.cached (contents.find entry.key entry.hash)) :=
        totalCharge_perm _ left.symm
    _ = entry.charge + totalCharge (contents.entries ++ [entry])
          (without contents.cached (contents.find entry.key entry.hash)) := by
        simp [totalCharge]
    _ = entry.charge + totalCharge contents.entries
          (without contents.cached (contents.find entry.key entry.hash)) := by
        rw [Memory.totalCharge_append known]
    _ = cache.chargeWith entry := by
        rw [← holds.sum_chargeOf inside, (kept.map cache.chargeOf).sum_eq, Nat.add_comm]
        rfl

end LRUCache

namespace CacheClient

variable {Value Deleter : Type} {hashOf : Bytes → Nat}

/-- The charges of the cached entries stay below 2^64. -/
def Chargeable (client : CacheClient Value Deleter) : CacheCall Value Deleter → Prop
  | .insert entry => client.cache.chargeWith entry < 2 ^ 64
  | _ => True

/-- What callers keep to, with one hash for each key and charges that do not overflow. -/
structure AllowedBy (hashOf : Bytes → Nat) (client : CacheClient Value Deleter)
    (call : CacheCall Value Deleter) : Prop where
  allowed : client.Allowed call
  hashed : call.HashedBy hashOf
  chargeable : client.Chargeable call

instance (client : CacheClient Value Deleter) : ∀ call, Decidable (client.Chargeable call)
  | .insert _ => inferInstanceAs (Decidable (_ < _))
  | .lookup _ _ | .release _ | .erase _ _ | .prune => isTrue trivial

instance (hashOf : Bytes → Nat) (client : CacheClient Value Deleter)
    (call : CacheCall Value Deleter) : Decidable (AllowedBy hashOf client call) :=
  decidable_of_iff (client.Allowed call ∧ call.HashedBy hashOf ∧ client.Chargeable call)
    ⟨fun ⟨allowed, hashed, chargeable⟩ => ⟨allowed, hashed, chargeable⟩,
      fun allowed => ⟨allowed.allowed, allowed.hashed, allowed.chargeable⟩⟩

/-- Every call of the run is one that callers keep to. -/
def KeepsBy (hashOf : Bytes → Nat) (capacity : Nat) (calls : List (CacheCall Value Deleter)) :
    Prop :=
  ∀ client, new Value Deleter capacity = some client →
    Machine.Meets step (AllowedBy hashOf) client calls

instance (hashOf : Bytes → Nat) (capacity : Nat) (calls : List (CacheCall Value Deleter)) :
    Decidable (KeepsBy hashOf capacity calls) :=
  match created : new Value Deleter capacity with
  | none => isTrue (by simp [KeepsBy, created])
  | some client =>
    decidable_of_iff (Machine.Meets step (AllowedBy hashOf) client calls)
      (by simp [KeepsBy, created])

/-- The cache has contents that simulate the reference, and has returned the same handles. -/
def Refines (hashOf : Bytes → Nat) (client : CacheClient Value Deleter)
    (reference : CacheReference Value Deleter) : Prop :=
  ∃ contents, client.Follows contents ∧ contents.Simulates hashOf reference ∧
    0 < reference.capacity ∧ client.results = reference.results

/-- A call has the effect and the result of the call on the reference. -/
theorem Refines.step (hashOf : Bytes → Nat) (client : CacheClient Value Deleter)
    (reference : CacheReference Value Deleter) (call : CacheCall Value Deleter)
    (refines : Refines hashOf client reference) (allowed : AllowedBy hashOf client call) :
    ∃ next, client.step call = some next ∧ Refines hashOf next (reference.step call) := by
  obtain ⟨contents, follows, simulates, positive, results⟩ := refines
  obtain ⟨next, stepped, after, returned, -⟩ := follows.step allowed.allowed
  have hashed := allowed.hashed
  refine ⟨next, stepped, contents.step call, after, ?_, ?_, ?_⟩
  · cases call with
    | insert entry =>
      refine simulates.insert (simulates.capacity ▸ positive) hashed ?_
      rw [follows.holds.totalCharge_cacheNew]
      exact allowed.chargeable
    | lookup key hash =>
      obtain rfl : hash = hashOf key := hashed
      exact simulates.lookup key
    | release id =>
      have outstanding : id ∈ client.handles := allowed.allowed
      rw [follows.handles] at outstanding
      exact simulates.release outstanding
    | erase key hash =>
      obtain rfl : hash = hashOf key := hashed
      exact simulates.erase key
    | prune => exact simulates.prune
  · rw [CacheReference.capacity_step]
    exact positive
  · rw [returned, simulates.results hashed, results]

/-- What the cache has in common with a reference it refines. -/
structure Agrees (hashOf : Bytes → Nat) (client : CacheClient Value Deleter)
    (reference : CacheReference Value Deleter) : Prop where
  results : client.results = reference.results
  handles : client.handles = reference.handles
  map : ∀ key, client.cache.tableLookup key (hashOf key) = some (reference.map key)
  queue : LinkRing client.cache.next client.cache.prev .lru (reference.queue.map .entry)
  idle : ∀ id, id ∈ reference.queue ↔ reference.mapped id = true ∧ id ∉ reference.handles
  usage : client.cache.usage = reference.total

/-- A cache that refines the map shows its contents. -/
theorem Refines.agrees {client : CacheClient Value Deleter}
    {reference : CacheReference Value Deleter} (refines : Refines hashOf client reference) :
    Agrees hashOf client reference := by
  obtain ⟨contents, follows, simulates, -, results⟩ := refines
  have memory := follows.holds.memory
  refine ⟨results, follows.handles.trans simulates.handles.symm, fun key => ?_, ?_, fun id => ?_,
    ?_⟩
  · rw [follows.holds.tableLookup, simulates.find]
  · rw [simulates.queue]
    exact memory.lists.lruRing
  · rw [simulates.queue, simulates.mapped_iff, simulates.handles]
    constructor
    · exact fun inLru => ⟨List.mem_append_left _ inLru, simulates.idle id inLru⟩
    · rintro ⟨listed, notHeld⟩
      refine (List.mem_append.mp listed).resolve_right fun inInUse => ?_
      have several := memory.inUse_refs id inInUse
      rw [Contents.refs, if_pos listed, List.count_eq_zero.mpr notHeld] at several
      omega
  · rw [memory.usage, simulates.total]
    exact Nat.mod_eq_of_lt simulates.bounded

/-- The cache simulates the map and the queue over every sequence of calls. -/
theorem run_refines {capacity : Nat} {calls : List (CacheCall Value Deleter)}
    (positive : 0 < capacity) (keeps : KeepsBy hashOf capacity calls) :
    ∃ final, run capacity calls = some final ∧
      Agrees hashOf final (calls.foldl CacheReference.step (CacheReference.new capacity)) := by
  obtain ⟨client, created, follows, noResults, -⟩ := @new_follows Value Deleter capacity
  have start : Refines hashOf client (CacheReference.new capacity) :=
    ⟨_, follows, Contents.Simulates.new hashOf capacity, positive, noResults⟩
  obtain ⟨final, ran, refines⟩ := Machine.run_simulates (Refines hashOf) (Refines.step hashOf) start
    (keeps client created)
  exact ⟨final, run_eq_some.mpr ⟨client, created, ran⟩, refines.agrees⟩

/-- The least recently released entry is evicted, although a colliding key was inserted
later and the entry inserted first is still held. -/
theorem run_refines_eviction :
    ∃ final : CacheClient Nat Unit,
      run 2 [.insert ⟨[1], 5, 10, 1, ()⟩, .insert ⟨[2], 5, 11, 1, ()⟩, .release 1, .release 0,
        .lookup [1] 5, .insert ⟨[3], 5, 12, 1, ()⟩, .lookup [2] 5] = some final ∧
      Agrees (fun _ => 5) final
        ([.insert ⟨[1], 5, 10, 1, ()⟩, .insert ⟨[2], 5, 11, 1, ()⟩, .release 1, .release 0,
          .lookup [1] 5, .insert ⟨[3], 5, 12, 1, ()⟩, .lookup [2] 5].foldl CacheReference.step
          (CacheReference.new 2)) ∧
      final.results = [some 0, some 1, some 0, some 2, none] := by
  obtain ⟨final, ran, agrees⟩ := @run_refines Nat Unit (fun _ => 5) 2
    [.insert ⟨[1], 5, 10, 1, ()⟩, .insert ⟨[2], 5, 11, 1, ()⟩, .release 1, .release 0,
      .lookup [1] 5, .insert ⟨[3], 5, 12, 1, ()⟩, .lookup [2] 5] (by decide) (by decide)
  refine ⟨final, ran, agrees, ?_⟩
  rw [agrees.results]
  decide

end CacheClient

end LevelDbXy
