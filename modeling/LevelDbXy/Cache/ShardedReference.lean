import LevelDbXy.Cache.Refinement
import LevelDbXy.Cache.ShardedLookup

/-!
# The sharded cache as sixteen maps and queues

Behind the interface of `Cache` each shard is a map and a queue of its own, which sees the
calls on the keys that hash there, with its part of the capacity. What the interface
returns is said by these, and `TotalCharge` and `NewId` by all of them.
-/

namespace LevelDbXy

open ShardedLRUCache

namespace ShardedClient

variable {Value Deleter : Type}

/-! ### Each shard sees its calls -/

/-- The effect of a call on the references of the shards. -/
def referenceStep (references : Nat → CacheReference Value Deleter)
    (call : ShardedCall Value Deleter) (index : Nat) : CacheReference Value Deleter :=
  (call.on index).elim (references index) (references index).step

/-- The reference of a shard after the calls it sees. -/
def shardReference (capacity : Nat) (calls : List (ShardedCall Value Deleter)) (index : Nat) :
    CacheReference Value Deleter :=
  (calls.filterMap (ShardedCall.on index)).foldl CacheReference.step
    (CacheReference.new (perShard capacity))

/-- A step of all references is a step of each on what it sees. -/
theorem foldl_referenceStep (calls : List (ShardedCall Value Deleter))
    (references : Nat → CacheReference Value Deleter) (index : Nat) :
    calls.foldl referenceStep references index =
      (calls.filterMap (ShardedCall.on index)).foldl CacheReference.step (references index) := by
  induction calls generalizing references with
  | nil => rfl
  | cons call calls inductionHypothesis =>
    rw [List.foldl_cons, inductionHypothesis, List.filterMap_cons, referenceStep]
    cases call.on index <;> rfl

/-! ### A call -/

/-- The charges of the shard stay below 2^64. -/
def Chargeable (client : ShardedClient Value Deleter) : ShardedCall Value Deleter → Prop
  | .insert key value charge deleter =>
    (client.cache.shard (shardOf (hashSlice key))).chargeWith
      ⟨key, hashSlice key, value, charge, deleter⟩ < 2 ^ 64
  | _ => True

/-- One for a call of `NewId`. -/
def isNewId : ShardedCall Value Deleter → Bool
  | .newId => true
  | _ => false

variable {client next : ShardedClient Value Deleter}
  {references : Nat → CacheReference Value Deleter}

/-- The shards have contents that simulate the references. -/
def Refines (client : ShardedClient Value Deleter)
    (references : Nat → CacheReference Value Deleter) : Prop :=
  ∃ contents, client.Tracks contents ∧
    ∀ index, (contents index).Simulates hashSlice (references index) ∧
      0 < (references index).capacity

/-- A call has the effect of what the shards see on their references. -/
theorem Refines.step (refines : client.Refines references) (call : ShardedCall Value Deleter)
    (allowed : client.Allowed call) (chargeable : client.Chargeable call) :
    ∃ next, client.step call = some next ∧ next.Refines (referenceStep references call) := by
  obtain ⟨contents, tracks, simulates⟩ := refines
  obtain ⟨next, stepped, after⟩ := tracks.step call allowed
  refine ⟨next, stepped, contentsStep contents call, after, fun index => ?_⟩
  obtain ⟨simulates, positive⟩ := simulates index
  unfold contentsStep referenceStep
  cases seen : call.on index with
  | none => exact ⟨simulates, positive⟩
  | some shardCall =>
    refine ⟨?_, (CacheReference.capacity_step _ shardCall).symm ▸ positive⟩
    obtain ⟨key, value, charge, deleter, rfl, rfl⟩ | ⟨key, rfl, rfl⟩ | ⟨handle, rfl, rfl, rfl⟩ |
      ⟨key, rfl, rfl⟩ | ⟨rfl, rfl⟩ := on_cases seen
    · obtain rfl : index = shardOf (hashSlice key) := by
        by_contra elsewhere
        rw [ShardedCall.on, if_neg elsewhere] at seen
        cases seen
      refine simulates.insert (simulates.capacity ▸ positive) rfl ?_
      rw [(tracks _ (shardOf_hashSlice_lt key)).holds.totalCharge_cacheNew]
      exact chargeable
    · exact simulates.lookup key
    · have held := allowed.2
      rw [(tracks _ allowed.1).handles_eq] at held
      exact simulates.release held
    · exact simulates.erase key
    · exact simulates.prune

/-! ### What the interface returns -/

/-- `TotalCharge` adds up what the shards say. -/
theorem totalCharge_eq_sum (cache : ShardedLRUCache Value Deleter) {usages : Nat → Nat}
    (same : ∀ index < kNumShards, (cache.shard index).usage = usages index % 2 ^ 64) :
    cache.totalCharge = ((List.range kNumShards).map usages).sum % 2 ^ 64 := by
  have loop : ∀ (indices : List Nat) (total : Nat), (∀ index ∈ indices, index < kNumShards) →
      indices.foldl (fun total s => truncU64 (total + (cache.shard s).usage)) (total % 2 ^ 64) =
        (total + (indices.map usages).sum) % 2 ^ 64 := by
    intro indices
    induction indices with
    | nil => simp
    | cons index indices inductionHypothesis =>
      intro total inside
      rw [List.foldl_cons, same index (inside index List.mem_cons_self), truncU64, ← Nat.add_mod,
        inductionHypothesis _ fun other member => inside other (List.mem_cons_of_mem _ member),
        List.map_cons, List.sum_cons, Nat.add_assoc]
  have added := loop (List.range kNumShards) 0 fun index => List.mem_range.mp
  rwa [Nat.zero_add] at added

/-- What the interface returns, said by the references of the shards. -/
structure Agrees (client : ShardedClient Value Deleter)
    (references : Nat → CacheReference Value Deleter) : Prop where
  handles : ∀ index < kNumShards, client.handles index = (references index).handles
  lookup : ∀ key, client.Allowed (.lookup key) → ∃ cache, client.cache.lookup key =
    some (cache, ((references (shardOf (hashSlice key))).map key).map
      (CacheHandle.mk (shardOf (hashSlice key))))
  value : ∀ handle, client.Outstanding handle → ∃ entry,
    (references handle.shard).entries[handle.id]? = some entry ∧
      client.cache.value handle = some entry.value
  totalCharge : client.cache.totalCharge =
    ((List.range kNumShards).map fun index => (references index).total).sum % 2 ^ 64

/-- Shards that refine their references show what these hold. -/
theorem Refines.agrees (refines : client.Refines references) : client.Agrees references := by
  obtain ⟨contents, tracks, simulates⟩ := refines
  refine ⟨fun index inside => ?_, fun key allowed => ?_, fun handle outstanding => ?_, ?_⟩
  · rw [(tracks index inside).handles_eq, (simulates index).1.handles]
  · obtain ⟨cache, looked, -⟩ := tracks.lookup allowed
    rw [(simulates _).1.find] at looked
    exact ⟨cache, looked⟩
  · obtain ⟨inside, held⟩ := outstanding
    have tracksShard := tracks _ inside
    rw [tracksShard.handles_eq] at held
    obtain ⟨entry, known⟩ : ∃ entry, (contents handle.shard).entries[handle.id]? = some entry :=
      ⟨_, List.getElem?_eq_getElem (tracksShard.holds.held _ held)⟩
    obtain ⟨inCache, refs, stored⟩ := tracksShard.holds.stored_of_held known held
    refine ⟨entry, (simulates handle.shard).1.entries ▸ known, ?_⟩
    simp only [ShardedLRUCache.value, entryOf, getShard, if_pos inside, Option.bind_eq_bind,
      Option.bind_some, stored]
    rfl
  · refine totalCharge_eq_sum _ fun index inside => ?_
    rw [(simulates index).1.total]
    exact (tracks index inside).holds.memory.usage

/-! ### Every run -/

/-- Every call of the run is one that callers keep to, and the charges do not overflow. -/
def KeepsCharges (capacity : Nat) (calls : List (ShardedCall Value Deleter)) : Prop :=
  ∀ client, new Value Deleter capacity = some client →
    Machine.Meets step (fun client call => client.Allowed call ∧ client.Chargeable call) client
      calls

/-- A new cache. -/
theorem new_refines (Value Deleter : Type) {capacity : Nat} (positive : 0 < perShard capacity) :
    ∃ client, new Value Deleter capacity = some client ∧ client.cache.lastId = 0 ∧
      client.Refines fun _ => CacheReference.new (perShard capacity) := by
  obtain ⟨client, created, tracks⟩ := new_tracks Value Deleter capacity
  refine ⟨client, created, ?_, _, tracks, fun index => ⟨Contents.Simulates.new _ _, positive⟩⟩
  simp only [new, ShardedLRUCache.new, Option.bind_eq_bind] at created
  obtain ⟨cache, isNew, made⟩ := Option.bind_eq_some_iff.mp created
  obtain ⟨shard, -, shards⟩ := Option.bind_eq_some_iff.mp isNew
  rw [← Option.some.inj made, ← Option.some.inj shards]

/-- Pruning draws no number. -/
theorem lastId_pruneFrom {cache cache' : ShardedLRUCache Value Deleter} {indices : List Nat}
    (pruned : cache.pruneFrom indices = some cache') : cache'.lastId = cache.lastId := by
  induction indices generalizing cache with
  | nil =>
    obtain rfl : cache = cache' := by simpa [pruneFrom] using pruned
    rfl
  | cons index indices inductionHypothesis =>
    simp only [pruneFrom, List.foldlM_cons, Option.bind_eq_bind] at pruned
    obtain ⟨between, first, rest⟩ := Option.bind_eq_some_iff.mp pruned
    obtain ⟨shard, -, first⟩ := Option.bind_eq_some_iff.mp first
    obtain ⟨shard', -, first⟩ := Option.bind_eq_some_iff.mp first
    rw [inductionHypothesis rest, ← Option.some.inj first]
    rfl

/-- Only `NewId` counts. -/
theorem lastId_step {call : ShardedCall Value Deleter} (stepped : client.step call = some next) :
    next.cache.lastId =
      if isNewId call then truncU64 (client.cache.lastId + 1) else client.cache.lastId := by
  cases call with
  | newId =>
    obtain rfl := Option.some.inj stepped
    rfl
  | totalCharge =>
    obtain rfl := Option.some.inj stepped
    rfl
  | value handle =>
    obtain ⟨value, -, returned⟩ := Option.bind_eq_some_iff.mp stepped
    obtain rfl := Option.some.inj returned
    rfl
  | prune =>
    obtain ⟨cache, pruned, returned⟩ := Option.bind_eq_some_iff.mp stepped
    obtain rfl := Option.some.inj returned
    exact lastId_pruneFrom pruned
  | insert key value charge deleter =>
    obtain ⟨⟨cache, handle⟩, inserted, returned⟩ := Option.bind_eq_some_iff.mp stepped
    obtain rfl := Option.some.inj returned
    obtain ⟨shard, -, inserted⟩ := Option.bind_eq_some_iff.mp inserted
    obtain ⟨⟨shard', id⟩, -, inserted⟩ := Option.bind_eq_some_iff.mp inserted
    cases inserted
    rfl
  | lookup key =>
    obtain ⟨⟨cache, found⟩, looked, returned⟩ := Option.bind_eq_some_iff.mp stepped
    obtain rfl := Option.some.inj returned
    obtain ⟨shard, -, looked⟩ := Option.bind_eq_some_iff.mp looked
    obtain ⟨⟨shard', id⟩, -, looked⟩ := Option.bind_eq_some_iff.mp looked
    cases looked
    cases id <;> rfl
  | release handle =>
    obtain ⟨cache, released, returned⟩ := Option.bind_eq_some_iff.mp stepped
    obtain rfl := Option.some.inj returned
    obtain ⟨entry, -, released⟩ := Option.bind_eq_some_iff.mp released
    obtain ⟨shard, -, released⟩ := Option.bind_eq_some_iff.mp released
    obtain ⟨shard', -, released⟩ := Option.bind_eq_some_iff.mp released
    cases released
    rfl
  | erase key =>
    obtain ⟨cache, erased, returned⟩ := Option.bind_eq_some_iff.mp stepped
    obtain rfl := Option.some.inj returned
    obtain ⟨shard, -, erased⟩ := Option.bind_eq_some_iff.mp erased
    obtain ⟨shard', -, erased⟩ := Option.bind_eq_some_iff.mp erased
    cases erased
    rfl

/-- A run draws a number for each of its `NewId` calls. -/
theorem lastId_run {calls : List (ShardedCall Value Deleter)} {final : ShardedClient Value Deleter}
    (bound : client.cache.lastId < 2 ^ 64) (ran : Machine.run step client calls = some final) :
    final.cache.lastId = (client.cache.lastId + calls.countP isNewId) % 2 ^ 64 := by
  induction calls generalizing client with
  | nil =>
    obtain rfl : client = final := by simpa [Machine.run] using ran
    exact (Nat.mod_eq_of_lt bound).symm
  | cons call calls inductionHypothesis =>
    obtain ⟨next, stepped, rest⟩ := Machine.run_cons_eq_some.mp ran
    have counted := lastId_step stepped
    rw [List.countP_cons]
    split_ifs at counted ⊢ with isNew
    · rw [inductionHypothesis (counted ▸ Nat.mod_lt _ (by decide)) rest, counted, truncU64,
        Nat.mod_add_mod, Nat.add_assoc, Nat.add_comm 1]
    · rw [inductionHypothesis (counted ▸ bound) rest, counted, Nat.add_zero]

/-- The shards of a cache with a capacity refine maps and queues that see the calls on their
keys, in every run, and `NewId` counts. -/
theorem sharded_run_refines {capacity : Nat} {calls : List (ShardedCall Value Deleter)}
    (positive : 0 < perShard capacity) (keeps : KeepsCharges capacity calls) :
    ∃ final, run capacity calls = some final ∧ final.Agrees (shardReference capacity calls) ∧
      final.cache.lastId = calls.countP isNewId % 2 ^ 64 := by
  obtain ⟨client, created, firstId, refines⟩ := new_refines Value Deleter positive
  have simulates : ∀ (client : ShardedClient Value Deleter) references call,
      client.Refines references → client.Allowed call ∧ client.Chargeable call →
        ∃ next, client.step call = some next ∧ next.Refines (referenceStep references call) :=
    fun client references call refines met => refines.step call met.1 met.2
  obtain ⟨final, ran, after⟩ := Machine.run_simulates Refines simulates refines
    (keeps client created)
  refine ⟨final, run_eq_some created ran, ?_, ?_⟩
  · have same : calls.foldl referenceStep (fun _ => CacheReference.new (perShard capacity)) =
        shardReference capacity calls := by
      funext index
      exact foldl_referenceStep calls _ index
    exact same ▸ after.agrees
  · rw [lastId_run (by rw [firstId]; decide) ran, firstId, Nat.zero_add]

instance (client : ShardedClient Value Deleter) : ∀ call, Decidable (client.Chargeable call)
  | .insert _ _ _ _ => inferInstanceAs (Decidable (_ < _))
  | .lookup _ | .release _ | .value _ | .erase _ | .newId | .prune | .totalCharge => isTrue trivial

instance (client : ShardedClient Value Deleter) : ∀ call, Decidable (client.Allowed call)
  | .insert key value charge deleter =>
    inferInstanceAs (Decidable ((client.view (shardOf (hashSlice key))).Allowed
      (.insert ⟨key, hashSlice key, value, charge, deleter⟩)))
  | .lookup key =>
    inferInstanceAs (Decidable ((client.view (shardOf (hashSlice key))).Allowed
      (.lookup key (hashSlice key))))
  | .release handle => inferInstanceAs (Decidable (client.Outstanding handle))
  | .value handle => inferInstanceAs (Decidable (client.Outstanding handle))
  | .erase _ | .newId | .prune | .totalCharge => isTrue trivial

instance (capacity : Nat) (calls : List (ShardedCall Value Deleter)) :
    Decidable (KeepsCharges capacity calls) :=
  match created : new Value Deleter capacity with
  | none => isTrue (by simp [KeepsCharges, created])
  | some client =>
    decidable_of_iff (Machine.Meets step
      (fun client call => client.Allowed call ∧ client.Chargeable call) client calls)
      (by simp [KeepsCharges, created])

/-- Of two keys of one shard with room for one, the one without a handle goes; a key of another
shard stays. -/
theorem sharded_run_refines_eviction :
    ∃ final : ShardedClient Nat Unit,
      run 16 [.insert [1] 10 1 (), .release ⟨4, 0⟩, .insert [3] 11 1 (), .newId,
        .insert [10] 12 1 ()] = some final ∧
      final.Agrees (shardReference 16 [.insert [1] 10 1 (), .release ⟨4, 0⟩,
        .insert [3] 11 1 (), .newId, .insert [10] 12 1 ()]) ∧
      final.cache.totalCharge = 2 ∧ final.cache.lastId = 1 := by
  obtain ⟨final, ran, agrees, ids⟩ := @sharded_run_refines Nat Unit 16
    [.insert [1] 10 1 (), .release ⟨4, 0⟩, .insert [3] 11 1 (), .newId, .insert [10] 12 1 ()]
    (by decide) (by decide)
  refine ⟨final, ran, agrees, ?_, ids⟩
  rw [agrees.totalCharge]
  decide

end ShardedClient

end LevelDbXy
