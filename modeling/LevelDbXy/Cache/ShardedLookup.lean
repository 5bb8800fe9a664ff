import LevelDbXy.Cache.Sharded

/-!
# A sharded cache caches

An entry is found as long as a handle on it is outstanding, unless its key is inserted or erased
again, if the shards have a capacity. `Lookup` returns the pointer that `Insert` returned, and the
cache counts the handles: giving back what `Lookup` returned does not release what `Insert`
returned. The constructor adds the number of shards less one before it divides, in `uint64_t`; for
the fifteen largest capacities the sum wraps, and the shards do not cache at all.
-/

namespace LevelDbXy

open ShardedLRUCache

namespace Contents

variable {Value Deleter : Type}

/-- Evicting entries does not change the capacity. -/
theorem capacity_evict (contents : Contents Value Deleter)
    (more : Contents Value Deleter → Bool) :
    (contents.evict more).capacity = contents.capacity := by
  unfold evict
  generalize contents.lru = ids
  induction ids generalizing contents with
  | nil => rfl
  | cons id ids inductionHypothesis =>
    rw [evictFrom]
    split_ifs
    · exact inductionHypothesis (contents.drop (some id))
    · rfl

/-- No call changes the capacity. -/
theorem capacity_step (contents : Contents Value Deleter) (call : CacheCall Value Deleter) :
    (contents.step call).capacity = contents.capacity := by
  cases call with
  | insert entry =>
    rw [step, insert, capacity_evict]
    split_ifs <;> rfl
  | lookup key hash =>
    rw [step, lookup]
    cases contents.find key hash <;> rfl
  | release id => exact capacity_unpin contents id
  | erase key hash => rfl
  | prune => exact capacity_evict contents _

end Contents

/-- The call inserts or erases the key. -/
def ShardedCall.Touches {Value Deleter : Type} (key : Bytes) : ShardedCall Value Deleter → Prop
  | .insert key' _ _ _ => key' = key
  | .erase key' => key' = key
  | _ => False

namespace ShardedClient

variable {Value Deleter : Type}

/-- In every run, an inserted value is found wherever its handle is still outstanding and its
key has not been inserted or erased again. -/
def Caches (Value Deleter : Type) (capacity : Nat) : Prop :=
  ∀ (before after : List (ShardedCall Value Deleter)) (key : Bytes) (value : Value)
    (charge : Nat) (deleter : Deleter),
    Keeps capacity (before ++ .insert key value charge deleter :: (after ++ [.lookup key])) →
    ∃ middle cache handle, run capacity before = some middle ∧
      middle.cache.insert key value charge deleter = some (cache, handle) ∧
      ((∀ call ∈ after, ¬ call.Touches key) →
        ∃ final, run capacity (before ++ .insert key value charge deleter :: after) = some final ∧
          (final.Outstanding handle →
            ∃ cache' found, final.cache.lookup key = some (cache', some found) ∧
              cache'.value found = some value))

/-! ### One shard -/

variable {client : ShardedClient Value Deleter} {contents : Nat → Contents Value Deleter}

/-- The entry was inserted under this handle, and is cached while the handle is outstanding. -/
structure Inserted (client : ShardedClient Value Deleter) (entry : Entry Value Deleter)
    (handle : CacheHandle) (contents : Nat → Contents Value Deleter) : Prop where
  tracks : client.Tracks contents
  pinned : (contents handle.shard).Pinned entry handle.id

section Calls

variable {call : ShardedCall Value Deleter} {shardCall : CacheCall Value Deleter} {key : Bytes}
  {handle : CacheHandle}

/-- What a shard sees is the call itself, with the hash of its key. -/
theorem on_cases {index : Nat} (seen : call.on index = some shardCall) :
    (∃ key value charge deleter, call = .insert key value charge deleter ∧
      shardCall = .insert ⟨key, hashSlice key, value, charge, deleter⟩) ∨
    (∃ key, call = .lookup key ∧ shardCall = .lookup key (hashSlice key)) ∨
    (∃ handle, call = .release handle ∧ index = handle.shard ∧ shardCall = .release handle.id) ∨
    (∃ key, call = .erase key ∧ shardCall = .erase key (hashSlice key)) ∨
    (call = .prune ∧ shardCall = .prune) := by
  cases call with
  | insert key value charge deleter =>
    rw [ShardedCall.on] at seen
    split_ifs at seen
    exact Or.inl ⟨key, value, charge, deleter, rfl, (Option.some.inj seen).symm⟩
  | lookup key =>
    rw [ShardedCall.on] at seen
    split_ifs at seen
    exact Or.inr (Or.inl ⟨key, rfl, (Option.some.inj seen).symm⟩)
  | release handle =>
    rw [ShardedCall.on] at seen
    split_ifs at seen with same
    exact Or.inr (Or.inr (Or.inl ⟨handle, rfl, same, (Option.some.inj seen).symm⟩))
  | erase key =>
    rw [ShardedCall.on] at seen
    split_ifs at seen
    exact Or.inr (Or.inr (Or.inr (Or.inl ⟨key, rfl, (Option.some.inj seen).symm⟩)))
  | prune => exact Or.inr (Or.inr (Or.inr (Or.inr ⟨rfl, (Option.some.inj seen).symm⟩)))
  | value handle => cases seen
  | newId => cases seen
  | totalCharge => cases seen

/-- A call on another key does not touch the key in any shard. -/
theorem not_touches_of_on {index : Nat} (stays : ¬ call.Touches key)
    (seen : call.on index = some shardCall) : ¬ shardCall.Touches key (hashSlice key) := by
  intro touches
  obtain ⟨key', _, _, _, rfl, rfl⟩ | ⟨_, rfl, rfl⟩ | ⟨_, rfl, -, rfl⟩ | ⟨key', rfl, rfl⟩ |
    ⟨rfl, rfl⟩ := on_cases seen
  · exact stays touches.1
  · exact touches
  · exact touches
  · exact stays touches.1
  · exact touches

/-- A call that leaves the key alone keeps the entry cached while its handle is outstanding. -/
theorem Inserted.step {entry : Entry Value Deleter}
    (inserted : ∃ contents, client.Inserted entry handle contents)
    (isHash : entry.hash = hashSlice entry.key) (inside : handle.shard < kNumShards)
    (allowed : client.Allowed call) (stays : ¬ call.Touches entry.key) :
    ∃ next, client.step call = some next ∧
      ∃ contents, next.Inserted entry handle contents := by
  obtain ⟨contents, inserted⟩ := inserted
  obtain ⟨next, stepped, after⟩ := inserted.tracks.step call allowed
  refine ⟨next, stepped, contentsStep contents call, after, ?_⟩
  unfold contentsStep
  cases seen : call.on handle.shard with
  | none => exact inserted.pinned
  | some shardCall =>
    apply inserted.pinned.step (inserted.tracks handle.shard inside).holds
    rw [isHash]
    exact not_touches_of_on stays seen

end Calls

/-- An entry with an outstanding handle is found, and the handle leads to its value. -/
theorem Inserted.lookup {entry : Entry Value Deleter} {handle : CacheHandle}
    (inserted : client.Inserted entry handle contents) (isHash : entry.hash = hashSlice entry.key)
    (home : handle.shard = shardOf (hashSlice entry.key)) (outstanding : client.Outstanding handle)
    (allowed : client.Allowed (.lookup entry.key)) :
    ∃ cache, client.cache.lookup entry.key = some (cache, some handle) ∧
      cache.value handle = some entry.value := by
  obtain ⟨inside, held⟩ := outstanding
  have tracksShard := inserted.tracks _ inside
  rw [tracksShard.handles_eq] at held
  have found := inserted.pinned.find tracksShard.holds held
  obtain ⟨cache, looked, next, stepped, rfl, after⟩ := inserted.tracks.lookup allowed
  have seen : contentsStep contents (.lookup entry.key) handle.shard =
      (contents handle.shard).lookup entry.key (hashSlice entry.key) := by
    simp only [contentsStep, ShardedCall.on, home, if_true]
    rfl
  have frame := (contents handle.shard).lookup_frame entry.key (hashSlice entry.key)
  refine ⟨next.cache, ?_, ?_⟩
  · rw [isHash, home] at found
    rw [looked, found, Option.map_some, ← home]
  · -- After the lookup the entry is still the one that was inserted, and has a handle more.
    have known : (contentsStep contents (.lookup entry.key) handle.shard).entries[handle.id]? =
        some entry := by
      rw [seen, frame.1]
      exact inserted.pinned.known
    have heldAfter :
        handle.id ∈ (contentsStep contents (.lookup entry.key) handle.shard).handles := by
      rw [seen, frame.2]
      exact List.mem_append_right _ held
    obtain ⟨inCache, refs, stored⟩ := (after _ inside).holds.stored_of_held known heldAfter
    simp only [ShardedLRUCache.value, entryOf, getShard, if_pos inside, Option.bind_eq_bind,
      Option.bind_some, stored]
    rfl

/-! ### Runs -/

/-- The shards have a capacity unless the sum wraps. -/
theorem perShard_pos_iff {capacity : Nat} (positive : 0 < capacity) (fits : capacity < 2 ^ 64) :
    0 < perShard capacity ↔ capacity + 15 < 2 ^ 64 := by
  have shards : kNumShards = 16 := rfl
  simp only [perShard, truncU64, shards]
  omega

/-- A new cache has sixteen empty shards. -/
theorem new_tracks (Value Deleter : Type) (capacity : Nat) :
    ∃ client, new Value Deleter capacity = some client ∧
      client.Tracks fun _ => Contents.new (perShard capacity) := by
  obtain ⟨shard, created, holds, -⟩ :=
    @LRUCache.Holds.new Value Deleter (perShard capacity)
  refine ⟨⟨⟨fun _ => shard, 0⟩, fun _ => []⟩, ?_, fun index _ => ⟨holds, rfl, ?_⟩⟩
  · simp [new, ShardedLRUCache.new, created]
  · intro entry member
    cases member

/-- Every shard has contents of the same capacity. -/
def TracksCapacity (capacity : Nat) (client : ShardedClient Value Deleter) : Prop :=
  ∃ contents, client.Tracks contents ∧ ∀ index, (contents index).capacity = perShard capacity

/-- No call changes the capacity of a shard. -/
theorem TracksCapacity.step {capacity : Nat} (tracks : TracksCapacity capacity client)
    (call : ShardedCall Value Deleter) (allowed : client.Allowed call) :
    ∃ next, client.step call = some next ∧ TracksCapacity capacity next := by
  obtain ⟨contents, tracks, capacities⟩ := tracks
  obtain ⟨next, stepped, after⟩ := tracks.step call allowed
  refine ⟨next, stepped, contentsStep contents call, after, fun index => ?_⟩
  unfold contentsStep
  cases call.on index with
  | none => exact capacities index
  | some shardCall => exact (Contents.capacity_step _ shardCall).trans (capacities index)

/-- An entry is cached after its insertion, if the shards have a capacity. -/
theorem TracksCapacity.insert {capacity : Nat} (tracks : TracksCapacity capacity client)
    (positive : 0 < perShard capacity) {key : Bytes} {value : Value} {charge : Nat}
    {deleter : Deleter} (allowed : client.Allowed (.insert key value charge deleter)) :
    ∃ cache handle next, client.cache.insert key value charge deleter = some (cache, handle) ∧
      handle.shard = shardOf (hashSlice key) ∧
      client.step (.insert key value charge deleter) = some next ∧
      ∃ contents, next.Inserted ⟨key, hashSlice key, value, charge, deleter⟩ handle contents := by
  obtain ⟨contents, tracks, capacities⟩ := tracks
  have inside := shardOf_hashSlice_lt key
  obtain ⟨cache, inserted, after⟩ := tracks.insert allowed
  have seen : contentsStep contents (.insert key value charge deleter) (shardOf (hashSlice key)) =
      (contents (shardOf (hashSlice key))).insert
        ⟨key, hashSlice key, value, charge, deleter⟩ := by
    simp only [contentsStep, ShardedCall.on, if_true]
    rfl
  refine ⟨cache, _, _, inserted, rfl, ?_, _, after, ?_⟩
  · simp only [ShardedClient.step, inserted, Option.bind_eq_bind, Option.bind_some]
  · rw [seen]
    apply (tracks _ inside).holds.pinned_insert
    rw [capacities]
    exact positive

/-- What an insertion returns is outstanding after it. -/
theorem outstanding_insert {client next : ShardedClient Value Deleter} {key : Bytes}
    {value : Value} {charge : Nat} {deleter : Deleter} {cache : ShardedLRUCache Value Deleter}
    {handle : CacheHandle}
    (stepped : client.step (.insert key value charge deleter) = some next)
    (inserted : client.cache.insert key value charge deleter = some (cache, handle)) :
    next.Outstanding handle := by
  simp only [ShardedClient.step, inserted, Option.bind_eq_bind, Option.bind_some,
    Option.some.injEq] at stepped
  subst stepped
  constructor
  · simp only [ShardedLRUCache.insert, getShard, if_pos (shardOf_hashSlice_lt key),
      Option.bind_eq_bind, Option.bind_some, Option.bind_eq_some_iff, Option.some.injEq,
      Prod.mk.injEq] at inserted
    obtain ⟨_, _, -, rfl⟩ := inserted
    exact shardOf_hashSlice_lt key
  · simp [hold]

/-- A run is one on the new cache. -/
theorem run_eq_some {capacity : Nat} {calls : List (ShardedCall Value Deleter)}
    {client final : ShardedClient Value Deleter}
    (created : new Value Deleter capacity = some client)
    (ran : Machine.run step client calls = some final) : run capacity calls = some final := by
  simp [run, created, ran]

/-- Shards with a capacity cache. -/
theorem caches_of_pos {capacity : Nat} (positive : 0 < perShard capacity) :
    Caches Value Deleter capacity := by
  intro before after key value charge deleter keeps
  obtain ⟨start, created, tracks⟩ := new_tracks Value Deleter capacity
  obtain ⟨beforeMeets, rest⟩ := Machine.meets_append (keeps start created)
  obtain ⟨middle, ran, tracksMiddle⟩ := @Machine.run_possible _ _ step Allowed _
    (fun tracks allowed => TracksCapacity.step tracks _ allowed) before start
    ⟨_, tracks, fun _ => rfl⟩ beforeMeets
  obtain ⟨insertAllowed, laterMeets⟩ := rest middle ran
  obtain ⟨cache, handle, next, inserted, home, stepped, isInserted⟩ :=
    tracksMiddle.insert positive insertAllowed
  refine ⟨middle, cache, handle, run_eq_some created ran, inserted, fun stays => ?_⟩
  have inside : handle.shard < kNumShards := home ▸ shardOf_hashSlice_lt key
  obtain ⟨afterMeets, lookupMeets⟩ := Machine.meets_append (laterMeets next stepped)
  obtain ⟨final, ranAfter, contents, insertedFinal⟩ := Machine.run_possible
    (fun isInserted allowed => Inserted.step isInserted rfl inside allowed.1 allowed.2) isInserted
    (afterMeets.and_forall stays)
  refine ⟨final, run_eq_some created ?_, fun outstanding => ?_⟩
  · apply Machine.run_append_eq_some.mpr
    exact ⟨middle, ran, Machine.run_cons_eq_some.mpr ⟨next, stepped, ranAfter⟩⟩
  · obtain ⟨cache', looked, isValue⟩ :=
      insertedFinal.lookup rfl home outstanding (lookupMeets final ranAfter).1
    exact ⟨cache', handle, looked, isValue⟩

/-- A shard without a capacity caches nothing. -/
theorem cached_insert_zero (entry : Entry Value Deleter) :
    ((Contents.new 0).insert entry).cached = [] := by
  simp [Contents.insert, Contents.new, Contents.evict, Contents.evictFrom, Contents.allocate,
    Contents.cached]

/-- Shards without a capacity do not cache: the first value inserted is not found. -/
theorem not_caches_of_zero [Inhabited Value] [Inhabited Deleter] {capacity : Nat}
    (nothing : perShard capacity = 0) : ¬ Caches Value Deleter capacity := by
  intro caches
  obtain ⟨start, created, tracks⟩ := new_tracks Value Deleter capacity
  rw [nothing] at tracks
  have inside := shardOf_hashSlice_lt []
  have allowed : start.Allowed (.insert [] default 0 default) :=
    Or.inl (tracks _ inside).holds.capacity
  obtain ⟨next, stepped, after⟩ := tracks.step _ allowed
  have empty : (contentsStep (fun _ => Contents.new 0)
      (.insert [] (default : Value) 0 (default : Deleter))
      (shardOf (hashSlice []))).cached = [] := by
    simp only [contentsStep, ShardedCall.on, if_true]
    exact cached_insert_zero _
  have lookupAllowed : next.Allowed (.lookup []) := by
    intro id member
    have cached := (after _ inside).holds.cachedIds_perm.mem_iff.mp member
    rw [empty] at cached
    cases cached
  have keeps : Keeps capacity ([] ++ .insert [] (default : Value) 0 (default : Deleter) ::
      ([] ++ [.lookup []])) := by
    intro client isNew
    obtain rfl := Option.some.inj (created.symm.trans isNew)
    exact Machine.meets_of_step stepped allowed ⟨lookupAllowed, fun _ _ => trivial⟩
  obtain ⟨middle, cache, handle, ranBefore, inserted, finds⟩ :=
    caches [] [] [] default 0 default keeps
  obtain ⟨final, ran, finds⟩ := finds (by simp)
  have reached : run capacity [.insert [] (default : Value) 0 (default : Deleter)] = some next :=
    run_eq_some created (Machine.run_cons_eq_some.mpr ⟨next, stepped, rfl⟩)
  obtain rfl := Option.some.inj (reached.symm.trans ran)
  obtain rfl := Option.some.inj ((run_eq_some created rfl).symm.trans ranBefore)
  obtain ⟨cache', found, looked, -⟩ := finds (outstanding_insert stepped inserted)
  obtain ⟨_, isNull, -⟩ := after.lookup lookupAllowed
  rw [isNull, Contents.find, empty] at looked
  cases looked

/-- A cache with a positive capacity caches if and only if the capacity is not one of the
fifteen largest. -/
theorem sharded_cache_caches_iff [Inhabited Value] [Inhabited Deleter] {capacity : Nat}
    (positive : 0 < capacity) (fits : capacity < 2 ^ 64) :
    Caches Value Deleter capacity ↔ capacity + 15 < 2 ^ 64 := by
  rw [← perShard_pos_iff positive fits]
  constructor
  · intro caches
    apply Nat.pos_of_ne_zero
    intro nothing
    exact not_caches_of_zero nothing caches
  · exact caches_of_pos

/-- A cache of capacity 16 caches. -/
theorem sharded_cache_caches_sixteen : Caches Nat Unit 16 :=
  (sharded_cache_caches_iff (by decide) (by decide)).mpr (by decide)

-- What a lookup returned is given back; the handle of the insertion is still outstanding.
example : ∃ client, run 16 [.insert [] 7 1 (), .lookup [],
      .release ⟨shardOf (hashSlice []), 0⟩] = some client ∧
    client.Outstanding ⟨shardOf (hashSlice []), 0⟩ ∧
    (client.cache.lookup []).map (fun looked => looked.2.isSome) = some true :=
  ⟨_, rfl, ⟨shardOf_hashSlice_lt [], by decide⟩, rfl⟩

/-- With the largest capacity, a value that was just inserted is not found, although its handle
is outstanding. -/
theorem largest_capacity_caches_nothing :
    ∃ (client : ShardedClient Nat Unit) (cache : ShardedLRUCache Nat Unit),
      run (2 ^ 64 - 1) [.insert [] 7 1 ()] = some client ∧
      client.Outstanding ⟨shardOf (hashSlice []), 0⟩ ∧
      client.cache.lookup [] = some (cache, none) :=
  ⟨_, _, rfl, ⟨shardOf_hashSlice_lt [], by decide⟩, rfl⟩

end ShardedClient

end LevelDbXy
