import LevelDbXy.Cache.Pinned
import LevelDbXy.FilterPolicy.Bloom

/-!
# The sharded cache

`ShardedLRUCache` of `cache/cache.cpp` divides the keys among sixteen caches by the high bits
of their hashes, and the capacity evenly. A handle is the address of an entry: the shard that
allocated it and its number there. An operation has no result if one of a shard has none, or
if it selects no shard.

Each shard sees the calls on its own keys (`ShardedCall.on`), so that what holds of one cache
holds of each shard.
-/

namespace LevelDbXy

/-- `Cache::Handle *`. -/
structure CacheHandle where
  shard : Nat
  id : Nat
  deriving DecidableEq, Repr

/-- `ShardedLRUCache`. -/
structure ShardedLRUCache (Value Deleter : Type) where
  shard : Nat → LRUCache Value Deleter
  lastId : Nat

namespace ShardedLRUCache

/-- `kNumShardBits`. -/
def kNumShardBits : Nat := 4

/-- `kNumShards`. -/
def kNumShards : Nat := 1 <<< kNumShardBits

variable {Value Deleter : Type}

/-- `HashSlice`. -/
def hashSlice (s : Bytes) : Nat := (LevelDbXy.hash s 0).toNat

/-- `Shard`. -/
def shardOf (hash : Nat) : Nat := hash >>> (32 - kNumShardBits)

/-- The capacity of each shard. -/
def perShard (capacity : Nat) : Nat := truncU64 (capacity + (kNumShards - 1)) / kNumShards

/-- `ShardedLRUCache::ShardedLRUCache`. -/
def new (capacity : Nat) : Option (ShardedLRUCache Value Deleter) := do
  let shard ← LRUCache.new (perShard capacity)
  some { shard := fun _ => shard, lastId := 0 }

/-- `shard_[index]`. -/
def getShard (cache : ShardedLRUCache Value Deleter) (index : Nat) :
    Option (LRUCache Value Deleter) :=
  if index < kNumShards then some (cache.shard index) else none

/-- The cache after an operation on a shard. -/
def setShard (cache : ShardedLRUCache Value Deleter) (index : Nat)
    (shard : LRUCache Value Deleter) : ShardedLRUCache Value Deleter :=
  { cache with shard := Function.update cache.shard index shard }

/-- `Insert`. -/
def insert (cache : ShardedLRUCache Value Deleter) (key : Bytes) (value : Value) (charge : Nat)
    (deleter : Deleter) : Option (ShardedLRUCache Value Deleter × CacheHandle) := do
  let hash := hashSlice key
  let shard ← cache.getShard (shardOf hash)
  let (shard, id) ← shard.insert key hash value charge deleter
  some (cache.setShard (shardOf hash) shard, ⟨shardOf hash, id⟩)

/-- `Lookup`. -/
def lookup (cache : ShardedLRUCache Value Deleter) (key : Bytes) :
    Option (ShardedLRUCache Value Deleter × Option CacheHandle) := do
  let hash := hashSlice key
  let shard ← cache.getShard (shardOf hash)
  let (shard, found) ← shard.lookup key hash
  some (cache.setShard (shardOf hash) shard, found.map fun id => ⟨shardOf hash, id⟩)

/-- `*handle`. -/
def entryOf (cache : ShardedLRUCache Value Deleter) (handle : CacheHandle) :
    Option (LRUHandle Value Deleter) := do
  let shard ← cache.getShard handle.shard
  shard.heap handle.id

/-- `Release`. -/
def release (cache : ShardedLRUCache Value Deleter) (handle : CacheHandle) :
    Option (ShardedLRUCache Value Deleter) := do
  let h ← cache.entryOf handle
  let shard ← cache.getShard (shardOf h.hash)
  let shard ← shard.release handle.id
  some (cache.setShard (shardOf h.hash) shard)

/-- `Value`. -/
def value (cache : ShardedLRUCache Value Deleter) (handle : CacheHandle) : Option Value := do
  let h ← cache.entryOf handle
  some h.value

/-- `Erase`. -/
def erase (cache : ShardedLRUCache Value Deleter) (key : Bytes) :
    Option (ShardedLRUCache Value Deleter) := do
  let hash := hashSlice key
  let shard ← cache.getShard (shardOf hash)
  let shard ← shard.erase key hash
  some (cache.setShard (shardOf hash) shard)

/-- `NewId`. -/
def newId (cache : ShardedLRUCache Value Deleter) : ShardedLRUCache Value Deleter × Nat :=
  let lastId := truncU64 (cache.lastId + 1)
  ({ cache with lastId }, lastId)

/-- The loop of `Prune` over these shards. -/
def pruneFrom (cache : ShardedLRUCache Value Deleter) (indices : List Nat) :
    Option (ShardedLRUCache Value Deleter) :=
  indices.foldlM (fun cache s => do
    let shard ← cache.getShard s
    let shard ← shard.prune
    some (cache.setShard s shard)) cache

/-- `Prune`. -/
def prune (cache : ShardedLRUCache Value Deleter) : Option (ShardedLRUCache Value Deleter) :=
  cache.pruneFrom (List.range kNumShards)

/-- `TotalCharge`. -/
def totalCharge (cache : ShardedLRUCache Value Deleter) : Nat :=
  (List.range kNumShards).foldl (fun total s => truncU64 (total + (cache.shard s).usage)) 0

end ShardedLRUCache

/-- A call of the interface of `Cache`. -/
inductive ShardedCall (Value Deleter : Type) where
  | insert (key : Bytes) (value : Value) (charge : Nat) (deleter : Deleter)
  | lookup (key : Bytes)
  | release (handle : CacheHandle)
  | value (handle : CacheHandle)
  | erase (key : Bytes)
  | newId
  | prune
  | totalCharge

/-- A sharded cache and the outstanding handles, by shard. -/
structure ShardedClient (Value Deleter : Type) where
  cache : ShardedLRUCache Value Deleter
  handles : Nat → List Nat

open ShardedLRUCache

namespace ShardedClient

variable {Value Deleter : Type}

/-- A new cache that nobody has used. -/
def new (Value Deleter : Type) (capacity : Nat) : Option (ShardedClient Value Deleter) := do
  let cache ← ShardedLRUCache.new capacity
  some { cache, handles := fun _ => [] }

/-- The callers have one handle more. -/
def hold (client : ShardedClient Value Deleter) (handle : CacheHandle) :
    ShardedClient Value Deleter :=
  { client with
    handles := Function.update client.handles handle.shard
      (handle.id :: client.handles handle.shard) }

/-- A call and the handles that callers have after it. -/
def step (client : ShardedClient Value Deleter) :
    ShardedCall Value Deleter → Option (ShardedClient Value Deleter)
  | .insert key value charge deleter => do
    let (cache, handle) ← client.cache.insert key value charge deleter
    some (hold { client with cache } handle)
  | .lookup key => do
    let (cache, found) ← client.cache.lookup key
    some (found.elim { client with cache } (hold { client with cache }))
  | .release handle => do
    let cache ← client.cache.release handle
    some
      { cache
        handles := Function.update client.handles handle.shard
          ((client.handles handle.shard).erase handle.id) }
  | .value handle => do
    let _ ← client.cache.value handle
    some client
  | .erase key => do
    let cache ← client.cache.erase key
    some { client with cache }
  | .newId => some { client with cache := client.cache.newId.1 }
  | .prune => do
    let cache ← client.cache.prune
    some { client with cache }
  | .totalCharge => some client

/-- What the callers have to do with one shard. -/
def view (client : ShardedClient Value Deleter) (index : Nat) : CacheClient Value Deleter :=
  { cache := client.cache.shard index
    entries := []
    handles := client.handles index
    results := [] }

/-- The handle has not been released as often as it was returned. -/
def Outstanding (client : ShardedClient Value Deleter) (handle : CacheHandle) : Prop :=
  handle.shard < kNumShards ∧ handle.id ∈ client.handles handle.shard

instance (client : ShardedClient Value Deleter) (handle : CacheHandle) :
    Decidable (client.Outstanding handle) :=
  inferInstanceAs (Decidable (_ ∧ _))

/-- What callers keep to: what they do on one shard, and only outstanding handles are used. -/
def Allowed (client : ShardedClient Value Deleter) : ShardedCall Value Deleter → Prop
  | .insert key value charge deleter =>
    (client.view (shardOf (hashSlice key))).Allowed
      (.insert ⟨key, hashSlice key, value, charge, deleter⟩)
  | .lookup key =>
    (client.view (shardOf (hashSlice key))).Allowed (.lookup key (hashSlice key))
  | .release handle => client.Outstanding handle
  | .value handle => client.Outstanding handle
  | _ => True

/-- A run of calls on a new cache. -/
def run (capacity : Nat) (calls : List (ShardedCall Value Deleter)) :
    Option (ShardedClient Value Deleter) := do
  let client ← new Value Deleter capacity
  Machine.run step client calls

/-- Every call of the run is one that callers keep to. -/
def Keeps (capacity : Nat) (calls : List (ShardedCall Value Deleter)) : Prop :=
  ∀ client, new Value Deleter capacity = some client → Machine.Meets step Allowed client calls

end ShardedClient

/-- What a shard sees of a call. -/
def ShardedCall.on {Value Deleter : Type} (index : Nat) :
    ShardedCall Value Deleter → Option (CacheCall Value Deleter)
  | .insert key v charge deleter =>
    if index = shardOf (hashSlice key) then
      some (.insert ⟨key, hashSlice key, v, charge, deleter⟩)
    else none
  | .lookup key =>
    if index = shardOf (hashSlice key) then some (.lookup key (hashSlice key)) else none
  | .release handle => if index = handle.shard then some (.release handle.id) else none
  | .erase key =>
    if index = shardOf (hashSlice key) then some (.erase key (hashSlice key)) else none
  | .prune => some .prune
  | _ => none

namespace ShardedClient

variable {Value Deleter : Type} {client : ShardedClient Value Deleter}
  {contents : Nat → Contents Value Deleter}

/-- The effect of a call on the contents of the shards. -/
def contentsStep (contents : Nat → Contents Value Deleter) (call : ShardedCall Value Deleter)
    (index : Nat) : Contents Value Deleter :=
  (call.on index).elim (contents index) (contents index).step

/-- A shard holds its contents, its handles are outstanding, and its entries belong there. -/
structure TracksShard (shard : LRUCache Value Deleter) (handles : List Nat) (index : Nat)
    (contents : Contents Value Deleter) : Prop where
  holds : shard.Holds contents
  handles_eq : handles = contents.handles
  home : ∀ entry ∈ contents.entries, shardOf entry.hash = index

/-- Each shard holds its contents. -/
def Tracks (client : ShardedClient Value Deleter) (contents : Nat → Contents Value Deleter) :
    Prop :=
  ∀ index < kNumShards,
    TracksShard (client.cache.shard index) (client.handles index) index (contents index)

/-- Every key has a shard. -/
theorem shardOf_hashSlice_lt (key : Bytes) : shardOf (hashSlice key) < kNumShards := by
  have bound : hashSlice key < 2 ^ 32 := UInt32.toNat_lt _
  simp only [shardOf, kNumShards, kNumShardBits, Nat.shiftRight_eq_div_pow, Nat.shiftLeft_eq]
  omega

/-- A call on one shard leaves the others alone. -/
theorem Tracks.change (tracks : client.Tracks contents) {index : Nat}
    {call : ShardedCall Value Deleter} {shardCall : CacheCall Value Deleter}
    (seen : ∀ other, call.on other = if other = index then some shardCall else none)
    {shard : LRUCache Value Deleter} {handles : List Nat}
    (changed : TracksShard shard handles index ((contents index).step shardCall)) :
    Tracks ⟨client.cache.setShard index shard, Function.update client.handles index handles⟩
      (contentsStep contents call) := by
  intro other inside
  by_cases same : other = index
  · subst same
    simpa [contentsStep, seen, setShard] using changed
  · simpa [contentsStep, seen, setShard, same] using tracks other inside

/-- A handle leads to an entry of its shard. -/
theorem TracksShard.entry_of_handle {shard : LRUCache Value Deleter} {handles : List Nat}
    {index id : Nat} {contents : Contents Value Deleter}
    (tracks : TracksShard shard handles index contents) (held : id ∈ handles) :
    ∃ entry, shard.heap id = some entry ∧ shardOf entry.hash = index := by
  rw [tracks.handles_eq] at held
  have inside := tracks.holds.held id held
  obtain ⟨inCache, refs, stored⟩ :=
    tracks.holds.stored_of_held (List.getElem?_eq_getElem inside) held
  exact ⟨_, stored, tracks.home _ (List.getElem_mem inside)⟩

/-- The entries of a shard after a call that inserts none. -/
theorem TracksShard.same_entries {shard shard' : LRUCache Value Deleter}
    {handles handles' : List Nat} {index : Nat} {contents contents' : Contents Value Deleter}
    (tracks : TracksShard shard handles index contents) (holds : shard'.Holds contents')
    (sameHandles : handles' = contents'.handles)
    (sameEntries : contents'.entries = contents.entries) :
    TracksShard shard' handles' index contents' :=
  ⟨holds, sameHandles, sameEntries ▸ tracks.home⟩

section Calls

variable (tracks : client.Tracks contents)
include tracks

/-- An insertion goes to the shard of its key, and its handle is outstanding. -/
theorem Tracks.insert {key : Bytes} {value : Value} {charge : Nat} {deleter : Deleter}
    (allowed : client.Allowed (.insert key value charge deleter)) :
    ∃ cache, client.cache.insert key value charge deleter = some (cache,
        ⟨shardOf (hashSlice key), (contents (shardOf (hashSlice key))).entries.length⟩) ∧
      Tracks (hold { client with cache }
          ⟨shardOf (hashSlice key), (contents (shardOf (hashSlice key))).entries.length⟩)
        (contentsStep contents (.insert key value charge deleter)) := by
  have inside := shardOf_hashSlice_lt key
  have tracksShard := tracks _ inside
  have holds := tracksShard.holds
  have room := holds.insert_room rfl allowed
  obtain ⟨shard, inserted, after, -⟩ := holds.insert room
  obtain ⟨entries, handles⟩ := (contents (shardOf (hashSlice key))).insert_frame
    ⟨key, hashSlice key, value, charge, deleter⟩
  refine ⟨client.cache.setShard (shardOf (hashSlice key)) shard, ?_, ?_⟩
  · simp only [ShardedLRUCache.insert, getShard, if_pos inside, Option.bind_eq_bind,
      Option.bind_some, inserted]
  · apply tracks.change (fun other => rfl)
    refine ⟨after, ?_, ?_⟩
    · rw [Contents.step, handles, tracksShard.handles_eq]
    · intro entry member
      rw [Contents.step, entries] at member
      rcases List.mem_append.mp member with before | new
      · exact tracksShard.home entry before
      · rw [List.mem_singleton.mp new]

/-- A lookup asks the shard of its key, and adds a handle on what it finds. -/
theorem Tracks.lookup {key : Bytes} (allowed : client.Allowed (.lookup key)) :
    ∃ cache, client.cache.lookup key = some (cache,
        ((contents (shardOf (hashSlice key))).find key (hashSlice key)).map
          fun id => ⟨shardOf (hashSlice key), id⟩) ∧
      ∃ next, client.step (.lookup key) = some next ∧
        next.cache = cache ∧ next.Tracks (contentsStep contents (.lookup key)) := by
  have inside := shardOf_hashSlice_lt key
  have tracksShard := tracks _ inside
  have holds := tracksShard.holds
  have room := holds.lookup_room rfl tracksShard.handles_eq allowed
  obtain ⟨shard, found, after, -⟩ := holds.lookup room
  obtain ⟨entries, handles⟩ :=
    (contents (shardOf (hashSlice key))).lookup_frame key (hashSlice key)
  have looked : client.cache.lookup key = some
      (client.cache.setShard (shardOf (hashSlice key)) shard,
        ((contents (shardOf (hashSlice key))).find key (hashSlice key)).map
          fun id => ⟨shardOf (hashSlice key), id⟩) := by
    simp only [ShardedLRUCache.lookup, getShard, if_pos inside, Option.bind_eq_bind,
      Option.bind_some, found]
  refine ⟨_, looked,
    ⟨client.cache.setShard (shardOf (hashSlice key)) shard,
      Function.update client.handles (shardOf (hashSlice key))
        (((contents (shardOf (hashSlice key))).find key (hashSlice key)).toList ++
          client.handles (shardOf (hashSlice key)))⟩, ?_, rfl, ?_⟩
  · simp only [step, looked, Option.bind_eq_bind, Option.bind_some]
    cases (contents (shardOf (hashSlice key))).find key (hashSlice key) with
    | none => simp
    | some id => rfl
  · apply tracks.change (fun other => rfl)
    refine tracksShard.same_entries after ?_ entries
    rw [Contents.step, handles, tracksShard.handles_eq]

/-- A handle goes back to its shard. -/
theorem Tracks.release {handle : CacheHandle} (allowed : client.Outstanding handle) :
    ∃ next, client.step (.release handle) = some next ∧
      next.Tracks (contentsStep contents (.release handle)) := by
  obtain ⟨inside, held⟩ := allowed
  have tracksShard := tracks _ inside
  obtain ⟨entry, stored, home⟩ := tracksShard.entry_of_handle held
  have held' := held
  rw [tracksShard.handles_eq] at held'
  obtain ⟨shard, released, after, -⟩ := tracksShard.holds.release held'
  have ran : client.cache.release handle = some (client.cache.setShard handle.shard shard) := by
    simp only [ShardedLRUCache.release, entryOf, getShard, if_pos inside, Option.bind_eq_bind,
      Option.bind_some, stored, home, released]
  refine ⟨⟨client.cache.setShard handle.shard shard,
    Function.update client.handles handle.shard
      ((client.handles handle.shard).erase handle.id)⟩, ?_, ?_⟩
  · simp only [step, ran, Option.bind_eq_bind, Option.bind_some]
  · apply tracks.change (fun other => rfl)
    refine tracksShard.same_entries after ?_ (Contents.entries_unpin _ _)
    rw [Contents.step, Contents.handles_unpin, tracksShard.handles_eq]

/-- A key is erased in its shard. -/
theorem Tracks.erase (key : Bytes) :
    ∃ next, client.step (.erase key) = some next ∧
      next.Tracks (contentsStep contents (.erase key)) := by
  have inside := shardOf_hashSlice_lt key
  have tracksShard := tracks _ inside
  obtain ⟨shard, erased, after, -⟩ := tracksShard.holds.erase key (hashSlice key)
  have ran : client.cache.erase key =
      some (client.cache.setShard (shardOf (hashSlice key)) shard) := by
    simp only [ShardedLRUCache.erase, getShard, if_pos inside, Option.bind_eq_bind,
      Option.bind_some, erased]
  refine ⟨⟨client.cache.setShard (shardOf (hashSlice key)) shard, client.handles⟩, ?_, ?_⟩
  · simp only [step, ran, Option.bind_eq_bind, Option.bind_some]
  · rw [← Function.update_eq_self (shardOf (hashSlice key)) client.handles]
    apply tracks.change (fun other => rfl)
    exact tracksShard.same_entries after tracksShard.handles_eq rfl

omit tracks in
/-- The loop of `Prune` has pruned these shards. -/
theorem pruneFrom_spec (indices : List Nat) (distinct : indices.Nodup)
    (inside : ∀ index ∈ indices, index < kNumShards) {cache : ShardedLRUCache Value Deleter}
    (holds : ∀ index < kNumShards, (cache.shard index).Holds (contents index)) :
    ∃ cache', cache.pruneFrom indices = some cache' ∧
      ∀ index < kNumShards, (cache'.shard index).Holds
        (if index ∈ indices then (contents index).prune else contents index) := by
  induction indices generalizing cache contents with
  | nil => exact ⟨cache, rfl, by simpa using holds⟩
  | cons index indices inductionHypothesis =>
    obtain ⟨notLater, laterDistinct⟩ := List.nodup_cons.mp distinct
    have indexInside := inside index List.mem_cons_self
    obtain ⟨shard, pruned, after, -⟩ := (holds index indexInside).prune
    obtain ⟨cache', ran, all⟩ := @inductionHypothesis
      (Function.update contents index (contents index).prune) laterDistinct
      (fun other member => inside other (List.mem_cons_of_mem _ member))
      (cache.setShard index shard) (by
        intro other otherInside
        by_cases same : other = index
        · subst same
          simpa [setShard] using after
        · simpa [setShard, same] using holds other otherInside)
    refine ⟨cache', ?_, fun other otherInside => ?_⟩
    · simp only [pruneFrom, List.foldlM_cons, getShard, if_pos indexInside, Option.bind_eq_bind,
        Option.bind_some, pruned]
      exact ran
    · have held := all other otherInside
      by_cases same : other = index
      · subst same
        simpa [notLater] using held
      · simpa [same] using held

/-- All shards are pruned. -/
theorem Tracks.prune :
    ∃ next, client.step .prune = some next ∧ next.Tracks (contentsStep contents .prune) := by
  obtain ⟨cache, pruned, holds⟩ := pruneFrom_spec (List.range kNumShards) List.nodup_range
    (fun index => List.mem_range.mp) fun index inside => (tracks index inside).holds
  refine ⟨{ client with cache }, ?_, fun index inside => ?_⟩
  · simp only [step, ShardedLRUCache.prune, pruned, Option.bind_eq_bind, Option.bind_some]
  · have held := holds index inside
    rw [if_pos (List.mem_range.mpr inside)] at held
    obtain ⟨entries, handles⟩ := (contents index).evict_frame fun _ => true
    exact (tracks index inside).same_entries held
      ((tracks index inside).handles_eq.trans handles.symm) entries

/-- An allowed call has a result, and each shard sees its part of it. -/
theorem Tracks.step (call : ShardedCall Value Deleter) (allowed : client.Allowed call) :
    ∃ next, client.step call = some next ∧ next.Tracks (contentsStep contents call) := by
  cases call with
  | insert key value charge deleter =>
    obtain ⟨cache, inserted, after⟩ := tracks.insert allowed
    exact ⟨_, by simp only [ShardedClient.step, inserted, Option.bind_eq_bind, Option.bind_some],
      after⟩
  | lookup key =>
    obtain ⟨cache, -, next, stepped, -, after⟩ := tracks.lookup allowed
    exact ⟨next, stepped, after⟩
  | release handle => exact tracks.release allowed
  | value handle =>
    obtain ⟨entry, stored, -⟩ := (tracks _ allowed.1).entry_of_handle allowed.2
    refine ⟨client, ?_, tracks⟩
    simp only [ShardedClient.step, ShardedLRUCache.value, entryOf, getShard, if_pos allowed.1,
      Option.bind_eq_bind, Option.bind_some, stored]
  | erase key => exact tracks.erase key
  | newId => exact ⟨_, rfl, tracks⟩
  | prune => exact tracks.prune
  | totalCharge => exact ⟨client, rfl, tracks⟩

end Calls

end ShardedClient

end LevelDbXy
