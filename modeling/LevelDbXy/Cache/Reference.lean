import LevelDbXy.Cache.Representation

/-!
# The cache as a map and a queue

The purpose of the cache, without lists, references or hashes: a map from keys to entries,
and a queue of the mapped entries that nobody holds a handle on, in the order in which
their last handles were released. The contents of a cache simulate it as long as
a key is always hashed to the same value, and so does the cache itself.
-/

namespace LevelDbXy

/-- The call hashes its key with the given function. -/
def CacheCall.HashedBy {Value Deleter : Type} (hashOf : Bytes → Nat) :
    CacheCall Value Deleter → Prop
  | .insert entry => entry.hash = hashOf entry.key
  | .lookup key hash => hash = hashOf key
  | .erase key hash => hash = hashOf key
  | _ => True

instance {Value Deleter : Type} (hashOf : Bytes → Nat) :
    ∀ call : CacheCall Value Deleter, Decidable (call.HashedBy hashOf)
  | .insert _ => inferInstanceAs (Decidable (_ = _))
  | .lookup _ _ => inferInstanceAs (Decidable (_ = _))
  | .erase _ _ => inferInstanceAs (Decidable (_ = _))
  | .release _ => isTrue trivial
  | .prune => isTrue trivial

/-- A map from keys to inserted entries, the queue of those without a handle, the outstanding
handles and what the calls returned. -/
structure CacheReference (Value Deleter : Type) where
  capacity : Nat
  entries : List (Entry Value Deleter)
  map : Bytes → Option Nat
  queue : List Nat
  handles : List Nat
  results : List (Option Nat)

namespace CacheReference

variable {Value Deleter : Type}

/-- Nothing is mapped. -/
def new (capacity : Nat) : CacheReference Value Deleter :=
  { capacity, entries := [], map := fun _ => none, queue := [], handles := [], results := [] }

variable (reference : CacheReference Value Deleter)

/-- The entry is the one its key is mapped to. -/
def mapped (id : Nat) : Bool :=
  reference.entries[id]?.any fun entry => decide (reference.map entry.key = some id)

/-- The total charge of the mapped entries. -/
def total : Nat :=
  LRUCache.totalCharge reference.entries
    ((List.range reference.entries.length).filter reference.mapped)

/-- Remove the mapping of an entry, and the entry from the queue. -/
def remove (id : Nat) : CacheReference Value Deleter :=
  { reference with
    map := match reference.entries[id]? with
      | none => reference.map
      | some entry => Function.update reference.map entry.key none
    queue := reference.queue.erase id }

/-- Remove entries from the front of the queue, which is the given list, as long as `more`
asks for it. -/
def removeFrom (more : CacheReference Value Deleter → Bool) :
    List Nat → CacheReference Value Deleter → CacheReference Value Deleter
  | [], reference => reference
  | id :: rest, reference =>
    if more reference then removeFrom more rest (reference.remove id) else reference

/-- The mapping of the key of a new entry is replaced. -/
def replace (entry : Entry Value Deleter) : CacheReference Value Deleter :=
  { reference with
    entries := reference.entries ++ [entry]
    map := Function.update reference.map entry.key (some reference.entries.length)
    queue := LRUCache.without reference.queue (reference.map entry.key)
    handles := reference.entries.length :: reference.handles
    results := reference.results ++ [some reference.entries.length] }

/-- `Insert` replaces the mapping, and then removes entries from the front of the queue
while the total charge exceeds the capacity. -/
def insert (entry : Entry Value Deleter) : CacheReference Value Deleter :=
  removeFrom (fun reference => decide (reference.capacity < reference.total))
    (reference.replace entry).queue (reference.replace entry)

/-- `Lookup` takes the entry it finds out of the queue. -/
def lookup (key : Bytes) : CacheReference Value Deleter :=
  { reference with
    queue := LRUCache.without reference.queue (reference.map key)
    handles := (reference.map key).toList ++ reference.handles
    results := reference.results ++ [reference.map key] }

/-- `Release` of the last handle of a mapped entry appends it to the queue. -/
def release (id : Nat) : CacheReference Value Deleter :=
  { reference with
    queue := if reference.mapped id ∧ id ∉ reference.handles.erase id then reference.queue ++ [id]
      else reference.queue
    handles := reference.handles.erase id }

/-- `Erase` removes the mapping of the key. -/
def erase (key : Bytes) : CacheReference Value Deleter :=
  match reference.map key with
  | none => reference
  | some id => reference.remove id

/-- `Prune` removes all entries of the queue. -/
def prune : CacheReference Value Deleter :=
  removeFrom (fun _ => true) reference.queue reference

/-- The effect of a call. -/
def step : CacheCall Value Deleter → CacheReference Value Deleter
  | .insert entry => reference.insert entry
  | .lookup key _ => reference.lookup key
  | .release id => reference.release id
  | .erase key _ => reference.erase key
  | .prune => reference.prune

/-- Removing entries changes the map and the queue only. -/
theorem removeFrom_frame (more : CacheReference Value Deleter → Bool) (ids : List Nat)
    (reference : CacheReference Value Deleter) :
    (removeFrom more ids reference).capacity = reference.capacity ∧
      (removeFrom more ids reference).results = reference.results := by
  induction ids generalizing reference with
  | nil => exact ⟨rfl, rfl⟩
  | cons id ids inductionHypothesis =>
    rw [removeFrom]
    split_ifs
    · exact inductionHypothesis (reference.remove id)
    · exact ⟨rfl, rfl⟩

/-- No call changes the capacity. -/
theorem capacity_step (reference : CacheReference Value Deleter) (call : CacheCall Value Deleter) :
    (reference.step call).capacity = reference.capacity := by
  cases call with
  | insert entry => exact (removeFrom_frame _ _ (reference.replace entry)).1
  | lookup key hash => rfl
  | release id => rfl
  | erase key hash =>
    rw [step, erase]
    cases reference.map key <;> rfl
  | prune => exact (removeFrom_frame _ _ reference).1

/-- What a call returns. -/
theorem results_step (reference : CacheReference Value Deleter) (call : CacheCall Value Deleter) :
    (reference.step call).results = reference.results ++ (match call with
      | .insert _ => [some reference.entries.length]
      | .lookup key _ => [reference.map key]
      | _ => []) := by
  cases call with
  | insert entry => exact (removeFrom_frame _ _ (reference.replace entry)).2
  | lookup key hash => rfl
  | release id => exact (List.append_nil _).symm
  | erase key hash =>
    rw [step, erase]
    cases reference.map key <;> exact (List.append_nil _).symm
  | prune => exact (removeFrom_frame _ _ reference).2.trans (List.append_nil _).symm

end CacheReference

namespace Contents

variable {Value Deleter : Type} {hashOf : Bytes → Nat} {contents : Contents Value Deleter}
  {reference : CacheReference Value Deleter} {id : Nat}

/-- The contents simulate the reference: the mapped entries are the cached ones, and the
queue is `lru_`. -/
structure Simulates (hashOf : Bytes → Nat) (contents : Contents Value Deleter)
    (reference : CacheReference Value Deleter) : Prop where
  capacity : reference.capacity = contents.capacity
  entries : reference.entries = contents.entries
  handles : reference.handles = contents.handles
  queue : reference.queue = contents.lru
  hashes : ∀ entry ∈ contents.entries, entry.hash = hashOf entry.key
  distinct : contents.cached.Nodup
  known : ∀ id ∈ contents.cached, id < contents.entries.length
  idle : ∀ id ∈ contents.lru, id ∉ contents.handles
  map : ∀ key id, reference.map key = some id ↔ id ∈ contents.cached ∧
    ∃ entry, contents.entries[id]? = some entry ∧ entry.key = key
  bounded : LRUCache.totalCharge contents.entries contents.cached < 2 ^ 64

namespace Simulates

/-- The entry with a key and its hash is the mapped one. -/
theorem find (simulates : Simulates hashOf contents reference) (key : Bytes) :
    contents.find key (hashOf key) = reference.map key := by
  have named : ∀ id, contents.named key (hashOf key) id = true ↔
      ∃ entry, contents.entries[id]? = some entry ∧ entry.key = key := by
    intro id
    simp only [Contents.named, Option.any_eq_true, decide_eq_true_eq]
    refine exists_congr fun entry => and_congr_right fun known => ⟨And.right, fun sameKey => ?_⟩
    rw [simulates.hashes entry (List.mem_of_getElem? known), sameKey]
    exact ⟨rfl, rfl⟩
  cases found : contents.find key (hashOf key) with
  | some id =>
    have isNamed := (named id).mp (List.find?_some found)
    exact ((simulates.map key id).mpr ⟨List.mem_of_find?_eq_some found, isNamed⟩).symm
  | none =>
    cases isMapped : reference.map key with
    | none => rfl
    | some id =>
      obtain ⟨listed, isNamed⟩ := (simulates.map key id).mp isMapped
      exact absurd ((named id).mpr isNamed) (List.find?_eq_none.mp found id listed)

/-- An entry is mapped if it is cached. -/
theorem mapped_iff (simulates : Simulates hashOf contents reference) :
    reference.mapped id = true ↔ id ∈ contents.cached := by
  simp only [CacheReference.mapped, Option.any_eq_true, decide_eq_true_eq, simulates.entries,
    simulates.map]
  constructor
  · rintro ⟨entry, -, listed, -⟩
    exact listed
  · intro listed
    have known := List.getElem?_eq_getElem (simulates.known id listed)
    exact ⟨_, known, listed, _, known, rfl⟩

/-- The total charge of the mapped entries is that of the cached ones. -/
theorem total (simulates : Simulates hashOf contents reference) :
    reference.total = LRUCache.totalCharge contents.entries contents.cached := by
  rw [CacheReference.total, simulates.entries]
  refine LRUCache.totalCharge_perm _ ?_
  refine (List.perm_ext_iff_of_nodup (List.nodup_range.filter _) simulates.distinct).mpr
    fun id => ?_
  rw [List.mem_filter, List.mem_range, simulates.mapped_iff]
  exact and_iff_right_of_imp (simulates.known id)

/-- Nothing is cached and nothing is mapped. -/
theorem new (hashOf : Bytes → Nat) (capacity : Nat) :
    Simulates hashOf (Contents.new capacity : Contents Value Deleter)
      (CacheReference.new capacity) :=
  ⟨rfl, rfl, rfl, rfl, by simp [Contents.new], List.nodup_nil,
    by simp [Contents.new, Contents.cached], by simp [Contents.new],
    by simp [Contents.new, Contents.cached, CacheReference.new],
    Nat.two_pow_pos 64⟩

/-- Removing a mapping takes the entry out of the cache. -/
theorem drop (simulates : Simulates hashOf contents reference) (listed : id ∈ contents.cached) :
    Simulates hashOf (contents.drop (some id)) (reference.remove id) := by
  have sublist := contents.cached_drop_sublist (some id)
  have member : ∀ other, other ∈ (contents.drop (some id)).cached ↔
      other ∈ contents.cached ∧ other ≠ id := by
    intro other
    rw [mem_cached_drop simulates.distinct, ne_eq, Option.some.injEq, eq_comm]
  obtain ⟨entry, known⟩ : ∃ entry, contents.entries[id]? = some entry :=
    ⟨_, List.getElem?_eq_getElem (simulates.known id listed)⟩
  refine ⟨simulates.capacity, simulates.entries, simulates.handles, ?_, simulates.hashes,
    nodup_cached_drop simulates.distinct _, fun other inside => ?_, fun other inLru => ?_,
    fun key other => ?_, ?_⟩
  · rw [CacheReference.remove, simulates.queue]
    rfl
  · exact simulates.known other (sublist.subset inside)
  · exact simulates.idle other (List.mem_of_mem_erase inLru)
  · have own : reference.map entry.key = some id :=
      (simulates.map _ _).mpr ⟨listed, entry, known, rfl⟩
    simp only [CacheReference.remove, simulates.entries, known, member]
    by_cases sameKey : key = entry.key
    · subst sameKey
      rw [Function.update_self]
      refine iff_of_false (by simp) ?_
      rintro ⟨⟨inside, different⟩, isNamed⟩
      have other := (simulates.map _ _).mpr ⟨inside, isNamed⟩
      exact different (Option.some.inj (other.symm.trans own))
    · rw [Function.update_of_ne sameKey, simulates.map]
      refine and_congr_left fun ⟨otherEntry, otherKnown, otherKey⟩ => ?_
      refine (and_iff_left_of_imp fun _ => ?_).symm
      rintro rfl
      rw [known] at otherKnown
      exact sameKey (otherKey.symm.trans (congrArg Entry.key (Option.some.inj otherKnown)).symm)
  · refine lt_of_le_of_lt ?_ simulates.bounded
    exact (sublist.map _).sum_le_sum (by simp)

/-- The loops that take entries out of the cache. -/
theorem evictFrom {more : Contents Value Deleter → Bool}
    {more' : CacheReference Value Deleter → Bool}
    (agree : ∀ contents reference, Simulates hashOf contents reference →
      more contents = more' reference)
    {ids : List Nat} (simulates : Simulates hashOf contents reference)
    (shape : contents.lru = ids) :
    Simulates hashOf (evictFrom more ids contents)
      (CacheReference.removeFrom more' ids reference) := by
  induction ids generalizing contents reference with
  | nil => exact simulates
  | cons id ids inductionHypothesis =>
    rw [Contents.evictFrom, CacheReference.removeFrom, agree _ _ simulates]
    split_ifs
    · have listed : id ∈ contents.cached := List.mem_append_left _ (by simp [shape])
      refine inductionHypothesis (simulates.drop listed) ?_
      simp [Contents.drop, LRUCache.without, shape]
    · exact simulates

/-- A new entry that is not cached yet. -/
theorem allocate (simulates : Simulates hashOf contents reference) {entry : Entry Value Deleter}
    (hashed : entry.hash = hashOf entry.key) :
    Simulates hashOf (contents.allocate entry)
      { reference with
        entries := reference.entries ++ [entry]
        handles := reference.entries.length :: reference.handles } := by
  have inside : ∀ id ∈ contents.lru, id < contents.entries.length := fun id inLru =>
    simulates.known id (List.mem_append_left _ inLru)
  refine ⟨simulates.capacity, by rw [simulates.entries]; rfl, ?_, simulates.queue,
    fun other member => ?_, simulates.distinct, fun id listed => ?_, fun id inLru => ?_,
    fun key id => ?_, ?_⟩
  · rw [simulates.entries, simulates.handles]
    rfl
  · rcases List.mem_append.mp member with isOld | isNew
    · exact simulates.hashes other isOld
    · rw [List.mem_singleton.mp isNew]
      exact hashed
  · rw [Contents.allocate, List.length_append]
    exact Nat.lt_add_right _ (simulates.known id listed)
  · rw [handles_allocate, List.mem_cons]
    rintro (rfl | held)
    · exact (inside _ inLru).ne rfl
    · exact simulates.idle id inLru held
  · rw [simulates.map]
    refine and_congr_right fun listed => ?_
    rw [Contents.allocate, List.getElem?_append_left (simulates.known id listed)]
  · rw [cached_allocate, Contents.allocate, LRUCache.Memory.totalCharge_append simulates.known]
    exact simulates.bounded

/-- A new entry is cached in place of the one with its key. -/
theorem cacheNew (simulates : Simulates hashOf contents reference) {entry : Entry Value Deleter}
    (known : contents.entries[id]? = some entry) (hashed : entry.hash = hashOf entry.key)
    (notCached : id ∉ contents.cached) (results : List (Option Nat))
    (bounded : LRUCache.totalCharge contents.entries (contents.cacheNew id entry).cached < 2 ^ 64) :
    Simulates hashOf (contents.cacheNew id entry)
      { reference with
        map := Function.update reference.map entry.key (some id)
        queue := LRUCache.without reference.queue (reference.map entry.key)
        results } := by
  have appended := contents.cached_append id
  have distinct : (contents.append id).cached.Nodup :=
    appended.nodup_iff.mpr (List.nodup_cons.mpr ⟨notCached, simulates.distinct⟩)
  have shape : contents.cacheNew id entry =
      (contents.append id).drop (reference.map entry.key) := by
    rw [Contents.cacheNew, hashed, simulates.find]
  have member : ∀ other, other ∈ ((contents.append id).drop (reference.map entry.key)).cached ↔
      (other = id ∨ other ∈ contents.cached) ∧ reference.map entry.key ≠ some other := by
    intro other
    rw [mem_cached_drop distinct, appended.mem_iff, List.mem_cons]
  rw [shape] at bounded ⊢
  refine ⟨simulates.capacity, simulates.entries, simulates.handles, ?_, simulates.hashes,
    nodup_cached_drop distinct _, fun other listed => ?_, fun other inLru => ?_,
    fun key other => ?_, bounded⟩
  · rw [simulates.queue]
    rfl
  · rcases ((member other).mp listed).1 with rfl | isOld
    · exact (List.getElem?_eq_some_iff.mp known).1
    · exact simulates.known other isOld
  · refine simulates.idle other ?_
    exact ((LRUCache.mem_without (List.nodup_append.mp simulates.distinct).1).mp inLru).1
  · rw [member]
    show Function.update reference.map entry.key (some id) key = some other ↔ _
    by_cases sameKey : key = entry.key
    · subst sameKey
      rw [Function.update_self, Option.some.injEq]
      constructor
      · rintro rfl
        exact ⟨⟨Or.inl rfl, fun found => notCached ((simulates.map _ _).mp found).1⟩,
          entry, known, rfl⟩
      · rintro ⟨⟨isNew | isOld, notOld⟩, isNamed⟩
        · exact isNew.symm
        · exact absurd ((simulates.map _ _).mpr ⟨isOld, isNamed⟩) notOld
    · rw [Function.update_of_ne sameKey, simulates.map]
      refine and_congr_left fun ⟨otherEntry, otherKnown, otherKey⟩ => ?_
      have notEntry : otherEntry ≠ entry := by
        rintro rfl
        exact sameKey otherKey.symm
      have notNew : other ≠ id := by
        rintro rfl
        exact notEntry (Option.some.inj (otherKnown.symm.trans known))
      have notOld : reference.map entry.key ≠ some other := by
        intro found
        obtain ⟨-, found, foundKnown, foundKey⟩ := (simulates.map _ _).mp found
        obtain rfl := Option.some.inj (otherKnown.symm.trans foundKnown)
        exact sameKey (otherKey.symm.trans foundKey)
      simp [notNew, notOld]

/-- A handle is given out on the entry that was found. -/
theorem lookup (simulates : Simulates hashOf contents reference) (key : Bytes) :
    Simulates hashOf (contents.lookup key (hashOf key)) (reference.lookup key) := by
  have found := simulates.find key
  cases isMapped : reference.map key with
  | none =>
    rw [isMapped] at found
    simp only [Contents.lookup, found, CacheReference.lookup, isMapped]
    exact { simulates with }
  | some id =>
    rw [isMapped] at found
    have samePerm := contents.cached_pin id
    have distinct := (List.nodup_append.mp simulates.distinct).1
    simp only [Contents.lookup, found, CacheReference.lookup, isMapped]
    refine ⟨simulates.capacity, simulates.entries, ?_, ?_, simulates.hashes,
      samePerm.nodup_iff.mpr simulates.distinct, fun other listed => ?_, fun other inLru => ?_,
      fun key other => ?_, ?_⟩
    · rw [simulates.handles]
      rfl
    · rw [simulates.queue]
      rfl
    · exact simulates.known other (samePerm.mem_iff.mp listed)
    · obtain ⟨different, isOld⟩ := distinct.mem_erase_iff.mp inLru
      rw [handles_pin, List.mem_cons]
      rintro (same | held)
      · exact different same
      · exact simulates.idle other isOld held
    · rw [samePerm.mem_iff]
      exact simulates.map key other
    · rw [LRUCache.totalCharge_perm _ samePerm]
      exact simulates.bounded

/-- A handle is taken back. -/
theorem release (simulates : Simulates hashOf contents reference) (member : id ∈ contents.handles) :
    Simulates hashOf (contents.unpin id) (reference.release id) := by
  have samePerm := contents.cached_unpin id
  have notLru : id ∉ contents.lru := fun inLru => simulates.idle id inLru member
  have last : (reference.mapped id ∧ id ∉ reference.handles.erase id) ↔
      (id ∈ contents.inUse ∧ contents.handles.count id = 1) := by
    have counted : 0 < contents.handles.count id := List.count_pos_iff.mpr member
    rw [simulates.mapped_iff, simulates.handles, ← List.count_eq_zero, List.count_erase_self,
      Contents.cached, List.mem_append, or_iff_right notLru]
    refine and_congr_right fun _ => ?_
    omega
  refine ⟨simulates.capacity.trans (contents.capacity_unpin id).symm,
    simulates.entries.trans (contents.entries_unpin id).symm, ?_, ?_, ?_,
    samePerm.nodup_iff.mpr simulates.distinct, fun other listed => ?_, fun other inLru => ?_,
    fun key other => ?_, ?_⟩
  · rw [handles_unpin, ← simulates.handles]
    rfl
  · simp only [CacheReference.release, last, simulates.queue, Contents.unpin]
    split_ifs <;> rfl
  · rw [entries_unpin]
    exact simulates.hashes
  · rw [entries_unpin]
    exact simulates.known other (samePerm.mem_iff.mp listed)
  · rw [handles_unpin]
    have stillIdle : other ∈ contents.lru → other ∉ contents.handles.erase id := fun isOld held =>
      simulates.idle other isOld (List.mem_of_mem_erase held)
    unfold Contents.unpin at inLru
    split_ifs at inLru with moves
    · rcases List.mem_append.mp inLru with isOld | isId
      · exact stillIdle isOld
      · rw [List.mem_singleton.mp isId, ← List.count_eq_zero, List.count_erase_self, moves.2]
    · exact stillIdle inLru
  · rw [samePerm.mem_iff, entries_unpin]
    exact simulates.map key other
  · rw [LRUCache.totalCharge_perm _ samePerm, entries_unpin]
    exact simulates.bounded

/-- A new entry is inserted. -/
theorem insert (simulates : Simulates hashOf contents reference) (positive : 0 < contents.capacity)
    {entry : Entry Value Deleter} (hashed : entry.hash = hashOf entry.key)
    (bounded : LRUCache.totalCharge (contents.entries ++ [entry])
      ((contents.allocate entry).cacheNew contents.entries.length entry).cached < 2 ^ 64) :
    Simulates hashOf (contents.insert entry) (reference.insert entry) := by
  have notCached : contents.entries.length ∉ (contents.allocate entry).cached := fun listed =>
    (simulates.known _ listed).ne rfl
  have replaced := (simulates.allocate hashed).cacheNew List.getElem?_concat_length hashed notCached
    (reference.results ++ [some reference.entries.length]) bounded
  rw [Contents.insert, if_pos positive, CacheReference.insert]
  have sameReference : ({ reference with
      entries := reference.entries ++ [entry]
      handles := reference.entries.length :: reference.handles
      map := Function.update reference.map entry.key (some contents.entries.length)
      queue := LRUCache.without reference.queue (reference.map entry.key)
      results := reference.results ++ [some reference.entries.length] } :
        CacheReference Value Deleter) = reference.replace entry := by
    rw [← simulates.entries]
    rfl
  rw [sameReference] at replaced
  rw [replaced.queue]
  refine replaced.evictFrom (fun contents reference simulates => ?_) rfl
  rw [simulates.total, simulates.capacity, Contents.usage, Nat.mod_eq_of_lt simulates.bounded]

/-- The entry with a key is erased. -/
theorem erase (simulates : Simulates hashOf contents reference) (key : Bytes) :
    Simulates hashOf (contents.erase key (hashOf key)) (reference.erase key) := by
  rw [Contents.erase, simulates.find, CacheReference.erase]
  cases isMapped : reference.map key with
  | none => exact simulates
  | some id => exact simulates.drop ((simulates.map key id).mp isMapped).1

/-- All entries of the queue are removed. -/
theorem prune (simulates : Simulates hashOf contents reference) :
    Simulates hashOf contents.prune reference.prune := by
  rw [CacheReference.prune, simulates.queue]
  exact simulates.evictFrom (fun _ _ _ => rfl) rfl

/-- What a call returns is what it returns on the reference. -/
theorem results (simulates : Simulates hashOf contents reference) {call : CacheCall Value Deleter}
    (hashed : call.HashedBy hashOf) :
    (reference.step call).results = reference.results ++ contents.result call := by
  rw [CacheReference.results_step]
  cases call with
  | insert entry => rw [simulates.entries, Contents.result]
  | lookup key hash =>
    obtain rfl : hash = hashOf key := hashed
    rw [Contents.result, simulates.find]
  | _ => rfl

end Simulates

end Contents

end LevelDbXy
