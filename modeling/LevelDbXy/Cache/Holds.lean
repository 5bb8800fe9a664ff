import LevelDbXy.Cache.Contents

/-!
# A cache holds its contents

`Holds cache contents` says that the cache represents the contents: the memory of the
entries, the two lists and the references are those of the contents, and the entries in the
hash table are the ones on the lists. Each operation of the cache succeeds, so that none of its
assertions fails, and follows the operation on the contents.
-/

namespace LevelDbXy

namespace LRUCache

variable {Value Deleter : Type} {cache cache' : LRUCache Value Deleter}
  {contents : Contents Value Deleter} {id : Nat}

/-- The cache represents the contents. -/
structure Holds (cache : LRUCache Value Deleter) (contents : Contents Value Deleter) : Prop where
  capacity : cache.capacity = contents.capacity
  memory : Memory cache contents.entries contents.lru contents.inUse contents.refs
  table : cache.Table contents.cached
  held : ∀ id ∈ contents.handles, id < contents.entries.length
  small : contents.cached.length ≤ 2 ^ 31

/-! ### Looking an entry up -/

/-- A cached entry has the key and hash it was inserted with. -/
theorem Memory.matches_iff {entries : List (Entry Value Deleter)} {lru inUse : List Nat}
    {refs : Nat → Nat} (memory : Memory cache entries lru inUse refs) (listed : id ∈ lru ++ inUse)
    {key : Bytes} {hash : Nat} :
    cache.Matches key hash id ↔
      ∃ entry, entries[id]? = some entry ∧ entry.hash = hash ∧ entry.key = key := by
  obtain ⟨entry, known⟩ := memory.known_of_listed listed
  rw [Matches, memory.stored_eq known (memory.live_of_listed listed), known]
  simp [Entry.handle]

namespace Holds

/-- A cached entry has the key and hash that its handle has. -/
theorem named_iff (holds : Holds cache contents) (member : id ∈ contents.cached) {key : Bytes}
    {hash : Nat} : contents.named key hash id = true ↔ cache.Matches key hash id := by
  rw [holds.memory.matches_iff member]
  simp [Contents.named, Option.any_eq_true]

/-- The hash table leads to the cached entry with the key and hash. -/
theorem find_iff (holds : Holds cache contents) {key : Bytes} {hash : Nat} :
    contents.find key hash = some id ↔ id ∈ contents.cached ∧ cache.Matches key hash id := by
  constructor
  · intro found
    have member := List.mem_of_find?_eq_some found
    exact ⟨member, (holds.named_iff member).mp (List.find?_some found)⟩
  · rintro ⟨member, matching⟩
    have named := (holds.named_iff member).mpr matching
    cases found : contents.find key hash with
    | none =>
      have missing := List.find?_eq_none.mp found id member
      exact absurd named missing
    | some other =>
      have otherMember := List.mem_of_find?_eq_some found
      have otherMatches := (holds.named_iff otherMember).mp (List.find?_some found)
      rw [holds.table.unique other otherMember id member key hash otherMatches matching]

/-- `HandleTable::Lookup` in terms of the contents. -/
theorem tableLookup (holds : Holds cache contents) (key : Bytes) (hash : Nat) :
    cache.tableLookup key hash = some (contents.find key hash) := by
  obtain ⟨result, looked, isResult⟩ := holds.table.lookup holds.memory.lists.noSelf key hash
  have same : result = contents.find key hash := by
    ext id
    rw [isResult, holds.find_iff]
  rw [looked, same]

end Holds

/-! ### The operations -/

/-- The table keeps its entries when these stay allocated. -/
theorem Table.of_memory {ids : List Nat} {entries : List (Entry Value Deleter)}
    {lru inUse lru' inUse' : List Nat} {refs refs' : Nat → Nat} (table : cache.Table ids)
    (memory : Memory cache entries lru inUse refs)
    (memory' : Memory cache' entries lru' inUse' refs')
    (same : SameTable cache cache') (live : ∀ id ∈ ids, 0 < refs' id) : cache'.Table ids := by
  refine table.congr same.table (fun id _ => by rw [same.nextHash])
    (by rw [memory.fresh, memory'.fresh]) fun id member => ?_
  obtain ⟨handle, stored⟩ := Option.isSome_iff_exists.mp (table.alive id member).2
  have shape := memory.stored id
  rw [stored] at shape
  cases known : entries[id]? with
  | none => simp [known] at shape
  | some entry =>
    have stored' := memory'.stored_eq known (live id member)
    rw [known, Option.bind_some] at shape
    split_ifs at shape
    obtain rfl := Option.some.inj shape
    exact ⟨_, _, stored, stored', rfl, rfl⟩

namespace Holds

/-- No entry is cached twice. -/
theorem distinct (holds : Holds cache contents) : contents.cached.Nodup := holds.table.distinct

/-- The cached entries are the same after the operation. -/
theorem of_perm {contents' : Contents Value Deleter} (holds : Holds cache contents)
    (memory : Memory cache' contents'.entries contents'.lru contents'.inUse contents'.refs)
    (same : SameTable cache cache') (entries : contents'.entries = contents.entries)
    (capacity : contents'.capacity = contents.capacity)
    (sameCached : contents'.cached.Perm contents.cached)
    (held : ∀ id ∈ contents'.handles, id < contents.entries.length) : Holds cache' contents' := by
  refine ⟨by rw [same.capacity, capacity, holds.capacity], memory, ?_, by rwa [entries], ?_⟩
  · refine Table.perm ?_ sameCached.symm
    refine holds.table.of_memory holds.memory (entries ▸ memory) same fun id member => ?_
    exact memory.live_of_listed (sameCached.mem_iff.mpr member)
  · rw [sameCached.length_eq]
    exact holds.small

/-- `Lookup` returns the cached entry with the key and hash. -/
theorem lookup (holds : Holds cache contents) {key : Bytes} {hash : Nat}
    (room : ∀ id, contents.find key hash = some id → contents.handles.count id + 2 < 2 ^ 32) :
    ∃ cache', cache.lookup key hash = some (cache', contents.find key hash) ∧
      Holds cache' (contents.lookup key hash) ∧ cache.deletions <+: cache'.deletions := by
  have looked := holds.tableLookup key hash
  cases found : contents.find key hash with
  | none =>
    refine ⟨cache, ?_, ?_, List.prefix_refl _⟩
    · simp [LRUCache.lookup, looked, found]
    · simpa [Contents.lookup, found] using holds
  | some id =>
    have listed := (holds.find_iff.mp found).1
    obtain ⟨entry, known⟩ := holds.memory.known_of_listed listed
    have live := holds.memory.live_of_listed listed
    have bound : contents.refs id + 1 < 2 ^ 32 := by
      have := room id found
      simp only [Contents.refs, listed, if_true]
      omega
    obtain ⟨cache', stepped, memory, same⟩ := holds.memory.ref known live bound
    rw [← Contents.refs_pin] at memory
    refine ⟨cache', ?_, ?_, same.deletions⟩
    · simp [LRUCache.lookup, looked, found, stepped]
    · simp only [Contents.lookup, found]
      refine holds.of_perm memory same rfl rfl (contents.cached_pin id) fun other member => ?_
      rcases List.mem_cons.mp member with rfl | inside
      · exact (List.getElem?_eq_some_iff.mp known).1
      · exact holds.held other inside

/-- `Release` takes back an outstanding handle. -/
theorem release (holds : Holds cache contents) (member : id ∈ contents.handles) :
    ∃ cache', cache.release id = some cache' ∧ Holds cache' (contents.unpin id) ∧
      cache.deletions <+: cache'.deletions := by
  have inside := holds.held id member
  have known : contents.entries[id]? = some contents.entries[id] := List.getElem?_eq_getElem inside
  have counted : 0 < contents.handles.count id := List.count_pos_iff.mpr member
  have live : 0 < contents.refs id := Nat.add_pos_left counted _
  have notLru : id ∉ contents.lru := by
    intro inLru
    have one := holds.memory.lru_refs id inLru
    have listed : id ∈ contents.cached := List.mem_append_left _ inLru
    simp only [Contents.refs, listed, if_true] at one
    omega
  obtain ⟨cache', stepped, memory, same⟩ := holds.memory.unref known live notLru
  have two : (id ∈ contents.inUse ∧ contents.refs id = 2) ↔
      (id ∈ contents.inUse ∧ contents.handles.count id = 1) := by
    refine and_congr_right fun inInUse => ?_
    have listed : id ∈ contents.cached := List.mem_append_right _ inInUse
    simp only [Contents.refs, listed, if_true]
    omega
  have memory : Memory cache' (contents.unpin id).entries (contents.unpin id).lru
      (contents.unpin id).inUse (contents.unpin id).refs := by
    rw [Contents.refs_unpin member]
    simp only [two] at memory
    unfold Contents.unpin
    split_ifs at memory ⊢ <;> exact memory
  refine ⟨cache', stepped, ?_, same.deletions⟩
  refine holds.of_perm memory same (contents.entries_unpin id) (contents.capacity_unpin id)
    (contents.cached_unpin id) fun other otherMember => ?_
  rw [Contents.handles_unpin] at otherMember
  exact holds.held other (List.mem_of_mem_erase otherMember)

/-- `FinishErase` after the entry has left the table. -/
theorem finishErase {removed : Option Nat}
    (memory : Memory cache contents.entries contents.lru contents.inUse contents.refs)
    (capacity : cache.capacity = contents.capacity) (distinct : contents.cached.Nodup)
    (table : cache.Table (without contents.cached removed))
    (held : ∀ id ∈ contents.handles, id < contents.entries.length)
    (small : (contents.drop removed).cached.length ≤ 2 ^ 31)
    (listed : ∀ id, removed = some id → id ∈ contents.cached) :
    ∃ cache', cache.finishErase removed = some cache' ∧ Holds cache' (contents.drop removed) ∧
      cache.deletions <+: cache'.deletions := by
  have table := table.perm (Contents.without_perm_cached_drop distinct removed)
  cases removed with
  | none => exact ⟨cache, rfl, ⟨capacity, memory, table, held, small⟩, List.prefix_refl _⟩
  | some id =>
    have isListed := listed id rfl
    obtain ⟨cache', stepped, memory', same⟩ := memory.finishErase isListed
    rw [← Contents.refs_drop distinct isListed] at memory'
    refine ⟨cache', stepped, ⟨by rw [same.capacity, capacity]; rfl, memory', ?_, held, small⟩,
      same.deletions⟩
    exact table.of_memory memory memory' same fun other member => memory'.live_of_listed member

/-- Removal by key and hash, from the table and then from the lists. -/
theorem remove (holds : Holds cache contents) (key : Bytes) (hash : Nat) :
    ∃ taken cache', cache.tableRemove key hash = some (taken, contents.find key hash) ∧
      taken.finishErase (contents.find key hash) = some cache' ∧
      Holds cache' (contents.drop (contents.find key hash)) ∧
      cache.deletions <+: cache'.deletions := by
  have small := holds.small
  obtain ⟨nextHash, handleTable, result, removed, isResult, -, table⟩ :=
    holds.table.remove holds.memory.lists.noSelf (by omega) key hash
  obtain rfl : result = contents.find key hash := by
    ext id
    rw [isResult, holds.find_iff]
  obtain ⟨cache', finished, after, longer⟩ := finishErase
    (holds.memory.of_table nextHash handleTable) holds.capacity holds.distinct table holds.held
    ((contents.cached_drop_sublist _).length_le.trans small)
    fun id found => (holds.find_iff.mp found).1
  exact ⟨_, cache', removed, finished, after, longer⟩

/-- `Erase` takes the entry with the key and hash out of the cache. -/
theorem erase (holds : Holds cache contents) (key : Bytes) (hash : Nat) :
    ∃ cache', cache.erase key hash = some cache' ∧ Holds cache' (contents.erase key hash) ∧
      cache.deletions <+: cache'.deletions := by
  obtain ⟨taken, cache', removed, finished, after, longer⟩ := holds.remove key hash
  refine ⟨cache', ?_, after, longer⟩
  simp only [LRUCache.erase, removed, Option.bind_eq_bind, Option.bind_some]
  exact finished

/-- A cached entry is found under its own key and hash. -/
theorem find_own (holds : Holds cache contents) (listed : id ∈ contents.cached)
    {handle : LRUHandle Value Deleter} (stored : cache.heap id = some handle) :
    contents.find handle.key handle.hash = some id :=
  holds.find_iff.mpr ⟨listed, handle, stored, rfl, rfl⟩

/-- The loops of `Insert` and `Prune` take entries out from the front of `lru_`. -/
theorem evictWhile {more : LRUCache Value Deleter → Bool} {more' : Contents Value Deleter → Bool}
    (agree : ∀ {cache contents}, Holds cache contents → more cache = more' contents) {fuel : Nat}
    (holds : Holds cache contents) (budget : contents.lru.length < fuel) :
    ∃ cache', evictWhile more fuel cache = some cache' ∧ Holds cache' (contents.evict more') ∧
      cache.deletions <+: cache'.deletions := by
  unfold Contents.evict
  generalize shape : contents.lru = lru at budget
  induction lru generalizing cache contents fuel with
  | nil =>
    obtain ⟨fuel, rfl⟩ : ∃ spare, fuel = spare + 1 := ⟨fuel - 1, by simp at budget; omega⟩
    refine ⟨cache, ?_, holds, List.prefix_refl _⟩
    have first := holds.memory.lists.next_lru
    rw [shape] at first
    rw [LRUCache.evictWhile, if_neg]
    rintro ⟨-, notEmpty⟩
    exact notEmpty first
  | cons id rest inductionHypothesis =>
    obtain ⟨fuel, rfl⟩ : ∃ spare, fuel = spare + 1 := ⟨fuel - 1, by simp at budget; omega⟩
    have first : cache.next .lru = some (.entry id) := by
      have first := holds.memory.lists.next_lru
      rwa [shape] at first
    rw [LRUCache.evictWhile, agree holds, Contents.evictFrom, first]
    cases again : more' contents with
    | false => exact ⟨cache, by simp, by simpa using holds, List.prefix_refl _⟩
    | true =>
      have inLru : id ∈ contents.lru := by simp [shape]
      have listed : id ∈ contents.cached := List.mem_append_left _ inLru
      obtain ⟨entry, known⟩ := holds.memory.known_of_listed listed
      have stored := holds.memory.stored_eq known (holds.memory.live_of_listed listed)
      have one := holds.memory.lru_refs id inLru
      have own := holds.find_own listed stored
      obtain ⟨taken, dropped, removed, finished, after, longer⟩ := holds.remove entry.key entry.hash
      rw [show contents.find entry.key entry.hash = some id from own] at removed finished after
      have restShape : (contents.drop (some id)).lru = rest := by
        simp [Contents.drop, without, shape]
      obtain ⟨cache', ran, final, prefixed⟩ :=
        inductionHypothesis after restShape (by simpa using budget)
      refine ⟨cache', ?_, by simpa using final, longer.trans prefixed⟩
      have read := keyOf_eq holds.memory.lists.noSelf stored
      simp only [Entry.handle] at stored read
      simp only [true_and, ne_eq, Option.some.injEq, reduceCtorEq, not_false_eq_true, if_true,
        stored, Option.bind_eq_bind, Option.bind_some, one, read, removed, finished]
      exact ran

/-- An inserted entry gets a number that no cached entry and no handle has. -/
theorem fresh_number (holds : Holds cache contents) :
    contents.entries.length ∉ contents.cached ∧ contents.entries.length ∉ contents.handles := by
  refine ⟨fun listed => ?_, fun member => (holds.held _ member).ne rfl⟩
  obtain ⟨entry, known⟩ := holds.memory.known_of_listed listed
  exact (List.getElem?_eq_some_iff.mp known).1.ne rfl

/-- The allocation of an entry. -/
theorem allocate (holds : Holds cache contents) (entry : Entry Value Deleter) :
    Holds (cache.allocate entry.key entry.hash entry.value entry.charge entry.deleter)
      (contents.allocate entry) := by
  obtain ⟨notCached, notHeld⟩ := holds.fresh_number
  have refs : (contents.allocate entry).refs =
      Function.update contents.refs contents.entries.length 1 := by
    funext other
    by_cases same : other = contents.entries.length
    · subst same
      simp [Contents.refs, notCached, List.count_eq_zero.mpr notHeld]
    · rw [Function.update_of_ne same]
      simp only [Contents.refs, Contents.handles_allocate, List.count_cons_of_ne (Ne.symm same)]
      rfl
  have memory := holds.memory.allocate entry
  rw [← refs] at memory
  refine ⟨holds.capacity, memory, ?_, ?_, holds.small⟩
  · refine holds.table.congr rfl (fun id member => ?_) (Nat.le_succ _) fun id member => ?_
    · refine Function.update_of_ne ?_ _ _
      rw [holds.memory.fresh]
      rintro rfl
      exact notCached member
    · obtain ⟨known, isKnown⟩ := holds.memory.known_of_listed member
      have inside := (List.getElem?_eq_some_iff.mp isKnown).1
      have isKnown' : (contents.entries ++ [entry])[id]? = some known := by
        rw [List.getElem?_append_left inside, isKnown]
      exact ⟨_, _, holds.memory.stored_eq isKnown (holds.memory.live_of_listed member),
        memory.stored_eq isKnown' (memory.live_of_listed member), rfl, rfl⟩
  · intro id member
    rw [Contents.allocate, List.length_append, List.length_singleton]
    rcases List.mem_cons.mp member with rfl | inside
    · exact Nat.lt_succ_self _
    · exact (holds.held id inside).trans (Nat.lt_succ_self _)

/-- What the table holds after the insertion is cached once the replaced entry is dropped. -/
theorem without_cached_append (holds : Holds cache contents) (notCached : id ∉ contents.cached)
    (key : Bytes) (hash : Nat) :
    (id :: without contents.cached (contents.find key hash)).Perm
      (without (contents.append id).cached (contents.find key hash)) := by
  have appended := contents.cached_append id
  cases found : contents.find key hash with
  | none => exact appended.symm
  | some old =>
    have different : id ≠ old := by
      rintro rfl
      exact notCached (holds.find_iff.mp found).1
    have erased := appended.symm.erase old
    rwa [List.erase_cons_tail (by simpa using different)] at erased

/-- The cache stays within its bound if there was room or an entry is replaced. -/
theorem length_without (holds : Holds cache contents) {key : Bytes} {hash : Nat}
    (room : contents.cached.length < 2 ^ 31 ∨ contents.find key hash ≠ none) :
    (without contents.cached (contents.find key hash)).length + 1 ≤ 2 ^ 31 := by
  cases found : contents.find key hash with
  | none => exact room.resolve_right (not_not_intro found)
  | some old =>
    have member := (holds.find_iff.mp found).1
    have nonempty := List.length_pos_of_mem member
    have := holds.small
    rw [without, Option.elim_some, List.length_erase_of_mem member]
    omega

/-- The caching of a new entry, in place of the one with its key and hash. -/
theorem cacheNew {entry : Entry Value Deleter} (holds : Holds cache contents)
    (known : contents.entries[id]? = some entry) (notCached : id ∉ contents.cached)
    (one : contents.handles.count id = 1)
    (room : contents.cached.length < 2 ^ 31 ∨ contents.find entry.key entry.hash ≠ none) :
    ∃ cache', cache.cacheNew id = some cache' ∧ Holds cache' (contents.cacheNew id entry) ∧
      cache.deletions <+: cache'.deletions := by
  have oneRef : contents.refs id = 1 := by simp [Contents.refs, notCached, one]
  obtain ⟨inserting, shape, memory, same⟩ := holds.memory.cacheNew known notCached oneRef
  have appended := contents.cached_append id
  rw [show 2 = contents.refs id + 1 by rw [oneRef], ← Contents.refs_append notCached] at memory
  have distinct : (contents.append id).cached.Nodup :=
    appended.nodup_iff.mpr (List.nodup_cons.mpr ⟨notCached, holds.distinct⟩)
  have listed : ∀ other ∈ contents.cached, other ∈ (contents.append id).cached :=
    fun other member => appended.mem_iff.mpr (List.mem_cons_of_mem _ member)
  have stored := memory.stored_eq known
    (memory.live_of_listed (appended.mem_iff.mpr (List.mem_cons_self ..)))
  have allocated : id < inserting.fresh := by
    rw [memory.fresh]
    exact (List.getElem?_eq_some_iff.mp known).1
  have table : inserting.Table contents.cached :=
    holds.table.of_memory holds.memory memory same fun other member =>
      memory.live_of_listed (listed other member)
  have sameMatches : ∀ other ∈ contents.cached, (inserting.Matches entry.key entry.hash other ↔
      cache.Matches entry.key entry.hash other) := by
    intro other member
    rw [memory.matches_iff (listed other member), holds.memory.matches_iff member]
  have tableRoom : contents.cached.length < 2 ^ 31 ∨ contents.cached.length = 2 ^ 31 ∧
      ∃ other ∈ contents.cached, inserting.Matches entry.key entry.hash other := by
    rcases room with room | found
    · exact Or.inl room
    · obtain ⟨other, isFound⟩ := Option.ne_none_iff_exists'.mp found
      obtain ⟨member, matching⟩ := holds.find_iff.mp isFound
      refine holds.small.lt_or_eq.imp_right fun full => ⟨full, other, member, ?_⟩
      exact (sameMatches other member).mpr matching
  obtain ⟨nextHash, handleTable, old, inserted, isOld, tableAfter⟩ :=
    table.insert memory.lists.noSelf stored notCached allocated tableRoom
  obtain rfl : old = contents.find entry.key entry.hash := by
    ext other
    rw [isOld, holds.find_iff]
    exact and_congr_right fun member => sameMatches other member
  have left := holds.without_cached_append notCached entry.key entry.hash
  have small : ((contents.append id).drop (contents.find entry.key entry.hash)).cached.length ≤
      2 ^ 31 := by
    rw [← (left.trans (Contents.without_perm_cached_drop distinct _)).length_eq]
    exact holds.length_without room
  obtain ⟨cache', finished, after, longer⟩ := @finishErase _ _ _ (contents.append id) _
    (memory.of_table nextHash handleTable) (same.capacity.trans holds.capacity) distinct
    (tableAfter.perm left) holds.held small fun other found =>
      listed other (holds.find_iff.mp found).1
  refine ⟨cache', ?_, after, same.deletions.trans longer⟩
  rw [shape, inserted]
  exact finished

/-- The lists are shorter than the number of entries ever inserted. -/
theorem length_lru_le (holds : Holds cache contents) : contents.lru.length ≤ cache.fresh := by
  have subset : contents.lru.Subperm (List.range cache.fresh) :=
    List.subperm_of_subset (List.nodup_append.mp holds.distinct).1 fun id member =>
      List.mem_range.mpr (holds.table.alive id (List.mem_append_left _ member)).1
  exact subset.length_le.trans_eq List.length_range

/-- An entry that is not cached yet is not found. -/
theorem find_allocate (holds : Holds cache contents) (entry : Entry Value Deleter) (key : Bytes)
    (hash : Nat) : (contents.allocate entry).find key hash = contents.find key hash := by
  ext id
  rw [(holds.allocate entry).find_iff, holds.find_iff, Contents.cached_allocate]
  refine and_congr_right fun member => ?_
  obtain ⟨known, isKnown⟩ := holds.memory.known_of_listed member
  rw [(holds.allocate entry).memory.matches_iff member, holds.memory.matches_iff member,
    Contents.allocate, List.getElem?_append_left (List.getElem?_eq_some_iff.mp isKnown).1]

/-- `Insert` returns a handle on a new entry. -/
theorem insert {entry : Entry Value Deleter} (holds : Holds cache contents)
    (room : contents.capacity = 0 ∨ contents.cached.length < 2 ^ 31 ∨
      contents.find entry.key entry.hash ≠ none) :
    ∃ cache', cache.insert entry.key entry.hash entry.value entry.charge entry.deleter =
        some (cache', contents.entries.length) ∧
      Holds cache' (contents.insert entry) ∧ cache.deletions <+: cache'.deletions := by
  have allocated := holds.allocate entry
  obtain ⟨notCached, notHeld⟩ := holds.fresh_number
  have cachedStep : ∃ next,
      (if 0 < cache.capacity then
        (cache.allocate entry.key entry.hash entry.value entry.charge entry.deleter).cacheNew
          contents.entries.length
      else some (cache.allocate entry.key entry.hash entry.value entry.charge entry.deleter)) =
        some next ∧
      Holds next (if 0 < contents.capacity then
        (contents.allocate entry).cacheNew contents.entries.length entry
      else contents.allocate entry) ∧ cache.deletions <+: next.deletions := by
    rw [holds.capacity]
    by_cases caches : 0 < contents.capacity
    · rw [if_pos caches, if_pos caches]
      refine allocated.cacheNew List.getElem?_concat_length notCached ?_ ?_
      · simp [List.count_eq_zero.mpr notHeld]
      · rw [holds.find_allocate]
        exact room.resolve_left caches.ne'
    · rw [if_neg caches, if_neg caches]
      exact ⟨_, rfl, allocated, List.prefix_refl _⟩
  obtain ⟨next, stepped, holdsNext, longer⟩ := cachedStep
  have agree : ∀ {cache : LRUCache Value Deleter} {contents : Contents Value Deleter},
      Holds cache contents →
      decide (cache.capacity < cache.usage) = decide (contents.capacity < contents.usage) := by
    intro cache contents holds
    rw [holds.capacity, holds.memory.usage]
    rfl
  obtain ⟨cache', evicted, final, prefixed⟩ :=
    holdsNext.evictWhile agree (Nat.lt_succ_of_le holdsNext.length_lru_le)
  refine ⟨cache', ?_, final, longer.trans prefixed⟩
  rw [← holds.memory.fresh] at stepped ⊢
  simp only [LRUCache.insert, Option.bind_eq_bind,
    show (cache.allocate entry.key entry.hash entry.value entry.charge entry.deleter).capacity =
      cache.capacity from rfl]
  split_ifs at stepped ⊢
  · rw [stepped, Option.bind_some, evicted]
    rfl
  · obtain rfl := Option.some.inj stepped
    rw [Option.bind_some, evicted]
    rfl

/-- `Prune` takes all entries on `lru_` out of the cache. -/
theorem prune (holds : Holds cache contents) :
    ∃ cache', cache.prune = some cache' ∧ Holds cache' contents.prune ∧
      cache.deletions <+: cache'.deletions :=
  holds.evictWhile (fun _ => rfl) (Nat.lt_succ_of_le holds.length_lru_le)

/-- A new cache is empty. -/
theorem new (capacity : Nat) :
    ∃ cache : LRUCache Value Deleter, LRUCache.new capacity = some cache ∧
      Holds cache (Contents.new capacity) ∧ cache.deletions = [] := by
  have cached : (Contents.new capacity : Contents Value Deleter).cached = [] := rfl
  have refs : (Contents.new capacity : Contents Value Deleter).refs = fun _ => 0 := rfl
  refine ⟨_, rfl, ⟨rfl, ?_, ?_, by simp [Contents.new], by simp [cached]⟩, rfl⟩
  · rw [refs]
    refine ⟨⟨LinkRing.empty rfl rfl, LinkRing.empty rfl rfl, ?_, ?_, ?_⟩, rfl, ?_, ?_, ?_, ?_, rfl,
      ?_, ?_, ?_⟩ <;> simp [Contents.new]
  · rw [cached]
    exact Table.new rfl

end Holds

end LRUCache

end LevelDbXy
