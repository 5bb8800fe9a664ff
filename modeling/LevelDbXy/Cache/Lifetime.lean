import LevelDbXy.Cache.Client

/-!
# The lifetime of entries

The deleter of an entry is called when the entry is neither cached nor referenced by an
outstanding handle any more, once and with its own key and value. The destructor frees
the entries that are left on `lru_` without taking them off the list, so its loop follows
links of entries that are still allocated only.
-/

namespace LevelDbXy

namespace LRUCache

variable {Value Deleter : Type} {cache : LRUCache Value Deleter}
  {entries : List (Entry Value Deleter)} {contents : Contents Value Deleter} {id : Nat}

/-! ### The destructor -/

/-- The destructor has freed all entries but the given ones, which follow each other on
`lru_`. -/
structure Destroying (cache : LRUCache Value Deleter) (entries : List (Entry Value Deleter))
    (rest : List Nat) : Prop where
  links : (rest.map HandlePtr.entry ++ [HandlePtr.lru]).IsChain fun p q => cache.next p = some q
  noSelf : ∀ id, cache.next (.entry id) ≠ some (.entry id)
  distinct : rest.Nodup
  stored : ∀ id ∈ rest, ∃ entry, entries[id]? = some entry ∧
    cache.heap id = some (entry.handle true 1)
  deleted : Deleted cache.deletions entries fun id => id ∉ rest

/-- One entry is freed. -/
theorem Destroying.step {rest : List Nat} {entry : Entry Value Deleter}
    (destroying : Destroying cache entries (id :: rest)) (known : entries[id]? = some entry) :
    Destroying (cache.free id (entry.handle false 0) entry.key) entries rest := by
  obtain ⟨notRest, distinct⟩ := List.nodup_cons.mp destroying.distinct
  refine ⟨?_, destroying.noSelf, distinct, fun other member => ?_, ?_⟩
  · exact (List.isChain_cons.mp destroying.links).2
  · obtain ⟨otherEntry, otherKnown, stored⟩ :=
      destroying.stored other (List.mem_cons_of_mem _ member)
    have different : other ≠ id := by
      rintro rfl
      exact notRest member
    refine ⟨otherEntry, otherKnown, ?_⟩
    simp only [LRUCache.free, Function.update_of_ne different]
    exact stored
  · refine destroying.deleted.append known (by simp) fun other _ => ?_
    by_cases same : other = id
    · simp [same, notRest]
    · simp [same]

/-- The loop of the destructor frees the remaining entries. -/
theorem Destroying.loop {rest : List Nat} {fuel : Nat} (destroying : Destroying cache entries rest)
    (budget : rest.length ≤ fuel) :
    ∃ destroyed, destroyFrom fuel ((rest.map HandlePtr.entry).headD .lru) cache = some destroyed ∧
      Destroying destroyed entries [] ∧ cache.deletions <+: destroyed.deletions := by
  induction rest generalizing cache fuel with
  | nil => exact ⟨cache, by simp [destroyFrom], destroying, List.prefix_refl _⟩
  | cons id rest inductionHypothesis =>
    obtain ⟨fuel, rfl⟩ : ∃ spare, fuel = spare + 1 := ⟨fuel - 1, by simp at budget; omega⟩
    obtain ⟨entry, known, stored⟩ := destroying.stored id (by simp)
    have next : cache.next (.entry id) = some ((rest.map HandlePtr.entry).headD .lru) := by
      have links := destroying.links
      cases rest with
      | nil => simpa using links
      | cons other rest => simpa using (List.isChain_cons_cons.mp links).1
    obtain ⟨destroyed, ran, finished, longer⟩ :=
      inductionHypothesis (destroying.step known) (by simpa using budget)
    refine ⟨destroyed, ?_, finished, (List.prefix_append ..).trans longer⟩
    have read : cache.getNext (.entry id) = cache.next (.entry id) :=
      if_pos (Option.isSome_of_eq_some stored)
    have freed : (cache.modify id (entry.handle false 1)).unref id =
        some (cache.free id (entry.handle false 0) entry.key) := by
      have storedLast : (cache.modify id (entry.handle false 1)).heap id =
          some (entry.handle false 1) := Function.update_self ..
      rw [Memory.unref_last (by exact destroying.noSelf) storedLast]
      simp only [free, modify, Function.update_idem]
    simp only [Entry.handle] at stored freed ran
    simp only [List.map_cons, List.headD_cons, destroyFrom, stored, read, next,
      Option.bind_eq_bind, Option.bind_some, and_self, if_true, freed]
    exact ran

/-- The destructor frees all entries that are left, if nobody holds a handle. -/
theorem Holds.destroy (holds : Holds cache contents) (noHandles : contents.handles = []) :
    ∃ destroyed, cache.destroy = some destroyed ∧
      Deleted destroyed.deletions contents.entries (fun _ => True) ∧
      cache.deletions <+: destroyed.deletions := by
  have memory := holds.memory
  have refs : ∀ id, contents.refs id = if id ∈ contents.cached then 1 else 0 := by
    intro id
    simp [Contents.refs, noHandles]
  have noneInUse : contents.inUse = [] := by
    refine List.eq_nil_iff_forall_not_mem.mpr fun id member => ?_
    have several := memory.inUse_refs id member
    rw [refs] at several
    split_ifs at several <;> omega
  have cached : contents.cached = contents.lru := by
    rw [Contents.cached, noneInUse, List.append_nil]
  have destroying : Destroying cache contents.entries contents.lru := by
    refine ⟨?_, memory.lists.noSelf, nodup_of_ring memory.lists.lruRing, fun id member => ?_, ?_⟩
    · have links := (List.isChain_cons.mp memory.lists.lruRing.chain).2
      exact links.imp fun p q neighbours => neighbours.1
    · have listed : id ∈ contents.lru ++ contents.inUse := List.mem_append_left _ member
      obtain ⟨entry, known⟩ := memory.known_of_listed listed
      refine ⟨entry, known, ?_⟩
      rw [memory.stored_eq known (memory.live_of_listed listed), memory.lru_refs id member,
        decide_eq_true listed]
    · refine memory.deleted.congr fun id _ => ?_
      rw [refs, cached]
      split_ifs with member <;> simp [member]
  obtain ⟨destroyed, ran, finished, longer⟩ := destroying.loop holds.length_lru_le
  refine ⟨destroyed, ?_, ?_, longer⟩
  · have inUseEmpty : cache.next .inUse = some .inUse := by
      have first := memory.lists.inUseRing.next_sentinel
      rwa [noneInUse] at first
    simp only [LRUCache.destroy, inUseEmpty, if_true, memory.lists.next_lru, Option.bind_eq_bind,
      Option.bind_some]
    exact ran
  · exact finished.deleted.congr fun id _ => by simp

end LRUCache

namespace CacheClient

variable {Value Deleter : Type} {client : CacheClient Value Deleter}
  {contents : Contents Value Deleter}

/-! ### The calls of deleters -/

/-- The inserted entry is neither cached nor referenced by an outstanding handle. -/
def Unused (client : CacheClient Value Deleter) (id : Nat) : Prop :=
  client.cache.isCached id = false ∧ id ∉ client.handles

/-- The deleters called so far are those of the unused entries; entries are numbered in the
order of their insertion. -/
structure Settled (client : CacheClient Value Deleter) : Prop where
  numbered : client.cache.fresh = client.entries.length
  deleted : LRUCache.Deleted client.cache.deletions client.entries client.Unused

/-- An entry without references is unused. -/
theorem Follows.settled (follows : client.Follows contents) : client.Settled := by
  have memory := follows.holds.memory
  refine ⟨memory.fresh.trans (congrArg List.length follows.entries.symm), ?_⟩
  rw [follows.entries]
  refine memory.deleted.congr fun id _ => ?_
  have uncached : client.cache.isCached id = false ↔ id ∉ contents.cached := by
    rw [← follows.holds.isCached_iff, Bool.not_eq_true]
  rw [Unused, uncached, follows.handles, Contents.refs, Nat.add_eq_zero_iff, List.count_eq_zero]
  split_ifs with listed <;> simp [listed]

/-- A call inserts at most one entry. -/
theorem entries_prefix_step (contents : Contents Value Deleter) (call : CacheCall Value Deleter) :
    contents.entries <+: (contents.step call).entries := by
  cases call with
  | insert entry =>
    rw [Contents.step, (contents.insert_frame entry).1]
    exact List.prefix_append ..
  | lookup key hash =>
    rw [Contents.step, (contents.lookup_frame key hash).1]
  | release id => rw [Contents.step, Contents.entries_unpin]
  | erase key hash => exact List.prefix_refl _
  | prune =>
    rw [Contents.step, Contents.prune, (contents.evict_frame _).1]

/-- The callers have inserted more entries and more deleters have been called since an
earlier state. -/
structure Extends (earlier client : CacheClient Value Deleter) (contents : Contents Value Deleter) :
    Prop where
  follows : client.Follows contents
  entries : earlier.entries <+: client.entries
  deletions : earlier.cache.deletions <+: client.cache.deletions

/-- A call extends the history of the cache. -/
theorem Extends.step (earlier client : CacheClient Value Deleter)
    (contents : Contents Value Deleter) (call : CacheCall Value Deleter)
    (extended : Extends earlier client contents) (allowed : client.Allowed call) :
    ∃ next, client.step call = some next ∧ Extends earlier next (contents.step call) := by
  obtain ⟨next, stepped, after, -, longer⟩ := extended.follows.step allowed
  refine ⟨next, stepped, after, ?_, extended.deletions.trans longer⟩
  have entries := extended.entries
  rw [extended.follows.entries] at entries
  rw [after.entries]
  exact entries.trans (entries_prefix_step contents call)

/-- In every state of a run, the deleters called are those of the entries that are neither
cached nor referenced by an outstanding handle, each called once and on its own key and value;
no call is taken back later. The destructor calls the others, if no handle is outstanding. -/
theorem deleter_called_once {capacity : Nat} {calls : List (CacheCall Value Deleter)}
    (keeps : Keeps capacity calls) :
    ∃ final, run capacity calls = some final ∧ final.Settled ∧
      (∀ earlier later, calls = earlier ++ later →
        ∃ before, run capacity earlier = some before ∧ before.Settled ∧
          before.entries <+: final.entries ∧
          before.cache.deletions <+: final.cache.deletions) ∧
      (final.handles = [] →
        ∃ destroyed, final.cache.destroy = some destroyed ∧
          final.cache.deletions <+: destroyed.deletions ∧
          LRUCache.Deleted destroyed.deletions final.entries fun _ => True) := by
  obtain ⟨final, ran, follows⟩ := run_follows keeps
  refine ⟨final, ran, follows.settled, ?_, fun noHandles => ?_⟩
  · rintro earlier later rfl
    have keepsEarlier : Keeps capacity earlier := fun client created =>
      (Machine.meets_append (keeps client created)).1
    obtain ⟨before, ranBefore, followsBefore⟩ := run_follows keepsEarlier
    obtain ⟨client, created, reached⟩ := run_eq_some.mp ranBefore
    have meets := (Machine.meets_append (keeps client created)).2 before reached
    obtain ⟨reachedFinal, ranLater, extended⟩ := Machine.run_simulates (Extends before)
      (Extends.step before) ⟨followsBefore, List.prefix_refl _, List.prefix_refl _⟩ meets
    have whole : run capacity (earlier ++ later) = some reachedFinal := run_eq_some.mpr
      ⟨client, created, Machine.run_append_eq_some.mpr ⟨before, reached, ranLater⟩⟩
    obtain rfl : final = reachedFinal := Option.some.inj (ran.symm.trans whole)
    exact ⟨before, ranBefore, followsBefore.settled, extended.entries, extended.deletions⟩
  · rw [follows.handles] at noHandles
    obtain ⟨destroyed, ran, deleted, longer⟩ := follows.holds.destroy noHandles
    exact ⟨destroyed, ran, longer, follows.entries ▸ deleted⟩

/-- An entry is replaced while a handle on it is outstanding, and deleted when the handle is
released; the other one is left to the destructor. -/
theorem deleter_called_once_replaced :
    ∃ (final : CacheClient Nat Unit) (destroyed : LRUCache Nat Unit),
      run 1 [.insert ⟨[1], 5, 10, 1, ()⟩, .insert ⟨[1], 5, 11, 1, ()⟩, .release 1, .release 0] =
        some final ∧ final.Settled ∧
      final.cache.destroy = some destroyed ∧
      LRUCache.Deleted destroyed.deletions final.entries fun _ => True := by
  obtain ⟨final, ran, settled, -, destroy⟩ := @deleter_called_once Nat Unit 1
    [.insert ⟨[1], 5, 10, 1, ()⟩, .insert ⟨[1], 5, 11, 1, ()⟩, .release 1, .release 0] (by decide)
  have noHandles : final.handles = [] := by
    have handles := congrArg (Option.map CacheClient.handles) ran
    exact (Option.some.inj handles).symm
  obtain ⟨destroyed, ranDestroy, -, deleted⟩ := destroy noHandles
  exact ⟨final, destroyed, ran, settled, ranDestroy, deleted⟩

end CacheClient

end LevelDbXy
