import LevelDbXy.Cache.Client

/-!
# Entries that are in use

An entry of a cache with a positive capacity stays in it as long as a handle on it is
outstanding, unless its key is inserted or erased again: what the loops of `Insert` and
`Prune` remove is on `lru_`, and an entry with a handle is not.
-/

namespace LevelDbXy

/-- The call inserts or erases this key and hash. -/
def CacheCall.Touches {Value Deleter : Type} (key : Bytes) (hash : Nat) :
    CacheCall Value Deleter → Prop
  | .insert entry => entry.key = key ∧ entry.hash = hash
  | .erase key' hash' => key' = key ∧ hash' = hash
  | _ => False

namespace Contents

variable {Value Deleter : Type} {contents : Contents Value Deleter} {id : Nat}

/-- The entry has been inserted under this number, and is cached while it has a handle. -/
structure Pinned (contents : Contents Value Deleter) (entry : Entry Value Deleter) (id : Nat) :
    Prop where
  known : contents.entries[id]? = some entry
  cached : id ∈ contents.handles → id ∈ contents.cached

/-- An entry stays cached when another one is dropped. -/
theorem mem_cached_drop_of_ne {removed : Option Nat} (listed : id ∈ contents.cached)
    (kept : removed ≠ some id) : id ∈ (contents.drop removed).cached := by
  cases removed with
  | none => exact listed
  | some other =>
    have different : id ≠ other := fun same => kept (congrArg some same.symm)
    rcases List.mem_append.mp listed with inLru | inInUse
    · exact List.mem_append_left _ ((List.mem_erase_of_ne different).mpr inLru)
    · exact List.mem_append_right _ ((List.mem_erase_of_ne different).mpr inInUse)

/-- What is not on `lru_` is not evicted. -/
theorem mem_cached_evict {more : Contents Value Deleter → Bool} (listed : id ∈ contents.cached)
    (notLru : id ∉ contents.lru) : id ∈ (contents.evict more).cached := by
  unfold evict
  generalize contents.lru = ids at notLru
  induction ids generalizing contents with
  | nil => exact listed
  | cons other ids inductionHypothesis =>
    obtain ⟨different, notLater⟩ := not_or.mp (mt List.mem_cons.mpr notLru)
    rw [evictFrom]
    split_ifs
    · apply inductionHypothesis
      · exact mem_cached_drop_of_ne listed fun same => different (Option.some.inj same).symm
      · exact notLater
    · exact listed

end Contents

namespace LRUCache.Holds

variable {Value Deleter : Type} {cache : LRUCache Value Deleter}
  {contents : Contents Value Deleter} {id : Nat}

/-- An entry with a handle is not on `lru_`. -/
theorem notMem_lru (holds : Holds cache contents) (held : id ∈ contents.handles) :
    id ∉ contents.lru := by
  intro inLru
  have one := holds.memory.lru_refs id inLru
  have listed : id ∈ contents.cached := List.mem_append_left _ inLru
  have handles : 0 < contents.handles.count id := List.count_pos_iff.mpr held
  rw [Contents.refs, if_pos listed] at one
  omega

/-- An entry with a handle is allocated, with what it was inserted with. -/
theorem stored_of_held (holds : Holds cache contents) {entry : Entry Value Deleter}
    (known : contents.entries[id]? = some entry) (held : id ∈ contents.handles) :
    ∃ inCache refs, cache.heap id = some (entry.handle inCache refs) := by
  have handles : 0 < contents.handles.count id := List.count_pos_iff.mpr held
  have live : 0 < contents.refs id := Nat.lt_of_lt_of_le handles (Nat.le_add_right _ _)
  exact ⟨_, _, holds.memory.stored_eq known live⟩

/-- The entry that is found has the key and hash. -/
theorem find_known (holds : Holds cache contents) {key : Bytes} {hash : Nat}
    {entry : Entry Value Deleter} (known : contents.entries[id]? = some entry)
    (found : contents.find key hash = some id) : entry.key = key ∧ entry.hash = hash := by
  obtain ⟨listed, matching⟩ := holds.find_iff.mp found
  obtain ⟨other, isOther, sameHash, sameKey⟩ := (holds.memory.matches_iff listed).mp matching
  obtain rfl := Option.some.inj (known.symm.trans isOther)
  exact ⟨sameKey, sameHash⟩

/-- The new entry, and every entry in use that it does not replace, is cached after an
insertion. -/
theorem mem_cached_insert (holds : Holds cache contents) {entry : Entry Value Deleter}
    (listed : id ∈ contents.cached ∨ 0 < contents.capacity ∧ id = contents.entries.length)
    (notLru : id ∉ contents.lru) (other : contents.find entry.key entry.hash ≠ some id) :
    id ∈ (contents.insert entry).cached := by
  unfold Contents.insert
  split_ifs with caches
  · apply Contents.mem_cached_evict
    · apply Contents.mem_cached_drop_of_ne
      · apply (Contents.cached_append _ _).mem_iff.mpr
        rcases listed with before | ⟨-, rfl⟩
        · exact List.mem_cons_of_mem _ before
        · exact List.mem_cons_self
      · rwa [holds.find_allocate]
    · intro inLru
      apply notLru
      simp only [Contents.cacheNew, Contents.drop, holds.find_allocate] at inLru
      cases found : contents.find entry.key entry.hash with
      | none => rwa [found] at inLru
      | some replaced =>
        rw [found] at inLru
        exact List.mem_of_mem_erase inLru
  · rcases listed with before | ⟨positive, -⟩
    · exact Contents.mem_cached_evict before notLru
    · exact absurd positive caches

/-- `Insert` caches the new entry, if the cache has a capacity. -/
theorem pinned_insert (holds : Holds cache contents) (positive : 0 < contents.capacity)
    (entry : Entry Value Deleter) :
    (contents.insert entry).Pinned entry contents.entries.length := by
  obtain ⟨notCached, -⟩ := holds.fresh_number
  constructor
  · rw [(contents.insert_frame entry).1]
    exact List.getElem?_concat_length
  · intro _
    apply holds.mem_cached_insert (Or.inr ⟨positive, rfl⟩)
    · exact fun inLru => notCached (List.mem_append_left _ inLru)
    · exact fun found => notCached (holds.find_iff.mp found).1

end LRUCache.Holds

namespace Contents.Pinned

variable {Value Deleter : Type} {cache : LRUCache Value Deleter}
  {contents : Contents Value Deleter} {entry : Entry Value Deleter} {id : Nat}

/-- An entry that is in use is found. -/
theorem find (pinned : contents.Pinned entry id) (holds : cache.Holds contents)
    (held : id ∈ contents.handles) : contents.find entry.key entry.hash = some id := by
  have listed := pinned.cached held
  apply holds.find_iff.mpr
  exact ⟨listed, (holds.memory.matches_iff listed).mpr ⟨entry, pinned.known, rfl, rfl⟩⟩

/-- No call but an insertion or removal of its key takes an entry in use out of the cache. -/
theorem step (pinned : contents.Pinned entry id) (holds : cache.Holds contents)
    {call : CacheCall Value Deleter} (untouched : ¬ call.Touches entry.key entry.hash) :
    (contents.step call).Pinned entry id := by
  have inside := (List.getElem?_eq_some_iff.mp pinned.known).1
  cases call with
  | insert other =>
    obtain ⟨entries, handles⟩ := contents.insert_frame other
    constructor
    · rw [Contents.step, entries, List.getElem?_append_left inside]
      exact pinned.known
    · intro held
      rw [Contents.step, handles] at held
      have heldBefore := (List.mem_cons.mp held).resolve_left inside.ne
      apply holds.mem_cached_insert (Or.inl (pinned.cached heldBefore))
        (holds.notMem_lru heldBefore)
      intro found
      obtain ⟨sameKey, sameHash⟩ := holds.find_known pinned.known found
      exact untouched ⟨sameKey.symm, sameHash.symm⟩
  | lookup key hash =>
    constructor
    · rw [Contents.step, (contents.lookup_frame key hash).1]
      exact pinned.known
    · intro held
      rw [Contents.step] at held ⊢
      unfold Contents.lookup at held ⊢
      cases found : contents.find key hash with
      | none =>
        rw [found] at held
        exact pinned.cached held
      | some other =>
        rw [found] at held
        apply (contents.cached_pin other).mem_iff.mpr
        rcases List.mem_cons.mp held with rfl | heldBefore
        · exact (holds.find_iff.mp found).1
        · exact pinned.cached heldBefore
  | release other =>
    constructor
    · rw [Contents.step, Contents.entries_unpin]
      exact pinned.known
    · intro held
      rw [Contents.step, Contents.handles_unpin] at held
      apply (contents.cached_unpin other).mem_iff.mpr
      exact pinned.cached (List.mem_of_mem_erase held)
  | erase key hash =>
    constructor
    · exact pinned.known
    · intro held
      apply mem_cached_drop_of_ne (pinned.cached held)
      intro found
      obtain ⟨sameKey, sameHash⟩ := holds.find_known pinned.known found
      exact untouched ⟨sameKey.symm, sameHash.symm⟩
  | prune =>
    obtain ⟨entries, handles⟩ := contents.evict_frame fun _ => true
    constructor
    · rw [Contents.step, Contents.prune, entries]
      exact pinned.known
    · intro held
      rw [Contents.step, Contents.prune, handles] at held
      exact mem_cached_evict (pinned.cached held) (holds.notMem_lru held)

end Contents.Pinned

end LevelDbXy
