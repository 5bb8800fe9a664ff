import LevelDbXy.Cache.Lists
import Mathlib.Algebra.Order.BigOperators.Group.List

/-!
# The entries of a cache and their references

`Memory cache entries lru inUse refs` describes everything but the hash table: what
is stored of each entry that was ever inserted follows from the arguments of its insertion,
the list it is on and its number of references, and an entry without references has been
passed to its deleter. `Ref`, `Unref` and `FinishErase` are stated for it.
-/

namespace LevelDbXy

/-- The arguments of `Insert`. -/
structure Entry (Value Deleter : Type) where
  key : Bytes
  hash : Nat
  value : Value
  charge : Nat
  deleter : Deleter

namespace Entry

variable {Value Deleter : Type}

/-- What is stored of the entry. -/
def handle (entry : Entry Value Deleter) (inCache : Bool) (refs : Nat) :
    LRUHandle Value Deleter :=
  { value := entry.value, deleter := entry.deleter, charge := entry.charge, key := entry.key,
    inCache, refs, hash := entry.hash }

/-- The call of the entry's own deleter on its own key and value. -/
def deletion (entry : Entry Value Deleter) (id : Nat) : Deletion Value Deleter :=
  { id, deleter := entry.deleter, key := entry.key, value := entry.value }

end Entry

namespace LRUCache

variable {Value Deleter : Type} {cache cache' : LRUCache Value Deleter}
  {entries : List (Entry Value Deleter)} {entry : Entry Value Deleter}
  {lru inUse lru' inUse' : List Nat} {refs : Nat → Nat} {id : Nat}

/-- The sum of the charges of the listed entries. -/
def totalCharge (entries : List (Entry Value Deleter)) (ids : List Nat) : Nat :=
  (ids.map fun id => (entries[id]?.map Entry.charge).getD 0).sum

/-- The order of the entries does not matter for their charge. -/
theorem totalCharge_perm (entries : List (Entry Value Deleter)) {ids ids' : List Nat}
    (same : ids.Perm ids') : totalCharge entries ids = totalCharge entries ids' :=
  (same.map _).sum_eq

/-- The calls of deleters: one for each inserted entry that is gone, on its own key and
value. -/
structure Deleted (deletions : List (Deletion Value Deleter)) (entries : List (Entry Value Deleter))
    (gone : Nat → Prop) : Prop where
  once : (deletions.map Deletion.id).Nodup
  own : ∀ deletion ∈ deletions, ∃ entry, entries[deletion.id]? = some entry ∧
    deletion = entry.deletion deletion.id
  exactly : ∀ id, id ∈ deletions.map Deletion.id ↔ id < entries.length ∧ gone id

namespace Deleted

variable {deletions : List (Deletion Value Deleter)} {gone gone' : Nat → Prop}

/-- What was deleted depends only on which entries are gone. -/
theorem congr (deleted : Deleted deletions entries gone)
    (same : ∀ id < entries.length, gone' id ↔ gone id) : Deleted deletions entries gone' := by
  refine ⟨deleted.once, deleted.own, fun id => ?_⟩
  rw [deleted.exactly]
  exact and_congr_right fun inside => (same id inside).symm

/-- Another entry is gone. -/
theorem append (deleted : Deleted deletions entries gone) (known : entries[id]? = some entry)
    (notGone : ¬ gone id) (more : ∀ other < entries.length, gone' other ↔ gone other ∨ other = id) :
    Deleted (deletions ++ [entry.deletion id]) entries gone' := by
  have inside : id < entries.length := (List.getElem?_eq_some_iff.mp known).1
  have notDeleted : id ∉ deletions.map Deletion.id := fun member =>
    notGone ((deleted.exactly id).mp member).2
  refine ⟨?_, fun deletion member => ?_, fun other => ?_⟩
  · rw [List.map_append, List.map_singleton]
    refine deleted.once.append (List.nodup_singleton _) fun other isOld isNew => ?_
    rw [List.mem_singleton.mp isNew] at isOld
    exact notDeleted isOld
  · rcases List.mem_append.mp member with isOld | isNew
    · exact deleted.own deletion isOld
    · rw [List.mem_singleton.mp isNew]
      exact ⟨entry, known, rfl⟩
  · rw [List.map_append, List.map_singleton, List.mem_append, List.mem_singleton, deleted.exactly]
    constructor
    · rintro (⟨isInside, isGone⟩ | rfl)
      · exact ⟨isInside, (more other isInside).mpr (Or.inl isGone)⟩
      · exact ⟨inside, (more _ inside).mpr (Or.inr rfl)⟩
    · rintro ⟨isInside, isGone⟩
      exact ((more other isInside).mp isGone).imp_left fun before => ⟨isInside, before⟩

/-- Another entry is inserted. -/
theorem insert (deleted : Deleted deletions entries gone) (entry : Entry Value Deleter)
    (same : ∀ id < entries.length, gone' id ↔ gone id) (notGone : ¬ gone' entries.length) :
    Deleted deletions (entries ++ [entry]) gone' := by
  refine ⟨deleted.once, fun deletion member => ?_, fun id => ?_⟩
  · obtain ⟨known, isKnown, own⟩ := deleted.own deletion member
    refine ⟨known, ?_, own⟩
    rw [List.getElem?_append_left (List.getElem?_eq_some_iff.mp isKnown).1, isKnown]
  · rw [deleted.exactly, List.length_append, List.length_singleton]
    constructor
    · rintro ⟨inside, isGone⟩
      exact ⟨Nat.lt_succ_of_lt inside, (same id inside).mpr isGone⟩
    · rintro ⟨bound, isGone⟩
      have inside : id < entries.length := by
        refine (Nat.lt_succ_iff_lt_or_eq.mp bound).resolve_right ?_
        rintro rfl
        exact notGone isGone
      exact ⟨inside, (same id inside).mp isGone⟩

end Deleted

/-- What the cache stores, apart from its hash table. -/
structure Memory (cache : LRUCache Value Deleter) (entries : List (Entry Value Deleter))
    (lru inUse : List Nat) (refs : Nat → Nat) : Prop where
  lists : Lists cache lru inUse
  fresh : cache.fresh = entries.length
  stored : ∀ id, cache.heap id = entries[id]?.bind fun entry =>
    if refs id = 0 then none else some (entry.handle (decide (id ∈ lru ++ inUse)) (refs id))
  refs_lt : ∀ id, refs id < 2 ^ 32
  lru_refs : ∀ id ∈ lru, refs id = 1
  inUse_refs : ∀ id ∈ inUse, 1 < refs id
  usage : cache.usage = totalCharge entries (lru ++ inUse) % 2 ^ 64
  deleted : Deleted cache.deletions entries fun id => refs id = 0

/-- The operation leaves the hash table alone, and takes back no call of a deleter. -/
structure SameTable (cache cache' : LRUCache Value Deleter) : Prop where
  capacity : cache'.capacity = cache.capacity
  table : cache'.table = cache.table
  nextHash : cache'.nextHash = cache.nextHash
  deletions : cache.deletions <+: cache'.deletions

namespace Memory

/-- An entry with references is on the heap, with their number. -/
theorem stored_eq (memory : Memory cache entries lru inUse refs) (known : entries[id]? = some entry)
    (live : 0 < refs id) :
    cache.heap id = some (entry.handle (decide (id ∈ lru ++ inUse)) (refs id)) := by
  rw [memory.stored, known, Option.bind_some, if_neg (by omega)]

/-- An entry on a list has references. -/
theorem live_of_listed (memory : Memory cache entries lru inUse refs) (listed : id ∈ lru ++ inUse) :
    0 < refs id := by
  rcases List.mem_append.mp listed with inLru | inInUse
  · rw [memory.lru_refs id inLru]
    exact Nat.one_pos
  · exact Nat.zero_lt_of_lt (memory.inUse_refs id inInUse)

/-- An entry on a list has been inserted. -/
theorem known_of_listed (memory : Memory cache entries lru inUse refs)
    (listed : id ∈ lru ++ inUse) : ∃ entry, entries[id]? = some entry := by
  have alive := memory.lists.alive id (List.mem_append.mp listed)
  rw [memory.stored] at alive
  cases known : entries[id]? with
  | none => simp [known] at alive
  | some entry => exact ⟨entry, rfl⟩

/-- Nothing but the hash table depends on its pointers. -/
theorem of_table (memory : Memory cache entries lru inUse refs) (nextHash : Nat → Option Nat)
    (table : HandleTable) : Memory { cache with nextHash, table } entries lru inUse refs :=
  ⟨memory.lists.congr rfl rfl memory.lists.alive, memory.fresh, memory.stored, memory.refs_lt,
    memory.lru_refs, memory.inUse_refs, memory.usage, memory.deleted⟩

/-- One entry changes its list, its references or its mark, and stays allocated. -/
theorem change {count : Nat} (memory : Memory cache entries lru inUse refs)
    (known : entries[id]? = some entry) (live : 0 < refs id) (positive : 0 < count)
    (bound : count < 2 ^ 32) (lists : Lists cache' lru' inUse')
    (fresh : cache'.fresh = cache.fresh) (deletions : cache'.deletions = cache.deletions)
    (heap : cache'.heap = Function.update cache.heap id
      (some (entry.handle (decide (id ∈ lru' ++ inUse')) count)))
    (sameLru : ∀ other ≠ id, other ∈ lru' ↔ other ∈ lru)
    (sameInUse : ∀ other ≠ id, other ∈ inUse' ↔ other ∈ inUse)
    (lruRefs : id ∈ lru' → count = 1) (inUseRefs : id ∈ inUse' → 1 < count)
    (usage : cache'.usage = totalCharge entries (lru' ++ inUse') % 2 ^ 64) :
    Memory cache' entries lru' inUse' (Function.update refs id count) := by
  refine ⟨lists, fresh.trans memory.fresh, fun other => ?_, fun other => ?_, fun other inLru => ?_,
    fun other inInUse => ?_, usage, ?_⟩
  · rw [heap]
    by_cases same : other = id
    · subst same
      rw [Function.update_self, Function.update_self, known, Option.bind_some, if_neg (by omega)]
    · rw [Function.update_of_ne same, Function.update_of_ne same, memory.stored other]
      simp only [List.mem_append, sameLru other same, sameInUse other same]
  · by_cases same : other = id
    · rwa [same, Function.update_self]
    · rw [Function.update_of_ne same]
      exact memory.refs_lt other
  · by_cases same : other = id
    · rw [same, Function.update_self]
      exact lruRefs (same ▸ inLru)
    · rw [Function.update_of_ne same]
      exact memory.lru_refs other ((sameLru other same).mp inLru)
  · by_cases same : other = id
    · rw [same, Function.update_self]
      exact inUseRefs (same ▸ inInUse)
    · rw [Function.update_of_ne same]
      exact memory.inUse_refs other ((sameInUse other same).mp inInUse)
  · rw [deletions]
    refine memory.deleted.congr fun other _ => ?_
    by_cases same : other = id
    · rw [same, Function.update_self]
      omega
    · rw [Function.update_of_ne same]

/-- Storing into an entry keeps the lists. -/
theorem modify_lists (lists : Lists cache lru inUse) (id : Nat) (handle : LRUHandle Value Deleter) :
    Lists (cache.modify id handle) lru inUse := by
  refine lists.congr rfl rfl fun other listed => ?_
  by_cases same : other = id
  · rw [same]
    exact Option.isSome_of_eq_some (Function.update_self ..)
  · simp only [modify, Function.update_of_ne same]
    exact lists.alive other listed

/-- `Ref` adds a reference; an entry on `lru_` moves to the end of `in_use_`. -/
theorem ref (memory : Memory cache entries lru inUse refs) (known : entries[id]? = some entry)
    (live : 0 < refs id) (bound : refs id + 1 < 2 ^ 32) :
    ∃ cache', cache.ref id = some cache' ∧
      Memory cache' entries (lru.erase id) (if id ∈ lru then inUse ++ [id] else inUse)
        (Function.update refs id (refs id + 1)) ∧
      SameTable cache cache' := by
  have stored := memory.stored_eq known live
  have wraps : (refs id + 1) % 2 ^ 32 = refs id + 1 := Nat.mod_eq_of_lt bound
  by_cases inLru : id ∈ lru
  · have one : refs id = 1 := memory.lru_refs id inLru
    obtain ⟨next, prev, moved, lists⟩ := memory.lists.move_inUse inLru
    have distinct := nodup_of_ring memory.lists.lruRing
    rw [if_pos inLru]
    refine ⟨modify { cache with next, prev } id (entry.handle true (refs id + 1)), ?_, ?_,
      rfl, rfl, rfl, List.prefix_refl _⟩
    · have marked : decide (id ∈ lru ++ inUse) = true :=
        decide_eq_true (List.mem_append_left _ inLru)
      simp only [LRUCache.ref, stored, Option.bind_eq_bind, Option.bind_some, Entry.handle, marked]
      rw [if_pos ⟨one, trivial⟩, ← Option.bind_assoc, moved, Option.bind_some, wraps]
    · refine memory.change known live (Nat.succ_pos _) bound (modify_lists lists id _) rfl rfl ?_
        ?_ ?_ ?_ ?_ ?_
      · simp [modify]
      · exact fun other different => List.mem_erase_of_ne different
      · intro other different
        simp [different]
      · exact fun inErased => absurd inErased distinct.not_mem_erase
      · omega
      · refine memory.usage.trans (congrArg (· % 2 ^ 64) (totalCharge_perm entries ?_))
        rw [← List.append_assoc]
        refine ((List.perm_cons_erase inLru).append_right inUse).trans ?_
        exact @List.perm_append_comm _ [id] (lru.erase id ++ inUse)
  · rw [if_neg inLru, List.erase_of_not_mem inLru]
    have unmoved : ¬ ((refs id = 1) ∧ decide (id ∈ lru ++ inUse) = true) := by
      rintro ⟨one, marked⟩
      have inInUse := (List.mem_append.mp (of_decide_eq_true marked)).resolve_left inLru
      have := memory.inUse_refs id inInUse
      omega
    refine ⟨cache.modify id (entry.handle (decide (id ∈ lru ++ inUse)) (refs id + 1)), ?_, ?_,
      rfl, rfl, rfl, List.prefix_refl _⟩
    · simp only [LRUCache.ref, stored, Option.bind_eq_bind, Option.bind_some, Entry.handle]
      rw [if_neg unmoved, wraps]
    · exact memory.change known live (Nat.succ_pos _) bound (modify_lists memory.lists id _) rfl
        rfl rfl (fun _ _ => Iff.rfl) (fun _ _ => Iff.rfl) (fun inside => absurd inside inLru)
        (by omega)
        memory.usage

/-- The last reference of an entry that is on no list is dropped. -/
theorem free (memory : Memory cache entries lru inUse refs) (known : entries[id]? = some entry)
    (unlisted : id ∉ lru ++ inUse) (live : 0 < refs id) :
    Memory (cache.free id (entry.handle false 0) entry.key) entries lru inUse
      (Function.update refs id 0) := by
  have listed : ∀ other ∈ lru ++ inUse, other ≠ id := by
    rintro other member rfl
    exact unlisted member
  refine ⟨memory.lists.congr rfl rfl fun other member => ?_, memory.fresh, fun other => ?_,
    fun other => ?_, fun other inLru => ?_, fun other inInUse => ?_, memory.usage, ?_⟩
  · simp only [LRUCache.free, Function.update_of_ne (listed other (List.mem_append.mpr member))]
    exact memory.lists.alive other member
  · by_cases same : other = id
    · subst same
      simp [LRUCache.free, known]
    · simp only [LRUCache.free, Function.update_of_ne same]
      exact memory.stored other
  · by_cases same : other = id
    · simp [same]
    · rw [Function.update_of_ne same]
      exact memory.refs_lt other
  · rw [Function.update_of_ne (listed other (List.mem_append_left _ inLru))]
    exact memory.lru_refs other inLru
  · rw [Function.update_of_ne (listed other (List.mem_append_right _ inInUse))]
    exact memory.inUse_refs other inInUse
  · refine memory.deleted.append known live.ne' fun other _ => ?_
    by_cases same : other = id
    · simp [same]
    · simp [same]

/-- `Unref` of the last reference of an entry that is not cached frees it. -/
theorem unref_last (noSelf : ∀ id, cache.next (.entry id) ≠ some (.entry id))
    (stored : cache.heap id = some (entry.handle false 1)) :
    cache.unref id = some (cache.free id (entry.handle false 0) entry.key) := by
  have storedLast : (cache.modify id (entry.handle false 0)).heap id =
      some (entry.handle false 0) :=
    Function.update_self ..
  have read : keyOf (cache.modify id (entry.handle false 0)) id =
      some (entry.handle false 0).key := by
    refine keyOf_eq ?_ storedLast
    exact noSelf
  simp only [Entry.handle] at read stored
  simp only [LRUCache.unref, stored, Option.bind_eq_bind, Option.bind_some, Entry.handle,
    Nat.sub_self, one_ne_zero, if_false, if_true, Bool.false_eq_true, read]
  simp only [LRUCache.free, modify, Function.update_idem]

/-- `Unref` drops a reference of an entry that is not on `lru_`; the entry moves to the end
of `lru_` if the cache's reference is the last one, and is freed if there is none. -/
theorem unref (memory : Memory cache entries lru inUse refs) (known : entries[id]? = some entry)
    (live : 0 < refs id) (notLru : id ∉ lru) :
    ∃ cache', cache.unref id = some cache' ∧
      Memory cache' entries (if id ∈ inUse ∧ refs id = 2 then lru ++ [id] else lru)
        (if id ∈ inUse ∧ refs id = 2 then inUse.erase id else inUse)
        (Function.update refs id (refs id - 1)) ∧
      SameTable cache cache' := by
  have stored := memory.stored_eq known live
  have bound := memory.refs_lt id
  by_cases last : refs id = 1
  · have unlisted : id ∉ lru ++ inUse := by
      intro listed
      have := memory.inUse_refs id ((List.mem_append.mp listed).resolve_left notLru)
      omega
    have two : ¬ (id ∈ inUse ∧ refs id = 2) := by omega
    rw [if_neg two, if_neg two, last]
    rw [decide_eq_false unlisted, last] at stored
    exact ⟨_, unref_last memory.lists.noSelf stored, memory.free known unlisted live,
      rfl, rfl, rfl, List.prefix_append ..⟩
  · have stays : 0 < refs id - 1 := by omega
    by_cases moves : id ∈ inUse ∧ refs id = 2
    · have marked : decide (id ∈ lru ++ inUse) = true :=
        decide_eq_true (List.mem_append_right _ moves.1)
      obtain ⟨next, prev, moved, lists⟩ :=
        (modify_lists memory.lists id (entry.handle true (refs id - 1))).move_lru moves.1
      have distinct := nodup_of_ring memory.lists.inUseRing
      rw [if_pos moves, if_pos moves]
      refine ⟨{ cache.modify id (entry.handle true (refs id - 1)) with next, prev }, ?_, ?_,
        rfl, rfl, rfl, List.prefix_refl _⟩
      · simp only [Entry.handle] at moved ⊢
        simp only [LRUCache.unref, stored, Option.bind_eq_bind, Option.bind_some, Entry.handle,
          marked]
        rw [if_neg live.ne', if_neg stays.ne', if_pos ⟨trivial, by omega⟩, moved]
      · refine memory.change known live stays (by omega) lists rfl rfl ?_ ?_ ?_ ?_ ?_ ?_
        · simp [modify]
        · intro other different
          simp [different]
        · exact fun other different => List.mem_erase_of_ne different
        · omega
        · exact fun inErased => absurd inErased distinct.not_mem_erase
        · refine memory.usage.trans (congrArg (· % 2 ^ 64) (totalCharge_perm entries ?_))
          rw [List.append_assoc]
          exact (List.perm_cons_erase moves.1).append_left lru
    · rw [if_neg moves, if_neg moves]
      refine ⟨cache.modify id (entry.handle (decide (id ∈ lru ++ inUse)) (refs id - 1)), ?_, ?_,
        rfl, rfl, rfl, List.prefix_refl _⟩
      · simp only [LRUCache.unref, stored, Option.bind_eq_bind, Option.bind_some, Entry.handle]
        rw [if_neg live.ne', if_neg stays.ne', if_neg]
        rintro ⟨marked, one⟩
        have listed := List.mem_append.mp (of_decide_eq_true marked)
        exact moves ⟨listed.resolve_left notLru, by omega⟩
      · refine memory.change known live stays (by omega) (modify_lists memory.lists id _) rfl rfl
          rfl (fun _ _ => Iff.rfl) (fun _ _ => Iff.rfl) (fun inLru => absurd inLru notLru) ?_
          memory.usage
        intro inInUse
        have := memory.inUse_refs id inInUse
        have : refs id ≠ 2 := fun two => moves ⟨inInUse, two⟩
        omega

/-- Taking a listed entry out of the two lists. -/
theorem perm_cons_erase_lists (lists : Lists cache lru inUse) (listed : id ∈ lru ++ inUse) :
    (lru ++ inUse).Perm (id :: (lru.erase id ++ inUse.erase id)) := by
  rcases List.mem_append.mp listed with inLru | inInUse
  · rw [List.erase_of_not_mem (lists.apart id inLru)]
    exact (List.perm_cons_erase inLru).append_right inUse
  · rw [List.erase_of_not_mem fun inLru => lists.apart id inLru inInUse]
    refine ((List.perm_cons_erase inInUse).append_left lru).trans ?_
    exact List.perm_middle

/-- `FinishErase` takes an entry off its list and drops the cache's reference. -/
theorem finishErase (memory : Memory cache entries lru inUse refs) (listed : id ∈ lru ++ inUse) :
    ∃ cache', cache.finishErase (some id) = some cache' ∧
      Memory cache' entries (lru.erase id) (inUse.erase id)
        (Function.update refs id (refs id - 1)) ∧
      SameTable cache cache' := by
  obtain ⟨entry, known⟩ := memory.known_of_listed listed
  have live := memory.live_of_listed listed
  have stored := memory.stored_eq known live
  have marked : decide (id ∈ lru ++ inUse) = true := decide_eq_true listed
  obtain ⟨next, prev, removed, lists⟩ := memory.lists.remove (List.mem_append.mp listed)
  have notLru : id ∉ lru.erase id := (nodup_of_ring memory.lists.lruRing).not_mem_erase
  have notInUse : id ∉ inUse.erase id := (nodup_of_ring memory.lists.inUseRing).not_mem_erase
  have unmarked : decide (id ∈ lru.erase id ++ inUse.erase id) = false := by
    simp [notLru, notInUse]
  obtain ⟨usage, usageEq⟩ : ∃ usage,
    usage = (cache.usage + (2 ^ 64 - entry.charge % 2 ^ 64)) % 2 ^ 64 := ⟨_, rfl⟩
  have taken : Memory
      { modify { cache with next, prev } id (entry.handle false (refs id)) with usage } entries
      (lru.erase id) (inUse.erase id) (Function.update refs id (refs id)) := by
    refine memory.change known live live (memory.refs_lt id) ?_ rfl rfl ?_
      (fun other different => List.mem_erase_of_ne different)
      (fun other different => List.mem_erase_of_ne different) (fun inside => absurd inside notLru)
      (fun inside => absurd inside notInUse) ?_
    · exact (modify_lists lists id (entry.handle false (refs id))).congr rfl rfl
        (modify_lists lists id (entry.handle false (refs id))).alive
    · rw [unmarked]
      rfl
    · have total : totalCharge entries (lru ++ inUse) =
          entry.charge + totalCharge entries (lru.erase id ++ inUse.erase id) := by
        rw [totalCharge_perm entries (perm_cons_erase_lists memory.lists listed)]
        simp [totalCharge, known]
      have before := memory.usage
      rw [total] at before
      show usage = _
      omega
  rw [Function.update_eq_self] at taken
  obtain ⟨cache', dropped, after, same⟩ := taken.unref known live notLru
  simp only [notInUse, false_and, if_false] at after
  refine ⟨cache', ?_, after, same.capacity, same.table, same.nextHash, same.deletions⟩
  rw [← dropped, usageEq]
  simp only [LRUCache.finishErase, stored, Option.bind_eq_bind, Option.bind_some, Entry.handle,
    marked, Bool.true_eq_false, if_false, removed]
  rfl

/-- A new entry does not change the charge of the others. -/
theorem totalCharge_append {ids : List Nat} (known : ∀ id ∈ ids, id < entries.length)
    (entry : Entry Value Deleter) :
    totalCharge (entries ++ [entry]) ids = totalCharge entries ids := by
  refine congrArg List.sum (List.map_congr_left fun id member => ?_)
  rw [List.getElem?_append_left (known id member)]

/-- A new entry has one reference and is on no list. -/
theorem allocate (memory : Memory cache entries lru inUse refs) (entry : Entry Value Deleter) :
    Memory (cache.allocate entry.key entry.hash entry.value entry.charge entry.deleter)
      (entries ++ [entry]) lru inUse (Function.update refs entries.length 1) := by
  have inside : ∀ id ∈ lru ++ inUse, id < entries.length := by
    intro id listed
    obtain ⟨known, isKnown⟩ := memory.known_of_listed listed
    exact (List.getElem?_eq_some_iff.mp isKnown).1
  have notNew : ∀ id ∈ lru ++ inUse, id ≠ entries.length := fun id listed => (inside id listed).ne
  have keeps : ∀ {head : HandlePtr} {ids : List Nat} (links : HandlePtr → Option HandlePtr),
      (∀ id, head ≠ .entry id) → (∀ id ∈ ids, id ∈ lru ++ inUse) →
      ∀ q ∈ head :: ids.map HandlePtr.entry,
        Function.update links (.entry cache.fresh) none q = links q := by
    intro head ids links notEntry listed q member
    refine Function.update_of_ne ?_ _ _
    rw [memory.fresh]
    rcases List.mem_cons.mp member with rfl | inList
    · exact notEntry _
    · obtain ⟨id, isListed, rfl⟩ := List.mem_map.mp inList
      simpa using notNew id (listed id isListed)
  refine ⟨⟨?_, ?_, memory.lists.apart, fun id listed => ?_, fun id => ?_⟩, ?_, fun id => ?_,
    fun id => ?_, fun id inLru => ?_, fun id inInUse => ?_, ?_, ?_⟩
  · exact memory.lists.lruRing.congr (keeps _ (by simp) (by simp +contextual))
      (keeps _ (by simp) (by simp +contextual))
  · exact memory.lists.inUseRing.congr (keeps _ (by simp) (by simp +contextual))
      (keeps _ (by simp) (by simp +contextual))
  · simp only [LRUCache.allocate, memory.fresh,
      Function.update_of_ne (notNew id (List.mem_append.mpr listed))]
    exact memory.lists.alive id listed
  · simp only [LRUCache.allocate]
    by_cases same : HandlePtr.entry id = .entry cache.fresh
    · simp [same]
    · rw [Function.update_of_ne same]
      exact memory.lists.noSelf id
  · simp [LRUCache.allocate, memory.fresh]
  · simp only [LRUCache.allocate, memory.fresh]
    rcases Nat.lt_trichotomy id entries.length with before | rfl | beyond
    · rw [Function.update_of_ne before.ne, Function.update_of_ne before.ne, memory.stored id,
        List.getElem?_append_left before]
    · have unlisted : entries.length ∉ lru ++ inUse := fun listed => notNew _ listed rfl
      simp only [Function.update_self, List.getElem?_concat_length, Option.bind_some, one_ne_zero,
        if_false, Entry.handle, decide_eq_false unlisted]
    · rw [Function.update_of_ne beyond.ne', memory.stored id, List.getElem?_eq_none beyond.le,
        List.getElem?_eq_none (by simp; omega)]
      rfl
  · by_cases same : id = entries.length
    · simp [same]
    · rw [Function.update_of_ne same]
      exact memory.refs_lt id
  · rw [Function.update_of_ne (notNew id (List.mem_append_left _ inLru))]
    exact memory.lru_refs id inLru
  · rw [Function.update_of_ne (notNew id (List.mem_append_right _ inInUse))]
    exact memory.inUse_refs id inInUse
  · rw [totalCharge_append inside]
    exact memory.usage
  · refine memory.deleted.insert entry (fun id inside => ?_) ?_
    · rw [Function.update_of_ne inside.ne]
    · rw [Function.update_self]
      exact one_ne_zero

/-- The branch of `Insert` that caches an entry gives it the cache's reference and puts it at
the end of `in_use_`; the rest is the insertion into the table. -/
theorem cacheNew (memory : Memory cache entries lru inUse refs) (known : entries[id]? = some entry)
    (unlisted : id ∉ lru ++ inUse) (one : refs id = 1) :
    ∃ cache', cache.cacheNew id =
        (cache'.tableInsert id).bind (fun inserted => inserted.1.finishErase inserted.2) ∧
      Memory cache' entries lru (inUse ++ [id]) (Function.update refs id 2) ∧
      SameTable cache cache' := by
  have live : 0 < refs id := by omega
  have stored := memory.stored_eq known live
  obtain ⟨notLru, notInUse⟩ := not_or.mp (mt List.mem_append.mpr unlisted)
  obtain ⟨next, prev, appended, lists⟩ :=
    (modify_lists memory.lists id (entry.handle true 2)).append_inUse
      (Option.isSome_of_eq_some (Function.update_self ..)) notLru notInUse
  obtain ⟨usage, usageEq⟩ : ∃ usage, usage = (cache.usage + entry.charge) % 2 ^ 64 := ⟨_, rfl⟩
  refine ⟨{ cache.modify id (entry.handle true 2) with next, prev, usage }, ?_, ?_, rfl, rfl, rfl,
    List.prefix_refl _⟩
  · simp only [Entry.handle] at appended ⊢
    simp only [LRUCache.cacheNew, stored, Option.bind_eq_bind, Option.bind_some, Entry.handle, one,
      Nat.reduceAdd, appended, usageEq]
    rfl
  · refine memory.change known live Nat.two_pos (by omega)
      (lists.congr rfl rfl lists.alive) rfl rfl ?_ (fun other different => Iff.rfl) ?_ ?_ ?_ ?_
    · simp [modify]
    · intro other different
      simp [different]
    · exact fun inLru => absurd inLru notLru
    · exact fun _ => Nat.one_lt_two
    · have total : totalCharge entries (lru ++ (inUse ++ [id])) =
          totalCharge entries (lru ++ inUse) + entry.charge := by
        simp [totalCharge, known]
        omega
      have before := memory.usage
      rw [total]
      show usage = _
      omega

end Memory

end LRUCache

end LevelDbXy
