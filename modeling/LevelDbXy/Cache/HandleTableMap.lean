import LevelDbXy.Cache.HandleTableInsert
import LevelDbXy.Library.Machine
import Mathlib.Data.Finmap

/-!
# The hash table as a finite map

`HandleTable` on its own, with callers that create handles and insert, remove and look up
in any order. Whatever the hash function, the table follows a finite map from keys to
handles, its length is a power of two and its entries are no more than that. A call has no
result if it follows a dangling pointer, does not end or fails the assertion of `Resize`, so
that a run with a result has none of these.
-/

namespace LevelDbXy

/-- A call on a table. Callers create the handles, which are numbered in order. -/
inductive TableCall (Value Deleter : Type) where
  | create (key : Bytes) (value : Value) (charge : Nat) (deleter : Deleter)
  | insert (id : Nat)
  | remove (key : Bytes)
  | lookup (key : Bytes)
  deriving DecidableEq

/-- A table with the memory of the handles, and what the calls returned. -/
structure TableClient (Value Deleter : Type) where
  cache : LRUCache Value Deleter
  results : List (Option Nat)

namespace TableClient

variable {Value Deleter : Type}

/-- A new table; the capacity of a cache plays no part in it. -/
def new (Value Deleter : Type) : Option (TableClient Value Deleter) := do
  let cache ← LRUCache.new 0
  some ⟨cache, []⟩

/-- A call, for callers that compute the hash from the key. -/
def step (hashOf : Bytes → UInt32) (client : TableClient Value Deleter) :
    TableCall Value Deleter → Option (TableClient Value Deleter)
  | .create key value charge deleter =>
    some { client with
      cache := client.cache.allocate key (hashOf key).toNat value charge deleter }
  | .insert id => do
    let (cache, old) ← client.cache.tableInsert id
    some ⟨cache, client.results ++ [old]⟩
  | .remove key => do
    let (cache, result) ← client.cache.tableRemove key (hashOf key).toNat
    some ⟨cache, client.results ++ [result]⟩
  | .lookup key => do
    let result ← client.cache.tableLookup key (hashOf key).toNat
    some { client with results := client.results ++ [result] }

/-- A run of calls on a new table. -/
def run (hashOf : Bytes → UInt32) (calls : List (TableCall Value Deleter)) :
    Option (TableClient Value Deleter) := do
  let client ← new Value Deleter
  Machine.run (step hashOf) client calls

end TableClient

/-- The finite map that a table stands for, the keys of the handles and what the calls
return. -/
structure TableMap where
  keys : List Bytes
  map : Finmap fun _ : Bytes => Nat
  results : List (Option Nat)

namespace TableMap

variable {Value Deleter : Type}

/-- A new table. -/
def empty : TableMap := ⟨[], ∅, []⟩

/-- A call on the map. -/
def step (abs : TableMap) : TableCall Value Deleter → TableMap
  | .create key _ _ _ => { abs with keys := abs.keys ++ [key] }
  | .insert id =>
    let key := abs.keys.getD id []
    { abs with
      map := abs.map.insert key id
      results := abs.results ++ [abs.map.lookup key] }
  | .remove key =>
    { abs with
      map := abs.map.erase key
      results := abs.results ++ [abs.map.lookup key] }
  | .lookup key => { abs with results := abs.results ++ [abs.map.lookup key] }

/-- Only handles that exist are inserted, and there are never more than 2^31 entries. -/
def Allowed (abs : TableMap) : TableCall Value Deleter → Prop
  | .insert id => id < abs.keys.length ∧
      (abs.keys.getD id [] ∈ abs.map ∨ abs.map.keys.card < 2 ^ 31)
  | _ => True

instance (abs : TableMap) : ∀ call : TableCall Value Deleter, Decidable (abs.Allowed call)
  | .create _ _ _ _ => isTrue trivial
  | .insert _ => inferInstanceAs (Decidable (_ ∧ (_ ∨ _)))
  | .remove _ => isTrue trivial
  | .lookup _ => isTrue trivial

end TableMap

namespace LRUCache

variable {Value Deleter : Type} {cache cache' : LRUCache Value Deleter}

/-! ### The length of the table -/

/-- The length is a power of two and bounds the number of the entries. -/
structure Sized (table : HandleTable) : Prop where
  power : ∃ k, table.length = 2 ^ k
  elems_le : table.elems ≤ table.length

/-- `Resize` makes the table large enough. -/
theorem sized_of_resize (small : cache'.table.elems ≤ 2 ^ 31)
    (resized : cache.resize = some cache') : Sized cache'.table := by
  obtain ⟨newLength, computed, rest⟩ := Option.bind_eq_some_iff.mp resized
  obtain ⟨moved, -, counted⟩ := Option.bind_eq_some_iff.mp rest
  split_ifs at counted
  obtain rfl := Option.some.inj counted
  obtain ⟨j, grown, enough⟩ := @growLength_of_le cache.table.elems 32 2 small (by omega) (by omega)
  obtain rfl : 2 ^ j = newLength := Option.some.inj (grown.symm.trans computed)
  exact ⟨⟨j, rfl⟩, enough⟩

/-- `Insert` resizes the table when it is full. -/
theorem sized_of_tableInsert {id : Nat} {old : Option Nat} (sized : Sized cache.table)
    (small : cache'.table.elems ≤ 2 ^ 31) (inserted : cache.tableInsert id = some (cache', old)) :
    Sized cache'.table := by
  obtain ⟨handle, -, rest⟩ := Option.bind_eq_some_iff.mp inserted
  obtain ⟨key, -, rest⟩ := Option.bind_eq_some_iff.mp rest
  obtain ⟨slot, -, rest⟩ := Option.bind_eq_some_iff.mp rest
  obtain ⟨found, -, rest⟩ := Option.bind_eq_some_iff.mp rest
  dsimp only at rest
  split_ifs at rest with absent full
  · obtain ⟨resized, ran, result⟩ := Option.bind_eq_some_iff.mp rest
    obtain ⟨rfl, -⟩ := Prod.mk.inj (Option.some.inj result)
    exact sized_of_resize small ran
  · obtain ⟨rfl, -⟩ := Prod.mk.inj (Option.some.inj rest)
    exact ⟨by simpa using sized.power, by simpa using full⟩
  · obtain ⟨rfl, -⟩ := Prod.mk.inj (Option.some.inj rest)
    exact ⟨by simpa using sized.power, by simpa using sized.elems_le⟩

/-! ### Inserting a handle again -/

/-- To store what a slot holds changes nothing. -/
theorem writeSlot_self {slot : Slot} {target : Option Nat}
    (read : cache.readSlot slot = some target) : cache.writeSlot slot target = cache := by
  cases slot with
  | bucket index =>
    have same : cache.table.list.set index target = cache.table.list := by
      apply List.ext_getElem?
      intro other
      rw [List.getElem?_set]
      split_ifs with isIndex inside
      · exact (isIndex ▸ read).symm
      · exact (List.getElem?_eq_none (isIndex ▸ Nat.le_of_not_lt inside)).symm
      · rfl
    simp only [writeSlot, same]
  | nextHash id =>
    simp only [readSlot] at read
    split_ifs at read
    simp only [writeSlot, ← Option.some.inj read, Function.update_eq_self]

/-- A handle that is in the table takes its own place. -/
theorem Table.insert_listed {ids : List Nat} {id : Nat} {handle : LRUHandle Value Deleter}
    (table : cache.Table ids) (noSelf : ∀ id, cache.next (.entry id) ≠ some (.entry id))
    (stored : cache.heap id = some handle) (listed : id ∈ ids) :
    cache.tableInsert id = some (cache, some id) := by
  obtain ⟨index, before, after, found⟩ := table.exists_found noSelf handle.key handle.hash
  have first := (found.first id).mpr ⟨listed, handle, stored, rfl, rfl⟩
  have target := found.target
  rw [first] at target
  have unchanged : cache.writeSlot (.nextHash id) (cache.nextHash id) = cache :=
    writeSlot_self (if_pos (Option.isSome_of_eq_some stored))
  simp only [tableInsert, stored, keyOf_eq noSelf stored, found.pointer, target,
    Option.bind_eq_bind, Option.bind_some, unchanged, writeSlot_self target, reduceCtorEq, if_false]

end LRUCache

/-! ### The refinement -/

namespace TableClient

variable {Value Deleter : Type} {hashOf : Bytes → UInt32} {client : TableClient Value Deleter}
  {abs : TableMap} {ids : List Nat}

/-- The table holds these handles, and they are those of the map. -/
structure Refines (hashOf : Bytes → UInt32) (client : TableClient Value Deleter) (abs : TableMap)
    (ids : List Nat) : Prop where
  table : client.cache.Table ids
  sized : LRUCache.Sized client.cache.table
  small : ids.length ≤ 2 ^ 31
  lookup_iff : ∀ key id, abs.map.lookup key = some id ↔ id ∈ ids ∧ abs.keys[id]? = some key
  created : ∀ id, (client.cache.heap id).map (fun handle => (handle.key, handle.hash)) =
    abs.keys[id]?.map fun key => (key, (hashOf key).toNat)
  fresh : client.cache.fresh = abs.keys.length
  unlinked : ∀ id, client.cache.next (.entry id) = none
  results : client.results = abs.results

namespace Refines

variable (refines : client.Refines hashOf abs ids)
include refines

/-- No entry is linked to itself. -/
theorem noSelf (id : Nat) : client.cache.next (.entry id) ≠ some (.entry id) := by
  rw [refines.unlinked id]
  exact Option.some_ne_none _ |>.symm

/-- A handle has the key it was created with. -/
theorem matches_iff {key : Bytes} {id : Nat} :
    client.cache.Matches key (hashOf key).toNat id ↔ abs.keys[id]? = some key := by
  have same := refines.created id
  cases known : abs.keys[id]? with
  | none =>
    rw [known, Option.map_none, Option.map_eq_none_iff] at same
    simp [LRUCache.Matches, same]
  | some other =>
    rw [known, Option.map_some] at same
    obtain ⟨handle, stored, shape⟩ := Option.map_eq_some_iff.mp same
    obtain ⟨rfl, hash⟩ := Prod.mk.inj shape
    simp only [LRUCache.Matches, stored, Option.some.injEq, exists_eq_left', hash]
    constructor
    · exact And.right
    · rintro rfl
      exact ⟨rfl, rfl⟩

/-- What the table finds is what the map has. -/
theorem lookup_eq {key : Bytes} {result : Option Nat}
    (isResult : ∀ id, result = some id ↔
      id ∈ ids ∧ client.cache.Matches key (hashOf key).toNat id) :
    result = abs.map.lookup key := by
  ext id
  rw [isResult, refines.lookup_iff, refines.matches_iff]

/-- A handle in the table has a key. -/
theorem known {id : Nat} (listed : id ∈ ids) : ∃ key, abs.keys[id]? = some key := by
  have inside := (refines.table.alive id listed).1
  rw [refines.fresh] at inside
  exact ⟨_, List.getElem?_eq_getElem inside⟩

/-- There are as many keys in the map as handles in the table. -/
theorem card_keys : abs.map.keys.card = ids.length := by
  have image : abs.map.keys = ids.toFinset.image fun id => abs.keys.getD id [] := by
    ext key
    rw [Finmap.mem_keys, Finmap.mem_iff, Finset.mem_image]
    constructor
    · rintro ⟨id, found⟩
      obtain ⟨listed, known⟩ := (refines.lookup_iff key id).mp found
      exact ⟨id, List.mem_toFinset.mpr listed, by rw [List.getD_eq_getElem?_getD, known]; rfl⟩
    · rintro ⟨id, member, rfl⟩
      have listed := List.mem_toFinset.mp member
      obtain ⟨key, known⟩ := refines.known listed
      refine ⟨id, (refines.lookup_iff _ id).mpr ⟨listed, ?_⟩⟩
      rw [List.getD_eq_getElem?_getD, known]
      rfl
  have injective : Set.InjOn (fun id => abs.keys.getD id []) ids.toFinset := by
    intro a aMember b bMember same
    have aListed := List.mem_toFinset.mp aMember
    have bListed := List.mem_toFinset.mp bMember
    obtain ⟨aKey, aKnown⟩ := refines.known aListed
    obtain ⟨bKey, bKnown⟩ := refines.known bListed
    simp only [List.getD_eq_getElem?_getD, aKnown, bKnown, Option.getD_some] at same
    subst same
    have aFound := (refines.lookup_iff aKey a).mpr ⟨aListed, aKnown⟩
    have bFound := (refines.lookup_iff aKey b).mpr ⟨bListed, bKnown⟩
    exact Option.some.inj (aFound.symm.trans bFound)
  rw [image, Finset.card_image_of_injOn injective, List.toFinset_card_of_nodup
    refines.table.distinct]

/-! ### The calls -/

/-- To create an entry does not touch the table. -/
theorem create (key : Bytes) (value : Value) (charge : Nat) (deleter : Deleter) :
    ∃ next, client.step hashOf (.create key value charge deleter) = some next ∧
      next.Refines hashOf (abs.step (.create key value charge deleter)) ids := by
  have older : ∀ id ∈ ids, id ≠ client.cache.fresh := fun id listed =>
    (refines.table.alive id listed).1.ne
  refine ⟨_, rfl, ?_, refines.sized, refines.small, ?_, ?_, ?_, ?_, refines.results⟩
  · apply refines.table.congr
    · rfl
    · exact fun id listed => Function.update_of_ne (older id listed) _ _
    · exact Nat.le_succ _
    · intro id listed
      obtain ⟨handle, stored⟩ := Option.isSome_iff_exists.mp (refines.table.alive id listed).2
      refine ⟨handle, handle, stored, ?_, rfl, rfl⟩
      exact (Function.update_of_ne (older id listed) _ _).trans stored
  · intro other id
    rw [show (abs.step (.create key value charge deleter)).map = abs.map from rfl,
      refines.lookup_iff]
    apply and_congr_right
    intro listed
    have inside := (refines.table.alive id listed).1
    rw [refines.fresh] at inside
    rw [show (abs.step (.create key value charge deleter)).keys = abs.keys ++ [key] from rfl,
      List.getElem?_append_left inside]
  · intro id
    show Option.map _ (Function.update client.cache.heap client.cache.fresh _ id) =
      Option.map _ (abs.keys ++ [key])[id]?
    rw [refines.fresh]
    rcases Nat.lt_trichotomy id abs.keys.length with before | rfl | beyond
    · rw [Function.update_of_ne before.ne, List.getElem?_append_left before]
      exact refines.created id
    · rw [Function.update_self, List.getElem?_concat_length]
      rfl
    · rw [Function.update_of_ne beyond.ne', List.getElem?_eq_none (by simp; omega),
        refines.created id, List.getElem?_eq_none beyond.le]
  · show client.cache.fresh + 1 = (abs.keys ++ [key]).length
    rw [refines.fresh, List.length_append]
    rfl
  · intro id
    show Function.update client.cache.next (.entry client.cache.fresh) none (.entry id) = none
    by_cases same : HandlePtr.entry id = .entry client.cache.fresh
    · rw [same, Function.update_self]
    · rw [Function.update_of_ne same]
      exact refines.unlinked id

/-- `Lookup` finds what the map has under the key. -/
theorem lookup (key : Bytes) :
    ∃ next, client.step hashOf (.lookup key) = some next ∧
      next.Refines hashOf (abs.step (.lookup key : TableCall Value Deleter)) ids := by
  obtain ⟨result, found, isResult⟩ :=
    refines.table.lookup refines.noSelf key (hashOf key).toNat
  refine ⟨⟨client.cache, client.results ++ [result]⟩, ?_, refines.table, refines.sized,
    refines.small, refines.lookup_iff, refines.created, refines.fresh, refines.unlinked, ?_⟩
  · simp [step, found]
  · rw [refines.lookup_eq isResult, refines.results]
    rfl

/-- `Remove` takes the key out of the map. -/
theorem remove (key : Bytes) :
    ∃ next left, client.step hashOf (.remove key) = some next ∧
      next.Refines hashOf (abs.step (.remove key : TableCall Value Deleter)) left := by
  have small := refines.small
  obtain ⟨nextHash, handleTable, result, removed, isResult, length, table⟩ :=
    refines.table.remove refines.noSelf (by omega) key (hashOf key).toNat
  have fewer : (LRUCache.without ids result).length ≤ ids.length := by
    cases result with
    | none => exact Nat.le_refl _
    | some id => exact List.length_erase_le
  have found := refines.lookup_eq isResult
  refine ⟨⟨{ client.cache with nextHash, table := handleTable }, client.results ++ [result]⟩,
    LRUCache.without ids result, ?_, table, ⟨length ▸ refines.sized.power, ?_⟩,
    fewer.trans small, ?_, refines.created, refines.fresh, refines.unlinked, ?_⟩
  · simp [step, removed]
  · have elems : handleTable.elems = (LRUCache.without ids result).length := table.elems
    have bound := refines.sized.elems_le
    rw [refines.table.elems] at bound
    exact elems.trans_le (fewer.trans (length ▸ bound))
  · intro other id
    rw [LRUCache.mem_without refines.table.distinct]
    show (abs.map.erase key).lookup other = some id ↔ _
    by_cases same : other = key
    · subst same
      rw [Finmap.lookup_erase, found]
      simp only [reduceCtorEq, false_iff]
      rintro ⟨⟨listed, notFound⟩, known⟩
      exact notFound ((refines.lookup_iff other id).mpr ⟨listed, known⟩)
    · rw [Finmap.lookup_erase_ne same, refines.lookup_iff, found]
      constructor
      · rintro ⟨listed, known⟩
        refine ⟨⟨listed, fun isKey => same ?_⟩, known⟩
        have known' := ((refines.lookup_iff key id).mp isKey).2
        exact Option.some.inj (known.symm.trans known')
      · rintro ⟨⟨listed, -⟩, known⟩
        exact ⟨listed, known⟩
  · rw [found, refines.results]
    rfl

/-- The inserted handle takes the place of the one the map had for its key. -/
theorem lookup_insert_iff {key : Bytes} {id : Nat} {ids' : List Nat}
    (isKey : abs.keys[id]? = some key)
    (members : ∀ other, other ∈ ids' ↔
      other = id ∨ other ∈ ids ∧ abs.map.lookup key ≠ some other) (key' : Bytes) (other : Nat) :
    (abs.map.insert key id).lookup key' = some other ↔
      other ∈ ids' ∧ abs.keys[other]? = some key' := by
  rw [members]
  by_cases same : key' = key
  · subst same
    rw [Finmap.lookup_insert, Option.some.injEq]
    constructor
    · rintro rfl
      exact ⟨Or.inl rfl, isKey⟩
    · rintro ⟨isNew | ⟨listed, notFound⟩, known⟩
      · exact isNew.symm
      · exact absurd ((refines.lookup_iff key' other).mpr ⟨listed, known⟩) notFound
  · rw [Finmap.lookup_insert_of_ne _ same, refines.lookup_iff]
    constructor
    · rintro ⟨listed, known⟩
      refine ⟨Or.inr ⟨listed, fun found => same ?_⟩, known⟩
      have known' := ((refines.lookup_iff key other).mp found).2
      exact Option.some.inj (known.symm.trans known')
    · rintro ⟨rfl | ⟨listed, -⟩, known⟩
      · exact absurd (Option.some.inj (known.symm.trans isKey)) same
      · exact ⟨listed, known⟩

/-- `Insert` puts the entry into the map in place of the one with its key. -/
theorem insert {id : Nat} (allowed : abs.Allowed (.insert id : TableCall Value Deleter)) :
    ∃ next ids', client.step hashOf (.insert id) = some next ∧
      next.Refines hashOf (abs.step (.insert id : TableCall Value Deleter)) ids' := by
  obtain ⟨inside, room⟩ := allowed
  have small := refines.small
  have isKey : abs.keys[id]? = some (abs.keys.getD id []) := by
    rw [List.getD_eq_getElem?_getD, List.getElem?_eq_getElem inside, Option.getD_some]
  -- from here on the key is any key that the handle was created with
  show ∃ next ids', client.step hashOf (.insert id) = some next ∧
    next.Refines hashOf
      { abs with
        map := abs.map.insert (abs.keys.getD id []) id
        results := abs.results ++ [abs.map.lookup (abs.keys.getD id [])] } ids'
  generalize abs.keys.getD id [] = key at isKey room
  have matching := refines.matches_iff.mpr isKey
  obtain ⟨handle, stored, hash, rfl⟩ := matching
  by_cases listed : id ∈ ids
  · have found := (refines.lookup_iff handle.key id).mpr ⟨listed, isKey⟩
    have inserted := refines.table.insert_listed refines.noSelf stored listed
    refine ⟨⟨client.cache, client.results ++ [some id]⟩, ids, ?_, refines.table, refines.sized,
      small, refines.lookup_insert_iff isKey ?_, refines.created, refines.fresh,
      refines.unlinked, ?_⟩
    · simp [step, inserted]
    · intro other
      rw [found, Ne, Option.some.injEq]
      constructor
      · intro member
        by_cases same : other = id
        · exact Or.inl same
        · exact Or.inr ⟨member, fun same' => same same'.symm⟩
      · rintro (rfl | ⟨member, -⟩)
        · exact listed
        · exact member
    · rw [found, refines.results]
  · have allocated : id < client.cache.fresh := by
      rw [refines.fresh]
      exact (List.getElem?_eq_some_iff.mp isKey).1
    have tableRoom : ids.length < 2 ^ 31 ∨ ids.length = 2 ^ 31 ∧
        ∃ other ∈ ids, client.cache.Matches handle.key handle.hash other := by
      rcases Nat.lt_or_eq_of_le small with less | full
      · exact Or.inl less
      · rcases room with present | few
        · obtain ⟨other, found⟩ := Finmap.mem_iff.mp present
          obtain ⟨member, known⟩ := (refines.lookup_iff _ other).mp found
          exact Or.inr ⟨full, other, member, hash ▸ refines.matches_iff.mpr known⟩
        · rw [refines.card_keys] at few
          exact Or.inl few
    obtain ⟨nextHash, handleTable, old, inserted, isOld, table⟩ :=
      refines.table.insert refines.noSelf stored listed allocated tableRoom
    rw [hash] at isOld
    have found := refines.lookup_eq isOld
    have count : (id :: LRUCache.without ids old).length ≤ 2 ^ 31 := by
      cases old with
      | none =>
        rcases tableRoom with few | ⟨-, other, member, matching⟩
        · exact few
        · cases (isOld other).mpr ⟨member, hash ▸ matching⟩
      | some replaced =>
        have member := ((isOld replaced).mp rfl).1
        have nonempty := List.length_pos_of_mem member
        rw [List.length_cons, LRUCache.without, Option.elim_some,
          List.length_erase_of_mem member]
        omega
    refine ⟨⟨{ client.cache with nextHash, table := handleTable }, client.results ++ [old]⟩,
      id :: LRUCache.without ids old, ?_, table,
      LRUCache.sized_of_tableInsert refines.sized ?_ inserted, count,
      refines.lookup_insert_iff isKey ?_, refines.created, refines.fresh, refines.unlinked, ?_⟩
    · simp [step, inserted]
    · exact (show handleTable.elems = _ from table.elems).trans_le count
    · intro other
      rw [List.mem_cons, LRUCache.mem_without refines.table.distinct, found]
    · rw [found, refines.results]

end Refines

/-- A new table is an empty map. -/
theorem new_refines (Value Deleter : Type) (hashOf : Bytes → UInt32) :
    ∃ client, new Value Deleter = some client ∧ client.Refines hashOf TableMap.empty [] := by
  obtain ⟨cache, created⟩ : ∃ cache : LRUCache Value Deleter, LRUCache.new 0 = some cache :=
    ⟨_, rfl⟩
  refine ⟨⟨cache, []⟩, by simp [new, created], LRUCache.Table.new created,
    LRUCache.sized_of_resize ?_ created, Nat.zero_le _, ?_, ?_, ?_, ?_, rfl⟩
  · rw [(LRUCache.Table.new created).elems]
    exact Nat.zero_le _
  · simp [TableMap.empty]
  all_goals
    obtain rfl := Option.some.inj created
    intros
    rfl

/-- A call has a result and the map follows it. -/
theorem step_refines (refines : ∃ ids, client.Refines hashOf abs ids)
    (call : TableCall Value Deleter) (allowed : abs.Allowed call) :
    ∃ next, client.step hashOf call = some next ∧
      ∃ ids, next.Refines hashOf (abs.step call) ids := by
  obtain ⟨ids, refines⟩ := refines
  cases call with
  | create key value charge deleter =>
    obtain ⟨next, stepped, after⟩ := refines.create key value charge deleter
    exact ⟨next, stepped, ids, after⟩
  | insert id =>
    obtain ⟨next, ids', stepped, after⟩ := refines.insert allowed
    exact ⟨next, stepped, ids', after⟩
  | remove key =>
    obtain ⟨next, left, stepped, after⟩ := refines.remove key
    exact ⟨next, stepped, left, after⟩
  | lookup key =>
    obtain ⟨next, stepped, after⟩ := refines.lookup key
    exact ⟨next, stepped, ids, after⟩

/-- Every call of a run has the result that it has on the finite map, however the hashes
collide. The table then holds each handle of the map once, in the bucket of its hash, and
counts them; its length is a power of two and not smaller. -/
theorem handle_table_refines_finite_map (hashOf : Bytes → UInt32)
    {calls : List (TableCall Value Deleter)}
    (allowed : Machine.Meets (fun abs call => some (TableMap.step abs call)) TableMap.Allowed
      TableMap.empty calls) :
    ∃ client, run hashOf calls = some client ∧
      client.results = (calls.foldl TableMap.step TableMap.empty).results ∧
      (∃ ids, client.cache.Table ids ∧ ∀ key id,
        (calls.foldl TableMap.step TableMap.empty).map.lookup key = some id ↔
          id ∈ ids ∧ client.cache.Matches key (hashOf key).toNat id) ∧
      (∃ k, client.cache.table.length = 2 ^ k) ∧
      client.cache.table.elems ≤ client.cache.table.length ∧
      client.cache.table.elems =
        (calls.foldl TableMap.step TableMap.empty).map.keys.card := by
  obtain ⟨start, created, initial⟩ := new_refines Value Deleter hashOf
  obtain ⟨client, ran, ids, refines⟩ := Machine.run_implements
    (fun (client : TableClient Value Deleter) abs => ∃ ids, client.Refines hashOf abs ids)
    (fun _ _ call refines allowed => step_refines refines call allowed) ⟨[], initial⟩ allowed
  refine ⟨client, ?_, refines.results, ⟨ids, refines.table, fun key id => ?_⟩,
    refines.sized.power, refines.sized.elems_le, ?_⟩
  · simp [run, created, ran]
  · rw [refines.lookup_iff, refines.matches_iff]
  · rw [refines.table.elems, refines.card_keys]

/-- Six handles in one bucket: the fifth makes the table grow, the last replaces the first. -/
theorem handle_table_refines_finite_map_collide :
    ∃ client, @run Unit Unit (fun _ => 3)
      [.create [1] () 0 (), .create [2] () 0 (), .create [3] () 0 (), .create [4] () 0 (),
        .create [5] () 0 (), .create [1] () 0 (), .insert 0, .insert 1, .insert 2, .insert 3,
        .insert 4, .insert 5, .remove [3], .lookup [1], .lookup [3]] = some client ∧
      client.results = [none, none, none, none, none, some 0, some 2, some 5, none] ∧
      client.cache.table.elems = 4 := by
  obtain ⟨client, ran, results, -, -, -, elems⟩ :=
    @handle_table_refines_finite_map Unit Unit (fun _ => 3)
      [.create [1] () 0 (), .create [2] () 0 (), .create [3] () 0 (), .create [4] () 0 (),
        .create [5] () 0 (), .create [1] () 0 (), .insert 0, .insert 1, .insert 2, .insert 3,
        .insert 4, .insert 5, .remove [3], .lookup [1], .lookup [3]] (by decide)
  exact ⟨client, ran, results, elems⟩

end TableClient

end LevelDbXy
