import LevelDbXy.Cache.Lists
import LevelDbXy.Library.LinkChain

/-!
# The hash table of a cache

`Table cache ids` says that the chains of the buckets hold exactly these entries, each in
the bucket of its hash, and no two with the same key and hash. `FindPointer` ends at the
slot that leads to the entry with a given key and hash, or at the end of the chain where it
would be; `Insert`, `Remove` and `Resize` are stated for the whole table.
-/

namespace LevelDbXy.LRUCache

variable {Value Deleter : Type} {cache cache' : LRUCache Value Deleter}

/-- The slot behind a slot, for following a chain. -/
def slotNext (cache : LRUCache Value Deleter) (slot : Slot) : Option (Option Slot) :=
  (cache.readSlot slot).map (Option.map Slot.nextHash)

/-- The entry has this key and hash. -/
def Matches (cache : LRUCache Value Deleter) (key : Bytes) (hash : Nat) (id : Nat) : Prop :=
  ∃ handle, cache.heap id = some handle ∧ handle.hash = hash ∧ handle.key = key

instance (cache : LRUCache Value Deleter) (key : Bytes) (hash id : Nat) :
    Decidable (cache.Matches key hash id) :=
  decidable_of_iff
    ((cache.heap id).any (fun handle => decide (handle.hash = hash ∧ handle.key = key)) = true)
    (by simp [Matches, Option.any_eq_true])

/-- The entry is in this bucket of a table of the given length. -/
def InBucket (cache : LRUCache Value Deleter) (length index id : Nat) : Prop :=
  ∃ handle, cache.heap id = some handle ∧ handle.hash &&& (length - 1) = index

/-- The entries of one bucket. -/
structure Bucket (cache : LRUCache Value Deleter) (ids : List Nat) (index : Nat)
    (chain : List Nat) : Prop where
  links : LinkChain cache.slotNext (.bucket index) (chain.map .nextHash)
  distinct : chain.Nodup
  holds : ∀ id, id ∈ chain ↔ id ∈ ids ∧ cache.InBucket cache.table.length index id

/-- The entries of the table. -/
structure Table (cache : LRUCache Value Deleter) (ids : List Nat) : Prop where
  length : cache.table.list.length = cache.table.length
  positive : 0 < cache.table.length
  buckets : ∀ index < cache.table.length, ∃ chain, cache.Bucket ids index chain
  distinct : ids.Nodup
  alive : ∀ id ∈ ids, id < cache.fresh ∧ (cache.heap id).isSome
  unique : ∀ a ∈ ids, ∀ b ∈ ids, ∀ key hash, cache.Matches key hash a → cache.Matches key hash b →
    a = b
  elems : cache.table.elems = ids.length

/-- The order in which the entries are listed does not matter. -/
theorem Table.perm {ids ids' : List Nat} (table : cache.Table ids) (same : ids.Perm ids') :
    cache.Table ids' := by
  refine ⟨table.length, table.positive, fun index inside => ?_, same.nodup_iff.mp table.distinct,
    fun id member => table.alive id (same.mem_iff.mpr member),
    fun a aMember b bMember =>
      table.unique a (same.mem_iff.mpr aMember) b (same.mem_iff.mpr bMember),
    table.elems.trans same.length_eq⟩
  obtain ⟨chain, bucket⟩ := table.buckets index inside
  refine ⟨chain, bucket.links, bucket.distinct, fun id => ?_⟩
  rw [bucket.holds, same.mem_iff]

/-- The table reads nothing of an entry but its key, its hash and `next_hash`. -/
theorem Table.congr {ids : List Nat} (table : cache.Table ids)
    (sameTable : cache'.table = cache.table)
    (sameNext : ∀ id ∈ ids, cache'.nextHash id = cache.nextHash id)
    (fresh : cache.fresh ≤ cache'.fresh)
    (sameKey : ∀ id ∈ ids, ∃ handle handle', cache.heap id = some handle ∧
      cache'.heap id = some handle' ∧ handle'.key = handle.key ∧ handle'.hash = handle.hash) :
    cache'.Table ids := by
  have inBucket : ∀ length index, ∀ id ∈ ids,
      (cache'.InBucket length index id ↔ cache.InBucket length index id) := by
    intro length index id member
    obtain ⟨handle, handle', stored, stored', -, sameHash⟩ := sameKey id member
    simp [InBucket, stored, stored', sameHash]
  have matching : ∀ key hash, ∀ id ∈ ids,
      (cache'.Matches key hash id ↔ cache.Matches key hash id) := by
    intro key hash id member
    obtain ⟨handle, handle', stored, stored', sameKey, sameHash⟩ := sameKey id member
    simp [Matches, stored, stored', sameHash, sameKey]
  refine ⟨by rw [sameTable, table.length], by rw [sameTable]; exact table.positive,
    fun index inside => ?_, table.distinct, fun id member => ?_,
    fun a aMember b bMember key hash => ?_, by rw [sameTable, table.elems]⟩
  · rw [sameTable] at inside
    obtain ⟨chain, bucket⟩ := table.buckets index inside
    refine ⟨chain, bucket.links.congr fun slot member => ?_, bucket.distinct, fun id => ?_⟩
    · rcases List.mem_cons.mp member with rfl | inChain
      · simp only [slotNext, readSlot, sameTable]
      · obtain ⟨id, listed, rfl⟩ := List.mem_map.mp inChain
        have known := ((bucket.holds id).mp listed).1
        obtain ⟨handle, handle', stored, stored', -⟩ := sameKey id known
        simp [slotNext, readSlot, stored, stored', sameNext id known]
    · rw [bucket.holds, sameTable]
      exact and_congr_right fun member => (inBucket _ _ id member).symm
  · obtain ⟨handle, handle', -, stored', -⟩ := sameKey id member
    exact ⟨(table.alive id member).1.trans_le fresh, Option.isSome_of_eq_some stored'⟩
  · rw [matching key hash a aMember, matching key hash b bMember]
    exact table.unique a aMember b bMember key hash

/-! ### Finding a slot -/

/-- The entry is allocated and does not match, so the search goes on behind it. -/
def skips (cache : LRUCache Value Deleter) (key : Bytes) (hash : Nat) (id : Nat) : Bool :=
  match cache.heap id with
  | none => true
  | some handle => !(decide (handle.hash = hash) && Slice.equal key handle.key)

/-- A search of a chain stops at the entry with the key and the hash. -/
theorem skips_eq_false_iff {key : Bytes} {hash id : Nat} :
    cache.skips key hash id = false ↔ cache.Matches key hash id := by
  unfold skips Matches
  cases cache.heap id with
  | none => simp
  | some handle =>
    simp only [Bool.not_eq_false', Bool.and_eq_true, decide_eq_true_eq, Slice.equal_iff,
      Option.some.injEq, exists_eq_left']
    exact and_congr_right fun _ => eq_comm

/-- At the end of a chain there is no entry. -/
theorem readSlot_of_slotNext_none {slot : Slot} (last : cache.slotNext slot = some none) :
    cache.readSlot slot = some none := by
  obtain ⟨target, read, isNone⟩ := Option.map_eq_some_iff.mp last
  rwa [Option.map_eq_none_iff.mp isNone] at read

/-- A link to an entry is read as that entry. -/
theorem readSlot_of_slotNext_some {slot : Slot} {id : Nat}
    (link : cache.slotNext slot = some (some (.nextHash id))) :
    cache.readSlot slot = some (some id) := by
  obtain ⟨target, read, isSome⟩ := Option.map_eq_some_iff.mp link
  obtain ⟨other, rfl, same⟩ := Option.map_eq_some_iff.mp isSome
  rwa [Slot.nextHash.inj same] at read

/-- One step of the search along a chain. -/
theorem findPointerLoop_cons {key : Bytes} {hash id fuel : Nat} {slot : Slot}
    {handle : LRUHandle Value Deleter}
    (noSelf : ∀ id, cache.next (.entry id) ≠ some (.entry id))
    (read : cache.readSlot slot = some (some id)) (stored : cache.heap id = some handle) :
    cache.findPointerLoop key hash (fuel + 1) slot =
      if cache.skips key hash id then cache.findPointerLoop key hash fuel (.nextHash id)
      else some slot := by
  by_cases sameHash : handle.hash = hash
  · cases sameKey : Slice.equal key handle.key <;>
      simp [findPointerLoop, read, stored, keyOf_eq noSelf stored, skips, sameHash, sameKey]
  · simp [findPointerLoop, read, stored, skips, sameHash]

/-- The search passes the entries that do not match. -/
theorem findPointerLoop_spec (key : Bytes) (hash : Nat) (chain : List Nat) {slot : Slot}
    {fuel : Nat} (noSelf : ∀ id, cache.next (.entry id) ≠ some (.entry id))
    (links : LinkChain cache.slotNext slot (chain.map .nextHash))
    (alive : ∀ id ∈ chain, (cache.heap id).isSome) (budget : chain.length < fuel) :
    cache.findPointerLoop key hash fuel slot =
        some (((chain.takeWhile (cache.skips key hash)).map Slot.nextHash).getLastD slot) ∧
      cache.readSlot (((chain.takeWhile (cache.skips key hash)).map Slot.nextHash).getLastD slot) =
        some (chain.dropWhile (cache.skips key hash)).head? := by
  induction chain generalizing slot fuel with
  | nil =>
    obtain ⟨fuel, rfl⟩ : ∃ spare, fuel = spare + 1 := ⟨fuel - 1, by simp at budget; omega⟩
    have read := readSlot_of_slotNext_none links
    exact ⟨by simp [findPointerLoop, read], by simpa using read⟩
  | cons id chain inductionHypothesis =>
    obtain ⟨fuel, rfl⟩ : ∃ spare, fuel = spare + 1 := ⟨fuel - 1, by simp at budget; omega⟩
    have read := readSlot_of_slotNext_some links.1
    obtain ⟨handle, stored⟩ := Option.isSome_iff_exists.mp (alive id (by simp))
    rw [findPointerLoop_cons noSelf read stored]
    cases skip : cache.skips key hash id with
    | false =>
      rw [List.takeWhile_cons_of_neg (by simp [skip]), List.dropWhile_cons_of_neg (by simp [skip])]
      exact ⟨by simp, by simpa using read⟩
    | true =>
      rw [List.takeWhile_cons_of_pos skip, List.dropWhile_cons_of_pos skip, List.map_cons,
        List.getLastD_cons, if_pos rfl]
      exact inductionHypothesis links.2 (fun other member => alive other (by simp [member]))
        (by simpa using budget)

/-- A chain has no more entries than were allocated. -/
theorem Bucket.length_le {ids chain : List Nat} {index : Nat}
    (bucket : cache.Bucket ids index chain)
    (alive : ∀ id ∈ ids, id < cache.fresh ∧ (cache.heap id).isSome) :
    chain.length ≤ cache.fresh := by
  have subset : chain.Subperm (List.range cache.fresh) :=
    List.subperm_of_subset bucket.distinct fun id member =>
      List.mem_range.mpr (alive id ((bucket.holds id).mp member).1).1
  exact subset.length_le.trans_eq List.length_range

/-- Where the search for a key and hash ends. -/
structure Found (cache : LRUCache Value Deleter) (ids : List Nat) (key : Bytes) (hash : Nat)
    (index : Nat) (before after : List Nat) : Prop where
  bucket : cache.Bucket ids index (before ++ after)
  index_eq : index = hash &&& (cache.table.length - 1)
  inside : index < cache.table.length
  pointer : cache.findPointer key hash =
    some ((before.map Slot.nextHash).getLastD (.bucket index))
  target : cache.readSlot ((before.map Slot.nextHash).getLastD (.bucket index)) = some after.head?
  first : ∀ id, after.head? = some id ↔ id ∈ ids ∧ cache.Matches key hash id

/-- A masked hash is an index of the table. -/
theorem and_pred_lt (hash : Nat) {length : Nat} (positive : 0 < length) :
    hash &&& (length - 1) < length :=
  Nat.lt_of_le_of_lt Nat.and_le_right (by omega)

/-- The search for a key and hash ends in front of the entry that has them, if the table
holds one. -/
theorem Table.exists_found {ids : List Nat} (table : cache.Table ids)
    (noSelf : ∀ id, cache.next (.entry id) ≠ some (.entry id)) (key : Bytes) (hash : Nat) :
    ∃ index before after, cache.Found ids key hash index before after := by
  have inside := and_pred_lt hash table.positive
  obtain ⟨chain, bucket⟩ := table.buckets _ inside
  have inTable : ∀ id ∈ chain, id ∈ ids := fun id member => ((bucket.holds id).mp member).1
  have alive : ∀ id ∈ chain, (cache.heap id).isSome := fun id member =>
    (table.alive id (inTable id member)).2
  have budget : chain.length < cache.fresh + 1 := Nat.lt_succ_of_le (bucket.length_le table.alive)
  obtain ⟨pointer, target⟩ := findPointerLoop_spec key hash chain noSelf bucket.links alive budget
  refine ⟨_, chain.takeWhile (cache.skips key hash), chain.dropWhile (cache.skips key hash), ?_,
    rfl, inside, pointer, target, fun id => ?_⟩
  · rwa [List.takeWhile_append_dropWhile]
  · constructor
    · intro found
      have member := List.mem_of_mem_head? found
      have matching := List.head?_dropWhile_not (cache.skips key hash) chain
      rw [found] at matching
      exact ⟨inTable id (List.dropWhile_subset _ member), skips_eq_false_iff.mp matching⟩
    · rintro ⟨member, matching⟩
      have home : cache.InBucket cache.table.length (hash &&& (cache.table.length - 1)) id := by
        obtain ⟨handle, stored, sameHash, -⟩ := matching
        exact ⟨handle, stored, by rw [sameHash]⟩
      have inChain : id ∈ chain := (bucket.holds id).mpr ⟨member, home⟩
      cases first : (chain.dropWhile (cache.skips key hash)).head? with
      | none =>
        have skipped := List.dropWhile_eq_nil_iff.mp (List.head?_eq_none_iff.mp first) id inChain
        rw [skips_eq_false_iff.mpr matching] at skipped
        cases skipped
      | some other =>
        have otherMatches := List.head?_dropWhile_not (cache.skips key hash) chain
        rw [first] at otherMatches
        have otherMember := inTable other (List.dropWhile_subset _ (List.mem_of_mem_head? first))
        rw [table.unique other otherMember id member key hash
          (skips_eq_false_iff.mp otherMatches) matching]

/-- `Lookup` returns the entry with the key and hash, if the table holds one. -/
theorem Table.lookup {ids : List Nat} (table : cache.Table ids)
    (noSelf : ∀ id, cache.next (.entry id) ≠ some (.entry id)) (key : Bytes) (hash : Nat) :
    ∃ result, cache.tableLookup key hash = some result ∧
      ∀ id, result = some id ↔ id ∈ ids ∧ cache.Matches key hash id := by
  obtain ⟨index, before, after, found⟩ := table.exists_found noSelf key hash
  exact ⟨after.head?, by simp only [tableLookup, found.pointer]; exact found.target, found.first⟩

/-! ### Changing a bucket -/

/-- A store into a slot that can be read changes that slot only. -/
theorem slotNext_writeSlot {slot : Slot} (readable : (cache.readSlot slot).isSome)
    (target : Option Nat) :
    (cache.writeSlot slot target).slotNext =
      Function.update cache.slotNext slot (some (target.map Slot.nextHash)) := by
  funext other
  cases slot with
  | bucket index =>
    have bound : index < cache.table.list.length := by
      simpa [readSlot] using readable
    cases other with
    | bucket index' =>
      by_cases same : index' = index
      · subst same
        simp [slotNext, readSlot, writeSlot, bound]
      · simp [slotNext, readSlot, writeSlot, same, Ne.symm same]
    | nextHash id =>
      rw [Function.update_of_ne (by simp)]
      rfl
  | nextHash id =>
    have alive : (cache.heap id).isSome := by
      by_contra freed
      simp [readSlot, freed] at readable
    cases other with
    | bucket index' => simp [slotNext, readSlot, writeSlot]
    | nextHash id' =>
      by_cases same : id' = id
      · subst same
        simp [slotNext, readSlot, writeSlot, alive]
      · simp [slotNext, readSlot, writeSlot, same]

@[simp] theorem heap_writeSlot (cache : LRUCache Value Deleter) (slot : Slot)
    (target : Option Nat) : (cache.writeSlot slot target).heap = cache.heap := by
  cases slot <;> rfl

@[simp] theorem length_writeSlot (cache : LRUCache Value Deleter) (slot : Slot)
    (target : Option Nat) : (cache.writeSlot slot target).table.length = cache.table.length := by
  cases slot <;> rfl

@[simp] theorem elems_writeSlot (cache : LRUCache Value Deleter) (slot : Slot)
    (target : Option Nat) : (cache.writeSlot slot target).table.elems = cache.table.elems := by
  cases slot <;> rfl

@[simp] theorem length_list_writeSlot (cache : LRUCache Value Deleter) (slot : Slot)
    (target : Option Nat) :
    (cache.writeSlot slot target).table.list.length = cache.table.list.length := by
  cases slot <;> simp [writeSlot]

/-- A store into a slot changes the table and `next_hash` of the entries only. -/
theorem writeSlot_eq (cache : LRUCache Value Deleter) (slot : Slot) (target : Option Nat) :
    cache.writeSlot slot target = { cache with
      nextHash := (cache.writeSlot slot target).nextHash
      table := (cache.writeSlot slot target).table } := by
  cases slot <;> rfl

/-- An entry belongs to one bucket. -/
theorem InBucket.functional {length i j id : Nat} (first : cache.InBucket length i id)
    (second : cache.InBucket length j id) : i = j := by
  obtain ⟨handle, stored, rfl⟩ := first
  obtain ⟨other, storedOther, rfl⟩ := second
  rw [Option.some.inj (stored.symm.trans storedOther)]

/-- The slots of different buckets are different. -/
theorem Bucket.slot_ne {ids chain chain' : List Nat} {i j : Nat} (bucket : cache.Bucket ids i chain)
    (other : cache.Bucket ids j chain') (different : j ≠ i) {slot slot' : Slot}
    (member : slot ∈ Slot.bucket i :: chain.map Slot.nextHash)
    (memberOther : slot' ∈ Slot.bucket j :: chain'.map Slot.nextHash) : slot' ≠ slot := by
  rintro rfl
  cases slot' with
  | bucket index =>
    simp only [List.mem_cons, Slot.bucket.injEq, List.mem_map, reduceCtorEq, and_false,
      exists_false, or_false] at member memberOther
    exact different (memberOther.symm.trans member)
  | nextHash id =>
    simp only [List.mem_cons, reduceCtorEq, List.mem_map, Slot.nextHash.injEq, exists_eq_right,
      false_or] at member memberOther
    exact different (((other.holds id).mp memberOther).2.functional
      ((bucket.holds id).mp member).2)

/-- When one bucket changes, the others keep their chains. -/
theorem buckets_of_change {ids ids' chain' : List Nat}
    {index : Nat} (buckets : ∀ j < cache.table.length, ∃ chain, cache.Bucket ids j chain)
    (heap : cache'.heap = cache.heap) (length : cache'.table.length = cache.table.length)
    (changed : cache'.Bucket ids' index chain')
    (others : ∀ j chain, j ≠ index → cache.Bucket ids j chain →
      ∀ slot ∈ Slot.bucket j :: chain.map Slot.nextHash,
        cache'.slotNext slot = cache.slotNext slot)
    (same : ∀ id, ¬ cache.InBucket cache.table.length index id → (id ∈ ids' ↔ id ∈ ids)) :
    ∀ j < cache'.table.length, ∃ chain, cache'.Bucket ids' j chain := by
  intro j inside
  by_cases isIndex : j = index
  · exact ⟨chain', isIndex ▸ changed⟩
  · obtain ⟨chain, bucket⟩ := buckets j (length ▸ inside)
    refine ⟨chain, bucket.links.congr (others j chain isIndex bucket), bucket.distinct,
      fun id => ?_⟩
    have sameBucket : cache'.InBucket cache'.table.length j id ↔
        cache.InBucket cache.table.length j id := by
      simp only [InBucket, heap, length]
    rw [bucket.holds id, sameBucket]
    refine and_congr_left fun home => (same id fun other => ?_).symm
    exact isIndex (home.functional other)

/-- The slot behind the first part of a chain is one of its slots. -/
theorem last_slot_mem (index : Nat) (before after : List Nat) :
    (before.map Slot.nextHash).getLastD (.bucket index) ∈
      Slot.bucket index :: (before ++ after).map Slot.nextHash := by
  rcases List.mem_cons.mp
    (@List.getLastD_mem_cons _ (before.map Slot.nextHash) (.bucket index)) with atHead | inside
  · rw [atHead]
    exact List.mem_cons_self ..
  · rw [List.map_append]
    exact List.mem_cons_of_mem _ (List.mem_append_left _ inside)

/-- The slots of a chain are distinct. -/
theorem Bucket.slots_distinct {ids chain : List Nat} {index : Nat}
    (bucket : cache.Bucket ids index chain) :
    (Slot.bucket index :: chain.map Slot.nextHash).Nodup := by
  refine List.nodup_cons.mpr ⟨by simp, bucket.distinct.map ?_⟩
  intro a b same
  exact Slot.nextHash.inj same

/-- The chains read the buckets, `next_hash` and whether an entry is allocated. -/
theorem slotNext_congr (heap : cache'.heap = cache.heap)
    (list : cache'.table.list = cache.table.list) (nextHash : cache'.nextHash = cache.nextHash) :
    cache'.slotNext = cache.slotNext := by
  funext slot
  cases slot <;> simp only [slotNext, readSlot, heap, list, nextHash]

/-- A bucket depends only on the heap, the length of the table and the links. -/
theorem Bucket.congr {ids chain : List Nat} {index : Nat}
    (bucket : cache.Bucket ids index chain) (heap : cache'.heap = cache.heap)
    (length : cache'.table.length = cache.table.length) (next : cache'.slotNext = cache.slotNext) :
    cache'.Bucket ids index chain := by
  refine ⟨next ▸ bucket.links, bucket.distinct, fun id => ?_⟩
  simp only [InBucket, heap, length]
  exact bucket.holds id

/-- `next_hash` of an entry in a chain leads to the next one. -/
theorem nextHash_of_links {chain : List Nat} {id : Nat}
    (links : LinkChain cache.slotNext (.nextHash id) (chain.map .nextHash)) :
    cache.nextHash id = chain.head? := by
  have read := @LinkChain.next_getLastD _ _ (Slot.nextHash id) [] _ links
  simp only [List.getLastD_nil, slotNext, readSlot, List.head?_map] at read
  obtain ⟨target, present, same⟩ := Option.map_eq_some_iff.mp read
  split_ifs at present with alive
  rw [Option.some.inj present]
  exact Option.map_injective (fun a b => Slot.nextHash.inj) same

/-- The list without an entry that may have been removed. -/
def without (ids : List Nat) (removed : Option Nat) : List Nat := removed.elim ids ids.erase

/-- All entries but the removed one are left. -/
theorem mem_without {ids : List Nat} (distinct : ids.Nodup) {removed : Option Nat} {id : Nat} :
    id ∈ without ids removed ↔ id ∈ ids ∧ removed ≠ some id := by
  cases removed with
  | none => simp [without]
  | some old => simp [without, distinct.mem_erase_iff, and_comm, eq_comm]

/-- What is left is still without duplicates. -/
theorem nodup_without {ids : List Nat} (distinct : ids.Nodup) (removed : Option Nat) :
    (without ids removed).Nodup := by
  cases removed with
  | none => exact distinct
  | some old => exact distinct.erase old

/-- A link past the entry that was found takes it out of the table. -/
theorem Table.unlink {ids before rest : List Nat} {key : Bytes}
    {hash index id : Nat} (table : cache.Table ids)
    (found : cache.Found ids key hash index before (id :: rest)) (heap : cache'.heap = cache.heap)
    (fresh : cache'.fresh = cache.fresh) (length : cache'.table.length = cache.table.length)
    (listLength : cache'.table.list.length = cache.table.list.length)
    (next : cache'.slotNext = Function.update cache.slotNext
      ((before.map Slot.nextHash).getLastD (.bucket index)) (some (rest.map Slot.nextHash).head?))
    (elems : cache'.table.elems + 1 = ids.length) : cache'.Table (ids.erase id) := by
  have distinct := found.bucket.slots_distinct
  have links := found.bucket.links
  have chainDistinct := found.bucket.distinct
  rw [List.map_append, List.map_cons] at links distinct
  have slotMember := last_slot_mem index before (id :: rest)
  have member := (found.first id).mp rfl
  have home := ((found.bucket.holds id).mp (by simp)).2
  obtain ⟨front, back, different⟩ := List.nodup_append.mp
    (show (Slot.bucket index :: before.map Slot.nextHash ++
      Slot.nextHash id :: rest.map Slot.nextHash).Nodup from distinct)
  have relinked : LinkChain cache'.slotNext (.bucket index) ((before ++ rest).map .nextHash) := by
    rw [List.map_append, next]
    refine links.relink front (fun y _ notSlot => Function.update_of_ne notSlot _ _)
      (Function.update_self ..) fun y ys shape => ?_
    have tail := links.tail
    rw [shape] at tail
    refine tail.2.congr fun z member => Function.update_of_ne ?_ _ _
    rintro rfl
    exact different _ List.getLastD_mem_cons _ (List.mem_cons_of_mem _ (shape ▸ member)) rfl
  have bucket : cache'.Bucket (ids.erase id) index (before ++ rest) := by
    refine ⟨relinked, ?_, fun other => ?_⟩
    · rw [← erase_middle chainDistinct]
      exact chainDistinct.erase id
    · rw [← erase_middle chainDistinct, chainDistinct.mem_erase_iff, found.bucket.holds,
        table.distinct.mem_erase_iff, ← and_assoc]
      simp only [InBucket, heap, length]
  refine ⟨by rw [listLength, length, table.length], by rw [length]; exact table.positive, ?_,
    table.distinct.erase id, ?_, ?_, ?_⟩
  · refine buckets_of_change table.buckets heap length bucket ?_ ?_
    · intro j chain notIndex other slot inside
      rw [next]
      exact Function.update_of_ne (found.bucket.slot_ne other notIndex slotMember inside) _ _
    · intro other elsewhere
      refine List.mem_erase_of_ne ?_
      rintro rfl
      exact elsewhere home
  · intro other inside
    rw [heap, fresh]
    exact table.alive other (List.mem_of_mem_erase inside)
  · intro a aMember b bMember
    simp only [Matches, heap]
    exact table.unique a (List.mem_of_mem_erase aMember) b (List.mem_of_mem_erase bMember)
  · rw [List.length_erase_of_mem member.1]
    omega

/-- `Remove` takes the entry with the key and hash out of the table, if there is one; the
buckets stay as many. -/
theorem Table.remove {ids : List Nat} (table : cache.Table ids)
    (noSelf : ∀ id, cache.next (.entry id) ≠ some (.entry id)) (small : ids.length < 2 ^ 32)
    (key : Bytes) (hash : Nat) :
    ∃ nextHash handleTable result,
      cache.tableRemove key hash = some ({ cache with nextHash, table := handleTable }, result) ∧
      (∀ id, result = some id ↔ id ∈ ids ∧ cache.Matches key hash id) ∧
      handleTable.length = cache.table.length ∧
      Table { cache with nextHash, table := handleTable } (without ids result) := by
  obtain ⟨index, before, after, found⟩ := table.exists_found noSelf key hash
  have pointer := found.pointer
  have target := found.target
  cases after with
  | nil =>
    refine ⟨cache.nextHash, cache.table, none, ?_, found.first, rfl, table⟩
    simp only [tableRemove, pointer, Option.bind_eq_bind, Option.bind_some, target]
    rfl
  | cons id rest =>
    have links := found.bucket.links
    rw [List.map_append, List.map_cons] at links
    obtain ⟨slot, slotEq⟩ : ∃ slot, (before.map Slot.nextHash).getLastD (.bucket index) = slot :=
      ⟨_, rfl⟩
    rw [slotEq] at pointer target
    obtain ⟨written, writtenEq⟩ : ∃ written, written = cache.writeSlot slot (cache.nextHash id) :=
      ⟨_, rfl⟩
    obtain ⟨elems, elemsEq⟩ : ∃ elems, elems = (written.table.elems + 2 ^ 32 - 1) % 2 ^ 32 :=
      ⟨_, rfl⟩
    have heap : written.heap = cache.heap := by rw [writtenEq, heap_writeSlot]
    refine ⟨written.nextHash, { written.table with elems }, some id, ?_, found.first, ?_, ?_⟩
    · simp only [tableRemove, pointer, Option.bind_eq_bind, Option.bind_some, target,
        List.head?_cons, ← writtenEq, ← elemsEq]
      rw [writtenEq, writeSlot_eq]
    · simp only [writtenEq, length_writeSlot]
    · refine table.unlink found rfl rfl ?_ ?_ ?_ ?_
      · simp only [writtenEq, length_writeSlot]
      · simp only [writtenEq, length_list_writeSlot]
      · have next : written.slotNext = _ :=
          writtenEq ▸ slotNext_writeSlot (by rw [target]; rfl) (cache.nextHash id)
        rw [slotEq, List.head?_map, ← nextHash_of_links links.tail]
        refine Eq.trans ?_ next
        exact slotNext_congr heap.symm rfl rfl
      · have before : written.table.elems = ids.length := by
          rw [writtenEq, elems_writeSlot, table.elems]
        have nonempty : 0 < ids.length := List.length_pos_of_mem ((found.first id).mp rfl).1
        show elems + 1 = ids.length
        omega

/-! ### Putting an entry into a bucket -/

/-- To unlink the first entry of the back removes that entry. -/
theorem append_tail_eq_without {before after : List Nat} (distinct : (before ++ after).Nodup) :
    before ++ after.tail = without (before ++ after) after.head? := by
  cases after with
  | nil => rfl
  | cons id rest => exact (erase_middle distinct).symm

/-- The slots of a bucket are not the `next_hash` of an entry outside the table. -/
theorem Bucket.slot_ne_nextHash {ids chain : List Nat} {index id : Nat}
    (bucket : cache.Bucket ids index chain) (fresh : id ∉ ids) {slot : Slot}
    (member : slot ∈ Slot.bucket index :: chain.map Slot.nextHash) : slot ≠ .nextHash id := by
  rintro rfl
  simp only [List.mem_cons, reduceCtorEq, List.mem_map, Slot.nextHash.injEq, exists_eq_right,
    false_or] at member
  exact fresh ((bucket.holds id).mp member).1

/-- The two stores that link an entry behind a slot. -/
theorem slotNext_link {slot : Slot} {id : Nat} (alive : (cache.heap id).isSome)
    (readable : (cache.readSlot slot).isSome) (target : Option Nat) :
    ((cache.writeSlot (.nextHash id) target).writeSlot slot (some id)).slotNext =
      Function.update
        (Function.update cache.slotNext (.nextHash id) (some (target.map Slot.nextHash)))
        slot (some (some (.nextHash id))) := by
  have stillReadable : ((cache.writeSlot (.nextHash id) target).readSlot slot).isSome := by
    cases slot with
    | bucket index => exact readable
    | nextHash other =>
      simp only [readSlot, heap_writeSlot] at readable ⊢
      split_ifs at readable ⊢
      · rfl
      · exact readable
  rw [slotNext_writeSlot stillReadable, slotNext_writeSlot (by simp [readSlot, alive])]
  rfl

section Link

variable {ids before after kept : List Nat} {index id : Nat}

/-- The entry is linked behind the first part of a chain, and leads to what is kept of the
second part. -/
theorem Bucket.link {ids' : List Nat} (bucket : cache.Bucket ids index (before ++ after))
    (suffix : kept <:+ after) (fresh : id ∉ ids) (heap : cache'.heap = cache.heap)
    (length : cache'.table.length = cache.table.length)
    (next : cache'.slotNext = Function.update
      (Function.update cache.slotNext (.nextHash id) (some (kept.map Slot.nextHash).head?))
      ((before.map Slot.nextHash).getLastD (.bucket index)) (some (some (.nextHash id))))
    (home : cache.InBucket cache.table.length index id)
    (holds : ∀ other, other ∈ before ++ kept ↔
      other ∈ ids' ∧ cache.InBucket cache.table.length index other) :
    cache'.Bucket (id :: ids') index (before ++ id :: kept) := by
  obtain ⟨dropped, rfl⟩ := suffix
  have distinct := bucket.slots_distinct
  have links := bucket.links
  have notNew : ∀ slot ∈ Slot.bucket index :: (before ++ (dropped ++ kept)).map Slot.nextHash,
      slot ≠ .nextHash id := fun slot => bucket.slot_ne_nextHash fresh
  have slotNotNew := notNew _ (last_slot_mem index before (dropped ++ kept))
  have keptSublist : (before ++ kept).Sublist (before ++ (dropped ++ kept)) :=
    (List.Sublist.refl before).append (List.sublist_append_right dropped kept)
  rw [List.map_append, List.map_append] at links
  rw [List.map_append, ← List.cons_append] at distinct notNew
  obtain ⟨front, -, different⟩ := List.nodup_append.mp distinct
  have slotMember := @List.getLastD_mem_cons _ (before.map Slot.nextHash) (.bucket index)
  refine ⟨?_, ?_, fun other => ?_⟩
  · rw [List.map_append, List.map_cons, next]
    refine links.relink front (fun y member notSlot => ?_) (Function.update_self ..) ?_
    · rw [Function.update_of_ne notSlot,
        Function.update_of_ne (notNew y (List.mem_append_left _ member))]
    · intro y ys shape
      obtain ⟨rfl, rfl⟩ := List.cons.inj shape
      refine LinkChain.of_head ?_ fun z zs keptShape => ?_
      · rw [Function.update_of_ne slotNotNew.symm, Function.update_self]
      · rw [keptShape, ← List.append_assoc] at links
        refine links.tail.congr fun w member => ?_
        have inKept : w ∈ (dropped ++ kept).map Slot.nextHash := by
          rw [List.map_append, keptShape]
          exact List.mem_append_right _ member
        rw [Function.update_of_ne (different _ slotMember w inKept).symm,
          Function.update_of_ne (notNew w (List.mem_append_right _ inKept))]
  · rw [List.nodup_middle, List.nodup_cons]
    refine ⟨fun member => fresh ?_, bucket.distinct.sublist keptSublist⟩
    exact ((bucket.holds id).mp (keptSublist.subset member)).1
  · have sameBucket : cache'.InBucket cache'.table.length index other ↔
        cache.InBucket cache.table.length index other := by
      simp only [InBucket, heap, length]
    rw [sameBucket, List.perm_middle.mem_iff, List.mem_cons, List.mem_cons, holds]
    constructor
    · rintro (rfl | inside)
      · exact ⟨Or.inl rfl, home⟩
      · exact ⟨Or.inr inside.1, inside.2⟩
    · rintro ⟨isNew | inside, inBucket⟩
      · exact Or.inl isNew
      · exact Or.inr ⟨inside, inBucket⟩

/-- Linking an entry leaves the slots of the other buckets alone. -/
theorem Bucket.link_others (bucket : cache.Bucket ids index (before ++ after)) (fresh : id ∉ ids)
    {target : Option (Option Slot)}
    (next : cache'.slotNext = Function.update
      (Function.update cache.slotNext (.nextHash id) target)
      ((before.map Slot.nextHash).getLastD (.bucket index)) (some (some (.nextHash id))))
    {j : Nat} {chain : List Nat} (different : j ≠ index) (other : cache.Bucket ids j chain)
    {slot : Slot} (member : slot ∈ Slot.bucket j :: chain.map Slot.nextHash) :
    cache'.slotNext slot = cache.slotNext slot := by
  rw [next,
    Function.update_of_ne
      (bucket.slot_ne other different (last_slot_mem index before after) member),
    Function.update_of_ne (other.slot_ne_nextHash fresh member)]

end Link

end LevelDbXy.LRUCache
