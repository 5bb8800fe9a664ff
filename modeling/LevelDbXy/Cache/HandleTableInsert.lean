import LevelDbXy.Cache.HandleTable

/-!
# Insertion into the hash table

`Insert` links a new entry in place of the one with the same key and hash, or at the end of
its bucket. `Resize` moves every entry into a bucket of the new table; while it
runs, the entries that are moved form a table of their own, and the chains still to be
moved are those of the old one.
-/

namespace LevelDbXy.LRUCache

variable {Value Deleter : Type} {cache cache' : LRUCache Value Deleter}

/-! ### The doubling loop -/

/-- The loop ends with a power of two that is large enough. -/
theorem growLength_of_le {elems fuel k : Nat} (bound : elems ≤ 2 ^ 31) (exponent : k ≤ 31)
    (budget : 31 < k + fuel) :
    ∃ j, growLength elems fuel (2 ^ k) = some (2 ^ j) ∧ elems ≤ 2 ^ j := by
  induction fuel generalizing k with
  | zero => omega
  | succ fuel inductionHypothesis =>
    rw [growLength]
    split_ifs with short
    · have small : k < 31 := by
        by_contra large
        have : 2 ^ 31 ≤ 2 ^ k := Nat.pow_le_pow_right (by omega) (by omega)
        omega
      have doubled : 2 ^ k * 2 % 2 ^ 32 = 2 ^ (k + 1) := by
        rw [← Nat.pow_succ]
        exact Nat.mod_eq_of_lt (Nat.pow_lt_pow_right (by omega) (by omega))
      rw [doubled]
      exact inductionHypothesis (by omega) (by omega)
    · exact ⟨k, rfl, Nat.le_of_not_lt short⟩

/-! ### Moving the entries -/

/-- The cache with the entries moved so far as its table. -/
def withMoved (cache : LRUCache Value Deleter) (newLength : Nat) (moved : Moved) :
    LRUCache Value Deleter :=
  { cache with
    nextHash := moved.nextHash
    table := { length := newLength, elems := cache.table.elems, list := moved.list } }

/-- The entries in `done` are in the new buckets, and the others still where they were. -/
structure MovedTo (cache : LRUCache Value Deleter) (newLength : Nat) (done : List Nat)
    (moved : Moved) : Prop where
  length : moved.list.length = newLength
  buckets : ∀ index < newLength, ∃ chain, (cache.withMoved newLength moved).Bucket done index chain
  distinct : done.Nodup
  others : ∀ id ∉ done, moved.nextHash id = cache.nextHash id
  count : moved.count = done.length % 2 ^ 32

/-- A bucket holds a pointer to the first entry of its chain. -/
theorem Bucket.first {ids chain : List Nat} {index : Nat} (bucket : cache.Bucket ids index chain) :
    cache.table.list[index]? = some chain.head? := by
  have read := @LinkChain.next_getLastD _ _ (Slot.bucket index) [] _ bucket.links
  cases chain with
  | nil => exact readSlot_of_slotNext_none read
  | cons id rest => exact readSlot_of_slotNext_some read

/-- One entry is moved to the front of its new bucket. -/
theorem MovedTo.step {newLength id : Nat} {done : List Nat} {moved : Moved}
    {handle : LRUHandle Value Deleter} (movedTo : cache.MovedTo newLength done moved)
    (positive : 0 < newLength) (fresh : id ∉ done) (stored : cache.heap id = some handle) :
    ∃ front, moved.list[handle.hash &&& (newLength - 1)]? = some front ∧
      cache.MovedTo newLength (id :: done)
        { nextHash := Function.update moved.nextHash id front
          list := moved.list.set (handle.hash &&& (newLength - 1)) (some id)
          count := (moved.count + 1) % 2 ^ 32 } := by
  have inside := and_pred_lt handle.hash positive
  have home : cache.InBucket newLength (handle.hash &&& (newLength - 1)) id :=
    ⟨handle, stored, rfl⟩
  generalize handle.hash &&& (newLength - 1) = index at inside home
  obtain ⟨chain, bucket⟩ := movedTo.buckets index inside
  have first : moved.list[index]? = some chain.head? := bucket.first
  refine ⟨chain.head?, first, ?_⟩
  obtain ⟨later, laterEq⟩ : ∃ later : Moved, later =
      { nextHash := Function.update moved.nextHash id chain.head?
        list := moved.list.set index (some id)
        count := (moved.count + 1) % 2 ^ 32 } := ⟨_, rfl⟩
  rw [← laterEq]
  have next : (cache.withMoved newLength later).slotNext = Function.update
      (Function.update (cache.withMoved newLength moved).slotNext (.nextHash id)
        (some (chain.map Slot.nextHash).head?)) (.bucket index) (some (some (.nextHash id))) := by
    rw [laterEq, List.head?_map]
    exact @slotNext_link _ _ (cache.withMoved newLength moved) (.bucket index) id
      (Option.isSome_of_eq_some stored) (Option.isSome_of_eq_some first) chain.head?
  have changed : (cache.withMoved newLength later).Bucket (id :: done) index ([] ++ id :: chain) :=
    @Bucket.link _ _ _ (cache.withMoved newLength later) done [] chain chain index id done bucket
      (List.suffix_refl chain) fresh rfl rfl next home bucket.holds
  refine ⟨?_, ?_, List.nodup_cons.mpr ⟨fresh, movedTo.distinct⟩, ?_, ?_⟩
  · rw [laterEq, List.length_set, movedTo.length]
  · refine @buckets_of_change _ _ (cache.withMoved newLength moved)
      (cache.withMoved newLength later) _ _ _ _ movedTo.buckets rfl rfl changed ?_ ?_
    · intro j other different otherBucket slot member
      exact @Bucket.link_others _ _ _ _ done [] chain index id bucket fresh _ next j other different
        otherBucket slot member
    · intro other elsewhere
      have different : other ≠ id := by
        rintro rfl
        exact elsewhere home
      simp [different]
  · intro other outside
    have different : other ≠ id := fun same => outside (by simp [same])
    rw [laterEq, ← movedTo.others other fun inDone => outside (by simp [inDone])]
    exact Function.update_of_ne different _ _
  · simp [laterEq, movedTo.count, Nat.add_mod]

/-- The inner loop of `Resize` moves the rest of a chain. -/
theorem moveChain_spec {newLength fuel : Nat} {done : List Nat} {moved : Moved} {slot : Slot}
    (chain : List Nat) (positive : 0 < newLength) (movedTo : cache.MovedTo newLength done moved)
    (links : LinkChain cache.slotNext slot (chain.map .nextHash)) (distinct : chain.Nodup)
    (fresh : ∀ id ∈ chain, id ∉ done) (alive : ∀ id ∈ chain, (cache.heap id).isSome)
    (budget : chain.length ≤ fuel) :
    ∃ result, cache.moveChain newLength fuel chain.head? moved = some result ∧
      cache.MovedTo newLength (chain.reverse ++ done) result := by
  induction chain generalizing fuel done moved slot with
  | nil => exact ⟨moved, by simp [moveChain], movedTo⟩
  | cons id rest inductionHypothesis =>
    obtain ⟨fuel, rfl⟩ : ∃ spare, fuel = spare + 1 := ⟨fuel - 1, by simp at budget; omega⟩
    obtain ⟨notRest, restDistinct⟩ := List.nodup_cons.mp distinct
    obtain ⟨handle, stored⟩ := Option.isSome_iff_exists.mp (alive id (by simp))
    have notDone := fresh id (by simp)
    obtain ⟨front, read, stepped⟩ := movedTo.step positive notDone stored
    have next : moved.nextHash id = rest.head? :=
      (movedTo.others id notDone).trans (nextHash_of_links links.2)
    obtain ⟨result, ran, finished⟩ := inductionHypothesis stepped links.2 restDistinct
      (fun other member => by
        rw [List.mem_cons]
        rintro (rfl | inDone)
        · exact notRest member
        · exact fresh other (List.mem_cons_of_mem _ member) inDone)
      (fun other member => alive other (List.mem_cons_of_mem _ member)) (by simpa using budget)
    refine ⟨result, ?_, by simpa using finished⟩
    simp only [List.head?_cons, moveChain, stored, Option.bind_eq_bind, Option.bind_some, read,
      next]
    exact ran

/-- The outer loop of `Resize` moves the chains of the remaining buckets. -/
theorem moveAll_spec {newLength : Nat} {ids done : List Nat} {chains : Nat → List Nat}
    {moved : Moved} (indices : List Nat) (positive : 0 < newLength)
    (buckets : ∀ i < cache.table.length, cache.Bucket ids i (chains i))
    (alive : ∀ id ∈ ids, id < cache.fresh ∧ (cache.heap id).isSome)
    (inside : ∀ i ∈ indices, i < cache.table.length) (distinct : indices.Nodup)
    (movedTo : cache.MovedTo newLength done moved)
    (fresh : ∀ i ∈ indices, ∀ id ∈ chains i, id ∉ done) :
    ∃ result later,
      indices.foldlM (fun moved i => do
        let head ← cache.table.list[i]?
        cache.moveChain newLength (cache.fresh + 1) head moved) moved = some result ∧
      cache.MovedTo newLength later result ∧
      ∀ id, id ∈ later ↔ id ∈ done ∨ ∃ i ∈ indices, id ∈ chains i := by
  induction indices generalizing done moved with
  | nil => exact ⟨moved, done, rfl, movedTo, by simp⟩
  | cons index indices inductionHypothesis =>
    obtain ⟨notLater, laterDistinct⟩ := List.nodup_cons.mp distinct
    have bucket := buckets index (inside index (by simp))
    obtain ⟨stepped, ran, movedChain⟩ := moveChain_spec (chains index) positive movedTo bucket.links
      bucket.distinct (fresh index (by simp))
      (fun id member => (alive id ((bucket.holds id).mp member).1).2)
      (Nat.le_succ_of_le (bucket.length_le alive))
    have stillFresh : ∀ i ∈ indices, ∀ id ∈ chains i, id ∉ (chains index).reverse ++ done := by
      intro i member id inChain
      rw [List.mem_append, List.mem_reverse]
      rintro (inFirst | inDone)
      · have other := buckets i (inside i (List.mem_cons_of_mem _ member))
        have same := ((bucket.holds id).mp inFirst).2.functional ((other.holds id).mp inChain).2
        exact notLater (same ▸ member)
      · exact fresh i (List.mem_cons_of_mem _ member) id inChain inDone
    obtain ⟨result, later, ranRest, finished, holds⟩ := inductionHypothesis
      (fun i member => inside i (List.mem_cons_of_mem _ member)) laterDistinct movedChain stillFresh
    refine ⟨result, later, ?_, finished, fun id => ?_⟩
    · rw [List.foldlM_cons]
      simp only [bucket.first, Option.bind_eq_bind, Option.bind_some, ran]
      exact ranRest
    · rw [holds, List.mem_append, List.mem_reverse, List.exists_mem_cons_iff]
      tauto

/-- No entry has been moved. -/
theorem movedTo_nil (cache : LRUCache Value Deleter) (newLength : Nat) :
    cache.MovedTo newLength []
      { nextHash := cache.nextHash, list := List.replicate newLength none, count := 0 } := by
  refine ⟨List.length_replicate, fun index inside => ⟨[], ?_, List.nodup_nil, by simp⟩,
    List.nodup_nil, fun _ _ => rfl, rfl⟩
  simp [LinkChain, slotNext, readSlot, withMoved, inside]

/-- `Resize` keeps the entries of the table. -/
theorem Table.resize {ids : List Nat} (table : cache.Table ids) (small : ids.length ≤ 2 ^ 31) :
    ∃ nextHash handleTable,
      cache.resize = some { cache with nextHash, table := handleTable } ∧
      Table { cache with nextHash, table := handleTable } ids := by
  obtain ⟨exponent, grown, -⟩ := @growLength_of_le cache.table.elems 32 2
    (by rw [table.elems]; exact small) (by omega) (by omega)
  obtain ⟨newLength, newLengthEq⟩ : ∃ newLength, newLength = 2 ^ exponent := ⟨_, rfl⟩
  have positive : 0 < newLength := newLengthEq ▸ Nat.two_pow_pos exponent
  rw [← newLengthEq] at grown
  choose! chains buckets using table.buckets
  obtain ⟨result, later, ran, movedTo, holds⟩ := moveAll_spec (List.range cache.table.length)
    positive buckets table.alive (fun i => List.mem_range.mp) List.nodup_range
    (cache.movedTo_nil newLength) (by simp)
  have sameIds : ∀ id, id ∈ later ↔ id ∈ ids := by
    intro id
    rw [holds]
    constructor
    · rintro (none | ⟨i, inRange, inChain⟩)
      · cases none
      · exact (((buckets i (List.mem_range.mp inRange)).holds id).mp inChain).1
    · intro member
      obtain ⟨handle, stored⟩ := Option.isSome_iff_exists.mp (table.alive id member).2
      have inside := and_pred_lt handle.hash table.positive
      exact Or.inr ⟨_, List.mem_range.mpr inside,
        ((buckets _ inside).holds id).mpr ⟨member, handle, stored, rfl⟩⟩
  have sameLength : later.length = ids.length :=
    ((List.perm_ext_iff_of_nodup movedTo.distinct table.distinct).mpr sameIds).length_eq
  have counted : cache.table.elems = result.count := by
    rw [movedTo.count, sameLength, table.elems]
    exact (Nat.mod_eq_of_lt (by omega)).symm
  refine ⟨result.nextHash, { length := newLength, elems := cache.table.elems, list := result.list },
    ?_, movedTo.length, positive, fun index inside => ?_, table.distinct, table.alive, table.unique,
    table.elems⟩
  · simp only [LRUCache.resize, show growLength cache.table.elems 32 4 = some newLength from grown,
      Option.bind_eq_bind, Option.bind_some]
    simp only [Option.bind_eq_bind] at ran
    rw [ran, Option.bind_some, if_pos counted]
  · obtain ⟨chain, bucket⟩ := movedTo.buckets index inside
    refine ⟨chain, bucket.links, bucket.distinct, fun id => ?_⟩
    rw [← sameIds]
    exact bucket.holds id

/-- The constructor makes an empty table of four buckets. -/
theorem Table.new {capacity : Nat} (created : LRUCache.new capacity = some cache) :
    cache.Table [] := by
  obtain rfl := Option.some.inj created
  refine ⟨rfl, Nat.succ_pos 3, fun index inside => ⟨[], ?_, List.nodup_nil, ?_⟩, ?_, ?_, ?_, rfl⟩
  · show ((List.replicate 4 (none : Option Nat))[index]?).map (Option.map Slot.nextHash) =
      some none
    rw [List.getElem?_replicate, if_pos inside]
    rfl
  all_goals simp

/-! ### Insertion -/

/-- An entry has one key and one hash. -/
theorem Matches.functional {key key' : Bytes} {hash hash' id : Nat}
    (first : cache.Matches key hash id) (second : cache.Matches key' hash' id) :
    key = key' ∧ hash = hash' := by
  obtain ⟨handle, stored, rfl, rfl⟩ := first
  obtain ⟨other, storedOther, rfl, rfl⟩ := second
  rw [Option.some.inj (stored.symm.trans storedOther)]
  exact ⟨rfl, rfl⟩

/-- An entry that is linked where the search for its key and hash ends replaces the entry
that was found. -/
theorem Table.link {ids before after : List Nat} {key : Bytes} {hash index id : Nat}
    (table : cache.Table ids) (found : cache.Found ids key hash index before after)
    (matching : cache.Matches key hash id) (unlisted : id ∉ ids) (allocated : id < cache.fresh)
    (heap : cache'.heap = cache.heap) (fresh : cache'.fresh = cache.fresh)
    (length : cache'.table.length = cache.table.length)
    (listLength : cache'.table.list.length = cache.table.list.length)
    (next : cache'.slotNext = Function.update
      (Function.update cache.slotNext (.nextHash id) (some (after.tail.map Slot.nextHash).head?))
      ((before.map Slot.nextHash).getLastD (.bucket index)) (some (some (.nextHash id))))
    (elems : cache'.table.elems = (without ids after.head?).length + 1) :
    cache'.Table (id :: without ids after.head?) := by
  have home : cache.InBucket cache.table.length index id := by
    obtain ⟨handle, stored, sameHash, -⟩ := matching
    exact ⟨handle, stored, by rw [sameHash, found.index_eq]⟩
  have oldHome : ∀ old, after.head? = some old → cache.InBucket cache.table.length index old :=
    fun old first => ((found.bucket.holds old).mp
      (List.mem_append_right _ (List.mem_of_mem_head? first))).2
  have kept : ∀ other, other ∈ without ids after.head? ↔ other ∈ ids ∧ after.head? ≠ some other :=
    fun other => mem_without table.distinct
  have bucket : cache'.Bucket (id :: without ids after.head?) index
      (before ++ id :: after.tail) := by
    refine found.bucket.link (List.tail_suffix after) unlisted heap length next home fun other => ?_
    rw [append_tail_eq_without found.bucket.distinct, mem_without found.bucket.distinct,
      found.bucket.holds, kept]
    tauto
  have apart : ∀ other ∈ without ids after.head?, ∀ key' hash', cache.Matches key' hash' id →
      ¬ cache.Matches key' hash' other := by
    intro other member key' hash' matchingId matchingOther
    obtain ⟨rfl, rfl⟩ := matching.functional matchingId
    obtain ⟨inIds, notFound⟩ := (kept other).mp member
    exact notFound ((found.first other).mpr ⟨inIds, matchingOther⟩)
  refine ⟨by rw [listLength, length, table.length], by rw [length]; exact table.positive, ?_, ?_,
    ?_, ?_, by simpa using elems⟩
  · refine buckets_of_change table.buckets heap length bucket ?_ ?_
    · intro j chain different other slot member
      exact found.bucket.link_others unlisted next different other member
    · intro other elsewhere
      have notNew : other ≠ id := by
        rintro rfl
        exact elsewhere home
      have notOld : after.head? ≠ some other := fun first => elsewhere (oldHome other first)
      rw [List.mem_cons, kept]
      tauto
  · refine List.nodup_cons.mpr ⟨fun member => ?_, nodup_without table.distinct _⟩
    exact unlisted ((kept id).mp member).1
  · intro other member
    rw [heap, fresh]
    rcases List.mem_cons.mp member with rfl | inside
    · obtain ⟨handle, stored, -⟩ := matching
      exact ⟨allocated, Option.isSome_of_eq_some stored⟩
    · exact table.alive other ((kept other).mp inside).1
  · intro a aMember b bMember key' hash' aMatches bMatches
    simp only [Matches, heap] at aMatches bMatches
    rcases List.mem_cons.mp aMember with rfl | aInside <;>
      rcases List.mem_cons.mp bMember with rfl | bInside
    · rfl
    · exact absurd bMatches (apart b bInside key' hash' aMatches)
    · exact absurd aMatches (apart a aInside key' hash' bMatches)
    · exact table.unique a ((kept a).mp aInside).1 b ((kept b).mp bInside).1 key' hash' aMatches
        bMatches

/-- `next_hash` of the replaced entry leads to the rest of the chain. -/
theorem Found.next_replaced {ids before after : List Nat} {key : Bytes} {hash index : Nat}
    (found : cache.Found ids key hash index before after) :
    after.head?.bind cache.nextHash = after.tail.head? := by
  cases after with
  | nil => rfl
  | cons old rest =>
    have links := found.bucket.links
    rw [List.map_append, List.map_cons] at links
    exact nextHash_of_links links.tail

/-- `Insert` puts an entry into the table, in place of the entry with its key and hash if
there is one. -/
theorem Table.insert {ids : List Nat} {id : Nat} {handle : LRUHandle Value Deleter}
    (table : cache.Table ids) (noSelf : ∀ id, cache.next (.entry id) ≠ some (.entry id))
    (stored : cache.heap id = some handle) (unlisted : id ∉ ids) (allocated : id < cache.fresh)
    (room : ids.length < 2 ^ 31 ∨
      ids.length = 2 ^ 31 ∧ ∃ other ∈ ids, cache.Matches handle.key handle.hash other) :
    ∃ nextHash handleTable old,
      cache.tableInsert id = some ({ cache with nextHash, table := handleTable }, old) ∧
      (∀ other, old = some other ↔ other ∈ ids ∧ cache.Matches handle.key handle.hash other) ∧
      Table { cache with nextHash, table := handleTable } (id :: without ids old) := by
  obtain ⟨index, before, after, found⟩ := table.exists_found noSelf handle.key handle.hash
  have pointer := found.pointer
  have target := found.target
  obtain ⟨slot, slotEq⟩ : ∃ slot, (before.map Slot.nextHash).getLastD (.bucket index) = slot :=
    ⟨_, rfl⟩
  rw [slotEq] at pointer target
  obtain ⟨linked, linkedEq⟩ : ∃ linked, linked =
      (cache.writeSlot (.nextHash id) (after.head?.bind cache.nextHash)).writeSlot slot (some id) :=
    ⟨_, rfl⟩
  have heap : linked.heap = cache.heap := by rw [linkedEq, heap_writeSlot, heap_writeSlot]
  have counted : linked.table.elems = ids.length := by
    rw [linkedEq, elems_writeSlot, elems_writeSlot, table.elems]
  have shape : linked = { cache with nextHash := linked.nextHash, table := linked.table } := by
    rw [linkedEq]
    cases slot <;> rfl
  have linkedTable : ∀ elems, elems = (without ids after.head?).length + 1 →
      Table { cache with nextHash := linked.nextHash, table := { linked.table with elems } }
        (id :: without ids after.head?) := by
    intro elems elemsEq
    refine table.link found ⟨handle, stored, rfl, rfl⟩ unlisted allocated rfl rfl ?_ ?_ ?_ elemsEq
    · simp only [linkedEq, length_writeSlot]
    · simp only [linkedEq, length_list_writeSlot]
    · have next := slotNext_link (Option.isSome_of_eq_some stored) (Option.isSome_of_eq_some target)
        (after.head?.bind cache.nextHash)
      rw [← linkedEq, found.next_replaced, ← List.head?_map, ← slotEq] at next
      rw [← next]
      exact slotNext_congr heap.symm rfl rfl
  obtain ⟨elems, elemsEq⟩ : ∃ elems, elems = (linked.table.elems + 1) % 2 ^ 32 := ⟨_, rfl⟩
  have run : cache.tableInsert id =
      if after.head? = none then
        if linked.table.length < elems then
          (LRUCache.resize { linked with table := { linked.table with elems } }).bind
            fun cache => some (cache, after.head?)
        else some ({ linked with table := { linked.table with elems } }, after.head?)
      else some (linked, after.head?) := by
    simp only [tableInsert, stored, keyOf_eq noSelf stored, pointer, target, Option.bind_eq_bind,
      Option.bind_some, ← linkedEq, ← elemsEq]
  cases first : after.head? with
  | none =>
    rw [first] at linkedTable
    have small : elems = ids.length + 1 ∧ ids.length + 1 ≤ 2 ^ 31 := by
      rcases room with room | ⟨-, other, member, matching⟩
      · omega
      · have := (found.first other).mpr ⟨member, matching⟩
        rw [first] at this
        cases this
    have counted := linkedTable elems small.1
    rw [if_pos first, first] at run
    by_cases grows : linked.table.length < elems
    · obtain ⟨nextHash, handleTable, resized, after⟩ := counted.resize small.2
      refine ⟨nextHash, handleTable, none, ?_, first ▸ found.first, after⟩
      rw [run, if_pos grows, shape, resized]
      rfl
    · refine ⟨linked.nextHash, { linked.table with elems }, none, ?_, first ▸ found.first, counted⟩
      rw [run, if_neg grows, shape]
  | some old =>
    have member : old ∈ ids := ((found.first old).mp first).1
    have nonempty : 0 < ids.length := List.length_pos_of_mem member
    rw [first] at linkedTable
    refine ⟨linked.nextHash, linked.table, some old, ?_, first ▸ found.first, ?_⟩
    · rw [run, if_neg (by simp [first]), first, ← shape]
    · refine linkedTable linked.table.elems ?_
      rw [counted, without, Option.elim_some, List.length_erase_of_mem member]
      omega

end LevelDbXy.LRUCache
