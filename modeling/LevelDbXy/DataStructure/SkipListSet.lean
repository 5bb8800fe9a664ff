import LevelDbXy.DataStructure.SkipListIterator

/-!
# The skip list as a sorted set

Over a total order the keys of a skip list form a sorted set. `IsSortedSet` says what
the levels, `Contains` and the iterator offer of it, in terms of the keys only, and
`insertAll_sorted_set` that any insertions of distinct keys build one.
-/

namespace LevelDbXy.SkipList

variable {Key : Type} {compare : Key → Key → Int} {list : SkipList Key}
  {levels : Nat → List Nat} {keyAt : Nat → Key} {keys : List Key}

/-- The call leaves the iterator on a node with the wanted key, or invalid when that is
`none`. -/
def Gives (list : SkipList Key) (result : Option (Option Nat)) (wanted : Option Key → Prop) :
    Prop :=
  ∃ node key, result = some node ∧ node.map list.keyOf = key.map some ∧ wanted key

/-- What a skip list offers as the sorted set of the given keys. -/
structure IsSortedSet (compare : Key → Key → Int) (list : SkipList Key) (keys : List Key) :
    Prop where
  strict : keys.Pairwise (Lt compare)
  levels : ∃ levels : Nat → List Key, levels 0 = keys ∧
    (∀ level < kMaxHeight, list.levelKeys level = some (levels level)) ∧
    (∀ level, (levels level).Pairwise (Lt compare)) ∧
    (∀ level, (levels (level + 1)).Sublist (levels level)) ∧
    ∀ level, list.maxHeight ≤ level → levels level = []
  contains : ∀ key, ∃ found, list.contains compare key = some found ∧ (found = true ↔ key ∈ keys)
  seek : ∀ target, list.Gives (list.seek compare target)
    (WeakOrder.IsFirst (Lt compare) keys fun key => 0 ≤ compare key target)
  seekToFirst : list.Gives list.seekToFirst (WeakOrder.IsFirst (Lt compare) keys fun _ => True)
  seekToLast : list.Gives list.seekToLast (WeakOrder.IsLast (Lt compare) keys fun _ => True)
  /-- `Next` and `Prev`, wherever calls have taken the iterator. -/
  moves : ∀ calls node, list.iterRun compare calls = some (some node) →
    ∃ key ∈ keys, list.keyOf node = some key ∧
      list.Gives (list.iterNext node)
        (WeakOrder.IsFirst (Lt compare) keys fun other => compare key other < 0) ∧
      list.Gives (list.iterPrev compare node)
        (WeakOrder.IsLast (Lt compare) keys fun other => compare other key < 0)

/-! ### Levels and membership -/

/-- Reading a level meets the nodes of its chain. -/
theorem levelFrom_chain {level : Nat} (nodes : List Nat) {x fuel : Nat}
    (chain : LinkChain (list.next level) x nodes) (budget : nodes.length < fuel) :
    list.levelFrom level fuel x = some nodes := by
  induction nodes generalizing x fuel with
  | nil =>
    obtain ⟨fuel, rfl⟩ : ∃ spare, fuel = spare + 1 := ⟨fuel - 1, by omega⟩
    have read : list.next level x = some none := chain
    simp [levelFrom, read]
  | cons y ys inductionHypothesis =>
    obtain ⟨fuel, rfl⟩ : ∃ spare, fuel = spare + 1 := ⟨fuel - 1, by omega⟩
    have tail := inductionHypothesis chain.2 (Nat.lt_of_succ_lt_succ budget)
    simp [levelFrom, chain.1, tail]

/-- All nodes of a list have their keys. -/
theorem mapM_keyOf {nodes : List Nat} (keyed : ∀ x ∈ nodes, list.keyOf x = some (keyAt x)) :
    nodes.mapM list.keyOf = some (nodes.map keyAt) := by
  induction nodes with
  | nil => rfl
  | cons x xs inductionHypothesis =>
    have tail := inductionHypothesis fun y member => keyed y (List.mem_cons_of_mem _ member)
    simp [List.mapM_cons, keyed x (List.mem_cons_self ..), tail]

namespace Represents

variable (rep : Represents compare list levels keyAt)

include rep

/-- The links of a level lead through its keys. -/
theorem levelKeys_spec {level : Nat} (inHeight : level < kMaxHeight) :
    list.levelKeys level = some ((levels level).map keyAt) := by
  have room := rep.length_level_lt level
  have nodes := levelFrom_chain (levels level) (rep.chain level inHeight)
    (show _ < list.nodes.length + 1 by omega)
  have keyed : ∀ x ∈ levels level, list.keyOf x = some (keyAt x) := fun x member =>
    rep.keyed x ((rep.sublist_zero level).subset member)
  simp [levelKeys, nodes, mapM_keyOf keyed]

/-- Over a total order `Contains` tests membership. -/
theorem contains_spec (lawful : ThreeWay compare) (separates : ∀ a b, compare a b = 0 → a = b)
    (key : Key) :
    ∃ found, list.contains compare key = some found ∧
      (found = true ↔ key ∈ (levels 0).map keyAt) := by
  have order : WeakOrder (Lt compare) := lawful.weakOrder
  obtain ⟨prev, searched, -⟩ := rep.findGreaterOrEqual_spec order key
  have mapped : ((levels 0).map keyAt).dropWhile (fun k => compare k key < 0) =
      (rest compare levels keyAt key 0).map keyAt := by
    rw [List.dropWhile_map]
    rfl
  have heads := congrArg List.head? mapped
  rw [List.head?_map] at heads
  cases found : (rest compare levels keyAt key 0).head? with
  | none =>
    rw [found] at searched heads
    refine ⟨false, by simp [contains, searched], ⟨by simp, fun member => ?_⟩⟩
    exact absurd (@WeakOrder.lt_of_head?_dropWhile_eq_none _ (Lt compare) _ _ _ _ heads member)
      (order.irrefl key)
  | some x =>
    rw [found] at searched heads
    have keyed := rep.keyed x (List.dropWhile_subset _ (List.mem_of_mem_head? found))
    obtain ⟨listed, notBelow, leads⟩ := order.before_of_head?_dropWhile rep.sorted heads
    refine ⟨equal compare key (keyAt x), by simp [contains, searched, keyed], ?_⟩
    rw [equal, beq_iff_eq]
    constructor
    · intro same
      rw [separates _ _ same]
      exact listed
    · intro member
      exact (lawful.eq_zero_iff _ _).mpr ⟨leads key member (order.irrefl key), notBelow⟩

/-! ### The iterator in terms of keys -/

/-- Standing on the first node of a part of level 0 is standing on its first key. -/
theorem gives_head? (part : List Nat) {result : Option (Option Nat)} {wanted : Option Key → Prop}
    (inLevel : ∀ x ∈ part, x ∈ levels 0) (moved : result = some part.head?)
    (isWanted : wanted (part.map keyAt).head?) : list.Gives result wanted := by
  refine ⟨part.head?, (part.map keyAt).head?, moved, ?_, isWanted⟩
  cases part with
  | nil => rfl
  | cons x later => simp [rep.keyed x (inLevel x (List.mem_cons_self ..))]

/-- A call that leads to the last node of a part gives its last key. -/
theorem gives_getLast? (part : List Nat) {result : Option (Option Nat)}
    {wanted : Option Key → Prop} (inLevel : ∀ x ∈ part, x ∈ levels 0)
    (moved : result = some part.getLast?) (isWanted : wanted (part.map keyAt).getLast?) :
    list.Gives result wanted := by
  refine rep.gives_head? part.reverse (fun x member => inLevel x (List.mem_reverse.mp member))
    (moved.trans (by rw [List.head?_reverse])) ?_
  rw [List.map_reverse, List.head?_reverse]
  exact isWanted

/-- `Seek` gives the first key that is not smaller. -/
theorem seek_gives (order : WeakOrder (Lt compare))
    (strict : ((levels 0).map keyAt).Pairwise (Lt compare)) (target : Key) :
    list.Gives (list.seek compare target)
      (WeakOrder.IsFirst (Lt compare) ((levels 0).map keyAt) fun key =>
        0 ≤ compare key target) := by
  obtain ⟨prev, searched, -⟩ := rep.findGreaterOrEqual_spec order target
  refine rep.gives_head? (rest compare levels keyAt target 0)
    (fun x member => List.dropWhile_subset _ member) (by simp [seek, searched]) ?_
  have split := congrArg (List.map keyAt) (below_append_rest compare levels keyAt target 0)
  rw [List.map_append] at split
  rw [← split] at strict ⊢
  refine WeakOrder.isFirst_head? strict ?_ ?_
  · intro key member
    obtain ⟨x, inBelow, rfl⟩ := List.mem_map.mp member
    have := lt_of_mem_below inBelow
    omega
  · intro key member
    obtain ⟨x, inRest, rfl⟩ := List.mem_map.mp member
    exact Int.not_lt.mp
      (order.not_lt_of_mem_dropWhile keyAt (rep.sorted_level 0) target inRest)

/-- `SeekToFirst` gives the first key. -/
theorem seekToFirst_gives (strict : ((levels 0).map keyAt).Pairwise (Lt compare)) :
    list.Gives list.seekToFirst
      (WeakOrder.IsFirst (Lt compare) ((levels 0).map keyAt) fun _ => True) := by
  refine rep.gives_head? (levels 0) (fun x member => member)
    (@LinkChain.next_getLastD _ _ head [] (levels 0) (rep.chain 0 (by decide))) ?_
  exact @WeakOrder.isFirst_head? _ _ [] _ _ strict (by simp) (by simp)

/-- `SeekToLast` gives the last one. -/
theorem seekToLast_gives (strict : ((levels 0).map keyAt).Pairwise (Lt compare)) :
    list.Gives list.seekToLast
      (WeakOrder.IsLast (Lt compare) ((levels 0).map keyAt) fun _ => True) := by
  have moved : list.seekToLast = some (levels 0).getLast? := by
    rw [seekToLast, rep.findLast_spec, Option.map_some, rep.notHead_getLastD fun x member => member]
  refine rep.gives_getLast? (levels 0) (fun x member => member) moved ?_
  have last := @WeakOrder.isLast_getLast? _ _ ((levels 0).map keyAt) [] (fun _ => True)
    (by simpa using strict) (by simp) (by simp)
  rwa [List.append_nil] at last

/-- `Next` gives the successor of the key the iterator stands on. -/
theorem iterNext_gives (order : WeakOrder (Lt compare))
    (strict : ((levels 0).map keyAt).Pairwise (Lt compare)) {i : Nat}
    (inRange : i < (levels 0).length) :
    list.Gives (list.iterNext (levels 0)[i])
      (WeakOrder.IsFirst (Lt compare) ((levels 0).map keyAt)
        fun other => compare (keyAt (levels 0)[i]) other < 0) := by
  refine rep.gives_head? ((levels 0).drop (i + 1)) (fun x member => List.mem_of_mem_drop member)
    (by rw [rep.iterNext_getElem inRange, List.head?_drop]) ?_
  have split := List.take_append_drop (i + 1) (levels 0)
  rw [List.take_succ_eq_append_getElem inRange] at split
  generalize (levels 0)[i] = node at split ⊢
  rw [← split, List.map_append] at strict ⊢
  rw [split]
  refine WeakOrder.isFirst_head? strict ?_ ?_
  · intro key member
    rw [List.map_append, List.mem_append, List.map_singleton, List.mem_singleton] at member
    rcases member with inFront | rfl
    · rw [List.map_append, List.append_assoc] at strict
      refine order.asymm ((List.pairwise_append.mp strict).2.2 key inFront _ ?_)
      simp
    · exact order.irrefl _
  · intro key member
    exact (List.pairwise_append.mp strict).2.2 _ (by simp) key member

/-- `Prev` gives the predecessor. -/
theorem iterPrev_gives (order : WeakOrder (Lt compare))
    (strict : ((levels 0).map keyAt).Pairwise (Lt compare)) {i : Nat}
    (inRange : i < (levels 0).length) :
    list.Gives (list.iterPrev compare (levels 0)[i])
      (WeakOrder.IsLast (Lt compare) ((levels 0).map keyAt)
        fun other => compare other (keyAt (levels 0)[i]) < 0) := by
  refine rep.gives_getLast? ((levels 0).take i) (fun x member => List.mem_of_mem_take member)
    (rep.iterPrev_getElem order strict inRange) ?_
  have split := List.take_append_drop i (levels 0)
  rw [List.drop_eq_getElem_cons inRange] at split
  generalize (levels 0)[i] = node at split ⊢
  rw [← split, List.map_append] at strict ⊢
  rw [split]
  refine WeakOrder.isLast_getLast? strict ?_ ?_
  · intro key member
    exact (List.pairwise_append.mp strict).2.2 key member _ (by simp)
  · intro key member
    rw [List.map_cons] at member strict
    rcases List.mem_cons.mp member with rfl | behind
    · exact order.irrefl _
    · exact order.asymm
        ((List.pairwise_cons.mp (List.pairwise_append.mp strict).2.1).1 key behind)

end Represents

/-! ### Insertions -/

/-- A well-formed skip list of strictly sorted keys is their sorted set. -/
theorem isSortedSet_of_holds (lawful : ThreeWay compare)
    (separates : ∀ a b, compare a b = 0 → a = b) (holds : Holds compare list keys)
    (distinct : keys.Nodup) : list.IsSortedSet compare keys := by
  obtain ⟨levels, keyAt, rep, rfl⟩ := holds
  have order : WeakOrder (Lt compare) := lawful.weakOrder
  have strict : ((levels 0).map keyAt).Pairwise (Lt compare) :=
    lawful.strict_of_nodup separates rep.sorted distinct
  constructor
  case strict => exact strict
  case levels =>
    refine ⟨fun level => (levels level).map keyAt, rfl, fun level => rep.levelKeys_spec, ?_, ?_, ?_⟩
    · exact fun level => strict.sublist ((rep.sublist_zero level).map keyAt)
    · exact fun level => (rep.nested level).map keyAt
    · intro level high
      simp [rep.above level high]
  case contains => exact rep.contains_spec lawful separates
  case seek => exact rep.seek_gives order strict
  case seekToFirst => exact rep.seekToFirst_gives strict
  case seekToLast => exact rep.seekToLast_gives strict
  case moves =>
    intro calls node ran
    rw [rep.iterRun_follows order strict calls] at ran
    obtain ⟨position, -, standing⟩ := Option.map_eq_some_iff.mp ran
    obtain ⟨i, rfl, found⟩ := Option.bind_eq_some_iff.mp standing
    obtain ⟨inRange, rfl⟩ := List.getElem?_eq_some_iff.mp found
    have member := List.getElem_mem inRange
    exact ⟨keyAt (levels 0)[i], List.mem_map_of_mem member, rep.keyed _ member,
      rep.iterNext_gives order strict inRange, rep.iterPrev_gives order strict inRange⟩

/-- Insertions of distinct new keys succeed, assertions included. -/
theorem insertAll_holds (lawful : ThreeWay compare) (separates : ∀ a b, compare a b = 0 → a = b)
    (calls : List (Key × Nat)) (holds : Holds compare list keys)
    (heights : ∀ call ∈ calls, 1 ≤ call.2 ∧ call.2 ≤ kMaxHeight)
    (distinct : (calls.map Prod.fst ++ keys).Nodup) :
    ∃ after held, list.insertAll compare calls = some after ∧ Holds compare after held ∧
      held.Perm (calls.map Prod.fst ++ keys) := by
  induction calls generalizing list keys with
  | nil => exact ⟨list, keys, rfl, holds, List.Perm.refl _⟩
  | cons call calls inductionHypothesis =>
    obtain ⟨low, high⟩ := heights call (List.mem_cons_self ..)
    obtain ⟨middle, inserted, holdsMiddle⟩ := insert_holds holds lawful.weakOrder call.1 low high
    rw [List.map_cons, List.cons_append] at distinct
    obtain ⟨fresh, -⟩ := List.nodup_cons.mp distinct
    have step : list.insertAsserting compare call.1 call.2 = some middle := by
      obtain ⟨levels, keyAt, rep, rfl⟩ := holds
      obtain ⟨found, searched, iff⟩ := rep.contains_spec lawful separates call.1
      have absent : found = false := by
        rw [← Bool.not_eq_true, iff]
        exact fun member => fresh (List.mem_append_right _ member)
      simp [insertAsserting, searched, absent, inserted]
    have perm : (calls.map Prod.fst ++
        keys.orderedInsert (WeakOrder.Before (Lt compare)) call.1).Perm
          (call.1 :: (calls.map Prod.fst ++ keys)) :=
      ((List.perm_orderedInsert _ _ _).append_left _).trans List.perm_middle
    obtain ⟨after, held, ran, holdsAfter, same⟩ := inductionHypothesis holdsMiddle
      (fun c member => heights c (List.mem_cons_of_mem _ member)) (perm.nodup_iff.mpr distinct)
    refine ⟨after, held, ?_, holdsAfter, same.trans perm⟩
    rw [insertAll, List.foldlM_cons, step]
    exact ran

/-- Whatever the order of the insertions and the heights drawn, a skip list is the sorted
set of the keys inserted. -/
theorem insertAll_sorted_set [Inhabited Key] (compare : Key → Key → Int)
    (lawful : ThreeWay compare) (separates : ∀ a b, compare a b = 0 → a = b)
    (calls : List (Key × Nat)) (distinct : (calls.map Prod.fst).Nodup)
    (heights : ∀ call ∈ calls, 1 ≤ call.2 ∧ call.2 ≤ kMaxHeight) :
    ∃ list keys, new.insertAll compare calls = some list ∧ keys.Perm (calls.map Prod.fst) ∧
      list.IsSortedSet compare keys := by
  obtain ⟨list, keys, ran, holds, perm⟩ := insertAll_holds lawful separates calls
    (new_holds compare) heights (by simpa using distinct)
  rw [List.append_nil] at perm
  exact ⟨list, keys, ran, perm,
    isSortedSet_of_holds lawful separates holds (perm.nodup_iff.mpr distinct)⟩

/-- Three keys out of order, one of them in a high node. -/
theorem insertAll_sorted_set_three :
    ∃ list keys, new.insertAll (fun a b : Nat => (a : Int) - b) [(5, 1), (9, 3), (2, 12)] =
        some list ∧ keys.Perm [5, 9, 2] ∧ list.IsSortedSet (fun a b : Nat => (a : Int) - b) keys :=
  insertAll_sorted_set (fun a b : Nat => (a : Int) - b)
    ⟨fun a b => by rw [← Int.sign_neg, Int.neg_sub], fun first second => by omega⟩
    (fun a b same => by omega) [(5, 1), (9, 3), (2, 12)] (by decide) (by decide)

end LevelDbXy.SkipList
