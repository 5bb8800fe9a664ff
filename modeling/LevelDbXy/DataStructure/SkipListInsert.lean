import LevelDbXy.DataStructure.SkipListSearch

/-!
# Insertion into a skip list

`Insert` splices the new node behind the recorded predecessor on every level
below its height. `insert_spec` says that the result represents the same lists
with the new node in front of the first key that is not below the new one, on
each of those levels; in terms of the keys on level 0 this is `orderedInsert`.
The last section reads the represented list back with an iterator.
-/

namespace LevelDbXy.SkipList

variable {Key : Type} {compare : Key → Key → Int} {list : SkipList Key}
  {levels : Nat → List Nat} {keyAt : Nat → Key}

/-- The level lists after inserting node `x` of the given height. -/
def insertedLevels (compare : Key → Key → Int) (levels : Nat → List Nat) (keyAt : Nat → Key)
    (key : Key) (x height level : Nat) : List Nat :=
  if level < height then
    below compare levels keyAt key level ++ x :: rest compare levels keyAt key level
  else levels level

/-! ### The linking loop -/

/-- The state of the linking loop in front of `level`: the levels done so far hold
the new node `x`, the others are still as before. -/
structure Linked (compare : Key → Key → Int) (levels : Nat → List Nat) (keyAt : Nat → Key)
    (key : Key) (x height : Nat) (start list : SkipList Key) (level : Nat) : Prop where
  done : ∀ l < kMaxHeight, l < level → LinkChain (list.next l) head
    (below compare levels keyAt key l ++ x :: rest compare levels keyAt key l)
  todo : ∀ l < kMaxHeight, level ≤ l → LinkChain (list.next l) head (levels l)
  slots : ∀ l < height, list.HasSlot l x
  keys : ∀ y, list.keyOf y = start.keyOf y
  size : list.nodes.length = start.nodes.length
  maxHeight : list.maxHeight = start.maxHeight

/-- A round stores the link of the new node and then the one of its predecessor. -/
theorem linkLevel_eq {x before level : Nat} {after : Option Nat} {prev : List (Option Nat)}
    (recorded : prev[level]? = some (some before)) (read : list.next level before = some after) :
    linkLevel x prev list level =
      some ((list.setNext level x after).setNext level before (some x)) := by
  simp [linkLevel, recorded, read]

/-- The predecessor is on the level, or is the head. -/
theorem last_below_mem (key : Key) (level : Nat) :
    (below compare levels keyAt key level).getLastD head ∈ head :: levels level := by
  have member := @List.getLastD_mem_cons _ (below compare levels keyAt key level) head
  rw [← below_append_rest compare levels keyAt key level]
  simp only [List.mem_cons, List.mem_append] at member ⊢
  tauto

section Rounds

variable {key : Key} {height level : Nat} {start current : SkipList Key}
  (rep : Represents compare list levels keyAt)
  (linked : Linked compare levels keyAt key list.nodes.length height start current level)

include rep

/-- The new node was on no level. -/
theorem ne_newNode_of_mem {y : Nat} (member : y ∈ head :: levels level) :
    y ≠ list.nodes.length := by
  have positive := rep.length_level_lt level
  rcases List.mem_cons.mp member with rfl | member
  · have : head = 0 := rfl
    omega
  · have := (rep.inside y ((rep.sublist_zero level).subset member)).2
    omega

include linked

omit rep in
/-- The predecessor that the search recorded still leads to the rest of its level. -/
theorem Linked.next_last (inBound : level < kMaxHeight) :
    current.next level ((below compare levels keyAt key level).getLastD head) =
      some (rest compare levels keyAt key level).head? := by
  have chain := linked.todo level inBound le_rfl
  rw [← below_append_rest compare levels keyAt key level] at chain
  exact chain.next_getLastD

/-- Storing the link of the new node changes no chain: it is not on its level yet. -/
theorem Linked.storeNew (inHeight : level < height) (after : Option Nat) :
    Linked compare levels keyAt key list.nodes.length height start
        (current.setNext level list.nodes.length after) level ∧
      (current.setNext level list.nodes.length after).next level list.nodes.length =
        some after := by
  have slot := linked.slots level inHeight
  refine ⟨⟨?_, ?_, ?_, ?_, ?_, ?_⟩, by simp [next_setNext slot]⟩
  · intro l inBound lower
    refine (linked.done l inBound lower).congr fun y _ => ?_
    rw [next_setNext slot, if_neg (by omega)]
  · intro l inBound higher
    refine (linked.todo l inBound higher).congr fun y member => ?_
    rw [next_setNext slot, if_neg fun same => ne_newNode_of_mem rep member same.1]
  · exact fun l lower => (hasSlot_setNext ..).mpr (linked.slots l lower)
  · exact fun y => (keyOf_setNext ..).trans (linked.keys y)
  · exact (length_nodes_setNext ..).trans linked.size
  · exact linked.maxHeight

/-- Storing the link of the predecessor puts the new node on its level. -/
theorem Linked.publish (inBound : level < kMaxHeight)
    (stored : current.next level list.nodes.length =
      some (rest compare levels keyAt key level).head?) :
    Linked compare levels keyAt key list.nodes.length height start
      (current.setNext level ((below compare levels keyAt key level).getLastD head)
        (some list.nodes.length)) (level + 1) := by
  have read := linked.next_last inBound
  have slot := hasSlot_of_next read
  have notNew : (below compare levels keyAt key level).getLastD head ≠ list.nodes.length :=
    ne_newNode_of_mem rep (last_below_mem key level)
  refine ⟨?_, ?_, ?_, ?_, ?_, ?_⟩
  · intro l inBound lower
    rcases Nat.lt_succ_iff_lt_or_eq.mp lower with lower | rfl
    · refine (linked.done l inBound lower).congr fun y _ => ?_
      rw [next_setNext slot, if_neg (by omega)]
    · have chain := linked.todo l inBound le_rfl
      have distinct := rep.distinct_level l
      rw [← below_append_rest compare levels keyAt key l] at chain distinct
      refine chain.splice distinct ?_ ?_ ?_
      · rw [next_setNext slot, if_neg fun same => notNew same.1.symm, stored, read]
      · rw [next_setNext slot, if_pos ⟨rfl, rfl⟩]
      · intro y _ notLast
        rw [next_setNext slot, if_neg fun same => notLast same.1]
  · intro l inBound higher
    refine (linked.todo l inBound (by omega)).congr fun y _ => ?_
    rw [next_setNext slot, if_neg (by omega)]
  · exact fun l lower => (hasSlot_setNext ..).mpr (linked.slots l lower)
  · exact fun y => (keyOf_setNext ..).trans (linked.keys y)
  · exact (length_nodes_setNext ..).trans linked.size
  · exact linked.maxHeight

/-- Each round of the loop moves one level from `todo` to `done`. -/
theorem Linked.step {prev : List (Option Nat)} (inHeight : level < height)
    (heightBound : height ≤ kMaxHeight)
    (recorded : prev[level]? = some (some ((below compare levels keyAt key level).getLastD head))) :
    ∃ after, linkLevel list.nodes.length prev current level = some after ∧
      Linked compare levels keyAt key list.nodes.length height start after (level + 1) := by
  have read := linked.next_last (by omega)
  obtain ⟨linkedStored, stored⟩ := linked.storeNew rep inHeight
    (rest compare levels keyAt key level).head?
  exact ⟨_, linkLevel_eq recorded read, linkedStored.publish rep (by omega) stored⟩

end Rounds

/-- The loop links every level below the height of the new node. -/
theorem Linked.run (rep : Represents compare list levels keyAt) {key : Key} {height : Nat}
    {start : SkipList Key} {prev : List (Option Nat)}
    (linked : Linked compare levels keyAt key list.nodes.length height start start 0)
    (heightBound : height ≤ kMaxHeight)
    (recorded : ∀ level < height,
      prev[level]? = some (some ((below compare levels keyAt key level).getLastD head))) :
    ∀ count ≤ height, ∃ after,
      (List.range count).foldlM (linkLevel list.nodes.length prev) start = some after ∧
      Linked compare levels keyAt key list.nodes.length height start after count := by
  intro count
  induction count with
  | zero => exact fun _ => ⟨start, rfl, linked⟩
  | succ count inductionHypothesis =>
    intro inHeight
    obtain ⟨middle, ran, linkedMiddle⟩ := inductionHypothesis (by omega)
    obtain ⟨after, step, linkedAfter⟩ := linkedMiddle.step rep (by omega) heightBound
      (recorded count (by omega))
    refine ⟨after, ?_, linkedAfter⟩
    rw [List.range_succ, List.foldlM_append, ran]
    simp [step]

/-! ### The state the loop starts from -/

/-- Allocation does not change the links of other nodes. -/
theorem next_newNode {x : Nat} (list : SkipList Key) (key : Key) (height level : Nat)
    (old : x < list.nodes.length) :
    (list.newNode key height).next level x = list.next level x := by
  simp [next, newNode, List.getElem?_append_left old]

/-- The new node has the new key. -/
theorem keyOf_newNode (list : SkipList Key) (key : Key) (height x : Nat) :
    (list.newNode key height).keyOf x =
      if x = list.nodes.length then some key else list.keyOf x := by
  rcases Nat.lt_trichotomy x list.nodes.length with old | rfl | beyond
  · simp [keyOf, newNode, List.getElem?_append_left old, Nat.ne_of_lt old]
  · simp [keyOf, newNode]
  · rw [if_neg (Nat.ne_of_gt beyond), keyOf, keyOf, newNode,
      List.getElem?_eq_none (by simp; omega), List.getElem?_eq_none (by omega)]

/-- The new node has links on all levels below its height. -/
theorem hasSlot_newNode (list : SkipList Key) (key : Key) {height level : Nat}
    (inHeight : level < height) : (list.newNode key height).HasSlot level list.nodes.length :=
  ⟨⟨some key, List.replicate height none⟩, by simp [newNode], by simpa using inHeight⟩

/-- A new node leaves every represented chain as it was. -/
theorem Linked.start (rep : Represents compare list levels keyAt) (key : Key)
    (height newMax : Nat) :
    Linked compare levels keyAt key list.nodes.length height
      (newNode { list with maxHeight := newMax } key height)
      (newNode { list with maxHeight := newMax } key height) 0 where
  done := by
    intro l _ impossible
    omega
  todo := by
    intro l inBound _
    refine (rep.chain l inBound).congr fun y member => ?_
    have old : y < list.nodes.length := by
      rcases List.mem_cons.mp member with rfl | member
      · exact Nat.zero_lt_of_lt (rep.length_level_lt l)
      · exact (rep.inside y ((rep.sublist_zero l).subset member)).2
    rw [next_newNode { list with maxHeight := newMax } key height l old]
    rfl
  slots := fun l inHeight => hasSlot_newNode { list with maxHeight := newMax } key inHeight
  keys := fun _ => rfl
  size := rfl
  maxHeight := rfl

/-- The array `prev` as the linking loop reads it: on the levels the search did
not visit, the predecessor is the head. -/
theorem patchPrev_spec (rep : Represents compare list levels keyAt) {key : Key} {height : Nat}
    {prev : List (Option Nat)} (heightBound : height ≤ kMaxHeight)
    (recorded : ∀ l, prev[l]? = if l < list.maxHeight then
      some (some ((below compare levels keyAt key l).getLastD head))
      else (List.replicate kMaxHeight none)[l]?) :
    ∀ level < height, (patchPrev prev list.maxHeight height)[level]? =
      some (some ((below compare levels keyAt key level).getLastD head)) := by
  intro level inHeight
  rw [patchPrev, List.getElem?_mapIdx, recorded level]
  by_cases visited : level < list.maxHeight
  · rw [if_pos visited, Option.map_some, if_neg (by omega)]
  · have empty : below compare levels keyAt key level = [] := by
      rw [below, rep.above level (by omega)]
      rfl
    have present : (List.replicate kMaxHeight (none : Option Nat))[level]? = some none :=
      List.getElem?_replicate_of_lt (by omega)
    rw [if_neg visited, present, Option.map_some, if_pos ⟨by omega, inHeight⟩, empty]
    rfl

/-! ### The represented lists after insertion -/

/-- In a sorted level the smaller keys are the first ones. -/
theorem below_eq_filter (rep : Represents compare list levels keyAt)
    (order : WeakOrder (Lt compare)) (key : Key) (level : Nat) :
    below compare levels keyAt key level =
      (levels level).filter fun x => compare (keyAt x) key < 0 := by
  conv_rhs => rw [← below_append_rest compare levels keyAt key level]
  rw [List.filter_append, List.filter_eq_self.mpr, List.filter_eq_nil_iff.mpr, List.append_nil]
  · intro x member
    simpa using order.not_lt_of_mem_dropWhile keyAt (rep.sorted_level level) key member
  · intro x member
    simpa using lt_of_mem_below member

/-- The others come behind them. -/
theorem rest_eq_filter (rep : Represents compare list levels keyAt)
    (order : WeakOrder (Lt compare)) (key : Key) (level : Nat) :
    rest compare levels keyAt key level =
      (levels level).filter fun x => ¬ compare (keyAt x) key < 0 := by
  conv_rhs => rw [← below_append_rest compare levels keyAt key level]
  rw [List.filter_append, List.filter_eq_nil_iff.mpr, List.filter_eq_self.mpr, List.nil_append]
  · intro x member
    simpa using order.not_lt_of_mem_dropWhile keyAt (rep.sorted_level level) key member
  · intro x member
    simpa using lt_of_mem_below member

/-- A node on a level is on the one below as well. -/
theorem insertedLevels_nested (rep : Represents compare list levels keyAt)
    (order : WeakOrder (Lt compare)) (key : Key) (x height level : Nat) :
    (insertedLevels compare levels keyAt key x height (level + 1)).Sublist
      (insertedLevels compare levels keyAt key x height level) := by
  unfold insertedLevels
  split_ifs with upper lower lower
  · rw [below_eq_filter rep order, below_eq_filter rep order, rest_eq_filter rep order,
      rest_eq_filter rep order]
    exact ((rep.nested level).filter _).append (((rep.nested level).filter _).cons_cons x)
  · omega
  · refine (rep.nested level).trans ?_
    conv_lhs => rw [← below_append_rest compare levels keyAt key level]
    exact (List.Sublist.refl _).append (List.sublist_cons_self _ _)
  · exact rep.nested level

/-- On no level nothing changes. -/
theorem insertedLevels_none (compare : Key → Key → Int) (levels : Nat → List Nat)
    (keyAt : Nat → Key) (key : Key) (x : Nat) :
    insertedLevels compare levels keyAt key x 0 = levels := by
  funext level
  exact if_neg (Nat.not_lt_zero level)

/-- The key of the new node does not change the keys of the old ones. -/
theorem map_update_levels (rep : Represents compare list levels keyAt) (key : Key) :
    (levels 0).map (Function.update keyAt list.nodes.length key) = (levels 0).map keyAt := by
  refine List.map_congr_left fun x member => ?_
  have := (rep.inside x member).2
  exact Function.update_of_ne (by omega) _ _

/-- The keys on level 0 after insertion. -/
theorem map_insertedLevels (rep : Represents compare list levels keyAt) (key : Key)
    {height : Nat} (positive : 0 < height) :
    (insertedLevels compare levels keyAt key list.nodes.length height 0).map
        (Function.update keyAt list.nodes.length key) =
      ((levels 0).map keyAt).orderedInsert (WeakOrder.Before (Lt compare)) key := by
  have fresh : ∀ x ∈ levels 0, Function.update keyAt list.nodes.length key x = keyAt x := by
    intro x member
    have := (rep.inside x member).2
    exact Function.update_of_ne (by omega) _ _
  have freshBelow : (below compare levels keyAt key 0).map
      (Function.update keyAt list.nodes.length key) =
        (below compare levels keyAt key 0).map keyAt :=
    List.map_congr_left fun x member => fresh x (List.takeWhile_subset _ member)
  have freshRest : (rest compare levels keyAt key 0).map
      (Function.update keyAt list.nodes.length key) =
        (rest compare levels keyAt key 0).map keyAt :=
    List.map_congr_left fun x member => fresh x (List.dropWhile_subset _ member)
  rw [insertedLevels, if_pos positive, List.map_append, List.map_cons, freshBelow, freshRest,
    Function.update_self, WeakOrder.orderedInsert_eq, List.takeWhile_map, List.dropWhile_map]
  rfl

/-- On a level are the new node and those that were there. -/
theorem mem_insertedLevels {key : Key} {new done level x : Nat}
    (member : x ∈ insertedLevels compare levels keyAt key new done level) :
    x = new ∨ x ∈ levels level := by
  unfold insertedLevels at member
  split_ifs at member
  · rw [List.mem_append, List.mem_cons] at member
    rw [← below_append_rest compare levels keyAt key level, List.mem_append]
    tauto
  · exact Or.inr member

/-- At every moment of the linking loop the links represent the levels that are done with
the new node and the others without it. -/
theorem Linked.represents (rep : Represents compare list levels keyAt)
    (order : WeakOrder (Lt compare)) {key : Key} {height done : Nat} {current : SkipList Key}
    (linked : Linked compare levels keyAt key list.nodes.length height
      (newNode { list with maxHeight := max list.maxHeight height } key height) current done)
    (doneBound : done ≤ height) (heightBound : height ≤ kMaxHeight) :
    Represents compare current
      (insertedLevels compare levels keyAt key list.nodes.length done)
      (Function.update keyAt list.nodes.length key) := by
  have size : current.nodes.length = list.nodes.length + 1 := by
    rw [linked.size]
    simp [newNode]
  have maxHeight : current.maxHeight = max list.maxHeight height := linked.maxHeight
  constructor
  case chain =>
    intro level inBound
    unfold insertedLevels
    split_ifs with isDone
    · exact linked.done level inBound isDone
    · exact linked.todo level inBound (by omega)
  case nested =>
    exact insertedLevels_nested rep order key _ done
  case above =>
    intro level higher
    rw [insertedLevels, if_neg (by omega)]
    exact rep.above level (by omega)
  case keyed =>
    intro x member
    rw [linked.keys x, keyOf_newNode]
    rcases mem_insertedLevels member with rfl | old
    · rw [if_pos rfl, Function.update_self]
    · have inside := (rep.inside x old).2
      rw [if_neg (by simpa using Nat.ne_of_lt inside),
        Function.update_of_ne (Nat.ne_of_lt inside)]
      exact rep.keyed x old
  case sorted =>
    rcases Nat.eq_zero_or_pos done with rfl | positive
    · rw [insertedLevels_none, map_update_levels rep]
      exact rep.sorted
    · rw [map_insertedLevels rep key positive]
      exact order.sorted_orderedInsert key rep.sorted
  case inside =>
    intro x member
    rcases mem_insertedLevels member with rfl | old
    · exact ⟨Nat.zero_lt_of_lt (rep.length_level_lt 0), by omega⟩
    · have inside := rep.inside x old
      exact ⟨inside.1, by omega⟩
  case distinct =>
    unfold insertedLevels
    split_ifs
    · refine (List.perm_middle.nodup_iff).mpr (List.nodup_cons.mpr ⟨fun member => ?_, ?_⟩)
      · rw [below_append_rest] at member
        exact Nat.lt_irrefl _ (rep.inside _ member).2
      · rw [below_append_rest]
        exact rep.distinct
    · exact rep.distinct
  case minHeight =>
    have := rep.minHeight
    omega
  case heightBound =>
    have := rep.heightBound
    omega

/-- `Insert` succeeds and puts the new node in front of the first node whose key
is not below its own, on every level below its height. -/
theorem insert_represents (rep : Represents compare list levels keyAt)
    (order : WeakOrder (Lt compare)) (key : Key) {height : Nat}
    (heightBound : height ≤ kMaxHeight) :
    ∃ after, list.insert compare key height = some after ∧
      Represents compare after
        (insertedLevels compare levels keyAt key list.nodes.length height)
        (Function.update keyAt list.nodes.length key) := by
  obtain ⟨prev, searched, recorded⟩ := rep.findGreaterOrEqual_spec order key
  obtain ⟨after, ran, linked⟩ := (Linked.start rep key height (max list.maxHeight height)).run rep
    heightBound (patchPrev_spec rep heightBound recorded) height le_rfl
  refine ⟨after, ?_, linked.represents rep order le_rfl heightBound⟩
  simp only [insert, searched]
  exact ran

/-! ### The skip list as a sorted list of keys -/

/-- A well-formed skip list that holds exactly these keys, in this order. -/
def Holds (compare : Key → Key → Int) (list : SkipList Key) (keys : List Key) : Prop :=
  ∃ levels keyAt, Represents compare list levels keyAt ∧ (levels 0).map keyAt = keys

/-- A new skip list holds nothing. -/
theorem new_holds [Inhabited Key] (compare : Key → Key → Int) : Holds compare new [] := by
  refine ⟨fun _ => [], fun _ => default, ?_, rfl⟩
  constructor
  case chain =>
    intro level inBound
    have present : (List.replicate kMaxHeight (some (none : Option Nat)))[level]? =
        some (some none) := List.getElem?_replicate_of_lt inBound
    simp [LinkChain, next, new, head, present]
  all_goals simp [new, kMaxHeight]

/-- Insertion puts the key in front of the first key that is not below it. -/
theorem insert_holds {keys : List Key} (holds : Holds compare list keys)
    (order : WeakOrder (Lt compare)) (key : Key) {height : Nat} (positive : 1 ≤ height)
    (heightBound : height ≤ kMaxHeight) :
    ∃ after, list.insert compare key height = some after ∧
      Holds compare after (keys.orderedInsert (WeakOrder.Before (Lt compare)) key) := by
  obtain ⟨levels, keyAt, rep, rfl⟩ := holds
  obtain ⟨after, inserted, repAfter⟩ := insert_represents rep order key heightBound
  exact ⟨after, inserted, _, _, repAfter, map_insertedLevels rep key positive⟩

/-- `Seek` stands on the first key that is not below the target. -/
theorem seek_holds {keys : List Key} (holds : Holds compare list keys)
    (order : WeakOrder (Lt compare)) (target : Key) :
    ∃ node, list.seek compare target = some node ∧
      node.map list.keyOf = ((keys.dropWhile fun k => compare k target < 0).head?).map some := by
  obtain ⟨levels, keyAt, rep, rfl⟩ := holds
  obtain ⟨prev, searched, -⟩ := rep.findGreaterOrEqual_spec order target
  refine ⟨(rest compare levels keyAt target 0).head?, by simp [seek, searched], ?_⟩
  have mapped : ((levels 0).map keyAt).dropWhile (fun k => compare k target < 0) =
      (rest compare levels keyAt target 0).map keyAt := by
    rw [List.dropWhile_map]
    rfl
  rw [mapped, List.head?_map]
  cases found : (rest compare levels keyAt target 0).head? with
  | none => rfl
  | some x =>
    have member := List.dropWhile_subset _ (List.mem_of_mem_head? found)
    simp [rep.keyed x member]

/-- Walking a chain with `Next` meets the keys of its nodes in order. -/
theorem scanFrom_chain (ids : List Nat) {x : Nat}
    (chain : LinkChain (list.next 0) x ids) (keyed : ∀ y ∈ ids, list.keyOf y = some (keyAt y))
    {fuel : Nat} (budget : ids.length ≤ fuel) :
    list.scanFrom fuel ids.head? = some (ids.map keyAt) := by
  induction ids generalizing x fuel with
  | nil => cases fuel <;> rfl
  | cons y ys inductionHypothesis =>
    obtain ⟨fuel, rfl⟩ : ∃ spare, fuel = spare + 1 := ⟨fuel - 1, by simp at budget; omega⟩
    have read := @LinkChain.next_getLastD _ _ y [] ys chain.2
    have tail := inductionHypothesis chain.2
      (fun z member => keyed z (List.mem_cons_of_mem _ member)) (by simpa using budget)
    have following : list.iterNext y = some ys.head? := read
    simp [scanFrom, keyed y (List.mem_cons_self ..), following, tail]

/-- A full forward iteration yields the keys held. -/
theorem scan_holds {keys : List Key} (holds : Holds compare list keys) :
    list.scan = some keys := by
  obtain ⟨levels, keyAt, rep, rfl⟩ := holds
  have chain := rep.chain 0 (by decide)
  have first : list.seekToFirst = some (levels 0).head? :=
    @LinkChain.next_getLastD _ _ head [] (levels 0) chain
  have walked := scanFrom_chain (levels 0) chain rep.keyed (Nat.le_of_lt (rep.length_level_lt 0))
  simp only [scan, first]
  exact walked

end LevelDbXy.SkipList
