import LevelDbXy.DataStructure.SkipList
import Mathlib.Data.List.TakeWhile

/-!
# What a skip list represents, and what its search finds

`Represents` ties the links of a skip list to the node lists of its levels. The
search for a key splits every level into the nodes strictly below the key and
the rest (`below`, `rest`); `findGreaterOrEqual_spec` says that it returns the
first node of the rest on level 0 and leaves, for every level it visited, the
last node below the key in `prev`.
-/

namespace LevelDbXy.SkipList

variable {Key : Type} {compare : Key → Key → Int} {list : SkipList Key}
  {levels : Nat → List Nat} {keyAt : Nat → Key}

/-- The strict order that the searches test. -/
abbrev Lt (compare : Key → Key → Int) (a b : Key) : Prop := compare a b < 0

/-- The level lists of a well-formed skip list and the keys of their nodes. -/
structure Represents (compare : Key → Key → Int) (list : SkipList Key)
    (levels : Nat → List Nat) (keyAt : Nat → Key) : Prop where
  /-- Each level is the chain of its links, from the head to null. -/
  chain : ∀ level < kMaxHeight, LinkChain (list.next level) head (levels level)
  nested : ∀ level, (levels (level + 1)).Sublist (levels level)
  above : ∀ level, list.maxHeight ≤ level → levels level = []
  keyed : ∀ x ∈ levels 0, list.keyOf x = some (keyAt x)
  sorted : ((levels 0).map keyAt).Pairwise (WeakOrder.Before (Lt compare))
  /-- Level 0 lists allocated nodes other than the head, each once. -/
  inside : ∀ x ∈ levels 0, head < x ∧ x < list.nodes.length
  distinct : (levels 0).Nodup
  minHeight : 1 ≤ list.maxHeight
  heightBound : list.maxHeight ≤ kMaxHeight

/-- The nodes of a level whose keys are strictly below `key`. -/
def below (compare : Key → Key → Int) (levels : Nat → List Nat) (keyAt : Nat → Key) (key : Key)
    (level : Nat) : List Nat :=
  (levels level).takeWhile fun x => compare (keyAt x) key < 0

/-- The nodes of a level whose keys are not below `key`. -/
def rest (compare : Key → Key → Int) (levels : Nat → List Nat) (keyAt : Nat → Key) (key : Key)
    (level : Nat) : List Nat :=
  (levels level).dropWhile fun x => compare (keyAt x) key < 0

/-- The two parts are the level. -/
theorem below_append_rest (compare : Key → Key → Int) (levels : Nat → List Nat)
    (keyAt : Nat → Key) (key : Key) (level : Nat) :
    below compare levels keyAt key level ++ rest compare levels keyAt key level = levels level :=
  List.takeWhile_append_dropWhile

/-- The keys of the first part are smaller. -/
theorem lt_of_mem_below {key : Key} {level x : Nat}
    (member : x ∈ below compare levels keyAt key level) : compare (keyAt x) key < 0 := by
  simpa using List.mem_takeWhile_imp member

/-- The search moves along its level while the next key is smaller. -/
theorem findGreaterOrEqualLoop_forward {key : Key} {level x y : Nat} (fuel : Nat)
    (prev : List (Option Nat)) (read : list.next level x = some (some y))
    (smaller : list.keyIsAfterNode compare key (some y) = some true) :
    findGreaterOrEqualLoop compare list key (fuel + 1) level x prev =
      findGreaterOrEqualLoop compare list key fuel level y prev := by
  simp [findGreaterOrEqualLoop, read, smaller]

/-- Otherwise it records where it stands and goes down, or stops on level 0. -/
theorem findGreaterOrEqualLoop_down {key : Key} {level x : Nat} {target : Option Nat} (fuel : Nat)
    (prev : List (Option Nat)) (read : list.next level x = some target)
    (notSmaller : list.keyIsAfterNode compare key target = some false) :
    findGreaterOrEqualLoop compare list key (fuel + 1) level x prev =
      if level = 0 then some (target, prev.set level (some x))
      else
        findGreaterOrEqualLoop compare list key fuel (level - 1) x (prev.set level (some x)) := by
  simp [findGreaterOrEqualLoop, read, notSmaller]

namespace Represents

variable (rep : Represents compare list levels keyAt)

include rep

/-- Every level is a part of level 0. -/
theorem sublist_zero (level : Nat) : (levels level).Sublist (levels 0) := by
  induction level with
  | zero => exact List.Sublist.refl _
  | succ level inductionHypothesis => exact (rep.nested level).trans inductionHypothesis

/-- Every level is sorted. -/
theorem sorted_level (level : Nat) :
    ((levels level).map keyAt).Pairwise (WeakOrder.Before (Lt compare)) :=
  rep.sorted.sublist ((rep.sublist_zero level).map keyAt)

/-- No node is on a level twice, nor the head on any. -/
theorem distinct_level (level : Nat) : (head :: levels level).Nodup := by
  refine List.nodup_cons.mpr ⟨fun member => ?_, rep.distinct.sublist (rep.sublist_zero level)⟩
  have bounds := rep.inside head ((rep.sublist_zero level).subset member)
  omega

/-- Every level has room for its nodes besides the head. -/
theorem length_level_lt (level : Nat) : (levels level).length < list.nodes.length := by
  have bounded : ∀ x ∈ head :: levels level, x < list.nodes.length := by
    intro x member
    rcases List.mem_cons.mp member with rfl | member
    · have read := @LinkChain.next_getLastD _ _ head [] (levels 0) (rep.chain 0 (by decide))
      obtain ⟨node, found, -⟩ := hasSlot_of_next read
      exact (List.getElem?_eq_some_iff.mp found).1
    · exact (rep.inside x ((rep.sublist_zero level).subset member)).2
  have subset : (head :: levels level).Subperm (List.range list.nodes.length) :=
    List.subperm_of_subset (rep.distinct_level level) fun x member =>
      List.mem_range.mpr (bounded x member)
  have lengths := subset.length_le
  rw [List.length_cons, List.length_range] at lengths
  exact lengths

/-- The link behind the last smaller node leads to the first node that is not
smaller, which the search's test rejects. -/
theorem next_last_below (order : WeakOrder (Lt compare)) (key : Key) {level : Nat}
    (inHeight : level < kMaxHeight) :
    list.next level ((below compare levels keyAt key level).getLastD head) =
        some (rest compare levels keyAt key level).head? ∧
      list.keyIsAfterNode compare key (rest compare levels keyAt key level).head? =
        some false := by
  have chain := rep.chain level inHeight
  rw [← below_append_rest compare levels keyAt key level] at chain
  refine ⟨chain.next_getLastD, ?_⟩
  cases found : (rest compare levels keyAt key level).head? with
  | none => rfl
  | some y =>
    have member : y ∈ rest compare levels keyAt key level := List.mem_of_mem_head? found
    have notBelow := order.not_lt_of_mem_dropWhile keyAt (rep.sorted_level level) key member
    have listed := (rep.sublist_zero level).subset (List.dropWhile_subset _ member)
    simp [keyIsAfterNode, rep.keyed y listed, notBelow]

/-- The last node of a front part of some level also precedes a position of the level
below. -/
theorem exists_takeWhile_split {passed : Nat → Bool}
    (front : ∀ level, ∀ x ∈ (levels level).dropWhile passed, passed x = false) (level : Nat) :
    ∃ before after, (levels level).takeWhile passed = before ++ after ∧
      before.getLastD head = ((levels (level + 1)).takeWhile passed).getLastD head := by
  cases shape : ((levels (level + 1)).takeWhile passed).getLast? with
  | none =>
    refine ⟨[], (levels level).takeWhile passed, rfl, ?_⟩
    simp [shape]
  | some y =>
    have member : y ∈ (levels (level + 1)).takeWhile passed := List.mem_of_getLast? shape
    have listed := (rep.nested level).subset (List.takeWhile_subset _ member)
    have lower : y ∈ (levels level).takeWhile passed := by
      rw [← @List.takeWhile_append_dropWhile _ passed (levels level)] at listed
      rcases List.mem_append.mp listed with passedHere | refused
      · exact passedHere
      · have passes := List.mem_takeWhile_imp member
        rw [front level y refused] at passes
        cases passes
    obtain ⟨before, after, split⟩ := List.append_of_mem lower
    refine ⟨before ++ [y], after, by simpa using split, ?_⟩
    simp [shape]

/-- Fewer nodes are left on a level than there are nodes. -/
theorem length_passed_lt {passed : Nat → Bool} {level : Nat} {before after : List Nat}
    (position : (levels level).takeWhile passed = before ++ after) :
    after.length < list.nodes.length := by
  have room := rep.length_level_lt level
  have lengths := congrArg List.length (@List.takeWhile_append_dropWhile _ passed (levels level))
  rw [position] at lengths
  simp only [List.length_append] at lengths
  omega

/-- A node in front of which the search may stand on some level also precedes
a position of the level below. -/
theorem exists_below_split (order : WeakOrder (Lt compare)) (key : Key) (level : Nat) :
    ∃ before after, below compare levels keyAt key level = before ++ after ∧
      before.getLastD head = (below compare levels keyAt key (level + 1)).getLastD head :=
  rep.exists_takeWhile_split (fun level _ member => decide_eq_false
    (order.not_lt_of_mem_dropWhile keyAt (rep.sorted_level level) key member)) level

/-- A run along one level ends behind the last smaller node. -/
theorem findGreaterOrEqualLoop_along (key : Key) {level : Nat} (inHeight : level < kMaxHeight)
    (before after : List Nat) (fuel : Nat) (prev : List (Option Nat))
    (position : below compare levels keyAt key level = before ++ after) :
    findGreaterOrEqualLoop compare list key (after.length + fuel) level (before.getLastD head)
        prev =
      findGreaterOrEqualLoop compare list key fuel level
        ((below compare levels keyAt key level).getLastD head) prev := by
  induction after generalizing before with
  | nil => simp [position]
  | cons y after inductionHypothesis =>
    have chain := rep.chain level inHeight
    have member : y ∈ below compare levels keyAt key level := by simp [position]
    have listed := (rep.sublist_zero level).subset (List.takeWhile_subset _ member)
    rw [← below_append_rest compare levels keyAt key level, position, List.append_assoc] at chain
    have smaller : list.keyIsAfterNode compare key (some y) = some true := by
      simp [keyIsAfterNode, rep.keyed y listed, lt_of_mem_below member]
    rw [List.length_cons, Nat.add_right_comm, findGreaterOrEqualLoop_forward _ _
      (by simpa using chain.next_getLastD) smaller]
    have moved := inductionHypothesis (before ++ [y]) (by simpa using position)
    rwa [List.getLastD_concat] at moved

/-- The search loop, from any node below the key on any level. -/
theorem findGreaterOrEqualLoop_spec (order : WeakOrder (Lt compare)) (key : Key) (level : Nat)
    (inHeight : level < kMaxHeight) (before after : List Nat) (fuel : Nat)
    (prev : List (Option Nat))
    (position : below compare levels keyAt key level = before ++ after)
    (budget : (level + 1) * list.nodes.length ≤ fuel)
    (prevLength : prev.length = kMaxHeight) :
    ∃ prev', findGreaterOrEqualLoop compare list key fuel level (before.getLastD head) prev =
        some ((rest compare levels keyAt key 0).head?, prev') ∧
      ∀ l, prev'[l]? = if l ≤ level then
        some (some ((below compare levels keyAt key l).getLastD head)) else prev[l]? := by
  induction level generalizing before after fuel prev with
  | zero =>
    obtain ⟨read, notSmaller⟩ := rep.next_last_below order key inHeight
    have short := rep.length_passed_lt position
    obtain ⟨spare, rfl⟩ : ∃ spare, fuel = after.length + (spare + 1) :=
      ⟨fuel - after.length - 1, by omega⟩
    rw [rep.findGreaterOrEqualLoop_along key inHeight before after _ _ position,
      findGreaterOrEqualLoop_down _ _ read notSmaller, if_pos rfl]
    refine ⟨_, rfl, fun l => ?_⟩
    rw [List.getElem?_set]
    rcases Nat.eq_zero_or_pos l with rfl | positive
    · simp [prevLength, inHeight]
    · rw [if_neg (by omega), if_neg (by omega)]
  | succ level levelHypothesis =>
    obtain ⟨read, notSmaller⟩ := rep.next_last_below order key inHeight
    have short := rep.length_passed_lt position
    rw [Nat.succ_mul] at budget
    obtain ⟨spare, rfl⟩ : ∃ spare, fuel = after.length + (spare + 1) :=
      ⟨fuel - after.length - 1, by omega⟩
    -- the search goes on below from the node it stands on
    obtain ⟨lower, further, split, same⟩ := rep.exists_below_split order key level
    rw [rep.findGreaterOrEqualLoop_along key inHeight before after _ _ position,
      findGreaterOrEqualLoop_down _ _ read notSmaller, if_neg (by omega), ← same,
      Nat.add_sub_cancel]
    obtain ⟨prev', found, recorded⟩ := levelHypothesis (by omega) lower further spare
      (prev.set (level + 1) (some (lower.getLastD head))) split (by omega)
      (by rwa [List.length_set])
    refine ⟨prev', found, fun l => ?_⟩
    rw [recorded l, List.getElem?_set]
    rcases Nat.lt_trichotomy l (level + 1) with lower | rfl | higher
    · rw [if_pos (by omega), if_pos (by omega)]
    · rw [same]
      simp [prevLength, inHeight]
    · rw [if_neg (by omega), if_neg (by omega), if_neg (by omega)]

/-- The search finds the first node on level 0 whose key is not below the target
and records, for every level in use, the last node that is. -/
theorem findGreaterOrEqual_spec (order : WeakOrder (Lt compare)) (key : Key) :
    ∃ prev, list.findGreaterOrEqual compare key =
        some ((rest compare levels keyAt key 0).head?, prev) ∧
      ∀ l, prev[l]? = if l < list.maxHeight then
        some (some ((below compare levels keyAt key l).getLastD head))
        else (List.replicate kMaxHeight none)[l]? := by
  have low := rep.minHeight
  have high := rep.heightBound
  have top : list.maxHeight - 1 + 1 = list.maxHeight := by omega
  obtain ⟨prev, found, recorded⟩ := rep.findGreaterOrEqualLoop_spec order key
    (list.maxHeight - 1) (by omega) [] _ list.searchBudget (List.replicate kMaxHeight none) rfl
    (by rw [top, searchBudget]) (List.length_replicate ..)
  refine ⟨prev, found, fun l => ?_⟩
  rw [recorded l]
  by_cases inUse : l < list.maxHeight
  · rw [if_pos (by omega), if_pos inUse]
  · rw [if_neg (by omega), if_neg inUse]

end Represents

end LevelDbXy.SkipList
