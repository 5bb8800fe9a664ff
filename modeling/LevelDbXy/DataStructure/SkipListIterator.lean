import LevelDbXy.DataStructure.SkipListInsert

/-!
# Skip-list iterators

`FindLessThan` and `FindLast` descend through the levels like the search for a key does,
with other stop conditions. Both are instances of one descent, which ends on the last
node of level 0 that it may pass. With strictly sorted keys the iterator then
moves like a cursor over the nodes of level 0 (`iterRun_follows`), so over the keys held
(`iterRun_holds`).
-/

namespace LevelDbXy.SkipList

variable {Key : Type} {compare : Key → Key → Int} {list : SkipList Key}
  {levels : Nat → List Nat} {keyAt : Nat → Key}

/-! ### One descent -/

/-- The nodes that a descent passes: on every level a front part, whose nodes are
accepted and stood on. -/
structure Passes (list : SkipList Key) (levels : Nat → List Nat)
    (check ahead : Nat → Option Bool) (passed : Nat → Bool) : Prop where
  accepts : ∀ x ∈ levels 0, ahead x = some (passed x)
  atHead : check head = some true
  onNode : ∀ x ∈ levels 0, passed x = true → check x = some true
  front : ∀ level, ∀ x ∈ (levels level).dropWhile passed, passed x = false

variable {check ahead : Nat → Option Bool} {passed : Nat → Bool}

/-- The descent moves along its level while the next node is accepted. -/
theorem descend_forward {level x y : Nat} (fuel : Nat) (checked : check x = some true)
    (read : list.next level x = some (some y)) (accepted : ahead y = some true) :
    descend list check ahead (fuel + 1) level x = descend list check ahead fuel level y := by
  simp [descend, checked, read, accepted]

/-- Otherwise it goes down, or stops on level 0. -/
theorem descend_down {level x : Nat} {target : Option Nat} (fuel : Nat)
    (checked : check x = some true) (read : list.next level x = some target)
    (refused : target.elim (some false) ahead = some false) :
    descend list check ahead (fuel + 1) level x =
      if level = 0 then some x else descend list check ahead fuel (level - 1) x := by
  simp [descend, checked, read, refused]

namespace Represents

variable (rep : Represents compare list levels keyAt)
  (passes : Passes list levels check ahead passed)

include rep passes

/-- The assertion holds wherever the descent may stand. -/
theorem check_last {level : Nat} {before after : List Nat}
    (position : (levels level).takeWhile passed = before ++ after) :
    check (before.getLastD head) = some true := by
  rcases List.mem_cons.mp (@List.getLastD_mem_cons _ before head) with atHead | inFront
  · rw [atHead]
    exact passes.atHead
  · have member : before.getLastD head ∈ (levels level).takeWhile passed := by
      rw [position]
      exact List.mem_append_left _ inFront
    exact passes.onNode _ ((rep.sublist_zero level).subset (List.takeWhile_subset _ member))
      (List.mem_takeWhile_imp member)

/-- A run along one level ends behind the last accepted node. -/
theorem descend_along {level : Nat} (inHeight : level < kMaxHeight) (before after : List Nat)
    (fuel : Nat) (position : (levels level).takeWhile passed = before ++ after) :
    descend list check ahead (after.length + fuel) level (before.getLastD head) =
      descend list check ahead fuel level (((levels level).takeWhile passed).getLastD head) := by
  induction after generalizing before with
  | nil => simp [position]
  | cons y after inductionHypothesis =>
    have chain := rep.chain level inHeight
    have member : y ∈ (levels level).takeWhile passed := by simp [position]
    have listed := (rep.sublist_zero level).subset (List.takeWhile_subset _ member)
    have accepted : ahead y = some true := by
      rw [passes.accepts y listed, List.mem_takeWhile_imp member]
    have read : list.next level (before.getLastD head) = some (some y) := by
      rw [← @List.takeWhile_append_dropWhile _ passed (levels level), position,
        List.append_assoc] at chain
      simpa using chain.next_getLastD
    have moved := inductionHypothesis (before ++ [y]) (by simpa using position)
    rw [List.getLastD_concat] at moved
    rw [List.length_cons, Nat.add_right_comm,
      descend_forward _ (rep.check_last passes position) read accepted, moved]

/-- The link behind the last accepted node leads to one that is refused. -/
theorem next_last_passed {level : Nat} (inHeight : level < kMaxHeight) :
    list.next level (((levels level).takeWhile passed).getLastD head) =
        some ((levels level).dropWhile passed).head? ∧
      ((levels level).dropWhile passed).head?.elim (some false) ahead = some false := by
  have chain := rep.chain level inHeight
  rw [← @List.takeWhile_append_dropWhile _ passed (levels level)] at chain
  refine ⟨chain.next_getLastD, ?_⟩
  cases found : ((levels level).dropWhile passed).head? with
  | none => rfl
  | some y =>
    have member : y ∈ (levels level).dropWhile passed := List.mem_of_mem_head? found
    have listed := (rep.sublist_zero level).subset (List.dropWhile_subset _ member)
    rw [Option.elim_some, passes.accepts y listed, passes.front level y member]

/-- The descent ends on the last node of level 0 that it may pass. -/
theorem descend_spec (level : Nat) (inHeight : level < kMaxHeight) (before after : List Nat)
    (fuel : Nat) (position : (levels level).takeWhile passed = before ++ after)
    (budget : (level + 1) * list.nodes.length ≤ fuel) :
    descend list check ahead fuel level (before.getLastD head) =
      some (((levels 0).takeWhile passed).getLastD head) := by
  induction level generalizing before after fuel with
  | zero =>
    obtain ⟨read, refused⟩ := rep.next_last_passed passes inHeight
    have short := rep.length_passed_lt position
    obtain ⟨spare, rfl⟩ : ∃ spare, fuel = after.length + (spare + 1) :=
      ⟨fuel - after.length - 1, by omega⟩
    have checked := @check_last _ _ _ _ _ _ _ _ rep passes 0
      ((levels 0).takeWhile passed) [] (List.append_nil _).symm
    rw [rep.descend_along passes inHeight before after _ position,
      descend_down _ checked read refused, if_pos rfl]
  | succ level levelHypothesis =>
    obtain ⟨read, refused⟩ := rep.next_last_passed passes inHeight
    have short := rep.length_passed_lt position
    rw [Nat.succ_mul] at budget
    obtain ⟨spare, rfl⟩ : ∃ spare, fuel = after.length + (spare + 1) :=
      ⟨fuel - after.length - 1, by omega⟩
    have checked := @check_last _ _ _ _ _ _ _ _ rep passes (level + 1)
      ((levels (level + 1)).takeWhile passed) [] (List.append_nil _).symm
    obtain ⟨lower, further, split, same⟩ := rep.exists_takeWhile_split passes.front level
    rw [rep.descend_along passes inHeight before after _ position,
      descend_down _ checked read refused, if_neg (by omega), ← same, Nat.add_sub_cancel]
    exact levelHypothesis (by omega) lower further spare split (by omega)

/-- The whole descent, from the head on the highest level in use. -/
theorem descend_head :
    descend list check ahead list.searchBudget (list.maxHeight - 1) head =
      some (((levels 0).takeWhile passed).getLastD head) := by
  have low := rep.minHeight
  have high := rep.heightBound
  have top : list.maxHeight - 1 + 1 = list.maxHeight := by omega
  exact rep.descend_spec passes (list.maxHeight - 1) (by omega) [] _ list.searchBudget rfl
    (by rw [top, searchBudget])

end Represents

/-! ### The two searches -/

/-- With strictly sorted keys, the nodes in front of a node are those below its key. -/
theorem below_getElem (order : WeakOrder (Lt compare))
    (strict : ((levels 0).map keyAt).Pairwise (Lt compare)) {i : Nat}
    (inRange : i < (levels 0).length) :
    below compare levels keyAt (keyAt (levels 0)[i]) 0 = (levels 0).take i := by
  have split := List.take_append_drop i (levels 0)
  rw [List.drop_eq_getElem_cons inRange] at split
  rw [List.pairwise_map, ← split, List.pairwise_append] at strict
  generalize (levels 0)[i] = node at split strict ⊢
  rw [below, ← split, List.takeWhile_append_of_pos, List.takeWhile_cons_of_neg, List.append_nil,
    split]
  · simpa using order.irrefl (keyAt node)
  · intro x member
    simpa using strict.2.2 x member _ (List.mem_cons_self ..)

namespace Represents

variable (rep : Represents compare list levels keyAt)

include rep

/-- `FindLessThan` ends on the last node of level 0 below the key. -/
theorem findLessThan_spec (order : WeakOrder (Lt compare)) (key : Key) :
    list.findLessThan compare key =
      some ((below compare levels keyAt key 0).getLastD head) := by
  refine rep.descend_head (?_ : Passes list levels _ _ fun x => compare (keyAt x) key < 0)
  constructor
  · intro x member
    simp only [rep.keyed x member, Option.map_some, ← decide_not, Int.not_le]
  · simp
  · intro x member smaller
    have notHead : x ≠ head := by
      have := (rep.inside x member).1
      omega
    simpa [notHead, rep.keyed x member] using smaller
  · intro level x member
    exact decide_eq_false
      (order.not_lt_of_mem_dropWhile keyAt (rep.sorted_level level) key member)

/-- `FindLast` ends on the last node of level 0. -/
theorem findLast_spec : list.findLast = some ((levels 0).getLastD head) := by
  have passes : Passes list levels (fun _ => some true) (fun _ => some true) fun _ => true := by
    refine ⟨fun _ _ => rfl, rfl, fun _ _ _ => rfl, fun level x member => ?_⟩
    rw [List.dropWhile_eq_nil_iff.mpr fun _ _ => rfl] at member
    cases member
  have whole : (levels 0).takeWhile (fun _ => true) = levels 0 :=
    List.takeWhile_eq_self_iff.mpr fun _ _ => rfl
  rw [findLast, rep.descend_head passes, whole]

/-! ### The iterator as a cursor -/

/-- The link of a node of level 0 leads to the one behind it. -/
theorem iterNext_getElem {i : Nat} (inRange : i < (levels 0).length) :
    list.iterNext (levels 0)[i] = some (levels 0)[i + 1]? := by
  have chain := rep.chain 0 (by decide)
  rw [← List.take_append_drop (i + 1) (levels 0)] at chain
  have last : ((levels 0).take (i + 1)).getLastD head = (levels 0)[i] := by
    rw [List.take_succ_eq_append_getElem inRange, List.getLastD_concat]
  have read := chain.next_getLastD
  rw [last, List.head?_drop] at read
  exact read

/-- The last node of a list, if it is not the head. -/
theorem notHead_getLastD {nodes : List Nat} (listed : ∀ x ∈ nodes, x ∈ levels 0) :
    notHead (nodes.getLastD head) = nodes.getLast? := by
  cases shape : nodes.getLast? with
  | none => simp [List.getLast?_eq_none_iff.mp shape, notHead]
  | some x =>
    have positive := (rep.inside x (listed x (List.mem_of_getLast? shape))).1
    have last : nodes.getLastD head = x := by simp [List.getLastD_eq_getLast?, shape]
    rw [last, notHead, if_neg (by omega)]

/-- `Prev` re-searches from the head and ends on the node in front. -/
theorem iterPrev_getElem (order : WeakOrder (Lt compare))
    (strict : ((levels 0).map keyAt).Pairwise (Lt compare)) {i : Nat}
    (inRange : i < (levels 0).length) :
    list.iterPrev compare (levels 0)[i] = some ((levels 0).take i).getLast? := by
  have keyed := rep.keyed _ (List.getElem_mem inRange)
  have found := rep.findLessThan_spec order (keyAt (levels 0)[i])
  rw [below_getElem order strict inRange] at found
  simp only [iterPrev, keyed, found, Option.bind_eq_bind, Option.bind_some]
  rw [rep.notHead_getLastD fun x member => List.mem_of_mem_take member]

/-- Every call moves the iterator as it moves a cursor over the nodes of level 0. -/
theorem iterStep_follows (order : WeakOrder (Lt compare))
    (strict : ((levels 0).map keyAt).Pairwise (Lt compare)) {position : Option Nat}
    (inRange : Cursor.InRange (levels 0) position) (call : Cursor.Call Key) :
    list.iterStep compare (position.bind ((levels 0)[·]?)) call =
      (Cursor.step (fun x target => decide (compare (keyAt x) target < 0)) (levels 0) position
        call).map (Option.bind · ((levels 0)[·]?)) := by
  cases call with
  | seekToFirst =>
    have read := @LinkChain.next_getLastD _ _ head [] (levels 0) (rep.chain 0 (by decide))
    rw [List.head?_eq_getElem?] at read
    simp only [iterStep, Cursor.step, Option.map_some]
    refine Eq.trans read (congrArg some ?_)
    split_ifs with some_node
    · rfl
    · exact List.getElem?_eq_none (by omega)
  | seekToLast =>
    simp only [iterStep, Cursor.step, seekToLast, rep.findLast_spec, Option.map_some,
      rep.notHead_getLastD fun x member => member, List.getLast?_eq_getElem?]
    refine congrArg some ?_
    split_ifs with some_node
    · rfl
    · exact List.getElem?_eq_none (by omega)
  | seek target =>
    obtain ⟨prev, searched, -⟩ := rep.findGreaterOrEqual_spec order target
    simp only [iterStep, Cursor.step, seek, searched, Option.map_some, rest,
      Cursor.head?_dropWhile]
  | next =>
    cases position with
    | none => rfl
    | some i =>
      have bound := inRange i rfl
      simp only [iterStep, Cursor.step, Option.map_some, Option.bind_some,
        List.getElem?_eq_getElem bound, rep.iterNext_getElem bound]
      refine congrArg some ?_
      split_ifs with further
      · rfl
      · exact List.getElem?_eq_none (by omega)
  | prev =>
    cases position with
    | none => rfl
    | some i =>
      have bound := inRange i rfl
      simp only [iterStep, Cursor.step, Option.map_some, Option.bind_some,
        List.getElem?_eq_getElem bound, rep.iterPrev_getElem order strict bound]
      refine congrArg some ?_
      split_ifs with first
      · simp [first]
      · rw [List.getLast?_eq_getElem?, List.length_take, List.getElem?_take]
        simp only [Option.bind_some]
        rw [if_pos (by omega), Nat.min_eq_left (by omega)]

/-- A whole run of calls on a new iterator. -/
theorem iterRun_follows (order : WeakOrder (Lt compare))
    (strict : ((levels 0).map keyAt).Pairwise (Lt compare)) (calls : List (Cursor.Call Key)) :
    list.iterRun compare calls =
      (Cursor.run (fun x target => decide (compare (keyAt x) target < 0)) (levels 0) none
        calls).map (Option.bind · ((levels 0)[·]?)) :=
  Cursor.run_follows (fun _ inRange call => rep.iterStep_follows order strict inRange call) calls
    (Cursor.inRange_none (levels 0))

end Represents

/-- In terms of the keys held, an iterator is a cursor over their list. -/
theorem iterRun_holds {keys : List Key} (holds : Holds compare list keys)
    (order : WeakOrder (Lt compare)) (strict : keys.Pairwise (Lt compare))
    (calls : List (Cursor.Call Key)) :
    (list.iterRun compare calls).map (Option.map list.keyOf) =
      (Cursor.run (fun key target => decide (compare key target < 0)) keys none calls).map
        fun position => position.bind fun i => keys[i]?.map some := by
  obtain ⟨levels, keyAt, rep, rfl⟩ := holds
  have renamed := @Cursor.run_map _ _ _ _ (fun x target => decide (compare (keyAt x) target < 0))
    (fun key target => decide (compare key target < 0)) keyAt id (levels 0) calls
    (fun _ _ _ _ => rfl) none
  rw [Cursor.map_map_id] at renamed
  rw [renamed, rep.iterRun_follows order strict calls, Option.map_map]
  refine congrArg (Option.map · _) (funext fun position => ?_)
  cases position with
  | none => rfl
  | some i =>
    simp only [Function.comp_apply, Option.bind_some, List.getElem?_map, Option.map_map]
    cases found : (levels 0)[i]? with
    | none => rfl
    | some x => simp [rep.keyed x (List.mem_of_getElem? found)]

end LevelDbXy.SkipList
