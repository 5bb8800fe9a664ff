import LevelDbXy.DataStructure.SkipListMemory

/-!
# The operations on a skip list in memory

Each operation on the memory does what the one on the list does that the memory shows: a
search stands on the addresses of the nodes that the list's search stands on, and an insertion
leaves a memory that shows the list after it. A budget that is larger does no harm.
-/

namespace LevelDbXy.StoredSkipList

open FlatMemory

/-- The comparator reads what its arguments point to, a key of the table and a target. -/
def Reads (compareAt : Memory → Nat → Nat → Int) (compare : Bytes → Bytes → Int)
    (Good Target : Bytes → Prop) : Prop :=
  ∀ {memory p q a b}, Good a → Target b → Holds memory p a → Holds memory q b →
    compareAt memory p q = compare a b

/-- A call on an iterator whose target is the string that is pointed to. -/
inductive Targets (Target : Bytes → Prop) (memory : Memory) :
    Cursor.Call Nat → Cursor.Call Bytes → Prop where
  | seekToFirst : Targets Target memory .seekToFirst .seekToFirst
  | seekToLast : Targets Target memory .seekToLast .seekToLast
  | seek {target key} (good : Target key) (held : Holds memory target key) :
    Targets Target memory (.seek target) (.seek key)
  | next : Targets Target memory .next .next
  | prev : Targets Target memory .prev .prev

/-- The keys that the arena has returned regions for are not written to. -/
def KeepsKeys (returned : List Arena.Returned) (memory after : Memory) : Prop :=
  ∀ r ∈ returned, r.aligned = false → ∀ a, r.region.base ≤ a → a < r.region.base + r.region.size →
    after a = memory a

/-- What two changes keep both of them together keep. -/
theorem KeepsKeys.trans {returned : List Arena.Returned} {first second third : Memory}
    (early : KeepsKeys returned first second) (late : KeepsKeys returned second third) :
    KeepsKeys returned first third :=
  fun r listed isKey a low high =>
    (late r listed isKey a low high).trans (early r listed isKey a low high)

/-- A node is asked for with its key pointer and its links. -/
theorem bytes_nodeRequest {height : Nat} (positive : 1 ≤ height) (fresh : Nat) :
    (nodeRequest height fresh).bytes = 8 * (height + 1) := by
  simp only [nodeRequest, sizeofNode, sizeofLink]
  omega

namespace Shows

variable {Good Target : Bytes → Prop} {compareAt : Memory → Nat → Nat → Int}
  {compare : Bytes → Bytes → Int} {table : StoredSkipList} {list : SkipList Bytes}
  {place : Nat → Nat} {returned : List Arena.Returned}
  (shows_ : Shows Good table list place returned)

include shows_

/-! ### Searches -/

section Searches

variable (reads : Reads compareAt compare Good Target) {key : Bytes} {target : Nat}
  (good : Target key) (held : Holds table.memory target key)

omit shows_ in
/-- The address of a node. -/
theorem addressOf_some (x : Nat) : addressOf place (some x) = place x := rfl

/-- It is not the null pointer. -/
theorem addressOf_ne_zero {x : Nat} (inside : x < list.nodes.length) :
    (addressOf place (some x) != 0) = true := by
  have := (shows_.place_bounds inside).1
  simp only [addressOf_some, bne_iff_ne]
  omega

include reads good held

/-- The comparison with the key of a node. -/
theorem compareAt_keyOf {x : Nat} {nodeKey : Bytes} (keyed : list.keyOf x = some nodeKey) :
    compareAt table.memory (table.keyOf (place x)) target = compare nodeKey key := by
  obtain ⟨nodeGood, nodeHeld, -⟩ := shows_.key keyed
  exact reads nodeGood good nodeHeld held

/-- A comparison in memory is that of the keys. -/
theorem keyIsAfterNode {n : Option Nat} {after : Bool}
    (tested : list.keyIsAfterNode compare key n = some after) :
    table.keyIsAfterNode compareAt target (addressOf place n) = after := by
  cases n with
  | none =>
    obtain rfl := Option.some.inj tested
    rfl
  | some n =>
    obtain ⟨nodeKey, keyed, rfl⟩ := Option.map_eq_some_iff.mp tested
    rw [StoredSkipList.keyIsAfterNode, shows_.addressOf_ne_zero (hasNode_of_keyOf keyed),
      addressOf_some, shows_.compareAt_keyOf reads good held keyed, Bool.true_and]

/-- The search stands on the addresses of the nodes that the list's search stands on. -/
theorem findGreaterOrEqualLoop {fuel budget level x : Nat} {prev : List (Option Nat)}
    {found : Option Nat} {recorded : List (Option Nat)} (enough : fuel ≤ budget)
    (bounded : ∀ y, some y ∈ prev → y < list.nodes.length)
    (ran : SkipList.findGreaterOrEqualLoop compare list key fuel level x prev =
      some (found, recorded)) :
    StoredSkipList.findGreaterOrEqualLoop compareAt table target budget level (place x)
        (prev.map (Option.map place)) =
      some (addressOf place found, recorded.map (Option.map place)) ∧
        (∀ y, some y ∈ recorded → y < list.nodes.length) ∧
          ∀ y, found = some y → y < list.nodes.length := by
  induction fuel generalizing budget level x prev with
  | zero => cases ran
  | succ fuel inductionHypothesis =>
    obtain ⟨budget, rfl⟩ : ∃ smaller, budget = smaller + 1 := ⟨budget - 1, by omega⟩
    obtain ⟨next, read, tested⟩ := Option.bind_eq_some_iff.mp ran
    obtain ⟨after, isAfter, continued⟩ := Option.bind_eq_some_iff.mp tested
    obtain ⟨loaded, valid⟩ := shows_.link read
    have inside := hasNode_of_hasSlot (SkipList.hasSlot_of_next read)
    have mapped : (prev.map (Option.map place)).set level (some (place x)) =
        (prev.set level (some x)).map (Option.map place) := by rw [List.map_set, Option.map_some]
    have stillBounded : ∀ y, some y ∈ prev.set level (some x) → y < list.nodes.length := by
      intro y member
      rcases List.mem_or_eq_of_mem_set member with earlier | equal
      · exact bounded y earlier
      · obtain rfl := Option.some.inj equal
        exact inside
    have goesDown : (if level = 0 then some (next, prev.set level (some x))
        else SkipList.findGreaterOrEqualLoop compare list key fuel (level - 1) x
          (prev.set level (some x))) = some (found, recorded) →
        (if level = 0 then some (addressOf place next, (prev.map (Option.map place)).set level
            (some (place x)))
          else StoredSkipList.findGreaterOrEqualLoop compareAt table target budget (level - 1)
            (place x) ((prev.map (Option.map place)).set level (some (place x)))) =
          some (addressOf place found, recorded.map (Option.map place)) ∧
            (∀ y, some y ∈ recorded → y < list.nodes.length) ∧
              ∀ y, found = some y → y < list.nodes.length := by
      intro down
      rw [mapped]
      split at down
      next bottom =>
        obtain ⟨rfl, rfl⟩ := Prod.mk.inj (Option.some.inj down)
        rw [if_pos bottom]
        exact ⟨rfl, stillBounded, valid⟩
      next higher =>
        rw [if_neg higher]
        exact inductionHypothesis (by omega) stillBounded down
    rw [StoredSkipList.findGreaterOrEqualLoop, loaded,
      shows_.keyIsAfterNode reads good held isAfter]
    cases after with
    | false =>
      rw [if_neg Bool.false_ne_true]
      exact goesDown (by cases next <;> exact continued)
    | true =>
      rw [if_pos rfl]
      cases next with
      | none => cases isAfter
      | some y => exact inductionHypothesis (by omega) bounded continued

/-- The search in memory ends at the same node and records the same ones. -/
theorem findGreaterOrEqual {budget : Nat} {found : Option Nat} {recorded : List (Option Nat)}
    (enough : list.searchBudget ≤ budget)
    (ran : list.findGreaterOrEqual compare key = some (found, recorded)) :
    table.findGreaterOrEqual compareAt budget target =
        some (addressOf place found, recorded.map (Option.map place)) ∧
      (∀ y, some y ∈ recorded → y < list.nodes.length) ∧
        ∀ y, found = some y → y < list.nodes.length := by
  have nothing : (List.replicate kMaxHeight (none : Option Nat)).map (Option.map place) =
      List.replicate kMaxHeight none := List.map_replicate
  rw [StoredSkipList.findGreaterOrEqual, shows_.head, shows_.maxHeight, ← nothing]
  refine shows_.findGreaterOrEqualLoop reads good held enough ?_ ran
  intro y member
  cases (List.mem_replicate.mp member).2

end Searches

/-- The loop that goes down to the last node before something. -/
theorem descend {check ahead : Nat → Option Bool} {checkAt aheadAt : Nat → Bool}
    {fuel budget level x last : Nat} (enough : fuel ≤ budget)
    (checks : ∀ {y holds}, y < list.nodes.length → check y = some holds →
      checkAt (place y) = holds)
    (accepts : ∀ {y accepted}, y < list.nodes.length → ahead y = some accepted →
      aheadAt (place y) = accepted)
    (ran : SkipList.descend list check ahead fuel level x = some last) :
    StoredSkipList.descend table checkAt aheadAt budget level (place x) = some (place last) ∧
      last < list.nodes.length := by
  induction fuel generalizing budget level x with
  | zero => cases ran
  | succ fuel inductionHypothesis =>
    obtain ⟨budget, rfl⟩ : ∃ smaller, budget = smaller + 1 := ⟨budget - 1, by omega⟩
    obtain ⟨holds, checked, continued⟩ := Option.bind_eq_some_iff.mp ran
    cases holds with
    | false => cases continued
    | true =>
      obtain ⟨next, read, tested⟩ := Option.bind_eq_some_iff.mp continued
      obtain ⟨accepted, isAhead, continued⟩ := Option.bind_eq_some_iff.mp tested
      obtain ⟨loaded, valid⟩ := shows_.link read
      have inside := hasNode_of_hasSlot (SkipList.hasSlot_of_next read)
      rw [StoredSkipList.descend, checks inside checked, loaded, if_neg (by decide)]
      dsimp only
      have goesDown : (if level = 0 then some x
          else SkipList.descend list check ahead fuel (level - 1) x) = some last →
          (if level = 0 then some (place x)
            else StoredSkipList.descend table checkAt aheadAt budget (level - 1) (place x)) =
              some (place last) ∧ last < list.nodes.length := by
        intro down
        split at down
        next bottom =>
          obtain rfl := Option.some.inj down
          rw [if_pos bottom]
          exact ⟨rfl, inside⟩
        next higher =>
          rw [if_neg higher]
          exact inductionHypothesis (by omega) down
      cases next with
      | none =>
        obtain rfl := Option.some.inj isAhead
        rw [if_neg (by simp [addressOf])]
        exact goesDown continued
      | some y =>
        have inY := valid y rfl
        have tested := accepts inY isAhead
        rw [shows_.addressOf_ne_zero inY, addressOf_some, tested]
        cases accepted with
        | true => exact inductionHypothesis (by omega) continued
        | false => exact goesDown continued

/-- So does the search for the last node. -/
theorem findLast {budget last : Nat} (enough : list.searchBudget ≤ budget)
    (ran : list.findLast = some last) :
    table.findLast budget = some (place last) ∧ last < list.nodes.length := by
  rw [StoredSkipList.findLast, shows_.head, shows_.maxHeight]
  exact shows_.descend enough (fun _ checked => Option.some.inj checked)
    (fun _ accepted => Option.some.inj accepted) ran

/-- So does the search backwards. -/
theorem findLessThan (reads : Reads compareAt compare Good Target) {key : Bytes} {target : Nat}
    (good : Target key) (held : Holds table.memory target key) {budget last : Nat}
    (enough : list.searchBudget ≤ budget) (ran : list.findLessThan compare key = some last) :
    table.findLessThan compareAt budget target = some (place last) ∧
      last < list.nodes.length := by
  rw [StoredSkipList.findLessThan, shows_.head, shows_.maxHeight]
  refine shows_.descend enough ?_ ?_ ran
  · intro y holds inside checked
    split at checked
    next isHead =>
      obtain rfl := Option.some.inj checked
      rw [isHead, beq_self_eq_true, Bool.true_or]
    next notHead =>
      obtain ⟨nodeKey, keyed, rfl⟩ := Option.map_eq_some_iff.mp checked
      have different : (place y == place SkipList.head) = false :=
        beq_eq_false_iff_ne.mpr fun same => notHead (shows_.apart inside shows_.hasHead same)
      rw [different, Bool.false_or, shows_.compareAt_keyOf reads good held keyed]
  · intro y accepted _ tested
    obtain ⟨nodeKey, keyed, rfl⟩ := Option.map_eq_some_iff.mp tested
    rw [shows_.compareAt_keyOf reads good held keyed]

/-! ### Insertion -/

/-- A new node shows the list with one, whose key is the string that is pointed to. -/
theorem newNode {key : Bytes} {target height fresh : Nat} (good : Good key)
    (nonempty : 0 < key.length) (held : Holds table.memory target key)
    (listed : ⟨⟨target, key.length⟩, false⟩ ∈ returned) (positive : 1 ≤ height)
    (heightBound : height ≤ kMaxHeight)
    (separate : Arena.Separate (table.arena.serve (nodeRequest height fresh)).2.blocks)
    (placed : Placed (table.arena.serve (nodeRequest height fresh)).2.blocks) :
    Shows Good (table.newNode target height fresh).2 (list.newNode key height)
      (Function.update place list.nodes.length (table.newNode target height fresh).1)
      (returned ++ [⟨⟨(table.newNode target height fresh).1, 8 * (height + 1)⟩, true⟩]) ∧
    KeepsKeys returned table.memory (table.newNode target height fresh).2.memory := by
  have bytes := bytes_nodeRequest positive fresh
  have bound : kMaxHeight = 12 := rfl
  have consistent := @Arena.Consistent.serve _ _ shows_.consistent (nodeRequest height fresh)
    (by omega) (by omega) separate
  rw [bytes] at consistent
  have free : ∀ r ∈ returned, r.region.Disjoint
      ⟨(table.newNode target height fresh).1, 8 * (height + 1)⟩ := fun r earlier =>
    (List.pairwise_append.mp consistent.apart).2.2 r earlier _ (List.mem_singleton_self _)
  have keeps : ∀ r ∈ returned, ∀ a, r.region.base ≤ a → a < r.region.base + r.region.size →
      (table.newNode target height fresh).2.memory a = table.memory a := by
    intro r earlier a low high
    have disjoint := free r earlier
    simp only [Region.Disjoint] at disjoint
    exact storeWord_outside _ _ (by
      change a < (table.newNode target height fresh).1 ∨
        (table.newNode target height fresh).1 + 8 ≤ a
      omega)
  have grown : Shows Good (table.newNode target height fresh).2 list place _ :=
    shows_.grow consistent placed keeps
  have old : ∀ {y}, y < list.nodes.length → Function.update place list.nodes.length
      (table.newNode target height fresh).1 y = place y := fun inside =>
    Function.update_of_ne (Nat.ne_of_lt inside) _ _
  have size : (list.newNode key height).nodes.length = list.nodes.length + 1 := by
    simp [SkipList.newNode]
  have notOld : ∀ {y}, y < list.nodes.length →
      place y ≠ (table.newNode target height fresh).1 := by
    intro y inside same
    obtain ⟨links, earlier, -⟩ := shows_.node inside
    have disjoint := free _ earlier
    simp only [Region.Disjoint] at disjoint
    omega
  refine ⟨⟨grown.consistent, grown.placed, ?_, ?_, grown.maxHeight, ?_, ?_, ?_, ?_⟩,
    fun r earlier _ => keeps r earlier⟩
  · rw [old shows_.hasHead]
    exact shows_.head
  · rw [size]
    exact Nat.lt_succ_of_lt shows_.hasHead
  · intro y inside
    rw [size] at inside
    rcases Nat.lt_succ_iff_lt_or_eq.mp inside with inside | rfl
    · obtain ⟨links, earlier, slots⟩ := grown.node inside
      rw [old inside]
      refine ⟨links, earlier, fun slot => slots ?_⟩
      obtain ⟨node, found, within⟩ := slot
      rw [SkipList.newNode, List.getElem?_append_left inside] at found
      exact ⟨node, found, within⟩
    · refine ⟨height, ?_, fun slot => ?_⟩
      · rw [Function.update_self]
        exact List.mem_append_right _ (List.mem_singleton_self _)
      · obtain ⟨node, found, within⟩ := slot
        simp only [SkipList.newNode, List.getElem?_concat_length, Option.some.injEq] at found
        subst found
        simpa using within
  · intro y z inY inZ same
    rw [size] at inY inZ
    rcases Nat.lt_succ_iff_lt_or_eq.mp inY with inY | rfl
    · rcases Nat.lt_succ_iff_lt_or_eq.mp inZ with inZ | rfl
      · rw [old inY, old inZ] at same
        exact shows_.apart inY inZ same
      · rw [old inY, Function.update_self] at same
        exact absurd same (notOld inY)
    · rcases Nat.lt_succ_iff_lt_or_eq.mp inZ with inZ | rfl
      · rw [old inZ, Function.update_self] at same
        exact absurd same.symm (notOld inZ)
      · rfl
  · intro y nodeKey keyed
    rw [SkipList.keyOf_newNode] at keyed
    split at keyed
    next isNew =>
      obtain rfl := Option.some.inj keyed
      subst isNew
      have small := (shows_.region_placed listed).2
      have stored : (table.newNode target height fresh).2.keyOf
          (table.newNode target height fresh).1 = target :=
        loadWord_storeWord _ _ (Nat.lt_of_lt_of_le (Nat.lt_add_of_pos_right nonempty) small)
      rw [Function.update_self, stored]
      exact ⟨good, held.congr fun a low high => keeps _ listed a low high,
        List.mem_append_left _ listed⟩
    next isOld =>
      have shown := grown.key keyed
      rwa [← old (hasNode_of_keyOf keyed)] at shown
  · intro level y next read
    have inside := hasNode_of_hasSlot (SkipList.hasSlot_of_next read)
    rw [size] at inside ⊢
    rcases Nat.lt_succ_iff_lt_or_eq.mp inside with inside | rfl
    · rw [SkipList.next_newNode list key height level inside] at read
      obtain ⟨loaded, valid⟩ := grown.link read
      rw [old inside, loaded]
      refine ⟨?_, fun z isNext => Nat.lt_succ_of_lt (valid z isNext)⟩
      cases next with
      | none => rfl
      | some z => exact (old (valid z rfl)).symm
    · -- the links of the new node are not initialised
      exfalso
      rw [SkipList.next, SkipList.newNode, List.getElem?_concat_length, Option.bind_some] at read
      have unset := (List.mem_replicate.mp (List.mem_of_getElem?
        (Option.join_eq_some_iff.mp read))).2
      cases unset

/-- The store of a link. -/
theorem setNext_keeps {level x : Nat} (slot : list.HasSlot level x) (address : Nat) :
    KeepsKeys returned table.memory (table.setNext level (place x) address).memory := by
  intro r listed isKey a low high
  obtain ⟨links, earlier, slots⟩ := shows_.node (hasNode_of_hasSlot slot)
  have within := slots slot
  have disjoint := shows_.regions_apart listed earlier fun equal =>
    Bool.false_ne_true (isKey.symm.trans (congrArg Arena.Returned.aligned equal))
  simp only [Region.Disjoint] at disjoint
  exact storeWord_outside _ _ (by unfold slotAt; omega)

/-- A round of the linking loop. -/
theorem linkLevel {x level : Nat} {prev : List (Option Nat)} {after : SkipList Bytes}
    (slot : list.HasSlot level x) (ran : SkipList.linkLevel x prev list level = some after) :
    ∃ stored, StoredSkipList.linkLevel (place x) (prev.map (Option.map place)) table level =
        some stored ∧ Shows Good stored after place returned ∧
      (∀ l y, after.HasSlot l y ↔ list.HasSlot l y) ∧ stored.arena = table.arena ∧
      KeepsKeys returned table.memory stored.memory := by
  obtain ⟨before, recorded, continued⟩ := Option.bind_eq_some_iff.mp ran
  obtain ⟨target, read, linked⟩ := Option.bind_eq_some_iff.mp continued
  obtain rfl := Option.some.inj linked
  obtain ⟨loaded, valid⟩ := shows_.link read
  have recordedAt : ((prev.map (Option.map place))[level]?).join = some (place before) := by
    rw [Option.join_eq_some_iff] at recorded ⊢
    rw [List.getElem?_map, recorded]
    rfl
  have slotBefore := SkipList.hasSlot_of_next read
  have first := shows_.setNext slot valid
  have second := @Shows.setNext _ _ _ _ _ first level before
    ((SkipList.hasSlot_setNext ..).mpr slotBefore) (some x) (fun y isNew => by
      obtain rfl := Option.some.inj isNew
      rw [SkipList.length_nodes_setNext]
      exact hasNode_of_hasSlot slot)
  have firstKeeps := shows_.setNext_keeps slot (addressOf place target)
  have secondKeeps := @Shows.setNext_keeps _ _ _ _ _ first level before
    ((SkipList.hasSlot_setNext ..).mpr slotBefore) (addressOf place (some x))
  refine ⟨_, ?_, second, fun l y => ?_, rfl, firstKeeps.trans secondKeeps⟩
  · simp only [StoredSkipList.linkLevel, recordedAt, loaded, Option.bind_eq_bind, Option.bind_some,
      addressOf_some]
  · rw [SkipList.hasSlot_setNext, SkipList.hasSlot_setNext]

/-- The linking loop. -/
theorem linkLevels {x : Nat} {prev : List (Option Nat)} {levels : List Nat}
    {after : SkipList Bytes} (slots : ∀ level ∈ levels, list.HasSlot level x)
    (ran : levels.foldlM (SkipList.linkLevel x prev) list = some after) :
    ∃ stored, levels.foldlM (StoredSkipList.linkLevel (place x) (prev.map (Option.map place)))
        table = some stored ∧ Shows Good stored after place returned ∧
      stored.arena = table.arena ∧ KeepsKeys returned table.memory stored.memory := by
  induction levels generalizing table list with
  | nil =>
    obtain rfl := Option.some.inj ran
    exact ⟨table, rfl, shows_, rfl, fun _ _ _ _ _ _ => rfl⟩
  | cons level levels inductionHypothesis =>
    rw [List.foldlM_cons] at ran
    obtain ⟨middle, linked, rest⟩ := Option.bind_eq_some_iff.mp ran
    obtain ⟨storedMiddle, linkedAt, shown, sameSlots, sameArena, kept⟩ :=
      shows_.linkLevel (slots level List.mem_cons_self) linked
    obtain ⟨stored, ranAt, shownAfter, unchanged, keeps⟩ := inductionHypothesis shown
      (fun l member => (sameSlots l x).mpr (slots l (List.mem_cons_of_mem _ member))) rest
    refine ⟨stored, ?_, shownAfter, unchanged.trans sameArena, kept.trans keeps⟩
    rw [List.foldlM_cons, linkedAt]
    exact ranAt

omit shows_ in
/-- An insertion adds one node. -/
theorem length_nodes_insert {key : Bytes} {height : Nat} {after : SkipList Bytes}
    (ran : list.insert compare key height = some after) :
    after.nodes.length = list.nodes.length + 1 := by
  obtain ⟨⟨found, recorded⟩, -, linked⟩ := Option.bind_eq_some_iff.mp ran
  have unchanged : ∀ {levels : List Nat} {x : Nat} {prev : List (Option Nat)}
      {first last : SkipList Bytes},
      levels.foldlM (SkipList.linkLevel x prev) first = some last →
        last.nodes.length = first.nodes.length := by
    intro levels
    induction levels with
    | nil =>
      intro x prev first last same
      obtain rfl := Option.some.inj same
      rfl
    | cons level levels inductionHypothesis =>
      intro x prev first last folded
      rw [List.foldlM_cons] at folded
      obtain ⟨middle, stepped, rest⟩ := Option.bind_eq_some_iff.mp folded
      obtain ⟨before, -, continued⟩ := Option.bind_eq_some_iff.mp stepped
      obtain ⟨target, -, linked⟩ := Option.bind_eq_some_iff.mp continued
      obtain rfl := Option.some.inj linked
      rw [inductionHypothesis rest, SkipList.length_nodes_setNext, SkipList.length_nodes_setNext]
  rw [unchanged linked]
  simp [SkipList.newNode]

/-- A store into `max_height_` leaves the nodes alone. -/
theorem raise (newMax : Nat) : Shows Good { table with maxHeight := newMax }
    { list with maxHeight := newMax } place returned :=
  ⟨shows_.consistent, shows_.placed, shows_.head, shows_.hasHead, rfl, shows_.node, shows_.apart,
    shows_.key, shows_.link⟩

/-- The array `prev` as the linking loop reads it. -/
theorem patchPrev {prev : List (Option Nat)}
    (bounded : ∀ y, some y ∈ prev → y < list.nodes.length) (maxHeight height address : Nat) :
    StoredSkipList.patchPrev table.head (prev.map (Option.map place)) maxHeight height =
      (SkipList.patchPrev prev maxHeight height).map
        (Option.map (Function.update place list.nodes.length address)) := by
  have old : ∀ {y}, y < list.nodes.length →
      Function.update place list.nodes.length address y = place y := fun inside =>
    Function.update_of_ne (Nat.ne_of_lt inside) _ _
  refine List.ext_getElem (by simp [StoredSkipList.patchPrev, SkipList.patchPrev]) ?_
  intro level inside _
  simp only [StoredSkipList.patchPrev, SkipList.patchPrev, List.getElem_mapIdx, List.getElem_map]
  split
  · rw [Option.map_some, old shows_.hasHead, shows_.head]
  · have inPrev : level < prev.length := by simpa [StoredSkipList.patchPrev] using inside
    cases recorded : prev[level] with
    | none => rfl
    | some y =>
      have member : some y ∈ prev := recorded ▸ List.getElem_mem _
      rw [Option.map_some, Option.map_some, old (bounded y member)]

/-- An insertion of the key that is pointed to. -/
theorem insert (reads : Reads compareAt compare Good Target) {key : Bytes}
    {target height fresh budget : Nat} {after : SkipList Bytes} (good : Good key)
    (isTarget : Target key) (nonempty : 0 < key.length) (held : Holds table.memory target key)
    (listed : ⟨⟨target, key.length⟩, false⟩ ∈ returned) (positive : 1 ≤ height)
    (heightBound : height ≤ kMaxHeight)
    (separate : Arena.Separate (table.arena.serve (nodeRequest height fresh)).2.blocks)
    (placed : Placed (table.arena.serve (nodeRequest height fresh)).2.blocks)
    (enough : list.searchBudget ≤ budget) (ran : list.insert compare key height = some after) :
    ∃ stored place' region, table.insert compareAt budget target height fresh = some stored ∧
      Shows Good stored after place' (returned ++ [⟨⟨region, 8 * (height + 1)⟩, true⟩]) ∧
      stored.arena = (table.arena.serve (nodeRequest height fresh)).2 ∧
      KeepsKeys returned table.memory stored.memory := by
  obtain ⟨⟨found, recorded⟩, searched, linked⟩ := Option.bind_eq_some_iff.mp ran
  obtain ⟨searchedAt, bounded, -⟩ := shows_.findGreaterOrEqual reads isTarget held enough searched
  obtain ⟨grown, newKeeps⟩ := (shows_.raise (max list.maxHeight height)).newNode good nonempty
    held listed positive heightBound separate placed
  obtain ⟨stored, linkedAt, shown, unchanged, linksKeep⟩ := grown.linkLevels (fun level member =>
    SkipList.hasSlot_newNode _ key (List.mem_range.mp member)) linked
  rw [Function.update_self] at linkedAt
  refine ⟨stored, _, _, ?_, shown, unchanged, newKeeps.trans fun r earlier =>
    linksKeep r (List.mem_append_left _ earlier)⟩
  rw [StoredSkipList.insert, searchedAt, ← linkedAt]
  simp only [Option.bind_eq_bind, Option.bind_some, shows_.maxHeight]
  rw [shows_.patchPrev bounded]

/-- Links of a node that are set to null. -/
theorem setNulls {x : Nat} {levels : List Nat} (slots : ∀ level ∈ levels, list.HasSlot level x) :
    Shows Good (levels.foldl (fun table level => table.setNext level (place x) 0) table)
        (levels.foldl (fun list level => list.setNext level x none) list) place returned ∧
      (levels.foldl (fun table level => table.setNext level (place x) 0) table).arena =
        table.arena := by
  induction levels generalizing table list with
  | nil => exact ⟨shows_, rfl⟩
  | cons level levels inductionHypothesis =>
    have shown := @Shows.setNext _ _ _ _ _ shows_ level x (slots level List.mem_cons_self) none
      (fun y impossible => by cases impossible)
    obtain ⟨shownAfter, unchanged⟩ := inductionHypothesis shown fun l member =>
      (SkipList.hasSlot_setNext ..).mpr (slots l (List.mem_cons_of_mem _ member))
    exact ⟨shownAfter, unchanged⟩

/-! ### Iterators -/

/-- The head in memory stands for no key. -/
theorem notHead {x : Nat} (inside : x < list.nodes.length) :
    table.notHead (place x) = addressOf place (SkipList.notHead x) := by
  unfold StoredSkipList.notHead SkipList.notHead
  rw [shows_.head]
  by_cases isHead : x = SkipList.head
  · rw [if_pos (congrArg place isHead), if_pos isHead]
    rfl
  · rw [if_neg fun same => isHead (shows_.apart inside shows_.hasHead same), if_neg isHead]
    rfl

omit shows_ in
/-- A node that is not the head is allocated. -/
theorem notHead_inside {x y : Nat} (inside : x < list.nodes.length)
    (stands : SkipList.notHead x = some y) : y < list.nodes.length := by
  unfold SkipList.notHead at stands
  split at stands
  · cases stands
  · obtain rfl := Option.some.inj stands
    exact inside

/-- A call on an iterator, which stands on the address of the node that the iterator of the list
stands on. -/
theorem iterStep (reads : Reads compareAt compare Good Target) {budget : Nat}
    {node after : Option Nat} {callAt : Cursor.Call Nat} {call : Cursor.Call Bytes}
    (targets : Targets Target table.memory callAt call) (areTargets : ∀ {a}, Good a → Target a)
    (valid : ∀ y, node = some y → y < list.nodes.length) (enough : list.searchBudget ≤ budget)
    (moved : list.iterStep compare node call = some after) :
    table.iterStep compareAt budget (addressOf place node) callAt =
        some (addressOf place after) ∧ ∀ y, after = some y → y < list.nodes.length := by
  cases targets with
  | seekToFirst =>
    obtain ⟨loaded, inside⟩ := shows_.link moved
    rw [StoredSkipList.iterStep, shows_.head, loaded]
    exact ⟨rfl, inside⟩
  | seekToLast =>
    obtain ⟨last, found, rfl⟩ := Option.map_eq_some_iff.mp moved
    obtain ⟨foundAt, inside⟩ := shows_.findLast enough found
    rw [StoredSkipList.iterStep, foundAt, Option.map_some, shows_.notHead inside]
    exact ⟨rfl, fun y => notHead_inside inside⟩
  | seek good held =>
    obtain ⟨⟨found, recorded⟩, searched, rfl⟩ := Option.map_eq_some_iff.mp moved
    obtain ⟨searchedAt, -, inside⟩ := shows_.findGreaterOrEqual reads good held enough searched
    rw [StoredSkipList.iterStep, searchedAt]
    exact ⟨rfl, inside⟩
  | next =>
    obtain ⟨x, rfl, read⟩ := Option.bind_eq_some_iff.mp moved
    obtain ⟨loaded, inside⟩ := shows_.link read
    have positive := (shows_.place_bounds (valid x rfl)).1
    rw [StoredSkipList.iterStep, addressOf_some, if_neg (by omega), loaded]
    exact ⟨rfl, inside⟩
  | prev =>
    obtain ⟨x, rfl, stepped⟩ := Option.bind_eq_some_iff.mp moved
    obtain ⟨key, keyed, searched⟩ := Option.bind_eq_some_iff.mp stepped
    obtain ⟨last, found, stands⟩ := Option.bind_eq_some_iff.mp searched
    obtain rfl := Option.some.inj stands
    have positive := (shows_.place_bounds (valid x rfl)).1
    obtain ⟨good, held, -⟩ := shows_.key keyed
    obtain ⟨foundAt, inside⟩ := shows_.findLessThan reads (areTargets good) held enough found
    rw [StoredSkipList.iterStep, addressOf_some, if_neg (by omega), foundAt, Option.map_some,
      shows_.notHead inside]
    exact ⟨rfl, fun y => notHead_inside inside⟩

/-- Any calls of an iterator lead to the same node. -/
theorem iterRun (reads : Reads compareAt compare Good Target) {budget : Nat}
    {node after : Option Nat} {callsAt : List (Cursor.Call Nat)} {calls : List (Cursor.Call Bytes)}
    (targets : List.Forall₂ (Targets Target table.memory) callsAt calls)
    (areTargets : ∀ {a}, Good a → Target a)
    (valid : ∀ y, node = some y → y < list.nodes.length) (enough : list.searchBudget ≤ budget)
    (moved : calls.foldlM (list.iterStep compare) node = some after) :
    callsAt.foldlM (table.iterStep compareAt budget) (addressOf place node) =
        some (addressOf place after) ∧ ∀ y, after = some y → y < list.nodes.length := by
  induction targets generalizing node with
  | nil =>
    obtain rfl := Option.some.inj moved
    exact ⟨rfl, valid⟩
  | cons target targets inductionHypothesis =>
    rw [List.foldlM_cons] at moved
    obtain ⟨middle, stepped, rest⟩ := Option.bind_eq_some_iff.mp moved
    obtain ⟨steppedAt, inside⟩ := shows_.iterStep reads target areTargets valid enough stepped
    rw [List.foldlM_cons, steppedAt]
    exact inductionHypothesis inside rest

end Shows

/-! ### The constructor -/

/-- A new table shows the empty list, whatever the memory held before. -/
theorem new_shows (Good : Bytes → Prop) (memory : Memory) {arena : Arena} {fresh : Nat}
    {returned : List Arena.Returned} (consistent : arena.Consistent returned)
    (separate : Arena.Separate (arena.serve (nodeRequest kMaxHeight fresh)).2.blocks)
    (placed : Placed (arena.serve (nodeRequest kMaxHeight fresh)).2.blocks) :
    ∃ place region, Shows Good (new memory arena fresh) SkipList.new place
        (returned ++ [⟨region, true⟩]) ∧ region.size = 8 * (kMaxHeight + 1) ∧
      (new memory arena fresh).arena = (arena.serve (nodeRequest kMaxHeight fresh)).2 := by
  have bytes := bytes_nodeRequest (show 1 ≤ kMaxHeight by decide) fresh
  have size : kMaxHeight = 12 := rfl
  have served := @Arena.Consistent.serve _ _ consistent (nodeRequest kMaxHeight fresh)
    (by omega) (by omega) separate
  rw [bytes] at served
  -- the head before its links are set
  have bare : Shows Good ⟨storeWord memory (arena.serve (nodeRequest kMaxHeight fresh)).1 0,
        (arena.serve (nodeRequest kMaxHeight fresh)).2,
        (arena.serve (nodeRequest kMaxHeight fresh)).1, 1⟩
      ⟨[⟨none, List.replicate kMaxHeight none⟩], 1⟩
      (fun _ => (arena.serve (nodeRequest kMaxHeight fresh)).1)
      (returned ++ [⟨⟨(arena.serve (nodeRequest kMaxHeight fresh)).1, 8 * (kMaxHeight + 1)⟩,
        true⟩]) := by
    refine ⟨served, placed, rfl, Nat.one_pos, rfl, fun inside => ⟨kMaxHeight, ?_, ?_⟩, ?_, ?_, ?_⟩
    · exact List.mem_append_right _ (List.mem_singleton_self _)
    · rintro level ⟨node, found, within⟩
      obtain rfl := List.mem_singleton.mp (List.mem_of_getElem? found)
      simpa using within
    · intro x y inX inY _
      exact (Nat.lt_one_iff.mp inX).trans (Nat.lt_one_iff.mp inY).symm
    · intro x key keyed
      obtain ⟨node, found, isKey⟩ := Option.bind_eq_some_iff.mp keyed
      obtain rfl := List.mem_singleton.mp (List.mem_of_getElem? found)
      cases isKey
    · intro level x target read
      obtain ⟨node, found, slot⟩ := Option.bind_eq_some_iff.mp (Option.join_eq_some_iff.mp read)
      obtain rfl := List.mem_singleton.mp (List.mem_of_getElem? found)
      have unset := (List.mem_replicate.mp (List.mem_of_getElem? slot)).2
      cases unset
  obtain ⟨shown, unchanged⟩ := @Shows.setNulls _ _ _ _ _ bare 0 (List.range kMaxHeight)
    fun level member => ⟨_, rfl, by simpa using List.mem_range.mp member⟩
  have empty : (List.range kMaxHeight).foldl (fun list level => list.setNext level 0 none)
      (SkipList.mk [⟨none, List.replicate kMaxHeight none⟩] 1) = (SkipList.new : SkipList Bytes) :=
    rfl
  rw [empty] at shown
  exact ⟨_, _, shown, rfl, unchanged⟩

end LevelDbXy.StoredSkipList
