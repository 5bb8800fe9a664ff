import LevelDbXy.DataStructure.SkipListGrowth
import LevelDbXy.Library.OrderWalk

/-!
# Iterators over a skip list while it is written

Any number of threads move iterators of `data_structure/skip_list.h` over a list while a writer
inserts into it, on sequentially consistent memory as in the search. Every step is one
atomic access: `SeekToFirst` and `Next` are one load of a link, and `Seek`,
`SeekToLast` and `Prev` search with a load in each step, `Prev` with the assertion of
`FindLessThan` about the node it stands on.

An iterator leaves a trail of places. Keys may appear behind its back, but a key that was
finished when it was positioned is never passed over: if it lies between two places of
the trail, the iterator has been there.
-/

namespace LevelDbXy.SkipList

open OrderWalk

variable {Key : Type}

/-! ### Places -/

/-- A key, the place right in front of a key, or an end of the list. -/
inductive Place (Key : Type) where
  | front
  | before (key : Key)
  | on (key : Key)
  | behind
  deriving DecidableEq

/-- The order of places. -/
def Place.Lt (compare : Key → Key → Int) : Place Key → Place Key → Prop
  | .behind, _ => False
  | _, .behind => True
  | _, .front => False
  | .front, _ => True
  | .before a, .before b => compare a b < 0
  | .before a, .on b => ¬ compare b a < 0
  | .on a, .before b => compare a b < 0
  | .on a, .on b => compare a b < 0

/-- The places are ordered as the keys are, with the two ends outside. -/
theorem Place.weakOrder {compare : Key → Key → Int} (lawful : ThreeWay compare) :
    WeakOrder (Place.Lt compare) := by
  have order := lawful.weakOrder
  constructor
  · intro a b below
    cases a <;> cases b <;> simp only [Place.Lt, not_false_eq_true, not_not] at below ⊢
    · exact order.asymm below
    · exact below
    · exact below
    · exact order.asymm below
  · intro a b c first second
    cases a <;> cases b <;> cases c <;>
      simp only [Place.Lt, not_true, not_false_eq_true, not_not] at first second ⊢
    -- what is left compares three keys
    all_goals first
      | exact order.negTrans first second
      | exact order.negTrans (order.asymm first) second
      | exact order.negTrans first (order.asymm second)
      | exact not_not.mp fun notBelow => order.negTrans notBelow first second
      | exact not_not.mp fun notBelow => order.negTrans second notBelow first

/-- Places are told apart by their order. -/
theorem Place.connected {compare : Key → Key → Int} (lawful : ThreeWay compare)
    (separates : ∀ a b, compare a b = 0 → a = b) {a b : Place Key} (notBelow : ¬ a.Lt compare b)
    (notAbove : ¬ b.Lt compare a) : a = b := by
  have same : ∀ x y : Key, ¬ compare x y < 0 → ¬ compare y x < 0 → x = y := fun x y first second =>
    separates x y ((lawful.eq_zero_iff x y).mpr ⟨first, second⟩)
  cases a <;> cases b <;>
    simp only [Place.Lt, not_true, not_false_eq_true, not_not] at notBelow notAbove ⊢
  · rw [same _ _ notBelow notAbove]
  · exact absurd notBelow notAbove
  · exact absurd notAbove notBelow
  · rw [same _ _ notBelow notAbove]

/-! ### Iterators -/

/-- A search that an iterator makes: `FindGreaterOrEqual`, `FindLast` or `FindLessThan`. -/
inductive Search (Key : Type) where
  | seek (target : Key)
  | last
  | prev (key : Key)

/-- The search goes on along nodes with keys below this one, or along all. -/
def Search.bound : Search Key → Option Key
  | .seek target => some target
  | .last => none
  | .prev key => some key

/-- Where the iterator is when the search begins. -/
def Search.origin : Search Key → Place Key
  | .seek target => .before target
  | .last => .behind
  | .prev key => .on key

/-- Where an iterator is in its call. -/
inductive Phase (Key : Type) where
  | resting
  /-- Next is the load of `max_height_`. -/
  | started (search : Search Key)
  /-- Next is `x->Next(level)`. -/
  | descending (search : Search Key) (level x : Nat)
  /-- An assertion has failed, or memory was read that no store had initialised. -/
  | broken

/-- `SkipList::Iterator`, with the keys whose `Insert` had finished when it was last
positioned, and where it has been since then, the last place first. -/
structure Iterator (Key : Type) where
  node : Option Nat
  phase : Phase Key
  finishedBefore : List Key
  origin : Place Key
  trail : List (Direction × Place Key)

/-- `Iterator::Iterator`. -/
def Iterator.new : Iterator Key := ⟨none, .resting, [], .front, []⟩

/-- The end of the list in a direction. -/
def endPlace : Direction → Place Key
  | .forward => .behind
  | .backward => .front

/-- The call ends on a node, or not on one. -/
def Iterator.arrive (list : SkipList Key) (it : Iterator Key) (direction : Direction) :
    Option Nat → Iterator Key
  | none => { it with
      node := none, phase := .resting, trail := (direction, endPlace direction) :: it.trail }
  | some x =>
    match list.keyOf x with
    | none => { it with phase := .broken }
    | some key => { it with
        node := some x, phase := .resting, trail := (direction, .on key) :: it.trail }

/-- The test of the search whether it goes on to the next node. -/
def goesOn (compare : Key → Key → Int) (list : SkipList Key) (search : Search Key) :
    Option Nat → Option Bool
  | none => some false
  | some y =>
    match search.bound with
    | none => some true
    | some bound => (list.keyOf y).map fun nodeKey => decide (compare nodeKey bound < 0)

/-- The assertion of `FindLessThan` about the node it stands on. -/
def assertion (compare : Key → Key → Int) (list : SkipList Key) (search : Search Key) (x : Nat) :
    Option Bool :=
  match search with
  | .prev key =>
    if x = head then some true
    else (list.keyOf x).map fun nodeKey => decide (compare nodeKey key < 0)
  | _ => some true

/-- The search is over, with this node before the place it looked for and this one behind. -/
def Iterator.found (list : SkipList Key) (it : Iterator Key) (search : Search Key) (x : Nat)
    (next : Option Nat) : Iterator Key :=
  match search with
  | .seek _ => it.arrive list .forward next
  | .last | .prev _ => it.arrive list .backward (notHead x)

/-- A round of a search loop. -/
def searchStep (compare : Key → Key → Int) (list : SkipList Key) (it : Iterator Key)
    (search : Search Key) (level x : Nat) : Iterator Key :=
  match assertion compare list search x, list.next level x with
  | some true, some next =>
    match goesOn compare list search next, next with
    | none, _ => { it with phase := .broken }
    | some true, some y => { it with phase := .descending search level y }
    | some _, next =>
      if level = 0 then it.found list search x next
      else { it with phase := .descending search (level - 1) x }
  | _, _ => { it with phase := .broken }

/-- The steps of a thread that moves an iterator. -/
inductive IteratorAccess (Key : Type) where
  | seekToFirst
  | beginSeek (target : Key)
  | beginSeekToLast
  | next
  | beginPrev
  | loadMaxHeight
  | loadNext

/-- One step of such a thread. `Next` and `Prev` are not called on an iterator that is not
`Valid`. -/
def iteratorAccess (compare : Key → Key → Int) (config : Config Key) (it : Iterator Key) :
    IteratorAccess Key → Option (Iterator Key)
  | .seekToFirst =>
    match it.phase with
    | .resting =>
      match config.list.next 0 head with
      | none => some { it with phase := .broken }
      | some node => some
          (Iterator.arrive config.list ⟨none, .resting, config.finished, .front, []⟩ .forward node)
    | _ => none
  | .beginSeek target =>
    match it.phase with
    | .resting => some ⟨none, .started (.seek target), config.finished, .before target, []⟩
    | _ => none
  | .beginSeekToLast =>
    match it.phase with
    | .resting => some ⟨none, .started .last, config.finished, .behind, []⟩
    | _ => none
  | .next =>
    match it.phase, it.node with
    | .resting, some x =>
      match config.list.next 0 x with
      | none => some { it with phase := .broken }
      | some node => some (it.arrive config.list .forward node)
    | _, _ => none
  | .beginPrev =>
    match it.phase, it.node with
    | .resting, some x =>
      match config.list.keyOf x with
      | none => some { it with phase := .broken }
      | some key => some { it with phase := .started (.prev key) }
    | _, _ => none
  | .loadMaxHeight =>
    match it.phase with
    | .started search =>
      some { it with phase := .descending search (config.list.maxHeight - 1) head }
    | _ => none
  | .loadNext =>
    match it.phase with
    | .descending search level x => some (searchStep compare config.list it search level x)
    | _ => none

/-- Shared memory with its writer, and the iterators of any number of threads. -/
structure Crowd (Key : Type) where
  shared : Config Key
  iterators : Nat → Iterator Key

/-- A new list and new iterators. -/
def Crowd.initial : Crowd Key := ⟨.initial, fun _ => .new⟩

/-- The steps of all threads. -/
inductive CrowdAccess (Key : Type) where
  | shared (action : Access Key)
  | iterator (thread : Nat) (action : IteratorAccess Key)

/-- One step of any thread. -/
def crowdAccess (compare : Key → Key → Int) (crowd : Crowd Key) :
    CrowdAccess Key → Option (Crowd Key)
  | .shared action => (access compare crowd.shared action).map fun shared => { crowd with shared }
  | .iterator thread action =>
    (iteratorAccess compare crowd.shared (crowd.iterators thread) action).map fun it =>
      { crowd with iterators := Function.update crowd.iterators thread it }

/-- Inserted keys are new. -/
def FreshShared (crowd : Crowd Key) : CrowdAccess Key → Prop
  | .shared action => FreshInsert crowd.shared action
  | .iterator _ _ => True

/-! ### What is known of an iterator -/

/-- What is known of an iterator in its call, with the place where it was when the call began. -/
def PhaseOk (compare : Key → Key → Int) (levels : Nat → List Nat) (keyAt : Nat → Key)
    (place : Place Key) : Phase Key → Prop
  | .resting => True
  | .started search => place = search.origin
  | .descending search level x => place = search.origin ∧ level < kMaxHeight ∧
      x ∈ head :: levels level ∧
      (x ≠ head → ∀ bound, search.bound = some bound → compare (keyAt x) bound < 0)
  | .broken => False

/-- A key that was finished when the iterator was positioned. -/
def Iterator.Needed (it : Iterator Key) (place : Place Key) : Prop :=
  ∃ key ∈ it.finishedBefore, place = .on key

/-- What is known of an iterator. -/
structure IteratorOk (compare : Key → Key → Int) (levels : Nat → List Nat) (keyAt : Nat → Key)
    (begun : List Key) (it : Iterator Key) : Prop where
  finished : ∀ key ∈ it.finishedBefore, key ∈ (levels 0).map keyAt
  walk : IsWalk (Place.Lt compare) it.Needed it.origin it.trail
  begun : ∀ key, .on key ∈ places it.origin it.trail → key ∈ begun
  node : ∀ x, it.node = some x → x ∈ levels 0 ∧ current it.origin it.trail = .on (keyAt x)
  phase : PhaseOk compare levels keyAt (current it.origin it.trail) it.phase

section Iterator

variable {compare : Key → Key → Int} {levels levels' : Nat → List Nat} {keyAt keyAt' : Nat → Key}
  {begun begun' : List Key} {it after : Iterator Key} {config : Config Key}

/-- Nothing of it changes when nodes come in between. -/
theorem IteratorOk.grow (ok : IteratorOk compare levels keyAt begun it)
    (rep : Represents compare config.list levels keyAt)
    (grows : Grows levels keyAt levels' keyAt') (more : begun ⊆ begun') :
    IteratorOk compare levels' keyAt' begun' it where
  finished key member := grows.mem_keys (ok.finished key member)
  walk := ok.walk
  begun key visited := more (ok.begun key visited)
  node x stands := by
    obtain ⟨listed, place⟩ := ok.node x stands
    exact ⟨(grows.sublist 0 (by decide)).subset listed, by rw [place, grows.sameKey x listed]⟩
  phase := by
    have phase := ok.phase
    cases standing : it.phase with
    | resting => trivial
    | started search =>
      rw [standing] at phase
      exact phase
    | descending search level x =>
      rw [standing] at phase
      obtain ⟨origin, inHeight, listed, below⟩ := phase
      refine ⟨origin, inHeight, ((grows.sublist level inHeight).cons_cons head).subset listed,
        fun notHead => ?_⟩
      have onZero : x ∈ levels 0 :=
        (rep.sublist_zero level).subset ((List.mem_cons.mp listed).resolve_left notHead)
      rw [grows.sameKey x onZero]
      exact below notHead
    | broken =>
      rw [standing] at phase
      exact phase

/-! #### Where a search stops -/

/-- The place of the last node of a list, or the front. -/
def backPlace (keyAt : Nat → Key) (before : List Nat) : Place Key :=
  (before.getLast?.map fun x => Place.on (keyAt x)).getD .front

/-- The place of the first node of a list, or the end. -/
def frontPlace (keyAt : Nat → Key) (after : List Nat) : Place Key :=
  (after.head?.map fun x => Place.on (keyAt x)).getD .behind

/-- The visible keys rise. -/
theorem Seen.strict {visible : Nat → List Nat} (seen : Seen compare config visible keyAt)
    (lawful : ThreeWay compare) (separates : ∀ a b, compare a b = 0 → a = b) :
    ((visible 0).map keyAt).Pairwise (Lt compare) :=
  lawful.strict_of_nodup separates seen.rep.sorted seen.distinct

/-- No key of the list is between two neighbours. -/
theorem Seen.gap {visible : Nat → List Nat} (seen : Seen compare config visible keyAt)
    (lawful : ThreeWay compare) (separates : ∀ a b, compare a b = 0 → a = b)
    {before after : List Nat} (split : visible 0 = before ++ after) {key : Key}
    (listed : key ∈ (visible 0).map keyAt)
    (behind : (backPlace keyAt before).Lt compare (.on key)) :
    ¬ (Place.on key).Lt compare (frontPlace keyAt after) := by
  have order := lawful.weakOrder
  have strict := seen.strict lawful separates
  rw [split, List.map_append] at strict listed
  obtain ⟨frontStrict, backStrict, -⟩ := List.pairwise_append.mp strict
  rcases List.mem_append.mp listed with inFront | inBack
  · exfalso
    rcases List.eq_nil_or_concat before with rfl | ⟨earlier, last, rfl⟩
    · cases inFront
    · rw [List.concat_eq_append] at frontStrict inFront behind
      simp only [backPlace, List.getLast?_concat, Option.map_some, Option.getD_some, Place.Lt]
        at behind
      rw [List.map_append, List.map_singleton] at frontStrict inFront
      rcases List.mem_append.mp inFront with before | atLast
      · exact order.asymm behind ((List.pairwise_append.mp frontStrict).2.2 key before _
          (List.mem_singleton.mpr rfl))
      · rw [List.mem_singleton.mp atLast] at behind
        exact order.irrefl _ behind
  · cases after with
    | nil => cases inBack
    | cons first later =>
      simp only [frontPlace, List.head?_cons, Option.map_some, Option.getD_some, Place.Lt]
      rw [List.map_cons] at backStrict inBack
      rcases List.mem_cons.mp inBack with rfl | later
      · exact order.irrefl _
      · exact order.asymm ((List.pairwise_cons.mp backStrict).1 key later)

/-! #### Arriving -/

/-- The place where an iterator arrives with these nodes before it and behind it. -/
def arrivalPlace (keyAt : Nat → Key) (before after : List Nat) : Direction → Place Key
  | .forward => frontPlace keyAt after
  | .backward => backPlace keyAt before

/-- The node where it arrives. -/
def arrivalNode (before after : List Nat) : Direction → Option Nat
  | .forward => after.head?
  | .backward => before.getLast?

/-- A step to a node beside the place it leaves, in its direction. -/
theorem Seen.arrive_ok {visible : Nat → List Nat} (seen : Seen compare config visible keyAt)
    (lawful : ThreeWay compare) (separates : ∀ a b, compare a b = 0 → a = b)
    {before after : List Nat} (split : visible 0 = before ++ after) {direction : Direction}
    (finished : ∀ key ∈ it.finishedBefore, key ∈ (visible 0).map keyAt)
    (walk : IsWalk (Place.Lt compare) it.Needed it.origin it.trail)
    (hasBegun : ∀ key, .on key ∈ places it.origin it.trail → key ∈ config.begun)
    (steps : Steps (Place.Lt compare) direction (current it.origin it.trail)
      (arrivalPlace keyAt before after direction))
    (beside : ¬ (current it.origin it.trail).Lt compare (backPlace keyAt before) ∧
      ¬ (frontPlace keyAt after).Lt compare (current it.origin it.trail)) :
    IteratorOk compare visible keyAt config.begun
      (it.arrive config.list direction (arrivalNode before after direction)) := by
  have order := Place.weakOrder lawful
  have misses : Misses (Place.Lt compare) it.Needed direction (current it.origin it.trail)
      (arrivalPlace keyAt before after direction) := by
    cases direction with
    | forward =>
      rintro element ⟨key, member, rfl⟩ behind
      refine seen.gap lawful separates split (finished key member) ?_
      by_contra notBehind
      exact order.negTrans beside.1 notBehind behind
    | backward =>
      rintro element ⟨key, member, rfl⟩ behind inFront
      exact order.negTrans (seen.gap lawful separates split (finished key member) behind) beside.2
        inFront
  have walkAfter := walk.step order (Place.connected lawful separates) steps misses
  have place : arrivalPlace keyAt before after direction =
      ((arrivalNode before after direction).map fun x => Place.on (keyAt x)).getD
        (endPlace direction) := by
    cases direction <;> rfl
  have listed : ∀ x, arrivalNode before after direction = some x → x ∈ visible 0 := by
    intro x isNode
    rw [split]
    cases direction with
    | forward => exact List.mem_append_right _ (List.mem_of_mem_head? isNode)
    | backward => exact List.mem_append_left _ (List.mem_of_getLast? isNode)
  rw [place] at walkAfter
  cases node : arrivalNode before after direction with
  | none =>
    rw [node] at walkAfter
    refine ⟨finished, walkAfter, fun key visited => ?_, fun x stands => ?_, trivial⟩
    · refine hasBegun key ((List.mem_cons.mp visited).resolve_left ?_)
      cases direction <;> simp [endPlace]
    · cases stands
  | some x =>
    rw [node] at walkAfter
    have inList := listed x node
    rw [Iterator.arrive, seen.rep.keyed x inList]
    refine ⟨finished, walkAfter, fun key visited => ?_, fun y stands => ?_, trivial⟩
    · rcases List.mem_cons.mp visited with same | earlier
      · obtain rfl := Place.on.inj same
        exact seen.begun _ (List.mem_map_of_mem inList)
      · exact hasBegun key earlier
    · obtain rfl := Option.some.inj stands
      exact ⟨inList, rfl⟩

/-- What a search returns is the node after the place it looked for, or the one before. -/
def Search.direction : Search Key → Direction
  | .seek _ => .forward
  | .last | .prev _ => .backward

/-- A search stops where its place is between two neighbours. -/
theorem Seen.stops_beside {visible : Nat → List Nat} (seen : Seen compare config visible keyAt)
    (lawful : ThreeWay compare) {before after : List Nat} (split : visible 0 = before ++ after)
    {search : Search Key}
    (below : before.getLastD head ≠ head → ∀ bound, search.bound = some bound →
      compare (keyAt (before.getLastD head)) bound < 0)
    (stops : goesOn compare config.list search after.head? = some false) :
    Steps (Place.Lt compare) search.direction search.origin
        (arrivalPlace keyAt before after search.direction) ∧
      ¬ search.origin.Lt compare (backPlace keyAt before) ∧
      ¬ (frontPlace keyAt after).Lt compare search.origin := by
  have order := lawful.weakOrder
  have inside := seen.rep.inside
  have keyed := seen.rep.keyed
  rw [split] at inside keyed
  have ahead : ¬ (frontPlace keyAt after).Lt compare search.origin ∧
      (search.direction = .forward → search.origin.Lt compare (frontPlace keyAt after)) := by
    cases after with
    | nil => cases search <;> simp [frontPlace, Place.Lt, Search.origin, Search.direction]
    | cons y later =>
      rw [List.head?_cons, goesOn, keyed y (by simp)] at stops
      cases search with
      | seek target =>
        have notBelow : ¬ compare (keyAt y) target < 0 := by simpa [Search.bound] using stops
        exact ⟨notBelow, fun _ => notBelow⟩
      | last => simp [Search.bound] at stops
      | prev key =>
        have notBelow : ¬ compare (keyAt y) key < 0 := by simpa [Search.bound] using stops
        exact ⟨notBelow, fun forward => by cases forward⟩
  have back : ¬ search.origin.Lt compare (backPlace keyAt before) ∧
      (search.direction = .backward → (backPlace keyAt before).Lt compare search.origin) := by
    rcases List.eq_nil_or_concat before with rfl | ⟨earlier, x, rfl⟩
    · cases search <;> simp [backPlace, Place.Lt, Search.origin, Search.direction]
    · rw [List.concat_eq_append] at below inside ⊢
      rw [List.getLastD_concat] at below
      have isBelow := below (Nat.ne_of_gt (inside x (by simp)).1)
      have place : backPlace keyAt (earlier ++ [x]) = .on (keyAt x) := by
        simp [backPlace]
      rw [place]
      cases search with
      | seek target => exact ⟨not_not.mpr (isBelow target rfl), fun backward => by cases backward⟩
      | last => exact ⟨id, fun _ => trivial⟩
      | prev key => exact ⟨order.asymm (isBelow key rfl), fun _ => isBelow key rfl⟩
  refine ⟨?_, back.1, ahead.1⟩
  cases isDirection : search.direction with
  | forward => exact ahead.2 isDirection
  | backward => exact back.2 isDirection

/-- The node that a search returns. -/
theorem Represents.found_eq (rep : Represents compare config.list levels keyAt)
    {before after : List Nat} (split : levels 0 = before ++ after) (search : Search Key) :
    it.found config.list search (before.getLastD head) after.head? =
      it.arrive config.list search.direction (arrivalNode before after search.direction) := by
  have last : notHead (before.getLastD head) = before.getLast? := by
    rcases List.eq_nil_or_concat before with rfl | ⟨earlier, x, rfl⟩
    · rfl
    · rw [List.concat_eq_append] at split ⊢
      have positive := (rep.inside x (by simp [split])).1
      rw [List.getLastD_concat, List.getLast?_concat, notHead, if_neg (Nat.ne_of_gt positive)]
  cases search with
  | seek target => rfl
  | last => exact congrArg (it.arrive config.list .backward) last
  | prev key => exact congrArg (it.arrive config.list .backward) last

/-- A round of a search. -/
theorem Seen.searchStep_ok {visible : Nat → List Nat} (seen : Seen compare config visible keyAt)
    (lawful : ThreeWay compare) (separates : ∀ a b, compare a b = 0 → a = b)
    (ok : IteratorOk compare visible keyAt config.begun it) {search : Search Key} {level x : Nat}
    (standing : it.phase = .descending search level x) :
    IteratorOk compare visible keyAt config.begun
      (searchStep compare config.list it search level x) := by
  obtain ⟨finished, walk, hasBegun, node, phase⟩ := ok
  rw [standing] at phase
  obtain ⟨origin, inHeight, listed, below⟩ := phase
  obtain ⟨before, after, split, rfl, read⟩ := seen.rep.exists_next inHeight listed
  have asserted : assertion compare config.list search (before.getLastD head) = some true := by
    cases search with
    | prev key =>
      rw [assertion]
      split_ifs with isHead
      · rfl
      · have onZero := (seen.rep.sublist_zero level).subset
          ((List.mem_cons.mp listed).resolve_left isHead)
        rw [seen.rep.keyed _ onZero, Option.map_some, decide_eq_true (below isHead key rfl)]
    | _ => rfl
  have phased : ∀ {phase}, PhaseOk compare visible keyAt (current it.origin it.trail) phase →
      IteratorOk compare visible keyAt config.begun { it with phase } := fun phaseOk =>
    ⟨finished, walk, hasBegun, node, phaseOk⟩
  have down (stops : goesOn compare config.list search after.head? = some false) :
      IteratorOk compare visible keyAt config.begun
        (searchStep compare config.list it search level (before.getLastD head)) := by
    rw [searchStep, asserted, read]
    simp only [stops]
    split_ifs with bottom
    · subst bottom
      obtain ⟨steps, beside⟩ := seen.stops_beside lawful split below stops
      rw [seen.rep.found_eq split]
      rw [← origin] at steps beside
      exact seen.arrive_ok lawful separates split finished walk hasBegun steps beside
    · have lower := (seen.rep.nested (level - 1)).cons_cons head
      rw [Nat.sub_add_cancel (by omega)] at lower
      exact phased ⟨origin, by omega, lower.subset listed, below⟩
  cases after with
  | nil => exact down rfl
  | cons y later =>
    have inLevel : y ∈ visible level := by simp [split]
    have keyed := seen.rep.keyed y ((seen.rep.sublist_zero level).subset inLevel)
    have onward (goes : goesOn compare config.list search (some y) = some true)
        (isBelow : ∀ bound, search.bound = some bound → compare (keyAt y) bound < 0) :
        IteratorOk compare visible keyAt config.begun
          (searchStep compare config.list it search level (before.getLastD head)) := by
      rw [searchStep, asserted, read]
      simp only [List.head?_cons, goes]
      exact phased ⟨origin, inHeight, List.mem_cons_of_mem _ inLevel, fun _ => isBelow⟩
    cases isBound : search.bound with
    | none => exact onward (by simp [goesOn, isBound]) (by simp [isBound])
    | some bound =>
      by_cases smaller : compare (keyAt y) bound < 0
      · exact onward (by simp [goesOn, isBound, keyed, smaller]) (by simpa [isBound] using smaller)
      · exact down (by simp [goesOn, isBound, keyed, smaller])

/-- A step of an iterator. -/
theorem Seen.iteratorAccess_ok {visible : Nat → List Nat}
    (seen : Seen compare config visible keyAt) (lawful : ThreeWay compare)
    (separates : ∀ a b, compare a b = 0 → a = b)
    (ok : IteratorOk compare visible keyAt config.begun it) {action : IteratorAccess Key}
    (stepped : iteratorAccess compare config it action = some after) :
    IteratorOk compare visible keyAt config.begun after := by
  have begins : ∀ search : Search Key, (∀ key, Place.on key ≠ search.origin) →
      IteratorOk compare visible keyAt config.begun
        ⟨none, .started search, config.finished, search.origin, []⟩ := by
    intro search noKey
    refine ⟨seen.finished, .unmoved (Place.connected lawful separates) _, fun key visited => ?_,
      fun x stands => (by cases stands), rfl⟩
    exact absurd (List.mem_singleton.mp visited) (noKey key)
  cases action with
  | seekToFirst =>
    simp only [iteratorAccess] at stepped
    split at stepped
    · have read := @LinkChain.next_getLastD _ _ head [] _ (seen.rep.chain 0 (by decide))
      rw [List.getLastD_nil] at read
      rw [read] at stepped
      rw [← Option.some.inj stepped]
      refine seen.arrive_ok lawful separates (List.nil_append _).symm seen.finished
        (.unmoved (Place.connected lawful separates) _) (fun key visited => ?_) ?_ ⟨id, ?_⟩
      · cases List.mem_singleton.mp visited
      · simp only [current, arrivalPlace, frontPlace, Steps]
        cases visible 0 <;> trivial
      · simp only [current, frontPlace]
        cases visible 0 <;> exact id
    · cases stepped
  | beginSeek target =>
    simp only [iteratorAccess] at stepped
    split at stepped
    · exact Option.some.inj stepped ▸ begins (.seek target) fun _ => by simp [Search.origin]
    · cases stepped
  | beginSeekToLast =>
    simp only [iteratorAccess] at stepped
    split at stepped
    · exact Option.some.inj stepped ▸ begins .last fun _ => by simp [Search.origin]
    · cases stepped
  | next =>
    simp only [iteratorAccess] at stepped
    split at stepped
    next x resting stands =>
      obtain ⟨listed, place⟩ := ok.node x stands
      have notHead : x ≠ head := Nat.ne_of_gt (seen.rep.inside x listed).1
      obtain ⟨before, after, split, isLast, read⟩ :=
        seen.rep.exists_next (by decide) (List.mem_cons_of_mem _ listed)
      have back : backPlace keyAt before = .on (keyAt x) := by
        rcases List.eq_nil_or_concat before with rfl | ⟨earlier, last, rfl⟩
        · exact absurd isLast.symm notHead
        · rw [List.concat_eq_append, List.getLastD_concat] at isLast
          simp [backPlace, isLast]
      have order := lawful.weakOrder
      have steps : (Place.on (keyAt x)).Lt compare (frontPlace keyAt after) := by
        cases after with
        | nil => trivial
        | cons y later =>
          have strict := seen.strict lawful separates
          rw [split, List.map_append] at strict
          have member : x ∈ before := by
            rcases List.eq_nil_or_concat before with rfl | ⟨earlier, last, rfl⟩
            · exact absurd isLast.symm notHead
            · rw [List.concat_eq_append, List.getLastD_concat] at isLast
              simp [isLast]
          exact (List.pairwise_append.mp strict).2.2 _ (List.mem_map_of_mem member) _
            List.mem_cons_self
      rw [read] at stepped
      rw [← Option.some.inj stepped]
      refine seen.arrive_ok lawful separates split ok.finished ok.walk ok.begun ?_ ?_
      · rw [place]
        exact steps
      · rw [place, back]
        exact ⟨order.irrefl _, (Place.weakOrder lawful).asymm steps⟩
    next => cases stepped
  | beginPrev =>
    simp only [iteratorAccess] at stepped
    split at stepped
    next x resting stands =>
      obtain ⟨listed, place⟩ := ok.node x stands
      rw [seen.rep.keyed x listed] at stepped
      rw [← Option.some.inj stepped]
      exact ⟨ok.finished, ok.walk, ok.begun, ok.node, place⟩
    next => cases stepped
  | loadMaxHeight =>
    simp only [iteratorAccess] at stepped
    split at stepped
    next search standing =>
      have phase := ok.phase
      rw [standing] at phase
      have low := seen.rep.minHeight
      have high := seen.rep.heightBound
      rw [← Option.some.inj stepped]
      exact ⟨ok.finished, ok.walk, ok.begun, ok.node, phase, by omega, List.mem_cons_self ..,
        fun notHead => absurd rfl notHead⟩
    next => cases stepped
  | loadNext =>
    simp only [iteratorAccess] at stepped
    split at stepped
    next search level x standing =>
      rw [← Option.some.inj stepped]
      exact seen.searchStep_ok lawful separates ok standing
    next => cases stepped

end Iterator

/-! ### Every run -/

section Runs

variable {compare : Key → Key → Int} {crowd next : Crowd Key}

/-- What is known of all threads. -/
def CrowdOk (compare : Key → Key → Int) (crowd : Crowd Key) : Prop :=
  Invariant compare crowd.shared ∧ ∀ thread visible keyAt,
    Seen compare crowd.shared visible keyAt →
      IteratorOk compare visible keyAt crowd.shared.begun (crowd.iterators thread)

/-- At first all iterators rest, and none is valid. -/
theorem CrowdOk.initial [Inhabited Key] (lawful : ThreeWay compare)
    (separates : ∀ a b, compare a b = 0 → a = b) : CrowdOk compare (Crowd.initial : Crowd Key) := by
  refine ⟨initial_invariant compare, fun thread visible keyAt seen => ?_⟩
  refine ⟨fun key member => ?_, .unmoved (Place.connected lawful separates) _,
    fun key visited => ?_, fun x stands => ?_, trivial⟩
  · cases member
  · cases List.mem_singleton.mp visited
  · cases stands

/-- Any access by the writer or an iterator keeps what is known of all of them. -/
theorem CrowdOk.access (lawful : ThreeWay compare) (separates : ∀ a b, compare a b = 0 → a = b)
    {action : CrowdAccess Key} (ok : CrowdOk compare crowd) (fresh : FreshShared crowd action)
    (stepped : crowdAccess compare crowd action = some next) : CrowdOk compare next := by
  obtain ⟨invariant, iterators⟩ := ok
  cases action with
  | shared action =>
    obtain ⟨shared, accessed, rfl⟩ := Option.map_eq_some_iff.mp stepped
    refine ⟨invariant.access lawful separates fresh accessed, fun thread visible keyAt seen => ?_⟩
    obtain ⟨grows, more⟩ := access_grows lawful invariant accessed
    obtain ⟨levels, oldKeyAt, before, -⟩ := invariant
    exact (iterators thread levels oldKeyAt before).grow before.rep
      (grows.grows before.rep seen.rep) more
  | iterator thread action =>
    obtain ⟨it, accessed, rfl⟩ := Option.map_eq_some_iff.mp stepped
    refine ⟨invariant, fun other visible keyAt seen => ?_⟩
    simp only [Function.update_apply]
    split_ifs with same
    · exact seen.iteratorAccess_ok lawful separates (iterators thread visible keyAt seen) accessed
    · exact iterators other visible keyAt seen

/-- However a writer and any number of iterators interleave: no iterator reads a link that no
store has initialised, runs into an assertion or gets stuck in a search, and its trail is a
walk that misses no key finished when it was positioned: such a key between two of its
places is one of them. Every `Next` leads to a larger key, every `Prev` to a smaller one, and
it only meets keys whose insertion has begun. -/
theorem iterators_miss_no_key [Inhabited Key] (compare : Key → Key → Int)
    (lawful : ThreeWay compare) (separates : ∀ a b, compare a b = 0 → a = b)
    (actions : List (CrowdAccess Key)) (crowd : Crowd Key)
    (meets : Machine.Meets (crowdAccess compare) FreshShared Crowd.initial actions)
    (ran : Machine.run (crowdAccess compare) Crowd.initial actions = some crowd) (thread : Nat) :
    IsWalk (Place.Lt compare) (crowd.iterators thread).Needed (crowd.iterators thread).origin
      (crowd.iterators thread).trail ∧
    (∀ key, .on key ∈ places (crowd.iterators thread).origin (crowd.iterators thread).trail →
      key ∈ crowd.shared.begun) ∧
    (∀ x, (crowd.iterators thread).node = some x → ∃ key, crowd.shared.list.keyOf x = some key ∧
      current (crowd.iterators thread).origin (crowd.iterators thread).trail = .on key) ∧
    match (crowd.iterators thread).phase with
    | .resting => (crowd.iterators thread).node.isSome →
        (crowdAccess compare crowd (.iterator thread .next)).isSome ∧
          (crowdAccess compare crowd (.iterator thread .beginPrev)).isSome
    | .started _ => (crowdAccess compare crowd (.iterator thread .loadMaxHeight)).isSome
    | .descending .. => (crowdAccess compare crowd (.iterator thread .loadNext)).isSome
    | .broken => False := by
  have holds : CrowdOk compare crowd := Machine.run_invariant
    (fun ok fresh stepped => ok.access lawful separates fresh stepped)
    (CrowdOk.initial lawful separates) meets ran
  obtain ⟨⟨visible, keyAt, seen, -⟩, iterators⟩ := holds
  obtain ⟨-, walk, begun, node, phase⟩ := iterators thread visible keyAt seen
  refine ⟨walk, begun, fun x stands => ?_, ?_⟩
  · obtain ⟨listed, place⟩ := node x stands
    exact ⟨keyAt x, seen.rep.keyed x listed, place⟩
  · simp only [crowdAccess, Option.isSome_map]
    generalize crowd.iterators thread = it at phase ⊢
    cases standing : it.phase with
    | resting =>
      intro stands
      obtain ⟨x, isNode⟩ := Option.isSome_iff_exists.mp stands
      simp only [iteratorAccess, standing, isNode]
      constructor
      · cases crowd.shared.list.next 0 x <;> rfl
      · cases crowd.shared.list.keyOf x <;> rfl
    | started search => simp [iteratorAccess, standing]
    | descending search level x => simp [iteratorAccess, standing]
    | broken =>
      rw [standing] at phase
      exact phase

/-- A key is inserted behind the iterator and met by `Next`. -/
theorem iterators_miss_no_key_next :
    ∃ crowd : Crowd Nat, Machine.run (crowdAccess fun a b : Nat => (a : Int) - b) Crowd.initial
        [.shared (.beginInsert 5 1), .shared .storeMaxHeight, .shared .storeNew, .shared .publish,
          .iterator 0 .seekToFirst, .shared (.beginInsert 7 1), .shared .storeMaxHeight,
          .shared .storeNew, .shared .publish, .iterator 0 .next] = some crowd ∧
      (crowd.iterators 0).trail = [(.forward, .on 7), (.forward, .on 5)] ∧
      (crowd.iterators 0).finishedBefore = [5] ∧
      IsWalk (Place.Lt fun a b : Nat => (a : Int) - b) (crowd.iterators 0).Needed .front
        [(.forward, .on 7), (.forward, .on 5)] := by
  refine ⟨_, rfl, rfl, rfl, ?_⟩
  exact (iterators_miss_no_key (fun a b : Nat => (a : Int) - b)
    ⟨fun a b => by rw [← Int.sign_neg, Int.neg_sub], fun first second => by omega⟩
    (fun a b same => by omega) [.shared (.beginInsert 5 1), .shared .storeMaxHeight,
      .shared .storeNew, .shared .publish, .iterator 0 .seekToFirst, .shared (.beginInsert 7 1),
      .shared .storeMaxHeight, .shared .storeNew, .shared .publish, .iterator 0 .next] _
    (Machine.meets_of_step rfl ⟨by decide, by decide, by decide⟩ <|
      Machine.meets_of_step rfl trivial <| Machine.meets_of_step rfl trivial <|
      Machine.meets_of_step rfl trivial <| Machine.meets_of_step rfl trivial <|
      Machine.meets_of_step rfl ⟨by decide, by decide, by decide⟩ <|
      Machine.meets_of_step rfl trivial <| Machine.meets_of_step rfl trivial <|
      Machine.meets_of_step rfl trivial <| Machine.meets_of_step rfl trivial trivial) rfl 0).1

end Runs

end LevelDbXy.SkipList
