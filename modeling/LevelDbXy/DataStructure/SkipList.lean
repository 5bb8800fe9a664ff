import LevelDbXy.Library.Cursor
import LevelDbXy.Library.LinkChain
import LevelDbXy.Library.WeakOrder

/-!
# The skip list

`data_structure/skip_list.h`. Nodes live in an arena and a pointer to a node is
its position there, `head` being the first. A node's `next_` array has as many
slots as the node is high; a slot that no store has initialised yet, and a slot
beyond the array, cannot be read. Reading one makes a search return `none`, as
does running out of the search's step budget, so a `some` result also says that
neither happened. The height that `RandomHeight` returned is an argument of
`insert`; `insertDrawing` is the one that draws it.
-/

namespace LevelDbXy

/-- `kMaxHeight`. -/
def kMaxHeight : Nat := 12

/-- `SkipList::Node`. The head's key is never read. -/
structure Node (Key : Type) where
  key : Option Key
  next : List (Option (Option Nat))

/-- `SkipList`: the nodes allocated so far, in order, and `max_height_`. -/
structure SkipList (Key : Type) where
  nodes : List (Node Key)
  maxHeight : Nat

namespace SkipList

variable {Key : Type}

/-- `head_`. -/
def head : Nat := 0

/-- The constructor: a head of full height whose links are all null. -/
def new : SkipList Key := ⟨[⟨none, List.replicate kMaxHeight (some none)⟩], 1⟩

/-- `x->Next(level)`, and `NoBarrier_Next` just as well. -/
def next (list : SkipList Key) (level x : Nat) : Option (Option Nat) :=
  (list.nodes[x]?.bind fun node => node.next[level]?).join

/-- `x->SetNext(level, target)`, and `NoBarrier_SetNext` just as well. -/
def setNext (list : SkipList Key) (level x : Nat) (target : Option Nat) : SkipList Key :=
  { list with nodes := list.nodes.modify x fun node =>
      { node with next := node.next.set level (some target) } }

/-- `x->key`. -/
def keyOf (list : SkipList Key) (x : Nat) : Option Key := list.nodes[x]?.bind Node.key

/-- `NewNode`: the links of a new node are not initialised. -/
def newNode (list : SkipList Key) (key : Key) (height : Nat) : SkipList Key :=
  { list with nodes := list.nodes ++ [⟨some key, List.replicate height none⟩] }

/-- `KeyIsAfterNode`: `n` is not null and its key is strictly below `key`. -/
def keyIsAfterNode (compare : Key → Key → Int) (list : SkipList Key) (key : Key) :
    Option Nat → Option Bool
  | none => some false
  | some n => (list.keyOf n).map fun nodeKey => decide (compare nodeKey key < 0)

/-- A budget no search of a well-formed list exhausts: on each level it visits
every node at most once. -/
def searchBudget (list : SkipList Key) : Nat := list.maxHeight * list.nodes.length

/-- The loop of `FindGreaterOrEqual`, which also fills `prev`. A call with a null
`prev` is the same search with the array dropped. -/
def findGreaterOrEqualLoop (compare : Key → Key → Int) (list : SkipList Key) (key : Key) :
    Nat → Nat → Nat → List (Option Nat) → Option (Option Nat × List (Option Nat))
  | 0, _, _, _ => none
  | fuel + 1, level, x, prev => do
    let next ← list.next level x
    let after ← list.keyIsAfterNode compare key next
    match after, next with
    | true, some y => findGreaterOrEqualLoop compare list key fuel level y prev
    | _, _ =>
      let prev := prev.set level (some x)
      if level = 0 then some (next, prev)
      else findGreaterOrEqualLoop compare list key fuel (level - 1) x prev

/-- `FindGreaterOrEqual`: the node found and the array of predecessors. -/
def findGreaterOrEqual (compare : Key → Key → Int) (list : SkipList Key) (key : Key) :
    Option (Option Nat × List (Option Nat)) :=
  findGreaterOrEqualLoop compare list key list.searchBudget (list.maxHeight - 1) head
    (List.replicate kMaxHeight none)

/-- The loop that `FindLessThan` and `FindLast` share: move on along a level while
`ahead` accepts the next node, else go down, and return the node on level 0. `check` is an
assertion about the node it stands on. -/
def descend (list : SkipList Key) (check : Nat → Option Bool) (ahead : Nat → Option Bool) :
    Nat → Nat → Nat → Option Nat
  | 0, _, _ => none
  | fuel + 1, level, x => do
    let holds ← check x
    if holds = false then none
    else
      let next ← list.next level x
      let accepted ← next.elim (some false) ahead
      match accepted, next with
      | true, some y => descend list check ahead fuel level y
      | _, _ => if level = 0 then some x else descend list check ahead fuel (level - 1) x

/-- `FindLessThan`: the last node below the key, or the head. Each round asserts that the
node it stands on is the head or below the key. -/
def findLessThan (compare : Key → Key → Int) (list : SkipList Key) (key : Key) : Option Nat :=
  descend list
    (fun x => if x = head then some true
      else (list.keyOf x).map fun nodeKey => decide (compare nodeKey key < 0))
    (fun y => (list.keyOf y).map fun nodeKey => !decide (0 ≤ compare nodeKey key))
    list.searchBudget (list.maxHeight - 1) head

/-- `FindLast`: the last node, or the head. -/
def findLast (list : SkipList Key) : Option Nat :=
  descend list (fun _ => some true) (fun _ => some true) list.searchBudget (list.maxHeight - 1) head

/-- `Equal`. -/
def equal (compare : Key → Key → Int) (a b : Key) : Bool := compare a b == 0

/-- `Contains`. -/
def contains (compare : Key → Key → Int) (list : SkipList Key) (key : Key) : Option Bool := do
  let (x, _) ← list.findGreaterOrEqual compare key
  match x with
  | none => some false
  | some x => (list.keyOf x).map (equal compare key)

/-- One round of the linking loop of `Insert`. -/
def linkLevel (x : Nat) (prev : List (Option Nat)) (list : SkipList Key) (level : Nat) :
    Option (SkipList Key) := do
  let before ← prev[level]?.join
  let after ← list.next level before
  some ((list.setNext level x after).setNext level before (some x))

/-- The entries of `prev` that `Insert` patches when the new node is the highest. -/
def patchPrev (prev : List (Option Nat)) (maxHeight height : Nat) : List (Option Nat) :=
  prev.mapIdx fun level before => if maxHeight ≤ level ∧ level < height then some head else before

/-- `Insert` of `key` in a node of the given height. -/
def insert (compare : Key → Key → Int) (list : SkipList Key) (key : Key) (height : Nat) :
    Option (SkipList Key) := do
  let (_, prev) ← list.findGreaterOrEqual compare key
  let prev := patchPrev prev list.maxHeight height
  let raised := { list with maxHeight := max list.maxHeight height }
  let x := list.nodes.length
  (List.range height).foldlM (linkLevel x prev) (raised.newNode key height)

/-- `Insert` with its assertion, which is that the search finds no equal key. -/
def insertAsserting (compare : Key → Key → Int) (list : SkipList Key) (key : Key) (height : Nat) :
    Option (SkipList Key) := do
  let found ← list.contains compare key
  if found then none else list.insert compare key height

/-- `Insert` calls in order, each with the height that was drawn. -/
def insertAll (compare : Key → Key → Int) (list : SkipList Key) (calls : List (Key × Nat)) :
    Option (SkipList Key) :=
  calls.foldlM (fun list call => list.insertAsserting compare call.1 call.2) list

/-- The nodes on a level, from `x` on. -/
def levelFrom (list : SkipList Key) (level : Nat) : Nat → Nat → Option (List Nat)
  | 0, _ => none
  | fuel + 1, x => do
    let next ← list.next level x
    match next with
    | none => some []
    | some y => (list.levelFrom level fuel y).map (y :: ·)

/-- The keys on a level in the order of its links. -/
def levelKeys (list : SkipList Key) (level : Nat) : Option (List Key) := do
  let nodes ← list.levelFrom level (list.nodes.length + 1) head
  nodes.mapM list.keyOf

/-! ### Iterators, as the node they stand on -/

/-- `Iterator::Seek`. -/
def seek (compare : Key → Key → Int) (list : SkipList Key) (target : Key) : Option (Option Nat) :=
  (list.findGreaterOrEqual compare target).map Prod.fst

/-- `Iterator::SeekToFirst`. -/
def seekToFirst (list : SkipList Key) : Option (Option Nat) := list.next 0 head

/-- `Iterator::Next` while valid. -/
def iterNext (list : SkipList Key) (node : Nat) : Option (Option Nat) := list.next 0 node

/-- The head, taken for no node. -/
def notHead (x : Nat) : Option Nat := if x = head then none else some x

/-- `Iterator::SeekToLast`. -/
def seekToLast (list : SkipList Key) : Option (Option Nat) := list.findLast.map notHead

/-- `Iterator::Prev` while valid. -/
def iterPrev (compare : Key → Key → Int) (list : SkipList Key) (node : Nat) :
    Option (Option Nat) := do
  let key ← list.keyOf node
  let x ← list.findLessThan compare key
  some (notHead x)

/-- A call on an iterator that stands on a node or is not valid. `Next` and `Prev` assert
that it is. -/
def iterStep (compare : Key → Key → Int) (list : SkipList Key) (node : Option Nat) :
    Cursor.Call Key → Option (Option Nat)
  | .seekToFirst => list.seekToFirst
  | .seekToLast => list.seekToLast
  | .seek target => list.seek compare target
  | .next => node.bind list.iterNext
  | .prev => node.bind (list.iterPrev compare)

/-- Calls on a new iterator, which is not valid. -/
def iterRun (compare : Key → Key → Int) (list : SkipList Key) (calls : List (Cursor.Call Key)) :
    Option (Option Nat) :=
  calls.foldlM (list.iterStep compare) none

/-- The keys met by `Next` until the iterator is no longer valid. -/
def scanFrom (list : SkipList Key) : Nat → Option Nat → Option (List Key)
  | _, none => some []
  | 0, some _ => none
  | fuel + 1, some node => do
    let key ← list.keyOf node
    let following ← list.iterNext node
    let rest ← list.scanFrom fuel following
    some (key :: rest)

/-- `SeekToFirst`, then `Next` until the iterator is no longer valid. -/
def scan (list : SkipList Key) : Option (List Key) := do
  let first ← list.seekToFirst
  list.scanFrom list.nodes.length first

/-! ### Reading after writing -/

/-- Node `x` has a link slot at `level`, initialised or not. -/
def HasSlot (list : SkipList Key) (level x : Nat) : Prop :=
  ∃ node, list.nodes[x]? = some node ∧ level < node.next.length

/-- A link that can be read is in its node. -/
theorem hasSlot_of_next {list : SkipList Key} {level x : Nat} {target : Option Nat}
    (read : list.next level x = some target) : list.HasSlot level x := by
  rw [next, Option.join_eq_some_iff] at read
  obtain ⟨node, found, slot⟩ := Option.bind_eq_some_iff.mp read
  exact ⟨node, found, (List.getElem?_eq_some_iff.mp slot).1⟩

/-- A store is read back, and every other link keeps its value. -/
theorem next_setNext {list : SkipList Key} {level x : Nat} (slot : list.HasSlot level x)
    (target : Option Nat) (level' x' : Nat) :
    (list.setNext level x target).next level' x' =
      if x' = x ∧ level' = level then some target else list.next level' x' := by
  obtain ⟨node, found, inside⟩ := slot
  simp only [next, setNext, List.getElem?_modify]
  by_cases sameNode : x = x'
  · subst sameNode
    by_cases sameLevel : level = level'
    · subst sameLevel
      simp [found, inside]
    · simp [found, sameLevel, Ne.symm sameLevel]
  · simp [sameNode, Ne.symm sameNode]

@[simp] theorem hasSlot_setNext {list : SkipList Key} (level x : Nat) (target : Option Nat)
    (level' x' : Nat) :
    (list.setNext level x target).HasSlot level' x' ↔ list.HasSlot level' x' := by
  simp only [HasSlot, setNext, List.getElem?_modify]
  cases found : list.nodes[x']? with
  | none => simp
  | some node => by_cases same : x = x' <;> simp [same]

@[simp] theorem keyOf_setNext (list : SkipList Key) (level x : Nat) (target : Option Nat)
    (x' : Nat) : (list.setNext level x target).keyOf x' = list.keyOf x' := by
  simp only [keyOf, setNext, List.getElem?_modify]
  cases found : list.nodes[x']? with
  | none => simp
  | some node => by_cases same : x = x' <;> simp [same]

@[simp] theorem length_nodes_setNext (list : SkipList Key) (level x : Nat) (target : Option Nat) :
    (list.setNext level x target).nodes.length = list.nodes.length := by
  simp [setNext]

@[simp] theorem maxHeight_setNext (list : SkipList Key) (level x : Nat) (target : Option Nat) :
    (list.setNext level x target).maxHeight = list.maxHeight := rfl

end SkipList

end LevelDbXy
