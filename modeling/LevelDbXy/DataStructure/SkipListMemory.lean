import LevelDbXy.DataStructure.SkipListInsert
import LevelDbXy.Library.FlatMemory
import LevelDbXy.Memory.ArenaUsage
import Mathlib.Data.List.Pairwise

/-!
# The skip list in memory

`data_structure/skip_list.h` once more, on the bytes that the arena hands out: a node is the
address of its memory, its key is a pointer in the first word of it and `next_` are the words
behind, and a word is eight bytes, the low one first. The null pointer is 0. Keys are pointers
here, as in the memtable, and the comparator reads what they point to.

`Shows` says that a table in memory shows a `SkipList` of the strings that the keys point to:
each node has a region of the arena for itself, and so has each key. The operations on the
memory are followed by those on the list; the step budgets of the searches are the caller's.
-/

namespace LevelDbXy

open Coding FlatMemory

/-- The memory, by addresses. -/
abbrev Memory := Nat → UInt8

/-- A pointer is read. -/
def loadWord (memory : Memory) (address : Nat) : Nat := decodeFixed64 (read memory address 8)

/-- A pointer is stored. -/
def storeWord (memory : Memory) (address word : Nat) : Memory :=
  write memory address (encodeFixed64 word)

/-- `SkipList` in the memory of its arena: `arena_`, `head_` and `max_height_`. -/
structure StoredSkipList where
  memory : Memory
  arena : Arena
  head : Nat
  maxHeight : Nat

namespace StoredSkipList

/-- `sizeof(Node)`: the key and one link. -/
def sizeofNode : Nat := 16

/-- `sizeof(std::atomic<Node *>)`. -/
def sizeofLink : Nat := 8

/-- The address of `x->next_[level]`. -/
def slotAt (x level : Nat) : Nat := x + 8 + 8 * level

/-- `x->Next(level)`, and `NoBarrier_Next` just as well. -/
def next (table : StoredSkipList) (level x : Nat) : Nat := loadWord table.memory (slotAt x level)

/-- `x->SetNext(level, target)`, and `NoBarrier_SetNext` just as well. -/
def setNext (table : StoredSkipList) (level x target : Nat) : StoredSkipList :=
  { table with memory := storeWord table.memory (slotAt x level) target }

/-- `x->key`. -/
def keyOf (table : StoredSkipList) (x : Nat) : Nat := loadWord table.memory x

/-- What `NewNode` asks the arena for. -/
def nodeRequest (height fresh : Nat) : Arena.Request :=
  ⟨true, sizeofNode + sizeofLink * (height - 1), fresh⟩

/-- `NewNode`: the key is stored, the links are left as they are. -/
def newNode (table : StoredSkipList) (key height fresh : Nat) : Nat × StoredSkipList :=
  let (x, arena) := table.arena.serve (nodeRequest height fresh)
  (x, { table with arena, memory := storeWord table.memory x key })

/-- The constructor, with the address that `operator new[]` may return for the head. -/
def new (memory : Memory) (arena : Arena) (fresh : Nat) : StoredSkipList :=
  let (x, table) := newNode ⟨memory, arena, 0, 1⟩ 0 kMaxHeight fresh
  (List.range kMaxHeight).foldl (fun table level => table.setNext level x 0)
    { table with head := x }

section Searches

variable (compareAt : Memory → Nat → Nat → Int)

/-- `KeyIsAfterNode`. -/
def keyIsAfterNode (table : StoredSkipList) (key n : Nat) : Bool :=
  n != 0 && decide (compareAt table.memory (table.keyOf n) key < 0)

/-- The loop of `FindGreaterOrEqual`. -/
def findGreaterOrEqualLoop (table : StoredSkipList) (key : Nat) :
    Nat → Nat → Nat → List (Option Nat) → Option (Nat × List (Option Nat))
  | 0, _, _, _ => none
  | fuel + 1, level, x, prev =>
    let next := table.next level x
    if table.keyIsAfterNode compareAt key next then
      findGreaterOrEqualLoop table key fuel level next prev
    else
      let prev := prev.set level (some x)
      if level = 0 then some (next, prev)
      else findGreaterOrEqualLoop table key fuel (level - 1) x prev

/-- `FindGreaterOrEqual`. -/
def findGreaterOrEqual (table : StoredSkipList) (fuel key : Nat) :
    Option (Nat × List (Option Nat)) :=
  findGreaterOrEqualLoop compareAt table key fuel (table.maxHeight - 1) table.head
    (List.replicate kMaxHeight none)

/-- The loop that `FindLessThan` and `FindLast` share. -/
def descend (table : StoredSkipList) (check ahead : Nat → Bool) : Nat → Nat → Nat → Option Nat
  | 0, _, _ => none
  | fuel + 1, level, x =>
    if check x = false then none
    else
      let next := table.next level x
      if next != 0 && ahead next then descend table check ahead fuel level next
      else if level = 0 then some x else descend table check ahead fuel (level - 1) x

/-- `FindLessThan`. -/
def findLessThan (table : StoredSkipList) (fuel key : Nat) : Option Nat :=
  descend table
    (fun x => x == table.head || decide (compareAt table.memory (table.keyOf x) key < 0))
    (fun y => !decide (0 ≤ compareAt table.memory (table.keyOf y) key))
    fuel (table.maxHeight - 1) table.head

/-- `FindLast`. -/
def findLast (table : StoredSkipList) (fuel : Nat) : Option Nat :=
  descend table (fun _ => true) (fun _ => true) fuel (table.maxHeight - 1) table.head

/-- One round of the linking loop of `Insert`. -/
def linkLevel (x : Nat) (prev : List (Option Nat)) (table : StoredSkipList) (level : Nat) :
    Option StoredSkipList := do
  let before ← prev[level]?.join
  let after := table.next level before
  some ((table.setNext level x after).setNext level before x)

/-- The entries of `prev` that `Insert` patches when the new node is the highest. -/
def patchPrev (head : Nat) (prev : List (Option Nat)) (maxHeight height : Nat) :
    List (Option Nat) :=
  prev.mapIdx fun level before => if maxHeight ≤ level ∧ level < height then some head else before

/-- `Insert` of the key that a pointer points to, in a node of the given height. -/
def insert (table : StoredSkipList) (fuel key height fresh : Nat) : Option StoredSkipList := do
  let (_, prev) ← table.findGreaterOrEqual compareAt fuel key
  let prev := patchPrev table.head prev table.maxHeight height
  let (x, table) := newNode { table with maxHeight := max table.maxHeight height } key height fresh
  (List.range height).foldlM (linkLevel x prev) table

/-- The head, taken for the null pointer. -/
def notHead (table : StoredSkipList) (x : Nat) : Nat := if x = table.head then 0 else x

/-- A call on an iterator, which stands on a node or holds the null pointer; `Next` and `Prev`
assert that it is valid. The target of `Seek` is a pointer. -/
def iterStep (table : StoredSkipList) (fuel node : Nat) : Cursor.Call Nat → Option Nat
  | .seekToFirst => some (table.next 0 table.head)
  | .seekToLast => (table.findLast fuel).map table.notHead
  | .seek target => (table.findGreaterOrEqual compareAt fuel target).map Prod.fst
  | .next => if node = 0 then none else some (table.next 0 node)
  | .prev =>
    if node = 0 then none
    else (table.findLessThan compareAt fuel (table.keyOf node)).map table.notHead

end Searches

/-! ### Words -/

/-- A stored word is loaded. -/
theorem loadWord_storeWord (memory : Memory) (address : Nat) {word : Nat} (small : word < 2 ^ 64) :
    loadWord (storeWord memory address word) address = word := by
  have held : read (storeWord memory address word) address 8 = encodeFixed64 word :=
    holds_write memory address (encodeFixed64 word)
  have decoded := decodeFixed64_encodeFixed64 word []
  rw [List.append_nil] at decoded
  rw [loadWord, held, decoded, truncU64, Nat.mod_eq_of_lt small]

/-- Memory that agrees on eight bytes has the same word there. -/
theorem loadWord_congr {memory other : Memory} {address : Nat}
    (agrees : ∀ a, address ≤ a → a < address + 8 → other a = memory a) :
    loadWord other address = loadWord memory address := by
  rw [loadWord, read_congr agrees, loadWord]

/-- A store changes no byte but its eight. -/
theorem storeWord_outside {a : Nat} (memory : Memory) {address : Nat} (word : Nat)
    (outside : a < address ∨ address + 8 ≤ a) : storeWord memory address word a = memory a :=
  write_outside memory _ (by rwa [length_encodeFixed64])

/-! ### What a table in memory shows -/

/-- The blocks can be addressed, and none of them is at the null pointer. -/
def Placed (blocks : List Region) : Prop :=
  ∀ block ∈ blocks, 0 < block.base ∧ block.base + block.size ≤ 2 ^ 64

instance (blocks : List Region) : Decidable (Placed blocks) :=
  inferInstanceAs (Decidable (∀ _ ∈ _, _))

/-- The address of a target, the null pointer for none. -/
def addressOf (place : Nat → Nat) (target : Option Nat) : Nat := target.elim 0 place

/-- Node `x` of the list is at `place x`, with the string that its key points to. The regions
that the arena has returned are known by their places; `Good` is what all the keys have in
common. -/
structure Shows (Good : Bytes → Prop) (table : StoredSkipList) (list : SkipList Bytes)
    (place : Nat → Nat) (returned : List Arena.Returned) : Prop where
  consistent : table.arena.Consistent returned
  placed : Placed table.arena.blocks
  head : table.head = place SkipList.head
  hasHead : SkipList.head < list.nodes.length
  maxHeight : table.maxHeight = list.maxHeight
  node : ∀ {x}, x < list.nodes.length → ∃ links,
    ⟨⟨place x, 8 * (links + 1)⟩, true⟩ ∈ returned ∧ ∀ {level}, list.HasSlot level x → level < links
  apart : ∀ {x y}, x < list.nodes.length → y < list.nodes.length → place x = place y → x = y
  key : ∀ {x key}, list.keyOf x = some key → Good key ∧
    Holds table.memory (table.keyOf (place x)) key ∧
      ⟨⟨table.keyOf (place x), key.length⟩, false⟩ ∈ returned
  link : ∀ {level x target}, list.next level x = some target →
    table.next level (place x) = addressOf place target ∧
      ∀ y, target = some y → y < list.nodes.length

/-- A node with a link is allocated. -/
theorem hasNode_of_hasSlot {list : SkipList Bytes} {level x : Nat} (slot : list.HasSlot level x) :
    x < list.nodes.length := by
  obtain ⟨node, found, -⟩ := slot
  exact (List.getElem?_eq_some_iff.mp found).1

/-- So is a node with a key. -/
theorem hasNode_of_keyOf {list : SkipList Bytes} {x : Nat} {key : Bytes}
    (keyed : list.keyOf x = some key) : x < list.nodes.length := by
  obtain ⟨node, found, -⟩ := Option.bind_eq_some_iff.mp keyed
  exact (List.getElem?_eq_some_iff.mp found).1

namespace Shows

variable {Good : Bytes → Prop} {table : StoredSkipList} {list : SkipList Bytes}
  {place : Nat → Nat} {returned : List Arena.Returned}
  (shows_ : Shows Good table list place returned)

include shows_

/-- A region that was returned can be addressed. -/
theorem region_placed {r : Arena.Returned} (listed : r ∈ returned) :
    0 < r.region.base ∧ r.region.base + r.region.size ≤ 2 ^ 64 := by
  obtain ⟨block, member, low, high⟩ := shows_.consistent.inBlock r listed
  obtain ⟨positive, bounded⟩ := shows_.placed block member
  omega

/-- A node is not at the null pointer, and its address is a word. -/
theorem place_bounds {x : Nat} (inside : x < list.nodes.length) :
    0 < place x ∧ place x < 2 ^ 64 := by
  obtain ⟨links, listed, -⟩ := shows_.node inside
  have bounds := shows_.region_placed listed
  simp only at bounds
  omega

/-- Two regions at different places, or for different purposes, share no byte. -/
theorem regions_apart {r s : Arena.Returned} (first : r ∈ returned) (second : s ∈ returned)
    (different : r ≠ s) : r.region.Disjoint s.region := by
  have symmetric : Std.Symm fun a b : Arena.Returned => a.region.Disjoint b.region :=
    ⟨fun _ _ disjoint => disjoint.symm⟩
  exact shows_.consistent.apart.forall first second different

/-- The words of the nodes share no byte: `first` and `second` are their numbers in a node. -/
theorem words_apart {x y first second : Nat} (inX : x < list.nodes.length)
    (inY : y < list.nodes.length) (firstIn : first = 0 ∨ list.HasSlot (first - 1) x)
    (secondIn : second = 0 ∨ list.HasSlot (second - 1) y) (different : x ≠ y ∨ first ≠ second) :
    place x + 8 * first + 8 ≤ place y + 8 * second ∨
      place y + 8 * second + 8 ≤ place x + 8 * first := by
  by_cases same : x = y
  · subst same
    omega
  · obtain ⟨links, listed, slots⟩ := shows_.node inX
    obtain ⟨links', listed', slots'⟩ := shows_.node inY
    have firstBound : first ≤ links := by
      rcases firstIn with rfl | slot
      · omega
      · have := slots slot
        omega
    have secondBound : second ≤ links' := by
      rcases secondIn with rfl | slot
      · omega
      · have := slots' slot
        omega
    have disjoint := shows_.regions_apart listed listed' fun equal =>
      same (shows_.apart inX inY (congrArg (fun r => r.region.base) equal))
    simp only [Region.Disjoint] at disjoint
    omega

/-- No key lies in the words of a node. -/
theorem key_apart {x y word : Nat} {key : Bytes} (keyed : list.keyOf x = some key)
    (inY : y < list.nodes.length) (wordIn : word = 0 ∨ list.HasSlot (word - 1) y) :
    table.keyOf (place x) + key.length ≤ place y + 8 * word ∨
      place y + 8 * word + 8 ≤ table.keyOf (place x) := by
  obtain ⟨-, -, listed⟩ := shows_.key keyed
  obtain ⟨links, listed', slots⟩ := shows_.node inY
  have bound : word ≤ links := by
    rcases wordIn with rfl | slot
    · omega
    · have := slots slot
      omega
  have disjoint := shows_.regions_apart listed listed' fun equal =>
    Bool.false_ne_true (congrArg Arena.Returned.aligned equal)
  simp only [Region.Disjoint] at disjoint
  omega

/-- The store of a link shows the list with that link. -/
theorem setNext {level x : Nat} (slot : list.HasSlot level x) {target : Option Nat}
    (valid : ∀ y, target = some y → y < list.nodes.length) :
    Shows Good (table.setNext level (place x) (addressOf place target))
      (list.setNext level x target) place returned := by
  have inX := hasNode_of_hasSlot slot
  have small : addressOf place target < 2 ^ 64 := by
    cases target with
    | none => exact Nat.two_pow_pos 64
    | some y => exact (shows_.place_bounds (valid y rfl)).2
  -- what no word of the node at `slotAt` contains is kept
  have keeps : ∀ a, (a < place x + 8 * (level + 1) ∨ place x + 8 * (level + 1) + 8 ≤ a) →
      (table.setNext level (place x) (addressOf place target)).memory a = table.memory a := by
    intro a outside
    exact storeWord_outside _ _ (by unfold slotAt; omega)
  have keyKept : ∀ {y}, y < list.nodes.length →
      (table.setNext level (place x) (addressOf place target)).keyOf (place y) =
        table.keyOf (place y) := by
    intro y inY
    refine loadWord_congr fun a low high => keeps a ?_
    have apart := @words_apart _ _ _ _ _ shows_ y x 0 (level + 1) inY inX (Or.inl rfl)
      (Or.inr slot) (Or.inr (by omega))
    omega
  refine ⟨shows_.consistent, shows_.placed, shows_.head, ?_, shows_.maxHeight, ?_, ?_, ?_, ?_⟩
  · rw [SkipList.length_nodes_setNext]
    exact shows_.hasHead
  · intro y inY
    rw [SkipList.length_nodes_setNext] at inY
    obtain ⟨links, listed, slots⟩ := shows_.node inY
    exact ⟨links, listed, fun slotY => slots ((SkipList.hasSlot_setNext ..).mp slotY)⟩
  · intro y z inY inZ
    rw [SkipList.length_nodes_setNext] at inY inZ
    exact shows_.apart inY inZ
  · intro y key keyed
    rw [SkipList.keyOf_setNext] at keyed
    have inY := hasNode_of_keyOf keyed
    obtain ⟨good, held, listed⟩ := shows_.key keyed
    rw [keyKept inY]
    refine ⟨good, held.congr fun a low high => keeps a ?_, listed⟩
    have apart := @key_apart _ _ _ _ _ shows_ y x (level + 1) key keyed inX (Or.inr slot)
    omega
  · intro level' y target' read
    rw [SkipList.next_setNext slot] at read
    rw [SkipList.length_nodes_setNext]
    split at read
    next same =>
      obtain ⟨rfl, rfl⟩ := same
      obtain rfl := Option.some.inj read
      exact ⟨loadWord_storeWord _ _ small, valid⟩
    next other =>
      obtain ⟨loaded, inside⟩ := shows_.link read
      have slotY := SkipList.hasSlot_of_next read
      refine ⟨(loadWord_congr fun a low high => keeps a ?_).trans loaded, inside⟩
      have apart := @words_apart _ _ _ _ _ shows_ y x (level' + 1) (level + 1)
        (hasNode_of_hasSlot slotY) inX (Or.inr slotY) (Or.inr slot) (by omega)
      unfold slotAt at low high
      omega

/-- What the arena hands out, and what is written outside of the regions that it had returned,
changes nothing that is shown. -/
theorem grow {memory : Memory} {arena : Arena} {more : List Arena.Returned}
    (consistent : arena.Consistent (returned ++ more)) (placed : Placed arena.blocks)
    (keeps : ∀ r ∈ returned, ∀ a, r.region.base ≤ a → a < r.region.base + r.region.size →
      memory a = table.memory a) :
    Shows Good { table with memory, arena } list place (returned ++ more) := by
  have keyKept : ∀ {x}, x < list.nodes.length →
      loadWord memory (place x) = table.keyOf (place x) := by
    intro x inside
    obtain ⟨links, listed, -⟩ := shows_.node inside
    exact loadWord_congr fun a low high => keeps _ listed a low (by simp only; omega)
  refine ⟨consistent, placed, shows_.head, shows_.hasHead, shows_.maxHeight, ?_, shows_.apart,
    ?_, ?_⟩
  · intro x inside
    obtain ⟨links, listed, slots⟩ := shows_.node inside
    exact ⟨links, List.mem_append_left _ listed, slots⟩
  · intro x key keyed
    obtain ⟨good, held, listed⟩ := shows_.key keyed
    have kept := keyKept (hasNode_of_keyOf keyed)
    simp only [keyOf] at held listed kept ⊢
    rw [kept]
    exact ⟨good, held.congr fun a low high => keeps _ listed a low high,
      List.mem_append_left _ listed⟩
  · intro level x target read
    obtain ⟨loaded, inside⟩ := shows_.link read
    have slot := SkipList.hasSlot_of_next read
    obtain ⟨links, listed, slots⟩ := shows_.node (hasNode_of_hasSlot slot)
    have bound := slots slot
    refine ⟨(loadWord_congr fun a low high => keeps _ listed a ?_ ?_).trans loaded, inside⟩
    · unfold slotAt at low
      simp only
      omega
    · unfold slotAt at high
      simp only
      omega

end Shows

end StoredSkipList

end LevelDbXy
