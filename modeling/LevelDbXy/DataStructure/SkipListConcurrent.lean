import LevelDbXy.DataStructure.SkipListSet
import LevelDbXy.Library.Machine

/-!
# Searching a skip list while it is written

One writer calls `Insert` again and again while a reader calls
`FindGreaterOrEqual(target, nullptr)`, on sequentially consistent memory. Every step is one
atomic access of shared memory: a store of `max_height_` or of a link by the writer, a load of
`max_height_` or of a link by the reader. What the writer reads, only the writer writes,
so its own loads need no steps. A new node is private until the first link to it is
stored.

At every moment the links represent lists of nodes (`Represents`): a level shows the new
node from the moment its predecessor's link is stored. The reader stands on the head or on
a node of its level whose key is below the target, and no store of the writer changes that.
-/

namespace LevelDbXy.SkipList

variable {Key : Type}

/-- Where the writer stands in `Insert`. -/
inductive Writer (Key : Type) where
  | idle
  /-- The search is done, `prev` patched, and the height drawn. -/
  | searched (key : Key) (height : Nat) (prev : List (Option Nat))
  /-- Next is `x->NoBarrier_SetNext(level, ..)`. -/
  | linking (key : Key) (x height : Nat) (prev : List (Option Nat)) (level : Nat)
  /-- Next is `prev[level]->SetNext(level, x)`. -/
  | publishing (key : Key) (x height : Nat) (prev : List (Option Nat)) (level : Nat)

/-- Where the reader stands in `FindGreaterOrEqual`. The lists are the keys whose `Insert`
had finished when the search began, and those whose `Insert` had begun when it ended. -/
inductive Reader (Key : Type) where
  | idle
  /-- The search has begun; next is the load of `max_height_`. -/
  | started (target : Key) (finishedBefore : List Key)
  /-- Next is `x->Next(level)`, after this many such loads. -/
  | searching (target : Key) (finishedBefore : List Key) (level x loads : Nat)
  /-- The search has returned a node or null. -/
  | found (target : Key) (finishedBefore begunBy : List Key) (result : Option Nat) (loads : Nat)
  /-- The search has followed a link that no store had initialised. -/
  | broken

/-- Shared memory, the two threads, and the keys whose `Insert` has begun and finished. -/
structure Config (Key : Type) where
  list : SkipList Key
  writer : Writer Key
  reader : Reader Key
  begun : List Key
  finished : List Key

/-- A new list and no calls yet. -/
def Config.initial : Config Key := ⟨new, .idle, .idle, [], []⟩

/-- The steps of both threads. -/
inductive Access (Key : Type) where
  | beginInsert (key : Key) (height : Nat)
  | storeMaxHeight
  | storeNew
  | publish
  | beginSearch (target : Key)
  | loadMaxHeight
  | loadNext

/-- `Insert` up to its first store: search, assertion and the patches of `prev`. -/
def beginInsert (compare : Key → Key → Int) (config : Config Key) (key : Key) (height : Nat) :
    Option (Config Key) := do
  let (_, prev) ← config.list.findGreaterOrEqual compare key
  let equal ← config.list.contains compare key
  if equal then none
  else some { config with
    writer := .searched key height (patchPrev prev config.list.maxHeight height)
    begun := key :: config.begun }

/-- One load of the search loop and the decision that follows it. -/
def loadNext (compare : Key → Key → Int) (config : Config Key) (target : Key)
    (finishedBefore : List Key) (level x loads : Nat) : Reader Key :=
  match config.list.next level x with
  | none => .broken
  | some next =>
    match config.list.keyIsAfterNode compare target next, next with
    | none, _ => .broken
    | some true, some y => .searching target finishedBefore level y (loads + 1)
    | some _, _ =>
      if level = 0 then .found target finishedBefore config.begun next (loads + 1)
      else .searching target finishedBefore (level - 1) x (loads + 1)

/-- One step of either thread. -/
def access (compare : Key → Key → Int) (config : Config Key) :
    Access Key → Option (Config Key)
  | .beginInsert key height =>
    match config.writer with
    | .idle => beginInsert compare config key height
    | _ => none
  | .storeMaxHeight =>
    match config.writer with
    | .searched key height prev => some { config with
        list := newNode { config.list with maxHeight := max config.list.maxHeight height } key
          height
        writer := .linking key config.list.nodes.length height prev 0 }
    | _ => none
  | .storeNew =>
    match config.writer with
    | .linking key x height prev level => do
      let before ← prev[level]?.join
      let after ← config.list.next level before
      some { config with
        list := config.list.setNext level x after
        writer := .publishing key x height prev level }
    | _ => none
  | .publish =>
    match config.writer with
    | .publishing key x height prev level => do
      let before ← prev[level]?.join
      let list := config.list.setNext level before (some x)
      if level + 1 < height then
        some { config with list, writer := .linking key x height prev (level + 1) }
      else some { config with list, writer := .idle, finished := key :: config.finished }
    | _ => none
  | .beginSearch target =>
    match config.reader with
    | .idle | .found .. => some { config with reader := .started target config.finished }
    | _ => none
  | .loadMaxHeight =>
    match config.reader with
    | .started target finishedBefore => some { config with
        reader := .searching target finishedBefore (config.list.maxHeight - 1) head 0 }
    | _ => none
  | .loadNext =>
    match config.reader with
    | .searching target finishedBefore level x loads => some { config with
        reader := loadNext compare config target finishedBefore level x loads }
    | _ => none

/-- The inserted key is new and the height is one that `RandomHeight` can return. -/
def FreshInsert (config : Config Key) : Access Key → Prop
  | .beginInsert key height => key ∉ config.begun ∧ 1 ≤ height ∧ height ≤ kMaxHeight
  | _ => True

/-! ### What the reader sees -/

/-- The lists that the links represent at a moment, and the keys in them. -/
structure Seen (compare : Key → Key → Int) (config : Config Key) (visible : Nat → List Nat)
    (keyAt : Nat → Key) : Prop where
  rep : Represents compare config.list visible keyAt
  distinct : ((visible 0).map keyAt).Nodup
  finished : ∀ key ∈ config.finished, key ∈ (visible 0).map keyAt
  begun : ∀ key ∈ (visible 0).map keyAt, key ∈ config.begun

/-- What is known of a search: it stands on the head or on a node of its level below the
target, and every load so far went forward on level 0 or down. -/
def ReaderOk (compare : Key → Key → Int) (list : SkipList Key) (visible : Nat → List Nat)
    (keyAt : Nat → Key) : Reader Key → Prop
  | .idle => True
  | .started _ finishedBefore => ∀ key ∈ finishedBefore, key ∈ (visible 0).map keyAt
  | .searching target finishedBefore level x loads =>
    (∀ key ∈ finishedBefore, key ∈ (visible 0).map keyAt) ∧ level < kMaxHeight ∧
      x ∈ head :: visible level ∧ (x ≠ head → compare (keyAt x) target < 0) ∧
      loads + level + 1 ≤ (head :: visible 0).idxOf x + kMaxHeight
  | .found target finishedBefore begunBy result loads =>
    ∃ contents key, (∀ k ∈ finishedBefore, k ∈ contents) ∧ (∀ k ∈ contents, k ∈ begunBy) ∧
      result.map list.keyOf = key.map some ∧
      WeakOrder.IsFirst (Lt compare) contents (fun k => 0 ≤ compare k target) key ∧
      loads ≤ begunBy.length + kMaxHeight
  | .broken => False

section Reader

variable {compare : Key → Key → Int} {list list' : SkipList Key} {visible visible' : Nat → List Nat}
  {keyAt keyAt' : Nat → Key} {config : Config Key}

/-- What is known of a search stays true when nodes come in between. -/
theorem ReaderOk.grow {reader : Reader Key} (ok : ReaderOk compare list visible keyAt reader)
    (rep : Represents compare list visible keyAt) (rep' : Represents compare list' visible' keyAt')
    (grows : ∀ level, (visible level).Sublist (visible' level))
    (sameKeys : ∀ x ∈ visible 0, keyAt' x = keyAt x)
    (kept : ∀ x key, list.keyOf x = some key → list'.keyOf x = some key) :
    ReaderOk compare list' visible' keyAt' reader := by
  have keysGrow : ∀ key ∈ (visible 0).map keyAt, key ∈ (visible' 0).map keyAt' := by
    intro key member
    obtain ⟨x, listed, rfl⟩ := List.mem_map.mp member
    exact List.mem_map.mpr ⟨x, (grows 0).subset listed, sameKeys x listed⟩
  cases reader with
  | idle => trivial
  | started target finishedBefore => exact fun key member => keysGrow key (ok key member)
  | searching target finishedBefore level x loads =>
    obtain ⟨finished, inHeight, standing, below, bound⟩ := ok
    have onZero : x ∈ head :: visible 0 :=
      ((rep.sublist_zero level).cons_cons head).subset standing
    have forward := LinkChain.idxOf_le_of_sublist ((grows 0).cons_cons head)
      (rep'.distinct_level 0) onZero
    refine ⟨fun key member => keysGrow key (finished key member), inHeight,
      ((grows level).cons_cons head).subset standing, fun notHead => ?_, by omega⟩
    rw [sameKeys x ((List.mem_cons.mp onZero).resolve_left notHead)]
    exact below notHead
  | found target finishedBefore begunBy result loads =>
    obtain ⟨contents, key, finished, begun, shown, first, bound⟩ := ok
    refine ⟨contents, key, finished, begun, ?_, first, bound⟩
    cases result with
    | none => exact shown
    | some x =>
      cases key with
      | none => cases shown
      | some k =>
        rw [Option.map_some, Option.map_some, kept x k (Option.some.inj shown)]
  | broken => exact ok

/-- The link of a node on a level leads to the next node of that level. -/
theorem Represents.exists_next (rep : Represents compare list visible keyAt) {level x : Nat}
    (inHeight : level < kMaxHeight) (standing : x ∈ head :: visible level) :
    ∃ before after, visible level = before ++ after ∧ before.getLastD head = x ∧
      list.next level x = some after.head? := by
  have chain := rep.chain level inHeight
  rcases List.mem_cons.mp standing with rfl | listed
  · exact ⟨[], visible level, rfl, rfl, @LinkChain.next_getLastD _ _ head [] _ chain⟩
  · obtain ⟨before, after, split⟩ := List.append_of_mem listed
    have whole : visible level = (before ++ [x]) ++ after := by simpa using split
    rw [whole] at chain
    have read := chain.next_getLastD
    rw [List.getLastD_concat] at read
    exact ⟨before ++ [x], after, whole, List.getLastD_concat .., read⟩

/-- A step forward on any level goes forward on level 0. -/
theorem Represents.idxOf_lt_next (rep : Represents compare list visible keyAt) {level y : Nat}
    {before after : List Nat} (split : visible level = before ++ y :: after) :
    (head :: visible 0).idxOf (before.getLastD head) < (head :: visible 0).idxOf y := by
  refine LinkChain.idxOf_lt_of_sublist (rep.distinct_level 0)
    (List.Sublist.trans ?_ ((rep.sublist_zero level).cons_cons head))
  rw [split]
  have last : [before.getLastD head].Sublist (head :: before) :=
    List.singleton_sublist.mpr List.getLastD_mem_cons
  exact last.append ((List.nil_sublist after).cons_cons y)

/-- The search ends in front of the first key that is not below the target. -/
theorem Seen.isFirst (seen : Seen compare config visible keyAt) (lawful : ThreeWay compare)
    (separates : ∀ a b, compare a b = 0 → a = b) {target : Key} {before after : List Nat}
    (split : visible 0 = before ++ after)
    (below : before.getLastD head ≠ head → compare (keyAt (before.getLastD head)) target < 0)
    (stops : config.list.keyIsAfterNode compare target after.head? = some false) :
    WeakOrder.IsFirst (Lt compare) ((visible 0).map keyAt) (fun key => 0 ≤ compare key target)
      (after.map keyAt).head? := by
  have order : WeakOrder (Lt compare) := lawful.weakOrder
  have strict : ((visible 0).map keyAt).Pairwise (Lt compare) :=
    lawful.strict_of_nodup separates seen.rep.sorted seen.distinct
  have inside := seen.rep.inside
  have keyed := seen.rep.keyed
  rw [split] at strict inside keyed ⊢
  rw [List.map_append] at strict ⊢
  obtain ⟨frontStrict, backStrict, -⟩ := List.pairwise_append.mp strict
  refine WeakOrder.isFirst_head? strict ?_ ?_
  · intro key member
    obtain ⟨x, listed, rfl⟩ := List.mem_map.mp member
    rw [Int.not_le]
    rcases List.eq_nil_or_concat before with rfl | ⟨front, last, rfl⟩
    · cases listed
    · rw [List.concat_eq_append] at listed frontStrict inside below
      rw [List.getLastD_concat] at below
      have lastBelow := below (Nat.ne_of_gt (inside last (by simp)).1)
      rcases List.mem_append.mp listed with earlier | atLast
      · rw [List.map_append, List.pairwise_append] at frontStrict
        have before := frontStrict.2.2 (keyAt x) (List.mem_map_of_mem earlier) (keyAt last)
          (by simp)
        exact order.lt_of_before (order.asymm before) lastBelow
      · rw [List.mem_singleton.mp atLast]
        exact lastBelow
  · intro key member
    obtain ⟨x, listed, rfl⟩ := List.mem_map.mp member
    rw [← Int.not_lt]
    cases after with
    | nil => cases listed
    | cons first later =>
      have firstStops : ¬ compare (keyAt first) target < 0 := by
        simpa [keyIsAfterNode, keyed first (by simp)] using stops
      rcases List.mem_cons.mp listed with rfl | behind
      · exact firstStops
      · intro xBelow
        have before := (List.pairwise_cons.mp backStrict).1 (keyAt x) (List.mem_map_of_mem behind)
        exact firstStops (order.lt_of_before (order.asymm before) xBelow)

/-- The load leads on while the next key is smaller. -/
theorem loadNext_forward {target : Key} {finishedBefore : List Key} {level x y : Nat} (loads : Nat)
    (read : config.list.next level x = some (some y))
    (smaller : config.list.keyIsAfterNode compare target (some y) = some true) :
    loadNext compare config target finishedBefore level x loads =
      .searching target finishedBefore level y (loads + 1) := by
  simp [loadNext, read, smaller]

/-- Otherwise it leads down, or ends the search on level 0. -/
theorem loadNext_down {target : Key} {finishedBefore : List Key} {level x : Nat}
    {next : Option Nat} (loads : Nat) (read : config.list.next level x = some next)
    (stops : config.list.keyIsAfterNode compare target next = some false) :
    loadNext compare config target finishedBefore level x loads =
      if level = 0 then .found target finishedBefore config.begun next (loads + 1)
      else .searching target finishedBefore (level - 1) x (loads + 1) := by
  simp [loadNext, read, stops]

/-- Level 0 never holds more keys than insertions have begun. -/
theorem Seen.length_le (seen : Seen compare config visible keyAt) :
    (visible 0).length ≤ config.begun.length := by
  have subset : ((visible 0).map keyAt).Subperm config.begun :=
    List.subperm_of_subset seen.distinct seen.begun
  simpa using subset.length_le

/-- A load never meets an uninitialised link, and leaves the search well placed or ended
with the right node. -/
theorem Seen.loadNext_ok (seen : Seen compare config visible keyAt) (lawful : ThreeWay compare)
    (separates : ∀ a b, compare a b = 0 → a = b) {target : Key} {finishedBefore : List Key}
    {level x loads : Nat} (ok : ReaderOk compare config.list visible keyAt
      (.searching target finishedBefore level x loads)) :
    ReaderOk compare config.list visible keyAt
      (loadNext compare config target finishedBefore level x loads) := by
  obtain ⟨finished, inHeight, standing, below, bound⟩ := ok
  obtain ⟨before, after, split, rfl, read⟩ := seen.rep.exists_next inHeight standing
  have down (stops : config.list.keyIsAfterNode compare target after.head? = some false) :
      ReaderOk compare config.list visible keyAt
        (loadNext compare config target finishedBefore level (before.getLastD head) loads) := by
    rw [loadNext_down loads read stops]
    split_ifs with bottom
    · subst bottom
      have onZero := List.idxOf_lt_length_of_mem standing
      have size := seen.length_le
      rw [List.length_cons] at onZero
      refine ⟨(visible 0).map keyAt, (after.map keyAt).head?, finished, seen.begun, ?_,
        seen.isFirst lawful separates split below stops, by omega⟩
      cases after with
      | nil => rfl
      | cons y later => simp [seen.rep.keyed y (by simp [split])]
    · have lower := (seen.rep.nested (level - 1)).cons_cons head
      rw [Nat.sub_add_cancel (by omega)] at lower
      exact ⟨finished, by omega, lower.subset standing, below, by omega⟩
  cases after with
  | nil => exact down rfl
  | cons y later =>
    have listed : y ∈ visible level := by simp [split]
    have keyed := seen.rep.keyed y ((seen.rep.sublist_zero level).subset listed)
    by_cases smaller : compare (keyAt y) target < 0
    · have forward := seen.rep.idxOf_lt_next split
      rw [loadNext_forward loads read (by simp [keyIsAfterNode, keyed, smaller])]
      exact ⟨finished, inHeight, List.mem_cons_of_mem _ listed, fun _ => smaller, by omega⟩
    · exact down (by simp [keyIsAfterNode, keyed, smaller])

end Reader

/-! ### What the writer has done so far -/

/-- The writer is in the linking loop in front of `level`: the list `old` it started from
and its levels, of which the lower ones show the new node. -/
structure Linking (compare : Key → Key → Int) (list : SkipList Key) (begun : List Key)
    (visible : Nat → List Nat) (keyAt : Nat → Key) (key : Key) (x height : Nat)
    (prev : List (Option Nat)) (level : Nat)
    (old : SkipList Key) (levels : Nat → List Nat) (oldKeyAt : Nat → Key) : Prop where
  rep : Represents compare old levels oldKeyAt
  node : x = old.nodes.length
  linked : Linked compare levels oldKeyAt key old.nodes.length height
    (newNode { old with maxHeight := max old.maxHeight height } key height) list level
  shown : visible = insertedLevels compare levels oldKeyAt key old.nodes.length level
  keys : keyAt = Function.update oldKeyAt old.nodes.length key
  recorded : ∀ l < height,
    prev[l]? = some (some ((below compare levels oldKeyAt key l).getLastD head))
  distinct : ((levels 0).map oldKeyAt).Nodup
  fresh : key ∉ (levels 0).map oldKeyAt
  hasBegun : ∀ k ∈ key :: (levels 0).map oldKeyAt, k ∈ begun
  inHeight : level < height
  heightBound : height ≤ kMaxHeight

/-- What is known of the writer. -/
def WriterOk (compare : Key → Key → Int) (list : SkipList Key) (begun : List Key)
    (visible : Nat → List Nat) (keyAt : Nat → Key) : Writer Key → Prop
  | .idle => True
  | .searched key height prev => key ∈ begun ∧ key ∉ (visible 0).map keyAt ∧ 1 ≤ height ∧
      height ≤ kMaxHeight ∧ ∀ level < height,
        prev[level]? = some (some ((below compare visible keyAt key level).getLastD head))
  | .linking key x height prev level => ∃ old levels oldKeyAt,
      Linking compare list begun visible keyAt key x height prev level old levels oldKeyAt
  | .publishing key x height prev level => ∃ old levels oldKeyAt,
      Linking compare list begun visible keyAt key x height prev level old levels oldKeyAt ∧
        list.next level x = some (rest compare levels oldKeyAt key level).head?

/-- The state of both threads in terms of the lists the links represent. -/
def Invariant (compare : Key → Key → Int) (config : Config Key) : Prop :=
  ∃ visible keyAt, Seen compare config visible keyAt ∧
    ReaderOk compare config.list visible keyAt config.reader ∧
    WriterOk compare config.list config.begun visible keyAt config.writer

section Writer

variable {compare : Key → Key → Int} {config : Config Key} {visible : Nat → List Nat}
  {keyAt : Nat → Key}

/-- A new node leaves the keys of the others. -/
theorem keyOf_newNode_of_some {list : SkipList Key} {x : Nat} {k : Key} (key : Key) (height : Nat)
    (stored : list.keyOf x = some k) : (list.newNode key height).keyOf x = some k := by
  rw [keyOf_newNode, if_neg, stored]
  rintro rfl
  simp [keyOf] at stored

/-- A node on one level more. -/
theorem insertedLevels_grows (compare : Key → Key → Int) (levels : Nat → List Nat)
    (keyAt : Nat → Key) (key : Key) (x done level : Nat) :
    (insertedLevels compare levels keyAt key x done level).Sublist
      (insertedLevels compare levels keyAt key x (done + 1) level) := by
  unfold insertedLevels
  split_ifs with before after after
  · exact List.Sublist.refl _
  · omega
  · conv_lhs => rw [← below_append_rest compare levels keyAt key level]
    exact (List.Sublist.refl _).append (List.sublist_cons_self _ _)
  · exact List.Sublist.refl _

/-! #### The stores -/

/-- The store of `max_height_` allocates the node. -/
theorem access_storeMaxHeight {key : Key} {height : Nat} {prev : List (Option Nat)}
    (standing : config.writer = .searched key height prev) :
    access compare config .storeMaxHeight = some { config with
      list := newNode { config.list with maxHeight := max config.list.maxHeight height } key height
      writer := .linking key config.list.nodes.length height prev 0 } := by
  simp only [access, standing]

/-- The store into the new node links it to what comes behind it. -/
theorem access_storeNew {key : Key} {x height level before : Nat} {after : Option Nat}
    {prev : List (Option Nat)} (standing : config.writer = .linking key x height prev level)
    (recorded : prev[level]? = some (some before))
    (read : config.list.next level before = some after) :
    access compare config .storeNew = some { config with
      list := config.list.setNext level x after
      writer := .publishing key x height prev level } := by
  simp [access, standing, recorded, read]

/-- The store into its predecessor publishes the node on a level. -/
theorem access_publish_further {key : Key} {x height level before : Nat}
    {prev : List (Option Nat)} (standing : config.writer = .publishing key x height prev level)
    (recorded : prev[level]? = some (some before)) (further : level + 1 < height) :
    access compare config .publish = some { config with
      list := config.list.setNext level before (some x)
      writer := .linking key x height prev (level + 1) } := by
  simp [access, standing, recorded, further]

/-- On its last level that ends the insertion. -/
theorem access_publish_last {key : Key} {x height level before : Nat}
    {prev : List (Option Nat)} (standing : config.writer = .publishing key x height prev level)
    (recorded : prev[level]? = some (some before)) (last : ¬ level + 1 < height) :
    access compare config .publish = some { config with
      list := config.list.setNext level before (some x)
      writer := .idle
      finished := key :: config.finished } := by
  simp [access, standing, recorded, last]

/-- `Insert` gets as far as its first store. -/
theorem beginInsert_ok (lawful : ThreeWay compare) (separates : ∀ a b, compare a b = 0 → a = b)
    (invariant : Invariant compare config) {key : Key} {height : Nat}
    (fresh : FreshInsert config (.beginInsert key height)) :
    ∃ after, beginInsert compare config key height = some after ∧ Invariant compare after := by
  obtain ⟨visible, keyAt, seen, readerOk, -⟩ := invariant
  obtain ⟨notBegun, positive, heightBound⟩ := fresh
  obtain ⟨prev, searched, recorded⟩ := seen.rep.findGreaterOrEqual_spec lawful.weakOrder key
  obtain ⟨found, contained, iff⟩ := seen.rep.contains_spec lawful separates key
  have absent : key ∉ (visible 0).map keyAt := fun member => notBegun (seen.begun key member)
  have notFound : found = false := by
    rw [← Bool.not_eq_true, iff]
    exact absent
  have stepped : beginInsert compare config key height = some { config with
      writer := .searched key height (patchPrev prev config.list.maxHeight height)
      begun := key :: config.begun } := by
    simp [beginInsert, searched, contained, notFound]
  refine ⟨_, stepped, visible, keyAt, ?_, readerOk, ?_⟩
  · exact ⟨seen.rep, seen.distinct, seen.finished, fun k member =>
      List.mem_cons_of_mem _ (seen.begun k member)⟩
  · exact ⟨List.mem_cons_self .., absent, positive, heightBound,
      patchPrev_spec seen.rep heightBound recorded⟩

/-- The new node is allocated and the height raised; no list shows it yet. -/
theorem storeMaxHeight_ok (lawful : ThreeWay compare) (invariant : Invariant compare config)
    {key : Key} {height : Nat} {prev : List (Option Nat)}
    (standing : config.writer = .searched key height prev) :
    ∃ after, access compare config .storeMaxHeight = some after ∧ Invariant compare after := by
  obtain ⟨visible, keyAt, seen, readerOk, writerOk⟩ := invariant
  rw [standing] at writerOk
  obtain ⟨begun, absent, positive, heightBound, recorded⟩ := writerOk
  have linked := Linked.start seen.rep key height (max config.list.maxHeight height)
  have rep := linked.represents seen.rep lawful.weakOrder (Nat.zero_le _) heightBound
  rw [insertedLevels_none] at rep
  have sameKeys := map_update_levels seen.rep key
  refine ⟨_, access_storeMaxHeight standing, visible, _, ⟨rep, ?_, ?_, ?_⟩, ?_, ?_⟩
  · rw [sameKeys]
    exact seen.distinct
  · rw [sameKeys]
    exact seen.finished
  · rw [sameKeys]
    exact seen.begun
  · refine readerOk.grow seen.rep rep (fun _ => List.Sublist.refl _) (fun x member => ?_) ?_
    · exact Function.update_of_ne (Nat.ne_of_lt (seen.rep.inside x member).2) _ _
    · intro x k stored
      exact keyOf_newNode_of_some key height stored
  · refine ⟨config.list, visible, keyAt, seen.rep, rfl, linked, (insertedLevels_none ..).symm, rfl,
      recorded, seen.distinct, absent, ?_, positive, heightBound⟩
    exact List.forall_mem_cons.mpr ⟨begun, seen.begun⟩

/-- What a round of the linking loop has read and stored. -/
theorem linkLevel_eq_some {list linked : SkipList Key} {x level : Nat} {prev : List (Option Nat)}
    (ran : linkLevel x prev list level = some linked) :
    ∃ before after, prev[level]? = some (some before) ∧ list.next level before = some after ∧
      linked = (list.setNext level x after).setNext level before (some x) := by
  obtain ⟨before, recorded, rest⟩ := Option.bind_eq_some_iff.mp ran
  obtain ⟨after, read, stored⟩ := Option.bind_eq_some_iff.mp rest
  exact ⟨before, after, Option.join_eq_some_iff.mp recorded, read, (Option.some.inj stored).symm⟩

section Linking

variable {key : Key} {x height level : Nat} {prev : List (Option Nat)} {old : SkipList Key}
  {levels : Nat → List Nat} {oldKeyAt : Nat → Key}

/-- Once level 0 is done, its keys are the old ones and the new one. -/
theorem keys_insertedLevels (rep : Represents compare old levels oldKeyAt) (key : Key)
    (done : Nat) :
    ((insertedLevels compare levels oldKeyAt key old.nodes.length (done + 1) 0).map
      (Function.update oldKeyAt old.nodes.length key)).Perm (key :: (levels 0).map oldKeyAt) := by
  rw [map_insertedLevels rep key (Nat.succ_pos done)]
  exact List.perm_orderedInsert _ _ _

/-- The link of the new node is stored; no list shows it on this level yet. -/
theorem storeNew_ok (lawful : ThreeWay compare) (invariant : Invariant compare config)
    (standing : config.writer = .linking key x height prev level) :
    ∃ after, access compare config .storeNew = some after ∧ Invariant compare after := by
  obtain ⟨visible, keyAt, seen, readerOk, writerOk⟩ := invariant
  rw [standing] at writerOk
  obtain ⟨old, levels, oldKeyAt, linking⟩ := writerOk
  obtain ⟨rep, rfl, linked, rfl, rfl, recorded, distinct, fresh, begun, inHeight, heightBound⟩ :=
    linking
  have read := linked.next_last (by omega)
  obtain ⟨linkedAfter, stored⟩ := linked.storeNew rep inHeight
    (rest compare levels oldKeyAt key level).head?
  have repAfter := linkedAfter.represents rep lawful.weakOrder (by omega) heightBound
  refine ⟨_, access_storeNew standing (recorded level inHeight) read, _, _,
    ⟨repAfter, seen.distinct, seen.finished, seen.begun⟩, ?_, ?_⟩
  · refine readerOk.grow seen.rep repAfter (fun _ => List.Sublist.refl _) (fun _ _ => rfl) ?_
    intro y k stored
    rw [keyOf_setNext]
    exact stored
  · exact ⟨old, levels, oldKeyAt, ⟨rep, rfl, linkedAfter, rfl, rfl, recorded, distinct, fresh,
      begun, inHeight, heightBound⟩, stored⟩

/-- The link of the predecessor is stored: the level shows the new node. -/
theorem publish_ok (lawful : ThreeWay compare) (invariant : Invariant compare config)
    (standing : config.writer = .publishing key x height prev level) :
    ∃ after, access compare config .publish = some after ∧ Invariant compare after := by
  obtain ⟨visible, keyAt, seen, readerOk, writerOk⟩ := invariant
  rw [standing] at writerOk
  obtain ⟨old, levels, oldKeyAt, linking, stored⟩ := writerOk
  obtain ⟨rep, rfl, linked, rfl, rfl, recorded, distinct, fresh, begun, inHeight, heightBound⟩ :=
    linking
  have linkedAfter := linked.publish rep (by omega) stored
  have repAfter := linkedAfter.represents rep lawful.weakOrder (by omega) heightBound
  have grows := insertedLevels_grows compare levels oldKeyAt key old.nodes.length level
  have perm := keys_insertedLevels rep key level
  have distinctAfter := perm.nodup_iff.mpr (List.nodup_cons.mpr ⟨fresh, distinct⟩)
  have finishedAfter : ∀ k ∈ config.finished, k ∈ (insertedLevels compare levels oldKeyAt key
      old.nodes.length (level + 1) 0).map (Function.update oldKeyAt old.nodes.length key) :=
    fun k member => ((grows 0).map _).subset (seen.finished k member)
  have begunAfter : ∀ k ∈ (insertedLevels compare levels oldKeyAt key old.nodes.length
      (level + 1) 0).map (Function.update oldKeyAt old.nodes.length key), k ∈ config.begun :=
    fun k member => begun k (perm.mem_iff.mp member)
  have readerAfter := readerOk.grow seen.rep repAfter grows (fun _ _ => rfl) fun y k stored => by
    rw [keyOf_setNext]
    exact stored
  by_cases further : level + 1 < height
  · refine ⟨_, access_publish_further standing (recorded level inHeight) further, _, _,
      ⟨repAfter, distinctAfter, finishedAfter, begunAfter⟩, readerAfter, ?_⟩
    exact ⟨old, levels, oldKeyAt, rep, rfl, linkedAfter, rfl, rfl, recorded, distinct, fresh, begun,
      further, heightBound⟩
  · refine ⟨_, access_publish_last standing (recorded level inHeight) further, _, _,
      ⟨repAfter, distinctAfter, ?_, begunAfter⟩, readerAfter, trivial⟩
    exact List.forall_mem_cons.mpr ⟨perm.mem_iff.mpr (List.mem_cons_self ..), finishedAfter⟩

end Linking

/-- A step of the reader changes nothing else. -/
theorem Invariant.withReader (invariant : Invariant compare config) {reader : Reader Key}
    (ok : ∀ {visible keyAt}, Seen compare config visible keyAt →
      ReaderOk compare config.list visible keyAt config.reader →
      ReaderOk compare config.list visible keyAt reader) :
    Invariant compare { config with reader } := by
  obtain ⟨visible, keyAt, seen, readerOk, writerOk⟩ := invariant
  exact ⟨visible, keyAt, ⟨seen.rep, seen.distinct, seen.finished, seen.begun⟩, ok seen readerOk,
    writerOk⟩

end Writer

/-! ### Every step and every run -/

section Runs

variable {compare : Key → Key → Int} {config after : Config Key}

/-- At first there is the head only, and nobody does anything. -/
theorem initial_invariant [Inhabited Key] (compare : Key → Key → Int) :
    Invariant compare (Config.initial : Config Key) := by
  obtain ⟨levels, keyAt, rep, empty⟩ := new_holds compare
  refine ⟨levels, keyAt, ⟨rep, ?_, ?_, ?_⟩, trivial, trivial⟩
  · rw [empty]
    exact List.nodup_nil
  · simp [Config.initial]
  · simp [empty]

/-- Every step of either thread keeps the invariant. -/
theorem Invariant.access (lawful : ThreeWay compare) (separates : ∀ a b, compare a b = 0 → a = b)
    {action : Access Key} (invariant : Invariant compare config)
    (fresh : FreshInsert config action)
    (stepped : SkipList.access compare config action = some after) : Invariant compare after := by
  have reached : ∀ {result : Option (Config Key)}, result = some after →
      (∃ next, result = some next ∧ Invariant compare next) → Invariant compare after := by
    rintro result stepped ⟨next, same, holds⟩
    rw [Option.some.inj (stepped.symm.trans same)]
    exact holds
  cases action with
  | beginInsert key height =>
    simp only [SkipList.access] at stepped
    split at stepped
    · exact reached stepped (beginInsert_ok lawful separates invariant fresh)
    · cases stepped
  | storeMaxHeight =>
    cases standing : config.writer with
    | searched key height prev =>
      exact reached stepped (storeMaxHeight_ok lawful invariant standing)
    | _ => simp [SkipList.access, standing] at stepped
  | storeNew =>
    cases standing : config.writer with
    | linking key x height prev level =>
      exact reached stepped (storeNew_ok lawful invariant standing)
    | _ => simp [SkipList.access, standing] at stepped
  | publish =>
    cases standing : config.writer with
    | publishing key x height prev level =>
      exact reached stepped (publish_ok lawful invariant standing)
    | _ => simp [SkipList.access, standing] at stepped
  | beginSearch target =>
    have begins : Invariant compare
        { config with reader := .started target config.finished } :=
      invariant.withReader fun seen _ => seen.finished
    simp only [SkipList.access] at stepped
    split at stepped
    · exact Option.some.inj stepped ▸ begins
    · exact Option.some.inj stepped ▸ begins
    · cases stepped
  | loadMaxHeight =>
    cases standing : config.reader with
    | started target finishedBefore =>
      simp only [SkipList.access, standing] at stepped
      rw [← Option.some.inj stepped]
      refine invariant.withReader fun seen ok => ?_
      have low := seen.rep.minHeight
      have high := seen.rep.heightBound
      rw [standing] at ok
      refine ⟨ok, by omega, List.mem_cons_self .., fun notHead => absurd rfl notHead, ?_⟩
      rw [List.idxOf_cons_self]
      omega
    | _ => simp [SkipList.access, standing] at stepped
  | loadNext =>
    cases standing : config.reader with
    | searching target finishedBefore level x loads =>
      simp only [SkipList.access, standing] at stepped
      rw [← Option.some.inj stepped]
      refine invariant.withReader fun seen ok => ?_
      rw [standing] at ok
      exact seen.loadNext_ok lawful separates ok
    | _ => simp [SkipList.access, standing] at stepped

/-- The two stores of a round, without a step of the reader in between, are a round of the
linking loop of `Insert`. -/
theorem run_rounds {key : Key} {x height : Nat} {prev : List (Option Nat)} (remaining level : Nat)
    {final : SkipList Key} (standing : config.writer = .linking key x height prev level)
    (rounds : level + (remaining + 1) = height)
    (linked : (List.range' level (remaining + 1)).foldlM (linkLevel x prev) config.list =
      some final) :
    Machine.run (SkipList.access compare) config
        (List.replicate (remaining + 1) [Access.storeNew, .publish]).flatten =
      some { config with list := final, writer := .idle, finished := key :: config.finished } := by
  induction remaining generalizing level config with
  | zero =>
    have last : linkLevel x prev config.list level = some final := by
      simpa [List.range'_succ] using linked
    obtain ⟨before, after, recorded, read, rfl⟩ := linkLevel_eq_some last
    refine Machine.run_cons_eq_some.mpr ⟨_, access_storeNew standing recorded read, ?_⟩
    refine Machine.run_cons_eq_some.mpr ⟨_, access_publish_last rfl recorded (by omega), rfl⟩
  | succ remaining inductionHypothesis =>
    rw [List.range'_succ, List.foldlM_cons] at linked
    obtain ⟨middle, first, later⟩ := Option.bind_eq_some_iff.mp linked
    obtain ⟨before, after, recorded, read, rfl⟩ := linkLevel_eq_some first
    refine Machine.run_cons_eq_some.mpr ⟨_, access_storeNew standing recorded read, ?_⟩
    refine Machine.run_cons_eq_some.mpr
      ⟨_, access_publish_further rfl recorded (by omega), ?_⟩
    exact inductionHypothesis (level + 1) rfl (by omega) later

/-- With the reader out of the way, the steps of the writer are `Insert`. -/
theorem run_insert_alone {key : Key} {height : Nat} {final : SkipList Key}
    (idle : config.writer = .idle) (positive : 1 ≤ height)
    (inserted : config.list.insertAsserting compare key height = some final) :
    Machine.run (SkipList.access compare) config (.beginInsert key height :: .storeMaxHeight ::
        (List.replicate height [Access.storeNew, .publish]).flatten) =
      some { config with
        list := final
        writer := .idle
        begun := key :: config.begun
        finished := key :: config.finished } := by
  obtain ⟨found, contained, rest⟩ := Option.bind_eq_some_iff.mp inserted
  cases found with
  | true => cases rest
  | false =>
    obtain ⟨⟨node, prev⟩, searched, linked⟩ := Option.bind_eq_some_iff.mp rest
    have begins : SkipList.access compare config (.beginInsert key height) = some { config with
        writer := .searched key height (patchPrev prev config.list.maxHeight height)
        begun := key :: config.begun } := by
      simp [SkipList.access, idle, beginInsert, searched, contained]
    refine Machine.run_cons_eq_some.mpr ⟨_, begins, ?_⟩
    refine Machine.run_cons_eq_some.mpr ⟨_, access_storeMaxHeight rfl, ?_⟩
    obtain ⟨remaining, rfl⟩ : ∃ remaining, height = remaining + 1 := ⟨height - 1, by omega⟩
    rw [List.range_eq_range'] at linked
    exact run_rounds remaining 0 rfl (by omega) linked

/-- The writer is never stuck. -/
theorem Invariant.writer_progress (lawful : ThreeWay compare) (invariant : Invariant compare config)
    (busy : config.writer ≠ .idle) :
    ∃ action ∈ [Access.storeMaxHeight, .storeNew, .publish],
      (SkipList.access compare config action).isSome := by
  cases standing : config.writer with
  | idle => exact absurd standing busy
  | searched key height prev =>
    obtain ⟨next, stepped, -⟩ := storeMaxHeight_ok lawful invariant standing
    exact ⟨.storeMaxHeight, by simp, by simp [stepped]⟩
  | linking key x height prev level =>
    obtain ⟨next, stepped, -⟩ := storeNew_ok lawful invariant standing
    exact ⟨.storeNew, by simp, by simp [stepped]⟩
  | publishing key x height prev level =>
    obtain ⟨next, stepped, -⟩ := publish_ok lawful invariant standing
    exact ⟨.publish, by simp, by simp [stepped]⟩

/-- A search in progress has used fewer loads than there are keys and levels. -/
theorem Invariant.loads_lt (invariant : Invariant compare config) {target : Key}
    {finishedBefore : List Key} {level x loads : Nat}
    (standing : config.reader = .searching target finishedBefore level x loads) :
    loads < config.begun.length + kMaxHeight := by
  obtain ⟨visible, keyAt, seen, readerOk, -⟩ := invariant
  rw [standing] at readerOk
  obtain ⟨-, inHeight, standing, -, bound⟩ := readerOk
  have onZero := List.idxOf_lt_length_of_mem
    (((seen.rep.sublist_zero level).cons_cons head).subset standing)
  have size := seen.length_le
  rw [List.length_cons] at onZero
  omega

/-- However the stores of the writer and the loads of the reader interleave: neither thread
gets stuck, the reader never follows an uninitialised link, it ends within a bound on its
loads, and it returns the smallest key not below its target of a set that holds every key
finished before the search began and only keys begun before it ended. -/
theorem concurrent_search [Inhabited Key] (compare : Key → Key → Int) (lawful : ThreeWay compare)
    (separates : ∀ a b, compare a b = 0 → a = b) (actions : List (Access Key))
    (config : Config Key)
    (meets : Machine.Meets (SkipList.access compare) FreshInsert Config.initial actions)
    (ran : Machine.run (SkipList.access compare) Config.initial actions = some config) :
    (config.writer ≠ .idle → ∃ action ∈ [Access.storeMaxHeight, .storeNew, .publish],
      (SkipList.access compare config action).isSome) ∧
    (config.writer = .idle → ∀ key height, FreshInsert config (.beginInsert key height) →
      (SkipList.access compare config (.beginInsert key height)).isSome) ∧
    config.reader ≠ .broken ∧
    (∀ target finishedBefore level x loads,
      config.reader = .searching target finishedBefore level x loads →
        loads < config.begun.length + kMaxHeight ∧
          (SkipList.access compare config .loadNext).isSome) ∧
    ∀ target finishedBefore begunBy result loads,
      config.reader = .found target finishedBefore begunBy result loads →
        ∃ contents key, (∀ k ∈ finishedBefore, k ∈ contents) ∧ (∀ k ∈ contents, k ∈ begunBy) ∧
          result.map config.list.keyOf = key.map some ∧
          WeakOrder.IsFirst (Lt compare) contents (fun k => 0 ≤ compare k target) key := by
  have invariant : Invariant compare config :=
    Machine.run_invariant (fun invariant fresh stepped =>
      invariant.access lawful separates fresh stepped) (initial_invariant compare) meets ran
  refine ⟨invariant.writer_progress lawful, fun idle key height fresh => ?_, ?_, ?_, ?_⟩
  · obtain ⟨next, stepped, -⟩ := beginInsert_ok lawful separates invariant fresh
    simp [SkipList.access, idle, stepped]
  · intro broken
    obtain ⟨visible, keyAt, -, readerOk, -⟩ := invariant
    rw [broken] at readerOk
    exact readerOk
  · intro target finishedBefore level x loads standing
    exact ⟨invariant.loads_lt standing, by simp [SkipList.access, standing]⟩
  · intro target finishedBefore begunBy result loads standing
    obtain ⟨visible, keyAt, -, readerOk, -⟩ := invariant
    rw [standing] at readerOk
    obtain ⟨contents, key, finished, begun, shown, first, -⟩ := readerOk
    exact ⟨contents, key, finished, begun, shown, first⟩

/-- A search that meets a key half inserted: the writer has linked the new node on level 0
when the reader loads the last link. -/
theorem concurrent_search_half_inserted :
    ∃ config : Config Nat, Machine.run (SkipList.access fun a b : Nat => (a : Int) - b)
        Config.initial [.beginSearch 3, .beginInsert 5 2, .storeMaxHeight, .loadMaxHeight,
          .storeNew, .publish, .loadNext, .loadNext] = some config ∧
      config.reader = .found 3 [] [5] (some 1) 2 ∧ config.finished = [] ∧
      ∃ contents key, (∀ k ∈ contents, k ∈ [5]) ∧
        (some 1).map config.list.keyOf = Option.map some key ∧
        WeakOrder.IsFirst (Lt fun a b : Nat => (a : Int) - b) contents
          (fun k => 0 ≤ (k : Int) - 3) key := by
  refine ⟨_, rfl, rfl, rfl, ?_⟩
  obtain ⟨-, -, -, -, returns⟩ := concurrent_search (fun a b : Nat => (a : Int) - b)
    ⟨fun a b => by rw [← Int.sign_neg, Int.neg_sub], fun first second => by omega⟩
    (fun a b same => by omega) [.beginSearch 3, .beginInsert 5 2, .storeMaxHeight, .loadMaxHeight,
      .storeNew, .publish, .loadNext, .loadNext] _
    (Machine.meets_of_step rfl trivial <|
      Machine.meets_of_step rfl (by simp [FreshInsert, Config.initial, kMaxHeight]) <|
      Machine.meets_of_step rfl trivial <| Machine.meets_of_step rfl trivial <|
      Machine.meets_of_step rfl trivial <| Machine.meets_of_step rfl trivial <|
      Machine.meets_of_step rfl trivial <| Machine.meets_of_step rfl trivial trivial) rfl
  obtain ⟨contents, key, -, begun, shown, first⟩ := returns 3 [] [5] (some 1) 2 rfl
  exact ⟨contents, key, begun, shown, first⟩

end Runs

end LevelDbXy.SkipList
