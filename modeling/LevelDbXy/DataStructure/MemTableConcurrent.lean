import LevelDbXy.DataStructure.MemTableRead
import LevelDbXy.DataStructure.SkipListConcurrentIterator
import LevelDbXy.DbFormat.InternalKeyOrder
import LevelDbXy.Library.ThreeWay

/-!
# Reading a memtable while it is written

One thread adds entries while any number of threads call `MemTable::Get`, with the steps of
the iterators over a skip list that is written. The comparator of the table is never zero, so
the results about those iterators are used with another one, `distinguish`, that
tells all entries apart and orders them, and the keys that are looked up, in the same way.

A `Get` returns what it would return on some of the entries: all that had been added when it
began, and none that had not begun to be added when it ended.
-/

namespace LevelDbXy

open Coding OrderWalk

namespace SkipList

/-! ### Comparisons that search alike -/

variable {Key : Type} {compare compare' : Key → Key → Int} {config : Config Key} {target : Key}

/-- Both comparisons put the same keys of the list before the target. -/
def SearchAlike (compare compare' : Key → Key → Int) (list : SkipList Key) (target : Key) : Prop :=
  ∀ x key, list.keyOf x = some key → (compare' key target < 0 ↔ compare key target < 0)

/-- One comparison of a search has the same result. -/
theorem SearchAlike.keyIsAfterNode {list : SkipList Key}
    (alike : SearchAlike compare compare' list target) (next : Option Nat) :
    list.keyIsAfterNode compare' target next = list.keyIsAfterNode compare target next := by
  cases next with
  | none => rfl
  | some y =>
    simp only [SkipList.keyIsAfterNode]
    cases stored : list.keyOf y with
    | none => rfl
    | some key =>
      rw [Option.map_some, Option.map_some, decide_eq_decide.mpr (alike y key stored)]

/-- So has the whole search. -/
theorem SearchAlike.findGreaterOrEqual {list : SkipList Key}
    (alike : SearchAlike compare compare' list target) :
    list.findGreaterOrEqual compare' target = list.findGreaterOrEqual compare target := by
  have loop : ∀ fuel level x prev, findGreaterOrEqualLoop compare' list target fuel level x prev =
      findGreaterOrEqualLoop compare list target fuel level x prev := by
    intro fuel
    induction fuel with
    | zero => exact fun _ _ _ => rfl
    | succ fuel inductionHypothesis =>
      intro level x prev
      simp only [findGreaterOrEqualLoop, alike.keyIsAfterNode, inductionHypothesis]
  exact loop _ _ _ _

/-- An insertion begins alike if neither comparison finds the key. -/
theorem SearchAlike.beginInsert (alike : SearchAlike compare compare' config.list target)
    (unequal : ∀ x key, config.list.keyOf x = some key →
      compare target key ≠ 0 ∧ compare' target key ≠ 0) (height : Nat) :
    beginInsert compare' config target height = beginInsert compare config target height := by
  have contained : config.list.contains compare' target = config.list.contains compare target := by
    simp only [contains, alike.findGreaterOrEqual]
    refine Option.bind_congr fun found _ => ?_
    cases found.1 with
    | none => rfl
    | some x =>
      cases stored : config.list.keyOf x with
      | none => simp [stored]
      | some key =>
        obtain ⟨first, second⟩ := unequal x key stored
        simp [equal, stored, first, second]
  simp only [SkipList.beginInsert, alike.findGreaterOrEqual, contained]

/-- So is a round of the search for the target. -/
theorem SearchAlike.searchStep {list : SkipList Key}
    (alike : SearchAlike compare compare' list target) (it : Iterator Key) (level x : Nat) :
    searchStep compare' list it (.seek target) level x =
      searchStep compare list it (.seek target) level x := by
  have goes : ∀ next, goesOn compare' list (.seek target) next =
      goesOn compare list (.seek target) next := by
    intro next
    cases next with
    | none => rfl
    | some y => exact alike.keyIsAfterNode (some y)
  simp only [SkipList.searchStep, assertion, goes]

end SkipList

namespace MemTable

/-! ### A comparison that tells entries apart -/

/-- The size of what is behind the internal key; a key that is looked up has nothing there. -/
def sizeBehind (entry : Bytes) : Nat := (lengthPrefixedAt entry).2.length

/-- A comparison of the sizes that are written behind the keys. -/
def compareSizeBehind (a b : Bytes) : Int := (sizeBehind a : Int) - sizeBehind b

/-- The order of the table; among equivalent entries those with less behind the internal key come
first, then bytes decide. -/
def distinguish (user : Comparator) : Bytes → Bytes → Int :=
  ThreeWay.thenBy (WeakOrder.toCompare (SkipList.Lt (keyCompare user)))
    (ThreeWay.thenBy compareSizeBehind lexicographicComparator.compare)

variable {user : Comparator}

/-- The finer comparison is a lawful one. -/
theorem distinguish_lawful (lawful : ThreeWay user.compare) : ThreeWay (distinguish user) := by
  have bySize : ThreeWay compareSizeBehind := by
    refine ⟨fun a b => ?_, fun first second => ?_⟩
    · rw [compareSizeBehind, compareSizeBehind, ← Int.sign_neg, Int.neg_sub]
    · rw [compareSizeBehind] at first second ⊢
      omega
  exact ThreeWay.thenBy_lawful (WeakOrder.toCompare_lawful (keyCompare_weakOrder lawful))
    (ThreeWay.thenBy_lawful bySize lexicographicComparator_lawful)

/-- It is zero on equal bytes only. -/
theorem distinguish_separates (user : Comparator) (a b : Bytes)
    (same : distinguish user a b = 0) : a = b := by
  unfold distinguish at same
  by_cases first : WeakOrder.toCompare (SkipList.Lt (keyCompare user)) a b = 0
  · rw [ThreeWay.thenBy_of_zero first] at same
    by_cases second : compareSizeBehind a b = 0
    · rw [ThreeWay.thenBy_of_zero second] at same
      exact lexicographicComparator_separates a b same
    · rw [ThreeWay.thenBy_of_ne second] at same
      exact absurd same second
  · rw [ThreeWay.thenBy_of_ne first] at same
    exact absurd same first

/-- The two comparisons agree where ties are only between a key and itself, or go to the side
with more behind the internal key. -/
theorem distinguish_neg_iff (lawful : ThreeWay user.compare) {a b : Bytes}
    (tied : ¬ SkipList.Lt (keyCompare user) a b → ¬ SkipList.Lt (keyCompare user) b a →
      a = b ∨ sizeBehind b < sizeBehind a) :
    distinguish user a b < 0 ↔ keyCompare user a b < 0 := by
  have order := WeakOrder.toCompare_lawful (keyCompare_weakOrder lawful)
  by_cases first : WeakOrder.toCompare (SkipList.Lt (keyCompare user)) a b = 0
  · obtain ⟨notBelow, notAbove⟩ := (order.eq_zero_iff a b).mp first
    rw [WeakOrder.toCompare_neg_iff] at notBelow notAbove
    refine iff_of_false ?_ notBelow
    rcases tied notBelow notAbove with rfl | larger
    · exact (distinguish_lawful lawful).weakOrder.irrefl a
    · have bySize : 0 < compareSizeBehind a b := by
        rw [compareSizeBehind]
        omega
      rw [distinguish, ThreeWay.thenBy_of_zero first, ThreeWay.thenBy_of_ne bySize.ne']
      exact bySize.not_gt
  · rw [distinguish, ThreeWay.thenBy_of_ne first]
    exact WeakOrder.toCompare_neg_iff a b

section Entries

variable {calls : List AddCall} (fits : ∀ call ∈ calls, call.Fits)

/-- No two additions of a key share a sequence number. -/
def Distinct (user : Comparator) (calls : List AddCall) : Prop :=
  calls.Pairwise fun a b => user.compare a.key b.key = 0 → a.seq ≠ b.seq

instance (user : Comparator) (calls : List AddCall) : Decidable (Distinct user calls) :=
  inferInstanceAs (Decidable (List.Pairwise _ calls))

include fits

/-- On the added entries it is the comparison of the memtable. -/
theorem distinguish_entry_neg_iff (lawful : ThreeWay user.compare) (distinct : Distinct user calls)
    {a b : AddCall} (aAdded : a ∈ calls) (bAdded : b ∈ calls) :
    distinguish user a.entry b.entry < 0 ↔ keyCompare user a.entry b.entry < 0 := by
  refine distinguish_neg_iff lawful fun notBelow notAbove => Or.inl ?_
  rw [keyCompare_entry_neg_iff user (fits a aAdded) (fits b bAdded)] at notBelow
  rw [keyCompare_entry_neg_iff user (fits b bAdded) (fits a aAdded)] at notAbove
  have sameKey : user.compare a.key b.key = 0 :=
    (lawful.eq_zero_iff _ _).mpr ⟨fun below => notBelow (Or.inl below),
      fun above => notAbove (Or.inl above)⟩
  have swapped := (lawful.eq_zero_comm _ _).mp sameKey
  have aType := a.type.toNat_le_one
  have bType := b.type.toNat_le_one
  have sameSeq : a.seq = b.seq := by
    have older : ¬ b.seq * 256 + b.type.toNat < a.seq * 256 + a.type.toNat := fun below =>
      notBelow (Or.inr ⟨sameKey, below⟩)
    have newer : ¬ a.seq * 256 + a.type.toNat < b.seq * 256 + b.type.toNat := fun below =>
      notAbove (Or.inr ⟨swapped, below⟩)
    omega
  rw [eq_of_seq_eq lawful distinct aAdded bAdded sameKey sameSeq]

/-- So it is on an added entry and a lookup key. -/
theorem distinguish_lookupKey_neg_iff (lawful : ThreeWay user.compare) {call : AddCall}
    (added : call ∈ calls) {k : Bytes} (size : k.length + 8 < 2 ^ 32) (s : Nat) :
    distinguish user call.entry (LookupKey.new k s).memtableKey < 0 ↔
      keyCompare user call.entry (LookupKey.new k s).memtableKey < 0 := by
  refine distinguish_neg_iff lawful fun _ _ => Or.inr ?_
  have kept : truncU32 (k.length + 8) = k.length + 8 := Nat.mod_eq_of_lt size
  have sized : (k ++ encodeFixed64 (packSequenceAndType s kValueTypeForSeek)).length =
      k.length + 8 := by simp
  have nothing := @lengthPrefixedAt_encode
    (k ++ encodeFixed64 (packSequenceAndType s kValueTypeForSeek)) [] (by rw [sized]; exact size)
  rw [sized, List.append_nil] at nothing
  rw [sizeBehind, sizeBehind, LookupKey.new, kept, nothing,
    AddCall.lengthPrefixedAt_entry (fits call added)]
  have low := (length_encodeVarint32_bounds call.value.length).1
  rw [List.length_append, List.length_nil]
  omega

end Entries

/-! ### The threads -/

/-- The steps of the thread that calls `Add` and of the threads that call `Get`. -/
inductive MemAccess where
  | add (call : AddCall) (height : Nat)
  | storeMaxHeight
  | storeNew
  | publish
  | get (thread : Nat) (key : Bytes) (snapshot : Nat)
  | loadMaxHeight (thread : Nat)
  | loadNext (thread : Nat)

/-- The step of the table: `Add` inserts the encoded entry, `Get` seeks the lookup key. -/
def MemAccess.table : MemAccess → SkipList.CrowdAccess Bytes
  | .add call height => .shared (.beginInsert call.entry height)
  | .storeMaxHeight => .shared .storeMaxHeight
  | .storeNew => .shared .storeNew
  | .publish => .shared .publish
  | .get thread key snapshot =>
    .iterator thread (.beginSeek (LookupKey.new key snapshot).memtableKey)
  | .loadMaxHeight thread => .iterator thread .loadMaxHeight
  | .loadNext thread => .iterator thread .loadNext

/-- One step of any thread. -/
def memAccess (user : Comparator) (crowd : SkipList.Crowd Bytes) (action : MemAccess) :
    Option (SkipList.Crowd Bytes) :=
  SkipList.crowdAccess (keyCompare user) crowd action.table

/-- The additions that have begun. -/
def added (actions : List MemAccess) : List AddCall :=
  actions.filterMap fun action =>
    match action with
    | .add call _ => some call
    | _ => none

/-- `Get` on the entry that its iterator stands on. -/
def getAt (user : Comparator) (entry : Bytes) (key : LookupKey) (value : Bytes) (status : Status) :
    Option GetResult := do
  let (keyLength, keyPtr) ← getVarint32Ptr entry 5
  if user.compare (keyPtr.take (truncU32 (keyLength + 2 ^ 32 - 8))) key.userKey = 0 then
    let tag := decodeFixed64 (keyPtr.drop (keyLength - 8))
    match ValueType.ofNat? (tag &&& 0xFF) with
    | some .kTypeValue => some ⟨true, (lengthPrefixedAt (keyPtr.drop keyLength)).1, status⟩
    | some .kTypeDeletion => some ⟨true, value, .notFound ""⟩
    | none => some ⟨false, value, status⟩
  else some ⟨false, value, status⟩

/-- What `Get` returns once its iterator has arrived. -/
def getReturns (user : Comparator) (crowd : SkipList.Crowd Bytes) (thread : Nat) (key : LookupKey)
    (value : Bytes) (status : Status) : Option GetResult :=
  match (crowd.iterators thread).node with
  | none => some ⟨false, value, status⟩
  | some node => do
    let entry ← crowd.shared.list.keyOf node
    getAt user entry key value status

/-- `Get` without other threads is the search followed by the same end. -/
theorem get_eq (mem : MemTable) (key : LookupKey) (value : Bytes) (status : Status) :
    mem.get key value status = (do
      let node ← mem.table.seek (keyCompare mem.userComparator) key.memtableKey
      match node with
      | none => some ⟨false, value, status⟩
      | some node => do
        let entry ← mem.table.keyOf node
        getAt mem.userComparator entry key value status) := rfl

/-- The end of `Get` on an entry that is not before the lookup key. -/
theorem getAt_entry (lawful : ThreeWay user.compare) {call : AddCall} (fits : call.Fits)
    {k : Bytes} {s : Nat} (value : Bytes) (status : Status)
    (notBefore : ¬ SkipList.Lt (keyCompare user) call.entry (LookupKey.new k s).memtableKey) :
    getAt user call.entry (LookupKey.new k s) value status =
      some (if user.compare call.key k = 0 then readResult call value status
        else ⟨false, value, status⟩) := by
  have order := keyCompare_weakOrder lawful
  -- a table that holds nothing else
  obtain ⟨mem, -, rfl, holds⟩ := addAll_new_holds order [(call, 1)] (by simp [kMaxHeight])
  obtain ⟨node, sought, stored⟩ := SkipList.seek_holds holds order (LookupKey.new k s).memtableKey
  have first : ((insertEntries (keyCompare mem.userComparator) []
      ([(call, 1)].map Prod.fst)).dropWhile fun key =>
        keyCompare mem.userComparator key (LookupKey.new k s).memtableKey < 0).head? =
          some call.entry := by
    simp only [List.map_cons, List.map_nil, insertEntries, List.foldl_cons, List.foldl_nil,
      List.orderedInsert_nil]
    rw [List.dropWhile_cons_of_neg (by simpa using notBefore)]
    rfl
  rw [first] at stored
  cases node with
  | none => simp at stored
  | some node =>
    have keyed : mem.table.keyOf node = some call.entry := by simpa using stored
    have result := get_of_seek_entry fits k s value status sought keyed
    rw [get_eq, sought] at result
    simpa [keyed] using result

/-! ### What the threads keep -/

/-- An iterator that only `Get` has moved. -/
inductive GetPhase : SkipList.Iterator Bytes → Prop where
  | fresh : GetPhase .new
  | started (finished : List Bytes) {k : Bytes} (s : Nat) (size : k.length + 8 < 2 ^ 32) :
    GetPhase ⟨none, .started (.seek (LookupKey.new k s).memtableKey), finished,
      .before (LookupKey.new k s).memtableKey, []⟩
  | descending (finished : List Bytes) {k : Bytes} (s level x : Nat)
      (size : k.length + 8 < 2 ^ 32) :
    GetPhase ⟨none, .descending (.seek (LookupKey.new k s).memtableKey) level x, finished,
      .before (LookupKey.new k s).memtableKey, []⟩
  | arrived (finished : List Bytes) {k : Bytes} (s : Nat) (size : k.length + 8 < 2 ^ 32)
      (node : Option Nat) (place : SkipList.Place Bytes) (ends : node = none → place = .behind) :
    GetPhase ⟨node, .resting, finished, .before (LookupKey.new k s).memtableKey,
      [(.forward, place)]⟩
  | broken (it : SkipList.Iterator Bytes) (isBroken : it.phase = .broken) : GetPhase it

/-- What is known of all threads: the iterators are as with `distinguish`, and the keys of the
table are entries whose addition has begun. -/
structure MemOk (user : Comparator) (calls : List AddCall) (crowd : SkipList.Crowd Bytes) :
    Prop where
  holds : SkipList.CrowdOk (distinguish user) crowd
  stored : ∀ x entry, crowd.shared.list.keyOf x = some entry → entry ∈ crowd.shared.begun
  begun : ∀ entry ∈ crowd.shared.begun, ∃ call ∈ calls, call.entry = entry
  writer : ∀ entry height prev, crowd.shared.writer = .searched entry height prev →
    entry ∈ crowd.shared.begun
  iterators : ∀ thread, GetPhase (crowd.iterators thread)

/-- An addition is one of the calls and has not begun yet; a key that is looked up has a size
that fits. -/
def MemFresh (calls : List AddCall) (crowd : SkipList.Crowd Bytes) : MemAccess → Prop
  | .add call height => call ∈ calls ∧ call.entry ∉ crowd.shared.begun ∧
      1 ≤ height ∧ height ≤ kMaxHeight
  | .get _ key _ => key.length + 8 < 2 ^ 32
  | _ => True

section Steps

variable {calls : List AddCall} {crowd next : SkipList.Crowd Bytes} {action : MemAccess}

/-- Each step is the same with either comparison. -/
theorem MemOk.crowdAccess_eq (ok : MemOk user calls crowd) (lawful : ThreeWay user.compare)
    (fits : ∀ call ∈ calls, call.Fits) (distinct : Distinct user calls)
    (fresh : MemFresh calls crowd action) :
    SkipList.crowdAccess (distinguish user) crowd action.table =
      SkipList.crowdAccess (keyCompare user) crowd action.table := by
  cases action with
  | add call height =>
    obtain ⟨isCall, notBegun, -⟩ := fresh
    have alike : SkipList.SearchAlike (keyCompare user) (distinguish user) crowd.shared.list
        call.entry := by
      intro x entry stored
      obtain ⟨other, isOther, rfl⟩ := ok.begun entry (ok.stored x entry stored)
      exact distinguish_entry_neg_iff fits lawful distinct isOther isCall
    have begins := alike.beginInsert (fun x entry stored => ⟨internalCompare_ne_zero user _ _,
      fun zero => notBegun (distinguish_separates user _ _ zero ▸ ok.stored x entry stored)⟩) height
    simp only [MemAccess.table, SkipList.crowdAccess, SkipList.access, begins]
  | loadNext thread =>
    simp only [MemAccess.table, SkipList.crowdAccess, SkipList.iteratorAccess]
    have phase := ok.iterators thread
    generalize crowd.iterators thread = it at phase ⊢
    cases phase with
    | @descending finished k s level x size =>
      have alike : SkipList.SearchAlike (keyCompare user) (distinguish user) crowd.shared.list
          (LookupKey.new k s).memtableKey := by
        intro x entry stored
        obtain ⟨other, isOther, rfl⟩ := ok.begun entry (ok.stored x entry stored)
        exact distinguish_lookupKey_neg_iff fits lawful isOther size s
      simp only [alike.searchStep]
    | broken it isBroken => simp only [isBroken]
    | _ => rfl
  | _ => rfl

/-- A search for a lookup key that ends is one of a `Get`. -/
theorem GetPhase.arrive (list : SkipList Bytes) (finished : List Bytes) {k : Bytes} (s : Nat)
    (size : k.length + 8 < 2 ^ 32) (phase : SkipList.Phase Bytes) (node : Option Nat) :
    GetPhase (SkipList.Iterator.arrive list ⟨none, phase, finished,
      .before (LookupKey.new k s).memtableKey, []⟩ .forward node) := by
  cases node with
  | none => exact .arrived finished s size none .behind fun _ => rfl
  | some x =>
    simp only [SkipList.Iterator.arrive]
    cases list.keyOf x with
    | none => exact .broken _ rfl
    | some entry => exact .arrived finished s size (some x) (.on entry) fun none => by cases none

/-- A step of such a search is one as well. -/
theorem GetPhase.searchStep (compare : Bytes → Bytes → Int) (list : SkipList Bytes)
    (finished : List Bytes) {k : Bytes} (s level x : Nat) (size : k.length + 8 < 2 ^ 32) :
    GetPhase (SkipList.searchStep compare list
      ⟨none, .descending (.seek (LookupKey.new k s).memtableKey) level x, finished,
        .before (LookupKey.new k s).memtableKey, []⟩
      (.seek (LookupKey.new k s).memtableKey) level x) := by
  unfold SkipList.searchStep
  split
  · split
    · exact .broken _ rfl
    · exact .descending finished s level _ size
    · split_ifs
      · exact .arrive list finished s size _ _
      · exact .descending finished s (level - 1) x size
  · exact .broken _ rfl

/-- A thread that only calls `Get` stays in one. -/
theorem GetPhase.access {config : SkipList.Config Bytes} {it after : SkipList.Iterator Bytes}
    {compare : Bytes → Bytes → Int} (phase : GetPhase it)
    (fresh : MemFresh calls crowd action) {thread : Nat}
    {step : SkipList.IteratorAccess Bytes} (isStep : action.table = .iterator thread step)
    (stepped : SkipList.iteratorAccess compare config it step = some after) : GetPhase after := by
  cases action with
  | get other key snapshot =>
    obtain ⟨-, rfl⟩ := SkipList.CrowdAccess.iterator.inj isStep
    simp only [SkipList.iteratorAccess] at stepped
    split at stepped
    · exact Option.some.inj stepped ▸ .started config.finished snapshot fresh
    · cases stepped
  | loadMaxHeight other =>
    obtain ⟨-, rfl⟩ := SkipList.CrowdAccess.iterator.inj isStep
    simp only [SkipList.iteratorAccess] at stepped
    cases phase with
    | started finished s size => exact Option.some.inj stepped ▸ .descending finished s _ _ size
    | broken it isBroken => simp [isBroken] at stepped
    | _ => cases stepped
  | loadNext other =>
    obtain ⟨-, rfl⟩ := SkipList.CrowdAccess.iterator.inj isStep
    simp only [SkipList.iteratorAccess] at stepped
    cases phase with
    | descending finished s level x size =>
      exact Option.some.inj stepped ▸ .searchStep compare config.list finished s level x size
    | broken it isBroken => simp [isBroken] at stepped
    | _ => cases stepped
  | _ => cases isStep

/-- What a step of the writer does to the keys of the table, and to those that have begun. -/
theorem MemOk.shared (ok : MemOk user calls crowd) (fresh : MemFresh calls crowd action)
    {step : SkipList.Access Bytes} (isStep : action.table = .shared step)
    {shared : SkipList.Config Bytes}
    (stepped : SkipList.access (keyCompare user) crowd.shared step = some shared) :
    (∀ x entry, shared.list.keyOf x = some entry → entry ∈ shared.begun) ∧
      (∀ entry ∈ shared.begun, ∃ call ∈ calls, call.entry = entry) ∧
      ∀ entry height prev, shared.writer = .searched entry height prev → entry ∈ shared.begun := by
  obtain ⟨-, stored, begun, writer, -⟩ := ok
  have kept : ∀ {list : SkipList Bytes} {next : SkipList.Writer Bytes} {finished : List Bytes},
      (∀ x entry, list.keyOf x = some entry → entry ∈ crowd.shared.begun) →
      (∀ entry height prev, next ≠ .searched entry height prev) →
      some { crowd.shared with list, writer := next, finished } = some shared →
      (∀ x entry, shared.list.keyOf x = some entry → entry ∈ shared.begun) ∧
        (∀ entry ∈ shared.begun, ∃ call ∈ calls, call.entry = entry) ∧
        ∀ entry height prev, shared.writer = .searched entry height prev →
          entry ∈ shared.begun := by
    intro list next finished keys other same
    obtain rfl := Option.some.inj same
    exact ⟨keys, begun, fun entry height prev isNext => absurd isNext (other entry height prev)⟩
  cases action with
  | add call height =>
    obtain rfl := SkipList.CrowdAccess.shared.inj isStep
    simp only [SkipList.access] at stepped
    split at stepped
    · obtain ⟨found, -, rest⟩ := Option.bind_eq_some_iff.mp stepped
      obtain ⟨equal, -, begins⟩ := Option.bind_eq_some_iff.mp rest
      cases equal with
      | true => cases begins
      | false =>
        obtain rfl := Option.some.inj begins
        refine ⟨fun x entry keyed => List.mem_cons_of_mem _ (stored x entry keyed),
          List.forall_mem_cons.mpr ⟨⟨call, fresh.1, rfl⟩, begun⟩, fun entry height prev same => ?_⟩
        obtain ⟨rfl, -⟩ := SkipList.Writer.searched.inj same
        exact List.mem_cons_self
    · cases stepped
  | storeMaxHeight =>
    obtain rfl := SkipList.CrowdAccess.shared.inj isStep
    simp only [SkipList.access] at stepped
    split at stepped
    next key height prev standing =>
      refine kept (fun x entry keyed => ?_) (fun _ _ _ => by simp) stepped
      rw [SkipList.keyOf_newNode] at keyed
      split_ifs at keyed
      · exact Option.some.inj keyed ▸ writer key height prev standing
      · exact stored x entry keyed
    next => cases stepped
  | storeNew =>
    obtain rfl := SkipList.CrowdAccess.shared.inj isStep
    simp only [SkipList.access] at stepped
    split at stepped
    next =>
      obtain ⟨before, -, rest⟩ := Option.bind_eq_some_iff.mp stepped
      obtain ⟨after, -, stores⟩ := Option.bind_eq_some_iff.mp rest
      refine kept (fun x entry keyed => ?_) (fun _ _ _ => by simp) stores
      rw [SkipList.keyOf_setNext] at keyed
      exact stored x entry keyed
    next => cases stepped
  | publish =>
    obtain rfl := SkipList.CrowdAccess.shared.inj isStep
    simp only [SkipList.access] at stepped
    split at stepped
    next =>
      obtain ⟨before, -, stores⟩ := Option.bind_eq_some_iff.mp stepped
      split_ifs at stores
      all_goals
        refine kept (fun x entry keyed => ?_) (fun _ _ _ => by simp) stores
        rw [SkipList.keyOf_setNext] at keyed
        exact stored x entry keyed
    next => cases stepped
  | _ => cases isStep

/-- Every step keeps it. -/
theorem MemOk.access (ok : MemOk user calls crowd) (lawful : ThreeWay user.compare)
    (fits : ∀ call ∈ calls, call.Fits) (distinct : Distinct user calls)
    (fresh : MemFresh calls crowd action) (stepped : memAccess user crowd action = some next) :
    MemOk user calls next := by
  have same := ok.crowdAccess_eq lawful fits distinct fresh
  have freshShared : SkipList.FreshShared crowd action.table := by
    cases action with
    | add call height => exact fresh.2
    | _ => trivial
  have holds : SkipList.CrowdOk (distinguish user) next :=
    ok.holds.access (distinguish_lawful lawful) (distinguish_separates user) freshShared
      (same.trans stepped)
  rw [memAccess] at stepped
  cases isStep : action.table with
  | shared step =>
    rw [isStep] at stepped
    obtain ⟨shared, accessed, rfl⟩ := Option.map_eq_some_iff.mp stepped
    obtain ⟨stored, begun, writer⟩ := ok.shared fresh isStep accessed
    exact ⟨holds, stored, begun, writer, ok.iterators⟩
  | iterator thread step =>
    rw [isStep] at stepped
    obtain ⟨it, accessed, rfl⟩ := Option.map_eq_some_iff.mp stepped
    refine ⟨holds, ok.stored, ok.begun, ok.writer, fun other => ?_⟩
    simp only [Function.update_apply]
    split_ifs
    · exact (ok.iterators thread).access fresh isStep accessed
    · exact ok.iterators other

end Steps

/-! ### Runs -/

section Runs

variable {calls : List AddCall} {crowd next : SkipList.Crowd Bytes}

/-- Before any access nothing is added and no thread reads. -/
theorem MemOk.initial (lawful : ThreeWay user.compare) (calls : List AddCall) :
    MemOk user calls .initial where
  holds := SkipList.CrowdOk.initial (distinguish_lawful lawful) (distinguish_separates user)
  stored x entry keyed := by
    cases x with
    | zero => cases keyed
    | succ x => cases keyed
  begun entry member := by cases member
  writer entry height prev standing := by cases standing
  iterators thread := .fresh

/-- Only `Add` begins an insertion. -/
theorem begun_memAccess {action : MemAccess} (stepped : memAccess user crowd action = some next) :
    next.shared.begun = (added [action]).map AddCall.entry ++ crowd.shared.begun := by
  cases action with
  | add call height =>
    obtain ⟨shared, accessed, rfl⟩ := Option.map_eq_some_iff.mp stepped
    simp only [SkipList.access] at accessed
    split at accessed
    · obtain ⟨found, -, rest⟩ := Option.bind_eq_some_iff.mp accessed
      obtain ⟨equal, -, begins⟩ := Option.bind_eq_some_iff.mp rest
      cases equal with
      | true => cases begins
      | false =>
        obtain rfl := Option.some.inj begins
        rfl
    · cases accessed
  | storeMaxHeight =>
    obtain ⟨shared, accessed, rfl⟩ := Option.map_eq_some_iff.mp stepped
    simp only [SkipList.access] at accessed
    split at accessed
    · obtain rfl := Option.some.inj accessed
      rfl
    · cases accessed
  | storeNew =>
    obtain ⟨shared, accessed, rfl⟩ := Option.map_eq_some_iff.mp stepped
    simp only [SkipList.access] at accessed
    split at accessed
    · obtain ⟨before, -, rest⟩ := Option.bind_eq_some_iff.mp accessed
      obtain ⟨after, -, stores⟩ := Option.bind_eq_some_iff.mp rest
      obtain rfl := Option.some.inj stores
      rfl
    · cases accessed
  | publish =>
    obtain ⟨shared, accessed, rfl⟩ := Option.map_eq_some_iff.mp stepped
    simp only [SkipList.access] at accessed
    split at accessed
    · obtain ⟨before, -, stores⟩ := Option.bind_eq_some_iff.mp accessed
      split_ifs at stores <;> obtain rfl := Option.some.inj stores <;> rfl
    · cases accessed
  | _ =>
    obtain ⟨it, -, rfl⟩ := Option.map_eq_some_iff.mp stepped
    rfl

/-- Different additions have different entries. -/
theorem Distinct.nodup_entries (distinct : Distinct user calls) (lawful : ThreeWay user.compare)
    (fits : ∀ call ∈ calls, call.Fits) : (calls.map AddCall.entry).Nodup := by
  refine List.pairwise_map.mpr (distinct.imp_of_mem fun {a b} aAdded bAdded apart same => ?_)
  have internal : a.internalKey = b.internalKey := by
    rw [← AddCall.iterKey_entry (fits a aAdded), same, AddCall.iterKey_entry (fits b bAdded)]
  have parsed := AddCall.parseInternalKey_internalKey (fits a aAdded)
  rw [internal, AddCall.parseInternalKey_internalKey (fits b bAdded)] at parsed
  obtain ⟨key, seq, -⟩ := ParsedInternalKey.mk.inj (Option.some.inj parsed)
  refine apart ?_ seq.symm
  rw [key]
  exact (lawful.eq_zero_iff _ _).mpr ⟨lawful.weakOrder.irrefl _, lawful.weakOrder.irrefl _⟩

/-- Every addition of a run is fresh. -/
theorem meets_memFresh {actions : List MemAccess} (isCall : ∀ call ∈ added actions, call ∈ calls)
    (nodup : ((added actions).map AddCall.entry ++ crowd.shared.begun).Nodup)
    (heights : ∀ call height, .add call height ∈ actions → 1 ≤ height ∧ height ≤ kMaxHeight)
    (sizes : ∀ thread k s, .get thread k s ∈ actions → k.length + 8 < 2 ^ 32) :
    Machine.Meets (memAccess user) (MemFresh calls) crowd actions := by
  induction actions generalizing crowd with
  | nil => trivial
  | cons action actions inductionHypothesis =>
    have split : added (action :: actions) = added [action] ++ added actions := by
      rw [added, added, added, ← List.filterMap_append, List.singleton_append]
    rw [split] at isCall nodup
    refine ⟨?_, fun next stepped => inductionHypothesis
      (fun call member => isCall call (List.mem_append_right _ member)) ?_
      (fun call height member => heights call height (List.mem_cons_of_mem _ member))
      (fun thread k s member => sizes thread k s (List.mem_cons_of_mem _ member))⟩
    · cases action with
      | add call height =>
        refine ⟨isCall call List.mem_cons_self, fun begun => ?_, heights call height
          List.mem_cons_self⟩
        exact (List.nodup_cons.mp nodup).1 (List.mem_append_right _ begun)
      | get thread k s => exact sizes thread k s List.mem_cons_self
      | _ => trivial
    · rw [begun_memAccess stepped]
      refine (List.Perm.nodup_iff ?_).mp nodup
      rw [List.map_append, List.append_assoc]
      exact List.perm_append_comm_assoc _ _ _

/-- The entry where the search of a `Get` ends: not before the lookup key, and not behind any
visible version that was finished when the search began. -/
structure Found (user : Comparator) (calls : List AddCall) (finished : List Bytes) (k : Bytes)
    (s : Nat) (first : Option AddCall) : Prop where
  isCall : ∀ call, first = some call → call ∈ calls
  notBefore : ∀ call, first = some call →
    ¬ SkipList.Lt (keyCompare user) call.entry (LookupKey.new k s).memtableKey
  leads : ∀ call ∈ calls, call.entry ∈ finished → Visible user k s call →
    ∃ other, first = some other ∧ ¬ SkipList.Lt (keyCompare user) call.entry other.entry

/-- What `Get` makes of the entry. -/
def foundResult (user : Comparator) (k : Bytes) (first : Option AddCall) (value : Bytes)
    (status : Status) : GetResult :=
  match first with
  | none => ⟨false, value, status⟩
  | some call => if user.compare call.key k = 0 then readResult call value status
    else ⟨false, value, status⟩

/-- A `Get` that has arrived stands on a version that was in the table, or behind all of them. -/
theorem MemOk.exists_found (ok : MemOk user calls crowd) (lawful : ThreeWay user.compare)
    (fits : ∀ call ∈ calls, call.Fits) (distinct : Distinct user calls) {thread s : Nat} {k : Bytes}
    (size : k.length + 8 < 2 ^ 32) (snapshot : s ≤ kMaxSequenceNumber)
    (resting : (crowd.iterators thread).phase = .resting)
    (asked : (crowd.iterators thread).origin = .before (LookupKey.new k s).memtableKey)
    (value : Bytes) (status : Status) :
    ∃ first, Found user calls (crowd.iterators thread).finishedBefore k s first ∧
      getReturns user crowd thread (LookupKey.new k s) value status =
        some (foundResult user k first value status) := by
  have order := (distinguish_lawful lawful).weakOrder
  have phase := ok.iterators thread
  obtain ⟨⟨visible, keyAt, seen, -⟩, iterators⟩ := ok.holds
  obtain ⟨-, walk, hasBegun, stands, -⟩ := iterators thread visible keyAt seen
  have visibleBehind : ∀ call ∈ calls, Visible user k s call →
      ¬ distinguish user call.entry (LookupKey.new k s).memtableKey < 0 := by
    intro call isCall isVisible
    rw [distinguish_lookupKey_neg_iff fits lawful isCall size s]
    change ¬ SkipList.Lt (keyCompare user) call.entry (LookupKey.new k s).memtableKey
    rw [keyCompare_lookupKey_neg_iff user (fits call isCall) size snapshot]
    obtain ⟨equivalent, inSnapshot⟩ := isVisible
    omega
  unfold getReturns
  generalize crowd.iterators thread = it at *
  cases phase with
  | fresh => cases asked
  | started => cases resting
  | descending => cases resting
  | broken it isBroken => cases isBroken.symm.trans resting
  | arrived finished s' size' node place ends =>
    obtain same : (LookupKey.new _ s').memtableKey = _ := SkipList.Place.before.inj asked
    rw [same] at walk
    have behind : (SkipList.Place.before (LookupKey.new k s).memtableKey).Lt (distinguish user)
        place := walk.ordered.1
    have covers := fun entry member => walk.covers (.on entry) ⟨entry, member, rfl⟩
      (.before (LookupKey.new k s).memtableKey)
        (List.mem_append_right _ (List.mem_singleton.mpr rfl))
      place List.mem_cons_self
    cases node with
    | none =>
      obtain rfl := ends rfl
      refine ⟨none, ⟨fun _ isSome => (nomatch isSome), fun _ isSome => (nomatch isSome),
        fun call isCall isFinished isVisible => ?_⟩, rfl⟩
      have visited := covers call.entry isFinished (visibleBehind call isCall isVisible) id
      simp [places] at visited
    | some x =>
      obtain ⟨listed, isPlace⟩ := stands x rfl
      obtain rfl : place = .on (keyAt x) := isPlace
      obtain ⟨first, isFirst, sameEntry⟩ := ok.begun _ (hasBegun (keyAt x) List.mem_cons_self)
      rw [← sameEntry] at behind covers
      have notBefore : ¬ SkipList.Lt (keyCompare user) first.entry
          (LookupKey.new k s).memtableKey := by
        intro before
        exact behind ((distinguish_lookupKey_neg_iff fits lawful isFirst size s).mpr before)
      refine ⟨some first, ⟨fun call isSome => Option.some.inj isSome ▸ isFirst,
        fun call isSome => Option.some.inj isSome ▸ notBefore,
        fun call isCall isFinished isVisible => ⟨first, rfl, fun before => ?_⟩⟩, ?_⟩
      · have earlier := (distinguish_entry_neg_iff fits lawful distinct isCall isFirst).mpr before
        have visited := covers call.entry isFinished (visibleBehind call isCall isVisible)
          (order.asymm earlier)
        have sameAsFirst : call.entry = first.entry := by simpa [places, sameEntry] using visited
        rw [sameAsFirst] at earlier
        exact order.irrefl _ earlier
      · simp only [seen.rep.keyed x listed, ← sameEntry, Option.bind_eq_bind, Option.bind_some]
        exact getAt_entry lawful (fits first isFirst) value status notBefore

/-- So a `Get` reads the latest version of some of the additions. -/
theorem Found.reads_latest {finished : List Bytes} {k : Bytes} {s : Nat} {first : Option AddCall}
    (found : Found user calls finished k s first) (lawful : ThreeWay user.compare)
    (fits : ∀ call ∈ calls, call.Fits) (distinct : Distinct user calls)
    (snapshot : s ≤ kMaxSequenceNumber) (size : k.length + 8 < 2 ^ 32) (value : Bytes)
    (status : Status) :
    ∃ some_ : List AddCall, (∀ call ∈ calls, call.entry ∈ finished → call ∈ some_) ∧
      (∀ call ∈ some_, call ∈ calls) ∧
      (∀ latest, Latest user some_ k s latest →
        foundResult user k first value status = readResult latest value status) ∧
      ((∀ call ∈ some_, ¬ Visible user k s call) →
        foundResult user k first value status = ⟨false, value, status⟩) := by
  classical
  refine ⟨calls.filter fun call => call.entry ∈ finished ∨ first = some call, ?_, ?_, ?_, ?_⟩
  · exact fun call isCall isFinished => List.mem_filter.mpr ⟨isCall, by simp [isFinished]⟩
  · exact fun call member => (List.mem_filter.mp member).1
  · rintro latest ⟨member, isVisible, largest⟩
    obtain ⟨isCall, chosen⟩ := List.mem_filter.mp member
    obtain ⟨other, rfl, notBefore⟩ : ∃ other, first = some other ∧
        ¬ SkipList.Lt (keyCompare user) latest.entry other.entry := by
      rcases of_decide_eq_true chosen with isFinished | isFirst
      · exact found.leads latest isCall isFinished isVisible
      · exact ⟨latest, isFirst, (keyCompare_weakOrder lawful).irrefl _⟩
    have isOther := found.isCall other rfl
    have atKey := found.notBefore other rfl
    rw [keyCompare_lookupKey_neg_iff user (fits other isOther) size snapshot] at atKey
    rw [keyCompare_entry_neg_iff user (fits latest isCall) (fits other isOther)] at notBefore
    obtain ⟨otherVisible, sameKey, notOlder⟩ := latest_of_first lawful isVisible atKey notBefore
    have notNewer := largest other (List.mem_filter.mpr ⟨isOther, by simp⟩) otherVisible
    obtain rfl := eq_of_seq_eq lawful distinct isCall isOther sameKey
      (Nat.le_antisymm notOlder notNewer)
    rw [foundResult, if_pos otherVisible.1]
  · intro nothing
    cases first with
    | none => rfl
    | some call =>
      have isCall := found.isCall call rfl
      have atKey := found.notBefore call rfl
      rw [keyCompare_lookupKey_neg_iff user (fits call isCall) size snapshot] at atKey
      rw [foundResult, if_neg]
      intro equivalent
      refine nothing call (List.mem_filter.mpr ⟨isCall, by simp⟩) ⟨equivalent, ?_⟩
      by_contra later
      exact atKey (Or.inr ⟨equivalent, by omega⟩)

/-- However `Add` and any number of `Get` interleave, a `Get` that has not arrived can take its next
step, and one that has arrived reads the latest version among some of the additions: all that
were finished when it began, and only such as have begun. If those its snapshot may see were
all finished, it reads the latest of all. -/
theorem concurrent_get_reads_between (user : Comparator) (lawful : ThreeWay user.compare)
    (actions : List MemAccess) (fits : ∀ call ∈ added actions, call.Fits)
    (distinct : Distinct user (added actions))
    (heights : ∀ call height, .add call height ∈ actions → 1 ≤ height ∧ height ≤ kMaxHeight)
    (sizes : ∀ thread k s, .get thread k s ∈ actions → k.length + 8 < 2 ^ 32)
    (crowd : SkipList.Crowd Bytes)
    (ran : Machine.run (memAccess user) .initial actions = some crowd) (thread : Nat)
    (k : Bytes) (s : Nat) (snapshot : s ≤ kMaxSequenceNumber) (value : Bytes) (status : Status) :
    (match (crowd.iterators thread).phase with
    | .resting => True
    | .started _ => (memAccess user crowd (.loadMaxHeight thread)).isSome
    | .descending .. => (memAccess user crowd (.loadNext thread)).isSome
    | .broken => False) ∧
    ((crowd.iterators thread).phase = .resting →
      (crowd.iterators thread).origin = .before (LookupKey.new k s).memtableKey →
      .get thread k s ∈ actions →
      (∃ between : List AddCall,
        (∀ call ∈ added actions, call.entry ∈ (crowd.iterators thread).finishedBefore →
          call ∈ between) ∧
        (∀ call ∈ between, call ∈ added actions) ∧
        (∀ latest, Latest user between k s latest →
          getReturns user crowd thread (LookupKey.new k s) value status =
            some (readResult latest value status)) ∧
        ((∀ call ∈ between, ¬ Visible user k s call) →
          getReturns user crowd thread (LookupKey.new k s) value status =
            some ⟨false, value, status⟩)) ∧
      ((∀ call ∈ added actions, Visible user k s call →
          call.entry ∈ (crowd.iterators thread).finishedBefore) →
        ∀ latest, Latest user (added actions) k s latest →
          getReturns user crowd thread (LookupKey.new k s) value status =
            some (readResult latest value status))) := by
  have nodup : ((added actions).map AddCall.entry ++ []).Nodup := by
    rw [List.append_nil]
    exact distinct.nodup_entries lawful fits
  have meets : Machine.Meets (memAccess user) (MemFresh (added actions)) .initial actions :=
    meets_memFresh (fun call isCall => isCall) nodup heights sizes
  have ok : MemOk user (added actions) crowd := Machine.run_invariant
    (fun ok fresh stepped => ok.access lawful fits distinct fresh stepped)
    (MemOk.initial lawful (added actions)) meets ran
  refine ⟨?_, fun resting asked isGet => ?_⟩
  · obtain ⟨⟨visible, keyAt, seen, -⟩, iterators⟩ := ok.holds
    have phase := (iterators thread visible keyAt seen).phase
    simp only [memAccess, MemAccess.table, SkipList.crowdAccess, Option.isSome_map]
    cases standing : (crowd.iterators thread).phase with
    | resting => trivial
    | started search => simp [SkipList.iteratorAccess, standing]
    | descending search level x => simp [SkipList.iteratorAccess, standing]
    | broken =>
      rw [standing] at phase
      exact phase
  · obtain ⟨first, found, returns⟩ := ok.exists_found lawful fits distinct (sizes thread k s isGet)
      snapshot resting asked value status
    obtain ⟨between, finished, begun, latestOf, nothing⟩ := found.reads_latest lawful fits distinct
      snapshot (sizes thread k s isGet) value status
    rw [returns]
    refine ⟨⟨between, finished, begun, fun latest isLatest => ?_, fun none => ?_⟩,
      fun allFinished latest isLatest => ?_⟩
    · rw [latestOf latest isLatest]
    · rw [nothing none]
    · rw [latestOf latest ⟨finished latest isLatest.added
        (allFinished latest isLatest.added isLatest.visible), isLatest.visible,
        fun other member => isLatest.largest other (begun other member)⟩]

/-- A key is overwritten while it is looked up at the old snapshot. -/
theorem concurrent_get_reads_between_overwritten :
    ∃ crowd, Machine.run (memAccess lexicographicComparator) .initial
        [.add ⟨1, .kTypeValue, [97], [98]⟩ 1, .storeMaxHeight, .storeNew, .publish,
          .get 0 [97] 1, .loadMaxHeight 0, .add ⟨2, .kTypeDeletion, [97], []⟩ 1, .storeMaxHeight,
          .storeNew, .publish, .loadNext 0, .loadNext 0] = some crowd ∧
      getReturns lexicographicComparator crowd 0 (LookupKey.new [97] 1) [] .ok =
        some ⟨true, [98], .ok⟩ := by
  refine ⟨_, rfl, ?_⟩
  refine ((concurrent_get_reads_between lexicographicComparator lexicographicComparator_lawful
    [.add ⟨1, .kTypeValue, [97], [98]⟩ 1, .storeMaxHeight, .storeNew, .publish, .get 0 [97] 1,
      .loadMaxHeight 0, .add ⟨2, .kTypeDeletion, [97], []⟩ 1, .storeMaxHeight, .storeNew, .publish,
      .loadNext 0, .loadNext 0]
    ?_ (by decide) ?_ ?_ _ rfl 0 [97] 1 (by decide) [] .ok).2 rfl rfl (by simp)).2 ?_
    ⟨1, .kTypeValue, [97], [98]⟩ ?_
  · intro call member
    simp only [added, List.filterMap_cons, List.filterMap_nil, List.mem_cons, List.not_mem_nil,
      or_false] at member
    rcases member with rfl | rfl <;> constructor <;> decide
  · intro call height member
    obtain rfl : height = 1 := by
      simp only [List.mem_cons, List.not_mem_nil, MemAccess.add.injEq, reduceCtorEq, false_or,
        or_false] at member
      omega
    decide
  · intro thread k s member
    obtain ⟨-, rfl, -⟩ : thread = 0 ∧ k = [97] ∧ s = 1 := by simpa using member
    decide
  · intro call member isVisible
    simp only [added, List.filterMap_cons, List.filterMap_nil, List.mem_cons, List.not_mem_nil,
      or_false] at member
    rcases member with rfl | rfl
    · exact List.mem_cons_self
    · exact absurd isVisible.2 (by decide)
  · exact ⟨List.mem_cons_self, ⟨by decide, by decide⟩, fun other member isVisible => isVisible.2⟩

end Runs

end MemTable

end LevelDbXy
