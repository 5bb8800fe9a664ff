import LevelDbXy.DataStructure.MemTableRead
import LevelDbXy.DataStructure.SkipListIterator

/-!
# Iterating over a memtable

`MemTableIterator` wraps an iterator of the skip list and decodes the entries. Over a
total order of user keys it is a cursor over the added entries, sorted by user key and
then by descending tag.
-/

namespace LevelDbXy

open Coding

/-- `EncodeKey`. -/
def encodeKey (target : Bytes) : Bytes := encodeVarint32 (truncU32 target.length) ++ target

/-- The entry comes before an internal key with this user key and tag. -/
def AddCall.precedes (user : Comparator) (call : AddCall) (userKey : Bytes) (tag : Nat) : Bool :=
  decide (user.compare call.key userKey < 0 ∨
    user.compare call.key userKey = 0 ∧ tag < packSequenceAndType call.seq call.type)

namespace MemTable

/-- Calls on a new `MemTableIterator`, which passes them on and encodes the targets. -/
def iterRun (mem : MemTable) (calls : List (Cursor.Call Bytes)) : Option (Option Nat) :=
  mem.table.iterRun (keyCompare mem.userComparator) (calls.map (Cursor.Call.map encodeKey))

/-- What `key` and `value` return after the calls, or nothing if the iterator is not
valid. -/
def iterObserve (mem : MemTable) (calls : List (Cursor.Call Bytes)) :
    Option (Option (Bytes × Bytes)) := do
  let node ← mem.iterRun calls
  match node with
  | none => some none
  | some node => (mem.table.keyOf node).map fun entry => some (iterKey entry, iterValue entry)

/-! ### The entries as calls -/

/-- The entries of the table are those of the calls in some order. -/
theorem exists_sorted_calls (compare : Bytes → Bytes → Int) (calls held : List AddCall) :
    ∃ sorted : List AddCall,
      sorted.map AddCall.entry = insertEntries compare (held.map AddCall.entry) calls ∧
        sorted.Perm (calls ++ held) := by
  induction calls generalizing held with
  | nil => exact ⟨held, rfl, List.Perm.refl _⟩
  | cons call calls inductionHypothesis =>
    let before := fun a b : AddCall => WeakOrder.Before (SkipList.Lt compare) a.entry b.entry
    have : DecidableRel before := fun a b =>
      inferInstanceAs (Decidable (WeakOrder.Before (SkipList.Lt compare) a.entry b.entry))
    have moved := List.map_orderedInsert before (WeakOrder.Before (SkipList.Lt compare))
      AddCall.entry held call (fun _ _ => Iff.rfl) (fun _ _ => Iff.rfl)
    obtain ⟨sorted, entries, perm⟩ := inductionHypothesis (held.orderedInsert before call)
    rw [moved] at entries
    refine ⟨sorted, entries, perm.trans ?_⟩
    exact ((List.perm_orderedInsert _ _ _).append_left _).trans List.perm_middle

/-- The types have different numbers. -/
theorem eq_of_toNat_eq {s t : ValueType} (same : s.toNat = t.toNat) : s = t := by
  cases s <;> cases t <;> simp_all [ValueType.toNat]

/-- An entry stands before another one if its key is smaller, or its tag is larger. -/
theorem entry_lt_iff (user : Comparator) {a b : AddCall} (aFits : a.Fits) (bFits : b.Fits) :
    SkipList.Lt (keyCompare user) a.entry b.entry ↔
      a.precedes user b.key (packSequenceAndType b.seq b.type) = true := by
  rw [keyCompare_entry_neg_iff user aFits bFits, AddCall.precedes, decide_eq_true_iff,
    packSequenceAndType_eq _ aFits.seq, packSequenceAndType_eq _ bFits.seq]

/-- Weakly sorted entries of different calls are strictly sorted: a tie would be the same
key, sequence number and type. -/
theorem entry_lt_of_before {user : Comparator} (lawful : ThreeWay user.compare)
    (separates : ∀ a b, user.compare a b = 0 → a = b) {a b : AddCall} (aFits : a.Fits)
    (bFits : b.Fits) (different : ¬ (a.key = b.key ∧ a.seq = b.seq ∧ a.type = b.type))
    (before : WeakOrder.Before (SkipList.Lt (keyCompare user)) a.entry b.entry) :
    SkipList.Lt (keyCompare user) a.entry b.entry := by
  have notAfter : ¬ SkipList.Lt (keyCompare user) b.entry a.entry := before
  rw [keyCompare_entry_neg_iff user bFits aFits] at notAfter
  rw [keyCompare_entry_neg_iff user aFits bFits]
  have flipped := lawful.pos_iff a.key b.key
  have tied := lawful.eq_zero_comm a.key b.key
  by_contra notBefore
  have equivalent : user.compare a.key b.key = 0 := by omega
  have aType := a.type.toNat_le_one
  have bType := b.type.toNat_le_one
  refine different ⟨separates _ _ equivalent, by omega, eq_of_toNat_eq (by omega)⟩

/-- An encoded target compares like its user key and tag. -/
theorem entry_lt_encodeKey_iff (user : Comparator) {call : AddCall} (fits : call.Fits)
    {target : Bytes} (size : target.length < 2 ^ 32) :
    SkipList.Lt (keyCompare user) call.entry (encodeKey target) ↔
      call.precedes user (extractUserKey target) (extractTag target) = true := by
  have kept : truncU32 target.length = target.length := Nat.mod_eq_of_lt size
  have decoded := @lengthPrefixedAt_encode target [] size
  rw [List.append_nil] at decoded
  rw [SkipList.Lt, keyCompare, AddCall.lengthPrefixedAt_entry fits, encodeKey, kept, decoded,
    internalCompare_neg_iff, AddCall.extractUserKey_internalKey,
    AddCall.extractTag_internalKey fits, AddCall.precedes, decide_eq_true_iff,
    packSequenceAndType_eq _ fits.seq]

/-- What an iterator shows is the entry its node holds. -/
theorem iterObserve_eq (mem : MemTable) (calls : List (Cursor.Call Bytes)) :
    mem.iterObserve calls = ((mem.iterRun calls).map (Option.map mem.table.keyOf)).bind
      fun node => node.elim (some none) (Option.map fun entry =>
        some (iterKey entry, iterValue entry)) := by
  cases ran : mem.iterRun calls with
  | none => simp [iterObserve, ran]
  | some node => cases node <;> simp [iterObserve, ran]

/-- Over a total order of user keys an iterator is a cursor over the added entries, sorted
by user key and then by descending tag, and shows their internal keys and values. -/
theorem iterObserve_follows (user : Comparator) (lawful : ThreeWay user.compare)
    (separates : ∀ a b, user.compare a b = 0 → a = b) (calls : List (AddCall × Nat))
    (fits : ∀ call ∈ calls, call.1.Fits)
    (heights : ∀ call ∈ calls, 1 ≤ call.2 ∧ call.2 ≤ kMaxHeight)
    (distinct : calls.Pairwise fun a b =>
      ¬ (a.1.key = b.1.key ∧ a.1.seq = b.1.seq ∧ a.1.type = b.1.type)) :
    ∃ mem sorted, (MemTable.new user).addAll calls = some mem ∧
      sorted.Perm (calls.map Prod.fst) ∧
      sorted.Pairwise (fun a b => a.precedes user b.key (packSequenceAndType b.seq b.type) = true) ∧
      ∀ iterCalls, (∀ target, .seek target ∈ iterCalls → 8 ≤ target.length ∧
          target.length < 2 ^ 32) →
        mem.iterObserve iterCalls =
          (Cursor.run (fun call target =>
            call.precedes user (extractUserKey target) (extractTag target)) sorted none
              iterCalls).map fun position => position.bind fun i =>
                sorted[i]?.map fun call => (call.internalKey, call.value) := by
  have order := keyCompare_weakOrder lawful
  obtain ⟨mem, added, rfl, holds⟩ := addAll_new_holds order calls heights
  obtain ⟨sorted, entries, perm⟩ := exists_sorted_calls (keyCompare mem.userComparator)
    (calls.map Prod.fst) []
  rw [List.append_nil] at perm
  have fitsSorted : ∀ call ∈ sorted, call.Fits := by
    intro call member
    obtain ⟨pair, pairMember, rfl⟩ := List.mem_map.mp (perm.mem_iff.mp member)
    exact fits pair pairMember
  have distinctSorted : sorted.Pairwise fun a b =>
      ¬ (a.key = b.key ∧ a.seq = b.seq ∧ a.type = b.type) := by
    refine (perm.pairwise_iff ?_).mpr (List.pairwise_map.mpr distinct)
    rintro a b apart ⟨key, seq, type⟩
    exact apart ⟨key.symm, seq.symm, type.symm⟩
  have weak := sorted_insertEntries order (calls.map Prod.fst) List.Pairwise.nil
  rw [List.map_nil] at entries
  rw [← entries, List.pairwise_map] at weak
  rw [← entries] at holds
  have strict : sorted.Pairwise fun a b =>
      SkipList.Lt (keyCompare mem.userComparator) a.entry b.entry :=
    (weak.and distinctSorted).imp_of_mem fun {a b} aMember bMember both =>
      entry_lt_of_before lawful separates (fitsSorted a aMember) (fitsSorted b bMember) both.2
        both.1
  refine ⟨mem, sorted, added, perm, ?_, ?_⟩
  · exact strict.imp_of_mem fun aMember bMember =>
      (entry_lt_iff _ (fitsSorted _ aMember) (fitsSorted _ bMember)).mp
  · intro iterCalls targets
    have followed := SkipList.iterRun_holds holds order (List.pairwise_map.mpr strict)
      (iterCalls.map (Cursor.Call.map encodeKey))
    have renamed := @Cursor.run_map _ _ _ _
      (fun call target => call.precedes mem.userComparator (extractUserKey target)
        (extractTag target))
      (fun key target => decide (keyCompare mem.userComparator key target < 0)) AddCall.entry
      encodeKey sorted iterCalls
      (fun target member call listed => by
        rw [Bool.eq_iff_iff, decide_eq_true_iff]
        exact entry_lt_encodeKey_iff _ (fitsSorted call listed) (targets target member).2) none
    rw [iterObserve_eq, iterRun, followed, renamed]
    cases Cursor.run _ sorted none iterCalls with
    | none => rfl
    | some position =>
      cases position with
      | none => rfl
      | some i =>
        simp only [Option.map_some, Option.bind_some, List.getElem?_map, Option.map_map]
        cases found : sorted[i]? with
        | none => rfl
        | some call =>
          have callFits := fitsSorted call (List.mem_of_getElem? found)
          simp [AddCall.iterKey_entry callFits, AddCall.iterValue_entry callFits]

/-- Two versions of one key: the newer one is met first, and `Prev` goes back to it. -/
theorem iterObserve_follows_two_versions :
    ∃ mem, ∃ sorted : List AddCall, (MemTable.new lexicographicComparator).addAll
        [(⟨1, .kTypeValue, [97], [98]⟩, 2), (⟨2, .kTypeDeletion, [97], []⟩, 1)] = some mem ∧
      sorted.Perm [⟨1, .kTypeValue, [97], [98]⟩, ⟨2, .kTypeDeletion, [97], []⟩] ∧
      mem.iterObserve [.seekToFirst, .next, .prev] =
        (Cursor.run (fun call target => call.precedes lexicographicComparator
          (extractUserKey target) (extractTag target)) sorted none
            [.seekToFirst, .next, .prev]).map fun position => position.bind fun i =>
              sorted[i]?.map fun call => (call.internalKey, call.value) := by
  obtain ⟨mem, sorted, added, perm, -, follows⟩ := iterObserve_follows lexicographicComparator
    lexicographicComparator_lawful lexicographicComparator_separates
    [(⟨1, .kTypeValue, [97], [98]⟩, 2), (⟨2, .kTypeDeletion, [97], []⟩, 1)]
    (by
      intro call member
      simp only [List.mem_cons, List.not_mem_nil, or_false] at member
      rcases member with rfl | rfl <;> constructor <;> decide)
    (by decide) (by decide)
  exact ⟨mem, sorted, added, perm, follows _ (by simp)⟩

end MemTable

end LevelDbXy
