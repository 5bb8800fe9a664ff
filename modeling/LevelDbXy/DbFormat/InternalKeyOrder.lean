import LevelDbXy.DataStructure.MemTableRead
import LevelDbXy.DataStructure.SkipListSet

/-!
# The order of internal keys

`InternalKeyComparator::Compare` answers 1 when the user keys compare equal and the tags
are equal, so it is never zero. Its strict order is sound (`internalCompare_weakOrder`), and
the searches only use that; what fails are the laws about equal keys, and with them
`SkipList::Contains`, which never finds anything.
-/

namespace LevelDbXy

open Coding

/-- What the comparison of internal keys promises about three of them. -/
structure InternalLawfulAt (user : Comparator) (a b c : Bytes) : Prop where
  userKeys : user.compare (extractUserKey a) (extractUserKey b) ≠ 0 →
    (internalCompare user a b).sign = (user.compare (extractUserKey a) (extractUserKey b)).sign
  tags : user.compare (extractUserKey a) (extractUserKey b) = 0 →
    extractTag b < extractTag a → internalCompare user a b < 0 ∧ 0 < internalCompare user b a
  zero : internalCompare user a b = 0 ↔
    user.compare (extractUserKey a) (extractUserKey b) = 0 ∧ extractTag a = extractTag b
  antisymm : (internalCompare user a b).sign = -(internalCompare user b a).sign
  trans : internalCompare user a b ≤ 0 → internalCompare user b c ≤ 0 →
    internalCompare user a c ≤ 0

variable {user : Comparator}

/-- Two internal keys never compare as equal. -/
theorem internalCompare_ne_zero (user : Comparator) (a b : Bytes) :
    internalCompare user a b ≠ 0 := by
  unfold internalCompare
  by_cases equal : user.compare (extractUserKey a) (extractUserKey b) = 0
  · by_cases newer : extractTag b < extractTag a <;> simp [equal, newer]
  · simp [equal]

/-- The user keys decide if they differ. -/
theorem internalCompare_of_ne_zero {a b : Bytes}
    (different : user.compare (extractUserKey a) (extractUserKey b) ≠ 0) :
    internalCompare user a b = user.compare (extractUserKey a) (extractUserKey b) := by
  simp [internalCompare, different]

/-- Among equal user keys the larger tag comes first. -/
theorem internalCompare_of_tag_lt (lawful : ThreeWay user.compare) {a b : Bytes}
    (equal : user.compare (extractUserKey a) (extractUserKey b) = 0)
    (newer : extractTag b < extractTag a) :
    internalCompare user a b = -1 ∧ internalCompare user b a = 1 := by
  have swapped := (lawful.eq_zero_comm _ _).mp equal
  have notNewer : ¬ extractTag a < extractTag b := by omega
  simp [internalCompare, equal, swapped, newer, notNewer]

/-- Keys that differ in user key or tag are compared lawfully. -/
theorem internalLawfulAt_of_apart (lawful : ThreeWay user.compare) {a b : Bytes} (c : Bytes)
    (apart : ¬ (user.compare (extractUserKey a) (extractUserKey b) = 0 ∧
      extractTag a = extractTag b)) : InternalLawfulAt user a b c where
  userKeys different := by rw [internalCompare_of_ne_zero different]
  tags equal newer := by
    obtain ⟨below, above⟩ := internalCompare_of_tag_lt lawful equal newer
    omega
  zero := iff_of_false (internalCompare_ne_zero user a b) apart
  antisymm := by
    by_cases equal : user.compare (extractUserKey a) (extractUserKey b) = 0
    · have swapped := (lawful.eq_zero_comm _ _).mp equal
      rcases Nat.lt_trichotomy (extractTag a) (extractTag b) with older | same | newer
      · obtain ⟨below, above⟩ := internalCompare_of_tag_lt lawful swapped older
        rw [below, above]
        rfl
      · exact absurd ⟨equal, same⟩ apart
      · obtain ⟨below, above⟩ := internalCompare_of_tag_lt lawful equal newer
        rw [below, above]
        rfl
    · have swapped : user.compare (extractUserKey b) (extractUserKey a) ≠ 0 := fun zero =>
        equal ((lawful.eq_zero_comm _ _).mpr zero)
      rw [internalCompare_of_ne_zero equal, internalCompare_of_ne_zero swapped, lawful.antisymm]
  trans first second := by
    have order := internalCompare_weakOrder lawful
    have firstBelow : internalCompare user a b < 0 :=
      lt_of_le_of_ne first (internalCompare_ne_zero user a b)
    have secondBelow : internalCompare user b c < 0 :=
      lt_of_le_of_ne second (internalCompare_ne_zero user b c)
    exact Int.le_of_lt (order.lt_of_before (order.asymm firstBelow) secondBelow)

/-! ### Searching with a comparison that is never zero -/

namespace SkipList

variable {Key : Type} {compare : Key → Key → Int} {list : SkipList Key} {keys : List Key}

/-- `Contains` finds nothing. -/
theorem contains_of_ne_zero (order : WeakOrder (Lt compare)) (nonzero : ∀ a b, compare a b ≠ 0)
    (holds : Holds compare list keys) (key : Key) : list.contains compare key = some false := by
  obtain ⟨levels, keyAt, rep, rfl⟩ := holds
  obtain ⟨prev, searched, -⟩ := rep.findGreaterOrEqual_spec order key
  cases found : (rest compare levels keyAt key 0).head? with
  | none => simp [contains, searched, found]
  | some x =>
    have keyed := rep.keyed x (List.dropWhile_subset _ (List.mem_of_mem_head? found))
    simp [contains, searched, found, keyed, equal, nonzero]

/-- So no insertion is refused. -/
theorem insertAll_of_ne_zero (order : WeakOrder (Lt compare)) (nonzero : ∀ a b, compare a b ≠ 0)
    (calls : List (Key × Nat)) (holds : Holds compare list keys)
    (heights : ∀ call ∈ calls, 1 ≤ call.2 ∧ call.2 ≤ kMaxHeight) :
    ∃ after held, list.insertAll compare calls = some after ∧ Holds compare after held := by
  induction calls generalizing list keys with
  | nil => exact ⟨list, keys, rfl, holds⟩
  | cons call calls inductionHypothesis =>
    obtain ⟨low, high⟩ := heights call (List.mem_cons_self ..)
    obtain ⟨middle, inserted, holdsMiddle⟩ := insert_holds holds order call.1 low high
    have step : list.insertAsserting compare call.1 call.2 = some middle := by
      simp [insertAsserting, contains_of_ne_zero order nonzero holds, inserted]
    obtain ⟨after, held, ran, holdsAfter⟩ := inductionHypothesis holdsMiddle
      fun c member => heights c (List.mem_cons_of_mem _ member)
    refine ⟨after, held, ?_, holdsAfter⟩
    rw [insertAll, List.foldlM_cons, step]
    exact ran

end SkipList

/-- The comparison of internal keys is lawful exactly between keys that differ in user key
or tag, and `Contains` is true of every inserted key exactly when there is none. -/
theorem internalCompare_lawful_iff (user : Comparator) (lawful : ThreeWay user.compare)
    (a b c : Bytes) (inserts : List (Bytes × Nat))
    (heights : ∀ call ∈ inserts, 1 ≤ call.2 ∧ call.2 ≤ kMaxHeight) :
    (InternalLawfulAt user a b c ↔
      ¬ (user.compare (extractUserKey a) (extractUserKey b) = 0 ∧ extractTag a = extractTag b)) ∧
    ∃ list, SkipList.new.insertAll (internalCompare user) inserts = some list ∧
      ((∀ call ∈ inserts, list.contains (internalCompare user) call.1 = some true) ↔
        inserts = []) := by
  constructor
  · constructor
    · intro laws same
      exact internalCompare_ne_zero user a b (laws.zero.mpr same)
    · exact internalLawfulAt_of_apart lawful c
  · have order : WeakOrder (SkipList.Lt (internalCompare user)) := internalCompare_weakOrder lawful
    obtain ⟨list, keys, ran, holds⟩ := SkipList.insertAll_of_ne_zero order
      (internalCompare_ne_zero user) inserts (SkipList.new_holds _) heights
    refine ⟨list, ran, ?_, ?_⟩
    · intro found
      cases inserts with
      | nil => rfl
      | cons call calls =>
        have isFound := found call (List.mem_cons_self ..)
        rw [SkipList.contains_of_ne_zero order (internalCompare_ne_zero user) holds] at isFound
        cases isFound
    · rintro rfl
      simp

/-- Two versions of one key, and a list that holds one of them. -/
theorem internalCompare_lawful_iff_two_versions :
    InternalLawfulAt MemTable.lexicographicComparator ([97] ++ encodeFixed64 513)
        ([97] ++ encodeFixed64 257) [0, 0, 0, 0, 0, 0, 0, 0] ∧
      ∃ list, SkipList.new.insertAll (internalCompare MemTable.lexicographicComparator)
        [([97] ++ encodeFixed64 513, 1)] = some list := by
  obtain ⟨laws, list, ran, -⟩ := internalCompare_lawful_iff MemTable.lexicographicComparator
    MemTable.lexicographicComparator_lawful ([97] ++ encodeFixed64 513) ([97] ++ encodeFixed64 257)
    [0, 0, 0, 0, 0, 0, 0, 0] [([97] ++ encodeFixed64 513, 1)] (by decide)
  exact ⟨laws.mpr (by decide), list, ran⟩

/-- An inserted key does not compare equal to itself and is not found. -/
theorem contains_misses_inserted :
    internalCompare MemTable.lexicographicComparator ([97] ++ encodeFixed64 257)
        ([97] ++ encodeFixed64 257) = 1 ∧
      ¬ InternalLawfulAt MemTable.lexicographicComparator ([97] ++ encodeFixed64 257)
        ([97] ++ encodeFixed64 257) ([97] ++ encodeFixed64 257) ∧
      (SkipList.new.insertAll (internalCompare MemTable.lexicographicComparator)
        [([97] ++ encodeFixed64 257, 1)]).bind (fun list =>
          list.contains (internalCompare MemTable.lexicographicComparator)
            ([97] ++ encodeFixed64 257)) = some false := by
  refine ⟨by decide, fun lawful => ?_, by decide⟩
  exact absurd (lawful.zero.mpr (by decide)) (by decide)

end LevelDbXy
