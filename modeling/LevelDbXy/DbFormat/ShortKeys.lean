import LevelDbXy.DbFormat.InternalKey

/-!
# Shortened keys

`FindShortestSeparator` and `FindShortSuccessor`, as the byte comparator and the
comparator of internal keys implement them. The scan of the byte comparator compares
a signed `char` with an unsigned byte, so it stops at the first byte from `0x80` on
even where both strings have it. `findShortestSeparator_cons_cons` says what one
position of that scan does; the range results and the exact condition under which
the separator is the shortest one are inductions over it.
-/

namespace LevelDbXy

open Coding

/-- A signed `char` equals an unsigned byte exactly when both are the same byte below `0x80`. -/
theorem signedChar_eq_iff (s l : UInt8) :
    signedChar s = l.toNat ↔ s = l ∧ s.toNat < 128 := by
  have bounded := s.toNat_lt
  rw [← UInt8.toNat_inj, signedChar]
  split <;> omega

namespace BytewiseComparator

/-- `FindShortestSeparator` with its assertion; `none` is a failed one. -/
def findShortestSeparatorAsserting (start limit : Bytes) : Option Bytes :=
  let index := diffIndex start limit
  if min start.length limit.length ≤ index then some start
  else
    let diffByte := (start.getD index 0).toNat
    if diffByte < 255 ∧ diffByte + 1 < (limit.getD index 0).toNat then
      let shortened := start.take index ++ [start.getD index 0 + 1]
      if Slice.compare shortened limit < 0 then some shortened else none
    else some start

/-! ### One position of the scan -/

@[simp] theorem findShortestSeparator_nil_left (limit : Bytes) :
    findShortestSeparator [] limit = [] := by
  simp [findShortestSeparator]

@[simp] theorem findShortestSeparator_nil_right (start : Bytes) :
    findShortestSeparator start [] = start := by
  simp [findShortestSeparator]

/-- The scan goes on over an equal byte below 128, and decides at any other. -/
theorem findShortestSeparator_cons_cons (s l : UInt8) (start limit : Bytes) :
    findShortestSeparator (s :: start) (l :: limit) =
      if s = l ∧ s.toNat < 128 then s :: findShortestSeparator start limit
      else if s.toNat + 1 < l.toNat then [s + 1] else s :: start := by
  have bounded := l.toNat_lt
  have minLength : min (s :: start).length (l :: limit).length =
      min start.length limit.length + 1 := by
    simp only [List.length_cons]
    omega
  by_cases same : s = l ∧ s.toNat < 128
  · have scanned : diffIndex (s :: start) (l :: limit) = diffIndex start limit + 1 := by
      rw [diffIndex, if_pos ((signedChar_eq_iff s l).mpr same)]
    rw [if_pos same]
    simp only [findShortestSeparator, scanned, minLength, Nat.add_le_add_iff_right,
      List.getD_cons_succ, List.take_succ_cons, List.cons_append]
    split_ifs <;> rfl
  · have scanned : diffIndex (s :: start) (l :: limit) = 0 := by
      rw [diffIndex, if_neg (mt (signedChar_eq_iff s l).mp same)]
    have inside : ¬ min start.length limit.length + 1 ≤ 0 := by omega
    have narrowed : (s.toNat < 255 ∧ s.toNat + 1 < l.toNat) ↔ s.toNat + 1 < l.toNat := by omega
    rw [if_neg same]
    simp only [findShortestSeparator, scanned, minLength, inside, if_false,
      List.getD_cons_zero, List.take_zero, List.nil_append, narrowed]

/-- A byte below the last one is incremented without wrapping. -/
theorem toNat_add_one {byte : UInt8} (below : byte.toNat < 255) :
    (byte + 1).toNat = byte.toNat + 1 := by
  rw [UInt8.toNat_add]
  exact Nat.mod_eq_of_lt (Nat.succ_lt_succ below)

/-- The byte that is counted up lies between the two. -/
theorem lt_add_one_lt {s l : UInt8} (room : s.toNat + 1 < l.toNat) : s < s + 1 ∧ s + 1 < l := by
  have bounded := l.toNat_lt
  rw [UInt8.lt_iff_toNat_lt, UInt8.lt_iff_toNat_lt, toNat_add_one (by omega)]
  omega

/-! ### Range of the separator -/

/-- What a separator does: it leaves the key alone, or it gives a greater key that is no
longer and below the limit. -/
theorem findShortestSeparator_range (start limit : Bytes) :
    findShortestSeparator start limit = start ∨
      start < findShortestSeparator start limit ∧ findShortestSeparator start limit < limit ∧
        (findShortestSeparator start limit).length ≤ start.length := by
  induction start generalizing limit with
  | nil => simp
  | cons s start inductionHypothesis =>
    cases limit with
    | nil => simp
    | cons l limit =>
      rw [findShortestSeparator_cons_cons]
      split_ifs with same room
      · obtain ⟨rfl, -⟩ := same
        rcases inductionHypothesis limit with unchanged | ⟨above, below, shorter⟩
        · exact .inl (by rw [unchanged])
        · refine .inr ⟨?_, ?_, ?_⟩
          · rw [List.cons_lt_cons_iff]
            exact .inr ⟨rfl, above⟩
          · rw [List.cons_lt_cons_iff]
            exact .inr ⟨rfl, below⟩
          · simpa using shorter
      · obtain ⟨above, below⟩ := lt_add_one_lt room
        refine .inr ⟨?_, ?_, by simp⟩
        · rw [List.cons_lt_cons_iff]
          exact .inl above
        · rw [List.cons_lt_cons_iff]
          exact .inl below
      · exact .inl rfl

/-- The assertion of the separator never fails. -/
theorem findShortestSeparatorAsserting_eq (start limit : Bytes) :
    findShortestSeparatorAsserting start limit = some (findShortestSeparator start limit) := by
  have range := findShortestSeparator_range start limit
  simp only [findShortestSeparator] at range
  simp only [findShortestSeparatorAsserting, findShortestSeparator]
  generalize diffIndex start limit = index at range ⊢
  split_ifs at range ⊢ with short room asserted
  · rfl
  · rfl
  · exfalso
    rcases range with unchanged | ⟨-, below, -⟩
    · -- The new key has the incremented byte at the very place it was taken from.
      have inside : index < start.length := by omega
      have replaced := congrArg (·.getD index 0) unchanged
      simp only [List.getD_eq_getElem?_getD, List.getElem?_append_right (List.length_take_le ..),
        List.length_take, Nat.min_eq_left (Nat.le_of_lt inside), Nat.sub_self,
        List.getElem?_cons_zero, Option.getD_some] at replaced
      have above := (lt_add_one_lt room.2).1
      rw [List.getD_eq_getElem?_getD, replaced] at above
      exact UInt8.lt_irrefl _ above
    · exact asserted ((Slice.compare_neg_iff _ _).mpr below)
  · rfl

/-- A successor leaves the key alone or gives a greater key that is no longer. -/
theorem findShortSuccessor_range (key : Bytes) :
    findShortSuccessor key = key ∨
      key < findShortSuccessor key ∧ (findShortSuccessor key).length ≤ key.length := by
  induction key with
  | nil => exact .inl rfl
  | cons byte key inductionHypothesis =>
    by_cases room : byte = 255
    · rw [findShortSuccessor, if_neg (not_not.mpr room)]
      rcases inductionHypothesis with unchanged | ⟨above, shorter⟩
      · exact .inl (by rw [unchanged])
      · refine .inr ⟨?_, by simpa using shorter⟩
        rw [List.cons_lt_cons_iff]
        exact .inr ⟨rfl, above⟩
    · rw [findShortSuccessor, if_pos room]
      refine .inr ⟨?_, by simp⟩
      have below : byte.toNat ≠ 255 := fun top => room (UInt8.toNat_inj.mp top)
      have bounded := byte.toNat_lt
      rw [List.cons_lt_cons_iff, UInt8.lt_iff_toNat_lt, toNat_add_one (by omega)]
      omega

end BytewiseComparator

/-! ### Internal keys -/

/-- The internal order: user keys ascend as unsigned bytes, tags of one user key descend. -/
def InternalBelow (a b : Bytes) : Prop :=
  extractUserKey a < extractUserKey b ∨
    extractUserKey a = extractUserKey b ∧ extractTag b < extractTag a

/-- The internal order with equality. -/
def InternalAtMost (a b : Bytes) : Prop := InternalBelow a b ∨ a = b

namespace InternalKeyComparator

/-- `InternalKeyComparator::FindShortestSeparator`; `none` is a failed assertion. -/
def findShortestSeparator (user : Comparator) (start limit : Bytes) : Option Bytes :=
  let userStart := extractUserKey start
  let userLimit := extractUserKey limit
  let tmp := user.findShortestSeparator userStart userLimit
  if tmp.length < userStart.length ∧ user.compare userStart tmp < 0 then
    let tmp := tmp ++ encodeFixed64 (packSequenceAndType kMaxSequenceNumber kValueTypeForSeek)
    if internalCompare user start tmp < 0 ∧ internalCompare user tmp limit < 0 then some tmp
    else none
  else some start

/-- `InternalKeyComparator::FindShortSuccessor`; `none` is a failed assertion. -/
def findShortSuccessor (user : Comparator) (key : Bytes) : Option Bytes :=
  let userKey := extractUserKey key
  let tmp := user.findShortSuccessor userKey
  if tmp.length < userKey.length ∧ user.compare userKey tmp < 0 then
    let tmp := tmp ++ encodeFixed64 (packSequenceAndType kMaxSequenceNumber kValueTypeForSeek)
    if internalCompare user key tmp < 0 then some tmp else none
  else some key

/-- The length of a shorter user key with a tag. -/
theorem length_append_tag_le {userKey key : Bytes} {tag : Nat} (long : 8 ≤ key.length)
    (shorter : userKey.length < (extractUserKey key).length) :
    (userKey ++ encodeFixed64 tag).length ≤ key.length := by
  have taken : (extractUserKey key).length = key.length - 8 := by
    rw [extractUserKey, List.length_take]
    omega
  rw [List.length_append, length_encodeFixed64]
  omega

/-- Over the byte comparator no assertion fails, and the separator of two internal keys is
in range. -/
theorem findShortestSeparator_bytewise {start : Bytes} (limit : Bytes) (long : 8 ≤ start.length) :
    ∃ r, findShortestSeparator bytewiseComparator start limit = some r ∧ InternalAtMost start r ∧
      r.length ≤ start.length ∧ (InternalBelow start limit → InternalBelow r limit) := by
  have range : bytewiseComparator.findShortestSeparator (extractUserKey start)
      (extractUserKey limit) = extractUserKey start ∨ _ :=
    BytewiseComparator.findShortestSeparator_range (extractUserKey start) (extractUserKey limit)
  simp only [findShortestSeparator]
  split_ifs with guard asserted
  · rcases range with unchanged | ⟨above, below, -⟩
    · rw [unchanged] at guard
      exact absurd guard.1 (Nat.lt_irrefl _)
    · refine ⟨_, rfl, .inl (.inl ?_), length_append_tag_le long guard.1, fun _ => .inl ?_⟩
      · rw [extractUserKey_append]
        exact above
      · rw [extractUserKey_append]
        exact below
  · rcases range with unchanged | ⟨above, below, -⟩
    · rw [unchanged] at guard
      exact absurd guard.1 (Nat.lt_irrefl _)
    · rw [internalCompare_bytewise_neg_iff, internalCompare_bytewise_neg_iff,
        extractUserKey_append] at asserted
      exact absurd ⟨above, below⟩ asserted
  · exact ⟨start, rfl, .inr rfl, le_refl _, fun below => below⟩

/-- Over the byte comparator no assertion fails, and the successor of an internal key is
in range. -/
theorem findShortSuccessor_bytewise {key : Bytes} (long : 8 ≤ key.length) :
    ∃ r, findShortSuccessor bytewiseComparator key = some r ∧ InternalAtMost key r ∧
      r.length ≤ key.length := by
  simp only [findShortSuccessor]
  split_ifs with guard asserted
  · refine ⟨_, rfl, .inl (.inl ?_), length_append_tag_le long guard.1⟩
    rw [extractUserKey_append]
    exact (Slice.compare_neg_iff _ _).mp guard.2
  · rw [internalCompare_bytewise_neg_iff, extractUserKey_append] at asserted
    exact absurd ((Slice.compare_neg_iff _ _).mp guard.2) asserted
  · exact ⟨key, rfl, .inr rfl, le_refl _⟩

/-- Shortened index keys stay in range, and no assertion of the four functions fails. -/
theorem shortKeys_in_range (start limit key : Bytes) (startLong : 8 ≤ start.length)
    (_limitLong : 8 ≤ limit.length) (keyLong : 8 ≤ key.length) :
    (∃ r, findShortestSeparator bytewiseComparator start limit = some r ∧
      InternalAtMost start r ∧ r.length ≤ start.length ∧
      (InternalBelow start limit → InternalBelow r limit)) ∧
    (∃ r, findShortSuccessor bytewiseComparator key = some r ∧ InternalAtMost key r ∧
      r.length ≤ key.length) ∧
    BytewiseComparator.findShortestSeparatorAsserting (extractUserKey start)
        (extractUserKey limit) =
      some (bytewiseComparator.findShortestSeparator (extractUserKey start)
        (extractUserKey limit)) :=
  ⟨findShortestSeparator_bytewise limit startLong, findShortSuccessor_bytewise keyLong,
    BytewiseComparator.findShortestSeparatorAsserting_eq _ _⟩

/-- The keys of the source's own test, `foo` and `hello`. -/
theorem shortKeys_in_range_foo :
    (∃ r, findShortestSeparator bytewiseComparator ([102, 111, 111] ++ encodeFixed64 25601)
        ([104, 101, 108, 108, 111] ++ encodeFixed64 51201) = some r ∧
      InternalAtMost ([102, 111, 111] ++ encodeFixed64 25601) r) ∧
    findShortestSeparator bytewiseComparator ([102, 111, 111] ++ encodeFixed64 25601)
        ([104, 101, 108, 108, 111] ++ encodeFixed64 51201) =
      some ([103] ++ encodeFixed64 (packSequenceAndType kMaxSequenceNumber .kTypeValue)) := by
  obtain ⟨⟨r, result, above, -⟩, -⟩ := shortKeys_in_range
    ([102, 111, 111] ++ encodeFixed64 25601) ([104, 101, 108, 108, 111] ++ encodeFixed64 51201)
    ([102, 111, 111] ++ encodeFixed64 25601) (by decide) (by decide) (by decide)
  exact ⟨⟨r, result, above⟩, by decide⟩

end InternalKeyComparator

/-! ### The shortest separator -/

namespace BytewiseComparator

/-- The first index at which two strings differ as unsigned bytes, or the length of the
shorter one. -/
def firstDifference : Bytes → Bytes → Nat
  | s :: start, l :: limit => if s = l then firstDifference start limit + 1 else 0
  | _, _ => 0

/-- The bytes allow shortening: the first difference is inside both strings and leaves a
byte between the two. -/
def Shortenable (start limit : Bytes) : Prop :=
  firstDifference start limit < start.length ∧ firstDifference start limit < limit.length ∧
    (start.getD (firstDifference start limit) 0).toNat + 1 <
      (limit.getD (firstDifference start limit) 0).toNat

instance (start limit : Bytes) : Decidable (Shortenable start limit) :=
  inferInstanceAs (Decidable (_ ∧ _ ∧ _))

/-- The separator the bytes allow. -/
def shortestSeparator (start limit : Bytes) : Bytes :=
  let index := firstDifference start limit
  if Shortenable start limit then start.take index ++ [start.getD index 0 + 1] else start

@[simp] theorem not_shortenable_nil_left (limit : Bytes) : ¬ Shortenable [] limit := by
  simp [Shortenable]

@[simp] theorem not_shortenable_nil_right (start : Bytes) : ¬ Shortenable start [] := by
  simp [Shortenable]

/-- An equal first byte does not matter. -/
theorem shortenable_cons_self (byte : UInt8) (start limit : Bytes) :
    Shortenable (byte :: start) (byte :: limit) ↔ Shortenable start limit := by
  simp [Shortenable, firstDifference]

/-- At different first bytes there has to be one between them. -/
theorem shortenable_cons_cons {s l : UInt8} (different : s ≠ l) (start limit : Bytes) :
    Shortenable (s :: start) (l :: limit) ↔ s.toNat + 1 < l.toNat := by
  simp [Shortenable, firstDifference, different]

/-- A key that cannot be shortened is kept. -/
theorem shortestSeparator_of_not {start limit : Bytes} (stays : ¬ Shortenable start limit) :
    shortestSeparator start limit = start := by
  rw [shortestSeparator, if_neg stays]

/-- An equal first byte is kept. -/
theorem shortestSeparator_cons_self (byte : UInt8) (start limit : Bytes) :
    shortestSeparator (byte :: start) (byte :: limit) = byte :: shortestSeparator start limit := by
  have scanned : firstDifference (byte :: start) (byte :: limit) =
      firstDifference start limit + 1 := by
    rw [firstDifference, if_pos rfl]
  simp only [shortestSeparator, shortenable_cons_self, scanned, List.getD_cons_succ,
    List.take_succ_cons, List.cons_append]
  split_ifs <;> rfl

/-- At different first bytes the key ends with the byte after its own, if that is smaller. -/
theorem shortestSeparator_cons_cons {s l : UInt8} (different : s ≠ l) (start limit : Bytes) :
    shortestSeparator (s :: start) (l :: limit) =
      if s.toNat + 1 < l.toNat then [s + 1] else s :: start := by
  have scanned : firstDifference (s :: start) (l :: limit) = 0 := by
    rw [firstDifference, if_neg different]
  simp only [shortestSeparator, shortenable_cons_cons different, scanned, List.getD_cons_zero,
    List.take_zero, List.nil_append]

/-- A string that can be shortened is changed. -/
theorem shortestSeparator_ne {start limit : Bytes} (allowed : Shortenable start limit) :
    shortestSeparator start limit ≠ start := by
  induction start generalizing limit with
  | nil => exact absurd allowed (not_shortenable_nil_left limit)
  | cons s start inductionHypothesis =>
    cases limit with
    | nil => exact absurd allowed (not_shortenable_nil_right _)
    | cons l limit =>
      by_cases same : s = l
      · subst same
        rw [shortestSeparator_cons_self]
        intro unchanged
        exact inductionHypothesis ((shortenable_cons_self s start limit).mp allowed)
          (List.cons.inj unchanged).2
      · have room := (shortenable_cons_cons same start limit).mp allowed
        rw [shortestSeparator_cons_cons same, if_pos room]
        intro unchanged
        have above := (lt_add_one_lt room).1
        rw [(List.cons.inj unchanged).1] at above
        exact UInt8.lt_irrefl _ above

/-- The source gives the shortest separator exactly when shortening is not possible or no
byte of the common prefix is `0x80` or more. -/
theorem findShortestSeparator_shortest_iff (start limit : Bytes) :
    bytewiseComparator.findShortestSeparator start limit = shortestSeparator start limit ↔
      (Shortenable start limit →
        ∀ byte ∈ start.take (firstDifference start limit), byte.toNat < 128) := by
  change findShortestSeparator start limit = _ ↔ _
  induction start generalizing limit with
  | nil => simp [shortestSeparator]
  | cons s start inductionHypothesis =>
    cases limit with
    | nil => simp [shortestSeparator]
    | cons l limit =>
      rw [findShortestSeparator_cons_cons]
      by_cases same : s = l
      · subst same
        have scanned : firstDifference (s :: start) (s :: limit) =
            firstDifference start limit + 1 := by
          rw [firstDifference, if_pos rfl]
        rw [shortestSeparator_cons_self, shortenable_cons_self, scanned, List.take_succ_cons]
        by_cases low : s.toNat < 128
        · rw [if_pos ⟨rfl, low⟩]
          simp only [List.cons.injEq, true_and, inductionHypothesis, List.mem_cons,
            forall_eq_or_imp, low]
        · -- The scan stops at the shared byte, which leaves no room above itself.
          rw [if_neg fun both => low both.2, if_neg (by omega)]
          constructor
          · intro unchanged allowed
            exact absurd (List.cons.inj unchanged).2.symm (shortestSeparator_ne allowed)
          · intro onlyLow
            have stays : ¬ Shortenable start limit := fun allowed =>
              low (onlyLow allowed s (List.mem_cons_self ..))
            rw [shortestSeparator_of_not stays]
      · have scanned : firstDifference (s :: start) (l :: limit) = 0 := by
          rw [firstDifference, if_neg same]
        rw [if_neg fun both => same both.1, shortestSeparator_cons_cons same, scanned]
        simp

/-- Both strings begin with `0x80`, and the scan already stops there. -/
theorem findShortestSeparator_stops_early :
    Shortenable [0x80, 1] [0x80, 5] ∧ shortestSeparator [0x80, 1] [0x80, 5] = [0x80, 2] ∧
      bytewiseComparator.findShortestSeparator [0x80, 1] [0x80, 5] = [0x80, 1] := by
  decide

end BytewiseComparator

end LevelDbXy
