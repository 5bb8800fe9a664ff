import LevelDbXy.Util.Coding
import LevelDbXy.Library.WeakOrder
import Mathlib.Data.List.Lex
import Mathlib.Data.UInt

/-!
# Slices and the byte comparator

`Slice::compare` of `data_structure/slice.h` and the comparators built on it. The
comparison of two equal slices falls into the branch of the longer one, so it is
never zero; `compare_neg_iff` shows that the sign below zero is nevertheless
exactly the unsigned lexicographic order.
-/

namespace LevelDbXy

/-- `memcmp` over the first `n` bytes. Only the sign of its result is specified. -/
def memcmp : Bytes → Bytes → Nat → Int
  | a :: as, b :: bs, n + 1 =>
    if a = b then memcmp as bs n else if a < b then -1 else 1
  | _, _, _ => 0

namespace Slice

/-- `Slice::compare`. -/
def compare (a b : Bytes) : Int :=
  let minLen := if a.length < b.length then a.length else b.length
  let ret := memcmp a b minLen
  if ret = 0 then
    if a.length < b.length then -1 else 1
  else ret

/-- `Slice::operator==`. -/
def equal (a b : Bytes) : Bool := a.length == b.length && memcmp a b a.length == 0

@[simp] theorem compare_nil_cons (b : UInt8) (bs : Bytes) : compare [] (b :: bs) = -1 := by
  simp [compare, memcmp]

@[simp] theorem compare_nil_right (as : Bytes) : compare as [] = 1 := by
  cases as <;> simp [compare, memcmp]

/-- `compare` looks at the common length first and then at the lengths, where equal ones give 1. -/
theorem compare_eq_min (a b : Bytes) :
    compare a b = if memcmp a b (min a.length b.length) = 0 then
      if a.length < b.length then -1 else 1 else memcmp a b (min a.length b.length) := by
  have minLen : (if a.length < b.length then a.length else b.length) = min a.length b.length := by
    split_ifs <;> omega
  simp only [compare, minLen]

/-- Comparison skips an equal first byte and otherwise decides on it. -/
@[simp] theorem compare_cons_cons (a b : UInt8) (as bs : Bytes) :
    compare (a :: as) (b :: bs) =
      if a = b then compare as bs else if a < b then -1 else 1 := by
  have minLen : min (a :: as).length (b :: bs).length = min as.length bs.length + 1 := by
    simp only [List.length_cons]
    omega
  have lengths : (a :: as).length < (b :: bs).length ↔ as.length < bs.length := by simp
  rw [compare_eq_min, compare_eq_min, minLen, memcmp]
  simp only [lengths]
  by_cases same : a = b
  · simp only [same, if_true]
  · simp only [same, if_false]
    by_cases below : a < b <;> simp [below]

/-- The comparison is negative exactly on the lexicographic order of unsigned
bytes, a proper prefix first. -/
theorem compare_neg_iff (a b : Bytes) : compare a b < 0 ↔ a < b := by
  induction a generalizing b with
  | nil => cases b <;> simp
  | cons a as inductionHypothesis =>
    cases b with
    | nil => simp
    | cons b bs =>
      rw [compare_cons_cons, List.cons_lt_cons_iff]
      by_cases same : a = b
      · subst same
        simp [inductionHypothesis]
      · by_cases below : a < b <;> simp [same, below]

/-- No two slices compare equal, not even a slice with itself. -/
theorem compare_ne_zero (a b : Bytes) : compare a b ≠ 0 := by
  rw [compare_eq_min]
  split
  · split_ifs <;> decide
  · assumption

/-- `memcmp` over a whole slice finds no difference only in an equal one. -/
theorem memcmp_eq_zero_iff {a b : Bytes} (sizes : a.length = b.length) :
    memcmp a b a.length = 0 ↔ a = b := by
  induction a generalizing b with
  | nil =>
    have empty : b = [] := List.length_eq_zero_iff.mp sizes.symm
    simp [empty, memcmp]
  | cons a as inductionHypothesis =>
    cases b with
    | nil => simp at sizes
    | cons b bs =>
      have shorter : as.length = bs.length := by simpa using sizes
      rw [List.length_cons, memcmp]
      by_cases same : a = b
      · simp [same, inductionHypothesis shorter]
      · by_cases below : a < b <;> simp [same, below]

@[simp] theorem equal_iff (a b : Bytes) : equal a b = true ↔ a = b := by
  constructor
  · intro equals
    simp only [equal, Bool.and_eq_true, beq_iff_eq] at equals
    exact (memcmp_eq_zero_iff equals.1).mp equals.2
  · rintro rfl
    simp [equal, memcmp_eq_zero_iff rfl]

/-- The sign of a comparison of two different slices is decided by their order. -/
theorem sign_compare_of_lt {a b : Bytes} (below : a < b) :
    (compare a b).sign = -1 ∧ (compare b a).sign = 1 := by
  have negative := (compare_neg_iff a b).mpr below
  have notNegative : ¬ compare b a < 0 := fun swapped =>
    List.lt_asymm below ((compare_neg_iff b a).mp swapped)
  have nonzero := compare_ne_zero b a
  exact ⟨Int.sign_eq_neg_one_iff_neg.mpr negative, Int.sign_eq_one_iff_pos.mpr (by omega)⟩

/-- What a comparison of byte strings promises about three of them: it is zero on
equal strings only, antisymmetric, transitive, and orders by unsigned bytes. -/
structure LawfulAt (cmp : Bytes → Bytes → Int) (a b c : Bytes) : Prop where
  zero : cmp a b = 0 ↔ equal a b = true
  antisymm : (cmp a b).sign = -(cmp b a).sign
  trans : cmp a b < 0 → cmp b c < 0 → cmp a c < 0
  order : cmp a b < 0 ↔ a < b

/-- On different slices `compare` is lawful. -/
theorem lawfulAt_of_ne {a b : Bytes} (different : a ≠ b) (c : Bytes) :
    LawfulAt compare a b c where
  zero := by
    rw [equal_iff]
    exact iff_of_false (compare_ne_zero a b) different
  antisymm := by
    by_cases below : a < b
    · obtain ⟨negative, positive⟩ := sign_compare_of_lt below
      rw [negative, positive]
    · have above : b < a := by
        by_contra notAbove
        exact different (List.le_antisymm (List.not_lt.mp notAbove) (List.not_lt.mp below))
      obtain ⟨negative, positive⟩ := sign_compare_of_lt above
      rw [negative, positive]
      rfl
  trans := by
    rw [compare_neg_iff, compare_neg_iff, compare_neg_iff]
    exact List.lt_trans
  order := compare_neg_iff a b

end Slice

/-- The abstract class `Comparator`. The string-shortening methods return the
string the source stores back through its pointer. -/
structure Comparator where
  compare : Bytes → Bytes → Int
  findShortestSeparator : Bytes → Bytes → Bytes
  findShortSuccessor : Bytes → Bytes

/-- A `char` of the x86_64 build: the byte read as a signed number. -/
def signedChar (byte : UInt8) : Int :=
  if byte.toNat < 128 then byte.toNat else byte.toNat - 256

namespace BytewiseComparator

/-- The scan of `FindShortestSeparator`: the number of positions at which the
signed `char` of `start` equals the unsigned byte of `limit`. -/
def diffIndex : Bytes → Bytes → Nat
  | s :: start, l :: limit =>
    if signedChar s = l.toNat then diffIndex start limit + 1 else 0
  | _, _ => 0

/-- `BytewiseComparatorImpl::FindShortestSeparator`. -/
def findShortestSeparator (start limit : Bytes) : Bytes :=
  let minLength := min start.length limit.length
  let index := diffIndex start limit
  if minLength ≤ index then start
  else
    let diffByte := (start.getD index 0).toNat
    if diffByte < 255 ∧ diffByte + 1 < (limit.getD index 0).toNat then
      start.take index ++ [start.getD index 0 + 1]
    else start

/-- `BytewiseComparatorImpl::FindShortSuccessor`. -/
def findShortSuccessor : Bytes → Bytes
  | [] => []
  | byte :: key => if byte ≠ 255 then [byte + 1] else byte :: findShortSuccessor key

end BytewiseComparator

/-- `BytewiseComparator()`. -/
def bytewiseComparator : Comparator where
  compare := Slice.compare
  findShortestSeparator := BytewiseComparator.findShortestSeparator
  findShortSuccessor := BytewiseComparator.findShortSuccessor

/-- The byte comparison keeps its laws exactly on different strings: a string does not
compare equal to itself. -/
theorem compare_lawful_iff (a b c : Bytes) :
    (Slice.LawfulAt Slice.compare a b c ↔ a ≠ b) ∧
      (Slice.LawfulAt bytewiseComparator.compare a b c ↔ a ≠ b) := by
  have laws : Slice.LawfulAt Slice.compare a b c ↔ a ≠ b := by
    constructor
    · rintro lawful rfl
      exact Slice.compare_ne_zero a a (lawful.zero.mpr ((Slice.equal_iff a a).mpr rfl))
    · exact fun different => Slice.lawfulAt_of_ne different c
  exact ⟨laws, laws⟩

/-- A key compared with itself. -/
theorem compare_self_nonzero :
    Slice.equal [97] [97] = true ∧ Slice.compare [97] [97] = 1 ∧
      bytewiseComparator.compare [97] [97] = 1 ∧
      ¬ Slice.LawfulAt Slice.compare [97] [97] [97] := by
  refine ⟨by decide, by decide, by decide, fun lawful => ?_⟩
  exact absurd (lawful.zero.mpr (by decide)) (by decide)

/-- The shipped comparator is never zero. -/
theorem bytewiseComparator_compare_ne_zero (a b : Bytes) : bytewiseComparator.compare a b ≠ 0 :=
  Slice.compare_ne_zero a b

end LevelDbXy
