import Mathlib.Data.Nat.Bitwise
import Mathlib.Data.UInt

/-!
# Bits packed in bytes

Position `p` of a bit array is bit `p % 8` of byte `p / 8`. A write may address the
array through a buffer that holds other bytes before and after it; reads and writes
outside are `none`. The array is understood as the set of positions whose bit is set
(`HasBit`), and a write adds one position to it.
-/

namespace BitArray

variable {array front back : List UInt8} {position : Nat}

/-- The bit at a position is set. -/
def HasBit (array : List UInt8) (position : Nat) : Prop :=
  ∃ byte, array[position / 8]? = some byte ∧ byte.toNat.testBit (position % 8) = true

/-- Reads a bit by masking its byte. -/
def readBit (array : List UInt8) (position : Nat) : Option Bool :=
  (array[position / 8]?).map fun byte => byte.toNat &&& 1 <<< (position % 8) != 0

/-- Sets a bit of the array that begins at byte `offset` of a buffer. -/
def setBit (buffer : List UInt8) (offset position : Nat) : Option (List UInt8) :=
  (buffer[offset + position / 8]?).map fun byte =>
    buffer.set (offset + position / 8) (byte ||| UInt8.ofNat (1 <<< (position % 8)))

/-- Masking with a power of two tests one bit. -/
theorem and_one_shiftLeft_ne_zero (value bit : Nat) :
    (value &&& 1 <<< bit != 0) = value.testBit bit := by
  rw [Nat.one_shiftLeft, Nat.and_two_pow]
  cases value.testBit bit <;> simp

/-- A bit of a byte that is there. -/
theorem readBit_of_lt (inside : position / 8 < array.length) :
    readBit array position = some ((array.get ⟨position / 8, inside⟩).toNat.testBit
      (position % 8)) := by
  rw [readBit, List.getElem?_eq_getElem inside, Option.map_some, and_one_shiftLeft_ne_zero]
  rfl

/-- A read does not leave the array if the byte of the bit is there. -/
theorem readBit_isSome (inside : position / 8 < array.length) :
    (readBit array position).isSome := by
  rw [readBit_of_lt inside]
  rfl

/-- A bit that is set is read as such. -/
theorem readBit_eq_true (isSet : HasBit array position) : readBit array position = some true := by
  obtain ⟨byte, found, bit⟩ := isSet
  rw [readBit, found, Option.map_some, and_one_shiftLeft_ne_zero, bit]

/-- A bit stays set when more bytes are put behind. -/
theorem HasBit.append (isSet : HasBit array position) : HasBit (array ++ back) position := by
  obtain ⟨byte, found, bit⟩ := isSet
  have inside := (List.getElem?_eq_some_iff.mp found).1
  exact ⟨byte, by rw [List.getElem?_append_left inside, found], bit⟩

/-- The bits of a byte after one of them is set. -/
theorem testBit_or_shiftLeft (byte : UInt8) {bit : Nat} (small : bit < 8) (other : Nat) :
    (byte ||| UInt8.ofNat (1 <<< bit)).toNat.testBit other =
      (byte.toNat.testBit other || decide (bit = other)) := by
  have fits : 1 <<< bit < 256 := by
    rw [Nat.one_shiftLeft]
    exact Nat.pow_lt_pow_right (by decide) small
  rw [UInt8.toNat_or, UInt8.toNat_ofNat', Nat.mod_eq_of_lt fits, Nat.testBit_or,
    Nat.one_shiftLeft, Nat.testBit_two_pow]

/-- A write inside the array changes only the array, keeps every bit that was set and sets
the one it is for. -/
theorem setBit_of_lt (inside : position / 8 < array.length) :
    ∃ after, setBit (front ++ (array ++ back)) front.length position =
        some (front ++ (after ++ back)) ∧
      after.length = array.length ∧ HasBit after position ∧
      ∀ other, HasBit array other → HasBit after other := by
  obtain ⟨byte, found⟩ : ∃ byte, array[position / 8]? = some byte :=
    ⟨_, List.getElem?_eq_getElem inside⟩
  have read : (front ++ (array ++ back))[front.length + position / 8]? = some byte := by
    rw [List.getElem?_append_right (Nat.le_add_right ..), Nat.add_sub_cancel_left,
      List.getElem?_append_left inside, found]
  have small : position % 8 < 8 := Nat.mod_lt _ (by decide)
  refine ⟨array.set (position / 8) (byte ||| UInt8.ofNat (1 <<< (position % 8))), ?_,
    List.length_set, ?_, ?_⟩
  · rw [setBit, read, Option.map_some, List.set_append_right _ _ (Nat.le_add_right ..),
      Nat.add_sub_cancel_left, List.set_append_left _ _ inside]
  · refine ⟨_, List.getElem?_set_self inside, ?_⟩
    rw [testBit_or_shiftLeft byte small]
    simp
  · rintro other ⟨held, foundOther, bit⟩
    by_cases same : position / 8 = other / 8
    · rw [← same, found, Option.some.injEq] at foundOther
      subst foundOther
      refine ⟨_, by rw [← same, List.getElem?_set_self inside], ?_⟩
      rw [testBit_or_shiftLeft byte small, bit]
      rfl
    · exact ⟨held, by rw [List.getElem?_set_ne same, foundOther], bit⟩

end BitArray
