import Mathlib.Data.Nat.Bitwise
import Mathlib.Tactic.Ring

/-!
# Varint and fixed-width coding

`util/coding.cpp` writes unsigned integers either as little-endian fixed-width
fields or as base-128 varints. Machine integers are natural numbers here; a
conversion to a narrower type is an explicit `%`. A pointer is the byte string
that starts at it, so advancing a pointer drops a prefix.
-/

namespace LevelDbXy

/-- The contents of a `Slice`, a `std::string` or the memory behind a pointer. -/
abbrev Bytes := List UInt8

/-- Conversion to `uint32_t`. -/
def truncU32 (value : Nat) : Nat := value % 2 ^ 32

/-- Conversion to `uint64_t`. -/
def truncU64 (value : Nat) : Nat := value % 2 ^ 64

/-- Conversion to `int32_t`. -/
def truncI32 (value : Int) : Int := value.bmod (2 ^ 32)

namespace Coding

/-- The byte kept by a store through a `uint8_t *`. -/
def lowByte (value : Nat) : UInt8 := UInt8.ofNat value

/-- The bytes `EncodeVarint32` stores for a 32-bit `value`, branch by branch. -/
def encodeVarint32 (value : Nat) : Bytes :=
  if value < 1 <<< 7 then
    [lowByte value]
  else if value < 1 <<< 14 then
    [lowByte (value ||| 128), lowByte (value >>> 7)]
  else if value < 1 <<< 21 then
    [lowByte (value ||| 128), lowByte (value >>> 7 ||| 128), lowByte (value >>> 14)]
  else if value < 1 <<< 28 then
    [lowByte (value ||| 128), lowByte (value >>> 7 ||| 128), lowByte (value >>> 14 ||| 128),
      lowByte (value >>> 21)]
  else
    [lowByte (value ||| 128), lowByte (value >>> 7 ||| 128), lowByte (value >>> 14 ||| 128),
      lowByte (value >>> 21 ||| 128), lowByte (value >>> 28)]

/-- `PutVarint32`; its parameter is a `uint32_t`, so a 64-bit size is truncated. -/
def putVarint32 (dst : Bytes) (value : Nat) : Bytes :=
  dst ++ encodeVarint32 (truncU32 value)

/-- `PutLengthPrefixedSlice`. -/
def putLengthPrefixedSlice (dst value : Bytes) : Bytes :=
  putVarint32 dst value.length ++ value

/-- The loop of `GetVarint32Ptr`. `limit` counts the bytes before the limit
pointer; running off the modelled memory is a failure as well. -/
def getVarint32PtrLoop (shift result limit : Nat) : Bytes → Option (Nat × Bytes)
  | [] => none
  | byte :: p =>
    if shift ≤ 28 ∧ 0 < limit then
      if byte.toNat &&& 128 ≠ 0 then
        getVarint32PtrLoop (shift + 7)
          (result ||| truncU32 ((byte.toNat &&& 127) <<< shift)) (limit - 1) p
      else
        some (result ||| truncU32 (byte.toNat <<< shift), p)
    else none

/-- `GetVarint32Ptr(p, p + limit, value)`: the value and the advanced pointer. -/
def getVarint32Ptr (p : Bytes) (limit : Nat) : Option (Nat × Bytes) :=
  getVarint32PtrLoop 0 0 limit p

/-- `GetVarint32`: the decoded value and the rest of the slice. -/
def getVarint32 (input : Bytes) : Option (Nat × Bytes) :=
  getVarint32Ptr input input.length

/-- `GetLengthPrefixedSlice`: the string and the rest of the slice. On failure
no caller looks at the slice again. -/
def getLengthPrefixedSlice (input : Bytes) : Option (Bytes × Bytes) :=
  match getVarint32 input with
  | some (len, rest) =>
    if len ≤ rest.length then some (rest.take len, rest.drop len) else none
  | none => none

/-- `VarintLength` of a 64-bit value. -/
def varintLength (value : Nat) : Nat :=
  if 128 ≤ value then varintLength (value >>> 7) + 1 else 1
termination_by value
decreasing_by
  rw [Nat.shiftRight_eq_div_pow]
  omega

/-- `EncodeFixed32`. -/
def encodeFixed32 (value : Nat) : Bytes :=
  [lowByte value, lowByte (value >>> 8), lowByte (value >>> 16), lowByte (value >>> 24)]

/-- `EncodeFixed64`. -/
def encodeFixed64 (value : Nat) : Bytes :=
  [lowByte value, lowByte (value >>> 8), lowByte (value >>> 16), lowByte (value >>> 24),
    lowByte (value >>> 32), lowByte (value >>> 40), lowByte (value >>> 48),
    lowByte (value >>> 56)]

/-- `ptr[index]` widened to an unsigned integer. -/
def byteAt (ptr : Bytes) (index : Nat) : Nat := (ptr.getD index 0).toNat

/-- `DecodeFixed32`. -/
def decodeFixed32 (ptr : Bytes) : Nat :=
  byteAt ptr 0 ||| byteAt ptr 1 <<< 8 ||| byteAt ptr 2 <<< 16 ||| byteAt ptr 3 <<< 24

/-- `DecodeFixed64`. -/
def decodeFixed64 (ptr : Bytes) : Nat :=
  byteAt ptr 0 ||| byteAt ptr 1 <<< 8 ||| byteAt ptr 2 <<< 16 ||| byteAt ptr 3 <<< 24 |||
    byteAt ptr 4 <<< 32 ||| byteAt ptr 5 <<< 40 ||| byteAt ptr 6 <<< 48 ||| byteAt ptr 7 <<< 56

/-- Setting bits above an occupied low part is addition. -/
theorem or_shiftLeft_eq_add (shift : Nat) {low : Nat} (high : Nat) (bounded : low < 2 ^ shift) :
    low ||| high <<< shift = low + high * 2 ^ shift := by
  rw [Nat.or_comm, ← Nat.shiftLeft_add_eq_or_of_lt bounded, Nat.shiftLeft_eq, Nat.add_comm]

@[simp] theorem toNat_lowByte (value : Nat) : (lowByte value).toNat = value % 256 := by
  simp [lowByte]

/-- A byte stored with the continuation bit keeps its seven payload bits. -/
theorem or_128_mod_256 (value : Nat) : (value ||| 128) % 256 = value % 128 + 128 := by
  have split : (value ||| 128) % 2 ^ 8 = value % 2 ^ 8 ||| 128 := by
    rw [Nat.or_mod_two_pow]
  have small : ∀ low < 256, low ||| 128 = low % 128 + 128 := by decide +kernel
  have step := small (value % 2 ^ 8) (Nat.mod_lt _ (by decide))
  omega

/-- The continuation bit of a byte is its size. -/
theorem and_128_ne_zero_iff (byte : UInt8) : byte.toNat &&& 128 ≠ 0 ↔ 128 ≤ byte.toNat := by
  have small : ∀ low < 256, (low &&& 128 ≠ 0 ↔ 128 ≤ low) := by decide +kernel
  exact small byte.toNat byte.toNat_lt

/-- The low seven bits. -/
theorem and_127_eq_mod (value : Nat) : value &&& 127 = value % 128 :=
  Nat.and_two_pow_sub_one_eq_mod value 7

/-! ### Varint round trip -/

/-- One continuation byte of the decoding loop, in arithmetic. -/
theorem getVarint32PtrLoop_continue {shift result limit : Nat} {byte : UInt8} (p : Bytes)
    (continued : 128 ≤ byte.toNat) (shiftBound : shift ≤ 28) (inLimit : 0 < limit)
    (resultBound : result < 2 ^ shift) (fits : byte.toNat % 128 * 2 ^ shift < 2 ^ 32) :
    getVarint32PtrLoop shift result limit (byte :: p) =
      getVarint32PtrLoop (shift + 7) (result + byte.toNat % 128 * 2 ^ shift) (limit - 1) p := by
  have bit := (and_128_ne_zero_iff byte).mpr continued
  have kept : truncU32 ((byte.toNat % 128) <<< shift) = (byte.toNat % 128) <<< shift := by
    rw [truncU32, Nat.shiftLeft_eq, Nat.mod_eq_of_lt fits]
  rw [getVarint32PtrLoop, if_pos ⟨shiftBound, inLimit⟩, if_pos bit, and_127_eq_mod, kept,
    or_shiftLeft_eq_add _ _ resultBound]

/-- The final byte of the decoding loop, in arithmetic. -/
theorem getVarint32PtrLoop_stop {shift result limit : Nat} {byte : UInt8} (p : Bytes)
    (last : byte.toNat < 128) (shiftBound : shift ≤ 28) (inLimit : 0 < limit)
    (resultBound : result < 2 ^ shift) (fits : byte.toNat * 2 ^ shift < 2 ^ 32) :
    getVarint32PtrLoop shift result limit (byte :: p) =
      some (result + byte.toNat * 2 ^ shift, p) := by
  have bit : ¬ byte.toNat &&& 128 ≠ 0 := by
    rw [and_128_ne_zero_iff]
    omega
  have kept : truncU32 (byte.toNat <<< shift) = byte.toNat <<< shift := by
    rw [truncU32, Nat.shiftLeft_eq, Nat.mod_eq_of_lt fits]
  rw [getVarint32PtrLoop, if_pos ⟨shiftBound, inLimit⟩, if_neg bit, kept,
    or_shiftLeft_eq_add _ _ resultBound]

/-- A small value is one byte. -/
theorem encodeVarint32_of_lt {value : Nat} (small : value < 128) :
    encodeVarint32 value = [lowByte value] := by
  rw [encodeVarint32, if_pos (by simpa using small)]

/-- Every longer branch of the encoder emits one continuation byte and goes on
with the value shifted down. -/
theorem encodeVarint32_of_le {value : Nat} (large : 128 ≤ value) (bounded : value < 2 ^ 35) :
    encodeVarint32 value = lowByte (value ||| 128) :: encodeVarint32 (value >>> 7) := by
  have shifted : value >>> 7 = value / 128 := Nat.shiftRight_eq_div_pow value 7
  have again (k : Nat) : value >>> 7 >>> k = value >>> (7 + k) :=
    (Nat.shiftRight_add value 7 k).symm
  simp only [encodeVarint32, Nat.shiftLeft_eq, Nat.one_mul, again]
  split_ifs <;> first | rfl | omega

/-- A varint has from one to five bytes. -/
theorem length_encodeVarint32_bounds (value : Nat) :
    1 ≤ (encodeVarint32 value).length ∧ (encodeVarint32 value).length ≤ 5 := by
  unfold encodeVarint32
  split_ifs <;> simp

/-- `VarintLength` is the number of bytes `EncodeVarint32` stores. -/
theorem varintLength_eq {value : Nat} (bounded : value < 2 ^ 35) :
    varintLength value = (encodeVarint32 value).length := by
  induction value using Nat.strongRecOn with
  | ind value inductionHypothesis =>
    rw [varintLength]
    split_ifs with large
    · have shifted : value >>> 7 = value / 128 := Nat.shiftRight_eq_div_pow value 7
      rw [encodeVarint32_of_le large bounded, List.length_cons,
        inductionHypothesis (value >>> 7) (by omega) (by omega)]
    · rw [encodeVarint32_of_lt (by omega)]
      rfl

/-- The decoding loop adds an encoded value above the bits it already has. -/
theorem getVarint32PtrLoop_encodeVarint32 (value : Nat) :
    ∀ {group result limit : Nat} (rest : Bytes), group ≤ 4 → result < 2 ^ (7 * group) →
      value * 2 ^ (7 * group) < 2 ^ 32 → (encodeVarint32 value).length ≤ limit →
      getVarint32PtrLoop (7 * group) result limit (encodeVarint32 value ++ rest) =
        some (result + value * 2 ^ (7 * group), rest) := by
  induction value using Nat.strongRecOn with
  | ind value inductionHypothesis =>
    intro group result limit rest groupBound resultBound fits inLimit
    have scale : 2 ^ (7 * (group + 1)) = 128 * 2 ^ (7 * group) := by
      rw [Nat.mul_add, Nat.pow_add]
      ring
    have positive : 0 < 2 ^ (7 * group) := Nat.two_pow_pos _
    by_cases large : 128 ≤ value
    · have shifted : value >>> 7 = value / 128 := Nat.shiftRight_eq_div_pow value 7
      have division : value / 128 * 2 ^ (7 * (group + 1)) + value % 128 * 2 ^ (7 * group) =
          value * 2 ^ (7 * group) := by
        calc
          value / 128 * 2 ^ (7 * (group + 1)) + value % 128 * 2 ^ (7 * group) =
              (128 * (value / 128) + value % 128) * 2 ^ (7 * group) := by
            rw [scale]
            ring
          _ = value * 2 ^ (7 * group) := by rw [Nat.div_add_mod]
      have bounded : value < 2 ^ 32 := lt_of_le_of_lt (Nat.le_mul_of_pos_right _ positive) fits
      have moreGroups : group + 1 ≤ 4 := by
        by_contra tooMany
        have last : group = 4 := by omega
        subst last
        omega
      rw [encodeVarint32_of_le large (by omega)] at inLimit ⊢
      have payload : (lowByte (value ||| 128)).toNat = value % 128 + 128 := by
        rw [toNat_lowByte, or_128_mod_256]
      have low : (value % 128 + 128) % 128 = value % 128 := by omega
      have lowBound : value % 128 * 2 ^ (7 * group) ≤ 127 * 2 ^ (7 * group) :=
        Nat.mul_le_mul_right _ (by omega)
      rw [List.length_cons] at inLimit
      rw [List.cons_append, getVarint32PtrLoop_continue _ (by omega) (by omega) (by omega)
        resultBound (by rw [payload, low]; omega), payload, low, ← Nat.mul_succ,
        inductionHypothesis (value >>> 7) (by omega) rest moreGroups (by omega)
          (by rw [shifted]; omega) (by omega), shifted]
      simp only [Option.some.injEq, Prod.mk.injEq, and_true]
      omega
    · have small : value < 128 := by omega
      rw [encodeVarint32_of_lt small] at inLimit ⊢
      have payload : (lowByte value).toNat = value := by
        rw [toNat_lowByte]
        omega
      rw [List.cons_append, getVarint32PtrLoop_stop _ (by omega) (by omega)
        inLimit resultBound (by rw [payload]; exact fits), payload]
      rfl

/-- Decoding an encoded 32-bit value returns it and leaves what follows. -/
theorem getVarint32Ptr_encodeVarint32 {value limit : Nat} (rest : Bytes)
    (bounded : value < 2 ^ 32) (inLimit : (encodeVarint32 value).length ≤ limit) :
    getVarint32Ptr (encodeVarint32 value ++ rest) limit = some (value, rest) := by
  have decoded := @getVarint32PtrLoop_encodeVarint32 value 0 0 limit rest
    (by omega) (by omega) (by omega) inLimit
  simpa [getVarint32Ptr] using decoded

/-- What a successful varint decode did: it consumed a non-empty prefix. -/
theorem getVarint32PtrLoop_consumes {shift result limit value : Nat} {p rest : Bytes}
    (decoded : getVarint32PtrLoop shift result limit p = some (value, rest)) :
    ∃ used, used ≠ [] ∧ p = used ++ rest := by
  induction p generalizing shift result limit with
  | nil => simp [getVarint32PtrLoop] at decoded
  | cons byte p inductionHypothesis =>
    rw [getVarint32PtrLoop] at decoded
    split_ifs at decoded with inRange continued
    · obtain ⟨used, -, split⟩ := inductionHypothesis decoded
      exact ⟨byte :: used, by simp, by simp [split]⟩
    · cases decoded
      exact ⟨[byte], by simp, rfl⟩

/-! ### Length-prefixed strings -/

/-- Reading back one length-prefixed string leaves exactly what follows it. -/
theorem getLengthPrefixedSlice_put {value : Bytes} (rest : Bytes)
    (bounded : value.length < 2 ^ 32) :
    getLengthPrefixedSlice (putLengthPrefixedSlice [] value ++ rest) = some (value, rest) := by
  have kept : truncU32 value.length = value.length := Nat.mod_eq_of_lt bounded
  have decoded : getVarint32 (encodeVarint32 value.length ++ (value ++ rest)) =
      some (value.length, value ++ rest) :=
    getVarint32Ptr_encodeVarint32 (value ++ rest) bounded (by simp)
  simp [getLengthPrefixedSlice, putLengthPrefixedSlice, putVarint32, kept, decoded]

/-- A successful read splits its input into a non-empty prefix and the rest. -/
theorem getLengthPrefixedSlice_length {input value rest : Bytes}
    (decoded : getLengthPrefixedSlice input = some (value, rest)) :
    rest.length < input.length := by
  unfold getLengthPrefixedSlice at decoded
  split at decoded
  · next len tail varint =>
    split_ifs at decoded with enough
    cases decoded
    obtain ⟨used, nonempty, rfl⟩ := getVarint32PtrLoop_consumes varint
    have usedLength := List.length_pos_iff.mpr nonempty
    simp only [List.length_drop, List.length_append]
    omega
  · cases decoded

/-! ### Fixed-width fields -/

@[simp] theorem length_encodeFixed32 (value : Nat) : (encodeFixed32 value).length = 4 := rfl

@[simp] theorem length_encodeFixed64 (value : Nat) : (encodeFixed64 value).length = 8 := rfl

/-- A byte is below 256. -/
theorem byteAt_lt (ptr : Bytes) (index : Nat) : byteAt ptr index < 256 :=
  (ptr.getD index 0).toNat_lt

/-- `DecodeFixed32` as a sum of weighted bytes. -/
theorem decodeFixed32_eq_sum (ptr : Bytes) :
    decodeFixed32 ptr = byteAt ptr 0 + byteAt ptr 1 * 2 ^ 8 + byteAt ptr 2 * 2 ^ 16 +
      byteAt ptr 3 * 2 ^ 24 := by
  have h0 := byteAt_lt ptr 0
  have h1 := byteAt_lt ptr 1
  have h2 := byteAt_lt ptr 2
  rw [decodeFixed32, or_shiftLeft_eq_add 8, or_shiftLeft_eq_add 16, or_shiftLeft_eq_add 24] <;>
    omega

/-- `DecodeFixed64` as a sum of weighted bytes. -/
theorem decodeFixed64_eq_sum (ptr : Bytes) :
    decodeFixed64 ptr = byteAt ptr 0 + byteAt ptr 1 * 2 ^ 8 + byteAt ptr 2 * 2 ^ 16 +
      byteAt ptr 3 * 2 ^ 24 + byteAt ptr 4 * 2 ^ 32 + byteAt ptr 5 * 2 ^ 40 +
      byteAt ptr 6 * 2 ^ 48 + byteAt ptr 7 * 2 ^ 56 := by
  have h0 := byteAt_lt ptr 0
  have h1 := byteAt_lt ptr 1
  have h2 := byteAt_lt ptr 2
  have h3 := byteAt_lt ptr 3
  have h4 := byteAt_lt ptr 4
  have h5 := byteAt_lt ptr 5
  have h6 := byteAt_lt ptr 6
  rw [decodeFixed64, or_shiftLeft_eq_add 8, or_shiftLeft_eq_add 16, or_shiftLeft_eq_add 24,
    or_shiftLeft_eq_add 32, or_shiftLeft_eq_add 40, or_shiftLeft_eq_add 48,
    or_shiftLeft_eq_add 56] <;> omega

/-- Reading back a fixed 32-bit field. -/
@[simp] theorem decodeFixed32_encodeFixed32 (value : Nat) (rest : Bytes) :
    decodeFixed32 (encodeFixed32 value ++ rest) = truncU32 value := by
  rw [decodeFixed32_eq_sum]
  simp only [encodeFixed32, byteAt, List.cons_append, List.getD_cons_zero, List.getD_cons_succ,
    toNat_lowByte, Nat.shiftRight_eq_div_pow, truncU32]
  omega

/-- Reading back a fixed 64-bit field. -/
@[simp] theorem decodeFixed64_encodeFixed64 (value : Nat) (rest : Bytes) :
    decodeFixed64 (encodeFixed64 value ++ rest) = truncU64 value := by
  rw [decodeFixed64_eq_sum]
  simp only [encodeFixed64, byteAt, List.cons_append, List.getD_cons_zero, List.getD_cons_succ,
    toNat_lowByte, Nat.shiftRight_eq_div_pow, truncU64]
  omega

/-- Eight bytes are a number of 64 bits. -/
theorem decodeFixed64_lt (ptr : Bytes) : decodeFixed64 ptr < 2 ^ 64 := by
  have h0 := byteAt_lt ptr 0
  have h1 := byteAt_lt ptr 1
  have h2 := byteAt_lt ptr 2
  have h3 := byteAt_lt ptr 3
  have h4 := byteAt_lt ptr 4
  have h5 := byteAt_lt ptr 5
  have h6 := byteAt_lt ptr 6
  have h7 := byteAt_lt ptr 7
  rw [decodeFixed64_eq_sum]
  omega

end Coding

end LevelDbXy
