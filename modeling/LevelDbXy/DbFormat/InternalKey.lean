import LevelDbXy.DataStructure.Slice

/-!
# Internal keys

`db_format/db_format.{h,cpp}`: an internal key is a user key followed by an
eight-byte tag that packs a sequence number and a value type. This module holds
the comparator on internal keys, the key a lookup seeks, and the two facts the
memtable needs from them: which tag a decoded key carries, and that "negative
comparison" is a strict weak order both for a lawful user comparator and for the
shipped one.
-/

namespace LevelDbXy

open Coding

/-- `enum ValueType`. -/
inductive ValueType where
  | kTypeDeletion
  | kTypeValue
  deriving DecidableEq, Repr

namespace ValueType

/-- The enumerator's value. -/
def toNat : ValueType → Nat
  | .kTypeDeletion => 0
  | .kTypeValue => 1

/-- `static_cast<ValueType>`, for the enumerators that exist. -/
def ofNat? : Nat → Option ValueType
  | 0 => some .kTypeDeletion
  | 1 => some .kTypeValue
  | _ => none

/-- There are two types. -/
theorem toNat_le_one (type : ValueType) : type.toNat ≤ 1 := by
  cases type <;> decide

@[simp] theorem ofNat?_toNat (type : ValueType) : ofNat? type.toNat = some type := by
  cases type <;> rfl

end ValueType

/-- `kMaxSequenceNumber`. -/
def kMaxSequenceNumber : Nat := 1 <<< 56 - 1

/-- `kValueTypeForSeek`. -/
def kValueTypeForSeek : ValueType := .kTypeValue

/-- `PackSequenceAndType`; the shift happens in `uint64_t`. -/
def packSequenceAndType (seq : Nat) (t : ValueType) : Nat :=
  truncU64 (seq <<< 8) ||| t.toNat

/-- `ExtractUserKey`. -/
def extractUserKey (internalKey : Bytes) : Bytes := internalKey.take (internalKey.length - 8)

/-- The last eight bytes of an internal key, decoded. -/
def extractTag (internalKey : Bytes) : Nat :=
  decodeFixed64 (internalKey.drop (internalKey.length - 8))

/-- `ParsedInternalKey`. -/
structure ParsedInternalKey where
  userKey : Bytes
  sequence : Nat
  type : ValueType
  deriving DecidableEq, Repr

/-- `ParseInternalKey`; `none` is a false result. -/
def parseInternalKey (internalKey : Bytes) : Option ParsedInternalKey :=
  if internalKey.length < 8 then none
  else
    let num := extractTag internalKey
    (ValueType.ofNat? (num &&& 0xFF)).map fun type =>
      ⟨extractUserKey internalKey, num >>> 8, type⟩

/-- `InternalKeyComparator::Compare` over a user comparator. -/
def internalCompare (user : Comparator) (aKey bKey : Bytes) : Int :=
  let ret := user.compare (extractUserKey aKey) (extractUserKey bKey)
  if ret = 0 then
    if extractTag aKey > extractTag bKey then -1 else 1
  else ret

/-- `LookupKey`: the bytes between `start_` and `end_`, and those from `kstart_`. -/
structure LookupKey where
  memtableKey : Bytes
  internalKey : Bytes

/-- `LookupKey::LookupKey`. -/
def LookupKey.new (userKey : Bytes) (sequence : Nat) : LookupKey :=
  let kstart := userKey ++ encodeFixed64 (packSequenceAndType sequence kValueTypeForSeek)
  ⟨encodeVarint32 (truncU32 (userKey.length + 8)) ++ kstart, kstart⟩

/-- `LookupKey::user_key`. -/
def LookupKey.userKey (key : LookupKey) : Bytes := key.internalKey.take (key.internalKey.length - 8)

/-! ### Tags -/

/-- Packing is multiplication: the sequence number fills the upper seven bytes. -/
theorem packSequenceAndType_eq {seq : Nat} (t : ValueType) (bounded : seq ≤ kMaxSequenceNumber) :
    packSequenceAndType seq t = seq * 256 + t.toNat := by
  have small := t.toNat_le_one
  have limit : seq < 2 ^ 56 := by
    have : kMaxSequenceNumber = 2 ^ 56 - 1 := by decide
    omega
  have kept : truncU64 (seq <<< 8) = seq <<< 8 := by
    rw [truncU64, Nat.shiftLeft_eq, Nat.mod_eq_of_lt (by omega)]
  rw [packSequenceAndType, kept, ← Nat.shiftLeft_add_eq_or_of_lt (by omega), Nat.shiftLeft_eq]

/-- A tag has 64 bits. -/
theorem packSequenceAndType_lt {seq : Nat} (t : ValueType) (bounded : seq ≤ kMaxSequenceNumber) :
    packSequenceAndType seq t < 2 ^ 64 := by
  have small := t.toNat_le_one
  have : kMaxSequenceNumber = 2 ^ 56 - 1 := by decide
  rw [packSequenceAndType_eq t bounded]
  omega

@[simp] theorem extractUserKey_append (userKey : Bytes) (tag : Nat) :
    extractUserKey (userKey ++ encodeFixed64 tag) = userKey := by
  simp [extractUserKey]

/-- The tag is the last eight bytes. -/
theorem extractTag_append {tag : Nat} (userKey : Bytes) (bounded : tag < 2 ^ 64) :
    extractTag (userKey ++ encodeFixed64 tag) = tag := by
  have decoded := decodeFixed64_encodeFixed64 tag []
  rw [List.append_nil, truncU64, Nat.mod_eq_of_lt bounded] at decoded
  simpa [extractTag] using decoded

/-- Parsing an internal key built from its parts returns the parts. -/
theorem parseInternalKey_append {seq : Nat} (userKey : Bytes) (t : ValueType)
    (bounded : seq ≤ kMaxSequenceNumber) :
    parseInternalKey (userKey ++ encodeFixed64 (packSequenceAndType seq t)) =
      some ⟨userKey, seq, t⟩ := by
  have small := t.toNat_le_one
  have tag : extractTag (userKey ++ encodeFixed64 (packSequenceAndType seq t)) =
      seq * 256 + t.toNat :=
    (extractTag_append userKey (packSequenceAndType_lt t bounded)).trans
      (packSequenceAndType_eq t bounded)
  have low : (seq * 256 + t.toNat) &&& 0xFF = t.toNat := by
    rw [Nat.and_two_pow_sub_one_eq_mod _ 8]
    omega
  have high : (seq * 256 + t.toNat) >>> 8 = seq := by
    rw [Nat.shiftRight_eq_div_pow]
    omega
  rw [parseInternalKey, if_neg (by simp)]
  simp only [tag, low, high, ValueType.ofNat?_toNat, Option.map_some,
    extractUserKey_append]

/-! ### Order -/

/-- Strictly below in the internal order of a lawful user comparator: the user
keys ascend, and the tags of equivalent user keys descend. -/
theorem internalCompare_neg_iff (user : Comparator) (a b : Bytes) :
    internalCompare user a b < 0 ↔
      user.compare (extractUserKey a) (extractUserKey b) < 0 ∨
        user.compare (extractUserKey a) (extractUserKey b) = 0 ∧ extractTag b < extractTag a := by
  unfold internalCompare
  by_cases equal : user.compare (extractUserKey a) (extractUserKey b) = 0
  · by_cases newer : extractTag b < extractTag a <;> simp [equal, newer]
  · simp [equal]

/-- The internal order over a lawful user comparator is a strict weak order. -/
theorem internalCompare_weakOrder {user : Comparator} (lawful : ThreeWay user.compare) :
    WeakOrder (fun a b => internalCompare user a b < 0) := by
  have tags : WeakOrder (fun a b : Bytes => extractTag b < extractTag a) :=
    ⟨fun below => by omega, fun first second => by omega⟩
  have composed := (lawful.weakOrder.comap extractUserKey).lex tags
  refine composed.congr fun a b => ?_
  have tied := lawful.eq_zero_iff (extractUserKey a) (extractUserKey b)
  rw [internalCompare_neg_iff]
  omega

/-- Over the shipped comparator the tags never decide: strictly below means a
smaller user key. -/
theorem internalCompare_bytewise_neg_iff (a b : Bytes) :
    internalCompare bytewiseComparator a b < 0 ↔ extractUserKey a < extractUserKey b := by
  have nonzero := bytewiseComparator_compare_ne_zero (extractUserKey a) (extractUserKey b)
  rw [internalCompare_neg_iff]
  simp only [nonzero, false_and, or_false]
  exact Slice.compare_neg_iff _ _

end LevelDbXy
