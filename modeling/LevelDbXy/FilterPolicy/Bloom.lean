import LevelDbXy.Util.Coding
import LevelDbXy.Library.BitArray

/-!
# The Bloom filter

`filter_policy/bloom_filter_policy.cpp` over the hash of `util/hash.cpp`. The builder
takes its bit count from the number of keys and the checker takes it from the length
of the filter; both walk the same sequence of positions (`probes`), the builder
setting and the checker reading a bit at each of them.
-/

namespace LevelDbXy

open Coding BitArray

namespace Hash

/-- The multiplier `m` of `Hash`. -/
def multiplier : UInt32 := 0xC6A4A793

/-- The remaining bytes of `Hash`, at most three: each case of the switch falls into the next. -/
def tail (h : UInt32) (rest : Bytes) : UInt32 :=
  let finish (h : UInt32) (byte : UInt8) : UInt32 :=
    let h := (h + byte.toUInt32) * multiplier
    h ^^^ (h >>> 24)
  match rest with
  | [a, b, c] => finish (h + (c.toUInt32 <<< 16) + (b.toUInt32 <<< 8)) a
  | [a, b] => finish (h + (b.toUInt32 <<< 8)) a
  | [a] => finish h a
  | _ => h

/-- The loop of `Hash` that picks up four bytes at a time. -/
def words (h : UInt32) : Bytes → UInt32
  | a :: b :: c :: d :: data =>
    let h := (h + UInt32.ofNat (decodeFixed32 [a, b, c, d])) * multiplier
    words (h ^^^ (h >>> 16)) data
  | rest => tail h rest

end Hash

/-- `ns_util::Hash`. -/
def hash (data : Bytes) (seed : UInt32) : UInt32 :=
  Hash.words (seed ^^^ UInt32.ofNat (data.length * Hash.multiplier.toNat)) data

/-- `BloomHash`. -/
def bloomHash (key : Bytes) : UInt32 := hash key 0xbc9f1d34

/-- The step between two probes: the hash rotated right by 17 bits. -/
def bloomDelta (h : UInt32) : UInt32 := (h >>> 17) ||| (h <<< 15)

/-- `BloomFilterPolicy`. The constructor takes an `int32_t` that is not negative and clamps
the number of probes. -/
structure BloomFilterPolicy where
  bitsPerKey : Nat
  k : Nat
  bounded : bitsPerKey < 2 ^ 31
  atLeastOne : 1 ≤ k
  atMostThirty : k ≤ 30

namespace BloomFilterPolicy

/-- The constructor. The number of probes before clamping is a product of floating-point
numbers, taken as a parameter. -/
def new (bitsPerKey : Nat) (bounded : bitsPerKey < 2 ^ 31) (rounded : Nat) : BloomFilterPolicy where
  bitsPerKey := bitsPerKey
  k :=
    let k := if rounded < 1 then 1 else rounded
    if 30 < k then 30 else k
  bounded := bounded
  atLeastOne := by dsimp only; split_ifs <;> omega
  atMostThirty := by dsimp only; split_ifs <;> omega

/-- The inner loop of `CreateFilter`. -/
def setProbes (initSize bits : Nat) (delta : UInt32) : Nat → UInt32 → Bytes → Option Bytes
  | 0, _, dst => some dst
  | j + 1, h, dst =>
    let bitpos := h.toNat % bits
    (setBit dst initSize bitpos).bind (setProbes initSize bits delta j (h + delta))

/-- The outer loop of `CreateFilter`. -/
def addKeys (policy : BloomFilterPolicy) (initSize bits : Nat) : List Bytes → Bytes → Option Bytes
  | [], dst => some dst
  | key :: keys, dst =>
    let h := bloomHash key
    (setProbes initSize bits (bloomDelta h) policy.k h dst).bind
      (addKeys policy initSize bits keys)

/-- The length of the bit array in bytes. -/
def filterBytes (policy : BloomFilterPolicy) (n : Nat) : Nat :=
  let bits := truncU64 (n * policy.bitsPerKey)
  let bits := if bits < 64 then 64 else bits
  truncU64 (bits + 7) / 8

/-- `BloomFilterPolicy::CreateFilter`: the bytes of `dst` afterwards; `none` is a write
outside them. -/
def createFilter (policy : BloomFilterPolicy) (keys : List Bytes) (dst : Bytes) : Option Bytes :=
  let bytes := policy.filterBytes keys.length
  let bits := truncU64 (bytes * 8)
  let initSize := dst.length
  let dst := dst ++ List.replicate bytes 0
  let dst := dst ++ [UInt8.ofNat policy.k]
  policy.addKeys initSize bits keys dst

/-- The loop of `KeyMayMatch`. -/
def checkProbes (bits : Nat) (delta : UInt32) (array : Bytes) : Nat → UInt32 → Option Bool
  | 0, _ => some true
  | j + 1, h =>
    let bitpos := h.toNat % bits
    (readBit array bitpos).bind fun isSet =>
      if isSet then checkProbes bits delta array j (h + delta) else some false

/-- `BloomFilterPolicy::KeyMayMatch`, which reads nothing of the policy itself; `none` is a
read outside the filter. -/
def keyMayMatch (_policy : BloomFilterPolicy) (key filter : Bytes) : Option Bool :=
  let len := filter.length
  if len < 2 then some false
  else
    let bits := truncU64 ((len - 1) * 8)
    (filter[len - 1]?).bind fun k =>
      if 30 < k.toNat then some true
      else
        let h := bloomHash key
        checkProbes bits (bloomDelta h) filter k.toNat h

/-! ### The probe sequence -/

/-- The positions that `count` probes visit. -/
def probes (bits : Nat) (delta : UInt32) : Nat → UInt32 → List Nat
  | 0, _ => []
  | j + 1, h => h.toNat % bits :: probes bits delta j (h + delta)

/-- The checker answers true when every position it visits is set. -/
theorem checkProbes_eq_true {bits : Nat} {delta : UInt32} {array : Bytes} (count : Nat) (h : UInt32)
    (allSet : ∀ position ∈ probes bits delta count h, HasBit array position) :
    checkProbes bits delta array count h = some true := by
  induction count generalizing h with
  | zero => rfl
  | succ count inductionHypothesis =>
    have first := readBit_eq_true (allSet _ (List.mem_cons_self ..))
    rw [checkProbes, first]
    exact inductionHypothesis (h + delta) fun position member =>
      allSet position (List.mem_cons_of_mem _ member)

/-- The checker stays inside an array that has the bytes of all positions. -/
theorem checkProbes_isSome {bits : Nat} {array : Bytes} (delta : UInt32) (count : Nat) (h : UInt32)
    (inside : ∀ value : UInt32, value.toNat % bits / 8 < array.length) :
    (checkProbes bits delta array count h).isSome := by
  induction count generalizing h with
  | zero => rfl
  | succ count inductionHypothesis =>
    obtain ⟨isSet, read⟩ := Option.isSome_iff_exists.mp (readBit_isSome (inside h))
    rw [checkProbes, read, Option.bind_some]
    split
    · exact inductionHypothesis (h + delta)
    · rfl

/-- The builder sets every position it visits and clears none. -/
theorem setProbes_spec {bits : Nat} {array : Bytes} (front back : Bytes) (delta : UInt32)
    (count : Nat) (h : UInt32) (sized : bits = array.length * 8) (positive : 0 < bits) :
    ∃ after, setProbes front.length bits delta count h (front ++ (array ++ back)) =
        some (front ++ (after ++ back)) ∧ after.length = array.length ∧
      (∀ position ∈ probes bits delta count h, HasBit after position) ∧
      ∀ position, HasBit array position → HasBit after position := by
  induction count generalizing h array with
  | zero => exact ⟨array, rfl, rfl, by simp [probes], fun _ isSet => isSet⟩
  | succ count inductionHypothesis =>
    have below : h.toNat % bits < bits := Nat.mod_lt _ positive
    have inside : h.toNat % bits / 8 < array.length := by omega
    obtain ⟨middle, written, sameLength, isSet, kept⟩ :=
      @setBit_of_lt array front back (h.toNat % bits) inside
    obtain ⟨after, rest, afterLength, others, keptAfter⟩ :=
      @inductionHypothesis middle (h + delta) (by omega)
    refine ⟨after, ?_, by omega, ?_, fun position held => keptAfter _ (kept _ held)⟩
    · rw [setProbes, written, Option.bind_some, rest]
    · intro position member
      rcases List.mem_cons.mp member with rfl | later
      · exact keptAfter _ isSet
      · exact others position later

/-- All positions of a key are set in an array. -/
def Covers (policy : BloomFilterPolicy) (array : Bytes) (key : Bytes) : Prop :=
  ∀ position ∈ probes (array.length * 8) (bloomDelta (bloomHash key)) policy.k (bloomHash key),
    HasBit array position

/-- The outer loop covers every key and keeps those covered before. -/
theorem addKeys_spec (policy : BloomFilterPolicy) {bits : Nat} {array : Bytes} (front back : Bytes)
    (keys : List Bytes) (sized : bits = array.length * 8) (positive : 0 < bits) :
    ∃ after, policy.addKeys front.length bits keys (front ++ (array ++ back)) =
        some (front ++ (after ++ back)) ∧ after.length = array.length ∧
      (∀ key ∈ keys, policy.Covers after key) ∧
      ∀ position, HasBit array position → HasBit after position := by
  induction keys generalizing array with
  | nil => exact ⟨array, rfl, rfl, by simp, fun _ isSet => isSet⟩
  | cons key keys inductionHypothesis =>
    obtain ⟨middle, written, sameLength, covered, kept⟩ := setProbes_spec front back
      (bloomDelta (bloomHash key)) policy.k (bloomHash key) sized positive
    obtain ⟨after, rest, afterLength, others, keptAfter⟩ :=
      @inductionHypothesis middle (by omega)
    refine ⟨after, ?_, by omega, ?_, fun position held => keptAfter _ (kept _ held)⟩
    · rw [addKeys, written, Option.bind_some, rest]
    · intro other member
      rcases List.mem_cons.mp member with rfl | later
      · intro position visited
        rw [afterLength, sameLength, ← sized] at visited
        exact keptAfter _ (covered position visited)
      · exact others other later

/-! ### Filters -/

/-- For fewer than 2^31 keys the bit count does not wrap and there are at least eight bytes. -/
theorem filterBytes_bounds (policy : BloomFilterPolicy) {n : Nat} (few : n < 2 ^ 31) :
    8 ≤ policy.filterBytes n ∧ policy.filterBytes n * 8 < 2 ^ 64 := by
  have small : n * policy.bitsPerKey < 2 ^ 62 :=
    calc n * policy.bitsPerKey ≤ 2 ^ 31 * policy.bitsPerKey := Nat.mul_le_mul_right _ few.le
      _ < 2 ^ 31 * 2 ^ 31 := Nat.mul_lt_mul_of_pos_left policy.bounded (by decide)
  have unwrapped : truncU64 (n * policy.bitsPerKey) = n * policy.bitsPerKey :=
    Nat.mod_eq_of_lt (by omega)
  obtain ⟨bits, bitsEq⟩ : ∃ bits, bits =
      if n * policy.bitsPerKey < 64 then 64 else n * policy.bitsPerKey := ⟨_, rfl⟩
  have clamped : 64 ≤ bits ∧ bits < 2 ^ 62 := by
    rw [bitsEq]
    split_ifs <;> omega
  have bytes : policy.filterBytes n = truncU64 (bits + 7) / 8 := by
    simp only [filterBytes, unwrapped, bitsEq]
  rw [bytes, truncU64]
  omega

/-- A filter of some bit array and its probe count answers true on a key the array covers. -/
theorem keyMayMatch_of_covers {policy : BloomFilterPolicy} {array key : Bytes}
    (reader : BloomFilterPolicy) (nonempty : 1 ≤ array.length) (fits : array.length * 8 < 2 ^ 64)
    (covered : policy.Covers array key) :
    reader.keyMayMatch key (array ++ [UInt8.ofNat policy.k]) = some true := by
  have few := policy.atMostThirty
  have length : (array ++ [UInt8.ofNat policy.k]).length = array.length + 1 := by simp
  have read : (array ++ [UInt8.ofNat policy.k])[array.length]? = some (UInt8.ofNat policy.k) :=
    List.getElem?_concat_length
  have count : (UInt8.ofNat policy.k).toNat = policy.k := by
    rw [UInt8.toNat_ofNat']
    exact Nat.mod_eq_of_lt (by omega)
  rw [keyMayMatch, length, if_neg (by omega), Nat.add_sub_cancel, read, Option.bind_some, count,
    if_neg (by omega), truncU64, Nat.mod_eq_of_lt fits]
  exact checkProbes_eq_true _ _ fun position visited => (covered position visited).append

/-- No filter, well formed or not, makes the checker read outside it. -/
theorem keyMayMatch_isSome (policy : BloomFilterPolicy) (key filter : Bytes) :
    (policy.keyMayMatch key filter).isSome := by
  rw [keyMayMatch]
  split_ifs with short
  · rfl
  · have inside : filter.length - 1 < filter.length := by omega
    rw [List.getElem?_eq_getElem inside, Option.bind_some]
    split_ifs with reserved
    · rfl
    · refine checkProbes_isSome _ _ _ fun value => ?_
      -- Lengths whose bit count wraps are covered too: the count only gets smaller, and with
      -- a count of zero the position is a 32-bit number below such a length.
      have bounded := value.toNat_lt
      rcases Nat.eq_zero_or_pos (truncU64 ((filter.length - 1) * 8)) with wrapped | positive
      · rw [wrapped, Nat.mod_zero]
        rw [truncU64] at wrapped
        omega
      · have below := Nat.mod_lt value.toNat positive
        have smaller : truncU64 ((filter.length - 1) * 8) ≤ (filter.length - 1) * 8 :=
          Nat.mod_le ..
        omega

/-- `CreateFilter` appends to `dst` a filter on which every reader answers true for each of its
keys, and no reader reads outside any filter. -/
theorem createFilter_no_false_negatives (policy : BloomFilterPolicy) (keys : List Bytes)
    (dst : Bytes) (few : keys.length < 2 ^ 31) :
    (∃ filter, policy.createFilter keys dst = some (dst ++ filter) ∧
      ∀ key ∈ keys, ∀ reader : BloomFilterPolicy, reader.keyMayMatch key filter = some true) ∧
    ∀ (reader : BloomFilterPolicy) (key filter : Bytes),
      (reader.keyMayMatch key filter).isSome := by
  refine ⟨?_, keyMayMatch_isSome⟩
  obtain ⟨enough, fits⟩ := policy.filterBytes_bounds few
  have zeros : (List.replicate (policy.filterBytes keys.length) (0 : UInt8)).length =
      policy.filterBytes keys.length := List.length_replicate
  obtain ⟨array, built, sameLength, covered, -⟩ := @addKeys_spec policy
    (policy.filterBytes keys.length * 8) (List.replicate (policy.filterBytes keys.length) 0)
    dst [UInt8.ofNat policy.k] keys (by rw [zeros]) (by omega)
  refine ⟨array ++ [UInt8.ofNat policy.k], ?_, fun key member reader => ?_⟩
  · simp only [createFilter, truncU64, Nat.mod_eq_of_lt fits, List.append_assoc]
    exact built
  · exact keyMayMatch_of_covers reader (by omega) (by omega) (covered key member)

/-- Ten bits a key and six probes, two keys after an earlier byte, read with other parameters. -/
theorem createFilter_no_false_negatives_two_keys :
    ∃ filter, (new 10 (by decide) 6).createFilter [[97], [98, 99]] [7] = some ([7] ++ filter) ∧
      (new 1 (by decide) 0).keyMayMatch [98, 99] filter = some true := by
  obtain ⟨⟨filter, built, matched⟩, -⟩ := createFilter_no_false_negatives (new 10 (by decide) 6)
    [[97], [98, 99]] [7] (by decide)
  exact ⟨filter, built, matched [98, 99] (by decide) (new 1 (by decide) 0)⟩

end BloomFilterPolicy

end LevelDbXy
