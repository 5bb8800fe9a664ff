import LevelDbXy.DataStructure.MemTable
import Mathlib.Data.List.Pairwise

/-!
# Reading from a memtable

A read at a snapshot sees the added version of its key with the largest sequence
number not above the snapshot. The abstract notion is `Visible`/`Latest` on the
list of `Add` calls; `Get` is connected to it through the entry encoding, the order
of the encoded entries and the skip-list search.
-/

namespace LevelDbXy

open Coding

namespace MemTable

/-! ### What the table holds -/

/-- The keys of the table after adding entries in order. -/
def insertEntries (compare : Bytes → Bytes → Int) (keys : List Bytes) (calls : List AddCall) :
    List Bytes :=
  calls.foldl (fun keys call =>
    keys.orderedInsert (WeakOrder.Before (SkipList.Lt compare)) call.entry) keys

/-- Every `Add` succeeds, and the table holds the entries put in one by one. -/
theorem addAll_holds {mem : MemTable} {keys : List Bytes} (calls : List (AddCall × Nat))
    (order : WeakOrder (SkipList.Lt (keyCompare mem.userComparator)))
    (heights : ∀ call ∈ calls, 1 ≤ call.2 ∧ call.2 ≤ kMaxHeight)
    (holds : SkipList.Holds (keyCompare mem.userComparator) mem.table keys) :
    ∃ after, mem.addAll calls = some after ∧ after.userComparator = mem.userComparator ∧
      SkipList.Holds (keyCompare mem.userComparator) after.table
        (insertEntries (keyCompare mem.userComparator) keys (calls.map Prod.fst)) := by
  induction calls generalizing mem keys with
  | nil => exact ⟨mem, rfl, rfl, holds⟩
  | cons call calls inductionHypothesis =>
    obtain ⟨low, high⟩ := heights call (List.mem_cons_self ..)
    obtain ⟨table, inserted, holdsTable⟩ := SkipList.insert_holds holds order call.1.entry low high
    have added : mem.add call.1 call.2 = some { mem with table } := by
      simp [add, inserted]
    obtain ⟨after, ran, same, holdsAfter⟩ := @inductionHypothesis { mem with table } _ order
      (fun c member => heights c (List.mem_cons_of_mem _ member)) holdsTable
    refine ⟨after, ?_, same, holdsAfter⟩
    rw [addAll, List.foldlM_cons, added]
    exact ran

/-- Entries that are added to a new memtable are what its table holds. -/
theorem addAll_new_holds {user : Comparator} (order : WeakOrder (SkipList.Lt (keyCompare user)))
    (calls : List (AddCall × Nat)) (heights : ∀ call ∈ calls, 1 ≤ call.2 ∧ call.2 ≤ kMaxHeight) :
    ∃ mem, (MemTable.new user).addAll calls = some mem ∧ mem.userComparator = user ∧
      SkipList.Holds (keyCompare user) mem.table
        (insertEntries (keyCompare user) [] (calls.map Prod.fst)) :=
  @addAll_holds (MemTable.new user) [] calls order heights (SkipList.new_holds _)

/-- The table holds every added entry once. -/
theorem perm_insertEntries (compare : Bytes → Bytes → Int) (keys : List Bytes)
    (calls : List AddCall) :
    (insertEntries compare keys calls).Perm (calls.map AddCall.entry ++ keys) := by
  induction calls generalizing keys with
  | nil => exact List.Perm.refl _
  | cons call calls inductionHypothesis =>
    refine (inductionHypothesis _).trans ?_
    rw [List.map_cons, List.cons_append]
    exact ((List.perm_orderedInsert _ _ _).append_left _).trans List.perm_middle

/-- An entry of the table is that of an addition. -/
theorem mem_insertEntries {compare : Bytes → Bytes → Int} {calls : List AddCall} {entry : Bytes} :
    entry ∈ insertEntries compare [] calls ↔ ∃ call ∈ calls, call.entry = entry := by
  rw [(perm_insertEntries compare [] calls).mem_iff, List.append_nil, List.mem_map]

/-- The table holds its entries in the order of their internal keys. -/
theorem sorted_insertEntries {compare : Bytes → Bytes → Int}
    (order : WeakOrder (SkipList.Lt compare)) (calls : List AddCall) {keys : List Bytes}
    (sorted : keys.Pairwise (WeakOrder.Before (SkipList.Lt compare))) :
    (insertEntries compare keys calls).Pairwise (WeakOrder.Before (SkipList.Lt compare)) := by
  induction calls generalizing keys with
  | nil => exact sorted
  | cons call calls inductionHypothesis =>
    exact inductionHypothesis (order.sorted_orderedInsert call.entry sorted)

/-! ### Comparing entries -/

/-- The internal order of encoded entries is a strict weak order. -/
theorem keyCompare_weakOrder {user : Comparator} (lawful : ThreeWay user.compare) :
    WeakOrder (SkipList.Lt (keyCompare user)) :=
  (internalCompare_weakOrder lawful).comap fun entry => (lengthPrefixedAt entry).1

/-- The user-key order of the shipped comparator. -/
theorem weakOrder_bytes : WeakOrder (fun a b : Bytes => a < b) where
  asymm := List.lt_asymm
  negTrans notAB notBC := List.not_lt.mpr
    (List.le_trans (List.not_lt.mp notBC) (List.not_lt.mp notAB))

/-- With the shipped comparator the order of the entries is that of their user keys. -/
theorem keyCompare_bytewise_weakOrder :
    WeakOrder (SkipList.Lt (keyCompare bytewiseComparator)) :=
  (weakOrder_bytes.comap fun entry : Bytes => extractUserKey (lengthPrefixedAt entry).1).congr
    fun _ _ => internalCompare_bytewise_neg_iff _ _

/-- Entries are ordered by their user keys, and those of a key by falling tags. -/
theorem keyCompare_entry_neg_iff (user : Comparator) {a b : AddCall} (aFits : a.Fits)
    (bFits : b.Fits) :
    SkipList.Lt (keyCompare user) a.entry b.entry ↔
      user.compare a.key b.key < 0 ∨ user.compare a.key b.key = 0 ∧
        b.seq * 256 + b.type.toNat < a.seq * 256 + a.type.toNat := by
  rw [SkipList.Lt, keyCompare, AddCall.lengthPrefixedAt_entry aFits,
    AddCall.lengthPrefixedAt_entry bFits,
    internalCompare_neg_iff, AddCall.extractUserKey_internalKey,
    AddCall.extractUserKey_internalKey, AddCall.extractTag_internalKey aFits,
    AddCall.extractTag_internalKey bFits]

/-- The lookup key decodes to the user key with the snapshot's seek tag. -/
theorem lengthPrefixedAt_lookupKey {k : Bytes} (s : Nat) (size : k.length + 8 < 2 ^ 32) :
    (lengthPrefixedAt (LookupKey.new k s).memtableKey).1 =
      k ++ encodeFixed64 (packSequenceAndType s kValueTypeForSeek) := by
  have kept : truncU32 (k.length + 8) = k.length + 8 := Nat.mod_eq_of_lt size
  have sized : (k ++ encodeFixed64 (packSequenceAndType s kValueTypeForSeek)).length =
      k.length + 8 := by simp
  have split := @lengthPrefixedAt_encode
    (k ++ encodeFixed64 (packSequenceAndType s kValueTypeForSeek)) [] (by rw [sized]; exact size)
  rw [sized, List.append_nil] at split
  rw [LookupKey.new, kept, split]

/-- An entry stands before a lookup key if its key is smaller, or it is later than the snapshot. -/
theorem keyCompare_lookupKey_neg_iff (user : Comparator) {call : AddCall} (fits : call.Fits)
    {k : Bytes} {s : Nat} (size : k.length + 8 < 2 ^ 32) (snapshot : s ≤ kMaxSequenceNumber) :
    SkipList.Lt (keyCompare user) call.entry (LookupKey.new k s).memtableKey ↔
      user.compare call.key k < 0 ∨ user.compare call.key k = 0 ∧
        s < call.seq := by
  have small := call.type.toNat_le_one
  have tag := packSequenceAndType_eq kValueTypeForSeek snapshot
  have seekType : kValueTypeForSeek.toNat = 1 := rfl
  rw [SkipList.Lt, keyCompare, AddCall.lengthPrefixedAt_entry fits,
    lengthPrefixedAt_lookupKey s size, internalCompare_neg_iff,
    AddCall.extractUserKey_internalKey, extractUserKey_append,
    AddCall.extractTag_internalKey fits,
    extractTag_append _ (packSequenceAndType_lt _ snapshot)]
  omega

@[simp] theorem userKey_lookupKey (k : Bytes) (s : Nat) : (LookupKey.new k s).userKey = k :=
  extractUserKey_append k _

/-! ### Versions a read may return -/

/-- A version of an equivalent key that the snapshot `s` may see. -/
def Visible (user : Comparator) (k : Bytes) (s : Nat) (call : AddCall) : Prop :=
  user.compare call.key k = 0 ∧ call.seq ≤ s

/-- The visible version with the largest sequence number. -/
structure Latest (user : Comparator) (calls : List AddCall) (k : Bytes) (s : Nat)
    (call : AddCall) : Prop where
  added : call ∈ calls
  visible : Visible user k s call
  largest : ∀ other ∈ calls, Visible user k s other → other.seq ≤ call.seq

/-- What a read reports about the version it selects. -/
def readResult (call : AddCall) (value : Bytes) (status : Status) : GetResult :=
  match call.type with
  | .kTypeValue => ⟨true, call.value, status⟩
  | .kTypeDeletion => ⟨true, value, .notFound ""⟩

/-! ### `Get` on the entry the search stands on -/

/-- Behind the last entry nothing is found. -/
theorem get_of_seek_none {mem : MemTable} {key : LookupKey} (value : Bytes) (status : Status)
    (sought : mem.table.seek (keyCompare mem.userComparator) key.memtableKey = some none) :
    mem.get key value status = some ⟨false, value, status⟩ := by
  simp [get, sought]

/-- `Get` decodes the entry it stands on and accepts it if its user key is
equivalent to the one looked up. -/
theorem get_of_seek_entry {mem : MemTable} {node : Nat} {call : AddCall} (fits : call.Fits)
    (k : Bytes) (s : Nat) (value : Bytes) (status : Status)
    (sought : mem.table.seek (keyCompare mem.userComparator) (LookupKey.new k s).memtableKey =
      some (some node))
    (stored : mem.table.keyOf node = some call.entry) :
    mem.get (LookupKey.new k s) value status =
      some (if mem.userComparator.compare call.key k = 0 then readResult call value status
        else ⟨false, value, status⟩) := by
  have size := fits.key
  have keyKept : truncU32 (call.key.length + 8) = call.key.length + 8 := Nat.mod_eq_of_lt size
  have valueKept : truncU32 call.value.length = call.value.length := Nat.mod_eq_of_lt fits.value
  have decoded : getVarint32Ptr call.entry 5 = some (call.key.length + 8,
      call.internalKey ++ (encodeVarint32 call.value.length ++ call.value)) := by
    rw [AddCall.entry, keyKept, valueKept, List.append_assoc]
    exact getVarint32Ptr_encodeVarint32 _ size (length_encodeVarint32_bounds _).2
  have length : truncU32 (call.key.length + 8 + 2 ^ 32 - 8) = call.key.length := by
    rw [truncU32]
    omega
  have userKey : (call.internalKey ++ (encodeVarint32 call.value.length ++ call.value)).take
      call.key.length = call.key := by
    simp [AddCall.internalKey]
  have tag : decodeFixed64 ((call.internalKey ++
      (encodeVarint32 call.value.length ++ call.value)).drop call.key.length) =
        packSequenceAndType call.seq call.type := by
    rw [AddCall.internalKey_eq, List.append_assoc, List.drop_left, decodeFixed64_encodeFixed64,
      truncU64, Nat.mod_eq_of_lt (packSequenceAndType_lt _ fits.seq)]
  have kind : ValueType.ofNat? (packSequenceAndType call.seq call.type &&& 0xFF) =
      some call.type := by
    have small := call.type.toNat_le_one
    have low : packSequenceAndType call.seq call.type &&& 0xFF = call.type.toNat := by
      rw [packSequenceAndType_eq _ fits.seq, Nat.and_two_pow_sub_one_eq_mod _ 8]
      omega
    rw [low, ValueType.ofNat?_toNat]
  have valueRead : (lengthPrefixedAt ((call.internalKey ++
      (encodeVarint32 call.value.length ++ call.value)).drop (call.key.length + 8))).1 =
        call.value := by
    have value := @lengthPrefixedAt_encode call.value [] fits.value
    rw [List.append_nil] at value
    rw [← @AddCall.length_internalKey call, List.drop_left, value]
  simp only [get, sought, stored, decoded, length, userKey, userKey_lookupKey, Nat.add_sub_cancel,
    tag, kind, valueRead, Option.bind_eq_bind, Option.bind_some]
  split_ifs with equivalent
  · cases shape : call.type <;> simp [readResult, shape]
  · rfl

/-- The order of the entries leads the search to the latest visible version: the
first entry at or behind the seek position carries its key and sequence number. -/
theorem latest_of_first {user : Comparator} (lawful : ThreeWay user.compare) {first e : AddCall}
    {k : Bytes} {s : Nat} (visible : Visible user k s e)
    (firstSeek : ¬ (user.compare first.key k < 0 ∨ user.compare first.key k = 0 ∧ s < first.seq))
    (firstBefore : ¬ (user.compare e.key first.key < 0 ∨ user.compare e.key first.key = 0 ∧
      first.seq * 256 + first.type.toNat < e.seq * 256 + e.type.toNat)) :
    Visible user k s first ∧ user.compare e.key first.key = 0 ∧ e.seq ≤ first.seq := by
  obtain ⟨notSmaller, seekTag⟩ := not_or.mp firstSeek
  obtain ⟨notBefore, tags⟩ := not_or.mp firstBefore
  obtain ⟨equivalent, inSnapshot⟩ := visible
  obtain ⟨eNotBelow, kNotBelow⟩ := (lawful.eq_zero_iff e.key k).mp equivalent
  have order := lawful.weakOrder
  have firstEquivalent : user.compare first.key k = 0 :=
    (lawful.eq_zero_iff _ _).mpr ⟨notSmaller, order.negTrans kNotBelow notBefore⟩
  have sameKey : user.compare e.key first.key = 0 :=
    (lawful.eq_zero_iff _ _).mpr ⟨notBefore, order.negTrans notSmaller kNotBelow⟩
  have firstType := first.type.toNat_le_one
  refine ⟨⟨firstEquivalent, ?_⟩, sameKey, ?_⟩
  · by_contra later
    exact seekTag ⟨firstEquivalent, by omega⟩
  · by_contra later
    exact tags ⟨sameKey, by omega⟩

/-- Versions of equivalent keys are told apart by their sequence numbers. -/
theorem eq_of_seq_eq {user : Comparator} (lawful : ThreeWay user.compare) {calls : List AddCall}
    (distinct : calls.Pairwise fun a b => user.compare a.key b.key = 0 → a.seq ≠ b.seq)
    {a b : AddCall} (aAdded : a ∈ calls) (bAdded : b ∈ calls)
    (equivalent : user.compare a.key b.key = 0) (sameSeq : a.seq = b.seq) : a = b := by
  have symmetric : Std.Symm fun a b : AddCall =>
      user.compare a.key b.key = 0 → a.seq ≠ b.seq :=
    ⟨fun x y apart equivalent => (apart ((lawful.eq_zero_comm _ _).mp equivalent)).symm⟩
  by_contra different
  exact distinct.forall aAdded bAdded different equivalent sameSeq

/-- `Get` reads the latest visible version: for any lawful user comparator, any
order of additions and any node heights it reports that version's value or
deletion, and nothing if no version is visible. -/
theorem get_reads_latest (user : Comparator) (lawful : ThreeWay user.compare)
    (calls : List (AddCall × Nat)) (fits : ∀ call ∈ calls, call.1.Fits)
    (heights : ∀ call ∈ calls, 1 ≤ call.2 ∧ call.2 ≤ kMaxHeight)
    (distinct : calls.Pairwise fun a b =>
      user.compare a.1.key b.1.key = 0 → a.1.seq ≠ b.1.seq)
    (k : Bytes) (size : k.length + 8 < 2 ^ 32) (s : Nat) (snapshot : s ≤ kMaxSequenceNumber)
    (value : Bytes) (status : Status) :
    ∃ mem, (MemTable.new user).addAll calls = some mem ∧
      (∀ latest, Latest user (calls.map Prod.fst) k s latest →
        mem.get (LookupKey.new k s) value status = some (readResult latest value status)) ∧
      ((∀ call ∈ calls.map Prod.fst, ¬ Visible user k s call) →
        mem.get (LookupKey.new k s) value status = some ⟨false, value, status⟩) := by
  have order := keyCompare_weakOrder lawful
  obtain ⟨mem, added, rfl, holds⟩ := addAll_new_holds order calls heights
  have fitsCall : ∀ call ∈ calls.map Prod.fst, call.Fits := by
    intro call member
    obtain ⟨pair, pairMember, rfl⟩ := List.mem_map.mp member
    exact fits pair pairMember
  have separated : (calls.map Prod.fst).Pairwise fun a b =>
      mem.userComparator.compare a.key b.key = 0 → a.seq ≠ b.seq := List.pairwise_map.mpr distinct
  have sorted := sorted_insertEntries order (calls.map Prod.fst) List.Pairwise.nil
  obtain ⟨node, sought, stored⟩ := SkipList.seek_holds holds order (LookupKey.new k s).memtableKey
  refine ⟨mem, added, ?_⟩
  cases found : ((insertEntries (keyCompare mem.userComparator) [] (calls.map Prod.fst)).dropWhile
      fun key => keyCompare mem.userComparator key (LookupKey.new k s).memtableKey < 0).head? with
  | none =>
    -- every entry is before the seek position, so no version is visible
    rw [found, Option.map_none, Option.map_eq_none_iff] at stored
    subst stored
    refine ⟨fun latest isLatest => ?_, fun _ => get_of_seek_none value status sought⟩
    have before := @WeakOrder.lt_of_head?_dropWhile_eq_none _
      (SkipList.Lt (keyCompare mem.userComparator)) _ _ _ _ found
      (mem_insertEntries.mpr ⟨latest, isLatest.added, rfl⟩)
    rw [keyCompare_lookupKey_neg_iff _ (fitsCall _ isLatest.added) size snapshot] at before
    obtain ⟨equivalent, inSnapshot⟩ := isLatest.visible
    omega
  | some entry =>
    obtain ⟨listed, notBefore, leads⟩ := order.before_of_head?_dropWhile sorted found
    obtain ⟨first, firstAdded, rfl⟩ := mem_insertEntries.mp listed
    obtain ⟨n, rfl, keyed⟩ : ∃ n, node = some n ∧ mem.table.keyOf n = some first.entry := by
      rw [found] at stored
      cases node with
      | none => simp at stored
      | some n => exact ⟨n, rfl, by simpa using stored⟩
    have firstFits := fitsCall first firstAdded
    have result := get_of_seek_entry firstFits k s value status sought keyed
    rw [keyCompare_lookupKey_neg_iff _ firstFits size snapshot] at notBefore
    refine ⟨fun latest isLatest => ?_, fun noneVisible => ?_⟩
    · have latestFits := fitsCall latest isLatest.added
      have latestSeek : ¬ SkipList.Lt (keyCompare mem.userComparator) latest.entry
          (LookupKey.new k s).memtableKey := by
        rw [keyCompare_lookupKey_neg_iff _ latestFits size snapshot]
        obtain ⟨equivalent, inSnapshot⟩ := isLatest.visible
        omega
      have firstBefore := leads latest.entry
        (mem_insertEntries.mpr ⟨latest, isLatest.added, rfl⟩) latestSeek
      rw [keyCompare_entry_neg_iff _ latestFits firstFits] at firstBefore
      obtain ⟨visible, sameKey, notOlder⟩ := latest_of_first lawful isLatest.visible notBefore
        firstBefore
      have notNewer := isLatest.largest first firstAdded visible
      have equal := eq_of_seq_eq lawful separated isLatest.added firstAdded sameKey (by omega)
      subst equal
      rw [result, if_pos visible.1]
    · rw [result, if_neg]
      intro equivalent
      refine noneVisible first firstAdded ⟨equivalent, ?_⟩
      by_contra later
      exact notBefore (Or.inr ⟨equivalent, by omega⟩)

/-- A lawful user comparator: the lexicographic order of unsigned bytes. -/
def lexicographicComparator : Comparator :=
  { bytewiseComparator with compare := fun a b => if a < b then -1 else if b < a then 1 else 0 }

/-- The order of byte strings is a lawful comparator. -/
theorem lexicographicComparator_lawful : ThreeWay lexicographicComparator.compare where
  antisymm a b := by
    simp only [lexicographicComparator]
    by_cases below : a < b
    · simp [below, List.lt_asymm below]
    · by_cases above : b < a <;> simp [below, above]
  trans {a b c} first second := by
    by_contra above
    have notAB : ¬ b < a := by
      intro swapped
      have : lexicographicComparator.compare a b = 1 := by
        simp [lexicographicComparator, swapped, List.lt_asymm swapped]
      omega
    have notBC : ¬ c < b := by
      intro swapped
      have : lexicographicComparator.compare b c = 1 := by
        simp [lexicographicComparator, swapped, List.lt_asymm swapped]
      omega
    have ordered : ¬ c < a :=
      List.not_lt.mpr (List.le_trans (List.not_lt.mp notAB) (List.not_lt.mp notBC))
    have : lexicographicComparator.compare a c ≤ 0 := by
      simp only [lexicographicComparator]
      split_ifs <;> simp
    exact above this

/-- It is zero on equal keys only. -/
theorem lexicographicComparator_separates (a b : Bytes)
    (same : lexicographicComparator.compare a b = 0) : a = b := by
  simp only [lexicographicComparator] at same
  split_ifs at same with below above
  · cases same
  · exact List.le_antisymm (List.not_lt.mp above) (List.not_lt.mp below)

/-- Two versions of one key, the newer one a deletion the snapshot does not see. -/
theorem get_reads_latest_two_versions :
    ∃ mem, (MemTable.new lexicographicComparator).addAll
        [(⟨2, .kTypeDeletion, [97], []⟩, 1), (⟨1, .kTypeValue, [97], [98]⟩, 2)] = some mem ∧
      mem.get (LookupKey.new [97] 1) [] .ok = some ⟨true, [98], .ok⟩ := by
  obtain ⟨mem, added, reads, -⟩ := get_reads_latest lexicographicComparator
    lexicographicComparator_lawful
    [(⟨2, .kTypeDeletion, [97], []⟩, 1), (⟨1, .kTypeValue, [97], [98]⟩, 2)]
    (by
      intro call member
      simp only [List.mem_cons, List.not_mem_nil, or_false] at member
      rcases member with rfl | rfl <;> constructor <;> decide)
    (by decide) (by decide) [97] (by decide) 1 (by decide) [] .ok
  refine ⟨mem, added, reads ⟨1, .kTypeValue, [97], [98]⟩ ⟨by decide, ⟨by decide, by decide⟩, ?_⟩⟩
  intro other member visible
  exact visible.2

end MemTable

end LevelDbXy
