import LevelDbXy.Util.Coding

/-!
# Lists of length-prefixed strings

`PutLengthPrefixedSlice` called for one string after the other, and
`GetLengthPrefixedSlice` called until it fails. A truncated varint has only
continuation bytes, so the decoder fails in it; a truncated string is shorter than its
prefix says. Hence reading stops exactly where the complete strings end.
-/

namespace LevelDbXy.Coding

/-- `PutLengthPrefixedSlice` for each of the strings. -/
def putAll (values : List Bytes) : Bytes := values.foldl putLengthPrefixedSlice []

/-- `GetLengthPrefixedSlice` called that many times: the strings and the rest of the slice. -/
def getMany : Nat → Bytes → Option (List Bytes × Bytes)
  | 0, input => some ([], input)
  | count + 1, input => do
    let (value, input) ← getLengthPrefixedSlice input
    let (values, input) ← getMany count input
    some (value :: values, input)

/-! ### Truncation -/

/-- All bytes of a varint but the last are continuation bytes. -/
theorem encodeVarint32_eq_concat {value : Nat} (bounded : value < 2 ^ 35) :
    ∃ continued last, encodeVarint32 value = continued ++ [last] ∧
      ∀ byte ∈ continued, 128 ≤ byte.toNat := by
  induction value using Nat.strongRecOn with
  | ind value inductionHypothesis =>
    by_cases large : 128 ≤ value
    · have shifted : value >>> 7 = value / 128 := Nat.shiftRight_eq_div_pow value 7
      obtain ⟨continued, last, encoded, marked⟩ :=
        inductionHypothesis (value >>> 7) (by omega) (by omega)
      refine ⟨lowByte (value ||| 128) :: continued, last, ?_, ?_⟩
      · rw [encodeVarint32_of_le large bounded, encoded]
        rfl
      · intro byte member
        rcases List.mem_cons.mp member with rfl | later
        · rw [toNat_lowByte, or_128_mod_256]
          omega
        · exact marked byte later
    · exact ⟨[], lowByte value, encodeVarint32_of_lt (by omega), by simp⟩

/-- The decoding loop does not stop at continuation bytes. -/
theorem getVarint32PtrLoop_eq_none {shift result limit : Nat} {p : Bytes}
    (continued : ∀ byte ∈ p, 128 ≤ byte.toNat) :
    getVarint32PtrLoop shift result limit p = none := by
  induction p generalizing shift result limit with
  | nil => rfl
  | cons byte p inductionHypothesis =>
    rw [getVarint32PtrLoop]
    split_ifs with inRange marked
    · exact inductionHypothesis fun later member => continued later (List.mem_cons_of_mem _ member)
    · exact absurd ((and_128_ne_zero_iff byte).mpr (continued byte List.mem_cons_self)) marked
    · rfl

/-- A varint that is cut off is not decoded. -/
theorem getVarint32_truncated {value : Nat} {cut : Bytes} (bounded : value < 2 ^ 35)
    (truncated : cut <+: encodeVarint32 value) (proper : cut ≠ encodeVarint32 value) :
    getVarint32 cut = none := by
  obtain ⟨continued, last, encoded, marked⟩ := encodeVarint32_eq_concat bounded
  rw [encoded] at truncated proper
  apply getVarint32PtrLoop_eq_none
  intro byte member
  rcases List.prefix_concat_iff.mp truncated with whole | shorter
  · exact absurd whole proper
  · exact marked byte (shorter.subset member)

/-- A prefix of a concatenation ends before the second part, or takes all of the first. -/
theorem prefix_append_cases {cut first second : Bytes} (isPrefix : cut <+: first ++ second) :
    (cut <+: first ∧ cut ≠ first) ∨ ∃ part, cut = first ++ part ∧ part <+: second := by
  by_cases whole : first <+: cut
  · obtain ⟨part, rfl⟩ := whole
    exact Or.inr ⟨part, rfl, (List.prefix_append_right_inj first).mp isPrefix⟩
  · rcases List.prefix_or_prefix_of_prefix isPrefix (List.prefix_append first second) with
      shorter | longer
    · refine Or.inl ⟨shorter, ?_⟩
      rintro rfl
      exact whole (List.prefix_refl _)
    · exact absurd longer whole

/-- A truncated length-prefixed string is not read. -/
theorem getLengthPrefixedSlice_truncated {value cut : Bytes} (bounded : value.length < 2 ^ 32)
    (truncated : cut <+: putLengthPrefixedSlice [] value)
    (proper : cut ≠ putLengthPrefixedSlice [] value) : getLengthPrefixedSlice cut = none := by
  have kept : truncU32 value.length = value.length := Nat.mod_eq_of_lt bounded
  have layout : putLengthPrefixedSlice [] value = encodeVarint32 value.length ++ value := by
    rw [putLengthPrefixedSlice, putVarint32, kept]
    rfl
  rw [layout] at truncated proper
  rcases prefix_append_cases truncated with ⟨inVarint, notWhole⟩ | ⟨part, rfl, inString⟩
  · rw [getLengthPrefixedSlice, getVarint32_truncated (by omega) inVarint notWhole]
  · have decoded : getVarint32 (encodeVarint32 value.length ++ part) = some (value.length, part) :=
      getVarint32Ptr_encodeVarint32 part bounded (by simp)
    have shorter : part.length < value.length := by
      apply Nat.lt_of_le_of_ne inString.length_le
      intro sameLength
      exact proper (by rw [inString.eq_of_length sameLength])
    rw [getLengthPrefixedSlice, decoded]
    exact if_neg (by omega)

/-! ### Lists -/

/-- A value is put behind what is there. -/
theorem putLengthPrefixedSlice_eq_append (dst value : Bytes) :
    putLengthPrefixedSlice dst value = dst ++ putLengthPrefixedSlice [] value := by
  simp [putLengthPrefixedSlice, putVarint32]

/-- The first value comes first. -/
theorem putAll_cons (value : Bytes) (values : List Bytes) :
    putAll (value :: values) = putLengthPrefixedSlice [] value ++ putAll values := by
  have shift : ∀ dst : Bytes,
      values.foldl putLengthPrefixedSlice dst = dst ++ putAll values := by
    unfold putAll
    induction values with
    | nil => simp
    | cons next values inductionHypothesis =>
      intro dst
      rw [List.foldl_cons, List.foldl_cons, inductionHypothesis,
        inductionHypothesis (putLengthPrefixedSlice [] next),
        putLengthPrefixedSlice_eq_append dst next, List.append_assoc]
  exact shift _

/-- Values are read one after the other. -/
theorem getMany_succ_of_read {count : Nat} {input value rest : Bytes}
    (read : getLengthPrefixedSlice input = some (value, rest)) :
    getMany (count + 1) input =
      (getMany count rest).map fun (values, rest) => (value :: values, rest) := by
  cases more : getMany count rest <;> simp [getMany, read, more]

/-- All the strings are read back, and what follows them is left. -/
theorem getMany_putAll {values : List Bytes} (tail : Bytes)
    (bounded : ∀ value ∈ values, value.length < 2 ^ 32) :
    getMany values.length (putAll values ++ tail) = some (values, tail) := by
  induction values with
  | nil => rfl
  | cons value values inductionHypothesis =>
    have read := getLengthPrefixedSlice_put (putAll values ++ tail)
      (bounded value List.mem_cons_self)
    have rest := inductionHypothesis fun later member =>
      bounded later (List.mem_cons_of_mem value member)
    rw [putAll_cons, List.append_assoc, List.length_cons, getMany_succ_of_read read, rest]
    rfl

/-- Reading a truncated list stops after the strings that are complete in it. -/
theorem getMany_truncated {values : List Bytes} {cut : Bytes}
    (bounded : ∀ value ∈ values, value.length < 2 ^ 32) (truncated : cut <+: putAll values)
    (proper : cut ≠ putAll values) :
    ∃ complete < values.length, putAll (values.take complete) <+: cut ∧
      ¬ putAll (values.take (complete + 1)) <+: cut ∧
      ∃ rest, getMany complete cut = some (values.take complete, rest) ∧
        getLengthPrefixedSlice rest = none := by
  induction values generalizing cut with
  | nil => exact absurd (List.prefix_nil.mp truncated) proper
  | cons value values inductionHypothesis =>
    have valueBounded := bounded value List.mem_cons_self
    rw [putAll_cons] at truncated proper
    rcases prefix_append_cases truncated with ⟨inFirst, notWhole⟩ | ⟨part, rfl, inRest⟩
    · refine ⟨0, by simp, List.nil_prefix, ?_, cut, rfl,
        getLengthPrefixedSlice_truncated valueBounded inFirst notWhole⟩
      intro whole
      rw [Nat.zero_add, List.take_succ_cons, List.take_zero, putAll_cons] at whole
      have first := (List.prefix_append _ _).trans whole
      exact notWhole (inFirst.eq_of_length (Nat.le_antisymm inFirst.length_le first.length_le))
    · obtain ⟨complete, fewer, within, stops, rest, read, fails⟩ :=
        inductionHypothesis (fun later member => bounded later (List.mem_cons_of_mem value member))
          inRest (fun whole => proper (by rw [whole]))
      refine ⟨complete + 1, by simpa using fewer, ?_, ?_, rest, ?_, fails⟩
      · rw [List.take_succ_cons, putAll_cons]
        exact (List.prefix_append_right_inj _).mpr within
      · rw [List.take_succ_cons, putAll_cons, List.prefix_append_right_inj]
        exact stops
      · rw [getMany_succ_of_read (getLengthPrefixedSlice_put part valueBounded), read]
        rfl

/-- A varint has the length that `VarintLength` says; strings put one after the other are read
back exactly, whatever follows them, and from a proper prefix exactly those are read that
are complete in it. -/
theorem length_prefixed_exact_and_prefix_free {values : List Bytes}
    (bounded : ∀ value ∈ values, value.length < 2 ^ 32) :
    (∀ value < 2 ^ 32, (encodeVarint32 value).length = varintLength value ∧
      1 ≤ varintLength value ∧ varintLength value ≤ 5) ∧
    (∀ tail, getMany values.length (putAll values ++ tail) = some (values, tail)) ∧
    ∀ cut, cut <+: putAll values → cut ≠ putAll values →
      ∃ complete < values.length, putAll (values.take complete) <+: cut ∧
        ¬ putAll (values.take (complete + 1)) <+: cut ∧
        ∃ rest, getMany complete cut = some (values.take complete, rest) ∧
          getLengthPrefixedSlice rest = none := by
  refine ⟨fun value small => ?_, fun tail => getMany_putAll tail bounded,
    fun cut truncated proper => getMany_truncated bounded truncated proper⟩
  have length : varintLength value = (encodeVarint32 value).length := varintLength_eq (by omega)
  have bounds := length_encodeVarint32_bounds value
  omega

/-- Three strings, cut inside the third one. -/
theorem length_prefixed_exact_and_prefix_free_cut :
    getMany 3 (putAll [[7], [], [8, 9]] ++ [5]) = some ([[7], [], [8, 9]], [5]) ∧
      ∃ complete < 3, putAll ([[7], [], [8, 9]].take complete) <+: [1, 7, 0, 2, 8] ∧
        ¬ putAll ([[7], [], [8, 9]].take (complete + 1)) <+: [1, 7, 0, 2, 8] ∧
        ∃ rest, getMany complete [1, 7, 0, 2, 8] = some ([[7], [], [8, 9]].take complete, rest) ∧
          getLengthPrefixedSlice rest = none := by
  obtain ⟨-, exact_, truncated⟩ :=
    @length_prefixed_exact_and_prefix_free [[7], [], [8, 9]] (by decide)
  exact ⟨exact_ [5], truncated [1, 7, 0, 2, 8] (by decide) (by decide)⟩

end LevelDbXy.Coding
