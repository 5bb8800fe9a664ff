import LevelDbXy.Library.LehmerGenerator
import Mathlib.NumberTheory.LucasPrimality
import Mathlib.Tactic.ReduceModChar
import Mathlib.Tactic.Simproc.Factors

/-!
# The random generator

`algorithm/random.h`, a Lehmer generator modulo `2 ^ 31 - 1` with the multiplier `16807`. The
product is reduced by one fold and one subtraction, which tests `>` and not `>=`. The
multiplier has the largest order, so that the modulus is a prime by Lucas's test and every
state is reached from every other one.
-/

namespace LevelDbXy

/-- `Random`. -/
structure Random where
  seed : UInt32
  deriving DecidableEq, Repr

namespace Random

/-- `M` of `Next`, which is `INT32_MAX`. -/
def M : UInt32 := 2147483647

/-- `A` of `Next`. -/
def A : UInt64 := 16807

/-- `Random::Random`. -/
def new (s : UInt32) : Random :=
  let seed := s &&& 0x7FFFFFFF
  if seed = 0 ∨ seed = M then ⟨1⟩ else ⟨seed⟩

/-- `Next`. -/
def next (random : Random) : UInt32 × Random :=
  let product := random.seed.toUInt64 * A
  let seed := ((product >>> 31) + (product &&& M.toUInt64)).toUInt32
  let seed := if M < seed then seed - M else seed
  (seed, ⟨seed⟩)

/-- `OneIn`, where `n` is converted to `uint32_t`; a division by zero has no result. -/
def oneIn (random : Random) (n : Int32) : Option (Bool × Random) :=
  if n = 0 then none
  else
    let (value, random) := random.next
    some (value % n.toUInt32 == 0, random)

/-! ### The steps -/

/-- The state after `Next`. -/
def advance (random : Random) : Random := random.next.2

/-- A value that a type of so many bits holds. -/
def ofWidth (bits value : Nat) : Option Nat := if value < 2 ^ bits then some value else none

/-- `Next` on the numbers themselves; `none` if a value does not fit its type. -/
def nextChecked (seed : Nat) : Option Nat := do
  let product ← ofWidth 64 (seed * A.toNat)
  let sum ← ofWidth 64 ((product >>> 31) + (product &&& M.toNat))
  let seed ← ofWidth 32 sum
  if M.toNat < seed then some (seed - M.toNat) else some seed

/-- The modulus is a Mersenne number. -/
theorem toNat_M : M.toNat = mersenne 31 := rfl

section Step

variable {seed : Nat}

/-- A state below `2 ^ 31` is folded without a loss. -/
theorem fold_lt (small : seed < 2 ^ 31) : Lehmer.fold 31 (seed * 16807) < 2 ^ 32 := by
  rw [Lehmer.fold_eq]
  omega

/-- The product fits into 64 bits. -/
theorem toNat_product {random : Random} (small : random.seed.toNat < 2 ^ 31) :
    (random.seed.toUInt64 * A).toNat = random.seed.toNat * 16807 := by
  rw [UInt64.toNat_mul, UInt32.toNat_toUInt64]
  refine Nat.mod_eq_of_lt ?_
  change random.seed.toNat * 16807 < 2 ^ 64
  omega

/-- The sum of the two parts of the product fits into 32 bits. -/
theorem toNat_folded {product : UInt64} {seed : Nat} (isProduct : product.toNat = seed * 16807)
    (small : seed < 2 ^ 31) :
    ((product >>> 31) + (product &&& M.toUInt64)).toUInt32.toNat =
      Lehmer.fold 31 (seed * 16807) := by
  have bound := fold_lt small
  rw [UInt64.toNat_toUInt32, UInt64.toNat_add, UInt64.toNat_shiftRight, UInt64.toNat_and,
    isProduct]
  change (Lehmer.fold 31 (seed * 16807)) % 2 ^ 64 % 2 ^ 32 = _
  omega

/-- `Next` is the reduction of the product. -/
theorem toNat_advance {random : Random} (small : random.seed.toNat < 2 ^ 31) :
    random.advance.seed.toNat = Lehmer.reduce 31 (random.seed.toNat * 16807) := by
  have folded := toNat_folded (toNat_product small) small
  unfold advance next
  simp only
  generalize ((random.seed.toUInt64 * A) >>> 31 +
    ((random.seed.toUInt64 * A) &&& M.toUInt64)).toUInt32 = sum at folded ⊢
  rw [Lehmer.reduce, ← folded, ← toNat_M]
  by_cases above : M < sum
  · rw [if_pos above, if_pos (UInt32.lt_iff_toNat_lt.mp above),
      UInt32.toNat_sub_of_le _ _ (UInt32.le_of_lt above)]
  · rw [if_neg above, if_neg fun larger => above (UInt32.lt_iff_toNat_lt.mpr larger)]

/-- No value of `Next` is too large for its type. -/
theorem nextChecked_eq (small : seed < 2 ^ 31) :
    nextChecked seed = some (Lehmer.reduce 31 (seed * 16807)) := by
  have bound := fold_lt small
  have product : ofWidth 64 (seed * A.toNat) = some (seed * 16807) := by
    refine if_pos ?_
    change seed * 16807 < 2 ^ 64
    omega
  have sum : ofWidth 64 ((seed * 16807) >>> 31 + (seed * 16807 &&& M.toNat)) =
      some (Lehmer.fold 31 (seed * 16807)) := by
    refine if_pos ?_
    change Lehmer.fold 31 (seed * 16807) < 2 ^ 64
    omega
  have cast : ofWidth 32 (Lehmer.fold 31 (seed * 16807)) =
      some (Lehmer.fold 31 (seed * 16807)) := if_pos bound
  simp only [nextChecked, product, sum, cast, Option.bind_eq_bind, Option.bind_some]
  rw [toNat_M, Lehmer.reduce]
  split_ifs <;> rfl

end Step

/-! ### The modulus and the multiplier -/

/-- The prime factors of the number of states. -/
theorem mem_primeFactors {q : Nat} (prime : q.Prime) (divides : q ∣ 2147483646) :
    q ∈ [2, 3, 7, 11, 31, 151, 331] := by
  have member : q ∈ Nat.primeFactorsList 2147483646 :=
    (Nat.mem_primeFactorsList (by decide)).mpr ⟨prime, divides⟩
  simpa using member

/-- To a proper part of that exponent by a prime, the multiplier is not one. -/
theorem multiplier_pow_ne_one {q : Nat} (prime : q.Prime) (divides : q ∣ 2147483646) :
    (16807 : ZMod 2147483647) ^ (2147483646 / q) ≠ 1 := by
  have member := mem_primeFactors prime divides
  simp only [List.mem_cons, List.not_mem_nil, or_false] at member
  rcases member with rfl | rfl | rfl | rfl | rfl | rfl | rfl
  all_goals
    simp only [Nat.reduceDiv]
    reduce_mod_char
    decide

/-- The multiplier to one less than the modulus is one. -/
theorem multiplier_pow_eq_one : (16807 : ZMod 2147483647) ^ 2147483646 = 1 := by
  reduce_mod_char

/-- The modulus is a prime. -/
theorem prime_modulus : (mersenne 31).Prime :=
  lucas_primality 2147483647 16807 multiplier_pow_eq_one fun _ => multiplier_pow_ne_one

/-- The multiplier has the order of the number of states. -/
theorem orderOf_multiplier :
    orderOf ((16807 : Nat) : ZMod (mersenne 31)) = mersenne 31 - 1 :=
  orderOf_eq_of_pow_and_pow_div_prime (n := 2147483646) (by decide) multiplier_pow_eq_one
    fun _ => multiplier_pow_ne_one

/-- The multiplier is not a multiple of the modulus. -/
theorem not_dvd_multiplier : ¬ mersenne 31 ∣ 16807 := by decide

/-! ### Runs -/

/-- The state is neither zero nor the modulus, nor above. -/
def Valid (random : Random) : Prop := Lehmer.Residue (mersenne 31) random.seed.toNat

/-- The constructor masks the seed and replaces the two values that would never change. -/
theorem new_valid (s : UInt32) : Valid (new s) := by
  have masked : (s &&& 0x7FFFFFFF).toNat = s.toNat % 2 ^ 31 := by
    rw [UInt32.toNat_and]
    exact Nat.and_two_pow_sub_one_eq_mod s.toNat 31
  unfold new
  simp only
  split_ifs with degenerate
  · exact ⟨by decide, by decide⟩
  · rw [not_or] at degenerate
    have notZero : (s &&& 0x7FFFFFFF).toNat ≠ 0 :=
      fun isZero => degenerate.1 (UInt32.toNat_inj.mp isZero)
    have notModulus : (s &&& 0x7FFFFFFF).toNat ≠ mersenne 31 :=
      fun isModulus => degenerate.2 (UInt32.toNat_inj.mp isModulus)
    have small : s.toNat % 2 ^ 31 < mersenne 31 + 1 := Nat.mod_lt _ (by decide)
    rw [masked] at notZero notModulus
    refine ⟨?_, ?_⟩
    · rw [masked]
      omega
    · rw [masked]
      omega

namespace Valid

variable {random : Random}

/-- A valid state has 31 bits. -/
theorem small (valid : random.Valid) : random.seed.toNat < 2 ^ 31 := by
  have bound : random.seed.toNat < mersenne 31 := valid.lt
  exact bound.trans (by decide)

/-- `Next` is the step of the generator. -/
theorem toNat_advance (valid : random.Valid) :
    random.advance.seed.toNat = Lehmer.step (mersenne 31) 16807 random.seed.toNat := by
  have high : random.seed.toNat * 16807 / 2 ^ 31 ≤ mersenne 31 := by
    have small := valid.small
    change _ ≤ 2147483647
    omega
  rw [Random.toNat_advance valid.small, Lehmer.step]
  exact Lehmer.reduce_eq_mod high (valid.not_dvd_mul prime_modulus not_dvd_multiplier)

/-- A valid state leads to a valid one. -/
theorem advance (valid : random.Valid) : random.advance.Valid := by
  rw [Valid, valid.toNat_advance]
  exact valid.kept prime_modulus not_dvd_multiplier

/-- Any number of calls lead from a valid state to a valid one. -/
theorem after (valid : random.Valid) (calls : Nat) : (Random.advance^[calls] random).Valid := by
  induction calls with
  | zero => exact valid
  | succ calls inductionHypothesis =>
    rw [Function.iterate_succ_apply']
    exact inductionHypothesis.advance

/-- The states of a run are those of the generator. -/
theorem toNat_after (valid : random.Valid) (calls : Nat) :
    (Random.advance^[calls] random).seed.toNat =
      (Lehmer.step (mersenne 31) 16807)^[calls] random.seed.toNat := by
  induction calls with
  | zero => rfl
  | succ calls inductionHypothesis =>
    rw [Function.iterate_succ_apply', Function.iterate_succ_apply',
      (valid.after calls).toNat_advance, inductionHypothesis]

/-- Every state is reached from every other one. -/
theorem reaches (valid : random.Valid) {target : Random} (goal : target.Valid) :
    ∃ calls, Random.advance^[calls] random = target := by
  have : Fact (mersenne 31).Prime := ⟨prime_modulus⟩
  obtain ⟨calls, reached⟩ := Lehmer.Residue.reaches orderOf_multiplier valid goal
  rw [← valid.toNat_after calls] at reached
  exact ⟨calls, congrArg Random.mk (UInt32.toNat_inj.mp reached)⟩

end Valid

/-- From any seed and after any number of calls, `Next` multiplies the state by `16807` modulo
`2 ^ 31 - 1`, on values that fit their types, and the state is neither zero nor the modulus. -/
theorem next_is_lehmer (s : UInt32) (calls : Nat) :
    let random := advance^[calls] (new s)
    random.next.2.seed.toNat = random.seed.toNat * 16807 % (2 ^ 31 - 1) ∧
      random.next.1 = random.next.2.seed ∧
      nextChecked random.seed.toNat = some random.next.2.seed.toNat ∧
      (1 ≤ random.seed.toNat ∧ random.seed.toNat ≤ 2 ^ 31 - 2) ∧
      (1 ≤ random.next.2.seed.toNat ∧ random.next.2.seed.toNat ≤ 2 ^ 31 - 2) ∧
      random.seed ≠ 0 ∧ random.seed ≠ M := by
  intro random
  have valid : random.Valid := (new_valid s).after calls
  have further : random.next.2.Valid := valid.advance
  have checked : nextChecked random.seed.toNat = some random.next.2.seed.toNat := by
    rw [nextChecked_eq valid.small, ← Random.toNat_advance valid.small]
    rfl
  refine ⟨valid.toNat_advance, rfl, checked, ⟨valid.pos, ?_⟩, ⟨further.pos, ?_⟩, ?_, ?_⟩
  · exact Nat.le_sub_one_of_lt valid.lt
  · exact Nat.le_sub_one_of_lt further.lt
  · intro isZero
    have positive : 0 < random.seed.toNat := valid.pos
    rw [isZero] at positive
    exact absurd positive (by decide)
  · intro isModulus
    have below : random.seed.toNat < mersenne 31 := valid.lt
    rw [isModulus] at below
    exact absurd below (by decide)

end Random

end LevelDbXy
