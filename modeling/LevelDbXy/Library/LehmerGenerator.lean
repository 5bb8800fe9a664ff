import Mathlib.FieldTheory.Finite.Basic
import Mathlib.NumberTheory.LucasLehmer

/-!
# Lehmer generators

Multiplication by a constant modulo a prime keeps to the residues other than zero, and
reaches each of them from each other if the order of the constant is the largest possible
(`Residue.reaches`). Modulo `2 ^ width - 1` no division is needed: the high part of a
number is added to its low part (`fold`), and one subtraction is enough for a product of two
residues (`reduce_eq_mod`). The subtraction may be left out on the modulus itself, which is
a multiple of the modulus and so never the result of a fold here.
-/

namespace Lehmer

/-! ### The recurrence -/

/-- A residue other than zero. -/
structure Residue (modulus value : Nat) : Prop where
  pos : 0 < value
  lt : value < modulus

/-- The next value. -/
def step (modulus multiplier value : Nat) : Nat := value * multiplier % modulus

variable {modulus multiplier value : Nat}

/-- A residue is not a multiple of the modulus. -/
theorem Residue.not_dvd (residue : Residue modulus value) : ¬ modulus ∣ value :=
  Nat.not_dvd_of_pos_of_lt residue.pos residue.lt

/-- A product of two numbers that the prime does not divide is not zero modulo the prime. -/
theorem Residue.not_dvd_mul (residue : Residue modulus value) (prime : modulus.Prime)
    (unit : ¬ modulus ∣ multiplier) : ¬ modulus ∣ value * multiplier := by
  rw [prime.dvd_mul]
  rintro (first | second)
  · exact residue.not_dvd first
  · exact unit second

/-- A step from a residue modulo a prime leads to a residue. -/
theorem Residue.kept (residue : Residue modulus value) (prime : modulus.Prime)
    (unit : ¬ modulus ∣ multiplier) : Residue modulus (step modulus multiplier value) where
  pos := Nat.emod_pos_of_not_dvd (residue.not_dvd_mul prime unit)
  lt := Nat.mod_lt _ prime.pos

/-- Steps multiply by a power of the multiplier. -/
theorem steps_eq (small : value < modulus) (count : Nat) :
    (step modulus multiplier)^[count] value = value * multiplier ^ count % modulus := by
  induction count with
  | zero => rw [Function.iterate_zero_apply, Nat.pow_zero, Nat.mul_one, Nat.mod_eq_of_lt small]
  | succ count inductionHypothesis =>
    rw [Function.iterate_succ_apply', inductionHypothesis, step, Nat.mod_mul_mod, Nat.pow_succ,
      Nat.mul_assoc]

/-- The powers of a multiplier of full order are all the units. -/
theorem exists_pow_eq [Fact modulus.Prime]
    (order : orderOf (multiplier : ZMod modulus) = modulus - 1) (unit : (ZMod modulus)ˣ) :
    ∃ count, (multiplier : ZMod modulus) ^ count = unit := by
  have prime : modulus.Prime := Fact.out
  have positive : modulus - 1 ≠ 0 := Nat.sub_ne_zero_of_lt prime.one_lt
  let generator : (ZMod modulus)ˣ :=
    Units.ofPowEqOne multiplier (modulus - 1) (order ▸ pow_orderOf_eq_one _) positive
  have all : Subgroup.zpowers generator = ⊤ := by
    apply Subgroup.eq_top_of_card_eq
    rw [Nat.card_zpowers, ← orderOf_units, Nat.card_eq_fintype_card, ZMod.card_units]
    exact order
  have member : unit ∈ Submonoid.powers generator := by
    rw [mem_powers_iff_mem_zpowers, all]
    exact Subgroup.mem_top unit
  obtain ⟨count, isPower⟩ := member
  exact ⟨count, congrArg Units.val isPower⟩

/-- A multiplier of full order leads from every residue to every other one. -/
theorem Residue.reaches {target : Nat} [Fact modulus.Prime]
    (order : orderOf (multiplier : ZMod modulus) = modulus - 1) (residue : Residue modulus value)
    (goal : Residue modulus target) :
    ∃ count, (step modulus multiplier)^[count] value = target := by
  have nonzero : ∀ {x : Nat}, Residue modulus x → (x : ZMod modulus) ≠ 0 := by
    intro x inside isZero
    exact inside.not_dvd ((ZMod.natCast_eq_zero_iff x modulus).mp isZero)
  obtain ⟨count, isPower⟩ := exists_pow_eq order
    (Units.mk0 (target / value : ZMod modulus) (div_ne_zero (nonzero goal) (nonzero residue)))
  refine ⟨count, ?_⟩
  have equal : ((value * multiplier ^ count : Nat) : ZMod modulus) = target := by
    rw [Nat.cast_mul, Nat.cast_pow, isPower]
    exact mul_div_cancel₀ _ (nonzero residue)
  rw [ZMod.natCast_eq_natCast_iff', Nat.mod_eq_of_lt goal.lt] at equal
  rw [steps_eq residue.lt, equal]

/-! ### Reduction without division -/

/-- The high part of a number is added to its low part. -/
def fold (width value : Nat) : Nat := (value >>> width) + (value &&& mersenne width)

/-- A fold, and a subtraction if that is greater than the modulus. -/
def reduce (width value : Nat) : Nat :=
  if mersenne width < fold width value then fold width value - mersenne width
  else fold width value

variable {width : Nat}

/-- A fold adds the high bits to the low ones. -/
theorem fold_eq (width value : Nat) : fold width value = value / 2 ^ width + value % 2 ^ width := by
  rw [fold, mersenne, Nat.shiftRight_eq_div_pow, Nat.and_two_pow_sub_one_eq_mod]

/-- A fold takes away multiples of the modulus. -/
theorem mersenne_mul_add_fold (width value : Nat) :
    mersenne width * (value / 2 ^ width) + fold width value = value := by
  have power : mersenne width + 1 = 2 ^ width := succ_mersenne width
  calc
    mersenne width * (value / 2 ^ width) + fold width value =
        (mersenne width + 1) * (value / 2 ^ width) + value % 2 ^ width := by
      rw [fold_eq]
      ring
    _ = value := by rw [power, Nat.div_add_mod]

/-- A fold does not change the residue. -/
theorem fold_mod (width value : Nat) :
    fold width value % mersenne width = value % mersenne width := by
  conv_rhs => rw [← mersenne_mul_add_fold width value, Nat.mul_add_mod]

/-- One fold leaves at most twice the modulus. -/
theorem fold_le (high : value / 2 ^ width ≤ mersenne width) :
    fold width value ≤ 2 * mersenne width := by
  have power : mersenne width + 1 = 2 ^ width := succ_mersenne width
  have low : value % 2 ^ width < 2 ^ width := Nat.mod_lt _ (Nat.two_pow_pos width)
  rw [fold_eq]
  omega

/-- One subtraction is enough, and none is missed on the modulus itself. -/
theorem reduce_eq_mod (high : value / 2 ^ width ≤ mersenne width)
    (notMultiple : ¬ mersenne width ∣ value) : reduce width value = value % mersenne width := by
  have bound := fold_le high
  have notZero : fold width value % mersenne width ≠ 0 := by
    rw [fold_mod]
    exact fun isZero => notMultiple (Nat.dvd_of_mod_eq_zero isZero)
  rw [reduce, ← fold_mod]
  generalize fold width value = folded at bound notZero ⊢
  split_ifs with above
  · have below : folded - mersenne width < mersenne width := by
      refine Nat.lt_of_le_of_ne (by omega) fun isModulus => notZero ?_
      have double : folded = 2 * mersenne width := by omega
      rw [double, Nat.mul_mod_left]
    rw [Nat.mod_eq_sub_mod above.le, Nat.mod_eq_of_lt below]
  · have notModulus : folded ≠ mersenne width := by
      rintro rfl
      exact notZero (Nat.mod_self _)
    rw [Nat.mod_eq_of_lt (by omega)]

end Lehmer
