import Mathlib.Logic.Function.Iterate
import Mathlib.Data.BitVec

/-!
# Linear feedback shift registers

A register of `width` bits that moves down one place and adds a polynomial when a one
falls out, over any width and polynomial. The step is linear in exclusive or
(`step_xor`), so any number of steps splits into those of the low `count` bits and the
rest moved down (`steps_split`). This is what makes tables of steps possible: the low
part is a table index, and the rest is one shift.
-/

namespace ShiftRegister

variable {width : Nat}

/-- One step of the register: the bit that falls out decides whether the polynomial is added. -/
def step (polynomial register : BitVec width) : BitVec width :=
  if register.getLsbD 0 then (register >>> 1) ^^^ polynomial else register >>> 1

variable (polynomial : BitVec width)

/-- A step is linear. -/
theorem step_xor (a b : BitVec width) :
    step polynomial (a ^^^ b) = step polynomial a ^^^ step polynomial b := by
  simp only [step, BitVec.getLsbD_xor, BitVec.ushiftRight_xor_distrib]
  cases a.getLsbD 0 <;> cases b.getLsbD 0
  · rfl
  · simp only [Bool.false_bne, if_true, Bool.false_eq_true, if_false]
    rw [BitVec.xor_assoc]
  · simp only [Bool.bne_false, if_true, Bool.false_eq_true, if_false]
    ac_rfl
  · -- Both ones fall out, and the polynomial is added twice.
    have cancelled : (a >>> 1 ^^^ polynomial) ^^^ (b >>> 1 ^^^ polynomial) =
        (a >>> 1 ^^^ b >>> 1) ^^^ (polynomial ^^^ polynomial) := by ac_rfl
    simp [cancelled]

/-- So are any number of steps. -/
theorem steps_xor (count : Nat) (a b : BitVec width) :
    (step polynomial)^[count] (a ^^^ b) =
      (step polynomial)^[count] a ^^^ (step polynomial)^[count] b := by
  induction count with
  | zero => rfl
  | succ count inductionHypothesis =>
    simp only [Function.iterate_succ_apply', inductionHypothesis, step_xor]

/-- Zero bits fall out without effect. -/
theorem steps_shiftLeft (count : Nat) (register : BitVec width) :
    (step polynomial)^[count] (register <<< count) = register <<< count >>> count := by
  have partway : ∀ done, done ≤ count →
      (step polynomial)^[done] (register <<< count) = register <<< count >>> done := by
    intro done
    induction done with
    | zero => simp
    | succ done inductionHypothesis =>
      intro bounded
      have falls : (register <<< count >>> done).getLsbD 0 = false := by
        rw [BitVec.getLsbD_ushiftRight, BitVec.getLsbD_shiftLeft]
        have above : ¬ count ≤ done := by omega
        simp [above]
      rw [Function.iterate_succ_apply', inductionHypothesis (by omega), step, falls]
      simp only [Bool.false_eq_true, if_false, BitVec.shiftRight_add]
  exact partway count (le_refl _)

/-- A register is its low bits and the others. -/
theorem split_low (count : Nat) (register : BitVec width) :
    register = (register &&& BitVec.ofNat width (2 ^ count - 1)) ^^^
      (register >>> count) <<< count := by
  apply BitVec.eq_of_getLsbD_eq
  intro index inside
  simp only [BitVec.getLsbD_xor, BitVec.getLsbD_and, BitVec.getLsbD_ofNat,
    BitVec.getLsbD_shiftLeft, BitVec.getLsbD_ushiftRight, Nat.testBit_two_pow_sub_one]
  by_cases low : index < count
  · simp [low, inside]
  · have restored : count + (index - count) = index := by omega
    simp [low, inside, restored]

/-- Moving down and up again and down loses nothing more. -/
theorem shiftRight_shiftLeft_shiftRight (count : Nat) (register : BitVec width) :
    (register >>> count) <<< count >>> count = register >>> count := by
  apply BitVec.eq_of_getLsbD_eq
  intro index inside
  simp only [BitVec.getLsbD_shiftLeft, BitVec.getLsbD_ushiftRight]
  by_cases top : count + index < width
  · have notLow : ¬ count + index < count := by omega
    have restored : count + (count + index - count) = count + index := by omega
    simp [top, notLow]
  · have outside : register.getLsbD (count + index) = false :=
      BitVec.getLsbD_of_ge register (count + index) (by omega)
    simp [top, outside]

/-- The steps of a register: those of its low bits, and the rest moved down. -/
theorem steps_split (count : Nat) (register : BitVec width) :
    (step polynomial)^[count] register =
      (step polynomial)^[count] (register &&& BitVec.ofNat width (2 ^ count - 1)) ^^^
        register >>> count := by
  have split := congrArg (step polynomial)^[count] (split_low count register)
  rw [steps_xor, steps_shiftLeft, shiftRight_shiftLeft_shiftRight] at split
  exact split

/-- `steps_split` with steps to follow. -/
theorem steps_add_split (later count : Nat) (register : BitVec width) :
    (step polynomial)^[later + count] register =
      (step polynomial)^[later + count] (register &&& BitVec.ofNat width (2 ^ count - 1)) ^^^
        (step polynomial)^[later] (register >>> count) := by
  rw [Function.iterate_add_apply, steps_split polynomial count, steps_xor,
    ← Function.iterate_add_apply]

/-- A word added at once is its low bits added now and the others after they moved down. -/
theorem steps_add_word (later count : Nat) (register word : BitVec width) :
    (step polynomial)^[later + count] (register ^^^ word) =
      (step polynomial)^[later] ((step polynomial)^[count]
        (register ^^^ (word &&& BitVec.ofNat width (2 ^ count - 1))) ^^^ word >>> count) := by
  rw [Function.iterate_add_apply, steps_xor, steps_split polynomial count word, ← BitVec.xor_assoc,
    ← steps_xor]

/-! ### Tables -/

/-- The values of a function at all indices of `bits` bits, built up by doubling as a linear
function allows. -/
def linearTable (f : BitVec width → BitVec width) : Nat → List (BitVec width)
  | 0 => [f 0]
  | bits + 1 =>
    linearTable f bits ++ (linearTable f bits).map (f (BitVec.ofNat width (2 ^ bits)) ^^^ ·)

/-- A power of two above an index is added without carries. -/
theorem ofNat_two_pow_add {bits index : Nat} (below : index < 2 ^ bits) :
    BitVec.ofNat width (2 ^ bits + index) =
      BitVec.ofNat width (2 ^ bits) ^^^ BitVec.ofNat width index := by
  have noCarry : 2 ^ bits + index = 2 ^ bits ||| index := by
    simpa using Nat.two_pow_add_eq_or_of_lt below 1
  apply BitVec.eq_of_getLsbD_eq
  intro place inside
  rw [noCarry, BitVec.getLsbD_xor, BitVec.getLsbD_ofNat, BitVec.getLsbD_ofNat,
    BitVec.getLsbD_ofNat, Nat.testBit_or, Nat.testBit_two_pow]
  by_cases top : bits = place
  · subst top
    simp [inside, Nat.testBit_lt_two_pow below]
  · simp [top]

/-- The table of a linear function lists its values on the indices. -/
theorem linearTable_eq {f : BitVec width → BitVec width}
    (linear : ∀ a b, f (a ^^^ b) = f a ^^^ f b) (bits : Nat) :
    linearTable f bits = (List.range (2 ^ bits)).map fun index => f (BitVec.ofNat width index) := by
  induction bits with
  | zero => rfl
  | succ bits inductionHypothesis =>
    have upper : ∀ index ∈ List.range (2 ^ bits),
        f (BitVec.ofNat width (2 ^ bits)) ^^^ f (BitVec.ofNat width index) =
          f (BitVec.ofNat width (2 ^ bits + index)) := by
      intro index member
      rw [ofNat_two_pow_add (List.mem_range.mp member), linear]
    rw [linearTable, inductionHypothesis, pow_succ, Nat.mul_two, List.range_add, List.map_append,
      List.map_map, List.map_map]
    exact congrArg _ (List.map_congr_left upper)

/-- An entry of such a table. -/
theorem linearTable_getD {f : BitVec width → BitVec width}
    (linear : ∀ a b, f (a ^^^ b) = f a ^^^ f b) {bits : Nat} {index : BitVec width}
    (inside : index.toNat < 2 ^ bits) : (linearTable f bits).getD index.toNat 0 = f index := by
  rw [linearTable_eq linear, List.getD_eq_getElem?_getD, List.getElem?_map,
    List.getElem?_range inside, Option.map_some, Option.getD_some, BitVec.ofNat_toNat,
    BitVec.setWidth_eq]

end ShiftRegister
