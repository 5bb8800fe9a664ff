import Mathlib.Data.List.Basic
import Mathlib.Data.List.GetD

/-!
# A flat memory

A memory has a cell at each address. A write changes the cells from its address on and no
other ones, so what is held at one place stays there through the writes to other places.
-/

namespace FlatMemory

variable {Cell : Type*} {memory other : Nat → Cell} {base size : Nat} {cells : List Cell}

/-- The cells from an address on. -/
def read (memory : Nat → Cell) (base size : Nat) : List Cell :=
  (List.range size).map fun offset => memory (base + offset)

/-- The cells from an address on are replaced. -/
def write (memory : Nat → Cell) (base : Nat) (cells : List Cell) : Nat → Cell := fun address =>
  if base ≤ address then cells.getD (address - base) (memory address) else memory address

/-- These cells are found at the address. -/
def Holds (memory : Nat → Cell) (base : Nat) (cells : List Cell) : Prop :=
  read memory base cells.length = cells

instance [DecidableEq Cell] (memory : Nat → Cell) (base : Nat) (cells : List Cell) :
    Decidable (Holds memory base cells) := inferInstanceAs (Decidable (_ = _))

@[simp] theorem length_read (memory : Nat → Cell) (base size : Nat) :
    (read memory base size).length = size := by simp [read]

/-- What is read depends on the cells read only. -/
theorem read_congr (agrees : ∀ address, base ≤ address → address < base + size →
    other address = memory address) : read other base size = read memory base size := by
  refine List.map_congr_left fun offset member => ?_
  have inside := List.mem_range.mp member
  exact agrees _ (by omega) (by omega)

/-- Cells one behind the other are read one after the other. -/
theorem read_add (memory : Nat → Cell) (base first second : Nat) :
    read memory base (first + second) =
      read memory base first ++ read memory (base + first) second := by
  rw [read, List.range_add, List.map_append, List.map_map]
  congr 1
  exact List.map_congr_left fun offset _ => by simp [Nat.add_assoc]

/-- What agrees on the cells holds the same. -/
theorem Holds.congr (holds : Holds memory base cells)
    (agrees : ∀ address, base ≤ address → address < base + cells.length →
      other address = memory address) : Holds other base cells :=
  (read_congr agrees).trans holds

/-- Cells one behind the other are found when both are. -/
theorem holds_append {first second : List Cell} :
    Holds memory base (first ++ second) ↔
      Holds memory base first ∧ Holds memory (base + first.length) second := by
  rw [Holds, List.length_append, read_add]
  constructor
  · exact fun same => List.append_inj same (length_read memory base first.length)
  · exact fun ⟨front, back⟩ => congrArg₂ (· ++ ·) front back

/-- A write changes no cell outside of its range. -/
theorem write_outside {address : Nat} (memory : Nat → Cell) (cells : List Cell)
    (outside : address < base ∨ base + cells.length ≤ address) :
    write memory base cells address = memory address := by
  unfold write
  split
  · exact List.getD_eq_default _ _ (by omega)
  · rfl

/-- What is written is held. -/
theorem holds_write (memory : Nat → Cell) (base : Nat) (cells : List Cell) :
    Holds (write memory base cells) base cells := by
  refine List.ext_getElem (by simp) fun index inside _ => ?_
  simp only [length_read] at inside
  simp [read, write, inside]

/-- What lies apart from a write is still held. -/
theorem Holds.write (holds : Holds memory base cells) {place : Nat} {written : List Cell}
    (apart : base + cells.length ≤ place ∨ place + written.length ≤ base) :
    Holds (write memory place written) base cells :=
  holds.congr fun _ low high => write_outside memory written (by omega)

/-- Writing one behind the other. -/
theorem write_behind (memory : Nat → Cell) {base place : Nat} {first : List Cell}
    (second : List Cell) (behind : place = base + first.length) :
    write (write memory base first) place second = write memory base (first ++ second) := by
  subst behind
  funext address
  unfold write
  by_cases low : base ≤ address
  · by_cases high : base + first.length ≤ address
    · rw [if_pos high, if_pos low, if_pos low, List.getD_append_right _ _ _ _ (by omega),
        List.getD_eq_default first _ (by omega), Nat.sub_add_eq]
    · rw [if_neg high, if_pos low, if_pos low, List.getD_append _ _ _ _ (by omega)]
  · rw [if_neg (by omega), if_neg low, if_neg low]

end FlatMemory
