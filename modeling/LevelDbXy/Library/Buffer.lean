import Mathlib.Data.List.Basic

/-!
# Buffers of which a first part is written

A buffer has a fixed number of cells, which hold nothing until they are written. Writing and
reading outside of the buffer, and reading a cell that was never written, is not possible.
A buffer that is written from its front is `filled`.
-/

namespace Buffer

variable {α : Type*}

/-- The cells from the offset on are written. -/
def write (buffer : List (Option α)) (offset : Nat) (values : List α) :
    Option (List (Option α)) :=
  if offset + values.length ≤ buffer.length then
    some (buffer.take offset ++ values.map some ++ buffer.drop (offset + values.length))
  else none

/-- Some cells from the offset on are read. -/
def read (buffer : List (Option α)) (offset size : Nat) : Option (List α) :=
  if offset + size ≤ buffer.length then ((buffer.drop offset).take size).mapM id else none

/-- A buffer that has been written up to some point. -/
def filled (values : List α) (room : Nat) : List (Option α) :=
  values.map some ++ List.replicate room none

@[simp] theorem length_filled (values : List α) (room : Nat) :
    (filled values room).length = values.length + room := by
  simp [filled]

/-- What is written where the written part ends extends it. -/
theorem write_filled (values more : List α) {room : Nat} (fits : more.length ≤ room) :
    write (filled values room) values.length more =
      some (filled (values ++ more) (room - more.length)) := by
  rw [write, if_pos (by rw [length_filled]; omega), filled, filled,
    List.take_left' (List.length_map ..), List.drop_append, List.drop_eq_nil_of_le (by simp),
    List.nil_append, List.length_map, Nat.add_sub_cancel_left, List.drop_replicate,
    List.map_append, List.append_assoc]

/-- What has been written everywhere can be read everywhere. -/
theorem mapM_id_map_some (values : List α) : (values.map some).mapM id = some values := by
  induction values with
  | nil => rfl
  | cons value values inductionHypothesis =>
    rw [List.map_cons, List.mapM_cons, inductionHypothesis]
    rfl

/-- What is read from the written part. -/
theorem read_filled (before values after : List α) (room : Nat) :
    read (filled (before ++ values ++ after) room) before.length values.length = some values := by
  rw [read, if_pos (by simp only [length_filled, List.length_append]; omega), filled,
    List.map_append, List.map_append, List.append_assoc, List.append_assoc,
    List.drop_left' (List.length_map ..), List.take_left' (List.length_map ..), mapM_id_map_some]

end Buffer
