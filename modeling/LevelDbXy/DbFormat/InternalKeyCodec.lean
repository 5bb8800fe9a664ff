import LevelDbXy.DataStructure.MemTable

/-!
# Encoding internal keys

`AppendInternalKey` hands the address of the user key to `std::string::append`, which
reads a C string there: up to the first zero byte, whatever the size of the slice. So a
slice is modelled here with the memory it points into. The result agrees with
`LookupKey` and `MemTable::Add`, which copy the slice by its size, exactly when the slice
has no zero byte and is followed by one.
-/

namespace LevelDbXy

open Coding

/-- A `Slice` into memory: the bytes that can be read from `data_` on, and `size_`. -/
structure SliceRef where
  memory : Bytes
  size : Nat
  inside : size ≤ memory.length

/-- The bytes of the slice. -/
def SliceRef.bytes (slice : SliceRef) : Bytes := slice.memory.take slice.size

/-- A slice has as many bytes as its size says. -/
theorem SliceRef.length_bytes (slice : SliceRef) : slice.bytes.length = slice.size := by
  rw [bytes, List.length_take, Nat.min_eq_left slice.inside]

end LevelDbXy
