import LevelDbXy.Util.Coding
import LevelDbXy.Util.Status

/-!
# The log format

`log/log_format.h`: a log file is a sequence of 32768-byte blocks. A physical record is
a seven-byte header (a checksum that the writer leaves zero, a two-byte length and a
type) followed by its payload, and never crosses a block edge. Fewer than seven
bytes at the end of a block are a trailer of zeros.
-/

namespace LevelDbXy.Log

open Coding

/-- `ns_log::kBlockSize`. -/
def kBlockSize : Nat := 32768

/-- `ns_log::kHeaderSize`: checksum, length and type. -/
def kHeaderSize : Nat := 7

/-- `ns_log::RecordType`. -/
inductive RecordType where
  | kZeroType
  | kFullType
  | kFirstType
  | kMiddleType
  | kLastType
  deriving DecidableEq, Repr

namespace RecordType

/-- The enumerator's value. -/
def toNat : RecordType → Nat
  | kZeroType => 0
  | kFullType => 1
  | kFirstType => 2
  | kMiddleType => 3
  | kLastType => 4

/-- The type byte of a header. -/
def toByte (type : RecordType) : UInt8 := lowByte type.toNat

end RecordType

/-- `ns_log::kMaxRecordType`. -/
def kMaxRecordType : Nat := RecordType.kLastType.toNat

/-- The type that `AddRecord` gives a fragment, by whether it begins and whether it
ends its record. -/
def fragmentType (begin final : Bool) : RecordType :=
  if begin && final then .kFullType
  else if begin then .kFirstType
  else if final then .kLastType
  else .kMiddleType

/-- The header that `EmitPhysicalRecord` formats. -/
def header (type : UInt8) (length : Nat) : Bytes :=
  encodeFixed32 0 ++ [lowByte (length &&& 0xFF), lowByte (length >>> 8), type]

@[simp] theorem length_header (type : UInt8) (length : Nat) : (header type length).length = 7 := rfl

/-! ### Physical records in a file -/

/-- A physical record and the file offset of its header. -/
structure Fragment where
  offset : Nat
  type : UInt8
  payload : Bytes
  deriving DecidableEq, Repr

/-- The file offset behind a physical record. -/
def Fragment.finish (fragment : Fragment) : Nat :=
  fragment.offset + kHeaderSize + fragment.payload.length

/-- The header and the payload. -/
def Fragment.bytes (fragment : Fragment) : Bytes :=
  header fragment.type fragment.payload.length ++ fragment.payload

@[simp] theorem Fragment.length_bytes (fragment : Fragment) :
    fragment.bytes.length = 7 + fragment.payload.length := by
  simp [bytes]

/-- Where the header of a record written at `pos` stands: behind the trailer if there
is no room for a header in the block. -/
def headerOffset (pos : Nat) : Nat :=
  if kBlockSize - pos % kBlockSize < kHeaderSize then pos + (kBlockSize - pos % kBlockSize) else pos

/-- The two cases of `headerOffset`, with the constants written out. -/
theorem headerOffset_cases (pos : Nat) :
    pos % 32768 ≤ 32761 ∧ headerOffset pos = pos ∨
      32761 < pos % 32768 ∧ headerOffset pos = pos + (32768 - pos % 32768) := by
  unfold headerOffset
  by_cases short : kBlockSize - pos % kBlockSize < kHeaderSize
  · rw [if_pos short]
    simp only [kBlockSize, kHeaderSize] at short
    exact Or.inr ⟨by omega, rfl⟩
  · rw [if_neg short]
    simp only [kBlockSize, kHeaderSize] at short
    exact Or.inl ⟨by omega, rfl⟩

/-- A header is not put before the position. -/
theorem le_headerOffset (pos : Nat) : pos ≤ headerOffset pos := by
  rcases headerOffset_cases pos with ⟨-, equal⟩ | ⟨-, equal⟩ <;> omega

/-- A header has room in its block. -/
theorem headerOffset_mod_le (pos : Nat) :
    headerOffset pos % kBlockSize + kHeaderSize ≤ kBlockSize := by
  simp only [kBlockSize, kHeaderSize]
  rcases headerOffset_cases pos with ⟨room, equal⟩ | ⟨short, equal⟩ <;> omega

/-- The bytes of consecutive physical records from `pos` on, with the trailers. -/
def encode (pos : Nat) : List Fragment → Bytes
  | [] => []
  | fragment :: fragments =>
    List.replicate (fragment.offset - pos) 0 ++ (fragment.bytes ++ encode fragment.finish fragments)

/-- The file offset behind consecutive physical records. -/
def endOf (pos : Nat) : List Fragment → Nat
  | [] => pos
  | fragment :: fragments => endOf fragment.finish fragments

/-- The physical records stand where the format puts them, each inside its block. -/
def Placed (pos : Nat) : List Fragment → Prop
  | [] => True
  | fragment :: fragments => fragment.offset = headerOffset pos ∧
      fragment.offset % kBlockSize + kHeaderSize + fragment.payload.length ≤ kBlockSize ∧
      Placed fragment.finish fragments

/-- Physical records are encoded one after the other. -/
theorem encode_append (pos : Nat) (front back : List Fragment) :
    encode pos (front ++ back) = encode pos front ++ encode (endOf pos front) back := by
  induction front generalizing pos with
  | nil => rfl
  | cons fragment front inductionHypothesis =>
    simp [encode, endOf, inductionHypothesis]

/-- The first one is encoded first. -/
theorem encode_cons (pos : Nat) (fragment : Fragment) (fragments : List Fragment) :
    encode pos (fragment :: fragments) =
      encode pos [fragment] ++ encode fragment.finish fragments :=
  encode_append pos [fragment] fragments

@[simp] theorem endOf_append (pos : Nat) (front back : List Fragment) :
    endOf pos (front ++ back) = endOf (endOf pos front) back := by
  induction front generalizing pos with
  | nil => rfl
  | cons fragment front inductionHypothesis => exact inductionHypothesis _

/-- Physical records are placed if those in front are, and those behind from where these end. -/
theorem placed_append {pos : Nat} {front back : List Fragment} :
    Placed pos (front ++ back) ↔ Placed pos front ∧ Placed (endOf pos front) back := by
  induction front generalizing pos with
  | nil => simp [Placed, endOf]
  | cons fragment front inductionHypothesis =>
    simp [Placed, endOf, inductionHypothesis, and_assoc]

/-- Placed physical records take up the bytes up to their end. -/
theorem add_length_encode {pos : Nat} {fragments : List Fragment} (placed : Placed pos fragments) :
    pos + (encode pos fragments).length = endOf pos fragments := by
  induction fragments generalizing pos with
  | nil => rfl
  | cons fragment fragments inductionHypothesis =>
    obtain ⟨starts, -, others⟩ := placed
    have ordered := le_headerOffset pos
    have rest := inductionHypothesis others
    simp only [encode, endOf, List.length_append, List.length_replicate, Fragment.length_bytes]
    simp only [Fragment.finish, kHeaderSize] at rest ⊢
    omega

/-- So does the first of them. -/
theorem add_length_encode_singleton {pos : Nat} {fragment : Fragment} {fragments : List Fragment}
    (placed : Placed pos (fragment :: fragments)) :
    pos + (encode pos [fragment]).length = fragment.finish := by
  have first : Placed pos [fragment] := ⟨placed.1, placed.2.1, trivial⟩
  exact add_length_encode first

/-- They end behind where they begin. -/
theorem le_endOf {pos : Nat} {fragments : List Fragment} (placed : Placed pos fragments) :
    pos ≤ endOf pos fragments := by
  rw [← add_length_encode placed]
  omega

/-- Every physical record of a placed list lies between its ends. -/
theorem offset_bounds {pos : Nat} {fragments : List Fragment} (placed : Placed pos fragments)
    {fragment : Fragment} (member : fragment ∈ fragments) :
    pos ≤ fragment.offset ∧ fragment.finish ≤ endOf pos fragments := by
  induction fragments generalizing pos with
  | nil => cases member
  | cons first fragments inductionHypothesis =>
    obtain ⟨starts, -, others⟩ := placed
    have ordered := le_headerOffset pos
    have grows : first.offset ≤ first.finish := by
      rw [Fragment.finish]
      omega
    rcases List.mem_cons.mp member with rfl | later
    · exact ⟨by omega, le_endOf others⟩
    · obtain ⟨low, high⟩ := inductionHypothesis others later
      exact ⟨by omega, high⟩

end LevelDbXy.Log
