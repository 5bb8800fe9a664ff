import LevelDbXy.Log.Format

/-!
# The log reader

`log_reader/log_reader.cpp` over any `SequentialFile`. Offsets are `uint64_t`: they wrap.
The calls of `Reporter::Corruption` are kept in a list. `checksum_` is not
modelled, since no checksum is verified. The loop of `ReadRecord` runs on fuel, and
`none` says that the fuel has run out; the theorems give fuel that is enough.
-/

namespace LevelDbXy.Log

open Coding

/-- `SequentialFile`. -/
class SequentialFile (F : Type) where
  read : F → Nat → Status × Bytes × F
  skip : F → Nat → Status × F

/-- A file in memory. `Read` returns as many bytes as there are, `Skip` stops at the
end, and neither fails. -/
structure BytesFile where
  rest : Bytes
  deriving DecidableEq, Repr

instance : SequentialFile BytesFile where
  read file n := (.ok, file.rest.take n, ⟨file.rest.drop n⟩)
  skip file n := (.ok, ⟨file.rest.drop n⟩)

/-- Subtraction in `uint64_t`. -/
def subU64 (a b : Nat) : Nat := truncU64 (truncU64 a + (2 ^ 64 - truncU64 b))

/-- `Reader::kEof`. -/
def kEof : Nat := kMaxRecordType + 1

/-- `Reader::kBadRecord`. -/
def kBadRecord : Nat := kMaxRecordType + 2

/-- `Reader`, with the reports made so far. -/
structure Reader (F : Type) where
  file : F
  reporter : Bool
  buffer : Bytes
  eof : Bool
  lastRecordOffset : Nat
  endOfBufferOffset : Nat
  initialOffset : Nat
  resyncing : Bool
  reports : List (Nat × Status)
  deriving Repr

/-- The local variables of `ReadRecord`, and its `*scratch`. -/
structure ReadLocals where
  inFragmentedRecord : Bool
  prospectiveRecordOffset : Nat
  scratch : Bytes
  fragment : Bytes
  deriving DecidableEq, Repr

/-- How a round of the loop of `ReadRecord` ends. -/
inductive ReadStep (F : Type) where
  | next (reader : Reader F) (locals : ReadLocals)
  | found (reader : Reader F) (record : Bytes)
  | stop (reader : Reader F)

namespace Reader

variable {F : Type}

/-- `Reader::Reader`. -/
def new (file : F) (reporter : Bool) (initialOffset : Nat) : Reader F where
  file
  reporter
  buffer := []
  eof := false
  lastRecordOffset := 0
  endOfBufferOffset := 0
  initialOffset
  resyncing := 0 < initialOffset
  reports := []

/-- `Reader::ReportDrop`. -/
def reportDrop (reader : Reader F) (bytes : Nat) (reason : Status) : Reader F :=
  if reader.reporter && reader.initialOffset ≤
      subU64 (subU64 reader.endOfBufferOffset reader.buffer.length) bytes then
    { reader with reports := reader.reports ++ [(bytes, reason)] }
  else reader

/-- `Reader::ReportCorruption`. -/
def reportCorruption (reader : Reader F) (bytes : Nat) (reason : String) : Reader F :=
  reader.reportDrop bytes (.corruption reason)

/-- The offset of the header of a physical record just taken from the buffer. -/
def physicalRecordOffset (reader : Reader F) (length : Nat) : Nat :=
  subU64 (subU64 (subU64 reader.endOfBufferOffset reader.buffer.length) kHeaderSize) length

/-- `ReadPhysicalRecord` from the header in the buffer on. The result is the type
returned and what is left in `*result`. -/
def parseBuffer (reader : Reader F) (result : Bytes) : Nat × Bytes × Reader F :=
  let length := byteAt reader.buffer 5 <<< 8 ||| byteAt reader.buffer 4
  let type := byteAt reader.buffer 6
  if reader.buffer.length < kHeaderSize + length then
    let dropSize := reader.buffer.length
    let reader := { reader with buffer := [] }
    if !reader.eof then
      (kBadRecord, result, reader.reportCorruption dropSize "bad record length")
    -- the writer died in the middle of the record
    else (kEof, result, reader)
  else if type = RecordType.kZeroType.toNat ∧ length = 0 then
    (kBadRecord, result, { reader with buffer := [] })
  else
    let payload := (reader.buffer.drop kHeaderSize).take length
    let reader := { reader with buffer := reader.buffer.drop (kHeaderSize + length) }
    if reader.physicalRecordOffset length < reader.initialOffset then (kBadRecord, [], reader)
    else (type, payload, reader)

/-- `Reader::ReadPhysicalRecord`. Its loop runs at most twice: a read that leaves
fewer bytes than a header has set `eof_`. -/
def readPhysicalRecord [SequentialFile F] (reader : Reader F) (result : Bytes) :
    Nat × Bytes × Reader F :=
  if reader.buffer.length < kHeaderSize then
    if !reader.eof then
      let read := SequentialFile.read reader.file kBlockSize
      let reader := { reader with
        file := read.2.2
        buffer := read.2.1
        endOfBufferOffset := truncU64 (reader.endOfBufferOffset + read.2.1.length) }
      if !read.1.isOk then
        let reader := { reader with buffer := [] }.reportDrop kBlockSize read.1
        (kEof, result, { reader with eof := true })
      else
        let reader := { reader with eof := reader.buffer.length < kBlockSize }
        if reader.buffer.length < kHeaderSize then (kEof, result, { reader with buffer := [] })
        else reader.parseBuffer result
    else (kEof, result, { reader with buffer := [] })
  else reader.parseBuffer result

/-- The `switch` of `ReadRecord`. -/
def switchRecord (reader : Reader F) (locals : ReadLocals) (recordType : Nat)
    (physicalRecordOffset : Nat) : ReadStep F :=
  let dropped := locals.inFragmentedRecord && !locals.scratch.isEmpty
  if recordType = RecordType.kFullType.toNat then
    let reader :=
      if dropped then
        reader.reportCorruption locals.scratch.length "partial record without end(1)"
      else reader
    .found { reader with lastRecordOffset := physicalRecordOffset } locals.fragment
  else if recordType = RecordType.kFirstType.toNat then
    let reader :=
      if dropped then
        reader.reportCorruption locals.scratch.length "partial record without end(2)"
      else reader
    .next reader { locals with
      inFragmentedRecord := true
      prospectiveRecordOffset := physicalRecordOffset
      scratch := locals.fragment }
  else if recordType = RecordType.kMiddleType.toNat then
    if !locals.inFragmentedRecord then
      .next (reader.reportCorruption locals.fragment.length
        "missing start of fragmented record(1)") locals
    else .next reader { locals with scratch := locals.scratch ++ locals.fragment }
  else if recordType = RecordType.kLastType.toNat then
    if !locals.inFragmentedRecord then
      .next (reader.reportCorruption locals.fragment.length
        "missing start of fragmented record(2)") locals
    else
      .found { reader with lastRecordOffset := locals.prospectiveRecordOffset }
        (locals.scratch ++ locals.fragment)
  else if recordType = kEof then .stop reader
  else if recordType = kBadRecord then
    if locals.inFragmentedRecord then
      .next (reader.reportCorruption locals.scratch.length "error in middle of record")
        { locals with inFragmentedRecord := false, scratch := [] }
    else .next reader locals
  else
    .next (reader.reportCorruption
        (locals.fragment.length + if locals.inFragmentedRecord then locals.scratch.length else 0)
        ("unknown record type " ++ toString recordType))
      { locals with inFragmentedRecord := false, scratch := [] }

/-- One round of the loop of `ReadRecord`. -/
def readRecordStep [SequentialFile F] (reader : Reader F) (locals : ReadLocals) : ReadStep F :=
  let physical := reader.readPhysicalRecord locals.fragment
  let recordType := physical.1
  let locals := { locals with fragment := physical.2.1 }
  let reader := physical.2.2
  let offset := reader.physicalRecordOffset locals.fragment.length
  if reader.resyncing ∧ recordType = RecordType.kMiddleType.toNat then .next reader locals
  else if reader.resyncing ∧ recordType = RecordType.kLastType.toNat then
    .next { reader with resyncing := false } locals
  else { reader with resyncing := false }.switchRecord locals recordType offset

/-- The loop of `ReadRecord`: the record found, or nothing when it returns false. -/
def readRecordLoop [SequentialFile F] (fuel : Nat) (reader : Reader F) (locals : ReadLocals) :
    Option (Option Bytes × Reader F) :=
  match fuel with
  | 0 => none
  | fuel + 1 =>
    match reader.readRecordStep locals with
    | .next reader locals => readRecordLoop fuel reader locals
    | .found reader record => some (some record, reader)
    | .stop reader => some (none, reader)

/-- `Reader::SkipToInitialBlock`. -/
def skipToInitialBlock [SequentialFile F] (reader : Reader F) : Bool × Reader F :=
  let offsetInBlock := reader.initialOffset % kBlockSize
  let blockStart := reader.initialOffset - offsetInBlock
  let blockStart :=
    if kBlockSize - 6 < offsetInBlock then truncU64 (blockStart + kBlockSize) else blockStart
  let reader := { reader with endOfBufferOffset := blockStart }
  if 0 < blockStart then
    let skipped := SequentialFile.skip reader.file blockStart
    let reader := { reader with file := skipped.2 }
    if !skipped.1.isOk then (false, reader.reportDrop blockStart skipped.1) else (true, reader)
  else (true, reader)

/-- `Reader::ReadRecord`: the record, or nothing for false. -/
def readRecord [SequentialFile F] (fuel : Nat) (reader : Reader F) :
    Option (Option Bytes × Reader F) :=
  if reader.lastRecordOffset < reader.initialOffset then
    let skipped := reader.skipToInitialBlock
    if !skipped.1 then some (none, skipped.2)
    else readRecordLoop fuel skipped.2 ⟨false, 0, [], []⟩
  else readRecordLoop fuel reader ⟨false, 0, [], []⟩

/-- `ReadRecord` until it returns false: the records, each with the `LastRecordOffset` after
its call, and the reader at the end. -/
def readAll [SequentialFile F] (fuel : Nat) (reader : Reader F) :
    Option (List (Bytes × Nat) × Reader F) :=
  match fuel with
  | 0 => none
  | fuel + 1 => do
    let (result, reader) ← reader.readRecord fuel
    match result with
    | none => some ([], reader)
    | some record =>
      let (records, last) ← readAll fuel reader
      some ((record, reader.lastRecordOffset) :: records, last)

end Reader

end LevelDbXy.Log
