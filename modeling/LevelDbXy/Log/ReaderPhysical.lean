import LevelDbXy.Log.Reader

/-!
# Reading physical records

The position of a reader in its file determines its buffer, what is left of the file,
the end-of-file flag and the offset of the end of the buffer: `Reader.At` says so. A call
of `ReadPhysicalRecord` at the position of an intact physical record returns it and
moves behind it; where the file ends before the end of the record, it returns
end-of-file and reports nothing.
-/

namespace LevelDbXy.Log

open Coding

/-! ### Headers -/

/-- The length and the type read back from a header. -/
theorem read_header (type : UInt8) {length : Nat} (rest : Bytes) (bounded : length < 65536) :
    byteAt (header type length ++ rest) 5 <<< 8 ||| byteAt (header type length ++ rest) 4 = length ∧
      byteAt (header type length ++ rest) 6 = type.toNat := by
  have low : byteAt (header type length ++ rest) 4 < 2 ^ 8 := byteAt_lt _ _
  refine ⟨?_, rfl⟩
  rw [Nat.or_comm, or_shiftLeft_eq_add 8 _ low]
  simp only [header, encodeFixed32, byteAt, List.cons_append, List.nil_append, List.getD_cons_zero,
    List.getD_cons_succ, toNat_lowByte, Nat.shiftRight_eq_div_pow,
    Nat.and_two_pow_sub_one_eq_mod _ 8]
  omega

/-! ### Offsets -/

/-- Taking back what was added, in `uint64_t`. -/
theorem subU64_add (a b : Nat) : subU64 (truncU64 (a + b)) b = truncU64 a := by
  simp only [subU64, truncU64]
  omega

/-! ### Positions -/

/-- The bytes from `pos` to the end of its block; none on a block edge. -/
def blockRest (pos : Nat) : Nat := (kBlockSize - pos % kBlockSize) % kBlockSize

/-- The fields that `ReadPhysicalRecord` only changes to report something. -/
structure Unmoved (before after : Reader BytesFile) : Prop where
  reporter : after.reporter = before.reporter
  lastRecordOffset : after.lastRecordOffset = before.lastRecordOffset
  initialOffset : after.initialOffset = before.initialOffset
  resyncing : after.resyncing = before.resyncing
  reports : after.reports = before.reports

/-- The reader stays where it is twice. -/
theorem Unmoved.trans {first second third : Reader BytesFile} (front : Unmoved first second)
    (back : Unmoved second third) : Unmoved first third where
  reporter := back.reporter.trans front.reporter
  lastRecordOffset := back.lastRecordOffset.trans front.lastRecordOffset
  initialOffset := back.initialOffset.trans front.initialOffset
  resyncing := back.resyncing.trans front.resyncing
  reports := back.reports.trans front.reports

namespace Reader

/-- The reader has consumed the first `pos` bytes of `file`. -/
structure At (file : Bytes) (pos : Nat) (reader : Reader BytesFile) : Prop where
  buffer : reader.buffer = (file.drop pos).take (blockRest pos)
  rest : reader.file.rest = file.drop (pos + blockRest pos)
  eof : reader.eof = decide (blockRest pos ≠ 0 ∧ file.length < pos + blockRest pos)
  offset : reader.endOfBufferOffset = truncU64 (pos + reader.buffer.length)

/-- The rest of the block of `pos` is in the buffer. -/
structure Loaded (file : Bytes) (pos : Nat) (reader : Reader BytesFile) : Prop where
  buffer : reader.buffer = (file.drop pos).take (kBlockSize - pos % kBlockSize)
  rest : reader.file.rest = file.drop (pos + (kBlockSize - pos % kBlockSize))
  eof : reader.eof = decide (file.length < pos + (kBlockSize - pos % kBlockSize))
  offset : reader.endOfBufferOffset = truncU64 (pos + reader.buffer.length)

variable {file : Bytes} {pos : Nat} {reader : Reader BytesFile}

/-- Inside a block the buffer is loaded already. -/
theorem At.loaded (standing : At file pos reader) (inside : pos % kBlockSize ≠ 0) :
    Loaded file pos reader := by
  have rest : blockRest pos = kBlockSize - pos % kBlockSize := by
    simp only [blockRest, kBlockSize] at *
    omega
  have positive : kBlockSize - pos % kBlockSize ≠ 0 := by
    simp only [kBlockSize]
    omega
  obtain ⟨buffer, left, eof, offset⟩ := standing
  rw [rest] at buffer left eof
  refine ⟨buffer, left, ?_, offset⟩
  simpa [positive] using eof

/-! ### Refilling the buffer -/

/-- The reader after reading the next block. -/
def refilled (reader : Reader BytesFile) : Reader BytesFile :=
  { reader with
    file := ⟨reader.file.rest.drop kBlockSize⟩
    buffer := reader.file.rest.take kBlockSize
    eof := (reader.file.rest.take kBlockSize).length < kBlockSize
    endOfBufferOffset :=
      truncU64 (reader.endOfBufferOffset + (reader.file.rest.take kBlockSize).length) }

/-- A new block does not move the reader. -/
theorem unmoved_refilled (reader : Reader BytesFile) : Unmoved reader reader.refilled :=
  ⟨rfl, rfl, rfl, rfl, rfl⟩

/-- With less than a header left the next block is read. -/
theorem readPhysicalRecord_refill (result : Bytes) (low : reader.buffer.length < kHeaderSize)
    (more : reader.eof = false) :
    reader.readPhysicalRecord result =
      if reader.refilled.buffer.length < kHeaderSize then
        (kEof, result, { reader.refilled with buffer := [] })
      else reader.refilled.parseBuffer result := by
  have read : reader.readPhysicalRecord result =
      if (reader.file.rest.take kBlockSize).length < kHeaderSize then
        (kEof, result, { reader.refilled with buffer := [] })
      else reader.refilled.parseBuffer result := by
    simp only [readPhysicalRecord, refilled, if_pos low, more, SequentialFile.read, Status.isOk,
      Bool.not_false, Bool.not_true, Bool.false_eq_true, if_true, if_false]
  exact read

/-- Unless the file has ended, a refill loads the next block. -/
theorem At.loaded_refilled (standing : At file pos reader)
    (more : blockRest pos = 0 ∨ pos + blockRest pos ≤ file.length) :
    Loaded file (pos + blockRest pos) reader.refilled := by
  have edge : (pos + blockRest pos) % kBlockSize = 0 := by
    simp only [blockRest, kBlockSize]
    omega
  have consumed : reader.buffer.length = blockRest pos := by
    rw [standing.buffer, List.length_take, List.length_drop]
    omega
  constructor <;> simp only [refilled, edge, Nat.sub_zero, standing.rest, List.drop_drop]
  · rw [List.length_take, List.length_drop, decide_eq_decide]
    simp only [kBlockSize]
    omega
  · rw [standing.offset, consumed]
    simp only [truncU64]
    omega

/-- With a whole header in the file, the header is parsed in its block. -/
theorem At.readPhysicalRecord_load (standing : At file pos reader) (result : Bytes)
    (enough : headerOffset pos + kHeaderSize ≤ file.length) :
    ∃ loaded, reader.readPhysicalRecord result = loaded.parseBuffer result ∧
      Loaded file (headerOffset pos) loaded ∧ Unmoved reader loaded := by
  have place := headerOffset_cases pos
  by_cases inside : pos % kBlockSize = 0 ∨ 32761 < pos % kBlockSize
  · -- nothing or only a trailer is left in the buffer
    have next : headerOffset pos = pos + blockRest pos := by
      simp only [blockRest, kBlockSize] at *
      omega
    have more : blockRest pos = 0 ∨ pos + blockRest pos ≤ file.length := by omega
    have low : reader.buffer.length < kHeaderSize := by
      rw [standing.buffer, List.length_take]
      simp only [blockRest, kBlockSize, kHeaderSize] at *
      omega
    have notEnded : reader.eof = false := by
      rw [standing.eof, decide_eq_false_iff_not]
      omega
    have loaded := standing.loaded_refilled more
    rw [← next] at loaded
    refine ⟨reader.refilled, ?_, loaded, unmoved_refilled reader⟩
    rw [readPhysicalRecord_refill result low notEnded, if_neg]
    rw [loaded.buffer, List.length_take, List.length_drop]
    have fits := headerOffset_mod_le pos
    omega
  · have same : headerOffset pos = pos := by
      simp only [kBlockSize] at *
      omega
    have loaded := standing.loaded (by omega)
    rw [same] at enough ⊢
    refine ⟨reader, ?_, loaded, ⟨rfl, rfl, rfl, rfl, rfl⟩⟩
    rw [Reader.readPhysicalRecord, if_neg]
    rw [loaded.buffer, List.length_take, List.length_drop]
    simp only [kBlockSize, kHeaderSize] at *
    omega

/-- Without a whole header in the file, the reader reports end-of-file. -/
theorem At.readPhysicalRecord_end (standing : At file pos reader) (result : Bytes)
    (short : file.length < headerOffset pos + kHeaderSize) :
    ∃ ended, reader.readPhysicalRecord result = (kEof, result, ended) ∧ Unmoved reader ended := by
  have place := headerOffset_cases pos
  have low : reader.buffer.length < kHeaderSize := by
    rw [standing.buffer, List.length_take, List.length_drop]
    simp only [blockRest, kBlockSize, kHeaderSize] at *
    omega
  cases ended : reader.eof with
  | true =>
    refine ⟨{ reader with buffer := [] }, ?_, ⟨rfl, rfl, rfl, rfl, rfl⟩⟩
    simp only [Reader.readPhysicalRecord, if_pos low, ended, Bool.not_true, Bool.false_eq_true,
      if_false]
  | false =>
    have more : blockRest pos = 0 ∨ pos + blockRest pos ≤ file.length := by
      have open_ := standing.eof
      rw [ended, eq_comm, decide_eq_false_iff_not] at open_
      omega
    have loaded := standing.loaded_refilled more
    refine ⟨{ reader.refilled with buffer := [] }, ?_, ⟨rfl, rfl, rfl, rfl, rfl⟩⟩
    rw [readPhysicalRecord_refill result low ended, if_pos]
    rw [loaded.buffer, List.length_take, List.length_drop]
    simp only [blockRest, kBlockSize, kHeaderSize] at *
    omega

/-! ### Parsing a header -/

/-- An intact physical record is taken from the buffer, and returned unless it starts
before the initial offset. -/
theorem Loaded.parseBuffer_record (loaded : Loaded file pos reader) (result : Bytes) {type : UInt8}
    {payload tail : Bytes}
    (bytes : file.drop pos = header type payload.length ++ (payload ++ tail))
    (fits : pos % kBlockSize + kHeaderSize + payload.length ≤ kBlockSize)
    (nonzero : ¬ (type = 0 ∧ payload = [])) :
    ∃ after, reader.parseBuffer result =
        (if truncU64 pos < reader.initialOffset then (kBadRecord, [], after)
          else (type.toNat, payload, after)) ∧
      At file (pos + kHeaderSize + payload.length) after ∧ Unmoved reader after := by
  have inBlock := Nat.mod_lt pos (show 0 < kBlockSize by decide)
  have length : payload.length < 65536 := by
    simp only [kBlockSize] at fits
    omega
  have size : file.length = pos + (7 + (payload.length + tail.length)) := by
    have sizes := congrArg List.length bytes
    simp only [List.length_drop, List.length_append, length_header] at sizes
    omega
  -- what is left of the block behind the record
  obtain ⟨more, left, edge⟩ : ∃ more,
      blockRest (pos + kHeaderSize + payload.length) = more ∧
        kBlockSize - pos % kBlockSize = 7 + payload.length + more := by
    refine ⟨_, rfl, ?_⟩
    simp only [blockRest, kBlockSize, kHeaderSize] at *
    omega
  have buffer : reader.buffer = header type payload.length ++ (payload ++ tail.take more) := by
    rw [loaded.buffer, bytes, List.take_append, List.take_append, length_header,
      List.take_of_length_le (by rw [length_header]; omega), List.take_of_length_le (by omega),
      edge]
    congr 3
    omega
  obtain ⟨lengthRead, typeRead⟩ := read_header type (payload ++ tail.take more) length
  have behind : file.drop (pos + kHeaderSize + payload.length) = tail := by
    rw [Nat.add_assoc, ← List.drop_drop, bytes, ← List.append_assoc]
    exact List.drop_left' (by simp [kHeaderSize])
  have rest : (header type payload.length ++ (payload ++ tail.take more)).drop
      (kHeaderSize + payload.length) = tail.take more := by
    rw [← List.append_assoc]
    exact List.drop_left' (by simp [kHeaderSize])
  have data : ((header type payload.length ++ (payload ++ tail.take more)).drop kHeaderSize).take
      payload.length = payload := by
    rw [kHeaderSize, List.drop_left' (length_header _ _), List.take_left]
  have whole : ¬ (header type payload.length ++ (payload ++ tail.take more)).length <
      kHeaderSize + payload.length := by
    simp only [List.length_append, length_header, kHeaderSize]
    omega
  have known : ¬ (type.toNat = RecordType.kZeroType.toNat ∧ payload.length = 0) := by
    rintro ⟨zeroType, zeroLength⟩
    exact nonzero ⟨UInt8.toNat_inj.mp zeroType, List.length_eq_zero_iff.mp zeroLength⟩
  refine ⟨{ reader with buffer := tail.take more }, ?_, ?_, ⟨rfl, rfl, rfl, rfl, rfl⟩⟩
  · have offset : ({ reader with buffer := tail.take more } :
        Reader BytesFile).physicalRecordOffset payload.length = truncU64 pos := by
      have behindBuffer : pos + reader.buffer.length =
          pos + payload.length + kHeaderSize + (tail.take more).length := by
        rw [buffer]
        simp only [List.length_append, length_header, kHeaderSize]
        omega
      rw [physicalRecordOffset, loaded.offset, behindBuffer, subU64_add, subU64_add, subU64_add]
    simp only [parseBuffer, buffer, lengthRead, typeRead, if_neg whole, if_neg known, rest, data,
      offset]
  · constructor
    · rw [left, behind]
    · rw [left]
      change reader.file.rest = _
      rw [loaded.rest, edge]
      congr 1
      simp only [kHeaderSize]
      omega
    · rw [left]
      change reader.eof = _
      rw [loaded.eof, edge, decide_eq_decide]
      simp only [kHeaderSize]
      omega
    · change reader.endOfBufferOffset = _
      rw [loaded.offset, buffer]
      congr 1
      simp only [List.length_append, length_header, kHeaderSize]
      omega

/-- A record whose payload the file does not hold in full is taken for the end of
the file. -/
theorem Loaded.parseBuffer_truncated (loaded : Loaded file pos reader) (result : Bytes)
    {type : UInt8} {length : Nat} {payload : Bytes}
    (bytes : file.drop pos = header type length ++ payload) (cut : payload.length < length)
    (fits : pos % kBlockSize + kHeaderSize + length ≤ kBlockSize) :
    ∃ after, reader.parseBuffer result = (kEof, result, after) ∧ Unmoved reader after := by
  have bounded : length < 65536 := by
    simp only [kBlockSize] at fits
    omega
  have size : file.length ≤ pos + (7 + payload.length) := by
    have sizes := congrArg List.length bytes
    simp only [List.length_drop, List.length_append, length_header] at sizes
    omega
  have buffer : reader.buffer = header type length ++ payload := by
    rw [loaded.buffer, bytes, List.take_of_length_le]
    simp only [List.length_append, length_header, kHeaderSize] at *
    omega
  have ended : reader.eof = true := by
    rw [loaded.eof, decide_eq_true_iff]
    simp only [kHeaderSize] at fits
    omega
  obtain ⟨lengthRead, -⟩ := read_header type payload bounded
  have short : (header type length ++ payload).length < kHeaderSize + length := by
    simp only [List.length_append, length_header, kHeaderSize]
    omega
  refine ⟨{ reader with buffer := [] }, ?_, ⟨rfl, rfl, rfl, rfl, rfl⟩⟩
  simp only [parseBuffer, buffer, lengthRead, if_pos short, ended, Bool.not_true,
    Bool.false_eq_true, if_false]

/-! ### Physical records at a position -/

/-- The bytes from the header of a fragment on. -/
theorem drop_offset {fragment : Fragment} {tail : Bytes} (placed : Placed pos [fragment])
    (bytes : file.drop pos = encode pos [fragment] ++ tail) :
    file.drop fragment.offset =
      header fragment.type fragment.payload.length ++ (fragment.payload ++ tail) := by
  have ordered := le_headerOffset pos
  have split : fragment.offset = pos + (fragment.offset - pos) := by
    have starts := placed.1
    omega
  rw [split, ← List.drop_drop, bytes]
  simp [encode, Fragment.bytes]

/-- `ReadPhysicalRecord` on an intact physical record. -/
theorem At.readPhysicalRecord_fragment (standing : At file pos reader) (result : Bytes)
    {fragment : Fragment} {tail : Bytes} (placed : Placed pos [fragment])
    (bytes : file.drop pos = encode pos [fragment] ++ tail)
    (nonzero : ¬ (fragment.type = 0 ∧ fragment.payload = [])) :
    ∃ after, reader.readPhysicalRecord result =
        (if truncU64 fragment.offset < reader.initialOffset then (kBadRecord, [], after)
          else (fragment.type.toNat, fragment.payload, after)) ∧
      At file fragment.finish after ∧ Unmoved reader after := by
  have behind := drop_offset placed bytes
  obtain ⟨starts, fits, -⟩ := placed
  have enough : headerOffset pos + kHeaderSize ≤ file.length := by
    have sizes := congrArg List.length behind
    simp only [List.length_drop, List.length_append, length_header, kHeaderSize] at *
    omega
  obtain ⟨loaded, parsed, atHeader, unmoved⟩ := standing.readPhysicalRecord_load result enough
  rw [← starts] at atHeader
  obtain ⟨after, record, standingAfter, unmovedAfter⟩ :=
    atHeader.parseBuffer_record result behind fits nonzero
  rw [unmoved.initialOffset] at record
  exact ⟨after, parsed.trans record, standingAfter, unmoved.trans unmovedAfter⟩

/-- At `pos` the reader finds the end of the file and nothing to report. -/
def EndsAt (file : Bytes) (pos : Nat) : Prop :=
  ∀ reader, At file pos reader → ∀ result,
    ∃ ended, reader.readPhysicalRecord result = (kEof, result, ended) ∧ Unmoved reader ended

/-- At the end of the file the log ends. -/
theorem endsAt_of_length_le (ended : file.length ≤ pos) : EndsAt file pos := by
  intro reader standing result
  refine standing.readPhysicalRecord_end result ?_
  have ordered := le_headerOffset pos
  simp only [kHeaderSize]
  omega

/-- A file that ends inside a physical record ends there for the reader. -/
theorem endsAt_of_cut {fragment : Fragment} {n : Nat} (placed : Placed pos [fragment])
    (bytes : file.drop pos = (encode pos [fragment]).take n)
    (cut : pos + n < fragment.finish) : EndsAt file pos := by
  intro reader standing result
  rcases Nat.lt_or_ge file.length (headerOffset pos + kHeaderSize) with short | enough
  · exact standing.readPhysicalRecord_end result short
  obtain ⟨starts, fits, -⟩ := placed
  have ordered := le_headerOffset pos
  have size : file.length ≤ pos + n := by
    have sizes := congrArg List.length bytes
    simp only [List.length_drop, List.length_take] at sizes
    omega
  have behind : file.drop fragment.offset = header fragment.type fragment.payload.length ++
      fragment.payload.take (n - (fragment.offset - pos) - 7) := by
    have split : fragment.offset = pos + (fragment.offset - pos) := by omega
    rw [split, ← List.drop_drop, bytes, List.drop_take]
    simp only [encode, Fragment.bytes, List.append_nil]
    rw [List.drop_left' (List.length_replicate ..), List.take_append, length_header,
      List.take_of_length_le (by rw [length_header]; simp only [kHeaderSize] at enough; omega)]
    congr 2
    omega
  obtain ⟨loaded, parsed, atHeader, unmoved⟩ := standing.readPhysicalRecord_load result enough
  rw [← starts] at atHeader
  obtain ⟨after, record, unmovedAfter⟩ := atHeader.parseBuffer_truncated result behind (by
    rw [List.length_take]
    simp only [Fragment.finish, kHeaderSize] at *
    omega) fits
  exact ⟨after, parsed.trans record, unmoved.trans unmovedAfter⟩

end Reader

end LevelDbXy.Log
