import LevelDbXy.Log.Assembly

/-!
# The log reader on arbitrary bytes

No assumption is made about the contents of the file. The unread bytes of the reader
(`remaining`) are the measure: a physical record, whatever its header says, takes at
least a header from them, and where the bytes end the reader stops. The same measure
locates every record, since the offset of a physical record is the size of the file
less the bytes that were unread before it.
-/

namespace LevelDbXy.Log

open Coding

/-- `Slice::remove_prefix`; `none` is a prefix longer than the slice. -/
def removePrefix (buffer : Bytes) (n : Nat) : Option Bytes :=
  if n ≤ buffer.length then some (buffer.drop n) else none

namespace Reader

section Checked

variable {F : Type}

/-- `ReadPhysicalRecord` from the header in the buffer on, with its accesses to the buffer
checked: `none` is an access outside. -/
def parseBufferChecked (reader : Reader F) (result : Bytes) : Option (Nat × Bytes × Reader F) :=
  (reader.buffer[5]?).bind fun high =>
  (reader.buffer[4]?).bind fun low =>
  (reader.buffer[6]?).bind fun type =>
    let length := high.toNat <<< 8 ||| low.toNat
    if reader.buffer.length < kHeaderSize + length then
      let dropSize := reader.buffer.length
      let reader := { reader with buffer := [] }
      if !reader.eof then
        some (kBadRecord, result, reader.reportCorruption dropSize "bad record length")
      else some (kEof, result, reader)
    else if type.toNat = RecordType.kZeroType.toNat ∧ length = 0 then
      some (kBadRecord, result, { reader with buffer := [] })
    else
      let payload := (reader.buffer.drop kHeaderSize).take length
      (removePrefix reader.buffer (kHeaderSize + length)).bind fun rest =>
        let reader := { reader with buffer := rest }
        if reader.physicalRecordOffset length < reader.initialOffset then
          some (kBadRecord, [], reader)
        else some (type.toNat, payload, reader)

/-- `ReadPhysicalRecord` as the loop the source writes: `none` is an access outside the
buffer, or a loop that goes on after `fuel` rounds. -/
def readPhysicalRecordChecked [SequentialFile F] (fuel : Nat) (reader : Reader F) (result : Bytes) :
    Option (Nat × Bytes × Reader F) :=
  match fuel with
  | 0 => none
  | fuel + 1 =>
    if reader.buffer.length < kHeaderSize then
      if !reader.eof then
        let read := SequentialFile.read reader.file kBlockSize
        let reader := { reader with
          file := read.2.2
          buffer := read.2.1
          endOfBufferOffset := truncU64 (reader.endOfBufferOffset + read.2.1.length) }
        if !read.1.isOk then
          let reader := { reader with buffer := [] }.reportDrop kBlockSize read.1
          some (kEof, result, { reader with eof := true })
        else if reader.buffer.length < kBlockSize then
          readPhysicalRecordChecked fuel { reader with eof := true } result
        else readPhysicalRecordChecked fuel reader result
      else some (kEof, result, { reader with buffer := [] })
    else reader.parseBufferChecked result

/-- With a whole header in the buffer, every access is inside it. -/
theorem parseBufferChecked_eq {reader : Reader F} (result : Bytes)
    (whole : ¬ reader.buffer.length < kHeaderSize) :
    reader.parseBufferChecked result = some (reader.parseBuffer result) := by
  have read : ∀ index, index < 7 →
      ∃ byte, reader.buffer[index]? = some byte ∧ byteAt reader.buffer index = byte.toNat := by
    intro index inside
    have bound : index < reader.buffer.length := by
      simp only [kHeaderSize] at whole
      omega
    refine ⟨_, List.getElem?_eq_getElem bound, ?_⟩
    rw [byteAt, List.getD_eq_getElem?_getD, List.getElem?_eq_getElem bound, Option.getD_some]
  obtain ⟨low, lowRead, lowEq⟩ := read 4 (by decide)
  obtain ⟨high, highRead, highEq⟩ := read 5 (by decide)
  obtain ⟨type, typeRead, typeEq⟩ := read 6 (by decide)
  rw [parseBufferChecked, highRead, Option.bind_some, lowRead, Option.bind_some, typeRead,
    Option.bind_some, parseBuffer, lowEq, highEq, typeEq]
  obtain ⟨length, lengthEq⟩ : ∃ length, length = high.toNat <<< 8 ||| low.toNat := ⟨_, rfl⟩
  dsimp only
  rw [← lengthEq]
  by_cases short : reader.buffer.length < kHeaderSize + length
  · rw [if_pos short, if_pos short, apply_ite some]
  · have removed : removePrefix reader.buffer (kHeaderSize + length) =
        some (reader.buffer.drop (kHeaderSize + length)) := by
      rw [removePrefix, if_pos (by omega)]
    rw [if_neg short, if_neg short, removed, Option.bind_some, apply_ite some, apply_ite some]

/-- A round on a block just read is the last one: too few bytes for a header have set `eof_`. -/
theorem readPhysicalRecordChecked_last [SequentialFile F] (fuel : Nat) (reader : Reader F)
    (result : Bytes) (flagged : reader.buffer.length < kHeaderSize → reader.eof = true) :
    reader.readPhysicalRecordChecked (fuel + 1) result =
      some (if reader.buffer.length < kHeaderSize then (kEof, result, { reader with buffer := [] })
        else reader.parseBuffer result) := by
  rw [readPhysicalRecordChecked]
  by_cases low : reader.buffer.length < kHeaderSize
  · rw [if_pos low, if_pos low, flagged low]
    rfl
  · rw [if_neg low, if_neg low, parseBufferChecked_eq result low]

/-- Two rounds of the loop are enough, and no access is outside the buffer. -/
theorem readPhysicalRecordChecked_eq [SequentialFile F] {fuel : Nat} (enough : 2 ≤ fuel)
    (reader : Reader F) (result : Bytes) :
    reader.readPhysicalRecordChecked fuel result = some (reader.readPhysicalRecord result) := by
  obtain ⟨rounds, rfl⟩ : ∃ rounds, fuel = rounds + 2 := ⟨fuel - 2, by omega⟩
  rw [readPhysicalRecordChecked, readPhysicalRecord]
  by_cases low : reader.buffer.length < kHeaderSize
  · rw [if_pos low, if_pos low]
    cases ended : reader.eof with
    | true => rfl
    | false =>
      dsimp only
      generalize SequentialFile.read reader.file kBlockSize = read
      generalize truncU64 (reader.endOfBufferOffset + read.2.1.length) = offset
      cases read.1.isOk with
      | false => rfl
      | true =>
        simp only [Bool.not_true, Bool.not_false, Bool.false_eq_true, if_true, if_false]
        by_cases short : read.2.1.length < kBlockSize
        · rw [if_pos short, readPhysicalRecordChecked_last _ _ _ fun _ => rfl]
          simp only [short, decide_true]
        · have notLow : ¬ read.2.1.length < kHeaderSize := by
            simp only [kBlockSize, kHeaderSize] at *
            omega
          rw [if_neg short, readPhysicalRecordChecked_last _ _ _ fun low => absurd low notLow]
          simp only [short, decide_false]
  · rw [if_neg low, if_neg low]
    exact parseBufferChecked_eq result low

end Checked

/-! ### Unread bytes -/

/-- The bytes the reader has not consumed. -/
def remaining (reader : Reader BytesFile) : Nat :=
  reader.buffer.length + reader.file.rest.length

/-- The reader is inside a file of `size` bytes: while bytes are left, the end of its buffer
is where the file says. -/
structure Within (size : Nat) (reader : Reader BytesFile) : Prop where
  fits : reader.remaining ≤ size
  offset : 0 < reader.remaining → reader.endOfBufferOffset + reader.file.rest.length = size

/-- What consuming a physical record leaves. -/
structure Advanced (size : Nat) (before after : Reader BytesFile) : Prop where
  within : Within size after
  initialOffset : after.initialOffset = before.initialOffset
  progress : after.remaining + kHeaderSize ≤ before.remaining

/-- An offset inside the file, not before the initial offset, at most a header before the
unread bytes of one reader and not before those of another. -/
structure Located (size initial : Nat) (before after offset : Nat) : Prop where
  notBefore : initial ≤ offset
  headerFits : offset + kHeaderSize + after ≤ size
  later : size ≤ offset + before

variable {size : Nat} {reader before after : Reader BytesFile}

/-- A report changes nothing but the reports. -/
theorem reportDrop_eq (reader : Reader BytesFile) (bytes : Nat) (reason : Status) :
    ∃ reports, reader.reportDrop bytes reason = { reader with reports := reports } := by
  rw [reportDrop]
  split_ifs
  · exact ⟨_, rfl⟩
  · exact ⟨reader.reports, rfl⟩

@[simp] theorem remaining_reportCorruption (reader : Reader BytesFile) (bytes : Nat)
    (reason : String) : (reader.reportCorruption bytes reason).remaining = reader.remaining := by
  obtain ⟨reports, same⟩ := reportDrop_eq reader bytes (.corruption reason)
  rw [reportCorruption, same]
  rfl

/-- What was consumed does not depend on the other fields of the reader. -/
theorem Advanced.congr {other : Reader BytesFile} (advanced : Advanced size before after)
    (buffer : other.buffer = after.buffer) (file : other.file = after.file)
    (endOfBufferOffset : other.endOfBufferOffset = after.endOfBufferOffset)
    (initialOffset : other.initialOffset = after.initialOffset) : Advanced size before other := by
  have same : other.remaining = after.remaining := by rw [remaining, buffer, file, remaining]
  obtain ⟨⟨fits, offset⟩, kept, progress⟩ := advanced
  rw [← same] at fits offset progress
  rw [← file, ← endOfBufferOffset] at offset
  exact ⟨⟨fits, offset⟩, initialOffset.trans kept, progress⟩

/-- Reports change nothing that reading depends on. -/
theorem Advanced.reported (advanced : Advanced size before after) (bytes : Nat)
    (reason : String) : Advanced size before (after.reportCorruption bytes reason) := by
  obtain ⟨reports, same⟩ := reportDrop_eq after bytes (.corruption reason)
  rw [reportCorruption, same]
  exact advanced.congr rfl rfl rfl rfl

/-- A reader that gives up its buffer is still inside the file. -/
theorem Within.cleared (within : Within size reader) :
    Within size { reader with buffer := [] } := by
  obtain ⟨fits, offset⟩ := within
  simp only [remaining] at *
  exact ⟨by simp only [remaining, List.length_nil]; omega,
    fun left => offset (by simp only [remaining, List.length_nil] at left ⊢; omega)⟩

/-- The offset computed for a record just taken from the buffer, without wrapping. -/
theorem physicalRecordOffset_eq {length : Nat} (small : size < 2 ^ 64)
    (offset : reader.endOfBufferOffset + reader.file.rest.length = size)
    (inside : reader.remaining + kHeaderSize + length ≤ size) :
    reader.physicalRecordOffset length + kHeaderSize + length + reader.remaining = size := by
  have ends : reader.endOfBufferOffset = truncU64
      (size - reader.remaining - kHeaderSize - length + length + kHeaderSize +
        reader.buffer.length) := by
    rw [truncU64, Nat.mod_eq_of_lt (by simp only [remaining] at *; omega)]
    simp only [remaining] at *
    omega
  rw [physicalRecordOffset, ends, subU64_add, subU64_add, subU64_add, truncU64,
    Nat.mod_eq_of_lt (by omega)]
  omega

/-- What `ReadPhysicalRecord` does with any header: it ends, or it consumes at least the
header; a record it returns is located where it was found. -/
structure Taken (size : Nat) (before : Reader BytesFile)
    (physical : Nat × Bytes × Reader BytesFile) : Prop where
  advanced : physical.1 ≠ kEof → Advanced size before physical.2.2
  located : physical.1 ≠ kEof → physical.1 ≠ kBadRecord →
    Located size before.initialOffset before.remaining physical.2.2.remaining
      (physical.2.2.physicalRecordOffset physical.2.1.length)

/-- A physical record is taken from the buffer. -/
theorem Within.parseBuffer_taken (within : Within size reader) (small : size < 2 ^ 64)
    (result : Bytes) (whole : ¬ reader.buffer.length < kHeaderSize) :
    Taken size reader (reader.parseBuffer result) := by
  have left : 0 < reader.remaining := by
    simp only [remaining, kHeaderSize] at *
    omega
  have cleared : Advanced size reader { reader with buffer := [] } := by
    refine ⟨within.cleared, rfl, ?_⟩
    simp only [remaining, List.length_nil, kHeaderSize] at *
    omega
  rw [parseBuffer]
  dsimp only
  generalize byteAt reader.buffer 5 <<< 8 ||| byteAt reader.buffer 4 = length
  split_ifs with short going zero early
  · exact ⟨fun _ => cleared.reported _ _, fun _ bad => absurd rfl bad⟩
  · exact ⟨fun going => absurd rfl going, fun going => absurd rfl going⟩
  · exact ⟨fun _ => cleared, fun _ bad => absurd rfl bad⟩
  all_goals
    have consumed : ({ reader with buffer := reader.buffer.drop (kHeaderSize + length) } :
        Reader BytesFile).remaining + kHeaderSize + length = reader.remaining := by
      simp only [remaining, List.length_drop] at *
      omega
    have advanced : Advanced size reader
        { reader with buffer := reader.buffer.drop (kHeaderSize + length) } :=
      ⟨⟨by have fits := within.fits; omega, fun _ => within.offset left⟩, rfl, by omega⟩
  · exact ⟨fun _ => advanced, fun _ bad => absurd rfl bad⟩
  · refine ⟨fun _ => advanced, fun _ _ => ?_⟩
    have payload : ((reader.buffer.drop kHeaderSize).take length).length = length := by
      rw [List.length_take, List.length_drop]
      omega
    have found := @physicalRecordOffset_eq size
      { reader with buffer := reader.buffer.drop (kHeaderSize + length) } length small
      (within.offset left) (by have fits := within.fits; omega)
    dsimp only
    rw [payload]
    exact ⟨by omega, by omega, by omega⟩

/-- Reading the next block keeps the reader inside the file. -/
theorem Within.refilled (within : Within size reader) (small : size < 2 ^ 64) :
    Within size reader.refilled ∧ reader.refilled.remaining ≤ reader.remaining := by
  have kept : reader.refilled.remaining = reader.file.rest.length := by
    simp only [remaining, Reader.refilled, List.length_take, List.length_drop]
    omega
  have fits := within.fits
  have less : reader.refilled.remaining ≤ reader.remaining := by
    rw [kept, remaining]
    omega
  refine ⟨⟨by omega, fun left => ?_⟩, less⟩
  have offset := within.offset (by omega)
  simp only [Reader.refilled, List.length_take, List.length_drop, truncU64]
  omega

/-- A physical record is taken from what is left of the file. -/
theorem Within.readPhysicalRecord_taken (within : Within size reader) (small : size < 2 ^ 64)
    (result : Bytes) : Taken size reader (reader.readPhysicalRecord result) := by
  by_cases low : reader.buffer.length < kHeaderSize
  · cases ended : reader.eof with
    | true =>
      simp only [readPhysicalRecord, if_pos low, ended, Bool.not_true, Bool.false_eq_true, if_false]
      exact ⟨fun going => absurd rfl going, fun going => absurd rfl going⟩
    | false =>
      rw [readPhysicalRecord_refill result low ended]
      split_ifs with short
      · exact ⟨fun going => absurd rfl going, fun going => absurd rfl going⟩
      · obtain ⟨inside, less⟩ := within.refilled small
        obtain ⟨advanced, located⟩ := inside.parseBuffer_taken small result short
        refine ⟨fun going => ?_, fun going good => ?_⟩
        · obtain ⟨after, initialOffset, progress⟩ := advanced going
          exact ⟨after, initialOffset, by omega⟩
        · obtain ⟨notBefore, headerFits, later⟩ := located going good
          exact ⟨notBefore, headerFits, by omega⟩
  · rw [readPhysicalRecord, if_neg low]
    exact within.parseBuffer_taken small result low

/-! ### Logical records -/

/-- The record being assembled, if any, began at a located header. -/
def Assembling (size floor : Nat) (reader : Reader BytesFile) (locals : ReadLocals) : Prop :=
  locals.inFragmentedRecord = true →
    Located size reader.initialOffset floor reader.remaining locals.prospectiveRecordOffset

/-- What a round of `ReadRecord` does on any bytes. -/
def StepFits (size floor : Nat) (before : Reader BytesFile) : ReadStep BytesFile → Prop
  | .next after locals => Advanced size before after ∧ Assembling size floor after locals
  | .found after _ => Advanced size before after ∧
      Located size before.initialOffset floor after.remaining after.lastRecordOffset
  | .stop _ => True

/-- A record begun earlier is still located after more bytes are consumed. -/
theorem Assembling.advance {floor : Nat} {locals : ReadLocals}
    (advanced : Advanced size before after) (assembling : Assembling size floor before locals)
    (begun : locals.inFragmentedRecord = true) :
    Located size after.initialOffset floor after.remaining locals.prospectiveRecordOffset := by
  obtain ⟨notBefore, headerFits, later⟩ := assembling begun
  have progress := advanced.progress
  rw [advanced.initialOffset]
  exact ⟨notBefore, by omega, later⟩

/-- What is done with a physical record keeps to the file. -/
theorem switchRecord_fits {floor type offset : Nat} {locals : ReadLocals}
    (advanced : type ≠ kEof → Advanced size before reader)
    (located : type ≠ kEof → type ≠ kBadRecord →
      Located size before.initialOffset floor reader.remaining offset)
    (assembling : Assembling size floor before locals) :
    StepFits size floor before (reader.switchRecord locals type offset) := by
  by_cases ended : type = kEof
  · rw [ended]
    exact trivial
  have moved := advanced ended
  -- The two rounds that use the offset of the record just taken, on a reader that may have
  -- reported something since.
  have found : type ≠ kBadRecord → ∀ noted record, Advanced size before noted →
      noted.remaining = reader.remaining →
      StepFits size floor before (.found { noted with lastRecordOffset := offset } record) := by
    intro good noted record movedOn same
    refine ⟨movedOn.congr rfl rfl rfl rfl, ?_⟩
    change Located size before.initialOffset floor noted.remaining offset
    rw [same]
    exact located ended good
  have begins : type ≠ kBadRecord → ∀ (noted : Reader BytesFile) (scratch : Bytes),
      Advanced size before noted → noted.remaining = reader.remaining →
      StepFits size floor before (.next noted { locals with
        inFragmentedRecord := true, prospectiveRecordOffset := offset, scratch := scratch }) := by
    intro good noted scratch movedOn same
    refine ⟨movedOn, fun _ => ?_⟩
    rw [movedOn.initialOffset, same]
    exact located ended good
  have keeps : ∀ noted : Reader BytesFile, Advanced size before noted →
      Assembling size floor noted locals :=
    fun noted movedOn begun => assembling.advance movedOn begun
  rw [switchRecord]
  dsimp only
  split_ifs with full dropped first dropped middle alone last alone bad begun
  · exact found (by rw [full]; decide) _ _ (moved.reported _ _) (remaining_reportCorruption ..)
  · exact found (by rw [full]; decide) _ _ moved rfl
  · exact begins (by rw [first]; decide) _ _ (moved.reported _ _) (remaining_reportCorruption ..)
  · exact begins (by rw [first]; decide) _ _ moved rfl
  · exact ⟨moved.reported _ _, keeps _ (moved.reported _ _)⟩
  · exact ⟨moved, keeps reader moved⟩
  · exact ⟨moved.reported _ _, keeps _ (moved.reported _ _)⟩
  · refine ⟨moved.congr rfl rfl rfl rfl, ?_⟩
    have begun : locals.inFragmentedRecord = true := by simpa using alone
    have kept := assembling.advance moved begun
    rw [moved.initialOffset] at kept
    exact kept
  · exact ⟨moved.reported _ _, fun begun => Bool.noConfusion begun⟩
  · exact ⟨moved, keeps reader moved⟩
  · exact ⟨moved.reported _ _, fun begun => Bool.noConfusion begun⟩
  · exact ⟨moved.reported _ _, fun begun => Bool.noConfusion begun⟩

/-- So does a step of the reader. -/
theorem readRecordStep_fits {floor : Nat} {locals : ReadLocals} (within : Within size reader)
    (small : size < 2 ^ 64) (below : reader.remaining ≤ floor)
    (assembling : Assembling size floor reader locals) :
    StepFits size floor reader (reader.readRecordStep locals) := by
  obtain ⟨advanced, located⟩ := within.readPhysicalRecord_taken small locals.fragment
  rw [readRecordStep]
  dsimp only
  generalize reader.readPhysicalRecord locals.fragment = physical at advanced located ⊢
  obtain ⟨type, fragment, after⟩ := physical
  dsimp only at advanced located ⊢
  split_ifs with middle last
  · have moved := advanced (by rw [middle.2]; decide)
    exact ⟨moved, fun begun => assembling.advance moved begun⟩
  · have moved : Advanced size reader { after with resyncing := false } :=
      (advanced (by rw [last.2]; decide)).congr rfl rfl rfl rfl
    exact ⟨moved, fun begun => assembling.advance moved begun⟩
  · refine switchRecord_fits (fun going => (advanced going).congr rfl rfl rfl rfl)
      (fun going good => ?_) assembling
    obtain ⟨notBefore, headerFits, later⟩ := located going good
    exact ⟨notBefore, headerFits, by omega⟩

/-- The loop of `ReadRecord` ends on any bytes, with a located record or with none. -/
theorem readRecordLoop_fits {floor fuel : Nat} {locals : ReadLocals} (within : Within size reader)
    (small : size < 2 ^ 64) (below : reader.remaining ≤ floor)
    (assembling : Assembling size floor reader locals) (enough : reader.remaining < fuel) :
    (∃ after, reader.readRecordLoop fuel locals = some (none, after)) ∨
      ∃ record after, reader.readRecordLoop fuel locals = some (some record, after) ∧
        Advanced size reader after ∧
        Located size reader.initialOffset floor after.remaining after.lastRecordOffset := by
  induction fuel generalizing reader locals with
  | zero => omega
  | succ fuel inductionHypothesis =>
    have fits := readRecordStep_fits within small below assembling
    rw [readRecordLoop]
    cases stepped : reader.readRecordStep locals with
    | stop after => exact .inl ⟨after, rfl⟩
    | found after record =>
      rw [stepped] at fits
      exact .inr ⟨record, after, rfl, fits⟩
    | next middle nextLocals =>
      rw [stepped] at fits
      obtain ⟨⟨inside, initialOffset, progress⟩, stillAssembling⟩ := fits
      simp only [kHeaderSize] at progress
      rcases inductionHypothesis inside (by omega) stillAssembling (by omega) with
        ended | ⟨record, after, ran, advanced, located⟩
      · exact .inl ended
      · refine .inr ⟨record, after, ran, ⟨advanced.within, ?_, ?_⟩, ?_⟩
        · rw [advanced.initialOffset, initialOffset]
        · have further := advanced.progress
          omega
        · rw [← initialOffset]
          exact located

/-! ### Whole reads -/

/-- The next call of `ReadRecord` runs its loop on `ready`. -/
structure Ready (size : Nat) (reader ready : Reader BytesFile) : Prop where
  within : Within size ready
  initialOffset : ready.initialOffset = reader.initialOffset
  call : ∀ fuel, reader.readRecord fuel = ready.readRecordLoop fuel ⟨false, 0, [], []⟩

/-- After a record was returned, no block is skipped again. -/
theorem Within.ready (within : Within size reader)
    (settled : reader.initialOffset ≤ reader.lastRecordOffset) : Ready size reader reader :=
  ⟨within, rfl, fun fuel => by rw [readRecord, if_neg (Nat.not_lt.mpr settled)]⟩

/-- The first call skips to some block, inside the file or behind its end. -/
theorem openReader_ready (file : Bytes) (options : Options) :
    ∃ ready, Ready file.length (openReader file options) ready := by
  by_cases settled : options.initial ≤ 0
  · have opened : Within file.length (openReader file options) := by
      have whole : (openReader file options).remaining = file.length := by
        simp [remaining, openReader, new]
      exact ⟨by omega, fun _ => by simp [openReader, new]⟩
    exact ⟨_, opened.ready settled⟩
  · have unsettled : (openReader file options).lastRecordOffset <
        (openReader file options).initialOffset := Nat.lt_of_not_le settled
    have skipped : Within file.length (skippedReader file options) := by
      constructor
      · simp [remaining, skippedReader, openReader, new]
      · simp only [remaining, skippedReader, openReader, new, List.length_nil, List.length_drop]
        omega
    refine ⟨skippedReader file options, skipped, rfl, fun fuel => ?_⟩
    rw [readRecord, if_pos unsettled, skipToInitialBlock_new]
    rfl

/-- Any bytes are read to an end, and the records returned lie in them one behind the other. -/
theorem Ready.readAll_fits {ready : Reader BytesFile} {fuel : Nat}
    (isReady : Ready size reader ready) (small : size < 2 ^ 64)
    (enough : ready.remaining + 2 ≤ fuel) :
    ∃ records last, reader.readAll fuel = some (records, last) ∧
      records.Pairwise (fun earlier later => earlier.2 < later.2) ∧
      (∀ record ∈ records, reader.initialOffset ≤ record.2 ∧ record.2 + kHeaderSize ≤ size ∧
        size ≤ record.2 + ready.remaining) ∧
      records.length * kHeaderSize ≤ ready.remaining := by
  induction fuel generalizing reader ready with
  | zero => omega
  | succ fuel inductionHypothesis =>
    obtain ⟨within, sameOffset, call⟩ := isReady
    rw [readAll, call]
    have nothing : Assembling size ready.remaining ready ⟨false, 0, [], []⟩ :=
      fun begun => Bool.noConfusion begun
    rcases readRecordLoop_fits within small (le_refl _) nothing
        (show ready.remaining < fuel by omega) with
      ⟨after, ended⟩ | ⟨record, after, ran, advanced, located⟩
    · rw [ended]
      exact ⟨[], after, rfl, List.Pairwise.nil, by simp, by simp⟩
    · obtain ⟨inside, initialOffset, progress⟩ := advanced
      obtain ⟨notBefore, headerFits, later⟩ := located
      simp only [kHeaderSize] at *
      obtain ⟨records, last, rest, increasing, placed, count⟩ := inductionHypothesis
        (inside.ready (by omega)) (by omega)
      rw [initialOffset, sameOffset] at placed
      refine ⟨(record, after.lastRecordOffset) :: records, last, ?_, ?_, ?_, ?_⟩
      · rw [ran]
        simp [rest]
      · refine List.pairwise_cons.mpr ⟨fun other member => ?_, increasing⟩
        have behind := placed other member
        dsimp only
        omega
      · intro other member
        rcases List.mem_cons.mp member with rfl | member
        · dsimp only
          omega
        · have behind := placed other member
          omega
      · rw [List.length_cons]
        omega

end Reader

/-- The reader on arbitrary bytes, from any initial offset. Both loops end, and no access
leaves the buffer. The offsets of the records increase, none is before the initial offset or
within a header of the end, so there is at most one for every seven bytes. Offsets are 64-bit
numbers, so the file is shorter than `2 ^ 64` bytes. -/
theorem reader_safe_on_any_bytes (file : Bytes) (small : file.length < 2 ^ 64) (options : Options)
    (fuel : Nat) (enough : file.length + 2 ≤ fuel) :
    (∀ (reader : Reader BytesFile) (result : Bytes) (rounds : Nat), 2 ≤ rounds →
      reader.readPhysicalRecordChecked rounds result = some (reader.readPhysicalRecord result)) ∧
    ∃ records last, (openReader file options).readAll fuel = some (records, last) ∧
      records.Pairwise (fun earlier later => earlier.2 < later.2) ∧
      (∀ record ∈ records, options.initial ≤ record.2 ∧ record.2 + kHeaderSize ≤ file.length) ∧
      records.length ≤ file.length / kHeaderSize := by
  refine ⟨fun reader result rounds twice => Reader.readPhysicalRecordChecked_eq twice reader result,
    ?_⟩
  obtain ⟨ready, isReady⟩ := Reader.openReader_ready file options
  have fits := isReady.within.fits
  obtain ⟨records, last, ran, increasing, placed, count⟩ :=
    isReady.readAll_fits small (show ready.remaining + 2 ≤ fuel by omega)
  refine ⟨records, last, ran, increasing, fun record member => ?_, ?_⟩
  · obtain ⟨notBefore, headerFits, -⟩ := placed record member
    exact ⟨notBefore, headerFits⟩
  · exact (Nat.le_div_iff_mul_le (by decide)).mpr (le_trans count fits)

/-- A header of an unknown type, a record of one byte and a byte of a third header. -/
theorem reader_safe_on_any_bytes_noise :
    ∃ records last, (openReader [0, 0, 0, 0, 0, 0, 9, 0, 0, 0, 0, 1, 0, 1, 42, 7]
        ⟨true, 2⟩).readAll 18 = some (records, last) ∧ records.length ≤ 2 := by
  obtain ⟨-, records, last, ran, -, -, count⟩ := reader_safe_on_any_bytes
    [0, 0, 0, 0, 0, 0, 9, 0, 0, 0, 0, 1, 0, 1, 42, 7] (by decide) ⟨true, 2⟩ 18 (by decide)
  exact ⟨records, last, ran, count⟩

end LevelDbXy.Log
