import LevelDbXy.Env.SequentialFile
import LevelDbXy.Log.Durability

/-!
# Reading a log when reads fail

The log reader over a `PosixSequentialFile`, with any script of calls of `read` that are
interrupted, transfer less than a block, or fail. A call that delivers less than a block ends
the file for the reader. So it returns what a reader in memory returns from the part of the
file that was delivered until then, and reports one thing more, the read that failed. From a
log that is a first part of its records.
-/

namespace LevelDbXy.Log

open Coding Posix

/-! ### What is delivered -/

/-- The number of bytes that reads of whole blocks deliver until one delivers less or fails, and
the status of the one that fails. So many bytes are left. -/
def deliver (strerror : Nat → String) (filename : String) :
    List ReadOutcome → Nat → Nat × Option Status
  | [], left => (left, none)
  | .transferred count :: outcomes, left =>
    let size := min (min count kBlockSize) left
    if size < kBlockSize then (size, none)
    else
      let later := deliver strerror filename outcomes (left - size)
      (size + later.1, later.2)
  | .failed errno :: outcomes, left =>
    if errno = EINTR then deliver strerror filename outcomes left
    else (0, some (posixError strerror filename errno))

/-- What the file delivers to a reader of blocks from now on. -/
def delivery (file : PosixSequentialFile) : Nat × Option Status :=
  deliver file.strerror file.filename file.outcomes file.rest.length

/-- A read of a block that does not fail. -/
structure Delivers (file : PosixSequentialFile) (size : Nat) (outcomes : List ReadOutcome) :
    Prop where
  read : file.read kBlockSize =
    (.ok, file.rest.take size, file.advance size outcomes)
  asked : size ≤ kBlockSize
  inside : size ≤ file.rest.length
  last : size < kBlockSize → delivery file = (size, none)
  further : size = kBlockSize → delivery file =
    (size + (delivery (file.advance size outcomes)).1, (delivery (file.advance size outcomes)).2)

/-- A read of a block that fails. -/
structure Fails (file : PosixSequentialFile) (status : Status) : Prop where
  read : (file.read kBlockSize).1 = status
  notOk : status.isOk = false
  delivery : delivery file = (0, some status)

/-- An interrupted read is tried again and delivers the same. -/
theorem delivery_retried {file : PosixSequentialFile} {outcomes : List ReadOutcome}
    (script : file.outcomes = .failed EINTR :: outcomes) :
    delivery file = delivery { file with outcomes } ∧
      file.read kBlockSize = ({ file with outcomes } : PosixSequentialFile).read kBlockSize := by
  have loops : ∀ script, file.readLoop kBlockSize script =
      ({ file with outcomes } : PosixSequentialFile).readLoop kBlockSize script := by
    intro script
    induction script with
    | nil => rfl
    | cons outcome script inductionHypothesis =>
      cases outcome with
      | transferred count => rfl
      | failed errno =>
        simp only [PosixSequentialFile.readLoop, inductionHypothesis]
  constructor
  · rw [delivery, script, deliver, if_pos rfl]
    rfl
  · rw [PosixSequentialFile.read, script, PosixSequentialFile.readLoop, if_pos rfl, loops]
    rfl

/-- After a read the rest is delivered. -/
theorem delivery_advance (file : PosixSequentialFile) (size : Nat)
    (outcomes : List ReadOutcome) :
    delivery (file.advance size outcomes) =
      deliver file.strerror file.filename outcomes (file.rest.length - size) := by
  rw [delivery, PosixSequentialFile.rest_advance, List.length_drop]
  rfl

/-- A read of a block fails, or it delivers some bytes. -/
theorem read_block_cases (file : PosixSequentialFile) :
    (∃ status, Fails file status) ∨ ∃ size outcomes, Delivers file size outcomes := by
  induction isScript : file.outcomes generalizing file with
  | nil =>
    have delivered : delivery file = (file.rest.length, none) := by
      rw [delivery, isScript, deliver]
    refine Or.inr ⟨min kBlockSize file.rest.length, [], ?_, Nat.min_le_left _ _,
      Nat.min_le_right _ _, fun short => ?_, fun whole => ?_⟩
    · rw [PosixSequentialFile.read, isScript, PosixSequentialFile.take_min_length,
        ← List.length_take]
      rfl
    · rw [delivered, Prod.mk.injEq]
      exact ⟨by omega, rfl⟩
    · rw [delivered, delivery_advance, deliver, Prod.mk.injEq]
      exact ⟨by omega, rfl⟩
  | cons outcome script inductionHypothesis =>
    cases outcome with
    | transferred count =>
      refine Or.inr ⟨min (min count kBlockSize) file.rest.length, script, ?_, ?_,
        Nat.min_le_right _ _, fun short => ?_, fun whole => ?_⟩
      · rw [PosixSequentialFile.read, isScript, PosixSequentialFile.take_min_length,
          ← List.length_take]
        rfl
      · exact (Nat.min_le_left _ _).trans (Nat.min_le_right _ _)
      · simp only [delivery, isScript, deliver, if_pos short]
      · rw [delivery_advance, delivery, isScript, deliver]
        simp only [if_neg (Nat.not_lt.mpr whole.ge)]
    | failed errno =>
      by_cases retried : errno = EINTR
      · subst retried
        obtain ⟨sameDelivery, sameRead⟩ := delivery_retried isScript
        rcases inductionHypothesis { file with outcomes := script } rfl with
          ⟨status, read, notOk, delivered⟩ |
          ⟨size, outcomes, read, asked, inside, last, further⟩
        · exact Or.inl ⟨status, sameRead ▸ read, notOk, sameDelivery.trans delivered⟩
        · exact Or.inr ⟨size, outcomes, sameRead.trans read, asked, inside,
            fun short => sameDelivery.trans (last short),
            fun whole => sameDelivery.trans (further whole)⟩
      · refine Or.inl ⟨posixError file.strerror file.filename errno, ?_,
          PosixSequentialFile.posixError_isOk .., ?_⟩
        · simp only [PosixSequentialFile.read, isScript, PosixSequentialFile.readLoop,
            if_neg retried]
        · simp only [delivery, isScript, deliver, if_neg retried]

/-- No more is delivered than the file has. -/
theorem deliver_le (strerror : Nat → String) (filename : String) (outcomes : List ReadOutcome)
    (left : Nat) : (deliver strerror filename outcomes left).1 ≤ left := by
  induction outcomes generalizing left with
  | nil => exact Nat.le_refl _
  | cons outcome outcomes inductionHypothesis =>
    cases outcome with
    | transferred count =>
      have later := inductionHypothesis (left - min (min count kBlockSize) left)
      simp only [deliver]
      split_ifs
      · exact Nat.min_le_right _ _
      · simp only
        omega
    | failed errno =>
      simp only [deliver]
      split_ifs
      · exact inductionHypothesis left
      · exact Nat.zero_le _

/-- The call is interrupted, or it transfers all of a block. -/
def ReadOutcome.Harmless : ReadOutcome → Prop
  | .transferred count => kBlockSize ≤ count
  | .failed errno => errno = EINTR

/-- Calls that are only interrupted deliver everything. -/
theorem deliver_harmless (strerror : Nat → String) (filename : String)
    {outcomes : List ReadOutcome} (harmless : ∀ outcome ∈ outcomes, ReadOutcome.Harmless outcome)
    (left : Nat) : deliver strerror filename outcomes left = (left, none) := by
  induction outcomes generalizing left with
  | nil => rfl
  | cons outcome outcomes inductionHypothesis =>
    have first := harmless outcome List.mem_cons_self
    have others := inductionHypothesis fun other member =>
      harmless other (List.mem_cons_of_mem _ member)
    cases outcome with
    | transferred count =>
      rw [ReadOutcome.Harmless] at first
      simp only [deliver, others, Nat.min_eq_right first]
      split_ifs
      · rw [Nat.min_eq_right (by omega)]
      · rw [Nat.add_sub_cancel' (Nat.min_le_right _ _)]
    | failed errno =>
      rw [ReadOutcome.Harmless] at first
      rw [deliver, if_pos first]
      exact others left

/-! ### The reader over another file -/

section Over

variable {F G : Type}

/-- The reader with another file. -/
abbrev Reader.onFile (reader : Reader F) (file : G) : Reader G := { reader with file }

/-- The outcome of a round with another file. -/
def ReadStep.onFile (file : G) : ReadStep F → ReadStep G
  | .next reader locals => .next (reader.onFile file) locals
  | .found reader record => .found (reader.onFile file) record
  | .stop reader => .stop (reader.onFile file)

namespace Reader

/-- What only a read changes is the same. -/
structure Unread (reader other : Reader F) : Prop where
  file : other.file = reader.file
  eof : other.eof = reader.eof
  reporter : other.reporter = reader.reporter
  initialOffset : other.initialOffset = reader.initialOffset

/-- Nothing is read. -/
theorem Unread.refl (reader : Reader F) : Unread reader reader := ⟨rfl, rfl, rfl, rfl⟩

variable (reader : Reader F) (file : G)

/-- A report does not depend on the file. -/
theorem reportDrop_onFile (bytes : Nat) (reason : Status) :
    (reader.onFile file).reportDrop bytes reason =
      (reader.reportDrop bytes reason).onFile file := by
  unfold reportDrop
  rw [apply_ite (fun reported : Reader F => reported.onFile file)]

/-- A report reads nothing. -/
theorem reportDrop_unread (bytes : Nat) (reason : Status) :
    Unread reader (reader.reportDrop bytes reason) := by
  unfold reportDrop
  split_ifs <;> exact ⟨rfl, rfl, rfl, rfl⟩

/-- Nor does that of a corruption depend on it. -/
theorem reportCorruption_onFile (bytes : Nat) (reason : String) :
    (reader.onFile file).reportCorruption bytes reason =
      (reader.reportCorruption bytes reason).onFile file :=
  reader.reportDrop_onFile file bytes _

/-- Nor does it read anything. -/
theorem reportCorruption_unread (bytes : Nat) (reason : String) :
    Unread reader (reader.reportCorruption bytes reason) := reader.reportDrop_unread bytes _

/-- Parsing a physical record in the buffer does not look at the file. -/
theorem parseBuffer_onFile (result : Bytes) :
    (reader.onFile file).parseBuffer result =
      ((reader.parseBuffer result).1, (reader.parseBuffer result).2.1,
        (reader.parseBuffer result).2.2.onFile file) := by
  have cleared := reportCorruption_onFile { reader with buffer := [] } file reader.buffer.length
    "bad record length"
  unfold parseBuffer
  by_cases short : reader.buffer.length <
      kHeaderSize + (byteAt reader.buffer 5 <<< 8 ||| byteAt reader.buffer 4)
  · cases ended : reader.eof with
    | false =>
      simp only [onFile, if_pos short, ended, Bool.not_false, if_true] at cleared ⊢
      rw [cleared]
    | true => simp only [onFile, if_pos short, Bool.not_true, Bool.false_eq_true, if_false]
  · simp only [onFile, short, if_false]
    by_cases zero : byteAt reader.buffer 6 = RecordType.kZeroType.toNat ∧
        byteAt reader.buffer 5 <<< 8 ||| byteAt reader.buffer 4 = 0
    · simp only [if_pos zero]
    · simp only [if_neg zero]
      split
      next before => rw [if_pos (by exact before)]
      next inside => rw [if_neg (by exact inside)]

/-- Nor does the parsing of the buffer. -/
theorem parseBuffer_unread (result : Bytes) :
    Unread reader (reader.parseBuffer result).2.2 := by
  unfold parseBuffer
  simp only
  split_ifs
  · have reported := reportCorruption_unread { reader with buffer := [] } reader.buffer.length
      "bad record length"
    exact ⟨reported.file, reported.eof, reported.reporter, reported.initialOffset⟩
  all_goals exact ⟨rfl, rfl, rfl, rfl⟩

/-- Neither does the `switch` of `ReadRecord`. -/
theorem switchRecord_onFile (locals : ReadLocals) (recordType offset : Nat) :
    (reader.onFile file).switchRecord locals recordType offset =
      (reader.switchRecord locals recordType offset).onFile file := by
  unfold switchRecord
  simp only [reportCorruption_onFile]
  split_ifs <;> rfl

/-- Nor does what is done with a physical record. -/
theorem switchRecord_unread (locals : ReadLocals) (recordType offset : Nat) :
    Unread reader (reader.switchRecord locals recordType offset).reader := by
  have reported : ∀ bytes reason, Unread reader (reader.reportCorruption bytes reason) :=
    reader.reportCorruption_unread
  unfold switchRecord
  simp only
  split_ifs
  · exact ⟨(reported _ _).file, (reported _ _).eof, (reported _ _).reporter,
      (reported _ _).initialOffset⟩
  · exact ⟨rfl, rfl, rfl, rfl⟩
  · exact reported _ _
  · exact Unread.refl reader
  · exact reported _ _
  · exact Unread.refl reader
  · exact reported _ _
  · exact ⟨rfl, rfl, rfl, rfl⟩
  · exact Unread.refl reader
  · exact reported _ _
  · exact Unread.refl reader
  · exact reported _ _
  · exact reported _ _

end Reader

end Over

/-! ### The simulation -/

/-- A reader of a file stands where a reader in memory stands that has everything to be delivered
up to a read that fails with this status. -/
structure Mirrors (reporting : Bool) (failure : Option Status) (posix : Reader PosixSequentialFile)
    (memory : Reader BytesFile) : Prop where
  same : posix = memory.onFile posix.file
  reporter : memory.reporter = reporting
  fromStart : memory.initialOffset = 0
  unread : memory.eof = false → memory.file.rest = posix.file.rest.take (delivery posix.file).1
  fails : memory.eof = false → (delivery posix.file).2 = failure
  ended : memory.eof = true → failure = none

/-- At the end a read that failed is reported. -/
def EndsAs (reporting : Bool) (failure : Option Status) (posix : Reader PosixSequentialFile)
    (memory : Reader BytesFile) : Prop :=
  posix.reports = memory.reports ++
    if memory.eof && reporting then (failure.map fun status => (kBlockSize, status)).toList
    else []

/-- The results of two calls of `ReadPhysicalRecord`. -/
inductive PhysicalMirrors (reporting : Bool) (failure : Option Status) :
    Nat × Bytes × Reader PosixSequentialFile → Nat × Bytes × Reader BytesFile → Prop where
  | going {type result posix memory} (mirrors : Mirrors reporting failure posix memory) :
      PhysicalMirrors reporting failure (type, result, posix) (type, result, memory)
  | failed {result posix memory} (ends : EndsAs reporting failure posix memory) :
      PhysicalMirrors reporting failure (kEof, result, posix) (kEof, result, memory)

/-- The results of two rounds. -/
inductive StepMirrors (reporting : Bool) (failure : Option Status) :
    ReadStep PosixSequentialFile → ReadStep BytesFile → Prop where
  | next {posix memory locals} (mirrors : Mirrors reporting failure posix memory) :
      StepMirrors reporting failure (.next posix locals) (.next memory locals)
  | found {posix memory record} (mirrors : Mirrors reporting failure posix memory) :
      StepMirrors reporting failure (.found posix record) (.found memory record)
  | stop {posix memory} (ends : EndsAs reporting failure posix memory) :
      StepMirrors reporting failure (.stop posix) (.stop memory)

section Simulation

variable {reporting : Bool} {failure : Option Status} {posix : Reader PosixSequentialFile}
  {memory : Reader BytesFile}

/-- Readers that mirror each other end alike. -/
theorem Mirrors.endsAs (mirrors : Mirrors reporting failure posix memory) :
    EndsAs reporting failure posix memory := by
  have reports : posix.reports = memory.reports := by rw [mirrors.same]
  rw [EndsAs, reports]
  cases eof : memory.eof with
  | false => simp
  | true => simp [mirrors.ended eof]

/-- What does not read keeps the readers together. -/
theorem Mirrors.of_unread (mirrors : Mirrors reporting failure posix memory)
    {after : Reader BytesFile} (unread : Reader.Unread memory after) :
    Mirrors reporting failure (after.onFile posix.file) after where
  same := rfl
  reporter := unread.reporter.trans mirrors.reporter
  fromStart := unread.initialOffset.trans mirrors.fromStart
  unread := by
    rw [unread.file, unread.eof]
    exact mirrors.unread
  fails := by
    rw [unread.eof]
    exact mirrors.fails
  ended := by
    rw [unread.eof]
    exact mirrors.ended

/-- They parse the same physical record. -/
theorem Mirrors.parseBuffer (mirrors : Mirrors reporting failure posix memory) (result : Bytes) :
    PhysicalMirrors reporting failure (posix.parseBuffer result) (memory.parseBuffer result) := by
  rw [mirrors.same, Reader.parseBuffer_onFile]
  exact .going (mirrors.of_unread (memory.parseBuffer_unread result))

/-- They mirror each other after both buffers are cleared. -/
theorem Mirrors.cleared (mirrors : Mirrors reporting failure posix memory) :
    Mirrors reporting failure { posix with buffer := [] } { memory with buffer := [] } := by
  have same : { posix with buffer := [] } =
      ({ memory with buffer := [] } : Reader BytesFile).onFile posix.file := by
    rw [mirrors.same]
  rw [same]
  exact mirrors.of_unread ⟨rfl, rfl, rfl, rfl⟩

/-- The posix reader with a block that was read. -/
def withBlock (reader : Reader PosixSequentialFile) (size : Nat) (outcomes : List ReadOutcome) :
    Reader PosixSequentialFile :=
  { reader with
    file := reader.file.advance size outcomes
    buffer := reader.file.rest.take size
    eof := (reader.file.rest.take size).length < kBlockSize
    endOfBufferOffset :=
      truncU64 (reader.endOfBufferOffset + (reader.file.rest.take size).length) }

/-- They mirror each other after a whole block for both. -/
theorem Mirrors.refilled (mirrors : Mirrors reporting failure posix memory)
    (more : memory.eof = false) {size : Nat} {outcomes : List ReadOutcome}
    (delivers : Delivers posix.file size outcomes) :
    Mirrors reporting failure (withBlock posix size outcomes) memory.refilled := by
  have unread := mirrors.unread more
  have failed := mirrors.fails more
  obtain ⟨-, asked, inside, last, further⟩ := delivers
  have length : (posix.file.rest.take size).length = size := by
    rw [List.length_take, Nat.min_eq_left inside]
  have block : memory.file.rest.take kBlockSize = posix.file.rest.take size := by
    rw [unread, List.take_take]
    rcases Nat.lt_or_eq_of_le asked with short | whole
    · rw [last short, Nat.min_eq_right asked]
    · rw [further whole, whole]
      exact congrArg (List.take · _) (Nat.min_eq_left (Nat.le_add_right _ _))
  refine ⟨?_, mirrors.reporter, mirrors.fromStart, fun going => ?_, fun going => ?_,
    fun ended => ?_⟩
  · have same := mirrors.same
    generalize posix.file = file at *
    subst same
    simp only [withBlock, Reader.refilled, Reader.onFile, block]
  · have whole : size = kBlockSize := by
      simp only [Reader.refilled, block, length, decide_eq_false_iff_not] at going
      omega
    have first := congrArg Prod.fst (further whole)
    dsimp only at first
    simp only [Reader.refilled, withBlock, PosixSequentialFile.rest_advance]
    rw [unread, first, ← whole, List.drop_take, Nat.add_sub_cancel_left]
  · have whole : size = kBlockSize := by
      simp only [Reader.refilled, block, length, decide_eq_false_iff_not] at going
      omega
    exact (congrArg Prod.snd (further whole)).symm.trans failed
  · have short : size < kBlockSize := by
      simpa only [Reader.refilled, block, length, decide_eq_true_eq] using ended
    exact failed.symm.trans (congrArg Prod.snd (last short))

/-- A read that fails is reported, and both readers are at the end. -/
theorem Mirrors.failing (mirrors : Mirrors reporting failure posix memory) {status : Status}
    (fails : Fails posix.file status) (result : Bytes)
    (low : memory.buffer.length < kHeaderSize) (more : memory.eof = false) :
    PhysicalMirrors reporting failure (posix.readPhysicalRecord result)
      (if memory.refilled.buffer.length < kHeaderSize then
        (kEof, result, { memory.refilled with buffer := [] })
      else memory.refilled.parseBuffer result) := by
  have nothing : memory.file.rest = [] := by
    rw [mirrors.unread more, fails.delivery, List.take_zero]
  have failed : failure = some status := by
    rw [← mirrors.fails more, fails.delivery]
  have empty : memory.refilled.buffer.length < kHeaderSize := by
    rw [Reader.refilled, nothing]
    exact Nat.succ_pos 6
  have same := mirrors.same
  have fromStart := mirrors.fromStart
  have reporter := mirrors.reporter
  have notOk : (posix.file.read kBlockSize).1.isOk = false := by
    rw [fails.read]
    exact fails.notOk
  rw [if_pos empty]
  generalize posix.file = file at *
  subst same
  rw [Reader.readPhysicalRecord, if_pos low]
  simp only [more, Bool.not_false, if_true, SequentialFile.read, notOk]
  refine .failed ?_
  simp only [EndsAs, Reader.reportDrop, Reader.refilled, nothing, fromStart, failed, fails.read,
    reporter]
  cases reporting <;> simp [kBlockSize]

/-- The physical records of the two readers. -/
theorem Mirrors.readPhysicalRecord (mirrors : Mirrors reporting failure posix memory)
    (result : Bytes) :
    PhysicalMirrors reporting failure (posix.readPhysicalRecord result)
      (memory.readPhysicalRecord result) := by
  have buffer : posix.buffer = memory.buffer := by rw [mirrors.same]
  have eof : posix.eof = memory.eof := by rw [mirrors.same]
  by_cases low : memory.buffer.length < kHeaderSize
  · cases ended : memory.eof with
    | true =>
      simp only [Reader.readPhysicalRecord, buffer, eof, ended, if_pos low, Bool.not_true,
        Bool.false_eq_true, if_false]
      exact .going (by simpa only [eof, ended] using mirrors.cleared)
    | false =>
      rw [Reader.readPhysicalRecord_refill result low ended]
      rcases read_block_cases posix.file with ⟨status, fails⟩ | ⟨size, outcomes, delivers⟩
      · exact mirrors.failing fails result low ended
      · have refilled := mirrors.refilled ended delivers
        have read : posix.readPhysicalRecord result =
            if (withBlock posix size outcomes).buffer.length < kHeaderSize then
              (kEof, result, { withBlock posix size outcomes with buffer := [] })
            else (withBlock posix size outcomes).parseBuffer result := by
          rw [Reader.readPhysicalRecord, buffer, eof, if_pos low, ended]
          simp only [SequentialFile.read, delivers.read]
          rfl
        have sameBuffer : (withBlock posix size outcomes).buffer = memory.refilled.buffer := by
          rw [refilled.same]
        rw [read, sameBuffer]
        split_ifs
        · exact .going refilled.cleared
        · exact refilled.parseBuffer result
  · simp only [Reader.readPhysicalRecord, buffer, if_neg low]
    exact mirrors.parseBuffer result

/-- The rounds of the two readers. -/
theorem Mirrors.readRecordStep (mirrors : Mirrors reporting failure posix memory)
    (locals : ReadLocals) :
    StepMirrors reporting failure (posix.readRecordStep locals) (memory.readRecordStep locals) := by
  have physical := mirrors.readPhysicalRecord locals.fragment
  unfold Reader.readRecordStep
  generalize posix.readPhysicalRecord locals.fragment = before at physical
  generalize memory.readPhysicalRecord locals.fragment = after at physical
  cases physical with
  | @going type result posix memory mirrors =>
    have same := mirrors.same
    have kept : ∀ {after}, Reader.Unread memory after →
        Mirrors reporting failure (after.onFile posix.file) after :=
      fun unread => mirrors.of_unread unread
    generalize posix.file = file at same kept
    subst same
    simp only
    split_ifs
    · exact .next mirrors
    · exact .next (@kept { memory with resyncing := false } ⟨rfl, rfl, rfl, rfl⟩)
    · change StepMirrors reporting failure (Reader.switchRecord
        (Reader.onFile { memory with resyncing := false } file) _ type _) _
      rw [Reader.switchRecord_onFile]
      have unread := Reader.switchRecord_unread { memory with resyncing := false }
        { locals with fragment := result } type (memory.physicalRecordOffset result.length)
      have offset : (memory.onFile file).physicalRecordOffset result.length =
          memory.physicalRecordOffset result.length := rfl
      rw [offset]
      generalize ({ memory with resyncing := false } : Reader BytesFile).switchRecord _ _ _ = step
        at unread ⊢
      have mirrored : Mirrors reporting failure (step.reader.onFile file) step.reader :=
        kept ⟨unread.file, unread.eof, unread.reporter, unread.initialOffset⟩
      cases step with
      | next => exact .next mirrored
      | found => exact .found mirrored
      | stop => exact .stop mirrored.endsAs
  | failed ends =>
    have notMiddle : kEof ≠ RecordType.kMiddleType.toNat := by decide
    have notLast : kEof ≠ RecordType.kLastType.toNat := by decide
    simp only [notMiddle, notLast, and_false, if_false]
    exact .stop ends

/-- A call of `ReadRecord`, and all calls until one returns false. -/
theorem Mirrors.readRecordLoop (mirrors : Mirrors reporting failure posix memory) (fuel : Nat)
    (locals : ReadLocals) {result : Option Bytes} {after : Reader BytesFile}
    (ran : memory.readRecordLoop fuel locals = some (result, after)) :
    ∃ posixAfter, posix.readRecordLoop fuel locals = some (result, posixAfter) ∧
      (if result.isSome then Mirrors reporting failure posixAfter after
        else EndsAs reporting failure posixAfter after) := by
  induction fuel generalizing posix memory locals with
  | zero => cases ran
  | succ fuel inductionHypothesis =>
    have step := mirrors.readRecordStep locals
    rw [Reader.readRecordLoop] at ran ⊢
    generalize posix.readRecordStep locals = posixStep at step ⊢
    generalize memory.readRecordStep locals = memoryStep at step ran
    cases step with
    | next mirrors => exact inductionHypothesis mirrors _ ran
    | found mirrors =>
      obtain ⟨rfl, rfl⟩ := Prod.mk.inj (Option.some.inj ran)
      exact ⟨_, rfl, mirrors⟩
    | stop ends =>
      obtain ⟨rfl, rfl⟩ := Prod.mk.inj (Option.some.inj ran)
      exact ⟨_, rfl, ends⟩

/-- They return the same records. -/
theorem Mirrors.readAll (mirrors : Mirrors reporting failure posix memory) {fuel : Nat}
    {records : List (Bytes × Nat)} {last : Reader BytesFile}
    (ran : memory.readAll fuel = some (records, last)) :
    ∃ posixLast, posix.readAll fuel = some (records, posixLast) ∧
      EndsAs reporting failure posixLast last := by
  induction fuel generalizing posix memory records with
  | zero => cases ran
  | succ fuel inductionHypothesis =>
    have fromStart : ¬ memory.lastRecordOffset < memory.initialOffset := by
      rw [mirrors.fromStart]
      exact Nat.not_lt_zero _
    have posixFromStart : ¬ posix.lastRecordOffset < posix.initialOffset := by
      rw [mirrors.same]
      exact fromStart
    rw [Reader.readAll, Reader.readRecord, if_neg fromStart] at ran
    rw [Reader.readAll, Reader.readRecord, if_neg posixFromStart]
    cases called : memory.readRecordLoop fuel ⟨false, 0, [], []⟩ with
    | none =>
      rw [called] at ran
      cases ran
    | some result =>
      obtain ⟨record, after⟩ := result
      obtain ⟨posixAfter, posixCalled, follows⟩ := mirrors.readRecordLoop fuel _ called
      rw [called] at ran
      rw [posixCalled]
      cases record with
      | none =>
        obtain ⟨rfl, rfl⟩ := Prod.mk.inj (Option.some.inj ran)
        exact ⟨posixAfter, rfl, follows⟩
      | some record =>
        cases others : after.readAll fuel with
        | none =>
          simp [others] at ran
        | some result =>
          obtain ⟨further, final⟩ := result
          simp only [Option.bind_eq_bind, Option.bind_some, others, Option.some.injEq,
            Prod.mk.injEq] at ran
          obtain ⟨rfl, rfl⟩ := ran
          obtain ⟨posixLast, posixRan, ends⟩ := inductionHypothesis follows others
          refine ⟨posixLast, ?_, ends⟩
          have offset : posixAfter.lastRecordOffset = after.lastRecordOffset := by
            rw [Mirrors.same follows]
          simp only [Option.bind_eq_bind, Option.bind_some, posixRan, offset]

end Simulation

/-! ### A log is read to its end -/

/-- A buffer that seems to be the end of the file, whatever the last record was, is it: a physical
record of the type `kEof` would have changed the result. -/
theorem Reader.eof_of_parseBuffer {reader : Reader BytesFile}
    (ends : ∀ result, ∃ ended, reader.parseBuffer result = (kEof, result, ended)) :
    reader.eof = true := by
  by_contra atEnd
  have more : reader.eof = false := Bool.eq_false_of_not_eq_true atEnd
  obtain ⟨ended, parsed⟩ :=
    ends (0 :: (reader.buffer.drop kHeaderSize).take
      (byteAt reader.buffer 5 <<< 8 ||| byteAt reader.buffer 4))
  unfold parseBuffer at parsed
  simp only [more, Bool.not_false, if_true] at parsed
  have notBad : kBadRecord ≠ kEof := by decide
  split_ifs at parsed
  · exact notBad (congrArg Prod.fst parsed)
  · exact notBad (congrArg Prod.fst parsed)
  · exact notBad (congrArg Prod.fst parsed)
  · exact List.cons_ne_self _ _ (congrArg (fun physical => physical.2.1) parsed).symm

/-- A reader that can only end has met the end of the file. -/
theorem Reader.eof_of_end {reader : Reader BytesFile}
    (ends : ∀ result, ∃ ended, reader.readPhysicalRecord result = (kEof, result, ended))
    (result : Bytes) : (reader.readPhysicalRecord result).2.2.eof = true := by
  by_cases low : reader.buffer.length < kHeaderSize
  · cases ended : reader.eof with
    | true =>
      simp only [readPhysicalRecord, if_pos low, ended, Bool.not_true, Bool.false_eq_true, if_false]
    | false =>
      simp only [readPhysicalRecord_refill _ low ended] at ends ⊢
      split_ifs at ends ⊢ with short
      · have small : (reader.file.rest.take kBlockSize).length < kBlockSize :=
          Nat.lt_trans short (by decide)
        exact decide_eq_true small
      · rw [(reader.refilled.parseBuffer_unread result).eof]
        exact eof_of_parseBuffer ends
  · simp only [readPhysicalRecord, if_neg low] at ends ⊢
    rw [(reader.parseBuffer_unread result).eof]
    exact eof_of_parseBuffer ends

/-- Only a physical record of the type `kEof` stops an assembly. -/
theorem Assembly.accept_stopped {options : Options} {state : Assembly} {fragment : Fragment}
    (running : state.stopped = false) (type : fragment.type.toNat ≠ kEof) :
    (state.accept options fragment).stopped = false := by
  have reported : ∀ (state : Assembly) pos bytes reason,
      (state.report options pos bytes reason).stopped = state.stopped := by
    intro state pos bytes reason
    unfold Assembly.report
    split_ifs <;> rfl
  have notBad : kBadRecord ≠ kEof := by decide
  have fed : ∀ (resynced : Assembly) pos type offset payload, resynced.stopped = false →
      type ≠ kEof → (resynced.feed options pos type offset payload).stopped = false := by
    intro resynced pos type offset payload going other
    unfold Assembly.feed Assembly.reportPending
    simp only [if_neg other]
    split_ifs <;> (try split) <;> simp only [reported, going]
  have resynced : ∀ pos type offset payload, type ≠ kEof →
      (state.resyncFeed options pos type offset payload).stopped = false := by
    intro pos type offset payload other
    unfold Assembly.resyncFeed
    split_ifs
    · exact running
    · exact running
    · exact fed _ _ _ _ _ running other
  unfold Assembly.accept
  simp only [running, Bool.false_eq_true, if_false]
  split_ifs
  · exact resynced _ _ _ _ notBad
  · exact resynced _ _ _ _ type

section Ends

variable {options : Options} {file : Bytes} {pos : Nat} {reader : Reader BytesFile}
  {locals : ReadLocals} {state : Assembly}

/-- At the end of the log the step stops and has met the end of the file. -/
theorem readRecordStep_end_eof (standing : reader.At file pos) (ends : Reader.EndsAt file pos)
    (locals : ReadLocals) :
    ∃ ended, reader.readRecordStep locals = .stop ended ∧ ended.eof = true := by
  have eof := Reader.eof_of_end
    (fun result => (ends reader standing result).imp fun _ both => both.1) locals.fragment
  obtain ⟨ended, physical, -⟩ := ends reader standing locals.fragment
  refine ⟨{ ended with resyncing := false }, ?_, ?_⟩
  · unfold Reader.readRecordStep
    rw [physical]
    have notMiddle : kEof ≠ RecordType.kMiddleType.toNat := by decide
    have notLast : kEof ≠ RecordType.kLastType.toNat := by decide
    simp only [notMiddle, notLast, and_false, if_false]
    rfl
  · rw [physical] at eof
    exact eof

/-- A run over physical records of known types goes on to the end of the file. -/
theorem Simulates.continueWith_eof {fragments : List Fragment} {tail : Bytes}
    (simulates : Simulates options reader locals state) (standing : reader.At file pos)
    (placed : Placed pos fragments) (bytes : file.drop pos = encode pos fragments ++ tail)
    (types : ∀ fragment ∈ fragments, fragment.type ≠ 0 ∧ fragment.type.toNat ≠ kEof)
    (ends : Reader.EndsAt file (endOf pos fragments)) {fuel calls : Nat}
    {records : List (Bytes × Nat)} {last : Reader BytesFile}
    (ran : continueWith fuel calls reader locals = some (records, last)) : last.eof = true := by
  induction fragments generalizing pos reader locals state fuel calls records with
  | nil =>
    obtain ⟨ended, step, eof⟩ := readRecordStep_end_eof standing ends locals
    cases fuel with
    | zero => cases ran
    | succ fuel =>
      simp only [continueWith, Reader.readRecordLoop, step, Option.bind_eq_bind, Option.bind_some,
        Option.some.injEq, Prod.mk.injEq] at ran
      rw [← ran.2]
      exact eof
  | cons fragment fragments inductionHypothesis =>
    have head : Placed pos [fragment] := ⟨placed.1, placed.2.1, trivial⟩
    have type := types fragment List.mem_cons_self
    have others := fun other member => types other (List.mem_cons_of_mem _ member)
    rw [encode_cons, List.append_assoc] at bytes
    have behind : file.drop fragment.finish = encode fragment.finish fragments ++ tail := by
      have moved : file.drop fragment.finish =
          (file.drop pos).drop (encode pos [fragment]).length := by
        rw [List.drop_drop, add_length_encode_singleton placed]
      rw [moved, bytes, List.drop_left]
    have agrees := simulates.readRecordStep standing head bytes fun both => type.1 both.1
    have going := @Assembly.accept_stopped options _ _ simulates.running type.2
    generalize state.accept options fragment = after at agrees going
    cases fuel with
    | zero => cases ran
    | succ fuel =>
      cases step : reader.readRecordStep locals with
      | next moved nextLocals =>
        rw [step] at agrees
        cases agrees with
        | next standingAfter simulatesAfter =>
          have again : continueWith fuel calls moved nextLocals = some (records, last) := by
            rw [← ran]
            simp only [continueWith, Reader.readRecordLoop, step]
          exact inductionHypothesis simulatesAfter standingAfter placed.2.2 behind others ends again
      | found moved record =>
        rw [step] at agrees
        cases agrees with
        | found standingAfter simulatesAfter same inside =>
          have synced := simulatesAfter.initialOffset.trans_le inside
          simp only [continueWith, Reader.readRecordLoop, step, Option.bind_eq_bind,
            Option.bind_some, Option.bind_eq_some_iff, Option.some.injEq] at ran
          obtain ⟨⟨further, final⟩, again, same⟩ := ran
          cases calls with
          | zero => cases again
          | succ calls =>
            have final_ : final = last := (Prod.mk.inj same).2
            rw [readAll_succ calls synced, final_] at again
            exact inductionHypothesis simulatesAfter standingAfter placed.2.2 behind others ends
              again
      | stop ended =>
        rw [step] at agrees
        cases agrees with
        | stop stopped => exact absurd (stopped.symm.trans going) (by decide)

end Ends

/-- The fragments of records have types that the reader knows. -/
theorem type_ne_kEof_of_mem_layout {pos : Nat} {records : List Bytes} {fragment : Fragment}
    (member : fragment ∈ allFragments (layout pos records)) : fragment.type.toNat ≠ kEof := by
  have continues : ∀ {other : Fragment}, other.Continues → other.type.toNat ≠ kEof := by
    rintro other (type | type) <;> rw [type] <;> decide
  obtain ⟨entry, entryMember, inEntry⟩ := List.mem_flatMap.mp member
  have whole := whole_of_mem_layout entryMember
  generalize entry.fragments = fragments at inEntry whole
  generalize entry.record = data at whole
  cases whole with
  | full first type =>
    rw [List.mem_singleton.mp inEntry, type]
    decide
  | first first type _ rest =>
    rcases List.mem_cons.mp inEntry with rfl | later
    · rw [type]
      decide
    · exact continues (rest.continues fragment later)

/-- A reader of a first part of a log goes on to the end of the file. -/
theorem readAll_take_image_eof {records : List Bytes} {n : Nat} {options : Options}
    (zero : options.initial = 0) {fuel : Nat} {returned : List (Bytes × Nat)}
    {last : Reader BytesFile}
    (ran : (openReader ((image records).take n) options).readAll fuel = some (returned, last)) :
    last.eof = true := by
  have start : firstBlock options.initial = 0 := by
    rw [zero]
    decide
  obtain ⟨placed, ⟨tail, bytes⟩, ends⟩ := take_encode (placed_layout 0 records) n
  cases fuel with
  | zero => cases ran
  | succ fuel =>
    rw [readAll_openReader] at ran
    refine (skippedReader_simulates _ options).continueWith_eof
      (skippedReader_at _ (by rw [zero]; decide)) (by rw [start]; exact placed)
      (by rw [start]; exact bytes) (fun fragment member => ?_) (by rw [start]; exact ends) ran
    have inLayout := List.takeWhile_subset _ member
    exact ⟨type_ne_zero_of_mem_layout inLayout, type_ne_kEof_of_mem_layout inLayout⟩

/-- Any calls of `read`: from a log, torn or not, the reader returns the first records, all those
that were delivered before a read that fell short or failed among them. The read that failed is
the one thing it reports. If reads are only interrupted it returns all records. -/
theorem readAll_returns_delivered_records {contents : Bytes} {records : List Bytes}
    (isLog : IsLogOf contents records) (filename : String) (outcomes : List ReadOutcome)
    (strerror : Nat → String) (memory : Nat → UInt8) (reporting : Bool) {fuel : Nat}
    (enough : contents.length + 2 ≤ fuel) :
    ∃ returned last count,
      (Reader.new (PosixSequentialFile.new filename contents outcomes strerror memory)
        reporting 0).readAll fuel = some (returned, last) ∧
      returned.map Prod.fst = records.take count ∧
      (∀ other ≤ records.length, (image (records.take other)).length ≤
          (deliver strerror filename outcomes contents.length).1 → other ≤ count) ∧
      last.reports = (if reporting then
        ((deliver strerror filename outcomes contents.length).2.map
          fun status => (kBlockSize, status)).toList else []) ∧
      ((∀ outcome ∈ outcomes, ReadOutcome.Harmless outcome) →
        returned.map Prod.fst = records) := by
  have inside := deliver_le strerror filename outcomes contents.length
  have harmless := fun each => @deliver_harmless strerror filename outcomes each contents.length
  generalize delivered : deliver strerror filename outcomes contents.length = result at *
  obtain ⟨most, failure⟩ := result
  have cutLength : (contents.take most).length = most := by
    rw [List.length_take, Nat.min_eq_left inside]
  have mirrors : Mirrors reporting failure
      (Reader.new (PosixSequentialFile.new filename contents outcomes strerror memory) reporting 0)
      (openReader (contents.take most) ⟨reporting, 0⟩) := by
    refine ⟨rfl, rfl, rfl, fun _ => ?_, fun _ => ?_, fun ended => absurd ended Bool.false_ne_true⟩
    · exact congrArg (fun size => contents.take size) (congrArg Prod.fst delivered).symm
    · exact congrArg Prod.snd delivered
  obtain ⟨returned, other, count, ran, firstOnes, atLeast, silent⟩ :=
    @readAll_cut contents (contents.take most) records isLog (List.take_prefix _ _) reporting fuel
      (by rw [cutLength]; omega)
  obtain ⟨last, posixRan, ends⟩ := mirrors.readAll ran
  obtain ⟨next, partOf, whole, -⟩ := isLog
  have eof : other.eof = true := by
    have isCut : contents.take most = (image (records ++ next)).take most := by
      rw [List.prefix_iff_eq_take.mp partOf, List.take_take, Nat.min_eq_left inside]
    rw [isCut] at ran
    exact readAll_take_image_eof rfl ran
  refine ⟨returned, last, count, posixRan, firstOnes, fun other few fits => ?_, ?_, fun each => ?_⟩
  · exact atLeast other few (by rw [cutLength]; exact fits)
  · rw [EndsAs, silent, eof, Bool.true_and] at ends
    exact ends
  · have all : most = contents.length := congrArg Prod.fst (harmless each)
    have enough : records.length ≤ count := atLeast records.length (Nat.le_refl _) (by
      rw [List.take_length, cutLength, all]
      exact whole.length_le)
    rw [firstOnes, List.take_of_length_le enough]

/-- An interrupted call, and one that ends behind the first record. -/
theorem readAll_returns_delivered_records_short :
    ∃ returned last count,
      (Reader.new (PosixSequentialFile.new "000001.log" (image [[1], [2, 3]])
        [.failed EINTR, .transferred 8] (fun _ => "") fun _ => 0) true 0).readAll 40 =
          some (returned, last) ∧
      returned.map Prod.fst = List.take count [[1], [2, 3]] ∧ 1 ≤ count ∧ last.reports = [] := by
  have isLog : IsLogOf (image [[1], [2, 3]]) [[1], [2, 3]] :=
    ⟨[], List.prefix_refl _, List.prefix_refl _, fun _ _ none => by cases none⟩
  obtain ⟨returned, last, count, ran, firstOnes, atLeast, reports, -⟩ :=
    @readAll_returns_delivered_records _ _ isLog "000001.log" [.failed EINTR, .transferred 8]
      (fun _ => "") (fun _ => 0) true 40 (by rw [length_image_pair]; decide)
  rw [length_image_pair] at atLeast reports
  refine ⟨returned, last, count, ran, firstOnes, atLeast 1 (by decide) ?_, reports⟩
  rw [List.take_succ_cons, List.take_zero, image, layout_cons_of_le (by decide)]
  exact Nat.le_refl 8

end LevelDbXy.Log
