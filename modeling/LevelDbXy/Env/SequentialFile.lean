import LevelDbXy.Env.RandomAccessFile
import LevelDbXy.Log.Reader

/-!
# Files for sequential reads

`PosixSequentialFile` of `env/env_posix.cpp`, over a script of how the calls of `read` end:
with some of the bytes asked for, or with an error. After the script every call reads as
much as there is. The size of the slice that `Read` returns is the `ssize_t` of the last
call, so that a failing one leaves a slice of 2^64 - 1 bytes; `PosixRandomAccessFile::Read`
returns an empty one instead. The log reader adds that size to its offset before it looks at
the status.
-/

namespace LevelDbXy.Posix

/-- `EINTR` of Linux. -/
def EINTR : Nat := 4

/-- How a call of `read` ends: with so many bytes, if they are asked for and there, or with an
error number. -/
inductive ReadOutcome where
  | transferred (count : Nat)
  | failed (errno : Nat)
  deriving DecidableEq, Repr

/-- The script goes on with a call that fails and is not retried. -/
def ReadOutcome.fails : List ReadOutcome → Bool
  | [] => false
  | .transferred _ :: _ => false
  | .failed errno :: outcomes => if errno = EINTR then fails outcomes else true

/-- `PosixSequentialFile`, with the file behind `fd_`, the position in it and the script; the texts
of error numbers come from the C library, and `memory` is what lies from `scratch` on. -/
structure PosixSequentialFile where
  filename : String
  contents : Bytes
  position : Nat
  outcomes : List ReadOutcome
  strerror : Nat → String
  memory : Nat → UInt8

namespace PosixSequentialFile

/-- A file that has just been opened. -/
def new (filename : String) (contents : Bytes) (outcomes : List ReadOutcome)
    (strerror : Nat → String) (memory : Nat → UInt8) : PosixSequentialFile :=
  { filename, contents, position := 0, outcomes, strerror, memory }

/-- The bytes that are not read yet; there are none behind the end. -/
def rest (file : PosixSequentialFile) : Bytes := file.contents.drop file.position

/-- So many bytes have been read, and the script goes on with these calls. -/
def advance (file : PosixSequentialFile) (size : Nat) (outcomes : List ReadOutcome) :
    PosixSequentialFile :=
  { file with position := file.position + size, outcomes }

@[simp] theorem rest_advance (file : PosixSequentialFile) (size : Nat)
    (outcomes : List ReadOutcome) : (file.advance size outcomes).rest = file.rest.drop size :=
  List.drop_drop.symm

/-- The loop of `PosixSequentialFile::Read` on the script. -/
def readLoop (file : PosixSequentialFile) (n : Nat) :
    List ReadOutcome → Status × Bytes × PosixSequentialFile
  | [] =>
    let data := file.rest.take n
    (.ok, data, file.advance data.length [])
  | .transferred count :: outcomes =>
    let data := file.rest.take (min count n)
    (.ok, data, file.advance data.length outcomes)
  | .failed errno :: outcomes =>
    if errno = EINTR then file.readLoop n outcomes
    else
      -- the slice has the size of the `ssize_t` -1
      (posixError file.strerror file.filename errno,
        (List.range (2 ^ 64 - 1)).map file.memory, { file with outcomes })

/-- `PosixSequentialFile::Read`. -/
def read (file : PosixSequentialFile) (n : Nat) : Status × Bytes × PosixSequentialFile :=
  file.readLoop n file.outcomes

/-- `lseek` from a position, with the distance as an `off_t`; `none` if the new one is none. -/
def lseek (position distance : Nat) : Option Nat :=
  let offset : Int := if distance < 2 ^ 63 then distance else distance - 2 ^ 64
  if 0 ≤ position + offset ∧ position + offset < 2 ^ 63 then some (position + offset).toNat
  else none

/-- `PosixSequentialFile::Skip`, which may go past the end, and back for a distance from 2^63
on. -/
def skip (file : PosixSequentialFile) (n : Nat) : Status × PosixSequentialFile :=
  match lseek file.position n with
  | none => (posixError file.strerror file.filename EINVAL, file)
  | some position => (.ok, { file with position })

/-- As long as positions are values of `off_t`, `Skip` leaves out the next `n` bytes. -/
theorem skip_of_lt {file : PosixSequentialFile} {n : Nat} (small : file.position + n < 2 ^ 63) :
    (file.skip n).1 = .ok ∧ (file.skip n).2.rest = file.rest.drop n := by
  have sought : lseek file.position n = some (file.position + n) := by
    simp only [lseek, if_pos (show n < 2 ^ 63 by omega)]
    rw [if_pos (by omega)]
    rfl
  rw [skip, sought]
  exact ⟨rfl, List.drop_drop.symm⟩

instance : Log.SequentialFile PosixSequentialFile where
  read := read
  skip := skip

/-- An error is not OK. -/
theorem posixError_isOk (strerror : Nat → String) (context : String) (errno : Nat) :
    (posixError strerror context errno).isOk = false := by
  unfold posixError
  split_ifs <;> rfl

/-- Asking for more than there is gives what there is. -/
theorem take_min_length (bytes : Bytes) (n : Nat) :
    bytes.take (min n bytes.length) = bytes.take n := by
  rw [← List.take_take, List.take_length]

/-- A read that does not fail returns a part of what is left, from its beginning. -/
theorem readLoop_of_not_fails (file : PosixSequentialFile) (n : Nat) {script : List ReadOutcome}
    (succeeds : ReadOutcome.fails script = false) :
    ∃ size outcomes, size ≤ n ∧ size ≤ file.rest.length ∧ file.readLoop n script =
      (.ok, file.rest.take size, file.advance size outcomes) := by
  induction script with
  | nil =>
    refine ⟨min n file.rest.length, [], Nat.min_le_left _ _, Nat.min_le_right _ _, ?_⟩
    rw [take_min_length, ← List.length_take]
    rfl
  | cons outcome script inductionHypothesis =>
    cases outcome with
    | transferred count =>
      refine ⟨min (min count n) file.rest.length, script, ?_, Nat.min_le_right _ _, ?_⟩
      · exact (Nat.min_le_left _ _).trans (Nat.min_le_right _ _)
      · rw [take_min_length, ← List.length_take]
        rfl
    | failed errno =>
      rw [ReadOutcome.fails] at succeeds
      split_ifs at succeeds with retried
      rw [readLoop, if_pos retried]
      exact inductionHypothesis succeeds

/-- A read that fails returns a slice of 2^64 - 1 bytes and reads nothing. -/
theorem readLoop_of_fails (file : PosixSequentialFile) (n : Nat) {script : List ReadOutcome}
    (fails : ReadOutcome.fails script = true) :
    (file.readLoop n script).1.isOk = false ∧ (file.readLoop n script).2.1.length = 2 ^ 64 - 1 ∧
      (file.readLoop n script).2.2.rest = file.rest := by
  induction script with
  | nil => cases fails
  | cons outcome script inductionHypothesis =>
    cases outcome with
    | transferred count => cases fails
    | failed errno =>
      rw [ReadOutcome.fails] at fails
      rw [readLoop]
      split_ifs at fails ⊢ with retried
      · exact inductionHypothesis fails
      · refine ⟨posixError_isOk .., ?_, rfl⟩
        rw [List.length_map, List.length_range]

/-- `Read` returns at most what was asked for, unless it fails. -/
theorem length_read_le_iff (file : PosixSequentialFile) (n : Nat) :
    (file.read n).2.1.length ≤ n ↔
      ReadOutcome.fails file.outcomes = false ∨ 2 ^ 64 - 1 ≤ n := by
  unfold read
  cases fails : ReadOutcome.fails file.outcomes with
  | false =>
    obtain ⟨size, outcomes, asked, -, result⟩ := file.readLoop_of_not_fails n fails
    rw [result, List.length_take]
    exact iff_of_true ((Nat.min_le_left _ _).trans asked) (Or.inl rfl)
  | true =>
    rw [(file.readLoop_of_fails n fails).2.1]
    simp only [Bool.true_eq_false, false_or]

end PosixSequentialFile

end LevelDbXy.Posix

namespace LevelDbXy.Log

/-! ### The log reader -/

/-- The reader after a round. -/
def ReadStep.reader {F : Type} : ReadStep F → Reader F
  | .next reader _ => reader
  | .found reader _ => reader
  | .stop reader => reader

namespace Reader

variable {F : Type}

/-- The position in the file is the same. -/
structure SamePosition (reader other : Reader F) : Prop where
  file : other.file = reader.file
  offset : other.endOfBufferOffset = reader.endOfBufferOffset

/-- Nothing is read. -/
theorem SamePosition.refl (reader : Reader F) : SamePosition reader reader := ⟨rfl, rfl⟩

/-- Nothing is read in two parts. -/
theorem SamePosition.trans {first second third : Reader F} (earlier : SamePosition first second)
    (later : SamePosition second third) : SamePosition first third :=
  ⟨later.file.trans earlier.file, later.offset.trans earlier.offset⟩

/-- A report reads nothing. -/
theorem reportDrop_position (reader : Reader F) (bytes : Nat) (reason : Status) :
    SamePosition reader (reader.reportDrop bytes reason) := by
  unfold reportDrop
  split_ifs <;> exact ⟨rfl, rfl⟩

/-- Nor does the report of a corruption. -/
theorem reportCorruption_position (reader : Reader F) (bytes : Nat) (reason : String) :
    SamePosition reader (reader.reportCorruption bytes reason) :=
  reader.reportDrop_position bytes (.corruption reason)

/-- Nor does the parsing of the buffer. -/
theorem parseBuffer_position (reader : Reader F) (result : Bytes) :
    SamePosition reader (reader.parseBuffer result).2.2 := by
  unfold parseBuffer
  simp only
  split_ifs
  · have reported := reportCorruption_position { reader with buffer := [] }
      reader.buffer.length "bad record length"
    exact ⟨reported.file, reported.offset⟩
  · exact ⟨rfl, rfl⟩
  · exact ⟨rfl, rfl⟩
  · exact ⟨rfl, rfl⟩
  · exact ⟨rfl, rfl⟩

/-- Nor does what is done with a physical record. -/
theorem switchRecord_position (reader : Reader F) (locals : ReadLocals) (recordType offset : Nat) :
    SamePosition reader (reader.switchRecord locals recordType offset).reader := by
  have reported : ∀ bytes reason, SamePosition reader (reader.reportCorruption bytes reason) :=
    reader.reportCorruption_position
  unfold switchRecord
  simp only
  split_ifs
  · exact ⟨(reported _ _).file, (reported _ _).offset⟩
  · exact ⟨rfl, rfl⟩
  · exact reported _ _
  · exact SamePosition.refl reader
  · exact reported _ _
  · exact SamePosition.refl reader
  · exact reported _ _
  · exact ⟨rfl, rfl⟩
  · exact SamePosition.refl reader
  · exact reported _ _
  · exact SamePosition.refl reader
  · exact reported _ _
  · exact reported _ _

/-- The buffer is used up and the end of the file is not known to be reached. -/
def needsRead (reader : Reader F) : Prop := reader.buffer.length < kHeaderSize ∧ reader.eof = false

instance (reader : Reader F) : Decidable reader.needsRead := inferInstanceAs (Decidable (_ ∧ _))

variable [SequentialFile F]

/-- A round that needs no read leaves the position alone. -/
theorem readPhysicalRecord_position {reader : Reader F} (enough : ¬ reader.needsRead)
    (result : Bytes) : SamePosition reader (reader.readPhysicalRecord result).2.2 := by
  unfold readPhysicalRecord
  split_ifs with short notEof
  · exact absurd ⟨short, by simpa using notEof⟩ enough
  · exact ⟨rfl, rfl⟩
  · exact reader.parseBuffer_position result

/-- A round that needs a read adds the size it returns to the offset. -/
theorem readPhysicalRecord_reads {reader : Reader F} (needs : reader.needsRead) (result : Bytes) :
    SamePosition
      { reader with
        file := (SequentialFile.read reader.file kBlockSize).2.2
        endOfBufferOffset := truncU64
          (reader.endOfBufferOffset + (SequentialFile.read reader.file kBlockSize).2.1.length) }
      (reader.readPhysicalRecord result).2.2 := by
  obtain ⟨short, notEof⟩ := needs
  rw [readPhysicalRecord, if_pos short, if_pos (by simp [notEof])]
  generalize SequentialFile.read reader.file kBlockSize = read
  dsimp only
  split_ifs
  · have dropped := reportDrop_position { reader with
      file := read.2.2
      buffer := []
      endOfBufferOffset := truncU64 (reader.endOfBufferOffset + read.2.1.length) } kBlockSize read.1
    exact ⟨dropped.file, dropped.offset⟩
  · exact ⟨rfl, rfl⟩
  · have parsed := parseBuffer_position { reader with
      file := read.2.2
      buffer := read.2.1
      eof := decide (read.2.1.length < kBlockSize)
      endOfBufferOffset := truncU64 (reader.endOfBufferOffset + read.2.1.length) } result
    exact ⟨parsed.file, parsed.offset⟩

/-- Nothing of a round but the physical record changes the position. -/
theorem readRecordStep_position (reader : Reader F) (locals : ReadLocals) :
    SamePosition (reader.readPhysicalRecord locals.fragment).2.2
      (reader.readRecordStep locals).reader := by
  unfold readRecordStep
  simp only
  split_ifs
  · exact SamePosition.refl _
  · exact ⟨rfl, rfl⟩
  · have switched := switchRecord_position
      { (reader.readPhysicalRecord locals.fragment).2.2 with resyncing := false }
      { locals with fragment := (reader.readPhysicalRecord locals.fragment).2.1 }
      (reader.readPhysicalRecord locals.fragment).1
      ((reader.readPhysicalRecord locals.fragment).2.2.physicalRecordOffset
        (reader.readPhysicalRecord locals.fragment).2.1.length)
    exact ⟨switched.file, switched.offset⟩

end Reader

open Posix

/-- A reader of a `PosixSequentialFile` in the loop of `ReadRecord`. -/
structure PosixReading where
  reader : Reader PosixSequentialFile
  locals : ReadLocals

namespace PosixReading

/-- The locals of `ReadRecord` at its start. -/
def start (reader : Reader PosixSequentialFile) : PosixReading := ⟨reader, ⟨false, 0, [], []⟩⟩

/-- A round of the loop of `ReadRecord`, which is called again when it has returned. With
`initial_offset` 0 it never skips. -/
def round (reading : PosixReading) (_ : Unit) : Option PosixReading :=
  match reading.reader.readRecordStep reading.locals with
  | .next reader locals => some ⟨reader, locals⟩
  | .found reader _ => some (start reader)
  | .stop reader => some (start reader)

/-- The offset of the end of the buffer is the number of bytes delivered, of a file of this
size. -/
def Accounted (size : Nat) (reading : PosixReading) : Prop :=
  reading.reader.endOfBufferOffset = truncU64 (size - reading.reader.file.rest.length)

/-- The round reads, and the read fails. -/
def ReadFails (reading : PosixReading) : Prop :=
  reading.reader.needsRead ∧ ReadOutcome.fails reading.reader.file.outcomes = true

/-- A round is one step of the reader. -/
theorem round_reader {reading next : PosixReading} (stepped : reading.round () = some next) :
    next.reader = (reading.reader.readRecordStep reading.locals).reader := by
  unfold round at stepped
  cases result : reading.reader.readRecordStep reading.locals with
  | next reader locals =>
    rw [result] at stepped
    obtain rfl := Option.some.inj stepped
    rfl
  | found reader record =>
    rw [result] at stepped
    obtain rfl := Option.some.inj stepped
    rfl
  | stop reader =>
    rw [result] at stepped
    obtain rfl := Option.some.inj stepped
    rfl

/-- A round leaves the position alone or moves it by what a read returned. -/
theorem round_cases {reading next : PosixReading} (stepped : reading.round () = some next) :
    (¬ reading.reader.needsRead ∧ Reader.SamePosition reading.reader next.reader) ∨
    (reading.reader.needsRead ∧
      next.reader.file = (reading.reader.file.read kBlockSize).2.2 ∧
      next.reader.endOfBufferOffset = truncU64 (reading.reader.endOfBufferOffset +
        (reading.reader.file.read kBlockSize).2.1.length)) := by
  have position := reading.reader.readRecordStep_position reading.locals
  rw [← round_reader stepped] at position
  by_cases needs : reading.reader.needsRead
  · have reads := (Reader.readPhysicalRecord_reads needs reading.locals.fragment).trans position
    exact Or.inr ⟨needs, reads.file, reads.offset⟩
  · exact Or.inl ⟨needs,
      (Reader.readPhysicalRecord_position needs reading.locals.fragment).trans position⟩

/-- Nothing is unread that was not there. -/
theorem round_rest {size : Nat} {reading next : PosixReading}
    (bounded : reading.reader.file.rest.length ≤ size) (stepped : reading.round () = some next) :
    next.reader.file.rest.length ≤ size := by
  rcases round_cases stepped with ⟨-, same⟩ | ⟨-, file, -⟩
  · rw [same.file]
    exact bounded
  · rw [file, PosixSequentialFile.read]
    cases fails : ReadOutcome.fails reading.reader.file.outcomes with
    | true =>
      rw [(reading.reader.file.readLoop_of_fails _ fails).2.2]
      exact bounded
    | false =>
      obtain ⟨size, outcomes, -, -, result⟩ := reading.reader.file.readLoop_of_not_fails _ fails
      rw [result, PosixSequentialFile.rest_advance, List.length_drop]
      exact (Nat.sub_le _ _).trans bounded

/-- Every round is possible. -/
theorem round_total (reading : PosixReading) : ∃ next, reading.round () = some next := by
  unfold round
  cases reading.reader.readRecordStep reading.locals <;> exact ⟨_, rfl⟩

/-- A round keeps the account exactly if it does not run into a failing read. -/
theorem round_accounted_iff {size : Nat} {reading : PosixReading}
    (bounded : reading.reader.file.rest.length ≤ size) (accounted : reading.Accounted size) :
    ¬ reading.ReadFails ↔ ∀ next, reading.round () = some next → next.Accounted size := by
  constructor
  · intro succeeds next stepped
    rcases round_cases stepped with ⟨-, same⟩ | ⟨needs, file, offset⟩
    · rw [Accounted, same.offset, same.file]
      exact accounted
    · have noFailure : ReadOutcome.fails reading.reader.file.outcomes = false := by
        by_contra fails
        exact succeeds ⟨needs, by simpa using fails⟩
      obtain ⟨taken, outcomes, -, inside, result⟩ :=
        reading.reader.file.readLoop_of_not_fails kBlockSize noFailure
      rw [PosixSequentialFile.read, result] at file offset
      rw [Accounted, offset, file, accounted, PosixSequentialFile.rest_advance]
      simp only [truncU64, List.length_take, List.length_drop]
      omega
  · rintro keeps ⟨needs, fails⟩
    obtain ⟨next, stepped⟩ := reading.round_total
    rcases round_cases stepped with ⟨notNeeded, -⟩ | ⟨-, file, offset⟩
    · exact notNeeded needs
    · obtain ⟨-, size_, rest⟩ := reading.reader.file.readLoop_of_fails kBlockSize fails
      have holds := keeps next stepped
      rw [Accounted, offset, file, PosixSequentialFile.read, size_, rest, accounted] at holds
      simp only [truncU64] at holds
      omega

/-- `Read` returns at most what was asked for exactly if it does not fail (or 2^64 - 1 bytes
were asked for). In a log reader that starts at offset 0, the end of the buffer is always
at the number of bytes delivered, as long as no read fails, and not after the first that does. -/
theorem sequential_reads_accounted_iff (file : PosixSequentialFile) (reporter : Bool)
    (rounds : List Unit) :
    (∀ (later : PosixSequentialFile) (n : Nat), (later.read n).2.1.length ≤ n ↔
      ReadOutcome.fails later.outcomes = false ∨ 2 ^ 64 - 1 ≤ n) ∧
    (Machine.Always round (Accounted file.rest.length) (start (.new file reporter 0)) rounds ↔
      Machine.Meets round (fun reading _ => ¬ reading.ReadFails) (start (.new file reporter 0))
        rounds) := by
  refine ⟨fun later n => later.length_read_le_iff n, ?_⟩
  have initial : Accounted file.rest.length (start (.new file reporter 0)) := by
    simp [Accounted, start, Reader.new, truncU64]
  exact @Machine.always_iff_meets _ _ round (fun reading _ => ¬ reading.ReadFails)
    (fun reading => reading.reader.file.rest.length ≤ file.rest.length) _
    (fun bounded stepped => round_rest bounded stepped)
    (fun bounded accounted => round_accounted_iff bounded accounted) rounds _ (Nat.le_refl _)
    initial

/-- A log file whose first read fails. -/
def failingLog : PosixSequentialFile :=
  .new "000003.log" [] [.failed 5] (fun _ => "Input/output error") fun _ => 0

/-- The first read fails: it returns a slice of 2^64 - 1 bytes, and the end of the buffer is
there, though nothing was delivered. -/
theorem failing_read_moves_offset :
    ¬ (failingLog.read kBlockSize).2.1.length ≤ kBlockSize ∧
      ∃ next, round (start (.new failingLog true 0)) () = some next ∧
        next.reader.endOfBufferOffset = 2 ^ 64 - 1 ∧ ¬ next.Accounted 0 := by
  have size : (failingLog.read kBlockSize).2.1.length = 2 ^ 64 - 1 :=
    (failingLog.readLoop_of_fails kBlockSize rfl).2.1
  obtain ⟨next, stepped⟩ := round_total (start (.new failingLog true 0))
  have moved : next.reader.endOfBufferOffset = 2 ^ 64 - 1 := by
    rcases round_cases stepped with ⟨notNeeded, -⟩ | ⟨-, -, offset⟩
    · exact absurd ⟨by decide, rfl⟩ notNeeded
    · rw [offset, show (start (.new failingLog true 0)).reader.file = failingLog from rfl, size]
      rfl
  refine ⟨by rw [size]; decide, next, stepped, moved, ?_⟩
  rw [Accounted, moved, Nat.zero_sub]
  decide

end PosixReading

end LevelDbXy.Log
