import LevelDbXy.Env.WritableSession
import LevelDbXy.Log.Writer

/-!
# The log on a file of the system

The log writer over `PosixWritableFile`, with any behaviour of `write`. Every physical record
ends with a `Flush` and fits the buffer of the file together with the trailer before it, so that
the buffer is empty between two physical records and only a `Flush` can fail. `AddRecord`
therefore writes the bytes of its record, and a first part of them if it fails.
-/

namespace LevelDbXy.Log

open Posix

/-- An open `PosixWritableFile` over the state of the kernel. -/
structure OpenFile (strerror : Nat → String) where
  file : PosixWritableFile
  kernel : Kernel
  deriving DecidableEq, Repr

variable {strerror : Nat → String}

instance : Destination (OpenFile strerror) where
  append dest data :=
    let (status, file, kernel) := dest.file.append strerror data dest.kernel
    (status, ⟨file, kernel⟩)
  flush dest :=
    let (status, file, kernel) := dest.file.flush strerror dest.kernel
    (status, ⟨file, kernel⟩)

/-! ### One record -/

namespace OpenFile

/-- Data that the buffer has room for is copied. -/
theorem append_fits {dest : OpenFile strerror} {data : Bytes}
    (fits : data.length ≤ kWritableFileBufferSize - dest.file.buffer.length) :
    Destination.append dest data =
      (.ok, ⟨{ dest.file with buffer := dest.file.buffer ++ data }, dest.kernel⟩) := by
  simp only [Destination.append, PosixWritableFile.append_of_fits dest.kernel fits]

/-- `Flush` writes the buffer. -/
theorem flush_eq (dest : OpenFile strerror) :
    Destination.flush dest =
      ((dest.file.writeUnbuffered strerror dest.file.buffer dest.kernel).1,
        ⟨{ dest.file with buffer := [] },
          (dest.file.writeUnbuffered strerror dest.file.buffer dest.kernel).2⟩) := rfl

end OpenFile

/-- What is left of a call of a writer: the kernel has written a first part of the bytes, all of
them if the call returned OK, and the file and its empty buffer are as before. -/
structure Emits (dest : OpenFile strerror) (bytes : Bytes) (amount : Nat) (status : Status)
    (after : OpenFile strerror) (calls : List SystemCall) : Prop where
  file : after.file = dest.file
  empty : dest.file.buffer = []
  writes : Writes dest.kernel bytes amount status after.kernel calls
  bound : amount ≤ bytes.length

namespace Emits

variable {dest middle after : OpenFile strerror} {first second : Bytes} {amount : Nat}
  {status : Status} {calls later : List SystemCall}

/-- The next call goes on where one that returned OK has ended. -/
theorem trans (emits : Emits dest first first.length .ok middle calls)
    (next : Emits middle second amount status after later) :
    Emits dest (first ++ second) (first.length + amount) status after (calls ++ later) := by
  refine ⟨next.file.trans emits.file, emits.empty, ⟨?_, ?_, ?_, ?_, ?_, ?_, ?_⟩, ?_⟩
  · rw [next.writes.file, emits.writes.file, List.take_length, List.take_length_add_append,
      List.append_assoc]
  · rw [next.writes.ok_iff, List.length_append]
    omega
  · exact next.writes.others.trans emits.writes.others
  · rw [next.writes.trace, emits.writes.trace, List.append_assoc]
  · intro call member
    exact (List.mem_append.mp member).elim (emits.writes.only call) (next.writes.only call)
  · rw [written, List.flatMap_append]
    exact (congrArg₂ (· ++ ·) emits.writes.wrote next.writes.wrote).trans (by
      rw [List.take_length, List.take_length_add_append])
  · intro notOk
    obtain ⟨call, member, fails⟩ := next.writes.failure notOk
    exact ⟨call, List.mem_append_right _ member, fails⟩
  · rw [List.length_append]
    exact Nat.add_le_add_left next.bound _

/-- Nothing follows a call that failed. -/
theorem stopped (emits : Emits dest first amount status after calls) (notOk : status.isOk = false)
    (second : Bytes) : Emits dest (first ++ second) amount status after calls := by
  have short : amount < first.length := by
    refine Nat.lt_of_le_of_ne emits.bound fun whole => ?_
    rw [emits.writes.ok_iff.mpr whole] at notOk
    cases notOk
  have same : (first ++ second).take amount = first.take amount :=
    List.take_append_of_le_length emits.bound
  refine ⟨emits.file, emits.empty, ⟨?_, ?_, emits.writes.others, emits.writes.trace,
    emits.writes.only, ?_, emits.writes.failure⟩, ?_⟩
  · rw [emits.writes.file, same]
  · rw [notOk, List.length_append]
    simp only [Bool.false_eq_true, false_iff]
    omega
  · rw [emits.writes.wrote, same]
  · rw [List.length_append]
    exact emits.bound.trans (Nat.le_add_right _ _)

end Emits

namespace Writer

variable {writer : Writer (OpenFile strerror)}

/-- The trailer waits in the buffer. -/
theorem startBlock_openFile (empty : writer.dest.file.buffer = []) :
    writer.startBlock.dest = ⟨{ writer.dest.file with
      buffer := List.replicate (headerOffset writer.blockOffset - writer.blockOffset) 0 },
      writer.dest.kernel⟩ := by
  have inBlock := writer.inBlock
  have place := headerOffset_cases writer.blockOffset
  have unchanged : writer.dest = ⟨{ writer.dest.file with buffer := [] }, writer.dest.kernel⟩ := by
    rw [← empty]
  unfold startBlock
  by_cases short : kBlockSize - writer.blockOffset < kHeaderSize
  · simp only [if_pos short]
    have size : kBlockSize - writer.blockOffset =
        headerOffset writer.blockOffset - writer.blockOffset := by
      simp only [kBlockSize, kHeaderSize] at *
      omega
    rw [size]
    split_ifs with trailer
    · rw [OpenFile.append_fits, empty, List.nil_append]
      simp only [empty, List.length_replicate, List.length_nil, kWritableFileBufferSize,
        kBlockSize, kHeaderSize] at *
      omega
    · rw [Nat.eq_zero_of_not_pos trailer]
      exact unchanged
  · simp only [if_neg short]
    have none : headerOffset writer.blockOffset - writer.blockOffset = 0 := by
      simp only [kBlockSize, kHeaderSize] at *
      omega
    rw [none]
    exact unchanged

/-- The offset of the writer is that of the end of the file. -/
def AtEnd (writer : Writer (OpenFile strerror)) : Prop :=
  writer.blockOffset % kBlockSize = writer.dest.kernel.file.length % kBlockSize

/-- A physical record fits the buffer together with a trailer, and one `Flush` writes it. -/
theorem emitPhysicalRecord_emits {file : PosixWritableFile} {kernel : Kernel} {trailer : Bytes}
    (started : writer.dest = ⟨{ file with buffer := trailer }, kernel⟩) (empty : file.buffer = [])
    (short : trailer.length < kHeaderSize) (type : RecordType) {data : Bytes}
    (fits : writer.blockOffset + kHeaderSize + data.length ≤ kBlockSize) :
    ∃ amount calls, Emits ⟨file, kernel⟩ (trailer ++ (header type.toByte data.length ++ data))
      amount (writer.emitPhysicalRecord type data fits).1
      (writer.emitPhysicalRecord type data fits).2.dest calls := by
  unfold emitPhysicalRecord
  simp only
  rw [started, OpenFile.append_fits]
  · simp only [Status.isOk, if_true]
    rw [OpenFile.append_fits]
    · simp only [if_true, OpenFile.flush_eq, PosixWritableFile.writeUnbuffered_buffer,
        List.append_assoc]
      obtain ⟨calls, writes⟩ := file.writeUnbuffered_spec strerror
        (trailer ++ (header type.toByte data.length ++ data)) kernel
      refine ⟨_, calls, ?_, empty, writes, file.deliverable_le kernel _⟩
      rw [← empty]
    · simp only [List.length_append, length_header, kWritableFileBufferSize, kBlockSize,
        kHeaderSize] at *
      omega
  · simp only [length_header, kWritableFileBufferSize, kHeaderSize] at *
    omega

/-- With the file, the writer has gone on to the place of the next header. -/
theorem blockOffset_startBlock_mod (writer : Writer (OpenFile strerror)) :
    writer.startBlock.blockOffset % kBlockSize = headerOffset writer.blockOffset % kBlockSize := by
  have inBlock := writer.inBlock
  have place := headerOffset_cases writer.blockOffset
  unfold startBlock
  by_cases short : kBlockSize - writer.blockOffset < kHeaderSize
  · simp only [if_pos short]
    simp only [kBlockSize, kHeaderSize] at *
    omega
  · simp only [if_neg short]
    simp only [kBlockSize, kHeaderSize] at *
    omega

/-- One round of the loop of `AddRecord` writes a physical record where the format puts it. -/
theorem emitFragment_emits (begin : Bool) {data : Bytes} {length : Nat} (synced : writer.AtEnd)
    (empty : writer.dest.file.buffer = [])
    (taken : writer.startBlock.fragmentLength data.length = length) :
    ∃ amount calls, Emits writer.dest
        (encode writer.dest.kernel.file.length [⟨headerOffset writer.dest.kernel.file.length,
          (fragmentType begin (data.length == length)).toByte, data.take length⟩]) amount
        (writer.emitFragment begin data).1 (writer.emitFragment begin data).2.dest calls ∧
      ((writer.emitFragment begin data).1.isOk = true →
        (writer.emitFragment begin data).2.AtEnd) := by
  subst taken
  have place := headerOffset_cases writer.blockOffset
  have filePlace := headerOffset_cases writer.dest.kernel.file.length
  unfold AtEnd at synced
  have inBlock := writer.inBlock
  have same : headerOffset writer.blockOffset - writer.blockOffset =
      headerOffset writer.dest.kernel.file.length - writer.dest.kernel.file.length := by
    simp only [kBlockSize] at *
    omega
  obtain ⟨amount, calls, emits⟩ := emitPhysicalRecord_emits (startBlock_openFile empty) empty (by
    rw [List.length_replicate]
    simp only [kBlockSize, kHeaderSize] at *
    omega) (fragmentType begin (data.length == writer.startBlock.fragmentLength data.length))
    (writer.fragment_fits data)
  have started := blockOffset_startBlock_mod writer
  rw [same] at emits
  simp only [encode, Fragment.bytes, List.append_nil]
  refine ⟨amount, calls, emits, fun isOk => ?_⟩
  have grown : (writer.emitFragment begin data).2.dest.kernel.file.length = _ :=
    congrArg List.length (emits.writes.file_of_ok isOk)
  rw [AtEnd, blockOffset_emitFragment, grown]
  simp only [List.length_append, List.length_replicate, length_header]
  simp only [kBlockSize, kHeaderSize] at *
  omega

/-- `AddRecord` writes the fragments of the record, or a first part of their bytes if it fails. -/
theorem addRecordLoop_emits (begin : Bool) {pos : Nat} {data : Bytes}
    (atEnd : writer.dest.kernel.file.length = pos) (synced : writer.AtEnd)
    (empty : writer.dest.file.buffer = []) :
    ∃ amount calls, Emits writer.dest (encode pos (fragments begin pos data)) amount
        (writer.addRecordLoop begin data).1 (writer.addRecordLoop begin data).2.dest calls ∧
      ((writer.addRecordLoop begin data).1.isOk = true →
        (writer.addRecordLoop begin data).2.AtEnd) := by
  induction pos, data using fragments_induction generalizing writer begin with
  | step pos data inductionHypothesis =>
    subst atEnd
    have length : writer.startBlock.fragmentLength data.length =
        if data.length < room writer.dest.kernel.file.length then data.length
        else room writer.dest.kernel.file.length := by
      rw [fragmentLength, avail_startBlock, room_congr synced]
    rw [addRecordLoop]
    rcases Nat.lt_or_ge (room writer.dest.kernel.file.length) data.length with long | short
    · rw [if_neg (Nat.not_lt_of_lt long)] at length
      obtain ⟨amount, calls, emits, syncedNext⟩ := emitFragment_emits begin synced empty length
      have unfinished : (data.length == room writer.dest.kernel.file.length) = false := by
        rw [beq_eq_false_iff_ne]
        omega
      have more : 0 < (data.drop (room writer.dest.kernel.file.length)).length := by
        rw [List.length_drop]
        omega
      have placed := placed_fragments begin writer.dest.kernel.file.length data
      rw [unfinished] at emits
      rw [fragments_of_lt begin long] at placed ⊢
      rw [encode_cons, finish_take_room _ long]
      simp only [length, more, decide_true, Bool.and_true]
      by_cases isOk : (writer.emitFragment begin data).1.isOk = true
      · rw [if_pos isOk]
        have whole := emits.writes.ok_iff.mp isOk
        have atEnd : (writer.emitFragment begin data).2.dest.kernel.file.length =
            filled writer.dest.kernel.file.length := by
          rw [emits.writes.file_of_ok isOk, List.length_append, add_length_encode_singleton placed]
          exact finish_take_room _ long
        obtain ⟨further, later, emitsLater, syncedLast⟩ := inductionHypothesis long false atEnd
          (syncedNext isOk) (emits.file ▸ empty)
        rw [whole, (Status.isOk_iff _).mp isOk] at emits
        exact ⟨_, _, emits.trans emitsLater, syncedLast⟩
      · rw [if_neg isOk]
        exact ⟨amount, calls, emits.stopped (Bool.eq_false_iff.mpr isOk) _,
          fun ok => absurd ok isOk⟩
    · have all : writer.startBlock.fragmentLength data.length = data.length := by
        rw [length]
        split <;> omega
      have emits := emitFragment_emits begin synced empty all
      rw [List.take_length, beq_self_eq_true] at emits
      rw [fragments_of_le begin short]
      simp only [all, List.drop_length, List.length_nil, Nat.lt_irrefl, decide_false,
        Bool.and_false, Bool.false_eq_true, if_false]
      exact emits

/-- A record is emitted as the format has it, up to where a write fails. -/
theorem addRecord_emits (record : Bytes) (synced : writer.AtEnd)
    (empty : writer.dest.file.buffer = []) :
    ∃ amount calls, Emits writer.dest (encode writer.dest.kernel.file.length
        (fragments true writer.dest.kernel.file.length record)) amount
        (writer.addRecord record).1 (writer.addRecord record).2.dest calls ∧
      ((writer.addRecord record).1.isOk = true → (writer.addRecord record).2.AtEnd) :=
  addRecordLoop_emits true rfl synced empty

end Writer

end LevelDbXy.Log
