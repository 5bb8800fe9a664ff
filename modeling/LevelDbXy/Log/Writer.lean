import LevelDbXy.Log.Layout

/-!
# The log writer

`log_writer/log_writer.cpp`, over any type with the interface of `ns_env::WritableFile`. `AddRecord`
drops the status of the trailer it may append first; all other statuses end the call.

One such file is a file in memory together with the status of each call that is going to be made
on it. On this, acknowledged records extend the file by their fragments as long as no trailer is
lost.
-/

namespace LevelDbXy.Log

open Coding

/-- `ns_env::WritableFile`, as far as `Writer` calls it. -/
class Destination (D : Type) where
  append : D → Bytes → Status × D
  flush : D → Status × D

/-- `Writer`; no call moves the offset out of the block. -/
structure Writer (D : Type) where
  dest : D
  blockOffset : Nat
  inBlock : blockOffset ≤ kBlockSize

namespace Writer

variable {D : Type}

/-- `Writer::Writer(dest)`. -/
def new (dest : D) : Writer D := ⟨dest, 0, Nat.zero_le _⟩

/-- `Writer::Writer(dest, dest_length)`. -/
def reopen (dest : D) (destLength : Nat) : Writer D :=
  ⟨dest, destLength % kBlockSize, Nat.le_of_lt (Nat.mod_lt _ (by decide))⟩

/-- The room for a payload in the block. -/
def avail (writer : Writer D) : Nat := kBlockSize - writer.blockOffset - kHeaderSize

/-- The length of the next fragment of a record with `left` bytes left. -/
def fragmentLength (writer : Writer D) (left : Nat) : Nat :=
  if left < writer.avail then left else writer.avail

variable [Destination D]

/-- `Writer::EmitPhysicalRecord`; `fits` is its assertion. -/
def emitPhysicalRecord (writer : Writer D) (type : RecordType) (data : Bytes)
    (fits : writer.blockOffset + kHeaderSize + data.length ≤ kBlockSize) : Status × Writer D :=
  let appended := Destination.append writer.dest (header type.toByte data.length)
  let result :=
    if appended.1.isOk then
      let appended := Destination.append appended.2 data
      if appended.1.isOk then Destination.flush appended.2 else appended
    else appended
  (result.1, ⟨result.2, writer.blockOffset + kHeaderSize + data.length, fits⟩)

/-- The top of the loop of `AddRecord`: without room for a header the rest of the
block is filled and a new block begun. The status of the fill is not looked at. -/
def startBlock (writer : Writer D) : Writer D :=
  let leftOver := kBlockSize - writer.blockOffset
  if leftOver < kHeaderSize then
    let dest :=
      if 0 < leftOver then (Destination.append writer.dest (List.replicate leftOver 0)).2
      else writer.dest
    ⟨dest, 0, Nat.zero_le _⟩
  else writer

/-- A header fits after the top of the loop. -/
theorem startBlock_fits (writer : Writer D) :
    writer.startBlock.blockOffset + kHeaderSize ≤ kBlockSize := by
  unfold startBlock
  by_cases short : kBlockSize - writer.blockOffset < kHeaderSize
  · simp only [if_pos short]
    decide
  · simp only [if_neg short]
    have := writer.inBlock
    omega

/-- The assertion of `EmitPhysicalRecord` holds in `AddRecord`. -/
theorem fragment_fits (writer : Writer D) (data : Bytes) :
    writer.startBlock.blockOffset + kHeaderSize +
      (data.take (writer.startBlock.fragmentLength data.length)).length ≤ kBlockSize := by
  have fits := writer.startBlock_fits
  rw [List.length_take, fragmentLength, avail]
  split <;> omega

/-- The room in the block depends on the position in the file only. -/
theorem avail_startBlock (writer : Writer D) :
    writer.startBlock.avail = room writer.blockOffset := by
  have inBlock := writer.inBlock
  have place := headerOffset_cases writer.blockOffset
  unfold avail startBlock room
  by_cases short : kBlockSize - writer.blockOffset < kHeaderSize
  · simp only [if_pos short]
    simp only [kBlockSize, kHeaderSize] at *
    omega
  · simp only [if_neg short]
    simp only [kBlockSize, kHeaderSize] at *
    omega

/-- One round of the loop of `AddRecord`, up to the returned status. -/
def emitFragment (writer : Writer D) (begin : Bool) (data : Bytes) : Status × Writer D :=
  let length := writer.startBlock.fragmentLength data.length
  writer.startBlock.emitPhysicalRecord (fragmentType begin (data.length == length))
    (data.take length) (writer.fragment_fits data)

/-- Where the writer stands after a fragment. -/
theorem blockOffset_emitFragment (writer : Writer D) (begin : Bool) (data : Bytes) :
    (writer.emitFragment begin data).2.blockOffset = writer.startBlock.blockOffset + kHeaderSize +
      (data.take (writer.startBlock.fragmentLength data.length)).length := rfl

/-- A fragment that does not end its record takes all the room and ends its block. -/
theorem fragment_filled (writer : Writer D) (begin : Bool) {data : Bytes}
    (more : writer.startBlock.fragmentLength data.length < data.length) :
    writer.startBlock.fragmentLength data.length = room writer.blockOffset ∧
      (writer.emitFragment begin data).2.blockOffset = kBlockSize := by
  have fits := writer.startBlock_fits
  have whole : writer.startBlock.fragmentLength data.length = writer.startBlock.avail := by
    unfold fragmentLength at more ⊢
    split_ifs at more ⊢
    · omega
    · rfl
  refine ⟨whole.trans writer.avail_startBlock, ?_⟩
  rw [blockOffset_emitFragment, List.length_take, Nat.min_eq_left (Nat.le_of_lt more), whole,
    avail]
  omega

/-- `Writer::AddRecord` from the top of its loop, with what is left of the record. -/
def addRecordLoop (writer : Writer D) (begin : Bool) (data : Bytes) : Status × Writer D :=
  let length := writer.startBlock.fragmentLength data.length
  let result := writer.emitFragment begin data
  if result.1.isOk && 0 < (data.drop length).length then
    addRecordLoop result.2 false (data.drop length)
  else result
termination_by unwritten writer.blockOffset data.length
decreasing_by
  rename_i continues
  have more : writer.startBlock.fragmentLength data.length < data.length := by
    have left := of_decide_eq_true (Bool.and_eq_true_iff.mp continues).2
    rw [List.length_drop] at left
    exact Nat.lt_of_sub_pos left
  obtain ⟨whole, edge⟩ := fragment_filled writer begin more
  rw [List.length_drop, whole, edge,
    unwritten_congr ((Nat.mod_self _).trans (filled_mod writer.blockOffset).symm)]
  exact unwritten_filled_lt (whole ▸ more)

/-- `Writer::AddRecord`. -/
def addRecord (writer : Writer D) (data : Bytes) : Status × Writer D :=
  writer.addRecordLoop true data

/-- `AddRecord` for one record after the other, with the statuses returned. -/
def addRecords (writer : Writer D) : List Bytes → List Status × Writer D
  | [] => ([], writer)
  | record :: records =>
    let added := writer.addRecord record
    let others := added.2.addRecords records
    (added.1 :: others.1, others.2)

end Writer

/-! ### A file in memory -/

/-- A `WritableFile`: `outcome` is the status of the n-th call on it. -/
structure WritableFile where
  contents : Bytes
  calls : Nat
  outcome : Nat → Status

namespace WritableFile

/-- An empty file. -/
def new (outcome : Nat → Status) : WritableFile := ⟨[], 0, outcome⟩

/-- `WritableFile::Append`; a failed call writes nothing. -/
def append (file : WritableFile) (data : Bytes) : Status × WritableFile :=
  let status := file.outcome file.calls
  (status, { file with
    contents := if status.isOk then file.contents ++ data else file.contents
    calls := file.calls + 1 })

/-- `WritableFile::Flush`. -/
def flush (file : WritableFile) : Status × WritableFile :=
  (file.outcome file.calls, { file with calls := file.calls + 1 })

end WritableFile

instance : Destination WritableFile where
  append := WritableFile.append
  flush := WritableFile.flush

/-- `Writer` appends to the file in memory. -/
@[simp] theorem append_writableFile (file : WritableFile) (data : Bytes) :
    Destination.append file data = file.append data := rfl

/-- `Writer` flushes the file in memory. -/
@[simp] theorem flush_writableFile (file : WritableFile) :
    Destination.flush file = file.flush := rfl

/-- A log written in sessions: the first `Writer` is opened on an empty file, each later
one on the file as it stands. -/
def writeLog (outcome : Nat → Status) : List (List Bytes) → List Status × WritableFile
  | [] => ([], WritableFile.new outcome)
  | first :: later =>
    let written := (Writer.new (WritableFile.new outcome)).addRecords first
    later.foldl (fun log records =>
      let written := (Writer.reopen log.2 log.2.contents.length).addRecords records
      (log.1 ++ written.1, written.2.dest)) (written.1, written.2.dest)

/-! ### What is written -/

namespace Writer

/-- The writer's offset is that of the end of its file. -/
def Synced (writer : Writer WritableFile) : Prop :=
  writer.blockOffset % kBlockSize = writer.dest.contents.length % kBlockSize

/-- If the next `AddRecord` has to append a trailer, this succeeds. -/
def TrailerKept (writer : Writer WritableFile) : Prop :=
  kBlockSize - writer.blockOffset < kHeaderSize → writer.blockOffset < kBlockSize →
    writer.dest.outcome writer.dest.calls = .ok

/-- A physical record that is acknowledged is in the file. -/
theorem emitPhysicalRecord_ok {writer : Writer WritableFile} {type : RecordType} {data : Bytes}
    {fits : writer.blockOffset + kHeaderSize + data.length ≤ kBlockSize}
    (ok : (writer.emitPhysicalRecord type data fits).1 = .ok) :
    (writer.emitPhysicalRecord type data fits).2.dest.contents =
      writer.dest.contents ++ (header type.toByte data.length ++ data) := by
  unfold emitPhysicalRecord at *
  simp only [append_writableFile, flush_writableFile, WritableFile.append,
    WritableFile.flush] at ok ⊢
  split_ifs at ok ⊢ with headerOk payloadOk
  · simp
  · simp_all [Status.isOk_iff]
  · simp_all [Status.isOk_iff]

/-- With the trailer kept, the header goes where the format puts it. -/
theorem startBlock_contents {writer : Writer WritableFile} (synced : writer.Synced)
    (kept : writer.TrailerKept) :
    writer.startBlock.dest.contents = writer.dest.contents ++
        List.replicate (headerOffset writer.dest.contents.length - writer.dest.contents.length) 0 ∧
      writer.startBlock.blockOffset = headerOffset writer.dest.contents.length % kBlockSize := by
  have inBlock := writer.inBlock
  have place := headerOffset_cases writer.dest.contents.length
  unfold startBlock
  unfold Synced at synced
  by_cases short : kBlockSize - writer.blockOffset < kHeaderSize
  · simp only [if_pos short]
    by_cases trailer : 0 < kBlockSize - writer.blockOffset
    · have ok := kept short (by omega)
      simp only [if_pos trailer, append_writableFile, WritableFile.append, ok, Status.isOk, if_true]
      simp only [kBlockSize, kHeaderSize] at *
      have size : 32768 - writer.blockOffset =
          headerOffset writer.dest.contents.length - writer.dest.contents.length := by omega
      exact ⟨by rw [size], by omega⟩
    · simp only [if_neg trailer]
      simp only [kBlockSize, kHeaderSize] at *
      have size : headerOffset writer.dest.contents.length - writer.dest.contents.length = 0 := by
        omega
      exact ⟨by simp [size], by omega⟩
  · simp only [if_neg short]
    simp only [kBlockSize, kHeaderSize] at *
    have size : headerOffset writer.dest.contents.length - writer.dest.contents.length = 0 := by
      omega
    exact ⟨by simp [size], by omega⟩

/-- The length of a fragment, from the position in the file. -/
theorem fragmentLength_startBlock {writer : Writer WritableFile} (synced : writer.Synced)
    (left : Nat) :
    writer.startBlock.fragmentLength left =
      if left < room writer.dest.contents.length then left
      else room writer.dest.contents.length := by
  rw [fragmentLength, avail_startBlock, room_congr synced]

/-- An acknowledged fragment is written where the format puts it. -/
theorem emitFragment_ok {writer : Writer WritableFile} {begin : Bool} {data : Bytes} {length : Nat}
    (synced : writer.Synced) (kept : writer.TrailerKept)
    (taken : writer.startBlock.fragmentLength data.length = length)
    (ok : (writer.emitFragment begin data).1 = .ok) :
    (writer.emitFragment begin data).2.dest.contents = writer.dest.contents ++
        encode writer.dest.contents.length [⟨headerOffset writer.dest.contents.length,
          (fragmentType begin (data.length == length)).toByte, data.take length⟩] ∧
      (writer.emitFragment begin data).2.Synced := by
  obtain ⟨filled, placed⟩ := startBlock_contents synced kept
  subst taken
  have written : (writer.emitFragment begin data).2.dest.contents = _ := emitPhysicalRecord_ok ok
  rw [filled] at written
  have ordered := le_headerOffset writer.dest.contents.length
  refine ⟨?_, ?_⟩
  · rw [written]
    simp [encode, Fragment.bytes]
  · rw [Synced, written, blockOffset_emitFragment, placed]
    simp only [List.length_append, List.length_replicate, length_header, kHeaderSize, kBlockSize]
    omega

/-- An acknowledged record extends the file by its fragments. -/
theorem addRecordLoop_ok {writer : Writer WritableFile} (begin : Bool) {pos : Nat} {data : Bytes}
    (atEnd : writer.dest.contents.length = pos) (synced : writer.Synced)
    (kept : writer.TrailerKept) (ok : (writer.addRecordLoop begin data).1 = .ok) :
    (writer.addRecordLoop begin data).2.dest.contents =
        writer.dest.contents ++ encode pos (fragments begin pos data) ∧
      (writer.addRecordLoop begin data).2.Synced := by
  induction pos, data using fragments_induction generalizing writer begin with
  | step pos data inductionHypothesis =>
    subst atEnd
    have length := fragmentLength_startBlock synced data.length
    rw [addRecordLoop] at ok ⊢
    rcases Nat.lt_or_ge (room writer.dest.contents.length) data.length with long | short
    · rw [if_neg (Nat.not_lt_of_lt long)] at length
      have more : 0 < (data.drop (room writer.dest.contents.length)).length := by
        rw [List.length_drop]
        omega
      have unfinished : (data.length == room writer.dest.contents.length) = false := by
        rw [beq_eq_false_iff_ne]
        omega
      simp only [length, more, decide_true, Bool.and_true] at ok ⊢
      by_cases emitted : (writer.emitFragment begin data).1.isOk = true
      · rw [if_pos emitted] at ok ⊢
        obtain ⟨written, syncedNext⟩ := emitFragment_ok synced kept length
          ((Status.isOk_iff _).mp emitted)
        obtain ⟨-, edge⟩ := fragment_filled writer begin (by rw [length]; exact long)
        have placed := placed_fragments begin writer.dest.contents.length data
        rw [fragments_of_lt begin long] at placed ⊢
        rw [unfinished] at written
        have atEnd : (writer.emitFragment begin data).2.dest.contents.length =
            filled writer.dest.contents.length := by
          rw [written, List.length_append, add_length_encode_singleton placed]
          exact finish_take_room _ long
        -- the fragment has ended its block, so no trailer comes next
        have keptNext : (writer.emitFragment begin data).2.TrailerKept := fun _ inside =>
          absurd edge (Nat.ne_of_lt inside)
        obtain ⟨others, syncedLast⟩ := inductionHypothesis long false atEnd syncedNext keptNext ok
        refine ⟨?_, syncedLast⟩
        rw [others, written, List.append_assoc, ← finish_take_room _ long]
        exact congrArg _ (encode_cons _ _ _).symm
      · rw [if_neg emitted] at ok
        exact absurd ((Status.isOk_iff _).mpr ok) emitted
    · have all : writer.startBlock.fragmentLength data.length = data.length := by
        rw [length]
        split <;> omega
      simp only [all, List.drop_length, List.length_nil, Nat.lt_irrefl, decide_false,
        Bool.and_false, Bool.false_eq_true, if_false] at ok ⊢
      have written := emitFragment_ok synced kept all ok
      rw [List.take_length, beq_self_eq_true] at written
      rw [fragments_of_le begin short]
      exact written

/-- A record that is acknowledged is in the file as the format has it. -/
theorem addRecord_ok {writer : Writer WritableFile} {record : Bytes} (synced : writer.Synced)
    (kept : writer.TrailerKept) (ok : (writer.addRecord record).1 = .ok) :
    (writer.addRecord record).2.dest.contents = writer.dest.contents ++
        encode writer.dest.contents.length (fragments true writer.dest.contents.length record) ∧
      (writer.addRecord record).2.Synced :=
  addRecordLoop_ok true rfl synced kept ok

/-- The trailer condition along a sequence of `AddRecord` calls. -/
def TrailersKept (writer : Writer WritableFile) : List Bytes → Prop
  | [] => True
  | record :: records => writer.TrailerKept ∧ (writer.addRecord record).2.TrailersKept records

/-- Acknowledged records extend the file by their layout. -/
theorem addRecords_ok {writer : Writer WritableFile} {records : List Bytes} (synced : writer.Synced)
    (kept : writer.TrailersKept records)
    (acknowledged : ∀ status ∈ (writer.addRecords records).1, status = .ok) :
    (writer.addRecords records).2.dest.contents = writer.dest.contents ++
        encode writer.dest.contents.length
          (allFragments (layout writer.dest.contents.length records)) ∧
      (writer.addRecords records).2.Synced := by
  induction records generalizing writer with
  | nil => simp [addRecords, layout, allFragments, encode, synced]
  | cons record records inductionHypothesis =>
    simp only [addRecords, List.mem_cons, forall_eq_or_imp] at acknowledged ⊢
    obtain ⟨written, syncedNext⟩ := addRecord_ok synced kept.1 acknowledged.1
    have atEnd : (writer.addRecord record).2.dest.contents.length =
        endOf writer.dest.contents.length (fragments true writer.dest.contents.length record) := by
      rw [written, List.length_append, add_length_encode (placed_fragments _ _ _)]
    obtain ⟨others, syncedLast⟩ := inductionHypothesis syncedNext kept.2 acknowledged.2
    refine ⟨?_, syncedLast⟩
    rw [others, atEnd, written, layout, allFragments_cons, encode_append, List.append_assoc]

/-! ### Without failures -/

/-- No call on the destination fails. -/
def Reliable (writer : Writer WritableFile) : Prop := ∀ call, writer.dest.outcome call = .ok

/-- Where nothing fails, the trailer is written. -/
theorem Reliable.trailerKept {writer : Writer WritableFile} (reliable : writer.Reliable) :
    writer.TrailerKept :=
  fun _ _ => reliable _

/-- Where nothing fails, a physical record is written. -/
theorem Reliable.emitFragment {writer : Writer WritableFile} (reliable : writer.Reliable)
    (begin : Bool) (data : Bytes) :
    (writer.emitFragment begin data).1 = .ok ∧ (writer.emitFragment begin data).2.Reliable := by
  have started : writer.startBlock.Reliable := by
    intro call
    unfold startBlock
    simp only [append_writableFile, WritableFile.append]
    split_ifs <;> exact reliable call
  unfold Writer.emitFragment emitPhysicalRecord
  simp only [append_writableFile, flush_writableFile, WritableFile.append, WritableFile.flush,
    started _, Status.isOk, if_true]
  exact ⟨trivial, fun call => started call⟩

/-- Where nothing fails, a record is written. -/
theorem Reliable.addRecordLoop {writer : Writer WritableFile} (reliable : writer.Reliable)
    (begin : Bool) (data : Bytes) :
    (writer.addRecordLoop begin data).1 = .ok ∧ (writer.addRecordLoop begin data).2.Reliable := by
  fun_induction Writer.addRecordLoop writer begin data with
  | case1 writer begin data length result continues inductionHypothesis =>
    exact inductionHypothesis (reliable.emitFragment begin data).2
  | case2 writer begin data length result ends => exact reliable.emitFragment begin data

/-- Where nothing fails, all records are acknowledged, with their trailers. -/
theorem Reliable.addRecords {writer : Writer WritableFile} (reliable : writer.Reliable)
    (records : List Bytes) :
    (∀ status ∈ (writer.addRecords records).1, status = .ok) ∧
      (writer.addRecords records).2.Reliable ∧ writer.TrailersKept records := by
  induction records generalizing writer with
  | nil => exact ⟨by simp [Writer.addRecords], reliable, trivial⟩
  | cons record records inductionHypothesis =>
    obtain ⟨ok, reliableNext⟩ := reliable.addRecordLoop true record
    obtain ⟨others, reliableLast, kept⟩ := inductionHypothesis reliableNext
    refine ⟨?_, reliableLast, reliable.trailerKept, kept⟩
    intro status member
    rcases List.mem_cons.mp member with rfl | later
    · exact ok
    · exact others status later

end Writer

/-- A session on an intact log without failures leaves the log of all records so far. -/
theorem Writer.addRecords_image {writer : Writer WritableFile} {written : List Bytes}
    (records : List Bytes)
    (reliable : writer.Reliable) (synced : writer.Synced)
    (intact : writer.dest.contents = image written) :
    (writer.addRecords records).2.dest.contents = image (written ++ records) ∧
      (writer.addRecords records).2.Reliable := by
  obtain ⟨acknowledged, reliableAfter, kept⟩ := reliable.addRecords records
  obtain ⟨extended, -⟩ := addRecords_ok synced kept acknowledged
  refine ⟨?_, reliableAfter⟩
  rw [extended, intact, image_append]

/-- A log written in sessions without failures is the image of all its records: a
session continues the layout where the last one has left it. -/
theorem contents_writeLog (sessions : List (List Bytes)) :
    (writeLog (fun _ => .ok) sessions).2.contents = image sessions.flatten := by
  cases sessions with
  | nil => rfl
  | cons first later =>
    have opened := @Writer.addRecords_image (Writer.new (WritableFile.new fun _ => .ok)) [] first
      (fun _ => rfl) rfl rfl
    rw [writeLog, List.flatten_cons]
    -- the invariant over the later sessions: the file is intact and still reliable
    suffices general : ∀ (log : List Status × WritableFile) (written : List Bytes),
        log.2.contents = image written → (∀ call, log.2.outcome call = .ok) →
        (later.foldl (fun log records =>
          let written := (Writer.reopen log.2 log.2.contents.length).addRecords records
          (log.1 ++ written.1, written.2.dest)) log).2.contents =
            image (written ++ later.flatten) from
      general _ first opened.1 opened.2
    clear opened
    induction later with
    | nil =>
      intro log written intact _
      simpa using intact
    | cons records later inductionHypothesis =>
      intro log written intact reliable
      have session := @Writer.addRecords_image (Writer.reopen log.2 log.2.contents.length) written
        records reliable (Nat.mod_mod _ _) intact
      rw [List.foldl_cons, List.flatten_cons, ← List.append_assoc]
      exact inductionHypothesis _ _ session.1 session.2

end LevelDbXy.Log
