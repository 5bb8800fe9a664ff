import LevelDbXy.Env.SequentialFile

/-!
# Buffered writes

`PosixWritableFile` of `env/env_posix.cpp` over scripts of how its system calls end. A call of
`write` ends with some of the bytes asked for, at least one, or with an error; after the
script it writes everything. The other calls end with success or an error, and succeed after
their script. The calls are kept in a trace.
-/

namespace LevelDbXy.Posix

/-- `EBADF` of Linux. -/
def EBADF : Nat := 9

/-- `kWritableFileBufferSize`. -/
def kWritableFileBufferSize : Nat := 65536

/-- How a call of `write` ends: with one byte and so many more, if they are asked for, or with an
error number. -/
inductive WriteOutcome where
  | wrote (extra : Nat)
  | failed (errno : Nat)
  deriving DecidableEq, Repr

/-- A system call as it ended; `none` is success. -/
inductive SystemCall where
  | write (data : Bytes)
  | writeFailed (errno : Nat)
  | openDirectory (path : String) (errno : Option Nat)
  | syncDirectory (path : String) (errno : Option Nat)
  | closeDirectory (path : String) (errno : Option Nat)
  | syncFile (errno : Option Nat)
  | closeFile (errno : Option Nat)
  deriving DecidableEq, Repr

/-- The scripts of the next calls, the contents of the file, and the calls so far. -/
structure Kernel where
  writes : List WriteOutcome
  others : List (Option Nat)
  file : Bytes
  trace : List SystemCall
  deriving DecidableEq, Repr

/-- The scripts, over a file with these contents. -/
def Kernel.start (writes : List WriteOutcome) (others : List (Option Nat)) (contents : Bytes) :
    Kernel :=
  ⟨writes, others, contents, []⟩

/-- A call other than `write` ends as the script says. -/
def Kernel.answer (kernel : Kernel) (call : Option Nat → SystemCall) : Option Nat × Kernel :=
  let errno := kernel.others.head?.join
  (errno, { kernel with others := kernel.others.tail, trace := kernel.trace ++ [call errno] })

/-- The same for a call on a descriptor, which is closed if it is negative. -/
def Kernel.answerOn (kernel : Kernel) (fd : Int) (call : Option Nat → SystemCall) :
    Option Nat × Kernel :=
  if fd < 0 then (some EBADF, { kernel with trace := kernel.trace ++ [call (some EBADF)] })
  else kernel.answer call

/-- `rfind('/')`. -/
def rfindSeparator : List Char → Option Nat
  | [] => none
  | c :: s =>
    match rfindSeparator s with
    | some pos => some (pos + 1)
    | none => if c = '/' then some 0 else none

/-- `PosixWritableFile`, with the first `pos_` bytes of `buf_`. -/
structure PosixWritableFile where
  buffer : Bytes
  fd : Int
  isManifest : Bool
  filename : String
  dirname : String
  deriving DecidableEq, Repr

namespace PosixWritableFile

/-- `Dirname`. -/
def dirnameOf (filename : String) : String :=
  match rfindSeparator filename.toList with
  | none => "."
  | some separatorPos => String.ofList (filename.toList.take separatorPos)

/-- `Basename`. -/
def basenameOf (filename : String) : String :=
  match rfindSeparator filename.toList with
  | none => filename
  | some separatorPos => String.ofList (filename.toList.drop (separatorPos + 1))

/-- `IsManifest`. -/
def isManifestName (filename : String) : Bool :=
  "MANIFEST".toList.isPrefixOf (basenameOf filename).toList

/-- `PosixWritableFile::PosixWritableFile`. The members are initialised in the order of their
declarations: `is_manifest_` sees the name, then `filename_` takes it, and `dirname_` is
computed from the string that is left, which is empty. -/
def new (filename : String) (fd : Int) : PosixWritableFile :=
  { buffer := []
    fd
    isManifest := isManifestName filename
    filename
    dirname := dirnameOf "" }

variable (strerror : Nat → String)

/-- The loop of `WriteUnbuffered` on an open descriptor, on the script. -/
def writeLoop (file : PosixWritableFile) :
    List WriteOutcome → Bytes → Kernel → Status × Kernel
  | [], data, kernel =>
    if data.length = 0 then (.ok, { kernel with writes := [] })
    else
      (.ok, { kernel with
        writes := []
        file := kernel.file ++ data
        trace := kernel.trace ++ [.write data] })
  | outcome :: writes, data, kernel =>
    if data.length = 0 then (.ok, { kernel with writes := outcome :: writes })
    else
      match outcome with
      | .wrote extra =>
        let writeResult := min (extra + 1) data.length
        file.writeLoop writes (data.drop writeResult)
          { kernel with
            file := kernel.file ++ data.take writeResult
            trace := kernel.trace ++ [.write (data.take writeResult)] }
      | .failed errno =>
        let kernel := { kernel with trace := kernel.trace ++ [.writeFailed errno] }
        if errno = EINTR then file.writeLoop writes data kernel
        else (posixError strerror file.filename errno, { kernel with writes })

/-- `WriteUnbuffered`. -/
def writeUnbuffered (file : PosixWritableFile) (data : Bytes) (kernel : Kernel) :
    Status × Kernel :=
  if 0 < data.length ∧ file.fd < 0 then
    (posixError strerror file.filename EBADF,
      { kernel with trace := kernel.trace ++ [.writeFailed EBADF] })
  else file.writeLoop strerror kernel.writes data kernel

/-- `FlushBuffer`, which empties the buffer also when it fails. -/
def flushBuffer (file : PosixWritableFile) (kernel : Kernel) :
    Status × PosixWritableFile × Kernel :=
  let (status, kernel) := file.writeUnbuffered strerror file.buffer kernel
  (status, { file with buffer := [] }, kernel)

/-- `Append`. -/
def append (file : PosixWritableFile) (data : Bytes) (kernel : Kernel) :
    Status × PosixWritableFile × Kernel :=
  let copySize := min data.length (kWritableFileBufferSize - file.buffer.length)
  let file := { file with buffer := file.buffer ++ data.take copySize }
  let data := data.drop copySize
  if data.length = 0 then (.ok, file, kernel)
  else
    let (status, file, kernel) := file.flushBuffer strerror kernel
    if !status.isOk then (status, file, kernel)
    else if data.length < kWritableFileBufferSize then (.ok, { file with buffer := data }, kernel)
    else
      let (status, kernel) := file.writeUnbuffered strerror data kernel
      (status, file, kernel)

/-- `Close`. -/
def close (file : PosixWritableFile) (kernel : Kernel) : Status × PosixWritableFile × Kernel :=
  let (status, file, kernel) := file.flushBuffer strerror kernel
  let (closeResult, kernel) := kernel.answerOn file.fd .closeFile
  let status :=
    match closeResult with
    | some errno => if status.isOk then posixError strerror file.filename errno else status
    | none => status
  (status, { file with fd := -1 }, kernel)

/-- `Flush`. -/
def flush (file : PosixWritableFile) (kernel : Kernel) : Status × PosixWritableFile × Kernel :=
  file.flushBuffer strerror kernel

/-- `SyncFd`, from the result of `fsync` on. -/
def syncFd (path : String) : Option Nat → Status
  | none => .ok
  | some errno => posixError strerror path errno

/-- `SyncDirIfManifest`. -/
def syncDirIfManifest (file : PosixWritableFile) (kernel : Kernel) : Status × Kernel :=
  if !file.isManifest then (.ok, kernel)
  else
    let (openResult, kernel) := kernel.answer (.openDirectory file.dirname)
    match openResult with
    | some errno => (posixError strerror file.dirname errno, kernel)
    | none =>
      let (syncResult, kernel) := kernel.answer (.syncDirectory file.dirname)
      let (_, kernel) := kernel.answer (.closeDirectory file.dirname)
      (syncFd strerror file.dirname syncResult, kernel)

/-- `Sync`. -/
def sync (file : PosixWritableFile) (kernel : Kernel) : Status × PosixWritableFile × Kernel :=
  let (status, kernel) := file.syncDirIfManifest strerror kernel
  if !status.isOk then (status, file, kernel)
  else
    let (status, file, kernel) := file.flushBuffer strerror kernel
    if !status.isOk then (status, file, kernel)
    else
      let (syncResult, kernel) := kernel.answerOn file.fd .syncFile
      (syncFd strerror file.filename syncResult, file, kernel)

/-- `PosixWritableFile::~PosixWritableFile`. -/
def destroy (file : PosixWritableFile) (kernel : Kernel) : Kernel :=
  if 0 ≤ file.fd then (file.close strerror kernel).2.2 else kernel

end PosixWritableFile

/-! ### What is written -/

/-- The bytes that calls of `write` on this script write of a request before one fails. -/
def delivered : List WriteOutcome → Nat → Nat
  | [], size => size
  | outcome :: writes, size =>
    if size = 0 then 0
    else
      match outcome with
      | .wrote extra => min (extra + 1) size + delivered writes (size - min (extra + 1) size)
      | .failed errno => if errno = EINTR then delivered writes size else 0

@[simp] theorem delivered_zero (writes : List WriteOutcome) : delivered writes 0 = 0 := by
  cases writes with
  | nil => rfl
  | cons outcome writes => cases outcome <;> simp [delivered]

/-- No more is delivered than there is. -/
theorem delivered_le (writes : List WriteOutcome) (size : Nat) :
    delivered writes size ≤ size := by
  induction writes generalizing size with
  | nil => exact Nat.le_refl _
  | cons outcome writes inductionHypothesis =>
    cases outcome with
    | wrote extra =>
      have later := inductionHypothesis (size - min (extra + 1) size)
      rw [delivered]
      split_ifs <;> omega
    | failed errno =>
      have later := inductionHypothesis size
      rw [delivered]
      split_ifs <;> omega

/-- The call is one of `write`. -/
def SystemCall.isWrite : SystemCall → Bool
  | .write _ => true
  | .writeFailed _ => true
  | _ => false

/-- What these calls have written. -/
def written (calls : List SystemCall) : Bytes :=
  calls.flatMap fun
    | .write data => data
    | _ => []

/-- The call is one of `write`, and fails otherwise than by an interruption. -/
def SystemCall.failsToWrite : SystemCall → Bool
  | .writeFailed errno => errno != EINTR
  | _ => false

/-- Every call of `write` so far has written something or was interrupted. -/
def Kernel.WritesSucceed (kernel : Kernel) : Prop :=
  ∀ call ∈ kernel.trace, call.failsToWrite = false

instance (kernel : Kernel) : Decidable kernel.WritesSucceed :=
  inferInstanceAs (Decidable (∀ call ∈ kernel.trace, call.failsToWrite = false))

/-- Some of the data is at the end of the file: all of it, or a call of `write` has failed. -/
structure Writes (kernel : Kernel) (data : Bytes) (amount : Nat) (status : Status)
    (after : Kernel) (calls : List SystemCall) : Prop where
  file : after.file = kernel.file ++ data.take amount
  ok_iff : status.isOk = true ↔ amount = data.length
  others : after.others = kernel.others
  trace : after.trace = kernel.trace ++ calls
  only : ∀ call ∈ calls, call.isWrite = true
  wrote : written calls = data.take amount
  failure : status.isOk = false → ∃ call ∈ calls, call.failsToWrite = true

namespace Writes

variable {kernel after : Kernel} {data : Bytes} {amount : Nat} {status : Status}
  {calls : List SystemCall}

/-- If no `write` fails, all of the data is written. -/
theorem whole (writes : Writes kernel data amount status after calls)
    (succeed : after.WritesSucceed) : amount = data.length := by
  refine writes.ok_iff.mp (by_contra fun notOk => ?_)
  obtain ⟨call, member, fails⟩ := writes.failure (Bool.eq_false_iff.mpr notOk)
  have succeeds := succeed call (writes.trace ▸ List.mem_append_right _ member)
  rw [fails] at succeeds
  cases succeeds

/-- A write that returns OK has written all. -/
theorem file_of_ok (writes : Writes kernel data amount status after calls)
    (isOk : status.isOk = true) : after.file = kernel.file ++ data := by
  rw [writes.file, writes.ok_iff.mp isOk, List.take_length]

/-- System calls are only added. -/
theorem grows (writes : Writes kernel data amount status after calls) :
    kernel.trace <+: after.trace :=
  writes.trace ▸ List.prefix_append _ _

/-- Nothing to write needs no call. -/
theorem nothing (kernel : Kernel) (writes : List WriteOutcome) (empty : data.length = 0) :
    Writes kernel data 0 .ok { kernel with writes } [] := by
  refine ⟨?_, ?_, rfl, ?_, ?_, rfl, ?_⟩ <;> simp [Status.isOk, empty]

/-- A call that fails, and is not retried, ends the writing. -/
theorem failed (strerror : Nat → String) (filename : String) (kernel : Kernel)
    (writes : List WriteOutcome) {errno : Nat} (nonempty : data.length ≠ 0)
    (notRetried : errno ≠ EINTR) :
    Writes kernel data 0 (posixError strerror filename errno)
      { kernel with writes, trace := kernel.trace ++ [.writeFailed errno] }
      [.writeFailed errno] := by
  have notOk := PosixSequentialFile.posixError_isOk strerror filename errno
  refine ⟨?_, ?_, rfl, rfl, ?_, ?_, ?_⟩
  · simp
  · rw [notOk]
    simp only [Bool.false_eq_true, false_iff]
    omega
  · simp [SystemCall.isWrite]
  · simp [written]
  · intro _
    exact ⟨_, List.mem_singleton_self _, by simpa [SystemCall.failsToWrite] using notRetried⟩

/-- A call writes a first part of the data, perhaps nothing, and later ones go on after it. -/
theorem cons {first : Kernel} {size : Nat} {call : SystemCall}
    (later : Writes first (data.drop size) amount status after calls)
    (file : first.file = kernel.file ++ data.take size) (others : first.others = kernel.others)
    (trace : first.trace = kernel.trace ++ [call]) (isWrite : call.isWrite = true)
    (wrote : written [call] = data.take size) (bound : size ≤ data.length) :
    Writes kernel data (size + amount) status after (call :: calls) := by
  refine ⟨?_, ?_, later.others.trans others, ?_, ?_, ?_, ?_⟩
  · rw [later.file, file, List.take_add, List.append_assoc]
  · rw [later.ok_iff, List.length_drop]
    omega
  · rw [later.trace, trace, List.append_assoc]
    rfl
  · intro other member
    rcases List.mem_cons.mp member with rfl | laterCall
    · exact isWrite
    · exact later.only other laterCall
  · rw [List.take_add, ← wrote, ← later.wrote]
    simp [written]
  · intro notOk
    obtain ⟨other, member, fails⟩ := later.failure notOk
    exact ⟨other, List.mem_cons_of_mem call member, fails⟩

end Writes

/-- Between the two only calls other than `write` were made. -/
structure Quiet (kernel later : Kernel) : Prop where
  writes : later.writes = kernel.writes
  file : later.file = kernel.file
  trace : kernel.trace <+: later.trace

/-- No call at all. -/
theorem Quiet.refl (kernel : Kernel) : Quiet kernel kernel := ⟨rfl, rfl, List.prefix_refl _⟩

/-- The next two calls, which open and sync a directory, succeed. -/
def Kernel.DirectorySyncs (kernel : Kernel) : Prop :=
  kernel.others.head?.join = none ∧ kernel.others.tail.head?.join = none

instance (kernel : Kernel) : Decidable kernel.DirectorySyncs := inferInstanceAs (Decidable (_ ∧ _))

namespace PosixWritableFile

variable {strerror : Nat → String}

/-- With no data left the loop ends. -/
theorem writeLoop_empty (file : PosixWritableFile) (writes : List WriteOutcome) {data : Bytes}
    (kernel : Kernel) (empty : data.length = 0) :
    file.writeLoop strerror writes data kernel = (.ok, { kernel with writes }) := by
  cases writes with
  | nil => rw [writeLoop, if_pos empty]
  | cons outcome writes => cases outcome <;> rw [writeLoop, if_pos empty]

/-- The loop delivers as much as the kernel accepts, and returns OK if that is all. -/
theorem writeLoop_spec (file : PosixWritableFile) (writes : List WriteOutcome) (data : Bytes)
    (kernel : Kernel) :
    ∃ calls, Writes kernel data (delivered writes data.length)
      (file.writeLoop strerror writes data kernel).1
      (file.writeLoop strerror writes data kernel).2 calls := by
  induction writes generalizing data kernel with
  | nil =>
    by_cases empty : data.length = 0
    · rw [writeLoop_empty file [] kernel empty, empty, delivered_zero]
      exact ⟨[], Writes.nothing kernel [] empty⟩
    · rw [writeLoop, if_neg empty, delivered]
      refine ⟨[.write data], ?_, ?_, rfl, rfl, ?_, ?_, ?_⟩ <;>
        simp [Status.isOk, SystemCall.isWrite, written]
  | cons outcome writes inductionHypothesis =>
    by_cases empty : data.length = 0
    · rw [writeLoop_empty file _ kernel empty, empty, delivered_zero]
      exact ⟨[], Writes.nothing kernel (outcome :: writes) empty⟩
    · cases outcome with
      | wrote extra =>
        rw [writeLoop, delivered, if_neg empty, if_neg empty]
        simp only
        generalize isResult : min (extra + 1) data.length = writeResult
        obtain ⟨calls, later⟩ := inductionHypothesis (data.drop writeResult)
          { kernel with
            file := kernel.file ++ data.take writeResult
            trace := kernel.trace ++ [.write (data.take writeResult)] }
        rw [List.length_drop] at later
        refine ⟨.write (data.take writeResult) :: calls, later.cons rfl rfl rfl rfl ?_ ?_⟩
        · exact List.append_nil _
        · omega
      | failed errno =>
        rw [writeLoop, delivered, if_neg empty, if_neg empty]
        simp only
        split_ifs with retried
        · obtain ⟨calls, later⟩ := inductionHypothesis data
            { kernel with trace := kernel.trace ++ [.writeFailed errno] }
          rw [← Nat.zero_add (delivered writes data.length)]
          refine ⟨.writeFailed errno :: calls, Writes.cons later ?_ rfl rfl rfl rfl ?_⟩
          · exact (List.append_nil _).symm
          · exact Nat.zero_le _
        · exact ⟨_, Writes.failed strerror file.filename kernel writes empty retried⟩

/-- The bytes of a request that are written before a call fails. -/
def deliverable (file : PosixWritableFile) (kernel : Kernel) (size : Nat) : Nat :=
  if file.fd < 0 then 0 else delivered kernel.writes size

/-- No more is deliverable than is given. -/
theorem deliverable_le (file : PosixWritableFile) (kernel : Kernel) (size : Nat) :
    file.deliverable kernel size ≤ size := by
  unfold deliverable
  split_ifs
  · exact Nat.zero_le _
  · exact delivered_le kernel.writes size

/-- `WriteUnbuffered` writes what can be delivered. -/
theorem writeUnbuffered_spec (strerror : Nat → String) (file : PosixWritableFile) (data : Bytes)
    (kernel : Kernel) :
    ∃ calls, Writes kernel data (file.deliverable kernel data.length)
      (file.writeUnbuffered strerror data kernel).1
      (file.writeUnbuffered strerror data kernel).2 calls := by
  unfold writeUnbuffered deliverable
  by_cases closed : file.fd < 0
  · rw [if_pos closed]
    by_cases empty : data.length = 0
    · rw [if_neg (by omega)]
      rw [writeLoop_empty file _ kernel empty]
      exact ⟨[], Writes.nothing kernel kernel.writes empty⟩
    · rw [if_pos ⟨Nat.pos_of_ne_zero empty, closed⟩]
      have notRetried : EBADF ≠ EINTR := by decide
      exact ⟨_, Writes.failed strerror file.filename kernel kernel.writes empty notRetried⟩
  · rw [if_neg closed, if_neg fun both => closed both.2]
    exact file.writeLoop_spec kernel.writes data kernel

/-! ### The byte stream -/

/-- What a call does to the file followed by the buffer: so many of the buffered and the new bytes
are kept there, all of them if the call succeeds or no `write` fails. -/
structure Streams (file : PosixWritableFile) (kernel : Kernel) (data : Bytes) (amount : Nat)
    (status : Status) (after : PosixWritableFile) (kernel' : Kernel) : Prop where
  stream : kernel'.file ++ after.buffer = kernel.file ++ (file.buffer ++ data).take amount
  ok : status.isOk = true → amount = (file.buffer ++ data).length
  whole : kernel'.WritesSucceed → amount = (file.buffer ++ data).length
  small : after.buffer.length ≤ kWritableFileBufferSize
  trace : kernel.trace <+: kernel'.trace

/-- After OK the file and the buffer go on with all of the data. -/
theorem Streams.stream_of_ok {file after : PosixWritableFile} {kernel kernel' : Kernel}
    {data : Bytes} {amount : Nat} {status : Status}
    (streams : Streams file kernel data amount status after kernel') (isOk : status.isOk = true) :
    kernel'.file ++ after.buffer = kernel.file ++ file.buffer ++ data := by
  rw [streams.stream, streams.ok isOk, List.take_length, List.append_assoc]

/-- `FlushBuffer` writes what can be delivered and forgets the rest. -/
theorem flushBuffer_streams (strerror : Nat → String) (file : PosixWritableFile) (kernel : Kernel) :
    Streams file kernel [] (file.deliverable kernel file.buffer.length)
      (file.flushBuffer strerror kernel).1 (file.flushBuffer strerror kernel).2.1
      (file.flushBuffer strerror kernel).2.2 := by
  obtain ⟨calls, writes⟩ := file.writeUnbuffered_spec strerror file.buffer kernel
  refine ⟨?_, ?_, ?_, Nat.zero_le _, ?_⟩
  · rw [List.append_nil]
    exact (List.append_nil _).trans writes.file
  · rw [List.append_nil]
    exact writes.ok_iff.mp
  · rw [List.append_nil]
    exact writes.whole
  · exact writes.grows

/-- A part of the second list is enough for what is taken. -/
theorem take_append_part (first second : Bytes) (count amount : Nat)
    (bound : amount ≤ first.length + count) :
    (first ++ second.take count).take amount = (first ++ second).take amount := by
  have part : first ++ second.take count = (first ++ second).take (first.length + count) :=
    (List.take_length_add_append count).symm
  rw [part, List.take_take, Nat.min_eq_left bound]

/-- The loop does not look at the buffer. -/
theorem writeLoop_buffer (file : PosixWritableFile) (buffer : Bytes)
    (writes : List WriteOutcome) (data : Bytes) (kernel : Kernel) :
    writeLoop strerror { file with buffer } writes data kernel =
      file.writeLoop strerror writes data kernel := by
  induction writes generalizing data kernel with
  | nil => rfl
  | cons outcome writes inductionHypothesis =>
    cases outcome <;> simp only [writeLoop, inductionHypothesis]

/-- `WriteUnbuffered` does not look at the buffer. -/
theorem writeUnbuffered_buffer (file : PosixWritableFile) (buffer data : Bytes) (kernel : Kernel) :
    writeUnbuffered strerror { file with buffer } data kernel =
      file.writeUnbuffered strerror data kernel := by
  simp only [writeUnbuffered, writeLoop_buffer]

section Append

variable {file : PosixWritableFile} {data : Bytes} (kernel : Kernel)

/-- Data that fits is copied. -/
theorem append_of_fits (fits : data.length ≤ kWritableFileBufferSize - file.buffer.length) :
    file.append strerror data kernel =
      (.ok, { file with buffer := file.buffer ++ data }, kernel) := by
  simp only [append, Nat.min_eq_left fits, List.take_length, List.drop_length, List.length_nil,
    if_true]

/-- Data that does not fit fills the buffer, which is written; the rest is copied if it is small,
and written otherwise. -/
theorem append_of_overflow
    (overflows : kWritableFileBufferSize - file.buffer.length < data.length) :
    file.append strerror data kernel =
      let room := kWritableFileBufferSize - file.buffer.length
      let flushed := file.writeUnbuffered strerror (file.buffer ++ data.take room) kernel
      if flushed.1.isOk = false then (flushed.1, { file with buffer := [] }, flushed.2)
      else if (data.drop room).length < kWritableFileBufferSize then
        (.ok, { file with buffer := data.drop room }, flushed.2)
      else
        let large := file.writeUnbuffered strerror (data.drop room) flushed.2
        (large.1, { file with buffer := [] }, large.2) := by
  have left : ¬ (data.drop (kWritableFileBufferSize - file.buffer.length)).length = 0 := by
    rw [List.length_drop]
    omega
  simp only [append, flushBuffer, Nat.min_eq_right overflows.le, if_neg left,
    writeUnbuffered_buffer, Bool.not_eq_true']

/-- `Append` adds the data to the stream unless a `write` fails; what was buffered before is
kept if it can be delivered. -/
theorem append_streams (small : file.buffer.length ≤ kWritableFileBufferSize) :
    ∃ amount, Streams file kernel data amount (file.append strerror data kernel).1
        (file.append strerror data kernel).2.1 (file.append strerror data kernel).2.2 ∧
      (data.length ≤ kWritableFileBufferSize - file.buffer.length ∨
        file.buffer.length ≤ file.deliverable kernel kWritableFileBufferSize →
        file.buffer.length ≤ amount) := by
  by_cases fits : data.length ≤ kWritableFileBufferSize - file.buffer.length
  · rw [append_of_fits kernel fits]
    refine ⟨(file.buffer ++ data).length,
      ⟨?_, fun _ => rfl, fun _ => rfl, ?_, List.prefix_refl _⟩, ?_⟩
    · rw [List.take_length]
    · rw [List.length_append]
      omega
    · intro _
      rw [List.length_append]
      omega
  · rw [append_of_overflow kernel (by omega)]
    generalize isRoom : kWritableFileBufferSize - file.buffer.length = room at fits
    have full : (file.buffer ++ data.take room).length = kWritableFileBufferSize := by
      rw [List.length_append, List.length_take]
      omega
    obtain ⟨calls, flushed⟩ :=
      file.writeUnbuffered_spec strerror (file.buffer ++ data.take room) kernel
    rw [full] at flushed
    have bound := file.deliverable_le kernel kWritableFileBufferSize
    simp only
    generalize file.writeUnbuffered strerror (file.buffer ++ data.take room) kernel = result
      at flushed ⊢
    obtain ⟨status, middle⟩ := result
    simp only at flushed ⊢
    split_ifs with notOk rest
    · refine ⟨file.deliverable kernel kWritableFileBufferSize, ⟨?_, ?_, ?_, Nat.zero_le _, ?_⟩, ?_⟩
      · rw [List.append_nil, flushed.file, take_append_part _ _ _ _ (by omega)]
      · intro isOk
        rw [notOk] at isOk
        cases isOk
      · intro succeed
        have isOk := flushed.ok_iff.mpr (flushed.whole succeed)
        rw [notOk] at isOk
        cases isOk
      · exact flushed.grows
      · exact fun kept => kept.resolve_left fits
    · have contents := flushed.file_of_ok (by simpa using notOk)
      refine ⟨(file.buffer ++ data).length, ⟨?_, fun _ => rfl, fun _ => rfl, rest.le, ?_⟩, ?_⟩
      · rw [contents, List.take_length, List.append_assoc, List.append_assoc,
          List.take_append_drop]
      · exact flushed.grows
      · intro _
        rw [List.length_append]
        omega
    · have contents := flushed.file_of_ok (by simpa using notOk)
      obtain ⟨calls', large⟩ := file.writeUnbuffered_spec strerror (data.drop room) middle
      have parts : ∀ count, (file.buffer ++ data).take (file.buffer.length + (room + count)) =
          file.buffer ++ data.take room ++ (data.drop room).take count := by
        intro count
        rw [List.take_length_add_append, List.take_add, List.append_assoc]
      have total : file.buffer.length + (room + (data.drop room).length) =
          (file.buffer ++ data).length := by
        rw [List.length_append, List.length_drop]
        omega
      refine ⟨file.buffer.length + (room + file.deliverable middle (data.drop room).length),
        ⟨?_, ?_, ?_, Nat.zero_le _, ?_⟩, fun _ => Nat.le_add_right _ _⟩
      · rw [List.append_nil, large.file, contents, parts, List.append_assoc]
      · intro isOk
        rw [large.ok_iff.mp isOk, total]
      · intro succeed
        rw [large.whole succeed, total]
      · exact flushed.grows.trans large.grows

end Append

/-! ### The calls around a flush -/

/-- A call that is no write leaves the file alone. -/
theorem answer_quiet (kernel : Kernel) (call : Option Nat → SystemCall) :
    Quiet kernel (kernel.answer call).2 :=
  ⟨rfl, rfl, List.prefix_append _ _⟩

/-- So does a call on a descriptor. -/
theorem answerOn_quiet (kernel : Kernel) (fd : Int) (call : Option Nat → SystemCall) :
    Quiet kernel (kernel.answerOn fd call).2 := by
  unfold Kernel.answerOn
  split_ifs
  · exact ⟨rfl, rfl, List.prefix_append _ _⟩
  · exact answer_quiet kernel call

/-- `SyncFd` returns OK exactly if the call did not fail. -/
theorem syncFd_isOk (path : String) (errno : Option Nat) :
    (syncFd strerror path errno).isOk = true ↔ errno = none := by
  cases errno with
  | none => exact iff_of_true rfl rfl
  | some errno => simp [syncFd, PosixSequentialFile.posixError_isOk]

/-- `SyncDirIfManifest` is quiet, and fails if the directory cannot be opened or synced. -/
theorem syncDirIfManifest_spec (strerror : Nat → String) (file : PosixWritableFile)
    (kernel : Kernel) :
    Quiet kernel (file.syncDirIfManifest strerror kernel).2 ∧
      ((file.syncDirIfManifest strerror kernel).1.isOk = true ↔
        file.isManifest = false ∨ kernel.DirectorySyncs) := by
  unfold syncDirIfManifest Kernel.DirectorySyncs
  cases manifest : file.isManifest with
  | false => exact ⟨Quiet.refl kernel, iff_of_true rfl (Or.inl rfl)⟩
  | true =>
    cases opened : kernel.others.head?.join with
    | some errno =>
      simp only [Kernel.answer, opened]
      refine ⟨⟨rfl, rfl, List.prefix_append _ _⟩, ?_⟩
      simp [PosixSequentialFile.posixError_isOk]
    | none =>
      simp only [Kernel.answer, opened, Bool.not_true, Bool.false_eq_true, if_false, syncFd_isOk]
      refine ⟨⟨rfl, rfl, ?_⟩, by simp⟩
      simp only [List.append_assoc]
      exact List.prefix_append _ _

/-- Other calls before and after a write do not change what it delivers. -/
theorem Streams.around {file after after' : PosixWritableFile}
    {kernel first second kernel' : Kernel} {data : Bytes} {amount : Nat} {status status' : Status}
    (streams : Streams file first data amount status after second) (before : Quiet kernel first)
    (later : Quiet second kernel') (ok : status'.isOk = true → status.isOk = true)
    (buffer : after'.buffer = after.buffer) :
    Streams file kernel data amount status' after' kernel' := by
  refine ⟨?_, fun isOk => streams.ok (ok isOk), ?_, ?_, ?_⟩
  · rw [later.file, buffer, streams.stream, before.file]
  · intro succeed
    exact streams.whole fun call member => succeed call (later.trace.subset member)
  · rw [buffer]
    exact streams.small
  · exact before.trace.trans (streams.trace.trans later.trace)

/-- `Close` flushes. -/
theorem close_streams (strerror : Nat → String) (file : PosixWritableFile) (kernel : Kernel) :
    Streams file kernel [] (file.deliverable kernel file.buffer.length)
        (file.close strerror kernel).1 (file.close strerror kernel).2.1
        (file.close strerror kernel).2.2 ∧
      (file.close strerror kernel).2.1.buffer = [] := by
  refine ⟨(file.flushBuffer_streams strerror kernel).around (Quiet.refl kernel)
    (answerOn_quiet _ file.fd .closeFile) ?_ rfl, rfl⟩
  intro isOk
  unfold close at isOk
  simp only at isOk
  split at isOk
  · split_ifs at isOk with flushed
    · exact flushed
    · exact isOk
  · exact isOk

/-- `Sync` flushes unless the directory cannot be synced. -/
theorem sync_streams (strerror : Nat → String) (file : PosixWritableFile) (kernel : Kernel)
    (small : file.buffer.length ≤ kWritableFileBufferSize) :
    ∃ amount, Streams file kernel [] amount (file.sync strerror kernel).1
        (file.sync strerror kernel).2.1 (file.sync strerror kernel).2.2 ∧
      (file.isManifest = false ∨ kernel.DirectorySyncs →
        amount = file.deliverable kernel file.buffer.length ∧
        (file.sync strerror kernel).2.1.buffer = []) ∧
      (¬ (file.isManifest = false ∨ kernel.DirectorySyncs) → amount = file.buffer.length) := by
  obtain ⟨quiet, directory⟩ := file.syncDirIfManifest_spec strerror kernel
  unfold sync
  simp only
  generalize file.syncDirIfManifest strerror kernel = result at quiet directory
  obtain ⟨status, middle⟩ := result
  have flushes := file.flushBuffer_streams strerror middle
  simp only at quiet directory ⊢
  have same : file.deliverable middle file.buffer.length =
      file.deliverable kernel file.buffer.length := by
    rw [deliverable, deliverable, quiet.writes]
  split_ifs with notSynced notFlushed
  · have unsynced : ¬ (file.isManifest = false ∨ kernel.DirectorySyncs) := by
      have failed : status.isOk = false := by simpa using notSynced
      rw [← directory, failed]
      exact Bool.false_ne_true
    refine ⟨file.buffer.length, ⟨?_, ?_, ?_, small, quiet.trace⟩, fun synced => ?_, fun _ => rfl⟩
    · rw [List.append_nil, List.take_length, quiet.file]
    · exact fun _ => by rw [List.append_nil]
    · exact fun _ => by rw [List.append_nil]
    · exact absurd synced unsynced
  · refine ⟨file.deliverable middle file.buffer.length,
      flushes.around quiet (Quiet.refl _) id rfl, fun _ => ⟨same, rfl⟩, fun unsynced => ?_⟩
    exact absurd (directory.mp (by simpa using notSynced)) unsynced
  · refine ⟨file.deliverable middle file.buffer.length,
      flushes.around quiet (answerOn_quiet _ _ _) (fun _ => by simpa using notFlushed) rfl,
      fun _ => ⟨same, rfl⟩, fun unsynced => ?_⟩
    exact absurd (directory.mp (by simpa using notSynced)) unsynced

/-- `Sync` returns OK only if the directory is synced. -/
theorem directory_of_sync_isOk {file : PosixWritableFile} {kernel : Kernel}
    (isOk : (file.sync strerror kernel).1.isOk = true) :
    file.isManifest = false ∨ kernel.DirectorySyncs := by
  rw [← (file.syncDirIfManifest_spec strerror kernel).2]
  by_contra notSynced
  have failed := Bool.eq_false_iff.mpr notSynced
  rw [sync] at isOk
  simp only [failed, Bool.not_false, if_true] at isOk
  cases isOk

end PosixWritableFile

end LevelDbXy.Posix
