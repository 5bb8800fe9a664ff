import LevelDbXy.Env.WritableFile
import Mathlib.Logic.Function.Basic

/-!
# Whole files

`WriteStringToFile` and `ReadFileToString` of `env/env.cpp` over scripts of how the system
calls end. A file that is there can be unlinked. Whatever fails on the way, a file that is
not completely written does not remain.
-/

namespace LevelDbXy.Env

open Posix

/-- `ENOENT` of Linux. -/
def ENOENT : Nat := 2

/-- The regular files, by name. -/
abbrev Files := String → Option Bytes

/-- `unlink`, as an error number or the files left. -/
def unlink (files : Files) (name : String) : Except Nat Files :=
  if (files name).isSome then .ok (Function.update files name none) else .error ENOENT

variable (strerror : Nat → String)

/-- How the system calls of a write end: `open` with an error number or a descriptor, the others
by their scripts. -/
structure WriteScript where
  opened : Except Nat Nat
  writes : List WriteOutcome
  others : List (Option Nat)

/-- `PosixEnv::NewWritableFile`, which creates the file or empties it. -/
def newWritableFile (files : Files) (opened : Except Nat Nat) (filename : String) :
    Status × Option PosixWritableFile × Files :=
  match opened with
  | .error errno => (posixError strerror filename errno, none, files)
  | .ok fd => (.ok, some (.new filename fd), Function.update files filename (some []))

/-- `PosixEnv::RemoveFile`. -/
def removeFile (files : Files) (filename : String) : Status × Files :=
  match unlink files filename with
  | .error errno => (posixError strerror filename errno, files)
  | .ok files => (.ok, files)

/-- A status, and the open file after it. -/
abbrev Called := Status × PosixWritableFile × Kernel

/-- `DoWriteStringToFile` calls `Sync` if all is well and it should. -/
def syncIfOk (shouldSync : Bool) (called : Called) : Called :=
  if called.1.isOk && shouldSync then called.2.1.sync strerror called.2.2 else called

/-- `DoWriteStringToFile` calls `Close` if all is well. -/
def closeIfOk (called : Called) : Called :=
  if called.1.isOk then called.2.1.close strerror called.2.2 else called

/-- `DoWriteStringToFile`. -/
def doWriteStringToFile (files : Files) (script : WriteScript) (data : Bytes) (fname : String)
    (shouldSync : Bool) : Status × Files :=
  match newWritableFile strerror files script.opened fname with
  | (status, none, files) => (status, files)
  | (_, some file, files) =>
    let appended := file.append strerror data (.start script.writes script.others [])
    let (status, file, kernel) := closeIfOk strerror (syncIfOk strerror shouldSync appended)
    let kernel := file.destroy strerror kernel
    let files := Function.update files fname (some kernel.file)
    if !status.isOk then (status, (removeFile strerror files fname).2) else (status, files)

/-- `WriteStringToFile`, which does not look at `should_sync`. -/
def writeStringToFile (files : Files) (script : WriteScript) (data : Bytes) (fname : String)
    (_shouldSync : Bool) : Status × Files :=
  doWriteStringToFile strerror files script data fname false

/-- `WriteStringToFileSync`, which does not look at it either. -/
def writeStringToFileSync (files : Files) (script : WriteScript) (data : Bytes) (fname : String)
    (_shouldSync : Bool) : Status × Files :=
  doWriteStringToFile strerror files script data fname true

section Writing

variable {strerror} {called : Called} {data : Bytes}

/-- If the calls so far returned OK, the data is in the file and the buffer. -/
def Written (data : Bytes) (called : Called) : Prop :=
  called.1.isOk = true → called.2.2.file ++ called.2.1.buffer = data

/-- A sync after the write changes nothing in the file. -/
theorem Written.syncIfOk (wrote : Written data called)
    (small : called.2.1.buffer.length ≤ kWritableFileBufferSize) (shouldSync : Bool) :
    Written data (syncIfOk strerror shouldSync called) := by
  unfold Env.syncIfOk
  split_ifs with isCalled
  · intro isOk
    obtain ⟨amount, streams, -⟩ := called.2.1.sync_streams strerror called.2.2 small
    rw [streams.stream_of_ok isOk, List.append_nil]
    exact wrote (Bool.and_eq_true_iff.mp isCalled).1
  · exact wrote

/-- After `Close` the data is in the file, and the destructor does nothing more. -/
theorem Written.closeIfOk (wrote : Written data called)
    (isOk : (closeIfOk strerror called).1.isOk = true) :
    ((closeIfOk strerror called).2.1.destroy strerror (closeIfOk strerror called).2.2).file =
      data := by
  unfold Env.closeIfOk at *
  split_ifs at * with isCalled
  · obtain ⟨streams, empty⟩ := called.2.1.close_streams strerror called.2.2
    have stream := streams.stream_of_ok isOk
    rw [empty, List.append_nil, List.append_nil, wrote isCalled] at stream
    exact stream
  · exact absurd isOk isCalled

/-- A file that is there can be removed. -/
theorem removeFile_of_exists (files : Files) (fname : String) (contents : Bytes) :
    (removeFile strerror (Function.update files fname (some contents)) fname).2 fname = none := by
  simp [removeFile, unlink]

/-- Whatever fails, the file is complete or it is not there. -/
theorem doWriteStringToFile_all_or_nothing (strerror : Nat → String) (files : Files) (fd : Nat)
    (writes : List WriteOutcome) (others : List (Option Nat)) (data : Bytes) (fname : String)
    (shouldSync : Bool) :
    let result := doWriteStringToFile strerror files ⟨.ok fd, writes, others⟩ data fname shouldSync
    (result.1.isOk = true ∧ result.2 fname = some data) ∨
      (result.1.isOk = false ∧ result.2 fname = none) := by
  obtain ⟨amount, streams, -⟩ := @PosixWritableFile.append_streams strerror
    (.new fname fd) data (.start writes others []) (Nat.zero_le _)
  have appended : Written data (PosixWritableFile.append strerror (.new fname fd) data
      (.start writes others [])) := fun isOk => streams.stream_of_ok isOk
  have synced := @Written.syncIfOk strerror _ _ appended streams.small shouldSync
  have closed := @Written.closeIfOk strerror _ _ synced
  simp only [doWriteStringToFile, newWritableFile]
  generalize closeIfOk strerror _ = called at closed ⊢
  cases isOk : called.1.isOk with
  | false => exact Or.inr ⟨isOk, removeFile_of_exists _ _ _⟩
  | true =>
    refine Or.inl ⟨isOk, ?_⟩
    simp only [Bool.not_true, Bool.false_eq_true, if_false]
    rw [Function.update_self, closed isOk]

/-! ### Writes that do not fail -/

/-- The write is interrupted, or it writes something. -/
def ShortWrite : WriteOutcome → Prop
  | .wrote _ => True
  | .failed errno => errno = EINTR

instance (outcome : WriteOutcome) : Decidable (ShortWrite outcome) :=
  match outcome with
  | .wrote _ => inferInstanceAs (Decidable True)
  | .failed _ => inferInstanceAs (Decidable (_ = _))

/-- The next calls succeed: those of `write` are short at most, and so are all others. -/
structure Undisturbed (kernel : Kernel) : Prop where
  short : ∀ outcome ∈ kernel.writes, ShortWrite outcome
  others : kernel.others = []

/-- Short writes deliver everything. -/
theorem delivered_of_short {writes : List WriteOutcome}
    (short : ∀ outcome ∈ writes, ShortWrite outcome) (size : Nat) :
    delivered writes size = size := by
  induction writes generalizing size with
  | nil => rfl
  | cons outcome writes inductionHypothesis =>
    have first := short outcome List.mem_cons_self
    have later := inductionHypothesis fun other member =>
      short other (List.mem_cons_of_mem outcome member)
    cases outcome with
    | wrote extra =>
      rw [delivered, later]
      split_ifs <;> omega
    | failed errno =>
      rw [delivered, if_pos (show errno = EINTR from first), later]
      split_ifs <;> omega

/-- The script that is left is an end of the script. -/
theorem writeLoop_writes (file : PosixWritableFile) (writes : List WriteOutcome) (data : Bytes)
    (kernel : Kernel) : (file.writeLoop strerror writes data kernel).2.writes <:+ writes := by
  induction writes generalizing data kernel with
  | nil =>
    rw [PosixWritableFile.writeLoop]
    split_ifs <;> exact List.suffix_refl _
  | cons outcome writes inductionHypothesis =>
    cases outcome with
    | wrote extra =>
      rw [PosixWritableFile.writeLoop]
      split_ifs
      · exact List.suffix_refl _
      · exact (inductionHypothesis _ _).trans (List.suffix_cons _ _)
    | failed errno =>
      rw [PosixWritableFile.writeLoop]
      split_ifs
      · exact List.suffix_refl _
      · exact (inductionHypothesis _ _).trans (List.suffix_cons _ _)
      · exact List.suffix_cons _ _

variable {file : PosixWritableFile} {kernel : Kernel}

/-- `WriteUnbuffered` succeeds on an open file. -/
theorem Undisturbed.writeUnbuffered (undisturbed : Undisturbed kernel) (isOpen : ¬ file.fd < 0)
    (data : Bytes) :
    (file.writeUnbuffered strerror data kernel).1 = .ok ∧
      Undisturbed (file.writeUnbuffered strerror data kernel).2 := by
  obtain ⟨calls, writes⟩ := file.writeUnbuffered_spec strerror data kernel
  rw [PosixWritableFile.deliverable, if_neg isOpen, delivered_of_short undisturbed.short] at writes
  refine ⟨(Status.isOk_iff _).mp (writes.ok_iff.mpr rfl), fun outcome member => ?_,
    writes.others.trans undisturbed.others⟩
  rw [PosixWritableFile.writeUnbuffered, if_neg fun both => isOpen both.2] at member
  exact undisturbed.short outcome ((writeLoop_writes _ _ _ _).subset member)

/-- `Append` succeeds on an open file. -/
theorem Undisturbed.append (undisturbed : Undisturbed kernel) (isOpen : ¬ file.fd < 0)
    (data : Bytes) :
    (file.append strerror data kernel).1 = .ok ∧
      ¬ (file.append strerror data kernel).2.1.fd < 0 ∧
      Undisturbed (file.append strerror data kernel).2.2 := by
  rcases Nat.lt_or_ge (kWritableFileBufferSize - file.buffer.length) data.length with
    overflows | fits
  · rw [PosixWritableFile.append_of_overflow kernel overflows]
    simp only
    generalize kWritableFileBufferSize - file.buffer.length = room
    obtain ⟨flushed, after⟩ :=
      @Undisturbed.writeUnbuffered strerror file kernel undisturbed isOpen
        (file.buffer ++ data.take room)
    rw [flushed]
    simp only [Status.isOk, Bool.true_eq_false, if_false]
    split_ifs
    · exact ⟨rfl, isOpen, after⟩
    · obtain ⟨wrote, last⟩ :=
        @Undisturbed.writeUnbuffered strerror file _ after isOpen (data.drop room)
      exact ⟨wrote, isOpen, last⟩
  · rw [PosixWritableFile.append_of_fits kernel fits]
    exact ⟨rfl, isOpen, undisturbed⟩

/-- `Close` succeeds on an open file. -/
theorem Undisturbed.close (undisturbed : Undisturbed kernel) (isOpen : ¬ file.fd < 0) :
    (file.close strerror kernel).1 = .ok := by
  obtain ⟨flushed, after⟩ :=
    @Undisturbed.writeUnbuffered strerror file kernel undisturbed isOpen file.buffer
  simp only [PosixWritableFile.close, PosixWritableFile.flushBuffer, Kernel.answerOn, if_neg isOpen,
    Kernel.answer, after.others, flushed]
  rfl

/-- However the writes are divided, the file has all of the data. -/
theorem writeStringToFile_of_short {writes : List WriteOutcome}
    (short : ∀ outcome ∈ writes, ShortWrite outcome) (files : Files) (fd : Nat) (fname : String)
    (shouldSync : Bool) :
    writeStringToFile strerror files ⟨.ok fd, writes, []⟩ data fname shouldSync =
      (.ok, Function.update files fname (some data)) := by
  have isOpen : ¬ (PosixWritableFile.new fname fd).fd < 0 := Int.not_lt.mpr (Int.natCast_nonneg fd)
  obtain ⟨appended, stillOpen, after⟩ := @Undisturbed.append strerror (.new fname fd)
    (.start writes [] []) ⟨short, rfl⟩ isOpen data
  have closed := @Undisturbed.close strerror _ _ after stillOpen
  have complete :=
    doWriteStringToFile_all_or_nothing strerror files fd writes [] data fname false
  simp only [writeStringToFile, doWriteStringToFile, newWritableFile, syncIfOk, Bool.and_false,
    Bool.false_eq_true, if_false, Env.closeIfOk, appended, closed, Status.isOk, if_true,
    Bool.not_true, Function.update_self, Function.update_idem, Option.some.injEq, reduceCtorEq,
    false_and, or_false, true_and] at complete ⊢
  rw [complete]

end Writing

/-! ### Reading -/

/-- A read that ends with a status OK and with some bytes takes them away from the file. -/
theorem read_progress {file : PosixSequentialFile} {n : Nat}
    (isOk : ¬ (file.read n).1.isOk = false) (nonempty : (file.read n).2.1 ≠ []) :
    (file.read n).2.2.rest.length < file.rest.length := by
  unfold PosixSequentialFile.read at *
  cases fails : ReadOutcome.fails file.outcomes with
  | true =>
    exact absurd (file.readLoop_of_fails n fails).1 isOk
  | false =>
    obtain ⟨size, outcomes, -, -, result⟩ := file.readLoop_of_not_fails n fails
    rw [result] at nonempty ⊢
    have taken : (file.rest.take size).length ≠ 0 :=
      fun isEmpty => nonempty (List.eq_nil_of_length_eq_zero isEmpty)
    rw [List.length_take] at taken
    simp only [PosixSequentialFile.rest_advance, List.length_drop]
    omega

/-- The loop of `ReadFileToString`. -/
def readFragments (file : PosixSequentialFile) (data : Bytes) : Status × Bytes :=
  let read := file.read 8192
  if read.1.isOk = false then (read.1, data)
  else
    let data := data ++ read.2.1
    if read.2.1 = [] then (read.1, data) else readFragments read.2.2 data
termination_by file.rest.length
decreasing_by exact read_progress (by assumption) (by assumption)

/-- `PosixEnv::NewSequentialFile`; the file is there or it is not. -/
def newSequentialFile (memory : Nat → UInt8) (files : Files) (script : List ReadOutcome)
    (filename : String) : Except Status PosixSequentialFile :=
  match files filename with
  | none => .error (posixError strerror filename ENOENT)
  | some contents =>
    .ok (.new filename contents script strerror memory)

/-- `ReadFileToString`. -/
def readFileToString (memory : Nat → UInt8) (files : Files) (script : List ReadOutcome)
    (fname : String) : Status × Bytes :=
  match newSequentialFile strerror memory files script fname with
  | .error status => (status, [])
  | .ok file => readFragments file []

/-- The read is interrupted, or it is not empty where there is something to read. -/
def ShortRead : ReadOutcome → Prop
  | .transferred count => 0 < count
  | .failed errno => errno = EINTR

instance (outcome : ReadOutcome) : Decidable (ShortRead outcome) :=
  match outcome with
  | .transferred _ => inferInstanceAs (Decidable (_ < _))
  | .failed _ => inferInstanceAs (Decidable (_ = _))

/-- A short read takes something from the beginning of what is left, if anything is left. -/
theorem readLoop_of_short {file : PosixSequentialFile} {n : Nat} (positive : 0 < n)
    {script : List ReadOutcome} (short : ∀ outcome ∈ script, ShortRead outcome) :
    ∃ size outcomes, (∀ outcome ∈ outcomes, ShortRead outcome) ∧
      (file.rest ≠ [] → 0 < size) ∧
      file.readLoop n script = (.ok, file.rest.take size, file.advance size outcomes) := by
  have taken : ∀ count, 0 < count →
      (file.rest ≠ [] → 0 < (file.rest.take count).length) ∧
        file.rest.take count = file.rest.take (file.rest.take count).length := by
    intro count some_
    rw [List.length_take]
    refine ⟨fun left => Nat.lt_min.mpr ⟨some_, List.length_pos_iff.mpr left⟩, ?_⟩
    exact (PosixSequentialFile.take_min_length _ _).symm
  induction script with
  | nil =>
    obtain ⟨progress, same⟩ := taken n positive
    refine ⟨_, [], short, progress, ?_⟩
    rw [← same]
    rfl
  | cons outcome script inductionHypothesis =>
    have first := short outcome List.mem_cons_self
    have later : ∀ outcome ∈ script, ShortRead outcome :=
      fun other member => short other (List.mem_cons_of_mem outcome member)
    cases outcome with
    | transferred count =>
      obtain ⟨progress, same⟩ := taken (min count n) (Nat.lt_min.mpr ⟨first, positive⟩)
      refine ⟨_, script, later, progress, ?_⟩
      rw [← same]
      rfl
    | failed errno =>
      rw [PosixSequentialFile.readLoop, if_pos (show errno = EINTR from first)]
      exact inductionHypothesis later

/-- However the reads are divided, all of the file is read. -/
theorem readFragments_eq {file : PosixSequentialFile}
    (short : ∀ outcome ∈ file.outcomes, ShortRead outcome) (data : Bytes) :
    readFragments file data = (.ok, data ++ file.rest) := by
  induction isSize : file.rest.length using Nat.strong_induction_on generalizing file data with
  | _ size inductionHypothesis =>
    obtain ⟨taken, outcomes, later, progress, result⟩ :=
      readLoop_of_short (show 0 < 8192 by decide) short
    rw [readFragments, PosixSequentialFile.read, result]
    simp only [Status.isOk, Bool.true_eq_false, if_false]
    by_cases left : file.rest = []
    · simp [left]
    · have some_ : 0 < file.rest.length := List.length_pos_iff.mpr left
      have positive := progress left
      rw [if_neg (by simp [left]; omega), inductionHypothesis _ ?_ later _ rfl,
        PosixSequentialFile.rest_advance, List.append_assoc, List.take_append_drop]
      rw [PosixSequentialFile.rest_advance, List.length_drop]
      omega

/-- `WriteStringToFile` returns OK and all of the data is there to be read, or it returns an
error and leaves no file. -/
theorem write_string_all_or_nothing (strerror : Nat → String) (memory : Nat → UInt8)
    (files : Files) (fd : Nat) (writes : List WriteOutcome) (others : List (Option Nat))
    (data : Bytes) (fname : String) (shouldSync : Bool) :
    let result := writeStringToFile strerror files ⟨.ok fd, writes, others⟩ data fname shouldSync
    (result.1.isOk = true ∧ result.2 fname = some data ∧
      ∀ script : List ReadOutcome, (∀ outcome ∈ script, ShortRead outcome) →
        readFileToString strerror memory result.2 script fname = (.ok, data)) ∨
    (result.1.isOk = false ∧ result.2 fname = none) := by
  intro result
  rcases doWriteStringToFile_all_or_nothing strerror files fd writes others data fname false with
    ⟨isOk, complete⟩ | ⟨notOk, absent⟩
  · refine Or.inl ⟨isOk, complete, fun script short => ?_⟩
    have opens : newSequentialFile strerror memory result.2 script fname =
        .ok (.new fname data script strerror memory) := by
      rw [newSequentialFile, show result.2 fname = some data from complete]
    rw [readFileToString, opens]
    exact readFragments_eq short []
  · exact Or.inr ⟨notOk, absent⟩

/-- Two bytes written one by one after an interruption, and read one by one. -/
theorem write_string_all_or_nothing_two_bytes :
    readFileToString (fun _ => "") (fun _ => 0)
      (writeStringToFile (fun _ => "") (fun _ => none) ⟨.ok 3, [.failed EINTR, .wrote 0], []⟩
        [97, 98] "CURRENT" false).2
      [.transferred 1, .failed EINTR] "CURRENT" = (.ok, [97, 98]) := by
  rcases write_string_all_or_nothing (fun _ => "") (fun _ => 0) (fun _ => none) 3
    [.failed EINTR, .wrote 0] [] [97, 98] "CURRENT" false with ⟨-, -, reads⟩ | ⟨notOk, -⟩
  · exact reads _ (by decide)
  · cases notOk

end LevelDbXy.Env
