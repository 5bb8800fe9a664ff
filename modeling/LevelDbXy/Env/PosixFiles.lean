import LevelDbXy.Env.WholeFile

/-!
# Files by name

The calls of `PosixEnv` on whole files, over a file system whose system calls fail only
with `ENOENT`: `WriteStringToFile` and `ReadFileToString` of `Env.WholeFile`, whose calls of
`write` and `read` may be short or interrupted, and the calls that name a file. The abstract
side is a map from names to contents. The map is followed in every case; the status of a call
that names an absent file is not the promised one, since `PosixError` looks for `ENONET`.
-/

namespace LevelDbXy.Posix

open Env

/-- The calls of `write` in one `WriteStringToFile`: each writes something or is interrupted. -/
structure ShortWrites where
  outcomes : List WriteOutcome
  short : ∀ outcome ∈ outcomes, ShortWrite outcome

/-- The calls of `read` in one `ReadFileToString`: each reads something that is left, or is
interrupted. -/
structure ShortReads where
  outcomes : List ReadOutcome
  short : ∀ outcome ∈ outcomes, ShortRead outcome

/-- The texts of error numbers, the descriptor that `open` gives, and what lies behind the memory
that files are read to. -/
structure System where
  strerror : Nat → String
  fd : Nat
  memory : Nat → UInt8

variable (system : System)

/-! ### The other calls -/

/-- `PosixEnv::FileExists`. -/
def fileExists (files : Files) (name : String) : Bool := (files name).isSome

/-- `PosixEnv::GetFileSize`. -/
def getFileSize (files : Files) (name : String) : Status × Nat :=
  match files name with
  | none => (posixError system.strerror name ENOENT, 0)
  | some content => (.ok, content.length)

/-- `std::rename`, as an error number or the files then. -/
def rename (files : Files) (source target : String) : Except Nat Files :=
  match files source with
  | none => .error ENOENT
  | some content => .ok (Function.update (Function.update files source none) target (some content))

/-- `PosixEnv::RenameFile`. -/
def renameFile (files : Files) (source target : String) : Status × Files :=
  match rename files source target with
  | .error errno => (posixError system.strerror source errno, files)
  | .ok files => (.ok, files)

/-- A call on whole files. -/
inductive FileCall where
  | writeStringToFile (data : Bytes) (name : String) (writes : ShortWrites)
  | readFileToString (name : String) (reads : ShortReads)
  | fileExists (name : String)
  | getFileSize (name : String)
  | renameFile (source target : String)
  | removeFile (name : String)

/-- What a call returns. -/
inductive Outcome where
  | status (status : Status)
  | data (status : Status) (data : Bytes)
  | exists_ (found : Bool)
  | size (status : Status) (size : Nat)
  deriving DecidableEq, Repr

/-- A call of `PosixEnv`. -/
def perform (files : Files) : FileCall → Outcome × Files
  | .writeStringToFile data name writes =>
    let (status, files) := writeStringToFile system.strerror files
      ⟨.ok system.fd, writes.outcomes, []⟩ data name false
    (.status status, files)
  | .readFileToString name reads =>
    let (status, data) :=
      readFileToString system.strerror system.memory files reads.outcomes name
    (.data status data, files)
  | .fileExists name => (.exists_ (fileExists files name), files)
  | .getFileSize name =>
    let (status, size) := getFileSize system files name
    (.size status size, files)
  | .renameFile source target =>
    let (status, files) := renameFile system files source target
    (.status status, files)
  | .removeFile name =>
    let (status, files) := removeFile system.strerror files name
    (.status status, files)

/-- Calls one after the other. -/
def performAll (files : Files) : List FileCall → List Outcome × Files
  | [] => ([], files)
  | call :: calls =>
    let (outcome, files) := perform system files call
    let (outcomes, files) := performAll files calls
    (outcome :: outcomes, files)

/-! ### The map -/

namespace FileMap

/-- What the map answers. -/
inductive Reply where
  | done
  | notFound
  | data (data : Bytes)
  | exists_ (found : Bool)
  | size (size : Nat)
  deriving DecidableEq, Repr

/-- A call on the map from names to contents. A file that is not there changes nothing. -/
def perform (files : Files) : FileCall → Reply × Files
  | .writeStringToFile data name _ => (.done, Function.update files name (some data))
  | .readFileToString name _ =>
    match files name with
    | none => (.notFound, files)
    | some content => (.data content, files)
  | .fileExists name => (.exists_ (files name).isSome, files)
  | .getFileSize name =>
    match files name with
    | none => (.notFound, files)
    | some content => (.size content.length, files)
  | .renameFile source target =>
    match files source with
    | none => (.notFound, files)
    | some content =>
      (.done, Function.update (Function.update files source none) target (some content))
  | .removeFile name =>
    match files name with
    | none => (.notFound, files)
    | some _ => (.done, Function.update files name none)

/-- Calls one after the other. -/
def performAll (files : Files) : List FileCall → List Reply × Files
  | [] => ([], files)
  | call :: calls =>
    let (reply, files) := perform files call
    let (replies, files) := performAll files calls
    (reply :: replies, files)

end FileMap

/-- An outcome is what the map answers; a file that is not there gives `IsNotFound`. -/
def Outcome.agrees : Outcome → FileMap.Reply → Bool
  | .status returned, .done => returned.isOk
  | .status returned, .notFound => returned.isNotFound
  | .data returned bytes, .data content => returned.isOk && bytes == content
  | .data returned _, .notFound => returned.isNotFound
  | .exists_ found, .exists_ expected => found == expected
  | .size returned bytes, .size expected => returned.isOk && bytes == expected
  | .size returned _, .notFound => returned.isNotFound
  | _, _ => false

/-- The file that the call needs is there. -/
def NamesPresent (files : Files) : FileCall → Prop
  | .readFileToString name _ => (files name).isSome
  | .getFileSize name => (files name).isSome
  | .renameFile source _ => (files source).isSome
  | .removeFile name => (files name).isSome
  | _ => True

/-! ### The map is followed -/

section

variable {system}

/-- An absent file is reported as an I/O error. -/
theorem isNotFound_posixError (strerror : Nat → String) (context : String) :
    (posixError strerror context ENOENT).isNotFound = false := rfl

/-- Every call leaves what the map leaves. -/
theorem perform_files (files : Files) (call : FileCall) :
    (perform system files call).2 = (FileMap.perform files call).2 := by
  cases call with
  | writeStringToFile data name writes =>
    simp only [perform, FileMap.perform, writeStringToFile_of_short writes.short]
  | readFileToString name reads =>
    cases found : files name <;> simp [perform, FileMap.perform, found]
  | fileExists name => rfl
  | getFileSize name => cases found : files name <;> simp [perform, FileMap.perform, found]
  | renameFile source target =>
    cases found : files source <;>
      simp [perform, FileMap.perform, renameFile, rename, found]
  | removeFile name =>
    cases found : files name <;> simp [perform, FileMap.perform, removeFile, unlink, found]

/-- A call returns what the map answers exactly if the file it needs is there. -/
theorem perform_agrees_iff (files : Files) (call : FileCall) :
    (perform system files call).1.agrees (FileMap.perform files call).1 = true ↔
      NamesPresent files call := by
  cases call with
  | writeStringToFile data name writes =>
    simp [perform, FileMap.perform, writeStringToFile_of_short writes.short, Outcome.agrees,
      Status.isOk, NamesPresent]
  | readFileToString name reads =>
    cases found : files name with
    | none => simp [perform, FileMap.perform, readFileToString, newSequentialFile, found,
        Outcome.agrees, NamesPresent, isNotFound_posixError]
    | some content =>
      have read := @readFragments_eq
        (.new name content reads.outcomes system.strerror system.memory) reads.short []
      simp only [perform, FileMap.perform, readFileToString, newSequentialFile, found, read]
      simp [Outcome.agrees, NamesPresent, found, Status.isOk, PosixSequentialFile.rest,
        PosixSequentialFile.new]
  | fileExists name =>
    simp [perform, FileMap.perform, fileExists, Outcome.agrees, NamesPresent]
  | getFileSize name =>
    cases found : files name <;> simp [perform, FileMap.perform, getFileSize, found,
      Outcome.agrees, NamesPresent, isNotFound_posixError, Status.isOk]
  | renameFile source target =>
    cases found : files source <;> simp [perform, FileMap.perform, renameFile, rename, found,
      Outcome.agrees, NamesPresent, isNotFound_posixError, Status.isOk]
  | removeFile name =>
    cases found : files name <;> simp [perform, FileMap.perform, removeFile, unlink, found,
      Outcome.agrees, NamesPresent, isNotFound_posixError, Status.isOk]

end

/-- In every sequence of calls the files are those of the map, and the results are its answers
exactly if each call that reads, measures, renames or removes a file names one that is there. -/
theorem files_refine_map_iff (system : System) (files : Files) (calls : List FileCall) :
    (performAll system files calls).2 = (FileMap.performAll files calls).2 ∧
      (List.Forall₂ (fun outcome reply => outcome.agrees reply = true)
          (performAll system files calls).1 (FileMap.performAll files calls).1 ↔
        Machine.Meets (fun files call => some (FileMap.perform files call).2) NamesPresent
          files calls) := by
  induction calls generalizing files with
  | nil => exact ⟨rfl, iff_of_true .nil trivial⟩
  | cons call calls inductionHypothesis =>
    have same := @perform_files system files call
    obtain ⟨laterFiles, laterResults⟩ := inductionHypothesis (FileMap.perform files call).2
    simp only [performAll, FileMap.performAll, same]
    refine ⟨laterFiles, ?_⟩
    rw [List.forall₂_cons, perform_agrees_iff, laterResults, Machine.meets_cons_of_some rfl]

/-- Removing a file that is not there. -/
theorem absent_file_is_io_error :
    (performAll ⟨fun _ => "No such file or directory", 3, fun _ => 0⟩ (fun _ => none)
        [.removeFile "CURRENT"]).1 =
      [.status (.ioError "CURRENT: No such file or directory")] ∧
    ¬ List.Forall₂ (fun outcome reply => outcome.agrees reply = true)
      (performAll ⟨fun _ => "No such file or directory", 3, fun _ => 0⟩ (fun _ => none)
        [.removeFile "CURRENT"]).1
      (FileMap.performAll (fun _ => none) [.removeFile "CURRENT"]).1 := by
  refine ⟨by decide, fun agree => ?_⟩
  cases agree with
  | cons first _ => exact absurd first (by decide)

end LevelDbXy.Posix
