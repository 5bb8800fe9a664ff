import LevelDbXy.Env.WritableSession

/-!
# The directory of a manifest

`Sync` of a manifest syncs a directory first. The constructor means to keep the part of the
name before its last separator, but computes it from the string that it has moved away, and
keeps the current directory for every name.
-/

namespace LevelDbXy.Posix

/-! ### Names -/

/-- The part of the name after its last separator. -/
def LastComponent (filename base : String) : Prop :=
  '/' ∉ base.toList ∧ (filename = base ∨ ∃ directory, filename = directory ++ "/" ++ base)

/-- Without a separator none is found. -/
theorem rfindSeparator_eq_none {s : List Char} (noSeparator : '/' ∉ s) :
    rfindSeparator s = none := by
  induction s with
  | nil => rfl
  | cons c s inductionHypothesis =>
    rw [List.mem_cons, not_or] at noSeparator
    rw [rfindSeparator, inductionHypothesis noSeparator.2]
    exact if_neg fun isSeparator => noSeparator.1 isSeparator.symm

/-- The separator before the last component is found. -/
theorem rfindSeparator_last (s : List Char) {base : List Char} (noSeparator : '/' ∉ base) :
    rfindSeparator (s ++ '/' :: base) = some s.length := by
  induction s with
  | nil =>
    rw [List.nil_append, rfindSeparator, rfindSeparator_eq_none noSeparator]
    rfl
  | cons c s inductionHypothesis =>
    rw [List.cons_append, rfindSeparator, inductionHypothesis]
    rfl

namespace PosixWritableFile

/-- The characters of a path of two components. -/
theorem toList_joined (directory base : String) :
    (directory ++ "/" ++ base).toList = directory.toList ++ '/' :: base.toList := by
  simp

/-- `Dirname` of the name itself is the part before the last separator. -/
theorem dirnameOf_joined (directory : String) {base : String} (noSeparator : '/' ∉ base.toList) :
    dirnameOf (directory ++ "/" ++ base) = directory := by
  rw [dirnameOf, toList_joined, rfindSeparator_last _ noSeparator]
  simp

/-- `Basename` is the part after it. -/
theorem basenameOf_eq {filename base : String} (last : LastComponent filename base) :
    basenameOf filename = base := by
  obtain ⟨noSeparator, rfl | ⟨directory, rfl⟩⟩ := last
  · rw [basenameOf, rfindSeparator_eq_none noSeparator]
  · rw [basenameOf, toList_joined, rfindSeparator_last _ noSeparator]
    simp

/-- A name is that of a manifest if its last component begins so. -/
theorem isManifestName_iff {filename base : String} (last : LastComponent filename base) :
    isManifestName filename = true ↔ "MANIFEST".toList <+: base.toList := by
  rw [isManifestName, basenameOf_eq last, List.isPrefixOf_iff_prefix]

end PosixWritableFile

/-! ### The calls on directories -/

/-- The call tries to open a directory. -/
def SystemCall.opensDirectory : SystemCall → Bool
  | .openDirectory _ _ => true
  | _ => false

/-- No directory was opened. -/
def Kernel.NoDirectory (kernel : Kernel) : Prop :=
  ∀ call ∈ kernel.trace, call.opensDirectory = false

/-- Calls that open no directory do not change that none was opened. -/
theorem Kernel.NoDirectory.extend {kernel after : Kernel} {calls : List SystemCall}
    (noDirectory : kernel.NoDirectory) (trace : after.trace = kernel.trace ++ calls)
    (others : ∀ call ∈ calls, call.opensDirectory = false) : after.NoDirectory := by
  intro call member
  rw [trace, List.mem_append] at member
  exact member.elim (noDirectory call) (others call)

/-- The call is in the trace as it ended. -/
theorem Kernel.answerOn_trace (kernel : Kernel) (fd : Int) (call : Option Nat → SystemCall) :
    (kernel.answerOn fd call).2.trace = kernel.trace ++ [call (kernel.answerOn fd call).1] := by
  unfold Kernel.answerOn
  split_ifs <;> rfl

/-- One such call does not, either. -/
theorem Kernel.NoDirectory.answerOn {kernel : Kernel} (noDirectory : kernel.NoDirectory) (fd : Int)
    {call : Option Nat → SystemCall} (other : ∀ errno, (call errno).opensDirectory = false) :
    (kernel.answerOn fd call).2.NoDirectory := by
  refine noDirectory.extend (kernel.answerOn_trace fd call) ?_
  simpa using other _

namespace PosixWritableFile

variable {strerror : Nat → String} {kernel : Kernel}

/-- Writing opens no directory. -/
theorem writeUnbuffered_noDirectory (file : PosixWritableFile) (data : Bytes)
    (noDirectory : kernel.NoDirectory) :
    (file.writeUnbuffered strerror data kernel).2.NoDirectory := by
  obtain ⟨calls, writes⟩ := file.writeUnbuffered_spec strerror data kernel
  refine noDirectory.extend writes.trace fun call member => ?_
  have isWrite := writes.only call member
  cases call <;> first | rfl | cases isWrite

/-- Nor does appending. -/
theorem append_noDirectory (file : PosixWritableFile) (data : Bytes)
    (noDirectory : kernel.NoDirectory) :
    (file.append strerror data kernel).2.2.NoDirectory := by
  unfold append flushBuffer
  simp only
  split_ifs
  · exact noDirectory
  · exact writeUnbuffered_noDirectory _ _ noDirectory
  · exact writeUnbuffered_noDirectory _ _ noDirectory
  · exact writeUnbuffered_noDirectory _ _ (writeUnbuffered_noDirectory _ _ noDirectory)

/-- With its directory synced, `Sync` flushes and then syncs the file. -/
theorem sync_of_directory {file : PosixWritableFile} {middle : Kernel}
    (directory : file.syncDirIfManifest strerror kernel = (.ok, middle)) :
    file.sync strerror kernel =
      let flushed := file.writeUnbuffered strerror file.buffer middle
      if flushed.1.isOk = false then (flushed.1, { file with buffer := [] }, flushed.2)
      else
        let synced := flushed.2.answerOn file.fd .syncFile
        (syncFd strerror file.filename synced.1, { file with buffer := [] }, synced.2) := by
  have isOk : Status.ok.isOk = true := rfl
  simp only [sync, flushBuffer, directory, isOk, Bool.not_true, Bool.false_eq_true, if_false,
    Bool.not_eq_true']

/-- Nor does syncing a file that is not a manifest. -/
theorem sync_noDirectory {file : PosixWritableFile} (notManifest : file.isManifest = false)
    (noDirectory : kernel.NoDirectory) : (file.sync strerror kernel).2.2.NoDirectory := by
  have flushed : (file.writeUnbuffered strerror file.buffer kernel).2.NoDirectory :=
    file.writeUnbuffered_noDirectory file.buffer noDirectory
  have skipped : file.syncDirIfManifest strerror kernel = (.ok, kernel) := by
    rw [syncDirIfManifest, notManifest]
    rfl
  rw [sync_of_directory skipped]
  simp only
  split_ifs
  · exact flushed
  · exact flushed.answerOn _ fun _ => rfl

/-- The calls open and sync a directory, then write what is in the buffer, then sync the file. -/
def SyncTrace (path : String) (buffer : Bytes) (calls : List SystemCall) : Prop :=
  ∃ closed writes, calls = [.openDirectory path none, .syncDirectory path none,
      .closeDirectory path closed] ++ writes ++ [.syncFile none] ∧
    (∀ call ∈ writes, call.isWrite = true) ∧ written writes = buffer

/-- The directory of a manifest, if it can be opened and synced. -/
theorem syncDirIfManifest_of_syncs {file : PosixWritableFile} (manifest : file.isManifest = true)
    (syncs : kernel.DirectorySyncs) :
    file.syncDirIfManifest strerror kernel = (.ok, { kernel with
      others := kernel.others.tail.tail.tail
      trace := kernel.trace ++ [.openDirectory file.dirname none, .syncDirectory file.dirname none,
        .closeDirectory file.dirname kernel.others.tail.tail.head?.join] }) := by
  obtain ⟨opened, synced⟩ := syncs
  simp only [syncDirIfManifest, manifest, Kernel.answer, opened, synced, syncFd, Bool.not_true,
    Bool.false_eq_true, if_false, List.append_assoc, List.cons_append, List.nil_append]

/-- After the directory, what is in the buffer is written, and the file is synced. -/
theorem sync_trace_of_directory {file : PosixWritableFile} {middle : Kernel}
    (directory : file.syncDirIfManifest strerror kernel = (.ok, middle))
    (isOk : (file.sync strerror kernel).1.isOk = true) :
    ∃ writes, (file.sync strerror kernel).2.2.trace = middle.trace ++ writes ++ [.syncFile none] ∧
      (∀ call ∈ writes, call.isWrite = true) ∧ written writes = file.buffer := by
  rw [sync_of_directory directory] at isOk ⊢
  obtain ⟨writes, wrote⟩ := file.writeUnbuffered_spec strerror file.buffer middle
  simp only at isOk ⊢
  split_ifs at isOk ⊢ with notFlushed
  · rw [notFlushed] at isOk
    cases isOk
  · have whole := wrote.ok_iff.mp (by simpa using notFlushed)
    refine ⟨writes, ?_, wrote.only, ?_⟩
    · rw [syncFd_isOk] at isOk
      rw [Kernel.answerOn_trace, isOk, wrote.trace]
    · rw [wrote.wrote, whole, List.take_length]

/-- `Sync` of a manifest syncs the directory kept in the file. -/
theorem sync_trace {file : PosixWritableFile} (manifest : file.isManifest = true)
    (isOk : (file.sync strerror kernel).1.isOk = true) :
    ∃ calls, (file.sync strerror kernel).2.2.trace = kernel.trace ++ calls ∧
      SyncTrace file.dirname file.buffer calls := by
  have syncs := (directory_of_sync_isOk isOk).resolve_left (by simp [manifest])
  obtain ⟨writes, trace, only, wrote⟩ :=
    sync_trace_of_directory (syncDirIfManifest_of_syncs manifest syncs) isOk
  refine ⟨_, ?_, kernel.others.tail.tail.head?.join, writes, rfl, only, wrote⟩
  rw [trace, List.append_assoc, List.append_assoc, List.append_assoc]

/-- The constants of the file. -/
structure SameNames (file after : PosixWritableFile) : Prop where
  manifest : after.isManifest = file.isManifest
  dirname : after.dirname = file.dirname

/-- `Append` keeps the names of the file. -/
theorem append_names (file : PosixWritableFile) (data : Bytes) (kernel : Kernel) :
    SameNames file (file.append strerror data kernel).2.1 := by
  unfold append flushBuffer
  simp only
  split_ifs <;> exact ⟨rfl, rfl⟩

/-- So does `Sync`. -/
theorem sync_names (file : PosixWritableFile) (kernel : Kernel) :
    SameNames file (file.sync strerror kernel).2.1 := by
  unfold sync flushBuffer
  simp only
  split_ifs <;> exact ⟨rfl, rfl⟩

end PosixWritableFile

/-- Every call keeps the constants of the file, and opens no directory if it is no manifest. -/
theorem WritableCall.perform_names (strerror : Nat → String) (call : WritableCall)
    (file : PosixWritableFile) (kernel : Kernel) :
    file.SameNames (call.perform strerror file kernel).2.1 ∧
      (file.isManifest = false → kernel.NoDirectory →
        (call.perform strerror file kernel).2.2.NoDirectory) := by
  cases call with
  | append data =>
    exact ⟨file.append_names data kernel, fun _ => file.append_noDirectory data⟩
  | flush =>
    exact ⟨⟨rfl, rfl⟩, fun _ => file.writeUnbuffered_noDirectory file.buffer⟩
  | sync =>
    exact ⟨file.sync_names kernel, PosixWritableFile.sync_noDirectory⟩
  | close =>
    refine ⟨⟨rfl, rfl⟩, fun _ noDirectory => ?_⟩
    exact (file.writeUnbuffered_noDirectory file.buffer noDirectory).answerOn file.fd fun _ => rfl

namespace WriteSession

variable {strerror : Nat → String}

/-- What the constructor has made of the name. -/
structure Named (filename : String) (session : WriteSession) : Prop where
  manifest : session.file.isManifest = PosixWritableFile.isManifestName filename
  dirname : session.file.dirname = "."
  noDirectory : PosixWritableFile.isManifestName filename = false → session.kernel.NoDirectory

/-- So does every call. -/
theorem Named.call {filename : String} {session next : WriteSession} {request : WritableCall}
    (named : Named filename session) (called : session.call strerror request = some next) :
    Named filename next := by
  obtain ⟨same, quiet⟩ := request.perform_names strerror session.file session.kernel
  rw [call_eq called]
  refine ⟨same.manifest.trans named.manifest, same.dirname.trans named.dirname, fun other => ?_⟩
  exact quiet (named.manifest.trans other) (named.noDirectory other)

/-- After any calls the file has the names of its constructor. -/
theorem run_named {filename : String} {fd : Nat} {writes : List WriteOutcome}
    {others : List (Option Nat)} {contents : Bytes} {calls : List WritableCall}
    {session : WriteSession}
    (ran : Machine.run (WriteSession.call strerror)
      (new filename fd (.start writes others contents)) calls = some session) :
    Named filename session :=
  Machine.run_keeps Named.call ⟨rfl, rfl, fun _ _ member => absurd member List.not_mem_nil⟩ ran

variable {Directory : Type} (resolve : String → Directory)

/-- If `Sync` would now return OK, it would first sync this directory, by whatever path. -/
def SyncsDirectory (strerror : Nat → String) (directory : String) (session : WriteSession) : Prop :=
  (session.file.sync strerror session.kernel).1.isOk = true →
    ∃ path calls, resolve path = resolve directory ∧
      (session.file.sync strerror session.kernel).2.2.trace = session.kernel.trace ++ calls ∧
      PosixWritableFile.SyncTrace path session.file.buffer calls

/-- A manifest in a directory has this directory synced at any time, and a file that is no
manifest has none. -/
def DirectoryPromise (filename : String) : Prop :=
  ∀ (strerror : Nat → String) (fd : Nat) (writes : List WriteOutcome) (others : List (Option Nat))
    (contents : Bytes) (calls : List WritableCall) (session : WriteSession),
    Machine.run (WriteSession.call strerror) (new filename fd (.start writes others contents))
      calls = some session →
    (∀ directory base, filename = directory ++ "/" ++ base → '/' ∉ base.toList →
      "MANIFEST".toList <+: base.toList → session.SyncsDirectory resolve strerror directory) ∧
    (∀ base, LastComponent filename base → ¬ "MANIFEST".toList <+: base.toList →
      session.kernel.NoDirectory)

/-- A new manifest syncs the current directory. -/
theorem new_sync_trace (strerror : Nat → String) {filename : String}
    (manifest : PosixWritableFile.isManifestName filename = true) :
    (((new filename 0 (.start [] [] [])).file.sync strerror (.start [] [] [])).1.isOk = true) ∧
      ((new filename 0 (.start [] [] [])).file.sync strerror (.start [] [] [])).2.2.trace =
        [.openDirectory "." none, .syncDirectory "." none, .closeDirectory "." none,
          .syncFile none] := by
  rw [PosixWritableFile.sync_of_directory (PosixWritableFile.syncDirIfManifest_of_syncs manifest
    (by decide))]
  exact ⟨rfl, rfl⟩

variable {resolve}

/-- If the promise holds, the directory of a manifest is the current one. -/
theorem current_of_promise {filename directory base : String}
    (promise : DirectoryPromise resolve filename) (isName : filename = directory ++ "/" ++ base)
    (noSeparator : '/' ∉ base.toList) (isManifest : "MANIFEST".toList <+: base.toList) :
    resolve "." = resolve directory := by
  have manifest : PosixWritableFile.isManifestName filename = true :=
    (PosixWritableFile.isManifestName_iff ⟨noSeparator, Or.inr ⟨directory, isName⟩⟩).mpr isManifest
  obtain ⟨isOk, trace⟩ := new_sync_trace (fun _ => "") manifest
  obtain ⟨path, calls, same, traced, closed, written, rfl, -⟩ :=
    (promise (fun _ => "") 0 [] [] [] [] _ rfl).1 directory base isName noSeparator isManifest isOk
  obtain ⟨first, -⟩ := List.cons.inj (trace.symm.trans traced)
  obtain ⟨isPath, -⟩ := SystemCall.openDirectory.inj first
  rw [isPath, same]

variable (resolve)

/-- The promise is kept for a manifest in a directory exactly if that is the current one. -/
theorem manifest_directory_synced_iff (filename : String) :
    DirectoryPromise resolve filename ↔
      ∀ directory base, filename = directory ++ "/" ++ base → '/' ∉ base.toList →
        "MANIFEST".toList <+: base.toList → resolve "." = resolve directory := by
  constructor
  · intro promise directory base isName noSeparator isManifest
    exact current_of_promise promise isName noSeparator isManifest
  · intro current strerror fd writes others contents calls session ran
    have named := run_named ran
    refine ⟨fun directory base isName noSeparator isManifest isOk => ?_, fun base last other => ?_⟩
    · have manifest : PosixWritableFile.isManifestName filename = true :=
        (PosixWritableFile.isManifestName_iff ⟨noSeparator, Or.inr ⟨directory, isName⟩⟩).mpr
          isManifest
      obtain ⟨calls, trace, synced⟩ :=
        PosixWritableFile.sync_trace (named.manifest.trans manifest) isOk
      rw [named.dirname] at synced
      exact ⟨".", calls, current directory base isName noSeparator isManifest, trace, synced⟩
    · refine named.noDirectory (Bool.eq_false_iff.mpr fun manifest => other ?_)
      exact (PosixWritableFile.isManifestName_iff last).mp manifest

/-- A manifest in `db` has the current directory synced. -/
theorem manifest_of_other_directory : ¬ DirectoryPromise id "db/MANIFEST-1" := by
  intro promise
  have current : "." = "db" :=
    @current_of_promise _ id _ "db" "MANIFEST-1" promise (by decide) (by decide) (by decide)
  exact absurd current (by decide)

end WriteSession

end LevelDbXy.Posix
