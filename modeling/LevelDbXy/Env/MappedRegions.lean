import LevelDbXy.Env.RandomAccessFile
import Mathlib.Data.List.Perm.Basic

/-!
# Mapped regions and permanent descriptors

The resources behind the files of `NewRandomAeccessFile`, over any sequence of opened and
destroyed files. The limiters count the live files, so the descriptors stay within their
limit. The regions follow the live files only while the destructors unmap them, and in a
build with `NDEBUG` none does, and while no constructor of a mapped file throws, since
nobody unmaps the region then.
-/

namespace LevelDbXy.Posix

/-- The process and its live files. -/
structure Session where
  process : Process
  files : List RandomAccessFile

/-- A call of `NewRandomAeccessFile`, or `delete` of one of the live files. -/
inductive FileAction where
  | newRandomAccessFile (filename : String) (calls : SystemCalls) (selfCopy : SelfCopy)
  | delete (index : Nat)

/-- A new `PosixEnv` with the limits of its two limiters. -/
def Session.initial (mmapLimit fdLimit : Nat) : Session := ⟨⟨⟨mmapLimit⟩, ⟨fdLimit⟩, 0, 0⟩, []⟩

/-- The files a call of `NewRandomAeccessFile` gives to its caller. -/
def Opened.files : Opened → List RandomAccessFile
  | .returned _ result => result.toList
  | .thrown => []

/-- One action, in a build with or without `NDEBUG`. The caller catches what is thrown; there is
no state after a crash. -/
def fileStep (strerror : Nat → String) (ndebug : Bool) (session : Session) :
    FileAction → Option Session
  | .newRandomAccessFile filename calls selfCopy =>
    (newRandomAccessFile strerror selfCopy session.process filename calls).map
      fun (opened, process) => ⟨process, session.files ++ opened.files⟩
  | .delete index =>
    (session.files[index]?).map fun file =>
      ⟨destroy ndebug session.process file, session.files.eraseIdx index⟩

/-- The file is a `PosixMmapReadableFile`. -/
def RandomAccessFile.isMapped : RandomAccessFile → Bool
  | .mmap _ _ _ => true
  | _ => false

/-- The file is a `PosixRandomAccessFile` that holds a descriptor. -/
def RandomAccessFile.isPermanent : RandomAccessFile → Bool
  | .pread _ (some _) => true
  | _ => false

/-- The live mapped files. -/
def Session.liveMapped (session : Session) : Nat := session.files.countP RandomAccessFile.isMapped

/-- The live files that hold a descriptor. -/
def Session.livePermanent (session : Session) : Nat :=
  session.files.countP RandomAccessFile.isPermanent

/-- The promise: a region for each live mapped file and no other, within the limit, and
descriptors within theirs. -/
structure Session.Accounted (mmapLimit fdLimit : Nat) (session : Session) : Prop where
  regions : session.process.mapped = session.liveMapped
  mmapBound : session.process.mapped ≤ mmapLimit
  fdBound : session.livePermanent ≤ fdLimit

/-- What the limiters say about the live files. A thrown constructor keeps its part of
`mmap_limiter_` and the descriptor for good. -/
structure Session.Limited (mmapLimit fdLimit : Nat) (session : Session) : Prop where
  mmapAllowed : session.process.mmapLimiter.acquiresAllowed + session.liveMapped ≤ mmapLimit
  mmapNonneg : 0 ≤ session.process.mmapLimiter.acquiresAllowed
  fdAllowed : session.process.fdLimiter.acquiresAllowed + session.livePermanent = fdLimit
  fdNonneg : 0 ≤ session.process.fdLimiter.acquiresAllowed
  descriptors : session.livePermanent ≤ session.process.descriptors

variable {strerror : Nat → String} {ndebug : Bool} {mmapLimit fdLimit : Nat}
  {session after : Session}

/-- A new environment has all of its limits left. -/
theorem initial_limited (mmapLimit fdLimit : Nat) :
    (Session.initial mmapLimit fdLimit).Limited mmapLimit fdLimit := by
  constructor <;> simp [Session.initial, Session.liveMapped, Session.livePermanent]

/-- Counting the files without one of them. -/
theorem countP_eraseIdx {files : List RandomAccessFile} {index : Nat} {file : RandomAccessFile}
    (found : files[index]? = some file) (kind : RandomAccessFile → Bool) :
    files.countP kind = (files.eraseIdx index).countP kind + if kind file then 1 else 0 := by
  obtain ⟨inside, rfl⟩ := List.getElem?_eq_some_iff.mp found
  rw [← (List.getElem_cons_eraseIdx_perm inside).countP_eq kind, List.countP_cons]

/-- `NewRandomAeccessFile` takes at least what its file needs. -/
theorem Session.Limited.opened {filename : String} {calls : SystemCalls} {selfCopy : SelfCopy}
    {opened : Opened} {process : Process} (limited : session.Limited mmapLimit fdLimit)
    (opens : Opens selfCopy session.process filename calls (some (opened, process))) :
    (Session.mk process (session.files ++ opened.files)).Limited mmapLimit fdLimit := by
  obtain ⟨mmapAllowed, mmapNonneg, fdAllowed, fdNonneg, descriptors⟩ := limited
  simp only [Session.liveMapped, Session.livePermanent] at *
  cases opens with
  | failed notOk =>
    simp only [Opened.files, Option.toList_none, List.append_nil]
    exact ⟨mmapAllowed, mmapNonneg, fdAllowed, fdNonneg, descriptors⟩
  | permanent opened exhausted free =>
    constructor <;> simp only [Session.liveMapped, Session.livePermanent, Opened.files,
      Option.toList_some, List.countP_append, List.countP_singleton, RandomAccessFile.isMapped,
      RandomAccessFile.isPermanent, Bool.false_eq_true, if_true, if_false] <;> omega
  | temporary exhausted fdExhausted =>
    constructor <;> simp only [Session.liveMapped, Session.livePermanent, Opened.files,
      Option.toList_some, List.countP_append, List.countP_singleton, RandomAccessFile.isMapped,
      RandomAccessFile.isPermanent, Bool.false_eq_true, if_false] <;> omega
  | mapped maps completes =>
    have free := maps.free
    constructor <;> simp only [Session.liveMapped, Session.livePermanent, Opened.files,
      Option.toList_some, List.countP_append, List.countP_singleton, RandomAccessFile.isMapped,
      RandomAccessFile.isPermanent, Bool.false_eq_true, if_true, if_false] <;> omega
  | thrown maps throws =>
    have free := maps.free
    constructor <;> simp only [Session.liveMapped, Session.livePermanent, Opened.files,
      List.append_nil] <;> omega

/-- A destructor gives back what the limiters counted, in either build. -/
theorem Session.Limited.deleted {index : Nat} {file : RandomAccessFile}
    (limited : session.Limited mmapLimit fdLimit) (found : session.files[index]? = some file) :
    (Session.mk (destroy ndebug session.process file) (session.files.eraseIdx index)).Limited
      mmapLimit fdLimit := by
  have mappedCount := countP_eraseIdx found RandomAccessFile.isMapped
  have permanentCount := countP_eraseIdx found RandomAccessFile.isPermanent
  obtain ⟨mmapAllowed, mmapNonneg, fdAllowed, fdNonneg, descriptors⟩ := limited
  simp only [Session.liveMapped, Session.livePermanent] at *
  cases file with
  | pread filename fd =>
    cases fd with
    | none =>
      simp only [RandomAccessFile.isMapped, RandomAccessFile.isPermanent, Bool.false_eq_true,
        if_false, Nat.add_zero] at mappedCount permanentCount
      constructor <;> simp only [Session.liveMapped, Session.livePermanent, destroy] <;> omega
    | some content =>
      simp only [RandomAccessFile.isMapped, RandomAccessFile.isPermanent, Bool.false_eq_true,
        if_true, if_false, Nat.add_zero] at mappedCount permanentCount
      constructor <;> simp only [Session.liveMapped, Session.livePermanent, destroy,
        Limiter.release] <;> omega
  | mmap filename mapping length =>
    simp only [RandomAccessFile.isMapped, RandomAccessFile.isPermanent, Bool.false_eq_true,
      if_true, if_false, Nat.add_zero] at mappedCount permanentCount
    cases ndebug <;> constructor <;>
      simp only [Session.liveMapped, Session.livePermanent, destroy, Limiter.release,
        Bool.false_eq_true, if_true, if_false] <;> omega

/-- The constructor of a mapped file throws after the file has been mapped. -/
def ThrowsMapped (session : Session) : FileAction → Prop
  | .newRandomAccessFile _ calls selfCopy =>
    selfCopy = .throws ∧ ∃ mapping fileSize, Maps session.process calls mapping fileSize
  | .delete _ => False

/-- The action destroys a `PosixMmapReadableFile`. -/
def DestroysMapped (session : Session) : FileAction → Prop
  | .delete index => ∃ file, session.files[index]? = some file ∧ file.isMapped = true
  | _ => False

/-- Every action keeps the limiters in step with the live files. -/
theorem Session.Limited.step {action : FileAction} (limited : session.Limited mmapLimit fdLimit)
    (stepped : fileStep strerror ndebug session action = some after) :
    after.Limited mmapLimit fdLimit := by
  cases action with
  | newRandomAccessFile filename calls selfCopy =>
    obtain ⟨⟨opened, process⟩, made, rfl⟩ := Option.map_eq_some_iff.mp stepped
    exact limited.opened
      (made ▸ newRandomAccessFile_opens selfCopy session.process filename calls)
  | delete index =>
    obtain ⟨file, found, rfl⟩ := Option.map_eq_some_iff.mp stepped
    exact limited.deleted found

/-- In either build, after any run, the live files with a permanent descriptor are within the
limit. -/
theorem run_permanent {actions : List FileAction} {final : Session}
    (ran : Machine.run (fileStep strerror ndebug) (Session.initial mmapLimit fdLimit)
      actions = some final) : final.livePermanent ≤ fdLimit := by
  have limited : final.Limited mmapLimit fdLimit :=
    Machine.run_keeps Session.Limited.step (initial_limited mmapLimit fdLimit) ran
  have allowed := limited.fdAllowed
  have nonneg := limited.fdNonneg
  omega

/-- While the regions match the live mapped files, the limiters bound both resources. -/
theorem Session.Limited.accounted_iff (limited : session.Limited mmapLimit fdLimit) :
    session.Accounted mmapLimit fdLimit ↔ session.process.mapped = session.liveMapped := by
  obtain ⟨mmapAllowed, mmapNonneg, fdAllowed, fdNonneg, -⟩ := limited
  constructor
  · exact fun accounted => accounted.regions
  · exact fun regions => ⟨regions, by omega, by omega⟩

/-- A new region belongs to a new mapped file unless the constructor throws. -/
theorem Session.regions_opened {filename : String} {calls : SystemCalls} {selfCopy : SelfCopy}
    {opened : Opened} {process : Process}
    (made : newRandomAccessFile strerror selfCopy session.process filename calls =
      some (opened, process))
    (regions : session.process.mapped = session.liveMapped) :
    ¬ ThrowsMapped session (.newRandomAccessFile filename calls selfCopy) ↔
      process.mapped = (session.files ++ opened.files).countP RandomAccessFile.isMapped := by
  simp only [Session.liveMapped] at regions
  by_cases throws : ThrowsMapped session (.newRandomAccessFile filename calls selfCopy)
  · obtain ⟨rfl, mapping, fileSize, maps⟩ := throws
    rw [newRandomAccessFile_thrown maps] at made
    cases made
    refine iff_of_false (fun kept => kept ⟨rfl, mapping, fileSize, maps⟩) ?_
    simp [Opened.files, regions]
  · refine iff_of_true throws ?_
    have opens := made ▸
      @newRandomAccessFile_opens strerror selfCopy session.process filename calls
    cases opens with
    | thrown maps isThrown => exact absurd ⟨isThrown, _, _, maps⟩ throws
    | failed => simp [Opened.files, regions]
    | permanent => simp [Opened.files, RandomAccessFile.isMapped, regions]
    | temporary => simp [Opened.files, RandomAccessFile.isMapped, regions]
    | mapped => simp [Opened.files, RandomAccessFile.isMapped, regions]

/-- A destructor unmaps a region only where `assert` evaluates its argument. -/
theorem mapped_destroy (process : Process) (file : RandomAccessFile) :
    (destroy ndebug process file).mapped =
      if file.isMapped && !ndebug then process.mapped - 1 else process.mapped := by
  cases file with
  | mmap filename mapping length => cases ndebug <;> rfl
  | pread filename fd => cases fd <;> rfl

/-- A destroyed file takes its region along unless it is a mapped one in the build with
`NDEBUG`. -/
theorem Session.regions_deleted {index : Nat} {file : RandomAccessFile}
    (found : session.files[index]? = some file)
    (regions : session.process.mapped = session.liveMapped) :
    ¬ (ndebug = true ∧ file.isMapped = true) ↔
      (destroy ndebug session.process file).mapped =
        (session.files.eraseIdx index).countP RandomAccessFile.isMapped := by
  have counted := countP_eraseIdx found RandomAccessFile.isMapped
  simp only [Session.liveMapped] at regions
  rw [mapped_destroy]
  cases isMapped : file.isMapped with
  | true =>
    rw [isMapped, if_pos rfl] at counted
    cases ndebug with
    | true =>
      simp only [Bool.not_true, Bool.and_false, Bool.false_eq_true, if_false]
      exact iff_of_false (fun kept => kept ⟨trivial, trivial⟩) (by omega)
    | false =>
      simp only [Bool.not_false, Bool.and_true, if_true]
      exact iff_of_true (by decide) (by omega)
  | false =>
    rw [isMapped, if_neg (by decide)] at counted
    simp only [Bool.false_and, Bool.false_eq_true, if_false]
    exact iff_of_true (by simp) (by omega)

/-- The action leaves a region mapped that no live file has: a constructor throws, or a mapped
file is destroyed in the build with `NDEBUG`. -/
def LosesRegion (ndebug : Bool) (session : Session) (action : FileAction) : Prop :=
  ThrowsMapped session action ∨ ndebug = true ∧ DestroysMapped session action

/-- An action keeps the accounts exactly if it loses no region. -/
theorem Session.Limited.accounted_step {action : FileAction}
    (limited : session.Limited mmapLimit fdLimit)
    (accounted : session.Accounted mmapLimit fdLimit) :
    ¬ LosesRegion ndebug session action ↔
      ∀ next, fileStep strerror ndebug session action = some next →
        next.Accounted mmapLimit fdLimit := by
  have regions := limited.accounted_iff.mp accounted
  cases action with
  | newRandomAccessFile filename calls selfCopy =>
    simp only [LosesRegion, DestroysMapped, and_false, or_false]
    cases made : newRandomAccessFile strerror selfCopy session.process filename calls with
    | none =>
      refine iff_of_true ?_ (by simp [fileStep, made])
      rintro ⟨rfl, mapping, fileSize, maps⟩
      rw [newRandomAccessFile_thrown maps] at made
      cases made
    | some result =>
      obtain ⟨opened, process⟩ := result
      have stepped : fileStep strerror ndebug session
          (.newRandomAccessFile filename calls selfCopy) =
            some ⟨process, session.files ++ opened.files⟩ := by
        simp [fileStep, made]
      rw [Session.regions_opened made regions]
      simp only [stepped, Option.some.injEq, forall_eq', (limited.step stepped).accounted_iff]
      rfl
  | delete index =>
    simp only [LosesRegion, ThrowsMapped, false_or]
    cases found : session.files[index]? with
    | none => simp [DestroysMapped, fileStep, found]
    | some file =>
      have stepped : fileStep strerror ndebug session (.delete index) =
          some ⟨destroy ndebug session.process file, session.files.eraseIdx index⟩ := by
        simp [fileStep, found]
      simp only [DestroysMapped, found, stepped, Option.some.injEq, exists_eq_left', forall_eq',
        (limited.step stepped).accounted_iff]
      exact Session.regions_deleted found regions

/-- In either build the accounts are right in every state of a run exactly if no action loses a
region. -/
theorem accounted_iff_loses_none (actions : List FileAction) :
    Machine.Always (fileStep strerror ndebug) (Session.Accounted mmapLimit fdLimit)
        (Session.initial mmapLimit fdLimit) actions ↔
      Machine.Meets (fileStep strerror ndebug)
        (fun session action => ¬ LosesRegion ndebug session action)
        (Session.initial mmapLimit fdLimit) actions :=
  Machine.always_iff_meets (fun limited stepped => Session.Limited.step limited stepped)
    (fun limited accounted => limited.accounted_step accounted)
    (initial_limited mmapLimit fdLimit)
    ((initial_limited mmapLimit fdLimit).accounted_iff.mpr rfl)

/-- In a build without `NDEBUG` a run that throws nothing keeps the accounts right in every
state. -/
theorem accounted_without_ndebug {actions : List FileAction}
    (noneThrown : Machine.Meets (fileStep strerror false)
      (fun session action => ¬ ThrowsMapped session action)
      (Session.initial mmapLimit fdLimit) actions) :
    Machine.Always (fileStep strerror false) (Session.Accounted mmapLimit fdLimit)
      (Session.initial mmapLimit fdLimit) actions := by
  rw [accounted_iff_loses_none]
  simpa [LosesRegion] using noneThrown

/-- In the build with `NDEBUG`, the accounts are right in every state of a run exactly if the
run destroys no mapped file and no constructor of one throws. -/
theorem accounted_iff_no_region_lost (strerror : Nat → String) (mmapLimit fdLimit : Nat)
    (actions : List FileAction) :
    Machine.Always (fileStep strerror true) (Session.Accounted mmapLimit fdLimit)
        (Session.initial mmapLimit fdLimit) actions ↔
      Machine.Meets (fileStep strerror true)
        (fun session action => ¬ ThrowsMapped session action ∧ ¬ DestroysMapped session action)
        (Session.initial mmapLimit fdLimit) actions := by
  rw [accounted_iff_loses_none]
  simp only [LosesRegion, true_and, not_or]

/-- One file is mapped and destroyed: its region stays, and is no live file's. One file is mapped
and its constructor throws: so does its region. -/
theorem accounted_fails_after_delete :
    (∃ final, Machine.run (fileStep (fun _ => "") true) (Session.initial 1 1)
        [.newRandomAccessFile "000001.ldb" (wholeFile [1, 2, 3]) (.completes ""), .delete 0] =
          some final ∧
      final.process.mapped = 1 ∧ final.liveMapped = 0 ∧ ¬ final.Accounted 1 1) ∧
    ∃ final, Machine.run (fileStep (fun _ => "") true) (Session.initial 1 1)
        [.newRandomAccessFile "000001.ldb" (wholeFile [1, 2, 3]) .throws] = some final ∧
      final.process.mapped = 1 ∧ final.liveMapped = 0 ∧ ¬ final.Accounted 1 1 := by
  refine ⟨⟨⟨⟨⟨1⟩, ⟨1⟩, 1, 0⟩, []⟩, rfl, rfl, rfl, fun accounted => ?_⟩,
    ⟨⟨⟨⟨0⟩, ⟨1⟩, 1, 1⟩, []⟩, rfl, rfl, rfl, fun accounted => ?_⟩⟩
  · exact absurd accounted.regions (by decide)
  · exact absurd accounted.regions (by decide)

end LevelDbXy.Posix
