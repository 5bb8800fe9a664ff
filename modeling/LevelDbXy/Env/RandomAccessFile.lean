import LevelDbXy.Library.Machine
import LevelDbXy.Util.Coding
import LevelDbXy.Util.Status
import Mathlib.Algebra.Order.Ring.Int

/-!
# Files for random reads

`PosixEnv::NewRandomAeccessFile` (`env/env_posix.cpp`) maps a file while `mmap_limiter_`
allows it and falls back to `pread` otherwise. The two classes of files differ in what a
range past the end gives, and the mapped one adds offset and length in `uint64_t`; an
empty file cannot be mapped at all. The constructor of the mapped file initialises
`filename_` from `filename_` itself, not from its parameter, and its destructor calls
`munmap` inside an `assert`, which a build with `NDEBUG` does not evaluate.
-/

namespace LevelDbXy.Posix

open Coding

/-- `EINVAL` of Linux. -/
def EINVAL : Nat := 22

/-- `ENONET` of Linux. -/
def ENONET : Nat := 64

/-- `PosixError`. The text of an error number comes from the C library. -/
def posixError (strerror : Nat → String) (context : String) (errorNumber : Nat) : Status :=
  if errorNumber = ENONET then .notFound (Status.message context (strerror errorNumber))
  else .ioError (Status.message context (strerror errorNumber))

/-! ### Limits -/

/-- `Limiter`. -/
structure Limiter where
  acquiresAllowed : Int
  deriving DecidableEq, Repr

namespace Limiter

/-- `Limiter::Acquire`, between other calls: a refused one takes back what it took. -/
def acquire (limiter : Limiter) : Bool × Limiter :=
  let oldAcquiresAllowed := limiter.acquiresAllowed
  let limiter : Limiter := ⟨limiter.acquiresAllowed - 1⟩
  if 0 < oldAcquiresAllowed then (true, limiter) else (false, ⟨limiter.acquiresAllowed + 1⟩)

/-- `Limiter::Release`. -/
def release (limiter : Limiter) : Limiter := ⟨limiter.acquiresAllowed + 1⟩

end Limiter

/-- The limiters of `PosixEnv`, and what the process holds: regions mapped and not unmapped,
and open descriptors. -/
structure Process where
  mmapLimiter : Limiter
  fdLimiter : Limiter
  mapped : Nat
  descriptors : Nat
  deriving DecidableEq, Repr

/-- A `RandomAccessFile`. -/
inductive RandomAccessFile where
  /-- `PosixRandomAccessFile`, with the file behind `fd_` unless that is `-1`. -/
  | pread (filename : String) (fd : Option Bytes)
  /-- `PosixMmapReadableFile`, with the bytes mapped at `mmap_base_`. -/
  | mmap (filename : String) (mapping : Bytes) (length : Nat)
  deriving DecidableEq, Repr

/-! ### Reading -/

/-- `pread` of a regular file. -/
def pread (content : Bytes) (n offset : Nat) : Bytes := (content.drop offset).take n

/-- The bytes of a slice into a mapping; `none` when it is not inside. -/
def sliceAt (mapping : Bytes) (offset n : Nat) : Option Bytes :=
  if offset + n ≤ mapping.length then some ((mapping.drop offset).take n) else none

variable (strerror : Nat → String)

/-- `PosixRandomAccessFile::Read`, with what `*result` is before. Without a descriptor of its own
the file is opened again, which gives its contents or an error number; then `*result` is not
assigned. -/
def readPread (filename : String) (fd : Option Bytes) (reopened : Except Nat Bytes)
    (result : Option Bytes) (offset n : Nat) : Status × Option Bytes :=
  let opened : Except Nat Bytes := match fd with
    | some content => .ok content
    | none => reopened
  match opened with
  | .error errno => (posixError strerror filename errno, result)
  | .ok content => (.ok, some (pread content n offset))

/-- `PosixMmapReadableFile::Read`; the sum is a `uint64_t`. -/
def readMmap (filename : String) (mapping : Bytes) (length offset n : Nat) :
    Status × Option Bytes :=
  if length < truncU64 (offset + n) then (posixError strerror filename EINVAL, some [])
  else (.ok, sliceAt mapping offset n)

/-- `RandomAccessFile::Read`. -/
def RandomAccessFile.read (reopened : Except Nat Bytes) (result : Option Bytes) (offset n : Nat) :
    RandomAccessFile → Status × Option Bytes
  | .pread filename fd => readPread strerror filename fd reopened result offset n
  | .mmap filename mapping length => readMmap strerror filename mapping length offset n

/-! ### Opening and closing -/

/-- What the system calls of one `NewRandomAeccessFile` answer: a value or an error number. -/
structure SystemCalls where
  opened : Except Nat Bytes
  size : Except Nat Nat
  mapped : Except Nat Bytes

/-- `PosixRandomAccessFile::PosixRandomAccessFile`. -/
def newPread (process : Process) (filename : String) (fd : Bytes) : RandomAccessFile × Process :=
  let (hasPermanentFd, fdLimiter) := process.fdLimiter.acquire
  let process := { process with fdLimiter }
  if hasPermanentFd then (.pread filename (some fd), process)
  else (.pread filename none, { process with descriptors := process.descriptors - 1 })

/-- What comes of `filename_(std::move(filename_))` in the constructor of
`PosixMmapReadableFile`. It is undefined in C++: the string is copied from memory that holds
whatever was there before the object, which may be any name, may ask for more memory than can be
had, and may lead to bytes that cannot be read. -/
inductive SelfCopy where
  | completes (filename : String)
  | throws
  | crashes
  deriving DecidableEq, Repr

/-- How a call of `NewRandomAeccessFile` is left. -/
inductive Opened where
  | returned (status : Status) (result : Option RandomAccessFile)
  | thrown
  deriving DecidableEq, Repr

/-- The end of `PosixEnv::NewRandomAeccessFile`, after the attempt to map the file. -/
def finishMapping (process : Process) (status : Status) (result : Option RandomAccessFile) :
    Opened × Process :=
  let process := { process with descriptors := process.descriptors - 1 }
  if !status.isOk then
    (.returned status result, { process with mmapLimiter := process.mmapLimiter.release })
  else (.returned status result, process)

/-- `PosixEnv::NewRandomAeccessFile`; `none` if the process ends in it. An exception of the
constructor of the mapped file leaves the function at once, with the file mapped, the descriptor
open and the limit taken. -/
def newRandomAccessFile (selfCopy : SelfCopy) (process : Process) (filename : String)
    (calls : SystemCalls) : Option (Opened × Process) :=
  match calls.opened with
  | .error errno => some (.returned (posixError strerror filename errno) none, process)
  | .ok fd =>
    let process := { process with descriptors := process.descriptors + 1 }
    let (acquired, mmapLimiter) := process.mmapLimiter.acquire
    let process := { process with mmapLimiter }
    if !acquired then
      let (file, process) := newPread process filename fd
      some (.returned .ok (some file), process)
    else
      match calls.size with
      | .error errno => some (finishMapping process (posixError strerror filename errno) none)
      | .ok fileSize =>
        match calls.mapped with
        | .error errno => some (finishMapping process (posixError strerror filename errno) none)
        | .ok mapping =>
          let process := { process with mapped := process.mapped + 1 }
          match selfCopy with
          | .completes leftover =>
            some (finishMapping process .ok (some (.mmap leftover mapping fileSize)))
          | .throws => some (.thrown, process)
          | .crashes => none

/-- The destructors. With `NDEBUG` the argument of `assert` is not evaluated. -/
def destroy (ndebug : Bool) (process : Process) : RandomAccessFile → Process
  | .pread _ (some _) => { process with
      descriptors := process.descriptors - 1
      fdLimiter := process.fdLimiter.release }
  | .pread _ none => process
  | .mmap _ _ _ =>
    let process :=
      if ndebug then process else { process with mapped := process.mapped - 1 }
    { process with mmapLimiter := process.mmapLimiter.release }

/-! ### Two readers of one file -/

/-- The system calls for a file that is there; an empty file cannot be mapped. -/
def wholeFile (content : Bytes) : SystemCalls where
  opened := .ok content
  size := .ok content.length
  mapped := if content = [] then .error EINVAL else .ok content

/-- What a caller gets who opens the file and then reads from it; the read is left out if the
file was not opened. `none` where the call does not return. -/
def openAndRead (selfCopy : SelfCopy) (process : Process) (filename : String) (content : Bytes)
    (offset n : Nat) : Option (Status × Option Bytes) :=
  match newRandomAccessFile strerror selfCopy process filename (wholeFile content) with
  | some (.returned _ (some file), _) =>
    some (file.read strerror (.ok content) (some []) offset n)
  | some (.returned status none, _) => some (status, some [])
  | _ => none

/-- Two reads give the same kind of status and the same bytes, and an OK one only bytes of
the file. -/
structure SameRead (first second : Status × Option Bytes) : Prop where
  kind : first.1.code = second.1.code
  bytes : first.2 = second.2
  firstInside : first.1.isOk = true → first.2.isSome = true
  secondInside : second.1.isOk = true → second.2.isSome = true

/-- The two classes agree on a read of the file, with a permanent descriptor or without, and so
do opening the file and reading from it, whatever was in use when it was opened. -/
structure ReadersAgree (filename : String) (selfCopy : SelfCopy) (content : Bytes)
    (offset n : Nat) : Prop where
  classes : ∀ (fd : Option Bytes) (result : Option Bytes) (leftover : String),
    fd = some content ∨ fd = none →
    SameRead (readMmap strerror leftover content content.length offset n)
      (readPread strerror filename fd (.ok content) result offset n)
  opened : ∀ before after : Process, ∃ first second,
    openAndRead strerror selfCopy before filename content offset n = some first ∧
    openAndRead strerror selfCopy after filename content offset n = some second ∧
    SameRead first second

variable {strerror} {filename leftover : String} {selfCopy : SelfCopy} {content : Bytes}
  {result : Option Bytes} {offset n : Nat}

/-- `pread` never fails and never leaves the file. -/
theorem readPread_eq {fd : Option Bytes} (held : fd = some content ∨ fd = none) :
    readPread strerror filename fd (.ok content) result offset n =
      (.ok, some (pread content n offset)) := by
  rcases held with rfl | rfl <;> rfl

/-- A mapped file gives the bytes of a range inside it. -/
theorem readMmap_of_le (small : content.length < 2 ^ 64) (inside : offset + n ≤ content.length) :
    readMmap strerror leftover content content.length offset n =
      (.ok, some (pread content n offset)) := by
  have unwrapped : truncU64 (offset + n) = offset + n := Nat.mod_eq_of_lt (by omega)
  rw [readMmap, unwrapped, if_neg (by omega), sliceAt, if_pos inside, pread]

/-- The file is about to be mapped: what has to succeed does, and the limit allows it. -/
structure Maps (process : Process) (calls : SystemCalls) (mapping : Bytes) (fileSize : Nat) :
    Prop where
  opened : ∃ fd, calls.opened = .ok fd
  size : calls.size = .ok fileSize
  mapped : calls.mapped = .ok mapping
  free : 0 < process.mmapLimiter.acquiresAllowed

/-- Everything that `NewRandomAeccessFile` can do. A failure that is returned leaves nothing
behind. -/
inductive Opens (selfCopy : SelfCopy) (process : Process) (filename : String)
    (calls : SystemCalls) : Option (Opened × Process) → Prop
  | failed {status : Status} (notOk : status ≠ .ok) :
      Opens selfCopy process filename calls (some (.returned status none, process))
  | permanent {fd : Bytes} (opened : calls.opened = .ok fd)
      (exhausted : process.mmapLimiter.acquiresAllowed ≤ 0)
      (free : 0 < process.fdLimiter.acquiresAllowed) :
      Opens selfCopy process filename calls
        (some (.returned .ok (some (.pread filename (some fd))),
          { process with
            fdLimiter := ⟨process.fdLimiter.acquiresAllowed - 1⟩
            descriptors := process.descriptors + 1 }))
  | temporary (exhausted : process.mmapLimiter.acquiresAllowed ≤ 0)
      (fdExhausted : process.fdLimiter.acquiresAllowed ≤ 0) :
      Opens selfCopy process filename calls
        (some (.returned .ok (some (.pread filename none)), process))
  | mapped {mapping : Bytes} {fileSize : Nat} {leftover : String}
      (maps : Maps process calls mapping fileSize)
      (completes : selfCopy = .completes leftover) :
      Opens selfCopy process filename calls
        (some (.returned .ok (some (.mmap leftover mapping fileSize)),
          { process with
            mmapLimiter := ⟨process.mmapLimiter.acquiresAllowed - 1⟩
            mapped := process.mapped + 1 }))
  | thrown {mapping : Bytes} {fileSize : Nat} (maps : Maps process calls mapping fileSize)
      (throws : selfCopy = .throws) :
      Opens selfCopy process filename calls
        (some (.thrown,
          { process with
            mmapLimiter := ⟨process.mmapLimiter.acquiresAllowed - 1⟩
            mapped := process.mapped + 1
            descriptors := process.descriptors + 1 }))
  | crashed {mapping : Bytes} {fileSize : Nat} (maps : Maps process calls mapping fileSize)
      (crashes : selfCopy = .crashes) :
      Opens selfCopy process filename calls none

/-- No error number gives the status OK. -/
theorem posixError_ne_ok (context : String) (errno : Nat) :
    posixError strerror context errno ≠ .ok := by
  rw [posixError]
  split <;> simp

/-- After a failure the descriptor is closed and the limit given back. -/
theorem finishMapping_of_failed {context : String} {errno : Nat} (mmapAllowed : Int)
    (fdLimiter : Limiter) (regions descriptors : Nat) :
    finishMapping ⟨⟨mmapAllowed - 1⟩, fdLimiter, regions, descriptors + 1⟩
        (posixError strerror context errno) none =
      (.returned (posixError strerror context errno) none,
        ⟨⟨mmapAllowed⟩, fdLimiter, regions, descriptors⟩) := by
  have failed : (posixError strerror context errno).isOk = false := by
    rw [posixError]
    split <;> rfl
  simp only [finishMapping, failed, Bool.not_false, if_true, Limiter.release, Int.sub_add_cancel,
    Nat.add_sub_cancel]

/-- `NewRandomAeccessFile` does one of these things. -/
theorem newRandomAccessFile_opens (selfCopy : SelfCopy) (process : Process) (filename : String)
    (calls : SystemCalls) :
    Opens selfCopy process filename calls
      (newRandomAccessFile strerror selfCopy process filename calls) := by
  obtain ⟨⟨mmapAllowed⟩, ⟨fdAllowed⟩, regions, descriptors⟩ := process
  rw [newRandomAccessFile]
  cases opened : calls.opened with
  | error errno => exact .failed (posixError_ne_ok filename errno)
  | ok fd =>
    by_cases free : 0 < mmapAllowed
    · simp only [Limiter.acquire, free, if_true, Bool.not_true, Bool.false_eq_true, if_false]
      cases size : calls.size with
      | error errno =>
        simp only [finishMapping_of_failed]
        exact .failed (posixError_ne_ok filename errno)
      | ok fileSize =>
        cases mapped : calls.mapped with
        | error errno =>
          simp only [finishMapping_of_failed]
          exact .failed (posixError_ne_ok filename errno)
        | ok mapping =>
          have maps : Maps ⟨⟨mmapAllowed⟩, ⟨fdAllowed⟩, regions, descriptors⟩ calls mapping
              fileSize := ⟨⟨fd, opened⟩, size, mapped, free⟩
          cases selfCopy with
          | completes leftover => exact .mapped maps rfl
          | throws => exact .thrown maps rfl
          | crashes => exact .crashed maps rfl
    · have exhausted : mmapAllowed ≤ 0 := Int.not_lt.mp free
      simp only [Limiter.acquire, free, if_false, Bool.not_false, if_true, newPread,
        Int.sub_add_cancel]
      by_cases fdFree : 0 < fdAllowed
      · simp only [fdFree, if_true]
        exact .permanent opened exhausted fdFree
      · simp only [fdFree, if_false, Bool.false_eq_true, Nat.add_sub_cancel]
        exact .temporary exhausted (Int.not_lt.mp fdFree)

/-- A constructor that throws after the file has been mapped. -/
theorem newRandomAccessFile_thrown {process : Process} {calls : SystemCalls} {mapping : Bytes}
    {fileSize : Nat} (maps : Maps process calls mapping fileSize) :
    newRandomAccessFile strerror .throws process filename calls = some (.thrown,
      { process with
        mmapLimiter := ⟨process.mmapLimiter.acquiresAllowed - 1⟩
        mapped := process.mapped + 1
        descriptors := process.descriptors + 1 }) := by
  obtain ⟨⟨fd, opened⟩, size, mapped, free⟩ := maps
  simp only [newRandomAccessFile, opened, Limiter.acquire, free, size, mapped, if_true,
    Bool.not_true, Bool.false_eq_true, if_false]

/-- A range inside a file that is not empty is read, whatever was in use when the file was
opened, if the constructor of the mapped file completes. -/
theorem openAndRead_of_le (process : Process) (small : content.length < 2 ^ 64)
    (nonempty : content ≠ []) (inside : offset + n ≤ content.length) :
    openAndRead strerror (.completes leftover) process filename content offset n =
      some (.ok, some (pread content n offset)) := by
  obtain ⟨⟨mmapAllowed⟩, ⟨fdAllowed⟩, regions, descriptors⟩ := process
  by_cases free : 0 < mmapAllowed
  · simp only [openAndRead, newRandomAccessFile, wholeFile, nonempty, Limiter.acquire, free,
      if_true, if_false, Bool.not_true, Bool.false_eq_true, finishMapping, Status.isOk,
      RandomAccessFile.read, readMmap_of_le small inside]
  · by_cases fdFree : 0 < fdAllowed <;>
      simp only [openAndRead, newRandomAccessFile, wholeFile, Limiter.acquire, free, fdFree,
        newPread, if_true, if_false, Bool.not_false, Bool.false_eq_true, RandomAccessFile.read,
        readPread]

/-- A process that has one region or none left to map, and no descriptor. -/
def Process.withRoom (regions : Nat) : Process := ⟨⟨regions⟩, ⟨0⟩, 0, 0⟩

/-- Without a region the file is read through `pread`. -/
theorem openAndRead_without_room :
    openAndRead strerror selfCopy (.withRoom 0) filename content offset n =
      some (.ok, some (pread content n offset)) := rfl

/-- The two classes agree only on a range inside the file. -/
theorem inside_of_sameRead
    (same : SameRead (readMmap strerror leftover content content.length offset n)
      (.ok, some (pread content n offset))) : offset + n ≤ content.length := by
  obtain ⟨kind, -, inside, -⟩ := same
  rw [readMmap] at kind inside
  split_ifs at kind inside with beyond
  · simp only [posixError] at kind
    split_ifs at kind <;> cases kind
  · have isInside := inside rfl
    rw [sliceAt] at isInside
    split_ifs at isInside with bound
    · exact bound
    · cases isInside

/-- A file is mapped and read only if the constructor of the mapped file completes. -/
theorem completes_of_openAndRead {first : Status × Option Bytes} (nonempty : content ≠ [])
    (opened : openAndRead strerror selfCopy (.withRoom 1) filename content offset n =
      some first) : ∃ leftover, selfCopy = .completes leftover := by
  cases selfCopy with
  | completes leftover => exact ⟨leftover, rfl⟩
  | throws => simp [openAndRead, newRandomAccessFile, wholeFile, nonempty, Process.withRoom,
      Limiter.acquire] at opened
  | crashes => simp [openAndRead, newRandomAccessFile, wholeFile, nonempty, Process.withRoom,
      Limiter.acquire] at opened

/-- The two ways to read a file agree exactly if the range is inside the file, the file is not
empty and the constructor of the mapped file completes. -/
theorem readers_agree_iff (strerror : Nat → String) (filename : String) (selfCopy : SelfCopy)
    (content : Bytes) (small : content.length < 2 ^ 64) (offset n : Nat)
    (_offsetBounded : offset < 2 ^ 64) (_nBounded : n < 2 ^ 64) :
    ReadersAgree strerror filename selfCopy content offset n ↔
      content ≠ [] ∧ offset + n ≤ content.length ∧
        ∃ leftover, selfCopy = .completes leftover := by
  constructor
  · intro agree
    obtain ⟨first, second, withRoom, withoutRoom, same⟩ :=
      agree.opened (.withRoom 1) (.withRoom 0)
    rw [openAndRead_without_room] at withoutRoom
    obtain rfl := Option.some.inj withoutRoom
    have nonempty : content ≠ [] := by
      rintro rfl
      obtain rfl := Option.some.inj withRoom
      have kind : Status.Code.kIOError = .kOk := same.kind
      cases kind
    have classes := agree.classes (some content) none "" (.inl rfl)
    rw [readPread_eq (.inl rfl)] at classes
    exact ⟨nonempty, inside_of_sameRead classes, completes_of_openAndRead nonempty withRoom⟩
  · rintro ⟨nonempty, inside, leftover, rfl⟩
    refine ⟨fun fd result leftover held => ?_, fun before after => ?_⟩
    · rw [readMmap_of_le small inside, readPread_eq held]
      exact ⟨rfl, rfl, fun _ => rfl, fun _ => rfl⟩
    · exact ⟨_, _, openAndRead_of_le before small nonempty inside,
        openAndRead_of_le after small nonempty inside, rfl, rfl, fun _ => rfl, fun _ => rfl⟩

/-- The first two bytes of a file of three. -/
theorem readers_agree_iff_prefix :
    ReadersAgree (fun _ => "Invalid argument") "000001.ldb" (.completes "") [1, 2, 3] 0 2 :=
  (readers_agree_iff _ _ _ [1, 2, 3] (by decide) 0 2 (by decide) (by decide)).mpr
    ⟨by decide, by decide, "", rfl⟩

/-- Five bytes from the last one of three: an error from the mapped file, one byte otherwise.
Two bytes from the last offset of all: the sum wraps, and the mapped file gives a slice outside
the file. An empty file is opened only where it is not mapped. -/
theorem readers_disagree_at_end :
    (readMmap (fun _ => "Invalid argument") "" [1, 2, 3] 3 2 5).1.code = .kIOError ∧
      readPread (fun _ => "Invalid argument") "000001.ldb" (some [1, 2, 3]) (.ok [1, 2, 3]) none
        2 5 = (.ok, some [3]) ∧
      readMmap (fun _ => "Invalid argument") "" [1, 2, 3] 3 (2 ^ 64 - 1) 2 = (.ok, none) ∧
      openAndRead (fun _ => "Invalid argument") (.completes "") (.withRoom 1) "000001.ldb" [] 0 0 =
        some (.ioError "000001.ldb: Invalid argument", some []) ∧
      openAndRead (fun _ => "Invalid argument") (.completes "") (.withRoom 0) "000001.ldb" [] 0 0 =
        some (.ok, some []) ∧
      ¬ ReadersAgree (fun _ => "Invalid argument") "000001.ldb" (.completes "") [1, 2, 3] 2 5 := by
  refine ⟨by decide, by decide, by decide, by decide, by decide, fun agree => ?_⟩
  exact absurd (agree.classes (some [1, 2, 3]) none "" (.inl rfl)).kind (by decide)

end LevelDbXy.Posix
