import LevelDbXy.Env.ManifestSync
import LevelDbXy.Log.PosixLog
import LevelDbXy.Log.RoundTrip

/-!
# Records that survive a crash

A client that adds records to a log on a `PosixWritableFile`, syncs the file now and then, and
adds no more after an `AddRecord` that failed; it may still sync then. With any behaviour of the
system calls the file is the log of the acknowledged records, followed by a torn part of the
record that failed. A crash leaves a first part of the file with all that was written before the
last `Sync` that returned OK, and a reader of what is left returns the first records of the log,
those before that `Sync` among them.
-/

namespace LevelDbXy.Log

open Posix

/-! ### What a crash keeps -/

/-- The bytes written so far, and those of them that the last successful sync of the file
covers. -/
structure Disk where
  written : Nat
  synced : Nat
  deriving DecidableEq, Repr

/-- A system call that writes to the file or syncs it. -/
def Disk.note (disk : Disk) : SystemCall → Disk
  | .write data => { disk with written := disk.written + data.length }
  | .syncFile none => { disk with synced := disk.written }
  | _ => disk

/-- The disk after the calls of the trace, over a file that a crash does not touch. -/
def Disk.after (contents : Nat) (trace : List SystemCall) : Disk :=
  trace.foldl Disk.note ⟨contents, contents⟩

/-- Calls of `write` add what they write. -/
theorem Disk.foldl_writes {calls : List SystemCall} (only : ∀ call ∈ calls, call.isWrite = true)
    (disk : Disk) :
    calls.foldl Disk.note disk = ⟨disk.written + (Posix.written calls).length, disk.synced⟩ := by
  induction calls generalizing disk with
  | nil => rfl
  | cons call calls inductionHypothesis =>
    have first := only call List.mem_cons_self
    rw [List.foldl_cons, inductionHypothesis fun other member =>
      only other (List.mem_cons_of_mem _ member)]
    cases call with
    | write data =>
      simp only [Disk.note, Posix.written, List.flatMap_cons, List.length_append]
      rw [Nat.add_assoc]
    | writeFailed errno => rfl
    | _ => cases first

/-- The calls on the directory of a manifest leave the disk as it is. -/
theorem syncDirIfManifest_disk (strerror : Nat → String) (file : PosixWritableFile)
    (kernel : Kernel) :
    (file.syncDirIfManifest strerror kernel).2.file = kernel.file ∧
      ∃ calls, (file.syncDirIfManifest strerror kernel).2.trace = kernel.trace ++ calls ∧
        ∀ disk, calls.foldl Disk.note disk = disk := by
  unfold PosixWritableFile.syncDirIfManifest
  cases manifest : file.isManifest with
  | false => exact ⟨rfl, [], (List.append_nil _).symm, fun _ => rfl⟩
  | true =>
    simp only [Kernel.answer, Bool.not_true, Bool.false_eq_true, if_false]
    cases opened : kernel.others.head?.join with
    | some errno => exact ⟨rfl, _, rfl, fun _ => rfl⟩
    | none =>
      simp only [List.append_assoc]
      exact ⟨trivial, _, rfl, fun _ => rfl⟩

/-- A `Sync` with an empty buffer leaves the file as it is, and covers it if it returns OK. -/
theorem sync_empty (strerror : Nat → String) {file : PosixWritableFile} (kernel : Kernel)
    (empty : file.buffer = []) :
    (file.sync strerror kernel).2.1 = file ∧
      (file.sync strerror kernel).2.2.file = kernel.file ∧
      ∃ calls, (file.sync strerror kernel).2.2.trace = kernel.trace ++ calls ∧
        ∀ disk, calls.foldl Disk.note disk =
          if (file.sync strerror kernel).1.isOk then { disk with synced := disk.written }
          else disk := by
  obtain ⟨sameFile, calls, trace, quiet⟩ := syncDirIfManifest_disk strerror file kernel
  have unchanged : { file with buffer := [] } = file := by rw [← empty]
  by_cases isOk : (file.syncDirIfManifest strerror kernel).1.isOk = true
  · generalize isDirectory : file.syncDirIfManifest strerror kernel = directory at *
    obtain ⟨status, middle⟩ := directory
    obtain rfl : status = .ok := (Status.isOk_iff status).mp isOk
    have nothing : file.writeUnbuffered strerror [] middle = (.ok, middle) := by
      rw [PosixWritableFile.writeUnbuffered, if_neg (by simp),
        PosixWritableFile.writeLoop_empty file _ middle rfl]
    rw [PosixWritableFile.sync_of_directory isDirectory]
    simp only [empty, nothing, isOk, Bool.true_eq_false, if_false]
    refine ⟨unchanged, ?_, calls ++ [.syncFile (middle.answerOn file.fd .syncFile).1], ?_, ?_⟩
    · rw [(PosixWritableFile.answerOn_quiet middle file.fd .syncFile).file]
      exact sameFile
    · rw [Kernel.answerOn_trace, ← List.append_assoc]
      exact congrArg (· ++ _) trace
    · intro disk
      rw [List.foldl_append, quiet]
      cases (middle.answerOn file.fd .syncFile).1 with
      | none => rfl
      | some errno =>
        rw [PosixWritableFile.syncFd, PosixSequentialFile.posixError_isOk]
        rfl
  · unfold PosixWritableFile.sync
    simp only [Bool.eq_false_iff.mpr isOk, Bool.not_false, if_true]
    exact ⟨trivial, sameFile, calls, trace, quiet⟩

/-! ### Reading a torn log -/

/-- The entries that are whole in the first `n` bytes are the first ones. -/
theorem exists_whole_count {records : List Bytes} {pos n : Nat} (low : pos ≤ n) :
    ∃ count ≤ records.length,
      ((layout pos records).filter fun entry => entry.finish ≤ n).map Entry.record =
        records.take count ∧
      ∀ other ≤ records.length,
        other ≤ count ↔ endOf pos (allFragments (layout pos (records.take other))) ≤ n := by
  induction records generalizing pos with
  | nil =>
    refine ⟨0, Nat.le_refl _, rfl, fun other bounded => ?_⟩
    rw [Nat.le_zero.mp bounded]
    exact iff_of_true (Nat.le_refl _) low
  | cons record records inductionHypothesis =>
    have finish := finish_fragments pos record
    rw [layout]
    generalize isParts : fragments true pos record = parts at finish
    rcases Nat.lt_or_ge n (endOf pos parts) with short | long
    · refine ⟨0, Nat.zero_le _, ?_, fun other _ => ?_⟩
      · -- the first record is cut off, and all later ones are behind the cut
        rw [List.take_zero, List.map_eq_nil_iff, List.filter_eq_nil_iff]
        intro entry member
        rw [decide_eq_true_eq, Nat.not_le]
        rcases List.mem_cons.mp member with rfl | later
        · rw [finish]
          exact short
        · exact short.trans (lt_finish_of_mem_layout later)
      · cases other with
        | zero => exact iff_of_true (Nat.le_refl _) low
        | succ other =>
          refine iff_of_false (Nat.not_succ_le_zero other) (Nat.not_le.mpr ?_)
          rw [List.take_succ_cons, layout, isParts, allFragments_cons, endOf_append]
          refine short.trans_le ?_
          exact le_endOf (placed_layout _ _)
    · obtain ⟨count, bounded, whole, exact_⟩ := inductionHypothesis long
      have first : (Entry.mk record parts).finish ≤ n := by
        rw [finish]
        exact long
      refine ⟨count + 1, Nat.succ_le_succ bounded, ?_, fun other inside => ?_⟩
      · rw [List.filter_cons, if_pos (decide_eq_true first), List.map_cons, whole,
          List.take_succ_cons]
      · cases other with
        | zero => exact iff_of_true (Nat.zero_le _) low
        | succ other =>
          rw [Nat.succ_le_succ_iff, exact_ other (Nat.le_of_succ_le_succ inside),
            List.take_succ_cons, layout, isParts, allFragments_cons, endOf_append]

/-- The file is the log of the records, or it goes on with a part of the next one. -/
def IsLogOf (contents : Bytes) (records : List Bytes) : Prop :=
  ∃ next, contents <+: image (records ++ next) ∧ image records <+: contents ∧
    ∀ record others, next = record :: others →
      contents.length < (image (records ++ [record])).length

/-- The log itself has no torn part. -/
theorem isLogOf_image (records : List Bytes) : IsLogOf (image records) records :=
  ⟨[], by simp only [List.append_nil, List.prefix_rfl], List.prefix_refl _, by simp⟩

/-- A part of the next record is a torn part. -/
theorem isLogOf_torn {records : List Bytes} {record bytes : Bytes} {amount : Nat}
    (longer : image (records ++ [record]) = image records ++ bytes)
    (short : amount < bytes.length) : IsLogOf (image records ++ bytes.take amount) records := by
  refine ⟨[record], ?_, List.prefix_append _ _, ?_⟩
  · rw [longer]
    exact (List.prefix_append_right_inj _).mpr (List.take_prefix amount bytes)
  · rintro _ _ ⟨⟩
    rw [longer, List.length_append, List.length_append, List.length_take]
    omega

/-- From a first part of such a file the reader returns the records that are whole in it. -/
theorem readAll_cut {contents cut : Bytes} {records : List Bytes} (isLog : IsLogOf contents records)
    (isCut : cut <+: contents) (reporting : Bool) {fuel : Nat} (enough : cut.length + 2 ≤ fuel) :
    ∃ returned last count, (openReader cut ⟨reporting, 0⟩).readAll fuel = some (returned, last) ∧
      returned.map Prod.fst = records.take count ∧
      (∀ other ≤ records.length, (image (records.take other)).length ≤ cut.length →
        other ≤ count) ∧
      last.reports = [] := by
  obtain ⟨next, inside, whole, torn⟩ := isLog
  have isTake : cut = (image (records ++ next)).take cut.length :=
    List.prefix_iff_eq_take.mp (isCut.trans inside)
  obtain ⟨count, bounded, taken, exact_⟩ :=
    @exists_whole_count (records ++ next) 0 cut.length (Nat.zero_le _)
  have notMore : count ≤ records.length := by
    by_contra more
    have longer : records.length + 1 ≤ count := Nat.not_le.mp more
    cases next with
    | nil =>
      rw [List.append_nil] at bounded
      omega
    | cons record others =>
      have fits := (exact_ (records.length + 1) (longer.trans bounded)).mp longer
      rw [List.take_length_add_append, endOf_layout] at fits
      exact Nat.not_lt.mpr (fits.trans isCut.length_le) (torn record others rfl)
  obtain ⟨last, ran, silent⟩ := @readAll_take_image (records ++ next) cut.length ⟨reporting, 0⟩ rfl
    fuel (by rw [← isTake]; exact enough)
  rw [← isTake] at ran
  refine ⟨_, last, count, ran, ?_, fun other inRecords fits => ?_, silent⟩
  · rw [List.map_map]
    refine taken.trans ?_
    exact List.take_append_of_le_length notMore
  · refine (exact_ other ?_).mpr ?_
    · rw [List.length_append]
      exact inRecords.trans (Nat.le_add_right _ _)
    · rw [List.take_append_of_le_length inRecords, endOf_layout]
      exact fits

/-! ### The client -/

/-- A call of the client. -/
inductive LogCall where
  | addRecord (record : Bytes)
  | sync
  deriving DecidableEq, Repr

/-- The call added a record, and was not acknowledged. -/
def LogCall.fails : LogCall × Status → Bool
  | (.addRecord _, status) => !status.isOk
  | (.sync, _) => false

/-- The records that were acknowledged, and those that a `Sync` has covered. -/
structure LogHistory where
  acknowledged : List Bytes
  covered : List Bytes
  deriving DecidableEq, Repr

/-- A call with its status. -/
def LogHistory.note (history : LogHistory) : LogCall × Status → LogHistory
  | (.addRecord record, status) =>
    if status.isOk then { history with acknowledged := history.acknowledged ++ [record] }
    else history
  | (.sync, status) =>
    if status.isOk then { history with covered := history.acknowledged } else history

/-- A log with an open writer, and the calls so far with what they returned. -/
structure LogSession (strerror : Nat → String) where
  writer : Writer (OpenFile strerror)
  results : List (LogCall × Status)

namespace LogSession

variable {strerror : Nat → String}

/-- A `Writer` at the end of a file with the log of these records. -/
def open_ (filename : String) (fd : Nat) (writes : List WriteOutcome) (others : List (Option Nat))
    (earlier : List Bytes) : LogSession strerror :=
  ⟨.reopen ⟨.new filename fd, .start writes others (image earlier)⟩ (image earlier).length, []⟩

/-- An `AddRecord` has failed. -/
def failed (session : LogSession strerror) : Bool := session.results.any LogCall.fails

/-- A call; no record is added after an `AddRecord` that failed. -/
def call (session : LogSession strerror) : LogCall → Option (LogSession strerror)
  | .addRecord record =>
    if session.failed then none
    else
      let (status, writer) := session.writer.addRecord record
      some ⟨writer, session.results ++ [(.addRecord record, status)]⟩
  | .sync =>
    let dest := session.writer.dest
    let (status, file, kernel) := dest.file.sync strerror dest.kernel
    some ⟨{ session.writer with dest := ⟨file, kernel⟩ }, session.results ++ [(.sync, status)]⟩

/-- The history of a log that began with these records, which a crash does not touch. -/
def history (session : LogSession strerror) (earlier : List Bytes) : LogHistory :=
  session.results.foldl LogHistory.note ⟨earlier, earlier⟩

/-- The file. -/
def contents (session : LogSession strerror) : Bytes := session.writer.dest.kernel.file

/-- What is on the disk, of a file that held the log of these records. -/
def disk (session : LogSession strerror) (earlier : List Bytes) : Disk :=
  .after (image earlier).length session.writer.dest.kernel.trace

/-! ### Runs -/

/-- The file is a log of what was acknowledged, and the disk has what was covered; after a failure
perhaps also a part of the torn record. -/
structure Intact (session : LogSession strerror) (earlier : List Bytes) : Prop where
  empty : session.writer.dest.file.buffer = []
  log : IsLogOf session.contents (session.history earlier).acknowledged
  whole : session.failed = false → session.writer.AtEnd ∧
    session.contents = image (session.history earlier).acknowledged
  covered : (session.history earlier).covered <+: (session.history earlier).acknowledged
  written : (session.disk earlier).written = session.contents.length
  synced : (image (session.history earlier).covered).length ≤ (session.disk earlier).synced
  inFile : (session.disk earlier).synced ≤ session.contents.length

variable {session next : LogSession strerror} {earlier : List Bytes}

/-- A log that is opened is that of its earlier records. -/
theorem open_intact (filename : String) (fd : Nat) (writes : List WriteOutcome)
    (others : List (Option Nat)) (earlier : List Bytes) :
    (open_ filename fd writes others earlier : LogSession strerror).Intact earlier := by
  refine ⟨rfl, isLogOf_image earlier, fun _ => ⟨?_, rfl⟩, List.prefix_refl _, rfl,
    Nat.le_refl _, Nat.le_refl _⟩
  exact Nat.mod_mod _ _

/-- A further result is noted last. -/
theorem history_snoc (results : List (LogCall × Status)) (result : LogCall × Status)
    (start : LogHistory) :
    (results ++ [result]).foldl LogHistory.note start =
      (results.foldl LogHistory.note start).note result := by
  rw [List.foldl_append]
  rfl

/-- A further result is a failure or not. -/
theorem failed_snoc (results : List (LogCall × Status)) (result : LogCall × Status) :
    (results ++ [result]).any LogCall.fails =
      (results.any LogCall.fails || LogCall.fails result) := by
  rw [List.any_append, List.any_cons, List.any_nil, Bool.or_false]

/-- Writing adds to the file, and syncs nothing. -/
theorem disk_of_writes (intact : session.Intact earlier) {writer : Writer (OpenFile strerror)}
    {bytes : Bytes} {amount : Nat} {status : Status} {calls : List SystemCall}
    (writes : Writes session.writer.dest.kernel bytes amount status writer.dest.kernel calls)
    (results : List (LogCall × Status)) :
    disk ⟨writer, results⟩ earlier =
      ⟨writer.dest.kernel.file.length, (session.disk earlier).synced⟩ := by
  rw [disk, Disk.after, writes.trace, List.foldl_append, Disk.foldl_writes writes.only,
    writes.wrote, writes.file, List.length_append]
  exact congrArg (fun written => (⟨written + _, _⟩ : Disk)) intact.written

/-- The log of one more record. -/
theorem image_snoc (records : List Bytes) (record : Bytes) :
    image (records ++ [record]) = image records ++
      encode (image records).length (fragments true (image records).length record) := by
  rw [image_append, layout, layout, allFragments_cons, allFragments, List.flatMap_nil,
    List.append_nil]

/-- Adding a record. -/
theorem Intact.addRecord (intact : session.Intact earlier) (running : session.failed = false)
    (record : Bytes) :
    Intact (⟨(session.writer.addRecord record).2, session.results ++
      [(.addRecord record, (session.writer.addRecord record).1)]⟩ : LogSession strerror)
      earlier := by
  obtain ⟨synced, isImage⟩ := intact.whole running
  obtain ⟨amount, calls, emits, syncedNext⟩ :=
    session.writer.addRecord_emits record synced intact.empty
  generalize session.writer.addRecord record = added at emits syncedNext ⊢
  generalize isBytes : encode _ _ = bytes at emits
  obtain ⟨status, writer⟩ := added
  simp only at emits syncedNext ⊢
  have longer : image ((session.history earlier).acknowledged ++ [record]) =
      session.contents ++ bytes := by
    rw [image_snoc, ← isImage, ← isBytes]
    rfl
  have file : writer.dest.kernel.file = session.contents ++ bytes.take amount := emits.writes.file
  have inFile : (session.disk earlier).synced ≤ writer.dest.kernel.file.length := by
    rw [file, List.length_append]
    exact intact.inFile.trans (Nat.le_add_right _ _)
  have isDisk := disk_of_writes intact emits.writes
  have isHistory : (⟨writer, session.results ++ [(.addRecord record, status)]⟩ :
      LogSession strerror).history earlier =
        (session.history earlier).note (.addRecord record, status) := history_snoc _ _ _
  by_cases isOk : status.isOk = true
  · have grown : writer.dest.kernel.file =
        image ((session.history earlier).acknowledged ++ [record]) := by
      rw [longer, file, emits.writes.ok_iff.mp isOk, List.take_length]
    refine ⟨emits.file ▸ intact.empty, ?_, ?_, ?_, ?_, ?_, ?_⟩
    · rw [isHistory, LogHistory.note, if_pos isOk, contents, grown]
      exact isLogOf_image _
    · rw [isHistory, LogHistory.note, if_pos isOk]
      exact fun _ => ⟨syncedNext isOk, grown⟩
    · rw [isHistory, LogHistory.note, if_pos isOk]
      exact intact.covered.trans (List.prefix_append _ _)
    · rw [isDisk]
      rfl
    · rw [isDisk, isHistory, LogHistory.note, if_pos isOk]
      exact intact.synced
    · rw [isDisk]
      exact inFile
  · have short : amount < bytes.length :=
      Nat.lt_of_le_of_ne emits.bound fun whole => isOk (emits.writes.ok_iff.mpr whole)
    refine ⟨emits.file ▸ intact.empty, ?_, ?_, ?_, ?_, ?_, ?_⟩
    · rw [isHistory, LogHistory.note, if_neg isOk, contents, file, isImage]
      exact isLogOf_torn (isImage ▸ longer) short
    · rw [failed, failed_snoc]
      simp [LogCall.fails, isOk]
    · rw [isHistory, LogHistory.note, if_neg isOk]
      exact intact.covered
    · rw [isDisk]
      rfl
    · rw [isDisk, isHistory, LogHistory.note, if_neg isOk]
      exact intact.synced
    · rw [isDisk]
      exact inFile

/-- Syncing the file. -/
theorem Intact.sync (intact : session.Intact earlier) :
    Intact (⟨{ session.writer with dest :=
        ⟨(session.writer.dest.file.sync strerror session.writer.dest.kernel).2.1,
          (session.writer.dest.file.sync strerror session.writer.dest.kernel).2.2⟩ },
      session.results ++ [(.sync,
        (session.writer.dest.file.sync strerror session.writer.dest.kernel).1)]⟩ :
          LogSession strerror) earlier := by
  obtain ⟨sameFile, sameContents, calls, trace, note⟩ :=
    sync_empty strerror session.writer.dest.kernel intact.empty
  generalize session.writer.dest.file.sync strerror session.writer.dest.kernel = result at *
  obtain ⟨status, file, kernel⟩ := result
  simp only at sameFile sameContents trace note ⊢
  subst sameFile
  generalize isNext : (⟨{ session.writer with dest := ⟨session.writer.dest.file, kernel⟩ },
    session.results ++ [(.sync, status)]⟩ : LogSession strerror) = next
  have contents : next.contents = session.contents := by rw [← isNext]; exact sameContents
  have isHistory : next.history earlier = (session.history earlier).note (.sync, status) := by
    rw [← isNext]
    exact history_snoc _ _ _
  have isDisk : next.disk earlier = if status.isOk then
      { session.disk earlier with synced := (session.disk earlier).written }
      else session.disk earlier := by
    rw [← isNext, disk, Disk.after, trace, List.foldl_append, note]
    rfl
  have acknowledged : (next.history earlier).acknowledged =
      (session.history earlier).acknowledged := by
    rw [isHistory, LogHistory.note]
    split_ifs <;> rfl
  have isFailed : next.failed = session.failed := by
    rw [← isNext, failed, failed_snoc]
    exact Bool.or_false _
  refine ⟨?_, ?_, fun running => ?_, ?_, ?_, ?_, ?_⟩
  · rw [← isNext]
    exact intact.empty
  · rw [contents, acknowledged]
    exact intact.log
  · obtain ⟨syncedWriter, isImage⟩ := intact.whole (isFailed ▸ running)
    refine ⟨?_, ?_⟩
    · rw [← isNext, Writer.AtEnd, sameContents]
      exact syncedWriter
    · rw [contents, acknowledged]
      exact isImage
  · rw [acknowledged, isHistory, LogHistory.note]
    split_ifs
    · exact List.prefix_refl _
    · exact intact.covered
  · rw [isDisk, contents]
    split_ifs <;> exact intact.written
  · rw [isDisk, isHistory, LogHistory.note]
    split_ifs
    · obtain ⟨-, -, whole, -⟩ := intact.log
      exact whole.length_le.trans intact.written.ge
    · exact intact.synced
  · rw [isDisk, contents]
    split_ifs
    · exact intact.written.le
    · exact intact.inFile

/-- Every call keeps the log intact. -/
theorem Intact.call (intact : session.Intact earlier) {request : LogCall}
    (called : session.call request = some next) : next.Intact earlier := by
  cases request with
  | addRecord record =>
    rw [LogSession.call] at called
    split_ifs at called with failed
    cases called
    exact intact.addRecord (Bool.eq_false_iff.mpr failed) record
  | sync =>
    cases called
    exact intact.sync

/-- After any calls the file is the log of what was acknowledged, and covered as the history says.
-/
theorem run_intact {filename : String} {fd : Nat} {writes : List WriteOutcome}
    {others : List (Option Nat)} {calls : List LogCall}
    (ran : Machine.run LogSession.call (open_ filename fd writes others earlier) calls =
      some session) : session.Intact earlier := by
  have keeps : ∀ {state : LogSession strerror} {request : LogCall} {next : LogSession strerror},
      state.Intact earlier → state.call request = some next → next.Intact earlier :=
    fun intact called => intact.call called
  exact Machine.run_keeps keeps (open_intact filename fd writes others earlier) ran

/-- A first part of the file that has all that is synced. -/
theorem Intact.readAll_cut (intact : session.Intact earlier) {cut : Bytes}
    (isCut : cut <+: session.contents) (kept : (session.disk earlier).synced ≤ cut.length)
    (reporting : Bool) {fuel : Nat} (enough : cut.length + 2 ≤ fuel) :
    ∃ returned last count, (openReader cut ⟨reporting, 0⟩).readAll fuel = some (returned, last) ∧
      returned.map Prod.fst = (session.history earlier).acknowledged.take count ∧
      (session.history earlier).covered.length ≤ count ∧
      (cut = session.contents → (session.history earlier).acknowledged.length ≤ count) ∧
      last.reports = [] := by
  obtain ⟨returned, last, count, read, isTake, atLeast, silent⟩ :=
    Log.readAll_cut intact.log isCut reporting enough
  have isPrefix := List.prefix_iff_eq_take.mp intact.covered
  refine ⟨returned, last, count, read, isTake, ?_, ?_, silent⟩
  · refine atLeast _ intact.covered.length_le ?_
    rw [← isPrefix]
    exact intact.synced.trans kept
  · rintro rfl
    obtain ⟨more, -, whole, -⟩ := intact.log
    refine atLeast _ (Nat.le_refl _) ?_
    rw [List.take_length]
    exact whole.length_le

/-- In any run, a reader of what a crash has left of the file returns the first records that were
acknowledged, those before the last `Sync` that returned OK among them, and reports nothing.
Without a crash it returns all records that were acknowledged. -/
theorem crash_keeps_covered_records (strerror : Nat → String) (filename : String) (fd : Nat)
    (writes : List WriteOutcome) (others : List (Option Nat)) (earlier : List Bytes)
    (calls : List LogCall) {session : LogSession strerror}
    (ran : Machine.run LogSession.call (open_ filename fd writes others earlier) calls =
      some session)
    {cut : Bytes} (isCut : cut <+: session.contents)
    (kept : (session.disk earlier).synced ≤ cut.length) (reporting : Bool) {fuel : Nat}
    (enough : cut.length + 2 ≤ fuel) :
    ∃ returned last, (openReader cut ⟨reporting, 0⟩).readAll fuel = some (returned, last) ∧
      (session.history earlier).covered <+: returned.map Prod.fst ∧
      returned.map Prod.fst <+: (session.history earlier).acknowledged ∧
      (cut = session.contents → returned.map Prod.fst = (session.history earlier).acknowledged) ∧
      last.reports = [] := by
  have intact := run_intact ran
  obtain ⟨returned, last, count, read, isTake, atLeast, whole, silent⟩ :=
    intact.readAll_cut isCut kept reporting enough
  refine ⟨returned, last, read, ?_, isTake ▸ List.take_prefix _ _, fun uncut => ?_, silent⟩
  · rw [isTake, List.prefix_iff_eq_take.mp intact.covered]
    exact List.take_prefix_take_left atLeast
  · rw [isTake, List.take_of_length_le (whole uncut)]

/-- A record that is written in two parts and synced, then one more, of which a crash leaves a
part. -/
theorem crash_keeps_covered_records_torn_tail :
    ∃ (session : LogSession fun _ => "") (returned : List (Bytes × Nat)) (last : Reader BytesFile),
      Machine.run LogSession.call (open_ "000001.log" 3 [.wrote 4, .failed EINTR] [] [])
        [.addRecord [1, 2, 3], .sync, .addRecord [4]] = some session ∧
      session.contents.length = 18 ∧
      (openReader (session.contents.take 14) ⟨true, 0⟩).readAll 16 = some (returned, last) ∧
      [[1, 2, 3]] <+: returned.map Prod.fst ∧ returned.map Prod.fst <+: [[1, 2, 3], [4]] ∧
      last.reports = [] := by
  have results : (Machine.run LogSession.call
      (open_ "000001.log" 3 [.wrote 4, .failed EINTR] [] [] : LogSession fun _ => "")
      [.addRecord [1, 2, 3], .sync, .addRecord [4]]).map
        (fun session => (session.history [], (session.disk []).synced, session.contents.length)) =
      some (⟨[[1, 2, 3], [4]], [[1, 2, 3]]⟩, 10, 18) := by
    decide +kernel
  obtain ⟨session, ran, summary⟩ := Option.map_eq_some_iff.mp results
  obtain ⟨history, synced, length⟩ : session.history [] = ⟨[[1, 2, 3], [4]], [[1, 2, 3]]⟩ ∧
      (session.disk []).synced = 10 ∧ session.contents.length = 18 := by
    simpa only [Prod.mk.injEq] using summary
  have isCut : (session.contents.take 14).length = 14 := by
    rw [List.length_take, length]
    rfl
  obtain ⟨returned, last, read, covered, acknowledged, -, silent⟩ :=
    crash_keeps_covered_records (fun _ => "") "000001.log" 3 [.wrote 4, .failed EINTR] [] []
      [.addRecord [1, 2, 3], .sync, .addRecord [4]] ran (List.take_prefix 14 _)
      (by rw [isCut, synced]; decide) true (Nat.le_of_eq (congrArg (· + 2) isCut))
  rw [history] at covered acknowledged
  exact ⟨session, returned, last, ran, length, read, covered, acknowledged, silent⟩

end LogSession

end LevelDbXy.Log
