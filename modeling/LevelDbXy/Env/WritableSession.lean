import LevelDbXy.Env.WritableFile
import LevelDbXy.Library.Machine

/-!
# Sessions on a writable file

Any sequence of calls on one `PosixWritableFile`, with the status each of them returned. As
long as no `write` fails, the file followed by the buffer is what has been appended. A `write`
that fails loses what is left in the buffer, which earlier calls of `Append` may have
accepted, and a later `Sync` succeeds on the bytes that remain.
-/

namespace LevelDbXy.Posix

/-- A call of a client. -/
inductive WritableCall where
  | append (data : Bytes)
  | flush
  | sync
  | close
  deriving DecidableEq, Repr

namespace WritableCall

variable (strerror : Nat → String)

/-- The new data of the call. -/
def data : WritableCall → Bytes
  | append data => data
  | _ => []

/-- The call on a file. -/
def perform (call : WritableCall) (file : PosixWritableFile) (kernel : Kernel) :
    Status × PosixWritableFile × Kernel :=
  match call with
  | append data => file.append strerror data kernel
  | flush => file.flush strerror kernel
  | sync => file.sync strerror kernel
  | close => file.close strerror kernel

/-- The call writes the buffer whatever its data: `Sync` of a manifest does so only after its
directory is synced. -/
def Flushes (file : PosixWritableFile) (kernel : Kernel) : WritableCall → Prop
  | append _ => False
  | flush => True
  | sync => file.isManifest = false ∨ kernel.DirectorySyncs
  | close => True

/-- If the call writes the buffer, then the bytes that were in it before are written before any
`write` fails. -/
def Delivers (file : PosixWritableFile) (kernel : Kernel) : WritableCall → Prop
  | append data => data.length ≤ kWritableFileBufferSize - file.buffer.length ∨
      file.buffer.length ≤ file.deliverable kernel kWritableFileBufferSize
  | call => call.Flushes file kernel →
      file.buffer.length ≤ file.deliverable kernel file.buffer.length

instance (call : WritableCall) (file : PosixWritableFile) (kernel : Kernel) :
    Decidable (call.Flushes file kernel) :=
  match call with
  | append _ => isFalse id
  | flush => isTrue trivial
  | sync => inferInstanceAs (Decidable (_ ∨ _))
  | close => isTrue trivial

instance (call : WritableCall) (file : PosixWritableFile) (kernel : Kernel) :
    Decidable (call.Delivers file kernel) :=
  match call with
  | append _ => inferInstanceAs (Decidable (_ ∨ _))
  | flush => inferInstanceAs (Decidable (_ → _))
  | sync => inferInstanceAs (Decidable (_ → _))
  | close => inferInstanceAs (Decidable (_ → _))

/-- What a call does to the stream. -/
theorem perform_streams (call : WritableCall) {file : PosixWritableFile} (kernel : Kernel)
    (small : file.buffer.length ≤ kWritableFileBufferSize) :
    ∃ amount, PosixWritableFile.Streams file kernel call.data amount
        (call.perform strerror file kernel).1 (call.perform strerror file kernel).2.1
        (call.perform strerror file kernel).2.2 ∧
      (call.Flushes file kernel → (call.perform strerror file kernel).2.1.buffer = []) ∧
      (call.Delivers file kernel → file.buffer.length ≤ amount) := by
  cases call with
  | append data =>
    obtain ⟨amount, streams, keeps⟩ := PosixWritableFile.append_streams kernel small
    exact ⟨amount, streams, False.elim, keeps⟩
  | flush =>
    exact ⟨_, file.flushBuffer_streams strerror kernel, fun _ => rfl,
      fun delivers => delivers trivial⟩
  | sync =>
    obtain ⟨amount, streams, synced, unsynced⟩ := file.sync_streams strerror kernel small
    refine ⟨amount, streams, fun flushes => (synced flushes).2, fun delivers => ?_⟩
    by_cases flushes : file.isManifest = false ∨ kernel.DirectorySyncs
    · rw [(synced flushes).1]
      exact delivers flushes
    · exact (unsynced flushes).ge
  | close =>
    obtain ⟨streams, empty⟩ := file.close_streams strerror kernel
    exact ⟨_, streams, fun _ => empty, fun delivers => delivers trivial⟩

/-- The data that the call has accepted, if it returned this status. -/
def accepted (call : WritableCall) (status : Status) : List Bytes :=
  match call with
  | append data => if status.isOk then [data] else []
  | _ => []

/-- A call has accepted its data or nothing. -/
theorem accepted_cases (call : WritableCall) (status : Status) :
    call.accepted status = [] ∨ (status.isOk = true ∧ call.accepted status = [call.data]) := by
  cases call with
  | append data =>
    by_cases isOk : status.isOk = true
    · exact Or.inr ⟨isOk, if_pos isOk⟩
    · exact Or.inl (if_neg isOk)
  | flush => exact Or.inl rfl
  | sync => exact Or.inl rfl
  | close => exact Or.inl rfl

end WritableCall

/-- The chunks are in the file, one after the other, with anything around them. -/
def ContainsInOrder : List Bytes → Bytes → Prop
  | [], _ => True
  | chunk :: chunks, file =>
    ∃ gap rest, file = gap ++ chunk ++ rest ∧ ContainsInOrder chunks rest

/-- What is in a file is in a longer one. -/
theorem ContainsInOrder.append_right {chunks : List Bytes} {file : Bytes}
    (contains : ContainsInOrder chunks file) (more : Bytes) :
    ContainsInOrder chunks (file ++ more) := by
  induction chunks generalizing file with
  | nil => trivial
  | cons chunk chunks inductionHypothesis =>
    obtain ⟨gap, rest, rfl, later⟩ := contains
    exact ⟨gap, rest ++ more, List.append_assoc _ _ _, inductionHypothesis later⟩

/-- A further chunk comes last. -/
theorem ContainsInOrder.snoc {chunks : List Bytes} {file : Bytes}
    (contains : ContainsInOrder chunks file) (chunk : Bytes) :
    ContainsInOrder (chunks ++ [chunk]) (file ++ chunk) := by
  induction chunks generalizing file with
  | nil => exact ⟨file, [], (List.append_nil _).symm, trivial⟩
  | cons first chunks inductionHypothesis =>
    obtain ⟨gap, rest, rfl, later⟩ := contains
    exact ⟨gap, rest ++ chunk, List.append_assoc _ _ _, inductionHypothesis later⟩

/-- An open file, and the calls on it so far with what they returned. -/
structure WriteSession where
  file : PosixWritableFile
  kernel : Kernel
  results : List (WritableCall × Status)
  deriving DecidableEq, Repr

namespace WriteSession

variable (strerror : Nat → String)

/-- A new `PosixWritableFile` for an open descriptor. -/
def new (filename : String) (fd : Nat) (kernel : Kernel) : WriteSession :=
  ⟨.new filename fd, kernel, []⟩

/-- Any call is possible. -/
def call (session : WriteSession) (request : WritableCall) : Option WriteSession :=
  let (status, file, kernel) := request.perform strerror session.file session.kernel
  some ⟨file, kernel, session.results ++ [(request, status)]⟩

/-- The data of all calls. -/
def appended (session : WriteSession) : Bytes := session.results.flatMap fun result => result.1.data

/-- The buffer is small, and unless a `write` has failed nothing is missing. -/
structure Streamed (session : WriteSession) : Prop where
  small : session.file.buffer.length ≤ kWritableFileBufferSize
  stream : session.kernel.WritesSucceed →
    session.kernel.file ++ session.file.buffer = session.appended

variable {strerror}

/-- A new file has an empty stream. -/
theorem Streamed.new (filename : String) (fd : Nat) (writes : List WriteOutcome)
    (others : List (Option Nat)) : Streamed (new filename fd (.start writes others [])) :=
  ⟨Nat.zero_le _, fun _ => rfl⟩

/-- A call is performed and its result is noted. -/
theorem call_eq {session next : WriteSession} {request : WritableCall}
    (called : session.call strerror request = some next) :
    next = ⟨(request.perform strerror session.file session.kernel).2.1,
      (request.perform strerror session.file session.kernel).2.2,
      session.results ++ [(request, (request.perform strerror session.file session.kernel).1)]⟩ :=
  (Option.some.inj called).symm

/-- What a call does to the stream and to the history. -/
theorem call_streams {session next : WriteSession} {request : WritableCall}
    (small : session.file.buffer.length ≤ kWritableFileBufferSize)
    (called : session.call strerror request = some next) :
    ∃ amount status, PosixWritableFile.Streams session.file session.kernel request.data amount
        status next.file next.kernel ∧
      next.results = session.results ++ [(request, status)] ∧
      (request.Flushes session.file session.kernel → next.file.buffer = []) ∧
      (request.Delivers session.file session.kernel → session.file.buffer.length ≤ amount) ∧
      (request = .sync → status.isOk = true → request.Flushes session.file session.kernel) := by
  obtain ⟨amount, streams, empties, delivers⟩ :=
    request.perform_streams strerror session.kernel small
  have directory : request = .sync → (request.perform strerror session.file session.kernel).1.isOk =
      true → request.Flushes session.file session.kernel := by
    rintro rfl isOk
    exact PosixWritableFile.directory_of_sync_isOk isOk
  rw [call_eq called]
  exact ⟨amount, _, streams, rfl, empties, delivers, directory⟩

/-- A call keeps the stream. -/
theorem Streamed.call {session next : WriteSession} {request : WritableCall}
    (streamed : session.Streamed)
    (called : session.call strerror request = some next) : next.Streamed := by
  obtain ⟨amount, status, streams, results, -⟩ := call_streams streamed.small called
  refine ⟨streams.small, fun succeed => ?_⟩
  have earlier : session.kernel.WritesSucceed :=
    fun call member => succeed call (streams.trace.subset member)
  have longer : next.appended = session.appended ++ request.data := by
    simp [appended, results]
  rw [longer, ← streamed.stream earlier, streams.stream, streams.whole succeed, List.take_length,
    List.append_assoc]

/-- After any run the file and the buffer are the stream of what was appended, up to a failed write.
-/
theorem run_streamed {filename : String} {fd : Nat} {writes : List WriteOutcome}
    {others : List (Option Nat)} {calls : List WritableCall} {session : WriteSession}
    (ran : Machine.run (WriteSession.call strerror) (new filename fd (.start writes others []))
      calls = some session) : session.Streamed :=
  Machine.run_keeps Streamed.call (Streamed.new filename fd writes others) ran

/-- As long as no `write` fails, the file followed by the buffer is what has been appended,
and the buffer is empty after each call that writes it. -/
theorem buffered_writes_preserve_stream (strerror : Nat → String) (filename : String) (fd : Nat)
    (writes : List WriteOutcome) (others : List (Option Nat)) (calls : List WritableCall)
    (last : WritableCall) {before after : WriteSession}
    (ran : Machine.run (WriteSession.call strerror) (new filename fd (.start writes others []))
      calls = some before)
    (called : before.call strerror last = some after) (succeed : after.kernel.WritesSucceed) :
    after.kernel.file ++ after.file.buffer = after.appended ∧
      after.file.buffer.length ≤ kWritableFileBufferSize ∧
      (last.Flushes before.file before.kernel →
        after.file.buffer = [] ∧ after.kernel.file = after.appended) := by
  have earlier := run_streamed ran
  have streamed := earlier.call called
  obtain ⟨-, -, -, -, empties, -⟩ := call_streams earlier.small called
  refine ⟨streamed.stream succeed, streamed.small, fun flushes => ?_⟩
  have empty := empties flushes
  refine ⟨empty, ?_⟩
  rw [← streamed.stream succeed, empty, List.append_nil]

/-- A write that is interrupted, and then a short one. -/
theorem buffered_writes_preserve_stream_interrupted :
    ∃ before after, Machine.run (WriteSession.call fun _ => "")
        (new "000001.log" 3 (.start [.failed EINTR, .wrote 0] [] [])) [.append [1, 2, 3]] =
          some before ∧
      before.call (fun _ => "") .sync = some after ∧
      after.file.buffer = [] ∧ after.kernel.file = after.appended := by
  refine ⟨_, _, rfl, rfl, ?_⟩
  exact (buffered_writes_preserve_stream (fun _ => "") "000001.log" 3 [.failed EINTR, .wrote 0] []
    [.append [1, 2, 3]] .sync rfl rfl (by decide)).2.2 (Or.inl (by decide))

/-- The directory of a manifest cannot be opened, for want of descriptors, and `Sync` does not
write the buffer. -/
theorem sync_keeps_buffer_without_directory :
    ∃ before after, Machine.run (WriteSession.call fun _ => "")
        (new "MANIFEST-1" 3 (.start [] [some 24] [])) [.append [1]] = some before ∧
      before.call (fun _ => "") .sync = some after ∧ after.kernel.WritesSucceed ∧
      after.file.buffer ≠ [] ∧ after.kernel.file ≠ after.appended := by
  refine ⟨_, _, rfl, rfl, ?_, ?_, ?_⟩
  · decide
  · decide
  · decide

/-! ### What a successful `Sync` covers -/

/-- The data of the calls of `Append` that returned OK. -/
def accepted (results : List (WritableCall × Status)) : List Bytes :=
  results.flatMap fun result => result.1.accepted result.2

/-- If the last call is a `Sync` that returned OK, the file has all that was accepted before. -/
def Covered (session : WriteSession) : Prop :=
  ∀ earlier status, session.results = earlier ++ [(.sync, status)] → status.isOk = true →
    ContainsInOrder (accepted earlier) session.kernel.file

/-- What was accepted is in the file or in the buffer, and in the file after a `Sync` that
returned OK. -/
structure Kept (session : WriteSession) : Prop where
  small : session.file.buffer.length ≤ kWritableFileBufferSize
  stream : ContainsInOrder (accepted session.results) (session.kernel.file ++ session.file.buffer)
  synced : ∀ earlier status, session.results = earlier ++ [(.sync, status)] →
    status.isOk = true → session.file.buffer = []

/-- A further call adds what it has accepted. -/
theorem accepted_snoc (results : List (WritableCall × Status)) (request : WritableCall)
    (status : Status) :
    accepted (results ++ [(request, status)]) = accepted results ++ request.accepted status := by
  simp [accepted]

/-- A call that delivers what was in the buffer loses nothing that was accepted. -/
theorem Kept.call {session next : WriteSession} {request : WritableCall} (kept : session.Kept)
    (delivers : request.Delivers session.file session.kernel)
    (called : session.call strerror request = some next) : next.Kept := by
  obtain ⟨amount, status, streams, results, empties, covers, directory⟩ :=
    call_streams kept.small called
  refine ⟨streams.small, ?_, ?_⟩
  · rw [results, accepted_snoc, streams.stream]
    rcases request.accepted_cases status with nothing | ⟨isOk, data⟩
    · -- the bytes buffered before are kept, and those of a failed call may follow
      rw [nothing, List.append_nil, List.take_append, List.take_of_length_le (covers delivers),
        ← List.append_assoc]
      exact kept.stream.append_right _
    · rw [data, streams.ok isOk, List.take_length, ← List.append_assoc]
      exact kept.stream.snoc _
  · intro earlier status' isLast isOk
    obtain ⟨-, last⟩ := List.append_inj' (results.symm.trans isLast) rfl
    obtain ⟨rfl, rfl⟩ := Prod.mk.inj (List.singleton_inj.mp last)
    exact empties (directory rfl isOk)

/-- What is kept is covered. -/
theorem Kept.covered {session : WriteSession} (kept : session.Kept) : session.Covered := by
  intro earlier status isLast isOk
  have stream := kept.stream
  rw [kept.synced earlier status isLast isOk, List.append_nil, isLast, accepted_snoc] at stream
  exact List.append_nil (accepted earlier) ▸ stream

/-- In a run whose calls deliver what is in the buffer before a `write` fails, a `Sync` that
returns OK leaves a file that has all that was accepted. -/
theorem sync_covers_accepted (strerror : Nat → String) (filename : String) (fd : Nat)
    (kernel : Kernel) (calls : List WritableCall)
    (delivers : Machine.Meets (WriteSession.call strerror)
      (fun session request => request.Delivers session.file session.kernel)
      (new filename fd kernel) calls) :
    Machine.Always (WriteSession.call strerror) Covered (new filename fd kernel) calls := by
  have start : Kept (new filename fd kernel) := by
    refine ⟨Nat.zero_le _, trivial, fun earlier status isLast => ?_⟩
    simp [new] at isLast
  exact Machine.always_of_invariant Kept.call Kept.covered start delivers

/-- Short and interrupted writes before a `Sync` that returns OK. -/
theorem sync_covers_accepted_short_writes :
    Machine.Always (WriteSession.call fun _ => "") Covered
      (new "000001.log" 3 (.start [.wrote 0, .failed EINTR, .wrote 0] [] []))
      [.append [97, 98], .flush, .append [99], .sync] :=
  sync_covers_accepted (fun _ => "") "000001.log" 3 _ _ (by decide)

/-- `Append` accepts a byte, `Flush` loses it and says so, and `Sync` returns OK. -/
theorem sync_after_failed_flush_not_covered :
    ¬ Machine.Always (WriteSession.call fun _ => "") Covered
      (new "000001.log" 3 (.start [.failed 5] [] [])) [.append [97], .flush, .sync] := by
  intro always
  have covered := (((always.2 _ rfl).2 _ rfl).2 _ rfl) _ _ rfl rfl
  obtain ⟨gap, rest, isFile, -⟩ := covered
  have isEmpty : ([] : Bytes) = gap ++ [97] ++ rest := isFile
  simp at isEmpty

end WriteSession

end LevelDbXy.Posix
