import LevelDbXy.Log.ReaderPhysical

/-!
# Assembling logical records

`Assembly` is what reading a log amounts to once buffering is taken away: a machine that
is fed the physical records of the file one after the other, collects the logical
records and the reports, and stops where the reader would take a record for the
end of the file. `readAll_run` shows that the reader simulates it.
-/

namespace LevelDbXy.Log

open Coding

/-- What a reader is opened with. -/
structure Options where
  reporting : Bool
  initial : Nat

/-- A new reader of a file in memory. -/
def openReader (file : Bytes) (options : Options) : Reader BytesFile :=
  Reader.new ⟨file⟩ options.reporting options.initial

/-- The state of a read: the record being put together with the offset of its first
header, the records returned and the reports made. -/
structure Assembly where
  resyncing : Bool
  pending : Option (Nat × Bytes)
  stopped : Bool
  records : List (Bytes × Nat)
  reports : List (Nat × Status)

namespace Assembly

/-- The state before the first physical record. -/
def start (options : Options) : Assembly := ⟨0 < options.initial, none, false, [], []⟩

/-- The bytes put together so far. -/
def scratch (state : Assembly) : Bytes := (state.pending.map Prod.snd).getD []

/-- Report bytes in front of `pos`, unless they reach before the initial offset. -/
def report (options : Options) (state : Assembly) (pos bytes : Nat) (reason : String) : Assembly :=
  if options.reporting && options.initial ≤ subU64 (truncU64 pos) bytes then
    { state with reports := state.reports ++ [(bytes, .corruption reason)] }
  else state

/-- Report the record put together so far, if it has any bytes. -/
def reportPending (options : Options) (state : Assembly) (pos : Nat) (reason : String) : Assembly :=
  if state.scratch.isEmpty then state
  else state.report options pos state.scratch.length reason

/-- What a physical record of a type in front of `pos` does. -/
def feed (options : Options) (state : Assembly) (pos type offset : Nat) (payload : Bytes) :
    Assembly :=
  if type = RecordType.kFullType.toNat then
    let state := state.reportPending options pos "partial record without end(1)"
    { state with pending := none, records := state.records ++ [(payload, offset)] }
  else if type = RecordType.kFirstType.toNat then
    let state := state.reportPending options pos "partial record without end(2)"
    { state with pending := some (offset, payload) }
  else if type = RecordType.kMiddleType.toNat then
    match state.pending with
    | none => state.report options pos payload.length "missing start of fragmented record(1)"
    | some (offset, scratch) => { state with pending := some (offset, scratch ++ payload) }
  else if type = RecordType.kLastType.toNat then
    match state.pending with
    | none => state.report options pos payload.length "missing start of fragmented record(2)"
    | some (offset, scratch) =>
      { state with pending := none, records := state.records ++ [(scratch ++ payload, offset)] }
  else if type = kEof then { state with stopped := true }
  else if type = kBadRecord then
    match state.pending with
    | none => state
    | some (_, scratch) =>
      { state.report options pos scratch.length "error in middle of record" with pending := none }
  else
    { state.report options pos (payload.length + state.scratch.length)
        ("unknown record type " ++ toString type) with pending := none }

/-- Feed a type, unless the reader is still resyncing and the type continues a record
from before the initial offset. -/
def resyncFeed (options : Options) (state : Assembly) (pos type offset : Nat) (payload : Bytes) :
    Assembly :=
  if state.resyncing ∧ type = RecordType.kMiddleType.toNat then state
  else if state.resyncing ∧ type = RecordType.kLastType.toNat then
    { state with resyncing := false }
  else { state with resyncing := false }.feed options pos type offset payload

/-- Accept the next physical record of the file. A record that starts before the
initial offset counts as a bad one. -/
def accept (options : Options) (state : Assembly) (fragment : Fragment) : Assembly :=
  if state.stopped then state
  else if truncU64 fragment.offset < options.initial then
    state.resyncFeed options fragment.finish kBadRecord (truncU64 fragment.offset) []
  else
    state.resyncFeed options fragment.finish fragment.type.toNat (truncU64 fragment.offset)
      fragment.payload

/-- Accept the physical records of a file in order. -/
def run (options : Options) (state : Assembly) (fragments : List Fragment) : Assembly :=
  fragments.foldl (accept options) state

end Assembly

/-! ### The simulation -/

/-- The local variables of `ReadRecord` hold the pending record. -/
def Holding (locals : ReadLocals) : Option (Nat × Bytes) → Prop
  | none => locals.inFragmentedRecord = false ∧ locals.scratch = []
  | some (offset, scratch) => locals.inFragmentedRecord = true ∧
      locals.prospectiveRecordOffset = offset ∧ locals.scratch = scratch

/-- A reader and its local variables are in the state of an assembly that goes on. -/
structure Simulates (options : Options) (reader : Reader BytesFile) (locals : ReadLocals)
    (state : Assembly) : Prop where
  reporter : reader.reporter = options.reporting
  initialOffset : reader.initialOffset = options.initial
  resyncing : reader.resyncing = state.resyncing
  reports : reader.reports = state.reports
  holding : Holding locals state.pending
  running : state.stopped = false
  started : ∀ offset scratch, state.pending = some (offset, scratch) → options.initial ≤ offset

/-- A round of `ReadRecord` ends as the assembly says, at `pos`. -/
inductive Agrees (options : Options) (file : Bytes) (pos : Nat) (before : Assembly) :
    ReadStep BytesFile → Assembly → Prop where
  | next {reader locals after} (standing : reader.At file pos)
      (simulates : Simulates options reader locals after)
      (records : after.records = before.records) :
      Agrees options file pos before (.next reader locals) after
  | found {reader record after} (standing : reader.At file pos)
      (simulates : Simulates options reader ⟨false, 0, [], []⟩ after)
      (records : after.records = before.records ++ [(record, reader.lastRecordOffset)])
      (inside : options.initial ≤ reader.lastRecordOffset) :
      Agrees options file pos before (.found reader record) after
  | stop {reader after} (stopped : after.stopped = true) (reports : reader.reports = after.reports)
      (records : after.records = before.records) :
      Agrees options file pos before (.stop reader) after

section Simulation

variable {options : Options} {file : Bytes} {pos : Nat} {reader : Reader BytesFile}
  {locals : ReadLocals} {state : Assembly}

/-- A report does not move the reader, and both sides make it under the same condition. -/
theorem Simulates.report (simulates : Simulates options reader locals state)
    (standing : reader.At file pos) (bytes : Nat) (reason : String) :
    (reader.reportCorruption bytes reason).At file pos ∧
      Simulates options (reader.reportCorruption bytes reason) locals
        (state.report options pos bytes reason) := by
  have position : subU64 reader.endOfBufferOffset reader.buffer.length = truncU64 pos := by
    rw [standing.offset, subU64_add]
  simp only [Reader.reportCorruption, Reader.reportDrop, Assembly.report, position,
    simulates.reporter, simulates.initialOffset]
  obtain ⟨buffer, rest, eof, offset⟩ := standing
  obtain ⟨reporter, initialOffset, resyncing, reports, holding, running, started⟩ := simulates
  split_ifs
  · exact ⟨⟨buffer, rest, eof, offset⟩,
      ⟨rfl, rfl, resyncing, by rw [reports], holding, running, started⟩⟩
  · exact ⟨⟨buffer, rest, eof, offset⟩,
      ⟨reporter, initialOffset, resyncing, reports, holding, running, started⟩⟩

@[simp] theorem Assembly.report_records (pos bytes : Nat) (reason : String) :
    (state.report options pos bytes reason).records = state.records := by
  unfold Assembly.report
  split_ifs <;> rfl

@[simp] theorem Assembly.reportPending_records (pos : Nat) (reason : String) :
    (state.reportPending options pos reason).records = state.records := by
  unfold Assembly.reportPending
  split_ifs <;> simp

/-- What the reader has gathered is what is pending. -/
theorem Simulates.scratch_eq (simulates : Simulates options reader locals state) :
    locals.scratch = state.scratch ∧
      locals.inFragmentedRecord = state.pending.isSome := by
  have holding := simulates.holding
  rw [Assembly.scratch]
  cases pending : state.pending with
  | none =>
    rw [pending] at holding
    exact ⟨holding.2, holding.1⟩
  | some partial_ =>
    rw [pending] at holding
    exact ⟨holding.2.2, holding.1⟩

/-- Reporting a record that a full or a first fragment interrupts. -/
theorem Simulates.reportPending (simulates : Simulates options reader locals state)
    (standing : reader.At file pos) (reason : String) :
    ∃ reported, (if locals.inFragmentedRecord && !locals.scratch.isEmpty then
        reader.reportCorruption locals.scratch.length reason else reader) = reported ∧
      reported.At file pos ∧
      Simulates options reported locals (state.reportPending options pos reason) := by
  obtain ⟨scratch, inFragment⟩ := simulates.scratch_eq
  refine ⟨_, rfl, ?_⟩
  rw [Assembly.reportPending, scratch, inFragment]
  cases pending : state.pending with
  | none =>
    have empty : state.scratch = [] := by rw [Assembly.scratch, pending]; rfl
    simp only [empty, List.isEmpty_nil, Option.isSome_none, Bool.false_and, if_true,
      Bool.false_eq_true, if_false]
    exact ⟨standing, simulates⟩
  | some partial_ =>
    by_cases empty : state.scratch.isEmpty = true
    · simp only [empty, Bool.not_true, Bool.and_false, Bool.false_eq_true, if_false, if_true]
      exact ⟨standing, simulates⟩
    · simp only [empty, Option.isSome_some, Bool.true_and, Bool.not_false, if_true,
        Bool.false_eq_true, if_false]
      exact simulates.report standing _ _

/-- The `switch` of `ReadRecord` does what the assembly does. -/
theorem Simulates.switchRecord (simulates : Simulates options reader locals state)
    (standing : reader.At file pos) (type offset : Nat)
    (inside : type = RecordType.kFullType.toNat ∨ type = RecordType.kFirstType.toNat →
      options.initial ≤ offset) :
    Agrees options file pos state (reader.switchRecord locals type offset)
      (state.feed options pos type offset locals.fragment) := by
  obtain ⟨scratch, inFragment⟩ := simulates.scratch_eq
  have holding := simulates.holding
  unfold Reader.switchRecord Assembly.feed
  by_cases full : type = RecordType.kFullType.toNat
  · obtain ⟨reported, same, at_, now⟩ :=
      simulates.reportPending standing "partial record without end(1)"
    simp only [if_pos full, same]
    exact .found ⟨at_.buffer, at_.rest, at_.eof, at_.offset⟩
      ⟨now.reporter, now.initialOffset, now.resyncing, now.reports, ⟨rfl, rfl⟩, now.running,
        by simp⟩ (by simp) (inside (Or.inl full))
  by_cases first : type = RecordType.kFirstType.toNat
  · obtain ⟨reported, same, at_, now⟩ :=
      simulates.reportPending standing "partial record without end(2)"
    simp only [if_neg full, if_pos first, same]
    refine .next at_ ⟨now.reporter, now.initialOffset, now.resyncing, now.reports, ⟨rfl, rfl, rfl⟩,
      now.running, ?_⟩ (by simp)
    rintro _ _ ⟨⟩
    exact inside (Or.inr first)
  by_cases middle : type = RecordType.kMiddleType.toNat
  · simp only [if_neg full, if_neg first, if_pos middle]
    cases pending : state.pending with
    | none =>
      obtain ⟨at_, now⟩ := simulates.report standing locals.fragment.length
        "missing start of fragmented record(1)"
      simp only [inFragment, pending, Option.isSome_none, Bool.not_false, if_true]
      exact .next at_ now (by simp)
    | some partial_ =>
      rw [pending] at holding
      simp only [inFragment, pending, Option.isSome_some, Bool.not_true, Bool.false_eq_true,
        if_false]
      refine .next standing ⟨simulates.reporter, simulates.initialOffset, simulates.resyncing,
        simulates.reports, ⟨rfl, holding.2.1, by simp [holding.2.2]⟩, simulates.running, ?_⟩
        rfl
      rintro _ _ ⟨⟩
      exact simulates.started _ _ pending
  by_cases last : type = RecordType.kLastType.toNat
  · simp only [if_neg full, if_neg first, if_neg middle, if_pos last]
    cases pending : state.pending with
    | none =>
      obtain ⟨at_, now⟩ := simulates.report standing locals.fragment.length
        "missing start of fragmented record(2)"
      simp only [inFragment, pending, Option.isSome_none, Bool.not_false, if_true]
      exact .next at_ now (by simp)
    | some partial_ =>
      rw [pending] at holding
      simp only [inFragment, pending, Option.isSome_some, Bool.not_true, Bool.false_eq_true,
        if_false]
      refine .found ⟨standing.buffer, standing.rest, standing.eof, standing.offset⟩
        ⟨simulates.reporter, simulates.initialOffset, simulates.resyncing, simulates.reports,
          ⟨rfl, rfl⟩, simulates.running, by simp⟩ ?_ ?_
      · simp [holding.2.1, holding.2.2]
      · rw [holding.2.1]
        exact simulates.started _ _ pending
  by_cases eof : type = kEof
  · simp only [if_neg full, if_neg first, if_neg middle, if_neg last, if_pos eof]
    exact .stop rfl simulates.reports rfl
  by_cases bad : type = kBadRecord
  · simp only [if_neg full, if_neg first, if_neg middle, if_neg last, if_neg eof, if_pos bad]
    cases pending : state.pending with
    | none =>
      simp only [inFragment, pending, Option.isSome_none, Bool.false_eq_true, if_false]
      exact .next standing simulates rfl
    | some partial_ =>
      rw [pending] at holding
      obtain ⟨at_, now⟩ := simulates.report standing locals.scratch.length
        "error in middle of record"
      rw [holding.2.2] at at_ now
      simp only [inFragment, pending, Option.isSome_some, if_true, holding.2.2]
      exact .next at_ ⟨now.reporter, now.initialOffset, now.resyncing, now.reports, ⟨rfl, rfl⟩,
        now.running, by simp⟩ (by simp)
  · simp only [if_neg full, if_neg first, if_neg middle, if_neg last, if_neg eof, if_neg bad]
    have size : (if locals.inFragmentedRecord then locals.scratch.length else 0) =
        state.scratch.length := by
      rw [inFragment, scratch]
      cases pending : state.pending with
      | none => simp [Assembly.scratch, pending]
      | some partial_ => simp
    obtain ⟨at_, now⟩ := simulates.report standing
      (locals.fragment.length + state.scratch.length) ("unknown record type " ++ toString type)
    rw [size]
    exact .next at_ ⟨now.reporter, now.initialOffset, now.resyncing, now.reports, ⟨rfl, rfl⟩,
      now.running, by simp⟩ (by simp)

/-- Only the records of the earlier state matter. -/
theorem Agrees.of_records {before other after : Assembly} {step : ReadStep BytesFile}
    (agrees : Agrees options file pos before step after) (same : before.records = other.records) :
    Agrees options file pos other step after := by
  cases agrees with
  | next standing simulates records => exact .next standing simulates (records.trans same)
  | found standing simulates records inside =>
    exact .found standing simulates (same ▸ records) inside
  | stop stopped reports records => exact .stop stopped reports (records.trans same)

/-- The resyncing test in front of the `switch`. -/
theorem Simulates.resync (simulates : Simulates options reader locals state)
    (standing : reader.At file pos) (type offset : Nat)
    (inside : type = RecordType.kFullType.toNat ∨ type = RecordType.kFirstType.toNat →
      options.initial ≤ offset) :
    Agrees options file pos state
      (if reader.resyncing ∧ type = RecordType.kMiddleType.toNat then .next reader locals
        else if reader.resyncing ∧ type = RecordType.kLastType.toNat then
          .next { reader with resyncing := false } locals
        else { reader with resyncing := false }.switchRecord locals type offset)
      (state.resyncFeed options pos type offset locals.fragment) := by
  have synced : Simulates options { reader with resyncing := false } locals
      { state with resyncing := false } :=
    ⟨simulates.reporter, simulates.initialOffset, rfl, simulates.reports, simulates.holding,
      simulates.running, simulates.started⟩
  have unmoved : ({ reader with resyncing := false } : Reader BytesFile).At file pos :=
    ⟨standing.buffer, standing.rest, standing.eof, standing.offset⟩
  unfold Assembly.resyncFeed
  rw [simulates.resyncing]
  split_ifs
  · exact .next standing simulates rfl
  · exact .next unmoved synced rfl
  · exact (synced.switchRecord unmoved type offset inside).of_records rfl

/-- Where a bad record starts does not matter. -/
theorem Assembly.resyncFeed_bad (state : Assembly) (pos offset other : Nat) (payload : Bytes) :
    state.resyncFeed options pos kBadRecord offset payload =
      state.resyncFeed options pos kBadRecord other payload := rfl

/-- One round of `ReadRecord` on an intact physical record. -/
theorem Simulates.readRecordStep (simulates : Simulates options reader locals state)
    (standing : reader.At file pos) {fragment : Fragment} {tail : Bytes}
    (placed : Placed pos [fragment]) (bytes : file.drop pos = encode pos [fragment] ++ tail)
    (nonzero : ¬ (fragment.type = 0 ∧ fragment.payload = [])) :
    Agrees options file fragment.finish state (reader.readRecordStep locals)
      (state.accept options fragment) := by
  obtain ⟨after, physical, standingAfter, unmoved⟩ :=
    standing.readPhysicalRecord_fragment locals.fragment placed bytes nonzero
  have moved : ∀ payload, Simulates options after { locals with fragment := payload } state :=
    fun payload => ⟨unmoved.reporter.trans simulates.reporter,
      unmoved.initialOffset.trans simulates.initialOffset,
      unmoved.resyncing.trans simulates.resyncing, unmoved.reports.trans simulates.reports,
      simulates.holding, simulates.running, simulates.started⟩
  rw [simulates.initialOffset] at physical
  unfold Reader.readRecordStep Assembly.accept
  rw [simulates.running, physical]
  by_cases before : truncU64 fragment.offset < options.initial
  · simp only [if_pos before, Bool.false_eq_true, if_false]
    rw [Assembly.resyncFeed_bad state _ _ (after.physicalRecordOffset 0)]
    exact (moved []).resync standingAfter kBadRecord _ fun other => absurd other (by decide)
  · have offset : after.physicalRecordOffset fragment.payload.length =
        truncU64 fragment.offset := by
      have behind : fragment.finish + after.buffer.length =
          fragment.offset + fragment.payload.length + kHeaderSize + after.buffer.length := by
        rw [Fragment.finish]
        omega
      rw [Reader.physicalRecordOffset, standingAfter.offset, behind, subU64_add, subU64_add,
        subU64_add]
    simp only [if_neg before, Bool.false_eq_true, if_false, offset]
    exact (moved fragment.payload).resync standingAfter fragment.type.toNat _
      fun _ => Nat.not_lt.mp before

/-- The last round, where the file ends. -/
theorem readRecordStep_end (standing : reader.At file pos) (ends : Reader.EndsAt file pos)
    (locals : ReadLocals) :
    ∃ ended, reader.readRecordStep locals = .stop ended ∧ ended.reports = reader.reports := by
  obtain ⟨ended, physical, unmoved⟩ := ends reader standing locals.fragment
  refine ⟨{ ended with resyncing := false }, ?_, unmoved.reports⟩
  unfold Reader.readRecordStep
  rw [physical]
  have notMiddle : kEof ≠ RecordType.kMiddleType.toNat := by decide
  have notLast : kEof ≠ RecordType.kLastType.toNat := by decide
  simp only [notMiddle, notLast, and_false, if_false]
  rfl

/-! ### Whole runs -/

/-- The rest of a run: the current call of `ReadRecord` and all calls after it. -/
def continueWith (fuel calls : Nat) (reader : Reader BytesFile) (locals : ReadLocals) :
    Option (List (Bytes × Nat) × Reader BytesFile) := do
  let (result, reader) ← reader.readRecordLoop fuel locals
  match result with
  | none => some ([], reader)
  | some record =>
    let (records, last) ← reader.readAll calls
    some ((record, reader.lastRecordOffset) :: records, last)

/-- Unless the reader has to skip first, a run starts with a call. -/
theorem readAll_succ (fuel : Nat) (synced : reader.initialOffset ≤ reader.lastRecordOffset) :
    reader.readAll (fuel + 1) = continueWith fuel fuel reader ⟨false, 0, [], []⟩ := by
  rw [Reader.readAll, Reader.readRecord, if_neg (Nat.not_lt.mpr synced)]
  rfl

/-- A stopped assembly accepts nothing more. -/
theorem Assembly.run_stopped (stopped : state.stopped = true) (fragments : List Fragment) :
    state.run options fragments = state := by
  induction fragments with
  | nil => rfl
  | cons fragment fragments inductionHypothesis =>
    rw [run, List.foldl_cons, accept, if_pos stopped]
    exact inductionHypothesis

/-- Reading the rest of a file returns what the assembly collects from its physical
records. One unit of fuel for each of them, and one for the end, is enough. -/
theorem Simulates.continueWith_run {fragments : List Fragment} {tail : Bytes}
    (simulates : Simulates options reader locals state) (standing : reader.At file pos)
    (placed : Placed pos fragments) (bytes : file.drop pos = encode pos fragments ++ tail)
    (nonzero : ∀ fragment ∈ fragments, ¬ (fragment.type = 0 ∧ fragment.payload = []))
    (ends : Reader.EndsAt file (endOf pos fragments)) {fuel calls : Nat}
    (enough : fragments.length < fuel) (enoughCalls : fragments.length < calls) :
    ∃ records last, continueWith fuel calls reader locals = some (records, last) ∧
      (state.run options fragments).records = state.records ++ records ∧
      last.reports = (state.run options fragments).reports := by
  induction fragments generalizing pos reader locals state fuel calls with
  | nil =>
    obtain ⟨fuel, rfl⟩ := Nat.exists_eq_succ_of_ne_zero (Nat.ne_of_gt enough)
    obtain ⟨ended, step, reports⟩ := readRecordStep_end standing ends locals
    refine ⟨[], ended, ?_, by simp [Assembly.run], reports.trans simulates.reports⟩
    simp [continueWith, Reader.readRecordLoop, step]
  | cons fragment fragments inductionHypothesis =>
    obtain ⟨fuel, rfl⟩ := Nat.exists_eq_succ_of_ne_zero (Nat.ne_of_gt (Nat.lt_of_le_of_lt
      (Nat.zero_le _) enough))
    rw [List.length_cons] at enough enoughCalls
    have head : Placed pos [fragment] := ⟨placed.1, placed.2.1, trivial⟩
    rw [encode_cons, List.append_assoc] at bytes
    have behind : file.drop fragment.finish = encode fragment.finish fragments ++ tail := by
      have moved : file.drop fragment.finish =
          (file.drop pos).drop (encode pos [fragment]).length := by
        rw [List.drop_drop, add_length_encode_singleton placed]
      rw [moved, bytes, List.drop_left]
    have agrees := simulates.readRecordStep standing head bytes
      (nonzero fragment (List.mem_cons_self ..))
    have others := fun other member => nonzero other (List.mem_cons_of_mem _ member)
    change ∃ records last, _ ∧ ((state.accept options fragment).run options fragments).records = _ ∧
      _ = ((state.accept options fragment).run options fragments).reports
    generalize state.accept options fragment = after at agrees
    cases step : reader.readRecordStep locals with
    | next moved nextLocals =>
      rw [step] at agrees
      cases agrees with
      | next standingAfter simulatesAfter same =>
        obtain ⟨records, last, ran, collected, reports⟩ := inductionHypothesis simulatesAfter
          standingAfter placed.2.2 behind others ends
          (show fragments.length < fuel by omega) (show fragments.length < calls by omega)
        refine ⟨records, last, ?_, same ▸ collected, reports⟩
        rw [← ran]
        simp only [continueWith, Reader.readRecordLoop, step]
    | found moved record =>
      rw [step] at agrees
      cases agrees with
      | found standingAfter simulatesAfter same inside =>
        obtain ⟨calls, rfl⟩ := Nat.exists_eq_succ_of_ne_zero (show calls ≠ 0 by omega)
        obtain ⟨records, last, ran, collected, reports⟩ := inductionHypothesis simulatesAfter
          standingAfter placed.2.2 behind others ends
          (show fragments.length < calls by omega) (show fragments.length < calls by omega)
        refine ⟨(record, moved.lastRecordOffset) :: records, last, ?_, ?_, reports⟩
        · have again := readAll_succ calls (simulatesAfter.initialOffset.trans_le inside)
          rw [ran] at again
          simp [continueWith, Reader.readRecordLoop, step, again]
        · rw [collected, same]
          simp
    | stop ended =>
      rw [step] at agrees
      cases agrees with
      | stop stopped reports same =>
        rw [Assembly.run_stopped stopped]
        refine ⟨[], ended, ?_, by simp [same], reports⟩
        simp [continueWith, Reader.readRecordLoop, step]

end Simulation

/-! ### Reading from the initial offset -/

/-- The block edge where a reader starts: that of the block of the initial offset, or
the next one if no header can follow in that block. -/
def firstBlock (initial : Nat) : Nat :=
  if kBlockSize - 6 < initial % kBlockSize then
    truncU64 (initial - initial % kBlockSize + kBlockSize)
  else initial - initial % kBlockSize

/-- The first block begins at a multiple of the block size. -/
theorem firstBlock_mod (initial : Nat) : firstBlock initial % kBlockSize = 0 := by
  unfold firstBlock truncU64
  split
  · simp only [kBlockSize]
    omega
  · simp only [kBlockSize]
    omega

/-- Its offset has 64 bits. -/
theorem firstBlock_lt {initial : Nat} (bounded : initial < 2 ^ 64) :
    firstBlock initial < 2 ^ 64 := by
  unfold firstBlock truncU64
  split <;> omega

/-- A new reader after `SkipToInitialBlock`. -/
def skippedReader (file : Bytes) (options : Options) : Reader BytesFile :=
  { openReader file options with
    file := ⟨file.drop (firstBlock options.initial)⟩
    endOfBufferOffset := firstBlock options.initial }

/-- A new reader skips to that block. -/
theorem skipToInitialBlock_new (file : Bytes) (options : Options) :
    (openReader file options).skipToInitialBlock = (true, skippedReader file options) := by
  have skip : (openReader file options).skipToInitialBlock =
      if 0 < firstBlock options.initial then (true, skippedReader file options)
      else (true, { openReader file options with
        endOfBufferOffset := firstBlock options.initial }) := rfl
  rw [skip]
  split_ifs with positive
  · rfl
  · have zero : firstBlock options.initial = 0 := by omega
    rw [skippedReader, zero, List.drop_zero]
    rfl

/-- There it stands at the offset of that block. -/
theorem skippedReader_at (file : Bytes) {options : Options} (bounded : options.initial < 2 ^ 64) :
    (skippedReader file options).At file (firstBlock options.initial) := by
  have edge := firstBlock_mod options.initial
  have kept : truncU64 (firstBlock options.initial) = firstBlock options.initial :=
    Nat.mod_eq_of_lt (firstBlock_lt bounded)
  have noRest : blockRest (firstBlock options.initial) = 0 := by
    simp only [blockRest, edge, Nat.sub_zero, Nat.mod_self]
  constructor <;> simp [noRest, skippedReader, openReader, Reader.new, kept]

/-- There it has assembled nothing. -/
theorem skippedReader_simulates (file : Bytes) (options : Options) :
    Simulates options (skippedReader file options) ⟨false, 0, [], []⟩ (Assembly.start options) :=
  ⟨rfl, rfl, rfl, rfl, ⟨rfl, rfl⟩, rfl, by simp [Assembly.start]⟩

/-- The first call of `ReadRecord` skips to the initial block, which changes nothing
when the initial offset is zero. -/
theorem readAll_openReader (fuel : Nat) (file : Bytes) (options : Options) :
    (openReader file options).readAll (fuel + 1) =
      continueWith fuel fuel (skippedReader file options) ⟨false, 0, [], []⟩ := by
  by_cases zero : options.initial = 0
  · have same : skippedReader file options = openReader file options := by
      simp [skippedReader, openReader, Reader.new, firstBlock, zero, kBlockSize]
    rw [same]
    refine readAll_succ fuel ?_
    simp [openReader, Reader.new, zero]
  · have skips : (openReader file options).lastRecordOffset <
        (openReader file options).initialOffset := Nat.pos_of_ne_zero zero
    rw [Reader.readAll, Reader.readRecord, if_pos skips, skipToInitialBlock_new]
    rfl

/-- Every physical record has some bytes. -/
theorem length_le_length_encode (pos : Nat) (fragments : List Fragment) :
    fragments.length ≤ (encode pos fragments).length := by
  induction fragments generalizing pos with
  | nil => exact Nat.le_refl _
  | cons fragment fragments inductionHypothesis =>
    have others := inductionHypothesis fragment.finish
    simp only [encode, List.length_cons, List.length_append, Fragment.length_bytes]
    omega

/-- Reading a file to its end returns what the assembly collects from the physical
records behind the block edge where the reader starts. -/
theorem readAll_run {options : Options} {file : Bytes} {fragments : List Fragment} {tail : Bytes}
    (bounded : options.initial < 2 ^ 64)
    (placed : Placed (firstBlock options.initial) fragments)
    (bytes : file.drop (firstBlock options.initial) =
      encode (firstBlock options.initial) fragments ++ tail)
    (nonzero : ∀ fragment ∈ fragments, ¬ (fragment.type = 0 ∧ fragment.payload = []))
    (ends : Reader.EndsAt file (endOf (firstBlock options.initial) fragments)) {fuel : Nat}
    (enough : file.length + 2 ≤ fuel) :
    ∃ last, (openReader file options).readAll fuel =
        some (((Assembly.start options).run options fragments).records, last) ∧
      last.reports = ((Assembly.start options).run options fragments).reports := by
  obtain ⟨fuel, rfl⟩ := Nat.exists_eq_succ_of_ne_zero (show fuel ≠ 0 by omega)
  have short : fragments.length < fuel := by
    have fromBytes := length_le_length_encode (firstBlock options.initial) fragments
    have sizes := congrArg List.length bytes
    simp only [List.length_drop, List.length_append] at sizes
    omega
  obtain ⟨records, last, ran, collected, reports⟩ :=
    (skippedReader_simulates file options).continueWith_run (skippedReader_at file bounded) placed
      bytes nonzero ends short short
  refine ⟨last, ?_, reports⟩
  rw [readAll_openReader, ran, collected]
  rfl

end LevelDbXy.Log
