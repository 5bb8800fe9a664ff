import LevelDbXy.Log.Assembly
import LevelDbXy.Log.Layout

/-!
# Assembling intact records

What the assembly makes of one fragment of each type, and from that, by induction
over the fragments of a record and over the records of a log, what it makes of
intact records and of one that is cut off.
-/

namespace LevelDbXy.Log

@[simp] theorem RecordType.toNat_toByte (type : RecordType) : type.toByte.toNat = type.toNat := by
  cases type <;> rfl

namespace Assembly

/-- Between two records: nothing is pending and the reader goes on. -/
structure Ready (state : Assembly) : Prop where
  pending : state.pending = none
  running : state.stopped = false

/-- At the start nothing is pending. -/
theorem start_ready (options : Options) : (start options).Ready := ⟨rfl, rfl⟩

/-- Fragments are accepted one after the other. -/
theorem run_append (options : Options) (state : Assembly) (front back : List Fragment) :
    state.run options (front ++ back) = (state.run options front).run options back :=
  List.foldl_append

/-- The first one is accepted first. -/
theorem run_cons (options : Options) (state : Assembly) (fragment : Fragment)
    (fragments : List Fragment) :
    state.run options (fragment :: fragments) =
      (state.accept options fragment).run options fragments := rfl

section Accept

variable {options : Options} {state : Assembly} {fragment : Fragment}

/-- A fragment that the reader does not drop for starting too early. -/
def Inside (options : Options) (fragment : Fragment) : Prop :=
  options.initial ≤ truncU64 fragment.offset

/-- A fragment that counts is fed to the state. -/
theorem accept_inside (running : state.stopped = false) (inside : Inside options fragment) :
    state.accept options fragment = state.resyncFeed options fragment.finish fragment.type.toNat
      (truncU64 fragment.offset) fragment.payload := by
  rw [accept, running, if_neg (Nat.not_lt.mpr inside)]
  rfl

/-- A full fragment between two records is returned. -/
theorem accept_full (ready : state.Ready) (inside : Inside options fragment)
    (type : fragment.type = RecordType.kFullType.toByte) :
    state.accept options fragment = { state with
      resyncing := false
      records := state.records ++ [(fragment.payload, truncU64 fragment.offset)] } := by
  rw [accept_inside ready.running inside, type]
  simp [resyncFeed, feed, reportPending, scratch, RecordType.toNat, ready.pending]

/-- A first fragment between two records begins a new one. -/
theorem accept_first (ready : state.Ready) (inside : Inside options fragment)
    (type : fragment.type = RecordType.kFirstType.toByte) :
    state.accept options fragment = { state with
      resyncing := false
      pending := some (truncU64 fragment.offset, fragment.payload) } := by
  rw [accept_inside ready.running inside, type]
  simp [resyncFeed, feed, reportPending, scratch, RecordType.toNat, ready.pending]

section Pending

variable {start : Nat} {scratch : Bytes} (running : state.stopped = false)
  (synced : state.resyncing = false) (pending : state.pending = some (start, scratch))

include running synced pending

/-- A middle fragment extends the pending record. -/
theorem accept_middle (inside : Inside options fragment)
    (type : fragment.type = RecordType.kMiddleType.toByte) :
    state.accept options fragment =
      { state with pending := some (start, scratch ++ fragment.payload) } := by
  rw [accept_inside running inside, type]
  simp [resyncFeed, feed, RecordType.toNat, synced, pending]

/-- A last fragment completes the pending record. -/
theorem accept_last (inside : Inside options fragment)
    (type : fragment.type = RecordType.kLastType.toByte) :
    state.accept options fragment = { state with
      pending := none
      records := state.records ++ [(scratch ++ fragment.payload, start)] } := by
  rw [accept_inside running inside, type]
  simp [resyncFeed, feed, RecordType.toNat, synced, pending]

/-- The rest of a record completes it. -/
theorem run_continuation {fragments : List Fragment} {data : Bytes}
    (rest : Continuation fragments data)
    (inside : ∀ fragment ∈ fragments, Inside options fragment) :
    state.run options fragments = { state with
      pending := none
      records := state.records ++ [(scratch ++ data, start)] } := by
  induction rest generalizing state scratch with
  | last fragment type =>
    exact accept_last running synced pending (inside fragment (List.mem_cons_self ..)) type
  | middle fragment type filled rest inductionHypothesis =>
    have completed := @inductionHypothesis
      { state with pending := some (start, scratch ++ fragment.payload) } _ running synced rfl
      fun other member => inside other (List.mem_cons_of_mem _ member)
    rw [List.append_assoc] at completed
    rw [run_cons, accept_middle running synced pending
      (inside fragment (List.mem_cons_self ..)) type]
    exact completed

/-- A part of the rest of a record leaves it pending. -/
theorem run_continuation_cut {front back : List Fragment} {data : Bytes}
    (rest : Continuation (front ++ back) data) (cut : back ≠ [])
    (inside : ∀ fragment ∈ front, Inside options fragment) :
    ∃ held, state.run options front = { state with pending := some held } := by
  induction front generalizing state scratch data with
  | nil => exact ⟨(start, scratch), by rw [← pending]; rfl⟩
  | cons fragment front inductionHypothesis =>
    obtain ⟨next, others, split⟩ := List.exists_cons_of_ne_nil
      (show front ++ back ≠ [] by simp [cut])
    rw [List.cons_append, split] at rest
    cases rest with
    | middle _ type filled rest =>
      rw [← split] at rest
      rw [run_cons, accept_middle running synced pending
        (inside fragment (List.mem_cons_self ..)) type]
      exact @inductionHypothesis { state with pending := some (start, scratch ++ fragment.payload) }
        _ running synced rfl _ rest fun other member => inside other (List.mem_cons_of_mem _ member)

end Pending

/-! ### Whole records -/

/-- An intact record is returned with the offset of its first header. -/
theorem run_whole {fragments : List Fragment} {data : Bytes} (ready : state.Ready)
    (whole : Whole fragments data) (inside : ∀ fragment ∈ fragments, Inside options fragment) :
    (state.run options fragments).Ready ∧
      (state.run options fragments).records =
        state.records ++ [(data, truncU64 ((fragments.head?.map Fragment.offset).getD 0))] ∧
      (state.run options fragments).reports = state.reports := by
  cases whole with
  | full fragment type =>
    have accepted := accept_full ready (inside fragment (List.mem_cons_self ..)) type
    rw [run_cons, accepted]
    exact ⟨⟨ready.pending, ready.running⟩, rfl, rfl⟩
  | first fragment type filled rest =>
    have completed := @run_continuation options { state with
        resyncing := false
        pending := some (truncU64 fragment.offset, fragment.payload) } _ _ ready.running rfl rfl _ _
      rest fun other member => inside other (List.mem_cons_of_mem _ member)
    rw [run_cons, accept_first ready (inside fragment (List.mem_cons_self ..)) type, completed]
    exact ⟨⟨rfl, ready.running⟩, rfl, rfl⟩

/-- A record that is cut off behind its first fragment stays pending. -/
theorem run_whole_cut {front back : List Fragment} {data : Bytes} (ready : state.Ready)
    (whole : Whole (front ++ back) data) (begun : front ≠ []) (cut : back ≠ [])
    (inside : ∀ fragment ∈ front, Inside options fragment) :
    ∃ held, state.run options front = { state with resyncing := false, pending := some held } := by
  cases front with
  | nil => exact absurd rfl begun
  | cons fragment front =>
    obtain ⟨next, others, split⟩ := List.exists_cons_of_ne_nil
      (show front ++ back ≠ [] by simp [cut])
    rw [List.cons_append, split] at whole
    cases whole with
    | first _ type filled rest =>
      rw [← split] at rest
      rw [run_cons, accept_first ready (inside fragment (List.mem_cons_self ..)) type]
      exact @run_continuation_cut options { state with
          resyncing := false
          pending := some (truncU64 fragment.offset, fragment.payload) } _ _ ready.running rfl rfl _
        _ _ rest cut fun other member => inside other (List.mem_cons_of_mem _ member)

/-- Intact records are returned in order, and nothing is reported. -/
theorem run_entries {entries : List Entry} (ready : state.Ready)
    (whole : ∀ entry ∈ entries, Whole entry.fragments entry.record)
    (inside : ∀ fragment ∈ allFragments entries, Inside options fragment) :
    (state.run options (allFragments entries)).Ready ∧
      (state.run options (allFragments entries)).records =
        state.records ++ entries.map (fun entry => (entry.record, truncU64 entry.start)) ∧
      (state.run options (allFragments entries)).reports = state.reports := by
  induction entries generalizing state with
  | nil => exact ⟨ready, by simp [allFragments, run], rfl⟩
  | cons entry entries inductionHypothesis =>
    rw [allFragments_cons] at inside ⊢
    rw [run_append]
    obtain ⟨readyNext, returned, reports⟩ := run_whole ready
      (whole entry (List.mem_cons_self ..))
      fun fragment member => inside fragment (List.mem_append_left _ member)
    obtain ⟨readyLast, others, reportsLast⟩ := inductionHypothesis readyNext
      (fun other member => whole other (List.mem_cons_of_mem _ member))
      fun fragment member => inside fragment (List.mem_append_right _ member)
    refine ⟨readyLast, ?_, reportsLast.trans reports⟩
    rw [others, returned, List.map_cons, List.append_assoc, List.singleton_append]
    rfl

/-! ### Resyncing -/

@[simp] theorem report_resyncing (pos bytes : Nat) (reason : String) :
    (state.report options pos bytes reason).resyncing = state.resyncing := by
  unfold report
  split_ifs <;> rfl

/-- What is fed does not change whether the reader is resyncing. -/
theorem feed_resyncing (pos type offset : Nat) (payload : Bytes) :
    (state.feed options pos type offset payload).resyncing = state.resyncing := by
  unfold feed reportPending
  cases state.pending <;> split_ifs <;> simp

/-- The reader never goes back to resyncing. -/
theorem accept_synced (synced : state.resyncing = false) :
    (state.accept options fragment).resyncing = false := by
  unfold accept resyncFeed
  rw [synced]
  split_ifs <;> simp_all [feed_resyncing]

/-- Nor does it after any number of fragments. -/
theorem run_synced (synced : state.resyncing = false) (fragments : List Fragment) :
    (state.run options fragments).resyncing = false := by
  induction fragments generalizing state with
  | nil => exact synced
  | cons fragment fragments inductionHypothesis => exact inductionHypothesis (accept_synced synced)

/-! ### Fragments without their record -/

/-- A fragment that starts too early ends the resyncing. -/
theorem accept_bad (ready : state.Ready) (early : ¬ Inside options fragment) :
    state.accept options fragment = { state with resyncing := false } := by
  rw [accept, ready.running, if_pos (Nat.not_le.mp early)]
  simp [resyncFeed, feed, RecordType.toNat, kBadRecord, kEof, kMaxRecordType, ready.pending,
    ready.running]

/-- What remains of a record whose start was not read is reported. -/
theorem accept_orphan (ready : state.Ready) (synced : state.resyncing = false)
    (inside : Inside options fragment) (continues : fragment.Continues) :
    ∃ reason, state.accept options fragment =
      state.report options fragment.finish fragment.payload.length reason := by
  rw [accept_inside ready.running inside]
  obtain ⟨resyncing, pending, stopped, records, reports⟩ := state
  obtain rfl : resyncing = false := synced
  obtain rfl : pending = none := ready.pending
  rcases continues with type | type <;> rw [type]
  · exact ⟨"missing start of fragmented record(1)", by simp [resyncFeed, feed, RecordType.toNat]⟩
  · exact ⟨"missing start of fragmented record(2)", by simp [resyncFeed, feed, RecordType.toNat]⟩

/-- A report changes nothing but the reports. -/
theorem report_frame (state : Assembly) (pos bytes : Nat) (reason : String) :
    ∃ extra, state.report options pos bytes reason =
        { state with reports := state.reports ++ extra } ∧
      (options.reporting = true → options.initial ≤ subU64 (truncU64 pos) bytes → extra ≠ []) := by
  unfold report
  split_ifs with made
  · exact ⟨_, rfl, fun _ _ => List.cons_ne_nil _ _⟩
  · refine ⟨[], by simp, fun reporting behind => ?_⟩
    simp [reporting, behind] at made

/-- The position of a report on a fragment. -/
theorem subU64_finish (fragment : Fragment) :
    subU64 (truncU64 fragment.finish) fragment.payload.length =
      truncU64 (fragment.offset + kHeaderSize) := by
  rw [Fragment.finish, subU64_add]

/-- The remains of a record are reported one by one, and change nothing else. -/
theorem run_orphans {fragments : List Fragment} (ready : state.Ready)
    (synced : state.resyncing = false) (continues : ∀ fragment ∈ fragments, fragment.Continues)
    (inside : ∀ fragment ∈ fragments, Inside options fragment) :
    ∃ extra, state.run options fragments = { state with reports := state.reports ++ extra } ∧
      (options.reporting = true → fragments ≠ [] →
        (∀ fragment ∈ fragments, options.initial ≤ truncU64 (fragment.offset + kHeaderSize)) →
        extra ≠ []) := by
  induction fragments generalizing state with
  | nil => exact ⟨[], by simp [run], by simp⟩
  | cons fragment fragments inductionHypothesis =>
    obtain ⟨reason, accepted⟩ := accept_orphan ready synced
      (inside fragment (List.mem_cons_self ..)) (continues fragment (List.mem_cons_self ..))
    obtain ⟨first, reported, made⟩ := @report_frame options state fragment.finish
      fragment.payload.length reason
    obtain ⟨later, ran, -⟩ := @inductionHypothesis { state with reports := state.reports ++ first }
      ⟨ready.pending, ready.running⟩ synced
      (fun other member => continues other (List.mem_cons_of_mem _ member))
      fun other member => inside other (List.mem_cons_of_mem _ member)
    refine ⟨first ++ later, ?_, fun reporting _ behind => ?_⟩
    · rw [run_cons, accepted, reported, ran]
      simp
    · rw [subU64_finish] at made
      exact List.append_ne_nil_of_left_ne_nil
        (made reporting (behind fragment (List.mem_cons_self ..))) later

/-- While resyncing, the rest of a record is dropped in silence. -/
theorem run_resyncing {fragments : List Fragment} {data : Bytes} (ready : state.Ready)
    (resyncing : state.resyncing = true) (rest : Continuation fragments data)
    (inside : ∀ fragment ∈ fragments, Inside options fragment) :
    state.run options fragments = { state with resyncing := false } := by
  induction rest with
  | last fragment type =>
    rw [run_cons, accept_inside ready.running (inside fragment (List.mem_cons_self ..)), type]
    simp [run, resyncFeed, RecordType.toNat, resyncing]
  | middle fragment type filled rest inductionHypothesis =>
    have same : state.accept options fragment = state := by
      rw [accept_inside ready.running (inside fragment (List.mem_cons_self ..)), type]
      simp [resyncFeed, RecordType.toNat, resyncing]
    rw [run_cons, same]
    exact inductionHypothesis fun other member => inside other (List.mem_cons_of_mem _ member)

end Accept

end Assembly

end LevelDbXy.Log
