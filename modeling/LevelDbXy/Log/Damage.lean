import LevelDbXy.Log.Records
import LevelDbXy.Log.Writer

/-!
# Damaged type bytes

The reader verifies no checksum, so a damaged type byte reaches the `switch` of
`ReadRecord`. An unknown type is reported, and costs the record it stands in. But the
reader's own results `kEof` and `kBadRecord` are types of this kind too: a record
with the first ends the log, and one with the second may vanish unreported.
-/

namespace LevelDbXy.Log

open Assembly

/-- A physical record with its type byte overwritten. -/
def Fragment.retype (fragment : Fragment) (type : UInt8) : Fragment := { fragment with type }

/-- The file offset of the type byte. -/
def Fragment.typeOffset (fragment : Fragment) : Nat := fragment.offset + 6

/-- The type is the byte 6 of a physical record. -/
theorem Fragment.bytes_retype (fragment : Fragment) (type : UInt8) :
    (fragment.retype type).bytes = fragment.bytes.set 6 type := by
  rw [bytes, bytes, List.set_append_left _ _ (by simp)]
  rfl

/-! ### The damaged file -/

/-- A changed type does not move the end. -/
theorem endOf_retype (pos : Nat) (front back : List Fragment) (fragment : Fragment)
    (type : UInt8) :
    endOf pos (front ++ fragment.retype type :: back) = endOf pos (front ++ fragment :: back) := by
  rw [endOf_append, endOf_append]
  rfl

/-- Nor does it move any physical record. -/
theorem placed_retype {pos : Nat} {front back : List Fragment} {fragment : Fragment}
    (placed : Placed pos (front ++ fragment :: back)) (type : UInt8) :
    Placed pos (front ++ fragment.retype type :: back) := by
  obtain ⟨placedFront, starts, fits, placedBack⟩ := placed_append.mp placed
  exact placed_append.mpr ⟨placedFront, starts, fits, placedBack⟩

/-- A type that is taken for an end or for a bad record is not zero. -/
theorem retype_ne_zero {front back : List Fragment} {fragment : Fragment} {type : UInt8}
    (damage : kEof ≤ type.toNat) (nonzero : ∀ other ∈ front ++ fragment :: back, other.type ≠ 0) :
    ∀ other ∈ front ++ fragment.retype type :: back, other.type ≠ 0 := by
  intro other member
  rcases List.mem_append.mp member with inFront | atOrBehind
  · exact nonzero other (List.mem_append_left _ inFront)
  · rcases List.mem_cons.mp atOrBehind with rfl | inBack
    · intro zero
      rw [show type = 0 from zero] at damage
      exact absurd damage (by decide)
    · exact nonzero other (List.mem_append_right _ (List.mem_cons_of_mem _ inBack))

/-- Overwriting a type byte gives the bytes of the overwritten record. -/
theorem encode_retype {front back : List Fragment} {fragment : Fragment}
    (placed : Placed 0 (front ++ fragment :: back)) (type : UInt8) :
    (encode 0 (front ++ fragment :: back)).set fragment.typeOffset type =
      encode 0 (front ++ fragment.retype type :: back) := by
  obtain ⟨placedFront, starts, -⟩ := placed_append.mp placed
  have size := add_length_encode placedFront
  have ahead := le_headerOffset (endOf 0 front)
  -- the trailer in front of the record, if there is one, ends at its header
  have behindFront : fragment.typeOffset - (encode 0 front).length -
      (List.replicate (fragment.offset - endOf 0 front) (0 : UInt8)).length = 6 := by
    rw [List.length_replicate, Fragment.typeOffset]
    omega
  rw [encode_append, encode_append, encode, encode,
    List.set_append_right _ _ (by rw [Fragment.typeOffset]; omega),
    List.set_append_right _ _ (by rw [List.length_replicate, Fragment.typeOffset]; omega),
    behindFront, List.set_append_left _ _ (by rw [Fragment.length_bytes]; omega),
    ← Fragment.bytes_retype]
  rfl

/-! ### What the assembly makes of it -/

/-- A reader of the whole log that reports. -/
def wholeLog : Options := ⟨true, 0⟩

/-- From offset 0 every physical record is read. -/
theorem inside_wholeLog (fragment : Fragment) : Inside wholeLog fragment := Nat.zero_le _

/-- Every report of such a reader is made. -/
theorem report_wholeLog (state : Assembly) (pos bytes : Nat) (reason : String) :
    state.report wholeLog pos bytes reason =
      { state with reports := state.reports ++ [(bytes, .corruption reason)] } := by
  simp [report, wholeLog]

section Damaged

variable {state : Assembly} {fragment : Fragment} {type : UInt8}

/-- A record that seems to be the end of the file stops the reader. -/
theorem accept_kEof (running : state.stopped = false) (damage : type.toNat = kEof) :
    state.accept wholeLog (fragment.retype type) =
      { state with resyncing := false, stopped := true } := by
  rw [accept_inside running (inside_wholeLog _)]
  simp [Fragment.retype, damage, resyncFeed, feed, RecordType.toNat, kEof, kMaxRecordType]

/-- A record that seems to be bad is not reported between two records. -/
theorem accept_kBadRecord (ready : state.Ready) (synced : state.resyncing = false)
    (damage : type.toNat = kBadRecord) :
    state.accept wholeLog (fragment.retype type) = state := by
  rw [accept_inside ready.running (inside_wholeLog _)]
  obtain ⟨resyncing, pending, stopped, records, reports⟩ := state
  obtain rfl : resyncing = false := synced
  obtain rfl : pending = none := ready.pending
  simp [Fragment.retype, damage, resyncFeed, feed, RecordType.toNat, kBadRecord, kEof,
    kMaxRecordType]

/-- A record that seems to be bad is reported inside a record. -/
theorem accept_kBadRecord_pending {held : Nat × Bytes} (running : state.stopped = false)
    (synced : state.resyncing = false) (holding : state.pending = some held)
    (damage : type.toNat = kBadRecord) :
    ∃ report, state.accept wholeLog (fragment.retype type) =
      { state with pending := none, reports := state.reports ++ [report] } := by
  rw [accept_inside running (inside_wholeLog _)]
  obtain ⟨resyncing, pending, stopped, records, reports⟩ := state
  obtain rfl : resyncing = false := synced
  obtain rfl : pending = some held := holding
  refine ⟨(held.2.length, .corruption "error in middle of record"), ?_⟩
  simp [Fragment.retype, damage, resyncFeed, feed, RecordType.toNat, kBadRecord, kEof,
    kMaxRecordType, report_wholeLog]

/-- A record of an unknown type is reported everywhere. -/
theorem accept_unknown (running : state.stopped = false) (synced : state.resyncing = false)
    (damage : kBadRecord < type.toNat) :
    ∃ report, state.accept wholeLog (fragment.retype type) =
      { state with pending := none, reports := state.reports ++ [report] } := by
  rw [accept_inside running (inside_wholeLog _)]
  obtain ⟨resyncing, pending, stopped, records, reports⟩ := state
  obtain rfl : resyncing = false := synced
  have unknown : ∀ known, known ≤ kBadRecord → type.toNat ≠ known := by
    intro known low
    omega
  have other := fun known : RecordType => unknown known.toNat (by cases known <;> decide)
  exact ⟨_, by
    simp only [Fragment.retype, resyncFeed, feed, other, unknown kEof (by decide),
      unknown kBadRecord (Nat.le_refl _), and_false, if_false, report_wholeLog]
    rfl⟩

/-- What a damaged type byte does where it stands: nothing is left of the record before
it, and it is reported unless it seems to be a bad record and stands first. -/
theorem accept_damaged {front back : List Fragment} {data : Bytes} (ready : state.Ready)
    (synced : state.resyncing = false) (whole : Whole (front ++ fragment :: back) data)
    (damage : kBadRecord ≤ type.toNat) :
    ∃ extra, (state.run wholeLog front).accept wholeLog (fragment.retype type) =
        { state with reports := state.reports ++ extra } ∧
      (extra ≠ [] ↔ kBadRecord < type.toNat ∨ front ≠ []) := by
  obtain ⟨resyncing, pending, stopped, records, reports⟩ := state
  obtain rfl : resyncing = false := synced
  obtain rfl : pending = none := ready.pending
  obtain rfl : stopped = false := ready.running
  by_cases begun : front = []
  · rw [begun]
    rcases Nat.lt_or_eq_of_le damage with unknown | bad
    · obtain ⟨report, accepted⟩ :=
        @accept_unknown ⟨false, none, false, records, reports⟩ fragment type rfl rfl unknown
      exact ⟨[report], accepted, by simp [unknown]⟩
    · have accepted := @accept_kBadRecord _ fragment type ready rfl bad.symm
      exact ⟨[], accepted.trans (by simp), by simp [bad]⟩
  · obtain ⟨held, ran⟩ := @run_whole_cut wholeLog _ _ _ _ ready whole begun (by simp)
      fun other _ => inside_wholeLog other
    rw [ran]
    rcases Nat.lt_or_eq_of_le damage with unknown | bad
    · obtain ⟨report, accepted⟩ :=
        @accept_unknown ⟨false, some held, false, records, reports⟩ fragment type rfl rfl unknown
      exact ⟨[report], accepted, by simp [unknown]⟩
    · obtain ⟨report, accepted⟩ := @accept_kBadRecord_pending
        ⟨false, some held, false, records, reports⟩ fragment type held rfl rfl rfl bad.symm
      exact ⟨[report], accepted, by simp [begun]⟩

/-- A damaged record is lost as a whole, and nothing else is. Its loss stays unreported only
if it is a single fragment that seems to be bad. -/
theorem run_damaged {front back : List Fragment} {data : Bytes} (ready : state.Ready)
    (synced : state.resyncing = false) (whole : Whole (front ++ fragment :: back) data)
    (damage : kBadRecord ≤ type.toNat) :
    ∃ extra, state.run wholeLog (front ++ fragment.retype type :: back) =
        { state with reports := state.reports ++ extra } ∧
      (extra ≠ [] ↔ kBadRecord < type.toNat ∨
        fragment.type ≠ RecordType.kFullType.toByte) := by
  obtain ⟨here, accepted, madeHere⟩ := accept_damaged ready synced whole damage
  have continues : ∀ other ∈ back, other.Continues := by
    intro other member
    cases front with
    | nil => exact whole.continues other member
    | cons first front =>
      exact whole.continues other (List.mem_append_right _ (List.mem_cons_of_mem _ member))
  obtain ⟨later, ran, madeLater⟩ := @run_orphans wholeLog
    { state with reports := state.reports ++ here } back ⟨ready.pending, ready.running⟩ synced
    continues fun other _ => inside_wholeLog other
  refine ⟨here ++ later, ?_, ?_⟩
  · rw [run_append, run_cons, accepted, ran, List.append_assoc]
  · have silent : back = [] → later = [] := by
      rintro rfl
      exact (List.self_eq_append_right.mp (congrArg Assembly.reports ran))
    have reported : later ≠ [] ↔ back ≠ [] :=
      ⟨fun some_ none => some_ (silent none),
        fun some_ => madeLater rfl some_ fun _ _ => Nat.zero_le _⟩
    rw [ne_eq, List.append_eq_nil_iff, not_and_or, ← ne_eq, ← ne_eq, madeHere, reported, or_assoc,
      ne_eq (fragment.type), whole.full_iff, not_and_or]

end Damaged

/-! ### Reading a damaged log -/

section Log

variable {before after : List Entry} {front back : List Fragment} {fragment : Fragment}
  {data : Bytes} {type : UInt8}
  (wholeBefore : ∀ entry ∈ before, Whole entry.fragments entry.record)
  (wholeAfter : ∀ entry ∈ after, Whole entry.fragments entry.record)
  (whole : Whole (front ++ fragment :: back) data)

include wholeBefore whole

/-- A record that seems to be the end of the file hides everything behind it. -/
theorem run_log_kEof (damage : type.toNat = kEof) (others : List Fragment) :
    ((start wholeLog).run wholeLog
      (allFragments before ++ (front ++ fragment.retype type :: others))).reports = [] := by
  obtain ⟨ready, -, silent⟩ := run_entries (start_ready wholeLog) wholeBefore
    fun other _ => inside_wholeLog other
  rw [run_append, run_append, run_cons]
  generalize (start wholeLog).run wholeLog (allFragments before) = state at ready silent
  have running : (state.run wholeLog front).stopped = false ∧
      (state.run wholeLog front).reports = [] := by
    by_cases begun : front = []
    · rw [begun]
      exact ⟨ready.running, silent⟩
    · obtain ⟨held, ran⟩ := @run_whole_cut wholeLog _ _ _ _ ready whole begun (by simp)
        fun other _ => inside_wholeLog other
      rw [ran]
      exact ⟨ready.running, silent⟩
  rw [accept_kEof running.1 damage, run_stopped rfl]
  exact running.2

include wholeAfter

/-- Any other damage costs exactly the record it stands in. -/
theorem run_log_damaged (damage : kBadRecord ≤ type.toNat) :
    ((start wholeLog).run wholeLog (allFragments before ++
        (front ++ fragment.retype type :: back) ++ allFragments after)).records =
      (before ++ after).map (fun entry => (entry.record, truncU64 entry.start)) ∧
    (((start wholeLog).run wholeLog (allFragments before ++
        (front ++ fragment.retype type :: back) ++ allFragments after)).reports ≠ [] ↔
      kBadRecord < type.toNat ∨ fragment.type ≠ RecordType.kFullType.toByte) := by
  obtain ⟨ready, returned, silent⟩ := run_entries (start_ready wholeLog) wholeBefore
    fun other _ => inside_wholeLog other
  have synced : ((start wholeLog).run wholeLog (allFragments before)).resyncing = false :=
    run_synced rfl _
  rw [run_append, run_append]
  generalize (start wholeLog).run wholeLog (allFragments before) = state at *
  obtain ⟨extra, ran, made⟩ := run_damaged ready synced whole damage
  obtain ⟨-, others, silentLater⟩ := @run_entries wholeLog
    { state with reports := state.reports ++ extra } after ⟨ready.pending, ready.running⟩ wholeAfter
    fun other _ => inside_wholeLog other
  rw [ran, others, silentLater]
  refine ⟨?_, ?_⟩
  · simp [returned, start]
  · rw [← made, silent]
    rfl

/-- The other records are returned and a corruption is reported exactly if the type is
not taken for one of the reader's own results. -/
theorem run_log_iff (damage : kEof ≤ type.toNat) :
    (((start wholeLog).run wholeLog (allFragments before ++
          (front ++ fragment.retype type :: (back ++ allFragments after)))).records.map Prod.fst =
        (before ++ after).map Entry.record ∧
      ((start wholeLog).run wholeLog (allFragments before ++
          (front ++ fragment.retype type :: (back ++ allFragments after)))).reports ≠ []) ↔
      kBadRecord < type.toNat ∨
        type.toNat = kBadRecord ∧ fragment.type ≠ RecordType.kFullType.toByte := by
  rcases Nat.lt_or_eq_of_le damage with other | eof
  · have atLeast : kBadRecord ≤ type.toNat := other
    have grouped : allFragments before ++
          (front ++ fragment.retype type :: (back ++ allFragments after)) =
        allFragments before ++ (front ++ fragment.retype type :: back) ++ allFragments after := by
      simp
    obtain ⟨returned, made⟩ := run_log_damaged wholeBefore wholeAfter whole atLeast
    rw [grouped, returned, made, List.map_map]
    refine (and_iff_right rfl).trans (or_congr_right' fun known => (and_iff_right ?_).symm)
    omega
  · rw [run_log_kEof wholeBefore whole eof.symm]
    refine iff_of_false (fun holds => holds.2 rfl) ?_
    simp only [← eof, kEof, kBadRecord]
    omega

end Log

/-- Reading a log with a damaged type byte. -/
theorem readAll_damaged {records : List Bytes} {before after : List Entry} {entry : Entry}
    (split : layout 0 records = before ++ entry :: after) {fragment : Fragment}
    (member : fragment ∈ entry.fragments) {type : UInt8} (damage : kEof ≤ type.toNat) {fuel : Nat}
    (enough : (image records).length + 2 ≤ fuel) :
    ∃ returned last, (openReader ((image records).set fragment.typeOffset type)
        wholeLog).readAll fuel = some (returned, last) ∧
      ((returned.map Prod.fst = (before ++ after).map Entry.record ∧ last.reports ≠ []) ↔
        kBadRecord < type.toNat ∨
          type.toNat = kBadRecord ∧ fragment.type ≠ RecordType.kFullType.toByte) := by
  have wholeOf : ∀ other ∈ before ++ entry :: after, Whole other.fragments other.record :=
    fun other inLog => whole_of_mem_layout (split ▸ inLog)
  have whole := wholeOf entry (by simp)
  have wholeBefore := fun other inBefore => wholeOf other (List.mem_append_left _ inBefore)
  have wholeAfter := fun other inAfter =>
    wholeOf other (List.mem_append_right _ (List.mem_cons_of_mem _ inAfter))
  obtain ⟨front, back, shape⟩ := List.append_of_mem member
  rw [shape] at whole
  have intact : allFragments (layout 0 records) =
      allFragments before ++ front ++ fragment :: (back ++ allFragments after) := by
    rw [split, allFragments_append, allFragments_cons, shape]
    simp
  have placed := placed_layout 0 records
  have nonzero := fun other => @type_ne_zero_of_mem_layout 0 records other
  rw [intact] at placed nonzero
  have bytes := encode_retype placed type
  rw [← intact] at bytes
  have start : firstBlock wholeLog.initial = 0 := by decide
  obtain ⟨last, ran, reports⟩ := @readAll_run wholeLog
    ((image records).set fragment.typeOffset type) (allFragments before ++ front ++
      fragment.retype type :: (back ++ allFragments after)) [] (by decide)
    (by rw [start]; exact placed_retype placed type)
    (by rw [start, List.drop_zero, List.append_nil]; exact bytes)
    (fun other inDamaged both => retype_ne_zero damage nonzero other inDamaged both.1)
    (by
      rw [start]
      refine Reader.endsAt_of_length_le ?_
      rw [endOf_retype, ← intact, endOf_layout, List.length_set]) fuel
    (by rw [List.length_set]; exact enough)
  refine ⟨_, last, ran, ?_⟩
  rw [reports, List.append_assoc]
  exact run_log_iff wholeBefore wholeAfter whole damage

/-- The type byte of any physical record of a log overwritten with a type that is not one
of the format: all records but the one it belongs to are returned and a corruption is
reported, exactly if the type is above `kBadRecord`, or is `kBadRecord` and the record has
more than one fragment. -/
theorem damaged_type_loses_own_record_iff (sessions : List (List Bytes))
    {before after : List Entry} {entry : Entry}
    (split : layout 0 sessions.flatten = before ++ entry :: after) {fragment : Fragment}
    (member : fragment ∈ entry.fragments) (type : UInt8) (unknown : 5 ≤ type.toNat) (fuel : Nat)
    (enough : (writeLog (fun _ => .ok) sessions).2.contents.length + 2 ≤ fuel) :
    (writeLog (fun _ => .ok) sessions).2.contents =
        encode 0 (allFragments (layout 0 sessions.flatten)) ∧
      ∃ returned last, (openReader ((writeLog (fun _ => .ok) sessions).2.contents.set
          (fragment.offset + 6) type) ⟨true, 0⟩).readAll fuel = some (returned, last) ∧
        ((returned.map Prod.fst = (before ++ after).map Entry.record ∧ last.reports ≠ []) ↔
          7 ≤ type.toNat ∨
            type.toNat = 6 ∧ fragment.type ≠ RecordType.kFullType.toByte) := by
  rw [contents_writeLog] at *
  exact ⟨rfl, readAll_damaged split member unknown enough⟩

/-- The first of two records damaged with an unknown type. -/
theorem damaged_type_loses_own_record_iff_first_record :
    ∃ returned last, (openReader ((writeLog (fun _ => .ok) [[[1], [2, 3]]]).2.contents.set 6 7)
        ⟨true, 0⟩).readAll 30 = some (returned, last) ∧
      returned.map Prod.fst = [[2, 3]] ∧ last.reports ≠ [] := by
  have size : (writeLog (fun _ => .ok) [[[1], [2, 3]]]).2.contents.length = 17 := by
    rw [contents_writeLog]
    exact length_image_pair
  obtain ⟨-, returned, last, ran, exact_⟩ :=
    @damaged_type_loses_own_record_iff [[[1], [2, 3]]] [] [⟨[2, 3], [⟨8, 1, [2, 3]⟩]⟩]
      ⟨[1], [⟨0, 1, [1]⟩]⟩ layout_pair ⟨0, 1, [1]⟩ (List.mem_singleton.mpr rfl) 7 (by decide) 30
      (by rw [size]; decide)
  exact ⟨returned, last, ran, exact_.mpr (Or.inl (by decide))⟩

/-- The first of two records damaged with the value of `kEof`: the second one is not
returned either, and nothing is reported. -/
theorem damaged_type_hides_log :
    ∃ last, (openReader ((writeLog (fun _ => .ok) [[[1], [2, 3]]]).2.contents.set 6 5)
        ⟨true, 0⟩).readAll 30 = some ([], last) ∧ last.reports = [] := by
  rw [contents_writeLog, image]
  change ∃ last, (openReader ((encode 0 (allFragments (layout 0 [[1], [2, 3]]))).set 6 5)
    ⟨true, 0⟩).readAll 30 = some ([], last) ∧ last.reports = []
  rw [layout_pair]
  exact ⟨_, rfl, rfl⟩

end LevelDbXy.Log
