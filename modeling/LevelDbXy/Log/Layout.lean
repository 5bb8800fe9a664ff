import LevelDbXy.Log.Format

/-!
# The layout of a log

Which physical records a list of logical records is cut into, and where they stand. A
logical record starts with a full or a first fragment; every fragment that is not
the final one fills its block, so a middle or last fragment starts a block.
-/

namespace LevelDbXy.Log

/-- The room for a payload behind the next header. -/
def room (pos : Nat) : Nat := kBlockSize - headerOffset pos % kBlockSize - kHeaderSize

/-- The position behind a fragment that takes all the room there is. -/
def filled (pos : Nat) : Nat := headerOffset pos + kHeaderSize + room pos

/-- The room depends on the position in the block only. -/
theorem room_congr {pos other : Nat} (same : pos % kBlockSize = other % kBlockSize) :
    room pos = room other := by
  have place := headerOffset_cases pos
  have otherPlace := headerOffset_cases other
  simp only [room, kBlockSize, kHeaderSize] at *
  omega

/-- A block is filled up to its end. -/
theorem filled_mod (pos : Nat) : filled pos % kBlockSize = 0 := by
  have fits := headerOffset_mod_le pos
  simp only [filled, room, kBlockSize, kHeaderSize] at *
  omega

/-- What is left to write, counted so that it also decreases over a fragment
without payload, which can only stand at the end of a block. -/
def unwritten (pos length : Nat) : Nat := 2 * length + if pos % kBlockSize = 0 then 0 else 1

/-- What is left to write depends on the place in the block. -/
theorem unwritten_congr {pos other : Nat} (same : pos % kBlockSize = other % kBlockSize)
    (length : Nat) : unwritten pos length = unwritten other length := by
  rw [unwritten, same, unwritten]

/-- A filled block leaves less to write. -/
theorem unwritten_filled_lt {pos length : Nat} (long : room pos < length) :
    unwritten (filled pos) (length - room pos) < unwritten pos length := by
  have place := headerOffset_cases pos
  rw [unwritten, if_pos (filled_mod pos), unwritten]
  by_cases start : pos % kBlockSize = 0
  · rw [if_pos start]
    simp only [room, kBlockSize, kHeaderSize] at *
    omega
  · rw [if_neg start]
    simp only [room, kBlockSize, kHeaderSize] at *
    omega

/-- The fragments of a record, or of what is left of it, written at `pos`. -/
def fragments (begin : Bool) (pos : Nat) (data : Bytes) : List Fragment :=
  if room pos < data.length then
    ⟨headerOffset pos, (fragmentType begin false).toByte, data.take (room pos)⟩ ::
      fragments false (filled pos) (data.drop (room pos))
  else [⟨headerOffset pos, (fragmentType begin true).toByte, data⟩]
termination_by unwritten pos data.length
decreasing_by
  rename_i long
  rw [List.length_drop]
  exact unwritten_filled_lt long

/-- Induction over the fragments of a record. -/
theorem fragments_induction {motive : Nat → Bytes → Prop}
    (step : ∀ pos data, (room pos < data.length →
      motive (filled pos) (data.drop (room pos))) → motive pos data)
    (pos : Nat) (data : Bytes) : motive pos data := by
  induction size : unwritten pos data.length using Nat.strongRecOn generalizing pos data with
  | ind size inductionHypothesis =>
    refine step pos data fun long => inductionHypothesis _ ?_ _ _ rfl
    rw [← size, List.length_drop]
    exact unwritten_filled_lt long

/-- A logical record and its fragments. -/
structure Entry where
  record : Bytes
  fragments : List Fragment
  deriving DecidableEq, Repr

/-- The entries of a list of records written from `pos` on. -/
def layout (pos : Nat) : List Bytes → List Entry
  | [] => []
  | record :: records =>
    ⟨record, fragments true pos record⟩ :: layout (endOf pos (fragments true pos record)) records

/-- All physical records of a list of entries. -/
def allFragments (entries : List Entry) : List Fragment := entries.flatMap Entry.fragments

/-- The bytes of a log of these records. -/
def image (records : List Bytes) : Bytes := encode 0 (allFragments (layout 0 records))

/-- The file offset of the first header of an entry. -/
def Entry.start (entry : Entry) : Nat := (entry.fragments.head?.map Fragment.offset).getD 0

/-- The file offset behind the last byte of an entry. -/
def Entry.finish (entry : Entry) : Nat := (entry.fragments.getLast?.map Fragment.finish).getD 0

/-! ### The fragments of one record -/

/-- A record that fits into the block is one fragment. -/
theorem fragments_of_le (begin : Bool) {pos : Nat} {data : Bytes} (short : data.length ≤ room pos) :
    fragments begin pos data = [⟨headerOffset pos, (fragmentType begin true).toByte, data⟩] := by
  rw [fragments, if_neg (Nat.not_lt_of_le short)]

/-- A longer one fills the block and goes on behind it. -/
theorem fragments_of_lt (begin : Bool) {pos : Nat} {data : Bytes} (long : room pos < data.length) :
    fragments begin pos data =
      ⟨headerOffset pos, (fragmentType begin false).toByte, data.take (room pos)⟩ ::
        fragments false (filled pos) (data.drop (room pos)) := by
  rw [fragments, if_pos long]

/-- What follows a first fragment: middle fragments and a last one. All but the
last fill their block. -/
inductive Continuation : List Fragment → Bytes → Prop where
  | last (fragment : Fragment) (type : fragment.type = RecordType.kLastType.toByte) :
      Continuation [fragment] fragment.payload
  | middle (fragment : Fragment) {others : List Fragment} {data : Bytes}
      (type : fragment.type = RecordType.kMiddleType.toByte)
      (filled : fragment.finish % kBlockSize = 0) (rest : Continuation others data) :
      Continuation (fragment :: others) (fragment.payload ++ data)

/-- The fragments of one logical record. -/
inductive Whole : List Fragment → Bytes → Prop where
  | full (fragment : Fragment) (type : fragment.type = RecordType.kFullType.toByte) :
      Whole [fragment] fragment.payload
  | first (fragment : Fragment) {others : List Fragment} {data : Bytes}
      (type : fragment.type = RecordType.kFirstType.toByte)
      (filled : fragment.finish % kBlockSize = 0) (rest : Continuation others data) :
      Whole (fragment :: others) (fragment.payload ++ data)

/-- A fragment that fills its block ends with it. -/
theorem finish_take_room (type : UInt8) {pos : Nat} {data : Bytes}
    (long : room pos < data.length) :
    (Fragment.mk (headerOffset pos) type (data.take (room pos))).finish = filled pos := by
  rw [Fragment.finish, List.length_take, Nat.min_eq_left (Nat.le_of_lt long), filled]

/-- After its first fragment a record is continued. -/
theorem fragments_continuation (pos : Nat) (data : Bytes) :
    Continuation (fragments false pos data) data := by
  induction pos, data using fragments_induction with
  | step pos data inductionHypothesis =>
    rcases Nat.lt_or_ge (room pos) data.length with long | short
    · have joined := Continuation.middle
        ⟨headerOffset pos, RecordType.kMiddleType.toByte, data.take (room pos)⟩ rfl (by
          rw [finish_take_room _ long]
          exact filled_mod pos) (inductionHypothesis long)
      rw [List.take_append_drop] at joined
      rw [fragments_of_lt false long]
      exact joined
    · rw [fragments_of_le false short]
      exact .last ⟨headerOffset pos, RecordType.kLastType.toByte, data⟩ rfl

/-- A logical record is cut into fragments that join to it. -/
theorem fragments_whole (pos : Nat) (data : Bytes) : Whole (fragments true pos data) data := by
  rcases Nat.lt_or_ge (room pos) data.length with long | short
  · have joined := Whole.first
      ⟨headerOffset pos, RecordType.kFirstType.toByte, data.take (room pos)⟩ rfl (by
        rw [finish_take_room _ long]
        exact filled_mod pos) (fragments_continuation (filled pos) (data.drop (room pos)))
    rw [List.take_append_drop] at joined
    rw [fragments_of_lt true long]
    exact joined
  · rw [fragments_of_le true short]
    exact .full ⟨headerOffset pos, RecordType.kFullType.toByte, data⟩ rfl

/-- The fragments of a record are placed from where it begins. -/
theorem placed_fragments (begin : Bool) (pos : Nat) (data : Bytes) :
    Placed pos (fragments begin pos data) := by
  induction pos, data using fragments_induction generalizing begin with
  | step pos data inductionHypothesis =>
    have fits := headerOffset_mod_le pos
    rcases Nat.lt_or_ge (room pos) data.length with long | short
    · rw [fragments_of_lt begin long]
      refine ⟨rfl, ?_, ?_⟩
      · simp only [List.length_take, room]
        omega
      · rw [finish_take_room _ long]
        exact inductionHypothesis long false
    · rw [fragments_of_le begin short]
      refine ⟨rfl, ?_, trivial⟩
      simp only [room] at short ⊢
      omega

/-! ### The entries of a log -/

/-- The fragments of the first record come first. -/
theorem allFragments_cons (entry : Entry) (entries : List Entry) :
    allFragments (entry :: entries) = entry.fragments ++ allFragments entries := rfl

/-- The fragments of all records are placed. -/
theorem placed_layout (pos : Nat) (records : List Bytes) :
    Placed pos (allFragments (layout pos records)) := by
  induction records generalizing pos with
  | nil => trivial
  | cons record records inductionHypothesis =>
    rw [layout, allFragments_cons]
    exact placed_append.mpr ⟨placed_fragments true pos record, inductionHypothesis _⟩

/-- Further records are laid out behind. -/
theorem layout_append (pos : Nat) (front back : List Bytes) :
    layout pos (front ++ back) =
      layout pos front ++ layout (endOf pos (allFragments (layout pos front))) back := by
  induction front generalizing pos with
  | nil => rfl
  | cons record front inductionHypothesis =>
    rw [List.cons_append, layout, layout, inductionHypothesis, allFragments_cons, endOf_append]
    rfl

/-- The entries are those of the records, in order. -/
theorem map_record_layout (pos : Nat) (records : List Bytes) :
    (layout pos records).map Entry.record = records := by
  induction records generalizing pos with
  | nil => rfl
  | cons record records inductionHypothesis => simp [layout, inductionHypothesis]

/-- The fragments of a record in a log are whole. -/
theorem whole_of_mem_layout {pos : Nat} {records : List Bytes} {entry : Entry}
    (member : entry ∈ layout pos records) : Whole entry.fragments entry.record := by
  induction records generalizing pos with
  | nil => cases member
  | cons record records inductionHypothesis =>
    rcases List.mem_cons.mp member with rfl | later
    · exact fragments_whole pos record
    · exact inductionHypothesis later

/-- A middle or last fragment. -/
def Fragment.Continues (fragment : Fragment) : Prop :=
  fragment.type = RecordType.kMiddleType.toByte ∨ fragment.type = RecordType.kLastType.toByte

/-- All of them continue a record. -/
theorem Continuation.continues {others : List Fragment} {data : Bytes}
    (rest : Continuation others data) : ∀ fragment ∈ others, fragment.Continues := by
  induction rest with
  | last fragment type =>
    intro other member
    rw [List.mem_singleton.mp member]
    exact Or.inr type
  | middle fragment type _ _ inductionHypothesis =>
    intro other member
    rcases List.mem_cons.mp member with rfl | later
    · exact Or.inl type
    · exact inductionHypothesis other later

/-- There is a last one. -/
theorem Continuation.ne_nil {others : List Fragment} {data : Bytes}
    (rest : Continuation others data) : others ≠ [] := by
  cases rest <;> simp

/-- Their types are not zero. -/
theorem Fragment.Continues.type_ne_zero {fragment : Fragment} (continues : fragment.Continues) :
    fragment.type ≠ 0 := by
  rcases continues with type | type <;> rw [type] <;> decide

/-- No fragment of a record has type zero. -/
theorem Whole.type_ne_zero {fragments : List Fragment} {data : Bytes}
    (whole : Whole fragments data) : ∀ fragment ∈ fragments, fragment.type ≠ 0 := by
  intro fragment member
  cases whole with
  | full first type =>
    rw [List.mem_singleton.mp member, type]
    decide
  | first first type _ rest =>
    rcases List.mem_cons.mp member with rfl | later
    · rw [type]
      decide
    · exact (rest.continues fragment later).type_ne_zero

/-- Behind the first fragment of a record stand only middle and last ones. -/
theorem Whole.continues {first : Fragment} {others : List Fragment} {data : Bytes}
    (whole : Whole (first :: others) data) : ∀ fragment ∈ others, fragment.Continues := by
  cases whole with
  | full first type => simp
  | first first type filled rest => exact rest.continues

/-- A full fragment is the only one of its record. -/
theorem Whole.full_iff {front back : List Fragment} {fragment : Fragment} {data : Bytes}
    (whole : Whole (front ++ fragment :: back) data) :
    fragment.type = RecordType.kFullType.toByte ↔ front = [] ∧ back = [] := by
  cases front with
  | nil =>
    cases whole with
    | full _ type => simp [type]
    | first _ type filled rest =>
      rw [type]
      simp only [true_and, rest.ne_nil, iff_false]
      decide
  | cons first front =>
    rw [List.cons_append] at whole
    have continues := whole.continues fragment (List.mem_append_right _ (List.mem_cons_self ..))
    simp only [List.cons_ne_nil, false_and, iff_false]
    rcases continues with type | type <;> rw [type] <;> decide

/-- A record has a fragment, also an empty one. -/
theorem Whole.ne_nil {fragments : List Fragment} {data : Bytes} (whole : Whole fragments data) :
    fragments ≠ [] := by
  cases whole <;> simp

/-- No fragment in a log has the type zero. -/
theorem type_ne_zero_of_mem_layout {pos : Nat} {records : List Bytes} {fragment : Fragment}
    (member : fragment ∈ allFragments (layout pos records)) : fragment.type ≠ 0 := by
  obtain ⟨entry, entryMember, inEntry⟩ := List.mem_flatMap.mp member
  exact (whole_of_mem_layout entryMember).type_ne_zero fragment inEntry

/-- The end of a non-empty list of fragments is that of its last one. -/
theorem endOf_eq_getLast (pos : Nat) {fragments : List Fragment} (nonempty : fragments ≠ []) :
    endOf pos fragments = (fragments.getLast?.map Fragment.finish).getD 0 := by
  induction fragments generalizing pos with
  | nil => exact absurd rfl nonempty
  | cons fragment fragments inductionHypothesis =>
    cases fragments with
    | nil => rfl
    | cons next others =>
      rw [endOf, inductionHypothesis _ (List.cons_ne_nil _ _), List.getLast?_cons_cons]

/-- The last fragment ends where all of them do. -/
theorem exists_finish_eq_endOf (pos : Nat) {fragments : List Fragment} (nonempty : fragments ≠ []) :
    ∃ fragment ∈ fragments, fragment.finish = endOf pos fragments := by
  refine ⟨fragments.getLast nonempty, List.getLast_mem nonempty, ?_⟩
  rw [endOf_eq_getLast pos nonempty, List.getLast?_eq_some_getLast nonempty]
  rfl

/-- An entry written at `pos` ends where its fragments end. -/
theorem finish_fragments (pos : Nat) (record : Bytes) :
    (Entry.mk record (fragments true pos record)).finish =
      endOf pos (fragments true pos record) :=
  (endOf_eq_getLast pos (fragments_whole pos record).ne_nil).symm

/-- The entries of a layout stand behind its position. -/
theorem lt_finish_of_mem_layout {pos : Nat} {records : List Bytes} {entry : Entry}
    (member : entry ∈ layout pos records) : pos < entry.finish := by
  induction records generalizing pos with
  | nil => cases member
  | cons record records inductionHypothesis =>
    have behind : pos < endOf pos (fragments true pos record) := by
      rw [← add_length_encode (placed_fragments true pos record)]
      obtain ⟨first, others, shape⟩ :=
        List.exists_cons_of_ne_nil (fragments_whole pos record).ne_nil
      rw [shape, encode]
      simp only [List.length_append, Fragment.length_bytes]
      omega
    rcases List.mem_cons.mp member with rfl | later
    · rw [finish_fragments]
      exact behind
    · exact behind.trans (inductionHypothesis later)

/-- A record that has room in its block is one full fragment. -/
theorem layout_cons_of_le {pos : Nat} {record : Bytes} (short : record.length ≤ room pos)
    (records : List Bytes) :
    layout pos (record :: records) =
      ⟨record, [⟨headerOffset pos, RecordType.kFullType.toByte, record⟩]⟩ ::
        layout (headerOffset pos + kHeaderSize + record.length) records := by
  rw [layout, fragments_of_le true short]
  rfl

/-- Fragments of two lists of records. -/
theorem allFragments_append (front back : List Entry) :
    allFragments (front ++ back) = allFragments front ++ allFragments back :=
  List.flatMap_append

/-- The fragments of a log end where it does. -/
theorem endOf_layout (records : List Bytes) :
    endOf 0 (allFragments (layout 0 records)) = (image records).length := by
  rw [← add_length_encode (placed_layout 0 records), Nat.zero_add, image]

/-- Records written later continue the layout where it ends. -/
theorem image_append (front back : List Bytes) :
    image (front ++ back) = image front ++
      encode (image front).length (allFragments (layout (image front).length back)) := by
  rw [image, layout_append, allFragments_append, encode_append, endOf_layout, image]

/-- A fragment of a record is one of the log. -/
theorem mem_allFragments {entries : List Entry} {entry : Entry} {fragment : Fragment}
    (entryMember : entry ∈ entries) (member : fragment ∈ entry.fragments) :
    fragment ∈ allFragments entries :=
  List.mem_flatMap.mpr ⟨entry, entryMember, member⟩

/-- A record ends inside the log. -/
theorem finish_le_of_mem_layout {records : List Bytes} {entry : Entry}
    (member : entry ∈ layout 0 records) : entry.finish ≤ (image records).length := by
  have nonempty := (whole_of_mem_layout member).ne_nil
  obtain ⟨fragment, inEntry, finish⟩ := exists_finish_eq_endOf 0 nonempty
  have bounds := offset_bounds (placed_layout 0 records) (mem_allFragments member inEntry)
  rw [endOf_eq_getLast 0 nonempty] at finish
  rw [Entry.finish, ← finish, ← endOf_layout]
  exact bounds.2

/-- All fragments stand behind the place of the first header. -/
theorem headerOffset_le_of_mem {pos : Nat} {fragments : List Fragment}
    (placed : Placed pos fragments) {fragment : Fragment} (member : fragment ∈ fragments) :
    headerOffset pos ≤ fragment.offset := by
  cases fragments with
  | nil => cases member
  | cons first others =>
    obtain ⟨starts, -, placedOthers⟩ := placed
    rcases List.mem_cons.mp member with rfl | later
    · exact Nat.le_of_eq starts.symm
    · have bound := (offset_bounds placedOthers later).1
      rw [Fragment.finish] at bound
      omega

/-- The first header of an entry written at `pos`. -/
theorem start_fragments (pos : Nat) (record : Bytes) :
    (Entry.mk record (fragments true pos record)).start = headerOffset pos := by
  have placed := placed_fragments true pos record
  obtain ⟨first, others, shape⟩ := List.exists_cons_of_ne_nil (fragments_whole pos record).ne_nil
  rw [Entry.start]
  rw [shape] at placed ⊢
  exact placed.1

/-- So does its first header. -/
theorem start_add_le_of_mem_layout {records : List Bytes} {entry : Entry}
    (member : entry ∈ layout 0 records) :
    entry.start + kHeaderSize ≤ (image records).length := by
  obtain ⟨first, others, shape⟩ := List.exists_cons_of_ne_nil (whole_of_mem_layout member).ne_nil
  have inEntry : first ∈ entry.fragments := by
    rw [shape]
    exact List.mem_cons_self ..
  have bounds := (offset_bounds (placed_layout 0 records) (mem_allFragments member inEntry)).2
  have start : entry.start = first.offset := by
    rw [Entry.start, shape]
    rfl
  rw [endOf_layout, Fragment.finish] at bounds
  omega

/-- Two records in one block, as an example. -/
theorem layout_pair : layout 0 [[1], [2, 3]] =
    [⟨[1], [⟨0, 1, [1]⟩]⟩, ⟨[2, 3], [⟨8, 1, [2, 3]⟩]⟩] := by
  rw [layout_cons_of_le (by decide), layout_cons_of_le (by decide)]
  rfl

/-- A log of two short records. -/
theorem length_image_pair : (image [[1], [2, 3]]).length = 17 := by
  rw [image, layout_pair]
  rfl

end LevelDbXy.Log
