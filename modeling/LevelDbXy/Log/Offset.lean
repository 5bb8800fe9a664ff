import LevelDbXy.Log.Records
import LevelDbXy.Log.Writer

/-!
# Reading from an offset

A reader opened at an offset starts at a block edge, and drops the physical records that
start before the offset. It returns exactly the records that start at or behind the
offset. The check that drops a record also ends the resyncing, so the rest of a
record that was dropped this way is reported as if the log were damaged.
-/

namespace LevelDbXy.Log

open Assembly

/-! ### Starting at a block edge -/

/-- The physical records from a block edge on. -/
def fromBlock (block : Nat) (fragments : List Fragment) : List Fragment :=
  fragments.filter fun fragment => block ≤ fragment.offset

/-- A physical record in front of a block edge ends there at the latest. -/
theorem finish_le_of_offset_lt {block : Nat} {fragment : Fragment} (edge : block % kBlockSize = 0)
    (fits : fragment.offset % kBlockSize + kHeaderSize + fragment.payload.length ≤ kBlockSize)
    (before : fragment.offset < block) : fragment.finish ≤ block := by
  simp only [Fragment.finish, kBlockSize, kHeaderSize] at *
  omega

/-- A fragment before the block is left out. -/
theorem fromBlock_cons_of_lt {block : Nat} {fragment : Fragment} (before : fragment.offset < block)
    (fragments : List Fragment) :
    fromBlock block (fragment :: fragments) = fromBlock block fragments := by
  simp [fromBlock, before]

/-- The first one behind it is the first that is left. -/
theorem fromBlock_cons_of_le {block : Nat} {fragment : Fragment} (behind : block ≤ fragment.offset)
    (fragments : List Fragment) :
    fromBlock block (fragment :: fragments) = fragment :: fromBlock block fragments := by
  simp [fromBlock, behind]

/-- Skipping to a block edge skips whole physical records, and at most a trailer. -/
theorem drop_encode {pos block : Nat} {fragments : List Fragment} (placed : Placed pos fragments)
    (edge : block % kBlockSize = 0) (ahead : pos ≤ block) :
    Placed block (fromBlock block fragments) ∧
      (encode pos fragments).drop (block - pos) = encode block (fromBlock block fragments) := by
  induction fragments generalizing pos with
  | nil => exact ⟨trivial, by simp [encode, fromBlock]⟩
  | cons fragment fragments inductionHypothesis =>
    obtain ⟨starts, fits, others⟩ := placed
    rcases Nat.lt_or_ge fragment.offset block with before | behind
    · have finish := finish_le_of_offset_lt edge fits before
      obtain ⟨placedRest, bytes⟩ := inductionHypothesis others finish
      have size := @add_length_encode_singleton pos fragment fragments ⟨starts, fits, others⟩
      rw [fromBlock_cons_of_lt before, encode_cons, ← bytes]
      refine ⟨placedRest, ?_⟩
      rw [List.drop_append, List.drop_of_length_le (by omega), List.nil_append]
      congr 1
      omega
    · -- all further records are behind the edge, and the first one stands on it
      have place := headerOffset_cases pos
      have onEdge := headerOffset_cases block
      have first : fragment.offset = block ∧ headerOffset block = block := by
        simp only [kBlockSize] at *
        omega
      have kept : fromBlock block (fragment :: fragments) = fragment :: fragments := by
        refine List.filter_eq_self.mpr fun other member => decide_eq_true ?_
        rcases List.mem_cons.mp member with rfl | later
        · exact behind
        · have := (offset_bounds others later).1
          rw [Fragment.finish] at this
          omega
      rw [kept]
      refine ⟨⟨by omega, fits, others⟩, ?_⟩
      rw [encode, encode, first.1, Nat.sub_self, List.replicate_zero, List.nil_append,
        List.drop_left' (List.length_replicate ..)]

/-- Fragments are left out in the front and in the back. -/
theorem fromBlock_append (block : Nat) (front back : List Fragment) :
    fromBlock block (front ++ back) = fromBlock block front ++ fromBlock block back :=
  List.filter_append ..

/-- No fragment is left out if all are behind the block. -/
theorem fromBlock_of_le {pos block : Nat} {fragments : List Fragment}
    (placed : Placed pos fragments) (behind : block ≤ pos) :
    fromBlock block fragments = fragments :=
  List.filter_eq_self.mpr fun _ member =>
    decide_eq_true (behind.trans (offset_bounds placed member).1)

/-- All are left out if they end before it. -/
theorem fromBlock_of_endOf_le {pos block : Nat} {fragments : List Fragment}
    (placed : Placed pos fragments) (before : endOf pos fragments ≤ block) :
    fromBlock block fragments = [] := by
  refine List.filter_eq_nil_iff.mpr fun fragment member early => ?_
  have bounds := (offset_bounds placed member).2
  simp only [decide_eq_true_eq] at early
  rw [Fragment.finish, kHeaderSize] at bounds
  omega

/-- The block edge that belongs to an initial offset, the constants written out. -/
def StartsAt (initial block : Nat) : Prop :=
  initial % 32768 ≤ 32762 ∧ block = initial - initial % 32768 ∨
    32762 < initial % 32768 ∧ block = initial - initial % 32768 + 32768

/-- A fragment that is dropped although its record goes on behind it. -/
def Cut (initial block : Nat) (fragment : Fragment) : Prop :=
  (fragment.type = RecordType.kFirstType.toByte ∨ fragment.type = RecordType.kMiddleType.toByte) ∧
    block ≤ fragment.offset ∧ fragment.offset < initial

/-- A fragment that ends its record is not cut. -/
theorem not_cut_of_final {initial block : Nat} {fragment : Fragment}
    (final : fragment.type = RecordType.kFullType.toByte ∨
      fragment.type = RecordType.kLastType.toByte) : ¬ Cut initial block fragment := by
  rintro ⟨goesOn, -⟩
  rcases final with type | type <;> rw [type] at goesOn <;> exact absurd goesOn (by decide)

/-- A fragment in front of the block is not cut. -/
theorem not_cut_of_lt {initial block : Nat} {fragment : Fragment}
    (before : fragment.offset < block) : ¬ Cut initial block fragment :=
  fun cut => absurd cut.2.1 (Nat.not_le.mpr before)

section Dropped

variable {options : Options} {state : Assembly} {block pos : Nat}

/-- No fragment wraps the offsets of the reader. -/
def Small (fragments : List Fragment) : Prop := ∀ fragment ∈ fragments, fragment.finish < 2 ^ 64

/-- In a log that is not too long a fragment counts if it does not begin before the offset. -/
theorem Small.inside_iff {fragments : List Fragment} (small : Small fragments) {fragment : Fragment}
    (member : fragment ∈ fragments) :
    Inside options fragment ↔ options.initial ≤ fragment.offset := by
  have bound := small fragment member
  rw [Fragment.finish] at bound
  rw [Inside, truncU64, Nat.mod_eq_of_lt (by omega)]

/-- Neither does the sum with the header size wrap. -/
theorem Small.behind {fragments : List Fragment} (small : Small fragments) {fragment : Fragment}
    (member : fragment ∈ fragments) (inside : options.initial ≤ fragment.offset) :
    options.initial ≤ truncU64 (fragment.offset + kHeaderSize) := by
  have bound := small fragment member
  rw [Fragment.finish] at bound
  rw [truncU64, Nat.mod_eq_of_lt (by omega)]
  omega

/-- The rest of a log that is not too long. -/
theorem Small.tail {fragment : Fragment} {fragments : List Fragment}
    (small : Small (fragment :: fragments)) : Small fragments :=
  fun other member => small other (List.mem_cons_of_mem _ member)

/-- What reading the rest of a record leaves behind: nothing but reports. -/
structure Leaves (options : Options) (before after : Assembly) (silent : Prop) : Prop where
  ready : after.Ready
  records : after.records = before.records
  reports : ∃ extra, after.reports = before.reports ++ extra ∧
    (options.reporting = true → (extra = [] ↔ silent))

/-- Only what is silent matters. -/
theorem Leaves.congr {before after : Assembly} {silent other : Prop}
    (leaves : Leaves options before after silent) (same : silent ↔ other) :
    Leaves options before after other := by
  obtain ⟨ready, records, extra, reports, exact_⟩ := leaves
  exact ⟨ready, records, extra, reports, fun reporting => (exact_ reporting).trans same⟩

/-- Two parts one after the other are silent if both are. -/
theorem Leaves.trans {first second third : Assembly} {silent later : Prop}
    (front : Leaves options first second silent) (back : Leaves options second third later) :
    Leaves options first third (silent ∧ later) := by
  obtain ⟨-, records, extra, reports, exact_⟩ := front
  obtain ⟨ready, recordsLater, more, reportsLater, exactLater⟩ := back
  refine ⟨ready, recordsLater.trans records, extra ++ more, ?_, fun reporting => ?_⟩
  · rw [reportsLater, reports, List.append_assoc]
  · rw [List.append_eq_nil_iff, exact_ reporting, exactLater reporting]

/-- Dropping a fragment for its offset. -/
theorem leaves_bad {fragment : Fragment} (ready : state.Ready)
    (early : ¬ Inside options fragment) :
    Leaves options state (state.accept options fragment) True ∧
      (state.accept options fragment).resyncing = false := by
  rw [accept_bad ready early]
  exact ⟨⟨⟨ready.pending, ready.running⟩, rfl, [], by simp, by simp⟩, rfl⟩

/-- A rest that is read behind the resyncing is reported. -/
theorem leaves_orphans {fragments : List Fragment} (ready : state.Ready)
    (synced : state.resyncing = false) (nonempty : fragments ≠ [])
    (continues : ∀ fragment ∈ fragments, fragment.Continues) (small : Small fragments)
    (inside : ∀ fragment ∈ fragments, options.initial ≤ fragment.offset) :
    Leaves options state (state.run options fragments) False := by
  obtain ⟨extra, ran, made⟩ := run_orphans ready synced continues
    fun fragment member => (small.inside_iff member).mpr (inside fragment member)
  rw [ran]
  refine ⟨⟨ready.pending, ready.running⟩, rfl, extra, rfl, fun reporting => ?_⟩
  rw [iff_false]
  exact made reporting nonempty fun fragment member => small.behind member (inside fragment member)

/-- The rest of a record that starts a block: silent as long as the reader resyncs, and
cut if the reader drops its first fragment. -/
theorem leaves_onEdge {fragments : List Fragment} {data : Bytes} (ready : state.Ready)
    (resyncing : state.resyncing = true) (rest : Continuation fragments data)
    (placed : Placed block fragments) (edge : block % kBlockSize = 0)
    (near : options.initial < block + kBlockSize) (small : Small fragments) :
    Leaves options state (state.run options fragments)
      (∀ fragment ∈ fragments, ¬ Cut options.initial block fragment) := by
  rcases Nat.lt_or_ge block options.initial with dropped | all
  · have onEdge := headerOffset_cases block
    cases rest with
    | last fragment type =>
      have early : ¬ Inside options fragment := by
        rw [small.inside_iff (List.mem_cons_self ..), placed.1]
        simp only [kBlockSize] at edge
        omega
      refine (leaves_bad ready early).1.congr (iff_of_true trivial ?_)
      exact List.forall_mem_singleton.mpr (not_cut_of_final (Or.inr type))
    | @middle fragment others data type filled rest =>
      have start : fragment.offset = block := by
        rw [placed.1]
        simp only [kBlockSize] at edge
        omega
      have early : ¬ Inside options fragment := by
        rw [small.inside_iff (List.mem_cons_self ..)]
        omega
      obtain ⟨leaves, synced⟩ := leaves_bad ready early
      have behind : options.initial ≤ fragment.finish := by
        have fits := placed.2.1
        simp only [Fragment.finish, kBlockSize, kHeaderSize] at *
        omega
      refine (leaves.trans (leaves_orphans leaves.ready synced rest.ne_nil rest.continues small.tail
        fun other member => behind.trans (offset_bounds placed.2.2 member).1)).congr ?_
      rw [true_and, false_iff]
      exact fun none => none fragment (List.mem_cons_self ..) ⟨Or.inr type, by omega, by omega⟩
  · have inside : ∀ fragment ∈ fragments, options.initial ≤ fragment.offset :=
      fun fragment member => all.trans (offset_bounds placed member).1
    rw [run_resyncing ready resyncing rest fun fragment member =>
      (small.inside_iff member).mpr (inside fragment member)]
    refine ⟨⟨ready.pending, ready.running⟩, rfl, [], by simp, fun _ => ?_⟩
    refine iff_of_true rfl fun fragment member cut => ?_
    have := inside fragment member
    have := cut.2.2
    omega

/-- No fragment leaves nothing to report. -/
theorem leaves_nothing (ready : state.Ready) : Leaves options state (state.run options []) True :=
  ⟨ready, rfl, [], by simp [run], by simp⟩

/-- The rest of a record on the edge where the reader starts, or behind it. -/
theorem leaves_fromEdge {fragments : List Fragment} {data : Bytes} (ready : state.Ready)
    (rest : Continuation fragments data) (placed : Placed pos fragments)
    (edge : block % kBlockSize = 0) (near : options.initial < block + kBlockSize)
    (small : Small fragments) (behind : block ≤ pos)
    (fresh : pos ≤ block → state.resyncing = true)
    (synced : block < pos → state.resyncing = false) (onEdge : pos % kBlockSize = 0) :
    Leaves options state (state.run options (fromBlock block fragments))
      (pos ≤ block ∧ ∀ fragment ∈ fragments, ¬ Cut options.initial block fragment) := by
  rw [fromBlock_of_le placed behind]
  rcases Nat.lt_or_eq_of_le behind with beyond | rfl
  · refine (leaves_orphans ready (synced beyond) rest.ne_nil rest.continues small ?_).congr ?_
    · intro fragment member
      have bounds := (offset_bounds placed member).1
      simp only [kBlockSize] at *
      omega
    · rw [false_iff]
      omega
  · refine (leaves_onEdge ready (fresh (Nat.le_refl _)) rest placed edge near small).congr ?_
    simp

/-- A fragment that starts on an edge before another one has its header there. -/
theorem headerOffset_lt_edge (onEdge : pos % kBlockSize = 0) (edge : block % kBlockSize = 0)
    (before : pos < block) : headerOffset pos < block := by
  have cases := headerOffset_cases pos
  simp only [kBlockSize] at *
  omega

/-- The rest of a record from a block edge on. In front of the edge where the reader
starts nothing is read. -/
theorem leaves_continuation {fragments : List Fragment} {data : Bytes} (ready : state.Ready)
    (rest : Continuation fragments data) (placed : Placed pos fragments)
    (onEdge : pos % kBlockSize = 0) (edge : block % kBlockSize = 0)
    (near : options.initial < block + kBlockSize) (small : Small fragments)
    (fresh : pos ≤ block → state.resyncing = true)
    (synced : block < pos → state.resyncing = false) :
    Leaves options state (state.run options (fromBlock block fragments))
      (pos ≤ block ∧ ∀ fragment ∈ fragments, ¬ Cut options.initial block fragment) := by
  -- induction over the blocks in front of the edge; the other two cases end it
  induction rest generalizing pos with
  | last fragment type =>
    rcases Nat.lt_or_ge pos block with before | behind
    · have start : fragment.offset < block := placed.1 ▸ headerOffset_lt_edge onEdge edge before
      rw [fromBlock_cons_of_lt start]
      exact (leaves_nothing ready).congr (iff_of_true trivial
        ⟨Nat.le_of_lt before, List.forall_mem_singleton.mpr (not_cut_of_lt start)⟩)
    · exact leaves_fromEdge ready (.last fragment type) placed edge near small behind fresh synced
        onEdge
  | @middle fragment others data type filled rest inductionHypothesis =>
    rcases Nat.lt_or_ge pos block with before | behind
    · have start : fragment.offset < block := placed.1 ▸ headerOffset_lt_edge onEdge edge before
      have finish := finish_le_of_offset_lt edge placed.2.1 start
      rw [fromBlock_cons_of_lt start]
      refine (inductionHypothesis placed.2.2 filled small.tail
        (fun _ => fresh (Nat.le_of_lt before))
        fun beyond => absurd finish (Nat.not_le.mpr beyond)).congr ?_
      simp [finish, Nat.le_of_lt before, not_cut_of_lt start]
    · exact leaves_fromEdge ready (.middle fragment type filled rest) placed edge near small behind
        fresh synced onEdge

/-- A record that starts before the initial offset. -/
theorem leaves_entry {fragments : List Fragment} {data : Bytes} (ready : state.Ready)
    (whole : Whole fragments data) (placed : Placed pos fragments) (edge : block % kBlockSize = 0)
    (near : options.initial < block + kBlockSize) (small : Small fragments)
    (early : headerOffset pos < options.initial)
    (fresh : pos ≤ block → state.resyncing = true) :
    Leaves options state (state.run options (fromBlock block fragments))
      (∀ fragment ∈ fragments, ¬ Cut options.initial block fragment) := by
  have ordered := le_headerOffset pos
  cases whole with
  | full fragment type =>
    have final : ∀ other ∈ [fragment], ¬ Cut options.initial block other :=
      List.forall_mem_singleton.mpr (not_cut_of_final (Or.inl type))
    have outside : ¬ Inside options fragment := by
      rw [small.inside_iff (List.mem_cons_self ..), placed.1]
      omega
    rcases Nat.lt_or_ge fragment.offset block with before | behind
    · rw [fromBlock_cons_of_lt before]
      exact (leaves_nothing ready).congr (iff_of_true trivial final)
    · rw [fromBlock_cons_of_le behind]
      exact (leaves_bad ready outside).1.congr (iff_of_true trivial final)
  | @first fragment others data type filled rest =>
    have starts := placed.1
    rcases Nat.lt_or_ge fragment.offset block with before | behind
    · have finish := finish_le_of_offset_lt edge placed.2.1 before
      rw [fromBlock_cons_of_lt before]
      refine (leaves_continuation ready rest placed.2.2 filled edge near small.tail
        (fun _ => fresh (by omega)) fun beyond => absurd finish (Nat.not_le.mpr beyond)).congr ?_
      simp [finish, not_cut_of_lt before]
    · -- the first fragment is dropped, and with it the resyncing ends
      have outside : ¬ Inside options fragment := by
        rw [small.inside_iff (List.mem_cons_self ..), starts]
        omega
      have beyond : block < fragment.finish := by
        rw [Fragment.finish, kHeaderSize]
        omega
      obtain ⟨leaves, synced⟩ := leaves_bad ready outside
      rw [fromBlock_cons_of_le behind]
      refine (leaves.trans (leaves_continuation leaves.ready rest placed.2.2 filled edge near
        small.tail (fun before => absurd beyond (Nat.not_lt.mpr before)) fun _ => synced)).congr ?_
      refine iff_of_false (fun silent => absurd beyond (Nat.not_lt.mpr silent.2.1)) fun silent => ?_
      exact silent fragment (List.mem_cons_self ..) ⟨Or.inl type, behind, by omega⟩

/-- A record whose header stands at or behind the initial offset stands behind the block edge as
a whole. -/
theorem fromBlock_of_late {parts : List Fragment} {data : Bytes}
    (starts : StartsAt options.initial block) (whole : Whole parts data) (placed : Placed pos parts)
    (small : Small parts) (late : options.initial ≤ headerOffset pos) :
    fromBlock block parts = parts ∧ (∀ fragment ∈ parts, options.initial ≤ fragment.offset) ∧
      block < endOf pos parts ∧ truncU64 (headerOffset pos) = headerOffset pos := by
  have behind : block ≤ headerOffset pos := by
    have fits := headerOffset_mod_le pos
    unfold StartsAt at starts
    simp only [kBlockSize, kHeaderSize] at *
    omega
  obtain ⟨fragment, member, finish⟩ := exists_finish_eq_endOf pos whole.ne_nil
  have bound := headerOffset_le_of_mem placed member
  have limit := small fragment member
  rw [Fragment.finish] at finish limit
  refine ⟨?_, fun fragment member => ?_, ?_, ?_⟩
  · exact List.filter_eq_self.mpr fun fragment member =>
      decide_eq_true (behind.trans (headerOffset_le_of_mem placed member))
  · exact late.trans (headerOffset_le_of_mem placed member)
  · rw [← finish, kHeaderSize]
    omega
  · rw [truncU64, Nat.mod_eq_of_lt (by omega)]

/-- Reading the layout of a log from the block edge of the initial offset on. -/
theorem run_fromBlock (records : List Bytes) (starts : StartsAt options.initial block)
    (ready : state.Ready) (small : Small (allFragments (layout pos records)))
    (fresh : pos ≤ block → 0 < options.initial → state.resyncing = true) :
    (state.run options (fromBlock block (allFragments (layout pos records)))).records =
        state.records ++
          ((layout pos records).filter fun entry => options.initial ≤ entry.start).map
            (fun entry => (entry.record, entry.start)) ∧
      ∃ extra, (state.run options (fromBlock block (allFragments (layout pos records)))).reports =
          state.reports ++ extra ∧
        (options.reporting = true → (extra = [] ↔
          ∀ fragment ∈ allFragments (layout pos records),
            ¬ Cut options.initial block fragment)) := by
  have edge : block % kBlockSize = 0 := by
    unfold StartsAt at starts
    simp only [kBlockSize]
    omega
  have near : options.initial < block + kBlockSize := by
    unfold StartsAt at starts
    simp only [kBlockSize]
    omega
  induction records generalizing pos state with
  | nil => exact ⟨by simp [layout, allFragments, fromBlock, run], [], by
      simp [layout, allFragments, fromBlock, run], by simp [layout, allFragments]⟩
  | cons record records inductionHypothesis =>
    have placed := placed_fragments true pos record
    have whole := fragments_whole pos record
    have start := start_fragments pos record
    rw [layout, allFragments_cons] at small ⊢
    generalize fragments true pos record = parts at placed whole start small
    have smallParts : Small parts := fun fragment member =>
      small fragment (List.mem_append_left _ member)
    have smallRest : Small (allFragments (layout (endOf pos parts) records)) :=
      fun fragment member => small fragment (List.mem_append_right _ member)
    rw [fromBlock_append, run_append]
    rcases Nat.lt_or_ge (headerOffset pos) options.initial with early | late
    · -- the record starts too early: only reports may come from it
      have leaves := leaves_entry ready whole placed edge near smallParts early fun before =>
        fresh before (by omega)
      have freshNext : endOf pos parts ≤ block → 0 < options.initial →
          (state.run options (fromBlock block parts)).resyncing = true := by
        intro before positive
        rw [fromBlock_of_endOf_le placed before]
        exact fresh ((le_endOf placed).trans before) positive
      obtain ⟨others, more, reportsMore, exactMore⟩ :=
        inductionHypothesis leaves.ready smallRest freshNext
      obtain ⟨-, same, extra, reports, exact_⟩ := leaves
      have notTaken : ¬ options.initial ≤ (Entry.mk record parts).start := by
        rw [start]
        omega
      refine ⟨?_, extra ++ more, ?_, fun reporting => ?_⟩
      · rw [others, same, List.filter_cons, if_neg (by simpa using notTaken)]
      · rw [reportsMore, reports, List.append_assoc]
      · rw [List.append_eq_nil_iff, exact_ reporting, exactMore reporting, List.forall_mem_append]
    · -- the record is read as a whole
      obtain ⟨all, inside, beyond, unwrapped⟩ :=
        fromBlock_of_late starts whole placed smallParts late
      obtain ⟨readyNext, returned, silent⟩ := run_whole ready whole fun fragment member =>
        (smallParts.inside_iff member).mpr (inside fragment member)
      obtain ⟨others, more, reportsMore, exactMore⟩ := inductionHypothesis readyNext smallRest
        fun before => absurd beyond (Nat.not_lt.mpr before)
      have kept : truncU64 (Entry.mk record parts).start = (Entry.mk record parts).start := by
        rw [start]
        exact unwrapped
      have taken : options.initial ≤ (Entry.mk record parts).start := by
        rw [start]
        exact late
      rw [all]
      refine ⟨?_, more, by rw [reportsMore, silent], fun reporting => ?_⟩
      · rw [others, returned, List.filter_cons, if_pos (by simpa using taken), List.map_cons,
          List.append_assoc, List.singleton_append]
        exact congrArg (fun offset => _ ++ (record, offset) :: _) kept
      · rw [exactMore reporting, List.forall_mem_append]
        refine (and_iff_right fun fragment member cut => ?_).symm
        have := inside fragment member
        have := cut.2.2
        omega

/-- Fragments that all start too early leave nothing. -/
theorem leaves_early {fragments : List Fragment} (ready : state.Ready)
    (early : ∀ fragment ∈ fragments, ¬ Inside options fragment) :
    Leaves options state (state.run options fragments) True := by
  induction fragments generalizing state with
  | nil => exact leaves_nothing ready
  | cons fragment fragments inductionHypothesis =>
    have leaves := (leaves_bad ready (early fragment (List.mem_cons_self ..))).1
    have others := inductionHypothesis leaves.ready
      fun other member => early other (List.mem_cons_of_mem _ member)
    exact (leaves.trans others).congr (by simp)

end Dropped

/-! ### The initial offset -/

/-- The block edge of an initial offset wraps only for the last five offsets there are. -/
theorem firstBlock_cases {initial : Nat} (bounded : initial < 2 ^ 64) :
    StartsAt initial (firstBlock initial) ∨
      firstBlock initial = 0 ∧ 2 ^ 64 - 5 ≤ initial ∧ 32762 < initial % 32768 := by
  unfold firstBlock StartsAt truncU64
  by_cases trailing : kBlockSize - 6 < initial % kBlockSize
  · rw [if_pos trailing]
    simp only [kBlockSize] at *
    omega
  · rw [if_neg trailing]
    simp only [kBlockSize] at trailing
    exact Or.inl (Or.inl ⟨by omega, rfl⟩)

/-- A log of fewer than `2 ^ 64` bytes is not too long. -/
theorem small_image {records : List Bytes} (small : (image records).length < 2 ^ 64) :
    Small (allFragments (layout 0 records)) := by
  intro fragment member
  have bounds := (offset_bounds (placed_layout 0 records) member).2
  rw [endOf_layout] at bounds
  omega

/-- A fragment that belongs to a record going on behind it, in the block of the initial
offset and before it, with the initial offset not in the end of the block. -/
def Alarming (initial : Nat) (fragment : Fragment) : Prop :=
  (fragment.type = RecordType.kFirstType.toByte ∨ fragment.type = RecordType.kMiddleType.toByte) ∧
    fragment.offset / kBlockSize = initial / kBlockSize ∧ fragment.offset < initial ∧
    initial % kBlockSize ≤ kBlockSize - 6

/-- A fragment is cut by the block exactly if it raises an alarm. -/
theorem cut_iff_alarming {initial block : Nat} (starts : StartsAt initial block)
    (fragment : Fragment) : Cut initial block fragment ↔ Alarming initial fragment := by
  unfold Cut Alarming
  refine and_congr_right fun _ => ?_
  unfold StartsAt at starts
  simp only [kBlockSize]
  omega

/-- Reading a log from an offset: which records are returned, and when something is
reported. -/
theorem readAll_fromOffset (records : List Bytes) {options : Options}
    (bounded : options.initial < 2 ^ 64) (small : (image records).length < 2 ^ 64) {fuel : Nat}
    (enough : (image records).length + 2 ≤ fuel) :
    ∃ last, (openReader (image records) options).readAll fuel =
        some (((layout 0 records).filter fun entry => options.initial ≤ entry.start).map
          (fun entry => (entry.record, entry.start)), last) ∧
      (options.reporting = true → (last.reports = [] ↔
        ∀ fragment ∈ allFragments (layout 0 records), ¬ Alarming options.initial fragment)) := by
  have edge := firstBlock_mod options.initial
  obtain ⟨placed, bytes⟩ := drop_encode (placed_layout 0 records) edge (Nat.zero_le _)
  have ends : (image records).length ≤ endOf (firstBlock options.initial)
      (fromBlock (firstBlock options.initial) (allFragments (layout 0 records))) := by
    have sizes := congrArg List.length bytes
    rw [List.length_drop] at sizes
    rw [← add_length_encode placed, ← sizes, image]
    omega
  obtain ⟨last, ran, reports⟩ := @readAll_run options (image records) _ [] bounded placed
    (by rw [List.append_nil]; exact bytes)
    (fun fragment member both =>
      type_ne_zero_of_mem_layout (List.mem_filter.mp member).1 both.1)
    (Reader.endsAt_of_length_le ends) fuel enough
  have smallAll := small_image small
  rcases firstBlock_cases bounded with starts | ⟨wrapped, top, trailing⟩
  · obtain ⟨returned, extra, reported, exact_⟩ := run_fromBlock records starts
      (start_ready options) smallAll fun _ positive => decide_eq_true positive
    rw [returned] at ran
    refine ⟨last, ran, fun reporting => ?_⟩
    rw [reports, reported]
    simp only [cut_iff_alarming starts] at exact_
    exact exact_ reporting
  · -- the reader starts over at the beginning and drops everything
    have early : ∀ fragment ∈ fromBlock (firstBlock options.initial)
        (allFragments (layout 0 records)), ¬ Inside options fragment := by
      intro fragment member
      have inLog := (List.mem_filter.mp member).1
      have limit := smallAll fragment inLog
      rw [smallAll.inside_iff inLog]
      rw [Fragment.finish, kHeaderSize] at limit
      omega
    obtain ⟨-, returned, extra, reported, exact_⟩ := leaves_early (start_ready options) early
    have none : (layout 0 records).filter (fun entry => options.initial ≤ entry.start) = [] := by
      refine List.filter_eq_nil_iff.mpr fun entry member late => ?_
      have limit := start_add_le_of_mem_layout member
      simp only [decide_eq_true_eq, kHeaderSize] at late limit
      omega
    rw [returned] at ran
    rw [none]
    refine ⟨last, ran, fun reporting => ?_⟩
    rw [reports, reported]
    refine iff_of_true ((exact_ reporting).mpr trivial) fun fragment _ alarming => ?_
    have inside := alarming.2.2.2
    simp only [kBlockSize] at inside
    omega

/-- Reading a log from any offset returns exactly the records whose first header is not
before it, each with the offset of that header as its `LastRecordOffset`. Offsets are
64-bit numbers, so the log is shorter than `2 ^ 64` bytes. -/
theorem read_from_offset_returns_later_records (sessions : List (List Bytes)) (reporting : Bool)
    (initial : Nat) (bounded : initial < 2 ^ 64)
    (small : (writeLog (fun _ => .ok) sessions).2.contents.length < 2 ^ 64) (fuel : Nat)
    (enough : (writeLog (fun _ => .ok) sessions).2.contents.length + 2 ≤ fuel) :
    (writeLog (fun _ => .ok) sessions).2.contents =
        encode 0 (allFragments (layout 0 sessions.flatten)) ∧
      ∃ last, (openReader (writeLog (fun _ => .ok) sessions).2.contents
          ⟨reporting, initial⟩).readAll fuel =
        some (((layout 0 sessions.flatten).filter fun entry => initial ≤ entry.start).map
          (fun entry => (entry.record, entry.start)), last) := by
  rw [contents_writeLog] at *
  obtain ⟨last, ran, -⟩ :=
    @readAll_fromOffset sessions.flatten ⟨reporting, initial⟩ bounded small fuel enough
  exact ⟨rfl, last, ran⟩

/-- An offset inside the first of two records. -/
theorem read_from_offset_returns_later_records_second :
    ∃ last, (openReader (writeLog (fun _ => .ok) [[[1], [2, 3]]]).2.contents
        ⟨true, 3⟩).readAll 30 = some ([([2, 3], 8)], last) := by
  have size : (writeLog (fun _ => .ok) [[[1], [2, 3]]]).2.contents.length = 17 := by
    rw [contents_writeLog]
    exact length_image_pair
  obtain ⟨-, last, ran⟩ := read_from_offset_returns_later_records [[[1], [2, 3]]] true 3
    (by decide) (by rw [size]; decide) 30 (by rw [size]; decide)
  refine ⟨last, ran.trans ?_⟩
  change some (((layout 0 [[1], [2, 3]]).filter _).map _, last) = _
  rw [layout_pair]
  rfl

/-- A healthy log is read without a report exactly if no first or middle fragment stands in
the block of the initial offset and before it, or the reader skips that block. -/
theorem no_false_alarm_iff (sessions : List (List Bytes)) (initial : Nat)
    (bounded : initial < 2 ^ 64)
    (small : (writeLog (fun _ => .ok) sessions).2.contents.length < 2 ^ 64) (fuel : Nat)
    (enough : (writeLog (fun _ => .ok) sessions).2.contents.length + 2 ≤ fuel) :
    ∃ returned last, (openReader (writeLog (fun _ => .ok) sessions).2.contents
        ⟨true, initial⟩).readAll fuel = some (returned, last) ∧
      (last.reports = [] ↔
        ∀ fragment ∈ allFragments (layout 0 sessions.flatten), ¬ Alarming initial fragment) := by
  rw [contents_writeLog] at *
  obtain ⟨last, ran, silent⟩ :=
    @readAll_fromOffset sessions.flatten ⟨true, initial⟩ bounded small fuel enough
  exact ⟨_, last, ran, silent rfl⟩

/-- No alarm when the offset is inside a record of one fragment. -/
theorem no_false_alarm_iff_one_fragment :
    ∃ returned last, (openReader (writeLog (fun _ => .ok) [[[1], [2, 3]]]).2.contents
        ⟨true, 3⟩).readAll 30 = some (returned, last) ∧ last.reports = [] := by
  have size : (writeLog (fun _ => .ok) [[[1], [2, 3]]]).2.contents.length = 17 := by
    rw [contents_writeLog]
    exact length_image_pair
  obtain ⟨returned, last, ran, silent⟩ := no_false_alarm_iff [[[1], [2, 3]]] 3
    (by decide) (by rw [size]; decide) 30 (by rw [size]; decide)
  refine ⟨returned, last, ran, silent.mpr ?_⟩
  change ∀ fragment ∈ allFragments (layout 0 [[1], [2, 3]]), _
  rw [layout_pair]
  rintro fragment member ⟨type, -⟩
  have full : fragment.type = 1 := by
    rcases List.mem_cons.mp member with rfl | later
    · rfl
    · rw [List.mem_singleton.mp later]
  rw [full] at type
  exact absurd type (by decide)

/-- A record of two blocks, read from its second byte on. -/
theorem reports_second_block {data : Bytes} (size : data.length = 40000) :
    ∃ returned last, (openReader (writeLog (fun _ => .ok) [[data]]).2.contents
        ⟨true, 1⟩).readAll 50000 = some (returned, last) ∧ last.reports ≠ [] := by
  have long : room 0 < data.length := by
    rw [size]
    decide
  have firstMember : ⟨0, RecordType.kFirstType.toByte, data.take (room 0)⟩ ∈
      allFragments (layout 0 [data]) := by
    rw [layout, allFragments_cons, fragments_of_lt true long]
    exact List.mem_cons_self ..
  have length : (image [data]).length = 40014 := by
    have second : (data.drop (room 0)).length ≤ room (filled 0) := by
      rw [List.length_drop, size]
      decide
    rw [← endOf_layout, layout, allFragments_cons, fragments_of_lt true long,
      fragments_of_le false second]
    simp only [layout, allFragments, List.flatMap_nil, List.append_nil, endOf, Fragment.finish,
      List.length_drop, size]
    decide
  rw [contents_writeLog]
  obtain ⟨last, ran, silent⟩ := @readAll_fromOffset [data] ⟨true, 1⟩ (by decide)
    (by rw [length]; decide) 50000 (by rw [length]; decide)
  refine ⟨_, last, ran, fun none => ?_⟩
  have sameBlock : 0 / kBlockSize = 1 / kBlockSize := by decide
  exact (silent rfl).mp none _ firstMember ⟨Or.inl rfl, sameBlock, Nat.zero_lt_one, by decide⟩

/-- Opened inside the first fragment of such a record, the reader reports the second one
as corrupted, although the log is intact. -/
theorem healthy_log_alarms :
    ∃ returned last, (openReader (writeLog (fun _ => .ok) [[List.replicate 40000 0]]).2.contents
        ⟨true, 1⟩).readAll 50000 = some (returned, last) ∧ last.reports ≠ [] :=
  reports_second_block List.length_replicate

end LevelDbXy.Log
