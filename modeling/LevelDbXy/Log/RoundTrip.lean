import LevelDbXy.Log.Records
import LevelDbXy.Log.Writer
import Mathlib.Data.List.TakeWhile

/-!
# The log round trip

Reading a log that was cut off anywhere returns the records that are whole, in order,
and reports nothing. A record is lost only by losing bytes of its own: the cut
may be inside a header, a payload or a trailer, or on a block edge.
-/

namespace LevelDbXy.Log

open Assembly

/-! ### Cutting a log -/

/-- Fragments that all end in time end in time together. -/
theorem endOf_le {pos n : Nat} {fragments : List Fragment} (low : pos ≤ n)
    (whole : ∀ fragment ∈ fragments, fragment.finish ≤ n) : endOf pos fragments ≤ n := by
  induction fragments generalizing pos with
  | nil => exact low
  | cons fragment fragments inductionHypothesis =>
    exact inductionHypothesis (whole fragment (List.mem_cons_self ..))
      fun other member => whole other (List.mem_cons_of_mem _ member)

/-- The physical records that are whole in the first `n` bytes. -/
def wholeIn (n : Nat) (fragments : List Fragment) : List Fragment :=
  fragments.takeWhile fun fragment => fragment.finish ≤ n

/-- The first `n` bytes are those of the whole records, and the reader finds the end
of the file behind them. -/
theorem take_encode {fragments : List Fragment} (placed : Placed 0 fragments) (n : Nat) :
    Placed 0 (wholeIn n fragments) ∧
      (∃ tail, (encode 0 fragments).take n = encode 0 (wholeIn n fragments) ++ tail) ∧
      Reader.EndsAt ((encode 0 fragments).take n) (endOf 0 (wholeIn n fragments)) := by
  have split : wholeIn n fragments ++
      fragments.dropWhile (fun fragment => fragment.finish ≤ n) = fragments :=
    List.takeWhile_append_dropWhile
  generalize front : wholeIn n fragments = whole at split
  generalize rest : fragments.dropWhile (fun fragment => fragment.finish ≤ n) = cut at split
  have inside : ∀ fragment ∈ whole, fragment.finish ≤ n := by
    intro fragment member
    rw [← front] at member
    simpa using List.mem_takeWhile_imp member
  have low : endOf 0 whole ≤ n := endOf_le (Nat.zero_le n) inside
  rw [← split] at placed ⊢
  obtain ⟨placedWhole, placedCut⟩ := placed_append.mp placed
  have size : (encode 0 whole).length = endOf 0 whole := by
    rw [← add_length_encode placedWhole, Nat.zero_add]
  have taken : (encode 0 (whole ++ cut)).take n =
      encode 0 whole ++ (encode (endOf 0 whole) cut).take (n - endOf 0 whole) := by
    rw [encode_append, List.take_append, size, List.take_of_length_le (by omega)]
  refine ⟨placedWhole, ⟨_, taken⟩, ?_⟩
  cases cut with
  | nil =>
    refine Reader.endsAt_of_length_le ?_
    rw [taken]
    simp [encode, size]
  | cons fragment others =>
    have beyond : n < fragment.finish := by
      have first : (fragments.dropWhile fun fragment => fragment.finish ≤ n).head? =
          some fragment := by
        rw [rest]
        rfl
      have rejected := List.head?_dropWhile_not (fun fragment => decide (fragment.finish ≤ n))
        fragments
      rw [first] at rejected
      simpa using rejected
    have head : Placed (endOf 0 whole) [fragment] := ⟨placedCut.1, placedCut.2.1, trivial⟩
    have headSize := add_length_encode_singleton placedCut
    refine Reader.endsAt_of_cut head (show _ = List.take (n - endOf 0 whole) _ from ?_) (by omega)
    rw [taken, ← size, List.drop_left, size, encode_cons, List.take_append_of_le_length (by omega)]

/-! ### What is read -/

/-- From the physical records that are whole, exactly the records that are whole are
put together. -/
theorem run_wholeIn {options : Options} (zero : options.initial = 0) (n : Nat)
    (records : List Bytes) {pos : Nat} {state : Assembly} (ready : state.Ready) :
    (state.run options (wholeIn n (allFragments (layout pos records)))).records =
        state.records ++ ((layout pos records).filter fun entry => entry.finish ≤ n).map
          (fun entry => (entry.record, truncU64 entry.start)) ∧
      (state.run options (wholeIn n (allFragments (layout pos records)))).reports =
        state.reports := by
  have inside : ∀ fragment, Inside options fragment := by
    intro fragment
    rw [Inside, zero]
    exact Nat.zero_le _
  induction records generalizing pos state with
  | nil => simp [layout, allFragments, wholeIn, run]
  | cons record records inductionHypothesis =>
    have placed := placed_fragments true pos record
    have whole := fragments_whole pos record
    have finish := finish_fragments pos record
    rw [layout, allFragments_cons]
    generalize fragments true pos record = parts at placed whole finish
    rcases Nat.lt_or_ge n (endOf pos parts) with short | long
    · -- the record is cut off, and all later ones are behind the cut
      obtain ⟨last, lastMember, lastFinish⟩ := exists_finish_eq_endOf pos whole.ne_nil
      have cut : parts.dropWhile (fun fragment => fragment.finish ≤ n) ≠ [] := by
        intro none
        have early := List.dropWhile_eq_nil_iff.mp none last lastMember
        simp only [decide_eq_true_eq] at early
        omega
      have prefix_ : wholeIn n (parts ++ allFragments (layout (endOf pos parts) records)) =
          parts.takeWhile fun fragment => fragment.finish ≤ n := by
        rw [wholeIn, List.takeWhile_append, if_neg]
        intro all
        have sizes := congrArg List.length
          (@List.takeWhile_append_dropWhile _ (fun fragment => decide (fragment.finish ≤ n)) parts)
        rw [List.length_append, all] at sizes
        exact cut (List.length_eq_zero_iff.mp (by omega))
      have nothing : (Entry.mk record parts :: layout (endOf pos parts) records).filter
          (fun entry => entry.finish ≤ n) = [] := by
        rw [List.filter_eq_nil_iff]
        intro entry member
        rw [decide_eq_true_eq, Nat.not_le]
        rcases List.mem_cons.mp member with rfl | later
        · rw [finish]
          exact short
        · exact short.trans (lt_finish_of_mem_layout later)
      rw [prefix_, nothing, List.map_nil, List.append_nil]
      rw [← @List.takeWhile_append_dropWhile _ (fun fragment => decide (fragment.finish ≤ n)) parts]
        at whole
      by_cases none : (parts.takeWhile fun fragment => fragment.finish ≤ n) = []
      · rw [none]
        exact ⟨rfl, rfl⟩
      · obtain ⟨held, ran⟩ := run_whole_cut ready whole none cut fun fragment _ => inside fragment
        rw [ran]
        exact ⟨rfl, rfl⟩
    · have all : ∀ fragment ∈ parts, fragment.finish ≤ n := fun fragment member =>
        (offset_bounds placed member).2.trans long
      have kept : wholeIn n (parts ++ allFragments (layout (endOf pos parts) records)) =
          parts ++ wholeIn n (allFragments (layout (endOf pos parts) records)) :=
        List.takeWhile_append_of_pos fun fragment member => decide_eq_true (all fragment member)
      obtain ⟨readyNext, returned, reports⟩ :=
        run_whole ready whole fun fragment _ => inside fragment
      obtain ⟨others, reportsLast⟩ := @inductionHypothesis (endOf pos parts) _ readyNext
      have first : (Entry.mk record parts).finish ≤ n := by
        rw [finish]
        exact long
      rw [kept, run_append, List.filter_cons, if_pos (decide_eq_true first)]
      refine ⟨?_, reportsLast.trans reports⟩
      rw [others, returned, List.map_cons, List.append_assoc, List.singleton_append]
      rfl

/-- Reading the first `n` bytes of a log. -/
theorem readAll_take_image (records : List Bytes) (n : Nat) {options : Options}
    (zero : options.initial = 0) {fuel : Nat}
    (enough : ((image records).take n).length + 2 ≤ fuel) :
    ∃ last, (openReader ((image records).take n) options).readAll fuel =
        some (((layout 0 records).filter fun entry => entry.finish ≤ n).map
          (fun entry => (entry.record, truncU64 entry.start)), last) ∧
      last.reports = [] := by
  have start : firstBlock options.initial = 0 := by
    rw [zero]
    decide
  obtain ⟨placed, ⟨tail, bytes⟩, ends⟩ := take_encode (placed_layout 0 records) n
  have nonzero : ∀ fragment ∈ wholeIn n (allFragments (layout 0 records)),
      ¬ (fragment.type = 0 ∧ fragment.payload = []) := fun fragment member both =>
    type_ne_zero_of_mem_layout (List.takeWhile_subset _ member) both.1
  obtain ⟨last, ran, reports⟩ := @readAll_run options ((image records).take n)
    (wholeIn n (allFragments (layout 0 records))) tail (by rw [zero]; decide)
    (by rw [start]; exact placed) (by rw [start]; exact bytes) nonzero
    (by rw [start]; exact ends) _ enough
  obtain ⟨returned, silent⟩ := @run_wholeIn options zero n records 0 _ (start_ready options)
  rw [returned] at ran
  exact ⟨last, ran, reports.trans silent⟩

/-- Reading a whole log. -/
theorem readAll_image (records : List Bytes) {options : Options} (zero : options.initial = 0)
    {fuel : Nat} (enough : (image records).length + 2 ≤ fuel) :
    ∃ last, (openReader (image records) options).readAll fuel =
        some ((layout 0 records).map fun entry => (entry.record, truncU64 entry.start), last) ∧
      last.reports = [] := by
  have read := @readAll_take_image records (image records).length options zero fuel
    (by rw [List.take_length]; exact enough)
  have all : (layout 0 records).filter (fun entry => entry.finish ≤ (image records).length) =
      layout 0 records :=
    List.filter_eq_self.mpr fun entry member => decide_eq_true (finish_le_of_mem_layout member)
  rw [List.take_length, all] at read
  exact read

/-- A log written in any number of sessions and cut off after `n` bytes: reading it
returns exactly the records whose last byte is among the first `n`, in order, and reports
nothing. The first equation says where in the file the entries stand. -/
theorem truncated_log_reads_whole_records (sessions : List (List Bytes)) (n : Nat)
    (reporting : Bool) (fuel : Nat)
    (enough : ((writeLog (fun _ => .ok) sessions).2.contents.take n).length + 2 ≤ fuel) :
    (writeLog (fun _ => .ok) sessions).2.contents =
        encode 0 (allFragments (layout 0 sessions.flatten)) ∧
      ∃ returned last,
        (openReader ((writeLog (fun _ => .ok) sessions).2.contents.take n)
          ⟨reporting, 0⟩).readAll fuel = some (returned, last) ∧
        returned.map Prod.fst =
          ((layout 0 sessions.flatten).filter fun entry => entry.finish ≤ n).map Entry.record ∧
        last.reports = [] := by
  rw [contents_writeLog] at *
  obtain ⟨last, ran, silent⟩ :=
    @readAll_take_image sessions.flatten n ⟨reporting, 0⟩ rfl fuel enough
  refine ⟨rfl, _, last, ran, ?_, silent⟩
  rw [List.map_map]
  rfl

/-- Two sessions, cut off inside the last record. -/
theorem truncated_log_reads_whole_records_two_sessions :
    ∃ returned last,
      (openReader ((writeLog (fun _ => .ok) [[[1]], [[2, 3]]]).2.contents.take 10)
        ⟨true, 0⟩).readAll 20 = some (returned, last) ∧
      returned.map Prod.fst = [[1]] ∧ last.reports = [] := by
  obtain ⟨-, returned, last, ran, same, silent⟩ :=
    truncated_log_reads_whole_records [[[1]], [[2, 3]]] 10 true 20 (by
      rw [List.length_take]
      omega)
  refine ⟨returned, last, ran, ?_, silent⟩
  rw [same]
  change ((layout 0 [[1], [2, 3]]).filter _).map _ = _
  rw [layout_pair]
  decide

/-! ### Failing appends -/

/-- If no trailer is lost, acknowledged records are read back, and nothing is reported. -/
theorem acknowledged_records_readable (outcome : Nat → Status) (records : List Bytes)
    (kept : (Writer.new (WritableFile.new outcome)).TrailersKept records)
    (acknowledged : ∀ status ∈ ((Writer.new (WritableFile.new outcome)).addRecords records).1,
      status = .ok) (reporting : Bool) (fuel : Nat)
    (enough : ((Writer.new (WritableFile.new outcome)).addRecords records).2.dest.contents.length +
      2 ≤ fuel) :
    ∃ returned last,
      (openReader ((Writer.new (WritableFile.new outcome)).addRecords records).2.dest.contents
        ⟨reporting, 0⟩).readAll fuel = some (returned, last) ∧
      returned.map Prod.fst = records ∧ last.reports = [] := by
  have synced : (Writer.new (WritableFile.new outcome)).Synced := rfl
  obtain ⟨written, -⟩ := Writer.addRecords_ok synced kept acknowledged
  have contents : ((Writer.new (WritableFile.new outcome)).addRecords records).2.dest.contents =
      image records := written
  rw [contents] at enough ⊢
  obtain ⟨last, ran, silent⟩ := @readAll_image records ⟨reporting, 0⟩ rfl fuel enough
  refine ⟨_, last, ran, ?_, silent⟩
  rw [List.map_map]
  exact map_record_layout 0 records

/-- Two acknowledged records. -/
theorem acknowledged_records_readable_two_records :
    ∃ returned last,
      (openReader ((Writer.new (WritableFile.new fun _ => .ok)).addRecords
        [[1], [2, 3]]).2.dest.contents ⟨true, 0⟩).readAll
          (((Writer.new (WritableFile.new fun _ => .ok)).addRecords
            [[1], [2, 3]]).2.dest.contents.length + 2) = some (returned, last) ∧
      returned.map Prod.fst = [[1], [2, 3]] ∧ last.reports = [] := by
  have reliable : (Writer.new (WritableFile.new fun _ => .ok)).Reliable := fun _ => rfl
  obtain ⟨acknowledged, -, kept⟩ := reliable.addRecords [[1], [2, 3]]
  exact acknowledged_records_readable (fun _ => .ok) [[1], [2, 3]] kept acknowledged true _
    (Nat.le_refl _)

/-- A record that fits its block, with all three calls succeeding. -/
theorem Writer.addRecord_fitting {writer : Writer WritableFile} {data : Bytes}
    (short : data.length ≤ room writer.blockOffset)
    (ok : ∀ call, writer.startBlock.dest.calls ≤ call → call < writer.startBlock.dest.calls + 3 →
      writer.startBlock.dest.outcome call = .ok) :
    (writer.addRecord data).1 = .ok ∧
      (writer.addRecord data).2.dest = ⟨writer.startBlock.dest.contents ++
          (header RecordType.kFullType.toByte data.length ++ data),
        writer.startBlock.dest.calls + 3, writer.startBlock.dest.outcome⟩ ∧
      (writer.addRecord data).2.blockOffset =
        writer.startBlock.blockOffset + kHeaderSize + data.length := by
  have length : writer.startBlock.fragmentLength data.length = data.length := by
    rw [Writer.fragmentLength, Writer.avail_startBlock]
    split <;> omega
  have once : writer.addRecord data = writer.emitFragment true data := by
    rw [Writer.addRecord, Writer.addRecordLoop]
    simp [length]
  have headerOk := ok writer.startBlock.dest.calls (Nat.le_refl _) (by omega)
  have payloadOk := ok (writer.startBlock.dest.calls + 1) (by omega) (by omega)
  have flushOk := ok (writer.startBlock.dest.calls + 1 + 1) (by omega) (by omega)
  rw [once, Writer.blockOffset_emitFragment, length, List.take_length]
  refine ⟨?_, ?_, rfl⟩ <;>
    simp [Writer.emitFragment, Writer.emitPhysicalRecord, WritableFile.append, WritableFile.flush,
      headerOk, payloadOk, flushOk, Status.isOk, length, fragmentType]

/-- A record that leaves six bytes of its block, then an empty one, with the trailer between
them lost. -/
theorem hides_second_record {outcome : Nat → Status} (failed : outcome 3 = .ioError "")
    (others : ∀ call, call ≠ 3 → outcome call = .ok) {data : Bytes} (size : data.length = 32755) :
    ((Writer.new (WritableFile.new outcome)).addRecords [data, []]).1 = [.ok, .ok] ∧
      ∃ last, (openReader ((Writer.new (WritableFile.new outcome)).addRecords
          [data, []]).2.dest.contents ⟨true, 0⟩).readAll 40000 = some ([(data, 0)], last) := by
  have fits : 32755 ≤ room 0 := by decide
  have started : (Writer.new (WritableFile.new outcome)).startBlock =
      Writer.new (WritableFile.new outcome) := by
    simp [Writer.startBlock, Writer.new, kBlockSize, kHeaderSize]
  obtain ⟨firstOk, firstDest, firstOffset⟩ :=
    @Writer.addRecord_fitting (Writer.new (WritableFile.new outcome)) data
      (by rw [size]; exact fits) (by
        rw [started]
        exact fun call _ (early : call < 3) => others call (by omega))
  rw [started] at firstDest firstOffset
  simp only [Writer.addRecords]
  generalize (Writer.new (WritableFile.new outcome)).addRecord data = first at *
  -- the trailer is not written, and the next block begins all the same
  have edge : first.2.blockOffset = 32762 := by
    simp only [Writer.new, kHeaderSize, size] at firstOffset
    omega
  have lost : first.2.startBlock.dest =
      ⟨header RecordType.kFullType.toByte data.length ++ data, 4, outcome⟩ := by
    simp [Writer.startBlock, edge, firstDest, WritableFile.append, WritableFile.new, Writer.new,
      kBlockSize, kHeaderSize, failed, Status.isOk]
  obtain ⟨secondOk, secondDest, -⟩ := @Writer.addRecord_fitting first.2 [] (Nat.zero_le _) (by
    rw [lost]
    exact fun call (late : 4 ≤ call) _ => others call (by omega))
  rw [lost] at secondDest
  refine ⟨by rw [firstOk, secondOk], ?_⟩
  rw [secondDest]
  have bytes : header RecordType.kFullType.toByte data.length ++ data ++
      (header RecordType.kFullType.toByte ([] : Bytes).length ++ []) =
        encode 0 [⟨0, 1, data⟩] ++ header 1 0 := by
    simp [encode, Fragment.bytes, RecordType.toByte, RecordType.toNat, Coding.lowByte]
  have finish : endOf 0 [⟨0, 1, data⟩] = 32762 := by
    simp only [endOf, Fragment.finish, kHeaderSize, size]
  have start : firstBlock 0 = 0 := by decide
  have length : (encode 0 [⟨0, 1, data⟩] ++ header 1 0).length = 32769 := by
    simp only [encode, List.length_append, List.length_replicate, Fragment.length_bytes, size,
      length_header, List.length_nil]
  obtain ⟨last, ran, -⟩ := @readAll_run ⟨true, 0⟩ (encode 0 [⟨0, 1, data⟩] ++ header 1 0)
    [⟨0, 1, data⟩] (header 1 0) (by decide) (by
      rw [start]
      have atStart : headerOffset 0 = 0 := by decide
      refine ⟨atStart.symm, ?_, trivial⟩
      simp only [size, kBlockSize, kHeaderSize]
      omega) (by rw [start, List.drop_zero]) (by simp) (by
      rw [start, finish]
      intro reader standing result
      refine standing.readPhysicalRecord_end result ?_
      rw [length]
      decide) 40000 (by rw [length]; omega)
  rw [bytes]
  refine ⟨last, ran.trans ?_⟩
  rw [run_cons, accept_full (start_ready _) (Nat.zero_le _) rfl]
  rfl

/-- The destination fails on its fourth call only, which is the trailer between the two
records of the run. Both records are acknowledged, and the second one is lost: it
starts six bytes before the block edge where the reader looks for it. -/
theorem lost_trailer_hides_record :
    ((Writer.new (WritableFile.new fun call => if call = 3 then .ioError "" else .ok)).addRecords
        [List.replicate 32755 0, []]).1 = [.ok, .ok] ∧
      ∃ last, (openReader ((Writer.new (WritableFile.new fun call =>
          if call = 3 then .ioError "" else .ok)).addRecords
            [List.replicate 32755 0, []]).2.dest.contents ⟨true, 0⟩).readAll 40000 =
        some ([(List.replicate 32755 0, 0)], last) :=
  hides_second_record rfl (fun _ different => if_neg different) List.length_replicate

end LevelDbXy.Log
