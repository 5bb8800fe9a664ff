import LevelDbXy.Algorithm.Random
import LevelDbXy.DataStructure.SkipListSet

/-!
# The heights of a skip list

`RandomHeight` of `data_structure/skip_list.h` over the generator that is a member of the
list. A height is always one that `Insert` can use, so that a list which draws its own heights
is a sorted set as well, and the heights drawn are not all the same.
-/

namespace LevelDbXy.SkipList

/-- `kBranching`. -/
def kBranching : Int32 := 4

/-- The loop of `RandomHeight`; `rounds` is `kMaxHeight - height`. -/
def randomHeightLoop : Nat → Nat → Random → Option (Nat × Random)
  | 0, height, rnd => some (height, rnd)
  | rounds + 1, height, rnd => do
    let (grows, rnd) ← rnd.oneIn kBranching
    if grows then randomHeightLoop rounds (height + 1) rnd else some (height, rnd)

/-- `RandomHeight`, with its assertion. -/
def randomHeight (rnd : Random) : Option (Nat × Random) := do
  let (height, rnd) ← randomHeightLoop (kMaxHeight - 1) 1 rnd
  if 0 < height ∧ height ≤ kMaxHeight then some (height, rnd) else none

/-- `RandomHeight` so many times. -/
def drawHeights : Nat → Random → Option (List Nat × Random)
  | 0, rnd => some ([], rnd)
  | count + 1, rnd => do
    let (height, rnd) ← randomHeight rnd
    let (heights, rnd) ← drawHeights count rnd
    some (height :: heights, rnd)

/-- The seed that the constructor of `SkipList` gives to `rnd_`. -/
def rndSeed : UInt32 := 0xDEADBEEF

variable {Key : Type}

/-- `Insert`, with the height that `RandomHeight` draws. -/
def insertDrawing (compare : Key → Key → Int) (state : SkipList Key × Random) (key : Key) :
    Option (SkipList Key × Random) := do
  let (height, rnd) ← randomHeight state.2
  let list ← state.1.insertAsserting compare key height
  some (list, rnd)

/-- `Insert` of one key after the other. -/
def insertAllDrawing (compare : Key → Key → Int) (state : SkipList Key × Random)
    (keys : List Key) : Option (SkipList Key × Random) :=
  keys.foldlM (insertDrawing compare) state

/-! ### One height -/

/-- The next draw lets the node grow. -/
def grows (rnd : Random) : Bool := rnd.advance.seed % 4 == 0

/-- A draw for a further level, and the generator after it. -/
theorem oneIn_kBranching (rnd : Random) : rnd.oneIn kBranching = some (grows rnd, rnd.advance) :=
  rfl

/-- All draws but the last one let the node grow. -/
theorem randomHeightLoop_spec (rounds height : Nat) (rnd : Random) :
    ∃ more draws, randomHeightLoop rounds height rnd =
        some (height + more, Random.advance^[draws] rnd) ∧ more ≤ rounds ∧
      (∀ index, index + 1 < draws → grows (Random.advance^[index] rnd) = true) ∧
      (0 < rounds → 0 < draws ∧ (grows rnd = true → 0 < more) ∧
        (grows rnd = false → more = 0 ∧ draws = 1)) := by
  induction rounds generalizing height rnd with
  | zero => exact ⟨0, 0, rfl, Nat.le_refl _, by omega, by omega⟩
  | succ rounds inductionHypothesis =>
    cases grew : grows rnd with
    | false =>
      refine ⟨0, 1, ?_, Nat.zero_le _, by omega, by simp⟩
      simp [randomHeightLoop, oneIn_kBranching, grew]
    | true =>
      obtain ⟨more, draws, drawn, bounded, before, -⟩ :=
        inductionHypothesis (height + 1) rnd.advance
      refine ⟨more + 1, draws + 1, ?_, by omega, ?_, by simp⟩
      · simp only [randomHeightLoop, oneIn_kBranching, grew, Option.bind_eq_bind, Option.bind_some,
          if_true, drawn, Function.iterate_succ_apply]
        rw [Nat.add_assoc, Nat.add_comm 1 more]
      · intro index inside
        cases index with
        | zero => exact grew
        | succ index =>
          rw [Function.iterate_succ_apply]
          exact before index (by omega)

/-- A height and the number of draws it took. -/
structure Drawn (rnd : Random) (height draws : Nat) : Prop where
  low : 1 ≤ height
  high : height ≤ kMaxHeight
  positive : 0 < draws
  before : ∀ index, index + 1 < draws → grows (Random.advance^[index] rnd) = true
  tall : height ≠ 1 → grows rnd = true
  short : height = 1 → grows rnd = false ∧ draws = 1

/-- `RandomHeight` returns, and its assertion holds. -/
theorem randomHeight_drawn (rnd : Random) :
    ∃ height draws, randomHeight rnd = some (height, Random.advance^[draws] rnd) ∧
      Drawn rnd height draws := by
  obtain ⟨more, draws, drawn, bounded, before, first⟩ :=
    randomHeightLoop_spec (kMaxHeight - 1) 1 rnd
  obtain ⟨positive, grew, stayed⟩ := first (by decide)
  have high : 1 + more ≤ kMaxHeight := by
    simp only [kMaxHeight] at bounded ⊢
    omega
  refine ⟨1 + more, draws, ?_, Nat.le_add_right 1 more, high, positive, before, ?_, ?_⟩
  · simp only [randomHeight, drawn, Option.bind_eq_bind, Option.bind_some]
    exact if_pos ⟨by omega, high⟩
  · intro tall
    by_contra stays
    have noMore := (stayed (Bool.eq_false_iff.mpr stays)).1
    omega
  · intro short
    have stays : grows rnd = false := by
      rw [Bool.eq_false_iff]
      intro isTrue
      have oneMore := grew isTrue
      omega
    exact ⟨stays, (stayed stays).2⟩

/-! ### Insertions -/

/-- A list that draws its heights does as it would do with the same heights given to it. -/
theorem insertAllDrawing_eq (compare : Key → Key → Int) (list : SkipList Key) (rnd : Random)
    (keys : List Key) :
    ∃ calls drawn, calls.map Prod.fst = keys ∧
      (∀ call ∈ calls, 1 ≤ call.2 ∧ call.2 ≤ kMaxHeight) ∧
      insertAllDrawing compare (list, rnd) keys =
        (list.insertAll compare calls).map (·, Random.advance^[drawn] rnd) := by
  induction keys generalizing list rnd with
  | nil => exact ⟨[], 0, rfl, by simp, rfl⟩
  | cons key keys inductionHypothesis =>
    obtain ⟨height, draws, returned, drawn⟩ := randomHeight_drawn rnd
    have inside : 1 ≤ height ∧ height ≤ kMaxHeight := ⟨drawn.low, drawn.high⟩
    have runs : insertAllDrawing compare (list, rnd) (key :: keys) =
        (list.insertAsserting compare key height).bind fun next =>
          insertAllDrawing compare (next, Random.advance^[draws] rnd) keys := by
      simp [insertAllDrawing, insertDrawing, returned, Option.bind_assoc]
    cases inserted : list.insertAsserting compare key height with
    | none =>
      -- the heights of the calls that are not made do not matter
      refine ⟨(key, height) :: keys.map (·, 1), 0, ?_, ?_, ?_⟩
      · simp [Function.comp_def]
      · refine List.forall_mem_cons.mpr ⟨inside, fun call later => ?_⟩
        obtain ⟨other, -, rfl⟩ := List.mem_map.mp later
        exact ⟨Nat.le_refl 1, (by decide : 1 ≤ kMaxHeight)⟩
      · rw [runs, insertAll, List.foldlM_cons, inserted]
        rfl
    | some next =>
      obtain ⟨calls, later, isKeys, heights, same⟩ :=
        inductionHypothesis next (Random.advance^[draws] rnd)
      rw [← Function.iterate_add_apply] at same
      refine ⟨(key, height) :: calls, later + draws, by rw [List.map_cons, isKeys], ?_, ?_⟩
      · exact List.forall_mem_cons.mpr ⟨inside, heights⟩
      · rw [runs, insertAll, List.foldlM_cons, inserted]
        exact same

/-- A skip list that draws its own heights is the sorted set of the keys inserted, and its
generator does not degenerate. -/
theorem insertAllDrawing_sorted_set [Inhabited Key] {compare : Key → Key → Int}
    (lawful : ThreeWay compare) (separates : ∀ a b, compare a b = 0 → a = b) {keys : List Key}
    (distinct : keys.Nodup) :
    ∃ list rnd held, insertAllDrawing compare (new, .new rndSeed) keys = some (list, rnd) ∧
      held.Perm keys ∧ list.IsSortedSet compare held ∧ rnd.Valid := by
  obtain ⟨calls, drawn, rfl, heights, same⟩ :=
    insertAllDrawing_eq compare new (.new rndSeed) keys
  obtain ⟨list, held, ran, holds, perm⟩ := insertAll_holds lawful separates calls
    (new_holds compare) heights (by simpa using distinct)
  rw [List.append_nil] at perm
  refine ⟨list, _, held, ?_, perm, ?_, (Random.new_valid rndSeed).after drawn⟩
  · rw [same, ran]
    rfl
  · exact isSortedSet_of_holds lawful separates holds (perm.nodup_iff.mpr distinct)

/-! ### All heights -/

/-- Every height that is drawn from here on has the property. -/
def AllHeights (property : Nat → Prop) (rnd : Random) : Prop :=
  ∀ count heights after, drawHeights count rnd = some (heights, after) →
    ∀ height ∈ heights, property height

/-- One height is drawn after the other. -/
theorem drawHeights_succ {rnd : Random} {height draws : Nat}
    (returned : randomHeight rnd = some (height, Random.advance^[draws] rnd)) (count : Nat) :
    drawHeights (count + 1) rnd = (drawHeights count (Random.advance^[draws] rnd)).map
      fun later => (height :: later.1, later.2) := by
  simp [drawHeights, returned, Option.map_eq_bind]

/-- What all heights have those that are drawn later have. -/
theorem AllHeights.tail {property : Nat → Prop} {rnd : Random} {height draws : Nat}
    (all : AllHeights property rnd)
    (returned : randomHeight rnd = some (height, Random.advance^[draws] rnd)) :
    property height ∧ AllHeights property (Random.advance^[draws] rnd) := by
  refine ⟨?_, fun count heights after drawn other member => ?_⟩
  · have first : drawHeights 1 rnd = some ([height], Random.advance^[draws] rnd) := by
      rw [drawHeights_succ returned]
      rfl
    exact all 1 _ _ first height (List.mem_singleton_self _)
  · have longer : drawHeights (count + 1) rnd = some (height :: heights, after) := by
      rw [drawHeights_succ returned, drawn]
      rfl
    exact all (count + 1) _ _ longer other (List.mem_cons_of_mem _ member)

/-- If all nodes are low, no draw lets one grow. -/
theorem AllHeights.grows_eq_false {rnd : Random} (low : AllHeights (· = 1) rnd) (index : Nat) :
    grows (Random.advance^[index] rnd) = false := by
  induction index generalizing rnd with
  | zero =>
    obtain ⟨height, draws, returned, drawn⟩ := randomHeight_drawn rnd
    exact (drawn.short (low.tail returned).1).1
  | succ index inductionHypothesis =>
    obtain ⟨height, draws, returned, drawn⟩ := randomHeight_drawn rnd
    obtain ⟨isLow, later⟩ := low.tail returned
    rw [(drawn.short isLow).2] at later
    exact inductionHypothesis later

/-- If no node is low, of any two draws in a row one lets a node grow. -/
theorem AllHeights.grows_or {rnd : Random} (tall : AllHeights (· ≠ 1) rnd) (index : Nat) :
    grows (Random.advance^[index] rnd) = true ∨ grows (Random.advance^[index + 1] rnd) = true := by
  -- induction over the draws, a whole height at a time
  induction index using Nat.strong_induction_on generalizing rnd with
  | _ index inductionHypothesis =>
    obtain ⟨height, draws, returned, drawn⟩ := randomHeight_drawn rnd
    obtain ⟨isTall, later⟩ := tall.tail returned
    rcases Nat.lt_trichotomy (index + 1) draws with inside | last | beyond
    · exact Or.inl (drawn.before index inside)
    · obtain ⟨next, nextDraws, nextReturned, nextDrawn⟩ :=
        randomHeight_drawn (Random.advance^[draws] rnd)
      rw [last]
      exact Or.inr (nextDrawn.tall (later.tail nextReturned).1)
    · obtain ⟨rest, rfl⟩ := Nat.exists_eq_add_of_le (Nat.le_of_lt_succ beyond)
      have positive := drawn.positive
      have shifted := inductionHypothesis rest (by omega) later
      rw [← Function.iterate_add_apply, ← Function.iterate_add_apply] at shifted
      rw [Nat.add_comm draws rest, Nat.add_right_comm]
      exact shifted

/-- Whether a state grows a node is in its two low bits. -/
theorem grows_of_advance {rnd : Random} {index : Nat} {target : Random}
    (reached : Random.advance^[index] rnd.advance = target) :
    grows (Random.advance^[index] rnd) = (target.seed % 4 == 0) := by
  rw [grows, ← Function.iterate_succ_apply' Random.advance, Function.iterate_succ_apply, reached]

/-- The heights that are drawn from any state on are not all the same. -/
theorem heights_vary {rnd : Random} (valid : rnd.Valid) :
    ∃ count heights after, drawHeights count rnd = some (heights, after) ∧
      ∃ height ∈ heights, ∃ other ∈ heights, height ≠ other := by
  by_contra same
  obtain ⟨height, draws, returned, -⟩ := randomHeight_drawn rnd
  have constant : AllHeights (· = height) rnd := by
    intro count heights after drawn other member
    by_contra differ
    cases count with
    | zero =>
      obtain ⟨rfl, -⟩ := Prod.mk.inj (Option.some.inj drawn)
      cases member
    | succ count =>
      have drawn' := drawn
      rw [drawHeights_succ returned] at drawn'
      obtain ⟨later, -, isLater⟩ := Option.map_eq_some_iff.mp drawn'
      obtain ⟨rfl, -⟩ := Prod.mk.inj isLater
      exact same ⟨_, _, _, drawn, other, member, height, List.mem_cons_self, differ⟩
  by_cases isLow : height = 1
  · -- the state 4 lets a node grow
    subst isLow
    have goal : Random.Valid ⟨4⟩ := ⟨by decide, by decide⟩
    obtain ⟨index, reached⟩ := valid.advance.reaches goal
    have stays := constant.grows_eq_false index
    rw [grows_of_advance reached] at stays
    exact absurd stays (by decide)
  · -- neither the state 1 nor the one after it does
    have goal : Random.Valid ⟨1⟩ := ⟨by decide, by decide⟩
    obtain ⟨index, reached⟩ := valid.advance.reaches goal
    have tall : AllHeights (· ≠ 1) rnd := by
      intro count heights after drawn other member isOne
      exact isLow ((constant count heights after drawn other member).symm.trans isOne)
    have first := grows_of_advance reached
    have second : grows (Random.advance^[index + 1] rnd) = grows ⟨1⟩ := by
      rw [Function.iterate_succ_apply, reached]
    rcases tall.grows_or index with grew | grew
    · rw [first] at grew
      exact absurd grew (by decide)
    · rw [second] at grew
      exact absurd grew (by decide)

end LevelDbXy.SkipList
