import LevelDbXy.DataStructure.SkipListConcurrent

/-!
# Lists only grow

The nodes of the levels are determined by the links, and whatever the writer and the reader of a
skip list do, a step leaves every node on its level and its key in it.
-/

/-- Following links visits the same nodes whoever follows them. -/
theorem LinkChain.unique {ν : Type*} {next : ν → Option (Option ν)} {x : ν} {ids ids' : List ν}
    (chain : LinkChain next x ids) (chain' : LinkChain next x ids') : ids = ids' := by
  induction ids generalizing x ids' with
  | nil =>
    cases ids' with
    | nil => rfl
    | cons y ys => cases Option.some.inj (chain.symm.trans chain'.1)
  | cons y ys inductionHypothesis =>
    cases ids' with
    | nil => cases Option.some.inj (chain.1.symm.trans chain')
    | cons y' ys' =>
      obtain rfl := Option.some.inj (Option.some.inj (chain.1.symm.trans chain'.1))
      rw [inductionHypothesis chain.2 chain'.2]

namespace LevelDbXy.SkipList

variable {Key : Type} {compare : Key → Key → Int} {list list' : SkipList Key}
  {levels levels' : Nat → List Nat} {keyAt keyAt' : Nat → Key}

/-- Every node stays on its levels and keeps its key. -/
structure Grows (levels : Nat → List Nat) (keyAt : Nat → Key) (levels' : Nat → List Nat)
    (keyAt' : Nat → Key) : Prop where
  sublist : ∀ level < kMaxHeight, (levels level).Sublist (levels' level)
  sameKey : ∀ x ∈ levels 0, keyAt' x = keyAt x

/-- A list has one representation. -/
theorem Represents.unique (rep : Represents compare list levels keyAt)
    (rep' : Represents compare list levels' keyAt') : Grows levels keyAt levels' keyAt' where
  sublist level inHeight := by
    rw [(rep.chain level inHeight).unique (rep'.chain level inHeight)]
  sameKey x listed := by
    have same := (rep.chain 0 (by decide)).unique (rep'.chain 0 (by decide))
    exact Option.some.inj ((rep'.keyed x (same ▸ listed)).symm.trans (rep.keyed x listed))

/-- Growth adds up. -/
theorem Grows.trans {levels'' : Nat → List Nat} {keyAt'' : Nat → Key}
    (earlier : Grows levels keyAt levels' keyAt') (later : Grows levels' keyAt' levels'' keyAt'') :
    Grows levels keyAt levels'' keyAt'' where
  sublist level inHeight := (earlier.sublist level inHeight).trans (later.sublist level inHeight)
  sameKey x listed := by
    rw [later.sameKey x ((earlier.sublist 0 (by decide)).subset listed), earlier.sameKey x listed]

/-- The keys stay as well. -/
theorem Grows.mem_keys (grows : Grows levels keyAt levels' keyAt') {key : Key}
    (member : key ∈ (levels 0).map keyAt) : key ∈ (levels' 0).map keyAt' := by
  obtain ⟨x, listed, rfl⟩ := List.mem_map.mp member
  exact List.mem_map.mpr ⟨x, (grows.sublist 0 (by decide)).subset listed, grows.sameKey x listed⟩

section Steps

variable {config after : Config Key}

/-- A step from a list to another, through some representations of the two. -/
def ListGrows (compare : Key → Key → Int) (list list' : SkipList Key) : Prop :=
  ∃ levels keyAt levels' keyAt', Represents compare list levels keyAt ∧
    Represents compare list' levels' keyAt' ∧ Grows levels keyAt levels' keyAt'

/-- Which representations are taken does not matter. -/
theorem ListGrows.grows (listGrows : ListGrows compare list list')
    (rep : Represents compare list levels keyAt) (rep' : Represents compare list' levels' keyAt') :
    Grows levels keyAt levels' keyAt' := by
  obtain ⟨_, _, _, _, first, second, grows⟩ := listGrows
  exact ((rep.unique first).trans grows).trans (second.unique rep')

/-- A step that leaves the list alone. -/
theorem ListGrows.refl (invariant : Invariant compare config) :
    ListGrows compare config.list config.list := by
  obtain ⟨levels, keyAt, seen, -⟩ := invariant
  exact ⟨levels, keyAt, levels, keyAt, seen.rep, seen.rep, seen.rep.unique seen.rep⟩

/-- A node that is allocated is on no level yet. -/
theorem storeMaxHeight_grows (lawful : ThreeWay compare) (invariant : Invariant compare config)
    {key : Key} {height : Nat} {prev : List (Option Nat)}
    (standing : config.writer = .searched key height prev) :
    ListGrows compare config.list
      (newNode { config.list with maxHeight := max config.list.maxHeight height } key height) := by
  obtain ⟨levels, keyAt, seen, -, writerOk⟩ := invariant
  rw [standing] at writerOk
  obtain ⟨-, -, -, heightBound, -⟩ := writerOk
  have rep := (Linked.start seen.rep key height (max config.list.maxHeight height)).represents
    seen.rep lawful.weakOrder (Nat.zero_le _) heightBound
  rw [insertedLevels_none] at rep
  refine ⟨levels, keyAt, levels, _, seen.rep, rep, fun _ _ => List.Sublist.refl _,
    fun x listed => ?_⟩
  exact Function.update_of_ne (Nat.ne_of_lt (seen.rep.inside x listed).2) _ _

section Linking

variable {key : Key} {x height level : Nat} {prev : List (Option Nat)}

/-- A store into a node that is not published is not visible on its level. -/
theorem storeNew_grows (lawful : ThreeWay compare) (invariant : Invariant compare config)
    (standing : config.writer = .linking key x height prev level) (target : Option Nat) :
    ListGrows compare config.list (config.list.setNext level x target) := by
  obtain ⟨visible, keyAt, seen, -, writerOk⟩ := invariant
  rw [standing] at writerOk
  obtain ⟨old, levels, oldKeyAt, rep, rfl, linked, rfl, rfl, isRecorded, -, -, -, inHeight,
    heightBound⟩ := writerOk
  have repAfter := (linked.storeNew rep inHeight target).1.represents rep lawful.weakOrder
    (by omega) heightBound
  exact ⟨_, _, _, _, seen.rep, repAfter, fun _ _ => List.Sublist.refl _, fun _ _ => rfl⟩

/-- A node that is published is one more on its level. -/
theorem publish_grows (lawful : ThreeWay compare) (invariant : Invariant compare config)
    (standing : config.writer = .publishing key x height prev level)
    {before : Nat} (recorded : prev[level]? = some (some before)) :
    ListGrows compare config.list (config.list.setNext level before (some x)) := by
  obtain ⟨visible, keyAt, seen, -, writerOk⟩ := invariant
  rw [standing] at writerOk
  obtain ⟨old, levels, oldKeyAt, ⟨rep, rfl, linked, rfl, rfl, isRecorded, -, -, -, inHeight,
    heightBound⟩, stored⟩ := writerOk
  obtain rfl := Option.some.inj (Option.some.inj (recorded.symm.trans (isRecorded level inHeight)))
  have repAfter := (linked.publish rep (by omega) stored).represents rep lawful.weakOrder
    (by omega) heightBound
  exact ⟨_, _, _, _, seen.rep, repAfter,
    fun l _ => insertedLevels_grows compare levels oldKeyAt key old.nodes.length level l,
    fun _ _ => rfl⟩

end Linking

/-- No step of either thread takes a node out of a level, or a key from those begun. -/
theorem access_grows (lawful : ThreeWay compare) {action : Access Key}
    (invariant : Invariant compare config)
    (stepped : access compare config action = some after) :
    ListGrows compare config.list after.list ∧ config.begun ⊆ after.begun := by
  have same : after.list = config.list ∧ config.begun ⊆ after.begun →
      ListGrows compare config.list after.list ∧ config.begun ⊆ after.begun := by
    rintro ⟨same, begun⟩
    rw [same]
    exact ⟨.refl invariant, begun⟩
  cases action with
  | beginInsert key height =>
    simp only [access] at stepped
    split at stepped
    · obtain ⟨found, -, rest⟩ := Option.bind_eq_some_iff.mp stepped
      obtain ⟨equal, -, begins⟩ := Option.bind_eq_some_iff.mp rest
      cases equal with
      | true => cases begins
      | false =>
        rw [← Option.some.inj begins] at same ⊢
        exact same ⟨rfl, List.subset_cons_self _ _⟩
    · cases stepped
  | storeMaxHeight =>
    cases standing : config.writer with
    | searched key height prev =>
      rw [access_storeMaxHeight standing] at stepped
      rw [← Option.some.inj stepped]
      exact ⟨storeMaxHeight_grows lawful invariant standing, List.Subset.refl _⟩
    | _ => simp [access, standing] at stepped
  | storeNew =>
    cases standing : config.writer with
    | linking key x height prev level =>
      simp only [access, standing] at stepped
      obtain ⟨before, -, rest⟩ := Option.bind_eq_some_iff.mp stepped
      obtain ⟨target, -, stores⟩ := Option.bind_eq_some_iff.mp rest
      rw [← Option.some.inj stores]
      exact ⟨storeNew_grows lawful invariant standing target, List.Subset.refl _⟩
    | _ => simp [access, standing] at stepped
  | publish =>
    cases standing : config.writer with
    | publishing key x height prev level =>
      simp only [access, standing] at stepped
      obtain ⟨before, recorded, stores⟩ := Option.bind_eq_some_iff.mp stepped
      have grows := publish_grows lawful invariant standing (Option.join_eq_some_iff.mp recorded)
      split_ifs at stores
      · rw [← Option.some.inj stores]
        exact ⟨grows, List.Subset.refl _⟩
      · rw [← Option.some.inj stores]
        exact ⟨grows, List.Subset.refl _⟩
    | _ => simp [access, standing] at stepped
  | beginSearch target =>
    simp only [access] at stepped
    split at stepped
    · exact same (by rw [← Option.some.inj stepped]; exact ⟨rfl, List.Subset.refl _⟩)
    · exact same (by rw [← Option.some.inj stepped]; exact ⟨rfl, List.Subset.refl _⟩)
    · cases stepped
  | loadMaxHeight =>
    simp only [access] at stepped
    split at stepped
    · exact same (by rw [← Option.some.inj stepped]; exact ⟨rfl, List.Subset.refl _⟩)
    · cases stepped
  | loadNext =>
    simp only [access] at stepped
    split at stepped
    · exact same (by rw [← Option.some.inj stepped]; exact ⟨rfl, List.Subset.refl _⟩)
    · cases stepped

end Steps

end LevelDbXy.SkipList
