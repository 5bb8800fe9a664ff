import Mathlib.Data.List.Sort
import Mathlib.Data.List.TakeWhile

/-!
# Strict weak orders and insertion among equals

A search structure only asks whether one key is strictly below another. This
module collects what such a structure needs from that test: asymmetry and
negative transitivity, the split of a sorted list at a target, and the position
in front of all equivalent keys at which `List.orderedInsert` puts a new one.
Three-way comparison functions are a source of such tests.
-/

/-- A strict order whose incomparability is transitive, stated by the two laws
that searching uses. -/
structure WeakOrder {α : Type*} (lt : α → α → Prop) : Prop where
  asymm : ∀ {a b}, lt a b → ¬ lt b a
  negTrans : ∀ {a b c}, ¬ lt a b → ¬ lt b c → ¬ lt a c

namespace WeakOrder

variable {α β : Type*} {lt : α → α → Prop}

/-- Weakly before: the order in which a sorted list may hold `a` and `b`. -/
def Before (lt : α → α → Prop) (a b : α) : Prop := ¬ lt b a

instance [DecidableRel lt] : DecidableRel (Before lt) := fun a b =>
  inferInstanceAs (Decidable (¬ lt b a))

/-- Nothing is below itself. -/
theorem irrefl (order : WeakOrder lt) (a : α) : ¬ lt a a := fun below =>
  order.asymm below below

/-- Anything weakly before a key below the target is below the target. -/
theorem lt_of_before (order : WeakOrder lt) {a b target : α} (before : Before lt a b)
    (below : lt b target) : lt a target := by
  by_contra notBelow
  exact order.negTrans before notBelow below

/-- Of two elements one stands before the other, or they are equivalent. -/
theorem total (order : WeakOrder lt) : Std.Total (Before lt) where
  total a b := by
    by_cases below : lt b a
    · exact Or.inr (order.asymm below)
    · exact Or.inl below

/-- To stand before is transitive. -/
theorem trans (order : WeakOrder lt) : IsTrans α (Before lt) where
  trans _ _ _ first second := order.negTrans second first

/-- In a list sorted by a key, the entries below a target form a prefix. -/
theorem not_lt_of_mem_dropWhile [DecidableRel lt] (order : WeakOrder lt) (key : β → α)
    {entries : List β} (sorted : (entries.map key).Pairwise (Before lt)) (target : α) {entry : β}
    (member : entry ∈ entries.dropWhile (fun e => lt (key e) target)) :
    ¬ lt (key entry) target := by
  induction entries with
  | nil => simp at member
  | cons first later inductionHypothesis =>
    rw [List.map_cons, List.pairwise_cons] at sorted
    by_cases below : lt (key first) target
    · rw [List.dropWhile_cons_of_pos (by simpa using below)] at member
      exact inductionHypothesis sorted.2 member
    · rw [List.dropWhile_cons_of_neg (by simpa using below)] at member
      rcases List.mem_cons.mp member with rfl | afterwards
      · exact below
      · exact fun entryBelow => below
          (order.lt_of_before (sorted.1 _ (List.mem_map_of_mem afterwards)) entryBelow)

/-- The first entry not below a target comes before every other such entry. -/
theorem before_of_head?_dropWhile [DecidableRel lt] (order : WeakOrder lt) {keys : List α}
    (sorted : keys.Pairwise (Before lt)) {target first : α}
    (found : (keys.dropWhile (fun k => lt k target)).head? = some first) :
    first ∈ keys ∧ ¬ lt first target ∧ ∀ key ∈ keys, ¬ lt key target → ¬ lt key first := by
  have member : first ∈ keys.dropWhile (fun k => lt k target) := List.mem_of_mem_head? found
  obtain ⟨later, split⟩ := List.head?_eq_some_iff.mp found
  have tailSorted := sorted.sublist (List.dropWhile_sublist (fun k => lt k target))
  rw [split, List.pairwise_cons] at tailSorted
  refine ⟨List.dropWhile_subset _ member,
    order.not_lt_of_mem_dropWhile id (by simpa using sorted) target member, ?_⟩
  intro key listed notBelow
  rw [← @List.takeWhile_append_dropWhile _ (fun k => decide (lt k target)) keys, split,
    List.mem_append, List.mem_cons] at listed
  rcases listed with smaller | rfl | afterwards
  · exact absurd (by simpa using List.mem_takeWhile_imp smaller) notBelow
  · exact order.irrefl key
  · exact tailSorted.1 key afterwards

/-- If the search finds no entry, every entry is below the target. -/
theorem lt_of_head?_dropWhile_eq_none [DecidableRel lt] {keys : List α} {target key : α}
    (absent : (keys.dropWhile (fun k => lt k target)).head? = none) (member : key ∈ keys) :
    lt key target := by
  have empty : keys.dropWhile (fun k => lt k target) = [] := List.head?_eq_none_iff.mp absent
  simpa using List.dropWhile_eq_nil_iff.mp empty key member

/-- Insertion happens in front of the first key that is not below the new one. -/
theorem orderedInsert_eq [DecidableRel lt] (key : α) (keys : List α) :
    keys.orderedInsert (Before lt) key =
      keys.takeWhile (fun k => lt k key) ++ key :: keys.dropWhile (fun k => lt k key) := by
  rw [List.orderedInsert_eq_take_drop]
  simp [Before]

/-- Insertion keeps a list sorted. -/
theorem sorted_orderedInsert [DecidableRel lt] (order : WeakOrder lt) (key : α) {keys : List α}
    (sorted : keys.Pairwise (Before lt)) :
    (keys.orderedInsert (Before lt) key).Pairwise (Before lt) :=
  have := order.total
  have := order.trans
  sorted.orderedInsert key keys

/-- The first of the keys that are wanted, if there is one. -/
def IsFirst (lt : α → α → Prop) (keys : List α) (wanted : α → Prop) : Option α → Prop
  | some key => key ∈ keys ∧ wanted key ∧ ∀ other ∈ keys, wanted other → other ≠ key → lt key other
  | none => ∀ key ∈ keys, ¬ wanted key

/-- The last of the keys that are wanted, if there is one. -/
def IsLast (lt : α → α → Prop) : List α → (α → Prop) → Option α → Prop := IsFirst fun a b => lt b a

/-- If the wanted keys are the back part of a strictly sorted list, its head is the first. -/
theorem isFirst_head? {before after : List α} {wanted : α → Prop}
    (strict : (before ++ after).Pairwise lt) (front : ∀ key ∈ before, ¬ wanted key)
    (back : ∀ key ∈ after, wanted key) : IsFirst lt (before ++ after) wanted after.head? := by
  cases after with
  | nil => simpa [IsFirst] using front
  | cons first later =>
    refine ⟨by simp, back first (List.mem_cons_self ..), ?_⟩
    intro other member isWanted different
    rcases List.mem_append.mp member with inFront | inBack
    · exact absurd isWanted (front other inFront)
    · have afterwards := (List.mem_cons.mp inBack).resolve_left different
      exact (List.pairwise_cons.mp (List.pairwise_append.mp strict).2.1).1 other afterwards

/-- If the wanted keys are the front part of a strictly sorted list, its end is the last. -/
theorem isLast_getLast? {before after : List α} {wanted : α → Prop}
    (strict : (before ++ after).Pairwise lt) (front : ∀ key ∈ before, wanted key)
    (back : ∀ key ∈ after, ¬ wanted key) : IsLast lt (before ++ after) wanted before.getLast? := by
  have reversed : IsFirst (fun a b => lt b a) (after.reverse ++ before.reverse) wanted
      before.reverse.head? := by
    refine isFirst_head? ?_ (by simpa using back) (by simpa using front)
    rw [← List.reverse_append, List.pairwise_reverse]
    exact strict
  rw [List.head?_reverse] at reversed
  cases last : before.getLast? with
  | none => simpa [IsLast, IsFirst, last, or_comm] using reversed
  | some key => simpa [IsLast, IsFirst, last, or_comm] using reversed

/-- Being a weak order only depends on which pairs are related. -/
theorem congr {lt' : α → α → Prop} (order : WeakOrder lt) (same : ∀ a b, lt' a b ↔ lt a b) :
    WeakOrder lt' where
  asymm := by
    simp only [same]
    exact order.asymm
  negTrans := by
    simp only [same]
    exact order.negTrans

/-- Pull a weak order back along a function. -/
theorem comap (order : WeakOrder lt) (f : β → α) : WeakOrder (fun a b => lt (f a) (f b)) where
  asymm below := order.asymm below
  negTrans first second := order.negTrans first second

/-- The lexicographic combination of two weak orders, the second deciding
between keys the first cannot tell apart. -/
theorem lex {ltSnd : α → α → Prop} (order : WeakOrder lt) (second : WeakOrder ltSnd) :
    WeakOrder (fun a b => lt a b ∨ ¬ lt b a ∧ ltSnd a b) where
  asymm := by
    rintro a b (below | ⟨notAbove, below⟩) (above | ⟨notBelow, above⟩)
    · exact order.asymm below above
    · exact notBelow below
    · exact notAbove above
    · exact second.asymm below above
  negTrans := by
    intro a b c notAB notBC
    simp only [not_or, not_and] at notAB notBC ⊢
    refine ⟨order.negTrans notAB.1 notBC.1, fun notCA => ?_⟩
    -- the first order ties `a` with `c`, so `b` is tied with both
    exact second.negTrans (notAB.2 (order.negTrans notBC.1 notCA))
      (notBC.2 (order.negTrans notCA notAB.1))

end WeakOrder

/-- A lawful three-way comparison: swapping the arguments flips the sign, and
"not above" is transitive. Keys are equivalent when the result is zero. -/
structure ThreeWay {α : Type*} (cmp : α → α → Int) : Prop where
  antisymm : ∀ a b, (cmp a b).sign = -(cmp b a).sign
  trans : ∀ {a b c}, cmp a b ≤ 0 → cmp b c ≤ 0 → cmp a c ≤ 0

namespace ThreeWay

variable {α : Type*} {cmp : α → α → Int}

/-- The comparison is positive exactly where it is negative the other way round. -/
theorem pos_iff (lawful : ThreeWay cmp) (a b : α) : 0 < cmp a b ↔ cmp b a < 0 := by
  rw [← Int.sign_eq_one_iff_pos, ← Int.sign_eq_neg_one_iff_neg, lawful.antisymm a b]
  generalize (cmp b a).sign = sign
  omega

/-- To be equivalent is symmetric. -/
theorem eq_zero_comm (lawful : ThreeWay cmp) (a b : α) : cmp a b = 0 ↔ cmp b a = 0 := by
  have := lawful.pos_iff a b
  have := lawful.pos_iff b a
  omega

/-- "Strictly below" of a lawful comparison is a strict weak order. -/
theorem weakOrder (lawful : ThreeWay cmp) : WeakOrder (fun a b => cmp a b < 0) where
  asymm := by
    intro a b below above
    have := (lawful.pos_iff a b).mpr above
    omega
  negTrans := by
    intro a b c notAB notBC below
    have aboveB : cmp b a ≤ 0 := by
      by_contra positive
      exact notAB ((lawful.pos_iff b a).mp (by omega))
    have aboveC : cmp c b ≤ 0 := by
      by_contra positive
      exact notBC ((lawful.pos_iff c b).mp (by omega))
    have := lawful.trans aboveC aboveB
    have := (lawful.pos_iff c a).mpr below
    omega

/-- When only equal keys are equivalent, a sorted list without repetitions is strictly
sorted. -/
theorem strict_of_nodup (lawful : ThreeWay cmp) (separates : ∀ a b, cmp a b = 0 → a = b)
    {keys : List α} (sorted : keys.Pairwise (WeakOrder.Before fun a b => cmp a b < 0))
    (distinct : keys.Nodup) : keys.Pairwise fun a b => cmp a b < 0 := by
  refine (sorted.and distinct).imp ?_
  rintro a b ⟨notAfter, different⟩
  have flipped := lawful.pos_iff a b
  have notEqual : cmp a b ≠ 0 := fun equal => different (separates a b equal)
  have notAbove : ¬ cmp b a < 0 := notAfter
  omega

/-- Equivalent keys are those neither of which is strictly below the other. -/
theorem eq_zero_iff (lawful : ThreeWay cmp) (a b : α) :
    cmp a b = 0 ↔ ¬ cmp a b < 0 ∧ ¬ cmp b a < 0 := by
  have flipped := lawful.pos_iff a b
  omega

end ThreeWay
