import LevelDbXy.Library.WeakOrder

/-!
# Three-way comparisons

A strict weak order has a three-way comparison, and a comparison can be refined by another one
that decides between equivalent keys. Both are lawful.
-/

/-- The three-way comparison of a strict weak order. -/
def WeakOrder.toCompare {α : Type*} (lt : α → α → Prop) [DecidableRel lt] (a b : α) : Int :=
  if lt a b then -1 else if lt b a then 1 else 0

namespace WeakOrder

variable {α : Type*} {lt : α → α → Prop} [DecidableRel lt]

/-- The comparison is negative exactly below. -/
theorem toCompare_neg_iff (a b : α) : toCompare lt a b < 0 ↔ lt a b := by
  unfold toCompare
  split_ifs with below above <;> simp [below]

/-- The comparison is not positive exactly where it is not above. -/
theorem toCompare_nonpos_iff (order : WeakOrder lt) (a b : α) :
    toCompare lt a b ≤ 0 ↔ ¬ lt b a := by
  unfold toCompare
  split_ifs with below above
  · simp [order.asymm below]
  · simp [above]
  · simp [above]

/-- The comparison of a strict weak order is a lawful three-way one. -/
theorem toCompare_lawful (order : WeakOrder lt) : ThreeWay (toCompare lt) where
  antisymm a b := by
    unfold toCompare
    by_cases below : lt a b
    · simp [below, order.asymm below]
    · by_cases above : lt b a <;> simp [below, above]
  trans first second := by
    rw [order.toCompare_nonpos_iff] at first second ⊢
    exact order.negTrans second first

end WeakOrder

/-- Compare, and let a second comparison decide between equivalent keys. -/
def ThreeWay.thenBy {α : Type*} (first second : α → α → Int) (a b : α) : Int :=
  if first a b = 0 then second a b else first a b

namespace ThreeWay

variable {α : Type*} {first second : α → α → Int}

/-- The second comparison decides where the first does not. -/
theorem thenBy_of_zero {a b : α} (zero : first a b = 0) : thenBy first second a b = second a b :=
  if_pos zero

/-- The first comparison decides if it can. -/
theorem thenBy_of_ne {a b : α} (nonzero : first a b ≠ 0) : thenBy first second a b = first a b :=
  if_neg nonzero

/-- Two lawful comparisons one after the other are lawful. -/
theorem thenBy_lawful (isFirst : ThreeWay first) (isSecond : ThreeWay second) :
    ThreeWay (thenBy first second) where
  antisymm a b := by
    by_cases zero : first a b = 0
    · rw [thenBy_of_zero zero, thenBy_of_zero ((isFirst.eq_zero_comm a b).mp zero)]
      exact isSecond.antisymm a b
    · rw [thenBy_of_ne zero, thenBy_of_ne (mt (isFirst.eq_zero_comm a b).mpr zero)]
      exact isFirst.antisymm a b
  trans {a b c} ab bc := by
    have notAbove : ∀ {x y}, thenBy first second x y ≤ 0 → first x y ≤ 0 := by
      intro x y below
      by_cases zero : first x y = 0
      · exact zero.le
      · rwa [thenBy_of_ne zero] at below
    have ac := isFirst.trans (notAbove ab) (notAbove bc)
    by_cases zero : first a c = 0
    · -- the three keys are equivalent for the first comparison
      have zeroAB : first a b = 0 := by
        refine le_antisymm (notAbove ab) (not_lt.mp fun below => ?_)
        have backward := isFirst.trans (notAbove bc) ((isFirst.eq_zero_comm a c).mp zero).le
        exact not_lt.mpr backward ((isFirst.pos_iff b a).mpr below)
      have zeroBC : first b c = 0 := by
        refine le_antisymm (notAbove bc) (not_lt.mp fun below => ?_)
        have backward := isFirst.trans ((isFirst.eq_zero_comm a c).mp zero).le (notAbove ab)
        exact not_lt.mpr backward ((isFirst.pos_iff c b).mpr below)
      rw [thenBy_of_zero zeroAB] at ab
      rw [thenBy_of_zero zeroBC] at bc
      rw [thenBy_of_zero zero]
      exact isSecond.trans ab bc
    · rw [thenBy_of_ne zero]
      exact ac

end ThreeWay
