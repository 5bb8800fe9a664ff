import LevelDbXy.Library.WeakOrder

/-!
# Walks along an order

A walk goes from place to place of a strict order, forward or backward, and passes over
whatever does not stand there yet. `OrderWalk.IsWalk` says that every step goes in its direction and
that no element of a set is missed: one that lies between two places of the walk is a place
of the walk. A step keeps this if no element of the set lies strictly between the place it
leaves and the place it reaches (`IsWalk.step`).
-/

namespace OrderWalk

variable {α : Type*}

/-- Which way a step goes. -/
inductive Direction where
  | forward
  | backward
  deriving DecidableEq, Repr

/-- Where a walk stands; the steps are listed from the last one on. -/
def current (origin : α) : List (Direction × α) → α
  | [] => origin
  | (_, place) :: _ => place

/-- All places of a walk. -/
def places (origin : α) (trail : List (Direction × α)) : List α := trail.map Prod.snd ++ [origin]

/-- A step in its direction. -/
def Steps (lt : α → α → Prop) : Direction → α → α → Prop
  | .forward, place, next => lt place next
  | .backward, place, next => lt next place

/-- Every step goes in its direction. -/
def Ordered (lt : α → α → Prop) (origin : α) : List (Direction × α) → Prop
  | [] => True
  | (direction, place) :: earlier =>
    Steps lt direction (current origin earlier) place ∧ Ordered lt origin earlier

/-- The step passes over none of the elements. -/
def Misses (lt : α → α → Prop) (needed : α → Prop) : Direction → α → α → Prop
  | .forward, place, next => ∀ element, needed element → lt place element → ¬ lt element next
  | .backward, place, next => ∀ element, needed element → lt next element → ¬ lt element place

/-- Steps go in their directions, and elements between places are places. -/
structure IsWalk (lt : α → α → Prop) (needed : α → Prop) (origin : α)
    (trail : List (Direction × α)) : Prop where
  ordered : Ordered lt origin trail
  covers : ∀ element, needed element → ∀ low ∈ places origin trail, ∀ high ∈ places origin trail,
    ¬ lt element low → ¬ lt high element → element ∈ places origin trail

/-- The place where a walk stands is one of its places. -/
theorem current_mem (origin : α) (trail : List (Direction × α)) :
    current origin trail ∈ places origin trail := by
  cases trail with
  | nil => exact List.mem_singleton.mpr rfl
  | cons step earlier => exact List.mem_cons_self

variable {lt : α → α → Prop} {needed : α → Prop} {origin : α} {trail : List (Direction × α)}

/-- A walk that has not moved. -/
theorem IsWalk.unmoved (connected : ∀ {a b}, ¬ lt a b → ¬ lt b a → a = b) (origin : α) :
    IsWalk lt needed origin [] where
  ordered := trivial
  covers element _ low isLow high isHigh notBelow notAbove := by
    obtain rfl := List.mem_singleton.mp isLow
    obtain rfl := List.mem_singleton.mp isHigh
    exact List.mem_singleton.mpr (connected notBelow notAbove)

/-- A step that passes over no element keeps the walk. -/
theorem IsWalk.step (walk : IsWalk lt needed origin trail) (order : WeakOrder lt)
    (connected : ∀ {a b}, ¬ lt a b → ¬ lt b a → a = b) {direction : Direction} {place : α}
    (steps : Steps lt direction (current origin trail) place)
    (misses : Misses lt needed direction (current origin trail) place) :
    IsWalk lt needed origin ((direction, place) :: trail) := by
  refine ⟨⟨steps, walk.ordered⟩,
    fun element isNeeded low isLow high isHigh notBelow notAbove => ?_⟩
  have stands := current_mem origin trail
  have covers := walk.covers element isNeeded
  generalize current origin trail = from_ at *
  change element ∈ place :: places origin trail
  change low ∈ place :: places origin trail at isLow
  change high ∈ place :: places origin trail at isHigh
  by_cases here : element = place
  · exact here ▸ List.mem_cons_self
  by_cases there : element = from_
  · exact List.mem_cons_of_mem _ (there ▸ stands)
  -- the element lies on the same side of both ends of the step
  have sameSide : lt element from_ ↔ lt element place := by
    constructor
    · intro beforeFrom
      by_contra notBefore
      have afterPlace : lt place element := by
        by_contra notAfter
        exact here (connected notBefore notAfter)
      cases direction with
      | forward => exact order.asymm (order.lt_of_before (order.asymm afterPlace) beforeFrom) steps
      | backward => exact misses element isNeeded afterPlace beforeFrom
    · intro beforePlace
      by_contra notBefore
      have afterFrom : lt from_ element := by
        by_contra notAfter
        exact there (connected notBefore notAfter)
      cases direction with
      | forward => exact misses element isNeeded afterFrom beforePlace
      | backward => exact order.asymm (order.lt_of_before (order.asymm afterFrom) beforePlace) steps
  refine List.mem_cons_of_mem _ ?_
  by_cases beforeFrom : lt element from_
  · rcases List.mem_cons.mp isLow with rfl | isLow
    · exact absurd (sameSide.mp beforeFrom) notBelow
    · exact covers low isLow from_ stands notBelow (order.asymm beforeFrom)
  · rcases List.mem_cons.mp isHigh with rfl | isHigh
    · have before : lt element high := by
        by_contra notBefore
        exact here (connected notBefore notAbove)
      exact absurd (sameSide.mpr before) beforeFrom
    · exact covers from_ stands high isHigh beforeFrom notAbove

end OrderWalk
