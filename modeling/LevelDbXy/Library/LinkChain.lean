import Mathlib.Data.List.Basic

/-!
# Chains of links

A singly linked list in a heap is seen through the function `next` that reads
the link of a node: `none` when the link cannot be read, `some none` for the null
link. `LinkChain next x ids` says that following links from `x` visits exactly
`ids` and ends at null. The node before a position is `List.getLastD`, so the
start of the chain needs no case of its own. The last section compares the places of nodes
in chains without repetitions.
-/

/-- Following `next` from `x` visits exactly the listed nodes and ends at null. -/
def LinkChain {ν : Type*} (next : ν → Option (Option ν)) : ν → List ν → Prop
  | x, [] => next x = some none
  | x, y :: ys => next x = some (some y) ∧ LinkChain next y ys

namespace LinkChain

variable {ν : Type*} {next next' : ν → Option (Option ν)}

/-- The link of the node in front of a position leads to the rest of the chain. -/
theorem next_getLastD {x : ν} {before after : List ν} (chain : LinkChain next x (before ++ after)) :
    next (before.getLastD x) = some after.head? := by
  induction before generalizing x with
  | nil =>
    cases after with
    | nil => exact chain
    | cons y ys => exact chain.1
  | cons y ys inductionHypothesis =>
    rw [List.getLastD_cons]
    exact inductionHypothesis chain.2

/-- A chain from the node its first link leads to. -/
theorem of_head {x : ν} {ids : List ν} (link : next x = some ids.head?)
    (tail : ∀ y ys, ids = y :: ys → LinkChain next y ys) : LinkChain next x ids := by
  cases ids with
  | nil => exact link
  | cons y ys => exact ⟨link, tail y ys rfl⟩

/-- A chain only depends on the links of the nodes it starts from and visits. -/
theorem congr {x : ν} {ids : List ν} (chain : LinkChain next x ids)
    (same : ∀ y ∈ x :: ids, next' y = next y) : LinkChain next' x ids := by
  induction ids generalizing x with
  | nil => exact (same x (by simp)).trans chain
  | cons y ys inductionHypothesis =>
    refine ⟨(same x (by simp)).trans chain.1, inductionHypothesis chain.2 ?_⟩
    intro z member
    exact same z (List.mem_cons_of_mem _ member)

/-- Changing the link behind the last node of `before` replaces the rest of the chain. -/
theorem relink {x : ν} {before after after' : List ν}
    (chain : LinkChain next x (before ++ after)) (distinct : (x :: before).Nodup)
    (others : ∀ y ∈ x :: before, y ≠ before.getLastD x → next' y = next y)
    (link : next' (before.getLastD x) = some after'.head?)
    (tail : ∀ y ys, after' = y :: ys → LinkChain next' y ys) :
    LinkChain next' x (before ++ after') := by
  induction before generalizing x with
  | nil => exact of_head link tail
  | cons y ys inductionHypothesis =>
    rw [List.getLastD_cons] at others link
    have notLast : x ≠ ys.getLastD y := by
      rintro rfl
      exact (List.nodup_cons.mp distinct).1 List.getLastD_mem_cons
    refine ⟨(others x (by simp) notLast).trans chain.1,
      inductionHypothesis chain.2 (List.nodup_cons.mp distinct).2 ?_ link⟩
    intro z member
    exact others z (List.mem_cons_of_mem _ member)

/-- The rest of a chain is a chain from any of its nodes. -/
theorem tail {x y : ν} {before after : List ν} (chain : LinkChain next x (before ++ y :: after)) :
    LinkChain next y after := by
  induction before generalizing x with
  | nil => exact chain.2
  | cons z zs inductionHypothesis => exact inductionHypothesis chain.2

/-- Splicing a new node behind the last node of `before` inserts it there. -/
theorem splice {x new : ν} {before after : List ν}
    (chain : LinkChain next x (before ++ after)) (distinct : (x :: (before ++ after)).Nodup)
    (newNext : next' new = next (before.getLastD x))
    (prevNext : next' (before.getLastD x) = some (some new))
    (others : ∀ y ∈ x :: (before ++ after), y ≠ before.getLastD x → next' y = next y) :
    LinkChain next' x (before ++ new :: after) := by
  rw [← List.cons_append] at distinct others
  obtain ⟨frontDistinct, -, different⟩ := List.nodup_append.mp distinct
  refine chain.relink frontDistinct (fun y member => others y (List.mem_append_left _ member))
    prevNext fun y ys shape => ?_
  obtain ⟨rfl, rfl⟩ := List.cons.inj shape
  have kept : ∀ y ∈ after, next' y = next y := fun y member =>
    others y (List.mem_append_right _ member)
      (different _ List.getLastD_mem_cons y member).symm
  have read := newNext.trans chain.next_getLastD
  cases after with
  | nil => exact read
  | cons z zs => exact ⟨read, chain.tail.congr kept⟩

/-! ### Places in a chain -/

/-- In a list without repetitions, later entries have a larger index. -/
theorem idxOf_lt_of_sublist [DecidableEq ν] {x y : ν} {nodes : List ν} (distinct : nodes.Nodup)
    (sublist : [x, y].Sublist nodes) : nodes.idxOf x < nodes.idxOf y := by
  induction nodes with
  | nil => cases sublist
  | cons z nodes inductionHypothesis =>
    obtain ⟨fresh, distinct⟩ := List.nodup_cons.mp distinct
    cases sublist with
    | cons _ inner =>
      have xNe : z ≠ x := fun same => fresh (same ▸ inner.subset (by simp))
      have yNe : z ≠ y := fun same => fresh (same ▸ inner.subset (by simp))
      rw [List.idxOf_cons_ne _ xNe, List.idxOf_cons_ne _ yNe]
      exact Nat.succ_lt_succ (inductionHypothesis distinct inner)
    | cons_cons _ inner =>
      have yNe : x ≠ y := fun same => fresh (same ▸ inner.subset (by simp))
      rw [List.idxOf_cons_self, List.idxOf_cons_ne _ yNe]
      exact Nat.succ_pos _

/-- Putting entries in between moves no entry forward. -/
theorem idxOf_le_of_sublist [DecidableEq ν] {x : ν} {nodes more : List ν}
    (sublist : nodes.Sublist more) (distinct : more.Nodup) (member : x ∈ nodes) :
    nodes.idxOf x ≤ more.idxOf x := by
  induction sublist with
  | slnil => cases member
  | cons z inner inductionHypothesis =>
    obtain ⟨fresh, distinct⟩ := List.nodup_cons.mp distinct
    have different : z ≠ x := fun same => fresh (same ▸ inner.subset member)
    rw [List.idxOf_cons_ne _ different]
    exact Nat.le_succ_of_le (inductionHypothesis distinct member)
  | cons_cons z inner inductionHypothesis =>
    obtain ⟨fresh, distinct⟩ := List.nodup_cons.mp distinct
    rcases eq_or_ne z x with rfl | different
    · simp
    · rw [List.idxOf_cons_ne _ different, List.idxOf_cons_ne _ different]
      have inside := (List.mem_cons.mp member).resolve_left different.symm
      exact Nat.succ_le_succ (inductionHypothesis distinct inside)

end LinkChain
