import Mathlib.Data.List.TakeWhile

/-!
# Cursors over a list

A cursor stands on an index of a list or nowhere. `Cursor.step` says where each call
takes it: to either end, to the first entry that a target does not put before
itself, or one entry on or back. Moving a cursor that stands nowhere is not allowed,
and has no result.
-/

namespace Cursor

variable {α β τ σ : Type*}

/-- The calls on a cursor; targets are of type `τ`. -/
inductive Call (τ : Type*) where
  | seekToFirst
  | seekToLast
  | seek (target : τ)
  | next
  | prev
  deriving DecidableEq, Repr

/-- Where a call takes the cursor; `before x target` puts an entry in front of a target. -/
def step (before : α → τ → Bool) (xs : List α) (position : Option Nat) :
    Call τ → Option (Option Nat)
  | .seekToFirst => some (if 0 < xs.length then some 0 else none)
  | .seekToLast => some (if 0 < xs.length then some (xs.length - 1) else none)
  | .seek target => some (xs.findIdx? fun x => !before x target)
  | .next => position.map fun i => if i + 1 < xs.length then some (i + 1) else none
  | .prev => position.map fun i => if i = 0 then none else some (i - 1)

/-- The calls of a list one after the other. -/
def run (before : α → τ → Bool) (xs : List α) (position : Option Nat) (calls : List (Call τ)) :
    Option (Option Nat) :=
  calls.foldlM (step before xs) position

/-- The entry a seek stands on is the first one behind those in front of the target. -/
theorem head?_dropWhile (passed : α → Bool) (xs : List α) :
    (xs.dropWhile passed).head? = (xs.findIdx? fun x => !passed x).bind (xs[·]?) := by
  rw [← List.find?_eq_bind_findIdx?_getElem?, List.find?_not_eq_head?_dropWhile]

/-- The position is nowhere or an index of the list. -/
def InRange (xs : List α) (position : Option Nat) : Prop := ∀ i, position = some i → i < xs.length

/-- A cursor that stands nowhere is in range of any list. -/
theorem inRange_none (xs : List α) : InRange xs none := by
  intro i impossible
  cases impossible

/-- No call takes a cursor out of its list. -/
theorem step_inRange {before : α → τ → Bool} {xs : List α} {position after : Option Nat}
    {call : Call τ} (inRange : InRange xs position)
    (moved : step before xs position call = some after) : InRange xs after := by
  rintro i rfl
  cases call with
  | seekToFirst =>
    simp only [step, Option.some.injEq] at moved
    split at moved <;> simp_all
  | seekToLast =>
    simp only [step, Option.some.injEq] at moved
    split at moved <;> simp_all
    omega
  | seek target =>
    simp only [step, Option.some.injEq] at moved
    exact (List.findIdx?_eq_some_iff_getElem.mp moved).1
  | next =>
    obtain ⟨j, -, moved⟩ := Option.map_eq_some_iff.mp moved
    split at moved <;> simp_all
  | prev =>
    obtain ⟨j, standing, moved⟩ := Option.map_eq_some_iff.mp moved
    have bound := inRange j standing
    split at moved <;> simp_all
    omega

/-- The same call with another target. -/
def Call.map (f : τ → σ) : Call τ → Call σ
  | .seekToFirst => .seekToFirst
  | .seekToLast => .seekToLast
  | .seek target => .seek (f target)
  | .next => .next
  | .prev => .prev

/-- Calls do not change when their targets do not. -/
theorem map_map_id (calls : List (Call τ)) : calls.map (Call.map id) = calls := by
  have same : Call.map (id : τ → τ) = id := by
    funext call
    cases call <;> rfl
  rw [same, List.map_id]

/-- A search for an image is a search for what it is an image of. -/
theorem findIdx?_map_congr {p : β → Bool} {q : α → Bool} {f : α → β} {xs : List α}
    (same : ∀ x ∈ xs, p (f x) = q x) : (xs.map f).findIdx? p = xs.findIdx? q := by
  induction xs with
  | nil => rfl
  | cons x xs inductionHypothesis =>
    have others := inductionHypothesis fun y member => same y (List.mem_cons_of_mem _ member)
    rw [List.map_cons, List.findIdx?_cons, List.findIdx?_cons, same x (List.mem_cons_self ..),
      others]

/-- Renaming entries and targets does not change where a cursor goes. -/
theorem step_map {before : α → τ → Bool} {beforeImage : β → σ → Bool} {entry : α → β}
    {target : τ → σ} {xs : List α} {call : Call τ}
    (same : ∀ t, call = .seek t → ∀ x ∈ xs, beforeImage (entry x) (target t) = before x t)
    (position : Option Nat) :
    step beforeImage (xs.map entry) position (call.map target) = step before xs position call := by
  cases call with
  | seek t =>
    have found := @findIdx?_map_congr _ _ (fun x => !beforeImage x (target t))
      (fun x => !before x t) entry xs fun x member => by rw [same t rfl x member]
    exact congrArg some found
  | _ => simp [step, Call.map]

/-- A whole run of renamed calls. -/
theorem run_map {before : α → τ → Bool} {beforeImage : β → σ → Bool} {entry : α → β}
    {target : τ → σ} {xs : List α} (calls : List (Call τ))
    (same : ∀ t, Call.seek t ∈ calls → ∀ x ∈ xs, beforeImage (entry x) (target t) = before x t)
    (position : Option Nat) :
    run beforeImage (xs.map entry) position (calls.map (Call.map target)) =
      run before xs position calls := by
  induction calls generalizing position with
  | nil => rfl
  | cons call calls inductionHypothesis =>
    have first := step_map (fun t shape => same t (shape ▸ List.mem_cons_self ..)) position
    rw [List.map_cons, run, run, List.foldlM_cons, List.foldlM_cons, first]
    refine congrArg _ (funext fun after => ?_)
    exact inductionHypothesis (fun t member => same t (List.mem_cons_of_mem _ member)) after

/-- What a machine must do to follow a cursor: its states are where the positions are, and
each of its steps goes where the cursor goes. -/
theorem run_follows {State : Type*} {before : α → τ → Bool} {xs : List α}
    {place : Option Nat → State} {machine : State → Call τ → Option State}
    (follows : ∀ position, InRange xs position → ∀ call,
      machine (place position) call = (step before xs position call).map place)
    (calls : List (Call τ)) {position : Option Nat} (inRange : InRange xs position) :
    calls.foldlM machine (place position) = (run before xs position calls).map place := by
  induction calls generalizing position with
  | nil => rfl
  | cons call calls inductionHypothesis =>
    rw [run, List.foldlM_cons, List.foldlM_cons, follows position inRange call]
    cases moved : step before xs position call with
    | none => rfl
    | some after => exact inductionHypothesis (step_inRange inRange moved)

end Cursor
