import Mathlib.Logic.Equiv.Basic
import Mathlib.Logic.Function.Basic

/-!
# Blocks and their owners

A heap gives the contents of the allocated blocks. Where each block has exactly one owner,
nothing is released twice or used after its release, and nothing leaks. Owners may
allocate, release, and exchange what they own.
-/

namespace Ownership

variable {Owner Address Block : Type*}

/-- Every allocated block has exactly one owner, and owners own allocated blocks. -/
structure Owned (owns : Owner → Option Address) (heap : Address → Option Block) : Prop where
  allocated : ∀ {owner address}, owns owner = some address → ∃ block, heap address = some block
  unique : ∀ {owner other address}, owns owner = some address → owns other = some address →
    owner = other
  noLeak : ∀ {address block}, heap address = some block → ∃ owner, owns owner = some address

variable {owns : Owner → Option Address} {heap : Address → Option Block}

/-- At first nothing is allocated and nobody owns anything. -/
theorem Owned.empty : Owned (fun _ : Owner => (none : Option Address))
    (fun _ => (none : Option Block)) where
  allocated owned := by cases owned
  unique owned := by cases owned
  noLeak stored := by cases stored

/-- Where nobody owns anything, nothing is allocated. -/
theorem Owned.eq_none (owned : Owned owns heap) (nobody : ∀ owner, owns owner = none)
    (address : Address) : heap address = none := by
  cases stored : heap address with
  | none => rfl
  | some block =>
    obtain ⟨owner, isOwner⟩ := owned.noLeak stored
    rw [nobody owner] at isOwner
    cases isOwner

/-- Owners may exchange what they own. -/
theorem Owned.exchange (owned : Owned owns heap) (swap : Equiv.Perm Owner) :
    Owned (fun owner => owns (swap owner)) heap where
  allocated isOwner := owned.allocated isOwner
  unique isOwner isOther := swap.injective (owned.unique isOwner isOther)
  noLeak stored := by
    obtain ⟨owner, isOwner⟩ := owned.noLeak stored
    exact ⟨swap.symm owner, by rwa [swap.apply_symm_apply]⟩

/-- A block has at most one owner, so another owner has another block. -/
theorem Owned.ne (owned : Owned owns heap) {owner other : Owner} {address : Address}
    (isOwner : owns owner = some address) (different : other ≠ owner) :
    owns other ≠ some address :=
  fun isOther => different (owned.unique isOther isOwner)

section Updates

variable [DecidableEq Owner] [DecidableEq Address]

/-- An owner of nothing gets a fresh block. -/
theorem Owned.allocate (owned : Owned owns heap) {owner : Owner} {address : Address}
    (fresh : heap address = none) (nothing : owns owner = none) (block : Block) :
    Owned (Function.update owns owner (some address))
      (Function.update heap address (some block)) := by
  have unowned : ∀ other, owns other ≠ some address := by
    intro other isOther
    obtain ⟨stored, isStored⟩ := owned.allocated isOther
    rw [fresh] at isStored
    cases isStored
  constructor
  · intro other address' isOther
    rw [Function.update_apply] at isOther
    split_ifs at isOther with same
    · obtain rfl := Option.some.inj isOther
      exact ⟨block, Function.update_self ..⟩
    · have different : address' ≠ address := fun equal => unowned other (equal ▸ isOther)
      rw [Function.update_of_ne different]
      exact owned.allocated isOther
  · intro first second address' isFirst isSecond
    rw [Function.update_apply] at isFirst isSecond
    split_ifs at isFirst isSecond with sameFirst sameSecond sameSecond
    · rw [sameFirst, sameSecond]
    · exact absurd (isSecond.trans isFirst.symm) (unowned second)
    · exact absurd (isFirst.trans isSecond.symm) (unowned first)
    · exact owned.unique isFirst isSecond
  · intro address' stored isStored
    rw [Function.update_apply] at isStored
    split_ifs at isStored with same
    · exact ⟨owner, by rw [Function.update_self, same]⟩
    · obtain ⟨other, isOther⟩ := owned.noLeak isStored
      have different : other ≠ owner := by
        rintro rfl
        rw [nothing] at isOther
        cases isOther
      exact ⟨other, by rwa [Function.update_of_ne different]⟩

/-- An owner releases its block. -/
theorem Owned.release (owned : Owned owns heap) {owner : Owner} {address : Address}
    (isOwner : owns owner = some address) :
    Owned (Function.update owns owner none) (Function.update heap address none) := by
  constructor
  · intro other address' isOther
    rw [Function.update_apply] at isOther
    split_ifs at isOther with same
    have different : address' ≠ address := fun equal =>
      same (owned.unique isOther (equal ▸ isOwner))
    rw [Function.update_of_ne different]
    exact owned.allocated isOther
  · intro first second address' isFirst isSecond
    rw [Function.update_apply] at isFirst isSecond
    split_ifs at isFirst isSecond
    exact owned.unique isFirst isSecond
  · intro address' stored isStored
    rw [Function.update_apply] at isStored
    split_ifs at isStored with same
    obtain ⟨other, isOther⟩ := owned.noLeak isStored
    refine ⟨other, ?_⟩
    rwa [Function.update_of_ne]
    rintro rfl
    exact same (Option.some.inj (isOther.symm.trans isOwner))

end Updates

end Ownership
