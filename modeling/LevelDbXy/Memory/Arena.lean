import LevelDbXy.Library.Machine
import LevelDbXy.Util.Coding

/-!
# The arena

`memory/arena.cpp`. Small requests are taken from the front of the current block, aligned
ones after some slop; a request that does not fit gets a new block, which becomes the current
one only if the request is small. An address is a natural number. The address that
`operator new[]` returns in a request that needs a block is part of the request.

What is kept through any requests is that the unused part of the current block lies in a
block and apart from every region returned (`Consistent`).
-/

namespace LevelDbXy

/-- The bytes from an address on. -/
structure Region where
  base : Nat
  size : Nat
  deriving DecidableEq, Repr

namespace Region

/-- The regions share no byte. -/
def Disjoint (a b : Region) : Prop := a.base + a.size ≤ b.base ∨ b.base + b.size ≤ a.base

instance (a b : Region) : Decidable (Disjoint a b) := inferInstanceAs (Decidable (_ ∨ _))

/-- Every byte of one region is in the other. -/
def Inside (a b : Region) : Prop := b.base ≤ a.base ∧ a.base + a.size ≤ b.base + b.size

/-- To be apart is symmetric. -/
theorem Disjoint.symm {a b : Region} (disjoint : Disjoint a b) : Disjoint b a := Or.symm disjoint

/-- A region is inside itself. -/
theorem Inside.refl (a : Region) : a.Inside a := ⟨Nat.le_refl _, Nat.le_refl _⟩

/-- A part of a part is a part. -/
theorem Inside.trans {a b c : Region} (inner : a.Inside b) (outer : b.Inside c) : a.Inside c :=
  ⟨Nat.le_trans outer.1 inner.1, Nat.le_trans inner.2 outer.2⟩

/-- Parts of disjoint regions are disjoint. -/
theorem Disjoint.mono {a b c d : Region} (disjoint : Disjoint b d) (first : a.Inside b)
    (second : c.Inside d) : Disjoint a c := by
  obtain ⟨firstBase, firstEnd⟩ := first
  obtain ⟨secondBase, secondEnd⟩ := second
  rcases disjoint with before | after
  · exact Or.inl (by omega)
  · exact Or.inr (by omega)

end Region

/-- `kBlockSize` of the arena. -/
def kArenaBlockSize : Nat := 4096

/-- `Arena`; a block is kept with the size it was asked for. -/
structure Arena where
  allocPtr : Nat
  allocBytesRemaining : Nat
  blocks : List Region
  memoryUsage : Nat
  deriving DecidableEq, Repr

namespace Arena

/-- `Arena::Arena`. -/
def new : Arena := ⟨0, 0, [], 0⟩

/-- `Arena::AllocateNewBlock`, with the address that `operator new[]` returns. -/
def allocateNewBlock (arena : Arena) (blockBytes fresh : Nat) : Nat × Arena :=
  (fresh, { arena with
    blocks := arena.blocks ++ [⟨fresh, blockBytes⟩]
    memoryUsage := truncU64 (arena.memoryUsage + truncU64 (blockBytes + 8)) })

/-- `Arena::AllocateFallback`. -/
def allocateFallback (arena : Arena) (bytes fresh : Nat) : Nat × Arena :=
  if kArenaBlockSize >>> 2 < bytes then arena.allocateNewBlock bytes fresh
  else
    let (block, arena) := arena.allocateNewBlock kArenaBlockSize fresh
    (block, { arena with
      allocPtr := block + bytes
      allocBytesRemaining := kArenaBlockSize - bytes })

/-- `Arena::Allocate`. -/
def allocate (arena : Arena) (bytes fresh : Nat) : Nat × Arena :=
  if bytes ≤ arena.allocBytesRemaining then
    (arena.allocPtr, { arena with
      allocPtr := arena.allocPtr + bytes
      allocBytesRemaining := arena.allocBytesRemaining - bytes })
  else arena.allocateFallback bytes fresh

/-- `Arena::AllocateAligned`; `needed` is a `uint64_t`. -/
def allocateAligned (arena : Arena) (bytes fresh : Nat) : Nat × Arena :=
  let align := 8
  let currentMod := arena.allocPtr &&& (align - 1)
  let slop := if currentMod = 0 then 0 else align - currentMod
  let needed := truncU64 (bytes + slop)
  if needed ≤ arena.allocBytesRemaining then
    (arena.allocPtr + slop, { arena with
      allocPtr := arena.allocPtr + needed
      allocBytesRemaining := arena.allocBytesRemaining - needed })
  else arena.allocateFallback bytes fresh

/-- A call of `Allocate` or `AllocateAligned`, and the address `operator new[]` returns if the
call needs a block. -/
structure Request where
  aligned : Bool
  bytes : Nat
  fresh : Nat
  deriving DecidableEq, Repr

/-- A region that was returned, by `AllocateAligned` or by `Allocate`. -/
structure Returned where
  region : Region
  aligned : Bool
  deriving DecidableEq, Repr

/-- An arena and what it has returned. -/
structure History where
  arena : Arena
  returned : List Returned
  deriving DecidableEq, Repr

/-- A call on the arena. -/
def serve (arena : Arena) (request : Request) : Nat × Arena :=
  if request.aligned then arena.allocateAligned request.bytes request.fresh
  else arena.allocate request.bytes request.fresh

/-- A call, and what it returned. -/
def step (history : History) (request : Request) : Option History :=
  let (result, arena) := history.arena.serve request
  some ⟨arena, history.returned ++ [⟨⟨result, request.bytes⟩, request.aligned⟩]⟩

/-- What `operator new[]` guarantees of its blocks. -/
structure Separate (blocks : List Region) : Prop where
  disjoint : blocks.Pairwise Region.Disjoint
  aligned : ∀ block ∈ blocks, block.base % 8 = 0

instance (blocks : List Region) : Decidable (Separate blocks) :=
  decidable_of_iff (blocks.Pairwise Region.Disjoint ∧ ∀ block ∈ blocks, block.base % 8 = 0)
    ⟨fun ⟨disjoint, aligned⟩ => ⟨disjoint, aligned⟩,
      fun ⟨disjoint, aligned⟩ => ⟨disjoint, aligned⟩⟩

/-- A request for some bytes, fewer than 2^63, that `operator new[]` answers as it should. -/
def Allowed (history : History) (request : Request) : Prop :=
  0 < request.bytes ∧ request.bytes < 2 ^ 63 ∧
    Separate (history.arena.serve request).2.blocks

instance (history : History) (request : Request) : Decidable (Allowed history request) :=
  inferInstanceAs (Decidable (_ ∧ _ ∧ _))

/-! ### The invariant -/

/-- The unused part of the current block. -/
def unused (arena : Arena) : Region := ⟨arena.allocPtr, arena.allocBytesRemaining⟩

/-- The total `MemoryUsage` reports of these blocks. -/
def usageOf (blocks : List Region) : Nat := (blocks.map fun block => block.size + 8).sum

/-- What the arena has returned lies in its blocks, apart from each other and from the unused
part of the current block. -/
structure Consistent (arena : Arena) (returned : List Returned) : Prop where
  inBlock : ∀ r ∈ returned, ∃ block ∈ arena.blocks, r.region.Inside block
  apart : returned.Pairwise fun a b => a.region.Disjoint b.region
  aligned : ∀ r ∈ returned, r.aligned = true → r.region.base % 8 = 0
  /-- There is no current block yet, or the unused part lies in one. -/
  current : arena.unused = ⟨0, 0⟩ ∨ ∃ block ∈ arena.blocks, arena.unused.Inside block
  free : ∀ r ∈ returned, r.region.Disjoint arena.unused
  usage : arena.memoryUsage = truncU64 (usageOf arena.blocks)

/-- A new arena has handed out nothing. -/
theorem new_consistent : Consistent new [] := by
  constructor <;> simp [new, unused, usageOf, truncU64]

section Calls

variable {arena : Arena} {returned : List Returned}

/-- A new region, apart from the earlier ones and from what is left unused afterwards, in one
of the blocks. -/
theorem Consistent.grant (consistent : Consistent arena returned) {after : Arena}
    {region : Region} {aligned : Bool} (kept : ∀ block ∈ arena.blocks, block ∈ after.blocks)
    (inBlock : ∃ block ∈ after.blocks, region.Inside block)
    (apart : ∀ r ∈ returned, r.region.Disjoint region)
    (isAligned : aligned = true → region.base % 8 = 0)
    (current : after.unused = ⟨0, 0⟩ ∨ ∃ block ∈ after.blocks, after.unused.Inside block)
    (free : ∀ r ∈ returned, r.region.Disjoint after.unused)
    (regionFree : region.Disjoint after.unused)
    (usage : after.memoryUsage = truncU64 (usageOf after.blocks)) :
    Consistent after (returned ++ [⟨region, aligned⟩]) := by
  constructor
  case inBlock =>
    intro r listed
    rcases List.mem_append.mp listed with earlier | last
    · obtain ⟨block, member, inside⟩ := consistent.inBlock r earlier
      exact ⟨block, kept block member, inside⟩
    · obtain rfl := List.mem_singleton.mp last
      exact inBlock
  case apart =>
    apply List.pairwise_append.mpr
    refine ⟨consistent.apart, List.pairwise_singleton _ _, fun r earlier s last => ?_⟩
    obtain rfl := List.mem_singleton.mp last
    exact apart r earlier
  case aligned =>
    intro r listed asked
    rcases List.mem_append.mp listed with earlier | last
    · exact consistent.aligned r earlier asked
    · obtain rfl := List.mem_singleton.mp last
      exact isAligned asked
  case current => exact current
  case free =>
    intro r listed
    rcases List.mem_append.mp listed with earlier | last
    · exact free r earlier
    · obtain rfl := List.mem_singleton.mp last
      exact regionFree
  case usage => exact usage

/-- Bytes taken from the unused part of the current block, after some of them are skipped. -/
theorem Consistent.bump (consistent : Consistent arena returned) {skip bytes : Nat}
    {aligned : Bool} (positive : 0 < bytes) (fits : bytes + skip ≤ arena.allocBytesRemaining)
    (isAligned : aligned = true → (arena.allocPtr + skip) % 8 = 0) :
    Consistent
      { arena with
        allocPtr := arena.allocPtr + (bytes + skip)
        allocBytesRemaining := arena.allocBytesRemaining - (bytes + skip) }
      (returned ++ [⟨⟨arena.allocPtr + skip, bytes⟩, aligned⟩]) := by
  obtain ⟨block, member, inside⟩ : ∃ block ∈ arena.blocks, arena.unused.Inside block := by
    rcases consistent.current with nothing | inBlock
    · have empty : arena.allocBytesRemaining = 0 := congrArg Region.size nothing
      omega
    · exact inBlock
  have taken : (Region.mk (arena.allocPtr + skip) bytes).Inside arena.unused := by
    constructor <;> simp only [unused] <;> omega
  have left : (Region.mk (arena.allocPtr + (bytes + skip))
      (arena.allocBytesRemaining - (bytes + skip))).Inside arena.unused := by
    constructor <;> simp only [unused] <;> omega
  apply consistent.grant
  · exact fun _ member => member
  · exact ⟨block, member, taken.trans inside⟩
  · exact fun r earlier => (consistent.free r earlier).mono (Region.Inside.refl _) taken
  · exact isAligned
  · exact Or.inr ⟨block, member, left.trans inside⟩
  · exact fun r earlier => (consistent.free r earlier).mono (Region.Inside.refl _) left
  · exact Or.inl (by simp only [unused]; omega)
  · exact consistent.usage

variable {size fresh : Nat}

/-- A new block adds its size and a pointer. -/
theorem usageOf_snoc (blocks : List Region) (block : Region) :
    usageOf (blocks ++ [block]) = usageOf blocks + (block.size + 8) := by
  simp [usageOf]

/-- A new block is counted. -/
theorem Consistent.allocateNewBlock_usage (consistent : Consistent arena returned) :
    (arena.allocateNewBlock size fresh).2.memoryUsage =
      truncU64 (usageOf (arena.allocateNewBlock size fresh).2.blocks) := by
  simp only [allocateNewBlock, usageOf_snoc, consistent.usage, truncU64]
  omega

/-- A new block is apart from what lies in an old one. -/
theorem Separate.apart_of_inside {blocks : List Region} {block region : Region}
    (separate : Separate (blocks ++ [block])) (inside : ∃ old ∈ blocks, region.Inside old) :
    region.Disjoint block := by
  obtain ⟨old, member, inside⟩ := inside
  have disjoint := (List.pairwise_append.mp separate.disjoint).2.2 old member block
    (List.mem_singleton_self block)
  exact disjoint.mono inside (Region.Inside.refl _)

/-- A new block that `operator new[]` returns is aligned. -/
theorem Separate.snoc_aligned {blocks : List Region} {block : Region}
    (separate : Separate (blocks ++ [block])) : block.base % 8 = 0 :=
  separate.aligned block (List.mem_append_right _ (List.mem_singleton_self block))

/-- The fallback grants the front of a new block: all of it, or part of the block that becomes
the current one. -/
theorem Consistent.fallback (consistent : Consistent arena returned) {bytes : Nat}
    {aligned : Bool} (separate : Separate (arena.allocateFallback bytes fresh).2.blocks) :
    Consistent (arena.allocateFallback bytes fresh).2
      (returned ++ [⟨⟨(arena.allocateFallback bytes fresh).1, bytes⟩, aligned⟩]) := by
  unfold allocateFallback at separate ⊢
  split at separate
  next large =>
    rw [if_pos large]
    have apart : ∀ r ∈ returned, r.region.Disjoint ⟨fresh, bytes⟩ := fun r earlier =>
      separate.apart_of_inside (consistent.inBlock r earlier)
    apply consistent.grant
    · exact fun _ member => List.mem_append_left _ member
    · exact ⟨_, List.mem_append_right _ (List.mem_singleton_self _), Region.Inside.refl _⟩
    · exact apart
    · exact fun _ => separate.snoc_aligned
    · exact consistent.current.imp id fun ⟨block, member, inside⟩ =>
        ⟨block, List.mem_append_left _ member, inside⟩
    · exact consistent.free
    · rcases consistent.current with nothing | inBlock
      · refine Or.inr (Nat.le_trans (Nat.le_of_eq ?_) (Nat.zero_le fresh))
        exact congrArg (fun region => region.base + region.size) nothing
      · exact (separate.apart_of_inside inBlock).symm
    · exact consistent.allocateNewBlock_usage
  next small =>
    rw [if_neg small]
    have bound : bytes ≤ kArenaBlockSize := by
      simp only [kArenaBlockSize] at small ⊢
      omega
    have apart : ∀ r ∈ returned, r.region.Disjoint ⟨fresh, kArenaBlockSize⟩ := fun r earlier =>
      separate.apart_of_inside (consistent.inBlock r earlier)
    have front : (Region.mk fresh bytes).Inside ⟨fresh, kArenaBlockSize⟩ :=
      ⟨Nat.le_refl _, Nat.add_le_add_left bound fresh⟩
    have back : (Region.mk (fresh + bytes) (kArenaBlockSize - bytes)).Inside
        ⟨fresh, kArenaBlockSize⟩ := by
      constructor <;> simp only <;> omega
    have listed : Region.mk fresh kArenaBlockSize ∈
        (arena.allocateNewBlock kArenaBlockSize fresh).2.blocks :=
      List.mem_append_right _ (List.mem_singleton_self _)
    apply consistent.grant
    · exact fun _ member => List.mem_append_left _ member
    · exact ⟨_, listed, front⟩
    · exact fun r earlier => (apart r earlier).mono (Region.Inside.refl _) front
    · exact fun _ => separate.snoc_aligned
    · exact Or.inr ⟨_, listed, back⟩
    · exact fun r earlier => (apart r earlier).mono (Region.Inside.refl _) back
    · exact Or.inl (Nat.le_refl _)
    · exact consistent.allocateNewBlock_usage

/-- The slop brings the pointer to the next multiple of 8, and the sum does not wrap. -/
theorem allocateAligned_eq (arena : Arena) (fresh : Nat) {bytes : Nat} (bounded : bytes < 2 ^ 63) :
    ∃ slop, (arena.allocPtr + slop) % 8 = 0 ∧
      arena.allocateAligned bytes fresh =
        if bytes + slop ≤ arena.allocBytesRemaining then
          (arena.allocPtr + slop, { arena with
            allocPtr := arena.allocPtr + (bytes + slop)
            allocBytesRemaining := arena.allocBytesRemaining - (bytes + slop) })
        else arena.allocateFallback bytes fresh := by
  have masked : arena.allocPtr &&& (8 - 1) = arena.allocPtr % 8 :=
    Nat.and_two_pow_sub_one_eq_mod arena.allocPtr 3
  refine ⟨if arena.allocPtr % 8 = 0 then 0 else 8 - arena.allocPtr % 8, ?_, ?_⟩
  · split <;> omega
  · have noWrap : truncU64 (bytes + if arena.allocPtr % 8 = 0 then 0 else 8 - arena.allocPtr % 8) =
        bytes + if arena.allocPtr % 8 = 0 then 0 else 8 - arena.allocPtr % 8 := by
      apply Nat.mod_eq_of_lt
      split <;> omega
    simp only [allocateAligned, masked, noWrap]

/-- A call returns a region that is apart from all the earlier ones. -/
theorem Consistent.serve (consistent : Consistent arena returned) {request : Request}
    (positive : 0 < request.bytes) (bounded : request.bytes < 2 ^ 63)
    (separate : Separate (arena.serve request).2.blocks) :
    Consistent (arena.serve request).2
      (returned ++ [⟨⟨(arena.serve request).1, request.bytes⟩, request.aligned⟩]) := by
  unfold Arena.serve at separate ⊢
  split at separate
  next aligned =>
    rw [if_pos aligned]
    obtain ⟨slop, isAligned, computed⟩ := allocateAligned_eq arena request.fresh bounded
    rw [computed] at separate ⊢
    split at separate
    next fits =>
      rw [if_pos fits]
      exact consistent.bump positive fits fun _ => isAligned
    next tooLarge =>
      rw [if_neg tooLarge]
      exact consistent.fallback separate
  next unaligned =>
    rw [if_neg unaligned]
    unfold allocate at separate ⊢
    split at separate
    next fits =>
      rw [if_pos fits]
      have fitsExactly : request.bytes + 0 ≤ arena.allocBytesRemaining := fits
      exact consistent.bump positive fitsExactly fun aligned => absurd aligned unaligned
    next tooLarge =>
      rw [if_neg tooLarge]
      exact consistent.fallback separate

end Calls

/-- An allowed call is served and keeps the invariant. -/
theorem step_consistent {history : History} {request : Request}
    (consistent : Consistent history.arena history.returned) (allowed : Allowed history request) :
    ∃ next, step history request = some next ∧ Consistent next.arena next.returned := by
  obtain ⟨positive, bounded, separate⟩ := allowed
  exact ⟨_, rfl, consistent.serve positive bounded separate⟩

/-- Whatever is asked of a new arena, in any order, the regions it returns are disjoint, each
in one of its blocks and aligned if asked for, and the memory usage is that of the blocks. -/
theorem regions_disjoint_in_bounds_aligned {requests : List Request}
    (allowed : Machine.Meets step Allowed ⟨new, []⟩ requests) :
    ∃ history, Machine.run step ⟨new, []⟩ requests = some history ∧
      history.returned.Pairwise (fun a b => a.region.Disjoint b.region) ∧
      (∀ r ∈ history.returned, ∃ block ∈ history.arena.blocks, r.region.Inside block) ∧
      (∀ r ∈ history.returned, r.aligned = true → r.region.base % 8 = 0) ∧
      history.arena.memoryUsage =
        (history.arena.blocks.map fun block => block.size + 8).sum % 2 ^ 64 := by
  obtain ⟨history, served, consistent⟩ :=
    Machine.run_possible (fun consistent allowed => step_consistent consistent allowed)
      new_consistent allowed
  exact ⟨history, served, consistent.apart, consistent.inBlock, consistent.aligned,
    consistent.usage⟩

/-- A small block, an aligned request in it, an oversized one, then the small block again. -/
theorem regions_disjoint_in_bounds_aligned_mixed :
    ∃ history, Machine.run step ⟨new, []⟩
      [⟨false, 10, 4096⟩, ⟨true, 100, 0⟩, ⟨false, 5000, 16384⟩, ⟨true, 24, 0⟩] = some history ∧
      history.returned.map (fun r => r.region.base) = [4096, 4112, 16384, 4216] ∧
      history.arena.memoryUsage = 9112 := by
  obtain ⟨history, served, -, -, -, usage⟩ :=
    @regions_disjoint_in_bounds_aligned
      [⟨false, 10, 4096⟩, ⟨true, 100, 0⟩, ⟨false, 5000, 16384⟩, ⟨true, 24, 0⟩] (by decide)
  refine ⟨history, served, ?_, ?_⟩
  · obtain rfl := Option.some.inj served
    decide
  · obtain rfl := Option.some.inj served
    decide

end Arena

end LevelDbXy
