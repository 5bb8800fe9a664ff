import LevelDbXy.Memory.Arena

/-!
# What an arena costs

A block is given up when a small request does not fit in its rest, so at most about a quarter
of a block is lost with it: whatever is asked for, the blocks are not much larger together
than what was asked for. In the invariant (`Sized`) the rest of the current block pays for the
block that will follow it.
-/

namespace LevelDbXy.Arena

/-- The bytes that were returned. -/
def bytesOf (returned : List Returned) : Nat := (returned.map fun r => r.region.size).sum

/-- The regions that `AllocateAligned` returned. -/
def alignedIn (returned : List Returned) : Nat := returned.countP Returned.aligned

/-- A bound on the bytes that a request takes from a block, with the slop. -/
def Request.needs (request : Request) : Nat := request.bytes + if request.aligned then 7 else 0

/-- What a request does: it is served from the current block, or from a block of its own, or
from a new block that becomes the current one. -/
inductive Served (arena : Arena) (request : Request) (after : Arena) : Prop where
  | current (taken : Nat) (enough : request.bytes ≤ taken) (small : taken ≤ request.needs)
      (fits : taken ≤ arena.allocBytesRemaining) (blocks : after.blocks = arena.blocks)
      (remaining : after.allocBytesRemaining = arena.allocBytesRemaining - taken)
  | own (large : kArenaBlockSize < 4 * request.bytes)
      (blocks : after.blocks = arena.blocks ++ [⟨request.fresh, request.bytes⟩])
      (remaining : after.allocBytesRemaining = arena.allocBytesRemaining)
  | fresh (small : request.bytes < kArenaBlockSize / 4 + 1)
      (tooLarge : arena.allocBytesRemaining < request.needs)
      (blocks : after.blocks = arena.blocks ++ [⟨request.fresh, kArenaBlockSize⟩])
      (remaining : after.allocBytesRemaining = kArenaBlockSize - request.bytes)

section Calls

variable {arena : Arena} {request : Request}

/-- A request that does not fit into the block is paid for by a new one. -/
theorem served_fallback (tooLarge : arena.allocBytesRemaining < request.needs) :
    Served arena request (arena.allocateFallback request.bytes request.fresh).2 := by
  unfold allocateFallback
  rw [Nat.shiftRight_eq_div_pow]
  split
  next large =>
    have size : kArenaBlockSize = 4096 := rfl
    exact .own (by omega) rfl rfl
  next small => exact .fresh (by omega) tooLarge rfl rfl

/-- `Allocate` serves a request without an alignment. -/
theorem served_allocate (unaligned : request.aligned = false) :
    Served arena request (arena.allocate request.bytes request.fresh).2 := by
  have needs : request.needs = request.bytes := by simp [Request.needs, unaligned]
  unfold allocate
  split
  next fits => exact .current request.bytes (Nat.le_refl _) (Nat.le_of_eq needs.symm) fits rfl rfl
  next tooLarge => exact served_fallback (by omega)

/-- `AllocateAligned` serves one with an alignment, for which it skips some bytes. -/
theorem served_allocateAligned (aligned : request.aligned = true)
    (bounded : request.bytes < 2 ^ 63) :
    Served arena request (arena.allocateAligned request.bytes request.fresh).2 := by
  have needs : request.needs = request.bytes + 7 := by simp [Request.needs, aligned]
  obtain ⟨slop, isSlop, slopBound⟩ : ∃ slop, (if arena.allocPtr &&& (8 - 1) = 0 then 0
      else 8 - (arena.allocPtr &&& (8 - 1))) = slop ∧ slop ≤ 7 := by
    refine ⟨_, rfl, ?_⟩
    split <;> omega
  have noWrap : truncU64 (request.bytes + slop) = request.bytes + slop :=
    Nat.mod_eq_of_lt (by omega)
  simp only [allocateAligned, isSlop, noWrap]
  split
  next fits => exact .current (request.bytes + slop) (by omega) (by omega) fits rfl rfl
  next tooLarge => exact served_fallback (by omega)

/-- Every request is served by one of the two. -/
theorem served_serve (bounded : request.bytes < 2 ^ 63) :
    Served arena request (arena.serve request).2 := by
  unfold serve
  split
  next aligned => exact served_allocateAligned aligned bounded
  next unaligned => exact served_allocate (Bool.eq_false_iff.mpr unaligned)

end Calls

/-- The blocks hold what was returned, and are paid for by it and by the rest of the current
block: a block that is given up is three quarters full, but for the slop. -/
structure Sized (arena : Arena) (returned : List Returned) : Prop where
  rest : arena.allocBytesRemaining ≤ kArenaBlockSize
  holds : bytesOf returned + arena.allocBytesRemaining + 8 * arena.blocks.length ≤
    usageOf arena.blocks
  paid : 3060 * usageOf arena.blocks ≤
    4096 * (bytesOf returned + 7 * alignedIn returned + arena.allocBytesRemaining)

/-- A new arena owes nothing. -/
theorem new_sized : Sized new [] := by
  constructor <;> simp [new, usageOf, bytesOf]

section Calls

variable {arena : Arena} {returned : List Returned} {request : Request}

/-- What is returned last adds its bytes. -/
theorem bytesOf_snoc (returned : List Returned) (r : Returned) :
    bytesOf (returned ++ [r]) = bytesOf returned + r.region.size := by
  simp [bytesOf]

/-- What is returned last counts if it is aligned. -/
theorem alignedIn_snoc (returned : List Returned) (r : Returned) :
    alignedIn (returned ++ [r]) = alignedIn returned + if r.aligned then 1 else 0 := by
  simp [alignedIn]

/-- A call keeps the account, however it is served. -/
theorem Sized.serve (sized : Sized arena returned) (bounded : request.bytes < 2 ^ 63)
    (result : Nat) :
    Sized (arena.serve request).2
      (returned ++ [⟨⟨result, request.bytes⟩, request.aligned⟩]) := by
  have needs : request.needs = request.bytes + 7 * if request.aligned then 1 else 0 := by
    unfold Request.needs
    split <;> rfl
  have size : kArenaBlockSize = 4096 := rfl
  obtain ⟨rest, holds, paid⟩ := sized
  cases @served_serve arena request bounded with
  | current taken enough small fits blocks remaining =>
    constructor <;> simp only [bytesOf_snoc, alignedIn_snoc, blocks, remaining] <;> omega
  | own large blocks remaining =>
    constructor <;> simp only [bytesOf_snoc, alignedIn_snoc, blocks, remaining, usageOf_snoc,
      List.length_append, List.length_singleton] <;> omega
  | fresh small tooLarge blocks remaining =>
    constructor <;> simp only [bytesOf_snoc, alignedIn_snoc, blocks, remaining, usageOf_snoc,
      List.length_append, List.length_singleton] <;> omega

end Calls

/-- A request keeps the blocks paid for. -/
theorem step_sized {history next : History} {request : Request}
    (sized : Sized history.arena history.returned) (bounded : request.bytes < 2 ^ 63)
    (stepped : step history request = some next) : Sized next.arena next.returned := by
  obtain rfl := Option.some.inj stepped
  exact sized.serve bounded _

/-- What has been returned after any calls is what was asked for. -/
theorem run_returned {requests : List Request} {history final : History}
    (ran : Machine.run step history requests = some final) :
    bytesOf final.returned = bytesOf history.returned + (requests.map Request.bytes).sum ∧
      alignedIn final.returned = alignedIn history.returned + requests.countP Request.aligned := by
  induction requests generalizing history with
  | nil =>
    obtain rfl : history = final := by simpa [Machine.run] using ran
    exact ⟨rfl, rfl⟩
  | cons request requests inductionHypothesis =>
    obtain ⟨next, stepped, rest⟩ := Machine.run_cons_eq_some.mp ran
    obtain ⟨bytes, aligned⟩ := inductionHypothesis rest
    have grown : next.returned = history.returned ++
        [⟨⟨(history.arena.serve request).1, request.bytes⟩, request.aligned⟩] := by
      obtain rfl := Option.some.inj stepped
      rfl
    rw [bytes, aligned, grown, bytesOf_snoc, alignedIn_snoc, List.map_cons, List.sum_cons,
      List.countP_cons, Nat.add_comm (requests.countP Request.aligned)]
    exact ⟨Nat.add_assoc _ _ _, Nat.add_assoc _ _ _⟩

/-- Whatever is asked of a new arena, `MemoryUsage` counts all the bytes that were asked for and
the words that its blocks are listed in, and not much more than a third on top of what was asked
for and a block. -/
theorem usage_close_to_requests {requests : List Request}
    (allowed : Machine.Meets step Allowed ⟨new, []⟩ requests) :
    ∃ history, Machine.run step ⟨new, []⟩ requests = some history ∧
      history.arena.memoryUsage = truncU64 (usageOf history.arena.blocks) ∧
      (requests.map Request.bytes).sum + 8 * history.arena.blocks.length ≤
        usageOf history.arena.blocks ∧
      3060 * usageOf history.arena.blocks ≤ 4096 * ((requests.map Request.bytes).sum +
        7 * requests.countP Request.aligned + kArenaBlockSize) := by
  obtain ⟨history, served, consistent, sized⟩ :=
    @Machine.run_possible _ _ step Allowed
      (fun history => Consistent history.arena history.returned ∧
        Sized history.arena history.returned)
      (fun holds allowed => by
        obtain ⟨next, stepped, consistent⟩ := step_consistent holds.1 allowed
        exact ⟨next, stepped, consistent, step_sized holds.2 allowed.2.1 stepped⟩)
      _ _ ⟨new_consistent, new_sized⟩ allowed
  obtain ⟨rest, holds, paid⟩ := sized
  have bytes : bytesOf history.returned = (requests.map Request.bytes).sum :=
    (run_returned served).1.trans (Nat.zero_add _)
  have aligned : alignedIn history.returned = requests.countP Request.aligned :=
    (run_returned served).2.trans (Nat.zero_add _)
  refine ⟨history, served, consistent.usage, ?_, ?_⟩
  · omega
  · omega

/-- An aligned request for just over what is left of the block. -/
theorem usage_close_to_requests_wasteful :
    ∃ history, Machine.run step ⟨new, []⟩
      [⟨false, 3073, 4096⟩, ⟨true, 1024, 8192⟩, ⟨false, 1024, 12288⟩] = some history ∧
      (5121 : Nat) + 8 * history.arena.blocks.length ≤ usageOf history.arena.blocks ∧
      3060 * usageOf history.arena.blocks ≤ 4096 * (5121 + 7 + kArenaBlockSize) := by
  obtain ⟨history, served, -, low, high⟩ := @usage_close_to_requests
    [⟨false, 3073, 4096⟩, ⟨true, 1024, 8192⟩, ⟨false, 1024, 12288⟩] (by decide)
  exact ⟨history, served, low, high⟩

end LevelDbXy.Arena
