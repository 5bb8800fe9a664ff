import Mathlib.Data.List.Chain
import Mathlib.Data.List.Nodup
import Mathlib.Logic.Function.Basic

/-!
# Circular doubly linked lists

An intrusive circular list is seen through the functions `next` and `prev` that read the
links of its nodes. `LinkRing next prev sentinel nodes` says that following `next` from the
sentinel visits exactly `nodes` and comes back, each node once, and that `prev` goes the
other way. Unlinking a node and linking one in front of the sentinel are updates of two
links on each side.
-/

variable {ν : Type*}

/-- `a` and `b` are neighbours in this order. -/
def Neighbours (next prev : ν → Option ν) (a b : ν) : Prop := next a = some b ∧ prev b = some a

/-- The nodes of a circular list behind its sentinel. -/
structure LinkRing (next prev : ν → Option ν) (sentinel : ν) (nodes : List ν) : Prop where
  chain : (sentinel :: nodes ++ [sentinel]).IsChain (Neighbours next prev)
  distinct : (sentinel :: nodes).Nodup

namespace LinkRing

variable {next prev next' prev' : ν → Option ν} {sentinel : ν} {nodes : List ν}

/-- A chain of neighbours reads the forward links of all nodes but the last, and the
backward links of all but the first. -/
theorem isChain_congr {nodes : List ν} (chain : nodes.IsChain (Neighbours next prev))
    (forward : ∀ a ∈ nodes.dropLast, next' a = next a)
    (backward : ∀ b ∈ nodes.tail, prev' b = prev b) : nodes.IsChain (Neighbours next' prev') := by
  induction nodes with
  | nil => exact List.isChain_nil
  | cons a nodes inductionHypothesis =>
    cases nodes with
    | nil => exact List.isChain_singleton a
    | cons b nodes =>
      rw [List.isChain_cons_cons] at chain ⊢
      refine ⟨⟨?_, ?_⟩, inductionHypothesis chain.2 ?_ ?_⟩
      · exact (forward a (by simp)).trans chain.1.1
      · exact (backward b (by simp)).trans chain.1.2
      · intro c member
        exact forward c (by rw [List.dropLast_cons_cons]; exact List.mem_cons_of_mem _ member)
      · intro c member
        exact backward c (List.mem_cons_of_mem _ (by simpa using member))

/-- A ring only depends on the links of its own nodes. -/
theorem congr (ring : LinkRing next prev sentinel nodes)
    (forward : ∀ a ∈ sentinel :: nodes, next' a = next a)
    (backward : ∀ a ∈ sentinel :: nodes, prev' a = prev a) :
    LinkRing next' prev' sentinel nodes := by
  refine ⟨isChain_congr ring.chain (fun a member => forward a ?_) fun b member => backward b ?_,
    ring.distinct⟩
  · rwa [List.dropLast_concat] at member
  · simp only [List.cons_append, List.tail_cons, List.mem_append, List.mem_singleton] at member
    simpa [or_comm] using member

/-- A fresh sentinel that links to itself is an empty ring. -/
theorem empty (forward : next sentinel = some sentinel) (backward : prev sentinel = some sentinel) :
    LinkRing next prev sentinel [] := by
  refine ⟨?_, by simp⟩
  rw [List.cons_append, List.nil_append, List.isChain_pair]
  exact ⟨forward, backward⟩

/-- The sentinel's link leads to the first node, or back. -/
theorem next_sentinel (ring : LinkRing next prev sentinel nodes) :
    next sentinel = some (nodes.headD sentinel) := by
  have chain := ring.chain
  cases nodes with
  | nil =>
    rw [List.cons_append, List.nil_append, List.isChain_pair] at chain
    exact chain.1
  | cons a nodes =>
    rw [List.cons_append, List.cons_append, List.isChain_cons_cons] at chain
    exact chain.1.1

/-- Before the sentinel comes the last node. -/
theorem prev_sentinel (ring : LinkRing next prev sentinel nodes) :
    prev sentinel = some (nodes.getLastD sentinel) := by
  rcases List.eq_nil_or_concat nodes with rfl | ⟨front, last, rfl⟩
  · have chain := ring.chain
    rw [List.cons_append, List.nil_append, List.isChain_pair] at chain
    exact chain.2
  · have chain : (sentinel :: front ++ last :: [sentinel]).IsChain (Neighbours next prev) := by
      simpa using ring.chain
    rw [List.isChain_append_cons_cons] at chain
    rw [List.concat_eq_append, List.getLastD_concat]
    exact chain.2.1.2

/-- A node of a ring lies between two others. -/
theorem exists_neighbours {before after : List ν} {e : ν}
    (ring : LinkRing next prev sentinel (before ++ e :: after)) :
    ∃ front p n back, sentinel :: before = front ++ [p] ∧ after ++ [sentinel] = n :: back ∧
      (front ++ [p]).IsChain (Neighbours next prev) ∧ Neighbours next prev p e ∧
      Neighbours next prev e n ∧ (n :: back).IsChain (Neighbours next prev) := by
  obtain ⟨front, p, frontShape⟩ : ∃ front p, sentinel :: before = front ++ [p] :=
    ⟨_, _, (List.dropLast_append_getLast (List.cons_ne_nil sentinel before)).symm⟩
  obtain ⟨n, back, backShape⟩ : ∃ n back, after ++ [sentinel] = n :: back := by
    cases after with
    | nil => exact ⟨sentinel, [], rfl⟩
    | cons b after => exact ⟨b, after ++ [sentinel], rfl⟩
  have whole : sentinel :: (before ++ e :: after) ++ [sentinel] =
      front ++ p :: e :: n :: back := by
    have joined := congrArg₂ (fun a b => a ++ e :: b) frontShape backShape
    simpa using joined
  have chain := ring.chain
  rw [whole, List.isChain_append_cons_cons, List.isChain_cons_cons] at chain
  exact ⟨front, p, n, back, frontShape, backShape, chain.1, chain.2.1, chain.2.2.1, chain.2.2.2⟩

/-- What the distinctness of the nodes says around one of them. -/
theorem apart {before after : List ν} {e : ν}
    (ring : LinkRing next prev sentinel (before ++ e :: after)) :
    (sentinel :: before).Nodup ∧ (after ++ [sentinel]).Nodup ∧ e ∉ sentinel :: before ∧
      e ∉ after ++ [sentinel] ∧ ∀ a ∈ sentinel :: before, a ∉ after := by
  have distinct : ((sentinel :: before) ++ (e :: after)).Nodup := ring.distinct
  obtain ⟨front, back, different⟩ := List.nodup_append.mp distinct
  obtain ⟨fresh, back⟩ := List.nodup_cons.mp back
  refine ⟨front, ?_, fun member => different e member e (by simp) rfl, ?_, ?_⟩
  · refine (List.nodup_append.mpr ⟨back, List.nodup_singleton _, fun a aMember b bMember => ?_⟩)
    rw [List.mem_singleton.mp bMember]
    exact (different sentinel (by simp) a (List.mem_cons_of_mem _ aMember)).symm
  · intro member
    rcases List.mem_append.mp member with inside | atEnd
    · exact fresh inside
    · exact different sentinel (by simp) e (by simp) (List.mem_singleton.mp atEnd).symm
  · exact fun a aMember inside => different a aMember a (List.mem_cons_of_mem _ inside) rfl

/-- No node of a ring links to itself. -/
theorem next_ne_self (ring : LinkRing next prev sentinel nodes) {e : ν} (member : e ∈ nodes) :
    next e ≠ some e := by
  obtain ⟨before, after, rfl⟩ := List.append_of_mem member
  obtain ⟨front, p, n, back, -, backShape, -, -, second, -⟩ := ring.exists_neighbours
  obtain ⟨-, -, -, notBack, -⟩ := ring.apart
  intro self
  have same : e = n := Option.some.inj (self.symm.trans second.1)
  exact notBack (by rw [backShape, same]; simp)

/-- Two parts of a ring stay chains of neighbours when the links that change are the
forward link of the last node of the first part and the backward link of the first node of
the second. -/
theorem isChain_join {front back : List ν} {p n : ν}
    (frontChain : (front ++ [p]).IsChain (Neighbours next prev))
    (backChain : (n :: back).IsChain (Neighbours next prev))
    (forward : ∀ a, a ∈ front ∨ a ∈ (n :: back).dropLast → next' a = next a)
    (backward : ∀ b, b ∈ (front ++ [p]).tail ∨ b ∈ back → prev' b = prev b)
    (joined : Neighbours next' prev' p n) :
    (front ++ p :: n :: back).IsChain (Neighbours next' prev') := by
  rw [List.isChain_append_cons_cons]
  refine ⟨isChain_congr frontChain ?_ ?_, joined, isChain_congr backChain ?_ ?_⟩
  · intro a member
    rw [List.dropLast_concat] at member
    exact forward a (Or.inl member)
  · exact fun b member => backward b (Or.inl member)
  · exact fun a member => forward a (Or.inr member)
  · exact fun b member => backward b (Or.inr member)

section Update

variable [DecidableEq ν]

/-- Unlinking a node: its neighbours, and the ring after they are linked to each other. -/
theorem remove {before after : List ν} {e : ν}
    (ring : LinkRing next prev sentinel (before ++ e :: after)) :
    ∃ p n, prev e = some p ∧ next e = some n ∧ p ≠ e ∧ n ≠ e ∧
      p ∈ sentinel :: (before ++ after) ∧ n ∈ sentinel :: (before ++ after) ∧
      LinkRing (Function.update next p (some n)) (Function.update prev n (some p)) sentinel
        (before ++ after) := by
  obtain ⟨front, p, n, back, frontShape, backShape, frontChain, first, second, backChain⟩ :=
    ring.exists_neighbours
  obtain ⟨frontDistinct, backDistinct, notFront, notBack, disjoint⟩ := ring.apart
  have pMember : p ∈ sentinel :: before := by simp [frontShape]
  have nMember : n ∈ after ++ [sentinel] := by simp [backShape]
  refine ⟨p, n, first.2, second.1, fun same => notFront (same ▸ pMember),
    fun same => notBack (same ▸ nMember), ?_, ?_, ?_, ?_⟩
  · simp only [List.mem_cons, List.mem_append] at pMember ⊢
    tauto
  · simp only [List.mem_cons, List.mem_append, List.not_mem_nil] at nMember ⊢
    tauto
  · have whole : sentinel :: (before ++ after) ++ [sentinel] = front ++ p :: n :: back := by
      have joined := congrArg₂ (· ++ ·) frontShape backShape
      simpa using joined
    rw [whole]
    refine isChain_join frontChain backChain ?_ ?_ ⟨by simp, by simp⟩
    · rintro a (inFront | inBack)
      · refine Function.update_of_ne ?_ _ _
        rintro rfl
        rw [frontShape, List.nodup_append] at frontDistinct
        exact frontDistinct.2.2 a inFront a (by simp) rfl
      · rw [← backShape, List.dropLast_concat] at inBack
        refine Function.update_of_ne ?_ _ _
        rintro rfl
        exact disjoint a pMember inBack
    · rintro b (inFront | inBack)
      · rw [← frontShape, List.tail_cons] at inFront
        refine Function.update_of_ne ?_ _ _
        rintro rfl
        rcases List.mem_append.mp nMember with inside | atEnd
        · exact disjoint b (List.mem_cons_of_mem _ inFront) inside
        · rw [List.mem_singleton.mp atEnd] at inFront
          exact (List.nodup_cons.mp frontDistinct).1 inFront
      · rw [backShape, List.nodup_cons] at backDistinct
        refine Function.update_of_ne ?_ _ _
        rintro rfl
        exact backDistinct.1 inBack
  · refine ring.distinct.sublist (List.Sublist.cons_cons sentinel ?_)
    exact (List.Sublist.refl before).append (List.sublist_cons_self e after)

/-- Linking a node in front of the sentinel makes it the last one. -/
theorem append {e : ν} (ring : LinkRing next prev sentinel nodes) (fresh : e ∉ sentinel :: nodes) :
    LinkRing (Function.update (Function.update next e (some sentinel)) (nodes.getLastD sentinel)
        (some e))
      (Function.update (Function.update prev e (some (nodes.getLastD sentinel))) sentinel (some e))
      sentinel (nodes ++ [e]) := by
  obtain ⟨front, frontShape⟩ : ∃ front, sentinel :: nodes = front ++ [nodes.getLastD sentinel] := by
    rcases List.eq_nil_or_concat nodes with rfl | ⟨earlier, last, rfl⟩
    · exact ⟨[], rfl⟩
    · exact ⟨sentinel :: earlier, by simp⟩
  generalize nodes.getLastD sentinel = last at frontShape ⊢
  have lastNe : last ≠ e := by
    rintro rfl
    exact fresh (by simp [frontShape])
  have sentinelNe : sentinel ≠ e := fun same => fresh (by simp [same])
  have chain : (front ++ last :: [sentinel]).IsChain (Neighbours next prev) := by
    have chain := ring.chain
    rw [frontShape] at chain
    simpa using chain
  have distinct := ring.distinct
  have whole : sentinel :: (nodes ++ [e]) ++ [sentinel] = front ++ last :: e :: [sentinel] := by
    have joined := congrArg (· ++ [e, sentinel]) frontShape
    simpa using joined
  rw [List.isChain_append_cons_cons] at chain
  refine ⟨?_, ?_⟩
  · rw [whole, List.isChain_append_cons_cons, List.isChain_pair]
    refine ⟨isChain_congr chain.1 (fun a member => ?_) (fun b member => ?_), ⟨?_, ?_⟩, ⟨?_, ?_⟩⟩
    · rw [List.dropLast_concat] at member
      have aNe : a ≠ e := fun same => fresh (by rw [frontShape, ← same]; simp [member])
      rw [frontShape, List.nodup_append] at distinct
      rw [Function.update_of_ne (distinct.2.2 a member last (by simp)), Function.update_of_ne aNe]
    · rw [← frontShape, List.tail_cons] at member
      have bNe : b ≠ e := fun same => fresh (same ▸ List.mem_cons_of_mem _ member)
      have bNeSentinel : b ≠ sentinel := fun same =>
        (List.nodup_cons.mp distinct).1 (same ▸ member)
      rw [Function.update_of_ne bNeSentinel, Function.update_of_ne bNe]
    · simp
    · simp [sentinelNe.symm]
    · simp [lastNe.symm]
    · simp
  · rw [← List.cons_append, List.nodup_append]
    refine ⟨distinct, List.nodup_singleton e, fun a aMember b bMember => ?_⟩
    rw [List.mem_singleton.mp bMember]
    exact fun same => fresh (same ▸ aMember)

end Update

end LinkRing
