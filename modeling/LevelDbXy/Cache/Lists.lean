import LevelDbXy.Cache.LRUCache
import LevelDbXy.Library.LinkRing

/-!
# The two lists of a cache

`Lists cache lru inUse` says that `lru_` and `in_use_` are circular lists of these entries.
`LRU_Remove` and `LRU_Append` change nothing but links, and take an entry out of its list
or put it at the end of one.
-/

namespace LevelDbXy.LRUCache

variable {Value Deleter : Type} {cache : LRUCache Value Deleter} {lru inUse : List Nat} {id : Nat}

/-- The entries on the two lists, which are allocated; no entry at all links to itself. -/
structure Lists (cache : LRUCache Value Deleter) (lru inUse : List Nat) : Prop where
  lruRing : LinkRing cache.next cache.prev .lru (lru.map .entry)
  inUseRing : LinkRing cache.next cache.prev .inUse (inUse.map .entry)
  apart : ∀ id ∈ lru, id ∉ inUse
  alive : ∀ id, id ∈ lru ∨ id ∈ inUse → (cache.heap id).isSome
  noSelf : ∀ id, cache.next (.entry id) ≠ some (.entry id)

/-- The assertion of `key` holds for every entry. -/
theorem keyOf_eq {handle : LRUHandle Value Deleter}
    (noSelf : ∀ id, cache.next (.entry id) ≠ some (.entry id))
    (stored : cache.heap id = some handle) : cache.keyOf id = some handle.key := by
  simp [keyOf, stored, noSelf id]

/-! ### Stores -/

/-- A link of an address that can be followed is stored. -/
theorem setNext_eq {p : HandlePtr} (valid : cache.valid p = true) (q : Option HandlePtr) :
    cache.setNext p q = some { cache with next := Function.update cache.next p q } :=
  if_pos valid

/-- So is a link back. -/
theorem setPrev_eq {p : HandlePtr} (valid : cache.valid p = true) (q : Option HandlePtr) :
    cache.setPrev p q = some { cache with prev := Function.update cache.prev p q } :=
  if_pos valid

/-- Whether an address can be followed does not depend on the links. -/
@[simp] theorem valid_links (cache : LRUCache Value Deleter)
    (next prev : HandlePtr → Option HandlePtr) (p : HandlePtr) :
    valid { cache with next, prev } p = cache.valid p := by
  cases p <;> rfl

/-- `LRU_Remove` links the neighbours of the entry to each other. -/
theorem lruRemove_eq {e p n : HandlePtr} (eValid : cache.valid e = true)
    (pValid : cache.valid p = true) (nValid : cache.valid n = true)
    (before : cache.prev e = some p) (after : cache.next e = some n) (other : n ≠ e) :
    cache.lruRemove e = some { cache with
      next := Function.update cache.next p (some n)
      prev := Function.update cache.prev n (some p) } := by
  have kept : Function.update cache.prev n (some p) e = some p := by
    rw [Function.update_of_ne other.symm, before]
  have first : cache.getNext e = some n := (if_pos eValid).trans after
  have second : getPrev { cache with prev := Function.update cache.prev n (some p) } e = some p :=
    (if_pos ((valid_links ..).trans eValid)).trans kept
  simp only [lruRemove, first, before, setPrev_eq nValid, Option.bind_eq_bind, Option.bind_some,
    second, after]
  exact setNext_eq ((valid_links ..).trans pValid) (some n)

/-- `LRU_Append` links the entry between the last one and the list head. -/
theorem lruAppend_eq {list e last : HandlePtr} (eValid : cache.valid e = true)
    (listValid : cache.valid list = true) (lastValid : cache.valid last = true)
    (before : cache.prev list = some last) (lastNe : last ≠ e) :
    cache.lruAppend list e = some { cache with
      next := Function.update (Function.update cache.next e (some list)) last (some e)
      prev := Function.update (Function.update cache.prev e (some last)) list (some e) } := by
  simp [lruAppend, setNext, setPrev, getNext, getPrev, eValid, listValid, lastValid, before,
    lastNe.symm]

/-! ### Taking an entry out of its list -/

/-- Without its middle a list is its front and its back. -/
theorem erase_middle {before after : List Nat} (distinct : (before ++ id :: after).Nodup) :
    (before ++ id :: after).erase id = before ++ after := by
  have fresh : id ∉ before := fun member =>
    (List.nodup_append.mp distinct).2.2 id member id (by simp) rfl
  rw [List.erase_append_right _ fresh, List.erase_cons_head]

/-- No entry is on a ring twice. -/
theorem nodup_of_ring {next prev : HandlePtr → Option HandlePtr} {head : HandlePtr}
    {ids : List Nat} (ring : LinkRing next prev head (ids.map .entry)) : ids.Nodup :=
  List.Nodup.of_map _ (List.nodup_cons.mp ring.distinct).2

/-- `LRU_Remove` in one ring leaves all other links alone. -/
theorem lruRemove_ring {head : HandlePtr} {ids : List Nat}
    (ring : LinkRing cache.next cache.prev head (ids.map .entry))
    (valid : ∀ p ∈ head :: ids.map HandlePtr.entry, cache.valid p = true) (member : id ∈ ids) :
    ∃ next prev, cache.lruRemove (.entry id) = some { cache with next, prev } ∧
      LinkRing next prev head ((ids.erase id).map .entry) ∧
      ∀ q ∉ head :: (ids.erase id).map HandlePtr.entry,
        next q = cache.next q ∧ prev q = cache.prev q := by
  have distinct := nodup_of_ring ring
  obtain ⟨before, after, rfl⟩ := List.append_of_mem member
  rw [erase_middle distinct, List.map_append]
  rw [List.map_append, List.map_cons] at ring
  obtain ⟨p, n, prevEq, nextEq, pNe, nNe, pMember, nMember, removed⟩ := ring.remove
  have stillValid : ∀ q ∈ head :: (before.map HandlePtr.entry ++ after.map HandlePtr.entry),
      cache.valid q = true := by
    intro q inside
    refine valid q ?_
    simp only [List.map_append, List.map_cons, List.mem_cons, List.mem_append] at inside ⊢
    tauto
  refine ⟨_, _, lruRemove_eq (valid _ (by simp)) (stillValid p pMember) (stillValid n nMember)
    prevEq nextEq nNe, removed, fun q outside => ?_⟩
  have notP : q ≠ p := by
    rintro rfl
    exact outside pMember
  have notN : q ≠ n := by
    rintro rfl
    exact outside nMember
  exact ⟨Function.update_of_ne notP _ _, Function.update_of_ne notN _ _⟩

/-- `LRU_Append` in one ring leaves all other links alone. -/
theorem lruAppend_ring {head : HandlePtr} {ids : List Nat}
    (ring : LinkRing cache.next cache.prev head (ids.map .entry))
    (valid : ∀ p ∈ head :: ids.map HandlePtr.entry, cache.valid p = true)
    (idValid : (cache.heap id).isSome) (notHead : head ≠ .entry id) (fresh : id ∉ ids) :
    ∃ next prev, cache.lruAppend head (.entry id) = some { cache with next, prev } ∧
      LinkRing next prev head ((ids ++ [id]).map .entry) ∧
      ∀ q ∉ head :: (ids ++ [id]).map HandlePtr.entry,
        next q = cache.next q ∧ prev q = cache.prev q := by
  have outside : HandlePtr.entry id ∉ head :: ids.map HandlePtr.entry := by
    simp [notHead.symm, fresh]
  have appended := ring.append outside
  have lastMember : (ids.map HandlePtr.entry).getLastD head ∈ head :: ids.map HandlePtr.entry :=
    List.getLastD_mem_cons
  refine ⟨_, _, lruAppend_eq idValid (valid head (by simp)) (valid _ lastMember)
    ring.prev_sentinel (fun same => outside (same ▸ lastMember)), ?_, fun q beyond => ?_⟩
  · rw [List.map_append, List.map_singleton]
    exact appended
  · rw [List.map_append, List.map_singleton] at beyond
    have notEntry : q ≠ .entry id := fun same => beyond (by simp [same])
    have notHead : q ≠ head := fun same => beyond (by simp [same])
    have notLast : q ≠ (ids.map HandlePtr.entry).getLastD head := by
      rintro rfl
      refine beyond ?_
      rcases List.mem_cons.mp lastMember with atHead | inside
      · rw [atHead]
        exact List.mem_cons_self ..
      · exact List.mem_cons_of_mem _ (List.mem_append_left _ inside)
    rw [Function.update_of_ne notLast, Function.update_of_ne notEntry,
      Function.update_of_ne notHead, Function.update_of_ne notEntry]
    exact ⟨rfl, rfl⟩

/-! ### Both lists -/

/-- No link to itself appears when the new links outside a ring are the old ones. -/
theorem noSelf_of_ring {next prev : HandlePtr → Option HandlePtr} {head : HandlePtr}
    {ids : List Nat} (noSelf : ∀ id, cache.next (.entry id) ≠ some (.entry id))
    (notEntry : ∀ id, head ≠ .entry id) (ring : LinkRing next prev head (ids.map .entry))
    (others : ∀ q ∉ head :: ids.map HandlePtr.entry, next q = cache.next q) (id : Nat) :
    next (.entry id) ≠ some (.entry id) := by
  by_cases member : id ∈ ids
  · exact ring.next_ne_self (List.mem_map_of_mem member)
  · rw [others _ (by simp [(notEntry id).symm, member])]
    exact noSelf id

/-- A ring that shares no address with another keeps its links when that one changes. -/
theorem ring_of_others {next prev : HandlePtr → Option HandlePtr} {head other : HandlePtr}
    {ids ids' : List Nat} (ring : LinkRing cache.next cache.prev head (ids.map .entry))
    (others : ∀ q ∉ other :: ids'.map HandlePtr.entry,
      next q = cache.next q ∧ prev q = cache.prev q)
    (headNe : head ≠ other) (headNotEntry : ∀ id, head ≠ .entry id)
    (otherNotEntry : ∀ id, other ≠ .entry id) (disjoint : ∀ id ∈ ids, id ∉ ids') :
    LinkRing next prev head (ids.map .entry) := by
  have outside : ∀ q ∈ head :: ids.map HandlePtr.entry, q ∉ other :: ids'.map HandlePtr.entry := by
    intro q member
    rcases List.mem_cons.mp member with rfl | inside
    · simp [headNe, (headNotEntry _).symm]
    · obtain ⟨id, listed, rfl⟩ := List.mem_map.mp inside
      simp [(otherNotEntry id).symm, disjoint id listed]
  exact ring.congr (fun q member => (others q (outside q member)).1)
    fun q member => (others q (outside q member)).2

namespace Lists

/-- The lists read nothing of an entry but its links. -/
theorem congr {cache' : LRUCache Value Deleter} (lists : Lists cache lru inUse)
    (next : cache'.next = cache.next) (prev : cache'.prev = cache.prev)
    (alive : ∀ id, id ∈ lru ∨ id ∈ inUse → (cache'.heap id).isSome) : Lists cache' lru inUse := by
  refine ⟨?_, ?_, lists.apart, alive, ?_⟩
  · rw [next, prev]
    exact lists.lruRing
  · rw [next, prev]
    exact lists.inUseRing
  · rw [next]
    exact lists.noSelf

/-- The addresses of `lru_` can be followed. -/
theorem valid_lru (lists : Lists cache lru inUse) :
    ∀ p ∈ HandlePtr.lru :: lru.map HandlePtr.entry, cache.valid p = true := by
  intro p member
  rcases List.mem_cons.mp member with rfl | inside
  · rfl
  · obtain ⟨id, listed, rfl⟩ := List.mem_map.mp inside
    exact lists.alive id (Or.inl listed)

/-- So can those of `in_use_`. -/
theorem valid_inUse (lists : Lists cache lru inUse) :
    ∀ p ∈ HandlePtr.inUse :: inUse.map HandlePtr.entry, cache.valid p = true := by
  intro p member
  rcases List.mem_cons.mp member with rfl | inside
  · rfl
  · obtain ⟨id, listed, rfl⟩ := List.mem_map.mp inside
    exact lists.alive id (Or.inr listed)

/-- `LRU_Remove` takes an entry out of the list it is on. -/
theorem remove (lists : Lists cache lru inUse) (member : id ∈ lru ∨ id ∈ inUse) :
    ∃ next prev, cache.lruRemove (.entry id) = some { cache with next, prev } ∧
      Lists { cache with next, prev } (lru.erase id) (inUse.erase id) := by
  have alive : ∀ other, other ∈ lru.erase id ∨ other ∈ inUse.erase id →
      (cache.heap other).isSome := by
    rintro other (inLru | inUse)
    · exact lists.alive other (Or.inl (List.mem_of_mem_erase inLru))
    · exact lists.alive other (Or.inr (List.mem_of_mem_erase inUse))
  have apart : ∀ other ∈ lru.erase id, other ∉ inUse.erase id := fun other inLru inUse =>
    lists.apart other (List.mem_of_mem_erase inLru) (List.mem_of_mem_erase inUse)
  by_cases inLru : id ∈ lru
  · obtain ⟨next, prev, removed, ring, others⟩ :=
      lruRemove_ring lists.lruRing lists.valid_lru inLru
    have notInUse : inUse.erase id = inUse := List.erase_of_not_mem (lists.apart id inLru)
    refine ⟨next, prev, removed, ring, ?_, apart, alive,
      noSelf_of_ring lists.noSelf (by simp) ring fun q beyond => (others q beyond).1⟩
    rw [notInUse] at apart ⊢
    exact ring_of_others lists.inUseRing others (by simp) (by simp) (by simp)
      fun other listed inLru => apart other inLru listed
  · have inInUse := member.resolve_left inLru
    obtain ⟨next, prev, removed, ring, others⟩ :=
      lruRemove_ring lists.inUseRing lists.valid_inUse inInUse
    have notLru : lru.erase id = lru := List.erase_of_not_mem inLru
    refine ⟨next, prev, removed, ?_, ring, apart, alive,
      noSelf_of_ring lists.noSelf (by simp) ring fun q beyond => (others q beyond).1⟩
    rw [notLru] at apart ⊢
    exact ring_of_others lists.lruRing others (by simp) (by simp) (by simp) apart

/-- `LRU_Append` puts an entry that is on no list at the end of `lru_`. -/
theorem append_lru (lists : Lists cache lru inUse) (alive : (cache.heap id).isSome)
    (notLru : id ∉ lru) (notInUse : id ∉ inUse) :
    ∃ next prev, cache.lruAppend .lru (.entry id) = some { cache with next, prev } ∧
      Lists { cache with next, prev } (lru ++ [id]) inUse := by
  obtain ⟨next, prev, appended, ring, others⟩ :=
    lruAppend_ring lists.lruRing lists.valid_lru alive (by simp) notLru
  have apart : ∀ other ∈ lru ++ [id], other ∉ inUse := by
    intro other member
    rcases List.mem_append.mp member with inLru | isNew
    · exact lists.apart other inLru
    · rw [List.mem_singleton.mp isNew]
      exact notInUse
  refine ⟨next, prev, appended, ring, ?_, apart, ?_,
    noSelf_of_ring lists.noSelf (by simp) ring fun q beyond => (others q beyond).1⟩
  · exact ring_of_others lists.inUseRing others (by simp) (by simp) (by simp)
      fun other listed inLru => apart other inLru listed
  · rintro other (inLru | inInUse)
    · rcases List.mem_append.mp inLru with inLru | isNew
      · exact lists.alive other (Or.inl inLru)
      · rw [List.mem_singleton.mp isNew]
        exact alive
    · exact lists.alive other (Or.inr inInUse)

/-- `LRU_Append` puts an entry that is on no list at the end of `in_use_`. -/
theorem append_inUse (lists : Lists cache lru inUse) (alive : (cache.heap id).isSome)
    (notLru : id ∉ lru) (notInUse : id ∉ inUse) :
    ∃ next prev, cache.lruAppend .inUse (.entry id) = some { cache with next, prev } ∧
      Lists { cache with next, prev } lru (inUse ++ [id]) := by
  obtain ⟨next, prev, appended, ring, others⟩ :=
    lruAppend_ring lists.inUseRing lists.valid_inUse alive (by simp) notInUse
  have apart : ∀ other ∈ lru, other ∉ inUse ++ [id] := by
    intro other inLru member
    rcases List.mem_append.mp member with inInUse | isNew
    · exact lists.apart other inLru inInUse
    · exact notLru (List.mem_singleton.mp isNew ▸ inLru)
  refine ⟨next, prev, appended, ?_, ring, apart, ?_,
    noSelf_of_ring lists.noSelf (by simp) ring fun q beyond => (others q beyond).1⟩
  · exact ring_of_others lists.lruRing others (by simp) (by simp) (by simp) apart
  · rintro other (inLru | inInUse)
    · exact lists.alive other (Or.inl inLru)
    · rcases List.mem_append.mp inInUse with inInUse | isNew
      · exact lists.alive other (Or.inr inInUse)
      · rw [List.mem_singleton.mp isNew]
        exact alive

/-- An entry of `lru_` moves to the end of `in_use_`. -/
theorem move_inUse (lists : Lists cache lru inUse) (member : id ∈ lru) :
    ∃ next prev, (cache.lruRemove (.entry id)).bind (fun cache =>
        cache.lruAppend .inUse (.entry id)) = some { cache with next, prev } ∧
      Lists { cache with next, prev } (lru.erase id) (inUse ++ [id]) := by
  obtain ⟨next, prev, removed, without⟩ := lists.remove (Or.inl member)
  have notInUse := lists.apart id member
  rw [List.erase_of_not_mem notInUse] at without
  obtain ⟨next', prev', appended, moved⟩ := without.append_inUse (lists.alive id (Or.inl member))
    (nodup_of_ring lists.lruRing).not_mem_erase notInUse
  exact ⟨next', prev', by rw [removed, Option.bind_some, appended], moved⟩

/-- An entry of `in_use_` moves to the end of `lru_`. -/
theorem move_lru (lists : Lists cache lru inUse) (member : id ∈ inUse) :
    ∃ next prev, (cache.lruRemove (.entry id)).bind (fun cache =>
        cache.lruAppend .lru (.entry id)) = some { cache with next, prev } ∧
      Lists { cache with next, prev } (lru ++ [id]) (inUse.erase id) := by
  obtain ⟨next, prev, removed, without⟩ := lists.remove (Or.inr member)
  have notLru : id ∉ lru := fun inLru => lists.apart id inLru member
  rw [List.erase_of_not_mem notLru] at without
  obtain ⟨next', prev', appended, moved⟩ := without.append_lru (lists.alive id (Or.inr member))
    notLru (nodup_of_ring lists.inUseRing).not_mem_erase
  exact ⟨next', prev', by rw [removed, Option.bind_some, appended], moved⟩

/-- The first entry of `lru_`, or the list head. -/
theorem next_lru (lists : Lists cache lru inUse) :
    cache.next .lru = some ((lru.map HandlePtr.entry).headD .lru) :=
  lists.lruRing.next_sentinel

end Lists

end LevelDbXy.LRUCache
