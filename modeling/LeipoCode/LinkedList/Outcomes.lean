import LeipoCode.LinkedList.NullRule
import LeipoCode.LinkedList.Refinement

/-!
# Error outcomes

The status of a call is decided by three tests that `list_insert` makes in a fixed
order: is the data a member, did `malloc` fail, is the reference missing.
`chainInsert_status` reads the order off the chain, and the representation carries it to
every reachable list.  A call that does not return `LIST_ERROR_OK` changes nothing, the
one that allocated a node and freed it again included.

The order of the tests shows where two of them fail at a time: data that are in the list already are
refused as such whatever `malloc` would return, as it is not called; and a reference that is missing
is found out after the node was allocated, so that memory that is exhausted goes first.
-/

namespace LeipoCode.LinkedList

open DList

section Status

variable {cs : List (Ptr × Ptr)} {mem d r : Ptr}

/-- **The priority of the three errors** of `list_insert`: membership comes before memory, and
memory before the reference. -/
theorem chainInsert_status (cs : List (Ptr × Ptr)) (mem r : Ptr) (hd : d ≠ NULL) :
    ((chainInsert mem d r cs).1 = .elementAlreadyInList ↔ d ∈ payloads cs) ∧
    ((chainInsert mem d r cs).1 = .insufficientMemory ↔ d ∉ payloads cs ∧ mem = NULL) ∧
    ((chainInsert mem d r cs).1 = .elementNotInList ↔
      d ∉ payloads cs ∧ mem ≠ NULL ∧ cs ≠ [] ∧ (r = NULL ∨ r ∉ payloads cs)) := by
  by_cases hmember : d ∈ payloads cs
  · rw [chainInsert_member ⟨hd, hmember⟩]
    simp [hmember]
  have hnot : ¬ (d ≠ NULL ∧ d ∈ payloads cs) := fun h => hmember h.2
  by_cases hmem : mem = NULL
  · subst hmem
    rw [chainInsert_noMemory hnot]
    simp [hmember]
  by_cases hcs : cs = []
  · subst hcs
    rw [chainInsert_empty hmem]
    simp [hmem]
  by_cases hr : r = NULL ∨ r ∉ payloads cs
  · rw [chainInsert_noRef hnot hmem hcs hr]
    simp [hmember, hmem, hcs, hr]
  · simp only [chainInsert, if_neg hnot, if_neg hmem, if_neg hcs, if_neg hr]
    simp [hmember, hmem, hr]

/-- The reference that `list_append` passes on is a member, as long as NULL is none. -/
theorem chainAppend_status (hnull : NULL ∉ payloads cs) :
    (chainAppend mem d cs).1 ≠ .elementNotInList := by
  unfold chainAppend chainInsert
  split_ifs with _ _ hcs href
  · simp
  · simp
  · simp
  · exact absurd href (lastData_refused hcs hnull)
  · simp

theorem chainRemove_status (hd : d ≠ NULL) :
    (chainRemove d cs).1 = .elementNotInList ↔ d ∉ payloads cs := by
  unfold chainRemove
  split_ifs with hout
  · simpa [hd] using hout
  · simpa [hd] using hout

end Status

/-- Every reachable list is a chain, whichever calls were made. -/
theorem rep_of_listSys {s : State} (hs : listSys.Reachable s) : ∃ F cs, Rep F s cs := by
  refine hs.invariant (I := fun s => ∃ F cs, Rep F s cs) ?_ ?_
  · rintro s ⟨garbage, rfl⟩
    exact ⟨∅, [], rep_init ⟨garbage, ∅⟩⟩
  · rintro s ⟨op, e⟩ s' ⟨F, cs, hrep⟩ ⟨hlegal, hrun⟩
    by_cases hinit : op = .init
    · subst hinit
      cases hrun
      exact ⟨s.heap, [], rep_init s⟩
    · exact ⟨F, _, (rep_of_exec hrep hinit hlegal hrun).2⟩

/-- **The error outcomes are exact and atomic.**  A reachable list spells a sequence; if
NULL is not in it, then for every call with a non-NULL data pointer:

* `list_insert` returns the first of its three errors whose condition holds;
* `list_append` never misses its reference, and `list_remove` fails on the pointers that
  are not members;
* a call that returns an error leaves the list structure and every node as they were.
-/
theorem list_outcomes_exact {s : State} (hs : listSys.Reachable s) :
    ∃ xs, Spells s xs ∧ (NULL ∉ xs → ∀ d, d ≠ NULL →
      (∀ mem r, MallocOk mem s → ∃ e s', listInsert mem d r s = .ok (e, s') ∧
        (e = .elementAlreadyInList ↔ d ∈ xs) ∧
        (e = .insufficientMemory ↔ d ∉ xs ∧ mem = NULL) ∧
        (e = .elementNotInList ↔ d ∉ xs ∧ mem ≠ NULL ∧ xs ≠ [] ∧ (r = NULL ∨ r ∉ xs)) ∧
        (e ≠ .ok → s' = s)) ∧
      (∀ mem, MallocOk mem s → ∃ e s', listAppend mem d s = .ok (e, s') ∧
        e ≠ .elementNotInList ∧ (e ≠ .ok → s' = s)) ∧
      ∃ e s', listRemove d s = .ok (e, s') ∧ (e = .elementNotInList ↔ d ∉ xs) ∧
        (e ≠ .ok → s' = s)) := by
  obtain ⟨F, cs, hrep⟩ := rep_of_listSys hs
  refine ⟨payloads cs, hrep.toChain.spells, fun hnull d hd => ⟨fun mem r hlegal => ?_,
    fun mem hlegal => ?_, ?_⟩⟩
  · obtain ⟨s', hrun, -, hsame⟩ := listInsert_spec (d := d) (r := r) hrep hlegal
    obtain ⟨hmember, hmemory, href⟩ := chainInsert_status cs mem r hd
    have hnil : payloads cs ≠ [] ↔ cs ≠ [] := by simp [payloads]
    exact ⟨_, s', hrun, hmember, hmemory, by rw [href, hnil], hsame⟩
  · obtain ⟨s', hrun, -, hsame⟩ := listAppend_spec (d := d) hrep hlegal
    exact ⟨_, s', hrun, chainAppend_status hnull, hsame⟩
  · obtain ⟨s', hrun, -, hsame⟩ := listRemove_spec (d := d) hrep
    exact ⟨_, s', hrun, chainRemove_status hd, hsame⟩

/-- The list with the one element 7: an insertion of 5 behind 6, which is not there,
allocates a node and gives it back. -/
theorem list_outcomes_exact_run :
    ∃ s : State, Op.exec (.append 8 7) (listInit ⟨⟨5, 3, 4⟩, ∅⟩) = .ok (.ok, s) ∧
      listInsert 9 5 6 s = .ok (.elementNotInList, s) := by
  refine ⟨_, rfl, ?_⟩
  obtain ⟨xs, ⟨cs, hnext, -, -, rfl⟩, hout⟩ := list_outcomes_exact (.step
    (.init ⟨⟨5, 3, 4⟩, rfl⟩) (l := (.append 8 7, .ok)) ⟨by decide, rfl⟩)
  have hcs : cs = [(8, 7)] :=
    hnext.unique (by decide) (.cons (c := ⟨7, NULL, NULL⟩) rfl .nil)
  subst hcs
  obtain ⟨e, s', hrun, -, -, href, hsame⟩ :=
    (hout (by decide) 5 (by decide)).1 9 6 (by decide)
  obtain rfl := href.mpr (by decide)
  rw [hrun, hsame (by decide)]

end LeipoCode.LinkedList
