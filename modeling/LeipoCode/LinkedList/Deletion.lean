import LeipoCode.LinkedList.NullRule

/-!
# `list_delete` ends and empties the list

The loop of `list_delete` removes the data of the first node until there is no node, and
looks neither at a counter nor at the status of the removal.  A pass therefore frees the
first node exactly if its data can be found (`passes_of_rep`), and the one thing that can
not be found is NULL.

* `Passes` — passes of the loop, with the nodes they free;
* `EmptiesList` — what `list_delete` is for: as many passes as there are elements, every
  node freed once, and a list as fresh as `list_init` makes it;
* `emptiesList_iff` — it is met in a reachable state exactly if no node carries NULL.

That the loop ends and that it empties the list are one question here, because nothing but an empty
list ends it.  `EmptiesList` has them together with what a caller may expect afterwards: the list
can be used as one that was just initialised.
-/

namespace LeipoCode.LinkedList

open DList Fallible

/-- Passes of the loop of `list_delete` from `s` to `s'`, each entered with `head` not
NULL.  A pass frees the first node and no other; `freed` lists the nodes in order. -/
inductive Passes : State → List Ptr → State → Prop
  | done {s : State} : Passes s [] s
  | pass {s t s' : State} {freed : List Ptr} :
      s.list.head ≠ NULL → deletePass s = .ok t → s.list.head ∈ s.heap →
      t.heap.keys = s.heap.keys.erase s.list.head →
      Passes t freed s' → Passes s (s.list.head :: freed) s'

/-- **What `list_delete` is for.**  The loop ends after `size` passes, which free every
node once; it leaves a list that is as `list_init` makes it, with no node allocated, and
on which an insertion or an append succeeds as it does there. -/
def EmptiesList (s : State) : Prop :=
  ∃ freed s', Passes s freed s' ∧ s'.list.head = NULL ∧ s'.list.tail = NULL ∧
    s'.list.size = 0 ∧ listDelete s = .ok (.ok, s') ∧ (freed.length : ℤ) = s.list.size ∧
    freed.Nodup ∧ freed.toFinset = s.heap.keys ∧ listSys.init s' ∧
    ∀ mem d r, mem ≠ NULL → ∃ t, listAppend mem d s' = .ok (.ok, t) ∧
      listInsert mem d r s' = .ok (.ok, t) ∧ NextPath t.heap NULL t.list.head [(mem, d)]

/-- No node carries NULL.  It is a property of the heap before the call, and can be looked up in it.
-/
def NoNullData (s : State) : Prop :=
  ∀ p node, s.heap.lookup p = some node → node.data ≠ NULL

section Deletion

variable {F : Heap Ptr} {s s' : State} {cs : List (Ptr × Ptr)} {freed : List Ptr}

/-- The passes are turns of the loop, which ends behind them if they have left no head. -/
theorem Passes.deleteLoop (h : Passes s freed s') (hend : s'.list.head = NULL) (k : ℕ) :
    deleteLoop (freed.length + k) s = .ok s' := by
  induction h with
  | done => cases k <;> simp [LinkedList.deleteLoop, hend]
  | @pass s t s' freed hhead hpass _ _ _ ih =>
      have hstep : (s.list.head :: freed).length + k = (freed.length + k) + 1 := by
        simp only [List.length_cons]; omega
      rw [hstep, LinkedList.deleteLoop]
      simp only [if_neg hhead, hpass, ok_bind, ih hend]

/-- **The passes free the chain from its head**, node by node, as long as NULL is not in it. -/
theorem passes_of_rep (hrep : Rep F s cs) (hnull : NULL ∉ payloads cs) :
    ∃ s', Passes s (addrs cs) s' ∧ Rep F s' [] := by
  induction cs generalizing s with
  | nil => exact ⟨s, .done, hrep⟩
  | cons c cs ih =>
      simp only [payloads_cons, List.mem_cons, not_or] at hnull
      obtain ⟨t, hpass, hrep', -⟩ := deletePass_spec hrep
      have hout : (chainRemove c.2 (c :: cs)).2 = cs := by
        simp [chainRemove, Ne.symm hnull.1]
      rw [hout] at hrep'
      obtain ⟨s', hpasses, hrep''⟩ := ih hrep' hnull.2
      have hhead : s.list.head = c.1 := hrep.head
      have hne : s.list.head ≠ NULL := by
        intro he
        simp [hrep.toChain.head_eq_null] at he
      have hmem : c.1 ∈ s.heap := hrep.seg.mem (by simp)
      have hkeys : t.heap.keys = s.heap.keys.erase s.list.head := by
        have hcF : c.1 ∉ F.keys := by
          rw [Finmap.mem_keys]
          exact hrep.fresh c.1 (by simp)
        have hnodup : c.1 ∉ addrs cs := (List.nodup_cons.mp hrep.nodup).1
        rw [hrep'.keys, hrep.keys, hhead, addrs_cons, List.toFinset_cons, Finset.union_insert,
          Finset.erase_insert]
        simp [hcF, hnodup]
      refine ⟨s', ?_, hrep''⟩
      rw [addrs_cons, ← hhead]
      exact .pass hne hpass (hhead ▸ hmem) hkeys hpasses

/-- That no node carries NULL is the same of the list in the heap and of the chain it represents. -/
theorem noNullData_iff (hrep : Rep ∅ s cs) : NoNullData s ↔ NULL ∉ payloads cs := by
  have hkeys : ∀ p, p ∈ s.heap ↔ p ∈ addrs cs := by
    intro p
    rw [← Finmap.mem_keys, hrep.keys, Finmap.keys_empty, Finset.empty_union, List.mem_toFinset]
  constructor
  · intro hdata hnull
    obtain ⟨as, p, bs, rfl, -⟩ := split_at_payload hnull
    exact hdata p _ hrep.toChain.around.2.2.2.2.1 rfl
  · intro hnull p node hlook he
    have hp : p ∈ addrs cs := (hkeys p).mp (Finmap.mem_iff.mpr ⟨node, hlook⟩)
    obtain ⟨⟨q, d⟩, hc, rfl⟩ := List.mem_map.mp hp
    obtain ⟨as, bs, rfl⟩ := List.append_of_mem hc
    rw [hrep.toChain.around.2.2.2.2.1] at hlook
    obtain rfl := Option.some.inj hlook
    exact hnull (by simp [← he])

/-- A list with the empty chain, and nothing else allocated, is as `list_init` makes it. -/
theorem init_of_rep_nil (hrep : Rep ∅ s []) : s = listInit ⟨⟨0, NULL, NULL⟩, ∅⟩ := by
  obtain ⟨⟨size, head, tail⟩, h⟩ := s
  obtain rfl : head = NULL := hrep.head
  obtain rfl : tail = NULL := hrep.tail
  obtain rfl : size = 0 := hrep.size
  have hheap : h = ∅ := Finmap.ext_lookup fun a => hrep.frame a (by simp)
  rw [hheap]
  rfl

/-- **`list_delete` empties a chain that owns every node exactly if no node carries
NULL.** -/
theorem emptiesList_iff (hrep : Rep ∅ s cs) : EmptiesList s ↔ NoNullData s := by
  rw [noNullData_iff hrep]
  constructor
  · rintro ⟨freed, s', -, -, -, -, hrun, -⟩ hnull
    rw [listDelete_null hrep hnull] at hrun
    cases hrun
  · intro hnull
    obtain ⟨s', hpasses, hrep'⟩ := passes_of_rep hrep hnull
    obtain rfl := init_of_rep_nil hrep'
    have hkeys : s.heap.keys = (addrs cs).toFinset := by
      rw [hrep.keys, Finmap.keys_empty, Finset.empty_union]
    have hcard : s.heap.keys.card = (addrs cs).length := by
      rw [hkeys, List.toFinset_card_of_nodup hrep.nodup]
    have hloop : deleteLoop s.heap.keys.card s = .ok (listInit ⟨⟨0, NULL, NULL⟩, ∅⟩) := by
      rw [hcard]
      exact hpasses.deleteLoop rfl 0
    refine ⟨addrs cs, _, hpasses, rfl, rfl, rfl, by simp [listDelete, hloop], ?_, hrep.nodup,
      hkeys.symm, ⟨_, rfl⟩, fun mem d r hmem => ?_⟩
    · rw [hrep.size, addrs, List.length_map]
    · have hinsert : ∀ r', listInsert mem d r' (listInit ⟨⟨0, NULL, NULL⟩, ∅⟩) =
          .ok (.ok, ⟨⟨1, mem, mem⟩, (∅ : Heap Ptr).insert mem ⟨d, NULL, NULL⟩⟩) :=
        fun _ => listInsert_empty hrep'.toChain hmem
      have htail : (listInit ⟨⟨0, NULL, NULL⟩, ∅⟩).list.tail = NULL := rfl
      refine ⟨_, ?_, hinsert r, .cons (c := ⟨d, NULL, NULL⟩) (by simp) .nil⟩
      rw [listAppend, if_pos htail, hinsert NULL]

end Deletion

/-- **`list_delete` terminates and empties the list exactly if NULL is not in it**, in every state a
run reaches that calls `list_init` only at its start (`hs`), so that the list owns every node; and
so it does after every run whose insertions of NULL are refused.  The condition is on the nodes
before the call, and the second half says which calls bring it about. -/
theorem list_delete_empties_iff {s : State}
    (hs : (listSys.restrict fun _ l => l.1 ≠ .init).Reachable s) :
    (EmptiesList s ↔ NoNullData s) ∧
    ((listSys.restrict fun s l => l.1 ≠ .init ∧ l.1.NullGuarded s).Reachable s →
      EmptiesList s) := by
  obtain ⟨cs, hrep, -⟩ := rep_of_reachable hs
  refine ⟨emptiesList_iff hrep, fun hguarded => (emptiesList_iff hrep).mpr ?_⟩
  refine hguarded.invariant (I := fun s => ∃ cs, Rep ∅ s cs ∧ NULL ∉ payloads cs) ?_ ?_ |>.elim
    fun ds hds => (noNullData_iff hds.1).mpr hds.2
  · rintro s ⟨garbage, rfl⟩
    exact ⟨[], rep_init ⟨garbage, ∅⟩, by simp⟩
  · rintro s ⟨op, e⟩ s' ⟨cs, hrep, hnull⟩ ⟨⟨hinit, hguard⟩, hlegal, hrun⟩
    exact ⟨_, (rep_of_exec hrep hinit hlegal hrun).2, null_notMem_chain hrep hnull hguard⟩

/-- A list of one element is emptied by one pass. -/
theorem list_delete_empties_run :
    ∃ s : State, Op.exec (.append 8 7) (listInit ⟨⟨5, 3, 4⟩, ∅⟩) = .ok (.ok, s) ∧
      EmptiesList s := by
  refine ⟨_, rfl, (list_delete_empties_iff (.step (.init ⟨⟨5, 3, 4⟩, rfl⟩)
    (l := (.append 8 7, .ok)) ⟨by decide, by decide, rfl⟩)).2 ?_⟩
  exact .step (.init ⟨⟨5, 3, 4⟩, rfl⟩) (l := (.append 8 7, .ok))
    ⟨⟨by decide, fun h => absurd h (by decide)⟩, by decide, rfl⟩

/-- After NULL was inserted a pass of the loop changes nothing, so `list_delete` never
returns. -/
theorem list_delete_spins_on_null :
    ∃ s : State, Op.exec (.insert 8 NULL NULL) (listInit ⟨⟨5, 3, 4⟩, ∅⟩) = .ok (.ok, s) ∧
      (listSys.restrict fun _ l => l.1 ≠ .init).Reachable s ∧ s.list.size = 1 ∧
      deletePass s = .ok s ∧ listDelete s = .error .diverges ∧ ¬ EmptiesList s := by
  refine ⟨_, rfl, .step (.init ⟨⟨5, 3, 4⟩, rfl⟩) (l := (.insert 8 NULL NULL, .ok))
    ⟨by decide, by decide, rfl⟩, rfl, rfl, rfl, ?_⟩
  rintro ⟨freed, s', -, -, -, -, hrun, -⟩
  cases hrun

end LeipoCode.LinkedList
