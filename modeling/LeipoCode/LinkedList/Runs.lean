import LeipoCode.LinkedList.Spec

/-!
# Every run of the list keeps the representation

`Spec` says what one call does to the chain.  This module puts the calls together:

* the two iteration queries, which the source answers with a fresh search
  (`listNextData_eq`, `listPrevData_eq`);
* `list_delete`, whose loop has no counter: it ends exactly when no node carries
  NULL, because a pass over such a node changes nothing (`listDelete_spec`,
  `listDelete_null`);
* `Op.chain`, the effect of every call on the chain, and `exec_spec`, which is the
  step lemma of every result about runs;
* ownership: in every reachable state the allocated nodes are exactly those on the
  chain, both chains mirror each other, and no call or query makes an illegal access.

A run may call anything with any pointers, in any order, and `malloc` may fail at any call.  Only
`list_init` is called at its start and not again, since it disowns the nodes it finds: a second one
would lose them, as the source says it does.

### The step lemma and the run lemma

`exec_spec` is about a legal call in any state that `Spec.Rep` describes, with any nodes besides
those of the list, so it is the same lemma for the first call of a run and the last.  From it
`rep_of_reachable` follows by the invariant rule of `Lib.LTS`, with no node left over; the length
stays below `INT_MAX` because a node is only put in when `size` can count it (`length_chain_lt`).
The results about runs, here and in the modules that follow, use these two and look at no heap.

`list_delete` is the one call that may not return.  Its loop is shown to walk over the nodes in
front of the first that carries NULL, whatever comes behind (`deleteLoop_append`), and not to get
past that one (`deleteLoop_null`); a pass over it searches for NULL, which is refused, and leaves
everything as it was.
-/

namespace LeipoCode.LinkedList

open DList Fallible

section Queries

variable {L : ListT} {h : Heap Ptr} {cs as bs : List (Ptr × Ptr)} {p d : Ptr}

/-- `list_nextData` of a member is the data behind it, NULL for the last one. -/
theorem listNextData_eq (hc : Chain L h (as ++ (p, d) :: bs)) (hd : d ≠ NULL)
    (has : d ∉ payloads as) :
    listNextData ⟨L, h⟩ d = .ok ((payloads bs).head?.getD NULL) := by
  obtain ⟨hpn, -, hpb, -, hlook, -, hrest⟩ := hc.around
  have hfind : listFindPos ⟨L, h⟩ d = .ok p := listFindPos_mem hc hd has
  cases bs with
  | nil =>
      have htail : p = L.tail := hc.tail_append.1.symm
      simp [listNextData, hfind, htail]
  | cons b bs =>
      have htail : ¬ p = L.tail := by
        intro he
        rw [hc.tail, last_append] at he
        exact hpb (he ▸ last_mem_addrs NULL (List.cons_ne_nil b bs))
      simp only [listNextData, hfind, ok_bind, hpn, htail, or_self, if_false,
        load_eq hlook, first_cons, load_eq hrest.1]
      simp

/-- `list_prevData` of a member is the data before it, NULL for the first one. -/
theorem listPrevData_eq (hc : Chain L h (as ++ (p, d) :: bs)) (hd : d ≠ NULL)
    (has : d ∉ payloads as) :
    listPrevData ⟨L, h⟩ d = .ok ((payloads as).getLast?.getD NULL) := by
  obtain ⟨hpn, hpa, -, -, hlook, hseg, -⟩ := hc.around
  have hfind : listFindPos ⟨L, h⟩ d = .ok p := listFindPos_mem hc hd has
  -- The node before `p` is the last of `as`, so `as` is split at its end.
  rcases List.eq_nil_or_concat as with rfl | ⟨as, a, rfl⟩
  · have hhead : p = L.head := hc.head.symm
    simp [listPrevData, hfind, hhead]
  · rw [List.concat_eq_append] at *
    have hhead : ¬ p = L.head := by
      intro he
      rw [hc.head] at he
      refine hpa (he ▸ ?_)
      cases as <;> simp
    have hprev : last NULL (as ++ [a]) = a.1 := by rw [last_append]; rfl
    simp only [listPrevData, hfind, ok_bind, hpn, hhead, or_self, if_false,
      load_eq hlook, hprev, load_eq (seg_append.mp hseg).2.1]
    simp

theorem listNextData_notMem (hc : Chain L h cs) (hd : d = NULL ∨ d ∉ payloads cs) :
    listNextData ⟨L, h⟩ d = .ok NULL := by
  simp [listNextData, listFindPos_none hc hd]

theorem listPrevData_notMem (hc : Chain L h cs) (hd : d = NULL ∨ d ∉ payloads cs) :
    listPrevData ⟨L, h⟩ d = .ok NULL := by
  simp [listPrevData, listFindPos_none hc hd]

end Queries

/-! ### `list_delete` -/

section Delete

variable {F : Heap Ptr} {s : State} {as cs : List (Ptr × Ptr)} {c : Ptr × Ptr}

/-- One pass frees the first node, unless it carries NULL; then `list_remove` refuses, and nothing
changes. -/
theorem deletePass_spec (hrep : Rep F s (c :: cs)) :
    ∃ s', deletePass s = .ok s' ∧ Rep F s' (chainRemove c.2 (c :: cs)).2 ∧
      (c.2 = NULL → s' = s) := by
  obtain ⟨s', hrun, hrep', hsame⟩ := listRemove_spec (d := c.2) hrep
  refine ⟨s', ?_, hrep', fun hnull => hsame (by simp [chainRemove, hnull])⟩
  have hload : load s.heap s.list.head = .ok ⟨c.2, first cs NULL, NULL⟩ :=
    load_eq (by rw [hrep.head]; exact hrep.seg.1)
  simp [deletePass, hload, hrun]

/-- The loop frees the nodes in front of the first that carries NULL. -/
theorem deleteLoop_append (hrep : Rep F s (as ++ cs)) (has : NULL ∉ payloads as)
    (fuel : ℕ) :
    ∃ s', deleteLoop (as.length + fuel) s = deleteLoop fuel s' ∧ Rep F s' cs := by
  induction as generalizing s with
  | nil => exact ⟨s, by simp, hrep⟩
  | cons a as ih =>
      have hane : a.2 ≠ NULL := fun he => has (by simp [he])
      rw [List.cons_append] at hrep
      obtain ⟨s', hrun, hrep', -⟩ := deletePass_spec hrep
      have hout : (chainRemove a.2 (a :: (as ++ cs))).2 = as ++ cs := by
        simp [chainRemove, hane]
      rw [hout] at hrep'
      obtain ⟨s'', hloop, hrep''⟩ := ih hrep' fun hm => has (by simp [hm])
      have hhead : ¬ s.list.head = NULL := by
        intro he
        simp [hrep.toChain.head_eq_null] at he
      have hstep : (a :: as).length + fuel = (as.length + fuel) + 1 := by
        simp only [List.length_cons]; omega
      refine ⟨s'', ?_, hrep''⟩
      rw [hstep, deleteLoop]
      simp only [if_neg hhead, hrun, ok_bind, hloop]

/-- The loop does not get past a node that carries NULL, for a pass that changes nothing is followed
by the same pass. -/
theorem deleteLoop_null (hrep : Rep F s (c :: cs)) (hc : c.2 = NULL) (fuel : ℕ) :
    deleteLoop fuel s = .error .diverges := by
  have hhead : ¬ s.list.head = NULL := by
    intro he
    simp [hrep.toChain.head_eq_null] at he
  induction fuel with
  | zero => simp [deleteLoop, hhead]
  | succ fuel ih =>
      -- `list_remove` rejects NULL, so the pass leaves the state as it was.
      obtain ⟨s', hrun, -, hsame⟩ := deletePass_spec hrep
      rw [hsame hc] at hrun
      rw [deleteLoop]
      simp only [if_neg hhead, hrun, ok_bind, ih]

/-- **`list_delete` ends and empties the list** when no node carries NULL: it takes as many passes
as there are nodes. -/
theorem listDelete_spec (hrep : Rep F s cs) (hnull : NULL ∉ payloads cs) :
    ∃ s', listDelete s = .ok (.ok, s') ∧ Rep F s' [] := by
  -- The turns allowed cover the chain, because its nodes are distinct and allocated.
  have hle : cs.length ≤ s.heap.keys.card := hrep.seg.length_le_card hrep.nodup
  obtain ⟨k, hk⟩ : ∃ k, s.heap.keys.card = cs.length + k := ⟨_, (Nat.add_sub_of_le hle).symm⟩
  obtain ⟨s', hloop, hrep'⟩ :=
    deleteLoop_append (show Rep F s (cs ++ []) by simpa using hrep) hnull k
  refine ⟨s', ?_, hrep'⟩
  have hhead : s'.list.head = NULL := hrep'.toChain.head_eq_null.mpr rfl
  have hend : deleteLoop k s' = .ok s' := by
    cases k <;> simp [deleteLoop, hhead]
  simp [listDelete, hk, hloop, hend]

/-- `list_delete` never ends on a list that carries NULL, wherever in the list it is. -/
theorem listDelete_null (hrep : Rep F s cs) (hnull : NULL ∈ payloads cs) :
    listDelete s = .error .diverges := by
  have hle : cs.length ≤ s.heap.keys.card := hrep.seg.length_le_card hrep.nodup
  obtain ⟨as, p, bs, rfl, has⟩ := split_at_payload hnull
  obtain ⟨k, hk⟩ : ∃ k, s.heap.keys.card = as.length + k :=
    ⟨s.heap.keys.card - as.length, by simp only [List.length_append] at hle; omega⟩
  obtain ⟨s', hloop, hrep'⟩ := deleteLoop_append hrep has k
  simp only [listDelete, hk, hloop, deleteLoop_null hrep' rfl]
  rfl

end Delete

/-! ### Every call -/

/-- What a call does to the chain, and the status it returns.  For `list_delete` this is what it
does when it ends, and a single pass frees the first node if its data can be found. -/
def Op.chain : Op → List (Ptr × Ptr) → ListError × List (Ptr × Ptr)
  | .init, _ => (.ok, [])
  | .insert mem d r, cs => chainInsert mem d r cs
  | .append mem d, cs => chainAppend mem d cs
  | .remove d, cs => chainRemove d cs
  | .delete, _ => (.ok, [])
  | .deletePass, [] => (.ok, [])
  | .deletePass, c :: cs => (.ok, (chainRemove c.2 (c :: cs)).2)

section Exec

variable {F : Heap Ptr} {s s' : State} {cs : List (Ptr × Ptr)} {op : Op}

/-- **The step lemma.**  A legal call does to the chain what `Op.chain` says, on
any representation; only `list_delete` needs that no node carries NULL.
`list_init` is apart, because it disowns the nodes of the list. -/
theorem exec_spec (hrep : Rep F s cs) (hinit : op ≠ .init) (hlegal : op.Legal s)
    (hdel : op = .delete → NULL ∉ payloads cs) :
    ∃ s', op.exec s = .ok ((op.chain cs).1, s') ∧ Rep F s' (op.chain cs).2 := by
  cases op with
  | init => exact absurd rfl hinit
  | insert mem d r =>
      obtain ⟨s', hrun, hrep', -⟩ := listInsert_spec hrep hlegal
      exact ⟨s', hrun, hrep'⟩
  | append mem d =>
      obtain ⟨s', hrun, hrep', -⟩ := listAppend_spec hrep hlegal
      exact ⟨s', hrun, hrep'⟩
  | remove d =>
      obtain ⟨s', hrun, hrep', -⟩ := listRemove_spec hrep
      exact ⟨s', hrun, hrep'⟩
  | delete => exact listDelete_spec hrep (hdel rfl)
  | deletePass =>
      cases cs with
      | nil => exact absurd (hrep.toChain.head_eq_null.mpr rfl) hlegal
      | cons c cs =>
          obtain ⟨s', hrun, hrep', -⟩ := deletePass_spec hrep
          exact ⟨s', by simp [Op.exec, Op.chain, hrun], hrep'⟩

/-- `list_init` gives the empty list, and whatever was allocated stays so: the nodes of the list
before are lost. -/
theorem rep_init (s : State) : Rep s.heap (listInit s) [] where
  seg := trivial
  nodup := List.nodup_nil
  notNull := by simp
  head := rfl
  tail := rfl
  size := rfl
  frame := fun _ _ => rfl
  fresh := by simp

/-- The step lemma for a step that is known to have been made. -/
theorem rep_of_exec (hrep : Rep F s cs) (hinit : op ≠ .init) (hlegal : op.Legal s)
    {e : ListError} (hrun : op.exec s = .ok (e, s')) :
    e = (op.chain cs).1 ∧ Rep F s' (op.chain cs).2 := by
  have hdel : op = .delete → NULL ∉ payloads cs := by
    rintro rfl hnull
    rw [Op.exec, listDelete_null hrep hnull] at hrun
    cases hrun
  obtain ⟨t, hrun', hrep'⟩ := exec_spec hrep hinit hlegal hdel
  rw [hrun] at hrun'
  obtain ⟨rfl, rfl⟩ := Prod.mk.inj (Except.ok.inj hrun')
  exact ⟨rfl, hrep'⟩

/-- The only thing that can go wrong in a legal call is that `list_delete` meets a
node that carries NULL. -/
theorem exec_error (hrep : Rep F s cs) (hlegal : op.Legal s) {f : Fault}
    (hrun : op.exec s = .error f) : op = .delete ∧ f = .diverges := by
  by_cases hinit : op = .init
  · subst hinit
    cases hrun
  by_cases hdel : op = .delete → NULL ∉ payloads cs
  · obtain ⟨t, hrun', -⟩ := exec_spec hrep hinit hlegal hdel
    rw [hrun] at hrun'
    cases hrun'
  · simp only [Classical.not_imp, not_not] at hdel
    obtain ⟨rfl, hnull⟩ := hdel
    rw [Op.exec, listDelete_null hrep hnull] at hrun
    exact ⟨rfl, (Except.error.inj hrun).symm⟩

theorem length_chainInsert_le (mem d r : Ptr) (cs : List (Ptr × Ptr)) :
    ((chainInsert mem d r cs).2.length ≤ cs.length ∨
      (mem ≠ NULL ∧ (chainInsert mem d r cs).2.length = cs.length + 1)) := by
  have hafter : ∀ c : Ptr × Ptr, (insertAfter r c cs).length ≤ cs.length ∨
      (insertAfter r c cs).length = cs.length + 1 := by
    intro c
    induction cs with
    | nil => exact Or.inl le_rfl
    | cons x xs ih =>
        by_cases hx : x.2 = r
        · simp [insertAfter, hx]
        · simp only [insertAfter, if_neg hx, List.length_cons]
          omega
  unfold chainInsert
  split_ifs with _ hmem hcs
  · exact Or.inl le_rfl
  · exact Or.inl le_rfl
  · exact Or.inr ⟨hmem, by simp [hcs]⟩
  · exact Or.inl le_rfl
  · exact (hafter _).imp_right fun h => ⟨hmem, h⟩

/-- No legal call makes the list as long as `INT_MAX`. -/
theorem length_chain_lt (hrep : Rep F s cs) (hlegal : op.Legal s)
    (hlen : (cs.length : ℤ) < INT_MAX) : ((op.chain cs).2.length : ℤ) < INT_MAX := by
  -- An insertion that grows the chain went through `malloc`, which has room for it.
  have hgrow : ∀ mem d r, MallocOk mem s →
      ((chainInsert mem d r cs).2.length : ℤ) < INT_MAX := by
    intro mem d r hok
    rcases length_chainInsert_le mem d r cs with hle | ⟨hmem, heq⟩
    · omega
    · have hroom := (hok hmem).2
      rw [hrep.size] at hroom
      omega
  have hdrop : ∀ d, ((chainRemove d cs).2.length : ℤ) < INT_MAX := by
    intro d
    have hle : (chainRemove d cs).2.length ≤ cs.length := by
      unfold chainRemove
      split_ifs
      · exact le_rfl
      · exact List.length_eraseP_le
    omega
  cases op with
  | init => simp [Op.chain, INT_MAX]
  | insert mem d r => exact hgrow mem d r hlegal
  | append mem d => exact hgrow mem d _ hlegal
  | remove d => exact hdrop d
  | delete => simp [Op.chain, INT_MAX]
  | deletePass =>
      cases cs with
      | nil => simp [Op.chain, INT_MAX]
      | cons c cs => exact hdrop c.2

end Exec

/-- **The run lemma.**  What a run that calls `list_init` only at its start reaches is a
chain that owns every allocated node. -/
theorem rep_of_reachable {s : State}
    (hs : (listSys.restrict fun _ l => l.1 ≠ .init).Reachable s) :
    ∃ cs, Rep ∅ s cs ∧ (cs.length : ℤ) < INT_MAX := by
  refine LTS.Reachable.invariant (I := fun s => ∃ cs, Rep ∅ s cs ∧
    (cs.length : ℤ) < INT_MAX) ?_ ?_ hs
  · rintro s ⟨garbage, rfl⟩
    exact ⟨[], rep_init ⟨garbage, ∅⟩, by simp [INT_MAX]⟩
  · rintro s ⟨op, e⟩ s' ⟨cs, hrep, hlen⟩ ⟨hinit, hlegal, hrun⟩
    exact ⟨_, (rep_of_exec hrep hinit hlegal hrun).2, length_chain_lt hrep hlegal hlen⟩

/-- **Representation and ownership.**  In every state a run reaches from
`list_init` by legal calls with arbitrary pointers, and by single passes of the
loop of `list_delete`:

* following `next` from `head` meets a finite chain of distinct nodes that ends at
  `tail`, following `prev` from `tail` meets the same chain backwards, and the
  allocated nodes are exactly those of the chain;
* `size` is the length of the chain and below `INT_MAX`, and the three tests for
  emptiness that the source uses agree;
* no legal call makes an illegal access, frees a node twice or overflows `size`
  (the one call that can fail to return is `list_delete`), and no query does. -/
theorem list_ownership {s : State}
    (hs : (listSys.restrict fun _ l => l.1 ≠ .init).Reachable s) :
    (∃ cs : List (Ptr × Ptr),
      NextPath s.heap NULL s.list.head cs ∧ PrevPath s.heap NULL s.list.tail cs.reverse ∧
      (addrs cs).Nodup ∧ s.list.head = first cs NULL ∧ s.list.tail = last NULL cs ∧
      s.heap.keys = (addrs cs).toFinset ∧ s.list.size = cs.length ∧
      s.list.size < INT_MAX) ∧
    ((s.list.size = 0 ↔ s.list.tail = NULL) ∧ (s.list.tail = NULL ↔ s.list.head = NULL)) ∧
    (∀ op : Op, op.Legal s → ∀ f, op.exec s = .error f → op = .delete ∧ f = .diverges) ∧
    ((∃ v, listHead s = .ok v) ∧ (∃ v, listTail s = .ok v) ∧
      ∀ d, (∃ v, listNextData s d = .ok v) ∧ (∃ v, listPrevData s d = .ok v) ∧
        ∃ v, listHasMember s d = .ok v) := by
  obtain ⟨cs, hrep, hlen⟩ := rep_of_reachable hs
  have hc : Chain s.list s.heap cs := hrep.toChain
  have hkeys : s.heap.keys = (addrs cs).toFinset := by
    rw [hrep.keys, Finmap.keys_empty, Finset.empty_union]
  refine ⟨⟨cs, ?_, ?_, hc.nodup, hc.head, hc.tail, hkeys, hc.size, ?_⟩, ⟨?_, ?_⟩, ?_, ?_⟩
  · rw [hc.head]
    exact seg_nextPath hc.seg
  · rw [hc.tail]
    exact seg_prevPath hc.seg
  · rw [hc.size]
    exact hlen
  · rw [hc.size_eq_zero, hc.tail_eq_null]
  · rw [hc.tail_eq_null, hc.head_eq_null]
  · exact fun op hlegal f hrun => exec_error hrep hlegal hrun
  · refine ⟨⟨_, listHead_eq hc⟩, ⟨_, listTail_eq hc⟩, ?_⟩
    intro d
    refine ⟨?_, ?_, ⟨_, listHasMember_eq hc d⟩⟩
    · by_cases hd : d = NULL ∨ d ∉ payloads cs
      · exact ⟨_, listNextData_notMem hc hd⟩
      · simp only [not_or, not_not] at hd
        obtain ⟨as, p, bs, rfl, has⟩ := split_at_payload hd.2
        exact ⟨_, listNextData_eq hc hd.1 has⟩
    · by_cases hd : d = NULL ∨ d ∉ payloads cs
      · exact ⟨_, listPrevData_notMem hc hd⟩
      · simp only [not_or, not_not] at hd
        obtain ⟨as, p, bs, rfl, has⟩ := split_at_payload hd.2
        exact ⟨_, listPrevData_eq hc hd.1 has⟩

/-- A run with a node that carries NULL, and an insertion that allocates a node and
frees it again because its reference is not in the list. -/
theorem list_ownership_run :
    ∃ s₁ s₂ : State,
      Op.exec (.insert 8 NULL NULL) (listInit ⟨⟨5, 3, 4⟩, ∅⟩) = .ok (.ok, s₁) ∧
      Op.exec (.insert 9 7 6) s₁ = .ok (.elementNotInList, s₂) ∧
      (∃ cs : List (Ptr × Ptr), NextPath s₂.heap NULL s₂.list.head cs ∧
        (addrs cs).Nodup ∧ s₂.heap.keys = (addrs cs).toFinset) ∧
      ∀ op : Op, op.Legal s₂ → ∀ f, op.exec s₂ = .error f → op = .delete ∧ f = .diverges := by
  refine ⟨_, _, rfl, rfl, ?_⟩
  obtain ⟨⟨cs, hnext, -, hnodup, -, -, hkeys, -⟩, -, hsafe, -⟩ := list_ownership
    (.step (.step (.init ⟨⟨5, 3, 4⟩, rfl⟩)
      (l := (.insert 8 NULL NULL, .ok)) ⟨by decide, by decide, rfl⟩)
      (l := (.insert 9 7 6, .elementNotInList)) ⟨by decide, by decide, rfl⟩)
  exact ⟨⟨cs, hnext, hnodup, hkeys⟩, hsafe⟩

end LeipoCode.LinkedList
