import LeipoCode.Lib.Walk
import LeipoCode.LinkedList.Outcomes

/-!
# The iteration protocol

A caller walks the list with `list_head` and `list_nextData`, or backwards with
`list_tail` and `list_prevData`; `PrintList` of `testlist.c` is such a caller.  Each
step searches its pointer again from the head, so the walk is right because the search
finds the node the walk is at: the data of a reachable list are distinct, NULL apart
(`DistinctData`), and the links of both directions agree.

The walk is a function of what it has got so far and the list, so the theorem is about one state of
the list: a caller that changes the list while it walks does so between two steps, and goes on from
a pointer that may be gone.  `Lib.Walk` says when such a loop ends and with what; here its step is a
query of the list, and the order of the elements is that of the chain.

### Why the data are distinct

An insertion refuses every pointer that is there already, except NULL, for which a search finds
nothing, so the data of a chain are distinct, NULL apart (`DistinctData`), from `list_init` on and
whatever is called.  A search for a member then finds the node that the walk is at, and no earlier
one with the same pointer.  If NULL is in the list the walk stops there, because NULL is also the
answer for the end: this is the hypothesis of the theorem, and it is the only one.

`prev_next` and `next_prev` say that a step and a step back lead to where one was, so the two
directions are one order.
-/

namespace LeipoCode.LinkedList

open DList Fallible

/-! ### `PrintList` -/

/-- The loop of `PrintList`, at most `fuel` elements long, with the elements printed. -/
def printLoop (s : State) : ℕ → Ptr → Except Fault (List Ptr)
  | 0, memP => if memP = NULL then .ok [] else .error .diverges
  | fuel + 1, memP => do
      if memP = NULL then
        return []
      let rest ← printLoop s fuel (← listNextData s memP)
      return memP :: rest

/-- `PrintList`.  It changes nothing, and what it visits is the data of a node: a loop
longer than there are nodes would visit the same data for ever. -/
def printList (s : State) : Except Fault (List Ptr) := do
  let memP ← listHead s
  if s.list.size = 0 then
    return []
  printLoop s s.heap.keys.card memP

theorem printLoop_of_walk {s : State} {d : Ptr} {xs : List Ptr}
    (hwalk : Walk (listNextData s) NULL d xs) {fuel : ℕ} (hfuel : xs.length ≤ fuel) :
    printLoop s fuel d = .ok xs := by
  induction hwalk generalizing fuel with
  | stop => cases fuel <;> simp [printLoop]
  | visit hne hnext _ ih =>
      obtain ⟨fuel, rfl⟩ : ∃ k, fuel = k + 1 :=
        Nat.exists_eq_add_one.mpr (lt_of_lt_of_le (Nat.succ_pos _) hfuel)
      have hrest := ih (Nat.le_of_succ_le_succ hfuel)
      simp [printLoop, hne, hnext, hrest]

/-! ### The data are distinct -/

/-- The data of a chain are distinct, NULL apart: nothing keeps that from going in
twice. -/
def DistinctData (cs : List (Ptr × Ptr)) : Prop :=
  ((payloads cs).filter fun d => d ≠ NULL).Nodup

section Distinct

variable {cs : List (Ptr × Ptr)} {mem d r : Ptr} {op : Op}

theorem DistinctData.sublist {ds : List (Ptr × Ptr)} (h : DistinctData cs)
    (hsub : ds.Sublist cs) : DistinctData ds :=
  List.Nodup.sublist ((hsub.map Prod.snd).filter _) h

/-- An insertion behind a member adds one element and moves none, wherever it goes. -/
theorem payloads_insertAfter_perm (c : Ptr × Ptr) (hr : r ∈ payloads cs) :
    (payloads (insertAfter r c cs)).Perm (c.2 :: payloads cs) := by
  obtain ⟨as, p, bs, rfl, has⟩ := split_at_payload hr
  rw [insertAfter_append c has]
  simp only [payloads_append, payloads_cons]
  have hmid : (payloads as ++ [r] ++ c.2 :: payloads bs).Perm
      (c.2 :: (payloads as ++ [r] ++ payloads bs)) := List.perm_middle
  simpa using hmid

theorem distinctData_cons {c : Ptr × Ptr} (h : DistinctData cs)
    (hc : ¬ (c.2 ≠ NULL ∧ c.2 ∈ payloads cs)) : DistinctData (c :: cs) := by
  unfold DistinctData
  rw [payloads_cons]
  by_cases hnull : c.2 = NULL
  · rw [List.filter_cons_of_neg (by simp [hnull])]
    exact h
  · rw [List.filter_cons_of_pos (by simp [hnull])]
    exact List.nodup_cons.mpr ⟨fun hm => hc ⟨hnull, List.mem_of_mem_filter hm⟩, h⟩

theorem distinctData_chainInsert (h : DistinctData cs) :
    DistinctData (chainInsert mem d r cs).2 := by
  unfold chainInsert
  split_ifs with hmember hmem hcs href
  · exact h
  · exact h
  · have hempty : DistinctData [] := List.nodup_nil
    exact distinctData_cons (c := (mem, d)) hempty (by simp)
  · exact h
  · simp only [not_or, not_not] at href
    have hperm := (payloads_insertAfter_perm (mem, d) href.2).filter fun x => x ≠ NULL
    exact hperm.nodup_iff.mpr (distinctData_cons (c := (mem, d)) h hmember)

theorem distinctData_chainRemove (h : DistinctData cs) :
    DistinctData (chainRemove d cs).2 := by
  unfold chainRemove
  split_ifs
  · exact h
  · exact h.sublist List.eraseP_sublist

/-- Every call keeps the data distinct, since `list_insert` refuses what is there already. -/
theorem distinctData_chain (h : DistinctData cs) : DistinctData (op.chain cs).2 := by
  cases op with
  | init => exact List.nodup_nil
  | delete => exact List.nodup_nil
  | insert mem d r => exact distinctData_chainInsert h
  | append mem d => exact distinctData_chainInsert h
  | remove d => exact distinctData_chainRemove h
  | deletePass =>
      cases cs with
      | nil => exact List.nodup_nil
      | cons c cs => exact distinctData_chainRemove h

/-- Without NULL, which may be there more than once, they are distinct altogether. -/
theorem DistinctData.nodup (h : DistinctData cs) (hnull : NULL ∉ payloads cs) :
    (payloads cs).Nodup := by
  have hall : (payloads cs).filter (fun d => d ≠ NULL) = payloads cs :=
    List.filter_eq_self.mpr fun d hd => by
      simpa using ne_of_mem_of_not_mem hd hnull
  rwa [DistinctData, hall] at h

end Distinct

theorem distinct_of_listSys {s : State} (hs : listSys.Reachable s) :
    ∃ F cs, Rep F s cs ∧ DistinctData cs := by
  refine hs.invariant (I := fun s => ∃ F cs, Rep F s cs ∧ DistinctData cs) ?_ ?_
  · rintro s ⟨garbage, rfl⟩
    exact ⟨∅, [], rep_init ⟨garbage, ∅⟩, List.nodup_nil⟩
  · rintro s ⟨op, e⟩ s' ⟨F, cs, hrep, hdistinct⟩ ⟨hlegal, hrun⟩
    by_cases hinit : op = .init
    · subst hinit
      cases hrun
      exact ⟨s.heap, [], rep_init s, List.nodup_nil⟩
    · exact ⟨F, _, (rep_of_exec hrep hinit hlegal hrun).2, distinctData_chain hdistinct⟩

/-! ### The walks -/

section Walks

variable {F : Heap Ptr} {s : State} {cs : List (Ptr × Ptr)} {xs ys zs : List Ptr} {x : Ptr}

/-- A position among the data is one in the chain, with a node of its own. -/
theorem split_at_position (hsplit : payloads cs = ys ++ x :: zs) :
    ∃ as p bs, cs = as ++ (p, x) :: bs ∧ payloads as = ys ∧ payloads bs = zs := by
  obtain ⟨as, rest, rfl, has, hrest⟩ := List.map_eq_append_iff.mp hsplit
  obtain ⟨⟨p, y⟩, bs, rfl, hy, hbs⟩ := List.map_eq_cons_iff.mp hrest
  obtain rfl : y = x := hy
  exact ⟨as, p, bs, rfl, has, hbs⟩

/-- The neighbours of a position, in both directions: what `list_nextData` and `list_prevData` find
from there, NULL at the two ends. -/
theorem neighbours_of_split (hrep : Rep F s cs) (hdistinct : DistinctData cs)
    (hnull : NULL ∉ payloads cs) (hsplit : payloads cs = ys ++ x :: zs) :
    x ≠ NULL ∧ listNextData s x = .ok (zs.head?.getD NULL) ∧
      listPrevData s x = .ok (ys.getLast?.getD NULL) := by
  have hnodup := hdistinct.nodup hnull
  rw [hsplit] at hnodup hnull
  have hx : x ≠ NULL := fun he => hnull (by simp [he])
  have hys : x ∉ ys := fun hm => (List.nodup_append.mp hnodup).2.2 x hm x (by simp) rfl
  obtain ⟨as, p, bs, rfl, rfl, rfl⟩ := split_at_position hsplit
  exact ⟨hx, listNextData_eq hrep.toChain hx hys, listPrevData_eq hrep.toChain hx hys⟩

/-- From head to tail: `list_nextData` visits every element once, in order, and then gives NULL. -/
theorem walk_next (hrep : Rep F s cs) (hdistinct : DistinctData cs)
    (hnull : NULL ∉ payloads cs) :
    Walk (listNextData s) NULL ((payloads cs).head?.getD NULL) (payloads cs) := by
  apply walk_of_next
  intro ys x zs hsplit
  obtain ⟨hx, hnext, -⟩ := neighbours_of_split hrep hdistinct hnull hsplit
  exact ⟨hx, hnext⟩

/-- From tail to head: the elements before a position are those behind it, reversed. -/
theorem walk_prev (hrep : Rep F s cs) (hdistinct : DistinctData cs)
    (hnull : NULL ∉ payloads cs) :
    Walk (listPrevData s) NULL ((payloads cs).getLast?.getD NULL) (payloads cs).reverse := by
  rw [← List.head?_reverse]
  apply walk_of_next
  intro ys x zs hsplit
  have hsplit' : payloads cs = zs.reverse ++ x :: ys.reverse := by
    rw [← List.reverse_reverse (payloads cs), hsplit]
    simp
  obtain ⟨hx, -, hprev⟩ := neighbours_of_split hrep hdistinct hnull hsplit'
  rw [List.getLast?_reverse] at hprev
  exact ⟨hx, hprev⟩

/-- One step on and one back leads to where one was, from any element but the last. -/
theorem prev_next (hrep : Rep F s cs) (hdistinct : DistinctData cs)
    (hnull : NULL ∉ payloads cs) (hx : x ∈ payloads cs)
    (hlast : (payloads cs).getLast? ≠ some x) :
    ∃ y, listNextData s x = .ok y ∧ listPrevData s y = .ok x := by
  obtain ⟨ys, zs, hsplit⟩ := List.append_of_mem hx
  obtain ⟨-, hnext, -⟩ := neighbours_of_split hrep hdistinct hnull hsplit
  cases zs with
  | nil => exact absurd (by rw [hsplit]; simp) hlast
  | cons y zs =>
      have hsplit' : payloads cs = (ys ++ [x]) ++ y :: zs := by rw [hsplit]; simp
      obtain ⟨-, -, hprev⟩ := neighbours_of_split hrep hdistinct hnull hsplit'
      exact ⟨y, hnext, by simpa using hprev⟩

/-- One step back and one on leads to where one was, from any element but the first. -/
theorem next_prev (hrep : Rep F s cs) (hdistinct : DistinctData cs)
    (hnull : NULL ∉ payloads cs) (hx : x ∈ payloads cs)
    (hfirst : (payloads cs).head? ≠ some x) :
    ∃ y, listPrevData s x = .ok y ∧ listNextData s y = .ok x := by
  obtain ⟨ys, zs, hsplit⟩ := List.append_of_mem hx
  obtain ⟨-, -, hprev⟩ := neighbours_of_split hrep hdistinct hnull hsplit
  rcases List.eq_nil_or_concat ys with rfl | ⟨ys, y, rfl⟩
  · exact absurd (by rw [hsplit]; rfl) hfirst
  · have hsplit' : payloads cs = ys ++ y :: (x :: zs) := by rw [hsplit]; simp
    obtain ⟨-, hnext, -⟩ := neighbours_of_split hrep hdistinct hnull hsplit'
    exact ⟨y, by simpa using hprev, hnext⟩

/-- `PrintList` prints every element once, in the order of the chain. -/
theorem printList_eq (hrep : Rep F s cs) (hdistinct : DistinctData cs)
    (hnull : NULL ∉ payloads cs) : printList s = .ok (payloads cs) := by
  have hlen : (payloads cs).length ≤ s.heap.keys.card := by
    rw [length_payloads]
    exact hrep.seg.length_le_card hrep.nodup
  have hloop := printLoop_of_walk (walk_next hrep hdistinct hnull) hlen
  unfold printList
  rw [listHead_eq hrep.toChain]
  by_cases hsize : s.list.size = 0
  · obtain rfl := hrep.toChain.size_eq_zero.mp hsize
    simp [hsize]
  · simp [hsize, hloop]

end Walks

/-- **The iteration protocol visits every element exactly once.**  A reachable list spells
a sequence; if NULL is not in it, then it has no repetition, and:

* the walk from `list_head` by `list_nextData` visits it in order and the one from
  `list_tail` by `list_prevData` in reverse, each in `list_size` steps, and `PrintList`
  prints it;
* the two steps undo each other, except at the end they lead over;
* both return NULL for a pointer that is not a member. -/
theorem iteration_visits_once {s : State} (hs : listSys.Reachable s) :
    ∃ xs, Spells s xs ∧ (NULL ∉ xs →
      (xs.Nodup ∧ (xs.length : ℤ) = listSize s) ∧
      (∃ d, listHead s = .ok d ∧ Walk (listNextData s) NULL d xs) ∧
      (∃ d, listTail s = .ok d ∧ Walk (listPrevData s) NULL d xs.reverse) ∧
      printList s = .ok xs ∧
      (∀ x ∈ xs, xs.getLast? ≠ some x →
        ∃ y, listNextData s x = .ok y ∧ listPrevData s y = .ok x) ∧
      (∀ x ∈ xs, xs.head? ≠ some x →
        ∃ y, listPrevData s x = .ok y ∧ listNextData s y = .ok x) ∧
      ∀ d, d ∉ xs → listNextData s d = .ok NULL ∧ listPrevData s d = .ok NULL) := by
  obtain ⟨F, cs, hrep, hdistinct⟩ := distinct_of_listSys hs
  refine ⟨payloads cs, hrep.toChain.spells, fun hnull => ⟨⟨hdistinct.nodup hnull, ?_⟩,
    ⟨_, listHead_eq hrep.toChain, walk_next hrep hdistinct hnull⟩,
    ⟨_, listTail_eq hrep.toChain, walk_prev hrep hdistinct hnull⟩,
    printList_eq hrep hdistinct hnull, fun x => prev_next hrep hdistinct hnull,
    fun x => next_prev hrep hdistinct hnull, fun d hd => ?_⟩⟩
  · rw [listSize, hrep.size, length_payloads]
  · exact ⟨listNextData_notMem hrep.toChain (.inr hd), listPrevData_notMem hrep.toChain (.inr hd)⟩

/-- Two elements are printed in the order they were appended. -/
theorem iteration_visits_once_run :
    ∃ s₁ s₂ : State, Op.exec (.append 8 7) (listInit ⟨⟨5, 3, 4⟩, ∅⟩) = .ok (.ok, s₁) ∧
      Op.exec (.append 9 6) s₁ = .ok (.ok, s₂) ∧ printList s₂ = .ok [7, 6] ∧
      Walk (listPrevData s₂) NULL 6 [6, 7] := by
  refine ⟨_, _, rfl, rfl, ?_⟩
  obtain ⟨xs, ⟨cs, hpath, -, -, rfl⟩, hwalks⟩ := iteration_visits_once (.step (.step
    (.init ⟨⟨5, 3, 4⟩, rfl⟩) (l := (.append 8 7, .ok)) ⟨by decide, rfl⟩)
    (l := (.append 9 6, .ok)) ⟨by decide, rfl⟩)
  have hcs : cs = [(8, 7), (9, 6)] := hpath.unique (by decide)
    (.cons (c := ⟨7, 9, NULL⟩) rfl (.cons (c := ⟨6, NULL, 8⟩) rfl .nil))
  subst hcs
  obtain ⟨-, -, ⟨d, htail, hprev⟩, hprint, -⟩ := hwalks (by decide)
  obtain rfl : 6 = d := Except.ok.inj htail
  exact ⟨hprint, hprev⟩

end LeipoCode.LinkedList
