import LeipoCode.Lib.Fallible
import LeipoCode.LinkedList.Model

/-!
# What each call of `list.c` does to the chain of nodes

`Rep F s cs` says that the list structure of `s` and its heap lay out the chain
`cs` of `(node, data)` pairs, next to the nodes `F` that do not belong to the
list.  It is the representation invariant: both link directions, the cached ends,
the cached size and the ownership of the nodes are all functions of `cs`.

One function on chains says what each call does (`chainInsert`, `chainAppend`,
`chainRemove`), and one spec lemma says that the call does just that and keeps
`Rep` (`listInsert_spec`, `listAppend_spec`, `listRemove_spec`).  Data may be
NULL and may repeat here: the chain is about nodes, and uniqueness of data is a
consequence drawn elsewhere from what callers pass.

The proofs split the chain at the node a call works on.  The search stops at the first node with the
data (`split_at_payload`), the links that are changed are those of this node and its neighbours, and
what lies before and behind is passed over by the frame rule of `Lib.DList`.  Whether the node is
the first, the last or in the middle makes the branches of the source, and the cases of the proofs.

### What the lemmas are about

A call is a chain of reads and writes in `Except`, so a spec lemma is shown by running the call:
each access is looked up in the chain that `Rep` says is there (`load_eq`, `store_eq`, `free_eq`),
and none of them can fail then.  What comes out is the same heap with two or three cells changed,
and `Rep.grow` and `Rep.shrink` say what is left to show of it: that the new chain is laid out, that
the size is its length, and that no node got lost or was made up.

* `insertAfter`, and `List.eraseP` for the removal, are what is done to the pairs; each has a lemma
  for the place where the chain is split, so the recursion is not met again later.
* `listInsert_tail` and `listInsert_middle`, `listRemove_single`, `_first`, `_last` and `_middle`
  are the branches of the source, one run each; the spec lemma puts them together.
* The fuel of the search is more than there are nodes, and a chain has no node twice, so
  `Fault.diverges` is never met on a list that is laid out (`findPosLoop_append`).

`F` is there for the nodes that belong to nobody: with it the invariant survives a call of
`list_init` on a list that still has nodes, which leaves them in the heap.
-/

namespace LeipoCode.LinkedList

open DList Fallible

/-! ### The representation invariant -/

/-- The list structure `L` and the heap `h` lay out the chain `cs` of
`(node, data)` pairs. -/
structure Chain (L : ListT) (h : Heap Ptr) (cs : List (Ptr × Ptr)) : Prop where
  seg : Seg h NULL cs NULL
  nodup : (addrs cs).Nodup
  notNull : NULL ∉ addrs cs
  head : L.head = first cs NULL
  tail : L.tail = last NULL cs
  size : L.size = cs.length

/-- The heap of `s` holds the chain `cs` and, apart from it, the nodes `F`.  With `F` empty every
allocated node is on the chain, which is what runs keep; `list_init` on a list that is in use is
what makes `F` grow. -/
structure Rep (F : Heap Ptr) (s : State) (cs : List (Ptr × Ptr)) : Prop
    extends Chain s.list s.heap cs where
  frame : ∀ a, a ∉ addrs cs → s.heap.lookup a = F.lookup a
  fresh : ∀ a ∈ addrs cs, a ∉ F

/-- The allocated nodes are those of the chain and those of the frame. -/
theorem Rep.keys {F : Heap Ptr} {s : State} {cs : List (Ptr × Ptr)} (h : Rep F s cs) :
    s.heap.keys = F.keys ∪ (addrs cs).toFinset := by
  ext a
  rw [Finset.mem_union, List.mem_toFinset, Finmap.mem_keys, Finmap.mem_keys]
  by_cases ha : a ∈ addrs cs
  · simp [ha, h.seg.mem ha]
  · rw [← Finmap.lookup_isSome, h.frame a ha, Finmap.lookup_isSome]
    simp [ha]

section Ends

variable {L : ListT} {h : Heap Ptr} {cs : List (Ptr × Ptr)}

theorem Chain.head_eq_null (hc : Chain L h cs) : L.head = NULL ↔ cs = [] := by
  rw [hc.head]
  cases cs with
  | nil => simp
  | cons c cs =>
      have hne : c.1 ≠ NULL := fun he => hc.notNull (by simp [he])
      simp [hne]

theorem Chain.tail_eq_null (hc : Chain L h cs) : L.tail = NULL ↔ cs = [] := by
  rw [hc.tail]
  constructor
  · intro he
    by_contra hne
    exact hc.notNull (he ▸ last_mem_addrs NULL hne)
  · rintro rfl
    rfl

theorem Chain.size_eq_zero (hc : Chain L h cs) : L.size = 0 ↔ cs = [] := by
  rw [hc.size, ← List.length_eq_zero_iff]
  omega

/-- `tail` is the node of the last pair, which has no successor and points back to the one before
it. -/
theorem Chain.tail_append {c : Ptr × Ptr} (hc : Chain L h (cs ++ [c])) :
    L.tail = c.1 ∧ h.lookup c.1 = some ⟨c.2, NULL, last NULL cs⟩ := by
  refine ⟨?_, (seg_append.mp hc.seg).2.1⟩
  rw [hc.tail, last_append]
  rfl

end Ends

/-! ### Running a call -/

theorem load_eq {h : Heap Ptr} {p : Ptr} {c : Node} (hp : h.lookup p = some c) :
    load h p = .ok c := by
  simp [load, hp]

theorem store_eq {h : Heap Ptr} {p : Ptr} (f : Node → Node) (hp : p ∈ h) :
    store h p f = .ok (h.modify p f) := by
  obtain ⟨c, hc⟩ := Finmap.mem_iff.mp hp
  simp [store, load_eq hc]

theorem free_eq {h : Heap Ptr} {p : Ptr} (hnull : p ≠ NULL) (hp : p ∈ h) :
    free h p = .ok (h.erase p) := by
  simp [free, hnull, hp]

/-! ### The search -/

/-- Data that occur in a chain occur at a first node, and there `list_findPos` finds them. -/
theorem split_at_payload {d : Ptr} {cs : List (Ptr × Ptr)} (hd : d ∈ payloads cs) :
    ∃ as p bs, cs = as ++ (p, d) :: bs ∧ d ∉ payloads as := by
  induction cs with
  | nil => simp at hd
  | cons c cs ih =>
      by_cases hc : c.2 = d
      · exact ⟨[], c.1, cs, by rw [← hc]; rfl, by simp⟩
      · have hd' : d ∈ payloads cs := by
          simpa [Ne.symm hc] using hd
        obtain ⟨as, p, bs, rfl, has⟩ := ih hd'
        exact ⟨c :: as, p, bs, rfl, by simp [Ne.symm hc, has]⟩

/-- The loop of `list_findPos` walks past nodes that hold other data. -/
theorem findPosLoop_append {h : Heap Ptr} {d p q : Ptr} {as : List (Ptr × Ptr)}
    (hseg : Seg h p as q) (hnull : NULL ∉ addrs as) (has : d ∉ payloads as)
    (fuel : ℕ) :
    findPosLoop h d (as.length + fuel) (first as q) = findPosLoop h d fuel q := by
  induction as generalizing p with
  | nil => simp
  | cons a as ih =>
      obtain ⟨hlook, hrest⟩ := hseg
      have hane : a.1 ≠ NULL := fun he => hnull (by simp [he])
      have hdne : a.2 ≠ d := fun he => has (by simp [he])
      have hstep : (a :: as).length + fuel = (as.length + fuel) + 1 := by
        simp only [List.length_cons]; omega
      rw [hstep, first_cons, findPosLoop]
      simp only [if_neg hane, load_eq hlook, ok_bind, if_neg hdne]
      exact ih hrest (fun hm => hnull (by simp [hm])) (fun hm => has (by simp [hm]))

section Search

variable {L : ListT} {h : Heap Ptr} {cs : List (Ptr × Ptr)}

/-- `list_findPos` gives NULL for data that no node holds. -/
theorem listFindPos_notMem (hc : Chain L h cs) {d : Ptr} (hd : d ∉ payloads cs) :
    listFindPos ⟨L, h⟩ d = .ok NULL := by
  by_cases hnull : d = NULL
  · simp [listFindPos, hnull]
  · have hle := hc.seg.length_le_card hc.nodup
    obtain ⟨k, hk⟩ : ∃ k, h.keys.card + 1 = cs.length + (k + 1) :=
      ⟨h.keys.card - cs.length, by omega⟩
    simp only [listFindPos, if_neg hnull, hc.head, hk]
    rw [findPosLoop_append hc.seg hc.notNull hd, findPosLoop]
    simp

/-- `list_findPos` gives the first node that holds the data. -/
theorem listFindPos_mem {as bs : List (Ptr × Ptr)} {p d : Ptr}
    (hc : Chain L h (as ++ (p, d) :: bs)) (hnull : d ≠ NULL)
    (hd : d ∉ payloads as) : listFindPos ⟨L, h⟩ d = .ok p := by
  have hle := hc.seg.length_le_card hc.nodup
  obtain ⟨k, hk⟩ : ∃ k, h.keys.card + 1 = as.length + (k + 1) :=
    ⟨h.keys.card - as.length, by
      simp only [List.length_append, List.length_cons] at hle; omega⟩
  obtain ⟨hseg, hlook, -⟩ := seg_append.mp hc.seg
  have hpn : p ≠ NULL := fun he => hc.notNull (by simp [he])
  simp only [listFindPos, if_neg hnull, hc.head, hk, first_append]
  rw [findPosLoop_append hseg (fun hm => hc.notNull (by simp [hm])) hd,
    first_cons, findPosLoop]
  simp [hpn, load_eq hlook]

/-- `list_findPos(NULL)` gives NULL, whatever the list holds. -/
theorem listFindPos_null : listFindPos ⟨L, h⟩ NULL = .ok NULL := by
  simp [listFindPos]

/-- The two ways a search fails: it is for NULL, or no node holds the data. -/
theorem listFindPos_none (hc : Chain L h cs) {d : Ptr}
    (hd : d = NULL ∨ d ∉ payloads cs) : listFindPos ⟨L, h⟩ d = .ok NULL := by
  rcases hd with rfl | hd
  · exact listFindPos_null
  · exact listFindPos_notMem hc hd

/-- `list_hasMember` decides membership, except that NULL is never a member. -/
theorem listHasMember_eq (hc : Chain L h cs) (d : Ptr) :
    listHasMember ⟨L, h⟩ d = .ok (decide (d ≠ NULL ∧ d ∈ payloads cs)) := by
  by_cases hnull : d = NULL
  · simp [listHasMember, hnull, listFindPos_null]
  by_cases hd : d ∈ payloads cs
  · obtain ⟨as, p, bs, rfl, has⟩ := split_at_payload hd
    have hpn : p ≠ NULL := fun he => hc.notNull (by simp [he])
    simp [listHasMember, listFindPos_mem hc hnull has, hnull, hpn]
  · simp [listHasMember, listFindPos_notMem hc hd, hd]

end Search

/-! ### The calls on chains -/

/-- Put `c` behind the first node that holds `r`; a chain in which none does stays as it is. -/
def insertAfter (r : Ptr) (c : Ptr × Ptr) : List (Ptr × Ptr) → List (Ptr × Ptr)
  | [] => []
  | x :: xs => if x.2 = r then x :: c :: xs else x :: insertAfter r c xs

/-- What `list_insert` does to a chain, and the status it returns.  The tests are made in the order
of the source: the data, `malloc`, and then the reference. -/
def chainInsert (mem d r : Ptr) (cs : List (Ptr × Ptr)) : ListError × List (Ptr × Ptr) :=
  if d ≠ NULL ∧ d ∈ payloads cs then (.elementAlreadyInList, cs)
  else if mem = NULL then (.insufficientMemory, cs)
  else if cs = [] then (.ok, [(mem, d)])
  else if r = NULL ∨ r ∉ payloads cs then (.elementNotInList, cs)
  else (.ok, insertAfter r (mem, d) cs)

/-- What `list_append` does to a chain: it inserts behind the data of the tail. -/
def chainAppend (mem d : Ptr) (cs : List (Ptr × Ptr)) : ListError × List (Ptr × Ptr) :=
  chainInsert mem d ((payloads cs).getLast?.getD NULL) cs

/-- What `list_remove` does to a chain: it drops the first node with the data. -/
def chainRemove (d : Ptr) (cs : List (Ptr × Ptr)) : ListError × List (Ptr × Ptr) :=
  if d = NULL ∨ d ∉ payloads cs then (.elementNotInList, cs)
  else (.ok, cs.eraseP fun c => c.2 = d)

theorem insertAfter_append {r p : Ptr} {as bs : List (Ptr × Ptr)} (c : Ptr × Ptr)
    (has : r ∉ payloads as) :
    insertAfter r c (as ++ (p, r) :: bs) = as ++ (p, r) :: c :: bs := by
  induction as with
  | nil => simp [insertAfter]
  | cons a as ih =>
      have hane : a.2 ≠ r := fun he => has (by simp [he])
      rw [List.cons_append, insertAfter, if_neg hane, ih fun hm => has (by simp [hm])]
      rfl

theorem eraseP_append {d p : Ptr} {as bs : List (Ptr × Ptr)} (has : d ∉ payloads as) :
    (as ++ (p, d) :: bs).eraseP (fun c => c.2 = d) = as ++ bs := by
  induction as with
  | nil => simp
  | cons a as ih =>
      have hane : a.2 ≠ d := fun he => has (by simp [he])
      rw [List.cons_append, List.eraseP_cons_of_neg (by simp [hane]),
        ih fun hm => has (by simp [hm])]
      rfl

/-! The five outcomes of `chainInsert`, in the order of the source. -/

section ChainInsert

variable {mem d r p : Ptr} {cs as bs : List (Ptr × Ptr)}

theorem chainInsert_member (hd : d ≠ NULL ∧ d ∈ payloads cs) :
    chainInsert mem d r cs = (.elementAlreadyInList, cs) := if_pos hd

theorem chainInsert_noMemory (hd : ¬ (d ≠ NULL ∧ d ∈ payloads cs)) :
    chainInsert NULL d r cs = (.insufficientMemory, cs) := by
  rw [chainInsert, if_neg hd, if_pos rfl]

theorem chainInsert_empty (hmem : mem ≠ NULL) :
    chainInsert mem d r [] = (.ok, [(mem, d)]) := by
  simp [chainInsert, hmem]

theorem chainInsert_noRef (hd : ¬ (d ≠ NULL ∧ d ∈ payloads cs)) (hmem : mem ≠ NULL)
    (hne : cs ≠ []) (hr : r = NULL ∨ r ∉ payloads cs) :
    chainInsert mem d r cs = (.elementNotInList, cs) := by
  rw [chainInsert, if_neg hd, if_neg hmem, if_neg hne, if_pos hr]

theorem chainInsert_after (hd : ¬ (d ≠ NULL ∧ d ∈ payloads (as ++ (p, r) :: bs)))
    (hmem : mem ≠ NULL) (hr : r ≠ NULL) (has : r ∉ payloads as) :
    chainInsert mem d r (as ++ (p, r) :: bs) = (.ok, as ++ (p, r) :: (mem, d) :: bs) := by
  rw [chainInsert, if_neg hd, if_neg hmem, if_neg (by simp), if_neg (by simp [hr]),
    insertAfter_append _ has]

end ChainInsert

theorem chainRemove_notMem {d : Ptr} {cs : List (Ptr × Ptr)}
    (hd : d = NULL ∨ d ∉ payloads cs) :
    chainRemove d cs = (.elementNotInList, cs) := if_pos hd

theorem chainRemove_mem {d p : Ptr} {as bs : List (Ptr × Ptr)} (hd : d ≠ NULL)
    (has : d ∉ payloads as) :
    chainRemove d (as ++ (p, d) :: bs) = (.ok, as ++ bs) := by
  rw [chainRemove, if_neg (by simp [hd]), eraseP_append has]

/-! ### Insertion -/

theorem store_insert_self (h : Heap Ptr) (p : Ptr) (c : Node) (f : Node → Node) :
    store (h.insert p c) p f = .ok (h.insert p (f c)) := by
  rw [store_eq f (Finmap.mem_insert.mpr (Or.inl rfl)), modify_insert_self]

theorem incr_eq {n : ℤ} (hn : n + 1 < INT_MAX) : incr n = .ok (n + 1) := by
  rw [incr, if_pos (by omega)]

section Insert

variable {F : Heap Ptr} {L : ListT} {h : Heap Ptr} {cs as bs : List (Ptr × Ptr)}
variable {mem d r p : Ptr}

/-- A node that `malloc` has returned was not allocated, so it is on no chain. -/
theorem Chain.notMem_of_fresh (hc : Chain L h cs) (hmem : mem ∉ h) : mem ∉ addrs cs :=
  fun hm => hmem (hc.seg.mem hm)

/-- A chain survives the allocation of another node. -/
theorem Chain.insert_fresh (hc : Chain L h cs) (hmem : mem ∉ h) (c : Node) :
    Chain L (h.insert mem c) cs where
  seg := seg_insert_of_notMem c (hc.notMem_of_fresh hmem) hc.seg
  nodup := hc.nodup
  notNull := hc.notNull
  head := hc.head
  tail := hc.tail
  size := hc.size

theorem listInsert_member (hc : Chain L h cs) (hd : d ≠ NULL ∧ d ∈ payloads cs) :
    listInsert mem d r ⟨L, h⟩ = .ok (.elementAlreadyInList, ⟨L, h⟩) := by
  simp [listInsert, listHasMember_eq hc, hd]

theorem listInsert_noMemory (hc : Chain L h cs) (hd : ¬ (d ≠ NULL ∧ d ∈ payloads cs)) :
    listInsert NULL d r ⟨L, h⟩ = .ok (.insufficientMemory, ⟨L, h⟩) := by
  simp [listInsert, listHasMember_eq hc, hd]

/-- `list_insert` up to the test of `size`: the new node is there, and is filled in but for its
links. -/
theorem listInsert_alloc (hc : Chain L h cs) (hd : ¬ (d ≠ NULL ∧ d ∈ payloads cs))
    (hmem : mem ≠ NULL) :
    listInsert mem d r ⟨L, h⟩ = (do
      let h' := h.insert mem ⟨d, NULL, NULL⟩
      if L.size = 0 then
        return (.ok, ⟨⟨1, mem, mem⟩, h'⟩)
      let pos ← listFindPos ⟨L, h'⟩ r
      if pos = NULL then
        let h ← free h' mem
        return (.elementNotInList, ⟨L, h⟩)
      if pos = L.tail then
        let h ← store h' pos fun c => { c with next := mem }
        let h ← store h mem fun c => { c with prev := pos }
        let size ← incr L.size
        return (.ok, ⟨⟨size, L.head, mem⟩, h⟩)
      else
        let posNext := (← load h' pos).next
        let h ← store h' mem fun c => { c with next := posNext }
        let h ← store h mem fun c => { c with prev := pos }
        let h ← store h (← load h pos).next fun c => { c with prev := mem }
        let h ← store h pos fun c => { c with next := mem }
        let size ← incr L.size
        return (.ok, ⟨⟨size, L.head, L.tail⟩, h⟩)) := by
  simp only [listInsert, listHasMember_eq hc, ok_bind, hd, decide_false,
    Bool.false_eq_true, if_false, if_neg hmem, malloc, store_insert_self]

theorem listInsert_empty (hc : Chain L h []) (hmem : mem ≠ NULL) :
    listInsert mem d r ⟨L, h⟩ =
      .ok (.ok, ⟨⟨1, mem, mem⟩, h.insert mem ⟨d, NULL, NULL⟩⟩) := by
  rw [listInsert_alloc hc (by simp) hmem]
  simp [hc.size]

theorem listInsert_noRef (hc : Chain L h cs) (hd : ¬ (d ≠ NULL ∧ d ∈ payloads cs))
    (hmem : mem ≠ NULL) (hfresh : mem ∉ h) (hne : cs ≠ [])
    (hr : r = NULL ∨ r ∉ payloads cs) :
    listInsert mem d r ⟨L, h⟩ = .ok (.elementNotInList, ⟨L, h⟩) := by
  have hfind : listFindPos ⟨L, h.insert mem ⟨d, NULL, NULL⟩⟩ r = .ok NULL :=
    listFindPos_none (hc.insert_fresh hfresh _) hr
  have hfree : free (h.insert mem ⟨d, NULL, NULL⟩) mem = .ok h := by
    rw [free_eq hmem (Finmap.mem_insert.mpr (Or.inl rfl)),
      erase_insert_of_notMem _ hfresh]
  have hsize : ¬ L.size = 0 := fun h0 => hne (hc.size_eq_zero.mp h0)
  rw [listInsert_alloc hc hd hmem]
  simp [hsize, hfind, hfree]

/-- The addresses around one node of a chain, as facts about that node. -/
theorem Chain.around (hc : Chain L h (as ++ (p, r) :: bs)) :
    p ≠ NULL ∧ p ∉ addrs as ∧ p ∉ addrs bs ∧ (∀ a ∈ addrs as, a ∉ addrs bs) ∧
      h.lookup p = some ⟨r, first bs NULL, last NULL as⟩ ∧
      Seg h NULL as p ∧ Seg h p bs NULL := by
  have hnd := hc.nodup
  rw [addrs_append, addrs_cons, List.nodup_append] at hnd
  obtain ⟨-, hpb, hdis⟩ := hnd
  obtain ⟨hseg, hlook, hrest⟩ := seg_append.mp hc.seg
  refine ⟨fun he => hc.notNull (by simp [he]), ?_, (List.nodup_cons.mp hpb).1, ?_,
    hlook, hseg, hrest⟩
  · exact fun hm => hdis p hm p (by simp) rfl
  · exact fun a ha hb => hdis a ha a (by simp [hb]) rfl

/-- `list_insert` behind the tail: the new node becomes the tail, and nothing behind it has to be
linked. -/
theorem listInsert_tail (hc : Chain L h (as ++ [(p, r)]))
    (hd : ¬ (d ≠ NULL ∧ d ∈ payloads (as ++ [(p, r)]))) (hmem : mem ≠ NULL)
    (hfresh : mem ∉ h) (hsize : L.size + 1 < INT_MAX) (hr : r ≠ NULL)
    (has : r ∉ payloads as) :
    listInsert mem d r ⟨L, h⟩ =
      .ok (.ok, ⟨⟨L.size + 1, L.head, mem⟩,
        Heap.modify (h.insert mem ⟨d, NULL, p⟩) p fun c => { c with next := mem }⟩) := by
  obtain ⟨hpn, -, -, -, hlook, -, -⟩ := hc.around
  have hph : p ∈ h := Finmap.mem_iff.mpr ⟨_, hlook⟩
  have hpm : mem ≠ p := fun he => hfresh (he ▸ hph)
  have hfind : listFindPos ⟨L, h.insert mem ⟨d, NULL, NULL⟩⟩ r = .ok p :=
    listFindPos_mem (hc.insert_fresh hfresh _) hr has
  have htail : p = L.tail := hc.tail_append.1.symm
  have hs0 : ¬ L.size = 0 := fun h0 => by simp [hc.size_eq_zero] at h0
  have hst : store (h.insert mem ⟨d, NULL, NULL⟩) p (fun c => { c with next := mem })
      = .ok (Heap.modify (h.insert mem ⟨d, NULL, NULL⟩) p fun c => { c with next := mem }) :=
    store_eq _ (Finmap.mem_insert.mpr (Or.inr hph))
  have hst' : store (Heap.modify (h.insert mem ⟨d, NULL, NULL⟩) p
        fun c => { c with next := mem }) mem (fun c => { c with prev := p })
      = .ok (Heap.modify (h.insert mem ⟨d, NULL, p⟩) p fun c => { c with next := mem }) := by
    rw [store_eq _ (by simp), modify_comm _ _ hpm, modify_insert_self]
  rw [listInsert_alloc hc hd hmem]
  simp only [if_neg hs0, hfind, ok_bind, if_neg hpn, if_pos htail, hst, hst',
    incr_eq hsize, pure_eq_ok]

/-- `list_insert` behind a node that is not the tail: the new node is linked with the one behind it,
too. -/
theorem listInsert_middle {q e : Ptr} (hc : Chain L h (as ++ (p, r) :: (q, e) :: bs))
    (hd : ¬ (d ≠ NULL ∧ d ∈ payloads (as ++ (p, r) :: (q, e) :: bs))) (hmem : mem ≠ NULL)
    (hfresh : mem ∉ h) (hsize : L.size + 1 < INT_MAX) (hr : r ≠ NULL)
    (has : r ∉ payloads as) :
    listInsert mem d r ⟨L, h⟩ =
      .ok (.ok, ⟨⟨L.size + 1, L.head, L.tail⟩,
        Heap.modify (Heap.modify (h.insert mem ⟨d, q, p⟩) q
          fun c => { c with prev := mem }) p fun c => { c with next := mem }⟩) := by
  obtain ⟨hpn, -, hpb, -, hlook, -, hrest⟩ := hc.around
  have hph : p ∈ h := Finmap.mem_iff.mpr ⟨_, hlook⟩
  have hqh : q ∈ h := Finmap.mem_iff.mpr ⟨_, hrest.1⟩
  have hpm : p ≠ mem := fun he => hfresh (he ▸ hph)
  have hfind : listFindPos ⟨L, h.insert mem ⟨d, NULL, NULL⟩⟩ r = .ok p :=
    listFindPos_mem (hc.insert_fresh hfresh _) hr has
  have htail : ¬ p = L.tail := by
    intro he
    have hlast : last q bs ∈ addrs ((q, e) :: bs) :=
      last_mem_addrs NULL (List.cons_ne_nil (q, e) bs)
    rw [hc.tail, last_append] at he
    exact hpb (he ▸ hlast)
  have hs0 : ¬ L.size = 0 := fun h0 => by simp [hc.size_eq_zero] at h0
  -- both reads of `pos->next` see the old successor: only the new node is written before
  have hload : ∀ c : Node, load (h.insert mem c) p = .ok ⟨r, q, last NULL as⟩ := fun c =>
    load_eq ((Finmap.lookup_insert_of_ne _ hpm).trans hlook)
  have hst : store (h.insert mem ⟨d, q, p⟩) q (fun c => { c with prev := mem })
      = .ok (Heap.modify (h.insert mem ⟨d, q, p⟩) q fun c => { c with prev := mem }) :=
    store_eq _ (Finmap.mem_insert.mpr (Or.inr hqh))
  have hst' : store (Heap.modify (h.insert mem ⟨d, q, p⟩) q fun c => { c with prev := mem })
      p (fun c => { c with next := mem })
      = .ok (Heap.modify (Heap.modify (h.insert mem ⟨d, q, p⟩) q
          fun c => { c with prev := mem }) p fun c => { c with next := mem }) :=
    store_eq _ (by simp [hph])
  rw [listInsert_alloc hc hd hmem]
  simp only [if_neg hs0, hfind, ok_bind, if_neg hpn, if_neg htail, hload,
    store_insert_self, hst, hst', incr_eq hsize, pure_eq_ok]

/-- A node that `malloc` returned belongs neither to the chain nor to the frame. -/
theorem Rep.fresh_notMem (hrep : Rep F ⟨L, h⟩ cs) (hfresh : mem ∉ h) :
    mem ∉ addrs cs ∧ mem ∉ F := by
  have hmc : mem ∉ addrs cs := hrep.toChain.notMem_of_fresh hfresh
  refine ⟨hmc, ?_⟩
  rw [← Finmap.lookup_eq_none, ← hrep.frame mem hmc, Finmap.lookup_eq_none]
  exact hfresh

/-- **A chain grows by one node.**  What the three insertions have in common: the
new node is the only one the frame loses sight of. -/
theorem Rep.grow {L' : ListT} {h' : Heap Ptr} (hrep : Rep F ⟨L, h⟩ (as ++ bs))
    (hmem : mem ≠ NULL) (hfresh : mem ∉ h)
    (hseg : Seg h' NULL (as ++ (mem, d) :: bs) NULL)
    (hsame : ∀ a, a ∉ addrs (as ++ (mem, d) :: bs) → h'.lookup a = h.lookup a)
    (hhead : L'.head = first (as ++ (mem, d) :: bs) NULL)
    (htail : L'.tail = last NULL (as ++ (mem, d) :: bs)) (hsize : L'.size = L.size + 1) :
    Rep F ⟨L', h'⟩ (as ++ (mem, d) :: bs) := by
  obtain ⟨hmc, hmF⟩ := hrep.fresh_notMem hfresh
  have hperm : (addrs (as ++ (mem, d) :: bs)).Perm (mem :: addrs (as ++ bs)) := by
    simp only [addrs_append, addrs_cons]
    exact List.perm_middle
  refine { seg := hseg, nodup := ?_, notNull := ?_, head := hhead, tail := htail,
           size := ?_, frame := ?_, fresh := ?_ }
  · exact hperm.nodup_iff.mpr (List.nodup_cons.mpr ⟨hmc, hrep.nodup⟩)
  · rw [hperm.mem_iff, List.mem_cons, not_or]
    exact ⟨Ne.symm hmem, hrep.notNull⟩
  · have hs : L.size = ((as ++ bs).length : ℤ) := hrep.size
    simp only [List.length_append, List.length_cons] at hs ⊢
    omega
  · intro a ha
    rw [hsame a ha]
    exact hrep.frame a fun hm => ha (hperm.mem_iff.mpr (List.mem_cons_of_mem _ hm))
  · intro a ha
    rcases List.mem_cons.mp (hperm.mem_iff.mp ha) with rfl | ha
    · exact hmF
    · exact hrep.fresh a ha

theorem rep_insert_empty (hrep : Rep F ⟨L, h⟩ []) (hmem : mem ≠ NULL) (hfresh : mem ∉ h) :
    Rep F ⟨⟨1, mem, mem⟩, h.insert mem ⟨d, NULL, NULL⟩⟩ [(mem, d)] := by
  refine Rep.grow (show Rep F ⟨L, h⟩ ([] ++ []) from hrep) hmem hfresh ?_ ?_ rfl rfl ?_
  · exact ⟨Finmap.lookup_insert _, trivial⟩
  · intro a ha
    have hne : a ≠ mem := by simpa using ha
    exact Finmap.lookup_insert_of_ne _ hne
  · have hs : L.size = 0 := hrep.size
    simp [hs]

theorem rep_insert_tail (hrep : Rep F ⟨L, h⟩ (as ++ [(p, r)])) (hmem : mem ≠ NULL)
    (hfresh : mem ∉ h) :
    Rep F ⟨⟨L.size + 1, L.head, mem⟩,
        Heap.modify (h.insert mem ⟨d, NULL, p⟩) p fun c => { c with next := mem }⟩
      (as ++ [(p, r), (mem, d)]) := by
  have hmc := (hrep.fresh_notMem hfresh).1
  obtain ⟨-, hpa, -⟩ := hrep.toChain.around
  have hmp : mem ≠ p := fun he => hmc (by simp [he])
  have happ : as ++ [(p, r), (mem, d)] = (as ++ [(p, r)]) ++ (mem, d) :: [] := by simp
  rw [happ]
  refine Rep.grow (by simpa using hrep) hmem hfresh ?_ ?_ ?_ ?_ rfl
  · refine seg_append.mpr ⟨?_, ?_, trivial⟩
    · exact seg_modify_last mem hpa (seg_insert_of_notMem _ hmc hrep.seg)
    · rw [lookup_modify_of_ne _ hmp, Finmap.lookup_insert, last_append]
      rfl
  · intro a ha
    have ham : a ≠ mem := fun he => ha (by simp [he])
    have hap : a ≠ p := fun he => ha (by simp [he])
    rw [lookup_modify_of_ne _ hap, Finmap.lookup_insert_of_ne _ ham]
  · rw [show L.head = first (as ++ [(p, r)]) NULL from hrep.head, first_append,
      first_append, first_append]
    rfl
  · rw [last_append]
    rfl

theorem rep_insert_middle {q e : Ptr} (hrep : Rep F ⟨L, h⟩ (as ++ (p, r) :: (q, e) :: bs))
    (hmem : mem ≠ NULL) (hfresh : mem ∉ h) :
    Rep F ⟨⟨L.size + 1, L.head, L.tail⟩,
        Heap.modify (Heap.modify (h.insert mem ⟨d, q, p⟩) q
          fun c => { c with prev := mem }) p fun c => { c with next := mem }⟩
      (as ++ (p, r) :: (mem, d) :: (q, e) :: bs) := by
  have hmc := (hrep.fresh_notMem hfresh).1
  obtain ⟨-, hpa, hpb, hab, hlook, hseg, hrest⟩ := hrep.toChain.around
  simp only [addrs_append, addrs_cons, List.mem_append, List.mem_cons, not_or] at hmc hpb
  obtain ⟨hma, hmp, hmq, hmb⟩ := hmc
  have hqa : q ∉ addrs as := fun hm => hab q hm (by simp)
  have hqb : q ∉ addrs bs := by
    have hnd := hrep.nodup
    simp only [addrs_append, addrs_cons, List.nodup_append, List.nodup_cons] at hnd
    exact hnd.2.1.2.1
  have happ : as ++ (p, r) :: (mem, d) :: (q, e) :: bs
      = (as ++ [(p, r)]) ++ (mem, d) :: (q, e) :: bs := by simp
  rw [happ]
  refine Rep.grow (by simpa using hrep) hmem hfresh ?_ ?_ ?_ ?_ rfl
  · -- the nodes before `pos`, `pos`, the new node, the nodes behind it
    refine seg_append.mpr ⟨seg_append.mpr ⟨?_, ?_, trivial⟩, ?_, ?_⟩
    · exact seg_modify_of_notMem _ hpa (seg_modify_of_notMem _ hqa
        (seg_insert_of_notMem _ hma hseg))
    · rw [lookup_modify_self, lookup_modify_of_ne _ hpb.1,
        Finmap.lookup_insert_of_ne _ (Ne.symm hmp), hlook]
      rfl
    · rw [lookup_modify_of_ne _ hmp, lookup_modify_of_ne _ hmq, Finmap.lookup_insert,
        last_append]
      rfl
    · apply seg_modify_of_notMem _ (by simpa using hpb)
      exact seg_modify_first mem hqb (seg_insert_of_notMem _ (by simp [hmq, hmb]) hrest)
  · intro a ha
    simp only [addrs_append, addrs_cons, List.mem_append, List.mem_cons, not_or] at ha
    rw [lookup_modify_of_ne _ ha.1.2.1, lookup_modify_of_ne _ ha.2.2.1,
      Finmap.lookup_insert_of_ne _ ha.2.1]
  · rw [show L.head = first (as ++ (p, r) :: (q, e) :: bs) NULL from hrep.head,
      first_append, first_append, first_append]
    rfl
  · rw [show L.tail = last NULL (as ++ (p, r) :: (q, e) :: bs) from hrep.tail,
      last_append, last_append]
    rfl

/-- **`list_insert` does to the chain what `chainInsert` says**, and a refused
call leaves the list structure and every node as they were. -/
theorem listInsert_spec {s : State} (hrep : Rep F s cs) (hlegal : MallocOk mem s) :
    ∃ s', listInsert mem d r s = .ok ((chainInsert mem d r cs).1, s') ∧
      Rep F s' (chainInsert mem d r cs).2 ∧
      ((chainInsert mem d r cs).1 ≠ .ok → s' = s) := by
  obtain ⟨L, h⟩ := s
  have hc : Chain L h cs := hrep.toChain
  by_cases hd : d ≠ NULL ∧ d ∈ payloads cs
  · rw [chainInsert_member hd]
    exact ⟨⟨L, h⟩, listInsert_member hc hd, hrep, fun _ => rfl⟩
  by_cases hmem : mem = NULL
  · subst hmem
    rw [chainInsert_noMemory hd]
    exact ⟨⟨L, h⟩, listInsert_noMemory hc hd, hrep, fun _ => rfl⟩
  obtain ⟨hfresh, hsize⟩ := hlegal hmem
  by_cases hcs : cs = []
  · subst hcs
    rw [chainInsert_empty hmem]
    exact ⟨_, listInsert_empty hc hmem, rep_insert_empty hrep hmem hfresh, by simp⟩
  by_cases hr : r = NULL ∨ r ∉ payloads cs
  · rw [chainInsert_noRef hd hmem hcs hr]
    exact ⟨⟨L, h⟩, listInsert_noRef hc hd hmem hfresh hcs hr, hrep, fun _ => rfl⟩
  simp only [not_or, not_not] at hr
  obtain ⟨as, p, bs, rfl, has⟩ := split_at_payload hr.2
  rw [chainInsert_after hd hmem hr.1 has]
  -- `pos` is the tail exactly when nothing follows it
  cases bs with
  | nil =>
      exact ⟨_, listInsert_tail hc hd hmem hfresh hsize hr.1 has,
        rep_insert_tail hrep hmem hfresh, by simp⟩
  | cons b bs =>
      exact ⟨_, listInsert_middle hc hd hmem hfresh hsize hr.1 has,
        rep_insert_middle hrep hmem hfresh, by simp⟩

/-- `list_tail` gives the last data, NULL for the empty list. -/
theorem listTail_eq (hc : Chain L h cs) :
    listTail ⟨L, h⟩ = .ok ((payloads cs).getLast?.getD NULL) := by
  rcases List.eq_nil_or_concat cs with rfl | ⟨as, c, rfl⟩
  · simp [listTail, hc.tail_eq_null]
  · rw [List.concat_eq_append] at hc ⊢
    obtain ⟨htail, hlook⟩ := hc.tail_append
    have hne : ¬ c.1 = NULL := fun he => hc.notNull (by simp [he])
    simp only [listTail, htail, if_neg hne, load_eq hlook, ok_bind]
    simp

/-- `list_head` gives the first data, NULL for the empty list. -/
theorem listHead_eq (hc : Chain L h cs) :
    listHead ⟨L, h⟩ = .ok ((payloads cs).head?.getD NULL) := by
  cases cs with
  | nil => simp [listHead, hc.head_eq_null]
  | cons c cs =>
      have hhead : L.head = c.1 := hc.head
      have hne : ¬ c.1 = NULL := fun he => hc.notNull (by simp [he])
      simp only [listHead, hhead, if_neg hne, load_eq hc.seg.1, ok_bind]
      simp

/-- **`list_append` does to the chain what `chainAppend` says.** -/
theorem listAppend_spec {s : State} (hrep : Rep F s cs) (hlegal : MallocOk mem s) :
    ∃ s', listAppend mem d s = .ok ((chainAppend mem d cs).1, s') ∧
      Rep F s' (chainAppend mem d cs).2 ∧
      ((chainAppend mem d cs).1 ≠ .ok → s' = s) := by
  have hcall : listAppend mem d s
      = listInsert mem d ((payloads cs).getLast?.getD NULL) s := by
    by_cases htail : s.list.tail = NULL
    · have hcs : cs = [] := hrep.toChain.tail_eq_null.mp htail
      simp [listAppend, htail, hcs]
    · simp [listAppend, htail, listTail_eq hrep.toChain]
  rw [hcall]
  exact listInsert_spec hrep hlegal

end Insert

/-! ### Removal -/

theorem decr_eq {n : ℤ} (hn : 0 < n) : decr n = .ok (n - 1) := by
  rw [decr, if_pos (by simp only [INT_MAX]; omega)]

section Remove

variable {F : Heap Ptr} {L : ListT} {h : Heap Ptr} {cs as bs : List (Ptr × Ptr)}
variable {d p : Ptr}

/-- **A chain shrinks by one node**, which is freed.  What the four removals have
in common. -/
theorem Rep.shrink {L' : ListT} {h' : Heap Ptr} (hrep : Rep F ⟨L, h⟩ (as ++ (p, d) :: bs))
    (hseg : Seg h' NULL (as ++ bs) NULL) (hgone : p ∉ h')
    (hsame : ∀ a, a ∉ addrs (as ++ (p, d) :: bs) → h'.lookup a = h.lookup a)
    (hhead : L'.head = first (as ++ bs) NULL) (htail : L'.tail = last NULL (as ++ bs))
    (hsize : L'.size = L.size - 1) : Rep F ⟨L', h'⟩ (as ++ bs) := by
  have hperm : (addrs (as ++ (p, d) :: bs)).Perm (p :: addrs (as ++ bs)) := by
    simp only [addrs_append, addrs_cons]
    exact List.perm_middle
  have hmem : ∀ a ∈ addrs (as ++ bs), a ∈ addrs (as ++ (p, d) :: bs) := fun a ha =>
    hperm.mem_iff.mpr (List.mem_cons_of_mem _ ha)
  refine { seg := hseg, nodup := ?_, notNull := fun hn => hrep.notNull (hmem _ hn),
           head := hhead, tail := htail, size := ?_, frame := ?_,
           fresh := fun a ha => hrep.fresh a (hmem a ha) }
  · exact (List.nodup_cons.mp (hperm.nodup_iff.mp hrep.nodup)).2
  · have hs : L.size = ((as ++ (p, d) :: bs).length : ℤ) := hrep.size
    simp only [List.length_append, List.length_cons] at hs ⊢
    omega
  · intro a ha
    by_cases hap : a = p
    · subst hap
      have haF : a ∉ F := hrep.fresh a (by simp)
      rw [Finmap.lookup_eq_none.mpr hgone, Finmap.lookup_eq_none.mpr haF]
    · have ha' : a ∉ addrs (as ++ (p, d) :: bs) := by
        rw [hperm.mem_iff, List.mem_cons, not_or]
        exact ⟨hap, ha⟩
      rw [hsame a ha']
      exact hrep.frame a ha'

theorem listRemove_notMem (hc : Chain L h cs) (hd : d = NULL ∨ d ∉ payloads cs) :
    listRemove d ⟨L, h⟩ = .ok (.elementNotInList, ⟨L, h⟩) := by
  simp [listRemove, listFindPos_none hc hd]

/-- `list_remove` of the only node of the list, which leaves neither head nor tail. -/
theorem listRemove_single (hrep : Rep F ⟨L, h⟩ [(p, d)]) (hd : d ≠ NULL) :
    ∃ s', listRemove d ⟨L, h⟩ = .ok (.ok, s') ∧ Rep F s' [] := by
  have hc : Chain L h ([] ++ (p, d) :: []) := hrep.toChain
  obtain ⟨hpn, -, -, -, hlook, -, -⟩ := hc.around
  have hfind : listFindPos ⟨L, h⟩ d = .ok p := listFindPos_mem hc hd (by simp)
  have hends : p = L.head ∧ p = L.tail := ⟨hc.head.symm, hc.tail.symm⟩
  refine ⟨⟨⟨0, NULL, NULL⟩, h.erase p⟩, ?_, ?_⟩
  · simp only [listRemove, hfind, ok_bind, if_neg hpn, if_pos hends,
      free_eq hpn (Finmap.mem_iff.mpr ⟨_, hlook⟩), pure_eq_ok]
  · refine Rep.shrink (show Rep F ⟨L, h⟩ ([] ++ (p, d) :: []) from hrep) trivial
      Finmap.notMem_erase_self ?_ rfl rfl ?_
    · intro a ha
      exact Finmap.lookup_erase_ne (by simpa using ha)
    · have hs : L.size = 1 := hrep.size
      simp [hs]

/-- `list_remove` of the first of several nodes, which moves the head. -/
theorem listRemove_first {q e : Ptr} (hrep : Rep F ⟨L, h⟩ ((p, d) :: (q, e) :: bs))
    (hd : d ≠ NULL) :
    ∃ s', listRemove d ⟨L, h⟩ = .ok (.ok, s') ∧ Rep F s' ((q, e) :: bs) := by
  have hc : Chain L h ([] ++ (p, d) :: (q, e) :: bs) := hrep.toChain
  obtain ⟨hpn, -, hpb, -, hlook, -, hrest⟩ := hc.around
  have hph : p ∈ h := Finmap.mem_iff.mpr ⟨_, hlook⟩
  have hqh : q ∈ h := Finmap.mem_iff.mpr ⟨_, hrest.1⟩
  have hqb : q ∉ addrs bs := by
    have hnd := hrep.nodup
    simp only [addrs_cons, List.nodup_cons] at hnd
    exact hnd.2.1
  have hfind : listFindPos ⟨L, h⟩ d = .ok p := listFindPos_mem hc hd (by simp)
  have hhead : p = L.head := hc.head.symm
  have htail : ¬ p = L.tail := by
    intro he
    rw [hc.tail] at he
    exact hpb (he ▸ last_mem_addrs NULL (List.cons_ne_nil (q, e) bs))
  have hst : store h q (fun c => { c with prev := NULL })
      = .ok (h.modify q fun c => { c with prev := NULL }) := store_eq _ hqh
  have hfree : free (h.modify q fun c => { c with prev := NULL }) p
      = .ok ((h.modify q fun c => { c with prev := NULL }).erase p) :=
    free_eq hpn (by simp [hph])
  have hsize : L.size = ((bs.length + 1 : ℕ) : ℤ) + 1 := by
    rw [hc.size]
    simp
  refine ⟨⟨⟨L.size - 1, q, L.tail⟩,
    (h.modify q fun c => { c with prev := NULL }).erase p⟩, ?_, ?_⟩
  · simp only [listRemove, hfind, ok_bind, if_neg hpn, htail, and_false, if_false,
      if_pos hhead, load_eq hlook, first_cons, hst,
      decr_eq (show 0 < L.size by omega), hfree, pure_eq_ok]
  · refine Rep.shrink (show Rep F ⟨L, h⟩ ([] ++ (p, d) :: (q, e) :: bs) from hrep) ?_
      Finmap.notMem_erase_self ?_ rfl hc.tail rfl
    · exact seg_erase_of_notMem hpb (seg_modify_first NULL hqb hrest)
    · intro a ha
      simp only [List.nil_append, addrs_cons, List.mem_cons, not_or] at ha
      rw [Finmap.lookup_erase_ne ha.1, lookup_modify_of_ne _ ha.2.1]

/-- `list_remove` of the last of several nodes, which moves the tail. -/
theorem listRemove_last {l x : Ptr} (hrep : Rep F ⟨L, h⟩ (as ++ [(l, x), (p, d)]))
    (hd : d ≠ NULL) (has : d ∉ payloads (as ++ [(l, x)])) :
    ∃ s', listRemove d ⟨L, h⟩ = .ok (.ok, s') ∧ Rep F s' (as ++ [(l, x)]) := by
  have happ : as ++ [(l, x), (p, d)] = (as ++ [(l, x)]) ++ (p, d) :: [] := by simp
  rw [happ] at hrep
  have hc : Chain L h ((as ++ [(l, x)]) ++ (p, d) :: []) := hrep.toChain
  obtain ⟨hpn, hpa, -, -, hlook, hseg, -⟩ := hc.around
  have hlast : last NULL (as ++ [(l, x)]) = l := by rw [last_append]; rfl
  rw [hlast] at hlook
  have hph : p ∈ h := Finmap.mem_iff.mpr ⟨_, hlook⟩
  have hlh : l ∈ h := hseg.mem (by simp)
  have hla : l ∉ addrs as := by
    have hnd := hrep.nodup
    simp only [addrs_append, addrs_cons, addrs_nil, List.nodup_append] at hnd
    exact fun hm => hnd.1.2.2 l hm l (by simp) rfl
  have hfind : listFindPos ⟨L, h⟩ d = .ok p := listFindPos_mem hc hd has
  have htail : p = L.tail := hc.tail_append.1.symm
  have hhead : ¬ p = L.head := by
    intro he
    rw [hc.head] at he
    refine hpa (he ▸ ?_)
    cases as <;> simp
  have hst : store h l (fun c => { c with next := NULL })
      = .ok (h.modify l fun c => { c with next := NULL }) := store_eq _ hlh
  have hfree : free (h.modify l fun c => { c with next := NULL }) p
      = .ok ((h.modify l fun c => { c with next := NULL }).erase p) :=
    free_eq hpn (by simp [hph])
  have hsize : L.size = ((as.length + 1 : ℕ) : ℤ) + 1 := by
    rw [hc.size]
    simp only [List.length_append, List.length_cons, List.length_nil]
    omega
  refine ⟨⟨⟨L.size - 1, L.head, l⟩,
    (h.modify l fun c => { c with next := NULL }).erase p⟩, ?_, ?_⟩
  · simp only [listRemove, hfind, ok_bind, if_neg hpn, hhead, false_and, if_false,
      if_pos htail, load_eq hlook, hst, decr_eq (show 0 < L.size by omega), hfree,
      pure_eq_ok]
  · rw [← List.append_nil (as ++ [(l, x)])]
    refine Rep.shrink hrep ?_ Finmap.notMem_erase_self ?_ ?_ ?_ rfl
    · rw [List.append_nil]
      exact seg_erase_of_notMem hpa (seg_modify_last NULL hla hseg)
    · intro a ha
      simp only [addrs_append, addrs_cons, List.mem_append, List.mem_cons, not_or] at ha
      rw [Finmap.lookup_erase_ne ha.2.1, lookup_modify_of_ne _ ha.1.2.1]
    · rw [hc.head]
      cases as <;> simp
    · rw [List.append_nil, hlast]

/-- `list_remove` of a node with neighbours on both sides, which are linked with each other. -/
theorem listRemove_middle {l x q e : Ptr}
    (hrep : Rep F ⟨L, h⟩ ((as ++ [(l, x)]) ++ (p, d) :: (q, e) :: bs))
    (hd : d ≠ NULL) (has : d ∉ payloads (as ++ [(l, x)])) :
    ∃ s', listRemove d ⟨L, h⟩ = .ok (.ok, s') ∧
      Rep F s' ((as ++ [(l, x)]) ++ (q, e) :: bs) := by
  have hc : Chain L h ((as ++ [(l, x)]) ++ (p, d) :: (q, e) :: bs) := hrep.toChain
  obtain ⟨hpn, hpa, hpb, hab, hlook, hseg, hrest⟩ := hc.around
  have hlast : last NULL (as ++ [(l, x)]) = l := by rw [last_append]; rfl
  rw [hlast] at hlook
  have hph : p ∈ h := Finmap.mem_iff.mpr ⟨_, hlook⟩
  have hqh : q ∈ h := Finmap.mem_iff.mpr ⟨_, hrest.1⟩
  have hlh : l ∈ h := hseg.mem (by simp)
  have hnd := hrep.nodup
  simp only [addrs_append, addrs_cons, addrs_nil, List.nodup_append, List.nodup_cons] at hnd
  have hla : l ∉ addrs as := fun hm => hnd.1.2.2 l hm l (by simp) rfl
  have hqb : q ∉ addrs bs := hnd.2.1.2.1
  have hqp : p ≠ q := fun he => hpb (by simp [he])
  have hql : q ∉ addrs (as ++ [(l, x)]) := fun hm => hab q hm (by simp)
  have hlq : l ∉ addrs ((q, e) :: bs) := fun hm => hab l (by simp) hm
  have hfind : listFindPos ⟨L, h⟩ d = .ok p := listFindPos_mem hc hd has
  have hhead : ¬ p = L.head := by
    intro he
    rw [hc.head] at he
    refine hpa (he ▸ ?_)
    cases as <;> simp
  have htail : ¬ p = L.tail := by
    intro he
    rw [hc.tail, last_append] at he
    exact hpb (he ▸ last_mem_addrs NULL (List.cons_ne_nil (q, e) bs))
  have hst : store h q (fun c => { c with prev := l })
      = .ok (h.modify q fun c => { c with prev := l }) := store_eq _ hqh
  have hload : load (h.modify q fun c => { c with prev := l }) p = .ok ⟨d, q, l⟩ :=
    load_eq (by rw [lookup_modify_of_ne _ hqp, hlook]; rfl)
  have hst' : store (h.modify q fun c => { c with prev := l }) l
      (fun c => { c with next := q })
      = .ok (Heap.modify (h.modify q fun c => { c with prev := l }) l
          fun c => { c with next := q }) := store_eq _ (by simp [hlh])
  have hfree : free (Heap.modify (h.modify q fun c => { c with prev := l }) l
      fun c => { c with next := q }) p
      = .ok ((Heap.modify (h.modify q fun c => { c with prev := l }) l
          fun c => { c with next := q }).erase p) := free_eq hpn (by simp [hph])
  have hsize : L.size = ((as.length + bs.length + 2 : ℕ) : ℤ) + 1 := by
    rw [hc.size]
    simp only [List.length_append, List.length_cons, List.length_nil]
    omega
  refine ⟨⟨⟨L.size - 1, L.head, L.tail⟩,
    (Heap.modify (h.modify q fun c => { c with prev := l }) l
      fun c => { c with next := q }).erase p⟩, ?_, ?_⟩
  · simp only [listRemove, hfind, ok_bind, if_neg hpn, hhead, false_and, if_false,
      if_neg htail, load_eq hlook, first_cons, hst, hload, hst',
      decr_eq (show 0 < L.size by omega), hfree, pure_eq_ok]
  · refine Rep.shrink hrep (seg_append.mpr ⟨?_, ?_⟩) Finmap.notMem_erase_self ?_ ?_ ?_ rfl
    · exact seg_erase_of_notMem hpa (seg_modify_last q hla
        (seg_modify_of_notMem _ hql hseg))
    · rw [hlast]
      exact seg_erase_of_notMem hpb (seg_modify_of_notMem _ hlq
        (seg_modify_first l hqb hrest))
    · intro a ha
      simp only [addrs_append, addrs_cons, List.mem_append, List.mem_cons, not_or] at ha
      rw [Finmap.lookup_erase_ne ha.2.1, lookup_modify_of_ne _ ha.1.2.1,
        lookup_modify_of_ne _ ha.2.2.1]
    · rw [hc.head]
      cases as <;> simp
    · rw [hc.tail]
      simp only [last_append, last_cons, last_nil]

/-- **`list_remove` does to the chain what `chainRemove` says**, and a refused
call leaves the list structure and every node as they were. -/
theorem listRemove_spec {s : State} (hrep : Rep F s cs) :
    ∃ s', listRemove d s = .ok ((chainRemove d cs).1, s') ∧
      Rep F s' (chainRemove d cs).2 ∧ ((chainRemove d cs).1 ≠ .ok → s' = s) := by
  obtain ⟨L, h⟩ := s
  by_cases hd : d = NULL ∨ d ∉ payloads cs
  · rw [chainRemove_notMem hd]
    exact ⟨⟨L, h⟩, listRemove_notMem hrep.toChain hd, hrep, fun _ => rfl⟩
  simp only [not_or, not_not] at hd
  obtain ⟨hdn, hmem⟩ := hd
  obtain ⟨as, p, bs, rfl, has⟩ := split_at_payload hmem
  rw [chainRemove_mem hdn has]
  suffices hrun : ∃ s', listRemove d ⟨L, h⟩ = .ok (.ok, s') ∧ Rep F s' (as ++ bs) by
    obtain ⟨s', hs', hrep'⟩ := hrun
    exact ⟨s', hs', hrep', by simp⟩
  -- the four branches of the source: is there a node before, is there one behind
  rcases List.eq_nil_or_concat as with rfl | ⟨as, a, rfl⟩
  · cases bs with
    | nil => exact listRemove_single hrep hdn
    | cons b bs => exact listRemove_first hrep hdn
  · rw [List.concat_eq_append] at hrep has ⊢
    cases bs with
    | nil => simpa using listRemove_last (by simpa using hrep) hdn has
    | cons b bs => exact listRemove_middle hrep hdn has

end Remove

end LeipoCode.LinkedList
