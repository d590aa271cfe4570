import Mathlib.Data.Finmap
import Mathlib.Tactic.Common

/-!
# Doubly linked segments in a heap

A heap of cells with a payload and two links, and the predicate that a list of
`(address, payload)` pairs is laid out in it as a doubly linked segment.  Nothing
here names a program: the payload type is arbitrary, the heap is a finite map
from addresses to cells, and a program's node type instantiates `Cell`.

* `Seg h p cs q` — the pairs `cs` are a segment of `h`: each address holds its
  payload, its `next` is the following address (`q` after the last one) and its
  `prev` the preceding one (`p` before the first).
* `seg_append` — a segment splits at every point, and only there the two halves
  know of each other; every local update below is proved by splitting around it.
* `seg_congr` — the frame rule: a segment depends only on its own addresses.
* `seg_nextPath`, `seg_prevPath` — a segment is what following `next` forwards
  and `prev` backwards meets.

That the addresses of a segment differ, and that none of them is null, is not part of `Seg`, and is
a hypothesis of the lemmas that need it: a program keeps it as an invariant of its own, beside the
one that its cells are a segment.  Which error it is to read an address that is not allocated
belongs to the program too.  Whatever else lies in the heap is not spoken of; a program whose list
is one of several gets the others' segments from `seg_congr`.
-/

namespace LeipoCode.DList

universe u

/-- Addresses.  Only equality and the null address matter here: nothing is computed with them, and
no two cells overlap. -/
abbrev Ptr := ℕ

/-- The null address.  That no cell is allocated there is not built in, and is an invariant of
whoever needs it. -/
def NULL : Ptr := 0

/-- A heap cell with a payload and two links.  The links are addresses that may or may not be
allocated; the null address stands for none. -/
structure Cell (α : Type u) where
  data : α
  next : Ptr
  prev : Ptr
deriving DecidableEq, Repr

/-- The allocated cells, by address: finitely many, so that there always is an address left for a
new one. -/
abbrev Heap (α : Type u) := Finmap (fun _ : Ptr => Cell α)

variable {α : Type u}

/-! ### Updating one cell in place -/

/-- Apply `f` to the cell at `p`, if one is allocated there; otherwise nothing changes.  A program
that must not write there tests it before. -/
def Heap.modify (h : Heap α) (p : Ptr) (f : Cell α → Cell α) : Heap α :=
  match h.lookup p with
  | none => h
  | some c => h.insert p (f c)

@[simp] theorem lookup_modify_self (h : Heap α) (p : Ptr) (f : Cell α → Cell α) :
    (Heap.modify h p f).lookup p = (h.lookup p).map f := by
  cases hp : h.lookup p with
  | none => simp [Heap.modify, hp]
  | some c => simp [Heap.modify, hp]

theorem lookup_modify_of_ne {h : Heap α} {p q : Ptr} (f : Cell α → Cell α)
    (hne : q ≠ p) : (Heap.modify h p f).lookup q = h.lookup q := by
  cases hp : h.lookup p with
  | none => simp [Heap.modify, hp]
  | some c => simp [Heap.modify, hp, Finmap.lookup_insert_of_ne _ hne]

@[simp] theorem mem_modify (h : Heap α) (p q : Ptr) (f : Cell α → Cell α) :
    q ∈ Heap.modify h p f ↔ q ∈ h := by
  by_cases hqp : q = p
  · subst hqp
    rw [← Finmap.lookup_isSome, ← Finmap.lookup_isSome, lookup_modify_self,
      Option.isSome_map]
  · rw [← Finmap.lookup_isSome, ← Finmap.lookup_isSome, lookup_modify_of_ne f hqp]

/-- Updates of different cells commute, so they may be looked at in any order. -/
theorem modify_comm {h : Heap α} {p q : Ptr} (f g : Cell α → Cell α) (hne : q ≠ p) :
    Heap.modify (Heap.modify h p f) q g = Heap.modify (Heap.modify h q g) p f := by
  apply Finmap.ext_lookup
  intro x
  by_cases hxp : x = p
  · subst hxp
    simp [lookup_modify_of_ne _ (Ne.symm hne)]
  by_cases hxq : x = q
  · subst hxq
    simp [lookup_modify_of_ne _ hxp]
  · simp [lookup_modify_of_ne _ hxp, lookup_modify_of_ne _ hxq]

/-- Freeing a cell that was not allocated before restores the heap. -/
theorem erase_insert_of_notMem {h : Heap α} {p : Ptr} (c : Cell α) (hp : p ∉ h) :
    (h.insert p c).erase p = h := by
  apply Finmap.ext_lookup
  intro q
  by_cases hqp : q = p
  · subst hqp
    rw [Finmap.lookup_erase, Finmap.lookup_eq_none.mpr hp]
  · rw [Finmap.lookup_erase_ne hqp, Finmap.lookup_insert_of_ne _ hqp]

/-! ### Segments -/

/-- The first address of a segment, or `q` when it is empty: what the link that leads into the
segment has to be. -/
def first (cs : List (Ptr × α)) (q : Ptr) : Ptr :=
  match cs with
  | [] => q
  | c :: _ => c.1

/-- The last address of a segment, or `p` when it is empty: what the link that leads back into the
segment has to be. -/
def last (p : Ptr) : List (Ptr × α) → Ptr
  | [] => p
  | c :: cs => last c.1 cs

/-- The addresses of a segment, in order.  They are distinct in every list that a program keeps,
which is for the program to show. -/
def addrs (cs : List (Ptr × α)) : List Ptr := cs.map Prod.fst

/-- The payloads of a segment, in order, which may be equal: this is what the list stands for. -/
def payloads (cs : List (Ptr × α)) : List α := cs.map Prod.snd

/-- `Seg h p cs q`: the pairs `cs` are laid out in `h` as a doubly linked
segment that comes after the address `p` and before the address `q`. -/
def Seg (h : Heap α) : Ptr → List (Ptr × α) → Ptr → Prop
  | _, [], _ => True
  | p, c :: cs, q => h.lookup c.1 = some ⟨c.2, first cs q, p⟩ ∧ Seg h c.1 cs q

@[simp] theorem first_nil (q : Ptr) : first ([] : List (Ptr × α)) q = q := rfl

@[simp] theorem first_cons (c : Ptr × α) (cs : List (Ptr × α)) (q : Ptr) :
    first (c :: cs) q = c.1 := rfl

@[simp] theorem last_nil (p : Ptr) : last p ([] : List (Ptr × α)) = p := rfl

@[simp] theorem last_cons (p : Ptr) (c : Ptr × α) (cs : List (Ptr × α)) :
    last p (c :: cs) = last c.1 cs := rfl

@[simp] theorem addrs_nil : addrs ([] : List (Ptr × α)) = [] := rfl

@[simp] theorem addrs_cons (c : Ptr × α) (cs : List (Ptr × α)) :
    addrs (c :: cs) = c.1 :: addrs cs := rfl

@[simp] theorem addrs_append (as bs : List (Ptr × α)) :
    addrs (as ++ bs) = addrs as ++ addrs bs := by
  simp [addrs]

@[simp] theorem payloads_nil : payloads ([] : List (Ptr × α)) = [] := rfl

@[simp] theorem payloads_cons (c : Ptr × α) (cs : List (Ptr × α)) :
    payloads (c :: cs) = c.2 :: payloads cs := rfl

@[simp] theorem payloads_append (as bs : List (Ptr × α)) :
    payloads (as ++ bs) = payloads as ++ payloads bs := by
  simp [payloads]

@[simp] theorem length_payloads (cs : List (Ptr × α)) :
    (payloads cs).length = cs.length := by
  simp [payloads]

theorem first_append (as bs : List (Ptr × α)) (q : Ptr) :
    first (as ++ bs) q = first as (first bs q) := by
  cases as <;> rfl

theorem last_append (p : Ptr) (as bs : List (Ptr × α)) :
    last p (as ++ bs) = last (last p as) bs := by
  induction as generalizing p with
  | nil => rfl
  | cons a as ih => exact ih a.1

theorem last_mem_addrs (p : Ptr) {cs : List (Ptr × α)} (hne : cs ≠ []) :
    last p cs ∈ addrs cs := by
  induction cs generalizing p with
  | nil => exact absurd rfl hne
  | cons c cs ih =>
      cases cs with
      | nil => simp
      | cons c' cs => exact List.mem_cons_of_mem _ (ih c.1 (by simp))

@[simp] theorem seg_nil (h : Heap α) (p q : Ptr) : Seg h p [] q := trivial

theorem seg_cons {h : Heap α} {p q : Ptr} {c : Ptr × α} {cs : List (Ptr × α)} :
    Seg h p (c :: cs) q ↔
      h.lookup c.1 = some ⟨c.2, first cs q, p⟩ ∧ Seg h c.1 cs q := Iff.rfl

/-- **A segment splits at every point** into one up to the first cell of the second part and one
from there on. -/
theorem seg_append {h : Heap α} {p q : Ptr} {as bs : List (Ptr × α)} :
    Seg h p (as ++ bs) q ↔ Seg h p as (first bs q) ∧ Seg h (last p as) bs q := by
  induction as generalizing p with
  | nil => simp
  | cons a as ih =>
      rw [List.cons_append, seg_cons, seg_cons, ih, first_append, last_cons, and_assoc]

/-- **The frame rule**: a segment depends only on the cells at its addresses. -/
theorem seg_congr {h h' : Heap α} {p q : Ptr} {cs : List (Ptr × α)}
    (heq : ∀ a ∈ addrs cs, h'.lookup a = h.lookup a) (hseg : Seg h p cs q) :
    Seg h' p cs q := by
  induction cs generalizing p with
  | nil => trivial
  | cons c cs ih =>
      obtain ⟨hc, hcs⟩ := hseg
      exact ⟨(heq c.1 (by simp)).trans hc, ih (fun a ha => heq a (by simp [ha])) hcs⟩

/-- Every address of a segment is allocated, so a fresh address is none of them. -/
theorem Seg.mem {h : Heap α} {p q : Ptr} {cs : List (Ptr × α)} (hseg : Seg h p cs q)
    {a : Ptr} (ha : a ∈ addrs cs) : a ∈ h := by
  induction cs generalizing p with
  | nil => simp at ha
  | cons c cs ih =>
      obtain ⟨hc, hcs⟩ := hseg
      rcases List.mem_cons.mp ha with rfl | ha
      · exact Finmap.mem_iff.mpr ⟨_, hc⟩
      · exact ih hcs ha

/-- A segment without repeated addresses is no longer than the heap is large. -/
theorem Seg.length_le_card {h : Heap α} {p q : Ptr} {cs : List (Ptr × α)}
    (hseg : Seg h p cs q) (hnd : (addrs cs).Nodup) : cs.length ≤ h.keys.card := by
  calc cs.length = (addrs cs).toFinset.card := by
        rw [List.toFinset_card_of_nodup hnd, addrs, List.length_map]
    _ ≤ h.keys.card := Finset.card_le_card fun a ha =>
        Finmap.mem_keys.mpr (hseg.mem (List.mem_toFinset.mp ha))

/-! ### Updates around a segment

Each update of one link is one of the lemmas below: it leaves a segment alone
that it does not touch, it re-attaches a segment at its first cell, or it
re-attaches a segment at its last one. -/

theorem modify_insert_self (h : Heap α) (p : Ptr) (c : Cell α) (f : Cell α → Cell α) :
    Heap.modify (h.insert p c) p f = h.insert p (f c) := by
  simp [Heap.modify, Finmap.insert_insert]

theorem seg_modify_of_notMem {h : Heap α} {p q x : Ptr} {cs : List (Ptr × α)}
    (f : Cell α → Cell α) (hx : x ∉ addrs cs) (hseg : Seg h p cs q) :
    Seg (Heap.modify h x f) p cs q :=
  seg_congr (fun _ ha => lookup_modify_of_ne f (ne_of_mem_of_not_mem ha hx)) hseg

theorem seg_insert_of_notMem {h : Heap α} {p q x : Ptr} {cs : List (Ptr × α)}
    (c : Cell α) (hx : x ∉ addrs cs) (hseg : Seg h p cs q) :
    Seg (h.insert x c) p cs q :=
  seg_congr (fun _ ha => Finmap.lookup_insert_of_ne _ (ne_of_mem_of_not_mem ha hx)) hseg

theorem seg_erase_of_notMem {h : Heap α} {p q x : Ptr} {cs : List (Ptr × α)}
    (hx : x ∉ addrs cs) (hseg : Seg h p cs q) : Seg (h.erase x) p cs q :=
  seg_congr (fun _ ha => Finmap.lookup_erase_ne (ne_of_mem_of_not_mem ha hx)) hseg

/-- Writing the `prev` of the first cell puts the segment after another address. -/
theorem seg_modify_first {h : Heap α} {p q : Ptr} {c : Ptr × α} {cs : List (Ptr × α)}
    (p' : Ptr) (hc : c.1 ∉ addrs cs) (hseg : Seg h p (c :: cs) q) :
    Seg (Heap.modify h c.1 fun n => { n with prev := p' }) p' (c :: cs) q := by
  obtain ⟨hlook, hcs⟩ := hseg
  refine ⟨?_, seg_modify_of_notMem _ hc hcs⟩
  rw [lookup_modify_self, hlook]
  rfl

/-- Writing the `next` of the last cell puts the segment before another address. -/
theorem seg_modify_last {h : Heap α} {p q : Ptr} {c : Ptr × α} {cs : List (Ptr × α)}
    (q' : Ptr) (hc : c.1 ∉ addrs cs) (hseg : Seg h p (cs ++ [c]) q) :
    Seg (Heap.modify h c.1 fun n => { n with next := q' }) p (cs ++ [c]) q' := by
  obtain ⟨hcs, hlook, -⟩ := seg_append.mp hseg
  refine seg_append.mpr ⟨seg_modify_of_notMem _ hc hcs, ?_, trivial⟩
  rw [lookup_modify_self, hlook]
  rfl

/-! ### What following one link direction meets -/

/-- Following `next` from `p` meets the cells `cs` and arrives at `q`.  Each of them is allocated,
and `q` need not be. -/
inductive NextPath (h : Heap α) (q : Ptr) : Ptr → List (Ptr × α) → Prop
  | nil : NextPath h q q []
  | cons {p : Ptr} {c : Cell α} {cs : List (Ptr × α)} :
      h.lookup p = some c → NextPath h q c.next cs → NextPath h q p ((p, c.data) :: cs)

/-- Following `prev` from `p` meets the cells `cs` and arrives at `q`.  The first cell of `cs` is
the one that is met first, so the order is the reverse of that of the list. -/
inductive PrevPath (h : Heap α) (q : Ptr) : Ptr → List (Ptr × α) → Prop
  | nil : PrevPath h q q []
  | cons {p : Ptr} {c : Cell α} {cs : List (Ptr × α)} :
      h.lookup p = some c → PrevPath h q c.prev cs → PrevPath h q p ((p, c.data) :: cs)

/-- Following `next` up to an address that holds no cell meets one sequence only. -/
theorem NextPath.unique {h : Heap α} {p q : Ptr} {cs ds : List (Ptr × α)} (hq : q ∉ h)
    (hcs : NextPath h q p cs) (hds : NextPath h q p ds) : cs = ds := by
  induction hcs generalizing ds with
  | nil =>
      cases hds with
      | nil => rfl
      | cons hlook _ => exact absurd (Finmap.mem_iff.mpr ⟨_, hlook⟩) hq
  | cons hlook _ ih =>
      cases hds with
      | nil => exact absurd (Finmap.mem_iff.mpr ⟨_, hlook⟩) hq
      | cons hlook' hrest =>
          rw [hlook] at hlook'
          obtain rfl := Option.some.inj hlook'
          rw [ih hrest]

theorem seg_nextPath {h : Heap α} {p q : Ptr} {cs : List (Ptr × α)}
    (hseg : Seg h p cs q) : NextPath h q (first cs q) cs := by
  induction cs generalizing p with
  | nil => exact .nil
  | cons c cs ih =>
      obtain ⟨hc, hcs⟩ := hseg
      exact NextPath.cons hc (ih hcs)

theorem seg_prevPath {h : Heap α} {p q : Ptr} {cs : List (Ptr × α)}
    (hseg : Seg h p cs q) : PrevPath h p (last p cs) cs.reverse := by
  induction cs using List.reverseRecOn generalizing q with
  | nil => exact .nil
  | append_singleton cs c ih =>
      obtain ⟨hcs, hc, -⟩ := seg_append.mp hseg
      rw [List.reverse_append, last_append]
      exact PrevPath.cons hc (ih hcs)

end LeipoCode.DList
