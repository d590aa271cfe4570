import LeipoCode.LinkedList.Runs

/-!
# The list refines a duplicate-free sequence

What the list is for, stated without nodes: a sequence of distinct pointers under
insertion behind an element, appending, removal and clearing.  `SeqStep` is that
machine.  A call of the sequence machine is one that respects the contract of the
list, `Op.Contract`: what is inserted is not NULL.

`payload_simulation` is the forward simulation between the two; the refinement is
read off it for runs.

The sequence machine has the calls and the statuses of the list for its labels, so the simulation
says what each call returns and not only what the list is afterwards; a call that fails on the list
fails on the sequence in the same way.  What `malloc` returned is part of the call.  What is refined
is the list with its heap, so that the two chains, the cached ends and the cached size come out of
the representation invariant and are not stated again.

### How the simulation goes

A call does to the chain what `Op.chain` says, by the spec lemmas; what it does to the sequence is
the same on the second components (`seqStep_insert`, `seqStep_append`, `seqStep_remove`).  The
contract is needed here and only here: with NULL in the sequence a search for it would fail where
the sequence machine finds it.  That the elements are distinct is an invariant of the sequence
machine (`SeqStep.dupFree`) and not a hypothesis on the list.
-/

namespace LeipoCode.LinkedList

open DList

/-! ### The abstract machine -/

/-- One call on the sequence: the call with what `malloc` returned in it, and the
status.  The first constructor of each group is the call that succeeds. -/
inductive SeqStep : List Ptr → Op × ListError → List Ptr → Prop
  | insertEmpty {mem d r : Ptr} : mem ≠ NULL →
      SeqStep [] (.insert mem d r, .ok) [d]
  | insertAfter {mem d r : Ptr} {ys zs : List Ptr} : mem ≠ NULL → d ∉ ys ++ r :: zs →
      SeqStep (ys ++ r :: zs) (.insert mem d r, .ok) (ys ++ r :: d :: zs)
  | insertMember {mem d r : Ptr} {xs : List Ptr} : d ∈ xs →
      SeqStep xs (.insert mem d r, .elementAlreadyInList) xs
  | insertNoMemory {d r : Ptr} {xs : List Ptr} : d ∉ xs →
      SeqStep xs (.insert NULL d r, .insufficientMemory) xs
  | insertNoRef {mem d r : Ptr} {xs : List Ptr} : d ∉ xs → mem ≠ NULL → xs ≠ [] →
      r ∉ xs → SeqStep xs (.insert mem d r, .elementNotInList) xs
  | append {mem d : Ptr} {xs : List Ptr} : mem ≠ NULL → d ∉ xs →
      SeqStep xs (.append mem d, .ok) (xs ++ [d])
  | appendMember {mem d : Ptr} {xs : List Ptr} : d ∈ xs →
      SeqStep xs (.append mem d, .elementAlreadyInList) xs
  | appendNoMemory {d : Ptr} {xs : List Ptr} : d ∉ xs →
      SeqStep xs (.append NULL d, .insufficientMemory) xs
  | remove {d : Ptr} {ys zs : List Ptr} : d ∉ ys →
      SeqStep (ys ++ d :: zs) (.remove d, .ok) (ys ++ zs)
  | removeMissing {d : Ptr} {xs : List Ptr} : d ∉ xs →
      SeqStep xs (.remove d, .elementNotInList) xs
  | delete {xs : List Ptr} : SeqStep xs (.delete, .ok) []

/-- The sequence machine, started with the empty sequence.  This is what the list is for. -/
def seqSys : LTS (List Ptr) (Op × ListError) where
  init xs := xs = []
  step := SeqStep

/-- The calls of the list's contract: NULL is not inserted.  A second `list_init` is none of them,
and a pass of the loop of `list_delete` is no call of its own. -/
def Op.Contract : Op → Prop
  | .insert _ d _ => d ≠ NULL
  | .append _ d => d ≠ NULL
  | .remove _ => True
  | .delete => True
  | .init => False
  | .deletePass => False

/-- Distinct pointers, none of them NULL: what the sequences of the machine are, as long as its
calls keep to the contract. -/
structure DupFree (xs : List Ptr) : Prop where
  nodup : xs.Nodup
  notNull : NULL ∉ xs

/-- Following `next` from `head` spells `xs`, and following `prev` from `tail`
spells `xs` reversed over the same nodes. -/
def Spells (s : State) (xs : List Ptr) : Prop :=
  ∃ cs : List (Ptr × Ptr), NextPath s.heap NULL s.list.head cs ∧
    PrevPath s.heap NULL s.list.tail cs.reverse ∧ (addrs cs).Nodup ∧ payloads cs = xs

theorem Chain.spells {s : State} {cs : List (Ptr × Ptr)} (hc : Chain s.list s.heap cs) :
    Spells s (payloads cs) := by
  refine ⟨cs, ?_, ?_, hc.nodup, rfl⟩
  · rw [hc.head]
    exact seg_nextPath hc.seg
  · rw [hc.tail]
    exact seg_prevPath hc.seg

/-! ### The simulation -/

section Simulation

variable {cs : List (Ptr × Ptr)} {mem d r : Ptr} {xs ys : List Ptr}

/-- The sequence machine keeps the elements distinct and not NULL, if the calls keep to the
contract. -/
theorem SeqStep.dupFree {l : Op × ListError} (hstep : SeqStep xs l ys)
    (hcontract : l.1.Contract) (hxs : DupFree xs) : DupFree ys := by
  cases hstep with
  | insertEmpty _ =>
      exact ⟨List.nodup_singleton _, by simpa using Ne.symm hcontract⟩
  | @insertAfter _ d r ys zs _ hd =>
      have hperm : (ys ++ r :: d :: zs).Perm (d :: (ys ++ r :: zs)) := by
        have hmid : (ys ++ [r] ++ d :: zs).Perm (d :: (ys ++ [r] ++ zs)) := List.perm_middle
        simpa using hmid
      refine ⟨hperm.nodup_iff.mpr (List.nodup_cons.mpr ⟨hd, hxs.nodup⟩), ?_⟩
      rw [hperm.mem_iff, List.mem_cons, not_or]
      exact ⟨Ne.symm hcontract, hxs.notNull⟩
  | insertMember _ => exact hxs
  | insertNoMemory _ => exact hxs
  | insertNoRef _ _ _ _ => exact hxs
  | @append _ d xs _ hd =>
      refine ⟨?_, ?_⟩
      · rw [List.nodup_append]
        exact ⟨hxs.nodup, List.nodup_singleton _, by
          intro a ha b hb; exact fun he => hd (by simp_all)⟩
      · rw [List.mem_append, List.mem_singleton, not_or]
        exact ⟨hxs.notNull, Ne.symm hcontract⟩
  | appendMember _ => exact hxs
  | appendNoMemory _ => exact hxs
  | @remove d ys zs _ =>
      have hsub : (ys ++ zs).Sublist (ys ++ d :: zs) :=
        List.Sublist.append_left (List.sublist_cons_self d zs) ys
      exact ⟨hxs.nodup.sublist hsub, fun hm => hxs.notNull (hsub.subset hm)⟩
  | removeMissing _ => exact hxs
  | delete => exact ⟨List.nodup_nil, by simp⟩

/-- `list_insert` on the chain, seen on the data: one step of the sequence machine, with the same
result. -/
theorem seqStep_insert (hd : d ≠ NULL) (hcs : DupFree (payloads cs)) :
    SeqStep (payloads cs) (.insert mem d r, (chainInsert mem d r cs).1)
      (payloads (chainInsert mem d r cs).2) := by
  by_cases hmember : d ∈ payloads cs
  · rw [chainInsert_member ⟨hd, hmember⟩]
    exact .insertMember hmember
  have hnot : ¬ (d ≠ NULL ∧ d ∈ payloads cs) := fun h => hmember h.2
  by_cases hmem : mem = NULL
  · subst hmem
    rw [chainInsert_noMemory hnot]
    exact .insertNoMemory hmember
  by_cases hnil : cs = []
  · subst hnil
    rw [chainInsert_empty hmem]
    exact .insertEmpty hmem
  by_cases hr : r ∈ payloads cs
  · have hrn : r ≠ NULL := fun he => hcs.notNull (he ▸ hr)
    obtain ⟨as, p, bs, rfl, has⟩ := split_at_payload hr
    rw [chainInsert_after hnot hmem hrn has]
    simp only [payloads_append, payloads_cons] at hmember ⊢
    exact .insertAfter hmem hmember
  · rw [chainInsert_noRef hnot hmem hnil (Or.inr hr)]
    exact .insertNoRef hmember hmem (by simpa [payloads] using hnil) hr

/-- `list_append` on the chain, seen on the data: the reference it passes on is the
last element, which is a member. -/
theorem seqStep_append (hd : d ≠ NULL) (hcs : DupFree (payloads cs)) :
    SeqStep (payloads cs) (.append mem d, (chainAppend mem d cs).1)
      (payloads (chainAppend mem d cs).2) := by
  unfold chainAppend
  by_cases hmember : d ∈ payloads cs
  · rw [chainInsert_member ⟨hd, hmember⟩]
    exact .appendMember hmember
  have hnot : ¬ (d ≠ NULL ∧ d ∈ payloads cs) := fun h => hmember h.2
  by_cases hmem : mem = NULL
  · subst hmem
    rw [chainInsert_noMemory hnot]
    exact .appendNoMemory hmember
  rcases List.eq_nil_or_concat cs with rfl | ⟨as, c, rfl⟩
  · rw [chainInsert_empty hmem]
    exact (SeqStep.append hmem hmember : SeqStep [] _ ([] ++ [d]))
  · rw [List.concat_eq_append] at *
    have hlast : (payloads (as ++ [c])).getLast?.getD NULL = c.2 := by simp
    have hcn : c.2 ≠ NULL := fun he => hcs.notNull (by simp [← he])
    have hca : c.2 ∉ payloads as := by
      have hnd := hcs.nodup
      simp only [payloads_append, payloads_cons, payloads_nil, List.nodup_append] at hnd
      exact fun hm => hnd.2.2 _ hm _ (by simp) rfl
    rw [hlast, chainInsert_after hnot hmem hcn hca]
    have hspell : payloads (as ++ [c, (mem, d)]) = payloads (as ++ [c]) ++ [d] := by simp
    rw [hspell]
    exact .append hmem hmember

/-- `list_remove` on the chain, seen on the data: one step of the sequence machine, with the same
result. -/
theorem seqStep_remove (hcs : DupFree (payloads cs)) :
    SeqStep (payloads cs) (.remove d, (chainRemove d cs).1)
      (payloads (chainRemove d cs).2) := by
  by_cases hd : d ∈ payloads cs
  · have hdn : d ≠ NULL := fun he => hcs.notNull (he ▸ hd)
    obtain ⟨as, p, bs, rfl, has⟩ := split_at_payload hd
    rw [chainRemove_mem hdn has]
    simp only [payloads_append, payloads_cons]
    exact .remove has
  · rw [chainRemove_notMem (Or.inr hd)]
    exact .removeMissing hd

/-- **Every call of the contract is a call of the sequence machine**, and it
succeeds in making it. -/
theorem seqStep_exec {F : Heap Ptr} {s : State} {op : Op} (hrep : Rep F s cs)
    (hcs : DupFree (payloads cs)) (hcontract : op.Contract) (hlegal : op.Legal s) :
    ∃ e s' ds, op.exec s = .ok (e, s') ∧ Rep F s' ds ∧
      SeqStep (payloads cs) (op, e) (payloads ds) := by
  have hinit : op ≠ .init := by
    rintro rfl
    exact hcontract
  obtain ⟨s', hrun, hrep'⟩ := exec_spec hrep hinit hlegal fun _ => hcs.notNull
  refine ⟨_, s', _, hrun, hrep', ?_⟩
  cases op with
  | init => exact absurd rfl hinit
  | insert mem d r => exact seqStep_insert hcontract hcs
  | append mem d => exact seqStep_append hcontract hcs
  | remove d => exact seqStep_remove hcs
  | delete => exact .delete
  | deletePass => exact hcontract.elim

/-- **The forward simulation.**  A concrete state is related to the data of the
chain it lays out. -/
theorem payload_simulation :
    LTS.Simulation (listSys.restrict fun _ l => l.1.Contract) seqSys
      fun s xs => ∃ cs, Rep ∅ s cs ∧ payloads cs = xs ∧ DupFree xs where
  init := by
    rintro s ⟨garbage, rfl⟩
    exact ⟨[], rfl, [], rep_init ⟨garbage, ∅⟩, rfl, List.nodup_nil, by simp⟩
  step := by
    rintro s ⟨op, e⟩ s' xs ⟨cs, hrep, rfl, hcs⟩ ⟨hcontract, hlegal, hrun⟩
    obtain ⟨e', t, ds, hrun', hrep', hstep⟩ := seqStep_exec hrep hcs hcontract hlegal
    rw [hrun] at hrun'
    obtain ⟨rfl, rfl⟩ := Prod.mk.inj (Except.ok.inj hrun')
    exact ⟨payloads ds, hstep, ds, hrep', rfl, hstep.dupFree hcontract hcs⟩

end Simulation

/-- **The list refines a duplicate-free sequence.**  Along every run of legal calls
that respects the contract, there is a sequence of distinct non-NULL pointers that
the sequence machine reaches by the same calls with the same statuses, and that the
chains of the list spell in both directions; the queries answer about it, and the
next call of the contract returns and is again a call of the sequence machine. -/
theorem list_refines_sequence {s₀ s : State} {ls : List (Op × ListError)}
    (hinit : listSys.init s₀)
    (hrun : (listSys.restrict fun _ l => l.1.Contract).Run s₀ ls s) :
    ∃ xs : List Ptr, seqSys.Run [] ls xs ∧ xs.Nodup ∧ NULL ∉ xs ∧ Spells s xs ∧
      listHead s = .ok (xs.head?.getD NULL) ∧ listTail s = .ok (xs.getLast?.getD NULL) ∧
      listSize s = xs.length ∧ (∀ d, listHasMember s d = .ok (decide (d ∈ xs))) ∧
      ∀ op : Op, op.Contract → op.Legal s →
        ∃ e s' xs', op.exec s = .ok (e, s') ∧ SeqStep xs (op, e) xs' ∧ Spells s' xs' := by
  obtain ⟨garbage, rfl⟩ := hinit
  obtain ⟨xs, hseq, cs, hrep, rfl, hcs⟩ := payload_simulation.run
    ⟨[], rep_init ⟨garbage, ∅⟩, rfl, List.nodup_nil, by simp⟩ hrun
  refine ⟨payloads cs, hseq, hcs.nodup, hcs.notNull, hrep.toChain.spells,
    listHead_eq hrep.toChain, listTail_eq hrep.toChain, ?_, fun d => ?_,
    fun op hcontract hlegal => ?_⟩
  · rw [listSize, hrep.size, length_payloads]
  · rw [listHasMember_eq hrep.toChain]
    congr 1
    have hmem : d ∈ payloads cs → d ≠ NULL := fun hd he => hcs.notNull (he ▸ hd)
    exact decide_eq_decide.mpr ⟨And.right, fun hd => ⟨hmem hd, hd⟩⟩
  · obtain ⟨e, s', ds, hex, hrep', hstep⟩ := seqStep_exec hrep hcs hcontract hlegal
    exact ⟨e, s', payloads ds, hex, hstep, hrep'.toChain.spells⟩

/-- Three calls: an append, an insertion behind it, and the removal of the first
element.  One node is left. -/
theorem list_refines_sequence_run :
    ∃ s : State, (listSys.restrict fun _ l => l.1.Contract).Run (listInit ⟨⟨5, 3, 4⟩, ∅⟩)
      [(.append 100 1, .ok), (.insert 101 2 1, .ok), (.remove 1, .ok)] s ∧
      listSize s = 1 ∧
      ∃ xs : List Ptr, seqSys.Run []
        [(.append 100 1, .ok), (.insert 101 2 1, .ok), (.remove 1, .ok)] xs ∧
        xs.Nodup ∧ NULL ∉ xs ∧ Spells s xs ∧ listHead s = .ok (xs.head?.getD NULL) := by
  have hone : (1 : Ptr) ≠ NULL := by decide
  have htwo : (2 : Ptr) ≠ NULL := by decide
  have hrun := (LTS.Run.nil (M := listSys.restrict fun _ l => l.1.Contract)
    (s := listInit ⟨⟨5, 3, 4⟩, ∅⟩)).snoc
    (l := (Op.append 100 1, ListError.ok)) ⟨hone, by decide, rfl⟩
  have hrun := hrun.snoc (l := (Op.insert 101 2 1, ListError.ok)) ⟨htwo, by decide, rfl⟩
  have hrun := hrun.snoc (l := (Op.remove 1, ListError.ok)) ⟨trivial, trivial, rfl⟩
  obtain ⟨xs, hseq, hnodup, hnull, hspells, hhead, -⟩ :=
    list_refines_sequence ⟨⟨5, 3, 4⟩, rfl⟩ hrun
  exact ⟨_, hrun, rfl, xs, hseq, hnodup, hnull, hspells, hhead⟩

end LeipoCode.LinkedList
