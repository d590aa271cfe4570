import LeipoCode.LinkedList.Runs

/-!
# NULL in the list

`list_findPos` states that NULL can not be in the list, and answers every search
for NULL with "not found".  Nothing else in `list.c` looks for NULL, so the rule
rests on how that answer is used: `list_hasMember` lets an insertion of NULL pass,
and only a reference that is not found, or a failing `malloc`, stops it.

`Op.NullGuarded` is that condition on a call.  The rule holds along the runs all of
whose calls meet it, and not along the others: a NULL that went in can not be found,
so it can neither be removed nor serve as the reference of the next `list_append`.

The condition is exact for each call in a list without NULL (`refusesNull_iff`), so a run keeps to
the rule just as long as its calls do, and the first call outside it puts NULL in.  With NULL in the
list nothing is said of the calls that follow.

### How it goes

A call is looked at on the chain, where an insertion of NULL is a case of `chainInsert`: the test
for a member lets NULL pass, so what is left to stop it are `malloc` and the reference
(`chainInsert_null_refused`).  What `list_append` passes on as the reference is the last element,
and is refused just if that is NULL (`lastData_refused`), which in a list without NULL means that
there is no last element; but an empty list takes anything.  So an append of NULL is only ever
stopped by `malloc`, in a list that keeps to the rule.
-/

namespace LeipoCode.LinkedList

open DList

/-- The calls that do not put NULL into the list: an insertion of NULL is stopped
by `malloc`, or by a reference that is not in a list that is not empty. -/
def Op.NullGuarded : Op → State → Prop
  | .insert mem d r, s =>
      d = NULL → mem = NULL ∨ (s.list.size ≠ 0 ∧ listHasMember s r = .ok false)
  | .append mem d, _ => d = NULL → mem = NULL
  | _, _ => True

/-- NULL is not accepted: an insertion of NULL returns an error and changes
nothing. -/
def Op.RefusesNull (op : Op) (s : State) : Prop :=
  match op with
  | .insert _ d _ | .append _ d =>
      d = NULL → ∃ e, e ≠ .ok ∧ op.exec s = .ok (e, s)
  | _ => True

section NullRule

variable {F : Heap Ptr} {s s' : State} {cs : List (Ptr × Ptr)} {mem d r : Ptr} {op : Op}

theorem payloads_insertAfter_subset {x : Ptr} {c : Ptr × Ptr}
    (hx : x ∈ payloads (insertAfter r c cs)) : x = c.2 ∨ x ∈ payloads cs := by
  induction cs with
  | nil => simp [insertAfter] at hx
  | cons y ys ih =>
      by_cases hy : y.2 = r
      · simp only [insertAfter, if_pos hy, payloads_cons, List.mem_cons] at hx ⊢
        tauto
      · simp only [insertAfter, if_neg hy, payloads_cons, List.mem_cons] at hx ⊢
        rcases hx with hx | hx
        · exact Or.inr (Or.inl hx)
        · exact (ih hx).imp_right Or.inr

/-- An insertion puts at most its own data into the chain, so NULL only if it was given NULL. -/
theorem payloads_chainInsert_subset {x : Ptr} (hx : x ∈ payloads (chainInsert mem d r cs).2) :
    x = d ∨ x ∈ payloads cs := by
  unfold chainInsert at hx
  split_ifs at hx
  · exact Or.inr hx
  · exact Or.inr hx
  · exact Or.inl (by simpa using hx)
  · exact Or.inr hx
  · exact payloads_insertAfter_subset hx

theorem payloads_chainRemove_subset {x : Ptr} (hx : x ∈ payloads (chainRemove d cs).2) :
    x ∈ payloads cs := by
  unfold chainRemove at hx
  split_ifs at hx
  · exact hx
  · exact (List.eraseP_sublist.map Prod.snd).subset hx

/-- The status of an insertion of NULL: it is refused exactly if `malloc` fails, or
the list has elements and the reference is none of them. -/
theorem chainInsert_null_refused :
    (chainInsert mem NULL r cs).1 ≠ .ok ↔
      mem = NULL ∨ (cs ≠ [] ∧ (r = NULL ∨ r ∉ payloads cs)) := by
  unfold chainInsert
  split_ifs <;> simp_all

/-- A refused insertion leaves the chain alone, for whichever of the reasons it is. -/
theorem chainInsert_refused (he : (chainInsert mem d r cs).1 ≠ .ok) :
    (chainInsert mem d r cs).2 = cs := by
  unfold chainInsert at he ⊢
  split_ifs at he ⊢ <;> simp_all

/-- The reference `list_append` passes on is the last data, and is refused only if it is NULL. -/
theorem lastData_refused (hcs : cs ≠ []) (hnull : NULL ∉ payloads cs) :
    ¬ ((payloads cs).getLast?.getD NULL = NULL ∨
      (payloads cs).getLast?.getD NULL ∉ payloads cs) := by
  rcases List.eq_nil_or_concat cs with rfl | ⟨as, c, rfl⟩
  · exact absurd rfl hcs
  · rw [List.concat_eq_append] at hnull ⊢
    simp only [payloads_append, payloads_cons, payloads_nil, List.mem_append,
      List.mem_singleton, not_or] at hnull
    simp [Ne.symm hnull.2]

/-- What the guard of `list_insert` says of the chain: an insertion of NULL fails for another
reason. -/
theorem nullGuarded_insert (hc : Chain s.list s.heap cs) :
    (Op.insert mem NULL r).NullGuarded s ↔
      mem = NULL ∨ (cs ≠ [] ∧ (r = NULL ∨ r ∉ payloads cs)) := by
  have hmember : listHasMember s r = .ok false ↔ (r = NULL ∨ r ∉ payloads cs) := by
    rw [listHasMember_eq hc, Except.ok.injEq, decide_eq_false_iff_not]
    tauto
  simp only [Op.NullGuarded, hmember, Ne, hc.size_eq_zero, forall_const]

/-- **An insertion of NULL is refused exactly under the guard**, as long as no NULL
is in the list. -/
theorem refusesNull_iff (hrep : Rep F s cs) (hnull : NULL ∉ payloads cs)
    (hlegal : op.Legal s) : op.RefusesNull s ↔ op.NullGuarded s := by
  have hrun : ∀ {o : Op} {e' : ListError} {t : State}, o.exec s = .ok (e', t) →
      (e' ≠ .ok → t = s) → ((∃ e, e ≠ .ok ∧ o.exec s = .ok (e, s)) ↔ e' ≠ .ok) := by
    intro o e' t hex hsame
    constructor
    · rintro ⟨e, hne, hs⟩
      rw [hex] at hs
      exact (Prod.mk.inj (Except.ok.inj hs)).1 ▸ hne
    · intro hne
      exact ⟨e', hne, by rw [hex, hsame hne]⟩
  cases op with
  | insert mem d r =>
      by_cases hd : d = NULL
      · subst hd
        obtain ⟨t, hex, -, hsame⟩ := listInsert_spec (d := NULL) (r := r) hrep hlegal
        rw [nullGuarded_insert hrep.toChain, ← chainInsert_null_refused,
          ← hrun (o := .insert mem NULL r) hex hsame]
        simp [Op.RefusesNull]
      · simp [Op.RefusesNull, Op.NullGuarded, hd]
  | append mem d =>
      by_cases hd : d = NULL
      · subst hd
        obtain ⟨t, hex, -, hsame⟩ := listAppend_spec (d := NULL) hrep hlegal
        have hguard : (chainAppend mem NULL cs).1 ≠ .ok ↔ mem = NULL := by
          rw [chainAppend, chainInsert_null_refused, or_iff_left]
          rintro ⟨hcs, href⟩
          exact lastData_refused hcs hnull href
        simp only [Op.RefusesNull, Op.NullGuarded, forall_const]
        rw [hrun (o := .append mem NULL) hex hsame, hguard]
      · simp [Op.RefusesNull, Op.NullGuarded, hd]
  | _ => simp [Op.RefusesNull, Op.NullGuarded]

/-- A guarded call puts no NULL into the chain, whichever call it is. -/
theorem null_notMem_chain (hrep : Rep F s cs) (hnull : NULL ∉ payloads cs)
    (hguard : op.NullGuarded s) : NULL ∉ payloads (op.chain cs).2 := by
  cases op with
  | init => simp [Op.chain]
  | delete => simp [Op.chain]
  | remove d => exact fun hm => hnull (payloads_chainRemove_subset hm)
  | deletePass =>
      cases cs with
      | nil => simp [Op.chain]
      | cons c cs => exact fun hm => hnull (payloads_chainRemove_subset hm)
  | insert mem d r =>
      intro hm
      rcases payloads_chainInsert_subset hm with rfl | hm'
      · -- the data are NULL: the call is refused, so nothing went in
        rw [nullGuarded_insert hrep.toChain, ← chainInsert_null_refused] at hguard
        rw [Op.chain, chainInsert_refused hguard] at hm
        exact hnull hm
      · exact hnull hm'
  | append mem d =>
      intro hm
      rcases payloads_chainInsert_subset hm with rfl | hm'
      · have hmem : mem = NULL := hguard rfl
        rw [Op.chain, chainAppend,
          chainInsert_refused (chainInsert_null_refused.mpr (Or.inl hmem))] at hm
        exact hnull hm
      · exact hnull hm'

/-- Along the guarded runs no node of the list carries NULL. -/
theorem rep_of_guarded
    (hs : (listSys.restrict fun s l => l.1.NullGuarded s).Reachable s) :
    ∃ F cs, Rep F s cs ∧ NULL ∉ payloads cs := by
  refine LTS.Reachable.invariant
    (I := fun s => ∃ F cs, Rep F s cs ∧ NULL ∉ payloads cs) ?_ ?_ hs
  · rintro s ⟨garbage, rfl⟩
    exact ⟨∅, [], rep_init ⟨garbage, ∅⟩, by simp⟩
  · rintro s ⟨op, e⟩ s' ⟨F, cs, hrep, hnull⟩ ⟨hguard, hlegal, hrun⟩
    by_cases hinit : op = .init
    · subst hinit
      cases hrun
      exact ⟨s.heap, [], rep_init s, by simp⟩
    · exact ⟨F, _, (rep_of_exec hrep hinit hlegal hrun).2,
        null_notMem_chain hrep hnull hguard⟩

end NullRule

/-- **The rule on NULL, under its guard.**  In every state a run of public calls
with arbitrary arguments reaches from `list_init`, if each call of the run is
guarded:

* no node of the chain carries NULL;
* an insertion of NULL is refused and changes nothing exactly if it is guarded;
* `list_append` of a non-NULL pointer that is not yet a member succeeds whenever
  `malloc` does. -/
theorem null_rule_of_guarded {s : State}
    (hs : (listSys.restrict fun s l => l.1.NullGuarded s).Reachable s) :
    (∃ cs : List (Ptr × Ptr), NextPath s.heap NULL s.list.head cs ∧ NULL ∉ payloads cs) ∧
    (∀ op : Op, op.Legal s → (op.RefusesNull s ↔ op.NullGuarded s)) ∧
    ∀ mem d : Ptr, mem ≠ NULL → MallocOk mem s → d ≠ NULL → listHasMember s d = .ok false →
      ∃ s', listAppend mem d s = .ok (.ok, s') := by
  obtain ⟨F, cs, hrep, hnull⟩ := rep_of_guarded hs
  refine ⟨⟨cs, ?_, hnull⟩, fun op hlegal => refusesNull_iff hrep hnull hlegal,
    fun mem d hmem hlegal hd hnew => ?_⟩
  · rw [hrep.head]
    exact seg_nextPath hrep.seg
  · obtain ⟨s', hrun, -, -⟩ := listAppend_spec (d := d) hrep hlegal
    have hok : (chainAppend mem d cs).1 = .ok := by
      rw [listHasMember_eq hrep.toChain, Except.ok.injEq, decide_eq_false_iff_not] at hnew
      rw [chainAppend, chainInsert, if_neg hnew, if_neg hmem]
      split_ifs with hcs href
      · rfl
      · exact absurd href (lastData_refused hcs hnull)
      · rfl
    exact ⟨s', by rw [hrun, hok]⟩

/-- A guarded run of two calls: NULL is refused by the failing `malloc`, and the
element behind it goes in. -/
theorem null_rule_of_guarded_run :
    ∃ s₁ s₂ : State,
      Op.exec (.insert NULL NULL NULL) (listInit ⟨⟨5, 3, 4⟩, ∅⟩)
        = .ok (.insufficientMemory, s₁) ∧
      Op.exec (.append 8 7) s₁ = .ok (.ok, s₂) ∧
      (∃ cs : List (Ptr × Ptr),
        NextPath s₂.heap NULL s₂.list.head cs ∧ NULL ∉ payloads cs) ∧
      ∃ s₃, listAppend 9 6 s₂ = .ok (.ok, s₃) := by
  refine ⟨_, _, rfl, rfl, ?_⟩
  have hrule := null_rule_of_guarded (.step (.step (.init ⟨⟨5, 3, 4⟩, rfl⟩)
    (l := (.insert NULL NULL NULL, .insufficientMemory)) ⟨fun _ => .inl rfl, by decide, rfl⟩)
    (l := (.append 8 7, .ok)) ⟨fun h => absurd h (by decide), by decide, rfl⟩)
  exact ⟨hrule.1, hrule.2.2 9 6 (by decide) (by decide) (by decide) rfl⟩

/-- NULL is accepted as the first element, and the next `list_append` of a new
pointer fails although `malloc` does not: its reference is the NULL at the tail. -/
theorem null_is_accepted :
    ∃ s₁ : State,
      Op.exec (.insert 8 NULL NULL) (listInit ⟨⟨5, 3, 4⟩, ∅⟩) = .ok (.ok, s₁) ∧
      listSys.Reachable s₁ ∧
      NextPath s₁.heap NULL s₁.list.head [(8, NULL)] ∧
      MallocOk 9 s₁ ∧ listHasMember s₁ 7 = .ok false ∧
      listAppend 9 7 s₁ = .ok (.elementNotInList, s₁) := by
  refine ⟨_, rfl, ?_, .cons (c := ⟨NULL, NULL, NULL⟩) rfl .nil, by decide, rfl, rfl⟩
  exact .step (.init ⟨⟨5, 3, 4⟩, rfl⟩) (l := (.insert 8 NULL NULL, .ok))
    ⟨by decide, rfl⟩

end LeipoCode.LinkedList
