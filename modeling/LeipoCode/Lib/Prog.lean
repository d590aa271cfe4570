import Mathlib.Tactic.Common

/-!
# Sequential programs with calls

A thread of a concurrent program is sequential between its calls into the world it
shares with the others, and what a call returns is not up to the thread.  A
program is therefore a tree: it has a result, or it makes a call and goes on as the
response says.

* `Prog` — such trees, with their `bind`;
* `Prog.mapCall` — a program over few calls is one over more;
* `Discipline` — what a thread may call, kept as a small state of its own that the
  calls and their responses move along, and what it may rely on in a response;
* `Discipline.wp` — **every run of the program obeys the discipline**, and ends with
  a result and a state that satisfy the postcondition.

The rules follow the structure of the program: `wp_bind` for sequencing, `wp_mono`
for the postcondition.  Most programs here end in the state of the discipline they were
started in (`Gives`, `Returns`), and are put together by `Gives.seq`.

### Disciplines

A discipline is a protocol as one of its parties sees it: what may be called when, and what may be
expected.  It is proved of a program text, without the world, by `wp`: the postcondition is pushed
through the tree, a branch for each response that is granted.  Whether the world grants what the
discipline expects is a question about the world, which is answered where the threads are put
together.

Loops are recursive functions on what bounds them, and there is no loop construct; a thread that
goes on for ever is a sequence of programs, each of which ends.
-/

namespace LeipoCode

/-- A program over the calls `C`, whose responses have the types `R`, with a result in `α`.  Being a
tree it is finite along every branch, and nothing but the response decides which branch is taken. -/
inductive Prog (C : Type) (R : C → Type) (α : Type) where
  | pure (a : α)
  | call (c : C) (k : R c → Prog C R α)

namespace Prog

variable {C : Type} {R : C → Type} {α β : Type}

/-- Sequencing: the result of the first program selects the second. -/
protected def bind : Prog C R α → (α → Prog C R β) → Prog C R β
  | .pure a, f => f a
  | .call c k, f => .call c fun r => (k r).bind f

instance : Monad (Prog C R) where
  pure := .pure
  bind := Prog.bind

theorem bind_pure' (p : Prog C R α) : p.bind .pure = p := by
  induction p with
  | pure a => rfl
  | call c k ih => exact congrArg (Prog.call c) (funext ih)

theorem bind_assoc' {γ : Type} (p : Prog C R α) (f : α → Prog C R β) (g : β → Prog C R γ) :
    (p.bind f).bind g = p.bind fun a => (f a).bind g := by
  induction p with
  | pure a => rfl
  | call c k ih => exact congrArg (Prog.call c) (funext ih)

instance : LawfulMonad (Prog C R) :=
  LawfulMonad.mk' (Prog C R) bind_pure' (fun _ _ => rfl) bind_assoc'

/-- The program that makes one call and returns its response.  Every other program is put together
from such ones by `bind`. -/
def lift (c : C) : Prog C R (R c) := .call c .pure

/-- The call the program is at, if it has not come to its end.  What it does then depends on the
response. -/
def next : Prog C R α → Option C
  | .pure _ => none
  | .call c _ => some c

theorem eq_call_of_next {p : Prog C R α} {c : C} (h : p.next = some c) : ∃ k, p = .call c k := by
  cases p with
  | pure a => cases h
  | call c' k =>
      cases h
      exact ⟨k, rfl⟩

theorem eq_pure_of_next {p : Prog C R α} (h : p.next.isNone) : ∃ a, p = .pure a := by
  cases p with
  | pure a => exact ⟨a, rfl⟩
  | call c k => cases h

/-- The same program over a larger set of calls: what it calls is renamed, and the responses are
those of the larger set. -/
def mapCall {C' : Type} {R' : C' → Type} (ι : C → C') :
    Prog C (fun c => R' (ι c)) α → Prog C' R' α
  | .pure a => .pure a
  | .call c k => .call (ι c) fun r => (k r).mapCall ι

end Prog

/-! ### Disciplines -/

/-- The rules a thread lives by, as a machine with states of its own that the calls of the thread
move along. -/
structure Discipline (C : Type) (R : C → Type) (Q : Type) where
  /-- The calls the thread may make. -/
  allowed : Q → C → Prop
  /-- The responses the thread may rely on getting. -/
  granted : Q → (c : C) → R c → Prop
  /-- The state after a call has returned. -/
  next : Q → (c : C) → R c → Q

namespace Discipline

variable {C : Type} {R : C → Type} {Q : Type} {α β : Type}

/-- `D.wp post p q`: started in `q`, the program makes allowed calls only as long as
the responses are granted ones, and ends as `post` says. -/
def wp (D : Discipline C R Q) (post : α → Q → Prop) : Prog C R α → Q → Prop
  | .pure a, q => post a q
  | .call c k, q =>
      D.allowed q c ∧ ∀ r, D.granted q c r → D.wp post (k r) (D.next q c r)

variable {D : Discipline C R Q} {post post' : α → Q → Prop}

theorem wp_mono (h : ∀ a q, post a q → post' a q) {p : Prog C R α} {q : Q}
    (hp : D.wp post p q) : D.wp post' p q := by
  induction p generalizing q with
  | pure a => exact h a q hp
  | call c k ih => exact ⟨hp.1, fun r hr => ih r (hp.2 r hr)⟩

/-- **The rule of sequencing**: what is to hold after both parts has to hold, as a condition on the
second, after the first. -/
theorem wp_bind {post : β → Q → Prop} {p : Prog C R α} {f : α → Prog C R β}
    {q : Q} :
    D.wp post (p >>= f) q ↔ D.wp (fun a q' => D.wp post (f a) q') p q := by
  induction p generalizing q with
  | pure a => rfl
  | call c k ih =>
      show D.allowed q c ∧ (∀ r, _ → D.wp post (k r >>= f) _) ↔ _
      exact and_congr_right fun _ => forall_congr' fun r => imp_congr_right fun _ => ih r

/-- Sequencing, with the specification of the first part at hand. -/
theorem wp_seq {post : β → Q → Prop} {mid : α → Q → Prop} {p : Prog C R α}
    {f : α → Prog C R β} {q : Q} (hp : D.wp mid p q)
    (hf : ∀ a q', mid a q' → D.wp post (f a) q') : D.wp post (p >>= f) q :=
  wp_bind.mpr (wp_mono hf hp)

/-- The rule of branching: each branch is gone through under its condition. -/
theorem wp_ite {c : Prop} [Decidable c] {p₁ p₂ : Prog C R α} {q : Q}
    (h₁ : c → D.wp post p₁ q) (h₂ : ¬ c → D.wp post p₂ q) :
    D.wp post (if c then p₁ else p₂) q := by
  split
  · exact h₁ ‹_›
  · exact h₂ ‹_›

/-! ### Programs that end where they started -/

/-- The program ends in the state it was started in, with a result that is `good`. -/
def Gives (D : Discipline C R Q) (q : Q) (good : α → Prop) (p : Prog C R α) : Prop :=
  D.wp (fun a q' => good a ∧ q' = q) p q

/-- The same with no word about the result: the program obeys the discipline, and ends in the state
it was started in. -/
abbrev Returns (D : Discipline C R Q) (q : Q) (p : Prog C R α) : Prop :=
  D.Gives q (fun _ => True) p

variable {q : Q} {good : α → Prop} {p : Prog C R α}

theorem Gives.wp (hp : D.Gives q good p) (hpost : ∀ a, good a → post a q) : D.wp post p q :=
  wp_mono (fun a _ ⟨ha, hq⟩ => hq ▸ hpost a ha) hp

/-- **The rule of sequencing** after such a program: the state need not be named again. -/
theorem Gives.seq {post : β → Q → Prop} {f : α → Prog C R β} (hp : D.Gives q good p)
    (hf : ∀ a, good a → D.wp post (f a) q) : D.wp post (p >>= f) q :=
  wp_bind.mpr (hp.wp hf)

theorem Gives.pure {a : α} (ha : good a) : D.Gives q good (Pure.pure a) :=
  ⟨ha, rfl⟩

/-- One call that is allowed and leaves the state alone, with what is granted of its
response. -/
theorem Gives.call {c : C} (hallowed : D.allowed q c) (hnext : ∀ r, D.next q c r = q) :
    D.Gives q (D.granted q c) (Prog.lift c) :=
  ⟨hallowed, fun r hr => ⟨hr, hnext r⟩⟩

theorem Gives.returns (hp : D.Gives q good p) : D.Returns q p :=
  hp.wp fun _ _ => ⟨trivial, rfl⟩

/-- **The rule of neutral calls.**  If every call is allowed in `q` and leaves it alone,
so does a program. -/
theorem returns_of_neutral (hallowed : ∀ c, D.allowed q c) (hnext : ∀ c r, D.next q c r = q)
    (p : Prog C R α) : D.Returns q p := by
  induction p with
  | pure a => exact ⟨trivial, rfl⟩
  | call c k ih =>
      refine ⟨hallowed c, ?_⟩
      intro r _
      rw [hnext c r]
      exact ih r

/-! ### Programs over fewer calls -/

section Comap

variable {C' : Type} {R' : C' → Type} {D : Discipline C' R' Q} {ι : C → C'}

/-- What a discipline says of a program over fewer calls: what it says of each call under its new
name. -/
def comap (D : Discipline C' R' Q) (ι : C → C') : Discipline C (fun c => R' (ι c)) Q where
  allowed q c := D.allowed q (ι c)
  granted q c r := D.granted q (ι c) r
  next q c r := D.next q (ι c) r

theorem wp_mapCall {p : Prog C (fun c => R' (ι c)) α} {q : Q} :
    D.wp post (p.mapCall ι) q ↔ (D.comap ι).wp post p q := by
  induction p generalizing q with
  | pure a => rfl
  | call c k ih =>
      exact and_congr_right fun _ => forall_congr' fun r => imp_congr_right fun _ => ih r

end Comap

end Discipline

end LeipoCode
