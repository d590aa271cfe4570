import LeipoCode.Lib.Exec
import Mathlib.Algebra.Group.Basic

/-!
# Accounts of an execution

A resource is taken by some calls and given back by others.  Whether an execution gives back
what it takes is a sum along its trace.

* `Prog.net` — what the calls of a trace come to;
* `accounts` — the discipline that forbids nothing and keeps the account, together with a note
  of whether a call of some kind was met;
* `Prog.Exec.settle` — a program whose account is walked through by `Discipline.wp` ends with
  that account in every execution.

Most calls of a program are neutral: `wp_pass` and `returns_of_neutral_calls` pass over them.

The amounts are in any additive monoid: numbers where a resource is counted, a product where two
are, or functions where there is one for each of many objects.  The note is kept beside the sum
because a program may settle its account in a way that depends on whether something has happened,
such as a failure that it was told of, and not on where it happened.
-/

namespace LeipoCode

namespace Prog

variable {C : Type} {R : C → Type} {G : Type}

/-- What the calls of a trace come to, each with the response it got: the sum of the amounts in the
order of the calls, which matters only if the amounts do not commute. -/
def net [AddMonoid G] (cost : (c : C) → R c → G) : Trace C R → G
  | [] => 0
  | ⟨c, r⟩ :: tr => cost c r + net cost tr

end Prog

/-- The balance so far, and whether a call that is noted was met.  The note is a proposition, so
that what is noted need not be decidable. -/
structure Account (G : Type) where
  balance : G
  noted : Prop

namespace Discipline

open Prog

variable {C : Type} {R : C → Type} {G : Type} [AddMonoid G] {α β S : Type}

/-- Keep the account: nothing is forbidden and nothing is relied on, and each call moves the balance
by what it costs with the response it got. -/
def accounts (cost : (c : C) → R c → G) (notes : (c : C) → R c → Prop) :
    Discipline C R (Account G) where
  allowed _ _ := True
  granted _ _ _ := True
  next q c r := ⟨q.balance + cost c r, q.noted ∨ notes c r⟩

section Accounts

variable {cost : (c : C) → R c → G} {notes : (c : C) → R c → Prop} {q : Account G}

theorem after_accounts (q : Account G) (tr : Trace C R) :
    (accounts cost notes).after q tr =
      ⟨q.balance + net cost tr, q.noted ∨ ∃ x ∈ tr, notes x.1 x.2⟩ := by
  induction tr generalizing q with
  | nil => simp [after, net]
  | cons x tr ih =>
      obtain ⟨c, r⟩ := x
      rw [after, ih]
      simp [accounts, net, add_assoc, or_assoc]

/-- **A program ends with the account** its walk ends with.  The walk is over the program text, for
all responses at once, and the execution is any one of those. -/
theorem settle {step : S → (c : C) → R c → S → Prop} {post : α → Account G → Prop}
    {p : Prog C R α} {s s' : S} {tr : Trace C R} {a : α} (h : Exec step s p tr a s')
    (hp : (accounts cost notes).wp post p ⟨0, False⟩) :
    post a ⟨net cost tr, ∃ x ∈ tr, notes x.1 x.2⟩ := by
  have honours : (accounts cost notes).Honours step fun _ _ => True :=
    fun _ _ _ _ _ _ _ _ => ⟨trivial, trivial⟩
  have hpost := (sound honours h hp trivial).1
  rw [after_accounts] at hpost
  simpa using hpost

/-- A call that costs nothing and is not noted, whatever it returns.  A walk through a program
passes over such a call. -/
def Neutral (cost : (c : C) → R c → G) (notes : (c : C) → R c → Prop) (c : C) : Prop :=
  ∀ r, cost c r = 0 ∧ ¬ notes c r

theorem next_neutral {c : C} (hc : Neutral cost notes c) (r : R c) :
    (accounts cost notes).next q c r = q := by
  obtain ⟨hcost, hnotes⟩ := hc r
  simp [accounts, hcost, hnotes]

/-- A neutral call is passed over, whatever it returns: it costs nothing and nothing is noted. -/
theorem wp_pass {post : α → Account G → Prop} {c : C} {rest : R c → Prog C R α}
    (hc : Neutral cost notes c) (hrest : ∀ r, (accounts cost notes).wp post (rest r) q) :
    (accounts cost notes).wp post (lift c >>= rest) q :=
  wp_neutral trivial (next_neutral hc) fun r _ => hrest r

/-- A program all of whose calls are neutral leaves the account as it is, so it is passed over as a
whole. -/
theorem returns_of_neutral_calls {p : Prog C R α} (hp : p.Calls (Neutral cost notes)) :
    (accounts cost notes).Returns q p :=
  returns_of_calls (fun _ hc => ⟨trivial, next_neutral hc⟩) hp

/-- What has been noted stays noted. -/
theorem wp_noted {p : Prog C R α} (hq : q.noted) :
    (accounts cost notes).wp (fun _ q' => q'.noted) p q := by
  induction p generalizing q with
  | pure a => exact hq
  | call c k ih => exact ⟨trivial, fun r _ => ih r (.inl hq)⟩

end Accounts

end Discipline

end LeipoCode
