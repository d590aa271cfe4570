import LeipoCode.Lib.Exec
import LeipoCode.Player.Pipeline

/-!
# What GStreamer has on its books

An object of GStreamer is an element (a bin and a pipeline are elements), a pad or a bus.
It lives as long as somebody holds it: the program, by the references it has not given
back, or the bin or element it belongs to.  The books below follow the documentation of the
calls of `gstrdk_pipeline.c`.

* A constructor returns `NULL` or an object that did not exist before; the program has the
  one, floating reference to it.
* `gst_bin_add` and `gst_element_add_pad` take the reference of what they add, unless they
  fail; `gst_bin_remove` and `gst_element_release_request_pad` drop what the bin or element
  holds.
* `gst_element_get_static_pad`, `gst_pad_get_peer` and `gst_pipeline_get_bus` return `NULL`
  or a new reference, to an object of their kind.
* `gst_object_unref` gives a reference back.
* `gst_bus_add_watch` returns the id of a new source, 0 if it fails; `g_source_remove`
  removes one.

The others neither take a reference nor give one away.

The books are an abstract state of GStreamer, and a call may do to them what its documentation says
and nothing else; which of several outcomes it has is up to GStreamer (`Site.Books` is a relation).
They are kept beside the state the threads share, and no call of the program reads them: what a
program does is the same with and without them, and what it has left on them when it returns can be
asked.
-/

namespace LeipoCode.Player

/-- What an object is: an element, which bins are too, a pad of one, or the bus of a pipeline. -/
inductive ObjectKind
  | element
  | pad
  | bus
deriving DecidableEq, Repr

/-- What is known of an object: how many references to it are the program's, and the
object it belongs to. -/
structure Object where
  kind : ObjectKind
  refs : ℕ
  parent : Ptr
deriving DecidableEq, Repr

/-- The books: the objects there ever were, and the sources that watch a bus.  An object that is
gone keeps its entry, with no references and no owner. -/
structure Ledger where
  book : Ptr → Option Object
  watches : List ℕ

namespace Ledger

/-- How many references to the object are the program's?  None, if it is not on the books. -/
def refs (l : Ledger) (p : Ptr) : ℕ := ((l.book p).map Object.refs).getD 0

/-- Somebody holds the object: the program, or an object that is held itself. -/
inductive Held (l : Ledger) : Ptr → Prop
  | own {p : Ptr} {o : Object} : l.book p = some o → 0 < o.refs → Held l p
  | owned {p : Ptr} {o : Object} : l.book p = some o → Held l o.parent → Held l p

/-- Change the entry of an object, if it has one; the watches and all other entries stay. -/
def modify (l : Ledger) (p : Ptr) (f : Object → Object) : Ledger :=
  { l with book := Function.update l.book p ((l.book p).map f) }

/-- A new entry, for an object that belongs to `owner`, with one reference, which is the program's.
-/
def create (l : Ledger) (p : Ptr) (kind : ObjectKind) (owner : Ptr) : Ledger :=
  { l with book := Function.update l.book p (some ⟨kind, 1, owner⟩) }

/-- A reference given back.  One that the program does not have cannot be, and the count then stays
at zero. -/
def unref (l : Ledger) (p : Ptr) : Ledger := l.modify p fun o => { o with refs := o.refs - 1 }

/-- A reference given to the object that `p` belongs to from now on: the program has one less, and
the object is held by its owner. -/
def give (l : Ledger) (owner p : Ptr) : Ledger :=
  l.modify p fun o => { o with refs := o.refs - 1, parent := owner }

/-- The object belongs to no other any more.  Whether it is held then is a question of the program's
references. -/
def drop (l : Ledger) (p : Ptr) : Ledger := l.modify p fun o => { o with parent := NULL }

/-- A reference taken; an object not met before belongs to `owner`, and one that was stays where it
is. -/
def ref (l : Ledger) (p : Ptr) (kind : ObjectKind) (owner : Ptr) : Ledger :=
  match l.book p with
  | none => l.create p kind owner
  | some _ => l.modify p fun o => { o with refs := o.refs + 1 }

end Ledger

/-- The state the threads share, with the books, which are GStreamer's and which no call of the
program reads. -/
structure Site where
  shared : Shared
  ledger : Ledger

namespace Site

/-- Nothing is at the address and nothing refers to it: the address was never on the books, and no
field of the player has it. -/
def Fresh (σ : Site) (p : Ptr) : Prop :=
  p ≠ NULL ∧ σ.ledger.book p = none ∧ ∀ f, σ.shared.player.ptr f ≠ p

/-- What a constructor may return: `NULL`, or a new object that belongs to nobody yet. -/
def Creates (σ : Site) (kind : ObjectKind) (p : Ptr) (l : Ledger) : Prop :=
  p = NULL ∧ l = σ.ledger ∨ σ.Fresh p ∧ l = σ.ledger.create p kind NULL

/-- What a call that looks an object up may return: `NULL`, or an object of that kind, old or new,
with a reference to it. -/
def Finds (σ : Site) (kind : ObjectKind) (owner p : Ptr) (l : Ledger) : Prop :=
  p = NULL ∧ l = σ.ledger ∨
    p ≠ NULL ∧ (σ.Fresh p ∨ ∃ o, σ.ledger.book p = some o ∧ o.kind = kind) ∧
      l = σ.ledger.ref p kind owner

/-- `σ.Books g r l`: the call may return `r`, and leaves the books `l`.  One equation for each call
that takes a reference or gives one away; all others leave the books alone, whatever they return. -/
def Books (σ : Site) : (g : GstCall) → g.kind.Val → Ledger → Prop
  | .pipelineNew _, p, l => σ.Creates .element p l
  | .binNew _, p, l => σ.Creates .element p l
  | .elementFactoryMake _ _, p, l => σ.Creates .element p l
  | .ghostPadNewNoTarget _ _, p, l => σ.Creates .pad p l
  | .elementAddPad element pad, added, l =>
      l = if (added : Bool) then σ.ledger.give element pad else σ.ledger
  | .binAdd bin element, added, l =>
      l = if (added : Bool) then σ.ledger.give bin element else σ.ledger
  | .binAddMany bin elements, _, l =>
      ∃ added : List Ptr, added.Sublist elements ∧
        l = added.foldl (fun l p => l.give bin p) σ.ledger
  | .binRemove _ element, removed, l =>
      l = if (removed : Bool) then σ.ledger.drop element else σ.ledger
  | .objectUnref object, _, l => l = σ.ledger.unref object
  | .elementGetStaticPad element _, p, l => σ.Finds .pad element p l
  | .padGetPeer _, p, l => ∃ owner, σ.Finds .pad owner p l
  | .elementReleaseRequestPad _ pad, _, l => l = σ.ledger.drop pad
  | .pipelineGetBus pipeline, p, l => σ.Finds .bus pipeline p l
  | .busAddWatch _, id, l =>
      l = if (id : ℕ) = 0 then σ.ledger
        else { σ.ledger with watches := id :: σ.ledger.watches }
  | .sourceRemove id, _, l => l = { σ.ledger with watches := σ.ledger.watches.erase id }
  | _, _, l => l = σ.ledger

/-- The calls of a thread as steps, on the shared state as in `performPlayer` and on the books as in
`Books`. -/
def Performs (t : Thread) (σ : Site) (c : PlayerCall) (r : c.Resp) (σ' : Site) : Prop :=
  σ.shared.performPlayer t c r = some σ'.shared ∧
    match c, r with
    | .gst g _, r => σ.Books g r σ'.ledger
    | _, _ => σ'.ledger = σ.ledger

/-- Before `main`: no object and no watch is on the books, and the shared state is the initial one.
-/
def initial : Site := ⟨.initial, ⟨fun _ => none, []⟩⟩

end Site

/-! ### The outcomes of an execution -/

instance Kind.decidableFails : (k : Kind) → (v : k.Val) → Decidable (k.Fails v)
  | .void, _ => .isFalse id
  | .pointer, p => inferInstanceAs (Decidable (p = NULL))
  | .gboolean, b => inferInstanceAs (Decidable (b = false))
  | .guint, _ => .isFalse id
  | .stateChange, _ => .isFalse id

/-- Did the call succeed?  Nothing if the program does not test it, or if it is not a call of
GStreamer. -/
def PlayerCall.outcome : (c : PlayerCall) → c.Resp → Option Bool
  | .gst g true, r => some (!decide (g.kind.Fails r))
  | _, _ => none

/-- The outcomes of the tested calls, in order: what the program knows of how far it has come. -/
def outcomes (tr : Prog.Trace PlayerCall PlayerCall.Resp) : List Bool :=
  tr.filterMap fun x => x.1.outcome x.2

section Outcomes

variable {g : GstCall} {r : g.kind.Val} {tr : Prog.Trace PlayerCall PlayerCall.Resp}

@[simp] theorem outcomes_tested :
    outcomes (⟨.gst g true, r⟩ :: tr) = (!decide (g.kind.Fails r)) :: outcomes tr := rfl

@[simp] theorem outcomes_untested : outcomes (⟨.gst g false, r⟩ :: tr) = outcomes tr := rfl

@[simp] theorem outcomes_store {f : PtrField} {p : Ptr} {u : Unit} :
    outcomes (⟨.store f p, u⟩ :: tr) = outcomes tr := rfl

end Outcomes

/-! ### What calls leave on the books -/

namespace Ledger

variable {l : Ledger} {p q k : Ptr} {f : Object → Object}

theorem book_modify_self : (l.modify p f).book p = (l.book p).map f := by
  simp [modify]

theorem book_modify_ne (h : q ≠ p) : (l.modify p f).book q = l.book q := by
  simp [modify, h]

/-- The object is on the books, whether it is still there or not.  Such an address is not used
again. -/
def Knows (l : Ledger) (p : Ptr) : Prop := (l.book p).isSome

theorem knows_modify (h : l.Knows q) : (l.modify p f).Knows q := by
  by_cases hq : q = p
  · subst hq
    simpa [Knows, book_modify_self] using h
  · rwa [Knows, book_modify_ne hq]

theorem knows_create {kind : ObjectKind} {owner : Ptr} (h : l.Knows q) :
    (l.create p kind owner).Knows q := by
  by_cases hq : q = p
  · simp [Knows, create, hq]
  · simpa [Knows, create, hq] using h

theorem knows_ref {kind : ObjectKind} {owner : Ptr} (h : l.Knows q) :
    (l.ref p kind owner).Knows q := by
  unfold ref
  split
  · exact knows_create h
  · exact knows_modify h

theorem knows_give_all {bin : Ptr} (h : l.Knows q) (ps : List Ptr) :
    (ps.foldl (fun l p => l.give bin p) l).Knows q := by
  induction ps generalizing l with
  | nil => exact h
  | cons p ps ih => exact ih (knows_modify h)

/-- The program holds the element: it has a reference of its own to it, whoever else may hold it. -/
def Keeps (l : Ledger) (k : Ptr) : Prop :=
  ∃ o, l.book k = some o ∧ o.kind = .element ∧ 0 < o.refs

theorem Keeps.of_book {l' : Ledger} (h : l.Keeps k) (hbook : l'.book k = l.book k) :
    l'.Keeps k := by
  obtain ⟨o, ho, hrest⟩ := h
  exact ⟨o, hbook.trans ho, hrest⟩

/-- What is kept stays kept by a change of any entry that takes no reference away and leaves the
kind as it is. -/
theorem Keeps.modify (h : l.Keeps k) (hf : ∀ o, (f o).kind = o.kind ∧ o.refs ≤ (f o).refs) :
    (l.modify p f).Keeps k := by
  by_cases hk : k = p
  · obtain ⟨o, ho, hkind, hrefs⟩ := h
    subst hk
    refine ⟨f o, by rw [book_modify_self, ho]; rfl, (hf o).1.trans hkind, ?_⟩
    exact Nat.lt_of_lt_of_le hrefs (hf o).2
  · exact h.of_book (book_modify_ne hk)

theorem Keeps.create {kind : ObjectKind} {owner : Ptr} (h : l.Keeps k) (hp : l.book p = none) :
    (l.create p kind owner).Keeps k := by
  obtain ⟨o, ho, -⟩ := id h
  have hk : k ≠ p := by
    rintro rfl
    rw [ho] at hp
    cases hp
  exact h.of_book (by simp [Ledger.create, hk])

theorem Keeps.ref {kind : ObjectKind} {owner : Ptr} (h : l.Keeps k) :
    (l.ref p kind owner).Keeps k := by
  unfold Ledger.ref
  split
  · exact h.create ‹_›
  · exact h.modify fun o => ⟨rfl, Nat.le_succ _⟩

theorem Keeps.give_all {bin : Ptr} (h : l.Keeps k) {ps : List Ptr} (hk : k ∉ ps) :
    (ps.foldl (fun l p => l.give bin p) l).Keeps k := by
  induction ps generalizing l with
  | nil => exact h
  | cons p ps ih =>
      rw [List.mem_cons, not_or] at hk
      exact ih (h.of_book (book_modify_ne hk.1)) hk.2

/-- The program has at least one reference to what it keeps. -/
theorem Keeps.refs_pos (h : l.Keeps k) : 0 < l.refs k := by
  obtain ⟨o, ho, -, hrefs⟩ := h
  simpa [refs, ho] using hrefs

theorem refs_of_not_knows (h : ¬ l.Knows p) : l.refs p = 0 := by
  have hnone : l.book p = none := by simpa [Knows] using h
  simp [refs, hnone]

end Ledger

/-- The calls that give away a reference to the object, to a bin, to an element, or back to
GStreamer. -/
def GstCall.Releases : GstCall → Ptr → Prop
  | .elementAddPad _ pad, k => k = pad
  | .binAdd _ element, k => k = element
  | .binAddMany _ elements, k => k ∈ elements
  | .objectUnref object, k => k = object
  | _, _ => False

/-- The response is the pointer; a response that is no pointer is none of them. -/
def Kind.IsPtr : (kind : Kind) → kind.Val → Ptr → Prop
  | .pointer, p, k => k = p
  | _, _, _ => False

namespace Site

variable {σ σ' : Site} {kind : ObjectKind} {owner p q k : Ptr} {l : Ledger}

theorem Creates.knows (h : σ.Creates kind p l) (hq : σ.ledger.Knows q) : l.Knows q := by
  rcases h with ⟨-, rfl⟩ | ⟨-, rfl⟩
  · exact hq
  · exact Ledger.knows_create hq

theorem Finds.knows (h : σ.Finds kind owner p l) (hq : σ.ledger.Knows q) : l.Knows q := by
  rcases h with ⟨-, rfl⟩ | ⟨-, -, rfl⟩
  · exact hq
  · exact Ledger.knows_ref hq

theorem Creates.keeps (h : σ.Creates kind p l) (hk : σ.ledger.Keeps k) : l.Keeps k := by
  rcases h with ⟨-, rfl⟩ | ⟨hp, rfl⟩
  · exact hk
  · exact hk.create hp.2.1

theorem Finds.keeps (h : σ.Finds kind owner p l) (hk : σ.ledger.Keeps k) : l.Keeps k := by
  rcases h with ⟨-, rfl⟩ | ⟨-, -, rfl⟩
  · exact hk
  · exact hk.ref

theorem Fresh.ne (h : σ.Fresh p) (hk : σ.ledger.Keeps k) : k ≠ p := by
  rintro rfl
  obtain ⟨o, ho, -⟩ := hk
  rw [h.2.1] at ho
  cases ho

theorem Creates.ne (h : σ.Creates kind p l) (hnull : k ≠ NULL) (hk : σ.ledger.Keeps k) : k ≠ p := by
  rcases h with ⟨rfl, -⟩ | ⟨hp, -⟩
  · exact hnull
  · exact hp.ne hk

/-- A call that looks for a pad or a bus does not return an element that is kept. -/
theorem Finds.ne (h : σ.Finds kind owner p l) (hkind : kind ≠ .element) (hnull : k ≠ NULL)
    (hk : σ.ledger.Keeps k) : k ≠ p := by
  rcases h with ⟨rfl, -⟩ | ⟨-, hp | ⟨o, ho, rfl⟩, -⟩
  · exact hnull
  · exact hp.ne hk
  · rintro rfl
    obtain ⟨o', ho', hkind', -⟩ := hk
    rw [ho] at ho'
    cases ho'
    exact hkind hkind'

variable {g : GstCall} {r : g.kind.Val}

/-- No call strikes an object off the books, so an address that is known is never given to a new
object. -/
theorem Books.knows (h : σ.Books g r l) (hq : σ.ledger.Knows q) : l.Knows q := by
  cases g
  case pipelineNew | binNew | elementFactoryMake | ghostPadNewNoTarget =>
    exact Creates.knows h hq
  case elementGetStaticPad | pipelineGetBus => exact Finds.knows h hq
  case padGetPeer =>
    obtain ⟨owner, h⟩ := h
    exact Finds.knows h hq
  case elementAddPad | binAdd | binRemove =>
    cases h
    split
    · exact Ledger.knows_modify hq
    · exact hq
  case binAddMany =>
    obtain ⟨added, -, rfl⟩ := h
    exact Ledger.knows_give_all hq added
  case objectUnref | elementReleaseRequestPad =>
    cases h
    exact Ledger.knows_modify hq
  case busAddWatch =>
    cases h
    split
    · exact hq
    · exact hq
  all_goals
    cases h
    exact hq

/-- A call that does not release what the program keeps leaves it kept, whatever it returns. -/
theorem Books.keeps (h : σ.Books g r l) (hk : σ.ledger.Keeps k) (hg : ¬ g.Releases k) :
    l.Keeps k := by
  cases g
  case pipelineNew | binNew | elementFactoryMake | ghostPadNewNoTarget =>
    exact Creates.keeps h hk
  case elementGetStaticPad | pipelineGetBus => exact Finds.keeps h hk
  case padGetPeer =>
    obtain ⟨owner, h⟩ := h
    exact Finds.keeps h hk
  case elementAddPad | binAdd =>
    cases h
    split
    · exact hk.of_book (Ledger.book_modify_ne hg)
    · exact hk
  case binAddMany =>
    obtain ⟨added, hadded, rfl⟩ := h
    exact hk.give_all fun hmem => hg (hadded.subset hmem)
  case binRemove =>
    cases h
    split
    · exact hk.modify fun o => ⟨rfl, Nat.le_refl _⟩
    · exact hk
  case objectUnref =>
    cases h
    exact hk.of_book (Ledger.book_modify_ne hg)
  case elementReleaseRequestPad =>
    cases h
    exact hk.modify fun o => ⟨rfl, Nat.le_refl _⟩
  case busAddWatch =>
    cases h
    split
    · exact hk
    · exact hk
  all_goals
    cases h
    exact hk

/-- No call returns an element that is kept: constructors return new objects, and what is looked up
is a pad or a bus. -/
theorem Books.ne (h : σ.Books g r l) (hnull : k ≠ NULL) (hk : σ.ledger.Keeps k) :
    ¬ g.kind.IsPtr r k := by
  cases g
  case pipelineNew | binNew | elementFactoryMake | ghostPadNewNoTarget =>
    exact Creates.ne h hnull hk
  case elementGetStaticPad | pipelineGetBus => exact Finds.ne h nofun hnull hk
  case padGetPeer =>
    obtain ⟨owner, h⟩ := h
    exact Finds.ne h nofun hnull hk
  all_goals exact id

end Site

end LeipoCode.Player
