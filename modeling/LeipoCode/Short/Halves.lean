import LeipoCode.Short.Model

/-!
# The top and the bottom half

The top half leaves the time of an interrupt in `tv_data`, and the bottom half prints what it finds
there.  Neither looks at what the other is about: the top half moves `tv_head` whether or not there
is room, and the bottom half prints one time before it looks whether there is any.

* `no_time_is_left` — as long as a time waits, **the bottom half is queued or at work**, or is about
  to be queued, whatever interrupts what;
* `times_in_order` — **every time is printed once, and in order**, if no bottom half is called in
  vain and less than 512 times wait;
* `bottom_half_prints` — a bottom half that nothing interrupts prints the times that wait, and if it
  is called in vain **all 512 times of the array once more**; `bottom_half_only_prints` says that it
  can do nothing else.

### Which conditions are needed where

The first result holds in every reachable state and with any number of bottom halves at work; it
only asks who is going to look.  It is a relay (`Lib.Threads`): the task to look for times is handed
from the top half that has stored one to the queued bottom half, and from there to the loop, whose
last look is at `bhTest`.

The second one is about whole runs, and needs `Worthwhile`.  A bottom half that is called in vain
prints old times again, which happens when an interrupt comes after the loop has begun and before it
has looked for the last time (`bottom_half_in_vain` is such a run); a time stored when 511 wait
makes the array look empty; and two bottom halves at work, which only the function of a work queue
could be, print a time twice.

The third one is about a single call and needs no condition.  `bottomHalf` is the driver in which a
thread that makes the call does nothing else, and as it is deterministic, that some run ends so
(`half_runs`) and that every run ends so are the same.

### How the order is shown

The top half and the bottom half are two locks of `Lib.Threads` (`Half`), each of which one thread
has at a time: the handlers of one line do not interrupt each other, and `Worthwhile` keeps the
bottom halves apart.  What the lock protects is the order of the times (`protects`), and what its
holder may rely on is in `allows`.  They are not locks against each other: every statement of one
half has to keep what the other one relies on (`TopStep.obeys`, `BottomStep.obeys`), and it does
because the top half writes behind the times that wait and moves the head only, and the bottom half
reads in front and moves the tail only.

The history that goes along (`Log`) has three entries, since a time is taken, entered and printed at
three moments, and an interrupt of the one half by the other may come between any two of them.

For a call that nothing interrupts there is one thread and one state, so its result is a
computation: `stamp_loop` runs the loop by induction on the passes that are left, and the number of
passes is the number of steps after which tail and head meet, which is 512 if they are equal at the
start.
-/

namespace LeipoCode.Short

open RingBuffer Threads

variable {ι : Type}

/-! ### The times that wait -/

/-- How many times wait in `tv_data`: the distance from `tv_tail` to `tv_head`, going round. -/
def Shared.waiting (s : Shared ι) : ℕ := used NR_TIMEVAL s.tvTail s.tvHead

/-- The times that wait, the oldest first: from `tv_tail` to `tv_head`, going round. -/
def Shared.times (s : Shared ι) : List Timeval := contents s.tvData NR_TIMEVAL s.tvTail s.waiting

/-- `short_incr_tv` is the step of a ring of 512 places, as `Lib.RingBuffer` has it. -/
theorem incrTv_eq_mod {p : ℕ} (hp : p < NR_TIMEVAL) : incrTv p = (p + 1) % NR_TIMEVAL := by
  have hsize : NR_TIMEVAL - 1 + 1 = NR_TIMEVAL := rfl
  unfold incrTv
  split_ifs with heq
  · rw [heq, hsize, Nat.mod_self]
  · rw [Nat.mod_eq_of_lt (by omega)]

theorem incrTv_lt {p : ℕ} (hp : p < NR_TIMEVAL) : incrTv p < NR_TIMEVAL := by
  rw [incrTv_eq_mod hp]
  exact Nat.mod_lt _ (Nat.zero_lt_of_lt hp)

/-- Equal positions mean that no time waits, which is how the last test of the loop reads them. -/
theorem times_of_empty {s : Shared ι} (hempty : s.tvHead = s.tvTail) : s.times = [] := by
  rw [Shared.times, Shared.waiting, hempty, used_self]
  rfl

/-- As long as head and tail differ, the first time that waits is the one at the tail: the one the
bottom half prints next. -/
theorem times_first {s : Shared ι} (hhead : s.tvHead < NR_TIMEVAL) (htail : s.tvTail < NR_TIMEVAL)
    (hwait : s.tvTail ≠ s.tvHead) :
    0 < s.waiting ∧ s.times = s.tvData s.tvTail :: s.times.drop 1 := by
  have hpos : 0 < s.waiting :=
    Nat.pos_of_ne_zero (mt (used_eq_zero_iff htail hhead).mp hwait)
  have hfirst : slice s.tvData s.tvTail 1 = s.times.take 1 := slice_eq_take htail hpos
  refine ⟨hpos, ?_⟩
  rw [← List.singleton_append, show [s.tvData s.tvTail] = s.times.take 1 from hfirst,
    List.take_append_drop]

/-! ### Nothing is left lying -/

/-- About to queue the bottom half, or in it and to look for more times: a time that waits there
will be printed. -/
def Pc.carries : Pc → Bool
  | topSchedule | bhCount | bhZero _ | bhSprintf _ | bhAdvance _ | bhStamp | bhStampAdvance _
  | bhIncr | bhTest => true
  | _ => false

section Waiting

variable {h : Handler} {t : ι} {s s' : Shared ι} {k k' : Pc} {e : Event}

/-- What a statement does for the times that wait: after it, either nobody needs to look, or the
bottom half is queued, or this thread is going to look, or things are as they were before and it was
not up to this thread. -/
abbrev Carries (s : Shared ι) (k : Pc) (s' : Shared ι) (k' : Pc) : Prop :=
  s'.tvHead ≠ s'.tvTail → s'.scheduled = true ∨ k'.carries = true ∨
    s.tvHead ≠ s.tvTail ∧ ¬ s.scheduled = true ∧ k.carries = false

/-- A statement of a thread that carries nothing, and that leaves the positions and the queued
bottom half as they are, drops nothing either. -/
theorem carries_same (hk : k.carries = false)
    (hsame : (s'.tvHead, s'.tvTail, s'.scheduled) = (s.tvHead, s.tvTail, s.scheduled)) :
    Carries s k s' k' := by
  simp only [Prod.mk.injEq] at hsame
  obtain ⟨hhead, htail, hscheduled⟩ := hsame
  intro hwait
  rw [hhead, htail] at hwait
  by_cases hs : s.scheduled = true
  · exact .inl (hscheduled.trans hs)
  · exact .inr (.inr ⟨hwait, hs, hk⟩)

/-- The top half takes the task on when it moves the head, and hands it over when it queues the
bottom half. -/
theorem TopStep.carries (hstep : TopStep s k e s' k') : Carries s k s' k' := by
  cases hstep with
  | incr => exact fun _ => .inr (.inl rfl)
  | schedule => exact fun _ => .inl rfl
  | call | time | count | store | done => exact carries_same rfl rfl

/-- The bottom half has the task from its call to the last test of its loop, and is rid of it only
if that test finds the array empty. -/
theorem BottomStep.carries (hstep : BottomStep h s k e s' k') : Carries s k s' k' := by
  cases hstep with
  | last hempty => exact fun hwait => absurd hempty.symm hwait
  | wake | done => exact carries_same rfl rfl
  | call | count | zero | sprintf | advance | stamp | stampAdvance | incr | more =>
      exact fun _ => .inr (.inl rfl)

variable [DecidableEq ι]

/-- **No statement drops the task to look for times.**  The one to watch is the last test of the
loop, which ends the bottom half only if it finds none; what comes in later is queued anew by the
top half that brings it. -/
theorem Step.carries (hstep : Step h t s k e s' k') : Carries s k s' k' := by
  cases hstep with
  | interrupt _ hstep => cases hstep <;> exact carries_same rfl rfl
  | top _ hstep => exact hstep.carries
  | bottom _ hstep => exact hstep.carries
  | readCall | read => exact carries_same rfl rfl

end Waiting

/-- The task is handed on as a relay, in the sense of `Lib.Threads`. -/
theorem times_relay [DecidableEq ι] (h : Handler) : Relay (short h ι) (fun _ _ _ => True)
    (fun s => s.tvHead ≠ s.tvTail) (fun s => s.scheduled = true) Pc.carries where
  init := by
    rintro s ⟨cells, rfl⟩ hwait
    exact absurd rfl hwait
  step _ _ _ _ _ _ hstep _ := Step.carries hstep

/-- **No time is left lying**, in any reachable state and with any handler: as long as one waits
(`hwait`), the bottom half is queued, is at work and will look for it, or is about to be queued by
the top half that has stored it.  That the kernel runs a queued bottom half is its own affair. -/
theorem no_time_is_left [DecidableEq ι] {h : Handler} {s : State ι (Shared ι) Pc}
    (hreach : (short h ι).lts.Reachable s) (hwait : s.shared.times ≠ []) :
    s.shared.scheduled = true ∨ ∃ t, (s.pc t).carries = true :=
  (times_relay h).goes_on (fun _ _ _ => trivial) hreach fun heq => hwait (times_of_empty heq)

/-- An interrupt comes while no other is being handled, and its top half runs to the end: a time is
stored and the bottom half is queued. -/
theorem interrupt_comes [DecidableEq ι] {h : Handler} (hh : h.halves = true) (t : ι)
    {s : Shared ι} (hirq : s.irq = true) :
    ∃ es s', Solo (short h ι) t s .idle es s' .idle ∧ s'.irq = true ∧ s'.scheduled = true ∧
      s'.resting = s.resting ∧ s'.tvHead = incrTv s.tvHead ∧ s'.tvTail = s.tvTail := by
  have hrun := Solo.start (T := short h ι) (t := t) (s := s) (k := .idle)
    |>.next (.top hh (.call hirq))
    |>.next (.top hh (@TopStep.time _ _ .zero))
    |>.next (.top hh .incr)
    |>.next (.top hh .schedule)
    |>.next (.top hh .count)
    |>.next (.top hh .store)
    |>.next (.top hh .done)
  exact ⟨_, _, hrun, rfl, rfl, rfl, rfl, rfl⟩

/-- After the first interrupt its time waits, and the bottom half that is to print it is queued. -/
theorem no_time_is_left_first : ∃ s : State Unit (Shared Unit) Pc,
    s.shared.times ≠ [] ∧ (s.shared.scheduled = true ∨ ∃ t, (s.pc t).carries = true) := by
  obtain ⟨es, s, hrun, -, -, -, hhead, htail⟩ :=
    interrupt_comes (h := .wq) rfl () (s := Shared.initial fun _ => 0) rfl
  have hwait : s.times ≠ [] := by
    have hpos : 0 < s.times.length := by
      rw [Shared.times, length_contents, Shared.waiting, hhead, htail]
      decide
    exact List.ne_nil_of_length_pos hpos
  exact ⟨_, hwait, no_time_is_left (hrun.reachable ⟨_, rfl⟩) hwait⟩

/-! ### The order -/

namespace Event

/-- The time of an interrupt. -/
def taken : Event → List Timeval
  | time tv => [tv]
  | _ => []

/-- The time that `tv_head` moves over, which from then on waits. -/
def entry : Event → List Timeval
  | entered tv => [tv]
  | _ => []

/-- A time that is printed. -/
def stamped : Event → List Timeval
  | stamp _ tv => [tv]
  | _ => []

end Event

/-- The times that were taken, that were entered in `tv_data`, and that were printed: the history
that is kept beside the state.  A time is taken and entered in two statements, so the first list may
be ahead of the second. -/
structure Log where
  taken : List Timeval
  entered : List Timeval
  stamped : List Timeval

/-- The history after one more event. -/
def Log.note (g : Log) (e : Event) : Log :=
  ⟨g.taken ++ e.taken, g.entered ++ e.entry, g.stamped ++ e.stamped⟩

/-- The history that goes along with a run, read off the events of the run: three lists, one for
each moment in the life of a time. -/
theorem foldl_log (es : List Event) (g : Log) :
    es.foldl Log.note g = ⟨g.taken ++ es.flatMap Event.taken, g.entered ++ es.flatMap Event.entry,
      g.stamped ++ es.flatMap Event.stamped⟩ := by
  induction es generalizing g with
  | nil => simp only [List.foldl_nil, List.flatMap_nil, List.append_nil]
  | cons e es ih => simp only [List.foldl_cons, ih, Log.note, List.flatMap_cons, List.append_assoc]

/-- A run in which no bottom half is called in vain, or while another one is at work (`bottom`), and
no time is stored over one that waits (`time`).  The driver sees to none of the three. -/
def Worthwhile (s : Shared ι) (_ : Pc) : Event → Prop
  | .bottom => s.resting = true ∧ s.tvTail ≠ s.tvHead
  | .time _ => s.waiting + 1 < NR_TIMEVAL
  | _ => True

namespace Pc

/-- In the top half: the one handler that is at work. -/
def onTop : Pc → Bool
  | topTime | topIncr | topSchedule | topCount | topStore _ | topEnd => true
  | _ => false

/-- In the bottom half, from its call to its end. -/
def onBottom : Pc → Bool
  | bhCount | bhZero _ | bhSprintf _ | bhAdvance _ | bhStamp | bhStampAdvance _ | bhIncr | bhTest
  | bhWake | bhEnd => true
  | _ => false

end Pc

/-- What the top half may rely on: between `do_gettimeofday` and the move of `tv_head`, the time it
has taken is in the place that is entered next. -/
def Entering (s : Shared ι) (g : Log) : Pc → Prop
  | .topIncr => g.taken = g.entered ++ [s.tvData s.tvHead] ∧ s.waiting + 1 < NR_TIMEVAL
  | _ => g.taken = g.entered

/-- How many of the times that wait are printed already: between the `sprintf` and the move of
`tv_tail` it is the first of them. -/
def Pc.printed : Pc → ℕ
  | bhStampAdvance _ | bhIncr => 1
  | _ => 0

/-- What the bottom half may rely on: it finds a time, or has just printed it. -/
def Stamping (s : Shared ι) (g : Log) (k : Pc) : Prop :=
  g.entered = g.stamped ++ s.times.drop k.printed ∧
    (k ≠ .bhTest → k ≠ .bhWake → k ≠ .bhEnd → s.tvTail ≠ s.tvHead)

/-- What is kept in order: the positions, and what each half may rely on.  The halves interrupt each
other, so each has its own part of the invariant; `ring` is the part of nobody. -/
inductive Half
  | ring
  | top
  | bottom

namespace Half

/-- Nobody is in that half, as the kernel knows it; nobody is ever in the array. -/
def free : Half → Shared ι × Log → Bool
  | ring, _ => true
  | top, s => s.1.irq
  | bottom, s => s.1.resting

/-- The thread at that point is in that half. -/
def inside : Half → Pc → Bool
  | ring => fun _ => false
  | top => Pc.onTop
  | bottom => Pc.onBottom

/-- What holds while nobody is in that half: the times taken are those entered, and those entered
were printed or wait. -/
def protects : Half → Shared ι × Log → Prop
  | ring, s => s.1.tvHead < NR_TIMEVAL ∧ s.1.tvTail < NR_TIMEVAL
  | top, s => s.2.taken = s.2.entered
  | bottom, s => s.2.entered = s.2.stamped ++ s.1.times

/-- What the thread in that half may rely on, since the other half leaves it alone. -/
def allows : Half → Pc → Shared ι × Log → Prop
  | ring, _, _ => True
  | top, k, s => Entering s.1 s.2 k
  | bottom, k, s => Stamping s.1 s.2 k

end Half

/-- What a thread at that point may rely on, of all that is kept in order. -/
abbrev Follows (k : Pc) (s : Shared ι × Log) : Prop :=
  Sees Half.free Half.inside Half.protects Half.allows k s

/-- A statement does right by a half, in the sense of `LockStep`: each half is a lock that one
thread has at a time. -/
abbrev Obeys (x : Half) (s : Shared ι × Log) (k : Pc) (s' : Shared ι × Log) (k' : Pc) : Prop :=
  LockStep x.free x.inside x.protects x.allows s k s' k'

section Statements

variable {h : Handler} {t : ι} {s s' : Shared ι} {k k' : Pc} {e : Event} {g : Log}

/-- The array and the positions in it, which are all that the two halves share. -/
def Shared.array (s : Shared ι) : (ℕ → Timeval) × ℕ × ℕ := (s.tvData, s.tvHead, s.tvTail)

/-- What waits is a matter of the array and the two positions alone. -/
theorem times_of_array (harray : s'.array = s.array) :
    s'.times = s.times ∧ s'.waiting = s.waiting := by
  simp only [Shared.array, Prod.mk.injEq] at harray
  obtain ⟨hdata, hhead, htail⟩ := harray
  rw [Shared.times, Shared.times, Shared.waiting, Shared.waiting, hdata, hhead, htail]
  exact ⟨rfl, rfl⟩

/-- The time of an interrupt is stored behind those that wait, at the head, where it does not touch
any of them, and it is not one of them until the head moves. -/
theorem times_store (hhead : s.tvHead < NR_TIMEVAL) (htail : s.tvTail < NR_TIMEVAL)
    (hroom : s.waiting + 1 < NR_TIMEVAL) (tv : Timeval) :
    Shared.times { s with tvData := store s.tvData s.tvHead [tv] } = s.times :=
  contents_store_free htail (add_used_mod htail hhead) hroom.le

/-- When the head moves on by a place, the time in that place is the last of those that wait. -/
theorem times_enter (hhead : s.tvHead < NR_TIMEVAL) (htail : s.tvTail < NR_TIMEVAL)
    (hroom : s.waiting + 1 < NR_TIMEVAL) (hdata : s'.tvData = s.tvData)
    (hnext : s'.tvHead = incrTv s.tvHead) (hstays : s'.tvTail = s.tvTail) :
    s'.times = s.times ++ [s.tvData s.tvHead] ∧ s'.waiting = s.waiting + 1 := by
  have hwaiting : s'.waiting = s.waiting + 1 := by
    rw [Shared.waiting, hnext, hstays, incrTv_eq_mod hhead]
    exact used_write htail hhead hroom
  refine ⟨?_, hwaiting⟩
  rw [Shared.times, hwaiting, hdata, hstays]
  exact contents_add (add_used_mod htail hhead) hhead

/-- When the tail moves on by a place, the first of the times no longer waits, and the others do. -/
theorem times_leave (hhead : s.tvHead < NR_TIMEVAL) (htail : s.tvTail < NR_TIMEVAL)
    (hwait : s.tvTail ≠ s.tvHead) (hdata : s'.tvData = s.tvData) (hstays : s'.tvHead = s.tvHead)
    (hnext : s'.tvTail = incrTv s.tvTail) :
    s'.times = s.times.drop 1 ∧ s'.waiting = s.waiting - 1 := by
  have hpos := (times_first hhead htail hwait).1
  have hwaiting : s'.waiting = s.waiting - 1 := by
    rw [Shared.waiting, hnext, hstays, incrTv_eq_mod htail]
    exact used_read htail hhead hpos
  refine ⟨?_, hwaiting⟩
  rw [Shared.times, hwaiting, hdata, hnext, incrTv_eq_mod htail]
  exact contents_advance hpos

/-- What the top half relies on is in the array, and survives what leaves the array alone. -/
theorem Entering.of_array (h : Entering s g k) (harray : s'.array = s.array) :
    Entering s' g k := by
  have hwaiting := (times_of_array harray).2
  simp only [Shared.array, Prod.mk.injEq] at harray
  cases k with
  | topIncr =>
      refine ⟨?_, ?_⟩
      · rw [harray.1, harray.2.1]
        exact h.1
      · rw [hwaiting]
        exact h.2
  | _ => exact h

/-- What the bottom half relies on is in the array too, and survives the same. -/
theorem Stamping.of_array (h : Stamping s g k) (harray : s'.array = s.array) :
    Stamping s' g k := by
  have htimes := (times_of_array harray).1
  simp only [Shared.array, Prod.mk.injEq] at harray
  refine ⟨?_, ?_⟩
  · rw [htimes]
    exact h.1
  · rw [harray.2.1, harray.2.2]
    exact h.2

/-- A statement whose event is about none of the three lists adds nothing to the history. -/
theorem note_nothing (hevent : (e.taken, e.entry, e.stamped) = ([], [], [])) : g.note e = g := by
  simp only [Prod.mk.injEq] at hevent
  simp only [Log.note, hevent, List.append_nil]

/-- A silent statement adds nothing to the history; most statements are silent. -/
theorem Log.note_silent : g.note .silent = g := note_nothing rfl

/-- A statement that leaves the two positions alone keeps them inside the array. -/
theorem obeys_ring (hhead : s'.tvHead = s.tvHead) (htail : s'.tvTail = s.tvTail) :
    Obeys .ring (s, g) k (s', g.note e) k' := by
  refine .outside rfl rfl rfl (fun ⟨hh, ht⟩ => ⟨?_, ?_⟩) fun j hj => by cases hj
  · exact hhead ▸ hh
  · exact htail ▸ ht

/-- A statement outside the top half does right by it, if it leaves the array alone and takes and
enters no time. -/
theorem obeys_top_same (hk : k.onTop = false) (hk' : k'.onTop = false) (hirq : s'.irq = s.irq)
    (harray : s'.array = s.array) (hevent : (e.taken, e.entry) = ([], [])) :
    Obeys .top (s, g) k (s', g.note e) k' := by
  simp only [Prod.mk.injEq] at hevent
  have htaken : (g.note e).taken = g.taken := by
    rw [Log.note, hevent.1, List.append_nil]
  have hentered : (g.note e).entered = g.entered := by
    rw [Log.note, hevent.2, List.append_nil]
  refine .outside hk hk' hirq (fun hR => htaken.trans (Eq.trans hR hentered.symm)) fun j _ hj => ?_
  have hj := Entering.of_array hj harray
  cases j with
  | topIncr => exact ⟨by rw [htaken, hentered]; exact hj.1, hj.2⟩
  | _ => exact htaken.trans (Eq.trans hj hentered.symm)

/-- A statement outside the bottom half does right by it, if it leaves the array alone and neither
enters nor prints a time. -/
theorem obeys_bottom_same (hk : k.onBottom = false) (hk' : k'.onBottom = false)
    (hresting : s'.resting = s.resting) (harray : s'.array = s.array)
    (hevent : (e.entry, e.stamped) = ([], [])) : Obeys .bottom (s, g) k (s', g.note e) k' := by
  simp only [Prod.mk.injEq] at hevent
  have hentered : (g.note e).entered = g.entered := by
    rw [Log.note, hevent.1, List.append_nil]
  have hstamped : (g.note e).stamped = g.stamped := by
    rw [Log.note, hevent.2, List.append_nil]
  refine .outside hk hk' hresting (fun hR => ?_) fun j _ hj => ?_
  · change (g.note e).entered = (g.note e).stamped ++ s'.times
    rw [hentered, hstamped, (times_of_array harray).1]
    exact hR
  · have hj := Stamping.of_array hj harray
    refine ⟨?_, hj.2⟩
    change (g.note e).entered = (g.note e).stamped ++ _
    rw [hentered, hstamped]
    exact hj.1

/-- A statement of the bottom half that neither prints nor moves the tail. -/
theorem obeys_bottom_within (hk : k.onBottom = true) (hk' : k'.onBottom = true)
    (hresting : s'.resting = s.resting) (harray : s'.array = s.array)
    (hevent : (e.taken, e.entry, e.stamped) = ([], [], [])) (hprinted : k'.printed = k.printed)
    (hwait : Stamping s g k → k' ≠ .bhTest → k' ≠ .bhWake → k' ≠ .bhEnd → s.tvTail ≠ s.tvHead) :
    Obeys .bottom (s, g) k (s', g.note e) k' := by
  refine .within hk hk' hresting fun h => ?_
  rw [note_nothing hevent]
  exact Stamping.of_array ⟨hprinted ▸ h.1, hwait h⟩ harray

/-- What a half may rely on when the bottom half has not got further. -/
theorem Stamping.extend {j : Pc} {xs : List Timeval} (h : Stamping s g j)
    (hrange : s.tvHead < NR_TIMEVAL ∧ s.tvTail < NR_TIMEVAL) (htimes : s'.times = s.times ++ xs)
    (hwaits : s.tvTail ≠ s.tvHead → s'.tvTail ≠ s'.tvHead) {g' : Log}
    (hentered : g'.entered = g.entered ++ xs) (hstamped : g'.stamped = g.stamped) :
    Stamping s' g' j := by
  refine ⟨?_, fun h₁ h₂ h₃ => hwaits (h.2 h₁ h₂ h₃)⟩
  have hprinted : j.printed ≤ s.times.length := by
    have hone (hwait : s.tvTail ≠ s.tvHead) : 1 ≤ s.times.length := by
      rw [Shared.times, length_contents]
      exact (times_first hrange.1 hrange.2 hwait).1
    cases j with
    | bhStampAdvance | bhIncr => exact hone (h.2 nofun nofun nofun)
    | _ => exact Nat.zero_le _
  rw [hentered, hstamped, htimes, List.drop_append_of_le_length hprinted, h.1, List.append_assoc]

/-- The top half does right by both.  To the bottom half it only adds times behind those that wait,
and `Stamping.extend` says that this is all the same to it. -/
theorem TopStep.obeys (hstep : TopStep s k e s' k') (hworth : Worthwhile s k e)
    (hK : Follows k (s, g)) (x : Half) : Obeys x (s, g) k (s', g.note e) k' := by
  have hrange : s.tvHead < NR_TIMEVAL ∧ s.tvTail < NR_TIMEVAL := (hK .ring).2 rfl
  cases x with
  | ring =>
      cases hstep with
      | incr =>
          exact .outside rfl rfl rfl (fun ⟨hhead, htail⟩ => ⟨incrTv_lt hhead, htail⟩)
            fun j hj => by cases hj
      | call | time | schedule | count | store | done => exact obeys_ring rfl rfl
  | top =>
      cases hstep with
      | call hfree => exact .enter rfl rfl hfree rfl fun hR => Log.note_silent.symm ▸ hR
      | @time tv =>
          refine .within rfl rfl rfl fun (htaken : g.taken = g.entered) => ⟨?_, ?_⟩
          · have hstored : some (RingBuffer.store s.tvData s.tvHead [tv] s.tvHead) = some tv :=
              store_inside s.tvData s.tvHead (i := 0) Nat.one_pos
            change g.taken ++ [tv] = g.entered ++ [] ++
              [RingBuffer.store s.tvData s.tvHead [tv] s.tvHead]
            rw [htaken, List.append_nil, Option.some.inj hstored]
          · exact hworth
      | incr =>
          refine .within rfl rfl rfl fun ⟨htaken, _⟩ => ?_
          exact (List.append_nil _).trans htaken
      | schedule | count | store =>
          exact .within rfl rfl rfl fun h => Log.note_silent.symm ▸ h
      | done => exact .leave rfl rfl rfl fun h => Log.note_silent.symm ▸ h
  | bottom =>
      cases hstep with
      | @time tv =>
          have htimes := times_store hrange.1 hrange.2 hworth tv
          have hnone (xs : List Timeval) : xs = xs ++ [] := (List.append_nil xs).symm
          refine .outside rfl rfl rfl (fun hR => ?_) fun j _ hj => ?_
          · change g.entered ++ [] = g.stamped ++ [] ++ _
            rw [htimes, List.append_nil, List.append_nil]
            exact hR
          · exact hj.extend hrange (htimes.trans (hnone _)) id rfl (List.append_nil _)
      | incr =>
          obtain ⟨-, hroom⟩ : _ ∧ s.waiting + 1 < NR_TIMEVAL := (hK .top).1 rfl
          have hmoved (s' : Shared ι) (hdata : s'.tvData = s.tvData)
              (hnext : s'.tvHead = incrTv s.tvHead) (hstays : s'.tvTail = s.tvTail) :
              s'.times = s.times ++ [s.tvData s.tvHead] ∧ s'.tvTail ≠ s'.tvHead := by
            obtain ⟨htimes, hwaiting⟩ :=
              times_enter hrange.1 hrange.2 hroom hdata hnext hstays
            refine ⟨htimes, fun heq => ?_⟩
            rw [Shared.waiting, heq, used_self] at hwaiting
            cases hwaiting
          obtain ⟨htimes, hwait⟩ := hmoved { s with tvHead := incrTv s.tvHead } rfl rfl rfl
          refine .outside rfl rfl rfl (fun hR => ?_) fun j _ hj => ?_
          · change g.entered ++ [s.tvData s.tvHead] = g.stamped ++ [] ++ _
            rw [htimes, List.append_nil, ← List.append_assoc]
            exact congrArg (· ++ [s.tvData s.tvHead]) hR
          · exact hj.extend hrange htimes (fun _ => hwait) rfl (List.append_nil _)
      | call | schedule | count | store | done => exact obeys_bottom_same rfl rfl rfl rfl rfl

/-- The bottom half does right by both.  It needs that a time waits when it prints one, which is so
at its beginning because it is not called in vain, and afterwards because it has looked. -/
theorem BottomStep.obeys (hstep : BottomStep h s k e s' k') (hworth : Worthwhile s k e)
    (hK : Follows k (s, g)) (x : Half) : Obeys x (s, g) k (s', g.note e) k' := by
  have hrange : s.tvHead < NR_TIMEVAL ∧ s.tvTail < NR_TIMEVAL := (hK .ring).2 rfl
  cases x with
  | ring =>
      cases hstep with
      | incr =>
          exact .outside rfl rfl rfl (fun ⟨hhead, htail⟩ => ⟨hhead, incrTv_lt htail⟩)
            fun j hj => by cases hj
      | _ => exact obeys_ring rfl rfl
  | top =>
      cases hstep with
      | incr =>
          have hwait : s.tvTail ≠ s.tvHead := ((hK .bottom).1 rfl).2 nofun nofun nofun
          have hless (s' : Shared ι) (hdata : s'.tvData = s.tvData)
              (hstays : s'.tvHead = s.tvHead) (hnext : s'.tvTail = incrTv s.tvTail) :
              s'.waiting ≤ s.waiting := by
            rw [(times_leave hrange.1 hrange.2 hwait hdata hstays hnext).2]
            exact Nat.sub_le _ _
          have hle := hless { s with tvTail := incrTv s.tvTail } rfl rfl rfl
          refine .outside rfl rfl rfl (fun hR => Log.note_silent.symm ▸ hR) fun j _ hj => ?_
          rw [note_nothing rfl]
          cases j with
          | topIncr => exact ⟨hj.1, (Nat.add_le_add_right hle 1).trans_lt hj.2⟩
          | _ => exact hj
      | _ => exact obeys_top_same rfl rfl rfl rfl rfl
  | bottom =>
      cases hstep with
      | call =>
          obtain ⟨hresting, hwait⟩ : s.resting = true ∧ s.tvTail ≠ s.tvHead := hworth
          refine .enter rfl rfl hresting rfl fun hR => ⟨?_, fun _ _ _ => hwait⟩
          rw [note_nothing rfl]
          exact hR
      | count | zero | sprintf | advance | stampAdvance =>
          exact obeys_bottom_within rfl rfl rfl rfl rfl rfl fun h _ _ _ => h.2 nofun nofun nofun
      | stamp =>
          refine .within rfl rfl rfl fun h => ⟨?_, fun _ _ _ => h.2 nofun nofun nofun⟩
          have hfirst := (times_first hrange.1 hrange.2 (h.2 nofun nofun nofun)).2
          change g.entered ++ [] = g.stamped ++ [s.tvData s.tvTail] ++ s.times.drop 1
          rw [List.append_nil, List.append_assoc, List.singleton_append, ← hfirst]
          exact h.1
      | incr =>
          refine .within rfl rfl rfl fun h => ⟨?_, fun hne => absurd rfl hne⟩
          have hwait : s.tvTail ≠ s.tvHead := h.2 nofun nofun nofun
          have hleft (s' : Shared ι) (hdata : s'.tvData = s.tvData)
              (hstays : s'.tvHead = s.tvHead) (hnext : s'.tvTail = incrTv s.tvTail) :
              s'.times = s.times.drop 1 :=
            (times_leave hrange.1 hrange.2 hwait hdata hstays hnext).1
          rw [note_nothing rfl, hleft { s with tvTail := incrTv s.tvTail } rfl rfl rfl]
          exact h.1
      | more hwait => exact obeys_bottom_within rfl rfl rfl rfl rfl rfl fun _ _ _ _ => hwait
      | last =>
          exact obeys_bottom_within rfl rfl rfl rfl rfl rfl fun _ _ hne => absurd rfl hne
      | wake =>
          exact obeys_bottom_within rfl rfl rfl rfl rfl rfl fun _ _ _ hne => absurd rfl hne
      | done =>
          refine .leave rfl rfl rfl fun h => ?_
          rw [note_nothing rfl]
          exact h.1

variable [DecidableEq ι]

/-- **Every statement does right by both halves**, in a run that is worth while: the step lemma of
the invariant. -/
theorem Step.obeys (hstep : Step h t s k e s' k') (hh : h.halves = true)
    (hworth : Worthwhile s k e) (hK : Follows k (s, g)) (x : Half) :
    Obeys x (s, g) k (s', g.note e) k' := by
  cases hstep with
  | interrupt hno => exact absurd (hno.symm.trans hh) Bool.false_ne_true
  | top _ hstep => exact hstep.obeys hworth hK x
  | bottom _ hstep => exact hstep.obeys hworth hK x
  | readCall =>
      cases x with
      | ring => exact obeys_ring rfl rfl
      | top => exact obeys_top_same rfl rfl rfl rfl rfl
      | bottom => exact obeys_bottom_same rfl rfl rfl rfl rfl
  | @read b k k' e =>
      have hout : (k'.elim Pc.idle .read).onTop = false ∧
          (k'.elim Pc.idle .read).onBottom = false := by
        cases k' <;> exact ⟨rfl, rfl⟩
      cases x with
      | ring => exact obeys_ring rfl rfl
      | top => exact obeys_top_same rfl hout.1 rfl rfl rfl
      | bottom => exact obeys_bottom_same rfl hout.2 rfl rfl rfl

end Statements

section Order

variable [DecidableEq ι] {h : Handler} {s s₀ : State ι (Shared ι) Pc} {ls : List (ι × Event)}

/-- The driver as long as it is worth while, with the history beside its state. -/
def logged (h : Handler) (ι : Type) [DecidableEq ι] : Threads ι (Shared ι × Log) Pc Event :=
  ((short h ι).restrict Worthwhile).track Log.note ⟨[], [], []⟩

/-- Both halves keep what they should, initially and by every statement. -/
theorem halves_guarded (hh : h.halves = true) (x : Half) :
    Guarded (logged h ι) (fun _ => Follows) x.free x.inside x.protects x.allows where
  start := by cases x <;> rfl
  init := by
    rintro ⟨s, g⟩ ⟨⟨cells, hs⟩, hg⟩
    have hs : s = .initial cells := hs
    have hg : g = ⟨[], [], []⟩ := hg
    subst hs hg
    have hpos : 0 < NR_TIMEVAL := by decide
    cases x with
    | ring => exact ⟨rfl, hpos, hpos⟩
    | top => exact ⟨rfl, rfl⟩
    | bottom =>
        refine ⟨rfl, ?_⟩
        change [] = [] ++ contents (fun _ => Timeval.zero) NR_TIMEVAL 0 (used NR_TIMEVAL 0 0)
        rw [used_self]
        rfl
  step := by
    rintro t ⟨s, g⟩ k e ⟨s', g'⟩ k' ⟨⟨hworth, hstep⟩, hg⟩ hK
    have hg : g' = g.note e := hg
    subst hg
    exact Step.obeys hstep hh hworth hK x

/-- The times of the interrupts of a run, as the top half has taken them. -/
def taken (ls : List (ι × Event)) : List Timeval := ls.flatMap fun l => l.2.taken

/-- The times that are printed in a run. -/
def stamped (ls : List (ι × Event)) : List Timeval := ls.flatMap fun l => l.2.stamped

/-- **Every time is printed once, and in order**: the times of the interrupts are those that were
printed, then those that wait but for the first `n`, then `current`.  `n` is one while the first of
them is printed and `tv_tail` has not moved yet, and `current` is the time of an interrupt whose top
half has not moved `tv_head` yet; at rest both are nothing.  `hh` says that the driver has two
halves, and `hrun` that the run is `Worthwhile`. -/
theorem times_in_order (hh : h.halves = true) (hinit : (short h ι).lts.init s₀)
    (hrun : ((short h ι).restrict Worthwhile).lts.Run s₀ ls s) :
    ∃ n current, taken ls = stamped ls ++ s.shared.times.drop n ++ current ∧
      n ≤ 1 ∧ current.length ≤ 1 ∧
        (s.shared.resting = true → n = 0) ∧ (s.shared.irq = true → current = []) := by
  have hreach : (logged h ι).lts.Reachable ⟨(s.shared, _), s.pc⟩ :=
    reachable_track hinit hrun
  rw [foldl_log] at hreach
  simp only [List.nil_append, List.flatMap_map] at hreach
  have htop : ∃ current, taken ls = ls.flatMap (fun l => l.2.entry) ++ current ∧
      current.length ≤ 1 ∧ (s.shared.irq = true → current = []) := by
    rcases Guarded.held_all (halves_guarded hh) hreach .top with ⟨-, hsettled, -⟩ |
      ⟨hbusy, t, ht, hentering, -⟩
    · exact ⟨[], by rw [List.append_nil]; exact hsettled, Nat.zero_le _, fun _ => rfl⟩
    · have hidle (hfree : s.shared.irq = true) : False :=
        Bool.false_ne_true (Eq.trans (Eq.symm hbusy) hfree)
      change Entering _ _ (s.pc t) at hentering
      generalize s.pc t = k at hentering
      cases k with
      | topIncr => exact ⟨_, hentering.1, le_rfl, fun hfree => (hidle hfree).elim⟩
      | _ => exact ⟨[], by rw [List.append_nil]; exact hentering, Nat.zero_le _, fun _ => rfl⟩
  have hbottom : ∃ n, ls.flatMap (fun l => l.2.entry) = stamped ls ++ s.shared.times.drop n ∧
      n ≤ 1 ∧ (s.shared.resting = true → n = 0) := by
    rcases Guarded.held_all (halves_guarded hh) hreach .bottom with ⟨-, hsettled, -⟩ |
      ⟨hbusy, t, ht, hstamping, -⟩
    · exact ⟨0, hsettled, Nat.zero_le _, fun _ => rfl⟩
    · have hidle (hfree : s.shared.resting = true) : False :=
        Bool.false_ne_true (Eq.trans (Eq.symm hbusy) hfree)
      refine ⟨_, hstamping.1, ?_, fun hfree => (hidle hfree).elim⟩
      change (s.pc t).printed ≤ 1
      generalize s.pc t = k
      cases k <;> first | exact Nat.zero_le _ | exact le_rfl
  obtain ⟨current, htaken, hone, hfree⟩ := htop
  obtain ⟨n, hentered, hn, hrest⟩ := hbottom
  exact ⟨n, current, by rw [htaken, hentered], hn, hone, hrest, hfree⟩

/-- A statement that is worth while is one of the driver under that condition. -/
theorem Step.worthwhile {t : ι} {s s' : Shared ι} {k k' : Pc} {e : Event}
    (hstep : Step h t s k e s' k') (hworth : Worthwhile s k e) :
    ((short h ι).restrict Worthwhile).step t s k e s' k' := ⟨hworth, hstep⟩

/-- One interrupt and its bottom half: the time is taken, entered and printed. -/
theorem times_in_order_one : ∃ (s : State Unit (Shared Unit) Pc) (ls : List (Unit × Event)),
    stamped ls = [.zero] ∧
      ∃ n current, taken ls = stamped ls ++ s.shared.times.drop n ++ current ∧
        n ≤ 1 ∧ current.length ≤ 1 ∧
          (s.shared.resting = true → n = 0) ∧ (s.shared.irq = true → current = []) := by
  have hrun := Solo.start (T := (short .wq Unit).restrict Worthwhile) (t := ())
      (s := .initial fun _ => 0) (k := .idle)
    |>.next (Step.worthwhile (.top rfl (.call rfl)) trivial)
    |>.next (Step.worthwhile (.top rfl (@TopStep.time _ _ .zero))
      (show used NR_TIMEVAL 0 0 + 1 < NR_TIMEVAL by decide))
    |>.next (Step.worthwhile (.top rfl .incr) trivial)
    |>.next (Step.worthwhile (.top rfl .schedule) trivial)
    |>.next (Step.worthwhile (.top rfl .count) trivial)
    |>.next (Step.worthwhile (.top rfl .store) trivial)
    |>.next (Step.worthwhile (.top rfl .done) trivial)
    |>.next (Step.worthwhile (.bottom rfl (.call rfl fun _ => rfl)) ⟨rfl, by decide⟩)
    |>.next (Step.worthwhile (.bottom rfl .count) trivial)
    |>.next (Step.worthwhile (.bottom rfl .zero) trivial)
    |>.next (Step.worthwhile (.bottom rfl .sprintf) trivial)
    |>.next (Step.worthwhile (.bottom rfl .advance) trivial)
    |>.next (Step.worthwhile (.bottom rfl .stamp) trivial)
    |>.next (Step.worthwhile (.bottom rfl .stampAdvance) trivial)
    |>.next (Step.worthwhile (.bottom rfl .incr) trivial)
    |>.next (Step.worthwhile (.bottom rfl (.last rfl)) trivial)
    |>.next (Step.worthwhile (.bottom rfl .wake) trivial)
    |>.next (Step.worthwhile (.bottom rfl .done) trivial)
  exact ⟨_, _, by exact rfl, times_in_order rfl ⟨⟨_, rfl⟩, fun _ => rfl⟩ hrun.run_start⟩

end Order

/-! ### A call of the bottom half -/

section Calls

variable [DecidableEq ι] {h : Handler}

/-- The positions are those of the array, in every reachable state: no time is stored or read behind
it. -/
theorem inside_array {s : State ι (Shared ι) Pc} (hreach : (short h ι).lts.Reachable s) :
    s.shared.tvHead < NR_TIMEVAL ∧ s.shared.tvTail < NR_TIMEVAL := by
  have hpos : 0 < NR_TIMEVAL := by decide
  refine invariant_shared (I := fun s => s.tvHead < NR_TIMEVAL ∧ s.tvTail < NR_TIMEVAL)
    ?_ ?_ hreach
  · rintro s ⟨cells, rfl⟩
    exact ⟨hpos, hpos⟩
  · rintro t s k e s' k' ⟨hhead, htail⟩ hstep
    cases hstep with
    | interrupt _ hstep => cases hstep <;> exact ⟨hhead, htail⟩
    | top _ hstep =>
        cases hstep with
        | incr => exact ⟨incrTv_lt hhead, htail⟩
        | _ => exact ⟨hhead, htail⟩
    | bottom _ hstep =>
        cases hstep with
        | incr => exact ⟨hhead, incrTv_lt htail⟩
        | _ => exact ⟨hhead, htail⟩
    | readCall | read => exact ⟨hhead, htail⟩

/-- The statements of a bottom half that is at work: the condition on a run in which nothing
interrupts it. -/
def AtWork (_ : Shared ι) (k : Pc) (_ : Event) : Prop := k.onBottom = true

/-- One call of `short_do_tasklet`: whoever makes it does nothing else, and nobody interrupts. -/
def bottomHalf (h : Handler) (ι : Type) [DecidableEq ι] : Threads ι (Shared ι) Pc Event :=
  (short h ι).restrict AtWork

omit [DecidableEq ι] in
/-- The bottom half is deterministic: what it does next, and to what state, is decided by the state
and the place it is at. -/
theorem BottomStep.determined {s s₁ s₂ : Shared ι} {k k₁ k₂ : Pc} {e₁ e₂ : Event}
    (h₁ : BottomStep h s k e₁ s₁ k₁) (h₂ : BottomStep h s k e₂ s₂ k₂) :
    e₁ = e₂ ∧ s₁ = s₂ ∧ k₁ = k₂ := by
  cases h₁ with
  | more hwait =>
      cases h₂ with
      | more => exact ⟨rfl, rfl, rfl⟩
      | last hempty => exact absurd hempty hwait
  | last hempty =>
      cases h₂ with
      | more hwait => exact absurd hempty hwait
      | last => exact ⟨rfl, rfl, rfl⟩
  | _ =>
      cases h₂
      exact ⟨rfl, rfl, rfl⟩

/-- In the driver in which the threads only run the bottom half, a statement of a thread is one of
the bottom half. -/
theorem bottomHalf_step {t : ι} {s s' : Shared ι} {k k' : Pc} {e : Event}
    (hstep : (bottomHalf h ι).step t s k e s' k') : BottomStep h s k e s' k' := by
  obtain ⟨hwork, hstep⟩ := hstep
  have hwork : k.onBottom = true := hwork
  cases hstep with
  | interrupt _ hstep => cases hstep <;> cases hwork
  | top _ hstep => cases hstep <;> cases hwork
  | bottom _ hstep => exact hstep
  | readCall | read => cases hwork

/-- At each point the bottom half can do one thing only, so a call of it that nobody interrupts ends
in one way only. -/
theorem bottomHalf_determined (t : ι) : (bottomHalf h ι).Determined t :=
  fun _ _ _ _ _ _ _ _ h₁ h₂ => (bottomHalf_step h₁).determined (bottomHalf_step h₂)

/-- One pass of the loop, up to its condition: the time at the tail is printed and the tail moves
on. -/
theorem stamp_pass (hh : h.halves = true) (t : ι) (s : Shared ι) : ∃ es b,
    Solo (bottomHalf h ι) t s .bhStamp es { s with buffer := b, tvTail := incrTv s.tvTail }
        .bhTest ∧
      es.flatMap Event.stamped = [s.tvData s.tvTail] := by
  have hrun := Solo.start (T := bottomHalf h ι) (t := t) (s := s) (k := .bhStamp)
    |>.next ⟨rfl, .bottom hh .stamp⟩
    |>.next ⟨rfl, .bottom hh .stampAdvance⟩
    |>.next ⟨rfl, .bottom hh .incr⟩
  exact ⟨_, _, hrun, rfl⟩

omit [DecidableEq ι] in
/-- The times from the tail on are the one at the tail, which a pass of the loop prints, and what
follows from the next place on. -/
theorem contents_tail {s : Shared ι} (htail : s.tvTail < NR_TIMEVAL) (j : ℕ) :
    contents s.tvData NR_TIMEVAL s.tvTail (j + 1) =
      [s.tvData s.tvTail] ++ contents s.tvData NR_TIMEVAL (incrTv s.tvTail) j := by
  rw [contents_succ, Nat.mod_eq_of_lt htail, incrTv_eq_mod htail, List.singleton_append]

/-- What comes before the loop: the count is taken, cleared and printed. -/
theorem half_begins (hh : h.halves = true) (t : ι) (s : Shared ι) : ∃ es b,
    Solo (bottomHalf h ι) t s .bhCount es { s with buffer := b, wqCount := 0 } .bhStamp ∧
      es.flatMap Event.stamped = [] := by
  have hrun := Solo.start (T := bottomHalf h ι) (t := t) (s := s) (k := .bhCount)
    |>.next ⟨rfl, .bottom hh .count⟩
    |>.next ⟨rfl, .bottom hh .zero⟩
    |>.next ⟨rfl, .bottom hh .sprintf⟩
    |>.next ⟨rfl, .bottom hh .advance⟩
  exact ⟨_, _, hrun, rfl⟩

/-- What comes after the loop, if nothing interrupts it: the readers are woken, the bottom half is
at rest again, and nothing more is printed. -/
theorem half_ends (hh : h.halves = true) (t : ι) (s : Shared ι) : ∃ es b,
    Solo (bottomHalf h ι) t s .bhWake es { s with buffer := b, resting := true } .idle ∧
      es.flatMap Event.stamped = [] := by
  have hrun := Solo.start (T := bottomHalf h ι) (t := t) (s := s) (k := .bhWake)
    |>.next ⟨rfl, .bottom hh .wake⟩
    |>.next ⟨rfl, .bottom hh .done⟩
  exact ⟨_, _, hrun, rfl⟩

/-- The loop, `j` times more after the first: it prints `j + 1` times from the tail on, where `j` is
the first number of steps after which the tail meets the head.  The induction is on `j`. -/
theorem stamp_loop (hh : h.halves = true) (t : ι) (j : ℕ) {s : Shared ι}
    (htail : s.tvTail < NR_TIMEVAL) (hend : (s.tvTail + (j + 1)) % NR_TIMEVAL = s.tvHead)
    (hmore : ∀ i, 0 < i → i ≤ j → (s.tvTail + i) % NR_TIMEVAL ≠ s.tvHead) : ∃ es s',
      Solo (bottomHalf h ι) t s .bhStamp es s' .bhWake ∧
        es.flatMap Event.stamped = contents s.tvData NR_TIMEVAL s.tvTail (j + 1) ∧
          s'.tvTail = s'.tvHead := by
  induction j generalizing s with
  | zero =>
      obtain ⟨es, b, hpass, hstamped⟩ := stamp_pass hh t s
      have hlast : incrTv s.tvTail = s.tvHead := (incrTv_eq_mod htail).trans hend
      refine ⟨_, _, hpass.next ⟨rfl, .bottom hh (.last hlast)⟩, ?_, hlast⟩
      rw [List.flatMap_append, hstamped, contents_tail htail]
      rfl
  | succ j ih =>
      obtain ⟨es, b, hpass, hstamped⟩ := stamp_pass hh t s
      have hmod (i : ℕ) :
          (incrTv s.tvTail + i) % NR_TIMEVAL = (s.tvTail + (i + 1)) % NR_TIMEVAL := by
        rw [incrTv_eq_mod htail, Nat.mod_add_mod, Nat.add_assoc, Nat.add_comm 1]
      have hnext : incrTv s.tvTail ≠ s.tvHead := by
        rw [incrTv_eq_mod htail]
        exact hmore 1 Nat.one_pos (Nat.le_add_left 1 j)
      obtain ⟨es', s', hloop, hstamped', hdone⟩ :=
        ih (s := { s with buffer := b, tvTail := incrTv s.tvTail }) (incrTv_lt htail)
          ((hmod (j + 1)).trans hend)
          fun i hi hij => (hmod i).trans_ne (hmore (i + 1) i.succ_pos (Nat.succ_le_succ hij))
      refine ⟨_, s', (hpass.next ⟨rfl, .bottom hh (.more hnext)⟩).trans hloop, ?_, hdone⟩
      rw [List.flatMap_append, List.flatMap_append, hstamped, hstamped', contents_tail htail,
        List.append_assoc]
      rfl

/-- What a call does from the start to the end.  If a time waits, the tail meets the head after as
many steps as times wait; if none does, it has to go round. -/
theorem half_runs {s : Shared ι} (hh : h.halves = true) (t : ι) (hhead : s.tvHead < NR_TIMEVAL)
    (htail : s.tvTail < NR_TIMEVAL) : ∃ es s', Solo (bottomHalf h ι) t s .bhCount es s' .idle ∧
      es.flatMap Event.stamped =
        (if s.tvTail = s.tvHead then contents s.tvData NR_TIMEVAL s.tvTail NR_TIMEVAL
        else s.times) ∧
      s'.tvTail = s'.tvHead := by
  obtain ⟨j, hj, hend, hprints⟩ : ∃ j, j < NR_TIMEVAL ∧
      (s.tvTail + (j + 1)) % NR_TIMEVAL = s.tvHead ∧
        (s.tvTail = s.tvHead ∧ j + 1 = NR_TIMEVAL ∨ s.tvTail ≠ s.tvHead ∧ j + 1 = s.waiting) := by
    by_cases heq : s.tvTail = s.tvHead
    · refine ⟨NR_TIMEVAL - 1, by decide, ?_, .inl ⟨heq, rfl⟩⟩
      rw [← heq, show NR_TIMEVAL - 1 + 1 = NR_TIMEVAL from rfl, Nat.add_mod_right,
        Nat.mod_eq_of_lt htail]
    · obtain ⟨hpos, -⟩ := times_first hhead htail heq
      have hlt : s.waiting < NR_TIMEVAL := used_lt (Nat.zero_lt_of_lt hhead)
      have hpred : s.waiting - 1 + 1 = s.waiting := Nat.sub_add_cancel hpos
      refine ⟨s.waiting - 1, (Nat.sub_le _ _).trans_lt hlt, ?_, .inr ⟨heq, hpred⟩⟩
      rw [hpred]
      exact add_used_mod htail hhead
  -- the tail does not meet the head before
  have hmore (i : ℕ) (hi : 0 < i) (hij : i ≤ j) : (s.tvTail + i) % NR_TIMEVAL ≠ s.tvHead := by
    intro hmeets
    have hwaiting : s.waiting = i := used_of_add_mod htail (hij.trans_lt hj) hmeets
    rcases hprints with ⟨heq, -⟩ | ⟨-, hcount⟩
    · rw [Shared.waiting, heq, used_self] at hwaiting
      omega
    · omega
  obtain ⟨es₁, b₁, hbegins, hnone₁⟩ := half_begins hh t s
  obtain ⟨es₂, s₂, hloop, hstamped, hdone⟩ :=
    stamp_loop hh t j (s := { s with buffer := b₁, wqCount := 0 }) htail hend hmore
  obtain ⟨es₃, b₃, hends, hnone₃⟩ := half_ends hh t s₂
  refine ⟨_, _, (hbegins.trans hloop).trans hends, ?_, hdone⟩
  rw [List.flatMap_append, List.flatMap_append, hnone₁, hstamped, hnone₃, List.nil_append,
    List.append_nil]
  rcases hprints with ⟨heq, hcount⟩ | ⟨hne, hcount⟩
  · rw [if_pos heq, ← hcount]
  · rw [if_neg hne, Shared.times, ← hcount]

/-- **What the bottom half prints** if nothing interrupts it: it comes to its end with the array
empty, and has printed the times that waited, or, called in vain, all that `tv_data` has.  The state
is any that the driver can be in (`hreach`), whatever has happened before. -/
theorem bottom_half_prints {s : State ι (Shared ι) Pc} {t : ι} (hh : h.halves = true)
    (hreach : (short h ι).lts.Reachable s) : ∃ es s',
      Solo (short h ι) t s.shared .bhCount es s' .idle ∧
        es.flatMap Event.stamped =
          (if s.shared.tvTail = s.shared.tvHead then
            contents s.shared.tvData NR_TIMEVAL s.shared.tvTail NR_TIMEVAL
          else s.shared.times) ∧
        s'.tvTail = s'.tvHead := by
  obtain ⟨hhead, htail⟩ := inside_array hreach
  obtain ⟨es, s', hrun, hprints⟩ := half_runs hh t hhead htail
  exact ⟨es, s', hrun.of_restrict, hprints⟩

/-- An interrupt that comes while its bottom half is at work has it called in vain: its time is
printed by the pass that is under way, but the tasklet is queued again, and then prints 512 times
that were printed before. -/
theorem bottom_half_in_vain : ∃ s : State Bool (Shared Bool) Pc,
    s.pc false = .bhCount ∧ s.shared.times = [] ∧ ∃ es s',
      Solo (short .tl Bool) false s.shared .bhCount es s' .idle ∧
        (es.flatMap Event.stamped).length = 512 := by
  -- the first interrupt, and a part of its bottom half
  obtain ⟨es₁, s₁, hfirst, hirq, hscheduled, hresting, hhead, htail⟩ :=
    interrupt_comes (h := .tl) rfl true (s := Shared.initial fun _ => 0) rfl
  have hreach₁ := hfirst.reachable ⟨_, rfl⟩
  obtain ⟨es₂, b₂, hbegins, -⟩ := half_begins (h := .tl) rfl false
    { s₁ with scheduled := false, resting := false }
  obtain ⟨es₃, b₃, hpass, -⟩ := stamp_pass (h := .tl) rfl false
    { s₁ with buffer := b₂, wqCount := 0, scheduled := false, resting := false }
  have hcall : Solo (short .tl Bool) false s₁ .idle _ _ .bhCount :=
    .next .start (.bottom rfl (.call hscheduled fun _ => hresting))
  have hfirst := (hcall.trans hbegins.of_restrict).trans hpass.of_restrict
  have hreach₂ := hfirst.reachable_of rfl hreach₁
  -- the second one, which queues another
  obtain ⟨es₄, s₄, hsecond, -, hscheduled', hresting', hhead', htail'⟩ :=
    interrupt_comes (h := .tl) rfl true (s := { s₁ with
      buffer := b₃, tvTail := incrTv s₁.tvTail, wqCount := 0, scheduled := false
      resting := false }) hirq
  have hreach₃ := hsecond.reachable_of rfl hreach₂
  -- the rest of the bottom half
  have hhead₄ : s₄.tvHead = incrTv (incrTv 0) := hhead'.trans (congrArg incrTv hhead)
  have htail₄ : s₄.tvTail = incrTv 0 := htail'.trans (congrArg incrTv htail)
  have hmore : s₄.tvTail ≠ s₄.tvHead := by
    rw [htail₄, hhead₄]
    decide
  have hlast : incrTv s₄.tvTail = s₄.tvHead := by
    rw [htail₄, hhead₄]
  obtain ⟨es₅, b₅, hpass', -⟩ := stamp_pass (h := .tl) rfl false s₄
  obtain ⟨es₆, b₆, hends, -⟩ := half_ends (h := .tl) rfl false
    { s₄ with buffer := b₅, tvTail := incrTv s₄.tvTail }
  have hgoes : Solo (short .tl Bool) false s₄ .bhTest _ _ .bhStamp :=
    .next .start (.bottom rfl (.more hmore))
  have hrest :=
    ((hgoes.trans hpass'.of_restrict).next (.bottom rfl (.last hlast))).trans hends.of_restrict
  have hagain := hrest.next (.bottom rfl (.call hscheduled' fun _ => rfl))
  have hreach₄ := hagain.reachable_of rfl hreach₃
  -- which finds nothing
  obtain ⟨es, s', hvain, hstamped, -⟩ := bottom_half_prints (t := false) rfl hreach₄
  refine ⟨_, rfl, times_of_empty hlast.symm, es, s', hvain, ?_⟩
  rw [hstamped, if_pos hlast, length_contents]
  rfl

/-- **It can do nothing else**: however the bottom half runs from the call to the end without being
interrupted (`hrun`), this is what it has printed, for it is deterministic. -/
theorem bottom_half_only_prints {s : State ι (Shared ι) Pc} {t : ι} {es : List Event}
    {s' : Shared ι} (hh : h.halves = true) (hreach : (short h ι).lts.Reachable s)
    (hrun : Solo (bottomHalf h ι) t s.shared .bhCount es s' .idle) :
    es.flatMap Event.stamped =
        (if s.shared.tvTail = s.shared.tvHead then
          contents s.shared.tvData NR_TIMEVAL s.shared.tvTail NR_TIMEVAL
        else s.shared.times) ∧
      s'.tvTail = s'.tvHead := by
  obtain ⟨hhead, htail⟩ := inside_array hreach
  obtain ⟨es₁, s₁, hrun₁, hprints⟩ := half_runs hh t hhead htail
  have hidle (s : Shared ι) (e : Event) (s' : Shared ι) (k' : Pc) :
      ¬ (bottomHalf h ι).step t s .idle e s' k' := fun hstep => Bool.false_ne_true hstep.1
  obtain ⟨rfl, rfl⟩ := Solo.unique (bottomHalf_determined t) hidle hrun₁ hrun
  exact hprints

end Calls

end LeipoCode.Short
