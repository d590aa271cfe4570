import LeipoCode.Shortprint.Output

/-!
# The output goes on

Three things that could stall do not: the output itself, a process that waits in `shortp_release`
for it to end, and a writer that waits for space.

* `output_goes_on` — while there is something to print, **output is active and will go on**: the
  timer is pending, or the work is queued, or a thread is at it; or the writer is about to start the
  output;
* `closer_sleeps` — who waits in `shortp_release` waits for output that is active, or is about to be
  woken;
* `waits_for_space` — who waits for space finds the page half full at least, or is about to be
  woken, if the tail does not come round between the two looks of `shortp_out_space`.

### Output that is active

The first result has two halves.  Output that is active is driven: the task to print the next byte
is handed from the work function to the timer and the interrupt, and back (`output_relay`).  It may
be in several hands at once and interrupts may get lost; what matters is that the timer is set
before the byte is given away, and is only deleted when output ends.  And with a byte in the page,
output is active (`Fed`): the work function ends it only when it finds the page empty, under the
spin lock, and whoever has put a byte there since has yet to take this lock and start it again.

### A wait without the lock

The writers do not take the spin lock to look at the space, so their wait rests on the order of the
looks alone.  A writer that has found none, with both looks at the same lap, goes to sleep over a
page that is full; it is woken when half of the page has been printed, and it may be woken at each
byte from then on.  `Steady` excludes that the tail comes round to the start between the two looks,
in which case the writer finds no space in a page that may be empty, and sleeps until something else
is printed.

### Which rules are used

The first half of the first result is a relay of `Lib.Threads`: somebody has the task to go on, or a
timer or the work queue will call somebody who then has it.  Each statement either keeps the task,
hands it on, or makes output inactive.  The second half is an invariant of the page and the flag
(`Fed`), shown case by case of what a statement does to the two (`Feeds`).

The two other results are about wait queues (`Lib.WaitQueue`), one without a condition and one with.
For the writers the state says whether a wake-up is owed, and not the program point alone: the work
function wakes them only if it finds more than half of the page free, and this is decided by where
the tail is when it looks (`WriterOwes`, `HalfFull`).
-/

namespace LeipoCode.Shortprint

open RingBuffer Short Threads

variable {ι : Type} [DecidableEq ι]

/-- In every reachable state every thread knows what its locks let it know. -/
theorem knows_of_reachable {s : State ι (Shared ι × Ledger) Pc}
    (h : (recorded ι).lts.Reachable s) (t : ι) : Knows (s.pc t) s.shared :=
  sees_of_held (locks_held h) t

/-! ### Who sees to it that output goes on -/

/-- On the way to queue the work, to print a byte, or to end the output: the output does not stall
while somebody is here. -/
def Pc.drives : Pc → Bool
  | workWait | workLock | workTest | workInactive | workModTimer | irqTest | irqTime | irqQueue
  | timeoutTest | timeoutLock => true
  | _ => false

/-- The timer or the work queue will call again.  An interrupt may, too, but it may get lost. -/
def Called (s : Shared ι) : Prop := s.timer = true ∨ s.work = true

section Drive

variable {t : ι} {s s' : Shared ι} {k k' : Pc} {e : Event} {g : Ledger}

/-- What a statement does for output that is active: after it, output is not active, or it will be
called again, or this thread drives it, or it was not up to this thread before. -/
abbrev Drives (s : Shared ι) (k : Pc) (s' : Shared ι) (k' : Pc) : Prop :=
  s'.active = true → Called s' ∨ k'.drives = true ∨ s.active = true ∧ ¬ Called s ∧ k.drives = false

omit [DecidableEq ι] in
/-- A statement of a thread that does not drive it, and leaves the timer and the work alone. -/
theorem drives_same (hk : k.drives = false)
    (hsame : (s'.active, s'.timer, s'.work) = (s.active, s.timer, s.work)) :
    Drives s k s' k' := by
  intro hactive
  simp only [Prod.mk.injEq] at hsame
  by_cases hcalled : Called s
  · exact .inl (hcalled.imp hsame.2.1.trans hsame.2.2.trans)
  · exact .inr (.inr ⟨hsame.1.symm.trans hactive, hcalled, hk⟩)

/-- A writer starts output with the timer set and the work queued. -/
theorem WriteStep.drives (h : WriteStep t s k e s' k') : Drives s k s' k' := by
  cases h with
  | start =>
      unfold Shared.startOutput
      split
      · exact drives_same rfl rfl
      · exact fun _ => .inl (.inl rfl)
  | _ => exact drives_same rfl rfl

omit [DecidableEq ι] in
/-- The work function sets the timer before it gives the byte away, and deletes it only after it has
made output inactive, which it still is then (`Knows`). -/
theorem WorkStep.drives (h : WorkStep s k e s' k') (hK : Knows k (s, g)) : Drives s k s' k' := by
  cases h with
  | call | ready | lock | empty | byte => exact fun _ => .inr (.inl rfl)
  | inactive => exact fun hactive => absurd hactive Bool.false_ne_true
  | delTimer =>
      have hinactive : s.active = false := (hK .spin).1 rfl
      exact fun hactive => absurd (hinactive.symm.trans hactive) Bool.false_ne_true
  | modTimer => exact fun _ => .inl (.inl rfl)
  | wakeEmpty | strobe | wakeOut | noSpace | unlock | sprintf | advance | wake | done =>
      exact drives_same rfl rfl

omit [DecidableEq ι] in
/-- A handler that finds output active queues the work or sets the timer again. -/
theorem HandlerStep.drives (h : HandlerStep s k e s' k') : Drives s k s' k' := by
  cases h with
  | irq | irqActive | irqTime | timeout | timeoutActive | missed => exact fun _ => .inr (.inl rfl)
  | irqNone hinactive | timeoutNone hinactive =>
      exact fun hactive => absurd (hinactive.symm.trans hactive) Bool.false_ne_true
  | irqQueue => exact fun _ => .inl (.inr rfl)
  | busy => exact fun _ => .inl (.inl rfl)

/-- A process that closes the device waits for the output and does nothing to keep it going. -/
theorem CloseStep.drives (h : CloseStep t s k e s' k') : Drives s k s' k' := by
  cases h <;> exact drives_same rfl rfl

/-- **Output that is active stays driven**: the step lemma, one case for each part of the driver. -/
theorem Step.drives (h : Step t s k e s' k') (hK : Knows k (s, g)) : Drives s k s' k' := by
  cases h with
  | write h => exact h.drives
  | work h => exact h.drives hK
  | handler h => exact h.drives
  | close h => exact h.drives
  | readCall | read => exact drives_same rfl rfl

end Drive

/-- The task to go on with the output is handed on as a relay, in the sense of `Lib.Threads`. -/
theorem output_relay : Relay (recorded ι) (fun _ => Knows) (fun s => s.1.active = true)
    (fun s => Called s.1) Pc.drives where
  init := by
    rintro ⟨s, g⟩ ⟨⟨cells, incells, hs⟩, -⟩ hactive
    have hs : s = .initial cells incells := hs
    subst hs
    exact absurd hactive Bool.false_ne_true
  step := by
    rintro t ⟨s, g⟩ k e ⟨s', g'⟩ k' ⟨hstep, -⟩ hK
    exact hstep.drives hK

/-! ### Who starts it -/

/-- With something in the page, output is active and not about to end, or a writer is about to
start it. -/
def Fed (s : State ι (Shared ι × Ledger) Pc) : Prop :=
  s.shared.1.head ≠ s.shared.1.tail →
    (s.shared.1.active = true ∧ ∀ t, s.pc t ≠ .workInactive) ∨ ∃ t c, s.pc t = .writeStart c

section Stall

variable {t : ι} {s s' : Shared ι} {k k' : Pc} {e : Event} {g : Ledger}

/-- What a statement does to that.  The cases are told apart by what they need: only the start of
the output and its end ask for the spin lock. -/
inductive Feeds (s : Shared ι) (k : Pc) (s' : Shared ι) (k' : Pc) : Prop
  /-- Nothing. -/
  | same : (s'.head ≠ s'.tail → s.head ≠ s.tail) → s'.active = s.active → k' ≠ .workInactive →
      (∀ c, k ≠ .writeStart c) → Feeds s k s' k'
  /-- There are more bytes. -/
  | more {c : Call} : k' = .writeStart c → Feeds s k s' k'
  /-- The output is started. -/
  | start : s.lock = true → s'.active = true → k' ≠ .workInactive → Feeds s k s' k'
  /-- There is nothing. -/
  | empty : s'.head = s'.tail → Feeds s k s' k'
  /-- The output is ended. -/
  | ended : (s'.head, s'.tail) = (s.head, s.tail) → k = .workInactive → Feeds s k s' k'

/-- What follows a look at the space is not a point of the work function. -/
theorem next_ne (look : Look) (space : ℤ) (c : Call) : look.next space c ≠ .workInactive := by
  intro heq
  have hin := (next_outside look space c).1
  rw [heq] at hin
  cases hin

/-- A writer puts bytes into the page and is to start the output next. -/
theorem WriteStep.feeds (h : WriteStep t s k e s' k') : Feeds s k s' k' := by
  cases h with
  | advance => exact .more rfl
  | start hfree =>
      refine .start hfree ?_ nofun
      unfold Shared.startOutput
      split
      · assumption
      · rfl
  | spaceTail => exact .same id rfl (next_ne _ _ _) nofun
  | _ => exact .same id rfl nofun nofun

omit [DecidableEq ι] in
/-- The work function takes a byte out, or ends the output of a page that it has found empty.  In
between a writer may have put bytes there; it is then the one to start the output again, for it has
yet to take the spin lock. -/
theorem WorkStep.feeds (h : WorkStep s k e s' k') (hK : Knows k (s, g)) : Feeds s k s' k' := by
  cases h with
  | empty hempty => exact .empty hempty
  | inactive => exact .ended rfl rfl
  | strobe => exact .same (fun _ => (hK .work).1 rfl) rfl nofun nofun
  | _ => exact .same id rfl nofun nofun

/-- Every statement is one of these cases: the step lemma for the bytes that wait for the output to
start. -/
theorem Step.feeds (h : Step t s k e s' k') (hK : Knows k (s, g)) : Feeds s k s' k' := by
  cases h with
  | write h => exact h.feeds
  | work h => exact h.feeds hK
  | handler h => cases h <;> exact .same id rfl nofun nofun
  | close h => cases h <;> exact .same id rfl nofun nofun
  | readCall => exact .same id rfl nofun nofun
  | @read r k k' e h => cases k' <;> exact .same id rfl nofun nofun

end Stall

/-- In every reachable state a page with something in it is fed. -/
theorem fed_of_reachable {s : State ι (Shared ι × Ledger) Pc}
    (h : (recorded ι).lts.Reachable s) : Fed s := by
  induction h with
  | @init s hs =>
      obtain ⟨⟨⟨cells, incells, hs⟩, -⟩, -⟩ := hs
      have hempty : s.shared.1.head = s.shared.1.tail := by rw [hs]; rfl
      exact fun hne => absurd hempty hne
  | @step s s' l hs hstep ih =>
      obtain ⟨k', ⟨hk', -⟩, hpc⟩ := hstep
      have hself := pc_self hpc
      have hothers (t : ι) (ht : t ≠ l.1) : s'.pc t = s.pc t := pc_other hpc ht
      intro hne
      cases hk'.feeds (knows_of_reachable hs l.1) with
      | same hpending hactive hquiet hstart =>
          rcases ih (hpending hne) with ⟨ha, hinactive⟩ | ⟨t, c, ht⟩
          · refine .inl ⟨hactive.trans ha, fun t => ?_⟩
            by_cases ht : t = l.1
            · rwa [ht, hself]
            · rw [hothers t ht]
              exact hinactive t
          · refine .inr ⟨t, c, ?_⟩
            rwa [hothers]
            rintro rfl
            exact hstart c ht
      | more hmore => exact .inr ⟨l.1, _, by rw [hself, hmore]⟩
      | start hfree hactive hquiet =>
          -- whoever is about to end it would have the lock
          refine .inl ⟨hactive, fun t ht => ?_⟩
          by_cases htl : t = l.1
          · exact hquiet (by rw [← hself, ← htl, ht])
          · rw [hothers t htl] at ht
            have hout := ((locks_held hs .spin).of_free hfree).2 t
            rw [ht] at hout
            cases hout
      | empty hempty => exact absurd hempty hne
      | ended hsame hend =>
          simp only [Prod.mk.injEq] at hsame
          rw [hsame.1, hsame.2] at hne
          obtain ⟨t, c, ht⟩ := (ih hne).resolve_left fun ⟨_, hinactive⟩ => hinactive l.1 hend
          refine .inr ⟨t, c, ?_⟩
          rwa [hothers]
          rintro rfl
          rw [hend] at ht
          cases ht

section Results

variable {s : State ι (Shared ι) Pc}

/-- **The output goes on**, in every reachable state and whatever interrupts get lost.  While there
is something to print, a writer is about to start the output, or it is active, nobody is about to
end it, and the timer is pending, the work is queued, or a thread is on its way to queue it, or to
print a byte. -/
theorem output_goes_on (h : (shortprint ι).lts.Reachable s) (hpending : pending s.shared ≠ []) :
    (∃ t c, s.pc t = .writeStart c) ∨
      s.shared.active = true ∧ (∀ t, s.pc t ≠ .workInactive) ∧
        (s.shared.timer = true ∨ s.shared.work = true ∨ ∃ t, (s.pc t).drives = true) := by
  obtain ⟨g, hreach⟩ : ∃ g, (recorded ι).lts.Reachable ⟨(s.shared, g), s.pc⟩ := Reachable.track h
  have hne : s.shared.head ≠ s.shared.tail := by
    intro heq
    apply hpending
    rw [pending, heq, used_self]
    rfl
  rcases fed_of_reachable hreach hne with ⟨hactive, hquiet⟩ | hstart
  · refine .inr ⟨hactive, hquiet, ?_⟩
    exact or_assoc.mp (output_relay.goes_on (fun _ hs t => knows_of_reachable hs t) hreach hactive)
  · exact .inl hstart

/-- Two bytes were written, and nothing is printed yet: the output is active, and the timer is
pending. -/
theorem output_goes_on_two : ∃ s : State Unit (Shared Unit) Pc, pending s.shared = [65, 66] ∧
    ((∃ t c, s.pc t = .writeStart c) ∨
      s.shared.active = true ∧ (∀ t, s.pc t ≠ .workInactive) ∧
        (s.shared.timer = true ∨ s.shared.work = true ∨ ∃ t, (s.pc t).drives = true)) := by
  obtain ⟨es, hrun, -⟩ := written_run
  have hreach := hrun.reachable ⟨_, _, rfl⟩
  exact ⟨_, by exact rfl, output_goes_on hreach (List.cons_ne_nil _ _)⟩

end Results

/-! ### Who waits in `shortp_release` -/

/-- Asleep in `shortp_release`, having seen active output while on the queue. -/
def Pc.closerSleeps : Pc → Bool
  | closeSleep => true
  | _ => false

/-- About to wake them: `shortp_output_active` has just become false. -/
def Pc.closerOwes : Pc → Bool
  | workWakeEmpty => true
  | _ => false

section Closers

variable {t : ι} {s s' : Shared ι} {k k' : Pc} {e : Event}

/-- What a statement does about those who close the device, in the sense of `WaitStep`. -/
abbrev CloserStep (t : ι) (s : Shared ι) (k : Pc) (s' : Shared ι) (k' : Pc) : Prop :=
  WaitStep Shared.emptyq Pc.closerSleeps (fun k _ => k.closerOwes = true)
    (fun _ s => s.active = true) (fun _ _ => True) t s k s' k'

/-- A writer does nothing to the queue, and may make output active. -/
theorem WriteStep.closer (h : WriteStep t s k e s' k') : CloserStep t s k s' k' := by
  cases h with
  | start =>
      refine .idle rfl rfl ?_ ?_ <;> unfold Shared.startOutput <;> split
      · exact fun _ _ => id
      · exact fun _ _ => id
      · exact fun _ _ => id
      · exact fun _ _ _ => rfl
  | @spaceTail look ge c =>
      refine .idle ?_ rfl (fun _ _ => id) fun _ _ => id
      generalize outSpace ge s.head s.tail = space
      cases look <;> simp only [Look.next] <;> split_ifs <;> rfl
  | _ => exact .idle rfl rfl (fun _ _ => id) fun _ _ => id

omit [DecidableEq ι] in
/-- The work function makes output inactive and owes a wake-up from then on. -/
theorem WorkStep.closer (h : WorkStep s k e s' k') : CloserStep t s k s' k' := by
  cases h with
  | inactive => exact .owing rfl rfl fun _ _ => id
  | wakeEmpty => exact .paid rfl (fun _ _ => nofun) fun _ _ _ => nofun
  | _ => exact .idle rfl rfl (fun _ _ => id) fun _ _ => id

/-- Who goes to sleep has looked at the output once on the queue. -/
theorem CloseStep.closer (h : CloseStep t s k e s' k') : CloserStep t s k s' k' := by
  cases h with
  | prepare | finish =>
      refine .idle rfl rfl (fun u hu hq => ?_) fun _ _ => id
      exact (Function.update_of_ne hu _ s.emptyq).symm.trans hq
  | checkFalse hactive => exact .asleep rfl (fun _ _ => id) hactive fun _ _ => id
  | _ => exact .idle rfl rfl (fun _ _ => id) fun _ _ => id

/-- The queue of `shortp_release` is kept as `Lib.WaitQueue` asks: who sleeps on it waits for active
output, and who ends the output owes a wake-up. -/
theorem closers_queue : WaitQueue (shortprint ι) (fun _ _ _ => True) Shared.emptyq Pc.closerSleeps
    (fun k _ => k.closerOwes = true) (fun _ s => s.active = true) (fun _ _ => True) where
  start := rfl
  step := by
    rintro t s k e s' k' hstep -
    cases hstep with
    | write h => exact h.closer
    | work h => exact h.closer
    | handler h => cases h <;> exact .idle rfl rfl (fun _ _ => id) fun _ _ => id
    | close h => exact h.closer
    | readCall => exact .idle rfl rfl (fun _ _ => id) fun _ _ => id
    | @read r k k' e h => cases k' <;> exact .idle rfl rfl (fun _ _ => id) fun _ _ => id

/-- **Nobody waits in `shortp_release` for nothing**, in every reachable state.  Who sleeps there
(`hsleeps`) and has not been woken (`hqueued`) waits for output that is active, or the work function
has just ended it and is about to wake the queue. -/
theorem closer_sleeps {s : State ι (Shared ι) Pc} (h : (shortprint ι).lts.Reachable s) (u : ι)
    (hsleeps : s.pc u = .closeSleep) (hqueued : s.shared.emptyq u = true) :
    s.shared.active = true ∨ ∃ v, s.pc v = .workWakeEmpty := by
  have hasleep : Asleep Shared.emptyq Pc.closerSleeps s u := ⟨by rw [hsleeps]; rfl, hqueued⟩
  refine (closers_queue.no_lost_wakeup (fun _ _ _ => trivial) (fun _ _ _ _ _ => trivial) h u
    hasleep).imp_right fun ⟨v, hv⟩ => ⟨v, ?_⟩
  generalize s.pc v = k at hv
  cases k <;> first | rfl | cases hv

/-- The device is closed while two bytes are to be printed, and whoever closes it goes to sleep. -/
theorem closer_sleeps_two : ∃ s : State Unit (Shared Unit) Pc, s.pc () = .closeSleep ∧
    s.shared.emptyq () = true ∧ (s.shared.active = true ∨ ∃ v, s.pc v = .workWakeEmpty) := by
  obtain ⟨es, hrun, -⟩ := written_run
  have hclose := hrun
    |>.next (.close .call)
    |>.next (.close (.wait rfl))
    |>.next (.close .prepare)
    |>.next (.close (.checkFalse rfl))
  exact ⟨_, rfl, rfl, closer_sleeps (hclose.reachable ⟨_, _, rfl⟩) () rfl rfl⟩

end Closers

/-! ### Who waits for space -/

/-- The tail does not come round between the two looks of `shortp_out_space` that decide whether a
writer sleeps.  If it was ahead of the head at the first look (`false`), it still is at the second.
-/
def Steady (s : Shared ι) (k : Pc) (_ : Event) : Prop :=
  ∀ c, k = .writeSpaceTail .queued false c → s.head < s.tail

/-- Asleep in `shortp_write`, having seen no space while on the queue. -/
def Pc.writerSleeps : Pc → Bool
  | writeSleep _ => true
  | _ => false

/-- About to wake the writers: the work function has made space and is about to find so. -/
def WriterOwes (k : Pc) (s : Shared ι) : Prop :=
  k = .workSpace ∧ SP_MIN_SPACE < freeSpace s.head s.tail

/-- The page is half full at least, so that its space is too little for `shortp_do_work` to wake
anybody. -/
def HalfFull (s : Shared ι) : Prop := SP_MIN_SPACE ≤ used PAGE_SIZE s.tail s.head

section Writers

variable {t : ι} {s s' : Shared ι} {k k' : Pc} {e : Event} {g : Ledger}

omit [DecidableEq ι] in
/-- What the work function compares is the space that is free, but for an empty page, whose space it
finds to be nothing: then no writer is woken, and none needs to be. -/
theorem freeSpace_lt_iff (h : Inside s) : SP_MIN_SPACE < freeSpace s.head s.tail ↔
    used PAGE_SIZE s.tail s.head ≠ 0 ∧ ¬ HalfFull s := by
  have hhead := h.head
  have htail := h.tail
  have hused := used_eq htail hhead
  have hfree : freeSpace s.head s.tail = used PAGE_SIZE s.head s.tail := by
    rw [freeSpace, used, Nat.add_comm]
  have hhalf : PAGE_SIZE = 2 * SP_MIN_SPACE := rfl
  rw [hfree, used_eq hhead htail]
  unfold HalfFull
  split_ifs at hused ⊢ <;> omega

/-- What a statement does about the writers.  Owing a wake-up is a matter of the state as well as of
the program point, so it must not be a second thread that is in the work function; the last
condition says that it is not. -/
abbrev WriterStep (t : ι) (s : Shared ι) (k : Pc) (s' : Shared ι) (k' : Pc) : Prop :=
  WaitStep Shared.outq Pc.writerSleeps WriterOwes (fun _ s => HalfFull s)
    (fun k i => k.working = true → i.working = false) t s k s' k'

omit [DecidableEq ι] in
/-- A statement that leaves the page and the queue alone keeps the queue, if it is not one by which
a writer falls asleep with space in the page, or by which a wake-up that is owed is forgotten. -/
theorem writerStep_same (hsleeps : k'.writerSleeps = true → HalfFull s) (hk : k ≠ .workSpace)
    (hpos : (s'.head, s'.tail) = (s.head, s.tail))
    (hqueued : ∀ u, u ≠ t → s'.outq u = true → s.outq u = true) : WriterStep t s k s' k' := by
  simp only [Prod.mk.injEq] at hpos
  have hfull : HalfFull s' ↔ HalfFull s := by rw [HalfFull, hpos.1, hpos.2]; rfl
  refine ⟨fun hk' _ => hfull.mpr (hsleeps hk'), hqueued, fun _ _ _ _ _ hb => .inl (hfull.mpr hb),
    fun howes => absurd howes.1 hk, fun i _ howes => .inl ⟨howes.1, ?_⟩⟩
  rw [hpos.1, hpos.2]
  exact howes.2

omit [DecidableEq ι] in
/-- **The writer goes to sleep over a full page**, if both looks are at the same lap. -/
theorem halfFull_of_outSpace (h : Inside s) {ge : Bool} (hge : ge = true → s.tail ≤ s.head)
    (hlt : ge = false → s.head < s.tail) (hnone : outSpace ge s.head s.tail ≤ 0) : HalfFull s := by
  have hhead := h.head
  have htail := h.tail
  have hused := used_eq htail hhead
  have hhalf : PAGE_SIZE = 2 * SP_MIN_SPACE := rfl
  have hpos : 0 < SP_MIN_SPACE := by decide
  unfold HalfFull
  unfold outSpace at hnone
  cases ge with
  | true =>
      have hle := hge rfl
      rw [if_pos rfl] at hnone
      rw [if_pos hle] at hused
      split_ifs at hnone <;> omega
  | false =>
      have hlt := hlt rfl
      rw [if_neg Bool.false_ne_true] at hnone
      rw [if_neg (Nat.not_le.mpr hlt)] at hused
      omega

/-- A look leads to sleep only on the queue, and if nothing is found. -/
theorem next_sleeps {look : Look} {space : ℤ} {c : Call}
    (h : (look.next space c).writerSleeps = true) : look = .queued ∧ space ≤ 0 := by
  cases look <;> simp only [Look.next] at h <;> split_ifs at h with hspace
  all_goals first | exact ⟨rfl, Int.not_lt.mp hspace⟩ | cases h

/-- The writer goes to sleep over a full page, in a run that is steady. -/
theorem WriteStep.writer (h : WriteStep t s k e s' k') (hK : Knows k (s, g))
    (hsteady : Steady s k e) : WriterStep t s k s' k' := by
  have hinside : Inside s := ((hK .page).2 rfl).1
  cases h with
  | prepare | finish | finishSignal =>
      refine writerStep_same nofun nofun rfl fun u hu hq => ?_
      exact (Function.update_of_ne hu _ s.outq).symm.trans hq
  | @spaceTail look ge c =>
      have hge : ge = true → s.tail ≤ s.head := ((hK .sem).1 rfl).2
      refine writerStep_same (fun hsleeps => ?_) nofun rfl fun _ _ => id
      obtain ⟨rfl, hnone⟩ := next_sleeps hsleeps
      refine halfFull_of_outSpace hinside hge (fun hlap => ?_) hnone
      subst hlap
      exact hsteady c rfl
  | @advance space c =>
      obtain ⟨hroom, -⟩ : Room s space ∧ _ := ((hK .sem).1 rfl).2
      have hmore (s' : Shared ι) (hhead : s'.head = incrOutBp s.head space)
          (htail : s'.tail = s.tail) (hqueued : s'.outq = s.outq) :
          WriterStep t s (.writeAdvance space c) s'
            (.writeStart { c with written := c.written + space }) := by
        obtain ⟨hinside', hused⟩ := hinside.advance hroom hhead htail
        have hfull (hb : HalfFull s) : HalfFull s' := by
          unfold HalfFull at hb ⊢
          omega
        refine ⟨nofun, fun u _ => by rw [hqueued]; exact id, fun _ _ _ _ _ hb => .inl (hfull hb),
          fun howes => (nomatch howes.1), fun i _ ⟨hi, howes⟩ => ?_⟩
        -- the page has become half full, or the wake-up is owed still
        by_cases hb : HalfFull s'
        · exact .inr fun _ _ _ _ _ => hb
        · have hnonempty := ((freeSpace_lt_iff hinside).mp howes).1
          exact .inl ⟨hi, (freeSpace_lt_iff hinside').mpr ⟨by omega, hb⟩⟩
      exact hmore _ rfl rfl rfl
  | start =>
      refine writerStep_same nofun nofun ?_ ?_ <;> unfold Shared.startOutput <;> split
      · rfl
      · rfl
      · exact fun _ _ => id
      · exact fun _ _ => id
  | _ => exact writerStep_same nofun nofun rfl fun _ _ => id

omit [DecidableEq ι] in
/-- The work function makes space by one byte at a time, and the byte by which the page gets less
than half full is the one after which it wakes the writers. -/
theorem WorkStep.writer (h : WorkStep s k e s' k') (hK : Knows k (s, g)) :
    WriterStep t s k s' k' := by
  have hinside : Inside s := ((hK .page).2 rfl).1
  cases h with
  | strobe =>
      have hne : s.head ≠ s.tail := (hK .work).1 rfl
      have hless (s' : Shared ι) (hhead : s'.head = s.head) (htail : s'.tail = incrOutBp s.tail 1)
          (hqueued : s'.outq = s.outq) : WriterStep t s .workStrobe s' .workSpace := by
        obtain ⟨hinside', hused⟩ := hinside.strobe hne hhead htail
        refine ⟨nofun, fun u _ => by rw [hqueued]; exact id, fun _ _ _ _ _ hb => ?_,
          fun howes => (nomatch howes.1), fun i htogether ⟨hi, _⟩ => ?_⟩
        · by_cases hb' : HalfFull s'
          · exact .inl hb'
          · have hpos : 1 < SP_MIN_SPACE := by decide
            refine .inr ⟨rfl, (freeSpace_lt_iff hinside').mpr ⟨?_, hb'⟩⟩
            unfold HalfFull at hb
            omega
        · -- there is no other work function
          have hout := htogether rfl
          rw [hi] at hout
          cases hout
      exact hless _ rfl rfl rfl
  | wakeOut =>
      exact ⟨nofun, fun _ _ => nofun, fun _ _ _ => nofun, fun _ => .inr fun _ _ _ => nofun,
        fun _ _ _ => .inr fun _ _ _ => nofun⟩
  | noSpace hnone =>
      exact ⟨nofun, fun _ _ => id, fun _ _ _ _ _ => .inl,
        fun howes => absurd howes.2 (Nat.not_lt.mpr hnone), fun _ _ => .inl⟩
  | _ => exact writerStep_same nofun nofun rfl fun _ _ => id

/-- The driver under that condition, with what has been said as a history beside its state. -/
def steady (ι : Type) [DecidableEq ι] : Threads ι (Shared ι × Ledger) Pc Event :=
  ((shortprint ι).restrict Steady).track Ledger.note ⟨[], [], []⟩

/-- The queue of `shortp_write` is kept as `Lib.WaitQueue` asks, in steady runs: who sleeps on it
waits for the page to be less than half full, and who makes it so owes a wake-up. -/
theorem writers_queue : WaitQueue (steady ι) (fun _ => Knows) (fun s => s.1.outq) Pc.writerSleeps
    (fun k s => WriterOwes k s.1) (fun _ s => HalfFull s.1)
    (fun k i => k.working = true → i.working = false) where
  start := rfl
  step := by
    rintro t ⟨s, g⟩ k e ⟨s', g'⟩ k' ⟨⟨hsteady, hstep⟩, -⟩ hK
    have hwriter : WriterStep t s k s' k' := by
      cases hstep with
      | write h => exact h.writer hK hsteady
      | work h => exact h.writer hK
      | handler h => cases h <;> exact writerStep_same nofun nofun rfl fun _ _ => id
      | close h => cases h <;> exact writerStep_same nofun nofun rfl fun _ _ => id
      | readCall => exact writerStep_same nofun nofun rfl fun _ _ => id
      | @read r k k' e h => cases k' <;> exact writerStep_same nofun nofun rfl fun _ _ => id
    exact ⟨hwriter.1, hwriter.2, hwriter.3, hwriter.4, hwriter.5⟩

/-- **No writer waits for nothing**, in every state reachable by steady runs.  Who sleeps in
`shortp_write` (`hsleeps`) and has not been woken (`hqueued`) finds the page half full at least, or
the work function has made space and is about to wake it. -/
theorem waits_for_space {s : State ι (Shared ι) Pc}
    (h : ((shortprint ι).restrict Steady).lts.Reachable s) (u : ι) (c : Call)
    (hsleeps : s.pc u = .writeSleep c) (hqueued : s.shared.outq u = true) :
    SP_MIN_SPACE ≤ (pending s.shared).length ∨
      ∃ v, s.pc v = .workSpace ∧ SP_MIN_SPACE < freeSpace s.shared.head s.shared.tail := by
  obtain ⟨g, hreach⟩ : ∃ g, (steady ι).lts.Reachable ⟨(s.shared, g), s.pc⟩ := Reachable.track h
  have hasleep : Asleep (fun s : Shared ι × Ledger => s.1.outq) Pc.writerSleeps
      ⟨(s.shared, g), s.pc⟩ u := by
    refine ⟨?_, hqueued⟩
    change (s.pc u).writerSleeps = true
    rw [hsleeps]
    rfl
  have halone {s : State ι (Shared ι × Ledger) Pc} (hs : (steady ι).lts.Reachable s) (t u : ι)
      (hu : u ≠ t) (ht : (s.pc t).working = true) : (s.pc u).working = false :=
    ((locks_held (Reachable.track_of_restrict hs) .work).of_inside ht).2.2 u hu
  rw [pending, length_contents]
  exact writers_queue.no_lost_wakeup
    (fun _ hs t => knows_of_reachable (Reachable.track_of_restrict hs) t)
    (fun _ hs => halone hs) hreach u hasleep

/-- A statement of a writer in a driver with one thread, as one under the condition. -/
theorem WriteStep.steady {t : Unit} {s s' : Shared Unit} {k k' : Pc} {e : Event}
    (h : WriteStep t s k e s' k') (hsteady : Steady s k e) :
    ((shortprint Unit).restrict Steady).step t s k e s' k' := ⟨hsteady, .write h⟩

/-- Of 4096 bytes the last one has to wait: a page with 4095 bytes in it is full. -/
theorem waits_for_space_full : ∃ (s : State Unit (Shared Unit) Pc) (c : Call),
    s.pc () = .writeSleep c ∧ s.shared.outq () = true ∧
      (SP_MIN_SPACE ≤ (pending s.shared).length ∨
        ∃ v, s.pc v = .workSpace ∧ SP_MIN_SPACE < freeSpace s.shared.head s.shared.tail) := by
  obtain ⟨data, hdata⟩ : ∃ data : List UInt8, data.length = 4096 :=
    ⟨List.replicate 4096 0, List.length_replicate⟩
  have hmore (written : ℕ) (hwritten : written < 4096) : written < data.length := by rwa [hdata]
  have hmin : min 4095 (Call.mk data 0).rest.length = 4095 := by
    rw [Call.rest, List.length_drop, hdata]
    rfl
  have hcopy (s : Shared Unit) : WriteStep () s (.writeCopy 4095 ⟨data, 0⟩) (.copyIn s.head 4095)
      { s with cells := store s.cells s.head ((Call.mk data 0).rest.take 4095) }
      (.writeAdvance 4095 ⟨data, 0⟩) := by
    have hstep := @WriteStep.copy Unit _ () s 4095 ⟨data, 0⟩
    rwa [hmin] at hstep
  have hadvance (s : Shared Unit) (hs : s.head = 0) : WriteStep () s (.writeAdvance 4095 ⟨data, 0⟩)
      (.accepted ((Call.mk data 0).rest.take 4095)) { s with head := 4095 }
      (.writeStart ⟨data, 4095⟩) := by
    have hstep := @WriteStep.advance Unit _ () s 4095 ⟨data, 0⟩
    rw [hs] at hstep
    exact hstep
  -- there is no space any more
  have hlook (look : Look) (s : Shared Unit) (hs : outSpace true s.head s.tail = 0) :
      WriteStep () s (.writeSpaceTail look true ⟨data, 4095⟩) .silent s
        (look.next 0 ⟨data, 4095⟩) := hs ▸ .spaceTail
  have hrun := Solo.start (T := (shortprint Unit).restrict Steady) (t := ())
      (s := .initial (fun _ => 0) (fun _ => 0)) (k := .idle)
    |>.next (WriteStep.steady (@WriteStep.call _ _ _ _ data) nofun)
    |>.next (WriteStep.steady (.down rfl) nofun)
    |>.next (WriteStep.steady (.more (hmore 0 (by decide))) nofun)
    |>.next (WriteStep.steady .space nofun)
    |>.next (WriteStep.steady .spaceTail fun _ => nofun)
    |>.next (WriteStep.steady (hcopy _) nofun)
    |>.next (WriteStep.steady (hadvance _ rfl) nofun)
    |>.next (WriteStep.steady (.start rfl) nofun)
    |>.next (WriteStep.steady (.more (hmore 4095 (by decide))) nofun)
    |>.next (WriteStep.steady .space nofun)
    |>.next (WriteStep.steady (hlook .first _ rfl) fun _ => nofun)
    |>.next (WriteStep.steady .space nofun)
    |>.next (WriteStep.steady (hlook .condition _ rfl) fun _ => nofun)
    |>.next (WriteStep.steady .prepare nofun)
    |>.next (WriteStep.steady .space nofun)
    |>.next (WriteStep.steady (hlook .queued _ rfl) fun _ => nofun)
  exact ⟨_, _, rfl, rfl, waits_for_space (hrun.reachable ⟨_, _, rfl⟩) () _ rfl rfl⟩

end Writers

end LeipoCode.Shortprint
