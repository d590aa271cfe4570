import LeipoCode.Shortprint.Model

/-!
# What is printed

Writers put bytes into the page one call after the other, under the semaphore; the work function
takes them out without it.  Neither excludes the other.  What each may rely on while the other moves
on (`Writing`, `Working`) is kept by both (`Sees`, of all locks at once).

* `writes_inside` — no copy from a process leaves the page, or touches what is not printed yet;
* `prints_in_order` — **what is printed is what was written, call after call**: the bytes of a call
  stand together, and as many are there as it says.

### What is load-bearing

Both results hold of every run, without a condition.  They rest on two facts about the page.  The
writer moves only the head and the work function only the tail, so what the writer has found to be
free stays free (`Writing.strobe`), and what the work function has found to be there stays there.
And what `shortp_out_space` finds is free although it looks at the tail twice: the second look may
see a tail that has moved, which can only mean more space than the first look has promised, unless
the tail has come round to the start of the page, and then nothing is found (`Inside.room`).

The semaphore is what keeps calls apart.  A process that waits for space keeps it, so between two
chunks of one call no other call gets in.

### What a call says

`shortp_write` returns the number of bytes it has put into the page, except after a fault: then it
returns `-EFAULT` and does not say that earlier chunks are in the page already, and will be printed.
`Event.ended` counts them, for they are part of what is printed; that the call does not report them
is what `faulted` stands for.

### How it is shown

There are four things to keep in order, and each of them is a lock in the sense of `Lib.Threads`:
the page itself, which nobody has; the semaphore, with what the call under way has written; the work
queue, with what its function has found; and the spin lock around the start and the end of the
output.  A statement is one of the writer, of the work function, of a handler or of a process that
closes the device, and has to do right by all four (`Step.keeps`).  Most pairs are trivial, a
statement that leaves the page and the events alone (`keeps_same`); the lemmas that are not are
`WriteStep.page` and `WorkStep.page`, for the bytes, and `Writing.strobe`, for what a writer goes on
to rely on while a byte is taken from under it.

The history has three entries: what went into the page, what the printer was given, and what the
calls that have ended had put there.  The first is the second with what is pending; the first is
also the third with what the call under way has written; and the result compares the two.
-/

namespace LeipoCode.Shortprint

open RingBuffer Short Threads

variable {ι : Type}

/-! ### The page -/

/-- The bytes that are not printed yet: from the tail to the head, going round. -/
def pending (s : Shared ι) : List UInt8 :=
  contents s.cells PAGE_SIZE s.tail (used PAGE_SIZE s.tail s.head)

/-- Both positions are inside the page: what every statement leaves so. -/
structure Inside (s : Shared ι) : Prop where
  head : s.head < PAGE_SIZE
  tail : s.tail < PAGE_SIZE

/-- So many bytes behind the head are free, with another one: a full page would look like an empty
one. -/
structure Room (s : Shared ι) (space : ℕ) : Prop where
  fits : s.head + space ≤ PAGE_SIZE
  free : used PAGE_SIZE s.tail s.head + space < PAGE_SIZE

theorem PAGE_SIZE_pos : 0 < PAGE_SIZE := by decide

/-- `shortp_incr_out_bp` is the step of a ring, as `Lib.RingBuffer` has it, for no increment is more
than the page. -/
theorem incrOutBp_eq_mod {p k : ℕ} (hp : p < PAGE_SIZE) (hk : k ≤ PAGE_SIZE) :
    incrOutBp p k = (p + k) % PAGE_SIZE := by
  unfold incrOutBp
  rcases add_mod_cases hp hk with ⟨hlt, hmod⟩ | ⟨hge, hmod⟩
  · rw [if_neg (Nat.not_le.mpr hlt), hmod]
  · rw [if_pos hge, hmod]

section Positions

variable {s s' : Shared ι} {space : ℕ}

/-- **What `shortp_out_space` finds is free**, at the second of its looks.  A tail that was not
ahead of the head at the first one stays so (`hge`), for it does not pass the head.  One that was
ahead and has come round since makes the difference negative, and then nothing is found (`hpos`). -/
theorem Inside.room (h : Inside s) {ge : Bool} (hge : ge = true → s.tail ≤ s.head)
    (hpos : 0 < outSpace ge s.head s.tail) : Room s (outSpace ge s.head s.tail).toNat := by
  have hhead := h.head
  have htail := h.tail
  have hused := used_eq htail hhead
  unfold outSpace at hpos ⊢
  cases ge with
  | true =>
      have hle := hge rfl
      rw [if_pos rfl] at hpos ⊢
      rw [if_pos hle] at hused
      split_ifs at hpos ⊢ <;> exact ⟨by omega, by omega⟩
  | false =>
      rw [if_neg Bool.false_ne_true] at hpos ⊢
      rw [if_neg (by omega)] at hused
      exact ⟨by omega, by omega⟩

/-- The tail moves on over a byte, if there is one (`hne`): it stays in the page, and so much less
is pending. -/
theorem Inside.strobe (h : Inside s) (hne : s.head ≠ s.tail) (hhead : s'.head = s.head)
    (htail : s'.tail = incrOutBp s.tail 1) :
    Inside s' ∧ used PAGE_SIZE s'.tail s'.head + 1 = used PAGE_SIZE s.tail s.head := by
  have hmod : s'.tail = (s.tail + 1) % PAGE_SIZE := by
    rw [htail, incrOutBp_eq_mod h.tail PAGE_SIZE_pos]
  have hpos : used PAGE_SIZE s.tail s.head ≠ 0 :=
    fun hzero => hne ((used_eq_zero_iff h.tail h.head).mp hzero).symm
  refine ⟨⟨hhead ▸ h.head, ?_⟩, ?_⟩
  · rw [hmod]
    exact Nat.mod_lt _ PAGE_SIZE_pos
  · rw [hmod, hhead, used_read h.tail h.head (Nat.pos_of_ne_zero hpos)]
    omega

/-- The head moves on over what was copied, which leaves it in the page, and so much more is
pending.  There is one byte more than that free (`hroom`), so that it does not come to the tail. -/
theorem Inside.advance (h : Inside s) (hroom : Room s space)
    (hhead : s'.head = incrOutBp s.head space) (htail : s'.tail = s.tail) :
    Inside s' ∧ used PAGE_SIZE s'.tail s'.head = used PAGE_SIZE s.tail s.head + space := by
  have hmod : s'.head = (s.head + space) % PAGE_SIZE := by
    rw [hhead, incrOutBp_eq_mod h.head (by have := hroom.free; omega)]
  refine ⟨⟨?_, htail ▸ h.tail⟩, ?_⟩
  · rw [hmod]
    exact Nat.mod_lt _ PAGE_SIZE_pos
  · rw [hmod, htail, used_write h.tail h.head hroom.free]

/-- What the work function gives to the printer is the first byte. -/
theorem pending_strobe (h : Inside s) (hne : s.head ≠ s.tail) (hcells : s'.cells = s.cells)
    (hhead : s'.head = s.head) (htail : s'.tail = incrOutBp s.tail 1) :
    pending s = s.cells s.tail :: pending s' := by
  obtain ⟨-, hused⟩ := h.strobe hne hhead htail
  have hmod : s'.tail = (s.tail + 1) % PAGE_SIZE := by
    rw [htail, incrOutBp_eq_mod h.tail PAGE_SIZE_pos]
  have hle : 1 ≤ used PAGE_SIZE s.tail s.head := hused ▸ Nat.le_add_left 1 _
  have hfirst : slice s.cells s.tail 1 = (pending s).take 1 := slice_eq_take h.tail hle
  have hrest : contents s.cells PAGE_SIZE ((s.tail + 1) % PAGE_SIZE)
      (used PAGE_SIZE s.tail s.head - 1) = (pending s).drop 1 := contents_advance hle
  have hslice : slice s.cells s.tail 1 = [s.cells s.tail] := rfl
  have hpending : pending s' = (pending s).drop 1 := by
    rw [← hrest, pending, hcells, hmod, ← hmod]
    congr 1
    omega
  rw [hslice] at hfirst
  rw [hpending, ← List.singleton_append, hfirst]
  exact (List.take_append_drop 1 _).symm

/-- What the head moves over is pending from then on, behind what was there. -/
theorem pending_advance (h : Inside s) (hroom : Room s space) (hcells : s'.cells = s.cells)
    (hhead : s'.head = incrOutBp s.head space) (htail : s'.tail = s.tail) :
    pending s' = pending s ++ slice s.cells s.head space := by
  obtain ⟨-, hused⟩ := h.advance hroom hhead htail
  unfold pending
  rw [hcells, hused, htail]
  exact contents_add (add_used_mod h.tail h.head) hroom.fits

/-- A copy of no more than there is room for changes nothing that is pending, also when only part of
it arrives. -/
theorem pending_copy (h : Inside s) {bytes : List UInt8} (hroom : Room s space)
    (hlen : bytes.length ≤ space) :
    pending { s with cells := store s.cells s.head bytes } = pending s := by
  have hfree : used PAGE_SIZE s.tail s.head + bytes.length ≤ PAGE_SIZE :=
    (Nat.add_le_add_left hlen _).trans hroom.free.le
  exact contents_store_free h.tail (add_used_mod h.tail h.head) hfree

end Positions

/-! ### What the events say -/

namespace Event

/-- What goes into the page. -/
def taken : Event → List UInt8
  | accepted bytes => bytes
  | _ => []

/-- What the printer gets. -/
def given : Event → List UInt8
  | printed byte => [byte]
  | _ => []

/-- What a call has put into the page when it ends: as many bytes as it returns, or, if it returns
`-EFAULT`, those of the chunks before the one that could not be copied. -/
def ended : Event → List UInt8
  | wrote c | faulted c => c.taken
  | _ => []

end Event

/-- What has been said up to now: what went into the page, what the printer was given, and what the
calls that have ended had put there. -/
structure Ledger where
  taken : List UInt8
  given : List UInt8
  ended : List UInt8

/-- What has been said after one more event. -/
def Ledger.note (g : Ledger) (e : Event) : Ledger :=
  ⟨g.taken ++ e.taken, g.given ++ e.given, g.ended ++ e.ended⟩

/-- The history that goes along with a run, read off the events of the run. -/
theorem foldl_note (es : List Event) (g : Ledger) :
    es.foldl Ledger.note g = ⟨g.taken ++ es.flatMap Event.taken, g.given ++ es.flatMap Event.given,
      g.ended ++ es.flatMap Event.ended⟩ := by
  induction es generalizing g with
  | nil => simp only [List.foldl_nil, List.flatMap_nil, List.append_nil]
  | cons e es ih =>
      simp only [List.foldl_cons, ih, Ledger.note, List.flatMap_cons, List.append_assoc]

/-! ### The locks -/

/-- What is kept in order: the page, and what each lock is for.  `work` is the work queue, which
runs one work function at a time and in this is a lock like the others. -/
inductive Lock
  | page
  | sem
  | work
  | spin
deriving DecidableEq

namespace Pc

/-- With the semaphore: in `shortp_write`, behind the wait for it. -/
def writing : Pc → Bool
  | writeTest _ | writeSpace _ _ | writeSpaceTail _ _ _ | writePrepare _ | writeSleep _
  | writeFinish _ _ | writeInterrupted _ | writeCopy _ _ | writeFault _ | writeAdvance _ _
  | writeStart _ | writeOut _ => true
  | _ => false

/-- In the work function, in which one thread is at a time. -/
def working : Pc → Bool
  | workWait | workLock | workTest | workInactive | workWakeEmpty | workDelTimer | workModTimer
  | workStrobe | workSpace | workUnlock | workSprintf | workAdvance _ | workWake | workEnd => true
  | _ => false

/-- With the spin lock, in the first part of the work function. -/
def spinning : Pc → Bool
  | workTest | workInactive | workWakeEmpty | workDelTimer | workModTimer | workStrobe | workSpace
  | workUnlock => true
  | _ => false

/-- What the call has written up to here. -/
def taken : Pc → List UInt8
  | writeTest c | writeSpace _ c | writeSpaceTail _ _ c | writePrepare c | writeSleep c
  | writeFinish _ c | writeInterrupted c | writeCopy _ c | writeFault c | writeAdvance _ c
  | writeStart c | writeOut c => c.taken
  | _ => []

end Pc

/-- What the writer may rely on, whatever the work function does meanwhile: how the first look at
the space came out, that the space it has found is free, and that what it has copied is behind the
head. -/
def Writing (s : Shared ι) : Pc → Prop
  | .writeSpaceTail _ ge _ => ge = true → s.tail ≤ s.head
  | .writeFinish space _ | .writeCopy space _ => Room s space
  | .writeAdvance space c =>
      Room s space ∧ slice s.cells s.head space = c.rest.take space
  | _ => True

/-- What the work function may rely on. -/
def Working (s : Shared ι) : Pc → Prop
  | .workModTimer | .workStrobe => s.head ≠ s.tail
  | _ => True

/-- What it may rely on by the spin lock. -/
def Spinning (s : Shared ι) : Pc → Prop
  | .workWakeEmpty | .workDelTimer => s.active = false
  | _ => True

/-- The lock is free; the page is nobody's, since no lock is around all that is done to it. -/
def Lock.free : Lock → Shared ι × Ledger → Bool
  | page, _ => true
  | sem, s => s.1.sem
  | work, s => s.1.resting
  | spin, s => s.1.lock

/-- The thread at that point has the lock.  Nobody has the page. -/
def Lock.inside : Lock → Pc → Bool
  | page => fun _ => false
  | sem => Pc.writing
  | work => Pc.working
  | spin => Pc.spinning

/-- What is in order while the lock is free.  For the page: what went in is what was given to the
printer and what is pending.  For the semaphore: what went in is what calls have put there that have
ended. -/
def Lock.protects : Lock → Shared ι × Ledger → Prop
  | page, s => Inside s.1 ∧ s.2.taken = s.2.given ++ pending s.1
  | sem, s => s.2.taken = s.2.ended
  | work, _ | spin, _ => True

/-- What the thread that has it may rely on. -/
def Lock.allows : Lock → Pc → Shared ι × Ledger → Prop
  | page, _, _ => True
  | sem, k, s => s.2.taken = s.2.ended ++ k.taken ∧ Writing s.1 k
  | work, k, s => Working s.1 k
  | spin, k, s => Spinning s.1 k

/-- What a thread at that point may rely on, of all the locks that it has. -/
abbrev Knows (k : Pc) (s : Shared ι × Ledger) : Prop :=
  Sees Lock.free Lock.inside Lock.protects Lock.allows k s

/-- What a statement does about one of the locks, in the sense of `LockStep`. -/
abbrev Keeps (x : Lock) (s : Shared ι × Ledger) (k : Pc) (s' : Shared ι × Ledger)
    (k' : Pc) : Prop :=
  LockStep x.free x.inside x.protects x.allows s k s' k'

section Statements

variable {t : ι} {s s' : Shared ι} {k k' : Pc} {e : Event} {g : Ledger}

/-- A statement does right by the page if it keeps the positions inside, and if what it puts in or
takes out is what makes the difference in what is pending; this holds whoever has which lock. -/
theorem keeps_page (h : Inside s → Inside s' ∧ pending s ++ e.taken = e.given ++ pending s') :
    Keeps .page (s, g) k (s', g.note e) k' := by
  refine .outside rfl rfl rfl (fun ⟨hinside, htaken⟩ => ?_) fun j hj => by cases hj
  obtain ⟨hinside', hpending⟩ := h hinside
  refine ⟨hinside', ?_⟩
  change g.taken ++ e.taken = g.given ++ e.given ++ pending s'
  rw [show g.taken = g.given ++ pending s from htaken, List.append_assoc, hpending,
    List.append_assoc]

/-- The page as the writer and the work function see it: the cells and the two positions. -/
def Shared.out (s : Shared ι) : (ℕ → UInt8) × ℕ × ℕ := (s.cells, s.head, s.tail)

/-- A statement that neither touches the page nor says anything about it. -/
theorem keeps_page_same (hout : s'.out = s.out) (htaken : e.taken = []) (hgiven : e.given = []) :
    Keeps .page (s, g) k (s', g.note e) k' := by
  simp only [Shared.out, Prod.mk.injEq] at hout
  obtain ⟨hcells, hhead, htail⟩ := hout
  refine keeps_page fun hinside => ⟨⟨hhead ▸ hinside.head, htail ▸ hinside.tail⟩, ?_⟩
  rw [htaken, hgiven, List.append_nil, List.nil_append]
  unfold pending
  rw [hcells, hhead, htail]

/-- The writer goes on with the semaphore: what it puts into the page is a further part of its call,
or its call ends with what it has put there. -/
theorem keeps_sem_within (hk : k.writing = true) (hk' : k'.writing = true) (hsem : s'.sem = s.sem)
    (htaken : k.taken ++ e.taken = e.ended ++ k'.taken)
    (hwriting : Writing s k → Writing s' k') :
    Keeps .sem (s, g) k (s', g.note e) k' := by
  refine .within hk hk' hsem fun ⟨hledger, hw⟩ => ⟨?_, hwriting hw⟩
  change g.taken ++ e.taken = g.ended ++ e.ended ++ k'.taken
  rw [show g.taken = g.ended ++ k.taken from hledger, List.append_assoc, htaken,
    List.append_assoc]

/-- A thread without the semaphore does right by the one that has it, if it puts nothing into the
page and leaves intact what that one relies on. -/
theorem keeps_sem_outside (hk : k.writing = false) (hk' : k'.writing = false)
    (hsem : s'.sem = s.sem) (htaken : e.taken = []) (hended : e.ended = [])
    (hwriting : ∀ j, Writing s j → Writing s' j) : Keeps .sem (s, g) k (s', g.note e) k' := by
  have hnote : (g.note e).taken = g.taken ∧ (g.note e).ended = g.ended := by
    simp only [Ledger.note, htaken, hended, List.append_nil, and_self]
  refine .outside hk hk' hsem (fun hR => ?_) fun j _ ⟨hledger, hw⟩ => ⟨?_, hwriting j hw⟩
  · exact hnote.1.trans (Eq.trans hR hnote.2.symm)
  · change (g.note e).taken = (g.note e).ended ++ j.taken
    rw [hnote.1, hnote.2]
    exact hledger

/-- What the writer relies on is in the page and in the two positions, and survives what leaves
these alone. -/
theorem Writing.of_out {j : Pc} (h : Writing s j) (hout : s'.out = s.out) : Writing s' j := by
  simp only [Shared.out, Prod.mk.injEq] at hout
  obtain ⟨hcells, hhead, htail⟩ := hout
  have hroom {space : ℕ} (hr : Room s space) : Room s' space :=
    ⟨hhead ▸ hr.fits, by rw [hhead, htail]; exact hr.free⟩
  cases j with
  | writeSpaceTail => exact fun hge => by rw [hhead, htail]; exact h hge
  | writeFinish | writeCopy => exact hroom h
  | writeAdvance => exact ⟨hroom h.1, by rw [hcells, hhead]; exact h.2⟩
  | _ => trivial

/-- A statement outside the work function that leaves the positions alone. -/
theorem keeps_work_same (hk : k.working = false) (hk' : k'.working = false)
    (hresting : s'.resting = s.resting) (hhead : s'.head = s.head) (htail : s'.tail = s.tail) :
    Keeps .work (s, g) k (s', g.note e) k' := by
  refine .outside hk hk' hresting id fun j _ hj => ?_
  cases j with
  | workModTimer | workStrobe =>
      change s'.head ≠ s'.tail
      rwa [hhead, htail]
  | _ => trivial

/-- A statement without the spin lock that leaves `shortp_output_active` alone. -/
theorem keeps_spin_same (hk : k.spinning = false) (hk' : k'.spinning = false)
    (hlock : s'.lock = s.lock) (hactive : s'.active = s.active) :
    Keeps .spin (s, g) k (s', g.note e) k' := by
  refine .outside hk hk' hlock id fun j _ hj => ?_
  cases j with
  | workWakeEmpty | workDelTimer => exact hactive.trans hj
  | _ => trivial

/-- A statement of a thread with none of the locks, which leaves the page and the locks alone and
says nothing, does right by all four. -/
theorem keeps_same {x : Lock} (hk : (k.writing, k.working, k.spinning) = (false, false, false))
    (hk' : (k'.writing, k'.working, k'.spinning) = (false, false, false)) (hout : s'.out = s.out)
    (hlocks : (s'.sem, s'.resting, s'.lock, s'.active) = (s.sem, s.resting, s.lock, s.active))
    (hquiet : (e.taken, e.given, e.ended) = ([], [], [])) :
    Keeps x (s, g) k (s', g.note e) k' := by
  simp only [Prod.mk.injEq] at hk hk' hlocks hquiet
  obtain ⟨hsem, hresting, hlock, hactive⟩ := hlocks
  obtain ⟨htaken, hgiven, hended⟩ := hquiet
  cases x with
  | page => exact keeps_page_same hout htaken hgiven
  | sem => exact keeps_sem_outside hk.1 hk'.1 hsem htaken hended fun j hj => hj.of_out hout
  | work =>
      simp only [Shared.out, Prod.mk.injEq] at hout
      exact keeps_work_same hk.2.1 hk'.2.1 hresting hout.2.1 hout.2.2
  | spin => exact keeps_spin_same hk.2.2 hk'.2.2 hlock hactive

/-- The handlers of the interrupt and of the timer touch neither the page nor a lock. -/
theorem HandlerStep.keeps (h : HandlerStep s k e s' k') (x : Lock) :
    Keeps x (s, g) k (s', g.note e) k' := by
  cases h <;> exact keeps_same rfl rfl rfl rfl rfl

/-- What a look at the space leads to: the writer keeps the semaphore and its call, and what it has
found is free. -/
theorem writing_next (look : Look) {space : ℤ} (c : Call) (hroom : 0 < space → Room s space.toNat) :
    (look.next space c).writing = true ∧ (look.next space c).taken = c.taken ∧
      Writing s (look.next space c) := by
  cases look with
  | first =>
      by_cases hle : space ≤ 0
      · simp only [Look.next, if_pos hle]
        exact ⟨rfl, rfl, trivial⟩
      · simp only [Look.next, if_neg hle]
        exact ⟨rfl, rfl, hroom (Int.not_le.mp hle)⟩
  | condition | queued =>
      by_cases hpos : 0 < space
      · simp only [Look.next, if_pos hpos]
        exact ⟨rfl, rfl, hroom hpos⟩
      · simp only [Look.next, if_neg hpos]
        exact ⟨rfl, rfl, trivial⟩

/-- Whatever a look at the space leads to, it is a point of the writer, outside of the work function
and without the spin lock. -/
theorem next_outside (look : Look) (space : ℤ) (c : Call) :
    (look.next space c).working = false ∧ (look.next space c).spinning = false := by
  cases look <;> simp only [Look.next] <;> split_ifs <;> exact ⟨rfl, rfl⟩

/-- Where there is room for so much, there is for less, as when a caller has less to write. -/
theorem Room.mono {space space' : ℕ} (h : Room s space) (hle : space' ≤ space) : Room s space' :=
  ⟨(Nat.add_le_add_left hle _).trans h.fits, (Nat.add_le_add_left hle _).trans_lt h.free⟩

variable [DecidableEq ι]

/-- A process that closes the device only looks at the output, and touches neither the page nor a
lock. -/
theorem CloseStep.keeps (h : CloseStep t s k e s' k') (x : Lock) :
    Keeps x (s, g) k (s', g.note e) k' := by
  cases h <;> exact keeps_same rfl rfl rfl rfl rfl

/-! ### The writer -/

/-- The writer keeps the page in order: a copy lands where nothing is pending, and the head moves
over what was copied. -/
theorem WriteStep.page (h : WriteStep t s k e s' k') (hK : Knows k (s, g)) :
    Keeps .page (s, g) k (s', g.note e) k' := by
  have hwriting (hk : k.writing = true) : Writing s k := ((hK .sem).1 hk).2
  cases h with
  | @copy space c =>
      have hroom : Room s space := hwriting rfl
      refine keeps_page fun hinside => ⟨⟨hinside.head, hinside.tail⟩, ?_⟩
      rw [pending_copy hinside hroom ((List.length_take_le _ _))]
      exact List.append_nil _
  | @fault space j c hj =>
      have hroom : Room s space := hwriting rfl
      refine keeps_page fun hinside => ⟨⟨hinside.head, hinside.tail⟩, ?_⟩
      have hle : (c.rest.take j).length ≤ space :=
        (List.length_take_le _ _).trans (hj.le.trans (Nat.min_le_left _ _))
      rw [pending_copy hinside hroom hle]
      exact List.append_nil _
  | @advance space c =>
      obtain ⟨hroom, hslice⟩ : Room s space ∧ _ := hwriting rfl
      refine keeps_page fun hinside => ?_
      have hmoved (s' : Shared ι) (hcells : s'.cells = s.cells)
          (hhead : s'.head = incrOutBp s.head space) (htail : s'.tail = s.tail) :
          Inside s' ∧ pending s ++ c.rest.take space = pending s' := by
        rw [pending_advance hinside hroom hcells hhead htail, hslice]
        exact ⟨(hinside.advance hroom hhead htail).1, rfl⟩
      exact hmoved _ rfl rfl rfl
  | @start c hfree =>
      refine keeps_page_same ?_ rfl rfl
      unfold Shared.startOutput
      split <;> rfl
  | _ => exact keeps_page_same rfl rfl rfl

/-- The writer keeps what the semaphore is for: what it puts into the page is the next part of its
call. -/
theorem WriteStep.sem (h : WriteStep t s k e s' k') (hK : Knows k (s, g)) :
    Keeps .sem (s, g) k (s', g.note e) k' := by
  have hinside : Inside s := ((hK .page).2 rfl).1
  cases h with
  | call | interrupted => exact keeps_sem_outside rfl rfl rfl rfl rfl fun _ => id
  | down hfree =>
      refine .enter rfl rfl hfree rfl fun hR => ⟨?_, trivial⟩
      change g.taken ++ [] = g.ended ++ [] ++ []
      rw [List.append_nil, List.append_nil, List.append_nil]
      exact hR
  | more | done | prepare | awake | signalled | signal | finishSignal | fault =>
      exact keeps_sem_within rfl rfl rfl (List.append_nil _) fun _ => trivial
  | @finish space c =>
      refine keeps_sem_within rfl rfl rfl (List.append_nil _) fun hroom => ?_
      exact Writing.of_out (j := .writeCopy space c) hroom rfl
  | @space look c =>
      refine keeps_sem_within rfl rfl rfl (List.append_nil _) fun _ hge => ?_
      exact of_decide_eq_true hge
  | @spaceTail look ge c =>
      have hge : ge = true → s.tail ≤ s.head := ((hK .sem).1 rfl).2
      obtain ⟨hin, htaken, hnext⟩ := writing_next look c (hinside.room hge)
      refine keeps_sem_within rfl hin rfl ?_ fun _ => hnext
      rw [htaken]
      exact List.append_nil _
  | @copy space c =>
      refine keeps_sem_within rfl rfl rfl (List.append_nil _) fun hroom => ?_
      have hless := Room.mono hroom (Nat.min_le_left space c.rest.length)
      have hlen : (c.rest.take space).length = min space c.rest.length := List.length_take
      refine ⟨⟨hless.fits, hless.free⟩, ?_⟩
      have hslice := slice_store s.cells s.head (c.rest.take space) []
      rw [List.append_nil, hlen] at hslice
      refine hslice.trans ?_
      rw [List.take_eq_take_iff, Nat.min_assoc, Nat.min_self]
  | @advance space c =>
      refine keeps_sem_within rfl rfl rfl ?_ fun _ => trivial
      exact (List.take_add ..).symm
  | @start c hfree =>
      refine keeps_sem_within rfl rfl ?_ (List.append_nil _) fun _ => trivial
      unfold Shared.startOutput
      split <;> rfl
  | faultUp | out =>
      refine .leave rfl rfl rfl fun ⟨hledger, _⟩ => ?_
      change g.taken ++ [] = _
      rw [List.append_nil]
      exact hledger

/-- The writer only adds to what the work function may rely on, that there is a byte. -/
theorem WriteStep.work (h : WriteStep t s k e s' k') (hK : Knows k (s, g)) :
    Keeps .work (s, g) k (s', g.note e) k' := by
  cases h with
  | @advance space c =>
      have hinside : Inside s := ((hK .page).2 rfl).1
      obtain ⟨hroom, -⟩ : Room s space ∧ _ := ((hK .sem).1 rfl).2
      -- what is not empty does not get empty by more
      have hne (s' : Shared ι) (hhead : s'.head = incrOutBp s.head space) (htail : s'.tail = s.tail)
          (hj : s.head ≠ s.tail) : s'.head ≠ s'.tail := by
        obtain ⟨hinside', hused⟩ := hinside.advance hroom hhead htail
        intro heq
        rw [heq, used_self] at hused
        exact hj ((used_eq_zero_iff hinside.tail hinside.head).mp (by omega)).symm
      refine .outside rfl rfl rfl id fun j _ hj => ?_
      cases j with
      | workModTimer | workStrobe => exact hne _ rfl rfl hj
      | _ => trivial
  | @start c hfree =>
      refine keeps_work_same rfl rfl ?_ ?_ ?_ <;>
      · unfold Shared.startOutput
        split <;> rfl
  | @spaceTail look ge c => exact keeps_work_same rfl (next_outside ..).1 rfl rfl rfl
  | _ => exact keeps_work_same rfl rfl rfl rfl rfl

/-- The writer, with the spin lock for one step, leaves it as it was. -/
theorem WriteStep.spin (h : WriteStep t s k e s' k') :
    Keeps .spin (s, g) k (s', g.note e) k' := by
  cases h with
  | @start c hfree =>
      refine .through rfl rfl hfree ?_ id
      unfold Shared.startOutput
      split <;> exact hfree
  | @spaceTail look ge c => exact keeps_spin_same rfl (next_outside ..).2 rfl rfl
  | _ => exact keeps_spin_same rfl rfl rfl rfl

/-- The writer does right by all locks: the statements put together, lock by lock. -/
theorem WriteStep.keeps (h : WriteStep t s k e s' k') (hK : Knows k (s, g)) (x : Lock) :
    Keeps x (s, g) k (s', g.note e) k' := by
  cases x with
  | page => exact h.page hK
  | sem => exact h.sem hK
  | work => exact h.work hK
  | spin => exact h.spin

/-! ### The work function -/

omit [DecidableEq ι] in
/-- What the writer relies on stays true while a byte is taken out: what is free stays free, the
cells stay as they are, and a tail that was not ahead of the head does not get there. -/
theorem Writing.strobe {j : Pc} (h : Writing s j) (hinside : Inside s) (hne : s.head ≠ s.tail)
    (hcells : s'.cells = s.cells) (hhead : s'.head = s.head)
    (htail : s'.tail = incrOutBp s.tail 1) : Writing s' j := by
  obtain ⟨hinside', hused⟩ := hinside.strobe hne hhead htail
  have hroom {space : ℕ} (hr : Room s space) : Room s' space := by
    have hfree := hr.free
    exact ⟨hhead ▸ hr.fits, by omega⟩
  cases j with
  | writeSpaceTail look ge c =>
      intro hge
      have hlt : s.tail < s.head := lt_of_le_of_ne (h hge) hne.symm
      rw [hhead, htail, incrOutBp, if_neg (Nat.not_le.mpr (lt_of_le_of_lt hlt hinside.head))]
      exact hlt
  | writeFinish | writeCopy => exact hroom h
  | writeAdvance => exact ⟨hroom h.1, by rw [hcells, hhead]; exact h.2⟩
  | _ => trivial

omit [DecidableEq ι] in
/-- The work function keeps the page in order: it takes out the first byte. -/
theorem WorkStep.page (h : WorkStep s k e s' k') (hK : Knows k (s, g)) :
    Keeps .page (s, g) k (s', g.note e) k' := by
  cases h with
  | strobe =>
      have hne : s.head ≠ s.tail := (hK .work).1 rfl
      refine keeps_page fun hinside => ?_
      have hmoved (s' : Shared ι) (hcells : s'.cells = s.cells) (hhead : s'.head = s.head)
          (htail : s'.tail = incrOutBp s.tail 1) :
          Inside s' ∧ pending s ++ [] = [s.cells s.tail] ++ pending s' := by
        rw [List.append_nil, pending_strobe hinside hne hcells hhead htail]
        exact ⟨(hinside.strobe hne hhead htail).1, rfl⟩
      exact hmoved _ rfl rfl rfl
  | _ => exact keeps_page_same rfl rfl rfl

omit [DecidableEq ι] in
/-- To the writer, the work function only makes room; it puts nothing into the page and ends no
call. -/
theorem WorkStep.sem (h : WorkStep s k e s' k') (hK : Knows k (s, g)) :
    Keeps .sem (s, g) k (s', g.note e) k' := by
  cases h with
  | strobe =>
      have hinside : Inside s := ((hK .page).2 rfl).1
      have hne : s.head ≠ s.tail := (hK .work).1 rfl
      exact keeps_sem_outside rfl rfl rfl rfl rfl fun j hj => hj.strobe hinside hne rfl rfl rfl
  | _ => exact keeps_sem_outside rfl rfl rfl rfl rfl fun j hj => hj.of_out rfl

omit [DecidableEq ι] in
/-- The work function's own knowledge: there is a byte from when it has looked until it is taken
out. -/
theorem WorkStep.work (h : WorkStep s k e s' k') : Keeps .work (s, g) k (s', g.note e) k' := by
  cases h with
  | call _ hfree => exact .enter rfl rfl hfree rfl fun _ => trivial
  | byte hne => exact .within rfl rfl rfl fun _ => hne
  | modTimer => exact .within rfl rfl rfl id
  | done => exact .leave rfl rfl rfl fun _ => trivial
  | _ => exact .within rfl rfl rfl fun _ => trivial

omit [DecidableEq ι] in
/-- Output stays inactive from when the work function has said so, for nobody starts it without the
spin lock. -/
theorem WorkStep.spin (h : WorkStep s k e s' k') : Keeps .spin (s, g) k (s', g.note e) k' := by
  cases h with
  | lock hfree => exact .enter rfl rfl hfree rfl fun _ => trivial
  | inactive => exact .within rfl rfl rfl fun _ => rfl
  | wakeEmpty => exact .within rfl rfl rfl id
  | empty | byte | delTimer | modTimer | strobe | wakeOut | noSpace =>
      exact .within rfl rfl rfl fun _ => trivial
  | unlock => exact .leave rfl rfl rfl fun _ => trivial
  | call | ready | sprintf | advance | wake | done => exact keeps_spin_same rfl rfl rfl rfl

omit [DecidableEq ι] in
/-- The work function does right by all locks: the statements put together, lock by lock. -/
theorem WorkStep.keeps (h : WorkStep s k e s' k') (hK : Knows k (s, g)) (x : Lock) :
    Keeps x (s, g) k (s', g.note e) k' := by
  cases x with
  | page => exact h.page hK
  | sem => exact h.sem hK
  | work => exact h.work
  | spin => exact h.spin

/-- **Every statement does right by every lock**: the step lemma of the invariant. -/
theorem Step.keeps (h : Step t s k e s' k') (hK : Knows k (s, g)) (x : Lock) :
    Keeps x (s, g) k (s', g.note e) k' := by
  cases h with
  | write h => exact h.keeps hK x
  | work h => exact h.keeps hK x
  | handler h => exact h.keeps x
  | close h => exact h.keeps x
  | readCall => exact keeps_same rfl rfl rfl rfl rfl
  | @read r k k' e h => cases k' <;> exact keeps_same rfl rfl rfl rfl rfl

end Statements

/-! ### Results -/

section Results

variable [DecidableEq ι]

/-- The driver, with what has been said as a history beside its state. -/
def recorded (ι : Type) [DecidableEq ι] : Threads ι (Shared ι × Ledger) Pc Event :=
  (shortprint ι).track Ledger.note ⟨[], [], []⟩

/-- The locks keep what they should, initially and by every statement. -/
theorem locks_guarded (x : Lock) : Guarded (recorded ι) (fun _ => Knows) x.free x.inside x.protects
    x.allows where
  start := by cases x <;> rfl
  init := by
    rintro ⟨s, g⟩ ⟨⟨cells, incells, hs⟩, hg⟩
    have hs : s = .initial cells incells := hs
    have hg : g = ⟨[], [], []⟩ := hg
    subst hs hg
    cases x with
    | page =>
        refine ⟨rfl, ⟨PAGE_SIZE_pos, PAGE_SIZE_pos⟩, ?_⟩
        change [] = [] ++ contents cells PAGE_SIZE 0 (used PAGE_SIZE 0 0)
        rw [used_self]
        rfl
    | sem => exact ⟨rfl, rfl⟩
    | work | spin => exact ⟨rfl, trivial⟩
  step := by
    rintro t ⟨s, g⟩ k e ⟨s', g'⟩ k' ⟨hstep, hg⟩ hK
    have hg : g' = g.note e := hg
    subst hg
    exact hstep.keeps hK x

variable {s s₀ s' : State ι (Shared ι) Pc} {ls : List (ι × Event)}

/-- In every reachable state each lock is free and what it protects is in order, or one thread has
it and may rely on what it allows. -/
theorem locks_held {s : State ι (Shared ι × Ledger) Pc} (h : (recorded ι).lts.Reachable s)
    (x : Lock) : Held x.free x.inside x.protects x.allows s := Guarded.held_all locks_guarded h x

/-- What goes into the page in a run. -/
def taken (ls : List (ι × Event)) : List UInt8 := ls.flatMap fun l => l.2.taken

/-- What the printer gets in a run. -/
def given (ls : List (ι × Event)) : List UInt8 := ls.flatMap fun l => l.2.given

/-- What the calls have put into the page that have ended, whether they returned how much or
`-EFAULT`. -/
def ended (ls : List (ι × Event)) : List UInt8 := ls.flatMap fun l => l.2.ended

/-- **No copy leaves the page**, or touches what is not printed yet: in every reachable state, a
copy of `k` bytes goes to the head, ends with the page at most, and leaves at least one byte free.
-/
theorem writes_inside {t : ι} {p k : ℕ} (h : (shortprint ι).lts.Reachable s)
    (hstep : (shortprint ι).lts.step s (t, .copyIn p k) s') :
    p = s.shared.head ∧ p + k ≤ PAGE_SIZE ∧ (pending s.shared).length + k < PAGE_SIZE := by
  obtain ⟨g, hreach⟩ : ∃ g, (recorded ι).lts.Reachable ⟨(s.shared, g), s.pc⟩ := Reachable.track h
  obtain ⟨k', hk', -⟩ := hstep
  rw [pending, length_contents]
  have hroom {space : ℕ} {c : Call} (hpc : s.pc t = .writeCopy space c) :
      s.shared.head + min space c.rest.length ≤ PAGE_SIZE ∧
        used PAGE_SIZE s.shared.tail s.shared.head + min space c.rest.length < PAGE_SIZE := by
    have hallows := ((locks_held hreach .sem).of_inside (t := t) (by rw [hpc]; rfl)).2.1
    rw [hpc] at hallows
    have hless := Room.mono (s := s.shared) hallows.2 (Nat.min_le_left space c.rest.length)
    exact ⟨hless.fits, hless.free⟩
  generalize hpc : s.pc t = k at hk'
  generalize s'.shared = s₁ at hk'
  cases hk' with
  | write h =>
      cases h with
      | copy | fault => exact ⟨rfl, hroom hpc⟩
  | work h => cases h
  | handler h => cases h
  | close h => cases h

/-- **What is printed is what was written, call after call**, in every run.  What the printer was
given and what still is in the page is what the calls have put there that have ended, one behind the
other, and then what the one call has put there that is under way (`current`); with the semaphore
free there is none.  A call that returns a count has put there so many of its bytes; a call that
returns `-EFAULT` has put there the chunks before the one that could not be copied. -/
theorem prints_in_order (hinit : (shortprint ι).lts.init s₀) (h : (shortprint ι).lts.Run s₀ ls s) :
    ∃ current, given ls ++ pending s.shared = ended ls ++ current ∧
      (s.shared.sem = true → current = []) ∧
        ∀ t, (s.pc t).writing = true → current = (s.pc t).taken := by
  have hreach : (recorded ι).lts.Reachable ⟨(s.shared, _), s.pc⟩ :=
    reachable_track hinit h
  rw [foldl_note] at hreach
  simp only [List.nil_append, List.flatMap_map] at hreach
  have hpage : taken ls = given ls ++ pending s.shared :=
    ((locks_held hreach .page).of_free rfl).1.2
  rcases locks_held hreach .sem with ⟨hfree, hledger, hout⟩ | ⟨htaken, t, ht, hledger, hothers⟩
  · refine ⟨[], ?_, fun _ => rfl, fun t ht => ?_⟩
    · rw [← hpage, List.append_nil]
      exact hledger
    · exact absurd ((hout t).symm.trans ht) Bool.false_ne_true
  · refine ⟨(s.pc t).taken, ?_, fun hfree => ?_, fun u hu => ?_⟩
    · rw [← hpage]
      exact hledger.1
    · exact absurd (htaken.symm.trans hfree) Bool.false_ne_true
    · by_cases hut : u = t
      · rw [hut]
      · exact absurd ((hothers u hut).symm.trans hu) Bool.false_ne_true

/-- Two bytes were written, and the work is queued. -/
def twoWritten : Shared Unit :=
  { Shared.initial (store (fun _ => 0) 0 [65, 66]) (fun _ => 0) with
    head := 2, active := true, timer := true, work := true }

/-- A call writes two bytes to the empty page and returns, after it has started the output. -/
theorem written_run : ∃ es,
    Solo (shortprint Unit) () (.initial (fun _ => 0) (fun _ => 0)) .idle es twoWritten .idle ∧
      es.flatMap Event.given = [] ∧ es.flatMap Event.ended = [65, 66] := by
  have hrun := Solo.start (T := shortprint Unit) (t := ())
      (s := .initial (fun _ => 0) (fun _ => 0)) (k := .idle)
    |>.next (.write (@WriteStep.call _ _ _ _ [65, 66]))
    |>.next (.write (.down rfl))
    |>.next (.write (.more (by decide)))
    |>.next (.write .space)
    |>.next (.write .spaceTail)
    |>.next (.write (@WriteStep.copy _ _ _ _ 4095 _))
    |>.next (.write .advance)
    |>.next (.write (.start rfl))
    |>.next (.write (.done (by decide)))
    |>.next (.write .out)
  exact ⟨_, hrun, rfl, rfl⟩

/-- The work function runs once: one of the two bytes is printed, and the other one is in the page.
-/
theorem prints_in_order_two : ∃ s : Shared Unit, s.sem = true ∧ [65] ++ pending s = [65, 66] := by
  obtain ⟨es, hrun, hgiven, hended⟩ := written_run
  have hprint := hrun
    |>.next (.work (.call rfl rfl))
    |>.next (.work .ready)
    |>.next (.work (.lock rfl))
    |>.next (.work (.byte (by decide)))
    |>.next (.work .modTimer)
    |>.next (.work .strobe)
  obtain ⟨current, hprinted, hfree, -⟩ :=
    prints_in_order ⟨⟨_, _, rfl⟩, fun _ => rfl⟩ hprint.run_start
  rw [hfree rfl, List.append_nil, given, ended, List.flatMap_map, List.flatMap_map] at hprinted
  simp only [List.append_assoc, List.flatMap_append, hgiven, hended] at hprinted
  exact ⟨_, by exact rfl, hprinted⟩

end Results

end LeipoCode.Shortprint
