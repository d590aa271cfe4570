import LeipoCode.Scull.Storage

/-!
# The memory device is a file with holes

To the processes that use it the device is a file with holes (`Lib.SparseFile`), of which they are
callers (`Lib.Callers`): each call has its effect on the file at one instant between its beginning
and its return, and returns what the effect has given.

* `runs_as_sparse_file` — **what the threads do, in any order, callers of a file with holes do**,
  with the same calls, effects and returns;
* `reads_what_was_written` — **what a read returns** is what was written last, when it took effect;
* `never_wild` — no division by zero, and no index or copy outside its block.

Three things are needed that the driver does not see to.  The parameters of the device are `Valid`,
when the module is loaded and whenever it is trimmed: a quantum of 0 bytes is divided by
(`zero_quantum`).  A call still finds the parameters that it has looked at when it gets the
semaphore (`stale_parameters`), and its position is one that the number of an item, an `int`, can
reach (`far_position`).

### How it goes

The threads are tracked with the history of what the calls have done (`recorded`), and the semaphore
guards that this history is a run of a file with holes which the device stores (`Resource`).  A call
that has the semaphore knows more at each statement (`Local`); the file it knows of is the one
before its effect until the statement that shows the effect, and `Local` of the copy and the new
size says in what way the device is then ahead of the file.

That a program point says how far its call is (`Pc.stage`) is a matter of the program alone, without
any invariant.  The two come together in `Threads.run_callers`, from which all that is said of
callers follows: in particular that what a call returns is what its effect has given, and that the
effect was between its beginning and its return.

The copy to or from a process may fail, and memory may be short.  A copy that fails, and a write
that finds no memory, have effects of their own in `Lib.SparseFile`, for which the call returns
`-EFAULT` or `-ENOMEM` and for no others (`Answers`); a read that finds no memory is one of a hole,
and returns nothing.  A call that is interrupted while it waits for the semaphore has no effect, and
says so.
-/

namespace LeipoCode.Scull

open Blocks Threads

/-! ### The calls -/

/-- What the effects on the file have to do with the calls and what they return: a read has a read
of the file at its position for an effect and returns what that has given, and a write returns how
much it has written.  A call that fails still has an effect, which may have changed the file. -/
inductive Answers : Call → SparseFile.Event UInt8 → Result → Prop
  | trimmed : Answers .open_ .truncate .done
  | read {pos count : ℕ} {data : List UInt8} :
      Answers (.read pos count) (.read pos count data) (.read data)
  | readFault {pos count : ℕ} : Answers (.read pos count) (.readFault pos) (.error .EFAULT)
  | write {pos n : ℕ} {data : List UInt8} :
      Answers (.write pos data) (.write pos data n) (.wrote n)
  | writeFault {pos : ℕ} {data arrived : List UInt8} :
      arrived.length ≤ data.length →
      Answers (.write pos data) (.writeFault pos arrived) (.error .EFAULT)
  | noMem {pos : ℕ} {data : List UInt8} :
      Answers (.write pos data) (.noMem pos) (.error .ENOMEM)

/-- A call has its effect, or is interrupted while it waits for the semaphore and has none. -/
def scullCalls : Interface Call (SparseFile.Event UInt8) Result where
  answers := Answers
  refuses _ r := r = .error .ERESTARTSYS

/-- How far a call is: it has its effect at the statement that leads from `asked` to `answered`. -/
def Pc.stage : Pc → CallStage Call Result
  | idle | oops => .idle
  | openDown | openFree | openSize | openQuantum | openQset | openData => .asked .open_
  | openUp => .answered .done
  | readQset pos count _ => .asked (.read pos count)
  | readDown c count | readTest c count | readFollow c count _ | readFind c count _
  | readCopy c count _ => .asked (.read c.pos count)
  | readUp bytes => .answered (.read bytes)
  | writeQset pos data _ => .asked (.write pos data)
  | writeDown c data | writeFollow c data | writeSlots c data | writeBlock c data
  | writeCopy c data | writeSize c data _ => .asked (.write c.pos data)
  | writeUp n => .answered (.wrote n)
  | errorUp e => .answered (.error e)

/-- Every statement is one of a caller, unless it goes astray: it begins a call, has its effect,
returns what that has given, or is nothing to the caller. -/
theorem Step.stage {s s' : Shared} {k k' : Pc} {e : Event} (h : Step s k e s' k')
    (hk' : k' ≠ .oops) : scullCalls.StageStep k.stage e k'.stage := by
  cases h with
  | open_ h =>
      cases h with
      | call => exact .called
      | interrupted => exact .refused rfl
      | wild => exact absurd rfl hk'
      | data => exact .effect .trimmed
      | up => exact .returned
      | _ => exact .silent
  | read h =>
      cases h with
      | call => exact .called
      | interrupted => exact .refused rfl
      | divide | wildSlot | wildCopy => exact absurd rfl hk'
      | eof | noMem | noSlots | hole | copy => exact .effect .read
      | fault => exact .effect .readFault
      | up => exact .returned
      | _ => exact .silent
  | write h =>
      cases h with
      | call => exact .called
      | interrupted => exact .refused rfl
      | divide | wildSlot | wildCopy => exact absurd rfl hk'
      | noMem | noSlots | noBlock => exact .effect .noMem
      | fault _ _ _ hlen => exact .effect (.writeFault (hlen.trans_le (Nat.min_le_left ..)))
      | size => exact .effect .write
      | up => exact .returned
      | _ => exact .silent
  | errorUp => exact .returned
  | setQuantum | setQset | reset => exact .silent

/-! ### The semaphore -/

/-- What is needed: the parameters that a call has looked at are those of the device when it gets
the semaphore, and reach its position (`Access.Current`); and those that `scull_trim` puts in can be
computed with.  These are conditions on the state before a statement of the run, and on nothing it
computes. -/
def Steady (s : Shared) (k : Pc) (e : Event) : Prop :=
  match k, e with
  | .readDown c _, .silent | .writeDown c _, .silent => c.Current s.dev
  | .openData, _ => Valid s.dev.quantum s.dev.qset
  | _, _ => True

/-- What the calls have done: their effects, in the order in which they had them. -/
abbrev History := List (SparseFile.Event UInt8)

/-- The device, and what the calls have done, in the runs that are steady. -/
def recorded (ι : Type) (quantum qset : ℤ) : Threads ι (Shared × History) Pc Event :=
  ((scull ι quantum qset).restrict Steady).track CallEvent.record []

section Guard

variable (f₀ : SparseFile UInt8)

/-- Between `down` and `up`.  A thread that has gone astray keeps the semaphore, so what it may rely
on is false. -/
def Pc.inside : Pc → Bool
  | openFree | openSize | openQuantum | openQset | openData | openUp | readTest _ _
  | readFollow _ _ _ | readFind _ _ _ | readCopy _ _ _ | readUp _ | writeFollow _ _
  | writeSlots _ _ | writeBlock _ _ | writeCopy _ _ | writeSize _ _ _ | writeUp _ | errorUp _
  | oops => true
  | idle | openDown | readQset _ _ _ | readDown _ _ | writeQset _ _ _ | writeDown _ _ => false

/-- The file that the calls have made of `f₀`: the history is a run of it. -/
abbrev Made (es : History) (f : SparseFile UInt8) : Prop := (SparseFile.system UInt8).Run f₀ es f

/-- What holds while the semaphore is free: the history is that of a file, and the device stores it.
-/
def Resource (d : ScullDev) (es : History) : Prop := ∃ f, Made f₀ es f ∧ Stored d f

/-- What the thread inside may rely on.  `scull_trim` relies on no more than that there is a file,
until it has emptied it; a read knows what is left of its count, and a write whose copy is done
knows the bytes that are on the device and not yet in the file. -/
def Local (d : ScullDev) (es : History) : Pc → Prop
  | .openSize => ∃ f, Made f₀ es f
  | .openQuantum | .openQset | .openData => d.size = 0 ∧ ∃ f, Made f₀ es f
  | .readTest c _ | .writeFollow c _ => c.Current d ∧ Resource f₀ d es
  | .readFollow c count n | .readFind c count n => c.Current d ∧
      ∃ f, Made f₀ es f ∧ Stored d f ∧ c.pos < f.size ∧ n = min count (f.size - c.pos)
  | .readCopy c count n => c.Current d ∧ ∃ f, Made f₀ es f ∧ Stored d f ∧ c.pos < f.size ∧
      n = min (min count (f.size - c.pos)) (f.room c.pos)
  | .writeSlots c _ => c.Current d ∧ c.hops < d.data.length ∧ Resource f₀ d es
  | .writeBlock c _ => c.Current d ∧ slots d.data c.hops ≠ none ∧ Resource f₀ d es
  | .writeCopy c _ => c.Current d ∧
      ∃ f fresh, Made f₀ es f ∧ Stored d (f.put c.pos [] fresh)
  | .writeSize c data n => ∃ f fresh, Made f₀ es f ∧ n = min data.length (f.room c.pos) ∧
      Stored d (f.put c.pos (data.take n) fresh)
  | .oops => False
  | _ => Resource f₀ d es

/-- What a statement does about the semaphore: a step of a lock, in the sense of `Lib.Threads`. -/
abbrev SemStep (s : Shared × History) (k : Pc) (s' : Shared × History) (k' : Pc) : Prop :=
  LockStep (fun s => s.1.dev.sem) Pc.inside (fun s => Resource f₀ s.1.dev s.2)
    (fun k s => Local f₀ s.1.dev s.2 k) s k s' k'

variable {f₀} {s s' : Shared} {k k' : Pc} {e : Event} {es : History}

/-- A statement without the semaphore leaves the device alone, and so what the semaphore guards. -/
theorem semStep_outside (hk : k.inside = false) (hk' : k'.inside = false)
    (hdev : s'.dev = s.dev) : SemStep f₀ (s, es) k (s', es) k' :=
  .outside hk hk' (by rw [hdev]) (fun hR => by rwa [hdev]) (fun j _ hL => by rwa [hdev])

/-- Whether the semaphore is free is no part of what is stored. -/
theorem Resource.setSem {d : ScullDev} (h : Resource f₀ d es) {free : Bool} :
    Resource f₀ { d with sem := free } es := by
  obtain ⟨f, hf, hs⟩ := h
  exact ⟨f, hf, hs.congr rfl rfl rfl rfl⟩

/-- A call that leaves the file alone adds its effect to the history, and the device goes on to
store the file. -/
theorem Resource.told {d : ScullDev} {f : SparseFile UInt8} (hf : Made f₀ es f) (hs : Stored d f)
    {e : SparseFile.Event UInt8} (h : SparseFile.Step f e f) : Resource f₀ d (es ++ [e]) :=
  ⟨f, hf.snoc h, hs⟩

/-- Wherever the thread with the semaphore is, the effects up to now are those of a file. -/
theorem Local.made {d : ScullDev} (h : Local f₀ d es k) : ∃ f, Made f₀ es f := by
  cases k
  case oops => exact h.elim
  case openSize => exact h
  case openQuantum | openQset | openData => exact h.2
  case readTest | writeFollow =>
    obtain ⟨-, f, hf, -⟩ := h
    exact ⟨f, hf⟩
  case readFollow | readFind | readCopy =>
    obtain ⟨-, f, hf, -⟩ := h
    exact ⟨f, hf⟩
  case writeSlots | writeBlock =>
    obtain ⟨-, -, f, hf, -⟩ := h
    exact ⟨f, hf⟩
  case writeCopy =>
    obtain ⟨-, f, -, hf, -⟩ := h
    exact ⟨f, hf⟩
  case writeSize =>
    obtain ⟨f, -, hf, -⟩ := h
    exact ⟨f, hf⟩
  all_goals
    obtain ⟨f, hf, -⟩ := h
    exact ⟨f, hf⟩

/-- `scull_open` empties the device and the file at one statement, with parameters that can be
computed with (`hsteady`). -/
theorem OpenStep.sem (h : OpenStep s k e s' k') (hsteady : Steady s k e) :
    SemStep f₀ (s, es) k (s', CallEvent.record es e) k' := by
  cases h with
  | call | interrupted => exact semStep_outside rfl rfl rfl
  | down hfree => exact .enter rfl rfl hfree rfl fun hR => hR.setSem
  | free => exact .within rfl rfl rfl fun ⟨f, hf, _⟩ => ⟨f, hf⟩
  | @wild i ss hss hlt =>
      refine .within rfl rfl rfl fun ⟨f, hf, hs⟩ => ?_
      have hlen : ss.length = s.dev.qset.toNat := hs.shaped.slots _ _ hss
      omega
  | size => exact .within rfl rfl rfl fun hf => ⟨rfl, hf⟩
  | quantum | qset => exact .within rfl rfl rfl fun h => h
  | data =>
      refine .within rfl rfl rfl fun ⟨hsize, f, hf⟩ => ?_
      have hvalid : Valid s.dev.quantum s.dev.qset := hsteady
      refine ⟨_, hf.snoc (.truncate (Int.pos_iff_toNat_pos.mp hvalid.quantum_pos)), hvalid, ?_,
        hsize, Shaped.empty, rfl⟩
      exact (Int.toNat_of_nonneg hvalid.quantum_pos.le).symm
  | up => exact .leave rfl rfl rfl fun hR => hR.setSem

/-- `scull_read` leaves the file alone, and what it copies is what the file says is there. -/
theorem ReadStep.sem (h : ReadStep s k e s' k') (hsteady : Steady s k e) :
    SemStep f₀ (s, es) k (s', CallEvent.record es e) k' := by
  cases h with
  | call | qset | interrupted => exact semStep_outside rfl rfl rfl
  | down hfree =>
      exact .enter rfl rfl hfree rfl fun hR => ⟨⟨hsteady.1, hsteady.2, hsteady.3⟩, hR.setSem⟩
  | @eof c count hend =>
      refine .within rfl rfl rfl fun ⟨hc, f, hf, hs⟩ => Resource.told hf hs ?_
      rw [← SparseFile.readAt_end (hs.size ▸ hend) count]
      exact .read
  | @test c count hlt =>
      refine .within rfl rfl rfl fun ⟨hc, f, hf, hs⟩ => ⟨hc, f, hf, hs, hs.size ▸ hlt, ?_⟩
      have hsize : s.dev.size = f.size := hs.size
      rw [hsize]
      split <;> omega
  | divide hzero =>
      refine .within rfl rfl rfl fun ⟨hc, f, hf, hs, _⟩ => ?_
      exact (hc.fits hs).itemsize_ne_zero hzero
  | @follow c count n granted _ _ hfound =>
      refine .within rfl rfl rfl fun ⟨hc, f, hf, hs, hrest⟩ => ?_
      exact ⟨⟨hc.1, hc.2, hc.3⟩, f, hf, hs.follow c.hops granted, hrest⟩
  | @noMem c count n granted _ _ hnone =>
      refine .within rfl rfl rfl fun ⟨hc, f, hf, hs, _⟩ => ?_
      refine Resource.told hf (hs.follow c.hops granted) ?_
      rw [← SparseFile.readAt_hole (hs.hole_of_follow hc hnone) count]
      exact .read
  | @noSlots c count n hnone =>
      refine .within rfl rfl rfl fun ⟨hc, f, hf, hs, _⟩ => Resource.told hf hs ?_
      rw [← SparseFile.readAt_hole (hs.hole_of_slots hc hnone) count]
      exact .read
  | wildSlot hwild =>
      exact .within rfl rfl rfl fun ⟨hc, f, hf, hs, _⟩ => hs.not_wildSlot hc hwild
  | @hole c count n _ _ hnone =>
      refine .within rfl rfl rfl fun ⟨hc, f, hf, hs, _⟩ => Resource.told hf hs ?_
      rw [← SparseFile.readAt_hole (hs.hole hc hnone) count]
      exact .read
  | @block c count n b =>
      refine .within rfl rfl rfl fun ⟨hc, f, hf, hs, hpos, hn⟩ => ⟨hc, f, hf, hs, hpos, ?_⟩
      rw [hs.clip hc, hn]
  | @wildCopy c count n b hb hwild =>
      refine .within rfl rfl rfl fun ⟨hc, f, hf, hs, _, hn⟩ => hwild (hs.inside hc hb ?_)
      exact hn ▸ Nat.min_le_right _ _
  | @copy c count n b hb =>
      refine .within rfl rfl rfl fun ⟨hc, f, hf, hs, _, hn⟩ => Resource.told hf hs ?_
      rw [hs.readAt_eq hc hb hn]
      exact .read
  | @fault c count n b hb =>
      refine .within rfl rfl rfl fun ⟨hc, f, hf, hs, hpos, _⟩ => ?_
      exact Resource.told hf hs (.readFault hpos (hs.cells_ne_none hc hb))
  | up => exact .leave rfl rfl rfl fun hR => hR.setSem

/-- `scull_write` puts its bytes on the device when it copies them, and into the file when it has
set the size. -/
theorem WriteStep.sem (h : WriteStep s k e s' k') (hsteady : Steady s k e) :
    SemStep f₀ (s, es) k (s', CallEvent.record es e) k' := by
  cases h with
  | call | qset | interrupted => exact semStep_outside rfl rfl rfl
  | down hfree =>
      exact .enter rfl rfl hfree rfl fun hR => ⟨⟨hsteady.1, hsteady.2, hsteady.3⟩, hR.setSem⟩
  | divide hzero =>
      refine .within rfl rfl rfl fun ⟨hc, f, hf, hs⟩ => ?_
      exact (hc.fits hs).itemsize_ne_zero hzero
  | @follow c data granted _ _ hfound =>
      refine .within rfl rfl rfl fun ⟨hc, f, hf, hs⟩ => ?_
      exact ⟨⟨hc.1, hc.2, hc.3⟩, Stored.hops_lt hfound, f, hf, hs.follow c.hops granted⟩
  | @noMem c data granted _ _ hnone =>
      refine .within rfl rfl rfl fun ⟨hc, f, hf, hs⟩ => ?_
      exact Resource.told hf (hs.follow c.hops granted) (.noMem (hs.hole_of_follow hc hnone))
  | slots hsome => exact .within rfl rfl rfl fun ⟨hc, _, hR⟩ => ⟨hc, hsome, hR⟩
  | @kmallocSlots c data hnone hnonneg =>
      refine .within rfl rfl rfl fun ⟨hc, hlen, f, hf, hs⟩ => ?_
      refine ⟨⟨hc.1, hc.2, hc.3⟩, ?_, f, hf, hs.kmallocSlots hc hnone hlen⟩
      change Blocks.slots (setSlots _ _ _) _ ≠ none
      rw [slots_setSlots hlen, if_pos rfl]
      exact Option.some_ne_none _
  | noSlots hnone =>
      refine .within rfl rfl rfl fun ⟨hc, _, f, hf, hs⟩ => ?_
      exact Resource.told hf hs (.noMem (hs.hole_of_slots hc hnone))
  | wildSlot hwild =>
      exact .within rfl rfl rfl fun ⟨hc, _, f, hf, hs⟩ => hs.not_wildSlot hc hwild
  | @block c data b _ hb =>
      refine .within rfl rfl rfl fun ⟨hc, _, f, hf, hs⟩ => ⟨hc, f, fun _ => 0, hf, ?_⟩
      exact hs.of_cells rfl rfl (SparseFile.put_nil (hs.cells_ne_none hc hb))
  | @kmallocBlock c data junk _ hnone hnonneg =>
      refine .within rfl rfl rfl fun ⟨hc, hsome, f, hf, hs⟩ => ?_
      obtain ⟨ss, hss⟩ := Option.ne_none_iff_exists'.mp hsome
      exact ⟨⟨hc.1, hc.2, hc.3⟩, f, _, hf, hs.kmallocBlock hc hss hnone junk⟩
  | noBlock _ hnone =>
      refine .within rfl rfl rfl fun ⟨hc, _, f, hf, hs⟩ => ?_
      exact Resource.told hf hs (.noMem (hs.hole hc hnone))
  | @wildCopy c data b hb hwild =>
      refine .within rfl rfl rfl fun ⟨hc, f, fresh, hf, hs⟩ => hwild (hs.inside hc hb ?_)
      rw [hs.clip hc]
      exact Nat.min_le_right _ _
  | @copy c data b hb =>
      refine .within rfl rfl rfl fun ⟨hc, f, fresh, hf, hs⟩ => ⟨f, fresh, hf, ?_, ?_⟩
      · exact hs.clip hc
      · refine (hs.copyIn hc hb ?_ fresh).of_cells rfl rfl SparseFile.put_put.symm
        rw [hs.clip hc]
        exact (List.length_take_le _ _).trans (Nat.min_le_right _ _)
  | @fault c data b arrived hb _ _ hlen =>
      refine .within rfl rfl rfl fun ⟨hc, f, fresh, hf, hs⟩ => ?_
      have hroom : arrived.length ≤ f.room c.pos := by
        rw [hlen, hs.clip hc]
        exact Nat.min_le_right _ _
      refine ⟨_, hf.snoc (.writeFault fresh hroom), ?_⟩
      exact (hs.copyIn hc hb hroom fresh).of_cells rfl rfl SparseFile.put_put.symm
  | @size c data n =>
      refine .within rfl rfl rfl fun ⟨f, fresh, hf, hn, hs⟩ => ?_
      have htake : data.take n = data.take (f.room c.pos) := by
        rw [hn, List.take_eq_take_iff]
        omega
      have hsize : s.dev.size = f.size := hs.size
      rw [htake] at hs
      subst hn
      refine ⟨_, hf.snoc (.write fresh), ?_⟩
      obtain ⟨hvalid, hquantum, -, hshaped, hcells⟩ := hs
      refine ⟨hvalid, hquantum, ?_, hshaped, hcells⟩
      change (if s.dev.size < c.pos + _ then c.pos + _ else s.dev.size) = max f.size _
      rw [hsize]
      split <;> omega
  | up => exact .leave rfl rfl rfl fun hR => hR.setSem

end Guard

section Results

variable {ι : Type} {quantum qset : ℤ}

/-- The file that is there when the module is loaded: empty, and in quanta of the size that the
module is loaded with. -/
def loaded (hvalid : Valid quantum qset) : SparseFile UInt8 :=
  .empty quantum.toNat (Int.pos_iff_toNat_pos.mp hvalid.quantum_pos)

/-- **The semaphore guards the file**, in the sense of `Lib.Threads`: one case for each function. -/
theorem file_guarded (hvalid : Valid quantum qset) :
    Guarded (recorded ι quantum qset) (fun _ _ _ => True) (fun s => s.1.dev.sem) Pc.inside
      (fun s => Resource (loaded hvalid) s.1.dev s.2)
      (fun k s => Local (loaded hvalid) s.1.dev s.2 k) where
  start := rfl
  init := by
    rintro ⟨s, es⟩ ⟨hs, hes⟩
    have hs : s = .initial quantum qset := hs
    have hes : es = [] := hes
    subst hs hes
    refine ⟨rfl, _, .nil, hvalid, ?_, rfl, Shaped.empty, rfl⟩
    exact (Int.toNat_of_nonneg hvalid.quantum_pos.le).symm
  step := by
    rintro t ⟨s, es⟩ k e ⟨s', es'⟩ k' ⟨⟨hsteady, hstep⟩, hes⟩ -
    have hes : es' = CallEvent.record es e := hes
    subst hes
    cases hstep with
    | open_ h => exact h.sem hsteady
    | read h => exact h.sem hsteady
    | write h => exact h.sem hsteady
    | errorUp => exact .leave rfl rfl rfl fun hR => Resource.setSem hR
    | setQuantum | setQset | reset => exact semStep_outside rfl rfl rfl

variable [DecidableEq ι]

/-- So at most one thread is inside in a reachable state, it may rely on what `Local` says, and
without one the device stores the file. -/
theorem file_held (hvalid : Valid quantum qset) {s : State ι (Shared × History) Pc}
    (h : (recorded ι quantum qset).lts.Reachable s) :
    Held (fun s => s.1.dev.sem) Pc.inside (fun s => Resource (loaded hvalid) s.1.dev s.2)
      (fun k s => Local (loaded hvalid) s.1.dev s.2 k) s :=
  (file_guarded hvalid).held (fun _ _ _ => trivial) h

/-- What the calls of a run have done is done to the file, one after the other in the order of their
effects. -/
theorem effects_made (hvalid : Valid quantum qset) {s₀ s : State ι Shared Pc}
    {ls : List (ι × Event)} (hinit : (scull ι quantum qset).lts.init s₀)
    (h : ((scull ι quantum qset).restrict Steady).lts.Run s₀ ls s) :
    ∃ f, Made (loaded hvalid) (effects ls) f ∧
      (s.shared.dev.sem = true → Stored s.shared.dev f) := by
  have hreach : (recorded ι quantum qset).lts.Reachable ⟨(s.shared, effects ls), s.pc⟩ := by
    rw [← foldl_record]
    exact reachable_track hinit h
  have hheld := file_held hvalid hreach
  by_cases hfree : s.shared.dev.sem = true
  · obtain ⟨⟨f, hf, hs⟩, -⟩ := hheld.of_free hfree
    exact ⟨f, hf, fun _ => hs⟩
  · rcases hheld with ⟨hopen, -⟩ | ⟨-, t, -, hlocal, -⟩
    · exact absurd hopen hfree
    · obtain ⟨f, hf⟩ := hlocal.made
      exact ⟨f, hf, fun hopen => absurd hopen hfree⟩

omit [DecidableEq ι] in
/-- As what a thread may rely on that has gone astray is false, nobody who has the semaphore is
astray. -/
theorem ne_oops_of_held {f₀ : SparseFile UInt8} {s : State ι (Shared × History) Pc}
    (h : Held (fun s => s.1.dev.sem) Pc.inside (fun s => Resource f₀ s.1.dev s.2)
      (fun k s => Local f₀ s.1.dev s.2 k) s) (t : ι) : s.pc t ≠ .oops := by
  intro hoops
  obtain ⟨-, hlocal, -⟩ := h.of_inside (t := t) (by rw [hoops]; rfl)
  rw [hoops] at hlocal
  exact hlocal

/-- So a steady run of the threads is one of callers of the file: the calls, what they return and
their effects are the same. -/
theorem callers_run (hvalid : Valid quantum qset) {s₀ s : State ι Shared Pc}
    {ls : List (ι × Event)} (hinit : (scull ι quantum qset).lts.init s₀)
    (h : ((scull ι quantum qset).restrict Steady).lts.Run s₀ ls s) {f : SparseFile UInt8}
    (hf : Made (loaded hvalid) (effects ls) f) :
    (scullCalls.callers (SparseFile.system UInt8) ι).Run (loaded hvalid, fun _ => .idle) ls
      (f, fun t => (s.pc t).stage) := by
  refine run_callers (T := (scull ι quantum qset).restrict Steady) rfl
    (fun s l s' hreach hstep => ?_) hinit h hf
  obtain ⟨es, hes⟩ : ∃ es, (recorded ι quantum qset).lts.Reachable ⟨(s'.shared, es), s'.pc⟩ :=
    Reachable.track (hreach.step hstep)
  have hsane := ne_oops_of_held (file_held hvalid hes) l.1
  obtain ⟨k', ⟨-, hk'⟩, hpc⟩ := hstep
  rw [pc_self hpc] at hsane ⊢
  exact Step.stage hk' hsane

omit [DecidableEq ι] in
/-- A statement under the condition is one of the device in steady runs. -/
theorem Step.steady {t : ι} {s s' : Shared} {k k' : Pc} {e : Event} (h : Step s k e s' k')
    (hsteady : Steady s k e) : ((scull ι quantum qset).restrict Steady).step t s k e s' k' :=
  ⟨hsteady, h⟩

/-- A device on which a byte was written, in quanta of four bytes. -/
def byteWritten : Shared := ⟨⟨[some [some [7, 0, 0, 0], none]], 4, 2, 1, true⟩, 4, 2⟩

/-- A byte is written to an empty device: the call gets its item, its slots and its block, and
returns that it has written one byte. -/
theorem written_run : ∃ es,
    Solo ((scull Unit 4 2).restrict Steady) () (.initial 4 2) .idle es byteWritten .idle ∧
      es.foldl CallEvent.record [] = [.write 0 [7] 1] := by
  have hrun := Solo.start (T := (scull Unit 4 2).restrict Steady) (t := ()) (s := .initial 4 2)
      (k := .idle)
    |>.next (Step.steady (.write (@WriteStep.call _ 0 [7] (by decide))) trivial)
    |>.next (Step.steady (.write .qset) trivial)
    |>.next (Step.steady (.write (.down rfl)) ⟨rfl, rfl, by decide⟩)
    |>.next (Step.steady (.write (@WriteStep.follow _ _ _ 1 (by decide) (by decide) (by decide)))
      trivial)
    |>.next (Step.steady (.write (.kmallocSlots (by decide) (by decide))) trivial)
    |>.next (Step.steady (.write (.kmallocBlock (fun _ => 0) (by decide) (by decide) (by decide)))
      trivial)
    |>.next (Step.steady (.write (@WriteStep.copy _ _ _ [0, 0, 0, 0] (by decide) (by decide)))
      trivial)
    |>.next (Step.steady (.write .size) trivial)
    |>.next (Step.steady (.write .up) trivial)
  exact ⟨_, hrun, rfl⟩

/-- Quanta of four bytes, two to an item, are parameters that can be computed with. -/
theorem valid_small : Valid 4 2 := ⟨by decide, by decide, by decide⟩

/-- **The device is a file with holes.**  What its threads do, in any order, callers of such a file
do, with the same calls, effects and returns.  While the semaphore is free, the device stores that
file.  `hvalid` is for the parameters the module is loaded with, and `Steady` for what is needed of
the calls and of those that trim the device. -/
theorem runs_as_sparse_file (hvalid : Valid quantum qset) {s₀ s : State ι Shared Pc}
    {ls : List (ι × Event)} (hinit : (scull ι quantum qset).lts.init s₀)
    (h : ((scull ι quantum qset).restrict Steady).lts.Run s₀ ls s) :
    ∃ f, (scullCalls.callers (SparseFile.system UInt8) ι).Run (loaded hvalid, fun _ => .idle) ls
        (f, fun t => (s.pc t).stage) ∧
      (s.shared.dev.sem = true → Stored s.shared.dev f) := by
  obtain ⟨f, hf, hs⟩ := effects_made hvalid hinit h
  exact ⟨f, callers_run hvalid hinit h hf, hs⟩

/-- A byte is written to the file, and the call returns that it has been. -/
theorem runs_as_sparse_file_byte : ∃ (ls : List (Unit × Event)) (s : State Unit Shared Pc)
    (f : SparseFile UInt8), effects ls = [.write 0 [7] 1] ∧
      (scullCalls.callers (SparseFile.system UInt8) Unit).Run (loaded valid_small, fun _ => .idle)
        ls (f, fun t => (s.pc t).stage) ∧
      (s.shared.dev.sem = true → Stored s.shared.dev f) := by
  obtain ⟨es, hrun, hes⟩ := written_run
  obtain ⟨f, hf⟩ := runs_as_sparse_file valid_small (by exact ⟨rfl, fun _ => rfl⟩) hrun.run_start
  refine ⟨_, _, f, ?_, hf⟩
  rw [← foldl_record, List.map_map]
  simpa using hes

/-- **What a read returns**, in the runs of `runs_as_sparse_file`.  The process `t` had called, its
call took effect, and it waited in between and since.  What it returns is, byte for byte, what
was written last when its call took effect, whoever wrote it; and it is nothing only at the end of
the file, in a hole, or if nothing was asked for. -/
theorem reads_what_was_written (hvalid : Valid quantum qset) {s₀ s s' : State ι Shared Pc}
    {ls : List (ι × Event)} {t : ι} {data : List UInt8}
    (hinit : (scull ι quantum qset).lts.init s₀)
    (h : ((scull ι quantum qset).restrict Steady).lts.Run s₀ ls s)
    (hreturns :
      ((scull ι quantum qset).restrict Steady).lts.step s (t, .returned (.read data)) s') :
    ∃ pos count before since, ls = before ++ (t, .effect (.read pos count data)) :: since ∧
      Asked t (.read pos count) before ∧ Waits t since ∧
      (∀ i b, i < data.length → SparseFile.lastWritten (effects before) (pos + i) = some b →
        data[i]? = some b) ∧
      data.length ≤ count ∧ data.length ≤ SparseFile.extent (effects before) - pos ∧
        (data = [] → count = 0 ∨ SparseFile.extent (effects before) ≤ pos ∨
          SparseFile.lastWritten (effects before) pos = none) := by
  obtain ⟨f', hf', -⟩ := effects_made hvalid hinit (h.snoc hreturns)
  obtain ⟨⟨f, g⟩, hrun, hstep⟩ := (callers_run hvalid hinit (h.snoc hreturns) hf').last
  rcases Interface.answered_between hrun (fun _ => rfl) hstep with
    ⟨c, e, before, since, f₁, f₂, hls, hasked, hwaits, hanswers, hbefore, heffect⟩ | ⟨c, -, hno⟩
  · cases hanswers with
    | @read pos count =>
        exact ⟨pos, count, before, since, hls, hasked, hwaits,
          SparseFile.read_after_write hbefore rfl heffect⟩
  · cases hno

/-- The byte is read back from the position at which it was written. -/
theorem reads_what_was_written_byte : ∃ (data : List UInt8) (pos count : ℕ)
    (before : List (Unit × Event)), data = [7] ∧ Asked () (.read pos count) before ∧
      ∀ i b, i < data.length → SparseFile.lastWritten (effects before) (pos + i) = some b →
        data[i]? = some b := by
  obtain ⟨es, hrun, -⟩ := written_run
  have hread := hrun
    |>.next (Step.steady (.read (@ReadStep.call _ 0 5 (by decide))) trivial)
    |>.next (Step.steady (.read .qset) trivial)
    |>.next (Step.steady (.read (.down rfl)) ⟨rfl, rfl, by decide⟩)
    |>.next (Step.steady (.read (.test (by decide))) trivial)
    |>.next (Step.steady (.read (@ReadStep.follow _ _ _ _ 0 (by decide) (by decide) (by decide)))
      trivial)
    |>.next (Step.steady (.read (@ReadStep.block _ _ _ _ [7, 0, 0, 0] (by decide) (by decide)))
      trivial)
    |>.next (Step.steady (.read (@ReadStep.copy _ _ _ _ [7, 0, 0, 0] (by decide) (by decide)))
      trivial)
  obtain ⟨pos, count, before, since, -, hasked, -, hbytes, -⟩ := reads_what_was_written valid_small
    (by exact ⟨rfl, fun _ => rfl⟩) hread.run_start
    (step_of (T := (scull Unit 4 2).restrict Steady) (t := ()) _ (Step.steady (.read .up) trivial))
  exact ⟨_, pos, count, before, by decide, hasked, hbytes⟩

/-- **No statement goes astray**: no division by zero, no index outside its array and no copy
outside its block, in the runs of `runs_as_sparse_file`, whose two conditions are both needed for it
(`zero_quantum`, `stale_parameters`).  It is `Local` of `oops`, which is false. -/
theorem never_wild (hvalid : Valid quantum qset) {s : State ι Shared Pc}
    (h : ((scull ι quantum qset).restrict Steady).lts.Reachable s) (t : ι) : s.pc t ≠ .oops := by
  obtain ⟨es, hes⟩ : ∃ es, (recorded ι quantum qset).lts.Reachable ⟨(s.shared, es), s.pc⟩ :=
    Reachable.track h
  exact ne_oops_of_held (file_held hvalid hes) t

/-- The thread that has written is at rest, and not astray. -/
theorem never_wild_byte : ∃ s : State Unit Shared Pc, s.shared.dev.size = 1 ∧ s.pc () ≠ .oops := by
  obtain ⟨es, hrun, -⟩ := written_run
  exact ⟨_, rfl, never_wild valid_small (hrun.reachable rfl) ()⟩

/-! ### What goes wrong -/

/-- **A quantum may be of 0 bytes**: the device is trimmed after `SCULL_IOCTQUANTUM`, and a write
divides by it. -/
theorem zero_quantum : ∃ s : State Unit Shared Pc,
    (scull Unit 4 2).lts.Reachable s ∧ s.pc () = .oops := by
  have hrun := Solo.start (T := scull Unit 4 2) (t := ()) (s := .initial 4 2) (k := .idle)
    |>.next (@Step.setQuantum _ 0)
    |>.next (.open_ .call)
    |>.next (.open_ (.down rfl))
    |>.next (.open_ (.free fun i ss h => by cases h))
    |>.next (.open_ .size)
    |>.next (.open_ .quantum)
    |>.next (.open_ .qset)
    |>.next (.open_ .data)
    |>.next (.open_ .up)
    |>.next (.write (@WriteStep.call _ 0 [7] (by decide)))
    |>.next (.write .qset)
    |>.next (.write (.down rfl))
    |>.next (.write (.divide (by decide)))
  exact ⟨_, hrun.reachable rfl, rfl⟩

/-- **Positions may be too far**: the number of the item is cut to an `int`, and a byte that is
written behind `2 ^ 35` others is stored where the first one is. -/
theorem far_position : ∃ es s,
    Solo (scull Unit 4 2) () (.initial 4 2) .idle es s .idle ∧
      es.foldl CallEvent.record [] = [.write (2 ^ 35) [7] 1] ∧
        s.dev.data = byteWritten.dev.data := by
  have hrun := Solo.start (T := scull Unit 4 2) (t := ()) (s := .initial 4 2) (k := .idle)
    |>.next (.write (@WriteStep.call _ (2 ^ 35) [7] (by decide)))
    |>.next (.write .qset)
    |>.next (.write (.down rfl))
    |>.next (.write (@WriteStep.follow _ _ _ 1 (by decide) (by decide) (by decide)))
    |>.next (.write (.kmallocSlots (by decide) (by decide)))
    |>.next (.write (.kmallocBlock (fun _ => 0) (by decide) (by decide) (by decide)))
    |>.next (.write (@WriteStep.copy _ _ _ [0, 0, 0, 0] (by decide) (by decide)))
    |>.next (.write .size)
    |>.next (.write .up)
  exact ⟨_, _, hrun, by decide, by decide⟩

/-- **Parameters may be stale**: a thread looks at them and waits, the device is trimmed to quanta
of one byte, and one is written.  The thread goes on to copy two bytes into that quantum.  Each of
the three conditions in `Steady` and `Valid` is so used by a run. -/
theorem stale_parameters : ∃ s : State Bool Shared Pc,
    (scull Bool 4 2).lts.Reachable s ∧ s.pc false = .oops := by
  have hlook := Solo.start (T := scull Bool 4 2) (t := false) (s := .initial 4 2) (k := .idle)
    |>.next (.write (@WriteStep.call _ 0 [1, 2] (by decide)))
    |>.next (.write .qset)
  have htrim := Solo.start (T := scull Bool 4 2) (t := true) (s := .initial 4 2) (k := .idle)
    |>.next (@Step.setQuantum _ 1)
    |>.next (.open_ .call)
    |>.next (.open_ (.down rfl))
    |>.next (.open_ (.free fun i ss h => by cases h))
    |>.next (.open_ .size)
    |>.next (.open_ .quantum)
    |>.next (.open_ .qset)
    |>.next (.open_ .data)
    |>.next (.open_ .up)
    |>.next (.write (@WriteStep.call _ 0 [7] (by decide)))
    |>.next (.write .qset)
    |>.next (.write (.down rfl))
    |>.next (.write (@WriteStep.follow _ _ _ 1 (by decide) (by decide) (by decide)))
    |>.next (.write (.kmallocSlots (by decide) (by decide)))
    |>.next (.write (.kmallocBlock (fun _ => 0) (by decide) (by decide) (by decide)))
    |>.next (.write (@WriteStep.copy _ _ _ [0] (by decide) (by decide)))
    |>.next (.write .size)
    |>.next (.write .up)
  have hcopy := Solo.start (T := scull Bool 4 2) (t := false)
      (s := ⟨⟨[some [some [7], none]], 1, 2, 1, true⟩, 1, 2⟩) (k := .writeDown ⟨0, 4, 2⟩ [1, 2])
    |>.next (.write (.down rfl))
    |>.next (.write (@WriteStep.follow _ _ _ 0 (by decide) (by decide) (by decide)))
    |>.next (.write (.slots (by decide)))
    |>.next (.write (@WriteStep.block _ _ _ [7] (by decide) (by decide)))
    |>.next (.write (@WriteStep.wildCopy _ _ _ [7] (by decide) (by decide)))
  have hlooked := hlook.reachable rfl
  have htrimmed := htrim.reachable_of rfl hlooked
  exact ⟨_, hcopy.reachable_of rfl htrimmed, rfl⟩

end Results

end LeipoCode.Scull
