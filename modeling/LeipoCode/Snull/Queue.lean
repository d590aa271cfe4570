import LeipoCode.Snull.Packets

/-!
# The transmit queue and the buffers

`snull_get_tx_buffer` does not look whether there is a buffer, and `snull_hw_tx` not whether the
packet fits into it.  They need not if two things hold of the kernel and the rest of the driver
(`Cautious`): no queue is woken while its pool is empty, and no frame is longer than a buffer.

* `never_oops` — then **no processor follows a null pointer or overruns a buffer**: the queue is
  stopped while there is no buffer, and nothing between `snull_tx` and the copy makes a frame longer
  than `ETH_DATA_LEN`;
* `woken_in_vain` — the first is not so: `snull_release_buffer` itself can wake a queue whose pool
  is empty, when the buffer it has given back was taken again before it looks at `pkt->next`;
* `frame_overruns` — nor is the second: a full frame, `ETH_DATA_LEN` bytes and the header, is longer
  than `data` of `struct snull_packet`.

### How the proof goes

There are two locks that are the kernel's.  Who has the transmit lock of an interface relies on a
buffer being there until it has taken it (`Sending`): the queue was not stopped when it was called,
and a queue that is not stopped has buffers (`Ready`), for taking the last one stops it in the same
section and waking it is what `Cautious` is about.  Everybody else only adds buffers to that pool
(`Spares`).  Who polls an interface relies on its queue being non-empty from the loop condition to
the taking (`Polling`): with the poll installed nobody else takes from it (`Feeds`).

The lengths go along with the frame: it is no longer than `ETH_DATA_LEN` when `snull_tx` is given
it, padding makes it no longer than the longer of itself and `ETH_ZLEN`, and the addresses and the
checksum are changed in place (`length_wire`).

Whether a wake-up is in vain is decided between two statements of one processor:
`snull_release_buffer` gives the buffer back under the lock and looks at `pkt->next` and at the
queue behind it.  The first half of `Cautious` is a condition on the state at the moment of the
wake-up, so it can be read off a run, and in `woken_in_vain` it is violated by a run in which the
kernel does nothing unusual.
-/

namespace LeipoCode.Snull

open Threads

variable {n : Bool → ℕ}

/-- Queues are woken while there are buffers, and the kernel transmits frames that fit into one: a
condition on the two events, on the state before the one and on the frame of the other. -/
def Cautious (s : Shared n) (_ : Pc n) (e : Event n) : Prop :=
  (∀ d, e = .wake d → (s.dev d).ppool ≠ []) ∧
    ∀ d frame, e = .transmit d frame → frame.length ≤ ETH_DATA_LEN

/-! ### Frames that fit -/

/-- What a processor knows of the frame it is about to send: it fits, and what is copied into the
buffer was made from it. -/
def Pc.Fits (c : Config) (k : Pc n) : Prop :=
  k.Made c ∧ ∀ d frame, k.frame = some (d, frame) → frame.length ≤ ETH_DATA_LEN

/-- A frame that a processor has was given to it before, and fitted then, or is given to it now, and
fits by the condition (`hc`). -/
theorem Step.fits {c : Config} {s s' : Shared n} {k k' : Pc n} {e : Event n}
    (h : Step c s k e s' k') (hc : Cautious s k e) (hk : k.Fits c) : k'.Fits c := by
  refine ⟨Step.made h hk.1, fun d frame hframe => ?_⟩
  have hcount := Step.frame h hk.1 (d, frame)
  rw [if_pos hframe] at hcount
  by_cases hgiven : e.given = some (d, frame)
  · cases e with
    | transmit d' frame' =>
        obtain ⟨rfl, rfl⟩ := Prod.mk.inj (Option.some.inj hgiven)
        exact hc.2 _ _ rfl
    | _ => cases hgiven
  · by_cases hhad : k.frame = some (d, frame)
    · exact hk.2 d frame hhad
    · rw [if_neg hgiven, if_neg hhad] at hcount
      omega

/-- What is about to be copied fits into a buffer, since it was made from a frame that did. -/
theorem Pc.Fits.length_le {c : Config} {d : Bool} {frame buf : List UInt8} {p : Packet n}
    (h : (Pc.txFill d frame buf p).Fits c) : buf.length ≤ ETH_DATA_LEN := by
  have hmade : buf = wire c frame := h.1
  rw [hmade, length_wire]
  exact max_le (h.2 d frame rfl) (by decide)

/-! ### The transmit lock -/

/-- The interface whose transmit lock the call has, while it is in an interrupt handler. -/
def After.sends : After → Option Bool
  | dest d _ | own d | timeout d => some d
  | poll _ _ _ => none

/-- The interface whose transmit lock the processor has, at that point or behind the call it is in.
-/
def Pc.sends : Pc n → Option Bool
  | txShort d _ _ | txGet d _ _ | txFill d _ _ _ | txEnqueue d _ _ _ | txRxInt d _
  | txRxRead d _ | txRxWrite d _ _ | txLen d _ | txTxRead d | txTxWrite d _ | txLockup d
  | txEnd d | timeoutErrors d | timeoutWake d | txOops d _ _ => some d
  | interrupt _ after | service _ after _ | relPut _ after | relTest _ after
  | relWake _ after => after.sends
  | idle | poll _ _ _ | pollTake _ _ _ | pollSkb _ _ _ _ | pollEnd _ | pollComplete _ | pollInts _
  | pollOops _ => none

/-- The lock is the same behind the call as in it. -/
@[simp] theorem After.sends_pc (after : After) : (after.pc : Pc n).sends = after.sends := by
  cases after <;> rfl

/-- While the queue is not stopped there are buffers: what everybody may rely on. -/
def Ready (d : Bool) (s : Shared n) : Prop := (s.dev d).stopped = false → (s.dev d).ppool ≠ []

/-- What the processor with the transmit lock may rely on: at first that there is a buffer, since it
found the queue not stopped. -/
def Sending (d : Bool) (k : Pc n) (s : Shared n) : Prop :=
  match k with
  | .txShort _ _ _ | .txGet _ _ _ => (s.dev d).ppool ≠ []
  | .txOops _ _ _ => False
  | _ => Ready d s

/-- Behind a call the processor relies on nothing more than everybody else: if the queue is not
stopped, there is a buffer. -/
@[simp] theorem sending_pc {d : Bool} (after : After) {s : Shared n} :
    Sending d after.pc s ↔ Ready d s := by
  cases after <;> rfl

/-- What a statement leaves as it is for whoever transmits on `d`: the lock, that there is a buffer,
and that the queue is stopped when there is none. -/
structure Spares (d : Bool) (s s' : Shared n) : Prop where
  xmit : (s'.dev d).xmit = (s.dev d).xmit
  pool : (s.dev d).ppool ≠ [] → (s'.dev d).ppool ≠ []
  ready : Ready d s → Ready d s'

section Send

variable {c : Config} {d : Bool} {s s' : Shared n} {k k' : Pc n} {e : Event n}

/-- A statement about the other interface spares this one. -/
theorem Spares.of_eq (h : s'.dev d = s.dev d) : Spares d s s' := by
  refine ⟨by rw [h], by rw [h]; exact id, fun hready => ?_⟩
  unfold Ready
  rwa [h]

/-- A change of an interface spares it, if it leaves the lock alone, takes no last buffer, and does
not run the queue without one. -/
theorem Spares.on {b : Bool} {f : Priv n → Priv n} (hxmit : (f (s.dev b)).xmit = (s.dev b).xmit)
    (hpool : (s.dev b).ppool ≠ [] → (f (s.dev b)).ppool ≠ [])
    (hready : Ready b s → (f (s.dev b)).stopped = false → (f (s.dev b)).ppool ≠ []) :
    Spares d s (s.on b f) := by
  by_cases hd : d = b
  · subst hd
    refine ⟨?_, ?_, fun hr => ?_⟩
    · rw [on_self, hxmit]
    · rw [on_self]
      exact hpool
    · unfold Ready
      rw [on_self]
      exact hready hr
  · exact .of_eq (on_of_ne s f hd)

/-- Where `next` points does not matter to who transmits. -/
theorem Spares.link {p : Packet n} {list : List (Packet n)} (h : Spares d s s') :
    Spares d s (s'.link p list) := ⟨h.xmit, h.pool, h.ready⟩

/-- What a statement does about the transmit lock of `d`, in the sense of `LockStep`. -/
abbrev SendStep (d : Bool) (s : Shared n) (k : Pc n) (s' : Shared n) (k' : Pc n) : Prop :=
  LockStep (fun s => (s.dev d).xmit) (fun k => k.sends == some d) (Ready d)
    (fun k s => Sending d k s) s k s' k'

/-- A statement of a processor that does not have the transmit lock does right by it, if it spares
the interface. -/
theorem sendStep_outside (hk : k.sends ≠ some d) (hk' : k'.sends ≠ some d) (h : Spares d s s') :
    SendStep d s k s' k' := by
  refine .outside (beq_eq_false_iff_ne.mpr hk) (beq_eq_false_iff_ne.mpr hk') h.xmit h.ready ?_
  intro j _ hj
  unfold Sending at hj ⊢
  split at hj
  · exact h.pool hj
  · exact h.pool hj
  · exact hj
  · exact h.ready hj

/-- A statement of a processor that has the lock, or has it not, as before, does right by it, if it
spares the interface and keeps what the processor relies on. -/
theorem sendStep_keep (hsends : k'.sends = k.sends) (h : Spares d s s')
    (hkeep : k.sends = some d → Sending d k s → Sending d k' s') : SendStep d s k s' k' := by
  by_cases hk : k.sends = some d
  · exact .within (beq_iff_eq.mpr hk) (beq_iff_eq.mpr (hsends.trans hk)) h.xmit (hkeep hk)
  · exact sendStep_outside hk (hsends ▸ hk) h

/-- At most program points the processor relies on nothing more than everybody else. -/
theorem sendStep_spare (hsends : k'.sends = k.sends) (hk : Sending d k s → Ready d s)
    (hk' : Ready d s' → Sending d k' s') (h : Spares d s s') : SendStep d s k s' k' :=
  sendStep_keep hsends h fun _ hL => hk' (h.ready (hk hL))

/-- The lock of an interface is taken, by a processor that had none; to the other interface this is
nothing. -/
theorem sendStep_enter {b : Bool} {f : Priv n → Priv n} (hk : k.sends = none)
    (hk' : k'.sends = some b) (hfree : (s.dev b).xmit = true) (hf : (f (s.dev b)).xmit = false)
    (hsending : Ready b s → Sending b k' (s.on b f)) : SendStep d s k (s.on b f) k' := by
  by_cases hd : d = b
  · subst hd
    refine .enter ?_ (beq_iff_eq.mpr hk') hfree ?_ hsending
    · rw [hk]
      rfl
    · rw [on_self]
      exact hf
  · refine sendStep_outside ?_ ?_ (.of_eq (on_of_ne s f hd))
    · rw [hk]
      exact (Option.some_ne_none d).symm
    · rw [hk']
      exact fun hb => hd (Option.some.inj hb).symm

/-- The lock is given back at the end of `snull_tx`, or of the handler of a timeout. -/
theorem sendStep_leave {b : Bool} :
    SendStep d s (.txEnd b) (s.on b fun p => { p with xmit := true }) .idle := by
  by_cases hd : d = b
  · subst hd
    refine .leave (beq_self_eq_true _) rfl ?_ fun hready => ?_
    · rw [on_self]
    · unfold Ready
      rw [on_self]
      exact hready
  · exact sendStep_outside (fun hb => hd (Option.some.inj hb).symm) (Option.some_ne_none d).symm
      (.of_eq (on_of_ne s _ hd))

/-- `snull_tx` is called while the queue is not stopped, so there is a buffer when it takes one; and
it stops the queue with the last. -/
theorem TxStep.send (h : TxStep c s k e s' k') (hk : k.Fits c) : SendStep d s k s' k' := by
  cases h with
  | call hfree hstopped =>
      refine sendStep_enter rfl rfl hfree rfl fun hready => ?_
      unfold Sending
      rw [on_self]
      exact hready hstopped
  | short =>
      exact sendStep_keep rfl (.of_eq rfl) fun _ hL _ => hL
  | rewrite => exact sendStep_keep rfl (.of_eq rfl) fun _ hL => hL
  | @get b frame buf p rest hpool =>
      by_cases hd : d = b
      · subst hd
        refine .within (beq_self_eq_true _) (beq_self_eq_true _) ?_ fun _ hstopped => ?_
        · rw [on_self]
          rfl
        · rw [on_self] at hstopped ⊢
          simp only [Priv.get, Bool.or_eq_false_iff, List.isEmpty_eq_false_iff] at hstopped
          exact hstopped.2
      · exact sendStep_outside (fun hb => hd (Option.some.inj hb).symm)
          (fun hb => hd (Option.some.inj hb).symm) (.of_eq (on_of_ne s _ hd))
  | @getNull b frame buf hpool =>
      refine sendStep_keep rfl (.of_eq rfl) fun hb hL => ?_
      obtain rfl := Option.some.inj hb
      exact hL hpool
  | overflow hlong => exact absurd hk.length_le (Nat.not_le.mpr hlong)
  | fill | rxInt | noRxInt | rxRead | txRead | noLockup =>
      exact sendStep_keep rfl (.of_eq rfl) fun _ hL => hL
  | enqueue => exact sendStep_spare rfl id id (Spares.link (.on rfl id fun hr => hr))
  | rxWrite | len | txWrite => exact sendStep_spare rfl id id (.on rfl id fun hr => hr)
  | lockup => exact sendStep_spare rfl id id (.on rfl id fun _ => nofun)
  | done => exact sendStep_leave

/-- The handlers take from the receive queue, which is nothing to the processor that transmits. -/
theorem InterruptStep.send (h : InterruptStep c s k e s' k') : SendStep d s k s' k' := by
  cases h with
  | word => exact sendStep_spare rfl id id (.on rfl id fun hr => hr)
  | quiet =>
      exact sendStep_spare (After.sends_pc _) id (sending_pc _).mpr (.on rfl id fun hr => hr)
  | rx | dropped => exact sendStep_spare rfl id id (.on rfl id fun hr => hr)
  | @napi b after word =>
      have hsame : (((s.dev b).schedule word).serve c word).xmit = (s.dev b).xmit ∧
          (((s.dev b).schedule word).serve c word).ppool = (s.dev b).ppool ∧
            (((s.dev b).schedule word).serve c word).stopped = (s.dev b).stopped := by
        simp only [Priv.serve, Priv.schedule]
        split <;> exact ⟨rfl, rfl, rfl⟩
      refine sendStep_spare (After.sends_pc _) id (sending_pc _).mpr (.on hsame.1 ?_ ?_)
      · rw [hsame.2.1]
        exact id
      · rw [hsame.2.1, hsame.2.2]
        exact fun hr => hr

/-- A buffer is given back, and the queue woken: here the first half of `Cautious` is used, for the
pool may be empty again by then. -/
theorem ReleaseStep.send (h : ReleaseStep s k e s' k') (hc : Cautious s k e) :
    SendStep d s k s' k' := by
  cases h with
  | put =>
      exact sendStep_spare rfl id id
        (Spares.link (.on rfl (fun _ => List.cons_ne_nil _ _) fun _ _ => List.cons_ne_nil _ _))
  | still => exact sendStep_spare (After.sends_pc _) id (sending_pc _).mpr (.of_eq rfl)
  | test => exact sendStep_spare rfl id id (.of_eq rfl)
  | wake =>
      exact sendStep_spare (After.sends_pc _) id (sending_pc _).mpr
        (.on rfl id fun _ _ => hc.1 _ rfl)

/-- The poll takes from the receive queue too, and gives buffers back only by
`snull_release_buffer`. -/
theorem PollStep.send (h : PollStep c s k e s' k') : SendStep d s k s' k' := by
  cases h with
  | more | enough | takeNull | last => exact sendStep_spare rfl id id (.of_eq rfl)
  | call | take | rx | dropped | again | complete | ints =>
      exact sendStep_spare rfl id id (.on rfl id fun hr => hr)

/-- **Every statement does right by the transmit lock**, in a cautious run: the step lemma. -/
theorem Step.send (h : Step c s k e s' k') (hc : Cautious s k e) (hk : k.Fits c) :
    SendStep d s k s' k' := by
  cases h with
  | tx h => exact h.send hk
  | interrupt h => exact h.send
  | release h => exact h.send hc
  | poll h => exact h.send
  | timeout hfree hstopped =>
      refine sendStep_enter rfl rfl hfree rfl fun _ hrun => ?_
      rw [on_self] at hrun
      exact absurd (hstopped.symm.trans hrun) Bool.true_eq_false.mp
  | errors => exact sendStep_spare rfl id id (.on rfl id fun hr => hr)
  | timeoutWake | start => exact sendStep_spare rfl id id (.on rfl id fun _ _ => hc.1 _ rfl)
  | stop => exact sendStep_spare rfl id id (.on rfl id fun _ => nofun)

end Send

/-! ### One processor polls -/

/-- The interface that is being polled by the call, which gives buffers back in between. -/
def After.polls : After → Option Bool
  | poll e _ _ => some e
  | dest _ _ | own _ | timeout _ => none

/-- The interface that the processor polls, at that point or behind the call it is in. -/
def Pc.polls : Pc n → Option Bool
  | poll e _ _ | pollTake e _ _ | pollSkb e _ _ _ | pollEnd e | pollComplete e
  | pollOops e => some e
  | interrupt _ after | service _ after _ | relPut _ after | relTest _ after
  | relWake _ after => after.polls
  | idle | txShort _ _ _ | txGet _ _ _ | txFill _ _ _ _ | txEnqueue _ _ _ _ | txRxInt _ _
  | txRxRead _ _ | txRxWrite _ _ _ | txLen _ _ | txTxRead _ | txTxWrite _ _ | txLockup _
  | txEnd _ | timeoutErrors _ | timeoutWake _ | pollInts _ | txOops _ _ _ => none

/-- The poll is the same behind the call as in it. -/
@[simp] theorem After.polls_pc (after : After) : (after.pc : Pc n).polls = after.polls := by
  cases after <;> rfl

/-- What the processor that polls may rely on: nobody else takes from the receive queue. -/
def Polling (c : Config) (e : Bool) (k : Pc n) (s : Shared n) : Prop :=
  match k with
  | .pollTake _ _ _ => c.useNapi = true ∧ (s.dev e).rxQueue ≠ []
  | .pollOops _ => False
  | _ => c.useNapi = true

/-- Behind a call the processor relies on nothing but that the poll is installed. -/
@[simp] theorem polling_pc {c : Config} {e : Bool} (after : After) {s : Shared n} :
    Polling c e after.pc s ↔ c.useNapi = true := by
  cases after <;> rfl

/-- What a statement leaves as it is for whoever polls `e`: who polls, and, with the poll installed,
that there is something in the queue. -/
structure Feeds (c : Config) (e : Bool) (s s' : Shared n) : Prop where
  unpolled : (s'.dev e).unpolled = (s.dev e).unpolled
  queue : c.useNapi = true → (s.dev e).rxQueue ≠ [] → (s'.dev e).rxQueue ≠ []

section Poll

variable {c : Config} {b : Bool} {s s' : Shared n} {k k' : Pc n} {e : Event n}

/-- A statement about the other interface leaves this one's queue as it is. -/
theorem Feeds.of_eq (h : s'.dev b = s.dev b) : Feeds c b s s' :=
  ⟨by rw [h], by rw [h]; exact fun _ => id⟩

/-- A change of an interface that does not end its poll and takes nothing from its receive queue
leaves the poll something to take. -/
theorem Feeds.on {d : Bool} {f : Priv n → Priv n}
    (hunpolled : (f (s.dev d)).unpolled = (s.dev d).unpolled)
    (hqueue : c.useNapi = true → (s.dev d).rxQueue ≠ [] → (f (s.dev d)).rxQueue ≠ []) :
    Feeds c b s (s.on d f) := by
  by_cases hd : b = d
  · subst hd
    refine ⟨?_, ?_⟩
    · rw [on_self, hunpolled]
    · rw [on_self]
      exact hqueue
  · exact .of_eq (on_of_ne s f hd)

/-- Where `next` points does not matter to who polls. -/
theorem Feeds.link {p : Packet n} {list : List (Packet n)} (h : Feeds c b s s') :
    Feeds c b s (s'.link p list) := ⟨h.unpolled, h.queue⟩

/-- What a statement does about the poll of `b`, in the sense of `LockStep`. -/
abbrev TakeStep (c : Config) (b : Bool) (s : Shared n) (k : Pc n) (s' : Shared n) (k' : Pc n) :
    Prop :=
  LockStep (fun s => (s.dev b).unpolled) (fun k => k.polls == some b) (fun _ => True)
    (fun k s => Polling c b k s) s k s' k'

/-- A statement of a processor that does not poll `b` does right by the poll, if it leaves the queue
something to take. -/
theorem takeStep_outside (hk : k.polls ≠ some b) (hk' : k'.polls ≠ some b) (h : Feeds c b s s') :
    TakeStep c b s k s' k' := by
  refine .outside (beq_eq_false_iff_ne.mpr hk) (beq_eq_false_iff_ne.mpr hk') h.unpolled id ?_
  intro j _ hj
  unfold Polling at hj ⊢
  split at hj
  · exact ⟨hj.1, h.queue hj.1 hj.2⟩
  · exact hj
  · exact hj

/-- A statement of any processor that leaves something in the queue, after which it relies on the
poll being installed at most. -/
theorem takeStep_feed (hpolls : k'.polls = k.polls) (hk : Polling c b k s → c.useNapi = true)
    (hk' : c.useNapi = true → Polling c b k' s') (h : Feeds c b s s') : TakeStep c b s k s' k' := by
  by_cases hkb : k.polls = some b
  · exact .within (beq_iff_eq.mpr hkb) (beq_iff_eq.mpr (hpolls.trans hkb)) h.unpolled
      fun hL => hk' (hk hL)
  · exact takeStep_outside hkb (hpolls ▸ hkb) h

/-- A statement of the processor that polls `d` does right by both polls, if it leaves the other
interface alone and keeps what it relies on itself. -/
theorem takeStep_own {d : Bool} (hk : k.polls = some d) (hk' : k'.polls = some d)
    (hunpolled : (s'.dev d).unpolled = (s.dev d).unpolled) (hrest : ∀ b, b ≠ d → s'.dev b = s.dev b)
    (h : Polling c d k s → Polling c d k' s') : TakeStep c b s k s' k' := by
  by_cases hd : b = d
  · subst hd
    exact .within (beq_iff_eq.mpr hk) (beq_iff_eq.mpr hk') hunpolled h
  · refine takeStep_outside ?_ ?_ (.of_eq (hrest b hd))
    · rw [hk]
      exact fun hb => hd (Option.some.inj hb).symm
    · rw [hk']
      exact fun hb => hd (Option.some.inj hb).symm

/-- The poll of an interface is over, and another processor may begin one. -/
theorem takeStep_leave {d : Bool} {f : Priv n → Priv n} (hk : k.polls = some d)
    (hk' : k'.polls = none) (hunpolled : (f (s.dev d)).unpolled = true) :
    TakeStep c b s k (s.on d f) k' := by
  by_cases hd : b = d
  · subst hd
    refine .leave (beq_iff_eq.mpr hk) ?_ ?_ fun _ => trivial
    · rw [hk']
      rfl
    · rw [on_self]
      exact hunpolled
  · refine takeStep_outside ?_ ?_ (.of_eq (on_of_ne s f hd))
    · rw [hk]
      exact fun hb => hd (Option.some.inj hb).symm
    · rw [hk']
      exact (Option.some_ne_none b).symm

/-- A statement of a processor that does not poll, before and after, only has to leave the queues
something to take. -/
theorem takeStep_none (hk : k.polls = none) (hk' : k'.polls = none) (h : Feeds c b s s') :
    TakeStep c b s k s' k' :=
  takeStep_outside (hk ▸ (Option.some_ne_none b).symm) (hk' ▸ (Option.some_ne_none b).symm) h

/-- `snull_tx` adds to the receive queue of the other interface, which is never a harm to the poll.
-/
theorem TxStep.polled (h : TxStep c s k e s' k') : TakeStep c b s k s' k' := by
  cases h with
  | call | get | len | txWrite | lockup | done | rxWrite =>
      exact takeStep_none rfl rfl (.on rfl fun _ => id)
  | short | rewrite | getNull | overflow | fill | rxInt | noRxInt | rxRead | txRead | noLockup =>
      exact takeStep_none rfl rfl (.of_eq rfl)
  | enqueue =>
      exact takeStep_none rfl rfl (Feeds.link (.on rfl fun _ _ => List.cons_ne_nil _ _))

/-- The regular handler takes from the queue, but is not installed together with the poll. -/
theorem InterruptStep.polled (h : InterruptStep c s k e s' k') : TakeStep c b s k s' k' := by
  cases h with
  | word => exact takeStep_feed rfl id id (.on rfl fun _ => id)
  | quiet =>
      exact takeStep_feed (After.polls_pc _) id (polling_pc _).mpr (.on rfl fun _ => id)
  | rx hregular | dropped hregular =>
      refine takeStep_feed rfl id id (.on rfl fun hnapi => ?_)
      exact absurd (hregular.symm.trans hnapi) Bool.false_ne_true
  | @napi d after word =>
      have hsame : (((s.dev d).schedule word).serve c word).unpolled = (s.dev d).unpolled ∧
          (((s.dev d).schedule word).serve c word).rxQueue = (s.dev d).rxQueue := by
        simp only [Priv.serve, Priv.schedule]
        split <;> exact ⟨rfl, rfl⟩
      refine takeStep_feed (After.polls_pc _) id (polling_pc _).mpr (.on hsame.1 ?_)
      rw [hsame.2]
      exact fun _ => id

/-- `snull_release_buffer` gives a buffer to a pool, and takes nothing from a receive queue. -/
theorem ReleaseStep.polled (h : ReleaseStep s k e s' k') : TakeStep c b s k s' k' := by
  cases h with
  | put => exact takeStep_feed rfl id id (Feeds.link (.on rfl fun _ => id))
  | still => exact takeStep_feed (After.polls_pc _) id (polling_pc _).mpr (.of_eq rfl)
  | test => exact takeStep_feed rfl id id (.of_eq rfl)
  | wake => exact takeStep_feed (After.polls_pc _) id (polling_pc _).mpr (.on rfl fun _ => id)

/-- `snull_poll` looks at its queue first, and takes what it has seen there later. -/
theorem PollStep.polled (h : PollStep c s k e s' k') : TakeStep c b s k s' k' := by
  cases h with
  | @call d quota hnapi _ hfree =>
      by_cases hd : b = d
      · subst hd
        refine .enter rfl (beq_self_eq_true _) hfree ?_ fun _ => hnapi
        rw [on_self]
      · exact takeStep_outside (Option.some_ne_none b).symm (fun hb => hd (Option.some.inj hb).symm)
          (.of_eq (on_of_ne s _ hd))
  | more _ hne => exact takeStep_own rfl rfl rfl (fun _ _ => rfl) fun hL => ⟨hL, hne⟩
  | enough | last => exact takeStep_feed rfl id id (.of_eq rfl)
  | @take d =>
      refine takeStep_own rfl rfl ?_ (fun _ hb => on_of_ne s _ hb) And.left
      rw [on_self]
      rfl
  | takeNull hqueue => exact takeStep_own rfl rfl rfl (fun _ _ => rfl) fun hL => hL.2 hqueue
  | rx | dropped => exact takeStep_feed rfl id id (.on rfl fun _ => id)
  | again | complete => exact takeStep_leave rfl rfl rfl
  | ints => exact takeStep_none rfl rfl (.on rfl fun _ => id)

/-- **Every statement does right by the poll**, in any run, cautious or not: the step lemma. -/
theorem Step.polled (h : Step c s k e s' k') : TakeStep c b s k s' k' := by
  cases h with
  | tx h => exact h.polled
  | interrupt h => exact h.polled
  | release h => exact h.polled
  | poll h => exact h.polled
  | timeout | errors | timeoutWake | start | stop =>
      exact takeStep_none rfl rfl (.on rfl fun _ => id)

end Poll

/-! ### Results -/

section Results

variable {c : Config} {ι : Type} [DecidableEq ι] {s : State ι (Shared n) (Pc n)}

/-- In every state reachable by cautious runs, every processor has a frame that fits, or none. -/
theorem cautious_fits (h : ((snull c ι n).restrict Cautious).lts.Reachable s) (t : ι) :
    (s.pc t).Fits c :=
  invariant_pc (T := (snull c ι n).restrict Cautious) (K := Pc.Fits c) ⟨trivial, nofun⟩
    (fun _ _ _ _ _ _ hk hstep => Step.fits hstep.2 hstep.1 hk) h t

/-- In such states at most one processor has the transmit lock of `d`, and may rely on what
`Sending` says. -/
theorem xmit_held (d : Bool) (h : ((snull c ι n).restrict Cautious).lts.Reachable s) :
    Held (fun s => (s.dev d).xmit) (fun k => k.sends == some d) (Ready d)
      (fun k s => Sending d k s) s := by
  refine Guarded.held (K := fun _ k _ => k.Fits c) ⟨rfl, ?_, ?_⟩ (fun _ => cautious_fits) h
  · intro s hs
    have hs : s.dev = Priv.initial n := hs
    refine ⟨by rw [hs]; rfl, fun hstopped => ?_⟩
    rw [hs] at hstopped
    cases hstopped
  · rintro t s k e s' k' ⟨hc, hstep⟩ hk
    exact hstep.send hc hk

/-- In every reachable state at most one processor polls `b`, and may rely on what `Polling` says.
-/
theorem poll_held (b : Bool) (h : (snull c ι n).lts.Reachable s) :
    Held (fun s => (s.dev b).unpolled) (fun k => k.polls == some b) (fun _ => True)
      (fun k s => Polling c b k s) s := by
  refine Guarded.held (K := fun _ _ _ => True) ⟨rfl, ?_, ?_⟩ (fun _ _ _ => trivial) h
  · intro s hs
    have hs : s.dev = Priv.initial n := hs
    exact ⟨by rw [hs]; rfl, trivial⟩
  · rintro t s k e s' k' hstep -
    exact hstep.polled

/-- **No processor follows a null pointer or overruns a buffer**, in every state reachable by runs
in which no queue is woken while its pool is empty, and the kernel transmits no frame that is longer
than a buffer (`Cautious`).  The first is for `snull_get_tx_buffer`, and is what keeps the pool
filled while the queue is not stopped; the second is for the copy in `snull_hw_tx`.  Neither is
needed for `snull_poll`, and neither is seen to by the driver (`woken_in_vain`, `frame_overruns`).
-/
theorem never_oops (h : ((snull c ι n).restrict Cautious).lts.Reachable s) (t : ι) :
    (∀ d frame p, s.pc t ≠ .txOops d frame p) ∧ ∀ e, s.pc t ≠ .pollOops e := by
  refine ⟨fun d frame p hpc => ?_, fun e hpc => ?_⟩
  · obtain ⟨-, hsending, -⟩ :=
      (xmit_held d h).of_inside (t := t) (by rw [hpc]; exact beq_self_eq_true _)
    rw [hpc] at hsending
    exact hsending
  · obtain ⟨-, hpolling, -⟩ := (poll_held e (Reachable.of_restrict h)).of_inside (t := t)
      (by rw [hpc]; exact beq_self_eq_true _)
    rw [hpc] at hpolling
    exact hpolling

omit [DecidableEq ι] in
/-- A statement, as one of a cautious run. -/
theorem Step.cautious {s s' : Shared n} {k k' : Pc n} {e : Event n} {t : ι}
    (h : Step c s k e s' k') (hc : Cautious s k e) :
    ((snull c ι n).restrict Cautious).step t s k e s' k' := ⟨hc, h⟩

/-- A frame that fits is in the only buffer, which is on the receive queue of the other interface;
the queue of this one is stopped. -/
theorem never_oops_stopped : ∃ s : State Unit (Shared fun _ => 1) (Pc fun _ => 1),
    ((s.shared.dev false).stopped = true ∧ (s.shared.dev false).ppool = [] ∧
      (s.shared.dev true).rxQueue = [⟨false, 0⟩]) ∧
      (∀ d frame p, s.pc () ≠ .txOops d frame p) ∧ ∀ e, s.pc () ≠ .pollOops e := by
  have hframe : (List.replicate 100 (0 : UInt8)).length ≤ ETH_DATA_LEN := by decide
  have hbuf : (wire napi (List.replicate 100 0)).length ≤ ETH_DATA_LEN := by
    rw [length_wire]
    decide
  have hsend := Solo.start (T := (snull napi Unit fun _ => 1).restrict Cautious) (t := ())
      (s := loaded fun _ => 1) (k := .idle)
    |>.next (Step.cautious (@Step.start _ _ _ false) ⟨fun d hd => by cases hd; decide, nofun⟩)
    |>.next (Step.cautious (.tx (@TxStep.call _ _ _ false (List.replicate 100 0) rfl rfl))
      ⟨nofun, fun _ _ he => by cases he; exact hframe⟩)
    |>.next (Step.cautious (.tx (.rewrite (by decide))) ⟨nofun, nofun⟩)
    |>.next (Step.cautious (.tx (.get rfl rfl)) ⟨nofun, nofun⟩)
    |>.next (Step.cautious (.tx (.fill hbuf)) ⟨nofun, nofun⟩)
    |>.next (Step.cautious (.tx (.enqueue rfl)) ⟨nofun, nofun⟩)
  exact ⟨_, ⟨rfl, rfl, rfl⟩, never_oops (hsend.reachable rfl) ()⟩

end Results

/-! ### What goes wrong -/

/-- **A queue is woken in vain**: two processors, one that transmits and one that polls.  The poll
gives a buffer back; before it looks whether the queue must be woken, this buffer and the other
one are taken, and the queue is stopped.  The poll wakes it, and the next transmission follows a
null pointer. -/
theorem woken_in_vain : ∃ s : State Bool (Shared fun _ => 2) (Pc fun _ => 2),
    (snull napi Bool fun _ => 2).lts.Reachable s ∧
      ∃ frame, s.pc true = .txOops false frame none := by
  have hsend := Solo.start (T := snull napi Bool fun _ => 2) (t := true) (s := loaded fun _ => 2)
      (k := .idle)
    |>.next (@Step.start _ _ _ false)
    |>.next (.tx (@TxStep.call _ _ _ false [] rfl rfl))
    |>.next (.tx (.rewrite (by decide)))
    |>.next (.tx (.get rfl rfl))
    |>.next (.tx (.fill (by decide)))
    |>.next (.tx (.enqueue rfl))
    |>.next (.tx (.rxInt rfl))
    |>.next (.tx .rxRead)
    |>.next (.tx .rxWrite)
    |>.next (.interrupt (.word rfl))
    |>.next (.interrupt (.napi rfl))
    |>.next (.tx .len)
    |>.next (.tx .txRead)
    |>.next (.tx .txWrite)
    |>.next (.tx (.noLockup fun h => h.1 rfl))
    |>.next (.interrupt (.word rfl))
    |>.next (.interrupt (.napi rfl))
    |>.next (.tx .done)
  have hsent := hsend.reachable rfl
  have hpoll := (Solo.resume hsent false)
    |>.next (.poll (@PollStep.call _ _ _ true 2 rfl rfl rfl))
    |>.next (.poll (.more (by decide) nofun))
    |>.next (.poll (.take rfl rfl))
    |>.next (.poll .rx)
    |>.next (.release (.put rfl))
  have hpolled := hpoll.reachable_of rfl hsent
  -- both buffers are taken
  have htake := (Solo.resume hpolled true)
    |>.next (.tx (@TxStep.call _ _ _ false [] rfl rfl))
    |>.next (.tx (.rewrite (by decide)))
    |>.next (.tx (.get rfl rfl))
    |>.next (.tx (.fill (by decide)))
    |>.next (.tx (.enqueue rfl))
    |>.next (.tx (.noRxInt rfl))
    |>.next (.tx .len)
    |>.next (.tx .txRead)
    |>.next (.tx .txWrite)
    |>.next (.tx (.noLockup fun h => h.1 rfl))
    |>.next (.interrupt (.word rfl))
    |>.next (.interrupt (.napi rfl))
    |>.next (.tx .done)
    |>.next (.tx (@TxStep.call _ _ _ false [] rfl rfl))
    |>.next (.tx (.rewrite (by decide)))
    |>.next (.tx (.get rfl rfl))
    |>.next (.tx (.fill (by decide)))
    |>.next (.tx (.enqueue rfl))
    |>.next (.tx (.noRxInt rfl))
    |>.next (.tx .len)
    |>.next (.tx .txRead)
    |>.next (.tx .txWrite)
    |>.next (.tx (.noLockup fun h => h.1 rfl))
    |>.next (.interrupt (.word rfl))
    |>.next (.interrupt (.napi rfl))
    |>.next (.tx .done)
  have htaken := htake.reachable_of rfl hpolled
  have hwake := (Solo.resume htaken false)
    |>.next (.release (.test rfl rfl))
    |>.next (.release .wake)
  have hwoken := hwake.reachable_of rfl htaken
  have hfall := (Solo.resume hwoken true)
    |>.next (.tx (@TxStep.call _ _ _ false [] rfl rfl))
    |>.next (.tx (.rewrite (by decide)))
    |>.next (.tx (.getNull rfl rfl))
  exact ⟨_, hfall.reachable_of rfl hwoken, _, rfl⟩

/-- **A full frame overruns its buffer**: the header is counted in the length of the frame, and not
in `ETH_DATA_LEN`. -/
theorem frame_overruns : ∃ (s : State Unit (Shared fun _ => 1) (Pc fun _ => 1))
    (frame : List UInt8) (p : Packet fun _ => 1), (snull napi Unit fun _ => 1).lts.Reachable s ∧
      frame.length = ETH_HLEN + ETH_DATA_LEN ∧ s.pc () = .txOops false frame (some p) := by
  obtain ⟨frame, hframe⟩ : ∃ frame : List UInt8, frame.length = ETH_HLEN + ETH_DATA_LEN :=
    ⟨List.replicate _ 0, List.length_replicate⟩
  have hpad : headersLen ≤ (pad frame).length := by
    rw [length_pad, hframe]
    decide
  have hbuf : ETH_DATA_LEN < (wire napi frame).length := by
    rw [length_wire, hframe]
    decide
  have hsend := Solo.start (T := snull napi Unit fun _ => 1) (t := ()) (s := loaded fun _ => 1)
      (k := .idle)
    |>.next (@Step.start _ _ _ false)
    |>.next (.tx (@TxStep.call _ _ _ false frame rfl rfl))
    |>.next (.tx (.rewrite hpad))
    |>.next (.tx (.get rfl rfl))
    |>.next (.tx (.overflow hbuf))
  exact ⟨_, frame, _, hsend.reachable rfl, hframe, rfl⟩

end LeipoCode.Snull
