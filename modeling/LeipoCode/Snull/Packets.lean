import LeipoCode.Snull.Model

/-!
# The packets of the network interfaces

* `packets_conserved` — **no buffer is lost or in two places**: each is in the pool of its
  interface, on the receive queue of the other one, or in the hands of one processor;
* `sent_once` — every frame that `snull_tx` is given is put on the receive queue of the other
  interface **once**;
* `runs_as_channels` — **no frame is lost, doubled or changed**: each buffer is a channel for one
  frame, from its interface to the other.  What comes out of it is `wire` of the frame that was
  given to `snull_tx`: filled up with zeros, and with other networks in the addresses.

They hold of any number of processors, in both modes, whatever the kernel starts and wakes, and
without a condition on the run.

### What is load-bearing

The buffers are tokens (`Lib.Tokens`): they lie on stacks, of which there are four, or a processor
has one in its hands, and each statement moves at most one of them (`Handles`).  The library then
gives each token one place in every reachable state.  That the stacks are what the lists of the
driver are is the definition of `store`; that no statement drops a buffer is one case for each
statement.

A frame goes with its buffer.  `content` pairs what is in the buffer with what its channel carries,
and a buffer on a receive queue has in it what arrives of the frame of its channel (`Underway`).
The frame of the channel is the one `snull_tx` was given, which the program point carries along from
the call; that the bytes in the buffer come from it rests on what a processor knows of the bytes it
works on (`Pc.Made`), so a copy that went elsewhere, or padding that changed the frame, would break
`runs_as_channels`.

### What the two results add to each other

`runs_as_channels` says of the buffers that each carries one frame at a time and delivers what it
was given; it does not say that a frame which the kernel gives to `snull_tx` is put into a buffer at
all.  This is `sent_once`: for each processor and each frame the number of times it was given is the
number of times it was queued, with the one that is under way.  The two together leave no place
where a frame could be lost but at the other end, where `snull_rx` and `snull_poll` may find no
memory for an `sk_buff`; such a frame is dropped, the event says so, and its channel is empty again.

A receive queue has the buffer that came last in front, as the source has it, so frames may overtake
each other.  Nothing here says anything of their order.
-/

namespace LeipoCode.Snull

open Threads

variable {n : Bool → ℕ}

/-! ### Channels -/

/-- The frames that are on their way, each in its buffer: what a network that loses nothing would
have in it. -/
abbrev Channels (n : Bool → ℕ) := Packet n → Option (List UInt8)

/-- What an event says of the channels: a frame is put in when its buffer is queued, and is out when
the other interface has passed it on or dropped it. -/
def carry (m : Channels n) : Event n → Channels n
  | .sent _ p frame => Function.update m p (some frame)
  | .received _ p _ | .dropped _ p _ => Function.update m p none
  | .silent | .transmit _ _ | .wake _ | .wild => m

/-- A channel takes a frame when it is empty, and delivers at the other interface what becomes of
the frame on the wire. -/
inductive ChannelStep (c : Config) : Channels n → Event n → Channels n → Prop
  | silent {m : Channels n} : ChannelStep c m .silent m
  | transmit {m : Channels n} {d : Bool} {frame : List UInt8} :
      ChannelStep c m (.transmit d frame) m
  | wake {m : Channels n} {d : Bool} : ChannelStep c m (.wake d) m
  | wild {m : Channels n} : ChannelStep c m .wild m
  | sent {m : Channels n} {p : Packet n} {frame : List UInt8} :
      m p = none → ChannelStep c m (.sent p.dev p frame) (Function.update m p (some frame))
  | received {m : Channels n} {p : Packet n} {frame : List UInt8} :
      m p = some frame →
      ChannelStep c m (.received (!p.dev) p (wire c frame)) (Function.update m p none)
  | dropped {m : Channels n} {p : Packet n} {frame : List UInt8} :
      m p = some frame →
      ChannelStep c m (.dropped (!p.dev) p (wire c frame)) (Function.update m p none)

/-- The channels, empty at first.  This is the specification: a buffer is used for one frame at a
time, and what comes out is what arrives of the frame that went in. -/
def channels (c : Config) (n : Bool → ℕ) : LTS (Channels n) (Event n) where
  init m := m = fun _ => none
  step := ChannelStep c

/-! ### What a processor works on -/

/-- The bytes that are copied into the buffer are made from the frame that `snull_tx` was given: at
first padded, and after `snull_hw_tx` has changed them, what arrives on the wire. -/
def Pc.Made (c : Config) : Pc n → Prop
  | txShort _ frame buf => buf = pad frame
  | txGet _ frame buf | txFill _ frame buf _ => buf = wire c frame
  | _ => True

/-- Behind a call the processor works on no frame, so there is nothing to say of its bytes. -/
theorem After.made_pc {c : Config} (after : After) : (after.pc : Pc n).Made c := by
  cases after <;> trivial

/-- The bytes a processor works on stay those of its frame, padded and then rewritten: the step
lemma. -/
theorem Step.made {c : Config} {s s' : Shared n} {k k' : Pc n} {e : Event n}
    (h : Step c s k e s' k') (hk : k.Made c) : k'.Made c := by
  cases h with
  | tx h =>
      cases h with
      | call => rfl
      | rewrite => exact congrArg (Snull.rewrite c) hk
      | get => exact hk
      | _ => trivial
  | interrupt h =>
      cases h with
      | quiet | napi => exact After.made_pc _
      | _ => trivial
  | release h =>
      cases h with
      | still | wake => exact After.made_pc _
      | _ => trivial
  | poll h => cases h <;> trivial
  | _ => trivial

/-- And so it is in every reachable state, for every processor. -/
theorem buf_made {c : Config} {ι : Type} [DecidableEq ι] {s : State ι (Shared n) (Pc n)}
    (h : (snull c ι n).lts.Reachable s) (t : ι) : (s.pc t).Made c :=
  invariant_pc (K := fun k => k.Made c) trivial (fun _ _ _ _ _ _ hk hstep => Step.made hstep hk)
    h t

/-! ### Where the buffers are -/

/-- The lists that buffers lie on: the pool and the receive queue of each interface. -/
inductive Stack
  | pool (d : Bool)
  | queue (e : Bool)
deriving DecidableEq

/-- What lies on them: the stacks are the lists of the driver, and nothing else. -/
def store (s : Shared n × Channels n) : Stack → List (Packet n)
  | .pool d => (s.1.dev d).ppool
  | .queue e => (s.1.dev e).rxQueue

/-- The buffer in the hands of a processor, between the section that takes it off a list and the one
that puts it on another. -/
def Pc.hand : Pc n → Option (Packet n)
  | txFill _ _ _ p | txEnqueue _ _ _ p | relPut p _ | pollSkb _ p _ _ => some p
  | txOops _ _ p => p
  | idle | txShort _ _ _ | txGet _ _ _ | txRxInt _ _ | txRxRead _ _ | txRxWrite _ _ _ | txLen _ _
  | txTxRead _ | txTxWrite _ _ | txLockup _ | txEnd _ | interrupt _ _ | service _ _ _ | relTest _ _
  | relWake _ _ | timeoutErrors _ | timeoutWake _ | poll _ _ _ | pollTake _ _ _ | pollEnd _
  | pollComplete _ | pollInts _ | pollOops _ => none

/-- Behind a call the hands are empty: what it had in them it has put somewhere. -/
@[simp] theorem After.hand_pc (after : After) : (after.pc : Pc n).hand = none := by
  cases after <;> rfl

/-- What a buffer has in it, and its channel: what is kept of a token. -/
def content (s : Shared n × Channels n) (p : Packet n) : List UInt8 × Option (List UInt8) :=
  (s.1.data p, s.2 p)

/-- The frame of the channel is in the buffer, as it arrives: so it is from the copy to the passing
on. -/
def Underway (c : Config) (v : List UInt8 × Option (List UInt8)) : Prop :=
  v.2.map (wire c) = some v.1

/-- A buffer in a pool is one of that interface and empty, and one on a receive queue is one of the
other interface and on its way. -/
def OnStack (c : Config) : Stack → Packet n → List UInt8 × Option (List UInt8) → Prop
  | .pool d, p, v => p.dev = d ∧ v.2 = none
  | .queue e, p, v => p.dev = !e ∧ Underway c v

/-- What is known of the buffer in the hands of a processor: before the copy it is empty, before it
is queued it has the bytes in it, and `snull_poll` has one that is on its way until it has passed it
on. -/
def InHand (c : Config) : Pc n → Packet n → List UInt8 × Option (List UInt8) → Prop
  | .txFill d _ _ _, p, v => p.dev = d ∧ v.2 = none
  | .txEnqueue d frame _ _, p, v => p.dev = d ∧ v.2 = none ∧ v.1 = wire c frame
  | .pollSkb e _ _ _, p, v => p.dev = !e ∧ Underway c v
  | .relPut _ _, _, v | .txOops _ _ _, _, v => v.2 = none
  | _, _, _ => True

/-- A buffer in the hands of a processor is not on its way, unless it is `snull_poll` that has it
and has not passed on what is in it. -/
theorem InHand.empty {c : Config} {k : Pc n} {p : Packet n}
    {v : List UInt8 × Option (List UInt8)} (h : InHand c k p v) (hk : k.hand = some p)
    (hpoll : ∀ e i j, k ≠ .pollSkb e p i j) : v.2 = none := by
  cases k with
  | txFill => exact h.2
  | txEnqueue => exact h.2.1
  | relPut | txOops => exact h
  | pollSkb e r i j =>
      obtain rfl := Option.some.inj hk
      exact absurd rfl (hpoll e i j)
  | _ => cases hk

/-! ### Every statement hands buffers around -/

section Moves

variable {c : Config} {s s' : Shared n} {m : Channels n} {k k' : Pc n} {e : Event n}

/-- What a statement does with the buffers and their channels, as a move of tokens. -/
abbrev Handles (c : Config) (s : Shared n) (m : Channels n) (k : Pc n) (e : Event n)
    (s' : Shared n) (k' : Pc n) : Prop :=
  Move (OnStack c) (store (s, m)) (store (s', carry m e)) (content (s, m))
    (content (s', carry m e)) (InHand c k) (InHand c k') k.hand k'.hand

/-- A statement that leaves the lists, the buffers and the channels alone has to do with no buffer.
-/
theorem handles_none (hk : k.hand = none) (hk' : k'.hand = none) (hdata : s'.data = s.data)
    (hcarry : carry m e = m)
    (hstore : ∀ d, (s'.dev d).ppool = (s.dev d).ppool ∧ (s'.dev d).rxQueue = (s.dev d).rxQueue) :
    Handles c s m k e s' k' := by
  unfold Handles
  rw [hk, hk', hcarry]
  refine .stay (fun x => ?_) (fun p _ => ?_) (fun p hp => by cases hp)
  · cases x with
    | pool d => exact (hstore d).1
    | queue d => exact (hstore d).2
  · simp only [content, hdata]

/-- A change of an interface that leaves its two lists alone has to do with no buffer either. -/
theorem handles_on {d : Bool} {f : Priv n → Priv n} (hk : k.hand = none) (hk' : k'.hand = none)
    (hcarry : carry m e = m) (hpool : (f (s.dev d)).ppool = (s.dev d).ppool)
    (hqueue : (f (s.dev d)).rxQueue = (s.dev d).rxQueue) :
    Handles c s m k e (s.on d f) k' := by
  refine handles_none hk hk' rfl hcarry fun b => ?_
  by_cases hb : b = d
  · rw [hb, on_self]
    exact ⟨hpool, hqueue⟩
  · rw [on_of_ne s f hb]
    exact ⟨rfl, rfl⟩

/-- A change of the pool of an interface leaves all other lists alone. -/
theorem store_on_pool {d : Bool} {f : Priv n → Priv n} {m' : Channels n}
    (hqueue : (f (s.dev d)).rxQueue = (s.dev d).rxQueue) (y : Stack) (hy : y ≠ .pool d) :
    store (s.on d f, m') y = store (s, m) y := by
  cases y with
  | pool b => exact congrArg Priv.ppool (on_of_ne s f fun hb => hy (hb ▸ rfl))
  | queue b =>
      by_cases hb : b = d
      · subst hb
        exact (congrArg Priv.rxQueue (on_self s b f)).trans hqueue
      · exact congrArg Priv.rxQueue (on_of_ne s f hb)

/-- A change of the receive queue of an interface leaves all other lists alone. -/
theorem store_on_queue {d : Bool} {f : Priv n → Priv n} {m' : Channels n}
    (hpool : (f (s.dev d)).ppool = (s.dev d).ppool) (y : Stack) (hy : y ≠ .queue d) :
    store (s.on d f, m') y = store (s, m) y := by
  cases y with
  | pool b =>
      by_cases hb : b = d
      · subst hb
        exact (congrArg Priv.ppool (on_self s b f)).trans hpool
      · exact congrArg Priv.ppool (on_of_ne s f hb)
  | queue b => exact congrArg Priv.rxQueue (on_of_ne s f fun hb => hy (hb ▸ rfl))

/-- What `next` of a buffer points to is no list that buffers lie on. -/
theorem store_link {m' : Channels n} (p : Packet n) (list : List (Packet n)) (y : Stack) :
    store (s.link p list, m') y = store (s, m) y := by
  cases y <;> rfl

/-- `snull_tx` takes a buffer from the pool of its interface, fills it with what was made of its
frame (`hk`), and puts it on the other's receive queue. -/
theorem TxStep.handles (h : TxStep c s k e s' k') (hk : k.Made c) : Handles c s m k e s' k' := by
  cases h with
  | call | rxWrite | len | txWrite | lockup | done => exact handles_on rfl rfl rfl rfl rfl
  | short | rewrite | getNull | rxInt | noRxInt | rxRead | txRead | noLockup =>
      exact handles_none rfl rfl rfl rfl fun _ => ⟨rfl, rfl⟩
  | overflow => exact .stay (fun _ => rfl) (fun _ _ => rfl) fun _ _ hL => hL.2
  | @get d frame buf p rest hpool =>
      refine .take (.pool d) ?_ (store_on_pool rfl) (fun r _ => rfl) fun hS => hS
      simp only [store, on_self]
      exact hpool
  | @fill d frame buf p =>
      refine .stay (fun x => ?_) (fun r hr => ?_) fun r hr hL => ⟨hL.1, hL.2, ?_⟩
      · cases x <;> rfl
      · have hne : r ≠ p := fun heq => hr (heq ▸ rfl)
        simp only [content, Function.update_of_ne hne]
        rfl
      · -- the frame is in the buffer now
        obtain rfl := Option.some.inj hr
        exact (Function.update_self ..).trans hk
  | @enqueue d frame len p =>
      refine .put (.queue !d) ?_ (fun y hy => ?_) (fun r hr => ?_) fun hL => ?_
      · rw [store_link (m := m)]
        simp only [store, on_self, Priv.enqueue]
      · rw [store_link (m := m)]
        exact store_on_queue rfl y hy
      · simp only [content, carry, Function.update_of_ne hr]
        rfl
      · refine ⟨hL.1.trans (Bool.not_not d).symm, ?_⟩
        have hdata : s.data p = wire c frame := hL.2.2
        simp only [Underway, content, carry, Function.update_self, Option.map_some]
        exact congrArg some hdata.symm

/-- A buffer is taken from the receive queue by `snull_rx`, and with what is in it passed on its
channel is empty. -/
theorem handles_rx {b : Bool} {p : Packet n} {rest : List (Packet n)} {after : After}
    {word : Status} {f : Priv n → Priv n} (hcarry : carry m e = Function.update m p none)
    (hqueue : (s.dev b).rxQueue = p :: rest) (hrest : (f (s.dev b)).rxQueue = rest)
    (hpool : (f (s.dev b)).ppool = (s.dev b).ppool) :
    Handles c s m (.service b after word) e (s.on b f) (.relPut p after) := by
  unfold Handles
  rw [hcarry]
  refine .take (.queue b) ?_ (store_on_queue hpool) (fun r hr => ?_) fun _ => ?_
  · simp only [store, on_self, hrest]
    exact hqueue
  · simp only [content, Function.update_of_ne hr]
    rfl
  · exact Function.update_self ..

/-- `snull_rx` takes a buffer off the receive queue and passes on what is in it, in one section. -/
theorem InterruptStep.handles (h : InterruptStep c s k e s' k') : Handles c s m k e s' k' := by
  cases h with
  | word => exact handles_on rfl rfl rfl rfl rfl
  | quiet => exact handles_on rfl (After.hand_pc _) rfl rfl rfl
  | rx _ _ hqueue => exact handles_rx rfl hqueue rfl rfl
  | dropped _ _ hqueue => exact handles_rx rfl hqueue rfl rfl
  | @napi b after =>
      refine handles_on rfl (After.hand_pc _) rfl ?_ ?_ <;>
      · simp only [Priv.serve, Priv.schedule]
        split <;> rfl

/-- `snull_release_buffer` puts the buffer on the pool it came from, which is the one of `pkt->dev`.
-/
theorem ReleaseStep.handles (h : ReleaseStep s k e s' k') : Handles c s m k e s' k' := by
  cases h with
  | @put p after =>
      refine .put (.pool p.dev) ?_ (fun y hy => ?_) (fun r _ => rfl) fun hL => ⟨rfl, hL⟩
      · rw [store_link (m := m)]
        simp only [store, on_self, Priv.put]
      · rw [store_link (m := m)]
        exact store_on_pool rfl y hy
  | still => exact handles_none rfl (After.hand_pc _) rfl rfl fun _ => ⟨rfl, rfl⟩
  | test => exact handles_none rfl rfl rfl rfl fun _ => ⟨rfl, rfl⟩
  | wake => exact handles_on rfl (After.hand_pc _) rfl rfl rfl

/-- When `snull_poll` has passed on what is in the buffer in its hands, the channel of that buffer
is empty. -/
theorem handles_pollSkb {b : Bool} {p : Packet n} {i j i' j' : ℕ} {f : Priv n → Priv n}
    (hcarry : carry m e = Function.update m p none) (hpool : (f (s.dev b)).ppool = (s.dev b).ppool)
    (hqueue : (f (s.dev b)).rxQueue = (s.dev b).rxQueue) :
    Handles c s m (.pollSkb b p i j) e (s.on b f) (.relPut p (.poll b i' j')) := by
  unfold Handles
  rw [hcarry]
  refine .stay (fun x => ?_) (fun r hr => ?_) fun r hr _ => ?_
  · by_cases hx : x = .pool b
    · subst hx
      simp only [store, on_self, hpool]
    · exact store_on_pool hqueue x hx
  · have hne : r ≠ p := fun heq => hr (heq ▸ rfl)
    simp only [content, Function.update_of_ne hne]
    rfl
  · obtain rfl := Option.some.inj hr
    exact Function.update_self ..

/-- `snull_poll` takes a buffer in one section and passes on what is in it later, so the buffer is
on its way while it is in its hands. -/
theorem PollStep.handles (h : PollStep c s k e s' k') : Handles c s m k e s' k' := by
  cases h with
  | call | again | complete | ints => exact handles_on rfl rfl rfl rfl rfl
  | more | enough | takeNull | last => exact handles_none rfl rfl rfl rfl fun _ => ⟨rfl, rfl⟩
  | @take b i j p rest hqueue =>
      refine .take (.queue b) ?_ (store_on_queue rfl) (fun r _ => rfl) fun hS => hS
      simp only [store, on_self]
      exact hqueue
  | rx | dropped => exact handles_pollSkb rfl rfl rfl

/-- **Every statement handles the buffers as tokens**, and their contents as frames. -/
theorem Step.handles (h : Step c s k e s' k') (hk : k.Made c) : Handles c s m k e s' k' := by
  cases h with
  | tx h => exact h.handles hk
  | interrupt h => exact h.handles
  | release h => exact h.handles
  | poll h => exact h.handles
  | timeout | errors | timeoutWake | start | stop => exact handles_on rfl rfl rfl rfl rfl

/-- Every statement is one of the channels, or nothing to them: it puts a frame into an empty one,
or takes out what arrives of the frame that is in it. -/
theorem Step.channel (h : Step c s k e s' k')
    (hS : ∀ x p, p ∈ store (s, m) x → OnStack c x p (content (s, m) p))
    (hL : ∀ p, k.hand = some p → InHand c k p (content (s, m) p)) :
    ChannelStep c m e (carry m e) := by
  -- a frame that is passed on was on its way
  have hreceived {b : Bool} {p : Packet n} (hp : p.dev = !b ∧ Underway c (content (s, m) p)) :
      ChannelStep c m (.received b p (s.data p)) (Function.update m p none) ∧
        ChannelStep c m (.dropped b p (s.data p)) (Function.update m p none) := by
    obtain ⟨hdev, hway⟩ := hp
    obtain ⟨frame, hm, hdata⟩ := Option.map_eq_some_iff.mp hway
    have hm : m p = some frame := hm
    have hdata : wire c frame = s.data p := hdata
    rw [← Bool.not_not b, ← hdev, ← hdata]
    exact ⟨.received hm, .dropped hm⟩
  have hqueue {b : Bool} {p : Packet n} {rest : List (Packet n)}
      (hrx : (s.dev b).rxQueue = p :: rest) :
      p.dev = !b ∧ Underway c (content (s, m) p) := by
    refine hS (.queue b) p ?_
    change p ∈ (s.dev b).rxQueue
    rw [hrx]
    exact List.mem_cons_self
  cases h with
  | tx h =>
      cases h with
      | @enqueue d frame len p =>
          obtain ⟨hdev, hm, -⟩ := hL p rfl
          subst hdev
          exact .sent hm
      | call => exact .transmit
      | getNull | overflow => exact .wild
      | _ => exact .silent
  | interrupt h =>
      cases h with
      | word | quiet | napi => exact .silent
      | rx _ _ hrx => exact (hreceived (hqueue hrx)).1
      | dropped _ _ hrx => exact (hreceived (hqueue hrx)).2
  | release h =>
      cases h with
      | put | still | test => exact .silent
      | wake => exact .wake
  | poll h =>
      cases h with
      | rx => exact (hreceived (hL _ rfl)).1
      | dropped => exact (hreceived (hL _ rfl)).2
      | takeNull => exact .wild
      | _ => exact .silent
  | timeout | errors | stop => exact .silent
  | timeoutWake | start => exact .wake

end Moves

/-- The two interfaces, with what is on its way as a history beside the state. -/
def tracked (c : Config) (ι : Type) (n : Bool → ℕ) :
    Threads ι (Shared n × Channels n) (Pc n) (Event n) :=
  (snull c ι n).track carry fun _ => none

variable {c : Config} {ι : Type}

/-- At first all buffers are in the pools, each in the one of its interface. -/
theorem mem_initial {d : Bool} {p : Packet n} : p ∈ (Priv.initial n d).ppool ↔ p.dev = d := by
  simp only [Priv.initial, List.mem_map, List.mem_reverse, List.mem_finRange, true_and]
  constructor
  · rintro ⟨i, rfl⟩
    rfl
  · rintro rfl
    exact ⟨p.index, rfl⟩

/-- The buffers are carried about as tokens, in the sense of `Lib.Tokens`: with the pools and the
queues for stacks, and the processors for hands. -/
theorem tracked_carries : Carries (tracked c ι n) (fun _ k _ => k.Made c) store Pc.hand content
    (OnStack c) (InHand c) where
  start := rfl
  init := by
    rintro ⟨s, m⟩ ⟨hs, hm⟩
    have hs : s.dev = Priv.initial n := hs
    have hm : m = fun _ => none := hm
    subst hm
    have hpool (d : Bool) : store (s, fun _ => none) (.pool d) = (Priv.initial n d).ppool :=
      congrArg Priv.ppool (congrFun hs d)
    have hqueue (e : Bool) : store (s, fun _ => none) (.queue e) = [] :=
      congrArg Priv.rxQueue (congrFun hs e)
    refine ⟨fun x => ?_, ⟨fun p => .pool p.dev, fun x p => ?_⟩, fun x p hp => ?_⟩
    · cases x with
      | pool d =>
          rw [hpool]
          refine (List.nodup_reverse.mpr (List.nodup_finRange (n d))).map fun i j hij => ?_
          cases hij
          rfl
      | queue e =>
          rw [hqueue]
          exact List.nodup_nil
    · cases x with
      | pool d => rw [hpool, mem_initial, Stack.pool.injEq]
      | queue e =>
          rw [hqueue]
          exact iff_of_false List.not_mem_nil nofun
    · cases x with
      | pool d =>
          rw [hpool, mem_initial] at hp
          exact ⟨hp, rfl⟩
      | queue e =>
          rw [hqueue] at hp
          cases hp
  step := by
    rintro t ⟨s, m⟩ k e ⟨s', m'⟩ k' ⟨hstep, hm⟩ hk
    have hm : m' = carry m e := hm
    subst hm
    exact hstep.handles hk

/-- What a processor knows of its bytes, in the runs with what is on its way for a history. -/
theorem tracked_made [DecidableEq ι] (s : State ι (Shared n × Channels n) (Pc n))
    (h : (tracked c ι n).lts.Reachable s) (t : ι) : (s.pc t).Made c :=
  buf_made (Reachable.of_track h) t

/-! ### Given and sent -/

/-- The frame that `snull_tx` is given by the event, with the interface, if it is that event. -/
def Event.given : Event n → Option (Bool × List UInt8)
  | transmit d frame => some (d, frame)
  | silent | sent _ _ _ | received _ _ _ | dropped _ _ _ | wake _ | wild => none

/-- The frame that is put on the receive queue of the other interface by the event. -/
def Event.sends : Event n → Option (Bool × List UInt8)
  | sent d _ frame => some (d, frame)
  | silent | transmit _ _ | received _ _ _ | dropped _ _ _ | wake _ | wild => none

/-- The frame with which a processor is between the two.  A processor that has followed a null
pointer stays there with its frame. -/
def Pc.frame : Pc n → Option (Bool × List UInt8)
  | txShort d frame _ | txGet d frame _ | txFill d frame _ _ | txEnqueue d frame _ _
  | txOops d frame _ => some (d, frame)
  | _ => none

/-- Behind a call the processor has no frame between given and sent. -/
@[simp] theorem After.frame_pc (after : After) : (after.pc : Pc n).frame = none := by
  cases after <;> rfl

/-- How often something happens to a frame on a processor, in a run: `f` says what. -/
def times [DecidableEq ι] (f : Event n → Option (Bool × List UInt8)) (t : ι)
    (x : Bool × List UInt8) (ls : List (ι × Event n)) : ℕ :=
  ls.countP fun l => decide (l.1 = t ∧ f l.2 = some x)

/-- A frame that is given is with the processor, until it is sent.  None is too short: it has been
filled up. -/
theorem Step.frame {s s' : Shared n} {k k' : Pc n} {e : Event n} (h : Step c s k e s' k')
    (hk : k.Made c) (x : Bool × List UInt8) :
    (if e.given = some x then 1 else 0) + (if k.frame = some x then 1 else 0) =
      (if e.sends = some x then 1 else 0) + if k'.frame = some x then 1 else 0 := by
  cases h with
  | tx h =>
      cases h with
      | @short d frame buf hshort =>
          have hlong : ETH_ZLEN ≤ (pad frame).length :=
            (length_pad frame).ge.trans' (le_max_right ..)
          rw [hk] at hshort
          exact absurd (hlong.trans_lt hshort) (by decide)
      | _ => simp [Event.given, Event.sends, Pc.frame]
  | interrupt h =>
      cases h with
      | quiet | napi =>
          rw [After.frame_pc]
          rfl
      | _ => rfl
  | release h =>
      cases h with
      | still | wake =>
          rw [After.frame_pc]
          rfl
      | _ => rfl
  | poll h => cases h <;> simp [Event.given, Event.sends, Pc.frame]
  | _ => simp [Event.given, Event.sends, Pc.frame]

/-- **Every frame is sent once**: as often as a processor was given a frame it has sent it, or is
about to. -/
theorem sent_once [DecidableEq ι] {s s₀ : State ι (Shared n) (Pc n)} {ls : List (ι × Event n)}
    (hinit : (snull c ι n).lts.init s₀) (h : (snull c ι n).lts.Run s₀ ls s) (t : ι)
    (x : Bool × List UInt8) :
    times Event.given t x ls =
      times Event.sends t x ls + if (s.pc t).frame = some x then 1 else 0 := by
  induction h with
  | nil =>
      rw [hinit.2 t]
      rfl
  | @snoc ls l s₁ s' hrun hmoves ih =>
      have hmade := buf_made (hrun.reachable (.init hinit)) l.1
      obtain ⟨k', hk', hpc⟩ := hmoves
      have hsnoc (f : Event n → Option (Bool × List UInt8)) : times f t x (ls ++ [l]) =
          times f t x ls + if l.1 = t ∧ f l.2 = some x then 1 else 0 := by
        rw [times, times, List.countP_append, List.countP_singleton]
        simp only [decide_eq_true_eq]
      rw [hsnoc, hsnoc, ih]
      by_cases ht : t = l.1
      · have hframe := Step.frame hk' hmade x
        rw [ht, pc_self hpc]
        simp only [true_and]
        omega
      · rw [pc_other hpc ht]
        simp only [Ne.symm ht, false_and, if_false, Nat.add_zero]

/-! ### One frame -/

/-- With the poll, and no lockup, on a machine whose checksums are zero. -/
def napi : Config := ⟨true, 0, 64, fun _ => (0, 0)⟩

/-- When the module is loaded: all buffers are in the pools, and nothing is in them. -/
def loaded (n : Bool → ℕ) : Shared n := ⟨Priv.initial n, fun _ => none, fun _ => []⟩

/-- A frame of zeros is put on the receive queue of the other interface, in the only buffer there
is. -/
theorem sent_run : ∃ es s,
    Solo (snull napi Unit fun _ => 1) () (loaded fun _ => 1) .idle es s (.txRxInt false 60) ∧
      (s.dev true).rxQueue = [⟨false, 0⟩] := by
  have hsend := Solo.start (T := snull napi Unit fun _ => 1) (t := ()) (s := loaded fun _ => 1)
      (k := .idle)
    |>.next (@Step.start _ _ _ false)
    |>.next (.tx (@TxStep.call _ _ _ false [] rfl rfl))
    |>.next (.tx (.rewrite (by decide)))
    |>.next (.tx (.get rfl rfl))
    |>.next (.tx (.fill (by decide)))
    |>.next (.tx (.enqueue rfl))
  exact ⟨_, _, hsend, rfl⟩

section Results

variable [DecidableEq ι] {s s₀ s' : State ι (Shared n) (Pc n)} {ls : List (ι × Event n)}

/-- **No buffer is lost or in two places**, in every reachable state, with the poll and without:
each is once in the pool of its interface, once on the receive queue of the other one, or in the
hands of one processor.  Nothing is asked of the kernel, the frames or the number of processors. -/
theorem packets_conserved (h : (snull c ι n).lts.Reachable s) :
    ∃ place : Packet n → Stack ⊕ ι,
      (∀ d p, (s.shared.dev d).ppool.count p = if place p = .inl (.pool d) then 1 else 0) ∧
      (∀ e p, (s.shared.dev e).rxQueue.count p = if place p = .inl (.queue e) then 1 else 0) ∧
      (∀ t p, (s.pc t).hand = some p ↔ place p = .inr t) ∧
      ∀ p, place p = .inl (.pool p.dev) ∨ place p = .inl (.queue !p.dev) ∨
        ∃ t, place p = .inr t := by
  obtain ⟨m, hm⟩ : ∃ m, (tracked c ι n).lts.Reachable ⟨(s.shared, m), s.pc⟩ := Reachable.track h
  obtain ⟨place, hplace⟩ := tracked_carries.placed tracked_made hm
  obtain ⟨hstack, -⟩ := tracked_carries.known tracked_made hm
  have hcount (x : Stack) (p : Packet n) :
      (store (s.shared, m) x).count p = if place p = .inl x then 1 else 0 := by
    rw [List.Nodup.count (hplace.nodup x)]
    simp only [hplace.mem_iff]
  refine ⟨place, fun d => hcount (.pool d), fun e => hcount (.queue e), hplace.hand_iff,
    fun p => ?_⟩
  rcases hp : place p with (d | e) | t
  · obtain ⟨hdev, -⟩ := hstack (.pool d) p ((hplace.mem_iff _ p).mpr hp)
    exact .inl (by rw [hdev])
  · obtain ⟨hdev, -⟩ := hstack (.queue e) p ((hplace.mem_iff _ p).mpr hp)
    exact .inr (.inl (by rw [hdev, Bool.not_not]))
  · exact .inr (.inr ⟨t, rfl⟩)

/-- The buffer of that frame is on the receive queue, and nowhere else. -/
theorem packets_conserved_sent :
    ∃ (s : Shared fun _ => 1) (place : (Packet fun _ => 1) → Stack ⊕ Unit),
    (s.dev true).rxQueue = [⟨false, 0⟩] ∧ place ⟨false, 0⟩ = .inl (.queue true) := by
  obtain ⟨es, s, hrun, hqueue⟩ := sent_run
  obtain ⟨place, -, hplace, -⟩ := packets_conserved (hrun.reachable rfl)
  refine ⟨s, place, hqueue, ?_⟩
  have hcount := hplace true ⟨false, 0⟩
  rw [show (s.dev true).rxQueue.count ⟨false, 0⟩ = 1 by rw [hqueue]; rfl] at hcount
  by_contra hne
  rw [if_neg hne] at hcount
  cases hcount

/-- What is on its way is on a receive queue, or in the hands of `snull_poll`, and in its buffer. -/
theorem on_its_way {m : Channels n} (hm : (tracked c ι n).lts.Reachable ⟨(s.shared, m), s.pc⟩)
    (p : Packet n) : (m p ≠ none ↔
        p ∈ (s.shared.dev !p.dev).rxQueue ∨ ∃ t e i j, s.pc t = .pollSkb e p i j) ∧
      ∀ frame, m p = some frame → s.shared.data p = wire c frame := by
  obtain ⟨place, hplace⟩ := tracked_carries.placed tracked_made hm
  obtain ⟨hS, hL⟩ := tracked_carries.known tracked_made hm
  have hsome (hin : Underway c (content (s.shared, m) p)) :
      m p ≠ none ∧ ∀ frame, m p = some frame → s.shared.data p = wire c frame := by
    obtain ⟨frame, hm, hdata⟩ := Option.map_eq_some_iff.mp hin
    have hm : m p = some frame := hm
    rw [hm]
    refine ⟨Option.some_ne_none frame, fun frame' heq => ?_⟩
    rw [← Option.some.inj heq]
    exact hdata.symm
  have hnone {frame : List UInt8} (hm : m p = none) (hframe : m p = some frame) :
      s.shared.data p = wire c frame := by
    rw [hm] at hframe
    cases hframe
  rcases hp : place p with (d | e) | t
  · obtain ⟨-, hempty⟩ := hS (.pool d) p ((hplace.mem_iff _ p).mpr hp)
    refine ⟨iff_of_false (fun hne => hne hempty) ?_, fun frame => hnone hempty⟩
    rintro (hmem | ⟨t, e, i, j, hpc⟩)
    · have hin := (hplace.mem_iff (.queue _) p).mp hmem
      rw [hp] at hin
      cases hin
    · have hin := (hplace.hand_iff t p).mp (congrArg Pc.hand hpc)
      rw [hp] at hin
      cases hin
  · have hmem := (hplace.mem_iff (.queue e) p).mpr hp
    obtain ⟨hdev, hway⟩ := hS (.queue e) p hmem
    refine ⟨iff_of_true (hsome hway).1 (.inl ?_), (hsome hway).2⟩
    rw [hdev, Bool.not_not]
    exact hmem
  · have hhand := (hplace.hand_iff t p).mpr hp
    have hin := hL t p hhand
    by_cases hpoll : ∃ e i j, s.pc t = .pollSkb e p i j
    · obtain ⟨e, i, j, hpc⟩ := hpoll
      rw [hpc] at hin
      exact ⟨iff_of_true (hsome hin.2).1 (.inr ⟨t, e, i, j, hpc⟩), (hsome hin.2).2⟩
    · have hempty := hin.empty hhand fun e i j hpc => hpoll ⟨e, i, j, hpc⟩
      refine ⟨iff_of_false (fun hne => hne hempty) ?_, fun frame => hnone hempty⟩
      rintro (hmem | ⟨u, e, i, j, hpc⟩)
      · have hqueue := (hplace.mem_iff (.queue _) p).mp hmem
        rw [hp] at hqueue
        cases hqueue
      · obtain rfl := hplace.alone (congrArg Pc.hand hpc) hhand
        exact hpoll ⟨e, i, j, hpc⟩

/-- **No frame is lost, doubled or changed.**  As often as a processor was given a frame it has sent
it, or is about to; and what the processors do with the buffers, in any order, channels do that take
one frame each and deliver what becomes of it on the wire.  A frame is on its way as long as its
buffer is on a receive queue or in the hands of `snull_poll`, and it is what is in the buffer. -/
theorem runs_as_channels (hinit : (snull c ι n).lts.init s₀)
    (h : (snull c ι n).lts.Run s₀ ls s) :
    (∀ t x, times Event.given t x ls =
      times Event.sends t x ls + if (s.pc t).frame = some x then 1 else 0) ∧
    ∃ m, (channels c n).Run (fun _ => none) (ls.map Prod.snd) m ∧
      ∀ p, (m p ≠ none ↔
          p ∈ (s.shared.dev !p.dev).rxQueue ∨ ∃ t e i j, s.pc t = .pollSkb e p i j) ∧
        ∀ frame, m p = some frame → s.shared.data p = wire c frame := by
  have hrun : (tracked c ι n).lts.Run ⟨(s₀.shared, fun _ => none), s₀.pc⟩ ls
      ⟨(s.shared, (ls.map Prod.snd).foldl carry fun _ => none), s.pc⟩ := run_track h _
  have hall : (channels c n).Run (fun _ => none) (ls.map Prod.snd)
        ((ls.map Prod.snd).foldl carry fun _ => none) ∧
      (tracked c ι n).lts.Reachable
        ⟨(s.shared, (ls.map Prod.snd).foldl carry fun _ => none), s.pc⟩ := by
    refine hrun.invariant_trace (I := fun ls st => (channels c n).Run (fun _ => none)
      (ls.map Prod.snd) st.shared.2 ∧ (tracked c ι n).lts.Reachable st) ?_ ?_
    · exact ⟨.nil, .init ⟨⟨hinit.1, rfl⟩, hinit.2⟩⟩
    · rintro ls l ⟨⟨s, m⟩, pc⟩ ⟨⟨s', m'⟩, pc'⟩ ⟨hchannels, hreach⟩ hstep
      refine ⟨?_, hreach.step hstep⟩
      obtain ⟨hS, hL⟩ := tracked_carries.known tracked_made hreach
      obtain ⟨k', ⟨hk', hm⟩, -⟩ := hstep
      have hm : m' = carry m l.2 := hm
      rw [List.map_append, hm]
      exact hchannels.snoc (hk'.channel hS (hL l.1))
  exact ⟨sent_once hinit h, _, hall.1, on_its_way hall.2⟩

/-- The channel of that buffer is in use: it has taken the frame, and will deliver what is in the
buffer. -/
theorem runs_as_channels_sent :
    ∃ (es : List (Event fun _ => 1)) (s : Shared fun _ => 1) (m : Channels fun _ => 1),
      (channels napi fun _ => 1).Run (fun _ => none) es m ∧
        ∃ frame, m ⟨false, 0⟩ = some frame ∧ s.data ⟨false, 0⟩ = wire napi frame := by
  obtain ⟨es, s, hrun, hqueue⟩ := sent_run
  obtain ⟨-, m, hm, hway⟩ := runs_as_channels (by exact ⟨rfl, fun _ => rfl⟩) hrun.run_start
  have hmem : (⟨false, 0⟩ : Packet fun _ => 1) ∈ (s.dev true).rxQueue := by
    rw [hqueue]
    exact List.mem_cons_self
  obtain ⟨frame, hframe⟩ := Option.ne_none_iff_exists'.mp ((hway ⟨false, 0⟩).1.mpr (.inl hmem))
  exact ⟨_, s, m, hm, frame, hframe, (hway _).2 frame hframe⟩

end Results

end LeipoCode.Snull
