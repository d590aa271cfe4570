import LeipoCode.Lib.Tokens

/-!
# The network interfaces of `snull/snull.c`

Two interfaces, each the other's wire.  A packet to transmit is copied into a buffer from the pool
of its interface and put on the receive queue of the other one, which is then interrupted, all of it
from within `snull_tx`.  The threads of `Lib.Threads` are the processors; a step is one statement,
or one section under `priv->lock` (two steps in the handlers), so a run is any interleaving of calls
of `snull_tx`, `snull_tx_timeout` and `snull_poll`, with the interrupt handlers inside of them.

### The data

* `dev` is `false` for `snull_devs[0]`, `true` for `snull_devs[1]`, and `n` says how many buffers
  each of them has: `snull_setup_pool` stops early when there is no memory, for one and not for the
  other.
* The lists are Lean lists; `next` keeps what `pkt->next` was set to, for `snull_release_buffer`
  looks at it when it no longer has the lock.
* A call of `snull_tx` carries with it, besides the bytes it works on (`buf`), the frame that the
  kernel has given to it.  The code does not: it is there for `Event.sent`, which says what frame
  the buffer is for, whatever has been copied into the buffer.
* The counters of `struct net_device_stats` are `unsigned long`s, of `bits` bits; the test for a
  lockup is made on one of them.
* Left out: the hardware addresses, the configuration, the socket buffer that is being transmitted
  (`priv->skb`), and the messages.

### What the kernel sees to, and what it does not

The kernel calls `snull_tx` and `snull_tx_timeout` with the transmit lock of the interface, the one
while its queue is not stopped and the other while it is, and `snull_poll` on one processor at a
time.  It does not keep frames from being longer than a buffer: `ETH_DATA_LEN` is what a frame may
carry behind its header, and `data` has no more.

### What is not atomic

`priv->status |= ...` is a read and a write, so a bit that another processor sets in between is
lost; and `snull_tx` sets bits without the lock, so that the handlers, which look at the word and
clear it in two statements, lose one that is set between them.  `snull_release_buffer` tests whether
the queue is stopped and wakes it, after it has given the lock back.  A null pointer, and a frame
that is longer than its buffer, lead to `Pc.txOops` or `Pc.pollOops`, where the processor stays.
-/

namespace LeipoCode.Snull

/-! ### Data -/

/-- A buffer of the pool of `dev`: `pkt->dev`, and which of them it is.  The buffers of the two
interfaces are different by construction. -/
structure Packet (n : Bool → ℕ) where
  dev : Bool
  index : Fin (n dev)
deriving DecidableEq

/-- What `struct net_device_stats` counts, modulo the size of an `unsigned long`. -/
structure Stats where
  rxPackets : ℕ
  rxBytes : ℕ
  rxDropped : ℕ
  txPackets : ℕ
  txBytes : ℕ
  txErrors : ℕ
deriving DecidableEq, Repr

/-- `priv->status`: `SNULL_RX_INTR` and `SNULL_TX_INTR`, the two bits that are used of the word. -/
structure Status where
  rx : Bool
  tx : Bool
deriving DecidableEq, Repr

/-- `struct snull_priv`, and what the kernel keeps of the interface: whether its queue is stopped,
who has its transmit lock, and whether it is on the poll list. -/
structure Priv (n : Bool → ℕ) where
  stats : Stats
  status : Status
  ppool : List (Packet n)
  rxQueue : List (Packet n)
  rxIntEnabled : Bool
  txPacketlen : ℕ
  /-- `priv->lock` is free. -/
  lock : Bool
  /-- `netif_queue_stopped`. -/
  stopped : Bool
  /-- The transmit lock is free. -/
  xmit : Bool
  /-- On the poll list. -/
  scheduled : Bool
  /-- Nobody is in `snull_poll`. -/
  unpolled : Bool

/-- What the processors share: the two interfaces, and of each buffer where its `next` points and
what is in its `data`, of which the length is `datalen`. -/
structure Shared (n : Bool → ℕ) where
  dev : Bool → Priv n
  next : Packet n → Option (Packet n)
  data : Packet n → List UInt8

/-- The parameters of the module, of which `lockup` is an `int`; how many bits an `unsigned long`
has; and `ip_fast_csum` of the machine. -/
structure Config where
  useNapi : Bool
  lockup : BitVec 32
  bits : ℕ
  csum : List UInt8 → UInt8 × UInt8

/-- A counter, to which something is added; it wraps. -/
def Config.count (c : Config) (counter more : ℕ) : ℕ := (counter + more) % 2 ^ c.bits

/-- The test of `snull_hw_tx` for a lockup, in which `lockup` becomes an `unsigned long`. -/
def Config.LocksUp (c : Config) (txPackets : ℕ) : Prop :=
  c.lockup ≠ 0 ∧ c.count txPackets 1 % (c.lockup.toInt % 2 ^ c.bits).toNat = 0

instance (c : Config) (txPackets : ℕ) : Decidable (c.LocksUp txPackets) :=
  inferInstanceAs (Decidable (_ ∧ _))

/-- The least length of a frame on the wire, without its checksum. -/
def ETH_ZLEN : ℕ := 60

/-- The size of `data` of `struct snull_packet`, and the most a frame may carry behind its header.
-/
def ETH_DATA_LEN : ℕ := 1500

/-- `sizeof(struct ethhdr)`: two addresses and a type. -/
def ETH_HLEN : ℕ := 14

/-- With `sizeof(struct iphdr)` behind it: what `snull_hw_tx` looks into, and refuses to do without.
-/
def headersLen : ℕ := ETH_HLEN + 20

/-- `snull_init`, with what `snull_setup_pool` has got memory for.  The interface is not up yet. -/
def Priv.initial (n : Bool → ℕ) (d : Bool) : Priv n where
  stats := ⟨0, 0, 0, 0, 0, 0⟩
  status := ⟨false, false⟩
  ppool := (List.finRange (n d)).reverse.map (Packet.mk d)
  rxQueue := []
  rxIntEnabled := true
  txPacketlen := 0
  lock := true
  stopped := true
  xmit := true
  scheduled := false
  unpolled := true

/-! ### Frames -/

/-- `snull_tx`: a short frame is filled up with zeros, in a buffer of its own. -/
def pad (frame : List UInt8) : List UInt8 :=
  if frame.length < ETH_ZLEN then frame ++ List.replicate (ETH_ZLEN - frame.length) 0 else frame

/-- `snull_hw_tx`: the third octets of the addresses change, and the checksum is made again. -/
def rewrite (c : Config) (buf : List UInt8) : List UInt8 :=
  let flipped := ((buf.modify (ETH_HLEN + 14) (· ^^^ 1)).modify (ETH_HLEN + 18) (· ^^^ 1))
  let cleared := (flipped.set (ETH_HLEN + 10) 0).set (ETH_HLEN + 11) 0
  let ihl := (cleared.getD ETH_HLEN 0 &&& 15).toNat
  let check := c.csum ((cleared.drop ETH_HLEN).take (4 * ihl))
  (cleared.set (ETH_HLEN + 10) check.1).set (ETH_HLEN + 11) check.2

/-- What arrives of a frame that `snull_tx` was given: it is the other interface that finds this in
its receive queue, and passes it on. -/
def wire (c : Config) (frame : List UInt8) : List UInt8 := rewrite c (pad frame)

/-- No frame that is sent is shorter than `ETH_ZLEN`, and a longer one keeps its length. -/
@[simp] theorem length_pad (frame : List UInt8) :
    (pad frame).length = max frame.length ETH_ZLEN := by
  rw [pad]
  split_ifs with hshort
  · rw [List.length_append, List.length_replicate]
    omega
  · exact (max_eq_left (Nat.le_of_not_lt hshort)).symm

/-- The addresses and the checksum are changed in place, so the frame keeps its length. -/
@[simp] theorem length_rewrite (c : Config) (buf : List UInt8) :
    (rewrite c buf).length = buf.length := by
  simp only [rewrite, List.length_set, List.length_modify]

/-- So what arrives of a frame is as long as the frame was, or `ETH_ZLEN` bytes if it was shorter.
-/
@[simp] theorem length_wire (c : Config) (frame : List UInt8) :
    (wire c frame).length = max frame.length ETH_ZLEN := by
  rw [wire, length_rewrite, length_pad]

/-! ### Events and program points -/

/-- What a step shows of itself.  The way of a frame is `transmit`, `sent`, and `received` or
`dropped`; `wake` is shown because it is a wake-up that leads to a null pointer, and `wild` is the
step that follows one or leaves a buffer. -/
inductive Event (n : Bool → ℕ)
  | silent
  /-- `snull_tx` is called with this frame. -/
  | transmit (d : Bool) (frame : List UInt8)
  /-- The buffer for this frame is put on the receive queue of the other interface. -/
  | sent (d : Bool) (p : Packet n) (frame : List UInt8)
  /-- What is in the buffer is passed to the upper levels. -/
  | received (e : Bool) (p : Packet n) (frame : List UInt8)
  /-- There is no memory for a socket buffer. -/
  | dropped (e : Bool) (p : Packet n) (frame : List UInt8)
  /-- The queue is started, or woken. -/
  | wake (d : Bool)
  | wild
deriving DecidableEq

/-- Where a call goes on: `snull_interrupt` is called from three places and `snull_release_buffer`
from two, and this is what is on the stack. -/
inductive After
  /-- `snull_hw_tx` on `d`, behind the interrupt of the other interface. -/
  | dest (d : Bool) (len : ℕ)
  /-- Behind its own. -/
  | own (d : Bool)
  | timeout (d : Bool)
  /-- The loop of `snull_poll`. -/
  | poll (e : Bool) (npackets quota : ℕ)
deriving DecidableEq, Repr

/-- The program points, each before the statement it names, with the local variables that are still
needed. -/
inductive Pc (n : Bool → ℕ)
  | idle
  -- `snull_hw_tx`, called by `snull_tx` for a frame
  | txShort (d : Bool) (frame buf : List UInt8)
  | txGet (d : Bool) (frame buf : List UInt8)
  | txFill (d : Bool) (frame buf : List UInt8) (p : Packet n)
  | txEnqueue (d : Bool) (frame : List UInt8) (len : ℕ) (p : Packet n)
  | txRxInt (d : Bool) (len : ℕ)
  | txRxRead (d : Bool) (len : ℕ)
  | txRxWrite (d : Bool) (len : ℕ) (status : Status)
  | txLen (d : Bool) (len : ℕ)
  | txTxRead (d : Bool)
  | txTxWrite (d : Bool) (status : Status)
  | txLockup (d : Bool)
  | txEnd (d : Bool)
  -- `snull_interrupt`
  | interrupt (e : Bool) (after : After)
  | service (e : Bool) (after : After) (statusword : Status)
  -- `snull_release_buffer`
  | relPut (p : Packet n) (after : After)
  | relTest (p : Packet n) (after : After)
  | relWake (d : Bool) (after : After)
  -- `snull_tx_timeout`
  | timeoutErrors (d : Bool)
  | timeoutWake (d : Bool)
  -- `snull_poll`
  | poll (e : Bool) (npackets quota : ℕ)
  | pollTake (e : Bool) (npackets quota : ℕ)
  | pollSkb (e : Bool) (p : Packet n) (npackets quota : ℕ)
  | pollEnd (e : Bool)
  | pollComplete (e : Bool)
  | pollInts (e : Bool)
  -- with what the processor has
  | txOops (d : Bool) (frame : List UInt8) (p : Option (Packet n))
  | pollOops (e : Bool)
deriving DecidableEq

/-- The place behind the call: where the processor goes on when the handler returns. -/
def After.pc {n : Bool → ℕ} : After → Pc n
  | dest d len => .txLen d len
  | own d => .txEnd d
  | timeout d => .timeoutErrors d
  | poll e npackets quota => .poll e npackets quota

/-! ### Sections -/

variable {n : Bool → ℕ} (c : Config)

/-- A change of one interface, which leaves the other one alone. -/
def Shared.on (s : Shared n) (d : Bool) (f : Priv n → Priv n) : Shared n :=
  { s with dev := Function.update s.dev d (f (s.dev d)) }

/-- A change of an interface is a change of its own private data. -/
@[simp] theorem on_self (s : Shared n) (d : Bool) (f : Priv n → Priv n) :
    (s.on d f).dev d = f (s.dev d) := Function.update_self ..

@[simp] theorem on_of_ne (s : Shared n) {d e : Bool} (f : Priv n → Priv n) (h : e ≠ d) :
    (s.on d f).dev e = s.dev e := Function.update_of_ne h ..

/-- `snull_get_tx_buffer`, from a pool `p :: rest`: the queue is stopped with the last buffer. -/
def Priv.get (d : Priv n) (rest : List (Packet n)) : Priv n :=
  { d with ppool := rest, stopped := d.stopped || rest.isEmpty }

/-- `snull_release_buffer` and `snull_enqueue_buf`: the buffer in front of the list. -/
def Shared.link (s : Shared n) (p : Packet n) (list : List (Packet n)) : Shared n :=
  { s with next := Function.update s.next p list.head? }

/-- `snull_release_buffer`, the section with the lock: the buffer goes back to the pool it came
from. -/
def Priv.put (d : Priv n) (p : Packet n) : Priv n := { d with ppool := p :: d.ppool }

/-- `snull_enqueue_buf`: the queue is a list to which buffers are added in front, and from which
they are taken in front. -/
def Priv.enqueue (d : Priv n) (p : Packet n) : Priv n := { d with rxQueue := p :: d.rxQueue }

/-- `snull_dequeue_buf`, and the same in `snull_regular_interrupt`: what is left of the queue. -/
def Priv.dequeue (d : Priv n) (rest : List (Packet n)) : Priv n := { d with rxQueue := rest }

/-- What both interrupt handlers do with `statusword`, apart from what was received: the word of the
interface is cleared, a transmission counted if there was one, and the lock given back. -/
def Priv.serve (statusword : Status) (d : Priv n) : Priv n :=
  { d with
    status := ⟨false, false⟩
    lock := true
    stats := if statusword.tx then
        { d.stats with
          txPackets := c.count d.stats.txPackets 1
          txBytes := c.count d.stats.txBytes d.txPacketlen }
      else d.stats }

/-- A frame of so many bytes has been passed on, and is counted. -/
def Priv.countRx (d : Priv n) (bytes : ℕ) : Priv n :=
  { d with stats := { d.stats with
      rxPackets := c.count d.stats.rxPackets 1
      rxBytes := c.count d.stats.rxBytes bytes } }

/-- There was no memory for a socket buffer, and the frame counts as dropped. -/
def Priv.countDropped (d : Priv n) : Priv n :=
  { d with stats := { d.stats with rxDropped := c.count d.stats.rxDropped 1 } }

/-- `snull_napi_interrupt`: a receive interrupt disables further ones, and puts the interface on the
poll list. -/
def Priv.schedule (statusword : Status) (d : Priv n) : Priv n :=
  if statusword.rx then { d with rxIntEnabled := false, scheduled := true } else d

/-! ### Statements -/

/-- `snull_tx` and `snull_hw_tx`.  The frame is padded and changed, a buffer is taken and filled,
and the buffer put on the other interface's queue; then that interface is interrupted, if it wants
to be, and then this one, unless the lockup is simulated. -/
inductive TxStep : Shared n → Pc n → Event n → Shared n → Pc n → Prop
  | call {s : Shared n} {d : Bool} {frame : List UInt8} :
      (s.dev d).xmit = true → (s.dev d).stopped = false →
      TxStep s .idle (.transmit d frame) (s.on d fun p => { p with xmit := false })
        (.txShort d frame (pad frame))
  | short {s : Shared n} {d : Bool} {frame buf : List UInt8} :
      buf.length < headersLen → TxStep s (.txShort d frame buf) .silent s (.txEnd d)
  | rewrite {s : Shared n} {d : Bool} {frame buf : List UInt8} :
      headersLen ≤ buf.length →
      TxStep s (.txShort d frame buf) .silent s (.txGet d frame (rewrite c buf))
  | get {s : Shared n} {d : Bool} {frame buf : List UInt8} {p : Packet n}
      {rest : List (Packet n)} :
      (s.dev d).ppool = p :: rest → (s.dev d).lock = true →
      TxStep s (.txGet d frame buf) .silent (s.on d (·.get rest)) (.txFill d frame buf p)
  | getNull {s : Shared n} {d : Bool} {frame buf : List UInt8} :
      (s.dev d).ppool = [] → (s.dev d).lock = true →
      TxStep s (.txGet d frame buf) .wild s (.txOops d frame none)
  | fill {s : Shared n} {d : Bool} {frame buf : List UInt8} {p : Packet n} :
      buf.length ≤ ETH_DATA_LEN →
      TxStep s (.txFill d frame buf p) .silent { s with data := Function.update s.data p buf }
        (.txEnqueue d frame buf.length p)
  | overflow {s : Shared n} {d : Bool} {frame buf : List UInt8} {p : Packet n} :
      ETH_DATA_LEN < buf.length →
      TxStep s (.txFill d frame buf p) .wild s (.txOops d frame (some p))
  | enqueue {s : Shared n} {d : Bool} {frame : List UInt8} {len : ℕ} {p : Packet n} :
      (s.dev !d).lock = true →
      TxStep s (.txEnqueue d frame len p) (.sent d p frame)
        ((s.on (!d) (·.enqueue p)).link p (s.dev !d).rxQueue) (.txRxInt d len)
  | rxInt {s : Shared n} {d : Bool} {len : ℕ} :
      (s.dev !d).rxIntEnabled = true → TxStep s (.txRxInt d len) .silent s (.txRxRead d len)
  | noRxInt {s : Shared n} {d : Bool} {len : ℕ} :
      (s.dev !d).rxIntEnabled = false → TxStep s (.txRxInt d len) .silent s (.txLen d len)
  | rxRead {s : Shared n} {d : Bool} {len : ℕ} :
      TxStep s (.txRxRead d len) .silent s (.txRxWrite d len (s.dev !d).status)
  | rxWrite {s : Shared n} {d : Bool} {len : ℕ} {status : Status} :
      TxStep s (.txRxWrite d len status) .silent
        (s.on (!d) fun p => { p with status := { status with rx := true } })
        (.interrupt (!d) (.dest d len))
  | len {s : Shared n} {d : Bool} {len : ℕ} :
      TxStep s (.txLen d len) .silent (s.on d fun p => { p with txPacketlen := len }) (.txTxRead d)
  | txRead {s : Shared n} {d : Bool} :
      TxStep s (.txTxRead d) .silent s (.txTxWrite d (s.dev d).status)
  | txWrite {s : Shared n} {d : Bool} {status : Status} :
      TxStep s (.txTxWrite d status) .silent
        (s.on d fun p => { p with status := { status with tx := true } }) (.txLockup d)
  | lockup {s : Shared n} {d : Bool} :
      c.LocksUp (s.dev d).stats.txPackets →
      TxStep s (.txLockup d) .silent (s.on d fun p => { p with stopped := true }) (.txEnd d)
  | noLockup {s : Shared n} {d : Bool} :
      ¬ c.LocksUp (s.dev d).stats.txPackets →
      TxStep s (.txLockup d) .silent s (.interrupt d (.own d))
  | done {s : Shared n} {d : Bool} :
      TxStep s (.txEnd d) .silent (s.on d fun p => { p with xmit := true }) .idle

/-- `snull_regular_interrupt`, with `snull_rx` in it, and `snull_napi_interrupt`.  Each takes the
lock and looks at the status word; the rest, up to where the lock is given back, is one section, at
the end of which the regular one may have a buffer to release. -/
inductive InterruptStep : Shared n → Pc n → Event n → Shared n → Pc n → Prop
  | word {s : Shared n} {e : Bool} {after : After} :
      (s.dev e).lock = true →
      InterruptStep s (.interrupt e after) .silent (s.on e fun p => { p with lock := false })
        (.service e after (s.dev e).status)
  | quiet {s : Shared n} {e : Bool} {after : After} {word : Status} :
      c.useNapi = false → word.rx = false ∨ (s.dev e).rxQueue = [] →
      InterruptStep s (.service e after word) .silent (s.on e (·.serve c word)) after.pc
  | rx {s : Shared n} {e : Bool} {after : After} {word : Status} {p : Packet n}
      {rest : List (Packet n)} :
      c.useNapi = false → word.rx = true → (s.dev e).rxQueue = p :: rest →
      InterruptStep s (.service e after word) (.received e p (s.data p))
        (s.on e fun d => ((d.dequeue rest).countRx c (s.data p).length).serve c word)
        (.relPut p after)
  | dropped {s : Shared n} {e : Bool} {after : After} {word : Status} {p : Packet n}
      {rest : List (Packet n)} :
      c.useNapi = false → word.rx = true → (s.dev e).rxQueue = p :: rest →
      InterruptStep s (.service e after word) (.dropped e p (s.data p))
        (s.on e fun d => ((d.dequeue rest).countDropped c).serve c word) (.relPut p after)
  | napi {s : Shared n} {e : Bool} {after : After} {word : Status} :
      c.useNapi = true →
      InterruptStep s (.service e after word) .silent
        (s.on e fun d => (d.schedule word).serve c word) after.pc

/-- `snull_release_buffer`: the buffer is put in front of the pool with the lock, and then, without
it, the queue is woken if it is stopped and the pool was empty before (`pkt->next` is null). -/
inductive ReleaseStep : Shared n → Pc n → Event n → Shared n → Pc n → Prop
  | put {s : Shared n} {p : Packet n} {after : After} :
      (s.dev p.dev).lock = true →
      ReleaseStep s (.relPut p after) .silent
        ((s.on p.dev (·.put p)).link p (s.dev p.dev).ppool) (.relTest p after)
  | still {s : Shared n} {p : Packet n} {after : After} :
      (s.dev p.dev).stopped = false ∨ s.next p ≠ none →
      ReleaseStep s (.relTest p after) .silent s after.pc
  | test {s : Shared n} {p : Packet n} {after : After} :
      (s.dev p.dev).stopped = true → s.next p = none →
      ReleaseStep s (.relTest p after) .silent s (.relWake p.dev after)
  | wake {s : Shared n} {d : Bool} {after : After} :
      ReleaseStep s (.relWake d after) (.wake d) (s.on d fun p => { p with stopped := false })
        after.pc

/-- `snull_poll`: it takes buffers off the queue, up to its quota, and enables interrupts again when
the queue is empty.  The loop condition and the taking are two steps; that the queue is not emptied
between them is to be shown (`never_oops`), and is so because the regular handler is not installed
together with the poll. -/
inductive PollStep : Shared n → Pc n → Event n → Shared n → Pc n → Prop
  | call {s : Shared n} {e : Bool} {quota : ℕ} :
      c.useNapi = true → (s.dev e).scheduled = true → (s.dev e).unpolled = true →
      PollStep s .idle .silent (s.on e fun p => { p with unpolled := false }) (.poll e 0 quota)
  | more {s : Shared n} {e : Bool} {npackets quota : ℕ} :
      npackets < quota → (s.dev e).rxQueue ≠ [] →
      PollStep s (.poll e npackets quota) .silent s (.pollTake e npackets quota)
  | enough {s : Shared n} {e : Bool} {npackets quota : ℕ} :
      quota ≤ npackets ∨ (s.dev e).rxQueue = [] →
      PollStep s (.poll e npackets quota) .silent s (.pollEnd e)
  | take {s : Shared n} {e : Bool} {npackets quota : ℕ} {p : Packet n} {rest : List (Packet n)} :
      (s.dev e).rxQueue = p :: rest → (s.dev e).lock = true →
      PollStep s (.pollTake e npackets quota) .silent (s.on e (·.dequeue rest))
        (.pollSkb e p npackets quota)
  | takeNull {s : Shared n} {e : Bool} {npackets quota : ℕ} :
      (s.dev e).rxQueue = [] → (s.dev e).lock = true →
      PollStep s (.pollTake e npackets quota) .wild s (.pollOops e)
  | rx {s : Shared n} {e : Bool} {p : Packet n} {npackets quota : ℕ} :
      PollStep s (.pollSkb e p npackets quota) (.received e p (s.data p))
        (s.on e (·.countRx c (s.data p).length)) (.relPut p (.poll e (npackets + 1) quota))
  | dropped {s : Shared n} {e : Bool} {p : Packet n} {npackets quota : ℕ} :
      PollStep s (.pollSkb e p npackets quota) (.dropped e p (s.data p))
        (s.on e (·.countDropped c)) (.relPut p (.poll e npackets quota))
  | again {s : Shared n} {e : Bool} :
      (s.dev e).rxQueue ≠ [] →
      PollStep s (.pollEnd e) .silent (s.on e fun p => { p with unpolled := true }) .idle
  | last {s : Shared n} {e : Bool} :
      (s.dev e).rxQueue = [] → PollStep s (.pollEnd e) .silent s (.pollComplete e)
  | complete {s : Shared n} {e : Bool} :
      PollStep s (.pollComplete e) .silent
        (s.on e fun p => { p with scheduled := false, unpolled := true }) (.pollInts e)
  | ints {s : Shared n} {e : Bool} :
      PollStep s (.pollInts e) .silent (s.on e fun p => { p with rxIntEnabled := true }) .idle

/-- A statement of a processor.  The queue may be started and stopped at any time, as `snull_open`
and `snull_release` do when the interface is brought up or down. -/
inductive Step : Shared n → Pc n → Event n → Shared n → Pc n → Prop
  | tx {s s' : Shared n} {k k' : Pc n} {e : Event n} : TxStep c s k e s' k' → Step s k e s' k'
  | interrupt {s s' : Shared n} {k k' : Pc n} {e : Event n} :
      InterruptStep c s k e s' k' → Step s k e s' k'
  | release {s s' : Shared n} {k k' : Pc n} {e : Event n} :
      ReleaseStep s k e s' k' → Step s k e s' k'
  | poll {s s' : Shared n} {k k' : Pc n} {e : Event n} : PollStep c s k e s' k' → Step s k e s' k'
  -- `snull_tx_timeout`
  | timeout {s : Shared n} {d : Bool} :
      (s.dev d).xmit = true → (s.dev d).stopped = true →
      Step s .idle .silent (s.on d fun p => { p with xmit := false, status := ⟨false, true⟩ })
        (.interrupt d (.timeout d))
  | errors {s : Shared n} {d : Bool} :
      Step s (.timeoutErrors d) .silent
        (s.on d fun p =>
          { p with stats := { p.stats with txErrors := c.count p.stats.txErrors 1 } })
        (.timeoutWake d)
  | timeoutWake {s : Shared n} {d : Bool} :
      Step s (.timeoutWake d) (.wake d) (s.on d fun p => { p with stopped := false }) (.txEnd d)
  -- `snull_open` and `snull_release`
  | start {s : Shared n} {d : Bool} :
      Step s .idle (.wake d) (s.on d fun p => { p with stopped := false }) .idle
  | stop {s : Shared n} {d : Bool} :
      Step s .idle .silent (s.on d fun p => { p with stopped := true }) .idle

/-- The two interfaces with so many buffers each, for any number of processors. -/
def snull (ι : Type) (n : Bool → ℕ) : Threads ι (Shared n) (Pc n) (Event n) where
  init s := s.dev = Priv.initial n
  start := .idle
  step _ := Step c

end LeipoCode.Snull
