import LeipoCode.Lib.Fallible
import LeipoCode.Mpeg2.Model
import Mathlib.Tactic.IntervalCases
import Mathlib.Tactic.Ring

/-!
# Which packets the parser reports

The rule the parser is meant to follow is `CarriesPts`, on the unsigned bytes of one
packet.  What the code does differs from it in three ways:

* it looks at the first packet in every pass, since `j` is not moved on;
* it tests the lowest bit of `p[3]` where the rule tests two others, by the precedence
  of `==`, and always takes the adaptation field to be there;
* it takes the length of the adaptation field, and the bytes it prints, from signed
  characters, and the stream ids it excludes are no values of a signed character.

So a pass is a function of the first packet: it reads in front of the buffer
(`Overruns`), reports a time stamp (`Accepted`), or reports nothing.  `tsPesParser_eq`
puts the passes together, and the exact condition under which the code agrees with the
rule on the whole buffer follows.

`CarriesPts` is the specification, written from the format of a transport stream packet and the
comments of the source: the sync byte, the video PID, payload that begins a PES packet, a stream id
that has a header, and the flags of that header.  `recognises_iff` then is about buffers of any
number of whole packets.  Its condition names packets by what their bytes are, so it can be decided
without running the parser.

### How the condition comes about

Each difference between the code and the rule is a lemma on bytes: what sign extension does to a
comparison, to a mask and to a shift.  With these a pass is turned into a proposition about the
first packet (`parsePacket_overruns`, `parsePacket_accepted`, `parsePacket_silent`), and since `j`
never moves, all passes are that one.

So the code reports every packet, if the first one is accepted, or none.  The rule reports those
that carry a time stamp.  They agree if there is none to report and the first is not accepted, or if
all are to be reported, the first is accepted, and the bytes printed for it are those of each; an
empty buffer has no passes and no packets.  `ParsedRight` is this, and nothing but this.
-/

namespace LeipoCode.Mpeg2

open Fallible

/-! ### The rule -/

/-- The bytes of packet `k`; zeros behind the end of the buffer, where no packet is that anything is
said of. -/
def packet (buff : List Byte) (k : ℕ) : ℕ → Byte := fun i => buff.getD (188 * k + i) 0

/-- The 13-bit packet identifier: five bits of the second byte and all of the third one, unsigned.
-/
def pid (p : ℕ → Byte) : ℕ := ((p 1).toNat &&& 0x1F) <<< 8 ||| (p 2).toNat

/-- Where the payload begins: behind the adaptation field if there are both. -/
def pesPos (p : ℕ → Byte) : ℕ := if p 3 &&& 0x30 = 0x30 then 5 + (p 4).toNat else 4

/-- The packet carries a presentation time stamp on the video PID.  This is the specification:
unsigned bytes, the adaptation field where the header says there is one, a PES start code, a stream
id that has the optional header, and its flag for a time stamp, all inside the packet. -/
def CarriesPts (p : ℕ → Byte) : Prop :=
  p 0 = 0x47 ∧ pid p = VID_PID.toNat ∧ p 3 &&& 0x10 ≠ 0 ∧ pesPos p + 13 < 188 ∧
    (p (pesPos p) = 0 ∧ p (pesPos p + 1) = 0 ∧ p (pesPos p + 2) = 1) ∧
    p (pesPos p + 3) ∉ ([0xBC, 0xBE, 0xBF, 0xF0, 0xF1, 0xF2, 0xF8, 0xFF] : List Byte) ∧
    p (pesPos p + 7) &&& 0x80 ≠ 0

instance (p : ℕ → Byte) : Decidable (CarriesPts p) := by
  unfold CarriesPts
  infer_instance

/-- The five bytes of the time stamp, which follow nine bytes of PES header. -/
def ptsBytes (p : ℕ → Byte) : List ℕ :=
  [9, 10, 11, 12, 13].map fun i => (p (pesPos p + i)).toNat

/-- The parser reports exactly the packets that carry a time stamp, each with its five
bytes. -/
def Recognises (offset : ℤ) (buff : List Byte) : Prop :=
  ∃ out, tsPesParser offset buff buff.length = .ok out ∧
    ∀ k ws, Line.ptsFound k ws ∈ out ↔
      k < buff.length / 188 ∧ CarriesPts (packet buff k) ∧
        ws.map BitVec.toNat = ptsBytes (packet buff k)

/-! ### What the code looks at -/

/-- The tests of the code on the header: these are on the unsigned bytes right, but for the one on
the flags, which looks at the lowest bit of the byte. -/
def Reached (p : ℕ → Byte) : Prop :=
  p 0 = 0x47 ∧ pid p = VID_PID.toNat ∧ p 3 &&& 1 ≠ 0

instance (p : ℕ → Byte) : Decidable (Reached p) :=
  inferInstanceAs (Decidable (_ ∧ _ ∧ _))

/-- A length that is negative as a signed character leads in front of the buffer. -/
def Overruns (p : ℕ → Byte) : Prop :=
  Reached p ∧ 0x80 ≤ (p 4).toNat ∧ (p 4).toNat ≤ 0xFA

/-- The tests of the code behind the adaptation field.  The stream ids that the source lists are not
excluded here: as an `int` no signed character has such a value. -/
def Accepted (p : ℕ → Byte) : Prop :=
  Reached p ∧ (p 4).toNat < 0x80 ∧
    (p (5 + (p 4).toNat) = 0 ∧ p (5 + (p 4).toNat + 1) = 0 ∧ p (5 + (p 4).toNat + 2) = 1) ∧
    p (5 + (p 4).toNat + 7) &&& 0x80 ≠ 0

/-- What the code prints for a packet it accepts: bytes with their signs extended to 32 bits. -/
def printedBytes (p : ℕ → Byte) : List (BitVec 32) :=
  [9, 10, 11, 12, 13].map fun i => (p (5 + (p 4).toNat + i)).signExtend 32

/-! ### Bytes -/

section Bytes

theorem setWidth_signExtend_char : ∀ b : Byte, (b.signExtend 32).setWidth 8 = b := by
  decide

theorem signExtend_inj (b c : Byte) : b.signExtend 32 = c.signExtend 32 ↔ b = c := by
  constructor
  · intro h
    have hback := congrArg (BitVec.setWidth 8) h
    rwa [setWidth_signExtend_char, setWidth_signExtend_char] at hback
  · rintro rfl
    rfl

theorem signExtend_and_one : ∀ b : Byte, b.signExtend 32 &&& 1 = 0 ↔ b &&& 1 = 0 := by
  decide

theorem signExtend_flag :
    ∀ b : Byte, b.signExtend 32 &&& 0x80 ≠ 0x80 ↔ b &&& 0x80 = 0 := by
  decide

theorem noHeaderIds_signExtend : ∀ b : Byte, noHeaderIds.contains (b.signExtend 32) = false := by
  decide

/-- The value of a signed character: its byte below `0x80`, and 256 less from there on. -/
theorem toInt_char (b : Byte) :
    b.toInt = if b.toNat < 0x80 then (b.toNat : ℤ) else b.toNat - 256 := by
  rw [BitVec.toInt_eq_toNat_cond]
  split_ifs <;> omega

theorem signExtend_pid_low : ∀ b : Byte,
    ((b.signExtend 32 &&& 0x1F) <<< 8) ||| (0x6F : Byte).signExtend 32 = VID_PID ↔
      b &&& 0x1F = 0 := by
  decide

theorem setWidth_shiftLeft_or (x y : BitVec 32) :
    ((x <<< 8) ||| y).setWidth 8 = y.setWidth 8 := by
  ext i hi
  simp

/-- The packet identifier as the code computes it, with a signed low byte. -/
theorem signExtend_pid (b c : Byte) :
    ((b.signExtend 32 &&& 0x1F) <<< 8) ||| c.signExtend 32 = VID_PID ↔
      b &&& 0x1F = 0 ∧ c = 0x6F := by
  constructor
  · intro h
    have hlow := congrArg (BitVec.setWidth 8) h
    rw [setWidth_shiftLeft_or, setWidth_signExtend_char] at hlow
    have hc : c = 0x6F := hlow
    subst hc
    exact ⟨(signExtend_pid_low b).mp h, rfl⟩
  · rintro ⟨hb, rfl⟩
    exact (signExtend_pid_low b).mpr hb

/-- The packet identifier of the rule, in bytes: it is the video PID exactly if the low five bits of
the one byte are clear and the other is `0x6F`. -/
theorem pid_eq (p : ℕ → Byte) : pid p = VID_PID.toNat ↔ p 1 &&& 0x1F = 0 ∧ p 2 = 0x6F := by
  have hlow := (p 2).isLt
  have hhigh : (p 1 &&& 0x1F).toNat = (p 1).toNat &&& 0x1F := by
    rw [BitVec.toNat_and]
    rfl
  rw [pid, ← Nat.shiftLeft_add_eq_or_of_lt hlow, Nat.shiftLeft_eq, ← hhigh, BitVec.toNat_eq,
    BitVec.toNat_eq]
  have hvid : VID_PID.toNat = 111 := rfl
  have hz : (0 : Byte).toNat = 0 := rfl
  have hv : (0x6F : Byte).toNat = 111 := rfl
  omega

end Bytes

/-! ### One pass -/

section Pass

variable {buff : List Byte}

/-- A read inside the buffer delivers its byte, with the sign extended to an `int`. -/
theorem char_at {i : ℤ} {n : ℕ} (hi : i = n) (hn : n < buff.length) :
    char buff i = .ok ((packet buff 0 n).signExtend 32) := by
  subst hi
  have hget : buff[n]? = some buff[n] := List.getElem?_eq_getElem hn
  have hpacket : packet buff 0 n = buff[n] := by
    simp [packet, List.getD_eq_getElem?_getD, hget]
  rw [char, if_pos (Int.natCast_nonneg n), Int.toNat_natCast, hget, hpacket]

/-- A read in front of the buffer is a fault, at the index it was made with. -/
theorem char_neg {i : ℤ} (hi : i < 0) : char buff i = .error (.outOfBounds i) :=
  if_neg (by omega)

/-- The part from `packet_pos` on, where that lies in the buffer: a time stamp is reported if there
are a start code and the flag, and the stream id does not matter. -/
theorem parsePes_eq {ind pos : ℕ} (hpos : pos + 13 < buff.length) :
    parsePes buff ind pos = .ok
      (if (packet buff 0 pos = 0 ∧ packet buff 0 (pos + 1) = 0 ∧ packet buff 0 (pos + 2) = 1) ∧
          packet buff 0 (pos + 7) &&& 0x80 ≠ 0 then
        [.ptsFound (ind / 188)
          ([9, 10, 11, 12, 13].map fun i => (packet buff 0 (pos + i)).signExtend 32)]
      else []) := by
  have h0 : char buff pos = .ok _ := char_at rfl (by omega)
  have h1 : char buff (pos + 1) = .ok _ := char_at (n := pos + 1) (by push_cast; rfl) (by omega)
  have h2 : char buff (pos + 2) = .ok _ := char_at (n := pos + 2) (by push_cast; rfl) (by omega)
  have h3 : char buff (pos + 3) = .ok _ := char_at (n := pos + 3) (by push_cast; rfl) (by omega)
  have h7 : char buff (pos + 7) = .ok _ := char_at (n := pos + 7) (by push_cast; rfl) (by omega)
  have h9 : char buff (pos + 9) = .ok _ := char_at (n := pos + 9) (by push_cast; rfl) (by omega)
  have h10 : char buff (pos + 9 + 1) = .ok _ :=
    char_at (n := pos + 10) (by push_cast; ring) (by omega)
  have h11 : char buff (pos + 9 + 2) = .ok _ :=
    char_at (n := pos + 11) (by push_cast; ring) (by omega)
  have h12 : char buff (pos + 9 + 3) = .ok _ :=
    char_at (n := pos + 12) (by push_cast; ring) (by omega)
  have h13 : char buff (pos + 9 + 4) = .ok _ :=
    char_at (n := pos + 13) (by push_cast; ring) (by omega)
  unfold parsePes
  simp only [h0, h1, h2, h3, h7, h9, h10, h11, h12, h13, ok_bind, pure_eq_ok]
  have hzero : ∀ b : Byte, b.signExtend 32 = 0 ↔ b = 0 := fun b => signExtend_inj b 0
  have hone : ∀ b : Byte, b.signExtend 32 = 1 ↔ b = 1 := fun b => signExtend_inj b 1
  simp only [ne_eq, hzero, hone, noHeaderIds_signExtend, Bool.false_eq_true, if_false]
  have hflag := signExtend_flag (packet buff 0 (pos + 7))
  split_ifs <;> simp_all

/-- The tests on the header, where the first packet lies in the buffer.  Behind them the pass goes
on as if there were an adaptation field. -/
theorem parsePacket_header {ind : ℕ} (hlen : 188 ≤ buff.length) :
    parsePacket buff 0 ind =
      if packet buff 0 0 ≠ 0x47 then .ok [.alignedError]
      else if ¬ Reached (packet buff 0) then .ok []
      else parsePes buff ind (5 + (packet buff 0 4).toInt) := by
  have h0 : char buff ((0 : ℕ) : ℤ) = .ok _ := char_at rfl (by omega)
  have h1 : char buff ((0 : ℕ) + 1) = .ok _ := char_at (n := 1) rfl (by omega)
  have h2 : char buff ((0 : ℕ) + 2) = .ok _ := char_at (n := 2) rfl (by omega)
  have h3 : char buff ((0 : ℕ) + 3) = .ok _ := char_at (n := 3) rfl (by omega)
  have h4 : char buff ((0 : ℕ) + 4) = .ok _ := char_at (n := 4) rfl (by omega)
  have hsync : ∀ b : Byte, b.signExtend 32 = 0x47 ↔ b = 0x47 := fun b => signExtend_inj b 0x47
  have hbit : intOfBool ((0x10 : BitVec 32) == 0x10) = 1 := rfl
  have hbit' : intOfBool ((0x30 : BitVec 32) == 0x30) = 1 := rfl
  have hint : ((packet buff 0 4).signExtend 32).toInt = (packet buff 0 4).toInt :=
    BitVec.toInt_signExtend_of_le (by decide)
  have hpos : 4 + (1 + (packet buff 0 4).toInt) = 5 + (packet buff 0 4).toInt := by omega
  have hsmall : ¬ 188 ≤ 5 + (packet buff 0 4).toInt := by
    rw [toInt_char]
    split_ifs <;> omega
  unfold parsePacket Reached
  simp only [h0, h1, h2, h3, h4, ok_bind, pure_eq_ok, hbit, hbit', ne_eq, hsync,
    signExtend_and_one, signExtend_pid, ← pid_eq, hint, hpos, if_neg hsmall]
  split_ifs <;> first | rfl | tauto

/-- A pass leads in front of the buffer if the first packet does (`Overruns`), whatever the number
of the pass is. -/
theorem parsePacket_overruns (hlen : 188 ≤ buff.length)
    (hover : Overruns (packet buff 0)) (ind : ℕ) :
    ∃ i, parsePacket buff 0 ind = .error (.outOfBounds i) := by
  obtain ⟨hreached, hge, hle⟩ := hover
  have hneg : 5 + (packet buff 0 4).toInt < 0 := by
    rw [toInt_char, if_neg (by omega)]
    omega
  rw [parsePacket_header hlen, if_neg (not_not.mpr hreached.1), if_neg (not_not.mpr hreached),
    parsePes, char_neg hneg]
  exact ⟨_, rfl⟩

/-- A pass that finds a time stamp in the first packet reports it, under the number of the pass. -/
theorem parsePacket_accepted {ind : ℕ} (hlen : 188 ≤ buff.length)
    (hacc : Accepted (packet buff 0)) :
    parsePacket buff 0 ind = .ok [.ptsFound (ind / 188) (printedBytes (packet buff 0))] := by
  obtain ⟨hreached, hlt, hstart⟩ := hacc
  have hpos : 5 + (packet buff 0 4).toInt = ((5 + (packet buff 0 4).toNat : ℕ) : ℤ) := by
    rw [toInt_char, if_pos hlt]
    push_cast
    rfl
  rw [parsePacket_header hlen, if_neg (not_not.mpr hreached.1), if_neg (not_not.mpr hreached),
    hpos, parsePes_eq (by omega), if_pos hstart]
  rfl

/-- A pass that finds nothing.  A small negative length leads back into the header,
which holds no start code. -/
theorem parsePacket_silent (hlen : 188 ≤ buff.length)
    (hover : ¬ Overruns (packet buff 0)) (hacc : ¬ Accepted (packet buff 0)) (ind : ℕ) :
    ∃ out, parsePacket buff 0 ind = .ok out ∧ ∀ k ws, Line.ptsFound k ws ∉ out := by
  rw [parsePacket_header hlen]
  by_cases hsync : packet buff 0 0 = 0x47
  swap
  · exact ⟨_, if_pos hsync, by simp⟩
  rw [if_neg (not_not.mpr hsync)]
  by_cases hreached : Reached (packet buff 0)
  swap
  · exact ⟨_, if_pos hreached, by simp⟩
  rw [if_neg (not_not.mpr hreached)]
  by_cases hlt : (packet buff 0 4).toNat < 0x80
  · have hpos : 5 + (packet buff 0 4).toInt = ((5 + (packet buff 0 4).toNat : ℕ) : ℤ) := by
      rw [toInt_char, if_pos hlt]
      push_cast
      rfl
    rw [hpos, parsePes_eq (by omega), if_neg fun hstart => hacc ⟨hreached, hlt, hstart⟩]
    exact ⟨_, rfl, by simp⟩
  · have hge : 0xFB ≤ (packet buff 0 4).toNat := by
      by_contra hno
      exact hover ⟨hreached, by omega, by omega⟩
    obtain ⟨pos, hpos, hsmall⟩ : ∃ pos : ℕ, 5 + (packet buff 0 4).toInt = pos ∧ pos ≤ 4 := by
      have htop := (packet buff 0 4).isLt
      rw [toInt_char, if_neg hlt]
      exact ⟨(packet buff 0 4).toNat - 251, by omega, by omega⟩
    rw [hpos, parsePes_eq (by omega), if_neg ?header]
    · exact ⟨_, rfl, by simp⟩
    case header =>
      -- one of the bytes at `pos`, `pos + 1` is the sync byte, 0x6F, odd, or the length
      rintro ⟨⟨hz, hz', -⟩, -⟩
      obtain ⟨-, hpid, hodd⟩ := hreached
      have hlow := ((pid_eq _).mp hpid).2
      interval_cases pos
      · rw [hsync] at hz
        cases hz
      · rw [hlow] at hz'
        cases hz'
      · rw [hlow] at hz
        cases hz
      · rw [hz] at hodd
        exact hodd rfl
      · rw [hz] at hge
        exact absurd hge (by decide)

end Pass

/-! ### All passes -/

section Passes

variable {buff : List Byte}

/-- As soon as there is a pass, it leads in front of the buffer, and the parser with it. -/
theorem parsePackets_overruns {count : ℕ} (hlen : 188 ≤ buff.length)
    (hover : Overruns (packet buff 0)) (hcount : 0 < count) (ind : ℕ) :
    ∃ i, parsePackets buff 0 count ind = .error (.outOfBounds i) := by
  cases count with
  | zero => cases hcount
  | succ count =>
      obtain ⟨i, hi⟩ := parsePacket_overruns hlen hover ind
      exact ⟨i, by rw [parsePackets, hi, error_bind]⟩

/-- Every pass reports the first packet, under its own number. -/
theorem parsePackets_accepted (hlen : 188 ≤ buff.length) (hacc : Accepted (packet buff 0))
    (count n : ℕ) :
    parsePackets buff 0 count (188 * n) = .ok
      ((List.range' n count).map fun k => .ptsFound k (printedBytes (packet buff 0))) := by
  induction count generalizing n with
  | zero => rfl
  | succ count ih =>
      have hnext : 188 * n + 188 = 188 * (n + 1) := by ring
      rw [parsePackets, parsePacket_accepted hlen hacc, ok_bind, hnext, ih, ok_bind,
        pure_eq_ok, Nat.mul_div_cancel_left n (by decide), List.range'_succ]
      rfl

/-- No pass reports anything, if the first packet is not accepted and does not lead in front of the
buffer. -/
theorem parsePackets_silent (hlen : 188 ≤ buff.length) (hover : ¬ Overruns (packet buff 0))
    (hacc : ¬ Accepted (packet buff 0)) (count ind : ℕ) :
    ∃ out, parsePackets buff 0 count ind = .ok out ∧ ∀ k ws, Line.ptsFound k ws ∉ out := by
  induction count generalizing ind with
  | zero => exact ⟨[], rfl, by simp⟩
  | succ count ih =>
      obtain ⟨out, hout, hnone⟩ := parsePacket_silent hlen hover hacc ind
      obtain ⟨rest, hrest, hnone'⟩ := ih (ind + 188)
      refine ⟨out ++ rest, ?_, fun k ws hm => ?_⟩
      · rw [parsePackets, hout, ok_bind, hrest, ok_bind, pure_eq_ok]
      · rcases List.mem_append.mp hm with hm | hm
        · exact hnone k ws hm
        · exact hnone' k ws hm

/-- The parser makes one pass for each packet of its buffer, behind the line for the offset. -/
theorem tsPesParser_eq {n : ℕ} (offset : ℤ) (hsize : buff.length = 188 * n) :
    tsPesParser offset buff buff.length =
      (parsePackets buff 0 n 0).map fun out => .offset offset :: out := by
  have hcount : (buff.length + 187) / 188 = n := by omega
  rw [tsPesParser, hcount]
  cases parsePackets buff 0 n 0 <;> rfl

end Passes

/-! ### The code against the rule -/

section Rule

variable {p : ℕ → Byte}

/-- A packet that carries a time stamp is accepted as it should be exactly if it has
an adaptation field, a short one, and the lowest bit of `p[3]` is set as well. -/
theorem CarriesPts.accepted_iff (h : CarriesPts p) :
    Accepted p ↔ p 3 &&& 0x31 = 0x31 ∧ (p 4).toNat < 0x80 := by
  have hbits : ∀ b : Byte, b &&& 0x31 = 0x31 ↔ b &&& 1 ≠ 0 ∧ b &&& 0x30 = 0x30 := by decide
  obtain ⟨hsync, hpid, -, -, hstart, -, hflag⟩ := h
  rw [hbits]
  constructor
  · rintro ⟨⟨-, -, hodd⟩, hlt, ⟨-, hsix, -⟩, -⟩
    refine ⟨⟨hodd, ?_⟩, hlt⟩
    by_contra hno
    rw [pesPos, if_neg hno] at hstart
    -- the rule has 00 00 01 at 4, the code 00 00 01 at 5 + 0
    rw [hstart.1] at hsix
    have hone : p 6 = 0 := hsix
    rw [hstart.2.2] at hone
    cases hone
  · rintro ⟨⟨hodd, hboth⟩, hlt⟩
    rw [pesPos, if_pos hboth] at hstart hflag
    exact ⟨⟨hsync, hpid, hodd⟩, hlt, hstart, hflag⟩

/-- Where the code accepts a packet rightly, what it prints are the five bytes if none
of them is negative as a signed character. -/
theorem printedBytes_eq_iff (h : CarriesPts p) (hacc : Accepted p) :
    (printedBytes p).map BitVec.toNat = ptsBytes p ↔ ∀ b ∈ ptsBytes p, b < 0x80 := by
  have hboth : p 3 &&& 0x30 = 0x30 := by
    have hbits : ∀ b : Byte, b &&& 0x31 = 0x31 → b &&& 0x30 = 0x30 := by decide
    exact hbits _ (h.accepted_iff.mp hacc).1
  have hsign : ∀ b : Byte, (b.signExtend 32).toNat = b.toNat ↔ b.toNat < 0x80 := by decide
  rw [printedBytes, ptsBytes, pesPos, if_pos hboth, List.map_map]
  simp [hsign]

/-- The five bytes fit the arguments of `%x`, so there is something the rule asks to be printed. -/
theorem exists_map_toNat (p : ℕ → Byte) :
    ∃ ws : List (BitVec 32), ws.map BitVec.toNat = ptsBytes p := by
  refine ⟨[9, 10, 11, 12, 13].map fun i => (p (pesPos p + i)).setWidth 32, ?_⟩
  rw [ptsBytes, List.map_map]
  apply List.map_congr_left
  intro i _
  have hlt := (p (pesPos p + i)).isLt
  rw [Function.comp_apply, BitVec.toNat_setWidth]
  exact Nat.mod_eq_of_lt (by omega)

end Rule

/-- When the code meets the rule: the buffer is empty; or no packet carries a time stamp
and the first is not taken for one; or every packet carries one, with the same five
bytes below 0x80, and the first is taken for one rightly. -/
def ParsedRight (buff : List Byte) : Prop :=
  buff.length = 0 ∨
  ((∀ k, k < buff.length / 188 → ¬ CarriesPts (packet buff k)) ∧
    ¬ Overruns (packet buff 0) ∧ ¬ Accepted (packet buff 0)) ∨
  ((∀ k, k < buff.length / 188 → CarriesPts (packet buff k) ∧
      ptsBytes (packet buff k) = ptsBytes (packet buff 0)) ∧
    (∀ b ∈ ptsBytes (packet buff 0), b < 0x80) ∧
    packet buff 0 3 &&& 0x31 = 0x31 ∧ (packet buff 0 4).toNat < 0x80)

/-- **When the parser recognises exactly the packets with a time stamp**: in each buffer that
`ParsedRight` describes, and in no other.  The buffer is any number of whole packets (`hsize`), with
any bytes in them; `offset`, the place of the buffer in the file, is only printed, and does not
matter. -/
theorem recognises_iff {buff : List Byte} {n : ℕ} (offset : ℤ) (hsize : buff.length = 188 * n) :
    Recognises offset buff ↔ ParsedRight buff := by
  have hn : buff.length / 188 = n := by omega
  unfold Recognises ParsedRight
  rw [tsPesParser_eq offset hsize, hn]
  rcases Nat.eq_zero_or_pos n with rfl | hpos
  · refine iff_of_true ⟨[.offset offset], rfl, ?_⟩ (Or.inl hsize)
    simp
  have hlen : 188 ≤ buff.length := by omega
  have hne : ¬ buff.length = 0 := by omega
  rw [or_iff_right hne]
  by_cases hover : Overruns (packet buff 0)
  · obtain ⟨i, hi⟩ := parsePackets_overruns hlen hover hpos 0
    refine iff_of_false ?_ ?_
    · rintro ⟨out, hout, -⟩
      rw [hi] at hout
      cases hout
    · rintro (⟨-, hno, -⟩ | ⟨-, -, -, hlt⟩)
      · exact hno hover
      · exact absurd hover.2.1 (by omega)
  by_cases hacc : Accepted (packet buff 0)
  · have hout := parsePackets_accepted hlen hacc n 0
    rw [Nat.mul_zero] at hout
    rw [hout]
    have hmem : ∀ k ws, Line.ptsFound k ws ∈ Line.offset offset ::
        (List.range' 0 n).map (fun k => Line.ptsFound k (printedBytes (packet buff 0))) ↔
          k < n ∧ ws = printedBytes (packet buff 0) := by
      intro k ws
      simp only [List.mem_cons, reduceCtorEq, false_or, List.mem_map, List.mem_range'_1,
        Line.ptsFound.injEq]
      constructor
      · rintro ⟨j, hj, rfl, rfl⟩
        exact ⟨by omega, rfl⟩
      · rintro ⟨hk, rfl⟩
        exact ⟨k, by omega, rfl, rfl⟩
    rw [or_iff_right fun hno => hno.2.2 hacc]
    constructor
    · rintro ⟨out, hout', hrule⟩
      obtain rfl := Except.ok.inj hout'
      have hall : ∀ k, k < n → CarriesPts (packet buff k) ∧
          (printedBytes (packet buff 0)).map BitVec.toNat = ptsBytes (packet buff k) :=
        fun k hk => ((hrule k _).mp ((hmem k _).mpr ⟨hk, rfl⟩)).2
      obtain ⟨hcarries, hbytes⟩ := hall 0 hpos
      refine ⟨fun k hk => ⟨(hall k hk).1, ?_⟩, ?_, hcarries.accepted_iff.mp hacc⟩
      · rw [← hbytes, ← (hall k hk).2]
      · exact (printedBytes_eq_iff hcarries hacc).mp hbytes
    · rintro ⟨hall, hsmall, -⟩
      refine ⟨_, rfl, fun k ws => (hmem k ws).trans ?_⟩
      have hbytes := (printedBytes_eq_iff (hall 0 hpos).1 hacc).mpr hsmall
      apply and_congr_right
      intro hk
      obtain ⟨hcarries, hsame⟩ := hall k hk
      rw [hsame, ← hbytes, List.map_inj_right fun _ _ => BitVec.eq_of_toNat_eq]
      exact (and_iff_right hcarries).symm
  · obtain ⟨out, hout, hnone⟩ := parsePackets_silent hlen hover hacc n 0
    rw [hout]
    constructor
    · rintro ⟨out', hout', hrule⟩
      obtain rfl := Except.ok.inj hout'
      refine Or.inl ⟨fun k hk hcarries => ?_, hover, hacc⟩
      obtain ⟨ws, hws⟩ := exists_map_toNat (packet buff k)
      have hmem := (hrule k ws).mpr ⟨hk, hcarries, hws⟩
      simp only [List.mem_cons, reduceCtorEq, false_or] at hmem
      exact hnone k ws hmem
    · rintro (⟨hno, -, -⟩ | ⟨hall, -, hfirst⟩)
      · refine ⟨_, rfl, fun k ws => iff_of_false ?_ fun hk => hno k hk.1 hk.2.1⟩
        simp only [List.mem_cons, reduceCtorEq, false_or]
        exact hnone k ws
      · exact absurd ((hall 0 hpos).1.accepted_iff.mpr hfirst) hacc

/-- A packet with an adaptation field of length 0, the lowest bit of `p[3]` set and a
time stamp of small bytes. -/
def acceptedPacket : List Byte :=
  [0x47, 0x00, 0x6F, 0x31, 0x00, 0x00, 0x00, 0x01, 0xE0, 0x00, 0x00, 0x80, 0x80, 0x05,
    0x21, 0x00, 0x01, 0x00, 0x01] ++ List.replicate 169 0xFF

/-- The time stamp of that packet is recognised, as one that the code and the rule agree on. -/
theorem recognises_acceptedPacket :
    acceptedPacket.length = 188 * 1 ∧ Recognises 0 acceptedPacket := by
  have hsize : acceptedPacket.length = 188 * 1 := by rfl
  have hall : ∀ k, k < acceptedPacket.length / 188 → CarriesPts (packet acceptedPacket k) ∧
      ptsBytes (packet acceptedPacket k) = ptsBytes (packet acceptedPacket 0) := by
    intro k hk
    obtain rfl : k = 0 := by omega
    exact ⟨by decide, rfl⟩
  exact ⟨hsize, (recognises_iff 0 hsize).mpr
    (Or.inr (Or.inr ⟨hall, by decide, by decide, by decide⟩))⟩

/-- A packet with a time stamp and no adaptation field, as most packets with one are. -/
def payloadPacket : List Byte :=
  [0x47, 0x00, 0x6F, 0x10, 0x00, 0x00, 0x01, 0xE0, 0x00, 0x00, 0x80, 0x80, 0x05,
    0x21, 0x00, 0x01, 0x00, 0x01] ++ List.replicate 170 0xFF

/-- The time stamp of that packet is not reported: only the offset is printed, although the packet
carries one. -/
theorem payloadPacket_missed :
    payloadPacket.length = 188 ∧ CarriesPts (packet payloadPacket 0) ∧
      tsPesParser 0 payloadPacket 188 = .ok [.offset 0] ∧ ¬ Recognises 0 payloadPacket := by
  have hsize : payloadPacket.length = 188 := by rfl
  have hcarries : CarriesPts (packet payloadPacket 0) := by decide
  have hout : tsPesParser 0 payloadPacket 188 = .ok [.offset 0] := rfl
  refine ⟨hsize, hcarries, hout, ?_⟩
  rintro ⟨out, hrun, hrule⟩
  obtain ⟨ws, hws⟩ := exists_map_toNat (packet payloadPacket 0)
  have hmem := (hrule 0 ws).mpr ⟨by omega, hcarries, hws⟩
  rw [hsize, hout] at hrun
  obtain rfl := Except.ok.inj hrun
  simp at hmem

end LeipoCode.Mpeg2
