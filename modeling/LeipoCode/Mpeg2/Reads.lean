import LeipoCode.Lib.Interpret
import LeipoCode.Mpeg2.Parser

/-!
# Where the parser reads

The parser once more, as a program whose calls are its reads of `buff`: those of the header
of a packet, and those of its PES bytes, which belong to the packet of the pass that is
numbered `ind/188`.  Run on the bytes of a buffer it is `tsPesParser`
(`interpret_tsPesReads`), so the reads that the two make are the same.

Two things lead astray.  A negative length of the adaptation field is subtracted, and the
test on `packet_pos` only prints (`Overruns`).  And `j` is not moved on, so every pass reads
the first packet: from the second pass on the PES bytes are those of another packet.

Each read is labelled with the packet it is meant for, which only the program text tells: an index
is a number, and no two packets have one in common.  `ReadsInside` is then a property of the calls
of the program (`Lib.Interpret`), and it is exact for every buffer of whole packets
(`reads_inside_iff`), in both of its halves.

### How the two halves are shown

That a read is inside the buffer is the same as that the parser does not fail at it
(`allCalls_inBuffer_iff`), so the first half is about the parser as it was modelled first: it fails
in a pass only if the first packet leads in front of the buffer, and then in its first pass already.

That the PES bytes are those of the packet of the pass is about the program with its calls.  A pass
reads at most 14 bytes from `packet_pos` on (`calls_parsePesReads`), which lie in the first packet
whatever the pass is (`parsePacketReads_first`), since the length of the adaptation field is less
than 128.  So the first pass is right, and every later one is wrong with the first PES byte that it
reads (`parsePacketReads_later`); it reads none if the header says so, and all passes read the same
header.
-/

namespace LeipoCode.Mpeg2

open Discipline Fallible

/-! ### The parser as a program -/

/-- A read of `buff`: one of the header of a packet, or one of the PES bytes in the pass that is
numbered `ind/188`. -/
inductive Read
  | header (index : ℤ)
  /-- In the pass for `ind`, from `packet_pos` on. -/
  | pes (ind : ℕ) (index : ℤ)
deriving DecidableEq, Repr

/-- Where it reads: an index of `buff`, which may be negative or behind its end. -/
def Read.index : Read → ℤ
  | .header index => index
  | .pes _ index => index

/-- Programs that read.  The result of a read is its byte as an `int`, whatever the buffer is. -/
abbrev Reader (α : Type) : Type := Prog Read (fun _ => BitVec 32) α

/-- `buff[index]` as an `int`, read for the header of a packet: its first bytes, up to the length of
an adaptation field. -/
def header (index : ℤ) : Reader (BitVec 32) := .lift (.header index)

/-- The same from `packet_pos` on, where the PES bytes of the packet of this pass should be. -/
def pes (ind : ℕ) (index : ℤ) : Reader (BitVec 32) := .lift (.pes ind index)

/-- The part of the loop body from `packet_pos` on, with its reads as calls. -/
def parsePesReads (ind : ℕ) (packetPos : ℤ) : Reader (List Line) := do
  if (← pes ind packetPos) ≠ 0 then
    return []
  if (← pes ind (packetPos + 1)) ≠ 0 then
    return []
  if (← pes ind (packetPos + 2)) ≠ 1 then
    return []
  let streamId ← pes ind (packetPos + 3)
  if noHeaderIds.contains streamId then
    return []
  if (← pes ind (packetPos + 7)) &&& 0x80 ≠ 0x80 then
    return []
  let ptsPos := packetPos + 9
  return [.ptsFound (ind / 188)
    [← pes ind ptsPos, ← pes ind (ptsPos + 1), ← pes ind (ptsPos + 2),
      ← pes ind (ptsPos + 3), ← pes ind (ptsPos + 4)]]

/-- The body of the loop, with its reads as calls, in the order of the source: a test that fails
ends the pass before the next read. -/
def parsePacketReads (j ind : ℕ) : Reader (List Line) := do
  if (← header j) ≠ 0x47 then
    return [.alignedError]
  let pidPacket := (((← header (j + 1)) &&& 0x1F) <<< 8) ||| (← header (j + 2))
  if pidPacket ≠ VID_PID then
    return []
  if (← header (j + 3)) &&& intOfBool ((0x10 : BitVec 32) == 0x10) = 0 then
    return []
  let packetPos : ℤ := 4
  if (← header (j + 3)) &&& intOfBool ((0x30 : BitVec 32) == 0x30) ≠ 0 then
    let adaptionFieldLength := (← header (j + 4)).toInt
    let packetPos := packetPos + (1 + adaptionFieldLength)
    if 188 ≤ packetPos then
      return .warning packetPos adaptionFieldLength :: (← parsePesReads ind packetPos)
    parsePesReads ind packetPos
  else
    parsePesReads ind packetPos

/-- `count` passes of the loop, from `ind` on, each with the same index `j` for its header. -/
def parsePacketsReads (j : ℕ) : ℕ → ℕ → Reader (List Line)
  | 0, _ => return []
  | count + 1, ind => do
      let out ← parsePacketReads j ind
      return out ++ (← parsePacketsReads j count (ind + 188))

/-- `TS_PES_Parser`, with its reads as calls; it is `tsPesParser` when a buffer answers them. -/
def tsPesReads (offset : ℤ) (size : ℕ) : Reader (List Line) := do
  return .offset offset :: (← parsePacketsReads 0 ((size + 187) / 188) 0)

/-! ### It is the same parser -/

/-- What a read of a buffer delivers: its byte as an `int`, or the fault of a read outside. -/
def readChar (buff : List Byte) (c : Read) : Except Fault (BitVec 32) := char buff c.index

section Same

variable {buff : List Byte}

@[simp] theorem interpret_header (index : ℤ) :
    (header index).interpret (readChar buff) = char buff index :=
  Prog.interpret_lift _

@[simp] theorem interpret_pes (ind : ℕ) (index : ℤ) :
    (pes ind index).interpret (readChar buff) = char buff index :=
  Prog.interpret_lift _

theorem interpret_parsePesReads (ind : ℕ) (packetPos : ℤ) :
    (parsePesReads ind packetPos).interpret (readChar buff) = parsePes buff ind packetPos := by
  unfold parsePesReads parsePes
  simp only [Prog.interpret_bind, Prog.interpret_ite, Prog.interpret_pure, interpret_pes,
    pure_eq_ok]

theorem interpret_parsePacketReads (j ind : ℕ) :
    (parsePacketReads j ind).interpret (readChar buff) = parsePacket buff j ind := by
  unfold parsePacketReads parsePacket
  simp only [Prog.interpret_bind, Prog.interpret_ite, Prog.interpret_pure, interpret_header,
    interpret_parsePesReads, pure_eq_ok]

theorem interpret_parsePacketsReads (j count ind : ℕ) :
    (parsePacketsReads j count ind).interpret (readChar buff) =
      parsePackets buff j count ind := by
  induction count generalizing ind with
  | zero => rfl
  | succ count ih =>
      rw [parsePacketsReads, parsePackets]
      simp only [Prog.interpret_bind, Prog.interpret_pure, interpret_parsePacketReads, ih,
        pure_eq_ok]

/-- **Run on a buffer, it is the parser**: the program with its reads as calls has the output of
`tsPesParser`, and its faults. -/
theorem interpret_tsPesReads (offset : ℤ) (size : ℕ) :
    (tsPesReads offset size).interpret (readChar buff) = tsPesParser offset buff size := by
  unfold tsPesReads tsPesParser
  simp only [Prog.interpret_bind, Prog.interpret_pure, interpret_parsePacketsReads, pure_eq_ok]

end Same

/-! ### Inside the buffer -/

/-- A read inside the buffer: neither in front of it nor behind its last byte. -/
def InBuffer (buff : List Byte) (c : Read) : Prop := 0 ≤ c.index ∧ c.index < buff.length

/-- A PES byte of the packet of its pass.  Reads of the header are not asked where they are. -/
def InPacket : Read → Prop
  | .header _ => True
  | .pes ind index => (ind : ℤ) ≤ index ∧ index < ind + 188

section Inside

variable {buff : List Byte} {n : ℕ}

theorem inBuffer_iff {c : Read} : InBuffer buff c ↔ ∃ r, readChar buff c = .ok r := by
  unfold InBuffer readChar char
  by_cases hneg : 0 ≤ c.index
  · rw [if_pos hneg, and_iff_right hneg]
    by_cases hlt : c.index.toNat < buff.length
    · rw [List.getElem?_eq_getElem hlt]
      exact iff_of_true (by omega) ⟨_, rfl⟩
    · rw [List.getElem?_eq_none (by omega)]
      refine iff_of_false (by omega) ?_
      rintro ⟨r, hr⟩
      cases hr
  · rw [if_neg hneg]
    refine iff_of_false (fun h => hneg h.1) ?_
    rintro ⟨r, hr⟩
    cases hr

/-- The parser reads inside the buffer as long as it does not fail, since a read outside is the only
fault there is. -/
theorem allCalls_inBuffer_iff (offset : ℤ) (size : ℕ) :
    AllCalls (readChar buff) (InBuffer buff) (tsPesReads offset size) ↔
      ∃ out, tsPesParser offset buff size = .ok out := by
  have hanswered : InBuffer buff = fun c => ∃ r, readChar buff c = .ok r :=
    funext fun c => propext inBuffer_iff
  rw [hanswered, allCalls_answered_iff, interpret_tsPesReads]

/-- A pass does not fail unless it leads in front of the buffer. -/
theorem parsePacket_ok (hlen : 188 ≤ buff.length) (hover : ¬ Overruns (packet buff 0))
    (ind : ℕ) : ∃ out, parsePacket buff 0 ind = .ok out := by
  by_cases hacc : Accepted (packet buff 0)
  · exact ⟨_, parsePacket_accepted hlen hacc⟩
  · obtain ⟨out, hout, -⟩ := parsePacket_silent hlen hover hacc ind
    exact ⟨out, hout⟩

theorem parsePackets_ok (hlen : 188 ≤ buff.length) (hover : ¬ Overruns (packet buff 0))
    (count ind : ℕ) : ∃ out, parsePackets buff 0 count ind = .ok out := by
  induction count generalizing ind with
  | zero => exact ⟨[], rfl⟩
  | succ count ih =>
      obtain ⟨out, hout⟩ := parsePacket_ok hlen hover ind
      obtain ⟨rest, hrest⟩ := ih (ind + 188)
      exact ⟨out ++ rest, by rw [parsePackets, hout, ok_bind, hrest, ok_bind, pure_eq_ok]⟩

/-- **Every read is inside the buffer** unless the first packet leads in front of it. -/
theorem tsPesReads_inBuffer_iff (offset : ℤ) (hsize : buff.length = 188 * n) :
    AllCalls (readChar buff) (InBuffer buff) (tsPesReads offset buff.length) ↔
      n = 0 ∨ ¬ Overruns (packet buff 0) := by
  rw [allCalls_inBuffer_iff, tsPesParser_eq offset hsize]
  rcases Nat.eq_zero_or_pos n with rfl | hpos
  · exact iff_of_true ⟨_, rfl⟩ (.inl rfl)
  rw [or_iff_right (by omega)]
  constructor
  · rintro ⟨out, hout⟩ hover
    obtain ⟨i, hi⟩ := parsePackets_overruns (by omega) hover hpos 0
    rw [hi] at hout
    cases hout
  · intro hover
    obtain ⟨out, hout⟩ := parsePackets_ok (by omega) hover n 0
    exact ⟨_, by rw [hout]; rfl⟩

/-! ### Inside the packet -/

/-- The PES bytes that are read are among the 14 from `packet_pos` on, whatever the reads deliver.
-/
theorem calls_parsePesReads (ind : ℕ) (pos : ℤ) :
    (parsePesReads ind pos).Calls fun c => ∃ i, c = .pes ind i ∧ pos ≤ i ∧ i ≤ pos + 13 := by
  have hread (i : ℤ) (k : BitVec 32 → Reader (List Line)) (hi : pos ≤ i ∧ i ≤ pos + 13)
      (hk : ∀ r, (k r).Calls fun c => ∃ i, c = .pes ind i ∧ pos ≤ i ∧ i ≤ pos + 13) :
      (pes ind i >>= k).Calls fun c => ∃ i, c = .pes ind i ∧ pos ≤ i ∧ i ≤ pos + 13 :=
    ⟨⟨i, rfl, hi⟩, hk⟩
  unfold parsePesReads
  refine hread _ _ (by omega) fun _ => Prog.Calls.ite (fun _ => trivial) fun _ => ?_
  refine hread _ _ (by omega) fun _ => Prog.Calls.ite (fun _ => trivial) fun _ => ?_
  refine hread _ _ (by omega) fun _ => Prog.Calls.ite (fun _ => trivial) fun _ => ?_
  refine hread _ _ (by omega) fun _ => Prog.Calls.ite (fun _ => trivial) fun _ => ?_
  refine hread _ _ (by omega) fun _ => Prog.Calls.ite (fun _ => trivial) fun _ => ?_
  -- the five bytes of the time stamp
  refine hread _ _ (by omega) fun _ => hread _ _ (by omega) fun _ => ?_
  refine hread _ _ (by omega) fun _ => hread _ _ (by omega) fun _ => ?_
  exact hread _ _ (by omega) fun _ => trivial

/-- **A pass** inspects PES bytes if it reaches them, behind the length of the adaptation
field. -/
theorem parsePacketReads_inPacket_iff (hlen : 188 ≤ buff.length) (ind : ℕ) :
    AllCalls (readChar buff) InPacket (parsePacketReads 0 ind) ↔
      (Reached (packet buff 0) → AllCalls (readChar buff) InPacket
        (parsePesReads ind (5 + (packet buff 0 4).toInt))) := by
  have h0 : readChar buff (.header (0 : ℕ)) = .ok _ := char_at rfl (by omega)
  have h1 : readChar buff (.header ((0 : ℕ) + 1)) = .ok _ := char_at (n := 1) rfl (by omega)
  have h2 : readChar buff (.header ((0 : ℕ) + 2)) = .ok _ := char_at (n := 2) rfl (by omega)
  have h3 : readChar buff (.header ((0 : ℕ) + 3)) = .ok _ := char_at (n := 3) rfl (by omega)
  have h4 : readChar buff (.header ((0 : ℕ) + 4)) = .ok _ := char_at (n := 4) rfl (by omega)
  have hheader (i : ℤ) : InPacket (.header i) ↔ True := Iff.rfl
  have hpure (out : List Line) : AllCalls (readChar buff) InPacket (pure out : Reader _) ↔ True :=
    Iff.rfl
  have hsync : ∀ b : Byte, b.signExtend 32 = 0x47 ↔ b = 0x47 := fun b => signExtend_inj b 0x47
  have hbit : intOfBool ((0x10 : BitVec 32) == 0x10) = 1 := rfl
  have hbit' : intOfBool ((0x30 : BitVec 32) == 0x30) = 1 := rfl
  have hint : ((packet buff 0 4).signExtend 32).toInt = (packet buff 0 4).toInt :=
    BitVec.toInt_signExtend_of_le (by decide)
  have hpos : 4 + (1 + (packet buff 0 4).toInt) = 5 + (packet buff 0 4).toInt := by omega
  have hsmall : ¬ 188 ≤ 5 + (packet buff 0 4).toInt := by
    rw [toInt_char]
    split_ifs <;> omega
  unfold parsePacketReads header Reached
  simp only [allCalls_lift_bind h0, allCalls_lift_bind h1, allCalls_lift_bind h2,
    allCalls_lift_bind h3, allCalls_lift_bind h4, allCalls_ite, hheader, hpure, true_and,
    hbit, hbit', ne_eq, hsync, signExtend_and_one, signExtend_pid, ← pid_eq, hint, hpos, hsmall]
  constructor
  · rintro h ⟨hzero, hpid, hstart⟩
    have hread := ((h.2 (not_not.mpr hzero)).2 (not_not.mpr hpid)).2 hstart
    exact (hread.1 hstart).2 not_false
  · intro h
    refine ⟨fun _ => trivial, fun hzero => ⟨fun _ => trivial, fun hpid => ⟨fun _ => trivial, ?_⟩⟩⟩
    intro hstart
    -- the bit that is tested once more says the same
    refine ⟨fun _ => ⟨False.elim, fun _ => ?_⟩, fun hno => absurd hstart hno⟩
    exact h ⟨not_not.mp hzero, not_not.mp hpid, hstart⟩

/-- The length of the adaptation field leads to a place in the first packet, unless it leads
in front of it. -/
theorem pesPos_bounds (hreached : Reached (packet buff 0)) (hover : ¬ Overruns (packet buff 0)) :
    0 ≤ 5 + (packet buff 0 4).toInt ∧ 5 + (packet buff 0 4).toInt + 13 < 188 := by
  have htop := (packet buff 0 4).isLt
  rw [toInt_char]
  split_ifs with hlt
  · omega
  · have hge : 0xFB ≤ (packet buff 0 4).toNat := by
      by_contra hno
      exact hover ⟨hreached, by omega, by omega⟩
    omega

/-- A pass for the first packet stays inside it, unless that leads in front of the buffer. -/
theorem parsePacketReads_first (hlen : 188 ≤ buff.length) (hover : ¬ Overruns (packet buff 0)) :
    AllCalls (readChar buff) InPacket (parsePacketReads 0 0) := by
  rw [parsePacketReads_inPacket_iff hlen]
  intro hreached
  obtain ⟨hlow, hhigh⟩ := pesPos_bounds hreached hover
  refine allCalls_of_calls (Prog.Calls.mono ?_ (calls_parsePesReads _ _))
  rintro c ⟨i, rfl, hge, hle⟩
  exact ⟨by omega, by omega⟩

/-- A pass for another packet leaves it with the first PES byte it inspects. -/
theorem parsePacketReads_later (hlen : 188 ≤ buff.length) (hover : ¬ Overruns (packet buff 0))
    {ind : ℕ} (hind : 188 ≤ ind) :
    AllCalls (readChar buff) InPacket (parsePacketReads 0 ind) ↔ ¬ Reached (packet buff 0) := by
  rw [parsePacketReads_inPacket_iff hlen]
  constructor
  · intro h hreached
    obtain ⟨hlow, hhigh⟩ := pesPos_bounds hreached hover
    obtain ⟨⟨hge, -⟩, -⟩ := h hreached
    omega
  · intro hreached h
    exact absurd h hreached

/-- The passes stay inside their packets if each of them does, as none of them fails. -/
theorem parsePacketsReads_inPacket_iff (hlen : 188 ≤ buff.length)
    (hover : ¬ Overruns (packet buff 0)) (count ind : ℕ) :
    AllCalls (readChar buff) InPacket (parsePacketsReads 0 count ind) ↔
      ∀ k < count, AllCalls (readChar buff) InPacket (parsePacketReads 0 (ind + 188 * k)) := by
  induction count generalizing ind with
  | zero => exact iff_of_true trivial nofun
  | succ count ih =>
      obtain ⟨out, hout⟩ := parsePacket_ok hlen hover ind
      obtain ⟨rest, hrest⟩ := parsePackets_ok hlen hover count (ind + 188)
      rw [parsePacketsReads, allCalls_bind ((interpret_parsePacketReads 0 ind).trans hout),
        allCalls_bind ((interpret_parsePacketsReads 0 count _).trans hrest), ih]
      constructor
      · rintro ⟨hfirst, hrest, -⟩ k hk
        cases k with
        | zero => exact hfirst
        | succ k =>
            have hnext : ind + 188 * (k + 1) = ind + 188 + 188 * k := by ring
            rw [hnext]
            exact hrest k (by omega)
      · intro hall
        refine ⟨hall 0 (by omega), fun k hk => ?_, trivial⟩
        have hnext : ind + 188 + 188 * k = ind + 188 * (k + 1) := by ring
        rw [hnext]
        exact hall (k + 1) (by omega)

/-- **The PES bytes are those of the packet** if none are inspected, or there is only one
packet. -/
theorem tsPesReads_inPacket_iff (offset : ℤ) (hsize : buff.length = 188 * n) (hpos : 0 < n)
    (hover : ¬ Overruns (packet buff 0)) :
    AllCalls (readChar buff) InPacket (tsPesReads offset buff.length) ↔
      ¬ Reached (packet buff 0) ∨ n = 1 := by
  have hlen : 188 ≤ buff.length := by omega
  have hcount : (buff.length + 187) / 188 = n := by omega
  obtain ⟨out, hout⟩ := parsePackets_ok hlen hover n 0
  rw [tsPesReads, hcount, allCalls_bind ((interpret_parsePacketsReads 0 n 0).trans hout),
    parsePacketsReads_inPacket_iff hlen hover]
  constructor
  · rintro ⟨hall, -⟩
    by_contra hno
    obtain ⟨hreached, hne⟩ := not_or.mp hno
    exact (parsePacketReads_later hlen hover (by omega)).mp (hall 1 (by omega))
      (not_not.mp hreached)
  · intro h
    refine ⟨fun k hk => ?_, trivial⟩
    rcases Nat.eq_zero_or_pos k with rfl | hk'
    · exact parsePacketReads_first hlen hover
    · exact (parsePacketReads_later hlen hover (by omega)).mpr (h.resolve_right (by omega))

end Inside

/-- The parser reads inside its buffer, and the PES bytes it inspects or prints in a pass lie
in the packet of the pass. -/
def ReadsInside (offset : ℤ) (buff : List Byte) : Prop :=
  AllCalls (readChar buff) (fun c => InBuffer buff c ∧ InPacket c) (tsPesReads offset buff.length)

/-- **Where the parser reads**, for every buffer of whole packets.  It stays inside the buffer
exactly if there is none or the first packet does not lead in front of it; and inside the
packets exactly if it inspects no PES bytes either, or those of a single packet. -/
theorem reads_inside_iff {buff : List Byte} {n : ℕ} (offset : ℤ)
    (hsize : buff.length = 188 * n) :
    (AllCalls (readChar buff) (InBuffer buff) (tsPesReads offset buff.length) ↔
      n = 0 ∨ ¬ Overruns (packet buff 0)) ∧
    (ReadsInside offset buff ↔
      n = 0 ∨ ¬ Reached (packet buff 0) ∨ (n = 1 ∧ ¬ Overruns (packet buff 0))) := by
  have hbuffer := tsPesReads_inBuffer_iff offset hsize
  refine ⟨hbuffer, ?_⟩
  rw [ReadsInside, allCalls_and, hbuffer]
  rcases Nat.eq_zero_or_pos n with rfl | hpos
  · rw [hsize]
    exact iff_of_true ⟨.inl rfl, trivial⟩ (.inl rfl)
  have hne : ¬ n = 0 := by omega
  rw [or_iff_right hne, or_iff_right hne]
  by_cases hover : Overruns (packet buff 0)
  · refine iff_of_false (fun h => h.1 hover) ?_
    rintro (hreached | ⟨-, hno⟩)
    · exact hreached hover.1
    · exact hno hover
  · rw [tsPesReads_inPacket_iff offset hsize hpos hover, and_iff_right hover, and_iff_left hover]

/-- The single packet whose time stamp is recognised is also read inside. -/
theorem reads_inside_acceptedPacket :
    acceptedPacket.length = 188 * 1 ∧ ReadsInside 0 acceptedPacket := by
  have hsize : acceptedPacket.length = 188 * 1 := by rfl
  have hover : ¬ Overruns (packet acceptedPacket 0) := fun h => absurd h.2.1 (by decide)
  have hinside := (reads_inside_iff (n := 1) 0 hsize).2
  refine ⟨hsize, ?_⟩
  rw [hinside]
  exact .inr (.inr ⟨rfl, hover⟩)

/-- A packet whose adaptation field has the length 128, which is -128 as a `char`. -/
def longFieldPacket : List Byte :=
  [0x47, 0x00, 0x6F, 0x31, 0x80] ++ List.replicate 183 0xFF

/-- **The parser reads in front of the buffer** for that packet; and for two packets whose
first has PES bytes it inspects those a second time, for the other packet. -/
theorem longFieldPacket_leads_in_front :
    longFieldPacket.length = 188 ∧ ¬ ReadsInside 0 longFieldPacket ∧
      ¬ ReadsInside 0 (acceptedPacket ++ acceptedPacket) := by
  have hsize : longFieldPacket.length = 188 * 1 := by rfl
  have haccepted : acceptedPacket.length = 188 := by rfl
  have hsize' : (acceptedPacket ++ acceptedPacket).length = 188 * 2 := by
    rw [List.length_append, haccepted]
  have hover : Overruns (packet longFieldPacket 0) :=
    ⟨by decide +kernel, by decide +kernel, by decide +kernel⟩
  have hlength : (packet (acceptedPacket ++ acceptedPacket) 0 4).toNat < 0x80 := by decide +kernel
  have hover' : ¬ Overruns (packet (acceptedPacket ++ acceptedPacket) 0) :=
    fun h => absurd h.2.1 (Nat.not_le.mpr hlength)
  have hreached : Reached (packet (acceptedPacket ++ acceptedPacket) 0) := by decide +kernel
  refine ⟨hsize, ?_, ?_⟩
  · rw [ReadsInside, allCalls_and, tsPesReads_inBuffer_iff 0 hsize]
    apply not_and_of_not_left
    exact fun h => h.elim (by decide) fun hno => hno hover
  · rw [ReadsInside, allCalls_and, tsPesReads_inPacket_iff 0 hsize' (by decide) hover']
    apply not_and_of_not_right
    exact fun h => h.elim (fun hno => hno hreached) (by decide)

end LeipoCode.Mpeg2
