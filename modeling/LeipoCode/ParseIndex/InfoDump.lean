import Mathlib.Data.List.OfFn
import LeipoCode.ParseIndex.Model

/-!
# What the dump of the stream information tells

The text is one line after the other, and each line is a label and a value.  A value of
every type the dump prints can be read back from its conversion, so the text tells every
field that is printed; the line labelled `Version` prints the signature a second time, so it
does not tell the version.

* `dumpInfo_ok_iff` — the names are the only values that may be too long for `str`;
* `infoLines_inj` — the lines determine every field but the version;
* `info_dump_tells_iff` — when the text of two records tells them apart.

That a text can be read back needs two things of it: that no line runs into the next one, and that
every conversion is injective.  The names are the only values with characters of their own, and
`NamesPlain` is what is asked of them: a terminator, and no newline.  Whether they are short enough
is not asked of them there, since that is part of the result.

### The two directions

That equal texts come from equal records goes from the text to the lines, from the lines to the
values, and from the values to the fields.  `writeLines_inj` is the first of these steps: every line
is one (`IsLine`), so the text can be cut in one way only.  The second is `line_inj`, for a label
that is the same on both sides, and `pidLine_inj` for the lines with two numbers.  The third is that
`%d` and `%x` are injective on the words they are given, and `%s` on the strings of the names
(`map_percentS_inj`).

For the other direction a record with another version is formatted to the very same lines, as the
version is nowhere in `infoLines`.  So the condition of the result is on the two records alone, and
exact: the names fit, and some field other than the version differs.

`forall_infoLines` is what keeps the 33 lines apart from the argument: a property of all good lines
that holds of the two lines for names holds of all.
-/

namespace LeipoCode.ParseIndex

open Printf

/-! ### Writing -/

section WriteLines

variable {ls : List (Except Fault (List Char))} {ss : List (List Char)} {t : List Char}

/-- Lines that can be formatted and fit are written one after the other. -/
theorem writeLines_map_ok (h : ∀ s ∈ ss, s.length < STR_SIZE) :
    writeLines (ss.map .ok) = .ok ss.flatten := by
  induction ss with
  | nil => rfl
  | cons s ss ih =>
      obtain ⟨hs, hss⟩ := List.forall_mem_cons.mp h
      simp [writeLines, sprintf, hs, ih hss, bind, Except.bind, pure, Except.pure]

/-- Nothing else is written: a text that is written comes from lines that were formatted and fit. -/
theorem writeLines_eq_ok (h : writeLines ls = .ok t) :
    ∃ ss : List (List Char), ls = ss.map .ok ∧ (∀ s ∈ ss, s.length < STR_SIZE) ∧
      t = ss.flatten := by
  induction ls generalizing t with
  | nil =>
      cases h
      exact ⟨[], rfl, nofun, rfl⟩
  | cons l ls ih =>
      cases l with
      | error f => simp [writeLines, bind, Except.bind] at h
      | ok s =>
          by_cases hs : s.length < STR_SIZE
          · cases hrest : writeLines ls with
            | error f => simp [writeLines, sprintf, hs, hrest, bind, Except.bind] at h
            | ok t' =>
                obtain ⟨ss, rfl, hss, rfl⟩ := ih hrest
                simp only [writeLines, sprintf, hs, hrest, bind, Except.bind, if_true, pure,
                  Except.pure, Except.ok.injEq] at h
                exact ⟨s :: ss, rfl, List.forall_mem_cons.mpr ⟨hs, hss⟩, h.symm⟩
          · simp [writeLines, sprintf, hs, bind, Except.bind] at h

/-- A text is written if every line can be formatted and fits, and only then. -/
theorem writeLines_ok_iff :
    (∃ t, writeLines ls = .ok t) ↔ ∀ l ∈ ls, ∃ s, l = .ok s ∧ s.length < STR_SIZE := by
  constructor
  · rintro ⟨t, ht⟩ l hl
    obtain ⟨ss, rfl, hss, -⟩ := writeLines_eq_ok ht
    obtain ⟨s, hs, rfl⟩ := List.mem_map.mp hl
    exact ⟨s, rfl, hss s hs⟩
  · intro h
    choose! f hf using h
    have hls : (ls.map f).map .ok = ls := by
      rw [List.map_map]
      exact (List.map_congr_left fun l hl => (hf l hl).1.symm).trans (List.map_id _)
    refine ⟨(ls.map f).flatten, (congrArg writeLines hls.symm).trans ?_⟩
    apply writeLines_map_ok
    intro s hs
    obtain ⟨l, hl, rfl⟩ := List.mem_map.mp hs
    exact (hf l hl).2

/-- **What is written tells what was formatted**: if the formatted lines are lines, the text can be
cut into them in one way only. -/
theorem writeLines_inj {ls' : List (Except Fault (List Char))} (h : writeLines ls = .ok t)
    (h' : writeLines ls' = .ok t) (hl : ∀ s, .ok s ∈ ls → IsLine s)
    (hl' : ∀ s, .ok s ∈ ls' → IsLine s) : ls = ls' := by
  obtain ⟨ss, rfl, -, rfl⟩ := writeLines_eq_ok h
  obtain ⟨ss', rfl, -, heq⟩ := writeLines_eq_ok h'
  refine congrArg _ (flatten_inj_of_isLine (fun s hs => hl s ?_) (fun s hs => hl' s ?_) heq)
  · exact List.mem_map_of_mem hs
  · exact List.mem_map_of_mem hs

end WriteLines

/-! ### Values -/

/-- A value as the conversions for numbers make them: no newline in it, and no longer than the
longest number. -/
structure Short (s : List Char) : Prop where
  length_le : s.length ≤ 16
  noNewline : '\n' ∉ s

theorem short_hex {w : ℕ} (hw : w ≤ 64) (n : BitVec w) : Short (hex n.toNat) where
  length_le := by
    refine length_hex_le (by decide) (lt_of_lt_of_le n.isLt ?_)
    exact (Nat.pow_le_pow_right (by decide) hw).trans (by decide)
  noNewline := notMem_hex (by decide)

theorem short_dec {n : ℤ} (hn : n.natAbs < 10 ^ 10) : Short (dec n) where
  length_le := (length_dec_le (by decide) hn).trans (by decide)
  noNewline := notMem_dec (by decide)

theorem short_ofNat {n : ℕ} (hn : n < 10 ^ 10) : Short (dec n) :=
  short_dec hn

theorem natAbs_toInt_lt (n : BitVec 32) : n.toInt.natAbs < 10 ^ 10 := by
  have hle := BitVec.toInt_lt (x := n)
  have hge := BitVec.le_toInt n
  omega

theorem short_decInt (n : BitVec 32) : Short (decInt n) :=
  short_dec (natAbs_toInt_lt n)

/-- What a line may begin with: something that is not empty, not long, and has no newline in it. -/
abbrev GoodLabel (label : String) : Prop :=
  label.toList ≠ [] ∧ label.toList.length ≤ 100 ∧ '\n' ∉ label.toList

/-- A line the dump may contain: one that fits into `str`, and that can be read off the text again.
-/
structure GoodLine (l : List Char) : Prop where
  fits : l.length < STR_SIZE
  isLine : IsLine l

theorem isLine_line {label : String} {value : List Char} (hne : label.toList ≠ [])
    (hlabel : '\n' ∉ label.toList) (hvalue : '\n' ∉ value) : IsLine (line label value) :=
  ⟨label.toList ++ value, 0, by simp [hne], by simp [hlabel, hvalue], by simp [line]⟩

theorem goodLine_line {label : String} {value : List Char} (hlabel : GoodLabel label)
    (hvalue : Short value) : GoodLine (line label value) where
  fits := by
    have hlen := hvalue.length_le
    simp only [line, List.length_append, List.length_singleton, STR_SIZE]
    omega
  isLine := isLine_line hlabel.1 hlabel.2.2 hvalue.noNewline

/-! ### Records -/

/-- The names are as the dump can print them on one line: terminated, and without a newline. -/
structure StreamInfo.NamesPlain (info : StreamInfo) : Prop where
  channelName : (0 : Byte) ∈ info.channelName.toList
  description : (0 : Byte) ∈ info.description.toList
  channelName_noNewline : (10 : Byte) ∉ info.channelName.string
  description_noNewline : (10 : Byte) ∉ info.description.string

/-- The lines of the names fit into `str`, with their labels and the newline. -/
structure StreamInfo.NamesFit (info : StreamInfo) : Prop where
  channelName : info.channelName.string.length ≤ 240
  description : info.description.string.length ≤ 240

section Lines

variable {info : StreamInfo}

theorem toNat_char : ∀ b : Byte, (char b).toNat = b.toNat := by
  decide +kernel

theorem char_injective : Function.Injective char := by
  intro b c h
  have hnat := congrArg Char.toNat h
  rw [toNat_char, toNat_char] at hnat
  exact BitVec.eq_of_toNat_eq hnat

theorem noNewline_map_char {bytes : List Byte} (h : (10 : Byte) ∉ bytes) :
    '\n' ∉ bytes.map char := by
  intro hmem
  obtain ⟨b, hb, hchar⟩ := List.mem_map.mp hmem
  have hten : b = 10 := char_injective (hchar.trans (by decide))
  exact h (hten ▸ hb)

theorem length_pidLine (i : ℕ) (data : StreamData) : (pidLine i data).length =
    43 + (dec i).length + (decInt data.type).length + (dec data.pid.toNat).length := by
  unfold pidLine
  generalize dec (i : ℤ) = number, decInt data.type = type, dec (data.pid.toNat : ℤ) = pid
  simp
  omega

theorem goodLine_pidLine (i : Fin STDVM_MAX_PIDS) (data : StreamData) :
    GoodLine (pidLine i data) := by
  have hi : Short (dec (i : ℕ)) := short_ofNat (lt_trans i.isLt (by decide))
  have htype := short_decInt data.type
  have hpid : Short (dec data.pid.toNat) := short_ofNat (lt_trans data.pid.isLt (by decide))
  refine ⟨?_, ?_⟩
  · have hlen₁ := hi.length_le
    have hlen₂ := htype.length_le
    have hlen₃ := hpid.length_le
    rw [length_pidLine, STR_SIZE]
    omega
  · refine ⟨_, 0, ?_, ?_, rfl⟩
    · simp
    · simp only [List.mem_append, not_or]
      exact ⟨⟨⟨⟨⟨by decide, hi.noNewline⟩, by decide⟩, htype.noNewline⟩, by decide⟩,
        hpid.noNewline⟩

/-- The last line has two blank lines behind it, and is a good line with them. -/
theorem goodLine_last {label : String} {value : List Char} (hlabel : GoodLabel label)
    (hvalue : Short value) : GoodLine (line label value ++ ['\n', '\n']) where
  fits := by
    have hlen := hvalue.length_le
    simp only [line, List.length_append, List.length_cons, List.length_nil, STR_SIZE]
    omega
  isLine := ⟨label.toList ++ value, 2, by simp [hlabel.1], by simp [hlabel.2.2, hvalue.noNewline],
    by simp [line, List.replicate]⟩

/-- **A property of the good lines and of the two lines for names** is one of all. -/
theorem forall_infoLines {P : Except Fault (List Char) → Prop} (hgood : ∀ s, GoodLine s → P (.ok s))
    (hchannelName : P (info.channelName.percentS.map (line "ChannelName: ")))
    (hdescription : P (info.description.percentS.map (line "Description: "))) :
    ∀ l ∈ infoLines info, P l := by
  have hhex {w : ℕ} (hw : w ≤ 64) (n : BitVec w) {label : String} (hlabel : GoodLabel label) :
      P (.ok (line label (hex n.toNat))) := hgood _ (goodLine_line hlabel (short_hex hw n))
  have hdec (n : BitVec 32) {label : String} (hlabel : GoodLabel label) :
      P (.ok (line label (decInt n))) := hgood _ (goodLine_line hlabel (short_decInt n))
  have hnbOfPids : Short (dec info.programInfo.nbOfPids.toNat) :=
    short_ofNat (lt_trans info.programInfo.nbOfPids.isLt (by decide))
  refine List.forall_mem_append.mpr ⟨List.forall_mem_append.mpr ⟨?_, ?_⟩, ?_⟩
  · simp only [List.forall_mem_cons]
    refine ⟨hhex (by decide) _ (by decide), hhex (by decide) _ (by decide), hdec _ (by decide),
      hchannelName, hdescription, hdec _ (by decide), hhex (by decide) _ (by decide),
      hdec _ (by decide), hhex (by decide) _ (by decide), hdec _ (by decide),
      hhex (by decide) _ (by decide), hhex (by decide) _ (by decide), hdec _ (by decide),
      hdec _ (by decide), hgood _ (goodLine_line (by decide) hnbOfPids), nofun⟩
  · intro l hl
    obtain ⟨i, rfl⟩ := List.mem_ofFn.mp hl
    exact hgood _ (goodLine_pidLine i _)
  · simp only [List.forall_mem_cons]
    exact ⟨hhex (by decide) _ (by decide),
      hgood _ (goodLine_last (by decide) (short_hex (by decide) _)), nofun⟩

end Lines

/-! ### What the lines tell -/

/-- Two records agree in every field but the version; of the names it is the strings. -/
structure SameButVersion (info info' : StreamInfo) : Prop where
  signature : info.signature = info'.signature
  nbOfFiles : info.nbOfFiles = info'.nbOfFiles
  channelName : info.channelName.string = info'.channelName.string
  description : info.description.string = info'.description.string
  streamFileType : info.streamFileType = info'.streamFileType
  streamStartPos : info.streamStartPos = info'.streamStartPos
  firstIndexPos : info.firstIndexPos = info'.firstIndexPos
  circularPartSize : info.circularPartSize = info'.circularPartSize
  circularPartIndexEntries : info.circularPartIndexEntries = info'.circularPartIndexEntries
  streamStartPosAfterCrop : info.streamStartPosAfterCrop = info'.streamStartPosAfterCrop
  streamEndPosAfterCrop : info.streamEndPosAfterCrop = info'.streamEndPosAfterCrop
  recordDateTime : info.recordDateTime = info'.recordDateTime
  nbOfPrograms : info.nbOfPrograms = info'.nbOfPrograms
  nbOfPids : info.programInfo.nbOfPids = info'.programInfo.nbOfPids
  pids : info.programInfo.pids = info'.programInfo.pids
  progStartPos : info.programInfo.progStartPos = info'.programInfo.progStartPos
  progEndPos : info.programInfo.progEndPos = info'.programInfo.progEndPos

/-- Two records agree in every field; of the names it is the strings, since the arrays may have
anything behind the terminators. -/
structure SameInfo (info info' : StreamInfo) : Prop extends SameButVersion info info' where
  version : info.version = info'.version

section Tells

variable {info info' : StreamInfo} {label : String} {value value' : List Char}

theorem line_inj : line label value = line label value' ↔ value = value' := by
  simp [line]

theorem hex_toNat_inj {w : ℕ} {n m : BitVec w} : hex n.toNat = hex m.toNat ↔ n = m :=
  ⟨fun h => BitVec.eq_of_toNat_eq (hex_inj h), fun h => by rw [h]⟩

theorem dec_toNat_inj {w : ℕ} {n m : BitVec w} : dec n.toNat = dec m.toNat ↔ n = m :=
  ⟨fun h => BitVec.eq_of_toNat_eq (Int.ofNat_inj.mp (dec_inj h)), fun h => by rw [h]⟩

theorem decInt_inj {n m : BitVec 32} : decInt n = decInt m ↔ n = m :=
  ⟨fun h => BitVec.eq_of_toInt_eq (dec_inj h), fun h => by rw [h]⟩

/-- The line of an entry tells its two numbers, which are separated by blanks. -/
theorem pidLine_inj {i : ℕ} {data data' : StreamData} :
    pidLine i data = pidLine i data' ↔ data = data' := by
  refine ⟨fun h => ?_, fun h => by rw [h]⟩
  obtain ⟨type, pid⟩ := data
  obtain ⟨type', pid'⟩ := data'
  have hblank (n : BitVec 32) : ' ' ∉ decInt n := notMem_dec (by decide)
  have hsep : "  Pid: ".toList = ' ' :: " Pid: ".toList := by decide
  unfold pidLine at h
  simp only [hsep, List.append_assoc, List.cons_append, List.append_cancel_left_eq] at h
  obtain ⟨htype, hpid⟩ := append_sep_inj (hblank type) (hblank type') h
  rw [List.append_cancel_left_eq] at hpid
  rw [decInt_inj.mp htype, dec_toNat_inj.mp (List.append_cancel_right hpid)]

/-- A name that is terminated in its array is printed as its string. -/
theorem map_percentS {name : Name} (h : (0 : Byte) ∈ name.toList) :
    name.percentS.map (line label) = .ok (line label (name.string.map char)) := by
  rw [Name.percentS, if_pos h]
  rfl

theorem map_percentS_inj {name name' : Name} (h : (0 : Byte) ∈ name.toList)
    (h' : (0 : Byte) ∈ name'.toList) :
    name.percentS.map (line label) = name'.percentS.map (line label) ↔
      name.string = name'.string := by
  rw [map_percentS h, map_percentS h', Except.ok.injEq, line_inj]
  exact (List.map_injective_iff.mpr char_injective).eq_iff

/-- **The lines determine every field but the version**, and nothing else. -/
theorem infoLines_inj (h : info.NamesPlain) (h' : info'.NamesPlain) :
    infoLines info = infoLines info' ↔ SameButVersion info info' := by
  constructor
  · intro heq
    obtain ⟨hleft, hpositions⟩ := List.append_inj heq (by simp)
    obtain ⟨hheader, hpids⟩ := List.append_inj hleft (by simp)
    simp only [List.cons.injEq, Except.ok.injEq, line_inj, hex_toNat_inj, decInt_inj,
      dec_toNat_inj, map_percentS_inj h.channelName h'.channelName,
      map_percentS_inj h.description h'.description, and_true] at hheader
    simp only [List.cons.injEq, Except.ok.injEq, List.append_cancel_right_eq, line_inj,
      hex_toNat_inj, and_true] at hpositions
    have hentry (i) : info.programInfo.pids i = info'.programInfo.pids i := by
      have hline := congrFun (List.ofFn_injective hpids) i
      exact pidLine_inj.mp (Except.ok.inj hline)
    obtain ⟨hsignature, -, hnbOfFiles, hchannelName, hdescription, hstreamFileType,
      hstreamStartPos, hfirstIndexPos, hcircularPartSize, hcircularPartIndexEntries,
      hstreamStartPosAfterCrop, hstreamEndPosAfterCrop, hrecordDateTime, hnbOfPrograms,
      hnbOfPids⟩ := hheader
    exact ⟨hsignature, hnbOfFiles, hchannelName, hdescription, hstreamFileType,
      hstreamStartPos, hfirstIndexPos, hcircularPartSize, hcircularPartIndexEntries,
      hstreamStartPosAfterCrop, hstreamEndPosAfterCrop, hrecordDateTime, hnbOfPrograms,
      hnbOfPids, funext hentry, hpositions.1, hpositions.2⟩
  · intro hsame
    simp only [infoLines, map_percentS h.channelName, map_percentS h'.channelName,
      map_percentS h.description, map_percentS h'.description, hsame.signature,
      hsame.nbOfFiles, hsame.channelName, hsame.description, hsame.streamFileType,
      hsame.streamStartPos, hsame.firstIndexPos, hsame.circularPartSize,
      hsame.circularPartIndexEntries, hsame.streamStartPosAfterCrop,
      hsame.streamEndPosAfterCrop, hsame.recordDateTime, hsame.nbOfPrograms, hsame.nbOfPids,
      hsame.pids, hsame.progStartPos, hsame.progEndPos]

end Tells

/-! ### What the text tells -/

section Text

variable {info info' : StreamInfo}

/-- The line of a name fits exactly if the name is terminated and has 240 characters at most, behind
a label of 13. -/
theorem nameLine_fits_iff {label : String} (hlabel : label.toList.length = 13) {name : Name} :
    (∃ s, name.percentS.map (line label) = .ok s ∧ s.length < STR_SIZE) ↔
      (0 : Byte) ∈ name.toList ∧ name.string.length ≤ 240 := by
  have hlength : (line label (name.string.map char)).length = 14 + name.string.length := by
    simp only [line, List.length_append, hlabel, List.length_map, List.length_singleton]
    omega
  constructor
  · rintro ⟨s, hs, hfit⟩
    by_cases hterminated : (0 : Byte) ∈ name.toList
    · rw [map_percentS hterminated] at hs
      obtain rfl := Except.ok.inj hs
      rw [hlength, STR_SIZE] at hfit
      exact ⟨hterminated, by omega⟩
    · rw [Name.percentS, if_neg hterminated] at hs
      cases hs
  · rintro ⟨hterminated, hle⟩
    refine ⟨_, map_percentS hterminated, ?_⟩
    rw [hlength, STR_SIZE]
    omega

/-- Of all lines it is only the two for names that may not fit; what is asked of a name is the same
for both. -/
theorem forall_infoLines_fit_iff :
    (∀ l ∈ infoLines info, ∃ s, l = .ok s ∧ s.length < STR_SIZE) ↔
      ((0 : Byte) ∈ info.channelName.toList ∧ info.channelName.string.length ≤ 240) ∧
        (0 : Byte) ∈ info.description.toList ∧ info.description.string.length ≤ 240 := by
  rw [← nameLine_fits_iff (by decide : "ChannelName: ".toList.length = 13),
    ← nameLine_fits_iff (by decide : "Description: ".toList.length = 13)]
  constructor
  · intro hall
    exact ⟨hall _ (by simp [infoLines]), hall _ (by simp [infoLines])⟩
  · rintro ⟨hchannelName, hdescription⟩
    exact forall_infoLines (fun s hs => ⟨s, rfl, hs.fits⟩) hchannelName hdescription

/-- **A record of plain names is dumped** exactly if its names fit, whatever its numbers are. -/
theorem dumpInfo_ok_iff (h : info.NamesPlain) :
    (∃ t, dumpInfo info = .ok t) ↔ info.NamesFit := by
  rw [dumpInfo, writeLines_ok_iff, forall_infoLines_fit_iff, and_iff_right h.channelName,
    and_iff_right h.description]
  constructor
  · rintro ⟨hchannelName, hdescription⟩
    exact ⟨hchannelName, hdescription⟩
  · intro hfit
    exact ⟨hfit.channelName, hfit.description⟩

/-- What is formatted for a record of plain names is lines, so that its text can be cut. -/
theorem isLine_infoLines (h : info.NamesPlain) (s : List Char) (hs : .ok s ∈ infoLines info) :
    IsLine s := by
  refine forall_infoLines (P := fun l => ∀ s, l = .ok s → IsLine s) ?_ ?_ ?_ _ hs s rfl
  · intro s hgood s' heq
    exact Except.ok.inj heq ▸ hgood.isLine
  · rw [map_percentS h.channelName]
    intro s heq
    exact Except.ok.inj heq ▸ isLine_line (by decide) (by decide)
      (noNewline_map_char h.channelName_noNewline)
  · rw [map_percentS h.description]
    intro s heq
    exact Except.ok.inj heq ▸ isLine_line (by decide) (by decide)
      (noNewline_map_char h.description_noNewline)

/-- **The text determines every field but the version**: from equal texts to equal lines, and from
these to the fields. -/
theorem sameButVersion_of_dumpInfo (h : info.NamesPlain) (h' : info'.NamesPlain)
    {t : List Char} (ht : dumpInfo info = .ok t) (ht' : dumpInfo info' = .ok t) :
    SameButVersion info info' :=
  (infoLines_inj h h').mp (writeLines_inj ht ht' (isLine_infoLines h) (isLine_infoLines h'))

/-- Both records are dumped, and the same text is that of one and the same record. -/
structure DumpTells (info info' : StreamInfo) : Prop where
  dumped : ∃ t, dumpInfo info = .ok t
  dumped' : ∃ t, dumpInfo info' = .ok t
  tells : dumpInfo info = dumpInfo info' → SameInfo info info'

/-- **The dump tells two records apart** exactly if their names fit into `str` and the version is
not all they differ in.  The hypotheses say that the names are plain, as those of a recorded stream
are: terminated in their arrays, and of one line. -/
theorem info_dump_tells_iff (h : info.NamesPlain) (h' : info'.NamesPlain) :
    DumpTells info info' ↔
      info.NamesFit ∧ info'.NamesFit ∧
        (SameButVersion info info' → info.version = info'.version) := by
  constructor
  · intro htells
    refine ⟨(dumpInfo_ok_iff h).mp htells.dumped, (dumpInfo_ok_iff h').mp htells.dumped', ?_⟩
    intro hsame
    exact (htells.tells (congrArg writeLines ((infoLines_inj h h').mpr hsame))).version
  · rintro ⟨hfit, hfit', hversion⟩
    obtain ⟨t, ht⟩ := (dumpInfo_ok_iff h).mpr hfit
    refine ⟨⟨t, ht⟩, (dumpInfo_ok_iff h').mpr hfit', ?_⟩
    intro heq
    have hsame := sameButVersion_of_dumpInfo h h' ht (heq ▸ ht)
    exact ⟨hsame, hversion hsame⟩

end Text

/-! ### Records of two versions -/

/-- A name of one letter, with the terminator behind it and in all the rest of the array. -/
def letterName (letter : Byte) : Name := (Vector.replicate _ 0).set 0 letter

/-- A record of one program, whose version and number of files are left open: two of them differ in
these at most. -/
def oneProgram (version nbOfFiles : BitVec 32) : StreamInfo where
  signature := 0x5354
  version := version
  nbOfFiles := nbOfFiles
  channelName := letterName 65
  description := letterName 66
  streamFileType := 0
  streamStartPos := 0
  firstIndexPos := 0
  circularPartSize := 0
  circularPartIndexEntries := 0
  streamStartPosAfterCrop := 0
  streamEndPosAfterCrop := 0
  recordDateTime := 0
  nbOfPrograms := 1
  programInfo := ⟨1, fun _ => ⟨2, 0x100⟩, 0, 188⟩

theorem oneProgram_namesPlain (version nbOfFiles : BitVec 32) :
    (oneProgram version nbOfFiles).NamesPlain where
  channelName := by
    change (0 : Byte) ∈ (letterName 65).toList
    decide +kernel
  description := by
    change (0 : Byte) ∈ (letterName 66).toList
    decide +kernel
  channelName_noNewline := by
    change (10 : Byte) ∉ (letterName 65).string
    decide +kernel
  description_noNewline := by
    change (10 : Byte) ∉ (letterName 66).string
    decide +kernel

theorem oneProgram_namesFit (version nbOfFiles : BitVec 32) :
    (oneProgram version nbOfFiles).NamesFit where
  channelName := by
    change (letterName 65).string.length ≤ 240
    decide +kernel
  description := by
    change (letterName 66).string.length ≤ 240
    decide +kernel

/-- **Two versions of a record have the same text**, which is dumped for both, though their names
are plain. -/
theorem two_versions_same_text :
    ∃ t, dumpInfo (oneProgram 1 1) = .ok t ∧ dumpInfo (oneProgram 2 1) = .ok t ∧
      (oneProgram 1 1).NamesPlain ∧ (oneProgram 2 1).NamesPlain ∧
      (oneProgram 1 1).version ≠ (oneProgram 2 1).version := by
  obtain ⟨t, ht⟩ := (dumpInfo_ok_iff (oneProgram_namesPlain 1 1)).mpr (oneProgram_namesFit 1 1)
  exact ⟨t, ht, ht, oneProgram_namesPlain 1 1, oneProgram_namesPlain 2 1, by decide⟩

/-- Two versions that differ in the number of files too are told apart by that. -/
theorem two_versions_told : DumpTells (oneProgram 1 1) (oneProgram 2 3) :=
  (info_dump_tells_iff (oneProgram_namesPlain 1 1) (oneProgram_namesPlain 2 3)).mpr
    ⟨oneProgram_namesFit 1 1, oneProgram_namesFit 2 3,
      fun hsame => absurd hsame.nbOfFiles (by decide)⟩

end LeipoCode.ParseIndex
