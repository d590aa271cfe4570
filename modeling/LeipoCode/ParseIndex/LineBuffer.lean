import LeipoCode.Lib.CString
import LeipoCode.ParseIndex.InfoDump

/-!
# The buffer of the lines

Every line of the stream information is put into `str`.  The arrays of the names are one
byte longer than `str`, and a line has a label of 13 characters and a newline besides: the
dump stays within its bounds only for names of at most 240 bytes, while the type of a name
allows 255, or 256 without a terminator.  The numbers of a record never matter.
-/

namespace LeipoCode.ParseIndex

/-- Every line is formatted from the bytes of its field, and fits into `str` with its
terminator. -/
def LinesFit (info : StreamInfo) : Prop :=
  ∀ l ∈ infoLines info, ∃ s, l = .ok s ∧ s.length < STR_SIZE

/-- Both names are terminated within their first 241 bytes, so that each has 240 letters at most. -/
structure StreamInfo.NamesShort (info : StreamInfo) : Prop where
  channelName : (0 : Byte) ∈ info.channelName.toList.take 241
  description : (0 : Byte) ∈ info.description.toList.take 241

theorem Name.short_iff (name : Name) :
    (0 : Byte) ∈ name.toList.take 241 ↔ (0 : Byte) ∈ name.toList ∧ name.string.length ≤ 240 := by
  rw [CString.nul_mem_take_iff, Nat.lt_succ_iff]
  rfl

/-- The dump runs to its end exactly if every line fits, for any record, with names that are plain
or not. -/
theorem dumpInfo_ok_iff_linesFit (info : StreamInfo) :
    (∃ t, dumpInfo info = .ok t) ↔ LinesFit info :=
  writeLines_ok_iff

/-- **The lines fit**, whatever the record, exactly if both names are terminated within their first
241 bytes.  No other line is ever too long: every other value is a number, and its label leaves room
for the longest there is. -/
theorem info_lines_fit_iff (info : StreamInfo) : LinesFit info ↔ info.NamesShort := by
  rw [LinesFit, forall_infoLines_fit_iff, ← Name.short_iff, ← Name.short_iff]
  constructor
  · rintro ⟨hchannelName, hdescription⟩
    exact ⟨hchannelName, hdescription⟩
  · intro h
    exact ⟨h.channelName, h.description⟩

/-! ### Long names -/

/-- A name of letters only, up to the end of its array: it has no terminator. -/
def fullName : Name := Vector.replicate _ 65

/-- A terminated name of 241 letters, which its array has room for and `str` has not. -/
def longName : Name := fullName.set 241 0

/-- A record with the given name for its channel, and otherwise one that can be printed. -/
def named (channelName : Name) : StreamInfo := { oneProgram 1 1 with channelName := channelName }

/-- **A name of 241 letters overflows the buffer**, though its field holds up to 255, and a
name without a terminator is read beyond its field. -/
theorem long_name_overflows :
    ((0 : Byte) ∈ longName.toList ∧ ¬ LinesFit (named longName)) ∧
      ((0 : Byte) ∉ fullName.toList ∧ ¬ LinesFit (named fullName)) := by
  have hlong : (0 : Byte) ∈ longName.toList ∧ longName.string.length = 241 := by
    decide +kernel
  have hfull : (0 : Byte) ∉ fullName.toList := by
    decide +kernel
  refine ⟨⟨hlong.1, fun h => ?_⟩, hfull, fun h => ?_⟩
  · obtain ⟨⟨-, hle⟩, -⟩ := forall_infoLines_fit_iff.mp h
    change longName.string.length ≤ 240 at hle
    omega
  · obtain ⟨⟨hterminated, -⟩, -⟩ := forall_infoLines_fit_iff.mp h
    exact hfull hterminated

end LeipoCode.ParseIndex
