import LeipoCode.Lib.ShellInt
import Mathlib.Algebra.BigOperators.Group.List.Basic

/-!
# `script/calc_diff.sh`

The script reads a file of numbers and writes the difference of each line to the one before
it.  `prevline` is the line before, and zero means that there is none: a line that is zero
makes the one after it go missing (`printed`).  The shell is bash, so the numerals are read
as `LeipoCode.Lib.ShellInt` has it, and a difference wraps around.

The file is any list of numbers of 64 bits, one at least, each on its line.  `differences` is what
the script should write for it, and the condition under which it does is on the numbers alone: no
zero but perhaps in the last line, which nothing comes after, and no difference that has to wrap
around.

### How it goes

The loop of the script keeps two numerals and a file.  On numerals that bash writes, or that it
would write, the test and the two expressions read the number that was written
(`LeipoCode.Lib.ShellInt`), so the loop comes to a recursion on numbers (`lines_foldl_body`,
`printed`).  What it prints is compared with the differences as lists: there are never more lines
than differences, so one that is missing cannot be made up for, and a line that is there is right
just if the difference did not wrap around (`printed_eq_differences_iff`).

What the script is used for is a part of the result: the lines then add up to the last number less
the first (`sum_differences`).
-/

namespace LeipoCode.Script

open Printf ShellInt

/-! ### The script -/

/-- The lines `read` delivers of a text: those that end in a newline.  `line` is what has
been read of the present one, last character first. -/
def readLines (line : List Char) : List Char → List (List Char)
  | [] => []
  | c :: cs => if c = '\n' then line.reverse :: readLines [] cs else readLines (c :: line) cs

/-- The variables of the script, and the lines of `$OUTFILE` if it exists. -/
structure DiffState where
  prevline : List Char
  linediff : List Char
  outfile : Option (List (List Char))

namespace DiffState

/-- `let "linediff= $inputline - $prevline"`: if the expression is in error, the variable keeps what
it had. -/
def letLinediff (s : DiffState) (inputline : List Char) : DiffState :=
  { s with linediff := assign s.linediff (arithSub inputline s.prevline) }

/-- `echo $linediff >> $OUTFILE`: one line more, and a file if there was none. -/
def echoLinediff (s : DiffState) : DiffState :=
  { s with outfile := some (s.outfile.getD [] ++ [s.linediff]) }

/-- `let "prevline=$inputline"`: the line is read as an expression, so it is kept as the number that
it is. -/
def letPrevline (s : DiffState) (inputline : List Char) : DiffState :=
  { s with prevline := assign s.prevline (arithOperand inputline) }

/-- The body of the loop: a difference is written if there is a line before, and this line becomes
that. -/
def body (s : DiffState) (inputline : List Char) : DiffState :=
  let s := if testNe s.prevline ['0'] then (s.letLinediff inputline).echoLinediff else s
  s.letPrevline inputline

/-- The lines of `$OUTFILE`; a file that does not exist has none, as an empty one. -/
def lines (s : DiffState) : List (List Char) := s.outfile.getD []

end DiffState

/-- `calc_diff.sh`; `rm` leaves no `$OUTFILE`, and the first `echo` makes one. -/
def calcDiff (infile : List Char) : DiffState :=
  (readLines [] infile).foldl DiffState.body ⟨['0'], ['0'], none⟩

/-! ### Reading -/

/-- A text of lines, each with its newline, which is what the script's input and its output are. -/
def unlines (ls : List (List Char)) : List Char := (ls.map (· ++ ['\n'])).flatten

/-- The lines of a text are read as they are, if none has a newline in it. -/
theorem readLines_unlines {ls : List (List Char)} (h : ∀ l ∈ ls, '\n' ∉ l) :
    readLines [] (unlines ls) = ls := by
  have hline (l line rest : List Char) (hl : '\n' ∉ l) :
      readLines line (l ++ '\n' :: rest) = (line.reverse ++ l) :: readLines [] rest := by
    induction l generalizing line with
    | nil => simp [readLines]
    | cons c l ih =>
        obtain ⟨hc, hl⟩ := List.ne_and_not_mem_of_not_mem_cons hl
        rw [List.cons_append, readLines, if_neg (Ne.symm hc), ih (c :: line) hl]
        simp
  induction ls with
  | nil => rfl
  | cons l ls ih =>
      obtain ⟨hl, hls⟩ := List.forall_mem_cons.mp h
      have hcons : unlines (l :: ls) = l ++ '\n' :: unlines ls := by simp [unlines]
      rw [hcons, hline l [] _ hl, ih hls]
      rfl

/-! ### What is printed -/

/-- What the script prints for the rest of the numbers when `prev` was the one before. -/
def printed (prev : ℤ) : List ℤ → List ℤ
  | [] => []
  | x :: xs => (if prev ≠ 0 then [toIntmax (x - prev)] else []) ++ printed x xs

/-- **The loop**, for any numbers in the range: from a line before that is `prev`, it adds the lines
of `printed`. -/
theorem lines_foldl_body {s : DiffState} {prev : ℤ} (hs : s.prevline = dec prev)
    (hprev : IsIntmax prev) {xs : List ℤ} (hxs : ∀ x ∈ xs, IsIntmax x) :
    ((xs.map dec).foldl DiffState.body s).lines = s.lines ++ (printed prev xs).map dec := by
  induction xs generalizing s prev with
  | nil => simp [printed]
  | cons x xs ih =>
      obtain ⟨hx, hxs⟩ := List.forall_mem_cons.mp hxs
      have hzero : testNe s.prevline ['0'] = decide (prev ≠ 0) := by
        rw [hs]
        exact testNe_dec hprev (by decide : IsIntmax 0)
      have hnext : (s.body (dec x)).prevline = dec x := by
        simp [DiffState.body, DiffState.letPrevline, arithOperand_dec hx, assign]
      have hlines : (s.body (dec x)).lines =
          s.lines ++ (if prev ≠ 0 then [toIntmax (x - prev)] else []).map dec := by
        unfold DiffState.body
        rw [hzero]
        by_cases hne : prev = 0
        · simp [hne, DiffState.lines, DiffState.letPrevline]
        · simp [hne, DiffState.lines, DiffState.letPrevline, DiffState.echoLinediff,
            DiffState.letLinediff, hs, arithSub_dec hx hprev, assign]
      rw [List.map_cons, List.foldl_cons, ih hnext hx hxs, hlines, printed, List.map_append,
        List.append_assoc]

/-! ### The differences -/

/-- The differences of successive numbers, each less the one before it: one fewer than there are
numbers. -/
def differences : List ℤ → List ℤ
  | x :: y :: xs => (y - x) :: differences (y :: xs)
  | _ => []

section Differences

variable {x : ℤ} {xs : List ℤ}

theorem length_differences (x : ℤ) (xs : List ℤ) :
    (differences (x :: xs)).length = xs.length := by
  induction xs generalizing x with
  | nil => rfl
  | cons y xs ih => rw [differences, List.length_cons, ih, List.length_cons]

/-- The differences add up to the last number less the first, as each number between is added once
and taken away once. -/
theorem sum_differences (x : ℤ) (xs : List ℤ) :
    (differences (x :: xs)).sum = (x :: xs).getLast (List.cons_ne_nil x xs) - x := by
  induction xs generalizing x with
  | nil => simp [differences]
  | cons y xs ih =>
      rw [differences, List.sum_cons, ih, List.getLast_cons (List.cons_ne_nil y xs)]
      omega

/-- There are never more lines than differences, so a missing one is not made up for. -/
theorem length_printed_le (prev : ℤ) (xs : List ℤ) : (printed prev xs).length ≤ xs.length := by
  induction xs generalizing prev with
  | nil => exact le_rfl
  | cons x xs ih =>
      have hle := ih x
      rw [printed, List.length_append, List.length_cons]
      split_ifs <;> simp <;> omega

/-- **The differences are printed** if none is taken from zero and all are in the range. -/
theorem printed_eq_differences_iff (x : ℤ) (xs : List ℤ) :
    printed x xs = differences (x :: xs) ↔
      (∀ y ∈ (x :: xs).dropLast, y ≠ 0) ∧ ∀ d ∈ differences (x :: xs), IsIntmax d := by
  induction xs generalizing x with
  | nil => simp [printed, differences]
  | cons y xs ih =>
      rw [printed, differences, List.dropLast_cons_cons, List.forall_mem_cons,
        List.forall_mem_cons]
      by_cases hx : x = 0
      · -- the line after the zero is missing, and nothing makes up for it
        have hle := length_printed_le y xs
        have hlen := length_differences y xs
        refine iff_of_false (fun h => ?_) fun h => h.1.1 hx
        have hcount := congrArg List.length h
        simp only [hx, ne_eq, not_true_eq_false, if_false, List.nil_append, List.length_cons]
          at hcount
        omega
      · rw [if_pos hx, List.singleton_append, List.cons.injEq, ih, toIntmax_eq_iff]
        constructor
        · rintro ⟨hfits, hne, hall⟩
          exact ⟨⟨hx, hne⟩, hfits, hall⟩
        · rintro ⟨⟨-, hne⟩, hfits, hall⟩
          exact ⟨hfits, hne, hall⟩

end Differences

/-! ### The file -/

/-- For a file of these numbers the script writes each difference on a line of its own, one
line less than it read, and the lines add up to the last number less the first. -/
structure WritesDifferences (x : ℤ) (xs : List ℤ) (lines : List (List Char)) : Prop where
  count : lines.length = xs.length
  values : lines = (differences (x :: xs)).map dec
  sum : (differences (x :: xs)).sum = (x :: xs).getLast (List.cons_ne_nil x xs) - x

/-- What the script writes for a file of numbers: the first is only kept, and `printed` is what it
writes for the others. -/
theorem lines_calcDiff {x : ℤ} {xs : List ℤ} (h : ∀ y ∈ x :: xs, IsIntmax y) :
    (calcDiff (unlines ((x :: xs).map dec))).lines = (printed x xs).map dec := by
  have hnewline : ∀ l ∈ (x :: xs).map dec, '\n' ∉ l := by
    intro l hl
    obtain ⟨y, -, rfl⟩ := List.mem_map.mp hl
    exact notMem_dec (by decide)
  have hzero : dec 0 = ['0'] := by decide
  rw [calcDiff, readLines_unlines hnewline]
  exact lines_foldl_body hzero.symm (by decide : IsIntmax 0) h

/-- **`calc_diff.sh`** writes every successive difference of the numbers exactly if no number but
the last is zero and every difference is within 64 bits.  `h` says that the shell has the numbers
themselves: a numeral out of its range is not one of the file's kind. -/
theorem calc_diff_iff (x : ℤ) (xs : List ℤ) (h : ∀ y ∈ x :: xs, IsIntmax y) :
    WritesDifferences x xs (calcDiff (unlines ((x :: xs).map dec))).lines ↔
      (∀ y ∈ (x :: xs).dropLast, y ≠ 0) ∧ ∀ d ∈ differences (x :: xs), IsIntmax d := by
  have hdec : Function.Injective dec := fun _ _ => dec_inj
  rw [lines_calcDiff h, ← printed_eq_differences_iff]
  constructor
  · intro hwrites
    exact List.map_injective_iff.mpr hdec hwrites.values
  · intro heq
    rw [heq]
    exact ⟨by rw [List.length_map, length_differences], rfl, sum_differences x xs⟩

/-- A file without zeros: its two differences are written. -/
theorem calc_diff_three_lines :
    WritesDifferences 5 [8, -2] (calcDiff (unlines ([5, 8, -2].map dec))).lines :=
  (calc_diff_iff 5 [8, -2] (by decide)).mpr (by decide)

/-- After the line 0 the difference to it is missing: three lines read, one written. -/
theorem zero_line_loses_difference :
    (calcDiff (unlines ([3, 0, 7].map dec))).lines = [dec (-3)] ∧
      ¬ WritesDifferences 3 [0, 7] (calcDiff (unlines ([3, 0, 7].map dec))).lines := by
  have hlines : (calcDiff (unlines ([3, 0, 7].map dec))).lines = [dec (-3)] :=
    lines_calcDiff (by decide : ∀ y ∈ [(3 : ℤ), 0, 7], IsIntmax y)
  refine ⟨hlines, fun h => ?_⟩
  have hcount := h.count
  rw [hlines] at hcount
  exact absurd hcount (by decide)

end LeipoCode.Script
