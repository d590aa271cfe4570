import LeipoCode.Lib.Printf
import LeipoCode.Lib.Words

/-!
# The two stop watches

`getElapsedTime` (`example/example_Task.c`) turns both times into microseconds before it
subtracts; `stop_watch` (`example/example_MemcpyTest.c`) subtracts seconds and microseconds
and borrows a second.  Both compute in a `long`, whose width `w` is a parameter; a `long`
wraps around in two's complement.

The integers go into a `long` by a ring homomorphism (`BitVec.ofInt`), so that what
`getElapsedTime` returns is the exact distance put into a `long` (`getElapsedTime_eq_ofInt`):
the products may wrap, and still nothing shows of it if the distance fits.  In `stop_watch`
every intermediate result fits by itself (`Borrowed`).

The two times are any that are normalised, with the microseconds below a million, and in order; the
width of a `long` is any from 32 bits on.  That the distance fits a `long` is the one thing that has
to be asked: the times themselves may be as far from zero as they like, and the products that are
computed on the way may wrap.
-/

namespace LeipoCode.Time

open Printf Words

variable {w : ℕ}

/-- `struct timeval`, of two `long`s with `w` bits each: whole seconds, and what is left in
microseconds. -/
structure Timeval (w : ℕ) where
  tv_sec : BitVec w
  tv_usec : BitVec w
deriving DecidableEq

/-- The `long` of a constant, which wraps around if it does not fit; those of the source do. -/
abbrev long (w : ℕ) (n : ℤ) : BitVec w := BitVec.ofInt w n

/-- `getElapsedTime`: both times in microseconds, and the difference; all of it wraps around. -/
def getElapsedTime (startTime endTime : Timeval w) : BitVec w :=
  (endTime.tv_sec * long w 1000000 + endTime.tv_usec) -
    (startTime.tv_sec * long w 1000000 + startTime.tv_usec)

/-- The second line that `stop_watch` prints: the message, and seconds, milliseconds and
microseconds. -/
def watchLine (msg : List Char) (sec msec usec : ℤ) : List Char :=
  msg ++ ": ".toList ++ dec sec ++ "sec ".toList ++ decZero 3 msec ++ "msec ".toList ++
    decZero 3 usec ++ "usec\n".toList

/-- The difference of the microseconds, and the later time with the second that was
borrowed from it. -/
def borrow (tv tv2 : Timeval w) : BitVec w × Timeval w :=
  let usec := tv2.tv_usec - tv.tv_usec
  if usec.slt 0 then (usec + long w 1000000, { tv2 with tv_sec := tv2.tv_sec - long w 1 })
  else (usec, tv2)

/-- `stop_watch`: what it prints and what it returns, an `unsigned long`.  `tv` is the time
that `start_watch` left in `__tv`, and `tv2` the time of the call. -/
def stopWatch (msg : List Char) (tv tv2 : Timeval w) : List Char × BitVec w :=
  let (usec, tv2) := borrow tv tv2
  ("stop_watch\n".toList ++
      watchLine msg (tv2.tv_sec - tv.tv_sec).toInt (usec.sdiv (long w 1000)).toInt
        (usec.srem (long w 1000)).toInt,
    (tv2.tv_sec - tv.tv_sec) * long w 1000 + usec.sdiv (long w 1000))

/-! ### The time of a timeval -/

namespace Timeval

/-- The time in microseconds, as a number without bounds: no `long` of 32 bits holds that of a date.
-/
def micros (tv : Timeval w) : ℤ := tv.tv_sec.toInt * 1000000 + tv.tv_usec.toInt

/-- The microseconds are less than a second, and not negative, as the clock of the system gives
them. -/
structure Normalised (tv : Timeval w) : Prop where
  nonneg : 0 ≤ tv.tv_usec.toInt
  lt : tv.tv_usec.toInt < 1000000

/-- The time of a timeval, put into a `long`, is what `getElapsedTime` computes of it, whether it
fits or not. -/
theorem ofInt_micros (tv : Timeval w) :
    BitVec.ofInt w tv.micros = tv.tv_sec * long w 1000000 + tv.tv_usec := by
  rw [micros, BitVec.ofInt_add, BitVec.ofInt_mul, BitVec.ofInt_toInt, BitVec.ofInt_toInt]

end Timeval

/-- **The wraps cancel**: for any times at all, the routine returns the distance put into a
`long`. -/
theorem getElapsedTime_eq_ofInt (startTime endTime : Timeval w) :
    getElapsedTime startTime endTime = BitVec.ofInt w (endTime.micros - startTime.micros) := by
  rw [ofInt_sub, Timeval.ofInt_micros, Timeval.ofInt_micros, getElapsedTime]

/-! ### The borrow -/

section Borrow

variable {tv tv2 : Timeval w}

/-- A distance that fits a `long` of 32 bits or more leaves room for a second, and the
constants fit as well. -/
theorem pow_ge (hw : 32 ≤ w) : (2 : ℤ) ^ 31 ≤ 2 ^ (w - 1) :=
  pow_le_pow_right₀ (by decide) (by omega)

/-- A number that fits is what it is in a `long`. -/
theorem toInt_ofInt_of_fits (hw : 32 ≤ w) {n : ℤ} (hlow : -2000000 ≤ n)
    (hfits : n < 2 ^ (w - 1)) : (BitVec.ofInt w n).toInt = n := by
  have hpow := pow_ge hw
  apply BitVec.toInt_ofInt_eq_self
  · omega
  · omega
  · exact hfits

/-- Two seconds fit, in microseconds. -/
theorem toInt_ofInt_of_small (hw : 32 ≤ w) {n : ℤ} (hlow : -2000000 ≤ n) (hhigh : n ≤ 2000000) :
    (BitVec.ofInt w n).toInt = n := by
  have hpow := pow_ge hw
  exact toInt_ofInt_of_fits hw hlow (by omega)

/-- What the borrow leaves for a distance of `d` microseconds: whole seconds and the rest
of a second. -/
structure Borrowed (tv : Timeval w) (d : ℤ) (r : BitVec w × Timeval w) : Prop where
  usec : r.1 = BitVec.ofInt w (d % 1000000)
  sec : r.2.tv_sec - tv.tv_sec = BitVec.ofInt w (d / 1000000)

/-- The borrow is made exactly if the microseconds are fewer than before. -/
theorem slt_zero_iff (hw : 32 ≤ w) (htv : tv.Normalised) (htv2 : tv2.Normalised) :
    (tv2.tv_usec - tv.tv_usec).slt 0 = true ↔ tv2.tv_usec.toInt < tv.tv_usec.toInt := by
  obtain ⟨hnonneg, hlt⟩ := htv
  obtain ⟨hnonneg2, hlt2⟩ := htv2
  have hdiff : (tv2.tv_usec - tv.tv_usec).toInt = tv2.tv_usec.toInt - tv.tv_usec.toInt := by
    rw [← BitVec.ofInt_toInt (x := tv2.tv_usec), ← BitVec.ofInt_toInt (x := tv.tv_usec),
      ← ofInt_sub, BitVec.ofInt_toInt, BitVec.ofInt_toInt,
      toInt_ofInt_of_small hw (by omega) (by omega)]
  rw [BitVec.slt_iff_toInt_lt, hdiff]
  change tv2.tv_usec.toInt - tv.tv_usec.toInt < (0#w).toInt ↔ _
  rw [BitVec.toInt_zero]
  exact sub_neg

/-- **The borrow**, for normalised times. -/
theorem borrow_borrowed (hw : 32 ≤ w) (htv : tv.Normalised) (htv2 : tv2.Normalised) :
    Borrowed tv (tv2.micros - tv.micros) (borrow tv tv2) := by
  have hslt := slt_zero_iff hw htv htv2
  obtain ⟨hnonneg, hlt⟩ := htv
  obtain ⟨hnonneg2, hlt2⟩ := htv2
  unfold borrow Timeval.micros
  dsimp only
  by_cases hborrow : tv2.tv_usec.toInt < tv.tv_usec.toInt
  · rw [if_pos (hslt.mpr hborrow)]
    have hmod : (tv2.tv_sec.toInt * 1000000 + tv2.tv_usec.toInt -
        (tv.tv_sec.toInt * 1000000 + tv.tv_usec.toInt)) % 1000000
          = tv2.tv_usec.toInt - tv.tv_usec.toInt + 1000000 := by omega
    have hdiv : (tv2.tv_sec.toInt * 1000000 + tv2.tv_usec.toInt -
        (tv.tv_sec.toInt * 1000000 + tv.tv_usec.toInt)) / 1000000
          = tv2.tv_sec.toInt - 1 - tv.tv_sec.toInt := by omega
    constructor
    · rw [hmod, BitVec.ofInt_add, ofInt_sub, BitVec.ofInt_toInt, BitVec.ofInt_toInt]
    · rw [hdiv, ofInt_sub, ofInt_sub, BitVec.ofInt_toInt, BitVec.ofInt_toInt]
  · rw [if_neg (mt hslt.mp hborrow)]
    have hmod : (tv2.tv_sec.toInt * 1000000 + tv2.tv_usec.toInt -
        (tv.tv_sec.toInt * 1000000 + tv.tv_usec.toInt)) % 1000000
          = tv2.tv_usec.toInt - tv.tv_usec.toInt := by omega
    have hdiv : (tv2.tv_sec.toInt * 1000000 + tv2.tv_usec.toInt -
        (tv.tv_sec.toInt * 1000000 + tv.tv_usec.toInt)) / 1000000
          = tv2.tv_sec.toInt - tv.tv_sec.toInt := by omega
    constructor
    · rw [hmod, ofInt_sub, BitVec.ofInt_toInt, BitVec.ofInt_toInt]
    · rw [hdiv, ofInt_sub, BitVec.ofInt_toInt, BitVec.ofInt_toInt]

end Borrow

/-! ### What `stop_watch` prints and returns -/

/-- The quotient and the remainder by 1000 of a number below a second. -/
theorem div_mod_thousand (hw : 32 ≤ w) {n : ℤ} (hnonneg : 0 ≤ n) (hlt : n < 1000000) :
    (BitVec.ofInt w n).sdiv (long w 1000) = BitVec.ofInt w (n / 1000) ∧
      ((BitVec.ofInt w n).srem (long w 1000)).toInt = n % 1000 := by
  have hn : (BitVec.ofInt w n).toInt = n := toInt_ofInt_of_small hw (by omega) (by omega)
  have hthousand : (long w 1000).toInt = 1000 :=
    toInt_ofInt_of_small hw (by decide) (by decide)
  constructor
  · apply BitVec.eq_of_toInt_eq
    rw [BitVec.toInt_sdiv, hn, hthousand, Int.tdiv_eq_ediv_of_nonneg hnonneg, ← BitVec.toInt_ofInt]
  · rw [BitVec.toInt_srem, hn, hthousand, Int.tmod_eq_emod_of_nonneg hnonneg]

/-- **`stop_watch`** prints the distance `d` of the times in seconds, milliseconds and
microseconds, and returns it in milliseconds. -/
theorem stopWatch_eq (hw : 32 ≤ w) {tv tv2 : Timeval w} (htv : tv.Normalised)
    (htv2 : tv2.Normalised) (msg : List Char) {d : ℤ} (hd : d = tv2.micros - tv.micros)
    (hnonneg : 0 ≤ d) (hfits : d < 2 ^ (w - 1)) :
    stopWatch msg tv tv2 =
      ("stop_watch\n".toList ++ watchLine msg (d / 1000000) (d / 1000 % 1000) (d % 1000),
        BitVec.ofInt w (d / 1000)) := by
  obtain ⟨husec, hsec⟩ := borrow_borrowed hw htv htv2
  rw [← hd] at husec hsec
  obtain ⟨hdiv, hmod⟩ := div_mod_thousand hw (n := d % 1000000) (by omega) (by omega)
  have hseconds : (BitVec.ofInt w (d / 1000000)).toInt = d / 1000000 :=
    toInt_ofInt_of_fits hw (by omega) (by omega)
  have hmsec : (BitVec.ofInt w (d % 1000000 / 1000)).toInt = d % 1000000 / 1000 :=
    toInt_ofInt_of_small hw (by omega) (by omega)
  have hrest : d % 1000000 / 1000 = d / 1000 % 1000 := by omega
  have hlast : d % 1000000 % 1000 = d % 1000 := by omega
  have hall : d / 1000 = d / 1000000 * 1000 + d / 1000 % 1000 := by omega
  unfold stopWatch
  dsimp only
  rw [husec, hsec, hdiv, hmod, hseconds, hmsec, hrest, hlast]
  congr 1
  rw [hall, BitVec.ofInt_add, BitVec.ofInt_mul, ← hall]

/-- **The two stop watches agree.**  For two normalised times, the first not the later one,
whose distance fits a `long` of 32 bits or more: `getElapsedTime` returns the distance,
`stop_watch` returns it in milliseconds, and the numbers of its line make up the distance. -/
theorem stop_watches_agree (hw : 32 ≤ w) (msg : List Char) (start stop : Timeval w)
    (hstart : start.Normalised) (hstop : stop.Normalised) (hle : start.micros ≤ stop.micros)
    (hfits : stop.micros - start.micros < 2 ^ (w - 1)) :
    (getElapsedTime start stop).toInt = stop.micros - start.micros ∧
      ((stopWatch msg start stop).2.toNat : ℤ) = (stop.micros - start.micros) / 1000 ∧
      ∃ sec msec usec : ℤ,
        (stopWatch msg start stop).1 = "stop_watch\n".toList ++ watchLine msg sec msec usec ∧
        0 ≤ sec ∧ 0 ≤ msec ∧ msec < 1000 ∧ 0 ≤ usec ∧ usec < 1000 ∧
        sec * 1000000 + msec * 1000 + usec = stop.micros - start.micros := by
  obtain ⟨d, hd⟩ : ∃ d, d = stop.micros - start.micros := ⟨_, rfl⟩
  have hwatch := stopWatch_eq hw hstart hstop msg hd (by omega) (by omega)
  rw [getElapsedTime_eq_ofInt, hwatch, ← hd]
  refine ⟨?_, ?_, d / 1000000, d / 1000 % 1000, d % 1000, rfl, by omega, by omega, by omega,
    by omega, by omega, by omega⟩
  · exact toInt_ofInt_of_fits hw (by omega) (by omega)
  · -- below `2^(w-1)` an `unsigned long` is the same number
    have hwide : (2 : ℤ) ^ (w - 1) ≤ 2 ^ w := pow_le_pow_right₀ (by decide) (Nat.sub_le _ _)
    rw [BitVec.toNat_ofInt, Int.natCast_pow, Nat.cast_ofNat,
      Int.emod_eq_of_lt (by omega) (by omega), Int.toNat_of_nonneg (by omega)]

/-- The clock of a 32-bit target, from a quarter second before to a quarter second after a
full second: both products wrap around, and a second is borrowed. -/
theorem stop_watches_agree_half_second :
    (getElapsedTime (w := 32) ⟨1700000000, 750000⟩ ⟨1700000001, 250000⟩).toInt = 500000 ∧
      ((stopWatch (w := 32) [] ⟨1700000000, 750000⟩ ⟨1700000001, 250000⟩).2.toNat : ℤ) = 500 := by
  obtain ⟨helapsed, hwatch, -⟩ := stop_watches_agree (w := 32) (by decide) []
    ⟨1700000000, 750000⟩ ⟨1700000001, 250000⟩ ⟨by decide, by decide⟩ ⟨by decide, by decide⟩
    (by decide) (by decide)
  have hdist : (Timeval.mk (w := 32) 1700000001 250000).micros -
      (Timeval.mk (w := 32) 1700000000 750000).micros = 500000 := by decide
  rw [hdist] at helapsed hwatch
  exact ⟨helapsed, hwatch⟩

end LeipoCode.Time
