import Mathlib.Data.Int.Notation
import Mathlib.Logic.Function.Basic

/-!
# The U64 macros of `example/example_S64.c`

A macro is a function on the store that holds its `U64` variables.  Its arguments
are names of variables, so an in-place use is a call whose result has the name of
an operand, and the words of the result are written one after the other, as the
source writes them.

`unsigned int` is `BitVec 32` and `long long` is `BitVec 64`, two's complement in
both directions; the right shift of a `long long` is arithmetic.

A `U64` is a structure of two words and the macros are statements.  Only variables are passed to
them here; an argument that is an expression with a side effect would have it as often as the macro
names it.  What a macro reads after it has written a word of its result is what counts when the
result is an operand, and this is kept by taking the source's assignments one by one.
-/

namespace LeipoCode.S64

/-- `U64`: two words, the lower one first, which together are an unsigned number of 64 bits. -/
structure U64 where
  LSW : BitVec 32
  MSW : BitVec 32
deriving DecidableEq, Repr

/-- The variables of a program, by name.  Equal names are one variable, which is how an in-place use
is one. -/
abbrev Store (ν : Type) := ν → U64

/-- A 32-bit operand of a macro that takes one, with its C type, which decides how it is widened. -/
inductive Lit
  | uint (b : BitVec 32)
  | int (b : BitVec 32)
deriving DecidableEq, Repr

/-- The operand as a `long long`: an `int` by its sign, an `unsigned int` with zeros. -/
def Lit.longLong : Lit → BitVec 64
  | .uint b => b.setWidth 64
  | .int b => b.signExtend 64

/-- The operand where it meets an `unsigned int`: an `int` becomes one, whatever its sign. -/
def Lit.unsigned : Lit → BitVec 32
  | .uint b => b
  | .int b => b

section Macros

variable {ν : Type} [DecidableEq ν]

/-- `(X).MSW = word`: the other word of `X` stays, and so does every other variable. -/
def setMSW (X : ν) (word : BitVec 32) (σ : Store ν) : Store ν :=
  Function.update σ X { σ X with MSW := word }

/-- `(X).LSW = word`: the other word of `X` stays, and so does every other variable. -/
def setLSW (X : ν) (word : BitVec 32) (σ : Store ν) : Store ν :=
  Function.update σ X { σ X with LSW := word }

/-- `(long long)(A).MSW << 32 | (A).LSW`: the number, as a signed one; its bits are those of the two
words. -/
def longLong (A : U64) : BitVec 64 := (A.MSW.setWidth 64 <<< 32) ||| A.LSW.setWidth 64

/-- The end of the macros that compute in a `long long`: the high word by a shift,
the low word by a cast. -/
def setVal (Value : ν) (Val : BitVec 64) (σ : Store ν) : Store ν :=
  setLSW Value (Val.setWidth 32) (setMSW Value ((Val.sshiftRight 32).setWidth 32) σ)

/-- `I64_Add`, by way of a `long long`: the sum wraps, and its two words are then written. -/
def i64Add (A B Value : ν) (σ : Store ν) : Store ν :=
  let T1 := longLong (σ A)
  let T2 := longLong (σ B)
  setVal Value (T1 + T2) σ

/-- `I64_AddLit`: the operand is widened to a `long long` by its own type. -/
def i64AddLit (A : ν) (B : Lit) (Value : ν) (σ : Store ν) : Store ν :=
  let T1 := longLong (σ A)
  setVal Value (T1 + B.longLong) σ

/-- `I64_Sub`, which stays in the words: the upper one is written first, with the borrow that the
lower ones give before they change. -/
def i64Sub (A B Value : ν) (σ : Store ν) : Store ν :=
  let σ := setMSW Value
    ((σ A).MSW - (σ B).MSW - if (σ A).LSW < (σ B).LSW then 1 else 0) σ
  setLSW Value ((σ A).LSW - (σ B).LSW) σ

/-- `I64_SubLit`, which stays in the words: the operand is compared and subtracted as an unsigned
word, and a borrow is taken from the upper one. -/
def i64SubLit (A : ν) (B : Lit) (Value : ν) (σ : Store ν) : Store ν :=
  let σ := setMSW Value ((σ A).MSW - if (σ A).LSW < B.unsigned then 1 else 0) σ
  setLSW Value ((σ A).LSW - B.unsigned) σ

/-- `I64_Mul`, of two `long long`s; the product wraps, and its low bits do not depend on the signs.
-/
def i64Mul (A B Value : ν) (σ : Store ν) : Store ν :=
  let T1 := longLong (σ A)
  let T2 := longLong (σ B)
  setVal Value (T1 * T2) σ

/-- `I64_MulLit`: the operand is widened by its own type, as in `i64AddLit`, and the product wraps.
-/
def i64MulLit (A : ν) (B : Lit) (Value : ν) (σ : Store ν) : Store ν :=
  let T1 := longLong (σ A)
  setVal Value (T1 * B.longLong) σ

/-- `I64_ShiftLeft`, in place; C gives a meaning to shifts below the width only, so the count is one
of those. -/
def i64ShiftLeft (Shift : Fin 64) (Value : ν) (σ : Store ν) : Store ν :=
  let T1 := longLong (σ Value)
  setVal Value (T1 <<< Shift.val) σ

/-- `I64_DivLit`.  The dividend is a `long long` here and the operand is converted to
one, so the division is signed; C gives it no meaning for the operand zero. -/
def i64DivLit (A : ν) (B : Lit) (Value : ν) (σ : Store ν) : Store ν :=
  let T1 := longLong (σ A)
  setVal Value (T1.sdiv B.longLong) σ

/-- `I64_ModLit`, likewise a signed remainder, with the sign of the number that is divided. -/
def i64ModLit (A : ν) (B : Lit) (Value : ν) (σ : Store ν) : Store ν :=
  let T1 := longLong (σ A)
  setVal Value (T1.srem B.longLong) σ

/-- `I64_ShiftRight`, in place, an arithmetic shift of a `long long`: what comes in at the top is
the sign. -/
def i64ShiftRight (Shift : Fin 64) (Value : ν) (σ : Store ν) : Store ν :=
  let T1 := longLong (σ Value)
  setVal Value (T1.sshiftRight Shift.val) σ

end Macros

/-! ### The tests -/

/-- `I64_IsEqual`: both words are equal, the lower ones first. -/
def i64IsEqual (A B : U64) : Bool := A.LSW == B.LSW && A.MSW == B.MSW

/-- `I64_AreNotEqual`: one of the words differs, the lower ones first. -/
def i64AreNotEqual (A B : U64) : Bool := A.LSW != B.LSW || A.MSW != B.MSW

/-- `I64_IsGreaterOrEqual`: by the upper words, and if these are equal by the lower ones, all of
them unsigned. -/
def i64IsGreaterOrEqual (A B : U64) : Bool :=
  decide (A.MSW > B.MSW) || (A.MSW == B.MSW && decide (A.LSW ≥ B.LSW))

/-- `I64_IsGreaterThan`: the same, where the lower words have to differ too. -/
def i64IsGreaterThan (A B : U64) : Bool :=
  decide (A.MSW > B.MSW) || (A.MSW == B.MSW && decide (A.LSW > B.LSW))

/-- `I64_IsLessThan`: the upper word is less, or equal and the lower one less. -/
def i64IsLessThan (A B : U64) : Bool :=
  decide (A.MSW < B.MSW) || (A.MSW == B.MSW && decide (A.LSW < B.LSW))

/-- `I64_IsLessOrEqual`: the same, where the lower words may be equal too. -/
def i64IsLessOrEqual (A B : U64) : Bool :=
  decide (A.MSW < B.MSW) || (A.MSW == B.MSW && decide (A.LSW ≤ B.LSW))

/-- `I64_IsZero`: both words are zero, so there is one zero only. -/
def i64IsZero (A : U64) : Bool := A.LSW == 0 && A.MSW == 0

end LeipoCode.S64
