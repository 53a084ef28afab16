/-!
# Binary floating-point numbers

The numbers of a script are binary floating-point numbers of 64 bits. Only the non-negative ones can
be written as a literal, so a number here is zero, `m * 2 ^ e` with a significand of at most 53 bits,
or beyond all finite ones.

## What this module delivers

* `Binary64`: the numbers.
* `Binary64.ofRatio`: the number nearest to a ratio, a half going to the even neighbour.
* `Binary64.ofDecimal`, `Binary64.ofNat`: the number nearest to a literal.
-/

set_option autoImplicit false

namespace TemplateCompiler

/-- A non-negative floating-point number of 64 bits. -/
inductive Binary64 where
  | zero
  /-- The number `significand * 2 ^ exponent`, with `0 < significand < 2 ^ 53`. -/
  | finite (significand : Nat) (exponent : Int)
  | infinite
deriving DecidableEq, Repr

namespace Binary64

/-- The least exponent. -/
def minExponent : Int := -1074

/-- The greatest exponent of a finite number. -/
def maxExponent : Int := 971

/-- The least significand of 53 bits. -/
def leastSignificand : Nat := Nat.pow 2 52

/-- The power of a base, one for negative exponents. -/
def powPos (base : Nat) (e : Int) : Nat := Nat.pow base e.toNat

/-- The quotient rounded to the nearest integer, a half going to the even one. -/
def roundDiv (num den : Nat) : Nat :=
  let q := num / den
  let twice := 2 * (num % den)
  if twice < den then q
  else if den < twice then q + 1
  else if q % 2 = 0 then q else q + 1

/-- The exponent for which `num / den` has a significand of 53 bits, or the least one. -/
def exponentOf (num den : Nat) : Int :=
  let guess : Int := (Nat.log2 num : Int) - (Nat.log2 den : Int) - 52
  -- `guess` is exact, or one too large.
  let scaled := num * powPos 2 (-guess) / (den * powPos 2 guess)
  let exact := if scaled < leastSignificand then guess - 1 else guess
  max exact minExponent

/-- The number nearest to `num / den`. -/
def ofRatio (num den : Nat) : Binary64 :=
  if num = 0 ∨ den = 0 then .zero
  else
    let e := exponentOf num den
    let m := roundDiv (num * powPos 2 (-e)) (den * powPos 2 e)
    let (m, e) := if m = 2 * leastSignificand then (leastSignificand, e + 1) else (m, e)
    if m = 0 then .zero
    else if maxExponent < e then .infinite
    else .finite m e

/-- The number nearest to `digits * 10 ^ exponent`. Beyond a few hundred places the answer is
decided by the magnitude alone. -/
def ofDecimal (digits : Nat) (exponent : Int) : Binary64 :=
  let places : Int := exponent + (Nat.toDigits 10 digits).length
  if digits = 0 then .zero
  else if 400 < places then .infinite
  else if places < -400 then .zero
  else ofRatio (digits * powPos 10 exponent) (powPos 10 (-exponent))

/-- The number nearest to an integer. -/
def ofNat (n : Nat) : Binary64 := ofRatio n 1

end Binary64

end TemplateCompiler
