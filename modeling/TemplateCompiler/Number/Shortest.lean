import TemplateCompiler.Text.Basic
import TemplateCompiler.Number.Binary64

/-!
# Shortest decimals

The decimal text of a floating-point number: the fewest significant digits that read back as the
number, the nearest such decimal if there are two, written without an exponent.

## What this module delivers

* `Binary64.shortest`: the digits and the power of ten of the shortest decimal.
* `Binary64.positional`: its text, with all the zeros that the position of the point asks for.
-/

set_option autoImplicit false

namespace TemplateCompiler.Binary64

/-- A decimal `digits * 10 ^ exponent`. -/
structure Decimal where
  digits : Nat
  exponent : Int
deriving DecidableEq, Repr

/-- `floor (k * 2 ^ u / 10 ^ x)`. -/
def floorAt (k : Nat) (u x : Int) : Nat :=
  (k * powPos 2 u * powPos 10 (-x)) / (powPos 10 x * powPos 2 (-u))

/-- Compares `c * 10 ^ x` with `k * 2 ^ u`. -/
def compareDecimal (c : Nat) (x : Int) (k : Nat) (u : Int) : Ordering :=
  compare (c * powPos 10 x * powPos 2 (-u)) (k * powPos 2 u * powPos 10 (-x))

/-- Twice the distance test: whether `c` is at most as far from `k * 2 ^ u` as `c + 1` is, in units
of `10 ^ x`. -/
def lowerIsNearer (c : Nat) (x : Int) (k : Nat) (u : Int) : Bool :=
  -- `2 * v ≤ (2 * c + 1) * 10 ^ x`
  compareDecimal (2 * c + 1) x (2 * k) u != .lt

/-- Number of places before the point of `k * 2 ^ u`: the least `p` with `k * 2 ^ u < 10 ^ p`. Zeros
behind the point count negatively; `fuel` bounds them. -/
def leadingPlaces (k : Nat) (u : Int) : Nat → Int → Int
  | 0, x => x
  | fuel + 1, x => if floorAt k u (x - 1) = 0 then leadingPlaces k u fuel (x - 1) else x

/-- The first decimal with at least `n` digits inside the interval of the reals that round to a
number. The interval is given in quarters of the number's unit `2 ^ u * 4`: from `low` to `high`
around `mid`, its ends included if `closed`. -/
def shortestFrom (low mid high : Nat) (u : Int) (closed : Bool) (p : Int) : Nat → Nat → Decimal
  | 0, n =>
    let x := p - n
    ⟨floorAt mid u x, x⟩
  | fuel + 1, n =>
    let x := p - n
    let c := floorAt mid u x
    let above := match compareDecimal c x low u with
      | .gt => true
      | .eq => closed
      | .lt => false
    let below := match compareDecimal (c + 1) x high u with
      | .lt => true
      | .eq => closed
      | .gt => false
    if above && (!below || lowerIsNearer c x mid u) then ⟨c, x⟩
    -- A single digit that carries over becomes a one in the place before it.
    else if below then (if c + 1 = 10 then ⟨1, x + 1⟩ else ⟨c + 1, x⟩)
    else shortestFrom low mid high u closed p fuel (n + 1)

/-- The shortest decimal that reads back as `m * 2 ^ e`. -/
def shortest (m : Nat) (e : Int) : Decimal :=
  let u := e - 2
  -- Below a power of two the neighbours are twice as dense.
  let low := if m = leastSignificand ∧ minExponent < e then 4 * m - 1 else 4 * m - 2
  let whole := floorAt (4 * m) u 0
  let p : Int :=
    if whole = 0 then leadingPlaces (4 * m) u 330 0 else (Nat.toDigits 10 whole).length
  shortestFrom low (4 * m) (4 * m + 2) u (m % 2 = 0) p 17 1

/-- A decimal without an exponent. -/
def Decimal.positional (d : Decimal) : Text :=
  let ds := Nat.toDigits 10 d.digits
  if 0 ≤ d.exponent then ds ++ List.replicate d.exponent.toNat '0'
  else
    let behind := (-d.exponent).toNat
    if behind < ds.length then
      ds.take (ds.length - behind) ++ '.' :: ds.drop (ds.length - behind)
    else '0' :: '.' :: List.replicate (behind - ds.length) '0' ++ ds

/-- The text of a number. -/
def positional : Binary64 → Text
  | .zero => ['0']
  | .finite m e => (shortest m e).positional
  | .infinite => "inf".toList

end TemplateCompiler.Binary64
