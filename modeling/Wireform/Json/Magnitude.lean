/-!
# The range of numbers

A number of JSON text has to fit a double.  Whether it does is decided without its exact value: the
digits are collected into a significand of at most 64 bits, the rest of them is forgotten, and the
significand is then scaled by a power of ten.  `Magnitude.exceedsDouble` says when that goes beyond
the finite doubles; close to the greatest of them it can differ from what the exact value would say.
-/
namespace Wireform.Json

/-- A significand, and the power of ten that scales it. -/
structure Magnitude where
  significand : Nat
  exponent : Int
  deriving DecidableEq, Repr

namespace Magnitude

/-- The significand stays below this. -/
def significandBound : Nat := Nat.pow 2 64

/-- Appends digits to a significand up to the first one with which it would reach the bound; that
one and those behind it are left. -/
def collect : (significand : Nat) → List Char → Nat × List Char
  | significand, [] => (significand, [])
  | significand, c :: rest =>
    let next := 10 * significand + (c.toNat - '0'.toNat)
    if next < significandBound then collect next rest else (significand, c :: rest)

/-- The magnitude of a numeral.  A digit before the point that is forgotten still counts as a place;
one behind the point does not, and digits there go on where those before the point stopped. -/
def ofDigits (whole fraction : List Char) (power : Int) : Magnitude :=
  let (head, forgotten) := collect 0 whole
  let (significand, ignored) := collect head fraction
  let taken := fraction.length - ignored.length
  ⟨significand, power + (forgotten.length : Int) - (taken : Int)⟩

/-- How many bits a double has for its significand. -/
def precision : Nat := 53

/-- The nearest number with at most `precision` bits before its trailing zeros; of two nearest ones
the even one. -/
def roundNearest (n : Nat) : Nat :=
  let unit := Nat.pow 2 (n.log2 + 1 - precision)
  let below := n / unit
  let rest := n % unit
  let goesUp := unit < 2 * rest || (2 * rest == unit && below % 2 == 1)
  (if goesUp then below + 1 else below) * unit

/-- The least number that is nearest to no finite double: the greatest finite one and half a step
more. -/
def doubleBound : Nat := Nat.pow 2 1024 - Nat.pow 2 970

/-- The greatest power of ten below `doubleBound`. -/
def maxPower : Nat := 308

/-- Whether the product of the rounded significand and the rounded power of ten is nearest to no
finite double.  Nothing is too great when it is scaled down. -/
def exceedsDouble (magnitude : Magnitude) : Bool :=
  if magnitude.significand = 0 || magnitude.exponent < 0 then false
  else
    let power := magnitude.exponent.toNat
    maxPower < power
      || doubleBound ≤ roundNearest magnitude.significand * roundNearest (Nat.pow 10 power)

end Magnitude

end Wireform.Json
