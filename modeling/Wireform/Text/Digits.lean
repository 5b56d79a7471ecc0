/-!
# Decimal digits

Small printers shared by the texts of durations and instants: a number padded with zeros on the
left, and a decimal fraction that keeps only the digits it needs.  `intOf?` reads an integer back.
-/
namespace Wireform.Text

/-- The decimal digits of `n`, with zeros in front up to `width` of them. -/
def padded (width n : Nat) : String :=
  let digits := toString n
  String.ofList (List.replicate (width - digits.length) '0') ++ digits

/-- `digits` without its trailing zeros. -/
def trimZeros (digits : List Char) : List Char :=
  (digits.reverse.dropWhile (· == '0')).reverse

/-- The fraction `n / 10 ^ places` behind a point, without trailing zeros; empty for zero. -/
def fraction (places n : Nat) : String :=
  if n = 0 then "" else String.ofList ('.' :: trimZeros (padded places n).toList)

/-- The number that decimal digits stand for, of which there has to be one. -/
def natOf? (digits : List Char) : Option Nat :=
  if digits.isEmpty then none
  else
    digits.foldlM (fun n c => if c.isDigit then some (n * 10 + (c.toNat - '0'.toNat)) else none) 0

/-- The integer that a text stands for: digits, behind a minus sign if it is negative. -/
def intOf? (text : String) : Option Int :=
  match text.toList with
  | '-' :: digits => (natOf? digits).map fun n => -(n : Int)
  | digits => (natOf? digits).map Int.ofNat

end Wireform.Text
