import Wireform.Derive.Lexeme

/-!
# Integer literals

An integer literal has a base, digits and maybe a suffix; `integerLiteral?` is its value.  Where a
position in a tuple is meant, only the value counts: behind a point, `0x10` is the position `16`,
and `0.1`, which looks like a number with a fraction, is the position `1` in the position `0`.
-/
namespace Wireform.Derive

/-- The value of a digit in any base up to sixteen. -/
def digitValue? (c : Char) : Option Nat :=
  if c.isDigit then some (c.toNat - '0'.toNat)
  else if 'a' ≤ c ∧ c ≤ 'f' then some (c.toNat - 'a'.toNat + 10)
  else if 'A' ≤ c ∧ c ≤ 'F' then some (c.toNat - 'A'.toNat + 10)
  else none

/-- The base that a literal announces, and what follows the announcement. -/
def literalBase : List Char → Nat × List Char
  | '0' :: 'x' :: rest => (16, rest)
  | '0' :: 'o' :: rest => (8, rest)
  | '0' :: 'b' :: rest => (2, rest)
  | characters => (10, characters)

/-- Whether a character is part of the digits of a literal. -/
def isLiteralDigit (base : Nat) (c : Char) : Bool :=
  c == '_' || (if base ≤ 10 then c.isDigit else (digitValue? c).isSome)

/-- Whether characters may follow the digits of a literal as its suffix; what looks like an exponent
makes a decimal number of it. -/
def isSuffix (base : Nat) : List Char → Bool
  | [] => true
  | c :: rest =>
    (c.isAlpha || c == '_') && rest.all Lexeme.isWordChar
      && !(base == 10 && (c == 'e' || c == 'E')
        && (rest.dropWhile (· == '_')).head?.any Char.isDigit)

/-- The value of an integer literal.  Underscores between the digits and a suffix behind them say
nothing. -/
def integerLiteral? (text : String) : Option Nat :=
  let (base, characters) := literalBase text.toList
  let body := characters.takeWhile (isLiteralDigit base)
  let values := (body.filter (· != '_')).filterMap digitValue?
  let startsWithDigit := text.toList.head?.any Char.isDigit
  if startsWithDigit && !values.isEmpty && values.all (· < base)
      && isSuffix base (characters.dropWhile (isLiteralDigit base)) then
    some (values.foldl (fun n value => base * n + value) 0)
  else none

/-- A position in a tuple; a literal that is none is left as it is. -/
def position (text : List Char) : Token :=
  match integerLiteral? (String.ofList text) with
  | some n => .literal (toString n)
  | none => .literal (String.ofList text)

/-- The positions that a numeral behind a point stands for, with a point between each two; a point
at its end stays there. -/
def positions (text : String) : List Token :=
  match text.toList.span (· ≠ '.') with
  | (whole, []) => [position whole]
  | (whole, [point]) => [position whole, .mark point]
  | (whole, point :: places) => [position whole, .mark point, position places]

end Wireform.Derive
