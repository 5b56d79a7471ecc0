/-!
# Hexadecimal text

Numbers and bytes as hexadecimal digits, most significant digit first.  Digits are written in lower
case and read in either.
-/
namespace Wireform.Text

/-- The lower-case hexadecimal digits of a number, without leading zeros. -/
def hexDigits (n : Nat) : List Char := Nat.toDigits 16 n

/-- The value of a hexadecimal digit. -/
def hexValue? (c : Char) : Option Nat :=
  if c.isDigit then some (c.toNat - '0'.toNat)
  else if 'a' ≤ c ∧ c ≤ 'f' then some (c.toNat - 'a'.toNat + 10)
  else if 'A' ≤ c ∧ c ≤ 'F' then some (c.toNat - 'A'.toNat + 10)
  else none

/-- The hexadecimal digits of a number, with zeros in front up to `width` of them. -/
def hexPadded (width n : Nat) : String :=
  let digits := hexDigits n
  String.ofList (List.replicate (width - digits.length) '0' ++ digits)

/-- The number that hexadecimal digits stand for. -/
def ofHex? (text : String) : Option Nat :=
  text.toList.foldlM (fun n c => do return n * 16 + (← hexValue? c)) 0

/-- Bytes, two digits each. -/
def hexOfBytes (bytes : List UInt8) : String :=
  String.join (bytes.map fun byte => hexPadded 2 byte.toNat)

/-- The bytes that pairs of digits stand for. -/
def bytesOfPairs? : List Char → Option (List UInt8)
  | [] => some []
  | high :: low :: rest => do
    let byte := (← hexValue? high) * 16 + (← hexValue? low)
    return UInt8.ofNat byte :: (← bytesOfPairs? rest)
  | [_] => none

/-- The bytes that a text stands for, two digits each. -/
def bytesOfHex? (text : String) : Option (List UInt8) := bytesOfPairs? text.toList

end Wireform.Text
