import Wireform.Json.Basic
import Wireform.Json.Magnitude

/-!
# Reading JSON text

A `Scanner` reads from the front of a text and fails with the first problem that it meets from left
to right.  There are three sorts of problems.

* `truncated`: the text ends too early.
* `malformed`: what stands there begins no JSON, is nested deeper than `depthLimit`, or is a number
  that goes beyond the finite doubles.
* `wrongShape`: it is JSON, but not what is wanted.

A value that nobody wants is *skimmed*: lone surrogates, great numbers and deep nesting pass there,
and a number that the end of the text cuts off is malformed rather than truncated.

Loops over the elements of an array and the members of an object take a bound; each turn reads at
least one character, so the length of the text is enough.
-/
namespace Wireform.Json

/-- Why a text is refused. -/
inductive Fault where
  | truncated
  | malformed
  | wrongShape
  deriving DecidableEq, Repr

/-- What a fault is called: the text ends, its syntax is wrong, or its data is. -/
def Fault.category : Fault → String
  | .truncated => "eof"
  | .malformed => "syntax"
  | .wrongShape => "data"

/-- Reads from the front of a text. -/
abbrev Scanner (α : Type) := StateT (List Char) (Except Fault) α

/-- Whether a value is read or passed over. -/
inductive Mode where
  | keep
  | skim
  deriving DecidableEq, Repr

/-- How deep arrays and objects may be nested in a value that is kept. -/
def depthLimit : Nat := 127

/-! ## 1. Characters -/

/-- Whether a character may stand between tokens. -/
def isBlank (c : Char) : Bool := c == ' ' || c == '\n' || c == '\t' || c == '\r'

/-- Passes over blanks. -/
def skipBlanks : Scanner Unit := modify fun input => input.dropWhile isBlank

/-- The next character that is not blank; it is left where it is. -/
def next? : Scanner (Option Char) := do
  skipBlanks
  return (← get).head?

/-- Passes over one character. -/
def advance : Scanner Unit := modify List.tail

/-- Passes over the letters of a word. -/
def word : List Char → Scanner Unit
  | [] => pure ()
  | expected :: rest => do
    match ← get with
    | [] => throw .truncated
    | c :: input =>
      if c = expected then
        set input
        word rest
      else throw .malformed

/-! ## 2. Numbers -/

/-- The value of a decimal numeral. -/
def ofDigits (digits : List Char) : Nat :=
  digits.foldl (fun n c => 10 * n + (c.toNat - '0'.toNat)) 0

/-- Takes the digits in front. -/
def digits : Scanner (List Char) := do
  let input ← get
  set (input.dropWhile Char.isDigit)
  pure (input.takeWhile Char.isDigit)

/-- Takes digits, of which there has to be one. -/
def someDigits (mode : Mode) : Scanner (List Char) := do
  match (← get).head? with
  | none => throw (if mode = .keep then .truncated else .malformed)
  | some c => if c.isDigit then digits else throw .malformed

/-- Takes the digits before the point: `0`, or digits that do not start with `0`. -/
def wholeDigits (mode : Mode) : Scanner (List Char) := do
  let found ← someDigits mode
  if found.head? = some '0' && 1 < found.length then throw .malformed
  pure found

/-- Takes the digits behind a point, if there is one. -/
def fractionDigits (mode : Mode) : Scanner (Option (List Char)) := do
  if (← get).head? = some '.' then
    advance
    some <$> someDigits mode
  else pure none

/-- Takes an exponent, if there is one. -/
def exponent (mode : Mode) : Scanner (Option Int) := do
  match (← get).head? with
  | some 'e' | some 'E' =>
    advance
    match (← get).head? with
    | some '-' =>
      advance
      return some (-(ofDigits (← someDigits mode) : Int))
    | some '+' =>
      advance
      return some (ofDigits (← someDigits mode))
    | _ => return some (ofDigits (← someDigits mode))
  | _ => pure none

/-- A numeral without fraction and exponent as a number. -/
def wholeNumber (negative : Bool) (n : Nat) : Number :=
  if negative then
    if 0 < n ∧ n ≤ Nat.pow 2 63 then .integer (-(n : Int)) else .decimal true n 0
  else if n < Nat.pow 2 64 then .integer n
  else .decimal false n 0

/-- Reads a number. -/
def scanNumber (mode : Mode) : Scanner Number := do
  let negative := (← get).head? = some '-'
  if negative then advance
  let whole ← wholeDigits mode
  let fraction ← fractionDigits mode
  let power ← exponent mode
  let places := fraction.getD []
  let magnitude := Magnitude.ofDigits whole places (power.getD 0)
  if mode = .keep && magnitude.exceedsDouble then throw .malformed
  let mantissa := ofDigits (whole ++ places)
  let scale := power.getD 0 - (places.length : Int)
  pure (if fraction.isNone && power.isNone then wholeNumber negative mantissa
    else .decimal negative mantissa scale)

/-! ## 3. Text -/

/-- The value of four hexadecimal digits. -/
def hexUnit? (a b c d : Char) : Option Nat := do
  let high := (← Text.hexValue? a) * 16 + (← Text.hexValue? b)
  let low := (← Text.hexValue? c) * 16 + (← Text.hexValue? d)
  return high * 256 + low

/-- Whether a unit is the first half of a pair. -/
def isHighSurrogate (unit : Nat) : Bool := 0xD800 ≤ unit && unit ≤ 0xDBFF

/-- Whether a unit is the second half of a pair. -/
def isLowSurrogate (unit : Nat) : Bool := 0xDC00 ≤ unit && unit ≤ 0xDFFF

/-- The character that a pair of units stands for. -/
def pairChar (high low : Nat) : Char :=
  Char.ofNat ((high - 0xD800) * 0x400 + (low - 0xDC00) + 0x10000)

/-- The character that a letter behind a backslash stands for. -/
def shortEscape? : Char → Option Char
  | '"' => some '"'
  | '\\' => some '\\'
  | '/' => some '/'
  | 'b' => some '\x08'
  | 'f' => some '\x0c'
  | 'n' => some '\n'
  | 'r' => some '\r'
  | 't' => some '\t'
  | _ => none

/-- The problem with an escape by number whose four digits are not all there: less than four bytes
are left of the text, or one of them is no digit. -/
def shortUnitFault (input : List Char) : Fault :=
  if (String.ofList input).utf8ByteSize < 4 then .truncated else .malformed

/-- Puts a character in front of what is read after it. -/
def andChar (c : Char) (rest : Except Fault (List Char × List Char)) :
    Except Fault (List Char × List Char) :=
  rest.map fun (found, input) => (c :: found, input)

/-- Reads up to the closing quote. -/
def textBody (mode : Mode) : List Char → Except Fault (List Char × List Char)
  | [] => .error .truncated
  | '"' :: input => .ok ([], input)
  | '\\' :: 'u' :: a :: b :: c :: d :: input =>
    match hexUnit? a b c d with
    | none => .error .malformed
    | some unit =>
      if mode = .skim then andChar (Char.ofNat unit) (textBody mode input)
      else if isLowSurrogate unit then .error .malformed
      else if isHighSurrogate unit then
        match input with
        | '\\' :: 'u' :: e :: f :: g :: h :: input =>
          match hexUnit? e f g h with
          | none => .error .malformed
          | some low =>
            if isLowSurrogate low then andChar (pairChar unit low) (textBody mode input)
            else .error .malformed
        | '\\' :: 'u' :: input => .error (shortUnitFault input)
        | ['\\'] => .error .truncated
        | [] => .error .truncated
        | _ => .error .malformed
      else andChar (Char.ofNat unit) (textBody mode input)
  | '\\' :: 'u' :: input => .error (shortUnitFault input)
  | ['\\'] => .error .truncated
  | '\\' :: letter :: input =>
    match shortEscape? letter with
    | some c => andChar c (textBody mode input)
    | none => .error .malformed
  | c :: input => if c < ' ' then .error .malformed else andChar c (textBody mode input)

/-- Reads a text from its opening quote. -/
def scanText (mode : Mode) : Scanner String := do
  advance
  let (found, input) ← textBody mode (← get)
  set input
  pure (String.ofList found)

/-! ## 4. Arrays and objects -/

/-- Whether another element follows, which is then next; a comma has to stand before it unless it is
the first. -/
def moreElements (isFirst : Bool) : Scanner Bool := do
  match ← next? with
  | none => throw .truncated
  | some ']' => pure false
  | some c =>
    if isFirst then pure true
    else if c = ',' then
      advance
      match ← next? with
      | none => throw .truncated
      | some ']' => throw .malformed
      | some _ => pure true
    else throw .malformed

/-- The name of another member, if one follows. -/
def moreMembers (mode : Mode) (isFirst : Bool) : Scanner (Option String) := do
  match ← next? with
  | none => throw .truncated
  | some '\x7d' => pure none
  | some c =>
    if isFirst then
      if c = '"' then some <$> scanText mode else throw .malformed
    else if c = ',' then
      advance
      match ← next? with
      | none => throw .truncated
      | some '"' => some <$> scanText mode
      | some _ => throw .malformed
    else throw .malformed

/-- Passes over the colon behind a member's name. -/
def colon : Scanner Unit := do
  match ← next? with
  | none => throw .truncated
  | some ':' => advance
  | some _ => throw .malformed

/-- The elements up to the end of an array. -/
def elements {α : Type} (element : Scanner α) : (bound : Nat) → (isFirst : Bool) → Scanner (List α)
  | 0, _ => throw .truncated
  | bound + 1, isFirst => do
    if ← moreElements isFirst then
      let head ← element
      let rest ← elements element bound false
      pure (head :: rest)
    else pure []

/-- Goes through the members up to the end of an object; `member` reads on from behind the name. -/
def foldMembers {σ : Type} (mode : Mode) (member : σ → String → Scanner σ) :
    (bound : Nat) → (isFirst : Bool) → σ → Scanner σ
  | 0, _, _ => throw .truncated
  | bound + 1, isFirst, state => do
    match ← moreMembers mode isFirst with
    | some name => do
      let state ← member state name
      foldMembers mode member bound false state
    | none => pure state

/-- Passes over the bracket that ends an array; elements beyond those that were wanted are
malformed. -/
def closeArray : Scanner Unit := do
  match ← next? with
  | none => throw .truncated
  | some ']' => advance
  | some _ => throw .malformed

/-! ## 5. Values -/

/-- Reads a value whose parts, if it has any, are read by `part?`; without one, arrays and objects
are nested too deep. -/
def scanWith (mode : Mode) (bound : Nat) (part? : Option (Scanner Json)) : Scanner Json := do
  match ← next? with
  | none => throw .truncated
  | some 'n' => word "null".toList; pure .null
  | some 't' => word "true".toList; pure (.bool true)
  | some 'f' => word "false".toList; pure (.bool false)
  | some '"' => .text <$> scanText mode
  | some '[' =>
    match part? with
    | none => throw .malformed
    | some part => do
      advance
      let items ← elements part bound true
      advance
      pure (.array items)
  | some '\x7b' =>
    match part? with
    | none => throw .malformed
    | some part => do
      advance
      let member (members : List (String × Json)) (name : String) := do
        colon
        let value ← part
        pure ((name, value) :: members)
      let members ← foldMembers mode member bound true []
      advance
      pure (.object members.reverse)
  | some c => if c = '-' || c.isDigit then .number <$> scanNumber mode else throw .malformed

/-- Reads a value in which arrays and objects are nested at most `depth` deep. -/
def scan (mode : Mode) (bound : Nat) : (depth : Nat) → Scanner Json
  | 0 => scanWith mode bound none
  | depth + 1 => scanWith mode bound (some (scan mode bound depth))

/-- Passes over a value that nobody wants. -/
def skim (bound : Nat) : Scanner Unit := do
  let _ ← scan .skim bound bound
  pure ()

/-- Refuses what is next as being of the wrong shape; a number, a text or a word is read first, and
may be malformed in itself. -/
def refuse {α : Type} : Scanner α := do
  match ← next? with
  | some '[' | some '\x7b' => throw .wrongShape
  | _ =>
    let _ ← scanWith .keep 0 none
    throw .wrongShape

/-- Reads a text where a text is wanted. -/
def wantText : Scanner String := do
  match ← next? with
  | some '"' => scanText .keep
  | _ => refuse

/-- Reads a truth value where one is wanted. -/
def wantBool : Scanner Bool := do
  match ← next? with
  | some 't' => word "true".toList; pure true
  | some 'f' => word "false".toList; pure false
  | _ => refuse

/-! ## 6. Whole texts -/

/-- Reads a text that holds nothing but what `scanner` reads, and blanks. -/
def readAll {α : Type} (scanner : (bound : Nat) → Scanner α) (text : String) : Except Fault α := do
  let characters := text.toList
  let (value, rest) ← (do
    let value ← scanner (characters.length + 1)
    skipBlanks
    pure value).run characters
  if rest.isEmpty then pure value else throw .malformed

/-- The value that a text holds. -/
def parse (text : String) : Except Fault Json :=
  readAll (fun bound => scan .keep bound depthLimit) text

end Wireform.Json
