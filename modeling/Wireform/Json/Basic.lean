import Wireform.Text.Quoted

/-!
# JSON values

A JSON value keeps what its text says: the members of an object stay in their order, a repeated name
included, and a number written with a fraction or an exponent is told from an integer.
`Json.compact` is the written form without blanks.
-/
namespace Wireform

/-- A number. -/
inductive Json.Number where
  | integer (n : Int)
  /-- A number that is written with a fraction or an exponent, as `-0`, or beyond 64 bits:
  `mantissa * 10 ^ exponent`, negated if `negative`. -/
  | decimal (negative : Bool) (mantissa : Nat) (exponent : Int)
  deriving DecidableEq, Repr

/-- A JSON value. -/
inductive Json where
  | null
  | bool (b : Bool)
  | number (n : Json.Number)
  | text (s : String)
  | array (items : List Json)
  | object (members : List (String × Json))
  deriving Repr, Inhabited

namespace Json

/-- An integer. -/
def int (n : Int) : Json := .number (.integer n)

/-- A natural number. -/
def nat (n : Nat) : Json := .int n

/-- The array of the forms of some items. -/
def list {α : Type} (form : α → Json) (items : List α) : Json := .array (items.map form)

/-- The form of a value, or null where there is none. -/
def orNull {α : Type} (form : α → Json) (value : Option α) : Json := (value.map form).getD .null

instance : Coe String Json := ⟨Json.text⟩
instance : Coe Bool Json := ⟨Json.bool⟩
instance : Coe Nat Json := ⟨Json.nat⟩

/-- The characters that stand for one character inside a written text. -/
def escapeChar (c : Char) : List Char :=
  if c = '"' then ['\\', '"']
  else if c = '\\' then ['\\', '\\']
  else if c = '\n' then ['\\', 'n']
  else if c = '\r' then ['\\', 'r']
  else if c = '\t' then ['\\', 't']
  else if c = '\x08' then ['\\', 'b']
  else if c = '\x0c' then ['\\', 'f']
  else if c < ' ' then
    let digits := Text.hexDigits c.toNat
    ['\\', 'u'] ++ List.replicate (4 - digits.length) '0' ++ digits
  else [c]

/-- The written form of a text. -/
def quoted (text : String) : String :=
  "\"" ++ String.ofList (text.toList.flatMap escapeChar) ++ "\""

/-- The written form of a number. -/
def Number.compact : Number → String
  | .integer n => toString n
  | .decimal negative mantissa exponent =>
    (if negative then "-" else "") ++ toString mantissa ++ "e" ++ toString exponent

mutual

/-- The written form without blanks. -/
def compact : Json → String
  | .null => "null"
  | .bool b => if b then "true" else "false"
  | .number n => n.compact
  | .text s => quoted s
  | .array items => "[" ++ ",".intercalate (compactItems items) ++ "]"
  | .object members => "\x7b" ++ ",".intercalate (compactMembers members) ++ "\x7d"

/-- The written forms of the elements of an array. -/
def compactItems : List Json → List String
  | [] => []
  | item :: rest => compact item :: compactItems rest

/-- The written forms of the members of an object. -/
def compactMembers : List (String × Json) → List String
  | [] => []
  | (name, value) :: rest => (quoted name ++ ":" ++ compact value) :: compactMembers rest

end

end Json

end Wireform
