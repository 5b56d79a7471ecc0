import Wireform.Schema.TypeRef
import Wireform.Text.Blank
import Wireform.Text.Quoted

/-!
# Reading type references

    type       = name | "list" "<" type ">" | "array" "<" type ">"
               | "map" "<" type "," type ">" | type "?"

A name is a run of ASCII letters, digits and underscores that does not start with a digit; one of
the twenty primitive names is that primitive, any other the name of a declared type.  White space
may stand before, between and after the tokens.

The first token that does not fit decides the fault, which tells where the token stands by the
count of bytes in front of it.

Every nested type is read from a proper rest of the text, so as many nestings as the text has
characters are enough; `TypeRef.parse` starts with that many.
-/
namespace Wireform.Schema

/-- Why a text is no type reference. -/
inductive TypeRefFault where
  /-- The character `c` is missing. -/
  | expected (c : Char) (offset : Nat)
  /-- A name is missing. -/
  | expectedName (offset : Nat)
  /-- A type reference ends, and `rest` follows. -/
  | trailing (rest : String)
  deriving DecidableEq, Repr

/-- The wording of a fault. -/
def TypeRefFault.message : TypeRefFault → String
  | .expected c offset =>
    "expected '" ++ String.singleton c ++ s!"' at offset {offset}"
  | .expectedName offset => s!"expected a type name at offset {offset}"
  | .trailing rest => "unexpected " ++ Text.quoted rest

namespace TypeRef

/-- How many bytes a text takes. -/
def byteLength (text : List Char) : Nat :=
  text.foldr (fun c total => c.utf8Size + total) 0

/-- The text behind leading white space. -/
def skipBlanks (text : List Char) : List Char := text.dropWhile Text.isBlank

/-- What follows the character `c`, with white space in front of it skipped; `total` is the size of
the whole text, from which the place of a fault is told. -/
def expect (total : Nat) (c : Char) (text : List Char) : Except TypeRefFault (List Char) :=
  match skipBlanks text with
  | [] => .error (.expected c total)
  | d :: rest =>
    if d = c then .ok rest
    else .error (.expected c (total - byteLength (d :: rest)))

/-- A name and what follows it. -/
def takeName (total : Nat) (text : List Char) : Except TypeRefFault (String × List Char) :=
  let start := skipBlanks text
  match start.takeWhile isIdentChar with
  | [] => .error (.expectedName (total - byteLength start))
  | c :: name =>
    if isIdentStart c then .ok (String.ofList (c :: name), start.dropWhile isIdentChar)
    else .error (.expectedName (total - byteLength start))

/-- Takes question marks, each of which makes the type before it nullable. -/
def takeMarks : List Char → TypeRef → TypeRef × List Char
  | [], type => (type, [])
  | c :: rest, type =>
    if Text.isBlank c then takeMarks rest type
    else if c = '?' then takeMarks rest (.optional type)
    else (type, c :: rest)

/-- Reads one type and what follows it; `nesting` bounds how deep types are nested. -/
def parseType (total : Nat) :
    (nesting : Nat) → List Char → Except TypeRefFault (TypeRef × List Char)
  | 0, text => .error (.expectedName (total - byteLength (skipBlanks text)))
  | nesting + 1, text => do
    let (name, rest) ← takeName total text
    if name = "list" ∨ name = "array" then
      let rest ← expect total '<' rest
      let (element, rest) ← parseType total nesting rest
      let rest ← expect total '>' rest
      pure (takeMarks rest (if name = "list" then .list element else .array element))
    else if name = "map" then
      let rest ← expect total '<' rest
      let (key, rest) ← parseType total nesting rest
      let rest ← expect total ',' rest
      let (value, rest) ← parseType total nesting rest
      let rest ← expect total '>' rest
      pure (takeMarks rest (.map key value))
    else
      match Primitive.ofName? name with
      | some p => pure (takeMarks rest (.primitive p))
      | none => pure (takeMarks rest (.named name))

/-- Reads a whole text as a type reference. -/
def parse (text : String) : Except TypeRefFault TypeRef := do
  let chars := text.toList
  let (type, rest) ← parseType (byteLength chars) (chars.length + 1) chars
  match skipBlanks rest with
  | [] => pure type
  | rest => .error (.trailing (String.ofList rest))

end TypeRef

end Wireform.Schema
