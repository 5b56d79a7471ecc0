import Wireform.Schema.Error

/-!
# Reading type references by byte positions

The reader of this module stands at a byte position of the text and works on slices of it.  A slice
that would start or end inside a character has no value, and a reading that asks for one has no
result; nor has a reading that does not end within its `fuel`.

It accepts the grammar of `TypeRef.parse`, which goes through the characters of the text instead and
never meets either case.
-/
namespace Wireform.Schema

/-- The characters from a byte position on. -/
def sliceFrom : List Char → Nat → Option (List Char)
  | text, 0 => some text
  | [], _ + 1 => none
  | c :: text, pos + 1 =>
    if c.utf8Size ≤ pos + 1 then sliceFrom text (pos + 1 - c.utf8Size) else none

/-- The characters up to a byte position. -/
def sliceTo : List Char → Nat → Option (List Char)
  | _, 0 => some []
  | [], _ + 1 => none
  | c :: text, pos + 1 =>
    if c.utf8Size ≤ pos + 1 then (sliceTo text (pos + 1 - c.utf8Size)).map (c :: ·) else none

/-- The result of a reading: there may be none, and it may be a fault. -/
abbrev Reading : Type → Type := ExceptT TypeRefFault Option

namespace ByteReader

open TypeRef (byteLength)

variable (input : List Char)

/-- What is left of the text at a position. -/
def rest (pos : Nat) : Reading (List Char) := ExceptT.lift (sliceFrom input pos)

/-- The position behind white space. -/
def skipBlanks (pos : Nat) : Reading Nat := do
  let text ← rest input pos
  pure (byteLength input - byteLength (text.dropWhile Text.isBlank))

/-- Whether the character `c` comes next, and the position behind it if it does. -/
def eat (c : Char) (pos : Nat) : Reading (Bool × Nat) := do
  let pos ← skipBlanks input pos
  let text ← rest input pos
  if text.head? = some c then pure (true, pos + c.utf8Size) else pure (false, pos)

/-- The position behind the character `c`. -/
def expect (c : Char) (pos : Nat) : Reading Nat := do
  let (isThere, pos) ← eat input c pos
  if isThere then pure pos else throw (.expected c pos)

/-- A name and the position behind it. -/
def takeName (pos : Nat) : Reading (String × Nat) := do
  let pos ← skipBlanks input pos
  let text ← rest input pos
  let length := byteLength (text.takeWhile isIdentChar)
  let name ← ExceptT.lift (sliceTo text length)
  if name.head?.any isIdentStart then pure (String.ofList name, pos + length)
  else throw (.expectedName pos)

/-- Takes question marks, each of which makes the type before it nullable. -/
def takeMarks : (fuel : Nat) → TypeRef → Nat → Reading (TypeRef × Nat)
  | 0, _, _ => ExceptT.lift none
  | fuel + 1, type, pos => do
    let (isThere, pos) ← eat input '?' pos
    if isThere then takeMarks fuel (.optional type) pos else pure (type, pos)

/-- One type and the position behind it. -/
def parseType : (fuel : Nat) → Nat → Reading (TypeRef × Nat)
  | 0, _ => ExceptT.lift none
  | fuel + 1, pos => do
    let (name, pos) ← takeName input pos
    if name = "list" ∨ name = "array" then
      let pos ← expect input '<' pos
      let (element, pos) ← parseType fuel pos
      let pos ← expect input '>' pos
      takeMarks input (fuel + 1) (if name = "list" then .list element else .array element) pos
    else if name = "map" then
      let pos ← expect input '<' pos
      let (key, pos) ← parseType fuel pos
      let pos ← expect input ',' pos
      let (value, pos) ← parseType fuel pos
      let pos ← expect input '>' pos
      takeMarks input (fuel + 1) (.map key value) pos
    else
      match Primitive.ofName? name with
      | some p => takeMarks input (fuel + 1) (.primitive p) pos
      | none => takeMarks input (fuel + 1) (.named name) pos

/-- The whole text as one type. -/
def parse (fuel : Nat) : Reading TypeRef := do
  let (type, pos) ← parseType input fuel 0
  let pos ← skipBlanks input pos
  if pos = byteLength input then pure type
  else
    let left ← rest input pos
    throw (.trailing (String.ofList left))

end ByteReader

/-- Reads a text as a type reference, in as many steps as the text has characters and one more. -/
def TypeRef.ofText? (text : String) : Option (Except SchemaError TypeRef) :=
  (ByteReader.parse text.toList (text.length + 1)).run.map (Except.mapError (.invalidTypeRef text))

end Wireform.Schema
