import Wireform.Dispatch.Basic

/-!
# Fixed dispatch tables

A dispatch table is what generated code does where a registry looks things up: every type has its
tag once and for all, so a value of one of the types can always be measured and written.  Reading by
a tag that no type has is reported as an unknown tag, and reading for one type by the tag of another
as a mismatch.
-/
namespace Wireform

/-- A type with its tag. -/
structure TableRow where
  tag : Nat
  type : WireType

/-- The types of a table, in the order of their tags. -/
structure DispatchTable where
  rows : List TableRow

/-- A value of one of a table's types. -/
structure TableValue where
  row : TableRow
  value : Value

namespace DispatchTable

/-- The row of a type's name. -/
def rowOfName? (table : DispatchTable) (name : String) : Option TableRow :=
  table.rows.find? fun row => row.type.name == name

/-- The row of a tag. -/
def rowOfTag? (table : DispatchTable) (tag : Nat) : Option TableRow :=
  table.rows.find? fun row => row.tag == tag

/-- The tag of a type's name. -/
def tagOfName? (table : DispatchTable) (name : String) : Option Nat :=
  (table.rowOfName? name).map TableRow.tag

/-- The name of a tag's type. -/
def typeNameOf? (table : DispatchTable) (tag : Nat) : Option String :=
  (table.rowOfTag? tag).map fun row => row.type.name

/-- The types with their tags. -/
def types (table : DispatchTable) : List (Nat × String) :=
  table.rows.map fun row => (row.tag, row.type.name)

/-- Reads a value of the type that has a tag; the tag itself has been read. -/
def readByTag (table : DispatchTable) (tag : Nat) : Reader TableValue := do
  match table.rowOfTag? tag with
  | some row => do
    let value ← row.type.codec.read
    pure ⟨row, value⟩
  | none => throw (.wire (.dispatch (.unknownTag tag)))

/-- Reads a tag and a value of its type. -/
def read (table : DispatchTable) : Reader (Option TableValue) := do
  let tag ← readTag
  if tag = nullTag then pure none
  else
    let value ← table.readByTag tag
    pure (some value)

/-- Reads a tag that has to be that of a row, or that of null, and a value. -/
def readAs (table : DispatchTable) (row : TableRow) : Reader (Option Value) := do
  let tag ← readTag
  if tag = nullTag then pure none
  else if tag = row.tag then
    let value ← row.type.codec.read
    pure (some value)
  else
    match table.typeNameOf? tag with
    | some actual => throw (.wire (.dispatch (.typeMismatch tag row.type.name actual)))
    | none => throw (.wire (.dispatch (.unknownTag tag)))

end DispatchTable

namespace TableRow

/-- The size of a value of a row's type behind its tag, or of a null. -/
def sizeOf (row : TableRow) (value : Option Value) : Nat := taggedSize row.type.codec value

/-- Writes a value of a row's type behind its tag, or a null. -/
def write (row : TableRow) (value : Option Value) : Writer :=
  writeTagged row.tag row.type.codec value

/-- The value, if it is one of the row's type. -/
def ofAny? (row : TableRow) (any : TableValue) : Option Value :=
  if any.row.tag = row.tag then some any.value else none

end TableRow

namespace TableValue

/-- The size of a value behind the tag of its type, or of a null. -/
def size : Option TableValue → Nat
  | none => 1
  | some any => any.row.sizeOf (some any.value)

/-- Writes a value behind the tag of its type, or a null. -/
def write : Option TableValue → Writer
  | none => writeByte nullTag
  | some any => any.row.write (some any.value)

end TableValue

end Wireform
