import Wireform.Dispatch.Basic
import Wireform.Pool.Objects
import Wireform.Schema.TagRegistry

/-!
# Registries of types

A registry knows types by their tags and is built by registering one type after the other.  It reads
and writes tagged values in two ways: for a type that the caller names, and for values whose type is
only known when they are met.

* A registered type is found by its tag in `rows`, which is in the order of the tags, and the tag of
  a type in `tags`; a type registered twice keeps its tag and its row.
* Reading for a named type fails when the tag is another type's, before anything but the tag is
  read.
-/
namespace Wireform

open Schema (SchemaError TagRegistry)

/-- A registered type. -/
structure RegistryRow where
  tag : Nat
  type : WireType

/-- Registered types. -/
structure Registry where
  tags : TagRegistry String
  rows : List RegistryRow

namespace Registry

/-- No type at all. -/
def empty : Registry := ⟨.empty, []⟩

/-! ## 1. Building -/

/-- Puts a row in front of the first with a higher tag, unless the tag has a row. -/
def insertRow (row : RegistryRow) : List RegistryRow → List RegistryRow
  | [] => [row]
  | other :: rest =>
    if row.tag < other.tag then row :: other :: rest
    else if row.tag = other.tag then other :: rest
    else other :: insertRow row rest

/-- Registers a type under the lowest free tag. -/
def register (registry : Registry) (type : WireType) : Except SchemaError Registry := do
  let (tag, tags) ← registry.tags.register type.name type.name
  pure ⟨tags, insertRow ⟨tag, type⟩ registry.rows⟩

/-- Registers a type under the tag that it asks for. -/
def registerWithTag (registry : Registry) (type : WireType) (tag : Nat) :
    Except SchemaError Registry := do
  let (tag, tags) ← registry.tags.registerWithTag type.name tag type.name
  pure ⟨tags, insertRow ⟨tag, type⟩ registry.rows⟩

/-! ## 2. Looking up -/

/-- The row of a tag. -/
def rowOf? (registry : Registry) (tag : Nat) : Option RegistryRow :=
  registry.rows.find? fun row => row.tag == tag

/-- The row of a tag, which has to have one. -/
def lookup (registry : Registry) (tag : Nat) : Except DispatchError RegistryRow :=
  match registry.rowOf? tag with
  | some row => .ok row
  | none => .error (.unknownTag tag)

/-- The tag of a type; `shown` is how the error calls it. -/
def tagOfAs (registry : Registry) (name shown : String) : Except DispatchError Nat :=
  match registry.tags.tagOf? name with
  | some tag => .ok tag
  | none => .error (.unregisteredType shown)

/-- The tag of a type. -/
def tagOf (registry : Registry) (name : String) : Except DispatchError Nat :=
  registry.tagOfAs name name

/-- The name of the type that has a tag. -/
def typeNameOf? (registry : Registry) (tag : Nat) : Option String :=
  (registry.rowOf? tag).map fun row => row.type.name

/-- The types with their tags, in the order of the tags. -/
def types (registry : Registry) : List (Nat × String) :=
  registry.rows.map fun row => (row.tag, row.type.name)

/-- How many types are registered. -/
def size (registry : Registry) : Nat := registry.tags.size

/-- The types in writing. -/
def text (registry : Registry) : String :=
  "\x7b" ++ ", ".intercalate (registry.types.map fun entry =>
    toString entry.1 ++ ": " ++ Text.quoted entry.2) ++ "\x7d"

/-- What an error calls the type of a value that came without one. -/
def anonymousType : String := "<dyn Any>"

/-- The row of a value's type. -/
def rowFor (registry : Registry) (any : AnyValue) : Except DispatchError RegistryRow := do
  let tag ← registry.tagOfAs any.type.name anonymousType
  registry.lookup tag

/-- The error of a row that is not that of a value's type. -/
def mismatch (registry : Registry) (row : RegistryRow) : DispatchError :=
  .typeMismatch ((registry.tags.tagOf? row.type.name).getD nullTag) row.type.name anonymousType

/-- A dispatch error as a failure. -/
def failing {α : Type} (result : Except DispatchError α) : Except Failure α :=
  result.mapError fun error => .wire (.dispatch error)

/-- A dispatch error as the end of a write. -/
def failingWrite {α : Type} (result : Except DispatchError α) : EStateM Failure Output α :=
  match result with
  | .ok value => pure value
  | .error error => throw (.wire (.dispatch error))

/-- A dispatch error as the end of a read. -/
def failingRead {α : Type} (result : Except DispatchError α) : Reader α :=
  match result with
  | .ok value => pure value
  | .error error => throw (.wire (.dispatch error))

/-! ## 3. Writing -/

/-- The size of a value of a named type behind its tag; a null needs no registered type. -/
def sizeOf (registry : Registry) (type : WireType) (value : Option Value) : Except Failure Nat := do
  match value with
  | none => pure 1
  | some value =>
    let _ ← failing (registry.tagOf type.name)
    pure (1 + type.codec.size value)

/-- Writes a value of a named type behind its tag. -/
def write (registry : Registry) (type : WireType) (value : Option Value) : Writer := do
  match value with
  | none => writeByte nullTag
  | some value =>
    let tag ← failingWrite (registry.tagOf type.name)
    writeByte tag
    type.codec.write value

/-- The bytes of a value of a named type behind its tag. -/
def encode (registry : Registry) (type : WireType) (value : Option Value) :
    Except Failure Buffer := do
  let size ← registry.sizeOf type value
  let written := Writer.run (registry.write type value) (List.replicate size 0) 0
  let _ ← written.outcome
  pure written.output.buffer

/-- The size of a value behind the tag of its type. -/
def sizeAny (registry : Registry) (any : Option AnyValue) : Except Failure Nat := do
  match any with
  | none => pure 1
  | some any =>
    let row ← failing (registry.rowFor any)
    if row.type.name = any.type.name then pure (1 + row.type.codec.size any.value)
    else throw (.wire (.dispatch (registry.mismatch row)))

/-- Writes a value behind the tag of its type. -/
def writeAny (registry : Registry) (any : Option AnyValue) : Writer := do
  match any with
  | none => writeByte nullTag
  | some any =>
    let row ← failingWrite (registry.rowFor any)
    let tag ← failingWrite (registry.tagOf row.type.name)
    writeByte tag
    if row.type.name = any.type.name then row.type.codec.write any.value
    else throw (.wire (.dispatch (registry.mismatch row)))

/-! ## 4. Reading -/

/-- Reads a value of the type that has a tag; the tag itself has been read. -/
def readByTag (registry : Registry) (tag : Nat) : Reader AnyValue := do
  let row ← failingRead (registry.lookup tag)
  let value ← row.type.codec.read
  pure ⟨row.type, value⟩

/-- Reads a tag and a value of its type. -/
def readAny (registry : Registry) : Reader (Option AnyValue) := do
  let tag ← readTag
  if tag = nullTag then pure none
  else
    let any ← registry.readByTag tag
    pure (some any)

/-- Reads a tag that has to be that of a named type, or that of null; says whether a value
follows. -/
def readTagFor (registry : Registry) (type : WireType) : Reader Bool := do
  let tag ← readTag
  if tag = nullTag then pure false
  else
    let row ← failingRead (registry.lookup tag)
    if row.type.name = type.name then pure true
    else throw (.wire (.dispatch (.typeMismatch tag type.name row.type.name)))

/-- Reads a tag and a value of a named type. -/
def read (registry : Registry) (type : WireType) : Reader (Option Value) := do
  if ← registry.readTagFor type then
    let value ← type.codec.read
    pure (some value)
  else pure none

/-- What reading into a pooled instance leaves. -/
structure Pooled where
  outcome : Except Failure (Option (Guard Value))
  cursor : Nat
  pool : ObjectPool Value

/-- Reads a tag and then over an instance from a pool. -/
def readPooled (registry : Registry) (type : WireType) (pool : ObjectPool Value) (buffer : Buffer)
    (cursor : Nat) : Pooled :=
  let tag := Reader.run (registry.readTagFor type) buffer cursor
  match tag.outcome with
  | .error failure => ⟨.error failure, tag.cursor, pool⟩
  | .ok false => ⟨.ok none, tag.cursor, pool⟩
  | .ok true =>
    let decoded := pool.decode type.codec buffer tag.cursor
    ⟨decoded.outcome.map some, decoded.cursor, decoded.pool⟩

end Registry

end Wireform
