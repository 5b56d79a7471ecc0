import Wireform.NullBitset
import Wireform.Schema.Declaration

/-!
# Layout plans

The analysis of a structure turns every field's type into a `Kind`, which says how its values are
encoded, and gives every nullable field a bitset slot.  `Kind` has the shape of the type without
its outermost nullability; inside collections the nullability of the elements is part of the kind
(map keys are never nullable).
-/
namespace Wireform.Schema

/-- How values are encoded. -/
inductive Kind where
  | primitive (p : Primitive)
  | enum (name : String) (repr : IntRepr)
  /-- A structure held inline; `recursive` if it leads back to its holder through direct fields,
  so that the holder has to keep it behind an indirection. -/
  | nested (name : String) (recursive : Bool)
  | list (element : Kind) (nullable : Bool)
  | map (key value : Kind) (nullable : Bool)
  | array (element : Kind) (nullable : Bool)
  deriving DecidableEq, Repr

namespace Kind

/-- What a kind is called in messages. -/
def label : Kind → String
  | .primitive _ => "Primitive"
  | .enum _ _ => "Enum"
  | .nested _ _ => "NestedSerializable"
  | .list _ _ => "List"
  | .map _ _ _ => "Map"
  | .array _ _ => "Array"

/-- The encoded size, when it never depends on the value. -/
def fixedSize : Kind → Option Nat
  | .primitive p => p.fixedSize
  | .enum _ repr => some repr.size
  | _ => none

/-- Whether values hold a counted run of elements. -/
def isCollection : Kind → Bool
  | .list _ _ | .map _ _ _ | .array _ _ => true
  | _ => false

end Kind

/-- The plan of an element, a key, a value or a field's type: its kind, and whether it may be
null. -/
structure ElementPlan where
  kind : Kind
  nullable : Bool
  deriving DecidableEq, Repr

/-- The plan of a field; a nullable one has a bitset slot. -/
structure FieldPlan where
  name : String
  kind : Kind
  slot : Option Nat
  deriving DecidableEq, Repr

/-- Whether a field may be null. -/
def FieldPlan.isNullable (field : FieldPlan) : Bool := field.slot.isSome

/-- The layout of a structure, fields in wire order. -/
structure TypeSchema where
  name : String
  tag : Nat
  fields : List FieldPlan
  deriving DecidableEq, Repr

namespace TypeSchema

/-- The nullable fields, in wire order. -/
def nullableFields (schema : TypeSchema) : List FieldPlan :=
  schema.fields.filter FieldPlan.isNullable

/-- How many fields may be null. -/
def nullableCount (schema : TypeSchema) : Nat := schema.nullableFields.length

/-- How many bytes the bitset takes. -/
def bitsetBytes (schema : TypeSchema) : Nat := bitsetSize schema.nullableCount

/-- The sum of fixed sizes; `none` as soon as a field has none. -/
def sumSizes (fields : List FieldPlan) : Option Nat :=
  fields.foldlM (fun total field => do pure (total + (← field.kind.fixedSize))) 0

/-- The size of every value, when all fields are non-nullable primitives or enumerations of fixed
width; nested structures make it unknown. -/
def fixedSize (schema : TypeSchema) : Option Nat :=
  if schema.nullableCount = 0 then sumSizes schema.fields else none

/-- The field of a name. -/
def field? (schema : TypeSchema) (name : String) : Option FieldPlan :=
  schema.fields.find? fun field => field.name == name

end TypeSchema

end Wireform.Schema
