import Wireform.Schema.Primitive
import Wireform.Schema.TypeRef.Parser

/-!
# What can be wrong with a schema

Errors of declarations, of their analysis, of tags and of generated names.  Each constructor is a
cause, and `SchemaError.message` its wording.  They arise before anything is generated.
-/
namespace Wireform.Schema

/-- Why a field's type has no encoding. -/
inductive TypeFault where
  | nestedOptional
  | nullableKey
  | floatKey (p : Primitive)
  /-- A map key of the kind called `label`. -/
  | compositeKey (label : String)
  deriving DecidableEq, Repr

/-- Why an enumeration has no encoding. -/
inductive EnumFault where
  | noVariants
  | repeatedVariant (name : String)
  | repeatedValue (value : Int)
  | valueTooWide (value : Int) (variant : String) (repr : IntRepr)
  deriving DecidableEq, Repr

/-- Why a name is refused. -/
inductive NameFault where
  | notIdentifier
  | reserved
  deriving DecidableEq, Repr

/-- An error of a schema. -/
inductive SchemaError where
  | reservedTag (typeName : String)
  | duplicateTag (tag : Nat) (typeName existing : String)
  | conflictingTag (typeName : String) (existing requested : Nat)
  | tooManyTypes (typeName : String)
  | duplicateType (name : String)
  | tooManyNullableFields (typeName : String)
  | nameCollision (typeName generated owner : String)
  | duplicateField (typeName field : String)
  | unsupportedType (typeName field : String) (type : TypeRef) (fault : TypeFault)
  | unknownType (typeName field referenced : String)
  | infinitelySized (typeName field : String)
  | invalidEnum (enumName : String) (fault : EnumFault)
  | invalidName (name : String) (fault : NameFault)
  | invalidTypeRef (input : String) (fault : TypeRefFault)
  deriving DecidableEq, Repr

/-- The name of the kind of an error. -/
def SchemaError.kind : SchemaError → String
  | .reservedTag _ => "ReservedTag"
  | .duplicateTag _ _ _ => "DuplicateTag"
  | .conflictingTag _ _ _ => "ConflictingTag"
  | .tooManyTypes _ => "TooManyTypes"
  | .duplicateType _ => "DuplicateType"
  | .tooManyNullableFields _ => "TooManyNullableFields"
  | .nameCollision _ _ _ => "NameCollision"
  | .duplicateField _ _ => "DuplicateField"
  | .unsupportedType _ _ _ _ => "UnsupportedType"
  | .unknownType _ _ _ => "UnknownType"
  | .infinitelySized _ _ => "InfinitelySized"
  | .invalidEnum _ _ => "InvalidEnum"
  | .invalidName _ _ => "InvalidName"
  | .invalidTypeRef _ _ => "InvalidTypeRef"

/-- The wording of a type fault. -/
def TypeFault.message : TypeFault → String
  | .nestedOptional => "nested optionals cannot be told apart on the wire"
  | .nullableKey => "map keys cannot be nullable"
  | .floatKey p => p.name ++ " map keys have no total equality"
  | .compositeKey label => "map keys must be primitives or enums, found " ++ label

/-- The wording of an enumeration's fault. -/
def EnumFault.message : EnumFault → String
  | .noVariants => "no variants"
  | .repeatedVariant name => s!"variant {name} is declared twice"
  | .repeatedValue value => s!"value {value} is used twice"
  | .valueTooWide value variant repr => s!"value {value} of {variant} does not fit in " ++ repr.name

/-- The wording of a name's fault. -/
def NameFault.message : NameFault → String
  | .notIdentifier => "expected an identifier"
  | .reserved => "shadows a type used by generated code"

/-- How many tags there are for types: `1` to `255`. -/
def maxTypes : Nat := 255

/-- How many nullable fields a structure may have. -/
def maxNullableFields : Nat := 65535

/-- The wording of an error. -/
def SchemaError.message : SchemaError → String
  | .reservedTag typeName => s!"Tag 0 is reserved for null and cannot be assigned to {typeName}"
  | .duplicateTag tag typeName existing =>
    s!"Tag {tag} requested by {typeName} is already assigned to {existing}"
  | .conflictingTag typeName existing requested =>
    s!"{typeName} is already registered with tag {existing}, "
      ++ s!"cannot re-register with tag {requested}"
  | .tooManyTypes typeName => s!"Cannot register {typeName}: all {maxTypes} tags are in use"
  | .duplicateType name => s!"Type {name} is declared more than once"
  | .tooManyNullableFields typeName =>
    s!"{typeName} has more than {maxNullableFields} nullable fields"
  | .nameCollision typeName generated owner =>
    s!"{typeName} would generate {generated}, which already belongs to {owner}"
  | .duplicateField typeName field => s!"Field {typeName}.{field} is declared more than once"
  | .unsupportedType typeName field type fault =>
    "Unsupported field type " ++ type.text ++ s!" for {typeName}.{field}: " ++ fault.message
  | .unknownType typeName field referenced =>
    s!"Field {typeName}.{field} references unknown type {referenced}"
  | .infinitelySized typeName field =>
    s!"{typeName} contains itself through non-nullable field {field} and has no finite encoding"
  | .invalidEnum enumName fault => s!"Enum {enumName} is invalid: " ++ fault.message
  | .invalidName name fault => "Invalid name " ++ Text.quoted name ++ ": " ++ fault.message
  | .invalidTypeRef input fault =>
    "Invalid type reference " ++ Text.quoted input ++ ": " ++ fault.message

end Wireform.Schema
