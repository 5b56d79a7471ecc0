import Wireform.Emit.Code
import Wireform.Schema.Plan

/-!
# Types in emitted Rust sources

The type that a generated structure gives a field: a leaf has a fixed spelling, a declared type its
name, lists are vectors, arrays boxed slices and maps hash maps.  A structure that leads back to its
holder is boxed.
-/
namespace Wireform.Emit

open Schema (Kind Primitive)

/-- The spelling of a leaf type. -/
def primitiveType : Primitive → String
  | .bool => "bool"
  | .u8 => "u8"
  | .i8 => "i8"
  | .u16 => "u16"
  | .i16 => "i16"
  | .u32 => "u32"
  | .i32 => "i32"
  | .u64 => "u64"
  | .i64 => "i64"
  | .u128 => "u128"
  | .i128 => "i128"
  | .f32 => "f32"
  | .f64 => "f64"
  | .char => "char"
  | .string => "String"
  | .duration => "std::time::Duration"
  | .uuid => "uuid::Uuid"
  | .ulid => "ulid::Ulid"
  | .decimal => "rust_decimal::Decimal"
  | .datetime => "chrono::DateTime<chrono::Utc>"

/-- A type between the spelling of its constructor and what closes it. -/
def enclose (before : String) (type : List Piece) (behind : String) : List Piece :=
  .text before :: (type ++ [.text behind])

/-- A type, made optional where it is nullable. -/
def optionType (nullable : Bool) (type : List Piece) : List Piece :=
  if nullable then enclose "Option<" type ">" else type

/-- The type of the values of a kind. -/
def kindType : Kind → List Piece
  | .primitive p => [primitiveType p]
  | .enum name _ => [.ident name]
  | .nested name recursive => if recursive then ["Box<", .ident name, ">"] else [.ident name]
  | .list element nullable => enclose "Vec<" (optionType nullable (kindType element)) ">"
  | .array element nullable => enclose "Box<[" (optionType nullable (kindType element)) "]>"
  | .map key value nullable =>
    enclose "std::collections::HashMap<"
      (kindType key ++ .text ", " :: optionType nullable (kindType value)) ">"

/-- The type of a field. -/
def fieldType (kind : Kind) (nullable : Bool) : List Piece :=
  optionType nullable (kindType kind)

end Wireform.Emit
