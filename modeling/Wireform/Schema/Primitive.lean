import Wireform.Bytes.LittleEndian

/-!
# Leaf types

The twenty primitives have a built-in encoding and a name of their own in type references; an
`IntRepr` is one of the eight integer widths that an enumeration may be encoded in.
-/
namespace Wireform.Schema

/-- Leaf types with a built-in encoding. -/
inductive Primitive where
  | bool | u8 | i8 | u16 | i16 | u32 | i32 | u64 | i64 | u128 | i128 | f32 | f64 | char | string
  | duration | uuid | ulid | decimal | datetime
  deriving DecidableEq, Repr

namespace Primitive

/-- Every primitive. -/
def all : List Primitive :=
  [.bool, .u8, .i8, .u16, .i16, .u32, .i32, .u64, .i64, .u128, .i128, .f32, .f64, .char, .string,
    .duration, .uuid, .ulid, .decimal, .datetime]

/-- The name of a primitive in type references. -/
def name : Primitive → String
  | .bool => "bool"
  | .u8 => "u8"
  | .i8 => "i8"
  | .u16 => "u16"
  | .i16 => "i16"
  | .u32 => "u32"
  | .i32 => "i32"
  | .u64 => "u64"
  | .i64 => "i64"
  | .u128 => "u128"
  | .i128 => "i128"
  | .f32 => "f32"
  | .f64 => "f64"
  | .char => "char"
  | .string => "string"
  | .duration => "duration"
  | .uuid => "uuid"
  | .ulid => "ulid"
  | .decimal => "decimal"
  | .datetime => "datetime"

/-- The primitive of a name. -/
def ofName? (name : String) : Option Primitive :=
  all.find? fun p => p.name == name

/-- How many bytes every value takes; a string has no such size. -/
def fixedSize : Primitive → Option Nat
  | .bool | .u8 | .i8 => some 1
  | .u16 | .i16 => some 2
  | .u32 | .i32 | .f32 | .char => some 4
  | .u64 | .i64 | .f64 | .duration | .datetime => some 8
  | .u128 | .i128 | .uuid | .ulid | .decimal => some 16
  | .string => none

/-- Whether the primitive is a floating-point number, which has no total equality. -/
def isFloat (p : Primitive) : Bool := p == .f32 || p == .f64

end Primitive

/-- The integer width of an enumeration. -/
inductive IntRepr where
  | u8 | i8 | u16 | i16 | u32 | i32 | u64 | i64
  deriving DecidableEq, Repr

namespace IntRepr

/-- The width of an enumeration that names none. -/
def default : IntRepr := .i32

/-- Every width. -/
def all : List IntRepr := [.u8, .i8, .u16, .i16, .u32, .i32, .u64, .i64]

/-- The name of a width. -/
def name : IntRepr → String
  | .u8 => "u8"
  | .i8 => "i8"
  | .u16 => "u16"
  | .i16 => "i16"
  | .u32 => "u32"
  | .i32 => "i32"
  | .u64 => "u64"
  | .i64 => "i64"

/-- The width of a name. -/
def ofName? (name : String) : Option IntRepr :=
  all.find? fun r => r.name == name

/-- The integers of a width. -/
def format : IntRepr → IntFormat
  | .u8 => .u8
  | .i8 => .i8
  | .u16 => .u16
  | .i16 => .i16
  | .u32 => .u32
  | .i32 => .i32
  | .u64 => .u64
  | .i64 => .i64

/-- How many bytes a value takes. -/
def size (repr : IntRepr) : Nat := repr.format.width

/-- Whether an integer is representable at the width. -/
def contains (repr : IntRepr) (n : Int) : Bool := repr.format.contains n

end IntRepr

end Wireform.Schema
