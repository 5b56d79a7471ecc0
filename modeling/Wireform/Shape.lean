import Wireform.Codec.Enumeration
import Wireform.Codec.Mapping
import Wireform.Codec.Record
import Wireform.Codec.Shared
import Wireform.Schema.Primitive

/-!
# Shapes of types

A `Shape` is a type that has a codec: a leaf, a wrapper, a collection, or a named record or
enumeration.  What a name stands for is left open here: the functions below take the answer for
names as an argument, and the catalogue ties the knot.
-/
namespace Wireform

/-- Types without parts. -/
inductive Leaf where
  | primitive (p : Schema.Primitive)
  /-- An unsigned machine word, eight bytes on the wire. -/
  | usize
  /-- A signed machine word, eight bytes on the wire. -/
  | isize
  /-- A text that is kept inline when it is short. -/
  | smol
  deriving DecidableEq, Repr

/-- Types that have a codec. -/
inductive Shape where
  | leaf (leaf : Leaf)
  | option (inner : Shape)
  | boxed (inner : Shape)
  | shared (inner : Shape)
  | sequence (kind : SequenceKind) (element : Shape)
  | array (length : Nat) (element : Shape)
  | mapping (kind : MapKind) (key value : Shape)
  | named (name : String)
  deriving DecidableEq, Repr

/-- The codec of a primitive. -/
def Schema.Primitive.codec [DecimalForm] : Schema.Primitive → Codec Value
  | .bool => Codec.bool.lift Value.boolCase
  | .u8 => (Codec.int .u8).lift Value.intCase
  | .i8 => (Codec.int .i8).lift Value.intCase
  | .u16 => (Codec.int .u16).lift Value.intCase
  | .i16 => (Codec.int .i16).lift Value.intCase
  | .u32 => (Codec.int .u32).lift Value.intCase
  | .i32 => (Codec.int .i32).lift Value.intCase
  | .u64 => (Codec.int .u64).lift Value.intCase
  | .i64 => (Codec.int .i64).lift Value.intCase
  | .u128 => (Codec.int .u128).lift Value.intCase
  | .i128 => (Codec.int .i128).lift Value.intCase
  | .f32 => (Codec.bits 4).lift Value.bitsCase
  | .f64 => (Codec.bits 8).lift Value.bitsCase
  | .char => Codec.char.lift Value.charCase
  | .string => (Codec.text "String").lift Value.textCase
  | .duration => Codec.duration.lift Value.natCase
  | .uuid => (Codec.bits 16).lift Value.bitsCase
  | .ulid => (Codec.bits 16).lift Value.bitsCase
  | .decimal => Codec.decimal.lift Value.decimalCase
  | .datetime => Codec.instant.lift Value.intCase

namespace Leaf

/-- The codec of a leaf. -/
def codec [DecimalForm] : Leaf → Codec Value
  | .primitive p => p.codec
  | .usize => (Codec.int .u64).lift Value.intCase
  | .isize => (Codec.int .i64).lift Value.intCase
  | .smol => (Codec.text "SmolStr").lift Value.textCase

/-- The size of every value of a leaf. -/
def fixedSize : Leaf → Option Nat
  | .primitive p => p.fixedSize
  | .usize | .isize => some 8
  | .smol => none

/-- The value that a field of a leaf's type starts with. -/
def initial : Leaf → Value
  | .primitive .bool => .bool false
  | .primitive .char => .char (Char.ofNat 0)
  | .primitive .string | .smol => .text ""
  | .primitive .f32 | .primitive .f64 | .primitive .uuid | .primitive .ulid => .bits 0
  | .primitive .decimal => .decimal Decimal.zero
  | _ => .int 0

end Leaf

namespace Shape

/-- The codec of a shape, given those of the names. -/
def codec [DecimalForm] (sharing : Sharing Value) (named : String → Codec Value) :
    Shape → Codec Value
  | .leaf l => l.codec
  | .option inner => (inner.codec sharing named).option.lift Value.optionCase
  | .boxed inner => inner.codec sharing named
  | .shared inner => Codec.shared sharing (inner.codec sharing named)
  | .sequence kind element =>
    (Codec.sequence kind (element.codec sharing named)).lift Value.listCase
  | .array length element =>
    (Codec.array length (element.codec sharing named)).lift Value.listCase
  | .mapping kind key value =>
    (Codec.mapping kind (key.codec sharing named) (value.codec sharing named)).lift
      Value.entriesCase
  | .named name => named name

/-- The size of every value of a shape, if it has one, given those of the names. -/
def fixedSize (named : String → Option Nat) : Shape → Option Nat
  | .leaf l => l.fixedSize
  | .option _ => none
  | .boxed inner => inner.fixedSize named
  | .shared inner => inner.fixedSize named
  | .sequence _ _ => none
  | .array length element =>
    (element.fixedSize named).map fun size => lengthPrefixSize + length * size
  | .mapping _ _ _ => none
  | .named name => named name

/-- The value that a field of a shape starts with, given those of the names. -/
def initial (named : String → Value) : Shape → Value
  | .leaf l => l.initial
  | .option _ => .null
  | .boxed inner => inner.initial named
  | .shared inner => inner.initial named
  | .sequence _ _ => .list []
  | .array length element => .list (List.replicate length (element.initial named))
  | .mapping _ _ _ => .entries []
  | .named name => named name

end Shape

end Wireform
