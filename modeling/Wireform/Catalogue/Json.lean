import Wireform.Catalogue
import Wireform.Json.Members
import Wireform.Text.Digits
import Wireform.Text.Hex

/-!
# Values as JSON

The form of a value depends on its shape.

* Integers of up to four bytes and characters are numbers; wider integers, durations and instants
  are decimal texts, so that no reader rounds them.
* Bit patterns are hexadecimal texts, with all of their digits.
* A present value is an array that holds it, so that a null inside it can be told from null.
* A map is an array of pairs; pairs that are read are inserted one after the other.
* A record is an object of all its fields, skipped ones included; a raw identifier goes without its
  mark, and a position without its underscore.
* A variant is its name.

What names stand for is left open in the functions on shapes, and the catalogue ties the knot, as it
does for codecs.
-/
namespace Wireform

open Schema (Primitive)

/-! ## 1. Leaves -/

/-- Reads an integer from a decimal text. -/
def Value.ofDecimalText? (json : Json) : Option Value := do
  return .int (← Text.intOf? (← json.text?))

/-- Reads a decimal; zero has no sign. -/
def Decimal.ofJson? (json : Json) : Option Decimal := do
  let mantissa := (← Text.intOf? (← json.textAt? "mantissa")).toNat
  let scale ← json.natAt? "scale"
  let negative ← json.boolAt? "neg"
  if h : scale ≤ 28 ∧ mantissa < Nat.pow 256 12 then
    some ⟨negative && mantissa != 0, scale, mantissa, h.1, h.2⟩
  else none

/-- A decimal as JSON. -/
def Decimal.toJson (d : Decimal) : Json :=
  .object [("neg", d.negative), ("scale", d.scale), ("mantissa", toString d.mantissa)]

/-- Reads a value of a primitive. -/
def Schema.Primitive.ofJson? (p : Primitive) (json : Json) : Option Value :=
  match p with
  | .bool => json.bool?.map .bool
  | .u8 | .i8 | .u16 | .i16 | .u32 | .i32 => json.int?.map .int
  | .u64 | .i64 | .u128 | .i128 | .duration | .datetime => Value.ofDecimalText? json
  | .f32 | .f64 | .uuid | .ulid => do return .bits (← Text.ofHex? (← json.text?))
  | .char => json.nat?.map fun n => .char (Char.ofNat n)
  | .string => json.text?.map .text
  | .decimal => (Decimal.ofJson? json).map .decimal

/-- A value of a primitive as JSON. -/
def Schema.Primitive.toJson? (p : Primitive) (value : Value) : Option Json :=
  match p, value with
  | .bool, .bool b => some b
  | .u8, .int n | .i8, .int n | .u16, .int n | .i16, .int n | .u32, .int n | .i32, .int n =>
    some (.int n)
  | .u64, .int n | .i64, .int n | .u128, .int n | .i128, .int n | .duration, .int n
  | .datetime, .int n => some (toString n)
  | .f32, .bits n => some (Text.hexPadded 8 n)
  | .f64, .bits n => some (Text.hexPadded 16 n)
  | .uuid, .bits n | .ulid, .bits n => some (Text.hexPadded 32 n)
  | .char, .char c => some c.toNat
  | .string, .text s => some s
  | .decimal, .decimal d => some d.toJson
  | _, _ => none

/-- Reads a value of a leaf. -/
def Leaf.ofJson? (leaf : Leaf) (json : Json) : Option Value :=
  match leaf with
  | .primitive p => p.ofJson? json
  | .usize | .isize => Value.ofDecimalText? json
  | .smol => json.text?.map .text

/-- A value of a leaf as JSON. -/
def Leaf.toJson? (leaf : Leaf) (value : Value) : Option Json :=
  match leaf, value with
  | .primitive p, value => p.toJson? value
  | .usize, .int n | .isize, .int n => some (toString n)
  | .smol, .text s => some s
  | _, _ => none

/-! ## 2. Shapes -/

namespace Shape

/-- Reads a value of a shape, given how values of the names are read. -/
def ofJson? (named : String → Json → Option Value) : Shape → Json → Option Value
  | .leaf l, json => l.ofJson? json
  | .option _, .null => some .null
  | .option inner, .array [json] => (inner.ofJson? named json).map .present
  | .option _, _ => none
  | .boxed inner, json => inner.ofJson? named json
  | .shared inner, json => inner.ofJson? named json
  | .sequence _ element, json => (json.listOf? (element.ofJson? named)).map .list
  | .array _ element, json => (json.listOf? (element.ofJson? named)).map .list
  | .mapping kind key value, json => do
    let pairs ← json.listOf? fun
      | .array [k, v] => do return (← key.ofJson? named k, ← value.ofJson? named v)
      | _ => none
    return .entries (kind.ofPairs pairs)
  | .named name, json => named name json

/-- A value of a shape as JSON, given the forms of the names' values. -/
def toJson? (named : String → Value → Option Json) : Shape → Value → Option Json
  | .leaf l, value => l.toJson? value
  | .option _, .null => some .null
  | .option inner, .present value => do return .array [← inner.toJson? named value]
  | .boxed inner, value => inner.toJson? named value
  | .shared inner, value => inner.toJson? named value
  | .sequence _ element, .list items => (items.mapM (element.toJson? named)).map .array
  | .array _ element, .list items => (items.mapM (element.toJson? named)).map .array
  | .mapping _ key value, .entries entries => do
    return .array (← entries.mapM fun (k, v) => do
      return .array [← key.toJson? named k, ← value.toJson? named v])
  | .named name, value => named name value
  | _, _ => none

end Shape

/-! ## 3. Names -/

/-- The member of a field: its name without the marks that only the source of a type needs. -/
def memberName (field : String) : String :=
  match field.toList with
  | 'r' :: '#' :: rest => String.ofList rest
  | '_' :: rest => if rest.all Char.isDigit then String.ofList rest else field
  | _ => field

namespace Definition

/-- The fields of a record with their shapes. -/
def shapes : Definition → List (String × Shape)
  | .record fields => fields.map fun field => (field.name, field.type.shape)
  | .lowered scope code =>
    code.fields.map fun (name, kind, slot) => (name, fieldShape scope kind slot)
  | .enumeration _ => []

/-- Reads a value of a definition, given how values of the shapes in it are read. -/
def ofJson? (read : Shape → Json → Option Value) (definition : Definition) (json : Json) :
    Option Value :=
  match definition with
  | .enumeration e => do
    let name ← json.text?
    let v ← e.variants.find? fun v => v.name == name
    return .variant v.discriminant
  | definition => do
    return .record (← definition.shapes.mapM fun (name, shape) => do
      read shape (← json.at? (memberName name)))

/-- A value of a definition as JSON, given the forms of the values of the shapes in it. -/
def toJson? (form : Shape → Value → Option Json) (definition : Definition) (value : Value) :
    Option Json :=
  match definition, value with
  | .enumeration e, .variant n => do
    let v ← e.variants.find? fun v => v.discriminant == n
    return v.name
  | definition, .record values => do
    return .object (← (definition.shapes.zip values).mapM fun ((name, shape), value) => do
      return (memberName name, ← form shape value))
  | _, _ => none

end Definition

namespace Catalogue

/-- Reads a value of a name, nested at most `nestings` deep. -/
def nameOfJson? (catalogue : Catalogue) : (nestings : Nat) → String → Json → Option Value
  | 0, _, _ => none
  | nestings + 1, name, json => do
    (← catalogue.get? name).ofJson? (Shape.ofJson? (catalogue.nameOfJson? nestings)) json

/-- A value of a name as JSON, nested at most `nestings` deep. -/
def nameToJson? (catalogue : Catalogue) : (nestings : Nat) → String → Value → Option Json
  | 0, _, _ => none
  | nestings + 1, name, value => do
    (← catalogue.get? name).toJson? (Shape.toJson? (catalogue.nameToJson? nestings)) value

/-- More nestings than any value in memory has. -/
def nestingLimit : Nat := 4611686018427387904

/-- Reads a value of a shape. -/
def ofJson? (catalogue : Catalogue) (shape : Shape) (json : Json) : Option Value :=
  shape.ofJson? (catalogue.nameOfJson? nestingLimit) json

/-- A value of a shape as JSON. -/
def toJson? (catalogue : Catalogue) (shape : Shape) (value : Value) : Option Json :=
  shape.toJson? (catalogue.nameToJson? nestingLimit) value

end Catalogue

end Wireform
