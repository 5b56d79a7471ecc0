import Wireform.Json.Members
import Wireform.Schema.Known
import Wireform.Schema.Lowering

/-!
# Outlines

The outline of a type reference, of a plan or of a lowered step is its structure as JSON, for tools
that want to look at it without parsing what is written.  A form with parts is an object with one
member, named for the form.
-/
namespace Wireform.Schema

namespace TypeRef

/-- The structure of a type reference. -/
def outline : TypeRef → Json
  | .primitive p => .object [("prim", p.name)]
  | .named name => .object [("named", name)]
  | .list element => .object [("list", element.outline)]
  | .array element => .object [("array", element.outline)]
  | .map key value => .object [("map", .array [key.outline, value.outline])]
  | .optional inner => .object [("optional", inner.outline)]

/-- The type reference of a structure of at most `height` levels. -/
def ofOutlineTo? : (height : Nat) → Json → Option TypeRef
  | height + 1, .object [(form, part)] => do
    match form, part with
    | "prim", .text name => return .primitive (← Primitive.ofName? name)
    | "named", .text name => return .named name
    | "list", part => return .list (← ofOutlineTo? height part)
    | "array", part => return .array (← ofOutlineTo? height part)
    | "map", .array [key, value] =>
      return .map (← ofOutlineTo? height key) (← ofOutlineTo? height value)
    | "optional", part => return .optional (← ofOutlineTo? height part)
    | _, _ => none
  | _, _ => none

/-- The type reference of a structure. -/
def ofOutline? (json : Json) : Option TypeRef := ofOutlineTo? json.height json

end TypeRef

/-- What is known of a name. -/
def KnownType.outline : KnownType → Json
  | .enum repr => .object [("enum", repr.name)]
  | .struct fields => .object [("struct", .list (fun type => type.text) fields)]

/-- An enumeration: its name, its width, and its variants with their values as texts. -/
def outlineOfEnum (e : Enumeration) : List (String × Json) :=
  [("name", e.name), ("repr", e.repr.name),
    ("variants", .list (fun v => .array [v.name, toString v.discriminant]) e.variants)]

/-- An element of a kind, and whether it may be null. -/
def outlineOfElement (kind : Json) (nullable : Bool) : Json :=
  .object [("kind", kind), ("nullable", nullable)]

/-- A kind: what every kind has, and then its parts. -/
def Kind.outline (kind : Kind) : Json :=
  let parts : List (String × Json) :=
    match kind with
    | .primitive p => [("primitive", p.name)]
    | .enum name repr => [("name", name), ("repr", repr.name)]
    | .nested name recursive => [("name", name), ("recursive", recursive)]
    | .list element nullable => [("element", outlineOfElement element.outline nullable)]
    | .array element nullable => [("element", outlineOfElement element.outline nullable)]
    | .map key value nullable =>
      [("key", outlineOfElement key.outline false),
        ("value", outlineOfElement value.outline nullable)]
  .object ([("label", .text kind.label), ("fixed_size", .orNull Json.nat kind.fixedSize),
    ("collection", .bool kind.isCollection)] ++ parts)

/-- A step of a lowered structure. -/
def Step.outline : Step → Json
  | .bitset bytes slots =>
    .object [("bitset", bytes),
      ("slots", .list (fun entry => .array [.text entry.1, .nat entry.2]) slots)]
  | .field name kind slot =>
    .object [("field", name), ("label", kind.label), ("slot", .orNull Json.nat slot)]

end Wireform.Schema
