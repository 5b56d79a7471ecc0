import Wireform.Catalogue
import Wireform.Schema.Declaration

/-!
# Types as declarations

A type with a codec can say how it would be written in a schema.  `Shape.typeRef?` is the type
reference of a shape: boxes and shared boxes are transparent, both kinds of lists are lists, and
boxed slices and fixed arrays are arrays.  Machine words have no reference, since their width
depends on the machine.

`Definition.declare?` is the declaration of a named type, under which it could be generated instead
of being defined: skipped fields are left out, and the value of a variant is what fits into a signed
eight-byte integer of its discriminant.
-/
namespace Wireform

open Schema (TypeRef FieldDecl TypeDecl VariantDecl)

/-- The type reference of a leaf. -/
def Leaf.typeRef? : Leaf → Option TypeRef
  | .primitive p => some (.primitive p)
  | .smol => some (.primitive .string)
  | .usize | .isize => none

/-- The type reference of a run of elements. -/
def SequenceKind.typeRef (element : TypeRef) : SequenceKind → TypeRef
  | .list | .deque => .list element
  | .slice => .array element

/-- The name under which a type is declared; the instances of a generic type share one. -/
def declaredName (name : String) : String :=
  String.ofList (name.toList.takeWhile fun c => c != '<')

/-- The type reference of a shape. -/
def Shape.typeRef? : Shape → Option TypeRef
  | .leaf l => l.typeRef?
  | .option inner => inner.typeRef?.map .optional
  | .boxed inner => inner.typeRef?
  | .shared inner => inner.typeRef?
  | .sequence kind element => element.typeRef?.map kind.typeRef
  | .array _ element => element.typeRef?.map .array
  | .mapping _ key value => do return .map (← key.typeRef?) (← value.typeRef?)
  | .named name => some (.named (declaredName name))

/-- Whether a field is part of its record's declaration. -/
def FieldDef.isDeclared (field : FieldDef) : Bool :=
  match field.type with
  | .skipped _ => false
  | _ => true

/-- The declaration of a field. -/
def FieldDef.declare? (field : FieldDef) : Option FieldDecl := do
  return ⟨field.name, ← field.type.shape.typeRef?⟩

/-- The value of a variant in a declaration. -/
def Variant.declare (v : Variant) : VariantDecl :=
  ⟨v.name, IntFormat.i64.wrap v.discriminant⟩

/-- The declaration of a definition under a name, with the tag that it asks for. -/
def Definition.declare? (name : String) (tag : Option Nat) : Definition → Option TypeDecl
  | .record fields => do
    return .struct ⟨name, tag, ← (fields.filter FieldDef.isDeclared).mapM FieldDef.declare?⟩
  | .enumeration e => some (.enum ⟨name, e.repr, e.variants.map Variant.declare⟩)
  | .lowered _ _ => none

end Wireform
