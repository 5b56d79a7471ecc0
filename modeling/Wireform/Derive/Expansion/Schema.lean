import Wireform.Derive.Expansion.Basic

/-!
# Deriving a declaration

The derived functions give the type reference of an item, which is its name, and its declaration:
the fields that are not skipped, with the tag that the structure asks for, or the variants.
-/
namespace Wireform.Derive

/-- A name that the declaration owns. -/
def ownedName (name : String) : List Token := literalOf name :: src ".to_owned()"

/-- The declaration of a field. -/
def fieldDeclaration (shape : FieldShape) : List Token :=
  src "bitwire::schema::FieldDecl::new(" ++ [literalOf shape.member.schemaName] ++ src ","
    ++ through shape.type.tokens (src "bitwire::schema::DescribeType") ++ src "type_ref(),)"

/-- The declaration of a structure. -/
def structDeclaration (name : String) (tag : Option Nat) (shapes : List FieldShape) : List Token :=
  src "bitwire::schema::TypeDecl::Struct(bitwire::schema::StructDecl"
    ++ braced (src "name:" ++ ownedName name ++ src ", tag:"
      ++ (match tag with
        | some tag => src "Some(" ++ [numeral tag "u8"] ++ src ")"
        | none => [.word "None"])
      ++ src ", fields: vec!"
      ++ bracketed
        (commaSeparated ((shapes.filter fun shape => !shape.skip).map fieldDeclaration))
      ++ src ",")
    ++ src ")"

/-- The declaration of a variant. -/
def variantDeclaration (name : String) : List Token :=
  src "bitwire::schema::VariantDecl"
    ++ braced (src "name:" ++ ownedName name ++ src ", value:" ++ selfVariant name
      ++ src "as i64,")

/-- The declaration of an enumeration. -/
def enumDeclaration (name : String) (repr : Schema.IntRepr) (variants : List String) :
    List Token :=
  src "bitwire::schema::TypeDecl::Enum(bitwire::schema::EnumDecl"
    ++ braced (src "name:" ++ ownedName name ++ src ", repr: bitwire::schema::IntRepr::"
      ++ [.word repr.name.toUpper]
      ++ src ", variants: vec!" ++ bracketed (commaSeparated (variants.map variantDeclaration))
      ++ src ",")
    ++ src ")"

/-- The two implementations that give the type reference and the declaration of an item. -/
def Item.describing (item : Item) (declaration : List Token) : List Token :=
  item.implementation (src "bitwire::schema::DescribeType")
      (src "fn type_ref() -> bitwire::schema::TypeRef"
        ++ braced (src "bitwire::schema::TypeRef::named(" ++ [literalOf item.name] ++ src ")"))
    ++ item.implementation (src "bitwire::schema::Describe")
      (src "fn describe() -> bitwire::schema::TypeDecl" ++ braced declaration)

/-- The implementations that describe an item. -/
def expandSchema (item : Item) : Except DeriveError (List Token) := do
  match item.kind with
  | .struct fields =>
    let tag ← containerTag item.attributes
    let shapes ← fieldShapes item.name fields
    pure (item.describing (structDeclaration item.name tag shapes))
  | .enum variants =>
    let names ← unitVariants item.name variants
    let repr ← enumRepr item.attributes
    pure (item.describing (enumDeclaration item.name repr names))
  | .union => throw (.unionItem .schema)

end Wireform.Derive
