import Wireform.Derive.Attribute
import Wireform.Derive.Generics

/-!
# Items

What a derivation starts from: a structure, an enumeration or a union with its attributes, its
generic parameters and its fields or variants.
-/
namespace Wireform.Derive

/-- A field; one of a tuple has no name. -/
structure Field where
  name : Option String
  type : TypeExpr
  attributes : List Attribute

/-- The fields of a structure or of a variant. -/
inductive Fields where
  | named (fields : List Field)
  | tuple (fields : List Field)
  | unit

/-- The fields, in their order. -/
def Fields.toList : Fields → List Field
  | .named fields => fields
  | .tuple fields => fields
  | .unit => []

/-- A variant of an enumeration. -/
structure VariantItem where
  name : String
  fields : Fields

/-- What an item is. -/
inductive ItemKind where
  | struct (fields : Fields)
  | enum (variants : List VariantItem)
  | union

/-- An item; `conditions` is what has to hold for its parameters, from the word `where` on. -/
structure Item where
  name : String
  attributes : List Attribute
  generics : Generics
  conditions : List Token
  kind : ItemKind

/-- The parameters of an item where an implementation declares them. -/
def Item.implGenerics (item : Item) : List Token := item.generics.tokens GenericParam.declared

/-- The parameters of an item where its type is named. -/
def Item.typeGenerics (item : Item) : List Token := item.generics.tokens GenericParam.used

end Wireform.Derive
