import Wireform.Schema.TypeRef

/-!
# Declarations

A schema is a list of declarations.  A structure has fields in wire order and may ask for a
dispatch tag; an enumeration has variants with a value each and an integer width.
-/
namespace Wireform.Schema

/-- A field: its name and its type. -/
structure FieldDecl where
  name : String
  type : TypeRef
  deriving DecidableEq, Repr

/-- A structure. -/
structure StructDecl where
  name : String
  tag : Option Nat
  fields : List FieldDecl
  deriving DecidableEq, Repr

/-- A variant and its value. -/
structure VariantDecl where
  name : String
  value : Int
  deriving DecidableEq, Repr

/-- A fieldless enumeration. -/
structure EnumDecl where
  name : String
  repr : IntRepr
  variants : List VariantDecl
  deriving DecidableEq, Repr

/-- One entry of a schema. -/
inductive TypeDecl where
  | struct (decl : StructDecl)
  | enum (decl : EnumDecl)
  deriving DecidableEq, Repr

/-- The name of a declared type. -/
def TypeDecl.name : TypeDecl → String
  | .struct decl => decl.name
  | .enum decl => decl.name

/-- The structures among declarations. -/
def structures (decls : List TypeDecl) : List StructDecl :=
  decls.filterMap fun
    | .struct decl => some decl
    | .enum _ => none

end Wireform.Schema
