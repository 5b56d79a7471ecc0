import Wireform.Schema.Primitive

/-!
# Type references

A `TypeRef` is how a declaration writes the type of a field: a primitive, the name of a declared
type, a collection of element types, or a nullable form of one of these.  `TypeRef.text` is its
written form; `TypeRef.parse` of the module beside this one reads it.
-/
namespace Wireform.Schema

/-- A reference to a type. -/
inductive TypeRef where
  | primitive (p : Primitive)
  | named (name : String)
  | list (element : TypeRef)
  | map (key value : TypeRef)
  | array (element : TypeRef)
  | optional (inner : TypeRef)
  deriving DecidableEq, Repr

namespace TypeRef

/-- Whether the outermost form is the nullable one. -/
def isOptional : TypeRef → Bool
  | .optional _ => true
  | _ => false

/-- The written form. -/
def text : TypeRef → String
  | .primitive p => p.name
  | .named name => name
  | .list element => "list<" ++ element.text ++ ">"
  | .map key value => "map<" ++ key.text ++ ", " ++ value.text ++ ">"
  | .array element => "array<" ++ element.text ++ ">"
  | .optional inner => inner.text ++ "?"

end TypeRef

/-- Whether a character may stand inside an identifier. -/
def isIdentChar (c : Char) : Bool := c.isAlphanum || c == '_'

/-- Whether a character may start an identifier. -/
def isIdentStart (c : Char) : Bool := c.isAlpha || c == '_'

/-- Whether a name is a plain identifier: ASCII letters, digits and underscores, the first not a
digit. -/
def isIdentifier (name : String) : Bool :=
  match name.toList with
  | [] => false
  | c :: rest => isIdentStart c && rest.all isIdentChar

end Wireform.Schema
