import Wireform.Schema.Declaration
import Wireform.Schema.Error

/-!
# The set of declared types

A schema is closed: a field may refer only to types that are declared in it.  `KnownTypes` holds,
for each declared name, what analysis has to know of it: the types of a structure's fields, or the
width of an enumeration.

Two graphs run between declared structures.  An edge leads from a structure to each type that one
of its fields holds directly, that is, not through a collection; the *inline* graph has only the
edges of non-nullable fields, the *direct* graph those of nullable fields too.
-/
namespace Wireform.Schema

/-- What a declared name refers to. -/
inductive KnownType where
  | struct (fields : List TypeRef)
  | enum (repr : IntRepr)
  deriving DecidableEq, Repr

/-- Declared types by name, in the order of their declaration. -/
structure KnownTypes where
  entries : List (String × KnownType)
  deriving DecidableEq, Repr

/-- Names that generated code uses unqualified, so that no declared type may have them. -/
def reservedTypeNames : List String :=
  ["Self", "Option", "Box", "Vec", "String", "Result", "AnyValue", "Registered"]

/-- Refuses a name that is no plain identifier. -/
def checkName (name : String) : Except SchemaError Unit :=
  if isIdentifier name then .ok () else .error (.invalidName name .notIdentifier)

namespace KnownTypes

/-- No type at all. -/
def empty : KnownTypes := ⟨[]⟩

/-- What a name refers to. -/
def get? (known : KnownTypes) (name : String) : Option KnownType := known.entries.lookup name

/-- How many types are known. -/
def size (known : KnownTypes) : Nat := known.entries.length

/-- What is remembered of a declaration. -/
def entryOf : TypeDecl → KnownType
  | .struct decl => .struct (decl.fields.map FieldDecl.type)
  | .enum decl => .enum decl.repr

/-- Adds a declaration, whose name must be an identifier, not reserved and not in use. -/
def insert (known : KnownTypes) (decl : TypeDecl) : Except SchemaError KnownTypes := do
  checkName decl.name
  if reservedTypeNames.contains decl.name then
    throw (.invalidName decl.name .reserved)
  if (Primitive.ofName? decl.name).isSome || (known.get? decl.name).isSome then
    throw (.duplicateType decl.name)
  pure ⟨known.entries ++ [(decl.name, entryOf decl)]⟩

/-- Collects declarations one by one. -/
def ofDecls (decls : List TypeDecl) : Except SchemaError KnownTypes :=
  decls.foldlM insert empty

/-- The name that a field's type holds directly; `throughNull` looks behind nullability. -/
def directTarget? (throughNull : Bool) : TypeRef → Option String
  | .named name => some name
  | .optional inner => if throughNull then directTarget? throughNull inner else none
  | _ => none

/-- The names to which edges lead from a declared name. -/
def targets (known : KnownTypes) (throughNull : Bool) (name : String) : List String :=
  match known.get? name with
  | some (.struct fields) => fields.filterMap (directTarget? throughNull)
  | _ => []

/-- Follows edges from the names in `pending`, each name once, until one leads to `goal`; `steps`
bounds how many names are taken up. -/
def search (known : KnownTypes) (throughNull : Bool) (goal : String) :
    (steps : Nat) → (pending seen : List String) → Bool
  | 0, _, _ => false
  | _ + 1, [], _ => false
  | steps + 1, name :: pending, seen =>
    if seen.contains name then search known throughNull goal steps pending seen
    else
      let next := known.targets throughNull name
      if next.contains goal then true
      else search known throughNull goal steps (next ++ pending) (name :: seen)

/-- How many edges there can be at most. -/
def fieldCount (known : KnownTypes) : Nat :=
  known.entries.foldr (fun entry total =>
    match entry.2 with
    | .struct fields => fields.length + total
    | .enum _ => total) 0

/-- Whether one or more edges lead from a name to another.  Each known name is expanded once, so no
more names are taken up than there are fields, and the first. -/
def reaches (known : KnownTypes) (source goal : String) (throughNull : Bool) : Bool :=
  known.search throughNull goal (known.fieldCount + 2) [source] []

end KnownTypes

end Wireform.Schema
