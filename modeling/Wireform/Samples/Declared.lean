import Wireform.Dispatch.Table
import Wireform.Catalogue
import Wireform.Samples.Decimals
import Wireform.Schema.Analysis

/-!
# A sample schema

Four declarations that use most of what a schema can say: optional, nested, recursive and collected
fields, an enumeration, and a structure that asks for its tag.  Their lowered codecs make up a
catalogue, whose names have a scope of their own, and a dispatch table.
-/
namespace Wireform.Samples

open Schema (EnumDecl FieldDecl KnownTypes Primitive SchemaError StructCode StructDecl TypeDecl
  TypeRef VariantDecl)

/-- A person with a bit of everything. -/
def personDecl : StructDecl where
  name := "Person"
  tag := none
  fields :=
    [⟨"id", .primitive .i32⟩,
      ⟨"name", .optional (.primitive .string)⟩,
      ⟨"position", .named "Vec3"⟩,
      ⟨"tags", .optional (.list (.optional (.primitive .string)))⟩,
      ⟨"scores", .map (.primitive .string) (.primitive .i32)⟩,
      ⟨"color", .named "Color"⟩,
      ⟨"type", .primitive .u8⟩,
      ⟨"readings", .array (.optional (.list (.primitive .u16)))⟩]

/-- A point. -/
def vec3Decl : StructDecl where
  name := "Vec3"
  tag := none
  fields := [⟨"x", .primitive .f32⟩, ⟨"y", .primitive .f32⟩, ⟨"z", .primitive .f32⟩]

/-- A list of nodes, each of which holds the next one. -/
def nodeDecl : StructDecl where
  name := "Node"
  tag := some 10
  fields := [⟨"value", .primitive .i32⟩, ⟨"next", .optional (.named "Node")⟩]

/-- Two colours. -/
def colorDecl : EnumDecl where
  name := "Color"
  repr := .u8
  variants := [⟨"Red", 1⟩, ⟨"Green", 2⟩]

/-- The schema. -/
def declarations : List TypeDecl :=
  [.struct personDecl, .struct vec3Decl, .struct nodeDecl, .enum colorDecl]

/-- The structures with the tags under which they are dispatched. -/
def taggedDecls : List (Nat × StructDecl) := [(1, personDecl), (2, vec3Decl), (10, nodeDecl)]

/-- What stands before the names of the schema in catalogues. -/
def scope : String := "gen."

/-- The lowered codec of a structure of the schema. -/
def lowered (tag : Nat) (decl : StructDecl) : Except SchemaError StructCode := do
  let known ← KnownTypes.ofDecls declarations
  let schema ← Schema.analyze decl known tag
  pure (.ofSchema schema)

/-- The lowered structures by their names in catalogues; one that is refused has no entry. -/
def loweredEntries : List (String × Definition) :=
  taggedDecls.filterMap fun (tag, decl) =>
    match lowered tag decl with
    | .ok code => some (scope ++ decl.name, .lowered scope code)
    | .error _ => none

/-- The schema's types by their names in catalogues. -/
def declaredEntries : List (String × Definition) :=
  loweredEntries ++ [(scope ++ colorDecl.name, .enumeration (.ofDecl colorDecl))]

/-- The schema's types. -/
def declared : Catalogue := ⟨declaredEntries⟩

/-- The dispatch table of the schema. -/
def table [DecimalForm] : DispatchTable :=
  ⟨taggedDecls.map fun (tag, decl) =>
    ⟨tag, decl.name, declared.shapeCodec (.named (scope ++ decl.name))⟩⟩

end Wireform.Samples
