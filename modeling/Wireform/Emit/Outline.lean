import Wireform.Emit.Types
import Wireform.Schema.Outline

/-!
# Outlines of structures

The outline of a planned or lowered structure tells the layout together with the types that its
fields have in emitted sources, where a field that may be null is given without its null.
-/
namespace Wireform.Schema

/-- The written type of a kind's values. -/
def Kind.typeText (kind : Kind) : String := Emit.lineText (Emit.kindType kind)

/-- The plan of a field. -/
def FieldPlan.outline (field : FieldPlan) : Json :=
  .object [("name", field.name), ("kind", field.kind.outline), ("nullable", field.isNullable),
    ("slot", .orNull Json.nat field.slot), ("rust_type", field.kind.typeText)]

/-- The plan of a structure, whose fields are shown as `fields`. -/
def TypeSchema.outlineWith (fields : Json) (schema : TypeSchema) : List (String × Json) :=
  [("name", schema.name), ("tag", schema.tag), ("fields", fields),
    ("nullable_fields", schema.nullableCount), ("bitset_bytes", schema.bitsetBytes),
    ("fixed_size", .orNull Json.nat schema.fixedSize)]

/-- The plan of a structure. -/
def TypeSchema.outline (schema : TypeSchema) : List (String × Json) :=
  schema.outlineWith (.list FieldPlan.outline schema.fields)

/-- The steps of a lowered structure, and its fields with their types and slots. -/
def StructCode.outline (code : StructCode) : List (String × Json) :=
  [("name", code.name), ("tag", code.tag), ("ops", .list Step.outline code.steps),
    ("fixed_size", .orNull Json.nat code.fixedSize), ("bitset_bytes", code.bitsetBytes),
    ("fields", .list
      (fun (name, kind, slot) =>
        .array [.text name, .text kind.typeText, .orNull Json.nat slot])
      code.fields)]

end Wireform.Schema
