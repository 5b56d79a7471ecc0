import Wireform.Codec.Enumeration
import Wireform.Schema.Plan

/-!
# Lowered codecs

A planned structure is lowered to the steps of its codec, in wire order: one step for the bitset,
if there is one, then one step per field.  This is what source text is emitted from, and what
`StructCode.codec` of the catalogue runs.
-/
namespace Wireform.Schema

/-- One step of a structure's codec. -/
inductive Step where
  /-- Writes or reads the bitset; `slots` are the nullable fields with their slots. -/
  | bitset (bytes : Nat) (slots : List (String × Nat))
  /-- Writes or reads a field; one with a slot is passed over when its bit is set. -/
  | field (name : String) (kind : Kind) (slot : Option Nat)
  deriving DecidableEq, Repr

/-- The codec of a structure, as steps. -/
structure StructCode where
  name : String
  tag : Nat
  steps : List Step
  fixedSize : Option Nat
  deriving DecidableEq, Repr

namespace StructCode

/-- Lowers a planned structure. -/
def ofSchema (schema : TypeSchema) : StructCode where
  name := schema.name
  tag := schema.tag
  steps :=
    (if 0 < schema.bitsetBytes then
      [.bitset schema.bitsetBytes
        (schema.fields.filterMap fun field => field.slot.map fun slot => (field.name, slot))]
    else []) ++ schema.fields.map fun field => .field field.name field.kind field.slot
  fixedSize := schema.fixedSize

/-- How many bytes the bitset takes. -/
def bitsetBytes (code : StructCode) : Nat :=
  (code.steps.findSome? fun
    | .bitset bytes _ => some bytes
    | .field _ _ _ => none).getD 0

/-- The fields: name, kind and slot. -/
def fields (code : StructCode) : List (String × Kind × Option Nat) :=
  code.steps.filterMap fun
    | .bitset _ _ => none
    | .field name kind slot => some (name, kind, slot)

end StructCode

end Wireform.Schema

/-- The enumeration that a declaration stands for. -/
def Wireform.Enumeration.ofDecl (decl : Wireform.Schema.EnumDecl) : Wireform.Enumeration :=
  ⟨decl.name, decl.repr, decl.variants.map fun v => ⟨v.name, v.value⟩⟩
