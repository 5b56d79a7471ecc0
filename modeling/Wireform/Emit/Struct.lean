import Wireform.Emit.Names
import Wireform.Emit.Types
import Wireform.Schema.Lowering

/-!
# The Rust module of a structure

One file per structure: the type itself, its encoder and its decoder.  Encoder and decoder have one
statement per step of the lowered codec.  A new value is read over the default one.
-/
namespace Wireform.Emit

open Schema (Step StructCode)

/-- The comment at the top of every file. -/
def fileHeader : List Code :=
  [.line ["// @generated by bitwire-gen from a type manifest."],
    .line ["// Existing files are kept on regeneration unless --force is given."]]

/-- The lines in front of every module with code. -/
def modulePrelude : List Code :=
  fileHeader ++
    ([.blank, .line ["#![allow(unused_imports)]"], .blank, .line ["use super::*;"]] : List Code)

/-- The head of the function that writes a value. -/
def serializeHead : List Piece :=
  ["fn serialize(&self, buf: &mut [u8], cursor: &mut usize) -> bitwire::Result<()>"]

/-- The head of the function that reads a new value. -/
def deserializeHead : List Piece :=
  ["fn deserialize(buf: &[u8], cursor: &mut usize) -> bitwire::Result<Self>"]

/-- The head of the function that reads over a value. -/
def overwriteHead : List Piece :=
  ["fn deserialize_in_place(&mut self, buf: &[u8], cursor: &mut usize) -> bitwire::Result<()>"]

/-- Lists of pieces with a separator between them. -/
def joinPieces (separator : String) : List (List Piece) → List Piece
  | [] => []
  | [last] => last
  | head :: rest => head ++ [.text separator] ++ joinPieces separator rest

/-- The definition of the type. -/
def structType (code : StructCode) : Code :=
  .plainBlock ["pub struct ", .ident code.name] (code.fields.map fun (name, kind, slot) =>
    .line ("pub " :: .ident (identOf name) :: enclose ": " (fieldType kind slot.isSome) ","))

/-- The constant that says which size all values have. -/
def fixedSizeConst (code : StructCode) : List Code :=
  let sizes := code.fields.map fun (_, kind, _) =>
    enclose "<" (kindType kind) " as bitwire::Encoder>::FIXED_SIZE"
  [.line (enclose "const FIXED_SIZE: Option<usize> = bitwire::sum_fixed_sizes(&["
      (joinPieces ", " sizes) "]);"),
    .blank]

/-- The body of the function that measures a value without a bitset. -/
def plainSizeBody (code : StructCode) : List Code :=
  let terms := code.fields.map fun (name, _, _) =>
    (["self.", .ident (identOf name), ".size()"] : List Piece)
  [.plainBlock ["if let Some(size) = Self::FIXED_SIZE"] [.line ["return size;"]],
    .line (if terms.isEmpty then ["0"] else joinPieces " + " terms)]

/-- The body of the function that measures a value with a bitset. -/
def nullableSizeBody (code : StructCode) : List Code :=
  ([.line ["let mut size = ", toString code.bitsetBytes, ";"]] : List Code)
    ++ (code.fields.map fun (name, _, slot) =>
      if slot.isSome then
        .plainBlock ["if let Some(value) = &self.", .ident (identOf name)]
          [.line ["size += value.size();"]]
      else .line ["size += self.", .ident (identOf name), ".size();"] : List Code)
    ++ ([.line ["size"]] : List Code)

/-- The statements that write a step. -/
def writeStep : Step → List Code
  | .bitset bytes slots =>
    [.line ["let mut bitset = NullBitset::<", toString bytes, ">::new();"]]
      ++ (slots.map fun (name, slot) =>
        .line ["bitset.set(", toString slot, ", self.", .ident (identOf name), ".is_none());"])
      ++ [.line ["bitset.write(buf, cursor)?;"]]
  | .field name _ (some _) =>
    [.plainBlock ["if let Some(value) = &self.", .ident (identOf name)]
      [.line ["value.serialize(buf, cursor)?;"]]]
  | .field name _ none => [.line ["self.", .ident (identOf name), ".serialize(buf, cursor)?;"]]

/-- The statements that read a step over the value. -/
def readStep : Step → List Code
  | .bitset bytes _ =>
    [.line ["let bitset = NullBitset::<", toString bytes, ">::read(buf, cursor)?;"]]
  | .field name _ (some slot) =>
    [.blockElse ["if bitset.is_null(", toString slot, ")"]
      [.line ["self.", .ident (identOf name), " = None;"]]
      [.line ["bitwire::deserialize_present_in_place(&mut self.", .ident (identOf name),
        ", buf, cursor)?;"]]]
  | .field name _ none =>
    [.line ["self.", .ident (identOf name), ".deserialize_in_place(buf, cursor)?;"]]

/-- The statements of all steps, and the result; a structure without steps names its arguments, so
that they count as used. -/
def stepsBody (statements : Step → List Code) (code : StructCode) : List Code :=
  code.steps.flatMap statements
    ++ (if code.steps.isEmpty then [.line ["let _ = (buf, cursor);"]] else [] : List Code)
    ++ ([.line ["Ok(())"]] : List Code)

/-- The encoder. -/
def structEncoder (code : StructCode) : Code :=
  .plainBlock ["impl bitwire::Encoder for ", .ident code.name] <|
    (if code.bitsetBytes = 0 then fixedSizeConst code else [])
      ++ ([.plainBlock ["fn size(&self) -> usize"]
            (if code.bitsetBytes = 0 then plainSizeBody code else nullableSizeBody code),
          .blank,
          .plainBlock serializeHead (stepsBody writeStep code)] : List Code)

/-- The decoder. -/
def structDecoder (code : StructCode) : Code :=
  .plainBlock ["impl bitwire::Decoder for ", .ident code.name]
    [.plainBlock deserializeHead
        [.line ["let mut value = Self::default();"],
          .line ["value.deserialize_in_place(buf, cursor)?;"],
          .line ["Ok(value)"]],
      .blank,
      .plainBlock overwriteHead (stepsBody readStep code)]

/-- The file of a structure. -/
def structModule (code : StructCode) : List Code :=
  modulePrelude ++
    [.line ["use bitwire::bitset::NullBitset;"],
      .line ["use bitwire::\x7bDecoder as _, Encoder as _\x7d;"],
      .blank,
      .doc s!"Dispatch tag {code.tag}.",
      .line ["#[derive(Debug, Clone, PartialEq, Default)]"],
      structType code,
      .blank,
      structEncoder code,
      .blank,
      structDecoder code]

end Wireform.Emit
