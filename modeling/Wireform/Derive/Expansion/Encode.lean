import Wireform.Derive.Expansion.Basic

/-!
# Deriving an encoder

The encoder of a structure has the sum of its fields' fixed sizes as its own, if no field is
nullable; it measures and writes a bitset and then the fields that are not skipped.  The encoder of
an enumeration writes the discriminant at the enumeration's width.
-/
namespace Wireform.Derive

/-- The constant of the fixed size. -/
def fixedSizeItem (wired : List FieldShape) : List Token :=
  src "const FIXED_SIZE: Option<usize> = bitwire::sum_fixed_sizes(&"
    ++ bracketed (commaSeparated (wired.map fun shape =>
      through shape.type.tokens encoderTrait ++ [.word "FIXED_SIZE"]))
    ++ src ");"

/-- The statement that adds the size of a field. -/
def sizeTerm (shape : FieldShape) : List Token :=
  if shape.isNullable then
    src "if let Some(value) = &" ++ shape.ofSelf
      ++ braced (src "size += bitwire::Encoder::size(value);")
  else src "size += bitwire::Encoder::size(&" ++ shape.ofSelf ++ src ");"

/-- The statement that answers with the fixed size, if there is one. -/
def sizeShortcut : List Token :=
  src "if let Some(size) = <Self as bitwire::Encoder>::FIXED_SIZE" ++ braced (src "return size;")

/-- The statement that records whether a field is null. -/
def markStatement (shape : FieldShape) : List Token :=
  match shape.slot with
  | some slot =>
    src "bitset.set(" ++ [slotToken slot] ++ src "," ++ shape.ofSelf ++ src ".is_none());"
  | none => []

/-- The statements that write the bitset. -/
def bitsetWrite (bytes : Nat) (wired : List FieldShape) : List Token :=
  src "let mut bitset =" ++ bitsetType bytes ++ src "::new();" ++ wired.flatMap markStatement
    ++ src "bitset.write(buf, cursor)?;"

/-- The statement that writes a field. -/
def writeStatement (shape : FieldShape) : List Token :=
  if shape.isNullable then
    src "if let Some(value) = &" ++ shape.ofSelf
      ++ braced (src "bitwire::Encoder::serialize(value, buf, cursor)?;")
  else src "bitwire::Encoder::serialize(&" ++ shape.ofSelf ++ src ", buf, cursor)?;"

/-- The head of the function that writes. -/
def serializeHead : List Token :=
  src "fn serialize(&self, buf: &mut [u8], cursor: &mut usize) -> bitwire::Result<()>"

/-- The encoder of a structure. -/
def encodeStruct (shapes : List FieldShape) : List Token :=
  let bytes := shapesBitsetBytes shapes
  let wired := shapes.filter fun shape => !shape.skip
  (if bytes = 0 then fixedSizeItem wired else [])
    ++ src "fn size(&self) -> usize"
    ++ braced ((if bytes = 0 then sizeShortcut else [])
      ++ src "#[allow(unused_mut)] let mut size: usize =" ++ [numeral bytes "usize"] ++ src ";"
      ++ wired.flatMap sizeTerm ++ [.word "size"])
    ++ serializeHead
    ++ braced (touchParameters ++ (if bytes = 0 then [] else bitsetWrite bytes wired)
      ++ wired.flatMap writeStatement ++ src "Ok(())")

/-- The encoder of an enumeration. -/
def encodeEnum (repr : Token) (variants : List String) : List Token :=
  src "const FIXED_SIZE: Option<usize> =" ++ through [repr] encoderTrait ++ src "FIXED_SIZE;"
    ++ src "fn size(&self) -> usize"
    ++ braced (src "::core::mem::size_of::" ++ angled [repr] ++ src "()")
    ++ serializeHead
    ++ braced (src "let value:" ++ [repr] ++ src "= match self"
      ++ braced (variants.flatMap fun name =>
        selfVariant name ++ src "=>" ++ selfVariant name ++ src "as" ++ [repr] ++ src ",")
      ++ src "; bitwire::Encoder::serialize(&value, buf, cursor)")

/-- The implementation of the encoder of an item. -/
def expandEncode (item : Item) : Except DeriveError (List Token) := do
  match item.kind with
  | .struct fields =>
    let shapes ← fieldShapes item.name fields
    pure (item.implementation encoderTrait (encodeStruct shapes))
  | .enum variants =>
    let names ← unitVariants item.name variants
    let repr ← enumRepr item.attributes
    pure (item.implementation encoderTrait (encodeEnum (.word repr.name) names))
  | .union => throw (.unionItem .encode)

end Wireform.Derive
