import Wireform.Derive.Expansion.Basic

/-!
# Deriving a decoder

The decoder of a structure reads the bitset and then the fields, once into a new value and once over
an existing one; a skipped field gets its default.  The decoder of an enumeration compares the
integer that it reads with the discriminants, one after the other.
-/
namespace Wireform.Derive

/-- The statement that reads the bitset. -/
def bitsetRead (bytes : Nat) : List Token :=
  if bytes = 0 then []
  else src "let bitset =" ++ bitsetType bytes ++ src "::read(buf, cursor)?;"

/-- The default value of a type that is known from its place. -/
def defaultValue : List Token := src "::core::default::Default::default()"

/-- The read of a value of a type. -/
def readExpression (type : TypeExpr) : List Token :=
  through type.tokens decoderTrait ++ src "deserialize(buf, cursor)?"

/-- The test whether a slot is null. -/
def nullTest (slot : Nat) : List Token :=
  src "if bitset.is_null(" ++ [slotToken slot] ++ src ")"

/-- The value of a field of a new structure. -/
def fieldValue (shape : FieldShape) : List Token :=
  if shape.skip then defaultValue
  else
    match shape.slot, optionInner? shape.type with
    | some slot, some inner =>
      nullTest slot ++ braced [.word "None"] ++ .word "else"
        :: braced (src "Some(" ++ readExpression inner ++ src ")")
    | _, _ => readExpression shape.type

/-- The new structure. -/
def construction (fields : Fields) (shapes : List FieldShape) : List Token :=
  match fields with
  | .named _ =>
    .word "Self" :: braced (commaTerminated (shapes.map fun shape =>
      shape.member.token :: .mark ':' :: fieldValue shape))
  | .tuple _ => .word "Self" :: parenthesized (commaTerminated (shapes.map fieldValue))
  | .unit => [.word "Self"]

/-- The statement that reads over a field. -/
def overwriteStatement (shape : FieldShape) : List Token :=
  if shape.skip then shape.ofSelf ++ src "=" ++ defaultValue ++ src ";"
  else
    match shape.slot with
    | some slot =>
      nullTest slot ++ braced (shape.ofSelf ++ src "= None;") ++ .word "else"
        :: braced (src "bitwire::deserialize_present_in_place(&mut" ++ shape.ofSelf
          ++ src ", buf, cursor)?;")
    | none =>
      src "bitwire::Decoder::deserialize_in_place(&mut" ++ shape.ofSelf ++ src ", buf, cursor)?;"

/-- The head of the function that reads a new value. -/
def deserializeHead : List Token :=
  src "fn deserialize(buf: &[u8], cursor: &mut usize) -> bitwire::Result<Self>"

/-- The decoder of a structure. -/
def decodeStruct (fields : Fields) (shapes : List FieldShape) : List Token :=
  let bytes := shapesBitsetBytes shapes
  deserializeHead
    ++ braced (touchParameters ++ bitsetRead bytes
      ++ src "Ok(" ++ construction fields shapes ++ src ")")
    ++ src "fn deserialize_in_place(&mut self, buf: &[u8], cursor: &mut usize)"
    ++ src "-> bitwire::Result<()>"
    ++ braced (touchParameters ++ bitsetRead bytes ++ shapes.flatMap overwriteStatement
      ++ src "Ok(())")

/-- The decoder of an enumeration. -/
def decodeEnum (enumName : String) (repr : Token) (variants : List String) : List Token :=
  deserializeHead
    ++ braced (src "let value =" ++ through [repr] decoderTrait
      ++ src "deserialize(buf, cursor)?;"
      ++ (variants.flatMap fun name =>
        src "if value ==" ++ selfVariant name ++ src "as" ++ [repr]
          ++ braced (src "return Ok(" ++ selfVariant name ++ src ");"))
      ++ src "Err(bitwire::EnumDecodeError::UnknownDiscriminant"
      ++ braced (src "value: value as i64, enum_name:" ++ [literalOf enumName] ++ src ",")
      ++ src ".into())")

/-- The implementation of the decoder of an item. -/
def expandDecode (item : Item) : Except DeriveError (List Token) := do
  match item.kind with
  | .struct fields =>
    let shapes ← fieldShapes item.name fields
    pure (item.implementation decoderTrait (decodeStruct fields shapes))
  | .enum variants =>
    let names ← unitVariants item.name variants
    let repr ← enumRepr item.attributes
    pure (item.implementation decoderTrait (decodeEnum item.name (.word repr.name) names))
  | .union => throw (.unionItem .decode)

end Wireform.Derive
