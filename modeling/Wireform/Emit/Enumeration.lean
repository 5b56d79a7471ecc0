import Wireform.Codec.Enumeration
import Wireform.Emit.Struct

/-!
# The Rust module of an enumeration

One file per enumeration: the type, whose first variant is the default one; an encoder that casts
the variant to the width; and a decoder that matches the integer read against the variants' values.
-/
namespace Wireform.Emit

/-- The variants of the type; the first is marked as the default. -/
def variantLines : List Variant → List Code
  | [] => []
  | first :: rest =>
    .line ["#[default]"] :: (first :: rest).map fun v =>
      .line [.ident (identOf v.name), " = ", toString v.discriminant, ","]

/-- The match arms of the decoder. -/
def variantArms (e : Enumeration) : List Code :=
  (e.variants.map fun v =>
      .line [toString v.discriminant, " => Ok(Self::", .ident (identOf v.name), "),"] : List Code)
    ++ ([.line ["value => Err(bitwire::EnumDecodeError::UnknownDiscriminant \x7b"],
        .line ["    value: value as i64,"],
        .line ["    enum_name: \"", e.name, "\","],
        .line ["\x7d"],
        .line [".into()),"]] : List Code)

/-- The file of an enumeration. -/
def enumModule (e : Enumeration) : List Code :=
  let repr := e.repr.name
  let size := toString e.repr.size
  modulePrelude ++
    ([.blank,
      .line ["#[derive(Debug, Clone, Copy, PartialEq, Eq, Hash, PartialOrd, Ord, Default)]"],
      .line ["#[repr(", repr, ")]"],
      .plainBlock ["pub enum ", .ident e.name] (variantLines e.variants),
      .blank,
      .plainBlock ["impl bitwire::Encoder for ", .ident e.name]
        [.line ["const FIXED_SIZE: Option<usize> = Some(", size, ");"],
          .blank,
          .plainBlock ["fn size(&self) -> usize"] [.line [size]],
          .blank,
          .plainBlock serializeHead
            [.line ["bitwire::write_", repr, "(buf, cursor, *self as ", repr, ")"]]],
      .blank,
      .plainBlock ["impl bitwire::Decoder for ", .ident e.name]
        [.plainBlock deserializeHead
          [.plainBlock ["match bitwire::read_", repr, "(buf, cursor)?"] (variantArms e)]]] : List Code)

end Wireform.Emit
