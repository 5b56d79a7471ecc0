import Wireform.Emit.Struct

/-!
# The Rust modules shared by all types

Two files stand beside those of the types.  The *dispatch table* has a tag constant for every
structure, a type that holds a value of any of them, and the functions that write and read tagged
values.  The *listing* declares and re-exports the module of every type and lists the structures
with their tags.
-/
namespace Wireform.Emit

/-- A structure of the dispatch table. -/
structure TableEntry where
  tag : Nat
  name : String
  deriving DecidableEq, Repr

/-- The structures in the order of their tags, and the names of the enumerations, which only have
modules. -/
structure Table where
  entries : List TableEntry
  enums : List String
  deriving DecidableEq, Repr

/-- The tag constant of an entry. -/
def TableEntry.const (entry : TableEntry) : Piece := .ident (tagConst entry.name)

/-- The entry's type, or its variant of the type of any value. -/
def TableEntry.ident (entry : TableEntry) : Piece := .ident entry.name

/-- A name as a text literal. -/
def TableEntry.literal (entry : TableEntry) : Piece := "\"" ++ entry.name ++ "\""

/-- A match on a value of any type; without types there is nothing to match. -/
def matchAny (table : Table) (arm : TableEntry → List Piece) : List Code :=
  if table.entries.isEmpty then [.line ["match *self \x7b\x7d"]]
  else [.plainBlock ["match self"] (table.entries.map fun entry => .line (arm entry))]

/-- The type of any value, with its tag and its type's name. -/
def anyValueType (table : Table) : List Code :=
  [.doc "A value of any registered type.",
    .line ["#[derive(Debug, Clone, PartialEq)]"],
    .plainBlock ["pub enum AnyValue"] (table.entries.map fun entry =>
      .line [entry.ident, "(", entry.ident, "),"]),
    .blank,
    .plainBlock ["impl AnyValue"]
      [.plainBlock ["pub fn tag(&self) -> u8"] (matchAny table fun entry =>
          ["AnyValue::", entry.ident, "(_) => ", entry.const, ","]),
        .blank,
        .plainBlock ["pub fn type_name(&self) -> &'static str"] (matchAny table fun entry =>
          ["AnyValue::", entry.ident, "(_) => ", entry.literal, ","])]]

/-- What every registered type offers. -/
def registeredTrait : List Code :=
  [.doc "Implemented by every registered type.",
    .plainBlock ["pub trait Registered: bitwire::Encoder + bitwire::Decoder + Sized"]
      [.line ["const TAG: u8;"],
        .line ["const NAME: &'static str;"],
        .blank,
        .line ["fn into_any(self) -> AnyValue;"],
        .line ["fn from_any(value: AnyValue) -> Result<Self, AnyValue>;"]]]

/-- How one type is registered. -/
def registeredImpl (entry : TableEntry) : List Code :=
  [.blank,
    .plainBlock ["impl Registered for ", entry.ident]
      [.line ["const TAG: u8 = ", entry.const, ";"],
        .line ["const NAME: &'static str = ", entry.literal, ";"],
        .blank,
        .plainBlock ["fn into_any(self) -> AnyValue"]
          [.line ["AnyValue::", entry.ident, "(self)"]],
        .blank,
        .line ["#[allow(unreachable_patterns)]"],
        .plainBlock ["fn from_any(value: AnyValue) -> Result<Self, AnyValue>"]
          [.plainBlock ["match value"]
            [.line ["AnyValue::", entry.ident, "(value) => Ok(value),"],
              .line ["other => Err(other),"]]]],
    .blank,
    .plainBlock ["impl From<", entry.ident, "> for AnyValue"]
      [.plainBlock ["fn from(value: ", entry.ident, ") -> Self"]
        [.line ["AnyValue::", entry.ident, "(value)"]]]]

/-- The functions between tags and names. -/
def tagFunctions (table : Table) : List Code :=
  [.plainBlock ["pub fn tag_of<T: Registered>() -> u8"] [.line ["T::TAG"]],
    .blank,
    .doc "Tag registered for a type name.",
    .plainBlock ["pub fn tag_of_name(name: &str) -> Option<u8>"]
      [.plainBlock ["match name"]
        ((table.entries.map fun entry =>
            .line [entry.literal, " => Some(", entry.const, "),"] : List Code)
          ++ ([.line ["_ => None,"]] : List Code))],
    .blank,
    .plainBlock ["pub fn type_name_of(tag: u8) -> Option<&'static str>"]
      [.plainBlock ["match tag"]
        ((table.entries.map fun entry =>
            .line [entry.const, " => Some(", entry.literal, "),"] : List Code)
          ++ ([.line ["_ => None,"]] : List Code))]]

/-- The arm for a value of a type that cannot exist. -/
def impossibleArm (table : Table) : List Code :=
  if table.entries.isEmpty then [.line ["Some(value) => match *value \x7b\x7d,"]] else []

/-- The functions that measure and write. -/
def writeFunctions (table : Table) : List Code :=
  [.doc "Encoded size of a top-level value: 1 for null, else the tag plus the payload.",
    .plainBlock ["pub fn size(value: Option<&AnyValue>) -> usize"]
      [.plainBlock ["match value"]
        (([.line ["None => 1,"]] : List Code) ++ impossibleArm table
          ++ (table.entries.map fun entry =>
            .line ["Some(AnyValue::", entry.ident, "(value)) => 1 + value.size(),"] : List Code))],
    .blank,
    .plainBlock ["pub fn serialize(value: Option<&AnyValue>, buf: &mut [u8], cursor: &mut usize)",
        " -> bitwire::Result<()>"]
      [.plainBlock ["match value"]
        (([.line ["None => bitwire::write_u8(buf, cursor, NULL_TAG),"]] : List Code)
          ++ impossibleArm table
          ++ (table.entries.map fun entry =>
            .plainBlock ["Some(AnyValue::", entry.ident, "(value)) =>"]
              [.line ["bitwire::write_u8(buf, cursor, ", entry.const, ")?;"],
                .line ["value.serialize(buf, cursor)"]] : List Code))],
    .blank,
    .plainBlock ["pub fn size_of<T: Registered>(value: Option<&T>) -> usize"]
      [.line ["value.map_or(1, |value| 1 + value.size())"]],
    .blank,
    .plainBlock ["pub fn serialize_typed<T: Registered>(value: Option<&T>, buf: &mut [u8], ",
        "cursor: &mut usize) -> bitwire::Result<()>"]
      [.plainBlock ["match value"]
        [.line ["None => bitwire::write_u8(buf, cursor, NULL_TAG),"],
          .plainBlock ["Some(value) =>"]
            [.line ["bitwire::write_u8(buf, cursor, T::TAG)?;"],
              .line ["value.serialize(buf, cursor)"]]]]]

/-- The functions that read. -/
def readFunctions (table : Table) : List Code :=
  [.doc "Decodes the payload of `tag`; the tag byte has already been read.",
    .plainBlock ["pub fn deserialize_by_tag(tag: u8, buf: &[u8], cursor: &mut usize)",
        " -> bitwire::Result<AnyValue>"]
      [.plainBlock ["match tag"]
        ((table.entries.map fun entry =>
            .line [entry.const, " => Ok(AnyValue::", entry.ident, "(", entry.ident,
              "::deserialize(buf, cursor)?)),"] : List Code)
          ++ ([.line ["tag => Err(bitwire::DispatchError::UnknownTag \x7b tag \x7d.into()),"]] :
            List Code))],
    .blank,
    .plainBlock ["pub fn deserialize(buf: &[u8], cursor: &mut usize)",
        " -> bitwire::Result<Option<AnyValue>>"]
      [.plainBlock ["match bitwire::read_u8(buf, cursor)?"]
        [.line ["NULL_TAG => Ok(None),"],
          .line ["tag => deserialize_by_tag(tag, buf, cursor).map(Some),"]]],
    .blank,
    .doc "Reads a top-level value that must be a `T` (or null).",
    .plainBlock ["pub fn deserialize_as<T: Registered>(buf: &[u8], cursor: &mut usize)",
        " -> bitwire::Result<Option<T>>"]
      [.line ["let tag = bitwire::read_u8(buf, cursor)?;"],
        .plainBlock ["if tag == NULL_TAG"] [.line ["return Ok(None);"]],
        .plainBlock ["if tag != T::TAG"]
          [.block ["return Err(match type_name_of(tag)"] ".into());"
            [.line ["Some(actual) => bitwire::DispatchError::TypeMismatch \x7b"],
              .line ["    tag,"],
              .line ["    expected: T::NAME,"],
              .line ["    actual,"],
              .line ["\x7d,"],
              .line ["None => bitwire::DispatchError::UnknownTag \x7b tag \x7d,"]]],
        .line ["T::deserialize(buf, cursor).map(Some)"]]]

/-- The file of the dispatch table. -/
def dispatchModule (table : Table) : List Code :=
  modulePrelude
    ++ ([.line ["use bitwire::\x7bDecoder as _, Encoder as _\x7d;"],
        .blank,
        .doc "Tag of a null top-level value.",
        .line ["pub const NULL_TAG: u8 = 0;"]] : List Code)
    ++ (table.entries.map fun entry =>
        .line ["pub const ", entry.const, ": u8 = ", toString entry.tag, ";"] : List Code)
    ++ [Code.blank] ++ anyValueType table
    ++ [Code.blank] ++ registeredTrait ++ table.entries.flatMap registeredImpl
    ++ [Code.blank] ++ tagFunctions table
    ++ [Code.blank] ++ writeFunctions table
    ++ [Code.blank] ++ readFunctions table

/-- Every type's module and name, by module and then by name. -/
def Table.modules (table : Table) : List (String × String) :=
  let names := table.entries.map TableEntry.name ++ table.enums
  (names.map fun name => (moduleName name, name)).mergeSort fun a b =>
    if a.1 = b.1 then a.2 ≤ b.2 else a.1 ≤ b.1

/-- The file of the listing. -/
def listingModule (table : Table) : List Code :=
  fileHeader
    ++ ([.blank, .line ["pub mod dispatch;"]] : List Code)
    ++ (table.modules.map fun (module, _) =>
        .line ["pub mod ", .ident (identOf module), ";"] : List Code)
    ++ ([.blank, .line ["pub use dispatch::\x7bAnyValue, Registered\x7d;"]] : List Code)
    ++ (table.modules.map fun (module, name) =>
        .line ["pub use ", .ident (identOf module), "::", .ident name, ";"] : List Code)
    ++ ([.blank,
        .doc "Every registered struct as `(tag, name)`, in tag order.",
        .line ["pub const REGISTERED_TYPES: &[(u8, &str)] = &["]] : List Code)
    ++ (table.entries.map fun entry =>
        .line ["    (", toString entry.tag, ", ", entry.literal, "),"] : List Code)
    ++ ([.line ["];"]] : List Code)

end Wireform.Emit
