import Wireform.Catalogue
import Wireform.Samples.Decimals

/-!
# Sample records

Records over which every kind of field, shape and slot arrangement occurs, and enumerations of every
width.  `records` is the catalogue of all of them.
-/
namespace Wireform.Samples

/-- The shape of a primitive. -/
def prim (p : Schema.Primitive) : Shape := .leaf (.primitive p)

/-! ## 1. Records -/

/-- A point. -/
def vec3 : Definition :=
  .record
    [⟨"x", .plain (prim .f32)⟩,
      ⟨"y", .plain (prim .f32)⟩,
      ⟨"z", .plain (prim .f32)⟩]

/-- A person at a place. -/
def person : Definition :=
  .record
    [⟨"id", .plain (prim .i32)⟩,
      ⟨"name", .nullable (prim .string)⟩,
      ⟨"position", .plain (.named "Vec3")⟩]

/-- A list of nodes, each of which holds the next one. -/
def node : Definition :=
  .record
    [⟨"value", .plain (prim .i32)⟩,
      ⟨"next", .nullable (.boxed (.named "Node"))⟩]

/-- No fields between braces. -/
def emptyStruct : Definition :=
  .record []

/-- No fields at all. -/
def unitStruct : Definition :=
  .record []

/-- A message that says nothing. -/
def heartbeat : Definition :=
  .record []

/-- Three optional numbers. -/
def flags : Definition :=
  .record
    [⟨"a", .nullable (prim .u32)⟩,
      ⟨"b", .nullable (prim .u32)⟩,
      ⟨"c", .nullable (prim .u32)⟩]

/-- As many optional fields as one byte has bits. -/
def many8 : Definition :=
  .record
    [⟨"f1", .nullable (prim .u8)⟩,
      ⟨"f2", .nullable (prim .u8)⟩,
      ⟨"f3", .nullable (prim .u8)⟩,
      ⟨"f4", .nullable (prim .u8)⟩,
      ⟨"f5", .nullable (prim .u8)⟩,
      ⟨"f6", .nullable (prim .u8)⟩,
      ⟨"f7", .nullable (prim .u8)⟩,
      ⟨"f8", .nullable (prim .u8)⟩]

/-- One optional field more than one byte has bits. -/
def many9 : Definition :=
  .record
    [⟨"f1", .nullable (prim .u8)⟩,
      ⟨"f2", .nullable (prim .u8)⟩,
      ⟨"f3", .nullable (prim .u8)⟩,
      ⟨"f4", .nullable (prim .u8)⟩,
      ⟨"f5", .nullable (prim .u8)⟩,
      ⟨"f6", .nullable (prim .u8)⟩,
      ⟨"f7", .nullable (prim .u8)⟩,
      ⟨"f8", .nullable (prim .u8)⟩,
      ⟨"f9", .nullable (prim .u8)⟩]

/-- Optional fields over three bytes of bits, with a plain one among them. -/
def many17 : Definition :=
  .record
    [⟨"f1", .nullable (prim .u8)⟩,
      ⟨"f2", .nullable (prim .u16)⟩,
      ⟨"f3", .nullable (prim .u8)⟩,
      ⟨"f4", .nullable (prim .bool)⟩,
      ⟨"f5", .nullable (prim .u8)⟩,
      ⟨"f6", .nullable (prim .u8)⟩,
      ⟨"plain", .plain (prim .u8)⟩,
      ⟨"f7", .nullable (prim .u8)⟩,
      ⟨"f8", .nullable (prim .string)⟩,
      ⟨"f9", .nullable (prim .u8)⟩,
      ⟨"f10", .nullable (prim .u8)⟩,
      ⟨"f11", .nullable (prim .u8)⟩,
      ⟨"f12", .nullable (prim .u8)⟩,
      ⟨"f13", .nullable (prim .u8)⟩,
      ⟨"f14", .nullable (prim .u8)⟩,
      ⟨"f15", .nullable (prim .u8)⟩,
      ⟨"f16", .nullable (prim .i64)⟩,
      ⟨"f17", .nullable (prim .u8)⟩]

/-- A field that is skipped between two that are not. -/
def withSkip : Definition :=
  .record
    [⟨"id", .plain (prim .u64)⟩,
      ⟨"cache", .skipped (.sequence .list (prim .u8))⟩,
      ⟨"label", .nullable (prim .string)⟩]

/-- A skipped optional field, which takes no slot. -/
def skipOption : Definition :=
  .record
    [⟨"a", .skipped (.option (prim .u8))⟩,
      ⟨"b", .nullable (prim .u8)⟩,
      ⟨"c", .plain (prim .u8)⟩,
      ⟨"d", .nullable (prim .u16)⟩]

/-- Skipped fields only. -/
def allSkipped : Definition :=
  .record
    [⟨"a", .skipped (prim .u32)⟩,
      ⟨"b", .skipped (.option (prim .string))⟩]

/-- A map beside an optional list. -/
def inventory : Definition :=
  .record
    [⟨"owner", .plain (prim .string)⟩,
      ⟨"counts", .plain (.mapping .hashed (prim .string) (prim .i32))⟩,
      ⟨"tags", .nullable (.sequence .list (prim .string))⟩]

/-- Collections in collections. -/
def nested : Definition :=
  .record
    [⟨"grid", .plain (.sequence .list (.sequence .list (.option (prim .string))))⟩,
      ⟨"lookup", .plain (.mapping .sorted (prim .u8) (.sequence .list (.option (prim .i64))))⟩,
      ⟨"history", .plain (.sequence .deque (.option (.sequence .list (prim .u16))))⟩,
      ⟨"fixed", .plain (.array 3 (prim .u32))⟩,
      ⟨"frozen", .plain (.sequence .slice (prim .f64))⟩]

/-- An order with its lines. -/
def order : Definition :=
  .record
    [⟨"id", .plain (prim .u64)⟩,
      ⟨"customer", .nullable (prim .string)⟩,
      ⟨"lines", .plain (.sequence .list (.named "Line"))⟩]

/-- A line of an order. -/
def line : Definition :=
  .record
    [⟨"sku", .plain (prim .string)⟩,
      ⟨"quantity", .plain (prim .u32)⟩]

/-- A tree, which is finite because its branches are in a list. -/
def tree : Definition :=
  .record
    [⟨"label", .plain (prim .string)⟩,
      ⟨"children", .plain (.sequence .list (.named "Tree"))⟩]

/-- A field of every primitive. -/
def prims : Definition :=
  .record
    [⟨"a", .plain (prim .bool)⟩,
      ⟨"b", .plain (prim .u8)⟩,
      ⟨"c", .plain (prim .i8)⟩,
      ⟨"d", .plain (prim .u16)⟩,
      ⟨"e", .plain (prim .i16)⟩,
      ⟨"f", .plain (prim .u32)⟩,
      ⟨"g", .plain (prim .i32)⟩,
      ⟨"h", .plain (prim .u64)⟩,
      ⟨"i", .plain (prim .i64)⟩,
      ⟨"j", .plain (prim .u128)⟩,
      ⟨"k", .plain (prim .i128)⟩,
      ⟨"l", .plain (prim .f32)⟩,
      ⟨"m", .plain (prim .f64)⟩,
      ⟨"n", .plain (prim .char)⟩,
      ⟨"o", .plain (prim .duration)⟩]

/-- Identifiers, an amount and a time. -/
def ids : Definition :=
  .record
    [⟨"uuid", .plain (prim .uuid)⟩,
      ⟨"ulid", .plain (prim .ulid)⟩,
      ⟨"amount", .plain (prim .decimal)⟩,
      ⟨"at", .nullable (prim .datetime)⟩,
      ⟨"name", .plain (.leaf .smol)⟩,
      ⟨"nick", .nullable (.leaf .smol)⟩]

/-- Optional types behind an alias, which have no slot. -/
def aliasOpt : Definition :=
  .record
    [⟨"a", .plain (.option (prim .u8))⟩,
      ⟨"b", .nullable (prim .u8)⟩,
      ⟨"c", .plain (.option (prim .string))⟩]

/-- Optional types passed on by a macro, which have no slot. -/
def grouped : Definition :=
  .record
    [⟨"a", .plain (.option (prim .u8))⟩,
      ⟨"b", .plain (prim .u8)⟩,
      ⟨"c", .plain (.option (prim .string))⟩]

/-- Optional collections and collections of optional items. -/
def optColl : Definition :=
  .record
    [⟨"a", .nullable (.sequence .list (.option (.named "Color")))⟩,
      ⟨"b", .plain (.sequence .list (.option (.named "Vec3")))⟩,
      ⟨"c", .nullable (.sequence .slice (prim .u8))⟩,
      ⟨"d", .nullable (.shared (prim .string))⟩,
      ⟨"e", .plain (.array 2 (.option (prim .u16)))⟩,
      ⟨"f", .plain (.sequence .list (.option (.array 2 (prim .u8))))⟩,
      ⟨"g", .plain (.sequence .deque (.option (.boxed (prim .string))))⟩,
      ⟨"h", .nullable (.mapping .sorted (.named "Color") (.option (.sequence .list (prim .u8))))⟩]

/-- Fields whose names are keywords. -/
def withRaw : Definition :=
  .record
    [⟨"r#type", .plain (prim .u8)⟩,
      ⟨"r#match", .nullable (prim .u8)⟩]

/-- Records in a record. -/
def deep : Definition :=
  .record
    [⟨"person", .plain (.named "Person")⟩,
      ⟨"flags", .nullable (.named "Flags")⟩,
      ⟨"order", .nullable (.boxed (.named "Order"))⟩]

/-- Machine words. -/
def sizes : Definition :=
  .record
    [⟨"a", .plain (.leaf .usize)⟩,
      ⟨"b", .plain (.leaf .isize)⟩]

/-- Fields without names. -/
def tupleStruct : Definition :=
  .record
    [⟨"_0", .plain (prim .u32)⟩,
      ⟨"_1", .plain (prim .string)⟩,
      ⟨"_2", .plain (prim .bool)⟩]

/-- Two fields without names, the second optional. -/
def pair : Definition :=
  .record
    [⟨"_0", .plain (prim .u8)⟩,
      ⟨"_1", .nullable (prim .u8)⟩]

/-- A generic record of numbers. -/
def wrapperOfByte : Definition :=
  .record
    [⟨"inner", .plain (prim .u8)⟩,
      ⟨"extra", .nullable (prim .u8)⟩]

/-- A generic record of texts. -/
def wrapperOfText : Definition :=
  .record
    [⟨"inner", .plain (prim .string)⟩,
      ⟨"extra", .nullable (prim .string)⟩]

/-! ## 2. Enumerations -/

/-- Three colours. -/
def color : Enumeration :=
  ⟨"Color", .u8, [⟨"Red", 1⟩, ⟨"Green", 2⟩, ⟨"Blue", 4⟩]⟩

/-- An enumeration that names no width. -/
def level : Enumeration :=
  ⟨"Level", .i32, [⟨"Low", 0⟩, ⟨"High", 10⟩, ⟨"Higher", 11⟩]⟩

/-- Both ends of a signed byte. -/
def tiny : Enumeration :=
  ⟨"Tiny", .i8, [⟨"Min", -128⟩, ⟨"MinusOne", -1⟩, ⟨"Max", 127⟩]⟩

/-- A variant beyond one byte. -/
def status : Enumeration :=
  ⟨"Status", .u16, [⟨"Open", 1⟩, ⟨"Frozen", 2⟩, ⟨"Closed", 300⟩]⟩

/-- The least of two signed bytes. -/
def signed16 : Enumeration :=
  ⟨"Signed16", .i16, [⟨"Below", -32768⟩, ⟨"Zero", 0⟩]⟩

/-- The greatest of four bytes. -/
def wide32 : Enumeration :=
  ⟨"Wide32", .u32, [⟨"Zero", 0⟩, ⟨"Top", 4294967295⟩]⟩

/-- Negative variants in four bytes. -/
def repr32 : Enumeration :=
  ⟨"Repr32", .i32, [⟨"Neg", -5⟩, ⟨"Next", -4⟩, ⟨"Big", 2147483647⟩]⟩

/-- Variants beyond the signed eight-byte numbers. -/
def wide64 : Enumeration :=
  ⟨"Wide64", .u64, [⟨"Zero", 0⟩, ⟨"Half", 9223372036854775808⟩, ⟨"Top", 18446744073709551615⟩]⟩

/-- Both ends of eight signed bytes. -/
def signed64 : Enumeration :=
  ⟨"Signed64", .i64, [⟨"Bottom", -9223372036854775808⟩, ⟨"Top", 9223372036854775807⟩]⟩

/-! ## 3. The catalogue -/

/-- All sample records and enumerations. -/
def records : Catalogue :=
  ⟨[("Vec3", vec3),
    ("Person", person),
    ("Node", node),
    ("EmptyStruct", emptyStruct),
    ("UnitStruct", unitStruct),
    ("Heartbeat", heartbeat),
    ("Flags", flags),
    ("Many8", many8),
    ("Many9", many9),
    ("Many17", many17),
    ("WithSkip", withSkip),
    ("SkipOption", skipOption),
    ("AllSkipped", allSkipped),
    ("Inventory", inventory),
    ("Nested", nested),
    ("Order", order),
    ("Line", line),
    ("Tree", tree),
    ("Prims", prims),
    ("Ids", ids),
    ("AliasOpt", aliasOpt),
    ("Grouped", grouped),
    ("OptColl", optColl),
    ("WithRaw", withRaw),
    ("Deep", deep),
    ("Sizes", sizes),
    ("TupleStruct", tupleStruct),
    ("Pair", pair),
    ("Wrapper<u8>", wrapperOfByte),
    ("Wrapper<string>", wrapperOfText),
    ("Color", .enumeration color),
    ("Level", .enumeration level),
    ("Tiny", .enumeration tiny),
    ("Status", .enumeration status),
    ("Signed16", .enumeration signed16),
    ("Wide32", .enumeration wide32),
    ("Repr32", .enumeration repr32),
    ("Wide64", .enumeration wide64),
    ("Signed64", .enumeration signed64)]⟩

/-- The tag that a sample record asks for. -/
def requestedTag? (name : String) : Option Nat := if name = "Order" then some 7 else none

end Wireform.Samples
