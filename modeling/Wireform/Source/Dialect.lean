import Wireform.Codec.Record
import Wireform.Derive.FieldShape
import Wireform.Source.Syntax

/-!
# Statements about fields

Derived and emitted codecs have the same statements for a field, and differ in how these spell a call:
a derived codec names the trait, an emitted one calls a method.  A `Dialect` is a way to spell calls.
-/
namespace Wireform.Source

open Derive (Token TypeExpr)

/-! ## 1. Spellings -/

/-- A field of the structure, as statements refer to it: its token, and how it takes part. -/
structure Member where
  token : Token
  presence : Presence

/-- A member of `self`, or a variable that refers to what is behind the null of one. -/
inductive Target where
  | member (token : Token)
  | var (name : String)

/-- What is called on. -/
def Target.expr : Target → Expr
  | .member token => .member token
  | .var name => .var name

/-- A reference to what is called on. -/
def Target.reference : Target → Expr
  | .member token => .borrow false (.member token)
  | .var name => .var name

/-- A way to spell calls. -/
structure Dialect where
  imports : List Import
  size : Target → Expr
  write : Target → Expr
  overwrite : Token → Expr
  /-- What stands behind the number of a slot. -/
  slotSuffix : String
  /-- A function of the bitset type. -/
  bitset : Nat → String → Path

/-- A function of the crate. -/
def crateFunction (steps : List String) : Path := .plain false ("bitwire" :: steps)

/-- The buffer and the cursor, as they are passed on. -/
def buffers : List Expr := [.var "buf", .var "cursor"]

/-- The result of a function that ends well. -/
def success (value : Expr) : Expr := .call (.plain false ["Ok"]) [value]

/-- The initial value of a type that is known from its place. -/
def initialValue : Expr := .call (.plain true ["core", "default", "Default", "default"]) []

/-- The type that is implemented, under the name that it has in its implementation. -/
def ownType : TypeExpr := .path false [.plain "Self"]

/-- The fixed size of a type. -/
def fixedSizeOf (type : TypeExpr) : Expr := .item (.through type ["bitwire", "Encoder"] "FIXED_SIZE")

/-- The sum of the fixed sizes of some types. -/
def fixedSizesOf (types : List TypeExpr) : Expr :=
  .call (crateFunction ["sum_fixed_sizes"]) [.borrow false (.array (types.map fixedSizeOf))]

/-- Derivations name the traits with every call, so that nothing has to be in scope. -/
def derived : Dialect where
  imports := []
  size target := .call (crateFunction ["Encoder", "size"]) [target.reference]
  write target := .call (crateFunction ["Encoder", "serialize"]) (target.reference :: buffers)
  overwrite token := .call (crateFunction ["Decoder", "deserialize_in_place"])
    (.borrow true (.member token) :: buffers)
  slotSuffix := "u16"
  bitset bytes item := .applied ["bitwire", "bitset", "NullBitset"] bytes "usize" item

/-- Emitted files bring the bitset type and the methods of the traits into scope. -/
def emitted : Dialect where
  imports := [.around, .item ["bitwire", "bitset", "NullBitset"],
    .traits ["bitwire"] ["Decoder", "Encoder"]]
  size target := .method target.expr "size" []
  write target := .method target.expr "serialize" buffers
  overwrite token := .method (.member token) "deserialize_in_place" buffers
  slotSuffix := ""
  bitset bytes item := .applied ["NullBitset"] bytes "" item

/-! ## 2. Statements -/

namespace Dialect

variable (dialect : Dialect)

/-- Adds the size of a field. -/
def sizeStatements (member : Member) : List Statement :=
  match member.presence with
  | .always => [.increase "size" (dialect.size (.member member.token))]
  | .nullable _ => [.whenSome "value" (.borrow false (.member member.token))
      [.increase "size" (dialect.size (.var "value"))]]
  | .skipped => []

/-- The sum of the sizes of fields that are all written. -/
def sizes (members : List Member) : Expr :=
  if members.isEmpty then .number 0 ""
  else .sum (members.map fun member => dialect.size (.member member.token))

/-- Records whether a field is null. -/
def markStatements (member : Member) : List Statement :=
  match member.presence with
  | .nullable slot => [.perform (.method (.var "bitset") "set"
      [.number slot dialect.slotSuffix, .method (.member member.token) "is_none" []])]
  | _ => []

/-- Writes a field. -/
def writeStatements (member : Member) : List Statement :=
  match member.presence with
  | .always => [.perform (.attempt (dialect.write (.member member.token)))]
  | .nullable _ => [.whenSome "value" (.borrow false (.member member.token))
      [.perform (.attempt (dialect.write (.var "value")))]]
  | .skipped => []

/-- Whether a field is null. -/
def nullness (slot : Nat) : Expr :=
  .method (.var "bitset") "is_null" [.number slot dialect.slotSuffix]

/-- Reads over a field. -/
def overwriteStatements (member : Member) : List Statement :=
  match member.presence with
  | .always => [.perform (.attempt (dialect.overwrite member.token))]
  | .nullable slot =>
    [.branch (dialect.nullness slot) [.assign member.token (.item (.plain false ["None"]))]
      [.perform (.attempt (.call (crateFunction ["deserialize_present_in_place"])
        (.borrow true (.member member.token) :: buffers)))]]
  | .skipped => [.assign member.token initialValue]

/-- Writes the bitset of some fields, if it has bytes. -/
def bitsetWriting (bytes : Nat) (members : List Member) : List Statement :=
  if bytes = 0 then []
  else .bind true "bitset" none (.call (dialect.bitset bytes "new") [])
    :: (members.flatMap dialect.markStatements
      ++ [.perform (.attempt (.method (.var "bitset") "write" buffers))])

/-- Reads the bitset, if it has bytes. -/
def bitsetReading (bytes : Nat) : List Statement :=
  if bytes = 0 then []
  else [.bind false "bitset" none (.attempt (.call (dialect.bitset bytes "read") buffers))]

/-- Writes the bitset and then the fields. -/
def writingAll (bytes : Nat) (members : List Member) : List Statement :=
  dialect.bitsetWriting bytes members ++ members.flatMap dialect.writeStatements

/-- Reads the bitset, and then over the fields. -/
def overwritingAll (bytes : Nat) (members : List Member) : List Statement :=
  dialect.bitsetReading bytes ++ members.flatMap dialect.overwriteStatements

end Dialect

end Wireform.Source
