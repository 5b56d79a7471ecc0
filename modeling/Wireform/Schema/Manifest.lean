import Wireform.Json.Members
import Wireform.Schema.Declaration
import Wireform.Schema.TypeRef.Parser

/-!
# Manifests

A manifest is a list of declarations written as JSON.  This module has the form of every
declaration, in both directions: `toJson`, and `ofJson?`, which accepts

* an object with the members of the declaration in any order, of which unknown ones are ignored and
  repeated ones refused, or
* an array of those members in their order.

A structure may leave out its tag (as `null` or altogether) and its fields, an enumeration its
width.
-/
namespace Wireform.Schema

/-- A list of declarations. -/
structure Manifest where
  types : List TypeDecl
  deriving DecidableEq, Repr

/-! ## 1. Writing -/

/-- A field as JSON. -/
def FieldDecl.toJson (decl : FieldDecl) : Json :=
  .object [("name", decl.name), ("type", decl.type.text)]

/-- A variant as JSON. -/
def VariantDecl.toJson (decl : VariantDecl) : Json :=
  .object [("name", decl.name), ("value", .int decl.value)]

/-- A declaration as JSON.  Its kind comes first, and a tag that was not asked for is left out. -/
def TypeDecl.toJson : TypeDecl → Json
  | .struct decl =>
    .object ([("kind", Json.text "struct"), ("name", Json.text decl.name)]
      ++ (decl.tag.map fun tag => ("tag", Json.nat tag)).toList
      ++ [("fields", .array (decl.fields.map FieldDecl.toJson))])
  | .enum decl =>
    .object [("kind", "enum"), ("name", decl.name), ("repr", decl.repr.name),
      ("variants", .array (decl.variants.map VariantDecl.toJson))]

/-- A manifest as JSON. -/
def Manifest.toJson (manifest : Manifest) : Json :=
  .object [("types", .array (manifest.types.map TypeDecl.toJson))]

/-! ## 2. Members -/

/-- What is said of a member: nothing, or a value. -/
abbrev Member := Option Json

/-- The members of the given names; `none` if one of them is there twice. -/
def membersOf? (names : List String) (members : List (String × Json)) : Option (List Member) :=
  names.mapM fun name =>
    match members.filter fun entry => entry.1 == name with
    | [] => some none
    | [(_, value)] => some (some value)
    | _ => none

/-- The first `count` members of an array that has no more than those. -/
def positional? (count : Nat) (items : List Json) : Option (List Member) :=
  if items.length ≤ count then
    some (items.map some ++ List.replicate (count - items.length) none)
  else none

/-- The members of a record, whose names are given in their order. -/
def recordMembers? (names : List String) : Json → Option (List Member)
  | .object members => membersOf? names members
  | .array items => positional? names.length items
  | _ => none

/-- An integer that a format holds. -/
def intOf? (format : IntFormat) : Json → Option Int
  | .number (.integer n) => if format.contains n then some n else none
  | _ => none

/-! ## 3. Reading -/

/-- Whether a value stands for the absence of a payload. -/
def isNullJson : Json → Bool
  | .null => true
  | _ => false

/-- Whether a value stands for the absence of a payload inside a declaration, where an empty object
does so too. -/
def isEmptyJson : Json → Bool
  | .null => true
  | .object [] => true
  | _ => false

/-- A width: its name, or an object with that name as its only member and no payload in it. -/
def IntRepr.ofJson? (isEmpty : Json → Bool) : Json → Option IntRepr
  | .text name => ofName? name
  | .object [(name, payload)] => if isEmpty payload then ofName? name else none
  | _ => none

/-- A written type reference. -/
def TypeRef.ofJson? (json : Json) : Option TypeRef := do
  match TypeRef.parse (← json.text?) with
  | .ok type => some type
  | .error _ => none

/-- A field. -/
def FieldDecl.ofJson? (json : Json) : Option FieldDecl := do
  match ← recordMembers? ["name", "type"] json with
  | [some name, some type] => return ⟨← name.text?, ← TypeRef.ofJson? type⟩
  | _ => none

/-- A variant. -/
def VariantDecl.ofJson? (json : Json) : Option VariantDecl := do
  match ← recordMembers? ["name", "value"] json with
  | [some name, some value] => return ⟨← name.text?, ← intOf? .i64 value⟩
  | _ => none

/-- A requested tag, or `null` for none. -/
def tagOf? : Json → Option (Option Nat)
  | .null => some none
  | json => (intOf? .u8 json).map fun tag => some tag.toNat

/-- A structure. -/
def StructDecl.ofJson? (json : Json) : Option StructDecl := do
  match ← recordMembers? ["name", "tag", "fields"] json with
  | [some name, tag, fields] =>
    let tag ← (tag.map tagOf?).getD (some none)
    let fields ← (fields.map (Json.listOf? FieldDecl.ofJson?)).getD (some [])
    return ⟨← name.text?, tag, fields⟩
  | _ => none

/-- An enumeration. -/
def EnumDecl.ofJson? (isEmpty : Json → Bool) (json : Json) : Option EnumDecl := do
  match ← recordMembers? ["name", "repr", "variants"] json with
  | [some name, repr, some variants] =>
    let repr ← (repr.map (IntRepr.ofJson? isEmpty)).getD (some IntRepr.default)
    return ⟨← name.text?, repr, ← Json.listOf? VariantDecl.ofJson? variants⟩
  | _ => none

/-- The two kinds of declarations. -/
inductive DeclKind where
  | struct
  | enum
  deriving DecidableEq, Repr

/-- The kind of a name. -/
def DeclKind.ofName? : String → Option DeclKind
  | "struct" => some .struct
  | "enum" => some .enum
  | _ => none

/-- A declaration of a known kind, from the members other than the kind. -/
def TypeDecl.ofKind? (kind : DeclKind) (json : Json) : Option TypeDecl :=
  match kind with
  | .struct => (StructDecl.ofJson? json).map .struct
  | .enum => (EnumDecl.ofJson? isEmptyJson json).map .enum

/-- A declaration: its kind is a member of its object, or the first element of its array. -/
def TypeDecl.ofJson? : Json → Option TypeDecl
  | .object members => do
    match members.filter fun entry => entry.1 == "kind" with
    | [(_, .text kind)] =>
      TypeDecl.ofKind? (← DeclKind.ofName? kind)
        (.object (members.filter fun entry => entry.1 != "kind"))
    | _ => none
  | .array (.text kind :: items) => do TypeDecl.ofKind? (← DeclKind.ofName? kind) (.array items)
  | _ => none

end Wireform.Schema
