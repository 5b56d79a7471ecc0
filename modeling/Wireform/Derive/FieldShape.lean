import Wireform.Derive.Item
import Wireform.NullBitset

/-!
# The fields that a derived codec sees

Before anything is expanded, the fields or variants of an item are checked.

* `fieldShapes` goes through the fields of a structure: it reads their attributes, refuses types
  without an encoding, and gives the optional fields the slots 1, 2, 3, … in their order.  A skipped
  field may have any type.
* `unitVariants` refuses variants with fields.

A field is optional if its type is a path that ends in `Option` with a type as first argument; what
an alias, parentheses or a group hide is not looked through.
-/
namespace Wireform.Derive

/-! ## 1. Types -/

/-- The first argument of a path that ends in `Option`, if it is a type. -/
def optionArgument? (segments : List Segment) : Option TypeExpr :=
  match segments.getLast? with
  | some (.angle "Option" _ (.type inner :: _) _) => some inner
  | _ => none

/-- The type behind the null of an optional type. -/
def optionInner? : TypeExpr → Option TypeExpr
  | .path _ segments => optionArgument? segments
  | .projection _ _ segments => optionArgument? segments
  | _ => none

/-- Whether a type is optional behind another null. -/
def isNestedOption (type : TypeExpr) : Bool :=
  match optionInner? type with
  | some inner => (optionInner? inner).isSome
  | none => false

mutual

/-- Refuses a type that has no encoding, by the first part of it that has none. -/
def checkType : TypeExpr → Except TypeForm Unit
  | .paren inner => checkType inner
  | .group inner => checkType inner
  | .array element _ => checkType element
  | .path rooted segments =>
    if isNestedOption (.path rooted segments) then .error .nestedOption
    else checkSegments segments
  | .projection _ _ _ => .error .projection
  | .reference _ _ _ => .error .reference
  | .pointer _ _ => .error .pointer
  | .tuple _ _ => .error .tuple
  | .traitObject _ _ _ => .error .traitObject
  | .implTrait _ _ => .error .traitObject
  | .function _ _ _ _ => .error .function
  | .slice _ => .error .slice
  | .never => .error .unrecognized
  | .infer => .error .unrecognized
  | .macroCall _ _ => .error .unrecognized
  | .other _ => .error .unrecognized

/-- Checks the arguments in the steps of a path; parameters between parentheses are not looked
at. -/
def checkSegments : List Segment → Except TypeForm Unit
  | [] => .ok ()
  | .angle name _ arguments _ :: rest => do
    checkArguments (name == "Box") arguments
    checkSegments rest
  | .plain _ :: rest => checkSegments rest
  | .call _ _ _ _ :: rest => checkSegments rest

/-- Checks arguments between angle brackets; a slice is admitted right behind a box. -/
def checkArguments (boxed : Bool) : List TypeArg → Except TypeForm Unit
  | [] => .ok ()
  | .type (.slice element) :: rest => do
    if boxed then checkType element else throw .slice
    checkArguments boxed rest
  | .type type :: rest => do
    checkType type
    checkArguments boxed rest
  | .const _ :: rest => checkArguments boxed rest
  | .lifetime _ :: rest => checkArguments boxed rest
  | .assocType _ _ :: _ => .error .assocArgument
  | .assocConst _ _ :: _ => .error .assocArgument
  | .assocBound _ _ _ :: _ => .error .assocArgument

end

/-! ## 2. Fields and variants -/

/-- How a field is reached from its structure. -/
inductive MemberRef where
  | named (name : String)
  | index (n : Nat)
  deriving DecidableEq, Repr

/-- The token of a member. -/
def MemberRef.token : MemberRef → Token
  | .named name => .word name
  | .index n => .literal (toString n)

/-- The name of a member in declarations. -/
def MemberRef.schemaName : MemberRef → String
  | .named name => name
  | .index n => "_" ++ toString n

/-- A field as the codecs see it. -/
structure FieldShape where
  member : MemberRef
  type : TypeExpr
  skip : Bool
  slot : Option Nat

/-- Whether the field has a slot. -/
def FieldShape.isNullable (shape : FieldShape) : Bool := shape.slot.isSome

/-- The highest slot. -/
def maxSlot : Nat := 65535

/-- How a field in a given position is reached. -/
def Field.member (field : Field) (position : Nat) : MemberRef :=
  match field.name with
  | some name => .named name
  | none => .index position

/-- Classifies the fields from a position on, when `nullable` fields before them had a slot. -/
def shapesFrom (container : String) (position nullable : Nat) :
    List Field → Except DeriveError (List FieldShape)
  | [] => .ok []
  | field :: rest => do
    let member := field.member position
    let skip ← isSkipped field.attributes
    if skip then
      return ⟨member, field.type, true, none⟩
        :: (← shapesFrom container (position + 1) nullable rest)
    (checkType field.type).mapError (.unsupportedType container member.schemaName)
    if (optionInner? field.type).isSome then
      if nullable = maxSlot then throw .tooManyNullable
      return ⟨member, field.type, false, some (nullable + 1)⟩
        :: (← shapesFrom container (position + 1) (nullable + 1) rest)
    return ⟨member, field.type, false, none⟩
      :: (← shapesFrom container (position + 1) nullable rest)

/-- Classifies the fields of a structure. -/
def fieldShapes (container : String) (fields : Fields) : Except DeriveError (List FieldShape) :=
  shapesFrom container 0 0 fields.toList

/-- How many bytes the bitset of these fields takes. -/
def shapesBitsetBytes (shapes : List FieldShape) : Nat :=
  bitsetSize (shapes.filter FieldShape.isNullable).length

/-- The names of the variants of an enumeration, none of which may have fields. -/
def unitVariants (container : String) (variants : List VariantItem) :
    Except DeriveError (List String) := do
  if variants.isEmpty then throw .noVariants
  variants.mapM fun v =>
    match v.fields with
    | .unit => .ok v.name
    | _ => .error (.variantWithData container v.name)

end Wireform.Derive
