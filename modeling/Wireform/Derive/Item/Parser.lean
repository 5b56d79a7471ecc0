import Wireform.Derive.Item
import Wireform.Derive.TypeExpr.Parser

/-!
# Reading items

`Item.ofSource?` reads the source text of one structure, enumeration or union.  Visibilities are
passed over, as nothing that is derived repeats them; so are the discriminants of variants, which
are only ever named through the variant, and the fields of a union, for which nothing is derived.
-/
namespace Wireform.Derive

open TreeReader TokenTree

/-! ## 1. Attributes and visibility -/

/-- The attribute that stands between brackets; a value behind an equals sign is not kept. -/
def Attribute.ofBody (body : List TokenTree) : Attribute :=
  let (path, rest) := body.span isPathPart
  match rest with
  | .group _ inner :: _ => ⟨flatten path, inner⟩
  | _ => ⟨flatten path, []⟩

/-- Takes the attributes in front. -/
def readAttributes (bound : Nat) : TreeReader (List Attribute) := do
  return (← readAttributeBodies bound).map Attribute.ofBody

/-- Whether trees in parentheses say where something is visible. -/
def isScope : List TokenTree → Bool
  | [.leaf (.word name) _] => name == "crate" || name == "self" || name == "super"
  | .leaf (.word "in") _ :: _ => true
  | _ => false

/-- Passes over a visibility, if one is in front. -/
def passVisibility : TreeReader Unit := do
  if ← passWord "pub" then
    match ← get with
    | .group .parentheses body :: rest => if isScope body then set rest
    | _ => pure ()

/-! ## 2. Fields and variants -/

/-- Takes fields without a name of their own, as a structure or a union in place of a type, if they
are in front. -/
def readAnonymous : TreeReader (Option TypeExpr) :=
  takeSeen fun
    | .leaf (.word "struct") _ :: .group .braces body :: rest =>
      some (.other (.word "struct" :: braced (flatten body)), rest)
    | .leaf (.word "union") _ :: .group .braces body :: rest =>
      some (.other (.word "union" :: braced (flatten body)), rest)
    | _ => none

/-- Takes the type of a field. -/
def readFieldType (bound : Nat) (isAnonymous : Bool) : TreeReader TypeExpr := do
  match ← if isAnonymous then readAnonymous else pure none with
  | some type => pure type
  | none => readType bound bound true

/-- Takes a field; `named` if it has a name. -/
def readField (bound : Nat) (named : Bool) : TreeReader Field := do
  let attributes ← readAttributes bound
  passVisibility
  if named then
    let name ← wantWord
    wantMarks ":"
    return ⟨some name, ← readFieldType bound (name == "_"), attributes⟩
  else return ⟨none, ← readFieldType bound false, attributes⟩

/-- Takes the fields of a structure or a variant. -/
def readFields (bound : Nat) : TreeReader Fields := do
  if ← seesGroup .braces then
    return .named (← within .braces (separated "," atEnd (readField bound true) bound)).1
  else if ← seesGroup .parentheses then
    return .tuple (← within .parentheses (separated "," atEnd (readField bound false) bound)).1
  else pure .unit

/-- Passes over a discriminant, if one is in front. -/
def passDiscriminant (bound : Nat) : TreeReader Unit := do
  if ← passMarks "=" then modify (behindExpression (Nested.ofBound bound) bound .other)

/-- Takes a variant. -/
def readVariant (bound : Nat) : TreeReader VariantItem := do
  let _ ← readAttributes bound
  passVisibility
  let name ← wantWord
  let fields ← readFields bound
  passDiscriminant bound
  pure ⟨name, fields⟩

/-! ## 3. Conditions -/

/-- Takes a condition: bounds of a lifetime or a type. -/
def readCondition (bound : Nat) : TreeReader (List Token) := do
  let nested := Nested.ofBound bound
  let binder ← readBinder bound nested
  let subject ←
    match ← passLifetime with
    | some name => pure (lifetimeTokens name)
    | none => TypeExpr.tokens <$> nested.type true
  wantMarks ":"
  let (bounds, trailing) ← nested.bounds true
  pure (binder ++ subject ++ .mark ':' :: separatedBy '+' trailing (Bound.tokensOfEach bounds))

/-- Takes the conditions behind `where`, if it is in front. -/
def readConditions (bound : Nat) : TreeReader (List Token) := do
  if ← passWord "where" then
    let (conditions, trailing) ←
      separated "," (return endsConditions (← get)) (readCondition bound) bound
    pure (if conditions.isEmpty then []
      else .word "where" :: separatedBy ',' trailing conditions)
  else pure []

/-! ## 4. Items -/

/-- Takes what follows the name and the parameters of an item of a kind: the conditions, which
stand behind the fields of a tuple, and the body. -/
def readKind (bound : Nat) (kind : String) : TreeReader (List Token × ItemKind) := do
  let before ← readConditions bound
  match kind with
  | "struct" => do
    let fields ← readFields bound
    let behind ← readConditions bound
    let _ ← passMarks ";"
    pure (before ++ behind, .struct fields)
  | "enum" => do
    let (variants, _) ← within .braces (separated "," atEnd (readVariant bound) bound)
    pure (before, .enum variants)
  | "union" => do
    let _ ← wantBody .braces
    pure (before, .union)
  | _ => failure

/-- Takes an item. -/
def readItem (bound : Nat) : TreeReader Item := do
  let attributes ← readAttributes bound
  passVisibility
  let kind ← wantWord
  let name ← wantWord
  let generics ←
    if ← seesMarks "<" then readParams bound (Nested.ofBound bound) else pure Generics.empty
  let (conditions, kind) ← readKind bound kind
  pure ⟨name, attributes, generics, conditions, kind⟩

/-- The item that a source text holds.  Every token has a character, so the length of the text
bounds both what is read in turn and how deep types nest. -/
def Item.ofSource? (source : String) : Option Item := do
  readAll (readItem (source.length + 2)) (← TokenTree.ofText? source)

end Wireform.Derive
