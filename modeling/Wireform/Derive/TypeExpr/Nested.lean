import Wireform.Derive.Generics
import Wireform.Derive.TokenTree.Reader

/-!
# What is nested in types

Bounds, generic parameters and arguments between angle brackets have types and expressions inside,
which have such parts inside in turn.  The readers here are therefore given a `Nested`, the readers
for one level further down; where it comes from is said with the reader of types.

A sum of bounds is not admitted everywhere: in `&A + B` the sign does not belong to the type behind
the reference.  A type is read by a `TypeReader`, which is told whether a sum may stand there.
-/
namespace Wireform.Derive

open TreeReader TokenTree

/-- Reads a type, which may be a sum of bounds without parentheses if `plus` says so. -/
abbrev TypeReader := (plus : Bool) → TreeReader TypeExpr

/-- The readers one level down; `expression` gives the tokens of an expression, which stands
directly in braces or not. -/
structure Nested where
  type : TypeReader
  bounds : (plus : Bool) → TreeReader (List Bound × Bool)
  expression : (inBraces : Bool) → List TokenTree → List Token

/-! ## 1. Attributes and constants -/

/-- Takes what stands between the brackets of each attribute in front. -/
def readAttributeBodies : (bound : Nat) → TreeReader (List (List TokenTree))
  | 0 => failure
  | bound + 1 => do
    if ← passMarks "#" then
      let body ← wantBody .brackets
      return body :: (← readAttributeBodies bound)
    else pure []

/-- Whether a tree belongs to the path of an attribute. -/
def isPathPart : TokenTree → Bool
  | .leaf (.word _) _ => true
  | .leaf (.mark ':') _ => true
  | _ => false

/-- The tokens of an attribute; what stands behind an equals sign is an expression. -/
def attributeTokens (nested : Nested) (body : List TokenTree) : List Token :=
  let (path, rest) := body.span isPathPart
  let value :=
    match rest with
    | .leaf (.mark '=') _ :: value => .mark '=' :: nested.expression false value
    | rest => flatten rest
  .mark '#' :: bracketed (flatten path ++ value)

/-- Takes the attributes in front as tokens. -/
def readAttributeTokens (bound : Nat) (nested : Nested) : TreeReader (List Token) := do
  return (← readAttributeBodies bound).flatMap (attributeTokens nested)

/-- The tokens of a constant in front, and the trees behind it: a literal, with a sign or without,
a truth value, or a block. -/
def constant? (nested : Nested) : List TokenTree → Option (List Token × List TokenTree)
  | .leaf (.literal text) _ :: rest => some ([.literal text], rest)
  | .leaf (.mark '-') _ :: .leaf (.literal text) _ :: rest =>
    some ([.mark '-', .literal text], rest)
  | .leaf (.word "true") _ :: rest => some ([.word "true"], rest)
  | .leaf (.word "false") _ :: rest => some ([.word "false"], rest)
  | .group .braces body :: rest => some (braced (nested.expression true body), rest)
  | _ => none

/-- Takes a constant, if one is in front. -/
def passConstant (nested : Nested) : TreeReader (Option (List Token)) :=
  takeSeen (constant? nested)

/-! ## 2. Generic parameters -/

/-- Takes the bounds behind a colon, if one is in front. -/
def readParamBounds (nested : Nested) : TreeReader (List Token) := do
  if ← passMarks ":" then
    let (bounds, trailing) ← nested.bounds true
    pure (separatedBy '+' trailing (Bound.tokensOfEach bounds))
  else pure []

/-- Takes the default behind an equals sign, if one is in front. -/
def readDefault (nested : Nested) : TreeReader (List Token) := do
  if ← passMarks "=" then
    match ← passConstant nested with
    | some value => pure value
    | none => return (← nested.type true).tokens
  else pure []

/-- Takes a generic parameter. -/
def readParam (bound : Nat) (nested : Nested) : TreeReader GenericParam := do
  let attributes ← readAttributeTokens bound nested
  if let some name ← passLifetime then
    return ⟨attributes, name, .lifetime (← readParamBounds nested), []⟩
  else if ← passWord "const" then
    let name ← wantWord
    wantMarks ":"
    let type ← nested.type true
    return ⟨attributes, name, .const type.tokens, ← readDefault nested⟩
  else
    let name ← wantWord
    let bounds ← readParamBounds nested
    return ⟨attributes, name, .type bounds, ← readDefault nested⟩

/-- Takes generic parameters between angle brackets. -/
def readParams (bound : Nat) (nested : Nested) : TreeReader Generics := do
  let (params, trailing) ← readAngled bound (readParam bound nested)
  pure ⟨params, trailing⟩

/-! ## 3. Bounds -/

/-- Takes the parameters behind `for`, if it is in front. -/
def readBinder (bound : Nat) (nested : Nested) : TreeReader (List Token) := do
  if ← passWord "for" then return .word "for" :: (← readParams bound nested).inOrder
  else pure []

/-- Takes a path where only a path is meant. -/
def readTraitPath (nested : Nested) : TreeReader TypeExpr := do
  match ← nested.type false with
  | .path rooted segments => pure (.path rooted segments)
  | _ => failure

/-- Takes a trait with what stands in front of it. -/
def readTrait (bound : Nat) (nested : Nested) (isParen : Bool) : TreeReader Bound := do
  let binder ← readBinder bound nested
  if ← passMarks "?" then
    let inner ← readBinder bound nested
    return .trait isParen (binder ++ .mark '?' :: inner) (← readTraitPath nested)
  else return .trait isParen binder (← readTraitPath nested)

/-- Whether a bound has a mark in front that says where it holds: `const`, alone or in brackets or
behind a tilde. -/
def startsConst : List TokenTree → Bool
  | .leaf (.word "const") _ :: _ => true
  | .leaf (.mark '~') _ :: .leaf (.word "const") _ :: _ => true
  | .group .brackets [.leaf (.word "const") _] :: _ => true
  | _ => false

/-- Whether the bound in front has such a mark, behind its binder if it has one. -/
def seesConst (bound : Nat) (nested : Nested) : TreeReader Bool := do
  let inner :=
    match ← get with
    | .group .parentheses body :: _ => body
    | trees => trees
  match (readBinder bound nested).run inner with
  | some (_, rest) => pure (startsConst rest)
  | none => pure false

/-- Passes over a trait with such a mark in front of it. -/
def passConstTrait (bound : Nat) (nested : Nested) : TreeReader Unit := do
  let _ ← readBinder bound nested
  let _ ← passMarks "~"
  if !(← passWord "const") then
    let _ ← wantBody .brackets
  let _ ← readTrait bound nested false
  pure ()

/-- Takes a bound with a mark that says where it holds, as it is. -/
def readConstBound (bound : Nat) (nested : Nested) : TreeReader Bound := do
  let whole : TreeReader Unit := do
    if ← seesGroup .parentheses then within .parentheses (passConstTrait bound nested)
    else passConstTrait bound nested
  return .other (← tokensTaken whole)

/-- Takes a bound. -/
def readBound (bound : Nat) (nested : Nested) : TreeReader Bound := do
  if let some name ← passLifetime then pure (.lifetime name)
  else if ← passWord "use" then
    return .other (.word "use" :: (← readParams bound nested).captured)
  else if ← seesConst bound nested then readConstBound bound nested
  else if ← seesGroup .parentheses then
    within .parentheses (readTrait bound nested true)
  else readTrait bound nested false

/-- Whether a bound begins in front. -/
def startsBound : List TokenTree → Bool
  | .leaf (.word _) _ :: _ => true
  | .group .parentheses _ :: _ => true
  | trees =>
    (lifetime? trees).isSome || (behindMarks? ['?'] trees).isSome
      || (behindMarks? "::".toList trees).isSome || startsConst trees

/-- Takes bounds with a plus sign between each two; `plus` if there may be more than one. -/
def readBoundsWith (bound : Nat) (nested : Nested) (plus : Bool) :
    TreeReader (List Bound × Bool) := do
  if plus then separated "+" (return !startsBound (← get)) (readBound bound nested) bound
  else return ([← readBound bound nested], false)

/-- Takes the bounds that follow a first one. -/
def readMoreBounds (bound : Nat) (nested : Nested) (first : Bound) :
    TreeReader (List Bound × Bool) := do
  if ← passMarks "+" then
    let (rest, trailing) ← readBoundsWith bound nested true
    pure (first :: rest, trailing)
  else pure ([first], false)

/-! ## 4. Arguments -/

/-- Takes a type between angle brackets, or what an associated item has to be. -/
def readTypeArgument (bound : Nat) (nested : Nested) : TreeReader TypeArg := do
  match ← nested.type true with
  | .path false [segment] =>
    if ← passMarks "=" then
      match ← passConstant nested with
      | some value => pure (.assocConst segment value)
      | none => return .assocType segment (← nested.type true)
    else if ← passMarks ":" then
      let (bounds, trailing) ← readBoundsWith bound nested true
      pure (.assocBound segment bounds trailing)
    else pure (.type (.path false [segment]))
  | found => pure (.type found)

/-- Takes an argument between angle brackets.  A lifetime in front of a plus sign is the first of
some bounds. -/
def readArgument (bound : Nat) (nested : Nested) : TreeReader TypeArg := do
  let trees ← get
  match lifetime? trees with
  | some (name, rest) =>
    if (behindMarks? ['+'] rest).isSome then return .type (← nested.type true)
    else
      set rest
      pure (.lifetime name)
  | none =>
    match ← passConstant nested with
    | some value => pure (.const value)
    | none => readTypeArgument bound nested

end Wireform.Derive
