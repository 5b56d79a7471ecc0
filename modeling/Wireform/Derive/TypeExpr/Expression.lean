import Wireform.Derive.Literal
import Wireform.Derive.TypeExpr.Nested

/-!
# The tokens of expressions

Lengths of arrays and constant blocks are expressions.  Nothing is asked of an expression but its
tokens, and these are as the source has them, except for what its parts are known to be:

* a numeral behind a point, or in front of a colon in braces, is a position, and is written as a
  plain decimal number;
* three dots between the ends of a range are the same as two dots and an equals sign;
* types, and what stands in angle brackets, are written as types are;
* the parameters and conditions of an item in a block are left out where there are none.

What is handed to a macro, what one is defined by and what stands in an attribute is no expression
and stays as it is; so does what stands behind `become`, which has no form of its own.
-/
namespace Wireform.Derive

open TreeReader TokenTree

/-- What the tree in front follows, as far as it matters to what the tree is. -/
inductive Place where
  | word (name : String)
  /-- Something else that ends a value. -/
  | value
  /-- A single point. -/
  | point
  /-- The opening of braces, or a comma in them. -/
  | member
  | other
  deriving DecidableEq, Repr

/-- Whether a value may end in front of a place. -/
def Place.endsValue : Place → Bool
  | .word _ => true
  | .value => true
  | _ => false

/-- Three dots: between the ends of a range they include the last one. -/
def threeDots (place : Place) : List Token :=
  [.mark '.', .mark '.', .mark (if place.endsValue then '=' else '.')]

/-- The place behind a mark; `inBraces` if braces stand directly around it. -/
def placeBehind (inBraces : Bool) : Char → Place
  | '.' => .point
  | '>' => .value
  | ',' => if inBraces then .member else .other
  | _ => .other

/-- Whether a word with an exclamation mark and brackets behind it calls a macro; behind most
keywords the mark is an operator. -/
def isMacroName (name : String) : Bool :=
  !keywords.contains name || ["try", "self", "Self", "super", "crate"].contains name

/-- Arguments in angle brackets, as tokens; the flag says whether there is a lifetime among them. -/
def angledArguments? (bound : Nat) (nested : Nested) (trees : List TokenTree) :
    Option (Bool × List Token × List TokenTree) := do
  let ((arguments, trailing), rest) ← (readAngled bound (readArgument bound nested)).run trees
  let parts := TypeArg.tokensOfEach arguments
  return (parts.any Prod.fst, lifetimesFirst trailing parts, rest)

/-- Parameters in angle brackets, as tokens, in the same form. -/
def angledParams? (bound : Nat) (nested : Nested) (trees : List TokenTree) :
    Option (Bool × List Token × List TokenTree) := do
  let (generics, rest) ← (readParams bound nested).run trees
  return (generics.params.any GenericParam.isLifetime, generics.tokens GenericParam.tokens, rest)

/-- What an opening angle bracket behind a word begins: arguments or parameters if there are
lifetimes among them, which a comparison cannot have. -/
def angledBehindWord? (bound : Nat) (nested : Nested) (trees : List TokenTree) :
    Option (List Token × List TokenTree) :=
  match angledArguments? bound nested trees <|> angledParams? bound nested trees with
  | some (true, tokens, rest) => some (tokens, rest)
  | _ => none

/-- Whether a word introduces an item whose name and parameters follow. -/
def introducesItem (word : String) : Bool :=
  ["fn", "struct", "enum", "union", "trait", "type"].contains word

/-- Whether a tree ends what stands in front of it. -/
def endsOperand : TokenTree → Bool
  | .leaf (.mark c) _ => c == ';' || c == ','
  | _ => false

/-- Whether conditions end in front of these trees. -/
def endsConditions : List TokenTree → Bool
  | [] => true
  | .group .braces _ :: _ => true
  | .leaf (.mark c) _ :: _ => c == ';' || c == ',' || c == '='
  | _ => false

/-- What is left of the head of an item when a colon without bounds is left out of it. -/
def withoutEmptyColon : List TokenTree → List TokenTree
  | .leaf (.mark ':') joint :: rest =>
    match rest with
    | .leaf (.word "where") _ :: _ => rest
    | rest => if endsConditions rest then rest else .leaf (.mark ':') joint :: rest
  | trees => trees

/-- The type in front, as tokens. -/
def typeInFront? (nested : Nested) (trees : List TokenTree) :
    Option (List Token × List TokenTree) := do
  let (type, rest) ← (nested.type false).run trees
  return (type.tokens, rest)

/-- What stands in front, when it is more than one tree or not written as it is: its tokens, the
place behind it, and what is left. -/
def unit? (bound : Nat) (nested : Nested) (place : Place) :
    List TokenTree → Option (List Token × Place × List TokenTree)
  | .leaf (.mark '#') _ :: .leaf (.mark '!') _ :: .group .brackets body :: rest =>
    some (.mark '#' :: .mark '!' :: (attributeTokens nested body).tail, place, rest)
  | .leaf (.mark '#') _ :: .group .brackets body :: rest =>
    some (attributeTokens nested body, place, rest)
  | .leaf (.word intro) _ :: .leaf (.word name) _ :: .leaf (.mark '<') joint :: rest => do
    guard (introducesItem intro)
    let (_, tokens, rest) ← angledParams? bound nested (.leaf (.mark '<') joint :: rest)
    return (.word intro :: .word name :: tokens, .value, withoutEmptyColon rest)
  | .leaf (.word "for") _ :: .leaf (.mark '<') joint :: rest => do
    let (tokens, rest) ←
      (readBinder bound nested).run (.leaf (.word "for") false :: .leaf (.mark '<') joint :: rest)
    return (tokens, .value, rest)
  | .leaf (.word "trait") _ :: .leaf (.word name) _ :: .leaf (.mark ':') joint :: rest =>
    some ([.word "trait", .word name], .value, withoutEmptyColon (.leaf (.mark ':') joint :: rest))
  | .leaf (.word "type") _ :: .leaf (.word name) _ :: .leaf (.mark ':') joint :: rest =>
    some ([.word "type", .word name], .value, withoutEmptyColon (.leaf (.mark ':') joint :: rest))
  | .leaf (.word "impl") _ :: .leaf (.mark '<') joint :: rest => do
    let (_, tokens, rest) ← angledParams? bound nested (.leaf (.mark '<') joint :: rest)
    return (.word "impl" :: tokens, .value, rest)
  | .leaf (.word "where") _ :: rest =>
    if endsConditions rest then some ([], .other, rest) else none
  | .leaf (.word "macro_rules") _ :: .leaf (.mark '!') _ :: .leaf name _ :: .group delimiter body
      :: rest =>
    some (.word "macro_rules" :: .mark '!' :: name :: delimiter.enclose (flatten body), .value,
      rest)
  | .leaf (.word "macro") _ :: .leaf name _ :: .group .parentheses params :: .group .braces body
      :: rest =>
    some (.word "macro" :: name :: parenthesized (flatten params) ++ braced (flatten body), .value,
      rest)
  | .leaf (.word "macro") _ :: .leaf name _ :: .group .braces body :: rest =>
    some (.word "macro" :: name :: braced (flatten body), .value, rest)
  | .leaf (.word "builtin") _ :: .leaf (.mark '#') _ :: .leaf name _ :: .group .parentheses body
      :: rest =>
    some (.word "builtin" :: .mark '#' :: name :: parenthesized (flatten body), .value, rest)
  | .leaf (.word "become") _ :: rest =>
    let (call, rest) := rest.span fun tree => !endsOperand tree
    some (.word "become" :: flatten call, .value, rest)
  | .leaf (.word name) _ :: .leaf (.mark '!') _ :: .group delimiter body :: rest =>
    if isMacroName name then
      some (.word name :: .mark '!' :: delimiter.enclose (flatten body), .value, rest)
    else none
  | .leaf (.mark '.') true :: .leaf (.mark '.') true :: .leaf (.mark '.') _ :: rest =>
    some (threeDots place, .other, rest)
  | .leaf (.mark '.') true :: .leaf (.mark '.') _ :: rest =>
    some ([.mark '.', .mark '.'], .other, rest)
  | .leaf (.mark ':') true :: .leaf (.mark ':') _ :: .group .parentheses body :: rest =>
    some ([], place, .group .parentheses body :: rest)
  | .leaf (.mark ':') true :: .leaf (.mark ':') _ :: .leaf (.mark '<') joint :: rest => do
    let (_, tokens, rest) ← angledArguments? bound nested (.leaf (.mark '<') joint :: rest)
    return (pathSeparator ++ tokens, .value, rest)
  | .leaf (.mark ':') true :: .leaf (.mark ':') _ :: rest =>
    some (pathSeparator, .other, rest)
  | .leaf (.mark '<') joint :: rest =>
    match place with
    | .word _ => do
      let (tokens, rest) ← angledBehindWord? bound nested (.leaf (.mark '<') joint :: rest)
      return (tokens, .value, rest)
    | _ => none
  | .leaf (.mark '-') true :: .leaf (.mark '>') _ :: rest => do
    let (tokens, rest) ← typeInFront? nested rest
    return (resultArrow ++ tokens, .value, rest)
  | .leaf (.word "as") _ :: rest => do
    let (tokens, rest) ← typeInFront? nested rest
    return (.word "as" :: tokens, .value, rest)
  | .leaf (.literal text) _ :: .leaf (.mark ':') joint :: rest =>
    if place = .member && (behindMarks? "::".toList (.leaf (.mark ':') joint :: rest)).isNone then
      some ([position text.toList, .mark ':'], .other, rest)
    else none
  | _ => none

/-- The tokens of an expression in a place; each turn passes over at least one tree. -/
def expressionFrom (nested : Nested) (inBraces : Bool) :
    (bound : Nat) → Place → List TokenTree → List Token
  | 0, _, trees => flatten trees
  | _ + 1, _, [] => []
  | bound + 1, place, tree :: rest =>
    match unit? (bound + 1) nested place (tree :: rest) with
    | some (tokens, place, rest) => tokens ++ expressionFrom nested inBraces bound place rest
    | none =>
      match tree with
      | .leaf (.literal text) _ =>
        if place = .point then
          let found := positions text
          let place := if found.getLast? = some (.mark '.') then .point else .value
          found ++ expressionFrom nested inBraces bound place rest
        else .literal text :: expressionFrom nested inBraces bound .value rest
      | .leaf (.word name) _ =>
        .word name :: expressionFrom nested inBraces bound (.word name) rest
      | .leaf (.mark c) _ =>
        .mark c :: expressionFrom nested inBraces bound (placeBehind inBraces c) rest
      | .group delimiter body =>
        delimiter.enclose (nested.expression (delimiter = .braces) body)
          ++ expressionFrom nested inBraces bound .value rest

/-- What is left behind an expression that a comma ends. -/
def behindExpression (nested : Nested) : (bound : Nat) → Place → List TokenTree → List TokenTree
  | 0, _, trees => trees
  | _ + 1, _, [] => []
  | _ + 1, _, .leaf (.mark ',') joint :: rest => .leaf (.mark ',') joint :: rest
  | bound + 1, place, tree :: rest =>
    match unit? (bound + 1) nested place (tree :: rest) with
    | some (_, place, rest) => behindExpression nested bound place rest
    | none => behindExpression nested bound .other rest

/-- The tokens of an expression, which stands directly in braces or not. -/
def expressionWith (bound : Nat) (nested : Nested) (inBraces : Bool) (trees : List TokenTree) :
    List Token :=
  expressionFrom nested inBraces bound (if inBraces then .member else .other) trees

end Wireform.Derive
