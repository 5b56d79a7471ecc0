import Wireform.Derive.Error
import Wireform.Derive.Literal
import Wireform.Derive.TokenTree.Reader
import Wireform.Derive.TypeExpr
import Wireform.Schema.Primitive

/-!
# Attributes

What the attributes of items and fields ask for.

* `wire` holds entries with commas between them, and a comma behind the last one or not.  An entry
  begins with a path, and what may follow depends on the path: `skip` on a field stands alone, and
  `tag` on a structure has an equals sign and an integer behind it.  The entries are read one after
  the other, and the first problem counts.
* `repr` holds names with commas between them.  All of them are read before the first width among
  them is chosen.

Attributes of other names, and paths of several words, say nothing here.
-/
namespace Wireform.Derive

open Schema (IntRepr)
open TokenTree (behindMarks?)

/-- An attribute: its path, and what it holds between brackets. -/
structure Attribute where
  path : List Token
  arguments : List TokenTree

/-- Whether the path of an attribute is one word. -/
def Attribute.isNamed (attr : Attribute) (name : String) : Bool := attr.path = [.word name]

/-- What the attributes with a name hold, one after the other. -/
def argumentsOf (name : String) (attributes : List Attribute) : List (List TokenTree) :=
  (attributes.filter fun attr => attr.isNamed name).map Attribute.arguments

/-! ## 1. Entries -/

/-- The further words of a path, each behind two colons, and what is left. -/
def pathTail : List TokenTree → Except DeriveError (List Token × List TokenTree)
  | .leaf (.mark ':') true :: .leaf (.mark ':') _ :: .leaf (.word name) _ :: rest => do
    let (tail, rest) ← pathTail rest
    pure (pathSeparator ++ .word name :: tail, rest)
  | .leaf (.mark ':') true :: .leaf (.mark ':') _ :: rest => .error (.expectedWord rest.isEmpty)
  | trees => .ok ([], trees)

/-- Whether the trees begin with a literal, or with a number that has a sign. -/
def startsLiteral : List TokenTree → Bool
  | .leaf (.literal _) _ :: _ => true
  | .leaf (.mark '-') _ :: .leaf (.literal text) _ :: _ => text.toList.head?.any Char.isDigit
  | _ => false

/-- The path that an entry begins with, and what is left; any word can be part of it. -/
def entryPath (trees : List TokenTree) : Except DeriveError (List Token × List TokenTree) :=
  let (colons, trees) :=
    match behindMarks? "::".toList trees with
    | some rest => (pathSeparator, rest)
    | none => ([], trees)
  match trees with
  | .leaf (.word name) _ :: rest => do
    let (tail, rest) ← pathTail rest
    pure (colons ++ .word name :: tail, rest)
  | [] => .error .missingEntry
  | trees => .error (if startsLiteral trees then .literalEntry else .foreignEntry)

/-- Goes through at most `bound` entries; `entry` gets what is behind the path of one, and leaves
what is behind the entry. -/
def foldEntries {σ : Type}
    (entry : σ → List Token → List TokenTree → Except DeriveError (σ × List TokenTree)) :
    (bound : Nat) → σ → List TokenTree → Except DeriveError σ
  | 0, state, _ => .ok state
  | _ + 1, state, [] => .ok state
  | bound + 1, state, tree :: trees => do
    let (path, rest) ← entryPath (tree :: trees)
    let (state, rest) ← entry state path rest
    match rest with
    | [] => pure state
    | .leaf (.mark ',') _ :: rest => foldEntries entry bound state rest
    | _ => throw .expectedComma

/-- Goes through the entries of all `wire` attributes. -/
def foldWire {σ : Type} (attributes : List Attribute)
    (entry : σ → List Token → List TokenTree → Except DeriveError (σ × List TokenTree))
    (state : σ) : Except DeriveError σ :=
  (argumentsOf "wire" attributes).foldlM
    (fun state trees => foldEntries entry trees.length state trees) state

/-- Whether a field is skipped. -/
def isSkipped (attributes : List Attribute) : Except DeriveError Bool :=
  foldWire attributes
    (fun _ path rest =>
      if path = [.word "skip"] then .ok (true, rest) else .error .unknownFieldAttribute)
    false

/-! ## 2. Tags -/

/-- The tag that a literal stands for; `negative` if it has a sign. -/
def tagOfLiteral (negative : Bool) (text : String) : Except DeriveError Nat :=
  match integerLiteral? text with
  | none => .error (.expectedInteger false)
  | some n =>
    if negative then .error .invalidDigit
    else if 255 < n then .error .tagTooLarge
    else if n = 0 then .error .tagZero
    else .ok n

/-- The tag in front, and what is left. -/
def tagInFront : List TokenTree → Except DeriveError (Nat × List TokenTree)
  | .leaf (.mark '-') _ :: .leaf (.literal text) _ :: rest =>
    return (← tagOfLiteral true text, rest)
  | .leaf (.literal text) _ :: rest => return (← tagOfLiteral false text, rest)
  | trees => .error (.expectedInteger trees.isEmpty)

/-- The tag that an item asks for; the last one counts. -/
def containerTag (attributes : List Attribute) : Except DeriveError (Option Nat) :=
  foldWire attributes
    (fun _ path rest => do
      if path ≠ [.word "tag"] then throw .unknownContainerAttribute
      match behindMarks? ['='] rest with
      | none => throw .expectedEquals
      | some rest =>
        let (tag, rest) ← tagInFront rest
        pure (some tag, rest))
    none

/-! ## 3. Widths -/

/-- The names in a list, with a comma between each two and behind the last or not. -/
def nameList : List TokenTree → Except DeriveError (List String)
  | [] => .ok []
  | .leaf (.word name) _ :: rest =>
    if keywords.contains name then .error (.keywordName name)
    else
      match rest with
      | [] => .ok [name]
      | .leaf (.mark ',') _ :: rest => return name :: (← nameList rest)
      | _ => .error .expectedComma
  | _ => .error .expectedName

/-- The width that a list of names chooses: the first that is one; `C` is passed over. -/
def reprOfNames : List String → Except DeriveError (Option IntRepr)
  | [] => .ok none
  | name :: rest =>
    match IntRepr.ofName? name with
    | some repr => .ok (some repr)
    | none => if name = "C" then reprOfNames rest else .error (.unsupportedRepr name)

/-- The width that lists of names choose, one after the other. -/
def reprOfLists : List (List TokenTree) → Except DeriveError (Option IntRepr)
  | [] => .ok none
  | trees :: rest => do
    match ← reprOfNames (← nameList trees) with
    | some repr => pure (some repr)
    | none => reprOfLists rest

/-- The width of an enumeration. -/
def enumRepr (attributes : List Attribute) : Except DeriveError IntRepr := do
  return (← reprOfLists (argumentsOf "repr" attributes)).getD IntRepr.default

end Wireform.Derive
