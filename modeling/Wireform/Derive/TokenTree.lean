import Wireform.Derive.Lexeme

/-!
# Token trees

Source text is read as trees of tokens: a bracket and its partner hold the trees between them
together.  `TokenTree.ofText?` reads a text whose brackets match, and `TokenTree.flatten` lays the
trees out again as tokens.
-/
namespace Wireform.Derive

/-- The brackets that hold trees together; angle brackets are plain marks. -/
inductive Delimiter where
  | parentheses
  | brackets
  | braces
  deriving DecidableEq, Repr

namespace Delimiter

/-- The delimiter that a mark opens. -/
def ofOpening? : Char → Option Delimiter
  | '(' => some .parentheses
  | '[' => some .brackets
  | '\x7b' => some .braces
  | _ => none

/-- The delimiter that a mark closes. -/
def ofClosing? : Char → Option Delimiter
  | ')' => some .parentheses
  | ']' => some .brackets
  | '\x7d' => some .braces
  | _ => none

/-- Tokens between the marks of a delimiter. -/
def enclose : Delimiter → List Token → List Token
  | .parentheses, body => parenthesized body
  | .brackets, body => bracketed body
  | .braces, body => braced body

end Delimiter

/-- A token, or trees between brackets. -/
inductive TokenTree where
  /-- A token; `joint` if it is a mark that goes on with the next one. -/
  | leaf (token : Token) (joint : Bool)
  | group (delimiter : Delimiter) (body : List TokenTree)
  deriving Repr

namespace TokenTree

mutual

/-- The tokens of a tree. -/
def tokens : TokenTree → List Token
  | .leaf token _ => [token]
  | .group delimiter body => delimiter.enclose (flatten body)

/-- The tokens of some trees, one tree after the other. -/
def flatten : List TokenTree → List Token
  | [] => []
  | tree :: rest => tree.tokens ++ flatten rest

end

/-- A group whose end has not come yet: its delimiter, and the trees in front of it, last one
first. -/
structure Unclosed where
  delimiter : Delimiter
  before : List TokenTree

/-- Puts lexemes together; `groups` are the unclosed groups, innermost first, and `done` are the
trees in the innermost one, last one first. -/
def build : (groups : List Unclosed) → (done : List TokenTree) → List Lexeme →
    Option (List TokenTree)
  | [], done, [] => some done.reverse
  | _ :: _, _, [] => none
  | groups, done, ⟨.mark c, joint⟩ :: rest =>
    match Delimiter.ofOpening? c, Delimiter.ofClosing? c, groups with
    | some delimiter, _, groups => build (⟨delimiter, done⟩ :: groups) [] rest
    | none, some delimiter, innermost :: groups =>
      if innermost.delimiter = delimiter then
        build groups (.group delimiter done.reverse :: innermost.before) rest
      else none
    | none, some _, [] => none
    | none, none, groups => build groups (.leaf (.mark c) joint :: done) rest
  | groups, done, ⟨token, joint⟩ :: rest => build groups (.leaf token joint :: done) rest

/-- The trees of source text; its brackets have to match. -/
def ofText? (source : String) : Option (List TokenTree) := build [] [] (Lexeme.ofText source)

end TokenTree

end Wireform.Derive
