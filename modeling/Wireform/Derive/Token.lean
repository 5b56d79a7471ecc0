import Wireform.Text.Quoted

/-!
# Tokens

Derived code is a sequence of tokens.  A word is an identifier, raw or not; a literal is a text, a
character or a number as it is written; a mark is one character of punctuation, or a bracket of any
kind.  `Token.render` writes tokens with one space between each two.

A lifetime is the mark `'` and then a word.
-/
namespace Wireform.Derive

/-- A token. -/
inductive Token where
  | word (text : String)
  | literal (text : String)
  | mark (c : Char)
  deriving DecidableEq, Repr

/-- The text of a token. -/
def Token.text : Token → String
  | .word text => text
  | .literal text => text
  | .mark c => String.singleton c

/-- The tokens, with one space between each two. -/
def Token.render (tokens : List Token) : String := " ".intercalate (tokens.map Token.text)

/-- The words that name nothing. -/
def keywords : List String :=
  ["_", "abstract", "as", "async", "await", "become", "box", "break", "const", "continue",
    "crate", "do", "dyn", "else", "enum", "extern", "false", "final", "fn", "for", "if", "impl",
    "in", "let", "loop", "macro", "match", "mod", "move", "mut", "override", "priv", "pub", "ref",
    "return", "Self", "self", "static", "struct", "super", "trait", "true", "try", "type",
    "typeof", "unsafe", "unsized", "use", "virtual", "where", "while", "yield"]

/-- Tokens between braces. -/
def braced (body : List Token) : List Token := .mark '\x7b' :: body ++ [.mark '\x7d']

/-- Tokens between brackets. -/
def bracketed (body : List Token) : List Token := .mark '[' :: body ++ [.mark ']']

/-- Tokens between parentheses. -/
def parenthesized (body : List Token) : List Token := .mark '(' :: body ++ [.mark ')']

/-- Tokens between angle brackets. -/
def angled (body : List Token) : List Token := .mark '<' :: body ++ [.mark '>']

/-- Sequences of tokens with a separator between each two; `trailing` if one stands behind the last
as well. -/
def separatedBy (separator : Char) (trailing : Bool) : List (List Token) → List Token
  | [] => []
  | [tokens] => tokens ++ (if trailing then [.mark separator] else [])
  | tokens :: rest => tokens ++ .mark separator :: separatedBy separator trailing rest

/-- Sequences of tokens with a comma between each two. -/
def commaSeparated (parts : List (List Token)) : List Token := separatedBy ',' false parts

/-- Sequences of tokens with a comma behind each. -/
def commaTerminated (parts : List (List Token)) : List Token := separatedBy ',' true parts

/-- The characters of a text inside quotes.  The short form of the null character would go on with
an octal digit, so that in front of one it has its long form. -/
def literalBody : List Char → List Char
  | [] => []
  | '\x00' :: c :: rest =>
    (if '0' ≤ c ∧ c ≤ '7' then ['\\', 'x', '0', '0'] else ['\\', '0']) ++ literalBody (c :: rest)
  | c :: rest => Text.quoteChar c ++ literalBody rest

/-- A text as a literal. -/
def literalOf (text : String) : Token :=
  .literal (String.ofList ('"' :: literalBody text.toList ++ ['"']))

/-- A number as a literal of an integer type. -/
def numeral (n : Nat) (type : String) : Token := .literal (toString n ++ type)

end Wireform.Derive
