import Wireform.Schema.Declaration
import Wireform.Schema.Plan

/-!
# Names in emitted Rust sources

A declared type has a module, a file and, if it is a structure, a tag constant, all named after it;
fields and variants keep their names.

* A module is the type's name in lower case with an underscore in front of each word but the first:
  a word starts at a capital behind a lower-case letter or a digit, and at the last capital of a run
  of capitals that a lower-case letter follows.
* A name that is a keyword of the target language is written as a raw identifier, and the few that
  have no raw form get an underscore at the end.
-/
namespace Wireform.Emit

/-- The keywords of Rust that have a raw form. -/
def keywords : List String :=
  ["as", "async", "await", "break", "const", "continue", "dyn", "else", "enum", "extern", "false",
    "fn", "for", "if", "impl", "in", "let", "loop", "match", "mod", "move", "mut", "pub", "ref",
    "return", "static", "struct", "trait", "true", "type", "unsafe", "use", "where", "while",
    "abstract", "become", "box", "do", "final", "gen", "macro", "override", "priv", "try",
    "typeof", "unsized", "virtual", "yield"]

/-- The keywords of Rust that have no raw form. -/
def pathKeywords : List String := ["self", "Self", "super", "crate"]

/-- A name as an identifier. -/
def identOf (name : String) : String :=
  if pathKeywords.contains name then name ++ "_"
  else if keywords.contains name then "r#" ++ name
  else name

/-- Whether a word starts at a capital, given what stands before and behind it. -/
def startsWord (before : Option Char) (behind : List Char) : Bool :=
  match before with
  | none => false
  | some p =>
    p.isLower || p.isDigit || (p.isUpper && (match behind with
      | n :: _ => n.isLower
      | [] => false))

/-- The lower-case form of a name, behind the character `before`. -/
def snakeChars (before : Option Char) : List Char → List Char
  | [] => []
  | c :: rest =>
    if c.isUpper then
      (if startsWord before rest then ['_'] else []) ++ c.toLower :: snakeChars (some c) rest
    else c :: snakeChars (some c) rest

/-- The module of a type. -/
def moduleName (typeName : String) : String :=
  String.ofList (snakeChars none typeName.toList)

/-- A text without the raw marks at its start. -/
def dropRawMarks : List Char → List Char
  | 'r' :: '#' :: rest => dropRawMarks rest
  | text => text

/-- The file of a type: its module, without the mark of a raw identifier. -/
def fileName (typeName : String) : String :=
  String.ofList (dropRawMarks (identOf (moduleName typeName)).toList) ++ ".rs"

/-- The tag constant of a structure. -/
def tagConst (typeName : String) : String :=
  String.ofList ((moduleName typeName).toList.map Char.toUpper) ++ "_TAG"

/-- The file of the dispatch table. -/
def dispatchFile : String := "dispatch.rs"

/-- The file of the module listing. -/
def listingFile : String := "mod.rs"

/-- The constant of the null tag. -/
def nullTagConst : String := "NULL_TAG"

end Wireform.Emit
