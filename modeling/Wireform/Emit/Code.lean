/-!
# Source text as a tree

Emitted source is a list of `Code`: lines, and blocks of further code.  A line is made of pieces,
of which those that are identifiers standing for declared names are marked as such, so that what is
written for a name can be told from fixed text.

Rendering indents every line that is not empty by four spaces per enclosing block and ends it with a
line feed.  A block opens with a brace at the end of its header and closes on a line of its own.
-/
namespace Wireform.Emit

/-- A part of a line. -/
inductive Piece where
  /-- Fixed text, and numbers and quoted names. -/
  | text (s : String)
  /-- An identifier that stands for a declared name. -/
  | ident (s : String)
  deriving DecidableEq, Repr

instance : Coe String Piece := ⟨Piece.text⟩

/-- The text of a piece. -/
def Piece.toString : Piece → String
  | .text s => s
  | .ident s => s

/-- The text of a line. -/
def lineText (pieces : List Piece) : String :=
  String.join (pieces.map Piece.toString)

/-- A line, or a block of code. -/
inductive Code where
  | line (pieces : List Piece)
  /-- Code between braces behind a header; `suffix` follows the closing brace. -/
  | block (header : List Piece) (suffix : String) (body : List Code)
  /-- Two blocks, the second behind `else`. -/
  | blockElse (header : List Piece) (body otherwise : List Code)
  deriving Repr

namespace Code

/-- An empty line. -/
def blank : Code := .line []

/-- A line of documentation. -/
def doc (text : String) : Code :=
  .line (if text.isEmpty then ["///"] else ["/// ", text])

/-- A block with nothing behind its closing brace. -/
def plainBlock (header : List Piece) (body : List Code) : Code := .block header "" body

/-- A line of text inside `depth` blocks; an empty line carries no indentation. -/
def renderLine (depth : Nat) (text : String) : String :=
  if text.isEmpty then "\n"
  else String.join (List.replicate depth "    ") ++ text ++ "\n"

/-- The line that opens a block. -/
def openingLine (header : String) : String :=
  if header.isEmpty then "\x7b" else header ++ " \x7b"

mutual

/-- The text of code inside `depth` blocks. -/
def render (depth : Nat) : Code → String
  | .line pieces => renderLine depth (lineText pieces)
  | .block header suffix body =>
    renderLine depth (openingLine (lineText header)) ++ renderAll (depth + 1) body
      ++ renderLine depth ("\x7d" ++ suffix)
  | .blockElse header body otherwise =>
    renderLine depth (lineText header ++ " \x7b") ++ renderAll (depth + 1) body
      ++ renderLine depth "\x7d else \x7b" ++ renderAll (depth + 1) otherwise
      ++ renderLine depth "\x7d"

/-- The text of a list of code inside `depth` blocks. -/
def renderAll (depth : Nat) : List Code → String
  | [] => ""
  | code :: rest => render depth code ++ renderAll depth rest

end

mutual

/-- The pieces of code, in order. -/
def pieces : Code → List Piece
  | .line pieces => pieces
  | .block header _ body => header ++ piecesAll body
  | .blockElse header body otherwise => header ++ piecesAll body ++ piecesAll otherwise

/-- The pieces of a list of code, in order. -/
def piecesAll : List Code → List Piece
  | [] => []
  | code :: rest => pieces code ++ piecesAll rest

end

end Code

/-- The identifiers that a file writes for declared names. -/
def declaredIdents (file : List Code) : List String :=
  (Code.piecesAll file).filterMap fun
    | .text _ => none
    | .ident s => some s

/-- The text of a file. -/
def fileText (file : List Code) : String := Code.renderAll 0 file

end Wireform.Emit
