import Wireform.Derive.Expansion.Basic

/-!
# Codecs in source text

The functions of a codec as source text has them, whether a derivation expands to it or a file is
emitted with it: expressions, statements, and the implementations of the two traits.  Only what such
codecs are made of is here.

As with type expressions, the tokens of each form are given by a function.
-/
namespace Wireform.Source

open Derive (Token TypeExpr angled braced bracketed commaSeparated commaTerminated numeral
  parenthesized pathSeparator separatedBy src)

/-! ## 1. Expressions -/

/-- A path to a function, a constant or a type. -/
inductive Path where
  /-- Names, one inside the other; `rooted` if two colons stand in front. -/
  | plain (rooted : Bool) (steps : List String)
  /-- An item of a type, seen through a trait. -/
  | through (type : TypeExpr) (trait : List String) (item : String)
  /-- An item of a type that has a number as argument. -/
  | applied (type : List String) (argument : Nat) (suffix item : String)

/-- How the fields of a structure are given. -/
inductive Style where
  | named
  | tuple
  | unit
  deriving DecidableEq, Repr

/-- An expression. -/
inductive Expr where
  /-- A variable. -/
  | var (name : String)
  /-- A number; `suffix` is its type, if that is written. -/
  | number (n : Nat) (suffix : String)
  /-- What a path leads to. -/
  | item (path : Path)
  /-- A member of `self`. -/
  | member (member : Token)
  | borrow (isMutable : Bool) (of : Expr)
  | call (function : Path) (arguments : List Expr)
  | method (receiver : Expr) (name : String) (arguments : List Expr)
  /-- The value of a result; an error is handed on to the caller. -/
  | attempt (of : Expr)
  | sum (terms : List Expr)
  | unit
  | array (items : List Expr)
  /-- A new structure of the type that is implemented. -/
  | construct (style : Style) (members : List Token) (values : List Expr)
  | choose (test yes no : Expr)

/-- Names with two colons between each two. -/
def namesTokens : List String → List Token
  | [] => []
  | [name] => [.word name]
  | name :: rest => .word name :: (pathSeparator ++ namesTokens rest)

/-- The tokens of a path. -/
def Path.tokens : Path → List Token
  | .plain rooted steps => (if rooted then pathSeparator else []) ++ namesTokens steps
  | .through type trait item => Derive.through type.tokens (namesTokens trait) ++ [.word item]
  | .applied type argument suffix item =>
    namesTokens type ++ pathSeparator ++ angled [numeral argument suffix] ++ pathSeparator
      ++ [.word item]

/-- The tokens of a new structure, given those of its values. -/
def constructTokens (members : List Token) (values : List (List Token)) : Style → List Token
  | .named => .word "Self" :: braced (commaTerminated
      (members.zipWith (fun member value => member :: .mark ':' :: value) values))
  | .tuple => .word "Self" :: parenthesized (commaTerminated values)
  | .unit => [.word "Self"]

mutual

/-- The tokens of an expression. -/
def Expr.tokens : Expr → List Token
  | .var name => [.word name]
  | .number n suffix => [numeral n suffix]
  | .item path => path.tokens
  | .member token => [.word "self", .mark '.', token]
  | .borrow isMutable of => .mark '&' :: Derive.wordIf isMutable "mut" ++ of.tokens
  | .call function arguments =>
    function.tokens ++ parenthesized (commaSeparated (Expr.tokensOfEach arguments))
  | .method receiver name arguments =>
    receiver.tokens ++ .mark '.' :: .word name
      :: parenthesized (commaSeparated (Expr.tokensOfEach arguments))
  | .attempt of => of.tokens ++ [.mark '?']
  | .sum terms => separatedBy '+' false (Expr.tokensOfEach terms)
  | .unit => parenthesized []
  | .array items => bracketed (commaSeparated (Expr.tokensOfEach items))
  | .construct style members values =>
    constructTokens members (Expr.tokensOfEach values) style
  | .choose test yes no =>
    .word "if" :: test.tokens ++ braced yes.tokens ++ .word "else" :: braced no.tokens

/-- The tokens of each of some expressions. -/
def Expr.tokensOfEach : List Expr → List (List Token)
  | [] => []
  | expr :: rest => expr.tokens :: Expr.tokensOfEach rest

end

theorem Expr.tokensOfEach_map {α : Type} (f : α → Expr) (items : List α) :
    Expr.tokensOfEach (items.map f) = items.map fun item => (f item).tokens := by
  induction items with
  | nil => rfl
  | cons item rest ih => exact congrArg (_ :: ·) ih

/-! ## 2. Statements -/

/-- A statement. -/
inductive Statement where
  /-- Binds a variable; `type` is its type, if that is written. -/
  | bind (isMutable : Bool) (name : String) (type : Option String) (value : Expr)
  /-- Uses two variables, or borrows them. -/
  | touch (isBorrow : Bool) (first second : String)
  | perform (value : Expr)
  /-- Adds to a variable. -/
  | increase (name : String) (value : Expr)
  /-- Puts a value in the place of a member of `self`. -/
  | assign (member : Token) (value : Expr)
  | giveBack (value : Expr)
  /-- Binds what is behind the null, if there is something. -/
  | whenSome (name : String) (of : Expr) (body : List Statement)
  | branch (test : Expr) (yes no : List Statement)
  /-- A statement without one of the compiler's warnings. -/
  | allowing (lint : String) (statement : Statement)

mutual

/-- The tokens of a statement. -/
def Statement.tokens : Statement → List Token
  | .bind isMutable name type value =>
    .word "let" :: Derive.wordIf isMutable "mut" ++ .word name
      :: (type.elim [] fun type => [.mark ':', .word type]) ++ .mark '=' :: value.tokens
      ++ [.mark ';']
  | .touch isBorrow first second =>
    let used (name : String) : List Token :=
      (if isBorrow then [.mark '&'] else []) ++ [.word name]
    src "let _ =" ++ parenthesized (commaSeparated [used first, used second]) ++ [.mark ';']
  | .perform value => value.tokens ++ [.mark ';']
  | .increase name value => .word name :: .mark '+' :: .mark '=' :: value.tokens ++ [.mark ';']
  | .assign member value =>
    (Expr.member member).tokens ++ .mark '=' :: value.tokens ++ [.mark ';']
  | .giveBack value => .word "return" :: value.tokens ++ [.mark ';']
  | .whenSome name of body =>
    src "if let Some" ++ parenthesized [.word name] ++ .mark '=' :: of.tokens
      ++ braced (Statement.tokensOfAll body)
  | .branch test yes no =>
    .word "if" :: test.tokens ++ braced (Statement.tokensOfAll yes) ++ .word "else"
      :: braced (Statement.tokensOfAll no)
  | .allowing lint statement =>
    .mark '#' :: bracketed (.word "allow" :: parenthesized [.word lint]) ++ statement.tokens

/-- The tokens of statements, one after the other. -/
def Statement.tokensOfAll : List Statement → List Token
  | [] => []
  | statement :: rest => statement.tokens ++ Statement.tokensOfAll rest

end

theorem Statement.tokensOfAll_append (front rest : List Statement) :
    Statement.tokensOfAll (front ++ rest) =
      Statement.tokensOfAll front ++ Statement.tokensOfAll rest := by
  induction front with
  | nil => rfl
  | cons statement front ih =>
    rw [List.cons_append, Statement.tokensOfAll, Statement.tokensOfAll, ih, List.append_assoc]

theorem Statement.tokensOfAll_flatMap {α : Type} (f : α → List Statement) (items : List α) :
    Statement.tokensOfAll (items.flatMap f) =
      items.flatMap fun item => Statement.tokensOfAll (f item) := by
  induction items with
  | nil => rfl
  | cons item rest ih => rw [List.flatMap_cons, tokensOfAll_append, ih, List.flatMap_cons]

/-- The body of a function: statements, and the expression that it gives back. -/
structure Body where
  statements : List Statement
  result : Expr

/-- The tokens of a body. -/
def Body.tokens (body : Body) : List Token :=
  braced (Statement.tokensOfAll body.statements ++ body.result.tokens)

/-! ## 3. Implementations -/

/-- An encoder; a fixed size that is not written is the default of the trait. -/
structure Encoder where
  fixedSize : Option Expr
  size : Body
  serialize : Body

/-- A decoder. -/
structure Decoder where
  deserialize : Body
  overwrite : Body

/-- The tokens of the constant of the fixed size. -/
def fixedSizeTokens (value : Expr) : List Token :=
  src "const FIXED_SIZE: Option<usize> =" ++ value.tokens ++ [.mark ';']

/-- The tokens of what is inside the implementation of an encoder. -/
def Encoder.tokens (encoder : Encoder) : List Token :=
  encoder.fixedSize.elim [] fixedSizeTokens
    ++ src "fn size(&self) -> usize" ++ encoder.size.tokens
    ++ src "fn serialize(&self, buf: &mut [u8], cursor: &mut usize) -> bitwire::Result<()>"
    ++ encoder.serialize.tokens

/-- The tokens of what is inside the implementation of a decoder. -/
def Decoder.tokens (decoder : Decoder) : List Token :=
  src "fn deserialize(buf: &[u8], cursor: &mut usize) -> bitwire::Result<Self>"
    ++ decoder.deserialize.tokens
    ++ src "fn deserialize_in_place(&mut self, buf: &[u8], cursor: &mut usize)"
    ++ src "-> bitwire::Result<()>" ++ decoder.overwrite.tokens

/-- What a file brings into scope. -/
inductive Import where
  /-- Everything of the module around it. -/
  | around
  /-- One item, by its last name. -/
  | item (path : List String)
  /-- The methods of traits, without the names of these. -/
  | traits (path names : List String)
  deriving DecidableEq, Repr

/-- The tokens of an import. -/
def Import.tokens : Import → List Token
  | .around => src "use super::*;"
  | .item path => .word "use" :: namesTokens path ++ [.mark ';']
  | .traits path names =>
    .word "use" :: namesTokens path ++ pathSeparator
      ++ braced (commaSeparated (names.map fun name => [.word name, .word "as", .word "_"]))
      ++ [.mark ';']

/-- A structure with its codec, and what is in scope where both stand. -/
structure Program where
  imports : List Import
  /-- The traits that are derived for the structure, other than those of the codec. -/
  derives : List String
  members : List (Token × TypeExpr)
  encoder : Encoder
  decoder : Decoder

/-- The tokens of a file that holds a program and nothing else: the structure under a name with its
documentation, all its members public, and its codec. -/
def Program.fileTokens (program : Program) (lint documentation name : String) : List Token :=
  .mark '#' :: .mark '!' :: bracketed (.word "allow" :: parenthesized [.word lint])
    ++ program.imports.flatMap Import.tokens
    ++ .mark '#' :: bracketed [.word "doc", .mark '=', Derive.literalOf documentation]
    ++ .mark '#' :: bracketed (.word "derive" :: parenthesized
        (commaSeparated (program.derives.map fun derived => [.word derived])))
    ++ .word "pub" :: .word "struct" :: .word name :: braced (commaTerminated
        (program.members.map fun member => .word "pub" :: member.1 :: .mark ':' :: member.2.tokens))
    ++ .word "impl" :: Derive.encoderTrait ++ .word "for" :: .word name
      :: braced program.encoder.tokens
    ++ .word "impl" :: Derive.decoderTrait ++ .word "for" :: .word name
      :: braced program.decoder.tokens

end Wireform.Source
