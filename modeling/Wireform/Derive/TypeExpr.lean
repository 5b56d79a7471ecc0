import Wireform.Derive.Token

/-!
# Type expressions

The type of a field as its source text has it.  Of the forms a type can take, the derived codecs
admit paths, arrays and parentheses; the others are here to be refused by what they are, and to be
repeated where they stand among the parameters of a path such as `Fn(A)`.  A `group` is a type that
a macro has passed on as one unit; nothing of it is seen in the text.

`TypeExpr.tokens` repeats a type as its source has it, but for two things: lifetimes come before the
other arguments between angle brackets, and the two colons in front of `(` are left out.
-/
namespace Wireform.Derive

mutual

/-- A type. -/
inductive TypeExpr where
  /-- A path; `rooted` if two colons stand in front. -/
  | path (rooted : Bool) (segments : List Segment)
  /-- A path that starts from a type, seen through a trait or not. -/
  | projection (type : TypeExpr) (trait : Option TypeExpr) (segments : List Segment)
  | reference (lifetime : Option String) (isMutable : Bool) (inner : TypeExpr)
  | pointer (isMutable : Bool) (inner : TypeExpr)
  | tuple (items : List TypeExpr) (trailing : Bool)
  | array (element : TypeExpr) (length : List Token)
  | slice (element : TypeExpr)
  /-- Bounds that stand for the types that meet them, with `dyn` in front or bare. -/
  | traitObject (isMarked : Bool) (bounds : List Bound) (trailing : Bool)
  | implTrait (bounds : List Bound) (trailing : Bool)
  /-- A function pointer; `head` is what stands in front of the parameters. -/
  | function (head : List Token) (parameters : List Parameter) (trailing : Bool)
      (result : Option TypeExpr)
  | paren (inner : TypeExpr)
  | group (inner : TypeExpr)
  | never
  | infer
  | macroCall (name : TypeExpr) (arguments : List Token)
  /-- A form that no derivation knows. -/
  | other (tokens : List Token)

/-- A step of a path: a name, and what is applied to it. -/
inductive Segment where
  | plain (name : String)
  /-- Arguments between angle brackets; `colons` if two colons stand in front of them. -/
  | angle (name : String) (colons : Bool) (arguments : List TypeArg) (trailing : Bool)
  | call (name : String) (parameters : List TypeExpr) (trailing : Bool) (result : Option TypeExpr)

/-- An argument between angle brackets. -/
inductive TypeArg where
  | type (type : TypeExpr)
  | const (value : List Token)
  | lifetime (name : String)
  | assocType (item : Segment) (type : TypeExpr)
  | assocConst (item : Segment) (value : List Token)
  | assocBound (item : Segment) (bounds : List Bound) (trailing : Bool)

/-- A parameter of a function pointer: what stands in front of its type, and the type; the dots that
stand for further parameters have none. -/
inductive Parameter where
  | typed (front : List Token) (type : TypeExpr)
  | other (tokens : List Token)

/-- What a type has to meet. -/
inductive Bound where
  | lifetime (name : String)
  /-- A trait with what stands in front of it; `isParen` if parentheses stand around both. -/
  | trait (isParen : Bool) (front : List Token) (trait : TypeExpr)
  | other (tokens : List Token)

end

/-- The name of a step. -/
def Segment.name : Segment → String
  | .plain name => name
  | .angle name _ _ _ => name
  | .call name _ _ _ => name

/-- The tokens of a lifetime. -/
def lifetimeTokens (name : String) : List Token := [.mark '\x27', .word name]

/-- Two colons. -/
def pathSeparator : List Token := [.mark ':', .mark ':']

/-- The arrow in front of a result. -/
def resultArrow : List Token := [.mark '-', .mark '>']

/-- A word, if it is there. -/
def wordIf (isThere : Bool) (word : String) : List Token := if isThere then [.word word] else []

/-- Parts of a list that come in their order, each with the comma that it has in the source. -/
structure Listed where
  isLifetime : Bool
  tokens : List Token
  comma : Bool

/-- Whether a part in a list has a comma: all have one but the last, which has one if the list is
`trailing`. -/
def listed (trailing : Bool) : List (Bool × List Token) → List Listed
  | [] => []
  | [(isLifetime, tokens)] => [⟨isLifetime, tokens, trailing⟩]
  | (isLifetime, tokens) :: rest => ⟨isLifetime, tokens, true⟩ :: listed trailing rest

/-- The tokens of parts with their commas. -/
def listedTokens (parts : List Listed) : List Token :=
  parts.flatMap fun part => part.tokens ++ (if part.comma then [.mark ','] else [])

/-- A list between angle brackets, lifetimes first.  Each part keeps the comma that it has in the
source; when a lifetime was the last one there, a comma is put behind it. -/
def lifetimesFirst (trailing : Bool) (parts : List (Bool × List Token)) : List Token :=
  let lifetimes := (listed trailing parts).filter Listed.isLifetime
  let others := (listed trailing parts).filter fun part => !part.isLifetime
  let joint :=
    match lifetimes.getLast? with
    | some part => if part.comma || others.isEmpty then [] else [Token.mark ',']
    | none => []
  angled (listedTokens lifetimes ++ joint ++ listedTokens others)

mutual

/-- The tokens of a type. -/
def TypeExpr.tokens : TypeExpr → List Token
  | .path rooted segments =>
    (if rooted then pathSeparator else []) ++ Segment.tokensOfPath segments
  | .projection type none segments =>
    angled type.tokens ++ pathSeparator ++ Segment.tokensOfPath segments
  | .projection type (some trait) segments =>
    angled (type.tokens ++ .word "as" :: trait.tokens) ++ pathSeparator
      ++ Segment.tokensOfPath segments
  | .reference lifetime isMutable inner =>
    .mark '&' :: (lifetime.map lifetimeTokens).getD [] ++ wordIf isMutable "mut" ++ inner.tokens
  | .pointer isMutable inner =>
    .mark '*' :: .word (if isMutable then "mut" else "const") :: inner.tokens
  | .tuple items trailing => parenthesized (separatedBy ',' trailing (TypeExpr.tokensOfEach items))
  | .array element length => bracketed (element.tokens ++ .mark ';' :: length)
  | .slice element => bracketed element.tokens
  | .traitObject isMarked bounds trailing =>
    wordIf isMarked "dyn" ++ separatedBy '+' trailing (Bound.tokensOfEach bounds)
  | .implTrait bounds trailing =>
    .word "impl" :: separatedBy '+' trailing (Bound.tokensOfEach bounds)
  | .function head parameters trailing none =>
    head ++ parenthesized (separatedBy ',' trailing (Parameter.tokensOfEach parameters))
  | .function head parameters trailing (some result) =>
    head ++ parenthesized (separatedBy ',' trailing (Parameter.tokensOfEach parameters))
      ++ resultArrow ++ result.tokens
  | .paren inner => parenthesized inner.tokens
  | .group inner => inner.tokens
  | .never => [.mark '!']
  | .infer => [.word "_"]
  | .macroCall name arguments => name.tokens ++ .mark '!' :: arguments
  | .other tokens => tokens

/-- The tokens of each of some types. -/
def TypeExpr.tokensOfEach : List TypeExpr → List (List Token)
  | [] => []
  | type :: rest => type.tokens :: TypeExpr.tokensOfEach rest

/-- The tokens of a step. -/
def Segment.tokens : Segment → List Token
  | .plain name => [.word name]
  | .angle name colons arguments trailing =>
    .word name :: (if colons then pathSeparator else [])
      ++ lifetimesFirst trailing (TypeArg.tokensOfEach arguments)
  | .call name parameters trailing none =>
    .word name :: parenthesized (separatedBy ',' trailing (TypeExpr.tokensOfEach parameters))
  | .call name parameters trailing (some result) =>
    .word name :: parenthesized (separatedBy ',' trailing (TypeExpr.tokensOfEach parameters))
      ++ resultArrow ++ result.tokens

/-- The tokens of a path. -/
def Segment.tokensOfPath : List Segment → List Token
  | [] => []
  | [segment] => segment.tokens
  | segment :: rest => segment.tokens ++ pathSeparator ++ Segment.tokensOfPath rest

/-- The tokens of each of some arguments, and which of these are lifetimes. -/
def TypeArg.tokensOfEach : List TypeArg → List (Bool × List Token)
  | [] => []
  | .type type :: rest => (false, type.tokens) :: TypeArg.tokensOfEach rest
  | .const value :: rest => (false, value) :: TypeArg.tokensOfEach rest
  | .lifetime name :: rest => (true, lifetimeTokens name) :: TypeArg.tokensOfEach rest
  | .assocType item type :: rest =>
    (false, item.tokens ++ .mark '=' :: type.tokens) :: TypeArg.tokensOfEach rest
  | .assocConst item value :: rest =>
    (false, item.tokens ++ .mark '=' :: value) :: TypeArg.tokensOfEach rest
  | .assocBound item bounds trailing :: rest =>
    (false, item.tokens ++ .mark ':' :: separatedBy '+' trailing (Bound.tokensOfEach bounds))
      :: TypeArg.tokensOfEach rest

/-- The tokens of each of some parameters. -/
def Parameter.tokensOfEach : List Parameter → List (List Token)
  | [] => []
  | .typed front type :: rest => (front ++ type.tokens) :: Parameter.tokensOfEach rest
  | .other tokens :: rest => tokens :: Parameter.tokensOfEach rest

/-- The tokens of each of some bounds. -/
def Bound.tokensOfEach : List Bound → List (List Token)
  | [] => []
  | .lifetime name :: rest => lifetimeTokens name :: Bound.tokensOfEach rest
  | .trait false front trait :: rest => (front ++ trait.tokens) :: Bound.tokensOfEach rest
  | .trait true front trait :: rest =>
    parenthesized (front ++ trait.tokens) :: Bound.tokensOfEach rest
  | .other tokens :: rest => tokens :: Bound.tokensOfEach rest

end

end Wireform.Derive
