import Wireform.Derive.TypeExpr.Expression

/-!
# Reading type expressions

`readType` reads a type in any of its forms: paths with their arguments, references, pointers,
arrays, slices, tuples, function pointers, bounds with `dyn` or `impl` in front or bare, calls of
macros, and the two placeholders.  Types, bounds and expressions nest in each other, so the three
readers take a bound on the nesting, for which the length of the source text is enough.
-/
namespace Wireform.Derive

open TreeReader TokenTree

/-! ## 1. Paths -/

/-- Takes the result behind an arrow, if one is in front. -/
def readResult (nested : Nested) : TreeReader (Option TypeExpr) := do
  if ← passMarks "->" then some <$> nested.type false else pure none

/-- Whether an opening is in front, which two colons may precede. -/
def startsApplied (isOpen : List TokenTree → Bool) (trees : List TokenTree) : Bool :=
  isOpen trees || ((behindMarks? "::".toList trees).map isOpen).getD false

/-- Whether angle brackets are opened in front. -/
def startsAngle (trees : List TokenTree) : Bool := (behindMarks? ['<'] trees).isSome

/-- Whether parentheses are in front. -/
def startsParen : List TokenTree → Bool
  | .group .parentheses _ :: _ => true
  | _ => false

/-- Takes a step of a path. -/
def readSegment (bound : Nat) (nested : Nested) : TreeReader Segment := do
  let name ← wantWord
  let trees ← get
  if startsApplied startsAngle trees then
    let colons ← passMarks "::"
    let (arguments, trailing) ← readAngled bound (readArgument bound nested)
    pure (.angle name colons arguments trailing)
  else if startsApplied startsParen trees then
    let _ ← passMarks "::"
    let (parameters, trailing) ←
      within .parentheses (separated "," atEnd (nested.type true) bound)
    return .call name parameters trailing (← readResult nested)
  else pure (.plain name)

/-- Takes steps with two colons between each two. -/
def readSegments (bound : Nat) (nested : Nested) : TreeReader (List Segment) := do
  return (← separated "::" (pure false) (readSegment bound nested) bound).1

/-- Takes a path. -/
def readPath (bound : Nat) (nested : Nested) : TreeReader TypeExpr := do
  let rooted ← passMarks "::"
  return .path rooted (← readSegments bound nested)

/-- Takes a path that starts from a type in angle brackets. -/
def readProjection (bound : Nat) (nested : Nested) : TreeReader TypeExpr := do
  wantMarks "<"
  let inner ← nested.type true
  let trait ← if ← passWord "as" then some <$> readTraitPath nested else pure none
  wantMarks ">"
  wantMarks "::"
  return .projection inner trait (← readSegments bound nested)

/-- Takes a type that begins with the name of a path: a path, the call of a macro, or bounds. -/
def readNamed (bound : Nat) (nested : Nested) (binder : List Token) (plus : Bool) :
    TreeReader TypeExpr := do
  let found ← readPath bound nested
  if ← passMarks "!" then
    let (delimiter, arguments) ← wantGroup
    pure (.macroCall found (delimiter.enclose (flatten arguments)))
  else
    let isSum := plus && (← seesMarks "+")
    if isSum then
      let (bounds, trailing) ← readMoreBounds bound nested (.trait false binder found)
      pure (.traitObject false bounds trailing)
    else if binder.isEmpty then pure found
    else pure (.traitObject false [.trait false binder found] false)

/-! ## 2. Brackets and parentheses -/

/-- The bound that a type in parentheses is when a plus sign follows it. -/
def Bound.ofParen? : TypeExpr → Option Bound
  | .path rooted segments => some (.trait true [] (.path rooted segments))
  | .traitObject false [.trait _ front name] false => some (.trait true front name)
  | .traitObject false [found] false => some found
  | _ => none

/-- Takes what parentheses in front stand for: a tuple, a type, or the first of some bounds. -/
def readParen (bound : Nat) (nested : Nested) (plus : Bool) : TreeReader TypeExpr := do
  let body ← wantBody .parentheses
  if (behindMarks? ['?'] body).isSome then
    let first ← readAll (readTrait bound nested true) body
    let (bounds, trailing) ← readMoreBounds bound nested first
    pure (.traitObject false bounds trailing)
  else
    let (items, trailing) ← readAll (separated "," atEnd (nested.type true) bound) body
    match items, trailing with
    | [inner], false =>
      let isSum := plus && (← seesMarks "+")
      match if isSum then Bound.ofParen? inner else none with
      | some first =>
        let (bounds, trailing) ← readMoreBounds bound nested first
        pure (.traitObject false bounds trailing)
      | none => pure (.paren inner)
    | items, trailing => pure (.tuple items trailing)

/-- Takes what brackets in front stand for: an array or a slice. -/
def readBracket (nested : Nested) : TreeReader TypeExpr :=
  within .brackets do
    let element ← nested.type true
    if ← passMarks ";" then
      let length ← get
      set ([] : List TokenTree)
      pure (.array element (nested.expression false length))
    else pure (.slice element)

/-! ## 3. Function pointers -/

/-- Takes a literal, if one is in front. -/
def passLiteral : TreeReader (List Token) := do
  match ← get with
  | .leaf (.literal text) _ :: rest =>
    set rest
    pure [.literal text]
  | _ => pure []

/-- Takes what stands in front of the parameters of a function pointer. -/
def readFunctionHead : TreeReader (List Token) := do
  let isUnsafe ← passWord "unsafe"
  let isExtern ← passWord "extern"
  let convention ← if isExtern then passLiteral else pure []
  if !(← passWord "fn") then failure
  pure (wordIf isUnsafe "unsafe" ++ wordIf isExtern "extern" ++ convention ++ [.word "fn"])

/-- Takes the name of a parameter and the colon behind it, if they are in front. -/
def readParameterName : TreeReader (List Token) := do
  match ← get with
  | .leaf (.word name) _ :: rest =>
    if (behindMarks? "::".toList rest).isSome then pure []
    else
      match behindMarks? [':'] rest with
      | some rest =>
        set rest
        pure [.word name, .mark ':']
      | none => pure []
  | _ => pure []

/-- Takes a receiver that can be assigned to, with its type if it has one. -/
def passReceiver (nested : Nested) : TreeReader Unit := do
  if !(← passWord "mut") then failure
  let _ ← wantWord
  if ← passMarks ":" then
    let _ ← nested.type true

/-- Whether a receiver that can be assigned to is in front. -/
def startsReceiver : List TokenTree → Bool
  | .leaf (.word "mut") _ :: _ => true
  | _ => false

/-- Takes a parameter of a function pointer. -/
def readParameter (bound : Nat) (nested : Nested) : TreeReader Parameter := do
  let attributes ← readAttributeTokens bound nested
  if startsReceiver (← get) then
    return .other (attributes ++ (← tokensTaken (passReceiver nested)))
  else
    let name ← readParameterName
    if ← passMarks "..." then
      pure (.other (attributes ++ name ++ [.mark '.', .mark '.', .mark '.']))
    else return .typed (attributes ++ name) (← nested.type true)

/-- Takes a function pointer. -/
def readFunction (bound : Nat) (nested : Nested) (binder : List Token) : TreeReader TypeExpr := do
  let head ← readFunctionHead
  let (parameters, trailing) ←
    within .parentheses (separated "," atEnd (readParameter bound nested) bound)
  return .function (binder ++ head) parameters trailing (← readResult nested)

/-! ## 4. Types -/

/-- Takes bounds behind `dyn`.  With a star between, the type has no form of its own. -/
def readDyn (bound : Nat) (nested : Nested) (plus : Bool) : TreeReader TypeExpr := do
  if ← seesMarks "*" then
    let whole : TreeReader Unit := do
      wantMarks "*"
      let _ ← readBoundsWith bound nested plus
      pure ()
    return .other (.word "dyn" :: (← tokensTaken whole))
  else
    let (bounds, trailing) ← readBoundsWith bound nested plus
    pure (.traitObject true bounds trailing)

/-- Takes a type, given the readers of what is nested in it. -/
def readTypeWith (bound : Nat) (nested : Nested) (plus : Bool) : TreeReader TypeExpr := do
  let binder ← readBinder bound nested
  match ← get with
  | .group .parentheses _ :: _ => readParen bound nested plus
  | .group .brackets _ :: _ => readBracket nested
  | .leaf (.mark '*') _ :: .leaf (.word kind) _ :: rest =>
    set rest
    return .pointer (kind == "mut") (← nested.type false)
  | .leaf (.mark '&') _ :: rest =>
    set rest
    let lifetime ← passLifetime
    let isMutable ← passWord "mut"
    return .reference lifetime isMutable (← nested.type false)
  | .leaf (.mark '!') _ :: rest =>
    set rest
    pure .never
  | .leaf (.mark '<') _ :: _ => readProjection bound nested
  | .leaf (.mark '\x27') _ :: _ =>
    let (bounds, trailing) ← readBoundsWith bound nested true
    pure (.traitObject false bounds trailing)
  | .leaf (.word "_") _ :: rest =>
    set rest
    pure .infer
  | .leaf (.word "dyn") _ :: rest =>
    set rest
    readDyn bound nested plus
  | .leaf (.word "impl") _ :: rest =>
    set rest
    let (bounds, trailing) ← readBoundsWith bound nested plus
    pure (.implTrait bounds trailing)
  | .leaf (.word "fn") _ :: _ => readFunction bound nested binder
  | .leaf (.word "unsafe") _ :: _ => readFunction bound nested binder
  | .leaf (.word "extern") _ :: _ => readFunction bound nested binder
  | _ => readNamed bound nested binder plus

mutual

/-- Takes a type, in which other parts nest less than `depth` deep. -/
def readType (bound : Nat) : (depth : Nat) → (plus : Bool) → TreeReader TypeExpr
  | 0, _ => failure
  | depth + 1, plus =>
    readTypeWith bound
      ⟨readType bound depth, readBounds bound depth, expressionTokens bound depth⟩ plus

/-- Takes bounds, in which other parts nest less than `depth` deep. -/
def readBounds (bound : Nat) : (depth : Nat) → (plus : Bool) → TreeReader (List Bound × Bool)
  | 0, _ => failure
  | depth + 1, plus =>
    readBoundsWith bound
      ⟨readType bound depth, readBounds bound depth, expressionTokens bound depth⟩ plus

/-- The tokens of an expression, in which other parts nest less than `depth` deep. -/
def expressionTokens (bound : Nat) :
    (depth : Nat) → (inBraces : Bool) → List TokenTree → List Token
  | 0, _, trees => flatten trees
  | depth + 1, inBraces, trees =>
    expressionWith bound
      ⟨readType bound depth, readBounds bound depth, expressionTokens bound depth⟩ inBraces trees

end

/-- The readers of what is nested in a text of at most `bound` characters. -/
def Nested.ofBound (bound : Nat) : Nested :=
  ⟨readType bound bound, readBounds bound bound, expressionTokens bound bound⟩

end Wireform.Derive
