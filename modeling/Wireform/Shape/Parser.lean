import Wireform.Shape
import Wireform.Text.Digits

/-!
# Shapes in writing

A shape is written as the name of a leaf or of a named type, or as a constructor with its arguments
between angle brackets, separated by commas and without blanks: `opt`, `box`, `arc`, `vec`, `deque`
and `slice` of one shape, `arr` of a shape and a length, and `hmap`, `fxmap`, `amap`, `bmap` and
`imap` of a key and a value.  Any other name in front of a bracket is part of the name of a named
type, together with the argument.
-/
namespace Wireform.Shape

/-- Reads from the front of a written shape. -/
abbrev ShapeReader (α : Type) := StateT (List Char) Option α

/-- Whether a character is part of a name or of a length. -/
def isNameChar (c : Char) : Bool := c != '<' && c != '>' && c != ','

/-- Takes a name. -/
def takeName : ShapeReader String := do
  let (name, rest) := (← get).span isNameChar
  set rest
  pure (String.ofList name)

/-- Takes one given character. -/
def takeMark (c : Char) : ShapeReader Unit := do
  match ← get with
  | found :: rest => if found = c then set rest else failure
  | [] => failure

/-- The constructor of one argument that a name stands for. -/
def wrapper? : String → Option (Shape → Shape)
  | "opt" => some .option
  | "box" => some .boxed
  | "arc" => some .shared
  | "vec" => some (.sequence .list)
  | "deque" => some (.sequence .deque)
  | "slice" => some (.sequence .slice)
  | _ => none

/-- The kind of map that a name stands for. -/
def mapKind? : String → Option MapKind
  | "hmap" | "fxmap" => some .hashed
  | "amap" => some .seeded
  | "bmap" => some .sorted
  | "imap" => some .ordered
  | _ => none

/-- The shape of a name without arguments. -/
def ofName (name : String) : Shape :=
  match Schema.Primitive.ofName? name, name with
  | some p, _ => .leaf (.primitive p)
  | none, "usize" => .leaf .usize
  | none, "isize" => .leaf .isize
  | none, "smol" => .leaf .smol
  | none, _ => .named name

/-- Takes the arguments that belong to a name; `shape` takes a shape among them. -/
def takeArguments (shape : ShapeReader Shape) (name : String) : ShapeReader Shape := do
  match wrapper? name, mapKind? name with
  | some wrap, _ => wrap <$> shape
  | none, some kind => do
    let key ← shape
    takeMark ','
    let value ← shape
    pure (.mapping kind key value)
  | none, none =>
    if name = "arr" then do
      let element ← shape
      takeMark ','
      let length ← takeName
      match Text.natOf? length.toList with
      | some length => pure (.array length element)
      | none => failure
    else do
      let argument ← takeName
      pure (.named (name ++ "<" ++ argument ++ ">"))

/-- Takes a shape that nests at most `depth` deep. -/
def takeShape : (depth : Nat) → ShapeReader Shape
  | 0 => failure
  | depth + 1 => do
    let name ← takeName
    if (← get).head? = some '<' then do
      takeMark '<'
      let shape ← takeArguments (takeShape depth) name
      takeMark '>'
      pure shape
    else pure (ofName name)

/-- The shape that a text is the written form of. -/
def parse? (text : String) : Option Shape := do
  let (shape, rest) ← (takeShape text.length).run text.toList
  if rest.isEmpty then pure shape else failure

end Wireform.Shape
