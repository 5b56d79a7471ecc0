import Wireform.Derive.Item.Parser
import Wireform.Json.Members

/-!
# Items as JSON

An item can be given as JSON instead of as source text; `Item.sourceOfJson?` writes the source text
that the JSON stands for, from which the item is then read.  A type is either source text itself, or
an object whose first known member says what form it has; an argument of a path that is no type is
an object too.  A field of a tuple may have a name, which is left out.  A line ends behind each
piece of given text, so that a comment in it ends there.
-/
namespace Wireform.Derive

/-! ## 1. Types -/

/-- Given text, up to the end of a line. -/
def line (text : String) : String := text ++ "\n"

/-- Texts with a comma between each two. -/
def commaJoined (texts : List String) : String := ", ".intercalate texts

/-- An argument of a path; `type` writes the types in it. -/
def argumentSource? (type : Json → Option String) (json : Json) : Option String :=
  match json with
  | .object [("const", value)] => return line (← value.text?)
  | .object [("lifetime", name)] => return "\x27" ++ line (← name.text?)
  | .object [("assoc", .array [name, inner])] =>
    return (← name.text?) ++ " = " ++ (← type inner)
  | json => type json

/-- The step of a path: a name, and its arguments, if it has any. -/
def segmentSource? (type : Json → Option String) (json : Json) : Option String :=
  match json with
  | .array [name] => name.text?
  | .array [name, .array []] => name.text?
  | .array [name, arguments] =>
    return (← name.text?) ++ "<" ++ commaJoined (← arguments.listOf? (argumentSource? type)) ++ ">"
  | _ => none

/-- The type of a form; `part` is the member that names the form, and `whole` has the others. -/
def formSource? (type : Json → Option String) (form : String) (part whole : Json) :
    Option String :=
  match form with
  | "path" => return "::".intercalate (← part.listOf? (segmentSource? type))
  | "ref" => return "&\x27static " ++ (← type part)
  | "ptr" => return "*const " ++ (← type part)
  | "tuple" => return "(" ++ "".intercalate ((← part.listOf? type).map (· ++ ",")) ++ ")"
  | "array" => return "[" ++ (← type part) ++ "; " ++ line (← whole.textAt? "len") ++ "]"
  | "slice" => return "[" ++ (← type part) ++ "]"
  | "dyn" => return "dyn " ++ (← type part)
  | "impl" => return "impl " ++ (← type part)
  | "fn" => return "fn(" ++ commaJoined (← part.listOf? type) ++ ")"
  | "fnpath" => return "Fn(" ++ commaJoined (← part.listOf? type) ++ ")"
  | "paren" => return "(" ++ (← type part) ++ ")"
  | "never" => return "!"
  | "infer" => return "_"
  | "macro" => return (← part.text?) ++ "!()"
  | "qself" => return "<" ++ (← type part) ++ " as Iterator>::Item"
  | _ => none

/-- The type that JSON of at most `height` levels stands for. -/
def typeSourceTo? : (height : Nat) → Json → Option String
  | 0, _ => none
  | _ + 1, .text source => some (line source)
  | height + 1, .object members =>
    members.findSome? fun (form, part) =>
      formSource? (typeSourceTo? height) form part (.object members)
  | _ + 1, _ => none

/-- The type that JSON stands for. -/
def typeSource? (json : Json) : Option String := typeSourceTo? json.height json

/-! ## 2. Attributes and fields -/

/-- An entry of an attribute: text, or a name and the text of a value. -/
def entrySource? : Json → Option String
  | .text entry => some (line entry)
  | .array [.text name, .text value] => some (name ++ " = " ++ line value)
  | _ => none

/-- An attribute: an object whose only member has the entries. -/
def attributeSource? : Json → Option String
  | .object [(path, entries)] =>
    return "#[" ++ path ++ "(" ++ commaJoined (← entries.listOf? entrySource?) ++ ")]\n"
  | _ => none

/-- The attributes of an item or a field, which may have none. -/
def attributesSource? (json : Json) : Option String := do
  return "".intercalate ((← json.given? (Json.listOf? attributeSource?) "attrs").getD [])

/-- A field; `named` if it has a name. -/
def fieldSource? (named : Bool) (json : Json) : Option String := do
  let name ← if named then (json.textAt? "name").map (· ++ ": ") else some ""
  return (← attributesSource? json) ++ name ++ (← typeSource? (← json.at? "type")) ++ ",\n"

/-- The fields of a structure or of a variant. -/
def fieldsSource? (json : Json) : Option String := do
  let fields := (← json.given? Json.items? "fields").getD []
  let parts (named : Bool) : Option String := do
    return "".intercalate (← fields.mapM (fieldSource? named))
  match ← json.textAt? "style" with
  | "named" => return "\x7b" ++ (← parts true) ++ "\x7d"
  | "tuple" => return "(" ++ (← parts false) ++ ")"
  | "unit" => return ""
  | _ => none

/-! ## 3. Items -/

/-- A variant of an enumeration, with its discriminant if it has one. -/
def variantSource? (json : Json) : Option String := do
  let value :=
    match json.textAt? "value" with
    | some value => " = " ++ line value
    | none => ""
  return (← json.textAt? "name") ++ " " ++ (← fieldsSource? json) ++ value ++ ",\n"

/-- What stands behind the name and the parameters of an item of a kind. -/
def bodySource? (json : Json) : (kind : String) → Option String
  | "struct" => do
    let stop := if (← json.textAt? "style") = "named" then "" else ";"
    return (← fieldsSource? json) ++ stop
  | "enum" => do
    let variants ← (← json.itemsAt? "variants").mapM variantSource?
    return "\x7b" ++ "".intercalate variants ++ "\x7d"
  | "union" => return "\x7b\x7d"
  | _ => none

/-- The source text of the item that JSON stands for. -/
def Item.sourceOfJson? (json : Json) : Option String := do
  let kind ← json.textAt? "kind"
  let params := (← json.given? (Json.listOf? Json.text?) "generics").getD []
  let generics := if params.isEmpty then "" else "<" ++ commaJoined (params.map line) ++ ">"
  return (← attributesSource? json) ++ kind ++ " " ++ (← json.textAt? "name") ++ generics ++ " "
    ++ (← bodySource? json kind)

/-- The item that JSON stands for. -/
def Item.ofJson? (json : Json) : Option Item := do Item.ofSource? (← Item.sourceOfJson? json)

end Wireform.Derive
