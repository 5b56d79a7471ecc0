import Wireform.Json.Basic

/-!
# Looking into JSON values

What a value holds, if it is of the form that is asked for: `text?`, `int?` and the like for a
value, `textAt?` and the like for a member of an object.  `height` is the number of levels of a
value, which bounds every walk down through its parts.
-/
namespace Wireform.Json

/-! ## 1. Forms -/

/-- A text. -/
def text? : Json → Option String
  | .text s => some s
  | _ => none

/-- An integer. -/
def int? : Json → Option Int
  | .number (.integer n) => some n
  | _ => none

/-- A natural number. -/
def nat? : Json → Option Nat
  | .number (.integer (.ofNat n)) => some n
  | _ => none

/-- A truth value. -/
def bool? : Json → Option Bool
  | .bool b => some b
  | _ => none

/-- The elements of an array. -/
def items? : Json → Option (List Json)
  | .array items => some items
  | _ => none

/-- The elements of an array, each read by `element`. -/
def listOf? {α : Type} (element : Json → Option α) (json : Json) : Option (List α) := do
  (← json.items?).mapM element

/-- Null, or what is read by `read?`. -/
def orNull? {α : Type} (read? : Json → Option α) : Json → Option (Option α)
  | .null => some none
  | json => (read? json).map some

/-! ## 2. Members -/

/-- The first member of a name. -/
def at? (json : Json) (name : String) : Option Json :=
  match json with
  | .object members => members.lookup name
  | _ => none

/-- The text of a member. -/
def textAt? (json : Json) (name : String) : Option String := do (← json.at? name).text?

/-- The natural number of a member. -/
def natAt? (json : Json) (name : String) : Option Nat := do (← json.at? name).nat?

/-- The truth value of a member. -/
def boolAt? (json : Json) (name : String) : Option Bool := do (← json.at? name).bool?

/-- The elements of a member. -/
def itemsAt? (json : Json) (name : String) : Option (List Json) := do (← json.at? name).items?

/-- What is read from a member; nothing if the member is missing or null. -/
def given? {α : Type} (read? : Json → Option α) (json : Json) (name : String) :
    Option (Option α) :=
  match json.at? name with
  | some value => value.orNull? read?
  | none => some none

/-! ## 3. Height -/

mutual

/-- How many levels a value has. -/
def height : Json → Nat
  | .array items => heightOfItems items + 1
  | .object members => heightOfMembers members + 1
  | _ => 1

/-- How many levels the highest element has. -/
def heightOfItems : List Json → Nat
  | [] => 0
  | item :: rest => max item.height (heightOfItems rest)

/-- How many levels the highest member has. -/
def heightOfMembers : List (String × Json) → Nat
  | [] => 0
  | (_, value) :: rest => max value.height (heightOfMembers rest)

end

end Wireform.Json
