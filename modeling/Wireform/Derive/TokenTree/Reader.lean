import Wireform.Derive.TokenTree

/-!
# Reading token trees

A `TreeReader` takes trees from the front of a list, or fails.  Marks of several characters are
there only if they are joint.  A loop takes a bound on its turns, each of which takes at least one
tree, so the number of trees is enough.
-/
namespace Wireform.Derive

/-- Reads from the front of a list of trees. -/
abbrev TreeReader (α : Type) := StateT (List TokenTree) Option α

namespace TokenTree

/-- The trees behind marks, if these marks are in front: all of them joint to the next one, the last
one joint or not. -/
def behindMarks? : List Char → List TokenTree → Option (List TokenTree)
  | [], trees => some trees
  | [c], .leaf (.mark found) _ :: rest => if found = c then some rest else none
  | c :: more, .leaf (.mark found) true :: rest =>
    if found = c then behindMarks? more rest else none
  | _, _ => none

/-- The lifetime in front, and the trees behind it. -/
def lifetime? : List TokenTree → Option (String × List TokenTree)
  | .leaf (.mark '\x27') _ :: .leaf (.word name) _ :: rest => some (name, rest)
  | _ => none

end TokenTree

namespace TreeReader

open TokenTree

/-- Whether nothing is left. -/
def atEnd : TreeReader Bool := return (← get).isEmpty

/-- Whether marks are in front. -/
def seesMarks (marks : String) : TreeReader Bool :=
  return (behindMarks? marks.toList (← get)).isSome

/-- Whether marks are in front; they are passed over if so. -/
def passMarks (marks : String) : TreeReader Bool := do
  match behindMarks? marks.toList (← get) with
  | some rest =>
    set rest
    pure true
  | none => pure false

/-- Passes over marks, which have to be in front. -/
def wantMarks (marks : String) : TreeReader Unit := do
  if !(← passMarks marks) then failure

/-- Whether a word is in front; it is passed over if so. -/
def passWord (word : String) : TreeReader Bool := do
  match ← get with
  | .leaf (.word found) _ :: rest =>
    if found = word then
      set rest
      pure true
    else pure false
  | _ => pure false

/-- Takes any word, which has to be in front. -/
def wantWord : TreeReader String := do
  match ← get with
  | .leaf (.word text) _ :: rest =>
    set rest
    pure text
  | _ => failure

/-- Takes what `view?` sees in front, if it sees anything. -/
def takeSeen {α : Type} (view? : List TokenTree → Option (α × List TokenTree)) :
    TreeReader (Option α) := do
  match view? (← get) with
  | some (found, rest) =>
    set rest
    pure (some found)
  | none => pure none

/-- Takes a lifetime, if one is in front. -/
def passLifetime : TreeReader (Option String) := takeSeen lifetime?

/-- Whether a group with a delimiter is in front. -/
def seesGroup (delimiter : Delimiter) : TreeReader Bool := do
  match ← get with
  | .group found _ :: _ => pure (found = delimiter)
  | _ => pure false

/-- Takes a group, which has to be in front. -/
def wantGroup : TreeReader (Delimiter × List TokenTree) := do
  match ← get with
  | .group delimiter body :: rest =>
    set rest
    pure (delimiter, body)
  | _ => failure

/-- Takes a group with a delimiter, which has to be in front. -/
def wantBody (delimiter : Delimiter) : TreeReader (List TokenTree) := do
  let (found, body) ← wantGroup
  if found = delimiter then pure body else failure

/-- Reads all of some trees. -/
def readAll {α : Type} (reader : TreeReader α) (trees : List TokenTree) : Option α := do
  let (found, rest) ← reader.run trees
  if rest.isEmpty then pure found else failure

/-- Takes a group with a delimiter and reads all of it. -/
def within {α : Type} (delimiter : Delimiter) (reader : TreeReader α) : TreeReader α := do
  let body ← wantBody delimiter
  readAll reader body

/-- Takes parts with a separator between each two, up to where `stops` says so or no separator
follows; the flag says whether a separator stands behind the last part. -/
def separated {α : Type} (separator : String) (stops : TreeReader Bool) (part : TreeReader α) :
    (bound : Nat) → TreeReader (List α × Bool)
  | 0 => failure
  | bound + 1 => do
    if ← stops then pure ([], true)
    else
      let head ← part
      if ← passMarks separator then
        let (rest, trailing) ← separated separator stops part bound
        pure (head :: rest, trailing)
      else pure ([head], false)

/-- Takes a list between angle brackets. -/
def readAngled {α : Type} (bound : Nat) (part : TreeReader α) : TreeReader (List α × Bool) := do
  wantMarks "<"
  let found ← separated "," (seesMarks ">") part bound
  wantMarks ">"
  pure found

/-- The tokens of what a reader takes, as they are. -/
def tokensTaken {α : Type} (reader : TreeReader α) : TreeReader (List Token) := do
  let before ← get
  let _ ← reader
  return flatten (before.take (before.length - (← get).length))

end TreeReader

end Wireform.Derive
