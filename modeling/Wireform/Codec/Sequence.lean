import Wireform.Codec.Batch

/-!
# Codecs of sequences

Every sequence is its count, then its elements in order, and its null layout is in-band.  The
kinds differ only in what they are called when null is met, and in how much they keep when they
are read over an existing value:

* a *list* is cut to the announced count, its elements are read over, and the rest is appended;
* a *deque* is emptied and filled;
* a *slice* has its elements read over when the count is its own, and is replaced as a whole
  otherwise;
* an *array* has a count that is part of its type; any other count is refused before any element
  is read.
-/
namespace Wireform

/-- The kinds of sequences whose count is free. -/
inductive SequenceKind where
  | list
  | deque
  | slice
  deriving DecidableEq, Repr

/-- What an unexpected null names. -/
def SequenceKind.typeName : SequenceKind → String
  | .list => "Vec"
  | .deque => "VecDeque"
  | .slice => "Box<[T]>"

variable {α : Type}

/-- Writes items one after the other. -/
def writeItems (write : α → Writer) : List α → Writer
  | [] => pure ()
  | item :: rest => do
    write item
    writeItems write rest

/-- Reads over each item in turn, until one fails; the items behind it stay as they are. -/
def overwriteItems (overwrite : Overwriter α) : Overwriter (List α)
  | [], _, cursor => ⟨[], cursor, .ok ()⟩
  | item :: rest, buffer, cursor =>
    let head := overwrite item buffer cursor
    match head.outcome with
    | .ok _ => (overwriteItems overwrite rest buffer head.cursor).map (head.target :: ·)
    | .error failure => ⟨head.target :: rest, head.cursor, .error failure⟩

/-- Reads behind the given items what is missing of `count`; more than `count` would be a count
below zero. -/
def appendMissing (item : Reader α) (count : Nat) (items : List α) (buffer : Buffer)
    (cursor : Nat) : Overwritten (List α) :=
  if items.length ≤ count then appendItems item (count - items.length) items buffer cursor
  else ⟨items, cursor, .error .outOfBounds⟩

namespace Codec

/-- The size of a sequence: by multiplication when all elements have one size. -/
def itemsSize (element : Codec α) (items : List α) : Nat :=
  lengthPrefixSize +
    match element.fixedSize with
    | some size => items.length * size
    | none => items.foldr (fun item total => element.size item + total) 0

/-- Writes the count and the elements. -/
def writeSequence (element : Codec α) (items : List α) : Writer := do
  writeLength items.length
  writeItems element.write items

/-- How a sequence of a kind is read over an existing one. -/
def overwriteSequence (kind : SequenceKind) (element : Codec α) : Overwriter (List α) :=
  fun target buffer cursor =>
    Overwritten.after (readRequiredLength kind.typeName) target buffer cursor fun count cursor =>
      match kind with
      | .list =>
        (overwriteItems element.overwrite (target.take count) buffer cursor).andThen
          fun items cursor => appendMissing element.read count items buffer cursor
      | .deque => appendItems element.read count [] buffer cursor
      | .slice =>
        if count ≠ target.length then
          freshly (readItems element.read count) target buffer cursor
        else overwriteItems element.overwrite target buffer cursor

/-- Sequences of any count. -/
def sequence (kind : SequenceKind) (element : Codec α) : Codec (List α) where
  fixedSize := none
  size := element.itemsSize
  write := element.writeSequence
  read := do
    let count ← readRequiredLength kind.typeName
    readItems element.read count
  overwrite := overwriteSequence kind element
  nullable := .inBand element.itemsSize element.writeSequence (readItems element.read)

/-- Reads the elements of an array of `length`; `count` is what its prefix announced. -/
def arrayBody (length : Nat) (element : Codec α) (count : Nat) : Reader (List α) :=
  if count ≠ length then throw (.wire (.decode (.arrayLength length count)))
  else readItems element.read count

/-- Arrays of a length that is part of their type. -/
def array (length : Nat) (element : Codec α) : Codec (List α) where
  fixedSize := element.fixedSize.map fun size => lengthPrefixSize + length * size
  size := element.itemsSize
  write := element.writeSequence
  read := do
    let count ← readRequiredLength "array"
    arrayBody length element count
  overwrite target buffer cursor :=
    Overwritten.after (readRequiredLength "array") target buffer cursor fun count cursor =>
      if count ≠ length then
        ⟨target, cursor, .error (.wire (.decode (.arrayLength length count)))⟩
      else overwriteItems element.overwrite target buffer cursor
  nullable := .inBand element.itemsSize element.writeSequence (arrayBody length element)

end Codec

end Wireform
