import Wireform.Codec.Batch
import Wireform.Codec.Sequence

/-!
# Codecs of maps

A map is its count, then key and value of every entry in the map's order, and its null layout is
in-band.  Reading a map inserts the entries one after the other: the last value of a key wins.

The kinds differ in the order of their entries.  A *sorted* map is in the order of its keys, an
*ordered* one in the order in which its keys first came.  The hashed kinds promise no order; here
their entries are kept in the order of the keys, so that equal maps are equal lists.
-/
namespace Wireform

/-- The kinds of maps. -/
inductive MapKind where
  | hashed
  | seeded
  | sorted
  | ordered
  deriving DecidableEq, Repr

/-- What an unexpected null names when a map is read afresh. -/
def MapKind.typeName : MapKind → String
  | .hashed => "HashMap"
  | .seeded => "AHashMap"
  | .sorted => "BTreeMap"
  | .ordered => "IndexMap"

/-- What an unexpected null names when a map is read over an existing one: a seeded map is read
over as the hashed map that it holds. -/
def MapKind.overwriteName : MapKind → String
  | .seeded => MapKind.hashed.typeName
  | kind => kind.typeName

variable {κ ν : Type}

/-- Inserts in key order; the value of an equal key is replaced. -/
def insertSorted [Ord κ] (key : κ) (value : ν) : List (κ × ν) → List (κ × ν)
  | [] => [(key, value)]
  | entry :: rest =>
    match compare key entry.1 with
    | .lt => (key, value) :: entry :: rest
    | .eq => (entry.1, value) :: rest
    | .gt => entry :: insertSorted key value rest

/-- Inserts behind all entries, or replaces the value of an equal key where it stands. -/
def insertLast [Ord κ] (key : κ) (value : ν) : List (κ × ν) → List (κ × ν)
  | [] => [(key, value)]
  | entry :: rest =>
    if compare key entry.1 = .eq then (entry.1, value) :: rest
    else entry :: insertLast key value rest

/-- Inserts an entry as the kind of the map has it. -/
def MapKind.insert [Ord κ] (kind : MapKind) (key : κ) (value : ν) :
    List (κ × ν) → List (κ × ν) :=
  match kind with
  | .ordered => insertLast key value
  | _ => insertSorted key value

/-- The map that comes of inserting the pairs one after the other. -/
def MapKind.ofPairs [Ord κ] (kind : MapKind) (pairs : List (κ × ν)) : List (κ × ν) :=
  pairs.foldl (fun entries pair => kind.insert pair.1 pair.2 entries) []

/-- The sink of a map. -/
def Sink.entries [Ord κ] (kind : MapKind) : Sink (List (κ × ν)) (κ × ν) where
  reserve _ entries := entries
  put pair entries := kind.insert pair.1 pair.2 entries

namespace Codec

/-- Writes a key and its value. -/
def writeEntry (key : Codec κ) (value : Codec ν) (entry : κ × ν) : Writer := do
  key.write entry.1
  value.write entry.2

/-- Reads a key and its value. -/
def readEntry (key : Codec κ) (value : Codec ν) : Reader (κ × ν) := do
  let k ← key.read
  let v ← value.read
  pure (k, v)

/-- The size of a map: by multiplication when all keys and all values have one size each. -/
def entriesSize (key : Codec κ) (value : Codec ν) (entries : List (κ × ν)) : Nat :=
  lengthPrefixSize +
    match key.fixedSize, value.fixedSize with
    | some k, some v => entries.length * (k + v)
    | _, _ => entries.foldr (fun entry total => key.size entry.1 + value.size entry.2 + total) 0

/-- Writes the count and the entries. -/
def writeEntries (key : Codec κ) (value : Codec ν) (entries : List (κ × ν)) : Writer := do
  writeLength entries.length
  writeItems (writeEntry key value) entries

/-- Reads `count` entries into an empty map. -/
def fillEntries [Ord κ] (kind : MapKind) (key : Codec κ) (value : Codec ν) (count : Nat)
    (buffer : Buffer) (cursor : Nat) : Overwritten (List (κ × ν)) :=
  fill (Sink.entries kind) (readEntry key value) count [] buffer cursor

/-- Reads the entries behind a count. -/
def entriesBody [Ord κ] (kind : MapKind) (key : Codec κ) (value : Codec ν) (count : Nat) :
    Reader (List (κ × ν)) := fun buffer cursor =>
  (fillEntries kind key value count buffer cursor).toResult

/-- Maps. -/
def mapping [Ord κ] (kind : MapKind) (key : Codec κ) (value : Codec ν) :
    Codec (List (κ × ν)) where
  fixedSize := none
  size := entriesSize key value
  write := writeEntries key value
  read := do
    let count ← readRequiredLength kind.typeName
    entriesBody kind key value count
  overwrite target buffer cursor :=
    Overwritten.after (readRequiredLength kind.overwriteName) target buffer cursor
      fun count cursor => fillEntries kind key value count buffer cursor
  nullable := .inBand (entriesSize key value) (writeEntries key value) (entriesBody kind key value)

end Codec

end Wireform
