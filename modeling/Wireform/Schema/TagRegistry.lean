import Wireform.Schema.Error

/-!
# Tags of types

A registry gives types one-byte tags, of which 0 stands for null and is never given away.  A type
is known by a key; it also has a name, which only messages show.

* `register` gives a key the lowest free tag, and a key that has a tag keeps it.
* `registerWithTag` gives a key the tag that it asks for; it fails for tag 0, for a key that has
  another tag, and for a tag that another key has.
* A failing call changes nothing.

The entries are kept in the order of their tags.
-/
namespace Wireform.Schema

/-- A tag with its type's key and name. -/
structure TagEntry (κ : Type) where
  tag : Nat
  key : κ
  name : String
  deriving DecidableEq, Repr

/-- The tags given so far. -/
structure TagRegistry (κ : Type) where
  entries : List (TagEntry κ)
  deriving DecidableEq, Repr

/-- The assignable tags, lowest first. -/
def assignableTags : List Nat := List.range' 1 maxTypes

namespace TagRegistry

variable {κ : Type}

/-- No tag given. -/
def empty : TagRegistry κ := ⟨[]⟩

/-- The tag of a key. -/
def tagOf? [BEq κ] (registry : TagRegistry κ) (key : κ) : Option Nat :=
  (registry.entries.find? fun entry => entry.key == key).map TagEntry.tag

/-- The entry of a tag. -/
def entryOf? (registry : TagRegistry κ) (tag : Nat) : Option (TagEntry κ) :=
  registry.entries.find? fun entry => entry.tag == tag

/-- The key that has a tag. -/
def keyOf? (registry : TagRegistry κ) (tag : Nat) : Option κ :=
  (registry.entryOf? tag).map TagEntry.key

/-- The name of the type that has a tag. -/
def nameOf? (registry : TagRegistry κ) (tag : Nat) : Option String :=
  (registry.entryOf? tag).map TagEntry.name

/-- How many keys have a tag. -/
def size (registry : TagRegistry κ) : Nat := registry.entries.length

/-- The pairs of tag and key, in the order of the tags. -/
def toList (registry : TagRegistry κ) : List (Nat × κ) :=
  registry.entries.map fun entry => (entry.tag, entry.key)

/-- Puts an entry in front of the first with a higher tag. -/
def insertEntry (entry : TagEntry κ) : List (TagEntry κ) → List (TagEntry κ)
  | [] => [entry]
  | other :: rest =>
    if entry.tag < other.tag then entry :: other :: rest else other :: insertEntry entry rest

/-- The lowest tag that no key has. -/
def freeTag? (registry : TagRegistry κ) : Option Nat :=
  assignableTags.find? fun tag => (registry.entryOf? tag).isNone

/-- Gives a key the lowest free tag, unless it has one. -/
def register [BEq κ] (registry : TagRegistry κ) (key : κ) (name : String) :
    Except SchemaError (Nat × TagRegistry κ) :=
  match registry.tagOf? key with
  | some tag => .ok (tag, registry)
  | none =>
    match registry.freeTag? with
    | some tag => .ok (tag, ⟨insertEntry ⟨tag, key, name⟩ registry.entries⟩)
    | none => .error (.tooManyTypes name)

/-- Gives a key the tag that it asks for. -/
def registerWithTag [BEq κ] (registry : TagRegistry κ) (key : κ) (tag : Nat) (name : String) :
    Except SchemaError (Nat × TagRegistry κ) :=
  if tag = 0 then .error (.reservedTag name)
  else
    match registry.tagOf? key with
    | some existing =>
      if existing = tag then .ok (tag, registry)
      else .error (.conflictingTag name existing tag)
    | none =>
      match registry.entryOf? tag with
      | some entry => .error (.duplicateTag tag name entry.name)
      | none => .ok (tag, ⟨insertEntry ⟨tag, key, name⟩ registry.entries⟩)

end TagRegistry

end Wireform.Schema
