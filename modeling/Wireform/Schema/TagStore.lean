import Wireform.Schema.TagRegistry

/-!
# Tags of types, stored

A `TagStore` keeps the pairs of tag and key in three containers: the keys with their tags, and two
lists of places by tag, for the keys and for the names.  The lists are only as long as the highest
tag needs; they are filled up with empty places when a higher one comes.

A call works on the store that it finds and may fail on the way; what it changed until then stays
changed.  `TagRegistry` gives out the same tags, and keeps its entries in one list.
-/
namespace Wireform.Schema

/-- Tags given so far, by key and by tag. -/
structure TagStore (κ : Type) where
  byKey : List (κ × UInt8)
  byTag : List (Option κ)
  names : List (Option String)
  deriving DecidableEq, Repr

namespace TagStore

variable {κ : Type}

/-- No tag given. -/
def empty : TagStore κ := ⟨[], [], []⟩

/-! ## 1. Looking up -/

/-- The key that has a tag. -/
def keyOf? (store : TagStore κ) (tag : UInt8) : Option κ := store.byTag[tag.toNat]?.join

/-- The name of the type that has a tag. -/
def nameOf? (store : TagStore κ) (tag : UInt8) : Option String := store.names[tag.toNat]?.join

/-- The pairs of tag and key, in the order of the tags. -/
def toList (store : TagStore κ) : List (UInt8 × κ) :=
  store.byTag.zipIdx.filterMap fun (key, tag) => key.map fun key => (.ofNat tag, key)

/-- How many keys have a tag. -/
def size (store : TagStore κ) : Nat := store.byKey.length

/-- Whether no key has a tag. -/
def isEmpty (store : TagStore κ) : Bool := store.byKey.isEmpty

/-- The lowest tag that no key has. -/
def freeTag? (store : TagStore κ) : Option UInt8 :=
  (assignableTags.map UInt8.ofNat).find? fun tag => (store.keyOf? tag).isNone

variable [DecidableEq κ]

/-- The tag of a key. -/
def tagOf? (store : TagStore κ) (key : κ) : Option UInt8 := store.byKey.lookup key

/-! ## 2. Changes -/

/-- Gives a key its tag, and takes away the one that it had. -/
def putKey (key : κ) (tag : UInt8) (pairs : List (κ × UInt8)) : List (κ × UInt8) :=
  (key, tag) :: pairs.filter fun pair => pair.1 ≠ key

/-- As many places as asked for: what is left out is cut off, what is missing is empty. -/
def resize {α : Type} (length : Nat) (places : List (Option α)) : List (Option α) :=
  places.take length ++ List.replicate (length - places.length) none

/-- Makes a place for a tag where there is none. -/
def growTo (tag : UInt8) (store : TagStore κ) : TagStore κ :=
  if store.byTag.length ≤ tag.toNat then
    { store with
      byTag := resize (tag.toNat + 1) store.byTag
      names := resize (tag.toNat + 1) store.names }
  else store

/-- Puts a pair of tag and key into all three containers. -/
def insert (key : κ) (tag : UInt8) (name : String) (store : TagStore κ) : TagStore κ :=
  let grown := store.growTo tag
  { byKey := putKey key tag grown.byKey
    byTag := grown.byTag.set tag.toNat (some key)
    names := grown.names.set tag.toNat (some name) }

/-- Takes all tags away. -/
def clear (_ : TagStore κ) : TagStore κ := empty

end TagStore

/-! ## 3. Calls -/

/-- A call that may fail, on a store that it may change. -/
abbrev TagCall (κ : Type) : Type → Type := ExceptT SchemaError (StateM (TagStore κ))

namespace TagCall

variable {κ : Type} [DecidableEq κ]

/-- Gives a key the lowest free tag, unless it has one. -/
def register (key : κ) (name : String) : TagCall κ UInt8 := do
  let store ← get
  match store.tagOf? key with
  | some tag => pure tag
  | none =>
    match store.freeTag? with
    | some tag =>
      modify (TagStore.insert key tag name)
      pure tag
    | none => throw (.tooManyTypes name)

/-- Gives a key the tag that it asks for. -/
def registerWithTag (key : κ) (tag : UInt8) (name : String) : TagCall κ UInt8 := do
  if tag = 0 then throw (.reservedTag name)
  else
    let store ← get
    match store.tagOf? key with
    | some existing =>
      if existing = tag then pure tag
      else throw (.conflictingTag name existing.toNat tag.toNat)
    | none =>
      match store.keyOf? tag with
      | some _ => throw (.duplicateTag tag.toNat name ((store.nameOf? tag).getD ""))
      | none =>
        modify (TagStore.insert key tag name)
        pure tag

/-- Takes all tags away. -/
def clear : TagCall κ Unit := modify TagStore.clear

/-- The result of a call, and the store that it leaves. -/
def on {α : Type} (call : TagCall κ α) (store : TagStore κ) : Except SchemaError α × TagStore κ :=
  call.run.run store

end TagCall

/-- A call of a store by which its state can change. -/
inductive TagRequest (κ : Type) where
  | register (key : κ) (name : String)
  | registerWithTag (key : κ) (tag : UInt8) (name : String)
  | clear
  deriving DecidableEq, Repr

variable {κ : Type} [DecidableEq κ]

/-- What a request is answered with: the tag, if it asks for one. -/
def TagRequest.call : TagRequest κ → TagCall κ (Option UInt8)
  | .register key name => some <$> TagCall.register key name
  | .registerWithTag key tag name => some <$> TagCall.registerWithTag key tag name
  | .clear => (fun _ => none) <$> TagCall.clear

/-- The store after requests made one after the other, those that fail among them. -/
def TagStore.after (requests : List (TagRequest κ)) : TagStore κ :=
  requests.foldl (fun store request => (request.call.on store).2) .empty

end Wireform.Schema
