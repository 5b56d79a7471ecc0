import Wireform.Codec.Basic

/-!
# Reading over shared values

A box that may have a second owner is read over in place only while it has one owner.  While it has
two, a new value is read instead, and only if that succeeds do the owners part: the reader gets the
new value, and the other one keeps the old.
-/
namespace Wireform

/-- A boxed value, as one of at most two owners sees it. -/
inductive SharedBox (α : Type) where
  /-- There is no other owner. -/
  | sole (value : α)
  /-- Both owners hold the same box. -/
  | joint (value : α)
  /-- The owners have parted. -/
  | apart (value other : α)
  deriving DecidableEq, Repr

variable {α : Type}

namespace SharedBox

/-- A boxed value whose owner may or may not be the only one. -/
def ofOwners (isJoint : Bool) (value : α) : SharedBox α :=
  if isJoint then .joint value else .sole value

/-- What the owner at hand sees. -/
def value : SharedBox α → α
  | .sole value => value
  | .joint value => value
  | .apart value _ => value

/-- What the other owner sees. -/
def other? : SharedBox α → Option α
  | .sole _ => none
  | .joint value => some value
  | .apart _ other => some other

/-- Whether there is another owner that holds the same box. -/
def isJoint : SharedBox α → Bool
  | .joint _ => true
  | _ => false

/-- Reads over a boxed value. -/
def overwrite (codec : Codec α) : Overwriter (SharedBox α) := fun box buffer cursor =>
  match box with
  | .sole value => (codec.overwrite value buffer cursor).map .sole
  | .joint value =>
    Overwritten.after codec.read (.joint value) buffer cursor fun fresh cursor =>
      ⟨.apart fresh value, cursor, .ok ()⟩
  | .apart value other => (codec.overwrite value buffer cursor).map (.apart · other)

end SharedBox

/-- Which shared values have a second owner when they are read over, told by what they hold and by
where the cursor stands. -/
abbrev Sharing (α : Type) := α → Nat → Bool

/-- No shared value has a second owner. -/
def Sharing.none : Sharing α := fun _ _ => false

/-- The codec of a shared value, as the owner at hand sees it. -/
def Codec.shared (sharing : Sharing α) (inner : Codec α) : Codec α where
  fixedSize := inner.fixedSize
  size := inner.size
  write := inner.write
  read := inner.read
  overwrite target buffer cursor :=
    (SharedBox.overwrite inner (.ofOwners (sharing target cursor) target) buffer cursor).map
      SharedBox.value
  nullable := inner.nullable

end Wireform
