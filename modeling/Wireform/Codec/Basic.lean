import Wireform.Cursor

/-!
# Codecs

A `Codec α` is everything that the wire knows about a type: its size, when that does not depend on
the value; the size of a value; how a value is written, read afresh, and read over an existing
value; and its `NullLayout`, the form of an optional value where no bitset records its absence.

There are two null layouts.

* `NullLayout.marker`: one byte, 0 for absent and 1 for present, then the value if present.
* `NullLayout.inBand`: for types that start with a length prefix, the prefix of null instead of
  the value.

Reading over an existing value (`Overwriter`) keeps what it can of the target.  When it fails, the
target is what had been made of it by then.  `freshly` is the overwriter of types that reuse
nothing: it reads a value and, only if that succeeds, puts it in the target's place.
-/
namespace Wireform

/-- What reading over a target leaves: the target, the cursor, and whether the read succeeded. -/
structure Overwritten (α : Type) where
  target : α
  cursor : Nat
  outcome : Except Failure Unit
  deriving Repr

/-- Reads a value over an existing one. -/
abbrev Overwriter (α : Type) := α → Buffer → Nat → Overwritten α

/-- How an optional value is written where nothing else records whether it is there. -/
structure NullLayout (α : Type) where
  size : Option α → Nat
  write : Option α → Writer
  read : Reader (Option α)

/-- How values of a type are measured, written and read. -/
structure Codec (α : Type) where
  /-- The size of every value, when there is one such size. -/
  fixedSize : Option Nat
  /-- How many bytes a value takes. -/
  size : α → Nat
  write : α → Writer
  read : Reader α
  overwrite : Overwriter α
  nullable : NullLayout α

variable {α β : Type}

/-! ## 1. Reading over a target -/

namespace Overwritten

/-- Carries the target to another type. -/
def map (f : α → β) (result : Overwritten α) : Overwritten β :=
  ⟨f result.target, result.cursor, result.outcome⟩

/-- Goes on from the target and the cursor, unless the read has failed. -/
def andThen (result : Overwritten α) (next : α → Nat → Overwritten α) : Overwritten α :=
  match result.outcome with
  | .ok _ => next result.target result.cursor
  | .error _ => result

/-- The target of a successful read, or its failure. -/
def toResult (result : Overwritten α) : EStateM.Result Failure Nat α :=
  match result.outcome with
  | .ok _ => .ok result.target result.cursor
  | .error failure => .error failure result.cursor

end Overwritten

/-- Runs a reader before an overwriter that depends on what it read; a failure leaves the target
alone. -/
def Overwritten.after (first : Reader β) (target : α) (buffer : Buffer) (cursor : Nat)
    (next : β → Nat → Overwritten α) : Overwritten α :=
  match first buffer cursor with
  | .ok value cursor => next value cursor
  | .error failure cursor => ⟨target, cursor, .error failure⟩

/-- Reads a new value and puts it in the target's place if it is read to its end. -/
def freshly (read : Reader α) : Overwriter α := fun target buffer cursor =>
  Overwritten.after read target buffer cursor fun value cursor => ⟨value, cursor, .ok ()⟩

/-! ## 2. Null layouts -/

namespace NullLayout

/-- A presence byte before the value. -/
def marker (size : α → Nat) (write : α → Writer) (read : Reader α) : NullLayout α where
  size
    | none => 1
    | some value => 1 + size value
  write
    | none => writeByte 0
    | some value => do
      writeByte 1
      write value
  read := do
    let offset ← get
    let found ← readByte
    if found = 0 then pure none
    else if found = 1 then do
      let value ← read
      pure (some value)
    else throw (.wire (.decode (.badMarker offset found)))

/-- The prefix of null in the place of the length prefix; `body` reads what follows a prefix. -/
def inBand (size : α → Nat) (write : α → Writer) (body : Nat → Reader α) : NullLayout α where
  size
    | none => lengthPrefixSize
    | some value => size value
  write
    | none => writeNullLength
    | some value => write value
  read := do
    match ← readLength with
    | none => pure none
    | some length => do
      let value ← body length
      pure (some value)

end NullLayout

/-! ## 3. Building codecs -/

namespace Codec

/-- A codec that reuses nothing when it reads over a value, and that marks absence by a byte. -/
def plain (fixedSize : Option Nat) (size : α → Nat) (write : α → Writer) (read : Reader α) :
    Codec α where
  fixedSize := fixedSize
  size := size
  write := write
  read := read
  overwrite := freshly read
  nullable := .marker size write read

/-- A codec whose values all take `width` bytes. -/
def ofWidth (width : Nat) (write : α → Writer) (read : Reader α) : Codec α :=
  plain (some width) (fun _ => width) write read

/-- Optional values as values of their own, in the null layout of the inner type. -/
def option (inner : Codec α) : Codec (Option α) :=
  plain none inner.nullable.size inner.nullable.write inner.nullable.read

end Codec

/-- One way of being a `β`: how an `α` is one, and which `β` come from an `α`. -/
structure Case (α β : Type) where
  wrap : α → β
  get? : β → Option α
  get?_wrap : ∀ a, get? (wrap a) = some a
  wrap_of_get? : ∀ {b a}, get? b = some a → wrap a = b

/-- Reading over one case of a dynamic type; `read` reads a new value when the target is of another
case. -/
def Overwriter.lift (overwrite : Overwriter α) (case : Case α β) (read : Reader α) :
    Overwriter β := fun target buffer cursor =>
  match case.get? target with
  | some inner => (overwrite inner buffer cursor).map case.wrap
  | none => freshly (do let inner ← read; pure (case.wrap inner)) target buffer cursor

namespace NullLayout

/-- The null layout of one case of a dynamic type. -/
def lift (layout : NullLayout α) (case : Case α β) : NullLayout β where
  size
    | none => layout.size none
    | some value =>
      match case.get? value with
      | some inner => layout.size (some inner)
      | none => 0
  write
    | none => layout.write none
    | some value =>
      match case.get? value with
      | some inner => layout.write (some inner)
      | none => throw .mismatch
  read := do
    let value ← layout.read
    pure (value.map case.wrap)

end NullLayout

namespace Codec

/-- The codec of one case of a dynamic type; a value of another case is a mismatch. -/
def lift (codec : Codec α) (case : Case α β) : Codec β where
  fixedSize := codec.fixedSize
  size value :=
    match case.get? value with
    | some inner => codec.size inner
    | none => 0
  write value :=
    match case.get? value with
    | some inner => codec.write inner
    | none => throw .mismatch
  read := do
    let inner ← codec.read
    pure (case.wrap inner)
  overwrite := Overwriter.lift codec.overwrite case codec.read
  nullable := codec.nullable.lift case

/-! ## 4. Whole values -/

/-- Writes a value into a buffer of exactly its announced size.  A writer that disagrees with that
size is reported under `typeName`. -/
def encode (codec : Codec α) (typeName : String) (value : α) : Except Failure Buffer :=
  let size := codec.size value
  let written := Writer.run (codec.write value) (List.replicate size 0) 0
  match written.outcome with
  | .error failure => .error failure
  | .ok _ =>
    if written.output.cursor = size then .ok written.output.buffer
    else .error (.wire (.encode (.sizeMismatch typeName size written.output.cursor)))

/-- Reads a value from the start of a buffer; what follows it is ignored. -/
def decode (codec : Codec α) (buffer : Buffer) : Except Failure α :=
  (Reader.run codec.read buffer 0).outcome

/-- Reads a value from the start of a buffer over an existing one. -/
def decodeInto (codec : Codec α) (target : α) (buffer : Buffer) : Overwritten α :=
  codec.overwrite target buffer 0

/-- The codec that is out of nestings: it fails whatever it is asked. -/
def exhausted : Codec α :=
  plain none (fun _ => 0) (fun _ => throw .exhausted) (throw .exhausted)

/-- A codec that is worked out only when a value is measured, written or read; its fixed size is
known beforehand.  Recursive types are built from such codecs. -/
def deferred (fixedSize : Option Nat) (codec : Unit → Codec α) : Codec α where
  fixedSize := fixedSize
  size value := (codec ()).size value
  write value output := (codec ()).write value output
  read buffer cursor := (codec ()).read buffer cursor
  overwrite target buffer cursor := (codec ()).overwrite target buffer cursor
  nullable :=
    { size := fun value => (codec ()).nullable.size value
      write := fun value output => (codec ()).nullable.write value output
      read := fun buffer cursor => (codec ()).nullable.read buffer cursor }

/-- Reads a value that is known to be present into an optional slot, over the old one if the slot
holds one. -/
def overwritePresent (codec : Codec α) : Overwriter (Option α) := fun slot buffer cursor =>
  match slot with
  | some value => (codec.overwrite value buffer cursor).map some
  | none => freshly (do let value ← codec.read; pure (some value)) none buffer cursor

/-- The sum of sizes that are all fixed; `none` as soon as one of them is not. -/
def sumFixedSizes : List (Option Nat) → Option Nat
  | [] => some 0
  | none :: _ => none
  | some size :: rest => (sumFixedSizes rest).map (size + ·)

end Codec

end Wireform
