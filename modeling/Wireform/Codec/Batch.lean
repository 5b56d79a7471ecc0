import Wireform.Codec.Basic

/-!
# Reading a counted run of items in batches

A collection announces how many items follow.  Room for them is made one batch at a time, so a
corrupt count fails on the missing bytes before room for items that are not there is asked for.

The items come from a `Supply`, which reads one of them at each call and may remember something from
one call to the next.  `draw` puts them one by one into a `Sink`: up to `batchThreshold` of them in a
single batch, more in batches of `batchSize`.  What has been put into the sink stays there when an
item fails.  The items of a collection come from a reader, which remembers nothing: `fill`.
-/
namespace Wireform

/-- Counts above this are read in several batches. -/
def batchThreshold : Nat := 64

/-- How many items a batch has at most. -/
def batchSize : Nat := 64

/-- A destination of items: how it makes room for a number of them, and how it takes one. -/
structure Sink (σ α : Type) where
  reserve : Nat → σ → σ
  put : α → σ → σ

/-- Where items come from: each call reads one of them at the cursor.  What a supply remembers from
one call to the next is state beside the cursor, and like the cursor it is kept by a call that
fails. -/
abbrev Supply (μ α : Type) := ReaderT Buffer (EStateM Failure (μ × Nat)) α

/-- The room that a collection of `count` announced items starts with. -/
def initialCapacity (count : Nat) : Nat := min count batchThreshold

variable {σ μ α : Type}

/-- Draws `count` items, one after the other, until one fails. -/
def drawEach (put : α → σ → σ) (supply : Supply μ α) (buffer : Buffer) :
    (count : Nat) → σ × μ → Nat → Overwritten (σ × μ)
  | 0, target, cursor => ⟨target, cursor, .ok ()⟩
  | count + 1, (sink, memory), cursor =>
    match supply buffer (memory, cursor) with
    | .ok value (memory, cursor) =>
      drawEach put supply buffer count (put value sink, memory) cursor
    | .error failure (memory, cursor) => ⟨(sink, memory), cursor, .error failure⟩

/-- Draws `remaining` items in batches, each as large as may be. -/
def drawBatches (ops : Sink σ α) (supply : Supply μ α) (buffer : Buffer) (remaining : Nat)
    (target : σ × μ) (cursor : Nat) : Overwritten (σ × μ) :=
  if remaining = 0 then ⟨target, cursor, .ok ()⟩
  else
    let batch := min remaining batchSize
    let result :=
      drawEach ops.put supply buffer batch (ops.reserve batch target.1, target.2) cursor
    match result.outcome with
    | .ok _ =>
      drawBatches ops supply buffer (remaining - batch) result.target result.cursor
    | .error _ => result
termination_by remaining
decreasing_by unfold batchSize; omega

/-- Draws `count` items into a sink. -/
def draw (ops : Sink σ α) (supply : Supply μ α) (count : Nat) (target : σ × μ) (buffer : Buffer)
    (cursor : Nat) : Overwritten (σ × μ) :=
  if count ≤ batchThreshold then
    drawEach ops.put supply buffer count (ops.reserve count target.1, target.2) cursor
  else
    drawBatches ops supply buffer count target cursor

/-- The items that a reader reads; there is nothing to remember. -/
def Reader.supply (item : Reader α) : Supply Unit α := fun buffer state =>
  match item buffer state.2 with
  | .ok value cursor => .ok value ((), cursor)
  | .error failure cursor => .error failure ((), cursor)

/-- Reads `count` items into a sink. -/
def fill (ops : Sink σ α) (item : Reader α) (count : Nat) (sink : σ) (buffer : Buffer)
    (cursor : Nat) : Overwritten σ :=
  (draw ops item.supply count (sink, ()) buffer cursor).map Prod.fst

/-- The sink of a growing array. -/
def Sink.array : Sink (Array α) α where
  reserve _ items := items
  put item items := items.push item

/-- Reads `count` items behind the given ones. -/
def appendItems (item : Reader α) (count : Nat) (items : List α) (buffer : Buffer)
    (cursor : Nat) : Overwritten (List α) :=
  (fill Sink.array item count items.toArray buffer cursor).map Array.toList

/-- Reads `count` items. -/
def readItems (item : Reader α) (count : Nat) : Reader (List α) := fun buffer cursor =>
  (appendItems item count [] buffer cursor).toResult

end Wireform
