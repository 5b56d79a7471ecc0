import Wireform.Pool.Objects

/-!
# Pools of buffers

A `BufferPool` keeps buffers in buckets, one for each size, with the sizes increasing.  A request is
answered from the smallest bucket whose size is enough, by a buffer that has been used before, if
one is idle there, or by a new one of the bucket's size; a request beyond all buckets gets a new
buffer of just the size asked for.  New buffers are zero; a used one holds what it held, unless it
was released to be cleared.

A released buffer goes to the bucket of exactly its size, if there is one and it has room.
-/
namespace Wireform

/-- A size class: the size of its buffers, and how many of them are kept. -/
structure BucketSpec where
  size : Nat
  capacity : Nat
  deriving DecidableEq, Repr

/-- The size classes of a pool that is given none. -/
def defaultBuckets : List BucketSpec := [⟨256, 64⟩, ⟨4096, 32⟩, ⟨65536, 8⟩]

/-- The idle buffers of a size class, the one idle for longest first. -/
structure Bucket where
  size : Nat
  capacity : Nat
  idle : List Buffer
  deriving DecidableEq, Repr

/-- Buffers by size. -/
structure BufferPool where
  buckets : List Bucket
  deriving DecidableEq, Repr

namespace Bucket

/-- Puts the bucket of a specification in its place, unless there is one of that size. -/
def insertSpec (spec : BucketSpec) : List Bucket → List Bucket
  | [] => [⟨spec.size, spec.capacity, []⟩]
  | bucket :: rest =>
    if spec.size < bucket.size then ⟨spec.size, spec.capacity, []⟩ :: bucket :: rest
    else if spec.size = bucket.size then bucket :: rest
    else bucket :: insertSpec spec rest

/-- Keeps a buffer, if there is room. -/
def keep (bucket : Bucket) (buffer : Buffer) : Bucket :=
  if bucket.idle.length < bucket.capacity then { bucket with idle := bucket.idle ++ [buffer] }
  else bucket

/-- Takes the buffer idle for longest, or a new one. -/
def take (bucket : Bucket) : Buffer × Bucket :=
  match bucket.idle with
  | buffer :: rest => (buffer, { bucket with idle := rest })
  | [] => (List.replicate bucket.size 0, bucket)

/-- Takes a buffer from the first bucket that is large enough. -/
def rent (needed : Nat) : List Bucket → Buffer × List Bucket
  | [] => (List.replicate needed 0, [])
  | bucket :: rest =>
    if needed ≤ bucket.size then
      let (buffer, bucket) := bucket.take
      (buffer, bucket :: rest)
    else
      let (buffer, rest) := rent needed rest
      (buffer, bucket :: rest)

/-- Gives a buffer to the bucket of its size. -/
def release (buffer : Buffer) : List Bucket → List Bucket
  | [] => []
  | bucket :: rest =>
    if bucket.size = buffer.length then bucket.keep buffer :: rest
    else bucket :: release buffer rest

end Bucket

namespace BufferPool

/-- A pool without buffers.  Classes without capacity are left out, and of two classes of one size
the first counts. -/
def ofSpecs (specs : List BucketSpec) : BufferPool :=
  ⟨(specs.filter fun spec => 0 < spec.capacity).foldl
    (fun buckets spec => Bucket.insertSpec spec buckets) []⟩

/-- Takes a buffer of at least `needed` bytes. -/
def rent (pool : BufferPool) (needed : Nat) : Buffer × BufferPool :=
  let (buffer, buckets) := Bucket.rent needed pool.buckets
  (buffer, ⟨buckets⟩)

/-- Gives a buffer back, set to zero if it is to be cleared. -/
def release (pool : BufferPool) (buffer : Buffer) (clear : Bool) : BufferPool :=
  ⟨Bucket.release (if clear then List.replicate buffer.length 0 else buffer) pool.buckets⟩

/-- How many buffers of each size are idle. -/
def idle (pool : BufferPool) : List (Nat × Nat) :=
  pool.buckets.map fun bucket => (bucket.size, bucket.idle.length)

/-- Writes a value into a rented buffer and cuts it to what was written.  The buffer does not come
back when that fails. -/
def encode {α : Type} (pool : BufferPool) (codec : Codec α) (value : α) :
    Except Failure Buffer × BufferPool :=
  let (buffer, pool) := pool.rent (codec.size value)
  let written := Writer.run (codec.write value) buffer 0
  (written.outcome.map fun _ => written.output.buffer.take written.output.cursor, pool)

/-- The state of a pool in writing. -/
def text (pool : BufferPool) : String :=
  let classes := pool.idle.map fun (size, count) => s!"({size}, {count})"
  recordText "BufferPool" [("idle", "[" ++ ", ".intercalate classes ++ "]")]

end BufferPool

end Wireform
