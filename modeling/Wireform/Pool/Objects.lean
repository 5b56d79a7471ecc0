import Wireform.Codec.Basic
import Wireform.Text.Quoted

/-!
# Pools of instances

A pool keeps instances for reuse, up to its capacity, and hands them out in the order in which it
got them; when none is idle, it makes a fresh one.  An instance that comes back to a full pool is
dropped.  A `Guard` is an instance that belongs to its pool: it goes back when it is dropped, unless
it is detached before.

`PoolStats` counts how often an instance was made, handed out again, and dropped.
-/
namespace Wireform

/-- How a pool has been used. -/
structure PoolStats where
  created : Nat
  reused : Nat
  dropped : Nat
  deriving DecidableEq, Repr

/-- A pool of instances; `fresh` is what a new one is. -/
structure ObjectPool (α : Type) where
  capacity : Nat
  fresh : α
  idle : List α
  stats : PoolStats

/-- An instance that is to go back to its pool. -/
structure Guard (α : Type) where
  item : α

/-- The capacity of a pool that is given none. -/
def defaultPoolCapacity : Nat := 64

namespace ObjectPool

variable {α : Type}

/-- A pool without instances. -/
def empty (capacity : Nat) (fresh : α) : ObjectPool α := ⟨capacity, fresh, [], ⟨0, 0, 0⟩⟩

/-- How many instances are idle. -/
def size (pool : ObjectPool α) : Nat := pool.idle.length

/-- Whether no instance is idle. -/
def isEmpty (pool : ObjectPool α) : Bool := pool.idle.isEmpty

/-- Takes the instance that has been idle for longest, or makes one. -/
def acquire (pool : ObjectPool α) : α × ObjectPool α :=
  match pool.idle with
  | item :: rest =>
    (item, { pool with idle := rest, stats.reused := pool.stats.reused + 1 })
  | [] => (pool.fresh, { pool with stats.created := pool.stats.created + 1 })

/-- Keeps an instance for reuse, unless the pool is full. -/
def release (pool : ObjectPool α) (item : α) : ObjectPool α :=
  if pool.idle.length < pool.capacity then { pool with idle := pool.idle ++ [item] }
  else { pool with stats.dropped := pool.stats.dropped + 1 }

/-- Takes an instance under a guard. -/
def get (pool : ObjectPool α) : Guard α × ObjectPool α :=
  let (item, pool) := pool.acquire
  (⟨item⟩, pool)

/-- Gives the instance of a guard back. -/
def drop (pool : ObjectPool α) (guard : Guard α) : ObjectPool α := pool.release guard.item

/-- What reading into a pooled instance leaves. -/
structure Decoded (α : Type) where
  outcome : Except Failure (Guard α)
  cursor : Nat
  pool : ObjectPool α

/-- Reads over a pooled instance.  When that fails, the instance goes back as it is then. -/
def decode (pool : ObjectPool α) (codec : Codec α) (buffer : Buffer) (cursor : Nat) : Decoded α :=
  let (guard, pool) := pool.get
  let result := codec.overwrite guard.item buffer cursor
  match result.outcome with
  | .ok _ => ⟨.ok ⟨result.target⟩, result.cursor, pool⟩
  | .error failure => ⟨.error failure, result.cursor, pool.drop ⟨result.target⟩⟩

end ObjectPool

/-- A written list of named parts between braces. -/
def recordText (name : String) (parts : List (String × String)) : String :=
  name ++ " \x7b " ++ ", ".intercalate (parts.map fun part => part.1 ++ ": " ++ part.2) ++ " \x7d"

/-- The counts in writing. -/
def PoolStats.text (stats : PoolStats) : String :=
  recordText "PoolStats" [("created", toString stats.created), ("reused", toString stats.reused),
    ("dropped", toString stats.dropped)]

/-- The state of a pool of instances of a type in writing. -/
def ObjectPool.text {α : Type} (typeName : String) (pool : ObjectPool α) : String :=
  recordText "ObjectPool" [("type", Text.quoted typeName), ("idle", toString pool.size),
    ("capacity", toString pool.capacity), ("stats", pool.stats.text)]

end Wireform
