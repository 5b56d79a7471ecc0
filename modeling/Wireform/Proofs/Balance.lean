import Wireform.Pool.Objects
import Wireform.Proofs.Reading

/-!
# Accounts of a pool

An acquisition makes an instance only if none is idle, and a release drops one only if there is no
room; a decode reads over the instance that an acquisition hands out.

`Account` books, beside a pool, what was handed out and what came back.  It goes by the counters of the
pool only: an instance that was handed out counts as made if `created` grew and as handed out again
otherwise, and one that came back as dropped if `dropped` grew and as kept otherwise.  The account stays
balanced (`Account.Balanced`): what was kept is what was handed out again followed by what is idle, in
this order.
-/
namespace Wireform

variable {α : Type}

namespace ObjectPool

/-- The pool whose factory makes a given instance. -/
def making (pool : ObjectPool α) (made : α) : ObjectPool α := { pool with fresh := made }

/-! ## 1. Pools -/

/-- An instance is made only if none is idle; otherwise the one idle for longest is handed out. -/
theorem acquire_cases (pool : ObjectPool α) :
    pool.idle = [] ∧ pool.acquire =
        (pool.fresh, { pool with stats.created := pool.stats.created + 1 }) ∨
      ∃ item rest, pool.idle = item :: rest ∧ pool.acquire =
        (item, { pool with idle := rest, stats.reused := pool.stats.reused + 1 }) := by
  unfold acquire
  cases pool.idle with
  | nil => exact .inl ⟨rfl, rfl⟩
  | cons item rest => exact .inr ⟨item, rest, rfl, rfl⟩

/-- An instance is dropped only if there is no room. -/
theorem release_cases (pool : ObjectPool α) (item : α) :
    pool.idle.length < pool.capacity ∧ pool.release item =
        { pool with idle := pool.idle ++ [item] } ∨
      pool.capacity ≤ pool.idle.length ∧ pool.release item =
        { pool with stats.dropped := pool.stats.dropped + 1 } := by
  unfold release
  split
  · next hroom => exact .inl ⟨hroom, rfl⟩
  · next hfull => exact .inr ⟨Nat.le_of_not_lt hfull, rfl⟩

/-- What is handed out is good, and so is what stays idle. -/
theorem good_acquire {good : α → Prop} {pool : ObjectPool α} (hfresh : good pool.fresh)
    (h : ∀ item ∈ pool.idle, good item) :
    good pool.acquire.1 ∧ ∀ item ∈ pool.acquire.2.idle, good item := by
  rcases pool.acquire_cases with ⟨hidle, hacquire⟩ | ⟨item, rest, hidle, hacquire⟩
  · rw [hacquire]
    exact ⟨hfresh, h⟩
  · rw [hidle] at h
    rw [hacquire]
    exact List.forall_mem_cons.mp h

theorem good_release {good : α → Prop} {pool : ObjectPool α} {item : α} (hitem : good item)
    (h : ∀ other ∈ pool.idle, good other) : ∀ other ∈ (pool.release item).idle, good other := by
  rcases pool.release_cases item with ⟨-, hrelease⟩ | ⟨-, hrelease⟩
  · rw [hrelease]
    exact List.forall_mem_append.mpr ⟨h, fun other hother => List.mem_singleton.mp hother ▸ hitem⟩
  · rw [hrelease]
    exact h

/-- A decoded instance or the failure, with the cursor. -/
def Decoded.toResult (decoded : Decoded α) : Reading α :=
  match decoded.outcome with
  | .ok guard => .ok guard.item decoded.cursor
  | .error failure => .error failure decoded.cursor

/-- Decoding is reading over the instance that is handed out. -/
theorem toResult_decode (pool : ObjectPool α) (codec : Codec α) (buffer : Buffer) (cursor : Nat) :
    (pool.decode codec buffer cursor).toResult =
      (codec.overwrite pool.acquire.1 buffer cursor).toResult := by
  unfold decode get
  generalize pool.acquire = handed
  obtain ⟨item, rest⟩ := handed
  dsimp only
  unfold Decoded.toResult Overwritten.toResult
  cases (codec.overwrite item buffer cursor).outcome <;> rfl

/-! ## 2. Accounts -/

/-- A pool with an account of the instances that it handed out, new ones and others, and of those
that came back. -/
structure Account (α : Type) where
  pool : ObjectPool α
  made : List α
  reused : List α
  kept : List α
  dropped : List α

namespace Account

/-- Books the instance that was handed out, with the pool that this left. -/
def enter (account : Account α) (handed : α × ObjectPool α) : Account α :=
  if account.pool.stats.created < handed.2.stats.created then
    { account with pool := handed.2, made := account.made ++ [handed.1] }
  else { account with pool := handed.2, reused := account.reused ++ [handed.1] }

/-- Books an instance that came back, with the pool that this left. -/
def leave (account : Account α) (item : α) (pool : ObjectPool α) : Account α :=
  if account.pool.stats.dropped < pool.stats.dropped then
    { account with pool := pool, dropped := account.dropped ++ [item] }
  else { account with pool := pool, kept := account.kept ++ [item] }

theorem enter_pool (account : Account α) (handed : α × ObjectPool α) :
    (account.enter handed).pool = handed.2 := by
  unfold enter
  split <;> rfl

theorem leave_pool (account : Account α) (item : α) (pool : ObjectPool α) :
    (account.leave item pool).pool = pool := by
  unfold leave
  split <;> rfl

/-- Acquires an instance. -/
def take (account : Account α) (made : α) : Account α :=
  account.enter (account.pool.making made).acquire

/-- Releases an instance. -/
def give (account : Account α) (item : α) : Account α :=
  account.leave item (account.pool.release item)

theorem take_cases (account : Account α) (made : α) :
    account.pool.idle = [] ∧ account.take made =
        { account with
          pool := { account.pool.making made with
            stats.created := account.pool.stats.created + 1 }
          made := account.made ++ [made] } ∨
      ∃ item rest, account.pool.idle = item :: rest ∧ account.take made =
        { account with
          pool := { account.pool.making made with
            idle := rest, stats.reused := account.pool.stats.reused + 1 }
          reused := account.reused ++ [item] } := by
  unfold take enter
  rcases (account.pool.making made).acquire_cases with
    ⟨hidle, hacquire⟩ | ⟨item, rest, hidle, hacquire⟩
  · rw [hacquire]
    exact .inl ⟨hidle, if_pos (Nat.lt_succ_self _)⟩
  · rw [hacquire]
    exact .inr ⟨item, rest, hidle, if_neg (Nat.lt_irrefl _)⟩

theorem give_cases (account : Account α) (item : α) :
    account.pool.idle.length < account.pool.capacity ∧ account.give item =
        { account with
          pool := { account.pool with idle := account.pool.idle ++ [item] }
          kept := account.kept ++ [item] } ∨
      account.pool.capacity ≤ account.pool.idle.length ∧ account.give item =
        { account with
          pool := { account.pool with stats.dropped := account.pool.stats.dropped + 1 }
          dropped := account.dropped ++ [item] } := by
  unfold give leave
  rcases account.pool.release_cases item with ⟨hroom, hrelease⟩ | ⟨hfull, hrelease⟩
  · rw [hrelease]
    exact .inl ⟨hroom, if_neg (Nat.lt_irrefl _)⟩
  · rw [hrelease]
    exact .inr ⟨hfull, if_pos (Nat.lt_succ_self _)⟩

/-- The account agrees with the counters, and instances are handed out again in the order in which
they were kept. -/
structure Balanced (capacity : Nat) (account : Account α) : Prop where
  capacity_eq : account.pool.capacity = capacity
  bounded : account.pool.idle.length ≤ capacity
  created : account.made.length = account.pool.stats.created
  reused : account.reused.length = account.pool.stats.reused
  dropped : account.dropped.length = account.pool.stats.dropped
  order : account.kept = account.reused ++ account.pool.idle

variable {capacity : Nat} {account : Account α}

theorem Balanced.take (h : account.Balanced capacity) (made : α) :
    (account.take made).Balanced capacity := by
  obtain ⟨hcapacity, hbounded, hcreated, hreused, hdropped, horder⟩ := h
  rcases account.take_cases made with ⟨hidle, htake⟩ | ⟨item, rest, hidle, htake⟩
  · rw [htake]
    exact ⟨hcapacity, hbounded, by simp [hcreated], hreused, hdropped, horder⟩
  · rw [hidle] at hbounded horder
    rw [htake]
    refine ⟨hcapacity, Nat.le_of_succ_le hbounded, hcreated, by simp [hreused], hdropped, ?_⟩
    rw [horder, List.append_assoc]
    rfl

theorem Balanced.give (h : account.Balanced capacity) (item : α) :
    (account.give item).Balanced capacity := by
  obtain ⟨hcapacity, hbounded, hcreated, hreused, hdropped, horder⟩ := h
  rcases account.give_cases item with ⟨hroom, hgive⟩ | ⟨-, hgive⟩
  · rw [hgive]
    refine ⟨hcapacity, ?_, hcreated, hreused, hdropped, ?_⟩
    · rw [List.length_append]
      exact hcapacity ▸ hroom
    · rw [horder, List.append_assoc]
  · rw [hgive]
    exact ⟨hcapacity, hbounded, hcreated, hreused, by simp [hdropped], horder⟩

/-- How many instances were handed out. -/
def acquisitions (account : Account α) : Nat :=
  account.pool.stats.created + account.pool.stats.reused

/-- The instances that came back. -/
def givenBack (account : Account α) : List α := account.kept ++ account.dropped

theorem take_counts (account : Account α) (made : α) :
    (account.take made).acquisitions = account.acquisitions + 1 ∧
      (account.take made).givenBack = account.givenBack := by
  rcases account.take_cases made with ⟨-, htake⟩ | ⟨item, rest, -, htake⟩
  · rw [htake]
    exact ⟨Nat.succ_add _ _, rfl⟩
  · rw [htake]
    exact ⟨rfl, rfl⟩

theorem give_counts (account : Account α) (item : α) :
    (account.give item).acquisitions = account.acquisitions ∧
      (account.give item).givenBack.Perm (account.givenBack ++ [item]) := by
  rcases account.give_cases item with ⟨-, hgive⟩ | ⟨-, hgive⟩
  · rw [hgive]
    refine ⟨rfl, ?_⟩
    unfold givenBack
    rw [List.append_assoc, List.append_assoc]
    exact List.perm_append_comm.append_left _
  · rw [hgive]
    exact ⟨rfl, .of_eq (List.append_assoc _ _ _).symm⟩

theorem created_give (account : Account α) (item : α) :
    (account.give item).pool.stats.created = account.pool.stats.created := by
  rcases account.give_cases item with ⟨-, hgive⟩ | ⟨-, hgive⟩ <;> rw [hgive]

/-- Where an instance is dropped, the pool has no room. -/
theorem full_of_dropped_give {account : Account α} {item : α}
    (h : account.pool.stats.dropped < (account.give item).pool.stats.dropped) :
    account.pool.capacity ≤ account.pool.idle.length := by
  rcases account.give_cases item with ⟨-, hgive⟩ | ⟨hfull, -⟩
  · rw [hgive] at h
    exact absurd h (Nat.lt_irrefl _)
  · exact hfull

theorem dropped_take (account : Account α) (made : α) :
    (account.take made).pool.stats.dropped = account.pool.stats.dropped := by
  rcases account.take_cases made with ⟨-, htake⟩ | ⟨item, rest, -, htake⟩ <;> rw [htake] <;> rfl

end Account

end ObjectPool

end Wireform
