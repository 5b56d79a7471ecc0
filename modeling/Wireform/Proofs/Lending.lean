import Wireform.Proofs.Balance
import Wireform.Proofs.Targets

/-!
# Lending instances

A pool is used by its own calls and by those to the guards that it gave out.  `Lending` is a pool with
the guards that are still open, and with an account of what became of the instances.

Whatever calls are made, nothing is lost (`Accounts`): the account is balanced, and each guard is open,
returned or detached, and only one of them.  A decode is no new case: it opens a guard, changes its
instance and, if it failed, drops it.

What a failed decode puts back is neither the old instance nor a new one.  It can be read over all the
same, so the next decode does what reading afresh does.
-/
namespace Wireform

variable {α : Type}

namespace ObjectPool

/-! ## 1. Guards -/

/-- A call to a pool, or to one of the guards that it gave out, by its number: guards are numbered in
the order in which they are opened.  `made` is what the factory makes if it is asked to. -/
inductive Call (α : Type) where
  | acquire (made : α)
  | release (item : α)
  | get (made : α)
  | change (number : Nat) (item : α)
  | drop (number : Nat)
  | detach (number : Nat)
  | decode (made : α) (codec : Codec α) (buffer : Buffer) (cursor : Nat)

/-- A pool with the guards that are open, by number, the instances that guards gave back, and the
guards that were detached. -/
structure Lending (α : Type) where
  account : Account α
  guards : List (Nat × Guard α)
  opened : Nat
  returned : List (Nat × α)
  detached : List Nat

namespace Lending

/-- A new pool. -/
def start (capacity : Nat) (fresh : α) : Lending α :=
  ⟨⟨.empty capacity fresh, [], [], [], []⟩, [], 0, [], []⟩

/-- Opens a guard. -/
def get (lending : Lending α) (made : α) : Lending α :=
  { lending with
    account := lending.account.take made
    guards := (lending.opened, (lending.account.pool.making made).get.1) :: lending.guards
    opened := lending.opened + 1 }

/-- Changes the instance of a guard. -/
def change (lending : Lending α) (number : Nat) (item : α) : Lending α :=
  { lending with
    guards := lending.guards.map fun guard => if guard.1 = number then (number, ⟨item⟩) else guard }

/-- The guards without the one of a number. -/
def others (lending : Lending α) (number : Nat) : List (Nat × Guard α) :=
  lending.guards.eraseP fun guard => guard.1 == number

/-- Drops a guard, which gives its instance back. -/
def drop (lending : Lending α) (number : Nat) : Lending α :=
  match lending.guards.lookup number with
  | some guard =>
    { lending with
      account := lending.account.leave guard.item (lending.account.pool.drop guard)
      guards := lending.others number
      returned := lending.returned ++ [(number, guard.item)] }
  | none => lending

/-- Detaches a guard, which keeps its instance from the pool. -/
def detach (lending : Lending α) (number : Nat) : Lending α :=
  match lending.guards.lookup number with
  | some _ =>
    { lending with
      guards := lending.others number
      detached := lending.detached ++ [number] }
  | none => lending

/-- Opens a guard and reads over its instance; if that fails, the guard is dropped. -/
def decode (lending : Lending α) (made : α) (codec : Codec α) (buffer : Buffer) (cursor : Nat) :
    Lending α :=
  let result := codec.overwrite (lending.account.pool.making made).get.1.item buffer cursor
  let changed := (lending.get made).change lending.opened result.target
  match result.outcome with
  | .ok _ => changed
  | .error _ => changed.drop lending.opened

/-- What a call leaves. -/
def on (lending : Lending α) : Call α → Lending α
  | .acquire made => { lending with account := lending.account.take made }
  | .release item => { lending with account := lending.account.give item }
  | .get made => lending.get made
  | .change number item => lending.change number item
  | .drop number => lending.drop number
  | .detach number => lending.detach number
  | .decode made codec buffer cursor => lending.decode made codec buffer cursor

/-- What some calls to a new pool leave. -/
def after (capacity : Nat) (fresh : α) (calls : List (Call α)) : Lending α :=
  calls.foldl on (start capacity fresh)

/-- The guard that has just been opened holds what it was changed to. -/
theorem lookup_change_get (lending : Lending α) (made item : α) :
    ((lending.get made).change lending.opened item).guards.lookup lending.opened = some ⟨item⟩ := by
  simp [get, change]

/-- Dropping a guard gives its instance back. -/
theorem drop_of_lookup {lending : Lending α} {number : Nat} {guard : Guard α}
    (h : lending.guards.lookup number = some guard) :
    lending.drop number =
      { lending with
        account := lending.account.give guard.item
        guards := lending.others number
        returned := lending.returned ++ [(number, guard.item)] } := by
  unfold drop
  rw [h]
  rfl

/-- **A decode is a decode of the pool.**  It leaves the pool as that does, and the guard is open with
what was read, or has given its instance back. -/
theorem decode_eq (lending : Lending α) (made : α) (codec : Codec α) (buffer : Buffer)
    (cursor : Nat) :
    let decoded := (lending.account.pool.making made).decode codec buffer cursor
    (lending.decode made codec buffer cursor).account.pool = decoded.pool ∧
      match decoded.outcome with
      | .ok guard =>
        (lending.decode made codec buffer cursor).guards.lookup lending.opened = some guard
      | .error _ => lending.opened ∈
        (lending.decode made codec buffer cursor).returned.map Prod.fst := by
  have htake : (lending.account.take made).pool = (lending.account.pool.making made).get.2 :=
    Account.enter_pool _ _
  generalize htarget : codec.overwrite (lending.account.pool.making made).get.1.item buffer cursor =
    result
  have hdecode : (lending.account.pool.making made).decode codec buffer cursor =
      match result.outcome with
      | .ok _ => ⟨.ok ⟨result.target⟩, result.cursor, (lending.account.pool.making made).get.2⟩
      | .error failure => ⟨.error failure, result.cursor,
        (lending.account.pool.making made).get.2.drop ⟨result.target⟩⟩ := by
    rw [← htarget]
    rfl
  unfold decode
  rw [hdecode, htarget]
  dsimp only
  cases result.outcome with
  | ok _ => exact ⟨htake, lookup_change_get lending made result.target⟩
  | error failure =>
    dsimp only
    rw [drop_of_lookup (lookup_change_get lending made result.target)]
    refine ⟨?_, by simp⟩
    show ((lending.account.take made).give result.target).pool = _
    rw [← htake]
    exact Account.leave_pool _ _ _

/-! ## 2. Runs -/

/-- The guards are those of a number and the others. -/
theorem perm_others {lending : Lending α} {number : Nat} {guard : Guard α}
    (h : lending.guards.lookup number = some guard) :
    (lending.guards.map Prod.fst).Perm (number :: (lending.others number).map Prod.fst) := by
  unfold others
  generalize lending.guards = guards at h ⊢
  induction guards with
  | nil => cases h
  | cons head rest ih =>
    rw [List.lookup_cons] at h
    by_cases hnumber : number = head.1
    · subst hnumber
      simp
    · rw [beq_eq_false_iff_ne.mpr hnumber] at h
      have herase : (head :: rest).eraseP (fun guard => guard.1 == number) =
          head :: rest.eraseP fun guard => guard.1 == number :=
        List.eraseP_cons_of_neg fun heq => hnumber (eq_of_beq heq).symm
      rw [herase, List.map_cons, List.map_cons]
      exact ((ih h).cons head.1).trans (.swap _ _ _)

/-- **Nothing is lost.**  The account is balanced, as many instances were handed out as were asked for,
those that were released and those that guards gave back are those that were kept or dropped, and each
guard that was opened has given its instance back, or was detached, or is open. -/
structure Accounts (capacity acquisitions : Nat) (released : List α) (lending : Lending α) : Prop where
  balanced : lending.account.Balanced capacity
  acquired : lending.account.acquisitions = acquisitions
  givenBack : lending.account.givenBack.Perm (released ++ lending.returned.map Prod.snd)
  guards : (lending.returned.map Prod.fst ++ lending.detached ++ lending.guards.map Prod.fst).Perm
    (List.range lending.opened)

namespace Accounts

variable {capacity acquisitions : Nat} {released : List α} {lending : Lending α}

theorem acquire (h : lending.Accounts capacity acquisitions released) (made : α) :
    Accounts capacity (acquisitions + 1) released
      { lending with account := lending.account.take made } := by
  obtain ⟨hacquired, hgiven⟩ := lending.account.take_counts made
  exact ⟨h.balanced.take made, hacquired.trans (congrArg (· + 1) h.acquired),
    (List.Perm.of_eq hgiven).trans h.givenBack, h.guards⟩

theorem release (h : lending.Accounts capacity acquisitions released) (item : α) :
    Accounts capacity acquisitions (released ++ [item])
      { lending with account := lending.account.give item } := by
  obtain ⟨hacquired, hgiven⟩ := lending.account.give_counts item
  refine ⟨h.balanced.give item, hacquired.trans h.acquired, ?_, h.guards⟩
  refine (hgiven.trans (h.givenBack.append_right [item])).trans ?_
  rw [List.append_assoc, List.append_assoc]
  exact List.perm_append_comm.append_left _

theorem get (h : lending.Accounts capacity acquisitions released) (made : α) :
    (lending.get made).Accounts capacity (acquisitions + 1) released := by
  obtain ⟨hbalanced, hacquired, hgiven, -⟩ := h.acquire made
  refine ⟨hbalanced, hacquired, hgiven, ?_⟩
  show (_ ++ (lending.opened :: _)).Perm (List.range (lending.opened + 1))
  rw [List.range_succ]
  exact List.perm_middle.trans (((h.guards).cons _).trans (List.perm_append_singleton _ _).symm)

theorem change (h : lending.Accounts capacity acquisitions released) (number : Nat) (item : α) :
    (lending.change number item).Accounts capacity acquisitions released := by
  have hnumbers : (lending.change number item).guards.map Prod.fst = lending.guards.map Prod.fst := by
    unfold Lending.change
    rw [List.map_map]
    refine List.map_congr_left fun guard _ => ?_
    by_cases hnumber : guard.1 = number
    · simp [hnumber]
    · simp [hnumber]
  refine ⟨h.balanced, h.acquired, h.givenBack, ?_⟩
  rw [hnumbers]
  exact h.guards

theorem drop (h : lending.Accounts capacity acquisitions released) (number : Nat) :
    (lending.drop number).Accounts capacity acquisitions released := by
  cases hlookup : lending.guards.lookup number with
  | none =>
    unfold Lending.drop
    rw [hlookup]
    exact h
  | some guard =>
    rw [drop_of_lookup hlookup]
    obtain ⟨hbalanced, hacquired, -, -⟩ := h.release guard.item
    obtain ⟨-, hgiven⟩ := lending.account.give_counts guard.item
    refine ⟨hbalanced, hacquired, ?_, ?_⟩
    · rw [List.map_append, ← List.append_assoc]
      exact hgiven.trans (h.givenBack.append_right _)
    · refine List.Perm.trans (List.perm_iff_count.mpr fun other => ?_) h.guards
      have hothers := (perm_others hlookup).count_eq other
      simp only [List.map_append, List.map_cons, List.map_nil, List.count_append, List.count_cons,
        List.count_nil] at hothers ⊢
      omega

theorem detach (h : lending.Accounts capacity acquisitions released) (number : Nat) :
    (lending.detach number).Accounts capacity acquisitions released := by
  unfold Lending.detach
  cases hlookup : lending.guards.lookup number with
  | none => exact h
  | some guard =>
    refine ⟨h.balanced, h.acquired, h.givenBack, List.Perm.trans ?_ h.guards⟩
    rw [← List.append_assoc, List.append_assoc _ [number]]
    exact (perm_others hlookup).symm.append_left _

theorem decode (h : lending.Accounts capacity acquisitions released) (made : α) (codec : Codec α)
    (buffer : Buffer) (cursor : Nat) :
    (lending.decode made codec buffer cursor).Accounts capacity (acquisitions + 1) released := by
  unfold Lending.decode
  dsimp only
  split
  · exact (h.get made).change _ _
  · exact ((h.get made).change _ _).drop _

end Accounts

end Lending

namespace Call

/-- Whether the call asks for an instance. -/
def acquires : Call α → Bool
  | .acquire _ => true
  | .get _ => true
  | .decode _ _ _ _ => true
  | _ => false

/-- The instances that the call releases, not counting those of guards. -/
def released : Call α → List α
  | .release item => [item]
  | _ => []

end Call

namespace Lending

/-- **No call loses anything.** -/
theorem Accounts.on {capacity acquisitions : Nat} {released : List α} {lending : Lending α}
    (h : lending.Accounts capacity acquisitions released) (call : Call α) :
    (lending.on call).Accounts capacity (acquisitions + if call.acquires then 1 else 0)
      (released ++ call.released) := by
  have hnil : ∀ {count : Nat} {other : Lending α}, other.Accounts capacity count released →
      other.Accounts capacity count (released ++ []) := fun hother => by rwa [List.append_nil]
  cases call with
  | acquire made => exact hnil (h.acquire made)
  | release item => exact h.release item
  | get made => exact hnil (h.get made)
  | change number item => exact hnil (h.change number item)
  | drop number => exact hnil (h.drop number)
  | detach number => exact hnil (h.detach number)
  | decode made codec buffer cursor => exact hnil (h.decode made codec buffer cursor)

theorem accounts_start (capacity : Nat) (fresh : α) :
    (start capacity fresh).Accounts capacity 0 [] :=
  ⟨⟨rfl, Nat.zero_le _, rfl, rfl, rfl, rfl⟩, rfl, .refl _, .refl _⟩

/-- **Nothing is lost**, whatever calls are made. -/
theorem accounts_after (capacity : Nat) (fresh : α) (calls : List (Call α)) :
    (after capacity fresh calls).Accounts capacity (calls.countP Call.acquires)
      (calls.flatMap Call.released) := by
  have hrun : ∀ {acquisitions : Nat} {released : List α} {lending : Lending α},
      lending.Accounts capacity acquisitions released →
      (calls.foldl Lending.on lending).Accounts capacity (acquisitions + calls.countP Call.acquires)
        (released ++ calls.flatMap Call.released) := by
    induction calls with
    | nil =>
      intro acquisitions released lending h
      rwa [List.flatMap_nil, List.append_nil]
    | cons call calls ih =>
      intro acquisitions released lending h
      have hcalls := ih (h.on call)
      rwa [Nat.add_right_comm, Nat.add_assoc, ← List.countP_cons, List.append_assoc,
        ← List.flatMap_cons] at hcalls
  have hcalls := hrun (accounts_start capacity fresh)
  rwa [Nat.zero_add, List.nil_append] at hcalls

/-! ## 3. Single calls -/

/-- A call is an acquisition at most, with a release behind it at most. -/
theorem account_on (lending : Lending α) (call : Call α) :
    ∃ middle, (middle = lending.account ∨ ∃ made, middle = lending.account.take made) ∧
      ((lending.on call).account = middle ∨
        ∃ item, (lending.on call).account = middle.give item) := by
  have hdrop : ∀ (other : Lending α) (number : Nat), (other.drop number).account = other.account ∨
      ∃ item, (other.drop number).account = other.account.give item := by
    intro other number
    cases hlookup : other.guards.lookup number with
    | none =>
      unfold drop
      rw [hlookup]
      exact .inl rfl
    | some guard => exact .inr ⟨guard.item, by rw [drop_of_lookup hlookup]⟩
  cases call with
  | acquire made => exact ⟨_, .inr ⟨made, rfl⟩, .inl rfl⟩
  | release item => exact ⟨_, .inl rfl, .inr ⟨item, rfl⟩⟩
  | get made => exact ⟨_, .inr ⟨made, rfl⟩, .inl rfl⟩
  | change number item => exact ⟨_, .inl rfl, .inl rfl⟩
  | drop number => exact ⟨_, .inl rfl, hdrop lending number⟩
  | detach number =>
    refine ⟨_, .inl rfl, .inl ?_⟩
    show (lending.detach number).account = _
    unfold detach
    split <;> rfl
  | decode made codec buffer cursor =>
    refine ⟨_, .inr ⟨made, rfl⟩, ?_⟩
    show (lending.decode made codec buffer cursor).account = _ ∨
      ∃ item, (lending.decode made codec buffer cursor).account = _
    unfold decode
    dsimp only
    split
    · exact .inl rfl
    · exact hdrop _ _

/-- The factory is asked only if nothing is idle. -/
theorem idle_eq_nil_of_created_lt {lending : Lending α} {call : Call α}
    (h : lending.account.pool.stats.created < (lending.on call).account.pool.stats.created) :
    lending.account.pool.idle = [] := by
  obtain ⟨middle, hmiddle, hafter⟩ := lending.account_on call
  have hgive : (lending.on call).account.pool.stats.created = middle.pool.stats.created := by
    rcases hafter with hafter | ⟨item, hafter⟩
    · rw [hafter]
    · rw [hafter, Account.created_give]
  rw [hgive] at h
  rcases hmiddle with rfl | ⟨made, rfl⟩
  · exact absurd h (Nat.lt_irrefl _)
  · rcases lending.account.take_cases made with ⟨hidle, -⟩ | ⟨item, rest, -, htake⟩
    · exact hidle
    · rw [htake] at h
      exact absurd h (Nat.lt_irrefl _)

/-- An instance is dropped only if the pool is full. -/
theorem full_of_dropped_lt {lending : Lending α} {call : Call α}
    (hbounded : lending.account.pool.idle.length ≤ lending.account.pool.capacity)
    (h : lending.account.pool.stats.dropped < (lending.on call).account.pool.stats.dropped) :
    lending.account.pool.idle.length = lending.account.pool.capacity := by
  obtain ⟨middle, hmiddle, hafter⟩ := lending.account_on call
  have htake : lending.account.pool.stats.dropped = middle.pool.stats.dropped := by
    rcases hmiddle with rfl | ⟨made, rfl⟩
    · rfl
    · exact (lending.account.dropped_take made).symm
  have hfull : middle.pool.capacity ≤ middle.pool.idle.length := by
    rw [htake] at h
    rcases hafter with hafter | ⟨item, hafter⟩
    · rw [hafter] at h
      exact absurd h (Nat.lt_irrefl _)
    · rw [hafter] at h
      exact Account.full_of_dropped_give h
  rcases hmiddle with rfl | ⟨made, rfl⟩
  · exact Nat.le_antisymm hbounded hfull
  -- an acquisition makes room unless nothing is idle
  rcases lending.account.take_cases made with ⟨hidle, htook⟩ | ⟨item, rest, hidle, htook⟩
  · rw [htook] at hfull
    exact Nat.le_antisymm hbounded hfull
  · rw [htook] at hfull
    rw [hidle] at hbounded
    exact absurd (hfull.trans_lt (Nat.lt_succ_self _)) (Nat.not_lt_of_le hbounded)

/-- **What a call may do.**  The factory is asked only if nothing is idle, and an instance is dropped
only if the pool is full.  A decode leaves the pool as the pool's own decode does, and its guard is open
with what was read, or has given its instance back. -/
structure Fair (lending : Lending α) : Prop where
  makes : ∀ call, lending.account.pool.stats.created < (lending.on call).account.pool.stats.created →
    lending.account.pool.idle = []
  drops : ∀ call, lending.account.pool.stats.dropped < (lending.on call).account.pool.stats.dropped →
    lending.account.pool.idle.length = lending.account.pool.capacity
  decodes : ∀ made codec buffer cursor,
    let decoded := (lending.account.pool.making made).decode codec buffer cursor
    let left := lending.on (.decode made codec buffer cursor)
    left.account.pool = decoded.pool ∧
      match decoded.outcome with
      | .ok guard => left.guards.lookup lending.opened = some guard
      | .error _ => lending.opened ∈ left.returned.map Prod.fst

theorem fair_of_balanced {capacity : Nat} {lending : Lending α}
    (h : lending.account.Balanced capacity) : lending.Fair where
  makes _ := idle_eq_nil_of_created_lt
  drops _ := full_of_dropped_lt (h.capacity_eq ▸ h.bounded)
  decodes := lending.decode_eq

/-! ## 4. Instances that can be read over -/

/-- All instances of the pool and of its guards are good. -/
structure Holds (good : α → Prop) (lending : Lending α) : Prop where
  idle : ∀ item ∈ lending.account.pool.idle, good item
  guards : ∀ guard ∈ lending.guards, good guard.2.item

end Lending

/-- What comes with the call is good, and decoding keeps it good. -/
def Call.Within (good : α → Prop) : Call α → Prop
  | .acquire made => good made
  | .release item => good item
  | .get made => good made
  | .change _ item => good item
  | .drop _ => True
  | .detach _ => True
  | .decode made codec _ _ => good made ∧ codec.overwrite.Keeps good

namespace Lending

variable {good : α → Prop} {lending : Lending α}

theorem Holds.get (h : lending.Holds good) {made : α} (hmade : good made) :
    (lending.get made).Holds good := by
  obtain ⟨hitem, hidle⟩ := @good_acquire _ good (lending.account.pool.making made) hmade h.idle
  refine ⟨?_, List.forall_mem_cons.mpr ⟨hitem, h.guards⟩⟩
  show ∀ item ∈ (lending.account.enter _).pool.idle, good item
  rw [Account.enter_pool]
  exact hidle

theorem Holds.release (h : lending.Holds good) {item : α} (hitem : good item) :
    Holds good { lending with account := lending.account.give item } := by
  refine ⟨?_, h.guards⟩
  show ∀ other ∈ (lending.account.leave _ _).pool.idle, good other
  rw [Account.leave_pool]
  exact good_release hitem h.idle

theorem Holds.change (h : lending.Holds good) (number : Nat) {item : α} (hitem : good item) :
    (lending.change number item).Holds good := by
  refine ⟨h.idle, fun guard hguard => ?_⟩
  obtain ⟨old, hold, rfl⟩ := List.mem_map.mp hguard
  split
  · exact hitem
  · exact h.guards old hold

theorem Holds.others (h : lending.Holds good) (number : Nat) :
    ∀ guard ∈ lending.others number, good guard.2.item :=
  fun guard hguard => h.guards guard (List.mem_of_mem_eraseP hguard)

theorem Holds.drop (h : lending.Holds good) (number : Nat) : (lending.drop number).Holds good := by
  cases hlookup : lending.guards.lookup number with
  | none =>
    unfold Lending.drop
    rw [hlookup]
    exact h
  | some guard =>
    obtain ⟨front, back, hguards, -⟩ := List.lookup_eq_some_iff.mp hlookup
    have hguard : (number, guard) ∈ lending.guards := by simp [hguards]
    rw [drop_of_lookup hlookup]
    exact ⟨(h.release (h.guards _ hguard)).idle, h.others number⟩

theorem Holds.detach (h : lending.Holds good) (number : Nat) :
    (lending.detach number).Holds good := by
  unfold Lending.detach
  split
  · exact ⟨h.idle, h.others number⟩
  · exact h

theorem Holds.decode (h : lending.Holds good) {made : α} (hmade : good made) {codec : Codec α}
    (hcodec : codec.overwrite.Keeps good) (buffer : Buffer) (cursor : Nat) :
    (lending.decode made codec buffer cursor).Holds good := by
  have hitem := (@good_acquire _ good (lending.account.pool.making made) hmade h.idle).1
  have hchanged := (h.get hmade).change lending.opened (hcodec _ hitem buffer cursor)
  unfold Lending.decode
  dsimp only
  split
  · exact hchanged
  · exact hchanged.drop _

/-- **No call brings in anything else.** -/
theorem Holds.on (h : lending.Holds good) {call : Call α} (hcall : call.Within good) :
    (lending.on call).Holds good := by
  cases call with
  | acquire made => exact ⟨(h.get hcall).idle, h.guards⟩
  | release item => exact h.release hcall
  | get made => exact h.get hcall
  | change number item => exact h.change number hcall
  | drop number => exact h.drop number
  | detach number => exact h.detach number
  | decode made codec buffer cursor => exact h.decode hcall.1 hcall.2 buffer cursor

theorem holds_after (capacity : Nat) (fresh : α) {calls : List (Call α)}
    (h : ∀ call ∈ calls, call.Within good) : (after capacity fresh calls).Holds good := by
  have hrun : ∀ {lending : Lending α}, lending.Holds good → (calls.foldl on lending).Holds good := by
    induction calls with
    | nil => exact id
    | cons call calls ih =>
      obtain ⟨hcall, hcalls⟩ := List.forall_mem_cons.mp h
      exact fun hlending => ih hcalls (hlending.on hcall)
  exact hrun ⟨nofun, nofun⟩

/-- Decoding over an instance that can be read over is reading afresh. -/
theorem Holds.decode_alike (h : lending.Holds good) {made : α} (hmade : good made) {codec : Codec α}
    (hagrees : ∀ item, good item → codec.Agrees item) (buffer : Buffer) (cursor : Nat) :
    Reading.Alike ((lending.account.pool.making made).decode codec buffer cursor).toResult
      (codec.read buffer cursor) := by
  rw [toResult_decode]
  have hitem := (@good_acquire _ good (lending.account.pool.making made) hmade h.idle).1
  exact hagrees _ hitem buffer cursor

end Lending

end ObjectPool

/-! ## 5. Catalogues -/

namespace Catalogue

open ObjectPool (Call Lending)
open Samples (chain chain_planned linkValue linkValue_hasShape)

variable {catalogue : Catalogue}

/-- What comes with the call can be read over, and decoding is that of the shape. -/
def IsCallOf [DecimalForm] (catalogue : Catalogue) (shape : Shape) : Call Value → Prop
  | .acquire made => catalogue.IsTarget shape made
  | .release item => catalogue.IsTarget shape item
  | .get made => catalogue.IsTarget shape made
  | .change _ item => catalogue.IsTarget shape item
  | .drop _ => True
  | .detach _ => True
  | .decode made codec _ _ =>
    catalogue.IsTarget shape made ∧ ∃ sharing, codec = catalogue.codecOf sharing shape

theorem Planned.within_of_isCallOf [DecimalForm] (hplanned : catalogue.Planned) {shape : Shape}
    {call : Call Value} (h : catalogue.IsCallOf shape call) :
    call.Within (catalogue.IsTarget shape) := by
  cases call with
  | decode made codec buffer cursor =>
    obtain ⟨hmade, sharing, rfl⟩ := h
    exact ⟨hmade, fun target htarget buffer =>
      hplanned.keeps sharing (catalogue.nestingsOf buffer) shape target htarget buffer⟩
  | _ => exact h

/-- **A pool lends instances and loses none.**  After any calls to a pool and to its guards, whatever
its instances are: the account of them is balanced, with as many acquisitions as were called for; every
instance that came back was kept and is handed out again or idle, in the order in which it came, or was
dropped; each guard has given its instance back, was detached or is open; and the next call asks the
factory only if nothing is idle, drops only if the pool is full, and gives the instance of a failed
decode back.  If the instances are of a shape, so that they can be read over, decoding reads as if the
instance were new. -/
theorem Planned.lending_after [DecimalForm] (hplanned : catalogue.Planned) (shape : Shape) (capacity : Nat) :
    (∀ {α : Type} (fresh : α) (calls : List (Call α)),
      (Lending.after capacity fresh calls).Accounts capacity (calls.countP Call.acquires)
          (calls.flatMap Call.released) ∧
        (Lending.after capacity fresh calls).Fair) ∧
      ∀ fresh (calls : List (Call Value)), (∀ call ∈ calls, catalogue.IsCallOf shape call) →
        ∀ made, catalogue.IsTarget shape made → ∀ sharing buffer cursor,
          Reading.Alike
            (((Lending.after capacity fresh calls).account.pool.making made).decode
              (catalogue.codecOf sharing shape) buffer cursor).toResult
            ((catalogue.codecOf sharing shape).read buffer cursor) := by
  refine ⟨fun fresh calls => ?_, fun fresh calls hcalls made hmade sharing buffer cursor => ?_⟩
  · have haccounts := Lending.accounts_after capacity fresh calls
    exact ⟨haccounts, Lending.fair_of_balanced haccounts.balanced⟩
  · have hholds : (Lending.after capacity fresh calls).Holds (catalogue.IsTarget shape) :=
      Lending.holds_after capacity fresh fun call hcall =>
        hplanned.within_of_isCallOf (hcalls call hcall)
    exact hholds.decode_alike hmade (fun item hitem buffer =>
      hplanned.agrees sharing (catalogue.nestingsOf buffer) hitem buffer) buffer cursor

/-- A chain of two links is read over by bytes that end inside the number of a link, and goes back to
the pool; the next decode is handed what is left of it. -/
theorem lending_after_failed :
    let codec := chain.codecOf Sharing.none (.named "Link")
    let calls : List (Call Value) := [.decode linkValue codec [0, 9, 0, 0, 0, 1, 7] 0]
    let pool := (Lending.after 1 linkValue calls).account.pool
    (chain.Planned ∧ (∀ call ∈ calls, chain.IsCallOf (.named "Link") call) ∧
      chain.IsTarget (.named "Link") linkValue) ∧
      (pool.stats = ⟨1, 0, 0⟩ ∧ pool.idle =
        [.record [.int 9, .present (.record [.int (-1), .null, .list []]), .list [.int 3]]]) ∧
      (Lending.after 1 linkValue calls).Accounts 1 1 [] ∧
      Reading.Alike ((pool.making linkValue).decode codec [1, 9, 0, 0, 0] 0).toResult
        (codec.read [1, 9, 0, 0, 0] 0) := by
  intro codec calls pool
  have htarget := linkValue_hasShape.isTarget
  have hcalls : ∀ call ∈ calls, chain.IsCallOf (.named "Link") call := by
    intro call hcall
    rw [List.mem_singleton.mp hcall]
    exact ⟨htarget, Sharing.none, rfl⟩
  obtain ⟨haccounts, hdecode⟩ := chain_planned.lending_after (.named "Link") 1
  exact ⟨⟨chain_planned, hcalls, htarget⟩, ⟨rfl, rfl⟩, (haccounts linkValue calls).1,
    hdecode linkValue calls hcalls linkValue htarget Sharing.none [1, 9, 0, 0, 0] 0⟩

end Catalogue

end Wireform
