import Wireform.Proofs.Counted

/-!
# Batches are not observable

A run of items is drawn in batches only so that room is asked for in small portions.  What the run
leaves, the sink, the memory of the supply, the cursor and the outcome, is what single draws leave
one after the other, and it can be said without any loop (`DrawnInTurn`): the supply was called from
where it started, each time from where the call before had left it, and what it gave was added in
that order; either `count` items were given, or fewer, and the next call is the one that failed.

The supply is arbitrary.  It may remember things, fail anywhere, and take no bytes at all.
-/
namespace Wireform

variable {σ γ μ α : Type}

/-! ## 1. Calls in turn -/

/-- The supply gives `values`, one at each call, on the way from one state to another. -/
inductive Supply.Gives (supply : Supply μ α) (buffer : Buffer) :
    List α → μ × Nat → μ × Nat → Prop where
  | nil (state : μ × Nat) : supply.Gives buffer [] state state
  | cons {value : α} {values : List α} {start middle stop : μ × Nat}
    (hcall : supply buffer start = .ok value middle) (h : supply.Gives buffer values middle stop) :
    supply.Gives buffer (value :: values) start stop

/-- What is left when `count` items are added to `sink`, each as the next call gives it, until a call
fails. -/
inductive DrawnInTurn (add : α → γ → γ) (supply : Supply μ α) (buffer : Buffer) (count : Nat)
    (sink : γ) (start : μ × Nat) : Overwritten (γ × μ) → Prop where
  | all {values : List α} {memory : μ} {cursor : Nat} (hlength : values.length = count)
    (h : supply.Gives buffer values start (memory, cursor)) :
    DrawnInTurn add supply buffer count sink start
      ⟨(values.foldl (fun sink value => add value sink) sink, memory), cursor, .ok ()⟩
  | cut {values : List α} {state : μ × Nat} {failure : Failure} {memory : μ} {cursor : Nat}
    (hlength : values.length < count) (h : supply.Gives buffer values start state)
    (hcall : supply buffer state = .error failure (memory, cursor)) :
    DrawnInTurn add supply buffer count sink start
      ⟨(values.foldl (fun sink value => add value sink) sink, memory), cursor, .error failure⟩

section

variable {add : α → γ → γ} {supply : Supply μ α} {buffer : Buffer}

/-- One call more in front. -/
theorem DrawnInTurn.cons {count : Nat} {sink : γ} {value : α} {start middle : μ × Nat}
    {result : Overwritten (γ × μ)} (hcall : supply buffer start = .ok value middle)
    (h : DrawnInTurn add supply buffer count (add value sink) middle result) :
    DrawnInTurn add supply buffer (count + 1) sink start result := by
  cases h with
  | @all values memory cursor hlength h =>
    show DrawnInTurn add supply buffer (count + 1) sink start
      ⟨((value :: values).foldl (fun sink value => add value sink) sink, memory), cursor, .ok ()⟩
    exact .all (congrArg (· + 1) hlength) (.cons hcall h)
  | @cut values state failure memory cursor hlength h hfail =>
    show DrawnInTurn add supply buffer (count + 1) sink start
      ⟨((value :: values).foldl (fun sink value => add value sink) sink, memory), cursor,
        .error failure⟩
    exact .cut (Nat.succ_lt_succ hlength) (.cons hcall h) hfail

/-- Single draws are calls in turn. -/
theorem drawnInTurn_drawEach (count : Nat) (sink : γ) (memory : μ) (cursor : Nat) :
    DrawnInTurn add supply buffer count sink (memory, cursor)
      (drawEach add supply buffer count (sink, memory) cursor) := by
  induction count generalizing sink memory cursor with
  | zero => exact .all rfl (.nil _)
  | succ count ih =>
    rw [drawEach]
    cases hcall : supply buffer (memory, cursor) with
    | ok value state => exact .cons hcall (ih _ _ _)
    | error failure state => exact .cut (Nat.succ_pos count) (.nil _) hcall

end

/-! ## 2. Batches -/

/-- **Batches are not observable.**  Into a sink in which room does not show, `count` items are drawn
as if they were drawn one by one, whatever the sink held before and however the supply behaves: the
content, the memory of the supply, the cursor and the outcome are the same.  No item is left out,
drawn twice or moved, also not among those in front of a failure. -/
theorem draw_batches_unobservable {ops : Sink σ α} {content : σ → γ} {add : α → γ → γ}
    (h : ops.Shows content add) (supply : Supply μ α) (count : Nat) (sink : σ) (memory : μ)
    (buffer : Buffer) (cursor : Nat) :
    (draw ops supply count (sink, memory) buffer cursor).map (Prod.map content id) =
        (drawEach ops.put supply buffer count (sink, memory) cursor).map (Prod.map content id) ∧
      DrawnInTurn add supply buffer count (content sink) (memory, cursor)
        ((draw ops supply count (sink, memory) buffer cursor).map (Prod.map content id)) := by
  have hdraw := h.draw supply buffer count (sink, memory) cursor
  refine ⟨hdraw.trans (h.drawEach supply buffer count (sink, memory) cursor).symm, ?_⟩
  rw [hdraw]
  exact drawnInTurn_drawEach count (content sink) memory cursor

/-- A supply that takes no bytes, numbers its calls and fails at the hundredth. -/
def numbered : Supply Nat Nat := do
  let (calls, cursor) ← get
  set (calls + 1, cursor)
  if calls = 100 then throw .exhausted else pure calls

set_option maxRecDepth 2000 in
/-- Of two batches and a part of one the second is cut: the items in front of the failure are in the
array, behind the one that was there. -/
theorem draw_batches_unobservable_numbered :
    let result := (draw Sink.array numbered 130 (#[7], 0) [] 3).map (Prod.map Array.toList id)
    (Sink.array : Sink (Array Nat) Nat).Shows Array.toList (fun item items => items ++ [item]) ∧
      result = ⟨(7 :: List.range 100, 101), 3, .error .exhausted⟩ ∧
      DrawnInTurn (fun item items => items ++ [item]) numbered [] 130 [7] (0, 3) result := by
  obtain ⟨hsingle, hturn⟩ :=
    draw_batches_unobservable Sink.shows_array numbered 130 #[7] 0 [] 3
  exact ⟨Sink.shows_array, hsingle.trans rfl, hturn⟩

end Wireform
