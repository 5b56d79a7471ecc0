import Wireform.Codec.Mapping
import Wireform.Proofs.Reading

/-!
# Reading a counted run of items

Batches are about the room that is asked for, not about what is drawn: where room does not show, a
run that is drawn batch by batch is drawn item by item (`Sink.Shows.draw`).  With a reader for the
supply, filling a sink is filling it item by item (`Sink.Shows.fill`), so it is reading `count` items
in turn, `Reader.times`, and putting them in in that order; and a list, a map and the rest of a list
that is read over are all made of `Reader.times`.

Items that are steady are steady in turn.
-/
namespace Wireform

variable {α β γ μ σ : Type}

/-- Reads `count` items, one after the other. -/
def Reader.times (item : Reader α) : (count : Nat) → Reader (List α)
  | 0 => pure []
  | count + 1 => do
    let value ← item
    let values ← item.times count
    pure (value :: values)

/-- As many values are read as are asked for. -/
theorem Reader.length_of_times {item : Reader α} {count : Nat} {buffer : Buffer}
    {cursor stop : Nat} {values : List α}
    (h : item.times count buffer cursor = .ok values stop) : values.length = count := by
  induction count generalizing values cursor with
  | zero =>
    cases h
    rfl
  | succ count ih =>
    obtain ⟨value, middle, -, hrest⟩ := Reader.bind_eq_ok h
    obtain ⟨rest, last, hvalues, hpure⟩ := Reader.bind_eq_ok hrest
    cases hpure
    rw [List.length_cons, ih hvalues]

/-- A run is read in two parts as it is read in one. -/
theorem Reader.times_add (item : Reader α) (first rest : Nat) :
    item.times (first + rest) = (do
      let values ← item.times first
      let more ← item.times rest
      pure (values ++ more)) := by
  induction first with
  | zero =>
    funext buffer cursor
    rw [Nat.zero_add, Reader.times, Reader.bind_apply, Reader.pure_apply]
    dsimp only
    rw [Reader.bind_apply]
    cases item.times rest buffer cursor <;> rfl
  | succ first ih =>
    funext buffer cursor
    rw [Nat.add_right_comm, Reader.times, Reader.times, ih]
    simp only [Reader.bind_apply]
    cases item buffer cursor with
    | error failure stop => rfl
    | ok value middle =>
      dsimp only
      cases item.times first buffer middle with
      | error failure stop => rfl
      | ok values last =>
        dsimp only [Reader.pure_apply]
        cases item.times rest buffer last <;> rfl

/-! ## 1. Batches -/

/-- What goes on in step goes on to what is the same in other words. -/
theorem Overwritten.map_andThen {f : σ → γ} {next : σ → Nat → Overwritten σ}
    {next' : γ → Nat → Overwritten γ}
    (h : ∀ target cursor, (next target cursor).map f = next' (f target) cursor)
    (result : Overwritten σ) : (result.andThen next).map f = (result.map f).andThen next' := by
  obtain ⟨target, cursor, outcome⟩ := result
  cases outcome with
  | ok _ => exact h target cursor
  | error failure => rfl

section

variable (put : α → σ → σ) (supply : Supply μ α) (buffer : Buffer)

/-- Drawing goes on where it stopped. -/
theorem drawEach_add (first rest : Nat) (target : σ × μ) (cursor : Nat) :
    drawEach put supply buffer (first + rest) target cursor =
      (drawEach put supply buffer first target cursor).andThen
        fun target cursor => drawEach put supply buffer rest target cursor := by
  induction first generalizing target cursor with
  | zero =>
    rw [Nat.zero_add]
    rfl
  | succ first ih =>
    obtain ⟨sink, memory⟩ := target
    rw [Nat.add_right_comm, drawEach, drawEach]
    cases supply buffer (memory, cursor) with
    | ok value state => exact ih _ _
    | error failure state => rfl

theorem drawBatches_of_pos (ops : Sink σ α) {remaining : Nat} (h : 0 < remaining) (target : σ × μ)
    (cursor : Nat) : drawBatches ops supply buffer remaining target cursor =
      (drawEach ops.put supply buffer (min remaining batchSize)
        (ops.reserve (min remaining batchSize) target.1, target.2) cursor).andThen
          (drawBatches ops supply buffer (remaining - min remaining batchSize)) := by
  rw [drawBatches, if_neg (by omega)]
  rfl

end

/-- What a sink holds can be seen: making room does not show, and an item is added as `add` says. -/
structure Sink.Shows (ops : Sink σ α) (content : σ → γ) (add : α → γ → γ) : Prop where
  reserve : ∀ count sink, content (ops.reserve count sink) = content sink
  put : ∀ value sink, content (ops.put value sink) = add value (content sink)

namespace Sink.Shows

variable {ops : Sink σ α} {content : σ → γ} {add : α → γ → γ} (h : ops.Shows content add)
  (supply : Supply μ α) (buffer : Buffer)

include h

theorem drawEach (count : Nat) (target : σ × μ) (cursor : Nat) :
    (drawEach ops.put supply buffer count target cursor).map (Prod.map content id) =
      Wireform.drawEach add supply buffer count (Prod.map content id target) cursor := by
  induction count generalizing target cursor with
  | zero => rfl
  | succ count ih =>
    obtain ⟨sink, memory⟩ := target
    rw [Wireform.drawEach, Prod.map_apply, Wireform.drawEach, id]
    cases supply buffer (memory, cursor) with
    | ok value state =>
      dsimp only
      rw [ih, Prod.map_apply, h.put]
      rfl
    | error failure state => rfl

/-- Batches draw what is left to draw, one item after the other. -/
theorem drawBatches (remaining : Nat) (target : σ × μ) (cursor : Nat) :
    (drawBatches ops supply buffer remaining target cursor).map (Prod.map content id) =
      Wireform.drawEach add supply buffer remaining (Prod.map content id target) cursor := by
  induction remaining using Nat.strongRecOn generalizing target cursor with
  | ind remaining ih =>
    rcases Nat.eq_zero_or_pos remaining with rfl | hpos
    · rw [Wireform.drawBatches, if_pos rfl]
      rfl
    · have hbatch : remaining - min remaining batchSize < remaining := by
        unfold batchSize
        omega
      have hsplit : remaining =
          min remaining batchSize + (remaining - min remaining batchSize) := by omega
      rw [drawBatches_of_pos supply buffer ops hpos, Overwritten.map_andThen (ih _ hbatch),
        h.drawEach, Prod.map_apply, h.reserve]
      conv => rhs; rw [hsplit, drawEach_add]
      rfl

/-- **Batches do not matter.** -/
theorem draw (count : Nat) (target : σ × μ) (cursor : Nat) :
    (draw ops supply count target buffer cursor).map (Prod.map content id) =
      Wireform.drawEach add supply buffer count (Prod.map content id target) cursor := by
  unfold Wireform.draw
  split
  · rw [h.drawEach, Prod.map_apply, h.reserve]
    rfl
  · exact h.drawBatches supply buffer count target cursor

end Sink.Shows

/-! ## 2. Readers -/

/-- Reads `count` items, one after the other, until one fails. -/
def fillEach (put : α → σ → σ) (item : Reader α) (buffer : Buffer) :
    (count : Nat) → σ → Nat → Overwritten σ
  | 0, sink, cursor => ⟨sink, cursor, .ok ()⟩
  | count + 1, sink, cursor =>
    match item buffer cursor with
    | .ok value cursor => fillEach put item buffer count (put value sink) cursor
    | .error failure cursor => ⟨sink, cursor, .error failure⟩

section

variable (put : α → σ → σ) (item : Reader α) (buffer : Buffer)

/-- A reader that remembers nothing is called as a reader. -/
theorem drawEach_supply (count : Nat) (target : σ × Unit) (cursor : Nat) :
    (drawEach put item.supply buffer count target cursor).map Prod.fst =
      fillEach put item buffer count target.1 cursor := by
  induction count generalizing target cursor with
  | zero => rfl
  | succ count ih =>
    obtain ⟨sink, memory⟩ := target
    rw [drawEach, fillEach, Reader.supply]
    dsimp only
    cases item buffer cursor with
    | ok value cursor => exact ih _ _
    | error failure cursor => rfl

/-- **A sink is filled item by item**, as far as it shows. -/
theorem Sink.Shows.fill {ops : Sink σ α} {content : σ → γ} {add : α → γ → γ}
    (h : ops.Shows content add) (count : Nat) (sink : σ) (cursor : Nat) :
    (fill ops item count sink buffer cursor).map content =
      fillEach add item buffer count (content sink) cursor := by
  rw [← drawEach_supply add item buffer count (content sink, ()) cursor]
  exact congrArg (Overwritten.map Prod.fst) (h.draw item.supply buffer count (sink, ()) cursor)

/-- Filling is reading the items in turn and putting them in. -/
theorem toResult_fillEach (count : Nat) (sink : σ) (cursor : Nat) :
    (fillEach put item buffer count sink cursor).toResult =
      (do
        let values ← item.times count
        pure (values.foldl (fun sink value => put value sink) sink) : Reader σ) buffer cursor := by
  induction count generalizing sink cursor with
  | zero => rfl
  | succ count ih =>
    rw [fillEach, Reader.times, Reader.bind_apply, Reader.bind_apply]
    cases hitem : item buffer cursor with
    | error failure stop => rfl
    | ok value stop =>
      dsimp only
      rw [ih, Reader.bind_apply, Reader.bind_apply]
      cases item.times count buffer stop <;> rfl

end

/-! ## 3. Lists and maps -/

section

variable (item : Reader α)

theorem toResult_map (f : α → β) (result : Overwritten α) :
    (result.map f).toResult = match result.toResult with
      | .ok value cursor => .ok (f value) cursor
      | .error failure cursor => .error failure cursor := by
  unfold Overwritten.map Overwritten.toResult
  cases result.outcome <;> rfl

/-- An array shows its items, a new one behind the others. -/
theorem Sink.shows_array :
    (Sink.array : Sink (Array α) α).Shows Array.toList fun item items => items ++ [item] :=
  ⟨fun _ _ => rfl, fun item items => by simp [Sink.array]⟩

theorem appendItems_eq_fillEach (count : Nat) (items : List α) (buffer : Buffer) (cursor : Nat) :
    appendItems item count items buffer cursor =
      fillEach (fun item items => items ++ [item]) item buffer count items cursor :=
  Sink.shows_array.fill item buffer count items.toArray cursor

theorem toResult_appendItems (count : Nat) (items : List α) (buffer : Buffer) (cursor : Nat) :
    (appendItems item count items buffer cursor).toResult =
      (do
        let more ← item.times count
        pure (items ++ more) : Reader (List α)) buffer cursor := by
  have hpush : ∀ more items : List α,
      more.foldl (fun items value => items ++ [value]) items = items ++ more := by
    intro more
    induction more with
    | nil => simp
    | cons value more ih => simp [ih]
  rw [appendItems_eq_fillEach, toResult_fillEach]
  simp only [hpush]

theorem readItems_eq_times (count : Nat) : readItems item count = item.times count := by
  funext buffer cursor
  unfold readItems
  rw [toResult_appendItems, Reader.bind_apply]
  cases item.times count buffer cursor <;> rfl

end

/-- As many items are there after they were read over, also when one of them fails. -/
theorem length_overwriteItems (overwrite : Overwriter α) (buffer : Buffer) (items : List α)
    (cursor : Nat) :
    (overwriteItems overwrite items buffer cursor).target.length = items.length := by
  induction items generalizing cursor with
  | nil => rfl
  | cons item rest ih =>
    unfold overwriteItems
    dsimp only
    split
    · exact congrArg (· + 1) (ih _)
    · rfl

section

variable {κ ν : Type} [Ord κ] (kind : MapKind)

/-- A map shows its entries, with a new one inserted. -/
theorem Sink.shows_entries : (Sink.entries kind : Sink (List (κ × ν)) (κ × ν)).Shows id
    fun pair entries => kind.insert pair.1 pair.2 entries :=
  ⟨fun _ _ => rfl, fun _ _ => rfl⟩

theorem Codec.fillEntries_eq_fillEach (key : Codec κ) (value : Codec ν) (count : Nat)
    (buffer : Buffer) (cursor : Nat) : fillEntries kind key value count buffer cursor =
      fillEach (fun pair entries => kind.insert pair.1 pair.2 entries) (readEntry key value) buffer
        count [] cursor :=
  (Sink.shows_entries kind).fill (readEntry key value) buffer count [] cursor

/-- The entries behind a count are read one after the other and inserted in that order. -/
theorem Codec.entriesBody_eq (key : Codec κ) (value : Codec ν) (count : Nat) :
    entriesBody kind key value count = (do
      let pairs ← (readEntry key value).times count
      pure (kind.ofPairs pairs)) := by
  funext buffer cursor
  unfold entriesBody
  rw [fillEntries_eq_fillEach, toResult_fillEach]
  rfl

end

/-! ## 4. Steady items -/

namespace Reader

variable {item item' : Reader α}

/-- Items that are steady wherever the ones before them end are steady in turn. -/
theorem SteadyAt.times {buffer : Buffer} {cursor : Nat}
    (h : ∀ position, cursor ≤ position → position ≤ max cursor buffer.length →
      item.SteadyAt item' buffer position) (count : Nat) :
    (item.times count).SteadyAt (item'.times count) buffer cursor := by
  induction count generalizing cursor with
  | zero => exact steadyAt_pure _ _ _
  | succ count ih =>
    have hfirst := h cursor (Nat.le_refl _) (Nat.le_max_left _ _)
    refine hfirst.bind fun value middle _ hmiddle hmax => ?_
    refine (ih fun position hposition hend => h position (by omega) (by omega)).bind ?_
    intro values stop _ _ _
    exact steadyAt_pure _ _ _

end Reader

end Wireform
