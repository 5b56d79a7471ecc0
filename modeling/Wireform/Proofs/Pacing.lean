import Wireform.Proofs.Consumption

/-!
# Counts that do not outrun the data

A list or a map announces how many items follow, and the announcement may be anything.  It is the
data that sets the pace: if no item is encoded as no bytes, each item that is decoded has taken a
byte, so at no moment have more items been decoded than bytes been consumed behind the count, and a
count beyond the bytes that remain is never served.

The proof has two halves that know nothing of each other.  `Runs` says how a decoding goes: batch by
batch or item by item, afresh or over a target, it reads the announced items in turn, each by a step
of its own, until one fails.  This holds of every codec that a sequence or a map is built from.
`Reader.Advances` says that a step takes a byte.  What keeps pace, `Paced`, is a run of such steps.
-/
namespace Wireform

variable {α β γ δ : Type}

/-! ## 1. Items in turn -/

section

variable (step : (index position : Nat) → Reading β) (start : Nat)

/-- The cursor stands at `position` when `decoded` items have been decoded, each by its step. -/
inductive Reaches : (decoded position : Nat) → Prop where
  | start : Reaches 0 start
  | next {decoded position stop : Nat} {value : β} (h : Reaches decoded position)
    (hstep : step decoded position = .ok value stop) : Reaches (decoded + 1) stop

/-- `count` items are decoded in turn: all of them, or those in front of one that fails. -/
def InTurn (count : Nat) : Reading γ → Prop
  | .ok _ stop => Reaches step start count stop
  | .error failure stop => ∃ decoded position, decoded < count ∧
      Reaches step start decoded position ∧ step decoded position = .error failure stop

/-- The items are decoded in turn, unless their count is refused before the first of them. -/
def Runs (count : Nat) (result : Reading γ) : Prop :=
  InTurn step start count result ∨ ∃ failure, result = .error failure start

end

section

variable {step : (index position : Nat) → Reading β} {start middle first rest : Nat}

/-- Where some items have been decoded the next ones may be. -/
theorem Reaches.append {position : Nat} (h : Reaches step start first middle)
    (h' : Reaches (fun index => step (index + first)) middle rest position) :
    Reaches step start (rest + first) position := by
  induction h' with
  | start => rwa [Nat.zero_add]
  | next _ hstep ih =>
    rw [Nat.succ_add]
    exact .next ih hstep

theorem InTurn.append {result : Reading γ} (h : Reaches step start first middle)
    (h' : InTurn (fun index => step (index + first)) middle rest result) :
    InTurn step start (rest + first) result := by
  cases result with
  | ok value stop => exact h.append h'
  | error failure stop =>
    obtain ⟨decoded, position, hlt, hreaches, hstep⟩ := h'
    exact ⟨decoded + first, position, Nat.add_lt_add_right hlt first, h.append hreaches, hstep⟩

theorem InTurn.cons {value : β} {result : Reading γ} (h : step 0 start = .ok value middle)
    (h' : InTurn (fun index => step (index + 1)) middle rest result) :
    InTurn step start (rest + 1) result :=
  .append (.next .start h) h'

/-- What is made of the items takes no step. -/
theorem InTurn.pure {reader : Reader γ} {buffer : Buffer} {cursor count : Nat} (f : γ → δ)
    (h : InTurn step start count (reader buffer cursor)) :
    InTurn step start count
      ((do let value ← reader; Pure.pure (f value) : Reader δ) buffer cursor) := by
  rw [Reader.bind_apply]
  cases hread : reader buffer cursor <;> rw [hread] at h <;> exact h

theorem InTurn.map {result : Overwritten γ} {count : Nat} (f : γ → δ)
    (h : InTurn step start count result.toResult) :
    InTurn step start count (result.map f).toResult := by
  rw [toResult_map]
  cases hresult : result.toResult <;> rw [hresult] at h <;> exact h

theorem Runs.pure {reader : Reader γ} {buffer : Buffer} {cursor count : Nat} (f : γ → δ)
    (h : Runs step start count (reader buffer cursor)) :
    Runs step start count
      ((do let value ← reader; Pure.pure (f value) : Reader δ) buffer cursor) := by
  rcases h with h | ⟨failure, h⟩
  · exact .inl (h.pure f)
  · exact .inr ⟨failure, Reader.bind_of_error h⟩

theorem Runs.map {result : Overwritten γ} {count : Nat} (f : γ → δ)
    (h : Runs step start count result.toResult) :
    Runs step start count (result.map f).toResult := by
  rcases h with h | ⟨failure, h⟩
  · exact .inl (h.map f)
  · refine .inr ⟨failure, ?_⟩
    rw [toResult_map, h]

end

/-! ## 2. The loops -/

/-- New items are read in turn. -/
theorem inTurn_times (item : Reader β) (buffer : Buffer) (count start : Nat) :
    InTurn (fun _ => item buffer) start count (item.times count buffer start) := by
  induction count generalizing start with
  | zero => exact .start
  | succ count ih =>
    rw [Reader.times, Reader.bind_apply]
    cases hitem : item buffer start with
    | error failure stop => exact ⟨0, start, Nat.succ_pos _, .start, hitem⟩
    | ok value middle => exact .cons hitem ((ih middle).pure (value :: ·))

/-- Decodes the item of an index: over the one that is kept there, or afresh behind them. -/
def Codec.readItem (element : Codec α) (kept : List α) (buffer : Buffer) (index position : Nat) :
    Reading α :=
  match kept[index]? with
  | some item => (element.overwrite item buffer position).toResult
  | none => element.read buffer position

/-- The items of a target of which a sequence of `count` announced ones makes its own. -/
def SequenceKind.kept (kind : SequenceKind) (count : Nat) (target : List α) : List α :=
  match kind with
  | .list => target.take count
  | .deque => []
  | .slice => if count = target.length then target else []

section

variable {element : Codec α} {buffer : Buffer}

@[simp] theorem Codec.readItem_nil : element.readItem [] buffer = fun _ => element.read buffer :=
  rfl

/-- Behind what is kept all items are new. -/
theorem Codec.readItem_behind (kept : List α) :
    (fun index => element.readItem kept buffer (index + kept.length)) =
      fun _ => element.read buffer := by
  funext index position
  unfold readItem
  rw [List.getElem?_eq_none (Nat.le_add_left _ _)]

@[simp] theorem SequenceKind.kept_nil (kind : SequenceKind) (count : Nat) :
    kind.kept count ([] : List α) = [] := by
  cases kind <;> simp [kept]

theorem SequenceKind.mem_of_mem_kept {kind : SequenceKind} {count : Nat} {target : List α} {item : α}
    (h : item ∈ kind.kept count target) : item ∈ target := by
  cases kind with
  | list => exact List.mem_of_mem_take h
  | deque => cases h
  | slice =>
    unfold kept at h
    dsimp only at h
    split at h
    · exact h
    · cases h

theorem inTurn_appendItems (items : List α) (count start : Nat) :
    InTurn (fun _ => element.read buffer) start count
      (appendItems element.read count items buffer start).toResult := by
  rw [toResult_appendItems]
  exact (inTurn_times _ _ _ _).pure (items ++ ·)

/-- Kept items are read over in turn. -/
theorem inTurn_overwriteItems (kept : List α) (start : Nat) :
    InTurn (element.readItem kept buffer) start kept.length
      (overwriteItems element.overwrite kept buffer start).toResult := by
  induction kept generalizing start with
  | nil => exact .start
  | cons item rest ih =>
    unfold overwriteItems
    dsimp only
    have hstep : element.readItem (item :: rest) buffer 0 start =
        (element.overwrite item buffer start).toResult := rfl
    cases houtcome : (element.overwrite item buffer start).outcome with
    | ok _ =>
      rw [Overwritten.toResult, houtcome] at hstep
      exact .cons hstep ((ih _).map _)
    | error failure =>
      rw [Overwritten.toResult, houtcome] at hstep
      exact ⟨0, start, Nat.succ_pos _, .start, hstep⟩

/-- A list reads over the items that it keeps, and reads new ones behind them. -/
theorem inTurn_list (kept : List α) {count : Nat} (hkept : kept.length ≤ count) (start : Nat) :
    InTurn (element.readItem kept buffer) start count
      ((overwriteItems element.overwrite kept buffer start).andThen
        fun items cursor => appendMissing element.read count items buffer cursor).toResult := by
  have hover : InTurn (element.readItem kept buffer) start kept.length
      (overwriteItems element.overwrite kept buffer start).toResult := inTurn_overwriteItems kept start
  have hlength := length_overwriteItems element.overwrite buffer kept start
  obtain ⟨rest, rfl⟩ := Nat.exists_eq_add_of_le' hkept
  unfold Overwritten.andThen
  cases houtcome : (overwriteItems element.overwrite kept buffer start).outcome with
  | ok _ =>
    rw [Overwritten.toResult, houtcome] at hover
    dsimp only
    unfold appendMissing
    rw [hlength, if_pos hkept, Nat.add_sub_cancel]
    refine InTurn.append hover ?_
    rw [Codec.readItem_behind]
    exact inTurn_appendItems _ _ _
  | error failure =>
    rw [Overwritten.toResult, houtcome] at hover ⊢
    obtain ⟨decoded, position, hlt, hreaches, hstep⟩ := hover
    exact ⟨decoded, position, hlt.trans_le hkept, hreaches, hstep⟩

end

/-! ## 3. Codecs that count -/

/-- The bytes at the cursor announce `count` items. -/
def Announces (buffer : Buffer) (cursor count : Nat) : Prop :=
  count ≤ maxLength ∧ HoldsAt buffer cursor (lengthBytes count)

theorem Announces.readLength {buffer : Buffer} {cursor count : Nat}
    (h : Announces buffer cursor count) :
    readLength buffer cursor = .ok (some count) (cursor + lengthPrefixSize) := by
  have hread := (Reader.yields_readLength h.1 buffer cursor).whole h.2
  rwa [length_lengthBytes] at hread

theorem Announces.readRequiredLength {buffer : Buffer} {cursor count : Nat}
    (h : Announces buffer cursor count) (name : String) :
    readRequiredLength name buffer cursor = .ok count (cursor + lengthPrefixSize) := by
  have hread := (Reader.yields_readRequiredLength name h.1 buffer cursor).whole h.2
  rwa [length_lengthBytes] at hread

theorem Overwritten.after_of_ok {first : Reader β} {target : α} {buffer : Buffer} {cursor stop : Nat}
    {value : β} {next : β → Nat → Overwritten α} (h : first buffer cursor = .ok value stop) :
    Overwritten.after first target buffer cursor next = next value stop := by
  unfold Overwritten.after
  rw [h]

namespace Codec

/-- However values are decoded, the items that their prefix announces are decoded in turn: afresh by
`item`, and over a target as `itemOver` says of the target and the count. -/
structure RunsBy (codec : Codec α) (item : Reader β) (Over : α → Prop)
    (itemOver : (target : α) → (count : Nat) → Buffer → (index position : Nat) → Reading β) :
    Prop where
  fresh : ∀ buffer cursor count, Announces buffer cursor count →
    Runs (fun _ => item buffer) (cursor + lengthPrefixSize) count (codec.read buffer cursor)
  nullable : ∀ buffer cursor count, Announces buffer cursor count →
    Runs (fun _ => item buffer) (cursor + lengthPrefixSize) count (codec.nullable.read buffer cursor)
  inPlace : ∀ target, Over target → ∀ buffer cursor count, Announces buffer cursor count →
    Runs (itemOver target count buffer) (cursor + lengthPrefixSize) count
      (codec.overwrite target buffer cursor).toResult

namespace RunsBy

section

variable {codec : Codec α} {item : Reader β} {Over : α → Prop}
  {itemOver : α → Nat → Buffer → Nat → Nat → Reading β}

/-- A codec that reads the items behind a required prefix, or behind one that may be null. -/
theorem of_length {name overName : String} {body : Nat → Reader α}
    {overBody : α → Buffer → Nat → Nat → Overwritten α}
    (hread : codec.read = (readRequiredLength name >>= body))
    (hnullable : codec.nullable.read = .behindCount body)
    (hover : codec.overwrite = fun target buffer cursor =>
      Overwritten.after (readRequiredLength overName) target buffer cursor
        fun count cursor => overBody target buffer count cursor)
    (hbody : ∀ buffer count start,
      Runs (fun _ => item buffer) start count (body count buffer start))
    (hoverBody : ∀ target, Over target → ∀ buffer count start,
      Runs (itemOver target count buffer) start count
        (overBody target buffer count start).toResult) : codec.RunsBy item Over itemOver := by
  refine ⟨fun buffer cursor count h => ?_, fun buffer cursor count h => ?_,
    fun target htarget buffer cursor count h => ?_⟩
  · rw [hread, Reader.bind_of_ok (h.readRequiredLength name)]
    exact hbody _ _ _
  · have hsome : codec.nullable.read buffer cursor =
        (do let value ← body count; pure (some value) : Reader (Option α)) buffer
          (cursor + lengthPrefixSize) := by
      rw [hnullable]
      exact Reader.bind_of_ok h.readLength
    rw [hsome]
    exact (hbody _ _ _).pure some
  · rw [hover]
    dsimp only
    rw [Overwritten.after_of_ok (h.readRequiredLength overName)]
    exact hoverBody _ htarget _ _ _

/-- A target of another case is replaced by what is read afresh. -/
theorem lift (h : codec.RunsBy item Over itemOver) {case : Case α δ} {Over' : δ → Prop}
    {itemOver' : δ → Nat → Buffer → Nat → Nat → Reading β}
    (hover : ∀ inner, Over' (case.wrap inner) → Over inner)
    (hsome : ∀ inner, itemOver' (case.wrap inner) = itemOver inner)
    (hnone : ∀ target, case.get? target = none → ∀ count buffer,
      itemOver' target count buffer = fun _ => item buffer) :
    (codec.lift case).RunsBy item Over' itemOver' := by
  refine ⟨fun buffer cursor count hcount => (h.fresh buffer cursor count hcount).pure _,
    fun buffer cursor count hcount => (h.nullable buffer cursor count hcount).pure _,
    fun target htarget buffer cursor count hcount => ?_⟩
  show Runs _ _ _ (Overwriter.lift codec.overwrite case codec.read target buffer cursor).toResult
  unfold Overwriter.lift
  cases hget : case.get? target with
  | none =>
    rw [hnone target hget]
    dsimp only
    rw [toResult_freshly]
    exact (h.fresh buffer cursor count hcount).pure _
  | some inner =>
    have hwrap := case.wrap_of_get? hget
    rw [← hwrap] at htarget ⊢
    rw [hsome]
    exact (h.inPlace inner (hover inner htarget) buffer cursor count hcount).map _

end

theorem sequence (kind : SequenceKind) (element : Codec α) (Over : List α → Prop) :
    (Codec.sequence kind element).RunsBy element.read Over
      fun target count => element.readItem (kind.kept count target) := by
  refine of_length rfl rfl rfl (fun buffer count start => ?_) fun target _ buffer count start => ?_
  · rw [readItems_eq_times]
    exact .inl (inTurn_times _ _ _ _)
  · refine .inl ?_
    cases kind with
    | list => exact inTurn_list _ (List.length_take_le _ _) start
    | deque => exact inTurn_appendItems _ _ _
    | slice =>
      unfold SequenceKind.kept
      dsimp only
      by_cases hcount : count = target.length
      · rw [if_pos hcount, if_neg (not_not.mpr hcount), hcount]
        exact inTurn_overwriteItems _ _
      · rw [if_neg hcount, if_pos hcount, toResult_freshly, readItems_eq_times]
        exact inTurn_times _ _ _ _

/-- An array refuses every count but its own. -/
theorem array (length : Nat) (element : Codec α) :
    (Codec.array length element).RunsBy element.read (fun target => target.length = length)
      fun target _ => element.readItem target := by
  refine of_length rfl rfl rfl (fun buffer count start => ?_)
    fun target hlength buffer count start => ?_
  · unfold arrayBody
    split
    · exact .inr ⟨_, rfl⟩
    · rw [readItems_eq_times]
      exact .inl (inTurn_times _ _ _ _)
  · split
    · exact .inr ⟨_, rfl⟩
    · next hcount =>
      rw [not_not.mp hcount, ← hlength]
      exact .inl (inTurn_overwriteItems _ _)

/-- Entries are all new. -/
theorem mapping {κ ν : Type} [Ord κ] (kind : MapKind) (key : Codec κ) (value : Codec ν)
    (Over : List (κ × ν) → Prop) :
    (Codec.mapping kind key value).RunsBy (readEntry key value) Over
      fun _ _ buffer _ => readEntry key value buffer := by
  have hbody : ∀ buffer count start,
      Runs (fun _ => readEntry key value buffer) start count
        (entriesBody kind key value count buffer start) := by
    intro buffer count start
    rw [entriesBody_eq]
    exact .inl ((inTurn_times _ _ _ _).pure _)
  exact of_length rfl rfl rfl hbody fun _ _ => hbody

end RunsBy

end Codec

/-! ## 4. Keeping pace -/

/-- The decoding of `count` items behind `start` keeps pace with the data. -/
structure Paced (step : (index position : Nat) → Reading β) (buffer : Buffer) (start count : Nat)
    (result : Reading γ) : Prop where
  /-- The decoding is that of the items in turn, unless it refuses their count. -/
  runs : Runs step start count result
  /-- At no moment have more items been decoded than bytes been consumed behind the count: neither
  between two items, nor when one of them has failed. -/
  moments : ∀ decoded position, Reaches step start decoded position → start + decoded ≤ position ∧
    ∀ failure stop, step decoded position = .error failure stop → start + decoded ≤ stop
  /-- A decoding that succeeds has consumed a byte for each item. -/
  consumed : ∀ value stop, result = .ok value stop → start + count ≤ stop
  /-- A count beyond the bytes that remain behind it fails. -/
  refused : buffer.length - start < count → ∃ failure stop, result = .error failure stop

section

variable {step : (index position : Nat) → Reading β} {buffer : Buffer} {start : Nat}

/-- **Steps that take bytes keep pace**: each item that has been decoded has taken one, inside the
buffer. -/
theorem Reaches.le (hstep : ∀ index position, Reading.Takes buffer position (step index position))
    {decoded position : Nat} (h : Reaches step start decoded position) :
    start + decoded ≤ position ∧ (0 < decoded → position ≤ buffer.length) := by
  induction h with
  | start => exact ⟨Nat.le_refl _, fun hpos => absurd hpos (Nat.lt_irrefl 0)⟩
  | @next decoded position stop value _ hok ih =>
    have htakes := hstep decoded position
    rw [hok] at htakes
    obtain ⟨hlt, hend⟩ := htakes
    exact ⟨by omega, fun _ => hend⟩

theorem Runs.paced {count : Nat} {result : Reading γ} (h : Runs step start count result)
    (hstep : ∀ index position, Reading.Takes buffer position (step index position)) :
    Paced step buffer start count result := by
  have hreached : ∀ value stop, result = .ok value stop → Reaches step start count stop := by
    rintro value stop rfl
    rcases h with h | ⟨failure, hfailure⟩
    · exact h
    · cases hfailure
  refine ⟨h, fun decoded position hposition => ?_, fun value stop hok => ?_, fun hcount => ?_⟩
  · have hle := (hposition.le hstep).1
    refine ⟨hle, fun failure stop hfailure => ?_⟩
    have htakes := hstep decoded position
    rw [hfailure] at htakes
    exact hle.trans htakes
  · exact ((hreached value stop hok).le hstep).1
  · cases hresult : result with
    | error failure stop => exact ⟨failure, stop, rfl⟩
    | ok value stop =>
      obtain ⟨hle, hend⟩ := (hreached value stop hresult).le hstep
      have hinside := hend (by omega)
      omega

end

/-- However values are decoded, their items keep pace with the data: afresh, as optional values, and
over every target of some kind. -/
structure Codec.KeepsPace (codec : Codec α) (item : Reader β) (Over : α → Prop)
    (itemOver : (target : α) → (count : Nat) → Buffer → (index position : Nat) → Reading β) :
    Prop where
  fresh : ∀ buffer cursor count, Announces buffer cursor count →
    Paced (fun _ => item buffer) buffer (cursor + lengthPrefixSize) count (codec.read buffer cursor)
  nullable : ∀ buffer cursor count, Announces buffer cursor count →
    Paced (fun _ => item buffer) buffer (cursor + lengthPrefixSize) count
      (codec.nullable.read buffer cursor)
  inPlace : ∀ target, Over target → ∀ buffer cursor count, Announces buffer cursor count →
    Paced (itemOver target count buffer) buffer (cursor + lengthPrefixSize) count
      (codec.overwrite target buffer cursor).toResult

namespace Codec

theorem RunsBy.keepsPace {codec : Codec α} {item : Reader β} {Over : α → Prop}
    {itemOver : α → Nat → Buffer → Nat → Nat → Reading β} (h : codec.RunsBy item Over itemOver)
    (hitem : item.Advances)
    (hover : ∀ target, Over target → ∀ count buffer index position,
      Reading.Takes buffer position (itemOver target count buffer index position)) :
    codec.KeepsPace item Over itemOver :=
  ⟨fun buffer cursor count hcount => (h.fresh buffer cursor count hcount).paced fun _ => hitem buffer,
    fun buffer cursor count hcount => (h.nullable buffer cursor count hcount).paced
      fun _ => hitem buffer,
    fun target htarget buffer cursor count hcount =>
      (h.inPlace target htarget buffer cursor count hcount).paced (hover target htarget count buffer)⟩

/-- An item takes a byte whether it is new or read over. -/
theorem takes_readItem {element : Codec α} (h : element.read.Advances) {kept : List α}
    (hkept : ∀ item ∈ kept, element.Agrees item) (buffer : Buffer) (index position : Nat) :
    Reading.Takes buffer position (element.readItem kept buffer index position) := by
  unfold readItem
  split
  · next item hitem =>
    exact (h buffer position).of_alike
      (hkept item (List.mem_of_getElem? hitem) buffer position).symm
  · exact h buffer position

end Codec

/-! ## 5. Catalogues -/

/-- The items of a list; other values have none. -/
def Value.listItems (value : Value) : List Value := (Value.listCase.get? value).getD []

theorem Value.listItems_of_get?_eq_none {value : Value} (h : Value.listCase.get? value = none) :
    value.listItems = [] := by
  rw [listItems, h]
  rfl

theorem Value.mem_listItems {value item : Value} (h : item ∈ value.listItems) :
    ∃ items, value = .list items ∧ item ∈ items := by
  cases value with
  | list items => exact ⟨items, rfl, h⟩
  | _ => cases h

namespace Catalogue

section

variable [DecimalForm] (catalogue : Catalogue)

/-- The collections that have the given codecs keep pace with the data, if what they are made of is
never encoded as no bytes. -/
structure KeepsPace (codecOf : Shape → Codec Value) : Prop where
  sequence : ∀ kind element, catalogue.NeverEmpty element →
    (codecOf (.sequence kind element)).KeepsPace (codecOf element).read
      (catalogue.IsTarget (.sequence kind element))
      fun target count => (codecOf element).readItem (kind.kept count target.listItems)
  array : ∀ length element, catalogue.NeverEmpty element →
    (codecOf (.array length element)).KeepsPace (codecOf element).read
      (catalogue.IsTarget (.array length element))
      fun target _ => (codecOf element).readItem target.listItems
  mapping : ∀ kind key value, catalogue.NeverEmptyEntry key value →
    (codecOf (.mapping kind key value)).KeepsPace (Codec.readEntry (codecOf key) (codecOf value))
      (catalogue.IsTarget (.mapping kind key value))
      fun _ _ buffer _ => Codec.readEntry (codecOf key) (codecOf value) buffer

variable {catalogue} (sharing : Sharing Value)

theorem Planned.keepsPace_within (hplanned : catalogue.Planned) (nestings : Nat) :
    catalogue.KeepsPace (catalogue.within sharing nestings) := by
  refine ⟨fun kind element helement => ?_, fun length element helement => ?_,
    fun kind key value hentry => ?_⟩
  · have hitem := hplanned.advances sharing nestings helement
    have hruns : (catalogue.within sharing nestings (.sequence kind element)).RunsBy
        (catalogue.within sharing nestings element).read (catalogue.IsTarget (.sequence kind element))
        fun target count => (catalogue.within sharing nestings element).readItem
          (kind.kept count target.listItems) :=
      (Codec.RunsBy.sequence kind _ fun _ => True).lift (fun _ _ => trivial) (fun _ => rfl)
        fun target hget count buffer => by
          rw [Value.listItems_of_get?_eq_none hget, kind.kept_nil, Codec.readItem_nil]
    refine hruns.keepsPace hitem fun target htarget count buffer =>
      Codec.takes_readItem hitem (fun item hkept => ?_) buffer
    obtain ⟨items, rfl, hmem⟩ := Value.mem_listItems (SequenceKind.mem_of_mem_kept hkept)
    cases htarget with
    | sequence h => exact hplanned.agrees sharing nestings (h items rfl item hmem)
  · have hitem := hplanned.advances sharing nestings helement
    have hruns : (catalogue.within sharing nestings (.array length element)).RunsBy
        (catalogue.within sharing nestings element).read (catalogue.IsTarget (.array length element))
        fun target _ => (catalogue.within sharing nestings element).readItem target.listItems := by
      refine (Codec.RunsBy.array length _).lift (fun items htarget => ?_) (fun _ => rfl)
        fun target hget count buffer => ?_
      · cases htarget with
        | array hlength _ => exact hlength items rfl
      · rw [Value.listItems_of_get?_eq_none hget, Codec.readItem_nil]
    refine hruns.keepsPace hitem fun target htarget count buffer =>
      Codec.takes_readItem hitem (fun item hkept => ?_) buffer
    obtain ⟨items, rfl, hmem⟩ := Value.mem_listItems hkept
    cases htarget with
    | array _ h => exact hplanned.agrees sharing nestings (h items rfl item hmem)
  · have hitem := hplanned.advances_entry sharing nestings hentry
    have hruns : (catalogue.within sharing nestings (.mapping kind key value)).RunsBy
        (Codec.readEntry (catalogue.within sharing nestings key)
          (catalogue.within sharing nestings value))
        (catalogue.IsTarget (.mapping kind key value))
        fun _ _ buffer _ => Codec.readEntry (catalogue.within sharing nestings key)
          (catalogue.within sharing nestings value) buffer :=
      (Codec.RunsBy.mapping kind _ _ fun _ => True).lift (fun _ _ => trivial) (fun _ => rfl)
        fun _ _ _ _ => rfl
    exact hruns.keepsPace hitem fun _ _ _ buffer _ => hitem buffer

/-- The nestings of a read are those of its buffer, for an entry as for the map that it is in. -/
theorem readEntry_codecOf (key value : Shape) (buffer : Buffer) :
    Codec.readEntry (catalogue.codecOf sharing key) (catalogue.codecOf sharing value) buffer =
      Codec.readEntry (catalogue.within sharing (catalogue.nestingsOf buffer) key)
        (catalogue.within sharing (catalogue.nestingsOf buffer) value) buffer := by
  have hread : ∀ shape, (catalogue.codecOf sharing shape).read buffer =
      (catalogue.within sharing (catalogue.nestingsOf buffer) shape).read buffer := fun _ => rfl
  funext cursor
  simp only [Codec.readEntry, Reader.bind_apply, hread]

/-- **No count outruns the data.**  Let a catalogue be given, and a list, an array or a map whose
elements, or entries, are never encoded as no bytes.  Wherever in a buffer a count stands, and
whether the collection behind it is read afresh, as an optional value or over a target: the items
are decoded in turn, and at every moment at least as many bytes have been consumed behind the count
as items have been decoded.  So a decoding that succeeds has consumed the count and a byte for each
item, and one whose count is beyond the bytes that remain fails.  This holds of the codec of the
shape and, whatever the nestings that are left, of every collection that is met inside a value. -/
theorem counts_keep_pace (hplanned : catalogue.Planned) :
    (∀ nestings, catalogue.KeepsPace (catalogue.within sharing nestings)) ∧
      catalogue.KeepsPace (catalogue.codecOf sharing) := by
  have hwithin := hplanned.keepsPace_within sharing
  refine ⟨hwithin, fun kind element h => ?_, fun length element h => ?_, fun kind key value h => ?_⟩
  · have hpace := fun buffer => (hwithin (catalogue.nestingsOf buffer)).sequence kind element h
    exact ⟨fun buffer => (hpace buffer).fresh buffer, fun buffer => (hpace buffer).nullable buffer,
      fun target htarget buffer => (hpace buffer).inPlace target htarget buffer⟩
  · have hpace := fun buffer => (hwithin (catalogue.nestingsOf buffer)).array length element h
    exact ⟨fun buffer => (hpace buffer).fresh buffer, fun buffer => (hpace buffer).nullable buffer,
      fun target htarget buffer => (hpace buffer).inPlace target htarget buffer⟩
  · have hpace := fun buffer => (hwithin (catalogue.nestingsOf buffer)).mapping kind key value h
    refine ⟨fun buffer => ?_, fun buffer => ?_, fun target htarget buffer => ?_⟩ <;>
      rw [readEntry_codecOf]
    · exact (hpace buffer).fresh buffer
    · exact (hpace buffer).nullable buffer
    · exact (hpace buffer).inPlace target htarget buffer

end

open Samples (chain chain_planned)

theorem neverEmpty_byte [DecimalForm] : chain.NeverEmpty (.leaf (.primitive .u8)) := by
  intro value hvalue _ hwire
  cases hvalue with
  | leaf h =>
    rw [wire_leaf h] at hwire
    cases value with
    | int n => cases hwire
    | _ => exact h

/-- Two bytes behind a count of 200 are refused, also over a list of three. -/
theorem counts_keep_pace_bytes :
    (chain.Planned ∧ chain.NeverEmpty (.leaf (.primitive .u8))) ∧
      (∃ failure stop, (chain.codecOf Sharing.none (.sequence .list (.leaf (.primitive .u8)))).read
        [200, 0, 0, 0, 1, 2] 0 = .error failure stop) ∧
      ∃ failure stop, ((chain.codecOf Sharing.none
        (.sequence .list (.leaf (.primitive .u8)))).overwrite (.list [.int 7, .int 8, .int 9])
          [200, 0, 0, 0, 1, 2] 0).toResult = .error failure stop := by
  have hcount : Announces [200, 0, 0, 0, 1, 2] 0 200 := ⟨by decide, [1, 2], rfl⟩
  have hpace := (counts_keep_pace Sharing.none chain_planned).2.sequence .list _ neverEmpty_byte
  have htarget : chain.IsTarget (.sequence .list (.leaf (.primitive .u8)))
      (.list [.int 7, .int 8, .int 9]) := .sequence fun _ _ _ _ => .leaf
  exact ⟨⟨chain_planned, neverEmpty_byte⟩, (hpace.fresh _ _ _ hcount).refused (by decide),
    (hpace.inPlace _ htarget _ _ _ hcount).refused (by decide)⟩

end Catalogue

end Wireform
