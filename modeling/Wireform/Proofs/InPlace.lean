import Wireform.Proofs.Counted
import Wireform.Proofs.Nesting
import Wireform.Samples.Decimals

/-!
# Reading over a value

Whatever the target held, reading over it is reading afresh.  `Codec.Agrees codec target` says so
of one target: both reads end at the same place, with the same value or with the same failure, up
to the type that an unexpected null names.

Each codec reuses its target in a way of its own, and each time the reason is the same: the parts
of the target are read over as new ones are read, and what the target has too much of is dropped
before anything is read behind it.  For the codecs of a catalogue this is an induction on the
nestings, and for each of them on how the target comes to have its shape.
-/
namespace Wireform

variable {α β : Type}

/-- Reading over the target ends as reading afresh does. -/
def Codec.Agrees (codec : Codec α) (target : α) : Prop :=
  ∀ buffer cursor, Reading.Alike (codec.overwrite target buffer cursor).toResult
    (codec.read buffer cursor)

/-! ## 1. Parts of a read -/

theorem toResult_freshly (reader : Reader α) (target : α) (buffer : Buffer) (cursor : Nat) :
    (freshly reader target buffer cursor).toResult = reader buffer cursor := by
  unfold freshly Overwritten.after
  cases reader buffer cursor <;> rfl

/-- What is done to the target is done to the value. -/
theorem Reading.Alike.map {result : Overwritten α} {reader : Reader α} {buffer : Buffer}
    {cursor : Nat} (h : Reading.Alike result.toResult (reader buffer cursor)) (f : α → β) :
    Reading.Alike (result.map f).toResult
      ((do let value ← reader; pure (f value) : Reader β) buffer cursor) := by
  rw [toResult_map, Reader.bind_apply]
  cases hresult : result.toResult <;> cases hread : reader buffer cursor <;>
    simp only [hresult, hread, Reading.Alike] at h
  · exact ⟨congrArg f h.1, h.2⟩
  · exact h

/-- Behind the same reader, or one that is alike, it is enough that what follows is alike. -/
theorem Reading.Alike.after {first first' : Reader β} {target : α} {buffer : Buffer} {cursor : Nat}
    {next : β → Nat → Overwritten α} {next' : β → Reader α}
    (h : Reading.Alike (first buffer cursor) (first' buffer cursor))
    (hnext : ∀ value stop, first buffer cursor = .ok value stop →
      Reading.Alike (next value stop).toResult (next' value buffer stop)) :
    Reading.Alike (Overwritten.after first target buffer cursor next).toResult
      ((first' >>= next') buffer cursor) := by
  unfold Overwritten.after
  cases hfirst : first buffer cursor with
  | ok value stop =>
    rw [hfirst] at h
    rw [Reader.bind_of_ok h.eq_ok]
    exact hnext value stop hfirst
  | error failure stop =>
    rw [hfirst] at h
    cases hfirst' : first' buffer cursor with
    | ok value' stop' => rw [hfirst'] at h; exact h.elim
    | error failure' stop' =>
      rw [hfirst'] at h
      rw [Reader.bind_of_error hfirst']
      exact h

/-- Going on from a target that was read over is going on from the value that was read. -/
theorem Reading.Alike.andThen {result : Overwritten α} {reader : Reader α} {buffer : Buffer}
    {cursor : Nat} {next : α → Nat → Overwritten α} {next' : α → Reader α}
    (h : Reading.Alike result.toResult (reader buffer cursor))
    (hnext : ∀ value stop, reader buffer cursor = .ok value stop →
      Reading.Alike (next value stop).toResult (next' value buffer stop)) :
    Reading.Alike (result.andThen next).toResult ((reader >>= next') buffer cursor) := by
  unfold Overwritten.andThen
  cases houtcome : result.outcome with
  | ok _ =>
    have hresult : result.toResult = .ok result.target result.cursor := by
      rw [Overwritten.toResult, houtcome]
    rw [hresult] at h
    rw [Reader.bind_of_ok h.eq_ok]
    exact hnext _ _ h.eq_ok
  | error failure =>
    have hresult : result.toResult = .error failure result.cursor := by
      rw [Overwritten.toResult, houtcome]
    dsimp only
    rw [hresult] at h ⊢
    cases hread : reader buffer cursor with
    | ok value' stop' => rw [hread] at h; exact h.elim
    | error failure' stop' =>
      rw [hread] at h
      rw [Reader.bind_of_error hread]
      exact h

/-- A head and a rest that are read over one after the other are read one after the other. -/
theorem Reading.Alike.cons {head : Overwritten α} {rest : Overwritten (List α)} {stale : List α}
    {reader : Reader α} {readers : Reader (List α)} {buffer : Buffer} {cursor : Nat}
    (h : Reading.Alike head.toResult (reader buffer cursor))
    (hrest : Reading.Alike head.toResult (.ok head.target head.cursor) →
      Reading.Alike rest.toResult (readers buffer head.cursor)) :
    Reading.Alike
      (match head.outcome with
        | .ok _ => rest.map (head.target :: ·)
        | .error failure => ⟨head.target :: stale, head.cursor, .error failure⟩ :
          Overwritten (List α)).toResult
      ((do
        let value ← reader
        let values ← readers
        pure (value :: values) : Reader (List α)) buffer cursor) := by
  cases houtcome : head.outcome with
  | ok _ =>
    have hhead : head.toResult = .ok head.target head.cursor := by
      rw [Overwritten.toResult, houtcome]
    rw [hhead] at h hrest
    rw [Reader.bind_of_ok h.eq_ok]
    exact (hrest (.refl _)).map _
  | error failure =>
    have hhead : head.toResult = .error failure head.cursor := by
      rw [Overwritten.toResult, houtcome]
    rw [hhead] at h
    cases hread : reader buffer cursor with
    | ok value stop => rw [hread] at h; exact h.elim
    | error failure' stop =>
      rw [hread] at h
      rw [Reader.bind_of_error hread]
      exact h

namespace Codec.Agrees

/-! ## 2. Codecs -/

theorem of_freshly {codec : Codec α} (h : codec.overwrite = freshly codec.read) (target : α) :
    codec.Agrees target := by
  intro buffer cursor
  rw [h, toResult_freshly]
  exact .refl _

/-- A target of another case is replaced by what is read afresh. -/
theorem lift {codec : Codec α} {case : Case α β} {target : β}
    (h : ∀ inner, case.get? target = some inner → codec.Agrees inner) :
    (codec.lift case).Agrees target := by
  intro buffer cursor
  show Reading.Alike (Overwriter.lift codec.overwrite case codec.read target buffer cursor).toResult
    ((do let inner ← codec.read; pure (case.wrap inner) : Reader β) buffer cursor)
  unfold Overwriter.lift
  cases hget : case.get? target with
  | none =>
    rw [toResult_freshly]
    exact .refl _
  | some inner => exact (h inner hget buffer cursor).map case.wrap

theorem shared {codec : Codec α} {target : α} (h : codec.Agrees target) (sharing : Sharing α) :
    (Codec.shared sharing codec).Agrees target := by
  intro buffer cursor
  show Reading.Alike ((SharedBox.overwrite codec (.ofOwners (sharing target cursor) target) buffer
    cursor).map SharedBox.value).toResult (codec.read buffer cursor)
  unfold SharedBox.ofOwners
  cases sharing target cursor with
  | true =>
    rw [if_pos rfl, toResult_map]
    unfold SharedBox.overwrite Overwritten.after
    cases codec.read buffer cursor <;> exact .refl _
  | false =>
    have hsole := (h buffer cursor).map id
    rw [toResult_map] at hsole
    rw [if_neg Bool.false_ne_true, toResult_map]
    unfold SharedBox.overwrite
    rw [toResult_map]
    refine Reading.Alike.trans ?_ (h buffer cursor)
    cases (codec.overwrite target buffer cursor).toResult <;> exact .refl _

/-! ## 3. Sequences -/

section

variable {element : Codec α}

/-- Items are read over as that many new ones are read. -/
theorem items {items : List α} (h : ∀ item ∈ items, element.Agrees item) (buffer : Buffer)
    (cursor : Nat) :
    Reading.Alike (overwriteItems element.overwrite items buffer cursor).toResult
      (element.read.times items.length buffer cursor) := by
  induction items generalizing cursor with
  | nil => exact .refl _
  | cons item rest ih =>
    have hrest := ih fun i hi => h i (List.mem_cons_of_mem _ hi)
    exact (h item List.mem_cons_self buffer cursor).cons fun _ => hrest _

/-- What is missing behind the items that were read over is read behind them. -/
theorem appendMissing {count : Nat} {items : List α} (h : items.length ≤ count) (buffer : Buffer)
    (cursor : Nat) :
    (Wireform.appendMissing element.read count items buffer cursor).toResult =
      (do
        let more ← element.read.times (count - items.length)
        pure (items ++ more) : Reader (List α)) buffer cursor := by
  unfold Wireform.appendMissing
  rw [if_pos h, toResult_appendItems]

theorem sequence (kind : SequenceKind) {target : List α} (h : ∀ item ∈ target, element.Agrees item) :
    (Codec.sequence kind element).Agrees target := by
  intro buffer cursor
  show Reading.Alike (overwriteSequence kind element target buffer cursor).toResult
    ((readRequiredLength kind.typeName >>= fun count => readItems element.read count) buffer cursor)
  refine Reading.Alike.after (.refl _) fun count stop _ => ?_
  rw [readItems_eq_times]
  cases kind with
  | list =>
    have htake : (target.take count).length ≤ count := by
      rw [List.length_take]
      omega
    have hcount : count = (target.take count).length + (count - (target.take count).length) := by
      omega
    have hitem : ∀ item ∈ target.take count, element.Agrees item :=
      fun item hitem => h item (List.mem_of_mem_take hitem)
    conv => arg 2; rw [hcount, Reader.times_add]
    refine (items hitem buffer stop).andThen fun values middle hvalues => ?_
    have hlength := Reader.length_of_times hvalues
    rw [appendMissing (by omega), hlength]
    exact .refl _
  | deque =>
    rw [toResult_appendItems, Reader.bind_apply]
    cases element.read.times count buffer stop <;> exact .refl _
  | slice =>
    dsimp only
    by_cases hlength : count = target.length
    · subst hlength
      rw [if_neg (by simp)]
      exact items h buffer stop
    · rw [if_pos hlength, toResult_freshly]
      exact .refl _

theorem array {length : Nat} {target : List α} (hlength : target.length = length)
    (h : ∀ item ∈ target, element.Agrees item) : (Codec.array length element).Agrees target := by
  intro buffer cursor
  refine Reading.Alike.after (.refl _) fun count stop _ => ?_
  unfold arrayBody
  by_cases hcount : count = length
  · rw [if_neg (by simp [hcount]), if_neg (by simp [hcount]), readItems_eq_times, hcount, ← hlength]
    exact items h buffer stop
  · rw [if_pos hcount, if_pos hcount]
    exact .refl _

/-- A map reuses nothing, but an unexpected null may be reported under another name. -/
theorem mapping {κ ν : Type} [Ord κ] (kind : MapKind) (key : Codec κ) (value : Codec ν)
    (target : List (κ × ν)) : (Codec.mapping kind key value).Agrees target := by
  intro buffer cursor
  exact Reading.Alike.after
    (Reader.alike_readRequiredLength kind.overwriteName kind.typeName buffer cursor)
    fun _ _ _ => .refl _

end

/-! ## 4. Records -/

section

variable (codecOf : Shape → Codec Value) {bytes : Nat} (set : NullBitset bytes)

/-- A field of a record whose bitset is known. -/
theorem field {field : FieldLayout} {value : Value}
    (h : ∀ content, field.content? value = some content → (codecOf field.shape).Agrees content)
    (buffer : Buffer) (cursor : Nat) :
    Reading.Alike ((field.codec codecOf).overwrite set value buffer cursor).toResult
      ((field.codec codecOf).read set buffer cursor) := by
  obtain ⟨presence, shape, initial⟩ := field
  cases presence with
  | always => exact h value rfl buffer cursor
  | skipped => exact .refl _
  | nullable slot =>
    refine Reading.Alike.after (.refl _) fun isNull stop _ => ?_
    cases isNull with
    | true => exact .refl _
    | false =>
      rw [if_neg Bool.false_ne_true, if_neg Bool.false_ne_true]
      have hfresh : Reading.Alike ((do
            let inner ← (do let inner ← (codecOf shape).read; pure (some inner))
            pure (Value.optionCase.wrap inner) : Reader Value) buffer stop)
          ((do let inner ← (codecOf shape).read; pure (.present inner) : Reader Value)
            buffer stop) := by
        rw [Reader.bind_apply, Reader.bind_apply, Reader.bind_apply]
        cases (codecOf shape).read buffer stop <;> exact .refl _
      cases value with
      | present inner => exact (h inner rfl buffer stop).map Value.present
      | null =>
        have hread : Reading.Alike
            (freshly (do let inner ← (codecOf shape).read; pure (some inner)) none buffer
              stop).toResult
            ((do let inner ← (codecOf shape).read; pure (some inner) : Reader (Option Value))
              buffer stop) := by
          rw [toResult_freshly]
          exact .refl _
        exact (hread.map Value.optionCase.wrap).trans hfresh
      | _ =>
        unfold Overwriter.lift
        dsimp only [Value.optionCase]
        rw [toResult_freshly]
        exact hfresh

theorem fields {fields : List FieldLayout} {values : List Value}
    (hlength : fields.length = values.length)
    (h : ∀ pair ∈ fields.zip values, ∀ content, pair.1.content? pair.2 = some content →
      (codecOf pair.1.shape).Agrees content) (buffer : Buffer) (cursor : Nat) :
    Reading.Alike
      (overwriteFields set (fields.map (FieldLayout.codec codecOf)) values buffer cursor).toResult
      (readFields set (fields.map (FieldLayout.codec codecOf)) buffer cursor) := by
  induction fields generalizing values cursor with
  | nil =>
    cases values with
    | nil => exact .refl _
    | cons value values => cases hlength
  | cons head fields ih =>
    cases values with
    | nil => cases hlength
    | cons value values =>
      have hhead := field codecOf set (h (head, value) List.mem_cons_self) buffer cursor
      have hrest := ih (Nat.succ.inj hlength)
        fun pair hpair => h pair (List.mem_cons_of_mem _ hpair)
      exact hhead.cons fun _ => hrest _

end

theorem record (codecOf : Shape → Codec Value) {fields : List FieldLayout} {values : List Value}
    (hlength : fields.length = values.length)
    (h : ∀ pair ∈ fields.zip values, ∀ content, pair.1.content? pair.2 = some content →
      (codecOf pair.1.shape).Agrees content) :
    (Codec.record (fields.map (FieldLayout.codec codecOf))).Agrees values := by
  intro buffer cursor
  exact Reading.Alike.after (.refl _) fun set stop _ =>
    Agrees.fields codecOf set hlength h buffer stop

end Codec.Agrees

/-- A lowered record reads as the record of its fields does, if that can be read over its initial
values. -/
theorem RecordCodec.alike_read {codec : Codec (List Value)} {fields : List FieldCodec}
    (h : RecordCodec codec fields)
    (hinitial : (Codec.record fields).Agrees (fields.map FieldCodec.initial))
    (buffer : Buffer) (cursor : Nat) :
    Reading.Alike (codec.read buffer cursor) ((Codec.record fields).read buffer cursor) := by
  rcases h.read with hread | hread
  · rw [hread]
    exact .refl _
  · rw [hread]
    exact hinitial buffer cursor

theorem RecordCodec.agrees {codec : Codec (List Value)} {fields : List FieldCodec}
    (h : RecordCodec codec fields)
    (hinitial : (Codec.record fields).Agrees (fields.map FieldCodec.initial))
    {values : List Value} (hvalues : (Codec.record fields).Agrees values) :
    codec.Agrees values := by
  intro buffer cursor
  rw [h.overwrite]
  exact (hvalues buffer cursor).trans (h.alike_read hinitial buffer cursor).symm

/-! ## 5. Targets -/

namespace Catalogue

/-- A value can be read over as a value of a shape: where its parts are of the case that the shape
asks for, arrays have the length of their type, and records as many fields as their layout. -/
inductive IsTarget (catalogue : Catalogue) : Shape → Value → Prop where
  | leaf {l : Leaf} {value : Value} : IsTarget catalogue (.leaf l) value
  | option {inner : Shape} {value : Value} : IsTarget catalogue (.option inner) value
  | boxed {inner : Shape} {value : Value} (h : IsTarget catalogue inner value) :
    IsTarget catalogue (.boxed inner) value
  | shared {inner : Shape} {value : Value} (h : IsTarget catalogue inner value) :
    IsTarget catalogue (.shared inner) value
  | sequence {kind : SequenceKind} {element : Shape} {value : Value}
    (h : ∀ items, value = .list items → ∀ item ∈ items, IsTarget catalogue element item) :
    IsTarget catalogue (.sequence kind element) value
  | array {length : Nat} {element : Shape} {value : Value}
    (hlength : ∀ items, value = .list items → items.length = length)
    (h : ∀ items, value = .list items → ∀ item ∈ items, IsTarget catalogue element item) :
    IsTarget catalogue (.array length element) value
  | mapping {kind : MapKind} {key value : Shape} {target : Value} :
    IsTarget catalogue (.mapping kind key value) target
  | named {name : String} {value : Value}
    (hlength : ∀ fields values, catalogue.layout? name = some fields → value = .record values →
      fields.length = values.length)
    (h : ∀ fields values, catalogue.layout? name = some fields → value = .record values →
      ∀ pair ∈ fields.zip values, ∀ content, pair.1.content? pair.2 = some content →
        IsTarget catalogue pair.1.shape content) : IsTarget catalogue (.named name) value

variable {catalogue : Catalogue}

/-- Every value of a shape can be read over. -/
theorem HasShape.isTarget {shape : Shape} {value : Value} (h : catalogue.HasShape shape value) :
    catalogue.IsTarget shape value := by
  induction h with
  | leaf h => exact .leaf
  | null => exact .option
  | present h ih => exact .option
  | boxed h ih => exact .boxed ih
  | shared h ih => exact .shared ih
  | sequence h ih =>
    refine .sequence fun items heq => ?_
    cases heq
    exact ih
  | array hlength h ih =>
    refine .array (fun items heq => ?_) fun items heq => ?_
    · cases heq
      exact hlength
    · cases heq
      exact ih
  | mapping hkey hvalue ihkey ihvalue => exact .mapping
  | variant hname h => exact .named (fun _ _ _ heq => nomatch heq) fun _ _ _ heq => nomatch heq
  | record hname hlength htakes h ih =>
    refine .named (fun fields values hfields heq => ?_) fun fields values hfields heq => ?_
    · cases heq
      cases hname.symm.trans hfields
      exact hlength
    · cases heq
      cases hname.symm.trans hfields
      exact ih

/-- If the initial values of the names can be read over, those of all shapes can. -/
theorem isTarget_initial_of_named {named : String → Value}
    (h : ∀ name, catalogue.IsTarget (.named name) (named name)) (shape : Shape) :
    catalogue.IsTarget shape (shape.initial named) := by
  induction shape with
  | leaf l => exact .leaf
  | option inner _ => exact .option
  | boxed inner ih => exact .boxed ih
  | shared inner ih => exact .shared ih
  | mapping kind key value _ _ => exact .mapping
  | named name => exact h name
  | sequence kind element _ =>
    refine .sequence fun items heq item hitem => ?_
    cases heq
    cases hitem
  | array length element ih =>
    refine .array (fun items heq => ?_) fun items heq item hitem => ?_
    · cases heq
      exact List.length_replicate
    · cases heq
      rw [List.eq_of_mem_replicate hitem]
      exact ih

/-- **The initial value of a shape can be read over**, however deep the names in it are. -/
theorem isTarget_initial (depth : Nat) (shape : Shape) :
    catalogue.IsTarget shape (shape.initial (catalogue.initialAt depth)) := by
  refine isTarget_initial_of_named (fun name => ?_) shape
  induction depth generalizing name with
  | zero => exact .named (fun _ _ _ heq => nomatch heq) fun _ _ _ heq => nomatch heq
  | succ depth ih =>
    have hinitial : ∀ fields values, catalogue.layout? name = some fields →
        catalogue.initialAt (depth + 1) name = .record values → fields.length = values.length ∧
          ∀ pair ∈ fields.zip values, ∀ content, pair.1.content? pair.2 = some content →
            catalogue.IsTarget pair.1.shape content := by
      intro fields values hfields heq
      obtain ⟨definition, hdefinition, hlayout⟩ := exists_of_layout? hfields
      rw [initialAt, hdefinition] at heq
      obtain ⟨initials, hrecord, hlength, hcontent, -⟩ :=
        Definition.initial_layout hlayout (catalogue.initialAt depth)
      cases hrecord.symm.trans heq
      refine ⟨hlength, fun pair hpair content h => ?_⟩
      rw [hcontent pair hpair content h]
      exact isTarget_initial_of_named ih _
    exact .named (fun fields values hfields heq => (hinitial fields values hfields heq).1)
      fun fields values hfields heq => (hinitial fields values hfields heq).2

/-- In a list beside its image each item stands beside its own image. -/
theorem mem_zip_map {f : α → β} {items : List α} {pair : α × β}
    (h : pair ∈ items.zip (items.map f)) : pair.1 ∈ items ∧ pair.2 = f pair.1 := by
  induction items with
  | nil => simp at h
  | cons item rest ih =>
    rw [List.map_cons, List.zip_cons_cons] at h
    rcases List.mem_cons.mp h with rfl | hrest
    · exact ⟨List.mem_cons_self, rfl⟩
    · exact ⟨List.mem_cons_of_mem _ (ih hrest).1, (ih hrest).2⟩

end Catalogue

/-! ## 6. Catalogues -/

namespace Catalogue

open Samples (chain chain_planned linkValue linkValue_hasShape)

section

variable [DecimalForm] {catalogue : Catalogue} (sharing : Sharing Value)

/-- A leaf is read over by reading it afresh. -/
theorem agrees_leaf (kind : LeafKind) (value : Value) : kind.codec.Agrees value := by
  cases kind <;> exact Codec.Agrees.lift fun inner _ => .of_freshly rfl inner

section

variable {named : String → Codec Value}

/-- If the names agree, all shapes do. -/
theorem agrees_of_named
    (hnamed : ∀ name value, catalogue.IsTarget (.named name) value → (named name).Agrees value)
    {shape : Shape} {value : Value} (h : catalogue.IsTarget shape value) :
    (shape.codec sharing named).Agrees value := by
  induction h with
  | @leaf l value =>
    show l.codec.Agrees value
    rw [l.codec_kind]
    exact agrees_leaf l.kind value
  | option => exact Codec.Agrees.lift fun inner _ => .of_freshly rfl inner
  | boxed h ih => exact ih
  | shared h ih => exact ih.shared sharing
  | sequence h ih =>
    exact Codec.Agrees.lift fun items hget =>
      .sequence _ (ih items (Value.listCase.wrap_of_get? hget).symm)
  | array hlength h ih =>
    exact Codec.Agrees.lift fun items hget =>
      .array (hlength items (Value.listCase.wrap_of_get? hget).symm)
        (ih items (Value.listCase.wrap_of_get? hget).symm)
  | mapping => exact Codec.Agrees.lift fun entries _ => .mapping _ _ _ entries
  | named hlength h ih => exact hnamed _ _ (.named hlength h)

/-- If the names agree, a lowered structure can be read over its initial values. -/
theorem agrees_initial_of_named
    (hnamed : ∀ name value, catalogue.IsTarget (.named name) value → (named name).Agrees value)
    {definition : Definition} {fields : List FieldLayout}
    (hlayout : definition.layout? catalogue.initial = some fields) :
    (Codec.record (Definition.fieldCodecs sharing named fields)).Agrees
      ((Definition.fieldCodecs sharing named fields).map FieldCodec.initial) := by
  obtain ⟨initials, -, hlength, hcontent, hinitials⟩ :=
    Definition.initial_layout hlayout catalogue.initial
  have hinitial : (Definition.fieldCodecs sharing named fields).map FieldCodec.initial =
      initials := by
    rw [← hinitials rfl]
    unfold Definition.fieldCodecs
    rw [List.map_map]
    rfl
  rw [hinitial]
  refine Codec.Agrees.record _ hlength fun pair hpair content h => ?_
  rw [hcontent pair hpair content h]
  exact agrees_of_named sharing hnamed (isTarget_initial catalogue.entries.length _)

/-- **Behind every name that stands for a record is a record codec**, which reads as the record of
its fields does.  What the names in it stand for is left open. -/
theorem Planned.record_of_named (hplanned : catalogue.Planned)
    (hnamed : ∀ name value, catalogue.IsTarget (.named name) value → (named name).Agrees value)
    {name : String} {definition : Definition} (hname : catalogue.get? name = some definition)
    {fields : List FieldLayout} (hlayout : definition.layout? catalogue.initial = some fields) :
    ∃ inner, definition.codec sharing catalogue.initial named = inner.lift Value.recordCase ∧
      RecordCodec inner (Definition.fieldCodecs sharing named fields) ∧
      ∀ buffer cursor, Reading.Alike
        ((Codec.record (Definition.fieldCodecs sharing named fields)).read buffer cursor)
        (inner.read buffer cursor) := by
  obtain ⟨inner, hinner, hrecord⟩ := definition.codec_layout sharing catalogue.initial named
    (hplanned name definition hname) hlayout
  have hinitial := agrees_initial_of_named sharing hnamed hlayout
  exact ⟨inner, hinner, hrecord, fun buffer cursor =>
    (hrecord.alike_read hinitial buffer cursor).symm⟩

/-- If the names agree, so does what a name stands for. -/
theorem Planned.agrees_definition (hplanned : catalogue.Planned)
    (hnamed : ∀ name value, catalogue.IsTarget (.named name) value → (named name).Agrees value)
    {name : String} {definition : Definition} (hname : catalogue.get? name = some definition)
    {value : Value} (hvalue : catalogue.IsTarget (.named name) value) :
    (definition.codec sharing catalogue.initial named).Agrees value := by
  rcases definition.enumeration_or_layout catalogue.initial with ⟨e, rfl⟩ | ⟨fields, hlayout⟩
  · exact Codec.Agrees.lift fun inner _ => .of_freshly rfl inner
  · have hfields := (layout?_of_get? hname).trans hlayout
    obtain ⟨inner, hinner, hrecord, -⟩ :=
      hplanned.record_of_named sharing hnamed hname hlayout
    rw [hinner]
    refine .lift fun values hget => hrecord.agrees ?_ ?_
    · exact agrees_initial_of_named sharing hnamed hlayout
    · cases hvalue with
      | named hlength h =>
        have hrecordValue := (Value.recordCase.wrap_of_get? hget).symm
        exact .record _ (hlength fields values hfields hrecordValue)
          fun pair hpair content hcontent => agrees_of_named sharing hnamed
            (h fields values hfields hrecordValue pair hpair content hcontent)

end

/-- Names can be read over, however many nestings there are. -/
theorem Planned.agrees_name (hplanned : catalogue.Planned) (nestings : Nat) (name : String)
    (value : Value) (h : catalogue.IsTarget (.named name) value) :
    (catalogue.codec sharing nestings name).Agrees value := by
  induction nestings generalizing name value with
  | zero => exact .of_freshly rfl _
  | succ nestings ih =>
    cases hname : catalogue.get? name with
    | none =>
      rw [Catalogue.codec, hname]
      exact Codec.Agrees.of_freshly rfl _
    | some definition =>
      rw [codec_succ sharing nestings hname]
      exact hplanned.agrees_definition sharing ih hname h

/-- **Reading over any target of a shape is reading afresh**, however many nestings there are. -/
theorem Planned.agrees (hplanned : catalogue.Planned) (nestings : Nat) {shape : Shape}
    {value : Value} (h : catalogue.IsTarget shape value) :
    (catalogue.within sharing nestings shape).Agrees value :=
  agrees_of_named sharing (hplanned.agrees_name sharing nestings) h

/-- A name that may be entered once more stands for a record codec. -/
theorem Planned.codec_record (hplanned : catalogue.Planned) (nestings : Nat) {name : String}
    {definition : Definition} (hname : catalogue.get? name = some definition)
    {fields : List FieldLayout} (hlayout : definition.layout? catalogue.initial = some fields) :
    ∃ inner, definition.codec sharing catalogue.initial (catalogue.codec sharing nestings) =
        inner.lift Value.recordCase ∧
      RecordCodec inner (fields.map (FieldLayout.codec (catalogue.within sharing nestings))) ∧
      ∀ buffer cursor, Reading.Alike
        ((Codec.record (fields.map (FieldLayout.codec (catalogue.within sharing nestings)))).read
          buffer cursor) (inner.read buffer cursor) :=
  hplanned.record_of_named sharing (hplanned.agrees_name sharing nestings) hname hlayout

/-- **Reading over a value is reading afresh.**  Whatever value of the shape the target holds, and
whichever shared values in it have a second owner, the read over it ends as the fresh read does: at
the same place, with the same value or with the same failure, up to the name under which an
unexpected null is reported.  The same holds of a slot into which a value that is known to be
present is read, whether the slot was empty or not. -/
theorem overwrite_alike_read (hplanned : catalogue.Planned) (shape : Shape) (buffer : Buffer)
    (cursor : Nat) :
    (∀ target, catalogue.HasShape shape target →
      Reading.Alike ((catalogue.codecOf sharing shape).overwrite target buffer cursor).toResult
        ((catalogue.codecOf sharing shape).read buffer cursor)) ∧
      ∀ slot : Option Value, (∀ target, slot = some target → catalogue.HasShape shape target) →
        Reading.Alike
          ((catalogue.codecOf sharing shape).overwritePresent slot buffer cursor).toResult
          ((do
            let value ← (catalogue.codecOf sharing shape).read
            pure (some value) : Reader (Option Value)) buffer cursor) := by
  have hagrees : ∀ target, catalogue.HasShape shape target →
      Reading.Alike ((catalogue.codecOf sharing shape).overwrite target buffer cursor).toResult
        ((catalogue.codecOf sharing shape).read buffer cursor) :=
    fun target h =>
      hplanned.agrees sharing (catalogue.nestingsOf buffer) h.isTarget buffer cursor
  refine ⟨hagrees, fun slot hslot => ?_⟩
  cases slot with
  | none =>
    unfold Codec.overwritePresent
    rw [toResult_freshly]
    exact .refl _
  | some target => exact (hagrees target (hslot target rfl)).map some

end

/-- The bytes of a single link, read over a chain of two. -/
theorem overwrite_alike_read_link :
    (chain.Planned ∧ chain.HasShape (.named "Link") linkValue) ∧
      Reading.Alike ((chain.codecOf Sharing.none (.named "Link")).overwrite linkValue
          [1, 9, 0, 0, 0] 0).toResult
        ((chain.codecOf Sharing.none (.named "Link")).read [1, 9, 0, 0, 0] 0) ∧
      (chain.codecOf Sharing.none (.named "Link")).read [1, 9, 0, 0, 0] 0 =
        .ok (.record [.int 9, .null, .list []]) 5 :=
  ⟨⟨chain_planned, linkValue_hasShape⟩,
    (overwrite_alike_read Sharing.none chain_planned (.named "Link") [1, 9, 0, 0, 0] 0).1 linkValue
      linkValue_hasShape, rfl⟩

end Catalogue

end Wireform
