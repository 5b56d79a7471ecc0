import Wireform.Proofs.InPlace

/-!
# Reading over a target leaves a target

A read over a value may fail half way, and what it leaves is then neither the old value nor a new
one.  It can be read over all the same: what a codec of a catalogue makes of a target is a target,
after a success and after a failure (`Planned.keeps`).  So a value may be read over again and again,
whatever came of it before.

`Overwriter.Keeps` has a lemma for each way of building codecs, and names are entered by induction
on the nestings.  Values that are read afresh need no such lemmas: they are what a read over the
initial value leaves (`Codec.gives_of_keeps`), since reading over a target is reading afresh.
-/
namespace Wireform

variable {α β : Type}

/-- Whatever is read is good. -/
def Reader.Gives (good : α → Prop) (reader : Reader α) : Prop :=
  ∀ buffer cursor value stop, reader buffer cursor = .ok value stop → good value

/-- What is good is good after a read over it, whether that succeeds or fails. -/
def Overwriter.Keeps (good : α → Prop) (overwrite : Overwriter α) : Prop :=
  ∀ target, good target → ∀ buffer cursor, good (overwrite target buffer cursor).target

/-- What is on the wire of a field is good for its shape. -/
def FieldLayout.Has (good : Shape → Value → Prop) (field : FieldLayout) (value : Value) : Prop :=
  ∀ content ∈ field.content? value, good field.shape content

/-! ## 1. Parts of a read -/

section

variable {good : α → Prop}

theorem Reader.Gives.map {reader : Reader α} (f : α → β) (good : β → Prop)
    (h : reader.Gives fun value => good (f value)) :
    Reader.Gives good (do let value ← reader; pure (f value)) := by
  intro buffer cursor result stop hread
  obtain ⟨value, middle, hvalue, hresult⟩ := Reader.bind_eq_ok hread
  cases hresult
  exact h buffer cursor value _ hvalue

/-- A failure of the first reader leaves the target. -/
theorem good_after (good : α → Prop) {first : Reader β} {target : α} {buffer : Buffer} {cursor : Nat}
    {next : β → Nat → Overwritten α} (htarget : good target)
    (hnext : ∀ value stop, first buffer cursor = .ok value stop → good (next value stop).target) :
    good (Overwritten.after first target buffer cursor next).target := by
  unfold Overwritten.after
  cases hfirst : first buffer cursor with
  | ok value stop => exact hnext value stop hfirst
  | error failure stop => exact htarget

theorem keeps_freshly {reader : Reader α} (h : reader.Gives good) : (freshly reader).Keeps good :=
  fun _ htarget buffer cursor =>
    good_after good htarget fun value stop hread => h buffer cursor value stop hread

/-- What has been put into a sink is good, also when an item fails. -/
theorem good_fillEach {σ : Type} {goodSink : σ → Prop} {put : α → σ → σ}
    (hput : ∀ value sink, good value → goodSink sink → goodSink (put value sink)) {item : Reader α}
    (h : item.Gives good) (buffer : Buffer) (count : Nat) {sink : σ} (hsink : goodSink sink)
    (cursor : Nat) : goodSink (fillEach put item buffer count sink cursor).target := by
  induction count generalizing sink cursor with
  | zero => exact hsink
  | succ count ih =>
    rw [fillEach]
    cases hread : item buffer cursor with
    | ok value stop => exact ih (hput value sink (h buffer cursor value stop hread) hsink) stop
    | error failure stop => exact hsink

theorem good_appendItems {reader : Reader α} (h : reader.Gives good) (count : Nat) {items : List α}
    (hitems : ∀ item ∈ items, good item) (buffer : Buffer) (cursor : Nat) :
    ∀ item ∈ (appendItems reader count items buffer cursor).target, good item := by
  have hadd : ∀ value (items : List α), good value → (∀ item ∈ items, good item) →
      ∀ item ∈ items ++ [value], good item := by
    intro value items hvalue hitems
    exact List.forall_mem_append.mpr ⟨hitems, List.forall_mem_singleton.mpr hvalue⟩
  rw [appendItems_eq_fillEach]
  exact good_fillEach hadd h buffer count hitems cursor

/-- What was left of a read over a target is gone on from, or is what the failure left. -/
theorem good_andThen (good : α → Prop) {result : Overwritten α} {next : α → Nat → Overwritten α}
    (h : good result.target)
    (hnext : ∀ target cursor, good target → good (next target cursor).target) :
    good (result.andThen next).target := by
  unfold Overwritten.andThen
  split
  · exact hnext _ _ h
  · exact h

theorem Reader.Gives.items {reader : Reader α} (h : reader.Gives good) (count : Nat) :
    (readItems reader count).Gives fun items => ∀ item ∈ items, good item := by
  intro buffer cursor items stop hread
  have hitems := good_appendItems h count (List.forall_mem_nil good) buffer cursor
  unfold readItems Overwritten.toResult at hread
  split at hread
  · cases hread
    exact hitems
  · cases hread

end

/-- What is read afresh is what is read over any good target. -/
theorem Codec.gives_of_keeps {codec : Codec α} {good : α → Prop} (h : codec.overwrite.Keeps good)
    {target : α} (htarget : good target) (hagrees : codec.Agrees target) :
    codec.read.Gives good := by
  intro buffer cursor value stop hread
  have halike := hagrees buffer cursor
  have hkept := h target htarget buffer cursor
  rw [hread] at halike
  unfold Overwritten.toResult at halike
  cases houtcome : (codec.overwrite target buffer cursor).outcome with
  | ok _ =>
    rw [houtcome] at halike
    exact halike.1 ▸ hkept
  | error failure =>
    rw [houtcome] at halike
    exact halike.elim

namespace Overwriter.Keeps

/-! ## 2. Codecs -/

theorem lift {overwrite : Overwriter α} {read : Reader α} {case : Case α β} {good : β → Prop}
    (h : overwrite.Keeps fun inner => good (case.wrap inner))
    (hread : read.Gives fun inner => good (case.wrap inner)) :
    (overwrite.lift case read).Keeps good := by
  intro target htarget buffer cursor
  unfold Overwriter.lift
  cases hget : case.get? target with
  | none => exact keeps_freshly (hread.map case.wrap good) target htarget buffer cursor
  | some inner =>
    rw [← case.wrap_of_get? hget] at htarget
    exact h inner htarget buffer cursor

variable {good : α → Prop}

theorem forall_mem_some_iff {value : α} : (∀ other ∈ some value, good other) ↔ good value := by
  simp

/-- A slot into which a value is read that is known to be present. -/
theorem present {codec : Codec α} (h : codec.overwrite.Keeps good) (hread : codec.read.Gives good) :
    codec.overwritePresent.Keeps fun slot => ∀ value ∈ slot, good value := by
  intro slot hslot buffer cursor
  cases slot with
  | none =>
    have hgives : codec.read.Gives fun inner => ∀ value ∈ some inner, good value :=
      fun buffer cursor inner stop hinner =>
        forall_mem_some_iff.mpr (hread buffer cursor inner stop hinner)
    exact keeps_freshly (hgives.map some fun slot => ∀ value ∈ slot, good value) none hslot buffer
      cursor
  | some value =>
    exact forall_mem_some_iff.mpr (h value (forall_mem_some_iff.mp hslot) buffer cursor)

theorem shared {codec : Codec α} (h : codec.overwrite.Keeps good) (hread : codec.read.Gives good)
    (sharing : Sharing α) : (Codec.shared sharing codec).overwrite.Keeps good := by
  intro target htarget buffer cursor
  show good (SharedBox.overwrite codec (.ofOwners (sharing target cursor) target) buffer
    cursor).target.value
  unfold SharedBox.ofOwners
  cases sharing target cursor with
  | true =>
    show good (Overwritten.after codec.read (SharedBox.joint target) buffer cursor
      fun fresh stop => ⟨.apart fresh target, stop, .ok ()⟩).target.value
    unfold Overwritten.after
    cases hread' : codec.read buffer cursor with
    | ok fresh stop => exact hread buffer cursor fresh stop hread'
    | error failure stop => exact htarget
  | false => exact h target htarget buffer cursor

section

variable {element : Codec α}

/-- The items up to the one that fails are read over, and the others are left. -/
theorem items (h : element.overwrite.Keeps good) {items : List α} (hitems : ∀ item ∈ items, good item)
    (buffer : Buffer) (cursor : Nat) :
    ∀ item ∈ (overwriteItems element.overwrite items buffer cursor).target, good item := by
  induction items generalizing cursor with
  | nil => exact hitems
  | cons item rest ih =>
    obtain ⟨hitem, hrest⟩ := List.forall_mem_cons.mp hitems
    have hhead := h item hitem buffer cursor
    unfold overwriteItems
    dsimp only
    split
    · exact List.forall_mem_cons.mpr ⟨hhead, ih hrest _⟩
    · exact List.forall_mem_cons.mpr ⟨hhead, hrest⟩

theorem sequence (kind : SequenceKind) (h : element.overwrite.Keeps good)
    (hread : element.read.Gives good) :
    (Codec.sequence kind element).overwrite.Keeps fun items => ∀ item ∈ items, good item := by
  intro target htarget buffer cursor
  refine good_after (fun items => ∀ item ∈ items, good item) htarget fun count stop _ => ?_
  cases kind with
  | list =>
    have htake : ∀ item ∈ target.take count, good item :=
      fun item hitem => htarget item (List.mem_of_mem_take hitem)
    refine good_andThen (fun items => ∀ item ∈ items, good item) (h.items htake buffer stop)
      fun items middle hitems => ?_
    unfold appendMissing
    split
    · exact good_appendItems hread _ hitems buffer middle
    · exact hitems
  | deque => exact good_appendItems hread count (List.forall_mem_nil good) buffer stop
  | slice =>
    dsimp only
    split
    · exact keeps_freshly (hread.items count) target htarget buffer stop
    · exact h.items htarget buffer stop

theorem array (length : Nat) (h : element.overwrite.Keeps good) :
    (Codec.array length element).overwrite.Keeps fun items =>
      items.length = length ∧ ∀ item ∈ items, good item := by
  rintro target ⟨hlength, htarget⟩ buffer cursor
  refine good_after (fun items => items.length = length ∧ ∀ item ∈ items, good item)
    ⟨hlength, htarget⟩ fun count stop _ => ?_
  split
  · exact ⟨hlength, htarget⟩
  · exact ⟨(length_overwriteItems _ _ _ _).trans hlength, h.items htarget buffer stop⟩

end

/-! ## 3. Records -/

section

variable {codecOf : Shape → Codec Value} {good : Shape → Value → Prop}
  (h : ∀ shape, (codecOf shape).overwrite.Keeps (good shape))
  (hread : ∀ shape, (codecOf shape).read.Gives (good shape))

include h hread

theorem field {bytes : Nat} (set : NullBitset bytes) (field : FieldLayout) :
    ((field.codec codecOf).overwrite set).Keeps (field.Has good) := by
  intro value hvalue buffer cursor
  obtain ⟨presence, shape, initial⟩ := field
  cases presence with
  | always =>
    intro content hcontent
    cases hcontent
    exact h shape value (hvalue value rfl) buffer cursor
  | skipped => exact nofun
  | nullable slot =>
    have hslot : ∀ inner, FieldLayout.Has good ⟨.nullable slot, shape, initial⟩
        (Value.optionCase.wrap inner) ↔ ∀ value ∈ inner, good shape value := by
      intro inner
      cases inner <;> exact Iff.rfl
    have hkeeps : ((codecOf shape).overwritePresent.lift Value.optionCase
        (do let inner ← (codecOf shape).read; pure (some inner))).Keeps
          (FieldLayout.Has good ⟨.nullable slot, shape, initial⟩) := by
      refine lift ?_ (.map some _ ?_)
      · simp only [hslot]
        exact present (h shape) (hread shape)
      · simp only [hslot, forall_mem_some_iff]
        exact hread shape
    refine good_after _ hvalue fun isNull stop _ => ?_
    cases isNull with
    | true => exact nofun
    | false => exact hkeeps value hvalue buffer stop

/-- The fields up to the one that fails are read over, and the others are left. -/
theorem fields {bytes : Nat} (set : NullBitset bytes) {fields : List FieldLayout} {values : List Value}
    (hvalues : List.Forall₂ (FieldLayout.Has good) fields values) (buffer : Buffer) (cursor : Nat) :
    List.Forall₂ (FieldLayout.Has good) fields
      (overwriteFields set (fields.map (FieldLayout.codec codecOf)) values buffer cursor).target := by
  induction hvalues generalizing cursor with
  | nil => exact .nil
  | @cons head value rest values hvalue hvalues ih =>
    have hhead := field h hread set head value hvalue buffer cursor
    unfold overwriteFields List.map
    dsimp only
    split
    · exact .cons hhead (ih _)
    · exact .cons hhead hvalues

theorem record (fields : List FieldLayout) :
    (Codec.record (fields.map (FieldLayout.codec codecOf))).overwrite.Keeps
      (List.Forall₂ (FieldLayout.Has good) fields) := by
  intro values hvalues buffer cursor
  exact good_after _ hvalues fun set stop _ => Keeps.fields h hread set hvalues buffer stop

end

end Overwriter.Keeps

/-! ## 4. Catalogues -/

namespace Catalogue

variable {catalogue : Catalogue}

theorem isTarget_sequence_iff {kind : SequenceKind} {element : Shape} {items : List Value} :
    catalogue.IsTarget (.sequence kind element) (.list items) ↔
      ∀ item ∈ items, catalogue.IsTarget element item := by
  constructor
  · rintro ⟨⟩
    next h => exact h items rfl
  · intro h
    refine .sequence fun items heq => ?_
    cases heq
    exact h

theorem isTarget_array_iff {length : Nat} {element : Shape} {items : List Value} :
    catalogue.IsTarget (.array length element) (.list items) ↔
      items.length = length ∧ ∀ item ∈ items, catalogue.IsTarget element item := by
  constructor
  · rintro ⟨⟩
    next hlength h => exact ⟨hlength items rfl, h items rfl⟩
  · rintro ⟨hlength, h⟩
    refine .array (fun items heq => ?_) fun items heq => ?_
    · cases heq
      exact hlength
    · cases heq
      exact h

theorem isTarget_record_iff {name : String} {fields : List FieldLayout} {values : List Value}
    (hname : catalogue.layout? name = some fields) :
    catalogue.IsTarget (.named name) (.record values) ↔
      List.Forall₂ (FieldLayout.Has catalogue.IsTarget) fields values := by
  rw [List.forall₂_iff_zip]
  constructor
  · rintro ⟨⟩
    next hlength h =>
      exact ⟨hlength fields values hname rfl, fun hpair => h fields values hname rfl _ hpair⟩
  · rintro ⟨hlength, h⟩
    refine .named (fun fields' values' hname' heq => ?_) fun fields' values' hname' heq => ?_
    · cases heq
      cases hname.symm.trans hname'
      exact hlength
    · cases heq
      cases hname.symm.trans hname'
      exact fun pair hpair => h hpair

variable [DecimalForm] (sharing : Sharing Value)

/-- What a shape reads afresh is a target if reads over targets leave targets. -/
theorem Planned.gives (hplanned : catalogue.Planned) {nestings : Nat} {shape : Shape}
    (h : (catalogue.within sharing nestings shape).overwrite.Keeps (catalogue.IsTarget shape)) :
    (catalogue.within sharing nestings shape).read.Gives (catalogue.IsTarget shape) :=
  have hinitial := isTarget_initial catalogue.entries.length shape
  Codec.gives_of_keeps h hinitial (hplanned.agrees sharing nestings hinitial)

/-- If names leave targets, all shapes do. -/
theorem Planned.keeps_of_named (hplanned : catalogue.Planned) {nestings : Nat}
    (hnamed : ∀ name, (catalogue.codec sharing nestings name).overwrite.Keeps
      (catalogue.IsTarget (.named name))) (shape : Shape) :
    (catalogue.within sharing nestings shape).overwrite.Keeps (catalogue.IsTarget shape) := by
  induction shape with
  | leaf l => exact fun _ _ _ _ => .leaf
  | option inner _ => exact fun _ _ _ _ => .option
  | mapping kind key value _ _ => exact fun _ _ _ _ => .mapping
  | named name => exact hnamed name
  | boxed inner ih =>
    rintro target ⟨⟩ buffer cursor
    next h => exact .boxed (ih target h buffer cursor)
  | shared inner ih =>
    rintro target ⟨⟩ buffer cursor
    next h => exact .shared (ih.shared (hplanned.gives sharing ih) sharing target h buffer cursor)
  | sequence kind element ih =>
    have hkeeps := ih.sequence kind (hplanned.gives sharing ih)
    refine .lift ?_ ?_ <;> simp only [Value.listCase, isTarget_sequence_iff]
    · exact hkeeps
    · exact Codec.gives_of_keeps hkeeps (List.forall_mem_nil _)
        (.sequence kind (List.forall_mem_nil _))
  | array length element ih =>
    have hkeeps := ih.array length
    have hinitial := isTarget_array_iff.mp ((isTarget_initial catalogue.entries.length
      (.array length element) : catalogue.IsTarget _ _))
    refine .lift ?_ ?_ <;> simp only [Value.listCase, isTarget_array_iff]
    · exact hkeeps
    · exact Codec.gives_of_keeps hkeeps hinitial (.array hinitial.1 fun item hitem =>
        hplanned.agrees sharing nestings (hinitial.2 item hitem))

/-- If names leave targets, so does a name that stands for a record of them. -/
theorem Planned.keeps_record (hplanned : catalogue.Planned) {nestings : Nat}
    (hnamed : ∀ name, (catalogue.codec sharing nestings name).overwrite.Keeps
      (catalogue.IsTarget (.named name))) {name : String} {definition : Definition}
    (hname : catalogue.get? name = some definition) {fields : List FieldLayout}
    (hlayout : definition.layout? catalogue.initial = some fields) :
    (definition.codec sharing catalogue.initial (catalogue.codec sharing nestings)).overwrite.Keeps
      (catalogue.IsTarget (.named name)) := by
  have hfields := (layout?_of_get? hname).trans hlayout
  have hshape := hplanned.keeps_of_named sharing hnamed
  have hkeeps := Overwriter.Keeps.record hshape (fun shape => hplanned.gives sharing (hshape shape))
    fields
  obtain ⟨inner, hinner, hrecord, halike⟩ := hplanned.codec_record sharing nestings hname hlayout
  obtain ⟨values, -, hlength, hcontent, -⟩ :=
    Definition.initial_layout hlayout catalogue.initial
  have htarget : ∀ pair ∈ fields.zip values, ∀ content, pair.1.content? pair.2 = some content →
      catalogue.IsTarget pair.1.shape content := by
    intro pair hpair content h
    rw [hcontent pair hpair content h]
    exact isTarget_initial catalogue.entries.length _
  have hinitial : List.Forall₂ (FieldLayout.Has catalogue.IsTarget) fields values :=
    List.forall₂_iff_zip.mpr ⟨hlength, fun hpair => htarget _ hpair⟩
  have hgives := Codec.gives_of_keeps hkeeps hinitial (.record _ hlength fun pair hpair content h =>
    hplanned.agrees sharing nestings (htarget pair hpair content h))
  rw [hinner]
  refine .lift ?_ ?_ <;> simp only [Value.recordCase, isTarget_record_iff hfields]
  · rw [hrecord.overwrite]
    exact hkeeps
  · intro buffer cursor value stop hread
    have hback := (halike buffer cursor).symm
    rw [hread] at hback
    exact hgives buffer cursor value stop hback.eq_ok

/-- **Names leave targets**, however often they may be entered. -/
theorem Planned.keeps_name (hplanned : catalogue.Planned) (nestings : Nat) (name : String) :
    (catalogue.codec sharing nestings name).overwrite.Keeps (catalogue.IsTarget (.named name)) := by
  have hexhausted : ∀ name, (Codec.exhausted : Codec Value).overwrite.Keeps
      (catalogue.IsTarget (.named name)) :=
    fun name => keeps_freshly fun buffer cursor value stop hread => nomatch hread
  induction nestings generalizing name with
  | zero => exact hexhausted name
  | succ nestings ih =>
    cases hname : catalogue.get? name with
    | none =>
      rw [Catalogue.codec, hname]
      exact hexhausted name
    | some definition =>
      rw [codec_succ sharing nestings hname]
      rcases definition.enumeration_or_layout catalogue.initial with ⟨e, rfl⟩ | ⟨fields, hlayout⟩
      · -- a variant has no parts
        have hnone : catalogue.layout? name = none := layout?_of_get? hname
        refine fun target _ buffer cursor => .named (fun fields values hfields => ?_)
          fun fields values hfields => ?_
        · cases hnone.symm.trans hfields
        · cases hnone.symm.trans hfields
      · exact hplanned.keeps_record sharing ih hname hlayout

/-- **What a read over a target leaves is a target**, whether it succeeds or fails, however many
nestings there are. -/
theorem Planned.keeps (hplanned : catalogue.Planned) (nestings : Nat) (shape : Shape) :
    (catalogue.within sharing nestings shape).overwrite.Keeps (catalogue.IsTarget shape) :=
  hplanned.keeps_of_named sharing (hplanned.keeps_name sharing nestings) shape

end Catalogue

end Wireform
