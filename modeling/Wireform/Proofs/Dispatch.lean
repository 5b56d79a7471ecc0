import Wireform.Dispatch.Registry
import Wireform.Proofs.Analysis
import Wireform.Proofs.Balance
import Wireform.Proofs.Tags
import Wireform.Proofs.Undispatched

/-!
# Ways through a registry

A registry keeps the tags of its types twice: by type, in `tags`, and by tag, in `rows`.  Both stay
in step however it is built, with tags that are asked for, tags that are given out and types that are
registered again (`Registry.InStep`, preserved by every call): the rows are the entries, every type
has one tag, and no tag is that of null.  So the type of a row leads back to its tag
(`InStep.rowOf?_eq_some_iff`), and none of the branches for tables that disagree is ever taken.

From this all ways through a registry agree.  A value of a named type and one whose type is looked up
are written alike; what is read for a named type is what is read for any type, when the tag is that of
the type; and reading into a pooled instance ends as reading afresh does, because reading over a value
does.  That a dispatch error says something about the tag needs one thing more: the codecs themselves
never report one.
-/
namespace Wireform

open Schema (SchemaError TagEntry TagRegistry)

/-! ## 1. Building -/

namespace Registry

/-- Registers a type, under the tag that is asked for or under the lowest that is free. -/
def add (registry : Registry) (type : WireType) : Option Nat → Except SchemaError Registry
  | none => registry.register type
  | some tag => registry.registerWithTag type tag

/-- The registry that a sequence of registrations leaves; each names a type, and a tag or none. -/
def build (typeOf : String → WireType) (calls : List (String × Option Nat)) :
    Except SchemaError Registry :=
  calls.foldlM (fun registry call => registry.add (typeOf call.1) call.2) empty

/-- **The tables are in step.**  The rows are the entries, in the order of their tags, and the keys
are the names that were registered, each once; no tag is that of null. -/
structure InStep (typeOf : String → WireType) (names : List String) (registry : Registry) :
    Prop where
  rows : registry.rows = registry.tags.entries.map fun entry => ⟨entry.tag, typeOf entry.key⟩
  sorted : registry.tags.entries.Pairwise fun a b => a.tag < b.tag
  keys : (registry.tags.entries.map TagEntry.key).Nodup
  range : ∀ entry ∈ registry.tags.entries, entry.tag ≠ 0 ∧ entry.tag < 256
  registered : ∀ name, name ∈ registry.tags.entries.map TagEntry.key ↔ name ∈ names

theorem inStep_empty (typeOf : String → WireType) : InStep typeOf [] empty :=
  ⟨rfl, .nil, .nil, fun _ h => absurd h List.not_mem_nil, fun _ => Iff.rfl⟩

/-- A row with a tag that has one is not taken in. -/
theorem insertRow_of_mem {row other : RegistryRow} {rows : List RegistryRow}
    (hsorted : rows.Pairwise fun a b => a.tag < b.tag) (hother : other ∈ rows)
    (htag : other.tag = row.tag) : insertRow row rows = rows := by
  induction rows with
  | nil => cases hother
  | cons head rest ih =>
    rw [List.pairwise_cons] at hsorted
    rcases List.mem_cons.mp hother with rfl | hrest
    · rw [insertRow, if_neg (by omega), if_pos htag.symm]
    · have hless := hsorted.1 other hrest
      rw [insertRow, if_neg (by omega), if_neg (by omega), ih hsorted.2 hrest]

/-- A row with a new tag goes where the entry goes. -/
theorem insertRow_map (typeOf : String → WireType) (entry : TagEntry String)
    {entries : List (TagEntry String)} (hnew : ∀ other ∈ entries, other.tag ≠ entry.tag) :
    insertRow ⟨entry.tag, typeOf entry.key⟩
        (entries.map fun entry => ⟨entry.tag, typeOf entry.key⟩) =
      (TagRegistry.insertEntry entry entries).map fun entry => ⟨entry.tag, typeOf entry.key⟩ := by
  induction entries with
  | nil => rfl
  | cons other rest ih =>
    have hother := hnew other List.mem_cons_self
    rw [List.map_cons, insertRow, TagRegistry.insertEntry]
    dsimp only
    split
    · rfl
    · rw [if_neg hother.symm, ih fun third hthird => hnew third (List.mem_cons_of_mem _ hthird)]
      rfl

namespace InStep

variable {typeOf : String → WireType} {names : List String} {registry : Registry}

/-- The tags of tables in step are sound. -/
theorem sound (h : InStep typeOf names registry) : registry.tags.Sound :=
  ⟨h.sorted, h.keys, h.range⟩

/-- The row of a tag is that of its entry. -/
theorem exists_entry_of_rowOf? (h : InStep typeOf names registry) {tag : Nat} {row : RegistryRow} :
    registry.rowOf? tag = some row ↔
      ∃ entry ∈ registry.tags.entries, entry.tag = tag ∧ row = ⟨tag, typeOf entry.key⟩ := by
  unfold rowOf?
  rw [h.rows, List.find?_map, Option.map_eq_some_iff]
  constructor
  · rintro ⟨entry, hfound, rfl⟩
    have htag : entry.tag = tag := beq_iff_eq.mp (List.find?_some hfound :)
    exact ⟨entry, List.mem_of_find?_eq_some hfound, htag, by rw [htag]⟩
  · rintro ⟨entry, hentry, rfl, rfl⟩
    refine ⟨entry, find?_eq_some_of_unique hentry (beq_self_eq_true _) fun other hother htag => ?_,
      rfl⟩
    exact h.sound.entry_eq_of_tag hother hentry (beq_iff_eq.mp htag)

/-- **Rows and tags are inverse to each other.** -/
theorem rowOf?_eq_some_iff (h : InStep typeOf names registry) {tag : Nat} {row : RegistryRow} :
    registry.rowOf? tag = some row ↔
      ∃ name, registry.tags.tagOf? name = some tag ∧ row = ⟨tag, typeOf name⟩ := by
  rw [h.exists_entry_of_rowOf?]
  constructor
  · rintro ⟨entry, hentry, htag, rfl⟩
    exact ⟨entry.key, h.sound.tagOf?_eq_some_iff.mpr ⟨entry, hentry, rfl, htag⟩, rfl⟩
  · rintro ⟨name, htag, rfl⟩
    obtain ⟨entry, hentry, rfl, hentryTag⟩ := h.sound.tagOf?_eq_some_iff.mp htag
    exact ⟨entry, hentry, hentryTag, rfl⟩

/-- A name is registered if and only if it has a tag. -/
theorem mem_names_iff (h : InStep typeOf names registry) {name : String} :
    name ∈ names ↔ ∃ tag, registry.tags.tagOf? name = some tag := by
  rw [← h.registered, List.mem_map]
  constructor
  · rintro ⟨entry, hentry, hkey⟩
    exact ⟨entry.tag, h.sound.tagOf?_eq_some_iff.mpr ⟨entry, hentry, hkey, rfl⟩⟩
  · rintro ⟨tag, htag⟩
    obtain ⟨entry, hentry, hkey, -⟩ := h.sound.tagOf?_eq_some_iff.mp htag
    exact ⟨entry, hentry, hkey⟩

/-- **A registration keeps the tables in step.** -/
theorem grant (h : InStep typeOf names registry) {name : String} {tag : Nat}
    {tags : TagRegistry String} (hgrants : registry.tags.Grants name name tag tags) :
    InStep typeOf (names ++ [name]) ⟨tags, insertRow ⟨tag, typeOf name⟩ registry.rows⟩ := by
  have hsound := h.sound.grant hgrants
  cases hgrants with
  | kept htag =>
    -- the tag has its row already, and the name is known
    have hrow := h.rowOf?_eq_some_iff.mpr ⟨name, htag, rfl⟩
    have hrows : insertRow ⟨tag, typeOf name⟩ registry.rows = registry.rows := by
      refine insertRow_of_mem ?_ (List.mem_of_find?_eq_some hrow) rfl
      rw [h.rows]
      exact List.pairwise_map.mpr h.sorted
    refine ⟨hrows.trans h.rows, h.sorted, h.keys, h.range, fun other => ?_⟩
    rw [h.registered, List.mem_append, List.mem_singleton]
    exact ⟨.inl, fun hmem => hmem.elim id fun hname => hname ▸ h.mem_names_iff.mpr ⟨tag, htag⟩⟩
  | new hkey hfree hrange =>
    have hperm := TagRegistry.insertEntry_perm ⟨tag, name, name⟩ registry.tags.entries
    refine ⟨?_, hsound.sorted, hsound.keys, hsound.range, fun other => ?_⟩
    · rw [h.rows]
      exact insertRow_map typeOf ⟨tag, name, name⟩ (TagRegistry.entryOf?_eq_none_iff.mp hfree)
    · rw [(hperm.map TagEntry.key).mem_iff, List.map_cons, List.mem_cons, List.mem_append,
        List.mem_singleton, h.registered, or_comm]

/-- **Registrations one after the other keep the tables in step.** -/
theorem foldlM (h : InStep typeOf names registry) (htype : ∀ name, (typeOf name).name = name)
    {calls : List (String × Option Nat)} (hcalls : ∀ call ∈ calls, ∀ tag ∈ call.2, tag < 256)
    {last : Registry}
    (hlast : calls.foldlM (fun registry call => registry.add (typeOf call.1) call.2) registry =
      .ok last) : InStep typeOf (names ++ calls.map Prod.fst) last := by
  induction calls generalizing registry names with
  | nil =>
    cases hlast
    rwa [List.map_nil, List.append_nil]
  | cons call calls ih =>
    obtain ⟨name, asked⟩ := call
    rw [List.foldlM_cons] at hlast
    obtain ⟨next, hnext, hrest⟩ := Schema.bind_eq_ok hlast
    have hstep : InStep typeOf (names ++ [name]) next := by
      cases asked with
      | none =>
        obtain ⟨⟨tag, tags⟩, hgrant, hdone⟩ := Schema.bind_eq_ok hnext
        cases hdone
        rw [htype] at hgrant
        exact h.grant (TagRegistry.grants_of_register hgrant)
      | some asked =>
        obtain ⟨⟨tag, tags⟩, hgrant, hdone⟩ := Schema.bind_eq_ok hnext
        cases hdone
        rw [htype] at hgrant
        exact h.grant (TagRegistry.grants_of_registerWithTag
          (hcalls _ List.mem_cons_self asked rfl) hgrant)
    have hlater := ih hstep (fun call hmem => hcalls call (List.mem_cons_of_mem _ hmem)) hrest
    rwa [List.append_assoc, List.singleton_append] at hlater

end InStep

/-- What is built has its tables in step. -/
theorem inStep_of_build {typeOf : String → WireType} (htype : ∀ name, (typeOf name).name = name)
    {calls : List (String × Option Nat)} (hcalls : ∀ call ∈ calls, ∀ tag ∈ call.2, tag < 256)
    {registry : Registry} (h : build typeOf calls = .ok registry) :
    InStep typeOf (calls.map Prod.fst) registry :=
  (inStep_empty typeOf).foldlM htype hcalls h

/-! ## 2. Looking up -/

/-- The failure of a dispatch error. -/
abbrev dispatchFailure (error : DispatchError) : Failure := .wire (.dispatch error)

theorem tagOf_eq_ok_iff {registry : Registry} {name : String} {tag : Nat} :
    registry.tagOf name = .ok tag ↔ registry.tags.tagOf? name = some tag := by
  unfold tagOf tagOfAs
  cases registry.tags.tagOf? name with
  | none => exact ⟨fun h => (by cases h), fun h => (by cases h)⟩
  | some found => exact ⟨fun h => (by cases h; rfl), fun h => (by cases h; rfl)⟩

/-- Tags, types and rows say the same: the tag of a type is that of its row; null has no row; and
the types are listed once each, with their tags. -/
structure TagsAgree (typeOf : String → WireType) (names : List String) (registry : Registry) :
    Prop where
  tagOf_iff : ∀ name tag,
    registry.tagOf name = .ok tag ↔ registry.rowOf? tag = some ⟨tag, typeOf name⟩
  registered : ∀ name, name ∈ names ↔ ∃ tag, registry.tagOf name = .ok tag
  null : registry.rowOf? nullTag = none
  types_iff : ∀ tag name, (tag, name) ∈ registry.types ↔ registry.tagOf name = .ok tag
  once : (registry.types.map Prod.snd).Nodup

section

variable {typeOf : String → WireType} {names : List String} {registry : Registry}

theorem InStep.tagOf_iff_rowOf? (h : InStep typeOf names registry)
    (htype : ∀ name, (typeOf name).name = name) {name : String} {tag : Nat} :
    registry.tagOf name = .ok tag ↔ registry.rowOf? tag = some ⟨tag, typeOf name⟩ := by
  rw [tagOf_eq_ok_iff, h.rowOf?_eq_some_iff]
  constructor
  · exact fun htag => ⟨name, htag, rfl⟩
  · rintro ⟨other, htag, hrow⟩
    have htypes : typeOf name = typeOf other := congrArg RegistryRow.type hrow
    have hname : name = other := by rw [← htype name, htypes, htype]
    rwa [hname]

/-- **Tags agree.** -/
theorem InStep.tagsAgree (h : InStep typeOf names registry)
    (htype : ∀ name, (typeOf name).name = name) : registry.TagsAgree typeOf names := by
  have htypes : registry.types = registry.tags.entries.map fun entry => (entry.tag, entry.key) := by
    unfold types
    rw [h.rows, List.map_map]
    exact List.map_congr_left fun entry _ => congrArg (entry.tag, ·) (htype entry.key)
  refine ⟨fun _ _ => h.tagOf_iff_rowOf? htype, fun name => ?_, ?_, fun tag name => ?_, ?_⟩
  · simp only [tagOf_eq_ok_iff]
    exact h.mem_names_iff
  · cases hrow : registry.rowOf? nullTag with
    | none => rfl
    | some row =>
      obtain ⟨entry, hentry, htag, -⟩ := h.exists_entry_of_rowOf?.mp hrow
      exact absurd htag (h.range entry hentry).1
  · rw [htypes, List.mem_map, tagOf_eq_ok_iff, h.sound.tagOf?_eq_some_iff]
    constructor
    · rintro ⟨entry, hentry, heq⟩
      cases heq
      exact ⟨entry, hentry, rfl, rfl⟩
    · rintro ⟨entry, hentry, rfl, rfl⟩
      exact ⟨entry, hentry, rfl⟩
  · rw [htypes, List.map_map]
    exact h.keys

/-- A type without a row has no tag. -/
theorem tagOfAs_eq_error {name : String} (h : registry.tags.tagOf? name = none) (shown : String) :
    registry.tagOfAs name shown = .error (.unregisteredType shown) := by
  rw [tagOfAs, h]

/-- The type of a value leads to its row. -/
theorem InStep.rowFor_eq_ok (h : InStep typeOf names registry)
    (htype : ∀ name, (typeOf name).name = name) {name : String} {tag : Nat}
    (htag : registry.tagOf name = .ok tag) (value : Value) :
    registry.rowFor ⟨typeOf name, value⟩ = .ok ⟨tag, typeOf name⟩ := by
  have hrow := (h.tagOf_iff_rowOf? htype).mp htag
  have hfound : registry.tagOfAs (typeOf name).name anonymousType = .ok tag := by
    rw [tagOfAs, htype, tagOf_eq_ok_iff.mp htag]
  have hlookup : registry.lookup tag = .ok ⟨tag, typeOf name⟩ := by
    unfold lookup
    rw [hrow]
  unfold rowFor
  rw [hfound]
  exact hlookup

/-! ## 3. Writing -/

/-- A value of a registered type is measured and written alike whether or not its type is named: its
tag, and then as its codec has it, without any error of dispatch.  A value of another type is refused
both ways, before anything is written. -/
structure WritesAgree (typeOf : String → WireType) (registry : Registry) : Prop where
  size : ∀ name tag, registry.tagOf name = .ok tag → ∀ value,
    registry.sizeOf (typeOf name) (some value) = .ok (1 + (typeOf name).codec.size value) ∧
      registry.sizeAny (some ⟨typeOf name, value⟩) =
        registry.sizeOf (typeOf name) (some value)
  write : ∀ name tag, registry.tagOf name = .ok tag → ∀ value,
    registry.write (typeOf name) (some value) =
        (do writeByte tag; (typeOf name).codec.write value) ∧
      registry.writeAny (some ⟨typeOf name, value⟩) = registry.write (typeOf name) (some value)
  undispatched : ∀ name tag, registry.tagOf name = .ok tag → ∀ value,
    (registry.write (typeOf name) (some value)).Undispatched
  refused : ∀ name, (∀ tag, registry.tagOf name ≠ .ok tag) → ∀ value,
    registry.sizeOf (typeOf name) (some value) =
        .error (dispatchFailure (.unregisteredType name)) ∧
      registry.sizeAny (some ⟨typeOf name, value⟩) =
        .error (dispatchFailure (.unregisteredType anonymousType)) ∧
      ∀ out, registry.write (typeOf name) (some value) out =
          .error (dispatchFailure (.unregisteredType name)) out ∧
        registry.writeAny (some ⟨typeOf name, value⟩) out =
          .error (dispatchFailure (.unregisteredType anonymousType)) out

theorem write_of_tagOf {type : WireType} {tag : Nat} (htag : registry.tagOf type.name = .ok tag)
    (value : Value) : registry.write type (some value) =
      (do writeByte tag; type.codec.write value) := by
  show (do
    let tag ← failingWrite (registry.tagOf type.name)
    writeByte tag
    type.codec.write value : Writer) = _
  rw [htag]
  rfl

theorem InStep.writeAny_of_tagOf (h : InStep typeOf names registry)
    (htype : ∀ name, (typeOf name).name = name) {name : String} {tag : Nat}
    (htag : registry.tagOf name = .ok tag) (value : Value) :
    registry.writeAny (some ⟨typeOf name, value⟩) =
      (do writeByte tag; (typeOf name).codec.write value) := by
  show (do
    let row ← failingWrite (registry.rowFor ⟨typeOf name, value⟩)
    let tag ← failingWrite (registry.tagOf row.type.name)
    writeByte tag
    if row.type.name = (typeOf name).name then row.type.codec.write value
    else throw (.wire (.dispatch (registry.mismatch row))) : Writer) = _
  rw [h.rowFor_eq_ok htype htag]
  show (do
    let tag ← failingWrite (registry.tagOf (typeOf name).name)
    writeByte tag
    if (typeOf name).name = (typeOf name).name then (typeOf name).codec.write value
    else throw (.wire (.dispatch (registry.mismatch ⟨tag, typeOf name⟩))) : Writer) = _
  rw [htype, htag]
  simp only [if_true]
  rfl

/-- **Writes agree.** -/
theorem InStep.writesAgree (h : InStep typeOf names registry)
    (htype : ∀ name, (typeOf name).name = name)
    (hcodec : ∀ name, (typeOf name).codec.Undispatched) : registry.WritesAgree typeOf := by
  have hsize : ∀ name tag, registry.tagOf name = .ok tag → ∀ value,
      registry.sizeOf (typeOf name) (some value) = .ok (1 + (typeOf name).codec.size value) := by
    intro name tag htag value
    show (do
      let _ ← failing (registry.tagOf (typeOf name).name)
      pure (1 + (typeOf name).codec.size value) : Except Failure Nat) = _
    rw [htype, htag]
    rfl
  have hwrite : ∀ name tag, registry.tagOf name = .ok tag → ∀ value,
      registry.write (typeOf name) (some value) =
        (do writeByte tag; (typeOf name).codec.write value) := by
    intro name tag htag value
    refine write_of_tagOf ?_ value
    rwa [htype]
  refine ⟨fun name tag htag value => ⟨hsize name tag htag value, ?_⟩,
    fun name tag htag value => ⟨hwrite name tag htag value, ?_⟩, fun name tag htag value => ?_,
    fun name hnone value => ?_⟩
  · rw [hsize name tag htag]
    show (do
      let row ← failing (registry.rowFor ⟨typeOf name, value⟩)
      if row.type.name = (typeOf name).name then pure (1 + row.type.codec.size value)
      else throw (.wire (.dispatch (registry.mismatch row))) : Except Failure Nat) = _
    rw [h.rowFor_eq_ok htype htag]
    exact if_pos rfl
  · rw [hwrite name tag htag, h.writeAny_of_tagOf htype htag]
  · rw [hwrite name tag htag]
    exact (Writer.Undispatched.writeBytes _).bind ((hcodec name).write value)
  · have htag : registry.tags.tagOf? (typeOf name).name = none := by
      rw [htype]
      exact Option.eq_none_iff_forall_ne_some.mpr fun tag hsome =>
        hnone tag (tagOf_eq_ok_iff.mpr hsome)
    have hnamed : registry.tagOf (typeOf name).name = .error (.unregisteredType name) := by
      rw [tagOf, tagOfAs_eq_error htag, htype]
    have hany : registry.rowFor ⟨typeOf name, value⟩ =
        .error (.unregisteredType anonymousType) := by
      unfold rowFor
      rw [tagOfAs_eq_error htag]
      rfl
    refine ⟨?_, ?_, fun out => ⟨?_, ?_⟩⟩
    · unfold sizeOf
      dsimp only
      rw [hnamed]
      rfl
    · unfold sizeAny
      dsimp only
      rw [hany]
      rfl
    · unfold write
      dsimp only
      rw [hnamed]
      rfl
    · unfold writeAny
      dsimp only
      rw [hany]
      rfl

/-! ## 4. Reading -/

/-- A value of a named type is read just where a value of any type is read and is of that type; and
the two fail alike behind its tag.  A dispatch error says what the tag is: one that is another
type's, or one that is neither null's nor a type's. -/
structure ReadsAgree (typeOf : String → WireType) (registry : Registry) : Prop where
  value_iff : ∀ name buffer cursor value stop,
    registry.read (typeOf name) buffer cursor = .ok (some value) stop ↔
      registry.readAny buffer cursor = .ok (some ⟨typeOf name, value⟩) stop
  failure_iff : ∀ name tag buffer cursor middle, registry.tagOf name = .ok tag →
    readTag buffer cursor = .ok tag middle → ∀ failure stop,
      registry.read (typeOf name) buffer cursor = .error failure stop ↔
        registry.readAny buffer cursor = .error failure stop
  mismatch_iff : ∀ name buffer cursor tag expected actual stop,
    registry.read (typeOf name) buffer cursor =
        .error (dispatchFailure (.typeMismatch tag expected actual)) stop ↔
      readTag buffer cursor = .ok tag stop ∧ expected = name ∧ actual ≠ name ∧
        registry.tagOf actual = .ok tag
  unknown_iff : ∀ name buffer cursor tag stop,
    registry.read (typeOf name) buffer cursor = .error (dispatchFailure (.unknownTag tag)) stop ↔
      readTag buffer cursor = .ok tag stop ∧ tag ≠ nullTag ∧ ∀ other, registry.tagOf other ≠ .ok tag
  unknownAny_iff : ∀ buffer cursor tag stop,
    registry.readAny buffer cursor = .error (dispatchFailure (.unknownTag tag)) stop ↔
      readTag buffer cursor = .ok tag stop ∧ tag ≠ nullTag ∧ ∀ other, registry.tagOf other ≠ .ok tag

/-- How a read for a named type and one for any type end, side by side: without a tag, or as the tag
that was read decides. -/
inductive Ways (typeOf : String → WireType) (registry : Registry) (name : String) (buffer : Buffer)
    (cursor : Nat) : Reading (Option Value) → Reading (Option AnyValue) → Prop where
  | short {failure : Failure} {stop : Nat} (hread : readTag buffer cursor = .error failure stop)
    (hfailure : ¬failure.IsDispatch) :
    Ways typeOf registry name buffer cursor (.error failure stop) (.error failure stop)
  | null {stop : Nat} (hread : readTag buffer cursor = .ok nullTag stop) :
    Ways typeOf registry name buffer cursor (.ok none stop) (.ok none stop)
  | unknown {tag stop : Nat} (hread : readTag buffer cursor = .ok tag stop) (hpos : tag ≠ nullTag)
    (hfree : ∀ other, registry.tagOf other ≠ .ok tag) :
    Ways typeOf registry name buffer cursor (.error (dispatchFailure (.unknownTag tag)) stop)
      (.error (dispatchFailure (.unknownTag tag)) stop)
  | other {tag stop : Nat} {actual : String} {any : Reading (Option AnyValue)}
    (hread : readTag buffer cursor = .ok tag stop) (hactual : actual ≠ name)
    (htag : registry.tagOf actual = .ok tag)
    (hvalue : ∀ value last, any = .ok (some value) last → value.type = typeOf actual)
    (hfailure : ∀ failure last, any = .error failure last → ¬failure.IsDispatch) :
    Ways typeOf registry name buffer cursor
      (.error (dispatchFailure (.typeMismatch tag name actual)) stop) any
  | value {tag stop last : Nat} {value : Value} (hread : readTag buffer cursor = .ok tag stop)
    (htag : registry.tagOf name = .ok tag) :
    Ways typeOf registry name buffer cursor (.ok (some value) last)
      (.ok (some ⟨typeOf name, value⟩) last)
  | failure {tag stop last : Nat} {failure : Failure} (hread : readTag buffer cursor = .ok tag stop)
    (htag : registry.tagOf name = .ok tag) (hfailure : ¬failure.IsDispatch) :
    Ways typeOf registry name buffer cursor (.error failure last) (.error failure last)

section

variable {buffer : Buffer} {cursor stop tag : Nat}

/-- The tag decides how a read for a named type goes on. -/
theorem readTagFor_of_readTag (registry : Registry) (type : WireType)
    (h : readTag buffer cursor = .ok tag stop) :
    registry.readTagFor type buffer cursor =
      if tag = nullTag then .ok false stop
      else match registry.rowOf? tag with
        | none => .error (dispatchFailure (.unknownTag tag)) stop
        | some row =>
          if row.type.name = type.name then .ok true stop
          else .error (dispatchFailure (.typeMismatch tag type.name row.type.name)) stop := by
  unfold readTagFor
  rw [Reader.bind_of_ok h]
  by_cases hnull : tag = nullTag
  · rw [if_pos hnull, if_pos hnull]
    rfl
  · rw [if_neg hnull, if_neg hnull]
    unfold lookup
    cases registry.rowOf? tag with
    | none => rfl
    | some row =>
      show (if row.type.name = type.name then _ else _ : Reader Bool) buffer stop = _
      dsimp only
      split <;> rfl

/-- A tag that has been read leads to the type of its row. -/
theorem readByTag_apply (registry : Registry) (tag : Nat) (buffer : Buffer) (cursor : Nat) :
    registry.readByTag tag buffer cursor =
      match registry.rowOf? tag with
      | none => .error (dispatchFailure (.unknownTag tag)) cursor
      | some row =>
        match row.type.codec.read buffer cursor with
        | .ok value last => .ok ⟨row.type, value⟩ last
        | .error failure last => .error failure last := by
  unfold readByTag lookup
  cases registry.rowOf? tag with
  | none => rfl
  | some row =>
    have hrow : (failingRead (.ok row) : Reader RegistryRow) buffer cursor = .ok row cursor := rfl
    dsimp only
    rw [Reader.bind_of_ok hrow, Reader.bind_apply]
    cases row.type.codec.read buffer cursor <;> rfl

/-- The tag decides how a read for any type goes on. -/
theorem readAny_of_readTag (registry : Registry) (h : readTag buffer cursor = .ok tag stop) :
    registry.readAny buffer cursor =
      if tag = nullTag then .ok none stop
      else match registry.readByTag tag buffer stop with
        | .ok any last => .ok (some any) last
        | .error failure last => .error failure last := by
  unfold readAny
  rw [Reader.bind_of_ok h]
  by_cases hnull : tag = nullTag
  · rw [if_pos hnull, if_pos hnull]
    rfl
  · rw [if_neg hnull, if_neg hnull, Reader.bind_apply]
    cases registry.readByTag tag buffer stop <;> rfl

/-- **Every read for a named type goes side by side with one for any type.** -/
theorem InStep.ways (h : InStep typeOf names registry) (htype : ∀ name, (typeOf name).name = name)
    (hcodec : ∀ name, (typeOf name).codec.Undispatched) (name : String) (buffer : Buffer)
    (cursor : Nat) : Ways typeOf registry name buffer cursor
      (registry.read (typeOf name) buffer cursor) (registry.readAny buffer cursor) := by
  cases hread : readTag buffer cursor with
  | error failure stop =>
    have hnamed : registry.read (typeOf name) buffer cursor = .error failure stop :=
      Reader.bind_of_error (Reader.bind_of_error hread)
    have hany : registry.readAny buffer cursor = .error failure stop := Reader.bind_of_error hread
    rw [hnamed, hany]
    exact .short hread (Reader.Undispatched.readByte buffer cursor failure stop hread)
  | ok tag stop =>
    have hfor := readTagFor_of_readTag registry (typeOf name) hread
    have hany := readAny_of_readTag registry hread
    rw [readByTag_apply] at hany
    unfold read
    by_cases hnull : tag = nullTag
    · rw [if_pos hnull] at hfor hany
      rw [Reader.bind_of_ok hfor, hany]
      rw [hnull] at hread
      exact .null hread
    · rw [if_neg hnull] at hfor hany
      cases hrow : registry.rowOf? tag with
      | none =>
        rw [hrow] at hfor hany
        rw [Reader.bind_of_error hfor, hany]
        refine .unknown hread hnull fun other htag => ?_
        rw [(h.tagOf_iff_rowOf? htype).mp htag] at hrow
        cases hrow
      | some row =>
        obtain ⟨actual, htag, rfl⟩ := h.rowOf?_eq_some_iff.mp hrow
        have htag := tagOf_eq_ok_iff.mpr htag
        rw [hrow] at hfor hany
        dsimp only at hfor hany
        rw [htype, htype] at hfor
        by_cases hname : actual = name
        · subst hname
          rw [if_pos rfl] at hfor
          rw [Reader.bind_of_ok hfor, if_pos rfl, Reader.bind_apply, hany]
          cases hvalue : (typeOf actual).codec.read buffer stop with
          | ok value last => exact .value hread htag
          | error failure last =>
            exact .failure hread htag ((hcodec actual).read buffer stop failure last hvalue)
        · rw [if_neg hname] at hfor
          rw [Reader.bind_of_error hfor, hany]
          cases hvalue : (typeOf actual).codec.read buffer stop with
          | ok value last =>
            exact .other hread hname htag (fun _ _ heq => by cases heq; rfl)
              fun _ _ heq => by cases heq
          | error failure last =>
            refine .other hread hname htag (fun _ _ heq => by cases heq) fun _ _ heq => ?_
            cases heq
            exact (hcodec actual).read buffer stop failure last hvalue

/-- One tag is that of one type. -/
theorem InStep.eq_of_tagOf (h : InStep typeOf names registry) {name other : String} {tag : Nat}
    (hname : registry.tagOf name = .ok tag) (hother : registry.tagOf other = .ok tag) :
    name = other :=
  h.sound.key_eq_of_tagOf? (tagOf_eq_ok_iff.mp hname) (tagOf_eq_ok_iff.mp hother)

/-- No type has the tag of null. -/
theorem InStep.ne_nullTag (h : InStep typeOf names registry) {name : String} {tag : Nat}
    (hname : registry.tagOf name = .ok tag) : tag ≠ nullTag :=
  (h.sound.range_of_tagOf? (tagOf_eq_ok_iff.mp hname)).1

/-- A tag that was read is the tag that was read. -/
theorem readTag_inj {first second middle stop : Nat} (hfirst : readTag buffer cursor = .ok first middle)
    (hsecond : readTag buffer cursor = .ok second stop) : first = second ∧ middle = stop := by
  rw [hfirst] at hsecond
  cases hsecond
  exact ⟨rfl, rfl⟩

namespace Ways

variable {name : String} {named : Reading (Option Value)} {any : Reading (Option AnyValue)}

theorem value_iff (hways : Ways typeOf registry name buffer cursor named any)
    (htype : ∀ name, (typeOf name).name = name) (value : Value) (stop : Nat) :
    named = .ok (some value) stop ↔ any = .ok (some ⟨typeOf name, value⟩) stop := by
  cases hways with
  | @other tag _ actual _ hread hactual htag hvalue hfailure =>
    constructor
    · intro heq
      cases heq
    · intro heq
      have hsame : typeOf name = typeOf actual := hvalue _ _ heq
      rw [← htype name, hsame, htype] at hactual
      exact absurd rfl hactual
  | value hread htag => simp
  | short | null | unknown | failure => simp

theorem failure_iff (hways : Ways typeOf registry name buffer cursor named any)
    (h : InStep typeOf names registry) {tag middle : Nat} (htag : registry.tagOf name = .ok tag)
    (hread : readTag buffer cursor = .ok tag middle) (failure : Failure) (stop : Nat) :
    named = .error failure stop ↔ any = .error failure stop := by
  cases hways with
  | other hread' hactual htag' hvalue hfailure =>
    rw [(readTag_inj hread hread').1] at htag
    exact absurd (h.eq_of_tagOf htag' htag) hactual
  | short | null | unknown | value | failure => simp

theorem mismatch_iff (hways : Ways typeOf registry name buffer cursor named any)
    (h : InStep typeOf names registry) (tag : Nat) (expected actual : String) (stop : Nat) :
    named = .error (dispatchFailure (.typeMismatch tag expected actual)) stop ↔
      readTag buffer cursor = .ok tag stop ∧ expected = name ∧ actual ≠ name ∧
        registry.tagOf actual = .ok tag := by
  constructor
  · intro heq
    cases hways with
    | other hread hactual htag _ _ =>
      cases heq
      exact ⟨hread, rfl, hactual, htag⟩
    | short hread hfailure =>
      cases heq
      exact absurd trivial hfailure
    | failure hread htag hfailure =>
      cases heq
      exact absurd trivial hfailure
    | null | unknown | value => cases heq
  · rintro ⟨hread, rfl, hactual, htag⟩
    cases hways with
    | other hread' hactual' htag' _ _ =>
      obtain ⟨rfl, rfl⟩ := readTag_inj hread hread'
      rw [h.eq_of_tagOf htag htag']
    | short hread' _ =>
      rw [hread] at hread'
      cases hread'
    | null hread' => exact absurd (readTag_inj hread hread').1 (h.ne_nullTag htag)
    | unknown hread' _ hfree =>
      rw [(readTag_inj hread hread').1] at htag
      exact absurd htag (hfree actual)
    | value hread' htag' =>
      rw [(readTag_inj hread hread').1] at htag
      exact absurd (h.eq_of_tagOf htag htag') hactual
    | failure hread' htag' _ =>
      rw [(readTag_inj hread hread').1] at htag
      exact absurd (h.eq_of_tagOf htag htag') hactual

/-- A tag that is neither null's nor a type's is reported, and nothing else is reported as one. -/
theorem unknown_iff (hways : Ways typeOf registry name buffer cursor named any) (tag stop : Nat) :
    (named = .error (dispatchFailure (.unknownTag tag)) stop ↔
      readTag buffer cursor = .ok tag stop ∧ tag ≠ nullTag ∧
        ∀ other, registry.tagOf other ≠ .ok tag) ∧
    (any = .error (dispatchFailure (.unknownTag tag)) stop ↔
      readTag buffer cursor = .ok tag stop ∧ tag ≠ nullTag ∧
        ∀ other, registry.tagOf other ≠ .ok tag) := by
  have hreported : readTag buffer cursor = .ok tag stop ∧ tag ≠ nullTag ∧
      (∀ other, registry.tagOf other ≠ .ok tag) →
      named = .error (dispatchFailure (.unknownTag tag)) stop ∧
        any = .error (dispatchFailure (.unknownTag tag)) stop := by
    rintro ⟨hread, hpos, hfree⟩
    cases hways with
    | unknown hread' _ _ =>
      obtain ⟨rfl, rfl⟩ := readTag_inj hread hread'
      exact ⟨rfl, rfl⟩
    | short hread' _ =>
      rw [hread] at hread'
      cases hread'
    | null hread' => exact absurd (readTag_inj hread hread').1 hpos
    | other hread' _ htag _ _ =>
      rw [← (readTag_inj hread hread').1] at htag
      exact absurd htag (hfree _)
    | value hread' htag =>
      rw [← (readTag_inj hread hread').1] at htag
      exact absurd htag (hfree _)
    | failure hread' htag _ =>
      rw [← (readTag_inj hread hread').1] at htag
      exact absurd htag (hfree _)
  refine ⟨⟨fun heq => ?_, fun h => (hreported h).1⟩, ⟨fun heq => ?_, fun h => (hreported h).2⟩⟩
  · cases hways with
    | unknown hread hpos hfree =>
      cases heq
      exact ⟨hread, hpos, hfree⟩
    | short hread hfailure =>
      cases heq
      exact absurd trivial hfailure
    | failure hread htag hfailure =>
      cases heq
      exact absurd trivial hfailure
    | null | other | value => cases heq
  · cases hways with
    | unknown hread hpos hfree =>
      cases heq
      exact ⟨hread, hpos, hfree⟩
    | other hread hactual htag hvalue hfailure => exact absurd trivial (hfailure _ _ heq)
    | short hread hfailure =>
      cases heq
      exact absurd trivial hfailure
    | failure hread htag hfailure =>
      cases heq
      exact absurd trivial hfailure
    | null | value => cases heq

end Ways

/-- **Reads agree.** -/
theorem InStep.readsAgree (h : InStep typeOf names registry)
    (htype : ∀ name, (typeOf name).name = name)
    (hcodec : ∀ name, (typeOf name).codec.Undispatched) : registry.ReadsAgree typeOf := by
  have hways := h.ways htype hcodec
  exact ⟨fun name buffer cursor => (hways name buffer cursor).value_iff htype,
    fun name tag buffer cursor middle htag hread => (hways name buffer cursor).failure_iff h htag hread,
    fun name buffer cursor => (hways name buffer cursor).mismatch_iff h,
    fun name buffer cursor tag stop => ((hways name buffer cursor).unknown_iff tag stop).1,
    fun buffer cursor tag stop => ((hways "" buffer cursor).unknown_iff tag stop).2⟩

end

end

/-! ## 5. Pools -/

/-- What reading into a pooled instance ends with, without its guard. -/
def Pooled.reading (pooled : Pooled) : Reading (Option Value) :=
  match pooled.outcome with
  | .ok guard => .ok (guard.map Guard.item) pooled.cursor
  | .error failure => .error failure pooled.cursor

/-- Reading into an instance of a pool, whatever the pool holds, ends as reading afresh does; and a
null and a dispatch error leave the pool alone. -/
structure PoolsAgree (typeOf : String → WireType) (IsOf : String → Value → Prop)
    (registry : Registry) : Prop where
  alike : ∀ name (pool : ObjectPool Value), (∀ item ∈ pool.fresh :: pool.idle, IsOf name item) →
    ∀ buffer cursor, Reading.Alike (registry.readPooled (typeOf name) pool buffer cursor).reading
      (registry.read (typeOf name) buffer cursor)
  untouched : ∀ name (pool : ObjectPool Value) buffer cursor stop,
    (registry.read (typeOf name) buffer cursor = .ok none stop ∨
      ∃ failure, failure.IsDispatch ∧
        registry.read (typeOf name) buffer cursor = .error failure stop) →
    (registry.readPooled (typeOf name) pool buffer cursor).pool = pool

/-- Reading into a pooled instance goes as the tag decides. -/
theorem readPooled_eq (registry : Registry) (type : WireType) (pool : ObjectPool Value)
    (buffer : Buffer) (cursor : Nat) : registry.readPooled type pool buffer cursor =
      match registry.readTagFor type buffer cursor with
      | .error failure stop => ⟨.error failure, stop, pool⟩
      | .ok false stop => ⟨.ok none, stop, pool⟩
      | .ok true stop =>
        let decoded := pool.decode type.codec buffer stop
        ⟨decoded.outcome.map some, decoded.cursor, decoded.pool⟩ := by
  unfold readPooled Reader.run
  cases registry.readTagFor type buffer cursor with
  | error failure stop => rfl
  | ok present stop => cases present <;> rfl

/-- What is read into a pooled instance is a value behind its tag. -/
theorem alike_reading {decoded : ObjectPool.Decoded Value} {read : Reader Value} {buffer : Buffer}
    {cursor : Nat} (h : Reading.Alike decoded.toResult (read buffer cursor)) :
    Reading.Alike (Pooled.reading ⟨decoded.outcome.map some, decoded.cursor, decoded.pool⟩)
      ((do let value ← read; pure (some value) : Reader (Option Value)) buffer cursor) := by
  rw [Reader.bind_apply]
  obtain ⟨outcome, stop, pool⟩ := decoded
  cases outcome with
  | ok guard =>
    rw [Reading.Alike.eq_ok h]
    exact .refl _
  | error failure =>
    cases hread : read buffer cursor with
    | ok value last =>
      rw [hread] at h
      exact h.elim
    | error other last =>
      rw [hread] at h
      exact h

/-- **Pooled reads agree.** -/
theorem poolsAgree {typeOf : String → WireType} {IsOf : String → Value → Prop} {registry : Registry}
    (hcodec : ∀ name, (typeOf name).codec.Undispatched)
    (hagrees : ∀ name target, IsOf name target → (typeOf name).codec.Agrees target) :
    registry.PoolsAgree typeOf IsOf := by
  refine ⟨fun name pool hitems buffer cursor => ?_, fun name pool buffer cursor stop huntouched => ?_⟩
  · rw [readPooled_eq]
    unfold read
    rw [Reader.bind_apply]
    cases registry.readTagFor (typeOf name) buffer cursor with
    | error failure stop => exact .refl _
    | ok present stop =>
      cases present with
      | false => exact .refl _
      | true =>
        obtain ⟨hfresh, hidle⟩ := List.forall_mem_cons.mp hitems
        have hitem := (ObjectPool.good_acquire hfresh hidle).1
        have halike := hagrees name _ hitem buffer stop
        rw [← ObjectPool.toResult_decode] at halike
        dsimp only
        rw [if_pos rfl]
        exact alike_reading halike
  · rw [readPooled_eq]
    unfold read at huntouched
    rw [Reader.bind_apply] at huntouched
    cases hfor : registry.readTagFor (typeOf name) buffer cursor with
    | error failure middle => rfl
    | ok present middle =>
      cases present with
      | false => rfl
      | true =>
        -- behind a tag there is a value, or a failure of its codec
        rw [hfor] at huntouched
        dsimp only at huntouched
        rw [if_pos rfl, Reader.bind_apply] at huntouched
        cases hread : (typeOf name).codec.read buffer middle with
        | ok value last =>
          rw [hread] at huntouched
          rcases huntouched with heq | ⟨_, _, heq⟩ <;> cases heq
        | error failure last =>
          rw [hread] at huntouched
          rcases huntouched with heq | ⟨_, hdispatch, heq⟩
          · cases heq
          · cases heq
            exact absurd hdispatch ((hcodec name).read _ _ _ _ hread)

/-! ## 6. Null -/

/-- A null is one zero byte, whatever type it is of and whether or not that is registered; and one
zero byte is read as a null, in every way. -/
structure NullsAgree (typeOf : String → WireType) (registry : Registry) : Prop where
  size : ∀ name, registry.sizeOf (typeOf name) none = .ok 1 ∧ registry.sizeAny none = .ok 1
  write : ∀ name, (registry.write (typeOf name) none).Puts True [0] ∧
    (registry.writeAny none).Puts True [0]
  reads : ∀ name buffer cursor, HoldsAt buffer cursor [0] →
    registry.read (typeOf name) buffer cursor = .ok none (cursor + 1) ∧
      registry.readAny buffer cursor = .ok none (cursor + 1) ∧
      ∀ pool, (registry.readPooled (typeOf name) pool buffer cursor).reading = .ok none (cursor + 1)
  onlyNull : ∀ name buffer cursor stop, registry.read (typeOf name) buffer cursor = .ok none stop →
    readTag buffer cursor = .ok nullTag stop

/-- **Nulls agree.** -/
theorem InStep.nullsAgree {typeOf : String → WireType} {names : List String} {registry : Registry}
    (h : InStep typeOf names registry) (htype : ∀ name, (typeOf name).name = name)
    (hcodec : ∀ name, (typeOf name).codec.Undispatched) : registry.NullsAgree typeOf := by
  refine ⟨fun name => ⟨rfl, rfl⟩, fun name => ⟨Writer.puts_writeByte 0, Writer.puts_writeByte 0⟩,
    fun name buffer cursor hholds => ?_, fun name buffer cursor stop hnone => ?_⟩
  · have hbyte : readByte.Yields 0 (IntFormat.u8.encode 0) := Reader.yields_readByte (by decide)
    have hread : readTag buffer cursor = .ok 0 (cursor + 1) := (hbyte buffer cursor).whole hholds
    have hfor : registry.readTagFor (typeOf name) buffer cursor = .ok false (cursor + 1) :=
      readTagFor_of_readTag registry (typeOf name) hread
    refine ⟨Reader.bind_of_ok hfor, readAny_of_readTag registry hread, fun pool => ?_⟩
    rw [readPooled_eq, hfor]
    rfl
  · have hways := h.ways htype hcodec name buffer cursor
    rw [hnone] at hways
    generalize registry.readAny buffer cursor = any at hways
    cases hways with
    | null hread => exact hread

end Registry

/-! ## 7. Catalogues -/

/-- The type of a name, where `shapeOf` tells the shapes that types have. -/
def Catalogue.wireType [DecimalForm] (catalogue : Catalogue) (sharing : Sharing Value)
    (shapeOf : String → Shape) (name : String) : WireType :=
  ⟨name, catalogue.codecOf sharing (shapeOf name)⟩

namespace Samples

/-- Three registrations, of which the last changes nothing. -/
def linkCalls : List (String × Option Nat) := [("Link", some 7), ("Frame", none), ("Link", none)]

/-- The registry of links and frames. -/
def linkRegistry : Registry :=
  ⟨⟨[⟨1, "Frame", "Frame"⟩, ⟨7, "Link", "Link"⟩]⟩,
    [⟨1, chain.wireType Sharing.none .named "Frame"⟩,
      ⟨7, chain.wireType Sharing.none .named "Link"⟩]⟩

end Samples

namespace Catalogue

open Samples (chain chain_planned linkCalls linkRegistry linkValue)

variable {catalogue : Catalogue} (sharing : Sharing Value)

/-- **All ways through a registry agree.**  Whatever types are registered, in whatever order and with
whatever tags: tags, types and rows say the same; a value is measured and written alike whether or not
its type is named, and refused both ways if its type is not registered; what is read for a named type
is what is read for any type, and a dispatch error says what the tag is; reading into a pooled instance
ends as reading afresh; and a null is one zero byte in every way. -/
theorem dispatch_paths_agree [DecimalForm] (hplanned : catalogue.Planned) {shapeOf : String → Shape}
    {calls : List (String × Option Nat)} (hcalls : ∀ call ∈ calls, ∀ tag ∈ call.2, tag < 256)
    {registry : Registry}
    (hbuild : Registry.build (catalogue.wireType sharing shapeOf) calls = .ok registry) :
    registry.TagsAgree (catalogue.wireType sharing shapeOf) (calls.map Prod.fst) ∧
      registry.WritesAgree (catalogue.wireType sharing shapeOf) ∧
      registry.ReadsAgree (catalogue.wireType sharing shapeOf) ∧
      registry.PoolsAgree (catalogue.wireType sharing shapeOf)
        (fun name => catalogue.HasShape (shapeOf name)) ∧
      registry.NullsAgree (catalogue.wireType sharing shapeOf) := by
  have htype : ∀ name, (catalogue.wireType sharing shapeOf name).name = name := fun _ => rfl
  have hcodec : ∀ name, (catalogue.wireType sharing shapeOf name).codec.Undispatched :=
    fun name => hplanned.undispatched sharing (shapeOf name)
  have hinstep := Registry.inStep_of_build htype hcalls hbuild
  refine ⟨hinstep.tagsAgree htype, hinstep.writesAgree htype hcodec,
    hinstep.readsAgree htype hcodec, Registry.poolsAgree hcodec fun name target h => ?_,
    hinstep.nullsAgree htype hcodec⟩
  exact fun buffer cursor =>
    hplanned.agrees sharing (catalogue.nestingsOf buffer) h.isTarget buffer cursor

/-- Links under a tag that is asked for, frames under the lowest free one, and links once more. -/
theorem dispatch_paths_agree_link :
    (chain.Planned ∧ (∀ call ∈ linkCalls, ∀ tag ∈ call.2, tag < 256) ∧
      Registry.build (chain.wireType Sharing.none .named) linkCalls = .ok linkRegistry) ∧
    linkRegistry.rowOf? 7 = some ⟨7, chain.wireType Sharing.none .named "Link"⟩ ∧
    linkRegistry.sizeAny (some ⟨chain.wireType Sharing.none .named "Link", linkValue⟩) =
      linkRegistry.sizeOf (chain.wireType Sharing.none .named "Link") (some linkValue) ∧
    linkRegistry.read (chain.wireType Sharing.none .named "Frame") [7, 1, 9, 0, 0, 0] 0 =
      .error (Registry.dispatchFailure (.typeMismatch 7 "Frame" "Link")) 1 := by
  have hcalls : ∀ call ∈ linkCalls, ∀ tag ∈ call.2, tag < 256 := by decide
  have hbuild : Registry.build (chain.wireType Sharing.none .named) linkCalls =
      .ok linkRegistry := rfl
  obtain ⟨htags, hwrites, hreads, -, -⟩ :=
    dispatch_paths_agree Sharing.none chain_planned hcalls hbuild
  refine ⟨⟨chain_planned, hcalls, hbuild⟩, (htags.tagOf_iff "Link" 7).mp rfl,
    (hwrites.size "Link" 7 rfl linkValue).2, ?_⟩
  exact (hreads.mismatch_iff "Frame" _ _ 7 "Frame" "Link" 1).mpr ⟨rfl, rfl, by decide, rfl⟩

end Catalogue

end Wireform
