import Mathlib.Data.Finset.Card
import Mathlib.Logic.Relation
import Wireform.Proofs.Layout

/-!
# Catalogues in which reads end

A read enters a name again and again, and only bytes stop it.  It gets to its end if the catalogue
knows every name that it meets (`Catalogue.Closed`), and if no record holds itself inline
(`Catalogue.Grounded`): it must not come back to itself through fields that are always there, in
records without a bitset, and through boxes alone, since on that way no byte is read.

In such a catalogue the names have a rank: `exists_rank` counts what a name holds inline, which is
less for what it holds, and at most as much as the catalogue has entries.  So from one byte to the
next no more names are entered than there are entries.
-/
namespace Wireform

/-! ## 1. Names -/

namespace Shape

/-- The names in a shape. -/
def names : Shape → List String
  | .leaf _ => []
  | .option inner => inner.names
  | .boxed inner => inner.names
  | .shared inner => inner.names
  | .sequence _ element => element.names
  | .array _ element => element.names
  | .mapping _ key value => key.names ++ value.names
  | .named name => [name]

/-- The name that a shape is, its boxes apart. -/
def inline? (shape : Shape) : Option String :=
  match shape.bare with
  | .named name => some name
  | _ => none

end Shape

namespace Catalogue

variable (catalogue : Catalogue)

/-- The catalogue knows every name in the shape. -/
def Knows (shape : Shape) : Prop :=
  ∀ name ∈ shape.names, ∃ definition, catalogue.get? name = some definition

/-- The catalogue knows every name in the fields of its records. -/
def Closed : Prop :=
  ∀ name fields, catalogue.layout? name = some fields → ∀ field ∈ fields, catalogue.Knows field.shape

/-- A record holds another name inline: in front of every byte of its own, there or behind boxes. -/
def Inline (name other : String) : Prop :=
  ∃ fields, catalogue.layout? name = some fields ∧ bitsetBytesOf fields = 0 ∧
    ∃ field ∈ fields, field.presence = .always ∧ field.shape.inline? = some other

/-- No record holds itself inline, directly or through others. -/
def Grounded : Prop :=
  ∀ name, ¬ Relation.TransGen catalogue.Inline name name

/-- The shapes of which the values of a shape are made, one step down. -/
inductive Part : Shape → Shape → Prop where
  | option {inner : Shape} : Part (.option inner) inner
  | boxed {inner : Shape} : Part (.boxed inner) inner
  | shared {inner : Shape} : Part (.shared inner) inner
  | sequence {kind : SequenceKind} {element : Shape} : Part (.sequence kind element) element
  | array {length : Nat} {element : Shape} : Part (.array length element) element
  | key {kind : MapKind} {key value : Shape} : Part (.mapping kind key value) key
  | value {kind : MapKind} {key value : Shape} : Part (.mapping kind key value) value
  | field {name : String} {fields : List FieldLayout} {field : FieldLayout}
    (hname : catalogue.layout? name = some fields) (hfield : field ∈ fields)
    (hwired : field.presence ≠ .skipped) : Part (.named name) field.shape

/-- The shape itself or a part of it, through the names. -/
def Contains : Shape → Shape → Prop := Relation.ReflTransGen catalogue.Part

/-- No two variants of an enumeration have the same bytes. -/
def Distinct : Prop :=
  ∀ name e, catalogue.get? name = some (.enumeration e) → e.variants.Pairwise fun a b =>
    e.repr.format.wrap a.discriminant ≠ e.repr.format.wrap b.discriminant

variable {catalogue}

theorem mem_of_get? {name : String} {definition : Definition}
    (h : catalogue.get? name = some definition) : (name, definition) ∈ catalogue.entries := by
  obtain ⟨before, behind, hentries, -⟩ := List.lookup_eq_some_iff.mp h
  rw [hentries]
  exact List.mem_append_right _ List.mem_cons_self

/-- Catalogues whose names can be ranked are grounded. -/
theorem Grounded.of_rank (rank : String → Nat)
    (h : ∀ name other, catalogue.Inline name other → rank other < rank name) :
    catalogue.Grounded := by
  have hpath : ∀ name other, Relation.TransGen catalogue.Inline name other →
      rank other < rank name := by
    intro name other hpath
    induction hpath with
    | single hinline => exact h _ _ hinline
    | tail _ hinline ih => exact (h _ _ hinline).trans ih
  exact fun name hcycle => Nat.lt_irrefl _ (hpath name name hcycle)

theorem mem_names_of_inline? {shape : Shape} {name : String} (h : shape.inline? = some name) :
    name ∈ shape.names := by
  induction shape with
  | boxed inner ih => exact ih h
  | shared inner ih => exact ih h
  | named other =>
    cases h
    exact List.mem_singleton_self _
  | _ => cases h

/-- What a record of a closed catalogue holds inline is an entry of the catalogue. -/
theorem Closed.mem_of_inline (h : catalogue.Closed) {name other : String}
    (hinline : catalogue.Inline name other) : other ∈ catalogue.entries.map Prod.fst := by
  obtain ⟨fields, hlayout, -, field, hfield, -, hother⟩ := hinline
  obtain ⟨definition, hdefinition⟩ :=
    h name fields hlayout field hfield other (mem_names_of_inline? hother)
  exact List.mem_map.mpr ⟨_, mem_of_get? hdefinition, rfl⟩

open Classical in
/-- **The names of a grounded catalogue have ranks**: what a record holds inline is of lower rank,
and no rank is above the number of entries. -/
theorem Grounded.exists_rank (hgrounded : catalogue.Grounded) (hclosed : catalogue.Closed) :
    ∃ rank : String → Nat, (∀ name, rank name ≤ catalogue.entries.length) ∧
      ∀ name other, catalogue.Inline name other → rank other < rank name := by
  -- the rank of a name is how many entries it leads to through inline fields
  let names : Finset String := (catalogue.entries.map Prod.fst).toFinset
  let reach (name : String) : Finset String :=
    names.filter fun other => Relation.TransGen catalogue.Inline name other
  refine ⟨fun name => (reach name).card, fun name => ?_, fun name other hinline => ?_⟩
  · have hall : (reach name).card ≤ names.card := Finset.card_filter_le _ _
    have hnames : names.card ≤ (catalogue.entries.map Prod.fst).length :=
      List.toFinset_card_le _
    rw [List.length_map] at hnames
    exact hall.trans hnames
  · refine Finset.card_lt_card ?_
    rw [Finset.ssubset_iff_of_subset]
    · refine ⟨other, ?_, ?_⟩
      · rw [Finset.mem_filter]
        exact ⟨List.mem_toFinset.mpr (hclosed.mem_of_inline hinline), .single hinline⟩
      · rw [Finset.mem_filter]
        exact fun hmem => hgrounded other hmem.2
    · intro reached hmem
      rw [Finset.mem_filter] at hmem ⊢
      exact ⟨hmem.1, .head hinline hmem.2⟩

end Catalogue

/-! ## 2. A small catalogue

An enumeration, a chain of links that hold each other behind a null, a frame that holds other
types inline, and a lowered structure: enough for every condition to say something. -/

namespace Samples

/-- Two colours. -/
def tint : Enumeration := ⟨"Tint", .u8, [⟨"Red", 1⟩, ⟨"Green", 2⟩]⟩

/-- A link of a chain, with something that is not written. -/
def linkFields : List FieldDef :=
  [⟨"value", .plain (.leaf (.primitive .i32))⟩, ⟨"next", .nullable (.boxed (.named "Link"))⟩,
    ⟨"cache", .skipped (.sequence .list (.leaf (.primitive .u8)))⟩]

/-- A frame around some links. -/
def frameFields : List FieldDef :=
  [⟨"tint", .plain (.named "Tint")⟩,
    ⟨"links", .plain (.mapping .sorted (.leaf (.primitive .u8)) (.named "Link"))⟩,
    ⟨"pair", .plain (.boxed (.named "Pair"))⟩]

/-- A number, some texts and a colour, as a schema has them. -/
def pairSchema : Schema.TypeSchema :=
  ⟨"Pair", 1,
    [⟨"left", .primitive .u8, none⟩, ⟨"right", .list (.primitive .string) false, some 1⟩,
      ⟨"tint", .enum "Tint" .u8, none⟩]⟩

/-- The catalogue of all of them. -/
def chain : Catalogue :=
  ⟨[("Tint", .enumeration tint), ("Link", .record linkFields), ("Frame", .record frameFields),
    ("Pair", .lowered "" (.ofSchema pairSchema))]⟩

/-- The layout of a link. -/
def linkLayout : List FieldLayout :=
  [⟨.always, .leaf (.primitive .i32), .int 0⟩, ⟨.nullable 1, .boxed (.named "Link"), .null⟩,
    ⟨.skipped, .sequence .list (.leaf (.primitive .u8)), .list []⟩]

/-- The layout of a frame. -/
def frameLayout : List FieldLayout :=
  [⟨.always, .named "Tint", .variant 1⟩,
    ⟨.always, .mapping .sorted (.leaf (.primitive .u8)) (.named "Link"), .entries []⟩,
    ⟨.always, .boxed (.named "Pair"), .record [.int 0, .null, .variant 1]⟩]

/-- The layout of a pair. -/
def pairLayout : List FieldLayout :=
  [⟨.always, .leaf (.primitive .u8), .int 0⟩,
    ⟨.nullable 1, .sequence .list (.leaf (.primitive .string)), .null⟩,
    ⟨.always, .named "Tint", .variant 1⟩]

theorem chain_layout? {name : String} {fields : List FieldLayout}
    (h : chain.layout? name = some fields) :
    (name = "Link" ∧ fields = linkLayout) ∨ (name = "Frame" ∧ fields = frameLayout) ∨
      (name = "Pair" ∧ fields = pairLayout) := by
  obtain ⟨definition, hdefinition, hlayout⟩ := Catalogue.exists_of_layout? h
  have hmem := Catalogue.mem_of_get? hdefinition
  simp only [chain, List.mem_cons, Prod.mk.injEq, List.not_mem_nil, or_false] at hmem
  obtain ⟨rfl, rfl⟩ | ⟨rfl, rfl⟩ | ⟨rfl, rfl⟩ | ⟨rfl, rfl⟩ := hmem
  · cases hlayout
  · exact .inl ⟨rfl, Option.some.inj (hlayout.symm.trans rfl)⟩
  · exact .inr (.inl ⟨rfl, Option.some.inj (hlayout.symm.trans rfl)⟩)
  · exact .inr (.inr ⟨rfl, Option.some.inj (hlayout.symm.trans rfl)⟩)

/-- Links are made of numbers and links. -/
theorem contains_link {catalogue : Catalogue} (hlink : catalogue.layout? "Link" = some linkLayout)
    {shape : Shape} (h : catalogue.Contains (.named "Link") shape) :
    shape = .named "Link" ∨ shape = .boxed (.named "Link") ∨ shape = .leaf (.primitive .i32) := by
  induction h with
  | refl => exact .inl rfl
  | tail _ hpart ih =>
    obtain rfl | rfl | rfl := ih
    · cases hpart with | field hname hfield hwired =>
      cases hlink.symm.trans hname
      simp only [linkLayout, List.mem_cons, List.not_mem_nil, or_false] at hfield
      obtain rfl | rfl | rfl := hfield
      · exact .inr (.inr rfl)
      · exact .inr (.inl rfl)
      · exact absurd rfl hwired
    · cases hpart
      exact .inl rfl
    · cases hpart

theorem chain_hasTint : chain.HasShape (.named "Tint") (.variant 1) :=
  .variant (e := tint) (v := ⟨"Red", 1⟩) rfl List.mem_cons_self

theorem chain_planned : chain.Planned := by
  intro name definition h
  have hmem := Catalogue.mem_of_get? h
  simp only [chain, List.mem_cons, Prod.mk.injEq, List.not_mem_nil, or_false] at hmem
  obtain ⟨-, rfl⟩ | ⟨-, rfl⟩ | ⟨-, rfl⟩ | ⟨-, rfl⟩ := hmem
  · exact trivial
  · exact trivial
  · exact trivial
  · exact ⟨pairSchema, rfl, ⟨rfl, trivial⟩, by decide⟩

theorem chain_closed : chain.Closed := by
  intro name fields h
  obtain ⟨-, rfl⟩ | ⟨-, rfl⟩ | ⟨-, rfl⟩ := chain_layout? h
  · simp [linkLayout, Catalogue.Knows, Shape.names]
    exact ⟨_, rfl⟩
  · simp [frameLayout, Catalogue.Knows, Shape.names]
    exact ⟨⟨_, rfl⟩, ⟨_, rfl⟩, ⟨_, rfl⟩⟩
  · simp [pairLayout, Catalogue.Knows, Shape.names]
    exact ⟨_, rfl⟩

/-- Only the frame holds anything inline. -/
theorem chain_grounded : chain.Grounded := by
  refine .of_rank (fun name => if name = "Frame" then 1 else 0) ?_
  rintro name other ⟨fields, h, hbytes, field, hfield, hpresence, hother⟩
  obtain ⟨-, rfl⟩ | ⟨rfl, rfl⟩ | ⟨-, rfl⟩ := chain_layout? h
  · cases hbytes
  · simp only [frameLayout, List.mem_cons, List.not_mem_nil, or_false] at hfield
    obtain rfl | rfl | rfl := hfield
    · cases hother
      decide
    · cases hother
    · cases hother
      decide
  · cases hbytes

theorem chain_distinct : chain.Distinct := by
  intro name e h
  have hmem := Catalogue.mem_of_get? h
  simp only [chain, List.mem_cons, Prod.mk.injEq, Definition.enumeration.injEq, reduceCtorEq,
    and_false, List.not_mem_nil, or_false] at hmem
  obtain ⟨-, rfl⟩ := hmem
  decide

/-- A chain of two links, of which the first has something in its cache. -/
def linkValue : Value :=
  .record [.int 7, .present (.record [.int (-1), .null, .list []]), .list [.int 3]]

/-- A frame with one chain in it. -/
def frameValue : Value :=
  .record [.variant 2, .entries [(.int 5, linkValue)], .record [.int 1, .present (.list [.text "a"]),
    .variant 1]]

/-- The bytes of the links. -/
def linkBytes : List UInt8 := [0, 7, 0, 0, 0, 1, 255, 255, 255, 255]

/-- The bytes of the frame. -/
def frameBytes : List UInt8 :=
  [2, 1, 0, 0, 0, 5, 0, 7, 0, 0, 0, 1, 255, 255, 255, 255, 0, 1, 1, 0, 0, 0, 1, 0, 0, 0, 97, 1]

theorem hasShape_linkValue {catalogue : Catalogue}
    (hlink : catalogue.layout? "Link" = some linkLayout) :
    catalogue.HasShape (.named "Link") linkValue := by
  refine .record hlink rfl (by simp [linkLayout, FieldLayout.Takes]) ?_
  simp only [linkLayout, List.zip_cons_cons, List.zip_nil_left, List.forall_mem_cons,
    FieldLayout.content?, Option.some.injEq, forall_eq', reduceCtorEq, false_implies,
    List.not_mem_nil, implies_true, and_true]
  refine ⟨.leaf rfl, .boxed (.record hlink rfl (by simp [linkLayout, FieldLayout.Takes]) ?_)⟩
  simp only [linkLayout, List.zip_cons_cons, List.zip_nil_left, List.forall_mem_cons,
    FieldLayout.content?, Option.some.injEq, forall_eq', reduceCtorEq, false_implies,
    List.not_mem_nil, implies_true, and_true]
  exact .leaf rfl

theorem linkValue_hasShape : chain.HasShape (.named "Link") linkValue := hasShape_linkValue rfl

theorem frameValue_hasShape : chain.HasShape (.named "Frame") frameValue := by
  have hframe : chain.layout? "Frame" = some frameLayout := rfl
  have hpair : chain.layout? "Pair" = some pairLayout := rfl
  refine .record hframe rfl (by simp [frameLayout, FieldLayout.Takes]) ?_
  simp only [frameLayout, List.zip_cons_cons, List.zip_nil_left, List.forall_mem_cons,
    FieldLayout.content?, Option.some.injEq, forall_eq', List.not_mem_nil, false_implies,
    implies_true, and_true]
  refine ⟨.variant (e := tint) (v := ⟨"Green", 2⟩) rfl (by decide), .mapping ?_ ?_, .boxed ?_⟩
  · simp only [List.forall_mem_cons, List.not_mem_nil, false_implies, implies_true, and_true]
    exact .leaf rfl
  · simp only [List.forall_mem_cons, List.not_mem_nil, false_implies, implies_true, and_true]
    exact linkValue_hasShape
  · refine .record hpair rfl (by simp [pairLayout, FieldLayout.Takes]) ?_
    simp only [pairLayout, List.zip_cons_cons, List.zip_nil_left, List.forall_mem_cons,
      FieldLayout.content?, Option.some.injEq, forall_eq', List.not_mem_nil, false_implies,
      implies_true, and_true]
    refine ⟨.leaf rfl, .sequence ?_, chain_hasTint⟩
    simp only [List.forall_mem_cons, List.not_mem_nil, false_implies, implies_true, and_true]
    exact .leaf trivial

end Samples

end Wireform
