import Wireform.Derive.Expansion.Decode
import Wireform.Derive.Expansion.Encode
import Wireform.Proofs.Analysis
import Wireform.Proofs.Reads
import Wireform.Proofs.Sizes

/-!
# Derived enumerations

A variant is written as its discriminant, cast to the enumeration's width, and the reader compares
what it reads with the cast discriminants.  So an enumeration round-trips exactly if no two of its
discriminants are cast to one integer (`Enumeration.roundTrips_iff`).

A width that an item gives is the type of its discriminants too, and then casting changes nothing.
An item that gives none has discriminants of type `isize` and is written in four bytes.  These need
not hold them: two variants that differ by a multiple of `2 ^ 32` are written alike, and the later
one is read back as the earlier one (`Derive.wide_discriminants_collide`).  So there the casts have to
be known to be distinct (`Derive.derived_enum_round_trips`).
-/
namespace Wireform

open Schema (IntRepr)

namespace Enumeration

/-! ## 1. Casts -/

/-- What a variant is on the wire. -/
def bytesOf (e : Enumeration) (v : Variant) : List UInt8 :=
  e.repr.format.encode (e.repr.format.wrap v.discriminant)

/-- No two variants are cast to one integer. -/
def CastsApart (e : Enumeration) : Prop :=
  e.variants.Pairwise fun a b =>
    e.repr.format.wrap a.discriminant ≠ e.repr.format.wrap b.discriminant

/-- Every variant takes just the width and is read back from its bytes wherever they stand; different
variants have different bytes; and an integer of the width that is on the wire for no variant is
reported, behind it. -/
structure RoundTrips (e : Enumeration) : Prop where
  size : ∀ v ∈ e.variants, e.codec.size v.discriminant = e.repr.size ∧
    (e.bytesOf v).length = e.repr.size
  encodes : ∀ v ∈ e.variants, e.codec.encode e.name v.discriminant = .ok (e.bytesOf v)
  reads : ∀ v ∈ e.variants, ∀ buffer cursor, HoldsAt buffer cursor (e.bytesOf v) →
    e.codec.read buffer cursor = .ok v.discriminant (cursor + e.repr.size)
  apart : e.variants.Pairwise fun v w => e.bytesOf v ≠ e.bytesOf w
  rejects : ∀ n, e.repr.contains n = true → (∀ v ∈ e.variants, e.bytesOf v ≠ e.repr.format.encode n) →
    ∀ buffer cursor, HoldsAt buffer cursor (e.repr.format.encode n) →
      e.codec.read buffer cursor =
        .error (.wire (.unknownDiscriminant (IntFormat.i64.wrap n) e.name)) (cursor + e.repr.size)

variable {e : Enumeration}

/-- The bytes of a variant stand for its cast discriminant. -/
theorem decode_bytesOf (v : Variant) :
    e.repr.format.decode (e.bytesOf v) = e.repr.format.wrap v.discriminant := by
  rw [bytesOf, IntFormat.decode_encode, IntFormat.wrap_wrap]

/-- Variants have the same bytes if and only if they are cast to one integer. -/
theorem bytesOf_eq_iff {v w : Variant} : e.bytesOf v = e.bytesOf w ↔
    e.repr.format.wrap v.discriminant = e.repr.format.wrap w.discriminant := by
  constructor
  · intro h
    rw [← decode_bytesOf, h, decode_bytesOf]
  · intro h
    rw [bytesOf, h, bytesOf]

/-- An integer that no variant is cast to is reported, behind it. -/
theorem read_unknown {n : Int} (hcontains : e.repr.contains n = true)
    (hnone : ∀ v ∈ e.variants, e.bytesOf v ≠ e.repr.format.encode n) {buffer : Buffer} {cursor : Nat}
    (hholds : HoldsAt buffer cursor (e.repr.format.encode n)) :
    e.codec.read buffer cursor =
      .error (.wire (.unknownDiscriminant (IntFormat.i64.wrap n) e.name)) (cursor + e.repr.size) := by
  have hint := (Reader.yields_readInt e.repr.size_pos n buffer cursor).whole hholds
  rw [IntFormat.wrap_of_contains hcontains, IntFormat.length_encode] at hint
  have hfound : e.variantOf? n = none := by
    refine List.find?_eq_none.mpr fun v hv hcast => hnone v hv ?_
    rw [bytesOf, beq_iff_eq.mp hcast]
  show e.read buffer cursor = _
  unfold read
  rw [Reader.bind_of_ok hint, hfound]
  rfl

/-- **An enumeration round-trips exactly if its casts are apart.** -/
theorem roundTrips_iff : e.RoundTrips ↔ e.CastsApart := by
  constructor
  · exact fun h => h.apart.imp fun hne heq => hne (bytesOf_eq_iff.mpr heq)
  · intro h
    have hlength : ∀ v, (e.bytesOf v).length = e.repr.size := fun v => IntFormat.length_encode _ _
    refine ⟨fun v _ => ⟨rfl, hlength v⟩, fun v _ => ?_, fun v hv buffer cursor hholds => ?_, ?_,
      fun n hcontains hnone buffer cursor hholds => read_unknown hcontains hnone hholds⟩
    · exact (Codec.writes_enumeration e v.discriminant).encode_eq trivial e.name
    · have hread := ((Codec.reads_enumeration (Codec.variantOf?_wrap h hv)).read buffer cursor).whole hholds
      rw [← hlength v]
      exact hread
    · exact h.imp fun hne heq => hne (bytesOf_eq_iff.mp heq)

end Enumeration

namespace Samples

open Derive (Item)

/-- An enumeration with three variants that names no width. -/
def gradeItem : Item :=
  ⟨"Grade", [], ⟨[], false⟩, [], .enum [⟨"Low", .unit⟩, ⟨"High", .unit⟩, ⟨"Higher", .unit⟩]⟩

/-- The variants of a grade. -/
def grades : List Variant := [⟨"Low", 0⟩, ⟨"High", 10⟩, ⟨"Higher", 11⟩]

/-- An enumeration with two variants that names no width. -/
def farItem : Item := ⟨"Far", [], ⟨[], false⟩, [], .enum [⟨"Near", .unit⟩, ⟨"Away", .unit⟩]⟩

/-- Two variants of which four bytes do not hold the second. -/
def fars : List Variant := [⟨"Near", 0⟩, ⟨"Away", 4294967296⟩]

end Samples

namespace Derive

open Samples

/-! ## 2. Items -/

/-- The integers that discriminants can be, given the width that an item names: those of the width,
or else those of `isize`. -/
def discriminantFormat (width : Option IntRepr) : IntFormat :=
  (width.map IntRepr.format).getD .i64

/-- A check of every item that gives a function of the item gives the function of each. -/
theorem mapM_eq_map {ε α β : Type} {check : α → Except ε β} {f : α → β}
    (hcheck : ∀ item result, check item = .ok result → result = f item) {items : List α}
    {results : List β} (h : items.mapM check = .ok results) : results = items.map f := by
  induction items generalizing results with
  | nil =>
    cases h
    rfl
  | cons item items ih =>
    rw [List.mapM_cons] at h
    obtain ⟨first, hfirst, h⟩ := Schema.bind_eq_ok h
    obtain ⟨rest, hrest, h⟩ := Schema.bind_eq_ok h
    cases h
    rw [List.map_cons, hcheck item first hfirst, ih hrest]

/-- Variants without data leave their names, in their order. -/
theorem unitVariants_eq_ok {container : String} {items : List VariantItem} {names : List String}
    (h : unitVariants container items = .ok names) : names = items.map VariantItem.name := by
  unfold unitVariants at h
  split at h
  · cases h
  · refine mapM_eq_map (fun item name hname => ?_) h
    split at hname
    · cases hname
      rfl
    · cases hname

/-- The width that an item names is that of its enumeration. -/
theorem enumRepr_eq {attributes : List Attribute} {width : Option IntRepr}
    (h : reprOfLists (argumentsOf "repr" attributes) = .ok width) :
    enumRepr attributes = .ok (width.getD IntRepr.default) := by
  unfold enumRepr
  rw [h]
  rfl

/-- **Casting to a width that is named keeps discriminants apart**, since it is the width that they
have. -/
theorem castsApart_of_named {name : String} {repr : IntRepr} {variants : List Variant}
    (hdistinct : (variants.map Variant.discriminant).Nodup)
    (hlegal : ∀ v ∈ variants, repr.format.contains v.discriminant = true) :
    (Enumeration.mk name repr variants).CastsApart := by
  have hpairwise := List.pairwise_map.mp hdistinct
  refine hpairwise.imp_of_mem fun hv hw hne hcast => hne ?_
  rwa [IntFormat.wrap_of_contains (hlegal _ hv), IntFormat.wrap_of_contains (hlegal _ hw)] at hcast

/-- **A derived enumeration round-trips**, with the width that its item names, or with four bytes if
it names none and its discriminants are cast to different integers of four bytes. -/
theorem derived_enum_round_trips {item : Item} {items : List VariantItem} {width : Option IntRepr}
    {encoder decoder : List Token} {variants : List Variant}
    (hkind : item.kind = .enum items)
    (hencode : expandEncode item = .ok encoder) (hdecode : expandDecode item = .ok decoder)
    (hwidth : reprOfLists (argumentsOf "repr" item.attributes) = .ok width)
    (hnames : variants.map Variant.name = items.map VariantItem.name)
    (hdistinct : (variants.map Variant.discriminant).Nodup)
    (hlegal : ∀ v ∈ variants, (discriminantFormat width).contains v.discriminant = true)
    (hcasts : width = none →
      (variants.map fun v => IntFormat.i32.wrap v.discriminant).Nodup) :
    ∃ repr, enumRepr item.attributes = .ok repr ∧
      encoder = item.implementation encoderTrait
        (encodeEnum (.word repr.name) (variants.map Variant.name)) ∧
      decoder = item.implementation decoderTrait
        (decodeEnum item.name (.word repr.name) (variants.map Variant.name)) ∧
      (Enumeration.mk item.name repr variants).RoundTrips := by
  have hrepr := enumRepr_eq hwidth
  have hapart : (Enumeration.mk item.name (width.getD IntRepr.default) variants).CastsApart := by
    cases width with
    | some repr => exact castsApart_of_named hdistinct hlegal
    | none => exact List.pairwise_map.mp (hcasts rfl)
  refine ⟨_, hrepr, ?_, ?_, Enumeration.roundTrips_iff.mpr hapart⟩
  · unfold expandEncode at hencode
    rw [hkind] at hencode
    obtain ⟨names, hunit, hencode⟩ := Schema.bind_eq_ok hencode
    rw [hrepr] at hencode
    cases hencode
    rw [unitVariants_eq_ok hunit, hnames]
  · unfold expandDecode at hdecode
    rw [hkind] at hdecode
    obtain ⟨names, hunit, hdecode⟩ := Schema.bind_eq_ok hdecode
    rw [hrepr] at hdecode
    cases hdecode
    rw [unitVariants_eq_ok hunit, hnames]

/-- Grades round-trip in four bytes. -/
theorem derived_enum_round_trips_grade :
    (gradeItem.kind = .enum [⟨"Low", .unit⟩, ⟨"High", .unit⟩, ⟨"Higher", .unit⟩] ∧
      (grades.map Variant.discriminant).Nodup ∧
      (∀ v ∈ grades, (discriminantFormat none).contains v.discriminant = true) ∧
      (grades.map fun v => IntFormat.i32.wrap v.discriminant).Nodup) ∧
    ∃ repr, enumRepr gradeItem.attributes = .ok repr ∧
      (Enumeration.mk "Grade" repr grades).RoundTrips := by
  have hkind : gradeItem.kind = .enum [⟨"Low", .unit⟩, ⟨"High", .unit⟩, ⟨"Higher", .unit⟩] := rfl
  have hdistinct : (grades.map Variant.discriminant).Nodup := by decide
  have hlegal : ∀ v ∈ grades, (discriminantFormat none).contains v.discriminant = true := by decide
  have hcasts : (grades.map fun v => IntFormat.i32.wrap v.discriminant).Nodup := by decide
  obtain ⟨repr, hrepr, -, -, htrips⟩ := derived_enum_round_trips hkind rfl rfl rfl
    (rfl : grades.map Variant.name = ["Low", "High", "Higher"]) hdistinct hlegal fun _ => hcasts
  exact ⟨⟨hkind, hdistinct, hlegal, hcasts⟩, repr, hrepr, htrips⟩

/-- **Without a width, discriminants that four bytes do not hold collide**: both variants are written
as four zeros, and these are read as the first. -/
theorem wide_discriminants_collide :
    ((∃ encoder, expandEncode farItem = .ok encoder) ∧ (∃ decoder, expandDecode farItem = .ok decoder) ∧
      enumRepr farItem.attributes = .ok .i32 ∧ (fars.map Variant.discriminant).Nodup ∧
      ∀ v ∈ fars, (discriminantFormat none).contains v.discriminant = true) ∧
    (Enumeration.mk "Far" .i32 fars).codec.encode "Far" 0 = .ok [0, 0, 0, 0] ∧
    (Enumeration.mk "Far" .i32 fars).codec.encode "Far" 4294967296 = .ok [0, 0, 0, 0] ∧
    (Enumeration.mk "Far" .i32 fars).codec.read [0, 0, 0, 0] 0 = .ok 0 4 ∧
    ¬(Enumeration.mk "Far" .i32 fars).RoundTrips := by
  refine ⟨⟨⟨_, rfl⟩, ⟨_, rfl⟩, rfl, by decide, by decide⟩, rfl, rfl, rfl, ?_⟩
  intro htrips
  have hapart := Enumeration.roundTrips_iff.mp htrips
  exact absurd hapart (by unfold Enumeration.CastsApart; decide)

end Derive

end Wireform
