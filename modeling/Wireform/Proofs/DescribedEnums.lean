import Wireform.Proofs.Described
import Wireform.Proofs.Discriminants
import Wireform.Proofs.Enumerations

/-!
# Described enumerations

A discriminant is seen in three ways.  The derived encoder casts it to the width of the enumeration,
which changes nothing, since the width holds it.  The declaration has it cast to a signed integer of
eight bytes, and the validation asks whether the width holds that.  The two casts agree as long as the
discriminant is less than `2 ^ 63` (`IntFormat.i64_wrap_eq_iff`).  From there on, where only unsigned
integers of eight bytes get, the declaration has a negative value, and no unsigned width holds it
(`Schema.IntRepr.contains_wrap_iff`).

So the declaration of an enumeration is accepted exactly if its variants have plain names and
discriminants less than `2 ^ 63`; and what is generated from it then writes what the derived encoder
writes (`Derive.described_enum_accepted_iff`).
-/
namespace Wireform

namespace Samples

/-- An enumeration of unsigned integers of eight bytes, with two variants. -/
def stampItem : Derive.Item :=
  ⟨"Stamp", [⟨[.word "repr"], [.leaf (.word "u64") false]⟩], ⟨[], false⟩, [],
    .enum [⟨"First", .unit⟩, ⟨"Last", .unit⟩]⟩

/-- Stamps with the greatest discriminant that is described as it is. -/
def stamps : List Variant := [⟨"First", 0⟩, ⟨"Last", 9223372036854775807⟩]

/-- Stamps with the least discriminant that is not. -/
def farStamps : List Variant := [⟨"First", 0⟩, ⟨"Last", 9223372036854775808⟩]

end Samples

namespace IntFormat

/-! ## 1. Casts to signed integers of eight bytes -/

/-- The cast keeps just the integers that are less than `2 ^ 63`, of those that eight bytes can
hold. -/
theorem i64_wrap_eq_iff {n : Int} (hlow : -2 ^ 63 ≤ n) (hhigh : n < 2 ^ 64) :
    i64.wrap n = n ↔ n < 2 ^ 63 := by
  have hmodulus : i64.modulus = 2 ^ 64 := rfl
  constructor
  · intro hkept
    have hlt := @Int.bmod_lt n i64.modulus (by omega)
    change n.bmod i64.modulus = n at hkept
    omega
  · exact fun hlt => Int.bmod_eq_of_le (by omega) (by omega)

/-- All others become negative. -/
theorem i64_wrap_neg {n : Int} (hlow : 2 ^ 63 ≤ n) (hhigh : n < 2 ^ 64) : i64.wrap n < 0 := by
  have hmodulus : i64.modulus = 2 ^ 64 := rfl
  exact (Int.bmod_neg_iff (by omega) (by omega)).mpr (.inr (by omega))

end IntFormat

namespace Schema

/-- Eight bytes hold whatever a width holds. -/
theorem IntRepr.bounds_of_contains {repr : IntRepr} {n : Int} (h : repr.contains n = true) :
    -2 ^ 63 ≤ n ∧ n < 2 ^ 64 := by
  cases repr <;>
    simp [IntRepr.contains, IntRepr.format, IntFormat.contains, IntFormat.least, IntFormat.greatest,
      IntFormat.modulus, IntFormat.u8, IntFormat.i8, IntFormat.u16, IntFormat.i16, IntFormat.u32,
      IntFormat.i32, IntFormat.u64, IntFormat.i64] at h <;>
    omega

/-- Only an unsigned width holds an integer from `2 ^ 63` on, and it holds no negative one. -/
theorem IntRepr.nonneg_of_contains_large {repr : IntRepr} {large n : Int} (hlow : 2 ^ 63 ≤ large)
    (hlarge : repr.contains large = true) (h : repr.contains n = true) : 0 ≤ n := by
  cases repr <;>
    simp [IntRepr.contains, IntRepr.format, IntFormat.contains, IntFormat.least, IntFormat.greatest,
      IntFormat.modulus, IntFormat.u8, IntFormat.i8, IntFormat.u16, IntFormat.i16, IntFormat.u32,
      IntFormat.i32, IntFormat.u64, IntFormat.i64] at h hlarge <;>
    omega

/-- A width that holds an integer holds its cast to a signed integer of eight bytes only if the cast
keeps it. -/
theorem IntRepr.contains_wrap_iff {repr : IntRepr} {n : Int} (h : repr.contains n = true) :
    repr.contains (IntFormat.i64.wrap n) = true ↔ n < 2 ^ 63 := by
  obtain ⟨hlow, hhigh⟩ := IntRepr.bounds_of_contains h
  constructor
  · intro hcast
    -- An integer this large is held by an unsigned width only, but its cast is negative.
    by_contra hlarge
    have hneg := IntFormat.i64_wrap_neg (by omega) hhigh
    have hnonneg := IntRepr.nonneg_of_contains_large (by omega) h hcast
    omega
  · intro hlt
    rwa [(IntFormat.i64_wrap_eq_iff hlow hhigh).mpr hlt]

end Schema

namespace Derive

open Schema (EnumDecl IntRepr validateEnum)

/-! ## 2. Enumerations in source text -/

variable {item : Item} {repr : IntRepr} {variants : List Variant}

/-- An item that is an enumeration of variants with discriminants.  Their names can stand in source
text and are different even where the mark of raw identifiers is left out; their discriminants are
different integers of the width. -/
structure Item.Enumerates (item : Item) (repr : IntRepr) (variants : List Variant) : Prop where
  kind : ∃ items, item.kind = .enum items ∧
    items.map VariantItem.name = variants.map Variant.name
  width : enumRepr item.attributes = .ok repr
  identifiers : ∀ v ∈ variants, IsItemName v.name
  names : (variants.map fun v => bareChars v.name).Nodup
  discriminants : (variants.map Variant.discriminant).Nodup
  fits : ∀ v ∈ variants, repr.contains v.discriminant = true

/-- An enumeration without variants is not derived. -/
theorem nonempty_of_unitVariants {container : String} {items : List VariantItem}
    {names : List String} (h : unitVariants container items = .ok names) : items ≠ [] := by
  unfold unitVariants at h
  split at h
  · cases h
  · next hnonempty => simpa using hnonempty

/-- What is derived for an enumeration is made from its width and the names of its variants, of which
there is at least one. -/
theorem Item.Enumerates.derived {encoder tokens : List Token} (h : item.Enumerates repr variants)
    (hencode : expandEncode item = .ok encoder) (hschema : expandSchema item = .ok tokens) :
    variants ≠ [] ∧
      encoder = item.implementation encoderTrait
        (encodeEnum (.word repr.name) (variants.map Variant.name)) ∧
      tokens = item.describing (enumDeclaration item.name repr (variants.map Variant.name)) := by
  obtain ⟨items, hkind, hnames⟩ := h.kind
  unfold expandEncode at hencode
  unfold expandSchema at hschema
  rw [hkind] at hencode hschema
  obtain ⟨names, hunit, hencode⟩ := Schema.bind_eq_ok hencode
  dsimp only at hschema
  rw [hunit] at hschema
  rw [h.width] at hencode hschema
  cases hencode
  cases hschema
  rw [unitVariants_eq_ok hunit, hnames]
  refine ⟨fun hnil => nonempty_of_unitVariants hunit ?_, rfl, rfl⟩
  simpa [hnil] using hnames

/-! ## 3. Their declarations -/

/-- The value of a variant in a declaration is its discriminant exactly if that is less than
`2 ^ 63`. -/
theorem Item.Enumerates.value_eq_iff (h : item.Enumerates repr variants) {v : Variant}
    (hv : v ∈ variants) : v.declare.value = v.discriminant ↔ v.discriminant < 2 ^ 63 := by
  obtain ⟨hlow, hhigh⟩ := IntRepr.bounds_of_contains (h.fits v hv)
  exact IntFormat.i64_wrap_eq_iff hlow hhigh

/-- The declaration is well-formed exactly if all names are plain and all discriminants less than
`2 ^ 63`. -/
theorem Item.Enumerates.wellFormed_iff (h : item.Enumerates repr variants)
    (hnonempty : variants ≠ []) (name : String) :
    EnumDecl.WellFormed ⟨name, repr, variants.map Variant.declare⟩ ↔
      ∀ v ∈ variants, IsPlainName v.name ∧ v.discriminant < 2 ^ 63 := by
  constructor
  · intro hwell v hv
    have hmem : v.declare ∈ variants.map Variant.declare := List.mem_map_of_mem hv
    exact ⟨(h.identifiers v hv).isIdentifier_iff.mp (hwell.identifiers _ hmem),
      (IntRepr.contains_wrap_iff (h.fits v hv)).mp (hwell.fits _ hmem)⟩
  · intro hall
    have hvalue : ∀ v ∈ variants, v.declare.value = v.discriminant :=
      fun v hv => (h.value_eq_iff hv).mpr (hall v hv).2
    refine ⟨by simpa using hnonempty, ?_, ?_, ?_, ?_⟩
    · exact List.forall_mem_map.mpr fun v hv => (h.identifiers v hv).isIdentifier_iff.mpr (hall v hv).1
    · have hnames : (variants.map Variant.name).Nodup := by
        refine List.Nodup.of_map bareChars ?_
        rw [List.map_map]
        exact h.names
      rw [List.map_map]
      exact hnames
    · rw [List.map_map]
      change (variants.map fun v => v.declare.value).Nodup
      rw [List.map_congr_left hvalue]
      exact h.discriminants
    · exact List.forall_mem_map.mpr fun v hv =>
        (IntRepr.contains_wrap_iff (h.fits v hv)).mpr (hall v hv).2

/-- The enumeration that the declaration gives is the one that it describes, if it has the
discriminants. -/
theorem ofDecl_declare {name : String} (hvalue : ∀ v ∈ variants, v.declare.value = v.discriminant) :
    Enumeration.ofDecl ⟨name, repr, variants.map Variant.declare⟩ = ⟨name, repr, variants⟩ := by
  have hsame : ∀ v ∈ variants, (⟨v.declare.name, v.declare.value⟩ : Variant) = v := by
    intro v hv
    rw [hvalue v hv]
    rfl
  have hmap : (variants.map Variant.declare).map (fun v => (⟨v.name, v.value⟩ : Variant))
      = variants := by
    rw [List.map_map]
    exact (List.map_congr_left hsame).trans (List.map_id _)
  rw [Enumeration.ofDecl, hmap]

/-- The derived encoder writes a variant as its discriminant. -/
theorem Item.Enumerates.encode_eq (h : item.Enumerates repr variants) {v : Variant}
    (hv : v ∈ variants) :
    (Enumeration.mk item.name repr variants).codec.encode item.name v.discriminant
      = .ok (repr.format.encode v.discriminant) := by
  have hwrites := Codec.writes_enumeration ⟨item.name, repr, variants⟩ v.discriminant
  rw [hwrites.encode_eq trivial item.name]
  dsimp only
  rw [IntFormat.wrap_of_contains (h.fits v hv)]

/-! ## 4. Acceptance -/

/-- **The declaration of a derived enumeration is accepted exactly if its variants have plain names
and discriminants less than `2 ^ 63`.**  It has the enumeration's width, and lists the variants in
their order.  The derived encoder writes each variant as its discriminant; this is the variant's value
exactly if it is less than `2 ^ 63`.  From a declaration that is accepted the enumeration itself is
generated, and each variant is written as by the derived encoder. -/
theorem described_enum_accepted_iff {encoder tokens : List Token}
    (h : item.Enumerates repr variants) (hencode : expandEncode item = .ok encoder)
    (hschema : expandSchema item = .ok tokens) :
    encoder = item.implementation encoderTrait
      (encodeEnum (.word repr.name) (variants.map Variant.name)) ∧
    tokens = item.describing (enumDeclaration item.name repr (variants.map Variant.name)) ∧
    (∀ v ∈ variants, (Enumeration.mk item.name repr variants).codec.encode item.name v.discriminant
      = .ok (repr.format.encode v.discriminant)) ∧
    ∃ decl : EnumDecl,
      (∀ tag, (Definition.enumeration ⟨item.name, repr, variants⟩).declare? item.name tag
        = some (.enum decl)) ∧
      decl.repr = repr ∧ decl.variants = variants.map Variant.declare ∧
      (∀ v ∈ variants, v.declare.value = v.discriminant ↔ v.discriminant < 2 ^ 63) ∧
      (validateEnum decl = .ok () ↔
        ∀ v ∈ variants, IsPlainName v.name ∧ v.discriminant < 2 ^ 63) ∧
      (validateEnum decl = .ok () →
        Enumeration.ofDecl decl = ⟨item.name, repr, variants⟩ ∧
        ∀ v ∈ variants, (Enumeration.ofDecl decl).generated.encode item.name v
          = (Enumeration.mk item.name repr variants).codec.encode item.name v.discriminant) := by
  obtain ⟨hnonempty, hencoder, htokens⟩ := h.derived hencode hschema
  have haccepted := h.wellFormed_iff hnonempty item.name
  rw [← Schema.validateEnum_eq_ok_iff] at haccepted
  refine ⟨hencoder, htokens, fun v hv => h.encode_eq hv, _, fun tag => rfl, rfl, rfl,
    fun v hv => h.value_eq_iff hv, haccepted, ?_⟩
  intro hvalid
  have hsmall := haccepted.mp hvalid
  have hsame : Enumeration.ofDecl ⟨item.name, repr, variants.map Variant.declare⟩
      = ⟨item.name, repr, variants⟩ :=
    ofDecl_declare fun v hv => (h.value_eq_iff hv).mpr (hsmall v hv).2
  have hexact : (Enumeration.mk item.name repr variants).IsExact :=
    Enumeration.isExact h.discriminants h.fits
  rw [hsame]
  refine ⟨rfl, fun v hv => ?_⟩
  rw [h.encode_eq hv]
  exact (hexact.writes v hv).1

theorem stamp_names : ∀ name ∈ ["First", "Last"], IsItemName name ∧ IsPlainName name := by
  have hidentifier : ∀ name ∈ ["First", "Last"],
      Schema.isIdentifier name = true ∧ name ∉ keywords := by decide
  intro name hname
  have hitem := isItemName_of_isIdentifier (hidentifier name hname).1 (hidentifier name hname).2
  exact ⟨hitem, hitem.isIdentifier_iff.mp (hidentifier name hname).1⟩

/-- Stamps are enumerated, whatever different discriminants the two variants have. -/
theorem enumerates_stampItem {first last : Int} (hne : first ≠ last)
    (hfirst : IntRepr.contains .u64 first = true) (hlast : IntRepr.contains .u64 last = true) :
    Samples.stampItem.Enumerates .u64 [⟨"First", first⟩, ⟨"Last", last⟩] := by
  refine ⟨⟨_, rfl, rfl⟩, rfl, ?_, ?_, ?_, ?_⟩
  · exact fun v hv => (stamp_names v.name (List.mem_map_of_mem hv)).1
  · change (["First", "Last"].map bareChars).Nodup
    decide
  · simpa using hne
  · simpa using ⟨hfirst, hlast⟩

theorem described_enum_accepted_iff_stamps :
    Samples.stampItem.Enumerates .u64 Samples.stamps ∧
      validateEnum ⟨"Stamp", .u64, [⟨"First", 0⟩, ⟨"Last", 9223372036854775807⟩]⟩ = .ok () := by
  have hstamps : Samples.stampItem.Enumerates .u64 Samples.stamps :=
    enumerates_stampItem (by decide) (by decide) (by decide)
  have hexpand : ∃ encoder tokens, expandEncode Samples.stampItem = .ok encoder ∧
      expandSchema Samples.stampItem = .ok tokens := ⟨_, _, rfl, rfl⟩
  obtain ⟨encoder, tokens, hencode, hschema⟩ := hexpand
  obtain ⟨-, -, -, decl, hdecl, -, -, -, haccepted, -⟩ :=
    described_enum_accepted_iff hstamps hencode hschema
  have hsame : decl = ⟨"Stamp", .u64, [⟨"First", 0⟩, ⟨"Last", 9223372036854775807⟩]⟩ :=
    (Schema.TypeDecl.enum.inj (Option.some.inj (hdecl none))).symm
  subst hsame
  have hplain : ∀ v ∈ Samples.stamps, IsPlainName v.name :=
    fun v hv => (stamp_names v.name (List.mem_map_of_mem hv)).2
  have hsmall : ∀ v ∈ Samples.stamps, v.discriminant < 2 ^ 63 := by decide
  exact ⟨hstamps, haccepted.mpr fun v hv => ⟨hplain v hv, hsmall v hv⟩⟩

/-- **A discriminant from `2 ^ 63` on is described as a negative value, and then refused**, though the
derived encoder writes it. -/
theorem far_stamps_refused :
    Samples.stampItem.Enumerates .u64 Samples.farStamps ∧
      (∃ encoder, expandEncode Samples.stampItem = .ok encoder) ∧
      (∃ tokens, expandSchema Samples.stampItem = .ok tokens) ∧
      (∀ v ∈ Samples.farStamps, IsPlainName v.name) ∧
      (Enumeration.mk "Stamp" .u64 Samples.farStamps).codec.encode "Stamp" 9223372036854775808
        = .ok [0, 0, 0, 0, 0, 0, 0, 128] ∧
      (∀ tag, (Definition.enumeration ⟨"Stamp", .u64, Samples.farStamps⟩).declare? "Stamp" tag
        = some (.enum ⟨"Stamp", .u64, [⟨"First", 0⟩, ⟨"Last", -9223372036854775808⟩]⟩)) ∧
      validateEnum ⟨"Stamp", .u64, [⟨"First", 0⟩, ⟨"Last", -9223372036854775808⟩]⟩ ≠ .ok () := by
  have hstamps : Samples.stampItem.Enumerates .u64 Samples.farStamps :=
    enumerates_stampItem (by decide) (by decide) (by decide)
  refine ⟨hstamps, ⟨_, rfl⟩, ⟨_, rfl⟩,
    fun v hv => (stamp_names v.name (List.mem_map_of_mem hv)).2, rfl, fun tag => rfl, ?_⟩
  intro hvalid
  have hfits := (Schema.validateEnum_eq_ok_iff.mp hvalid).fits
  exact absurd hfits (by decide)

end Derive

end Wireform
