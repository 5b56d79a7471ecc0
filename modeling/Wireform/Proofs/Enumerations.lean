import Wireform.Emit.Enumeration
import Wireform.Proofs.Known
import Wireform.Proofs.Sizes
import Wireform.Proofs.Reads
import Wireform.Proofs.Tags
import Wireform.Schema.Analysis
import Wireform.Schema.Lowering

/-!
# Generated enumerations

An enumeration passes the validation exactly if it is `WellFormed`: it has variants, their names are
identifiers and differ, and their values differ and fit the width.

The generated decoder is a match over the integer that is read.  Its arms are kept apart from their
text here (`Arm`, `variantArms_eq`), so that it can be said what the match does: the first arm whose
literal is the integer decides (`matched?`).  The codec of a catalogue compares cast discriminants
instead; where all literals fit the width both are the same (`map_readMatched`).  For a well-formed
enumeration the generated codec is exact (`generated_enum_exact`).
-/
namespace Wireform.Schema

/-! ## 1. Well-formed enumerations -/

/-- An enumeration that can be generated. -/
structure EnumDecl.WellFormed (decl : EnumDecl) : Prop where
  nonempty : decl.variants ≠ []
  identifiers : ∀ variant ∈ decl.variants, isIdentifier variant.name = true
  names : (decl.variants.map VariantDecl.name).Nodup
  values : (decl.variants.map VariantDecl.value).Nodup
  fits : ∀ variant ∈ decl.variants, decl.repr.contains variant.value = true

/-- A variant passes exactly if its name is a new identifier, and its value is new and fits. -/
theorem checkVariant_eq_ok_iff {decl : EnumDecl} {variant : VariantDecl}
    {seen next : Std.HashSet String × Std.HashSet Int} :
    checkVariant decl seen variant = .ok next ↔
      isIdentifier variant.name = true ∧ variant.name ∉ seen.1 ∧ variant.value ∉ seen.2 ∧
        decl.repr.contains variant.value = true ∧
          next = (seen.1.insert variant.name, seen.2.insert variant.value) := by
  constructor
  · intro h
    obtain ⟨_, hname, h⟩ := bind_eq_ok h
    dsimp only at h
    split at h
    · cases h
    · next hnew =>
      split at h
      · cases h
      · next hvalue =>
        split at h
        · cases h
        · next hfits =>
          cases h
          simp only [Bool.not_eq_true', Bool.not_eq_false] at hfits
          exact ⟨checkName_eq_ok_iff.mp hname, hnew, hvalue, hfits, rfl⟩
  · rintro ⟨hname, hnew, hvalue, hfits, rfl⟩
    simp [checkVariant, checkName_eq_ok_iff.mpr hname, hnew, hvalue, hfits, bind, Except.bind, pure,
      Except.pure]

/-- Variants pass one after the other exactly if each would pass alone, and their names and their
values differ. -/
theorem exists_foldlM_checkVariant_iff (decl : EnumDecl) (variants : List VariantDecl)
    (seen : Std.HashSet String × Std.HashSet Int) :
    (∃ last, variants.foldlM (checkVariant decl) seen = .ok last) ↔
      (∀ variant ∈ variants, isIdentifier variant.name = true ∧ variant.name ∉ seen.1 ∧
        variant.value ∉ seen.2 ∧ decl.repr.contains variant.value = true) ∧
      (variants.map VariantDecl.name).Nodup ∧ (variants.map VariantDecl.value).Nodup := by
  -- What was seen grows along the list, so the statement is about any names and values seen.
  induction variants generalizing seen with
  | nil => simp [pure, Except.pure]
  | cons variant variants ih =>
    rw [List.foldlM_cons, List.forall_mem_cons, List.map_cons, List.map_cons, List.nodup_cons,
      List.nodup_cons]
    constructor
    · rintro ⟨last, h⟩
      obtain ⟨next, hnext, hrest⟩ := bind_eq_ok h
      obtain ⟨hname, hnew, hvalue, hfits, rfl⟩ := checkVariant_eq_ok_iff.mp hnext
      obtain ⟨heach, hnames, hvalues⟩ := (ih _).mp ⟨last, hrest⟩
      simp only [Std.HashSet.mem_insert, beq_iff_eq, not_or] at heach
      refine ⟨⟨⟨hname, hnew, hvalue, hfits⟩, ?_⟩, ⟨?_, hnames⟩, ?_, hvalues⟩
      · intro other hother
        obtain ⟨hname, ⟨-, hnew⟩, ⟨-, hvalue⟩, hfits⟩ := heach other hother
        exact ⟨hname, hnew, hvalue, hfits⟩
      · rintro hmem
        obtain ⟨other, hother, heq⟩ := List.mem_map.mp hmem
        exact (heach other hother).2.1.1 heq.symm
      · rintro hmem
        obtain ⟨other, hother, heq⟩ := List.mem_map.mp hmem
        exact (heach other hother).2.2.1.1 heq.symm
    · rintro ⟨⟨⟨hname, hnew, hvalue, hfits⟩, heach⟩, ⟨hnameNew, hnames⟩, hvalueNew, hvalues⟩
      rw [checkVariant_eq_ok_iff.mpr ⟨hname, hnew, hvalue, hfits, rfl⟩]
      refine (ih _).mpr ⟨?_, hnames, hvalues⟩
      intro other hother
      obtain ⟨hname, hnew, hvalue, hfits⟩ := heach other hother
      simp only [Std.HashSet.mem_insert, beq_iff_eq, not_or]
      refine ⟨hname, ⟨?_, hnew⟩, ⟨?_, hvalue⟩, hfits⟩
      · exact fun heq => hnameNew (heq ▸ List.mem_map_of_mem hother)
      · exact fun heq => hvalueNew (heq ▸ List.mem_map_of_mem hother)

/-- **The validation accepts exactly the well-formed enumerations.** -/
theorem validateEnum_eq_ok_iff {decl : EnumDecl} :
    validateEnum decl = .ok () ↔ decl.WellFormed := by
  have hfold := exists_foldlM_checkVariant_iff decl decl.variants (∅, ∅)
  constructor
  · intro h
    unfold validateEnum at h
    split at h
    · cases h
    · next hempty =>
      obtain ⟨last, hlast, -⟩ := bind_eq_ok h
      obtain ⟨heach, hnames, hvalues⟩ := hfold.mp ⟨last, hlast⟩
      exact ⟨fun hnil => hempty (List.isEmpty_iff.mpr hnil),
        fun variant hvariant => (heach variant hvariant).1, hnames, hvalues,
        fun variant hvariant => (heach variant hvariant).2.2.2⟩
  · intro h
    have heach : ∀ variant ∈ decl.variants, isIdentifier variant.name = true ∧
        variant.name ∉ (∅ : Std.HashSet String) ∧ variant.value ∉ (∅ : Std.HashSet Int) ∧
          decl.repr.contains variant.value = true := by
      intro variant hvariant
      exact ⟨h.identifiers variant hvariant, Std.HashSet.not_mem_empty, Std.HashSet.not_mem_empty,
        h.fits variant hvariant⟩
    obtain ⟨last, hlast⟩ := hfold.mpr ⟨heach, h.names, h.values⟩
    simp [validateEnum, h.nonempty, hlast, bind, Except.bind, pure, Except.pure]

end Wireform.Schema

namespace Wireform.Enumeration

variable {e : Enumeration}

/-! ## 2. The generated codec -/

/-- An arm of the generated match: a literal, and the variant that it stands for. -/
structure Arm where
  literal : Int
  variant : Variant

/-- The arms of the variants, in their order. -/
def arms (e : Enumeration) : List Arm := e.variants.map fun v => ⟨v.discriminant, v⟩

/-- The line that gives a variant of the generated type its discriminant. -/
def Arm.declaration (arm : Arm) : Emit.Code :=
  .line [.ident (Emit.identOf arm.variant.name), " = ", toString arm.literal, ","]

/-- The line of an arm. -/
def Arm.code (arm : Arm) : Emit.Code :=
  .line [toString arm.literal, " => Ok(Self::", .ident (Emit.identOf arm.variant.name), "),"]

/-- The lines of the arm behind those of the variants, which any integer fits. -/
def otherArm (e : Enumeration) : List Emit.Code :=
  [.line ["value => Err(bitwire::EnumDecodeError::UnknownDiscriminant \x7b"],
    .line ["    value: value as i64,"],
    .line ["    enum_name: \"", e.name, "\","],
    .line ["\x7d"],
    .line [".into()),"]]

/-- The discriminants of the generated type are the literals of the arms. -/
theorem variantLines_eq (e : Enumeration) (hnonempty : e.variants ≠ []) :
    Emit.variantLines e.variants = .line ["#[default]"] :: e.arms.map Arm.declaration := by
  obtain ⟨first, rest, hvariants⟩ := List.exists_cons_of_ne_nil hnonempty
  simp [arms, Emit.variantLines, Arm.declaration, hvariants, Function.comp_def]

/-- The generated match has the arms of the variants, and one for all other integers. -/
theorem variantArms_eq (e : Enumeration) :
    Emit.variantArms e = e.arms.map Arm.code ++ e.otherArm := by
  simp [Emit.variantArms, arms, Arm.code, otherArm, Function.comp_def]

/-- The variant that the match gives for an integer: that of the first arm whose literal it is. -/
def matched? (e : Enumeration) (n : Int) : Option Variant :=
  (e.arms.find? fun arm => arm.literal == n).map Arm.variant

/-- Reads a variant as the generated decoder does. -/
def readMatched (e : Enumeration) : Reader Variant := do
  let n ← readInt e.repr.format
  match e.matched? n with
  | some v => pure v
  | none => throw (.wire (.unknownDiscriminant (IntFormat.i64.wrap n) e.name))

/-- The generated codec: a variant is written as its discriminant, cast to the width. -/
def generated (e : Enumeration) : Codec Variant :=
  Codec.ofWidth e.repr.size
    (fun v => writeInt e.repr.format (e.repr.format.wrap v.discriminant)) e.readMatched

/-- The generated codec is exact: no two arms have one literal, and every literal is an integer of
the width; every variant takes just the width, is written as its value, and is read back from there
wherever it stands; and every other integer of the width is reported, behind it. -/
structure IsExact (e : Enumeration) : Prop where
  distinct : (e.arms.map Arm.literal).Nodup
  representable : ∀ arm ∈ e.arms, e.repr.contains arm.literal = true
  size : e.generated.fixedSize = some e.repr.size ∧ ∀ v, e.generated.size v = e.repr.size
  writes : ∀ v ∈ e.variants,
    e.generated.encode e.name v = .ok (e.repr.format.encode v.discriminant) ∧
      (e.repr.format.encode v.discriminant).length = e.repr.size
  reads : ∀ v ∈ e.variants, ∀ buffer cursor,
    HoldsAt buffer cursor (e.repr.format.encode v.discriminant) →
      e.generated.read buffer cursor = .ok v (cursor + e.repr.size)
  rejects : ∀ n, e.repr.contains n = true → (∀ v ∈ e.variants, v.discriminant ≠ n) →
    ∀ buffer cursor, HoldsAt buffer cursor (e.repr.format.encode n) →
      e.generated.read buffer cursor =
        .error (.wire (.unknownDiscriminant (IntFormat.i64.wrap n) e.name)) (cursor + e.repr.size)

theorem matched?_eq (e : Enumeration) (n : Int) :
    e.matched? n = e.variants.find? fun v => v.discriminant == n := by
  simp [matched?, arms, List.find?_map, Function.comp_def]

theorem matched?_of_mem (hdistinct : (e.variants.map Variant.discriminant).Nodup) {v : Variant}
    (hv : v ∈ e.variants) : e.matched? v.discriminant = some v := by
  rw [matched?_eq]
  refine find?_eq_some_of_unique hv (beq_self_eq_true _) ?_
  intro other hother hsame
  exact List.inj_on_of_nodup_map hdistinct hother hv (beq_iff_eq.mp hsame)

theorem matched?_of_forall_ne {n : Int} (hnone : ∀ v ∈ e.variants, v.discriminant ≠ n) :
    e.matched? n = none := by
  rw [matched?_eq, List.find?_eq_none]
  intro v hv hsame
  exact hnone v hv (beq_iff_eq.mp hsame)

/-- Where all discriminants fit the width, the generated decoder and the reader of a catalogue are
the same. -/
theorem map_readMatched (hfits : ∀ v ∈ e.variants, e.repr.contains v.discriminant = true) :
    Variant.discriminant <$> e.readMatched = e.read := by
  -- The catalogue looks for a cast discriminant, and here casting changes none.
  have hfound : ∀ n, e.matched? n = e.variantOf? n := by
    intro n
    rw [matched?_eq, variantOf?, ← List.head?_filter, ← List.head?_filter]
    refine congrArg List.head? (List.filter_congr ?_)
    intro v hv
    rw [IntFormat.wrap_of_contains (hfits v hv)]
  unfold readMatched read
  simp only [hfound, map_bind]
  congr 1
  funext n
  cases e.variantOf? n with
  | some v => simp
  | none => rfl

/-- **The generated codec is exact** if the discriminants differ and fit the width. -/
theorem isExact (hdistinct : (e.variants.map Variant.discriminant).Nodup)
    (hfits : ∀ v ∈ e.variants, e.repr.contains v.discriminant = true) : e.IsExact := by
  have hint : ∀ n, e.repr.contains n = true → ∀ buffer cursor,
      HoldsAt buffer cursor (e.repr.format.encode n) →
        readInt e.repr.format buffer cursor = .ok n (cursor + e.repr.size) := by
    intro n hn buffer cursor hholds
    have hread := (Reader.yields_readInt e.repr.size_pos n buffer cursor).whole hholds
    rwa [IntFormat.wrap_of_contains hn, IntFormat.length_encode] at hread
  have hlength : ∀ n, (e.repr.format.encode n).length = e.repr.size := IntFormat.length_encode _
  refine ⟨?_, ?_, ⟨rfl, fun v => rfl⟩, ?_, ?_, ?_⟩
  · simpa [arms, Function.comp_def] using hdistinct
  · intro arm harm
    obtain ⟨v, hv, rfl⟩ := List.mem_map.mp harm
    exact hfits v hv
  · intro v hv
    have hwrites : e.generated.Writes .marker v True
        (e.repr.format.encode (e.repr.format.wrap v.discriminant)) :=
      Codec.writes_ofWidth (hlength _) (Writer.puts_writeInt e.repr.size_pos _)
    rw [IntFormat.wrap_of_contains (hfits v hv)] at hwrites
    exact ⟨hwrites.encode_eq trivial e.name, hlength _⟩
  · intro v hv buffer cursor hholds
    change e.readMatched buffer cursor = _
    unfold readMatched
    rw [Reader.bind_of_ok (hint _ (hfits v hv) buffer cursor hholds), matched?_of_mem hdistinct hv]
    rfl
  · intro n hn hnone buffer cursor hholds
    change e.readMatched buffer cursor = _
    unfold readMatched
    rw [Reader.bind_of_ok (hint n hn buffer cursor hholds), matched?_of_forall_ne hnone]
    rfl

end Wireform.Enumeration

namespace Wireform.Schema

/-! ## 3. Enumerations that are accepted -/

/-- **The generated codec of an accepted enumeration is exact.**  The values of the declaration are
the discriminants of the generated type and the literals of the generated match, and the codec of a
catalogue writes what the generated encoder writes and reads what that match reads. -/
theorem generated_enum_exact {decl : EnumDecl} (h : validateEnum decl = .ok ()) :
    (Enumeration.ofDecl decl).IsExact ∧
      ((Enumeration.ofDecl decl).arms.map Enumeration.Arm.literal
          = decl.variants.map VariantDecl.value ∧
        Emit.variantLines (Enumeration.ofDecl decl).variants
          = .line ["#[default]"]
            :: (Enumeration.ofDecl decl).arms.map Enumeration.Arm.declaration ∧
        Emit.variantArms (Enumeration.ofDecl decl)
          = (Enumeration.ofDecl decl).arms.map Enumeration.Arm.code
            ++ (Enumeration.ofDecl decl).otherArm) ∧
      (∀ v, (Enumeration.ofDecl decl).generated.write v
        = (Enumeration.ofDecl decl).codec.write v.discriminant) ∧
      Variant.discriminant <$> (Enumeration.ofDecl decl).readMatched
        = (Enumeration.ofDecl decl).codec.read := by
  have hdecl := validateEnum_eq_ok_iff.mp h
  have hdistinct : ((Enumeration.ofDecl decl).variants.map Variant.discriminant).Nodup := by
    simpa [Enumeration.ofDecl, Function.comp_def] using hdecl.values
  have hfits : ∀ v ∈ (Enumeration.ofDecl decl).variants, decl.repr.contains v.discriminant = true :=
    List.forall_mem_map.mpr hdecl.fits
  have hnonempty : (Enumeration.ofDecl decl).variants ≠ [] := by
    simpa [Enumeration.ofDecl] using hdecl.nonempty
  refine ⟨Enumeration.isExact hdistinct hfits,
    ⟨?_, Enumeration.variantLines_eq _ hnonempty, Enumeration.variantArms_eq _⟩,
    fun v => rfl, Enumeration.map_readMatched hfits⟩
  simp [Enumeration.arms, Enumeration.ofDecl, Function.comp_def]

end Wireform.Schema

namespace Wireform.Samples

/-- An enumeration whose values are the ends of a signed byte, and one between them. -/
def tinyDecl : Schema.EnumDecl := ⟨"Tiny", .i8, [⟨"Min", -128⟩, ⟨"MinusOne", -1⟩, ⟨"Max", 127⟩]⟩

theorem generated_enum_exact_tiny :
    Schema.validateEnum tinyDecl = .ok () ∧ (Enumeration.ofDecl tinyDecl).IsExact := by
  have hvalid : Schema.validateEnum tinyDecl = .ok () := by
    refine Schema.validateEnum_eq_ok_iff.mpr ⟨?_, ?_, ?_, ?_, ?_⟩ <;> decide
  exact ⟨hvalid, (Schema.generated_enum_exact hvalid).1⟩

/-- A byte of a signed enumeration that no variant has is reported as the number that it is. -/
example : (Enumeration.ofDecl tinyDecl).generated.read [255, 254] 1 =
    .error (.wire (.unknownDiscriminant (-2) "Tiny")) 2 := rfl

end Wireform.Samples
