import Mathlib.Data.List.Forall2
import Mathlib.Data.List.Nodup
import Wireform.Derive.Expansion.Schema
import Wireform.Proofs.Generated
import Wireform.Proofs.WellFormed

/-!
# Described structures

A derived structure describes itself under the names that its source text has (`DescribedAs`).  In
source text a name can be raw, or have letters beyond ASCII; the names of a schema can not
(`IsItemName.isIdentifier_iff`).  So the description of a structure whose types may stand is accepted
exactly if its own name and the names of the fields that are not skipped are plain
(`described_struct_accepted_iff`).  Nothing else goes wrong: fields of a tuple have names of their
position, which are plain, no two fields have one name, and if every optional type is spelled as one
the derivation has counted the nullable fields.
-/
namespace Wireform.Samples

/-- A link as an item. -/
def linkItem : Derive.Item := ⟨"Link", [], ⟨[], false⟩, [], .struct linkSource⟩

end Wireform.Samples

namespace Wireform.Schema

/-! ## 1. What is asked of a declaration -/

/-- Related lists agree in what related entries agree in. -/
theorem map_eq_of_forall₂ {α β γ : Type} {related : α → β → Prop} {f : α → γ} {g : β → γ}
    (heq : ∀ a b, related a b → g b = f a) {as : List α} {bs : List β}
    (h : List.Forall₂ related as bs) : bs.map g = as.map f := by
  induction h with
  | nil => rfl
  | cons hfirst _ ih => rw [List.map_cons, List.map_cons, heq _ _ hfirst, ih]

/-- What the analysis asks of the types of a structure's fields: every part of them may stand where
it stands, and no field that is not nullable leads back to the structure through such fields. -/
structure StructDecl.TypesStand (known : KnownTypes) (decl : StructDecl) : Prop where
  types : ∀ field ∈ decl.fields, ∀ part ∈ field.type.parts, part.MayStand known
  finite : ∀ field ∈ decl.fields, ∀ name types, field.type = .named name →
    known.get? name = some (.struct types) →
      ¬ Relation.ReflTransGen (InlineField known) name decl.name

theorem StructDecl.wellFormed_iff {known : KnownTypes} {decl : StructDecl}
    (htypes : decl.TypesStand known) :
    decl.WellFormed known ↔ (∀ field ∈ decl.fields, isIdentifier field.name = true) ∧
      (decl.fields.map FieldDecl.name).Nodup ∧
        decl.fields.countP (fun field => field.type.isOptional) ≤ 65535 :=
  ⟨fun h => ⟨h.identifiers, h.distinct, h.slots⟩,
    fun ⟨hnames, hdistinct, hslots⟩ => ⟨hnames, hdistinct, htypes.types, htypes.finite, hslots⟩⟩

theorem TypeSchema.Mirrors.map_name {known : KnownTypes} {decl : StructDecl} {tag : Nat}
    {schema : TypeSchema} (h : schema.Mirrors known decl tag) :
    schema.fields.map FieldPlan.name = decl.fields.map FieldDecl.name :=
  map_eq_of_forall₂ (fun _ _ hfield => hfield.name) h.fields

/-- Another declaration is taken in exactly if a type may have its name and none has it so far. -/
theorem KnownTypes.exists_ofDecls_insert_iff {before after : List TypeDecl} {known : KnownTypes}
    (hknown : KnownTypes.ofDecls (before ++ after) = .ok known) (decl : TypeDecl)
    (hnew : decl.name ∉ (before ++ after).map TypeDecl.name) :
    (∃ next, KnownTypes.ofDecls (before ++ decl :: after) = .ok next) ↔ IsTypeName decl.name := by
  obtain ⟨hnames, hnodup, -⟩ := KnownTypes.ofDecls_eq_ok_iff.mp hknown
  constructor
  · rintro ⟨next, hnext⟩
    exact (KnownTypes.ofDecls_eq_ok_iff.mp hnext).1 decl (by simp)
  · intro hname
    refine ⟨_, KnownTypes.ofDecls_eq_ok_iff.mpr ⟨?_, ?_, rfl⟩⟩
    · intro other hother
      rcases List.mem_append.mp hother with hother | hother
      · exact hnames other (List.mem_append_left _ hother)
      · rcases List.mem_cons.mp hother with rfl | hother
        · exact hname
        · exact hnames other (List.mem_append_right _ hother)
    · have hperm : (before ++ decl :: after).Perm (decl :: (before ++ after)) := List.perm_middle
      rw [(hperm.map _).nodup_iff, List.map_cons, List.nodup_cons]
      exact ⟨hnew, hnodup⟩

end Wireform.Schema

namespace Wireform.Derive

open Schema (FieldDecl FieldPlan KnownTypes StructDecl TypeDecl TypeRef analyze isIdentChar
  isIdentifier)

/-! ## 2. Names in source text -/

/-- The characters of a name behind the mark of a raw identifier. -/
def bareChars (name : String) : List Char :=
  match name.toList with
  | 'r' :: '#' :: rest => rest
  | chars => chars

/-- A name that an item, a field or a variant can have in source text: a word, which is raw if it is
a keyword. -/
structure IsItemName (name : String) : Prop where
  word : ∃ c rest, bareChars name = c :: rest ∧ Lexeme.isWordStart c = true ∧
    ∀ d ∈ rest, Lexeme.isWordChar d = true
  notKeyword : name ∉ keywords

/-- A name that is not raw and has ASCII characters only. -/
structure IsPlainName (name : String) : Prop where
  notRaw : bareChars name = name.toList
  ascii : ∀ c ∈ name.toList, c.toNat < 128

theorem isIdentChar_of_isWordChar {c : Char} (h : Lexeme.isWordChar c = true) (hascii : c.toNat < 128) :
    isIdentChar c = true := by
  simp only [Lexeme.isWordChar, Bool.or_eq_true, Bool.and_eq_true, decide_eq_true_eq] at h
  rcases h with (h | h) | h
  · simp [isIdentChar, h]
  · simp [isIdentChar, beq_iff_eq.mp h]
  · omega

/-- No identifier of a schema has the mark of a raw one, since `#` is none of its characters. -/
theorem bareChars_of_isIdentifier {name : String} (h : isIdentifier name = true) :
    bareChars name = name.toList := by
  obtain ⟨c, rest, hchars, -, hrest⟩ := Schema.exists_of_isIdentifier h
  unfold bareChars
  split
  · next tail hraw =>
    rw [hchars] at hraw
    cases hraw
    exact absurd (hrest '#' List.mem_cons_self) (by decide)
  · rfl

/-- A name in source text is one that a schema can have exactly if it is plain. -/
theorem IsItemName.isIdentifier_iff {name : String} (h : IsItemName name) :
    isIdentifier name = true ↔ IsPlainName name := by
  constructor
  · intro hidentifier
    obtain ⟨c, rest, hchars, hstart, hrest⟩ := Schema.exists_of_isIdentifier hidentifier
    have hall : ∀ d ∈ name.toList, isIdentChar d = true := by
      rw [hchars]
      exact List.forall_mem_cons.mpr ⟨(Schema.isIdentChar_of_isIdentStart hstart).1, hrest⟩
    refine ⟨bareChars_of_isIdentifier hidentifier, fun d hd => ?_⟩
    have := (Schema.toNat_of_isIdentChar (hall d hd)).2
    omega
  · intro hplain
    obtain ⟨c, rest, hchars, hstart, hrest⟩ := h.word
    rw [hplain.notRaw] at hchars
    have hascii := hplain.ascii
    rw [hchars, List.forall_mem_cons] at hascii
    rw [Lexeme.isWordStart, Bool.and_eq_true, Bool.not_eq_true'] at hstart
    refine Schema.isIdentifier_of_toList hchars ?_ ?_
    · have hword := isIdentChar_of_isWordChar hstart.1 hascii.1
      simpa [isIdentChar, Schema.isIdentStart, Char.isAlphanum, hstart.2] using hword
    · intro d hd
      exact isIdentChar_of_isWordChar (hrest d hd) (hascii.2 d hd)

/-- An identifier of a schema that is no keyword can stand in source text. -/
theorem isItemName_of_isIdentifier {name : String} (h : isIdentifier name = true)
    (hkeyword : name ∉ keywords) : IsItemName name := by
  obtain ⟨c, rest, hchars, hstart, hrest⟩ := Schema.exists_of_isIdentifier h
  have hword : ∀ d, isIdentChar d = true → Lexeme.isWordChar d = true := by
    intro d hd
    simp only [isIdentChar, Bool.or_eq_true] at hd
    rcases hd with hd | hd <;> simp [Lexeme.isWordChar, hd]
  obtain ⟨hchar, hdigit⟩ := Schema.isIdentChar_of_isIdentStart hstart
  exact ⟨⟨c, rest, (bareChars_of_isIdentifier h).trans hchars,
    by simp [Lexeme.isWordStart, hword c hchar, hdigit], fun d hd => hword d (hrest d hd)⟩, hkeyword⟩

theorem toList_index (n : Nat) :
    (MemberRef.index n).schemaName.toList = '_' :: Nat.toDigits 10 n := by
  change ("_" ++ n.repr).toList = _
  rw [String.toList_append, Nat.toList_repr]
  rfl

/-- The names of a tuple's fields are plain. -/
theorem isIdentifier_index (n : Nat) : isIdentifier (MemberRef.index n).schemaName = true := by
  refine Schema.isIdentifier_of_toList (toList_index n) (by decide) ?_
  intro c hc
  have hdigit := Nat.isDigit_of_mem_toDigits (by decide) (by decide) hc
  simp [isIdentChar, Char.isAlphanum, hdigit]

theorem schemaName_index_injective :
    Function.Injective fun n => (MemberRef.index n).schemaName := by
  intro m n h
  have hchars : '_' :: Nat.toDigits 10 m = '_' :: Nat.toDigits 10 n := by
    rw [← toList_index, ← toList_index]
    exact congrArg String.toList h
  calc m = Nat.ofDigitChars 10 (Nat.toDigits 10 m) 0 := Nat.ofDigitChars_ten_toDigits.symm
    _ = Nat.ofDigitChars 10 (Nat.toDigits 10 n) 0 := by rw [List.tail_eq_of_cons_eq hchars]
    _ = n := Nat.ofDigitChars_ten_toDigits

/-! ## 3. Fields -/

/-- The fields of a structure have names if they stand between braces; these are different even where
the mark of raw identifiers is left out.  Otherwise they have none. -/
def Fields.Legal : Fields → Prop
  | .named fields => ∃ names : List String, fields.map Field.name = names.map some ∧
      (∀ name ∈ names, IsItemName name) ∧ (names.map bareChars).Nodup
  | .tuple fields => ∀ field ∈ fields, field.name = none
  | .unit => True

/-- What the codecs take a field at a position for. -/
structure FieldShape.Of (source : Field × Nat) (shape : FieldShape) : Prop where
  member : shape.member = source.1.member source.2
  type : shape.type = source.1.type
  skip : isSkipped source.1.attributes = .ok shape.skip

theorem forall₂_of_shapesFrom {container : String} {position nullable : Nat} {fields : List Field}
    {shapes : List FieldShape} (h : shapesFrom container position nullable fields = .ok shapes) :
    List.Forall₂ FieldShape.Of (fields.zipIdx position) shapes := by
  induction fields generalizing position nullable shapes with
  | nil =>
    cases h
    exact .nil
  | cons field fields ih =>
    obtain ⟨skip, hskip, h⟩ := Schema.bind_eq_ok h
    dsimp only at h
    rw [List.zipIdx_cons]
    cases skip with
    | true =>
      obtain ⟨rest, hrest, h⟩ := Schema.bind_eq_ok h
      cases h
      exact .cons ⟨rfl, rfl, hskip⟩ (ih hrest)
    | false =>
      obtain ⟨-, -, h⟩ := Schema.bind_eq_ok h
      split at h
      · split at h
        · cases h
        · obtain ⟨rest, hrest, h⟩ := Schema.bind_eq_ok h
          cases h
          exact .cons ⟨rfl, rfl, hskip⟩ (ih hrest)
      · obtain ⟨rest, hrest, h⟩ := Schema.bind_eq_ok h
        cases h
        exact .cons ⟨rfl, rfl, hskip⟩ (ih hrest)

/-- There are no more slots than the highest one. -/
theorem countP_isNullable_le {container : String} {position nullable : Nat} {fields : List Field}
    {shapes : List FieldShape} (h : shapesFrom container position nullable fields = .ok shapes)
    (hnullable : nullable ≤ maxSlot) :
    nullable + shapes.countP FieldShape.isNullable ≤ maxSlot := by
  induction fields generalizing position nullable shapes with
  | nil =>
    cases h
    exact hnullable
  | cons field fields ih =>
    obtain ⟨skip, hskip, h⟩ := Schema.bind_eq_ok h
    dsimp only at h
    cases skip with
    | true =>
      obtain ⟨rest, hrest, h⟩ := Schema.bind_eq_ok h
      cases h
      simpa [FieldShape.isNullable] using ih hrest hnullable
    | false =>
      obtain ⟨-, -, h⟩ := Schema.bind_eq_ok h
      split at h
      · split at h
        · cases h
        · next hroom =>
          obtain ⟨rest, hrest, h⟩ := Schema.bind_eq_ok h
          cases h
          have := ih hrest (by omega)
          simp [FieldShape.isNullable, List.countP_cons] at this ⊢
          omega
      · obtain ⟨rest, hrest, h⟩ := Schema.bind_eq_ok h
        cases h
        simpa [FieldShape.isNullable] using ih hrest hnullable

theorem map_schemaName {sources : List (Field × Nat)} {shapes : List FieldShape}
    (h : List.Forall₂ FieldShape.Of sources shapes) :
    shapes.map (fun shape => shape.member.schemaName)
      = sources.map fun source => (source.1.member source.2).schemaName :=
  Schema.map_eq_of_forall₂ (fun _ _ hof => congrArg MemberRef.schemaName hof.member) h

/-- No two fields have one name in declarations. -/
theorem nodup_schemaNames {container : String} {fields : Fields} {shapes : List FieldShape}
    (h : fieldShapes container fields = .ok shapes) (hlegal : fields.Legal) :
    (shapes.map fun shape => shape.member.schemaName).Nodup := by
  rw [map_schemaName (forall₂_of_shapesFrom h)]
  cases fields with
  | named fields =>
    obtain ⟨names, hnames, -, hdistinct⟩ := hlegal
    have hschema : ∀ source ∈ fields.zipIdx,
        (source.1.member source.2).schemaName = source.1.name.getD "" := by
      intro source hsource
      have hfield : source.1.name ∈ fields.map Field.name :=
        List.mem_map_of_mem (List.fst_mem_of_mem_zipIdx hsource)
      rw [hnames] at hfield
      obtain ⟨name, -, hname⟩ := List.mem_map.mp hfield
      rw [Field.member, ← hname]
      rfl
    have hmap : fields.zipIdx.map (fun source => source.1.name.getD "") = names := by
      have hfst : fields.zipIdx.map (fun source => source.1.name.getD "")
          = ((fields.zipIdx.map Prod.fst).map Field.name).map fun name => name.getD "" := by
        rw [List.map_map, List.map_map]
        rfl
      rw [hfst, List.zipIdx_map_fst, hnames]
      simp
    change (fields.zipIdx.map _).Nodup
    rw [List.map_congr_left hschema, hmap]
    exact hdistinct.of_map _
  | tuple fields =>
    have hschema : ∀ source ∈ fields.zipIdx,
        (source.1.member source.2).schemaName = (MemberRef.index source.2).schemaName := by
      intro source hsource
      rw [Field.member, hlegal _ (List.fst_mem_of_mem_zipIdx hsource)]
    have hmap : fields.zipIdx.map (fun source => (MemberRef.index source.2).schemaName)
        = (fields.zipIdx.map Prod.snd).map fun n => (MemberRef.index n).schemaName := by
      rw [List.map_map]
      rfl
    change (fields.zipIdx.map _).Nodup
    rw [List.map_congr_left hschema, hmap, List.zipIdx_map_snd]
    exact List.Nodup.map schemaName_index_injective List.nodup_range'
  | unit => exact List.nodup_nil

/-! ## 4. Declarations -/

/-- The reference that a field has in declarations, if its type has one. -/
def FieldShape.typeRef? (meaning : TypeExpr → Shape) (shape : FieldShape) : Option TypeRef :=
  (shape.define meaning).type.shape.typeRef?

/-- What a derived structure says of itself: its name, the tag that it asks for, and the fields that
are not skipped, in their order, with the names of their members and the references of their
types. -/
structure DescribedAs (meaning : TypeExpr → Shape) (item : Item) (shapes : List FieldShape)
    (tokens : List Token) (decl : StructDecl) : Prop where
  tag : containerTag item.attributes = .ok decl.tag
  tokens : tokens = item.describing (structDeclaration item.name decl.tag shapes)
  declared : (derived meaning shapes).declare? item.name decl.tag = some (.struct decl)
  name : decl.name = item.name
  fields : List.Forall₂ (fun shape field => field.name = shape.member.schemaName ∧
    shape.typeRef? meaning = some field.type) (shapes.filter fun shape => !shape.skip) decl.fields

variable {meaning : TypeExpr → Shape} {item : Item} {shapes : List FieldShape} {tokens : List Token}
  {decl : StructDecl}

theorem filter_isDeclared (meaning : TypeExpr → Shape) (shapes : List FieldShape) :
    (shapes.map (FieldShape.define meaning)).filter FieldDef.isDeclared
      = (shapes.filter fun shape => !shape.skip).map (FieldShape.define meaning) := by
  have hskip : FieldDef.isDeclared ∘ FieldShape.define meaning = fun shape => !shape.skip := by
    funext shape
    cases hskip : shape.skip <;>
      cases hinner : optionInner? shape.type <;>
        simp [FieldDef.isDeclared, FieldShape.define, hskip, hinner]
  rw [List.filter_map, hskip]

theorem exists_mapM_declare? (hrefs : ∀ shape ∈ shapes, ∃ ref, shape.typeRef? meaning = some ref) :
    ∃ fields, (shapes.map (FieldShape.define meaning)).mapM FieldDef.declare? = some fields ∧
      List.Forall₂ (fun shape field => field.name = shape.member.schemaName ∧
        shape.typeRef? meaning = some field.type) shapes fields := by
  induction shapes with
  | nil => exact ⟨[], rfl, .nil⟩
  | cons shape shapes ih =>
    obtain ⟨⟨ref, href⟩, hrefs⟩ := List.forall_mem_cons.mp hrefs
    obtain ⟨fields, hfields, hforall⟩ := ih hrefs
    have hfirst : (shape.define meaning).declare? = some ⟨shape.member.schemaName, ref⟩ := by
      rw [FieldShape.typeRef?] at href
      rw [FieldDef.declare?, href]
      rfl
    refine ⟨⟨shape.member.schemaName, ref⟩ :: fields, ?_, .cons ⟨rfl, href⟩ hforall⟩
    rw [List.map_cons, List.mapM_cons, hfirst, hfields]
    rfl

/-- A structure that is derived describes itself, if the types of the fields that are not skipped
have references. -/
theorem exists_describedAs {fields : Fields} (hkind : item.kind = .struct fields)
    (hexpand : expandSchema item = .ok tokens) (hshapes : fieldShapes item.name fields = .ok shapes)
    (hrefs : ∀ shape ∈ shapes, shape.skip = false → ∃ ref, shape.typeRef? meaning = some ref) :
    ∃ decl, DescribedAs meaning item shapes tokens decl := by
  unfold expandSchema at hexpand
  rw [hkind] at hexpand
  obtain ⟨tag, htag, hexpand⟩ := Schema.bind_eq_ok hexpand
  rw [hshapes] at hexpand
  cases hexpand
  have hkept : ∀ shape ∈ shapes.filter (fun shape => !shape.skip),
      ∃ ref, shape.typeRef? meaning = some ref := by
    intro shape hshape
    obtain ⟨hmem, hskip⟩ := List.mem_filter.mp hshape
    exact hrefs shape hmem (by simpa using hskip)
  obtain ⟨fields, hfields, hforall⟩ := exists_mapM_declare? hkept
  refine ⟨⟨item.name, tag, fields⟩, htag, rfl, ?_, rfl, hforall⟩
  rw [derived, Definition.declare?, filter_isDeclared, hfields]
  rfl

theorem DescribedAs.map_name (h : DescribedAs meaning item shapes tokens decl) :
    decl.fields.map FieldDecl.name
      = (shapes.filter fun shape => !shape.skip).map fun shape => shape.member.schemaName :=
  Schema.map_eq_of_forall₂ (fun _ _ hfield => hfield.1) h.fields

theorem DescribedAs.nodup_names (h : DescribedAs meaning item shapes tokens decl)
    (hnames : (shapes.map fun shape => shape.member.schemaName).Nodup) :
    (decl.fields.map FieldDecl.name).Nodup := by
  rw [h.map_name]
  exact hnames.sublist (List.filter_sublist.map _)

/-- If every optional type is spelled as one, the nullable fields of the declaration are those that
have a slot. -/
theorem DescribedAs.countP_isOptional (h : DescribedAs meaning item shapes tokens decl)
    (hspelled : ∀ shape ∈ shapes, shape.IsSpelled meaning) {slot : Nat}
    (hclassified : Classified slot shapes) :
    decl.fields.countP (fun field => field.type.isOptional)
      = shapes.countP FieldShape.isNullable := by
  have hfields := h.fields
  generalize decl.fields = fields at hfields ⊢
  clear h
  induction hclassified generalizing fields with
  | nil =>
    cases hfields
    rfl
  | @skipped slot member type shapes hrest ih =>
    have hspelled := List.forall_mem_cons.mp hspelled
    rw [List.filter_cons_of_neg (by simp)] at hfields
    simpa [FieldShape.isNullable] using ih hspelled.2 fields hfields
  | @nullable slot member type inner shapes hinner hrest ih =>
    have hspelled := List.forall_mem_cons.mp hspelled
    rw [List.filter_cons_of_pos (by simp)] at hfields
    rcases hfields with _ | ⟨⟨-, href⟩, hfields⟩
    have hoptional := Shape.isOptional_of_typeRef? href
    simp [FieldShape.define, hinner, FieldType.shape, Shape.isOptional, Shape.bare] at hoptional
    simp [FieldShape.isNullable, List.countP_cons, ih hspelled.2 _ hfields, hoptional]
  | @always slot member type shapes hinner hrest ih =>
    have hspelled := List.forall_mem_cons.mp hspelled
    rw [List.filter_cons_of_pos (by simp)] at hfields
    rcases hfields with _ | ⟨⟨-, href⟩, hfields⟩
    have hoptional := Shape.isOptional_of_typeRef? href
    -- A field without a slot is not spelled as an option, so its type does not mean one.
    have hplain : (meaning type).isOptional = false := by
      refine Bool.eq_false_iff.mpr fun hopt => ?_
      have := hspelled.1 rfl hopt
      simp [hinner] at this
    simp [FieldShape.define, hinner, FieldType.shape, hplain] at hoptional
    simp [FieldShape.isNullable, ih hspelled.2 _ hfields, hoptional]

/-! ## 5. Acceptance -/

/-- The names of the declared fields are identifiers exactly if the names from source text are
plain. -/
theorem DescribedAs.identifiers_iff (h : DescribedAs meaning item shapes tokens decl)
    (hnames : ∀ shape ∈ shapes, ∀ name, shape.member = .named name → IsItemName name) :
    (∀ field ∈ decl.fields, isIdentifier field.name = true) ↔
      ∀ shape ∈ shapes, shape.skip = false → ∀ name, shape.member = .named name → IsPlainName name := by
  have hmap : (∀ field ∈ decl.fields, isIdentifier field.name = true) ↔
      ∀ name ∈ decl.fields.map FieldDecl.name, isIdentifier name = true := by
    rw [List.forall_mem_map]
  rw [hmap, h.map_name, List.forall_mem_map]
  constructor
  · intro hall shape hshape hskip name hmember
    have hname := hall shape (List.mem_filter.mpr ⟨hshape, by simp [hskip]⟩)
    rw [hmember] at hname
    exact (hnames shape hshape name hmember).isIdentifier_iff.mp hname
  · intro hplain shape hkept
    obtain ⟨hshape, hskip⟩ := List.mem_filter.mp hkept
    cases hmember : shape.member with
    | index n => exact isIdentifier_index n
    | named name =>
      exact (hnames shape hshape name hmember).isIdentifier_iff.mpr
        (hplain shape hshape (by simpa using hskip) name hmember)

theorem exists_source {sources : List (Field × Nat)} {shapes : List FieldShape}
    (h : List.Forall₂ FieldShape.Of sources shapes) {shape : FieldShape} (hshape : shape ∈ shapes) :
    ∃ source ∈ sources, FieldShape.Of source shape := by
  induction h with
  | nil => cases hshape
  | cons hfirst _ ih =>
    rcases List.mem_cons.mp hshape with rfl | hshape
    · exact ⟨_, List.mem_cons_self, hfirst⟩
    · obtain ⟨source, hsource, hof⟩ := ih hshape
      exact ⟨source, List.mem_cons_of_mem _ hsource, hof⟩

theorem isItemName_of_legal {container : String} {fields : Fields}
    (hshapes : fieldShapes container fields = .ok shapes) (hlegal : fields.Legal) :
    ∀ shape ∈ shapes, ∀ name, shape.member = .named name → IsItemName name := by
  intro shape hshape name hmember
  obtain ⟨source, hsource, hof⟩ := exists_source (forall₂_of_shapesFrom hshapes) hshape
  have hfield := List.fst_mem_of_mem_zipIdx hsource
  have hname : source.1.name = some name := by
    have hsame := hof.member
    rw [hmember, Field.member] at hsame
    split at hsame
    · next found hfound =>
      cases hsame
      exact hfound
    · cases hsame
  cases fields with
  | named fields =>
    obtain ⟨names, hnames, hitem, -⟩ := hlegal
    have hmem : source.1.name ∈ fields.map Field.name := List.mem_map_of_mem hfield
    rw [hnames, hname] at hmem
    obtain ⟨found, hfound, heq⟩ := List.mem_map.mp hmem
    cases heq
    exact hitem _ hfound
  | tuple fields =>
    rw [hlegal _ hfield] at hname
    cases hname
  | unit => cases hfield

/-- **A described structure is accepted exactly if its names are plain.**  It is derived from legal
source text, its own name is free, and the types of its fields may stand where they stand.  Its
declaration lists the fields that are not skipped, in their order and under different names.  Other
declarations take it in exactly if its name is plain, and it is analyzed exactly if the names of its
fields are, where the number of nullable fields is no question if every optional type is spelled as
one; what is analyzed has the fields of the declaration. -/
theorem described_struct_accepted_iff {fields : Fields} (hkind : item.kind = .struct fields)
    (hexpand : expandSchema item = .ok tokens) (hshapes : fieldShapes item.name fields = .ok shapes)
    (hname : IsItemName item.name) (hlegal : fields.Legal)
    (hreserved : item.name ∉ Schema.reservedTypeNames)
    (hprimitive : Schema.Primitive.ofName? item.name = none)
    (hrefs : ∀ shape ∈ shapes, shape.skip = false → ∃ ref, shape.typeRef? meaning = some ref) :
    ∃ decl, DescribedAs meaning item shapes tokens decl ∧
      (decl.fields.map FieldDecl.name).Nodup ∧
      (∀ before after known, KnownTypes.ofDecls (before ++ after) = .ok known →
        item.name ∉ (before ++ after).map TypeDecl.name →
          ((∃ next, KnownTypes.ofDecls (before ++ .struct decl :: after) = .ok next) ↔
            IsPlainName item.name)) ∧
      (∀ known tag, decl.TypesStand known →
        ((∃ schema, analyze decl known tag = .ok schema) ↔
          (∀ shape ∈ shapes, shape.skip = false → ∀ name, shape.member = .named name →
            IsPlainName name) ∧ decl.fields.countP (fun field => field.type.isOptional) ≤ 65535) ∧
        ∀ schema, analyze decl known tag = .ok schema →
          schema.fields.map FieldPlan.name = decl.fields.map FieldDecl.name) ∧
      ((∀ shape ∈ shapes, shape.IsSpelled meaning) →
        decl.fields.countP (fun field => field.type.isOptional) ≤ 65535) := by
  obtain ⟨decl, hdecl⟩ := exists_describedAs hkind hexpand hshapes hrefs
  have hdistinct := hdecl.nodup_names (nodup_schemaNames hshapes hlegal)
  refine ⟨decl, hdecl, hdistinct, ?_, ?_, ?_⟩
  · intro before after known hknown hnew
    rw [← hdecl.name] at hnew hreserved hprimitive hname ⊢
    rw [KnownTypes.exists_ofDecls_insert_iff hknown (.struct decl) hnew, ← hname.isIdentifier_iff]
    exact ⟨Schema.IsTypeName.identifier, fun h => ⟨h, hreserved, hprimitive⟩⟩
  · intro known tag htypes
    refine ⟨?_, ?_⟩
    · rw [Schema.exists_analyze_iff, StructDecl.wellFormed_iff htypes,
        hdecl.identifiers_iff (isItemName_of_legal hshapes hlegal), and_iff_right hdistinct]
    · intro schema hschema
      exact (Schema.mirrors_of_analyze hschema).map_name
  · intro hspelled
    rw [hdecl.countP_isOptional hspelled (classified_of_shapesFrom hshapes)]
    have := countP_isNullable_le hshapes (Nat.zero_le _)
    rwa [Nat.zero_add] at this

theorem described_struct_accepted_iff_link :
    ∃ tokens decl, expandSchema Samples.linkItem = .ok tokens ∧
      DescribedAs Samples.meaning Samples.linkItem Samples.linkShapes tokens decl ∧
      (∃ next, KnownTypes.ofDecls [.struct decl] = .ok next) ∧
      ∃ schema, analyze decl Samples.linkKnown 1 = .ok schema := by
  have hplain : ∀ name ∈ ["Link", "value", "next", "cache"],
      isIdentifier name = true ∧ name ∉ keywords := by decide
  have hnames : ∀ name ∈ ["Link", "value", "next", "cache"], IsItemName name :=
    fun name hname => isItemName_of_isIdentifier (hplain name hname).1 (hplain name hname).2
  have hlegal : Samples.linkSource.Legal :=
    ⟨["value", "next", "cache"], rfl, fun name hname => hnames name (List.mem_cons_of_mem _ hname),
      by decide⟩
  have hrefs : ∀ shape ∈ Samples.linkShapes, shape.skip = false →
      ∃ ref, shape.typeRef? Samples.meaning = some ref := by
    have hsome : ∀ shape ∈ Samples.linkShapes, shape.skip = false →
        (shape.typeRef? Samples.meaning).isSome = true := by decide
    exact fun shape hshape hskip => Option.isSome_iff_exists.mp (hsome shape hshape hskip)
  have hshapes : fieldShapes "Link" Samples.linkSource = .ok Samples.linkShapes := rfl
  have hexpand : ∃ tokens, expandSchema Samples.linkItem = .ok tokens := ⟨_, rfl⟩
  obtain ⟨tokens, htokens⟩ := hexpand
  have hkind : Samples.linkItem.kind = .struct Samples.linkSource := rfl
  obtain ⟨decl, hdecl, -, hinsert, hanalyze, hslots⟩ := described_struct_accepted_iff hkind htokens
    hshapes (hnames "Link" List.mem_cons_self) hlegal (by decide) rfl hrefs
  have hsame : decl = Samples.linkDecl := by
    have htag : (Except.ok none : Except DeriveError (Option Nat)) = .ok decl.tag := hdecl.tag
    have hdeclared := hdecl.declared
    rw [← Except.ok.inj htag] at hdeclared
    exact TypeDecl.struct.inj (Option.some.inj hdeclared.symm)
  subst hsame
  have hmembers := isItemName_of_legal hshapes hlegal
  have hfields := (hdecl.identifiers_iff hmembers).mp (by decide)
  have hwell := Schema.exists_analyze_iff.mp ⟨_, Samples.analyze_linkDecl⟩
  have hlink : IsPlainName "Link" := (hnames "Link" List.mem_cons_self).isIdentifier_iff.mp rfl
  exact ⟨tokens, _, htokens, hdecl, (hinsert [] [] .empty rfl List.not_mem_nil).mpr hlink,
    (hanalyze Samples.linkKnown 1 ⟨hwell.types, hwell.finite⟩).1.mpr ⟨hfields, by decide⟩⟩

end Wireform.Derive

namespace Wireform.Samples

open Derive (DescribedAs Fields FieldShape IsItemName Item Lexeme expandSchema fieldShapes)
open Schema (KnownTypes StructDecl)

/-- A field that only a raw identifier can name. -/
def entrySource : Fields := .named [⟨some "r#type", word "u8", []⟩]

/-- An entry as an item. -/
def entryItem : Item := ⟨"Entry", [], ⟨[], false⟩, [], .struct entrySource⟩

/-- The field of an entry, as it is classified. -/
def entryShapes : List FieldShape := [⟨.named "r#type", word "u8", false, none⟩]

/-- The declaration of an entry. -/
def entryDecl : StructDecl := ⟨"Entry", none, [⟨"r#type", .primitive .u8⟩]⟩

/-- What is known where entries are declared. -/
def entryKnown : KnownTypes := ⟨[("Entry", .struct [.primitive .u8])]⟩

/-- **A raw name is described with its mark, and then refused**: the entry is derived and its type
stands, but it can not be analyzed. -/
theorem raw_field_refused :
    entrySource.Legal ∧ fieldShapes "Entry" entrySource = .ok entryShapes ∧
      (∃ tokens, expandSchema entryItem = .ok tokens ∧
        DescribedAs meaning entryItem entryShapes tokens entryDecl) ∧
      KnownTypes.ofDecls [.struct entryDecl] = .ok entryKnown ∧
      StructDecl.TypesStand entryKnown entryDecl ∧
      ∀ tag, Schema.analyze entryDecl entryKnown tag
        = .error (.invalidName "r#type" .notIdentifier) := by
  have hname : IsItemName "r#type" := by
    have hword : ['y', 'p', 'e'].all Lexeme.isWordChar = true := by decide
    exact ⟨⟨'t', ['y', 'p', 'e'], rfl, rfl, List.all_eq_true.mp hword⟩, by decide⟩
  have hlegal : entrySource.Legal := by
    refine ⟨["r#type"], rfl, ?_, ?_⟩
    · simpa using hname
    · exact List.nodup_singleton _
  have hdescribed : ∃ tokens, expandSchema entryItem = .ok tokens ∧
      DescribedAs meaning entryItem entryShapes tokens entryDecl :=
    ⟨_, rfl, rfl, rfl, rfl, rfl, .cons ⟨rfl, rfl⟩ .nil⟩
  have hstands : StructDecl.TypesStand entryKnown entryDecl := by
    refine ⟨?_, ?_⟩ <;> simp [entryDecl, Schema.TypeRef.parts, Schema.TypeRef.MayStand]
  exact ⟨hlegal, rfl, hdescribed, rfl, hstands, fun tag => rfl⟩

end Wireform.Samples
