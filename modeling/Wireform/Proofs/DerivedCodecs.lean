import Wireform.Proofs.Declaration
import Wireform.Proofs.Expanded
import Wireform.Proofs.Programs

/-!
# What derived codecs mean

The calls of derived codecs are those of the traits in any scope, since they name the traits
(`Source.derived_sound`).  Hence a structure whose members have different names is compiled with its
derived codec, and the codec is that of the record of its fields (`Derive.codec?_program`).
-/
namespace Wireform

namespace Source

/-! ## 1. The dialect -/

section

variable {scope : Scope}

/-- Without imports every name stands for itself. -/
theorem expand_nil (himports : scope.imports = []) (steps : List String) :
    scope.expand steps = steps := by
  cases steps with
  | nil => rfl
  | cons first rest =>
    rw [Scope.expand, himports]
    rfl

theorem function?_crate (himports : scope.imports = []) (steps : List String) :
    scope.function? (crateFunction steps) = functions.lookup ("bitwire" :: steps) := by
  rw [crateFunction, Scope.function?, expand_nil himports]

theorem meaning_reference {target : Target} {shape : Shape} {place : Place}
    (h : scope.Sees target shape place) (hint : Option Ty) :
    target.reference.meaning scope hint = some ⟨.borrowed false (.value shape), fetch place⟩ := by
  cases h with
  | member hself hmember =>
    rw [Target.reference, Expr.meaning, meaning_member hself hmember]
    rfl
  | var hlocal =>
    rw [Target.reference, Expr.meaning, hlocal]
    rfl

end

/-- **The calls of derived codecs are those of the traits**, for all types. -/
theorem derived_sound : derived.Sound fun _ => True where
  size himports _ _ _ hsees hint :=
    meaning_call hint (function?_crate himports ["Encoder", "size"])
      (exprs_cons (meaning_reference hsees _) exprs_nil)
  write himports _ _ _ hsees htransfers _ hint :=
    meaning_call hint (function?_crate himports ["Encoder", "serialize"])
      (exprs_cons (meaning_reference hsees _) (meanings_buffers htransfers _))
  overwrite himports hself _ _ _ hmember htransfers hint :=
    meaning_call hint (function?_crate himports ["Decoder", "deserialize_in_place"])
      (exprs_cons (meaning_place hself hmember _) (meanings_buffers htransfers _))
  slot hn := if_pos hn
  bitset {scope} himports bytes := by
    have hexpand := expand_nil himports ["bitwire", "bitset", "NullBitset"]
    constructor <;> (rw [derived, Scope.function?, if_pos ⟨hexpand, by decide⟩]; rfl)
  expand himports _ _ rest := expand_nil himports _

end Source

namespace Derive

open Lexeme (src_plain)
open Source (AgreeOn Expr HasBitset ReadsField Run Scope Ty Types codecsOf)

/-! ## 2. New structures -/

/-- The field with the type of its values. -/
def FieldShape.typed (meaning : TypeExpr → Shape) (shape : FieldShape) : Source.Field :=
  ⟨shape.place, (shape.define meaning).type.inner⟩

theorem FieldShape.typed_always (meaning : TypeExpr → Shape) (member : MemberRef) {type : TypeExpr}
    (hinner : optionInner? type = none) :
    FieldShape.typed meaning ⟨member, type, false, none⟩ =
      ⟨⟨member.token, .always⟩, meaning type⟩ := by
  simp [typed, define, place, presence, hinner, FieldType.inner]

theorem FieldShape.typed_nullable (meaning : TypeExpr → Shape) (member : MemberRef)
    {type inner : TypeExpr} (hinner : optionInner? type = some inner) (slot : Nat) :
    FieldShape.typed meaning ⟨member, type, false, some slot⟩ =
      ⟨⟨member.token, .nullable slot⟩, meaning inner⟩ := by
  simp [typed, define, place, presence, hinner, FieldType.inner]

/-- The types that are spelled as optional are optional. -/
def OptionsAreSuch (types : Types) (shapes : List FieldShape) : Prop :=
  ∀ shape ∈ shapes, ∀ inner, optionInner? shape.type = some inner →
    types.shapeOf shape.type = .option (types.shapeOf inner)

section

variable {scope : Scope} {bytes : Nat}

/-- A call of the decoder of a type reads a value of the type. -/
theorem meaning_reading (himports : scope.imports = []) (htransfers : scope.Transfers false)
    (type : TypeExpr) (hint : Option Ty) :
    (reading type).meaning scope hint = some ⟨.value (scope.types.shapeOf type), do
      let value ← Source.reading (scope.types.codecOf (scope.types.shapeOf type)).read
      pure (.value value)⟩ := by
  have hfunction : scope.function? (.through type ["bitwire", "Decoder"] "deserialize") =
      some (.read type) := if_pos ⟨Source.expand_nil himports _, rfl⟩
  exact Source.meaning_attempt htransfers.fails (fun hint =>
    Source.meaning_call hint hfunction (Source.meanings_buffers htransfers _)) hint

theorem readsField_always (himports : scope.imports = []) (htransfers : scope.Transfers false)
    (member : MemberRef) {type : TypeExpr} (hinner : optionInner? type = none) :
    ReadsField scope bytes (newValue ⟨member, type, false, none⟩)
      (FieldShape.typed scope.types.shapeOf ⟨member, type, false, none⟩) := by
  rw [FieldShape.typed_always _ member hinner]
  exact ⟨_, meaning_reading himports htransfers type _, fun _ _ _ => rfl⟩

theorem readsField_skipped (scope : Scope) (bytes : Nat) (member : MemberRef) (type : TypeExpr) :
    ReadsField scope bytes (newValue ⟨member, type, true, none⟩)
      (FieldShape.typed scope.types.shapeOf ⟨member, type, true, none⟩) :=
  ⟨_, Source.Dialect.Sound.meaning_initialValue scope _, fun _ _ _ => rfl⟩

theorem readsField_nullable (himports : scope.imports = []) (htransfers : scope.Transfers false)
    (hbitset : scope.locals.lookup "bitset" = some (false, .bitset bytes)) (member : MemberRef)
    {type inner : TypeExpr} (hinner : optionInner? type = some inner) {slot : Nat}
    (hslot : slot ≤ maxSlot) :
    ReadsField scope bytes (newValue ⟨member, type, false, some slot⟩)
      (FieldShape.typed scope.types.shapeOf ⟨member, type, false, some slot⟩) := by
  have hvalue : newValue ⟨member, type, false, some slot⟩ =
      .choose (Source.derived.nullness slot) (.item (.plain false ["None"]))
        (.call (.plain false ["Some"]) [reading inner]) := by
    simp [newValue, hinner]
  have htest := Source.derived_sound.meaning_nullness hslot hbitset none
  have hfunction : scope.function? (.plain false ["Some"]) = some .present := by
    rw [Scope.function?, Source.expand_nil himports]
    rfl
  have hsome := Source.meaning_call (some (.value (.option (scope.types.shapeOf inner)))) hfunction
    (Source.exprs_cons (meaning_reading himports htransfers inner _) Source.exprs_nil)
  have hnone : (Expr.item (.plain false ["None"])).meaning scope
      (some (.value (.option (scope.types.shapeOf inner)))) =
        some ⟨.value (.option (scope.types.shapeOf inner)), pure (.value .null)⟩ := rfl
  rw [FieldShape.typed_nullable _ member hinner, hvalue]
  refine ⟨_, Source.meaning_choose htest hnone hsome, fun set machine hset => ?_⟩
  have hread : (Source.Field.codec scope.types
      ⟨⟨member.token, .nullable slot⟩, scope.types.shapeOf inner⟩).read set = (do
        if ← set.test slot then pure .null
        else do
          let inner ← (scope.types.codecOf (scope.types.shapeOf inner)).read
          pure (.present inner)) := rfl
  refine (Source.choosing_testingNull slot (hset rfl) _ _).trans ?_
  rw [hread, Source.reading_bind, bind_assoc]
  refine congrFun (congrArg (Source.reading (set.test slot) >>= ·) (funext fun isNull => ?_)) machine
  cases isNull with
  | true => rfl
  | false =>
    funext machine
    rw [if_neg Bool.false_ne_true, if_neg Bool.false_ne_true, Source.reading_bind, bind_assoc]
    exact Source.bind_congr_left (Source.expect_reading rfl) _

/-- Each field of a new structure is read, or gets its initial value. -/
theorem forall₂_newValue (himports : scope.imports = []) (htransfers : scope.Transfers false)
    {slot : Nat} {shapes : List FieldShape} (h : Classified slot shapes)
    (hbitset : (∃ shape ∈ shapes, shape.isNullable) →
      scope.locals.lookup "bitset" = some (false, .bitset bytes))
    (hslots : ∀ shape ∈ shapes, ∀ own, shape.slot = some own → own ≤ maxSlot) :
    List.Forall₂ (ReadsField scope bytes) (shapes.map newValue)
      (shapes.map (FieldShape.typed scope.types.shapeOf)) := by
  induction h with
  | nil => exact .nil
  | @skipped slot member type shapes _ ih =>
    rw [List.forall_mem_cons] at hslots
    exact .cons (readsField_skipped scope bytes member type) (ih (fun ⟨shape, hshape, hnullable⟩ =>
      hbitset ⟨shape, List.mem_cons_of_mem _ hshape, hnullable⟩) hslots.2)
  | @nullable slot member type inner shapes hinner _ ih =>
    rw [List.forall_mem_cons] at hslots
    have hbits := hbitset ⟨_, List.mem_cons_self, rfl⟩
    exact .cons (readsField_nullable himports htransfers hbits member hinner (hslots.1 _ rfl))
      (ih (fun _ => hbits) hslots.2)
  | @always slot member type shapes hinner _ ih =>
    rw [List.forall_mem_cons] at hslots
    exact .cons (readsField_always himports htransfers member hinner)
      (ih (fun ⟨shape, hshape, hnullable⟩ =>
        hbitset ⟨shape, List.mem_cons_of_mem _ hshape, hnullable⟩) hslots.2)

end

/-! ## 3. Programs -/

section

variable {types : Types} {shapes : List FieldShape} {slot : Nat}

/-- The fields of classified shapes, with their types. -/
abbrev typedFields (types : Types) (shapes : List FieldShape) : List Source.Field :=
  shapes.map (FieldShape.typed types.shapeOf)

theorem isNullable_typed (h : Classified slot shapes) (types : Types) :
    ∀ shape ∈ shapes, (shape.typed types.shapeOf).isNullable = shape.isNullable := by
  induction h with
  | nil => exact List.forall_mem_nil _
  | skipped _ ih => exact List.forall_mem_cons.mpr ⟨rfl, ih⟩
  | nullable _ _ ih => exact List.forall_mem_cons.mpr ⟨rfl, ih⟩
  | always _ _ ih => exact List.forall_mem_cons.mpr ⟨rfl, ih⟩

/-- The bitset has a bit for every optional field. -/
theorem fieldsBitsetBytes_typed (h : Classified slot shapes) (types : Types) :
    fieldsBitsetBytes (codecsOf types (typedFields types shapes)) = shapesBitsetBytes shapes := by
  unfold fieldsBitsetBytes shapesBitsetBytes codecsOf typedFields
  rw [List.map_map, List.filter_map, List.length_map]
  congr 2
  exact List.filter_congr fun shape hshape => isNullable_typed h types shape hshape

/-- The fields have the types that they are declared with. -/
theorem type_typed (h : Classified slot shapes) (htypes : OptionsAreSuch types shapes) :
    ∀ shape ∈ shapes, (shape.typed types.shapeOf).type = types.shapeOf shape.type := by
  induction h with
  | nil => exact List.forall_mem_nil _
  | skipped _ ih =>
    exact List.forall_mem_cons.mpr ⟨rfl, ih (List.forall_mem_cons.mp htypes).2⟩
  | nullable hinner _ ih =>
    refine List.forall_mem_cons.mpr ⟨?_, ih (List.forall_mem_cons.mp htypes).2⟩
    rw [FieldShape.typed_nullable _ _ hinner]
    exact ((List.forall_mem_cons.mp htypes).1 _ hinner).symm
  | always hinner _ ih =>
    refine List.forall_mem_cons.mpr ⟨?_, ih (List.forall_mem_cons.mp htypes).2⟩
    rw [FieldShape.typed_always _ _ hinner]
    rfl

/-- Where no field is optional, the types on the wire are those of the fields that are not
skipped. -/
theorem fixedSizes_typed (h : Classified slot shapes)
    (hnone : ∀ shape ∈ shapes, shape.isNullable = false) (types : Types) :
    ((codecsOf types (typedFields types shapes)).filter FieldCodec.isWired).map
        (fun field => field.codec.fixedSize) =
      (wiredTypes shapes).map fun type => (types.codecOf (types.shapeOf type)).fixedSize := by
  induction h with
  | nil => rfl
  | skipped _ ih => exact ih (List.forall_mem_cons.mp hnone).2
  | nullable _ _ _ => cases (List.forall_mem_cons.mp hnone).1
  | always hinner _ ih =>
    have hrest := ih (List.forall_mem_cons.mp hnone).2
    unfold codecsOf typedFields at hrest ⊢
    rw [List.map_cons, List.map_cons, FieldShape.typed_always _ _ hinner]
    exact congrArg (_ :: ·) hrest

theorem slot_typed (hslots : ∀ shape ∈ shapes, ∀ own, shape.slot = some own → own ≤ maxSlot)
    (types : Types) : ∀ field ∈ typedFields types shapes, ∀ slot,
      field.presence = .nullable slot → slot ≤ maxSlot := by
  intro field hfield slot hslot
  obtain ⟨⟨member, type, skip, own⟩, hshape, rfl⟩ := List.mem_map.mp hfield
  refine hslots _ hshape slot ?_
  cases skip with
  | true => cases hslot
  | false =>
    cases own with
    | none => cases hslot
    | some own =>
      cases hslot
      rfl

/-- The members of the program have the types of the fields. -/
theorem members_program (fields : Fields) (h : Classified 0 shapes) (htypes : OptionsAreSuch types shapes) :
    ((program fields shapes).scope types).members =
      (typedFields types shapes).map fun field => (field.token, field.type) := by
  unfold program Source.Program.scope typedFields
  rw [List.map_map, List.map_map]
  refine List.map_congr_left fun shape hshape => ?_
  exact congrArg (shape.member.token, ·) (type_typed h htypes shape hshape).symm

/-- Where the bitset has no bytes, no field is optional. -/
theorem isNullable_of_bitset (hzero : shapesBitsetBytes shapes = 0) :
    ∀ shape ∈ shapes, shape.isNullable = false := by
  unfold shapesBitsetBytes bitsetSize at hzero
  have hcount : (shapes.filter FieldShape.isNullable).length = 0 := by omega
  intro shape hshape
  have hempty := List.filter_eq_nil_iff.mp (List.length_eq_zero_iff.mp hcount) shape hshape
  exact Bool.eq_false_iff.mpr hempty

/-- The constant of the fixed size is that of the record. -/
theorem fixedSize?_program (fields : Fields) (h : Classified 0 shapes)
    (hself : ∀ shape ∈ shapes, Source.isSelfType shape.type = false) :
    Source.fixedSize? ((program fields shapes).scope types)
        (program fields shapes).encoder.fixedSize =
      some (fieldsFixedSize (codecsOf types (typedFields types shapes))) := by
  have hbytes := fieldsBitsetBytes_typed h types
  unfold fieldsFixedSize
  by_cases hzero : shapesBitsetBytes shapes = 0
  · have hexpr : (program fields shapes).encoder.fixedSize =
        some (Source.fixedSizesOf (wiredTypes shapes)) := if_pos hzero
    have hwired : ∀ type ∈ wiredTypes shapes, Source.isSelfType type = false := by
      intro type htype
      obtain ⟨shape, hshape, rfl⟩ := List.mem_map.mp htype
      exact hself shape (List.mem_of_mem_filter hshape)
    rw [hexpr, Source.derived_sound.fixedSize?_fixedSizesOf rfl hwired, hbytes, if_pos hzero,
      fixedSizes_typed h (isNullable_of_bitset hzero)]
    rfl
  · have hexpr : (program fields shapes).encoder.fixedSize = none := if_neg hzero
    rw [hexpr, hbytes, if_neg hzero]
    rfl

/-- The function that measures does so with the size of the record. -/
theorem meaning_programSize (fields : Fields) (h : Classified 0 shapes) (types : Types)
    (hplaced : Source.Placed ((program fields shapes).scope types) 0 (typedFields types shapes)) :
    ∃ size, Source.Body.meaning { (program fields shapes).scope types with
        receiver := some false, returns := .size,
        fixedSize := fieldsFixedSize (codecsOf types (typedFields types shapes)) }
          (program fields shapes).encoder.size = some size ∧
      ∀ values, List.Forall₂ Source.Field.Takes (typedFields types shapes) values →
        size.toSize values = (Codec.record (codecsOf types (typedFields types shapes))).size values := by
  let scope : Scope := { (program fields shapes).scope types with
    receiver := some false, returns := .size,
    fixedSize := fieldsFixedSize (codecsOf types (typedFields types shapes)) }
  have hbytes := fieldsBitsetBytes_typed h types
  have hfirst : (Source.Statement.allowing "unused_mut" (.bind true "size" (some "usize")
      (.number (shapesBitsetBytes shapes) "usize"))).meaning scope =
        some ⟨scope.withLocal "size" true .size,
          Source.performing (Source.bindLocal "size" (.number (shapesBitsetBytes shapes)))⟩ := by
    rw [Source.meaning_allowing, Source.Statement.meaning]
    rfl
  obtain ⟨count, hcount, hcounts⟩ := Source.meaning_counting Source.derived_sound
    (show scope.imports = _ from rfl) rfl rfl (hplaced.of_members rfl) hfirst
  have hplaces : (typedFields types shapes).map Source.Field.toMember =
      shapes.map FieldShape.place := by
    rw [List.map_map]
    rfl
  rw [hplaces] at hcount
  have hsize (values : List Value) :=
    Source.size_record (codecsOf types (typedFields types shapes)) values
  rw [hbytes] at hsize
  by_cases hzero : shapesBitsetBytes shapes = 0
  · have hbody : (program fields shapes).encoder.size =
        ⟨.whenSome "size" (Source.fixedSizeOf Source.ownType) [.giveBack (.var "size")]
          :: .allowing "unused_mut"
            (.bind true "size" (some "usize") (.number (shapesBitsetBytes shapes) "usize"))
          :: (shapes.map FieldShape.place).flatMap Source.derived.sizeStatements, .var "size"⟩ := by
      unfold program programEncoder
      dsimp only
      rw [if_pos hzero]
      rfl
    have hown := Source.derived_sound.meaning_fixedSizeOf (show scope.imports = _ from rfl)
      Source.ownType none
    obtain ⟨run, hrun, hsizes⟩ := Source.meaning_behindShortcut (show scope.returns = _ from rfl) hown hcount
    rw [hbody]
    exact ⟨run, hrun, fun values htakes => (hsizes values).trans
      ((congrArg _ (hcounts values htakes)).trans (hsize values).symm)⟩
  · have hbody : (program fields shapes).encoder.size =
        ⟨.allowing "unused_mut"
            (.bind true "size" (some "usize") (.number (shapesBitsetBytes shapes) "usize"))
          :: (shapes.map FieldShape.place).flatMap Source.derived.sizeStatements, .var "size"⟩ := by
      unfold program programEncoder
      dsimp only
      rw [if_neg hzero]
      rfl
    have hnone : fieldsFixedSize (codecsOf types (typedFields types shapes)) = none :=
      if_neg (hbytes ▸ hzero)
    rw [hbody]
    refine ⟨count, hcount, fun values htakes => ?_⟩
    rw [hsize, hnone]
    exact hcounts values htakes

/-- The function that reads a new structure does so with the record. -/
theorem meaning_programRead (fields : Fields) (h : Classified 0 shapes)
    (hslots : ∀ shape ∈ shapes, ∀ own, shape.slot = some own → own ≤ maxSlot)
    (htypes : OptionsAreSuch types shapes) (overwrite : Option (Overwriter (List Value))) :
    ∃ read, Source.Body.meaning
        { ((program fields shapes).scope types).inFunction none false .self with
          overwrite := overwrite } (program fields shapes).decoder.deserialize = some read ∧
      read.toReader = (Codec.record (codecsOf types (typedFields types shapes))).read := by
  let scope : Scope := { ((program fields shapes).scope types).inFunction none false .self with
    overwrite := overwrite }
  have htransfers : scope.Transfers false := ⟨rfl, rfl, .self, rfl⟩
  have hbytes := fieldsBitsetBytes_typed h types
  have htokens : (typedFields types shapes).map (fun field => field.token) =
      shapes.map fun shape => shape.member.token := by
    rw [List.map_map]
    rfl
  have hinner : (scope.behindBitset (shapesBitsetBytes shapes)).imports = [] ∧
      (scope.behindBitset (shapesBitsetBytes shapes)).Transfers false ∧
      (scope.behindBitset (shapesBitsetBytes shapes)).types = types := by
    unfold Scope.behindBitset
    split
    · exact ⟨rfl, htransfers, rfl⟩
    · exact ⟨rfl, ⟨rfl, rfl, .self, rfl⟩, rfl⟩
  have hbitset : (∃ shape ∈ shapes, shape.isNullable) →
      (scope.behindBitset (shapesBitsetBytes shapes)).locals.lookup "bitset" =
        some (false, .bitset (shapesBitsetBytes shapes)) := by
    rintro ⟨shape, hshape, hnullable⟩
    have hzero : shapesBitsetBytes shapes ≠ 0 := fun hzero =>
      Bool.false_ne_true ((isNullable_of_bitset hzero shape hshape).symm.trans hnullable)
    rw [Scope.behindBitset, if_neg hzero]
    rfl
  have hvalues := forall₂_newValue hinner.1 hinner.2.1 h hbitset hslots
  rw [hinner.2.2] at hvalues
  have hread := Source.meaning_reading Source.derived_sound (show scope.imports = _ from rfl)
    htransfers rfl (members_program fields h htypes) hbytes hvalues fields.style
  rw [htokens] at hread
  obtain ⟨read, hread, hreads⟩ := hread
  exact ⟨read, (Source.meaning_touch htransfers _ _).trans hread, hreads⟩

/-- **A structure is compiled with its derived codec**, if its members have different names, and the
codec does what the record of its fields does. -/
theorem codec?_program (fields : Fields) (h : Classified 0 shapes)
    (hslots : ∀ shape ∈ shapes, ∀ own, shape.slot = some own → own ≤ maxSlot)
    (hself : ∀ shape ∈ shapes, Source.isSelfType shape.type = false)
    (htypes : OptionsAreSuch types shapes)
    (hnodup : (shapes.map fun shape => shape.member.token).Nodup) :
    ∃ codec, (program fields shapes).codec? types = some codec ∧
      AgreeOn (typedFields types shapes) codec
        (Codec.record (codecsOf types (typedFields types shapes))) := by
  have hbytes := fieldsBitsetBytes_typed h types
  have hfieldSlots := slot_typed hslots types
  have hnodup' : (((program fields shapes).scope types).members.map Prod.fst).Nodup := by
    unfold program Source.Program.scope
    rw [List.map_map, List.map_map]
    exact hnodup
  have hmembers := members_program fields h htypes
  have hplaced := Source.placed_of_nodup hnodup' hmembers
  have htransfers := Source.transfers_inFunction ((program fields shapes).scope types)
  obtain ⟨size, hsize, hsizes⟩ := meaning_programSize fields h types hplaced
  obtain ⟨write, hwrite, hwrites⟩ := Source.derived_sound.meaning_writingAll rfl rfl
    (htransfers (some false) true .unit) rfl (hplaced.of_members rfl) (fun _ _ _ => trivial)
    hfieldSlots hbytes
  obtain ⟨overwrite, hoverwrite, hoverwrites⟩ := Source.derived_sound.meaning_overwritingAll rfl rfl
    (htransfers (some true) false .unit) rfl (hplaced.of_members rfl) hfieldSlots hbytes
  obtain ⟨read, hread, hreads⟩ := meaning_programRead fields h hslots htypes (some overwrite.toOverwriter)
  have hplaces : (typedFields types shapes).map Source.Field.toMember =
      shapes.map FieldShape.place := by
    rw [List.map_map]
    rfl
  rw [hplaces] at hwrite hoverwrite
  refine ⟨_, Source.codec?_eq_some ?_ (fixedSize?_program fields h hself) hsize
    ((Source.meaning_touch (htransfers _ _ _) _ _).trans hwrite)
    ((Source.meaning_touch (htransfers _ _ _) _ _).trans hoverwrite) hread, ?_⟩
  · unfold program
    rw [List.map_map]
    exact hnodup
  · exact ⟨rfl, hsizes, hwrites, hreads, fun target hlength => hoverwrites target hlength⟩

/-- Two members of one name are not compiled. -/
theorem codec?_program_eq_none (fields : Fields) (types : Types)
    (hnodup : ¬(shapes.map fun shape => shape.member.token).Nodup) :
    (program fields shapes).codec? types = none := by
  unfold Source.Program.codec? program
  rw [List.map_map]
  exact if_neg hnodup

end

/-! ## 4. Codecs of declared records -/

section

variable [DecimalForm] (sharing : Sharing Value) (initial : String → Value)
  (named : String → Codec Value)

/-- The fields have the codecs that they are declared with. -/
theorem codecsOf_typedFields {slot : Nat} {shapes : List FieldShape} (h : Classified slot shapes)
    {meaning : TypeExpr → Shape}
    (htypes : OptionsAreSuch (.of meaning sharing initial named) shapes) :
    codecsOf (.of meaning sharing initial named)
        (typedFields (.of meaning sharing initial named) shapes) =
      (numberFields slot (shapes.map (FieldShape.define meaning))).map fun field =>
        field.1.codec sharing initial named field.2 := by
  induction h with
  | nil => rfl
  | skipped _ ih => exact congrArg (_ :: ·) (ih (List.forall_mem_cons.mp htypes).2)
  | @nullable slot member type inner shapes hinner _ ih =>
    have hdefine : FieldShape.define meaning ⟨member, type, false, some (slot + 1)⟩ =
        ⟨member.schemaName, .nullable (meaning inner)⟩ := by simp [FieldShape.define, hinner]
    have hrest := ih (List.forall_mem_cons.mp htypes).2
    unfold codecsOf typedFields at hrest ⊢
    rw [List.map_cons, List.map_cons, List.map_cons, FieldShape.typed_nullable _ _ hinner, hrest,
      hdefine]
    rfl
  | @always slot member type shapes hinner _ ih =>
    have hdefine : FieldShape.define meaning ⟨member, type, false, none⟩ =
        ⟨member.schemaName, .plain (meaning type)⟩ := by simp [FieldShape.define, hinner]
    have hrest := ih (List.forall_mem_cons.mp htypes).2
    unfold codecsOf typedFields at hrest ⊢
    rw [List.map_cons, List.map_cons, List.map_cons, FieldShape.typed_always _ _ hinner, hrest,
      hdefine]
    rfl

/-- **What the derivations of a structure expand to does what the record of its fields does**, as it is
declared, and is compiled if its members have different names. -/
theorem codec?_eq_recordCodec (fields : Fields) {shapes : List FieldShape} (h : Classified 0 shapes)
    (hslots : ∀ shape ∈ shapes, ∀ own, shape.slot = some own → own ≤ maxSlot)
    (hself : ∀ shape ∈ shapes, Source.isSelfType shape.type = false) {meaning : TypeExpr → Shape}
    (htypes : OptionsAreSuch (.of meaning sharing initial named) shapes)
    (hnodup : (shapes.map fun shape => shape.member.token).Nodup) :
    ∃ codec, (program fields shapes).codec? (.of meaning sharing initial named) = some codec ∧
      AgreeOn (typedFields (.of meaning sharing initial named) shapes) codec
        (recordCodec sharing initial named (shapes.map (FieldShape.define meaning))) := by
  have hcodecs := codecsOf_typedFields sharing initial named h htypes
  unfold recordCodec
  rw [← hcodecs]
  exact codec?_program fields h hslots hself htypes hnodup

end

end Derive

end Wireform
