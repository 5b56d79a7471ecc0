import Mathlib.Data.List.Nodup
import Wireform.Proofs.EmittedText
import Wireform.Proofs.Programs

/-!
# What emitted codecs mean

The calls of emitted codecs are calls of methods.  They are those of the traits unless the type of a
field has a method of its own of the name, and a decimal number has one (`Source.emitted_sound`).
Hence the file of a structure is compiled exactly if its members have different names and no field is
a decimal number, optional or not (`Emit.codec?_isSome_iff`); then its codec does what the lowered
codec does (`Emit.codec?_program`).
-/
namespace Wireform

namespace Source

/-! ## 1. The dialect -/

section

variable {scope : Scope}

/-- The methods of the traits are in scope. -/
theorem hasTrait_emitted (himports : scope.imports = emitted.imports) {name : String}
    (hname : name ∈ ["Decoder", "Encoder"]) : scope.hasTrait name = true := by
  rw [Scope.hasTrait, himports]
  simp only [List.mem_cons, List.not_mem_nil, or_false] at hname
  rcases hname with rfl | rfl <;> rfl

/-- No name but that of the bitset type is imported. -/
theorem expand_emitted (himports : scope.imports = emitted.imports) {first : String}
    (hfirst : first ≠ "NullBitset") (rest : List String) :
    scope.expand (first :: rest) = first :: rest := by
  rw [Scope.expand, himports]
  simp [emitted, List.findSome?, hfirst.symm]

theorem isOfTrait_emitted (himports : scope.imports = emitted.imports) {shape : Shape}
    {method trait : String} (hown : Shape.hasOwn shape method = false)
    (htrait : trait ∈ ["Decoder", "Encoder"]) : scope.isOfTrait shape method trait = true := by
  rw [Scope.isOfTrait, hown, hasTrait_emitted himports htrait]
  rfl

/-- No type has another method of its own than that which writes. -/
theorem hasOwn_of_ne (shape : Shape) {method : String} (hmethod : method ≠ "serialize") :
    Shape.hasOwn shape method = false := by
  unfold Shape.hasOwn
  split
  · exact beq_eq_false_iff_ne.mpr hmethod
  · rfl

/-- What is called on, as an expression. -/
theorem meaning_target {target : Target} {shape : Shape} {place : Place}
    (h : scope.Sees target shape place) (hint : Option Ty) :
    ∃ ty, target.expr.meaning scope hint = some ⟨ty, fetch place⟩ ∧ ty.target = .value shape := by
  cases h with
  | member hself hmember => exact ⟨.value shape, meaning_member hself hmember, rfl⟩
  | var hlocal =>
    refine ⟨.borrowed false (.value shape), ?_, rfl⟩
    rw [Target.expr, Expr.meaning, hlocal]
    rfl

end

/-- **The calls of emitted codecs are those of the traits**, for types that have no method of their own
that writes. -/
theorem emitted_sound : emitted.Sound fun shape => Shape.hasOwn shape "serialize" = false where
  size {scope} himports target shape place hsees hint := by
    obtain ⟨ty, hmeaning, hty⟩ := meaning_target hsees none
    have hinvoke := meaning_method hint hmeaning
      (show methods.lookup "size" = some .size from rfl) exprs_nil
    have htrait : scope.isOfTrait shape "size" "Encoder" = true :=
      isOfTrait_emitted himports (hasOwn_of_ne shape (by decide)) (by decide)
    refine hinvoke.trans ?_
    simp only [Scope.invoke, hty, htrait, if_pos]
  write {scope} himports target shape place hsees htransfers hadmits hint := by
    obtain ⟨ty, hmeaning, hty⟩ := meaning_target hsees none
    have hinvoke := meaning_method hint hmeaning
      (show methods.lookup "serialize" = some .write from rfl) (meanings_buffers htransfers _)
    have htrait : scope.isOfTrait shape "serialize" "Encoder" = true :=
      isOfTrait_emitted himports hadmits (by decide)
    refine hinvoke.trans ?_
    simp only [Scope.invoke, hty, htrait, if_pos]
  overwrite {scope} himports hself token index shape hmember htransfers hint := by
    have hreceiver : scope.receiver.isSome = true := by rw [hself]; rfl
    have hinvoke := meaning_method hint (meaning_member hreceiver hmember)
      (show methods.lookup "deserialize_in_place" = some .overwrite from rfl)
      (meanings_buffers htransfers _)
    have htrait : scope.isOfTrait shape "deserialize_in_place" "Decoder" = true :=
      isOfTrait_emitted himports (hasOwn_of_ne shape (by decide)) (by decide)
    refine hinvoke.trans ?_
    rw [place_member hself hmember]
    simp only [Scope.invoke, Option.map, Ty.target, htrait, if_pos]
  slot {n} hn := by
    have hnumber : numberType (some .slot) n emitted.slotSuffix =
        if some Ty.slot = some .slot then (if n ≤ 65535 then some .slot else none) else some .size :=
      rfl
    rw [hnumber, if_pos rfl]
    exact if_pos hn
  bitset {scope} himports bytes := by
    have hexpand : scope.expand ["NullBitset"] = ["bitwire", "bitset", "NullBitset"] := by
      rw [Scope.expand, himports]
      rfl
    constructor <;> (rw [emitted, Scope.function?, if_pos ⟨hexpand, by decide⟩]; rfl)
  expand himports first hfirst rest := by
    refine expand_emitted himports ?_ rest
    rintro rfl
    exact absurd hfirst (by decide)

/-! ## 2. What is not compiled -/

section

variable {scope : Scope} {field : Field} {fields : List Field}

/-- A statement changes nothing that it sees but the variables. -/
theorem Statement.scope_of_meaning : ∀ (statement : Statement) {scope : Scope} {effect : Effect},
    statement.meaning scope = some effect → ∃ locals, effect.scope = { scope with locals := locals }
  | .bind isMutable name type value, scope, effect, h => by
    rw [Statement.meaning] at h
    obtain ⟨found, -, h⟩ := Option.bind_eq_some_iff.mp h
    obtain ⟨-, h⟩ := Option.ite_none_right_eq_some.mp h
    cases h
    exact ⟨_, rfl⟩
  | .touch isBorrow first second, scope, effect, h => by
    rw [Statement.meaning] at h
    obtain ⟨-, h⟩ := Option.ite_none_right_eq_some.mp h
    cases h
    exact ⟨_, rfl⟩
  | .perform value, scope, effect, h => by
    rw [Statement.meaning] at h
    obtain ⟨found, -, h⟩ := Option.bind_eq_some_iff.mp h
    obtain ⟨-, h⟩ := Option.ite_none_right_eq_some.mp h
    cases h
    exact ⟨_, rfl⟩
  | .increase name value, scope, effect, h => by
    rw [Statement.meaning] at h
    obtain ⟨found, -, h⟩ := Option.bind_eq_some_iff.mp h
    obtain ⟨-, h⟩ := Option.ite_none_right_eq_some.mp h
    cases h
    exact ⟨_, rfl⟩
  | .assign token value, scope, effect, h => by
    rw [Statement.meaning] at h
    obtain ⟨place, -, h⟩ := Option.bind_eq_some_iff.mp h
    obtain ⟨found, -, h⟩ := Option.bind_eq_some_iff.mp h
    obtain ⟨-, h⟩ := Option.ite_none_right_eq_some.mp h
    cases h
    exact ⟨_, rfl⟩
  | .giveBack value, scope, effect, h => by
    rw [Statement.meaning] at h
    obtain ⟨found, -, h⟩ := Option.bind_eq_some_iff.mp h
    obtain ⟨-, h⟩ := Option.ite_none_right_eq_some.mp h
    cases h
    exact ⟨_, rfl⟩
  | .whenSome name of body, scope, effect, h => by
    rw [Statement.meaning] at h
    obtain ⟨found, -, h⟩ := Option.bind_eq_some_iff.mp h
    obtain ⟨ty, -, h⟩ := Option.bind_eq_some_iff.mp h
    obtain ⟨inner, -, h⟩ := Option.bind_eq_some_iff.mp h
    cases h
    exact ⟨_, rfl⟩
  | .branch test yes no, scope, effect, h => by
    rw [Statement.meaning] at h
    obtain ⟨found, -, h⟩ := Option.bind_eq_some_iff.mp h
    obtain ⟨first, -, h⟩ := Option.bind_eq_some_iff.mp h
    obtain ⟨second, -, h⟩ := Option.bind_eq_some_iff.mp h
    obtain ⟨-, h⟩ := Option.ite_none_right_eq_some.mp h
    cases h
    exact ⟨_, rfl⟩
  | .allowing lint statement, scope, effect, h =>
    Statement.scope_of_meaning statement ((meaning_allowing scope lint statement).symm.trans h)

/-- So do statements one after the other. -/
theorem scope_of_meanings {statements : List Statement} {effect : Effect}
    (h : Statement.meanings scope statements = some effect) :
    ∃ locals, effect.scope = { scope with locals := locals } := by
  induction statements generalizing scope effect with
  | nil =>
    cases (meanings_nil scope).symm.trans h
    exact ⟨_, rfl⟩
  | cons statement statements ih =>
    rw [Statement.meanings] at h
    obtain ⟨first, hfirst, h⟩ := Option.bind_eq_some_iff.mp h
    obtain ⟨others, hothers, h⟩ := Option.bind_eq_some_iff.mp h
    cases h
    obtain ⟨locals, hlocals⟩ := statement.scope_of_meaning hfirst
    obtain ⟨locals', hlocals'⟩ := ih hothers
    rw [hlocals] at hlocals'
    exact ⟨locals', hlocals'⟩

/-- Statements of which some have no meaning, whatever variables there are, have none. -/
theorem meanings_eq_none (front : List Statement) {rest : List Statement}
    (h : ∀ locals, Statement.meanings { scope with locals := locals } rest = none) :
    Statement.meanings scope (front ++ rest) = none := by
  rw [meanings_append]
  cases hfront : Statement.meanings scope front with
  | none => rfl
  | some first =>
    obtain ⟨locals, hlocals⟩ := scope_of_meanings hfront
    rw [Option.bind_some, hlocals, h]
    rfl

/-- A method that a type has itself is not that of the trait: it has other arguments. -/
theorem invoke_write_eq_none {shape : Shape} {found : Typed} (hfound : found.ty.target = .value shape)
    (hown : Shape.hasOwn shape "serialize" = true) (place : Option Place) (arguments : List Typed) :
    scope.invoke found place .write arguments = none := by
  have hother : scope.isOfTrait shape "serialize" "Encoder" = false := by
    rw [Scope.isOfTrait, hown]
    rfl
  unfold Scope.invoke
  split <;> try contradiction
  · simp only [hfound, hother, Bool.false_eq_true, if_false]
  · rfl

theorem meaning_write_eq_none {target : Target} {shape : Shape} {place : Place}
    (hsees : scope.Sees target shape place) (hown : Shape.hasOwn shape "serialize" = true)
    (hint : Option Ty) : (emitted.write target).meaning scope hint = none := by
  obtain ⟨ty, hmeaning, hty⟩ := meaning_target hsees none
  have hmethod : methods.lookup "serialize" = some .write := rfl
  rw [emitted, Expr.meaning, hmeaning, hmethod]
  cases Expr.meanings scope (some .slot) buffers with
  | none => rfl
  | some arguments => exact invoke_write_eq_none hty hown _ arguments

/-- So no statement that hands on its error has a meaning. -/
theorem meaning_perform_eq_none {target : Target} {shape : Shape} {place : Place}
    (hsees : scope.Sees target shape place) (hown : Shape.hasOwn shape "serialize" = true) :
    (Statement.perform (.attempt (emitted.write target))).meaning scope = none := by
  rw [Statement.meaning, Expr.meaning, meaning_write_eq_none hsees hown]
  rfl

/-- A field whose type has a method of its own that writes is not written. -/
theorem meanings_writeStatements_eq_none {index : Nat} (hself : scope.receiver.isSome = true)
    (hmember : scope.member? field.token = some (index, field.type))
    (hwritten : field.presence ≠ .skipped) (hown : Shape.hasOwn field.shape "serialize" = true) :
    Statement.meanings scope (emitted.writeStatements field.toMember) = none := by
  obtain ⟨⟨token, presence⟩, shape⟩ := field
  cases presence with
  | always =>
    have hperform := meaning_perform_eq_none (.member hself hmember) hown
    show Statement.meanings scope [.perform (.attempt (emitted.write (.member token)))] = none
    rw [Statement.meanings, hperform]
    rfl
  | nullable slot =>
    have hperform := meaning_perform_eq_none (scope.sees_behindNull shape) hown
    have hbody : Statement.meanings (scope.behindNull shape)
        [.perform (.attempt (emitted.write (.var "value")))] = none := by
      rw [Statement.meanings, hperform]
      rfl
    have hborrow : (Expr.borrow false (.member token)).meaning scope none =
        some ⟨.borrowed false (.value (.option shape)), fetch (.member index)⟩ := by
      rw [Expr.meaning, meaning_member hself hmember]
      rfl
    have hsome : (Statement.whenSome "value" (.borrow false (.member token))
        [.perform (.attempt (emitted.write (.var "value")))]).meaning scope = none := by
      rw [Statement.meaning, hborrow]
      show (Statement.meanings (scope.behindNull shape) _).bind _ = none
      rw [hbody]
      rfl
    show Statement.meanings scope [.whenSome "value" (.borrow false (.member token))
        [.perform (.attempt (emitted.write (.var "value")))]] = none
    rw [Statement.meanings, hsome]
    rfl
  | skipped => exact absurd rfl hwritten

/-- **A structure is not written if some field has a type that has a method of its own that writes.** -/
theorem meanings_writingAll_eq_none (hself : scope.receiver.isSome = true) {start : Nat}
    (hplaced : Placed scope start fields) (hfield : field ∈ fields)
    (hwritten : field.presence ≠ .skipped) (hown : Shape.hasOwn field.shape "serialize" = true)
    (bytes : Nat) (rest : List Statement) :
    Statement.meanings scope (emitted.writingAll bytes (fields.map Field.toMember) ++ rest) = none := by
  obtain ⟨index, hmember⟩ := hplaced.exists_member hfield
  obtain ⟨before, behind, rfl⟩ := List.append_of_mem hfield
  have hstatements : emitted.writingAll bytes ((before ++ field :: behind).map Field.toMember) ++ rest =
      (emitted.bitsetWriting bytes ((before ++ field :: behind).map Field.toMember)
        ++ (before.map Field.toMember).flatMap emitted.writeStatements)
        ++ (emitted.writeStatements field.toMember
          ++ ((behind.map Field.toMember).flatMap emitted.writeStatements ++ rest)) := by
    unfold Dialect.writingAll
    rw [List.map_append, List.map_cons, List.flatMap_append, List.flatMap_cons]
    simp only [List.append_assoc]
  rw [hstatements]
  refine meanings_eq_none _ fun locals => ?_
  have hnone : Statement.meanings { scope with locals := locals }
      (emitted.writeStatements field.toMember) = none :=
    meanings_writeStatements_eq_none hself hmember hwritten hown
  rw [meanings_append, hnone]
  rfl

end

end Source

namespace Emit

open Schema (FieldPlan Kind StructCode TypeSchema)
open Source (AgreeOn Expr Placed Run Scope Statement Ty Types codecsOf emitted emitted_sound)

/-! ## 3. Programs -/

/-- The types of the fields are what they are spelled as, and none is the structure itself under the
name that it has in its implementation. -/
structure AreTyped (types : Types) (plans : List FieldPlan) : Prop where
  options : ∀ plan ∈ plans, types.shapeOf (fieldExpr plan.kind true) =
    .option (types.shapeOf (kindExpr plan.kind))
  others : ∀ plan ∈ plans, Source.isSelfType (kindExpr plan.kind) = false

/-- A field with its type. -/
def typedField (types : Types) (plan : FieldPlan) : Source.Field :=
  ⟨programMember plan, types.shapeOf (kindExpr plan.kind)⟩

section

variable {types : Types} {schema : TypeSchema} {plans : List FieldPlan}

/-- The fields of a structure, with their types. -/
abbrev typedFields (types : Types) (plans : List FieldPlan) : List Source.Field :=
  plans.map (typedField types)

theorem toMember_typedFields (types : Types) (plans : List FieldPlan) :
    (typedFields types plans).map Source.Field.toMember = plans.map programMember := by
  rw [List.map_map]
  rfl

/-- The bitset has a bit for every nullable field. -/
theorem fieldsBitsetBytes_typedFields (types : Types) (schema : TypeSchema) :
    fieldsBitsetBytes (codecsOf types (typedFields types schema.fields)) = schema.bitsetBytes := by
  have hnullable : ∀ plan : FieldPlan,
      FieldCodec.isNullable ((typedField types plan).codec types) = plan.isNullable := by
    intro ⟨name, kind, slot⟩
    cases slot <;> rfl
  unfold fieldsBitsetBytes TypeSchema.bitsetBytes TypeSchema.nullableCount TypeSchema.nullableFields
    codecsOf typedFields
  rw [List.map_map, List.filter_map, List.length_map]
  congr 2
  exact List.filter_congr fun plan _ => hnullable plan

/-- The members of the program have the types of the fields. -/
theorem members_program (h : AreTyped types schema.fields) :
    ((program schema).scope types).members =
      (typedFields types schema.fields).map fun field => (field.token, field.type) := by
  unfold program Source.Program.scope typedFields
  rw [List.map_map, List.map_map]
  refine List.map_congr_left fun plan hplan => ?_
  obtain ⟨name, kind, slot⟩ := plan
  cases slot with
  | none => rfl
  | some slot => exact congrArg (_, ·) (h.options _ hplan)

/-- The members of a new structure have the initial values of the fields. -/
theorem initials_program (h : AreTyped types schema.fields) :
    ((program schema).scope types).members.map (fun member => types.initialOf member.2) =
      (codecsOf types (typedFields types schema.fields)).map FieldCodec.initial := by
  rw [members_program h]
  unfold codecsOf typedFields
  rw [List.map_map, List.map_map, List.map_map, List.map_map]
  rfl

/-- Without a bitset all fields are always written. -/
theorem presence_of_zero (hzero : schema.bitsetBytes = 0) :
    ∀ field ∈ typedFields types schema.fields, field.presence = .always := by
  intro field hfield
  have hnone := Source.not_isNullable_of_zero
    ((fieldsBitsetBytes_typedFields types schema).trans hzero) field hfield
  obtain ⟨⟨name, kind, slot⟩, hplan, rfl⟩ := List.mem_map.mp hfield
  cases slot with
  | none => rfl
  | some slot => exact absurd rfl hnone

/-- Every field is on the wire. -/
theorem filter_isWired_typedFields (types : Types) (plans : List FieldPlan) :
    (codecsOf types (typedFields types plans)).filter FieldCodec.isWired =
      codecsOf types (typedFields types plans) := by
  refine List.filter_eq_self.mpr fun codec hcodec => ?_
  obtain ⟨field, hfield, rfl⟩ := List.mem_map.mp hcodec
  obtain ⟨⟨name, kind, slot⟩, hplan, rfl⟩ := List.mem_map.mp hfield
  cases slot <;> rfl

/-- The constant of the fixed size is that of the record. -/
theorem fixedSize?_program (h : AreTyped types schema.fields) :
    Source.fixedSize? ((program schema).scope types) (program schema).encoder.fixedSize =
      some (fieldsFixedSize (codecsOf types (typedFields types schema.fields))) := by
  have hself : ∀ type ∈ schema.fields.map fun plan => kindExpr plan.kind,
      Source.isSelfType type = false := List.forall_mem_map.mpr h.others
  unfold fieldsFixedSize
  rw [fieldsBitsetBytes_typedFields, filter_isWired_typedFields]
  by_cases hzero : schema.bitsetBytes = 0
  · have hexpr : (program schema).encoder.fixedSize =
        some (Source.fixedSizesOf (schema.fields.map fun plan => kindExpr plan.kind)) := if_pos hzero
    have hfixed := emitted_sound.fixedSize?_fixedSizesOf
      (show ((program schema).scope types).imports = _ from rfl) hself
    rw [hexpr, if_pos hzero, hfixed, List.map_map, List.map_map, List.map_map]
    rfl
  · have hexpr : (program schema).encoder.fixedSize = none := if_neg hzero
    rw [hexpr, if_neg hzero]
    rfl

/-- The function that measures does so with the size of the record. -/
theorem meaning_programSize
    (hplaced : Placed ((program schema).scope types) 0 (typedFields types schema.fields)) :
    ∃ size, Source.Body.meaning { (program schema).scope types with
        receiver := some false, returns := .size,
        fixedSize := fieldsFixedSize (codecsOf types (typedFields types schema.fields)) }
          (program schema).encoder.size = some size ∧
      ∀ values, List.Forall₂ Source.Field.Takes (typedFields types schema.fields) values →
        size.toSize values =
          (Codec.record (codecsOf types (typedFields types schema.fields))).size values := by
  let scope : Scope := { (program schema).scope types with
    receiver := some false, returns := .size,
    fixedSize := fieldsFixedSize (codecsOf types (typedFields types schema.fields)) }
  have himports : scope.imports = emitted.imports := rfl
  have hplaced' : Placed scope 0 (typedFields types schema.fields) := hplaced.of_members rfl
  have hsize (values : List Value) :=
    Source.size_record (codecsOf types (typedFields types schema.fields)) values
  rw [fieldsBitsetBytes_typedFields] at hsize
  by_cases hzero : schema.bitsetBytes = 0
  · have hbody : (program schema).encoder.size =
        ⟨[.whenSome "size" ownFixedSize [.giveBack (.var "size")]],
          emitted.sizes (schema.fields.map programMember)⟩ := if_pos hzero
    have hown : ownFixedSize.meaning scope none =
        some ⟨.optionalSize, pure (.optionalSize scope.fixedSize)⟩ := by
      rw [ownFixedSize, Expr.meaning, Scope.constant?]
      exact if_pos (Source.hasTrait_emitted himports (by decide))
    obtain ⟨sum, hsum, hsums⟩ := Source.meaning_sum emitted_sound himports rfl rfl hplaced'
      (presence_of_zero hzero)
    obtain ⟨run, hrun, hruns⟩ := Source.meaning_behindShortcut rfl hown hsum
    rw [toMember_typedFields] at hrun
    rw [hbody]
    refine ⟨run, hrun, fun values htakes => ?_⟩
    rw [hruns, hsize, hsums values htakes.length_eq, hzero, Nat.zero_add]
    rfl
  · have hbody : (program schema).encoder.size =
        ⟨.bind true "size" none (.number schema.bitsetBytes "")
          :: (schema.fields.map programMember).flatMap emitted.sizeStatements, .var "size"⟩ :=
      if_neg hzero
    have hfirst : (Statement.bind true "size" none (.number schema.bitsetBytes "")).meaning scope =
        some ⟨scope.withLocal "size" true .size,
          Source.performing (Source.bindLocal "size" (.number schema.bitsetBytes))⟩ := by
      rw [Statement.meaning]
      rfl
    obtain ⟨count, hcount, hcounts⟩ := Source.meaning_counting emitted_sound himports rfl rfl
      hplaced' hfirst
    have hnone : fieldsFixedSize (codecsOf types (typedFields types schema.fields)) = none :=
      if_neg ((fieldsBitsetBytes_typedFields types schema).symm ▸ hzero)
    rw [toMember_typedFields] at hcount
    rw [hbody]
    refine ⟨count, hcount, fun values htakes => ?_⟩
    rw [hsize, hnone]
    exact hcounts values htakes

/-- Buffers that are not used are let go. -/
theorem meaning_unusedBuffers {scope : Scope} {isWritable : Bool}
    (himports : scope.imports = emitted.imports) (htransfers : scope.Transfers isWritable)
    (hreturns : scope.returns = .result .unit) {statements : List Statement}
    (hstatements : schema.fields = [] → statements = []) :
    Source.Body.meaning scope ⟨statements ++ unusedBuffers schema, Source.success .unit⟩ =
      Source.Body.meaning scope ⟨statements, Source.success .unit⟩ := by
  unfold unusedBuffers
  split
  · next hempty =>
    rw [hstatements (List.isEmpty_iff.mp hempty), List.nil_append]
    have hsuccess (scope' : Scope) (himports' : scope'.imports = emitted.imports) :
        (Source.success .unit).meaning scope' (some scope.returns) =
          some ⟨scope.returns, pure .unit⟩ := by
      rw [hreturns]
      exact emitted_sound.meaning_success himports' (Source.meaning_unit _ _)
    obtain ⟨locals, htouch⟩ : ∃ locals, (Statement.touch false "buf" "cursor").meaning scope =
        some ⟨{ scope with locals := locals }, pure none⟩ := by
      rw [Statement.meaning, htransfers.buffer, htransfers.cursor]
      exact ⟨_, rfl⟩
    have hstatement : Statement.meanings scope [.touch false "buf" "cursor"] =
        some ⟨{ scope with locals := locals }, Source.andThen (pure none) (pure none)⟩ := by
      rw [Source.meanings_cons htouch, Source.meanings_nil]
      rfl
    rw [Source.meaning_body hstatement (hsuccess _ himports),
      Source.meaning_body (Source.meanings_nil scope) (hsuccess scope himports)]
    rfl
  · rw [List.append_nil]

/-- The members of the program have different names if the fields have different identifiers. -/
theorem nodup_members_iff (schema : TypeSchema) :
    ((program schema).members.map Prod.fst).Nodup ↔
      (schema.fields.map fun plan => identOf plan.name).Nodup := by
  have hmembers : (program schema).members.map Prod.fst =
      (schema.fields.map fun plan => identOf plan.name).map Derive.Token.word := by
    unfold program
    rw [List.map_map, List.map_map]
    rfl
  rw [hmembers]
  exact List.nodup_map_iff fun a b heq => Derive.Token.word.inj heq

theorem placed_typedFields (htypes : AreTyped types schema.fields)
    (hnodup : (schema.fields.map fun plan => identOf plan.name).Nodup) :
    Placed ((program schema).scope types) 0 (typedFields types schema.fields) := by
  refine Source.placed_of_nodup ?_ (members_program htypes)
  have hmembers := (nodup_members_iff schema).mpr hnodup
  unfold Source.Program.scope
  rw [List.map_map]
  exact hmembers

/-- Where there are no fields, nothing is written or read. -/
theorem writingAll_eq_nil (hempty : schema.fields = []) :
    emitted.writingAll schema.bitsetBytes (schema.fields.map programMember) = [] ∧
      emitted.overwritingAll schema.bitsetBytes (schema.fields.map programMember) = [] := by
  have hzero : schema.bitsetBytes = 0 := by
    unfold TypeSchema.bitsetBytes TypeSchema.nullableCount TypeSchema.nullableFields bitsetSize
    rw [hempty]
    rfl
  rw [hzero, hempty]
  exact ⟨rfl, rfl⟩

/-- **A structure is compiled with the codec that is emitted for it**, if its members have different
names and no type of a field has a method of its own that writes.  The codec does what the record of
the fields does, but reads a new structure over the initial one. -/
theorem codec?_program (htypes : AreTyped types schema.fields)
    (hslots : ∀ plan ∈ schema.fields, ∀ slot, plan.slot = some slot → slot ≤ Derive.maxSlot)
    (hown : ∀ plan ∈ schema.fields,
      Source.Shape.hasOwn (types.shapeOf (kindExpr plan.kind)) "serialize" = false)
    (hnodup : (schema.fields.map fun plan => identOf plan.name).Nodup) :
    ∃ codec, (program schema).codec? types = some codec ∧
      AgreeOn (typedFields types schema.fields) codec
        { Codec.record (codecsOf types (typedFields types schema.fields)) with
          read := fun buffer cursor =>
            ((Codec.record (codecsOf types (typedFields types schema.fields))).overwrite
              ((codecsOf types (typedFields types schema.fields)).map FieldCodec.initial) buffer
              cursor).toResult } := by
  have hbytes := fieldsBitsetBytes_typedFields types schema
  have hplaced := placed_typedFields htypes hnodup
  have htransfers := Source.transfers_inFunction ((program schema).scope types)
  have hplaces := toMember_typedFields types schema.fields
  have hfieldSlots : ∀ field ∈ typedFields types schema.fields, ∀ slot,
      field.presence = .nullable slot → slot ≤ Derive.maxSlot := by
    intro field hfield slot hslot
    obtain ⟨⟨name, kind, own⟩, hplan, rfl⟩ := List.mem_map.mp hfield
    refine hslots _ hplan slot ?_
    cases own <;> cases hslot
    rfl
  obtain ⟨size, hsize, hsizes⟩ := meaning_programSize hplaced
  obtain ⟨write, hwrite, hwrites⟩ := emitted_sound.meaning_writingAll rfl rfl
    (htransfers (some false) true .unit) rfl (hplaced.of_members rfl)
    (List.forall_mem_map.mpr fun plan hplan _ => hown plan hplan) hfieldSlots hbytes
  obtain ⟨overwrite, hoverwrite, hoverwrites⟩ := emitted_sound.meaning_overwritingAll rfl rfl
    (htransfers (some true) false .unit) rfl (hplaced.of_members rfl) hfieldSlots hbytes
  let scope : Scope := { ((program schema).scope types).inFunction none false .self with
    overwrite := some overwrite.toOverwriter }
  have hdefault : "Default" ∈ ["Debug", "Clone", "PartialEq", "Default"] := by decide
  obtain ⟨read, hread, hreads⟩ := Source.meaning_readingOver emitted_sound
    (show scope.imports = _ from rfl) ⟨rfl, rfl, .self, rfl⟩ rfl hdefault
    (Source.hasTrait_emitted rfl (by decide)) rfl
  rw [hplaces] at hwrite hoverwrite
  have hwrite' := (meaning_unusedBuffers rfl (htransfers (some false) true .unit) rfl
    fun hempty => (writingAll_eq_nil hempty).1).trans hwrite
  have hoverwrite' := (meaning_unusedBuffers rfl (htransfers (some true) false .unit) rfl
    fun hempty => (writingAll_eq_nil hempty).2).trans hoverwrite
  refine ⟨_, Source.codec?_eq_some ((nodup_members_iff schema).mpr hnodup)
    (fixedSize?_program htypes) hsize hwrite' hoverwrite' hread,
    rfl, hsizes, hwrites, hreads.trans ?_, hoverwrites⟩
  have hover := hoverwrites ((codecsOf types (typedFields types schema.fields)).map FieldCodec.initial)
    ((List.length_map _).trans (List.length_map _)).symm
  have hinitials : scope.members.map (fun member => scope.types.initialOf member.2) = _ :=
    initials_program htypes
  rw [hinitials]
  exact funext fun buffer => funext fun cursor =>
    congrArg (fun overwritten => (overwritten buffer cursor).toResult) hover

/-- **Otherwise it is not compiled.** -/
theorem codec?_program_eq_none (htypes : AreTyped types schema.fields)
    (h : ¬(schema.fields.map fun plan => identOf plan.name).Nodup ∨ ∃ plan ∈ schema.fields,
      Source.Shape.hasOwn (types.shapeOf (kindExpr plan.kind)) "serialize" = true) :
    (program schema).codec? types = none := by
  unfold Source.Program.codec?
  dsimp only
  split
  · next hmembers =>
    have hnodup := (nodup_members_iff schema).mp hmembers
    obtain ⟨plan, hplan, hown⟩ := h.resolve_left fun hdifferent => hdifferent hnodup
    have hwritten : (typedField types plan).presence ≠ .skipped := by
      obtain ⟨name, kind, slot⟩ := plan
      cases slot <;> exact fun heq => nomatch heq
    have hplaced : Placed (((program schema).scope types).inFunction (some false) true .unit) 0
        (typedFields types schema.fields) := (placed_typedFields htypes hnodup).of_members rfl
    have hstatements := Source.meanings_writingAll_eq_none rfl hplaced (List.mem_map_of_mem hplan)
      hwritten hown schema.bitsetBytes (unusedBuffers schema)
    rw [toMember_typedFields] at hstatements
    have hwrite : Source.Body.meaning
        (((program schema).scope types).inFunction (some false) true .unit)
        (program schema).encoder.serialize = none := by
      unfold Source.Body.meaning
      exact congrArg (Option.bind · _) hstatements
    rw [hwrite]
    cases Source.fixedSize? ((program schema).scope types) (program schema).encoder.fixedSize with
    | none => rfl
    | some fixedSize => exact Option.bind_fun_none _
  · rfl

/-- The condition under which a structure is compiled. -/
theorem codec?_isSome_iff (htypes : AreTyped types schema.fields)
    (hslots : ∀ plan ∈ schema.fields, ∀ slot, plan.slot = some slot → slot ≤ Derive.maxSlot) :
    ((program schema).codec? types).isSome = true ↔
      (schema.fields.map fun plan => identOf plan.name).Nodup ∧ ∀ plan ∈ schema.fields,
        Source.Shape.hasOwn (types.shapeOf (kindExpr plan.kind)) "serialize" = false := by
  constructor
  · intro hsome
    by_contra hcondition
    have hcases : ¬(schema.fields.map fun plan => identOf plan.name).Nodup ∨ ∃ plan ∈ schema.fields,
        Source.Shape.hasOwn (types.shapeOf (kindExpr plan.kind)) "serialize" = true := by
      simpa only [not_and_or, not_forall, exists_prop, Bool.not_eq_false] using hcondition
    rw [codec?_program_eq_none htypes hcases] at hsome
    cases hsome
  · rintro ⟨hnodup, hown⟩
    obtain ⟨codec, hcodec, -⟩ := codec?_program htypes hslots hown hnodup
    rw [hcodec]
    rfl

end

end Emit

end Wireform
