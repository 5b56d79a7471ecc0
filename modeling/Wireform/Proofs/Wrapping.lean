import Wireform.Derive.FieldShape
import Wireform.Proofs.Generated

/-!
# Types in parentheses and groups

Parentheses around a type, and the group that a macro passes on, mean nothing.  The check of field
types looks through both, but whether a type is optional is asked of the type as it is written.  So
three things can be hidden by wrapping: that a field is optional, that the argument of an optional type
is optional, and that the argument of a box is a slice.

Where nothing is hidden, a structure is classified as the one with everything unwrapped, error for
error.  Where something is, the two are told apart, unless both are refused
(`wrapping_transparent_iff`).
-/
namespace Wireform.Derive

open Samples (applied word)

/-! ## 1. Unwrapped types -/

mutual

/-- The type without the parentheses and groups in it. -/
def TypeExpr.unwrap : TypeExpr → TypeExpr
  | .paren inner => inner.unwrap
  | .group inner => inner.unwrap
  | .path rooted segments => .path rooted (Segment.unwrapEach segments)
  | .projection type none segments =>
    .projection type.unwrap none (Segment.unwrapEach segments)
  | .projection type (some trait) segments =>
    .projection type.unwrap (some trait.unwrap) (Segment.unwrapEach segments)
  | .reference lifetime isMutable inner => .reference lifetime isMutable inner.unwrap
  | .pointer isMutable inner => .pointer isMutable inner.unwrap
  | .tuple items trailing => .tuple (TypeExpr.unwrapEach items) trailing
  | .array element length => .array element.unwrap length
  | .slice element => .slice element.unwrap
  | .traitObject isMarked bounds trailing =>
    .traitObject isMarked (Bound.unwrapEach bounds) trailing
  | .implTrait bounds trailing => .implTrait (Bound.unwrapEach bounds) trailing
  | .function head parameters trailing none =>
    .function head (Parameter.unwrapEach parameters) trailing none
  | .function head parameters trailing (some result) =>
    .function head (Parameter.unwrapEach parameters) trailing (some result.unwrap)
  | .never => .never
  | .infer => .infer
  | .macroCall name arguments => .macroCall name.unwrap arguments
  | .other tokens => .other tokens

/-- The types without them. -/
def TypeExpr.unwrapEach : List TypeExpr → List TypeExpr
  | [] => []
  | type :: rest => type.unwrap :: TypeExpr.unwrapEach rest

/-- A step of a path without them. -/
def Segment.unwrap : Segment → Segment
  | .plain name => .plain name
  | .angle name colons arguments trailing =>
    .angle name colons (TypeArg.unwrapEach arguments) trailing
  | .call name parameters trailing none =>
    .call name (TypeExpr.unwrapEach parameters) trailing none
  | .call name parameters trailing (some result) =>
    .call name (TypeExpr.unwrapEach parameters) trailing (some result.unwrap)

/-- The steps without them. -/
def Segment.unwrapEach : List Segment → List Segment
  | [] => []
  | segment :: rest => segment.unwrap :: Segment.unwrapEach rest

/-- An argument without them. -/
def TypeArg.unwrap : TypeArg → TypeArg
  | .type type => .type type.unwrap
  | .const value => .const value
  | .lifetime name => .lifetime name
  | .assocType item type => .assocType item.unwrap type.unwrap
  | .assocConst item value => .assocConst item.unwrap value
  | .assocBound item bounds trailing =>
    .assocBound item.unwrap (Bound.unwrapEach bounds) trailing

/-- The arguments without them. -/
def TypeArg.unwrapEach : List TypeArg → List TypeArg
  | [] => []
  | argument :: rest => argument.unwrap :: TypeArg.unwrapEach rest

/-- The parameters without them. -/
def Parameter.unwrapEach : List Parameter → List Parameter
  | [] => []
  | .typed front type :: rest => .typed front type.unwrap :: Parameter.unwrapEach rest
  | .other tokens :: rest => .other tokens :: Parameter.unwrapEach rest

/-- The bounds without those in their types; a bound may have parentheses of its own. -/
def Bound.unwrapEach : List Bound → List Bound
  | [] => []
  | .trait isParen front trait :: rest => .trait isParen front trait.unwrap :: Bound.unwrapEach rest
  | bound :: rest => bound :: Bound.unwrapEach rest

end

/-- What stands in the parentheses and groups around a type. -/
def TypeExpr.bare : TypeExpr → TypeExpr
  | .paren inner => inner.bare
  | .group inner => inner.bare
  | type => type

/-- Whether a type is an optional one in parentheses or a group. -/
def TypeExpr.hidesOption : TypeExpr → Bool
  | .paren inner => (optionInner? inner.bare).isSome
  | .group inner => (optionInner? inner.bare).isSome
  | _ => false

/-- Whether a type is a slice. -/
def TypeExpr.isSlice : TypeExpr → Bool
  | .slice _ => true
  | _ => false

/-- Whether a type is a slice in parentheses or a group. -/
def TypeExpr.hidesSlice : TypeExpr → Bool
  | .paren inner => inner.bare.isSlice
  | .group inner => inner.bare.isSlice
  | _ => false

/-- Whether the argument of an optional type is another one, hidden. -/
def hidesNested (segments : List Segment) : Bool :=
  match optionArgument? segments with
  | some inner => inner.hidesOption
  | none => false

mutual

/-- Whether nothing is hidden in the parts of a type that are checked. -/
def TypeExpr.isShown : TypeExpr → Bool
  | .paren inner => inner.isShown
  | .group inner => inner.isShown
  | .array element _ => element.isShown
  | .slice element => element.isShown
  | .path _ segments => !hidesNested segments && Segment.allShown segments
  | _ => true

/-- Whether nothing is hidden in the arguments of steps. -/
def Segment.allShown : List Segment → Bool
  | [] => true
  | .angle name _ arguments _ :: rest =>
    TypeArg.allShown (name == "Box") arguments && Segment.allShown rest
  | .plain _ :: rest => Segment.allShown rest
  | .call _ _ _ _ :: rest => Segment.allShown rest

/-- Whether nothing is hidden in arguments, up to the first that is refused for what it is. -/
def TypeArg.allShown (boxed : Bool) : List TypeArg → Bool
  | [] => true
  | .type type :: rest =>
    (!(boxed && type.hidesSlice) && type.isShown) && TypeArg.allShown boxed rest
  | .const _ :: rest => TypeArg.allShown boxed rest
  | .lifetime _ :: rest => TypeArg.allShown boxed rest
  | .assocType _ _ :: _ => true
  | .assocConst _ _ :: _ => true
  | .assocBound _ _ _ :: _ => true

end

/-! ## 2. Options and slices behind wrappings -/

theorem optionArgument?_unwrapEach (segments : List Segment) :
    optionArgument? (Segment.unwrapEach segments) =
      (optionArgument? segments).map TypeExpr.unwrap := by
  have hmap : Segment.unwrapEach segments = segments.map Segment.unwrap := by
    induction segments with
    | nil => rfl
    | cons segment rest ih => rw [Segment.unwrapEach, ih, List.map_cons]
  unfold optionArgument?
  rw [hmap, List.getLast?_map]
  cases segments.getLast? with
  | none => rfl
  | some last =>
    cases last with
    | plain name => rfl
    | call name parameters trailing result => cases result <;> rfl
    | angle name colons arguments trailing =>
      by_cases hname : name = "Option"
      · subst hname
        cases arguments with
        | nil => rfl
        | cons argument rest => cases argument <;> rfl
      · simp [Segment.unwrap, hname]

/-- Unwrapping shows the optional types that wrappings hide. -/
theorem optionInner?_unwrap (type : TypeExpr) :
    optionInner? type.unwrap = (optionInner? type.bare).map TypeExpr.unwrap := by
  fun_induction TypeExpr.bare type with
  | case1 inner ih => exact ih
  | case2 inner ih => exact ih
  | case3 type hparen hgroup =>
    cases type with
    | paren inner => exact absurd rfl (hparen inner)
    | group inner => exact absurd rfl (hgroup inner)
    | path rooted segments => exact optionArgument?_unwrapEach segments
    | projection type trait segments =>
      cases trait <;> exact optionArgument?_unwrapEach segments
    | function head parameters trailing result => cases result <;> rfl
    | _ => rfl

/-- A type is optional unwrapped exactly if it is optional as it stands or hides that it is. -/
theorem isSome_optionInner?_unwrap (type : TypeExpr) :
    (optionInner? type.unwrap).isSome = ((optionInner? type).isSome || type.hidesOption) := by
  rw [optionInner?_unwrap, Option.isSome_map]
  cases type <;> simp [TypeExpr.bare, TypeExpr.hidesOption, optionInner?]

/-- What is hidden is not there as it stands. -/
theorem optionInner?_of_hidesOption {type : TypeExpr} (h : type.hidesOption = true) :
    optionInner? type = none := by
  cases type <;> first
    | rfl
    | cases h

/-- It is a slice unwrapped exactly if it is one or hides that it is. -/
theorem isSlice_unwrap (type : TypeExpr) :
    type.unwrap.isSlice = (type.isSlice || type.hidesSlice) := by
  have hbare : type.unwrap.isSlice = type.bare.isSlice := by
    fun_induction TypeExpr.bare type with
    | case1 inner ih => exact ih
    | case2 inner ih => exact ih
    | case3 type hparen hgroup =>
      cases type with
      | paren inner => exact absurd rfl (hparen inner)
      | group inner => exact absurd rfl (hgroup inner)
      | projection type trait segments => cases trait <;> rfl
      | function head parameters trailing result => cases result <;> rfl
      | _ => rfl
  rw [hbare]
  cases type <;> simp [TypeExpr.bare, TypeExpr.hidesSlice, TypeExpr.isSlice]

/-- An optional type that is not hidden in another is refused there, unwrapped or not. -/
theorem isNestedOption_unwrap (rooted : Bool) (segments : List Segment) :
    isNestedOption (TypeExpr.path rooted segments).unwrap =
      (isNestedOption (.path rooted segments) || hidesNested segments) := by
  have hinner : optionInner? (TypeExpr.path rooted segments).unwrap =
      (optionArgument? segments).map TypeExpr.unwrap := optionInner?_unwrap _
  unfold isNestedOption hidesNested
  rw [hinner, optionInner?]
  cases optionArgument? segments with
  | none => rfl
  | some inner => exact isSome_optionInner?_unwrap inner

/-! ## 3. Checks -/

/-- Two results of checks: where all is `shown` they are the same, and only there do both pass. -/
structure Tells (shown : Bool) (found unwrapped : Except TypeForm Unit) : Prop where
  same : shown = true → unwrapped = found
  only : found = .ok () → unwrapped = .ok () → shown = true

namespace Tells

variable {shown shown' : Bool} {found found' unwrapped unwrapped' : Except TypeForm Unit}

theorem refl (found : Except TypeForm Unit) : Tells true found found :=
  ⟨fun _ => rfl, fun _ _ => rfl⟩

/-- What is refused either way tells nothing about what has not been looked at. -/
theorem refused (shown : Bool) (form : TypeForm) : Tells shown (.error form) (.error form) :=
  ⟨fun _ => rfl, fun h => nomatch h⟩

/-- Checks one after the other. -/
theorem bind (h : Tells shown found unwrapped) (h' : Tells shown' found' unwrapped') :
    Tells (shown && shown') (found >>= fun _ => found') (unwrapped >>= fun _ => unwrapped') := by
  constructor
  · intro hshown
    rw [Bool.and_eq_true] at hshown
    rw [h.same hshown.1, h'.same hshown.2]
  · intro hfound hunwrapped
    obtain ⟨_, hfirst, hsecond⟩ := Schema.bind_eq_ok hfound
    obtain ⟨_, hfirst', hsecond'⟩ := Schema.bind_eq_ok hunwrapped
    rw [h.only hfirst hfirst', h'.only hsecond hsecond']
    rfl

end Tells

/-- Checks an argument: a slice is admitted right behind a box. -/
def checkArgument (boxed : Bool) (type : TypeExpr) : Except TypeForm Unit :=
  match type with
  | .slice element => if boxed then checkType element else .error .slice
  | type => checkType type

theorem checkArguments_type (boxed : Bool) (type : TypeExpr) (rest : List TypeArg) :
    checkArguments boxed (.type type :: rest) =
      (checkArgument boxed type >>= fun _ => checkArguments boxed rest) := by
  cases type with
  | slice element => cases boxed <;> rfl
  | _ => rfl

/-- An argument that is no slice is checked as a type. -/
theorem checkArgument_of_not_isSlice (boxed : Bool) {type : TypeExpr} (h : type.isSlice = false) :
    checkArgument boxed type = checkType type := by
  cases type with
  | slice element => cases h
  | _ => rfl

theorem exists_of_isSlice {type : TypeExpr} (h : type.isSlice = true) :
    ∃ element, type = .slice element := by
  cases type with
  | slice element => exact ⟨element, rfl⟩
  | _ => cases h

/-- Of slices in parentheses or a group a check says what it says of slices. -/
theorem checkType_of_hidesSlice {type : TypeExpr} (h : type.hidesSlice = true) :
    checkType type = .error .slice := by
  have hbare : ∀ type : TypeExpr, type.bare.isSlice = true → checkType type = .error .slice := by
    intro type h
    fun_induction TypeExpr.bare type with
    | case1 inner ih => exact ih h
    | case2 inner ih => exact ih h
    | case3 type hparen hgroup =>
      obtain ⟨element, rfl⟩ := exists_of_isSlice h
      rfl
  cases type with
  | paren inner => exact hbare inner h
  | group inner => exact hbare inner h
  | _ => cases h

/-- A slice among the arguments of a path is checked as its element or refused. -/
theorem tells_checkSlice (boxed : Bool) {element : TypeExpr}
    (h : Tells element.isShown (checkType element) (checkType element.unwrap)) :
    Tells (!(boxed && (TypeExpr.slice element).hidesSlice) && (TypeExpr.slice element).isShown)
      (checkArgument boxed (.slice element)) (checkArgument boxed (TypeExpr.slice element).unwrap) := by
  cases boxed with
  | false => exact .refused _ _
  | true => exact h

/-- Another argument is checked as a type, and when unwrapping makes it a slice, it was refused as one
before. -/
theorem tells_checkArgument (boxed : Bool) {type : TypeExpr} (hslice : type.isSlice = false)
    (h : Tells type.isShown (checkType type) (checkType type.unwrap)) :
    Tells (!(boxed && type.hidesSlice) && type.isShown) (checkArgument boxed type)
      (checkArgument boxed type.unwrap) := by
  have hunwrap := isSlice_unwrap type
  rw [hslice, Bool.false_or] at hunwrap
  rw [checkArgument_of_not_isSlice boxed hslice]
  cases hhides : type.hidesSlice with
  | false =>
    rw [hhides] at hunwrap
    rw [checkArgument_of_not_isSlice boxed hunwrap, Bool.and_false]
    exact h
  | true =>
    rw [hhides] at hunwrap
    rw [checkType_of_hidesSlice hhides]
    cases boxed with
    | true => exact ⟨nofun, nofun⟩
    | false =>
      obtain ⟨element, hslice⟩ := exists_of_isSlice hunwrap
      rw [hslice]
      exact .refused _ _

mutual

/-- **What is shown is checked alike with wrappings and without, and what passes both ways is
shown**, by induction on the type. -/
theorem tells_checkType : ∀ type : TypeExpr, Tells type.isShown (checkType type) (checkType type.unwrap)
  | .paren inner => tells_checkType inner
  | .group inner => tells_checkType inner
  | .array element _ => tells_checkType element
  | .slice element => .refused _ _
  | .path rooted segments => by
    have hunwrap := isNestedOption_unwrap rooted segments
    have hsegments := tells_checkSegments segments
    rw [TypeExpr.unwrap] at hunwrap ⊢
    rw [TypeExpr.isShown, checkType, checkType, hunwrap]
    cases isNestedOption (.path rooted segments) with
    | true => exact .refused _ _
    | false =>
      cases hidesNested segments with
      | true => exact ⟨nofun, nofun⟩
      | false => exact hsegments
  | .projection _ none _ => .refused _ _
  | .projection _ (some _) _ => .refused _ _
  | .reference _ _ _ => .refused _ _
  | .pointer _ _ => .refused _ _
  | .tuple _ _ => .refused _ _
  | .traitObject _ _ _ => .refused _ _
  | .implTrait _ _ => .refused _ _
  | .function _ _ _ none => .refused _ _
  | .function _ _ _ (some _) => .refused _ _
  | .never => .refused _ _
  | .infer => .refused _ _
  | .macroCall _ _ => .refused _ _
  | .other _ => .refused _ _

/-- The same of the arguments in steps. -/
theorem tells_checkSegments : ∀ segments : List Segment,
    Tells (Segment.allShown segments) (checkSegments segments) (checkSegments (Segment.unwrapEach segments))
  | [] => .refl _
  | .angle name _ arguments _ :: rest =>
    (tells_checkArguments (name == "Box") arguments).bind (tells_checkSegments rest)
  | .plain _ :: rest => tells_checkSegments rest
  | .call _ _ _ none :: rest => tells_checkSegments rest
  | .call _ _ _ (some _) :: rest => tells_checkSegments rest

/-- The same of arguments. -/
theorem tells_checkArguments (boxed : Bool) : ∀ arguments : List TypeArg,
    Tells (TypeArg.allShown boxed arguments) (checkArguments boxed arguments)
      (checkArguments boxed (TypeArg.unwrapEach arguments))
  | [] => .refl _
  | .type type :: rest => by
    have htype := tells_checkType type
    have hrest := tells_checkArguments boxed rest
    rw [TypeArg.unwrapEach, TypeArg.unwrap, checkArguments_type, checkArguments_type, TypeArg.allShown]
    refine .bind ?_ hrest
    cases type with
    | slice element => exact tells_checkSlice boxed (tells_checkType element)
    | _ => exact tells_checkArgument boxed rfl htype
  | .const _ :: rest => tells_checkArguments boxed rest
  | .lifetime _ :: rest => tells_checkArguments boxed rest
  | .assocType _ _ :: _ => .refused _ _
  | .assocConst _ _ :: _ => .refused _ _
  | .assocBound _ _ _ :: _ => .refused _ _

end

/-! ## 4. Fields -/

/-- A field with an unwrapped type. -/
def Field.unwrap (field : Field) : Field := { field with type := field.type.unwrap }

/-- The fields with unwrapped types. -/
def Fields.unwrap : Fields → Fields
  | .named fields => .named (fields.map Field.unwrap)
  | .tuple fields => .tuple (fields.map Field.unwrap)
  | .unit => .unit

theorem Fields.toList_unwrap (fields : Fields) : fields.unwrap.toList = fields.toList.map Field.unwrap := by
  cases fields <;> rfl

/-- A classified field with an unwrapped type. -/
def FieldShape.unwrap (shape : FieldShape) : FieldShape := { shape with type := shape.type.unwrap }

/-- Nothing is hidden in the type of the field, unless it is skipped. -/
def Field.IsShown (field : Field) : Prop :=
  isSkipped field.attributes = .ok false →
    field.type.isShown = true ∧ field.type.hidesOption = false

/-- Two structures are classified alike: both are refused, or their fields have the same slots. -/
def SameSlots : (found unwrapped : Except DeriveError (List FieldShape)) → Prop
  | .ok shapes, .ok shapes' => shapes'.map FieldShape.slot = shapes.map FieldShape.slot
  | .error _, .error _ => True
  | _, _ => False

theorem sameSlots_iff {found unwrapped : Except DeriveError (List FieldShape)} :
    SameSlots found unwrapped ↔
      (∃ shapes shapes', found = .ok shapes ∧ unwrapped = .ok shapes' ∧
        shapes'.map FieldShape.slot = shapes.map FieldShape.slot) ∨
      ((∀ shapes, found ≠ .ok shapes) ∧ ∀ shapes, unwrapped ≠ .ok shapes) := by
  cases found <;> cases unwrapped <;> simp [SameSlots]

/-- What the classification finds out of a field, when `nullable` fields before it had a slot: whether
it is skipped, and its slot. -/
def classifyField (container : String) (position nullable : Nat) (field : Field) :
    Except DeriveError (Bool × Option Nat) := do
  if ← isSkipped field.attributes then return (true, none)
  (checkType field.type).mapError (.unsupportedType container (field.member position).schemaName)
  if (optionInner? field.type).isSome then
    if nullable = maxSlot then throw .tooManyNullable
    return (false, some (nullable + 1))
  return (false, none)

/-- Fields are classified one after the other; the next slot is counted from the last one. -/
theorem shapesFrom_cons_eq (container : String) (position nullable : Nat) (field : Field)
    (rest : List Field) :
    shapesFrom container position nullable (field :: rest) = (do
      let found ← classifyField container position nullable field
      let shapes ← shapesFrom container (position + 1) (found.2.getD nullable) rest
      return ⟨field.member position, field.type, found.1, found.2⟩ :: shapes) := by
  rw [shapesFrom, classifyField]
  cases isSkipped field.attributes with
  | error fault => rfl
  | ok skipped =>
    cases skipped with
    | true => rfl
    | false =>
      cases checkType field.type with
      | error form => rfl
      | ok found =>
        cases (optionInner? field.type).isSome with
        | false => rfl
        | true =>
          by_cases hfull : nullable = maxSlot
          · subst hfull
            rfl
          · rw [if_pos rfl, if_pos rfl, if_neg hfull, if_neg hfull]
            rfl

section

variable {container : String} {position nullable : Nat} {field : Field}

theorem classifyField_unwrap (h : field.IsShown) :
    classifyField container position nullable field.unwrap =
      classifyField container position nullable field := by
  unfold classifyField
  show (isSkipped field.attributes >>= _) = _
  cases hskipped : isSkipped field.attributes with
  | error fault => rfl
  | ok skipped =>
    cases skipped with
    | true => rfl
    | false =>
      obtain ⟨hshown, hopen⟩ := h hskipped
      have hoption := isSome_optionInner?_unwrap field.type
      rw [hopen, Bool.or_false] at hoption
      show ((checkType field.type.unwrap).mapError _ >>= fun _ =>
        if (optionInner? field.type.unwrap).isSome = true then _ else _) = _
      rw [(tells_checkType field.type).same hshown, hoption]
      rfl

/-- A field that is not skipped has passed the check, and has a slot if it is optional. -/
theorem eq_ok_of_classifyField (hskipped : isSkipped field.attributes = .ok false) {skip : Bool}
    {slot : Option Nat} (h : classifyField container position nullable field = .ok (skip, slot)) :
    checkType field.type = .ok () ∧ slot.isSome = (optionInner? field.type).isSome := by
  unfold classifyField at h
  rw [hskipped] at h
  obtain ⟨_, hfalse, h⟩ := Schema.bind_eq_ok h
  cases hfalse
  obtain ⟨_, hchecked, h⟩ := Schema.bind_eq_ok h
  refine ⟨Schema.eq_ok_of_mapError hchecked, ?_⟩
  split at h
  · next hoption =>
    split at h
    · cases h
    · cases h
      exact hoption.symm
  · next hoption =>
    cases h
    exact (Bool.eq_false_of_not_eq_true hoption).symm

/-- A field that gets the same slot both ways shows all. -/
theorem isShown_of_classifyField {skip skip' : Bool} {slot : Option Nat}
    (h : classifyField container position nullable field = .ok (skip, slot))
    (h' : classifyField container position nullable field.unwrap = .ok (skip', slot)) :
    field.IsShown := by
  intro hskipped
  obtain ⟨hchecked, hslot⟩ := eq_ok_of_classifyField hskipped h
  have hskipped' : isSkipped field.unwrap.attributes = .ok false := hskipped
  obtain ⟨hchecked', hslot'⟩ := eq_ok_of_classifyField hskipped' h'
  refine ⟨(tells_checkType field.type).only hchecked hchecked', ?_⟩
  have hoption := isSome_optionInner?_unwrap field.type
  change slot.isSome = (optionInner? field.type.unwrap).isSome at hslot'
  rw [← hslot', hslot] at hoption
  cases hhides : field.type.hidesOption with
  | false => rfl
  | true =>
    rw [hhides, Bool.or_true] at hoption
    rw [optionInner?_of_hidesOption hhides] at hoption
    cases hoption

end

/-- **Fields in which nothing is hidden are classified as the unwrapped ones are.** -/
theorem shapesFrom_unwrap (container : String) {fields : List Field}
    (h : ∀ field ∈ fields, field.IsShown) (position nullable : Nat) :
    shapesFrom container position nullable (fields.map Field.unwrap) =
      (shapesFrom container position nullable fields).map (List.map FieldShape.unwrap) := by
  induction fields generalizing position nullable with
  | nil => rfl
  | cons field fields ih =>
    rw [List.forall_mem_cons] at h
    rw [List.map_cons, shapesFrom_cons_eq, shapesFrom_cons_eq, classifyField_unwrap h.1]
    cases classifyField container position nullable field with
    | error fault => rfl
    | ok found =>
      show (shapesFrom container (position + 1) (found.2.getD nullable) (fields.map Field.unwrap) >>= _) =
        (shapesFrom container (position + 1) (found.2.getD nullable) fields >>= _).map _
      rw [ih h.2]
      cases shapesFrom container (position + 1) (found.2.getD nullable) fields <;> rfl

/-- **Fields that get the same slots both ways show all**, by induction on the fields: up to each the same
slots have been given. -/
theorem isShown_of_shapesFrom {container : String} {fields : List Field} {position nullable : Nat}
    {shapes shapes' : List FieldShape}
    (h : shapesFrom container position nullable fields = .ok shapes)
    (h' : shapesFrom container position nullable (fields.map Field.unwrap) = .ok shapes')
    (hslots : shapes'.map FieldShape.slot = shapes.map FieldShape.slot) :
    ∀ field ∈ fields, field.IsShown := by
  induction fields generalizing position nullable shapes shapes' with
  | nil => exact fun _ hmem => absurd hmem List.not_mem_nil
  | cons field fields ih =>
    rw [shapesFrom_cons_eq] at h
    rw [List.map_cons, shapesFrom_cons_eq] at h'
    obtain ⟨⟨skip, slot⟩, hfound, h⟩ := Schema.bind_eq_ok h
    obtain ⟨⟨skip', slot'⟩, hfound', h'⟩ := Schema.bind_eq_ok h'
    obtain ⟨rest, hrest, h⟩ := Schema.bind_eq_ok h
    obtain ⟨rest', hrest', h'⟩ := Schema.bind_eq_ok h'
    cases h
    cases h'
    rw [List.map_cons, List.map_cons] at hslots
    obtain ⟨hslot, htail⟩ := List.cons_eq_cons.mp hslots
    cases hslot
    exact List.forall_mem_cons.mpr ⟨isShown_of_classifyField hfound hfound', ih hrest hrest' htail⟩

/-- **Wrapping is transparent exactly where it hides nothing.**  Fields in which nothing is hidden are
classified as the unwrapped ones are, with the same slots or the same error.  And a structure is
classified like the unwrapped one only if nothing is hidden in its fields, or if both are refused. -/
theorem wrapping_transparent_iff (container : String) (fields : Fields) :
    ((∀ field ∈ fields.toList, field.IsShown) → fieldShapes container fields.unwrap =
      (fieldShapes container fields).map (List.map FieldShape.unwrap)) ∧
    (SameSlots (fieldShapes container fields) (fieldShapes container fields.unwrap) ↔
      (∀ field ∈ fields.toList, field.IsShown) ∨
        ((∀ shapes, fieldShapes container fields ≠ .ok shapes) ∧
          ∀ shapes, fieldShapes container fields.unwrap ≠ .ok shapes)) := by
  have hunwrap : (∀ field ∈ fields.toList, field.IsShown) → fieldShapes container fields.unwrap =
      (fieldShapes container fields).map (List.map FieldShape.unwrap) := by
    intro h
    unfold fieldShapes
    rw [Fields.toList_unwrap]
    exact shapesFrom_unwrap container h 0 0
  refine ⟨hunwrap, ?_⟩
  rw [sameSlots_iff]
  constructor
  · rintro (⟨shapes, shapes', hfound, hfound', hslots⟩ | hrefused)
    · unfold fieldShapes at hfound hfound'
      rw [Fields.toList_unwrap] at hfound'
      exact .inl (isShown_of_shapesFrom hfound hfound' hslots)
    · exact .inr hrefused
  · rintro (hshown | hrefused)
    · rw [hunwrap hshown]
      cases fieldShapes container fields with
      | error fault => exact .inr ⟨nofun, nofun⟩
      | ok shapes => exact .inl ⟨shapes, _, rfl, rfl, List.map_map⟩
    · exact .inr hrefused

/-- A structure with one field. -/
def oneField (type : TypeExpr) : Fields := .named [⟨some "a", type, []⟩]

/-- What is hidden is not found: in parentheses an optional type has no slot, behind a null another
one is admitted, and behind a box a slice is refused. -/
theorem wrappings_hide :
    fieldShapes "T" (oneField (.paren (applied "Option" (word "u8")))) =
        .ok [⟨.named "a", .paren (applied "Option" (word "u8")), false, none⟩] ∧
      fieldShapes "T" (oneField (.paren (applied "Option" (word "u8")))).unwrap =
        .ok [⟨.named "a", applied "Option" (word "u8"), false, some 1⟩] ∧
      fieldShapes "T" (oneField (applied "Option" (.paren (applied "Option" (word "u8"))))) =
        .ok [⟨.named "a", applied "Option" (.paren (applied "Option" (word "u8"))), false, some 1⟩] ∧
      fieldShapes "T" (oneField (applied "Option" (.paren (applied "Option" (word "u8"))))).unwrap =
        .error (.unsupportedType "T" "a" .nestedOption) ∧
      fieldShapes "T" (oneField (applied "Box" (.paren (.slice (word "u8"))))) =
        .error (.unsupportedType "T" "a" .slice) ∧
      fieldShapes "T" (oneField (applied "Box" (.paren (.slice (word "u8"))))).unwrap =
        .ok [⟨.named "a", applied "Box" (.slice (word "u8")), false, none⟩] :=
  ⟨rfl, rfl, rfl, rfl, rfl, rfl⟩

end Wireform.Derive
