import Mathlib.Data.List.TakeWhile
import Wireform.Describe
import Wireform.Proofs.Rederived
import Wireform.Proofs.WellFormed

/-!
# Emitted field types describe themselves

The type of an emitted field is text, which is read here as a compiler reads it: words with two colons
between each two are a path, which may have types as arguments, and brackets hold the type of a slice.
What is read from the text of a kind is the expression of the kind (`typeOf?_fieldType`).  Which type the
expression means, and how that type describes itself, are tables of their own (`typeShape`,
`Shape.typeRef?`), kept apart from those by which the text was written.

Read through them, the text of each field of a planned structure gives the type that the field was
declared with (`field_types_described`).  A box is transparent there, so that a reference is described
alike whether it leads back to its holder or not.

A declared type is described by its name, and every word is read as a name, as are keywords, which
are written for types without a mark.
-/
namespace Wireform.Emit

open Derive (Segment TypeArg TypeExpr angled bracketed pathSeparator separatedBy src)
open Schema (FieldDecl FieldPlan IsTypeName Kind KnownTypes Primitive StructDecl TypeDecl TypeRef
  analyze isIdentifier)

/-! ## 1. Reading the text of a type -/

mutual

/-- Takes a type from the front: a slice or a path. -/
def takeType? : (bound : Nat) → List Derive.Token → Option (TypeExpr × List Derive.Token)
  | 0, _ => none
  | bound + 1, .mark '[' :: rest =>
    match takeType? bound rest with
    | some (element, .mark ']' :: rest) => some (.slice element, rest)
    | _ => none
  | bound + 1, tokens => (takePath? bound tokens).map fun (steps, rest) => (.path false steps, rest)

/-- Takes the steps of a path, of which the last one may have arguments. -/
def takePath? : (bound : Nat) → List Derive.Token → Option (List Segment × List Derive.Token)
  | 0, _ => none
  | bound + 1, .word name :: .mark ':' :: .mark ':' :: rest =>
    (takePath? bound rest).map fun (steps, rest) => (.plain name :: steps, rest)
  | bound + 1, .word name :: .mark '<' :: rest =>
    (takeArguments? bound rest).map fun (arguments, rest) =>
      ([.angle name false arguments false], rest)
  | _ + 1, .word name :: rest => some ([.plain name], rest)
  | _ + 1, _ => none

/-- Takes arguments with a comma between each two, and the bracket that closes them. -/
def takeArguments? : (bound : Nat) → List Derive.Token → Option (List TypeArg × List Derive.Token)
  | 0, _ => none
  | bound + 1, tokens =>
    match takeType? bound tokens with
    | some (type, .mark ',' :: rest) =>
      (takeArguments? bound rest).map fun (arguments, rest) => (.type type :: arguments, rest)
    | some (type, .mark '>' :: rest) => some ([.type type], rest)
    | _ => none

end

/-- The type expression that a text is.  A token is taken in two turns at most. -/
def typeOf? (text : String) : Option TypeExpr :=
  match takeType? (2 * (src text).length) (src text) with
  | some (type, []) => some type
  | _ => none

/-- How the type that stands as a text describes itself. -/
def describedType? (text : String) : Option TypeRef := do
  let type ← typeOf? text
  (typeShape "" type).typeRef?

/-! ## 2. What is read -/

/-- What follows does not go on with the path in front. -/
def EndsPath (rest : List Derive.Token) : Prop :=
  rest.head? ≠ some (.mark ':') ∧ rest.head? ≠ some (.mark '<')

/-- A type is read from its tokens, whatever follows. -/
def ReadsBack (type : TypeExpr) : Prop :=
  ∀ bound rest, 2 * type.tokens.length ≤ bound → EndsPath rest →
    takeType? bound (type.tokens ++ rest) = some (type, rest)

theorem endsPath_mark {c : Char} (hc : c ∉ [':', '<']) (rest : List Derive.Token) :
    EndsPath (.mark c :: rest) := by
  simp only [List.mem_cons, List.not_mem_nil, or_false, not_or] at hc
  simp [EndsPath, hc]

theorem takePath?_plain (bound : Nat) (name : String) {rest : List Derive.Token} (hrest : EndsPath rest) :
    takePath? (bound + 1) (.word name :: rest) = some ([.plain name], rest) := by
  obtain ⟨hcolon, hopen⟩ := hrest
  unfold takePath?
  split
  · next heq => cases heq
  · next heq =>
    cases heq
    exact absurd rfl hcolon
  · next heq =>
    cases heq
    exact absurd rfl hopen
  · next heq =>
    cases heq
    rfl
  · next hother => exact absurd rfl (hother name rest)

/-- The tokens of arguments, which are types. -/
def argumentTokens (arguments : List TypeExpr) : List Derive.Token :=
  separatedBy ',' false (arguments.map TypeExpr.tokens)

theorem argumentTokens_cons (argument next : TypeExpr) (rest : List TypeExpr) :
    argumentTokens (argument :: next :: rest) =
      argument.tokens ++ .mark ',' :: argumentTokens (next :: rest) := rfl

theorem argumentTokens_singleton (argument : TypeExpr) :
    argumentTokens [argument] = argument.tokens := List.append_nil _

/-- Between angle brackets types stand as they are. -/
theorem tokens_angle (name : String) (arguments : List TypeExpr) :
    (Segment.angle name false (arguments.map .type) false).tokens =
      .word name :: angled (argumentTokens arguments) := by
  have hparts : TypeArg.tokensOfEach (arguments.map .type) =
      arguments.map fun argument => (false, argument.tokens) := by
    induction arguments with
    | nil => rfl
    | cons argument rest ih => exact congrArg ((false, argument.tokens) :: ·) ih
  have hlisted : ∀ types : List TypeExpr,
      (Derive.listed false (types.map fun type => (false, type.tokens))).filter
          Derive.Listed.isLifetime = [] ∧
        Derive.listedTokens ((Derive.listed false (types.map fun type => (false, type.tokens))).filter
          fun part => !part.isLifetime) = argumentTokens types := by
    intro types
    induction types with
    | nil => exact ⟨rfl, rfl⟩
    | cons type types ih =>
      cases types with
      | nil => exact ⟨rfl, List.append_nil _⟩
      | cons next types =>
        refine ⟨ih.1, ?_⟩
        rw [argumentTokens_cons, ← ih.2]
        exact List.append_assoc type.tokens [.mark ','] _
  have hangled : Derive.lifetimesFirst false (TypeArg.tokensOfEach (arguments.map .type)) =
      angled (argumentTokens arguments) := by
    unfold Derive.lifetimesFirst
    rw [hparts]
    dsimp only
    rw [(hlisted arguments).1, (hlisted arguments).2]
    rfl
  rw [Segment.tokens, hangled]
  rfl

/-- Arguments are read if each of them is. -/
theorem takeArguments?_eq {arguments : List TypeExpr} (hne : arguments ≠ [])
    (hread : ∀ argument ∈ arguments, ReadsBack argument) (rest : List Derive.Token) {bound : Nat}
    (hbound : 2 * (argumentTokens arguments).length + 1 ≤ bound) :
    takeArguments? bound (argumentTokens arguments ++ .mark '>' :: rest) =
      some (arguments.map .type, rest) := by
  induction arguments generalizing bound with
  | nil => exact absurd rfl hne
  | cons argument arguments ih =>
    obtain ⟨bound, rfl⟩ := Nat.exists_eq_add_of_le' (Nat.le_trans (Nat.le_add_left 1 _) hbound)
    rw [List.forall_mem_cons] at hread
    cases arguments with
    | nil =>
      rw [argumentTokens_singleton] at hbound ⊢
      have hfirst := hread.1 bound (.mark '>' :: rest) (by omega) (endsPath_mark (by decide) _)
      rw [takeArguments?, hfirst]
      rfl
    | cons next arguments =>
      rw [argumentTokens_cons] at hbound ⊢
      rw [List.length_append, List.length_cons] at hbound
      rw [List.append_assoc, List.cons_append]
      have hfirst := hread.1 bound (.mark ',' :: (argumentTokens (next :: arguments) ++ .mark '>' :: rest))
        (by omega) (endsPath_mark (by decide) _)
      have hmore : takeArguments? bound (argumentTokens (next :: arguments) ++ .mark '>' :: rest) =
          some ((next :: arguments).map .type, rest) := ih (List.cons_ne_nil _ _) hread.2 (by omega)
      rw [takeArguments?, hfirst]
      exact congrArg (Option.map _) hmore

/-- A path is read if its last step is. -/
theorem readsBack_path (front : List String) {last : Segment}
    (hlast : ∀ bound rest, 2 * last.tokens.length ≤ bound + 1 → EndsPath rest →
      takePath? bound (last.tokens ++ rest) = some ([last], rest))
    (hstart : ∃ name more, last.tokens = .word name :: more) :
    ReadsBack (.path false (front.map .plain ++ [last])) := by
  have hsteps : ∀ bound rest,
      2 * (Segment.tokensOfPath (front.map .plain ++ [last])).length ≤ bound + 1 → EndsPath rest →
      takePath? bound (Segment.tokensOfPath (front.map .plain ++ [last]) ++ rest) =
        some (front.map .plain ++ [last], rest) := by
    induction front with
    | nil => exact hlast
    | cons name front ih =>
      have htokens : Segment.tokensOfPath ((name :: front).map .plain ++ [last]) =
          .word name :: .mark ':' :: .mark ':' :: Segment.tokensOfPath (front.map .plain ++ [last]) := by
        cases front <;> rfl
      intro bound rest hbound hrest
      rw [htokens, List.length_cons, List.length_cons, List.length_cons] at hbound
      obtain ⟨bound, rfl⟩ := Nat.exists_eq_add_of_le' (show 1 ≤ bound by omega)
      rw [htokens, List.cons_append, List.cons_append, List.cons_append, takePath?,
        ih bound rest (by omega) hrest]
      rfl
  have hword : ∃ name more, Segment.tokensOfPath (front.map .plain ++ [last]) = .word name :: more := by
    cases front with
    | nil => exact hstart
    | cons name front => cases front <;> exact ⟨name, _, rfl⟩
  obtain ⟨name, more, hword⟩ := hword
  have htokens : (TypeExpr.path false (front.map .plain ++ [last])).tokens =
      Segment.tokensOfPath (front.map .plain ++ [last]) := rfl
  intro bound rest hbound hrest
  rw [htokens] at hbound ⊢
  have hpos : 0 < (Segment.tokensOfPath (front.map .plain ++ [last])).length := by
    rw [hword]
    exact Nat.succ_pos _
  obtain ⟨bound, rfl⟩ := Nat.exists_eq_add_of_le' (show 1 ≤ bound by omega)
  have hread := hsteps bound rest (by omega) hrest
  rw [hword, List.cons_append] at hread ⊢
  rw [takeType?, hread]
  · rfl
  · exact fun _ heq => nomatch heq

theorem readsBack_pathExpr {names : List String} (hne : names ≠ []) : ReadsBack (pathExpr names) := by
  obtain ⟨front, name, rfl⟩ := List.eq_nil_or_concat names |>.resolve_left hne
  unfold pathExpr
  rw [List.concat_eq_append, List.map_append]
  refine readsBack_path front (fun bound rest hbound hrest => ?_) ⟨name, [], rfl⟩
  have hlength : (Segment.plain name).tokens.length = 1 := rfl
  obtain ⟨bound, rfl⟩ := Nat.exists_eq_add_of_le' (show 1 ≤ bound by omega)
  exact takePath?_plain bound name hrest

theorem readsBack_appliedExpr (front : List String) (name : String) {arguments : List TypeExpr}
    (hne : arguments ≠ []) (hread : ∀ argument ∈ arguments, ReadsBack argument) :
    ReadsBack (appliedExpr front name arguments) := by
  refine readsBack_path front (fun bound rest hbound hrest => ?_) ⟨name, _, tokens_angle name arguments⟩
  rw [tokens_angle] at hbound ⊢
  simp only [angled, List.length_cons, List.length_append, List.length_nil] at hbound
  obtain ⟨bound, rfl⟩ := Nat.exists_eq_add_of_le' (show 1 ≤ bound by omega)
  simp only [angled, List.cons_append, List.append_assoc, List.nil_append]
  rw [takePath?, takeArguments?_eq hne hread rest (by omega)]
  rfl

theorem readsBack_slice {element : TypeExpr} (h : ReadsBack element) : ReadsBack (.slice element) := by
  intro bound rest hbound hrest
  have htokens : (TypeExpr.slice element).tokens = .mark '[' :: (element.tokens ++ [.mark ']']) := rfl
  rw [htokens] at hbound ⊢
  simp only [List.length_cons, List.length_append, List.length_nil] at hbound
  obtain ⟨bound, rfl⟩ := Nat.exists_eq_add_of_le' (show 1 ≤ bound by omega)
  have helement := h bound (.mark ']' :: rest) (by omega) (endsPath_mark (by decide) _)
  rw [List.cons_append, List.append_assoc, List.singleton_append, takeType?, helement]
  rfl

theorem readsBack_optionExpr {type : TypeExpr} (h : ReadsBack type) (nullable : Bool) :
    ReadsBack (optionExpr nullable type) := by
  cases nullable with
  | false => exact h
  | true =>
    exact readsBack_appliedExpr [] "Option" (List.cons_ne_nil _ _) (List.forall_mem_singleton.mpr h)

/-- The expression of a kind is read from its tokens, by induction on the kind. -/
theorem readsBack_kindExpr (kind : Kind) : ReadsBack (kindExpr kind) := by
  have happlied : ∀ (front : List String) (name : String) {type : TypeExpr}, ReadsBack type →
      ReadsBack (appliedExpr front name [type]) := fun front name _ h =>
    readsBack_appliedExpr front name (List.cons_ne_nil _ _) (List.forall_mem_singleton.mpr h)
  have hname : ∀ name, ReadsBack (pathExpr [name]) := fun _ =>
    readsBack_pathExpr (List.cons_ne_nil _ _)
  induction kind with
  | primitive p =>
    cases p with
    | datetime => exact happlied ["chrono"] "DateTime" (readsBack_pathExpr (List.cons_ne_nil _ _))
    | _ => exact readsBack_pathExpr (List.cons_ne_nil _ _)
  | enum name repr => exact hname name
  | nested name recursive =>
    cases recursive with
    | false => exact hname name
    | true => exact happlied [] "Box" (hname name)
  | list element nullable ih => exact happlied [] "Vec" (readsBack_optionExpr ih nullable)
  | array element nullable ih =>
    exact happlied [] "Box" (readsBack_slice (readsBack_optionExpr ih nullable))
  | map key value nullable ihkey ihvalue =>
    exact readsBack_appliedExpr ["std", "collections"] "HashMap" (List.cons_ne_nil _ _)
      (List.forall_mem_cons.mpr ⟨ihkey, List.forall_mem_singleton.mpr
        (readsBack_optionExpr ihvalue nullable)⟩)

/-- **The text of a field's type is read as the expression of its kind.** -/
theorem typeOf?_fieldType {kind : Kind} (hnames : ∀ name ∈ kind.names, isIdentifier name = true)
    (nullable : Bool) :
    typeOf? (lineText (fieldType kind nullable)) = some (fieldExpr kind nullable) := by
  have hread := readsBack_optionExpr (readsBack_kindExpr kind) nullable _ [] (Nat.le_refl _)
    ⟨nofun, nofun⟩
  unfold typeOf?
  rw [src_fieldType hnames]
  rw [List.append_nil] at hread
  unfold fieldExpr
  rw [hread]

/-! ## 3. What the types describe themselves as -/

/-- A name without a bracket is declared as it is. -/
theorem declaredName_of_isIdentifier {name : String} (h : isIdentifier name = true) :
    declaredName name = name := by
  obtain ⟨c, rest, hchars, hstart, hrest⟩ := Schema.exists_of_isIdentifier h
  have hall : ∀ d ∈ name.toList, (d != '<') = true := by
    rw [hchars]
    intro d hd
    have hident : Schema.isIdentChar d = true := by
      rcases List.mem_cons.mp hd with rfl | hd
      · exact (Schema.isIdentChar_of_isIdentStart hstart).1
      · exact hrest d hd
    rw [bne_iff_ne]
    rintro rfl
    exact absurd hident (by decide)
  unfold declaredName
  rw [List.takeWhile_eq_self_iff.mpr hall, String.ofList_toList]

theorem typeRef?_wrap (nullable : Bool) {shape : Shape} {type : TypeRef}
    (h : shape.typeRef? = some type) :
    (Kind.shape.wrap nullable shape).typeRef? = some (type.orNull nullable) := by
  cases nullable with
  | false => exact h
  | true =>
    show shape.typeRef?.map TypeRef.optional = _
    rw [h]
    rfl

/-- The shape of a kind describes itself as the kind's type, by induction on the kind. -/
theorem typeRef?_shape {kind : Kind} (hnames : ∀ name ∈ kind.names, isIdentifier name = true) :
    (kind.shape "").typeRef? = some kind.typeRef := by
  have hname : ∀ name, isIdentifier name = true →
      (Shape.named ("" ++ name)).typeRef? = some (.named name) := by
    intro name hname
    rw [String.empty_append, Shape.typeRef?, declaredName_of_isIdentifier hname]
  induction kind with
  | primitive p => rfl
  | enum name repr => exact hname name (hnames name List.mem_cons_self)
  | nested name recursive =>
    cases recursive <;> exact hname name (hnames name List.mem_cons_self)
  | list element nullable ih =>
    have helement := typeRef?_wrap nullable (ih hnames)
    exact congrArg (Option.map TypeRef.list) helement
  | array element nullable ih =>
    have helement := typeRef?_wrap nullable (ih hnames)
    exact congrArg (Option.map TypeRef.array) helement
  | map key value nullable ihkey ihvalue =>
    have hkey := ihkey fun name hmem => hnames name (List.mem_append_left _ hmem)
    have hvalue := typeRef?_wrap nullable
      (ihvalue fun name hmem => hnames name (List.mem_append_right _ hmem))
    have hmapping : (Kind.map key value nullable).shape "" =
        .mapping .hashed (key.shape "") (Kind.shape.wrap nullable (value.shape "")) := rfl
    rw [hmapping, Shape.typeRef?, hkey, hvalue]
    rfl

/-- The text of a kind's type describes itself as the kind's type. -/
theorem describedType?_fieldType {kind : Kind} (hnames : ∀ name ∈ kind.names, IsTypeName name)
    (nullable : Bool) :
    describedType? (lineText (fieldType kind nullable)) = some (kind.typeRef.orNull nullable) := by
  have hidentifiers := fun name hmem => (hnames name hmem).identifier
  unfold describedType?
  rw [typeOf?_fieldType hidentifiers]
  show (typeShape "" (fieldExpr kind nullable)).typeRef? = _
  rw [fieldExpr, typeShape_optionExpr, typeShape_kindExpr "" hnames]
  exact typeRef?_wrap nullable (typeRef?_shape hidentifiers)

/-- **Emitted field types describe themselves as declared.**  Each field of an accepted structure is
written with a type that describes itself as the type of the field's declaration. -/
theorem field_types_described {decls : List TypeDecl} {known : KnownTypes}
    (hknown : KnownTypes.ofDecls decls = .ok known) {decl : StructDecl} {tag : Nat}
    {schema : Schema.TypeSchema} (h : analyze decl known tag = .ok schema) :
    List.Forall₂ (fun (field : FieldDecl) (plan : FieldPlan) =>
        describedType? (lineText (fieldType plan.kind plan.slot.isSome)) = some field.type)
      decl.fields schema.fields := by
  refine (Schema.mirrors_of_analyze h).fields.imp fun field plan hplan => ?_
  have hnames : ∀ name ∈ plan.kind.names, IsTypeName name := by
    intro name hmem
    obtain ⟨entry, hentry⟩ := hplan.leaves.names name hmem
    exact KnownTypes.isTypeName_of_ofDecls hknown hentry
  rw [describedType?_fieldType hnames, hplan.type]

/-- A tree that leads back to itself, and has rows of what may be lists of dates. -/
def treeStruct : StructDecl :=
  ⟨"Tree", none,
    [⟨"parent", .optional (.named "Tree")⟩,
      ⟨"rows", .list (.map (.primitive .string) (.optional (.array (.primitive .datetime))))⟩]⟩

/-- The texts of its fields' types, and what they describe themselves as. -/
theorem field_types_described_tree :
    ∃ known schema, KnownTypes.ofDecls [.struct treeStruct] = .ok known ∧
      analyze treeStruct known 1 = .ok schema ∧
      schema.fields.map (fun plan => lineText (fieldType plan.kind plan.slot.isSome)) =
        ["Option<Box<Tree>>",
          "Vec<std::collections::HashMap<String, Option<Box<[chrono::DateTime<chrono::Utc>]>>>>"] ∧
      describedType? "Option<Box<Tree>>" = some (.optional (.named "Tree")) ∧
      describedType?
          "Vec<std::collections::HashMap<String, Option<Box<[chrono::DateTime<chrono::Utc>]>>>>" =
        some (.list (.map (.primitive .string) (.optional (.array (.primitive .datetime))))) := by
  have hknown : KnownTypes.ofDecls [.struct treeStruct] =
    .ok ⟨[("Tree", .struct (treeStruct.fields.map FieldDecl.type))]⟩ := rfl
  have hschema : analyze treeStruct ⟨[("Tree", .struct (treeStruct.fields.map FieldDecl.type))]⟩ 1 =
      .ok ⟨"Tree", 1, [⟨"parent", .nested "Tree" true, some 1⟩,
        ⟨"rows", .list (.map (.primitive .string) (.array (.primitive .datetime) false) true) false,
          none⟩]⟩ :=
    Schema.analyze_eq_ok_iff.mpr
      ⟨.nullable rfl rfl rfl (.always rfl rfl rfl .nil), by decide, by decide, by decide⟩
  obtain _ | ⟨hparent, _ | ⟨hrows, -⟩⟩ := field_types_described hknown hschema
  exact ⟨_, _, hknown, hschema, by decide, hparent, hrows⟩

end Wireform.Emit
