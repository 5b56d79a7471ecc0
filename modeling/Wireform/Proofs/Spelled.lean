import Wireform.Derive.FieldShape
import Wireform.Emit.Struct
import Wireform.Proofs.Lexing
import Wireform.Proofs.Planned

/-!
# The types of emitted fields

An emitted structure gives its fields types as text.  To a derivation that text is a type expression,
and `Emit.fieldExpr` is the one: the text is cut into the tokens of the expression
(`Emit.src_fieldType`).

Texts are put together as the types are, and what they spell is found by induction on the kind of
the field.
-/
namespace Wireform

open Derive (Lexeme Segment Token TypeArg TypeExpr)
open Schema (Kind Primitive)

/-! ## 1. How types are put together -/

namespace Derive.Lexeme.Spells

variable {text more : List Char} {tokens others : List Token}

/-- A text between two fixed ones, of which the second does not go on with a word. -/
theorem between {front back : List Char} {before behind : List Token} (hfront : Closed front before)
    (h : Spells text tokens) (hends : ∀ rest, EndsWord (back ++ rest)) (hback : Closed back behind) :
    Spells (front ++ (text ++ back)) (before ++ (tokens ++ behind)) :=
  (hfront.append (h.close hends hback)).spells

/-- A name in front of what it leads to. -/
theorem under (name : String) (hname : Schema.isIdentifier name = true) (h : Spells text tokens) :
    Spells (name.toList ++ ':' :: ':' :: text) (.word name :: (pathSeparator ++ tokens)) := by
  have hcolons : Closed [':', ':'] pathSeparator := (Closed.mark (by decide)).append (.mark (by decide))
  have hfront := (ident hname).close (fun _ => endsWord_mark (by decide) (by decide) _) hcolons
  have hspells := hfront.before h
  rwa [List.append_assoc] at hspells

/-- A name in front of what is applied to it. -/
theorem applied (name : String) (hname : Schema.isIdentifier name = true) (h : Spells text tokens) :
    Spells (name.toList ++ '<' :: (text ++ ['>'])) (.word name :: angled tokens) :=
  (ident hname).append (endsWord_mark (by decide) (by decide) _)
    (between (.mark (by decide)) h (fun _ => endsWord_mark (by decide) (by decide) _)
      (.mark (by decide)))

/-- A text between brackets. -/
theorem slice (h : Spells text tokens) : Spells ('[' :: (text ++ [']'])) (bracketed tokens) :=
  between (.mark (by decide)) h (fun _ => endsWord_mark (by decide) (by decide) _) (.mark (by decide))

/-- Two texts with a comma between them. -/
theorem pair (h : Spells text tokens) (h' : Spells more others) :
    Spells (text ++ ',' :: ' ' :: more) (tokens ++ .mark ',' :: others) :=
  h.append (endsWord_mark (by decide) (by decide) _)
    (((Closed.mark (by decide)).append (.gap (by decide))).before h')

end Derive.Lexeme.Spells

/-! ## 2. The types of emitted fields as expressions -/

namespace Emit

open Derive (angled bracketed)

/-- A path of names. -/
def pathExpr (names : List String) : TypeExpr := .path false (names.map .plain)

/-- A path with types as arguments of its last name. -/
def appliedExpr (front : List String) (name : String) (arguments : List TypeExpr) : TypeExpr :=
  .path false (front.map .plain ++ [.angle name false (arguments.map .type) false])

/-- The names on the way to a leaf type. -/
def primitivePath : Primitive → List String
  | .string => ["String"]
  | .duration => ["std", "time", "Duration"]
  | .uuid => ["uuid", "Uuid"]
  | .ulid => ["ulid", "Ulid"]
  | .decimal => ["rust_decimal", "Decimal"]
  | .datetime => ["chrono", "DateTime"]
  | p => [p.name]

/-- The type expression of a leaf type. -/
def primitiveExpr : Primitive → TypeExpr
  | .datetime => appliedExpr ["chrono"] "DateTime" [pathExpr ["chrono", "Utc"]]
  | p => pathExpr (primitivePath p)

/-- The type expression of an optional type, where it is nullable. -/
def optionExpr (nullable : Bool) (type : TypeExpr) : TypeExpr :=
  if nullable then appliedExpr [] "Option" [type] else type

/-- The type expression of the values of a kind. -/
def kindExpr : Kind → TypeExpr
  | .primitive p => primitiveExpr p
  | .enum name _ => pathExpr [name]
  | .nested name recursive =>
    if recursive then appliedExpr [] "Box" [pathExpr [name]] else pathExpr [name]
  | .list element nullable => appliedExpr [] "Vec" [optionExpr nullable (kindExpr element)]
  | .array element nullable =>
    appliedExpr [] "Box" [.slice (optionExpr nullable (kindExpr element))]
  | .map key value nullable =>
    appliedExpr ["std", "collections"] "HashMap"
      [kindExpr key, optionExpr nullable (kindExpr value)]

/-- The type expression of a field. -/
def fieldExpr (kind : Kind) (nullable : Bool) : TypeExpr := optionExpr nullable (kindExpr kind)

open Derive (pathSeparator)
open Derive.Lexeme (Spells)

theorem tokens_appliedExpr (name : String) (argument : TypeExpr) :
    (appliedExpr [] name [argument]).tokens = .word name :: angled argument.tokens := by
  simp [appliedExpr, TypeExpr.tokens, Segment.tokensOfPath, Segment.tokens, TypeArg.tokensOfEach,
    Derive.lifetimesFirst, Derive.listed, Derive.listedTokens]

theorem tokens_hashMapExpr (key value : TypeExpr) :
    (appliedExpr ["std", "collections"] "HashMap" [key, value]).tokens =
      .word "std" :: (pathSeparator ++ .word "collections" :: (pathSeparator ++
        .word "HashMap" :: angled (key.tokens ++ .mark ',' :: value.tokens))) := by
  simp [appliedExpr, TypeExpr.tokens, Segment.tokensOfPath, Segment.tokens, TypeArg.tokensOfEach,
    Derive.lifetimesFirst, Derive.listed, Derive.listedTokens, pathSeparator, angled]

theorem spells_primitiveType (p : Primitive) :
    Spells (primitiveType p).toList (primitiveExpr p).tokens := by
  cases p with
  | datetime =>
    have harguments : (primitiveExpr .datetime).tokens = [.word "chrono", .mark ':', .mark ':',
        .word "DateTime", .mark '<', .word "chrono", .mark ':', .mark ':', .word "Utc",
        .mark '>'] := rfl
    rw [harguments]
    exact .plain rfl
  | _ => exact .plain rfl

/-- The text of a line is that of its pieces. -/
theorem toList_lineText (pieces : List Piece) :
    (lineText pieces).toList = pieces.flatMap fun piece => piece.toString.toList := by
  unfold lineText
  rw [String.toList_join, List.flatMap_map]

theorem toList_enclose (before : String) (type : List Piece) (behind : String) :
    (lineText (enclose before type behind)).toList =
      before.toList ++ ((lineText type).toList ++ behind.toList) := by
  rw [toList_lineText, toList_lineText]
  unfold enclose
  rw [List.flatMap_cons, List.flatMap_append, List.flatMap_singleton]
  rfl

theorem spells_optionType {type : List Piece} {expr : TypeExpr}
    (h : Spells (lineText type).toList expr.tokens) (nullable : Bool) :
    Spells (lineText (optionType nullable type)).toList (optionExpr nullable expr).tokens := by
  cases nullable with
  | false => exact h
  | true =>
    show Spells (lineText (enclose "Option<" type ">")).toList
      (appliedExpr [] "Option" [expr]).tokens
    rw [toList_enclose, tokens_appliedExpr]
    exact .applied "Option" rfl h

/-- The text of a type is cut into the tokens of its expression. -/
theorem spells_kindType {kind : Kind} (hnames : ∀ name ∈ kind.names, Schema.isIdentifier name = true) :
    Spells (lineText (kindType kind)).toList (kindExpr kind).tokens := by
  have hname : ∀ name, Schema.isIdentifier name = true →
      Spells (lineText [.ident name]).toList (pathExpr [name]).tokens := by
    intro name hname
    rw [toList_lineText, List.flatMap_singleton]
    exact .ident hname
  induction kind with
  | primitive p =>
    show Spells (lineText [.text (primitiveType p)]).toList (primitiveExpr p).tokens
    rw [toList_lineText, List.flatMap_singleton]
    exact spells_primitiveType p
  | enum name repr => exact hname name (hnames name List.mem_cons_self)
  | nested name recursive =>
    have hplain := hname name (hnames name List.mem_cons_self)
    cases recursive with
    | false => exact hplain
    | true =>
      show Spells (lineText (enclose "Box<" [.ident name] ">")).toList
        (appliedExpr [] "Box" [pathExpr [name]]).tokens
      rw [toList_enclose, tokens_appliedExpr]
      exact .applied "Box" rfl hplain
  | list element nullable ih =>
    show Spells (lineText (enclose "Vec<" (optionType nullable (kindType element)) ">")).toList
      (appliedExpr [] "Vec" [optionExpr nullable (kindExpr element)]).tokens
    rw [toList_enclose, tokens_appliedExpr]
    exact .applied "Vec" rfl (spells_optionType (ih hnames) nullable)
  | array element nullable ih =>
    have helement := (spells_optionType (ih hnames) nullable).slice
    have hboxed := Spells.applied "Box" rfl helement
    rw [List.cons_append, List.append_assoc] at hboxed
    show Spells (lineText (enclose "Box<[" (optionType nullable (kindType element)) "]>")).toList
      (appliedExpr [] "Box" [.slice (optionExpr nullable (kindExpr element))]).tokens
    rw [toList_enclose, tokens_appliedExpr]
    exact hboxed
  | map key value nullable ihkey ihvalue =>
    have hkey := ihkey fun name hmem => hnames name (List.mem_append_left _ hmem)
    have hvalue := spells_optionType
      (ihvalue fun name hmem => hnames name (List.mem_append_right _ hmem)) nullable
    show Spells (lineText (enclose "std::collections::HashMap<"
        (kindType key ++ .text ", " :: optionType nullable (kindType value)) ">")).toList
      (appliedExpr ["std", "collections"] "HashMap"
        [kindExpr key, optionExpr nullable (kindExpr value)]).tokens
    have hpair : (lineText (kindType key ++ .text ", " :: optionType nullable (kindType value))).toList =
        (lineText (kindType key)).toList ++
          ',' :: ' ' :: (lineText (optionType nullable (kindType value))).toList := by
      rw [toList_lineText, toList_lineText, toList_lineText, List.flatMap_append, List.flatMap_cons]
      rfl
    rw [toList_enclose, tokens_hashMapExpr, hpair]
    exact .under "std" rfl (.under "collections" rfl (.applied "HashMap" rfl (hkey.pair hvalue)))

/-- **The type of an emitted field is cut into the tokens of its expression**, if what stands for the
declared types are identifiers. -/
theorem src_fieldType {kind : Kind} (hnames : ∀ name ∈ kind.names, Schema.isIdentifier name = true)
    (nullable : Bool) :
    Derive.src (lineText (fieldType kind nullable)) = (fieldExpr kind nullable).tokens :=
  (spells_optionType (spells_kindType hnames) nullable).src_eq

end Emit

end Wireform
