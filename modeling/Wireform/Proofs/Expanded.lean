import Wireform.Derive.Expansion.Decode
import Wireform.Derive.Expansion.Encode
import Wireform.Proofs.Lexing
import Wireform.Source.Dialect

/-!
# Expansions as programs

The derivations of a codec expand to sequences of tokens.  For a structure these are the text of a
program (`Derive.program`): the encoder of the program is written with the tokens to which the
derivation of an encoder expands, and so is its decoder (`Derive.tokens_program`).
-/
namespace Wireform.Derive

open Lexeme (src_plain)
open Source (Expr Path Program Statement buffers crateFunction fixedSizeOf fixedSizesOf initialValue
  ownType success)

/-! ## 1. The program of a structure -/

/-- How a field takes part. -/
def FieldShape.presence (shape : FieldShape) : Presence :=
  if shape.skip then .skipped else shape.slot.elim .always .nullable

/-- The field as the statements of a codec refer to it. -/
def FieldShape.place (shape : FieldShape) : Source.Member := ⟨shape.member.token, shape.presence⟩

/-- Reads a value of a type. -/
def reading (type : TypeExpr) : Expr :=
  .attempt (.call (.through type ["bitwire", "Decoder"] "deserialize") buffers)

/-- The value of a field of a new structure. -/
def newValue (shape : FieldShape) : Expr :=
  if shape.skip then initialValue
  else
    match shape.slot, optionInner? shape.type with
    | some slot, some inner =>
      .choose (Source.derived.nullness slot) (.item (.plain false ["None"]))
        (.call (.plain false ["Some"]) [reading inner])
    | _, _ => reading shape.type

/-- The style in which the fields are given. -/
def Fields.style : Fields → Source.Style
  | .named _ => .named
  | .tuple _ => .tuple
  | .unit => .unit

/-- The types of the fields that are not skipped. -/
def wiredTypes (shapes : List FieldShape) : List TypeExpr :=
  (shapes.filter fun shape => !shape.skip).map FieldShape.type

/-- The encoder of a structure. -/
def programEncoder (shapes : List FieldShape) : Source.Encoder :=
  let bytes := shapesBitsetBytes shapes
  let members := shapes.map FieldShape.place
  { fixedSize := if bytes = 0 then some (fixedSizesOf (wiredTypes shapes)) else none
    size :=
      ⟨(if bytes = 0 then [.whenSome "size" (fixedSizeOf ownType) [.giveBack (.var "size")]] else [])
        ++ .allowing "unused_mut" (.bind true "size" (some "usize") (.number bytes "usize"))
        :: members.flatMap Source.derived.sizeStatements, .var "size"⟩
    serialize :=
      ⟨.touch true "buf" "cursor" :: Source.derived.writingAll bytes members, success .unit⟩ }

/-- The decoder of a structure. -/
def programDecoder (fields : Fields) (shapes : List FieldShape) : Source.Decoder :=
  let bytes := shapesBitsetBytes shapes
  { deserialize :=
      ⟨.touch true "buf" "cursor" :: Source.derived.bitsetReading bytes,
        success (.construct fields.style (shapes.map fun shape => shape.member.token)
          (shapes.map newValue))⟩
    overwrite :=
      ⟨.touch true "buf" "cursor"
        :: Source.derived.overwritingAll bytes (shapes.map FieldShape.place), success .unit⟩ }

/-- A structure with its derived codec.  Nothing is imported for it, and it is not known to have an
initial value. -/
def program (fields : Fields) (shapes : List FieldShape) : Program where
  imports := []
  derives := []
  members := shapes.map fun shape => (shape.member.token, shape.type)
  encoder := programEncoder shapes
  decoder := programDecoder fields shapes

/-! ## 2. Its text -/

/-- A function with a single name and a single argument. -/
theorem tokens_callOne (name : String) (argument : Expr) :
    (Expr.call (.plain false [name]) [argument]).tokens =
      .word name :: parenthesized argument.tokens :=
  congrArg (fun tokens => Token.word name :: parenthesized tokens) (List.append_nil argument.tokens)

/-- What is done for the fields that are not skipped, and for no other. -/
theorem tokensOfAll_wired {f : Source.Member → List Statement} {g : FieldShape → List Token}
    (hskipped : ∀ shape : FieldShape, shape.skip = true →
      Statement.tokensOfAll (f shape.place) = [])
    (hwired : ∀ shape : FieldShape, shape.skip = false →
      Statement.tokensOfAll (f shape.place) = g shape) (shapes : List FieldShape) :
    Statement.tokensOfAll ((shapes.map FieldShape.place).flatMap f) =
      (shapes.filter fun shape => !shape.skip).flatMap g := by
  induction shapes with
  | nil => rfl
  | cons shape shapes ih =>
    rw [List.map_cons, List.flatMap_cons, Statement.tokensOfAll_append, ih]
    cases hskip : shape.skip with
    | true =>
      rw [hskipped shape hskip, List.filter_cons_of_neg (by rw [hskip]; exact Bool.false_ne_true)]
      rfl
    | false =>
      rw [hwired shape hskip, List.filter_cons_of_pos (by rw [hskip]; rfl), List.flatMap_cons]

theorem tokens_sizeStatements (shapes : List FieldShape) :
    Statement.tokensOfAll ((shapes.map FieldShape.place).flatMap Source.derived.sizeStatements) =
      (shapes.filter fun shape => !shape.skip).flatMap sizeTerm := by
  have hself : src "self." = _ := src_plain rfl
  have htest : src "if let Some(value) = &" = _ := src_plain rfl
  have hvalue : src "size += bitwire::Encoder::size(value);" = _ := src_plain rfl
  have hplain : src "size += bitwire::Encoder::size(&" = _ := src_plain rfl
  have hend : src ");" = _ := src_plain rfl
  refine tokensOfAll_wired ?_ ?_ shapes
  · rintro ⟨member, type, _, slot⟩ rfl
    rfl
  · rintro ⟨member, type, _, slot⟩ rfl
    unfold sizeTerm FieldShape.ofSelf
    rw [hself, htest, hvalue, hplain, hend]
    cases slot <;> rfl

theorem tokens_markStatements (shapes : List FieldShape) :
    Statement.tokensOfAll ((shapes.map FieldShape.place).flatMap Source.derived.markStatements) =
      (shapes.filter fun shape => !shape.skip).flatMap markStatement := by
  have hself : src "self." = _ := src_plain rfl
  have hset : src "bitset.set(" = _ := src_plain rfl
  have hcomma : src "," = _ := src_plain rfl
  have hend : src ".is_none());" = _ := src_plain rfl
  refine tokensOfAll_wired ?_ ?_ shapes
  · rintro ⟨member, type, _, slot⟩ rfl
    rfl
  · rintro ⟨member, type, _, slot⟩ rfl
    unfold markStatement FieldShape.ofSelf
    rw [hself, hset, hcomma, hend]
    cases slot <;> rfl

theorem tokens_writeStatements (shapes : List FieldShape) :
    Statement.tokensOfAll ((shapes.map FieldShape.place).flatMap Source.derived.writeStatements) =
      (shapes.filter fun shape => !shape.skip).flatMap writeStatement := by
  have hself : src "self." = _ := src_plain rfl
  have htest : src "if let Some(value) = &" = _ := src_plain rfl
  have hvalue : src "bitwire::Encoder::serialize(value, buf, cursor)?;" = _ := src_plain rfl
  have hplain : src "bitwire::Encoder::serialize(&" = _ := src_plain rfl
  have hend : src ", buf, cursor)?;" = _ := src_plain rfl
  refine tokensOfAll_wired ?_ ?_ shapes
  · rintro ⟨member, type, _, slot⟩ rfl
    rfl
  · rintro ⟨member, type, _, slot⟩ rfl
    unfold writeStatement FieldShape.ofSelf
    rw [hself, htest, hvalue, hplain, hend]
    cases slot <;> rfl

/-- A function of the bitset type, as it is called. -/
theorem tokens_bitset (bytes : Nat) (item : String) :
    (Source.derived.bitset bytes item).tokens = bitsetType bytes ++ pathSeparator ++ [.word item] := by
  have hpath : src "bitwire::bitset::NullBitset::" = _ := src_plain rfl
  unfold bitsetType
  rw [hpath]
  rfl

theorem tokens_bitsetWriting (bytes : Nat) (shapes : List FieldShape) :
    Statement.tokensOfAll (Source.derived.bitsetWriting bytes (shapes.map FieldShape.place)) =
      if bytes = 0 then [] else bitsetWrite bytes (shapes.filter fun shape => !shape.skip) := by
  have hbind : src "let mut bitset =" = _ := src_plain rfl
  have hnew : src "::new();" = _ := src_plain rfl
  have hwrite : src "bitset.write(buf, cursor)?;" = _ := src_plain rfl
  unfold Source.Dialect.bitsetWriting bitsetWrite
  split
  · rfl
  · rw [Statement.tokensOfAll, Statement.tokensOfAll_append, tokens_markStatements, Statement.tokens,
      Expr.tokens, tokens_bitset, hbind, hnew, hwrite]
    simp only [List.append_assoc]
    rfl

theorem tokens_bitsetReading (bytes : Nat) :
    Statement.tokensOfAll (Source.derived.bitsetReading bytes) = bitsetRead bytes := by
  have hbind : src "let bitset =" = _ := src_plain rfl
  have hread : src "::read(buf, cursor)?;" = _ := src_plain rfl
  unfold Source.Dialect.bitsetReading bitsetRead
  split
  · rfl
  · rw [Statement.tokensOfAll, Statement.tokens, Expr.tokens, Expr.tokens, tokens_bitset, hbind,
      hread]
    simp only [List.append_assoc]
    rfl

theorem tokens_nullness (slot : Nat) :
    .word "if" :: (Source.derived.nullness slot).tokens = nullTest slot := by
  have htest : src "if bitset.is_null(" = _ := src_plain rfl
  have hend : src ")" = _ := src_plain rfl
  unfold nullTest
  rw [htest, hend]
  rfl

theorem tokens_reading (type : TypeExpr) : (reading type).tokens = readExpression type := by
  have htrait : src "bitwire::Decoder" = _ := src_plain rfl
  have hcall : src "deserialize(buf, cursor)?" = _ := src_plain rfl
  unfold readExpression decoderTrait
  rw [htrait, hcall]
  simp only [reading, Expr.tokens, Path.tokens, List.append_assoc]
  rfl

theorem tokens_initialValue : initialValue.tokens = defaultValue := by
  have hpath : src "::core::default::Default::default()" = _ := src_plain rfl
  unfold defaultValue
  rw [hpath]
  rfl

theorem tokens_newValue (shape : FieldShape) : (newValue shape).tokens = fieldValue shape := by
  have hsome : src "Some(" = _ := src_plain rfl
  have hend : src ")" = _ := src_plain rfl
  obtain ⟨member, type, skip, slot⟩ := shape
  unfold newValue fieldValue
  dsimp only
  split
  · exact tokens_initialValue
  · cases slot with
    | none => exact tokens_reading type
    | some slot =>
      cases hinner : optionInner? type with
      | none => exact tokens_reading type
      | some inner =>
        have hread : (Expr.call (.plain false ["Some"]) [reading inner]).tokens =
            src "Some(" ++ readExpression inner ++ src ")" := by
          rw [tokens_callOne, tokens_reading, hsome, hend]
          rfl
        dsimp only
        rw [← tokens_nullness, ← hread]
        rfl

theorem tokens_overwriteStatements (shape : FieldShape) :
    Statement.tokensOfAll (Source.derived.overwriteStatements shape.place) =
      overwriteStatement shape := by
  have hself : src "self." = _ := src_plain rfl
  have hequals : src "=" = _ := src_plain rfl
  have hsemicolon : src ";" = _ := src_plain rfl
  have hnull : src "= None;" = _ := src_plain rfl
  have hpresent : src "bitwire::deserialize_present_in_place(&mut" = _ := src_plain rfl
  have hplain : src "bitwire::Decoder::deserialize_in_place(&mut" = _ := src_plain rfl
  have hend : src ", buf, cursor)?;" = _ := src_plain rfl
  obtain ⟨member, type, skip, slot⟩ := shape
  unfold overwriteStatement FieldShape.ofSelf
  rw [hself]
  cases skip with
  | true =>
    have hassign : Source.derived.overwriteStatements (FieldShape.place ⟨member, type, true, slot⟩) =
        [.assign member.token initialValue] := rfl
    rw [hassign, Statement.tokensOfAll, Statement.tokens, tokens_initialValue, hequals, hsemicolon,
      if_pos rfl]
    rfl
  | false =>
    rw [if_neg Bool.false_ne_true]
    cases slot with
    | none =>
      dsimp only
      rw [hplain, hend]
      rfl
    | some slot =>
      dsimp only
      rw [← tokens_nullness, hnull, hpresent, hend]
      rfl

/-- The tokens of a touch of the parameters. -/
theorem tokens_touch : (Statement.touch true "buf" "cursor").tokens = touchParameters := by
  have htouch : src "let _ = (&buf, &cursor);" = _ := src_plain rfl
  have hlet : src "let _ =" = _ := src_plain rfl
  unfold touchParameters
  rw [htouch, Statement.tokens, hlet]
  rfl

theorem tokens_fixedSize (shapes : List FieldShape) :
    Source.fixedSizeTokens (fixedSizesOf (wiredTypes shapes)) =
      fixedSizeItem (shapes.filter fun shape => !shape.skip) := by
  have htrait : src "bitwire::Encoder" = Source.namesTokens ["bitwire", "Encoder"] := src_plain rfl
  have hbind : src "const FIXED_SIZE: Option<usize> =" = _ := src_plain rfl
  have hcall : src "const FIXED_SIZE: Option<usize> = bitwire::sum_fixed_sizes(&" =
      src "const FIXED_SIZE: Option<usize> =" ++ ((crateFunction ["sum_fixed_sizes"]).tokens
        ++ [.mark '(', .mark '&']) := by
    rw [hbind]
    exact src_plain rfl
  have hend : src ");" = [.mark ')', .mark ';'] := src_plain rfl
  unfold Source.fixedSizeTokens fixedSizeItem encoderTrait fixedSizesOf wiredTypes
  rw [htrait, hcall, hend]
  simp only [Expr.tokens, Expr.tokensOfEach, Expr.tokensOfEach_map, List.map_map, Function.comp_def,
    fixedSizeOf, Path.tokens, wordIf,
    commaSeparated, separatedBy, bracketed, parenthesized, List.append_assoc, List.cons_append,
    List.nil_append, Bool.false_eq_true, if_false]

/-- The test for a fixed size. -/
theorem tokens_shortcut :
    (Statement.whenSome "size" (fixedSizeOf ownType) [.giveBack (.var "size")]).tokens =
      sizeShortcut := by
  have htest : src "if let Some(size) = <Self as bitwire::Encoder>::FIXED_SIZE" = _ := src_plain rfl
  have hlet : src "if let Some" = _ := src_plain rfl
  have hreturn : src "return size;" = _ := src_plain rfl
  unfold sizeShortcut
  rw [htest, hreturn, Statement.tokens, hlet]
  rfl

/-- The variable that sums up sizes. -/
theorem tokens_total (bytes : Nat) :
    (Statement.allowing "unused_mut"
      (.bind true "size" (some "usize") (.number bytes "usize"))).tokens =
      src "#[allow(unused_mut)] let mut size: usize =" ++ [numeral bytes "usize"] ++ src ";" := by
  have hbind : src "#[allow(unused_mut)] let mut size: usize =" = _ := src_plain rfl
  have hsemicolon : src ";" = _ := src_plain rfl
  rw [hbind, hsemicolon]
  rfl

theorem tokens_success_unit : (success .unit).tokens = src "Ok(())" := by
  have hok : src "Ok(())" = _ := src_plain rfl
  rw [hok]
  rfl

/-- **The encoder of the program is written with the tokens of the expansion.** -/
theorem tokens_programEncoder (shapes : List FieldShape) :
    (programEncoder shapes).tokens = encodeStruct shapes := by
  have hvar : (Expr.var "size").tokens = [.word "size"] := rfl
  unfold programEncoder encodeStruct Source.Encoder.tokens Source.Body.tokens
    Source.Dialect.writingAll
  by_cases hbytes : shapesBitsetBytes shapes = 0
  · simp only [hbytes, if_pos, Option.elim, tokens_fixedSize, Statement.tokensOfAll,
      Statement.tokensOfAll_append, tokens_shortcut, tokens_total, tokens_touch, tokens_success_unit,
      tokens_bitsetWriting, tokens_sizeStatements, tokens_writeStatements, hvar, serializeHead,
      List.append_assoc, List.nil_append]
  · simp only [if_neg hbytes, Option.elim, Statement.tokensOfAll, Statement.tokensOfAll_append, tokens_total,
      tokens_touch, tokens_success_unit, tokens_bitsetWriting, tokens_sizeStatements,
      tokens_writeStatements, hvar, serializeHead, List.append_assoc, List.nil_append]

/-- **The decoder of the program is written with the tokens of the expansion.** -/
theorem tokens_programDecoder (fields : Fields) (shapes : List FieldShape) :
    (programDecoder fields shapes).tokens = decodeStruct fields shapes := by
  have hok : src "Ok(" = [.word "Ok", .mark '('] := src_plain rfl
  have hend : src ")" = [.mark ')'] := src_plain rfl
  have hvalues : Expr.tokensOfEach (shapes.map newValue) = shapes.map fieldValue :=
    (Expr.tokensOfEach_map newValue shapes).trans (List.map_congr_left fun shape _ => tokens_newValue shape)
  have hconstruct : (success (.construct fields.style (shapes.map fun shape => shape.member.token)
      (shapes.map newValue))).tokens = src "Ok(" ++ construction fields shapes ++ src ")" := by
    have hinner : Source.constructTokens (shapes.map fun shape => shape.member.token)
        (shapes.map fieldValue) fields.style = construction fields shapes := by
      cases fields with
      | named fields =>
        unfold construction Source.constructTokens
        rw [List.zipWith_map, List.zipWith_self]
        rfl
      | tuple fields => rfl
      | unit => rfl
    rw [success, tokens_callOne, Expr.tokens, hvalues, hinner, hok, hend]
    rfl
  have hover : Statement.tokensOfAll
      ((shapes.map FieldShape.place).flatMap Source.derived.overwriteStatements) =
        shapes.flatMap overwriteStatement := by
    rw [Statement.tokensOfAll_flatMap, List.flatMap_map]
    exact List.flatMap_congr fun shape _ => tokens_overwriteStatements shape
  simp only [programDecoder, decodeStruct, Source.Decoder.tokens, Source.Body.tokens,
    Source.Dialect.overwritingAll, Statement.tokensOfAll, Statement.tokensOfAll_append, tokens_touch,
    tokens_bitsetReading, tokens_success_unit, hconstruct, hover, deserializeHead,
    List.append_assoc]

end Wireform.Derive
