import Wireform.Proofs.Layout
import Wireform.Proofs.Spelled
import Wireform.Source.Dialect

/-!
# Emitted files as programs

The file of a structure is text.  It is the text of a program (`Emit.program`), which is spelled in the
emitted dialect: cut into tokens, the file has those of the program (`Emit.src_structModule`).

Lines are cut off one by one, since a line feed ends every token, and blocks are put together as their
lines are.  In a line, the tokens of fixed text are evaluated, and names and numbers stand between
marks and blanks.
-/
namespace Wireform

open Derive (TypeExpr braced bracketed commaSeparated commaTerminated numeral parenthesized
  separatedBy)
open Schema (FieldPlan Kind Step StructCode TypeSchema)

namespace Emit

open Derive.Lexeme (Closed)
open Source (Expr Member Statement emitted fixedSizeOf fixedSizesOf success)

/-! ## 1. The program of a structure -/

/-- A field as the statements of its codec refer to it. -/
def programMember (plan : FieldPlan) : Member := ⟨.word (identOf plan.name), plan.presence⟩

/-- The constant of the fixed size of the type that is implemented. -/
def ownFixedSize : Expr := .item (.plain false ["Self", "FIXED_SIZE"])

/-- The buffer and the cursor count as used if nothing is written or read. -/
def unusedBuffers (schema : TypeSchema) : List Statement :=
  if schema.fields.isEmpty then [.touch false "buf" "cursor"] else []

/-- The encoder of a structure. -/
def programEncoder (schema : TypeSchema) : Source.Encoder :=
  let bytes := schema.bitsetBytes
  let members := schema.fields.map programMember
  { fixedSize :=
      if bytes = 0 then some (fixedSizesOf (schema.fields.map fun plan => kindExpr plan.kind))
      else none
    size :=
      if bytes = 0 then
        ⟨[.whenSome "size" ownFixedSize [.giveBack (.var "size")]], emitted.sizes members⟩
      else
        ⟨.bind true "size" none (.number bytes "") :: members.flatMap emitted.sizeStatements,
          .var "size"⟩
    serialize := ⟨emitted.writingAll bytes members ++ unusedBuffers schema, success .unit⟩ }

/-- The decoder of a structure: a new one is read over the initial one. -/
def programDecoder (schema : TypeSchema) : Source.Decoder where
  deserialize :=
    ⟨[.bind true "value" none (.call (.plain false ["Self", "default"]) []),
      .perform (.attempt (.method (.var "value") "deserialize_in_place" Source.buffers))],
      success (.var "value")⟩
  overwrite :=
    ⟨emitted.overwritingAll schema.bitsetBytes (schema.fields.map programMember)
      ++ unusedBuffers schema, success .unit⟩

/-- A structure with the codec that is emitted for it. -/
def program (schema : TypeSchema) : Source.Program where
  imports := emitted.imports
  derives := ["Debug", "Clone", "PartialEq", "Default"]
  members := schema.fields.map fun plan =>
    (.word (identOf plan.name), fieldExpr plan.kind plan.slot.isSome)
  encoder := programEncoder schema
  decoder := programDecoder schema

/-! ## 2. Lines -/

/-- The text of a line is cut into the tokens. -/
def LineSpells (pieces : List Piece) (tokens : List Derive.Token) : Prop :=
  Derive.Lexeme.Spells (lineText pieces).toList tokens

section

open Derive.Lexeme (Closed CutsInto EndsWord Spells isWordChar plain?)

variable {pieces : List Piece} {tokens others : List Derive.Token} {name : String}

theorem toList_lineText_cons (piece : Piece) (pieces : List Piece) :
    (lineText (piece :: pieces)).toList = piece.toString.toList ++ (lineText pieces).toList := by
  rw [toList_lineText, List.flatMap_cons, ← toList_lineText]

/-- Fixed text in front ends a word. -/
theorem endsWord_text {c : Char} {text : List Char}
    (hc : isWordChar c = false ∧ c ∉ ['#', '"', '\x27']) (pieces : List Piece) :
    EndsWord (lineText (.text (String.ofList (c :: text)) :: pieces)).toList := by
  have hfront : (lineText (.text (String.ofList (c :: text)) :: pieces)).toList =
      (String.ofList (c :: text)).toList ++ (lineText pieces).toList := toList_lineText_cons _ _
  rw [hfront, String.toList_ofList]
  rintro d ⟨⟩
  exact hc

/-- A number is cut off where neither a word nor a fraction goes on. -/
theorem cutsInto_number (n : Nat) {rest : List Char} (hends : EndsWord rest)
    (hpoint : rest.head? ≠ some '.') : CutsInto (toString n).toList [numeral n ""] rest := by
  have hdigits : (toString n).toList = Nat.toDigits 10 n := Nat.toList_repr
  have htoken : numeral n "" = .literal (String.ofList (Nat.toDigits 10 n)) := by
    rw [← hdigits, String.ofList_toList]
    exact congrArg Derive.Token.literal String.append_empty
  rw [hdigits, htoken]
  exact Derive.Lexeme.cutsInto_digits Nat.toDigits_ne_nil
    (fun d hd => Nat.isDigit_of_mem_toDigits (by decide) (by decide) hd) hends hpoint

namespace LineSpells

/-- A line of fixed text. -/
theorem fixed {text : List Char} (h : plain? false text.length text = some tokens) :
    LineSpells [.text (String.ofList text)] tokens := by
  unfold LineSpells
  rw [toList_lineText, List.flatMap_singleton]
  exact .plain h

/-- A line of fixed text spells what the text is cut into. -/
theorem src {text : List Char} (h : (plain? false text.length text).isSome = true) :
    LineSpells [.text (String.ofList text)] (Derive.src (String.ofList text)) := by
  rw [Derive.Lexeme.src_plain h]
  exact fixed (Option.some_get h).symm

/-- Fixed text in front. -/
theorem text {text : List Char} (h : plain? true text.length text = some tokens)
    (hrest : LineSpells pieces others) :
    LineSpells (.text (String.ofList text) :: pieces) (tokens ++ others) := by
  unfold LineSpells
  rw [toList_lineText_cons]
  exact (Closed.plain h).before hrest

/-- A word in front. -/
theorem word (hword : Spells name.toList [.word name]) (hends : EndsWord (lineText pieces).toList)
    (hrest : LineSpells pieces others) :
    LineSpells (.ident name :: pieces) (.word name :: others) := by
  unfold LineSpells
  rw [toList_lineText_cons]
  exact hword.append hends hrest

/-- Fixed text and a word. -/
theorem beforeWord {text : List Char} (h : plain? true text.length text = some tokens)
    (hword : Spells name.toList [.word name]) :
    LineSpells [.text (String.ofList text), .ident name] (tokens ++ [.word name]) :=
  .text h (.word hword Derive.Lexeme.endsWord_nil Closed.nil.spells)

/-- A number in front of a mark that is no point. -/
theorem number (n : Nat) {c : Char} {text : List Char}
    (hc : isWordChar c = false ∧ c ∉ ['#', '"', '\x27']) (hpoint : c ≠ '.')
    (hrest : LineSpells (.text (String.ofList (c :: text)) :: pieces) others) :
    LineSpells (.text (toString n) :: .text (String.ofList (c :: text)) :: pieces)
      (numeral n "" :: others) := by
  have hends : EndsWord (lineText (.text (String.ofList (c :: text)) :: pieces)).toList :=
    endsWord_text hc pieces
  have hfront : (lineText (.text (String.ofList (c :: text)) :: pieces)).toList =
      c :: (text ++ (lineText pieces).toList) := by
    rw [toList_lineText_cons]
    exact congrArg (· ++ _) String.toList_ofList
  unfold LineSpells
  rw [toList_lineText_cons]
  intro rest hrest'
  refine (cutsInto_number n (hends.append hrest') ?_).append (hrest rest hrest')
  rw [hfront]
  exact fun heq => hpoint (Option.some.inj heq)

/-- One piece of a line behind another one. -/
theorem append {more : List Piece} (h : LineSpells pieces tokens)
    (hends : EndsWord (lineText more).toList) (hrest : LineSpells more others) :
    LineSpells (pieces ++ more) (tokens ++ others) := by
  unfold LineSpells
  rw [toList_lineText, List.flatMap_append, ← toList_lineText, ← toList_lineText]
  exact Spells.append h hends hrest

/-- Pieces between fixed text. -/
theorem enclosed {before behind : List Char} (c : Char) {front back : List Derive.Token}
    (h : LineSpells pieces tokens) (hbefore : plain? true before.length before = some front)
    (hc : isWordChar c = false ∧ c ∉ ['#', '"', '\x27'])
    (hbehind : plain? false (c :: behind).length (c :: behind) = some back) :
    LineSpells (enclose (String.ofList before) pieces (String.ofList (c :: behind)))
      (front ++ (tokens ++ back)) :=
  .text hbefore (h.append (endsWord_text hc []) (.fixed hbehind))

/-- Pieces with a mark between each two. -/
theorem joined {α : Type} {items : List α} {pieces : α → List Piece} {tokens : α → List Derive.Token}
    {c mark : Char} {separator : List Char} (hc : isWordChar c = false ∧ c ∉ ['#', '"', '\x27'])
    (hseparator : plain? true (c :: separator).length (c :: separator) = some [.mark mark])
    (h : ∀ item ∈ items, LineSpells (pieces item) (tokens item)) :
    LineSpells (joinPieces (String.ofList (c :: separator)) (items.map pieces))
      (separatedBy mark false (items.map tokens)) := by
  induction items with
  | nil => exact Closed.nil.spells
  | cons item items ih =>
    rw [List.forall_mem_cons] at h
    cases items with
    | nil =>
      have htokens : separatedBy mark false ([item].map tokens) = tokens item :=
        List.append_nil (tokens item)
      rw [htokens]
      exact h.1
    | cons next items =>
      have hrest := LineSpells.text hseparator (ih h.2)
      have hall := h.1.append (endsWord_text hc _) hrest
      have hpieces : joinPieces (String.ofList (c :: separator)) ((item :: next :: items).map pieces) =
          pieces item ++ [.text (String.ofList (c :: separator))]
            ++ joinPieces (String.ofList (c :: separator)) ((next :: items).map pieces) := rfl
      rw [hpieces, List.append_assoc]
      exact hall

end LineSpells

end

/-! ## 3. Code -/

/-- The text of code is cut into the tokens, in blocks of any depth. -/
def Code.Spells (code : Code) (tokens : List Derive.Token) : Prop :=
  ∀ depth, Closed (code.render depth).toList tokens

/-- The text of a list of code is cut into the tokens. -/
def Code.SpellsAll (body : List Code) (tokens : List Derive.Token) : Prop :=
  ∀ depth, Closed (Code.renderAll depth body).toList tokens

namespace Code

variable {pieces header : List Piece} {body otherwise more : List Code} {code : Code}
  {tokens front others : List Derive.Token}

/-- The blanks in front of a line. -/
theorem closed_indentation (depth : Nat) :
    Closed (String.join (List.replicate depth "    ")).toList [] := by
  refine .gaps fun c hc => ?_
  rw [String.toList_join] at hc
  obtain ⟨blanks, hblanks, hc⟩ := List.mem_flatMap.mp hc
  have hblank : "    ".toList = List.replicate 4 ' ' := String.toList_ofList
  rw [List.eq_of_mem_replicate hblanks, hblank] at hc
  rw [List.eq_of_mem_replicate hc]
  rfl

theorem closed_renderLine {text : String} (h : Closed (text.toList ++ ['\n']) tokens) (depth : Nat) :
    Closed (renderLine depth text).toList tokens := by
  unfold renderLine
  split
  · next hempty =>
    rw [String.isEmpty_iff.mp hempty] at h
    exact h
  · rw [String.toList_append, String.toList_append, List.append_assoc]
    exact (closed_indentation depth).append h

/-- The end of a line ends what it spells. -/
theorem closed_endOfLine {text : List Char} (h : Derive.Lexeme.Spells text tokens) :
    Closed (text ++ ['\n']) tokens := by
  have hline := h.close (fun rest => Derive.Lexeme.endsWord_newline rest)
    (Closed.gap (show Derive.Lexeme.isGap '\n' = true by decide))
  rwa [List.append_nil] at hline

theorem spells_line (h : LineSpells pieces tokens) : Code.Spells (.line pieces) tokens :=
  fun depth => closed_renderLine (closed_endOfLine h) depth

theorem spells_blank : Code.Spells blank [] := spells_line Closed.nil.spells

/-- A line with a number and nothing else. -/
theorem spells_number (n : Nat) : Code.Spells (.line [.text (toString n)]) [numeral n ""] := by
  have hline : (lineText [.text (toString n)]).toList = (toString n).toList := by
    rw [toList_lineText, List.flatMap_singleton]
    rfl
  refine closed_renderLine ?_
  rw [hline]
  exact fun rest => (cutsInto_number n (Derive.Lexeme.endsWord_newline _) (by simp)).append
    (Closed.gap (by decide) rest)

theorem SpellsAll.nil : SpellsAll [] [] := fun _ => Closed.nil

theorem SpellsAll.cons (h : Code.Spells code tokens) (hrest : SpellsAll body others) :
    SpellsAll (code :: body) (tokens ++ others) := by
  intro depth
  rw [renderAll, String.toList_append]
  exact (h depth).append (hrest depth)

theorem SpellsAll.single (h : Code.Spells code tokens) : SpellsAll [code] tokens := by
  have hall := SpellsAll.cons h .nil
  rwa [List.append_nil] at hall

theorem renderAll_append (depth : Nat) (body more : List Code) :
    renderAll depth (body ++ more) = renderAll depth body ++ renderAll depth more := by
  induction body with
  | nil => exact (String.empty_append).symm
  | cons code body ih => rw [List.cons_append, renderAll, renderAll, ih, String.append_assoc]

theorem SpellsAll.append (h : SpellsAll body tokens) (hrest : SpellsAll more others) :
    SpellsAll (body ++ more) (tokens ++ others) := by
  intro depth
  rw [renderAll_append, String.toList_append]
  exact (h depth).append (hrest depth)

/-- The line that opens a block. -/
theorem closed_opening (hheader : LineSpells header front) :
    Closed ((lineText header ++ " \x7b").toList ++ ['\n']) (front ++ [.mark '\x7b']) := by
  rw [String.toList_append]
  exact closed_endOfLine
    (Derive.Lexeme.Spells.append hheader (Derive.Lexeme.endsWord_blank _) (.plain rfl))

/-- The line that closes a block. -/
theorem closed_closing (depth : Nat) :
    Closed (renderLine depth "\x7d").toList [.mark '\x7d'] :=
  closed_renderLine (closed_endOfLine (.plain rfl)) depth

/-- A block has its body between braces. -/
theorem spells_block (hheader : LineSpells header front) (hbody : SpellsAll body tokens) :
    Code.Spells (.plainBlock header body) (front ++ braced tokens) := by
  have hopening : Closed ((openingLine (lineText header)).toList ++ ['\n'])
      (front ++ [.mark '\x7b']) := by
    unfold openingLine
    split
    · next hempty =>
      unfold LineSpells at hheader
      rw [String.isEmpty_iff.mp hempty] at hheader
      have hbrace : Closed ("\x7b".toList ++ ['\n']) [.mark '\x7b'] := closed_endOfLine (.plain rfl)
      exact hheader.close (fun _ => Derive.Lexeme.endsWord_mark (by decide) (by decide) _) hbrace
    · exact closed_opening hheader
  intro depth
  have hblock := ((closed_renderLine hopening depth).append (hbody (depth + 1))).append
    (closed_closing depth)
  rw [plainBlock, render, String.toList_append, String.toList_append]
  simpa [braced] using hblock

/-- Two blocks, the second behind `else`. -/
theorem spells_blockElse (hheader : LineSpells header front) (hbody : SpellsAll body tokens)
    (hotherwise : SpellsAll otherwise others) :
    Code.Spells (.blockElse header body otherwise)
      (front ++ (braced tokens ++ .word "else" :: braced others)) := by
  intro depth
  have helse : Closed (renderLine depth "\x7d else \x7b").toList
      [.mark '\x7d', .word "else", .mark '\x7b'] :=
    closed_renderLine (closed_endOfLine (.plain rfl)) depth
  have hblock := ((closed_renderLine (closed_opening hheader) depth).append
    (hbody (depth + 1))).append (helse.append ((hotherwise (depth + 1)).append (closed_closing depth)))
  rw [render]
  simp only [String.toList_append, List.append_assoc]
  simpa [braced] using hblock

end Code

/-! ## 4. Fields -/

/-- A field has an identifier for a name. -/
theorem spells_identOf {name : String} (h : Schema.isIdentifier name = true) :
    Derive.Lexeme.Spells (identOf name).toList [.word (identOf name)] := by
  have hends : ∀ keyword ∈ pathKeywords, Schema.isIdentifier (keyword ++ "_") = true := by decide
  unfold identOf
  split
  · next hpath => exact .ident (hends name (List.contains_iff_mem.mp hpath))
  · split
    · exact .rawIdent h
    · exact .ident h

/-- What stands in front of the name of a field, and what behind it. -/
theorem LineSpells.around {before behind : List Char} (c : Char) {front back : List Derive.Token}
    {name : String} (hname : Schema.isIdentifier name = true)
    (hbefore : Derive.Lexeme.plain? true before.length before = some front)
    (hc : Derive.Lexeme.isWordChar c = false ∧ c ∉ ['#', '"', '\x27'])
    (hbehind : Derive.Lexeme.plain? false (c :: behind).length (c :: behind) = some back) :
    LineSpells [.text (String.ofList before), .ident (identOf name), .text (String.ofList (c :: behind))]
      (front ++ .word (identOf name) :: back) :=
  .text hbefore (.word (spells_identOf hname) (endsWord_text hc []) (.fixed hbehind))

/-- A test whether a field is there. -/
theorem spells_whenSome {name : String} (hname : Schema.isIdentifier name = true) {body : List Piece}
    {statements : List Statement} (hbody : LineSpells body (Statement.tokensOfAll statements)) :
    Code.Spells
      (.plainBlock ["if let Some(value) = &self.", .ident (identOf name)] [.line body])
      (Statement.tokensOfAll
        [.whenSome "value" (.borrow false (.member (.word (identOf name)))) statements]) := by
  have hheader : LineSpells ["if let Some(value) = &self.", .ident (identOf name)] _ :=
    .beforeWord rfl (spells_identOf hname)
  have hlet : Derive.src "if let Some" = _ := Derive.Lexeme.src_plain rfl
  have hblock := Code.spells_block hheader (.single (Code.spells_line hbody))
  have htokens : Statement.tokensOfAll
      [.whenSome "value" (.borrow false (.member (.word (identOf name)))) statements] =
        Derive.src "if let Some" ++ parenthesized [.word "value"] ++ .mark '='
          :: .mark '&' :: .word "self" :: .mark '.' :: .word (identOf name)
          :: (braced (Statement.tokensOfAll statements) ++ []) := rfl
  rw [htokens, List.append_nil, hlet]
  exact hblock

section

variable {plan : FieldPlan}

/-- The size of a field is added. -/
theorem spells_sizeStatements (hname : Schema.isIdentifier plan.name = true) :
    Code.Spells
      (if plan.slot.isSome then
        .plainBlock ["if let Some(value) = &self.", .ident (identOf plan.name)]
          [.line ["size += value.size();"]]
      else .line ["size += self.", .ident (identOf plan.name), ".size();"])
      (Statement.tokensOfAll (emitted.sizeStatements (programMember plan))) := by
  obtain ⟨name, kind, slot⟩ := plan
  cases slot with
  | none =>
    have hline : LineSpells ["size += self.", .ident (identOf name), ".size();"] _ :=
      .around '.' hname rfl (by decide) rfl
    exact Code.spells_line hline
  | some slot => exact spells_whenSome hname (.fixed rfl)

/-- A field is written. -/
theorem spells_writeStatements (hname : Schema.isIdentifier plan.name = true) :
    Code.SpellsAll (writeStep (StructCodec.fieldStep plan))
      (Statement.tokensOfAll (emitted.writeStatements (programMember plan))) := by
  obtain ⟨name, kind, slot⟩ := plan
  cases slot with
  | none =>
    have hline : LineSpells ["self.", .ident (identOf name), ".serialize(buf, cursor)?;"] _ :=
      .around '.' hname rfl (by decide) rfl
    exact .single (Code.spells_line hline)
  | some slot => exact .single (spells_whenSome hname (.fixed rfl))

/-- A field is read over. -/
theorem spells_overwriteStatements (hname : Schema.isIdentifier plan.name = true) :
    Code.SpellsAll (readStep (StructCodec.fieldStep plan))
      (Statement.tokensOfAll (emitted.overwriteStatements (programMember plan))) := by
  obtain ⟨name, kind, slot⟩ := plan
  cases slot with
  | none =>
    have hline : LineSpells
        ["self.", .ident (identOf name), ".deserialize_in_place(buf, cursor)?;"] _ :=
      .around '.' hname rfl (by decide) rfl
    exact .single (Code.spells_line hline)
  | some slot =>
    have hheader : LineSpells ["if bitset.is_null(", toString slot, ")"] _ :=
      .text rfl (.number slot (by decide) (by decide) (.fixed rfl))
    have hnull : LineSpells ["self.", .ident (identOf name), " = None;"] _ :=
      .around ' ' hname rfl (by decide) rfl
    have hpresent : LineSpells ["bitwire::deserialize_present_in_place(&mut self.",
        .ident (identOf name), ", buf, cursor)?;"] _ := .around ',' hname rfl (by decide) rfl
    have hblock := Code.spells_blockElse hheader (.single (Code.spells_line hnull))
      (.single (Code.spells_line hpresent))
    exact .single hblock

end

section

variable {plans : List FieldPlan}

/-- The fields are named by identifiers, and so are the declared types in theirs. -/
def AreNamed (plans : List FieldPlan) : Prop :=
  ∀ plan ∈ plans, Schema.isIdentifier plan.name = true ∧
    ∀ name ∈ plan.kind.names, Schema.isIdentifier name = true

/-- What is spelled for each field is spelled for all fields. -/
theorem spellsAll_fields {f : FieldPlan → List Code} {statements : Member → List Statement}
    (hnames : AreNamed plans)
    (h : ∀ plan, Schema.isIdentifier plan.name = true →
      Code.SpellsAll (f plan) (Statement.tokensOfAll (statements (programMember plan)))) :
    Code.SpellsAll (plans.flatMap f)
      (Statement.tokensOfAll ((plans.map programMember).flatMap statements)) := by
  induction plans with
  | nil => exact .nil
  | cons plan plans ih =>
    rw [AreNamed, List.forall_mem_cons] at hnames
    rw [List.flatMap_cons, List.map_cons, List.flatMap_cons, Statement.tokensOfAll_append]
    exact (h plan hnames.1.1).append (ih hnames.2)

/-- The bits of the nullable fields are given. -/
theorem spells_markStatements (hnames : AreNamed plans) :
    Code.SpellsAll
      ((StructCodec.listedSlots plans).map fun (name, slot) =>
        .line ["bitset.set(", toString slot, ", self.", .ident (identOf name), ".is_none());"])
      (Statement.tokensOfAll ((plans.map programMember).flatMap emitted.markStatements)) := by
  induction plans with
  | nil => exact .nil
  | cons plan plans ih =>
    obtain ⟨name, kind, slot⟩ := plan
    rw [AreNamed, List.forall_mem_cons] at hnames
    cases slot with
    | none => exact ih hnames.2
    | some slot =>
      have hline : LineSpells
          ["bitset.set(", toString slot, ", self.", .ident (identOf name), ".is_none());"] _ :=
        .text rfl (.number slot (by decide) (by decide) (.around '.' hnames.1.1 rfl (by decide) rfl))
      exact .cons (Code.spells_line hline) (ih hnames.2)

/-- The steps of a structure: its bitset, if it has one, and its fields. -/
theorem flatMap_steps (schema : TypeSchema) (f : Step → List Code) :
    (StructCode.ofSchema schema).steps.flatMap f =
      (if schema.bitsetBytes = 0 then []
        else f (.bitset schema.bitsetBytes (StructCodec.listedSlots schema.fields)))
        ++ schema.fields.flatMap fun plan => f (StructCodec.fieldStep plan) := by
  have hsteps : (StructCode.ofSchema schema).steps =
      (if 0 < schema.bitsetBytes then
        [.bitset schema.bitsetBytes (StructCodec.listedSlots schema.fields)] else [])
        ++ schema.fields.map StructCodec.fieldStep := rfl
  rw [hsteps, List.flatMap_append, List.flatMap_map]
  rcases Nat.eq_zero_or_pos schema.bitsetBytes with hzero | hpos
  · rw [if_neg (by omega), if_pos hzero]
    rfl
  · rw [if_pos hpos, if_neg (by omega), List.flatMap_singleton]

/-- The bitset and the fields are written. -/
theorem spells_writingAll {schema : TypeSchema} (hnames : AreNamed schema.fields) :
    Code.SpellsAll ((StructCode.ofSchema schema).steps.flatMap writeStep)
      (Statement.tokensOfAll
        (emitted.writingAll schema.bitsetBytes (schema.fields.map programMember))) := by
  rw [flatMap_steps, Source.Dialect.writingAll, Statement.tokensOfAll_append]
  refine .append ?_ (spellsAll_fields hnames fun plan => spells_writeStatements)
  unfold Source.Dialect.bitsetWriting
  split
  · exact .nil
  · have hnew : LineSpells
        ["let mut bitset = NullBitset::<", toString schema.bitsetBytes, ">::new();"] _ :=
      .text rfl (.number _ (by decide) (by decide) (.fixed rfl))
    have hwrite : LineSpells ["bitset.write(buf, cursor)?;"] _ := .fixed rfl
    rw [Statement.tokensOfAll, Statement.tokensOfAll_append]
    have hmarks := (spells_markStatements hnames).append (.single (Code.spells_line hwrite))
    exact .cons (Code.spells_line hnew) hmarks

/-- The bitset is read, and the fields are read over. -/
theorem spells_overwritingAll {schema : TypeSchema} (hnames : AreNamed schema.fields) :
    Code.SpellsAll ((StructCode.ofSchema schema).steps.flatMap readStep)
      (Statement.tokensOfAll
        (emitted.overwritingAll schema.bitsetBytes (schema.fields.map programMember))) := by
  rw [flatMap_steps, Source.Dialect.overwritingAll, Statement.tokensOfAll_append]
  refine .append ?_ (spellsAll_fields hnames fun plan => spells_overwriteStatements)
  unfold Source.Dialect.bitsetReading
  split
  · exact .nil
  · have hread : LineSpells
        ["let bitset = NullBitset::<", toString schema.bitsetBytes, ">::read(buf, cursor)?;"] _ :=
      .text rfl (.number _ (by decide) (by decide) (.fixed rfl))
    exact .single (Code.spells_line hread)

theorem commaTerminated_cons (tokens : List Derive.Token) (rest : List (List Derive.Token)) :
    commaTerminated (tokens :: rest) = tokens ++ .mark ',' :: commaTerminated rest := by
  cases rest <;> rfl

/-- The definition of a structure. -/
theorem spells_structType {schema : TypeSchema} (hname : Schema.isIdentifier schema.name = true)
    (hnames : AreNamed schema.fields) :
    Code.Spells (structType (.ofSchema schema))
      (.word "pub" :: .word "struct" :: .word schema.name :: braced (commaTerminated
        ((program schema).members.map fun member =>
          .word "pub" :: member.1 :: .mark ':' :: member.2.tokens))) := by
  have hheader : LineSpells ["pub struct ", .ident schema.name] _ :=
    .beforeWord rfl (.ident hname)
  have hfields : Code.SpellsAll
      (schema.fields.map fun plan => .line ("pub " :: .ident (identOf plan.name)
        :: enclose ": " (fieldType plan.kind plan.slot.isSome) ","))
      (commaTerminated (schema.fields.map fun plan => .word "pub" :: .word (identOf plan.name)
        :: .mark ':' :: (fieldExpr plan.kind plan.slot.isSome).tokens)) := by
    generalize schema.fields = plans at hnames
    induction plans with
    | nil => exact .nil
    | cons plan plans ih =>
      rw [AreNamed, List.forall_mem_cons] at hnames
      have htype : LineSpells (fieldType plan.kind plan.slot.isSome)
          (fieldExpr plan.kind plan.slot.isSome).tokens :=
        spells_optionType (spells_kindType hnames.1.2) _
      have hline : LineSpells ("pub " :: .ident (identOf plan.name)
          :: enclose ": " (fieldType plan.kind plan.slot.isSome) ",") _ :=
        .text rfl (.word (spells_identOf hnames.1.1) (endsWord_text (by decide) _)
          (htype.enclosed ',' rfl (by decide) rfl))
      have hall := Code.SpellsAll.cons (Code.spells_line hline) (ih hnames.2)
      have htokens : commaTerminated (((plan :: plans).map fun plan =>
          .word "pub" :: .word (identOf plan.name)
            :: .mark ':' :: (fieldExpr plan.kind plan.slot.isSome).tokens)) = _ ++ _ :=
        commaTerminated_cons _ _
      rw [htokens]
      simpa using hall
  have hcode : structType (.ofSchema schema) = .plainBlock ["pub struct ", .ident schema.name]
      (schema.fields.map fun plan => .line ("pub " :: .ident (identOf plan.name)
        :: enclose ": " (fieldType plan.kind plan.slot.isSome) ",")) := by
    unfold structType
    rw [StructCodec.fields_ofSchema, List.map_map]
    rfl
  have hmembers : (program schema).members.map (fun member =>
      Derive.Token.word "pub" :: member.1 :: Derive.Token.mark ':' :: member.2.tokens) =
        schema.fields.map fun plan => .word "pub" :: .word (identOf plan.name)
          :: .mark ':' :: (fieldExpr plan.kind plan.slot.isSome).tokens := by
    unfold program
    rw [List.map_map]
    rfl
  rw [hcode, hmembers]
  exact Code.spells_block hheader hfields

theorem tokens_fixedSizeOf (type : TypeExpr) : (fixedSizeOf type).tokens =
    .mark '<' :: (type.tokens ++ [.word "as", .word "bitwire", .mark ':', .mark ':',
      .word "Encoder", .mark '>', .mark ':', .mark ':', .word "FIXED_SIZE"]) := by
  simp [fixedSizeOf, Expr.tokens, Source.Path.tokens, Source.namesTokens, Derive.through,
    Derive.angled, Derive.pathSeparator]

theorem tokens_fixedSizesOf (types : List TypeExpr) : (fixedSizesOf types).tokens =
    [.word "bitwire", .mark ':', .mark ':', .word "sum_fixed_sizes", .mark '(', .mark '&', .mark '[']
      ++ (commaSeparated (types.map fun type => (fixedSizeOf type).tokens)
        ++ [.mark ']', .mark ')']) := by
  simp [fixedSizesOf, Source.crateFunction, Expr.tokens, Expr.tokensOfEach,
    Expr.tokensOfEach_map, Source.Path.tokens, Source.namesTokens, Derive.pathSeparator,
    Derive.wordIf, commaSeparated, separatedBy, parenthesized, bracketed]

/-- The constant of the fixed size. -/
theorem spells_fixedSizeConst {schema : TypeSchema} (hnames : AreNamed schema.fields) :
    Code.SpellsAll (fixedSizeConst (.ofSchema schema))
      (Source.fixedSizeTokens
        (fixedSizesOf (schema.fields.map fun plan => kindExpr plan.kind))) := by
  have hsizes : LineSpells (joinPieces ", " (schema.fields.map fun plan =>
      enclose "<" (kindType plan.kind) " as bitwire::Encoder>::FIXED_SIZE"))
      (commaSeparated (schema.fields.map fun plan => (fixedSizeOf (kindExpr plan.kind)).tokens)) := by
    refine .joined (by decide) rfl fun plan hplan => ?_
    have hkind : LineSpells (kindType plan.kind) (kindExpr plan.kind).tokens :=
      spells_kindType (hnames plan hplan).2
    have hsize : LineSpells
        (enclose "<" (kindType plan.kind) " as bitwire::Encoder>::FIXED_SIZE") _ :=
      hkind.enclosed ' ' rfl (by decide) rfl
    rw [tokens_fixedSizeOf]
    exact hsize
  have hconst : LineSpells
      (enclose "const FIXED_SIZE: Option<usize> = bitwire::sum_fixed_sizes(&["
        (joinPieces ", " (schema.fields.map fun plan =>
          enclose "<" (kindType plan.kind) " as bitwire::Encoder>::FIXED_SIZE")) "]);") _ :=
    hsizes.enclosed ']' rfl (by decide) rfl
  have hsrc : Derive.src "const FIXED_SIZE: Option<usize> =" =
      [.word "const", .word "FIXED_SIZE", .mark ':', .word "Option", .mark '<', .word "usize",
        .mark '>', .mark '='] := Derive.Lexeme.src_plain rfl
  have hcode : fixedSizeConst (.ofSchema schema) =
      [.line (enclose "const FIXED_SIZE: Option<usize> = bitwire::sum_fixed_sizes(&["
        (joinPieces ", " (schema.fields.map fun plan =>
          enclose "<" (kindType plan.kind) " as bitwire::Encoder>::FIXED_SIZE")) "]);"), .blank] := by
    unfold fixedSizeConst
    rw [StructCodec.fields_ofSchema, List.map_map]
    rfl
  have hall := Code.SpellsAll.cons (Code.spells_line hconst) (.single Code.spells_blank)
  rw [hcode, Source.fixedSizeTokens, tokens_fixedSizesOf, hsrc, List.map_map]
  simpa [Function.comp_def] using hall

/-- A fixed size comes before all else. -/
theorem spells_shortcut : Code.Spells
    (.plainBlock ["if let Some(size) = Self::FIXED_SIZE"] [.line ["return size;"]])
    (Statement.whenSome "size" ownFixedSize [.giveBack (.var "size")]).tokens := by
  have hlet : Derive.src "if let Some" = _ := Derive.Lexeme.src_plain rfl
  have hheader : LineSpells ["if let Some(size) = Self::FIXED_SIZE"] _ := .fixed rfl
  have hback : LineSpells ["return size;"] _ := .fixed rfl
  have hblock := Code.spells_block hheader (.single (Code.spells_line hback))
  rw [Statement.tokens, hlet]
  exact hblock

/-- Without a bitset the sizes are a sum. -/
theorem spells_plainSizeBody {schema : TypeSchema} (hnames : AreNamed schema.fields) :
    Code.SpellsAll (plainSizeBody (.ofSchema schema))
      (Statement.tokensOfAll [.whenSome "size" ownFixedSize [.giveBack (.var "size")]]
        ++ (emitted.sizes (schema.fields.map programMember)).tokens) := by
  have hterms : Code.Spells
      (.line (if (schema.fields.map fun plan =>
          (["self.", .ident (identOf plan.name), ".size()"] : List Piece)).isEmpty then ["0"]
        else joinPieces " + " (schema.fields.map fun plan =>
          ["self.", .ident (identOf plan.name), ".size()"])))
      (emitted.sizes (schema.fields.map programMember)).tokens := by
    unfold Source.Dialect.sizes
    generalize schema.fields = plans at hnames
    cases plans with
    | nil => exact Code.spells_number 0
    | cons plan plans =>
      have hsum : LineSpells (joinPieces " + " ((plan :: plans).map fun plan =>
          (["self.", .ident (identOf plan.name), ".size()"] : List Piece)))
          (separatedBy '+' false ((plan :: plans).map fun plan =>
            (emitted.size (.member (.word (identOf plan.name)))).tokens)) := by
        refine .joined (by decide) rfl fun plan hplan => ?_
        have hsize : LineSpells ["self.", .ident (identOf plan.name), ".size()"] _ :=
          .around '.' (hnames plan hplan).1 rfl (by decide) rfl
        exact hsize
      have htokens : (Expr.sum (((plan :: plans).map programMember).map fun member =>
          emitted.size (.member member.token))).tokens =
            separatedBy '+' false ((plan :: plans).map fun plan =>
              (emitted.size (.member (.word (identOf plan.name)))).tokens) := by
        rw [Expr.tokens, Expr.tokensOfEach_map, List.map_map]
        rfl
      have hsizes := Code.spells_line hsum
      rw [← htokens] at hsizes
      exact hsizes
  have hcode : plainSizeBody (.ofSchema schema) =
      [.plainBlock ["if let Some(size) = Self::FIXED_SIZE"] [.line ["return size;"]],
        .line (if (schema.fields.map fun plan =>
            (["self.", .ident (identOf plan.name), ".size()"] : List Piece)).isEmpty then ["0"]
          else joinPieces " + " (schema.fields.map fun plan =>
            ["self.", .ident (identOf plan.name), ".size()"]))] := by
    unfold plainSizeBody
    rw [StructCodec.fields_ofSchema, List.map_map]
    rfl
  rw [hcode, Statement.tokensOfAll, Statement.tokensOfAll, List.append_nil]
  exact .cons spells_shortcut (.single hterms)

/-- With a bitset the sizes are added up. -/
theorem spells_nullableSizeBody {schema : TypeSchema} (hnames : AreNamed schema.fields) :
    Code.SpellsAll (nullableSizeBody (.ofSchema schema))
      (Statement.tokensOfAll (.bind true "size" none (.number schema.bitsetBytes "")
          :: (schema.fields.map programMember).flatMap emitted.sizeStatements)
        ++ (Expr.var "size").tokens) := by
  have hbind : LineSpells ["let mut size = ", toString schema.bitsetBytes, ";"] _ :=
    .text rfl (.number _ (by decide) (by decide) (.fixed rfl))
  have hsize : LineSpells ["size"] [.word "size"] := .fixed rfl
  have hfields := spellsAll_fields hnames fun plan hname =>
    Code.SpellsAll.single (spells_sizeStatements hname)
  rw [← List.map_eq_flatMap] at hfields
  have hcode : nullableSizeBody (.ofSchema schema) =
      .line ["let mut size = ", toString schema.bitsetBytes, ";"]
        :: ((schema.fields.map fun plan =>
          if plan.slot.isSome then
            .plainBlock ["if let Some(value) = &self.", .ident (identOf plan.name)]
              [.line ["size += value.size();"]]
          else .line ["size += self.", .ident (identOf plan.name), ".size();"])
          ++ [.line ["size"]]) := by
    unfold nullableSizeBody
    rw [StructCodec.fields_ofSchema, StructCodec.bitsetBytes_ofSchema, List.map_map]
    rfl
  rw [hcode, Statement.tokensOfAll, List.append_assoc]
  exact .cons (Code.spells_line hbind) (hfields.append (.single (Code.spells_line hsize)))

/-- Without fields there are no steps. -/
theorem isEmpty_steps (schema : TypeSchema) :
    (StructCode.ofSchema schema).steps.isEmpty = schema.fields.isEmpty := by
  obtain ⟨name, tag, fields⟩ := schema
  unfold StructCode.ofSchema
  cases fields with
  | nil => simp [TypeSchema.bitsetBytes, TypeSchema.nullableCount, TypeSchema.nullableFields, bitsetSize]
  | cons plan plans => simp

/-- What the steps do, and the result. -/
theorem spells_stepsBody {schema : TypeSchema} {f : Step → List Code} {statements : List Statement}
    (h : Code.SpellsAll ((StructCode.ofSchema schema).steps.flatMap f)
      (Statement.tokensOfAll statements)) :
    Code.SpellsAll (stepsBody f (.ofSchema schema))
      (Statement.tokensOfAll (statements ++ unusedBuffers schema) ++ (success .unit).tokens) := by
  have hresult : LineSpells ["Ok(())"] _ := .fixed rfl
  have hunused : Code.SpellsAll
      (if (StructCode.ofSchema schema).steps.isEmpty then [.line ["let _ = (buf, cursor);"]] else [])
      (Statement.tokensOfAll (unusedBuffers schema)) := by
    rw [isEmpty_steps]
    unfold unusedBuffers
    split
    · have hlet : Derive.src "let _ =" = _ := Derive.Lexeme.src_plain rfl
      have hline : LineSpells ["let _ = (buf, cursor);"] _ := .fixed rfl
      rw [Statement.tokensOfAll, Statement.tokens, hlet]
      exact .single (Code.spells_line hline)
    · exact .nil
  rw [Statement.tokensOfAll_append]
  exact (h.append hunused).append (.single (Code.spells_line hresult))

/-- The header of an implementation. -/
theorem spells_implementation {text : List Char} {trait : List Derive.Token} {name : String}
    (hname : Schema.isIdentifier name = true)
    (h : Derive.Lexeme.plain? true text.length text = some (.word "impl" :: (trait ++ [.word "for"]))) :
    LineSpells [.text (String.ofList text), .ident name]
      (.word "impl" :: (trait ++ [.word "for", .word name])) := by
  have hline := LineSpells.beforeWord h (.ident hname)
  rwa [List.cons_append, List.append_assoc] at hline

/-- The implementation of an encoder. -/
theorem spells_structEncoder {schema : TypeSchema} (hname : Schema.isIdentifier schema.name = true)
    (hnames : AreNamed schema.fields) :
    Code.Spells (structEncoder (.ofSchema schema))
      (.word "impl" :: Derive.encoderTrait ++ .word "for" :: .word schema.name
        :: braced (program schema).encoder.tokens) := by
  have hheader : LineSpells ["impl bitwire::Encoder for ", .ident schema.name]
      (.word "impl" :: (Derive.encoderTrait ++ [.word "for", .word schema.name])) := by
    have htrait : Derive.encoderTrait = _ := Derive.Lexeme.src_plain rfl
    rw [htrait]
    exact spells_implementation hname rfl
  have hconst : Code.SpellsAll
      (if schema.bitsetBytes = 0 then fixedSizeConst (.ofSchema schema) else [])
      ((program schema).encoder.fixedSize.elim [] Source.fixedSizeTokens) := by
    unfold program programEncoder
    dsimp only
    split
    · exact spells_fixedSizeConst hnames
    · exact .nil
  have hsize : Code.SpellsAll
      (if schema.bitsetBytes = 0 then plainSizeBody (.ofSchema schema)
        else nullableSizeBody (.ofSchema schema))
      (Statement.tokensOfAll (program schema).encoder.size.statements
        ++ (program schema).encoder.size.result.tokens) := by
    unfold program programEncoder
    dsimp only
    split
    · exact spells_plainSizeBody hnames
    · exact spells_nullableSizeBody hnames
  have hsizeHead : LineSpells ["fn size(&self) -> usize"] _ := .src rfl
  have hserialize : Code.Spells (.plainBlock serializeHead (stepsBody writeStep (.ofSchema schema)))
      (Derive.src "fn serialize(&self, buf: &mut [u8], cursor: &mut usize) -> bitwire::Result<()>"
        ++ (program schema).encoder.serialize.tokens) :=
    Code.spells_block (.src rfl) (spells_stepsBody (spells_writingAll hnames))
  have hblock := Code.spells_block hheader (hconst.append
    (.cons (Code.spells_block hsizeHead hsize) (.cons Code.spells_blank (.single hserialize))))
  have hcode : structEncoder (.ofSchema schema) =
      .plainBlock ["impl bitwire::Encoder for ", .ident schema.name]
        ((if schema.bitsetBytes = 0 then fixedSizeConst (.ofSchema schema) else [])
          ++ [.plainBlock ["fn size(&self) -> usize"]
              (if schema.bitsetBytes = 0 then plainSizeBody (.ofSchema schema)
                else nullableSizeBody (.ofSchema schema)),
            .blank, .plainBlock serializeHead (stepsBody writeStep (.ofSchema schema))]) := by
    unfold structEncoder
    rw [StructCodec.bitsetBytes_ofSchema]
    rfl
  rw [hcode]
  simpa [Source.Encoder.tokens, Source.Body.tokens] using hblock

/-- The implementation of a decoder. -/
theorem spells_structDecoder {schema : TypeSchema} (hname : Schema.isIdentifier schema.name = true)
    (hnames : AreNamed schema.fields) :
    Code.Spells (structDecoder (.ofSchema schema))
      (.word "impl" :: Derive.decoderTrait ++ .word "for" :: .word schema.name
        :: braced (program schema).decoder.tokens) := by
  have hheader : LineSpells ["impl bitwire::Decoder for ", .ident schema.name]
      (.word "impl" :: (Derive.decoderTrait ++ [.word "for", .word schema.name])) := by
    have htrait : Derive.decoderTrait = _ := Derive.Lexeme.src_plain rfl
    rw [htrait]
    exact spells_implementation hname rfl
  have hinitial : LineSpells ["let mut value = Self::default();"] _ := .fixed rfl
  have hover : LineSpells ["value.deserialize_in_place(buf, cursor)?;"] _ := .fixed rfl
  have hresult : LineSpells ["Ok(value)"] _ := .fixed rfl
  have hstatements := Code.SpellsAll.cons (Code.spells_line hinitial)
    (.cons (Code.spells_line hover) (.single (Code.spells_line hresult)))
  have hdeserialize : Code.Spells
      (.plainBlock deserializeHead [.line ["let mut value = Self::default();"],
        .line ["value.deserialize_in_place(buf, cursor)?;"], .line ["Ok(value)"]])
      (Derive.src "fn deserialize(buf: &[u8], cursor: &mut usize) -> bitwire::Result<Self>"
        ++ (program schema).decoder.deserialize.tokens) :=
    Code.spells_block (.src rfl) hstatements
  have hhead : Derive.src "fn deserialize_in_place(&mut self, buf: &[u8], cursor: &mut usize)"
      ++ Derive.src "-> bitwire::Result<()>" = Derive.src
        "fn deserialize_in_place(&mut self, buf: &[u8], cursor: &mut usize) -> bitwire::Result<()>" := by
    have hfront : Derive.src
      "fn deserialize_in_place(&mut self, buf: &[u8], cursor: &mut usize)" = _ :=
      Derive.Lexeme.src_plain rfl
    have hback : Derive.src "-> bitwire::Result<()>" = _ := Derive.Lexeme.src_plain rfl
    have hboth : Derive.src
        "fn deserialize_in_place(&mut self, buf: &[u8], cursor: &mut usize) -> bitwire::Result<()>" =
        _ := Derive.Lexeme.src_plain rfl
    rw [hfront, hback, hboth]
    rfl
  have hoverwrite : Code.Spells (.plainBlock overwriteHead (stepsBody readStep (.ofSchema schema)))
      (Derive.src
        "fn deserialize_in_place(&mut self, buf: &[u8], cursor: &mut usize) -> bitwire::Result<()>"
        ++ (program schema).decoder.overwrite.tokens) :=
    Code.spells_block (.src rfl) (spells_stepsBody (spells_overwritingAll hnames))
  have hblock := Code.spells_block hheader
    (.cons hdeserialize (.cons Code.spells_blank (.single hoverwrite)))
  have hcode : structDecoder (.ofSchema schema) =
      .plainBlock ["impl bitwire::Decoder for ", .ident schema.name]
        [.plainBlock deserializeHead [.line ["let mut value = Self::default();"],
            .line ["value.deserialize_in_place(buf, cursor)?;"], .line ["Ok(value)"]],
          .blank, .plainBlock overwriteHead (stepsBody readStep (.ofSchema schema))] := rfl
  rw [hcode]
  rw [← hhead] at hblock
  simpa [Source.Decoder.tokens] using hblock

/-- The comments at the top of a file. -/
theorem spells_fileHeader : Code.SpellsAll fileHeader [] := by
  have hcomment {first : Char} {text : List Char} (hfirst : first ≠ '/' ∧ first ≠ '!')
      (hline : '\n' ∉ first :: text) :
      Code.Spells (.line [.text (String.ofList ('/' :: '/' :: first :: text))]) [] := by
    refine Code.closed_renderLine ?_
    rw [toList_lineText, List.flatMap_singleton]
    show Closed ((String.ofList ('/' :: '/' :: first :: text)).toList ++ ['\n']) []
    rw [String.toList_ofList]
    exact .comment (fun c hc => by cases hc; exact hfirst) hline
  exact .cons (hcomment (by decide) (by decide)) (.single (hcomment (by decide) (by decide)))

/-- The lines in front of a module. -/
theorem spells_prelude : Code.SpellsAll modulePrelude
    (.mark '#' :: .mark '!' :: bracketed (.word "allow" :: parenthesized [.word "unused_imports"])
      ++ Source.Import.tokens .around) := by
  have hallow : LineSpells ["#![allow(unused_imports)]"] _ := .fixed rfl
  have huse : LineSpells ["use super::*;"] _ := .src rfl
  have hlines := Code.SpellsAll.cons Code.spells_blank (.cons (Code.spells_line hallow)
    (.cons Code.spells_blank (.single (Code.spells_line huse))))
  exact spells_fileHeader.append hlines

/-- The line that documents a structure. -/
theorem spells_doc (tag : Nat) : Code.Spells (.doc s!"Dispatch tag {tag}.")
    (.mark '#' :: bracketed [.word "doc", .mark '=',
      Derive.literalOf s!" Dispatch tag {tag}."]) := by
  have hdigits : (toString tag).toList = Nat.toDigits 10 tag := Nat.toList_repr
  have hchars : (s!"Dispatch tag {tag}.").toList =
      "Dispatch tag ".toList ++ (Nat.toDigits 10 tag ++ ".".toList) := by
    rw [String.toList_append, String.toList_append, List.append_assoc]
    exact congrArg (fun digits => _ ++ (digits ++ _)) hdigits
  have hcode : Code.doc s!"Dispatch tag {tag}." =
      .line [.text "/// ", .text s!"Dispatch tag {tag}."] := by
    refine congrArg Code.line (if_neg fun hempty => ?_)
    rw [String.isEmpty_iff.mp hempty] at hchars
    cases hchars
  have hcontent : s!" Dispatch tag {tag}." =
      String.ofList (' ' :: (s!"Dispatch tag {tag}.").toList) := by
    refine String.toList_injective ?_
    rw [String.toList_ofList, hchars, String.toList_append, String.toList_append]
    exact (List.append_assoc _ _ _).trans (congrArg (fun digits => _ ++ (digits ++ _)) hdigits)
  rw [hcode, hcontent]
  refine Code.closed_renderLine ?_
  rw [toList_lineText_cons, toList_lineText, List.flatMap_singleton]
  have hline : '\n' ∉ ' ' :: (s!"Dispatch tag {tag}.").toList := by
    rw [hchars]
    intro hmem
    simp only [List.mem_cons, List.mem_append] at hmem
    rcases hmem with hmem | hmem | hmem | hmem
    · exact absurd hmem (by decide)
    · exact absurd hmem (by decide)
    · have hdigit := Nat.isDigit_of_mem_toDigits (by decide) (by decide) hmem
      exact absurd hdigit (by decide)
    · exact absurd hmem (by decide)
  have hlast : (' ' :: (s!"Dispatch tag {tag}.").toList).getLast? ≠ some '\r' := by
    have hdot : ".".toList = ['.'] := rfl
    rw [hchars, hdot, ← List.cons_append, ← List.append_assoc, List.getLast?_concat]
    decide
  exact Closed.documentation (fun c hc => by cases hc; decide) hline hlast

/-- **The file of a structure is the text of its program.** -/
theorem src_structModule {schema : TypeSchema} (hname : Schema.isIdentifier schema.name = true)
    (hnames : AreNamed schema.fields) :
    Derive.src (fileText (structModule (.ofSchema schema))) =
      (program schema).fileTokens "unused_imports" s!" Dispatch tag {schema.tag}." schema.name := by
  have hitem : LineSpells ["use bitwire::bitset::NullBitset;"]
      (Source.Import.tokens (.item ["bitwire", "bitset", "NullBitset"])) := .src rfl
  have htraits : LineSpells ["use bitwire::\x7bDecoder as _, Encoder as _\x7d;"]
      (Source.Import.tokens (.traits ["bitwire"] ["Decoder", "Encoder"])) := .fixed rfl
  have hderives : LineSpells ["#[derive(Debug, Clone, PartialEq, Default)]"]
      (.mark '#' :: bracketed (.word "derive" :: parenthesized (commaSeparated
        ((program schema).derives.map fun derived => [.word derived])))) := .fixed rfl
  have hall := spells_prelude.append (.cons (Code.spells_line hitem)
    (.cons (Code.spells_line htraits) (.cons Code.spells_blank (.cons (spells_doc schema.tag)
      (.cons (Code.spells_line hderives) (.cons (spells_structType hname hnames)
        (.cons Code.spells_blank (.cons (spells_structEncoder hname hnames)
          (.cons Code.spells_blank (.single (spells_structDecoder hname hnames)))))))))))
  have himports : (program schema).imports.flatMap Source.Import.tokens =
      Source.Import.tokens .around
        ++ (Source.Import.tokens (.item ["bitwire", "bitset", "NullBitset"])
          ++ Source.Import.tokens (.traits ["bitwire"] ["Decoder", "Encoder"])) := by
    unfold program emitted
    simp only [List.flatMap_cons, List.flatMap_nil, List.append_nil]
  have htokens : Derive.src (fileText (structModule (.ofSchema schema))) = _ :=
    (hall 0).spells.src_eq
  rw [Source.Program.fileTokens, himports]
  simpa only [List.append_assoc, List.cons_append, List.nil_append] using htokens

end

end Emit

end Wireform
