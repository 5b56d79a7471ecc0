import Wireform.Proofs.Runs
import Wireform.Source.Dialect

/-!
# What statements about fields do

Where a dialect is sound, its calls mean those of the traits (`Dialect.Sound`).  Each statement then
does what the codec of the field does (`Does`): measured, marked, written and read over, there is one
lemma for each.
-/
namespace Wireform.Source

open Derive (Token TypeExpr)

/-! ## 1. Fields -/

/-- A field with the type of its values, behind the null if it is nullable. -/
structure Field extends Member where
  shape : Shape

/-- The type of a field. -/
def Field.type (field : Field) : Shape :=
  match field.presence with
  | .nullable _ => .option field.shape
  | _ => field.shape

/-- Whether a field has a slot. -/
def Field.isNullable (field : Field) : Bool :=
  match field.presence with
  | .nullable _ => true
  | _ => false

/-- The codec of a field. -/
def Field.codec (types : Types) (field : Field) : FieldCodec :=
  ⟨field.presence, types.codecOf field.shape, types.initialOf field.type⟩

/-! ## 2. What dialects mean -/

namespace Scope

variable (scope : Scope)

/-- A target is in scope, in a place that holds values of the type. -/
inductive Sees : Target → Shape → Place → Prop where
  | member {token : Token} {index : Nat} {shape : Shape} (hself : scope.receiver.isSome = true)
    (hmember : scope.member? token = some (index, shape)) :
    Sees (.member token) shape (.member index)
  | var {name : String} {isMutable : Bool} {shape : Shape}
    (hlocal : scope.locals.lookup name = some (isMutable, .borrowed false (.value shape))) :
    Sees (.var name) shape (.var name)

/-- The scope behind a test for null. -/
def behindNull (shape : Shape) : Scope :=
  scope.withLocal "value" false (.borrowed false (.value shape))

/-- The function at hand has a buffer and a cursor, and may fail. -/
structure Transfers (isWritable : Bool) : Prop where
  buffer : scope.locals.lookup "buf" = some (false, .buffer isWritable)
  cursor : scope.locals.lookup "cursor" = some (false, .cursor)
  fails : ∃ ty, scope.returns = .result ty

variable {scope}

theorem types_behindNull (shape : Shape) : (scope.behindNull shape).types = scope.types := rfl

theorem sees_behindNull (shape : Shape) :
    (scope.behindNull shape).Sees (.var "value") shape (.var "value") := .var rfl

theorem Transfers.behindNull {isWritable : Bool} (h : scope.Transfers isWritable) (shape : Shape) :
    (scope.behindNull shape).Transfers isWritable := ⟨h.buffer, h.cursor, h.fails⟩

end Scope

/-- The calls that a dialect spells are those of the traits; values are written of the types that it
admits. -/
structure Dialect.Sound (dialect : Dialect) (admits : Shape → Prop) : Prop where
  size {scope : Scope} (himports : scope.imports = dialect.imports) {target : Target} {shape : Shape}
    {place : Place} (hsees : scope.Sees target shape place) (hint : Option Ty) :
    (dialect.size target).meaning scope hint =
      some ⟨.size, measuring (scope.types.codecOf shape) (fetch place)⟩
  write {scope : Scope} (himports : scope.imports = dialect.imports) {target : Target}
    {shape : Shape} {place : Place} (hsees : scope.Sees target shape place)
    (htransfers : scope.Transfers true) (hadmits : admits shape) (hint : Option Ty) :
    (dialect.write target).meaning scope hint =
      some ⟨.result .unit, writingValue (scope.types.codecOf shape) (fetch place)⟩
  overwrite {scope : Scope} (himports : scope.imports = dialect.imports)
    (hself : scope.receiver = some true) {token : Token} {index : Nat} {shape : Shape}
    (hmember : scope.member? token = some (index, shape)) (htransfers : scope.Transfers false)
    (hint : Option Ty) :
    (dialect.overwrite token).meaning scope hint =
      some ⟨.result .unit, overwritingValue (scope.types.codecOf shape).overwrite (.member index)⟩
  slot {n : Nat} (hn : n ≤ Derive.maxSlot) :
    numberType (some .slot) n dialect.slotSuffix = some .slot
  bitset {scope : Scope} (himports : scope.imports = dialect.imports) (bytes : Nat) :
    scope.function? (dialect.bitset bytes "new") = some (.newBitset bytes) ∧
      scope.function? (dialect.bitset bytes "read") = some (.readBitset bytes)
  /-- The names of the crate and of the language stand for themselves. -/
  expand {scope : Scope} (himports : scope.imports = dialect.imports) {first : String}
    (hfirst : first ∈ ["bitwire", "Ok", "Some", "Self"]) (rest : List String) :
    scope.expand (first :: rest) = first :: rest

/-! ## 3. What statements do -/

/-- Statements have a meaning, with a certain scope behind them, and on certain machines they do what
a run does. -/
def Does (scope : Scope) (statements : List Statement) (behind : Scope) (on : Machine → Prop)
    (run : Run Unit) : Prop :=
  ∃ effect, Statement.meanings scope statements = some ⟨behind, effect⟩ ∧
    ∀ machine, on machine → effect machine = performing run machine

section

variable {scope middle behind : Scope} {statements others : List Statement}
  {on then' : Machine → Prop} {run next : Run Unit}

theorem meanings_cons {statement : Statement} {first : Effect}
    (h : statement.meaning scope = some first) (rest : List Statement) :
    Statement.meanings scope (statement :: rest) =
      (Statement.meanings first.scope rest).map fun others =>
        ⟨others.scope, andThen first.run others.run⟩ := by
  rw [Statement.meanings, h, Option.bind_eq_bind, Option.bind_some]
  cases Statement.meanings first.scope rest <;> rfl

theorem meanings_append (front rest : List Statement) (scope : Scope) :
    Statement.meanings scope (front ++ rest) =
      (Statement.meanings scope front).bind fun first =>
        (Statement.meanings first.scope rest).map fun others =>
          ⟨others.scope, andThen first.run others.run⟩ := by
  induction front generalizing scope with
  | nil =>
    have hpure : ∀ run, andThen (pure none) run = run := fun _ => rfl
    rw [List.nil_append, Statement.meanings, Option.bind_some]
    cases Statement.meanings scope rest <;> rfl
  | cons statement front ih =>
    rw [List.cons_append]
    cases hfirst : statement.meaning scope with
    | none =>
      rw [Statement.meanings, Statement.meanings, hfirst]
      rfl
    | some first =>
      rw [meanings_cons hfirst, meanings_cons hfirst, ih]
      cases Statement.meanings first.scope front with
      | none => rfl
      | some second =>
        dsimp only [Option.map, Option.bind]
        cases Statement.meanings second.scope rest with
        | none => rfl
        | some third =>
          dsimp only
          rw [andThen_assoc]

namespace Does

theorem nil : Does scope [] scope on (pure ()) := ⟨pure none, rfl, fun _ _ => rfl⟩

theorem of_meaning {statement : Statement} {effect : Run (Option Datum)}
    (h : statement.meaning scope = some ⟨behind, effect⟩)
    (hrun : ∀ machine, on machine → effect machine = performing run machine) :
    Does scope [statement] behind on run := by
  refine ⟨andThen effect (pure none), meanings_cons h [], fun machine hmachine => ?_⟩
  unfold andThen
  rw [bind_apply, hrun machine hmachine, performing, bind_apply]
  cases run machine <;> rfl

theorem congr (h : Does scope statements behind on run)
    (hrun : ∀ machine, on machine → run machine = next machine) :
    Does scope statements behind on next := by
  obtain ⟨effect, hmeaning, heffect⟩ := h
  exact ⟨effect, hmeaning, fun machine hmachine =>
    (heffect machine hmachine).trans (performing_congr (hrun machine hmachine))⟩

theorem weaken (h : Does scope statements behind on run)
    (hon : ∀ machine, then' machine → on machine) : Does scope statements behind then' run := by
  obtain ⟨effect, hmeaning, heffect⟩ := h
  exact ⟨effect, hmeaning, fun machine hmachine => heffect machine (hon machine hmachine)⟩

/-- Where statements do what a run does that depends on values, one effect is that of all runs. -/
theorem uniform {ι : Type} {good : ι → Prop} {on : ι → Machine → Prop} {run : ι → Run Unit}
    (hgood : ∃ i, good i) (h : ∀ i, good i → Does scope statements behind (on i) (run i)) :
    ∃ effect, Statement.meanings scope statements = some ⟨behind, effect⟩ ∧
      ∀ i, good i → ∀ machine, on i machine → effect machine = performing (run i) machine := by
  obtain ⟨first, hfirst⟩ := hgood
  obtain ⟨effect, hmeaning, -⟩ := h first hfirst
  refine ⟨effect, hmeaning, fun i hi machine hmachine => ?_⟩
  obtain ⟨effect', hmeaning', hrun⟩ := h i hi
  rw [hmeaning] at hmeaning'
  cases hmeaning'
  exact hrun machine hmachine

/-- Statements after others, on the machines that those leave. -/
theorem append (h : Does scope statements middle on run)
    (hkeeps : ∀ machine, on machine → ∀ after, run machine = .ok () after → then' after)
    (h' : Does middle others behind then' next) :
    Does scope (statements ++ others) behind on (do run; next) := by
  obtain ⟨first, hfirst, hrun⟩ := h
  obtain ⟨second, hsecond, hnext⟩ := h'
  refine ⟨andThen first second, ?_, fun machine hmachine => ?_⟩
  · rw [meanings_append, hfirst, Option.bind_some, hsecond]
    rfl
  · unfold andThen
    rw [bind_apply, hrun machine hmachine, performing, performing, bind_apply, bind_apply, bind_apply]
    cases hafter : run machine with
    | error failure after => rfl
    | ok found after =>
      exact (hnext after (hkeeps machine hmachine after hafter)).trans (bind_apply next _ after)

end Does

end

/-! ## 4. Single fields -/

/-- A value that a field can have: an optional field is null, or there is a value. -/
def Field.Takes (field : Field) (value : Value) : Prop :=
  match field.presence with
  | .nullable _ => value = .null ∨ ∃ inner, value = .present inner
  | _ => True

section

variable {scope : Scope} {index : Nat} {token : Token} {shape : Shape} {value inner : Value}
  {name : String} {machine : Machine}

theorem meaning_perform {expr : Expr} {run : Run Datum}
    (h : expr.meaning scope none = some ⟨.unit, run⟩) :
    (Statement.perform expr).meaning scope = some ⟨scope, performing run⟩ := by
  rw [Statement.meaning, h]
  rfl

theorem meaning_increase {expr : Expr} {run : Run Datum}
    (htotal : scope.locals.lookup "size" = some (true, .size))
    (hexpr : ∀ hint, expr.meaning scope hint = some ⟨.size, run⟩) :
    (Statement.increase "size" expr).meaning scope =
      some ⟨scope, performing (increasing "size" run)⟩ := by
  rw [Statement.meaning, hexpr]
  simp [htotal]

theorem meaning_attempt {expr : Expr} {ty : Ty} {run : Run Datum}
    (hfails : ∃ ty, scope.returns = .result ty)
    (h : ∀ hint, expr.meaning scope hint = some ⟨.result ty, run⟩) (hint : Option Ty) :
    (Expr.attempt expr).meaning scope hint = some ⟨ty, run⟩ := by
  obtain ⟨returns, hreturns⟩ := hfails
  rw [Expr.meaning, h, Option.bind_eq_bind, Option.bind_some, hreturns]

theorem meaning_member {hint : Option Ty} (hself : scope.receiver.isSome = true)
    (hmember : scope.member? token = some (index, shape)) :
    (Expr.member token).meaning scope hint = some ⟨.value shape, fetch (.member index)⟩ := by
  simp [Expr.meaning, hself, hmember]

theorem meaning_method (hint : Option Ty) {receiver : Expr} {arguments : List Expr} {found : Typed}
    {typed : List Typed} {method : Method} (hreceiver : receiver.meaning scope none = some found)
    (hmethod : methods.lookup name = some method)
    (harguments : Expr.meanings scope (some .slot) arguments = some typed) :
    (Expr.method receiver name arguments).meaning scope hint =
      scope.invoke found ((receiver.place? scope).map Prod.snd) method typed := by
  rw [Expr.meaning, hreceiver, hmethod, harguments]
  rfl

theorem exprs_nil {hint : Option Ty} : Expr.meanings scope hint [] = some [] := by
  rw [Expr.meanings]

theorem exprs_cons {expr : Expr} {rest : List Expr} {hint : Option Ty} {found : Typed}
    {others : List Typed} (hexpr : expr.meaning scope hint = some found)
    (hrest : Expr.meanings scope hint rest = some others) :
    Expr.meanings scope hint (expr :: rest) = some (found :: others) := by
  rw [Expr.meanings, hexpr, hrest]
  rfl

theorem meaning_call (hint : Option Ty) {path : Path} {arguments : List Expr} {typed : List Typed}
    {function : Function} (hfunction : scope.function? path = some function)
    (harguments : Expr.meanings scope (function.hint hint) arguments = some typed) :
    (Expr.call path arguments).meaning scope hint = scope.apply hint function typed := by
  rw [Expr.meaning, hfunction]
  dsimp only [Option.bind_eq_bind, Option.bind_some]
  rw [harguments]
  rfl

/-- The buffer and the cursor, passed on. -/
theorem meanings_buffers {isWritable : Bool} (h : scope.Transfers isWritable) (hint : Option Ty) :
    Expr.meanings scope hint buffers =
      some [⟨.buffer isWritable, fetch (.var "buf")⟩, ⟨.cursor, fetch (.var "cursor")⟩] := by
  have hbuffer : (Expr.var "buf").meaning scope hint = some ⟨.buffer isWritable, fetch (.var "buf")⟩ := by
    rw [Expr.meaning, h.buffer]
    rfl
  have hcursor : (Expr.var "cursor").meaning scope hint = some ⟨.cursor, fetch (.var "cursor")⟩ := by
    rw [Expr.meaning, h.cursor]
    rfl
  exact exprs_cons hbuffer (exprs_cons hcursor exprs_nil)

theorem place_member (hself : scope.receiver = some true)
    (hmember : scope.member? token = some (index, shape)) :
    (Expr.member token).place? scope = some (.value shape, .member index) := by
  rw [Expr.place?, if_pos hself, hmember]
  rfl

theorem meaning_place (hself : scope.receiver = some true)
    (hmember : scope.member? token = some (index, shape)) (hint : Option Ty) :
    (Expr.borrow true (.member token)).meaning scope hint =
      some ⟨.borrowed true (.value shape), pure (.place (.member index))⟩ := by
  rw [Expr.meaning, place_member hself hmember]
  rfl

theorem meaning_assign {expr : Expr} {run : Run Datum} (hself : scope.receiver = some true)
    (hmember : scope.member? token = some (index, shape))
    (hexpr : expr.meaning scope (some (.value shape)) = some ⟨.value shape, run⟩) :
    (Statement.assign token expr).meaning scope =
      some ⟨scope, performing do store (.member index) (← run)⟩ := by
  rw [Statement.meaning, place_member hself hmember]
  dsimp only [Option.bind_eq_bind, Option.bind_some]
  rw [hexpr]
  exact if_pos rfl

theorem meaning_choose {test yes no : Expr} {hint : Option Ty} {ty : Ty} {run first second : Run Datum}
    (htest : test.meaning scope none = some ⟨.truth, run⟩)
    (hyes : yes.meaning scope hint = some ⟨ty, first⟩)
    (hno : no.meaning scope hint = some ⟨ty, second⟩) :
    (Expr.choose test yes no).meaning scope hint = some ⟨ty, choosing run first second⟩ := by
  rw [Expr.meaning, htest, hyes, hno]
  exact if_pos ⟨rfl, rfl⟩

theorem meaning_branch {test : Expr} {run : Run Datum} {yes no : List Statement}
    {first second : Effect} (htest : test.meaning scope none = some ⟨.truth, run⟩)
    (hyes : Statement.meanings scope yes = some first)
    (hno : Statement.meanings scope no = some second) :
    (Statement.branch test yes no).meaning scope =
      some ⟨scope, choosing run (inBlock first.run) (inBlock second.run)⟩ := by
  rw [Statement.meaning, htest, hyes, hno]
  rfl

theorem meaning_whenSome {of : Expr} {ty inner : Ty} {run : Run Datum} {body : List Statement}
    {effect : Effect} (hof : of.meaning scope none = some ⟨ty, run⟩)
    (hnull : ty.behindNull? = some inner)
    (hbody : Statement.meanings (scope.withLocal name false inner) body = some effect) :
    (Statement.whenSome name of body).meaning scope =
      some ⟨scope, whenPresent name run effect.run⟩ := by
  rw [Statement.meaning, hof]
  simp only [Option.bind_eq_bind, Option.bind_some, hnull, hbody]

/-- Behind a test for null there is a variable that refers to what is behind it. -/
theorem meaning_whenPresent {body : List Statement} {effect : Effect}
    (hself : scope.receiver.isSome = true)
    (hmember : scope.member? token = some (index, .option shape))
    (hbody : Statement.meanings (scope.behindNull shape) body = some effect) :
    (Statement.whenSome "value" (.borrow false (.member token)) body).meaning scope =
      some ⟨scope, whenPresent "value" (fetch (.member index)) effect.run⟩ := by
  have hof : (Expr.borrow false (.member token)).meaning scope none =
      some ⟨.borrowed false (.value (.option shape)), fetch (.member index)⟩ := by
    rw [Expr.meaning, meaning_member hself hmember]
    rfl
  exact meaning_whenSome hof rfl hbody

end

namespace Dialect.Sound

variable {dialect : Dialect} {admits : Shape → Prop} {scope : Scope} {field : Field} {index : Nat}

/-- **A field is written by its codec.** -/
theorem does_writing (h : dialect.Sound admits) (himports : scope.imports = dialect.imports)
    (hself : scope.receiver.isSome = true) (htransfers : scope.Transfers true)
    (hmember : scope.member? field.token = some (index, field.type))
    (hadmits : field.presence ≠ .skipped → admits field.shape) {value : Value}
    (htakes : field.Takes value) :
    Does scope (dialect.writeStatements field.toMember) scope (Holds index value)
      (writing ((field.codec scope.types).write value)) := by
  obtain ⟨⟨token, presence⟩, shape⟩ := field
  cases presence with
  | skipped => exact .nil
  | always =>
    have hwrite := h.write himports (.member hself hmember) htransfers (hadmits (by simp))
    refine .of_meaning (meaning_perform (meaning_attempt htransfers.fails hwrite none))
      fun machine hvalue => ?_
    rw [performing_congr (writingValue_apply _ (fetch_member hvalue)), performing_unit]
    rfl
  | nullable slot =>
    have hinner := h.write (show (scope.behindNull shape).imports = _ from himports)
      (Scope.sees_behindNull shape) (htransfers.behindNull shape) (hadmits (by simp))
    have hbody : Statement.meanings (scope.behindNull shape)
        [.perform (.attempt (dialect.write (.var "value")))] = _ :=
      meanings_cons (meaning_perform
        (meaning_attempt (htransfers.behindNull shape).fails hinner none)) []
    refine .of_meaning (meaning_whenPresent hself hmember hbody) fun machine hvalue => ?_
    dsimp only [Statement.meanings, Option.map]
    rw [andThen_performing]
    obtain rfl | ⟨inner, rfl⟩ := htakes
    · rw [whenPresent_null hvalue]
      rfl
    · rw [whenPresent_present hvalue, performing_congr (writingValue_apply _ (fetch_var rfl)),
        performing_unit, leaving_writing]
      rfl

/-- **A field is measured by its codec.** -/
theorem does_sizing (h : dialect.Sound admits) (himports : scope.imports = dialect.imports)
    (hself : scope.receiver.isSome = true)
    (htotal : scope.locals.lookup "size" = some (true, .size))
    (hmember : scope.member? field.token = some (index, field.type)) {value : Value}
    (htakes : field.Takes value) :
    Does scope (dialect.sizeStatements field.toMember) scope
      (fun machine => Holds index value machine ∧ ∃ total, Counts machine total)
      (adding ((field.codec scope.types).size value)) := by
  obtain ⟨⟨token, presence⟩, shape⟩ := field
  cases presence with
  | skipped =>
    refine ⟨pure none, rfl, ?_⟩
    rintro machine ⟨-, total, htotal⟩
    have hzero : (Field.codec scope.types ⟨⟨token, .skipped⟩, shape⟩).size value = 0 := rfl
    rw [hzero, performing, bind_apply, adding_zero htotal]
  | always =>
    refine .of_meaning (meaning_increase htotal (h.size himports (.member hself hmember))) ?_
    rintro machine ⟨hvalue, total, htotal⟩
    refine performing_congr ?_
    rw [increasing_apply (measuring_apply _ (fetch_member hvalue)) htotal]
    exact (adding_apply _ htotal).symm
  | nullable slot =>
    have hinner := h.size (show (scope.behindNull shape).imports = _ from himports)
      (Scope.sees_behindNull shape)
    rw [Scope.types_behindNull] at hinner
    have hsize : (scope.behindNull shape).locals.lookup "size" = some (true, .size) := htotal
    have hbody : Statement.meanings (scope.behindNull shape)
        [.increase "size" (dialect.size (.var "value"))] = _ :=
      meanings_cons (meaning_increase hsize hinner) []
    refine .of_meaning (meaning_whenPresent hself hmember hbody) ?_
    rintro machine ⟨hvalue, total, htotal⟩
    dsimp only [Statement.meanings, Option.map]
    rw [andThen_performing]
    obtain rfl | ⟨inner, rfl⟩ := htakes
    · have hzero : (Field.codec scope.types ⟨⟨token, .nullable slot⟩, shape⟩).size .null = 0 := rfl
      rw [whenPresent_null hvalue, hzero, performing, bind_apply, adding_zero htotal]
      rfl
    · have hfetch : fetch (.var "value") (machine.withLocal "value" (.value inner)) =
          .ok (.value inner) (machine.withLocal "value" (.value inner)) := fetch_var rfl
      have hcounts : Counts (machine.withLocal "value" (.value inner)) total := htotal
      have hsize := increasing_apply (measuring_apply (scope.types.codecOf shape) hfetch) hcounts
      have hleave := leave_put (show "value" ≠ "size" by decide) (.value inner)
        (.number (total + (scope.types.codecOf shape).size inner)) machine
      rw [whenPresent_present hvalue, performing, performing, bind_apply, bind_apply, hsize,
        adding_apply _ htotal]
      exact congrArg (EStateM.Result.ok none) hleave

/-- **A nullable field gives the bit of its slot.** -/
theorem does_marking (h : dialect.Sound admits) (hself : scope.receiver.isSome = true)
    (hmember : scope.member? field.token = some (index, field.type))
    (hbitset : field.isNullable → ∃ bytes, scope.locals.lookup "bitset" = some (true, .bitset bytes))
    (hslot : ∀ slot, field.presence = .nullable slot → slot ≤ Derive.maxSlot) (value : Value) :
    Does scope (dialect.markStatements field.toMember) scope
      (fun machine => Holds index value machine ∧ ∃ bytes set, HasBitset machine bytes set)
      (marking ((field.codec scope.types).mark? value).toList) := by
  obtain ⟨⟨token, presence⟩, shape⟩ := field
  cases presence with
  | always | skipped => exact .nil
  | nullable slot =>
    obtain ⟨bytes, hbitset⟩ := hbitset rfl
    have hmember : scope.member? token = some (index, .option shape) := hmember
    have hnumber := h.slot (hslot slot rfl)
    have hnull : (Expr.method (.member token) "is_none" []).meaning scope (some .slot) =
        some ⟨.truth, do
          let value ← expect Datum.value? (fetch (.member index))
          pure (.truth value.isNull)⟩ :=
      meaning_method (some .slot) (meaning_member hself hmember)
        (show methods.lookup "is_none" = some .isNone from rfl) (show _ = some [] from rfl)
    have hnumber : (Expr.number slot dialect.slotSuffix).meaning scope (some .slot) =
        some ⟨.slot, pure (.number slot)⟩ := by
      rw [Expr.meaning, h.slot (hslot slot rfl)]
      rfl
    have hvar : (Expr.var "bitset").meaning scope none =
        some ⟨.bitset bytes, fetch (.var "bitset")⟩ := by
      rw [Expr.meaning, hbitset]
      rfl
    have hplace : (Expr.var "bitset").place? scope = some (.bitset bytes, .var "bitset") := by
      rw [Expr.place?, hbitset]
    have hset := meaning_method none hvar (show methods.lookup "set" = some .mark from rfl)
      (exprs_cons hnumber (exprs_cons hnull exprs_nil))
    rw [hplace] at hset
    refine .of_meaning (meaning_perform hset) ?_
    rintro machine ⟨hvalue, bytes, set, hbitset⟩
    have hfound : Datum.value? (.value value) = some value := rfl
    have hnull : (do
        let value ← expect Datum.value? (fetch (.member index))
        pure (.truth value.isNull) : Run Datum) machine = .ok (.truth value.isNull) machine := by
      rw [bind_apply, expect_apply (fetch_member hvalue) hfound]
      rfl
    have hmark : (Field.codec scope.types ⟨⟨token, .nullable slot⟩, shape⟩).mark? value =
        some (slot, value.isNull) := rfl
    dsimp only [Option.map]
    rw [hmark, performing, performing, bind_apply, bind_apply, Option.toList, marking, bind_apply,
      markingNull_apply hbitset (pure_apply _ _) hnull,
      markingNull_apply hbitset (pure_apply _ _) (pure_apply _ _)]
    cases set.set? slot value.isNull <;> rfl

/-- A skipped field gets its initial value, and a null one none. -/
theorem meaning_initialValue (scope : Scope) (shape : Shape) :
    initialValue.meaning scope (some (.value shape)) =
      some ⟨.value shape, pure (.value (scope.types.initialOf shape))⟩ := by
  have hfunction : scope.function? (.plain true ["core", "default", "Default", "default"]) =
      some .initial := by
    rw [Scope.function?, if_pos rfl]
  exact meaning_call _ hfunction exprs_nil

/-- The test for a null field. -/
theorem meaning_nullness (h : dialect.Sound admits) {slot bytes : Nat} (hslot : slot ≤ Derive.maxSlot)
    {isMutable : Bool} (hbitset : scope.locals.lookup "bitset" = some (isMutable, .bitset bytes))
    (hint : Option Ty) :
    (dialect.nullness slot).meaning scope hint =
      some ⟨.truth, testingNull (fetch (.var "bitset")) (pure (.number slot))⟩ := by
  have hvar : (Expr.var "bitset").meaning scope none =
      some ⟨.bitset bytes, fetch (.var "bitset")⟩ := by
    rw [Expr.meaning, hbitset]
    rfl
  have hnumber : (Expr.number slot dialect.slotSuffix).meaning scope (some .slot) =
      some ⟨.slot, pure (.number slot)⟩ := by
    rw [Expr.meaning, h.slot hslot]
    rfl
  exact meaning_method hint hvar (show methods.lookup "is_null" = some .isNull from rfl)
    (exprs_cons hnumber exprs_nil)

/-- The call that reads over what is behind a null. -/
theorem meaning_overwritePresent (h : dialect.Sound admits) (himports : scope.imports = dialect.imports)
    (hself : scope.receiver = some true) (htransfers : scope.Transfers false)
    {token : Token} {shape : Shape} (hmember : scope.member? token = some (index, .option shape))
    (hint : Option Ty) :
    (Expr.call (crateFunction ["deserialize_present_in_place"])
      (.borrow true (.member token) :: buffers)).meaning scope hint =
      some ⟨.result .unit, do
        let place ← expect Datum.place? (pure (.place (.member index)))
        overwritingValue (presentOverwriter (scope.types.codecOf shape)) place⟩ := by
  have hfunction : scope.function? (crateFunction ["deserialize_present_in_place"]) =
      some .overwritePresent := by
    rw [crateFunction, Scope.function?, h.expand himports (by decide)]
    rfl
  exact meaning_call hint hfunction
    (exprs_cons (meaning_place hself hmember none) (meanings_buffers htransfers none))

/-- A nullable field is read over as its bit tells. -/
theorem overwrite_nullable (types : Types) (token : Token) (shape : Shape) (slot : Nat) {bytes : Nat}
    (set : NullBitset bytes) (value : Value) (buffer : Buffer) (cursor : Nat) :
    (Field.codec types ⟨⟨token, .nullable slot⟩, shape⟩).overwrite set value buffer cursor =
      match set.isNull? slot with
      | none => ⟨value, cursor, .error .outOfBounds⟩
      | some true => ⟨.null, cursor, .ok ()⟩
      | some false => presentOverwriter (types.codecOf shape) value buffer cursor := by
  have hcodec : (Field.codec types ⟨⟨token, .nullable slot⟩, shape⟩).overwrite set value buffer cursor =
      Overwritten.after (set.test slot) value buffer cursor fun isNull cursor =>
        if isNull then ⟨.null, cursor, .ok ()⟩
        else presentOverwriter (types.codecOf shape) value buffer cursor := rfl
  rw [hcodec, NullBitset.test]
  cases set.isNull? slot with
  | none => rfl
  | some isNull => cases isNull <;> rfl

/-- **A field is read over by its codec.** -/
theorem does_overwriting (h : dialect.Sound admits) (himports : scope.imports = dialect.imports)
    (hself : scope.receiver = some true) (htransfers : scope.Transfers false)
    (hmember : scope.member? field.token = some (index, field.type)) {bytes : Nat}
    (hbitset : field.isNullable → scope.locals.lookup "bitset" = some (false, .bitset bytes))
    (hslot : ∀ slot, field.presence = .nullable slot → slot ≤ Derive.maxSlot)
    (set : NullBitset bytes) :
    Does scope (dialect.overwriteStatements field.toMember) scope
      (fun machine => (∃ value, Holds index value machine) ∧
        (field.isNullable → HasBitset machine bytes set))
      (overwriting Datum.valueCase ((field.codec scope.types).overwrite set) (.member index)) := by
  obtain ⟨⟨token, presence⟩, shape⟩ := field
  cases presence with
  | skipped =>
    refine .of_meaning (meaning_assign hself hmember (meaning_initialValue scope _)) ?_
    rintro machine ⟨⟨value, hvalue⟩, -⟩
    exact performing_congr (assigning_apply _ hvalue)
  | always =>
    refine .of_meaning (meaning_perform (meaning_attempt htransfers.fails
      (h.overwrite himports hself hmember htransfers) none)) fun machine _ => ?_
    exact congrFun (performing_unit _) machine
  | nullable slot =>
    have hbitset := hbitset rfl
    have hmember : scope.member? token = some (index, .option shape) := hmember
    have hnone : (Expr.item (.plain false ["None"])).meaning scope (some (.value (.option shape))) =
        some ⟨.value (.option shape), pure (.value .null)⟩ := rfl
    have hyes := meanings_cons (meaning_assign hself hmember hnone) []
    have hno := meanings_cons (meaning_perform (meaning_attempt htransfers.fails
      (h.meaning_overwritePresent himports hself htransfers hmember) none)) []
    have hbranch := meaning_branch (h.meaning_nullness (hslot slot rfl) hbitset none) hyes hno
    refine .of_meaning hbranch ?_
    rintro machine ⟨⟨value, hvalue⟩, hset⟩
    have hset := hset rfl
    dsimp only [Statement.meanings, Option.map]
    rw [andThen_performing, andThen_performing]
    have htest := testingNull_apply slot hset
    cases hbit : set.isNull? slot with
    | none =>
      have hfailed := overwrite_nullable scope.types token shape slot set value machine.buffer
        machine.cursor
      rw [hbit] at htest hfailed
      refine (choosing_failed htest).trans ?_
      rw [performing, bind_apply, overwriting_failed hvalue hfailed]
    | some isNull =>
      rw [hbit] at htest
      refine (choosing_apply htest).trans ?_
      cases isNull with
      | true =>
        refine (inBlock_congr (performing_congr (assigning_apply .null hvalue))).trans ?_
        rw [inBlock_overwriting _ hvalue]
        refine performing_congr (overwriting_congr hvalue ?_)
        rw [overwrite_nullable, hbit]
      | false =>
        refine (inBlock_congr (congrFun (performing_unit _) machine)).trans ?_
        rw [inBlock_overwriting _ hvalue]
        refine performing_congr (overwriting_congr hvalue ?_)
        rw [overwrite_nullable, hbit]

end Dialect.Sound

end Wireform.Source
