import Wireform.Proofs.Bodies
import Wireform.Proofs.Reading

/-!
# What the functions of programs do

The functions of a codec other than those that write and read over: the constant of the fixed size, the
function that measures, and the two ways to read a new structure.  A derived codec reads the fields and
puts them together, an emitted one reads over the initial values.
-/
namespace Wireform.Source

open Derive (Token TypeExpr)

variable {scope : Scope} {fields : List Field} {values : List Value} {machine after : Machine}

/-! ## 1. Fixed sizes -/

namespace Dialect.Sound

variable {dialect : Dialect} {admits : Shape → Prop}

theorem meaning_fixedSizeOf (h : dialect.Sound admits) (himports : scope.imports = dialect.imports)
    (type : TypeExpr) (hint : Option Ty) :
    (fixedSizeOf type).meaning scope hint = some ⟨.optionalSize, pure (.optionalSize
      (if isSelfType type then scope.fixedSize
      else (scope.types.codecOf (scope.types.shapeOf type)).fixedSize))⟩ := by
  have htrait : scope.expand ["bitwire", "Encoder"] = ["bitwire", "Encoder"] :=
    h.expand himports (by decide) _
  rw [fixedSizeOf, Expr.meaning, Scope.constant?, if_pos ⟨htrait, rfl⟩]

/-- The fixed sizes of types, in an array. -/
theorem meanings_fixedSizeOf (h : dialect.Sound admits) (himports : scope.imports = dialect.imports)
    {types : List TypeExpr} (hself : ∀ type ∈ types, isSelfType type = false) (hint : Option Ty) :
    Expr.meanings scope hint (types.map fixedSizeOf) = some (types.map fun type =>
      ⟨.optionalSize,
        pure (.optionalSize (scope.types.codecOf (scope.types.shapeOf type)).fixedSize)⟩) := by
  induction types with
  | nil => exact exprs_nil
  | cons type types ih =>
    rw [List.forall_mem_cons] at hself
    have htype := h.meaning_fixedSizeOf himports type hint
    rw [hself.1, if_neg Bool.false_ne_true] at htype
    exact exprs_cons htype (ih hself.2)

theorem allRuns_sizes (sizes : List (Option Nat)) (machine : Machine) :
    allRuns Datum.optionalSize? (sizes.map fun size => pure (.optionalSize size)) machine =
      .ok sizes machine := by
  induction sizes with
  | nil => rfl
  | cons size sizes ih =>
    have hsize : Datum.optionalSize? (.optionalSize size) = some size := rfl
    rw [List.map_cons, allRuns, bind_apply, expect_apply (pure_apply _ _) hsize]
    dsimp only
    rw [bind_apply, ih]
    rfl

/-- The fixed sizes of types, put into an array. -/
theorem meaning_array_fixedSizeOf (h : dialect.Sound admits) (himports : scope.imports = dialect.imports)
    {types : List TypeExpr} (hself : ∀ type ∈ types, isSelfType type = false) :
    ∃ run, (Expr.array (types.map fixedSizeOf)).meaning scope none = some ⟨.sizes, run⟩ ∧
      ∀ machine, run machine = .ok (.sizes (types.map fun type =>
        (scope.types.codecOf (scope.types.shapeOf type)).fixedSize)) machine := by
  have hitems := h.meanings_fixedSizeOf himports hself none
  refine ⟨do
    let sizes ← allRuns Datum.optionalSize? ((types.map fun type =>
      (scope.types.codecOf (scope.types.shapeOf type)).fixedSize).map fun size =>
        pure (.optionalSize size))
    pure (.sizes sizes), ?_, fun machine => ?_⟩
  · rw [Expr.meaning, hitems]
    simp [Function.comp_def]
  · rw [bind_apply, allRuns_sizes]
    rfl

/-- **The constant of the fixed size is the sum of those of the fields.** -/
theorem fixedSize?_fixedSizesOf (h : dialect.Sound admits) (himports : scope.imports = dialect.imports)
    {types : List TypeExpr} (hself : ∀ type ∈ types, isSelfType type = false) :
    fixedSize? scope (some (fixedSizesOf types)) = some (Codec.sumFixedSizes
      (types.map fun type => (scope.types.codecOf (scope.types.shapeOf type)).fixedSize)) := by
  have hfunction : scope.function? (crateFunction ["sum_fixed_sizes"]) = some .sumSizes := by
    rw [crateFunction, Scope.function?, h.expand himports (by decide)]
    rfl
  obtain ⟨run, harray, hrun⟩ := h.meaning_array_fixedSizeOf himports hself
  have hborrow : (Expr.borrow false (.array (types.map fixedSizeOf))).meaning scope none =
      some ⟨.borrowed false .sizes, run⟩ := by
    rw [Expr.meaning, harray]
    rfl
  have hsum := meaning_call none hfunction (exprs_cons hborrow exprs_nil)
  have hsizes : Datum.sizes? (.sizes (types.map fun type =>
      (scope.types.codecOf (scope.types.shapeOf type)).fixedSize)) = some _ := rfl
  have hcall : (do
      let sizes ← expect Datum.sizes? run
      pure (.optionalSize (Codec.sumFixedSizes sizes)) : Run Datum) ⟨[], [], 0, []⟩ =
        .ok (.optionalSize (Codec.sumFixedSizes (types.map fun type =>
          (scope.types.codecOf (scope.types.shapeOf type)).fixedSize))) ⟨[], [], 0, []⟩ := by
    rw [bind_apply, expect_apply (hrun _) hsizes]
    rfl
  rw [fixedSize?, fixedSizesOf, hsum, Scope.apply]
  dsimp only [Option.bind_eq_bind, Option.bind_some]
  rw [hcall]

end Dialect.Sound

/-! ## 2. Measuring -/

/-- The size of a record is its fixed size, if it has one. -/
theorem size_record (fields : List FieldCodec) (values : List Value) :
    (Codec.record fields).size values =
      (fieldsFixedSize fields).getD (fieldsBitsetBytes fields + fieldsSize fields values) := by
  unfold Codec.record
  dsimp only
  cases fieldsFixedSize fields <;> rfl

/-- A fixed size is given back, if there is one. -/
theorem meaning_shortcut {expr : Expr} {size : Option Nat} (hreturns : scope.returns = .size)
    (hexpr : expr.meaning scope none = some ⟨.optionalSize, pure (.optionalSize size)⟩) :
    ∃ run, (Statement.whenSome "size" expr [.giveBack (.var "size")]).meaning scope =
        some ⟨scope, run⟩ ∧ ∀ machine, run machine = .ok (size.map .number) machine := by
  have hback : (Statement.giveBack (.var "size")).meaning (scope.withLocal "size" false .size) =
      some ⟨scope.withLocal "size" false .size, do
        let datum ← fetch (.var "size")
        pure (some datum)⟩ := by
    have hvar : (Expr.var "size").meaning (scope.withLocal "size" false .size)
        (some (scope.withLocal "size" false .size).returns) = some ⟨.size, fetch (.var "size")⟩ := rfl
    rw [Statement.meaning, hvar]
    exact if_pos hreturns.symm
  refine ⟨_, meaning_whenSome hexpr rfl (meanings_cons hback []), fun machine => ?_⟩
  have hnull : Datum.behindNull? (.optionalSize size) = some (size.map .number) := rfl
  unfold whenPresent
  rw [bind_apply, expect_apply (pure_apply _ _) hnull]
  cases size with
  | none => rfl
  | some n =>
    have hfetch : fetch (.var "size") (machine.withLocal "size" (.number n)) =
        .ok (.number n) (machine.withLocal "size" (.number n)) := fetch_var rfl
    have hback : (do let datum ← fetch (.var "size"); pure (some datum) : Run (Option Datum))
        (machine.withLocal "size" (.number n)) =
          .ok (some (.number n)) (machine.withLocal "size" (.number n)) := by
      rw [bind_apply, hfetch]
      rfl
    refine (inBlock_apply _ _ _ _).trans ?_
    refine (congrArg (leaving machine.locals.length) (andThen_some hback (pure none))).trans ?_
    exact congrArg (EStateM.Result.ok _) (leave_withLocal _ machine)

/-- Statements that sum up the sizes of the fields, on top of a number of bytes. -/
theorem meanings_counting {dialect : Dialect} {admits : Shape → Prop} (h : dialect.Sound admits)
    (himports : scope.imports = dialect.imports) (hself : scope.receiver.isSome = true)
    (hplaced : Placed scope 0 fields) {first : Statement} {bytes : Nat}
    (hfirst : first.meaning scope = some ⟨scope.withLocal "size" true .size,
      performing (bindLocal "size" (.number bytes))⟩) :
    ∃ effect, Statement.meanings scope
        (first :: (fields.map Field.toMember).flatMap dialect.sizeStatements) =
          some ⟨scope.withLocal "size" true .size, effect⟩ ∧
      ∀ values, List.Forall₂ Field.Takes fields values → ∀ machine, machine.self = values →
        effect machine = .ok none (machine.withLocal "size"
          (.number (bytes + fieldsSize (codecsOf scope.types fields) values))) := by
  have hplaced' : Placed (scope.withLocal "size" true .size) 0 fields := hplaced.of_members rfl
  have hsizes (values : List Value) (htakes : List.Forall₂ Field.Takes fields values) :=
    h.does_sizingAll (show (scope.withLocal "size" true .size).imports = _ from himports) hself rfl
      hplaced' htakes
  obtain ⟨effect, hmeaning, heffect⟩ := Does.uniform (exists_takes fields) hsizes
  have hstatements := meanings_cons hfirst
    ((fields.map Field.toMember).flatMap dialect.sizeStatements)
  rw [hmeaning] at hstatements
  refine ⟨_, hstatements, fun values htakes machine hvalues => ?_⟩
  have hcounts : Counts (machine.withLocal "size" (.number bytes)) bytes := rfl
  have hsum := heffect values htakes (machine.withLocal "size" (.number bytes))
    ⟨hvalues, bytes, hcounts⟩
  have hbind : bindLocal "size" (.number bytes) machine =
      .ok () (machine.withLocal "size" (.number bytes)) := rfl
  refine (andThen_none (performing_ok hbind) effect).trans (hsum.trans ?_)
  rw [performing_ok (adding_apply _ hcounts)]
  rfl

/-- A function that sums up the sizes of the fields, on top of a number of bytes. -/
theorem meaning_counting {dialect : Dialect} {admits : Shape → Prop} (h : dialect.Sound admits)
    (himports : scope.imports = dialect.imports) (hself : scope.receiver.isSome = true)
    (hreturns : scope.returns = .size) (hplaced : Placed scope 0 fields) {first : Statement}
    {bytes : Nat}
    (hfirst : first.meaning scope = some ⟨scope.withLocal "size" true .size,
      performing (bindLocal "size" (.number bytes))⟩) :
    ∃ run, Body.meaning scope ⟨first :: (fields.map Field.toMember).flatMap dialect.sizeStatements,
        .var "size"⟩ = some run ∧
      ∀ values, List.Forall₂ Field.Takes fields values →
        run.toSize values =
          bytes + fieldsSize (codecsOf scope.types fields) values := by
  obtain ⟨effect, hmeaning, heffect⟩ := meanings_counting h himports hself hplaced hfirst
  have hvar : (Expr.var "size").meaning (scope.withLocal "size" true .size) (some scope.returns) =
      some ⟨scope.returns, fetch (.var "size")⟩ := by
    rw [hreturns]
    rfl
  refine ⟨_, meaning_body hmeaning hvar, fun values htakes => ?_⟩
  have hrun := behind_none (heffect values htakes ⟨values, [], 0, []⟩ rfl) (fetch (.var "size"))
  rw [Run.toSize, hrun, fetch_var rfl]

/-- A fixed size comes before a size that is found in another way. -/
theorem meaning_behindShortcut {statements : List Statement} {result expr : Expr} {run : Run Datum}
    {size : Option Nat} (hreturns : scope.returns = .size)
    (hexpr : expr.meaning scope none = some ⟨.optionalSize, pure (.optionalSize size)⟩)
    (hbody : Body.meaning scope ⟨statements, result⟩ = some run) :
    ∃ run', Body.meaning scope
        ⟨.whenSome "size" expr [.giveBack (.var "size")] :: statements, result⟩ = some run' ∧
      ∀ values, run'.toSize values = size.getD (run.toSize values) := by
  obtain ⟨scope', effect, found, hstatements, hresult, rfl⟩ := exists_of_meaning hbody
  obtain ⟨shortcut, hshortcut, hrun⟩ := meaning_shortcut hreturns hexpr
  have hall := meanings_cons hshortcut statements
  rw [hstatements] at hall
  refine ⟨_, meaning_body hall hresult, fun values => ?_⟩
  unfold Run.toSize
  cases size with
  | none =>
    have hskipped : behind (andThen shortcut effect) found ⟨values, [], 0, []⟩ =
        behind effect found ⟨values, [], 0, []⟩ := by
      unfold behind
      rw [bind_apply, bind_apply, andThen_none (hrun _)]
    rw [hskipped]
    rfl
  | some n => rw [behind_some (andThen_some (hrun _) effect)]; rfl

/-- The sizes of fields that are all written, as the terms of a sum. -/
theorem meanings_sizes {dialect : Dialect} {admits : Shape → Prop} (h : dialect.Sound admits)
    (himports : scope.imports = dialect.imports) (hself : scope.receiver.isSome = true) {start : Nat}
    (hplaced : Placed scope start fields) (halways : ∀ field ∈ fields, field.presence = .always) :
    ∃ typed, Expr.meanings scope (some .size)
        ((fields.map Field.toMember).map fun member => dialect.size (.member member.token)) =
          some typed ∧ (∀ term ∈ typed, term.ty = .size) ∧
      ∀ values machine, fields.length = values.length → HoldsFrom start values machine →
        sumRuns (typed.map Typed.run) machine =
          .ok (fieldsSize (codecsOf scope.types fields) values) machine := by
  induction fields generalizing start with
  | nil =>
    refine ⟨[], exprs_nil, List.forall_mem_nil _, fun values machine hlength _ => ?_⟩
    cases values with
    | nil => rfl
    | cons value values => cases hlength
  | cons field fields ih =>
    rw [List.forall_mem_cons] at halways
    obtain ⟨typed, hmeaning, hsizes, hrun⟩ := ih hplaced.2 halways.2
    have htype : field.type = field.shape := by
      unfold Field.type
      rw [halways.1]
    have hmember := hplaced.1
    rw [htype] at hmember
    have hfirst := h.size himports (.member hself hmember) (some .size)
    refine ⟨_ :: typed, exprs_cons hfirst hmeaning, List.forall_mem_cons.mpr ⟨rfl, hsizes⟩, ?_⟩
    intro values machine hlength hvalues
    cases values with
    | nil => cases hlength
    | cons value values =>
      have hsize := measuring_apply (scope.types.codecOf field.shape) (fetch_member hvalues.head)
      have hnumber : Datum.number?
          (.number ((scope.types.codecOf field.shape).size value)) = some _ := rfl
      have hcodec : (field.codec scope.types).size value =
          (scope.types.codecOf field.shape).size value := by
        unfold FieldCodec.size Field.codec
        rw [halways.1]
      rw [List.map_cons, sumRuns, bind_apply, expect_apply hsize hnumber]
      dsimp only
      rw [bind_apply, hrun values machine (Nat.succ.inj hlength) hvalues.tail, ← hcodec]
      rfl

/-- **A sum of the sizes of fields that are all written measures them.** -/
theorem meaning_sum {dialect : Dialect} {admits : Shape → Prop} (h : dialect.Sound admits)
    (himports : scope.imports = dialect.imports) (hself : scope.receiver.isSome = true)
    (hreturns : scope.returns = .size) (hplaced : Placed scope 0 fields)
    (halways : ∀ field ∈ fields, field.presence = .always) :
    ∃ run, Body.meaning scope ⟨[], dialect.sizes (fields.map Field.toMember)⟩ = some run ∧
      ∀ values, fields.length = values.length →
        run.toSize values = fieldsSize (codecsOf scope.types fields) values := by
  obtain ⟨typed, hmeaning, hsizes, hrun⟩ := meanings_sizes h himports hself hplaced halways
  unfold Dialect.sizes
  cases fields with
  | nil =>
    have hzero : (Expr.number 0 "").meaning scope (some scope.returns) =
        some ⟨scope.returns, pure (.number 0)⟩ := by
      rw [hreturns]
      rfl
    refine ⟨_, meaning_body (meanings_nil scope) hzero, fun values hlength => ?_⟩
    rfl
  | cons field fields =>
    have hsum : (Expr.sum (((field :: fields).map Field.toMember).map fun member =>
        dialect.size (.member member.token))).meaning scope (some scope.returns) =
          some ⟨scope.returns, do
            let total ← sumRuns (typed.map Typed.run)
            pure (.number total)⟩ := by
      rw [Expr.meaning, hmeaning, hreturns]
      exact if_pos (List.all_eq_true.mpr fun term hterm => decide_eq_true (hsizes term hterm))
    refine ⟨_, meaning_body (meanings_nil scope) hsum, fun values hlength => ?_⟩
    have htotal := hrun values ⟨values, [], 0, []⟩ hlength rfl
    rw [Run.toSize, behind_none (pure_apply none _), bind_apply, htotal]
    rfl

/-! ## 3. Reading a new structure -/

theorem reading_bind {α β : Type} (first : Reader α) (next : α → Reader β) :
    reading (first >>= next) = (do let found ← reading first; reading (next found)) := by
  funext machine
  rw [bind_apply]
  unfold reading
  rw [Reader.bind_apply]
  cases first machine.buffer machine.cursor <;> rfl

theorem reading_keeps {α : Type} {reader : Reader α} {found : α}
    (h : reading reader machine = .ok found after) : after.locals = machine.locals := by
  unfold reading at h
  split at h
  · cases h
    rfl
  · cases h

theorem expect_reading {reader : Reader Value} {run : Run Datum}
    (h : run machine = (do let value ← reading reader; pure (.value value) : Run Datum) machine) :
    expect Datum.value? run machine = reading reader machine := by
  unfold expect
  rw [bind_apply, h, bind_apply]
  cases reading reader machine <;> rfl

/-- The test of a bit is a read. -/
theorem choosing_testingNull {bytes : Nat} (slot : Nat) {set : NullBitset bytes} {α : Type}
    (hset : HasBitset machine bytes set) (yes no : Run α) :
    choosing (testingNull (fetch (.var "bitset")) (pure (.number slot))) yes no machine =
      (do if ← reading (set.test slot) then yes else no : Run α) machine := by
  have htest := testingNull_apply slot hset
  rw [bind_apply, reading, NullBitset.test]
  cases hbit : set.isNull? slot with
  | none =>
    rw [hbit] at htest
    exact choosing_failed htest
  | some isNull =>
    rw [hbit] at htest
    refine (choosing_apply htest).trans ?_
    cases isNull <;> rfl

/-- An expression reads a field behind a bitset of some bytes. -/
def ReadsField (scope : Scope) (bytes : Nat) (expr : Expr) (field : Field) : Prop :=
  ∃ run, expr.meaning scope (some (.value field.type)) = some ⟨.value field.type, run⟩ ∧
    ∀ (set : NullBitset bytes) machine, (field.isNullable → HasBitset machine bytes set) →
      run machine =
        (do let value ← reading ((field.codec scope.types).read set); pure (.value value) : Run Datum)
          machine

/-- The values of a new structure are read one after the other. -/
theorem meaningsAs_fields {bytes : Nat} {exprs : List Expr}
    (h : List.Forall₂ (ReadsField scope bytes) exprs fields) :
    ∃ typed, Expr.meaningsAs scope (fields.map fun field => .value field.type) exprs = some typed ∧
      ∀ (set : NullBitset bytes) machine,
        ((∃ field ∈ fields, field.isNullable) → HasBitset machine bytes set) →
          allRuns Datum.value? (typed.map Typed.run) machine =
            reading (readFields set (codecsOf scope.types fields)) machine := by
  induction h with
  | nil =>
    refine ⟨[], ?_, fun _ _ _ => rfl⟩
    rw [List.map_nil, Expr.meaningsAs]
  | @cons expr field exprs fields hexpr hrest ih =>
    obtain ⟨run, hmeaning, hrun⟩ := hexpr
    obtain ⟨typed, hmeanings, hruns⟩ := ih
    refine ⟨⟨.value field.type, run⟩ :: typed, ?_, fun set machine hset => ?_⟩
    · rw [List.map_cons, Expr.meaningsAs, hmeaning, hmeanings]
      exact if_pos rfl
    · have hfirst := hrun set machine fun hnullable => hset ⟨field, List.mem_cons_self, hnullable⟩
      have hfields : readFields set (codecsOf scope.types (field :: fields)) = (do
        let value ← (field.codec scope.types).read set
        let values ← readFields set (codecsOf scope.types fields)
        pure (value :: values)) := rfl
      rw [hfields, reading_bind, List.map_cons, allRuns, bind_apply, bind_apply,
        expect_reading hfirst]
      cases hvalue : reading ((field.codec scope.types).read set) machine with
      | error failure after => rfl
      | ok value after =>
        have hafter : (∃ field ∈ fields, field.isNullable) → HasBitset after bytes set := by
          rintro ⟨other, hother, hnullable⟩
          unfold HasBitset
          rw [reading_keeps hvalue]
          exact hset ⟨other, List.mem_cons_of_mem _ hother, hnullable⟩
        dsimp only
        rw [reading_bind, bind_apply, bind_apply, hruns set after hafter]
        cases reading (readFields set (codecsOf scope.types fields)) after <;> rfl

/-- The fields are read and put together. -/
theorem meaning_construct {dialect : Dialect} {admits : Shape → Prop} (h : dialect.Sound admits)
    (himports : scope.imports = dialect.imports) (hreturns : scope.returns = .result .self)
    (hmembers : scope.members = fields.map fun field => (field.token, field.type)) {bytes : Nat}
    {exprs : List Expr} (hexprs : List.Forall₂ (ReadsField scope bytes) exprs fields) (style : Style) :
    ∃ run, (success (.construct style (fields.map fun field => field.token) exprs)).meaning scope
        (some scope.returns) = some ⟨scope.returns, run⟩ ∧
      ∀ (set : NullBitset bytes) machine,
        ((∃ field ∈ fields, field.isNullable) → HasBitset machine bytes set) → run machine =
          (do let values ← reading (readFields set (codecsOf scope.types fields))
              pure (.self values) : Run Datum) machine := by
  obtain ⟨typed, hmeaning, hrun⟩ := meaningsAs_fields hexprs
  have htypes : (scope.members.map fun member => Ty.value member.2) =
      fields.map fun field => .value field.type := by
    rw [hmembers, List.map_map]
    rfl
  have htokens : (fields.map fun field => field.token) = scope.members.map Prod.fst := by
    rw [hmembers, List.map_map]
    rfl
  have hconstruct : (Expr.construct style (fields.map fun field => field.token) exprs).meaning scope
      (some .self) = some ⟨.self, do
        let values ← allRuns Datum.value? (typed.map Typed.run)
        pure (.self values)⟩ := by
    rw [Expr.meaning, htypes, hmeaning]
    exact if_pos htokens
  rw [hreturns]
  exact ⟨_, h.meaning_success himports hconstruct, fun set machine hset =>
    bind_congr_left (hrun set machine hset) _⟩

/-- The run reads a structure, whatever variables there are. -/
theorem toReader_eq {run : Run Datum} {reader : Reader (List Value)} {buffer : Buffer}
    {cursor cursor' : Nat} {locals : List (String × Datum)}
    (h : run ⟨[], buffer, cursor, []⟩ =
      (do let values ← reading reader; pure (.self values) : Run Datum)
        ⟨[], buffer, cursor', locals⟩) :
    run.toReader buffer cursor = reader buffer cursor' := by
  unfold Run.toReader
  rw [h, bind_apply]
  unfold reading
  cases hread : reader buffer cursor' <;> rfl

/-- What is in scope behind the bitset, if it has bytes. -/
def Scope.behindBitset (scope : Scope) (bytes : Nat) : Scope :=
  if bytes = 0 then scope else scope.withLocal "bitset" false (.bitset bytes)

/-- **A body that reads the bitset and the fields reads their record.** -/
theorem meaning_reading {dialect : Dialect} {admits : Shape → Prop} (h : dialect.Sound admits)
    (himports : scope.imports = dialect.imports) (htransfers : scope.Transfers false)
    (hreturns : scope.returns = .result .self)
    (hmembers : scope.members = fields.map fun field => (field.token, field.type)) {bytes : Nat}
    (hbytes : fieldsBitsetBytes (codecsOf scope.types fields) = bytes) {exprs : List Expr}
    (hexprs : List.Forall₂ (ReadsField (scope.behindBitset bytes) bytes) exprs fields)
    (style : Style) :
    ∃ run, Body.meaning scope ⟨dialect.bitsetReading bytes,
        success (.construct style (fields.map fun field => field.token) exprs)⟩ = some run ∧
      run.toReader = (Codec.record (codecsOf scope.types fields)).read := by
  have hrecord : (Codec.record (codecsOf scope.types fields)).read = (do
      let set ← (NullBitset.read : Reader (NullBitset (fieldsBitsetBytes
        (codecsOf scope.types fields))))
      readFields set (codecsOf scope.types fields)) := rfl
  subst hbytes
  rw [hrecord]
  unfold Scope.behindBitset at hexprs
  by_cases hzero : fieldsBitsetBytes (codecsOf scope.types fields) = 0
  · rw [if_pos hzero] at hexprs
    have hread : (NullBitset.read : Reader (NullBitset (fieldsBitsetBytes
        (codecsOf scope.types fields)))) = pure .empty := if_pos hzero
    obtain ⟨run, hmeaning, hrun⟩ := meaning_construct h himports hreturns hmembers hexprs style
    have hnothing : Statement.meanings scope
        (dialect.bitsetReading (fieldsBitsetBytes (codecsOf scope.types fields))) =
          some ⟨scope, pure none⟩ := by
      rw [Dialect.bitsetReading, if_pos hzero, meanings_nil]
    refine ⟨_, meaning_body hnothing hmeaning, ?_⟩
    funext buffer cursor
    have hfields := hrun .empty ⟨[], buffer, cursor, []⟩ (by
      rintro ⟨field, hfield, hnullable⟩
      exact absurd hnullable (not_isNullable_of_zero hzero field hfield))
    rw [toReader_eq ((behind_none (pure_apply none _) run).trans hfields), hread, pure_bind]
  · rw [if_neg hzero] at hexprs
    obtain ⟨run, hmeaning, hrun⟩ := meaning_construct h
      (show (scope.withLocal "bitset" false _).imports = _ from himports) hreturns hmembers hexprs
      style
    have hstatements := meanings_cons (h.meaning_bitsetReading himports htransfers
      (fieldsBitsetBytes (codecsOf scope.types fields))) []
    unfold Dialect.bitsetReading
    rw [if_neg hzero]
    refine ⟨_, meaning_body hstatements hmeaning, ?_⟩
    funext buffer cursor
    have hbits := readingBitset_apply (fieldsBitsetBytes (codecsOf scope.types fields))
      ⟨[], buffer, cursor, []⟩
    rw [Reader.bind_apply]
    cases hread : (NullBitset.read : Reader (NullBitset (fieldsBitsetBytes
        (codecsOf scope.types fields)))) buffer cursor with
    | error failure cursor' =>
      rw [hread] at hbits
      rw [Run.toReader, behind_andThen_error hbits]
    | ok set cursor' =>
      rw [hread] at hbits
      have hset : HasBitset ⟨[], buffer, cursor', [("bitset", .bitset _ set)]⟩ _ set := rfl
      have hfields := (behind_none (pure_apply none _) run).trans (hrun set _ fun _ => hset)
      exact toReader_eq ((behind_andThen_ok hbits _ _).trans hfields)

/-- **A body that reads over the initial values.** -/
theorem meaning_readingOver {dialect : Dialect} {admits : Shape → Prop} (h : dialect.Sound admits)
    (himports : scope.imports = dialect.imports) (htransfers : scope.Transfers false)
    (hreturns : scope.returns = .result .self) (hdefault : "Default" ∈ scope.derives)
    (htrait : scope.hasTrait "Decoder" = true) {overwrite : Overwriter (List Value)}
    (hoverwrite : scope.overwrite = some overwrite) :
    ∃ run, Body.meaning scope
        ⟨[.bind true "value" none (.call (.plain false ["Self", "default"]) []),
          .perform (.attempt (.method (.var "value") "deserialize_in_place" buffers))],
          success (.var "value")⟩ = some run ∧
      run.toReader = fun buffer cursor =>
        (overwrite (scope.members.map fun member => scope.types.initialOf member.2) buffer
          cursor).toResult := by
  have hfunction : scope.function? (.plain false ["Self", "default"]) = some .selfInitial := by
    rw [Scope.function?, h.expand himports (by decide)]
    rfl
  have hinitial : (Expr.call (.plain false ["Self", "default"]) []).meaning scope none =
      some ⟨.self, pure (.self (scope.members.map fun member => scope.types.initialOf member.2))⟩ :=
    (meaning_call none hfunction exprs_nil).trans (if_pos hdefault)
  have hbind : (Statement.bind true "value" none (.call (.plain false ["Self", "default"]) [])).meaning
      scope = some ⟨scope.withLocal "value" true .self, performing
        (bindLocal "value" (.self (scope.members.map fun member => scope.types.initialOf member.2)))⟩ := by
    rw [Statement.meaning, Option.bind_none, hinitial]
    rfl
  have hvar (hint : Option Ty) : (Expr.var "value").meaning (scope.withLocal "value" true .self) hint =
      some ⟨.self, fetch (.var "value")⟩ := rfl
  have hinner : (scope.withLocal "value" true .self).Transfers false :=
    ⟨htransfers.buffer, htransfers.cursor, htransfers.fails⟩
  have hcall (hint : Option Ty) : (Expr.method (.var "value") "deserialize_in_place" buffers).meaning
      (scope.withLocal "value" true .self) hint = some ⟨.result .unit, do
        overwriting Datum.selfCase overwrite (.var "value")
        pure .unit⟩ := by
    have hinvoke := meaning_method hint (hvar none)
      (show methods.lookup "deserialize_in_place" = some .overwrite from rfl)
      (meanings_buffers hinner (some .slot))
    have hplace : ((Expr.var "value").place? (scope.withLocal "value" true .self)).map Prod.snd =
        some (.var "value") := rfl
    have hsame : (scope.withLocal "value" true .self).overwrite = some overwrite := hoverwrite
    have htrait' : (scope.withLocal "value" true .self).hasTrait "Decoder" = true := htrait
    rw [hinvoke, hplace]
    unfold Scope.invoke
    simp only [Ty.target, hsame, htrait', if_pos]
  have hstatements := meanings_cons hbind
    [.perform (.attempt (.method (.var "value") "deserialize_in_place" buffers))]
  rw [meanings_cons (meaning_perform (meaning_attempt hinner.fails hcall none)) []] at hstatements
  have hresult := h.meaning_success (show (scope.withLocal "value" true .self).imports = _ from himports)
    (hvar (some .self))
  rw [← hreturns] at hresult
  refine ⟨_, meaning_body hstatements hresult, ?_⟩
  funext buffer cursor
  generalize (scope.members.map fun member => scope.types.initialOf member.2) = initials
  have hbound : bindLocal "value" (.self initials) ⟨[], buffer, cursor, []⟩ =
      .ok () ⟨[], buffer, cursor, [("value", .self initials)]⟩ := rfl
  have hat : ((Machine.mk [] buffer cursor [("value", .self initials)]).at? (.var "value")).bind
      Datum.selfCase.get? = some initials := rfl
  have hall (rest : Run (Option Datum)) (result : Run Datum) := behind_andThen_ok hbound
    (andThen (performing (do overwriting Datum.selfCase overwrite (.var "value"); pure Datum.unit))
      rest)
    result
  unfold Run.toReader
  dsimp only [Option.map, Statement.meanings]
  rw [hall, performing_unit]
  have hover := overwriting_of_at overwrite hat
  dsimp only at hover
  cases hresult : overwrite initials buffer cursor with
  | mk target cursor' outcome =>
    rw [hresult] at hover
    cases outcome with
    | ok _ =>
      rw [behind_andThen_ok hover, behind_none (pure_apply none _), fetch_var rfl]
      rfl
    | error failure =>
      rw [behind_andThen_error hover]
      rfl

/-! ## 4. Codecs of one structure -/

/-- What a function sees that transfers a structure. -/
theorem transfers_inFunction (scope : Scope) (receiver : Option Bool) (isWritable : Bool)
    (returns : Ty) : (scope.inFunction receiver isWritable returns).Transfers isWritable :=
  ⟨rfl, rfl, returns, rfl⟩

/-- A touch of the parameters does nothing to them. -/
theorem meaning_touch {isWritable : Bool} (h : scope.Transfers isWritable)
    (statements : List Statement) (result : Expr) :
    Body.meaning scope ⟨.touch true "buf" "cursor" :: statements, result⟩ =
      Body.meaning scope ⟨statements, result⟩ := by
  have htouch : (Statement.touch true "buf" "cursor").meaning scope = some ⟨scope, pure none⟩ := by
    rw [Statement.meaning, h.buffer, h.cursor]
    simp
  have hpure : ∀ run, andThen (pure none) run = run := fun _ => rfl
  rw [Body.meaning, Body.meaning, meanings_cons htouch]
  cases Statement.meanings scope statements <;> rfl

/-- A program is compiled, if its members have different names and its parts have meanings. -/
theorem codec?_eq_some {program : Program} {types : Types} {fixedSize : Option Nat}
    {size write overwrite read : Run Datum} (hnodup : (program.members.map Prod.fst).Nodup)
    (hfixedSize : fixedSize? (program.scope types) program.encoder.fixedSize = some fixedSize)
    (hsize : Body.meaning { program.scope types with
      receiver := some false, returns := .size, fixedSize := fixedSize } program.encoder.size =
        some size)
    (hwrite : Body.meaning ((program.scope types).inFunction (some false) true .unit)
      program.encoder.serialize = some write)
    (hoverwrite : Body.meaning ((program.scope types).inFunction (some true) false .unit)
      program.decoder.overwrite = some overwrite)
    (hread : Body.meaning { (program.scope types).inFunction none false .self with
      overwrite := some overwrite.toOverwriter } program.decoder.deserialize = some read) :
    program.codec? types = some
      { fixedSize := fixedSize
        size := size.toSize
        write := write.toWriter
        read := read.toReader
        overwrite := overwrite.toOverwriter
        nullable := .marker size.toSize write.toWriter read.toReader } := by
  unfold Program.codec?
  simp only [if_pos hnodup, hfixedSize, hsize, hwrite, hoverwrite, hread, Option.bind_eq_bind,
    Option.bind_some]

/-- Two codecs do the same with structures of these fields. -/
structure AgreeOn (fields : List Field) (codec codec' : Codec (List Value)) : Prop where
  fixedSize : codec.fixedSize = codec'.fixedSize
  size : ∀ values, List.Forall₂ Field.Takes fields values → codec.size values = codec'.size values
  write : ∀ values, List.Forall₂ Field.Takes fields values →
    codec.write values = codec'.write values
  read : codec.read = codec'.read
  overwrite : ∀ target, fields.length = target.length →
    codec.overwrite target = codec'.overwrite target

end Wireform.Source
