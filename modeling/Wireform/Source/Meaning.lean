import Wireform.Catalogue
import Wireform.Source.Syntax

/-!
# What codecs in source text do

Source text has a meaning if a compiler takes it: names are in scope, members are there, places that
are changed may be changed, and types agree.  Its meaning is then what it does to a machine, which
holds the fields of `self`, the buffer, the cursor and the variables.

The types of fields and the codecs of these types are given (`Types`).  A call through a trait is one
to the codec of the type, and so is a call of a method, if the trait is in scope and the type has no
method of its own of that name, which would come first (`Shape.hasOwn`).  A result of a call is
either handed on by a question mark or the result of the function itself, so that a call that fails
ends the run.
-/
namespace Wireform.Source

open Derive (Token TypeExpr)

/-! ## 1. Data -/

/-- What can be borrowed to be changed. -/
inductive Place where
  | member (index : Nat)
  | var (name : String)
  deriving DecidableEq, Repr

/-- What an expression evaluates to. -/
inductive Datum where
  | unit
  | number (n : Nat)
  | truth (isTrue : Bool)
  | optionalSize (size : Option Nat)
  | sizes (sizes : List (Option Nat))
  | value (value : Value)
  | bitset (bytes : Nat) (set : NullBitset bytes)
  | self (values : List Value)
  | place (place : Place)

namespace Datum

/-- The number, if it is one. -/
def number? : Datum → Option Nat
  | .number n => some n
  | _ => none

/-- The truth value, if it is one. -/
def truth? : Datum → Option Bool
  | .truth found => some found
  | _ => none

/-- The optional size, if it is one. -/
def optionalSize? : Datum → Option (Option Nat)
  | .optionalSize found => some found
  | _ => none

/-- The sizes, if it is an array of them. -/
def sizes? : Datum → Option (List (Option Nat))
  | .sizes found => some found
  | _ => none

/-- The value of a field's type, if it is one. -/
def value? : Datum → Option Value
  | .value found => some found
  | _ => none

/-- The bitset, if it is one. -/
def bitset? : Datum → Option SomeBitset
  | .bitset bytes set => some ⟨bytes, set⟩
  | _ => none

/-- The place, if it is one. -/
def place? : Datum → Option Place
  | .place found => some found
  | _ => none

/-- What is behind the null; nothing, if it is no optional datum. -/
def behindNull? : Datum → Option (Option Datum)
  | .optionalSize size => some (size.map .number)
  | .value (.present inner) => some (some (.value inner))
  | .value .null => some none
  | _ => none

/-- Values of fields' types. -/
def valueCase : Case Value Datum where
  wrap := .value
  get? := value?
  get?_wrap _ := rfl
  wrap_of_get? {b a} h := by cases b <;> cases h; rfl

/-- Structures. -/
def selfCase : Case (List Value) Datum where
  wrap := .self
  get?
    | .self values => some values
    | _ => none
  get?_wrap _ := rfl
  wrap_of_get? {b a} h := by cases b <;> cases h; rfl

end Datum

/-! ## 2. The machine -/

/-- The state of a run; the variable that was bound last is the first. -/
structure Machine where
  self : List Value
  buffer : Buffer
  cursor : Nat
  locals : List (String × Datum)

/-- A computation on the machine. -/
abbrev Run := EStateM Failure Machine

/-- Gives a variable another datum. -/
def putLocal (name : String) (datum : Datum) : List (String × Datum) → List (String × Datum)
  | [] => []
  | (other, old) :: rest =>
    if other = name then (name, datum) :: rest else (other, old) :: putLocal name datum rest

namespace Machine

/-- What is in a place. -/
def at? (machine : Machine) : Place → Option Datum
  | .member index => machine.self[index]?.map .value
  | .var name => machine.locals.lookup name

/-- Puts a datum in a place; what is in a member is a value. -/
def put (machine : Machine) : Place → Datum → Machine
  | .member index, .value value => { machine with self := machine.self.set index value }
  | .member _, _ => machine
  | .var name, datum => { machine with locals := putLocal name datum machine.locals }

/-- The machine with one more variable. -/
def withLocal (machine : Machine) (name : String) (datum : Datum) : Machine :=
  { machine with locals := (name, datum) :: machine.locals }

/-- Forgets the variables but for those that were there first. -/
def leave (machine : Machine) (count : Nat) : Machine :=
  { machine with locals := machine.locals.drop (machine.locals.length - count) }

end Machine

variable {α : Type}

/-- The datum of a run as one of a certain sort. -/
def expect (sort? : Datum → Option α) (run : Run Datum) : Run α := do
  match sort? (← run) with
  | some found => pure found
  | none => throw .mismatch

/-- What is in a place. -/
def fetch (place : Place) : Run Datum := fun machine =>
  match machine.at? place with
  | some datum => .ok datum machine
  | none => .error .mismatch machine

/-- Puts a datum in a place. -/
def store (place : Place) (datum : Datum) : Run Unit := modify fun machine => machine.put place datum

/-- Binds a variable. -/
def bindLocal (name : String) (datum : Datum) : Run Unit :=
  modify fun machine => machine.withLocal name datum

/-- The end of a run, with the variables forgotten but for those that were there first. -/
def leaving (count : Nat) : EStateM.Result Failure Machine α → EStateM.Result Failure Machine α
  | .ok found after => .ok found (after.leave count)
  | .error failure after => .error failure (after.leave count)

/-- The variables that are bound in a block are forgotten at its end. -/
def inBlock (run : Run α) : Run α := fun machine => leaving machine.locals.length (run machine)

/-- Writes at the cursor. -/
def writing (writer : Writer) : Run Unit := fun machine =>
  match writer ⟨machine.buffer, machine.cursor⟩ with
  | .ok _ out => .ok () { machine with buffer := out.buffer, cursor := out.cursor }
  | .error failure out =>
    .error failure { machine with buffer := out.buffer, cursor := out.cursor }

/-- Reads at the cursor. -/
def reading (reader : Reader α) : Run α := fun machine =>
  match reader machine.buffer machine.cursor with
  | .ok found cursor => .ok found { machine with cursor := cursor }
  | .error failure cursor => .error failure { machine with cursor := cursor }

/-- Reads over what is in a place. -/
def overwriting (case : Case α Datum) (overwriter : Overwriter α) (place : Place) : Run Unit :=
  fun machine =>
    match (machine.at? place).bind case.get? with
    | some target =>
      let result := overwriter target machine.buffer machine.cursor
      let after := { machine with cursor := result.cursor }.put place (case.wrap result.target)
      match result.outcome with
      | .ok _ => .ok () after
      | .error failure => .error failure after
    | none => .error .mismatch machine

/-- Measures a value. -/
def measuring (codec : Codec Value) (run : Run Datum) : Run Datum := do
  let value ← expect Datum.value? run
  pure (.number (codec.size value))

/-- Writes a value. -/
def writingValue (codec : Codec Value) (run : Run Datum) : Run Datum := do
  let value ← expect Datum.value? run
  writing (codec.write value)
  pure .unit

/-- Reads over a value in a place. -/
def overwritingValue (overwriter : Overwriter Value) (place : Place) : Run Datum := do
  overwriting Datum.valueCase overwriter place
  pure .unit

/-- Reads over an optional value that is known to be present. -/
def presentOverwriter (codec : Codec Value) : Overwriter Value :=
  Overwriter.lift codec.overwritePresent Value.optionCase
    (do let inner ← codec.read; pure (some inner))

/-- Gives the bit of a slot in a bitset. -/
def markingNull (bitset slot isNull : Run Datum) (place : Place) : Run Datum := do
  let bitset ← expect Datum.bitset? bitset
  let slot ← expect Datum.number? slot
  let isNull ← expect Datum.truth? isNull
  match bitset.set.set? slot isNull with
  | some set => store place (.bitset bitset.bytes set)
  | none => throw .outOfBounds
  pure .unit

/-- Whether the bit of a slot is set. -/
def testingNull (bitset slot : Run Datum) : Run Datum := do
  let bitset ← expect Datum.bitset? bitset
  let slot ← expect Datum.number? slot
  let isNull ← reading (bitset.set.test slot)
  pure (.truth isNull)

/-- Adds to a variable. -/
def increasing (name : String) (run : Run Datum) : Run Unit := do
  let n ← expect Datum.number? run
  let total ← expect Datum.number? (fetch (.var name))
  store (.var name) (.number (total + n))

/-- A run whose datum is not used. -/
def performing (run : Run α) : Run (Option Datum) := do
  let _ ← run
  pure none

/-- One of two runs. -/
def choosing (test : Run Datum) (yes no : Run α) : Run α := do
  if ← expect Datum.truth? test then yes else no

/-- A run with what is behind the null in a variable, if there is something. -/
def whenPresent (name : String) (of : Run Datum) (inner : Run (Option α)) : Run (Option α) := do
  match ← expect Datum.behindNull? of with
  | some datum => inBlock do
      bindLocal name datum
      inner
  | none => pure none

/-! ## 3. Types -/

/-- The type of an expression. -/
inductive Ty where
  | unit
  /-- A size or a count. -/
  | size
  /-- The number of a slot. -/
  | slot
  | truth
  | optionalSize
  | sizes
  /-- A type that has a codec. -/
  | value (shape : Shape)
  | bitset (bytes : Nat)
  /-- The structure that is implemented. -/
  | self
  | buffer (isWritable : Bool)
  | cursor
  | borrowed (isMutable : Bool) (of : Ty)
  | result (of : Ty)
  deriving DecidableEq

/-- What is behind a reference. -/
def Ty.target : Ty → Ty
  | .borrowed _ of => of
  | ty => ty

/-- Whether a value of the type is used up by its use. -/
def Ty.isMoved : Ty → Bool
  | .buffer isWritable => isWritable
  | .cursor => true
  | _ => false

/-- Whether it is a result, which may not be left lying. -/
def Ty.isResult : Ty → Bool
  | .result _ => true
  | _ => false

/-- The types that are written for variables. -/
def Ty.written? : String → Option Ty
  | "usize" => some .size
  | _ => none

/-- Whether a type has a method of its own of a name: a decimal number has `serialize`, which gives
its bytes.  The names are those of the methods of the traits; no other type has one of them. -/
def Shape.hasOwn : Shape → String → Bool
  | .leaf (.primitive .decimal), method => method == "serialize"
  | _, _ => false

/-- An expression that has a meaning: its type, and what it evaluates to. -/
structure Typed where
  ty : Ty
  run : Run Datum

/-- What the types of a program stand for. -/
structure Types where
  shapeOf : TypeExpr → Shape
  codecOf : Shape → Codec Value
  initialOf : Shape → Value

/-- The types of a catalogue, given the codecs and the initial values of its names. -/
def Types.of [DecimalForm] (shapeOf : TypeExpr → Shape) (sharing : Sharing Value)
    (initial : String → Value) (named : String → Codec Value) : Types where
  shapeOf := shapeOf
  codecOf shape := shape.codec sharing named
  initialOf shape := shape.initial initial

/-- What a piece of source text sees. -/
structure Scope where
  types : Types
  imports : List Import
  derives : List String
  members : List (Token × Shape)
  /-- Whether there is a `self`, and whether it may be changed. -/
  receiver : Option Bool
  /-- The type of what the function gives back. -/
  returns : Ty
  /-- The fixed size of the structure. -/
  fixedSize : Option Nat
  /-- The function of the structure that reads over it. -/
  overwrite : Option (Overwriter (List Value))
  /-- The variables, with their types and whether they may be changed. -/
  locals : List (String × Bool × Ty)

namespace Scope

variable (scope : Scope)

/-- The place and the type of a member. -/
def member? (token : Token) : Option (Nat × Shape) :=
  find 0 scope.members
where
  /-- The place and the type of the first member of that name, if `index` members stand in front. -/
  find (index : Nat) : List (Token × Shape) → Option (Nat × Shape)
    | [] => none
    | (other, shape) :: rest => if other = token then some (index, shape) else find (index + 1) rest

/-- The path that a name stands for, if it is imported. -/
def expand : List String → List String
  | [] => []
  | first :: rest =>
    let imported := scope.imports.findSome? fun
      | .item path => if path.getLast? = some first then some path else none
      | _ => none
    imported.getD [first] ++ rest

/-- Whether the methods of a trait are in scope. -/
def hasTrait (name : String) : Bool :=
  scope.imports.any fun
    | .traits path names => path == ["bitwire"] && names.contains name
    | _ => false

/-- The scope with one more variable. -/
def withLocal (name : String) (isMutable : Bool) (ty : Ty) : Scope :=
  { scope with locals := (name, isMutable, ty) :: scope.locals }

/-- Whether the method of a type is that of a trait. -/
def isOfTrait (shape : Shape) (method trait : String) : Bool :=
  !Shape.hasOwn shape method && scope.hasTrait trait

end Scope

/-! ## 4. Functions and methods -/

/-- The functions that codecs call. -/
inductive Function where
  | ok
  | present
  /-- The initial value of a type that is known from its place. -/
  | initial
  | selfInitial
  | sumSizes
  | size
  | write
  | overwrite
  | overwritePresent
  | read (type : TypeExpr)
  | newBitset (bytes : Nat)
  | readBitset (bytes : Nat)

/-- The functions that are called by their names alone. -/
def functions : List (List String × Function) :=
  [(["Ok"], .ok), (["Some"], .present), (["Self", "default"], .selfInitial),
    (["bitwire", "sum_fixed_sizes"], .sumSizes), (["bitwire", "Encoder", "size"], .size),
    (["bitwire", "Encoder", "serialize"], .write),
    (["bitwire", "Decoder", "deserialize_in_place"], .overwrite),
    (["bitwire", "deserialize_present_in_place"], .overwritePresent)]

/-- The function at the end of a path. -/
def Scope.function? (scope : Scope) : Path → Option Function
  | .plain true steps => if steps = ["core", "default", "Default", "default"] then some .initial
    else none
  | .plain false steps => functions.lookup (scope.expand steps)
  | .through type trait item =>
    if scope.expand trait = ["bitwire", "Decoder"] ∧ item = "deserialize" then some (.read type)
    else none
  | .applied type bytes suffix item =>
    if scope.expand type = ["bitwire", "bitset", "NullBitset"] ∧ suffix ∈ ["", "usize"] then
      [("new", .newBitset bytes), ("read", .readBitset bytes)].lookup item
    else none

/-- The type that an argument of a function has, as far as it is known from that of the call. -/
def Function.hint : Function → Option Ty → Option Ty
  | .ok, some (.result ty) => some ty
  | .present, some (.value (.option shape)) => some (.value shape)
  | _, _ => none

/-- The call of a function; `hint` is the type that is wanted. -/
def Scope.apply (scope : Scope) (hint : Option Ty) : Function → List Typed → Option Typed
  | .ok, [⟨ty, run⟩] => some ⟨.result ty, run⟩
  | .present, [⟨.value shape, run⟩] =>
    some ⟨.value (.option shape), do
      let value ← expect Datum.value? run
      pure (.value (.present value))⟩
  | .initial, [] =>
    match hint with
    | some (.value shape) => some ⟨.value shape, pure (.value (scope.types.initialOf shape))⟩
    | _ => none
  | .selfInitial, [] =>
    if "Default" ∈ scope.derives then
      some ⟨.self, pure (.self (scope.members.map fun member => scope.types.initialOf member.2))⟩
    else none
  | .sumSizes, [⟨.borrowed false .sizes, run⟩] =>
    some ⟨.optionalSize, do
      let sizes ← expect Datum.sizes? run
      pure (.optionalSize (Codec.sumFixedSizes sizes))⟩
  | .size, [⟨.borrowed false (.value shape), run⟩] =>
    some ⟨.size, measuring (scope.types.codecOf shape) run⟩
  | .write, [⟨.borrowed false (.value shape), run⟩, ⟨.buffer true, _⟩, ⟨.cursor, _⟩] =>
    some ⟨.result .unit, writingValue (scope.types.codecOf shape) run⟩
  | .overwrite, [⟨.borrowed true (.value shape), run⟩, ⟨.buffer false, _⟩, ⟨.cursor, _⟩] =>
    some ⟨.result .unit, do
      let place ← expect Datum.place? run
      overwritingValue (scope.types.codecOf shape).overwrite place⟩
  | .overwritePresent,
      [⟨.borrowed true (.value (.option shape)), run⟩, ⟨.buffer false, _⟩, ⟨.cursor, _⟩] =>
    some ⟨.result .unit, do
      let place ← expect Datum.place? run
      overwritingValue (presentOverwriter (scope.types.codecOf shape)) place⟩
  | .read type, [⟨.buffer false, _⟩, ⟨.cursor, _⟩] =>
    some ⟨.result (.value (scope.types.shapeOf type)), do
      let value ← reading (scope.types.codecOf (scope.types.shapeOf type)).read
      pure (.value value)⟩
  | .newBitset bytes, [] => some ⟨.bitset bytes, pure (.bitset bytes .empty)⟩
  | .readBitset bytes, [⟨.buffer false, _⟩, ⟨.cursor, _⟩] =>
    some ⟨.result (.bitset bytes), do
      let set ← reading (NullBitset.read : Reader (NullBitset bytes))
      pure (.bitset bytes set)⟩
  | _, _ => none

/-- The methods that codecs call. -/
inductive Method where
  | isNone
  | size
  | write
  | overwrite
  | mark
  | writeBitset
  | isNull

/-- The methods by their names. -/
def methods : List (String × Method) :=
  [("is_none", .isNone), ("size", .size), ("serialize", .write),
    ("deserialize_in_place", .overwrite), ("set", .mark), ("write", .writeBitset),
    ("is_null", .isNull)]

/-- The call of a method; `place` is where the receiver is, if it may be changed. -/
def Scope.invoke (scope : Scope) (receiver : Typed) (place : Option Place) :
    Method → List Typed → Option Typed
  | .isNone, [] =>
    match receiver.ty.target with
    | .value (.option _) => some ⟨.truth, do
        let value ← expect Datum.value? receiver.run
        pure (.truth value.isNull)⟩
    | _ => none
  | .size, [] =>
    match receiver.ty.target with
    | .value shape =>
      if scope.isOfTrait shape "size" "Encoder" then
        some ⟨.size, measuring (scope.types.codecOf shape) receiver.run⟩
      else none
    | _ => none
  | .write, [⟨.buffer true, _⟩, ⟨.cursor, _⟩] =>
    match receiver.ty.target with
    | .value shape =>
      if scope.isOfTrait shape "serialize" "Encoder" then
        some ⟨.result .unit, writingValue (scope.types.codecOf shape) receiver.run⟩
      else none
    | _ => none
  | .overwrite, [⟨.buffer false, _⟩, ⟨.cursor, _⟩] =>
    match receiver.ty.target, place with
    | .value shape, some place =>
      if scope.isOfTrait shape "deserialize_in_place" "Decoder" then
        some ⟨.result .unit, overwritingValue (scope.types.codecOf shape).overwrite place⟩
      else none
    | .self, some place =>
      match scope.overwrite with
      | some overwrite =>
        if scope.hasTrait "Decoder" then some ⟨.result .unit, do
          overwriting Datum.selfCase overwrite place
          pure .unit⟩
        else none
      | none => none
    | _, _ => none
  | .mark, [⟨.slot, slot⟩, ⟨.truth, isNull⟩] =>
    match receiver.ty, place with
    | .bitset _, some place => some ⟨.unit, markingNull receiver.run slot isNull place⟩
    | _, _ => none
  | .writeBitset, [⟨.buffer true, _⟩, ⟨.cursor, _⟩] =>
    match receiver.ty with
    | .bitset _ => some ⟨.result .unit, do
        let bitset ← expect Datum.bitset? receiver.run
        writing bitset.set.write
        pure .unit⟩
    | _ => none
  | .isNull, [⟨.slot, slot⟩] =>
    match receiver.ty with
    | .bitset _ => some ⟨.truth, testingNull receiver.run slot⟩
    | _ => none
  | _, _ => none

/-- Whether a type is that which is implemented, under the name that it has in the implementation. -/
def isSelfType : TypeExpr → Bool
  | .path false [.plain name] => name == "Self"
  | _ => false

/-- The constant at the end of a path. -/
def Scope.constant? (scope : Scope) (hint : Option Ty) : Path → Option Typed
  | .plain false ["None"] =>
    match hint with
    | some (.value (.option shape)) => some ⟨.value (.option shape), pure (.value .null)⟩
    | _ => none
  | .plain false ["Self", "FIXED_SIZE"] =>
    if scope.hasTrait "Encoder" then some ⟨.optionalSize, pure (.optionalSize scope.fixedSize)⟩
    else none
  | .through type trait item =>
    if scope.expand trait = ["bitwire", "Encoder"] ∧ item = "FIXED_SIZE" then
      some ⟨.optionalSize, pure (.optionalSize
        (if isSelfType type then scope.fixedSize
        else (scope.types.codecOf (scope.types.shapeOf type)).fixedSize))⟩
    else none
  | _ => none

/-! ## 5. Expressions -/

/-- The type of a number: what its suffix says, or else what is wanted of it. -/
def numberType (hint : Option Ty) (n : Nat) : String → Option Ty
  | "usize" => some .size
  | "u16" => if n ≤ 65535 then some .slot else none
  | "" => if hint = some .slot then (if n ≤ 65535 then some .slot else none) else some .size
  | _ => none

/-- The place of an expression that may be changed, and what is in it. -/
def Expr.place? (scope : Scope) : Expr → Option (Ty × Place)
  | .member token =>
    if scope.receiver = some true then
      (scope.member? token).map fun member => (.value member.2, .member member.1)
    else none
  | .var name =>
    match scope.locals.lookup name with
    | some (true, ty) => some (ty, .var name)
    | _ => none
  | _ => none

/-- Adds up sizes. -/
def sumRuns : List (Run Datum) → Run Nat
  | [] => pure 0
  | run :: rest => do
    let n ← expect Datum.number? run
    let total ← sumRuns rest
    pure (n + total)

/-- The data of runs, one after the other. -/
def allRuns (sort? : Datum → Option α) : List (Run Datum) → Run (List α)
  | [] => pure []
  | run :: rest => do
    let found ← expect sort? run
    let others ← allRuns sort? rest
    pure (found :: others)

mutual

/-- The meaning of an expression; `hint` is the type that is wanted, as far as it is known. -/
def Expr.meaning (scope : Scope) (hint : Option Ty) : Expr → Option Typed
  | .var name => (scope.locals.lookup name).map fun found => ⟨found.2, fetch (.var name)⟩
  | .number n suffix => (numberType hint n suffix).map fun ty => ⟨ty, pure (.number n)⟩
  | .item path => scope.constant? hint path
  | .member token =>
    if scope.receiver.isSome then
      (scope.member? token).map fun member => ⟨.value member.2, fetch (.member member.1)⟩
    else none
  | .borrow false of => (of.meaning scope none).map fun found => ⟨.borrowed false found.ty, found.run⟩
  | .borrow true of =>
    (of.place? scope).map fun found => ⟨.borrowed true found.1, pure (.place found.2)⟩
  | .call function arguments => do
    let function ← scope.function? function
    let arguments ← Expr.meanings scope (function.hint hint) arguments
    scope.apply hint function arguments
  | .method receiver name arguments => do
    let found ← receiver.meaning scope none
    let method ← methods.lookup name
    let arguments ← Expr.meanings scope (some .slot) arguments
    scope.invoke found ((receiver.place? scope).map Prod.snd) method arguments
  | .attempt of => do
    let found ← of.meaning scope (hint.map .result)
    match scope.returns, found.ty with
    | .result _, .result ty => some ⟨ty, found.run⟩
    | _, _ => none
  | .sum terms => do
    let terms ← Expr.meanings scope (some .size) terms
    if terms.all fun term => term.ty = .size then
      some ⟨.size, do
        let total ← sumRuns (terms.map Typed.run)
        pure (.number total)⟩
    else none
  | .unit => some ⟨.unit, pure .unit⟩
  | .array items => do
    let items ← Expr.meanings scope none items
    if items.all fun item => item.ty = .optionalSize then
      some ⟨.sizes, do
        let sizes ← allRuns Datum.optionalSize? (items.map Typed.run)
        pure (.sizes sizes)⟩
    else none
  | .construct _ members values => do
    let values ← Expr.meaningsAs scope (scope.members.map fun member => .value member.2) values
    if members = scope.members.map Prod.fst then
      some ⟨.self, do
        let values ← allRuns Datum.value? (values.map Typed.run)
        pure (.self values)⟩
    else none
  | .choose test yes no => do
    let test ← test.meaning scope none
    let yes ← yes.meaning scope hint
    let no ← no.meaning scope hint
    if test.ty = .truth ∧ yes.ty = no.ty then
      some ⟨yes.ty, choosing test.run yes.run no.run⟩
    else none

/-- The meanings of expressions of which one type is wanted. -/
def Expr.meanings (scope : Scope) (hint : Option Ty) : List Expr → Option (List Typed)
  | [] => some []
  | expr :: rest => do
    let found ← expr.meaning scope hint
    let others ← Expr.meanings scope hint rest
    some (found :: others)

/-- The meanings of expressions that have the given types. -/
def Expr.meaningsAs (scope : Scope) : List Ty → List Expr → Option (List Typed)
  | [], [] => some []
  | ty :: types, expr :: rest => do
    let found ← expr.meaning scope (some ty)
    let others ← Expr.meaningsAs scope types rest
    if found.ty = ty then some (found :: others) else none
  | _, _ => none

end

theorem meaning_unit (scope : Scope) (hint : Option Ty) :
    Expr.unit.meaning scope hint = some ⟨.unit, pure .unit⟩ := by
  rw [Expr.meaning]

/-! ## 6. Statements -/

/-- What a statement means: what is in scope behind it, and what it does; it may end the function
with a result. -/
structure Effect where
  scope : Scope
  run : Run (Option Datum)

/-- One run after the other, unless the first one ends the function. -/
def andThen (first second : Run (Option Datum)) : Run (Option Datum) := do
  match ← first with
  | some datum => pure (some datum)
  | none => second

/-- The type behind the null of an optional one. -/
def Ty.behindNull? : Ty → Option Ty
  | .optionalSize => some .size
  | .borrowed false (.value (.option shape)) => some (.borrowed false (.value shape))
  | _ => none

mutual

/-- The meaning of a statement. -/
def Statement.meaning (scope : Scope) : Statement → Option Effect
  | .bind isMutable name type value => do
    let found ← value.meaning scope (type.bind Ty.written?)
    if !found.ty.isResult && type.all fun type => Ty.written? type = some found.ty then
      some ⟨scope.withLocal name isMutable found.ty, performing do bindLocal name (← found.run)⟩
    else none
  | .touch isBorrow first second =>
    if (scope.locals.lookup first).isSome && (scope.locals.lookup second).isSome then
      let isLost (entry : String × Bool × Ty) : Bool :=
        !isBorrow && (entry.1 == first || entry.1 == second) && entry.2.2.isMoved
      some ⟨{ scope with locals := scope.locals.filter fun entry => !isLost entry }, pure none⟩
    else none
  | .perform value => do
    let found ← value.meaning scope none
    if found.ty = .unit then some ⟨scope, performing found.run⟩ else none
  | .increase name value => do
    let found ← value.meaning scope (some .size)
    if scope.locals.lookup name = some (true, .size) ∧ found.ty = .size then
      some ⟨scope, performing (increasing name found.run)⟩
    else none
  | .assign token value => do
    let (ty, place) ← (Expr.member token).place? scope
    let found ← value.meaning scope (some ty)
    if found.ty = ty then
      some ⟨scope, performing do store place (← found.run)⟩
    else none
  | .giveBack value => do
    let found ← value.meaning scope (some scope.returns)
    if found.ty = scope.returns then
      some ⟨scope, do
        let datum ← found.run
        pure (some datum)⟩
    else none
  | .whenSome name of body => do
    let found ← of.meaning scope none
    let ty ← found.ty.behindNull?
    let inner ← Statement.meanings (scope.withLocal name false ty) body
    some ⟨scope, whenPresent name found.run inner.run⟩
  | .branch test yes no => do
    let test ← test.meaning scope none
    let yes ← Statement.meanings scope yes
    let no ← Statement.meanings scope no
    if test.ty = .truth then
      some ⟨scope, choosing test.run (inBlock yes.run) (inBlock no.run)⟩
    else none
  | .allowing _ statement => statement.meaning scope

/-- The meaning of statements, one after the other. -/
def Statement.meanings (scope : Scope) : List Statement → Option Effect
  | [] => some ⟨scope, pure none⟩
  | statement :: rest => do
    let first ← statement.meaning scope
    let others ← Statement.meanings first.scope rest
    some ⟨others.scope, andThen first.run others.run⟩

end

theorem meaning_allowing (scope : Scope) (lint : String) (statement : Statement) :
    (Statement.allowing lint statement).meaning scope = statement.meaning scope := by
  rw [Statement.meaning]

theorem meanings_nil (scope : Scope) : Statement.meanings scope [] = some ⟨scope, pure none⟩ := by
  rw [Statement.meanings]

/-- The meaning of a body: what the function gives back. -/
def Body.meaning (scope : Scope) (body : Body) : Option (Run Datum) := do
  let effect ← Statement.meanings scope body.statements
  let found ← body.result.meaning effect.scope (some scope.returns)
  if found.ty = scope.returns then
    some do
      match ← effect.run with
      | some datum => pure datum
      | none => found.run
  else none

/-! ## 7. Programs -/

/-- A run that measures the structure. -/
def Run.toSize (run : Run Datum) (values : List Value) : Nat :=
  match run ⟨values, [], 0, []⟩ with
  | .ok (.number n) _ => n
  | _ => 0

/-- A run that writes the structure. -/
def Run.toWriter (run : Run Datum) (values : List Value) : Writer := fun out =>
  match run ⟨values, out.buffer, out.cursor, []⟩ with
  | .ok _ machine => .ok () ⟨machine.buffer, machine.cursor⟩
  | .error failure machine => .error failure ⟨machine.buffer, machine.cursor⟩

/-- A run that reads a new structure. -/
def Run.toReader (run : Run Datum) : Reader (List Value) := fun buffer cursor =>
  match run ⟨[], buffer, cursor, []⟩ with
  | .ok (.self values) machine => .ok values machine.cursor
  | .ok _ machine => .error .mismatch machine.cursor
  | .error failure machine => .error failure machine.cursor

/-- A run that reads over the structure. -/
def Run.toOverwriter (run : Run Datum) : Overwriter (List Value) := fun target buffer cursor =>
  match run ⟨target, buffer, cursor, []⟩ with
  | .ok _ machine => ⟨machine.self, machine.cursor, .ok ()⟩
  | .error failure machine => ⟨machine.self, machine.cursor, .error failure⟩

/-- The constant of a fixed size; one that is not written is that of the trait, which is none. -/
def fixedSize? (scope : Scope) : Option Expr → Option (Option Nat)
  | none => some none
  | some value => do
    let found ← value.meaning scope none
    match found.ty, found.run ⟨[], [], 0, []⟩ with
    | .optionalSize, .ok (.optionalSize size) _ => some size
    | _, _ => none

/-- What the parts of a program see, functions and variables apart. -/
def Program.scope (program : Program) (types : Types) : Scope where
  types := types
  imports := program.imports
  derives := program.derives
  members := program.members.map fun member => (member.1, types.shapeOf member.2)
  receiver := none
  returns := .unit
  fixedSize := none
  overwrite := none
  locals := []

/-- What a function sees that writes, or reads. -/
def Scope.inFunction (scope : Scope) (receiver : Option Bool) (isWritable : Bool) (returns : Ty) :
    Scope :=
  { scope with
    receiver := receiver
    returns := .result returns
    locals := [("buf", false, .buffer isWritable), ("cursor", false, .cursor)] }

/-- **The codec of a program**, if a compiler takes it: no two members have one name, and everything
has a meaning.  An optional structure has the null layout that the traits bring along. -/
def Program.codec? (program : Program) (types : Types) : Option (Codec (List Value)) := do
  let scope := program.scope types
  if (program.members.map Prod.fst).Nodup then
    let fixedSize ← fixedSize? scope program.encoder.fixedSize
    let size ← program.encoder.size.meaning
      { scope with receiver := some false, returns := .size, fixedSize := fixedSize }
    let write ← program.encoder.serialize.meaning (scope.inFunction (some false) true .unit)
    let overwrite ← program.decoder.overwrite.meaning (scope.inFunction (some true) false .unit)
    let read ← program.decoder.deserialize.meaning
      { scope.inFunction none false .self with overwrite := some overwrite.toOverwriter }
    some
      { fixedSize := fixedSize
        size := size.toSize
        write := write.toWriter
        read := read.toReader
        overwrite := overwrite.toOverwriter
        nullable := .marker size.toSize write.toWriter read.toReader }
  else none

end Wireform.Source
