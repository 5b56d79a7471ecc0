import Wireform.Source.Meaning

/-!
# Runs on the machine

What the computations do of which the meanings of expressions and statements are made: what is bound,
what a block forgets, and how values and bits are read and written where they are.
-/
namespace Wireform.Source

variable {α : Type} {machine : Machine} {index : Nat} {value inner : Value} {name : String}

/-! ## 1. One run after the other -/

theorem bind_apply {β : Type} (run : Run α) (next : α → Run β) (machine : Machine) :
    (run >>= next) machine =
      match run machine with
      | .ok found after => next found after
      | .error failure after => .error failure after := by
  show EStateM.bind run next machine = _
  unfold EStateM.bind
  cases run machine <;> rfl

/-- A run goes on from where the one in front of it ends. -/
theorem bind_congr_left {β : Type} {run run' : Run α} {machine machine' : Machine}
    (h : run machine = run' machine') (next : α → Run β) :
    (run >>= next) machine = (run' >>= next) machine' := by
  rw [bind_apply, bind_apply, h]

theorem pure_apply (found : α) (machine : Machine) :
    (pure found : Run α) machine = .ok found machine := rfl

theorem expect_apply {sort? : Datum → Option α} {run : Run Datum} {datum : Datum} {found : α}
    (hrun : run machine = .ok datum machine) (hsort : sort? datum = some found) :
    expect sort? run machine = .ok found machine := by
  unfold expect
  rw [bind_apply, hrun]
  dsimp only
  rw [hsort]
  rfl

theorem fetch_member {index : Nat} {value : Value} (h : machine.self[index]? = some value) :
    fetch (.member index) machine = .ok (.value value) machine := by
  simp [fetch, Machine.at?, h]

theorem fetch_var {name : String} {datum : Datum} (h : machine.locals.lookup name = some datum) :
    fetch (.var name) machine = .ok datum machine := by
  simp [fetch, Machine.at?, h]

theorem measuring_apply (codec : Codec Value) {place : Place} {value : Value}
    (h : fetch place machine = .ok (.value value) machine) :
    measuring codec (fetch place) machine = .ok (.number (codec.size value)) machine := by
  have hvalue : Datum.value? (.value value) = some value := rfl
  unfold measuring
  rw [bind_apply, expect_apply h hvalue]
  rfl

theorem writingValue_apply (codec : Codec Value) {place : Place} {value : Value}
    (h : fetch place machine = .ok (.value value) machine) :
    writingValue codec (fetch place) machine =
      (do writing (codec.write value); pure .unit : Run Datum) machine := by
  have hvalue : Datum.value? (.value value) = some value := rfl
  unfold writingValue
  rw [bind_apply, expect_apply h hvalue]

/-- A block with one variable, which it forgets at its end. -/
theorem inBlock_apply (name : String) (datum : Datum) (run : Run α) (machine : Machine) :
    inBlock (do bindLocal name datum; run) machine =
      leaving machine.locals.length
        (run (machine.withLocal name datum)) := rfl

theorem performing_congr {run run' : Run α} (h : run machine = run' machine) :
    performing run machine = performing run' machine := by
  unfold performing
  rw [bind_apply, bind_apply, h]

theorem performing_unit (run : Run Unit) : performing (do run; pure Datum.unit) = performing run := by
  funext machine
  unfold performing
  rw [bind_apply, bind_apply, bind_apply]
  cases run machine <;> rfl

theorem performing_ok {run : Run α} {found : α} {after : Machine}
    (h : run machine = .ok found after) : performing run machine = .ok none after := by
  rw [performing, bind_apply, h]
  rfl

theorem andThen_none {first : Run (Option Datum)} {after : Machine}
    (h : first machine = .ok none after) (second : Run (Option Datum)) :
    andThen first second machine = second after := by
  unfold andThen
  rw [bind_apply, h]

theorem andThen_some {first : Run (Option Datum)} {datum : Datum} {after : Machine}
    (h : first machine = .ok (some datum) after) (second : Run (Option Datum)) :
    andThen first second machine = .ok (some datum) after := by
  unfold andThen
  rw [bind_apply, h]
  rfl

theorem andThen_assoc (first second third : Run (Option Datum)) :
    andThen (andThen first second) third = andThen first (andThen second third) := by
  funext machine
  unfold andThen
  rw [bind_apply, bind_apply, bind_apply]
  cases first machine with
  | error failure after => rfl
  | ok found after =>
    cases found with
    | some datum => rfl
    | none => exact (bind_apply _ _ _).symm

theorem andThen_performing {α : Type} (run : Run α) :
    andThen (performing run) (pure none) = performing run := by
  funext machine
  unfold andThen performing
  rw [bind_apply, bind_apply]
  cases run machine <;> rfl

/-- What is in a place is read over. -/
theorem overwriting_of_at {case : Case α Datum} {place : Place} {target : α}
    (overwriter : Overwriter α) (hat : (machine.at? place).bind case.get? = some target) :
    overwriting case overwriter place machine =
      let result := overwriter target machine.buffer machine.cursor
      let after := { machine with cursor := result.cursor }.put place (case.wrap result.target)
      match result.outcome with
      | .ok _ => .ok () after
      | .error failure => .error failure after := by
  unfold overwriting
  rewrite [hat]
  rfl

/-! ## 2. Fields -/

/-- The machine holds a value in a member. -/
def Holds (index : Nat) (value : Value) (machine : Machine) : Prop := machine.self[index]? = some value

/-- A field that is read over, where its value is. -/
theorem overwriting_apply (overwriter : Overwriter Value) (hvalue : Holds index value machine) :
    overwriting Datum.valueCase overwriter (.member index) machine =
      let result := overwriter value machine.buffer machine.cursor
      let after := { machine with
        self := machine.self.set index result.target, cursor := result.cursor }
      match result.outcome with
      | .ok _ => .ok () after
      | .error failure => .error failure after := by
  have hat : (machine.at? (.member index)).bind Datum.valueCase.get? = some value := by
    rw [Machine.at?, show machine.self[index]? = some value from hvalue]
    rfl
  exact overwriting_of_at overwriter hat

theorem overwriting_congr {overwriter other : Overwriter Value} (hvalue : Holds index value machine)
    (h : overwriter value machine.buffer machine.cursor = other value machine.buffer machine.cursor) :
    overwriting Datum.valueCase overwriter (.member index) machine =
      overwriting Datum.valueCase other (.member index) machine := by
  rw [overwriting_apply _ hvalue, overwriting_apply _ hvalue, h]

/-- Reading over a field fails and leaves all as it is. -/
theorem overwriting_failed {overwriter : Overwriter Value} {failure : Failure}
    (hvalue : Holds index value machine)
    (h : overwriter value machine.buffer machine.cursor = ⟨value, machine.cursor, .error failure⟩) :
    overwriting Datum.valueCase overwriter (.member index) machine = .error failure machine := by
  have hself : machine.self.set index value = machine.self := by
    refine List.ext_getElem? fun k => ?_
    rw [List.getElem?_set]
    split
    · next hk =>
      subst hk
      rw [show machine.self[index]? = some value from hvalue]
      exact if_pos (List.getElem?_eq_some_iff.mp hvalue).1
    · rfl
  rw [overwriting_apply _ hvalue, h]
  dsimp only
  rw [hself]

/-- An assignment reads nothing, and puts a value in the place of another. -/
theorem assigning_apply (later : Value) (hvalue : Holds index value machine) :
    (do store (.member index) (← (pure (.value later) : Run Datum)) : Run Unit) machine =
      overwriting Datum.valueCase (fun _ _ cursor => ⟨later, cursor, .ok ()⟩) (.member index)
        machine := by
  rw [overwriting_apply _ hvalue]
  rfl

/-- Reading over a field does not touch the variables. -/
theorem inBlock_overwriting (overwriter : Overwriter Value) (hvalue : Holds index value machine) :
    inBlock (performing (overwriting Datum.valueCase overwriter (.member index))) machine =
      performing (overwriting Datum.valueCase overwriter (.member index)) machine := by
  unfold inBlock performing
  rw [bind_apply, overwriting_apply _ hvalue]
  dsimp only
  cases (overwriter value machine.buffer machine.cursor).outcome <;>
    simp [leaving, Machine.leave, pure, EStateM.pure]

theorem inBlock_congr {run run' : Run (Option Datum)} (h : run machine = run' machine) :
    inBlock run machine = inBlock run' machine := by
  unfold inBlock
  rw [h]

theorem whenPresent_null (hvalue : Holds index .null machine) (run : Run (Option Datum)) :
    whenPresent name (fetch (.member index)) run machine = .ok none machine := by
  have hnull : Datum.behindNull? (.value .null) = some none := rfl
  unfold whenPresent
  rw [bind_apply, expect_apply (fetch_member hvalue) hnull]
  rfl

theorem whenPresent_present (hvalue : Holds index (.present inner) machine)
    (run : Run (Option Datum)) :
    whenPresent name (fetch (.member index)) run machine =
      leaving machine.locals.length (run (machine.withLocal name (.value inner))) := by
  have hpresent : Datum.behindNull? (.value (.present inner)) = some (some (.value inner)) := rfl
  unfold whenPresent
  rw [bind_apply, expect_apply (fetch_member hvalue) hpresent]
  exact inBlock_apply name (.value inner) run machine

/-- Writing does not touch the variables. -/
theorem leaving_writing (writer : Writer) (name : String) (datum : Datum) (machine : Machine) :
    leaving machine.locals.length (performing (writing writer) (machine.withLocal name datum)) =
      performing (writing writer) machine := by
  unfold performing
  rw [bind_apply, bind_apply]
  unfold writing Machine.withLocal
  cases writer ⟨machine.buffer, machine.cursor⟩ <;>
    simp [leaving, Machine.leave, pure, EStateM.pure]

/-! ## 3. Variables -/

theorem length_putLocal (name : String) (datum : Datum) (locals : List (String × Datum)) :
    (putLocal name datum locals).length = locals.length := by
  induction locals with
  | nil => rfl
  | cons entry rest ih =>
    obtain ⟨other, old⟩ := entry
    unfold putLocal
    split
    · rfl
    · exact congrArg (· + 1) ih

theorem lookup_putLocal {datum old : Datum} {locals : List (String × Datum)}
    (h : locals.lookup name = some old) : (putLocal name datum locals).lookup name = some datum := by
  induction locals with
  | nil => cases h
  | cons entry rest ih =>
    obtain ⟨other, present⟩ := entry
    unfold putLocal
    by_cases hname : other = name
    · rw [if_pos hname, List.lookup_cons_self]
    · rw [if_neg hname, List.lookup_cons, beq_false_of_ne (Ne.symm hname)]
      rw [List.lookup_cons, beq_false_of_ne (Ne.symm hname)] at h
      exact ih h

theorem putLocal_putLocal (datum later : Datum) (locals : List (String × Datum)) :
    putLocal name later (putLocal name datum locals) = putLocal name later locals := by
  induction locals with
  | nil => rfl
  | cons entry rest ih =>
    obtain ⟨other, old⟩ := entry
    by_cases hname : other = name
    · simp [putLocal, hname]
    · simp [putLocal, hname, ih]

/-- A variable that gets the datum that it has is not changed. -/
theorem putLocal_self {datum : Datum} {locals : List (String × Datum)}
    (h : locals.lookup name = some datum) : putLocal name datum locals = locals := by
  induction locals with
  | nil => cases h
  | cons entry rest ih =>
    obtain ⟨other, old⟩ := entry
    unfold putLocal
    by_cases hname : other = name
    · rw [hname, List.lookup_cons_self] at h
      cases h
      rw [if_pos hname, hname]
    · rw [List.lookup_cons, beq_false_of_ne (Ne.symm hname)] at h
      rw [if_neg hname, ih h]

theorem leave_withLocal (datum : Datum) (machine : Machine) :
    (machine.withLocal name datum).leave machine.locals.length = machine := by
  simp [Machine.leave, Machine.withLocal]

/-- A variable that is changed behind another one stays changed when that one is forgotten. -/
theorem leave_put {other : String} (hother : name ≠ other) (datum later : Datum) (machine : Machine) :
    ((machine.withLocal name datum).put (.var other) later).leave machine.locals.length =
      machine.put (.var other) later := by
  simp [Machine.leave, Machine.put, Machine.withLocal, putLocal, hother, length_putLocal]

/-- The sum of sizes so far. -/
def Counts (machine : Machine) (total : Nat) : Prop :=
  machine.locals.lookup "size" = some (.number total)

/-- Adds to the sum of sizes. -/
def adding (n : Nat) : Run Unit := increasing "size" (pure (.number n))

theorem increasing_apply {run : Run Datum} {n total : Nat}
    (hrun : run machine = .ok (.number n) machine) (htotal : Counts machine total) :
    increasing "size" run machine = .ok () (machine.put (.var "size") (.number (total + n))) := by
  have hnumber : ∀ n, Datum.number? (.number n) = some n := fun _ => rfl
  unfold increasing
  rw [bind_apply, expect_apply hrun (hnumber n)]
  dsimp only
  rw [bind_apply, expect_apply (fetch_var htotal) (hnumber total)]
  rfl

theorem adding_apply (n : Nat) {total : Nat} (htotal : Counts machine total) :
    adding n machine = .ok () (machine.put (.var "size") (.number (total + n))) :=
  increasing_apply rfl htotal

theorem adding_zero {total : Nat} (htotal : Counts machine total) :
    adding 0 machine = .ok () machine := by
  have hsame : machine.put (.var "size") (.number total) =
      { machine with locals := putLocal "size" (.number total) machine.locals } := rfl
  rw [adding_apply 0 htotal, Nat.add_zero, hsame, putLocal_self htotal]

/-! ## 4. Bitsets -/

/-- The machine has a bitset at hand. -/
def HasBitset (machine : Machine) (bytes : Nat) (set : NullBitset bytes) : Prop :=
  machine.locals.lookup "bitset" = some (.bitset bytes set)

theorem markingNull_apply {bytes n : Nat} {set : NullBitset bytes} {isTrue : Bool}
    {slot isNull : Run Datum} (hbitset : HasBitset machine bytes set)
    (hslot : slot machine = .ok (.number n) machine)
    (hnull : isNull machine = .ok (.truth isTrue) machine) :
    markingNull (fetch (.var "bitset")) slot isNull (.var "bitset") machine =
      match set.set? n isTrue with
      | some set => .ok .unit (machine.put (.var "bitset") (.bitset bytes set))
      | none => .error .outOfBounds machine := by
  have hbits : Datum.bitset? (.bitset bytes set) = some ⟨bytes, set⟩ := rfl
  have hnumber : Datum.number? (.number n) = some n := rfl
  have htruth : Datum.truth? (.truth isTrue) = some isTrue := rfl
  unfold markingNull
  rw [bind_apply, expect_apply (fetch_var hbitset) hbits]
  dsimp only
  rw [bind_apply, expect_apply hslot hnumber]
  dsimp only
  rw [bind_apply, expect_apply hnull htruth]
  dsimp only
  cases set.set? n isTrue <;> rfl

theorem choosing_apply {α : Type} {test : Run Datum} {yes no : Run α} {isTrue : Bool}
    (htest : test machine = .ok (.truth isTrue) machine) :
    choosing test yes no machine = if isTrue then yes machine else no machine := by
  have htruth : Datum.truth? (.truth isTrue) = some isTrue := rfl
  unfold choosing
  rw [bind_apply, expect_apply htest htruth]
  cases isTrue <;> rfl

theorem choosing_failed {α : Type} {test : Run Datum} {yes no : Run α} {failure : Failure}
    (htest : test machine = .error failure machine) :
    choosing test yes no machine = .error failure machine := by
  unfold choosing expect
  rw [bind_apply, bind_apply, htest]

theorem testingNull_apply {bytes : Nat} (slot : Nat) {set : NullBitset bytes}
    (hbitset : HasBitset machine bytes set) :
    testingNull (fetch (.var "bitset")) (pure (.number slot)) machine =
      match set.isNull? slot with
      | some isNull => .ok (.truth isNull) machine
      | none => .error .outOfBounds machine := by
  have hbits : Datum.bitset? (.bitset bytes set) = some ⟨bytes, set⟩ := rfl
  have hnumber : Datum.number? (.number slot) = some slot := rfl
  unfold testingNull
  rw [bind_apply, expect_apply (fetch_var hbitset) hbits]
  dsimp only
  rw [bind_apply, expect_apply (pure_apply _ _) hnumber]
  dsimp only
  rw [bind_apply, reading, NullBitset.test]
  cases set.isNull? slot <;> rfl

/-- Gives bits in the bitset at hand. -/
def marking : List (Nat × Bool) → Run Unit
  | [] => pure ()
  | (slot, isNull) :: rest => do
    let _ ← markingNull (fetch (.var "bitset")) (pure (.number slot)) (pure (.truth isNull))
      (.var "bitset")
    marking rest

end Wireform.Source
