import Mathlib.Data.List.Forall2
import Wireform.Proofs.Statements

/-!
# What the statements about all fields do

The statements about the fields of a structure, one after the other, do what its record does: sizes are
added up, bits are set, and the fields are written and read over in their order.  The inductions are
over the fields, of which the first one is in a certain place (`Placed`); what is said of the machine is
said of the values from there on.
-/
namespace Wireform.Source

open Derive (Token)

variable {scope : Scope} {start : Nat} {fields : List Field} {values : List Value}
  {machine after : Machine}

/-! ## 1. Places -/

/-- The fields are members of the structure, the first of them in a certain place. -/
def Placed (scope : Scope) : Nat → List Field → Prop
  | _, [] => True
  | start, field :: rest =>
    scope.member? field.token = some (start, field.type) ∧ Placed scope (start + 1) rest

theorem Placed.of_members {scope' : Scope} (h : Placed scope start fields)
    (hmembers : scope'.members = scope.members) : Placed scope' start fields := by
  induction fields generalizing start with
  | nil => exact trivial
  | cons field fields ih =>
    refine ⟨?_, ih h.2⟩
    rw [Scope.member?, hmembers]
    exact h.1

theorem Placed.exists_member (h : Placed scope start fields) {field : Field} (hfield : field ∈ fields) :
    ∃ index, scope.member? field.token = some (index, field.type) := by
  induction fields generalizing start with
  | nil => cases hfield
  | cons head fields ih =>
    rcases List.mem_cons.mp hfield with rfl | hfield
    · exact ⟨start, h.1⟩
    · exact ih h.2 hfield

/-- The values from a place on. -/
def HoldsFrom (start : Nat) (values : List Value) (machine : Machine) : Prop :=
  machine.self.drop start = values

theorem HoldsFrom.head {value : Value} (h : HoldsFrom start (value :: values) machine) :
    Holds start value machine := by
  have hhead := congrArg (·[0]?) h
  rw [List.getElem?_drop, List.getElem?_cons_zero] at hhead
  exact hhead

theorem exists_holdsFrom {count : Nat} (h : machine.self.length = start + (count + 1)) :
    ∃ value values, HoldsFrom start (value :: values) machine := by
  cases hvalues : machine.self.drop start with
  | nil =>
    have hlength := congrArg List.length hvalues
    rw [List.length_drop, List.length_nil] at hlength
    omega
  | cons value values => exact ⟨value, values, hvalues⟩

theorem HoldsFrom.tail {value : Value} (h : HoldsFrom start (value :: values) machine) :
    HoldsFrom (start + 1) values machine := by
  unfold HoldsFrom at h ⊢
  rw [← List.drop_drop, h, List.drop_one, List.tail_cons]

theorem HoldsFrom.of_self (h : HoldsFrom start values machine) (hself : after.self = machine.self) :
    HoldsFrom start values after := by
  unfold HoldsFrom at h ⊢
  rw [hself, h]

/-- A member with a name that no member in front of it has. -/
theorem find_member {token : Token} {front : List (Token × Shape)}
    (hfront : token ∉ front.map Prod.fst) (shape : Shape) (rest : List (Token × Shape)) (index : Nat) :
    Scope.member?.find token index (front ++ (token, shape) :: rest) =
      some (index + front.length, shape) := by
  induction front generalizing index with
  | nil => exact if_pos rfl
  | cons entry front ih =>
    obtain ⟨other, old⟩ := entry
    rw [List.map_cons, List.mem_cons, not_or] at hfront
    rw [List.cons_append, Scope.member?.find, if_neg (Ne.symm hfront.1), ih hfront.2]
    congr 2
    rw [List.length_cons]
    omega

/-- Members with different names are found in their places. -/
theorem placed_of_nodup (hnodup : (scope.members.map Prod.fst).Nodup)
    (hmembers : scope.members = fields.map fun field => (field.token, field.type)) :
    Placed scope 0 fields := by
  suffices h : ∀ front rest, fields = front ++ rest → Placed scope front.length rest from h [] fields rfl
  intro front rest hfields
  induction rest generalizing front with
  | nil => exact trivial
  | cons field rest ih =>
    refine ⟨?_, ?_⟩
    · have hfront : field.token ∉
          (front.map fun field => (field.token, field.type)).map Prod.fst := by
        rw [hmembers, hfields, List.map_append, List.map_append, List.map_cons, List.map_cons] at hnodup
        intro hmem
        exact (List.nodup_append.mp hnodup).2.2 _ hmem _ List.mem_cons_self rfl
      have hfound := find_member hfront field.type
        (rest.map fun field => (field.token, field.type)) 0
      rw [Scope.member?, hmembers, hfields, List.map_append, List.map_cons, hfound, List.length_map,
        Nat.zero_add]
    · have hrest := ih (front ++ [field]) (by rw [List.append_assoc]; exact hfields)
      rwa [List.length_append, List.length_singleton] at hrest

/-! ## 2. Runs over the fields -/

theorem writing_append (first second : Writer) (machine : Machine) :
    (do writing first; writing second : Run Unit) machine =
      writing (do first; second) machine := by
  have hbind : (do first; second : Writer) = EStateM.bind first fun _ => second := rfl
  rw [bind_apply, hbind]
  unfold writing EStateM.bind
  cases first ⟨machine.buffer, machine.cursor⟩ <;> rfl

/-- Writing leaves the values and the variables. -/
theorem writing_keeps {writer : Writer} (h : writing writer machine = .ok () after) :
    after.self = machine.self ∧ after.locals = machine.locals := by
  unfold writing at h
  split at h
  · cases h
    exact ⟨rfl, rfl⟩
  · cases h

/-- Reading over a field leaves the variables, and as many values as there were. -/
theorem overwriting_keeps {index : Nat} {value : Value} {overwriter : Overwriter Value}
    (hvalue : Holds index value machine)
    (h : overwriting Datum.valueCase overwriter (.member index) machine = .ok () after) :
    after.self.length = machine.self.length ∧ after.locals = machine.locals := by
  rw [overwriting_apply _ hvalue] at h
  dsimp only at h
  split at h
  · cases h
    exact ⟨List.length_set, rfl⟩
  · cases h

theorem adding_keeps {n total : Nat} (htotal : Counts machine total)
    (h : adding n machine = .ok () after) :
    after.self = machine.self ∧ Counts after (total + n) := by
  rw [adding_apply n htotal] at h
  cases h
  exact ⟨rfl, lookup_putLocal htotal⟩

theorem adding_adding (n m : Nat) {total : Nat} (htotal : Counts machine total) :
    (do adding n; adding m : Run Unit) machine = adding (n + m) machine := by
  have hcounts : Counts (machine.put (.var "size") (.number (total + n))) (total + n) :=
    lookup_putLocal htotal
  rw [bind_apply, adding_apply n htotal]
  dsimp only
  rw [adding_apply m hcounts, adding_apply (n + m) htotal]
  simp only [Machine.put, putLocal_putLocal, Nat.add_assoc]

theorem marking_append (front rest : List (Nat × Bool)) :
    marking (front ++ rest) = (do marking front; marking rest) := by
  induction front with
  | nil => rfl
  | cons mark front ih =>
    obtain ⟨slot, isNull⟩ := mark
    funext machine
    rw [List.cons_append, marking, marking, ih, bind_assoc]

/-- What bits become in a bitset at hand. -/
theorem marking_apply {bytes : Nat} {set : NullBitset bytes} (hset : HasBitset machine bytes set)
    (marks : List (Nat × Bool)) :
    ∃ set', marking marks machine =
      match (marks.foldlM (fun set mark => set.set? mark.1 mark.2) set : Option (NullBitset bytes)) with
      | some set => .ok () (machine.put (.var "bitset") (.bitset bytes set))
      | none => .error .outOfBounds (machine.put (.var "bitset") (.bitset bytes set')) := by
  have hsame : machine.put (.var "bitset") (.bitset bytes set) = machine := by
    have hput : machine.put (.var "bitset") (.bitset bytes set) =
        { machine with locals := putLocal "bitset" (.bitset bytes set) machine.locals } := rfl
    rw [hput, putLocal_self hset]
  induction marks generalizing machine set with
  | nil =>
    refine ⟨set, ?_⟩
    show marking [] machine = .ok () (machine.put (.var "bitset") (.bitset bytes set))
    rw [hsame]
    rfl
  | cons mark marks ih =>
    obtain ⟨slot, isNull⟩ := mark
    have hfirst := markingNull_apply hset (pure_apply (Datum.number slot) machine)
      (pure_apply (Datum.truth isNull) machine)
    rw [List.foldlM_cons]
    cases hbit : set.set? slot isNull with
    | none =>
      rw [hbit] at hfirst
      refine ⟨set, ?_⟩
      rw [marking, bind_apply, hfirst, hsame]
      rfl
    | some next =>
      rw [hbit] at hfirst
      have hput (later : NullBitset bytes) :
          (machine.put (.var "bitset") (.bitset bytes next)).put (.var "bitset")
            (.bitset bytes later) = machine.put (.var "bitset") (.bitset bytes later) := by
        simp only [Machine.put, putLocal_putLocal]
      obtain ⟨set', hrest⟩ := ih (show HasBitset (machine.put (.var "bitset") (.bitset bytes next))
        bytes next from lookup_putLocal hset) (hput next)
      refine ⟨set', ?_⟩
      rw [marking, bind_apply, hfirst]
      refine hrest.trans ?_
      simp only [hput, Option.bind_eq_bind, Option.bind_some]

theorem marking_keeps {bytes : Nat} {set : NullBitset bytes} (hset : HasBitset machine bytes set)
    {marks : List (Nat × Bool)} (h : marking marks machine = .ok () after) :
    after.self = machine.self ∧ ∃ set', HasBitset after bytes set' := by
  obtain ⟨set', hmarks⟩ := marking_apply hset marks
  rw [h] at hmarks
  split at hmarks
  · next later _ =>
    cases hmarks
    exact ⟨rfl, later, lookup_putLocal hset⟩
  · cases hmarks

/-- Writes the bitset at hand. -/
def writingBitset : Run Unit := do
  let bitset ← expect Datum.bitset? (fetch (.var "bitset"))
  writing bitset.set.write

theorem writingBitset_apply {bytes : Nat} {set : NullBitset bytes}
    (hset : HasBitset machine bytes set) : writingBitset machine = writing set.write machine := by
  have hbits : Datum.bitset? (.bitset bytes set) = some ⟨bytes, set⟩ := rfl
  rw [writingBitset, bind_apply, expect_apply (fetch_var hset) hbits]

/-- Reads a bitset and binds it. -/
def readingBitset (bytes : Nat) : Run Unit := do
  let set ← reading (NullBitset.read : Reader (NullBitset bytes))
  bindLocal "bitset" (.bitset bytes set)

theorem readingBitset_apply (bytes : Nat) (machine : Machine) :
    readingBitset bytes machine =
      match (NullBitset.read : Reader (NullBitset bytes)) machine.buffer machine.cursor with
      | .ok set cursor =>
        .ok () ({ machine with cursor := cursor }.withLocal "bitset" (.bitset bytes set))
      | .error failure cursor => .error failure { machine with cursor := cursor } := by
  rw [readingBitset, bind_apply, reading]
  cases (NullBitset.read : Reader (NullBitset bytes)) machine.buffer machine.cursor <;> rfl

/-- A new bitset gets bits and is written. -/
def writingBits (bytes : Nat) (marks : List (Nat × Bool)) : Run Unit := do
  bindLocal "bitset" (.bitset bytes .empty)
  (do marking marks; writingBitset)

theorem writingBits_apply (bytes : Nat) (marks : List (Nat × Bool)) (machine : Machine) :
    ∃ set : NullBitset bytes, writingBits bytes marks machine =
      writing (writeMarks bytes marks) (machine.withLocal "bitset" (.bitset bytes set)) := by
  have hempty : HasBitset (machine.withLocal "bitset" (.bitset bytes .empty)) bytes .empty := rfl
  have hput (set : NullBitset bytes) : HasBitset
      ((machine.withLocal "bitset" (.bitset bytes .empty)).put (.var "bitset") (.bitset bytes set))
      bytes set := rfl
  have hrun : writingBits bytes marks machine = (do marking marks; writingBitset : Run Unit)
      (machine.withLocal "bitset" (.bitset bytes .empty)) := rfl
  have hof : (NullBitset.ofMarks? marks : Option (NullBitset bytes)) =
      marks.foldlM (fun set mark => set.set? mark.1 mark.2) .empty := rfl
  obtain ⟨set', hmarks⟩ := marking_apply hempty marks
  rw [hrun, bind_apply, hmarks]
  unfold writeMarks
  rw [hof]
  cases marks.foldlM (fun (set : NullBitset bytes) mark => set.set? mark.1 mark.2) .empty with
  | some set => exact ⟨set, writingBitset_apply (hput set)⟩
  | none => exact ⟨set', rfl⟩

/-- Reads over the values from a place on. -/
def overwritingFrom (start : Nat) (overwriter : Overwriter (List Value)) : Run Unit := fun machine =>
  let result := overwriter (machine.self.drop start) machine.buffer machine.cursor
  let after := { machine with
    self := machine.self.take start ++ result.target, cursor := result.cursor }
  match result.outcome with
  | .ok _ => .ok () after
  | .error failure => .error failure after

/-- The first value is read over, and then the others. -/
theorem overwritingFrom_cons {bytes : Nat} (set : NullBitset bytes) (field : FieldCodec)
    (rest : List FieldCodec) {value : Value} {values : List Value}
    (hvalues : HoldsFrom start (value :: values) machine) :
    (do overwriting Datum.valueCase (field.overwrite set) (.member start)
        overwritingFrom (start + 1) (overwriteFields set rest) : Run Unit) machine =
      overwritingFrom start (overwriteFields set (field :: rest)) machine := by
  have hself : machine.self = machine.self.take start ++ value :: values := by
    rw [← show machine.self.drop start = value :: values from hvalues, List.take_append_drop]
  have hlength : start ≤ machine.self.length := by
    have := (List.getElem?_eq_some_iff.mp hvalues.head).1
    omega
  have hset (target : Value) :
      machine.self.set start target = (machine.self.take start ++ [target]) ++ values := by
    conv => lhs; rw [hself]
    rw [List.set_append_right _ _ (by rw [List.length_take]; omega), List.length_take,
      Nat.min_eq_left hlength, Nat.sub_self, List.append_assoc]
    rfl
  have hfront (target : Value) : (machine.self.take start ++ [target]).length = start + 1 := by
    rw [List.length_append, List.length_take, Nat.min_eq_left hlength]
    rfl
  rw [bind_apply, overwriting_apply _ hvalues.head]
  conv => rhs; unfold overwritingFrom
  rw [show machine.self.drop start = value :: values from hvalues]
  unfold overwriteFields
  dsimp only
  generalize field.overwrite set value machine.buffer machine.cursor = result
  obtain ⟨target, cursor, outcome⟩ := result
  cases outcome with
  | error failure =>
    dsimp only
    rw [hset, List.append_assoc]
    rfl
  | ok _ =>
    dsimp only
    unfold overwritingFrom
    dsimp only
    rw [hset, List.drop_left' (hfront target), List.take_left' (hfront target), List.append_assoc]
    rfl

/-! ## 3. Statements about all fields -/

/-- The codecs of the fields. -/
abbrev codecsOf (types : Types) (fields : List Field) : List FieldCodec :=
  fields.map (Field.codec types)

namespace Dialect.Sound

variable {dialect : Dialect} {admits : Shape → Prop}

/-- The fields are written one after the other. -/
theorem does_writingAll (h : dialect.Sound admits) (himports : scope.imports = dialect.imports)
    (hself : scope.receiver.isSome = true) (htransfers : scope.Transfers true)
    (hplaced : Placed scope start fields)
    (hadmits : ∀ field ∈ fields, field.presence ≠ .skipped → admits field.shape)
    (htakes : List.Forall₂ Field.Takes fields values) :
    Does scope ((fields.map Field.toMember).flatMap dialect.writeStatements) scope
      (HoldsFrom start values) (writing (writeFields (codecsOf scope.types fields) values)) := by
  induction htakes generalizing start with
  | nil => exact .congr .nil fun _ _ => rfl
  | @cons field value fields values hvalue htakes ih =>
    rw [List.forall_mem_cons] at hadmits
    have hfirst := h.does_writing himports hself htransfers hplaced.1 hadmits.1 hvalue
    have hrest := ih hplaced.2 hadmits.2
    rw [List.map_cons, List.flatMap_cons]
    refine .congr (.append (hfirst.weaken fun _ => HoldsFrom.head) ?_ hrest) fun machine _ =>
      writing_append _ _ machine
    exact fun machine hvalues after hafter => hvalues.tail.of_self (writing_keeps hafter).1

/-- The sizes of the fields are added up. -/
theorem does_sizingAll (h : dialect.Sound admits) (himports : scope.imports = dialect.imports)
    (hself : scope.receiver.isSome = true)
    (htotal : scope.locals.lookup "size" = some (true, .size)) (hplaced : Placed scope start fields)
    (htakes : List.Forall₂ Field.Takes fields values) :
    Does scope ((fields.map Field.toMember).flatMap dialect.sizeStatements) scope
      (fun machine => HoldsFrom start values machine ∧ ∃ total, Counts machine total)
      (adding (fieldsSize (codecsOf scope.types fields) values)) := by
  induction htakes generalizing start with
  | nil =>
    refine .congr .nil ?_
    rintro machine ⟨-, total, htotal⟩
    exact (adding_zero htotal).symm
  | @cons field value fields values hvalue htakes ih =>
    have hfirst := h.does_sizing himports hself htotal hplaced.1 hvalue
    rw [List.map_cons, List.flatMap_cons]
    refine .congr (.append (hfirst.weaken fun _ hon => ⟨hon.1.head, hon.2⟩) ?_ (ih hplaced.2)) ?_
    · rintro machine ⟨hvalues, total, htotal⟩ after hafter
      obtain ⟨hsame, hcounts⟩ := adding_keeps htotal hafter
      exact ⟨hvalues.tail.of_self hsame, _, hcounts⟩
    · rintro machine ⟨-, total, htotal⟩
      exact adding_adding _ _ htotal

/-- The bits of the nullable fields are given. -/
theorem does_markingAll (h : dialect.Sound admits) (hself : scope.receiver.isSome = true)
    (hplaced : Placed scope start fields)
    (hbitset : ∀ field ∈ fields, field.isNullable →
      ∃ bytes, scope.locals.lookup "bitset" = some (true, .bitset bytes))
    (hslots : ∀ field ∈ fields, ∀ slot, field.presence = .nullable slot → slot ≤ Derive.maxSlot)
    (hlength : fields.length = values.length) :
    Does scope ((fields.map Field.toMember).flatMap dialect.markStatements) scope
      (fun machine => HoldsFrom start values machine ∧ ∃ bytes set, HasBitset machine bytes set)
      (marking (fieldsMarks (codecsOf scope.types fields) values)) := by
  induction fields generalizing start values with
  | nil => exact .congr .nil fun _ _ => rfl
  | cons field fields ih =>
    cases values with
    | nil => cases hlength
    | cons value values =>
      rw [List.forall_mem_cons] at hbitset hslots
      have hfirst := h.does_marking hself hplaced.1 hbitset.1 hslots.1 value
      have hrest := ih hplaced.2 hbitset.2 hslots.2 (Nat.succ.inj hlength)
      rw [List.map_cons, List.flatMap_cons]
      refine .congr (.append (hfirst.weaken fun _ hon => ⟨hon.1.head, hon.2⟩) ?_ hrest) ?_
      · rintro machine ⟨hvalues, bytes, set, hset⟩ after hafter
        obtain ⟨hsame, set', hset'⟩ := marking_keeps hset hafter
        exact ⟨hvalues.tail.of_self hsame, bytes, set', hset'⟩
      · exact fun machine _ => (congrFun (marking_append _ _) machine).symm

/-- The fields are read over one after the other. -/
theorem does_overwritingAll (h : dialect.Sound admits) (himports : scope.imports = dialect.imports)
    (hself : scope.receiver = some true) (htransfers : scope.Transfers false)
    (hplaced : Placed scope start fields) {bytes : Nat}
    (hbitset : ∀ field ∈ fields, field.isNullable →
      scope.locals.lookup "bitset" = some (false, .bitset bytes))
    (hslots : ∀ field ∈ fields, ∀ slot, field.presence = .nullable slot → slot ≤ Derive.maxSlot)
    (set : NullBitset bytes) :
    Does scope ((fields.map Field.toMember).flatMap dialect.overwriteStatements) scope
      (fun machine => machine.self.length = start + fields.length ∧
        ((∃ field ∈ fields, field.isNullable) → HasBitset machine bytes set))
      (overwritingFrom start (overwriteFields set (codecsOf scope.types fields))) := by
  induction fields generalizing start with
  | nil =>
    refine .congr .nil ?_
    rintro machine ⟨hlength, -⟩
    have hlength : machine.self.length = start := hlength
    subst hlength
    unfold overwritingFrom
    rw [List.drop_length, List.take_length]
    simp [overwriteFields]
    rfl
  | cons field fields ih =>
    rw [List.forall_mem_cons] at hbitset hslots
    have hfirst := h.does_overwriting himports hself htransfers hplaced.1 hbitset.1 hslots.1 set
    have hrest := ih hplaced.2 hbitset.2 hslots.2
    rw [List.map_cons, List.flatMap_cons]
    refine .congr (.append (hfirst.weaken ?_) ?_ hrest) ?_
    · rintro machine ⟨hlength, hset⟩
      obtain ⟨value, values, hvalues⟩ := exists_holdsFrom hlength
      exact ⟨⟨value, hvalues.head⟩, fun hnullable => hset ⟨field, List.mem_cons_self, hnullable⟩⟩
    · rintro machine ⟨hlength, hset⟩ after hafter
      obtain ⟨value, values, hvalues⟩ := exists_holdsFrom hlength
      obtain ⟨hsame, hlocals⟩ := overwriting_keeps hvalues.head hafter
      rw [List.length_cons] at hlength
      refine ⟨by omega, fun ⟨other, hother, hnullable⟩ => ?_⟩
      unfold HasBitset
      rw [hlocals]
      exact hset ⟨other, List.mem_cons_of_mem _ hother, hnullable⟩
    · rintro machine ⟨hlength, -⟩
      obtain ⟨value, values, hvalues⟩ := exists_holdsFrom hlength
      exact overwritingFrom_cons set _ _ hvalues

end Dialect.Sound

/-! ## 4. Bodies -/

/-- A run that does what a writer does, whatever variables it leaves, is that writer. -/
theorem toWriter_eq {run : Run Datum} {writer : Writer}
    (h : ∀ out : Output, ∃ locals, run ⟨values, out.buffer, out.cursor, []⟩ =
      (do writing writer; pure .unit : Run Datum) ⟨values, out.buffer, out.cursor, locals⟩) :
    run.toWriter values = writer := by
  funext out
  obtain ⟨locals, hrun⟩ := h out
  unfold Run.toWriter
  rw [hrun, bind_apply]
  unfold writing
  cases hout : writer out <;> rfl

/-- The run reads over the structure, whatever variables there are. -/
theorem toOverwriter_eq {run : Run Datum} {overwriter : Overwriter (List Value)}
    {locals : List (String × Datum)} {target : List Value} {buffer : Buffer} {cursor cursor' : Nat}
    (h : run ⟨target, buffer, cursor, []⟩ =
      (do overwritingFrom 0 overwriter; pure .unit : Run Datum) ⟨target, buffer, cursor', locals⟩) :
    run.toOverwriter target buffer cursor = overwriter target buffer cursor' := by
  unfold Run.toOverwriter
  rw [h, bind_apply]
  unfold overwritingFrom
  rw [List.drop_zero, List.take_zero]
  dsimp only
  generalize overwriter target buffer cursor' = result
  obtain ⟨target, cursor, outcome⟩ := result
  cases outcome <;> rfl

/-- Without a bitset no field is nullable. -/
theorem isNullable_of_zero {fields : List FieldCodec} (h : fieldsBitsetBytes fields = 0) :
    ∀ field ∈ fields, field.isNullable = false := by
  unfold fieldsBitsetBytes bitsetSize at h
  have hcount : (fields.filter FieldCodec.isNullable).length = 0 := by omega
  intro field hfield
  have hempty := List.filter_eq_nil_iff.mp (List.length_eq_zero_iff.mp hcount) field hfield
  exact Bool.eq_false_iff.mpr hempty

theorem not_isNullable_of_zero {types : Types} (h : fieldsBitsetBytes (codecsOf types fields) = 0) :
    ∀ field ∈ fields, ¬field.isNullable = true := by
  intro field hfield hnullable
  have hcodec := isNullable_of_zero h (field.codec types) (List.mem_map_of_mem hfield)
  exact Bool.false_ne_true (hcodec.symm.trans hnullable)

/-- Where no field is nullable there are no bits. -/
theorem fieldsMarks_eq_nil {fields : List FieldCodec}
    (h : ∀ field ∈ fields, field.isNullable = false) (values : List Value) :
    fieldsMarks fields values = [] := by
  induction fields generalizing values with
  | nil => rfl
  | cons field fields ih =>
    cases values with
    | nil => rfl
    | cons value values =>
      rw [List.forall_mem_cons] at h
      obtain ⟨presence, codec, initial⟩ := field
      rw [fieldsMarks, ih h.2]
      cases presence with
      | nullable slot => cases h.1
      | always | skipped => rfl

/-- The fields' values, of which there are some. -/
theorem exists_takes (fields : List Field) : ∃ values, List.Forall₂ Field.Takes fields values := by
  refine ⟨fields.map fun _ => .null, ?_⟩
  induction fields with
  | nil => exact .nil
  | cons field fields ih =>
    refine .cons ?_ ih
    unfold Field.Takes
    split
    · exact .inl rfl
    · exact trivial

/-- A run behind the effect of statements that end nothing. -/
def behind (effect : Run (Option Datum)) (run : Run Datum) : Run Datum := do
  match ← effect with
  | some datum => pure datum
  | none => run

theorem behind_performing {run : Run Unit} {effect : Run (Option Datum)}
    (h : effect machine = performing run machine) (result : Run Datum) :
    behind effect result machine = (do run; result : Run Datum) machine := by
  unfold behind
  rw [bind_apply, bind_apply, h, performing, bind_apply]
  cases run machine <;> rfl

theorem behind_none {effect : Run (Option Datum)} (h : effect machine = .ok none after)
    (result : Run Datum) : behind effect result machine = result after := by
  unfold behind
  rw [bind_apply, h]

theorem behind_some {effect : Run (Option Datum)} {datum : Datum}
    (h : effect machine = .ok (some datum) after) (result : Run Datum) :
    behind effect result machine = .ok datum after := by
  unfold behind
  rw [bind_apply, h]
  rfl

theorem behind_andThen_ok {run : Run Unit} (h : run machine = .ok () after)
    (effect : Run (Option Datum)) (result : Run Datum) :
    behind (andThen (performing run) effect) result machine = behind effect result after := by
  unfold behind
  rw [bind_apply, bind_apply, andThen_none (performing_ok h)]

theorem behind_andThen_error {run : Run Unit} {failure : Failure}
    (h : run machine = .error failure after) (effect : Run (Option Datum)) (result : Run Datum) :
    behind (andThen (performing run) effect) result machine = .error failure after := by
  unfold behind andThen performing
  rw [bind_apply, bind_apply, bind_apply, h]

theorem meaning_body {scope' : Scope} {statements : List Statement} {effect : Run (Option Datum)}
    {result : Expr} {run : Run Datum}
    (hstatements : Statement.meanings scope statements = some ⟨scope', effect⟩)
    (hresult : result.meaning scope' (some scope.returns) = some ⟨scope.returns, run⟩) :
    Body.meaning scope ⟨statements, result⟩ = some (behind effect run) := by
  rw [Body.meaning, hstatements]
  dsimp only [Option.bind_eq_bind, Option.bind_some]
  rw [hresult]
  exact if_pos rfl

/-- The parts of a body that has a meaning have one. -/
theorem exists_of_meaning {statements : List Statement} {result : Expr} {run : Run Datum}
    (h : Body.meaning scope ⟨statements, result⟩ = some run) :
    ∃ scope' effect found, Statement.meanings scope statements = some ⟨scope', effect⟩ ∧
      result.meaning scope' (some scope.returns) = some ⟨scope.returns, found⟩ ∧
      run = behind effect found := by
  rw [Body.meaning] at h
  obtain ⟨⟨scope', effect⟩, hstatements, h⟩ := Option.bind_eq_some_iff.mp h
  obtain ⟨⟨ty, found⟩, hresult, h⟩ := Option.bind_eq_some_iff.mp h
  split at h
  · next hty =>
    cases hty
    cases h
    exact ⟨scope', effect, found, hstatements, hresult, rfl⟩
  · cases h

namespace Dialect.Sound

variable {dialect : Dialect} {admits : Shape → Prop}

theorem meaning_success (h : dialect.Sound admits) (himports : scope.imports = dialect.imports)
    {value : Expr} {ty : Ty} {run : Run Datum}
    (hvalue : value.meaning scope (some ty) = some ⟨ty, run⟩) :
    (success value).meaning scope (some (.result ty)) = some ⟨.result ty, run⟩ := by
  have hfunction : scope.function? (.plain false ["Ok"]) = some .ok := by
    rw [Scope.function?, h.expand himports (by decide)]
    rfl
  have harguments : Expr.meanings scope (Function.ok.hint (some (.result ty))) [value] =
      some [⟨ty, run⟩] := exprs_cons hvalue exprs_nil
  exact meaning_call _ hfunction harguments

/-- The bitset of the nullable fields is bound. -/
theorem does_binding (h : dialect.Sound admits) (himports : scope.imports = dialect.imports)
    (bytes : Nat) (on : Machine → Prop) :
    Does scope [.bind true "bitset" none (.call (dialect.bitset bytes "new") [])]
      (scope.withLocal "bitset" true (.bitset bytes)) on
      (bindLocal "bitset" (.bitset bytes .empty)) := by
  have hnew : (Expr.call (dialect.bitset bytes "new") []).meaning scope none =
      some ⟨.bitset bytes, pure (.bitset bytes .empty)⟩ :=
    meaning_call none (h.bitset himports bytes).1 exprs_nil
  have hbind : (Statement.bind true "bitset" none (.call (dialect.bitset bytes "new") [])).meaning
      scope = some ⟨scope.withLocal "bitset" true (.bitset bytes),
        performing do bindLocal "bitset" (← (pure (.bitset bytes .empty) : Run Datum))⟩ := by
    rw [Statement.meaning, Option.bind_none, hnew]
    rfl
  exact .of_meaning hbind fun _ _ => rfl

/-- The bitset at hand is written. -/
theorem does_bitsetWriting {bytes : Nat} (htransfers : scope.Transfers true)
    (hbitset : scope.locals.lookup "bitset" = some (true, .bitset bytes)) (on : Machine → Prop) :
    Does scope [.perform (.attempt (.method (.var "bitset") "write" buffers))] scope on
      writingBitset := by
  have hvar : (Expr.var "bitset").meaning scope none =
      some ⟨.bitset bytes, fetch (.var "bitset")⟩ := by
    rw [Expr.meaning, hbitset]
    rfl
  have hwrite (hint : Option Ty) := meaning_method hint hvar
    (show methods.lookup "write" = some .writeBitset from rfl)
    (meanings_buffers htransfers (some .slot))
  refine .of_meaning (meaning_perform (meaning_attempt htransfers.fails hwrite none))
    fun machine _ => ?_
  rw [← performing_unit, writingBitset, bind_assoc]

/-- The bits are given, and the bitset is written. -/
theorem does_bitset (h : dialect.Sound admits) (hself : scope.receiver.isSome = true)
    (htransfers : scope.Transfers true) (hplaced : Placed scope start fields) {bytes : Nat}
    (hbitset : scope.locals.lookup "bitset" = some (true, .bitset bytes))
    (hslots : ∀ field ∈ fields, ∀ slot, field.presence = .nullable slot → slot ≤ Derive.maxSlot)
    (hlength : fields.length = values.length) :
    Does scope ((fields.map Field.toMember).flatMap dialect.markStatements
        ++ [.perform (.attempt (.method (.var "bitset") "write" buffers))]) scope
      (fun machine => HoldsFrom start values machine ∧ ∃ bytes set, HasBitset machine bytes set)
      (do marking (fieldsMarks (codecsOf scope.types fields) values); writingBitset) :=
  .append (h.does_markingAll hself hplaced (fun _ _ _ => ⟨bytes, hbitset⟩) hslots hlength)
    (fun _ _ _ _ => trivial) (does_bitsetWriting htransfers hbitset fun _ => True)

/-- The bitset and the fields are written. -/
theorem does_writingRecord (h : dialect.Sound admits) (himports : scope.imports = dialect.imports)
    (hself : scope.receiver.isSome = true) (htransfers : scope.Transfers true)
    (hplaced : Placed scope start fields)
    (hadmits : ∀ field ∈ fields, field.presence ≠ .skipped → admits field.shape)
    (hslots : ∀ field ∈ fields, ∀ slot, field.presence = .nullable slot → slot ≤ Derive.maxSlot)
    {bytes : Nat} (hbytes : bytes ≠ 0) (htakes : List.Forall₂ Field.Takes fields values) :
    Does scope (dialect.writingAll bytes (fields.map Field.toMember))
      (scope.withLocal "bitset" true (.bitset bytes)) (HoldsFrom start values)
      (do writingBits bytes (fieldsMarks (codecsOf scope.types fields) values)
          writing (writeFields (codecsOf scope.types fields) values)) := by
  have hinner : (scope.withLocal "bitset" true (.bitset bytes)).Transfers true :=
    ⟨htransfers.buffer, htransfers.cursor, htransfers.fails⟩
  have hplaced' : Placed (scope.withLocal "bitset" true (.bitset bytes)) start fields :=
    hplaced.of_members rfl
  have hbitset := (h.does_binding himports bytes (HoldsFrom start values)).append
    (fun machine hvalues after hafter => ?_)
    (does_bitset h hself hinner hplaced' rfl hslots htakes.length_eq)
  · unfold writingAll bitsetWriting
    rw [if_neg hbytes]
    refine .append hbitset (fun machine hvalues after hafter => ?_)
      (does_writingAll h himports hself hinner hplaced' hadmits htakes)
    obtain ⟨set, hbits⟩ := writingBits_apply bytes
      (fieldsMarks (codecsOf scope.types fields) values) machine
    exact hvalues.of_self (writing_keeps (hbits.symm.trans hafter)).1
  · cases hafter
    exact ⟨hvalues, bytes, .empty, rfl⟩

/-- **A body that writes the bitset and the fields writes the record of the fields.** -/
theorem meaning_writingAll (h : dialect.Sound admits) (himports : scope.imports = dialect.imports)
    (hself : scope.receiver.isSome = true) (htransfers : scope.Transfers true)
    (hreturns : scope.returns = .result .unit) (hplaced : Placed scope 0 fields)
    (hadmits : ∀ field ∈ fields, field.presence ≠ .skipped → admits field.shape)
    (hslots : ∀ field ∈ fields, ∀ slot, field.presence = .nullable slot → slot ≤ Derive.maxSlot)
    {bytes : Nat} (hbytes : fieldsBitsetBytes (codecsOf scope.types fields) = bytes) :
    ∃ run, Body.meaning scope
        ⟨dialect.writingAll bytes (fields.map Field.toMember), success .unit⟩ = some run ∧
      ∀ values, List.Forall₂ Field.Takes fields values →
        run.toWriter values = (Codec.record (codecsOf scope.types fields)).write values := by
  have hsuccess (scope' : Scope) (himports' : scope'.imports = dialect.imports) :
      (success .unit).meaning scope' (some scope.returns) = some ⟨scope.returns, pure .unit⟩ := by
    rw [hreturns]
    exact h.meaning_success himports' (meaning_unit _ _)
  have hrecord (values : List Value) :
      (Codec.record (codecsOf scope.types fields)).write values = (do
        writeMarks bytes (fieldsMarks (codecsOf scope.types fields) values)
        writeFields (codecsOf scope.types fields) values : Writer) := by
    rw [← hbytes]
    rfl
  by_cases hzero : bytes = 0
  · obtain ⟨effect, hmeaning, heffect⟩ := Does.uniform (exists_takes fields) fun values htakes =>
      h.does_writingAll himports hself htransfers hplaced hadmits htakes
    have hstatements : dialect.writingAll bytes (fields.map Field.toMember) =
        (fields.map Field.toMember).flatMap dialect.writeStatements := by
      rw [writingAll, bitsetWriting, if_pos hzero, List.nil_append]
    rw [hstatements]
    refine ⟨_, meaning_body hmeaning (hsuccess scope himports), fun values htakes => ?_⟩
    refine toWriter_eq fun out => ⟨[], ?_⟩
    have hvalues : HoldsFrom 0 values ⟨values, out.buffer, out.cursor, []⟩ := rfl
    rw [behind_performing (heffect values htakes _ hvalues), hrecord, hzero,
      fieldsMarks_eq_nil (isNullable_of_zero (hbytes.trans hzero))]
    rfl
  · obtain ⟨effect, hmeaning, heffect⟩ := Does.uniform (exists_takes fields) fun values htakes =>
      h.does_writingRecord himports hself htransfers hplaced hadmits hslots hzero htakes
    refine ⟨_, meaning_body hmeaning (hsuccess _ himports), fun values htakes => ?_⟩
    refine toWriter_eq fun out => ?_
    have hvalues : HoldsFrom 0 values ⟨values, out.buffer, out.cursor, []⟩ := rfl
    obtain ⟨set, hbits⟩ := writingBits_apply bytes
      (fieldsMarks (codecsOf scope.types fields) values) ⟨values, out.buffer, out.cursor, []⟩
    refine ⟨[("bitset", .bitset bytes set)], ?_⟩
    rw [behind_performing (heffect values htakes _ hvalues), hrecord]
    refine bind_congr_left ?_ _
    rw [← writing_append]
    exact bind_congr_left hbits _

/-- The bitset is read and bound. -/
theorem meaning_bitsetReading (h : dialect.Sound admits) (himports : scope.imports = dialect.imports)
    (htransfers : scope.Transfers false) (bytes : Nat) :
    (Statement.bind false "bitset" none
        (.attempt (.call (dialect.bitset bytes "read") buffers))).meaning scope =
      some ⟨scope.withLocal "bitset" false (.bitset bytes), performing (readingBitset bytes)⟩ := by
  have hread (hint : Option Ty) := meaning_call hint (h.bitset himports bytes).2
    (meanings_buffers htransfers ((Function.readBitset bytes).hint hint))
  have hattempt := meaning_attempt htransfers.fails hread none
  rw [Statement.meaning, Option.bind_none, hattempt]
  simp only [Option.bind_eq_bind, Option.bind_some, bind_assoc, pure_bind]
  rfl

/-- Behind the bitset the fields are read over, whatever bits it has. -/
theorem meanings_overwriteStatements (h : dialect.Sound admits)
    (himports : scope.imports = dialect.imports) (hself : scope.receiver = some true)
    (htransfers : scope.Transfers false) (hplaced : Placed scope 0 fields)
    (hslots : ∀ field ∈ fields, ∀ slot, field.presence = .nullable slot → slot ≤ Derive.maxSlot)
    {bytes : Nat} (hbitset : scope.locals.lookup "bitset" = some (false, .bitset bytes)) :
    ∃ effect, Statement.meanings scope
        ((fields.map Field.toMember).flatMap dialect.overwriteStatements) = some ⟨scope, effect⟩ ∧
      ∀ (set : NullBitset bytes) machine, machine.self.length = fields.length →
        HasBitset machine bytes set → effect machine =
          performing (overwritingFrom 0 (overwriteFields set (codecsOf scope.types fields)))
            machine := by
  obtain ⟨effect, hmeaning, heffect⟩ := Does.uniform (exists_true_iff_nonempty.mpr ⟨.empty⟩)
    fun set _ => h.does_overwritingAll himports hself htransfers hplaced (fun _ _ _ => hbitset)
      hslots set
  refine ⟨effect, hmeaning, fun set machine hlength hset => ?_⟩
  exact heffect set trivial machine ⟨by rw [Nat.zero_add]; exact hlength, fun _ => hset⟩

/-- **A body that reads the bitset and reads over the fields reads over the record of the fields.** -/
theorem meaning_overwritingAll (h : dialect.Sound admits) (himports : scope.imports = dialect.imports)
    (hself : scope.receiver = some true) (htransfers : scope.Transfers false)
    (hreturns : scope.returns = .result .unit) (hplaced : Placed scope 0 fields)
    (hslots : ∀ field ∈ fields, ∀ slot, field.presence = .nullable slot → slot ≤ Derive.maxSlot)
    {bytes : Nat} (hbytes : fieldsBitsetBytes (codecsOf scope.types fields) = bytes) :
    ∃ run, Body.meaning scope
        ⟨dialect.overwritingAll bytes (fields.map Field.toMember), success .unit⟩ = some run ∧
      ∀ target, fields.length = target.length →
        run.toOverwriter target = (Codec.record (codecsOf scope.types fields)).overwrite target := by
  have hsuccess (scope' : Scope) (himports' : scope'.imports = dialect.imports) :
      (success .unit).meaning scope' (some scope.returns) = some ⟨scope.returns, pure .unit⟩ := by
    rw [hreturns]
    exact h.meaning_success himports' (meaning_unit _ _)
  have hrecord (target : List Value) (buffer : Buffer) (cursor : Nat) :
      (Codec.record (codecsOf scope.types fields)).overwrite target buffer cursor =
        Overwritten.after (NullBitset.read : Reader (NullBitset (fieldsBitsetBytes
          (codecsOf scope.types fields)))) target buffer cursor fun set cursor =>
            overwriteFields set (codecsOf scope.types fields) target buffer cursor := rfl
  subst hbytes
  by_cases hzero : fieldsBitsetBytes (codecsOf scope.types fields) = 0
  · have hnone := not_isNullable_of_zero hzero
    have hread : (NullBitset.read : Reader (NullBitset (fieldsBitsetBytes
        (codecsOf scope.types fields)))) = pure .empty := if_pos hzero
    have hstatements : dialect.overwritingAll (fieldsBitsetBytes (codecsOf scope.types fields))
        (fields.map Field.toMember) =
        (fields.map Field.toMember).flatMap dialect.overwriteStatements := by
      rw [overwritingAll, bitsetReading, if_pos hzero, List.nil_append]
    obtain ⟨effect, hmeaning, heffect⟩ := h.does_overwritingAll himports hself htransfers hplaced
      (fun field hfield hnullable => absurd hnullable (hnone field hfield)) hslots .empty
    rw [hstatements]
    refine ⟨_, meaning_body hmeaning (hsuccess scope himports), fun target hlength => ?_⟩
    funext buffer cursor
    have hon := heffect ⟨target, buffer, cursor, []⟩ ⟨by rw [Nat.zero_add]; exact hlength.symm,
      fun ⟨field, hfield, hnullable⟩ => absurd hnullable (hnone field hfield)⟩
    rw [toOverwriter_eq (behind_performing hon _), hrecord, hread]
    rfl
  · have hinner : (scope.withLocal "bitset" false
        (.bitset (fieldsBitsetBytes (codecsOf scope.types fields)))).Transfers false :=
      ⟨htransfers.buffer, htransfers.cursor, htransfers.fails⟩
    obtain ⟨effect, hmeaning, heffect⟩ := h.meanings_overwriteStatements
      (show (scope.withLocal "bitset" false _).imports = _ from himports) hself hinner
      (hplaced.of_members rfl) hslots rfl
    have hstatements := meanings_cons (h.meaning_bitsetReading himports htransfers
      (fieldsBitsetBytes (codecsOf scope.types fields)))
      ((fields.map Field.toMember).flatMap dialect.overwriteStatements)
    rw [hmeaning] at hstatements
    unfold overwritingAll bitsetReading
    rw [if_neg hzero]
    refine ⟨_, meaning_body hstatements (hsuccess _ himports), fun target hlength => ?_⟩
    funext buffer cursor
    have hbits := readingBitset_apply (fieldsBitsetBytes (codecsOf scope.types fields))
      ⟨target, buffer, cursor, []⟩
    rw [hrecord, Overwritten.after]
    cases hread : (NullBitset.read : Reader (NullBitset (fieldsBitsetBytes
        (codecsOf scope.types fields)))) buffer cursor with
    | error failure cursor' =>
      rw [hread] at hbits
      rw [Run.toOverwriter, behind_andThen_error hbits]
    | ok set cursor' =>
      rw [hread] at hbits
      have hset : HasBitset ⟨target, buffer, cursor', [("bitset", .bitset _ set)]⟩ _ set := rfl
      have hrun := behind_performing (heffect set _ hlength.symm hset) (pure .unit)
      exact toOverwriter_eq ((behind_andThen_ok hbits _ _).trans hrun)

end Dialect.Sound

end Wireform.Source
