import Mathlib.Algebra.Order.BigOperators.Group.List
import Mathlib.Logic.Relation
import Wireform.Proofs.Analysis

/-!
# What is known of declarations

`KnownTypes.ofDecls` takes declarations in whose names types may have and are all different
(`ofDecls_eq_ok_iff`), and remembers every one under its name: since it refuses a name that is in use
already, nothing is hidden behind an earlier entry (`Describes.get?_eq_some_iff`).

`KnownTypes.reaches` finds exactly the names to which edges lead (`reaches_eq_true_iff`).  What it
finds is there because it only follows edges.  What is there is found because the names that it has
taken up are *exhausted*: no edge leads from them to the goal, and every other edge from them leads
to a name that was taken up or is about to be.  When nothing is left to take up, no path leads out of
the names that were.  There are enough steps, since the edges of a name are followed once: every step
uses up the name it takes, and what it adds are fields of a name that was not taken up before
(`fieldsLeft`).
-/
namespace Wireform.Schema

/-! ## 1. Names -/

/-- A name passes the check exactly if it is an identifier. -/
theorem checkName_eq_ok_iff {name : String} : checkName name = .ok () ↔ isIdentifier name = true := by
  unfold checkName
  split
  · next h => exact iff_of_true rfl h
  · next h => exact iff_of_false (fun heq => by cases heq) h

/-- An identifier starts with a letter or an underscore, and goes on with characters of words. -/
theorem exists_of_isIdentifier {name : String} (h : isIdentifier name = true) :
    ∃ c rest, name.toList = c :: rest ∧ isIdentStart c = true ∧ ∀ d ∈ rest, isIdentChar d = true := by
  unfold isIdentifier at h
  split at h
  · cases h
  · next c rest htoList =>
    rw [Bool.and_eq_true, List.all_eq_true] at h
    exact ⟨c, rest, htoList, h⟩

theorem isIdentifier_of_toList {name : String} {c : Char} {rest : List Char}
    (h : name.toList = c :: rest) (hstart : Schema.isIdentStart c = true)
    (hrest : ∀ d ∈ rest, isIdentChar d = true) : isIdentifier name = true := by
  unfold isIdentifier
  rw [h]
  exact Bool.and_eq_true_iff.mpr ⟨hstart, List.all_eq_true.mpr hrest⟩

/-- A character that starts an identifier is part of one, and no digit. -/
theorem isIdentChar_of_isIdentStart {c : Char} (h : isIdentStart c = true) :
    isIdentChar c = true ∧ c.isDigit = false := by
  unfold isIdentStart at h
  unfold isIdentChar Char.isAlphanum
  rw [Bool.or_eq_true] at h
  rcases h with h | h
  · refine ⟨by simp [h], ?_⟩
    unfold Char.isAlpha Char.isUpper Char.isLower at h
    simp [UInt32.le_iff_toNat_le] at h
    simp [Char.isDigit, UInt32.le_iff_toNat_le]
    omega
  · rw [beq_iff_eq] at h
    subst h
    decide

/-- The characters of identifiers lie between the digit `0` and the letter `z`. -/
theorem toNat_of_isIdentChar {c : Char} (h : isIdentChar c = true) :
    48 ≤ c.toNat ∧ c.toNat ≤ 122 := by
  have hval : c.toNat = c.val.toNat := rfl
  unfold isIdentChar at h
  rw [Bool.or_eq_true] at h
  rcases h with h | h
  · unfold Char.isAlphanum Char.isAlpha Char.isUpper Char.isLower Char.isDigit at h
    simp [UInt32.le_iff_toNat_le] at h
    omega
  · rw [beq_iff_eq] at h
    subst h
    decide

/-- A name that a declared type may have. -/
structure IsTypeName (name : String) : Prop where
  identifier : isIdentifier name = true
  notReserved : name ∉ reservedTypeNames
  notPrimitive : Primitive.ofName? name = none

namespace KnownTypes

/-- **A declaration is taken in exactly if** a type may have its name and none has it so far. -/
theorem insert_eq_ok_iff {known next : KnownTypes} {decl : TypeDecl} :
    known.insert decl = .ok next ↔ IsTypeName decl.name ∧ known.get? decl.name = none ∧
      next = ⟨known.entries ++ [(decl.name, entryOf decl)]⟩ := by
  constructor
  · intro h
    obtain ⟨_, hname, h⟩ := bind_eq_ok h
    dsimp only at h
    split at h
    · cases h
    · next hreserved =>
      split at h
      · cases h
      · next hused =>
        cases h
        rw [Bool.or_eq_true, not_or, Bool.not_eq_true, Bool.not_eq_true, Option.isSome_eq_false_iff,
          Option.isSome_eq_false_iff, Option.isNone_iff_eq_none, Option.isNone_iff_eq_none] at hused
        exact ⟨⟨checkName_eq_ok_iff.mp hname, fun hmem => hreserved (List.contains_iff_mem.mpr hmem),
          hused.1⟩, hused.2, rfl⟩
  · rintro ⟨⟨hidentifier, hreserved, hprimitive⟩, hnew, rfl⟩
    have hname := checkName_eq_ok_iff.mpr hidentifier
    simp [insert, hname, hreserved, hprimitive, hnew, bind, Except.bind, pure, Except.pure]

/-- Declarations are taken in one after the other exactly if types may have their names, and the
names are new and differ. -/
theorem foldlM_insert_eq_ok_iff {known last : KnownTypes} {decls : List TypeDecl} :
    decls.foldlM insert known = .ok last ↔
      (∀ decl ∈ decls, IsTypeName decl.name ∧ known.get? decl.name = none) ∧
        (decls.map TypeDecl.name).Nodup ∧
          last = ⟨known.entries ++ decls.map fun decl => (decl.name, entryOf decl)⟩ := by
  induction decls generalizing known with
  | nil => simp [pure, Except.pure, eq_comm]
  | cons decl decls ih =>
    have hget : ∀ name, get? ⟨known.entries ++ [(decl.name, entryOf decl)]⟩ name = none ↔
        known.get? name = none ∧ name ≠ decl.name := by
      intro name
      have happend : get? ⟨known.entries ++ [(decl.name, entryOf decl)]⟩ name =
          (known.get? name).or ([(decl.name, entryOf decl)].lookup name) := List.lookup_append
      rw [happend, Option.or_eq_none_iff, List.lookup_eq_none_iff]
      simp
    rw [List.foldlM_cons, List.map_cons, List.nodup_cons, List.forall_mem_cons]
    constructor
    · intro h
      obtain ⟨next, hnext, hrest⟩ := bind_eq_ok h
      obtain ⟨hname, hnew, rfl⟩ := insert_eq_ok_iff.mp hnext
      obtain ⟨hnames, hnodup, rfl⟩ := ih.mp hrest
      refine ⟨⟨⟨hname, hnew⟩, fun other hother => ?_⟩, ⟨fun hmem => ?_, hnodup⟩, by simp⟩
      · exact ⟨(hnames other hother).1, ((hget _).mp (hnames other hother).2).1⟩
      · obtain ⟨other, hother, heq⟩ := List.mem_map.mp hmem
        exact ((hget _).mp (hnames other hother).2).2 heq
    · rintro ⟨⟨⟨hname, hnew⟩, hnames⟩, ⟨hnotMem, hnodup⟩, rfl⟩
      have hrest : ∀ other ∈ decls, IsTypeName other.name ∧
          get? ⟨known.entries ++ [(decl.name, entryOf decl)]⟩ other.name = none := by
        intro other hother
        refine ⟨(hnames other hother).1, (hget _).mpr ⟨(hnames other hother).2, fun heq => ?_⟩⟩
        exact hnotMem (heq ▸ List.mem_map_of_mem hother)
      rw [insert_eq_ok_iff.mpr ⟨hname, hnew, rfl⟩]
      exact ih.mpr ⟨hrest, hnodup, by simp⟩

/-- **Declarations are collected exactly if types may have their names, and no two have one.** -/
theorem ofDecls_eq_ok_iff {decls : List TypeDecl} {known : KnownTypes} :
    ofDecls decls = .ok known ↔ (∀ decl ∈ decls, IsTypeName decl.name) ∧
      (decls.map TypeDecl.name).Nodup ∧
        known = ⟨decls.map fun decl => (decl.name, entryOf decl)⟩ := by
  unfold ofDecls
  rw [foldlM_insert_eq_ok_iff]
  simp [empty, get?]

theorem nodup_of_ofDecls {decls : List TypeDecl} {known : KnownTypes}
    (h : ofDecls decls = .ok known) : (decls.map TypeDecl.name).Nodup :=
  (ofDecls_eq_ok_iff.mp h).2.1

/-- A name that is looked up has an entry or none. -/
theorem mem_of_get?_eq_some {known : KnownTypes} {name : String} {entry : KnownType}
    (h : known.get? name = some entry) : (name, entry) ∈ known.entries := by
  obtain ⟨l₁, l₂, hentries, -⟩ := List.lookup_eq_some_iff.mp h
  rw [hentries]
  exact List.mem_append_right _ List.mem_cons_self

/-- Every entry is one of a declaration, and what is remembered of a declaration is found. -/
structure Describes (known : KnownTypes) (decls : List TypeDecl) : Prop where
  entries : known.entries = decls.map fun decl => (decl.name, entryOf decl)
  found : ∀ decl ∈ decls, known.get? decl.name = some (entryOf decl)

/-- What is collected describes the declarations. -/
theorem describes_of_ofDecls {decls : List TypeDecl} {known : KnownTypes}
    (h : ofDecls decls = .ok known) : known.Describes decls := by
  obtain ⟨-, hnodup, rfl⟩ := ofDecls_eq_ok_iff.mp h
  refine ⟨rfl, fun decl hdecl => ?_⟩
  obtain ⟨before, behind, rfl⟩ := List.append_of_mem hdecl
  rw [List.map_append, List.map_cons] at hnodup
  refine List.lookup_eq_some_iff.mpr
    ⟨before.map fun decl => (decl.name, entryOf decl), behind.map fun decl => (decl.name, entryOf decl),
      by simp, List.forall_mem_map.mpr fun other hother => ?_⟩
  rw [bne_iff_ne]
  exact ((List.nodup_append.mp hnodup).2.2 _ (List.mem_map_of_mem hother) _ List.mem_cons_self).symm

/-- **A name refers to the declaration that has it**, and to nothing if none has. -/
theorem Describes.get?_eq_some_iff {known : KnownTypes} {decls : List TypeDecl}
    (hknown : known.Describes decls) {name : String} {entry : KnownType} :
    known.get? name = some entry ↔ ∃ decl ∈ decls, decl.name = name ∧ entryOf decl = entry := by
  constructor
  · intro h
    have hmem := mem_of_get?_eq_some h
    rw [hknown.entries] at hmem
    obtain ⟨decl, hdecl, heq⟩ := List.mem_map.mp hmem
    cases heq
    exact ⟨decl, hdecl, rfl, rfl⟩
  · rintro ⟨decl, hdecl, rfl, rfl⟩
    exact hknown.found decl hdecl

/-- A name that refers to something is one that a declared type may have. -/
theorem isTypeName_of_ofDecls {decls : List TypeDecl} {known : KnownTypes}
    (h : ofDecls decls = .ok known) {name : String} {entry : KnownType}
    (hname : known.get? name = some entry) : IsTypeName name := by
  obtain ⟨decl, hdecl, rfl, -⟩ := (describes_of_ofDecls h).get?_eq_some_iff.mp hname
  exact (ofDecls_eq_ok_iff.mp h).1 decl hdecl

/-! ## 2. The search -/

/-- An edge leads from a declared name to another name. -/
def Edge (known : KnownTypes) (throughNull : Bool) (source target : String) : Prop :=
  target ∈ known.targets throughNull source

/-- One or more edges lead from a name to another. -/
def Leads (known : KnownTypes) (throughNull : Bool) : String → String → Prop :=
  Relation.TransGen (known.Edge throughNull)

variable {known : KnownTypes} {throughNull : Bool} {goal : String}

/-- **A search follows edges**: what it finds is there. -/
theorem leads_of_search {steps : Nat} {pending seen : List String}
    (h : known.search throughNull goal steps pending seen = true) :
    ∃ name ∈ pending, known.Leads throughNull name goal := by
  induction steps generalizing pending seen with
  | zero => cases h
  | succ steps ih =>
    cases pending with
    | nil => cases h
    | cons name pending =>
      rw [search] at h
      split at h
      · obtain ⟨found, hfound, hleads⟩ := ih h
        exact ⟨found, List.mem_cons_of_mem _ hfound, hleads⟩
      · dsimp only at h
        split at h
        · next hgoal =>
          exact ⟨name, List.mem_cons_self, .single (List.contains_iff_mem.mp hgoal)⟩
        · obtain ⟨found, hfound, hleads⟩ := ih h
          rcases List.mem_append.mp hfound with hnext | hpending
          · exact ⟨name, List.mem_cons_self, .head hnext hleads⟩
          · exact ⟨found, List.mem_cons_of_mem _ hpending, hleads⟩

/-- How many fields a type has. -/
def fieldsOf : KnownType → Nat
  | .struct fields => fields.length
  | .enum _ => 0

/-- How many fields a type has if it was not taken up. -/
def fieldsLeftOf (seen : List String) (entry : String × KnownType) : Nat :=
  if entry.1 ∈ seen then 0 else fieldsOf entry.2

/-- How many fields the types have that were not taken up. -/
def fieldsLeft (entries : List (String × KnownType)) (seen : List String) : Nat :=
  (entries.map (fieldsLeftOf seen)).sum

theorem fieldCount_eq (known : KnownTypes) : known.fieldCount = fieldsLeft known.entries [] := by
  unfold fieldCount
  generalize known.entries = entries
  induction entries with
  | nil => rfl
  | cons entry entries ih =>
    obtain ⟨name, fields | repr⟩ := entry
    · exact congrArg (fields.length + ·) ih
    · exact ih.trans (Nat.zero_add _).symm

theorem fieldsLeftOf_cons_le (name : String) (seen : List String) (entry : String × KnownType) :
    fieldsLeftOf (name :: seen) entry ≤ fieldsLeftOf seen entry := by
  unfold fieldsLeftOf
  split
  · exact Nat.zero_le _
  · next hnew => rw [if_neg fun hmem => hnew (List.mem_cons_of_mem _ hmem)]

/-- Taking up a name leaves no more fields than there were. -/
theorem fieldsLeft_cons_le (entries : List (String × KnownType)) (name : String)
    (seen : List String) : fieldsLeft entries (name :: seen) ≤ fieldsLeft entries seen :=
  List.sum_le_sum fun entry _ => fieldsLeftOf_cons_le name seen entry

/-- Taking up a name uses up its fields. -/
theorem fieldsOf_add_fieldsLeft_le {entries : List (String × KnownType)} {name : String}
    {entry : KnownType} {seen : List String} (hentry : (name, entry) ∈ entries)
    (hnew : name ∉ seen) :
    fieldsOf entry + fieldsLeft entries (name :: seen) ≤ fieldsLeft entries seen := by
  induction entries with
  | nil => cases hentry
  | cons first entries ih =>
    have hsum : ∀ names, fieldsLeft (first :: entries) names =
        fieldsLeftOf names first + fieldsLeft entries names := fun _ => List.sum_cons
    rw [hsum, hsum]
    rcases List.mem_cons.mp hentry with rfl | hrest
    · have htaken : fieldsLeftOf (name :: seen) (name, entry) = 0 := if_pos List.mem_cons_self
      have hfree : fieldsLeftOf seen (name, entry) = fieldsOf entry := if_neg hnew
      have hle := fieldsLeft_cons_le entries name seen
      omega
    · have hfirst := fieldsLeftOf_cons_le name seen first
      have hih := ih hrest
      omega

/-- The edges from a name are paid for by its fields. -/
theorem length_targets_add_fieldsLeft_le (known : KnownTypes) (throughNull : Bool) {name : String}
    {seen : List String} (hnew : name ∉ seen) :
    (known.targets throughNull name).length + fieldsLeft known.entries (name :: seen) ≤
      fieldsLeft known.entries seen := by
  unfold targets
  split
  · next fields hget =>
    have hlength := List.length_filterMap_le (directTarget? throughNull) fields
    have hleft : fields.length + fieldsLeft known.entries (name :: seen) ≤
        fieldsLeft known.entries seen :=
      fieldsOf_add_fieldsLeft_le (mem_of_get?_eq_some hget) hnew
    omega
  · rw [List.length_nil, Nat.zero_add]
    exact fieldsLeft_cons_le known.entries name seen

/-- The names that were taken up are exhausted: their edges do not lead to the goal, and lead to
names that were taken up or are about to be. -/
def Exhausted (known : KnownTypes) (throughNull : Bool) (goal : String)
    (pending seen : List String) : Prop :=
  ∀ name ∈ seen, ¬known.Edge throughNull name goal ∧
    ∀ next, known.Edge throughNull name next → next ∈ seen ∨ next ∈ pending

/-- A name that was taken up need not be taken up again. -/
theorem Exhausted.skip {name : String} {pending seen : List String}
    (h : known.Exhausted throughNull goal (name :: pending) seen) (hseen : name ∈ seen) :
    known.Exhausted throughNull goal pending seen := by
  intro other hother
  refine ⟨(h other hother).1, fun next hnext => ?_⟩
  rcases (h other hother).2 next hnext with hmem | hmem
  · exact .inl hmem
  · rcases List.mem_cons.mp hmem with rfl | hpending
    · exact .inl hseen
    · exact .inr hpending

/-- A name without an edge to the goal is taken up by adding the names that its edges lead to. -/
theorem Exhausted.expand {name : String} {pending seen : List String}
    (h : known.Exhausted throughNull goal (name :: pending) seen)
    (hgoal : ¬known.Edge throughNull name goal) :
    known.Exhausted throughNull goal (known.targets throughNull name ++ pending) (name :: seen) := by
  intro other hother
  rcases List.mem_cons.mp hother with rfl | hold
  · exact ⟨hgoal, fun next hnext => .inr (List.mem_append_left _ hnext)⟩
  · refine ⟨(h other hold).1, fun next hnext => ?_⟩
    rcases (h other hold).2 next hnext with hmem | hmem
    · exact .inl (List.mem_cons_of_mem _ hmem)
    · rcases List.mem_cons.mp hmem with rfl | hpending
      · exact .inl List.mem_cons_self
      · exact .inr (List.mem_append_right _ hpending)

/-- No path leads out of exhausted names when nothing is left to take up. -/
theorem Exhausted.not_leads {seen : List String} (h : known.Exhausted throughNull goal [] seen)
    {name : String} (hname : name ∈ seen) : ¬known.Leads throughNull name goal := by
  intro hleads
  induction hleads using Relation.TransGen.head_induction_on with
  | single hedge => exact (h _ hname).1 hedge
  | head hedge _ ih =>
    rcases (h _ hname).2 _ hedge with hseen | hnone
    · exact ih hseen
    · cases hnone

/-- **A search with enough steps finds the goal** from every name that was taken up or is about to
be. -/
theorem not_leads_of_search {steps : Nat} {pending seen : List String}
    (hsteps : pending.length + fieldsLeft known.entries seen ≤ steps)
    (hexhausted : known.Exhausted throughNull goal pending seen)
    (h : known.search throughNull goal steps pending seen = false) {name : String}
    (hname : name ∈ seen ∨ name ∈ pending) : ¬known.Leads throughNull name goal := by
  induction steps generalizing pending seen with
  | zero =>
    obtain rfl : pending = [] := List.eq_nil_of_length_eq_zero (by omega)
    exact hexhausted.not_leads (hname.resolve_right List.not_mem_nil)
  | succ steps ih =>
    cases pending with
    | nil => exact hexhausted.not_leads (hname.resolve_right List.not_mem_nil)
    | cons first pending =>
      rw [search] at h
      rw [List.length_cons] at hsteps
      split at h
      · next hseen =>
        have hseen := List.contains_iff_mem.mp hseen
        have hname : name ∈ seen ∨ name ∈ pending := by
          rcases hname with hmem | hmem
          · exact .inl hmem
          · rcases List.mem_cons.mp hmem with rfl | hpending
            · exact .inl hseen
            · exact .inr hpending
        exact ih (by omega) (hexhausted.skip hseen) h hname
      · next hnew =>
        have hnew : first ∉ seen := fun hmem => hnew (List.contains_iff_mem.mpr hmem)
        dsimp only at h
        split at h
        · cases h
        · next hgoal =>
          have hgoal : ¬known.Edge throughNull first goal :=
            fun hedge => hgoal (List.contains_iff_mem.mpr hedge)
          have hpaid := length_targets_add_fieldsLeft_le known throughNull hnew
          have hname : name ∈ first :: seen ∨
              name ∈ known.targets throughNull first ++ pending := by
            rcases hname with hmem | hmem
            · exact .inl (List.mem_cons_of_mem _ hmem)
            · rcases List.mem_cons.mp hmem with rfl | hpending
              · exact .inl List.mem_cons_self
              · exact .inr (List.mem_append_right _ hpending)
          refine ih ?_ (hexhausted.expand hgoal) h hname
          rw [List.length_append]
          omega

/-- **Reaching is being led to.** -/
theorem reaches_eq_true_iff {source : String} :
    known.reaches source goal throughNull = true ↔ known.Leads throughNull source goal := by
  constructor
  · intro h
    obtain ⟨name, hname, hleads⟩ := leads_of_search h
    rwa [List.mem_singleton.mp hname] at hleads
  · intro hleads
    refine Bool.eq_true_of_not_eq_false fun h => ?_
    have hsteps : [source].length + fieldsLeft known.entries [] ≤ known.fieldCount + 2 := by
      rw [fieldCount_eq, List.length_singleton]
      omega
    have hexhausted : known.Exhausted throughNull goal [source] [] :=
      fun _ hmem => absurd hmem List.not_mem_nil
    exact not_leads_of_search hsteps hexhausted h (.inr List.mem_cons_self) hleads

end KnownTypes

end Wireform.Schema
