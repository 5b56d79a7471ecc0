import Mathlib.Data.List.Perm.Basic
import Wireform.Proofs.Assignment
import Wireform.Proofs.Naming
import Wireform.Proofs.Planned

/-!
# Declarations in another order

What is generated does not depend on the order of the declarations, if every structure asks for its
tag: an order only decides which tags the others get.

Two things have to be seen.  The declarations are accepted in both orders or in none, since what is
required of them is that no two have one name, or one tag, and what an analysis makes of a name is
what is declared under it (`KnownTypes.SameNames`).  And each is lowered to the same type in both, so
that the lowered types are reordered as the declarations are (`lowered_perm`); the shared files then
come from sorted lists, which are the same (`entries_eq_of_perm`, `modules_eq_of_perm`).
-/
namespace Wireform

open Schema (KnownTypes StructDecl TagRegistry TypeDecl analyze structures)

/-! ## 1. The same names -/

namespace Schema

/-- Every name refers to the same in both. -/
def KnownTypes.SameNames (known other : KnownTypes) : Prop :=
  ∀ name, known.get? name = other.get? name

section

variable {known other : KnownTypes}

theorem KnownTypes.SameNames.targets (h : known.SameNames other) (throughNull : Bool)
    (name : String) : known.targets throughNull name = other.targets throughNull name := by
  unfold KnownTypes.targets
  rw [h name]

theorem KnownTypes.SameNames.reaches (h : known.SameNames other) (source goal : String)
    (throughNull : Bool) : known.reaches source goal throughNull = other.reaches source goal throughNull := by
  have hedges : known.Edge throughNull = other.Edge throughNull := by
    funext name next
    unfold KnownTypes.Edge
    rw [h.targets]
  rw [Bool.eq_iff_iff, KnownTypes.reaches_eq_true_iff, KnownTypes.reaches_eq_true_iff]
  unfold KnownTypes.Leads
  rw [hedges]

theorem KnownTypes.SameNames.planType (h : known.SameNames other) (ref : TypeRef) :
    planType known ref = planType other ref := by
  induction ref with
  | primitive p => rfl
  | named name => rw [Schema.planType, Schema.planType, h name]
  | list element ih => rw [Schema.planType, Schema.planType, ih]
  | array element ih => rw [Schema.planType, Schema.planType, ih]
  | map key value ihkey ihvalue => rw [Schema.planType, Schema.planType, ihkey, ihvalue]
  | optional inner ih => rw [Schema.planType, Schema.planType, ih]

theorem KnownTypes.SameNames.resolveNesting (h : known.SameNames other) (holder : String)
    (field : FieldDecl) (plan : ElementPlan) :
    resolveNesting known holder field plan = resolveNesting other holder field plan := by
  unfold Schema.resolveNesting
  simp only [h.reaches]

/-- **An analysis makes the same of a structure**, whatever else it knows. -/
theorem KnownTypes.SameNames.analyze (h : known.SameNames other) (decl : StructDecl) (tag : Nat) :
    analyze decl known tag = analyze decl other tag := by
  have hstep : Progress.step known decl.name = Progress.step other decl.name := by
    funext progress field
    unfold Progress.step
    simp only [h.planType, h.resolveNesting]
  unfold Schema.analyze
  rw [hstep]

end

theorem structures_perm {decls others : List TypeDecl} (h : decls.Perm others) :
    (structures decls).Perm (structures others) := h.filterMap _

theorem KnownTypes.sameNames_of_perm {decls others : List TypeDecl} {known other : KnownTypes}
    (hperm : decls.Perm others) (hknown : ofDecls decls = .ok known)
    (hother : ofDecls others = .ok other) : known.SameNames other := by
  intro name
  ext entry
  rw [(describes_of_ofDecls hknown).get?_eq_some_iff, (describes_of_ofDecls hother).get?_eq_some_iff]
  simp only [hperm.mem_iff]

/-- Names are accepted in any order. -/
theorem KnownTypes.exists_of_perm {decls others : List TypeDecl} {known : KnownTypes}
    (hperm : decls.Perm others) (hknown : ofDecls decls = .ok known) :
    ∃ other, ofDecls others = .ok other := by
  obtain ⟨hnames, hnodup, -⟩ := ofDecls_eq_ok_iff.mp hknown
  refine ⟨_, ofDecls_eq_ok_iff.mpr ⟨fun decl hdecl => ?_, ?_, rfl⟩⟩
  · exact hnames decl (hperm.mem_iff.mpr hdecl)
  · exact (hperm.map _).nodup_iff.mp hnodup

end Schema

namespace Emit

variable {decls others : List TypeDecl}

/-! ## 2. What is accepted -/

theorem checkGeneratedNames_of_perm (hperm : decls.Perm others)
    (h : checkGeneratedNames decls = .ok ()) : checkGeneratedNames others = .ok () := by
  obtain ⟨hfiles, hconsts⟩ := checkGeneratedNames_eq_ok_iff.mp h
  refine checkGeneratedNames_eq_ok_iff.mpr ⟨?_, ?_⟩
  · exact ((hperm.map _).append_right _).nodup_iff.mp hfiles
  · exact (((Schema.structures_perm hperm).map _).cons _).nodup_iff.mp hconsts

theorem Acceptable.perm (h : Acceptable decls) (hperm : decls.Perm others) : Acceptable others := by
  obtain ⟨known, hknown, hanalyzed⟩ := h.analyzed
  obtain ⟨other, hother⟩ := KnownTypes.exists_of_perm hperm hknown
  have hsame := KnownTypes.sameNames_of_perm hperm hknown hother
  refine ⟨⟨other, hother, fun decl hdecl => ?_⟩, checkGeneratedNames_of_perm hperm h.names,
    fun decl hdecl => h.enums decl (hperm.mem_iff.mpr hdecl)⟩
  obtain ⟨tag, schema, hschema⟩ := hanalyzed decl ((Schema.structures_perm hperm).mem_iff.mpr hdecl)
  exact ⟨tag, schema, hsame.analyze decl tag ▸ hschema⟩

theorem Unassignable.perm {decls others : List StructDecl} (h : Unassignable decls)
    (hperm : decls.Perm others) : Unassignable others := by
  have hasked : (askedTags decls).Perm (askedTags others) := hperm.filterMap _
  rcases h with hzero | htwice | hmany
  · exact .inl (hasked.mem_iff.mp hzero)
  · exact .inr (.inl fun hnodup => htwice (hasked.nodup_iff.mpr hnodup))
  · exact .inr (.inr (hperm.length_eq ▸ hmany))

/-- **Declarations are rendered exactly if** nothing is wrong with them but perhaps their tags, and
nothing is wrong with these. -/
theorem exists_render_iff (hbytes : ∀ decl ∈ structures decls, ∀ tag ∈ decl.tag, tag < 256) :
    (∃ artifacts, render decls = .ok artifacts) ↔
      Acceptable decls ∧ ¬Unassignable (structures decls) := by
  constructor
  · rintro ⟨artifacts, h⟩
    obtain ⟨lowered, hlowered, -⟩ := render_eq_ok_iff.mp h
    exact ⟨acceptable_of_render h, (assigns_of_lowerAll hbytes hlowered).not_unassignable⟩
  · rintro ⟨hacceptable, hassignable⟩
    rcases hacceptable.render_or_fault hbytes with h | ⟨fault, -, -, hcause⟩
    · exact h
    · exact absurd hcause hassignable

/-! ## 3. What is lowered -/

/-- A declaration is lowered to a type: a structure under the tag that it asks for. -/
inductive LowersTo (known : KnownTypes) : TypeDecl → LoweredType → Prop where
  | struct {decl : StructDecl} {tag : Nat} {schema : Schema.TypeSchema} (htag : decl.tag = some tag)
    (hschema : analyze decl known tag = .ok schema) :
    LowersTo known (.struct decl) (.struct (.ofSchema schema))
  | enum {decl : Schema.EnumDecl} : LowersTo known (.enum decl) (.enum (.ofDecl decl))

/-- A structure that asks for a tag gets no other. -/
theorem eq_of_assignTag {tags next : TagRegistry String} {decl : StructDecl} {asked tag : Nat}
    (hasked : decl.tag = some asked) (h : assignTag tags decl = .ok (tag, next)) : tag = asked := by
  unfold assignTag at h
  rw [hasked] at h
  dsimp only [TagRegistry.registerWithTag] at h
  split at h
  · cases h
  · split at h
    · split at h
      · cases h
        rfl
      · cases h
    · split at h
      · cases h
      · cases h
        rfl

theorem Lowers.lowersTo {known : KnownTypes} {tags last : TagRegistry String}
    {lowered : List LoweredType} (h : Lowers known tags decls lowered last)
    (htags : ∀ decl ∈ structures decls, ∃ tag < 256, decl.tag = some tag) :
    List.Forall₂ (LowersTo known) decls lowered := by
  induction h with
  | nil => exact .nil
  | struct htag hschema hrest ih =>
    obtain ⟨asked, -, hasked⟩ := htags _ List.mem_cons_self
    have hlater := ih fun decl hdecl => htags decl (List.mem_cons_of_mem _ hdecl)
    rw [eq_of_assignTag hasked htag] at hschema
    exact .cons (.struct hasked hschema) hlater
  | «enum» hvalid hrest ih => exact .cons .enum (ih htags)

theorem LowersTo.rightUnique (known : KnownTypes) : Relator.RightUnique (LowersTo known) := by
  rintro decl type other ⟨htag, hschema⟩ hother
  · cases hother with
    | struct htag' hschema' =>
      cases htag.symm.trans htag'
      cases hschema.symm.trans hschema'
      rfl
  · cases hother
    rfl

/-- **Lowered types are reordered as the declarations are.** -/
theorem lowered_perm {lowered lowered' : List LoweredType} (hperm : decls.Perm others)
    (htags : ∀ decl ∈ structures decls, ∃ tag < 256, decl.tag = some tag)
    (h : lowerAll decls = .ok lowered) (h' : lowerAll others = .ok lowered') :
    lowered.Perm lowered' := by
  obtain ⟨known, tags, last, hknown, -, -, hlowers⟩ := lowerAll_eq_ok_iff.mp h
  obtain ⟨known', tags', last', hknown', -, -, hlowers'⟩ := lowerAll_eq_ok_iff.mp h'
  have hsame := KnownTypes.sameNames_of_perm hperm hknown hknown'
  have hlowered := hlowers.lowersTo htags
  have hlowered' := hlowers'.lowersTo fun decl hdecl =>
    htags decl ((Schema.structures_perm hperm).mem_iff.mpr hdecl)
  have hto : ∀ decl type, LowersTo known' decl type → LowersTo known decl type := by
    rintro decl type (⟨htag, hschema⟩ | _)
    · exact .struct htag ((hsame.analyze _ _).trans hschema)
    · exact .enum
  exact List.rel_perm_imp (LowersTo.rightUnique known) hlowered (hlowered'.imp hto) hperm

/-! ## 4. The shared files -/

variable {lowered lowered' : List LoweredType}

/-- Entries of different tags are sorted into one order. -/
theorem entries_eq_of_perm (hperm : lowered.Perm lowered')
    (h : (tableOf lowered).entries.Pairwise fun a b => a.tag < b.tag)
    (h' : (tableOf lowered').entries.Pairwise fun a b => a.tag < b.tag) :
    (tableOf lowered).entries = (tableOf lowered').entries := by
  have hentries : (tableOf lowered).entries.Perm (tableOf lowered').entries := by
    rw [entries_tableOf, entries_tableOf]
    exact ((List.mergeSort_perm _ _).trans (hperm.filterMap _)).trans (List.mergeSort_perm _ _).symm
  exact hentries.eq_of_pairwise (fun a b _ _ hab hba => absurd hab (Nat.lt_asymm hba)) h h'

/-- The order of types in the listing: by their modules, and then by their names. -/
def moduleLe (a b : String × String) : Bool := if a.1 = b.1 then a.2 ≤ b.2 else a.1 ≤ b.1

theorem moduleLe_iff {a b : String × String} :
    moduleLe a b = true ↔ a.1 = b.1 ∧ a.2 ≤ b.2 ∨ a.1 ≠ b.1 ∧ a.1 ≤ b.1 := by
  unfold moduleLe
  split <;> simp [*]

theorem moduleLe_trans (a b c : String × String) (hab : moduleLe a b = true)
    (hbc : moduleLe b c = true) : moduleLe a c = true := by
  rw [moduleLe_iff] at *
  rcases hab with ⟨hab, hle⟩ | ⟨hab, hle⟩ <;> rcases hbc with ⟨hbc, hle'⟩ | ⟨hbc, hle'⟩
  · exact .inl ⟨hab.trans hbc, String.le_trans hle hle'⟩
  · exact .inr ⟨hab ▸ hbc, hab ▸ hle'⟩
  · exact .inr ⟨hbc ▸ hab, hbc ▸ hle⟩
  · refine .inr ⟨fun hac => ?_, String.le_trans hle hle'⟩
    exact hab (String.le_antisymm hle (hac ▸ hle'))

theorem moduleLe_total (a b : String × String) : (moduleLe a b || moduleLe b a) = true := by
  rw [Bool.or_eq_true, moduleLe_iff, moduleLe_iff]
  by_cases h : a.1 = b.1
  · exact (String.le_total a.2 b.2).imp (fun hle => .inl ⟨h, hle⟩) fun hle => .inl ⟨h.symm, hle⟩
  · exact (String.le_total a.1 b.1).imp (fun hle => .inr ⟨h, hle⟩) fun hle => .inr ⟨Ne.symm h, hle⟩

theorem moduleLe_antisymm {a b : String × String} (hab : moduleLe a b = true)
    (hba : moduleLe b a = true) : a = b := by
  rw [moduleLe_iff] at *
  rcases hab with ⟨heq, hle⟩ | ⟨hne, hle⟩ <;> rcases hba with ⟨heq', hle'⟩ | ⟨hne', hle'⟩
  · exact Prod.ext heq (String.le_antisymm hle hle')
  · exact absurd heq.symm hne'
  · exact absurd heq'.symm hne
  · exact absurd (String.le_antisymm hle hle') hne

/-- **The same names are listed in one order**, since the order tells any two of them apart. -/
theorem modules_eq_of_perm {table table' : Table} (hperm : table.names.Perm table'.names) :
    table.modules = table'.modules := by
  have hmodules : table.modules.Perm table'.modules :=
    ((modules_perm table).trans (hperm.map _)).trans (modules_perm table').symm
  have hsorted : ∀ table : Table, table.modules.Pairwise fun a b => moduleLe a b = true :=
    fun table => List.pairwise_mergeSort moduleLe_trans moduleLe_total _
  exact hmodules.eq_of_pairwise (fun a b _ _ => moduleLe_antisymm) (hsorted table) (hsorted table')

theorem dispatchModule_congr {table table' : Table} (h : table.entries = table'.entries) :
    dispatchModule table = dispatchModule table' := by
  have honly : ∀ table : Table, dispatchModule table = dispatchModule ⟨table.entries, []⟩ :=
    fun _ => rfl
  rw [honly table, honly table', h]

theorem listingModule_congr {table table' : Table} (h : table.entries = table'.entries)
    (hmodules : table.modules = table'.modules) : listingModule table = listingModule table' := by
  unfold listingModule
  rw [h, hmodules]

/-! ## 5. Generation -/

/-- **What is rendered does not depend on the order of the declarations**, if all structures ask for
their tags, which are bytes: they are accepted in every order or in none, the files of the types are
the same but for their order, and the dispatch table and the listing are the same. -/
theorem render_perm {decls others : List TypeDecl} (hperm : decls.Perm others)
    (htags : ∀ decl ∈ structures decls, ∃ tag < 256, decl.tag = some tag) :
    ((∃ artifacts, render decls = .ok artifacts) ↔ ∃ artifacts, render others = .ok artifacts) ∧
    ∀ artifacts artifacts', render decls = .ok artifacts → render others = .ok artifacts' →
      ∃ types types' table listing,
        artifacts = types ++ [⟨dispatchFile, table, false⟩, ⟨listingFile, listing, false⟩] ∧
        artifacts' = types' ++ [⟨dispatchFile, table, false⟩, ⟨listingFile, listing, false⟩] ∧
        types.Perm types' ∧ ∀ artifact ∈ types, artifact.perType = true := by
  have hstructures := Schema.structures_perm hperm
  have hbytes : ∀ decl ∈ structures decls, ∀ tag ∈ decl.tag, tag < 256 := by
    intro decl hdecl tag htag
    obtain ⟨asked, hless, hasked⟩ := htags decl hdecl
    cases hasked.symm.trans htag
    exact hless
  have hbytes' : ∀ decl ∈ structures others, ∀ tag ∈ decl.tag, tag < 256 :=
    fun decl hdecl => hbytes decl (hstructures.mem_iff.mpr hdecl)
  constructor
  · rw [exists_render_iff hbytes, exists_render_iff hbytes']
    exact ⟨fun h => ⟨h.1.perm hperm, fun hcause => h.2 (hcause.perm hstructures.symm)⟩,
      fun h => ⟨h.1.perm hperm.symm, fun hcause => h.2 (hcause.perm hstructures)⟩⟩
  · intro artifacts artifacts' h h'
    obtain ⟨lowered, hlowered, rfl⟩ := render_eq_ok_iff.mp h
    obtain ⟨lowered', hlowered', rfl⟩ := render_eq_ok_iff.mp h'
    have hlowers := lowered_perm hperm htags hlowered hlowered'
    have hentries := entries_eq_of_perm hlowers (assigns_of_lowerAll hbytes hlowered).sorted
      (assigns_of_lowerAll hbytes' hlowered').sorted
    have hnames : (tableOf lowered).names.Perm (tableOf lowered').names := by
      unfold Table.names
      rw [hentries]
      exact (hlowers.filterMap _).append_left _
    have hmodules := modules_eq_of_perm hnames
    refine ⟨lowered.map LoweredType.artifact, lowered'.map LoweredType.artifact, _, _, rfl, ?_,
      hlowers.map _, ?_⟩
    · rw [dispatchModule_congr hentries, listingModule_congr hentries hmodules]
      rfl
    · refine List.forall_mem_map.mpr fun type _ => ?_
      cases type <;> rfl

end Emit

namespace Samples

/-- A pong holds the ping that it answers, and asks for the second tag. -/
def pongStruct : StructDecl := ⟨"Pong", some 2, [⟨"ping", .named "Ping"⟩]⟩

/-- What is known of pings and pongs. -/
def pongKnown : KnownTypes := ⟨[("Ping", .struct []), ("Pong", .struct [.named "Ping"])]⟩

theorem render_pong : ∃ artifacts,
    Emit.render [.struct pingStruct, .struct pongStruct] = .ok artifacts := by
  have hknown : KnownTypes.ofDecls [.struct pingStruct, .struct pongStruct] = .ok pongKnown := rfl
  have hnames : Emit.checkGeneratedNames [.struct pingStruct, .struct pongStruct] = .ok () := rfl
  have htags : [TypeDecl.struct pingStruct, .struct pongStruct].foldlM Emit.claimTag
      TagRegistry.empty = .ok ⟨[⟨1, "Ping", "Ping"⟩, ⟨2, "Pong", "Pong"⟩]⟩ := rfl
  have hping : analyze pingStruct pongKnown 1 = .ok ⟨"Ping", 1, []⟩ := rfl
  have hpong : analyze pongStruct pongKnown 2 =
      .ok ⟨"Pong", 2, [⟨"ping", .nested "Ping" false, none⟩]⟩ :=
    Schema.analyze_eq_ok_iff.mpr ⟨.always rfl rfl rfl .nil, by decide, by decide, by decide⟩
  exact ⟨_, Emit.render_eq_ok_iff.mpr ⟨_, Emit.lowerAll_eq_ok_iff.mpr
    ⟨_, _, _, hknown, hnames, htags, .struct rfl hping (.struct rfl hpong .nil)⟩, rfl⟩⟩

end Samples

namespace Emit

open Samples (pingStruct pongStruct render_pong)

/-- A pong may be declared before the ping that it holds. -/
theorem render_perm_pong :
    ∃ artifacts artifacts', render [.struct pingStruct, .struct pongStruct] = .ok artifacts ∧
      render [.struct pongStruct, .struct pingStruct] = .ok artifacts' ∧
      artifacts.Perm artifacts' ∧
      artifacts'.map Artifact.fileName = ["pong.rs", "ping.rs", "dispatch.rs", "mod.rs"] := by
  have hperm : [TypeDecl.struct pingStruct, .struct pongStruct].Perm
      [.struct pongStruct, .struct pingStruct] := .swap _ _ _
  have htags : ∀ decl ∈ structures [.struct pingStruct, .struct pongStruct],
      ∃ tag < 256, decl.tag = some tag := by
    simp [structures, pingStruct, pongStruct]
  obtain ⟨hiff, hsame⟩ := render_perm hperm htags
  obtain ⟨artifacts, h⟩ := render_pong
  obtain ⟨artifacts', h'⟩ := hiff.mp ⟨artifacts, h⟩
  obtain ⟨types, types', table, listing, rfl, rfl, htypes, -⟩ := hsame artifacts artifacts' h h'
  have hnames : fileNames [.struct pongStruct, .struct pingStruct] =
      ["pong.rs", "ping.rs", "dispatch.rs", "mod.rs"] := by decide
  have hfiles := fileNames_of_render h'
  rw [hnames] at hfiles
  exact ⟨_, _, h, h', htypes.append_right _, hfiles⟩

end Emit

end Wireform
