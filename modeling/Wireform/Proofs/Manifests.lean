import Wireform.Proofs.JsonText
import Wireform.Proofs.Numbers
import Wireform.Schema.Manifest.Parser

/-!
# Written manifests

A manifest that is written and read again is the manifest whose declarations are read again one by
one (`parse_compact`), and of a declaration only the types of its fields are read: a type is written
as text, so it comes back as what the grammar of type references makes of that text
(`FieldDecl.reread?`).  Everything else comes back as it was: every name, whatever characters it has,
every tag and every value.  So a manifest means the same when it is read again exactly if all of its
types are read back from their texts (`parse_compact_eq_self_iff`).

Tags are bytes and values are integers of eight bytes, signed (`TypeDecl.InRange`); this is what the
reader takes.
-/
namespace Wireform.Schema

open Json (Fault Scanner Reads Fits memberChars)

/-! ## 1. Declarations that are read again -/

/-- The tag that is asked for is a byte, and the values of variants fit eight bytes. -/
def TypeDecl.InRange : TypeDecl → Prop
  | .struct decl => ∀ tag ∈ decl.tag, tag < 256
  | .enum decl => ∀ variant ∈ decl.variants, IntFormat.i64.contains variant.value = true

/-- The types of a declaration's fields. -/
def TypeDecl.fieldTypes : TypeDecl → List TypeRef
  | .struct decl => decl.fields.map FieldDecl.type
  | .enum _ => []

/-- The field that is read where a field was written. -/
def FieldDecl.reread? (decl : FieldDecl) : Option FieldDecl := do
  return ⟨decl.name, ← (TypeRef.parse decl.type.text).toOption⟩

/-- The declaration that is read where a declaration was written. -/
def TypeDecl.reread? : TypeDecl → Option TypeDecl
  | .struct decl => do return .struct ⟨decl.name, decl.tag, ← decl.fields.mapM FieldDecl.reread?⟩
  | .enum decl => some (.enum decl)

theorem FieldDecl.reread?_eq_self_iff (decl : FieldDecl) :
    decl.reread? = some decl ↔ TypeRef.parse decl.type.text = .ok decl.type := by
  rcases decl with ⟨name, type⟩
  cases hparse : TypeRef.parse type.text <;> simp [reread?, hparse, Except.toOption]

theorem mapM_eq_self_iff {α : Type} (f : α → Option α) (items : List α) :
    items.mapM f = some items ↔ ∀ item ∈ items, f item = some item := by
  induction items with
  | nil => simp
  | cons item items ih =>
    rw [List.mapM_cons, List.forall_mem_cons, ← ih]
    cases f item with
    | none => simp
    | some found => cases items.mapM f <;> simp

theorem TypeDecl.reread?_eq_self_iff (decl : TypeDecl) :
    decl.reread? = some decl ↔ ∀ type ∈ decl.fieldTypes, TypeRef.parse type.text = .ok type := by
  cases decl with
  | enum decl => simp [reread?, fieldTypes]
  | struct decl =>
    rcases decl with ⟨name, tag, fields⟩
    have hfields := mapM_eq_self_iff FieldDecl.reread? fields
    simp only [FieldDecl.reread?_eq_self_iff] at hfields
    rw [fieldTypes, List.forall_mem_map, ← hfields]
    cases hmap : fields.mapM FieldDecl.reread? <;> simp [reread?, hmap]

/-! ## 2. Members -/

theorem ofJson?_name (repr : IntRepr) (isEmpty : Json → Bool) :
    IntRepr.ofJson? isEmpty (.text repr.name) = some repr := by
  cases repr <;> rfl

theorem intOf?_int {format : IntFormat} {n : Int} (hn : format.contains n = true) :
    intOf? format (.int n) = some n := by
  simp [intOf?, Json.int, hn]

theorem tagOf?_nat {tag : Nat} (htag : tag < 256) : tagOf? (.nat tag) = some (some tag) := by
  have hbyte : IntFormat.u8.contains (tag : Int) = true :=
    IntFormat.contains_natCast htag
  simp [tagOf?, Json.nat, Json.int, intOf?, hbyte]

theorem FieldDecl.ofJson?_toJson (decl : FieldDecl) :
    FieldDecl.ofJson? decl.toJson = decl.reread? := by
  rcases decl with ⟨name, type⟩
  cases hparse : TypeRef.parse type.text <;>
    simp [ofJson?, toJson, recordMembers?, membersOf?, Json.text?, TypeRef.ofJson?, reread?, hparse,
      Except.toOption]

theorem VariantDecl.ofJson?_toJson {decl : VariantDecl}
    (hvalue : IntFormat.i64.contains decl.value = true) :
    VariantDecl.ofJson? decl.toJson = some decl := by
  simp [ofJson?, toJson, recordMembers?, membersOf?, Json.text?, intOf?_int hvalue]

theorem listOf?_map {α β : Type} {read? : Json → Option β} {form : α → Json} {found : α → Option β}
    {items : List α} (hread : ∀ item ∈ items, read? (form item) = found item) :
    Json.listOf? read? (.array (items.map form)) = items.mapM found := by
  change (items.map form).mapM read? = _
  induction items with
  | nil => rfl
  | cons item items ih =>
    obtain ⟨hitem, hitems⟩ := List.forall_mem_cons.mp hread
    rw [List.map_cons, List.mapM_cons, List.mapM_cons, hitem, ih hitems]

/-- The kind of a declaration, and its members other than the kind. -/
def TypeDecl.kindName : TypeDecl → String
  | .struct _ => "struct"
  | .enum _ => "enum"

/-- The members of a declaration other than its kind. -/
def TypeDecl.members : TypeDecl → List (String × Json)
  | .struct decl =>
    ("name", Json.text decl.name) :: ((decl.tag.map fun tag => ("tag", Json.nat tag)).toList
      ++ [("fields", .array (decl.fields.map FieldDecl.toJson))])
  | .enum decl =>
    [("name", decl.name), ("repr", decl.repr.name),
      ("variants", .array (decl.variants.map VariantDecl.toJson))]

theorem TypeDecl.toJson_eq (decl : TypeDecl) :
    decl.toJson = .object (("kind", Json.text decl.kindName) :: decl.members) := by
  cases decl <;> rfl

theorem TypeDecl.ofKind?_struct {name : String} {tag : Option Nat} (htag : ∀ n ∈ tag, n < 256)
    (fields : List FieldDecl) :
    TypeDecl.ofKind? .struct (.object (members (.struct ⟨name, tag, fields⟩)))
      = reread? (.struct ⟨name, tag, fields⟩) := by
  have hfields := listOf?_map fun field (_ : field ∈ fields) => field.ofJson?_toJson
  cases tag with
  | none =>
    simp [ofKind?, StructDecl.ofJson?, recordMembers?, membersOf?, members, Json.text?, hfields,
      reread?]
  | some tag =>
    simp [ofKind?, StructDecl.ofJson?, recordMembers?, membersOf?, members, Json.text?, hfields,
      tagOf?_nat (htag tag rfl), reread?]

theorem TypeDecl.ofKind?_enum {decl : EnumDecl}
    (hvalues : ∀ variant ∈ decl.variants, IntFormat.i64.contains variant.value = true) :
    TypeDecl.ofKind? .enum (.object (members (.enum decl))) = reread? (.enum decl) := by
  have hvariants := listOf?_map fun variant hvariant =>
    VariantDecl.ofJson?_toJson (hvalues variant hvariant)
  rw [(mapM_eq_self_iff _ _).mpr fun variant _ => rfl] at hvariants
  simp [ofKind?, EnumDecl.ofJson?, recordMembers?, membersOf?, members, Json.text?, ofJson?_name,
    hvariants, reread?]

/-- What a reader makes of a declaration's kind and members is what is read again of it. -/
theorem TypeDecl.exists_kind {decl : TypeDecl} (hrange : decl.InRange) :
    ∃ kind, DeclKind.ofName? decl.kindName = some kind ∧
      TypeDecl.ofKind? kind (.object decl.members) = decl.reread? := by
  cases decl with
  | struct decl => exact ⟨.struct, rfl, TypeDecl.ofKind?_struct hrange decl.fields⟩
  | enum decl => exact ⟨.enum, rfl, TypeDecl.ofKind?_enum hrange⟩

theorem TypeDecl.kind_not_mem_members (decl : TypeDecl) :
    ∀ member ∈ decl.members, member.1 ≠ "kind" := by
  rcases decl with ⟨name, _ | tag, fields⟩ | decl <;> simp [members]

theorem isWord_of_contains {n : Int} (hn : IntFormat.i64.contains n = true) : Json.IsWord n := by
  simp [IntFormat.contains, IntFormat.i64, IntFormat.least, IntFormat.greatest, IntFormat.modulus] at hn
  unfold Json.IsWord
  omega

/-- The members of a declaration are an array of flat objects at most. -/
theorem TypeDecl.fits_members {decl : TypeDecl} (hrange : decl.InRange) (depth : Nat) :
    ∀ member ∈ decl.members, Fits (depth + 2) member.2 := by
  have hrecord : ∀ a b : String × Json, Fits depth a.2 → Fits depth b.2 →
      Fits (depth + 1) (.object [a, b]) := by
    intro a b ha hb
    refine .object ?_
    simp [ha, hb]
  have hfields : ∀ fields : List FieldDecl,
      Fits (depth + 2) (.array (fields.map FieldDecl.toJson)) := by
    intro fields
    refine .array (List.forall_mem_map.mpr ?_)
    intro field _
    exact hrecord _ _ (.text _) (.text _)
  rcases decl with ⟨name, _ | tag, fields⟩ | decl
  · simp [members, hfields, Fits.text]
  · have htag : Json.IsWord tag := by
      have := hrange tag rfl
      unfold Json.IsWord
      omega
    simp [members, hfields, Fits.text]
    exact .integer htag
  · have hvariants : Fits (depth + 2) (.array (decl.variants.map VariantDecl.toJson)) := by
      refine .array (List.forall_mem_map.mpr ?_)
      intro variant hvariant
      exact hrecord _ _ (.text _) (.integer (isWord_of_contains (hrange variant hvariant)))
    simp [members, hvariants, Fits.text]

/-! ## 3. Reading -/

/-- What a member does to the parts of a declaration that have been read. -/
def declStep (kind : DeclKind) (state : Option DeclKind × List (String × Json))
    (member : String × Json) : Except Fault (Option DeclKind × List (String × Json)) :=
  if member.1 = "kind" then
    if state.1.isSome then .error .wrongShape else .ok (some kind, state.2)
  else .ok (state.1, member :: state.2)

theorem reads_scanKind {name : String} {kind : DeclKind} (hkind : DeclKind.ofName? name = some kind) :
    Reads scanKind (Json.quoted name).toList (.ok kind) := by
  intro rest hrest
  simp [scanKind, Json.reads_wantText name rest hrest, hkind, Except.bind, Except.map]

theorem reads_declMember {bound depth : Nat} {kind : DeclKind} {member : String × Json}
    (hkind : member.1 = "kind" → ∃ name, member.2 = .text name ∧ DeclKind.ofName? name = some kind)
    (hfits : Fits depth member.2) (hbound : member.2.compact.toList.length ≤ bound)
    (state : Option DeclKind × List (String × Json)) :
    Reads (scanDeclMember bound depth state member.1) (':' :: member.2.compact.toList)
      (declStep kind state member) := by
  rcases member with ⟨name, value⟩
  by_cases hname : name = "kind"
  · subst hname
    obtain ⟨text, rfl, htext⟩ := hkind rfl
    intro rest hrest
    -- A second kind is refused before its value is looked at.
    cases hstate : state.1 with
    | some found => simp [scanDeclMember, declStep, hstate, Except.map, Except.bind]
    | none =>
      have hread := (reads_scanKind htext).behindColon (fun kind => (some kind, state.2)) rest hrest
      simpa [scanDeclMember, declStep, hstate, Json.compact, Except.map] using hread
  · have hread := (Json.reads_compact hfits hbound).behindColon
      fun value => (state.1, (name, value) :: state.2)
    simpa [scanDeclMember, declStep, hname, Except.map] using hread

theorem foldlM_declStep (kind : DeclKind) {members : List (String × Json)}
    (hmembers : ∀ member ∈ members, member.1 ≠ "kind") (kind? : Option DeclKind)
    (found : List (String × Json)) :
    members.foldlM (declStep kind) (kind?, found) = .ok (kind?, members.reverse ++ found) := by
  induction members generalizing found with
  | nil => rfl
  | cons member members ih =>
    obtain ⟨hmember, hmembers⟩ := List.forall_mem_cons.mp hmembers
    rw [List.foldlM_cons, declStep, if_neg hmember]
    exact (ih hmembers (member :: found)).trans (by simp)

theorem reads_declParts {bound depth : Nat} {name : String} {kind : DeclKind}
    (hkind : DeclKind.ofName? name = some kind) {members : List (String × Json)}
    (hmembers : ∀ member ∈ members, member.1 ≠ "kind")
    (hfits : ∀ member ∈ members, Fits depth member.2)
    (hbound : (Json.object (("kind", .text name) :: members)).compact.toList.length ≤ bound) :
    Reads (scanDeclParts bound depth) (Json.object (("kind", .text name) :: members)).compact.toList
      (.ok (kind, .object members)) := by
  intro rest _
  obtain ⟨hcount, hlength⟩ := Json.length_object (("kind", .text name) :: members)
  have hfold := Json.foldMembers_members (scanDeclMember bound depth) Prod.fst
    (fun member => member.2.compact.toList) (declStep kind) (fun member hmember state => by
      refine reads_declMember ?_ ?_ ((hlength member hmember).trans hbound) state
      · rcases List.mem_cons.mp hmember with rfl | hmember
        · exact fun _ => ⟨name, rfl, hkind⟩
        · exact fun hname => absurd hname (hmembers member hmember)
      · rcases List.mem_cons.mp hmember with rfl | hmember
        · exact .text name
        · exact hfits member hmember)
    (hcount.trans_le hbound) true (none, []) rest
  -- The kind comes first and is kept apart; the other members are collected in reverse.
  have hsteps : (("kind", Json.text name) :: members).foldlM (declStep kind) (none, [])
      = .ok (some kind, members.reverse) := by
    have hrest := foldlM_declStep kind hmembers (some kind) []
    rw [List.append_nil] at hrest
    exact hrest
  have hbrace : Json.isBlank '\x7b' = false := by decide
  rw [hsteps, List.map_cons] at hfold
  rw [Json.toList_object]
  simp [scanDeclParts, hbrace, hfold, Except.bind, Except.map]

/-- What a scanner answers where something is missing or not. -/
def orWrongShape {α : Type} : Option α → Except Fault α
  | some a => .ok a
  | none => .error .wrongShape

theorem mapM_orWrongShape {α β : Type} (f : α → Option β) (items : List α) :
    (items.mapM fun item => orWrongShape (f item)) = orWrongShape (items.mapM f) := by
  induction items with
  | nil => rfl
  | cons item items ih =>
    rw [List.mapM_cons, List.mapM_cons, ih]
    cases f item with
    | none => rfl
    | some found => cases items.mapM f <;> rfl

theorem reads_decl {bound depth : Nat} {decl : TypeDecl} (hrange : decl.InRange)
    (hbound : decl.toJson.compact.toList.length ≤ bound) :
    Reads (scanDecl bound (depth + 2)) decl.toJson.compact.toList (orWrongShape decl.reread?) := by
  obtain ⟨kind, hname, hkind⟩ := decl.exists_kind hrange
  rw [decl.toJson_eq] at hbound ⊢
  have hparts := reads_declParts hname decl.kind_not_mem_members (decl.fits_members hrange depth) hbound
  intro rest hrest
  rw [scanDecl, Json.bind_apply, hparts rest hrest]
  simp only [Except.map, Except.bind, hkind]
  cases decl.reread? <;> rfl

theorem begins_decl (decl : TypeDecl) : Json.Begins decl.toJson.compact.toList := by
  rw [decl.toJson_eq, Json.toList_object]
  exact ⟨_, _, rfl, by decide, by decide⟩

theorem reads_decls {bound : Nat} (depth : Nat) {decls : List TypeDecl}
    (hrange : ∀ decl ∈ decls, decl.InRange)
    (hbound : (Json.array (decls.map TypeDecl.toJson)).compact.toList.length ≤ bound) :
    Reads (scanDecls bound (depth + 2)) (Json.array (decls.map TypeDecl.toJson)).compact.toList
      (orWrongShape (decls.mapM TypeDecl.reread?)) := by
  intro rest _
  obtain ⟨hcount, hlength⟩ := Json.length_array (decls.map TypeDecl.toJson)
  rw [List.length_map] at hcount
  rw [List.forall_mem_map] at hlength
  have hreads : ∀ decl ∈ decls, Reads (scanDecl bound (depth + 2)) decl.toJson.compact.toList
      (orWrongShape decl.reread?) := by
    intro decl hdecl
    exact reads_decl (hrange decl hdecl) ((hlength decl hdecl).trans hbound)
  have hitems := Json.elements_items _ hreads (fun decl _ => begins_decl decl)
    (hcount.trans_le hbound) true rest
  have hbracket : Json.isBlank '[' = false := by decide
  rw [mapM_orWrongShape] at hitems
  rw [Json.toList_array, List.map_map]
  simp only [scanDecls, List.cons_append, List.append_assoc, List.nil_append, Function.comp_def,
    Json.bind_apply, Json.next?_cons hbracket, Except.bind, Json.advance_cons, hitems]
  cases decls.mapM TypeDecl.reread? <;> rfl

/-- What the list of declarations makes of a manifest, of which it has to be the first one. -/
theorem reads_manifestMember {bound : Nat} {decls : List TypeDecl}
    (hrange : ∀ decl ∈ decls, decl.InRange)
    (hbound : (Json.array (decls.map TypeDecl.toJson)).compact.toList.length ≤ bound)
    (types : Option (List TypeDecl)) :
    Reads (scanManifestMember bound types "types")
      (':' :: (Json.array (decls.map TypeDecl.toJson)).compact.toList)
      (if types.isSome then .error .wrongShape
        else (orWrongShape (decls.mapM TypeDecl.reread?)).map some) := by
  cases types with
  | some types =>
    intro rest _
    simp [scanManifestMember, Except.map, Except.bind]
  | none =>
    have hread := (reads_decls 122 hrange hbound).behindColon some
    simpa [scanManifestMember, declDepth, Json.depthLimit] using hread

theorem reads_manifest {bound : Nat} {manifest : Manifest}
    (hrange : ∀ decl ∈ manifest.types, decl.InRange)
    (hbound : manifest.toJson.compact.toList.length ≤ bound) :
    Reads (scanManifest bound) manifest.toJson.compact.toList
      (orWrongShape ((manifest.types.mapM TypeDecl.reread?).map Manifest.mk)) := by
  intro rest _
  set decls := Json.array (manifest.types.map TypeDecl.toJson)
  obtain ⟨hcount, hlength⟩ := Json.length_object [("types", decls)]
  have hmember := reads_manifestMember hrange ((hlength _ List.mem_cons_self).trans hbound)
  have hfold := Json.foldMembers_members (scanManifestMember bound) Prod.fst
    (fun member => member.2.compact.toList)
    (fun types _ => if types.isSome then .error .wrongShape
      else (orWrongShape (manifest.types.mapM TypeDecl.reread?)).map some)
    (by
      intro member (hmem : member ∈ [("types", decls)]) types
      obtain rfl := List.mem_singleton.mp hmem
      exact hmember types)
    (hcount.trans_le hbound) true none rest
  have hbrace : Json.isBlank '\x7b' = false := by decide
  have hchars : manifest.toJson.compact.toList = _ := Json.toList_object [("types", decls)]
  rw [hchars]
  simp only [scanManifest, List.cons_append, List.append_assoc, List.nil_append, Json.bind_apply,
    Json.next?_cons hbrace, Except.bind, Json.advance_cons, hfold]
  cases manifest.types.mapM TypeDecl.reread? <;> rfl

/-- A written manifest is read as its declarations are read again one by one. -/
theorem Manifest.parse_compact (manifest : Manifest)
    (hrange : ∀ decl ∈ manifest.types, decl.InRange) :
    Manifest.parse manifest.toJson.compact
      = orWrongShape ((manifest.types.mapM TypeDecl.reread?).map Manifest.mk) := by
  have hread := reads_manifest hrange (Nat.le_succ manifest.toJson.compact.toList.length) []
    Json.endsNumber_nil
  rw [List.append_nil] at hread
  simp only [Manifest.parse, Json.readAll, StateT.run, Json.bind_apply, hread]
  cases manifest.types.mapM TypeDecl.reread? <;> rfl

/-- A manifest means the same when it is written and read again exactly if the types of all fields
are read back from their texts. -/
theorem Manifest.parse_compact_eq_self_iff (manifest : Manifest)
    (hrange : ∀ decl ∈ manifest.types, decl.InRange) :
    Manifest.parse manifest.toJson.compact = .ok manifest ↔
      ∀ decl ∈ manifest.types, ∀ type ∈ decl.fieldTypes, TypeRef.parse type.text = .ok type := by
  rcases manifest with ⟨decls⟩
  simp only [Manifest.parse_compact _ hrange, ← TypeDecl.reread?_eq_self_iff, ← mapM_eq_self_iff]
  cases decls.mapM TypeDecl.reread? <;> simp [orWrongShape]

end Wireform.Schema
