import Wireform.Dispatch.Table
import Wireform.Proofs.Dispatch
import Wireform.Proofs.Rederived

/-!
# Fixed tables and registries

A dispatch table has its tags once and for all; a registry has those that its types asked for.
Where they are the same the two cannot be told apart: they measure and write the same, they read the
same value or fail with the same error, and they leave the cursor in the same place.

Both decide by the tag alone, so it is enough that they find the same rows
(`Registry.Mirrors.rowOf?_eq`).  What they call a type may differ, and shows in one place: a
mismatch names the type that was asked for and the one that is there.  `Reading.renamed` puts the
names of one for those of the other.

Registering types under tags of their own cannot fail, in whatever order it is done
(`Registry.exists_build`).
-/
namespace Wireform

open Schema (SchemaError TagEntry TagRegistry)

namespace Registry

variable {typeOf : String → WireType} {asked : List (String × Nat)} {registry : Registry}

/-! ## 1. Asking for tags -/

/-- Those types are registered that asked for a tag, each under that tag. -/
structure HasAsked (typeOf : String → WireType) (asked : List (String × Nat))
    (registry : Registry) : Prop where
  inStep : InStep typeOf (asked.map Prod.fst) registry
  tagOf_iff : ∀ name tag, registry.tagOf name = .ok tag ↔ (name, tag) ∈ asked

theorem hasAsked_empty (typeOf : String → WireType) : HasAsked typeOf [] empty := by
  refine ⟨inStep_empty typeOf, fun name tag => ?_⟩
  rw [tagOf_eq_ok_iff]
  constructor <;> intro h <;> cases h

/-- One more type can ask for a tag that no other has. -/
theorem HasAsked.add (h : HasAsked typeOf asked registry)
    (htype : ∀ name, (typeOf name).name = name) {name : String} {tag : Nat}
    (hname : name ∉ asked.map Prod.fst) (htag : tag ∉ asked.map Prod.snd)
    (hrange : tag ≠ 0 ∧ tag < 256) : ∃ next, registry.add (typeOf name) (some tag) = .ok next ∧
      HasAsked typeOf (asked ++ [(name, tag)]) next := by
  have hkey : registry.tags.tagOf? name = none := by
    refine Option.eq_none_iff_forall_ne_some.mpr fun found hfound => hname ?_
    exact List.mem_map_of_mem ((h.tagOf_iff name found).mp (tagOf_eq_ok_iff.mpr hfound))
  have hfree : registry.tags.entryOf? tag = none := by
    refine h.inStep.sound.entryOf?_eq_none_iff.mpr fun other hother => htag ?_
    exact List.mem_map_of_mem ((h.tagOf_iff other tag).mp (tagOf_eq_ok_iff.mpr hother))
  let tags : TagRegistry String :=
    ⟨TagRegistry.insertEntry ⟨tag, name, name⟩ registry.tags.entries⟩
  have hgrants : registry.tags.Grants name name tag tags := .new hkey hfree hrange
  have hregister : registry.tags.registerWithTag name tag name = .ok (tag, tags) := by
    rw [TagRegistry.registerWithTag, if_neg hrange.1, hkey]
    dsimp only
    rw [hfree]
  refine ⟨⟨tags, insertRow ⟨tag, typeOf name⟩ registry.rows⟩, ?_, ?_, fun other found => ?_⟩
  · unfold Registry.add registerWithTag
    dsimp only
    rw [htype, hregister]
    rfl
  · rw [List.map_append]
    exact h.inStep.grant hgrants
  · rw [tagOf_eq_ok_iff, h.inStep.sound.tagOf?_grant_iff hgrants, ← tagOf_eq_ok_iff, h.tagOf_iff,
      List.mem_append, List.mem_singleton, Prod.mk.injEq]

/-- **Types that ask for tags of their own are registered**, in whatever order. -/
theorem exists_build (htype : ∀ name, (typeOf name).name = name)
    (hnames : (asked.map Prod.fst).Nodup) (htags : (asked.map Prod.snd).Nodup)
    (hrange : ∀ call ∈ asked, call.2 ≠ 0 ∧ call.2 < 256) :
    ∃ registry, build typeOf (asked.map fun call => (call.1, some call.2)) = .ok registry ∧
      HasAsked typeOf asked registry := by
  induction asked using List.reverseRecOn with
  | nil => exact ⟨empty, rfl, hasAsked_empty typeOf⟩
  | append_singleton asked call ih =>
    simp only [List.map_append, List.map_cons, List.map_nil, List.nodup_append, List.mem_singleton,
      List.forall_mem_append, forall_eq] at hnames htags hrange
    obtain ⟨registry, hbuild, hasked⟩ := ih hnames.1 htags.1 hrange.1
    obtain ⟨next, hadd, hnext⟩ := hasked.add htype
      (fun hmem => hnames.2.2 _ hmem rfl) (fun hmem => htags.2.2 _ hmem rfl) hrange.2
    refine ⟨next, ?_, hnext⟩
    unfold build at hbuild ⊢
    rw [List.map_append, List.foldlM_append, hbuild]
    show [(call.1, some call.2)].foldlM
      (fun registry call => registry.add (typeOf call.1) call.2) registry = _
    rw [List.foldlM_cons, hadd]
    rfl

end Registry

/-! ## 2. The same rows -/

/-- A value of a table's type as a value of any type, where `path` tells what the type is called. -/
def TableValue.toAny (typeOf : String → WireType) (path : String → String) (any : TableValue) :
    AnyValue :=
  ⟨typeOf (path any.row.type.name), any.value⟩

/-- What a failure reports where `path` tells what types are called. -/
def Failure.renamed (path : String → String) : Failure → Failure
  | .wire (.dispatch (.typeMismatch tag expected actual)) =>
    .wire (.dispatch (.typeMismatch tag (path expected) (path actual)))
  | failure => failure

/-- A reading that fails as one does where `path` tells what types are called. -/
def Reading.renamed {α : Type} (path : String → String) : Reading α → Reading α
  | .ok value cursor => .ok value cursor
  | .error failure cursor => .error (failure.renamed path) cursor

theorem Failure.renamed_of_not_isDispatch {failure : Failure} (h : ¬failure.IsDispatch)
    (path : String → String) : failure.renamed path = failure := by
  unfold renamed
  split
  · exact absurd trivial h
  · rfl

namespace DispatchTable

variable {table : DispatchTable} {typeOf : String → WireType} {path : String → String}
  {registry : Registry}

/-- The row of a tag is the one that has it. -/
theorem rowOfTag?_of_mem (htags : (table.rows.map TableRow.tag).Nodup) {row : TableRow}
    (hrow : row ∈ table.rows) : table.rowOfTag? row.tag = some row :=
  find?_eq_some_of_unique hrow (beq_self_eq_true _) fun _ hother htag =>
    List.inj_on_of_nodup_map htags hother hrow (beq_iff_eq.mp htag)

theorem mem_of_rowOfTag? {tag : Nat} {row : TableRow} (h : table.rowOfTag? tag = some row) :
    row ∈ table.rows ∧ row.tag = tag :=
  ⟨List.mem_of_find?_eq_some h, beq_iff_eq.mp (List.find?_some h :)⟩

/-- The registry knows the types of the table, under the same tags and with the same codecs, and
calls them by their paths. -/
structure MirroredBy (table : DispatchTable) (typeOf : String → WireType) (path : String → String)
    (registry : Registry) : Prop where
  rowOf?_eq : ∀ tag, registry.rowOf? tag =
    (table.rowOfTag? tag).map fun row => ⟨tag, typeOf (path row.type.name)⟩
  tagOf_eq : ∀ row ∈ table.rows, registry.tagOf (path row.type.name) = .ok row.tag
  codec_eq : ∀ row ∈ table.rows, (typeOf (path row.type.name)).codec = row.type.codec

/-- What asked for the tags of a table mirrors it. -/
theorem mirroredBy_of_hasAsked (htype : ∀ name, (typeOf name).name = name)
    (htags : (table.rows.map TableRow.tag).Nodup)
    (hcodec : ∀ row ∈ table.rows, (typeOf (path row.type.name)).codec = row.type.codec)
    {asked : List (String × Nat)} (h : registry.HasAsked typeOf asked)
    (hasked : asked.Perm (table.rows.map fun row => (path row.type.name, row.tag))) :
    table.MirroredBy typeOf path registry := by
  have htagOf : ∀ row ∈ table.rows, registry.tagOf (path row.type.name) = .ok row.tag := by
    intro row hrow
    rw [h.tagOf_iff, hasked.mem_iff]
    exact List.mem_map_of_mem hrow
  refine ⟨fun tag => ?_, htagOf, hcodec⟩
  cases hfound : table.rowOfTag? tag with
  | some row =>
    obtain ⟨hrow, rfl⟩ := mem_of_rowOfTag? hfound
    exact (h.inStep.tagOf_iff_rowOf? htype).mp (htagOf row hrow)
  | none =>
    refine Option.eq_none_iff_forall_ne_some.mpr fun other hother => ?_
    obtain ⟨name, hname, -⟩ := h.inStep.rowOf?_eq_some_iff.mp hother
    have hmem := (h.tagOf_iff name tag).mp (Registry.tagOf_eq_ok_iff.mpr hname)
    obtain ⟨row, hrow, heq⟩ := List.mem_map.mp (hasked.mem_iff.mp hmem)
    obtain ⟨-, rfl⟩ := Prod.mk.inj heq
    rw [rowOfTag?_of_mem htags hrow] at hfound
    cases hfound

/-! ## 3. The same answers -/

/-- **The table and the registry cannot be told apart**: sizes and writes are equal, of values whose
type is named and of values of any type; so are reads by a tag, for every tag, and of any type; and
a read for a type differs in nothing but what a mismatch calls the types. -/
structure AgreesWith (table : DispatchTable) (typeOf : String → WireType) (path : String → String)
    (registry : Registry) : Prop where
  sizeOf : ∀ row ∈ table.rows, ∀ value,
    registry.sizeOf (typeOf (path row.type.name)) value = .ok (row.sizeOf value)
  size : ∀ any : Option TableValue, (∀ value ∈ any, value.row ∈ table.rows) →
    registry.sizeAny (any.map (TableValue.toAny typeOf path)) = .ok (TableValue.size any)
  writeTyped : ∀ row ∈ table.rows, ∀ value,
    registry.write (typeOf (path row.type.name)) value = row.write value
  write : ∀ any : Option TableValue, (∀ value ∈ any, value.row ∈ table.rows) →
    registry.writeAny (any.map (TableValue.toAny typeOf path)) = TableValue.write any
  readByTag : ∀ tag, registry.readByTag tag = (do
    let any ← table.readByTag tag
    pure (any.toAny typeOf path))
  read : registry.readAny = (do
    let any ← table.read
    pure (any.map (TableValue.toAny typeOf path)))
  readAs : ∀ row ∈ table.rows, ∀ buffer cursor,
    registry.read (typeOf (path row.type.name)) buffer cursor =
      Reading.renamed path (table.readAs row buffer cursor)

namespace MirroredBy

theorem readByTag (h : table.MirroredBy typeOf path registry) (tag : Nat) :
    registry.readByTag tag = (do
      let any ← table.readByTag tag
      pure (any.toAny typeOf path)) := by
  funext buffer cursor
  rw [Registry.readByTag_apply, h.rowOf?_eq, DispatchTable.readByTag]
  cases hfound : table.rowOfTag? tag with
  | none => rfl
  | some row =>
    simp only [Option.map_some, h.codec_eq row (mem_of_rowOfTag? hfound).1, Reader.bind_apply]
    cases row.type.codec.read buffer cursor <;> rfl

theorem read (h : table.MirroredBy typeOf path registry) :
    registry.readAny = (do
      let any ← table.read
      pure (any.map (TableValue.toAny typeOf path))) := by
  funext buffer cursor
  unfold DispatchTable.read
  cases hread : readTag buffer cursor with
  | error failure stop =>
    have hany : registry.readAny buffer cursor = .error failure stop := Reader.bind_of_error hread
    rw [hany]
    exact (Reader.bind_of_error (Reader.bind_of_error hread)).symm
  | ok tag stop =>
    rw [Registry.readAny_of_readTag registry hread, Reader.bind_apply, Reader.bind_of_ok hread,
      h.readByTag]
    by_cases hnull : tag = nullTag
    · rw [if_pos hnull, if_pos hnull]
      rfl
    · rw [if_neg hnull, if_neg hnull]
      simp only [Reader.bind_apply]
      cases table.readByTag tag buffer stop <;> rfl

/-- A read for a type of the table. -/
theorem readAs (h : table.MirroredBy typeOf path registry)
    (htype : ∀ name, (typeOf name).name = name) (htags : (table.rows.map TableRow.tag).Nodup)
    (hcodec : ∀ row ∈ table.rows, row.type.codec.Undispatched) {row : TableRow}
    (hrow : row ∈ table.rows) (buffer : Buffer) (cursor : Nat) :
    registry.read (typeOf (path row.type.name)) buffer cursor =
      Reading.renamed path (table.readAs row buffer cursor) := by
  unfold Registry.read DispatchTable.readAs
  cases hread : readTag buffer cursor with
  | error failure stop =>
    have hfor : registry.readTagFor (typeOf (path row.type.name)) buffer cursor =
        .error failure stop := Reader.bind_of_error hread
    have hfailure := Reader.Undispatched.readByte buffer cursor failure stop hread
    rw [Reader.bind_of_error hfor, Reader.bind_of_error hread, Reading.renamed,
      Failure.renamed_of_not_isDispatch hfailure]
  | ok tag stop =>
    have hfor := Registry.readTagFor_of_readTag registry (typeOf (path row.type.name)) hread
    rw [h.rowOf?_eq] at hfor
    rw [Reader.bind_of_ok hread]
    by_cases hnull : tag = nullTag
    · rw [if_pos hnull] at hfor
      rw [Reader.bind_of_ok hfor, if_pos hnull]
      rfl
    · rw [if_neg hnull] at hfor
      rw [if_neg hnull]
      cases hfound : table.rowOfTag? tag with
      | none =>
        have hother : tag ≠ row.tag := by
          rintro rfl
          rw [rowOfTag?_of_mem htags hrow] at hfound
          cases hfound
        rw [hfound] at hfor
        rw [Reader.bind_of_error hfor, if_neg hother, typeNameOf?, hfound]
        rfl
      | some actual =>
        obtain ⟨hactual, rfl⟩ := mem_of_rowOfTag? hfound
        rw [hfound] at hfor
        simp only [Option.map_some, htype] at hfor
        by_cases hsame : actual.tag = row.tag
        · have heq : actual = row := List.inj_on_of_nodup_map htags hactual hrow hsame
          subst heq
          rw [if_pos rfl] at hfor
          rw [Reader.bind_of_ok hfor, if_pos rfl, if_pos rfl, Reader.bind_apply, Reader.bind_apply,
            h.codec_eq actual hrow]
          cases hpayload : actual.type.codec.read buffer stop with
          | ok value last => rfl
          | error failure last =>
            have hfailure := (hcodec actual hrow).read buffer stop failure last hpayload
            dsimp only
            rw [Reading.renamed, Failure.renamed_of_not_isDispatch hfailure]
        · -- one path is that of one tag
          have hpath : path actual.type.name ≠ path row.type.name := by
            intro heq
            have htag := h.tagOf_eq actual hactual
            rw [heq, h.tagOf_eq row hrow] at htag
            exact hsame (Except.ok.inj htag).symm
          rw [if_neg hpath] at hfor
          rw [Reader.bind_of_error hfor, if_neg hsame, typeNameOf?, hfound]
          rfl

/-- **What mirrors a table agrees with it.** -/
theorem agreesWith (h : table.MirroredBy typeOf path registry)
    {names : List String} (hinstep : registry.InStep typeOf names)
    (htype : ∀ name, (typeOf name).name = name) (htags : (table.rows.map TableRow.tag).Nodup)
    (hundispatched : ∀ name, (typeOf name).codec.Undispatched) :
    table.AgreesWith typeOf path registry := by
  have hwrites := hinstep.writesAgree htype hundispatched
  have hcodec : ∀ row ∈ table.rows, row.type.codec.Undispatched := by
    intro row hrow
    rw [← h.codec_eq row hrow]
    exact hundispatched _
  have hsize : ∀ row ∈ table.rows, ∀ value,
      registry.sizeOf (typeOf (path row.type.name)) value = .ok (row.sizeOf value) := by
    intro row hrow value
    cases value with
    | none => rfl
    | some value =>
      rw [(hwrites.size _ _ (h.tagOf_eq row hrow) value).1, h.codec_eq row hrow]
      rfl
  have hwrite : ∀ row ∈ table.rows, ∀ value,
      registry.write (typeOf (path row.type.name)) value = row.write value := by
    intro row hrow value
    cases value with
    | none => rfl
    | some value =>
      rw [(hwrites.write _ _ (h.tagOf_eq row hrow) value).1, h.codec_eq row hrow]
      rfl
  refine ⟨hsize, fun any hany => ?_, hwrite, fun any hany => ?_, h.readByTag, h.read,
    fun row hrow => h.readAs htype htags hcodec hrow⟩
  · cases any with
    | none => rfl
    | some any =>
      have hrow := hany any rfl
      exact (hwrites.size _ _ (h.tagOf_eq any.row hrow) any.value).2.trans (hsize any.row hrow _)
  · cases any with
    | none => rfl
    | some any =>
      have hrow := hany any rfl
      exact (hwrites.write _ _ (h.tagOf_eq any.row hrow) any.value).2.trans (hwrite any.row hrow _)

end MirroredBy

end DispatchTable

/-! ## 4. The sample schema -/

namespace Samples

/-- **The dispatch table of the sample schema is a registry of its types.**  Whatever the registry
calls the three types, and in whatever order they ask for the tags of the table, they are
registered, and the table and the registry cannot be told apart. -/
theorem table_is_registry [DecimalForm] {path : String → String} {shapeOf : String → Shape}
    (hshape : ∀ name ∈ ["Person", "Vec3", "Node"], shapeOf (path name) = .named (scope ++ name))
    {asked : List (String × Nat)}
    (hasked : asked.Perm [(path "Person", 1), (path "Vec3", 2), (path "Node", 10)]) :
    ∃ registry, Registry.build (declared.wireType Sharing.none shapeOf)
        (asked.map fun call => (call.1, some call.2)) = .ok registry ∧
      table.AgreesWith (declared.wireType Sharing.none shapeOf) path registry := by
  have htype : ∀ name, (declared.wireType Sharing.none shapeOf name).name = name := fun _ => rfl
  have hcodec : ∀ name, (declared.wireType Sharing.none shapeOf name).codec.Undispatched :=
    fun name => analyzed_declared.planned.undispatched Sharing.none (shapeOf name)
  have htags : (table.rows.map TableRow.tag).Nodup := by
    show [1, 2, 10].Nodup
    decide
  -- types of different shapes are called differently
  have hinjective : ∀ name ∈ ["Person", "Vec3", "Node"], ∀ other ∈ ["Person", "Vec3", "Node"],
      path name = path other → name = other := by
    intro name hname other hother heq
    have hnamed := hshape name hname
    rw [heq, hshape other hother] at hnamed
    exact ((String.append_right_inj scope).mp (Shape.named.inj hnamed)).symm
  have hpaths : (["Person", "Vec3", "Node"].map path).Nodup := .map_on hinjective (by decide)
  have hnames : (asked.map Prod.fst).Nodup := (hasked.map Prod.fst).nodup_iff.mpr hpaths
  have hrange : ∀ call ∈ asked, call.2 ≠ 0 ∧ call.2 < 256 := by
    intro call hcall
    have hmem := hasked.mem_iff.mp hcall
    simp only [List.mem_cons, List.not_mem_nil, or_false] at hmem
    rcases hmem with rfl | rfl | rfl <;> simp
  obtain ⟨registry, hbuild, hregistry⟩ := Registry.exists_build htype hnames
    ((hasked.map Prod.snd).nodup_iff.mpr (by simp)) hrange
  have hrows : ∀ row ∈ table.rows,
      (declared.wireType Sharing.none shapeOf (path row.type.name)).codec = row.type.codec := by
    intro row hrow
    obtain ⟨⟨tag, decl⟩, hdecl, rfl⟩ := List.mem_map.mp hrow
    have hname : decl.name ∈ ["Person", "Vec3", "Node"] :=
      List.mem_map_of_mem (f := fun entry : Nat × Schema.StructDecl => entry.2.name) hdecl
    exact congrArg (declared.codecOf Sharing.none) (hshape decl.name hname)
  have hmirrored : table.MirroredBy (declared.wireType Sharing.none shapeOf) path registry :=
    DispatchTable.mirroredBy_of_hasAsked htype htags hrows hregistry hasked
  exact ⟨registry, hbuild, hmirrored.agreesWith hregistry.inStep htype htags hcodec⟩

/-- Three types in a module of their own, registered in the order of their names: a point is read
for its tag and for its type, a node is refused as a point, and null and the first unused tag are no
types. -/
theorem table_is_registry_points :
    let path (name : String) : String := "points::" ++ name
    let shapeOf (called : String) : Shape :=
      if called = "points::Person" then .named "gen.Person"
      else if called = "points::Vec3" then .named "gen.Vec3"
      else .named "gen.Node"
    let typeOf := declared.wireType Sharing.none shapeOf
    let asked : List (String × Nat) :=
      [("points::Node", 10), ("points::Person", 1), ("points::Vec3", 2)]
    ((∀ name ∈ ["Person", "Vec3", "Node"], shapeOf (path name) = .named (scope ++ name)) ∧
        asked.Perm [(path "Person", 1), (path "Vec3", 2), (path "Node", 10)]) ∧
      ∃ registry, Registry.build typeOf (asked.map fun call => (call.1, some call.2)) =
          .ok registry ∧
        registry.readAny (2 :: List.replicate 12 0) 0 =
          .ok (some ⟨typeOf "points::Vec3", .record [.bits 0, .bits 0, .bits 0]⟩) 13 ∧
        registry.read (typeOf "points::Vec3") [10, 1, 5, 0, 0, 0] 0 =
          .error (.wire (.dispatch (.typeMismatch 10 "points::Vec3" "points::Node"))) 1 ∧
        registry.readByTag 0 [] 0 = .error (.wire (.dispatch (.unknownTag 0))) 0 ∧
        registry.readByTag 3 [] 0 = .error (.wire (.dispatch (.unknownTag 3))) 0 := by
  intro path shapeOf typeOf asked
  have hshape : ∀ name ∈ ["Person", "Vec3", "Node"],
      shapeOf (path name) = .named (scope ++ name) := by
    decide
  have hasked : asked.Perm [(path "Person", 1), (path "Vec3", 2), (path "Node", 10)] := by
    decide
  obtain ⟨registry, hbuild, hagrees⟩ := table_is_registry hshape hasked
  let buffer : Buffer := 2 :: List.replicate 12 0
  have hpoint : (declared.shapeCodec (.named "gen.Vec3")).read buffer 1 =
      .ok (.record [.bits 0, .bits 0, .bits 0]) 13 := by
    rw [declared_eq]
    rfl
  have hrow : table.readByTag 2 buffer 1 =
      .ok ⟨table.rows[1], .record [.bits 0, .bits 0, .bits 0]⟩ 13 :=
    Reader.bind_of_ok hpoint
  have htable : table.read buffer 0 =
      .ok (some ⟨table.rows[1], .record [.bits 0, .bits 0, .bits 0]⟩) 13 :=
    (Reader.bind_of_ok (rfl : readTag buffer 0 = .ok 2 1)).trans (Reader.bind_of_ok hrow)
  refine ⟨⟨hshape, hasked⟩, registry, hbuild, ?_, ?_, ?_, ?_⟩
  · rw [hagrees.read]
    exact Reader.bind_of_ok htable
  · exact hagrees.readAs table.rows[1] (List.getElem_mem _) _ _
  · rw [hagrees.readByTag]
    rfl
  · rw [hagrees.readByTag]
    rfl

end Samples

end Wireform
