import Wireform.Proofs.Alike

/-!
# Catalogues that match

Two catalogues *match* if they have the same names in the same order, and what a name stands for is
of one layout in both; a declared record and a lowered structure may well be such a pair.  Sizes,
initial values and layouts are worked out from the names, so they are the same in both, and with them
the values of every shape (`Matches.hasShape_iff`).

So are the codecs: by induction on the nestings those of a name are alike (`Matches.alike_name`), and
with them those of every shape (`Matches.alike`).  The one step that is not congruence is that behind
both definitions of a name is a record codec, of the same fields.
-/
namespace Wireform

/-! ## 1. Definitions and catalogues that match -/

/-- Two definitions are of one layout: they have the same fields or the same variants, the same
fixed size, and the same initial value. -/
structure Definition.Matches (definition definition' : Definition) : Prop where
  layout : ∀ initial, definition.layout? initial = definition'.layout? initial
  variants : ∀ e, definition = .enumeration e ↔ definition' = .enumeration e
  fixedSize : definition.fixedSize = definition'.fixedSize
  initial : definition.initial = definition'.initial

namespace Definition.Matches

theorem refl (definition : Definition) : definition.Matches definition :=
  ⟨fun _ => rfl, fun _ => Iff.rfl, rfl, rfl⟩

theorem symm {definition definition' : Definition} (h : definition.Matches definition') :
    definition'.Matches definition :=
  ⟨fun initial => (h.layout initial).symm, fun e => (h.variants e).symm, h.fixedSize.symm,
    h.initial.symm⟩

end Definition.Matches

/-- Two catalogues have the same names in the same order, and what a name stands for matches. -/
structure Catalogue.Matches (catalogue catalogue' : Catalogue) : Prop where
  entries : List.Forall₂ (fun entry entry' => entry.1 = entry'.1 ∧ entry.2.Matches entry'.2)
    catalogue.entries catalogue'.entries

namespace Catalogue.Matches

variable {catalogue catalogue' : Catalogue}

theorem symm (h : catalogue.Matches catalogue') : catalogue'.Matches catalogue :=
  ⟨h.entries.flip.imp fun _ _ hentry => ⟨hentry.1.symm, hentry.2.symm⟩⟩

theorem length (h : catalogue.Matches catalogue') :
    catalogue.entries.length = catalogue'.entries.length := h.entries.length_eq

/-- A name stands for nothing in both catalogues, or for definitions that match. -/
theorem get? (h : catalogue.Matches catalogue') (name : String) :
    (catalogue.get? name = none ∧ catalogue'.get? name = none) ∨
      ∃ definition definition', catalogue.get? name = some definition ∧
        catalogue'.get? name = some definition' ∧ definition.Matches definition' := by
  obtain ⟨hentries⟩ := h
  unfold Catalogue.get?
  generalize catalogue.entries = entries, catalogue'.entries = entries' at hentries
  induction hentries with
  | nil => exact .inl ⟨rfl, rfl⟩
  | @cons entry entry' rest rest' hentry hrest ih =>
    obtain ⟨key, definition⟩ := entry
    obtain ⟨key', definition'⟩ := entry'
    obtain ⟨rfl, hmatches⟩ : key = key' ∧ definition.Matches definition' := hentry
    rw [List.lookup_cons, List.lookup_cons]
    cases name == key with
    | true => exact .inr ⟨definition, definition', rfl, rfl, hmatches⟩
    | false => exact ih

theorem fixedSizeAt (h : catalogue.Matches catalogue') (depth : Nat) :
    catalogue.fixedSizeAt depth = catalogue'.fixedSizeAt depth := by
  induction depth with
  | zero => rfl
  | succ depth ih =>
    funext name
    rw [Catalogue.fixedSizeAt, Catalogue.fixedSizeAt, ih]
    obtain ⟨hname, hname'⟩ | ⟨definition, definition', hname, hname', hmatches⟩ := h.get? name
    · rw [hname, hname']
    · rw [hname, hname']
      exact congrFun hmatches.fixedSize _

theorem fixedSize (h : catalogue.Matches catalogue') : catalogue.fixedSize = catalogue'.fixedSize := by
  funext name
  unfold Catalogue.fixedSize
  rw [h.length, h.fixedSizeAt]

theorem initialAt (h : catalogue.Matches catalogue') (depth : Nat) :
    catalogue.initialAt depth = catalogue'.initialAt depth := by
  induction depth with
  | zero => rfl
  | succ depth ih =>
    funext name
    rw [Catalogue.initialAt, Catalogue.initialAt, ih]
    obtain ⟨hname, hname'⟩ | ⟨definition, definition', hname, hname', hmatches⟩ := h.get? name
    · rw [hname, hname']
    · rw [hname, hname']
      exact congrFun hmatches.initial _

theorem initial (h : catalogue.Matches catalogue') : catalogue.initial = catalogue'.initial := by
  funext name
  unfold Catalogue.initial
  rw [h.length, h.initialAt]

theorem layout? (h : catalogue.Matches catalogue') (name : String) :
    catalogue.layout? name = catalogue'.layout? name := by
  unfold Catalogue.layout?
  rw [h.initial]
  obtain ⟨hname, hname'⟩ | ⟨definition, definition', hname, hname', hmatches⟩ := h.get? name
  · rw [hname, hname']
  · rw [hname, hname']
    exact hmatches.layout _

/-- **Catalogues that match have the same values.** -/
theorem hasShape (h : catalogue.Matches catalogue') {shape : Shape} {value : Value}
    (hvalue : catalogue.HasShape shape value) : catalogue'.HasShape shape value := by
  induction hvalue with
  | leaf h => exact .leaf h
  | null => exact .null
  | present h ih => exact .present ih
  | boxed h ih => exact .boxed ih
  | shared h ih => exact .shared ih
  | sequence h ih => exact .sequence ih
  | array hlength h ih => exact .array hlength ih
  | mapping hkey hvalue ihkey ihvalue => exact .mapping ihkey ihvalue
  | @variant name e v hname hv =>
    obtain ⟨hnone, -⟩ | ⟨definition, definition', hfound, hname', hmatches⟩ := h.get? name
    · rw [hnone] at hname
      cases hname
    · cases hfound.symm.trans hname
      rw [(hmatches.variants e).mp rfl] at hname'
      exact .variant hname' hv
  | record hname hlength htakes hcontent ih =>
    exact .record ((h.layout? _).symm.trans hname) hlength htakes ih

theorem hasShape_iff (h : catalogue.Matches catalogue') {shape : Shape} {value : Value} :
    catalogue.HasShape shape value ↔ catalogue'.HasShape shape value :=
  ⟨h.hasShape, h.symm.hasShape⟩

/-! ## 2. Codecs of catalogues that match -/

variable [DecimalForm] (sharing : Sharing Value)

/-- If the codecs of the names are alike, those of all shapes are. -/
theorem alike_of_named {nestings : Nat}
    (hnamed : ∀ name, (catalogue.codec sharing nestings name).Alike (catalogue.HasShape (.named name))
      (catalogue'.codec sharing nestings name)) (shape : Shape) :
    (catalogue.within sharing nestings shape).Alike (catalogue.HasShape shape)
      (catalogue'.within sharing nestings shape) := by
  induction shape with
  | leaf l => exact .refl _ _
  | option inner ih =>
    refine (ih.option.lift Value.optionCase).mono fun value hvalue slot hslot content heq => ?_
    subst heq
    cases Value.optionCase.wrap_of_get? hslot
    cases hvalue with
    | present h => exact h
  | boxed inner ih =>
    refine ih.mono fun value hvalue => ?_
    cases hvalue with
    | boxed h => exact h
  | shared inner ih =>
    refine (ih.shared sharing).mono fun value hvalue => ?_
    cases hvalue with
    | shared h => exact h
  | sequence kind element ih =>
    refine ((ih.sequence kind).lift Value.listCase).mono fun value hvalue items hitems => ?_
    cases Value.listCase.wrap_of_get? hitems
    cases hvalue with
    | sequence h => exact h
  | array length element ih =>
    refine ((ih.array length).lift Value.listCase).mono fun value hvalue items hitems => ?_
    cases Value.listCase.wrap_of_get? hitems
    cases hvalue with
    | array hlength h => exact h
  | mapping kind key value ihkey ihvalue =>
    refine ((ihkey.mapping kind ihvalue).lift Value.entriesCase).mono
      fun target htarget entries hentries => ?_
    cases Value.entriesCase.wrap_of_get? hentries
    cases htarget with
    | mapping hkey hvalue => exact fun entry hentry => ⟨hkey entry hentry, hvalue entry hentry⟩
  | named name => exact hnamed name

/-- The codecs of definitions that match are alike, if those of all shapes are. -/
theorem alike_definition (h : catalogue.Matches catalogue') {nestings : Nat}
    (hplanned : catalogue.Planned) (hplanned' : catalogue'.Planned)
    (halike : ∀ shape, (catalogue.within sharing nestings shape).Alike (catalogue.HasShape shape)
      (catalogue'.within sharing nestings shape))
    {name : String} {definition definition' : Definition}
    (hname : catalogue.get? name = some definition)
    (hname' : catalogue'.get? name = some definition') (hmatches : definition.Matches definition') :
    (definition.codec sharing catalogue.initial (catalogue.codec sharing nestings)).Alike
      (catalogue.HasShape (.named name))
      (definition'.codec sharing catalogue'.initial (catalogue'.codec sharing nestings)) := by
  rcases definition.enumeration_or_layout catalogue.initial with ⟨e, rfl⟩ | ⟨fields, hlayout⟩
  · cases (hmatches.variants e).mp rfl
    exact .refl _ _
  · have hlayout' : definition'.layout? catalogue'.initial = some fields := by
      rw [← hmatches.layout, ← h.initial]
      exact hlayout
    obtain ⟨inner, hinner, hrecord, hread⟩ := hplanned.codec_record sharing nestings hname hlayout
    obtain ⟨inner', hinner', hrecord', hread'⟩ :=
      hplanned'.codec_record sharing nestings hname' hlayout'
    have hfields := Codec.Alike.record fun field (_ : field ∈ fields) => halike field.shape
    have hinners := Codec.Alike.of_records hrecord hrecord'
      (fun buffer cursor => (hread buffer cursor).symm)
      (fun buffer cursor => (hread' buffer cursor).symm) hfields
    rw [hinner, hinner']
    refine (hinners.lift Value.recordCase).mono fun value hvalue values hvalues => ?_
    cases Value.recordCase.wrap_of_get? hvalues
    cases hvalue with
    | record hfound hlength htakes hcontent =>
      cases ((layout?_of_get? hname).trans hlayout).symm.trans hfound
      refine ⟨hcontent, ?_, ?_⟩
      · rw [List.length_map]
        exact hlength
      · rw [List.length_map]
        exact hlength

/-- **What a name stands for has codecs that are alike**, however many nestings there are. -/
theorem alike_name (h : catalogue.Matches catalogue') (hplanned : catalogue.Planned)
    (hplanned' : catalogue'.Planned) (nestings : Nat) (name : String) :
    (catalogue.codec sharing nestings name).Alike (catalogue.HasShape (.named name))
      (catalogue'.codec sharing nestings name) := by
  have hfixed : catalogue.fixedSize name = catalogue'.fixedSize name := congrFun h.fixedSize name
  induction nestings generalizing name with
  | zero => exact .deferred hfixed (.refl _ _)
  | succ nestings ih =>
    have halike := alike_of_named sharing fun name => ih name (congrFun h.fixedSize name)
    rw [Catalogue.codec, Catalogue.codec]
    refine .deferred hfixed ?_
    obtain ⟨hname, hname'⟩ | ⟨definition, definition', hname, hname', hmatches⟩ := h.get? name
    · rw [hname, hname']
      exact .refl _ _
    · rw [hname, hname']
      exact h.alike_definition sharing hplanned hplanned' halike hname hname' hmatches

/-- **Catalogues that match have codecs that are alike**, for every shape. -/
theorem alike (h : catalogue.Matches catalogue') (hplanned : catalogue.Planned)
    (hplanned' : catalogue'.Planned) (shape : Shape) :
    (catalogue.codecOf sharing shape).Alike (catalogue.HasShape shape)
      (catalogue'.codecOf sharing shape) := by
  have hwithin : ∀ nestings, (catalogue.within sharing nestings shape).Alike
      (catalogue.HasShape shape) (catalogue'.within sharing nestings shape) := fun nestings =>
    alike_of_named sharing (h.alike_name sharing hplanned hplanned' nestings) shape
  have hnestings : catalogue.nestingsOf = catalogue'.nestingsOf := by
    funext buffer
    unfold nestingsOf
    rw [h.length]
  unfold codecOf
  rw [hnestings, h.fixedSize]
  exact {
    fixedSize := rfl
    size := fun value hvalue => (hwithin value.height).size value hvalue
    write := fun value hvalue => (hwithin value.height).write value hvalue
    read := fun buffer cursor => (hwithin _).read buffer cursor
    overwrite := fun target htarget buffer cursor => (hwithin _).overwrite target htarget buffer cursor
    nullable :=
      { size := fun slot hslot => (hwithin (Value.slotHeight slot)).nullable.size slot hslot
        write := fun slot hslot => (hwithin (Value.slotHeight slot)).nullable.write slot hslot
        read := fun buffer cursor => (hwithin _).nullable.read buffer cursor } }

end Catalogue.Matches

end Wireform
