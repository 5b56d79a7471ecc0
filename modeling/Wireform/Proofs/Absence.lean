import Wireform.Proofs.Sizes

/-!
# Fields that are made null

Nullable fields do not get in each other's way.  To make one of them null is to set its bit and to
leave out its bytes: the bit of no other field changes, and the bytes of the others only move up.
A field that is skipped is not there at all, so changing it changes nothing.

The bits are where slots become places.  Marking a slot sets one bit of the bytes
(`NullBitset.toBytes_of_setNull?`), marking one slot more is marking that slot last
(`NullBitset.ofMarks?_present_null`), and the slot of a field is the count of nullable fields up to
it (`Numbered.slot_eq`), whatever fields stand among them.
-/
namespace Wireform

/-! ## 1. One mark of a bitset -/

namespace NullBitset

variable {size : Nat}

/-- **Of two bitsets that are told different things of one slot, one is the other with that slot
marked.** -/
theorem ofMarks?_present_null {before behind : List (Nat × Bool)} {slot : Nat}
    (horder : (before ++ (slot, false) :: behind).Pairwise fun a b => a.1 < b.1)
    (hrange : ∀ mark ∈ before ++ (slot, false) :: behind, 1 ≤ mark.1 ∧ mark.1 ≤ 8 * size) :
    ∃ set marked : NullBitset size, ofMarks? (before ++ (slot, false) :: behind) = some set ∧
      ofMarks? (before ++ (slot, true) :: behind) = some marked ∧
      set.isNull? slot = some false ∧ set.setNull? slot = some marked := by
  have horder' : (before ++ (slot, true) :: behind).Pairwise fun a b => a.1 < b.1 := by
    simp only [List.pairwise_append, List.pairwise_cons, List.forall_mem_cons] at horder ⊢
    exact horder
  have hrange' : ∀ mark ∈ before ++ (slot, true) :: behind, 1 ≤ mark.1 ∧ mark.1 ≤ 8 * size := by
    simp only [List.forall_mem_append, List.forall_mem_cons] at hrange ⊢
    exact hrange
  obtain ⟨set, hset, htold⟩ := ofMarks?_answers horder hrange
  obtain ⟨marked, hmarked, htold'⟩ := ofMarks?_answers horder' hrange'
  have hslot : (slot, false) ∈ before ++ (slot, false) :: behind :=
    List.mem_append_right _ List.mem_cons_self
  obtain ⟨nulled, hnulled⟩ : ∃ nulled, set.setNull? slot = some nulled :=
    set.set?_isSome true (hrange _ hslot)
  refine ⟨set, marked, hset, hmarked, htold _ hslot, hnulled.trans (congrArg some ?_)⟩
  have hmark : set.set? slot true = some nulled := hnulled
  have hanswer := isNull?_of_set? hmark
  -- Up to the slot both are marked alike, and from there on at the same slots.
  rw [ofMarks?, List.foldlM_append, Option.bind_eq_bind, Option.bind_eq_some_iff] at hset hmarked
  obtain ⟨middle, hmiddle, hbehind⟩ := hset
  obtain ⟨middle', hmiddle', hbehind'⟩ := hmarked
  obtain rfl : middle = middle' := Option.some.inj (hmiddle.symm.trans hmiddle')
  rw [List.foldlM_cons, Option.bind_eq_bind, Option.bind_eq_some_iff] at hbehind hbehind'
  obtain ⟨present, hpresent, hset⟩ := hbehind
  obtain ⟨absent, habsent, hmarked⟩ := hbehind'
  refine ext_isNull? fun other _ _ => (hanswer other).trans ?_
  split
  · next heq =>
    subst heq
    exact (htold' (other, true) (List.mem_append_right _ List.mem_cons_self)).symm
  · next hne =>
    refine isNull?_congr_of_foldlM_set? hset hmarked ?_
    rw [isNull?_of_set? hpresent, isNull?_of_set? habsent, if_neg hne, if_neg hne]

end NullBitset

/-! ## 2. One field of a record -/

section

variable {front rest : List FieldLayout} {field : FieldLayout} {fronts rests : List Value}

/-- The slot of a field is its place among the nullable fields. -/
theorem Numbered.slot_eq {first slot : Nat}
    (h : Numbered first ((front ++ field :: rest).map FieldLayout.presence))
    (hslot : field.presence = .nullable slot) : slot = first + nullableCount front + 1 := by
  induction front generalizing first with
  | nil =>
    rw [List.nil_append, List.map_cons, hslot] at h
    exact h.1
  | cons head front ih =>
    rw [List.cons_append, List.map_cons] at h
    rw [nullableCount_cons, FieldLayout.isNullable]
    cases hpresence : head.presence with
    | nullable own =>
      rw [hpresence] at h
      have hslot := ih h.2
      simp only [if_true]
      omega
    | always | skipped =>
      rw [hpresence] at h
      have hslot := ih h
      simpa using hslot

theorem zip_record (hfront : front.length = fronts.length) (value : Value) :
    (front ++ field :: rest).zip (fronts ++ value :: rests) =
      front.zip fronts ++ (field, value) :: rest.zip rests :=
  List.zip_append hfront

theorem marksOf_record (hfront : front.length = fronts.length) (value : Value) :
    marksOf (front ++ field :: rest) (fronts ++ value :: rests) =
      marksOf front fronts ++ ((field.mark? value).toList ++ marksOf rest rests) := by
  unfold marksOf
  rw [zip_record hfront, List.filterMap_append, List.filterMap_cons]
  cases field.mark? value <;> rfl

theorem Catalogue.wireFields_record [DecimalForm] {catalogue : Catalogue} (hfront : front.length = fronts.length)
    (value : Value) :
    catalogue.wireFields (front ++ field :: rest) (fronts ++ value :: rests) =
      catalogue.wireFields front fronts ++
        (field.bytes catalogue.wire value ++ catalogue.wireFields rest rests) := by
  simp only [wireFields_eq, zip_record hfront, List.flatMap_append, List.flatMap_cons]

/-- The bitset of a record in which a field is null is the one in which it is present, with the bit
of its slot set, which was clear. -/
theorem Numbered.bitsetOf_null {slot : Nat}
    (hnumbered : Numbered 0 ((front ++ field :: rest).map FieldLayout.presence))
    (hslot : field.presence = .nullable slot) (hfront : front.length = fronts.length)
    (content : Value) (rests : List Value) : ∃ byte,
      (bitsetOf (front ++ field :: rest) (fronts ++ .present content :: rests))[(slot - 1) / 8]? =
          some byte ∧
        byte.toNat.testBit ((slot - 1) % 8) = false ∧
        bitsetOf (front ++ field :: rest) (fronts ++ .null :: rests) =
          (bitsetOf (front ++ field :: rest) (fronts ++ .present content :: rests)).set
            ((slot - 1) / 8) (byte ||| UInt8.ofNat (2 ^ ((slot - 1) % 8))) := by
  have hmarks : ∀ value, marksOf (front ++ field :: rest) (fronts ++ value :: rests) =
      marksOf front fronts ++ (slot, value.isNull) :: marksOf rest rests := by
    intro value
    rw [marksOf_record hfront, FieldLayout.mark?, hslot]
    rfl
  have hpresent : marksOf (front ++ field :: rest) (fronts ++ .present content :: rests) =
      marksOf front fronts ++ (slot, false) :: marksOf rest rests := hmarks _
  have hnull : marksOf (front ++ field :: rest) (fronts ++ .null :: rests) =
      marksOf front fronts ++ (slot, true) :: marksOf rest rests := hmarks _
  have horder := hnumbered.marksOf_pairwise (fronts ++ .present content :: rests)
  have hrange := hnumbered.marksOf_range (fronts ++ .present content :: rests)
  rw [hpresent] at horder hrange
  obtain ⟨set, marked, hset, hmarked, hclear, hnulled⟩ :=
    NullBitset.ofMarks?_present_null horder hrange
  obtain ⟨byte, hget, hbit, hbytes⟩ := NullBitset.toBytes_of_setNull? hnulled
  rw [hclear] at hbit
  simp only [bitsetOf, hpresent, hnull, hset, hmarked]
  exact ⟨byte, hget, (Option.some.inj hbit).symm, hbytes⟩

end

/-! ## 3. Catalogues -/

namespace Catalogue

variable {catalogue : Catalogue} {name : String} {front rest : List FieldLayout}
  {field : FieldLayout} {fronts rests : List Value} {value : Value}

theorem length_bitsetOf (hplanned : catalogue.Planned) {fields : List FieldLayout}
    (hname : catalogue.layout? name = some fields) (values : List Value) :
    (bitsetOf fields values).length = bitsetBytesOf fields := by
  obtain ⟨definition, hdefinition, hlayout⟩ := exists_of_layout? hname
  obtain ⟨set, -, hbitset, -⟩ := (Definition.layout_numbered catalogue.initial
    (hplanned name definition hdefinition) hlayout).bitset_answers values
  rw [hbitset, set.length_toBytes]

theorem wire_record [DecimalForm] (hname : catalogue.layout? name = some (front ++ field :: rest))
    (hfront : front.length = fronts.length) (value : Value) :
    catalogue.wire (.named name) (.record (fronts ++ value :: rests)) =
      bitsetOf (front ++ field :: rest) (fronts ++ value :: rests) ++
        (catalogue.wireFields front fronts ++
          (field.bytes catalogue.wire value ++ catalogue.wireFields rest rests)) := by
  rw [wire, fieldsOf_named hname, wireFields_record hfront]

/-- A record stays one of its type when a field gets another value of the field's type. -/
theorem HasShape.of_field
    (h : catalogue.HasShape (.named name) (.record (fronts ++ value :: rests)))
    (hname : catalogue.layout? name = some (front ++ field :: rest))
    (hfront : front.length = fronts.length) {value' : Value} (htakes : field.Takes value')
    (hcontent : ∀ content, field.content? value' = some content →
      catalogue.HasShape field.shape content) :
    catalogue.HasShape (.named name) (.record (fronts ++ value' :: rests)) := by
  cases h with
  | record hname' hlength htakesAll hall =>
    cases hname.symm.trans hname'
    simp only [zip_record hfront, List.forall_mem_append, List.forall_mem_cons] at htakesAll hall
    refine .record hname (by simpa using hlength) ?_ ?_
    · rw [zip_record hfront, List.forall_mem_append, List.forall_mem_cons]
      exact ⟨htakesAll.1, htakes, htakesAll.2.2⟩
    · rw [zip_record hfront, List.forall_mem_append, List.forall_mem_cons]
      exact ⟨hall.1, hcontent, hall.2.2⟩

/-- A record still fits when a field gets another value that fits. -/
theorem fits_of_field (hname : catalogue.layout? name = some (front ++ field :: rest))
    (hfront : front.length = fronts.length)
    (hfits : catalogue.fits (.named name) (.record (fronts ++ value :: rests)) = true)
    {value' : Value} (hcontent : ∀ content, field.content? value' = some content →
      catalogue.fits field.shape content = true) :
    catalogue.fits (.named name) (.record (fronts ++ value' :: rests)) = true := by
  rw [fits, fieldsOf_named hname, fitsFields_iff, zip_record hfront, List.forall_mem_append,
    List.forall_mem_cons] at hfits ⊢
  exact ⟨hfits.1, hcontent, hfits.2.2⟩

open Samples (chain chain_planned linkLayout linkValue linkValue_hasShape linkBytes)

section

variable [DecimalForm] (sharing : Sharing Value)

/-- A record in which nothing of a field is on the wire is encoded as what stands around it. -/
theorem encode_of_nothing (hplanned : catalogue.Planned)
    (hname : catalogue.layout? name = some (front ++ field :: rest))
    (hfront : front.length = fronts.length)
    (h : catalogue.HasShape (.named name) (.record (fronts ++ value :: rests)))
    (hfits : catalogue.fits (.named name) (.record (fronts ++ value :: rests)) = true)
    {other : Value} (htakes : field.Takes other) (hnone : field.content? other = none)
    (typeName : String) :
    (catalogue.codecOf sharing (.named name)).encode typeName
        (.record (fronts ++ other :: rests)) =
      .ok (bitsetOf (front ++ field :: rest) (fronts ++ other :: rests) ++
        (catalogue.wireFields front fronts ++ catalogue.wireFields rest rests)) := by
  have hnothing : ∀ {good : Value → Prop} content, field.content? other = some content →
      good content := by
    intro good content hsome
    rw [hnone] at hsome
    cases hsome
  have hshape := h.of_field hname hfront htakes hnothing
  rw [(hplanned.writes_codecOf sharing hshape).encode_eq
    (fits_of_field hname hfront hfits hnothing), wire_record hname hfront, FieldLayout.bytes, hnone,
    List.nil_append]

/-- **Nullable fields are independent.**  Take any field of any record, with the fields in front of
it and those behind it, and an encoding of the record.  If the field has a slot and is present, its
slot is its place among the nullable fields; a block of the encoding is the encoding of what it
holds; and the record in which it is null is encoded without that block, and with one bit more: the
one of its slot, which was clear.  If the field is skipped, changing it changes nothing. -/
theorem nullable_fields_independent (hplanned : catalogue.Planned)
    (hname : catalogue.layout? name = some (front ++ field :: rest))
    (hfront : front.length = fronts.length)
    (h : catalogue.HasShape (.named name) (.record (fronts ++ value :: rests)))
    {typeName : String} {bytes : Buffer}
    (hencode : (catalogue.codecOf sharing (.named name)).encode typeName
      (.record (fronts ++ value :: rests)) = .ok bytes) :
    (∀ slot content, field.presence = .nullable slot → value = .present content →
      slot = nullableCount front + 1 ∧ ∃ bits before block behind byte,
        bytes = bits ++ (before ++ (block ++ behind)) ∧
        (catalogue.codecOf sharing (.named name)).encode typeName
            (.record (fronts ++ .null :: rests)) =
          .ok (bits.set ((slot - 1) / 8) (byte ||| UInt8.ofNat (2 ^ ((slot - 1) % 8))) ++
            (before ++ behind)) ∧
        bits[(slot - 1) / 8]? = some byte ∧ byte.toNat.testBit ((slot - 1) % 8) = false ∧
        bits.length = bitsetBytesOf (front ++ field :: rest) ∧
        before = catalogue.wireFields front fronts ∧ behind = catalogue.wireFields rest rests ∧
        (catalogue.codecOf sharing field.shape).encode typeName content = .ok block ∧
        block.length = (catalogue.codecOf sharing field.shape).size content) ∧
    (field.presence = .skipped → ∀ other, (catalogue.codecOf sharing (.named name)).encode typeName
      (.record (fronts ++ other :: rests)) = .ok bytes) := by
  obtain ⟨hfits, rfl⟩ := (hplanned.writes_codecOf sharing h).of_encode hencode
  obtain ⟨definition, hdefinition, hlayout⟩ := exists_of_layout? hname
  have hnumbered := Definition.layout_numbered catalogue.initial
    (hplanned name definition hdefinition) hlayout
  refine ⟨?_, fun hskipped other => ?_⟩
  · rintro slot content hslot rfl
    -- the content is a value of its own
    have hcontent : field.content? (.present content) = some content := by
      simp only [FieldLayout.content?, hslot]
    have hmem : (field, Value.present content) ∈
        (front ++ field :: rest).zip (fronts ++ .present content :: rests) := by
      rw [zip_record hfront]
      exact List.mem_append_right _ List.mem_cons_self
    have hfitsContent : catalogue.fits field.shape content = true := by
      rw [fits, fieldsOf_named hname, fitsFields_iff] at hfits
      exact hfits _ hmem content hcontent
    have hshape : catalogue.HasShape field.shape content := by
      cases h with
      | record hname' _ _ hall =>
        cases hname.symm.trans hname'
        exact hall _ hmem content hcontent
    have hblock := hplanned.writes_codecOf sharing hshape
    have hnone : field.content? .null = none := by simp only [FieldLayout.content?, hslot]
    have htakes : field.Takes .null := by simp [FieldLayout.Takes, hslot]
    obtain ⟨byte, hget, hclear, hbits⟩ := hnumbered.bitsetOf_null hslot hfront content rests
    refine ⟨by simpa using hnumbered.slot_eq hslot, _, _, catalogue.wire field.shape content, _,
      byte, ?_, ?_, hget, hclear, length_bitsetOf hplanned hname _, rfl, rfl,
      hblock.encode_eq hfitsContent typeName, hblock.size.symm⟩
    · rw [wire_record hname hfront, FieldLayout.bytes, hcontent]
    · rw [encode_of_nothing sharing hplanned hname hfront h hfits htakes hnone, hbits]
  · have hnone : ∀ other, field.content? other = none := by
      intro other
      simp only [FieldLayout.content?, hskipped]
    have htakes : field.Takes other := by simp [FieldLayout.Takes, hskipped]
    have hmarks : ∀ value, marksOf (front ++ field :: rest) (fronts ++ value :: rests) =
        marksOf front fronts ++ marksOf rest rests := by
      intro value
      rw [marksOf_record hfront, FieldLayout.mark?, hskipped]
      rfl
    rw [encode_of_nothing sharing hplanned hname hfront h hfits htakes (hnone other),
      wire_record hname hfront, bitsetOf, bitsetOf, hmarks, hmarks, FieldLayout.bytes, hnone,
      List.nil_append]

end

/-- A link without its next one: bit 0 of the bitset is set, and the five bytes of the next link are
gone.  What is in the cache of a link is not written. -/
theorem nullable_fields_independent_link :
    (chain.Planned ∧ chain.HasShape (.named "Link") linkValue ∧
      (chain.codecOf Sharing.none (.named "Link")).encode "Link" linkValue = .ok linkBytes) ∧
      (chain.codecOf Sharing.none (.named "Link")).encode "Link"
          (.record [.int 7, .null, .list [.int 3]]) = .ok [1, 7, 0, 0, 0] ∧
      (chain.codecOf Sharing.none (.named "Link")).encode "Link"
          (.record [.int 7, .present (.record [.int (-1), .null, .list []]), .list []]) =
        .ok linkBytes := by
  have hencode := (chain_planned.writes_codecOf Sharing.none linkValue_hasShape).encode_eq
    (by decide) "Link"
  have hwire : chain.wire (.named "Link") linkValue = linkBytes := by decide
  rw [hwire] at hencode
  let next : Value := .present (.record [.int (-1), .null, .list []])
  have hname : chain.layout? "Link" =
      some (linkLayout.take 1 ++ linkLayout[1] :: [linkLayout[2]]) := rfl
  have hfront : (linkLayout.take 1).length = [Value.int 7].length := rfl
  have hname' : chain.layout? "Link" = some (linkLayout.take 2 ++ linkLayout[2] :: []) := rfl
  have hfront' : (linkLayout.take 2).length = [Value.int 7, next].length := rfl
  have hnext := nullable_fields_independent Sharing.none chain_planned hname hfront
    linkValue_hasShape hencode
  have hcache := nullable_fields_independent Sharing.none chain_planned hname' hfront'
    linkValue_hasShape hencode
  refine ⟨⟨chain_planned, linkValue_hasShape, hencode⟩, ?_, hcache.2 rfl (.list [])⟩
  obtain ⟨-, bits, before, block, behind, byte, hbytes, hnull, hget, -, hlength, hbefore, hbehind,
    -, -⟩ := hnext.1 1 _ rfl rfl
  obtain ⟨bit, rfl⟩ := List.length_eq_one_iff.mp (hlength.trans (by decide))
  have hbyte : byte = 0 := (Option.some.inj hget).symm.trans (List.cons.inj hbytes).1.symm
  subst hbefore hbehind hbyte
  exact hnull

end Catalogue

end Wireform
