import Mathlib.Data.List.Nodup
import Mathlib.Data.List.Range
import Wireform.Proofs.Tags
import Wireform.Schema.TagStore

/-!
# Tags and keys stay paired

A `TagStore` holds every pair of tag and key in two containers, and the tag's name in a third.  They
are `Consistent` in every state that requests lead to: a request leaves the store as it is, adds a
pair of which neither half is taken, or takes everything away (`call_cases`), and an insertion of a
new pair keeps the containers consistent.

The lists of places are resized only when a tag does not fit, and read by tag alone.  So what an
insertion does is said of what is found at a tag (`keyOf?_insert`, `nameOf?_insert`), for which the
two lists have to be of one length.

Nothing is inserted by a call that fails later, which is why failing calls leave no trace.

A `TagRegistry` asked for the same gives out the same tags and finds the same (`mirrors_after`), so
what is known of the one holds of the other.
-/
namespace Wireform.Schema

namespace TagStore

variable {κ : Type}

/-! ## 1. Places -/

section Places

variable {α : Type} {length index : Nat} {places : List (Option α)}

theorem length_resize : (resize length places).length = length := by
  simp [resize]
  omega

/-- Empty places that are added show nothing. -/
theorem join_getElem?_resize (h : places.length ≤ length) :
    (resize length places)[index]?.join = places[index]?.join := by
  rw [resize, List.take_of_length_le h, List.getElem?_append]
  split
  · rfl
  · next hbehind =>
    rw [List.getElem?_eq_none (Nat.le_of_not_lt hbehind), List.getElem?_replicate]
    split <;> rfl

theorem join_getElem?_set {tag other : UInt8} {value : α} (h : tag.toNat < places.length) :
    (places.set tag.toNat (some value))[other.toNat]?.join =
      if other = tag then some value else places[other.toNat]?.join := by
  rw [List.getElem?_set]
  by_cases hother : other = tag
  · simp [hother, h]
  · have hplace : tag.toNat ≠ other.toNat := fun hsame => hother (UInt8.toNat_inj.mp hsame.symm)
    simp [hother, hplace]

end Places

/-- Pairs of other keys are looked up as before. -/
theorem lookup_filter_ne {α β : Type} [DecidableEq α] {key other : α} (hother : other ≠ key)
    (pairs : List (α × β)) :
    (pairs.filter fun pair => pair.1 ≠ key).lookup other = pairs.lookup other := by
  induction pairs with
  | nil => rfl
  | cons pair pairs ih =>
    obtain ⟨first, value⟩ := pair
    by_cases hfirst : first = key
    · subst hfirst
      simpa [List.lookup_cons, beq_false_of_ne hother] using ih
    · rw [List.filter_cons_of_pos (by simpa using hfirst), List.lookup_cons, List.lookup_cons, ih]

/-- A pair is looked up by its key if no other has that key. -/
theorem lookup_eq_some_iff_mem {α β : Type} [DecidableEq α] {pairs : List (α × β)} {key : α}
    {value : β} (h : (pairs.map Prod.fst).Nodup) :
    pairs.lookup key = some value ↔ (key, value) ∈ pairs := by
  induction pairs with
  | nil => simp
  | cons pair pairs ih =>
    obtain ⟨first, found⟩ := pair
    rw [List.map_cons, List.nodup_cons] at h
    rw [List.lookup_cons]
    by_cases hfirst : key = first
    · subst hfirst
      have hnot : (key, value) ∉ pairs := fun hmem => h.1 (List.mem_map.mpr ⟨_, hmem, rfl⟩)
      simp [hnot, eq_comm]
    · simp [beq_false_of_ne hfirst, hfirst, ih h.2]

variable {store next : TagStore κ} {key : κ} {tag : UInt8} {name : String}

theorem byKey_growTo : (store.growTo tag).byKey = store.byKey := by
  unfold growTo
  split <;> rfl

theorem keyOf?_growTo (store : TagStore κ) (tag other : UInt8) :
    (store.growTo tag).keyOf? other = store.keyOf? other := by
  unfold growTo
  split
  · next hshort => exact join_getElem?_resize (Nat.le_succ_of_le hshort)
  · rfl

theorem nameOf?_growTo (h : store.names.length = store.byTag.length) (tag other : UInt8) :
    (store.growTo tag).nameOf? other = store.nameOf? other := by
  unfold growTo
  split
  · next hshort => exact join_getElem?_resize (Nat.le_succ_of_le (h ▸ hshort))
  · rfl

theorem length_byTag_growTo :
    (store.growTo tag).byTag.length = max store.byTag.length (tag.toNat + 1) := by
  unfold growTo
  split
  · simp only [length_resize]
    omega
  · omega

theorem length_names_growTo (h : store.names.length = store.byTag.length) :
    (store.growTo tag).names.length = max store.byTag.length (tag.toNat + 1) := by
  unfold growTo
  split
  · simp only [length_resize]
    omega
  · omega

/-! ## 2. Insertions -/

variable [DecidableEq κ]

theorem tagOf?_insert (other : κ) :
    (store.insert key tag name).tagOf? other =
      if other = key then some tag else store.tagOf? other := by
  have hinserted : (store.insert key tag name).tagOf? other =
      (putKey key tag (store.growTo tag).byKey).lookup other := rfl
  rw [hinserted, byKey_growTo, putKey, List.lookup_cons]
  by_cases hother : other = key
  · simp [hother]
  · simp only [beq_false_of_ne hother, if_neg hother]
    exact lookup_filter_ne hother store.byKey

theorem keyOf?_insert (other : UInt8) :
    (store.insert key tag name).keyOf? other =
      if other = tag then some key else store.keyOf? other := by
  have hplace : tag.toNat < (store.growTo tag).byTag.length := by
    rw [length_byTag_growTo]
    omega
  rw [← keyOf?_growTo store tag other]
  exact join_getElem?_set hplace

theorem nameOf?_insert (h : store.names.length = store.byTag.length) (other : UInt8) :
    (store.insert key tag name).nameOf? other =
      if other = tag then some name else store.nameOf? other := by
  have hplace : tag.toNat < (store.growTo tag).names.length := by
    rw [length_names_growTo h]
    omega
  rw [← nameOf?_growTo h tag other]
  exact join_getElem?_set hplace

theorem length_byTag_insert :
    (store.insert key tag name).byTag.length = max store.byTag.length (tag.toNat + 1) :=
  List.length_set.trans length_byTag_growTo

theorem length_names_insert (h : store.names.length = store.byTag.length) :
    (store.insert key tag name).names.length = max store.byTag.length (tag.toNat + 1) :=
  List.length_set.trans (length_names_growTo h)

/-! ## 3. The containers agree -/

/-- The containers hold the same pairs, and the lists of places are as long as tags are many. -/
structure Consistent (store : TagStore κ) : Prop where
  keys : (store.byKey.map Prod.fst).Nodup
  inverse : ∀ key tag, store.tagOf? key = some tag ↔ store.keyOf? tag = some key
  null : store.keyOf? 0 = none
  named : ∀ tag, (store.nameOf? tag).isSome = (store.keyOf? tag).isSome
  aligned : store.names.length = store.byTag.length
  short : store.byTag.length ≤ 256

theorem consistent_empty : (empty : TagStore κ).Consistent := by
  refine ⟨.nil, ?_, rfl, fun _ => rfl, rfl, Nat.zero_le _⟩
  simp [empty, tagOf?, keyOf?]

/-- **A new pair keeps the containers consistent.** -/
theorem Consistent.insert (h : store.Consistent) (hkey : store.tagOf? key = none)
    (hnull : tag ≠ 0) (hfree : store.keyOf? tag = none) :
    (store.insert key tag name).Consistent where
  keys := by
    have hpairs : (store.insert key tag name).byKey = putKey key tag (store.growTo tag).byKey := rfl
    rw [hpairs, byKey_growTo, putKey, List.map_cons, List.nodup_cons]
    refine ⟨fun hmem => ?_, h.keys.sublist (List.filter_sublist.map Prod.fst)⟩
    obtain ⟨pair, hpair, hfirst⟩ := List.mem_map.mp hmem
    simp [hfirst] at hpair
  inverse other asked := by
    rw [tagOf?_insert, keyOf?_insert]
    by_cases hother : other = key
    · subst hother
      have hnone : store.keyOf? asked ≠ some other := by
        simp [← h.inverse, hkey]
      by_cases hasked : asked = tag
      · simp [hasked]
      · simp [hasked, Ne.symm hasked, hnone]
    · by_cases hasked : asked = tag
      · subst hasked
        have hnone : store.tagOf? other ≠ some asked := by
          simp [h.inverse, hfree]
        simp [hother, Ne.symm hother, hnone]
      · simp [hother, hasked, h.inverse]
  null := by rw [keyOf?_insert, if_neg (Ne.symm hnull), h.null]
  named other := by
    rw [nameOf?_insert h.aligned, keyOf?_insert]
    split
    · rfl
    · exact h.named other
  aligned := by rw [length_names_insert h.aligned, length_byTag_insert]
  short := by
    have hbyte := tag.toNat_lt
    have hshort := h.short
    rw [length_byTag_insert]
    omega

/-! ## 4. The free tag -/

section FreeTag

omit [DecidableEq κ]

theorem toNat_ofNat_of_mem {n : Nat} (hn : n ∈ assignableTags) : (UInt8.ofNat n).toNat = n := by
  rw [assignableTags, List.mem_range'_1, maxTypes] at hn
  exact UInt8.toNat_ofNat_of_lt' (show n < 256 by omega)

/-- The assignable tags are those of a byte, without that of null. -/
theorem mem_assignableTags_iff : tag.toNat ∈ assignableTags ↔ tag ≠ 0 := by
  have hbyte := tag.toNat_lt
  have hzero : tag ≠ 0 ↔ tag.toNat ≠ 0 := not_congr UInt8.toNat_inj.symm
  rw [assignableTags, List.mem_range'_1, maxTypes, hzero]
  omega

/-- The free tag is the least one that no key has. -/
theorem freeTag?_eq_some_iff : store.freeTag? = some tag ↔
    tag ≠ 0 ∧ store.keyOf? tag = none ∧
      ∀ lower, lower ≠ 0 → lower < tag → store.keyOf? lower ≠ none := by
  have htaken : ∀ lower : UInt8,
      (!(store.keyOf? lower).isNone) = true ↔ store.keyOf? lower ≠ none := by
    simp [Option.isSome_iff_ne_none]
  unfold freeTag? assignableTags
  rw [List.find?_map, Option.map_eq_some_iff]
  simp only [List.find?_range'_eq_some, Function.comp_apply, htaken, Option.isNone_iff_eq_none]
  constructor
  · rintro ⟨n, ⟨hfree, hn, hlower⟩, rfl⟩
    have htoNat := toNat_ofNat_of_mem hn
    refine ⟨mem_assignableTags_iff.mp (by rwa [htoNat]), hfree, fun lower hpos hless => ?_⟩
    have hmem := List.mem_range'_1.mp (mem_assignableTags_iff.mpr hpos)
    rw [UInt8.lt_iff_toNat_lt, htoNat] at hless
    have hfound := hlower lower.toNat hmem.1 hless
    rwa [UInt8.ofNat_toNat] at hfound
  · rintro ⟨hpos, hfree, hlower⟩
    have hmem := mem_assignableTags_iff.mpr hpos
    refine ⟨tag.toNat, ⟨by rwa [UInt8.ofNat_toNat], hmem, fun n hn hless => ?_⟩, UInt8.ofNat_toNat⟩
    have hbelow : n ∈ assignableTags := by
      rw [assignableTags, List.mem_range'_1] at hmem ⊢
      omega
    have htoNat := toNat_ofNat_of_mem hbelow
    refine hlower _ (mem_assignableTags_iff.mp (by rwa [htoNat])) ?_
    rwa [UInt8.lt_iff_toNat_lt, htoNat]

/-- No tag is free if keys have them all. -/
theorem freeTag?_eq_none_iff :
    store.freeTag? = none ↔ ∀ tag, tag ≠ 0 → store.keyOf? tag ≠ none := by
  unfold freeTag?
  rw [List.find?_eq_none]
  simp only [Option.isNone_iff_eq_none]
  constructor
  · intro hall tag hpos
    exact hall tag
      (List.mem_map.mpr ⟨tag.toNat, mem_assignableTags_iff.mpr hpos, UInt8.ofNat_toNat⟩)
  · rintro hall tag hmem
    obtain ⟨n, hn, rfl⟩ := List.mem_map.mp hmem
    refine hall _ (mem_assignableTags_iff.mp ?_)
    rwa [toNat_ofNat_of_mem hn]

end FreeTag

end TagStore

/-! ## 5. Calls -/

namespace TagCall

variable {κ α β : Type} {store : TagStore κ}

@[simp] theorem on_pure (value : α) :
    (pure value : TagCall κ α).on store = (.ok value, store) := rfl

@[simp] theorem on_get : (get : TagCall κ (TagStore κ)).on store = (.ok store, store) := rfl

@[simp] theorem on_modify (f : TagStore κ → TagStore κ) :
    (modify f : TagCall κ PUnit).on store = (.ok ⟨⟩, f store) := rfl

@[simp] theorem on_throw (fault : SchemaError) :
    (throw fault : TagCall κ α).on store = (.error fault, store) := rfl

@[simp] theorem on_bind (first : TagCall κ α) (next : α → TagCall κ β) :
    (first >>= next).on store = match first.on store with
      | (.ok value, between) => (next value).on between
      | (.error fault, between) => (.error fault, between) := by
  rw [on, on, ExceptT.run_bind, StateT.run_bind]
  rcases first.run.run store with ⟨_ | _, _⟩ <;> rfl

@[simp] theorem on_map (first : TagCall κ α) (f : α → β) :
    (f <$> first).on store = ((first.on store).1.map f, (first.on store).2) := by
  rw [map_eq_pure_bind, on_bind]
  rcases first.on store with ⟨_ | _, _⟩ <;> rfl

end TagCall

namespace TagStore

variable {κ : Type} [DecidableEq κ] {store next : TagStore κ} {key : κ} {tag : UInt8} {name : String}

theorem register_of_known (hkey : store.tagOf? key = some tag) :
    (TagCall.register key name).on store = (.ok tag, store) := by
  simp [TagCall.register, hkey]

theorem register_of_free (hkey : store.tagOf? key = none) (hfree : store.freeTag? = some tag) :
    (TagCall.register key name).on store = (.ok tag, store.insert key tag name) := by
  simp [TagCall.register, hkey, hfree, Except.map]

theorem register_of_full (hkey : store.tagOf? key = none) (hfree : store.freeTag? = none) :
    (TagCall.register key name).on store = (.error (.tooManyTypes name), store) := by
  simp [TagCall.register, hkey, hfree]

theorem registerWithTag_of_null :
    (TagCall.registerWithTag key 0 name).on store = (.error (.reservedTag name), store) := by
  simp [TagCall.registerWithTag]

theorem registerWithTag_of_known {existing : UInt8} (hnull : tag ≠ 0)
    (hkey : store.tagOf? key = some existing) :
    (TagCall.registerWithTag key tag name).on store =
      (if existing = tag then .ok tag
        else .error (.conflictingTag name existing.toNat tag.toNat), store) := by
  by_cases hsame : existing = tag <;> simp [TagCall.registerWithTag, hnull, hkey, hsame]

theorem registerWithTag_of_taken {other : κ} (hnull : tag ≠ 0) (hkey : store.tagOf? key = none)
    (htaken : store.keyOf? tag = some other) :
    (TagCall.registerWithTag key tag name).on store =
      (.error (.duplicateTag tag.toNat name ((store.nameOf? tag).getD "")), store) := by
  simp [TagCall.registerWithTag, hnull, hkey, htaken]

theorem registerWithTag_of_free (hnull : tag ≠ 0) (hkey : store.tagOf? key = none)
    (hfree : store.keyOf? tag = none) :
    (TagCall.registerWithTag key tag name).on store = (.ok tag, store.insert key tag name) := by
  simp [TagCall.registerWithTag, hnull, hkey, hfree, Except.map]

/-- **What a request can do**: fail and leave the store as it is, find what it asks for, add a pair
of which neither half is taken, or take everything away. -/
theorem call_cases (request : TagRequest κ) (store : TagStore κ) :
    (∃ fault, request.call.on store = (.error fault, store)) ∨
      (∃ answer, request.call.on store = (.ok answer, store)) ∨
      (∃ key tag name, store.tagOf? key = none ∧ tag ≠ 0 ∧ store.keyOf? tag = none ∧
        request.call.on store = (.ok (some tag), store.insert key tag name)) ∨
      request.call.on store = (.ok none, .empty) := by
  cases request with
  | register key name =>
    rw [TagRequest.call, TagCall.on_map]
    cases hkey : store.tagOf? key with
    | some tag =>
      rw [register_of_known hkey]
      exact .inr (.inl ⟨some tag, rfl⟩)
    | none =>
      cases hfree : store.freeTag? with
      | some tag =>
        obtain ⟨hnull, hnone, -⟩ := freeTag?_eq_some_iff.mp hfree
        rw [register_of_free hkey hfree]
        exact .inr (.inr (.inl ⟨key, tag, name, hkey, hnull, hnone, rfl⟩))
      | none =>
        rw [register_of_full hkey hfree]
        exact .inl ⟨.tooManyTypes name, rfl⟩
  | registerWithTag key tag name =>
    rw [TagRequest.call, TagCall.on_map]
    by_cases hnull : tag = 0
    · subst hnull
      rw [registerWithTag_of_null]
      exact .inl ⟨.reservedTag name, rfl⟩
    · cases hkey : store.tagOf? key with
      | some existing =>
        rw [registerWithTag_of_known hnull hkey]
        split
        · exact .inr (.inl ⟨some tag, rfl⟩)
        · exact .inl ⟨_, rfl⟩
      | none =>
        cases htaken : store.keyOf? tag with
        | some other =>
          rw [registerWithTag_of_taken hnull hkey htaken]
          exact .inl ⟨_, rfl⟩
        | none =>
          rw [registerWithTag_of_free hnull hkey htaken]
          exact .inr (.inr (.inl ⟨key, tag, name, hkey, hnull, htaken, rfl⟩))
  | clear => exact .inr (.inr (.inr rfl))

/-- A request keeps the containers consistent. -/
theorem Consistent.call (h : store.Consistent) (request : TagRequest κ) :
    (request.call.on store).2.Consistent := by
  rcases call_cases request store with ⟨fault, hcall⟩ | ⟨answer, hcall⟩ |
    ⟨key, tag, name, hkey, hnull, hfree, hcall⟩ | hcall
  · rwa [hcall]
  · rwa [hcall]
  · rw [hcall]
    exact h.insert hkey hnull hfree
  · rw [hcall]
    exact consistent_empty

/-- **The containers are consistent whatever was requested.** -/
theorem consistent_after (requests : List (TagRequest κ)) : (after requests).Consistent := by
  have hrun : ∀ {store : TagStore κ}, store.Consistent →
      (requests.foldl (fun store request => (request.call.on store).2) store).Consistent := by
    induction requests with
    | nil => exact id
    | cons request requests ih => exact fun h => ih (h.call request)
  exact hrun consistent_empty

/-! ## 6. The pairs -/

/-- The pairs are listed as they are found by tag. -/
theorem Consistent.mem_toList_iff (h : store.Consistent) :
    (tag, key) ∈ store.toList ↔ store.keyOf? tag = some key := by
  rw [toList, List.mem_filterMap, keyOf?, Option.join_eq_some_iff]
  constructor
  · rintro ⟨⟨place, index⟩, hmem, hfound⟩
    obtain ⟨found, rfl, hpair⟩ := Option.map_eq_some_iff.mp hfound
    obtain ⟨rfl, rfl⟩ := Prod.mk.inj hpair
    have hplace := List.mem_zipIdx_iff_getElem?.mp hmem
    have hlength := (List.getElem?_eq_some_iff.mp hplace).choose
    have hshort := h.short
    rwa [UInt8.toNat_ofNat_of_lt' (show index < 256 by omega)]
  · intro hplace
    refine ⟨(some key, tag.toNat), List.mem_zipIdx_iff_getElem?.mpr hplace, ?_⟩
    simp

/-- The pairs are listed in the order of their tags. -/
theorem Consistent.sorted_toList (h : store.Consistent) :
    store.toList.Pairwise fun a b => a.1 < b.1 := by
  have hindices : store.byTag.zipIdx.Pairwise fun a b => a.2 < b.2 := by
    rw [← List.pairwise_map, List.zipIdx_map_snd]
    exact List.pairwise_lt_range'
  have hbytes : ∀ {place : Option κ × Nat}, place ∈ store.byTag.zipIdx →
      (UInt8.ofNat place.2).toNat = place.2 := by
    intro place hmem
    have hlength := (List.getElem?_eq_some_iff.mp (List.mem_zipIdx_iff_getElem?.mp hmem)).choose
    have hshort := h.short
    exact UInt8.toNat_ofNat_of_lt' (show place.2 < 256 by omega)
  refine List.pairwise_filterMap.mpr (hindices.imp_of_mem ?_)
  intro place place' hmem hmem' hless pair hpair pair' hpair'
  obtain ⟨key, -, rfl⟩ := Option.map_eq_some_iff.mp hpair
  obtain ⟨key', -, rfl⟩ := Option.map_eq_some_iff.mp hpair'
  rwa [UInt8.lt_iff_toNat_lt, hbytes hmem, hbytes hmem']

/-- As many pairs are listed as keys are counted. -/
theorem Consistent.length_toList (h : store.Consistent) : store.toList.length = store.size := by
  have hnodup : store.toList.Nodup := by
    refine h.sorted_toList.imp ?_
    rintro pair _ hless rfl
    exact UInt8.lt_irrefl pair.1 hless
  have hpairs : (store.byKey.map Prod.swap).Nodup :=
    (List.Nodup.of_map Prod.fst h.keys).map (Function.LeftInverse.injective Prod.swap_swap)
  have hsame : store.toList.Perm (store.byKey.map Prod.swap) := by
    refine (List.perm_ext_iff_of_nodup hnodup hpairs).mpr ?_
    rintro ⟨tag, key⟩
    rw [h.mem_toList_iff, ← h.inverse, tagOf?, lookup_eq_some_iff_mem h.keys, List.mem_map]
    constructor
    · exact fun hmem => ⟨_, hmem, rfl⟩
    · rintro ⟨⟨key, tag⟩, hmem, hswap⟩
      obtain ⟨rfl, rfl⟩ := Prod.mk.inj hswap
      exact hmem
  rw [hsame.length_eq, List.length_map, size]

/-- Tags and keys are paired off, and the pairs are listed. -/
structure Paired (store : TagStore κ) : Prop where
  inverse : ∀ key tag, store.tagOf? key = some tag ↔ store.keyOf? tag = some key
  range : ∀ key tag, store.tagOf? key = some tag → 1 ≤ tag.toNat ∧ tag.toNat ≤ 255
  named : ∀ tag, (store.nameOf? tag).isSome ↔ (store.keyOf? tag).isSome
  listed : ∀ tag key, (tag, key) ∈ store.toList ↔ store.tagOf? key = some tag
  sorted : store.toList.Pairwise fun a b => a.1 < b.1
  counted : store.size = store.toList.length

theorem Consistent.paired (h : store.Consistent) : store.Paired where
  inverse := h.inverse
  range key tag htag := by
    have hnull : tag ≠ 0 := by
      rintro rfl
      rw [h.inverse, h.null] at htag
      cases htag
    have hrange := List.mem_range'_1.mp (mem_assignableTags_iff.mpr hnull)
    simp only [maxTypes] at hrange
    omega
  named tag := by rw [h.named]
  listed tag key := by rw [h.mem_toList_iff, h.inverse]
  sorted := h.sorted_toList
  counted := h.length_toList.symm

/-! ## 7. What calls do -/

/-- Of what is found, only what belongs to one pair is new. -/
structure Gains (store : TagStore κ) (key : κ) (tag : UInt8) (name : String)
    (next : TagStore κ) : Prop where
  tagOf : ∀ other, next.tagOf? other = if other = key then some tag else store.tagOf? other
  keyOf : ∀ other, next.keyOf? other = if other = tag then some key else store.keyOf? other
  nameOf : ∀ other, next.nameOf? other = if other = tag then some name else store.nameOf? other

theorem Consistent.gains (h : store.Consistent) (key : κ) (tag : UInt8) (name : String) :
    store.Gains key tag name (store.insert key tag name) :=
  ⟨tagOf?_insert, keyOf?_insert, nameOf?_insert h.aligned⟩

/-- What calls on a store do. -/
structure Serves (store : TagStore κ) : Prop where
  known : ∀ key name tag, store.tagOf? key = some tag →
    (TagCall.register key name).on store = (.ok tag, store)
  new : ∀ key name, store.tagOf? key = none →
    (∃ tag next, (tag ≠ 0 ∧ store.keyOf? tag = none ∧
        ∀ lower, lower ≠ 0 → lower < tag → store.keyOf? lower ≠ none) ∧
      (TagCall.register key name).on store = (.ok tag, next) ∧ store.Gains key tag name next) ∨
    (∀ tag, tag ≠ 0 → store.keyOf? tag ≠ none) ∧
      (TagCall.register key name).on store = (.error (.tooManyTypes name), store)
  refused : ∀ key tag name,
    (∃ fault next, (TagCall.registerWithTag key tag name).on store = (.error fault, next)) ↔
      tag = 0 ∨ (∃ existing, store.tagOf? key = some existing ∧ existing ≠ tag) ∨
        ∃ other, store.keyOf? tag = some other ∧ other ≠ key
  granted : ∀ key tag name got next,
    (TagCall.registerWithTag key tag name).on store = (.ok got, next) → got = tag ∧
      (store.tagOf? key = some tag ∧ next = store ∨
        store.tagOf? key = none ∧ store.Gains key tag name next)
  cleared : TagCall.clear.on store = (.ok (), .empty)
  unchanged : ∀ (request : TagRequest κ) fault next,
    request.call.on store = (.error fault, next) → next = store

theorem Consistent.serves (h : store.Consistent) : store.Serves where
  known _ _ _ hkey := register_of_known hkey
  new key name hkey := by
    cases hfree : store.freeTag? with
    | some tag =>
      exact .inl ⟨tag, _, freeTag?_eq_some_iff.mp hfree, register_of_free hkey hfree,
        h.gains key tag name⟩
    | none => exact .inr ⟨freeTag?_eq_none_iff.mp hfree, register_of_full hkey hfree⟩
  refused key tag name := by
    by_cases hnull : tag = 0
    · subst hnull
      simp [registerWithTag_of_null]
    · cases hkey : store.tagOf? key with
      | some existing =>
        have hother : store.keyOf? tag = some key ↔ existing = tag := by
          rw [← h.inverse, hkey, Option.some_inj]
        rw [registerWithTag_of_known hnull hkey]
        by_cases hsame : existing = tag
        · have howner := hother.mpr hsame
          simp [hnull, hsame, howner]
        · simp [hnull, hsame]
      | none =>
        cases htaken : store.keyOf? tag with
        | some other =>
          have hdiffers : other ≠ key := by
            rintro rfl
            rw [← h.inverse, hkey] at htaken
            cases htaken
          simp [registerWithTag_of_taken hnull hkey htaken, hdiffers]
        | none => simp [registerWithTag_of_free hnull hkey htaken, hnull]
  granted key tag name got next hcall := by
    by_cases hnull : tag = 0
    · subst hnull
      rw [registerWithTag_of_null] at hcall
      cases hcall
    · cases hkey : store.tagOf? key with
      | some existing =>
        rw [registerWithTag_of_known hnull hkey] at hcall
        split at hcall
        · next hsame =>
          cases hcall
          exact ⟨rfl, .inl ⟨by rw [hsame], rfl⟩⟩
        · cases hcall
      | none =>
        cases htaken : store.keyOf? tag with
        | some other =>
          rw [registerWithTag_of_taken hnull hkey htaken] at hcall
          cases hcall
        | none =>
          rw [registerWithTag_of_free hnull hkey htaken] at hcall
          cases hcall
          exact ⟨rfl, .inr ⟨rfl, h.gains key tag name⟩⟩
  cleared := rfl
  unchanged request fault next hcall := by
    rcases call_cases request store with ⟨_, hcase⟩ | ⟨_, hcase⟩ | ⟨_, _, _, -, -, -, hcase⟩ | hcase
    all_goals
      rw [hcase] at hcall
      cases hcall
    rfl

/-- **Tags and keys stay paired off, and calls that fail leave no trace.**  After any requests a key
is found by its tag and the tag by its key, each tag is one of 1 to 255 and has a name exactly if it
has a key, and the pairs are listed in the order of their tags and counted.  A key that is
registered again keeps its tag; a new one gets the lowest free tag, or is refused when keys have all
255.  A tag that is asked for is refused exactly if it is null's, the key has another, or another key
has it. -/
theorem stays_paired_after (requests : List (TagRequest κ)) :
    (after requests).Paired ∧ (after requests).Serves :=
  have h := consistent_after requests
  ⟨h.paired, h.serves⟩

example : (after [.registerWithTag "A" 2 "A", .register "B" "B", .registerWithTag "C" 2 "C",
    .register "C" "C"]).toList = [(1, "B"), (2, "A"), (3, "C")] := by
  decide

/-! ## 8. The same tags as a registry -/

/-- A registry finds what a store finds. -/
structure Mirrors (registry : TagRegistry κ) (store : TagStore κ) : Prop where
  sound : registry.Sound
  consistent : store.Consistent
  tagOf : ∀ key, registry.tagOf? key = (store.tagOf? key).map UInt8.toNat
  entryOf : ∀ tag : UInt8, registry.entryOf? tag.toNat =
    (store.keyOf? tag).map fun key => ⟨tag.toNat, key, (store.nameOf? tag).getD ""⟩

theorem mirrors_empty : Mirrors (TagRegistry.empty : TagRegistry κ) empty :=
  ⟨TagRegistry.sound_empty, consistent_empty, fun _ => rfl, fun _ => rfl⟩

variable {registry : TagRegistry κ}

theorem Mirrors.insert (h : Mirrors registry store) (hkey : store.tagOf? key = none)
    (hnull : tag ≠ 0) (hfree : store.keyOf? tag = none) :
    Mirrors ⟨TagRegistry.insertEntry ⟨tag.toNat, key, name⟩ registry.entries⟩
      (store.insert key tag name) := by
  have hkey' : registry.tagOf? key = none := by simp [h.tagOf, hkey]
  have hfree' : registry.entryOf? tag.toNat = none := by simp [h.entryOf, hfree]
  have hpos : tag.toNat ≠ 0 := fun hzero => hnull (UInt8.toNat_inj.mp hzero)
  have hgrants : registry.Grants key name tag.toNat
      ⟨TagRegistry.insertEntry ⟨tag.toNat, key, name⟩ registry.entries⟩ :=
    .new hkey' hfree' ⟨hpos, tag.toNat_lt⟩
  refine ⟨h.sound.grant hgrants, h.consistent.insert hkey hnull hfree, fun other => ?_,
    fun other => ?_⟩
  · refine Option.ext fun found => ?_
    rw [h.sound.tagOf?_grant_iff hgrants, tagOf?_insert, h.tagOf]
    by_cases hother : other = key
    · subst hother
      simp [hkey, eq_comm]
    · simp [hother]
  · rw [TagRegistry.entryOf?_insertEntry (TagRegistry.entryOf?_eq_none_iff.mp hfree'),
      keyOf?_insert, nameOf?_insert h.consistent.aligned]
    by_cases hother : other = tag
    · simp [hother]
    · simp [hother, UInt8.toNat_inj, h.entryOf]

/-- The free tag is the same. -/
theorem Mirrors.freeTag? (h : Mirrors registry store) :
    registry.freeTag? = store.freeTag?.map UInt8.toNat := by
  have hnone : ∀ tag : UInt8, registry.entryOf? tag.toNat = none ↔ store.keyOf? tag = none := by
    simp [h.entryOf]
  have hbyte : ∀ {n : Nat}, n < 256 → (UInt8.ofNat n).toNat = n := fun hn =>
    UInt8.toNat_ofNat_of_lt' hn
  cases hfree : store.freeTag? with
  | some tag =>
    obtain ⟨hnull, htag, hlower⟩ := freeTag?_eq_some_iff.mp hfree
    have hpos : tag.toNat ≠ 0 := fun hzero => hnull (UInt8.toNat_inj.mp hzero)
    have hsize := tag.toNat_lt
    refine TagRegistry.freeTag?_eq_some_iff.mpr
      ⟨⟨hpos, hsize⟩, (hnone tag).mpr htag, fun n hn hless => ?_⟩
    have htoNat := hbyte (hless.trans hsize)
    rw [← htoNat, ne_eq, hnone]
    refine hlower _ (fun hzero => hn ?_) ?_
    · rw [← htoNat, hzero]
      rfl
    · rwa [UInt8.lt_iff_toNat_lt, htoNat]
  | none =>
    have hall := freeTag?_eq_none_iff.mp hfree
    refine Option.eq_none_iff_forall_ne_some.mpr fun n hfound => ?_
    obtain ⟨⟨hpos, hsize⟩, hentry, -⟩ := TagRegistry.freeTag?_eq_some_iff.mp hfound
    rw [← hbyte hsize, hnone] at hentry
    refine hall _ (fun hzero => hpos ?_) hentry
    rw [← hbyte hsize, hzero]
    rfl

/-- **A registry gives out the tags of a store**, for the same reasons and with the same faults, and
finds afterwards what the store finds. -/
theorem Mirrors.register (h : Mirrors registry store) (key : κ) (name : String) :
    match registry.register key name with
    | .ok (tag, last) => ∃ got next, (TagCall.register key name).on store = (.ok got, next) ∧
        got.toNat = tag ∧ Mirrors last next
    | .error fault => (TagCall.register key name).on store = (.error fault, store) := by
  cases hkey : store.tagOf? key with
  | some tag =>
    have hkey' : registry.tagOf? key = some tag.toNat := by simp [h.tagOf, hkey]
    simp only [TagRegistry.register, hkey']
    exact ⟨tag, store, register_of_known hkey, rfl, h⟩
  | none =>
    have hkey' : registry.tagOf? key = none := by simp [h.tagOf, hkey]
    cases hfree : store.freeTag? with
    | some tag =>
      have hfree' : registry.freeTag? = some tag.toNat := by simp [h.freeTag?, hfree]
      obtain ⟨hnull, hnone, -⟩ := freeTag?_eq_some_iff.mp hfree
      simp only [TagRegistry.register, hkey', hfree']
      exact ⟨tag, _, register_of_free hkey hfree, rfl, h.insert hkey hnull hnone⟩
    | none =>
      have hfree' : registry.freeTag? = none := by simp [h.freeTag?, hfree]
      simp only [TagRegistry.register, hkey', hfree']
      exact register_of_full hkey hfree

theorem Mirrors.registerWithTag (h : Mirrors registry store) (key : κ) (asked : UInt8)
    (name : String) :
    match registry.registerWithTag key asked.toNat name with
    | .ok (tag, last) => ∃ got next,
        (TagCall.registerWithTag key asked name).on store = (.ok got, next) ∧
          got.toNat = tag ∧ Mirrors last next
    | .error fault => (TagCall.registerWithTag key asked name).on store = (.error fault, store) := by
  by_cases hnull : asked = 0
  · subst hnull
    exact registerWithTag_of_null
  · have hpos : asked.toNat ≠ 0 := fun hzero => hnull (UInt8.toNat_inj.mp hzero)
    cases hkey : store.tagOf? key with
    | some existing =>
      have hkey' : registry.tagOf? key = some existing.toNat := by simp [h.tagOf, hkey]
      have hcall : (TagCall.registerWithTag key asked name).on store = _ :=
        registerWithTag_of_known hnull hkey
      by_cases hsame : existing = asked
      · subst hsame
        simp only [TagRegistry.registerWithTag, if_neg hpos, hkey', if_true] at hcall ⊢
        exact ⟨existing, store, hcall, rfl, h⟩
      · have hdiffers : existing.toNat ≠ asked.toNat :=
          fun htoNat => hsame (UInt8.toNat_inj.mp htoNat)
        simp only [TagRegistry.registerWithTag, if_neg hpos, hkey', if_neg hdiffers]
        rwa [if_neg hsame] at hcall
    | none =>
      have hkey' : registry.tagOf? key = none := by simp [h.tagOf, hkey]
      cases htaken : store.keyOf? asked with
      | some other =>
        simp only [TagRegistry.registerWithTag, if_neg hpos, hkey', h.entryOf, htaken,
          Option.map_some]
        exact registerWithTag_of_taken hnull hkey htaken
      | none =>
        simp only [TagRegistry.registerWithTag, if_neg hpos, hkey', h.entryOf, htaken,
          Option.map_none]
        exact ⟨asked, _, registerWithTag_of_free hnull hkey htaken, rfl, h.insert hkey hnull htaken⟩

/-- What a registry answers a request with, and the registry afterwards. -/
def served (registry : TagRegistry κ) : TagRequest κ → Except SchemaError (Option Nat) × TagRegistry κ
  | .register key name => keep (registry.register key name)
  | .registerWithTag key tag name => keep (registry.registerWithTag key tag.toNat name)
  | .clear => (.ok none, .empty)
where
  /-- A call that fails changes nothing. -/
  keep : Except SchemaError (Nat × TagRegistry κ) → Except SchemaError (Option Nat) × TagRegistry κ
    | .ok (tag, next) => (.ok (some tag), next)
    | .error fault => (.error fault, registry)

/-- A registry and a store answer a request alike, and go on doing so. -/
theorem Mirrors.served (h : Mirrors registry store) (request : TagRequest κ) :
    (served registry request).1 = (request.call.on store).1.map (Option.map UInt8.toNat) ∧
      Mirrors (served registry request).2 (request.call.on store).2 := by
  cases request with
  | register key name =>
    have hregister := h.register key name
    rw [TagStore.served, TagRequest.call, TagCall.on_map]
    split at hregister
    · next tag last hresult =>
      obtain ⟨got, next, hcall, rfl, hnext⟩ := hregister
      rw [hresult, hcall]
      exact ⟨rfl, hnext⟩
    · next fault hresult =>
      rw [hresult, hregister]
      exact ⟨rfl, h⟩
  | registerWithTag key tag name =>
    have hregister := h.registerWithTag key tag name
    rw [TagStore.served, TagRequest.call, TagCall.on_map]
    split at hregister
    · next tag last hresult =>
      obtain ⟨got, next, hcall, rfl, hnext⟩ := hregister
      rw [hresult, hcall]
      exact ⟨rfl, hnext⟩
    · next fault hresult =>
      rw [hresult, hregister]
      exact ⟨rfl, h⟩
  | clear => exact ⟨rfl, mirrors_empty⟩

/-- **Registry and store find the same** whatever was requested of both. -/
theorem mirrors_after (requests : List (TagRequest κ)) :
    Mirrors (requests.foldl (fun registry request => (served registry request).2) .empty)
      (after requests) := by
  have hrun : ∀ {registry : TagRegistry κ} {store : TagStore κ}, Mirrors registry store →
      Mirrors (requests.foldl (fun registry request => (served registry request).2) registry)
        (requests.foldl (fun store request => (request.call.on store).2) store) := by
    induction requests with
    | nil => exact id
    | cons request requests ih => exact fun h => ih (h.served request).2
  exact hrun mirrors_empty

end TagStore

end Wireform.Schema
