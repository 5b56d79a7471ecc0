import Mathlib.Data.List.Nodup
import Mathlib.Data.List.Perm.Subperm
import Mathlib.Data.List.Range
import Wireform.Schema.TagRegistry

/-!
# Tags and the keys that have them

However a registry was filled, it is *sound* (`TagRegistry.Sound`): its entries are in the order of
their tags, a key has one entry, and every tag is one of `1` to `255`.  So tags and keys are paired
off, and to look a key up is to ask for its entry.

A call that succeeds either finds the key with the very tag that it returns, or adds one entry
(`Grants`).  Both keep a registry sound, and no key but the one that was named gets another tag
(`Sound.tagOf?_grant_iff`).

The tag that is given out is the least that no entry has (`freeTag?_eq_some_iff`), and there is one
as long as there are fewer than 255 entries, since they cannot take up all tags (`exists_freeTag?`).
-/
namespace Wireform

/-- What is the only item with a property is found. -/
theorem find?_eq_some_of_unique {α : Type} {test : α → Bool} {items : List α} {item : α}
    (hitem : item ∈ items) (htest : test item = true)
    (hunique : ∀ other ∈ items, test other = true → other = item) :
    items.find? test = some item := by
  cases hfound : items.find? test with
  | none => exact absurd htest (List.find?_eq_none.mp hfound item hitem)
  | some other =>
    rw [hunique other (List.mem_of_find?_eq_some hfound) (List.find?_some hfound)]

namespace Schema.TagRegistry

variable {κ : Type}

/-! ## 1. Entries -/

theorem insertEntry_perm (entry : TagEntry κ) (entries : List (TagEntry κ)) :
    (insertEntry entry entries).Perm (entry :: entries) := by
  induction entries with
  | nil => exact .refl _
  | cons other rest ih =>
    unfold insertEntry
    split
    · exact .refl _
    · exact (ih.cons other).trans (.swap entry other rest)

/-- An entry with a new tag goes where its tag belongs. -/
theorem sorted_insertEntry {entry : TagEntry κ} {entries : List (TagEntry κ)}
    (hsorted : entries.Pairwise fun a b => a.tag < b.tag)
    (hnew : ∀ other ∈ entries, other.tag ≠ entry.tag) :
    (insertEntry entry entries).Pairwise fun a b => a.tag < b.tag := by
  induction entries with
  | nil => exact List.pairwise_singleton _ _
  | cons other rest ih =>
    rw [List.pairwise_cons] at hsorted
    unfold insertEntry
    split
    · next hless =>
      refine List.pairwise_cons.mpr ⟨fun third hthird => ?_, List.pairwise_cons.mpr hsorted⟩
      rcases List.mem_cons.mp hthird with rfl | hrest
      · exact hless
      · exact hless.trans (hsorted.1 third hrest)
    · next hnot =>
      refine List.pairwise_cons.mpr ⟨fun third hthird => ?_,
        ih hsorted.2 fun third hthird => hnew third (List.mem_cons_of_mem _ hthird)⟩
      have hother := hnew other List.mem_cons_self
      rcases List.mem_cons.mp ((insertEntry_perm entry rest).mem_iff.mp hthird) with rfl | hrest
      · omega
      · exact hsorted.1 third hrest

/-- A tag without an entry is one that no entry has. -/
theorem entryOf?_eq_none_iff {registry : TagRegistry κ} {tag : Nat} :
    registry.entryOf? tag = none ↔ ∀ entry ∈ registry.entries, entry.tag ≠ tag := by
  unfold entryOf?
  rw [List.find?_eq_none]
  simp only [beq_iff_eq, ne_eq]

/-- An entry with a new tag is found by it, and all others as before. -/
theorem entryOf?_insertEntry {registry : TagRegistry κ} {entry : TagEntry κ}
    (hnew : ∀ other ∈ registry.entries, other.tag ≠ entry.tag) (tag : Nat) :
    (⟨insertEntry entry registry.entries⟩ : TagRegistry κ).entryOf? tag =
      if tag = entry.tag then some entry else registry.entryOf? tag := by
  obtain ⟨entries⟩ := registry
  unfold entryOf?
  dsimp only at hnew ⊢
  induction entries with
  | nil =>
    rw [insertEntry, List.find?_singleton]
    by_cases htag : tag = entry.tag
    · simp [htag]
    · simp [htag, Ne.symm htag]
  | cons other rest ih =>
    have hrest := ih fun third hthird => hnew third (List.mem_cons_of_mem _ hthird)
    have hother := hnew other List.mem_cons_self
    unfold insertEntry
    split
    · rw [List.find?_cons]
      by_cases htag : tag = entry.tag
      · simp [htag]
      · simp [htag, beq_false_of_ne (Ne.symm htag)]
    · rw [List.find?_cons, List.find?_cons, hrest]
      by_cases htag : other.tag = tag
      · have hnot : tag ≠ entry.tag := htag ▸ hother
        simp [htag, hnot]
      · simp [beq_false_of_ne htag]

/-- **The free tag is the least one**: every lower one of `1` to `255` has an entry. -/
theorem freeTag?_eq_some_iff {registry : TagRegistry κ} {tag : Nat} :
    registry.freeTag? = some tag ↔ (tag ≠ 0 ∧ tag < 256) ∧ registry.entryOf? tag = none ∧
      ∀ lower, lower ≠ 0 → lower < tag → registry.entryOf? lower ≠ none := by
  unfold freeTag? assignableTags
  rw [List.find?_range'_eq_some, List.mem_range'_1, maxTypes, Option.isNone_iff_eq_none]
  simp only [Bool.not_eq_true', Option.isNone_eq_false_iff, ne_eq, ← Option.isSome_iff_ne_none]
  constructor
  · rintro ⟨hfree, hrange, hlower⟩
    exact ⟨by omega, hfree, fun lower hpos hless => hlower lower (by omega) hless⟩
  · rintro ⟨hrange, hfree, hlower⟩
    exact ⟨hfree, by omega, fun lower hpos hless => hlower lower (by omega) hless⟩

/-- **A tag is left while there are fewer than 255 entries.** -/
theorem exists_freeTag? {registry : TagRegistry κ} (hfew : registry.entries.length < maxTypes) :
    ∃ tag, registry.freeTag? = some tag := by
  cases hfree : registry.freeTag? with
  | some tag => exact ⟨tag, rfl⟩
  | none =>
    -- then all assignable tags are tags of entries, which are too few
    have hall : assignableTags ⊆ registry.entries.map TagEntry.tag := by
      intro tag htag
      have hnot := List.find?_eq_none.mp hfree tag htag
      rw [Option.isNone_iff_eq_none, entryOf?_eq_none_iff] at hnot
      push Not at hnot
      obtain ⟨entry, hentry, rfl⟩ := hnot
      exact List.mem_map_of_mem hentry
    have hnodup : assignableTags.Nodup := List.nodup_range'
    have hlength := (hnodup.subperm hall).length_le
    rw [assignableTags, List.length_range', List.length_map] at hlength
    omega

/-! ## 2. Sound registries -/

/-- **Tags and keys are paired off**, the entries are in the order of their tags, and no tag is that
of null or more than a byte. -/
structure Sound (registry : TagRegistry κ) : Prop where
  sorted : registry.entries.Pairwise fun a b => a.tag < b.tag
  keys : (registry.entries.map TagEntry.key).Nodup
  range : ∀ entry ∈ registry.entries, entry.tag ≠ 0 ∧ entry.tag < 256

theorem sound_empty : (empty : TagRegistry κ).Sound :=
  ⟨.nil, .nil, fun _ h => absurd h List.not_mem_nil⟩

namespace Sound

variable {registry : TagRegistry κ}

/-- No tag has two entries. -/
theorem tags (h : registry.Sound) : (registry.entries.map TagEntry.tag).Nodup :=
  List.pairwise_map.mpr (h.sorted.imp Nat.ne_of_lt)

/-- No two entries have one tag. -/
theorem entry_eq_of_tag (h : registry.Sound) {entry other : TagEntry κ}
    (hentry : entry ∈ registry.entries) (hother : other ∈ registry.entries)
    (htag : entry.tag = other.tag) : entry = other :=
  List.inj_on_of_nodup_map h.tags hentry hother htag

variable [BEq κ] [LawfulBEq κ]

/-- The tag of a key is that of its entry. -/
theorem tagOf?_eq_some_iff (h : registry.Sound) {key : κ} {tag : Nat} :
    registry.tagOf? key = some tag ↔
      ∃ entry ∈ registry.entries, entry.key = key ∧ entry.tag = tag := by
  unfold tagOf?
  rw [Option.map_eq_some_iff]
  constructor
  · rintro ⟨entry, hfound, rfl⟩
    exact ⟨entry, List.mem_of_find?_eq_some hfound, beq_iff_eq.mp (List.find?_some hfound :), rfl⟩
  · rintro ⟨entry, hentry, rfl, rfl⟩
    refine ⟨entry, find?_eq_some_of_unique hentry (beq_self_eq_true _) fun other hother hkey => ?_,
      rfl⟩
    exact List.inj_on_of_nodup_map h.keys hother hentry (beq_iff_eq.mp hkey)

/-- Tags of keys are those of one byte, without that of null. -/
theorem range_of_tagOf? (h : registry.Sound) {key : κ} {tag : Nat}
    (htag : registry.tagOf? key = some tag) : tag ≠ 0 ∧ tag < 256 := by
  obtain ⟨entry, hentry, -, rfl⟩ := h.tagOf?_eq_some_iff.mp htag
  exact h.range entry hentry

/-- A tag belongs to one key. -/
theorem key_eq_of_tagOf? (h : registry.Sound) {key other : κ} {tag : Nat}
    (hkey : registry.tagOf? key = some tag) (hother : registry.tagOf? other = some tag) :
    key = other := by
  obtain ⟨entry, hentry, rfl, htag⟩ := h.tagOf?_eq_some_iff.mp hkey
  obtain ⟨entry', hentry', rfl, htag'⟩ := h.tagOf?_eq_some_iff.mp hother
  rw [h.entry_eq_of_tag hentry hentry' (htag.trans htag'.symm)]

/-- A tag has no entry if no key has it. -/
theorem entryOf?_eq_none_iff (h : registry.Sound) {tag : Nat} :
    registry.entryOf? tag = none ↔ ∀ key, registry.tagOf? key ≠ some tag := by
  rw [TagRegistry.entryOf?_eq_none_iff]
  constructor
  · intro hnone key htag
    obtain ⟨entry, hentry, -, hsame⟩ := h.tagOf?_eq_some_iff.mp htag
    exact hnone entry hentry hsame
  · intro hnone entry hentry hsame
    exact hnone entry.key (h.tagOf?_eq_some_iff.mpr ⟨entry, hentry, rfl, hsame⟩)

end Sound

/-! ## 3. Registrations -/

variable [BEq κ] {registry next : TagRegistry κ} {key : κ} {name : String} {tag asked : Nat}

/-- What a successful registration does: a key that has a tag keeps it, and a key without one gets a
tag of one byte that is neither null's nor another key's. -/
inductive Grants (registry : TagRegistry κ) (key : κ) (name : String) (tag : Nat) :
    TagRegistry κ → Prop where
  | kept (htag : registry.tagOf? key = some tag) : Grants registry key name tag registry
  | new (hkey : registry.tagOf? key = none) (hfree : registry.entryOf? tag = none)
    (hrange : tag ≠ 0 ∧ tag < 256) :
    Grants registry key name tag ⟨insertEntry ⟨tag, key, name⟩ registry.entries⟩

theorem grants_of_register (h : registry.register key name = .ok (tag, next)) :
    registry.Grants key name tag next := by
  unfold register at h
  split at h
  · next hkey =>
    cases h
    exact .kept hkey
  · next hkey =>
    split at h
    · next hfree =>
      cases h
      obtain ⟨hrange, hnone, -⟩ := freeTag?_eq_some_iff.mp hfree
      exact .new hkey hnone hrange
    · cases h

theorem grants_of_registerWithTag (hasked : asked < 256)
    (h : registry.registerWithTag key asked name = .ok (tag, next)) :
    registry.Grants key name tag next := by
  unfold registerWithTag at h
  split at h
  · cases h
  · next hpos =>
    split at h
    · next existing hkey =>
      split at h
      · next hsame =>
        cases h
        rw [hsame] at hkey
        exact .kept hkey
      · cases h
    · next hkey =>
      split at h
      · cases h
      · next hfree =>
        cases h
        exact .new hkey hfree ⟨hpos, hasked⟩

variable [LawfulBEq κ]

/-- **A registration keeps a registry sound.** -/
theorem Sound.grant (h : registry.Sound) (hgrants : registry.Grants key name tag next) :
    next.Sound := by
  cases hgrants with
  | kept htag => exact h
  | new hkey hfree hrange =>
    have hnew := TagRegistry.entryOf?_eq_none_iff.mp hfree
    have hperm := insertEntry_perm ⟨tag, key, name⟩ registry.entries
    refine ⟨sorted_insertEntry h.sorted hnew, ?_, fun entry hentry => ?_⟩
    · refine (hperm.map TagEntry.key).nodup_iff.mpr (List.nodup_cons.mpr ⟨fun hmem => ?_, h.keys⟩)
      obtain ⟨entry, hentry, hsame⟩ := List.mem_map.mp hmem
      have htag := h.tagOf?_eq_some_iff.mpr ⟨entry, hentry, hsame, rfl⟩
      rw [hkey] at htag
      cases htag
    · rcases List.mem_cons.mp (hperm.mem_iff.mp hentry) with rfl | hold
      · exact hrange
      · exact h.range entry hold

/-- **A registration gives the named key its tag**, and leaves every other key with what it had. -/
theorem Sound.tagOf?_grant_iff (h : registry.Sound) (hgrants : registry.Grants key name tag next)
    {other : κ} {found : Nat} :
    next.tagOf? other = some found ↔
      registry.tagOf? other = some found ∨ other = key ∧ found = tag := by
  have hnext := h.grant hgrants
  cases hgrants with
  | kept htag =>
    refine ⟨.inl, fun hor => hor.elim id ?_⟩
    rintro ⟨rfl, rfl⟩
    exact htag
  | new hkey hfree hrange =>
    have hperm := insertEntry_perm ⟨tag, key, name⟩ registry.entries
    rw [hnext.tagOf?_eq_some_iff, h.tagOf?_eq_some_iff]
    simp only [hperm.mem_iff, List.mem_cons]
    constructor
    · rintro ⟨entry, rfl | hold, rfl, rfl⟩
      · exact .inr ⟨rfl, rfl⟩
      · exact .inl ⟨entry, hold, rfl, rfl⟩
    · rintro (⟨entry, hold, rfl, rfl⟩ | ⟨rfl, rfl⟩)
      · exact ⟨entry, .inr hold, rfl, rfl⟩
      · exact ⟨_, .inl rfl, rfl, rfl⟩

end Schema.TagRegistry

end Wireform
