import Mathlib.Order.Bounds.Basic
import Wireform.Proofs.Lowered
import Wireform.Proofs.Tags

/-!
# The tags of a run

Tags are assigned in two passes over the declarations.  The first claims the tags that structures ask
for; the second comes to the same structures again, finds their tags kept, and gives each of the
others the least tag that is free then.

What both passes preserve is said by one invariant, `Assigned asking done tags`: the registry holds
what the structures in `asking` ask for, and besides only the tags of those in `done` that ask for
none, each of them the least that was open to it.  The first pass lets `asking` grow from nothing to
all structures, with nothing done; the second lets `done` grow (`Assigned.claim`,
`Assigned.assign`).  That a structure may ask for its tag later than another one gets its own makes
no difference to the second pass, because everything that is asked for is in the registry before.

A claim fails only for tag 0 or for a tag that was claimed, and an assignment only if 255 other
structures have a tag, so a run fails for its tags exactly if one of the three is the case.
-/
namespace Wireform.Emit

open Schema (KnownTypes SchemaError StructCode StructDecl TagEntry TagRegistry TypeDecl TypeSchema
  analyze maxTypes structures)

/-! ## 1. What is to be assigned -/

/-- The tags that structures ask for. -/
def askedTags (decls : List StructDecl) : List Nat := decls.filterMap StructDecl.tag

/-- The tags that are open to a structure that asks for none: those of no structure that asks for
one, be it declared later, and of no earlier structure that asks for none. -/
def openTags (decls before : List StructDecl) (has : String → Nat → Prop) : Set Nat :=
  {tag | tag ≠ 0 ∧ tag ∉ askedTags decls ∧
    ∀ earlier ∈ before, earlier.tag = none → ¬has earlier.name tag}

/-- **The entries are assigned as structures are declared**: each structure has one, in the order of
the tags, with the tag that it asks for or the least one that is open to it. -/
structure Assigns (decls : List StructDecl) (entries : List TableEntry) : Prop where
  each : (entries.map TableEntry.name).Perm (decls.map StructDecl.name)
  once : (entries.map TableEntry.name).Nodup
  sorted : entries.Pairwise fun a b => a.tag < b.tag
  range : ∀ entry ∈ entries, 1 ≤ entry.tag ∧ entry.tag ≤ maxTypes
  asked : ∀ decl ∈ decls, ∀ tag ∈ decl.tag, ⟨tag, decl.name⟩ ∈ entries
  automatic : ∀ before decl after, decls = before ++ decl :: after → decl.tag = none →
    ∃ tag, ⟨tag, decl.name⟩ ∈ entries ∧
      IsLeast (openTags decls before fun name tag => ⟨tag, name⟩ ∈ entries) tag

/-- A tag cannot be assigned: null's is asked for, or one twice, or there are too many structures. -/
def Unassignable (decls : List StructDecl) : Prop :=
  0 ∈ askedTags decls ∨ ¬(askedTags decls).Nodup ∨ maxTypes < decls.length

/-- The error is one of the assignment of tags.  A conflict is none of them: it needs a name that is
declared twice. -/
def IsTagFault : SchemaError → Prop
  | .reservedTag _ | .duplicateTag _ _ _ | .tooManyTypes _ => True
  | _ => False

theorem mem_askedTags {decls : List StructDecl} {tag : Nat} :
    tag ∈ askedTags decls ↔ ∃ decl ∈ decls, decl.tag = some tag :=
  List.mem_filterMap

/-- What is open depends only on the tags of the earlier structures. -/
theorem openTags_congr {decls before : List StructDecl} {has has' : String → Nat → Prop}
    (h : ∀ earlier ∈ before, ∀ tag, has earlier.name tag ↔ has' earlier.name tag) :
    openTags decls before has = openTags decls before has' := by
  ext tag
  constructor
  · rintro ⟨hpos, hasked, hearlier⟩
    exact ⟨hpos, hasked, fun earlier hmem hnone hhas =>
      hearlier earlier hmem hnone ((h earlier hmem tag).mpr hhas)⟩
  · rintro ⟨hpos, hasked, hearlier⟩
    exact ⟨hpos, hasked, fun earlier hmem hnone hhas =>
      hearlier earlier hmem hnone ((h earlier hmem tag).mp hhas)⟩

/-- A place in a list with one more item is the last one, or a place in the list. -/
theorem append_singleton_eq_append_cons {α : Type} {done before after : List α} {last item : α}
    (h : done ++ [last] = before ++ item :: after) :
    (done = before ∧ last = item) ∨ ∃ rest, done = before ++ item :: rest := by
  rcases List.eq_nil_or_concat after with rfl | ⟨rest, other, rfl⟩
  · obtain ⟨hbefore, hlast⟩ := List.append_inj' h rfl
    exact .inl ⟨hbefore, List.singleton_inj.mp hlast⟩
  · rw [List.concat_eq_append, ← List.cons_append, ← List.append_assoc] at h
    exact .inr ⟨rest, (List.append_inj' h rfl).1⟩

/-- The names of structures are among those of declarations. -/
theorem nodup_names {decls : List TypeDecl} (h : (decls.map TypeDecl.name).Nodup) :
    ((structures decls).map StructDecl.name).Nodup := by
  have hsublist : ((structures decls).map StructDecl.name).Sublist (decls.map TypeDecl.name) := by
    induction decls with
    | nil => exact .refl _
    | cons decl decls ih =>
      have hrest := ih (List.nodup_cons.mp h).2
      cases decl with
      | struct decl => exact hrest.cons_cons decl.name
      | «enum» decl => exact hrest.cons decl.name
  exact h.sublist hsublist

/-- Where names differ, a structure has none of the names before it. -/
theorem not_mem_names_of_nodup {first rest : List StructDecl} {decl : StructDecl}
    (h : ((first ++ decl :: rest).map StructDecl.name).Nodup) :
    decl.name ∉ first.map StructDecl.name := by
  rw [List.map_append, List.nodup_append] at h
  intro hmem
  exact h.2.2 _ hmem _ List.mem_cons_self rfl

/-! ## 2. The invariant of both passes -/

/-- **Tags on the way.**  The structures in `asking` have what they ask for.  Besides, there are only
the tags of those in `done` that ask for none, and these are the least that were open to them. -/
structure Assigned (asking done : List StructDecl) (tags : TagRegistry String) : Prop where
  sound : tags.Sound
  asked : ∀ decl ∈ asking, ∀ tag ∈ decl.tag, tags.tagOf? decl.name = some tag
  only : ∀ name tag, tags.tagOf? name = some tag →
    (∃ decl ∈ asking, decl.name = name ∧ decl.tag = some tag) ∨
      ∃ decl ∈ done, decl.name = name ∧ decl.tag = none
  automatic : ∀ before decl after, done = before ++ decl :: after → decl.tag = none →
    ∃ tag, tags.tagOf? decl.name = some tag ∧
      IsLeast (openTags asking before fun name tag => tags.tagOf? name = some tag) tag

theorem assigned_empty : Assigned [] [] TagRegistry.empty where
  sound := TagRegistry.sound_empty
  asked := fun _ h => absurd h List.not_mem_nil
  only := fun _ _ h => by cases h
  automatic := fun before _ _ h => by cases before <;> cases h

namespace Assigned

variable {asking done : List StructDecl} {tags next : TagRegistry String} {decl : StructDecl}
  {tag : Nat}

/-- Only what is asked for or done has a tag. -/
theorem mem_names (h : Assigned asking done tags) {name : String}
    (htag : tags.tagOf? name = some tag) :
    name ∈ asking.map StructDecl.name ∨ name ∈ done.map StructDecl.name := by
  rcases h.only name tag htag with ⟨decl, hmem, rfl, -⟩ | ⟨decl, hmem, rfl, -⟩
  · exact .inl (List.mem_map_of_mem hmem)
  · exact .inr (List.mem_map_of_mem hmem)

/-! ### The first pass -/

/-- A structure that asks for no tag changes nothing. -/
theorem claim_none (h : Assigned asking [] tags) (hnone : decl.tag = none) :
    Assigned (asking ++ [decl]) [] tags where
  sound := h.sound
  asked := by
    intro other hother tag htag
    rcases List.mem_append.mp hother with hold | hlast
    · exact h.asked other hold tag htag
    · rw [List.mem_singleton.mp hlast, hnone] at htag
      cases htag
  only := by
    intro other tag htag
    rcases h.only other tag htag with ⟨found, hmem, hfound⟩ | ⟨_, hmem, -⟩
    · exact .inl ⟨found, List.mem_append_left _ hmem, hfound⟩
    · cases hmem
  automatic := by
    intro before _ _ hsplit
    cases before <;> cases hsplit

/-- A structure that is granted the tag that it asks for has it from then on. -/
theorem claim_grant (h : Assigned asking [] tags) (htag : decl.tag = some tag)
    (hgrants : tags.Grants decl.name decl.name tag next) : Assigned (asking ++ [decl]) [] next where
  sound := h.sound.grant hgrants
  asked := by
    intro other hother found hfound
    rw [h.sound.tagOf?_grant_iff hgrants]
    rcases List.mem_append.mp hother with hold | hlast
    · exact .inl (h.asked other hold found hfound)
    · rw [List.mem_singleton.mp hlast, htag] at hfound
      cases hfound
      exact .inr ⟨congrArg StructDecl.name (List.mem_singleton.mp hlast), rfl⟩
  only := by
    intro other found hfound
    rcases (h.sound.tagOf?_grant_iff hgrants).mp hfound with hold | ⟨rfl, rfl⟩
    · rcases h.only other found hold with ⟨asked, hmem, hasked⟩ | ⟨_, hmem, -⟩
      · exact .inl ⟨asked, List.mem_append_left _ hmem, hasked⟩
      · cases hmem
    · exact .inl ⟨decl, List.mem_append_right _ List.mem_cons_self, rfl, htag⟩
  automatic := by
    intro before _ _ hsplit
    cases before <;> cases hsplit

/-- In the first pass an entry is one that was asked for. -/
theorem mem_askedTags_of_entryOf? (h : Assigned asking [] tags)
    {entry : Schema.TagEntry String} (hentry : tags.entryOf? tag = some entry) :
    tag ∈ askedTags asking := by
  have hmem := List.mem_of_find?_eq_some hentry
  have hsame : entry.tag = tag := beq_iff_eq.mp (List.find?_some hentry :)
  have htag := h.sound.tagOf?_eq_some_iff.mpr ⟨entry, hmem, rfl, hsame⟩
  rcases h.only _ _ htag with ⟨decl, hdecl, -, hasked⟩ | ⟨_, hdone, -⟩
  · exact mem_askedTags.mpr ⟨decl, hdecl, hasked⟩
  · cases hdone

/-- **A structure claims the tag that it asks for**, unless it is that of null or claimed already. -/
theorem claim (h : Assigned asking [] tags) (hnew : decl.name ∉ asking.map StructDecl.name)
    (hbyte : ∀ tag ∈ decl.tag, tag < 256) :
    (∃ next, claimTag tags (.struct decl) = .ok next ∧ Assigned (asking ++ [decl]) [] next) ∨
      ∃ fault tag, claimTag tags (.struct decl) = .error fault ∧ IsTagFault fault ∧
        decl.tag = some tag ∧ (tag = 0 ∨ tag ∈ askedTags asking) := by
  obtain ⟨name, asked, fields⟩ := decl
  cases asked with
  | none => exact .inl ⟨tags, rfl, h.claim_none rfl⟩
  | some tag =>
    have hkey : tags.tagOf? name = none := by
      cases hfound : tags.tagOf? name with
      | none => rfl
      | some found =>
        rcases h.mem_names hfound with hmem | hmem
        · exact absurd hmem hnew
        · cases hmem
    by_cases hzero : tag = 0
    · refine .inr ⟨.reservedTag name, tag, ?_, trivial, rfl, .inl hzero⟩
      simp [claimTag, TagRegistry.registerWithTag, hzero, bind, Except.bind]
    · cases hentry : tags.entryOf? tag with
      | some entry =>
        refine .inr ⟨.duplicateTag tag name entry.name, tag, ?_, trivial, rfl,
          .inr (h.mem_askedTags_of_entryOf? hentry)⟩
        simp [claimTag, TagRegistry.registerWithTag, hzero, hkey, hentry, bind, Except.bind]
      | none =>
        have hgrants : tags.Grants name name tag
            ⟨TagRegistry.insertEntry ⟨tag, name, name⟩ tags.entries⟩ :=
          .new hkey hentry ⟨hzero, hbyte tag rfl⟩
        refine .inl ⟨_, ?_, h.claim_grant rfl hgrants⟩
        simp [claimTag, TagRegistry.registerWithTag, hzero, hkey, hentry, bind, Except.bind, pure,
          Except.pure]

/-- **The first pass** claims all tags that are asked for, unless one is that of null or is asked for
twice. -/
theorem claims (h : Assigned asking [] tags) {decls : List TypeDecl}
    (hnames : ((asking ++ structures decls).map StructDecl.name).Nodup)
    (hbytes : ∀ decl ∈ structures decls, ∀ tag ∈ decl.tag, tag < 256) :
    (∃ last, decls.foldlM claimTag tags = .ok last ∧
        Assigned (asking ++ structures decls) [] last) ∨
      ∃ fault, decls.foldlM claimTag tags = .error fault ∧ IsTagFault fault ∧
        Unassignable (asking ++ structures decls) := by
  induction decls generalizing asking tags with
  | nil => exact .inl ⟨tags, rfl, by simpa [structures] using h⟩
  | cons decl decls ih =>
    cases decl with
    | «enum» decl => exact ih h hnames hbytes
    | struct decl =>
      have hsplit : structures (.struct decl :: decls) = decl :: structures decls := rfl
      rw [hsplit] at hnames hbytes ⊢
      have hnew := not_mem_names_of_nodup hnames
      rcases h.claim hnew (hbytes decl List.mem_cons_self) with
        ⟨next, hnext, hassigned⟩ | ⟨fault, tag, hfault, htags, htag, hcause⟩
      · have hrest := ih hassigned (by rwa [List.append_assoc])
          fun other hother => hbytes other (List.mem_cons_of_mem _ hother)
        rw [List.append_assoc, List.singleton_append] at hrest
        rw [List.foldlM_cons, hnext]
        exact hrest
      · refine .inr ⟨fault, ?_, htags, ?_⟩
        · rw [List.foldlM_cons, hfault]
          rfl
        · have hasked : askedTags (asking ++ decl :: structures decls) =
              askedTags asking ++ tag :: askedTags (structures decls) := by
            simp [askedTags, htag]
          unfold Unassignable
          rw [hasked]
          rcases hcause with rfl | hmem
          · exact .inl (List.mem_append_right _ List.mem_cons_self)
          · refine .inr (.inl fun hnodup => ?_)
            exact (List.nodup_append.mp hnodup).2.2 tag hmem tag List.mem_cons_self rfl

/-! ### The second pass -/

/-- A structure that asks for a tag has it already. -/
theorem assignTag_asked (h : Assigned asking done tags) (hdecl : decl ∈ asking)
    (htag : decl.tag = some tag) : assignTag tags decl = .ok (tag, tags) := by
  have hfound := h.asked decl hdecl tag htag
  have hpos := (h.sound.range_of_tagOf? hfound).1
  simp [assignTag, htag, TagRegistry.registerWithTag, hfound, hpos]

/-- A structure that asks for no tag has none before its turn. -/
theorem tagOf?_automatic (h : Assigned asking done tags)
    (hnames : (asking.map StructDecl.name).Nodup) (hdecl : decl ∈ asking)
    (hnew : decl.name ∉ done.map StructDecl.name) (hnone : decl.tag = none) :
    tags.tagOf? decl.name = none := by
  cases hfound : tags.tagOf? decl.name with
  | none => rfl
  | some found =>
    rcases h.only _ _ hfound with ⟨other, hother, hname, hasked⟩ | ⟨other, hother, hname, -⟩
    · have hsame : other = decl := List.inj_on_of_nodup_map hnames hother hdecl hname
      rw [hsame, hnone] at hasked
      cases hasked
    · exact absurd (hname ▸ List.mem_map_of_mem hother) hnew

/-- An assignment is a registration of the structure's name. -/
theorem grants (h : Assigned asking done tags) (hdecl : decl ∈ asking)
    (hstep : assignTag tags decl = .ok (tag, next)) :
    tags.Grants decl.name decl.name tag next := by
  cases hasked : decl.tag with
  | some asked =>
    rw [h.assignTag_asked hdecl hasked] at hstep
    cases hstep
    exact .kept (h.asked decl hdecl _ hasked)
  | none =>
    unfold assignTag at hstep
    rw [hasked] at hstep
    exact TagRegistry.grants_of_register hstep

/-- An assignment leaves open what other structures leave open. -/
theorem openTags_grant (h : Assigned asking done tags)
    (hgrants : tags.Grants decl.name decl.name tag next) {before : List StructDecl}
    (hnew : decl.name ∉ before.map StructDecl.name) :
    openTags asking before (fun name tag => next.tagOf? name = some tag) =
      openTags asking before fun name tag => tags.tagOf? name = some tag := by
  refine openTags_congr fun earlier hearlier found => ?_
  rw [h.sound.tagOf?_grant_iff hgrants, or_iff_left_iff_imp]
  rintro ⟨hname, -⟩
  exact absurd (hname ▸ List.mem_map_of_mem hearlier) hnew

/-- The tag that is given out is the least one that is open. -/
theorem isLeast_automatic (h : Assigned asking done tags)
    (hnew : decl.name ∉ done.map StructDecl.name) (hfree : tags.freeTag? = some tag)
    (hgrants : tags.Grants decl.name decl.name tag next) :
    IsLeast (openTags asking done fun name tag => next.tagOf? name = some tag) tag := by
  obtain ⟨⟨hpos, -⟩, hentry, hlower⟩ := TagRegistry.freeTag?_eq_some_iff.mp hfree
  rw [h.sound.entryOf?_eq_none_iff] at hentry
  rw [h.openTags_grant hgrants hnew]
  constructor
  · refine ⟨hpos, fun hmem => ?_, fun earlier _ _ => hentry earlier.name⟩
    obtain ⟨other, hother, hasked⟩ := mem_askedTags.mp hmem
    exact hentry other.name (h.asked other hother tag hasked)
  · rintro lower ⟨hlowerPos, hnotAsked, hnotEarlier⟩
    by_contra hless
    -- a lower tag has an entry, which is that of a structure that asks for it or came earlier
    have hsome := hlower lower hlowerPos (Nat.lt_of_not_le hless)
    rw [ne_eq, h.sound.entryOf?_eq_none_iff] at hsome
    push Not at hsome
    obtain ⟨name, hname⟩ := hsome
    rcases h.only name lower hname with ⟨other, hother, -, hasked⟩ | ⟨other, hother, rfl, hnone⟩
    · exact hnotAsked (mem_askedTags.mpr ⟨other, hother, hasked⟩)
    · exact hnotEarlier other hother hnone hname

/-- **An assignment takes a structure to those that are done.** -/
theorem assign (h : Assigned asking done tags) (hnames : (asking.map StructDecl.name).Nodup)
    (hdecl : decl ∈ asking) (hnew : decl.name ∉ done.map StructDecl.name)
    (hstep : assignTag tags decl = .ok (tag, next)) : Assigned asking (done ++ [decl]) next := by
  have hgrants := h.grants hdecl hstep
  have hiff : ∀ {other : String} {found : Nat}, next.tagOf? other = some found ↔
      tags.tagOf? other = some found ∨ other = decl.name ∧ found = tag :=
    h.sound.tagOf?_grant_iff hgrants
  refine ⟨h.sound.grant hgrants, fun other hother found hfound => ?_, fun other found hfound => ?_,
    fun before other after hsplit hnone => ?_⟩
  · exact hiff.mpr (.inl (h.asked other hother found hfound))
  · rcases hiff.mp hfound with hold | ⟨rfl, rfl⟩
    · rcases h.only other found hold with hasked | ⟨decl, hmem, hdecl⟩
      · exact .inl hasked
      · exact .inr ⟨decl, List.mem_append_left _ hmem, hdecl⟩
    · cases hasked : decl.tag with
      | some asked =>
        rw [h.assignTag_asked hdecl hasked] at hstep
        cases hstep
        exact .inl ⟨decl, hdecl, rfl, hasked⟩
      | none => exact .inr ⟨decl, List.mem_append_right _ List.mem_cons_self, rfl, hasked⟩
  · rcases append_singleton_eq_append_cons hsplit with ⟨rfl, rfl⟩ | ⟨rest, rfl⟩
    · have hkey := h.tagOf?_automatic hnames hdecl hnew hnone
      unfold assignTag TagRegistry.register at hstep
      rw [hnone, hkey] at hstep
      dsimp only at hstep
      split at hstep
      · next hfree =>
        cases hstep
        exact ⟨tag, hiff.mpr (.inr ⟨rfl, rfl⟩), h.isLeast_automatic hnew hfree hgrants⟩
      · cases hstep
    · obtain ⟨found, hfound, hleast⟩ := h.automatic before other rest rfl hnone
      refine ⟨found, hiff.mpr (.inl hfound), ?_⟩
      have hbefore : decl.name ∉ before.map StructDecl.name := by
        rw [List.map_append, List.mem_append, not_or] at hnew
        exact hnew.1
      rwa [h.openTags_grant hgrants hbefore]

/-- **An assignment succeeds unless 255 other structures have a tag.** -/
theorem exists_assignTag (h : Assigned asking done tags)
    (hnames : (asking.map StructDecl.name).Nodup) (hdone : done ⊆ asking) (hdecl : decl ∈ asking)
    (hnew : decl.name ∉ done.map StructDecl.name) :
    (∃ tag next, assignTag tags decl = .ok (tag, next)) ∨
      assignTag tags decl = .error (.tooManyTypes decl.name) ∧ maxTypes < asking.length := by
  cases hasked : decl.tag with
  | some tag => exact .inl ⟨tag, tags, h.assignTag_asked hdecl hasked⟩
  | none =>
    have hkey := h.tagOf?_automatic hnames hdecl hnew hasked
    cases hfree : tags.freeTag? with
    | some tag =>
      refine .inl ⟨tag, ⟨TagRegistry.insertEntry ⟨tag, decl.name, decl.name⟩ tags.entries⟩, ?_⟩
      simp [assignTag, hasked, TagRegistry.register, hkey, hfree]
    | none =>
      refine .inr ⟨by simp [assignTag, hasked, TagRegistry.register, hkey, hfree], ?_⟩
      have hfull : maxTypes ≤ tags.entries.length := by
        by_contra hless
        obtain ⟨tag, htag⟩ := TagRegistry.exists_freeTag? (Nat.lt_of_not_le hless)
        rw [hfree] at htag
        cases htag
      -- the keys and the name without a tag are distinct names of structures
      have hnodup : (decl.name :: tags.entries.map TagEntry.key).Nodup := by
        refine List.nodup_cons.mpr ⟨fun hmem => ?_, h.sound.keys⟩
        obtain ⟨entry, hentry, hname⟩ := List.mem_map.mp hmem
        have hfound := h.sound.tagOf?_eq_some_iff.mpr ⟨entry, hentry, hname, rfl⟩
        rw [hkey] at hfound
        cases hfound
      have hsubset : (decl.name :: tags.entries.map TagEntry.key) ⊆ asking.map StructDecl.name := by
        intro name hname
        rcases List.mem_cons.mp hname with rfl | hmem
        · exact List.mem_map_of_mem hdecl
        · obtain ⟨entry, hentry, rfl⟩ := List.mem_map.mp hmem
          have hfound := h.sound.tagOf?_eq_some_iff.mpr ⟨entry, hentry, rfl, rfl⟩
          rcases h.mem_names hfound with hasking | hold
          · exact hasking
          · exact List.map_subset _ hdone hold
      have hlength := (hnodup.subperm hsubset).length_le
      simp only [List.length_cons, List.length_map] at hlength
      omega

end Assigned

/-! ## 3. Runs -/

namespace Lowers

variable {known : KnownTypes} {tags last : TagRegistry String} {decls : List TypeDecl}
  {lowered : List LoweredType} {asking done : List StructDecl}

/-- **The second pass** leaves all structures done, no tag changed, and every entry with the tag that
its name has in the end. -/
theorem assigned (h : Lowers known tags decls lowered last) (hassigned : Assigned asking done tags)
    (hasking : asking = done ++ structures decls) (hnames : (asking.map StructDecl.name).Nodup) :
    Assigned asking asking last ∧
      (∀ name tag, tags.tagOf? name = some tag → last.tagOf? name = some tag) ∧
      ∀ entry ∈ lowered.filterMap LoweredType.entry?,
        last.tagOf? entry.name = some entry.tag := by
  induction h generalizing done with
  | nil =>
    have hdone : asking = done := by simpa [structures] using hasking
    subst hdone
    exact ⟨hassigned, fun _ _ htag => htag, by simp⟩
  | @struct tags next last decl decls tag schema lowered htag hschema hrest ih =>
    have hsplit : asking = done ++ decl :: structures decls := hasking
    have hdecl : decl ∈ asking := hsplit ▸ List.mem_append_right _ List.mem_cons_self
    have hnew := not_mem_names_of_nodup (hsplit ▸ hnames)
    have hstep := hassigned.assign hnames hdecl hnew htag
    have hiff : ∀ {name : String} {found : Nat}, next.tagOf? name = some found ↔
        tags.tagOf? name = some found ∨ name = decl.name ∧ found = tag :=
      hassigned.sound.tagOf?_grant_iff (hassigned.grants hdecl htag)
    obtain ⟨hlast, hkeeps, hentries⟩ := ih hstep (by rw [hsplit, List.append_assoc]; rfl)
    refine ⟨hlast, fun name found hfound => hkeeps name found (hiff.mpr (.inl hfound)), ?_⟩
    intro entry hentry
    simp only [List.filterMap_cons, LoweredType.entry?] at hentry
    rcases List.mem_cons.mp hentry with rfl | hmem
    · have hfound := hkeeps decl.name tag (hiff.mpr (.inr ⟨rfl, rfl⟩))
      rw [eq_mk_of_analyze hschema]
      exact hfound
    · exact hentries entry hmem
  | «enum» hvalid hrest ih => exact ih hassigned hasking

end Lowers

/-- Entries that are sorted by their tags, which differ, stand in the order of these. -/
theorem pairwise_tag_lt {entries sorted : List TableEntry}
    (hsorted : sorted = entries.mergeSort fun a b => a.tag ≤ b.tag)
    (hdiffers : sorted.Pairwise fun a b => a.tag ≠ b.tag) :
    sorted.Pairwise fun a b => a.tag < b.tag := by
  have hle : sorted.Pairwise fun a b => decide (a.tag ≤ b.tag) = true := by
    rw [hsorted]
    refine List.pairwise_mergeSort (fun a b c hab hbc => ?_) (fun a b => ?_) entries
    · simp only [decide_eq_true_eq] at hab hbc ⊢
      omega
    · simp only [Bool.or_eq_true, decide_eq_true_eq]
      omega
  exact (hle.and hdiffers).imp fun hab => Nat.lt_of_le_of_ne (of_decide_eq_true hab.1) hab.2

/-- **Where both passes come to their end, the table is as declared.** -/
theorem Assigned.assigns {decls : List StructDecl} {entries sorted : List TableEntry}
    {last : TagRegistry String} (h : Assigned decls decls last)
    (hdistinct : (decls.map StructDecl.name).Nodup)
    (hnames : entries.map TableEntry.name = decls.map StructDecl.name)
    (htags : ∀ entry ∈ entries, last.tagOf? entry.name = some entry.tag)
    (hsorted : sorted = entries.mergeSort fun a b => a.tag ≤ b.tag) : Assigns decls sorted := by
  have hperm : sorted.Perm entries := hsorted ▸ List.mergeSort_perm entries _
  have hname : (sorted.map TableEntry.name).Perm (decls.map StructDecl.name) :=
    hnames ▸ hperm.map TableEntry.name
  have honce := hname.nodup_iff.mpr hdistinct
  have htag : ∀ entry ∈ sorted, last.tagOf? entry.name = some entry.tag :=
    fun entry hentry => htags entry (hperm.mem_iff.mp hentry)
  -- a structure's entry has the tag that its name has
  have hentry : ∀ decl ∈ decls, ∀ tag,
      ⟨tag, decl.name⟩ ∈ sorted ↔ last.tagOf? decl.name = some tag := by
    intro decl hdecl tag
    refine ⟨htag ⟨tag, decl.name⟩, fun hfound => ?_⟩
    obtain ⟨⟨found, name⟩, hmem, rfl⟩ := List.mem_map.mp
      (hname.mem_iff.mpr (List.mem_map_of_mem hdecl))
    have hsame := (htag _ hmem).symm.trans hfound
    cases hsame
    exact hmem
  refine ⟨hname, honce, ?_, fun entry hmem => ?_, fun decl hdecl tag hasked => ?_,
    fun before decl after hsplit hnone => ?_⟩
  · refine pairwise_tag_lt hsorted ((List.pairwise_map.mp honce).imp_of_mem ?_)
    intro a b ha hb hdiffers hsame
    exact hdiffers (h.sound.key_eq_of_tagOf? (htag _ ha) (hsame ▸ htag _ hb))
  · have hrange := h.sound.range_of_tagOf? (htag entry hmem)
    unfold maxTypes
    omega
  · exact (hentry decl hdecl tag).mpr (h.asked decl hdecl tag hasked)
  · obtain ⟨tag, hfound, hleast⟩ := h.automatic before decl after hsplit hnone
    have hbefore : before ⊆ decls := hsplit ▸ List.subset_append_left _ _
    have hdecl : decl ∈ decls := hsplit ▸ List.mem_append_right _ List.mem_cons_self
    refine ⟨tag, (hentry decl hdecl tag).mpr hfound, ?_⟩
    have hopen : openTags decls before (fun name tag => ⟨tag, name⟩ ∈ sorted) =
        openTags decls before fun name tag => last.tagOf? name = some tag :=
      openTags_congr fun earlier hearlier tag => hentry earlier (hbefore hearlier) tag
    rwa [hopen]

/-- Tags that are assigned are assignable. -/
theorem Assigns.not_unassignable {decls : List StructDecl} {entries : List TableEntry}
    (h : Assigns decls entries) : ¬Unassignable decls := by
  have htags : (entries.map TableEntry.tag).Nodup :=
    List.pairwise_map.mpr (h.sorted.imp Nat.ne_of_lt)
  rintro (hzero | htwice | hmany)
  · obtain ⟨decl, hdecl, hasked⟩ := mem_askedTags.mp hzero
    exact absurd (h.range _ (h.asked decl hdecl 0 hasked)).1 (Nat.not_succ_le_zero 0)
  · refine htwice (List.pairwise_filterMap.mpr ?_)
    refine (List.pairwise_map.mp (h.each.nodup_iff.mp h.once)).imp_of_mem ?_
    rintro a b ha hb hdiffers tag htag _ hother rfl
    have hsame := List.inj_on_of_nodup_map htags (h.asked a ha tag htag) (h.asked b hb tag hother) rfl
    exact hdiffers (congrArg TableEntry.name hsame)
  · have hall : entries.map TableEntry.tag ⊆ Schema.assignableTags := by
      intro tag htag
      obtain ⟨entry, hentry, rfl⟩ := List.mem_map.mp htag
      have hrange := h.range entry hentry
      unfold Schema.assignableTags
      rw [List.mem_range'_1]
      omega
    have hlength := (htags.subperm hall).length_le
    have hsame := h.each.length_eq
    rw [Schema.assignableTags, List.length_range', List.length_map] at hlength
    rw [List.length_map, List.length_map] at hsame
    omega

/-! ## 4. Declarations without any other fault -/

/-- **Nothing but the tags can be wrong**: names, generated names and variants are accepted, and each
structure passes the analysis. -/
structure Acceptable (decls : List TypeDecl) : Prop where
  analyzed : ∃ known, KnownTypes.ofDecls decls = .ok known ∧
    ∀ decl ∈ structures decls, ∃ tag schema, analyze decl known tag = .ok schema
  names : checkGeneratedNames decls = .ok ()
  enums : ∀ decl, .enum decl ∈ decls → Schema.validateEnum decl = .ok ()

/-- What is rendered is acceptable. -/
theorem acceptable_of_render {decls : List TypeDecl} {artifacts : List Artifact}
    (h : render decls = .ok artifacts) : Acceptable decls := by
  obtain ⟨lowered, hlowered, -⟩ := render_eq_ok_iff.mp h
  obtain ⟨known, tags, last, hknown, hnames, -, hlowers⟩ := lowerAll_eq_ok_iff.mp hlowered
  refine ⟨⟨known, hknown, fun decl hdecl => ?_⟩, hnames, fun decl hdecl => (hlowers.mem_enum hdecl).1⟩
  obtain ⟨tag, schema, hschema, -⟩ := hlowers.exists_code hdecl
  exact ⟨tag, schema, hschema⟩

/-- A structure passes the analysis whatever its tag. -/
theorem exists_analyze {known : KnownTypes} {decl : StructDecl} {tag : Nat} {schema : TypeSchema}
    (h : analyze decl known tag = .ok schema) (other : Nat) :
    ∃ schema, analyze decl known other = .ok schema := by
  obtain ⟨progress, hprogress, -⟩ := Schema.bind_eq_ok h
  refine ⟨⟨decl.name, other, progress.plans.toList⟩, ?_⟩
  unfold analyze
  rw [hprogress]
  rfl

/-- **The second pass comes to its end** unless there are more than 255 structures. -/
theorem lowers_or_full {known : KnownTypes} {asking done : List StructDecl} {decls : List TypeDecl}
    {tags : TagRegistry String} (h : Assigned asking done tags)
    (hasking : asking = done ++ structures decls) (hnames : (asking.map StructDecl.name).Nodup)
    (hanalyzed : ∀ decl ∈ structures decls, ∃ tag schema, analyze decl known tag = .ok schema)
    (henums : ∀ decl, .enum decl ∈ decls → Schema.validateEnum decl = .ok ())
    (before : Array LoweredType) :
    (∃ lowered last, Lowers known tags decls lowered last) ∨
      ∃ fault, decls.foldlM (lowerNext known) (tags, before) = .error fault ∧ IsTagFault fault ∧
        maxTypes < asking.length := by
  induction decls generalizing done tags before with
  | nil => exact .inl ⟨[], tags, .nil⟩
  | cons decl decls ih =>
    have hlater : ∀ other, .enum other ∈ decls → Schema.validateEnum other = .ok () :=
      fun other hother => henums other (List.mem_cons_of_mem _ hother)
    cases decl with
    | «enum» decl =>
      have hvalid := henums decl List.mem_cons_self
      rcases ih h hasking hanalyzed hlater (before.push (.enum (.ofDecl decl))) with
        ⟨lowered, last, hlowers⟩ | ⟨fault, hfault, hrest⟩
      · exact .inl ⟨_, last, .enum hvalid hlowers⟩
      · refine .inr ⟨fault, ?_, hrest⟩
        simp only [List.foldlM_cons, lowerNext, hvalid, bind, Except.bind, pure, Except.pure]
        exact hfault
    | struct decl =>
      have hsplit : asking = done ++ decl :: structures decls := hasking
      have hdecl : decl ∈ asking := hsplit ▸ List.mem_append_right _ List.mem_cons_self
      have hnew := not_mem_names_of_nodup (hsplit ▸ hnames)
      rcases h.exists_assignTag hnames (hsplit ▸ List.subset_append_left _ _) hdecl hnew with
        ⟨tag, next, htag⟩ | ⟨hfault, hmany⟩
      · obtain ⟨some, found, hfound⟩ := hanalyzed decl List.mem_cons_self
        obtain ⟨schema, hschema⟩ := exists_analyze hfound tag
        have hstep := h.assign hnames hdecl hnew htag
        rcases ih hstep (by rw [hsplit, List.append_assoc]; rfl)
            (fun other hother => hanalyzed other (List.mem_cons_of_mem _ hother)) hlater
            (before.push (.struct (.ofSchema schema))) with
          ⟨lowered, last, hlowers⟩ | ⟨fault, hfault, hrest⟩
        · exact .inl ⟨_, last, .struct htag hschema hlowers⟩
        · refine .inr ⟨fault, ?_, hrest⟩
          simp only [List.foldlM_cons, lowerNext, htag, hschema, bind, Except.bind, pure,
            Except.pure]
          exact hfault
      · refine .inr ⟨.tooManyTypes decl.name, ?_, trivial, hmany⟩
        simp only [List.foldlM_cons, lowerNext, hfault, bind, Except.bind]

/-- **A run assigns the tags as declared.** -/
theorem assigns_of_lowerAll {decls : List TypeDecl} {lowered : List LoweredType}
    (hbytes : ∀ decl ∈ structures decls, ∀ tag ∈ decl.tag, tag < 256)
    (h : lowerAll decls = .ok lowered) : Assigns (structures decls) (tableOf lowered).entries := by
  obtain ⟨known, tags, last, hknown, -, htags, hlowers⟩ := lowerAll_eq_ok_iff.mp h
  have hnames := nodup_names (KnownTypes.nodup_of_ofDecls hknown)
  rcases assigned_empty.claims hnames hbytes with ⟨first, hfirst, hassigned⟩ | ⟨fault, hfault, -⟩
  · rw [htags] at hfirst
    cases hfirst
    obtain ⟨hlast, -, hentries⟩ := hlowers.assigned hassigned rfl hnames
    exact hlast.assigns hnames hlowers.map_name hentries (entries_tableOf lowered)
  · rw [htags] at hfault
    cases hfault

/-- **Acceptable declarations are rendered, unless a tag cannot be assigned.** -/
theorem Acceptable.render_or_fault {decls : List TypeDecl} (h : Acceptable decls)
    (hbytes : ∀ decl ∈ structures decls, ∀ tag ∈ decl.tag, tag < 256) :
    (∃ artifacts, render decls = .ok artifacts) ∨
      ∃ fault, render decls = .error fault ∧ IsTagFault fault ∧
        Unassignable (structures decls) := by
  obtain ⟨known, hknown, hanalyzed⟩ := h.analyzed
  have hnames := nodup_names (KnownTypes.nodup_of_ofDecls hknown)
  rcases assigned_empty.claims hnames hbytes with
    ⟨tags, htags, hassigned⟩ | ⟨fault, hfault, htagFault, hcause⟩
  · rcases lowers_or_full hassigned rfl hnames hanalyzed h.enums #[] with
      ⟨lowered, last, hlowers⟩ | ⟨fault, hfault, htagFault, hmany⟩
    · have hlowered : lowerAll decls = .ok lowered :=
        lowerAll_eq_ok_iff.mpr ⟨known, tags, last, hknown, h.names, htags, hlowers⟩
      exact .inl ⟨artifactsOf lowered, render_eq_ok_iff.mpr ⟨lowered, hlowered, rfl⟩⟩
    · refine .inr ⟨fault, ?_, htagFault, .inr (.inr hmany)⟩
      simp only [render, lowerAll, hknown, h.names, htags, hfault, bind, Except.bind]
  · refine .inr ⟨fault, ?_, htagFault, hcause⟩
    simp only [render, lowerAll, hknown, h.names, hfault, bind, Except.bind]

/-! ## 5. Generation -/

/-- **Tags are assigned as declared.**  The entries of both shared files are the declared structures,
each once, in the order of their tags, which are `1` to `255`.  Every structure that asks for a tag
has it, and the others have, one after the other, the least that is neither asked for anywhere nor
given to one of them before.  Declarations without any other fault are refused, with an error of
tags, exactly if null's tag is asked for, or a tag twice, or there are more than 255 structures. -/
theorem tags_assigned_as_declared (decls : List TypeDecl)
    (hbytes : ∀ decl ∈ structures decls, ∀ tag ∈ decl.tag, tag < 256) :
    (∀ artifacts, render decls = .ok artifacts → ∃ lowered, lowerAll decls = .ok lowered ∧
      artifacts = artifactsOf lowered ∧ Assigns (structures decls) (tableOf lowered).entries) ∧
    (Acceptable decls →
      ((∃ fault, render decls = .error fault ∧ IsTagFault fault) ↔
        Unassignable (structures decls)) ∧
      ∀ fault, render decls = .error fault → IsTagFault fault) := by
  constructor
  · intro artifacts h
    obtain ⟨lowered, hlowered, hartifacts⟩ := render_eq_ok_iff.mp h
    exact ⟨lowered, hlowered, hartifacts, assigns_of_lowerAll hbytes hlowered⟩
  · intro h
    rcases h.render_or_fault hbytes with ⟨artifacts, hrender⟩ | ⟨fault, hfault, htagFault, hcause⟩
    · obtain ⟨lowered, hlowered, -⟩ := render_eq_ok_iff.mp hrender
      have hassigns := assigns_of_lowerAll hbytes hlowered
      rw [hrender]
      refine ⟨⟨?_, fun hcause => absurd hcause hassigns.not_unassignable⟩, fun _ herror => ?_⟩
      · rintro ⟨fault, herror, -⟩
        cases herror
      · cases herror
    · rw [hfault]
      refine ⟨⟨fun _ => hcause, fun _ => ⟨fault, rfl, htagFault⟩⟩, fun _ herror => ?_⟩
      cases herror
      exact htagFault

end Wireform.Emit

namespace Wireform.Samples

open Schema (StructDecl TypeDecl)

/-- An acknowledgement asks for no tag. -/
def ackStruct : StructDecl := ⟨"Ack", none, []⟩

/-- A ping is declared later and asks for the first tag. -/
def pingStruct : StructDecl := ⟨"Ping", some 1, []⟩

end Wireform.Samples

namespace Wireform.Emit

open Samples (ackStruct pingStruct)
open Schema (structures)

/-- An acknowledgement gets the second tag, since the first one is asked for later. -/
theorem tags_assigned_as_declared_ack :
    (∀ decl ∈ structures [.struct ackStruct, .struct pingStruct], ∀ tag ∈ decl.tag, tag < 256) ∧
      Acceptable [.struct ackStruct, .struct pingStruct] ∧
      ∃ lowered, lowerAll [.struct ackStruct, .struct pingStruct] = .ok lowered ∧
        ⟨2, "Ack"⟩ ∈ (tableOf lowered).entries ∧ ⟨1, "Ping"⟩ ∈ (tableOf lowered).entries := by
  have hbytes : ∀ decl ∈ structures [.struct ackStruct, .struct pingStruct],
      ∀ tag ∈ decl.tag, tag < 256 := by
    simp [structures, ackStruct, pingStruct]
  have hacceptable : Acceptable [.struct ackStruct, .struct pingStruct] := by
    refine ⟨⟨⟨[("Ack", .struct []), ("Ping", .struct [])]⟩, rfl, fun decl hdecl => ?_⟩, rfl, ?_⟩
    · simp only [structures, List.filterMap_cons, List.filterMap_nil, List.mem_cons,
        List.not_mem_nil, or_false] at hdecl
      rcases hdecl with rfl | rfl
      · exact ⟨1, ⟨"Ack", 1, []⟩, rfl⟩
      · exact ⟨1, ⟨"Ping", 1, []⟩, rfl⟩
    · simp
  obtain ⟨hassigns, hfaults⟩ := tags_assigned_as_declared _ hbytes
  obtain ⟨hiff, htagFault⟩ := hfaults hacceptable
  have hassignable : ¬Unassignable (structures [.struct ackStruct, .struct pingStruct]) := by
    simp [Unassignable, askedTags, structures, ackStruct, pingStruct, Schema.maxTypes]
  cases hrender : render [.struct ackStruct, .struct pingStruct] with
  | error fault => exact absurd (hiff.mp ⟨fault, hrender, htagFault fault hrender⟩) hassignable
  | ok artifacts =>
    obtain ⟨lowered, hlowered, -, hentries⟩ := hassigns artifacts hrender
    have hping := hentries.asked pingStruct (by simp [structures]) 1 rfl
    obtain ⟨tag, hack, hleast⟩ := hentries.automatic [] ackStruct [pingStruct] rfl rfl
    have htwo : IsLeast (openTags (structures [.struct ackStruct, .struct pingStruct]) []
        fun name tag => ⟨tag, name⟩ ∈ (tableOf lowered).entries) 2 := by
      constructor
      · simp [openTags, askedTags, structures, ackStruct, pingStruct]
      · rintro lower ⟨hpos, hnotAsked, -⟩
        have hone : lower ≠ 1 := by
          simpa [askedTags, structures, ackStruct, pingStruct] using hnotAsked
        omega
    rw [hleast.unique htwo] at hack
    exact ⟨hbytes, hacceptable, lowered, hlowered, hack, hping⟩

end Wireform.Emit
