import Wireform.Proofs.KeyOrder
import Wireform.Proofs.Maps
import Wireform.Proofs.RoundTrip

/-!
# Maps as folds of insertions

A map is read by inserting its entries one after the other, `MapKind.ofPairs`.  Here the keys may
come again, and the entries may stand in any order: this module says which map that is.

`MapKind.valueOf` looks a key up.  One insertion changes what is found for its own key and nothing
else (`valueOf_insert`), whatever the kind of the map; hence the last value of a key wins
(`valueOf_ofPairs`).  The kinds differ in where they put a new key: an ordered map keeps the place
at which a key came first (`keys_ofPairs_ordered`), the others are in the order of their keys
(`ofPairs_ascending`).  So the same pairs have the same content in all of them (`ofPairs_perm`), and
if no key comes twice the order of the pairs does not matter (`ofPairs_of_perm`).
-/
namespace Wireform

variable {κ ν : Type}

namespace MapKind

variable [Ord κ]

/-! ## 1. Looking up a key -/

/-- The value of a key. -/
def valueOf (key : κ) (entries : List (κ × ν)) : Option ν :=
  (entries.find? fun entry => (compare key entry.1).isEq).map Prod.snd

/-- The value that a key has last. -/
def lastValueOf (key : κ) (pairs : List (κ × ν)) : Option ν := valueOf key pairs.reverse

theorem valueOf_cons (key : κ) (entry : κ × ν) (entries : List (κ × ν)) :
    valueOf key (entry :: entries) =
      if (compare key entry.1).isEq then some entry.2 else valueOf key entries := by
  unfold valueOf
  rw [List.find?_cons]
  cases (compare key entry.1).isEq <;> rfl

theorem lastValueOf_concat (key : κ) (pairs : List (κ × ν)) (pair : κ × ν) :
    lastValueOf key (pairs ++ [pair]) =
      if (compare key pair.1).isEq then some pair.2 else lastValueOf key pairs := by
  unfold lastValueOf
  rw [List.reverse_append, List.reverse_singleton, List.singleton_append, valueOf_cons]

theorem ofPairs_concat (kind : MapKind) (pairs : List (κ × ν)) (pair : κ × ν) :
    kind.ofPairs (pairs ++ [pair]) = kind.insert pair.1 pair.2 (kind.ofPairs pairs) := by
  unfold ofPairs
  rw [List.foldl_append]
  rfl

variable [Std.TransOrd κ]

theorem valueOf_insertSorted (other key : κ) (value : ν) (entries : List (κ × ν)) :
    valueOf other (insertSorted key value entries) =
      if (compare other key).isEq then some value else valueOf other entries := by
  induction entries with
  | nil => exact valueOf_cons other (key, value) []
  | cons entry rest ih =>
    unfold insertSorted
    cases hcompare : compare key entry.1 with
    | lt => exact valueOf_cons other (key, value) (entry :: rest)
    | eq =>
      -- an equal key answers to the same ones
      have hsame : compare other key = compare other entry.1 := Std.TransCmp.congr_right hcompare
      rw [valueOf_cons, valueOf_cons, hsame]
      cases (compare other entry.1).isEq <;> rfl
    | gt =>
      dsimp only
      rw [valueOf_cons, valueOf_cons, ih]
      cases hother : compare other key with
      | eq =>
        have hne : compare other entry.1 = .gt := (Std.TransCmp.congr_left hother).trans hcompare
        rw [hne]
        rfl
      | lt | gt => rfl

theorem valueOf_insertLast (other key : κ) (value : ν) (entries : List (κ × ν)) :
    valueOf other (insertLast key value entries) =
      if (compare other key).isEq then some value else valueOf other entries := by
  induction entries with
  | nil => exact valueOf_cons other (key, value) []
  | cons entry rest ih =>
    unfold insertLast
    split
    · next heq =>
      have hsame : compare other key = compare other entry.1 := Std.TransCmp.congr_right heq
      rw [valueOf_cons, valueOf_cons, hsame]
      cases (compare other entry.1).isEq <;> rfl
    · next hne =>
      rw [valueOf_cons, valueOf_cons, ih]
      cases hother : compare other key with
      | eq =>
        rw [← Std.TransCmp.congr_left hother] at hne
        rw [if_neg (by simpa using hne)]
        rfl
      | lt | gt => rfl

/-- One insertion changes the value of its own key, and no other. -/
theorem valueOf_insert (kind : MapKind) (other key : κ) (value : ν) (entries : List (κ × ν)) :
    valueOf other (kind.insert key value entries) =
      if (compare other key).isEq then some value else valueOf other entries := by
  cases kind with
  | ordered => exact valueOf_insertLast other key value entries
  | hashed | seeded | sorted => exact valueOf_insertSorted other key value entries

/-- **The last value of a key wins.** -/
theorem valueOf_ofPairs (kind : MapKind) (key : κ) (pairs : List (κ × ν)) :
    valueOf key (kind.ofPairs pairs) = lastValueOf key pairs := by
  induction pairs using List.reverseRecOn with
  | nil => rfl
  | append_singleton pairs pair ih => rw [ofPairs_concat, valueOf_insert, ih, lastValueOf_concat]

/-! ## 2. Where keys stand -/

omit [Std.TransOrd κ] in
theorem keys_insertLast (key : κ) (value : ν) (entries : List (κ × ν)) :
    (insertLast key value entries).map Prod.fst =
      if (entries.map Prod.fst).any fun other => (compare key other).isEq then
        entries.map Prod.fst
      else entries.map Prod.fst ++ [key] := by
  induction entries with
  | nil => rfl
  | cons entry rest ih =>
    unfold insertLast
    rw [List.map_cons, List.any_cons]
    split
    · next heq =>
      rw [heq]
      rfl
    · next hne =>
      have hisEq : (compare key entry.1).isEq = false := by simpa using hne
      rw [List.map_cons, ih, hisEq, Bool.false_or]
      split <;> rfl

omit [Std.TransOrd κ] in
/-- **In an ordered map a key keeps the place at which it came first.** -/
theorem keys_ofPairs_ordered (pairs : List (κ × ν)) :
    (MapKind.ordered.ofPairs pairs).map Prod.fst =
      (pairs.map Prod.fst).eraseDupsBy fun key other => (compare key other).isEq := by
  -- the keys that are there are those that have been seen, the last one first
  have hloop : ∀ entries : List (κ × ν),
      (pairs.foldl (fun entries pair => insertLast pair.1 pair.2 entries) entries).map Prod.fst =
        List.eraseDupsBy.loop (fun key other => (compare key other).isEq) (pairs.map Prod.fst)
          (entries.map Prod.fst).reverse := by
    induction pairs with
    | nil =>
      intro entries
      exact (List.reverse_reverse _).symm
    | cons pair rest ih =>
      intro entries
      rw [List.foldl_cons, ih, List.map_cons, List.eraseDupsBy.loop, keys_insertLast,
        List.any_reverse]
      cases (entries.map Prod.fst).any fun other => (compare pair.1 other).isEq with
      | true => rfl
      | false =>
        dsimp only
        rw [if_neg (by decide), List.reverse_append]
        rfl
  exact hloop []

/-- The entries are in the order of their keys, and no key comes twice. -/
def Ascending (entries : List (κ × ν)) : Prop :=
  entries.Pairwise fun earlier later => compare earlier.1 later.1 = .lt

/-- No key comes twice. -/
def Separate (entries : List (κ × ν)) : Prop :=
  entries.Pairwise fun earlier later => compare earlier.1 later.1 ≠ .eq

omit [Std.TransOrd κ] in
theorem Ascending.separate {entries : List (κ × ν)} (h : Ascending entries) : Separate entries :=
  h.imp fun hlt => by rw [hlt]; decide

theorem Separate.of_perm {entries entries' : List (κ × ν)} (h : Separate entries)
    (hperm : entries.Perm entries') : Separate entries' :=
  (hperm.pairwise_iff fun {_ _} hne heq => hne (Std.OrientedCmp.eq_symm heq)).mp h

omit [Std.TransOrd κ] in
theorem mem_insertSorted {key : κ} {value : ν} {entries : List (κ × ν)} {entry : κ × ν}
    (h : entry ∈ insertSorted key value entries) :
    entry.1 = key ∨ ∃ old ∈ entries, old.1 = entry.1 := by
  induction entries with
  | nil =>
    rw [List.mem_singleton.mp h]
    exact .inl rfl
  | cons head rest ih =>
    unfold insertSorted at h
    split at h
    · rcases List.mem_cons.mp h with rfl | hold
      · exact .inl rfl
      · exact .inr ⟨entry, hold, rfl⟩
    · rcases List.mem_cons.mp h with rfl | hold
      · exact .inr ⟨head, List.mem_cons_self, rfl⟩
      · exact .inr ⟨entry, List.mem_cons_of_mem _ hold, rfl⟩
    · rcases List.mem_cons.mp h with rfl | hrest
      · exact .inr ⟨entry, List.mem_cons_self, rfl⟩
      · exact (ih hrest).imp_right fun ⟨old, hold, heq⟩ => ⟨old, List.mem_cons_of_mem _ hold, heq⟩

theorem Ascending.insertSorted {entries : List (κ × ν)} (h : Ascending entries) (key : κ)
    (value : ν) : Ascending (insertSorted key value entries) := by
  induction entries with
  | nil => exact List.pairwise_singleton _ _
  | cons head rest ih =>
    obtain ⟨hhead, hrest⟩ := List.pairwise_cons.mp h
    unfold Wireform.insertSorted
    split
    · next hlt =>
      refine List.pairwise_cons.mpr ⟨fun entry hentry => ?_, h⟩
      rcases List.mem_cons.mp hentry with rfl | hentry
      · exact hlt
      · exact Std.TransCmp.lt_trans hlt (hhead entry hentry)
    · exact List.pairwise_cons.mpr ⟨hhead, hrest⟩
    · next hgt =>
      refine List.pairwise_cons.mpr ⟨fun entry hentry => ?_, ih hrest⟩
      rcases mem_insertSorted hentry with heq | ⟨old, hold, heq⟩
      · rw [heq]
        exact Std.OrientedCmp.lt_of_gt hgt
      · rw [← heq]
        exact hhead old hold

/-- **Other maps are in the order of their keys.** -/
theorem ofPairs_ascending {kind : MapKind} (hkind : kind ≠ .ordered) (pairs : List (κ × ν)) :
    Ascending (kind.ofPairs pairs) := by
  induction pairs using List.reverseRecOn with
  | nil => exact .nil
  | append_singleton pairs pair ih =>
    rw [ofPairs_concat]
    cases kind with
    | ordered => exact absurd rfl hkind
    | hashed | seeded | sorted => exact ih.insertSorted pair.1 pair.2

/-! ## 3. The same content -/

/-- Among entries in the order of their keys both ways of inserting come to the same. -/
theorem insertSorted_perm_insertLast {entries : List (κ × ν)}
    (h : Ascending entries) (key : κ) (value : ν) :
    (insertSorted key value entries).Perm (insertLast key value entries) := by
  induction entries with
  | nil => exact .refl _
  | cons head rest ih =>
    obtain ⟨hhead, hrest⟩ := List.pairwise_cons.mp h
    unfold insertSorted insertLast
    cases hcompare : compare key head.1 with
    | eq => exact .refl _
    | gt => exact (ih hrest).cons head
    | lt =>
      have hnew : ∀ entry ∈ rest, compare key entry.1 ≠ .eq := by
        intro entry hentry
        rw [Std.TransCmp.lt_trans hcompare (hhead entry hentry)]
        decide
      dsimp only
      rw [if_neg (by decide), insertLast_of_new hnew]
      exact (List.perm_append_singleton (key, value) (head :: rest)).symm

theorem insertLast_perm {entries entries' : List (κ × ν)} (h : entries.Perm entries')
    (hseparate : Separate entries) (key : κ) (value : ν) :
    (insertLast key value entries).Perm (insertLast key value entries') := by
  induction h with
  | nil => exact .refl _
  | cons head hperm ih =>
    unfold insertLast
    split
    · exact hperm.cons _
    · exact (ih (List.pairwise_cons.mp hseparate).2).cons head
  | swap first second rest =>
    unfold insertLast insertLast
    by_cases hfirst : compare key first.1 = .eq <;> by_cases hsecond : compare key second.1 = .eq
    · -- one key is not equal to two that are not equal
      have heq : compare second.1 first.1 = .eq := by
        rw [← Std.TransCmp.congr_left hsecond]
        exact hfirst
      exact absurd heq ((List.pairwise_cons.mp hseparate).1 first List.mem_cons_self)
    · simp only [hfirst, hsecond, if_true, if_false]
      exact .swap _ _ _
    · simp only [hfirst, hsecond, if_true, if_false]
      exact .swap _ _ _
    · simp only [hfirst, hsecond, if_false]
      exact .swap _ _ _
  | trans hperm _ ih ih' =>
    exact (ih hseparate).trans (ih' (hseparate.of_perm hperm))

/-- What is read as one kind of map has the same content as another. -/
theorem ofPairs_perm_ordered (kind : MapKind) (pairs : List (κ × ν)) :
    (kind.ofPairs pairs).Perm (MapKind.ordered.ofPairs pairs) := by
  by_cases hkind : kind = .ordered
  · rw [hkind]
  · induction pairs using List.reverseRecOn with
    | nil => exact .refl _
    | append_singleton pairs pair ih =>
      have hascending := ofPairs_ascending hkind pairs
      have hinsert : kind.insert pair.1 pair.2 = insertSorted pair.1 pair.2 := by
        cases kind <;> first | rfl | exact absurd rfl hkind
      have hlast := insertSorted_perm_insertLast hascending pair.1 pair.2
      rw [ofPairs_concat, ofPairs_concat, hinsert]
      exact hlast.trans (insertLast_perm ih hascending.separate pair.1 pair.2)

/-- **The same pairs have the same content in every kind of map.** -/
theorem ofPairs_perm (kind kind' : MapKind) (pairs : List (κ × ν)) :
    (kind.ofPairs pairs).Perm (kind'.ofPairs pairs) :=
  (ofPairs_perm_ordered kind pairs).trans (ofPairs_perm_ordered kind' pairs).symm

/-- No key comes twice in a map. -/
theorem ofPairs_separate (kind : MapKind) (pairs : List (κ × ν)) : Separate (kind.ofPairs pairs) :=
  have hsorted : Ascending (MapKind.sorted.ofPairs pairs) := ofPairs_ascending (by decide) pairs
  hsorted.separate.of_perm (ofPairs_perm .sorted kind pairs)

/-- Maps in the order of their keys that have the same content are the same. -/
theorem Ascending.eq_of_perm {entries entries' : List (κ × ν)} (h : Ascending entries)
    (h' : Ascending entries') (hperm : entries.Perm entries') : entries = entries' := by
  refine hperm.eq_of_pairwise (fun first second _ _ hlt hgt => ?_) h h'
  rw [Std.OrientedCmp.gt_of_lt hlt] at hgt
  cases hgt

/-- **If no key comes twice, the order of the pairs does not matter**: the map has them all, and a
map that does not keep their order is the same. -/
theorem ofPairs_of_perm {pairs pairs' : List (κ × ν)} (hseparate : Separate pairs)
    (hperm : pairs.Perm pairs') (kind : MapKind) :
    (kind.ofPairs pairs).Perm pairs ∧ (kind.ofPairs pairs).Perm (kind.ofPairs pairs') ∧
      (kind ≠ .ordered → kind.ofPairs pairs = kind.ofPairs pairs') := by
  have hall : ∀ pairs : List (κ × ν), Separate pairs → (kind.ofPairs pairs).Perm pairs := by
    intro pairs hseparate
    have hapart : MapKind.ordered.Apart pairs :=
      hseparate.imp fun hne heq => hne (Std.OrientedCmp.eq_symm heq)
    have hkeeps : pairs = MapKind.ordered.ofPairs pairs := ofPairs_arranges hapart
    exact (ofPairs_perm_ordered kind pairs).trans (.of_eq hkeeps.symm)
  have hsame : (kind.ofPairs pairs).Perm (kind.ofPairs pairs') :=
    (hall pairs hseparate).trans (hperm.trans (hall pairs' (hseparate.of_perm hperm)).symm)
  exact ⟨hall pairs hseparate, hsame, fun hkind =>
    (ofPairs_ascending hkind pairs).eq_of_perm (ofPairs_ascending hkind pairs') hsame⟩

/-- The entries are the map that comes of some pairs: each key has the value that it has last, once,
and it stands where a map of the kind has it. -/
structure Folds (kind : MapKind) (pairs entries : List (κ × ν)) : Prop where
  last : ∀ key, valueOf key entries = lastValueOf key pairs
  separate : Separate entries
  sorted : kind = .sorted → Ascending entries
  ordered : kind = .ordered → entries.map Prod.fst =
    (pairs.map Prod.fst).eraseDupsBy fun key other => (compare key other).isEq

theorem folds_ofPairs (kind : MapKind) (pairs : List (κ × ν)) :
    kind.Folds pairs (kind.ofPairs pairs) where
  last key := valueOf_ofPairs kind key pairs
  separate := ofPairs_separate kind pairs
  sorted hkind := ofPairs_ascending (by rw [hkind]; decide) pairs
  ordered hkind := by
    rw [hkind]
    exact keys_ofPairs_ordered pairs

end MapKind

/-! ## 4. Catalogues -/

namespace Catalogue

open Samples (chain chain_planned chain_closed chain_grounded chain_distinct)

section

variable [DecimalForm] {catalogue : Catalogue} (sharing : Sharing Value)

/-- What the encodings of values of a shape are read as, wherever they stand: the same values, if no
two variants of an enumeration have the same bytes. -/
def ReadsAs (catalogue : Catalogue) (sharing : Sharing Value) (shape : Shape)
    (read : Value → Value) : Prop :=
  ∀ typeName value bytes, catalogue.HasShape shape value →
    (catalogue.codecOf sharing shape).encode typeName value = .ok bytes →
      (∀ buffer cursor, HoldsAt buffer cursor bytes →
        (catalogue.codecOf sharing shape).read buffer cursor =
          .ok (read value) (cursor + bytes.length)) ∧
      (catalogue.Distinct → catalogue.Same shape value (read value))

theorem readsAs_of_recovers (hplanned : catalogue.Planned) (hclosed : catalogue.Closed)
    (hgrounded : catalogue.Grounded) {shape : Shape} (hknows : catalogue.Knows shape)
    {read : Value → Value} (h : ∀ value, catalogue.HasShape shape value →
      catalogue.fits shape value = true → catalogue.Recovers shape value (read value)) :
    catalogue.ReadsAs sharing shape read := by
  intro typeName value bytes hshape hencode
  obtain ⟨hfits, rfl⟩ := (hplanned.writes_codecOf sharing hshape).of_encode hencode
  have hrecovers := h value hshape hfits
  refine ⟨fun buffer cursor hholds => ?_, fun hdistinct => ?_⟩
  · exact hrecovers.read sharing hplanned hclosed hgrounded (.refl catalogue) rfl hknows hholds
      hshape
  · rw [hrecovers.restored hdistinct]
    exact same_restored hshape

/-- A count, then key and value of each pair. -/
def countedPairs (keyBytes valueBytes : Value → Buffer) (pairs : List (Value × Value)) : Buffer :=
  lengthBytes pairs.length ++ pairs.flatMap fun pair => keyBytes pair.1 ++ valueBytes pair.2

/-- The pairs, with each key and value as it is read. -/
def readPairs (keyRead valueRead : Value → Value) (pairs : List (Value × Value)) :
    List (Value × Value) :=
  pairs.map fun pair => (keyRead pair.1, valueRead pair.2)

theorem wire_entries (kind : MapKind) (key value : Shape) (pairs : List (Value × Value)) :
    catalogue.wire (.mapping kind key value) (.entries pairs) =
      countedPairs (catalogue.wire key) (catalogue.wire value) pairs := by
  rw [wire, wireEntries_eq]
  rfl

/-- **Reading a map is inserting its entries in turn.**  Whatever keys and values come back as, let
some pairs of them be encoded one after the other behind their count, with any keys among them more
than once.  This is what every kind of map writes; and wherever it stands every kind reads it,
afresh or over any map, as the map that comes of inserting the pairs in turn, and consumes it.  That
map is as its kind has it, in every kind it has the same content, and if no key comes twice it is
the same for every order of the pairs. -/
theorem maps_fold_entries (hplanned : catalogue.Planned) (hclosed : catalogue.Closed)
    (hgrounded : catalogue.Grounded) {key value : Shape} (hkey : catalogue.Knows key)
    (hvalue : catalogue.Knows value) :
    ∃ keyRead valueRead : Value → Value,
      catalogue.ReadsAs sharing key keyRead ∧ catalogue.ReadsAs sharing value valueRead ∧
      ∀ (typeName : String) (keyBytes valueBytes : Value → Buffer) (pairs : List (Value × Value)),
        pairs.length ≤ maxLength →
        (∀ pair ∈ pairs, (catalogue.HasShape key pair.1 ∧
            (catalogue.codecOf sharing key).encode typeName pair.1 = .ok (keyBytes pair.1)) ∧
          catalogue.HasShape value pair.2 ∧
            (catalogue.codecOf sharing value).encode typeName pair.2 = .ok (valueBytes pair.2)) →
        ∀ kind : MapKind,
          (catalogue.codecOf sharing (.mapping kind key value)).encode typeName (.entries pairs) =
            .ok (countedPairs keyBytes valueBytes pairs) ∧
          (∀ buffer cursor, HoldsAt buffer cursor (countedPairs keyBytes valueBytes pairs) →
            (catalogue.codecOf sharing (.mapping kind key value)).read buffer cursor =
              .ok (.entries (kind.ofPairs (readPairs keyRead valueRead pairs)))
                (cursor + (countedPairs keyBytes valueBytes pairs).length) ∧
            ∀ target, catalogue.HasShape (.mapping kind key value) target →
              ((catalogue.codecOf sharing (.mapping kind key value)).overwrite target buffer
                  cursor).toResult =
                .ok (.entries (kind.ofPairs (readPairs keyRead valueRead pairs)))
                  (cursor + (countedPairs keyBytes valueBytes pairs).length)) ∧
          kind.Folds (readPairs keyRead valueRead pairs)
            (kind.ofPairs (readPairs keyRead valueRead pairs)) ∧
          (∀ other : MapKind, (kind.ofPairs (readPairs keyRead valueRead pairs)).Perm
            (other.ofPairs (readPairs keyRead valueRead pairs))) ∧
          (MapKind.Separate (readPairs keyRead valueRead pairs) → ∀ pairs', pairs.Perm pairs' →
            (kind.ofPairs (readPairs keyRead valueRead pairs)).Perm
              (kind.ofPairs (readPairs keyRead valueRead pairs')) ∧
            (kind ≠ .ordered → kind.ofPairs (readPairs keyRead valueRead pairs) =
              kind.ofPairs (readPairs keyRead valueRead pairs'))) := by
  choose! keyRead hkeyRead using fun item => @exists_recovers _ catalogue key item
  choose! valueRead hvalueRead using fun item => @exists_recovers _ catalogue value item
  refine ⟨keyRead, valueRead, readsAs_of_recovers sharing hplanned hclosed hgrounded hkey hkeyRead,
    readsAs_of_recovers sharing hplanned hclosed hgrounded hvalue hvalueRead, ?_⟩
  intro typeName keyBytes valueBytes pairs hlength hpairs kind
  have hknows : catalogue.Knows (.mapping kind key value) := fun name hname =>
    (List.mem_append.mp hname).elim (hkey name) (hvalue name)
  have hfits : ∀ pair ∈ pairs,
      (catalogue.fits key pair.1 = true ∧ keyBytes pair.1 = catalogue.wire key pair.1) ∧
        catalogue.fits value pair.2 = true ∧ valueBytes pair.2 = catalogue.wire value pair.2 := by
    intro pair hpair
    obtain ⟨⟨hkey, hkeyEncode⟩, hvalue, hvalueEncode⟩ := hpairs pair hpair
    exact ⟨(hplanned.writes_codecOf sharing hkey).of_encode hkeyEncode,
      (hplanned.writes_codecOf sharing hvalue).of_encode hvalueEncode⟩
  have hshape : catalogue.HasShape (.mapping kind key value) (.entries pairs) :=
    .mapping (fun pair hpair => (hpairs pair hpair).1.1) fun pair hpair => (hpairs pair hpair).2.1
  have hwire : catalogue.wire (.mapping kind key value) (.entries pairs) =
      countedPairs keyBytes valueBytes pairs := by
    rw [wire_entries, countedPairs, countedPairs]
    refine congrArg _ (List.flatMap_congr fun pair hpair => ?_)
    obtain ⟨⟨-, hkey⟩, -, hvalue⟩ := hfits pair hpair
    rw [hkey, hvalue]
  have hread : ∀ buffer cursor, HoldsAt buffer cursor (countedPairs keyBytes valueBytes pairs) →
      (catalogue.codecOf sharing (.mapping kind key value)).read buffer cursor =
        .ok (.entries (kind.ofPairs (readPairs keyRead valueRead pairs)))
          (cursor + (countedPairs keyBytes valueBytes pairs).length) := by
    intro buffer cursor hholds
    rw [← hwire] at hholds ⊢
    have hrecovers : catalogue.Recovers (.mapping kind key value) (.entries pairs) _ :=
      .entries hlength
        (fun pair hpair => hkeyRead pair.1 (hpairs pair hpair).1.1 (hfits pair hpair).1.1)
        fun pair hpair => hvalueRead pair.2 (hpairs pair hpair).2.1 (hfits pair hpair).2.1
    exact hrecovers.read sharing hplanned hclosed hgrounded (.refl catalogue) rfl hknows hholds
      hshape
  refine ⟨?_, fun buffer cursor hholds => ⟨hread buffer cursor hholds, fun target htarget => ?_⟩,
    MapKind.folds_ofPairs kind _, fun other => MapKind.ofPairs_perm kind other _,
    fun hseparate pairs' hperm => ?_⟩
  · rw [← hwire]
    refine (hplanned.writes_codecOf sharing hshape).encode_eq ?_ typeName
    rw [fits, Bool.and_eq_true, decide_eq_true_eq, fitsEntries_iff]
    exact ⟨hlength, fun pair hpair => ⟨(hfits pair hpair).1.1, (hfits pair hpair).2.1⟩⟩
  · exact hplanned.overwrite_of_read sharing htarget (hread buffer cursor hholds)
  · exact (MapKind.ofPairs_of_perm hseparate (hperm.map _) kind).2

end

/-- Three pairs of bytes, of which the last has the key of the first: the ordered map keeps it in
front, the sorted one moves it back, and both have its last value. -/
theorem maps_fold_entries_bytes :
    let byte : Shape := .leaf (.primitive .u8)
    let pairs : List (Value × Value) := [(.int 9, .int 1), (.int 5, .int 2), (.int 9, .int 3)]
    let bytes (value : Value) : Buffer := chain.wire byte value
    ((chain.Planned ∧ chain.Closed ∧ chain.Grounded ∧ chain.Knows byte) ∧
        pairs.length ≤ maxLength ∧ ∀ pair ∈ pairs, (chain.HasShape byte pair.1 ∧
            (chain.codecOf Sharing.none byte).encode "u8" pair.1 = .ok (bytes pair.1)) ∧
          chain.HasShape byte pair.2 ∧
            (chain.codecOf Sharing.none byte).encode "u8" pair.2 = .ok (bytes pair.2)) ∧
      (chain.codecOf Sharing.none (.mapping .ordered byte byte)).read
          [3, 0, 0, 0, 9, 1, 5, 2, 9, 3] 0 =
        .ok (.entries [(.int 9, .int 3), (.int 5, .int 2)]) 10 ∧
      (chain.codecOf Sharing.none (.mapping .sorted byte byte)).read
          [3, 0, 0, 0, 9, 1, 5, 2, 9, 3] 0 =
        .ok (.entries [(.int 5, .int 2), (.int 9, .int 3)]) 10 := by
  intro byte pairs bytes
  have hknows : chain.Knows byte := fun name hname => absurd hname List.not_mem_nil
  have hbyte : ∀ n : Int, IntFormat.u8.contains n = true → chain.HasShape byte (.int n) ∧
      (chain.codecOf Sharing.none byte).encode "u8" (.int n) = .ok (bytes (.int n)) := by
    intro n hn
    have hshape : chain.HasShape byte (.int n) := .leaf hn
    exact ⟨hshape, (chain_planned.writes_codecOf Sharing.none hshape).encode_eq rfl "u8"⟩
  have hpairs : ∀ pair ∈ pairs, (chain.HasShape byte pair.1 ∧
      (chain.codecOf Sharing.none byte).encode "u8" pair.1 = .ok (bytes pair.1)) ∧
        chain.HasShape byte pair.2 ∧
          (chain.codecOf Sharing.none byte).encode "u8" pair.2 = .ok (bytes pair.2) := by
    simp only [pairs, List.forall_mem_cons, List.not_mem_nil, false_implies, implies_true, and_true]
    exact ⟨⟨hbyte 9 rfl, hbyte 1 rfl⟩, ⟨hbyte 5 rfl, hbyte 2 rfl⟩, hbyte 9 rfl, hbyte 3 rfl⟩
  have hlength : pairs.length ≤ maxLength := by decide
  obtain ⟨keyRead, valueRead, hkey, hvalue, hfold⟩ := maps_fold_entries Sharing.none chain_planned
    chain_closed chain_grounded hknows hknows
  have hself : ∀ read : Value → Value, chain.ReadsAs Sharing.none byte read → ∀ n : Int,
      IntFormat.u8.contains n = true → read (.int n) = .int n := by
    intro read hread n hn
    have hsame : chain.Same (.leaf (.primitive .u8)) (.int n) (read (.int n)) :=
      (hread "u8" _ _ (hbyte n hn).1 (hbyte n hn).2).2 chain_distinct
    generalize read (.int n) = value at hsame
    cases hsame
    rfl
  have hpairsRead : readPairs keyRead valueRead pairs = pairs := by
    simp only [readPairs, pairs, List.map_cons, List.map_nil, hself keyRead hkey 9 rfl,
      hself keyRead hkey 5 rfl, hself valueRead hvalue 1 rfl, hself valueRead hvalue 2 rfl,
      hself valueRead hvalue 3 rfl]
  have hbytes : countedPairs bytes bytes pairs = [3, 0, 0, 0, 9, 1, 5, 2, 9, 3] := by decide
  have hread := fun kind => (hfold "u8" bytes bytes pairs hlength hpairs kind).2.1
  rw [hpairsRead, hbytes] at hread
  have hread := fun kind => (hread kind [3, 0, 0, 0, 9, 1, 5, 2, 9, 3] 0 (List.prefix_refl _)).1
  exact ⟨⟨⟨chain_planned, chain_closed, chain_grounded, hknows⟩, hlength, hpairs⟩, hread .ordered,
    hread .sorted⟩

end Catalogue

end Wireform
