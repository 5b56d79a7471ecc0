import Wireform.Codec.Mapping

/-!
# Maps and their entries

A map is read by inserting its entries in the order of the wire.  `MapKind.Apart` says of entries
that they can be those of a map: no key comes twice, and those of a sorted map are in order.  If
so, inserting them in turn gives them back (`ofPairs_arranges`): as they are if the map keeps an
order, and in some order if it is hashed.

Each insertion puts its entry behind those that are there, or, in a hashed map, somewhere among
them; the invariant is that the keys still to come follow all keys that are there.
-/
namespace Wireform

variable {κ ν : Type}

namespace MapKind

/-- A key may come behind another one: it is not the same, and in a sorted map it is greater. -/
def Follows [Ord κ] (kind : MapKind) (later earlier : κ) : Prop :=
  match kind with
  | .sorted => compare later earlier = .gt
  | _ => compare later earlier ≠ .eq

/-- The entries can be those of a map, in the order in which it writes them. -/
def Apart [Ord κ] (kind : MapKind) (entries : List (κ × ν)) : Prop :=
  entries.Pairwise fun earlier later => kind.Follows later.1 earlier.1

/-- The entries make the same map: they are the same, in the same order if the map has one. -/
def Arranges (kind : MapKind) (entries entries' : List (κ × ν)) : Prop :=
  match kind with
  | .hashed | .seeded => entries.Perm entries'
  | .sorted | .ordered => entries = entries'

theorem Arranges.perm {kind : MapKind} {entries entries' : List (κ × ν)}
    (h : kind.Arranges entries entries') : entries.Perm entries' := by
  cases kind with
  | hashed => exact h
  | seeded => exact h
  | sorted => exact .of_eq h
  | ordered => exact .of_eq h

theorem Arranges.trans {kind : MapKind} {first second third : List (κ × ν)}
    (h : kind.Arranges first second) (h' : kind.Arranges second third) :
    kind.Arranges first third := by
  cases kind with
  | hashed => exact List.Perm.trans h h'
  | seeded => exact List.Perm.trans h h'
  | sorted => exact Eq.trans h h'
  | ordered => exact Eq.trans h h'

theorem Arranges.append_right {kind : MapKind} {entries entries' : List (κ × ν)}
    (h : kind.Arranges entries entries') (rest : List (κ × ν)) :
    kind.Arranges (entries ++ rest) (entries' ++ rest) := by
  cases kind with
  | hashed => exact List.Perm.append_right rest h
  | seeded => exact List.Perm.append_right rest h
  | sorted => exact congrArg (· ++ rest) h
  | ordered => exact congrArg (· ++ rest) h

/-! ## 1. One insertion -/

section

variable [Ord κ] {key : κ} {value : ν} {entries : List (κ × ν)}

/-- A key that is not there is inserted somewhere. -/
theorem insertSorted_perm (h : ∀ entry ∈ entries, compare key entry.1 ≠ .eq) :
    (entries ++ [(key, value)]).Perm (insertSorted key value entries) := by
  induction entries with
  | nil => exact .refl _
  | cons entry rest ih =>
    have hne := h entry List.mem_cons_self
    unfold insertSorted
    cases hcompare : compare key entry.1 with
    | eq => exact absurd hcompare hne
    | lt => exact List.perm_append_singleton (key, value) (entry :: rest)
    | gt => exact (ih fun e he => h e (List.mem_cons_of_mem _ he)).cons entry

/-- A key greater than all that are there is inserted behind them. -/
theorem insertSorted_of_greater (h : ∀ entry ∈ entries, compare key entry.1 = .gt) :
    insertSorted key value entries = entries ++ [(key, value)] := by
  induction entries with
  | nil => rfl
  | cons entry rest ih =>
    have hgreater := h entry List.mem_cons_self
    rw [insertSorted, hgreater]
    dsimp only
    rw [ih fun e he => h e (List.mem_cons_of_mem _ he), List.cons_append]

/-- A key that is not there is inserted behind those that are. -/
theorem insertLast_of_new (h : ∀ entry ∈ entries, compare key entry.1 ≠ .eq) :
    insertLast key value entries = entries ++ [(key, value)] := by
  induction entries with
  | nil => rfl
  | cons entry rest ih =>
    have hne := h entry List.mem_cons_self
    rw [insertLast, if_neg hne, ih fun e he => h e (List.mem_cons_of_mem _ he), List.cons_append]

/-- An entry whose key follows all that are there is added to them. -/
theorem insert_arranges {kind : MapKind} (h : ∀ entry ∈ entries, kind.Follows key entry.1) :
    kind.Arranges (entries ++ [(key, value)]) (kind.insert key value entries) := by
  cases kind with
  | hashed => exact insertSorted_perm h
  | seeded => exact insertSorted_perm h
  | sorted => exact (insertSorted_of_greater h).symm
  | ordered => exact (insertLast_of_new h).symm

end

/-! ## 2. Inserting in turn -/

variable [Ord κ] {kind : MapKind}

theorem foldl_insert_arranges {pairs entries : List (κ × ν)} (hapart : kind.Apart pairs)
    (hfollows : ∀ pair ∈ pairs, ∀ entry ∈ entries, kind.Follows pair.1 entry.1) :
    kind.Arranges (entries ++ pairs)
      (pairs.foldl (fun entries pair => kind.insert pair.1 pair.2 entries) entries) := by
  induction pairs generalizing entries with
  | nil =>
    rw [List.append_nil]
    cases kind <;> first | exact List.Perm.refl _ | exact rfl
  | cons pair rest ih =>
    obtain ⟨hpair, hrest⟩ := List.pairwise_cons.mp hapart
    have hinsert : kind.Arranges (entries ++ [pair]) (kind.insert pair.1 pair.2 entries) :=
      insert_arranges (hfollows pair List.mem_cons_self)
    have hinserted : ∀ later ∈ rest, ∀ entry ∈ kind.insert pair.1 pair.2 entries,
        kind.Follows later.1 entry.1 := by
      intro later hlater entry hentry
      rcases List.mem_append.mp (hinsert.perm.mem_iff.mpr hentry) with hold | hnew
      · exact hfollows later (List.mem_cons_of_mem _ hlater) entry hold
      · rw [List.mem_singleton.mp hnew]
        exact hpair later hlater
    have hstep := hinsert.append_right rest
    rw [List.append_assoc, List.singleton_append] at hstep
    exact hstep.trans (ih hrest hinserted)

/-- **Entries that can be those of a map make that map.** -/
theorem ofPairs_arranges {pairs : List (κ × ν)} (h : kind.Apart pairs) :
    kind.Arranges pairs (kind.ofPairs pairs) :=
  foldl_insert_arranges h fun _ _ _ hentry => absurd hentry List.not_mem_nil

end MapKind

end Wireform
