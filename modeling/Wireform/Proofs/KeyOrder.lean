import Wireform.Value

/-!
# The order of keys

`Value.compare` is a total preorder: comparing two values the other way round gives the opposite,
and what is before or beside a value is before or beside all that come behind it.  This is what a
sorted map needs of its keys.

Two keys that compare equal need not be the same value, since decimals are compared by what they
amount to.  So nothing here says that they are.

Values of different cases are ordered by their case, values of one case by what they hold.  Both
laws are shown for the value on the left by recursion on it, together with those for lists of values
and lists of entries.
-/
namespace Wireform

/-! ## 1. Comparing one value with others -/

/-- What compares equal to `a` compares like it, and what `a` is before is before nothing that `a`
is not before. -/
def Leads {α : Type} (cmp : α → α → Ordering) (a : α) : Prop :=
  ∀ b c, (cmp a b = .eq → cmp a c = cmp b c) ∧ (cmp a b = .lt → cmp b c ≠ .gt → cmp a c = .lt)

theorem leads_of_transOrd {α : Type} [Ord α] [Std.TransOrd α] {a b c : α} :
    (compare a b = .eq → compare a c = compare b c) ∧
      (compare a b = .lt → compare b c ≠ .gt → compare a c = .lt) :=
  ⟨Std.TransCmp.congr_left,
    fun hlt hle => Std.TransCmp.lt_of_lt_of_isLE hlt (Ordering.isLE_iff_ne_gt.mpr hle)⟩

/-- What is true of comparisons is true of comparing by one and then by the other. -/
theorem Leads.then {α β : Type} {cmp : α → α → Ordering} {cmp' : β → β → Ordering} {a : α} {b : β}
    (h : Leads cmp a) (h' : Leads cmp' b) :
    Leads (fun x y : α × β => (cmp x.1 y.1).then (cmp' x.2 y.2)) (a, b) := by
  rintro ⟨a₂, b₂⟩ ⟨a₃, b₃⟩
  obtain ⟨heq, hlt⟩ := h a₂ a₃
  obtain ⟨heq', hlt'⟩ := h' b₂ b₃
  dsimp only
  constructor
  · rw [Ordering.then_eq_eq]
    rintro ⟨hfirst, hsecond⟩
    rw [heq hfirst, heq' hsecond]
  · intro hbefore hbeside
    cases hfirst : cmp a a₂ with
    | lt =>
      have hne : cmp a₂ a₃ ≠ .gt := fun hgt => hbeside (by rw [hgt]; rfl)
      rw [hlt hfirst hne]
      rfl
    | eq =>
      rw [hfirst] at hbefore
      rw [heq hfirst]
      cases hsecond : cmp a₂ a₃ with
      | lt => rfl
      | eq =>
        rw [hsecond] at hbeside
        exact hlt' hbefore hbeside
      | gt => exact absurd (by rw [hsecond]; rfl) hbeside
    | gt =>
      rw [hfirst] at hbefore
      cases hbefore

namespace Value

/-! ## 2. Cases -/

/-- Values of different cases are ordered by their case. -/
theorem compare_of_caseRank_ne {a b : Value} (h : a.caseRank ≠ b.caseRank) :
    compare a b = Ord.compare a.caseRank b.caseRank := by
  cases a <;> cases b <;> first | rfl | exact absurd rfl h

theorem caseRank_of_eq {a b : Value} (h : compare a b = .eq) : a.caseRank = b.caseRank := by
  by_cases heq : a.caseRank = b.caseRank
  · exact heq
  · rw [compare_of_caseRank_ne heq] at h
    exact Nat.compare_eq_eq.mp h

theorem caseRank_le_of_ne_gt {a b : Value} (h : compare a b ≠ .gt) : a.caseRank ≤ b.caseRank := by
  by_cases heq : a.caseRank = b.caseRank
  · exact Nat.le_of_eq heq
  · rw [compare_of_caseRank_ne heq] at h
    exact Nat.compare_ne_gt.mp h

theorem compare_of_caseRank_lt {a b : Value} (h : a.caseRank < b.caseRank) : compare a b = .lt := by
  rw [compare_of_caseRank_ne (Nat.ne_of_lt h)]
  exact Nat.compare_eq_lt.mpr h

/-- Only values of one case have to be looked into. -/
theorem swap_of_case {a b : Value}
    (h : a.caseRank = b.caseRank → compare a b = (compare b a).swap) :
    compare a b = (compare b a).swap := by
  by_cases hab : a.caseRank = b.caseRank
  · exact h hab
  · rw [compare_of_caseRank_ne hab, compare_of_caseRank_ne (Ne.symm hab)]
    exact Std.OrientedOrd.eq_swap

/-- Only values of one case have to be looked into. -/
theorem leads_of_case {a : Value} (h : ∀ b c, a.caseRank = b.caseRank → b.caseRank = c.caseRank →
    (compare a b = .eq → compare a c = compare b c) ∧
      (compare a b = .lt → compare b c ≠ .gt → compare a c = .lt)) : Leads compare a := by
  intro b c
  by_cases hab : a.caseRank = b.caseRank
  · by_cases hbc : b.caseRank = c.caseRank
    · exact h b c hab hbc
    · have hac : compare a c = compare b c := by
        rw [compare_of_caseRank_ne hbc, compare_of_caseRank_ne (hab ▸ hbc), hab]
      refine ⟨fun _ => hac, fun _ hle => ?_⟩
      have hlt : b.caseRank < c.caseRank := Nat.lt_of_le_of_ne (caseRank_le_of_ne_gt hle) hbc
      exact hac.trans (compare_of_caseRank_lt hlt)
  · refine ⟨fun heq => absurd (caseRank_of_eq heq) hab, fun hlt hle => ?_⟩
    have hle' : a.caseRank ≤ b.caseRank := caseRank_le_of_ne_gt (by rw [hlt]; decide)
    exact compare_of_caseRank_lt
      (Nat.lt_of_lt_of_le (Nat.lt_of_le_of_ne hle' hab) (caseRank_le_of_ne_gt hle))

/-! ## 3. The two laws -/

mutual

theorem compare_swap (a b : Value) : compare a b = (compare b a).swap := by
  refine swap_of_case fun h => ?_
  cases a <;> cases b <;> try (cases h; done)
  case present.present a b => exact compare_swap a b
  case list.list as bs => exact compareLists_swap as bs
  case record.record as bs => exact compareLists_swap as bs
  case entries.entries as bs => exact compareEntries_swap as bs
  all_goals exact Std.OrientedOrd.eq_swap

theorem compareLists_swap (as bs : List Value) :
    compareLists as bs = (compareLists bs as).swap := by
  match as, bs with
  | [], [] | [], _ :: _ | _ :: _, [] => rfl
  | a :: as, b :: bs =>
    rw [compareLists, compareLists, compare_swap a b, compareLists_swap as bs, Ordering.swap_then]

theorem compareEntries_swap (as bs : List (Value × Value)) :
    compareEntries as bs = (compareEntries bs as).swap := by
  match as, bs with
  | [], [] | [], _ :: _ | _ :: _, [] => rfl
  | (k, v) :: as, (k', v') :: bs =>
    rw [compareEntries, compareEntries, compare_swap k k', compare_swap v v',
      compareEntries_swap as bs, Ordering.swap_then, Ordering.swap_then]

end

mutual

theorem leads (a : Value) : Leads compare a := by
  refine leads_of_case fun b c hab hbc => ?_
  cases a <;> cases b <;> try (cases hab; done)
  all_goals cases c <;> try (cases hbc; done)
  case present.present.present a b c => exact leads a b c
  case list.list.list as bs cs => exact leads_lists as bs cs
  case record.record.record as bs cs => exact leads_lists as bs cs
  case entries.entries.entries as bs cs => exact leads_entries as bs cs
  all_goals exact leads_of_transOrd

theorem leads_lists (as : List Value) : Leads compareLists as := by
  match as with
  | [] =>
    intro bs cs
    cases bs <;> cases cs <;> simp [compareLists]
  | a :: as =>
    intro bs cs
    match bs, cs with
    | [], [] | [], _ :: _ | _ :: _, [] => simp [compareLists]
    | b :: bs, c :: cs => exact (leads a).then (leads_lists as) (b, bs) (c, cs)

theorem leads_entries (as : List (Value × Value)) : Leads compareEntries as := by
  match as with
  | [] =>
    intro bs cs
    cases bs <;> cases cs <;> simp [compareEntries]
  | (k, v) :: as =>
    intro bs cs
    match bs, cs with
    | [], [] | [], _ :: _ | _ :: _, [] => simp [compareEntries]
    | b :: bs, c :: cs =>
      exact ((leads k).then (leads v)).then (leads_entries as) (b, bs) (c, cs)

end

/-- **Keys are ordered.** -/
instance : Std.TransOrd Value where
  eq_swap := compare_swap _ _
  isLE_trans {a b c} hab hbc := by
    rcases Ordering.isLE_iff_eq_lt_or_eq_eq.mp hab with hbefore | hbeside
    · have hac := (leads a b c).2 hbefore (Ordering.isLE_iff_ne_gt.mp hbc)
      exact Ordering.isLE_iff_eq_lt_or_eq_eq.mpr (.inl hac)
    · have hac : Ord.compare a c = Ord.compare b c := (leads a b c).1 hbeside
      rw [hac]
      exact hbc

end Value

end Wireform
