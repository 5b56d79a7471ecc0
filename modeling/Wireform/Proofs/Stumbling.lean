import Wireform.Proofs.Counted
import Wireform.Proofs.Raw

/-!
# Readers that refuse a count

An array refuses every count but its own, right behind it and before it looks at any element.  So a
reader that meets such a count in the middle of its bytes ends there, whatever it has read by then
and whatever it would have read next: `Reader.Stumbles reader bytes`.

`Reader.YieldsIf reader good value bytes` joins this with yielding, as `Writer.Puts` joins emitting
with refusing: the reader takes `bytes` and makes `value` of them if they are good for it, and
stumbles over them if not.  It is closed under running one reader after another.
-/
namespace Wireform

variable {α β : Type}

/-- What becomes of a read that meets a count of `found` where there must be `expected`. -/
def Reading.wrongCount (expected found stop : Nat) : Reading α :=
  .error (.wire (.decode (.arrayLength expected found))) stop

/-- What is alike to a refused count is that. -/
theorem Reading.Alike.eq_wrongCount {expected found stop : Nat} {second : Reading α}
    (h : Reading.Alike (Reading.wrongCount expected found stop) second) :
    second = Reading.wrongCount expected found stop := by
  cases second with
  | ok value stop' => exact h.elim
  | error failure stop' =>
    obtain ⟨rfl | ⟨a, b, ha, -⟩, rfl⟩ := h
    · rfl
    · cases ha

/-- The read of some bytes ended right behind a count in them, since another one was expected. -/
def Reading.Stumbled (bytes : List UInt8) (cursor : Nat) (result : Reading α) : Prop :=
  ∃ before expected found, expected ≠ found ∧ before ++ lengthBytes found <+: bytes ∧
    result = Reading.wrongCount expected found (cursor + (before ++ lengthBytes found).length)

theorem Reading.Stumbled.of_alike {bytes : List UInt8} {cursor : Nat} {first second : Reading α}
    (h : Reading.Stumbled bytes cursor first) (halike : Reading.Alike first second) :
    Reading.Stumbled bytes cursor second := by
  obtain ⟨before, expected, found, hne, hbefore, rfl⟩ := h
  exact ⟨before, expected, found, hne, hbefore, halike.eq_wrongCount⟩

namespace Reader

/-! ## 1. Stumbling -/

/-- Behind the bytes `before` the reader wants another count than `found`: wherever both stand, it
refuses the count, right behind it. -/
structure Refuses (reader : Reader α) (before : List UInt8) (expected found : Nat) : Prop where
  ne : expected ≠ found
  read : ∀ buffer cursor, HoldsAt buffer cursor (before ++ lengthBytes found) →
    reader buffer cursor =
      Reading.wrongCount expected found (cursor + (before ++ lengthBytes found).length)

/-- The reader refuses some count in `bytes`. -/
def Stumbles (reader : Reader α) (bytes : List UInt8) : Prop :=
  ∃ before expected found, before ++ lengthBytes found <+: bytes ∧
    reader.Refuses before expected found

section

variable {reader reader' : Reader α} {next : α → Reader β} {value : α}
  {before first rest bytes : List UInt8} {expected found : Nat}

theorem Refuses.bind (h : reader.Refuses before expected found) (next : α → Reader β) :
    (reader >>= next).Refuses before expected found :=
  ⟨h.ne, fun buffer cursor hholds => bind_of_error (h.read buffer cursor hholds)⟩

/-- What is refused behind some bytes is refused behind those that are read before. -/
theorem Yields.bind_refuses (h : reader.Yields value first)
    (hnext : (next value).Refuses before expected found) :
    (reader >>= next).Refuses (first ++ before) expected found := by
  refine ⟨hnext.ne, fun buffer cursor hholds => ?_⟩
  rw [List.append_assoc] at hholds ⊢
  obtain ⟨hfirst, hrest⟩ := holdsAt_append.mp hholds
  rw [bind_of_ok ((h buffer cursor).whole hfirst), hnext.read buffer _ hrest,
    Nat.add_assoc, ← List.length_append]

/-- A count that was just read is refused. -/
theorem Yields.refuses (h : reader.Yields value (lengthBytes found)) (hne : expected ≠ found)
    (hnext : next value = throw (.wire (.decode (.arrayLength expected found)))) :
    (reader >>= next).Refuses [] expected found :=
  ⟨hne, fun buffer cursor hholds => by rw [bind_of_ok ((h buffer cursor).whole hholds), hnext]; rfl⟩

theorem Refuses.stumbles (h : reader.Refuses [] expected found) (rest : List UInt8) :
    reader.Stumbles (lengthBytes found ++ rest) :=
  ⟨[], expected, found, List.prefix_append _ _, h⟩

theorem Refuses.of_get {next : Nat → Reader α}
    (h : ∀ offset, (next offset).Refuses before expected found) :
    (get >>= next : Reader α).Refuses before expected found :=
  ⟨(h 0).ne, fun buffer cursor => (h cursor).read buffer cursor⟩

theorem Refuses.of_alike (h : reader.Refuses before expected found)
    (halike : ∀ buffer cursor, Reading.Alike (reader buffer cursor) (reader' buffer cursor)) :
    reader'.Refuses before expected found := by
  refine ⟨h.ne, fun buffer cursor hholds => ?_⟩
  have hread := halike buffer cursor
  rw [h.read buffer cursor hholds] at hread
  exact hread.eq_wrongCount

theorem Stumbles.bind (h : reader.Stumbles first) (next : α → Reader β) (rest : List UInt8) :
    (reader >>= next).Stumbles (first ++ rest) := by
  obtain ⟨before, expected, found, hbefore, hrefuses⟩ := h
  exact ⟨before, expected, found, hbefore.trans (List.prefix_append _ _), hrefuses.bind next⟩

theorem Yields.bind_stumbles (h : reader.Yields value first) (hnext : (next value).Stumbles rest) :
    (reader >>= next).Stumbles (first ++ rest) := by
  obtain ⟨before, expected, found, hbefore, hrefuses⟩ := hnext
  refine ⟨first ++ before, expected, found, ?_, h.bind_refuses hrefuses⟩
  rw [List.append_assoc]
  exact (List.prefix_append_right_inj first).mpr hbefore

theorem Stumbles.stumbled (h : reader.Stumbles bytes) {buffer : Buffer} {cursor : Nat}
    (hholds : HoldsAt buffer cursor bytes) :
    Reading.Stumbled bytes cursor (reader buffer cursor) := by
  obtain ⟨before, expected, found, hbefore, hrefuses⟩ := h
  exact ⟨before, expected, found, hrefuses.ne, hbefore,
    hrefuses.read buffer cursor (hbefore.trans hholds)⟩

end

/-! ## 2. Yielding or stumbling -/

/-- The reader takes `bytes` and makes `value` of them, if they are good for it; if not, it stumbles
over them. -/
structure YieldsIf (reader : Reader α) (good : Prop) (value : α) (bytes : List UInt8) : Prop where
  yields : good → reader.Yields value bytes
  stumbles : ¬ good → reader.Stumbles bytes

section

variable {reader reader' : Reader α} {next : α → Reader β} {value : α} {result : β}
  {first rest bytes : List UInt8} {good good' : Prop}

theorem Yields.yieldsIf (h : reader.Yields value bytes) : reader.YieldsIf True value bytes :=
  ⟨fun _ => h, fun hbad => absurd trivial hbad⟩

/-- What is good may be said in other words. -/
theorem YieldsIf.congr (h : reader.YieldsIf good value bytes) (hiff : good ↔ good') :
    reader.YieldsIf good' value bytes :=
  ⟨fun hgood => h.yields (hiff.mpr hgood), fun hbad => h.stumbles fun hgood => hbad (hiff.mp hgood)⟩

/-- **Yielding or stumbling is sequential.**  The second reader is needed only if the first one does
not stumble. -/
theorem YieldsIf.bind (h : reader.YieldsIf good value first)
    (hnext : (next value).YieldsIf good' result rest) :
    (reader >>= next).YieldsIf (good ∧ good') result (first ++ rest) := by
  refine ⟨fun hgood => (h.yields hgood.1).bind (hnext.yields hgood.2), fun hbad => ?_⟩
  by_cases hgood : good
  · exact (h.yields hgood).bind_stumbles (hnext.stumbles fun hgood' => hbad ⟨hgood, hgood'⟩)
  · exact (h.stumbles hgood).bind next rest

theorem YieldsIf.map (h : reader.YieldsIf good value bytes) (hnext : next value = pure result) :
    (reader >>= next).YieldsIf good result bytes := by
  refine ⟨fun hgood => (h.yields hgood).map hnext, fun hbad => ?_⟩
  rw [← List.append_nil bytes]
  exact (h.stumbles hbad).bind next []

theorem Yields.bind_if (h : reader.Yields value first)
    (hnext : (next value).YieldsIf good result rest) :
    (reader >>= next).YieldsIf good result (first ++ rest) :=
  (h.yieldsIf.bind hnext).congr (by simp)

theorem YieldsIf.of_alike (h : reader.YieldsIf good value bytes)
    (halike : ∀ buffer cursor, Reading.Alike (reader buffer cursor) (reader' buffer cursor)) :
    reader'.YieldsIf good value bytes := by
  refine ⟨fun hgood => (h.yields hgood).of_alike halike, fun hbad => ?_⟩
  obtain ⟨before, expected, found, hbefore, hrefuses⟩ := h.stumbles hbad
  exact ⟨before, expected, found, hbefore, hrefuses.of_alike halike⟩

/-- Items one after the other are good if each is. -/
theorem YieldsIf.times {item : Reader α} {goodAt : β → Prop} {bytes : β → List UInt8}
    {value : β → α} {sources : List β}
    (h : ∀ source ∈ sources, item.YieldsIf (goodAt source) (value source) (bytes source)) :
    (item.times sources.length).YieldsIf (∀ source ∈ sources, goodAt source) (sources.map value)
      (sources.flatMap bytes) := by
  induction sources with
  | nil => exact (yields_pure _).yieldsIf.congr (by simp)
  | cons source rest ih =>
    rw [List.forall_mem_cons] at h
    rw [List.flatMap_cons, List.forall_mem_cons]
    exact h.1.bind ((ih h.2).map rfl)

end

end Reader

end Wireform
