import Wireform.Codec.Basic

/-!
# What a reader takes from a buffer

A reader is judged by the bytes that it takes.  `Reader.Yields reader value bytes` says that
wherever `bytes` stand the reader takes just them and makes `value` of them, and that on a buffer
which ends inside `bytes` it reports the missing data.  Three more notions build on it:

* `Reader.Local`: every value that is read is read from a stretch of bytes that yields it, so
  nothing before or behind the stretch matters;
* `Reader.SteadyAt`: two readers agree at a position, up to the type that an unexpected null
  names, and keep to the buffer there: the cursor does not go back, does not pass the end unless it
  was past it, and a failure is one that is reported;
* `Reader.Sound`: both, for a single reader at every position.

All three are closed under running one reader after another, which is what the proofs about codecs
live on.  A reader of an empty stretch of raw bytes fails past the end of the buffer, so the text
behind a length is looked at only where the length has been read: hence the variants `…Inside`.
-/
namespace Wireform

variable {α β : Type}

/-! ## 1. Stretches of a buffer -/

/-- `bytes` stand in the buffer from the cursor on; no bytes stand everywhere. -/
def HoldsAt (buffer : Buffer) (cursor : Nat) (bytes : List UInt8) : Prop :=
  bytes <+: buffer.drop cursor

/-- The buffer goes on from the cursor as `bytes` do, but ends before they do. -/
def EndsInside (buffer : Buffer) (cursor : Nat) (bytes : List UInt8) : Prop :=
  cursor ≤ buffer.length ∧ buffer.drop cursor <+: bytes ∧ buffer.length < cursor + bytes.length

theorem holdsAt_nil (buffer : Buffer) (cursor : Nat) : HoldsAt buffer cursor [] :=
  List.nil_prefix

theorem holdsAt_append {buffer : Buffer} {cursor : Nat} {first rest : List UInt8} :
    HoldsAt buffer cursor (first ++ rest) ↔
      HoldsAt buffer cursor first ∧ HoldsAt buffer (cursor + first.length) rest := by
  unfold HoldsAt
  rw [← List.drop_drop]
  constructor
  · rintro ⟨tail, htail⟩
    rw [← htail]
    exact ⟨⟨rest ++ tail, by simp⟩, ⟨tail, by simp⟩⟩
  · rintro ⟨⟨tail, htail⟩, hrest⟩
    rw [← htail] at hrest ⊢
    rw [List.drop_left] at hrest
    exact (List.prefix_append_right_inj first).mpr hrest

theorem HoldsAt.length_le {buffer : Buffer} {cursor : Nat} {bytes : List UInt8}
    (h : HoldsAt buffer cursor bytes) : bytes.length ≤ buffer.length - cursor := by
  have hle := List.IsPrefix.length_le h
  rwa [List.length_drop] at hle

/-- Bytes that stand somewhere do not reach beyond the end. -/
theorem HoldsAt.end_le {buffer : Buffer} {cursor : Nat} {bytes : List UInt8}
    (h : HoldsAt buffer cursor bytes) (hne : bytes ≠ []) :
    cursor + bytes.length ≤ buffer.length := by
  have hlength := h.length_le
  have hpos : 0 < bytes.length := List.length_pos_iff.mpr hne
  omega

theorem HoldsAt.take_eq {buffer : Buffer} {cursor : Nat} {bytes : List UInt8}
    (h : HoldsAt buffer cursor bytes) : (buffer.drop cursor).take bytes.length = bytes :=
  (List.prefix_iff_eq_take.mp h).symm

theorem holdsAt_take (buffer : Buffer) (cursor length : Nat) :
    HoldsAt buffer cursor ((buffer.drop cursor).take length) :=
  List.take_prefix _ _

/-- A buffer that ends inside two stretches ends inside the first, or holds it and ends inside the
second. -/
theorem EndsInside.split {buffer : Buffer} {cursor : Nat} {first rest : List UInt8}
    (h : EndsInside buffer cursor (first ++ rest)) :
    EndsInside buffer cursor first ∨
      (HoldsAt buffer cursor first ∧ EndsInside buffer (cursor + first.length) rest) := by
  obtain ⟨hcursor, hprefix, hends⟩ := h
  have hlength : (buffer.drop cursor).length = buffer.length - cursor := List.length_drop
  rw [List.length_append] at hends
  rcases Nat.lt_or_ge buffer.length (cursor + first.length) with hshort | hlong
  · refine Or.inl ⟨hcursor, ?_, hshort⟩
    exact List.prefix_of_prefix_length_le hprefix (List.prefix_append first rest) (by omega)
  · have hfirst : HoldsAt buffer cursor first :=
      List.prefix_of_prefix_length_le (List.prefix_append first rest) hprefix (by omega)
    refine Or.inr ⟨hfirst, hlong, ?_, by omega⟩
    obtain ⟨tail, htail⟩ := hfirst
    rw [← List.drop_drop, ← htail, List.drop_left]
    rw [← htail] at hprefix
    exact (List.prefix_append_right_inj first).mp hprefix

/-! ## 2. How reads end -/

/-- What a read ends with. -/
abbrev Reading (α : Type) := EStateM.Result Failure Nat α

/-- Two failures are the same, but for the type that an unexpected null names. -/
def Failure.Alike (first second : Failure) : Prop :=
  first = second ∨
    ∃ a b, first = .wire (.unexpectedNull a) ∧ second = .wire (.unexpectedNull b)

namespace Failure.Alike

theorem refl (failure : Failure) : failure.Alike failure := Or.inl rfl

theorem symm {first second : Failure} (h : first.Alike second) : second.Alike first := by
  rcases h with rfl | ⟨a, b, ha, hb⟩
  · exact refl _
  · exact Or.inr ⟨b, a, hb, ha⟩

theorem trans {first second third : Failure} (h : first.Alike second) (h' : second.Alike third) :
    first.Alike third := by
  rcases h with rfl | ⟨a, b, ha, hb⟩
  · exact h'
  · rcases h' with rfl | ⟨c, d, hc, hd⟩
    · exact Or.inr ⟨a, b, ha, hb⟩
    · exact Or.inr ⟨a, d, ha, hd⟩

/-- Alike failures are both reported or neither. -/
theorem wire {first second : Failure} (h : first.Alike second) {error : WireError}
    (hfirst : first = .wire error) : ∃ error', second = .wire error' ∧ error'.kind = error.kind := by
  rcases h with rfl | ⟨a, b, ha, hb⟩
  · exact ⟨error, hfirst, rfl⟩
  · rw [ha] at hfirst
    cases hfirst
    exact ⟨_, hb, rfl⟩

end Failure.Alike

/-- Two reads end at the same place: with the same value, or with failures that are alike. -/
def Reading.Alike : Reading α → Reading α → Prop
  | .ok value cursor, .ok value' cursor' => value = value' ∧ cursor = cursor'
  | .error failure cursor, .error failure' cursor' => failure.Alike failure' ∧ cursor = cursor'
  | _, _ => False

namespace Reading.Alike

theorem refl (result : Reading α) : Reading.Alike result result := by
  cases result with
  | ok value cursor => exact ⟨rfl, rfl⟩
  | error failure cursor => exact ⟨.refl failure, rfl⟩

theorem symm {first second : Reading α} (h : Reading.Alike first second) :
    Reading.Alike second first := by
  cases first <;> cases second <;> simp only [Reading.Alike] at h ⊢
  · exact ⟨h.1.symm, h.2.symm⟩
  · exact ⟨h.1.symm, h.2.symm⟩

theorem trans {first second third : Reading α} (h : Reading.Alike first second)
    (h' : Reading.Alike second third) : Reading.Alike first third := by
  cases first <;> cases second <;> cases third <;> simp only [Reading.Alike] at h h' ⊢
  · exact ⟨h.1.trans h'.1, h.2.trans h'.2⟩
  · exact ⟨h.1.trans h'.1, h.2.trans h'.2⟩

/-- What is alike to a value is that value. -/
theorem eq_ok {value : α} {cursor : Nat} {second : Reading α}
    (h : Reading.Alike (.ok value cursor) second) : second = .ok value cursor := by
  cases second with
  | ok value' cursor' => rw [h.1, h.2]
  | error failure cursor' => exact h.elim

end Reading.Alike

/-- The read keeps to the buffer: the cursor does not go back and does not pass the end unless it
was past it, and a failure is one that is reported. -/
def Reading.Contained (buffer : Buffer) (cursor : Nat) : Reading α → Prop
  | .ok _ stop => cursor ≤ stop ∧ stop ≤ max cursor buffer.length
  | .error failure stop =>
    (cursor ≤ stop ∧ stop ≤ max cursor buffer.length) ∧ ∃ error, failure = .wire error

/-- What keeps to the buffer from a later cursor keeps to it from an earlier one. -/
theorem Reading.Contained.earlier {buffer : Buffer} {cursor middle : Nat} {result : Reading α}
    (hle : cursor ≤ middle) (hmiddle : middle ≤ max cursor buffer.length)
    (h : Reading.Contained buffer middle result) : Reading.Contained buffer cursor result := by
  cases result with
  | ok value stop =>
    obtain ⟨h1, h2⟩ := h
    constructor <;> omega
  | error failure stop =>
    obtain ⟨⟨h1, h2⟩, herror⟩ := h
    exact ⟨by constructor <;> omega, herror⟩

/-- A read that is alike to one that keeps to the buffer keeps to it as well. -/
theorem Reading.Contained.of_alike {buffer : Buffer} {cursor : Nat} {first second : Reading α}
    (h : Reading.Contained buffer cursor first) (halike : Reading.Alike first second) :
    Reading.Contained buffer cursor second := by
  cases first <;> cases second <;> simp only [Reading.Alike] at halike
  · rw [← halike.2]
    exact h
  · obtain ⟨hstop, error, herror⟩ := h
    obtain ⟨error', herror', -⟩ := halike.1.wire herror
    rw [← halike.2]
    exact ⟨hstop, error', herror'⟩

/-! ## 3. Running readers -/

namespace Reader

theorem bind_apply (reader : Reader α) (next : α → Reader β) (buffer : Buffer) (cursor : Nat) :
    (reader >>= next) buffer cursor =
      match reader buffer cursor with
      | .ok value cursor => next value buffer cursor
      | .error failure cursor => .error failure cursor := by
  show EStateM.bind (reader buffer) (fun value => next value buffer) cursor = _
  simp only [EStateM.bind]
  cases reader buffer cursor <;> rfl

@[simp] theorem pure_apply (value : α) (buffer : Buffer) (cursor : Nat) :
    (pure value : Reader α) buffer cursor = .ok value cursor := rfl

@[simp] theorem throw_apply (failure : Failure) (buffer : Buffer) (cursor : Nat) :
    (throw failure : Reader α) buffer cursor = .error failure cursor := rfl

theorem bind_of_ok {reader : Reader α} {next : α → Reader β} {buffer : Buffer} {cursor stop : Nat}
    {value : α} (h : reader buffer cursor = .ok value stop) :
    (reader >>= next) buffer cursor = next value buffer stop := by
  rw [bind_apply, h]

theorem bind_of_error {reader : Reader α} {next : α → Reader β} {buffer : Buffer}
    {cursor stop : Nat} {failure : Failure} (h : reader buffer cursor = .error failure stop) :
    (reader >>= next) buffer cursor = .error failure stop := by
  rw [bind_apply, h]

/-- A reader after another has read a value only if both have. -/
theorem bind_eq_ok {reader : Reader α} {next : α → Reader β} {buffer : Buffer} {cursor stop : Nat}
    {result : β} (h : (reader >>= next) buffer cursor = .ok result stop) :
    ∃ value middle, reader buffer cursor = .ok value middle ∧
      next value buffer middle = .ok result stop := by
  rw [bind_apply] at h
  cases hreader : reader buffer cursor with
  | ok value middle => exact ⟨value, middle, rfl, by simpa [hreader] using h⟩
  | error failure middle => simp [hreader] at h

/-- Looking at the cursor before going on changes nothing. -/
theorem get_bind_apply (next : Nat → Reader α) (buffer : Buffer) (cursor : Nat) :
    (get >>= next) buffer cursor = next cursor buffer cursor := rfl

/-! ## 4. Yielding -/

/-- The reader takes `bytes`, if they stand at the position, and makes `value` of them; where the
buffer ends inside them, it reports the missing data. -/
structure YieldsAt (reader : Reader α) (value : α) (bytes : List UInt8) (buffer : Buffer)
    (cursor : Nat) : Prop where
  whole : HoldsAt buffer cursor bytes → reader buffer cursor = .ok value (cursor + bytes.length)
  cut : EndsInside buffer cursor bytes → ∃ needed available offset,
    reader buffer cursor = .error (.wire (.insufficientData needed available offset)) offset ∧
      offset + available = buffer.length ∧ available < needed

/-- The reader takes `bytes` wherever they stand and makes `value` of them. -/
def Yields (reader : Reader α) (value : α) (bytes : List UInt8) : Prop :=
  ∀ buffer cursor, reader.YieldsAt value bytes buffer cursor

/-- The reader takes `bytes` wherever they stand in front of the end and makes `value` of them. -/
def YieldsInside (reader : Reader α) (value : α) (bytes : List UInt8) : Prop :=
  ∀ buffer cursor, cursor ≤ buffer.length → reader.YieldsAt value bytes buffer cursor

theorem Yields.inside {reader : Reader α} {value : α} {bytes : List UInt8}
    (h : reader.Yields value bytes) : reader.YieldsInside value bytes :=
  fun buffer cursor _ => h buffer cursor

/-- **Yielding is sequential.**  The second reader is needed only where the first one's bytes
stand. -/
theorem YieldsAt.bind {reader : Reader α} {next : α → Reader β} {value : α} {result : β}
    {first rest : List UInt8} {buffer : Buffer} {cursor : Nat}
    (h : reader.YieldsAt value first buffer cursor)
    (hnext : HoldsAt buffer cursor first →
      (next value).YieldsAt result rest buffer (cursor + first.length)) :
    (reader >>= next).YieldsAt result (first ++ rest) buffer cursor := by
  constructor
  · intro hholds
    obtain ⟨hfirst, hrest⟩ := holdsAt_append.mp hholds
    rw [bind_of_ok (h.whole hfirst), (hnext hfirst).whole hrest, List.length_append,
      Nat.add_assoc]
  · intro hends
    rcases hends.split with hcut | ⟨hfirst, hrest⟩
    · obtain ⟨needed, available, offset, hread, hrest⟩ := h.cut hcut
      exact ⟨needed, available, offset, bind_of_error hread, hrest⟩
    · rw [bind_of_ok (h.whole hfirst)]
      exact (hnext hfirst).cut hrest

theorem Yields.bind {reader : Reader α} {next : α → Reader β} {value : α} {result : β}
    {first rest : List UInt8} (h : reader.Yields value first)
    (hnext : (next value).Yields result rest) :
    (reader >>= next).Yields result (first ++ rest) :=
  fun buffer cursor => (h buffer cursor).bind fun _ => hnext buffer _

/-- Behind bytes that have been read the position is inside the buffer. -/
theorem Yields.bind_inside {reader : Reader α} {next : α → Reader β} {value : α} {result : β}
    {first rest : List UInt8} (h : reader.Yields value first) (hne : first ≠ [])
    (hnext : (next value).YieldsInside result rest) :
    (reader >>= next).Yields result (first ++ rest) :=
  fun buffer cursor => (h buffer cursor).bind fun hfirst => hnext buffer _ (hfirst.end_le hne)

theorem yieldsAt_pure (value : α) (buffer : Buffer) (cursor : Nat) :
    (pure value : Reader α).YieldsAt value [] buffer cursor :=
  ⟨fun _ => rfl, fun hends => by
    obtain ⟨hcursor, -, hlt⟩ := hends
    simp at hlt
    omega⟩

theorem yields_pure (value : α) : (pure value : Reader α).Yields value [] :=
  yieldsAt_pure value

/-- What is done to the value that has been read takes no bytes. -/
theorem YieldsAt.map {reader : Reader α} {value : α} {bytes : List UInt8} {buffer : Buffer}
    {cursor : Nat} (h : reader.YieldsAt value bytes buffer cursor) {next : α → Reader β}
    {result : β} (hnext : next value = pure result) :
    (reader >>= next).YieldsAt result bytes buffer cursor := by
  have hbind : (reader >>= next).YieldsAt result (bytes ++ []) buffer cursor := by
    refine h.bind fun _ => ?_
    rw [hnext]
    exact yieldsAt_pure _ _ _
  rwa [List.append_nil] at hbind

theorem Yields.map {reader : Reader α} {value : α} {bytes : List UInt8}
    (h : reader.Yields value bytes) {next : α → Reader β} {result : β}
    (hnext : next value = pure result) : (reader >>= next).Yields result bytes :=
  fun buffer cursor => (h buffer cursor).map hnext

/-! ## 5. Locality -/

/-- The value is read from a stretch of bytes that yields it. -/
def LocalAt (reader : Reader α) (buffer : Buffer) (cursor : Nat) : Prop :=
  ∀ value stop, reader buffer cursor = .ok value stop → ∃ bytes,
    stop = cursor + bytes.length ∧ HoldsAt buffer cursor bytes ∧ reader.Yields value bytes

/-- Wherever a value is read, it is read from a stretch of bytes that yields it. -/
def Local (reader : Reader α) : Prop :=
  ∀ buffer cursor, reader.LocalAt buffer cursor

/-- In front of the end a value is read from a stretch of bytes that yields it there. -/
def LocalInside (reader : Reader α) : Prop :=
  ∀ buffer cursor, cursor ≤ buffer.length → ∀ value stop,
    reader buffer cursor = .ok value stop → ∃ bytes,
      stop = cursor + bytes.length ∧ HoldsAt buffer cursor bytes ∧ reader.YieldsInside value bytes

theorem Local.inside {reader : Reader α} (h : reader.Local) : reader.LocalInside := by
  intro buffer cursor _ value stop hread
  obtain ⟨bytes, hstop, hholds, hyields⟩ := h buffer cursor value stop hread
  exact ⟨bytes, hstop, hholds, hyields.inside⟩

theorem Local.bind {reader : Reader α} {next : α → Reader β} (h : reader.Local)
    (hnext : ∀ value, (next value).Local) : (reader >>= next).Local := by
  intro buffer cursor result stop hread
  obtain ⟨value, middle, hfirst, hsecond⟩ := bind_eq_ok hread
  obtain ⟨first, rfl, hholds, hyields⟩ := h _ _ _ _ hfirst
  obtain ⟨rest, rfl, hholds', hyields'⟩ := hnext value _ _ _ _ hsecond
  exact ⟨first ++ rest, by rw [List.length_append, Nat.add_assoc],
    holdsAt_append.mpr ⟨hholds, hholds'⟩, hyields.bind hyields'⟩

/-- Behind a stretch that is not empty it is enough that the second reader reads locally in front
of the end. -/
theorem Local.bind_inside {reader : Reader α} {next : α → Reader β} (h : reader.Local)
    (hforward : ∀ buffer cursor value stop, reader buffer cursor = .ok value stop → cursor < stop)
    (hnext : ∀ value, (next value).LocalInside) : (reader >>= next).Local := by
  intro buffer cursor result stop hread
  obtain ⟨value, middle, hfirst, hsecond⟩ := bind_eq_ok hread
  have hlt := hforward _ _ _ _ hfirst
  obtain ⟨first, rfl, hholds, hyields⟩ := h _ _ _ _ hfirst
  have hne : first ≠ [] := by
    rintro rfl
    simp at hlt
  obtain ⟨rest, rfl, hholds', hyields'⟩ := hnext value _ _ (hholds.end_le hne) _ _ hsecond
  exact ⟨first ++ rest, by rw [List.length_append, Nat.add_assoc],
    holdsAt_append.mpr ⟨hholds, hholds'⟩, hyields.bind_inside hne hyields'⟩

/-- What is done to the value that has been read is done locally. -/
theorem LocalInside.map {reader : Reader α} (h : reader.LocalInside) (f : α → β) :
    (do let value ← reader; pure (f value) : Reader β).LocalInside := by
  intro buffer cursor hcursor result stop hread
  obtain ⟨value, middle, hfirst, hpure⟩ := bind_eq_ok hread
  cases hpure
  obtain ⟨bytes, hstop, hholds, hyields⟩ := h _ _ hcursor _ _ hfirst
  exact ⟨bytes, hstop, hholds, fun buffer cursor hcursor => (hyields buffer cursor hcursor).map rfl⟩

theorem local_pure (value : α) : (pure value : Reader α).Local := by
  intro buffer cursor result stop hread
  cases hread
  exact ⟨[], rfl, holdsAt_nil _ _, yields_pure value⟩

theorem local_throw (failure : Failure) : (throw failure : Reader α).Local := by
  intro buffer cursor result stop hread
  cases hread

/-! ## 6. Steadiness -/

/-- Two readers agree at a position and keep to the buffer there. -/
structure SteadyAt (reader reader' : Reader α) (buffer : Buffer) (cursor : Nat) : Prop where
  alike : Reading.Alike (reader buffer cursor) (reader' buffer cursor)
  contained : Reading.Contained buffer cursor (reader buffer cursor)

/-- **Steadiness is sequential.**  The second pair of readers is needed only where the first one
has ended. -/
theorem SteadyAt.bind {reader reader' : Reader α} {next next' : α → Reader β} {buffer : Buffer}
    {cursor : Nat} (h : reader.SteadyAt reader' buffer cursor)
    (hnext : ∀ value stop, reader buffer cursor = .ok value stop → cursor ≤ stop →
      stop ≤ max cursor buffer.length → (next value).SteadyAt (next' value) buffer stop) :
    (reader >>= next).SteadyAt (reader' >>= next') buffer cursor := by
  obtain ⟨halike, hcontained⟩ := h
  cases hread : reader buffer cursor with
  | ok value stop =>
    rw [hread] at halike hcontained
    have hread' := halike.eq_ok
    obtain ⟨hle, hmax⟩ := hcontained
    obtain ⟨halike', hcontained'⟩ := hnext value stop hread hle hmax
    constructor
    · rw [bind_of_ok hread, bind_of_ok hread']
      exact halike'
    · rw [bind_of_ok hread]
      exact hcontained'.earlier hle hmax
  | error failure stop =>
    rw [hread] at halike hcontained
    constructor
    · rw [bind_of_error hread]
      cases hread' : reader' buffer cursor with
      | ok value' stop' => rw [hread'] at halike; exact halike.elim
      | error failure' stop' =>
        rw [bind_of_error hread']
        rw [hread'] at halike
        exact halike
    · rw [bind_of_error hread]
      exact hcontained

theorem steadyAt_pure (value : α) (buffer : Buffer) (cursor : Nat) :
    (pure value : Reader α).SteadyAt (pure value) buffer cursor :=
  ⟨.refl _, Nat.le_refl _, Nat.le_max_left _ _⟩

theorem steadyAt_throw (error : WireError) (buffer : Buffer) (cursor : Nat) :
    (throw (.wire error) : Reader α).SteadyAt (throw (.wire error)) buffer cursor :=
  ⟨.refl _, ⟨Nat.le_refl _, Nat.le_max_left _ _⟩, error, rfl⟩

/-- A reader that is alike to each of two steady ones is as steady. -/
theorem SteadyAt.of_alike {reader reader' other other' : Reader α} {buffer : Buffer} {cursor : Nat}
    (h : reader.SteadyAt reader' buffer cursor)
    (hother : Reading.Alike (reader buffer cursor) (other buffer cursor))
    (hother' : Reading.Alike (reader' buffer cursor) (other' buffer cursor)) :
    other.SteadyAt other' buffer cursor :=
  ⟨(hother.symm.trans h.alike).trans hother', h.contained.of_alike hother⟩

/-- The reader keeps to the buffer at every position and reads what it reads locally. -/
structure Sound (reader : Reader α) : Prop where
  steady : ∀ buffer cursor, reader.SteadyAt reader buffer cursor
  isLocal : reader.Local

theorem Sound.bind {reader : Reader α} {next : α → Reader β} (h : reader.Sound)
    (hnext : ∀ value, (next value).Sound) : (reader >>= next).Sound :=
  ⟨fun buffer cursor => (h.steady buffer cursor).bind
    fun value stop _ _ _ => (hnext value).steady buffer stop,
    h.isLocal.bind fun value => (hnext value).isLocal⟩

theorem sound_pure (value : α) : (pure value : Reader α).Sound :=
  ⟨steadyAt_pure value, local_pure value⟩

theorem sound_throw (error : WireError) : (throw (.wire error) : Reader α).Sound :=
  ⟨steadyAt_throw error, local_throw _⟩

/-! ## 7. Looking at the cursor -/

theorem YieldsAt.of_get {next : Nat → Reader α} {value : α} {bytes : List UInt8} {buffer : Buffer}
    {cursor : Nat} (h : (next cursor).YieldsAt value bytes buffer cursor) :
    (get >>= next : Reader α).YieldsAt value bytes buffer cursor :=
  ⟨h.whole, h.cut⟩

theorem Yields.of_get {next : Nat → Reader α} {value : α} {bytes : List UInt8}
    (h : ∀ offset, (next offset).Yields value bytes) :
    (get >>= next : Reader α).Yields value bytes :=
  fun buffer cursor => .of_get (h cursor buffer cursor)

theorem SteadyAt.of_get {next next' : Nat → Reader α} {buffer : Buffer} {cursor : Nat}
    (h : (next cursor).SteadyAt (next' cursor) buffer cursor) :
    (get >>= next : Reader α).SteadyAt (get >>= next') buffer cursor :=
  ⟨h.alike, h.contained⟩

/-- A cursor that only a failure reports has no part in what is read. -/
theorem Local.reporting {reader : Reader α} {next : Nat → α → Reader β} (h : reader.Local)
    (hnext : ∀ value, (∃ rest : Reader β, rest.Local ∧ ∀ offset, next offset value = rest) ∨
      ∀ offset, ∃ error, next offset value = throw (.wire error)) :
    (get >>= fun offset => reader >>= next offset : Reader β).Local := by
  intro buffer cursor result stop hread
  rw [get_bind_apply] at hread
  obtain ⟨value, middle, hfirst, hsecond⟩ := bind_eq_ok hread
  rcases hnext value with ⟨rest, hlocal, hrest⟩ | hthrow
  · obtain ⟨first, rfl, hholds, hyields⟩ := h _ _ _ _ hfirst
    rw [hrest] at hsecond
    obtain ⟨last, rfl, hholds', hyields'⟩ := hlocal _ _ _ _ hsecond
    refine ⟨first ++ last, by rw [List.length_append, Nat.add_assoc],
      holdsAt_append.mpr ⟨hholds, hholds'⟩, Yields.of_get fun offset => hyields.bind ?_⟩
    rw [hrest]
    exact hyields'
  · obtain ⟨error, herror⟩ := hthrow cursor
    rw [herror] at hsecond
    cases hsecond

theorem Sound.reporting {reader : Reader α} {next : Nat → α → Reader β} (h : reader.Sound)
    (hnext : ∀ value, (∃ rest : Reader β, rest.Sound ∧ ∀ offset, next offset value = rest) ∨
      ∀ offset, ∃ error, next offset value = throw (.wire error)) :
    (get >>= fun offset => reader >>= next offset : Reader β).Sound := by
  refine ⟨fun buffer cursor => .of_get ((h.steady buffer cursor).bind ?_),
    h.isLocal.reporting fun value => ?_⟩
  · intro value stop _ _ _
    rcases hnext value with ⟨rest, hsound, hrest⟩ | hthrow
    · rw [hrest]
      exact hsound.steady buffer stop
    · obtain ⟨error, herror⟩ := hthrow cursor
      rw [herror]
      exact steadyAt_throw error buffer stop
  · rcases hnext value with ⟨rest, hsound, hrest⟩ | hthrow
    · exact .inl ⟨rest, hsound.isLocal, hrest⟩
    · exact .inr hthrow

/-! ## 8. Readers that are alike -/

theorem YieldsAt.of_alike {reader reader' : Reader α} {value : α} {bytes : List UInt8}
    {buffer : Buffer} {cursor : Nat} (h : reader.YieldsAt value bytes buffer cursor)
    (halike : Reading.Alike (reader buffer cursor) (reader' buffer cursor)) :
    reader'.YieldsAt value bytes buffer cursor := by
  constructor
  · intro hholds
    rw [h.whole hholds] at halike
    exact halike.eq_ok
  · intro hends
    obtain ⟨needed, available, offset, hread, hrest⟩ := h.cut hends
    refine ⟨needed, available, offset, ?_, hrest⟩
    rw [hread] at halike
    cases hread' : reader' buffer cursor with
    | ok value' stop => rw [hread'] at halike; exact halike.elim
    | error failure stop =>
      rw [hread'] at halike
      obtain ⟨heq | ⟨a, b, ha, -⟩, hstop⟩ := halike
      · rw [← heq, hstop]
      · cases ha

theorem Yields.of_alike {reader reader' : Reader α} {value : α} {bytes : List UInt8}
    (h : reader.Yields value bytes)
    (halike : ∀ buffer cursor, Reading.Alike (reader buffer cursor) (reader' buffer cursor)) :
    reader'.Yields value bytes :=
  fun buffer cursor => (h buffer cursor).of_alike (halike buffer cursor)

theorem Local.of_alike {reader reader' : Reader α} (h : reader.Local)
    (halike : ∀ buffer cursor, Reading.Alike (reader buffer cursor) (reader' buffer cursor)) :
    reader'.Local := by
  intro buffer cursor value stop hread
  have hback := (halike buffer cursor).symm
  rw [hread] at hback
  obtain ⟨bytes, hstop, hholds, hyields⟩ := h buffer cursor value stop hback.eq_ok
  exact ⟨bytes, hstop, hholds, hyields.of_alike halike⟩

end Reader

end Wireform
