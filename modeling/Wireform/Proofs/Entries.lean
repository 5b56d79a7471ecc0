import Mathlib.Data.List.ProdSigma
import Wireform.Proofs.Steady

/-!
# Decoding inside decoding

While a record is decoded, the records that it holds are decoded, and the records in them.  The count
of nestings bounds how deep this goes, but from outside; what bounds it from inside is that the
decoder pays for every circle with a byte.

Which decode runs directly inside which is asked of the decoder itself.  `Catalogue.Enters` puts a
codec in the place of one name that does not get past one position (`Codec.blockedAt`): to decode
there fails with `Failure.exhausted`, which no decode of its own ends with.  If the decode of the
outer record fails so, then it has decoded the inner one at this position.

One step of a chain of such decodes leads behind a byte of the buffer, or it stays where it is and
follows a field that is inline (`Planned.enters_beyond`); for if the blocked place is neither, then
all places that the outer record may reach are as they were, and its decode is steady.  Both kinds of
steps compose, so any two decodes of a chain are related as if they were neighbours
(`Planned.pairwise_beyond`).  In a grounded catalogue no inline way leads back, so a record that
comes again comes behind a byte (`Grounded.lt_of_beyond`); all decodes of a chain differ in their name
or their position, and there are only so many of these (`Planned.decodesWithin`).
-/
namespace Wireform

variable {α : Type}

/-! ## 1. Blocked codecs -/

/-- A codec that does not get past one position: to read a value there, afresh or over another one,
fails. -/
def Codec.blockedAt (codec : Codec α) (position : Nat) : Codec α :=
  let read : Reader α := fun buffer cursor =>
    if cursor = position then .error .exhausted cursor else codec.read buffer cursor
  { codec with
    read := read
    overwrite := fun target buffer cursor =>
      if cursor = position then ⟨target, cursor, .error .exhausted⟩
      else codec.overwrite target buffer cursor
    nullable := .marker codec.size codec.write read }

namespace Codec

variable {codec : Codec α}

/-- Whatever is read over, a blocked codec is blocked at the same position. -/
theorem Agrees.blockedAt {target : α} (h : codec.Agrees target) (position : Nat) :
    (codec.blockedAt position).Agrees target := by
  intro buffer cursor
  show Reading.Alike
    (if cursor = position then ⟨target, cursor, .error .exhausted⟩
      else codec.overwrite target buffer cursor : Overwritten α).toResult
    (if cursor = position then .error .exhausted cursor else codec.read buffer cursor)
  split
  · exact .refl _
  · exact h buffer cursor

/-- At other positions a blocked codec is as it was. -/
theorem steady_blockedAt {buffer : Buffer} {here behind : Nat → Prop} {position : Nat}
    (hread : ∀ cursor, codec.read.SteadyAt codec.read buffer cursor)
    (hnullable : codec.nullable.read = codec.read.behindMarker) (hopens : Opens buffer behind here)
    (hhere : ∀ cursor, here cursor → cursor ≠ position) :
    (codec.blockedAt position).Steady codec buffer here behind := by
  refine .of_marker rfl hnullable hopens fun cursor hcursor => ?_
  have hsame : (codec.blockedAt position).read buffer cursor = codec.read buffer cursor :=
    if_neg (hhere cursor hcursor)
  exact ⟨hsame ▸ (hread cursor).alike, hsame ▸ (hread cursor).contained⟩

end Codec

/-! ## 2. Entries -/

namespace Catalogue

section

variable [DecimalForm] (catalogue : Catalogue) (sharing : Sharing Value) (buffer : Buffer)

/-- The codecs of the names, of which one does not get past one position. -/
def blocked (entry : String × Nat) (name : String) : Codec Value :=
  let codec := catalogue.codec sharing (catalogue.nestingsOf buffer) name
  if name = entry.1 then codec.blockedAt entry.2 else codec

/-- While the outer name is decoded at its position, afresh or over a value, the inner one, which
stands for a record, is decoded at its own: where that is blocked, the outer one fails. -/
def Enters (outer inner : String × Nat) : Prop :=
  (∃ fields, catalogue.layout? inner.1 = some fields) ∧
    ∃ definition, catalogue.get? outer.1 = some definition ∧
      let codec := definition.codec sharing catalogue.initial
        (catalogue.blocked sharing buffer inner)
      (∃ stop, codec.read buffer outer.2 = .error .exhausted stop) ∨
        ∃ target stop, catalogue.HasShape (.named outer.1) target ∧
          (codec.overwrite target buffer outer.2).toResult = .error .exhausted stop

/-- The inner decode stands behind a byte of the outer one, or at the same position, by inline
fields. -/
def Beyond (outer inner : String × Nat) : Prop :=
  (outer.2 < inner.2 ∧ inner.2 ≤ buffer.length) ∨
    (outer.2 = inner.2 ∧ Relation.TransGen catalogue.Inline outer.1 inner.1)

end

variable [DecimalForm] {catalogue : Catalogue} {sharing : Sharing Value} {buffer : Buffer}

variable (sharing buffer) in
/-- Where one place is blocked, reading over a value is still reading afresh. -/
theorem Planned.agrees_blocked (hplanned : catalogue.Planned) (entry : String × Nat) (name : String)
    (value : Value) (h : catalogue.IsTarget (.named name) value) :
    (catalogue.blocked sharing buffer entry name).Agrees value := by
  have hagrees := hplanned.agrees_name sharing (catalogue.nestingsOf buffer) name value h
  unfold blocked
  split
  · exact hagrees.blockedAt entry.2
  · exact hagrees

/-- Where one place is blocked, a name is steady at all other places. -/
theorem Planned.steady_blocked (hplanned : catalogue.Planned) (hclosed : catalogue.Closed)
    (hgrounded : catalogue.Grounded) (entry : String × Nat) {name : String} {definition : Definition}
    (hname : catalogue.get? name = some definition) :
    (catalogue.blocked sharing buffer entry name).Steady
      (catalogue.codec sharing (catalogue.nestingsOf buffer) name) buffer
      (fun cursor => (name, cursor) ≠ entry)
      (FreeBehind (fun other cursor => (other, cursor) ≠ entry) buffer) := by
  have hknows : catalogue.Knows (.named name) := by
    intro other hother
    rw [List.mem_singleton.mp hother]
    exact ⟨definition, hname⟩
  have hread : ∀ cursor, (catalogue.codec sharing (catalogue.nestingsOf buffer) name).read.SteadyAt
      (catalogue.codec sharing (catalogue.nestingsOf buffer) name).read buffer cursor := by
    intro cursor
    have hsteady :=
      hplanned.steady sharing hclosed hgrounded hknows buffer cursor (Nat.le_refl _)
    exact ⟨.refl _, hsteady.contained⟩
  have hnullable := hplanned.read_nullable_named sharing (catalogue.nestingsOf buffer) name
  have hopens : Opens buffer (FreeBehind (fun other cursor => (other, cursor) ≠ entry) buffer)
      fun cursor => (name, cursor) ≠ entry :=
    fun _ position hfree hlt hend => hfree name position hlt hend
  unfold blocked
  split
  · next heq =>
    refine Codec.steady_blockedAt hread hnullable hopens fun cursor hne hcursor => hne ?_
    rw [heq, hcursor]
  · exact .of_marker hnullable hnullable hopens fun cursor _ => hread cursor

/-- **An entry leads beyond.**  What a decode enters stands behind a byte that it has read, or is held
inline where it stands itself. -/
theorem Planned.enters_beyond (hplanned : catalogue.Planned) (hclosed : catalogue.Closed)
    (hgrounded : catalogue.Grounded) {outer inner : String × Nat}
    (h : catalogue.Enters sharing buffer outer inner) : catalogue.Beyond buffer outer inner := by
  by_contra hbeyond
  unfold Beyond at hbeyond
  push Not at hbeyond
  obtain ⟨hbehind, hinline⟩ := hbeyond
  obtain ⟨-, definition, hname, h⟩ := h
  -- so the blocked place is none that the outer decode comes to, and it is steady
  have hfree : FreeBehind (fun other cursor => (other, cursor) ≠ inner) buffer outer.2 := by
    rintro name position hlt hend rfl
    exact absurd hend (Nat.not_le.mpr (hbehind hlt))
  have hplaces : ∀ other, catalogue.Inline outer.1 other → ∀ position, outer.2 ≤ position →
      position ≤ max outer.2 buffer.length → (other, position) ≠ inner := by
    rintro other hother position hle hmax rfl
    rcases Nat.eq_or_lt_of_le hle with heq | hlt
    · exact hinline heq (.single hother)
    · have hend := hbehind hlt
      omega
  have hsteady := hplanned.steadyAt_definition sharing hclosed
    (hplanned.agrees_blocked sharing buffer inner)
    (hplanned.agrees_name sharing (catalogue.nestingsOf buffer))
    (fun _ _ hother => hplanned.steady_blocked hclosed hgrounded inner hother) hname hfree hplaces
  -- but then it does not fail as what is blocked does
  have hreported : ∀ {result : Reading Value} {stop : Nat},
      Reading.Contained buffer outer.2 result → result ≠ .error .exhausted stop := by
    rintro result stop hcontained rfl
    obtain ⟨-, error, herror⟩ := hcontained
    cases herror
  rcases h with ⟨stop, hread⟩ | ⟨target, stop, htarget, hoverwrite⟩
  · exact hreported hsteady.contained hread
  · have hagrees := hplanned.agrees_definition sharing
      (hplanned.agrees_blocked sharing buffer inner) hname htarget.isTarget buffer outer.2
    exact hreported (hsteady.contained.of_alike hagrees.symm) hoverwrite

/-! ## 3. Chains -/

/-- Steps beyond compose: behind a byte is behind it whatever follows inline. -/
instance : Trans (catalogue.Beyond buffer) (catalogue.Beyond buffer) (catalogue.Beyond buffer) where
  trans := by
    rintro ⟨first, start⟩ ⟨second, middle⟩ ⟨third, stop⟩ hfirst hsecond
    unfold Beyond at *
    dsimp only at *
    rcases hfirst with ⟨hlt, hend⟩ | ⟨rfl, hpath⟩
    · rcases hsecond with ⟨hlt', hend'⟩ | ⟨rfl, -⟩
      · exact .inl ⟨hlt.trans hlt', hend'⟩
      · exact .inl ⟨hlt, hend⟩
    · rcases hsecond with ⟨hlt', hend'⟩ | ⟨rfl, hpath'⟩
      · exact .inl ⟨hlt', hend'⟩
      · exact .inr ⟨rfl, hpath.trans hpath'⟩

/-- In a chain of decodes, each inside the one before, every one stands beyond all that it is in. -/
theorem Planned.pairwise_beyond (hplanned : catalogue.Planned) (hclosed : catalogue.Closed)
    (hgrounded : catalogue.Grounded) {chain : List (String × Nat)}
    (h : chain.IsChain (catalogue.Enters sharing buffer)) :
    chain.Pairwise (catalogue.Beyond buffer) := by
  rw [← List.isChain_iff_pairwise]
  exact h.imp fun _ _ henters => hplanned.enters_beyond hclosed hgrounded henters

/-- All that is entered in a chain are records. -/
theorem exists_layout_of_isChain {outer : String × Nat} {rest : List (String × Nat)}
    (h : (outer :: rest).IsChain (catalogue.Enters sharing buffer)) {entry : String × Nat}
    (hentry : entry ∈ rest) : ∃ fields, catalogue.layout? entry.1 = some fields := by
  induction rest generalizing outer with
  | nil => cases hentry
  | cons next rest ih =>
    obtain ⟨henters, hrest⟩ := List.isChain_cons_cons.mp h
    rcases List.mem_cons.mp hentry with rfl | hmem
    · exact henters.1
    · exact ih hrest hmem

omit [DecimalForm] in
/-- What comes again stands behind a byte. -/
theorem Grounded.lt_of_beyond (hgrounded : catalogue.Grounded) {outer inner : String × Nat}
    (h : catalogue.Beyond buffer outer inner) (hname : outer.1 = inner.1) :
    outer.2 < inner.2 ∧ inner.2 ≤ buffer.length := by
  rcases h with hbehind | ⟨-, hpath⟩
  · exact hbehind
  · rw [hname] at hpath
    exact absurd hpath (hgrounded inner.1)

omit [DecimalForm] in
/-- **A chain is no longer than there are names and positions.** -/
theorem Grounded.length_le_of_pairwise (hgrounded : catalogue.Grounded) {names : List String}
    {name : String} {cursor : Nat} {rest : List (String × Nat)}
    (h : ((name, cursor) :: rest).Pairwise (catalogue.Beyond buffer))
    (hnames : ∀ entry ∈ (name, cursor) :: rest, entry.1 ∈ names) :
    ((name, cursor) :: rest).length ≤ names.length * (buffer.length - cursor + 1) := by
  have hnodup : ((name, cursor) :: rest).Nodup := by
    refine h.imp fun {outer inner} hbeyond heq => ?_
    subst heq
    exact absurd (hgrounded.lt_of_beyond hbeyond rfl).1 (Nat.lt_irrefl _)
  have hplaces : ∀ entry ∈ (name, cursor) :: rest,
      entry.2 ∈ List.range' cursor (buffer.length - cursor + 1) := by
    rw [List.forall_mem_cons]
    refine ⟨by simp, fun entry hentry => ?_⟩
    have hbeyond := List.rel_of_pairwise_cons h hentry
    simp only [List.mem_range'_1]
    rcases hbeyond with ⟨hlt, hend⟩ | ⟨heq, -⟩
    · dsimp only at hlt
      omega
    · dsimp only at heq
      omega
  have hsubset : (name, cursor) :: rest ⊆
      names ×ˢ List.range' cursor (buffer.length - cursor + 1) :=
    fun entry hentry => List.mem_product.mpr ⟨hnames entry hentry, hplaces entry hentry⟩
  have hlength := hnodup.length_le_of_subset hsubset
  rwa [List.length_product, List.length_range'] at hlength

/-! ## 4. Depth -/

/-- **The decode of a name at a position ends, and goes only so deep.**  Afresh or over a value, it
ends inside the buffer with a value or an error that is reported, and more nestings change nothing.  In
a chain of decodes that begins with it, a record comes again only behind a byte of the buffer, and
there are no more of them than `records` for each position that is left. -/
structure DecodesWithin (catalogue : Catalogue) (sharing : Sharing Value) (buffer : Buffer)
    (records : Nat) (name : String) (cursor : Nat) : Prop where
  read : Reading.Contained buffer cursor
    ((catalogue.codecOf sharing (.named name)).read buffer cursor)
  overwrite : ∀ target, catalogue.HasShape (.named name) target → Reading.Contained buffer cursor
    ((catalogue.codecOf sharing (.named name)).overwrite target buffer cursor).toResult
  steady : ∀ nestings, catalogue.nestingsOf buffer ≤ nestings → Reading.Alike
    ((catalogue.codecOf sharing (.named name)).read buffer cursor)
    ((catalogue.codec sharing nestings name).read buffer cursor)
  again : ∀ rest : List (String × Nat),
    ((name, cursor) :: rest).IsChain (catalogue.Enters sharing buffer) →
      ((name, cursor) :: rest).Pairwise fun outer inner =>
        outer.1 = inner.1 → outer.2 < inner.2 ∧ inner.2 ≤ buffer.length
  depth : ∀ rest : List (String × Nat),
    ((name, cursor) :: rest).IsChain (catalogue.Enters sharing buffer) →
      ((name, cursor) :: rest).length ≤ records * (buffer.length - cursor + 1)

/-- **In a grounded catalogue all decodes of records are so**, with the number of its records. -/
theorem Planned.decodesWithin (hplanned : catalogue.Planned) (hclosed : catalogue.Closed)
    (hgrounded : catalogue.Grounded) {names : List String}
    (hnames : ∀ name fields, catalogue.layout? name = some fields → name ∈ names) {name : String}
    {fields : List FieldLayout} (hname : catalogue.layout? name = some fields) (cursor : Nat) :
    catalogue.DecodesWithin sharing buffer names.length name cursor := by
  have hknows : catalogue.Knows (.named name) := by
    intro other hother
    rw [List.mem_singleton.mp hother]
    obtain ⟨definition, hdefinition, -⟩ := exists_of_layout? hname
    exact ⟨definition, hdefinition⟩
  have hsteady := hplanned.steady sharing hclosed hgrounded hknows buffer cursor (Nat.le_refl _)
  constructor
  case read => exact hsteady.contained
  case overwrite =>
    intro target htarget
    have hagrees := hplanned.agrees sharing (catalogue.nestingsOf buffer) htarget.isTarget buffer
      cursor
    exact hsteady.contained.of_alike hagrees.symm
  case steady =>
    intro nestings henough
    exact (hplanned.steady sharing hclosed hgrounded hknows buffer cursor henough).alike
  case again =>
    intro rest hchain
    have hpairwise := hplanned.pairwise_beyond hclosed hgrounded hchain
    exact hpairwise.imp fun hbeyond => hgrounded.lt_of_beyond hbeyond
  case depth =>
    intro rest hchain
    have hpairwise := hplanned.pairwise_beyond hclosed hgrounded hchain
    refine hgrounded.length_le_of_pairwise hpairwise ?_
    rw [List.forall_mem_cons]
    refine ⟨hnames name fields hname, fun entry hentry => ?_⟩
    obtain ⟨layout, hlayout⟩ := exists_layout_of_isChain hchain hentry
    exact hnames entry.1 layout hlayout

end Catalogue

end Wireform
