import Mathlib.Order.Bounds.Basic
import Wireform.Pool.Buffers

/-!
# Buckets

A pool of buffers is a row of buckets, and a call reaches one of them: the first that is large enough,
or the one of the buffer's length.  All others stay as they are, and of that one only the idle buffers
change.  So there is one lemma for each of the two searches (`rent_cases`, `release_cases`), which says
where in the row the bucket stands, and everything about the pool comes down to a single bucket.

* What kinds of buckets there are never changes: `Bucket.spec` is kept by every call, so the row stays
  as `ofSpecs` made it, increasing and with the first specification of each size.
* Every idle buffer is of its bucket's size, because a release compares sizes before it keeps a
  buffer.  This bounds what a request gets from below *and* above.
* A buffer that is not zero can only come from a release that did not clear it.
-/
namespace Wireform

/-- All bytes are zero. -/
def Buffer.IsZero (buffer : Buffer) : Prop := ∀ byte ∈ buffer, byte = 0

theorem isZero_replicate (length : Nat) : Buffer.IsZero (List.replicate length 0) :=
  fun _ hbyte => List.eq_of_mem_replicate hbyte

namespace Bucket

/-- The specification that a bucket meets. -/
def spec (bucket : Bucket) : BucketSpec := ⟨bucket.size, bucket.capacity⟩

/-! ## 1. The row -/

section

variable {spec : BucketSpec} {buckets : List Bucket}

/-- The sizes in the row after a specification has been put in its place. -/
theorem exists_size_insertSpec_iff {size : Nat} :
    (∃ bucket ∈ insertSpec spec buckets, bucket.size = size) ↔
      spec.size = size ∨ ∃ bucket ∈ buckets, bucket.size = size := by
  induction buckets with
  | nil => simp [insertSpec]
  | cons head rest ih =>
    rw [insertSpec]
    split
    · simp
    · split
      · next hsame => simp [hsame]
      · simp only [List.mem_cons, exists_eq_or_imp, ih]
        tauto

theorem sorted_insertSpec (h : buckets.Pairwise fun a b => a.size < b.size) :
    (insertSpec spec buckets).Pairwise fun a b => a.size < b.size := by
  induction buckets with
  | nil => exact List.pairwise_singleton _ _
  | cons head rest ih =>
    obtain ⟨hhead, hrest⟩ := List.pairwise_cons.mp h
    rw [insertSpec]
    split
    · next hless =>
      refine List.pairwise_cons.mpr ⟨fun other hother => ?_, h⟩
      rcases List.mem_cons.mp hother with rfl | hmem
      · exact hless
      · exact hless.trans (hhead other hmem)
    · split
      · exact h
      · next hnot hne =>
        refine List.pairwise_cons.mpr ⟨fun other hother => ?_, ih hrest⟩
        rcases exists_size_insertSpec_iff.mp ⟨other, hother, rfl⟩ with hsize | ⟨third, hthird, hsize⟩
        · omega
        · rw [← hsize]
          exact hhead third hthird

/-- A specification adds its bucket exactly if its size is new. -/
theorem mem_insertSpec_iff {bucket : Bucket} (h : buckets.Pairwise fun a b => a.size < b.size) :
    bucket ∈ insertSpec spec buckets ↔ bucket ∈ buckets ∨
      bucket = ⟨spec.size, spec.capacity, []⟩ ∧ ∀ other ∈ buckets, other.size ≠ spec.size := by
  induction buckets with
  | nil => simp [insertSpec]
  | cons head rest ih =>
    obtain ⟨hhead, hrest⟩ := List.pairwise_cons.mp h
    rw [insertSpec]
    split
    · next hless =>
      have hnew : ∀ other ∈ head :: rest, other.size ≠ spec.size := by
        intro other hother
        rcases List.mem_cons.mp hother with rfl | hmem
        · omega
        · have := hhead other hmem
          omega
      rw [List.mem_cons, or_comm, and_iff_left hnew]
    · split
      · next hsame => simp [hsame]
      · next hne =>
        have hhead' : head.size ≠ spec.size := fun heq => hne heq.symm
        rw [List.mem_cons, ih hrest, List.mem_cons, List.forall_mem_cons, or_assoc,
          and_iff_right hhead']

/-- **The first specification of each size has its bucket.**  Beside the buckets that were there,
each size that they leave open has the bucket of the first specification of that size. -/
theorem mem_foldl_insertSpec_iff {specs : List BucketSpec} {bucket : Bucket}
    (h : buckets.Pairwise fun a b => a.size < b.size) :
    bucket ∈ specs.foldl (fun buckets spec => insertSpec spec buckets) buckets ↔
      bucket ∈ buckets ∨ bucket.idle = [] ∧ (∀ other ∈ buckets, other.size ≠ bucket.size) ∧
        specs.find? (fun other => other.size == bucket.size) = some bucket.spec := by
  induction specs generalizing buckets with
  | nil => simp
  | cons spec specs ih =>
    have hothers : (∀ other ∈ insertSpec spec buckets, other.size ≠ bucket.size) ↔
        spec.size ≠ bucket.size ∧ ∀ other ∈ buckets, other.size ≠ bucket.size := by
      have hsizes := not_congr (@exists_size_insertSpec_iff spec buckets bucket.size)
      simpa only [not_exists, not_and, not_or, ne_eq] using hsizes
    rw [List.foldl_cons, ih (sorted_insertSpec h), mem_insertSpec_iff h, hothers, List.find?_cons]
    by_cases hsize : spec.size = bucket.size
    · -- the bucket of this size is that of `spec`, or an older one
      have hbucket : bucket = ⟨spec.size, spec.capacity, []⟩ ↔
          bucket.idle = [] ∧ spec = bucket.spec := by
        obtain ⟨size, capacity, idle⟩ := bucket
        obtain ⟨size', capacity'⟩ := spec
        simp only [Bucket.spec, Bucket.mk.injEq, BucketSpec.mk.injEq]
        tauto
      rw [hbucket]
      simp only [hsize, beq_self_eq_true, Option.some.injEq, ne_eq, not_true_eq_false, false_and,
        and_false, or_false]
      tauto
    · have hbucket : bucket ≠ ⟨spec.size, spec.capacity, []⟩ := by
        rintro rfl
        exact hsize rfl
      simp only [beq_eq_false_iff_ne.mpr hsize, hbucket, hsize, ne_eq, not_false_eq_true, true_and,
        false_and, or_false]

end

theorem sorted_foldl_insertSpec (specs : List BucketSpec) {buckets : List Bucket}
    (h : buckets.Pairwise fun a b => a.size < b.size) :
    (specs.foldl (fun buckets spec => insertSpec spec buckets) buckets).Pairwise
      fun a b => a.size < b.size := by
  induction specs generalizing buckets with
  | nil => exact h
  | cons spec specs ih => exact ih (sorted_insertSpec h)

/-! ## 2. A single bucket -/

/-- The idle buffers are of the bucket's size, and not too many. -/
structure IsSound (bucket : Bucket) : Prop where
  lengths : ∀ buffer ∈ bucket.idle, buffer.length = bucket.size
  bounded : bucket.idle.length ≤ bucket.capacity

/-- The bucket of which one idle buffer was taken is sound, and so is the buffer. -/
theorem IsSound.take {bucket : Bucket} (h : bucket.IsSound) :
    bucket.take.1.length = bucket.size ∧ bucket.take.2.IsSound ∧ bucket.take.2.spec = bucket.spec := by
  obtain ⟨size, capacity, idle⟩ := bucket
  cases idle with
  | nil => exact ⟨List.length_replicate, h, rfl⟩
  | cons buffer rest =>
    refine ⟨h.lengths buffer List.mem_cons_self, ⟨fun other hother => ?_, ?_⟩, rfl⟩
    · exact h.lengths other (List.mem_cons_of_mem _ hother)
    · exact (Nat.le_succ _).trans h.bounded

theorem IsSound.keep {bucket : Bucket} {buffer : Buffer} (h : bucket.IsSound)
    (hlength : bucket.size = buffer.length) :
    (bucket.keep buffer).IsSound ∧ (bucket.keep buffer).spec = bucket.spec := by
  unfold Bucket.keep
  split
  · next hroom =>
    refine ⟨⟨fun other hother => ?_, ?_⟩, rfl⟩
    · rcases List.mem_append.mp hother with hold | hnew
      · exact h.lengths other hold
      · rw [List.mem_singleton.mp hnew, ← hlength]
    · rw [List.length_append]
      exact hroom
  · exact ⟨h, rfl⟩

/-- What is taken was idle, or is zero. -/
theorem take_cases (bucket : Bucket) :
    bucket.idle = [] ∧ bucket.take = (List.replicate bucket.size 0, bucket) ∨
      ∃ buffer rest, bucket.idle = buffer :: rest ∧
        bucket.take = (buffer, { bucket with idle := rest }) := by
  obtain ⟨size, capacity, idle⟩ := bucket
  cases idle with
  | nil => exact .inl ⟨rfl, rfl⟩
  | cons buffer rest => exact .inr ⟨buffer, rest, rfl, rfl⟩

/-! ## 3. The search for a bucket -/

theorem rent_of_forall {needed : Nat} {buckets : List Bucket}
    (h : ∀ bucket ∈ buckets, bucket.size < needed) :
    rent needed buckets = (List.replicate needed 0, buckets) := by
  induction buckets with
  | nil => rfl
  | cons head rest ih =>
    obtain ⟨hhead, hrest⟩ := List.forall_mem_cons.mp h
    rw [rent, if_neg (Nat.not_le_of_lt hhead), ih hrest]

theorem rent_append {needed : Nat} {front back : List Bucket} {bucket : Bucket}
    (hfront : ∀ other ∈ front, other.size < needed) (hbucket : needed ≤ bucket.size) :
    rent needed (front ++ bucket :: back) = (bucket.take.1, front ++ bucket.take.2 :: back) := by
  induction front with
  | nil => rw [List.nil_append, rent, if_pos hbucket]; rfl
  | cons head rest ih =>
    obtain ⟨hhead, hrest⟩ := List.forall_mem_cons.mp hfront
    rw [List.cons_append, rent, if_neg (Nat.not_le_of_lt hhead), ih hrest]
    rfl

theorem release_of_forall {buffer : Buffer} {buckets : List Bucket}
    (h : ∀ bucket ∈ buckets, bucket.size ≠ buffer.length) : release buffer buckets = buckets := by
  induction buckets with
  | nil => rfl
  | cons head rest ih =>
    obtain ⟨hhead, hrest⟩ := List.forall_mem_cons.mp h
    rw [release, if_neg hhead, ih hrest]

theorem release_append {buffer : Buffer} {front back : List Bucket} {bucket : Bucket}
    (hfront : ∀ other ∈ front, other.size ≠ buffer.length) (hbucket : bucket.size = buffer.length) :
    release buffer (front ++ bucket :: back) = front ++ bucket.keep buffer :: back := by
  induction front with
  | nil => rw [List.nil_append, release, if_pos hbucket]; rfl
  | cons head rest ih =>
    obtain ⟨hhead, hrest⟩ := List.forall_mem_cons.mp hfront
    rw [List.cons_append, release, if_neg hhead, ih hrest]
    rfl

/-- No bucket has a property, or there is a first one that has it. -/
theorem forall_or_first (P : Bucket → Prop) [DecidablePred P] (buckets : List Bucket) :
    (∀ bucket ∈ buckets, ¬P bucket) ∨ ∃ front bucket back, buckets = front ++ bucket :: back ∧
      (∀ other ∈ front, ¬P other) ∧ P bucket := by
  cases hfind : buckets.find? P with
  | none => exact .inl (by simpa using hfind)
  | some bucket =>
    obtain ⟨hbucket, front, back, hbuckets, hfront⟩ := List.find?_eq_some_iff_append.mp hfind
    exact .inr ⟨front, bucket, back, hbuckets, by simpa using hfront, by simpa using hbucket⟩

/-- **A request reaches the first bucket that is large enough**, or none. -/
theorem rent_cases (needed : Nat) (buckets : List Bucket) :
    ((∀ bucket ∈ buckets, bucket.size < needed) ∧
      rent needed buckets = (List.replicate needed 0, buckets)) ∨
    ∃ front bucket back, buckets = front ++ bucket :: back ∧
      (∀ other ∈ front, other.size < needed) ∧ needed ≤ bucket.size ∧
      rent needed buckets = (bucket.take.1, front ++ bucket.take.2 :: back) := by
  rcases forall_or_first (fun bucket => needed ≤ bucket.size) buckets with
    hnone | ⟨front, bucket, back, rfl, hfront, hbucket⟩
  · have hless : ∀ bucket ∈ buckets, bucket.size < needed :=
      fun bucket hbucket => Nat.lt_of_not_le (hnone bucket hbucket)
    exact .inl ⟨hless, rent_of_forall hless⟩
  · have hless : ∀ other ∈ front, other.size < needed :=
      fun other hother => Nat.lt_of_not_le (hfront other hother)
    exact .inr ⟨front, bucket, back, rfl, hless, hbucket, rent_append hless hbucket⟩

/-- **A release reaches the bucket of the buffer's length**, or none. -/
theorem release_cases (buffer : Buffer) (buckets : List Bucket) :
    ((∀ bucket ∈ buckets, bucket.size ≠ buffer.length) ∧ release buffer buckets = buckets) ∨
    ∃ front bucket back, buckets = front ++ bucket :: back ∧ bucket.size = buffer.length ∧
      release buffer buckets = front ++ bucket.keep buffer :: back := by
  rcases forall_or_first (fun bucket => bucket.size = buffer.length) buckets with
    hnone | ⟨front, bucket, back, rfl, hfront, hbucket⟩
  · exact .inl ⟨hnone, release_of_forall hnone⟩
  · exact .inr ⟨front, bucket, back, rfl, hbucket, release_append hfront hbucket⟩

end Bucket

/-! ## 4. Pools -/

namespace BufferPool

/-- A call to a pool of buffers. -/
inductive Call : Type 1 where
  | rent (needed : Nat)
  | release (buffer : Buffer) (clear : Bool)
  | encode {α : Type} (codec : Codec α) (value : α)

/-- The pool that a call leaves. -/
def Call.on (pool : BufferPool) : Call → BufferPool
  | .rent needed => (pool.rent needed).2
  | .release buffer clear => pool.release buffer clear
  | .encode codec value => (pool.encode codec value).2

/-- A release of the call clears its buffer. -/
def Call.Clears : Call → Prop
  | .release _ clear => clear = true
  | _ => True

/-- The pool of some specifications after some calls. -/
def after (specs : List BucketSpec) (calls : List Call) : BufferPool :=
  calls.foldl Call.on (ofSpecs specs)

/-- **The buckets of a pool.**  Their sizes increase, for each size the first specification counts
that has a capacity, and every bucket holds buffers of its size, no more than its capacity. -/
structure Classified (specs : List BucketSpec) (pool : BufferPool) : Prop where
  increasing : pool.buckets.Pairwise fun a b => a.size < b.size
  first : ∀ spec, spec ∈ pool.buckets.map Bucket.spec ↔
    specs.find? (fun other => decide (0 < other.capacity) && other.size == spec.size) = some spec
  lengths : ∀ bucket ∈ pool.buckets, ∀ buffer ∈ bucket.idle, buffer.length = bucket.size
  bounded : ∀ bucket ∈ pool.buckets, bucket.idle.length ≤ bucket.capacity

namespace Classified

variable {specs : List BucketSpec} {pool : BufferPool}

theorem sound (h : pool.Classified specs) {bucket : Bucket} (hbucket : bucket ∈ pool.buckets) :
    bucket.IsSound :=
  ⟨h.lengths bucket hbucket, h.bounded bucket hbucket⟩

/-- Sound buckets that meet the same specifications may take the place of the buckets. -/
theorem of_spec {buckets : List Bucket} (h : pool.Classified specs)
    (hspec : buckets.map Bucket.spec = pool.buckets.map Bucket.spec)
    (hsound : ∀ bucket ∈ buckets, bucket.IsSound) : Classified specs ⟨buckets⟩ := by
  refine ⟨?_, fun spec => hspec ▸ h.first spec, fun bucket hbucket => (hsound bucket hbucket).lengths,
    fun bucket hbucket => (hsound bucket hbucket).bounded⟩
  have hincreasing : (pool.buckets.map Bucket.spec).Pairwise fun a b => a.size < b.size :=
    List.pairwise_map.mpr h.increasing
  rw [← hspec, List.pairwise_map] at hincreasing
  exact hincreasing

/-- A sound bucket that meets the same specification may take the place of one. -/
theorem replace {front back : List Bucket} {bucket bucket' : Bucket} (h : pool.Classified specs)
    (hbuckets : pool.buckets = front ++ bucket :: back) (hspec : bucket'.spec = bucket.spec)
    (hsound : bucket'.IsSound) : Classified specs ⟨front ++ bucket' :: back⟩ := by
  refine h.of_spec (by simp [hbuckets, hspec]) fun other hother => ?_
  rcases List.mem_append.mp hother with hfront | hback
  · exact h.sound (by simp [hbuckets, hfront])
  · rcases List.mem_cons.mp hback with rfl | hback
    · exact hsound
    · exact h.sound (by simp [hbuckets, hback])

end Classified

theorem classified_ofSpecs (specs : List BucketSpec) : (ofSpecs specs).Classified specs := by
  have hmem : ∀ bucket, bucket ∈ (ofSpecs specs).buckets ↔ bucket.idle = [] ∧
      specs.find? (fun other => decide (0 < other.capacity) && other.size == bucket.size) =
        some bucket.spec := by
    intro bucket
    have hbuckets := @Bucket.mem_foldl_insertSpec_iff []
      (specs.filter fun spec => 0 < spec.capacity) bucket .nil
    simp only [List.find?_filter, Bool.decide_and, Bool.decide_eq_true, List.not_mem_nil, false_or,
      false_implies, implies_true, true_and] at hbuckets
    exact hbuckets
  have hidle : ∀ bucket ∈ (ofSpecs specs).buckets, bucket.idle = [] :=
    fun bucket hbucket => ((hmem bucket).mp hbucket).1
  refine ⟨Bucket.sorted_foldl_insertSpec _ .nil, fun spec => ?_, fun bucket hbucket => ?_,
    fun bucket hbucket => ?_⟩
  · rw [List.mem_map]
    constructor
    · rintro ⟨bucket, hbucket, rfl⟩
      exact ((hmem bucket).mp hbucket).2
    · intro hfound
      exact ⟨⟨spec.size, spec.capacity, []⟩, (hmem _).mpr ⟨rfl, hfound⟩, rfl⟩
  · rw [hidle bucket hbucket]
    exact nofun
  · rw [hidle bucket hbucket]
    exact Nat.zero_le _

section

variable {specs : List BucketSpec} {pool : BufferPool}

theorem Classified.rent (h : pool.Classified specs) (needed : Nat) :
    (pool.rent needed).2.Classified specs := by
  unfold BufferPool.rent
  rcases Bucket.rent_cases needed pool.buckets with
    ⟨-, hrent⟩ | ⟨front, bucket, back, hbuckets, -, -, hrent⟩
  · rw [hrent]
    exact h
  · rw [hrent]
    obtain ⟨-, hsound, hspec⟩ := (h.sound (by simp [hbuckets] : bucket ∈ pool.buckets)).take
    exact h.replace hbuckets hspec hsound

/-- What is released may be cleared before. -/
def released (buffer : Buffer) (clear : Bool) : Buffer :=
  if clear then List.replicate buffer.length 0 else buffer

theorem length_released (buffer : Buffer) (clear : Bool) :
    (released buffer clear).length = buffer.length := by
  unfold released
  split
  · exact List.length_replicate
  · rfl

theorem release_eq (pool : BufferPool) (buffer : Buffer) (clear : Bool) :
    pool.release buffer clear = ⟨Bucket.release (released buffer clear) pool.buckets⟩ := rfl

theorem Classified.release (h : pool.Classified specs) (buffer : Buffer) (clear : Bool) :
    (pool.release buffer clear).Classified specs := by
  rw [release_eq]
  rcases Bucket.release_cases (released buffer clear) pool.buckets with
    ⟨-, hrelease⟩ | ⟨front, bucket, back, hbuckets, hsize, hrelease⟩
  · rw [hrelease]
    exact h
  · rw [hrelease]
    obtain ⟨hsound, hspec⟩ := (h.sound (by simp [hbuckets] : bucket ∈ pool.buckets)).keep hsize
    exact h.replace hbuckets hspec hsound

/-- **No call disturbs the buckets.** -/
theorem Classified.on (h : pool.Classified specs) (call : Call) :
    (call.on pool).Classified specs := by
  cases call with
  | rent needed => exact h.rent needed
  | release buffer clear => exact h.release buffer clear
  -- the buffer that is written into is rented, and does not come back
  | encode codec value => exact h.rent (codec.size value)

theorem classified_after (specs : List BucketSpec) (calls : List Call) :
    (after specs calls).Classified specs := by
  have hrun : ∀ {pool : BufferPool}, pool.Classified specs →
      (calls.foldl Call.on pool).Classified specs := by
    induction calls with
    | nil => exact id
    | cons call calls ih => exact fun h => ih (h.on call)
  exact hrun (classified_ofSpecs specs)

/-! ## 5. What a pool does -/

/-- **What a pool does with its buckets.**  A request is answered by a buffer of the smallest size that
is enough, the one idle for longest if there is one, or of just the size that is asked for where no
bucket is large enough.  A release is kept in the bucket of its size as long as that has room, and
otherwise changes nothing. -/
structure Serves (pool : BufferPool) : Prop where
  length : ∀ needed,
    IsLeast {size | needed ≤ size ∧ ∃ bucket ∈ pool.buckets, bucket.size = size}
        (pool.rent needed).1.length ∨
      (∀ bucket ∈ pool.buckets, bucket.size < needed) ∧ (pool.rent needed).1.length = needed
  reuses : ∀ needed front bucket back buffer rest, pool.buckets = front ++ bucket :: back →
    (∀ other ∈ front, other.size < needed) → needed ≤ bucket.size → bucket.idle = buffer :: rest →
      pool.rent needed = (buffer, ⟨front ++ { bucket with idle := rest } :: back⟩)
  keeps : ∀ buffer clear front bucket back, pool.buckets = front ++ bucket :: back →
    bucket.size = buffer.length → bucket.idle.length < bucket.capacity →
      pool.release buffer clear =
        ⟨front ++ { bucket with idle := bucket.idle ++ [released buffer clear] } :: back⟩
  ignores : ∀ buffer clear, (∀ bucket ∈ pool.buckets, bucket.size = buffer.length →
    bucket.idle.length = bucket.capacity) → pool.release buffer clear = pool

/-- What is rented is of the smallest size that is enough. -/
theorem Classified.length_rent (h : pool.Classified specs) (needed : Nat) :
    IsLeast {size | needed ≤ size ∧ ∃ bucket ∈ pool.buckets, bucket.size = size}
        (pool.rent needed).1.length ∨
      (∀ bucket ∈ pool.buckets, bucket.size < needed) ∧ (pool.rent needed).1.length = needed := by
  unfold BufferPool.rent
  rcases Bucket.rent_cases needed pool.buckets with
    ⟨hall, hrent⟩ | ⟨front, bucket, back, hbuckets, hfront, hbucket, hrent⟩
  · rw [hrent]
    exact .inr ⟨hall, List.length_replicate⟩
  · have hmem : bucket ∈ pool.buckets := by simp [hbuckets]
    rw [hrent]
    dsimp only
    rw [(h.sound hmem).take.1]
    refine .inl ⟨⟨hbucket, bucket, hmem, rfl⟩, ?_⟩
    rintro size ⟨hneeded, other, hother, rfl⟩
    have hincreasing := h.increasing
    rw [hbuckets] at hother hincreasing
    rcases List.mem_append.mp hother with hmem | hmem
    · exact absurd hneeded (Nat.not_le_of_lt (hfront other hmem))
    · rcases List.mem_cons.mp hmem with rfl | hback
      · exact Nat.le_refl _
      · have hrow := (List.pairwise_append.mp hincreasing).2.1
        exact ((List.pairwise_cons.mp hrow).1 other hback).le

/-- What is rented is long enough. -/
theorem Classified.le_length_rent (h : pool.Classified specs) (needed : Nat) :
    needed ≤ (pool.rent needed).1.length := by
  rcases h.length_rent needed with hleast | ⟨-, hlength⟩
  · exact hleast.1.1
  · exact hlength.ge

theorem Classified.serves (h : pool.Classified specs) : pool.Serves where
  length := h.length_rent
  reuses needed front bucket back buffer rest hbuckets hfront hbucket hidle := by
    unfold BufferPool.rent
    rw [hbuckets, Bucket.rent_append hfront hbucket, Bucket.take, hidle]
  keeps buffer clear front bucket back hbuckets hsize hroom := by
    have hincreasing := h.increasing
    rw [hbuckets] at hincreasing
    have hlength := length_released buffer clear
    have hfront : ∀ other ∈ front, other.size ≠ (released buffer clear).length := by
      intro other hother
      have hless := (List.pairwise_append.mp hincreasing).2.2 other hother bucket
        List.mem_cons_self
      omega
    rw [release_eq, hbuckets, Bucket.release_append hfront (hsize.trans hlength.symm), Bucket.keep,
      if_pos hroom]
  ignores buffer clear hfull := by
    rw [release_eq]
    rcases Bucket.release_cases (released buffer clear) pool.buckets with
      ⟨-, hrelease⟩ | ⟨front, bucket, back, hbuckets, hsize, hrelease⟩
    · rw [hrelease]
    · have hidle := hfull bucket (by simp [hbuckets]) (hsize.trans (length_released buffer clear))
      rw [hrelease, Bucket.keep, if_neg (by omega), ← hbuckets]

/-! ## 6. Zeros -/

/-- All idle buffers are zero. -/
def IsCleared (pool : BufferPool) : Prop :=
  ∀ bucket ∈ pool.buckets, ∀ buffer ∈ bucket.idle, buffer.IsZero

/-- A bucket of zeros may take the place of one. -/
theorem IsCleared.replace {front back : List Bucket} {bucket bucket' : Bucket} (h : pool.IsCleared)
    (hbuckets : pool.buckets = front ++ bucket :: back)
    (hzero : ∀ buffer ∈ bucket'.idle, buffer.IsZero) : IsCleared ⟨front ++ bucket' :: back⟩ := by
  intro other hother
  rcases List.mem_append.mp hother with hfront | hback
  · exact h other (by simp [hbuckets, hfront])
  · rcases List.mem_cons.mp hback with rfl | hback
    · exact hzero
    · exact h other (by simp [hbuckets, hback])

theorem IsCleared.rent (h : pool.IsCleared) (needed : Nat) :
    (pool.rent needed).1.IsZero ∧ (pool.rent needed).2.IsCleared := by
  unfold BufferPool.rent
  rcases Bucket.rent_cases needed pool.buckets with
    ⟨-, hrent⟩ | ⟨front, bucket, back, hbuckets, -, -, hrent⟩
  · rw [hrent]
    exact ⟨isZero_replicate needed, h⟩
  · have hidle := h bucket (by simp [hbuckets])
    rw [hrent]
    rcases bucket.take_cases with ⟨-, htake⟩ | ⟨buffer, rest, hcons, htake⟩
    · rw [htake]
      exact ⟨isZero_replicate bucket.size, h.replace hbuckets hidle⟩
    · rw [hcons] at hidle
      rw [htake]
      exact ⟨hidle buffer List.mem_cons_self, h.replace hbuckets fun other hother =>
        hidle other (List.mem_cons_of_mem _ hother)⟩

/-- A release that clears its buffer keeps the pool cleared. -/
theorem IsCleared.release (h : pool.IsCleared) (buffer : Buffer) :
    (pool.release buffer true).IsCleared := by
  rw [release_eq]
  rcases Bucket.release_cases (released buffer true) pool.buckets with
    ⟨-, hrelease⟩ | ⟨front, bucket, back, hbuckets, -, hrelease⟩
  · rw [hrelease]
    exact h
  · rw [hrelease]
    have hidle := h bucket (by simp [hbuckets])
    refine h.replace hbuckets ?_
    unfold Bucket.keep
    split
    · exact List.forall_mem_append.mpr ⟨hidle, fun other hother => by
        rw [List.mem_singleton.mp hother]
        exact isZero_replicate buffer.length⟩
    · exact hidle

theorem IsCleared.on (h : pool.IsCleared) {call : Call} (hcall : call.Clears) :
    (call.on pool).IsCleared := by
  cases call with
  | rent needed => exact (h.rent needed).2
  | release buffer clear =>
    have hclear : clear = true := hcall
    rw [hclear]
    exact h.release buffer
  | encode codec value => exact (h.rent (codec.size value)).2

/-- **Calls that clear what they release leave zeros.** -/
theorem isCleared_after {calls : List Call} (h : ∀ call ∈ calls, call.Clears) :
    (after specs calls).IsCleared := by
  have hrun : ∀ {pool : BufferPool}, pool.IsCleared → (calls.foldl Call.on pool).IsCleared := by
    induction calls with
    | nil => exact id
    | cons call calls ih =>
      obtain ⟨hcall, hcalls⟩ := List.forall_mem_cons.mp h
      exact fun hpool => ih hcalls (hpool.on hcall)
  refine hrun fun bucket hbucket buffer hbuffer => ?_
  -- a new pool has no buffers
  unfold ofSpecs at hbucket
  rcases (Bucket.mem_foldl_insertSpec_iff .nil).mp hbucket with hnil | ⟨hidle, -⟩
  · cases hnil
  · rw [hidle] at hbuffer
    cases hbuffer

/-- **Buffers stay with their size.**  After any calls, whatever was released: the buckets are those of
the first specifications of each size, increasing, with no more idle buffers than they hold, all of
them of the bucket's size; a request gets a buffer of the smallest size that is enough; what does not
fit in a bucket changes nothing; and if all releases have cleared their buffers, all that is rented is
zero. -/
theorem buckets_hold_after (specs : List BucketSpec) (calls : List Call) :
    (after specs calls).Classified specs ∧ (after specs calls).Serves ∧
      ((∀ call ∈ calls, call.Clears) → ∀ needed, ((after specs calls).rent needed).1.IsZero) := by
  have hclassified := classified_after specs calls
  exact ⟨hclassified, hclassified.serves, fun h needed => ((isCleared_after h).rent needed).1⟩

/-- Of two specifications of one size the first counts, and one without capacity does not; a buffer
that was cleared comes back before a new one is made. -/
theorem buckets_hold_after_repeated :
    let specs : List BucketSpec := [⟨3, 1⟩, ⟨2, 0⟩, ⟨2, 2⟩, ⟨3, 5⟩, ⟨0, 1⟩]
    let calls : List Call := [.release [1, 2, 3] true, .release [4, 5, 6] true, .release [7] true,
      .rent 4, .rent 1]
    (after specs calls).buckets = [⟨0, 1, []⟩, ⟨2, 2, []⟩, ⟨3, 1, [[0, 0, 0]]⟩] ∧
      (after specs calls).Serves ∧ ∀ needed, ((after specs calls).rent needed).1.IsZero := by
  intro specs calls
  obtain ⟨-, hserves, hzero⟩ := buckets_hold_after specs calls
  refine ⟨by decide, hserves, hzero ?_⟩
  simp [calls, Call.Clears]

end

end BufferPool

end Wireform
