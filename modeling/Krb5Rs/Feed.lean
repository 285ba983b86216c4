import Mathlib.Order.Lattice

/-!
# Reading a feed batch by batch

Items have a time, and a batch covers the times after one bound up to another.
If every batch holds exactly the items of its times and starts where the one
before it ended, the batches together hold exactly the items between the first
bound and the last, each of them once.
-/

namespace Feed

variable {ι τ : Type}

structure Batch (ι τ : Type) where
  since : τ
  upto : τ
  items : List ι

inductive Chain : τ → List (Batch ι τ) → τ → Prop
  | nil (t : τ) : Chain t [] t
  | cons {b : Batch ι τ} {bs : List (Batch ι τ)} {t : τ} : Chain b.upto bs t → Chain b.since (b :: bs) t

variable [LinearOrder τ] {time : ι → τ} {all : List ι}

/-- The batch holds the items of its times and no others. -/
structure Exact (time : ι → τ) (all : List ι) (b : Batch ι τ) : Prop where
  forward : b.since ≤ b.upto
  nodup : b.items.Nodup
  mem_iff : ∀ i, i ∈ b.items ↔ i ∈ all ∧ b.since < time i ∧ time i ≤ b.upto

theorem Exact.whole {b : Batch ι τ} (h : Exact time all b) {i j : ι} (hi : i ∈ b.items) (hj : j ∈ all)
    (htime : time j = time i) : j ∈ b.items := by
  obtain ⟨-, hsince, hupto⟩ := (h.mem_iff i).mp hi
  rw [h.mem_iff, htime]
  exact ⟨hj, hsince, hupto⟩

namespace Chain

variable {s t : τ} {bs : List (Batch ι τ)}

theorem le (h : Chain s bs t) (hbs : ∀ b ∈ bs, Exact time all b) : s ≤ t := by
  induction h with
  | nil t => exact le_refl t
  | cons _ ih =>
    obtain ⟨hb, hrest⟩ := List.forall_mem_cons.mp hbs
    exact le_trans hb.forward (ih hrest)

theorem mem_iff (h : Chain s bs t) (hbs : ∀ b ∈ bs, Exact time all b) (i : ι) :
    i ∈ bs.flatMap (·.items) ↔ i ∈ all ∧ s < time i ∧ time i ≤ t := by
  induction h with
  | nil t =>
    constructor
    · intro hi
      cases hi
    · rintro ⟨-, hs, ht⟩
      exact absurd ht (not_le.mpr hs)
  | @cons b bs t h ih =>
    obtain ⟨hb, hrest⟩ := List.forall_mem_cons.mp hbs
    have hle := h.le hrest
    rw [List.flatMap_cons, List.mem_append, hb.mem_iff, ih hrest]
    constructor
    · rintro (⟨hall, hs, hu⟩ | ⟨hall, hu, ht⟩)
      · exact ⟨hall, hs, le_trans hu hle⟩
      · exact ⟨hall, lt_of_le_of_lt hb.forward hu, ht⟩
    · rintro ⟨hall, hs, ht⟩
      rcases le_or_gt (time i) b.upto with hu | hu
      · exact .inl ⟨hall, hs, hu⟩
      · exact .inr ⟨hall, hu, ht⟩

theorem nodup (h : Chain s bs t) (hbs : ∀ b ∈ bs, Exact time all b) : (bs.flatMap (·.items)).Nodup := by
  induction h with
  | nil => exact List.nodup_nil
  | @cons b bs t h ih =>
    obtain ⟨hb, hrest⟩ := List.forall_mem_cons.mp hbs
    rw [List.flatMap_cons, List.nodup_append]
    refine ⟨hb.nodup, ih hrest, ?_⟩
    -- what comes later is after the bound of the first batch
    rintro i hi j hj rfl
    exact absurd ((hb.mem_iff i).mp hi).2.2 (not_le.mpr ((h.mem_iff hrest i).mp hj).2.1)

end Chain

end Feed
