import Mathlib.Data.List.Chain
import Mathlib.Data.List.Infix
import Mathlib.Data.List.Nodup

/-!
# Hierarchical names

A name is a list of labels joined by a separator, the most general label last.
Two names are `a ++ t` and `b ++ t` for their longest common tail `t`; the path
between them drops the labels of `a` one by one and then takes on those of `b`.
-/

namespace Labels

variable {α β : Type}

/-! ## Common tails -/

def Apart (a b : List β) : Prop := ∀ x, x ≠ [] → x <:+ a → ¬x <:+ b

variable {a b x t : List β} {ls ms : List (List α)}

theorem Apart.symm (h : Apart a b) : Apart b a := fun x hx hb ha => h x hx ha hb

theorem apart_nil_left (b : List β) : Apart [] b := by
  intro x hx h _
  exact hx (List.suffix_nil.mp h)

theorem apart_of_getLast {x y : β} (h : x ≠ y) : Apart (a ++ [x]) (b ++ [y]) := by
  intro z hz ha hb
  obtain ⟨z', w, rfl⟩ := List.eq_nil_or_concat z |>.resolve_left hz
  obtain ⟨p, hp⟩ := ha
  obtain ⟨q, hq⟩ := hb
  rw [List.concat_eq_append, ← List.append_assoc] at hp hq
  have h1 := (List.append_inj' hp rfl).2
  have h2 := (List.append_inj' hq rfl).2
  rw [h1] at h2
  exact h (List.singleton_inj.mp h2)

theorem exists_common_tail (x y : List β) : ∃ a b t, x = a ++ t ∧ y = b ++ t ∧ Apart a b := by
  induction x using List.reverseRecOn generalizing y with
  | nil => exact ⟨[], y, [], rfl, by simp, apart_nil_left y⟩
  | append_singleton x v ih =>
    rcases List.eq_nil_or_concat y with rfl | ⟨y', w, rfl⟩
    · exact ⟨x ++ [v], [], [], by simp, rfl, (apart_nil_left _).symm⟩
    by_cases hvw : v = w
    · subst hvw
      obtain ⟨a, b, t, rfl, rfl, hap⟩ := ih y'
      exact ⟨a, b, t ++ [v], by simp, by simp, hap⟩
    · exact ⟨x ++ [v], y' ++ [w], [], by simp, by simp, apart_of_getLast hvw⟩

/-! ## The path -/

/-- The tails of `a ++ t` that are longer than `t`, the longest first. -/
def climb : List β → List β → List (List β)
  | [], _ => []
  | l :: a, t => (l :: a ++ t) :: climb a t

theorem mem_climb : x ∈ climb a t ↔ ∃ z, z ≠ [] ∧ z <:+ a ∧ x = z ++ t := by
  induction a with
  | nil =>
    simp only [climb, List.not_mem_nil, false_iff]
    rintro ⟨z, hz, h, -⟩
    exact hz (List.suffix_nil.mp h)
  | cons l a ih =>
    rw [climb, List.mem_cons, ih]
    constructor
    · rintro (rfl | ⟨z, hz, h, rfl⟩)
      · exact ⟨l :: a, by simp, List.suffix_rfl, rfl⟩
      · exact ⟨z, hz, h.trans (List.suffix_cons l a), rfl⟩
    · rintro ⟨z, hz, h, rfl⟩
      rcases List.suffix_cons_iff.mp h with rfl | h
      · exact Or.inl rfl
      · exact Or.inr ⟨z, hz, h, rfl⟩

theorem climb_nodup (a t : List β) : (climb a t).Nodup := by
  induction a with
  | nil => exact List.nodup_nil
  | cons l a ih =>
    refine List.nodup_cons.mpr ⟨?_, ih⟩
    intro h
    obtain ⟨z, -, hz, heq⟩ := mem_climb.mp h
    have hlen := hz.length_le
    have := congrArg List.length heq
    simp only [List.cons_append, List.length_cons, List.length_append] at this
    omega

theorem climb_getLast? (a t : List β) : (climb a t).getLast? = a.getLast?.map (· :: t) := by
  induction a with
  | nil => rfl
  | cons l a ih =>
    cases a with
    | nil => rfl
    | cons m a => rw [climb, climb, List.getLast?_cons_cons, List.getLast?_cons_cons, ← ih, climb]

def Below (ls x y : List β) : Prop := ∃ l ∈ ls, x = l :: y ∧ y ≠ []

theorem climb_isChain (a t : List β) : (climb a t).IsChain (Below a) := by
  induction a with
  | nil => exact List.isChain_nil
  | cons l a ih =>
    refine List.isChain_cons.mpr ⟨?_, ih.imp ?_⟩
    · intro y hy
      cases a with
      | nil => cases hy
      | cons m a =>
        cases hy
        exact ⟨l, List.mem_cons_self, rfl, by simp⟩
    · rintro x y ⟨m, hm, h⟩
      exact ⟨m, List.mem_cons_of_mem _ hm, h⟩

/-- From `a ++ t` down to `t` and up to `b ++ t`; without a common tail the two sides meet at their last labels. -/
def path (a b t : List β) : List (List β) :=
  climb a t ++ (if t.isEmpty then [] else [t]) ++ (climb b t).reverse

theorem path_nodup (t : List β) (h : Apart a b) : (path a b t).Nodup := by
  have hmid : ∀ c, ∀ x ∈ climb c t, x ≠ t := by
    rintro c x hx rfl
    obtain ⟨z, hz, -, heq⟩ := mem_climb.mp hx
    exact hz (List.append_left_eq_self.mp heq.symm)
  have hsides : ∀ x ∈ climb a t, ∀ y ∈ climb b t, x ≠ y := by
    rintro x hx y hy rfl
    obtain ⟨z, hz, hza, rfl⟩ := mem_climb.mp hx
    obtain ⟨w, -, hwb, heq⟩ := mem_climb.mp hy
    obtain rfl := List.append_cancel_right heq
    exact h z hz hza hwb
  unfold path
  split
  · rw [List.append_nil, List.nodup_append]
    refine ⟨climb_nodup a t, List.nodup_reverse.mpr (climb_nodup b t), ?_⟩
    intro x hx y hy
    exact hsides x hx y (List.mem_reverse.mp hy)
  · rw [List.nodup_append, List.nodup_append]
    refine ⟨⟨climb_nodup a t, List.nodup_singleton t, ?_⟩, List.nodup_reverse.mpr (climb_nodup b t), ?_⟩
    · intro x hx y hy
      obtain rfl := List.mem_singleton.mp hy
      exact hmid a x hx
    · intro x hx y hy
      rcases List.mem_append.mp hx with hx | hx
      · exact hsides x hx y (List.mem_reverse.mp hy)
      · obtain rfl := List.mem_singleton.mp hx
        exact (hmid b y (List.mem_reverse.mp hy)).symm

theorem path_reverse (a b t : List β) : (path a b t).reverse = path b a t := by
  unfold path
  split <;> simp

theorem path_head? (b : List β) (h : a ++ t ≠ []) : (path a b t).head? = some (a ++ t) := by
  cases a with
  | cons l a => rfl
  | nil =>
    obtain ⟨m, t, rfl⟩ := List.exists_cons_of_ne_nil h
    rfl

theorem path_getLast? (a : List β) (h : b ++ t ≠ []) : (path a b t).getLast? = some (b ++ t) := by
  rw [← List.head?_reverse, path_reverse, path_head? a h]

theorem ne_nil_of_mem_path (h : x ∈ path a b t) : x ≠ [] := by
  have hclimb : ∀ c, x ∈ climb c t → x ≠ [] := by
    intro c hx
    obtain ⟨z, hz, -, rfl⟩ := mem_climb.mp hx
    simp [hz]
  rcases List.mem_append.mp h with h | h
  · rcases List.mem_append.mp h with h | h
    · exact hclimb a h
    · split at h
      · cases h
      · rename_i ht
        obtain rfl := List.mem_singleton.mp h
        simpa using ht
  · exact hclimb b (List.mem_reverse.mp h)

theorem suffix_of_mem_path (h : x ∈ path a b t) : x <:+ a ++ t ∨ x <:+ b ++ t := by
  have hclimb : ∀ c, x ∈ climb c t → x <:+ c ++ t := by
    intro c hx
    obtain ⟨z, -, ⟨p, rfl⟩, rfl⟩ := mem_climb.mp hx
    exact ⟨p, by simp⟩
  rcases List.mem_append.mp h with h | h
  · rcases List.mem_append.mp h with h | h
    · exact Or.inl (hclimb a h)
    · split at h
      · cases h
      · obtain rfl := List.mem_singleton.mp h
        exact Or.inl (List.suffix_append a x)
  · exact Or.inr (hclimb b (List.mem_reverse.mp h))

def Crossing (a b t x y : List β) : Prop := t = [] ∧ (∃ l, a.getLast? = some l ∧ x = [l]) ∧ ∃ m, b.getLast? = some m ∧ y = [m]

theorem path_isChain (a b t : List β) :
    (path a b t).IsChain fun x y => Below a x y ∨ Below b y x ∨ Crossing a b t x y := by
  have hdown : (climb a t).IsChain fun x y => Below a x y ∨ Below b y x ∨ Crossing a b t x y :=
    (climb_isChain a t).imp fun x y h => Or.inl h
  have hup : (climb b t).reverse.IsChain fun x y => Below a x y ∨ Below b y x ∨ Crossing a b t x y :=
    List.isChain_reverse.mpr ((climb_isChain b t).imp fun x y h => Or.inr (Or.inl h))
  unfold path
  split
  · rename_i ht
    have ht : t = [] := by simpa using ht
    rw [List.append_nil, List.isChain_append]
    refine ⟨hdown, hup, ?_⟩
    intro x hx y hy
    rw [climb_getLast?] at hx
    rw [List.head?_reverse, climb_getLast?] at hy
    obtain ⟨l, hl, rfl⟩ := Option.map_eq_some_iff.mp hx
    obtain ⟨m, hm, rfl⟩ := Option.map_eq_some_iff.mp hy
    subst ht
    exact Or.inr (Or.inr ⟨rfl, ⟨l, hl, rfl⟩, m, hm, rfl⟩)
  · rename_i ht
    have ht : t ≠ [] := by simpa using ht
    rw [List.isChain_append, List.isChain_append]
    refine ⟨⟨hdown, List.isChain_singleton t, ?_⟩, hup, ?_⟩
    · intro x hx y hy
      cases hy
      rw [climb_getLast?] at hx
      obtain ⟨l, hl, rfl⟩ := Option.map_eq_some_iff.mp hx
      exact Or.inl ⟨l, List.mem_of_getLast? hl, rfl, ht⟩
    · intro x hx y hy
      rw [List.getLast?_append_of_ne_nil _ (by simp)] at hx
      cases hx
      rw [List.head?_reverse, climb_getLast?] at hy
      obtain ⟨m, hm, rfl⟩ := Option.map_eq_some_iff.mp hy
      exact Or.inr (Or.inl ⟨m, List.mem_of_getLast? hm, rfl, ht⟩)

/-! ## Joining labels -/

section
variable (sep : α)

def Proper (ls : List (List α)) : Prop := ∀ l ∈ ls, l ≠ [] ∧ sep ∉ l

abbrev join (ls : List (List α)) : List α := List.intercalate [sep] ls

end

variable {sep : α}

theorem Proper.mono (h : Proper sep ms) (hsub : ∀ l ∈ ls, l ∈ ms) : Proper sep ls :=
  fun l hl => h l (hsub l hl)

@[simp] theorem join_singleton (l : List α) : join sep [l] = l := List.intercalate_singleton

theorem join_cons (l : List α) (h : ls ≠ []) : join sep (l :: ls) = l ++ sep :: join sep ls := by
  obtain ⟨m, ms, rfl⟩ := List.exists_cons_of_ne_nil h
  rw [join, List.intercalate_cons_cons, List.append_assoc, List.singleton_append]

theorem join_append (hl : ls ≠ []) (hm : ms ≠ []) : join sep (ls ++ ms) = join sep ls ++ sep :: join sep ms := by
  induction ls with
  | nil => exact absurd rfl hl
  | cons l ls ih =>
    by_cases hls : ls = []
    · subst hls
      rw [List.singleton_append, join_cons l hm, join_singleton]
    · rw [List.cons_append, join_cons l (by simp [hm]), ih hls, join_cons l hls, List.append_assoc, List.cons_append]

theorem join_ne_nil (h : Proper sep ls) (hne : ls ≠ []) : join sep ls ≠ [] := by
  obtain ⟨l, ls, rfl⟩ := List.exists_cons_of_ne_nil hne
  have hl := (h l List.mem_cons_self).1
  by_cases hls : ls = []
  · subst hls
    rwa [join_singleton]
  · rw [join_cons l hls]
    simp

variable [DecidableEq α]

theorem splitOn_join (h : Proper sep ls) (hne : ls ≠ []) : (join sep ls).splitOn sep = ls :=
  List.splitOn_intercalate sep (fun l hl => (h l hl).2) hne

theorem notMem_of_mem_splitOn {r l : List α} (h : l ∈ r.splitOn sep) : sep ∉ l := by
  induction r generalizing l with
  | nil =>
    obtain rfl := List.mem_singleton.mp h
    exact List.not_mem_nil
  | cons a r ih =>
    rw [List.splitOn_cons_eq_if_modifyHead] at h
    split at h
    · rcases List.mem_cons.mp h with rfl | h
      · exact List.not_mem_nil
      · exact ih h
    · rename_i ha
      obtain ⟨m, ms, hms⟩ := List.exists_cons_of_ne_nil (List.splitOn_ne_nil sep r)
      rw [hms, List.modifyHead_cons] at h
      rcases List.mem_cons.mp h with rfl | h
      · have hm := ih (hms ▸ List.mem_cons_self)
        simp only [List.mem_cons, not_or]
        exact ⟨fun he => ha (by simp [he]), hm⟩
      · exact ih (hms ▸ List.mem_cons_of_mem _ h)

theorem join_injOn (hl : Proper sep ls) (hm : Proper sep ms) (hlne : ls ≠ []) (hmne : ms ≠ [])
    (h : join sep ls = join sep ms) : ls = ms := by
  rw [← splitOn_join hl hlne, h, splitOn_join hm hmne]

end Labels
