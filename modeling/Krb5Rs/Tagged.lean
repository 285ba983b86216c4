import Mathlib.Data.List.Perm.Basic
import Mathlib.Data.List.Count

/-!
# Lists of tagged values

A list of values each under a tag, where a tag may occur more than once. What
is at a tag is the list `at` of its values in order; the operations are
described by what they do at each tag.
-/

structure Tagged (κ ν : Type) where
  kind : κ
  data : ν
deriving Repr, DecidableEq

namespace Tagged

variable {κ ν : Type} [DecidableEq κ]

def valuesAt (k : κ) (l : List (Tagged κ ν)) : List ν :=
  (l.filter fun t => t.kind = k).map (·.data)

def find (k : κ) (l : List (Tagged κ ν)) : Option ν :=
  (l.find? fun t => t.kind = k).map (·.data)

def update (k : κ) (d : ν) (l : List (Tagged κ ν)) : List (Tagged κ ν) :=
  if k ∈ l.map (·.kind) then replaceFirst l else ⟨k, d⟩ :: l
where
  replaceFirst : List (Tagged κ ν) → List (Tagged κ ν)
    | [] => []
    | t :: l => if t.kind = k then ⟨k, d⟩ :: l else t :: replaceFirst l

def put (k : κ) (d : Option ν) (l : List (Tagged κ ν)) : List (Tagged κ ν) :=
  let rest := l.filter fun t => t.kind ≠ k
  match d with
  | none => rest
  | some d =>
    match l.findIdx? fun t => t.kind = k with
    | some i => rest.insertIdx (min i rest.length) ⟨k, d⟩
    | none => rest ++ [⟨k, d⟩]

@[simp] theorem valuesAt_nil (k : κ) : valuesAt k ([] : List (Tagged κ ν)) = [] := rfl

theorem valuesAt_cons (k : κ) (t : Tagged κ ν) (l : List (Tagged κ ν)) :
    valuesAt k (t :: l) = if t.kind = k then t.data :: valuesAt k l else valuesAt k l := by
  unfold valuesAt
  by_cases h : t.kind = k <;> simp [h]

theorem valuesAt_append (k : κ) (l m : List (Tagged κ ν)) : valuesAt k (l ++ m) = valuesAt k l ++ valuesAt k m := by
  simp [valuesAt]

theorem find_eq_head? (k : κ) (l : List (Tagged κ ν)) : find k l = (valuesAt k l).head? := by
  induction l with
  | nil => rfl
  | cons t l ih =>
    rw [valuesAt_cons]
    by_cases h : t.kind = k
    · simp [find, h]
    · simpa [find, h] using ih

variable {k : κ} {l : List (Tagged κ ν)}

theorem valuesAt_eq_nil : valuesAt k l = [] ↔ k ∉ l.map (·.kind) := by
  simp [valuesAt]

/-! ## At one tag -/

theorem valuesAt_replaceFirst (k k' : κ) (d : ν) (l : List (Tagged κ ν)) (h : k ∈ l.map (·.kind)) :
    valuesAt k' (update.replaceFirst k d l) =
      if k' = k then d :: (valuesAt k l).tail else valuesAt k' l := by
  induction l with
  | nil => simp at h
  | cons t l ih =>
    simp only [update.replaceFirst]
    by_cases ht : t.kind = k
    · rw [if_pos ht]
      by_cases hk : k' = k
      · subst hk; simp [valuesAt_cons, ht]
      · simp [valuesAt_cons, ht, hk, Ne.symm hk]
    · rw [if_neg ht, valuesAt_cons, ih (by simpa [Ne.symm ht] using h)]
      by_cases hk : k' = k
      · subst hk; simp [valuesAt_cons, ht]
      · simp [valuesAt_cons, hk]

theorem valuesAt_update_self (k : κ) (d : ν) (l : List (Tagged κ ν)) :
    valuesAt k (update k d l) = d :: (valuesAt k l).tail := by
  unfold update
  by_cases h : k ∈ l.map (·.kind)
  · rw [if_pos h, valuesAt_replaceFirst k k d l h, if_pos rfl]
  · rw [if_neg h, valuesAt_cons, valuesAt_eq_nil.mpr h]
    simp

theorem valuesAt_update_ne {k' : κ} (hk : k' ≠ k) (d : ν) (l : List (Tagged κ ν)) :
    valuesAt k' (update k d l) = valuesAt k' l := by
  unfold update
  by_cases h : k ∈ l.map (·.kind)
  · rw [if_pos h, valuesAt_replaceFirst k k' d l h, if_neg hk]
  · rw [if_neg h, valuesAt_cons, if_neg (Ne.symm hk)]

theorem valuesAt_filter_kind (p : κ → Bool) (k : κ) (l : List (Tagged κ ν)) :
    valuesAt k (l.filter fun t => p t.kind) = if p k then valuesAt k l else [] := by
  induction l with
  | nil => simp
  | cons t l ih =>
    by_cases ht : t.kind = k
    · subst ht
      by_cases hp : p t.kind = true
      · simp [hp, valuesAt_cons] at ih ⊢; exact ih
      · simp [hp] at ih ⊢; exact ih
    · by_cases hp : p t.kind = true
      · simp [hp, valuesAt_cons, ht, ih]
      · simp [hp, valuesAt_cons, ht, ih]

theorem valuesAt_eraseP (k k' : κ) (l : List (Tagged κ ν)) :
    valuesAt k (l.eraseP fun t => t.kind = k') = if k = k' then (valuesAt k l).tail else valuesAt k l := by
  induction l with
  | nil => split <;> rfl
  | cons t l ih =>
    by_cases ht : t.kind = k'
    · rw [List.eraseP_cons_of_pos (by simpa using ht), valuesAt_cons]
      by_cases hk : k = k'
      · simp [ht, hk]
      · have hk' : ¬ k' = k := fun h => hk h.symm
        simp [ht, hk, hk']
    · rw [List.eraseP_cons_of_neg (by simpa using ht), valuesAt_cons, valuesAt_cons, ih]
      by_cases hk : k = k'
      · simp [hk, ht]
      · simp [hk]

theorem valuesAt_insertIdx (k : κ) (t : Tagged κ ν) :
    ∀ (l : List (Tagged κ ν)) (i : Nat), i ≤ l.length → (t.kind = k → valuesAt k l = []) →
      valuesAt k (l.insertIdx i t) = if t.kind = k then [t.data] else valuesAt k l := by
  intro l i
  induction i generalizing l with
  | zero =>
    intro _ hnil
    rw [List.insertIdx_zero, valuesAt_cons]
    by_cases ht : t.kind = k
    · simp [ht, hnil ht]
    · simp [ht]
  | succ i ih =>
    intro hi hnil
    cases l with
    | nil => simp at hi
    | cons s l =>
      rw [List.insertIdx_succ_cons, valuesAt_cons, ih l (by simpa using hi)]
      · by_cases hs : s.kind = k
        · have ht : ¬ t.kind = k := fun ht => by simpa [valuesAt_cons, hs] using hnil ht
          simp [hs, ht, valuesAt_cons]
        · simp [hs, valuesAt_cons]
      · intro ht
        have := hnil ht
        rw [valuesAt_cons] at this
        split at this
        · cases this
        · exact this

theorem valuesAt_put (k k' : κ) (d : Option ν) (l : List (Tagged κ ν)) :
    valuesAt k' (put k d l) = if k' = k then d.toList else valuesAt k' l := by
  have hrest : valuesAt k' (l.filter fun t => t.kind ≠ k) = if k' = k then [] else valuesAt k' l := by
    have := valuesAt_filter_kind (fun kind => decide (kind ≠ k)) k' l
    rw [this]
    by_cases h : k' = k <;> simp [h]
  unfold put
  cases d with
  | none => simpa using hrest
  | some d =>
    simp only []
    split
    · rw [valuesAt_insertIdx k' ⟨k, d⟩ _ _ (Nat.min_le_right ..)]
      · rw [hrest]
        by_cases h : k' = k
        · simp [h]
        · simp [h, Ne.symm h]
      · intro h
        rw [hrest, if_pos h.symm]
    · rw [valuesAt_append, hrest, valuesAt_cons]
      by_cases h : k' = k
      · simp [h]
      · simp [h, Ne.symm h]

theorem find_put_self (k : κ) (d : Option ν) (l : List (Tagged κ ν)) : find k (put k d l) = d := by
  rw [find_eq_head?, valuesAt_put, if_pos rfl]
  cases d <;> rfl

/-! ## What `put` leaves -/

theorem filter_insertIdx {α : Type} (p : α → Bool) {a : α} (h : p a = false) (l : List α) (i : Nat) :
    (l.insertIdx i a).filter p = l.filter p := by
  induction l generalizing i with
  | nil => cases i <;> simp [h]
  | cons b l ih =>
    cases i with
    | zero => rw [List.insertIdx_zero, List.filter_cons_of_neg (by simp [h])]
    | succ i => rw [List.insertIdx_succ_cons, List.filter_cons, List.filter_cons, ih]

theorem filter_put (p : κ → Bool) (h : p k = false) (d : Option ν) (l : List (Tagged κ ν)) :
    (put k d l).filter (fun t => p t.kind) = l.filter fun t => p t.kind := by
  have hrest : (l.filter fun t => t.kind ≠ k).filter (fun t => p t.kind) = l.filter fun t => p t.kind := by
    rw [List.filter_filter]
    apply List.filter_congr
    intro t _
    by_cases ht : t.kind = k
    · simp [ht, h]
    · simp [ht]
  unfold put
  cases d with
  | none => exact hrest
  | some d =>
    dsimp only
    split
    · rw [filter_insertIdx _ (by simpa using h), hrest]
    · rw [List.filter_append, hrest]
      simp [h]

/-! ## Updates one after another -/

def updateAll (ts l : List (Tagged κ ν)) : List (Tagged κ ν) :=
  ts.foldl (fun l t => update t.kind t.data l) l

def overlay (old new : List ν) : List ν :=
  match new.getLast? with
  | none => old
  | some d => d :: old.tail

theorem valuesAt_updateAll (k : κ) (ts : List (Tagged κ ν)) : ∀ l : List (Tagged κ ν),
      valuesAt k (updateAll ts l) = overlay (valuesAt k l) (valuesAt k ts) := by
  induction ts with
  | nil => intro l; rfl
  | cons t ts ih =>
    intro l
    show valuesAt k (updateAll ts (update t.kind t.data l)) = _
    rw [ih, valuesAt_cons]
    by_cases ht : t.kind = k
    · subst ht
      rw [if_pos rfl, valuesAt_update_self]
      simp only [overlay, List.getLast?_cons]
      cases (valuesAt t.kind ts).getLast? <;> simp
    · rw [if_neg ht, valuesAt_update_ne (Ne.symm ht)]

theorem overlay_perm_iff [DecidableEq ν] (old new : List ν) :
    (overlay old new).Perm new ↔ (new = [] → old = []) ∧ new.dropLast.Perm old.tail := by
  cases hn : new.getLast? with
  | none =>
    obtain rfl := List.getLast?_eq_none_iff.mp hn
    cases old with
    | nil => simp [overlay]
    | cons d old => simp [overlay]
  | some d =>
    obtain ⟨init, rfl⟩ := List.getLast?_eq_some_iff.mp hn
    have hperm := List.perm_append_singleton d init
    simp only [overlay, hn, List.dropLast_concat, List.append_eq_nil_iff, List.cons_ne_self, and_false,
      false_implies, true_and]
    constructor
    · intro h
      exact (List.perm_cons d).mp ((h.trans hperm).symm)
    · intro h
      exact ((List.perm_cons d).mpr h.symm).trans hperm.symm

/-! ## Multisets -/

theorem count_eq_count_valuesAt [DecidableEq ν] (t : Tagged κ ν) (l : List (Tagged κ ν)) :
    l.count t = (valuesAt t.kind l).count t.data := by
  induction l with
  | nil => rfl
  | cons s l ih =>
    rw [valuesAt_cons]
    by_cases hs : s.kind = t.kind
    · rw [if_pos hs, List.count_cons, List.count_cons, ih]
      by_cases hd : s.data = t.data
      · have : s = t := by cases s; cases t; simp_all
        simp [this]
      · have : s ≠ t := fun h => hd (congrArg _ h)
        simp [hd, this]
    · have : s ≠ t := fun h => hs (congrArg _ h)
      rw [if_neg hs, List.count_cons_of_ne this, ih]

theorem perm_iff_valuesAt [DecidableEq ν] {m : List (Tagged κ ν)} :
    l.Perm m ↔ ∀ k, (valuesAt k l).Perm (valuesAt k m) := by
  constructor
  · intro h k
    exact (h.filter _).map _
  · intro h
    rw [List.perm_iff_count]
    intro t
    rw [count_eq_count_valuesAt, count_eq_count_valuesAt]
    exact List.perm_iff_count.mp (h t.kind) t.data

end Tagged
