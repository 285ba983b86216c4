import Mathlib.Data.List.Basic

/-!
# Matching with stars by falling back to the latest one

A pattern is a list of tokens: a star stands for any list, every other token for one
item. The matcher walks along pattern and text; on a mismatch it goes back to the
latest star, which takes one more item. No star before the latest one is tried again,
and no match is lost by that: the items after an earlier star can be given to the
latest one.
-/

namespace StarMatch

variable {τ α : Type} (isStar : τ → Bool) (ok : τ → α → Bool)

/-! ## Patterns -/

/-- What one token stands for. -/
def Stands (t : τ) (piece : List α) : Prop := isStar t = true ∨ ∃ a, piece = [a] ∧ ok t a = true

/-- The text is split into what the tokens stand for. -/
def Matches (ts : List τ) (ns : List α) : Prop :=
  ∃ pieces : List (List α), ns = pieces.flatten ∧ List.Forall₂ (Stands isStar ok) ts pieces

section
variable {isStar ok} {t : τ} {ts : List τ} {ns : List α}

theorem matches_nil_left : Matches isStar ok [] ns ↔ ns = [] := by
  constructor
  · rintro ⟨pieces, rfl, h⟩
    cases h
    rfl
  · rintro rfl
    exact ⟨[], rfl, .nil⟩

theorem matches_star (ht : isStar t = true) :
    Matches isStar ok (t :: ts) ns ↔ ∃ rest, rest <:+ ns ∧ Matches isStar ok ts rest := by
  constructor
  · rintro ⟨pieces, rfl, h⟩
    cases h with
    | cons _ hrest => exact ⟨_, ⟨_, rfl⟩, _, rfl, hrest⟩
  · rintro ⟨rest, ⟨skipped, rfl⟩, pieces, rfl, h⟩
    exact ⟨skipped :: pieces, rfl, .cons (.inl ht) h⟩

theorem matches_one (ht : isStar t = false) :
    Matches isStar ok (t :: ts) ns ↔ ∃ a rest, ns = a :: rest ∧ ok t a = true ∧ Matches isStar ok ts rest := by
  constructor
  · rintro ⟨pieces, rfl, h⟩
    cases h with
    | cons hfirst hrest =>
      rcases hfirst with hstar | ⟨a, rfl, ha⟩
      · rw [ht] at hstar
        cases hstar
      · exact ⟨a, _, rfl, ha, _, rfl, hrest⟩
  · rintro ⟨a, rest, rfl, ha, pieces, rfl, h⟩
    exact ⟨[a] :: pieces, rfl, .cons (.inr ⟨a, rfl, ha⟩) h⟩

theorem matches_nil_right : Matches isStar ok ts [] ↔ ts.all isStar = true := by
  induction ts with
  | nil => exact iff_of_true (matches_nil_left.mpr rfl) rfl
  | cons t ts ih =>
    rw [List.all_cons, Bool.and_eq_true]
    cases ht : isStar t with
    | true =>
      rw [matches_star ht, ← ih]
      constructor
      · rintro ⟨rest, hrest, h⟩
        rw [List.suffix_nil.mp hrest] at h
        exact ⟨rfl, h⟩
      · rintro ⟨-, h⟩
        exact ⟨[], List.suffix_refl [], h⟩
    | false =>
      rw [matches_one ht]
      constructor
      · rintro ⟨a, rest, h, -⟩
        cases h
      · rintro ⟨h, -⟩
        cases h

theorem exists_of_ones {mid : List τ} (hmid : ∀ t ∈ mid, isStar t = false) (h : Matches isStar ok (mid ++ ts) ns) :
    ∃ used rest, ns = used ++ rest ∧ used.length = mid.length ∧ Matches isStar ok ts rest := by
  induction mid generalizing ns with
  | nil => exact ⟨[], ns, rfl, rfl, h⟩
  | cons t mid ih =>
    obtain ⟨ht, hmid⟩ := List.forall_mem_cons.mp hmid
    obtain ⟨a, rest, rfl, -, h⟩ := (matches_one ht).mp h
    obtain ⟨used, rest, rfl, hlen, h⟩ := ih hmid h
    exact ⟨a :: used, rest, rfl, congrArg (· + 1) hlen, h⟩

end

/-! ## The walk -/

/-- What is left of pattern and text, and of both at the latest star, behind it. -/
structure Cursor (τ α : Type) where
  ts : List τ
  ns : List α
  star : Option (List τ × List α)

def fallBack : Option (List τ × List α) → Bool ⊕ Cursor τ α
  | some (st, sn) => .inr ⟨st, sn.tail, some (st, sn.tail)⟩
  | none => .inl false

def step (s : Cursor τ α) : Bool ⊕ Cursor τ α :=
  match s.ns, s.ts with
  | [], ts => .inl (ts.all isStar)
  | a :: ns, t :: ts =>
    if isStar t then .inr ⟨ts, a :: ns, some (ts, a :: ns)⟩
    else if ok t a then .inr ⟨ts, ns, s.star⟩
    else fallBack s.star
  | _ :: _, [] => fallBack s.star

/-- Since the latest star only tokens for one item were passed. -/
def Held (s : Cursor τ α) : Prop :=
  ∀ st sn, s.star = some (st, sn) → ∃ (mid : List τ) (used : List α), st = mid ++ s.ts ∧ sn = used ++ s.ns ∧
    mid.length = used.length ∧ ∀ t ∈ mid, isStar t = false

/-- The walk will find a match, from here or from a later end of the latest star. -/
def Promising (s : Cursor τ α) : Prop :=
  Matches isStar ok s.ts s.ns ∨
    ∃ st sn rest, s.star = some (st, sn) ∧ rest <:+ sn.tail ∧ Matches isStar ok st rest

def size (s : Cursor τ α) : Nat × Nat × Nat :=
  match s.star with
  | none => (s.ts.length + 1, 0, 0)
  | some (st, sn) => (st.length, sn.length, s.ts.length)

inductive Moves (s : Cursor τ α) : Bool ⊕ Cursor τ α → Prop
  | finish (hns : s.ns = []) : Moves s (.inl (s.ts.all isStar))
  | star {t : τ} {ts : List τ} (hts : s.ts = t :: ts) (hns : s.ns ≠ []) (ht : isStar t = true) :
      Moves s (.inr ⟨ts, s.ns, some (ts, s.ns)⟩)
  | one {t : τ} {ts : List τ} {a : α} {ns : List α} (hts : s.ts = t :: ts) (hns : s.ns = a :: ns)
      (ht : isStar t = false) (ha : ok t a = true) : Moves s (.inr ⟨ts, ns, s.star⟩)
  | back {st : List τ} {sn : List α} (hns : s.ns ≠ []) (hno : ¬ Matches isStar ok s.ts s.ns)
      (hstar : s.star = some (st, sn)) : Moves s (.inr ⟨st, sn.tail, some (st, sn.tail)⟩)
  | fail (hno : ¬ Matches isStar ok s.ts s.ns) (hstar : s.star = none) : Moves s (.inl false)

section
variable {isStar ok} {s s' : Cursor τ α}

theorem moves_fallBack (hns : s.ns ≠ []) (hno : ¬ Matches isStar ok s.ts s.ns) :
    Moves isStar ok s (fallBack s.star) := by
  cases hstar : s.star with
  | none => exact .fail hno hstar
  | some star => exact .back hns hno hstar

variable (isStar ok) in
theorem moves_step (s : Cursor τ α) : Moves isStar ok s (step isStar ok s) := by
  unfold step
  split
  case h_1 hns => exact .finish hns
  case h_2 a ns t ts hns hts =>
    split
    case isTrue ht =>
      rw [← hns]
      exact .star hts (by rw [hns]; exact List.cons_ne_nil _ _) ht
    case isFalse ht =>
      rw [Bool.not_eq_true] at ht
      split
      case isTrue ha => exact .one hts hns ht ha
      case isFalse ha =>
        refine moves_fallBack (by rw [hns]; exact List.cons_ne_nil _ _) ?_
        rw [hts, hns, matches_one ht]
        rintro ⟨b, rest, h, hb, -⟩
        cases h
        exact ha hb
  case h_3 a ns hns hts =>
    refine moves_fallBack (by rw [hns]; exact List.cons_ne_nil _ _) ?_
    rw [hts, hns, matches_nil_left]
    exact List.cons_ne_nil _ _

theorem Moves.held (hmove : Moves isStar ok s (.inr s')) (h : Held isStar s) : Held isStar s' := by
  cases hmove with
  | star hts hns ht =>
    rintro st sn hstar
    cases hstar
    exact ⟨[], [], rfl, rfl, rfl, fun t ht => absurd ht List.not_mem_nil⟩
  | @one t ts a ns hts hns ht ha =>
    rintro st sn hstar
    obtain ⟨mid, used, rfl, rfl, hlen, hmid⟩ := h st sn hstar
    refine ⟨mid ++ [t], used ++ [a], ?_, ?_, ?_, ?_⟩
    · rw [hts, List.append_assoc]
      rfl
    · rw [hns, List.append_assoc]
      rfl
    · rw [List.length_append, List.length_append, hlen]
      rfl
    · intro u hu
      rcases List.mem_append.mp hu with hu | hu
      · exact hmid u hu
      · rwa [List.mem_singleton.mp hu]
  | back hns hno hstar =>
    rintro st sn hstar
    cases hstar
    exact ⟨[], [], rfl, rfl, rfl, fun t ht => absurd ht List.not_mem_nil⟩

theorem Moves.size_lt (hmove : Moves isStar ok s (.inr s')) (h : Held isStar s) :
    Prod.Lex (· < ·) (Prod.Lex (· < ·) (· < ·)) (size s') (size s) := by
  cases hmove with
  | star hts hns ht =>
    rw [size, size]
    cases hstar : s.star with
    | none =>
      rw [hts]
      exact .left _ _ (Nat.lt_succ_of_lt (Nat.lt_succ_self _))
    | some star =>
      obtain ⟨mid, used, hst, -⟩ := h star.1 star.2 hstar
      refine .left _ _ ?_
      rw [hst, List.length_append, hts, List.length_cons]
      omega
  | one hts hns ht ha =>
    rw [size, size]
    cases hstar : s.star with
    | none =>
      rw [hts]
      exact .left _ _ (Nat.lt_succ_self _)
    | some star =>
      rw [hts]
      exact .right _ (.right _ (Nat.lt_succ_self _))
  | back hns hno hstar =>
    obtain ⟨mid, used, -, hsn, -⟩ := h _ _ hstar
    rw [size, size, hstar]
    refine .right _ (.left _ _ ?_)
    have hpos := List.length_pos_of_ne_nil hns
    rw [List.length_tail, hsn, List.length_append]
    omega

theorem later_suffix {st : List τ} {sn rest : List α} (h : Held isStar s) (hstar : s.star = some (st, sn))
    (hrest : rest <:+ sn.tail) (hmatch : Matches isStar ok st rest) :
    ∃ later, later <:+ s.ns ∧ Matches isStar ok s.ts later := by
  obtain ⟨mid, used, rfl, rfl, hlen, hmid⟩ := h st sn hstar
  obtain ⟨used', later, rfl, hlen', hlater⟩ := exists_of_ones hmid hmatch
  have hlong := hrest.length_le
  rw [List.length_append, List.length_tail, List.length_append] at hlong
  refine ⟨later, ?_, hlater⟩
  exact List.suffix_of_suffix_length_le
    ((List.suffix_append used' later).trans (hrest.trans (List.tail_suffix _))) (List.suffix_append used s.ns) (by omega)

theorem suffix_iff_tail {rest l : List α} : rest <:+ l ↔ rest = l ∨ rest <:+ l.tail := by
  cases l with
  | nil => simp
  | cons a l => exact List.suffix_cons_iff

theorem promising_at_star {ts : List τ} {ns : List α} :
    Promising isStar ok ⟨ts, ns, some (ts, ns)⟩ ↔ ∃ rest, rest <:+ ns ∧ Matches isStar ok ts rest := by
  constructor
  · rintro (h | ⟨st, sn, rest, hstar, hrest, h⟩)
    · exact ⟨ns, List.suffix_refl ns, h⟩
    · cases hstar
      exact ⟨rest, suffix_iff_tail.mpr (.inr hrest), h⟩
  · rintro ⟨rest, hrest, h⟩
    rcases suffix_iff_tail.mp hrest with rfl | hrest
    · exact .inl h
    · exact .inr ⟨ts, ns, rest, rfl, hrest, h⟩

theorem Moves.promising (hmove : Moves isStar ok s (.inr s')) (h : Held isStar s) :
    Promising isStar ok s' ↔ Promising isStar ok s := by
  cases hmove with
  | star hts hns ht =>
    rw [promising_at_star, ← matches_star ht, ← hts]
    refine ⟨.inl, ?_⟩
    rintro (hmatch | ⟨st, sn, rest, hstar, hrest, hmatch⟩)
    · exact hmatch
    · obtain ⟨later, hlater, hmatch⟩ := later_suffix h hstar hrest hmatch
      rw [hts, matches_star ht] at hmatch ⊢
      obtain ⟨rest, hrest, hmatch⟩ := hmatch
      exact ⟨rest, hrest.trans hlater, hmatch⟩
  | @one t ts a ns hts hns ht ha =>
    have hstep : Matches isStar ok s.ts s.ns ↔ Matches isStar ok ts ns := by
      rw [hts, hns, matches_one ht]
      constructor
      · rintro ⟨b, rest, hcons, -, hmatch⟩
        cases hcons
        exact hmatch
      · exact fun hmatch => ⟨a, ns, rfl, ha, hmatch⟩
    rw [Promising, Promising, hstep]
  | back hns hno hstar =>
    rw [promising_at_star]
    constructor
    · rintro ⟨rest, hrest, hmatch⟩
      exact .inr ⟨_, _, rest, hstar, hrest, hmatch⟩
    · rintro (hmatch | ⟨st, sn, rest, hstar', hrest, hmatch⟩)
      · exact absurd hmatch hno
      · cases hstar.symm.trans hstar'
        exact ⟨rest, hrest, hmatch⟩

theorem Moves.answer {b : Bool} (hmove : Moves isStar ok s (.inl b)) (h : Held isStar s) :
    b = true ↔ Promising isStar ok s := by
  cases hmove with
  | finish hns =>
    have hnil : Matches isStar ok s.ts [] ↔ s.ts.all isStar = true := matches_nil_right
    rw [← hnil, ← hns]
    refine ⟨.inl, ?_⟩
    rintro (hmatch | ⟨st, sn, rest, hstar, hrest, hmatch⟩)
    · exact hmatch
    · obtain ⟨later, hlater, hmatch⟩ := later_suffix h hstar hrest hmatch
      rw [hns] at hlater ⊢
      rwa [List.suffix_nil.mp hlater] at hmatch
  | fail hno hstar =>
    refine ⟨fun h => Bool.noConfusion h, ?_⟩
    rintro (hmatch | ⟨st, sn, rest, hstar', -⟩)
    · exact absurd hmatch hno
    · cases hstar.symm.trans hstar'

end

def run (s : Cursor τ α) (h : Held isStar s) : Bool :=
  match hstep : step isStar ok s with
  | .inl b => b
  | .inr s' => run s' ((hstep ▸ moves_step isStar ok s).held h)
termination_by size s
decreasing_by exact (hstep ▸ moves_step isStar ok s).size_lt h

def start (ts : List τ) (ns : List α) : Cursor τ α := ⟨ts, ns, none⟩

theorem held_start (ts : List τ) (ns : List α) : Held isStar (start ts ns) := by
  intro st sn h
  cases h

def search (ts : List τ) (ns : List α) : Bool := run isStar ok (start ts ns) (held_start isStar ts ns)

theorem run_iff (s : Cursor τ α) (h : Held isStar s) : run isStar ok s h = true ↔ Promising isStar ok s := by
  fun_induction run isStar ok s h with
  | case1 s h b hstep => exact (hstep ▸ moves_step isStar ok s).answer h
  | case2 s h s' hstep ih => exact ih.trans ((hstep ▸ moves_step isStar ok s).promising h)

theorem search_iff (ts : List τ) (ns : List α) : search isStar ok ts ns = true ↔ Matches isStar ok ts ns := by
  rw [search, run_iff, Promising]
  refine or_iff_left ?_
  rintro ⟨st, sn, rest, hstar, -⟩
  cases hstar

end StarMatch
