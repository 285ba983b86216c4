import Mathlib.Algebra.Group.Int.Defs
import Mathlib.Algebra.Group.Nat.Defs
import Mathlib.Data.Set.Insert
import Mathlib.Data.List.Induction

/-!
# Sliding bit windows

A word of `w` bits below a moving edge `next` records which of the last `w`
numbers were seen: bit `i` stands for the number `next - 1 - i`. `Tracks` is
that reading. Advancing the edge shifts the word, marking sets one bit, and the
word agrees with the set of numbers seen at every step.
-/

namespace Window

/-- Bit `i` of `m` says whether the number `next - 1 - i` is in `seen`. -/
def Tracks {w : Nat} (m : BitVec w) (next : Nat) (seen : Set Nat) : Prop :=
  ∀ i < w, m.getLsbD i = true ↔ ∃ n, n + i + 1 = next ∧ n ∈ seen

/-- The number expected after the numbers `l`: one above their maximum. -/
def edge (l : List Nat) : Nat :=
  l.foldl (fun m n => max m (n + 1)) 0

theorem edge_append_singleton (l : List Nat) (n : Nat) : edge (l ++ [n]) = max (edge l) (n + 1) := by
  simp [edge, List.foldl_append]

theorem lt_edge {l : List Nat} {n : Nat} (h : n ∈ l) : n < edge l := by
  induction l using List.reverseRecOn with
  | nil => cases h
  | append_singleton l a ih =>
    rw [edge_append_singleton]
    rcases List.mem_append.mp h with h | h
    · have := ih h
      omega
    · simp only [List.mem_singleton] at h
      omega

section
variable {w : Nat} {m : BitVec w} {next : Nat} {seen : Set Nat}

theorem tracks_zero (next : Nat) : Tracks (0#w) next ∅ := by
  intro i _
  simp

variable {n : Nat}

theorem Tracks.shift (h : Tracks m next seen) (hs : ∀ n ∈ seen, n < next) (hn : next ≤ n) (hw : n - next + 1 < w) :
    Tracks (m <<< (n - next + 1) ||| BitVec.twoPow w 0) (n + 1) (insert n seen) := by
  intro i hi
  simp only [BitVec.getLsbD_or, BitVec.getLsbD_shiftLeft, BitVec.getLsbD_twoPow, hi, decide_true,
    Bool.true_and, Bool.or_eq_true, Bool.and_eq_true, Bool.not_eq_true', decide_eq_false_iff_not,
    Nat.not_lt, decide_eq_true_eq, Set.mem_insert_iff]
  constructor
  · rintro (⟨hle, hb⟩ | ⟨-, h0⟩)
    · obtain ⟨k, hk, hks⟩ := (h _ (by omega)).mp hb
      exact ⟨k, by omega, Or.inr hks⟩
    · exact ⟨n, by omega, Or.inl rfl⟩
  · rintro ⟨k, hk, rfl | hks⟩
    · exact Or.inr ⟨by omega, by omega⟩
    · have hlt := hs k hks
      refine Or.inl ⟨by omega, (h _ (by omega)).mpr ⟨k, by omega, hks⟩⟩

theorem tracks_jump (hs : ∀ n ∈ seen, n < next) (hn : next ≤ n) (hw : w ≤ n - next + 1) :
    Tracks (BitVec.twoPow w 0) (n + 1) (insert n seen) := by
  intro i hi
  simp only [BitVec.getLsbD_twoPow, Bool.and_eq_true, decide_eq_true_eq, Set.mem_insert_iff]
  constructor
  · rintro ⟨-, h0⟩
    exact ⟨n, by omega, Or.inl rfl⟩
  · rintro ⟨k, hk, rfl | hks⟩
    · exact ⟨by omega, by omega⟩
    · have := hs k hks
      omega

theorem Tracks.mark (h : Tracks m next seen) (hn : n < next) :
    Tracks (m ||| BitVec.twoPow w (next - n - 1)) next (insert n seen) := by
  intro i hi
  simp only [BitVec.getLsbD_or, BitVec.getLsbD_twoPow, Bool.or_eq_true, Bool.and_eq_true,
    decide_eq_true_eq, h i hi, Set.mem_insert_iff]
  constructor
  · rintro (⟨k, hk, hks⟩ | ⟨-, h0⟩)
    · exact ⟨k, hk, Or.inr hks⟩
    · exact ⟨n, by omega, Or.inl rfl⟩
  · rintro ⟨k, hk, rfl | hks⟩
    · exact Or.inr ⟨by omega, by omega⟩
    · exact Or.inl ⟨k, hk, hks⟩

theorem Tracks.insert_below (h : Tracks m next seen) (hn : n + w < next) : Tracks m next (insert n seen) := by
  intro i hi
  rw [h i hi]
  constructor
  · rintro ⟨k, hk, hks⟩
    exact ⟨k, hk, Or.inr hks⟩
  · rintro ⟨k, hk, rfl | hks⟩
    · omega
    · exact ⟨k, hk, hks⟩

theorem Tracks.test (h : Tracks m next seen) (hn : n < next) (hw : next - n ≤ w) :
    m &&& BitVec.twoPow w (next - n - 1) ≠ 0#w ↔ n ∈ seen := by
  have hbit := h (next - n - 1) (by omega)
  have hone : m.getLsbD (next - n - 1) = true ↔ n ∈ seen := by
    rw [hbit]
    constructor
    · rintro ⟨k, hk, hks⟩
      have : k = n := by omega
      exact this ▸ hks
    · intro hs
      exact ⟨n, by omega, hs⟩
  rw [← hone, BitVec.and_twoPow]
  cases m.getLsbD (next - n - 1) with
  | false => simp
  | true =>
    simp only [ite_true, ne_eq, iff_true]
    intro hz
    have := congrArg (fun v => BitVec.getLsbD v (next - n - 1)) hz
    simp [BitVec.getLsbD_twoPow] at this
    omega

end

end Window
