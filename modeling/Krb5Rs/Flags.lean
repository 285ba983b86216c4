import Mathlib.Algebra.Group.Nat.Defs
import Mathlib.Algebra.Group.Int.Defs

/-!
# Sets of flags in a machine word

A word is a set of flags, one a bit. A flag is the word with only its bit set,
so every test of a flag is a test of a bit.
-/

namespace Flags

def bit (i : Nat) : UInt32 := ⟨BitVec.twoPow 32 i⟩

def contains (w m : UInt32) : Bool := w &&& m == m

def intersects (w m : UInt32) : Bool := w &&& m != 0

def remove (w m : UInt32) : UInt32 := w &&& ~~~m

def has (w : UInt32) (i : Nat) : Bool := w.toBitVec.getLsbD i

theorem toBitVec_and_bit (w : UInt32) (i : Nat) :
    (w &&& bit i).toBitVec = if has w i then BitVec.twoPow 32 i else 0#32 := by
  exact BitVec.and_twoPow _ _

variable {i : Nat}

theorem bit_ne_zero (hi : i < 32) : BitVec.twoPow 32 i ≠ 0#32 := by
  intro h
  have := congrArg (fun v => v.getLsbD i) h
  simp [hi] at this

theorem contains_bit (hi : i < 32) (w : UInt32) : contains w (bit i) = has w i := by
  have h := toBitVec_and_bit w i
  unfold contains
  cases hw : has w i with
  | true =>
    rw [hw, if_pos rfl] at h
    exact beq_iff_eq.mpr (UInt32.toBitVec_inj.mp h)
  | false =>
    rw [hw, if_neg Bool.false_ne_true] at h
    rw [beq_eq_false_iff_ne]
    intro heq
    rw [heq] at h
    exact bit_ne_zero hi h

@[simp]
theorem has_bit (i j : Nat) : has (bit i) j = decide (i < 32 ∧ j = i) := by
  unfold has bit
  by_cases h : i = j <;> simp [h, eq_comm]

@[simp]
theorem has_zero (i : Nat) : has 0 i = false := by
  simp [has]

@[simp]
theorem has_or (v w : UInt32) (i : Nat) : has (v ||| w) i = (has v i || has w i) := by
  simp [has]

@[simp]
theorem has_and (v w : UInt32) (i : Nat) : has (v &&& w) i = (has v i && has w i) := by
  simp [has]

@[simp]
theorem has_remove (hi : i < 32) (w m : UInt32) : has (remove w m) i = (has w i && !has m i) := by
  simp [remove, has, hi]

theorem has_not (hi : i < 32) (w : UInt32) : has (~~~w) i = !has w i := by
  simp [has, hi]

theorem has_ite (c : Prop) [Decidable c] (v w : UInt32) (i : Nat) :
    has (if c then v else w) i = if c then has v i else has w i := by
  split <;> rfl

theorem intersects_iff (w m : UInt32) : intersects w m = true ↔ ∃ i, has w i = true ∧ has m i = true := by
  simp only [← Bool.and_eq_true, ← has_and, intersects, bne_iff_ne]
  constructor
  · intro h
    refine Classical.byContradiction fun hc => h (UInt32.toBitVec_inj.mp (BitVec.eq_of_getLsbD_eq fun i _ => ?_))
    have : has (w &&& m) i = false := by
      cases hb : has (w &&& m) i with
      | false => rfl
      | true => exact absurd ⟨i, hb⟩ hc
    simpa [has] using this
  · rintro ⟨i, hi⟩ h
    rw [h] at hi
    simp [has] at hi

theorem intersects_bit (hi : i < 32) (w : UInt32) : intersects w (bit i) = has w i := by
  rw [Bool.eq_iff_iff, intersects_iff]
  simp [hi]

theorem intersects_or (w m n : UInt32) : intersects w (m ||| n) = (intersects w m || intersects w n) := by
  rw [Bool.eq_iff_iff, Bool.or_eq_true]
  simp only [intersects_iff, has_or, Bool.or_eq_true, and_or_left, exists_or]

end Flags
