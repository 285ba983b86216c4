import Mathlib.Algebra.BigOperators.Group.List.Basic
import Mathlib.Algebra.Order.BigOperators.Group.List
import Mathlib.Data.List.Rotate
import Mathlib.Data.Nat.Digits.Defs
import Mathlib.Data.Nat.ModEq

/-!
# Numbers with large digits

A number written to base `r`, the most significant digit first; a digit may be `r` or
more. Such digits are settled by carrying around the end, from the first digit to the
last: that keeps the number modulo `r ^ n - 1` where there are `n` digits, and it does
not go on for ever.
-/

namespace Positional

def value (r : Nat) (ds : List Nat) : Nat := Nat.ofDigits r ds.reverse

section
variable (r : Nat)

@[simp] theorem value_nil : value r [] = 0 := rfl

@[simp] theorem value_cons (d : Nat) (ds : List Nat) : value r (d :: ds) = d * r ^ ds.length + value r ds := by
  rw [value, List.reverse_cons, Nat.ofDigits_append, Nat.ofDigits_singleton, List.length_reverse, value]
  ring

theorem value_append (as bs : List Nat) : value r (as ++ bs) = value r as * r ^ bs.length + value r bs := by
  rw [value, List.reverse_append, Nat.ofDigits_append, List.length_reverse, value, value]
  ring

theorem value_zipWith_add {as bs : List Nat} (h : as.length = bs.length) :
    value r (List.zipWith (· + ·) as bs) = value r as + value r bs := by
  rw [value, List.reverse_zipWith h]
  exact (Nat.ofDigits_add_ofDigits_eq_ofDigits_zipWith_of_length_eq (by simpa using h)).symm

theorem value_replicate_zero (n : Nat) : value r (List.replicate n 0) = 0 := by
  rw [value, List.reverse_replicate, Nat.ofDigits_replicate_zero]

theorem value_div_mod (ds : List Nat) : r * value r (ds.map (· / r)) + value r (ds.map (· % r)) = value r ds := by
  induction ds with
  | nil => rfl
  | cons d ds ih =>
    have hd : d * r ^ ds.length = (r * (d / r) + d % r) * r ^ ds.length := by rw [Nat.div_add_mod]
    rw [List.map_cons, List.map_cons, value_cons, value_cons, value_cons, List.length_map, List.length_map, ← ih, hd]
    ring

variable {r}

theorem value_rotate_one (hr : 0 < r) (ds : List Nat) :
    value r (ds.rotate 1) ≡ r * value r ds [MOD r ^ ds.length - 1] := by
  cases ds with
  | nil => rfl
  | cons d ds =>
    obtain ⟨k, hk⟩ : ∃ k, r ^ (ds.length + 1) = k + 1 :=
      Nat.exists_eq_succ_of_ne_zero (Nat.pow_pos hr).ne'
    have hturn : r * value r (d :: ds) = value r ((d :: ds).rotate 1) + d * (r ^ (d :: ds).length - 1) := by
      rw [List.rotate_cons_succ, List.rotate_zero, value_append,
        show (d :: ds).length = ds.length + 1 from rfl, hk, Nat.add_sub_cancel]
      calc r * value r (d :: ds) = d * r ^ (ds.length + 1) + r * value r ds := by rw [value_cons]; ring
        _ = d * (k + 1) + r * value r ds := by rw [hk]
        _ = _ := by simp; ring
    rw [hturn]
    exact (Nat.add_mul_mod_self_right ..).symm

end

/-! ## Carrying around the end -/

def carry (r : Nat) (ds : List Nat) : List Nat := List.zipWith (fun next d => next / r + d % r) (ds.rotate 1) ds

theorem carry_eq (r : Nat) (ds : List Nat) :
    carry r ds = List.zipWith (· + ·) ((ds.map (· / r)).rotate 1) (ds.map (· % r)) := by
  rw [carry, ← List.map_rotate, List.zipWith_map]

theorem carry_length (r : Nat) (ds : List Nat) : (carry r ds).length = ds.length := by
  rw [carry, List.length_zipWith, List.length_rotate, Nat.min_self]

variable {r : Nat}

theorem value_carry (hr : 0 < r) (ds : List Nat) : value r (carry r ds) ≡ value r ds [MOD r ^ ds.length - 1] := by
  rw [carry_eq, value_zipWith_add r (by simp), ← value_div_mod r ds]
  refine Nat.ModEq.add_right _ ?_
  have hturn := value_rotate_one hr (ds.map (· / r))
  rwa [List.length_map] at hturn

theorem sum_carry (r : Nat) (ds : List Nat) :
    (carry r ds).sum = (ds.map (· / r)).sum + (ds.map (· % r)).sum := by
  rw [carry_eq, ← List.sum_add_sum_eq_sum_zipWith_of_length_eq _ _ (by simp), (List.rotate_perm _ 1).sum_eq]

theorem sum_div_mod (r : Nat) (ds : List Nat) : r * (ds.map (· / r)).sum + (ds.map (· % r)).sum = ds.sum := by
  induction ds with
  | nil => rfl
  | cons d ds ih =>
    have hd := Nat.div_add_mod d r
    simp only [List.map_cons, List.sum_cons, Nat.mul_add]
    omega

variable {ds : List Nat}

theorem sum_carry_lt (hr : 2 ≤ r) {d : Nat} (hd : d ∈ ds) (hlarge : r ≤ d) : (carry r ds).sum < ds.sum := by
  have hdiv : d / r ≤ (ds.map (· / r)).sum := List.le_sum_of_mem (List.mem_map_of_mem hd)
  have hone := (Nat.one_le_div_iff (by omega)).mpr hlarge
  have htwice : 2 * (ds.map (· / r)).sum ≤ r * (ds.map (· / r)).sum := Nat.mul_le_mul_right _ hr
  have hsum := sum_div_mod r ds
  rw [sum_carry]
  omega

theorem sum_eq_zero_of_carry (h : (carry r ds).sum = 0) : ds.sum = 0 := by
  rw [sum_carry] at h
  have hsum := sum_div_mod r ds
  rw [show (ds.map (· / r)).sum = 0 by omega] at hsum
  omega

theorem value_eq_zero_iff (hr : 0 < r) (ds : List Nat) : value r ds = 0 ↔ ds.sum = 0 := by
  induction ds with
  | nil => exact iff_of_true rfl rfl
  | cons d ds ih =>
    have hpow : r ^ ds.length ≠ 0 := (Nat.pow_pos hr).ne'
    rw [value_cons, List.sum_cons, Nat.add_eq_zero_iff, Nat.add_eq_zero_iff, Nat.mul_eq_zero, or_iff_left hpow, ih]

end Positional
