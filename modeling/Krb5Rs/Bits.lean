import Krb5Rs.Positional
import Krb5Rs.Wire

/-!
# The bits of byte strings

Bytes as bits, the most significant first, and lists turned to the right.
-/

namespace Bits

open Wire (Bytes)
open Positional (value)

def byteBits (b : UInt8) : List Bool := (List.range 8).map fun j => b.toNat.testBit (7 - j)

def bits (data : Bytes) : List Bool := data.flatMap byteBits

def number (bs : List Bool) : Nat := value 2 (bs.map Bool.toNat)

def rotr {α : Type} (k : Nat) (l : List α) : List α := l.rotate (l.length - k % l.length)

variable (b : UInt8)

@[simp] theorem byteBits_length : (byteBits b).length = 8 := rfl

@[simp] theorem bits_nil : bits [] = [] := rfl

theorem bits_cons (data : Bytes) : bits (b :: data) = byteBits b ++ bits data := rfl

theorem bits_append (a b : Bytes) : bits (a ++ b) = bits a ++ bits b := List.flatMap_append

variable (data : Bytes) (n : Nat)

theorem bits_length : (bits data).length = 8 * data.length := by
  induction data with
  | nil => rfl
  | cons b data ih => rw [bits_cons, List.length_append, byteBits_length, ih, List.length_cons]; omega

theorem bits_take : (bits data).take (8 * n) = bits (data.take n) := by
  induction data generalizing n with
  | nil => simp
  | cons b data ih =>
    cases n with
    | zero => simp
    | succ n =>
      rw [List.take_succ_cons, bits_cons, bits_cons, ← ih, List.take_append, byteBits_length,
        List.take_of_length_le (by simp)]
      rfl

theorem bits_drop : (bits data).drop (8 * n) = bits (data.drop n) := by
  induction data generalizing n with
  | nil => simp
  | cons b data ih =>
    cases n with
    | zero => simp
    | succ n =>
      rw [List.drop_succ_cons, bits_cons, ← ih, List.drop_append, byteBits_length, List.drop_of_length_le (by simp),
        List.nil_append]
      rfl

variable {α : Type} (k : Nat)

theorem bits_flatMap (f : α → Bytes) (l : List α) : bits (l.flatMap f) = l.flatMap fun x => bits (f x) := by
  induction l with
  | nil => rfl
  | cons x l ih => rw [List.flatMap_cons, bits_append, ih, List.flatMap_cons]

theorem getElem?_bits (p : Nat) : (bits data)[p]? = data[p / 8]?.map fun b => b.toNat.testBit (7 - p % 8) := by
  induction data generalizing p with
  | nil => simp
  | cons b data ih =>
    rw [bits_cons]
    by_cases hp : p < 8
    · rw [List.getElem?_append_left (by simpa using hp), Nat.div_eq_of_lt hp, byteBits, List.getElem?_map,
        List.getElem?_range hp, Nat.mod_eq_of_lt hp]
      rfl
    · obtain ⟨q, rfl⟩ := Nat.exists_eq_add_of_le (Nat.le_of_not_lt hp)
      rw [List.getElem?_append_right (by simp), byteBits_length, Nat.add_sub_cancel_left, ih,
        show (8 + q) / 8 = q / 8 + 1 by omega, List.getElem?_cons_succ, Nat.add_mod_left]

theorem number_append (as bs : List Bool) : number (as ++ bs) = number as * 2 ^ bs.length + number bs := by
  rw [number, List.map_append, Positional.value_append, List.length_map, number, number]

theorem number_testBits : number ((List.range k).map fun j => n.testBit (k - 1 - j)) = n % 2 ^ k := by
  induction k with
  | zero => simp [number, Nat.mod_one]
  | succ k ih =>
    have htail : ((fun j => n.testBit (k + 1 - 1 - j)) ∘ Nat.succ) = fun j => n.testBit (k - 1 - j) := by
      funext j
      rw [Function.comp_apply]
      congr 1
      omega
    rw [List.range_succ_eq_map, List.map_cons, List.map_map, htail, number, List.map_cons, Positional.value_cons,
      List.length_map, List.length_map, List.length_range, Nat.mod_pow_succ, ← ih, number, Nat.toNat_testBit]
    exact (Nat.add_comm ..).trans (congrArg _ (Nat.mul_comm ..))

theorem number_byteBits : number (byteBits b) = b.toNat :=
  (number_testBits b.toNat 8).trans (Nat.mod_eq_of_lt b.toNat_lt)

theorem number_bits : number (bits data) = value 256 (data.map UInt8.toNat) := by
  induction data with
  | nil => rfl
  | cons b data ih =>
    rw [bits_cons, number_append, number_byteBits, ih, bits_length, List.map_cons, Positional.value_cons, List.length_map,
      Nat.pow_mul]

theorem rotr_length (l : List α) : (rotr k l).length = l.length := List.length_rotate ..

theorem getElem?_rotr {l : List α} {p : Nat} (h : p < l.length) :
    (rotr k l)[p]? = l[(p + l.length - k % l.length) % l.length]? := by
  have hk : k % l.length < l.length := Nat.mod_lt _ (by omega)
  rw [rotr, List.getElem?_rotate h]
  congr 2
  omega

end Bits
