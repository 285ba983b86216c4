import Mathlib.Data.List.Basic

/-!
# UTF-16

Code units of a list of characters, and their strict decoding: a surrogate
must be the first of a pair or the second.
-/

namespace Utf16

def units (c : Char) : List UInt16 :=
  let n := c.toNat
  if n < 0x10000 then [UInt16.ofNat n]
  else [UInt16.ofNat (0xd800 + (n - 0x10000) / 0x400), UInt16.ofNat (0xdc00 + (n - 0x10000) % 0x400)]

def encode (s : List Char) : List UInt16 := s.flatMap units

def decode : List UInt16 → Option (List Char)
  | [] => some []
  | u :: us =>
    if u.toNat < 0xd800 ∨ 0xe000 ≤ u.toNat then (Char.ofNat u.toNat :: ·) <$> decode us
    else
      match us with
      | [] => none
      | v :: vs =>
        if u.toNat < 0xdc00 ∧ 0xdc00 ≤ v.toNat ∧ v.toNat < 0xe000 then
          (Char.ofNat (0x10000 + (u.toNat - 0xd800) * 0x400 + (v.toNat - 0xdc00)) :: ·) <$> decode vs
        else none

theorem decode_units (c : Char) (us : List UInt16) : decode (units c ++ us) = (c :: ·) <$> decode us := by
  have hvalid : c.toNat < 0xd800 ∨ 0xdfff < c.toNat ∧ c.toNat < 0x110000 := c.valid
  have hc := Char.ofNat_toNat c
  unfold units
  dsimp only
  split
  · rename_i hlt
    have hn := UInt16.toNat_ofNat_of_lt' hlt
    rw [List.singleton_append, decode.eq_def]
    dsimp only
    rw [hn, if_pos (by omega), hc]
  · rename_i hge
    have h1 : (UInt16.ofNat (0xd800 + (c.toNat - 0x10000) / 0x400)).toNat = 0xd800 + (c.toNat - 0x10000) / 0x400 :=
      UInt16.toNat_ofNat_of_lt' (by simp only [UInt16.size]; omega)
    have h2 : (UInt16.ofNat (0xdc00 + (c.toNat - 0x10000) % 0x400)).toNat = 0xdc00 + (c.toNat - 0x10000) % 0x400 :=
      UInt16.toNat_ofNat_of_lt' (by simp only [UInt16.size]; omega)
    have hsum : 0x10000 + (0xd800 + (c.toNat - 0x10000) / 0x400 - 0xd800) * 0x400 +
        (0xdc00 + (c.toNat - 0x10000) % 0x400 - 0xdc00) = c.toNat := by omega
    rw [List.cons_append, List.singleton_append, decode.eq_def]
    dsimp only
    rw [h1, if_neg (by omega), h2, if_pos (by omega), hsum, hc]

theorem decode_encode (s : List Char) : decode (encode s) = some s := by
  induction s with
  | nil => rfl
  | cons c s ih =>
    unfold encode at ih ⊢
    rw [List.flatMap_cons, decode_units, ih]
    rfl

end Utf16
