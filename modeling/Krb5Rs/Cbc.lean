import Krb5Rs.Wire

/-!
# Cipher-block chaining

Chaining of an arbitrary block cipher over whole blocks, from an initial block
that each block of the result replaces in turn. What was enciphered from a block is
deciphered from the same one, and the two chains end alike. The last two blocks may
be exchanged and cut to the length of what they hold: `stolen` gets them back.
-/

namespace Cbc

open Wire (Bytes)

/-! ## Sums -/

def xor (a b : Bytes) : Bytes := List.zipWith (· ^^^ ·) a b

@[simp] theorem xor_length (a b : Bytes) : (xor a b).length = min a.length b.length := by
  rw [xor, List.length_zipWith]

theorem xor_xor {a b : Bytes} (h : a.length ≤ b.length) : xor (xor a b) b = a := by
  induction a generalizing b with
  | nil => rfl
  | cons x a ih =>
    cases b with
    | nil => exact absurd h (Nat.not_succ_le_zero _)
    | cons y b =>
      have hxy : x ^^^ y ^^^ y = x := by
        rw [UInt8.xor_assoc, UInt8.xor_self, UInt8.xor_zero]
      rw [xor, xor, List.zipWith_cons_cons, List.zipWith_cons_cons, hxy]
      exact congrArg (x :: ·) (ih (Nat.le_of_succ_le_succ h))

theorem take_xor (n : Nat) (a b : Bytes) : (xor a b).take n = xor (a.take n) (b.take n) := by
  rw [xor, List.take_zipWith]
  rfl

theorem drop_xor (n : Nat) (a b : Bytes) : (xor a b).drop n = xor (a.drop n) (b.drop n) := by
  rw [xor, List.drop_zipWith]
  rfl

theorem zeros_xor {n : Nat} {b : Bytes} (h : b.length ≤ n) : xor (List.replicate n 0) b = b := by
  induction b generalizing n with
  | nil => exact List.zipWith_nil_right
  | cons y b ih =>
    cases n with
    | zero => exact absurd h (Nat.not_succ_le_zero _)
    | succ n =>
      rw [List.replicate_succ, xor, List.zipWith_cons_cons, UInt8.zero_xor]
      exact congrArg (y :: ·) (ih (Nat.le_of_succ_le_succ h))

/-! ## Chains -/

structure BlockCipher (n : Nat) where
  enc : Bytes → Bytes
  dec : Bytes → Bytes
  enc_length : ∀ b, b.length = n → (enc b).length = n
  dec_length : ∀ b, b.length = n → (dec b).length = n
  dec_enc : ∀ b, b.length = n → dec (enc b) = b

variable {n : Nat} (c : BlockCipher n)

def cbc : Bytes → List Bytes → List Bytes
  | _, [] => []
  | iv, b :: bs => c.enc (xor b iv) :: cbc (c.enc (xor b iv)) bs

def uncbc : Bytes → List Bytes → List Bytes
  | _, [] => []
  | iv, b :: bs => xor (c.dec b) iv :: uncbc b bs

def Whole (n : Nat) (bs : List Bytes) : Prop := ∀ b ∈ bs, b.length = n

variable {c} {iv : Bytes} {bs : List Bytes}

theorem whole_cbc (hiv : iv.length = n) (hbs : Whole n bs) : Whole n (cbc c iv bs) := by
  induction bs generalizing iv with
  | nil => exact hbs
  | cons b bs ih =>
    obtain ⟨hb, hbs⟩ := List.forall_mem_cons.mp hbs
    have hc : (c.enc (xor b iv)).length = n := c.enc_length _ (by rw [xor_length, hb, hiv, Nat.min_self])
    exact List.forall_mem_cons.mpr ⟨hc, ih hc hbs⟩

theorem cbc_length (iv : Bytes) (bs : List Bytes) : (cbc c iv bs).length = bs.length := by
  induction bs generalizing iv with
  | nil => rfl
  | cons b bs ih => rw [cbc, List.length_cons, List.length_cons, ih]

theorem cbc_append (iv : Bytes) (as bs : List Bytes) :
    cbc c iv (as ++ bs) = cbc c iv as ++ cbc c ((cbc c iv as).getLastD iv) bs := by
  induction as generalizing iv with
  | nil => rfl
  | cons a as ih =>
    rw [List.cons_append, cbc, ih, cbc, List.getLastD_cons]
    rfl

theorem uncbc_cbc (hiv : iv.length = n) (hbs : Whole n bs) : uncbc c iv (cbc c iv bs) = bs := by
  induction bs generalizing iv with
  | nil => rfl
  | cons b bs ih =>
    obtain ⟨hb, hbs⟩ := List.forall_mem_cons.mp hbs
    have hxor : (xor b iv).length = n := by rw [xor_length, hb, hiv, Nat.min_self]
    rw [cbc, uncbc, c.dec_enc _ hxor, xor_xor (by omega), ih (c.enc_length _ hxor) hbs]

theorem getLastD_length (hiv : iv.length = n) (hbs : Whole n bs) : (bs.getLastD iv).length = n := by
  rcases List.eq_nil_or_concat bs with rfl | ⟨as, b, rfl⟩
  · exact hiv
  · rw [List.concat_eq_append, List.getLastD_concat]
    exact hbs b (by simp)

/-! ## Ciphertext stealing -/

/-- The last block holds `y` and zeros; of the block before it, `t` bytes are kept. The last block, deciphered,
returns the rest of them, and `y`. -/
theorem stolen {y first : Bytes} {t : Nat} (hy : y.length = t) (ht : t ≤ n) (hfirst : first.length = n) :
    xor ((c.dec (c.enc (xor (y ++ List.replicate (n - t) 0) first))).take t) (first.take t) = y ∧
      first.take t ++ (c.dec (c.enc (xor (y ++ List.replicate (n - t) 0) first))).drop t = first := by
  have hpad : (y ++ List.replicate (n - t) (0 : UInt8)).length = n := by
    rw [List.length_append, List.length_replicate, hy]
    omega
  have hxor : (xor (y ++ List.replicate (n - t) 0) first).length = n := by
    rw [xor_length, hpad, hfirst, Nat.min_self]
  rw [c.dec_enc _ hxor, take_xor, drop_xor, List.take_left' hy, List.drop_left' hy]
  constructor
  · exact xor_xor (by rw [List.length_take]; omega)
  · rw [zeros_xor (by rw [List.length_drop]; omega), List.take_append_drop]

end Cbc
