import Krb5Rs.Wire

/-!
# Files read as if zeros followed them

A file is its bytes. Reads past the end give zeros, writes past the end fill
the gap with zeros, so what a file says is the byte at each offset.
-/

namespace ZeroFile

open Wire (Bytes)

def byteAt (f : Bytes) (i : Nat) : UInt8 := f[i]?.getD 0

def read (f : Bytes) (n off : Nat) : Bytes :=
  (f.drop off).take n ++ List.replicate (n - ((f.drop off).take n).length) 0

def write (f data : Bytes) (off : Nat) : Bytes :=
  f.take off ++ List.replicate (off - f.length) 0 ++ data ++ f.drop (off + data.length)

def extend (f : Bytes) (size : Nat) : Bytes := f ++ List.replicate (size - f.length) 0

theorem byteAt_append (a b : Bytes) (i : Nat) :
    byteAt (a ++ b) i = if i < a.length then byteAt a i else byteAt b (i - a.length) := by
  unfold byteAt
  rw [List.getElem?_append]
  split <;> rfl

variable (f : Bytes) (data : Bytes) (off : Nat)

theorem byteAt_append_zeros (n i : Nat) : byteAt (f ++ List.replicate n 0) i = byteAt f i := by
  simp only [byteAt, List.getElem?_append, List.getElem?_replicate]
  by_cases h : i < f.length
  · simp [h]
  · simp only [h, if_false]
    rw [List.getElem?_eq_none (by omega)]
    split <;> rfl

@[simp] theorem byteAt_extend (size i : Nat) : byteAt (extend f size) i = byteAt f i :=
  byteAt_append_zeros f _ i

theorem byteAt_write (i : Nat) : byteAt (write f data off) i =
      if off ≤ i ∧ i < off + data.length then byteAt data (i - off) else byteAt f i := by
  have hpre : (f.take off ++ List.replicate (off - f.length) 0).length = off := by simp; omega
  unfold write
  by_cases h1 : i < off
  · rw [if_neg (by omega), List.append_assoc, byteAt, List.getElem?_append_left (by omega)]
    show byteAt (f.take off ++ List.replicate (off - f.length) 0) i = _
    rw [byteAt_append_zeros, byteAt, List.getElem?_take_of_lt h1]
    rfl
  · rw [List.append_assoc, byteAt, List.getElem?_append_right (by omega), hpre]
    by_cases h2 : i < off + data.length
    · rw [if_pos (by omega), List.getElem?_append_left (by omega)]
      rfl
    · rw [if_neg (by omega), List.getElem?_append_right (by omega), List.getElem?_drop]
      congr 2
      omega

@[simp] theorem read_length (n off : Nat) : (read f n off).length = n := by
  rw [read, List.length_append, List.length_replicate, List.length_take, List.length_drop]
  omega

theorem byteAt_read {n i : Nat} (h : i < n) : byteAt (read f n off) i = byteAt f (off + i) := by
  unfold read
  rw [byteAt_append_zeros, byteAt, List.getElem?_take_of_lt h, List.getElem?_drop]
  rfl

theorem eq_of_byteAt {a b : Bytes} (hl : a.length = b.length)
    (h : ∀ i < a.length, byteAt a i = byteAt b i) : a = b := by
  apply List.ext_getElem hl
  intro i hi hi'
  have := h i hi
  simpa [byteAt, hi, hi'] using this

theorem read_congr {f g : Bytes} {n off off' : Nat}
    (h : ∀ i < n, byteAt f (off + i) = byteAt g (off' + i)) : read f n off = read g n off' := by
  apply eq_of_byteAt (by simp)
  intro i hi
  rw [read_length] at hi
  rw [byteAt_read f off hi, byteAt_read g off' hi, h i hi]

theorem read_write_self : read (write f data off) data.length off = data := by
  apply eq_of_byteAt (by simp)
  intro i hi
  rw [read_length] at hi
  rw [byteAt_read _ off hi, byteAt_write, if_pos (by omega)]
  congr 1
  omega

theorem read_write_of_disjoint {n off off' : Nat} (h : off + n ≤ off' ∨ off' + data.length ≤ off) :
    read (write f data off') n off = read f n off := by
  apply read_congr
  intro i hi
  rw [byteAt_write, if_neg (by omega)]

@[simp] theorem read_extend (size n off : Nat) : read (extend f size) n off = read f n off :=
  read_congr fun i _ => byteAt_extend f size (off + i)

theorem read_add (m n off : Nat) : read f (m + n) off = read f m off ++ read f n (off + m) := by
  apply eq_of_byteAt (by simp)
  intro i hi
  rw [read_length] at hi
  rw [byteAt_read f off hi]
  rw [byteAt_append, read_length]
  by_cases hm : i < m
  · rw [if_pos hm, byteAt_read f off hm]
  · rw [if_neg hm, byteAt_read f (off + m) (by omega)]
    congr 1
    omega

theorem read_take {m n : Nat} (h : m ≤ n) : (read f n off).take m = read f m off := by
  obtain ⟨k, rfl⟩ := Nat.exists_eq_add_of_le h
  rw [read_add]
  simp

end ZeroFile
