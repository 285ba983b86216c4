import Krb5Rs.Bits
import Mathlib.Algebra.BigOperators.Intervals
import Mathlib.Data.List.GetD

/-!
# n-fold

`nfold` of `crypto/nfold.rs` against the fold of RFC 3961: the ones' complement sum
of the pieces, as long as the output, of copies of the input that are each turned 13
bits further to the right. Bytes are summed column by column in 16 bits and carried
around the end until none is too large.
-/

namespace Krb5Rs

namespace Nfold

open Wire (Bytes)
open Bits (bits number rotr)
open Positional (value carry)

/-! ## The code -/

def gcd (a b : Nat) : Nat := if b = 0 then a else gcd b (a % b)
termination_by b
decreasing_by exact Nat.mod_lt _ (Nat.pos_of_ne_zero ‹_›)

def lcm (a b : Nat) : Nat := a / gcd a b * b

def rotateRightBits (data : Bytes) (nbits : Nat) : Bytes :=
  let len := data.length
  if len = 0 then []
  else
    let byteShift := (nbits / 8) % len
    let bitShift := nbits % 8
    (List.range len).map fun i =>
      let idxA := (i + len - byteShift) % len
      let idxB := (i + len - byteShift + len - 1) % len
      (((data.getD idxA 0).toUInt16 >>> UInt16.ofNat bitShift) |||
        ((data.getD idxB 0).toUInt16 <<< UInt16.ofNat (8 - bitShift))).toUInt8

def series (input : Bytes) (copies : Nat) : Bytes := (List.range copies).flatMap fun i => rotateRightBits input (13 * i)

/-- `(0..len).step_by(out_len)`. -/
def chunkStarts (len outLen : Nat) : List Nat := (List.range ((len + outLen - 1) / outLen)).map (· * outLen)

def addChunk (series : Bytes) (outLen : Nat) (result : List UInt16) (chunkStart : Nat) : List UInt16 :=
  List.zipWith (fun r b => r + b.toUInt16) result ((series.drop chunkStart).take outLen)

def sums (series : Bytes) (outLen : Nat) : List UInt16 :=
  (chunkStarts series.length outLen).foldl (addChunk series outLen) (List.replicate outLen 0)

def hasCarry (result : List UInt16) : Bool := result.any (0xff < ·)

def carryStep (result : List UInt16) : List UInt16 :=
  (List.range result.length).map fun i =>
    (result.getD ((i + 1) % result.length) 0 >>> 8) + (result.getD i 0 &&& 0xff)

theorem toNat_carried (a b : UInt16) : ((a >>> 8) + (b &&& 0xff)).toNat = a.toNat / 256 + b.toNat % 256 := by
  have ha := a.toNat_lt
  have hshift : (a >>> 8).toNat = a.toNat / 256 := by
    rw [UInt16.toNat_shiftRight, Nat.shiftRight_eq_div_pow]
    rfl
  have hand : (b &&& 0xff).toNat = b.toNat % 256 := by
    exact Nat.and_two_pow_sub_one_eq_mod b.toNat 8
  rw [UInt16.toNat_add, hshift, hand]
  omega

theorem carryStep_toNat (result : List UInt16) :
    (carryStep result).map UInt16.toNat = carry 256 (result.map UInt16.toNat) := by
  apply List.ext_getElem
  · simp [carryStep, Positional.carry_length]
  · intro i hi hi'
    have hlt : i < result.length := by simpa [carryStep] using hi
    have hnext : (i + 1) % result.length < result.length := Nat.mod_lt _ (by omega)
    simp only [carryStep, carry, List.getElem_map, List.getElem_range, List.getElem_zipWith, List.getElem_rotate,
      List.length_map]
    rw [toNat_carried, List.getD_eq_getElem _ _ hnext, List.getD_eq_getElem _ _ hlt]

variable {result : List UInt16} {k outLen : Nat} (input : Bytes) (data : Bytes) (nbits : Nat)

theorem carryStep_smaller (h : hasCarry result = true) :
    ((carryStep result).map UInt16.toNat).sum < (result.map UInt16.toNat).sum := by
  obtain ⟨x, hx, hlarge⟩ := List.any_eq_true.mp h
  rw [carryStep_toNat]
  exact Positional.sum_carry_lt (by decide) (List.mem_map_of_mem hx) (by
    have := UInt16.lt_iff_toNat_lt.mp (of_decide_eq_true hlarge)
    exact this)

def propagate (result : List UInt16) : List UInt16 :=
  if hasCarry result then propagate (carryStep result) else result
termination_by (result.map UInt16.toNat).sum
decreasing_by exact carryStep_smaller ‹_›

def nfold (input : Bytes) (outLen : Nat) : Bytes :=
  (propagate (sums (series input (lcm input.length outLen / input.length)) outLen)).map UInt16.toUInt8

/-! ## The fold -/

def turnedCopies (input : Bytes) (copies : Nat) : List Bool :=
  (List.range copies).flatMap fun k => rotr (13 * k) (bits input)

/-- The `c`-th piece, as long as the output, of all copies until input and output end together. -/
def chunkValue (input : Bytes) (outLen c : Nat) : Nat :=
  number (((turnedCopies input (Nat.lcm input.length outLen / input.length)).drop (c * (8 * outLen))).take (8 * outLen))

/-! ## Turned copies -/

theorem gcd_eq (a b : Nat) : gcd a b = Nat.gcd a b := by
  induction a, b using gcd.induct with
  | case1 a => rw [gcd, if_pos rfl, Nat.gcd_zero_right]
  | case2 a b hb ih => rw [gcd, if_neg hb, ih, Nat.gcd_comm, ← Nat.gcd_rec, Nat.gcd_comm]

theorem lcm_eq (a b : Nat) : lcm a b = Nat.lcm a b := by
  rw [lcm, gcd_eq, Nat.lcm_eq_mul_div, Nat.div_mul_right_comm (Nat.gcd_dvd_left a b)]

theorem testBit_joined (a b : UInt8) {s t : Nat} (hs : s < 8) (ht : t < 8) :
    ((a.toUInt16 >>> UInt16.ofNat s) ||| (b.toUInt16 <<< UInt16.ofNat (8 - s))).toUInt8.toNat.testBit t =
      if t + s < 8 then a.toNat.testBit (t + s) else b.toNat.testBit (t + s - 8) := by
  have hright : (UInt16.ofNat s).toNat % 16 = s := by
    rw [UInt16.toNat_ofNat_of_lt' (by rw [UInt16.size]; omega)]
    omega
  have hleft : (UInt16.ofNat (8 - s)).toNat % 16 = 8 - s := by
    rw [UInt16.toNat_ofNat_of_lt' (by rw [UInt16.size]; omega)]
    omega
  have ha : 8 ≤ t + s → a.toNat.testBit (t + s) = false := fun h =>
    Nat.testBit_lt_two_pow (Nat.lt_of_lt_of_le a.toNat_lt (Nat.pow_le_pow_right (by decide) h))
  rw [UInt16.toNat_toUInt8, UInt16.toNat_or, UInt16.toNat_shiftRight, UInt16.toNat_shiftLeft, hright, hleft,
    UInt8.toNat_toUInt16, UInt8.toNat_toUInt16, Nat.testBit_mod_two_pow, Nat.testBit_or, Nat.testBit_shiftRight,
    Nat.testBit_mod_two_pow, Nat.testBit_shiftLeft, decide_eq_true ht, decide_eq_true (show t < 16 by omega),
    Nat.add_comm s t]
  by_cases h : t + s < 8
  · rw [if_pos h, decide_eq_false (by omega)]
    simp
  rw [if_neg h, ha (by omega), decide_eq_true (by omega)]
  simp only [Bool.true_and, Bool.false_or]
  congr 1
  omega

theorem rotateRightBits_length : (rotateRightBits data nbits).length = data.length := by
  unfold rotateRightBits
  dsimp only
  split
  case isTrue h => exact h.symm
  case isFalse => rw [List.length_map, List.length_range]

theorem byte_bit_mod (a len : Nat) {j : Nat} (hj : j < 8) : (8 * a + j) % (8 * len) = 8 * (a % len) + j := by
  rw [Nat.mod_mul, show (8 * a + j) % 8 = j by omega, show (8 * a + j) / 8 = a by omega, Nat.add_comm]

theorem turned_position {len i j : Nat} (hlen : 0 < len) (hj : j < 8) :
    (8 * i + j + 8 * len - nbits % (8 * len)) % (8 * len) =
      if nbits % 8 ≤ j then 8 * ((i + len - nbits / 8 % len) % len) + (j - nbits % 8)
      else 8 * ((i + len - nbits / 8 % len + len - 1) % len) + (8 + j - nbits % 8) := by
  have hq : nbits / 8 % len < len := Nat.mod_lt _ hlen
  have hs : nbits % 8 < 8 := Nat.mod_lt _ (by decide)
  have hturn : nbits % (8 * len) = nbits % 8 + 8 * (nbits / 8 % len) := Nat.mod_mul
  rw [hturn]
  generalize nbits / 8 % len = q at hq ⊢
  generalize nbits % 8 = s at hs ⊢
  split
  case isTrue h =>
    rw [← byte_bit_mod (i + len - q) len (show j - s < 8 by omega)]
    congr 1
    omega
  case isFalse h =>
    rw [show i + len - q + len - 1 = i + len - q - 1 + len by omega, Nat.add_mod_right,
      ← byte_bit_mod (i + len - q - 1) len (show 8 + j - s < 8 by omega)]
    congr 1
    omega

theorem getElem?_rotateRightBits {i : Nat} (hi : i < data.length) : (rotateRightBits data nbits)[i]? =
      some (((data.getD ((i + data.length - nbits / 8 % data.length) % data.length) 0).toUInt16 >>>
        UInt16.ofNat (nbits % 8)) |||
        ((data.getD ((i + data.length - nbits / 8 % data.length + data.length - 1) % data.length) 0).toUInt16 <<<
          UInt16.ofNat (8 - nbits % 8))).toUInt8 := by
  rw [rotateRightBits]
  rw [if_neg (by omega), List.getElem?_map, List.getElem?_range hi]
  rfl

theorem bits_rotateRightBits : bits (rotateRightBits data nbits) = rotr nbits (bits data) := by
  apply List.ext_getElem?
  intro p
  by_cases hp : p < 8 * data.length
  · have hlen : 0 < data.length := by omega
    have hs : nbits % 8 < 8 := Nat.mod_lt _ (by decide)
    have hj : p % 8 < 8 := Nat.mod_lt _ (by decide)
    have hpos := turned_position nbits (i := p / 8) hlen hj
    have hbyte (k : Nat) : data[k % data.length]? = some (data.getD (k % data.length) 0) := by
      rw [List.getElem?_eq_getElem (Nat.mod_lt _ hlen), List.getD_eq_getElem _ _ (Nat.mod_lt _ hlen)]
    rw [Nat.div_add_mod] at hpos
    rw [Bits.getElem?_rotr nbits (by rw [Bits.bits_length]; exact hp), Bits.bits_length, hpos, Bits.getElem?_bits,
      Bits.getElem?_bits, getElem?_rotateRightBits data nbits (by omega), Option.map_some,
      testBit_joined _ _ hs (by omega)]
    split
    case isTrue h =>
      rw [if_pos (by omega), show (8 * ((p / 8 + data.length - nbits / 8 % data.length) % data.length) +
        (p % 8 - nbits % 8)) / 8 = (p / 8 + data.length - nbits / 8 % data.length) % data.length by omega, hbyte]
      refine congrArg some (congrArg _ ?_)
      omega
    case isFalse h =>
      rw [if_neg (by omega), show (8 * ((p / 8 + data.length - nbits / 8 % data.length + data.length - 1) % data.length) +
        (8 + p % 8 - nbits % 8)) / 8 =
          (p / 8 + data.length - nbits / 8 % data.length + data.length - 1) % data.length by omega, hbyte]
      refine congrArg some (congrArg _ ?_)
      omega
  · rw [List.getElem?_eq_none, List.getElem?_eq_none]
    · rw [Bits.rotr_length, Bits.bits_length]
      omega
    · rw [Bits.bits_length, rotateRightBits_length]
      omega

theorem series_length (copies : Nat) : (series input copies).length = copies * input.length := by
  induction copies with
  | zero => rw [series, List.range_zero, Nat.zero_mul]; rfl
  | succ k ih =>
    rw [series] at ih ⊢
    rw [List.range_succ, List.flatMap_append, List.length_append, ih, List.flatMap_singleton, rotateRightBits_length,
      Nat.succ_mul]

theorem bits_series (copies : Nat) : bits (series input copies) = turnedCopies input copies := by
  rw [series, Bits.bits_flatMap]
  simp only [bits_rotateRightBits]
  rfl

theorem chunkValue_eq (outLen c : Nat) :
    chunkValue input outLen c = value 256 ((((series input (Nat.lcm input.length outLen / input.length)).drop
      (c * outLen)).take outLen).map UInt8.toNat) := by
  rw [chunkValue, ← bits_series, show c * (8 * outLen) = 8 * (c * outLen) by ring, Bits.bits_drop, Bits.bits_take,
    Bits.number_bits]

/-! ## Sums -/

/-- A column holds at most 255 from each chunk, so that 256 chunks fit. -/
structure Summed (outLen k : Nat) (result : List UInt16) (sum : Nat) : Prop where
  length : result.length = outLen
  small : ∀ x ∈ result, x.toNat ≤ 255 * k
  value : value 256 (result.map UInt16.toNat) = sum

theorem toNat_addByte {r : UInt16} (hr : r.toNat ≤ 255 * 255) (b : UInt8) :
    (r + b.toUInt16).toNat = r.toNat + b.toNat := by
  have hb := b.toNat_lt
  rw [UInt16.toNat_add, UInt8.toNat_toUInt16]
  omega

theorem map_addBytes (h : ∀ r ∈ result, r.toNat ≤ 255 * 255) (chunk : Bytes) :
    (List.zipWith (fun r b => r + b.toUInt16) result chunk).map UInt16.toNat =
      List.zipWith (· + ·) (result.map UInt16.toNat) (chunk.map UInt8.toNat) := by
  induction result generalizing chunk with
  | nil => rfl
  | cons r result ih =>
    obtain ⟨hr, hresult⟩ := List.forall_mem_cons.mp h
    cases chunk with
    | nil => rfl
    | cons b chunk =>
      rw [List.zipWith_cons_cons, List.map_cons, List.map_cons, List.map_cons, List.zipWith_cons_cons, ih hresult,
        toNat_addByte hr]

theorem addBytes_small (hk : k < 256) (h : ∀ r ∈ result, r.toNat ≤ 255 * k) (chunk : Bytes) :
    ∀ x ∈ List.zipWith (fun r b => r + b.toUInt16) result chunk, x.toNat ≤ 255 * (k + 1) := by
  induction result generalizing chunk with
  | nil => exact fun x hx => absurd hx List.not_mem_nil
  | cons r result ih =>
    obtain ⟨hr, hresult⟩ := List.forall_mem_cons.mp h
    cases chunk with
    | nil => exact fun x hx => absurd hx List.not_mem_nil
    | cons b chunk =>
      refine List.forall_mem_cons.mpr ⟨?_, ih hresult chunk⟩
      have hb := b.toNat_lt
      rw [toNat_addByte (by omega)]
      omega

theorem Summed.addChunk {sum : Nat} (h : Summed outLen k result sum) (hk : k < 256) {series : Bytes}
    {start : Nat} (hstart : start + outLen ≤ series.length) :
    Summed outLen (k + 1) (addChunk series outLen result start)
      (sum + Positional.value 256 (((series.drop start).take outLen).map UInt8.toNat)) := by
  have hchunk : ((series.drop start).take outLen).length = outLen := by
    rw [List.length_take, List.length_drop]
    omega
  have hsmall : ∀ r ∈ result, r.toNat ≤ 255 * 255 := fun r hr => (h.small r hr).trans (by omega)
  refine ⟨?_, addBytes_small hk h.small _, ?_⟩
  · rw [Nfold.addChunk, List.length_zipWith, h.length, hchunk, Nat.min_self]
  · rw [Nfold.addChunk, map_addBytes hsmall,
      Positional.value_zipWith_add 256 (by rw [List.length_map, List.length_map, h.length, hchunk]), h.value]

theorem summed_zeros (outLen : Nat) : Summed outLen 0 (List.replicate outLen 0) 0 := by
  refine ⟨List.length_replicate, ?_, ?_⟩
  · intro x hx
    rw [List.eq_of_mem_replicate hx]
    rfl
  · rw [List.map_replicate]
    exact Positional.value_replicate_zero 256 outLen

theorem chunkStarts_eq (hout : 0 < outLen) (k : Nat) :
    chunkStarts (k * outLen) outLen = (List.range k).map (· * outLen) := by
  rw [chunkStarts]
  rw [Nat.add_sub_assoc hout, Nat.add_comm, Nat.add_mul_div_right _ _ hout, Nat.div_eq_of_lt (by omega), Nat.zero_add]

theorem summed_sums {series : Bytes} (hout : 0 < outLen) (hlen : series.length = k * outLen) (hk : k ≤ 256) :
    Summed outLen k (sums series outLen)
      (∑ c ∈ Finset.range k, value 256 (((series.drop (c * outLen)).take outLen).map UInt8.toNat)) := by
  rw [sums, hlen, chunkStarts_eq hout]
  have hrun : ∀ j ≤ k, Summed outLen j
      (((List.range j).map (· * outLen)).foldl (addChunk series outLen) (List.replicate outLen 0))
      (∑ c ∈ Finset.range j, value 256 (((series.drop (c * outLen)).take outLen).map UInt8.toNat)) := by
    intro j hj
    induction j with
    | zero => exact summed_zeros outLen
    | succ j ih =>
      have hfit : j * outLen + outLen ≤ series.length := by
        rw [hlen, ← Nat.succ_mul]
        exact Nat.mul_le_mul_right _ hj
      rw [List.range_succ, List.map_append, List.foldl_append, Finset.sum_range_succ]
      exact (ih (by omega)).addChunk (by omega) hfit
  exact hrun k (Nat.le_refl k)

/-! ## Carries -/

theorem carryStep_length (result : List UInt16) : (carryStep result).length = result.length := by
  rw [carryStep, List.length_map, List.length_range]

theorem propagate_settles (result : List UInt16) :
    ∃ k, propagate result = carryStep^[k] result ∧ hasCarry (carryStep^[k] result) = false := by
  induction result using propagate.induct with
  | case1 result hcarry ih =>
    obtain ⟨k, hk, hsettled⟩ := ih
    refine ⟨k + 1, ?_, hsettled⟩
    rw [propagate, if_pos hcarry, hk, Function.iterate_succ_apply]
  | case2 result hsettled =>
    refine ⟨0, ?_, by simpa using hsettled⟩
    rw [propagate, if_neg hsettled, Function.iterate_zero_apply]

structure Carried (result result' : List UInt16) : Prop where
  length : result'.length = result.length
  value : value 256 (result'.map UInt16.toNat) ≡ value 256 (result.map UInt16.toNat) [MOD 256 ^ result.length - 1]
  zero : (result'.map UInt16.toNat).sum = 0 → (result.map UInt16.toNat).sum = 0

theorem carried_iterate (result : List UInt16) (k : Nat) : Carried result (carryStep^[k] result) := by
  induction k with
  | zero => exact ⟨rfl, rfl, id⟩
  | succ k ih =>
    rw [Function.iterate_succ_apply']
    generalize carryStep^[k] result = result' at ih
    refine ⟨(carryStep_length result').trans ih.length, ?_, ?_⟩
    · have hstep := Positional.value_carry (r := 256) (by decide) (result'.map UInt16.toNat)
      rw [List.length_map, ih.length, ← carryStep_toNat] at hstep
      exact hstep.trans ih.value
    · intro h
      rw [carryStep_toNat] at h
      exact ih.zero (Positional.sum_eq_zero_of_carry h)

theorem map_toUInt8 (h : hasCarry result = false) :
    (result.map UInt16.toUInt8).map UInt8.toNat = result.map UInt16.toNat := by
  rw [List.map_map]
  refine List.map_congr_left fun x hx => ?_
  have hsmall : x.toNat ≤ 255 := by
    have hle := List.any_eq_false.mp h x hx
    exact Nat.le_of_not_lt fun hlt => hle (decide_eq_true (UInt16.lt_iff_toNat_lt.mpr hlt))
  rw [Function.comp_apply, UInt16.toNat_toUInt8]
  omega

/-! ## The result -/

theorem chunks_le {m n : Nat} (hm : 0 < m) (hn : 0 < n) : Nat.lcm m n / n ≤ m :=
  Nat.div_le_of_le_mul (Nat.mul_comm m n ▸ Nat.lcm_le_mul hm hn)

theorem nfold_is_fold (input : Bytes) (hne : input ≠ []) (hlen : input.length ≤ 256) (outLen : Nat) (hout : 1 ≤ outLen) :
    (nfold input outLen).length = outLen ∧
      value 256 ((nfold input outLen).map UInt8.toNat) ≡
        ∑ c ∈ Finset.range (Nat.lcm input.length outLen / outLen), chunkValue input outLen c
        [MOD 2 ^ (8 * outLen) - 1] ∧
      (value 256 ((nfold input outLen).map UInt8.toNat) = 0 →
        ∀ c < Nat.lcm input.length outLen / outLen, chunkValue input outLen c = 0) ∧
      ∃ k, hasCarry (carryStep^[k] (sums (series input (lcm input.length outLen / input.length)) outLen)) = false ∧
        nfold input outLen =
          (carryStep^[k] (sums (series input (lcm input.length outLen / input.length)) outLen)).map UInt16.toUInt8 := by
  have hpos := List.length_pos_of_ne_nil hne
  have hseries : (series input (Nat.lcm input.length outLen / input.length)).length =
      Nat.lcm input.length outLen / outLen * outLen := by
    rw [series_length, Nat.div_mul_cancel (Nat.dvd_lcm_left ..), Nat.div_mul_cancel (Nat.dvd_lcm_right ..)]
  have hsums := summed_sums hout hseries ((chunks_le hpos hout).trans hlen)
  simp only [← chunkValue_eq] at hsums
  rw [nfold, lcm_eq]
  generalize sums (series input (Nat.lcm input.length outLen / input.length)) outLen = result at hsums ⊢
  obtain ⟨k, hk, hsettled⟩ := propagate_settles result
  have hcarried := carried_iterate result k
  rw [hk, map_toUInt8 hsettled]
  refine ⟨?_, ?_, ?_, k, hsettled, rfl⟩
  · rw [List.length_map, hcarried.length, hsums.length]
  · have hvalue := hcarried.value
    rw [hsums.value, hsums.length] at hvalue
    rwa [Nat.pow_mul]
  · intro hzero
    rw [Positional.value_eq_zero_iff (by decide)] at hzero
    have hsum := (Positional.value_eq_zero_iff (r := 256) (by decide) _).mpr (hcarried.zero hzero)
    rw [hsums.value, Finset.sum_eq_zero_iff] at hsum
    exact fun c hc => hsum c (Finset.mem_range.mpr hc)

example : nfold [0x30, 0x31, 0x32, 0x33, 0x34, 0x35] 8 = [0xbe, 0x07, 0x26, 0x31, 0x27, 0x6b, 0x19, 0x55] := by
  decide +kernel

/-- Six bytes to eight. -/
theorem nfold_is_fold_digits : (nfold [0x30, 0x31, 0x32, 0x33, 0x34, 0x35] 8).length = 8 ∧
      value 256 ((nfold [0x30, 0x31, 0x32, 0x33, 0x34, 0x35] 8).map UInt8.toNat) ≡
        ∑ c ∈ Finset.range 3, chunkValue [0x30, 0x31, 0x32, 0x33, 0x34, 0x35] 8 c [MOD 2 ^ 64 - 1] :=
  have h := nfold_is_fold [0x30, 0x31, 0x32, 0x33, 0x34, 0x35] (by decide) (by decide) 8 (by decide)
  ⟨h.1, h.2.1⟩

end Nfold

end Krb5Rs
