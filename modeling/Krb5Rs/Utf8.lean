import Mathlib.Data.List.Basic

/-!
# UTF-8 strings as bytes

A string is a byte list that passes `Utf8.valid`, the well-formed sequences of
the Unicode standard. `lossy` replaces each maximal ill-formed prefix of a
character by U+FFFD, as lossy decoders do.
-/

namespace Utf8

def cont (b : UInt8) : Bool := 0x80 ≤ b && b ≤ 0xbf

/-- The second byte `b` may follow the lead byte `a` of a longer character. -/
def second (a b : UInt8) : Bool :=
  if a = 0xe0 then 0xa0 ≤ b && b ≤ 0xbf
  else if a = 0xed then 0x80 ≤ b && b ≤ 0x9f
  else if a = 0xf0 then 0x90 ≤ b && b ≤ 0xbf
  else if a = 0xf4 then 0x80 ≤ b && b ≤ 0x8f
  else cont b

/-- How many bytes follow the lead byte `a`; `none` when no character starts so. -/
def tailLength (a : UInt8) : Option Nat :=
  if a ≤ 0x7f then some 0
  else if 0xc2 ≤ a && a ≤ 0xdf then some 1
  else if 0xe0 ≤ a && a ≤ 0xef then some 2
  else if 0xf0 ≤ a && a ≤ 0xf4 then some 3
  else none

def valid : List UInt8 → Bool
  | [] => true
  | a :: r =>
    match tailLength a with
    | none => false
    | some 0 => valid r
    | some 1 =>
      match r with
      | b :: r => cont b && valid r
      | _ => false
    | some 2 =>
      match r with
      | b :: c :: r => second a b && cont c && valid r
      | _ => false
    | some _ =>
      match r with
      | b :: c :: d :: r => second a b && cont c && cont d && valid r
      | _ => false

def replacement : List UInt8 := [0xef, 0xbf, 0xbd]

/-- Whether a character starts with `a` followed by `r`, and how many bytes of
`r` the character, or the longest start of one, takes. -/
def chunk (a : UInt8) (r : List UInt8) : Bool × Nat :=
  match tailLength a, r with
  | none, _ => (false, 0)
  | some 0, _ => (true, 0)
  | some 1, b :: _ => if cont b then (true, 1) else (false, 0)
  | some 2, b :: c :: _ =>
    if second a b then if cont c then (true, 2) else (false, 1) else (false, 0)
  | some 3, b :: c :: d :: _ =>
    if second a b then
      if cont c then if cont d then (true, 3) else (false, 2) else (false, 1)
    else (false, 0)
  | some 3, [b, c] => if second a b then if cont c then (false, 2) else (false, 1) else (false, 0)
  | some _, b :: _ => if second a b then (false, 1) else (false, 0)
  | some _, [] => (false, 0)

def lossyAux : Nat → List UInt8 → List UInt8
  | 0, _ => []
  | _ + 1, [] => []
  | fuel + 1, a :: r =>
    let n := (chunk a r).2
    (if (chunk a r).1 then a :: r.take n else replacement) ++ lossyAux fuel (r.drop n)

def lossy (b : List UInt8) : List UInt8 := lossyAux b.length b

def text (b : List UInt8) : String := (String.fromUTF8? ⟨b.toArray⟩).getD ""

def codePoint (a : UInt8) (tail : List UInt8) : Nat :=
  let lead := match tail.length with
    | 0 => 0
    | 1 => 0xc0
    | 2 => 0xe0
    | _ => 0xf0
  tail.foldl (fun n b => n * 64 + (b.toNat - 0x80)) (a.toNat - lead)

def charsAux : Nat → List UInt8 → List Char
  | 0, _ => []
  | _ + 1, [] => []
  | fuel + 1, a :: r =>
    let n := (chunk a r).2
    Char.ofNat (codePoint a (r.take n)) :: charsAux fuel (r.drop n)

def chars (b : List UInt8) : List Char := charsAux b.length b

structure Str where
  bytes : List UInt8
  valid : valid bytes = true
deriving DecidableEq

def Str.ofUtf8 (b : List UInt8) : Option Str :=
  if h : Utf8.valid b = true then some ⟨b, h⟩ else none

@[simp] theorem ofUtf8_bytes (s : Str) : Str.ofUtf8 s.bytes = some s := by
  simp [Str.ofUtf8, s.valid]

theorem bytes_of_ofUtf8 {b : List UInt8} {s : Str} (h : Str.ofUtf8 b = some s) : s.bytes = b := by
  unfold Str.ofUtf8 at h
  split at h
  · obtain rfl := Option.some.inj h; rfl
  · cases h

variable {a : UInt8} {r l : List UInt8}

theorem chunk_of_valid (h : valid (a :: r) = true) :
    (chunk a r).1 = true ∧ (chunk a r).2 ≤ r.length ∧ valid (r.drop (chunk a r).2) = true := by
  have htail : ∀ n, tailLength a = some n → n ≤ 3 := by
    intro n hn
    unfold tailLength at hn
    split at hn
    · obtain rfl := Option.some.inj hn; omega
    split at hn
    · obtain rfl := Option.some.inj hn; omega
    · split at hn
      · obtain rfl := Option.some.inj hn; omega
      · split at hn
        · obtain rfl := Option.some.inj hn; omega
        · cases hn
  unfold valid at h
  unfold chunk
  cases ht : tailLength a with
  | none => simp [ht] at h
  | some n =>
    match n, htail n ht with
    | 0, _ => simpa [ht] using h
    | 1, _ =>
      match r with
      | [] => simp [ht] at h
      | b :: r =>
        simp only [ht, Bool.and_eq_true] at h
        simp [h.1, h.2]
    | 2, _ =>
      match r with
      | [] => simp [ht] at h
      | [b] => simp [ht] at h
      | b :: c :: r =>
        simp only [ht, Bool.and_eq_true] at h
        simp [h.1.1, h.1.2, h.2]
    | 3, _ =>
      match r with
      | [] => simp [ht] at h
      | [b] => simp [ht] at h
      | [b, c] => simp [ht] at h
      | b :: c :: d :: r =>
        simp only [ht, Bool.and_eq_true] at h
        simp [h.1.1.1, h.1.1.2, h.1.2, h.2]

theorem lossyAux_of_valid (fuel : Nat) (b : List UInt8) (hf : b.length ≤ fuel)
    (h : valid b = true) : lossyAux fuel b = b := by
  induction fuel generalizing b with
  | zero =>
    obtain rfl := List.eq_nil_of_length_eq_zero (Nat.le_zero.mp hf)
    rfl
  | succ fuel ih =>
    cases b with
    | nil => rfl
    | cons a r =>
      obtain ⟨hok, hlen, hrest⟩ := chunk_of_valid h
      have hfuel : (r.drop (chunk a r).2).length ≤ fuel := by
        simp only [List.length_drop, List.length_cons] at hf ⊢
        omega
      simp only [lossyAux, hok, ite_true, ih _ hfuel hrest, List.cons_append, List.take_append_drop]

theorem lossy_of_valid {b : List UInt8} (h : valid b = true) : lossy b = b :=
  lossyAux_of_valid b.length b (Nat.le_refl _) h

theorem valid_chunk_append (h : (chunk a r).1 = true) (rest : List UInt8) :
    valid (a :: r.take (chunk a r).2 ++ rest) = valid rest := by
  unfold chunk at h ⊢
  split
  case h_1 => simp_all
  case h_2 ht => rw [List.take_zero, List.singleton_append, valid.eq_def]; simp [ht]
  case h_3 ht =>
    by_cases hb : cont ‹_› = true
    · simp [valid, ht, hb]
    · simp_all
  case h_4 ht =>
    simp_all only
    split_ifs at h ⊢ with h1 h2
    simp [valid, ht, h1, h2]
  case h_5 ht =>
    simp_all only
    split_ifs at h ⊢ with h1 h2 h3
    simp [valid, ht, h1, h2, h3]
  case h_8 => simp_all
  all_goals
    simp_all only
    split_ifs at h

theorem valid_lossyAux (fuel : Nat) (b : List UInt8) : valid (lossyAux fuel b) = true := by
  induction fuel generalizing b with
  | zero => rfl
  | succ fuel ih =>
    cases b with
    | nil => rfl
    | cons a r =>
      rw [lossyAux]
      by_cases h : (chunk a r).1 = true
      · simp only [h, if_true]
        rw [valid_chunk_append h, ih]
      · simp only [h, Bool.false_eq_true, if_false]
        exact ih _

theorem valid_append (a b : List UInt8) (h : valid a = true) : valid (a ++ b) = valid b := by
  induction hn : a.length using Nat.strongRecOn generalizing a with
  | ind n ih =>
    cases a with
    | nil => rfl
    | cons x r =>
      obtain ⟨hok, -, hrest⟩ := chunk_of_valid h
      have hsplit : x :: r ++ b = x :: r.take (chunk x r).2 ++ (r.drop (chunk x r).2 ++ b) := by
        rw [List.cons_append, List.cons_append, ← List.append_assoc, List.take_append_drop]
      rw [hsplit, valid_chunk_append hok]
      refine ih _ ?_ _ hrest rfl
      rw [← hn, List.length_drop, List.length_cons]
      omega

theorem cont_high {b : UInt8} (h : cont b = true) : 0x80 ≤ b := by
  simp only [cont, Bool.and_eq_true, decide_eq_true_eq] at h
  exact h.1

theorem second_high {b : UInt8} (h : second a b = true) : 0x80 ≤ b := by
  unfold second at h
  split_ifs at h
  all_goals
    simp only [cont, Bool.and_eq_true, decide_eq_true_eq, UInt8.le_iff_toNat_le] at h ⊢
    exact Nat.le_trans (by decide) h.1

theorem chunk_high (h : (chunk a r).1 = true) : ∀ b ∈ r.take (chunk a r).2, 0x80 ≤ b := by
  unfold chunk at h ⊢
  split
  case h_1 => simp_all
  case h_2 => simp
  case h_3 ht =>
    by_cases hb : cont ‹_› = true
    · simp [hb, cont_high hb]
    · simp_all
  case h_4 ht =>
    simp_all only
    split_ifs at h ⊢ with h1 h2
    simp [second_high h1, cont_high h2]
  case h_5 ht =>
    simp_all only
    split_ifs at h ⊢ with h1 h2 h3
    simp [second_high h1, cont_high h2, cont_high h3]
  case h_8 => simp_all
  all_goals
    simp_all only
    split_ifs at h

theorem valid_ascii (h : ∀ b ∈ l, b ≤ 0x7f) : valid l = true := by
  induction l with
  | nil => rfl
  | cons a l ih =>
    obtain ⟨ha, hl⟩ := List.forall_mem_cons.mp h
    rw [valid.eq_def]
    simp only [tailLength, if_pos ha]
    exact ih hl

theorem valid_flatMap {f : UInt8 → List UInt8} (hlow : ∀ a ≤ 0x7f, ∀ b ∈ f a, b ≤ 0x7f) (hhigh : ∀ a, 0x80 ≤ a → f a = [a])
    (h : valid l = true) : valid (l.flatMap f) = true := by
  induction hn : l.length using Nat.strongRecOn generalizing l with
  | ind n ih =>
    cases l with
    | nil => rfl
    | cons a r =>
      obtain ⟨hok, -, hrest⟩ := chunk_of_valid h
      have hsplit : r.flatMap f = r.take (chunk a r).2 ++ (r.drop (chunk a r).2).flatMap f := by
        conv_lhs => rw [← List.take_append_drop (chunk a r).2 r, List.flatMap_append]
        rw [List.flatMap_congr fun b hb => hhigh b (chunk_high hok b hb), List.flatMap_singleton']
      have hdrop : valid ((r.drop (chunk a r).2).flatMap f) = true := by
        refine ih _ ?_ hrest rfl
        rw [← hn, List.length_drop, List.length_cons]
        omega
      rw [List.flatMap_cons, hsplit]
      by_cases ha : a ≤ 0x7f
      · rw [valid_append _ _ (valid_ascii (hlow a ha))]
        have hzero : (chunk a r).2 = 0 := by simp [chunk, tailLength, ha]
        rw [hzero] at hdrop ⊢
        exact hdrop
      · have ha' : 0x80 ≤ a := by
          exact Nat.lt_of_not_le ha
        rw [hhigh a ha', ← List.append_assoc]
        exact (valid_chunk_append hok _).trans hdrop

def lossyStr (b : List UInt8) : Str := ⟨lossy b, valid_lossyAux _ b⟩

theorem Str.ext {s t : Str} (h : s.bytes = t.bytes) : s = t := by
  cases s; cases t; simp_all

@[simp] theorem lossyStr_bytes (s : Str) : lossyStr s.bytes = s := Str.ext (lossy_of_valid s.valid)

end Utf8
