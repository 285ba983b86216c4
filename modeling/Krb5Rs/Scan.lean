import Mathlib.Data.List.DropRight
import Krb5Rs.Wire

/-!
# Scanning text

Scanners in the manner of `fscanf`: each skips white space and then takes as
much as it can. What a scanner reads back therefore depends on the byte that
follows, so `ReadsBefore` says it for every continuation that stops it.
-/

namespace Scan

open Wire (Bytes Reader bind_apply)

/-! ## White space -/

def isSpace (b : UInt8) : Bool := b = 9 ∨ b = 10 ∨ b = 11 ∨ b = 12 ∨ b = 13 ∨ b = 32

def skip (bs : Bytes) : Bytes := bs.dropWhile isSpace

def Dense (bs : Bytes) : Prop := ∀ b, bs.head? = some b → isSpace b = false

variable {b : UInt8} {rest bs : Bytes} {n w : Nat}

theorem skip_cons_of_isSpace (h : isSpace b = true) (bs : Bytes) : skip (b :: bs) = skip bs := by
  simp [skip, h]

theorem skip_eq_self (h : Dense bs) : skip bs = bs := by
  cases bs with
  | nil => rfl
  | cons b bs =>
    have := h b rfl
    simp [skip, this]

@[simp] theorem skip_skip (bs : Bytes) : skip (skip bs) = skip bs := List.dropWhile_idempotent _ _

theorem dense_cons (h : isSpace b = false) (bs : Bytes) : Dense (b :: bs) := by
  intro c hc
  cases hc
  exact h

theorem dense_append {a : Bytes} (b : Bytes) (h : Dense a) (hne : a ≠ []) : Dense (a ++ b) := by
  cases a with
  | nil => exact absurd rfl hne
  | cons x a => exact fun y hy => h y (by simpa using hy)

/-! ## Decimal numerals -/

def isDigit (b : UInt8) : Bool := 48 ≤ b ∧ b ≤ 57

def natTextAux : Nat → Nat → Bytes
  | 0, _ => []
  | fuel + 1, n => if n < 10 then [UInt8.ofNat (48 + n)]
    else natTextAux fuel (n / 10) ++ [UInt8.ofNat (48 + n % 10)]

def natText (n : Nat) : Bytes := natTextAux (n + 1) n

def intText (i : Int) : Bytes := if i < 0 then 45 :: natText i.natAbs else natText i.natAbs

def value (ds : Bytes) : Nat := ds.foldl (fun v d => 10 * v + (d.toNat - 48)) 0

theorem digit_toNat {d : Nat} (h : d < 10) : (UInt8.ofNat (48 + d)).toNat = 48 + d := by
  simp; omega

theorem isDigit_ofNat {d : Nat} (h : d < 10) : isDigit (UInt8.ofNat (48 + d)) = true := by
  have hd := digit_toNat h
  simp only [isDigit, decide_eq_true_eq, UInt8.le_iff_toNat_le, hd]
  constructor
  · show 48 ≤ 48 + d
    omega
  · show 48 + d ≤ 57
    omega

theorem value_append (ds : Bytes) (d : UInt8) : value (ds ++ [d]) = 10 * value ds + (d.toNat - 48) := by
  simp [value]

theorem natTextAux_spec (fuel : Nat) :
    ∀ n, n < fuel → (∀ b ∈ natTextAux fuel n, isDigit b = true) ∧ natTextAux fuel n ≠ [] ∧
      value (natTextAux fuel n) = n := by
  induction fuel with
  | zero => intro n hn; omega
  | succ fuel ih =>
    intro n hn
    unfold natTextAux
    by_cases h : n < 10
    · rw [if_pos h]
      refine ⟨?_, by simp, ?_⟩
      · intro b hb
        obtain rfl := List.mem_singleton.mp hb
        exact isDigit_ofNat h
      · have := value_append [] (UInt8.ofNat (48 + n))
        rw [digit_toNat h] at this
        simpa [value] using this
    · rw [if_neg h]
      have hmod : n % 10 < 10 := Nat.mod_lt _ (by decide)
      obtain ⟨hall, -, hval⟩ := ih (n / 10) (by omega)
      refine ⟨?_, by simp, ?_⟩
      · intro b hb
        rcases List.mem_append.mp hb with hb | hb
        · exact hall b hb
        · obtain rfl := List.mem_singleton.mp hb
          exact isDigit_ofNat hmod
      · rw [value_append, hval, digit_toNat hmod]
        omega

theorem isDigit_of_mem_natText (h : b ∈ natText n) : isDigit b = true :=
  (natTextAux_spec (n + 1) n (by omega)).1 b h

theorem natText_ne_nil (n : Nat) : natText n ≠ [] := (natTextAux_spec (n + 1) n (by omega)).2.1

theorem intText_ne_nil (i : Int) : intText i ≠ [] := by
  unfold intText
  split
  · simp
  · exact natText_ne_nil _

theorem value_natText (n : Nat) : value (natText n) = n := (natTextAux_spec (n + 1) n (by omega)).2.2

def splitSign : Bytes → Bool × Bytes
  | 45 :: bs => (true, bs)
  | 43 :: bs => (false, bs)
  | bs => (false, bs)

/-- A number in the range of `i64`; without a digit nothing but the white space is taken. -/
def num (bs : Bytes) : Option Int × Bytes :=
  let s := skip bs
  let (neg, t) := splitSign s
  let ds := t.takeWhile isDigit
  if ds = [] then (none, s)
  else
    let v : Int := if neg then -(value ds : Int) else value ds
    (if -2 ^ 63 ≤ v ∧ v < 2 ^ 63 then some v else none, t.dropWhile isDigit)

def Stops (bs : Bytes) : Prop := ∀ b, bs.head? = some b → isDigit b = false

@[simp] theorem stops_cons (b : UInt8) (bs : Bytes) : Stops (b :: bs) ↔ isDigit b = false := by
  simp [Stops]

theorem takeWhile_digits {ds : Bytes} (hd : ∀ b ∈ ds, isDigit b = true) (hs : Stops rest) :
    (ds ++ rest).takeWhile isDigit = ds ∧ (ds ++ rest).dropWhile isDigit = rest := by
  induction ds with
  | nil =>
    cases rest with
    | nil => exact ⟨rfl, rfl⟩
    | cons b rest =>
      have := hs b rfl
      simp [this]
  | cons d ds ih =>
    have hd' := hd d (List.mem_cons_self ..)
    have := ih fun b hb => hd b (List.mem_cons_of_mem _ hb)
    simp [hd', this.1, this.2]

theorem not_space_of_digit (h : isDigit b = true) : isSpace b = false ∧ b ≠ 45 ∧ b ≠ 43 := by
  simp only [isDigit, decide_eq_true_eq, UInt8.le_iff_toNat_le] at h
  have h1 : 48 ≤ b.toNat := h.1
  have key : ∀ c : UInt8, c.toNat < 48 → b ≠ c := by
    intro c hc hbc; subst hbc; omega
  refine ⟨?_, key 45 (by decide), key 43 (by decide)⟩
  simp only [isSpace, decide_eq_false_iff_not, not_or]
  exact ⟨key 9 (by decide), key 10 (by decide), key 11 (by decide), key 12 (by decide),
    key 13 (by decide), key 32 (by decide)⟩

theorem dense_natText (n : Nat) (rest : Bytes) : Dense (natText n ++ rest) := by
  apply dense_append _ _ (natText_ne_nil n)
  intro b hb
  exact (not_space_of_digit (isDigit_of_mem_natText (List.mem_of_mem_head? hb))).1

theorem dense_intText (i : Int) (rest : Bytes) : Dense (intText i ++ rest) := by
  unfold intText
  split
  · exact dense_cons (by decide) _
  · exact dense_natText _ rest

theorem splitSign_natText (n : Nat) (rest : Bytes) : splitSign (natText n ++ rest) = (false, natText n ++ rest) := by
  obtain ⟨d, ds, hd⟩ := List.exists_cons_of_ne_nil (natText_ne_nil n)
  have hdig := isDigit_of_mem_natText (n := n) (by rw [hd]; exact List.mem_cons_self ..)
  obtain ⟨-, h1, h2⟩ := not_space_of_digit hdig
  rw [hd]
  unfold splitSign
  split
  · rename_i heq; simp at heq; exact absurd heq.1 h1
  · rename_i heq; simp at heq; exact absurd heq.1 h2
  · rfl

theorem num_intText {i : Int} (hlo : -2 ^ 63 ≤ i) (hhi : i < 2 ^ 63) (hs : Stops rest) :
    num (intText i ++ rest) = (some i, rest) := by
  have hdig := takeWhile_digits (fun b (hb : b ∈ natText i.natAbs) => isDigit_of_mem_natText hb) hs
  unfold num intText
  by_cases hneg : i < 0
  · rw [if_pos hneg]
    rw [List.cons_append, skip_eq_self (dense_cons (by decide) _)]
    simp only [splitSign, hdig.1, hdig.2, natText_ne_nil, if_false, value_natText, if_true]
    have hi : -((i.natAbs : Nat) : Int) = i := by omega
    rw [hi, if_pos ⟨hlo, hhi⟩]
  · rw [if_neg hneg, skip_eq_self (dense_natText _ _)]
    simp only [splitSign_natText, hdig.1, hdig.2, natText_ne_nil, if_false, value_natText,
      Bool.false_eq_true]
    have hi : ((i.natAbs : Nat) : Int) = i := by omega
    rw [hi, if_pos ⟨hlo, hhi⟩]

theorem num_cons_of_isSpace (h : isSpace b = true) (bs : Bytes) : num (b :: bs) = num bs := by
  unfold num
  rw [skip_cons_of_isSpace h]

theorem num_natText (h : n < 2 ^ 63) (hs : Stops rest) : num (natText n ++ rest) = (some (n : Int), rest) := by
  have hn : intText n = natText n := by simp [intText]
  rw [← hn]
  exact num_intText (by omega) (by omega) hs

/-! ## Numerals of a width -/

/-- A numeral filled up with zeros in front. -/
def zeroPad (w n : Nat) : Bytes := List.replicate (w - (natText n).length) 48 ++ natText n

/-- The last `w` digits of a number. -/
def fixed : Nat → Nat → Bytes
  | 0, _ => []
  | w + 1, n => fixed w (n / 10) ++ [UInt8.ofNat (48 + n % 10)]

@[simp] theorem fixed_length (w n : Nat) : (fixed w n).length = w := by
  induction w generalizing n with
  | zero => rfl
  | succ w ih => simp [fixed, ih]

theorem fixed_zero (w : Nat) : fixed w 0 = List.replicate w 48 := by
  induction w with
  | zero => rfl
  | succ w ih => simp [fixed, ih, List.replicate_succ']

theorem replicate_natTextAux {fuel : Nat} (hw : 0 < w) (hn : n < 10 ^ w) (hfuel : n < fuel) :
    List.replicate (w - (natTextAux fuel n).length) 48 ++ natTextAux fuel n = fixed w n := by
  induction w generalizing fuel n with
  | zero => cases hw
  | succ w ih =>
    obtain ⟨fuel, rfl⟩ := Nat.exists_eq_add_one.mpr (Nat.zero_lt_of_lt hfuel)
    by_cases h : n < 10
    · simp [natTextAux, fixed, h, Nat.div_eq_of_lt h, Nat.mod_eq_of_lt h, fixed_zero]
    · have hw : 0 < w := by
        apply Nat.pos_of_ne_zero
        rintro rfl
        omega
      have hdiv := Nat.div_lt_of_lt_mul (by rwa [Nat.pow_succ, Nat.mul_comm] at hn)
      have hrest := ih hw hdiv (show n / 10 < fuel by omega)
      simp [natTextAux, fixed, h, ← hrest]

theorem zeroPad_eq_fixed (hw : 0 < w) (hn : n < 10 ^ w) : zeroPad w n = fixed w n :=
  replicate_natTextAux hw hn (Nat.lt_succ_self n)

theorem isDigit_of_mem_fixed (h : b ∈ fixed w n) : isDigit b = true := by
  induction w generalizing n with
  | zero => cases h
  | succ w ih =>
    rcases List.mem_append.mp h with h | h
    · exact ih h
    · rw [List.mem_singleton.mp h]
      exact isDigit_ofNat (Nat.mod_lt _ (by decide))

theorem value_fixed (hn : n < 10 ^ w) : value (fixed w n) = n := by
  induction w generalizing n with
  | zero => simp_all [fixed, value]
  | succ w ih =>
    have hdiv := Nat.div_lt_of_lt_mul (by rwa [Nat.pow_succ, Nat.mul_comm] at hn)
    rw [fixed, value_append, ih hdiv, digit_toNat (Nat.mod_lt _ (by decide))]
    omega

/-! ## Tokens and octets -/

def token (max : Nat) (bs : Bytes) : Option Bytes × Bytes :=
  let s := skip bs
  let t := (s.take max).takeWhile fun b => !isSpace b
  (if t = [] then none else some t, s.drop t.length)

def Ends (bs : Bytes) : Prop := ∀ b, bs.head? = some b → isSpace b = true

@[simp] theorem ends_cons (b : UInt8) (bs : Bytes) : Ends (b :: bs) ↔ isSpace b = true := by
  simp [Ends]

theorem token_append {max : Nat} {t : Bytes} (hne : t ≠ []) (hmax : t.length ≤ max)
    (ht : ∀ b ∈ t, isSpace b = false) (hr : Ends rest) : token max (t ++ rest) = (some t, rest) := by
  have hdense : Dense (t ++ rest) :=
    dense_append _ (fun b hb => ht b (List.mem_of_mem_head? hb)) hne
  have htake : (t ++ rest).take max = t ++ rest.take (max - t.length) := by
    rw [List.take_append, List.take_of_length_le hmax]
  have hword : (t ++ rest.take (max - t.length)).takeWhile (fun b => !isSpace b) = t := by
    rw [List.takeWhile_append_of_pos (by simpa using ht)]
    cases hrest : rest.take (max - t.length) with
    | nil => simp
    | cons b r =>
      have hb : isSpace b = true := by
        apply hr
        cases rest with
        | nil => simp at hrest
        | cons c rest =>
          cases hm : max - t.length with
          | zero => simp [hm] at hrest
          | succ k => simp [hm] at hrest; simp [hrest.1]
      simp [hb]
  unfold token
  simp only [skip_eq_self hdense, htake, hword, hne, if_false, List.drop_left]

theorem token_cons_of_isSpace (h : isSpace b = true) (max : Nat) (bs : Bytes) :
    token max (b :: bs) = token max bs := by
  unfold token
  rw [skip_cons_of_isSpace h]

def isHex (b : UInt8) : Bool := (48 ≤ b ∧ b ≤ 57) ∨ (65 ≤ b ∧ b ≤ 70) ∨ (97 ≤ b ∧ b ≤ 102)

def hexValue (b : UInt8) : Nat :=
  if b ≤ 57 then b.toNat - 48 else if b ≤ 70 then b.toNat - 55 else b.toNat - 87

def hexDigit (n : Nat) : UInt8 := UInt8.ofNat (if n < 10 then 48 + n else 87 + n)

def hexText (b : UInt8) : Bytes := [hexDigit (b.toNat / 16), hexDigit (b.toNat % 16)]

def octet (bs : Bytes) : Option UInt8 × Bytes :=
  let s := skip bs
  let ds := (s.take 2).takeWhile isHex
  (if ds = [] then none else some (UInt8.ofNat (ds.foldl (fun v d => 16 * v + hexValue d) 0)),
    s.drop ds.length)

def octets : Nat → Bytes → Option Bytes × Bytes
  | 0, bs => (some [], bs)
  | n + 1, bs =>
    match octet bs with
    | (none, rest) => (none, rest)
    | (some b, rest) =>
      match octets n rest with
      | (none, rest) => (none, rest)
      | (some out, rest) => (some (b :: out), rest)

theorem hexDigit_spec : ∀ n < 16, isHex (hexDigit n) = true ∧ hexValue (hexDigit n) = n ∧
    isSpace (hexDigit n) = false := by
  decide

theorem octet_hexText (b : UInt8) (rest : Bytes) : octet (hexText b ++ rest) = (some b, rest) := by
  have hb := b.toNat_lt
  obtain ⟨h1, h2, h3⟩ := hexDigit_spec (b.toNat / 16) (by omega)
  obtain ⟨h4, h5, -⟩ := hexDigit_spec (b.toNat % 16) (by omega)
  have hsum : 16 * (b.toNat / 16) + b.toNat % 16 = b.toNat := by omega
  have hdense : Dense (hexText b ++ rest) := dense_cons h3 _
  unfold octet
  rw [skip_eq_self hdense]
  simp [hexText, h1, h4, h2, h5, hsum]

theorem octets_hexText (data rest : Bytes) :
    octets data.length (data.flatMap hexText ++ rest) = (some data, rest) := by
  induction data with
  | nil => rfl
  | cons b data ih =>
    rw [List.flatMap_cons, List.append_assoc, List.length_cons, octets, octet_hexText]
    simp [ih]

theorem octet_cons_of_isSpace (h : isSpace b = true) (bs : Bytes) : octet (b :: bs) = octet bs := by
  unfold octet
  rw [skip_cons_of_isSpace h]

theorem octets_cons_of_isSpace (h : isSpace b = true) (n : Nat) (bs : Bytes) :
    octets (n + 1) (b :: bs) = octets (n + 1) bs := by
  rw [octets, octets, octet_cons_of_isSpace h]

/-! ## Scanners as readers -/

section
variable {ε α β : Type} {sep : UInt8}

def expect (scan : Bytes → Option α × Bytes) (err : ε) : Reader ε α := fun bs =>
  match scan bs with
  | (some a, rest) => .ok (a, rest)
  | (none, _) => .error err

theorem expect_apply {scan : Bytes → Option α × Bytes} {a : α}
    (h : scan bs = (some a, rest)) (err : ε) : expect scan err bs = .ok (a, rest) := by
  rw [expect, h]

/-- `r` consumes `bs` and returns `a` before every continuation that stops a numeral. -/
def ReadsBefore (r : Reader ε α) (bs : Bytes) (a : α) : Prop :=
  ∀ rest, Stops rest → r (bs ++ rest) = .ok (a, rest)

theorem stops_flatMap (hsep : isDigit sep = false) (text : α → Bytes) (l : List α) (hrest : Stops rest) : Stops ((l.flatMap fun a => sep :: text a) ++ rest) := by
  cases l with
  | nil => exact hrest
  | cons b l => simpa using hsep

theorem ReadsBefore.times {r : Reader ε α} (hsep : isDigit sep = false) (text : α → Bytes)
    (l : List α) (h : ∀ a ∈ l, ReadsBefore r (sep :: text a) a) :
    ReadsBefore (Wire.times r l.length) (l.flatMap fun a => sep :: text a) l := by
  induction l with
  | nil => exact fun _ _ => rfl
  | cons a l ih =>
    intro rest hrest
    have hnext := stops_flatMap hsep text l hrest
    have htail := ih (fun b hb => h b (List.mem_cons_of_mem _ hb)) rest hrest
    rw [List.length_cons, Wire.times, bind_apply, List.flatMap_cons, List.append_assoc,
      h a (List.mem_cons_self ..) _ hnext]
    simp only [bind_apply, htail, Wire.pure_apply]

end

end Scan
