import Mathlib.Algebra.Group.Int.Defs
import Mathlib.Algebra.Group.Nat.Defs
import Mathlib.Data.List.Basic

/-!
# Byte strings: fixed-width integers and readers

Little- and big-endian encodings of naturals in a given number of bytes, and
readers that consume bytes from the front of their input. `Reads r bs a` says
that `r` consumes exactly `bs`, whatever follows, and returns `a`; it composes
along `>>=` and over lists of items. `Oblivious r` says that bytes behind the input
never change what `r` reads from it.
-/

namespace Wire

abbrev Bytes := List UInt8

/-! ## Fixed-width integers -/

/-- The `k` low bytes of `n`, least significant first. -/
def le : Nat → Nat → List UInt8
  | 0, _ => []
  | k + 1, n => UInt8.ofNat n :: le k (n / 256)

def ofLe : List UInt8 → Nat
  | [] => 0
  | b :: bs => b.toNat + 256 * ofLe bs

def be (k n : Nat) : List UInt8 := (le k n).reverse

def ofBe (bs : List UInt8) : Nat := ofLe bs.reverse

@[simp] theorem le_length (k n : Nat) : (le k n).length = k := by
  induction k generalizing n with
  | zero => rfl
  | succ k ih => simp [le, ih]

@[simp] theorem be_length (k n : Nat) : (be k n).length = k := by
  simp [be]

theorem ofLe_le (k n : Nat) (h : n < 256 ^ k) : ofLe (le k n) = n := by
  induction k generalizing n with
  | zero => simp at h; subst h; rfl
  | succ k ih =>
    have hdiv : n / 256 < 256 ^ k := by
      rw [Nat.div_lt_iff_lt_mul (by decide)]
      simpa [Nat.pow_succ] using h
    simp only [le, ofLe, ih _ hdiv, UInt8.toNat_ofNat']
    omega

theorem ofBe_be (k n : Nat) (h : n < 256 ^ k) : ofBe (be k n) = n := by
  simp [ofBe, be, ofLe_le k n h]

theorem ofLe_lt (bs : List UInt8) : ofLe bs < 256 ^ bs.length := by
  induction bs with
  | nil => simp [ofLe]
  | cons b bs ih =>
    have hb := b.toNat_lt
    simp only [ofLe, List.length_cons, Nat.pow_succ]
    omega

theorem ofLe_append (xs ys : List UInt8) : ofLe (xs ++ ys) = ofLe xs + 256 ^ xs.length * ofLe ys := by
  induction xs with
  | nil => simp [ofLe]
  | cons x xs ih =>
    rw [List.cons_append, ofLe, ofLe, ih, List.length_cons, Nat.mul_add, Nat.pow_succ', Nat.mul_assoc, Nat.add_assoc]

theorem le_ofLe (bs : List UInt8) : le bs.length (ofLe bs) = bs := by
  induction bs with
  | nil => rfl
  | cons b bs ih =>
    have hb := b.toNat_lt
    have hdiv : (b.toNat + 256 * ofLe bs) / 256 = ofLe bs := by omega
    simp only [List.length_cons, ofLe, le, hdiv, ih, List.cons.injEq, and_true]
    apply UInt8.toNat_inj.mp
    simp only [UInt8.toNat_ofNat']
    omega

/-! ## Either order -/

def num (big : Bool) (k n : Nat) : List UInt8 := if big then be k n else le k n

def ofNum (big : Bool) (bs : List UInt8) : Nat := if big then ofBe bs else ofLe bs

@[simp] theorem num_length (big : Bool) (k n : Nat) : (num big k n).length = k := by
  cases big <;> simp [num]

theorem ofNum_num (big : Bool) (k n : Nat) (h : n < 256 ^ k) : ofNum big (num big k n) = n := by
  cases big with
  | true => exact ofBe_be k n h
  | false => exact ofLe_le k n h

/-! ## Readers -/

abbrev Reader (ε α : Type) := StateT (List UInt8) (Except ε) α

variable {n : Nat}

section
variable {ε α β : Type}

def take (err : ε) (n : Nat) : Reader ε (List UInt8) := fun bs =>
  if n ≤ bs.length then .ok (bs.take n, bs.drop n) else .error err

def fail (err : ε) : Reader ε α := fun _ => .error err

def remaining : Reader ε Nat := fun bs => .ok (bs.length, bs)

def times (r : Reader ε α) : Nat → Reader ε (List α)
  | 0 => pure []
  | n + 1 => do
    let a ← r
    let as ← times r n
    pure (a :: as)

/-- Items to the end of the input, at most `fuel` of them. -/
def untilEnd (r : Reader ε α) : Nat → List UInt8 → Except ε (List α)
  | 0, _ => .ok []
  | _ + 1, [] => .ok []
  | fuel + 1, b :: bs => do
    let (a, rest) ← r (b :: bs)
    let as ← untilEnd r fuel rest
    .ok (a :: as)

/-- `r` consumes exactly `bs` and returns `a`, whatever follows `bs`. -/
def Reads (r : Reader ε α) (bs : List UInt8) (a : α) : Prop :=
  ∀ rest, r (bs ++ rest) = .ok (a, rest)

theorem bind_apply (r : Reader ε α) (f : α → Reader ε β) (bs : List UInt8) :
    (r >>= f) bs = (match r bs with | .ok (a, rest) => f a rest | .error e => .error e) := by
  show (r bs >>= fun p => f p.1 p.2) = _
  cases r bs <;> rfl

variable {r : Reader ε α} {bs : List UInt8} {a : α} {f : α → Reader ε β}

theorem bind_of_ok {rest : List UInt8} (h : r bs = .ok (a, rest)) (f : α → Reader ε β) : (r >>= f) bs = f a rest := by
  rw [bind_apply, h]

@[simp] theorem pure_apply (a : α) (bs : List UInt8) : (pure a : Reader ε α) bs = .ok (a, bs) := rfl

theorem reads_pure (a : α) : Reads (pure a : Reader ε α) [] a := fun _ => rfl

theorem Reads.bind {cs : List UInt8} {b : β} (hr : Reads r bs a) (hf : Reads (f a) cs b) :
    Reads (r >>= f) (bs ++ cs) b := by
  intro rest
  rw [bind_apply, List.append_assoc, hr]
  exact hf rest

theorem Reads.map (hr : Reads r bs a) (f : α → β) : Reads (r >>= fun x => pure (f x)) bs (f a) := by
  have := hr.bind (f := fun x => pure (f x)) (reads_pure (f a))
  rwa [List.append_nil] at this

theorem reads_take (err : ε) (bs : List UInt8) : Reads (take err bs.length) bs bs := by
  intro rest
  simp [take]

theorem reads_take_of_length (err : ε) (h : bs.length = n) :
    Reads (take err n) bs bs := h ▸ reads_take err bs

theorem length_le_flatMap {enc : α → List UInt8} {l : List α} (h : ∀ a ∈ l, enc a ≠ []) :
    l.length ≤ (l.flatMap enc).length := by
  induction l with
  | nil => exact Nat.zero_le _
  | cons a l ih =>
    have ha := List.length_pos_iff.mpr (h a (List.mem_cons_self ..))
    have hl := ih fun b hb => h b (List.mem_cons_of_mem _ hb)
    rw [List.flatMap_cons, List.length_append, List.length_cons]
    omega

theorem reads_times (enc : α → List UInt8) (l : List α) (h : ∀ a ∈ l, Reads r (enc a) a) :
    Reads (times r l.length) (l.flatMap enc) l := by
  induction l with
  | nil => exact reads_pure []
  | cons a l ih =>
    have hl := ih fun b hb => h b (List.mem_cons_of_mem _ hb)
    exact (h a (List.mem_cons_self ..)).bind (hl.map (a :: ·))

/-! ## Readers that do not look behind what they consume -/

/-- Bytes behind the input are left alone. -/
def Oblivious (r : Reader ε α) : Prop :=
  ∀ bs a rest, r bs = .ok (a, rest) → ∀ more, r (bs ++ more) = .ok (a, rest ++ more)

theorem oblivious_pure (a : α) : Oblivious (pure a : Reader ε α) := by
  intro bs b rest h more
  cases h
  rfl

theorem oblivious_fail (err : ε) : Oblivious (fail err : Reader ε α) := fun _ _ _ h => nomatch h

theorem oblivious_take (err : ε) (n : Nat) : Oblivious (take err n) := by
  intro bs a rest h more
  unfold take at h ⊢
  split at h
  case isFalse => cases h
  case isTrue hn =>
    cases h
    rw [if_pos (by rw [List.length_append]; omega), List.take_append_of_le_length hn,
      List.drop_append_of_le_length hn]

theorem Oblivious.bind (hr : Oblivious r) (hf : ∀ a, Oblivious (f a)) : Oblivious (r >>= f) := by
  intro bs b rest h more
  rw [bind_apply] at h
  split at h
  case h_2 => cases h
  case h_1 a rest' ha =>
    rw [bind_of_ok (hr bs a rest' ha more)]
    exact hf a rest' b rest h more

theorem Oblivious.map (hr : Oblivious r) (f : α → β) :
    Oblivious (r >>= fun x => pure (f x)) := hr.bind fun _ => oblivious_pure _

theorem Oblivious.times (hr : Oblivious r) (n : Nat) : Oblivious (times r n) := by
  induction n with
  | zero => exact oblivious_pure []
  | succ n ih => exact hr.bind fun a => ih.map (a :: ·)

theorem Oblivious.not_reads_front (hr : Oblivious r) {front back : Bytes}
    (h : r (front ++ back) = .ok (a, [])) (hback : back ≠ []) : ∃ e, r front = .error e := by
  cases hfront : r front with
  | error e => exact ⟨e, rfl⟩
  | ok p =>
    have hmore := hr front p.1 p.2 hfront back
    rw [h] at hmore
    have hnil := (Prod.mk.inj (Except.ok.inj hmore)).2
    exact absurd (List.append_eq_nil_iff.mp hnil.symm).2 hback

end

/-! ## Writers that may fail, and the readers that undo them -/

section
variable {ε ε' α β : Type} {r : Reader ε α} {f : α → Except ε β} {l : List α} {bs : List β} {w : α → Except ε' Bytes}
  {x : Except ε α} {fuel : Nat}

theorem untilEnd_flatMap (enc : α → List UInt8) (l : List α) (h : ∀ a ∈ l, Reads r (enc a) a ∧ enc a ≠ [])
    (hf : (l.flatMap enc).length ≤ fuel) : untilEnd r fuel (l.flatMap enc) = .ok l := by
  induction l generalizing fuel with
  | nil => cases fuel <;> rfl
  | cons a l ih =>
    obtain ⟨hread, hne⟩ := h a (List.mem_cons_self ..)
    obtain ⟨b, bs, hb⟩ := List.exists_cons_of_ne_nil hne
    rw [List.flatMap_cons, hb, List.length_append, List.length_cons] at hf
    cases fuel with
    | zero => omega
    | succ fuel =>
      have htail := ih (fun x hx => h x (List.mem_cons_of_mem _ hx)) (show (l.flatMap enc).length ≤ fuel by omega)
      have hhead := hread (l.flatMap enc)
      rw [hb] at hhead
      rw [List.flatMap_cons, hb, List.cons_append, untilEnd, ← List.cons_append, hhead]
      show (untilEnd r fuel (l.flatMap enc) >>= fun as => Except.ok (a :: as)) = _
      rw [htail]
      rfl

theorem bind_eq_ok {b : β} : (x >>= f) = .ok b ↔ ∃ a, x = .ok a ∧ f a = .ok b := by
  cases x with
  | error e => simp [bind, Except.bind]
  | ok a => simp [bind, Except.bind]

theorem exists_of_isOk (h : x.isOk = true) : ∃ a, x = .ok a := by
  cases x with
  | error e => cases h
  | ok a => exact ⟨a, rfl⟩

theorem times_eq_ok {bs rest : Bytes} (h : times r n bs = .ok (l, rest)) :
    l.length = n ∧ ∀ a ∈ l, ∃ bs rest, r bs = .ok (a, rest) := by
  induction n generalizing bs rest l with
  | zero =>
    obtain ⟨rfl, -⟩ := Prod.mk.inj (Except.ok.inj h)
    simp
  | succ n ih =>
    obtain ⟨⟨a, rest₁⟩, ha, h⟩ := bind_eq_ok.mp h
    obtain ⟨⟨as, rest₂⟩, has, h⟩ := bind_eq_ok.mp h
    obtain ⟨rfl, -⟩ := Prod.mk.inj (Except.ok.inj h)
    obtain ⟨hlen, hall⟩ := ih has
    exact ⟨by simp [hlen], List.forall_mem_cons.mpr ⟨⟨bs, rest₁, ha⟩, hall⟩⟩

theorem untilEnd_forall {P : α → Prop} (h : ∀ bs a rest, r bs = .ok (a, rest) → P a) {bs : Bytes}
    (hl : untilEnd r fuel bs = .ok l) : ∀ a ∈ l, P a := by
  induction fuel generalizing bs l with
  | zero =>
    cases hl
    simp
  | succ fuel ih =>
    cases bs with
    | nil =>
      cases hl
      simp
    | cons b bs =>
      obtain ⟨⟨a, rest⟩, ha, hl⟩ := bind_eq_ok.mp hl
      obtain ⟨as, has, hl⟩ := bind_eq_ok.mp hl
      cases hl
      exact List.forall_mem_cons.mpr ⟨h _ a rest ha, ih has⟩

theorem forall₂_of_mapM (h : l.mapM f = .ok bs) : List.Forall₂ (fun a b => f a = .ok b) l bs := by
  induction l generalizing bs with
  | nil =>
    cases h
    exact .nil
  | cons a l ih =>
    rw [List.mapM_cons, bind_eq_ok] at h
    obtain ⟨b, hb, h⟩ := h
    obtain ⟨rest, hrest, h⟩ := bind_eq_ok.mp h
    cases h
    exact .cons hb (ih hrest)

theorem mem_of_mapM {b : β} (h : l.mapM f = .ok bs) (hb : b ∈ bs) : ∃ a ∈ l, f a = .ok b := by
  have hall := forall₂_of_mapM h
  clear h
  induction hall with
  | nil => cases hb
  | cons ha _ ih =>
    rcases List.mem_cons.mp hb with rfl | hb
    · exact ⟨_, List.mem_cons_self .., ha⟩
    · obtain ⟨a, hmem, ha⟩ := ih hb
      exact ⟨a, List.mem_cons_of_mem _ hmem, ha⟩

theorem exists_of_mapM (h : l.mapM f = .ok bs) : ∀ a ∈ l, ∃ b, f a = .ok b := by
  have hall := forall₂_of_mapM h
  clear h
  induction hall with
  | nil => simp
  | cons ha _ ih => exact List.forall_mem_cons.mpr ⟨⟨_, ha⟩, ih⟩

theorem mapM_of_forall₂ (h : List.Forall₂ (fun a b => f a = .ok b) l bs) : l.mapM f = .ok bs := by
  induction h with
  | nil => rfl
  | cons hb _ ih =>
    rw [List.mapM_cons, hb, ih]
    rfl

theorem eq_map_of_mapM {g : α → β} (hg : ∀ a b, f a = .ok b → b = g a) (h : l.mapM f = .ok bs) : bs = l.map g := by
  have hall := forall₂_of_mapM h
  clear h
  induction hall with
  | nil => rfl
  | cons ha _ ih => rw [List.map_cons, hg _ _ ha, ih]

theorem mapM_eq_map {g : α → β} (h : ∀ a ∈ l, f a = .ok (g a)) : l.mapM f = .ok (l.map g) := by
  induction l with
  | nil => rfl
  | cons a l ih =>
    rw [List.mapM_cons, h a (List.mem_cons_self ..), ih fun b hb => h b (List.mem_cons_of_mem _ hb)]
    rfl

def writeAll (w : α → Except ε Bytes) : List α → Except ε Bytes
  | [] => .ok []
  | a :: l => do
    let bs ← w a
    let rest ← writeAll w l
    .ok (bs ++ rest)

theorem writeAll_eq_mapM (w : α → Except ε Bytes) (l : List α) : writeAll w l = (l.mapM w).map List.flatten := by
  induction l with
  | nil => rfl
  | cons a l ih =>
    rw [writeAll, ih, List.mapM_cons]
    cases w a with
    | error e => rfl
    | ok bs => cases l.mapM w <;> rfl

theorem writeAll_ok {w : α → Except ε Bytes} (h : ∀ a ∈ l, ∃ bs, w a = .ok bs) : ∃ bs, writeAll w l = .ok bs := by
  induction l with
  | nil => exact ⟨[], rfl⟩
  | cons a l ih =>
    obtain ⟨⟨bs, hbs⟩, hl⟩ := List.forall_mem_cons.mp h
    obtain ⟨rest, hrest⟩ := ih hl
    refine ⟨bs ++ rest, ?_⟩
    rw [writeAll, hbs, hrest]
    rfl

/-- What `w` writes for `a`, `r` reads back as `a`; and it is at least `m` bytes long. -/
def Codes (m : Nat) (w : α → Except ε' Bytes) (r : Reader ε α) (a : α) : Prop :=
  ∀ bs, w a = .ok bs → Reads r bs a ∧ m ≤ bs.length

theorem codes_writeAll {m : Nat} (h : ∀ a ∈ l, Codes m w r a) :
    ∀ bs, writeAll w l = .ok bs → Reads (times r l.length) bs l ∧ l.length * m ≤ bs.length := by
  induction l with
  | nil =>
    intro bs hbs
    cases hbs
    exact ⟨reads_pure [], by simp⟩
  | cons a l ih =>
    intro bs hbs
    simp only [writeAll, bind_eq_ok] at hbs
    obtain ⟨bs₁, h₁, bs₂, h₂, hcat⟩ := hbs
    cases hcat
    obtain ⟨hr₁, hl₁⟩ := h a (List.mem_cons_self ..) bs₁ h₁
    obtain ⟨hr₂, hl₂⟩ := ih (fun b hb => h b (List.mem_cons_of_mem _ hb)) bs₂ h₂
    refine ⟨hr₁.bind (hr₂.map (a :: ·)), ?_⟩
    simp only [List.length_cons, List.length_append, Nat.succ_mul]
    omega

/-- Whatever `r` reads, `w` writes as the bytes it was read from. -/
def Restores (w : α → Except ε' Bytes) (r : Reader ε α) : Prop :=
  ∀ bs a rest, r bs = .ok (a, rest) → ∃ used, w a = .ok used ∧ bs = used ++ rest

theorem take_eq_ok {err : ε} {bs data rest : Bytes} (h : take err n bs = .ok (data, rest)) :
    data.length = n ∧ bs = data ++ rest := by
  unfold take at h
  split at h
  case isFalse => cases h
  case isTrue hn =>
    cases h
    exact ⟨List.length_take_of_le hn, (List.take_append_drop n bs).symm⟩

theorem Restores.times (h : Restores w r) (n : Nat) : Restores (writeAll w) (times r n) := by
  induction n with
  | zero =>
    intro bs l rest hl
    cases hl
    exact ⟨[], rfl, rfl⟩
  | succ n ih =>
    intro bs l rest hl
    obtain ⟨⟨a, rest₁⟩, ha, hl⟩ := bind_eq_ok.mp hl
    obtain ⟨⟨as, rest₂⟩, has, hl⟩ := bind_eq_ok.mp hl
    obtain ⟨rfl, rfl⟩ := Prod.mk.inj (Except.ok.inj hl)
    obtain ⟨used₁, hw₁, rfl⟩ := h bs a rest₁ ha
    obtain ⟨used₂, hw₂, rfl⟩ := ih rest₁ as rest₂ has
    refine ⟨used₁ ++ used₂, ?_, (List.append_assoc ..).symm⟩
    exact bind_eq_ok.mpr ⟨used₁, hw₁, bind_eq_ok.mpr ⟨used₂, hw₂, rfl⟩⟩

/-- What `w` writes for `a`, `r` reads as `b`. -/
def CodesAs (w : α → Except ε' Bytes) (r : Reader ε β) (a : α) (b : β) : Prop :=
  ∀ bs, w a = .ok bs → Reads r bs b

theorem codesAs_writeAll {r : Reader ε β} {f : α → β} (h : ∀ a ∈ l, CodesAs w r a (f a)) :
    CodesAs (writeAll w) (times r l.length) l (l.map f) := by
  induction l with
  | nil =>
    intro bs hbs
    cases hbs
    exact reads_pure []
  | cons a l ih =>
    intro bs hbs
    simp only [writeAll, bind_eq_ok] at hbs
    obtain ⟨bs₁, h₁, bs₂, h₂, hcat⟩ := hbs
    cases hcat
    exact (h a (List.mem_cons_self ..) bs₁ h₁).bind
      ((ih (fun b hb => h b (List.mem_cons_of_mem _ hb)) bs₂ h₂).map (f a :: ·))

end

end Wire
