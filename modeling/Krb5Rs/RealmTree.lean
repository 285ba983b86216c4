import Krb5Rs.Labels
import Krb5Rs.Transit

/-!
# The hierarchical path between two realms

The byte scans of `hier_tree` read as label lists: `comtail` and `adjtail`
find the longest common tail of whole labels, and the two `tweens` are the two
sides of the path around it.
-/

namespace Krb5Rs

namespace Transit

open Wire (Bytes)
open Labels

/-! ## The common tail of the bytes -/

def EndApart (x y : Bytes) : Prop := x = [] ∨ y = [] ∨ x.getLast? ≠ y.getLast?

variable {x y c s r : Bytes} {sep : UInt8}

theorem endApart_of_apart (h : Apart x y) : EndApart x y := by
  rcases List.eq_nil_or_concat x with rfl | ⟨x', a, rfl⟩
  · exact Or.inl rfl
  rcases List.eq_nil_or_concat y with rfl | ⟨y', b, rfl⟩
  · exact Or.inr (Or.inl rfl)
  refine Or.inr (Or.inr ?_)
  simp only [List.concat_eq_append, List.getLast?_concat, ne_eq, Option.some.injEq]
  rintro rfl
  exact h [a] (by simp) ⟨x', by simp⟩ ⟨y', by simp⟩

/-- The leftmost separator of a tail that starts at `n` and `m`. -/
def firstDot (sep : UInt8) (n m : Nat) (z : Bytes) : Option (Nat × Nat) :=
  (z.findIdx? (· = sep)).map fun i => (n + i, m + i)

theorem firstDot_cons (sep : UInt8) (n m : Nat) (b : UInt8) (z : Bytes) :
    firstDot sep n m (b :: z) = if b = sep then some (n, m) else firstDot sep (n + 1) (m + 1) z := by
  unfold firstDot
  rw [List.findIdx?_cons]
  by_cases h : b = sep
  · simp [h]
  simp only [h, decide_false, if_false, Option.map_map, Bool.false_eq_true]
  congr 1
  funext i
  simp only [Function.comp_apply, Prod.mk.injEq]
  omega

theorem getElem?_length_append (x z : Bytes) (b : UInt8) : (x ++ b :: z)[x.length]? = some b := by
  simp

theorem comtailLoop_stop {client server : Bytes} {z : Bytes} (hc : client = x ++ z)
    (hs : server = y ++ z) (h : EndApart x y) (dots : Option (Nat × Nat)) :
    comtailLoop client server sep x.length y.length dots = ⟨x.length, y.length, dots⟩ := by
  rcases List.eq_nil_or_concat x with rfl | ⟨x', a, rfl⟩
  · simp [comtailLoop]
  rcases List.eq_nil_or_concat y with rfl | ⟨y', b, rfl⟩
  · simp [comtailLoop]
  have hab : a ≠ b := by
    rcases h with h | h | h
    · simp at h
    · simp at h
    · simpa using h
  subst hc hs
  simp [comtailLoop, hab]

theorem comtailLoop_tail {client server : Bytes} (sep : UInt8) (h : EndApart x y) (z w : Bytes)
    (hc : client = x ++ z ++ w) (hs : server = y ++ z ++ w) :
    comtailLoop client server sep (x ++ z).length (y ++ z).length (firstDot sep (x ++ z).length (y ++ z).length w) =
      ⟨x.length, y.length, firstDot sep x.length y.length (z ++ w)⟩ := by
  induction z using List.reverseRecOn generalizing w with
  | nil =>
    simp only [List.append_nil, List.nil_append] at hc hs ⊢
    exact comtailLoop_stop hc hs h _
  | append_singleton z b ih =>
    have hc' : client = x ++ z ++ (b :: w) := by simp [hc]
    have hs' : server = y ++ z ++ (b :: w) := by simp [hs]
    have := ih (b :: w) hc' hs'
    rw [firstDot_cons] at this
    have hxlen : (x ++ (z ++ [b])).length = (x ++ z).length + 1 := by simp; omega
    have hylen : (y ++ (z ++ [b])).length = (y ++ z).length + 1 := by simp; omega
    have hcb : client[(x ++ z).length]? = some b := by rw [hc']; exact getElem?_length_append _ _ _
    have hsb : server[(y ++ z).length]? = some b := by rw [hs']; exact getElem?_length_append _ _ _
    rw [hxlen, hylen, comtailLoop, hcb, hsb, if_neg (by simp), List.append_assoc, List.singleton_append]
    simp only [Option.some.injEq]
    exact this

theorem comtail_eq {z : Bytes} (h : EndApart x y) (hc : x ++ z ≠ []) (hs : y ++ z ≠ []) :
    comtail (x ++ z) (y ++ z) sep =
      if z = [] then none else some ⟨x.length, y.length, firstDot sep x.length y.length z⟩ := by
  have hloop := comtailLoop_tail sep h z [] (List.append_nil _).symm (List.append_nil _).symm
  rw [List.append_nil] at hloop
  have hnone : firstDot sep (x ++ z).length (y ++ z).length [] = none := rfl
  rw [hnone] at hloop
  unfold comtail
  rw [if_neg (by simp only [List.isEmpty_iff, not_or]; exact ⟨hc, hs⟩), hloop]
  simp only [List.length_append, Nat.left_eq_add, List.length_eq_zero_iff]

/-! ## Cut back to whole labels -/

def AtLabel (sep : UInt8) (x : Bytes) : Prop := x = [] ∨ x.getLast? = some sep

theorem atLabel_append {l : Bytes} (hx : AtLabel sep x) (hl : sep ∉ l) : AtLabel sep (x ++ l) ↔ l = [] := by
  constructor
  · intro h
    by_contra hne
    rcases h with h | h
    · exact hne (List.append_eq_nil_iff.mp h).2
    · rw [List.getLast?_append_of_ne_nil _ hne] at h
      exact hl (List.mem_of_getLast? h)
  · rintro rfl
    rwa [List.append_nil]

theorem atLabel_iff (sep : UInt8) (x z : Bytes) :
    AtLabel sep x ↔ x.length = 0 ∨ (x ++ z)[x.length - 1]? = some sep := by
  rcases List.eq_nil_or_concat x with rfl | ⟨x', a, rfl⟩
  · simp [AtLabel]
  · simp [AtLabel]

theorem adjtail_full (z : Bytes) (hx : AtLabel sep x) (hy : AtLabel sep y) (dots : Option (Nat × Nat)) :
    adjtail (x ++ z) (y ++ z) sep ⟨x.length, y.length, dots⟩ = some (x.length, y.length) := by
  unfold adjtail
  rw [if_pos ⟨(atLabel_iff sep x z).mp hx, (atLabel_iff sep y z).mp hy⟩]

theorem adjtail_cut (z : Bytes) (h : ¬(AtLabel sep x ∧ AtLabel sep y)) (dots : Option (Nat × Nat)) :
    adjtail (x ++ z) (y ++ z) sep ⟨x.length, y.length, dots⟩ = dots.bind fun d =>
      if d.1 + 1 ≥ (x ++ z).length ∨ d.2 + 1 ≥ (y ++ z).length then none else some (d.1 + 1, d.2 + 1) := by
  unfold adjtail
  rw [if_neg (by rwa [← atLabel_iff, ← atLabel_iff])]
  cases dots <;> rfl

theorem firstDot_append {u : Bytes} (hu : sep ∉ u) (n m : Nat) (w : Bytes) :
    firstDot sep n m (u ++ w) = firstDot sep (n + u.length) (m + u.length) w := by
  induction u generalizing n m with
  | nil => rfl
  | cons b u ih =>
    have hb : b ≠ sep := fun h => hu (h ▸ List.mem_cons_self)
    rw [List.cons_append, firstDot_cons, if_neg hb, ih fun h => hu (List.mem_cons_of_mem _ h), List.length_cons]
    congr 1 <;> omega

/-! ## In terms of labels -/

def stem (sep : UInt8) (ls : List Bytes) : Bytes := if ls = [] then [] else join sep ls ++ [sep]

theorem join_stem (sep : UInt8) (ls : List Bytes) {ms : List Bytes} (h : ms ≠ []) :
    join sep (ls ++ ms) = stem sep ls ++ join sep ms := by
  unfold stem
  split
  · rename_i hls
    rw [hls, List.nil_append, List.nil_append]
  · rename_i hls
    rw [join_append hls h, List.append_assoc, List.singleton_append]

theorem atLabel_stem (sep : UInt8) (ls : List Bytes) : AtLabel sep (stem sep ls) := by
  unfold stem
  split
  · exact Or.inl rfl
  · exact Or.inr (by simp)

def trail (sep : UInt8) (ls : List Bytes) : Bytes := if ls = [] then [] else sep :: join sep ls

theorem join_trail (sep : UInt8) (l : Bytes) (ls : List Bytes) : join sep (l :: ls) = l ++ trail sep ls := by
  unfold trail
  split
  · rename_i h
    rw [h, join_singleton, List.append_nil]
  · rename_i h
    rw [join_cons l h]

theorem trail_tail (sep : UInt8) (ls : List Bytes) : (trail sep ls).tail = join sep ls := by
  unfold trail
  split
  · rename_i h
    rw [h]
    rfl
  · rfl

theorem trail_cases (sep : UInt8) (ls : List Bytes) : trail sep ls = [] ∨ ∃ rest, trail sep ls = sep :: rest := by
  unfold trail
  split
  · exact Or.inl rfl
  · exact Or.inr ⟨_, rfl⟩

theorem endApart_labels {a b : Bytes} (hx : AtLabel sep x) (hy : AtLabel sep y) (ha : sep ∉ a)
    (hb : sep ∉ b) (hap : Apart a b) (hne : ¬(a = [] ∧ b = [])) : EndApart (x ++ a) (y ++ b) := by
  by_cases ha0 : a = []
  · have hb0 := fun h => hne ⟨ha0, h⟩
    subst ha0
    rw [List.append_nil]
    rcases hx with hx | hx
    · exact Or.inl hx
    · refine Or.inr (Or.inr ?_)
      rw [hx, List.getLast?_append_of_ne_nil _ hb0]
      exact fun h => hb (List.mem_of_getLast? h.symm)
  · by_cases hb0 : b = []
    · subst hb0
      rw [List.append_nil]
      rcases hy with hy | hy
      · exact Or.inr (Or.inl hy)
      · refine Or.inr (Or.inr ?_)
        rw [hy, List.getLast?_append_of_ne_nil _ ha0]
        exact fun h => ha (List.mem_of_getLast? h)
    · refine Or.inr (Or.inr ?_)
      rw [List.getLast?_append_of_ne_nil _ ha0, List.getLast?_append_of_ne_nil _ hb0]
      exact ((endApart_of_apart hap).resolve_left ha0).resolve_left hb0

theorem tails_of_labels (A B : List Bytes) {a b : Bytes} (hab : a ≠ b) (ha : sep ∉ a) (hb : sep ∉ b)
    (ha' : a ≠ []) (hb' : b ≠ []) (w : Bytes) (hw : w = [] ∨ ∃ v, v ≠ [] ∧ w = sep :: v) :
    (comtail (stem sep A ++ a ++ w) (stem sep B ++ b ++ w) sep).bind
        (adjtail (stem sep A ++ a ++ w) (stem sep B ++ b ++ w) sep) =
      if w = [] then none else some ((stem sep A ++ a).length + 1, (stem sep B ++ b).length + 1) := by
  obtain ⟨a₁, b₁, u, rfl, rfl, hap⟩ := exists_common_tail a b
  have hu := fun h => ha (List.mem_append_right _ h)
  have ha₁ := fun h => ha (List.mem_append_left _ h)
  have hb₁ := fun h => hb (List.mem_append_left _ h)
  have hcut : ¬(AtLabel sep (stem sep A ++ a₁) ∧ AtLabel sep (stem sep B ++ b₁)) := by
    rw [atLabel_append (atLabel_stem sep A) ha₁, atLabel_append (atLabel_stem sep B) hb₁]
    rintro ⟨rfl, rfl⟩
    exact hab rfl
  have hend : EndApart (stem sep A ++ a₁) (stem sep B ++ b₁) := by
    apply endApart_labels (atLabel_stem sep A) (atLabel_stem sep B) ha₁ hb₁ hap
    rintro ⟨rfl, rfl⟩
    exact hab rfl
  have hc : stem sep A ++ (a₁ ++ u) ++ w = stem sep A ++ a₁ ++ (u ++ w) := by simp
  have hs : stem sep B ++ (b₁ ++ u) ++ w = stem sep B ++ b₁ ++ (u ++ w) := by simp
  have hcne : stem sep A ++ a₁ ++ (u ++ w) ≠ [] := by
    rw [← hc]
    exact fun h => ha' (List.append_eq_nil_iff.mp (List.append_eq_nil_iff.mp h).1).2
  have hsne : stem sep B ++ b₁ ++ (u ++ w) ≠ [] := by
    rw [← hs]
    exact fun h => hb' (List.append_eq_nil_iff.mp (List.append_eq_nil_iff.mp h).1).2
  rw [hc, hs, comtail_eq hend hcne hsne]
  rcases hw with rfl | ⟨v, hv, rfl⟩
  · by_cases hu0 : u = []
    · simp [hu0]
    · rw [List.append_nil, if_neg hu0, if_pos rfl, Option.bind_some, adjtail_cut u hcut]
      have := firstDot_append hu (stem sep A ++ a₁).length (stem sep B ++ b₁).length []
      rw [List.append_nil] at this
      rw [this]
      rfl
  · have hvlen := List.length_pos_iff.mpr hv
    rw [if_neg (by simp), if_neg (by simp), Option.bind_some, adjtail_cut _ hcut, firstDot_append hu, firstDot_cons,
      if_pos rfl, Option.bind_some, if_neg]
    · simp only [List.length_append, Option.some.injEq, Prod.mk.injEq]
      omega
    · simp only [List.length_append, List.length_cons]
      omega

theorem tails_eq {A B T : List Bytes} (hA : Proper sep A) (hB : Proper sep B) (hT : Proper sep T)
    (hap : Apart A B) (hc : A ++ T ≠ []) (hs : B ++ T ≠ []) :
    (comtail (join sep (A ++ T)) (join sep (B ++ T)) sep).bind (adjtail (join sep (A ++ T)) (join sep (B ++ T)) sep) =
      if T = [] then none
      else some ((join sep (A ++ T)).length - (join sep T).length, (join sep (B ++ T)).length - (join sep T).length) := by
  by_cases hside : A = [] ∨ B = []
  · -- one name is an ancestor of the other
    have hT0 : T ≠ [] := by
      rintro rfl
      rw [List.append_nil] at hc hs
      exact hside.elim hc hs
    have hend : EndApart (stem sep A) (stem sep B) := by
      rcases hside with h | h
      · exact Or.inl (by simp [stem, h])
      · exact Or.inr (Or.inl (by simp [stem, h]))
    have hj := join_ne_nil hT hT0
    rw [if_neg hT0, join_stem sep A hT0, join_stem sep B hT0, comtail_eq hend (by simp [hj]) (by simp [hj]), if_neg hj,
      Option.bind_some, adjtail_full _ (atLabel_stem sep A) (atLabel_stem sep B)]
    simp only [List.length_append, Nat.add_sub_cancel]
  · obtain ⟨hA0, hB0⟩ := not_or.mp hside
    obtain ⟨A', a, rfl⟩ := (List.eq_nil_or_concat A).resolve_left hA0
    obtain ⟨B', b, rfl⟩ := (List.eq_nil_or_concat B).resolve_left hB0
    simp only [List.concat_eq_append] at *
    have ha := hA a (by simp)
    have hb := hB b (by simp)
    have hab : a ≠ b := by
      rintro rfl
      exact hap [a] (by simp) (List.suffix_append A' [a]) (List.suffix_append B' [a])
    have hjoin : ∀ (L : List Bytes) (l : Bytes), join sep (L ++ [l] ++ T) = stem sep L ++ l ++ trail sep T := by
      intro L l
      rw [List.append_assoc, List.singleton_append, join_stem sep L (by simp), join_trail, List.append_assoc]
    rw [hjoin, hjoin, tails_of_labels A' B' hab ha.2 hb.2 ha.1 hb.1]
    · by_cases hT0 : T = []
      · simp [hT0, trail]
      · simp only [trail, hT0, if_false, List.length_append, List.length_cons, reduceCtorEq, Option.some.injEq,
          Prod.mk.injEq]
        omega
    · by_cases hT0 : T = []
      · exact Or.inl (if_pos hT0)
      · exact Or.inr ⟨join sep T, join_ne_nil hT hT0, if_neg hT0⟩

/-! ## The two sides of the path -/

section
variable {r : Bytes} {rtail : Option Nat} {dotail : Bool} {sep : UInt8}

theorem tweensFrom_skip {u rest : Bytes} (hu : sep ∉ u) (hrest : rest ≠ []) (lp p : Nat)
    (hlen : p + u.length + rest.length = r.length) :
    tweensFrom r rtail dotail sep lp p (u ++ rest) = tweensFrom r rtail dotail sep lp (p + u.length) rest := by
  have hpos := List.length_pos_iff.mpr hrest
  induction u generalizing p with
  | nil => rfl
  | cons b u ih =>
    have hb : b ≠ sep := fun h => hu (h ▸ List.mem_cons_self)
    rw [List.length_cons] at hlen
    rw [List.cons_append, tweensFrom, if_pos ⟨hb, by omega⟩, ih (fun h => hu (List.mem_cons_of_mem _ h)) (p + 1) (by omega),
      List.length_cons]
    congr 1
    omega

theorem tweensFrom_label {l rest : Bytes} (hl : l ≠ []) (hsep : sep ∉ l) (lp : Nat)
    (hrest : rest = [] ∨ ∃ rest', rest = sep :: rest') (hlen : lp + l.length + rest.length = r.length) :
    tweensFrom r rtail dotail sep lp lp (l ++ rest) =
      if some lp = rtail then if dotail then [r.drop lp] else []
      else r.drop lp :: tweensFrom r rtail dotail sep (lp + l.length + 1) (lp + l.length + 1) rest.tail := by
  rcases hrest with rfl | ⟨rest', rfl⟩
  · obtain ⟨l', b, rfl⟩ := (List.eq_nil_or_concat l).resolve_left hl
    simp only [List.concat_eq_append, List.length_append, List.length_nil, List.length_singleton] at hlen hsep ⊢
    rw [List.append_nil, tweensFrom_skip (fun h => hsep (List.mem_append_left _ h)) (by simp) lp lp (by simpa [Nat.add_assoc] using hlen),
      tweensFrom, if_neg (by omega)]
    by_cases h : some lp = rtail <;> cases dotail <;> simp [h, tweensFrom]
  · rw [tweensFrom_skip hsep (by simp) lp lp hlen, tweensFrom, if_neg (by simp)]
    by_cases h : some lp = rtail <;> cases dotail <;> simp [h]

end

theorem tweensFrom_join {A T : List Bytes} (hA : Proper sep A) (hT : Proper sep T) (dotail : Bool)
    {pre : Bytes} (hr : r = pre ++ join sep (A ++ T)) :
    tweensFrom r (if T = [] then none else some (r.length - (join sep T).length)) dotail sep pre.length pre.length
        (join sep (A ++ T)) =
      (climb A T ++ if T = [] ∨ dotail = false then [] else [T]).map (join sep) := by
  have hlen := congrArg List.length hr
  rw [List.length_append] at hlen
  induction A generalizing pre with
  | nil =>
    cases T with
    | nil => rfl
    | cons t T =>
      have ht := hT t List.mem_cons_self
      have hlp : some pre.length = some (r.length - (join sep (t :: T)).length) := by
        rw [List.nil_append] at hlen
        exact congrArg some (by omega)
      rw [List.nil_append, if_neg (by simp), join_trail, tweensFrom_label ht.1 ht.2 _ (trail_cases sep T), ← join_trail,
        if_pos hlp, hr, List.drop_left]
      · cases dotail <;> simp [climb]
      · rw [List.nil_append, join_trail, List.length_append] at hlen
        omega
  | cons a A ih =>
    have ha := hA a List.mem_cons_self
    have htail : some pre.length ≠ if T = [] then none else some (r.length - (join sep T).length) := by
      split
      · simp
      rename_i hT0
      have hstem : 0 < (stem sep (a :: A)).length := by simp [stem]
      rw [join_stem sep (a :: A) hT0, List.length_append] at hlen
      simp only [ne_eq, Option.some.injEq]
      omega
    have hlabel : pre.length + a.length + (trail sep (A ++ T)).length = r.length := by
      rw [List.cons_append, join_trail, List.length_append] at hlen
      omega
    rw [List.cons_append, join_trail, tweensFrom_label ha.1 ha.2 _ (trail_cases sep (A ++ T)) hlabel, if_neg htail,
      trail_tail]
    have hhead : r.drop pre.length = join sep (a :: A ++ T) := by rw [hr, List.drop_left]
    rw [hhead]
    by_cases hrest : A ++ T = []
    · obtain ⟨rfl, rfl⟩ := List.append_eq_nil_iff.mp hrest
      rfl
    have hr' : r = pre ++ a ++ [sep] ++ join sep (A ++ T) := by
      rw [hr, List.cons_append, join_cons a hrest]
      simp
    have hpre : (pre ++ a ++ [sep]).length = pre.length + a.length + 1 := by simp; omega
    have := ih (fun l hl => hA l (List.mem_cons_of_mem _ hl)) hr' (by rw [hr', List.length_append])
    rw [hpre] at this
    rw [this]
    rfl

theorem tweens_join {A T : List Bytes} (hA : Proper sep A) (hT : Proper sep T) (dotail : Bool) :
    tweens (join sep (A ++ T)) (if T = [] then none else some ((join sep (A ++ T)).length - (join sep T).length)) dotail sep =
      (climb A T ++ if T = [] ∨ dotail = false then [] else [T]).map (join sep) :=
  tweensFrom_join hA hT dotail (List.nil_append _).symm

theorem hierRealms_eq {A B T : List Bytes} (hA : Proper sep A) (hB : Proper sep B) (hT : Proper sep T)
    (hap : Apart A B) (hc : A ++ T ≠ []) (hs : B ++ T ≠ []) :
    hierRealms (join sep (A ++ T)) (join sep (B ++ T)) sep = (path A B T).map (join sep) := by
  unfold hierRealms
  rw [tails_eq hA hB hT hap hc hs]
  have hfst : ∀ n m : Nat, (if T = [] then none else some (n, m)).map Prod.fst = if T = [] then none else some n := by
    intro n m
    split <;> rfl
  have hsnd : ∀ n m : Nat, (if T = [] then none else some (n, m)).map Prod.snd = if T = [] then none else some m := by
    intro n m
    split <;> rfl
  dsimp only
  rw [hfst, hsnd, tweens_join hA hT, tweens_join hB hT, path]
  cases T <;> simp

/-! ## The shape of the path -/

theorem hopsFrom_instances (src : Bytes) (realms : List Bytes) : (hopsFrom src realms).map (·.instance) = realms := by
  induction realms generalizing src with
  | nil => rfl
  | cons dst realms ih => rw [hopsFrom, List.map_cons, ih]

theorem hopsFrom_linked (src : Bytes) (realms : List Bytes) :
    (hopsFrom src realms).IsChain fun g h => h.realm = g.instance := by
  induction realms generalizing src with
  | nil => exact List.isChain_nil
  | cons dst realms ih =>
    refine List.isChain_cons.mpr ⟨?_, ih dst⟩
    intro h hh
    cases realms with
    | nil => cases hh
    | cons dst' realms =>
      cases hh
      rfl

def labels (r : Bytes) : List Bytes := r.splitOn realmBranchChar

def DomainStyle (r : Bytes) : Prop := ∀ l ∈ labels r, l ≠ []

instance (r : Bytes) : Decidable (DomainStyle r) := inferInstanceAs (Decidable (∀ l ∈ labels r, l ≠ []))

def ChildOf (a b : Bytes) : Prop := ∃ l, l ≠ [] ∧ realmBranchChar ∉ l ∧ a = l ++ realmBranchChar :: b

def CrossesTop (c s a b : Bytes) : Prop :=
  Apart (labels c) (labels s) ∧ (labels c).getLast? = some a ∧ (labels s).getLast? = some b

theorem proper_labels (h : DomainStyle r) : Proper realmBranchChar (labels r) :=
  fun l hl => ⟨h l hl, notMem_of_mem_splitOn hl⟩

theorem join_labels (r : Bytes) : join realmBranchChar (labels r) = r := List.intercalate_splitOn realmBranchChar

theorem labels_ne_nil (r : Bytes) : labels r ≠ [] := List.splitOn_ne_nil realmBranchChar r

theorem exists_labels (hc : DomainStyle c) (hs : DomainStyle s) :
    ∃ A B T, labels c = A ++ T ∧ labels s = B ++ T ∧ Apart A B ∧ Proper realmBranchChar A ∧ Proper realmBranchChar B ∧
      Proper realmBranchChar T := by
  obtain ⟨A, B, T, hA, hB, hap⟩ := exists_common_tail (labels c) (labels s)
  have hpc := proper_labels hc
  have hps := proper_labels hs
  rw [hA] at hpc
  rw [hB] at hps
  exact ⟨A, B, T, hA, hB, hap, hpc.mono fun _ => List.mem_append_left T, hps.mono fun _ => List.mem_append_left T,
    hpc.mono fun _ => List.mem_append_right A⟩

def CrossesAt (c s : Bytes) (realms : List Bytes) (i : Nat) : Prop :=
  ∃ a b, realms[i]? = some a ∧ realms[i + 1]? = some b ∧ CrossesTop c s a b

structure RealmPath (c s : Bytes) (realms : List Bytes) : Prop where
  first : realms.head? = some c
  last : realms.getLast? = some s
  distinct : realms.Nodup
  steps : realms.IsChain fun a b => ChildOf a b ∨ ChildOf b a ∨ CrossesTop c s a b
  crossesOnce : ∀ i j, CrossesAt c s realms i → CrossesAt c s realms j → i = j

theorem crossesAt_unique {realms : List Bytes} (h : realms.Nodup) {i j : Nat} (hi : CrossesAt c s realms i)
    (hj : CrossesAt c s realms j) : i = j := by
  obtain ⟨a, b, hia, -, -, htop, -⟩ := hi
  obtain ⟨a', b', hja, -, -, htop', -⟩ := hj
  obtain rfl : a = a' := Option.some.inj (htop.symm.trans htop')
  exact (List.getElem?_inj (List.getElem?_eq_some_iff.mp hia).1 h).mp (hia.trans hja.symm)

section
variable {A B T x : List Bytes} (hA : Proper realmBranchChar A) (hB : Proper realmBranchChar B)
  (hT : Proper realmBranchChar T)

include hA hB hT in
theorem proper_of_mem_path (h : x ∈ path A B T) : Proper realmBranchChar x := by
  have happend : ∀ C : List Bytes, Proper realmBranchChar C → x <:+ C ++ T → Proper realmBranchChar x := by
    intro C hC hx l hl
    exact (List.mem_append.mp (hx.subset hl)).elim (hC l) (hT l)
  exact (suffix_of_mem_path h).elim (happend A hA) (happend B hB)

include hA hB hT in
theorem path_join_nodup (hap : Apart A B) : ((path A B T).map (join realmBranchChar)).Nodup := by
  refine List.Nodup.map_on ?_ (path_nodup T hap)
  intro x hx y hy
  exact join_injOn (proper_of_mem_path hA hB hT hx) (proper_of_mem_path hA hB hT hy) (ne_nil_of_mem_path hx)
    (ne_nil_of_mem_path hy)

theorem childOf_of_below {C y : List Bytes} (hC : Proper realmBranchChar C) (h : Below C x y) :
    ChildOf (join realmBranchChar x) (join realmBranchChar y) := by
  obtain ⟨l, hl, rfl, hy⟩ := h
  exact ⟨l, (hC l hl).1, (hC l hl).2, join_cons l hy⟩

include hA hB in
theorem path_join_steps (hc : labels c = A ++ T) (hs : labels s = B ++ T) (hap : Apart A B) :
    ((path A B T).map (join realmBranchChar)).IsChain fun a b => ChildOf a b ∨ ChildOf b a ∨ CrossesTop c s a b := by
  refine (List.isChain_map _).mpr ((path_isChain A B T).imp ?_)
  rintro x y (h | h | ⟨rfl, ⟨l, hl, rfl⟩, m, hm, rfl⟩)
  · exact Or.inl (childOf_of_below hA h)
  · exact Or.inr (Or.inl (childOf_of_below hB h))
  · rw [List.append_nil] at hc hs
    refine Or.inr (Or.inr ?_)
    rw [join_singleton, join_singleton, CrossesTop, hc, hs]
    exact ⟨hap, hl, hm⟩

end

theorem realmPath_hierRealms (hc : DomainStyle c) (hs : DomainStyle s) :
    RealmPath c s (hierRealms c s realmBranchChar) := by
  obtain ⟨A, B, T, hcl, hsl, hap, hA, hB, hT⟩ := exists_labels hc hs
  have hcne := hcl ▸ labels_ne_nil c
  have hsne := hsl ▸ labels_ne_nil s
  have hcj : join realmBranchChar (A ++ T) = c := by rw [← hcl, join_labels]
  have hsj : join realmBranchChar (B ++ T) = s := by rw [← hsl, join_labels]
  have heq : hierRealms c s realmBranchChar = (path A B T).map (join realmBranchChar) := by
    rw [← hierRealms_eq hA hB hT hap hcne hsne, hcj, hsj]
  have hnodup := path_join_nodup hA hB hT hap
  rw [heq]
  refine ⟨?_, ?_, hnodup, path_join_steps hA hB hcl hsl hap, fun i j => crossesAt_unique hnodup⟩
  · rw [List.head?_map, path_head? B hcne, Option.map_some, hcj]
  · rw [List.getLast?_map, path_getLast? A hsne, Option.map_some, hsj]

theorem domainStyle_ne_nil (h : DomainStyle r) : r ≠ [] := by
  rintro rfl
  exact h [] (by simp [labels]) rfl

/-- The walk between two realms of labels starts with `krbtgt/c@c`, is linked hop by hop, and its instances lead from
`c` to `s` by single labels. -/
theorem hierarchical_path (c s : Bytes) (hc : DomainStyle c) (hs : DomainStyle s) (hne : c ≠ s) :
    ∃ tgs, walkRealmTree c s none realmBranchChar = .ok tgs ∧ tgs.head? = some ⟨c, c⟩ ∧
      tgs.IsChain (fun g h => h.realm = g.instance) ∧ RealmPath c s (tgs.map (·.instance)) := by
  have hpath := realmPath_hierRealms hc hs
  refine ⟨hierTree c s realmBranchChar, ?_, ?_, hopsFrom_linked _ _, ?_⟩
  · unfold walkRealmTree
    rw [if_neg (by simp [domainStyle_ne_nil hc, domainStyle_ne_nil hs, hne])]
    rfl
  · have hfirst := hpath.first
    unfold hierTree
    cases h : hierRealms c s realmBranchChar with
    | nil => rw [h] at hfirst; cases hfirst
    | cons r realms =>
      rw [h] at hfirst
      cases hfirst
      rfl
  · rwa [hierTree, hopsFrom_instances]

/-- From `P.Q` to `O.Q` through their parent. -/
theorem siblings_path : ∃ tgs, walkRealmTree [80, 46, 81] [79, 46, 81] none realmBranchChar = .ok tgs ∧
    tgs.head? = some ⟨[80, 46, 81], [80, 46, 81]⟩ ∧ tgs.IsChain (fun g h => h.realm = g.instance) ∧
    RealmPath [80, 46, 81] [79, 46, 81] (tgs.map (·.instance)) :=
  hierarchical_path [80, 46, 81] [79, 46, 81] (by decide) (by decide) (by decide)

end Transit

end Krb5Rs
