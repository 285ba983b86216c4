import Krb5Rs.CockroachSound
import Krb5Rs.KeySelect
import Krb5Rs.ReplicaSound

/-!
# The order of keys and the key that is found

The SQL databases return a principal's keys newest version first and by enctype
within a version. A search of an entry takes the first key that matches, so what
it finds depends on that order: the source and its replicas agree with each
other, and they agree with the entry as it was written when the keys were
listed in that order as far as a search can tell.
-/

namespace Krb5Rs

open Wire (Bytes bind_eq_ok)

/-! ## First matches -/

section
variable {α : Type} {r : α → α → Prop} {p : α → Bool} {l : List α} {x : α}

theorem mem_after_find (hx : l.find? p = some x) :
    ∃ pre post, l = pre ++ x :: post ∧ ∀ y ∈ l, p y → y = x ∨ y ∈ post := by
  obtain ⟨-, pre, post, hl, hpre⟩ := List.find?_eq_some_iff_append.mp hx
  refine ⟨pre, post, hl, ?_⟩
  intro y hy hp
  rw [hl] at hy
  rcases List.mem_append.mp hy with hy | hy
  · have hno := hpre y hy
    rw [hp] at hno
    cases hno
  · exact List.mem_cons.mp hy

theorem rel_of_find (hrefl : ∀ a, r a a) (hl : l.Pairwise r) (hx : l.find? p = some x) : ∀ y ∈ l, p y → r x y := by
  obtain ⟨pre, post, rfl, hafter⟩ := mem_after_find hx
  intro y hy hp
  rcases hafter y hy hp with rfl | hpost
  · exact hrefl y
  · exact (List.pairwise_cons.mp (List.pairwise_append.mp hl).2.1).1 y hpost

theorem find_insertionSort_iff [DecidableRel r] [Std.Total r] [IsTrans α r]
    (hanti : ∀ a ∈ l, ∀ b ∈ l, r a b → r b a → a = b) :
    (l.insertionSort r).find? p = l.find? p ↔ ∀ a, l.find? p = some a → ∀ b ∈ l, p b → r a b := by
  have hmem : ∀ a, a ∈ l.insertionSort r ↔ a ∈ l := fun a => (List.perm_insertionSort r l).mem_iff
  have hfirst : ∀ a, (l.insertionSort r).find? p = some a → ∀ b ∈ l, p b → r a b := by
    intro a ha b hb
    exact rel_of_find (fun c => (Std.Total.total c c).elim id id) (List.pairwise_insertionSort r l) ha b ((hmem b).mpr hb)
  constructor
  · intro heq a ha
    exact hfirst a (heq.trans ha)
  · intro hleast
    cases hx : l.find? p with
    | none =>
      rw [List.find?_eq_none] at hx ⊢
      intro a ha
      exact hx a ((hmem a).mp ha)
    | some a =>
      cases hy : (l.insertionSort r).find? p with
      | none =>
        rw [List.find?_eq_none] at hy
        exact absurd (List.find?_some hx) (hy a ((hmem a).mpr (List.mem_of_find?_eq_some hx)))
      | some b =>
        have hb := (hmem b).mp (List.mem_of_find?_eq_some hy)
        have ha := List.mem_of_find?_eq_some hx
        rw [hanti b hb a ha (hfirst b hy a ha (List.find?_some hx)) (hleast a hx b hb (List.find?_some hy))]

end

/-! ## Keys in the order of the databases -/

namespace KeyEntry

def Before (a b : KeyEntry) : Prop := b.kvno < a.kvno ∨ a.kvno = b.kvno ∧ a.key.keytype ≤ b.key.keytype

instance : DecidableRel Before := fun a b =>
  inferInstanceAs (Decidable (b.kvno < a.kvno ∨ a.kvno = b.kvno ∧ a.key.keytype ≤ b.key.keytype))

def index (k : KeyEntry) : UInt32 × Int32 := (k.kvno, k.key.keytype)

theorem before_iff (a b : KeyEntry) : a.Before b ↔
    b.kvno.toNat < a.kvno.toNat ∨ a.kvno.toNat = b.kvno.toNat ∧ a.key.keytype.toInt ≤ b.key.keytype.toInt := by
  rw [Before, UInt32.lt_iff_toNat_lt, Int32.le_iff_toInt_le, ← UInt32.toNat_inj]

instance : Std.Total Before := ⟨fun a b => by
  simp only [before_iff]
  omega⟩

instance : IsTrans KeyEntry Before := ⟨fun a b c => by
  simp only [before_iff]
  omega⟩

variable {a b : KeyEntry} {keys : List KeyEntry} {q : Int32 → Bool} {seen : List Int32}

theorem index_eq_of_before (hab : a.Before b) (hba : b.Before a) : a.index = b.index := by
  rw [before_iff] at hab hba
  unfold index
  have hkvno : a.kvno = b.kvno := UInt32.toNat_inj.mp (by omega)
  have htype : a.key.keytype = b.key.keytype := Int32.toInt_inj.mp (by omega)
  rw [hkvno, htype]

def inOrder (keys : List KeyEntry) : List KeyEntry := keys.insertionSort Before

theorem inOrder_inOrder (keys : List KeyEntry) : inOrder (inOrder keys) = inOrder keys :=
  (List.pairwise_insertionSort Before keys).insertionSort_eq

def sought (want : Option UInt32) (q : Int32 → Bool) (k : KeyEntry) : Bool := want.all (k.kvno = ·) && q k.key.keytype

/-- A key whose enctype was not seen before comes before the later ones whose enctype was not. -/
def Leads (seen : List Int32) : List KeyEntry → Prop
  | [] => True
  | k :: keys => (k.key.keytype ∉ seen → ∀ j ∈ keys, j.key.keytype ∉ seen → k.Before j) ∧
      Leads (k.key.keytype :: seen) keys

instance decidableLeads : ∀ seen keys, Decidable (Leads seen keys)
  | _, [] => isTrue trivial
  | seen, k :: keys =>
    have := decidableLeads (k.key.keytype :: seen) keys
    inferInstanceAs (Decidable ((k.key.keytype ∉ seen → ∀ j ∈ keys, j.key.keytype ∉ seen → k.Before j) ∧
      Leads (k.key.keytype :: seen) keys))

/-- The keys of one version are listed by enctype, and the first keys of the enctypes newest version first. -/
structure Listed (keys : List KeyEntry) : Prop where
  ascending : keys.Pairwise fun a b => a.kvno = b.kvno → a.Before b
  leading : Leads [] keys

theorem before_refl (k : KeyEntry) : k.Before k := .inr ⟨rfl, Int32.le_refl _⟩

theorem eq_of_index (h : (keys.map index).Nodup) (ha : a ∈ keys) (hb : b ∈ keys)
    (hindex : a.index = b.index) : a = b := List.inj_on_of_nodup_map h ha hb hindex

theorem find_inOrder_iff (h : (keys.map index).Nodup) (want : Option UInt32) (q : Int32 → Bool) :
    (inOrder keys).find? (sought want q) = keys.find? (sought want q) ↔
      ∀ a, keys.find? (sought want q) = some a → ∀ b ∈ keys, sought want q b → a.Before b := by
  apply find_insertionSort_iff
  intro a ha b hb hab hba
  exact eq_of_index h ha hb (index_eq_of_before hab hba)

/-! ## Searches that do not name a version -/

theorem before_of_leads (h : Leads seen keys) (hseen : ∀ t ∈ seen, q t = false)
    (ha : keys.find? (sought none q) = some a) : ∀ b ∈ keys, sought none q b → a.Before b := by
  induction keys generalizing seen with
  | nil => cases ha
  | cons k keys ih =>
    have hunseen : ∀ j : KeyEntry, sought none q j → j.key.keytype ∉ seen := by
      intro j hj hmem
      simp [sought, hseen _ hmem] at hj
    intro b hb hq
    cases hk : sought none q k with
    | true =>
      rw [List.find?_cons_of_pos hk] at ha
      obtain rfl := Option.some.inj ha
      rcases List.mem_cons.mp hb with rfl | hb
      · exact before_refl b
      · exact h.1 (hunseen k hk) b hb (hunseen b hq)
    | false =>
      rw [List.find?_cons_of_neg (by simp [hk])] at ha
      rcases List.mem_cons.mp hb with rfl | hb
      · rw [hk] at hq
        cases hq
      refine ih h.2 ?_ ha b hb hq
      intro t ht
      rcases List.mem_cons.mp ht with rfl | ht
      · simpa [sought] using hk
      · exact hseen t ht

theorem leads_of_before (pre : List KeyEntry) (hseen : ∀ t, t ∈ seen ↔ ∃ k ∈ pre, k.key.keytype = t)
    (h : ∀ q a, (pre ++ keys).find? (sought none q) = some a → ∀ b ∈ pre ++ keys, sought none q b → a.Before b) :
    Leads seen keys := by
  induction keys generalizing pre seen with
  | nil => trivial
  | cons k keys ih =>
    refine ⟨?_, ih (pre ++ [k]) ?_ (by simpa using h)⟩
    · intro hk j hj hunseen
      have hpre : pre.find? (sought none fun t => t ∉ seen) = none := by
        rw [List.find?_eq_none]
        intro i hi
        simpa [sought] using (hseen i.key.keytype).mpr ⟨i, hi, rfl⟩
      apply h fun t => t ∉ seen
      · rw [List.find?_append, hpre]
        exact List.find?_cons_of_pos (by simpa [sought] using hk)
      · exact List.mem_append_right _ (List.mem_cons_of_mem _ hj)
      · simpa [sought] using hunseen
    · intro t
      simp only [List.mem_cons, hseen, List.mem_append, List.not_mem_nil, or_false]
      constructor
      · rintro (rfl | ⟨i, hi, rfl⟩)
        · exact ⟨k, .inr rfl, rfl⟩
        · exact ⟨i, .inl hi, rfl⟩
      · rintro ⟨i, hi | rfl, rfl⟩
        · exact .inr ⟨i, hi, rfl⟩
        · exact .inl rfl

/-! ## Searches for one version -/

theorem before_of_ascending (h : keys.Pairwise fun a b => a.kvno = b.kvno → a.Before b) {v : UInt32}
    (ha : keys.find? (sought (some v) q) = some a) : ∀ b ∈ keys, sought (some v) q b → a.Before b := by
  have hkvno : ∀ k, sought (some v) q k → k.kvno = v := by
    intro k hk
    simp only [sought, Option.all_some, Bool.and_eq_true, decide_eq_true_eq] at hk
    exact hk.1
  intro b hb hq
  apply rel_of_find (fun k _ => before_refl k) h ha b hb hq
  rw [hkvno a (List.find?_some ha), hkvno b hq]

theorem ascending_of_before (hnodup : (keys.map index).Nodup)
    (h : ∀ v q a, keys.find? (sought (some v) q) = some a → ∀ b ∈ keys, sought (some v) q b → a.Before b) :
    keys.Pairwise fun a b => a.kvno = b.kvno → a.Before b := by
  rw [List.pairwise_iff_forall_sublist]
  intro a b hsub hkvno
  -- only the two keys have this version and one of these enctypes
  let q : Int32 → Bool := fun t => t = a.key.keytype ∨ t = b.key.keytype
  have hmem : a ∈ keys ∧ b ∈ keys := ⟨hsub.subset (by simp), hsub.subset (by simp)⟩
  have hb : sought (some a.kvno) q b := by simp [sought, q, hkvno]
  have hall : ∀ k ∈ keys, sought (some a.kvno) q k → k = a ∨ k = b := by
    intro k hk hq
    simp only [sought, Option.all_some, Bool.and_eq_true, decide_eq_true_eq, q] at hq
    obtain ⟨hv, ht | ht⟩ := hq
    · exact .inl (eq_of_index hnodup hk hmem.1 (by rw [index, index, hv, ht]))
    · exact .inr (eq_of_index hnodup hk hmem.2 (by rw [index, index, hv, ht, hkvno]))
  have hfind : (keys.filter (sought (some a.kvno) q)).head? = keys.find? (sought (some a.kvno) q) := List.head?_filter ..
  have hsub' : List.Sublist [a, b] (keys.filter (sought (some a.kvno) q)) := by
    have := hsub.filter (sought (some a.kvno) q)
    rwa [List.filter_cons_of_pos (by simp [sought, q]), List.filter_cons_of_pos hb, List.filter_nil] at this
  cases hl : keys.filter (sought (some a.kvno) q) with
  | nil =>
    rw [hl] at hsub'
    cases hsub'
  | cons k ks =>
    rw [hl] at hfind hsub'
    have hk := List.mem_filter.mp (hl ▸ List.mem_cons_self .. : k ∈ keys.filter (sought (some a.kvno) q))
    rcases hall k hk.1 hk.2 with rfl | rfl
    · exact h k.kvno q k hfind.symm b hmem.2 hb
    -- a second copy of the later key
    have hnd := hl ▸ (List.Nodup.of_map _ hnodup).filter _
    have hne : a ≠ k := by
      rintro rfl
      have := hnd.sublist hsub'
      simp at this
    cases hsub' with
    | cons _ hs => exact absurd (hs.subset (by simp)) (List.nodup_cons.mp hnd).1
    | cons_cons _ hs => exact absurd rfl hne

/-! ## What every search finds -/

theorem finds_same_iff (h : (keys.map index).Nodup) :
    (∀ want q, (inOrder keys).find? (sought want q) = keys.find? (sought want q)) ↔ Listed keys := by
  simp only [find_inOrder_iff h]
  constructor
  · intro hall
    exact ⟨ascending_of_before h fun v q => hall (some v) q, leads_of_before [] (by simp) (hall none)⟩
  · intro hlisted want q a ha
    cases want with
    | none => exact before_of_leads hlisted.leading (by simp) ha
    | some v => exact before_of_ascending hlisted.ascending ha

theorem finds_same_of_type (h : (keys.map index).Nodup) (v : UInt32) {t : Int32} (hq : ∀ u, q u → u = t) :
    (inOrder keys).find? (sought (some v) q) = keys.find? (sought (some v) q) := by
  rw [find_inOrder_iff h]
  intro a ha b hb hsought
  have hindex : ∀ k, sought (some v) q k → k.index = (v, t) := by
    intro k hk
    simp only [sought, Option.all_some, Bool.and_eq_true, decide_eq_true_eq] at hk
    rw [index, hk.1, hq _ hk.2]
  rw [eq_of_index h (List.mem_of_find?_eq_some ha) hb ((hindex a (List.find?_some ha)).trans (hindex b hsought).symm)]
  exact before_refl b

theorem matches_eq_sought (etype : Option Int32) (want : Option UInt32) (permitted : Int32 → Bool) :
    KeyEntry.matches etype want permitted = sought want fun t => etype.all (t = ·) && permitted t := by
  funext k
  simp only [KeyEntry.matches, sought]
  rw [← Bool.and_assoc, Bool.and_comm (want.all _)]

theorem kvno_max_inOrder (keys : List KeyEntry) : ((inOrder keys).map (·.kvno)).max? = (keys.map (·.kvno)).max? := by
  have hmem : ∀ v, v ∈ (inOrder keys).map (·.kvno) ↔ v ∈ keys.map (·.kvno) :=
    fun v => ((List.perm_insertionSort Before keys).map _).mem_iff
  cases h : (keys.map (·.kvno)).max? with
  | none =>
    rw [List.max?_eq_none_iff] at h ⊢
    rw [List.map_eq_nil_iff] at h
    rw [h]
    rfl
  | some v =>
    rw [List.max?_eq_some_iff] at h ⊢
    exact ⟨(hmem v).mpr h.1, fun w hw => h.2 w ((hmem w).mp hw)⟩

end KeyEntry

section
variable [Alphabet]

/-- Both entries answer every search with the same key. -/
def SameKeyFound (a b : PrincipalEntry) : Prop :=
  ∀ etype kvno permitted, a.findKey etype kvno permitted = b.findKey etype kvno permitted

variable {a b : PrincipalEntry}

theorem sameKeyFound_of_keys (h : a.keys = b.keys) : SameKeyFound a b := by
  intro etype kvno permitted
  have hwanted : a.wanted kvno = b.wanted kvno := by
    cases kvno with
    | highest => simp only [PrincipalEntry.wanted, PrincipalEntry.currentKvno, h]
    | any => rfl
    | exact v => rfl
  rw [PrincipalEntry.findKey, PrincipalEntry.findKey, hwanted, h]

theorem wanted_inOrder (h : a.keys = KeyEntry.inOrder b.keys) (kvno : KvnoSel) : a.wanted kvno = b.wanted kvno := by
  cases kvno with
  | highest => simp only [PrincipalEntry.wanted, PrincipalEntry.currentKvno, h, KeyEntry.kvno_max_inOrder]
  | any => rfl
  | exact v => rfl

theorem sameKeyFound_iff (h : a.keys = KeyEntry.inOrder b.keys) (hnodup : (b.keys.map KeyEntry.index).Nodup) :
    SameKeyFound a b ↔ KeyEntry.Listed b.keys := by
  rw [← KeyEntry.finds_same_iff hnodup]
  constructor
  · intro hsame want q
    have hmatches : KeyEntry.sought want q = KeyEntry.matches none want q := by
      rw [KeyEntry.matches_eq_sought]
      rfl
    rw [hmatches, ← h]
    cases want with
    | none => exact hsame none .any q
    | some v => exact hsame none (.exact v) q
  · intro hsame etype kvno permitted
    rw [PrincipalEntry.findKey, PrincipalEntry.findKey, wanted_inOrder h, h]
    cases b.wanted kvno with
    | none => rfl
    | some want =>
      simp only [Option.bind_some, KeyEntry.matches_eq_sought]
      exact hsame _ _

theorem findKey_of_type (h : a.keys = KeyEntry.inOrder b.keys) (hnodup : (b.keys.map KeyEntry.index).Nodup)
    (etype : Int32) {kvno : KvnoSel} (hkvno : kvno ≠ .any) (permitted : Int32 → Bool) :
    a.findKey (some etype) kvno permitted = b.findKey (some etype) kvno permitted := by
  have hsame : ∀ v, a.keys.find? (KeyEntry.matches (some etype) (some v) permitted) =
      b.keys.find? (KeyEntry.matches (some etype) (some v) permitted) := by
    intro v
    rw [h, KeyEntry.matches_eq_sought]
    apply KeyEntry.finds_same_of_type hnodup v (t := etype)
    intro u hu
    simp only [Option.all_some, Bool.and_eq_true, decide_eq_true_eq] at hu
    exact hu.1
  rw [PrincipalEntry.findKey, PrincipalEntry.findKey, wanted_inOrder h]
  cases kvno with
  | any => exact absurd rfl hkvno
  | exact v => exact hsame v
  | highest =>
    simp only [PrincipalEntry.wanted]
    cases b.currentKvno with
    | none => rfl
    | some v => exact hsame v

/-! ## Writing and reading -/

section
variable [Crypto] {masters : MasterKeys}

def opened (masters : MasterKeys) (k : StoredKey) : KeyEntry :=
  match StoredPrincipal.unwrapped masters k with
  | .ok key => key
  | .error _ => { kvno := k.kvno, key := ⟨k.enctype, []⟩, salt := k.salt, s2kparams := k.s2kparams }

omit [Alphabet] in
theorem index_opened (masters : MasterKeys) (k : StoredKey) : (opened masters k).index = (k.kvno, k.enctype) := by
  unfold opened
  split
  · rename_i key hkey
    obtain ⟨master, -, hkey⟩ := bind_eq_ok.mp hkey
    obtain ⟨plain, hplain, hkey⟩ := bind_eq_ok.mp hkey
    cases hkey
    rw [KeyEntry.index, decryptKey_keytype hplain]
  · rfl

omit [Alphabet] in
theorem map_opened_orderedKeys (masters : MasterKeys) (keys : List StoredKey) :
    (orderedKeys keys).map (opened masters) = KeyEntry.inOrder (keys.map (opened masters)) := by
  apply List.map_insertionSort
  intro a _ b _
  obtain ⟨ha, ha'⟩ := Prod.mk.inj (index_opened masters a)
  obtain ⟨hb, hb'⟩ := Prod.mk.inj (index_opened masters b)
  rw [KeyEntry.Before, ha, ha', hb, hb']

omit [Alphabet] in
theorem opened_of_ok {k : StoredKey} {key : KeyEntry}
    (h : StoredPrincipal.unwrapped masters k = .ok key) : opened masters k = key := by
  rw [opened, h]

theorem intoEntry_ordered [Calendar] {sp p : StoredPrincipal} {e : PrincipalEntry}
    (he : sp.intoEntry masters = .ok e) (hkeys : p.keys = orderedKeys sp.keys) (htl : p.tlData = sp.tlData) :
    ∃ c, p.intoEntry masters = .ok c ∧ c.keys = KeyEntry.inOrder e.keys := by
  obtain ⟨keys, hopen, he⟩ := bind_eq_ok.mp he
  obtain ⟨entry, hentry, he⟩ := bind_eq_ok.mp he
  cases he
  obtain ⟨required, hrequired, -⟩ := bind_eq_ok.mp hentry
  have hread : p.keys.mapM (StoredPrincipal.unwrapped masters) = .ok (p.keys.map (opened masters)) := by
    apply Wire.mapM_eq_map
    intro k hk
    rw [hkeys] at hk
    obtain ⟨key, hkey⟩ := Wire.exists_of_mapM hopen k ((List.perm_insertionSort _ _).mem_iff.mp hk)
    rw [hkey, opened_of_ok hkey]
  have hmap := Wire.eq_map_of_mapM (fun _ _ h => (opened_of_ok h).symm) hopen
  obtain ⟨entry', hentry'⟩ : ∃ entry', p.keylessEntry = .ok entry' :=
    ⟨_, bind_eq_ok.mpr ⟨required, by rw [htl]; exact hrequired, rfl⟩⟩
  refine ⟨_, bind_eq_ok.mpr ⟨_, hread, bind_eq_ok.mpr ⟨entry', hentry', rfl⟩⟩, ?_⟩
  rw [hkeys, map_opened_orderedKeys, hmap]

theorem nodup_index_of_cols {sp : StoredPrincipal} {keys : List KeyEntry}
    (h : ((sp.keys.map (·.cols)).map (·.index)).Nodup)
    (hopen : sp.keys.mapM (StoredPrincipal.unwrapped masters) = .ok keys) : (keys.map KeyEntry.index).Nodup := by
  rw [Wire.eq_map_of_mapM (fun _ _ h => (opened_of_ok h).symm) hopen, List.map_map]
  rw [List.map_map] at h
  have hcols : (KeyCols.index ∘ StoredKey.cols : StoredKey → _) =
      (fun i => (Sql.ofU32 i.1, i.2.toInt64)) ∘ fun k => (opened masters k).index := by
    funext k
    rw [Function.comp, Function.comp, index_opened]
    rfl
  rw [hcols, ← List.map_map] at h
  exact List.Nodup.of_map _ h

end

end

namespace Cockroach

/-! ## Keys belong to live rows -/

section
variable [Alphabet] {s t : Cockroach} {sp : StoredPrincipal}

/-- Keys belong to a live row. No foreign key says so: a row that is deleted loses its keys in the same transaction,
and `prune` removes such rows only. -/
def Owned (s : Cockroach) : Prop := ∀ key, ¬ s.LiveAt key → s.principalKeys key = []

omit [Alphabet] in
theorem Owned.referenced (hs : s.Owned) : s.Referenced := by
  intro key hnone
  exact hs key (by simp [LiveAt, hnone, live])

omit [Alphabet] in
theorem Owned.kept (hs : s.Owned) (hlive : ∀ k, s.LiveAt k → t.LiveAt k) (hkeys : t.principalKeys = s.principalKeys) :
    t.Owned := by
  intro key hdead
  rw [hkeys]
  exact hs key fun hl => hdead (hlive key hl)

omit [Alphabet] in
theorem Owned.buried (hs : s.Owned) (key : NameKey) (hlive : ∀ k, t.LiveAt k ↔ k ≠ key ∧ s.LiveAt k)
    (hkeys : t.principalKeys = Function.update s.principalKeys key []) : t.Owned := by
  intro k hdead
  rw [hkeys]
  by_cases hk : k = key
  · rw [hk, Function.update_self]
  · rw [Function.update_of_ne hk]
    exact hs k fun hl => hdead ((hlive k).mpr ⟨hk, hl⟩)

theorem Owned.writes (hs : s.Owned) (h : Writes s sp t) : t.Owned := by
  obtain ⟨create, hwrite⟩ : ∃ create, s.writePrincipal sp create = .ok t := by
    cases h with
    | inserted h => exact (insertPrincipal_eq_ok h).2.choose_spec.2.2
    | updated _ _ h => exact ⟨false, h⟩
  obtain ⟨name, cols, hname, -, -, hkeys, -⟩ := writePrincipal_eq_ok hwrite
  obtain ⟨_, -, hlive, -, -⟩ := rows_of_writes hs.referenced hname h
  intro key hdead
  have hne : key ≠ (sp.realm, name) := by
    rintro rfl
    exact hdead (by rw [LiveAt, hlive]; rfl)
  have hput : (s.putRow (sp.realm, name) ⟨cols, false⟩ create).principalKeys key = s.principalKeys key := by
    cases create <;> simp [putRow, hne]
  rw [hkeys, Function.update_of_ne hne, hput]
  exact hs key fun hl => hdead ((spares_writePrincipal hwrite).live key hl)

variable [Crypto] [Calendar] {e : Event}

/-- An update writes a principal that is live: it does not change the name. -/
def NameKept (s : Cockroach) : Event → Prop
  | .update st r name realm f => ∀ t sp, s.updatePrincipal st r name realm f = .ok (t, sp) →
      ∃ key, encodePrincipalKey sp.name = .ok key ∧ s.LiveAt (sp.realm, key)
  | .updateRaw _ _ _ _ f => ∀ raw keys raw' previous sp, f raw keys = .ok (some raw') →
      StoredPrincipal.fromMit raw' previous = .ok sp →
      ∃ key, encodePrincipalKey sp.name = .ok key ∧ s.LiveAt (sp.realm, key)
  | _ => True

theorem owned_transact (hs : s.Owned) (hname : s.NameKept e) (h : s.transact e = .ok t) : t.Owned := by
  cases e with
  | create =>
    iterate 3 obtain ⟨_, -, h⟩ := bind_eq_ok.mp h
    exact hs.writes (.inserted h)
  | createRaw =>
    obtain ⟨_, -, h⟩ := bind_eq_ok.mp h
    obtain ⟨sp, -, h⟩ := bind_eq_ok.mp h
    obtain ⟨u, hu, h⟩ := bind_eq_ok.mp h
    have hwritten := hs.writes (.inserted hu)
    split at h
    · cases h
      exact hwritten
    · obtain ⟨key, -, h⟩ := bind_eq_ok.mp h
      cases h
      exact hwritten.kept (fun _ hl => hl) rfl
  | update st r name realm f =>
    obtain ⟨⟨t', sp⟩, h', rfl⟩ := map_eq_ok h
    obtain ⟨key, hkey, hlive⟩ := hname t' sp h'
    iterate 6 obtain ⟨_, -, h'⟩ := bind_eq_ok.mp h'
    obtain ⟨u, hu, h'⟩ := bind_eq_ok.mp h'
    obtain ⟨rfl, rfl⟩ := Prod.mk.inj (Except.ok.inj h')
    have hwritten := hs.writes (.updated hkey hlive hu)
    dsimp only
    split
    · refine hwritten.kept (fun k hl => ?_) (principalKeys_liftLockout u _)
      rwa [LiveAt, zeroFailures, principals_liftLockout]
    · exact hwritten
  | updateRaw st r name realm f =>
    obtain ⟨⟨t', b⟩, h', rfl⟩ := map_eq_ok h
    obtain ⟨_, -, h'⟩ := bind_eq_ok.mp h'
    obtain ⟨keys, -, h'⟩ := bind_eq_ok.mp h'
    obtain ⟨sp, -, h'⟩ := bind_eq_ok.mp h'
    obtain ⟨raw, -, h'⟩ := bind_eq_ok.mp h'
    obtain ⟨new, hnew, h'⟩ := bind_eq_ok.mp h'
    cases new with
    | none =>
      obtain ⟨rfl, -⟩ := Prod.mk.inj (Except.ok.inj h')
      exact hs
    | some raw' =>
      obtain ⟨sp', hsp', h'⟩ := bind_eq_ok.mp h'
      obtain ⟨u, hu, h'⟩ := bind_eq_ok.mp h'
      obtain ⟨rfl, -⟩ := Prod.mk.inj (Except.ok.inj h')
      obtain ⟨key, hkey, hlive⟩ := hname raw keys raw' (some sp) sp' hnew hsp'
      have hwritten := hs.writes (.updated hkey hlive hu)
      dsimp only
      split
      · exact hwritten
      · exact hwritten.kept (fun _ hl => hl) rfl
  | rename st r name realm f =>
    obtain ⟨key, -, h⟩ := bind_eq_ok.mp h
    iterate 5 obtain ⟨_, -, h⟩ := bind_eq_ok.mp h
    obtain ⟨u, hu, h⟩ := bind_eq_ok.mp h
    obtain ⟨_, -, h⟩ := bind_eq_ok.mp h
    cases h
    refine (hs.writes (.inserted hu)).buried (realm, key) ?_ ?_
    · intro k
      apply liveAt_bury u (realm, key) fun cols => { cols with modTime := some r.now }
      unfold moved
      split <;> rfl
    · unfold moved
      split <;> rfl
  | delete r name realm =>
    obtain ⟨⟨t', b⟩, h', rfl⟩ := map_eq_ok h
    obtain ⟨key, -, h'⟩ := bind_eq_ok.mp h'
    split at h'
    · obtain ⟨rfl, -⟩ := Prod.mk.inj (Except.ok.inj h')
      exact hs.buried (realm, key) (liveAt_bury s (realm, key) _ (principals_liftLockout _ _))
        (principalKeys_liftLockout _ _)
    · obtain ⟨rfl, -⟩ := Prod.mk.inj (Except.ok.inj h')
      exact hs
  | report record =>
    obtain ⟨key, -, h⟩ := bind_eq_ok.mp h
    cases h
    exact hs.kept (fun _ hl => hl) rfl

theorem owned_run {es : List Event} (hs : s.Owned) (hname : EachStep NameKept s es) : Always Owned s es := by
  induction es generalizing s with
  | nil => exact hs
  | cons e es ih =>
    refine ⟨hs, ih ?_ hname.2⟩
    unfold step
    cases h : s.transact e with
    | error err => exact hs
    | ok t => exact owned_transact hs hname.1 h

end

section
variable [Alphabet] [Crypto] [Calendar]

/-- The source finds the same key as the entry it was given when a search names an enctype and one version, and in
every search if and only if the keys were listed in its order; its replicas find what it finds. -/
theorem key_found_as_written {s t : Cockroach} {sp : StoredPrincipal} {key : Bytes} {masters : MasterKeys}
    {e : PrincipalEntry} (hs : s.Referenced) (hne : sp.name.nameString ≠ []) (hkey : encodePrincipalKey sp.name = .ok key)
    (hw : Writes s sp t) (he : sp.intoEntry masters = .ok e) :
    t.stored (sp.realm, key) = .ok (some (asRead sp)) ∧ ∃ c, (asRead sp).intoEntry masters = .ok c ∧
      (∀ etype kvno permitted, kvno ≠ .any →
        c.findKey (some etype) kvno permitted = e.findKey (some etype) kvno permitted) ∧
      (SameKeyFound c e ↔ KeyEntry.Listed e.keys) ∧
      ∀ (r r' : Replica) (batches : List (List Change)) (version : ReplicationTs),
        (∀ change ∈ batches.flatten, Replica.Storable change) → Replica.Agreeing batches.flatten →
        .upsertPrincipal (asRead sp) version ∈ batches.flatten →
        r.Decides batches.flatten (.upsertPrincipal (asRead sp) version) → r.applyBatches batches = .ok r' →
        ∃ q d, r'.lookupStored sp.realm sp.name = .ok (some q) ∧ q.intoEntry masters = .ok d ∧ SameKeyFound d c := by
  obtain ⟨cols, -, -, -, hnodup⟩ := rows_of_writes hs hkey hw
  obtain ⟨c, hc, hckeys⟩ := intoEntry_ordered he (show (asRead sp).keys = _ from rfl) rfl
  have hindex : (e.keys.map KeyEntry.index).Nodup := by
    obtain ⟨keys, hopen, he⟩ := bind_eq_ok.mp he
    obtain ⟨entry, -, he⟩ := bind_eq_ok.mp he
    cases he
    exact nodup_index_of_cols hnodup hopen
  refine ⟨stored_of_writes hs hne hkey hw, c, hc, ?_, sameKeyFound_iff hckeys hindex, ?_⟩
  · intro etype kvno permitted hkvno
    exact findKey_of_type hckeys hindex etype hkvno permitted
  · intro r r' batches version hstorable hagree hmem hdecides happly
    obtain ⟨r'', happly', hrun⟩ := Replica.applyBatches_run r fun change hchange => (hstorable change hchange).2
    cases happly.symm.trans happly'
    have hshows := Replica.shows_of_decides hrun hagree hmem (hstorable _ hmem).1 hdecides
    obtain ⟨d, hd, hdkeys⟩ := intoEntry_ordered hc (show (Replica.asRead (asRead sp)).keys = _ from rfl) rfl
    refine ⟨_, d, hshows, hd, sameKeyFound_of_keys ?_⟩
    -- sorting what is sorted changes nothing
    rw [hdkeys, hckeys, KeyEntry.inOrder_inOrder]

end

section
attribute [local instance] Alphabet.ascii Crypto.toy
local instance keyOrderCalendar : Calendar := ⟨fun _ => true⟩

def masters : MasterKeys := ⟨[(1, ⟨18, [9]⟩)], []⟩

def strongerFirst : StoredPrincipal :=
  bareStored ⟨1, [⟨[119], rfl⟩]⟩ [⟨1, 18, 1, [1, 0, 9, 50], none, none⟩, ⟨1, 17, 1, [1, 0, 9, 49], none, none⟩]

def keyFor (sp : Except StoreError StoredPrincipal) : Except StoreError (Option Int32) := do
  let sp ← sp
  let e ← sp.intoEntry masters
  .ok ((e.findKey none .highest fun _ => true).map (·.key.keytype))

def readBack (sp : StoredPrincipal) : Except StoreError StoredPrincipal := do
  let t ← Cockroach.empty.insertPrincipal sp
  let name ← encodePrincipalKey sp.name
  t.require sp.name (sp.realm, name)

/-- The key found is another one once the keys have been stored. -/
theorem weaker_key_found : keyFor (.ok strongerFirst) = .ok (some 18) ∧ keyFor (readBack strongerFirst) = .ok (some 17) := by
  decide +kernel

def inTurn : StoredPrincipal :=
  bareStored ⟨1, [⟨[119], rfl⟩]⟩ [⟨2, 17, 1, [1, 0, 9, 51], none, none⟩, ⟨2, 18, 1, [1, 0, 9, 52], none, none⟩,
    ⟨1, 18, 1, [1, 0, 9, 50], none, none⟩]

def turnKeys : List KeyEntry :=
  [⟨2, ⟨17, [51]⟩, none, none⟩, ⟨2, ⟨18, [52]⟩, none, none⟩, ⟨1, ⟨18, [50]⟩, none, none⟩]

def published : Change := .upsertPrincipal (asRead inTurn) ⟨1, 0⟩

theorem referenced_empty : Cockroach.empty.Referenced := fun _ _ => rfl

/-- The database, a replica and the entry find the same keys. -/
theorem same_keys_in_turn :
    ∃ t e c r q d, Cockroach.empty.insertPrincipal inTurn = .ok t ∧ inTurn.intoEntry masters = .ok e ∧
      (asRead inTurn).intoEntry masters = .ok c ∧ SameKeyFound c e ∧
      Replica.empty.applyBatches [[published]] = .ok r ∧ r.lookupStored inTurn.realm inTurn.name = .ok (some q) ∧
      q.intoEntry masters = .ok d ∧ SameKeyFound d c := by
  obtain ⟨t, ht⟩ : ∃ t, Cockroach.empty.insertPrincipal inTurn = .ok t := ⟨_, rfl⟩
  obtain ⟨e, he⟩ : ∃ e, inTurn.intoEntry masters = .ok e := ⟨_, rfl⟩
  obtain ⟨-, c, hc, -, hsame, hreplica⟩ := key_found_as_written referenced_empty
    (show inTurn.name.nameString ≠ [] from List.cons_ne_nil _ _) (show encodePrincipalKey inTurn.name = .ok [119] from rfl)
    (.inserted ht) he
  have hkeys : e.keys = turnKeys := by
    have h : (inTurn.intoEntry masters).map (·.keys) = .ok turnKeys := by decide +kernel
    rw [he] at h
    exact Except.ok.inj h
  obtain ⟨w, hw⟩ : ∃ w, Replica.rowOf published = .ok w := ⟨_, rfl⟩
  have honly : ∀ change ∈ [[published]].flatten, change = published := by simp
  have hrow : ∀ change ∈ [[published]].flatten, Replica.rowOf change = .ok w := by
    intro change hchange
    rw [honly change hchange, hw]
  obtain ⟨r, hr, -⟩ := Replica.applyBatches_run Replica.empty fun change hchange => ⟨w, hrow change hchange⟩
  obtain ⟨q, d, hq, hd, hfound⟩ := hreplica Replica.empty r [[published]] ⟨1, 0⟩
    (fun change hchange => ⟨by rw [honly change hchange]; exact List.cons_ne_nil _ _, w, hrow change hchange⟩)
    (fun change hchange change' hchange' v v' hv hv' _ _ => by
      rw [Except.ok.inj (hv.symm.trans (hrow change hchange)), Except.ok.inj (hv'.symm.trans (hrow change' hchange'))])
    (List.mem_cons_self ..)
    ⟨w, hw, by rw [Replica.regs_empty]; exact Lww.newer_none _, fun change hchange v hv _ => by
      rw [Except.ok.inj (hv.symm.trans (hrow change hchange))]⟩
    hr
  refine ⟨t, e, c, r, q, d, ht, he, hc, hsame.mpr ?_, hr, hq, hd, hfound⟩
  rw [hkeys]
  exact ⟨by decide +kernel, by decide +kernel⟩

end

end Cockroach

end Krb5Rs
