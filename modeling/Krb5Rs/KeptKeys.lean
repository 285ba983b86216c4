import Krb5Rs.AdminSound
import Mathlib.Data.Finset.Max

/-!
# The keys a password change keeps

`change_password_keeping` numbers its new keys behind the highest old kvno and
keeps the keys of the highest old versions. The number is a `u32` that wraps;
an MIT entry has room for 16 bits of it.
-/

namespace Krb5Rs

open Wire (Bytes bind_eq_ok)
open Utf8 (Str)
open LmdbStore (StoredAt checked_eq_ok)
open Stateful (after_of_ok bind_eq_ok)

/-! ## Versions -/

def versions (keys : List KeyEntry) : Finset Nat := (keys.map fun k => k.kvno.toNat).toFinset

def above (vs : Finset Nat) (v : UInt32) : Nat := (vs.filter (v.toNat < ·)).card

/-- All keys for 1, otherwise those of the `keepOld - 1` highest versions. -/
def Retained (keepOld : Nat) (old : List KeyEntry) (k : KeyEntry) : Bool :=
  keepOld = 1 ∨ above (versions old) k.kvno < keepOld - 1

def NewestFirst (keys : List KeyEntry) : Prop := keys.Pairwise fun a b => b.kvno ≤ a.kvno

@[simp] theorem versions_cons (k : KeyEntry) (ks : List KeyEntry) :
    versions (k :: ks) = insert k.kvno.toNat (versions ks) := by
  simp [versions]

theorem mem_versions {keys : List KeyEntry} {v : Nat} : v ∈ versions keys ↔ ∃ k ∈ keys, k.kvno.toNat = v := by
  simp [versions]

theorem versions_perm {l l' : List KeyEntry} (h : l.Perm l') : versions l = versions l' := by
  ext v
  simp [mem_versions, h.mem_iff]

/-- A version that is not below the others adds one to the count, unless it is the next one itself. -/
theorem above_insert {vs : Finset Nat} {v w u : UInt32} (hvs : ∀ x ∈ vs, x ≤ w.toNat) (hwv : w ≤ v) (huw : u ≤ w) :
    above (insert v.toNat (insert w.toNat vs)) u =
      (if v ≠ w then 1 else 0) + above (insert w.toNat vs) u := by
  rw [UInt32.le_iff_toNat_le] at hwv huw
  by_cases h : v = w
  · simp [h]
  · have hne : v.toNat ≠ w.toNat := fun heq => h (UInt32.toNat_inj.mp heq)
    have hnot : v.toNat ∉ (insert w.toNat vs).filter (u.toNat < ·) := by
      intro hmem
      rcases Finset.mem_insert.mp (Finset.mem_filter.mp hmem).1 with heq | hmem
      · exact hne heq
      · have := hvs _ hmem
        omega
    rw [above, Finset.filter_insert, if_pos (by omega), Finset.card_insert_of_notMem hnot, if_pos h, above, Nat.add_comm]

/-- Fewer than `m` members above each of them: there are at most `m`. -/
theorem card_le_of_above {s t : Finset Nat} {m : Nat} (hsub : t ⊆ s)
    (h : ∀ w ∈ t, (s.filter (w < ·)).card < m) : t.card ≤ m := by
  by_cases hne : t.Nonempty
  · have hmin := h _ (t.min'_mem hne)
    have hrest : t.erase (t.min' hne) ⊆ s.filter (t.min' hne < ·) := by
      intro w hw
      obtain ⟨hw', hw⟩ := Finset.mem_erase.mp hw
      exact Finset.mem_filter.mpr ⟨hsub hw, lt_of_le_of_ne (t.min'_le w hw) hw'.symm⟩
    have hcard := Finset.card_le_card hrest
    rw [Finset.card_erase_of_mem (t.min'_mem hne)] at hcard
    omega
  · simp [Finset.not_nonempty_iff_eq_empty.mp hne]

/-! ## The loop -/

theorem keepLoop_one (last : Option UInt32) (changes : Nat) (ks : List KeyEntry) : keepLoop 1 last changes ks = ks := by
  induction ks with
  | nil => rfl
  | cons k ks ih => simp [keepLoop, ih]

variable {keepOld : Nat} {ks : List KeyEntry}

/-- Behind a key of version `v`, with `c` changes of version so far. -/
theorem keepLoop_some (hkeep : 1 < keepOld) (hks : NewestFirst ks) {v : UInt32}
    (hv : ∀ k ∈ ks, k.kvno ≤ v) (c : Nat) : keepLoop keepOld (some v) c ks =
      ks.filter fun k => c + above (insert v.toNat (versions ks)) k.kvno < keepOld - 1 := by
  induction ks generalizing v c with
  | nil => rfl
  | cons k ks ih =>
    obtain ⟨hk, hks⟩ := List.pairwise_cons.mp hks
    have hkv := hv k List.mem_cons_self
    have hbelow : ∀ x ∈ versions ks, x ≤ k.kvno.toNat := by
      intro x hx
      obtain ⟨k', hk', rfl⟩ := mem_versions.mp hx
      exact UInt32.le_iff_toNat_le.mp (hk k' hk')
    have hcount (k' : KeyEntry) (hle : k'.kvno ≤ k.kvno) := above_insert hbelow hkv hle
    have hself : above (insert k.kvno.toNat (versions ks)) k.kvno = 0 := by
      refine Finset.card_eq_zero.mpr (Finset.filter_eq_empty_iff.mpr fun x hx => ?_)
      rcases Finset.mem_insert.mp hx with rfl | hx
      · omega
      · exact Nat.not_lt.mpr (hbelow x hx)
    rw [keepLoop, if_pos hkeep, versions_cons]
    have hchanges : (if (some v).any (· ≠ k.kvno) then c + 1 else c) = c + if v ≠ k.kvno then 1 else 0 := by
      by_cases h : v = k.kvno <;> simp [h]
    rw [hchanges]
    by_cases hfull : keepOld - 1 ≤ c + if v ≠ k.kvno then 1 else 0
    · rw [if_pos hfull, List.filter_eq_nil_iff.mpr]
      intro k' hk'
      have hle : k'.kvno ≤ k.kvno := by
        rcases List.mem_cons.mp hk' with rfl | hk'
        · exact UInt32.le_refl _
        · exact hk k' hk'
      have := hcount k' hle
      simp only [decide_eq_true_eq]
      omega
    · have hhead := hcount k (UInt32.le_refl _)
      rw [if_neg hfull, List.filter_cons_of_pos (by simp only [decide_eq_true_eq]; omega), ih hks hk]
      refine congrArg (k :: ·) (List.filter_congr fun k' hk' => ?_)
      rw [hcount k' (hk k' hk'), Nat.add_assoc]

theorem keepLoop_none (hkeep : 1 < keepOld) (hks : NewestFirst ks) :
    keepLoop keepOld none 0 ks = ks.filter fun k => above (versions ks) k.kvno < keepOld - 1 := by
  cases ks with
  | nil => rfl
  | cons k ks =>
    -- the first key counts no change, as if a key of its own version stood before it
    have hfirst : keepLoop keepOld none 0 (k :: ks) = keepLoop keepOld (some k.kvno) 0 (k :: ks) := by
      simp [keepLoop, hkeep]
    have hle : ∀ k' ∈ k :: ks, k'.kvno ≤ k.kvno :=
      List.forall_mem_cons.mpr ⟨UInt32.le_refl _, (List.pairwise_cons.mp hks).1⟩
    rw [hfirst, keepLoop_some hkeep hks hle, Finset.insert_eq_of_mem (mem_versions.mpr ⟨k, List.mem_cons_self, rfl⟩)]
    simp only [Nat.zero_add]

theorem keptKeys_spec (keepOld : Nat) (old : List KeyEntry) :
    (keptKeys keepOld old).Perm (old.filter (Retained keepOld old)) ∧ NewestFirst (keptKeys keepOld old) := by
  have hsorted : NewestFirst (old.mergeSort fun a b => b.kvno ≤ a.kvno) := by
    refine (List.pairwise_mergeSort (fun a b c hab hbc => ?_) (fun a b => ?_) old).imp of_decide_eq_true
    · exact decide_eq_true (UInt32.le_trans (of_decide_eq_true hbc) (of_decide_eq_true hab))
    · simpa using UInt32.le_total b.kvno a.kvno
  have hperm := List.mergeSort_perm old fun a b => decide (b.kvno ≤ a.kvno)
  unfold keptKeys
  rcases Nat.lt_trichotomy keepOld 1 with h | rfl | h
  · obtain rfl : keepOld = 0 := by omega
    simp [Retained, NewestFirst]
  · rw [if_pos Nat.one_pos, keepLoop_one, List.filter_eq_self.mpr (by simp [Retained])]
    exact ⟨hperm, hsorted⟩
  · rw [if_pos (by omega), keepLoop_none h hsorted, versions_perm hperm]
    have hretained : Retained keepOld old = fun k => decide (above (versions old) k.kvno < keepOld - 1) := by
      funext k
      simp [Retained, Nat.ne_of_gt h]
    rw [hretained]
    exact ⟨hperm.filter _, hsorted.filter _⟩

/-! ## A change -/

def highest (keys : List KeyEntry) : Nat := ((keys.map KeyEntry.kvno).max?.getD 0).toNat

theorem highest_lt (keys : List KeyEntry) : highest keys < 2 ^ 32 := UInt32.toNat_lt _

theorem le_highest {keys : List KeyEntry} {k : KeyEntry} (h : k ∈ keys) : k.kvno.toNat ≤ highest keys := by
  unfold highest
  cases hmax : (keys.map KeyEntry.kvno).max? with
  | none =>
    rw [List.max?_eq_none_iff, List.map_eq_nil_iff] at hmax
    simp [hmax] at h
  | some v => exact UInt32.le_iff_toNat_le.mp ((List.max?_eq_some_iff.mp hmax).2 _ (List.mem_map_of_mem h))

theorem highest_le {keys : List KeyEntry} {n : Nat} (h : ∀ k ∈ keys, k.kvno.toNat ≤ n) : highest keys ≤ n := by
  unfold highest
  cases hmax : (keys.map KeyEntry.kvno).max? with
  | none => exact Nat.zero_le n
  | some v =>
    obtain ⟨k, hk, rfl⟩ := List.mem_map.mp (List.max?_eq_some_iff.mp hmax).1
    exact h k hk

section
variable [Alphabet] [KeyGen] {name : PrincipalName} {realm : Str} {password : Option Str} {kvno : UInt32}
  {a : AdminOps}

theorem makeKeys_spec {fresh : Nat → Bytes} {etypes : List Int32} {new : List KeyEntry}
    (h : a.makeKeys fresh name realm kvno etypes password = .ok new) : (∀ k ∈ new, k.kvno = kvno) ∧
      new.length = if password.isSome then a.keysalts.length else etypes.length := by
  cases password with
  | some pw =>
    refine ⟨fun k hk => ?_, (Wire.forall₂_of_mapM h).length_eq.symm⟩
    obtain ⟨ks, -, hks⟩ := Wire.mem_of_mapM h hk
    obtain ⟨key, -, hks⟩ := bind_eq_ok.mp hks
    cases hks
    rfl
  | none =>
    induction etypes generalizing fresh new with
    | nil =>
      cases h
      exact ⟨by simp, rfl⟩
    | cons etype etypes ih =>
      obtain ⟨key, -, h⟩ := bind_eq_ok.mp h
      obtain ⟨rest, hrest, h⟩ := bind_eq_ok.mp h
      cases h
      obtain ⟨hkvno, hlength⟩ := ih hrest
      exact ⟨List.forall_mem_cons.mpr ⟨rfl, hkvno⟩, congrArg (· + 1) hlength⟩

omit [KeyGen] [Alphabet] in
theorem etypes_eq_nil : a.etypes = [] ↔ a.keysalts = [] := by
  have hadd : ∀ (keysalts : List (Int32 × SaltType)) (es : List Int32), es ≠ [] →
      keysalts.foldl (fun es ks => if ks.1 ∈ es then es else es ++ [ks.1]) es ≠ [] := by
    intro keysalts
    induction keysalts with
    | nil => exact fun _ hes => hes
    | cons ks keysalts ih =>
      intro es hes
      refine ih _ ?_
      dsimp only
      split
      · exact hes
      · simp
  unfold AdminOps.etypes
  cases a.keysalts with
  | nil => simp
  | cons ks keysalts => simpa using hadd keysalts [ks.1] (by simp)

/-- The enctypes of random keys. -/
def AdminOps.madeEtypes (a : AdminOps) (name : PrincipalName) : List Int32 :=
  if AdminOps.isHistoryPrincipal name then a.etypes.take 1 else a.etypes

theorem made_eq_nil {fresh : Nat → Bytes} {new : List KeyEntry}
    (h : a.makeKeys fresh name realm kvno (a.madeEtypes name) password = .ok new) : new = [] ↔ a.keysalts = [] := by
  have hetypes : a.madeEtypes name = [] ↔ a.keysalts = [] := by
    rw [← etypes_eq_nil, AdminOps.madeEtypes]
    split
    · simp
    · rfl
  rw [← List.length_eq_zero_iff, (makeKeys_spec h).2]
  split
  · exact List.length_eq_zero_iff
  · rw [List.length_eq_zero_iff, hetypes]

def Advances (old new kept : List KeyEntry) : Prop :=
  highest (new ++ kept) = highest old + 1 ∧ (∀ k ∈ new, k.kvno.toNat = highest (new ++ kept)) ∧
    ∀ k ∈ kept, k.kvno.toNat ≠ highest (new ++ kept)

variable {keepOld : Nat} {new old : List KeyEntry}

omit [KeyGen] [Alphabet] in
theorem advances_iff (hnew : ∀ k ∈ new, k.kvno = (old.map KeyEntry.kvno).max?.getD 0 + 1) :
    Advances old new (keptKeys keepOld old) ↔ new ≠ [] ∧ highest old < 2 ^ 32 - 1 := by
  have hold : ∀ k ∈ keptKeys keepOld old, k.kvno.toNat ≤ highest old := fun k hk => le_highest (keptKeys_subset hk)
  have hbound := highest_lt (new ++ keptKeys keepOld old)
  constructor
  · rintro ⟨hnext, -, -⟩
    refine ⟨?_, by omega⟩
    rintro rfl
    have := highest_le hold
    rw [List.nil_append] at hnext
    omega
  · rintro ⟨hne, hlt⟩
    have hkvno : ∀ k ∈ new, k.kvno.toNat = highest old + 1 := by
      intro k hk
      rw [hnew k hk, UInt32.toNat_add]
      exact Nat.mod_eq_of_lt (by simpa [highest] using Nat.add_lt_of_lt_sub hlt)
    have hhighest : highest (new ++ keptKeys keepOld old) = highest old + 1 := by
      obtain ⟨k, hk⟩ := List.exists_mem_of_ne_nil new hne
      refine Nat.le_antisymm (highest_le fun k hk => ?_) ?_
      · rcases List.mem_append.mp hk with hk | hk
        · exact (hkvno k hk).le
        · exact Nat.le_succ_of_le (hold k hk)
      · rw [← hkvno k hk]
        exact le_highest (List.mem_append_left _ hk)
    refine ⟨hhighest, fun k hk => (hkvno k hk).trans hhighest.symm, fun k hk heq => ?_⟩
    have := hold k hk
    omega

omit [KeyGen] [Alphabet] in
theorem card_le (hnew : ∀ k ∈ new, k.kvno = kvno) (hkeep : 1 < keepOld) :
    (versions (new ++ keptKeys keepOld old)).card ≤ keepOld := by
  obtain ⟨hperm, -⟩ := keptKeys_spec keepOld old
  have hkept : (versions (keptKeys keepOld old)).card ≤ keepOld - 1 := by
    refine card_le_of_above (s := versions old) (fun v hv => ?_) fun v hv => ?_
    all_goals
      obtain ⟨k, hk, rfl⟩ := mem_versions.mp hv
      obtain ⟨hmem, hretained⟩ := List.mem_filter.mp (hperm.mem_iff.mp hk)
    · exact mem_versions.mpr ⟨k, hmem, rfl⟩
    · have : keepOld ≠ 1 := by omega
      simpa [Retained, this, above] using hretained
  have hsub : versions (new ++ keptKeys keepOld old) ⊆ insert kvno.toNat (versions (keptKeys keepOld old)) := by
    intro v hv
    obtain ⟨k, hk, rfl⟩ := mem_versions.mp hv
    rcases List.mem_append.mp hk with hk | hk
    · simp [hnew k hk]
    · exact Finset.mem_insert_of_mem (mem_versions.mpr ⟨k, hk, rfl⟩)
  have hcard := (Finset.card_le_card hsub).trans (Finset.card_insert_le _ _)
  omega

variable [Crypto] {env : Env} {rec rec' : PrincipalRecord}

/-- The keys a change of this record makes and those it keeps. -/
structure KeyChange (a : AdminOps) (env : Env) (name : PrincipalName) (realm : Str) (password : Option Str) (keepOld : Nat)
    (rec : PrincipalRecord) (new kept : List KeyEntry) : Prop where
  made : a.makeKeys (env.fresh 0) name realm (rec.entry.currentKvno.getD 0 + 1) (a.madeEtypes name) password = .ok new
  perm : kept.Perm (rec.entry.keys.filter (Retained keepOld rec.entry.keys))
  sorted : NewestFirst kept
  next_iff : Advances rec.entry.keys new kept ↔ a.keysalts ≠ [] ∧ highest rec.entry.keys < 2 ^ 32 - 1

theorem changedKeys_spec {policy : Option MitPolicy} {policyName : Option Str}
    {hist : Option (List EncryptionKey × UInt32)}
    (h : a.changedKeys env name realm password keepOld policy policyName hist rec = .ok rec') :
    rec'.entry.name = rec.entry.name ∧ rec'.entry.realm = rec.entry.realm ∧
      ∃ new, KeyChange a env name realm password keepOld rec new (keptKeys keepOld rec.entry.keys) ∧
        rec'.entry.keys = new ++ keptKeys keepOld rec.entry.keys := by
  unfold AdminOps.changedKeys at h
  split at h
  · cases h
  obtain ⟨new, hnew, h⟩ := bind_eq_ok.mp h
  obtain ⟨checkedRec, -, h⟩ := bind_eq_ok.mp h
  cases h
  obtain ⟨hperm, hsorted⟩ := keptKeys_spec keepOld rec.entry.keys
  refine ⟨rfl, rfl, new, ⟨hnew, hperm, hsorted, ?_⟩, rfl⟩
  rw [advances_iff (makeKeys_spec hnew).1, ne_eq, made_eq_nil hnew]

/-! ## The klmdb store -/

/-- The kvnos of the keys an entry holds. -/
def MitEntry.kvnos (e : MitEntry) : List UInt32 := e.keyData.map (·.kvno.toUInt32)

def MitEntry.highestKvno (e : MitEntry) : Nat := (e.kvnos.max?.getD 0).toNat

def MitEntry.versions (e : MitEntry) : Finset Nat := (e.kvnos.map UInt32.toNat).toFinset

variable {raw raw' : MitEntry} {keys : MasterKeys} {w : UInt16}

omit [KeyGen] in
theorem kvnos_of_record (h : recordFromEntry raw keys = .ok rec) : rec.entry.keys.map KeyEntry.kvno = raw.kvnos ∧
    rec.entry.name = raw.principal ∧ rec.entry.realm = raw.realm := by
  obtain ⟨v, -, h⟩ := bind_eq_ok.mp h
  split at h
  · cases h
  obtain ⟨read, hread, h⟩ := bind_eq_ok.mp h
  obtain ⟨fields, hfields, h⟩ := bind_eq_ok.mp h
  cases h
  unfold recordWithoutKeys at hfields
  iterate 7 obtain ⟨_, -, hfields⟩ := bind_eq_ok.mp hfields
  cases hfields
  refine ⟨?_, rfl, rfl⟩
  have hall := Wire.forall₂_of_mapM hread
  rw [← List.forall₂_eq_eq_eq, MitEntry.kvnos, List.forall₂_map_left_iff, List.forall₂_map_right_iff]
  refine hall.flip.imp fun key data hkey => ?_
  iterate 3 obtain ⟨_, -, hkey⟩ := bind_eq_ok.mp hkey
  cases hkey
  rfl

omit [KeyGen] in
theorem kvnos_of_wrapped {keyEntries : List KeyEntry} (h : WrappedUnder keys name realm w raw.keyData keyEntries) :
    raw.kvnos = keyEntries.map KeyEntry.kvno := by
  rw [← List.forall₂_eq_eq_eq, MitEntry.kvnos, List.forall₂_map_left_iff, List.forall₂_map_right_iff]
  refine h.imp fun data key hkey => ?_
  obtain ⟨_, -, hwraps⟩ := hkey
  exact hwraps.kvno

omit [KeyGen] [Alphabet] [Crypto] in
theorem versions_eq (keyEntries : List KeyEntry) :
    versions keyEntries = ((keyEntries.map KeyEntry.kvno).map UInt32.toNat).toFinset := by
  rw [versions, List.map_map]
  rfl

omit [KeyGen] in
theorem updatePrincipalAs_eq_ok {r : Readings} {modifier : Bytes}
    {tl : List TlData} {f : PrincipalRecord → Except StoreError PrincipalRecord} {s s' : LmdbStore}
    {updated : PrincipalRecord} (h : LmdbStore.updatePrincipalAs r name realm modifier tl f s = .ok updated s') :
    ∃ raw keys found stored new, StoredAt s (unparseName name realm) raw ∧
      recordFromEntry raw keys = .ok found ∧ f found = .ok stored ∧ updated.entry = stored.entry ∧
      LmdbStore.merged r raw keys updated modifier tl = .ok new ∧
      StoredAt s' (unparseName name realm) (new.readBack raw.principal raw.realm) := by
  obtain ⟨_, s₁, hrefresh, h⟩ := bind_eq_ok.mp h
  have hreread := LmdbStore.keeps_refreshMaster s
  rw [after_of_ok hrefresh] at hreread
  rw [Stateful.get_bind] at h
  obtain ⟨raw, s₂, hraw, h⟩ := bind_eq_ok.mp h
  obtain ⟨rfl, hvalue⟩ := LmdbStore.stored_eq_ok hraw
  obtain ⟨found, s₃, hread, h⟩ := bind_eq_ok.mp h
  obtain ⟨hfound, rfl⟩ := checked_eq_ok hread
  obtain ⟨stored, s₄, hf, h⟩ := bind_eq_ok.mp h
  obtain ⟨hstored, rfl⟩ := checked_eq_ok hf
  obtain ⟨new, s₅, hmerge, h⟩ := bind_eq_ok.mp h
  obtain ⟨encoded, s₆, hencode, h⟩ := bind_eq_ok.mp h
  obtain ⟨_, s₇, hput, h⟩ := bind_eq_ok.mp h
  obtain ⟨_, s₈, hlog, h⟩ := bind_eq_ok.mp h
  cases h
  cases hput
  obtain ⟨hmerged, rfl⟩ := checked_eq_ok hmerge
  obtain ⟨hencoded, rfl⟩ := checked_eq_ok hencode
  have hlogged := LmdbStore.keeps_logHeld (r.logged 0) (Iprop.updateFromEntry (some raw) new)
    { s₆ with principals := Function.update s₆.principals (unparseName name realm) (some encoded.2) }
  rw [after_of_ok hlog] at hlogged
  have hsame : LmdbStore.SamePrincipals s₆ s := hreread.same.symm
  exact ⟨raw, _, found, stored, new, StoredAt.same hvalue hsame, hfound, hstored, rfl, hmerged,
    LmdbStore.Replaced.storedAt ⟨encoded.1, encoded.2, hencoded, hlogged⟩ hvalue⟩

/-- A call finds the record of one entry, makes keys and stores another entry, which holds them and the keys it keeps as
long as it has room for the new kvno. -/
theorem changePasswordKeeping_stores {s s' : LmdbStore}
    (h : a.changePasswordKeeping env name realm password keepOld s = .ok kvno s') :
    ∃ raw keys rec new raw', StoredAt s (unparseName name realm) raw ∧ recordFromEntry raw keys = .ok rec ∧
      KeyChange a env name realm password keepOld rec new (keptKeys keepOld rec.entry.keys) ∧
      kvno.toNat = highest (new ++ keptKeys keepOld rec.entry.keys) ∧
      StoredAt s' (unparseName name realm) raw' ∧ (kvno.toNat < 2 ^ 16 →
        ∃ w, WrappedUnder keys raw'.principal raw'.realm w raw'.keyData (new ++ keptKeys keepOld rec.entry.keys)) := by
  unfold AdminOps.changePasswordKeeping at h
  split at h
  · cases h
  obtain ⟨current, s₁, hrequire, h⟩ := bind_eq_ok.mp h
  obtain ⟨before, hbefore, -⟩ := AdminOps.require_eq_ok hrequire
  have hreread := AdminOps.keeps_require name realm s
  rw [after_of_ok hrequire] at hreread
  obtain ⟨policy, s₂, hpolicy, h⟩ := bind_eq_ok.mp h
  rw [(checked_eq_ok hpolicy).2] at h
  obtain ⟨hist, s₃, hhist, h⟩ := bind_eq_ok.mp h
  have hkept := AdminOps.keeps_neededHistory (unparseName name realm) a env realm password policy current s₁
  rw [after_of_ok hhist] at hkept
  obtain ⟨_, s₄, hcheck, h⟩ := bind_eq_ok.mp h
  rw [(checked_eq_ok hcheck).2] at h
  obtain ⟨updated, s₅, hupdate, h⟩ := bind_eq_ok.mp h
  cases h
  obtain ⟨raw, keys, found, stored, entry, hraw, hfound, hstored, hentry, hmerged, hstoredAt⟩ :=
    updatePrincipalAs_eq_ok (AdminOps.spawnWrite_eq_ok hupdate)
  cases (hbefore.kept hkept).unique hraw
  obtain ⟨hname, hrealm, new, hnew, hkeys⟩ := changedKeys_spec hstored
  obtain ⟨-, hnamed, hrealmed⟩ := kvnos_of_record hfound
  rw [← hentry] at hname hrealm hkeys
  have hkvno : (updated.entry.currentKvno.getD 0).toNat = highest (new ++ keptKeys keepOld found.entry.keys) := by
    rw [← hkeys]
    rfl
  refine ⟨before, keys, found, new, _, hbefore.same hreread.same.symm, hfound, hnew, hkvno, hstoredAt, ?_⟩
  intro hroom
  obtain ⟨merged, hmerge, hmerged⟩ := bind_eq_ok.mp hmerged
  cases hmerged
  have hk : ∀ k ∈ updated.entry.keys, k.kvno.toNat < 2 ^ 16 := by
    intro k hk
    have hle := le_highest hk
    rw [hkeys, ← hkvno] at hle
    omega
  obtain ⟨hm, w, v, -, -, hwraps⟩ := mergeRecord_spec hk hmerge
  rw [hm.name, hm.realm, hname, hrealm, hnamed, hrealmed, hkeys] at hwraps
  exact ⟨w, hwraps⟩

/-! ## Runs -/

variable (name realm) in
/-- Successful changes of one principal one after another, each with the number of versions to keep and the kvno it
returns: some keys are made, and the kvno fits an entry. -/
inductive Calls : LmdbStore → List (Nat × UInt32) → LmdbStore → Prop
  | nil (s : LmdbStore) : Calls s [] s
  | cons {a : AdminOps} {env : Env} {password : Option Str} {keepOld : Nat} {kvno : UInt32} {s s₁ s' : LmdbStore}
      {rest : List (Nat × UInt32)} (hsalts : a.keysalts ≠ []) (hroom : kvno.toNat < 2 ^ 16)
      (hcall : a.changePasswordKeeping env name realm password keepOld s = .ok kvno s₁) (hrest : Calls s₁ rest s') :
      Calls s ((keepOld, kvno) :: rest) s'

theorem call_advances {s s' : LmdbStore} (hsalts : a.keysalts ≠ []) (hroom : kvno.toNat < 2 ^ 16)
    (h : a.changePasswordKeeping env name realm password keepOld s = .ok kvno s') :
    ∃ raw raw', StoredAt s (unparseName name realm) raw ∧
      StoredAt s' (unparseName name realm) raw' ∧ kvno.toNat = raw.highestKvno + 1 ∧
      raw'.highestKvno = kvno.toNat ∧ (1 < keepOld → raw'.versions.card ≤ keepOld) := by
  obtain ⟨raw, keys, rec, new, raw', hraw, hrec, hchange, hkvno, hraw', hstored⟩ := changePasswordKeeping_stores h
  obtain ⟨w, hwraps⟩ := hstored hroom
  have hkvnos := kvnos_of_wrapped hwraps
  have hold := (kvnos_of_record hrec).1
  have hsmall : highest rec.entry.keys < 2 ^ 32 - 1 := by
    rw [highest, hold]
    cases hmax : raw.kvnos.max? with
    | none => decide
    | some v =>
      obtain ⟨d, -, rfl⟩ := List.mem_map.mp (List.max?_eq_some_iff.mp hmax).1
      have := d.kvno.toNat_lt
      simp only [Option.getD_some, UInt16.toNat_toUInt32]
      omega
  obtain ⟨hnext, -, -⟩ := hchange.next_iff.mpr ⟨hsalts, hsmall⟩
  refine ⟨raw, raw', hraw, hraw', ?_, ?_, fun hkeep => ?_⟩
  · rw [hkvno, hnext, highest, hold]
    rfl
  · rw [hkvno, MitEntry.highestKvno, hkvnos]
    rfl
  · rw [MitEntry.versions, hkvnos, ← versions_eq]
    exact card_le (makeKeys_spec hchange.made).1 hkeep

variable {s s' : LmdbStore} {calls : List (Nat × UInt32)}

theorem Calls.increase (h : Calls name realm s calls s') : (calls.map Prod.snd).Pairwise (· < ·) ∧
    ∀ raw, StoredAt s (unparseName name realm) raw → ∀ c ∈ calls, raw.highestKvno < c.2.toNat := by
  induction h with
  | nil s => simp
  | cons hsalts hroom hcall _ ih =>
    obtain ⟨raw, raw', hraw, hraw', hnext, htop, -⟩ := call_advances hsalts hroom hcall
    obtain ⟨hpairs, habove⟩ := ih
    have hlater := habove raw' hraw'
    rw [htop] at hlater
    refine ⟨List.pairwise_cons.mpr ⟨?_, hpairs⟩, ?_⟩
    · intro v hv
      obtain ⟨c, hc, rfl⟩ := List.mem_map.mp hv
      exact UInt32.lt_iff_toNat_lt.mpr (hlater c hc)
    · intro raw₀ hraw₀
      obtain rfl := hraw.unique hraw₀
      refine List.forall_mem_cons.mpr ⟨by simp only; omega, fun c hc => ?_⟩
      have := hlater c hc
      omega

theorem Calls.bounded (h : Calls name realm s calls s') (hkeep : 1 < keepOld) (hne : calls ≠ [])
    (hall : ∀ c ∈ calls, c.1 = keepOld) :
    ∃ raw, StoredAt s' (unparseName name realm) raw ∧ raw.versions.card ≤ keepOld := by
  induction h with
  | nil s => exact absurd rfl hne
  | cons hsalts hroom hcall hrest ih =>
    obtain ⟨hfirst, hall⟩ := List.forall_mem_cons.mp hall
    cases hrest with
    | nil =>
      obtain ⟨-, raw', -, hraw', -, -, hcard⟩ := call_advances hsalts hroom hcall
      obtain rfl : _ = keepOld := hfirst
      exact ⟨raw', hraw', hcard hkeep⟩
    | cons => exact ih (List.cons_ne_nil _ _) hall

/-- A change keeps the requested versions; the new kvno is the next one exactly when there is a key/salt type and the
highest kvno is not the last of 32 bits. In runs on the klmdb store the kvnos increase and the versions stay bounded. -/
theorem password_change_keeps (keepOld : Nat) :
    (∀ (a : AdminOps) (env : Env) (name : PrincipalName) (realm : Str) (password : Option Str)
      (policy : Option MitPolicy) (policyName : Option Str) (hist : Option (List EncryptionKey × UInt32))
      (rec rec' : PrincipalRecord),
      a.changedKeys env name realm password keepOld policy policyName hist rec = .ok rec' →
        ∃ new kept, KeyChange a env name realm password keepOld rec new kept ∧ rec'.entry.keys = new ++ kept) ∧
    (∀ (a : AdminOps) (env : Env) (name : PrincipalName) (realm : Str) (password : Option Str) (s s' : LmdbStore)
      (kvno : UInt32), a.changePasswordKeeping env name realm password keepOld s = .ok kvno s' →
        ∃ raw keys rec new kept raw', StoredAt s (unparseName name realm) raw ∧
          recordFromEntry raw keys = .ok rec ∧ KeyChange a env name realm password keepOld rec new kept ∧
          kvno.toNat = highest (new ++ kept) ∧ StoredAt s' (unparseName name realm) raw' ∧
          (kvno.toNat < 2 ^ 16 → ∃ w, WrappedUnder keys raw'.principal raw'.realm w raw'.keyData (new ++ kept))) ∧
    ∀ (name : PrincipalName) (realm : Str) (s s' : LmdbStore) (calls : List (Nat × UInt32)),
      Calls name realm s calls s' → (calls.map Prod.snd).Pairwise (· < ·) ∧
        (1 < keepOld → calls ≠ [] → (∀ c ∈ calls, c.1 = keepOld) →
          ∃ raw, StoredAt s' (unparseName name realm) raw ∧ raw.versions.card ≤ keepOld) := by
  refine ⟨?_, ?_, fun name realm s s' calls h => ⟨h.increase.1, h.bounded⟩⟩
  · intro a env name realm password policy policyName hist rec rec' h
    obtain ⟨-, -, new, hchange, hkeys⟩ := changedKeys_spec h
    exact ⟨new, _, hchange, hkeys⟩
  · intro a env name realm password s s' kvno h
    obtain ⟨raw, keys, rec, new, raw', h⟩ := changePasswordKeeping_stores h
    exact ⟨raw, keys, rec, new, _, raw', h⟩

end

section
local instance keptNames : Alphabet := Alphabet.ascii
attribute [local instance] Crypto.toy
local instance keptKeyGen : KeyGen := ⟨fun _ password _ => .ok password, fun _ bytes => .ok bytes⟩

def versioned (kvnos : List UInt32) : PrincipalRecord where
  entry := AdminOps.newPrincipal freshEntry.principal freshEntry.realm (kvnos.map fun v => ⟨v, ⟨18, [75]⟩, none, none⟩)

def keptOps : AdminOps := ⟨[], [], [(18, .normal)], 18⟩

def keptEnv : Env where
  now := 80
  writes _ := ⟨⟨80, 0⟩, ⟨80, 80, 80⟩, fun _ => [], fun _ => ⟨80, 0⟩⟩
  fresh _ _ := [80]
  policies _ := .ok none
  pwqual _ _ _ _ := .ok ()
  lockoutRecord _ := .ok ()

/-- A random key for a record with these kvnos. -/
def changedSample (kvnos : List UInt32) (keepOld : Nat) : Except StoreError PrincipalRecord :=
  keptOps.changedKeys keptEnv freshEntry.principal freshEntry.realm none keepOld none none none (versioned kvnos)

def keptStore : LmdbStore where
  realm := freshEntry.realm
  suppliedMaster := ⟨18, [1]⟩
  principals key :=
    if key = [75, 47, 77, 64, 75] then
      (MitEntry.encode { freshEntry with
        principal := ⟨1, [⟨[75], rfl⟩, ⟨[77], rfl⟩]⟩, keyData := [⟨1, 1, [(18, [1, 0, 1, 1])]⟩] }).toOption.map (·.2)
    else if key = [97, 64, 75] then
      (MitEntry.encode { freshEntry with
        keyData := [⟨1, 3, [(18, [1, 0, 1, 7])]⟩] }).toOption.map (·.2)
    else none
  master := ⟨[(1, ⟨18, [1]⟩)], [⟨1, 0⟩]⟩
  ulog := none

def keptCall : EStateM.Result Ulog.Fault LmdbStore UInt32 :=
  keptOps.changePasswordKeeping keptEnv freshEntry.principal freshEntry.realm none 2 keptStore

/-- One change of a record with the kvnos 1, 3, 2 and 3, and one of the stored principal with kvno 3. -/
theorem password_change_keeps_two :
    (∃ rec' new kept, changedSample [1, 3, 2, 3] 2 = .ok rec' ∧ rec'.entry.keys = new ++ kept ∧
      Advances (versioned [1, 3, 2, 3]).entry.keys new kept) ∧
    ∃ s', keptCall = .ok 4 s' ∧ ∃ raw, StoredAt s' [97, 64, 75] raw ∧ raw.versions.card ≤ 2 := by
  constructor
  · have h : ∃ rec', changedSample [1, 3, 2, 3] 2 = .ok rec' := ⟨_, rfl⟩
    obtain ⟨rec', h⟩ := h
    obtain ⟨new, kept, hchange, hkeys⟩ := (password_change_keeps 2).1 _ _ _ _ _ _ _ _ _ _ h
    exact ⟨rec', new, kept, h, hkeys, hchange.next_iff.mpr ⟨List.cons_ne_nil _ _, by decide +kernel⟩⟩
  · have hcall : (match keptCall with | .ok kvno _ => some kvno | .error _ _ => none) = some 4 := by decide +kernel
    cases h : keptCall with
    | error e s' =>
      rw [h] at hcall
      cases hcall
    | ok kvno s' =>
      rw [h] at hcall
      obtain rfl : kvno = 4 := Option.some.inj hcall
      obtain ⟨-, hbounded⟩ := (password_change_keeps 2).2.2 _ _ _ _ [(2, 4)]
        (.cons (a := keptOps) (List.cons_ne_nil _ _) (by decide) h (.nil s'))
      exact ⟨s', rfl, hbounded (by decide) (List.cons_ne_nil _ _) (by simp)⟩

/-- The kvno behind the last one of 32 bits is 0. -/
theorem last_kvno_wraps : ∃ rec', changedSample [0xffffffff] 0 = .ok rec' ∧
    highest (versioned [0xffffffff]).entry.keys = 2 ^ 32 - 1 ∧ highest rec'.entry.keys = 0 := by
  have hkeys : (changedSample [0xffffffff] 0).toOption.map (highest ·.entry.keys) = some 0 := by decide +kernel
  cases h : changedSample [0xffffffff] 0 with
  | error e =>
    rw [h] at hkeys
    cases hkeys
  | ok rec' =>
    rw [h] at hkeys
    exact ⟨rec', rfl, by decide +kernel, Option.some.inj hkeys⟩

end

end Krb5Rs
