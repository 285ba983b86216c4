import Krb5Rs.Iprop
import Krb5Rs.MitNameSound

/-!
# When a replica follows its primary

An update carries a changed number only below `2 ^ 31`, changed keys only when
each has as many fields as its version says, and TL data by replacing the first
item of each type. The replica gets the primary's entry exactly when that is
enough for the change.
-/

namespace Krb5Rs

open Utf8 (Str)
open Tagged (overlay updateAll valuesAt)

namespace Iprop

theorem signed_iff (v : UInt32) : signed v = true ↔ v.toNat < 2 ^ 31 := by
  have hv := v.toNat_lt
  simp only [signed, decide_eq_true_eq, Int32.le_iff_toInt_le]
  have : v.toInt32.toInt = if 2 * v.toNat < 2 ^ 32 then (v.toNat : Int) else v.toNat - 2 ^ 32 := by
    show v.toBitVec.toInt = _
    rfl
  rw [this]
  split <;> simp <;> omega

theorem ne_iff_length_or_zip {α : Type} [DecidableEq α] (l : List α) :
    ∀ m : List α, (l.length ≠ m.length ∨ (l.zip m).any (fun (a, b) => a ≠ b) = true) ↔ l ≠ m := by
  induction l with
  | nil => intro m; cases m <;> simp
  | cons a l ih =>
    intro m
    cases m with
    | nil => simp
    | cons b m =>
      have := ih m
      by_cases hab : a = b
      · simpa [hab] using this
      · simp [hab]

/-- A key as it comes out of the update, padded or cut to its version. -/
def padKey (k : KeyData) : KeyData :=
  { k with fields := (List.range k.ver.toNat).map fun i => (k.fields[i]?).getD (0, []) }

theorem padKey_eq_iff (k : KeyData) : padKey k = k ↔ k.fields.length = k.ver.toNat := by
  obtain ⟨ver, kvno, fields⟩ := k
  simp only [padKey, KeyData.mk.injEq, true_and]
  constructor
  · intro h
    have := congrArg List.length h
    simpa using this.symm
  · intro h
    apply List.ext_getElem
    · simp [h]
    · intro i hi hi'
      simp [hi']

theorem dbKey_logKey (k : KeyData) : dbKey (logKey k) =
      if k.ver.toNat ≤ 2 then .ok (padKey k)
      else .error (.backend "invalid key data version in update") := by
  have hv := k.ver.toNat_lt
  have hint : (Int32.ofNat k.ver.toNat).toInt = k.ver.toNat := Int32.toInt_ofNat_of_lt (by omega)
  have hgt : 2 < (logKey k).ver ↔ ¬ k.ver.toNat ≤ 2 := by
    rw [Int32.lt_iff_toInt_lt]
    show (2 : Int) < (Int32.ofNat k.ver.toNat).toInt ↔ _
    omega
  unfold dbKey
  by_cases h2 : k.ver.toNat ≤ 2
  · rw [if_neg (fun h => hgt.mp h h2), if_pos h2]
    simp only [logKey, padKey, hint, Int32.toUInt32_ofNat', Except.ok.injEq, KeyData.mk.injEq,
      UInt32.toUInt16_ofNat', UInt16.ofNat_toNat, true_and, Int.toNat_natCast]
    apply List.map_congr_left
    intro i hi
    have hi := List.mem_range.mp hi
    simp [hi]
  · rw [if_pos (hgt.mpr h2), if_neg h2]

def versOk (keys : List KeyData) : Bool := keys.all fun k => k.ver.toNat ≤ 2

variable (keys : List KeyData)

theorem mapM_dbKey : (keys.map logKey).mapM dbKey =
      if versOk keys then .ok (keys.map padKey)
      else .error (.backend "invalid key data version in update") := by
  induction keys with
  | nil => rfl
  | cons k keys ih =>
    rw [List.map_cons, List.mapM_cons, dbKey_logKey, ih]
    by_cases hk : k.ver.toNat ≤ 2
    · cases hks : versOk keys with
      | true =>
        have : versOk (k :: keys) = true := by simpa [versOk, hk] using hks
        simp [hk, this, bind, Except.bind, pure, Except.pure]
      | false =>
        have : versOk (k :: keys) = false := by simpa [versOk, hk] using hks
        simp [hk, this, bind, Except.bind]
    · have : versOk (k :: keys) = false := by simp [versOk, hk]
      simp [hk, this, bind, Except.bind]

def carriedScalar (cur new rep : UInt32) : UInt32 :=
  if cur ≠ new ∧ signed new = true then new else rep

def scalarCarried (cur new : UInt32) : Prop := cur = new ∨ new.toNat < 2 ^ 31

theorem carriedScalar_eq_iff {cur new rep : UInt32} (h : rep = cur) :
    carriedScalar cur new rep = new ↔ scalarCarried cur new := by
  subst h
  unfold carriedScalar scalarCarried
  rw [← signed_iff]
  by_cases hc : rep = new
  · simp [hc]
  · by_cases hs : signed new = true <;> simp [hc, hs]

theorem map_padKey_eq_iff : keys.map padKey = keys ↔ ∀ k ∈ keys, k.fields.length = k.ver.toNat := by
  simp only [← padKey_eq_iff]
  induction keys with
  | nil => simp
  | cons k keys ih => simp [ih]

def keysCarried (cur new : List KeyData) : Prop :=
  cur = new ∨ ∀ k ∈ new, k.ver.toNat ≤ 2 ∧ k.fields.length = k.ver.toNat

section
variable [Alphabet] (new : MitEntry) (c : Bool) (s : Patch)

/-! ## What is replicated -/

def replicatedKind (k : UInt16) : Bool := k ≠ lastPwdChange ∧ k ≠ modPrinc

def replicatedTl (e : MitEntry) : List TlData := e.tlData.filter fun t => replicatedKind t.kind

/-- The replicated fields agree, TL data as a multiset. -/
structure Replicates (a b : MitEntry) : Prop where
  attributes : a.attributes = b.attributes
  maxLife : a.maxLife = b.maxLife
  maxRenewableLife : a.maxRenewableLife = b.maxRenewableLife
  expiration : a.expiration = b.expiration
  pwExpiration : a.pwExpiration = b.pwExpiration
  keyData : a.keyData = b.keyData
  tlData : (replicatedTl a).Perm (replicatedTl b)

theorem Replicates.refl (e : MitEntry) : Replicates e e :=
  ⟨rfl, rfl, rfl, rfl, rfl, rfl, List.Perm.refl _⟩

theorem replicatedTl_perm_iff {a b : MitEntry} : (replicatedTl a).Perm (replicatedTl b) ↔
      ∀ k, replicatedKind k = true →
        (valuesAt k a.tlData).Perm (valuesAt k b.tlData) := by
  rw [Tagged.perm_iff_valuesAt]
  simp only [replicatedTl, Tagged.valuesAt_filter_kind]
  constructor
  · intro h k hk
    simpa [hk] using h k
  · intro h k
    cases hk : replicatedKind k with
    | false => simp
    | true => simpa using h k hk

/-! ## What an update carries -/

/-- Of each type, all but the last new item are left over from the replica's items but the first,
and no type disappears. -/
def tlCarried (cur rep new : List TlData) : Prop :=
  cur = new ∨ ∀ k, replicatedKind k = true →
    (valuesAt k new = [] → valuesAt k rep = []) ∧
      (valuesAt k new).dropLast.Perm (valuesAt k rep).tail

/-- The update from `cur` to `new` carries the whole change to the replica's entry `rep`. -/
structure Carries (cur rep new : MitEntry) : Prop where
  attributes : scalarCarried cur.attributes new.attributes
  maxLife : scalarCarried cur.maxLife new.maxLife
  maxRenewableLife : scalarCarried cur.maxRenewableLife new.maxRenewableLife
  expiration : scalarCarried cur.expiration new.expiration
  pwExpiration : scalarCarried cur.pwExpiration new.pwExpiration
  keyData : keysCarried cur.keyData new.keyData
  tlData : tlCarried cur.tlData rep.tlData new.tlData

/-! ## What the patch does -/

theorem componentsOf_ulogPrinc (gs : List GeneralString) :
    componentsOf (gs.map fun c => (kv5mData, c.bytes)) = .ok gs := by
  induction gs with
  | nil => rfl
  | cons g gs ih => simp [componentsOf, ih, Except.map]

theorem princName_ulogPrinc (name : PrincipalName) (realm : Str) :
    princName (ulogPrinc name realm) = .ok (name, realm) := by
  simp [princName, ulogPrinc, componentsOf_ulogPrinc, bind, Except.bind]

theorem patch_scalar (attr : Nat) (v : UInt32 → Value) (get : MitEntry → UInt32) (set : MitEntry → UInt32 → MitEntry)
    (hval : attrValues new attr = if signed (get new) then [v (get new)] else [])
    (happly : ∀ (s : Patch) x, s.apply (v x) = .ok { s with entry := set s.entry x })
    (hset : ∀ e, set e (get e) = e) (c : UInt32) (s : Patch) :
    ((if c ≠ get new then [attr] else []).flatMap (attrValues new)).foldlM Patch.apply s =
      .ok { s with entry := set s.entry (carriedScalar c (get new) (get s.entry)) } := by
  unfold carriedScalar
  by_cases h : c = get new
  · simp [h, hset, pure, Except.pure]
  · by_cases hs : signed (get new) = true
    · simp [h, hs, hval, happly, pure, Except.pure, bind, Except.bind]
    · simp [h, hs, hval, hset, pure, Except.pure]

def patchedScalars (cur new e : MitEntry) : MitEntry :=
  { e with
    attributes := carriedScalar cur.attributes new.attributes e.attributes
    maxLife := carriedScalar cur.maxLife new.maxLife e.maxLife
    maxRenewableLife := carriedScalar cur.maxRenewableLife new.maxRenewableLife e.maxRenewableLife
    expiration := carriedScalar cur.expiration new.expiration e.expiration
    pwExpiration := carriedScalar cur.pwExpiration new.pwExpiration e.pwExpiration }

theorem patch_princ : ∃ principal realm, ((if c then [8] else []).flatMap (attrValues new)).foldlM Patch.apply s =
      .ok { s with entry := { s.entry with principal := principal, realm := realm } } := by
  cases c with
  | false => exact ⟨s.entry.principal, s.entry.realm, rfl⟩
  | true =>
    by_cases hn : new.principal.nameString.isEmpty = true
    · exact ⟨s.entry.principal, s.entry.realm, by simp [attrValues, hn, pure, Except.pure]⟩
    · refine ⟨new.principal, new.realm, ?_⟩
      simp [attrValues, hn, Patch.apply, princName_ulogPrinc, pure, Except.pure, bind, Except.bind]

theorem patch_keys : ((if c then [9] else []).flatMap (attrValues new)).foldlM Patch.apply s =
      if c = false then .ok s
      else if versOk new.keyData then
        .ok { s with entry := { s.entry with keyData := new.keyData.map padKey } }
      else .error (.backend "invalid key data version in update") := by
  cases c with
  | false => rfl
  | true =>
    simp only [if_true, List.flatMap_cons, List.flatMap_nil, List.append_nil, attrValues,
      List.foldlM_cons, Patch.apply, mapM_dbKey, List.foldlM_nil]
    cases h : versOk new.keyData <;> simp [bind, Except.bind, pure, Except.pure]

theorem foldl_setTl (tls : List Tl) : ∀ e : MitEntry, tls.foldl (fun e t => setTl e t.kind.toUInt16 t.data) e =
      { e with tlData := updateAll (tls.map fun t => ⟨t.kind.toUInt16, t.data⟩) e.tlData } := by
  induction tls with
  | nil => intro e; rfl
  | cons t tls ih => intro e; rw [List.foldl_cons, ih]; rfl

theorem logTls_kinds : ((logTls new).map fun t => (⟨t.kind.toUInt16, t.data⟩ : TlData)) = replicatedTl new := by
  simp [logTls, replicatedTl, replicatedKind, Function.comp_def]

theorem patch_modValues : ∃ modBy modTime, (modValues new).foldlM Patch.apply s =
      .ok { s with modBy := modBy, modTime := modTime } := by
  unfold modValues
  cases ulogTl new modPrinc with
  | none => exact ⟨s.modBy, s.modTime, rfl⟩
  | some d =>
    dsimp only
    by_cases hd : 5 ≤ d.length ∧ d.getLast? = some 0
    · rw [if_pos hd]
      cases parseName (d.drop 4).dropLast with
      | error e => exact ⟨s.modBy, s.modTime, rfl⟩
      | ok nr =>
        refine ⟨some nr, UInt32.ofNat (Wire.ofLe (d.take 4)), ?_⟩
        simp [Patch.apply, princName_ulogPrinc, bind, Except.bind, pure, Except.pure]
    · rw [if_neg hd]
      exact ⟨s.modBy, s.modTime, rfl⟩

theorem patch_tl : ∃ modBy modTime tl, ((if c then [10] else []).flatMap (attrValues new)).foldlM Patch.apply s =
        .ok { entry := { s.entry with tlData := tl }, modBy := modBy, modTime := modTime } ∧
      ∀ k, replicatedKind k = true → valuesAt k tl =
        if c then overlay (valuesAt k s.entry.tlData) (valuesAt k new.tlData)
        else valuesAt k s.entry.tlData := by
  cases c with
  | false => exact ⟨s.modBy, s.modTime, s.entry.tlData, rfl, fun k _ => rfl⟩
  | true =>
    obtain ⟨modBy, modTime, hmod⟩ := patch_modValues new
      { s with entry := setTl s.entry lastPwdChange (Wire.le 4 (pwStamp new).toNat) }
    refine ⟨modBy, modTime, updateAll (replicatedTl new)
      (Tagged.update lastPwdChange (Wire.le 4 (pwStamp new).toNat) s.entry.tlData), ?_, ?_⟩
    · simp only [if_true, List.flatMap_cons, List.flatMap_nil, List.append_nil, attrValues,
        List.foldlM_cons, List.foldlM_append, Patch.apply]
      show ((modValues new).foldlM Patch.apply _ >>= _) = _
      rw [hmod]
      by_cases he : (logTls new).isEmpty = true
      · have : replicatedTl new = [] := by
          rw [← logTls_kinds, List.isEmpty_iff.mp he]; rfl
        simp [he, this, bind, Except.bind, pure, Except.pure, setTl, updateAll]
      · simp only [he, if_false, Bool.false_eq_true, List.foldlM_cons, List.foldlM_nil, Patch.apply,
          foldl_setTl, logTls_kinds, bind, Except.bind, pure, Except.pure]
        rfl
    · intro k hk
      have hne : k ≠ lastPwdChange := by
        intro h; subst h; simp [replicatedKind] at hk
      rw [Tagged.valuesAt_updateAll, Tagged.valuesAt_update_ne hne, if_pos rfl]
      simp only [replicatedTl, Tagged.valuesAt_filter_kind, hk, if_true]

theorem finish_eq : ∃ tl, s.finish = { s.entry with tlData := tl } ∧
      ∀ k, replicatedKind k = true → valuesAt k tl = valuesAt k s.entry.tlData := by
  unfold Patch.finish
  cases s.modBy with
  | none => exact ⟨s.entry.tlData, rfl, fun _ _ => rfl⟩
  | some nr =>
    dsimp only
    by_cases ht : s.modTime ≠ 0
    · rw [if_pos ht]
      refine ⟨_, rfl, ?_⟩
      intro k hk
      apply Tagged.valuesAt_update_ne
      intro h; subst h; simp [replicatedKind] at hk
    · rw [if_neg ht]
      exact ⟨s.entry.tlData, rfl, fun _ _ => rfl⟩

structure Patched (cur rep new e : MitEntry) : Prop where
  attributes : e.attributes = carriedScalar cur.attributes new.attributes rep.attributes
  maxLife : e.maxLife = carriedScalar cur.maxLife new.maxLife rep.maxLife
  maxRenewableLife : e.maxRenewableLife =
    carriedScalar cur.maxRenewableLife new.maxRenewableLife rep.maxRenewableLife
  expiration : e.expiration = carriedScalar cur.expiration new.expiration rep.expiration
  pwExpiration : e.pwExpiration = carriedScalar cur.pwExpiration new.pwExpiration rep.pwExpiration
  keyData : e.keyData = if cur.keyData = new.keyData then rep.keyData else new.keyData.map padKey
  tlData : ∀ k, replicatedKind k = true → valuesAt k e.tlData =
    if cur.tlData = new.tlData then valuesAt k rep.tlData
    else overlay (valuesAt k rep.tlData) (valuesAt k new.tlData)

theorem patch_scalars (cur new : MitEntry) (s : Patch) : (((if cur.attributes ≠ new.attributes then [0] else []) ++
      ((if cur.maxLife ≠ new.maxLife then [1] else []) ++
      ((if cur.maxRenewableLife ≠ new.maxRenewableLife then [2] else []) ++
      ((if cur.expiration ≠ new.expiration then [3] else []) ++
      (if cur.pwExpiration ≠ new.pwExpiration then [4] else []))))).flatMap
        (attrValues new)).foldlM Patch.apply s =
      .ok { s with entry := patchedScalars cur new s.entry } := by
  simp only [List.flatMap_append, List.foldlM_append]
  rw [patch_scalar new 0 .attrFlags (·.attributes) (fun e v => { e with attributes := v })
    rfl (fun _ _ => rfl) (fun _ => rfl)]
  dsimp only [bind, Except.bind]
  rw [patch_scalar new 1 .maxLife (·.maxLife) (fun e v => { e with maxLife := v })
    rfl (fun _ _ => rfl) (fun _ => rfl)]
  dsimp only [bind, Except.bind]
  rw [patch_scalar new 2 .maxRenewLife (·.maxRenewableLife)
    (fun e v => { e with maxRenewableLife := v }) rfl (fun _ _ => rfl) (fun _ => rfl)]
  dsimp only [bind, Except.bind]
  rw [patch_scalar new 3 .exp (·.expiration) (fun e v => { e with expiration := v })
    rfl (fun _ _ => rfl) (fun _ => rfl)]
  dsimp only [bind, Except.bind]
  rw [patch_scalar new 4 .pwExp (·.pwExpiration) (fun e v => { e with pwExpiration := v })
    rfl (fun _ _ => rfl) (fun _ => rfl)]
  rfl

theorem changedAttrs_eq (cur new : MitEntry) : changedAttrs cur new =
      ((if cur.attributes ≠ new.attributes then [0] else []) ++
      ((if cur.maxLife ≠ new.maxLife then [1] else []) ++
      ((if cur.maxRenewableLife ≠ new.maxRenewableLife then [2] else []) ++
      ((if cur.expiration ≠ new.expiration then [3] else []) ++
      (if cur.pwExpiration ≠ new.pwExpiration then [4] else []))))) ++
      ((if princChanged cur new then [8] else []) ++
      ((if decide (cur.keyData ≠ new.keyData) then [9] else []) ++
      (if decide (cur.tlData ≠ new.tlData) then [10] else []))) := by
  simp only [changedAttrs, List.append_assoc, ne_iff_length_or_zip, decide_eq_true_eq]

theorem patch_values (cur new : MitEntry) (s : Patch) : (cur.keyData ≠ new.keyData ∧ versOk new.keyData = false ∧
      ((changedAttrs cur new).flatMap (attrValues new)).foldlM Patch.apply s =
        .error (.backend "invalid key data version in update")) ∨
    ((cur.keyData = new.keyData ∨ versOk new.keyData = true) ∧
      ∃ s', ((changedAttrs cur new).flatMap (attrValues new)).foldlM Patch.apply s = .ok s' ∧
        Patched cur s.entry new s'.entry) := by
  rw [changedAttrs_eq, List.flatMap_append, List.foldlM_append, patch_scalars]
  simp only [bind, Except.bind, List.flatMap_append, List.foldlM_append]
  obtain ⟨principal, realm, hprinc⟩ := patch_princ new (princChanged cur new)
    { s with entry := patchedScalars cur new s.entry }
  rw [hprinc]
  simp only [patch_keys]
  by_cases hk : cur.keyData = new.keyData
  · refine Or.inr ⟨Or.inl hk, ?_⟩
    simp only [hk, ne_eq, not_true, decide_false, if_true]
    obtain ⟨modBy, modTime, tl, htl, hval⟩ := patch_tl new (decide (cur.tlData ≠ new.tlData))
      { s with entry := { patchedScalars cur new s.entry with principal := principal, realm := realm } }
    refine ⟨_, htl, ⟨rfl, rfl, rfl, rfl, rfl, by simp [hk, patchedScalars], ?_⟩⟩
    intro k hkind
    rw [hval k hkind]
    by_cases ht : cur.tlData = new.tlData <;> simp [ht, patchedScalars]
  · cases hv : versOk new.keyData with
    | false => exact Or.inl ⟨hk, rfl, by simp [hk]⟩
    | true =>
      refine Or.inr ⟨Or.inr rfl, ?_⟩
      simp only [hk, ne_eq, not_false_eq_true, decide_true, Bool.true_eq_false, if_false, if_true]
      obtain ⟨modBy, modTime, tl, htl, hval⟩ := patch_tl new (decide (cur.tlData ≠ new.tlData))
        { s with entry := { patchedScalars cur new s.entry with
          principal := principal, realm := realm, keyData := new.keyData.map padKey } }
      refine ⟨_, htl, ⟨rfl, rfl, rfl, rfl, rfl, by simp [hk], ?_⟩⟩
      intro k hkind
      rw [hval k hkind]
      by_cases ht : cur.tlData = new.tlData <;> simp [ht, patchedScalars]

theorem entryFromUpdate_cases (cur rep new : MitEntry) : (cur.keyData ≠ new.keyData ∧ versOk new.keyData = false ∧
      entryFromUpdate (some rep) (updateFromEntry (some cur) new) =
        .error (.backend "invalid key data version in update")) ∨
    ((cur.keyData = new.keyData ∨ versOk new.keyData = true) ∧
      ∃ e, entryFromUpdate (some rep) (updateFromEntry (some cur) new) = .ok e ∧
        Patched cur rep new e) := by
  unfold entryFromUpdate updateFromEntry
  simp only [bind, Except.bind]
  rcases patch_values cur new { entry := rep, modBy := none, modTime := 0 } with
    ⟨hk, hv, hs⟩ | ⟨hk, s', hs, hp⟩
  · exact Or.inl ⟨hk, hv, by rw [hs]⟩
  refine Or.inr ⟨hk, s'.finish, by rw [hs], ?_⟩
  obtain ⟨tl, hf, hval⟩ := finish_eq s'
  rw [hf]
  exact ⟨hp.attributes, hp.maxLife, hp.maxRenewableLife, hp.expiration, hp.pwExpiration, hp.keyData,
    fun k hkind => (hval k hkind).trans (hp.tlData k hkind)⟩

/-! ## Faithful exactly when the update carries the change -/

theorem patched_replicates_iff {cur rep new e : MitEntry} (h : Replicates rep cur)
    (hp : Patched cur rep new e) (hv : cur.keyData = new.keyData ∨ versOk new.keyData = true) :
    Replicates e new ↔ Carries cur rep new := by
  have hkeys : e.keyData = new.keyData ↔ keysCarried cur.keyData new.keyData := by
    rw [hp.keyData]
    unfold keysCarried
    by_cases hk : cur.keyData = new.keyData
    · simp [hk, h.keyData]
    rw [if_neg hk, map_padKey_eq_iff]
    have hver : ∀ k ∈ new.keyData, k.ver.toNat ≤ 2 := by
      simpa [versOk] using hv.resolve_left hk
    constructor
    · intro hf
      exact Or.inr fun k hk => ⟨hver k hk, hf k hk⟩
    · intro hf k hk'
      exact ((hf.resolve_left hk) k hk').2
  have htl : (replicatedTl e).Perm (replicatedTl new) ↔
      tlCarried cur.tlData rep.tlData new.tlData := by
    rw [replicatedTl_perm_iff]
    unfold tlCarried
    by_cases ht : cur.tlData = new.tlData
    · simp only [ht, true_or, iff_true]
      intro k hk
      rw [hp.tlData k hk, if_pos ht, ← ht]
      exact replicatedTl_perm_iff.mp h.tlData k hk
    · simp only [ht, false_or]
      apply forall_congr'
      intro k
      apply forall_congr'
      intro hk
      rw [hp.tlData k hk, if_neg ht]
      exact Tagged.overlay_perm_iff _ _
  constructor
  · intro hr
    exact ⟨(carriedScalar_eq_iff h.attributes).mp (hp.attributes ▸ hr.attributes),
      (carriedScalar_eq_iff h.maxLife).mp (hp.maxLife ▸ hr.maxLife),
      (carriedScalar_eq_iff h.maxRenewableLife).mp (hp.maxRenewableLife ▸ hr.maxRenewableLife),
      (carriedScalar_eq_iff h.expiration).mp (hp.expiration ▸ hr.expiration),
      (carriedScalar_eq_iff h.pwExpiration).mp (hp.pwExpiration ▸ hr.pwExpiration),
      hkeys.mp hr.keyData, htl.mp hr.tlData⟩
  · intro hc
    exact ⟨hp.attributes.trans ((carriedScalar_eq_iff h.attributes).mpr hc.attributes),
      hp.maxLife.trans ((carriedScalar_eq_iff h.maxLife).mpr hc.maxLife),
      hp.maxRenewableLife.trans ((carriedScalar_eq_iff h.maxRenewableLife).mpr hc.maxRenewableLife),
      hp.expiration.trans ((carriedScalar_eq_iff h.expiration).mpr hc.expiration),
      hp.pwExpiration.trans ((carriedScalar_eq_iff h.pwExpiration).mpr hc.pwExpiration),
      hkeys.mpr hc.keyData, htl.mpr hc.tlData⟩

theorem faithful_iff {cur rep : MitEntry} (h : Replicates rep cur) :
    (∃ e, entryFromUpdate (some rep) (updateFromEntry (some cur) new) = .ok e ∧ Replicates e new) ↔
      Carries cur rep new := by
  rcases entryFromUpdate_cases cur rep new with ⟨hk, hv, herr⟩ | ⟨hv, e, hok, hp⟩
  · rw [herr]
    constructor
    · rintro ⟨e, he, -⟩
      cases he
    · intro hc
      have hver : versOk new.keyData = true := by
        simp only [versOk, List.all_eq_true, decide_eq_true_eq]
        intro k hk'
        exact ((hc.keyData.resolve_left hk) k hk').1
      rw [hv] at hver
      cases hver
  · rw [hok, ← patched_replicates_iff h hp hv]
    constructor
    · rintro ⟨e', he, hr⟩
      cases he
      exact hr
    · intro hr
      exact ⟨e, rfl, hr⟩

def follow (cur rep : MitEntry) : List MitEntry → Except StoreError MitEntry
  | [] => .ok rep
  | new :: news => do
    let rep' ← entryFromUpdate (some rep) (updateFromEntry (some cur) new)
    follow new rep' news

/-- Every update of the run carries its change to the replica's entry before it. -/
def CarriesAll (cur rep : MitEntry) : List MitEntry → Prop
  | [] => True
  | new :: news => Carries cur rep new ∧
    ∀ rep', entryFromUpdate (some rep) (updateFromEntry (some cur) new) = .ok rep' →
      CarriesAll new rep' news

theorem follow_iff (news : List MitEntry) : ∀ cur rep : MitEntry, Replicates rep cur →
      ((∀ n ≤ news.length, ∃ e, follow cur rep (news.take n) = .ok e ∧
          Replicates e ((news.take n).getLastD cur)) ↔ CarriesAll cur rep news) := by
  induction news with
  | nil =>
    intro cur rep h
    simp only [CarriesAll, iff_true, List.take_nil]
    intro n _
    exact ⟨rep, rfl, h⟩
  | cons new news ih =>
    intro cur rep h
    constructor
    · intro hall
      have hstep : ∃ e, entryFromUpdate (some rep) (updateFromEntry (some cur) new) = .ok e ∧
          Replicates e new := by
        obtain ⟨e, he, hr⟩ := hall 1 (by simp)
        refine ⟨e, ?_, by simpa using hr⟩
        cases hu : entryFromUpdate (some rep) (updateFromEntry (some cur) new) with
        | error err => simp [follow, hu, bind, Except.bind] at he
        | ok e' => simpa [follow, hu, bind, Except.bind] using he
      refine ⟨(faithful_iff new h).mp hstep, ?_⟩
      intro rep' hrep'
      obtain ⟨e, he, hr⟩ := hstep
      cases hrep'.symm.trans he
      apply (ih new rep' hr).mp
      intro n hn
      obtain ⟨e, he, hr⟩ := hall (n + 1) (by simpa using hn)
      rw [List.take_succ_cons, List.getLastD_cons] at hr
      exact ⟨e, by simpa [follow, hrep', bind, Except.bind] using he, hr⟩
    · rintro ⟨hc, hrest⟩ n hn
      cases n with
      | zero => exact ⟨rep, rfl, h⟩
      | succ n =>
        obtain ⟨rep', hrep', hr⟩ := (faithful_iff new h).mpr hc
        obtain ⟨e, he, hr'⟩ := (ih new rep' hr).mpr (hrest rep' hrep') n (by simpa using hn)
        rw [List.take_succ_cons, List.getLastD_cons]
        exact ⟨e, by simpa [follow, hrep', bind, Except.bind] using he, hr'⟩

/-- One update brings a replica equal to the primary to the new entry exactly when it carries the
change; and the replica equals the primary all along a run exactly when every update does. -/
theorem iprop_faithful_iff_carries (cur : MitEntry) :
    (∀ new, (∃ e, entryFromUpdate (some cur) (updateFromEntry (some cur) new) = .ok e ∧
        Replicates e new) ↔ Carries cur cur new) ∧
    (∀ news : List MitEntry,
      (∀ n ≤ news.length, ∃ e, follow cur cur (news.take n) = .ok e ∧
        Replicates e ((news.take n).getLastD cur)) ↔ CarriesAll cur cur news) :=
  ⟨fun new => faithful_iff new (Replicates.refl cur),
    fun news => follow_iff news cur cur (Replicates.refl cur)⟩

end

section
attribute [local instance] Alphabet.ascii

def aliceEntry : MitEntry :=
  { emptyEntry ⟨1, [⟨[97, 108, 105, 99, 101], rfl⟩]⟩ ⟨[65], rfl⟩ with
    attributes := 128
    tlData := [⟨lastPwdChange, [1, 0, 0, 0]⟩, ⟨stringAttrs, [97, 0, 98, 0]⟩] }

theorem aliceEntry_update_faithful : ∃ e, entryFromUpdate (some aliceEntry)
        (updateFromEntry (some aliceEntry) { aliceEntry with
          expiration := 2000000000
          tlData := [⟨lastPwdChange, [2, 0, 0, 0]⟩, ⟨stringAttrs, [97, 0, 99, 0]⟩] }) = .ok e ∧
      Replicates e { aliceEntry with
          expiration := 2000000000
          tlData := [⟨lastPwdChange, [2, 0, 0, 0]⟩, ⟨stringAttrs, [97, 0, 99, 0]⟩] } := by
  apply ((iprop_faithful_iff_carries aliceEntry).1 _).mpr
  refine ⟨Or.inl rfl, Or.inl rfl, Or.inl rfl, Or.inr (by decide), Or.inl rfl, Or.inl rfl, Or.inr ?_⟩
  intro k hk
  have hne : ¬ lastPwdChange = k := fun h => by subst h; revert hk; decide
  by_cases hs : stringAttrs = k
  · subst hs
    simp [aliceEntry, valuesAt, hne]
  · simp [aliceEntry, valuesAt, hne, hs]

/-- An expiration past 2038 and the removal of a string attribute do not reach the replica. -/
theorem iprop_not_faithful : ¬ (∃ e, entryFromUpdate (some aliceEntry)
        (updateFromEntry (some aliceEntry) { aliceEntry with expiration := 2147483648 }) = .ok e ∧
      Replicates e { aliceEntry with expiration := 2147483648 }) ∧
    ¬ (∃ e, entryFromUpdate (some aliceEntry)
        (updateFromEntry (some aliceEntry) { aliceEntry with tlData := [⟨lastPwdChange, [1, 0, 0, 0]⟩] }) =
          .ok e ∧
      Replicates e { aliceEntry with tlData := [⟨lastPwdChange, [1, 0, 0, 0]⟩] }) := by
  constructor
  · rintro ⟨e, he, hr⟩
    have := hr.expiration
    cases he
    revert this
    decide
  · rintro ⟨e, he, hr⟩
    have := hr.tlData.length_eq
    cases he
    revert this
    decide

end

end Iprop

end Krb5Rs
